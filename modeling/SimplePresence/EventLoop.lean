import SimplePresence.Memory
import SimplePresence.Client

/-!
The memory of the event loops.

Both programs are callbacks that libuv calls back, in any order. What they allocate is handed
to libuv, which calls back once for a request it has accepted and once for a handle that is
closed; the callbacks free. `malloc` may return a null pointer at any call, and any address
that is free. A send hands libuv a buffer on the stack of the callback: the kernel takes some
of it at once, and what is left is read when the callback has returned.

The programs run below verbosity 2. Above it the UDP callbacks print what they are about to
send, or have put, and may read past the item they print it from: that is left to `Shown`.
-/

namespace SimplePresence.EventLoop

open SimplePresence.Uid SimplePresence.Item SimplePresence.OrderedMap SimplePresence.Query
open SimplePresence.Machine SimplePresence.Memory SimplePresence.Listener SimplePresence.Service

abbrev Addr := ℕ

inductive Block
  | buffer (bytes : List UInt8)
  /-- An `uv_tcp_t`. -/
  | client
  /-- An `uv_write_t` or an `uv_udp_send_t`. -/
  | request
  deriving DecidableEq, Repr

inductive LoopFault
  | pointer (e : BadPointer)
  /-- `uv_close` of a handle that is closing, which libuv aborts on. -/
  | closing
  | store (e : Fault)
  deriving DecidableEq, Repr

/-- What libuv does with a connection; a closing one is called back for with `onCloseClient`,
or with nothing. -/
inductive Phase
  | idle
  | reading
  | closing (callback : Bool)
  deriving DecidableEq, Repr

/-- What libuv makes of a send: it refuses it, and will not call back; or the kernel takes some
of the bytes at once. -/
inductive Verdict
  | refused
  | took (n : ℕ)
  deriving DecidableEq, Repr

inductive Seen
  | wire (bytes : List UInt8)
  | refused (req : Addr)
  /-- libuv is done with a handle that nobody is called back for. -/
  | orphaned (client : Addr)
  deriving DecidableEq, Repr

/-- The heap, the handles of connections and the requests in flight that libuv knows, with the
number of bytes of each request that the kernel has not taken, and the records. -/
structure Loop (σ : Type) where
  heap : Heap Addr Block
  handles : Table Addr Phase
  flight : Table Addr ℕ
  stopped : Bool
  presence : σ

/-- The blocks libuv knows of. -/
def Loop.blocks {σ : Type} (L : Loop σ) : List (Addr × Block) :=
  L.handles.entries.map (fun e => (e.1, .client)) ++
    L.flight.entries.map fun e => (e.1, .request)

/-! ### Allocation -/

def allocBuffer (heap : Heap Addr Block) (m : Option Addr) : Option Addr × Heap Addr Block :=
  heap.malloc m (.buffer [])

def freeBuffer (heap : Heap Addr Block) (base : Option Addr) : Except LoopFault (Heap Addr Block) :=
  match base with
  | none => .ok heap
  | some p => (heap.free p).mapError .pointer

def allocReq (heap : Heap Addr Block) (m : Option Addr) : Option Addr × Heap Addr Block :=
  heap.malloc m .request

def allocClient (heap : Heap Addr Block) (m : Option Addr) : Option Addr × Heap Addr Block :=
  heap.malloc m .client

def freeClient (heap : Heap Addr Block) (value : Option Addr) :
    Except LoopFault (Heap Addr Block) :=
  match value with
  | none => .ok heap
  | some p => (heap.free p).mapError .pointer

def onCloseClient (heap : Heap Addr Block) (handle : Addr) : Except LoopFault (Heap Addr Block) :=
  freeClient heap (some handle)

/-! ### What libuv is asked for -/

/-- A pointer that is written through at once. -/
def touch (heap : Heap Addr Block) (p : Option Addr) : Except LoopFault Addr :=
  match p with
  | none => .error (.pointer .null)
  | some p => ((heap.load p).mapError .pointer).map fun _ => p

def bytesAt (heap : Heap Addr Block) (p : Option Addr) : Except LoopFault (List UInt8) :=
  match p with
  | none => .error (.pointer .null)
  | some p =>
    match heap.load p with
    | .error e => .error (.pointer e)
    | .ok (.buffer bytes) => .ok bytes
    | .ok _ => .error (.pointer .dead)

section

variable {σ : Type}

def uvTcpInit (L : Loop σ) (client : Option Addr) : Except LoopFault (Addr × Loop σ) := do
  let p ← touch L.heap client
  .ok (p, { L with handles := L.handles.put p .idle })

def uvClose (L : Loop σ) (handle : Addr) (callback : Bool) : Except LoopFault (Loop σ) := do
  let p ← touch L.heap (some handle)
  match L.handles.get p with
  | none => .error (.pointer .dead)
  | some (.closing _) => .error .closing
  | some _ => .ok { L with handles := L.handles.put p (.closing callback) }

/-- `uv_write` and `uv_udp_send`; `req` is written through before either is called. -/
def uvSend (L : Loop σ) (req : Option Addr) (bytes : List UInt8) (v : Verdict) :
    Except LoopFault (Option Seen × Loop σ) := do
  let p ← touch L.heap req
  match v with
  | .refused => .ok (some (.refused p), L)
  | .took n =>
    .ok (some (.wire (bytes.take n)), { L with flight := L.flight.put p (bytes.length - n) })

def uvENobufs : ℤ := -105

/-- What libuv hands a read callback: the count, the buffer, and the heap. -/
def uvRead (heap : Heap Addr Block) (m : Option Addr) (readCount : ℤ) (base : List UInt8) :
    Except LoopFault (ℤ × Option Addr × Heap Addr Block) :=
  match allocBuffer heap m with
  | (none, heap) => .ok (uvENobufs, none, heap)
  | (some p, heap) => ((heap.store p (.buffer base)).mapError .pointer).map fun heap =>
      (readCount, some p, heap)

/-! ### The callbacks of both programs -/

/-- `onConnect`; `m` is what `malloc` is offered, `accept` and `readStart` what `uv_accept` and
`uv_read_start` return. -/
def onConnect (L : Loop σ) (status : ℤ) (m : Option Addr) (accept readStart : ℤ) :
    Except LoopFault (Loop σ) :=
  if status < 0 then .ok L
  else do
    let (client, heap) := allocClient L.heap m
    let (p, L) ← uvTcpInit { L with heap := heap } client
    if accept = 0 then
      -- what `uv_read_start` returns is not looked at
      if readStart = 0 then .ok { L with handles := L.handles.put p .reading } else .ok L
    else uvClose L p true

variable [Presence σ]

/-- `onReadTCP` where there is something to send. -/
def sendTCP (L : Loop σ) (client : Addr) (bytes : List UInt8) (m : Option Addr) (v : Verdict) :
    Except LoopFault (Option Seen × Loop σ) := do
  let (req, heap) := allocReq L.heap m
  let _ ← touch heap (some client)
  uvSend { L with heap := heap } req bytes v

/-- `onReadTCP`; `addr` is what its local `addr` holds before `uv_tcp_getpeername`. -/
def onReadTCP (L : Loop σ) (client : Addr) (readCount : ℤ) (buf : Option Addr) (addr : Sockaddr)
    (peer : Option Sockaddr) (now : Readings) (m : Option Addr) (v : Verdict) :
    Except LoopFault (Option Seen × Loop σ) :=
  if readCount ≤ 0 then do
    let L ← uvClose L client true
    let heap ← freeBuffer L.heap buf
    .ok (none, { L with heap := heap })
  else do
    let base ← bytesAt L.heap buf
    let (a, s) ← (query L.presence (getpeername peer addr) (base.take readCount.toNat)
      now).mapError .store
    let (seen, L) ←
      (if a.ret > 0 then sendTCP { L with presence := s } client (a.retBuf.take a.ret) m v
      else .ok (none, { L with presence := s }))
    let heap ← freeBuffer L.heap buf
    .ok (seen, { L with heap := heap })

/-- `onUDPRead` and `onTimer` where there is something to send: a null pointer is let be. -/
def sendUDP (L : Loop σ) (bytes : List UInt8) (m : Option Addr) (v : Verdict) :
    Except LoopFault (Option Seen × Loop σ) :=
  match L.heap.malloc m .request with
  | (none, heap) => .ok (none, { L with heap := heap })
  | (some req, heap) => uvSend { L with heap := heap } (some req) bytes v

/-- The callback that every send is given: `if (req) free(req)`. Of what was left of the buffer
libuv has handed the kernel what lies there by now, `frame`, or it has given up. -/
def onSent (L : Loop σ) (req : Addr) (rest : ℕ) (frame : Option (List UInt8)) :
    Except LoopFault (Option Seen × Loop σ) := do
  let heap ← (L.heap.free req).mapError .pointer
  .ok (if rest = 0 then none else frame.map fun b => .wire (b.takeD rest 0),
    { L with heap := heap, flight := L.flight.remove req })

/-- libuv is done with a handle that was closed. -/
def onClosed (L : Loop σ) (client : Addr) (callback : Bool) :
    Except LoopFault (Option Seen × Loop σ) :=
  let L := { L with handles := L.handles.remove client }
  if callback then do
    let heap ← onCloseClient L.heap client
    .ok (none, { L with heap := heap })
  else .ok (some (.orphaned client), L)

/-! ### The two programs -/

def UVListener.onUDPRead (L : Loop σ) (bytesRead : ℤ) (buf : Option Addr) (addr : Sockaddr)
    (now : Readings) (m : Option Addr) (v : Verdict) : Except LoopFault (Option Seen × Loop σ) := do
  let (seen, L) ←
    (if bytesRead < 0 then .ok (none, L)
    else if bytesRead = 0 then .ok (none, L)
    else do
      let base ← bytesAt L.heap buf
      let (a, s) ← (query L.presence addr (base.take bytesRead.toNat) now).mapError .store
      if a.ret > 0 then sendUDP { L with presence := s } (a.retBuf.take a.ret) m v
      else .ok (none, { L with presence := s }))
  let heap ← freeBuffer L.heap buf
  .ok (seen, { L with heap := heap })

def UVClient.onUDPRead (L : Loop σ) (bytesRead : ℤ) (buf : Option Addr) (now : Readings) :
    Except LoopFault (Option Seen × Loop σ) := do
  let L ←
    (if bytesRead < 0 then .ok L
    else if bytesRead = 0 then .ok L
    else if bytesRead = 32 then do
      let base ← bytesAt L.heap buf
      let s ← (Presence.put L.presence now.put
        (PresenceItem.ofBuffer now.ctor base)).mapError .store
      .ok { L with presence := s }
    else .ok L)
  let heap ← freeBuffer L.heap buf
  .ok (none, { L with heap := heap })

def UVClient.onTimer (uid : UID) (L : Loop σ) (m : Option Addr) (v : Verdict) :
    Except LoopFault (Option Seen × Loop σ) :=
  sendUDP L (uid.data.take 16) m v

inductive Program
  | service
  | client (uid : UID)
  deriving DecidableEq, Repr

/-- The handle is closed with nothing to call back, when it is not closing already. -/
def walk : Phase → Phase
  | .closing callback => .closing callback
  | _ => .closing false

/-- `UVListener::stop` and `UVClient::stop`, until libuv calls back for what it closes. -/
def stop (L : Loop σ) : Loop σ :=
  if L.stopped then L
  else { L with stopped := true, handles := L.handles.map walk }

inductive Event
  | connect (status : ℤ) (m : Option Addr) (accept readStart : ℤ)
  | readTCP (client : Addr) (mbuf : Option Addr) (r : Read) (peer : Option Sockaddr)
      (m : Option Addr) (v : Verdict)
  | readUDP (mbuf : Option Addr) (bytesRead : ℤ) (base : List UInt8) (addr : Sockaddr)
      (now : Readings) (m : Option Addr) (v : Verdict)
  | timer (m : Option Addr) (v : Verdict)
  | sent (req : Addr) (frame : Option (List UInt8))
  | closed (client : Addr)
  | stop

/-- One turn of the loop. libuv reads from connections that are open, calls back for requests
in flight and for handles that are closing, and after `stop` for nothing else. -/
def step (P : Program) (L : Loop σ) : Event → Except LoopFault (Option Seen × Loop σ)
  | .connect status m accept readStart =>
    if L.stopped then .ok (none, L)
    else (onConnect L status m accept readStart).map fun L => (none, L)
  | .readTCP client mbuf r peer m v =>
    if L.handles.get client = some .reading then do
      let (readCount, buf, heap) ← uvRead L.heap mbuf r.readCount r.base
      onReadTCP { L with heap := heap } client readCount buf r.addr peer r.now m v
    else .ok (none, L)
  | .readUDP mbuf bytesRead base addr now m v =>
    if L.stopped then .ok (none, L)
    else do
      let (bytesRead, buf, heap) ← uvRead L.heap mbuf bytesRead base
      match P with
      | .service => UVListener.onUDPRead { L with heap := heap } bytesRead buf addr now m v
      | .client _ => UVClient.onUDPRead { L with heap := heap } bytesRead buf now
  | .timer m v =>
    match P with
    | .service => .ok (none, L)
    | .client uid => if L.stopped then .ok (none, L) else UVClient.onTimer uid L m v
  | .sent req frame =>
    match L.flight.get req with
    | none => .ok (none, L)
    | some rest => onSent L req rest frame
  | .closed client =>
    match L.handles.get client with
    | some (.closing callback) => onClosed L client callback
    | _ => .ok (none, L)
  | .stop => .ok (none, stop L)

end

end SimplePresence.EventLoop
