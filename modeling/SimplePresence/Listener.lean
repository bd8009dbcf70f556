import SimplePresence.Service

/-!
The read callbacks of the service.

Either callback hands what it was given to `query` as one request, and sends what `query`
answers. Over TCP the bytes of a callback are whatever the stream was cut into, and nothing
is kept between two callbacks of a connection.
-/

namespace SimplePresence.Listener

open SimplePresence.Uid SimplePresence.Item SimplePresence.OrderedMap SimplePresence.Query
open SimplePresence.Store SimplePresence.Machine SimplePresence.Service

/-- The first `sz` bytes of the write buffer, when there are any to send. -/
def sent (a : Answer) : Option (List UInt8) :=
  if a.ret > 0 then some (a.retBuf.take a.ret) else none

lemma sent_record (u : UID) (b : Sockaddr) :
    sent ⟨32, u.data ++ b.bytes⟩ = some (u.data ++ b.bytes) := by
  have hlen := length_append_bytes u b
  unfold sent
  rw [if_pos (Nat.succ_pos 31), List.take_of_length_le hlen.le]

/-- `uv_tcp_getpeername` on a local `addr`: it fills it, or fails and leaves it. -/
def getpeername (peer : Option Sockaddr) (addr : Sockaddr) : Sockaddr := peer.getD addr

/-- What a read callback does to its connection. -/
structure Effect where
  reply : Option (List UInt8)
  closed : Bool
  deriving DecidableEq, Repr

section

variable {σ : Type*} [Presence σ]

def onUDPRead (s : σ) (bytesRead : ℤ) (base : List UInt8) (addr : Sockaddr) (now : Readings) :
    Except Fault (Option (List UInt8) × σ) :=
  if bytesRead < 0 then .ok (none, s)
  else if bytesRead = 0 then .ok (none, s)
  else
    match query s addr (base.take bytesRead.toNat) now with
    | .error e => .error e
    | .ok (a, s) => .ok (sent a, s)

/-- `onReadTCP`; `addr` is what its local `addr` holds before `uv_tcp_getpeername`. -/
def onReadTCP (s : σ) (addr : Sockaddr) (peer : Option Sockaddr) (readCount : ℤ)
    (base : List UInt8) (now : Readings) : Except Fault (Effect × σ) :=
  if readCount ≤ 0 then .ok (⟨none, true⟩, s)
  else
    match query s (getpeername peer addr) (base.take readCount.toNat) now with
    | .error e => .error e
    | .ok (a, s) => .ok (⟨sent a, false⟩, s)

/-- All that is sent was written: no byte of the write buffer is sent as it was. -/
lemma query_ret_le {s s' : σ} {addr : Sockaddr} {buf : List UInt8} {now : Readings} {a : Answer}
    (h : query s addr buf now = .ok (a, s')) : a.ret ≤ a.retBuf.length := by
  rcases buf_cases buf with ho | ⟨src, rfl⟩ | ⟨src, dest, rfl⟩
  · rw [query_other s addr now ho] at h
    cases h
    exact le_rfl
  · obtain ⟨-, rfl⟩ := query_ping.mp h
    simp [src.length_data, addr.length_bytes]
  · obtain ⟨s₁, -, rfl, -⟩ := query_lookup.mp h
    unfold reply
    split
    · simp [dest.length_data, Sockaddr.length_bytes]
    · simp

/-! ### A connection -/

/-- One read callback of a connection: its arguments, its uninitialised local, and the clock. -/
structure Read where
  readCount : ℤ
  base : List UInt8
  addr : Sockaddr
  now : Readings

/-- Whether a connection is still read from, and the store. -/
structure Conn (σ : Type*) where
  reading : Bool
  store : σ

/-- `libuv` calls back for a connection until it is closed. -/
def Conn.step (peer : Option Sockaddr) (c : Conn σ) (r : Read) :
    Except Fault (Option (List UInt8) × Conn σ) :=
  if c.reading then
    match onReadTCP c.store r.addr peer r.readCount r.base r.now with
    | .error e => .error e
    | .ok (eff, s) => .ok (eff.reply, ⟨!eff.closed, s⟩)
  else .ok (none, c)

/-- The replies sent on a connection from `peer`, and the store in the end. -/
def tcpRun (peer : Option Sockaddr) (s : σ) (reads : List Read) :
    Except Fault (List (List UInt8) × σ) :=
  (run (Conn.step peer) ⟨true, s⟩ reads).map fun r => (r.1.filterMap id, r.2.store)

/-- The replies to some requests handed to `query` one by one, and the store in the end. -/
def queryRun (s : σ) (rs : List Request) : Except Fault (List (List UInt8) × σ) :=
  (serve s rs).map fun r => (r.1.filterMap sent, r.2)

/-- The bytes a callback brings. -/
def Read.bytes (r : Read) : List UInt8 := r.base.take r.readCount.toNat

/-- The request a callback makes of its bytes. -/
def Read.request (peer : Sockaddr) (r : Read) : Request := ⟨peer, r.bytes, r.now⟩

/-- The callback brings one request of its peer, whole and alone. -/
def Read.Carries (peer : Sockaddr) (r : Read) (q : Request) : Prop :=
  q.addr = peer ∧ r.bytes = q.buf ∧ r.now = q.now

lemma conn_step_pos {peer : Sockaddr} {s : σ} {r : Read} (h : 0 < r.readCount) :
    Conn.step (some peer) ⟨true, s⟩ r =
      (handle s (r.request peer)).map fun q => (sent q.1, ⟨true, q.2⟩) := by
  unfold Conn.step onReadTCP handle Read.request Read.bytes getpeername
  rw [if_pos rfl, if_neg (by omega)]
  simp only [Option.getD_some]
  cases query s peer (List.take r.readCount.toNat r.base) r.now with
  | error e => rfl
  | ok q => rfl

/-- The callbacks before the one that closes the connection. -/
def heard (reads : List Read) : List Read := reads.takeWhile fun r => decide (0 < r.readCount)

/-- Nothing is read from a connection that was closed. -/
lemma run_closed (peer : Option Sockaddr) (s : σ) (reads : List Read) :
    run (Conn.step peer) ⟨false, s⟩ reads = .ok (List.replicate reads.length none, ⟨false, s⟩) := by
  induction reads with
  | nil => rfl
  | cons r reads ih =>
    have hstep : Conn.step peer ⟨false, s⟩ r = .ok (none, ⟨false, s⟩) := rfl
    rw [run, hstep]
    dsimp only
    rw [ih]
    rfl

/-- As long as callbacks bring bytes, each is one call of `query`. -/
lemma tcpRun_eq (peer : Sockaddr) (s : σ) (reads : List Read) :
    tcpRun (some peer) s reads = queryRun s ((heard reads).map (Read.request peer)) := by
  induction reads generalizing s with
  | nil => rfl
  | cons r reads ih =>
    by_cases h : 0 < r.readCount
    · have hheard : heard (r :: reads) = r :: heard reads :=
        List.takeWhile_cons_of_pos (by simpa using h)
      rw [hheard, List.map_cons]
      unfold tcpRun queryRun serve at ih ⊢
      rw [run, run, conn_step_pos h]
      cases handle s (r.request peer) with
      | error e => rfl
      | ok q =>
        have ih' := ih q.2
        dsimp only [Except.map] at ih' ⊢
        cases hrun : run (Conn.step (some peer)) ⟨true, q.2⟩ reads <;>
          cases hserve : run handle q.2 ((heard reads).map (Read.request peer)) <;>
          simp_all [List.filterMap_cons]
    · have hheard : heard (r :: reads) = [] := List.takeWhile_cons_of_neg (by simpa using h)
      have hstep : Conn.step (some peer) ⟨true, s⟩ r = .ok (none, ⟨false, s⟩) := by
        unfold Conn.step onReadTCP
        rw [if_pos rfl, if_pos (by omega)]
        rfl
      rw [hheard]
      unfold tcpRun
      rw [run, hstep]
      dsimp only
      rw [run_closed]
      simp [Except.map, queryRun]

/-- Buffers that are not requests leave no trace. -/
lemma queryRun_filter (s : σ) (rs : List Request) :
    queryRun s (rs.filter fun r => IsRequest r.buf) = queryRun s rs := by
  refine run_filter _ sent (fun r hr s => ⟨⟨0, []⟩, ?_, rfl⟩) s rs
  exact query_other s r.addr r.now (by simpa using hr)

end

lemma map_request_of_carries {peer : Sockaddr} {reads : List Read} {reqs : List Request}
    (h : List.Forall₂ (Read.Carries peer) reads reqs) : reads.map (Read.request peer) = reqs := by
  induction h with
  | nil => rfl
  | cons hc _ ih =>
    obtain ⟨h₁, h₂, h₃⟩ := hc
    rw [List.map_cons, ih, Read.request, ← h₁, h₂, h₃]

/-- **A callback is a request.** However a stream is cut into callbacks, the replies on the
connection and the store are those of handing to `query` the bytes of each callback up to the
first that brings none, callbacks of other lengths than 16 and 32 being dropped; so they are
those of the requests written when the callbacks of 16 and 32 bytes bring these, each whole and
alone. -/
theorem tcp_callback_is_request (peer : Sockaddr) (s : MemPresence) (reads : List Read) :
    tcpRun (some peer) s reads = queryRun s ((heard reads).map (Read.request peer)) ∧
    ∀ reqs : List Request,
      List.Forall₂ (Read.Carries peer) ((heard reads).filter fun r => IsRequest r.bytes) reqs →
      tcpRun (some peer) s reads = queryRun s reqs := by
  refine ⟨tcpRun_eq peer s reads, fun reqs h => ?_⟩
  rw [tcpRun_eq, ← queryRun_filter, ← map_request_of_carries h, List.filter_map]
  rfl

/-- A callback that brings all of some bytes, at a time when the clock reads zero. -/
def callback (bytes : List UInt8) : Read :=
  ⟨bytes.length, bytes, Sockaddr.ofBytes [], ⟨0, 0, 0⟩⟩

def peerA : Sockaddr := Sockaddr.ofBytes [2, 0, 7, 232, 10, 0, 0, 1]

/-- A ping, three stray bytes and a lookup of the pinged identifier, a callback each. -/
theorem tcp_callback_is_request_whole :
    tcpRun (some peerA) MemPresence.empty
        [callback (UID.ofBytes [1]).data, callback [0, 0, 1],
          callback ((UID.ofBytes [2]).data ++ (UID.ofBytes [1]).data)] =
      queryRun MemPresence.empty
        [⟨peerA, (UID.ofBytes [1]).data, ⟨0, 0, 0⟩⟩,
          ⟨peerA, (UID.ofBytes [2]).data ++ (UID.ofBytes [1]).data, ⟨0, 0, 0⟩⟩] :=
  (tcp_callback_is_request peerA MemPresence.empty _).2 _
    (.cons ⟨rfl, rfl, rfl⟩ (.cons ⟨rfl, rfl, rfl⟩ .nil))

/-- Two pings in one callback are a lookup, and a lookup in two callbacks is two pings, which
register the identifier that was only asked for. -/
theorem tcp_cut_matters :
    tcpRun (some peerA) MemPresence.empty
        [callback ((UID.ofBytes [1]).data ++ (UID.ofBytes [2]).data)] ≠
      queryRun MemPresence.empty
        [⟨peerA, (UID.ofBytes [1]).data, ⟨0, 0, 0⟩⟩, ⟨peerA, (UID.ofBytes [2]).data, ⟨0, 0, 0⟩⟩] ∧
    (∃ rs s, tcpRun (some peerA) MemPresence.empty
        [callback (UID.ofBytes [1]).data, callback (UID.ofBytes [2]).data] = .ok (rs, s) ∧
      Holds s (UID.ofBytes [2]) ⟨0, peerA⟩) ∧
    ∃ rs s, queryRun MemPresence.empty
        [⟨peerA, (UID.ofBytes [1]).data ++ (UID.ofBytes [2]).data, ⟨0, 0, 0⟩⟩] = .ok (rs, s) ∧
      ∀ r, ¬ Holds s (UID.ofBytes [2]) r := by
  refine ⟨fun h => ?_, ⟨_, _, rfl, by unfold Holds; decide⟩, ⟨_, _, rfl, fun r hr => ?_⟩⟩
  · have hlen := congrArg (fun x => x.toOption.map fun q => q.1.length) h
    exact absurd hlen (by decide)
  · have hkey := List.mem_map_of_mem (f := Prod.fst) hr
    revert hkey
    change ¬ UID.ofBytes [2] ∈ _
    decide

end SimplePresence.Listener
