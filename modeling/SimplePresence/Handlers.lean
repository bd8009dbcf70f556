import SimplePresence.Ledger

/-!
The event loops and their handlers.

A handler acts on the records, and says what there is to send. Around it a loop allocates a
buffer and a request, sends, and frees. A turn of the loop is a call of the handler, unless
`malloc` had no buffer for it; and what the handler says is sent, unless `malloc` had no request
for it or libuv refused.
-/

namespace SimplePresence.Handlers

open SimplePresence.Uid SimplePresence.Item SimplePresence.OrderedMap SimplePresence.Query
open SimplePresence.Machine SimplePresence.Memory SimplePresence.EventLoop SimplePresence.Service
open SimplePresence.Ownership SimplePresence.Store SimplePresence.Ledger
open SimplePresence.Listener (Read getpeername sent)

variable {σ : Type} [Presence σ] {P : Program} {remoteAddress : Sockaddr} {s : σ} {L L' : Loop σ}
  {o : Option Seen} {ev : Event} {es : List Event} {outs : List (Option Seen)}

/-! ### Handlers -/

/-- What a program does with its records when it is called back, and what it has to send. -/
def react (P : Program) (remoteAddress : Sockaddr) (s : σ) :
    Event → Except Fault (Option (List UInt8) × σ)
  | .readTCP _ _ r peer _ _ =>
    match P with
    | .service => (Listener.onReadTCP s r.addr peer r.readCount r.base r.now).map fun x =>
        (x.1.reply, x.2)
    | .client uid =>
      (Client.onReadTCP ⟨uid, remoteAddress, s⟩ r.addr peer r.readCount r.base r.now).map fun x =>
        (x.1.reply, x.2.presence)
  | .readUDP _ bytesRead base addr now _ _ =>
    match P with
    | .service => Listener.onUDPRead s bytesRead base addr now
    | .client uid =>
      (Client.onUDPRead ⟨uid, remoteAddress, s⟩ bytesRead base addr now.ctor now.put).map fun c =>
        (none, c.presence)
  | .timer _ _ =>
    match P with
    | .service => .ok (none, s)
    | .client uid => .ok (some (Client.onTimer ⟨uid, remoteAddress, s⟩).buf, s)
  | _ => .ok (none, s)

/-- libuv calls the program back. -/
def Heard (L : Loop σ) : Event → Prop
  | .readTCP client _ _ _ _ _ => L.handles.get client = some .reading
  | .readUDP _ _ _ _ _ _ _ => L.stopped = false
  | .timer _ _ => L.stopped = false
  | _ => True

instance (L : Loop σ) (ev : Event) : Decidable (Heard L ev) := by
  cases ev <;> unfold Heard <;> infer_instance

/-- What was called back for in a run. -/
def heardRun (P : Program) : Loop σ → List Event → List Event
  | _, [] => []
  | L, ev :: es =>
    match step P L ev with
    | .error _ => []
    | .ok (_, L') => if Heard L ev then ev :: heardRun P L' es else heardRun P L' es

/-- `malloc` has a block for everything that is asked of it. -/
def Ample (L : Loop σ) : Event → Prop
  | .readTCP _ mbuf _ _ m _ => ∃ p q, mbuf = some p ∧ m = some q ∧ p ≠ q ∧
      L.heap.get p = none ∧ L.heap.get q = none
  | .readUDP mbuf _ _ _ _ m _ => ∃ p q, mbuf = some p ∧ m = some q ∧ p ≠ q ∧
      L.heap.get p = none ∧ L.heap.get q = none
  | .timer m _ => ∃ q, m = some q ∧ L.heap.get q = none
  | _ => True

/-- What libuv makes of what a callback sends. -/
def verdict (P : Program) : Event → Option Verdict
  | .readTCP _ _ _ _ _ v => some v
  | .readUDP _ _ _ _ _ _ v => some v
  | .timer _ v =>
    match P with
    | .service => none
    | .client _ => some v
  | _ => none

/-- What a program may send when it is called back: a reply of 32 bytes to a request, a ping of
16 when the timer fires. -/
def allowance (P : Program) : Event → ℕ
  | .readTCP _ _ r _ _ _ => if IsRequest r.bytes then 32 else 0
  | .readUDP _ bytesRead base _ _ _ _ =>
    match P with
    | .service => if IsRequest (base.take bytesRead.toNat) then 32 else 0
    | .client _ => 0
  | .timer _ _ =>
    match P with
    | .service => 0
    | .client _ => 16
  | _ => 0

/-! ### What a turn sends -/

/-- The bytes the kernel takes in a turn. -/
def wired : Option Seen → Option (List UInt8)
  | some (.wire bytes) => some bytes
  | _ => none

/-- A turn that sends `bytes`: the kernel takes the start of them and the rest is in flight. It
sends nothing when there is nothing to send, no memory for it, or libuv refuses. -/
def Sends (memory : Prop) (bytes : Option (List UInt8)) (v : Verdict) (L : Loop σ)
    (r : Option Seen × Loop σ) : Prop :=
  (bytes = none ∨ ¬ memory ∨ v = .refused) ∧ wired r.1 = none ∧ r.2.flight = L.flight ∨
    ∃ b n p, bytes = some b ∧ v = .took n ∧ r.1 = some (.wire (b.take n)) ∧
      r.2.flight = L.flight.put p (b.length - n)

/-- A turn that neither stores nor sends. -/
def Quiet (L : Loop σ) (r : Option Seen × Loop σ) : Prop :=
  r.2.presence = L.presence ∧ wired r.1 = none ∧ r.2.flight = L.flight

/-- A turn that calls back for a request in flight: what was left of it goes out, or nothing. -/
def CalledBack (L : Loop σ) (r : Option Seen × Loop σ) : Prop :=
  ∃ req n, L.flight.get req = some n ∧
    (wired r.1 = none ∨ n ≠ 0 ∧ ∃ b, wired r.1 = some b ∧ b.length = n) ∧
    r.2.presence = L.presence ∧ r.2.flight = L.flight.remove req

section Sends

variable {τ : Type} {L : Loop τ} {memory memory' : Prop} {b : Option (List UInt8)} {v : Verdict}
  {r : Option Seen × Loop τ}

lemma Sends.mono (h : Sends memory b v L r) (hm : memory' → memory) : Sends memory' b v L r := by
  rcases h with ⟨hwhy, hquiet⟩ | hwire
  · refine Or.inl ⟨?_, hquiet⟩
    rcases hwhy with hnone | hno | hrefused
    · exact Or.inl hnone
    · exact Or.inr (Or.inl fun h => hno (hm h))
    · exact Or.inr (Or.inr hrefused)
  · exact Or.inr hwire

lemma uvSend_sends (L : Loop τ) (req : Option Addr) (bytes : List UInt8) (v : Verdict) :
    Triple (fun _ => True) (uvSend L req bytes v) fun r =>
      r.2.presence = L.presence ∧ ∀ memory, Sends memory (some bytes) v L r := by
  unfold uvSend
  refine Triple.bind (Q := fun _ => True) (Triple.trivial _) fun p _ => ?_
  cases v with
  | refused => exact Triple.ok ⟨rfl, fun _ => Or.inl ⟨Or.inr (Or.inr rfl), rfl, rfl⟩⟩
  | took n => exact Triple.ok ⟨rfl, fun _ => Or.inr ⟨bytes, n, p, rfl, rfl, rfl, rfl⟩⟩

/-- A reply over TCP is sent, or its request is written through all the same. -/
lemma sendTCP_sends (L : Loop τ) (client : Addr) (bytes : List UInt8) (m : Option Addr)
    (v : Verdict) : Triple (fun _ => True) (sendTCP L client bytes m v) fun r =>
      r.2.presence = L.presence ∧ Sends True (some bytes) v L r := by
  unfold sendTCP
  rcases allocReq L.heap m with ⟨req, heap⟩
  refine Triple.bind (Q := fun _ => True) (Triple.trivial _) fun _ _ => ?_
  exact (uvSend_sends { L with heap := heap } req bytes v).mono (fun _ _ => trivial)
    fun r hr => ⟨hr.1, hr.2 True⟩

lemma sendUDP_sends (L : Loop τ) (bytes : List UInt8) (m : Option Addr) (v : Verdict) :
    Triple (fun _ => True) (sendUDP L bytes m v) fun r =>
      r.2.presence = L.presence ∧
        Sends ((L.heap.malloc m .request).1 ≠ none) (some bytes) v L r := by
  unfold sendUDP
  rcases L.heap.malloc m .request with ⟨_ | req, heap⟩
  · exact Triple.ok ⟨rfl, Or.inl ⟨Or.inr (Or.inl fun h => h rfl), rfl, rfl⟩⟩
  · exact (uvSend_sends { L with heap := heap } (some req) bytes v).mono (fun _ _ => trivial)
      fun r hr => ⟨hr.1, hr.2 _⟩

/-- To free the buffer is neither to store nor to send. -/
lemma freeBuffer_triple {Q : Option Seen × Loop τ → Prop} {r : Option Seen × Loop τ}
    (hQ : ∀ heap, Q (r.1, { r.2 with heap := heap })) (buf : Option Addr) :
    Triple (fun _ => True)
      (do let heap ← freeBuffer r.2.heap buf; .ok (r.1, { r.2 with heap := heap })) Q :=
  Triple.bind (Triple.trivial _) fun heap _ => Triple.ok (hQ heap)

lemma uvClose_triple (L : Loop τ) (c : Addr) (cb : Bool) :
    Triple (fun _ => True) (uvClose L c cb) fun L' =>
      L'.presence = L.presence ∧ L'.flight = L.flight := by
  unfold uvClose
  refine Triple.bind (Triple.trivial _) fun p _ => ?_
  rcases L.handles.get p with _ | _ | _ | _
  · trivial
  · exact Triple.ok ⟨rfl, rfl⟩
  · exact Triple.ok ⟨rfl, rfl⟩
  · trivial

lemma onConnect_quiet (L : Loop τ) (status : ℤ) (m : Option Addr) (accept readStart : ℤ) :
    Triple (fun _ => True) (onConnect L status m accept readStart) fun L' =>
      L'.presence = L.presence ∧ L'.flight = L.flight := by
  unfold onConnect
  by_cases hs : status < 0
  · rw [if_pos hs]
    exact Triple.ok ⟨rfl, rfl⟩
  rw [if_neg hs]
  rcases allocClient L.heap m with ⟨client, heap⟩
  refine Triple.bind (Q := fun r => r.2.presence = L.presence ∧ r.2.flight = L.flight) ?_
    fun r hr => ?_
  · unfold uvTcpInit
    exact Triple.bind (Triple.trivial _) fun p _ => Triple.ok ⟨rfl, rfl⟩
  · dsimp only
    split_ifs
    · exact Triple.ok hr
    · exact Triple.ok hr
    · refine (uvClose_triple r.2 r.1 true).mono (fun _ _ => trivial) fun L' hL' => ?_
      exact ⟨hL'.1.trans hr.1, hL'.2.trans hr.2⟩

end Sends

/-! ### Buffers -/

section Buffers

variable {heap heap' : Heap Addr Block} {m buf : Option Addr} {n n' : ℤ} {base : List UInt8}
  {p q : Addr}

/-- The buffer holds what was read. -/
lemma uvRead_bytes (h : uvRead heap m n base = .ok (n', some p, heap')) :
    n' = n ∧ bytesAt heap' (some p) = .ok base := by
  unfold uvRead at h
  rcases hm : allocBuffer heap m with ⟨_ | q, heap₁⟩
  · rw [hm] at h
    cases h
  · rw [hm] at h
    dsimp only at h
    unfold Heap.store at h
    rcases hg : heap₁.get q with _ | b
    · rw [hg] at h
      cases h
    · rw [hg] at h
      cases h
      have hload : (heap₁.put p (.buffer base)).get p = some (.buffer base) :=
        Table.get_eq_some.mpr List.mem_cons_self
      refine ⟨rfl, ?_⟩
      unfold bytesAt Heap.load
      dsimp only
      rw [hload]

/-- Without a buffer nothing was read. -/
lemma uvRead_none (h : uvRead heap m n base = .ok (n', none, heap')) :
    n' < 0 ∧ (allocBuffer heap m).1 = none := by
  unfold uvRead at h
  rcases hm : allocBuffer heap m with ⟨_ | q, heap₁⟩
  · rw [hm] at h
    cases h
    exact ⟨by decide, rfl⟩
  · rw [hm] at h
    dsimp only at h
    rcases hs : heap₁.store q (.buffer base) with _ | _
    · rw [hs] at h
      cases h
    · rw [hs] at h
      cases h

lemma get_put_of_ne {b : Block} (hne : p ≠ q) (h : heap.get q = none) :
    (heap.put p b).get q = none := by
  refine Table.get_eq_none.mpr fun hmem => ?_
  obtain ⟨e, he, rfl⟩ := List.mem_map.mp hmem
  rw [Table.entries_put] at he
  rcases List.mem_cons.mp he with rfl | he
  · exact hne rfl
  · exact Table.get_eq_none.mp h (List.mem_map_of_mem (Table.mem_remove.mp he).1)

/-- A buffer takes one address. -/
lemma uvRead_free (h : uvRead heap (some p) n base = .ok (n', buf, heap')) (hne : p ≠ q)
    (hq : heap.get q = none) : heap'.get q = none := by
  unfold uvRead allocBuffer Heap.malloc at h
  dsimp only at h
  split_ifs at h with hp
  · cases h
    exact hq
  · dsimp only at h
    unfold Heap.store at h
    rcases hg : (heap.put p (.buffer [])).get p with _ | b
    · rw [hg] at h
      cases h
    · rw [hg] at h
      cases h
      exact get_put_of_ne hne (get_put_of_ne hne hq)

lemma malloc_ne_none {b : Block} (h : heap.get q = none) : (heap.malloc (some q) b).1 ≠ none := by
  unfold Heap.malloc
  dsimp only
  rw [h]
  exact Option.some_ne_none q

end Buffers

/-! ### A turn -/

/-- A turn that hands `q` to `query` and sends what it answers. -/
def Serves (memory : Prop) (q : Request) (v : Verdict) (L : Loop σ) (r : Option Seen × Loop σ) :
    Prop :=
  ∃ a, handle L.presence q = .ok (a, r.2.presence) ∧ Sends memory (sent a) v L r

/-- A turn that is one of the handler. -/
def Reacts (P : Program) (remoteAddress : Sockaddr) (memory : Prop) (L : Loop σ) (ev : Event)
    (r : Option Seen × Loop σ) : Prop :=
  ∃ b v, react P remoteAddress L.presence ev = .ok (b, r.2.presence) ∧
    (b = none ∨ verdict P ev = some v) ∧ Sends memory b v L r

/-- What a turn does to the records and to the wire. -/
def Turn (P : Program) (remoteAddress : Sockaddr) (L : Loop σ) (ev : Event)
    (r : Option Seen × Loop σ) : Prop :=
  ¬ (Heard L ev ∧ Ample L ev) ∧ Quiet L r ∨
    Heard L ev ∧ react P remoteAddress L.presence ev = .ok (none, L.presence) ∧ CalledBack L r ∨
    Heard L ev ∧ Reacts P remoteAddress (Ample L ev) L ev r

section Turn

variable {q : Request} {a : Answer} {t : σ} {v : Verdict} {m buf : Option Addr}
  {base : List UInt8} {memory : Prop} {r : Option Seen × Loop σ}

/-- A reply that is sent, or that there is none of. -/
lemma serves_triple (h : handle L.presence q = .ok (a, t))
    {send : Except LoopFault (Option Seen × Loop σ)}
    (hsend : Triple (fun _ => True) send fun r =>
      r.2.presence = t ∧ Sends memory (some (a.retBuf.take a.ret)) v L r) :
    Triple (fun _ => True) (if a.ret > 0 then send else .ok (none, { L with presence := t }))
      (Serves memory q v L) := by
  split_ifs with hret
  · refine hsend.mono (fun _ _ => trivial) fun r hr => ⟨a, ?_, ?_⟩
    · rw [hr.1]
      exact h
    · unfold sent
      rw [if_pos hret]
      exact hr.2
  · refine Triple.ok ⟨a, h, Or.inl ⟨Or.inl ?_, rfl, rfl⟩⟩
    unfold sent
    rw [if_neg hret]

lemma onReadTCP_serves (hbase : ∀ p, buf = some p → bytesAt L.heap (some p) = .ok base)
    (c : Addr) (n : ℤ) (addr : Sockaddr) (peer : Option Sockaddr) (now : Readings)
    (m : Option Addr) (v : Verdict) :
    Triple (fun _ => True) (onReadTCP L c n buf addr peer now m v) fun r =>
      n ≤ 0 ∧ Quiet L r ∨
        0 < n ∧ Serves True ⟨getpeername peer addr, base.take n.toNat, now⟩ v L r := by
  unfold onReadTCP
  by_cases hn : n ≤ 0
  · rw [if_pos hn]
    refine Triple.bind (uvClose_triple L c true) fun L' hL' => ?_
    exact freeBuffer_triple (r := (none, L')) (fun _ => Or.inl ⟨hn, hL'.1, rfl, hL'.2⟩) buf
  · rw [if_neg hn]
    rcases buf with _ | p
    · trivial
    rw [hbase p rfl]
    refine Triple.bind (Q := (base = ·)) (Triple.ok rfl) ?_
    rintro _ rfl
    refine Triple.bind (store_triple fun _ => trivial) fun r hr => ?_
    have hreply := serves_triple (L := L)
      (q := ⟨getpeername peer addr, base.take n.toNat, now⟩) hr
      (sendTCP_sends { L with presence := r.2 } c (r.1.retBuf.take r.1.ret) m v)
    exact Triple.bind hreply fun r hr =>
      freeBuffer_triple (r := r) (fun _ => Or.inr ⟨not_le.mp hn, hr⟩) _

lemma listener_onUDPRead_serves
    (hbase : ∀ p, buf = some p → bytesAt L.heap (some p) = .ok base)
    (n : ℤ) (addr : Sockaddr) (now : Readings) (m : Option Addr) (v : Verdict) :
    Triple (fun _ => True) (UVListener.onUDPRead L n buf addr now m v) fun r =>
      n ≤ 0 ∧ Quiet L r ∨
        0 < n ∧ Serves ((L.heap.malloc m .request).1 ≠ none) ⟨addr, base.take n.toNat, now⟩ v L
          r := by
  unfold UVListener.onUDPRead
  refine Triple.bind
    (Q := fun r => n ≤ 0 ∧ Quiet L r ∨ 0 < n ∧
      Serves ((L.heap.malloc m .request).1 ≠ none) ⟨addr, base.take n.toNat, now⟩ v L r) ?_
    fun r hr => freeBuffer_triple (r := r) (fun _ => hr) _
  by_cases hneg : n < 0
  · rw [if_pos hneg]
    exact Triple.ok (Or.inl ⟨hneg.le, rfl, rfl, rfl⟩)
  rw [if_neg hneg]
  by_cases hzero : n = 0
  · rw [if_pos hzero]
    exact Triple.ok (Or.inl ⟨hzero.le, rfl, rfl, rfl⟩)
  rw [if_neg hzero]
  rcases buf with _ | p
  · trivial
  rw [hbase p rfl]
  refine Triple.bind (Q := (base = ·)) (Triple.ok rfl) ?_
  rintro _ rfl
  refine Triple.bind (store_triple fun _ => trivial) fun r hr => ?_
  have hreply := serves_triple (L := L) (q := ⟨addr, base.take n.toNat, now⟩) hr
    (sendUDP_sends { L with presence := r.2 } (r.1.retBuf.take r.1.ret) m v)
  have hpos : 0 < n := lt_of_le_of_ne (not_lt.mp hneg) (Ne.symm hzero)
  exact hreply.mono (fun _ _ => trivial) fun r hr => Or.inr ⟨hpos, hr⟩

lemma client_onUDPRead_puts (hbase : ∀ p, buf = some p → bytesAt L.heap (some p) = .ok base)
    (n : ℤ) (now : Readings) :
    Triple (fun _ => True) (UVClient.onUDPRead L n buf now) fun r =>
      wired r.1 = none ∧ r.2.flight = L.flight ∧
        (n ≠ 32 ∧ r.2.presence = L.presence ∨ n = 32 ∧
          Presence.put L.presence now.put (PresenceItem.ofBuffer now.ctor base) =
            .ok r.2.presence) := by
  unfold UVClient.onUDPRead
  refine Triple.bind (Q := fun L' => L'.flight = L.flight ∧ (n ≠ 32 ∧ L'.presence = L.presence ∨
      n = 32 ∧ Presence.put L.presence now.put (PresenceItem.ofBuffer now.ctor base) =
        .ok L'.presence)) ?_
    fun L' hL' => freeBuffer_triple (r := (none, L')) (fun _ => ⟨rfl, hL'⟩) _
  split_ifs with hneg hzero hrec
  · exact Triple.ok ⟨rfl, Or.inl ⟨by omega, rfl⟩⟩
  · exact Triple.ok ⟨rfl, Or.inl ⟨by omega, rfl⟩⟩
  · rcases buf with _ | p
    · trivial
    rw [hbase p rfl]
    refine Triple.bind (Q := (base = ·)) (Triple.ok rfl) ?_
    rintro _ rfl
    refine Triple.bind (store_triple fun _ => trivial) fun s hs => ?_
    exact Triple.ok ⟨rfl, Or.inr ⟨hrec, hs⟩⟩
  · exact Triple.ok ⟨rfl, Or.inl ⟨hrec, rfl⟩⟩

/-- What the handler of a read over TCP does. -/
lemma react_readTCP (client : Addr) (mbuf : Option Addr) (rd : Read) (peer : Option Sockaddr)
    (m : Option Addr) (v : Verdict) :
    react P remoteAddress s (.readTCP client mbuf rd peer m v) =
      if rd.readCount ≤ 0 then .ok (none, s)
      else (handle s ⟨getpeername peer rd.addr, rd.base.take rd.readCount.toNat, rd.now⟩).map
        fun x => (sent x.1, x.2) := by
  have hservice : react .service remoteAddress s (.readTCP client mbuf rd peer m v) =
      if rd.readCount ≤ 0 then .ok (none, s)
      else (handle s ⟨getpeername peer rd.addr, rd.base.take rd.readCount.toNat, rd.now⟩).map
        fun x => (sent x.1, x.2) := by
    unfold react Listener.onReadTCP handle
    dsimp only
    split_ifs
    · rfl
    · cases query s (getpeername peer rd.addr) (rd.base.take rd.readCount.toNat) rd.now <;> rfl
  cases P with
  | service => exact hservice
  | client uid =>
    rw [← hservice]
    unfold react Client.onReadTCP
    dsimp only
    cases Listener.onReadTCP s rd.addr peer rd.readCount rd.base rd.now <;> rfl

lemma react_readUDP (mbuf : Option Addr) (n : ℤ) (base : List UInt8) (addr : Sockaddr)
    (now : Readings) (m : Option Addr) (v : Verdict) :
    react .service remoteAddress s (.readUDP mbuf n base addr now m v) =
      if n ≤ 0 then .ok (none, s)
      else (handle s ⟨addr, base.take n.toNat, now⟩).map fun x => (sent x.1, x.2) := by
  unfold react Listener.onUDPRead handle
  dsimp only
  rcases lt_trichotomy n 0 with hneg | rfl | hpos
  · rw [if_pos hneg, if_pos hneg.le]
  · rfl
  · rw [if_neg hpos.not_gt, if_neg hpos.ne', if_neg hpos.not_ge]
    cases query s addr (base.take n.toNat) now <;> rfl

lemma turn_unheard (h : ¬ Heard L ev) : Turn P remoteAddress L ev (none, L) :=
  Or.inl ⟨fun hall => h hall.1, rfl, rfl, rfl⟩

/-- A turn in which the handler has nothing to do. -/
lemma Quiet.turn (h : Quiet L r) (hheard : Heard L ev)
    (hreact : react P remoteAddress L.presence ev = .ok (none, L.presence)) :
    Turn P remoteAddress L ev r := by
  refine Or.inr (Or.inr ⟨hheard, none, .refused, ?_, Or.inl rfl, Or.inl ⟨Or.inl rfl, h.2⟩⟩)
  rw [h.1]
  exact hreact

/-- A turn that serves what the handler makes a request of. -/
lemma Serves.turn (h : Serves memory q v L r) (hheard : Heard L ev)
    (hmemory : Ample L ev → memory) (hv : verdict P ev = some v)
    (hreact : react P remoteAddress L.presence ev =
      (handle L.presence q).map fun x => (sent x.1, x.2)) : Turn P remoteAddress L ev r := by
  obtain ⟨a, ha, hs⟩ := h
  refine Or.inr (Or.inr ⟨hheard, sent a, v, ?_, Or.inr hv, hs.mono hmemory⟩)
  rw [hreact, ha]
  rfl

lemma turn_readTCP (client : Addr) (mbuf : Option Addr) (rd : Read) (peer : Option Sockaddr)
    (m : Option Addr) (v : Verdict) :
    Triple (fun _ => True) (step P L (.readTCP client mbuf rd peer m v))
      (Turn P remoteAddress L (.readTCP client mbuf rd peer m v)) := by
  rw [step]
  split_ifs with hheard
  · refine Triple.bind (Triple.of_forall fun a ha => ha) ?_
    rintro ⟨n, buf, heap⟩ hread
    have hbase : ∀ p, buf = some p → bytesAt heap (some p) = .ok rd.base := by
      rintro p rfl
      exact (uvRead_bytes hread).2
    refine (onReadTCP_serves (L := { L with heap := heap }) hbase client n rd.addr peer rd.now m
      v).mono (fun _ _ => trivial) fun r hr => ?_
    rcases buf with _ | p
    · obtain ⟨hneg, hnone⟩ := uvRead_none hread
      rcases hr with ⟨-, hq⟩ | ⟨hpos, -⟩
      · refine Or.inl ⟨fun hall => ?_, hq⟩
        obtain ⟨p, q, rfl, -, -, hp, -⟩ := hall.2
        exact malloc_ne_none hp hnone
      · omega
    · obtain rfl := (uvRead_bytes hread).1
      rcases hr with ⟨hn, hq⟩ | ⟨hn, hserves⟩
      · refine Quiet.turn hq hheard ?_
        rw [react_readTCP, if_pos hn]
      · refine Serves.turn (L := L) hserves hheard (fun _ => trivial) rfl ?_
        rw [react_readTCP, if_neg (not_le.mpr hn)]
  · exact Triple.ok (turn_unheard hheard)

omit [Presence σ] in
/-- There is memory for the reply to a datagram. -/
lemma memory_of_ample {mbuf : Option Addr} {n n' : ℤ} {addr : Sockaddr} {now : Readings}
    {heap : Heap Addr Block} (h : Ample L (.readUDP mbuf n base addr now m v))
    (hread : uvRead L.heap mbuf n base = .ok (n', buf, heap)) :
    (heap.malloc m .request).1 ≠ none := by
  obtain ⟨p, q, rfl, rfl, hne, -, hq⟩ := h
  exact malloc_ne_none (uvRead_free hread hne hq)

lemma turn_readUDP (mbuf : Option Addr) (n : ℤ) (base : List UInt8) (addr : Sockaddr)
    (now : Readings) (m : Option Addr) (v : Verdict) :
    Triple (fun _ => True) (step P L (.readUDP mbuf n base addr now m v))
      (Turn P remoteAddress L (.readUDP mbuf n base addr now m v)) := by
  rw [step]
  split_ifs with hstopped
  · exact Triple.ok (turn_unheard fun h => Bool.false_ne_true (h.symm.trans hstopped))
  · have hheard : Heard L (.readUDP mbuf n base addr now m v) :=
      Bool.eq_false_of_not_eq_true hstopped
    refine Triple.bind (Triple.of_forall fun a ha => ha) ?_
    rintro ⟨n', buf, heap⟩ hread
    have hbase : ∀ p, buf = some p → bytesAt heap (some p) = .ok base := by
      rintro p rfl
      exact (uvRead_bytes hread).2
    have hstarved : buf = none → ¬ Ample L (.readUDP mbuf n base addr now m v) := by
      rintro rfl ⟨p, q, rfl, -, -, hp, -⟩
      exact malloc_ne_none hp (uvRead_none hread).2
    cases P with
    | service =>
      refine (listener_onUDPRead_serves (L := { L with heap := heap }) hbase n' addr now m v).mono
        (fun _ _ => trivial) fun r hr => ?_
      rcases buf with _ | p
      · rcases hr with ⟨-, hq⟩ | ⟨hpos, -⟩
        · exact Or.inl ⟨fun hall => hstarved rfl hall.2, hq⟩
        · have hneg := (uvRead_none hread).1
          omega
      · obtain rfl := (uvRead_bytes hread).1
        rcases hr with ⟨hn, hq⟩ | ⟨hn, hserves⟩
        · refine Quiet.turn hq hheard ?_
          rw [react_readUDP, if_pos hn]
        · refine Serves.turn (L := L) hserves hheard (fun ha => memory_of_ample ha hread) rfl ?_
          rw [react_readUDP, if_neg (not_le.mpr hn)]
    | client uid =>
      refine (client_onUDPRead_puts (L := { L with heap := heap }) hbase n' now).mono
        (fun _ _ => trivial) fun r hr => ?_
      obtain ⟨hwired, hflight, hput⟩ := hr
      rcases buf with _ | p
      · have hneg := (uvRead_none hread).1
        rcases hput with ⟨-, hsame⟩ | ⟨hn, -⟩
        · exact Or.inl ⟨fun hall => hstarved rfl hall.2, hsame, hwired, hflight⟩
        · omega
      · obtain rfl := (uvRead_bytes hread).1
        refine Or.inr (Or.inr ⟨hheard, none, .refused, ?_, Or.inl rfl,
          Or.inl ⟨Or.inl rfl, hwired, hflight⟩⟩)
        unfold react
        dsimp only
        rcases hput with ⟨hn, hsame⟩ | ⟨rfl, hput⟩
        · rw [Client.onUDPRead_other hn, hsame]
          rfl
        · rw [Client.onUDPRead_record.mpr ⟨_, hput, rfl⟩]
          rfl

/-- **A turn of the loop** is one of the handler, or finishes a send, or nobody was called back
or there was no buffer. -/
theorem step_turn (P : Program) (remoteAddress : Sockaddr) (L : Loop σ) (ev : Event) :
    Triple (fun _ => True) (step P L ev) (Turn P remoteAddress L ev) := by
  have hidle : ∀ ev', Heard L ev' →
      react P remoteAddress L.presence ev' = .ok (none, L.presence) →
      Turn P remoteAddress L ev' (none, L) :=
    fun ev' hheard hreact => Quiet.turn ⟨rfl, rfl, rfl⟩ hheard hreact
  cases ev with
  | connect status m accept readStart =>
    rw [step]
    split_ifs
    · exact Triple.ok (hidle _ trivial rfl)
    · exact (onConnect_quiet L status m accept readStart).map fun L' hL' =>
        Quiet.turn ⟨hL'.1, rfl, hL'.2⟩ trivial rfl
  | readTCP client mbuf r peer m v => exact turn_readTCP client mbuf r peer m v
  | readUDP mbuf n base addr now m v => exact turn_readUDP mbuf n base addr now m v
  | timer m v =>
    cases P with
    | service =>
      by_cases hheard : L.stopped = false
      · exact Triple.ok (hidle _ hheard rfl)
      · exact Triple.ok (turn_unheard hheard)
    | client uid =>
      rw [step]
      split_ifs with hstopped
      · exact Triple.ok (turn_unheard fun h => Bool.false_ne_true (h.symm.trans hstopped))
      · refine (sendUDP_sends L (uid.data.take 16) m v).mono (fun _ _ => trivial) fun r hr => ?_
        refine Or.inr (Or.inr ⟨Bool.eq_false_of_not_eq_true hstopped, _, v, ?_, Or.inr rfl,
          hr.2.mono ?_⟩)
        · rw [hr.1]
          rfl
        · rintro ⟨q, rfl, hq⟩
          exact malloc_ne_none hq
  | sent req frame =>
    rcases hreq : L.flight.get req with _ | n
    · rw [step, hreq]
      exact Triple.ok (hidle _ trivial rfl)
    · rw [step_sent hreq]
      refine Triple.of_forall fun r hr => Or.inr (Or.inl ⟨trivial, rfl, req, n, hreq, ?_, ?_⟩)
      · rw [(onSent_eq_ok hr).1]
        split_ifs with hn
        · exact Or.inl rfl
        · rcases frame with _ | b
          · exact Or.inl rfl
          · exact Or.inr ⟨hn, b.takeD n 0, rfl, List.takeD_length n b 0⟩
      · obtain ⟨-, heap, hL⟩ := onSent_eq_ok hr
        rw [hL]
        exact ⟨rfl, rfl⟩
  | closed client =>
    rw [step]
    rcases L.handles.get client with _ | _ | _ | cb
    · exact Triple.ok (hidle _ trivial rfl)
    · exact Triple.ok (hidle _ trivial rfl)
    · exact Triple.ok (hidle _ trivial rfl)
    · refine Triple.of_forall fun r hr => Quiet.turn ?_ trivial rfl
      obtain ⟨ho, heap, hL⟩ := onClosed_eq_ok hr
      unfold Quiet
      rw [ho, hL]
      cases cb <;> exact ⟨rfl, rfl, rfl⟩
  | stop =>
    refine Triple.ok (Quiet.turn ?_ trivial rfl)
    unfold stop
    split_ifs <;> exact ⟨rfl, rfl, rfl⟩

end Turn

/-! ### Runs -/

/-- Nothing is left of the requests in flight. -/
def Settled {τ : Type} (L : Loop τ) : Prop := ∀ req n, L.flight.get req = some n → n = 0

/-- What a turn leaves in flight, and what it sends, when the kernel takes things whole. -/
lemma Sends.whole {τ : Type} {L : Loop τ} {memory : Prop} {b : Option (List UInt8)} {v : Verdict}
    {r : Option Seen × Loop τ} (h : Sends memory b v L r) (hL : Settled L)
    (hb : ∀ bytes, b = some bytes → bytes.length ≤ 32 ∧ ∀ n, v = .took n → 32 ≤ n) :
    Settled r.2 ∧ (wired r.1 = b ∨ b ≠ none ∧ wired r.1 = none ∧ (¬ memory ∨ v = .refused)) := by
  rcases h with ⟨hwhy, hwired, hflight⟩ | ⟨bytes, n, p, rfl, rfl, ho, hflight⟩
  · refine ⟨fun req n hreq => hL req n (hflight ▸ hreq), ?_⟩
    rcases b with _ | bytes
    · exact Or.inl hwired
    · have hb' := Option.some_ne_none bytes
      exact Or.inr ⟨hb', hwired, hwhy.resolve_left hb'⟩
  · obtain ⟨hlen, hn⟩ := hb bytes rfl
    have hwhole : bytes.length ≤ n := hlen.trans (hn n rfl)
    refine ⟨fun req k hreq => ?_, Or.inl ?_⟩
    · rw [hflight, Table.get_eq_some, Table.entries_put] at hreq
      rcases List.mem_cons.mp hreq with heq | hreq
      · cases heq
        omega
      · exact hL req k (Table.get_eq_some.mpr (Table.mem_remove.mp hreq).1)
    · rw [ho]
      exact congrArg some (List.take_of_length_le hwhole)

section Run

/-- A reply has thirty-two bytes at most. -/
lemma length_sent_le {q : Request} {a : Answer} {t : σ} {b : List UInt8}
    (h : handle s q = .ok (a, t)) (hb : sent a = some b) : b.length ≤ 32 := by
  have hret : a.ret ≤ 32 := by
    rcases handle_cases h with ⟨-, rfl, -⟩ | ⟨src, -, -, rfl⟩ | ⟨src, dest, s₁, -, -, rfl, -⟩
    · exact Nat.zero_le 32
    · exact le_rfl
    · unfold reply
      split
      · exact le_rfl
      · exact Nat.zero_le 32
  unfold sent at hb
  split_ifs at hb
  cases hb
  rw [List.length_take]
  omega

/-- A reply is one to a request. -/
lemma length_sent_le_allowance {q : Request} {a : Answer} {t : σ} {b : List UInt8}
    (h : handle s q = .ok (a, t)) (hb : sent a = some b) :
    b.length ≤ if IsRequest q.buf then 32 else 0 := by
  split_ifs with hreq
  · exact length_sent_le h hb
  · have hother : handle s q = .ok (⟨0, []⟩, s) := query_other s q.addr q.now hreq
    rw [hother] at h
    cases h
    cases hb

/-- What a handler has to send is within its allowance. -/
lemma length_react_le {b : List UInt8} {t : σ}
    (h : react P remoteAddress s ev = .ok (some b, t)) : b.length ≤ allowance P ev := by
  have hserved : ∀ (n : ℤ) (q : Request), (if n ≤ 0 then .ok (none, s)
      else (handle s q).map fun x => (sent x.1, x.2)) = .ok (some b, t) →
      b.length ≤ if IsRequest q.buf then 32 else 0 := by
    intro n q hq
    split_ifs at hq
    · cases hq
    · rcases hh : handle s q with e | ⟨a, t'⟩
      · rw [hh] at hq
        cases hq
      · rw [hh] at hq
        obtain ⟨hsent, -⟩ := Prod.mk.inj (Except.ok.inj hq)
        exact length_sent_le_allowance hh hsent
  cases ev with
  | readTCP client mbuf rd peer m v =>
    rw [react_readTCP] at h
    exact hserved _ _ h
  | readUDP mbuf n base addr now m v =>
    cases P with
    | service =>
      rw [react_readUDP] at h
      exact hserved _ _ h
    | client uid =>
      unfold react at h
      dsimp only at h
      rcases hc : Client.onUDPRead ⟨uid, remoteAddress, s⟩ n base addr now.ctor now.put with e | c
      · rw [hc] at h
        cases h
      · rw [hc] at h
        cases h
  | timer m v =>
    cases P with
    | service => cases h
    | client uid =>
      cases h
      exact List.length_take_le 16 uid.data
  | connect => cases h
  | sent => cases h
  | closed => cases h
  | stop => cases h

lemma allowance_le (P : Program) (ev : Event) : allowance P ev ≤ 32 := by
  have hreply : ∀ buf : List UInt8, (if IsRequest buf then 32 else 0) ≤ 32 := by
    intro buf
    split_ifs
    · exact le_rfl
    · exact Nat.zero_le 32
  cases ev with
  | readTCP client mbuf r peer m v => exact hreply r.bytes
  | readUDP mbuf n base addr now m v =>
    cases P with
    | service => exact hreply (base.take n.toNat)
    | client uid => exact Nat.zero_le 32
  | timer m v =>
    cases P with
    | service => exact Nat.zero_le 32
    | client uid => exact Nat.le_add_right 16 16
  | connect => exact Nat.zero_le 32
  | sent => exact Nat.zero_le 32
  | closed => exact Nat.zero_le 32
  | stop => exact Nat.zero_le 32

/-- The kernel takes whole what it takes of. -/
def Whole (P : Program) (es : List Event) : Prop :=
  ∀ ev ∈ es, ∀ n, verdict P ev = some (.took n) → 32 ≤ n

/-- A turn, as seen from the records and the wire: it is none, for want of a caller or of memory,
or it is one of the handler. -/
lemma Turn.outcome {r : Option Seen × Loop σ} (h : Turn P remoteAddress L ev r) :
    (¬ (Heard L ev ∧ Ample L ev) ∧ r.2.presence = L.presence ∧
      (Settled L → wired r.1 = none ∧ Settled r.2)) ∨
    (Heard L ev ∧ ∃ b, react P remoteAddress L.presence ev = .ok (b, r.2.presence) ∧
      (Settled L → Whole P [ev] → Settled r.2 ∧ (wired r.1 = b ∨
        wired r.1 = none ∧ (¬ Ample L ev ∨ verdict P ev = some .refused)))) := by
  rcases h with ⟨hno, hp, hw, hflight⟩ | ⟨hheard, hreact, req, n, hreq, hrest, hp, hflight⟩ |
    ⟨hheard, b, v, hreact, hv, hs⟩
  · exact Or.inl ⟨hno, hp, fun hL => ⟨hw, fun req n hreq => hL req n (hflight ▸ hreq)⟩⟩
  · refine Or.inr ⟨hheard, none, hp ▸ hreact, fun hL _ => ⟨fun req' n' hreq' => ?_, ?_⟩⟩
    · exact hL req' n' (Table.get_of_get_remove (hflight ▸ hreq'))
    · exact Or.inl (hrest.resolve_right fun h => h.1 (hL req n hreq))
  · refine Or.inr ⟨hheard, b, hreact, fun hL hwhole => ?_⟩
    have hverdict : ∀ bytes, b = some bytes → verdict P ev = some v := by
      rintro bytes rfl
      exact hv.resolve_left (Option.some_ne_none bytes)
    have hlen : ∀ bytes, b = some bytes → bytes.length ≤ 32 := by
      rintro bytes rfl
      exact (length_react_le hreact).trans (allowance_le P ev)
    obtain ⟨hL', hw⟩ := hs.whole hL fun bytes hb => ⟨hlen bytes hb, fun n hn =>
      hwhole ev (List.mem_singleton_self ev) n (hn ▸ hverdict bytes hb)⟩
    refine ⟨hL', ?_⟩
    rcases hw with hw | ⟨hb, hw, hno | rfl⟩
    · exact Or.inl hw
    · exact Or.inr ⟨hw, Or.inl hno⟩
    · obtain ⟨bytes, hbytes⟩ := Option.ne_none_iff_exists'.mp hb
      exact Or.inr ⟨hw, Or.inr (hverdict bytes hbytes)⟩

lemma heardRun_cons (h : step P L ev = .ok (o, L')) : heardRun P L (ev :: es) =
    if Heard L ev then ev :: heardRun P L' es else heardRun P L' es := by
  rw [heardRun, h]

lemma heardRun_sublist (P : Program) (L : Loop σ) (es : List Event) :
    (heardRun P L es).Sublist es := by
  induction es generalizing L with
  | nil => exact List.Sublist.refl _
  | cons ev es ih =>
    rcases hs : step P L ev with e | ⟨o, L'⟩
    · rw [heardRun, hs]
      exact List.nil_sublist _
    · rw [heardRun_cons hs]
      split_ifs
      · exact (ih L').cons_cons ev
      · exact (ih L').cons ev

/-- A run of the loop is one of its handlers, over some of what was called back for. -/
lemma run_reacts (remoteAddress : Sockaddr) (h : run (step P) L es = .ok (outs, L')) :
    ∃ es' as, es'.Sublist (heardRun P L es) ∧
      run (react P remoteAddress) L.presence es' = .ok (as, L'.presence) ∧
      (Whole P es → Settled L → (outs.filterMap wired).Sublist (as.filterMap id)) := by
  induction es generalizing L outs with
  | nil =>
    cases h
    exact ⟨[], [], List.Sublist.refl _, rfl, fun _ _ => List.Sublist.refl _⟩
  | cons ev es ih =>
    obtain ⟨o, L₁, os, hs, hr, rfl⟩ := run_cons_eq_ok.mp h
    obtain ⟨es', as, hsub, hrun, hwire⟩ := ih hr
    have hturn : Turn P remoteAddress L ev (o, L₁) := (step_turn P remoteAddress L ev).of_eq_ok hs
    have hwhole : Whole P (ev :: es) → Whole P [ev] ∧ Whole P es := by
      intro hw
      refine ⟨fun ev' hev' => hw ev' ?_, fun ev' hev' => hw ev' (List.mem_cons_of_mem _ hev')⟩
      exact List.mem_singleton.mp hev' ▸ List.mem_cons_self
    rw [heardRun_cons hs]
    rcases hturn.outcome with ⟨-, hp, hquiet⟩ | ⟨hheard, b, hreact, hsends⟩
    · refine ⟨es', as, ?_, hp ▸ hrun, fun hw hL => ?_⟩
      · split_ifs
        · exact hsub.cons ev
        · exact hsub
      · obtain ⟨hnone, hL₁⟩ := hquiet hL
        have hnone' : wired o = none := hnone
        rw [List.filterMap_cons_none hnone']
        exact hwire (hwhole hw).2 hL₁
    · refine ⟨ev :: es', b :: as, ?_, run_cons_eq_ok.mpr ⟨b, _, as, hreact, hrun, rfl⟩,
        fun hw hL => ?_⟩
      · rw [if_pos hheard]
        exact hsub.cons_cons ev
      · obtain ⟨hL₁, hb⟩ := hsends hL (hwhole hw).1
        have hrest := hwire (hwhole hw).2 hL₁
        have hb' : wired o = b ∨ wired o = none := hb.imp_right And.left
        rw [List.filterMap_cons, List.filterMap_cons]
        rcases hb' with hb' | hb' <;> rw [hb']
        · rcases b with _ | bytes
          · exact hrest
          · exact hrest.cons_cons bytes
        · rcases b with _ | bytes
          · exact hrest
          · exact hrest.cons bytes

/-- `malloc` has a block for all that is asked of it in a run. -/
def AmpleRun (P : Program) (L : Loop σ) (es : List Event) : Prop :=
  ∀ pre ev post outs L', es = pre ++ ev :: post → run (step P) L pre = .ok (outs, L') → Ample L' ev

lemma AmpleRun.tail (h : AmpleRun P L (ev :: es)) (hs : step P L ev = .ok (o, L')) :
    AmpleRun P L' es := by
  rintro pre ev' post outs L'' rfl hr
  exact h (ev :: pre) ev' post (o :: outs) L'' rfl (run_cons_eq_ok.mpr ⟨o, L', outs, hs, hr, rfl⟩)

/-- With memory for everything, and a kernel that takes all, it is a run over all of it. -/
lemma run_reacts_all (remoteAddress : Sockaddr) (h : run (step P) L es = .ok (outs, L'))
    (hample : AmpleRun P L es)
    (hv : ∀ ev ∈ es, ∀ v, verdict P ev = some v → ∃ n, 32 ≤ n ∧ v = .took n) (hL : Settled L) :
    ∃ as, run (react P remoteAddress) L.presence (heardRun P L es) = .ok (as, L'.presence) ∧
      outs.filterMap wired = as.filterMap id := by
  induction es generalizing L outs with
  | nil =>
    cases h
    exact ⟨[], rfl, rfl⟩
  | cons ev es ih =>
    obtain ⟨o, L₁, os, hs, hr, rfl⟩ := run_cons_eq_ok.mp h
    have hturn : Turn P remoteAddress L ev (o, L₁) := (step_turn P remoteAddress L ev).of_eq_ok hs
    have hmem : Ample L ev := hample [] ev es [] L rfl rfl
    have hev := hv ev List.mem_cons_self
    have hrest := fun hL₁ => ih hr (hample.tail hs)
      (fun ev' hev' => hv ev' (List.mem_cons_of_mem _ hev')) hL₁
    rw [heardRun_cons hs]
    rcases hturn.outcome with ⟨hno, hp, hquiet⟩ | ⟨hheard, b, hreact, hsends⟩
    · obtain ⟨hnone, hL₁⟩ := hquiet hL
      have hnone' : wired o = none := hnone
      obtain ⟨as, hrun, has⟩ := hrest hL₁
      refine ⟨as, ?_, by rw [List.filterMap_cons_none hnone', has]⟩
      rw [if_neg fun hheard => hno ⟨hheard, hmem⟩]
      exact hp ▸ hrun
    · have hwhole : Whole P [ev] := by
        intro ev' hev' n hn
        obtain ⟨k, hk, heq⟩ := hev _ (List.mem_singleton.mp hev' ▸ hn)
        cases heq
        exact hk
      obtain ⟨hL₁, hb⟩ := hsends hL hwhole
      have hb' : wired o = b := by
        rcases hb with hb | ⟨-, hno | hrefused⟩
        · exact hb
        · exact absurd hmem hno
        · obtain ⟨n, -, heq⟩ := hev _ hrefused
          cases heq
      obtain ⟨as, hrun, has⟩ := hrest hL₁
      refine ⟨b :: as, ?_, ?_⟩
      · rw [if_pos hheard]
        exact run_cons_eq_ok.mpr ⟨b, _, as, hreact, hrun, rfl⟩
      · rw [List.filterMap_cons, List.filterMap_cons, hb', has]
        rfl

omit [Presence σ] in
lemma settled_start (s : σ) : Settled (start s) := fun _ _ h => by cases h

/-- **The event loops refine their handlers.** Whatever libuv calls back for and whatever becomes
of allocations and sends, the records of either program are those its handlers make of some of
what was called back for, in order; and when the kernel takes whole what it takes of, what goes
out is some of what they have to send. When `malloc` never fails and the kernel takes everything
at once, nothing is lost: the records are those the handlers make of all that was called back for,
and all they have to send goes out, in order. -/
theorem loop_refines_handlers (P : Program) (remoteAddress : Sockaddr) (s : σ) (es : List Event) :
    ∀ outs L, run (step P) (start s) es = .ok (outs, L) →
      (∃ es' as, es'.Sublist (heardRun P (start s) es) ∧
        run (react P remoteAddress) s es' = .ok (as, L.presence) ∧
        (Whole P es → (outs.filterMap wired).Sublist (as.filterMap id))) ∧
      (AmpleRun P (start s) es →
        (∀ ev ∈ es, ∀ v, verdict P ev = some v → ∃ n, 32 ≤ n ∧ v = .took n) →
        ∃ as, run (react P remoteAddress) s (heardRun P (start s) es) = .ok (as, L.presence) ∧
          outs.filterMap wired = as.filterMap id) := by
  intro outs L h
  refine ⟨?_, fun hample hv => run_reacts_all remoteAddress h hample hv (settled_start s)⟩
  obtain ⟨es', as, hsub, hrun, hwire⟩ := run_reacts remoteAddress h
  exact ⟨es', as, hsub, hrun, fun hw => hwire hw (settled_start s)⟩

/-- `malloc` has a block for a turn, and for the turns after it. -/
lemma AmpleRun.cons (h : Ample L ev)
    (htail : ∀ o L', step P L ev = .ok (o, L') → AmpleRun P L' es) : AmpleRun P L (ev :: es) := by
  intro pre ev' post outs L' heq hr
  cases pre with
  | nil =>
    cases heq
    cases hr
    exact h
  | cons i pre =>
    obtain ⟨rfl, rfl⟩ := List.cons.inj heq
    obtain ⟨o, L₁, os, hs, hr', -⟩ := run_cons_eq_ok.mp hr
    exact htail o L₁ hs pre ev' post os L' rfl hr'

end Run

/-- A client pings, hears of another, and is asked for it over TCP. -/
def questioned : List Event :=
  [.timer (some 1) (.took 32),
    .readUDP (some 2) 32 ((UID.ofBytes [2]).data ++ Listener.peerA.bytes) Listener.peerA ⟨0, 0, 0⟩
      (some 3) (.took 32),
    .connect 0 (some 4) 0 0,
    .readTCP 4 (some 2) (Listener.callback ((UID.ofBytes [3]).data ++ (UID.ofBytes [2]).data))
      (some Listener.peerA) (some 3) (.took 32)]

theorem loop_refines_handlers_questioned : ∃ outs L as,
    run (step (.client (UID.ofBytes [1]))) (start MemPresence.empty) questioned = .ok (outs, L) ∧
      outs.filterMap wired =
        [(UID.ofBytes [1]).data, (UID.ofBytes [2]).data ++ Listener.peerA.bytes] ∧
      run (react (.client (UID.ofBytes [1])) Listener.peerA) MemPresence.empty questioned =
        .ok (as, L.presence) ∧
      outs.filterMap wired = as.filterMap id := by
  have hample : AmpleRun (.client (UID.ofBytes [1])) (start MemPresence.empty) questioned := by
    refine AmpleRun.cons ⟨1, rfl, rfl⟩ fun o L h => ?_
    cases h
    refine AmpleRun.cons ⟨2, 3, rfl, rfl, by decide, rfl, rfl⟩ fun o L h => ?_
    cases h
    refine AmpleRun.cons trivial fun o L h => ?_
    cases h
    refine AmpleRun.cons ⟨2, 3, rfl, rfl, by decide, rfl, rfl⟩ fun o L h => ?_
    intro pre ev post outs L' hnil
    cases List.append_eq_nil_iff.mp hnil.symm |>.2
  have htaken : ∀ ev ∈ questioned, ∀ v, verdict (.client (UID.ofBytes [1])) ev = some v →
      ∃ n, 32 ≤ n ∧ v = .took n := by
    intro ev hev v hv
    simp only [questioned, List.mem_cons, List.not_mem_nil, or_false] at hev
    rcases hev with rfl | rfl | rfl | rfl <;> cases hv <;> exact ⟨32, le_rfl, rfl⟩
  obtain ⟨as, hrun, hwire⟩ := (loop_refines_handlers (.client (UID.ofBytes [1])) Listener.peerA
    MemPresence.empty questioned _ _ rfl).2 hample htaken
  exact ⟨_, _, as, rfl, rfl, hrun, hwire⟩

end SimplePresence.Handlers
