import SimplePresence.EventLoop

/-!
Who owns the memory of the event loops.

At every turn the heap consists of the blocks libuv knows of and of those nobody knows of any
more; in a callback the buffer it was handed comes on top. A callback takes a buffer and gives
it back, and what it allocates it hands to libuv or loses.
-/

namespace SimplePresence.Ownership

open SimplePresence.Uid SimplePresence.Item SimplePresence.OrderedMap SimplePresence.Query
open SimplePresence.Machine SimplePresence.Memory SimplePresence.Service
open SimplePresence.Listener (Read getpeername)
open SimplePresence.EventLoop

/-! ### Who owns what -/

section Ownership

variable {σ : Type} {heap : Heap Addr Block} {l other : List (Addr × Block)} {p : Addr}
  {b : Block} {E : LoopFault → Prop}

lemma touch_eq (ho : Heap.Owned heap l) (hm : (p, b) ∈ l) : touch heap (some p) = .ok p := by
  rw [touch, ho.load hm]
  rfl

lemma bytesAt_eq {bytes : List UInt8} (ho : Heap.Owned heap l) (hm : (p, .buffer bytes) ∈ l) :
    bytesAt heap (some p) = .ok bytes := by
  rw [bytesAt, ho.load hm]

/-- The buffer a read callback is handed, when there is one. -/
def held (buf : Option Addr) (bytes : List UInt8) : List (Addr × Block) :=
  buf.toList.map fun p => (p, .buffer bytes)

lemma freeBuffer_eq {buf : Option Addr} {bytes : List UInt8}
    (ho : Heap.Owned heap (held buf bytes ++ l)) :
    ∃ heap', freeBuffer heap buf = .ok heap' ∧ Heap.Owned heap' l := by
  rcases buf with _ | p
  · exact ⟨heap, rfl, ho⟩
  · obtain ⟨heap', hf, ho'⟩ := Heap.Owned.free ho
    exact ⟨heap', by rw [freeBuffer, hf]; rfl, ho'⟩

lemma uvRead_eq (ho : Heap.Owned heap l) (m : Option Addr) (readCount : ℤ) (base : List UInt8) :
    ∃ n buf heap', uvRead heap m readCount base = .ok (n, buf, heap') ∧
      Heap.Owned heap' (held buf base ++ l) ∧ (buf = none → n < 0) ∧
      (n < 0 ∨ n = readCount) := by
  unfold uvRead allocBuffer
  rcases Heap.malloc_cases ho m (.buffer []) with hm | ⟨q, h', hm, ho'⟩
  · rw [hm]
    have hneg : uvENobufs < 0 := by decide
    exact ⟨_, none, heap, rfl, ho, fun _ => hneg, Or.inl hneg⟩
  · obtain ⟨h'', hs, ho''⟩ := ho'.store (.buffer base)
    rw [hm]
    dsimp only
    rw [hs]
    exact ⟨readCount, some q, h'', rfl, ho'', fun h => (Option.some_ne_none q h).elim, Or.inr rfl⟩

/-- The heap consists of the blocks of `other` and those libuv knows of. -/
def Keeps (other : List (Addr × Block)) (L : Loop σ) : Prop :=
  Heap.Owned L.heap (other ++ L.blocks)

/-- The block that nobody knows of any more after a step. -/
def lost : Option Seen → List (Addr × Block)
  | some (.refused p) => [(p, .request)]
  | some (.orphaned p) => [(p, .client)]
  | _ => []

/-- What a callback may do to the heap that consisted of the blocks of `other` and those libuv
knew of. -/
def Post (other : List (Addr × Block)) (r : Option Seen × Loop σ) : Prop :=
  Keeps (lost r.1 ++ other) r.2

lemma post_of_keeps {L : Loop σ} (h : Keeps other L) : Post other (none, L) := h

variable {L : Loop σ} {c : Addr} {ph ph' : Phase}

lemma mem_blocks (hc : L.handles.get c = some ph) : (c, .client) ∈ L.blocks :=
  List.mem_append_left _ (List.mem_map.mpr ⟨_, Table.get_eq_some.mp hc, rfl⟩)

/-- A handle that changes its phase is the same block. -/
lemma keeps_put (h : Keeps other L) (hc : L.handles.get c = some ph) :
    Keeps other { L with handles := L.handles.put c ph' } := by
  refine h.perm (List.Perm.append_left _ (List.Perm.append_right _ ?_))
  have hp := (Table.perm_remove (Table.get_eq_some.mp hc)).map fun e => (e.1, Block.client)
  rw [Table.entries_put]
  exact hp

/-- A block of its own becomes a handle. -/
lemma keeps_new_handle (h : Heap.Owned L.heap ((c, .client) :: (other ++ L.blocks)))
    (ph : Phase) :
    Keeps other { L with handles := L.handles.put c ph } := by
  have hfresh : L.handles.get c = none := by
    rcases hg : L.handles.get c with _ | ph'
    · rfl
    · have hnd := h.nodup
      rw [List.map_cons, List.nodup_cons] at hnd
      exact absurd (List.mem_map.mpr
        ⟨_, List.mem_append_right other (mem_blocks hg), rfl⟩) hnd.1
  unfold Keeps Loop.blocks
  dsimp only
  rw [Table.entries_put_new hfresh]
  exact h.perm List.perm_middle.symm

lemma uvClose_eq (h : Keeps other L) (hc : L.handles.get c = some ph)
    (hph : ∀ cb, ph ≠ .closing cb) (cb : Bool) :
    uvClose L c cb = .ok { L with handles := L.handles.put c (.closing cb) } := by
  unfold uvClose
  rw [touch_eq h (List.mem_append_right other (mem_blocks hc))]
  dsimp only [bind, Except.bind]
  rw [hc]
  rcases ph with _ | _ | cb'
  · rfl
  · rfl
  · exact absurd rfl (hph cb')

/-- A block of its own becomes a request in flight. -/
lemma keeps_new_request (h : Heap.Owned L.heap ((p, .request) :: (other ++ L.blocks))) (n : ℕ) :
    Keeps other { L with flight := L.flight.put p n } := by
  have hfresh : L.flight.get p = none := by
    rcases hg : L.flight.get p with _ | n'
    · rfl
    · have hnd := h.nodup
      rw [List.map_cons, List.nodup_cons] at hnd
      have hm : (p, Block.request) ∈ L.blocks :=
        List.mem_append_right _ (List.mem_map.mpr ⟨_, Table.get_eq_some.mp hg, rfl⟩)
      exact absurd (List.mem_map.mpr ⟨_, List.mem_append_right other hm, rfl⟩) hnd.1
  unfold Keeps Loop.blocks
  dsimp only
  rw [Table.entries_put_new hfresh, List.map_cons]
  refine h.perm ?_
  unfold Loop.blocks
  rw [← List.append_assoc, ← List.append_assoc]
  exact List.perm_middle.symm

/-- The blocks libuv knows of are a request in flight and the rest. -/
lemma blocks_perm_request {n : ℕ} (hp : L.flight.get p = some n) :
    L.blocks.Perm ((p, .request) :: Loop.blocks { L with flight := L.flight.remove p }) := by
  have hrest := (Table.perm_remove (Table.get_eq_some.mp hp)).map fun e => (e.1, Block.request)
  exact (List.Perm.append_left _ hrest).trans List.perm_middle

lemma blocks_perm_handle (hc : L.handles.get c = some ph) :
    L.blocks.Perm ((c, .client) :: Loop.blocks { L with handles := L.handles.remove c }) :=
  List.Perm.append_right _
    ((Table.perm_remove (Table.get_eq_some.mp hc)).map fun e => (e.1, Block.client))

end Ownership

/-! ### What a callback does to the heap -/

section Callbacks

variable {σ : Type} {L : Loop σ} {other : List (Addr × Block)} {c p : Addr} {ph : Phase}
  {m : Option Addr} {E : LoopFault → Prop}

lemma uvSend_triple (h : Heap.Owned L.heap ((p, .request) :: (other ++ L.blocks)))
    (bytes : List UInt8) (v : Verdict) : Triple E (uvSend L (some p) bytes v) (Post other) := by
  unfold uvSend
  rw [touch_eq h List.mem_cons_self]
  rcases v with _ | n
  · exact Triple.ok (Q := Post other) h
  · exact Triple.ok (Q := Post other) (keeps_new_request h _)

lemma sendUDP_triple (h : Keeps other L) (bytes : List UInt8) (m : Option Addr) (v : Verdict) :
    Triple E (sendUDP L bytes m v) (Post other) := by
  unfold sendUDP
  rcases Heap.malloc_cases h m .request with hm | ⟨q, heap, hm, ho⟩
  · rw [hm]
    exact Triple.ok (post_of_keeps h)
  · rw [hm]
    exact uvSend_triple (L := { L with heap := heap }) ho bytes v

/-- A request that could not be allocated is written through all the same. -/
lemma sendTCP_triple (h : Keeps other L) (hc : L.handles.get c = some ph)
    (hE : (L.heap.malloc m .request).1 = none → E (.pointer .null)) (bytes : List UInt8)
    (v : Verdict) : Triple E (sendTCP L c bytes m v) (Post other) := by
  have hmem := List.mem_append_right other (mem_blocks hc)
  unfold sendTCP allocReq
  rcases Heap.malloc_cases h m .request with hm | ⟨q, heap, hm, ho⟩
  · rw [hm] at hE ⊢
    dsimp only
    rw [touch_eq h hmem]
    exact Triple.error (hE rfl)
  · rw [hm]
    dsimp only
    rw [touch_eq ho (List.mem_cons_of_mem _ hmem)]
    exact uvSend_triple (L := { L with heap := heap }) ho bytes v

lemma onConnect_triple (h : Keeps other L)
    {status : ℤ} (hE : 0 ≤ status → (L.heap.malloc m .client).1 = none → E (.pointer .null))
    (accept readStart : ℤ) :
    Triple E (onConnect L status m accept readStart) (Keeps other) := by
  unfold onConnect
  by_cases hs : status < 0
  · rw [if_pos hs]
    exact Triple.ok h
  rw [if_neg hs]
  unfold allocClient
  rcases Heap.malloc_cases h m .client with hm | ⟨q, heap, hm, ho⟩
  · rw [hm] at hE ⊢
    exact Triple.error (hE (by omega) rfl)
  · have hidle := keeps_new_handle (L := { L with heap := heap }) ho .idle
    have hget : (L.handles.put q .idle).get q = some .idle :=
      Table.get_eq_some.mpr List.mem_cons_self
    rw [hm]
    refine Triple.bind
      (Q := (· = (q, { L with heap := heap, handles := L.handles.put q .idle }))) ?_ ?_
    · unfold uvTcpInit
      rw [touch_eq ho List.mem_cons_self]
      exact Triple.ok rfl
    · rintro _ rfl
      dsimp only
      split_ifs
      · exact Triple.ok (keeps_put hidle hget)
      · exact Triple.ok hidle
      · rw [uvClose_eq hidle hget (fun cb => by simp) true]
        exact Triple.ok (keeps_put hidle hget)

/-- What is left is to free the buffer. -/
lemma post_freeBuffer {buf : Option Addr} {base : List UInt8} {r : Option Seen × Loop σ}
    (h : Post (held buf base ++ other) r) :
    Triple E (do let heap ← freeBuffer r.2.heap buf; .ok (r.1, { r.2 with heap := heap }))
      (Post other) := by
  have ho : Heap.Owned r.2.heap (held buf base ++ (lost r.1 ++ other ++ r.2.blocks)) := by
    refine Heap.Owned.perm h ?_
    rw [← List.append_assoc, ← List.append_assoc, ← List.append_assoc]
    exact (List.perm_append_comm.append_right _).append_right _
  obtain ⟨heap, hf, ho'⟩ := freeBuffer_eq ho
  rw [hf]
  exact Triple.ok (Q := Post other) ho'

variable [Presence σ] {buf : Option Addr} {base : List UInt8}

lemma store_triple {α : Type} {x : Except Fault α} (hstore : ∀ e, E (.store e)) :
    Triple E (x.mapError .store) fun a => x = .ok a := by
  rcases x with e | a
  · exact Triple.error (hstore e)
  · exact Triple.ok rfl

lemma onReadTCP_triple (h : Keeps (held buf base ++ other) L)
    (hc : L.handles.get c = some .reading) {readCount : ℤ} (hbuf : buf = none → readCount < 0)
    {addr : Sockaddr} {peer : Option Sockaddr} {now : Readings}
    (hE : 0 < readCount → ∀ a s, query L.presence (getpeername peer addr)
      (base.take readCount.toNat) now = .ok (a, s) → 0 < a.ret →
      (L.heap.malloc m .request).1 = none → E (.pointer .null))
    (hstore : ∀ e, E (.store e)) (v : Verdict) :
    Triple E (onReadTCP L c readCount buf addr peer now m v) (Post other) := by
  unfold onReadTCP
  by_cases hcount : readCount ≤ 0
  · rw [if_pos hcount, uvClose_eq h hc (fun cb => by simp) true]
    exact post_freeBuffer (r := (none, { L with handles := L.handles.put c (.closing true) }))
      (post_of_keeps (keeps_put h hc))
  · obtain ⟨p, rfl⟩ : ∃ p, buf = some p := by
      rcases buf with _ | p
      · have := hbuf rfl
        omega
      · exact ⟨p, rfl⟩
    rw [if_neg hcount, bytesAt_eq h List.mem_cons_self]
    refine Triple.bind (Q := (base = ·)) (Triple.ok rfl) ?_
    rintro _ rfl
    refine Triple.bind (store_triple hstore) fun r hr => ?_
    refine Triple.bind (Q := Post (held (some p) base ++ other)) ?_ fun r h' =>
      post_freeBuffer (r := r) h'
    split_ifs with hret
    · exact sendTCP_triple (L := { L with presence := r.2 }) h hc
        (hE (by omega) r.1 r.2 hr hret) _ v
    · exact Triple.ok (post_of_keeps (L := { L with presence := r.2 }) h)

lemma listener_onUDPRead_triple (h : Keeps (held buf base ++ other) L) {bytesRead : ℤ}
    (hbuf : buf = none → bytesRead < 0) (hstore : ∀ e, E (.store e)) (addr : Sockaddr)
    (now : Readings) (m : Option Addr) (v : Verdict) :
    Triple E (UVListener.onUDPRead L bytesRead buf addr now m v) (Post other) := by
  unfold UVListener.onUDPRead
  refine Triple.bind (Q := Post (held buf base ++ other)) ?_ fun r h' =>
    post_freeBuffer (r := r) h'
  by_cases hneg : bytesRead < 0
  · rw [if_pos hneg]
    exact Triple.ok (post_of_keeps h)
  rw [if_neg hneg]
  by_cases hzero : bytesRead = 0
  · rw [if_pos hzero]
    exact Triple.ok (post_of_keeps h)
  rw [if_neg hzero]
  obtain ⟨p, rfl⟩ := Option.ne_none_iff_exists'.mp fun hnone => hneg (hbuf hnone)
  rw [bytesAt_eq h List.mem_cons_self]
  refine Triple.bind (Q := (base = ·)) (Triple.ok rfl) ?_
  rintro _ rfl
  refine Triple.bind (store_triple hstore) fun r _ => ?_
  dsimp only
  split_ifs
  · exact sendUDP_triple (L := { L with presence := r.2 }) h _ m v
  · exact Triple.ok (post_of_keeps (L := { L with presence := r.2 }) h)

lemma client_onUDPRead_triple (h : Keeps (held buf base ++ other) L) {bytesRead : ℤ}
    (hbuf : buf = none → bytesRead < 0) (hstore : ∀ e, E (.store e)) (now : Readings) :
    Triple E (UVClient.onUDPRead L bytesRead buf now) (Post other) := by
  unfold UVClient.onUDPRead
  refine Triple.bind (Q := Keeps (held buf base ++ other)) ?_ fun L' h' =>
    post_freeBuffer (r := (none, L')) (post_of_keeps h')
  by_cases hneg : bytesRead < 0
  · rw [if_pos hneg]
    exact Triple.ok h
  rw [if_neg hneg]
  by_cases hzero : bytesRead = 0
  · rw [if_pos hzero]
    exact Triple.ok h
  rw [if_neg hzero]
  by_cases h32 : bytesRead = 32
  · obtain ⟨p, rfl⟩ := Option.ne_none_iff_exists'.mp fun hnone => hneg (hbuf hnone)
    rw [if_pos h32, bytesAt_eq h List.mem_cons_self]
    refine Triple.bind (Q := (base = ·)) (Triple.ok rfl) ?_
    rintro _ rfl
    exact Triple.bind (store_triple hstore) fun s _ =>
      Triple.ok (Q := Keeps (held (some p) base ++ other)) h
  · rw [if_neg h32]
    exact Triple.ok h

end Callbacks

section Step

variable {σ : Type} {L : Loop σ} {other : List (Addr × Block)} {E : LoopFault → Prop}

/-- A request that is called back for is gone, and nothing is lost. -/
lemma onSent_eq_ok {L' : Loop σ} {req : Addr} {rest : ℕ} {frame : Option (List UInt8)}
    {o : Option Seen} (h : onSent L req rest frame = .ok (o, L')) :
    o = (if rest = 0 then none else frame.map fun b => .wire (b.takeD rest 0)) ∧
      ∃ heap, L' = { L with heap := heap, flight := L.flight.remove req } := by
  unfold onSent at h
  rcases hf : L.heap.free req with e | heap
  · rw [hf] at h
    cases h
  · rw [hf] at h
    cases h
    exact ⟨rfl, heap, rfl⟩

lemma lost_frame (rest : ℕ) (frame : Option (List UInt8)) :
    lost (if rest = 0 then none else frame.map fun b => .wire (b.takeD rest 0)) = [] := by
  split_ifs
  · rfl
  · cases frame <;> rfl

lemma onClosed_eq_ok {L' : Loop σ} {client : Addr} {callback : Bool} {o : Option Seen}
    (h : onClosed L client callback = .ok (o, L')) :
    o = (if callback then none else some (.orphaned client)) ∧
      ∃ heap, L' = { L with heap := heap, handles := L.handles.remove client } := by
  cases callback with
  | false =>
    cases h
    exact ⟨rfl, L.heap, rfl⟩
  | true =>
    unfold onClosed at h
    rw [if_pos rfl] at h
    dsimp only at h
    rcases hf : onCloseClient L.heap client with e | heap
    · rw [hf] at h
      cases h
    · rw [hf] at h
      cases h
      exact ⟨rfl, heap, rfl⟩

lemma onSent_triple (h : Keeps other L) {req : Addr} {rest : ℕ}
    (hreq : L.flight.get req = some rest) (frame : Option (List UInt8)) :
    Triple E (onSent L req rest frame) (Post other) := by
  have ho := h.perm (((blocks_perm_request hreq).append_left other).trans List.perm_middle)
  obtain ⟨heap, hf, ho'⟩ := ho.free
  unfold onSent
  rw [hf]
  refine Triple.ok ?_
  unfold Post
  rw [lost_frame]
  exact ho'

lemma lost_orphaned (client : Addr) (callback : Bool) :
    lost (if callback then none else some (.orphaned client)) =
      if callback then [] else [(client, .client)] := by
  cases callback <;> rfl

lemma onCloseClient_eq {heap heap' : Heap Addr Block} {p : Addr} (h : heap.free p = .ok heap') :
    onCloseClient heap p = .ok heap' := by
  unfold onCloseClient freeClient
  dsimp only
  rw [h]
  rfl

lemma onClosed_triple (h : Keeps other L) {client : Addr} {callback : Bool}
    (hclient : L.handles.get client = some (.closing callback)) :
    Triple E (onClosed L client callback) (Post other) := by
  have ho := h.perm (((blocks_perm_handle hclient).append_left other).trans List.perm_middle)
  unfold onClosed
  cases callback with
  | true =>
    obtain ⟨heap, hf, ho'⟩ := ho.free
    rw [if_pos rfl]
    dsimp only
    rw [onCloseClient_eq hf]
    exact Triple.ok (Q := Post other) ho'
  | false => exact Triple.ok (Q := Post other) ho

lemma keeps_stop (h : Keeps other L) : Keeps other (stop L) := by
  unfold stop
  split_ifs
  · exact h
  · unfold Keeps Loop.blocks Table.map
    dsimp only
    rw [List.map_map]
    exact h

variable [Presence σ]

/-- `malloc` has nothing for a call whose result is written through unchecked: for the handle
of a connection, or for a reply over one. -/
def Starved (L : Loop σ) : Event → Prop
  | .connect status m _ _ =>
    L.stopped = false ∧ 0 ≤ status ∧ (L.heap.malloc m .client).1 = none
  | .readTCP client mbuf r peer m _ =>
    L.handles.get client = some .reading ∧ ∃ buf heap a s,
      uvRead L.heap mbuf r.readCount r.base = .ok (r.readCount, some buf, heap) ∧
      0 < r.readCount ∧ query L.presence (getpeername peer r.addr) r.bytes r.now = .ok (a, s) ∧
      0 < a.ret ∧ (heap.malloc m .request).1 = none
  | _ => False

/-- What a step may fail by. -/
def Tolerated (L : Loop σ) (ev : Event) (e : LoopFault) : Prop :=
  e = .pointer .null ∧ Starved L ev ∨ ∃ f, e = .store f

/-- **One turn of the loop, and the heap.** -/
theorem step_triple (P : Program) (h : Keeps other L) (ev : Event) :
    Triple (Tolerated L ev) (step P L ev) (Post other) := by
  have hstore : ∀ e, Tolerated L ev (.store e) := fun e => Or.inr ⟨e, rfl⟩
  cases ev with
  | connect status m accept readStart =>
    rw [step]
    by_cases hs : L.stopped = true
    · rw [if_pos hs]
      exact Triple.ok (post_of_keeps h)
    · rw [if_neg hs]
      have hE : 0 ≤ status → (L.heap.malloc m .client).1 = none →
          Tolerated L (.connect status m accept readStart) (.pointer .null) :=
        fun hstatus hm => Or.inl ⟨rfl, by simpa using hs, hstatus, hm⟩
      exact (onConnect_triple h hE accept readStart).map fun L' hL' => post_of_keeps hL'
  | readTCP client mbuf r peer m v =>
    rw [step]
    by_cases hc : L.handles.get client = some .reading
    · obtain ⟨n, buf, heap, hread, ho, hbuf, hn⟩ := uvRead_eq h mbuf r.readCount r.base
      have ho' : Keeps (held buf r.base ++ other) { L with heap := heap } := by
        unfold Keeps
        rw [List.append_assoc]
        exact ho
      rw [if_pos hc, hread]
      refine onReadTCP_triple ho' hc hbuf ?_ hstore v
      intro hpos a s hq hret hm
      obtain rfl : n = r.readCount := by omega
      obtain ⟨p, rfl⟩ := Option.ne_none_iff_exists'.mp fun hnone => by
        have := hbuf hnone
        omega
      exact Or.inl ⟨rfl, hc, p, heap, a, s, hread, hpos, hq, hret, hm⟩
    · rw [if_neg hc]
      exact Triple.ok (post_of_keeps h)
  | readUDP mbuf bytesRead base addr now m v =>
    rw [step]
    by_cases hs : L.stopped = true
    · rw [if_pos hs]
      exact Triple.ok (post_of_keeps h)
    · obtain ⟨n, buf, heap, hread, ho, hbuf, -⟩ := uvRead_eq h mbuf bytesRead base
      have ho' : Keeps (held buf base ++ other) { L with heap := heap } := by
        unfold Keeps
        rw [List.append_assoc]
        exact ho
      rw [if_neg hs, hread]
      cases P with
      | service => exact listener_onUDPRead_triple ho' hbuf hstore addr now m v
      | client uid => exact client_onUDPRead_triple ho' hbuf hstore now
  | timer m v =>
    cases P with
    | service => exact Triple.ok (post_of_keeps h)
    | client uid =>
      rw [step]
      split_ifs
      · exact Triple.ok (post_of_keeps h)
      · exact sendUDP_triple h _ m v
  | sent req frame =>
    rw [step]
    rcases hreq : L.flight.get req with _ | rest
    · exact Triple.ok (post_of_keeps h)
    · exact onSent_triple h hreq frame
  | closed client =>
    rw [step]
    rcases hclient : L.handles.get client with _ | _ | _ | callback
    · exact Triple.ok (post_of_keeps h)
    · exact Triple.ok (post_of_keeps h)
    · exact Triple.ok (post_of_keeps h)
    · exact onClosed_triple h hclient
  | stop => exact Triple.ok (post_of_keeps (keeps_stop h))

end Step

end SimplePresence.Ownership
