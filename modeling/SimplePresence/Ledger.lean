import SimplePresence.Ownership

/-!
The memory of the event loops over whole runs.

Whatever libuv calls back for, and in whatever order, and whatever `malloc` returns, no block
is freed twice or used after it was freed. What stays behind is what libuv still knows of, the
requests of sends it refused, and the handles that `stop` closed.
-/

namespace SimplePresence.Ledger

open SimplePresence.Uid SimplePresence.Item SimplePresence.OrderedMap SimplePresence.Query
open SimplePresence.Machine SimplePresence.Memory SimplePresence.EventLoop
open SimplePresence.Ownership SimplePresence.Store
open SimplePresence.Listener (Read getpeername)

variable {σ : Type} {s : σ} {L L' : Loop σ} {other : List (Addr × Block)}

/-- A loop that nothing was called back in. -/
def start (s : σ) : Loop σ := ⟨Table.empty, Table.empty, Table.empty, false, s⟩

lemma keeps_start (s : σ) : Keeps [] (start s) := Heap.owned_empty

section Run

variable [Presence σ] {P : Program} {es : List Event} {outs : List (Option Seen)} {ev : Event}

omit [Presence σ] in
lemma keeps_concat {r : Option Seen × Loop σ} (h : Post (outs.flatMap lost) r) :
    Keeps ((outs ++ [r.1]).flatMap lost) r.2 := by
  rw [List.flatMap_append, List.flatMap_singleton]
  exact Heap.Owned.perm h (List.perm_append_comm.append_right _)

/-- After any run the heap consists of what was lost in it and of what libuv knows of. -/
lemma keeps_run (h : run (step P) (start s) es = .ok (outs, L)) : Keeps (outs.flatMap lost) L :=
  run_induction (I := fun _ outs L => Keeps (outs.flatMap lost) L) (keeps_start s)
    (fun _ _ _ ev _ _ ih hs => keeps_concat ((step_triple P ih ev).of_eq_ok hs)) h

/-- A step fails on a null pointer, or in the store. -/
lemma step_error (h : Keeps other L) {e : LoopFault} (hs : step P L ev = .error e) :
    e = .pointer .null ∨ ∃ f, e = .store f := by
  rcases (step_triple P h ev).of_eq_error hs with ⟨he, -⟩ | he
  · exact Or.inl he
  · exact Or.inr he

/-- Nobody but a callback holds a buffer. -/
lemma no_buffer (h : run (step P) (start s) es = .ok (outs, L)) (p : Addr) (bytes : List UInt8) :
    (p, .buffer bytes) ∉ L.heap.entries := by
  intro hm
  rcases List.mem_append.mp ((keeps_run h).mem_iff.mp hm) with hlost | hblocks
  · obtain ⟨o, -, ho⟩ := List.mem_flatMap.mp hlost
    rcases o with _ | _ | _ | _ <;> simp [lost] at ho
  · simp [Loop.blocks] at hblocks

/-- **The ledger of the heap.** After any run of either program the blocks on the heap are, each
once, those of the connections and requests that libuv still calls back for, of the sends it
refused, and of the handles it closed with nobody to call back; and no read leaves a buffer. -/
theorem heap_ledger (P : Program) (s : σ) (es : List Event) (outs : List (Option Seen))
    (L : Loop σ) (h : run (step P) (start s) es = .ok (outs, L)) :
    L.heap.entries.Perm (outs.flatMap lost ++ L.blocks) ∧
      ((outs.flatMap lost ++ L.blocks).map Prod.fst).Nodup ∧
      ∀ p bytes, (p, .buffer bytes) ∉ L.heap.entries :=
  ⟨keeps_run h, (keeps_run h).nodup, no_buffer h⟩

end Run

/-- Two connections, each pinged over; the reply over the second is refused. -/
def visits : List Event :=
  [.connect 0 (some 1) 0 0,
    .readTCP 1 (some 2) (Listener.callback (UID.ofBytes [1]).data) (some Listener.peerA) (some 3)
      (.took 32),
    .connect 0 (some 4) 0 0,
    .readTCP 4 (some 2) (Listener.callback (UID.ofBytes [2]).data) (some Listener.peerA) (some 5)
      .refused]

theorem heap_ledger_visits : ∃ outs L,
    run (step .service) (start MemPresence.empty) visits = .ok (outs, L) ∧
      L.heap.entries.Perm (outs.flatMap lost ++ L.blocks) ∧
      outs.flatMap lost = [(5, .request)] ∧
      L.blocks = [(4, .client), (1, .client), (3, .request)] :=
  ⟨_, _, rfl, (heap_ledger .service MemPresence.empty visits _ _ rfl).1, rfl, rfl⟩

/-! ### After `stop` -/

/-- The handles that nobody will be called back for once everything is closed. -/
def left (L : Loop σ) : List (Addr × Block) :=
  (L.handles.entries.filter fun e => e.2 ≠ .closing true).map fun e => (e.1, .client)

/-- `stop` has been called: everything is closing. -/
structure Stopped (L : Loop σ) : Prop where
  stopped : L.stopped = true
  closing : ∀ c ph, L.handles.get c = some ph → ∃ cb, ph = .closing cb

lemma stopped_stop (h : L.stopped = false) : Stopped (stop L) := by
  unfold stop
  rw [if_neg (by simp [h])]
  refine ⟨rfl, fun c ph hc => ?_⟩
  obtain ⟨⟨c', ph'⟩, -, he⟩ := List.mem_map.mp (Table.get_eq_some.mp hc)
  cases he
  unfold walk
  split
  · exact ⟨_, rfl⟩
  · exact ⟨_, rfl⟩

/-- What `stop` closes nobody is called back for. -/
lemma left_stop (L : Loop σ) : left (stop L) = left L := by
  unfold stop
  split_ifs
  · rfl
  · unfold left Table.map
    dsimp only
    rw [List.filter_map, List.map_map]
    congr 1
    refine List.filter_congr fun e _ => ?_
    rcases e with ⟨c, _ | _ | _ | _⟩ <;> rfl

lemma blocks_stop (L : Loop σ) : (stop L).blocks = L.blocks := by
  unfold stop
  split_ifs
  · rfl
  · unfold Loop.blocks Table.map
    dsimp only
    rw [List.map_map]
    rfl

lemma left_remove {c : Addr} {cb : Bool} (hc : L.handles.get c = some (.closing cb)) :
    (left L).Perm ((if cb then [] else [(c, .client)]) ++
      left { L with handles := L.handles.remove c }) := by
  have hp := ((Table.perm_remove (Table.get_eq_some.mp hc)).filter
    fun e => e.2 ≠ .closing true).map fun e => (e.1, Block.client)
  refine hp.trans ?_
  cases cb <;> simp [left]

section Drain

variable [Presence σ] {P : Program} {ev : Event} {o : Option Seen}

lemma step_sent {req : Addr} {rest : ℕ} (h : L.flight.get req = some rest)
    (frame : Option (List UInt8)) : step P L (.sent req frame) = onSent L req rest frame := by
  rw [step, h]

lemma step_closed {c : Addr} {cb : Bool} (h : L.handles.get c = some (.closing cb)) :
    step P L (.closed c) = onClosed L c cb := by
  rw [step, h]

/-- What a turn does after `stop`: nothing, or it is done with a request or a handle. -/
lemma step_stopped (h : Stopped L) (hs : step P L ev = .ok (o, L')) :
    Stopped L' ∧ (lost o ++ left L').Perm (left L) ∧ L'.presence = L.presence := by
  cases ev with
  | connect status m accept readStart =>
    rw [step, if_pos h.stopped] at hs
    cases hs
    exact ⟨h, List.Perm.refl _, rfl⟩
  | readTCP client mbuf r peer m v =>
    have hc : L.handles.get client ≠ some .reading := by
      intro hc
      obtain ⟨cb, hcb⟩ := h.closing _ _ hc
      cases hcb
    rw [step, if_neg hc] at hs
    cases hs
    exact ⟨h, List.Perm.refl _, rfl⟩
  | readUDP mbuf bytesRead base addr now m v =>
    rw [step, if_pos h.stopped] at hs
    cases hs
    exact ⟨h, List.Perm.refl _, rfl⟩
  | timer m v =>
    cases P with
    | service =>
      cases hs
      exact ⟨h, List.Perm.refl _, rfl⟩
    | client uid =>
      rw [step, if_pos h.stopped] at hs
      cases hs
      exact ⟨h, List.Perm.refl _, rfl⟩
  | sent req frame =>
    rcases hreq : L.flight.get req with _ | rest
    · rw [step, hreq] at hs
      cases hs
      exact ⟨h, List.Perm.refl _, rfl⟩
    · rw [step_sent hreq] at hs
      obtain ⟨rfl, heap, rfl⟩ := onSent_eq_ok hs
      rw [lost_frame]
      exact ⟨⟨h.stopped, h.closing⟩, List.Perm.refl _, rfl⟩
  | closed client =>
    rcases hc : L.handles.get client with _ | ph
    · rw [step, hc] at hs
      cases hs
      exact ⟨h, List.Perm.refl _, rfl⟩
    · obtain ⟨cb, rfl⟩ := h.closing _ _ hc
      rw [step_closed hc] at hs
      obtain ⟨rfl, heap, rfl⟩ := onClosed_eq_ok hs
      rw [lost_orphaned]
      exact ⟨⟨h.stopped, fun c ph hc' => h.closing c ph (Table.get_of_get_remove hc')⟩,
        (left_remove hc).symm, rfl⟩
  | stop =>
    cases hs
    unfold stop
    rw [if_pos h.stopped]
    exact ⟨h, List.Perm.refl _, rfl⟩

/-- Everything that libuv knows of can be called back for. -/
lemma exists_drain (h : Stopped L) (hk : Keeps other L) :
    ∃ cbs outs L', cbs.length = L.blocks.length ∧ run (step P) L cbs = .ok (outs, L') ∧
      L'.blocks = [] := by
  obtain ⟨n, hn⟩ : ∃ n, L.blocks.length = n := ⟨_, rfl⟩
  induction n generalizing L other with
  | zero => exact ⟨[], [], L, hn.symm, rfl, List.length_eq_zero_iff.mp hn⟩
  | succ n ih =>
    -- some callback is due: for a request in flight, or for a handle that is closing
    have hstep : ∃ ev o L₁, step P L ev = .ok (o, L₁) ∧ Keeps (lost o ++ other) L₁ ∧
        L₁.blocks.length = n := by
      rcases hflight : L.flight.entries with _ | ⟨⟨req, rest⟩, flight⟩
      · rcases hhandles : L.handles.entries with _ | ⟨⟨c, ph⟩, handles⟩
        · simp [Loop.blocks, hflight, hhandles] at hn
        · have hc : L.handles.get c = some ph := by
            rw [Table.get_eq_some, hhandles]
            exact List.mem_cons_self
          obtain ⟨cb, rfl⟩ := h.closing _ _ hc
          obtain ⟨⟨o, L₁⟩, hs, hpost⟩ := (onClosed_triple hk hc).exists_ok
          obtain ⟨-, heap, rfl⟩ := onClosed_eq_ok hs
          refine ⟨.closed c, o, _, by rw [step_closed hc, hs], hpost, ?_⟩
          have hlen := (blocks_perm_handle hc).length_eq
          rw [hn, List.length_cons] at hlen
          exact (Nat.succ.inj hlen).symm
      · have hreq : L.flight.get req = some rest := by
          rw [Table.get_eq_some, hflight]
          exact List.mem_cons_self
        obtain ⟨⟨o, L₁⟩, hs, hpost⟩ := (onSent_triple hk hreq none).exists_ok
        obtain ⟨-, heap, rfl⟩ := onSent_eq_ok hs
        refine ⟨.sent req none, o, _, by rw [step_sent hreq, hs], hpost, ?_⟩
        have hlen := (blocks_perm_request hreq).length_eq
        rw [hn, List.length_cons] at hlen
        exact (Nat.succ.inj hlen).symm
    obtain ⟨ev, o, L₁, hs, hk₁, hlen⟩ := hstep
    obtain ⟨cbs, outs, L', hcbs, hrun, hL'⟩ := ih (step_stopped h hs).1 hk₁ hlen
    exact ⟨ev :: cbs, o :: outs, L', by rw [List.length_cons, hcbs, hlen, hn],
      run_cons_eq_ok.mpr ⟨o, L₁, outs, hs, hrun, rfl⟩, hL'⟩

/-- **What `stop` leaves behind.** Call `stop` for the first time, in any state that either program
can reach without it. The callbacks due for what libuv knows of, one each, leave it nothing.
However they come, and whatever else is called back for, nothing is stored any more; and when
libuv knows of nothing, the heap holds what was lost before and, of the connections, exactly
those that were not closing: nobody is called back to free them. -/
theorem stop_drains (P : Program) (s : σ) (es : List Event) :
    ∀ outs L, run (step P) (start s) es = .ok (outs, L) → L.stopped = false →
      (∃ cbs outs' L', cbs.length = L.blocks.length ∧
        run (step P) (stop L) cbs = .ok (outs', L') ∧ L'.blocks = []) ∧
      ∀ cbs outs' L', run (step P) (stop L) cbs = .ok (outs', L') →
        L'.presence = L.presence ∧
          (L'.blocks = [] → L'.heap.entries.Perm (outs.flatMap lost ++ left L)) := by
  intro outs L h hs
  have hstopped := stopped_stop hs
  have hk := keeps_stop (keeps_run h)
  refine ⟨?_, fun cbs outs' L' hrun => ?_⟩
  · rw [← blocks_stop]
    exact exists_drain hstopped hk
  · -- what has been lost since `stop` and what will be are what `stop` left
    obtain ⟨-, hleft, hpres⟩ : Stopped L' ∧
        (outs'.flatMap lost ++ left L').Perm (left (stop L)) ∧
        L'.presence = (stop L).presence := by
      refine run_induction (I := fun _ outs' L' => Stopped L' ∧
        (outs'.flatMap lost ++ left L').Perm (left (stop L)) ∧ L'.presence = (stop L).presence)
        ⟨hstopped, List.Perm.refl _, rfl⟩ (fun _ os L₁ ev o L₂ ih hs => ?_) hrun
      obtain ⟨hst, hl, hp⟩ := ih
      obtain ⟨hst', hl', hp'⟩ := step_stopped hst hs
      rw [List.flatMap_append, List.flatMap_singleton, List.append_assoc]
      exact ⟨hst', (hl'.append_left _).trans hl, hp'.trans hp⟩
    refine ⟨hpres.trans (by unfold stop; split_ifs <;> rfl), fun hempty => ?_⟩
    have hall : run (step P) (start s) (es ++ .stop :: cbs) =
        .ok (outs ++ none :: outs', L') :=
      run_append_eq_ok.mpr ⟨outs, L, none :: outs', h,
        run_cons_eq_ok.mpr ⟨none, stop L, outs', rfl, hrun, rfl⟩, rfl⟩
    have howned := keeps_run hall
    have hnone : left L' = [] := by
      unfold Loop.blocks at hempty
      have hh := (List.append_eq_nil_iff.mp hempty).1
      simp [left, List.map_eq_nil_iff.mp hh]
    rw [hnone, List.append_nil, left_stop] at hleft
    unfold Keeps at howned
    rw [hempty, List.append_nil, List.flatMap_append] at howned
    exact howned.trans (hleft.append_left _)

end Drain

/-- Two connections are open as `stop` is called. -/
theorem stop_drains_visits : ∃ outs L outs' L',
    run (step .service) (start MemPresence.empty) visits = .ok (outs, L) ∧
      run (step .service) (stop L) [.sent 3 none, .closed 1, .closed 4] = .ok (outs', L') ∧
      L'.heap.entries.Perm [(5, .request), (4, .client), (1, .client)] := by
  refine ⟨_, _, _, _, rfl, rfl, ?_⟩
  have hcalled := (stop_drains .service MemPresence.empty visits _ _ rfl rfl).2
    [.sent 3 none, .closed 1, .closed 4] _ _ rfl
  exact hcalled.2 rfl

end SimplePresence.Ledger
