import SimplePresence.Handlers

/-!
What the event loops send.

The bytes of a reply lie on the stack of the callback that makes it. The kernel takes them at
once, or it takes what is left of them later, from a stack that has been used since.
-/

namespace SimplePresence.Replies

open SimplePresence.Uid SimplePresence.Item SimplePresence.OrderedMap SimplePresence.Query
open SimplePresence.Machine SimplePresence.Memory SimplePresence.EventLoop SimplePresence.Service
open SimplePresence.Ownership SimplePresence.Store SimplePresence.Ledger SimplePresence.Handlers
open SimplePresence.Listener (Read getpeername sent)

variable {σ : Type} [Presence σ] {P : Program} {s : σ} {L L' : Loop σ} {o : Option Seen}
  {ev ev' : Event} {es es' : List Event} {outs : List (Option Seen)}

/-! ### Bytes taken late -/

/-- The same callback, the stack holding something else by now. -/
inductive SameButFrame : Event → Event → Prop
  | refl (ev : Event) : SameButFrame ev ev
  | sent (req : Addr) (frame frame' : List UInt8) :
    SameButFrame (.sent req (some frame)) (.sent req (some frame'))

lemma forall₂_refl (es : List Event) : List.Forall₂ SameButFrame es es :=
  List.forall₂_same.mpr fun ev _ => SameButFrame.refl ev

/-- What a request in flight is called back with is sent, when something was left of it. -/
lemma step_sent_eq {req : Addr} {n : ℕ} {frame : List UInt8} (hn : L.flight.get req = some n)
    (h : step P L (.sent req (some frame)) = .ok (o, L')) (frame' : List UInt8) :
    o = (if n = 0 then none else some (.wire (frame.takeD n 0))) ∧
      step P L (.sent req (some frame')) =
        .ok (if n = 0 then none else some (.wire (frame'.takeD n 0)), L') := by
  rw [step_sent hn] at h ⊢
  unfold onSent at h ⊢
  rcases hf : L.heap.free req with e | heap
  · rw [hf] at h
    cases h
  · rw [hf] at h
    cases h
    exact ⟨rfl, rfl⟩

/-- Nothing is left of a request by the time it is called back for with bytes. -/
def TakenAtOnce (P : Program) (L : Loop σ) (es : List Event) : Prop :=
  ∀ pre req frame post outs L', es = pre ++ .sent req (some frame) :: post →
    run (step P) L pre = .ok (outs, L') → ∀ n, L'.flight.get req = some n → n = 0

lemma TakenAtOnce.tail {o : Option Seen} (h : TakenAtOnce P L (ev :: es))
    (hs : step P L ev = .ok (o, L')) : TakenAtOnce P L' es := by
  rintro pre req frame post outs L'' rfl hr n hn
  exact h (ev :: pre) req frame post (o :: outs) L'' rfl
    (run_cons_eq_ok.mpr ⟨o, L', outs, hs, hr, rfl⟩) n hn

/-- When nothing is left, the stack is not looked at. -/
lemma run_takenAtOnce (ht : TakenAtOnce P L es) (hes : List.Forall₂ SameButFrame es es')
    (h : run (step P) L es = .ok (outs, L')) : run (step P) L es' = .ok (outs, L') := by
  induction hes generalizing L outs with
  | nil => exact h
  | @cons ev ev' es es' hev _ ih =>
    obtain ⟨o, L₁, os, hs, hr, rfl⟩ := run_cons_eq_ok.mp h
    have hs' : step P L ev' = .ok (o, L₁) := by
      rcases hev with _ | ⟨req, frame, frame'⟩
      · exact hs
      · rcases hn : L.flight.get req with _ | n
        · rw [step, hn] at hs ⊢
          exact hs
        · have hzero := ht [] req frame es [] L rfl rfl n hn
          obtain ⟨rfl, hframe⟩ := step_sent_eq hn hs frame'
          rw [hframe, if_pos hzero, if_pos hzero]
    exact run_cons_eq_ok.mpr ⟨o, L₁, os, hs', ih (ht.tail hs) hr, rfl⟩

/-- Two stacks that differ in the first byte are told apart by what is sent. -/
lemma takeD_ne (frame : List UInt8) (n : ℕ) :
    frame.takeD (n + 1) 0 ≠ [frame.headD 0 + 1].takeD (n + 1) 0 := by
  intro h
  have hhead : frame.headD 0 = frame.headD 0 + 1 := by
    cases frame with
    | nil => exact congrArg (fun l => l.headD 0) h
    | cons b frame => exact congrArg (fun l => l.headD 0) h
  have hnat := congrArg UInt8.toNat hhead
  rw [UInt8.toNat_add] at hnat
  have hlt := (frame.headD 0).toNat_lt
  have hone : UInt8.toNat 1 = 1 := rfl
  omega

/-- **When what is sent is what was to be sent.** In any run of either program what goes out does
not depend on what the stack holds after a callback has returned exactly when the kernel takes
all the bytes of a send at once, unless it never takes the rest. -/
theorem sends_own_bytes_iff (P : Program) (s : σ) (es : List Event) (outs : List (Option Seen))
    (L : Loop σ) (h : run (step P) (start s) es = .ok (outs, L)) :
    (∀ es' outs' L', List.Forall₂ SameButFrame es es' →
      run (step P) (start s) es' = .ok (outs', L') → outs' = outs) ↔
    TakenAtOnce P (start s) es := by
  constructor
  · rintro hall pre req frame post outs₁ L₁ rfl hpre n hn
    by_contra hne
    obtain ⟨k, rfl⟩ := Nat.exists_eq_succ_of_ne_zero hne
    obtain ⟨os, L₁', o, L₂, os', hpre', hs, hpost, rfl⟩ := run_split h
    rw [hpre] at hpre'
    cases hpre'
    obtain ⟨ho, hs'⟩ := step_sent_eq hn hs [frame.headD 0 + 1]
    have hrun : run (step P) (start s) (pre ++ .sent req (some [frame.headD 0 + 1]) :: post) =
        .ok (outs₁ ++ some (.wire ([frame.headD 0 + 1].takeD (k + 1) 0)) :: os', L) :=
      run_append_eq_ok.mpr ⟨outs₁, L₁, _, hpre, run_cons_eq_ok.mpr ⟨_, L₂, os', hs', hpost, rfl⟩,
        rfl⟩
    have hes := List.rel_append (forall₂_refl pre)
      (List.Forall₂.cons (SameButFrame.sent req frame [frame.headD 0 + 1]) (forall₂_refl post))
    have heq := List.append_cancel_left (hall _ _ _ hes hrun)
    have hsent := List.head_eq_of_cons_eq heq
    rw [ho, if_neg (Nat.succ_ne_zero k), Option.some.injEq, Seen.wire.injEq] at hsent
    exact takeD_ne frame k hsent.symm
  · intro ht es' outs' L' hes h'
    rw [run_takenAtOnce ht hes h] at h'
    cases h'
    rfl

/-- A ping over TCP of whose reply the kernel takes ten bytes at once, and the rest late. -/
def slowReply : List Event :=
  [.connect 0 (some 1) 0 0,
    .readTCP 1 (some 2) (Listener.callback (UID.ofBytes [1]).data) (some Listener.peerA) (some 3)
      (.took 10),
    .sent 3 (some [255])]

theorem sends_own_bytes_iff_slowReply : ∃ outs L,
    run (step .service) (start MemPresence.empty) slowReply = .ok (outs, L) ∧
      ¬ ∀ es' outs' L', List.Forall₂ SameButFrame slowReply es' →
        run (step .service) (start MemPresence.empty) es' = .ok (outs', L') → outs' = outs := by
  refine ⟨_, _, rfl, fun hall => ?_⟩
  have ht := (sends_own_bytes_iff .service MemPresence.empty slowReply _ _ rfl).mp hall
  have hleft := ht (slowReply.take 2) 3 [255] [] _ _ rfl rfl 22 rfl
  exact absurd hleft (by decide)

/-! ### Requests served -/

/-- The request that a read of the service is. -/
def request : Event → Option Request
  | .readTCP _ _ r peer _ _ => some ⟨getpeername peer r.addr, r.bytes, r.now⟩
  | .readUDP _ bytesRead base addr now _ _ => some ⟨addr, base.take bytesRead.toNat, now⟩
  | _ => none

/-- The handler of a read hands a request to `query`, one of no bytes when nothing was read. -/
lemma react_request {q : Request} (remoteAddress : Sockaddr) (s : σ) (h : request ev = some q) :
    react .service remoteAddress s ev = (handle s q).map fun x => (sent x.1, x.2) := by
  have hempty : ∀ (n : ℤ) (base : List UInt8) (addr : Sockaddr) (now : Readings), n ≤ 0 →
      (handle s ⟨addr, base.take n.toNat, now⟩).map (fun x => (sent x.1, x.2)) = .ok (none, s) := by
    intro n base addr now hn
    have hother : ¬ IsRequest (base.take n.toNat) := by
      rw [Int.toNat_of_nonpos hn]
      exact fun h => h.elim (by simp) (by simp)
    unfold handle
    rw [query_other s addr now hother]
    rfl
  cases ev with
  | readTCP client mbuf r peer m v =>
    cases h
    rw [react_readTCP]
    split_ifs with hn
    · exact (hempty r.readCount r.base _ r.now hn).symm
    · rfl
  | readUDP mbuf n base addr now m v =>
    cases h
    rw [react_readUDP]
    split_ifs with hn
    · exact (hempty n base addr now hn).symm
    · rfl
  | connect => cases h
  | timer => cases h
  | sent => cases h
  | closed => cases h
  | stop => cases h

/-- Where there is no request the service has nothing to do. -/
lemma react_none (remoteAddress : Sockaddr) (s : σ) (h : request ev = none) :
    react .service remoteAddress s ev = .ok (none, s) := by
  cases ev with
  | readTCP => cases h
  | readUDP => cases h
  | connect => rfl
  | timer => rfl
  | sent => rfl
  | closed => rfl
  | stop => rfl

/-- A run of the handlers of the service is one of the requests that are read. -/
lemma serve_of_react {remoteAddress : Sockaddr} {as : List (Option (List UInt8))} {t : σ}
    (h : run (react .service remoteAddress) s es = .ok (as, t)) :
    ∃ as', serve s (es.filterMap request) = .ok (as', t) ∧
      as.filterMap id = as'.filterMap sent := by
  induction es generalizing s as with
  | nil =>
    cases h
    exact ⟨[], rfl, rfl⟩
  | cons ev es ih =>
    obtain ⟨b, s₁, as₁, hs, hr, rfl⟩ := run_cons_eq_ok.mp h
    obtain ⟨as', hserve, has⟩ := ih hr
    rcases hq : request ev with _ | q
    · rw [react_none remoteAddress s hq] at hs
      cases hs
      refine ⟨as', ?_, has⟩
      rw [List.filterMap_cons_none hq]
      exact hserve
    · rw [react_request remoteAddress s hq] at hs
      rcases hh : handle s q with e | ⟨a, s₂⟩
      · rw [hh] at hs
        cases hs
      · rw [hh] at hs
        cases hs
        refine ⟨a :: as', ?_, ?_⟩
        · rw [List.filterMap_cons_some hq]
          exact run_cons_eq_ok.mpr ⟨a, s₂, as', hh, hserve, rfl⟩
        · rw [List.filterMap_cons, List.filterMap_cons, has]
          rfl

/-- **The event loop of the service refines its protocol.** Whatever libuv calls back for and
whatever becomes of allocations and sends, the records are those of some of the requests that
were read, in order, handed to `query` one by one; and when the kernel takes every reply it
accepts at once, what goes out is, in order, some of the answers of `query` to these. A request
or an answer is only lost where `malloc` has no buffer or no block to send with, or libuv
refuses: in a run without that, all that is read is handed to `query`, and every answer goes
out. -/
theorem replies_of_requests (s : σ) (es : List Event) :
    ∀ outs L, run (step .service) (start s) es = .ok (outs, L) →
      (∃ reqs as, reqs.Sublist (es.filterMap request) ∧ serve s reqs = .ok (as, L.presence) ∧
        ((∀ ev ∈ es, ∀ n, verdict .service ev = some (.took n) → 32 ≤ n) →
          (outs.filterMap wired).Sublist (as.filterMap sent))) ∧
      (AmpleRun .service (start s) es →
        (∀ ev ∈ es, ∀ v, verdict .service ev = some v → ∃ n, 32 ≤ n ∧ v = .took n) →
        ∃ as, serve s ((heardRun .service (start s) es).filterMap request) =
            .ok (as, L.presence) ∧
          outs.filterMap wired = as.filterMap sent) := by
  intro outs L h
  refine ⟨?_, fun hample hv => ?_⟩
  · obtain ⟨es', as, hsub, hrun, hwire⟩ := run_reacts (Sockaddr.ofBytes []) h
    obtain ⟨as', hserve, has⟩ := serve_of_react hrun
    refine ⟨es'.filterMap request, as', ?_, hserve, fun hv => has ▸ hwire hv (settled_start s)⟩
    exact (hsub.trans (heardRun_sublist _ _ _)).filterMap _
  · obtain ⟨as, hrun, hwire⟩ :=
      run_reacts_all (Sockaddr.ofBytes []) h hample hv (settled_start s)
    obtain ⟨as', hserve, has⟩ := serve_of_react hrun
    exact ⟨as', hserve, hwire.trans has⟩

/-- The service is visited by two, and answers one of them. -/
theorem replies_of_requests_visits : ∃ outs L reqs as,
    run (step .service) (start MemPresence.empty) visits = .ok (outs, L) ∧
      outs.filterMap wired = [(UID.ofBytes [1]).data ++ Listener.peerA.bytes] ∧
      reqs.Sublist (visits.filterMap request) ∧
      serve MemPresence.empty reqs = .ok (as, L.presence) ∧
      (outs.filterMap wired).Sublist (as.filterMap sent) := by
  obtain ⟨⟨reqs, as, hreqs, hserve, hwire⟩, -⟩ :=
    replies_of_requests MemPresence.empty visits _ _ rfl
  refine ⟨_, _, reqs, as, rfl, rfl, hreqs, hserve, hwire fun ev hev n hn => ?_⟩
  rcases List.mem_cons.mp hev with rfl | hev
  · cases hn
  rcases List.mem_cons.mp hev with rfl | hev
  · cases hn
    exact le_rfl
  rcases List.mem_cons.mp hev with rfl | hev
  · cases hn
  rcases List.mem_cons.mp hev with rfl | hev
  · cases hn
  · cases hev

end SimplePresence.Replies
