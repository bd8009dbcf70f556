import SimplePresence.Replies

/-!
How much the programs send.

What goes out is a reply to a request that was read, or a ping of the timer; some of it is put
by, until the kernel takes the rest. So nobody gets more out of the service than twice what is
sent to it, however it is taken.
-/

namespace SimplePresence.Traffic

open SimplePresence.Uid SimplePresence.Item SimplePresence.OrderedMap SimplePresence.Query
open SimplePresence.Machine SimplePresence.Memory SimplePresence.EventLoop SimplePresence.Service
open SimplePresence.Store SimplePresence.Ledger SimplePresence.Handlers SimplePresence.Replies
open SimplePresence.Listener (Read getpeername sent)

variable {σ : Type} [Presence σ] {P : Program} {remoteAddress : Sockaddr} {s : σ} {L L' : Loop σ}
  {o : Option Seen} {ev : Event} {es : List Event} {outs : List (Option Seen)}

/-- The number of bytes the kernel takes in a turn. -/
def emittedBy (o : Option Seen) : ℕ := (wired o).elim 0 List.length

/-- The number of bytes the kernel takes in a run. -/
def emitted (outs : List (Option Seen)) : ℕ := ((outs.filterMap wired).map List.length).sum

lemma emitted_eq (outs : List (Option Seen)) : emitted outs = (outs.map emittedBy).sum := by
  induction outs with
  | nil => rfl
  | cons o outs ih =>
    unfold emitted emittedBy at ih ⊢
    rw [List.map_cons, List.sum_cons, List.filterMap_cons, ← ih]
    cases wired o with
    | none => exact (Nat.zero_add _).symm
    | some b => rfl

/-- The number of bytes the kernel has not taken of what it accepted. -/
def inFlight {τ : Type} (L : Loop τ) : ℕ := L.flight.total

/-- Bytes that are sent come out of what there was to send: the kernel takes some, and the rest is
in flight. -/
lemma Sends.charge {τ : Type} {L : Loop τ} {memory : Prop} {b : Option (List UInt8)} {v : Verdict}
    {r : Option Seen × Loop τ} (h : Sends memory b v L r) :
    emittedBy r.1 + inFlight r.2 ≤ inFlight L + b.elim 0 List.length := by
  unfold emittedBy inFlight
  rcases h with ⟨-, hwired, hflight⟩ | ⟨bytes, n, p, rfl, -, ho, hflight⟩
  · rw [hwired, hflight]
    exact (Nat.zero_add _).le.trans (Nat.le_add_right _ _)
  · have hput := Table.total_put_le L.flight p (bytes.length - n)
    have hwired : wired r.1 = some (bytes.take n) := by
      rw [ho]
      rfl
    rw [hwired, hflight, Option.elim_some, Option.elim_some, List.length_take]
    omega

/-- **A turn pays for what it sends.** -/
lemma step_charge (P : Program) (L : Loop σ) (ev : Event) (o : Option Seen) (L' : Loop σ)
    (h : step P L ev = .ok (o, L')) :
    emittedBy o + inFlight L' ≤ inFlight L + allowance P ev := by
  have hturn := (step_turn P (Sockaddr.ofBytes []) L ev).of_eq_ok h
  rcases hturn with ⟨-, -, hwired, hflight⟩ | ⟨-, -, req, n, hreq, hrest, -, hflight⟩ |
    ⟨-, b, v, hreact, -, hs⟩
  · unfold emittedBy inFlight
    rw [hwired, hflight]
    exact (Nat.zero_add _).le.trans (Nat.le_add_right _ _)
  · have htotal := Table.total_remove hreq
    have hemitted : emittedBy o ≤ n := by
      unfold emittedBy
      rcases hrest with hnone | ⟨-, b, hb, hlen⟩
      · rw [hnone]
        exact Nat.zero_le n
      · rw [hb]
        exact hlen.le
    unfold inFlight
    rw [hflight]
    omega
  · have hcharge : emittedBy o + inFlight L' ≤ inFlight L + b.elim 0 List.length := Sends.charge hs
    have hb : b.elim 0 List.length ≤ allowance P ev := by
      rcases b with _ | bytes
      · exact Nat.zero_le _
      · exact length_react_le hreact
    omega

/-- What the service may send for a read is at most twice what was read. -/
lemma allowance_le_request (ev : Event) :
    allowance .service ev ≤ 2 * (request ev).elim 0 fun q => q.buf.length := by
  have hreply : ∀ buf : List UInt8, (if IsRequest buf then 32 else 0) ≤ 2 * buf.length := by
    intro buf
    split_ifs with hreq
    · rcases hreq with h | h <;> omega
    · exact Nat.zero_le _
  cases ev with
  | readTCP client mbuf r peer m v => exact hreply r.bytes
  | readUDP mbuf n base addr now m v => exact hreply (base.take n.toNat)
  | connect => exact Nat.zero_le _
  | timer => exact Nat.zero_le _
  | sent => exact Nat.zero_le _
  | closed => exact Nat.zero_le _
  | stop => exact Nat.zero_le _

lemma sum_allowance_le (es : List Event) : (es.map (allowance .service)).sum ≤
    2 * ((es.filterMap request).map fun q => q.buf.length).sum := by
  induction es with
  | nil => exact le_rfl
  | cons ev es ih =>
    have hone := allowance_le_request ev
    rw [List.map_cons, List.sum_cons]
    rcases hq : request ev with _ | q
    · rw [hq] at hone
      rw [List.filterMap_cons_none hq]
      exact (Nat.add_le_add hone ih).trans (Nat.zero_add _).le
    · rw [hq, Option.elim_some] at hone
      rw [List.filterMap_cons_some hq, List.map_cons, List.sum_cons]
      omega

/-- A turn that nobody is called back in is none. -/
lemma step_unheard (h : ¬ Heard L ev) : step P L ev = .ok (none, L) := by
  cases ev with
  | readTCP client mbuf r peer m v =>
    have hclosed : ¬ L.handles.get client = some .reading := h
    rw [step, if_neg hclosed]
  | readUDP mbuf n base addr now m v => rw [step, if_pos (Bool.eq_true_of_not_eq_false h)]
  | timer m v =>
    cases P with
    | service => rfl
    | client uid => rw [step, if_pos (Bool.eq_true_of_not_eq_false h)]
  | connect => exact absurd trivial h
  | sent => exact absurd trivial h
  | closed => exact absurd trivial h
  | stop => exact absurd trivial h

/-- A run is one over what was called back for. -/
lemma run_heard (h : run (step P) L es = .ok (outs, L')) :
    ∃ outs', run (step P) L (heardRun P L es) = .ok (outs', L') ∧
      outs'.filterMap wired = outs.filterMap wired := by
  induction es generalizing L outs with
  | nil => exact ⟨outs, h, rfl⟩
  | cons ev es ih =>
    obtain ⟨o, L₁, os, hs, hr, rfl⟩ := run_cons_eq_ok.mp h
    obtain ⟨os', hrun, hwire⟩ := ih hr
    rw [heardRun_cons hs]
    split_ifs with hheard
    · refine ⟨o :: os', run_cons_eq_ok.mpr ⟨o, L₁, os', hs, hrun, rfl⟩, ?_⟩
      rw [List.filterMap_cons, List.filterMap_cons, hwire]
    · rw [step_unheard hheard] at hs
      cases hs
      exact ⟨os', hrun, hwire⟩

/-- **Nothing is amplified.** Whatever becomes of allocations, and however the kernel takes what is
sent, the bytes a program has sent and those it has in flight are no more than 32 for each request
it was called back with and, for a client, 16 for each time its timer fired. So the service has
never sent, nor ever will without another request, more than twice the bytes that were sent to
it. -/
theorem no_amplification (P : Program) (s : σ) (es : List Event) (outs : List (Option Seen))
    (L : Loop σ) (h : run (step P) (start s) es = .ok (outs, L)) :
    emitted outs + inFlight L ≤ ((heardRun P (start s) es).map (allowance P)).sum ∧
      (P = .service → emitted outs + inFlight L ≤
        2 * (((heardRun P (start s) es).filterMap request).map fun q => q.buf.length).sum) := by
  obtain ⟨outs', hrun, hwire⟩ := run_heard h
  have hcost := run_cost_le (fun L ev o L' => step_charge P L ev o L') hrun
  have hstart : inFlight (start s) = 0 := rfl
  have hsame : emitted outs = emitted outs' := by
    unfold emitted
    rw [hwire]
  rw [hstart, Nat.zero_add, ← emitted_eq, ← hsame] at hcost
  refine ⟨hcost, ?_⟩
  rintro rfl
  exact hcost.trans (sum_allowance_le _)

/-- A ping of which ten bytes of the reply are taken, and the rest is in flight. -/
theorem no_amplification_slowReply : ∃ outs L,
    run (step .service) (start MemPresence.empty) (slowReply.take 2) = .ok (outs, L) ∧
      emitted outs = 10 ∧ inFlight L = 22 ∧
      emitted outs + inFlight L ≤
        2 * (((heardRun .service (start MemPresence.empty) (slowReply.take 2)).filterMap
          request).map fun q => q.buf.length).sum :=
  ⟨_, _, rfl, rfl, rfl,
    (no_amplification .service MemPresence.empty (slowReply.take 2) _ _ rfl).2 rfl⟩

end SimplePresence.Traffic
