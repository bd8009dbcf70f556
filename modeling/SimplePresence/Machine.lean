import Mathlib.Data.List.Basic
import Mathlib.Data.List.Induction
import Mathlib.Order.Basic
import Mathlib.Algebra.GroupWithZero.Nat
import Mathlib.Tactic.Common

/-!
Runs of machines that answer every input and may fail.

A machine is its step function: a state and an input give an output and the next state, or
a failure that ends the run. Inputs may carry readings of a clock; a simulation between two
machines is then indexed by the latest reading, and carried along runs whose readings never
decrease.
-/

namespace SimplePresence.Machine

universe u

variable {σ τ ι ο ε δ : Type*}

/-- The outputs of a run and the state it ends in. -/
def run (step : σ → ι → Except ε (ο × σ)) : σ → List ι → Except ε (List ο × σ)
  | s, [] => .ok ([], s)
  | s, i :: is =>
    match step s i with
    | .error e => .error e
    | .ok (o, s') =>
      match run step s' is with
      | .error e => .error e
      | .ok (os, s'') => .ok (o :: os, s'')

section Run

variable {step : σ → ι → Except ε (ο × σ)} {s s' : σ} {i : ι} {is js : List ι} {os : List ο}

@[simp] lemma run_nil : run step s [] = .ok ([], s) := rfl

lemma run_cons_eq_ok : run step s (i :: is) = .ok (os, s') ↔
    ∃ o s₁ os₁, step s i = .ok (o, s₁) ∧ run step s₁ is = .ok (os₁, s') ∧ os = o :: os₁ := by
  rw [run]
  cases hstep : step s i with
  | error e => simp
  | ok r =>
    obtain ⟨o, s₁⟩ := r
    dsimp only
    cases hrun : run step s₁ is with
    | error e =>
      constructor
      · intro h
        cases h
      · rintro ⟨o', t, os', hs, hr, -⟩
        cases hs
        rw [hrun] at hr
        cases hr
    | ok q =>
      constructor
      · intro h
        cases h
        exact ⟨o, s₁, q.1, rfl, hrun, rfl⟩
      · rintro ⟨o', t, os', hs, hr, rfl⟩
        cases hs
        rw [hrun] at hr
        cases hr
        rfl

lemma run_append_eq_ok : run step s (is ++ js) = .ok (os, s') ↔
    ∃ os₁ s₁ os₂, run step s is = .ok (os₁, s₁) ∧ run step s₁ js = .ok (os₂, s') ∧
      os = os₁ ++ os₂ := by
  induction is generalizing s os with
  | nil =>
    constructor
    · exact fun h => ⟨[], s, os, rfl, h, rfl⟩
    · rintro ⟨os₁, s₁, os₂, h₁, h₂, rfl⟩
      cases h₁
      exact h₂
  | cons i is ih =>
    simp only [List.cons_append, run_cons_eq_ok, ih]
    constructor
    · rintro ⟨o, s₁, _, hs, ⟨os₁, s₂, os₂, h₁, h₂, rfl⟩, rfl⟩
      exact ⟨o :: os₁, s₂, os₂, ⟨o, s₁, os₁, hs, h₁, rfl⟩, h₂, rfl⟩
    · rintro ⟨_, s₂, os₂, ⟨o, s₁, os₁, hs, h₁, rfl⟩, h₂, rfl⟩
      exact ⟨o, s₁, os₁ ++ os₂, hs, ⟨os₁, s₂, os₂, h₁, h₂, rfl⟩, rfl⟩

/-- A run that succeeds succeeds up to each of its inputs, at that input, and after it. -/
lemma run_split (h : run step s (is ++ i :: js) = .ok (os, s')) :
    ∃ os₁ s₁ o s₂ os₂, run step s is = .ok (os₁, s₁) ∧ step s₁ i = .ok (o, s₂) ∧
      run step s₂ js = .ok (os₂, s') ∧ os = os₁ ++ o :: os₂ := by
  obtain ⟨os₁, s₁, _, h₁, h₂, rfl⟩ := run_append_eq_ok.mp h
  obtain ⟨o, s₂, os₂, hs, h₃, rfl⟩ := run_cons_eq_ok.mp h₂
  exact ⟨os₁, s₁, o, s₂, os₂, h₁, hs, h₃, rfl⟩

/-- **What every step keeps, every run keeps**, of the state it is in and of the inputs and
outputs that led there. -/
theorem run_induction {I : List ι → List ο → σ → Prop} (h0 : I [] [] s)
    (hstep : ∀ is os t i o t', I is os t → step t i = .ok (o, t') → I (is ++ [i]) (os ++ [o]) t')
    (h : run step s is = .ok (os, s')) : I is os s' := by
  induction is using List.reverseRecOn generalizing os s' with
  | nil =>
    cases h
    exact h0
  | append_singleton is i ih =>
    obtain ⟨os₁, t, o, t', os₂, h₁, hs, h₂, rfl⟩ := run_split h
    cases h₂
    exact hstep is os₁ t i o _ (ih h₁) hs

/-- A run answers each of its inputs. -/
lemma length_run (h : run step s is = .ok (os, s')) : os.length = is.length :=
  run_induction (I := fun is os _ => os.length = is.length) rfl
    (fun is os _ i o _ ih _ => by rw [List.length_append, List.length_append, ih]; rfl) h

/-- A run succeeds when each step from each state it reaches does. -/
theorem run_isOk_iff : (∃ r, run step s is = .ok r) ↔
    ∀ pre i post, is = pre ++ i :: post → ∀ os t, run step s pre = .ok (os, t) →
      ∃ r, step t i = .ok r := by
  constructor
  · rintro ⟨⟨os, s'⟩, h⟩ pre i post rfl os₁ t hpre
    obtain ⟨os₂, s₁, o, s₂, os₃, h₁, hs, -, -⟩ := run_split h
    rw [hpre] at h₁
    cases h₁
    exact ⟨_, hs⟩
  · intro h
    induction is using List.reverseRecOn with
    | nil => exact ⟨_, rfl⟩
    | append_singleton is i ih =>
      obtain ⟨⟨os, t⟩, hr⟩ := ih fun pre j post hp => h pre j (post ++ [i]) (by simp [hp])
      obtain ⟨⟨o, u⟩, hs⟩ := h is i [] rfl os t hr
      exact ⟨_, run_append_eq_ok.mpr ⟨os, t, [o], hr, run_cons_eq_ok.mpr ⟨o, u, [], hs, rfl, rfl⟩,
        rfl⟩⟩

/-- A run fails as one of its steps does. -/
lemma run_eq_error {e : ε} (h : run step s is = .error e) : ∃ t, ∃ i ∈ is, step t i = .error e := by
  induction is generalizing s with
  | nil => cases h
  | cons i is ih =>
    rw [run] at h
    cases hs : step s i with
    | error e' =>
      rw [hs] at h
      cases h
      exact ⟨s, i, List.mem_cons_self, hs⟩
    | ok r =>
      rw [hs] at h
      dsimp only at h
      cases hr : run step r.2 is with
      | error e' =>
        rw [hr] at h
        cases h
        obtain ⟨t, j, hj, ht⟩ := ih hr
        exact ⟨t, j, List.mem_cons_of_mem _ hj, ht⟩
      | ok q =>
        rw [hr] at h
        cases h

end Run

/-- **A machine that renames another makes its runs, renamed.** -/
theorem run_map {κ π : Type*} {step : σ → ι → Except ε (ο × σ)} {step' : τ → κ → Except ε (π × τ)}
    (f : κ → ι) (g : ο → π) (h : σ → τ) {is : List κ}
    (hstep : ∀ i ∈ is, ∀ s, step' (h s) i = (step s (f i)).map fun r => (g r.1, h r.2)) (s : σ) :
    run step' (h s) is = (run step s (is.map f)).map fun r => (r.1.map g, h r.2) := by
  induction is generalizing s with
  | nil => rfl
  | cons i is ih =>
    rw [List.map_cons, run, run, hstep i List.mem_cons_self s]
    cases step s (f i) with
    | error e => rfl
    | ok r =>
      have ih' := ih (fun j hj => hstep j (List.mem_cons_of_mem _ hj)) r.2
      simp only [Except.map] at ih' ⊢
      rw [ih']
      cases run step r.2 (is.map f) <;> rfl

/-- Machines that agree on some inputs make the same run of them. -/
lemma run_congr {step step' : σ → ι → Except ε (ο × σ)} {is : List ι}
    (h : ∀ i ∈ is, ∀ s, step s i = step' s i) {s : σ} : run step s is = run step' s is := by
  induction is generalizing s with
  | nil => rfl
  | cons i is ih =>
    rw [run, run, h i List.mem_cons_self s]
    cases step' s i with
    | error e => rfl
    | ok r =>
      dsimp only
      rw [ih fun j hj => h j (List.mem_cons_of_mem _ hj)]

/-- Inputs that change nothing and whose outputs are not kept can be left out of a run. -/
theorem run_filter {π : Type*} {step : σ → ι → Except ε (ο × σ)} (p : ι → Bool) (g : ο → Option π)
    (hskip : ∀ i, p i = false → ∀ s, ∃ o, step s i = .ok (o, s) ∧ g o = none) (s : σ)
    (is : List ι) :
    (run step s (is.filter p)).map (fun r => (r.1.filterMap g, r.2)) =
      (run step s is).map fun r => (r.1.filterMap g, r.2) := by
  induction is generalizing s with
  | nil => rfl
  | cons i is ih =>
    cases hp : p i
    · obtain ⟨o, ho, hg⟩ := hskip i hp s
      rw [List.filter_cons_of_neg (by simp [hp]), ih, run, ho]
      dsimp only
      cases run step s is with
      | error e => rfl
      | ok r => simp [Except.map, hg]
    · rw [List.filter_cons_of_pos hp, run, run]
      cases step s i with
      | error e => rfl
      | ok r =>
        have ih' := ih r.2
        dsimp only
        cases hf : run step r.2 (is.filter p) <;> cases hr : run step r.2 is <;>
          simp_all [Except.map, List.filterMap_cons]

/-! ### Watched runs -/

/-- A machine whose every answer is looked at, which may fail in its own way. -/
def watch {κ : Type*} (step : σ → ι → Except ε (ο × σ)) (look : ι → ο → Except δ κ) (s : σ)
    (i : ι) : Except (ε ⊕ δ) ((ο × κ) × σ) :=
  match step s i with
  | .error e => .error (.inl e)
  | .ok (o, s') =>
    match look i o with
    | .error d => .error (.inr d)
    | .ok l => .ok ((o, l), s')

section Watch

variable {κ : Type*} {step : σ → ι → Except ε (ο × σ)} {look : ι → ο → Except δ κ} {s s' : σ}

lemma watch_eq_ok {i : ι} {x : ο × κ} :
    watch step look s i = .ok (x, s') ↔ step s i = .ok (x.1, s') ∧ look i x.1 = .ok x.2 := by
  unfold watch
  cases hs : step s i with
  | error e => simp
  | ok r =>
    obtain ⟨o, t⟩ := r
    dsimp only
    cases hl : look i o with
    | error d =>
      constructor
      · intro h
        cases h
      · rintro ⟨h, hx⟩
        cases h
        cases hl.symm.trans hx
    | ok l =>
      constructor
      · intro h
        cases h
        exact ⟨rfl, hl⟩
      · rintro ⟨h, hx⟩
        cases h
        obtain rfl := Except.ok.inj (hl.symm.trans hx)
        rfl

/-- A watched run is the run, seen. -/
theorem run_watch_eq_ok {is : List ι} {xs : List (ο × κ)} :
    run (watch step look) s is = .ok (xs, s') ↔
      run step s is = .ok (xs.map Prod.fst, s') ∧
        List.Forall₂ (fun i x => look i x.1 = .ok x.2) is xs := by
  induction is generalizing s xs with
  | nil =>
    constructor
    · intro h
      cases h
      exact ⟨rfl, .nil⟩
    · rintro ⟨h, hall⟩
      cases hall
      cases h
      rfl
  | cons i is ih =>
    simp only [run_cons_eq_ok]
    constructor
    · rintro ⟨x, t, xs, hs, hr, rfl⟩
      obtain ⟨hstep, hlook⟩ := watch_eq_ok.mp hs
      obtain ⟨hrun, hall⟩ := ih.mp hr
      exact ⟨⟨x.1, t, _, hstep, hrun, rfl⟩, .cons hlook hall⟩
    · rintro ⟨⟨o, t, os, hstep, hrun, hos⟩, hall⟩
      cases hall with
      | cons hlook hall =>
        obtain ⟨rfl, rfl⟩ := List.cons.inj hos
        exact ⟨_, t, _, watch_eq_ok.mpr ⟨hstep, hlook⟩, ih.mpr ⟨hrun, hall⟩, rfl⟩

/-- A run can be watched when each of its answers can be looked at. -/
theorem run_watch_isOk_iff {is : List ι} (h : ∃ r, run step s is = .ok r) :
    (∃ r, run (watch step look) s is = .ok r) ↔
      ∀ pre i post, is = pre ++ i :: post → ∀ os t o t', run step s pre = .ok (os, t) →
        step t i = .ok (o, t') → ∃ l, look i o = .ok l := by
  constructor
  · rintro ⟨⟨xs, u⟩, hw⟩ pre i post rfl os t o t' hpre hstep
    obtain ⟨xs₁, t₁, x, t₂, xs₂, h₁, h₂, -, -⟩ := run_split hw
    have hpre' := (run_watch_eq_ok.mp h₁).1
    rw [hpre] at hpre'
    obtain ⟨-, rfl⟩ := Prod.mk.inj (Except.ok.inj hpre')
    obtain ⟨hstep', hlook⟩ := watch_eq_ok.mp h₂
    rw [hstep] at hstep'
    obtain ⟨rfl, -⟩ := Prod.mk.inj (Except.ok.inj hstep')
    exact ⟨_, hlook⟩
  · intro hlook
    refine run_isOk_iff.mpr fun pre i post his xs t hw => ?_
    obtain ⟨r, hrun⟩ := h
    have hpre := (run_watch_eq_ok.mp hw).1
    obtain ⟨⟨o, t'⟩, hstep⟩ := run_isOk_iff.mp ⟨r, hrun⟩ pre i post his _ t hpre
    obtain ⟨l, hl⟩ := hlook pre i post his _ t o t' hpre hstep
    exact ⟨((o, l), t'), watch_eq_ok.mpr ⟨hstep, hl⟩⟩

end Watch

/-! ### Postconditions -/

/-- A computation that ends in `Q`, or fails as `E` allows. -/
def Triple {α : Type*} (E : ε → Prop) (x : Except ε α) (Q : α → Prop) : Prop :=
  match x with
  | .error e => E e
  | .ok a => Q a

section Triple

variable {α β : Type u} {E E' : ε → Prop} {x : Except ε α} {Q Q' : α → Prop} {R : β → Prop}

lemma Triple.ok {a : α} (h : Q a) : Triple E (.ok a) Q := h

lemma Triple.error {e : ε} (h : E e) : Triple E (.error e : Except ε α) Q := h

lemma Triple.trivial (x : Except ε α) : Triple (fun _ => True) x fun _ => True := by
  cases x <;> exact True.intro

lemma Triple.of_forall (h : ∀ a, x = .ok a → Q a) : Triple (fun _ => True) x Q := by
  cases x with
  | error e => exact True.intro
  | ok a => exact h a rfl

lemma Triple.of_eq_ok {a : α} (h : Triple E x Q) (hx : x = .ok a) : Q a := by
  subst hx
  exact h

lemma Triple.of_eq_error {e : ε} (h : Triple E x Q) (hx : x = .error e) : E e := by
  subst hx
  exact h

lemma Triple.exists_ok (h : Triple (fun _ => False) x Q) : ∃ a, x = .ok a ∧ Q a := by
  cases x with
  | error e => exact h.elim
  | ok a => exact ⟨a, rfl, h⟩

lemma Triple.mono (h : Triple E x Q) (hE : ∀ e, E e → E' e) (hQ : ∀ a, Q a → Q' a) :
    Triple E' x Q' := by
  cases x with
  | error e => exact hE e h
  | ok a => exact hQ a h

lemma Triple.bind {f : α → Except ε β} (h : Triple E x Q) (hf : ∀ a, Q a → Triple E (f a) R) :
    Triple E (x >>= f) R := by
  cases x with
  | error e => exact h
  | ok a => exact hf a h

lemma Triple.map {f : α → β} (h : Triple E x Q) (hf : ∀ a, Q a → R (f a)) :
    Triple E (x.map f) R := by
  cases x with
  | error e => exact h
  | ok a => exact hf a h

end Triple

section Charge

variable {step : σ → ι → Except ε (ο × σ)} {s s' : σ} {is : List ι} {os : List ο}
  {cost : ο → ℕ} {credit : ι → ℕ} {potential : σ → ℕ}

/-- **Amortisation.** What the steps of a run cost is paid for by their credits and by what the
state has put by, when each step pays for itself so. -/
theorem run_cost_le (hstep : ∀ s i o s', step s i = .ok (o, s') →
      cost o + potential s' ≤ potential s + credit i)
    (h : run step s is = .ok (os, s')) :
    (os.map cost).sum + potential s' ≤ potential s + (is.map credit).sum := by
  induction is generalizing s os with
  | nil =>
    cases h
    simp
  | cons i is ih =>
    obtain ⟨o, s₁, os₁, hs, hr, rfl⟩ := run_cons_eq_ok.mp h
    have hone := hstep s i o s₁ hs
    have hrest := ih hr
    rw [List.map_cons, List.map_cons, List.sum_cons, List.sum_cons]
    omega

end Charge

/-! ### Clocked runs -/

section Clock

variable {T : Type*} [Preorder T] (readings : ι → List T)

/-- The latest of some readings, `t` when there is none. -/
def latest (t : T) (rs : List T) : T := rs.getLastD t

omit [Preorder T] in
lemma latest_append (t : T) (rs qs : List T) :
    latest t (rs ++ qs) = latest (latest t rs) qs := by
  unfold latest
  rcases List.eq_nil_or_concat qs with rfl | ⟨qs, q, rfl⟩
  · simp
  · simp [← List.append_assoc]

lemma pairwise_latest {t : T} {rs qs : List T} (h : (t :: (rs ++ qs)).Pairwise (· ≤ ·)) :
    (t :: rs).Pairwise (· ≤ ·) ∧ (latest t rs :: qs).Pairwise (· ≤ ·) := by
  rw [← List.cons_append, List.pairwise_append] at h
  obtain ⟨h₁, h₂, h₃⟩ := h
  refine ⟨h₁, List.pairwise_cons.mpr ⟨fun q hq => h₃ _ ?_ q hq, h₂⟩⟩
  rcases List.eq_nil_or_concat rs with rfl | ⟨rs, r, rfl⟩
  · simp [latest]
  · simp [latest]

/-- Readings that never decrease can be preceded by one more. -/
lemma exists_pairwise_cons [Inhabited T] {rs : List T} (h : rs.Pairwise (· ≤ ·)) :
    ∃ t, (t :: rs).Pairwise (· ≤ ·) := by
  cases rs with
  | nil => exact ⟨default, by simp⟩
  | cons r rs =>
    refine ⟨r, List.pairwise_cons.mpr ⟨fun q hq => ?_, h⟩⟩
    rcases List.mem_cons.mp hq with rfl | hq'
    · exact le_rfl
    · exact (List.pairwise_cons.mp h).1 q hq'

/-- `R t` is kept by a step that reads the clock at `t` or later, with the same output. -/
def Simulates (step : σ → ι → Except ε (ο × σ)) (step' : τ → ι → Except δ (ο × τ))
    (R : T → σ → τ → Prop) : Prop :=
  ∀ t s l i o s', R t s l → (t :: readings i).Pairwise (· ≤ ·) → step s i = .ok (o, s') →
    ∃ l', step' l i = .ok (o, l') ∧ R (latest t (readings i)) s' l'

/-- **A simulation of steps is a simulation of runs.** -/
theorem run_simulates {step : σ → ι → Except ε (ο × σ)} {step' : τ → ι → Except δ (ο × τ)}
    {R : T → σ → τ → Prop} (hsim : Simulates readings step step' R) {t : T} {s s' : σ} {l : τ}
    {is : List ι} {os : List ο} (hR : R t s l) (hc : (t :: is.flatMap readings).Pairwise (· ≤ ·))
    (h : run step s is = .ok (os, s')) :
    ∃ l', run step' l is = .ok (os, l') ∧ R (latest t (is.flatMap readings)) s' l' := by
  induction is generalizing t s l os with
  | nil =>
    cases h
    exact ⟨l, rfl, hR⟩
  | cons i is ih =>
    obtain ⟨o, s₁, os₁, hs, hr, rfl⟩ := run_cons_eq_ok.mp h
    rw [List.flatMap_cons] at hc ⊢
    obtain ⟨hc₁, hc₂⟩ := pairwise_latest hc
    obtain ⟨l₁, hl₁, hR₁⟩ := hsim t s l i o s₁ hR hc₁ hs
    obtain ⟨l₂, hl₂, hR₂⟩ := ih hR₁ hc₂ hr
    exact ⟨l₂, run_cons_eq_ok.mpr ⟨o, l₁, os₁, hl₁, hl₂, rfl⟩, by rwa [latest_append]⟩

end Clock

end SimplePresence.Machine
