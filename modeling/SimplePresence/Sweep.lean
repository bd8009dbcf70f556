import Mathlib.Data.List.DropRight
import Mathlib.Algebra.Ring.Parity
import Mathlib.Tactic.Common

/-!
Erasing from a list while walking it, with one step too many.

A walk that erases the entry it stands at, moves to the entry that followed and then takes
the step of its loop header passes over that entry unseen. What such a walk leaves, when it
steps past the end, and when it leaves what a filter leaves, are settled here.
-/

namespace SimplePresence.Sweep

variable {α : Type*} (p : α → Bool)

/-- What the walk leaves of a list; nothing when it steps past the end. -/
def sweep : List α → Option (List α)
  | [] => some []
  | [a] => if p a then none else some [a]
  | a :: b :: l => if p a then (sweep l).map (b :: ·) else (sweep (b :: l)).map (a :: ·)

lemma sweep_cons_neg {a : α} (ha : p a = false) (l : List α) :
    sweep p (a :: l) = (sweep p l).map (a :: ·) := by
  cases l <;> simp [sweep, ha]

lemma sweep_congr {q : α → Bool} {l : List α} (h : ∀ a ∈ l, p a = q a) :
    sweep p l = sweep q l := by
  induction l using sweep.induct p with
  | case1 => rfl
  | case2 a ha => simp [sweep, ← h a]
  | case3 a ha => simp [sweep, ← h a]
  | case4 a b l ha ih =>
    rw [sweep, sweep, ← h a List.mem_cons_self, if_pos ha, if_pos ha,
      ih fun c hc => h c (List.mem_cons_of_mem a (List.mem_cons_of_mem b hc))]
  | case5 a b l ha ih =>
    rw [sweep, sweep, ← h a List.mem_cons_self, if_neg ha, if_neg ha,
      ih fun c hc => h c (List.mem_cons_of_mem a hc)]

/-- The walk looks at what `p` looks at and at nothing else. -/
lemma sweep_map {β : Type*} (q : β → Bool) (f : α → β) (l : List α) :
    sweep q (l.map f) = (sweep (q ∘ f) l).map (List.map f) := by
  induction l using sweep.induct (q ∘ f) with
  | case1 => rfl
  | case2 a ha =>
    have ha' : q (f a) = true := ha
    simp [sweep, ha']
  | case3 a ha =>
    have ha' : q (f a) = false := by simpa using ha
    simp [sweep, ha']
  | case4 a b l ha ih =>
    have ha' : q (f a) = true := ha
    simp only [List.map_cons, sweep, Function.comp_apply, if_pos ha', ih, Option.map_map]
    rfl
  | case5 a b l ha ih =>
    have ha' : q (f a) = false := by simpa using ha
    rw [List.map_cons, sweep_cons_neg q ha', ih, sweep_cons_neg (q ∘ f) ha', Option.map_map,
      Option.map_map]
    rfl

/-- The number of entries in a row that satisfy `p` at the end of a list. -/
def trail (l : List α) : ℕ := (l.rtakeWhile p).length

@[simp] lemma trail_nil : trail p ([] : List α) = 0 := rfl

lemma trail_of_all {l : List α} (h : ∀ a ∈ l, p a) : trail p l = l.length := by
  rw [trail, List.rtakeWhile_eq_self_iff.mpr h]

lemma trail_cons (a : α) (l : List α) :
    trail p (a :: l) = if p a ∧ ∀ b ∈ l, p b then l.length + 1 else trail p l := by
  split_ifs with h
  · rw [trail_of_all p (by simpa using h), List.length_cons]
  · induction l using List.reverseRecOn with
    | nil => simp [trail, List.rtakeWhile, List.takeWhile] at h ⊢; simp [h]
    | append_singleton l b ih =>
      by_cases hb : p b
      · have hl : ¬ (p a = true ∧ ∀ c ∈ l, p c = true) := fun hc => h ⟨hc.1, fun c hm => by
          rcases List.mem_append.mp hm with hm' | hm'
          · exact hc.2 c hm'
          · rw [List.mem_singleton.mp hm']; exact hb⟩
        have := ih hl
        unfold trail at this ⊢
        rw [← List.cons_append, List.rtakeWhile_concat_pos _ _ _ hb,
          List.rtakeWhile_concat_pos _ _ _ hb, List.length_append, List.length_append, this]
      · unfold trail
        rw [← List.cons_append, List.rtakeWhile_concat_neg _ _ _ hb,
          List.rtakeWhile_concat_neg _ _ _ hb]

lemma trail_cons_neg {a : α} (ha : p a = false) (l : List α) : trail p (a :: l) = trail p l := by
  rw [trail_cons, if_neg (by simp [ha])]

lemma trail_concat_neg {a : α} (ha : p a = false) (l : List α) : trail p (l ++ [a]) = 0 := by
  have hneg : ¬ p a = true := by simp [ha]
  rw [trail, List.rtakeWhile_concat_neg _ _ _ hneg]
  rfl

lemma trail_concat_pos {a : α} (ha : p a) (l : List α) : trail p (l ++ [a]) = trail p l + 1 := by
  rw [trail, List.rtakeWhile_concat_pos _ _ _ ha, List.length_append]
  rfl

/-- An entry that is erased and the one passed over do not change the parity of the end. -/
lemma even_trail_cons_cons {a b : α} (ha : p a) (l : List α) :
    Even (trail p (a :: b :: l)) ↔ Even (trail p l) := by
  by_cases hall : p b ∧ ∀ c ∈ l, p c
  · rw [trail_cons, if_pos (by simpa [ha] using hall), trail_of_all p hall.2, List.length_cons]
    simp [Nat.even_add_one]
  · rw [trail_cons, if_neg (by simpa [ha] using hall), trail_cons, if_neg hall]

/-- **The walk stays inside the list exactly when the block at its end is even.** -/
theorem sweep_isSome_iff (l : List α) : (sweep p l).isSome ↔ Even (trail p l) := by
  induction l using sweep.induct p with
  | case1 => simp [sweep]
  | case2 a ha => simp [sweep, ha, trail_cons]
  | case3 a ha =>
    have ha' : p a = false := by simpa using ha
    simp [sweep, ha', trail_cons_neg p ha']
  | case4 a b l ha ih => rw [sweep, if_pos ha, Option.isSome_map, ih, even_trail_cons_cons p ha]
  | case5 a b l ha ih =>
    have ha' : p a = false := by simpa using ha
    rw [sweep_cons_neg p ha', Option.isSome_map, ih, trail_cons_neg p ha']

lemma sweep_sublist {l r : List α} (h : sweep p l = some r) : r.Sublist l := by
  induction l using sweep.induct p generalizing r with
  | case1 => simp_all [sweep]
  | case2 a ha => simp [sweep, ha] at h
  | case3 a ha =>
    simp only [sweep, ha, Bool.false_eq_true, if_false, Option.some_inj] at h
    exact h ▸ List.Sublist.refl _
  | case4 a b l ha ih =>
    rw [sweep, if_pos ha, Option.map_eq_some_iff] at h
    obtain ⟨r', hr, rfl⟩ := h
    exact ((ih hr).cons_cons b).cons a
  | case5 a b l ha ih =>
    rw [sweep, if_neg ha, Option.map_eq_some_iff] at h
    obtain ⟨r', hr, rfl⟩ := h
    exact (ih hr).cons_cons a

/-- **The walk erases half of what it is after, or more**: it passes over one entry for each that
it erases. -/
theorem two_mul_countP_sweep_le {l r : List α} (h : sweep p l = some r) :
    2 * r.countP p ≤ l.countP p := by
  induction l using sweep.induct p generalizing r with
  | case1 =>
    cases h
    exact le_rfl
  | case2 a ha =>
    rw [sweep, if_pos ha] at h
    cases h
  | case3 a ha =>
    rw [sweep, if_neg ha] at h
    cases h
    rw [List.countP_cons_of_neg ha]
    exact le_rfl
  | case4 a b l ha ih =>
    rw [sweep, if_pos ha, Option.map_eq_some_iff] at h
    obtain ⟨r', hr, rfl⟩ := h
    have ih' := ih hr
    rw [List.countP_cons_of_pos ha, List.countP_cons, List.countP_cons]
    split_ifs <;> omega
  | case5 a b l ha ih =>
    rw [sweep, if_neg ha, Option.map_eq_some_iff] at h
    obtain ⟨r', hr, rfl⟩ := h
    rw [List.countP_cons_of_neg ha, List.countP_cons_of_neg ha]
    exact ih hr

/-- The walk erases nothing that `p` does not hold of. -/
lemma mem_sweep {l r : List α} (h : sweep p l = some r) {a : α} (ha : a ∈ l) (hp : p a = false) :
    a ∈ r := by
  induction l using sweep.induct p generalizing r with
  | case1 => cases ha
  | case2 b hb => simp [sweep, hb] at h
  | case3 b hb =>
    simp only [sweep, hb, Bool.false_eq_true, if_false, Option.some_inj] at h
    exact h ▸ ha
  | case4 b c l hb ih =>
    rw [sweep, if_pos hb, Option.map_eq_some_iff] at h
    obtain ⟨r', hr, rfl⟩ := h
    rcases List.mem_cons.mp ha with rfl | ha'
    · rw [hp] at hb; cases hb
    · rcases List.mem_cons.mp ha' with rfl | ha''
      · exact List.mem_cons_self
      · exact List.mem_cons_of_mem _ (ih hr ha'')
  | case5 b c l hb ih =>
    rw [sweep, if_neg hb, Option.map_eq_some_iff] at h
    obtain ⟨r', hr, rfl⟩ := h
    rcases List.mem_cons.mp ha with rfl | ha'
    · exact List.mem_cons_self
    · exact List.mem_cons_of_mem _ (ih hr ha')

/-- Every entry of which `p` holds has one right after it of which it does not. -/
def Spaced : List α → Prop
  | [] => True
  | [a] => p a = false
  | a :: b :: l => (p a → p b = false) ∧ Spaced (b :: l)

lemma spaced_cons_neg {a : α} (ha : p a = false) (l : List α) :
    Spaced p (a :: l) ↔ Spaced p l := by
  cases l <;> simp [Spaced, ha]

lemma spaced_iff (l : List α) :
    Spaced p l ↔ ∀ i a, l[i]? = some a → p a → ∃ b, l[i + 1]? = some b ∧ p b = false := by
  induction l with
  | nil => simp [Spaced]
  | cons a l ih =>
    have hsplit : (∀ i c, (a :: l)[i]? = some c → p c →
        ∃ b, (a :: l)[i + 1]? = some b ∧ p b = false) ↔
        (p a → ∃ b, l[0]? = some b ∧ p b = false) ∧
          ∀ i c, l[i]? = some c → p c → ∃ b, l[i + 1]? = some b ∧ p b = false := by
      constructor
      · exact fun h => ⟨h 0 a rfl, fun i c hc hp => h (i + 1) c hc hp⟩
      · rintro ⟨h0, h1⟩ (_ | i) c hc hp
        · cases Option.some.inj hc
          exact h0 hp
        · exact h1 i c hc hp
    rw [hsplit, ← ih]
    cases l with
    | nil => simp [Spaced]
    | cons b l => simp [Spaced]

/-- A filter erases entries, so it puts no more than the walk does behind a kept entry. -/
lemma filter_ne_cons {b : α} {l r : List α} (hb : p b) : l.filter (fun a => !p a) ≠ b :: r := by
  intro h
  have : b ∈ l.filter fun a => !p a := h ▸ List.mem_cons_self
  simp [hb] at this

/-- **The walk is a filter exactly when every entry to erase is followed by one to keep.** -/
theorem sweep_eq_filter_iff (l : List α) :
    sweep p l = some (l.filter fun a => !p a) ↔ Spaced p l := by
  induction l using sweep.induct p with
  | case1 => simp [sweep, Spaced]
  | case2 a ha => simp [sweep, Spaced, ha]
  | case3 a ha => simp [sweep, Spaced, ha]
  | case4 a b l ha ih =>
    rw [sweep, if_pos ha, Spaced, List.filter_cons_of_neg (by simp [ha])]
    cases hb : p b
    · rw [List.filter_cons_of_pos (by simp [hb]), Option.map_eq_some_iff, spaced_cons_neg p hb,
        ← ih]
      simp [ha]
    · rw [List.filter_cons_of_neg (by simp [hb]), Option.map_eq_some_iff]
      constructor
      · rintro ⟨r, -, hr⟩
        exact absurd hr.symm (filter_ne_cons p hb)
      · exact fun h => absurd (h.1 ha) (by simp)
  | case5 a b l ha ih =>
    have ha' : p a = false := by simpa using ha
    rw [sweep_cons_neg p ha', spaced_cons_neg p ha', ← ih, List.filter_cons_of_pos (by simp [ha']),
      Option.map_eq_some_iff]
    simp

end SimplePresence.Sweep
