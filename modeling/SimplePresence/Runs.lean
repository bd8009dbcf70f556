import Mathlib.Tactic.Common

/-!
Pairs within maximal runs.

A string is cut at every symbol that is no digit; what is left in one piece is a run. The
digits of a run are taken two by two from its start, and an odd last one is dropped. The
scan does the same in one pass, with at most one digit in hand.
-/

namespace SimplePresence.Runs

variable {α β : Type*}

/-- The maximal runs of symbols that satisfy `p`. -/
def runs (p : α → Bool) (s : List α) : List (List α) :=
  (s.splitOnP fun a => !p a).filter fun r => !r.isEmpty

/-- The values of consecutive pairs, an odd last symbol dropped. -/
def pairs (f : α → α → β) : List α → List β
  | [] => []
  | [_] => []
  | a :: b :: l => f a b :: pairs f l

def runPairs (p : α → Bool) (f : α → α → β) (s : List α) : List β := (runs p s).flatMap (pairs f)

/-- One pass over a string with the digit in hand. -/
def scan (p : α → Bool) (f : α → α → β) : Option α → List α → List β
  | _, [] => []
  | none, a :: l => if p a then scan p f (some a) l else scan p f none l
  | some x, a :: l => if p a then f x a :: scan p f none l else scan p f none l

/-! ### Pairs -/

section Pairs

variable (f : α → α → β)

lemma length_pairs (l : List α) : (pairs f l).length = l.length / 2 := by
  induction l using pairs.induct with
  | case1 => simp [pairs]
  | case2 a => simp [pairs]
  | case3 a b l ih =>
    rw [pairs, List.length_cons, List.length_cons, List.length_cons, ih]
    omega

/-- Symbols written two for each value are read back. -/
lemma pairs_flatMap {g h : β → α} (hf : ∀ x, f (g x) (h x) = x) (l : List β) :
    pairs f (l.flatMap fun x => [g x, h x]) = l := by
  induction l with
  | nil => rfl
  | cons x l ih =>
    show f (g x) (h x) :: pairs f (l.flatMap fun x => [g x, h x]) = x :: l
    rw [hf, ih]

/-- Values read two symbols each are written back, each symbol in its canonical shape. -/
lemma flatMap_pairs {g h : β → α} {c : α → α} {l : List α} (heven : l.length % 2 = 0)
    (hg : ∀ a ∈ l, ∀ b ∈ l, g (f a b) = c a) (hh : ∀ a ∈ l, ∀ b ∈ l, h (f a b) = c b) :
    ((pairs f l).flatMap fun x => [g x, h x]) = l.map c := by
  induction l using pairs.induct with
  | case1 => rfl
  | case2 a => simp at heven
  | case3 a b l ih =>
    have ha : a ∈ a :: b :: l := List.mem_cons_self
    have hb : b ∈ a :: b :: l := List.mem_cons_of_mem _ List.mem_cons_self
    have hsub : ∀ x ∈ l, x ∈ a :: b :: l := fun x hx =>
      List.mem_cons_of_mem _ (List.mem_cons_of_mem _ hx)
    have hl : l.length % 2 = 0 := by
      simp only [List.length_cons] at heven
      omega
    rw [pairs, List.flatMap_cons, hg a ha b hb, hh a ha b hb, ih hl
      (fun x hx y hy => hg x (hsub x hx) y (hsub y hy))
      (fun x hx y hy => hh x (hsub x hx) y (hsub y hy))]
    rfl

end Pairs

/-! ### Runs -/

section Cut

variable (p : α → Bool) (f : α → α → β)

/-- The empty pieces between two cuts yield nothing. -/
lemma runPairs_eq (s : List α) :
    runPairs p f s = (s.splitOnP fun a => !p a).flatMap (pairs f) := by
  unfold runPairs runs
  induction s.splitOnP fun a => !p a with
  | nil => rfl
  | cons r l ih =>
    cases r with
    | nil => simpa [pairs] using ih
    | cons a r => simpa using ih

/-- A string of digits alone is one run. -/
lemma runPairs_of_forall {s : List α} (h : ∀ a ∈ s, p a = true) :
    runPairs p f s = pairs f s := by
  have hcut : (s.splitOnP fun a => !p a) = [s] :=
    List.splitOnP_eq_singleton fun a ha => by rw [h a ha]; rfl
  rw [runPairs_eq, hcut, List.flatMap_singleton]

/-- A symbol that is no digit parts what is before it from what is behind it. -/
lemma runPairs_append_cons (s t : List α) {a : α} (h : p a = false) :
    runPairs p f (s ++ a :: t) = runPairs p f s ++ runPairs p f t := by
  rw [runPairs_eq, runPairs_eq, runPairs_eq, List.splitOnP_append_cons s t (by rw [h]; rfl),
    List.flatMap_append]

/-- Groups of digits between separators are the runs. -/
lemma runPairs_intercalate {sep : α} (hsep : p sep = false) {gs : List (List α)}
    (h : ∀ g ∈ gs, ∀ a ∈ g, p a = true) :
    runPairs p f ([sep].intercalate gs) = gs.flatMap (pairs f) := by
  induction gs with
  | nil => rfl
  | cons g gs ih =>
    have hg : runPairs p f g = pairs f g := runPairs_of_forall p f (h g List.mem_cons_self)
    have hrest := ih fun g' hg' => h g' (List.mem_cons_of_mem g hg')
    cases gs with
    | nil => rw [List.intercalate_singleton, hg, List.flatMap_singleton]
    | cons g' gs =>
      rw [List.intercalate_cons_cons, List.append_assoc, List.singleton_append,
        runPairs_append_cons p f _ _ hsep, hg, hrest]
      rfl

/-- The digit in hand stands before the first piece of what follows. -/
lemma scan_eq_flatMap (s : List α) :
    (scan p f none s = (s.splitOnP fun a => !p a).flatMap (pairs f)) ∧
      ∀ x, scan p f (some x) s =
        ((s.splitOnP fun a => !p a).modifyHead (List.cons x)).flatMap (pairs f) := by
  induction s with
  | nil =>
    refine ⟨rfl, fun x => rfl⟩
  | cons a s ih =>
    obtain ⟨hnone, hsome⟩ := ih
    obtain ⟨r, l, hcut⟩ := List.exists_cons_of_ne_nil
      (List.splitOnP_ne_nil (fun a => !p a) s)
    refine ⟨?_, fun x => ?_⟩
    · rw [scan, List.splitOnP_cons_eq_if_modifyHead]
      cases ha : p a with
      | true => simpa using hsome a
      | false => simpa [pairs] using hnone
    · rw [scan, List.splitOnP_cons_eq_if_modifyHead, hnone, hcut]
      cases ha : p a with
      | true => simp [pairs]
      | false => simp [pairs]

/-- **The scan** finds the pairs of every run. -/
theorem scan_eq (s : List α) : scan p f none s = runPairs p f s := by
  rw [runPairs_eq]
  exact (scan_eq_flatMap p f s).1

end Cut

end SimplePresence.Runs
