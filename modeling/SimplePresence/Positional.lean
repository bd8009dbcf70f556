import Mathlib.Tactic.Common

/-!
Encodings position by position.

Every position of a string has an encoder of its own. When at each position the code of a
smaller symbol comes first whatever follows it, the encoding keeps the lexicographic order.
-/

namespace SimplePresence.Positional

variable {α β : Type*}

/-- The codes of the symbols, each from the encoder of its position. -/
def encode (es : List (α → List β)) (l : List α) : List β :=
  (List.zipWith (fun e x => e x) es l).flatten

@[simp] lemma encode_cons (e : α → List β) (es : List (α → List β)) (x : α) (l : List α) :
    encode (e :: es) (x :: l) = e x ++ encode es l := rfl

section Order

variable [LT α] [LT β]

/-- The code of a smaller symbol comes first, whatever follows. -/
def Ordered (e : α → List β) : Prop := ∀ x y, x < y → ∀ s t, e x ++ s < e y ++ t

lemma Ordered.cons {e : α → List β} (h : Ordered e) (b : β) : Ordered fun x => b :: e x :=
  fun x y hxy s t => List.Lex.cons (h x y hxy s t)

/-- **The order of strings** is kept by the encoding. -/
theorem encode_lt {es : List (α → List β)} (hes : ∀ e ∈ es, Ordered e) {l m : List α}
    (hl : l.length = es.length) (hm : m.length = es.length) (h : l < m) :
    encode es l < encode es m := by
  induction es generalizing l m with
  | nil =>
    obtain rfl := List.length_eq_zero_iff.mp hm
    exact absurd h (List.not_lt_nil l)
  | cons e es ih =>
    match l, m, hl, hm with
    | x :: l, y :: m, hl, hm =>
      rw [encode_cons, encode_cons]
      rcases List.cons_lt_cons_iff.mp h with hxy | ⟨rfl, hlm⟩
      · exact hes e List.mem_cons_self x y hxy _ _
      · apply List.append_left_lt
        exact ih (fun e' he' => hes e' (List.mem_cons_of_mem e he')) (Nat.succ_inj.mp hl)
          (Nat.succ_inj.mp hm) hlm

end Order

end SimplePresence.Positional
