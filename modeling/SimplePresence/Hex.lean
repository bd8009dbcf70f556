import Mathlib.Tactic.Common

/-!
Bytes as pairs of hexadecimal digits.

A digit is the ASCII code of its character: `'0'` is 48, `'A'` is 65, `'a'` is 97. Digits are
read in either case and written in lower case.
-/

namespace SimplePresence.Hex

/-- The value of a digit, `none` for every other character. -/
def digitValue (c : UInt8) : Option ℕ :=
  if 48 ≤ c.toNat ∧ c.toNat ≤ 57 then some (c.toNat - 48)
  else if 97 ≤ c.toNat ∧ c.toNat ≤ 102 then some (c.toNat - 87)
  else if 65 ≤ c.toNat ∧ c.toNat ≤ 70 then some (c.toNat - 55)
  else none

def isDigit (c : UInt8) : Bool := (digitValue c).isSome

/-- A digit that is no capital letter. -/
def isLowerDigit (c : UInt8) : Bool :=
  (48 ≤ c.toNat && c.toNat ≤ 57) || (97 ≤ c.toNat && c.toNat ≤ 102)

/-- A capital letter becomes the small one. -/
def lower (c : UInt8) : UInt8 :=
  if 65 ≤ c.toNat ∧ c.toNat ≤ 90 then UInt8.ofNat (c.toNat + 32) else c

/-- The digit of a value below sixteen. -/
def digit (d : ℕ) : UInt8 := UInt8.ofNat (if d < 10 then 48 + d else 87 + d)

def pairValue (hi lo : UInt8) : UInt8 :=
  UInt8.ofNat (16 * (digitValue hi).getD 0 + (digitValue lo).getD 0)

/-- The two digits of a byte. -/
def hex (b : UInt8) : List UInt8 := [digit (b.toNat / 16), digit (b.toNat % 16)]

/-! ### Digits -/

lemma digitValue_lt {c : UInt8} {d : ℕ} (h : digitValue c = some d) : d < 16 := by
  unfold digitValue at h
  split_ifs at h <;> injection h <;> omega

lemma digitValue_getD_lt (c : UInt8) : (digitValue c).getD 0 < 16 := by
  cases h : digitValue c with
  | none => simp
  | some d => exact digitValue_lt h

lemma exists_digitValue {c : UInt8} (h : isDigit c = true) : ∃ d, digitValue c = some d :=
  Option.isSome_iff_exists.mp h

lemma toNat_digit {d : ℕ} (h : d < 16) :
    (digit d).toNat = if d < 10 then 48 + d else 87 + d := by
  unfold digit
  rw [UInt8.toNat_ofNat_of_lt']
  show (if d < 10 then 48 + d else 87 + d) < 256
  split_ifs <;> omega

lemma digitValue_digit {d : ℕ} (h : d < 16) : digitValue (digit d) = some d := by
  unfold digitValue
  rw [toNat_digit h]
  by_cases hd : d < 10
  · have h₁ : 48 ≤ 48 + d ∧ 48 + d ≤ 57 := by omega
    rw [if_pos hd, if_pos h₁, Nat.add_sub_cancel_left]
  · have h₁ : ¬ (48 ≤ 87 + d ∧ 87 + d ≤ 57) := by omega
    have h₂ : 97 ≤ 87 + d ∧ 87 + d ≤ 102 := by omega
    rw [if_neg hd, if_neg h₁, if_pos h₂, Nat.add_sub_cancel_left]

lemma isDigit_digit {d : ℕ} (h : d < 16) : isDigit (digit d) = true := by
  unfold isDigit
  rw [digitValue_digit h]
  rfl

lemma isLowerDigit_digit {d : ℕ} (h : d < 16) : isLowerDigit (digit d) = true := by
  unfold isLowerDigit
  rw [toNat_digit h]
  split_ifs <;> simp <;> omega

/-- Reading a digit and writing it puts it in lower case. -/
lemma digit_of_digitValue {c : UInt8} {d : ℕ} (h : digitValue c = some d) : digit d = lower c := by
  refine UInt8.toNat_inj.mp ?_
  rw [toNat_digit (digitValue_lt h)]
  unfold digitValue at h
  unfold lower
  have hlt := c.toNat_lt
  split_ifs at h with h₁ h₂ h₃
  · obtain rfl := Option.some.inj h
    have hc : ¬ (65 ≤ c.toNat ∧ c.toNat ≤ 90) := by omega
    have hd : c.toNat - 48 < 10 := by omega
    rw [if_pos hd, if_neg hc]
    omega
  · obtain rfl := Option.some.inj h
    have hc : ¬ (65 ≤ c.toNat ∧ c.toNat ≤ 90) := by omega
    have hd : ¬ c.toNat - 87 < 10 := by omega
    rw [if_neg hd, if_neg hc]
    omega
  · obtain rfl := Option.some.inj h
    have hc : 65 ≤ c.toNat ∧ c.toNat ≤ 90 := by omega
    have hd : ¬ c.toNat - 55 < 10 := by omega
    have hsmall : c.toNat + 32 < UInt8.size := by
      show c.toNat + 32 < 256
      omega
    rw [if_neg hd, if_pos hc, UInt8.toNat_ofNat_of_lt' hsmall]
    omega

lemma digit_lt_digit {d e : ℕ} (h : d < e) (he : e < 16) : digit d < digit e := by
  refine UInt8.lt_iff_toNat_lt.mpr ?_
  rw [toNat_digit (Nat.lt_trans h he), toNat_digit he]
  split_ifs <;> omega

/-! ### Pairs of digits -/

lemma toNat_pairValue (hi lo : UInt8) :
    (pairValue hi lo).toNat = 16 * (digitValue hi).getD 0 + (digitValue lo).getD 0 := by
  have h₁ := digitValue_getD_lt hi
  have h₂ := digitValue_getD_lt lo
  unfold pairValue
  rw [UInt8.toNat_ofNat_of_lt']
  show 16 * (digitValue hi).getD 0 + (digitValue lo).getD 0 < 256
  omega

lemma div_lt (b : UInt8) : b.toNat / 16 < 16 := by
  have := b.toNat_lt
  omega

lemma mod_lt (b : UInt8) : b.toNat % 16 < 16 := Nat.mod_lt _ (by omega)

lemma pairValue_digit (b : UInt8) :
    pairValue (digit (b.toNat / 16)) (digit (b.toNat % 16)) = b := by
  refine UInt8.toNat_inj.mp ?_
  rw [toNat_pairValue, digitValue_digit (div_lt b), digitValue_digit (mod_lt b)]
  exact Nat.div_add_mod b.toNat 16

lemma digit_pairValue_div {hi lo : UInt8} (h : isDigit hi = true) :
    digit ((pairValue hi lo).toNat / 16) = lower hi := by
  obtain ⟨d, hd⟩ := exists_digitValue h
  have hlo := digitValue_getD_lt lo
  have hdiv : (pairValue hi lo).toNat / 16 = d := by
    rw [toNat_pairValue, hd, Option.getD_some]
    omega
  rw [hdiv, digit_of_digitValue hd]

lemma digit_pairValue_mod {hi lo : UInt8} (h : isDigit lo = true) :
    digit ((pairValue hi lo).toNat % 16) = lower lo := by
  obtain ⟨d, hd⟩ := exists_digitValue h
  have hlt := digitValue_lt hd
  have hmod : (pairValue hi lo).toNat % 16 = d := by
    rw [toNat_pairValue, hd, Option.getD_some]
    omega
  rw [hmod, digit_of_digitValue hd]

lemma mem_hex {b c : UInt8} :
    c ∈ hex b ↔ c = digit (b.toNat / 16) ∨ c = digit (b.toNat % 16) := by
  simp [hex]

lemma isDigit_of_mem_hex {b c : UInt8} (h : c ∈ hex b) : isDigit c = true := by
  rcases mem_hex.mp h with rfl | rfl
  · exact isDigit_digit (div_lt b)
  · exact isDigit_digit (mod_lt b)

lemma isLowerDigit_of_mem_hex {b c : UInt8} (h : c ∈ hex b) : isLowerDigit c = true := by
  rcases mem_hex.mp h with rfl | rfl
  · exact isLowerDigit_digit (div_lt b)
  · exact isLowerDigit_digit (mod_lt b)

/-- The digits of a smaller byte come first, whatever follows them. -/
lemma hex_append_lt {b c : UInt8} (h : b < c) (s t : List UInt8) : hex b ++ s < hex c ++ t := by
  have hlt : b.toNat < c.toNat := UInt8.lt_iff_toNat_lt.mp h
  show digit (b.toNat / 16) :: digit (b.toNat % 16) :: s <
    digit (c.toNat / 16) :: digit (c.toNat % 16) :: t
  rcases Nat.lt_or_ge (b.toNat / 16) (c.toNat / 16) with hdiv | hdiv
  · exact List.Lex.rel (digit_lt_digit hdiv (div_lt c))
  · have heq : b.toNat / 16 = c.toNat / 16 := by omega
    have hmod : b.toNat % 16 < c.toNat % 16 := by omega
    rw [heq]
    exact List.Lex.cons (List.Lex.rel (digit_lt_digit hmod (mod_lt c)))

end SimplePresence.Hex
