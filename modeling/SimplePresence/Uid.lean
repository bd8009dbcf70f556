import Mathlib.Algebra.Order.Ring.Int
import Mathlib.Data.List.TakeDrop
import Mathlib.Tactic.Common

/-!
Unique identifiers: sixteen bytes, ordered as unsigned bytes from the first on.
-/

namespace SimplePresence.Uid

def sizeUid : ℕ := 16

/-- The bytes of a `UID`. -/
@[ext]
structure UID where
  data : List UInt8
  size : data.length = sizeUid
  deriving DecidableEq, Repr

/-- Sixteen bytes moved from a buffer; what a short buffer lacks is zero. -/
def UID.ofBytes (buf : List UInt8) : UID := ⟨buf.takeD sizeUid 0, List.takeD_length _ _ _⟩

lemma UID.length_data (u : UID) : u.data.length = 16 := u.size

lemma UID.length_append (u v : UID) : (u.data ++ v.data).length = 32 := by
  rw [List.length_append, u.length_data, v.length_data]

@[simp] lemma UID.ofBytes_append (u : UID) (l : List UInt8) : UID.ofBytes (u.data ++ l) = u := by
  refine UID.ext ?_
  show (u.data ++ l).takeD sizeUid 0 = u.data
  rw [List.takeD_eq_take 0 (by simp [u.size]), List.take_left' u.size]

@[simp] lemma UID.ofBytes_data (u : UID) : UID.ofBytes u.data = u := by
  simpa using u.ofBytes_append []

lemma UID.data_ofBytes {buf : List UInt8} (h : sizeUid ≤ buf.length) :
    (UID.ofBytes buf).data = buf.take sizeUid :=
  List.takeD_eq_take 0 h

/-! ### The order -/

/-- The difference of the first bytes that differ, zero when none do. -/
def memcmp : List UInt8 → List UInt8 → ℤ
  | a :: s, b :: t => if a = b then memcmp s t else (a.toNat : ℤ) - b.toNat
  | _, _ => 0

lemma memcmp_self (s : List UInt8) : memcmp s s = 0 := by
  induction s with
  | nil => rfl
  | cons a s ih => simpa [memcmp] using ih

lemma memcmp_antisymm (s t : List UInt8) : memcmp t s = -memcmp s t := by
  induction s generalizing t with
  | nil => cases t <;> rfl
  | cons a s ih =>
    cases t with
    | nil => rfl
    | cons b t =>
      by_cases h : a = b
      · simp [memcmp, h, ih]
      · simp [memcmp, h, Ne.symm h]

lemma toNat_sub_ne_zero {a b : UInt8} (h : a ≠ b) : (a.toNat : ℤ) - b.toNat ≠ 0 := by
  intro h0
  exact h (UInt8.toNat_inj.mp (by omega))

lemma eq_of_memcmp_eq_zero {s t : List UInt8} (hlen : s.length = t.length)
    (h : memcmp s t = 0) : s = t := by
  induction s generalizing t with
  | nil => exact (List.length_eq_zero_iff.mp hlen.symm).symm
  | cons a s ih =>
    cases t with
    | nil => cases hlen
    | cons b t =>
      by_cases hab : a = b
      · subst hab
        rw [ih (by simpa using hlen) (by simpa [memcmp] using h)]
      · exact absurd (by simpa [memcmp, hab] using h) (toNat_sub_ne_zero hab)

lemma memcmp_trans {s t u : List UInt8} (hst : s.length = t.length) (htu : t.length = u.length)
    (h₁ : memcmp s t < 0) (h₂ : memcmp t u < 0) : memcmp s u < 0 := by
  induction s generalizing t u with
  | nil => simp [memcmp] at h₁
  | cons a s ih =>
    match t, u, hst, htu with
    | b :: t, c :: u, hst, htu =>
      by_cases hab : a = b
      · by_cases hbc : b = c
        · subst hab hbc
          simp only [memcmp, if_true] at h₁ h₂ ⊢
          exact ih (by simpa using hst) (by simpa using htu) h₁ h₂
        · subst hab
          simpa [memcmp, hbc] using h₂
      · have h₁' : (a.toNat : ℤ) - b.toNat < 0 := by simpa [memcmp, hab] using h₁
        by_cases hbc : b = c
        · subst hbc
          simpa [memcmp, hab] using h₁'
        · have h₂' : (b.toNat : ℤ) - c.toNat < 0 := by simpa [memcmp, hbc] using h₂
          have hac : a ≠ c := by
            rintro rfl
            omega
          simp only [memcmp, hac, if_false]
          omega

namespace UID

/-- `operator <`. -/
def lt (a b : UID) : Prop := memcmp a.data b.data < 0

instance : LT UID := ⟨UID.lt⟩
instance : LE UID := ⟨fun a b => ¬ b < a⟩

instance decidableLT : DecidableLT UID := fun a b => Int.decLt (memcmp a.data b.data) 0
instance decidableLE : DecidableLE UID := fun a b => inferInstanceAs (Decidable (¬ b < a))

lemma lt_def {a b : UID} : a < b ↔ memcmp a.data b.data < 0 := Iff.rfl

lemma le_def {a b : UID} : a ≤ b ↔ memcmp a.data b.data ≤ 0 := by
  show ¬ memcmp b.data a.data < 0 ↔ _
  rw [memcmp_antisymm a.data b.data]
  omega

lemma length_eq (a b : UID) : a.data.length = b.data.length := a.size.trans b.size.symm

lemma eq_of_memcmp {a b : UID} (h : memcmp a.data b.data = 0) : a = b :=
  UID.ext (eq_of_memcmp_eq_zero (length_eq a b) h)

/-- The order the map of records is kept in. -/
instance : LinearOrder UID where
  le_refl a := le_def.mpr (memcmp_self a.data).le
  le_trans a b c hab hbc := by
    rcases (le_def.mp hab).lt_or_eq with h₁ | h₁
    · rcases (le_def.mp hbc).lt_or_eq with h₂ | h₂
      · exact le_def.mpr (memcmp_trans (length_eq a b) (length_eq b c) h₁ h₂).le
      · exact eq_of_memcmp h₂ ▸ hab
    · exact eq_of_memcmp h₁ ▸ hbc
  le_antisymm a b hab hba := by
    refine eq_of_memcmp (le_antisymm (le_def.mp hab) ?_)
    have := le_def.mp hba
    rw [memcmp_antisymm] at this
    omega
  le_total a b := by
    rw [le_def, le_def, memcmp_antisymm a.data b.data]
    omega
  lt_iff_le_not_ge a b := by
    rw [lt_def, le_def, le_def, memcmp_antisymm a.data b.data]
    omega
  toDecidableLE := decidableLE
  toDecidableLT := decidableLT

end UID

end SimplePresence.Uid
