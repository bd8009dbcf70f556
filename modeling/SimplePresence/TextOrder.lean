import SimplePresence.Positional
import SimplePresence.Printed
import SimplePresence.Store

/-!
The order of the keys.

The map of records compares identifiers as sixteen unsigned bytes. A reader compares their
printed forms character by character. The two orders are one: the printer encodes position by
position, and the digits of a smaller byte come first.
-/

namespace SimplePresence.TextOrder

open SimplePresence.Uid SimplePresence.Hex SimplePresence.Positional SimplePresence.Printed
open SimplePresence.OrderedMap SimplePresence.Store

/-! ### Bytes -/

/-- On strings of one length `memcmp` decides the lexicographic order. -/
lemma memcmp_neg_iff {s t : List UInt8} (hlen : s.length = t.length) :
    memcmp s t < 0 ↔ s < t := by
  induction s generalizing t with
  | nil =>
    obtain rfl := List.length_eq_zero_iff.mp hlen.symm
    simp [memcmp]
  | cons a s ih =>
    cases t with
    | nil => cases hlen
    | cons b t =>
      rw [List.cons_lt_cons_iff]
      by_cases hab : a = b
      · subst hab
        have hirrefl : ¬ a < a := UInt8.lt_irrefl a
        rw [memcmp, if_pos rfl, ih (Nat.succ_inj.mp hlen)]
        simp [hirrefl]
      · rw [memcmp, if_neg hab, UInt8.lt_iff_toNat_lt]
        simp only [hab, false_and, or_false]
        omega

lemma data_lt_iff {a b : UID} : a < b ↔ a.data < b.data := memcmp_neg_iff (UID.length_eq a b)

/-! ### Printed forms -/

/-- A byte behind a separator. -/
def dashed (b : UInt8) : List UInt8 := dash :: hex b

/-- What the printer writes at each position. -/
def printers : List (UInt8 → List UInt8) :=
  [hex, hex, hex, hex, dashed, hex, dashed, hex, dashed, hex, dashed, hex, hex, hex, hex, hex]

lemma toString_eq_encode (u : UID) : UID.toString u = encode printers u.data := by
  rw [data_eq]
  unfold UID.toString
  simp only [insertHex_eq]
  simp [encode, printers, dashed, List.ofFn_succ]

lemma ordered_hex : Ordered hex := fun _ _ h s t => hex_append_lt h s t

lemma ordered_of_mem_printers {e : UInt8 → List UInt8} (h : e ∈ printers) : Ordered e := by
  have hcases : e = hex ∨ e = dashed := by
    simp only [printers, List.mem_cons, List.not_mem_nil, or_false] at h
    tauto
  rcases hcases with rfl | rfl
  · exact ordered_hex
  · exact ordered_hex.cons dash

lemma toString_lt_toString {a b : UID} (h : a < b) : UID.toString a < UID.toString b := by
  rw [toString_eq_encode, toString_eq_encode]
  apply encode_lt fun e he => ordered_of_mem_printers he
  · exact a.length_data
  · exact b.length_data
  · exact data_lt_iff.mp h

lemma text_lt_asymm {s t : List UInt8} (h : s < t) : ¬ t < s :=
  List.lex_asymm (fun hxy => UInt8.lt_asymm hxy) h

/-- **Order of the text.** -/
theorem lt_iff_toString_lt {a b : UID} : a < b ↔ UID.toString a < UID.toString b := by
  refine ⟨toString_lt_toString, fun h => ?_⟩
  rcases lt_trichotomy a b with hab | rfl | hba
  · exact hab
  · exact absurd h (text_lt_asymm h)
  · exact absurd (toString_lt_toString hba) (text_lt_asymm h)

lemma toString_inj {a b : UID} : UID.toString a = UID.toString b ↔ a = b := by
  refine ⟨fun h => ?_, congrArg UID.toString⟩
  by_contra hne
  rcases lt_or_gt_of_ne hne with hab | hba
  · have hlt := toString_lt_toString hab
    rw [h] at hlt
    exact text_lt_asymm hlt hlt
  · have hlt := toString_lt_toString hba
    rw [h] at hlt
    exact text_lt_asymm hlt hlt

/-! ### Keys -/

/-- Neither comes before the other: the map takes them for one key. -/
def SameKey (a b : UID) : Prop := ¬ a < b ∧ ¬ b < a

lemma sameKey_iff {a b : UID} : SameKey a b ↔ a = b := by
  unfold SameKey
  rw [not_lt, not_lt]
  constructor
  · rintro ⟨hba, hab⟩
    exact le_antisymm hab hba
  · rintro rfl
    exact ⟨le_rfl, le_rfl⟩

/-- What was inserted under one key is found under the other exactly when they are the same. -/
lemma find_insert_iff (m : Storage) (r : PresenceItemRec) {a b : UID} :
    (m.insert a r).deref ((m.insert a r).find b) = some (a, r) ↔ SameKey a b := by
  rw [Map.deref_find_eq_some, sameKey_iff]
  exact and_iff_right (m.mem_insert.mpr (Or.inl rfl))

/-- **The order of identifiers** is a strict total order on their bytes, and the order of their
printed forms. The map of records takes two of them for one key exactly when their bytes, or
their printed forms, are the same, and then finds under the one what was inserted under the
other. -/
theorem uid_order (a b c : UID) :
    ((a < b ∧ ¬ b < a ∧ a.data ≠ b.data) ∨ (¬ a < b ∧ b < a ∧ a.data ≠ b.data) ∨
        (¬ a < b ∧ ¬ b < a ∧ a.data = b.data)) ∧
      (a < b ∧ b < c → a < c) ∧
      (a < b ↔ UID.toString a < UID.toString b) ∧
      (SameKey a b ↔ a.data = b.data) ∧ (SameKey a b ↔ UID.toString a = UID.toString b) ∧
      ∀ (m : Storage) (r : PresenceItemRec),
        (m.insert a r).deref ((m.insert a r).find b) = some (a, r) ↔ SameKey a b := by
  have hdata : a.data = b.data ↔ a = b := UID.ext_iff.symm
  refine ⟨?_, fun h => h.1.trans h.2, lt_iff_toString_lt, ?_, ?_, fun m r => find_insert_iff m r⟩
  · rw [Ne, hdata]
    rcases lt_trichotomy a b with hab | hab | hba
    · exact Or.inl ⟨hab, hab.asymm, hab.ne⟩
    · exact Or.inr (Or.inr ⟨hab.not_lt, hab.not_gt, hab⟩)
    · exact Or.inr (Or.inl ⟨hba.asymm, hba, hba.ne'⟩)
  · rw [sameKey_iff, hdata]
  · rw [sameKey_iff, toString_inj]

end SimplePresence.TextOrder
