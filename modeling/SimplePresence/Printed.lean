import SimplePresence.Text
import Mathlib.Data.List.GetD

/-!
The printed form of an identifier.

The printer inserts the sixteen bytes into a stream one by one, with four separators between
them. It shares no table with the parser; both are compared here with the groups of digits
that the form is made of.
-/

namespace SimplePresence.Printed

open SimplePresence.Uid SimplePresence.Hex SimplePresence.Runs SimplePresence.Text

def dash : UInt8 := 45

/-- `ss << std::setw(w) << n` on a stream set to `std::hex` and filled with `'0'`. -/
def insertHex (w n : ℕ) : List UInt8 := ((Nat.toDigits 16 n).leftpad w '0').map Char.toUInt8

/-- `c[i]`. -/
def UID.byte (u : UID) (i : ℕ) : UInt8 := u.data.getD i 0

/-- `UID::toString`. -/
def UID.toString (u : UID) : List UInt8 :=
  let c := UID.byte u
  insertHex 2 (c 0).toNat
    ++ insertHex 2 (c 1).toNat
    ++ insertHex 2 (c 2).toNat
    ++ insertHex 2 (c 3).toNat
    ++ [dash]
    ++ insertHex 2 (c 4).toNat
    ++ insertHex 2 (c 5).toNat
    ++ [dash]
    ++ insertHex 2 (c 6).toNat
    ++ insertHex 2 (c 7).toNat
    ++ [dash]
    ++ insertHex 2 (c 8).toNat
    ++ insertHex 2 (c 9).toNat
    ++ [dash]
    ++ insertHex 2 (c 10).toNat
    ++ insertHex 2 (c 11).toNat
    ++ insertHex 2 (c 12).toNat
    ++ insertHex 2 (c 13).toNat
    ++ insertHex 2 (c 14).toNat
    ++ insertHex 2 (c 15).toNat

/-- Text of the form 8-4-4-4-12 with symbols that satisfy `p` between the separators. -/
def IsUuid (p : UInt8 → Bool) (s : List UInt8) : Prop :=
  ∃ gs : List (List UInt8), gs.map List.length = [8, 4, 4, 4, 12] ∧
    (∀ g ∈ gs, ∀ c ∈ g, p c = true) ∧ s = [dash].intercalate gs

/-! ### Insertion of a byte -/

lemma toUInt8_digitChar {n : ℕ} (h : n < 16) : (Nat.digitChar n).toUInt8 = digit n := by
  have hall : ∀ m < 16, (Nat.digitChar m).toUInt8 = digit m := by decide
  exact hall n h

/-- A byte is inserted as its two digits. -/
lemma insertHex_eq (b : UInt8) : insertHex 2 b.toNat = hex b := by
  unfold insertHex hex
  rcases Nat.lt_or_ge b.toNat 16 with h | h
  · have hdiv : b.toNat / 16 = 0 := Nat.div_eq_of_lt h
    have hmod : b.toNat % 16 = b.toNat := Nat.mod_eq_of_lt h
    rw [Nat.toDigits_of_lt_base h, hdiv, hmod, ← toUInt8_digitChar h]
    rfl
  · have hdigits : Nat.toDigits 16 b.toNat =
        [Nat.digitChar (b.toNat / 16), Nat.digitChar (b.toNat % 16)] := by
      rw [Nat.toDigits_of_base_le (by omega) h, Nat.toDigits_of_lt_base (div_lt b)]
      rfl
    rw [hdigits, ← toUInt8_digitChar (div_lt b), ← toUInt8_digitChar (mod_lt b)]
    rfl

/-! ### Groups -/

/-- The bytes between the separators. -/
def groups (u : UID) : List (List UInt8) :=
  let c := UID.byte u
  [[c 0, c 1, c 2, c 3], [c 4, c 5], [c 6, c 7], [c 8, c 9], [c 10, c 11, c 12, c 13, c 14, c 15]]

def hexes (g : List UInt8) : List UInt8 := g.flatMap hex

lemma data_eq (u : UID) : u.data = List.ofFn fun i : Fin 16 => UID.byte u i := by
  refine List.ext_getElem (by rw [u.length_data, List.length_ofFn]) fun i h₁ h₂ => ?_
  rw [List.getElem_ofFn]
  exact (List.getD_eq_getElem _ _ h₁).symm

lemma flatten_groups (u : UID) : (groups u).flatten = u.data := by
  rw [data_eq]
  rfl

/-- The printer puts a separator between the groups. -/
lemma toString_eq (u : UID) : UID.toString u = [dash].intercalate ((groups u).map hexes) := by
  unfold UID.toString
  simp only [insertHex_eq]
  simp [groups, hexes]

/-- The groups are what any text with as many bytes in each group is made of. -/
lemma groups_unique {u : UID} {bs : List (List UInt8)} (hflat : bs.flatten = u.data)
    (hlen : bs.map List.length = [4, 2, 2, 2, 6]) : groups u = bs :=
  List.eq_iff_flatten_eq.mpr ⟨(flatten_groups u).trans hflat.symm, hlen.symm⟩

/-! ### Text of the printed form -/

section Form

variable {p : UInt8 → Bool} {s : List UInt8}

lemma forall_mem_intercalate {q : UInt8 → Prop} (hdash : q dash) {gs : List (List UInt8)}
    (h : ∀ g ∈ gs, ∀ c ∈ g, q c) : ∀ c ∈ [dash].intercalate gs, q c := by
  induction gs with
  | nil => simp
  | cons g gs ih =>
    have hg : ∀ c ∈ g, q c := h g List.mem_cons_self
    have hrest := ih fun g' hg' => h g' (List.mem_cons_of_mem g hg')
    cases gs with
    | nil => rwa [List.intercalate_singleton]
    | cons g' gs =>
      intro c hc
      rw [List.intercalate_cons_cons] at hc
      rcases List.mem_append.mp hc with hc | hc
      · rcases List.mem_append.mp hc with hc | hc
        · exact hg c hc
        · rw [List.mem_singleton.mp hc]
          exact hdash
      · exact hrest c hc

lemma map_intercalate (f : UInt8 → UInt8) (hdash : f dash = dash) (gs : List (List UInt8)) :
    ([dash].intercalate gs).map f = [dash].intercalate (gs.map (List.map f)) := by
  induction gs with
  | nil => rfl
  | cons g gs ih =>
    cases gs with
    | nil => simp
    | cons g' gs =>
      rw [List.intercalate_cons_cons, List.map_append, List.map_append, ih]
      simp [hdash]

lemma length_intercalate {gs : List (List UInt8)} (h : gs ≠ []) :
    ([dash].intercalate gs).length + 1 = (gs.map List.length).sum + gs.length := by
  induction gs with
  | nil => exact absurd rfl h
  | cons g gs ih =>
    cases gs with
    | nil => simp
    | cons g' gs =>
      have hrest := ih (List.cons_ne_nil g' gs)
      rw [List.intercalate_cons_cons, List.length_append, List.length_append, List.map_cons,
        List.sum_cons, List.length_singleton, List.length_cons (a := g)]
      omega

/-- Text of this form has thirty-six characters. -/
lemma IsUuid.length_eq (h : IsUuid p s) : s.length = 36 := by
  obtain ⟨gs, hlen, -, rfl⟩ := h
  have hcount : gs.length = 5 := by simpa using congrArg List.length hlen
  have hne : gs ≠ [] := List.ne_nil_of_length_pos (by omega)
  have htotal := length_intercalate hne
  rw [hlen, hcount] at htotal
  simpa using htotal

lemma IsUuid.mono {q : UInt8 → Bool} (hpq : ∀ c, p c = true → q c = true) (h : IsUuid p s) :
    IsUuid q s := by
  obtain ⟨gs, hlen, hmem, rfl⟩ := h
  exact ⟨gs, hlen, fun g hg c hc => hpq c (hmem g hg c hc), rfl⟩

lemma isDigit_of_isLowerDigit {c : UInt8} (h : isLowerDigit c = true) : isDigit c = true := by
  unfold isLowerDigit at h
  unfold isDigit digitValue
  simp only [Bool.or_eq_true, Bool.and_eq_true, decide_eq_true_eq] at h
  rcases h with h | h
  · rw [if_pos h]
    rfl
  · rw [if_pos h]
    split_ifs <;> rfl

lemma IsUuid.noNul (h : IsUuid isDigit s) : 0 ∉ s := by
  obtain ⟨gs, -, hmem, rfl⟩ := h
  intro h0
  refine forall_mem_intercalate (q := fun c => c ≠ 0) (by decide) ?_ 0 h0 rfl
  rintro g hg c hc rfl
  exact absurd (hmem g hg 0 hc) (by decide)

end Form

/-- What holds of the digits of every byte holds of what is printed between the separators. -/
lemma forall_mem_hexes {q : UInt8 → Prop} (h : ∀ b, ∀ c ∈ hex b, q c) (bs : List (List UInt8)) :
    ∀ g ∈ bs.map hexes, ∀ c ∈ g, q c := by
  intro g hg c hc
  obtain ⟨b, -, rfl⟩ := List.mem_map.mp hg
  obtain ⟨x, -, hx⟩ := List.mem_flatMap.mp hc
  exact h x c hx

/-- The printer writes small letters. -/
lemma isUuid_toString (u : UID) : IsUuid isLowerDigit (UID.toString u) :=
  ⟨(groups u).map hexes, rfl, forall_mem_hexes (fun _ _ => isLowerDigit_of_mem_hex) _,
    toString_eq u⟩

/-- Text of the form in either case, as a C string. -/
def IsUuid.cstring {s : List UInt8} (h : IsUuid isDigit s) : CString := ⟨s, h.noNul⟩

/-- Its digits two by two are all the bytes it yields. -/
lemma bytesOf_intercalate {gs : List (List UInt8)} {s : CString}
    (hs : s.chars = [dash].intercalate gs) (hmem : ∀ g ∈ gs, ∀ c ∈ g, isDigit c = true) :
    bytesOf s = (gs.map (pairs pairValue)).flatten := by
  unfold bytesOf
  rw [hs, runPairs_intercalate isDigit pairValue (by decide) hmem, List.flatMap_def]

lemma data_write_full (v : UID) {bs : List UInt8} (h : bs.length = 16) :
    (UID.write v 0 bs).data = bs := by
  have hdrop : v.data.drop bs.length = [] := List.drop_eq_nil_of_le (v.length_data.trans h.symm).le
  rw [data_write_zero, hdrop, List.append_nil]
  exact List.take_of_length_le h.le

lemma pairs_hexes (g : List UInt8) : pairs pairValue (hexes g) = g :=
  pairs_flatMap pairValue pairValue_digit g

lemma hexes_pairs {g : List UInt8} (heven : g.length % 2 = 0)
    (hmem : ∀ c ∈ g, isDigit c = true) : hexes (pairs pairValue g) = g.map lower :=
  flatMap_pairs pairValue heven (fun a ha _ _ => digit_pairValue_div (hmem a ha))
    fun _ _ b hb => digit_pairValue_mod (hmem b hb)

/-- The printed form yields the bytes of the identifier. -/
lemma bytesOf_toString {u : UID} {s : CString} (hs : s.chars = UID.toString u) :
    bytesOf s = u.data := by
  have hmem : ∀ g ∈ (groups u).map hexes, ∀ c ∈ g, isDigit c = true :=
    forall_mem_hexes (fun _ _ => isDigit_of_mem_hex) _
  have hpairs : pairs pairValue ∘ hexes = id := funext pairs_hexes
  calc bytesOf s = (((groups u).map hexes).map (pairs pairValue)).flatten :=
        bytesOf_intercalate (hs.trans (toString_eq u)) hmem
    _ = (groups u).flatten := by rw [List.map_map, hpairs, List.map_id]
    _ = u.data := flatten_groups u

/-- **Reading back.** An identifier is what its printed form is read as. -/
theorem parseString_toString (k : CharKind) (u v : UID) :
    parseString k (terminated (UID.toString u)) v = .ok (true, u) := by
  let s := (IsUuid.mono (fun _ => isDigit_of_isLowerDigit) (isUuid_toString u)).cstring
  have hbytes : bytesOf s = u.data := bytesOf_toString rfl
  have hrun : parseString k (terminated (UID.toString u)) v = _ := parseString_eq k s v
  have hdata : UID.write v 0 u.data = u := UID.ext (data_write_full v u.length_data)
  have hret : decide (15 ≤ u.data.length) = true := by rw [u.length_data]; rfl
  rw [hrun, hbytes, hdata, hret]

/-- **Printing again.** Text of the form, in either case, is accepted, and what it is read as
is printed in small letters. -/
theorem toString_parseString (k : CharKind) {s : List UInt8} (h : IsUuid isDigit s) (v : UID) :
    ∃ u, parseString k (terminated s) v = .ok (true, u) ∧ UID.toString u = s.map lower := by
  have hrun : parseString k (terminated s) v = _ := parseString_eq k h.cstring v
  have hform := h
  obtain ⟨gs, hlen, hmem, hs⟩ := hform
  have hbytes : bytesOf h.cstring = (gs.map (pairs pairValue)).flatten :=
    bytesOf_intercalate hs hmem
  have hhalf : (gs.map (pairs pairValue)).map List.length = [4, 2, 2, 2, 6] := by
    calc (gs.map (pairs pairValue)).map List.length
        = (gs.map List.length).map (· / 2) := by
          rw [List.map_map, List.map_map]
          exact List.map_congr_left fun g _ => length_pairs pairValue g
      _ = [4, 2, 2, 2, 6] := by rw [hlen]; rfl
  have hsixteen : (bytesOf h.cstring).length = 16 := by
    rw [hbytes, List.length_flatten, hhalf]
    rfl
  have hdata := data_write_full v hsixteen
  have heven : ∀ g ∈ gs, g.length % 2 = 0 := by
    intro g hg
    have hmem' : g.length ∈ [8, 4, 4, 4, 12] := hlen ▸ List.mem_map_of_mem hg
    simp only [List.mem_cons, List.not_mem_nil, or_false] at hmem'
    omega
  refine ⟨_, by rw [hrun, hsixteen]; rfl, ?_⟩
  rw [toString_eq, groups_unique (hbytes.symm.trans hdata.symm) hhalf, List.map_map, hs,
    map_intercalate lower (by decide)]
  refine congrArg _ (List.map_congr_left fun g hg => ?_)
  exact hexes_pairs (heven g hg) (hmem g hg)

/-- **The text codec.** Reading back what was printed gives the identifier, whatever the object
held before; what is printed has the form 8-4-4-4-12 in small letters; and any text of that
form, in either case, is read, and printed again in small letters. -/
theorem text_codec (k : CharKind) :
    (∀ u v, parseString k (terminated (UID.toString u)) v = .ok (true, u)) ∧
      (∀ u, (UID.toString u).length = 36 ∧ IsUuid isLowerDigit (UID.toString u)) ∧
      ∀ s v, IsUuid isDigit s →
        ∃ u, parseString k (terminated s) v = .ok (true, u) ∧ UID.toString u = s.map lower := by
  refine ⟨parseString_toString k, fun u => ?_, fun s v h => toString_parseString k h v⟩
  exact ⟨(isUuid_toString u).length_eq, isUuid_toString u⟩

example : (UID.toString (UID.ofBytes [0x6a, 0x20, 0x4b, 0xd8])).map Char.ofUInt8 =
    "6a204bd8-0000-0000-0000-000000000000".toList := rfl

end SimplePresence.Printed
