import SimplePresence.Block
import SimplePresence.Hex
import SimplePresence.Runs
import SimplePresence.Uid

/-!
Reading an identifier from text.

The parser is the loop of the source over the characters of a C string, with its parity
counter, its buffer of two digits and its byte counter. It is related here, once, to the scan
of `Runs`; what it accepts and what it writes are read off that scan.
-/

namespace SimplePresence.Text

open SimplePresence.Uid SimplePresence.Hex SimplePresence.Runs

/-- `char`, which a platform makes signed or unsigned. -/
inductive CharKind
  | signed
  | unsigned
  deriving DecidableEq, Repr

/-- The value a character has in a comparison. -/
def CharKind.value : CharKind → UInt8 → ℤ
  | signed, c => if c.toNat < 128 then c.toNat else c.toNat - 256
  | unsigned, c => c.toNat

def isHexChar (ch : ℤ) : Bool :=
  if ch > 47 ∧ ch < 58 then true
  else if ch > 96 ∧ ch < 103 then true
  else if ch > 64 ∧ ch < 71 then true
  else false

def hexDigitToChar (ch : ℤ) : UInt8 :=
  if ch > 47 ∧ ch < 58 then UInt8.ofInt (ch - 48)
  else if ch > 96 ∧ ch < 103 then UInt8.ofInt (ch - 87)
  else if ch > 64 ∧ ch < 71 then UInt8.ofInt (ch - 55)
  else 0

/-- What the language leaves undefined. -/
inductive Fault
  | readPastNul
  | digitUnset
  | outOfBounds (i : ℕ)
  deriving DecidableEq, Repr

/-- The buffer `char a[2]`; a digit is absent until it is set. -/
structure PairBuffer where
  first : Option UInt8
  second : Option UInt8
  deriving DecidableEq, Repr

def hex2char (k : CharKind) (digits : PairBuffer) : Except Fault UInt8 :=
  match digits.first, digits.second with
  | some hi, some lo => .ok <| UInt8.ofNat <|
    (hexDigitToChar (k.value hi)).toNat * 16 + (hexDigitToChar (k.value lo)).toNat
  | _, _ => .error .digitUnset

/-- Bytes of an identifier overwritten from `off` on. -/
def UID.write (u : UID) (off : ℕ) (bs : List UInt8) : UID :=
  ⟨Block.write u.data off bs, (Block.length_write _ _ _).trans u.size⟩

/-- `c[i] = b`. -/
def UID.store (u : UID) (i : ℕ) (b : UInt8) : Except Fault UID :=
  if i < sizeUid then .ok (UID.write u i [b]) else .error (.outOfBounds i)

/-- A string without its terminating NUL. -/
structure CString where
  chars : List UInt8
  noNul : 0 ∉ chars
  deriving DecidableEq, Repr

/-- The characters and the NUL after them, all that may be read. -/
def terminated (s : List UInt8) : List UInt8 := s ++ [0]

/-- The local variables of `UID::parseString` and the bytes it writes to. -/
structure Locals where
  digitCount : ℕ
  bytes : ℕ
  a : PairBuffer
  data : UID
  deriving DecidableEq, Repr

/-- The `while` loop of `UID::parseString` from pointer `p` on. -/
def parseLoop (k : CharKind) : List UInt8 → Locals → Except Fault Locals
  | [], _ => .error .readPastNul
  | ch :: p, st =>
    if ch = 0 then .ok st
    else if isHexChar (k.value ch) then
      let st := { st with digitCount := st.digitCount + 1 }
      if st.digitCount = 1 then parseLoop k p { st with a := { st.a with first := some ch } }
      else if st.digitCount = 2 then
        let st := { st with a := { st.a with second := some ch } }
        -- the `break`
        if st.bytes > 15 then .ok st
        else
          match hex2char k st.a with
          | .error e => .error e
          | .ok b =>
            match UID.store st.data st.bytes b with
            | .error e => .error e
            | .ok data =>
              parseLoop k p { st with data := data, bytes := st.bytes + 1, digitCount := 0 }
      else parseLoop k p st
    else parseLoop k p { st with digitCount := 0 }

/-- `UID::parseString` on the memory at `s`: what it returns, and the object after it. -/
def parseString (k : CharKind) (s : List UInt8) (v : UID) : Except Fault (Bool × UID) :=
  match parseLoop k s ⟨0, 0, ⟨none, none⟩, v⟩ with
  | .error e => .error e
  | .ok st => .ok (decide (st.bytes ≥ 15), st.data)

/-- The bytes a string yields: the values of the consecutive pairs of each maximal run of
digits, an odd last digit dropped. -/
def bytesOf (s : CString) : List UInt8 := runPairs isDigit pairValue s.chars

/-! ### Characters -/

lemma value_of_lt (k : CharKind) {c : UInt8} (h : c.toNat < 128) : k.value c = c.toNat := by
  cases k with
  | signed => exact if_pos h
  | unsigned => rfl

/-- A range of ASCII characters holds the same characters for either kind of `char`. -/
lemma value_between (k : CharKind) (c : UInt8) {lo hi : ℤ} (hlo : 0 ≤ lo) (hhi : hi ≤ 128) :
    (k.value c > lo ∧ k.value c < hi) ↔ lo < c.toNat ∧ (c.toNat : ℤ) < hi := by
  have hlt := c.toNat_lt
  by_cases hc : c.toNat < 128
  · rw [value_of_lt k hc]
  · cases k with
    | signed =>
      have hv : CharKind.signed.value c = c.toNat - 256 := if_neg hc
      rw [hv]
      omega
    | unsigned => exact Iff.rfl

/-- The three ranges of the source are those of the digits. -/
lemma value_ranges (k : CharKind) (c : UInt8) :
    ((k.value c > 47 ∧ k.value c < 58) ↔ 48 ≤ c.toNat ∧ c.toNat ≤ 57) ∧
      ((k.value c > 96 ∧ k.value c < 103) ↔ 97 ≤ c.toNat ∧ c.toNat ≤ 102) ∧
      ((k.value c > 64 ∧ k.value c < 71) ↔ 65 ≤ c.toNat ∧ c.toNat ≤ 70) := by
  have hrange : ∀ {lo hi : ℤ}, 0 ≤ lo → hi ≤ 128 →
      ((k.value c > lo ∧ k.value c < hi) ↔ lo < c.toNat ∧ (c.toNat : ℤ) < hi) := value_between k c
  refine ⟨?_, ?_, ?_⟩
  · rw [hrange (by omega) (by omega)]
    omega
  · rw [hrange (by omega) (by omega)]
    omega
  · rw [hrange (by omega) (by omega)]
    omega

lemma isHexChar_value (k : CharKind) (c : UInt8) : isHexChar (k.value c) = isDigit c := by
  obtain ⟨h₁, h₂, h₃⟩ := value_ranges k c
  unfold isHexChar isDigit digitValue
  rw [if_congr h₁ rfl rfl, if_congr h₂ rfl rfl, if_congr h₃ rfl rfl]
  split_ifs <;> rfl

lemma toNat_ofInt_sub {n m : ℕ} (h : m ≤ n) (hn : n < 256) :
    (UInt8.ofInt ((n : ℤ) - m)).toNat = n - m := by
  have hmod : (((n : ℤ) - m) % 2 ^ 8).toNat = n - m := by omega
  unfold UInt8.ofInt
  rw [hmod, UInt8.toNat_ofNat_of_lt']
  show n - m < 256
  omega

lemma hexDigitToChar_value (k : CharKind) (c : UInt8) :
    (hexDigitToChar (k.value c)).toNat = (digitValue c).getD 0 := by
  obtain ⟨h₁, h₂, h₃⟩ := value_ranges k c
  unfold hexDigitToChar digitValue
  rw [if_congr h₁ rfl rfl, if_congr h₂ rfl rfl, if_congr h₃ rfl rfl]
  split_ifs with hd hl hu
  · rw [value_of_lt k (by omega)]
    exact toNat_ofInt_sub hd.1 (by omega)
  · rw [value_of_lt k (by omega)]
    exact toNat_ofInt_sub (le_trans (by decide) hl.1) (by omega)
  · rw [value_of_lt k (by omega)]
    exact toNat_ofInt_sub (le_trans (by decide) hu.1) (by omega)
  · rfl

lemma hex2char_some (k : CharKind) (hi lo : UInt8) :
    hex2char k ⟨some hi, some lo⟩ = .ok (pairValue hi lo) := by
  unfold hex2char pairValue
  simp only [hexDigitToChar_value, Nat.mul_comm]

/-! ### The loop is the scan -/

lemma UID.write_append (u : UID) (off : ℕ) (a b : List UInt8) :
    UID.write u off (a ++ b) = UID.write (UID.write u off a) (off + a.length) b :=
  UID.ext (Block.write_append _ _ _ _)

@[simp] lemma UID.write_nil (u : UID) (off : ℕ) : UID.write u off [] = u :=
  UID.ext (Block.write_nil _ _)

/-- Past the last byte nothing is written. -/
lemma UID.write_of_le (u : UID) {off : ℕ} (h : sizeUid ≤ off) (bs : List UInt8) :
    UID.write u off bs = u :=
  UID.ext (Block.write_of_length_le (u.size.trans_le h) bs)

/-- The digit the loop holds: none between two pairs. -/
def Locals.Holds (st : Locals) : Option UInt8 → Prop
  | none => st.digitCount = 0
  | some x => st.digitCount = 1 ∧ st.a.first = some x

section Step

variable {k : CharKind} {ch : UInt8} {p : List UInt8} {st : Locals}

/-- A character that is no digit parts two runs. -/
lemma parseLoop_other (hch : ch ≠ 0) (hd : isDigit ch = false) :
    parseLoop k (ch :: p) st = parseLoop k p { st with digitCount := 0 } := by
  rw [parseLoop, if_neg hch, isHexChar_value, hd]
  rfl

/-- The first digit of a pair is put by. -/
lemma parseLoop_first (hch : ch ≠ 0) (hd : isDigit ch = true) (hst : st.Holds none) :
    parseLoop k (ch :: p) st =
      parseLoop k p { st with digitCount := 1, a := { st.a with first := some ch } } := by
  have hcount : st.digitCount = 0 := hst
  rw [parseLoop, if_neg hch, isHexChar_value, hd, if_pos rfl, hcount]
  rfl

/-- The second digit of a pair makes a byte. -/
lemma parseLoop_second (hch : ch ≠ 0) (hd : isDigit ch = true) {x : UInt8}
    (hst : st.Holds (some x)) (hroom : st.bytes < sizeUid) :
    parseLoop k (ch :: p) st =
      parseLoop k p ⟨0, st.bytes + 1, ⟨some x, some ch⟩,
        UID.write st.data st.bytes [pairValue x ch]⟩ := by
  obtain ⟨hcount, hfirst⟩ := hst
  have hfull : ¬ st.bytes > 15 := Nat.not_lt.mpr (Nat.le_of_lt_succ hroom)
  rw [parseLoop, if_neg hch, isHexChar_value, hd, if_pos rfl, hcount]
  simp only [hfirst, hex2char_some, hfull, UID.store, hroom, if_true, if_false,
    Nat.reduceAdd, OfNat.ofNat_ne_one]

/-- A pair too many ends the loop. -/
lemma parseLoop_full (hch : ch ≠ 0) (hd : isDigit ch = true) {x : UInt8}
    (hst : st.Holds (some x)) (hfull : st.bytes = sizeUid) :
    parseLoop k (ch :: p) st =
      .ok { st with digitCount := 2, a := { st.a with second := some ch } } := by
  obtain ⟨hcount, hfirst⟩ := hst
  have hbreak : st.bytes > 15 := Nat.lt_of_succ_le hfull.ge
  rw [parseLoop, if_neg hch, isHexChar_value, hd, if_pos rfl, hcount]
  simp only [hbreak, if_true, Nat.reduceAdd, OfNat.ofNat_ne_one, if_false]

end Step

/-- From any iteration on, the loop ends without a fault, and writes what the scan finds in
the rest of the string as far as there is room. The induction is on the rest of the string;
the digit in hand and the number of bytes written vary with it. -/
lemma parseLoop_terminated (k : CharKind) {s : List UInt8} (hs : 0 ∉ s) {st : Locals}
    {h : Option UInt8} (hst : st.Holds h) (hbytes : st.bytes ≤ sizeUid) :
    ∃ st', parseLoop k (terminated s) st = .ok st' ∧
      st'.bytes = min sizeUid (st.bytes + (scan isDigit pairValue h s).length) ∧
      st'.data = UID.write st.data st.bytes (scan isDigit pairValue h s) := by
  induction s generalizing st h with
  | nil =>
    refine ⟨st, rfl, ?_, ?_⟩
    · simpa [scan] using hbytes
    · simp [scan]
  | cons ch s ih =>
    have hch : ch ≠ 0 := fun h0 => hs (h0 ▸ List.mem_cons_self)
    have hrest : 0 ∉ s := fun h0 => hs (List.mem_cons_of_mem _ h0)
    show ∃ st', parseLoop k (ch :: terminated s) st = .ok st' ∧ _
    cases hd : isDigit ch with
    | false =>
      have hscan : scan isDigit pairValue h (ch :: s) = scan isDigit pairValue none s := by
        cases h <;> simp [scan, hd]
      rw [parseLoop_other hch hd, hscan]
      exact ih hrest rfl hbytes
    | true =>
      cases h with
      | none =>
        have hscan : scan isDigit pairValue none (ch :: s) =
            scan isDigit pairValue (some ch) s := by simp [scan, hd]
        rw [parseLoop_first hch hd hst, hscan]
        exact ih hrest ⟨rfl, rfl⟩ hbytes
      | some x =>
        have hscan : scan isDigit pairValue (some x) (ch :: s) =
            [pairValue x ch] ++ scan isDigit pairValue none s := by simp [scan, hd]
        rw [hscan, List.length_append]
        rcases hbytes.lt_or_eq with hroom | hfull
        · rw [parseLoop_second hch hd hst hroom, UID.write_append]
          have hnext : Locals.Holds ⟨0, st.bytes + 1, ⟨some x, some ch⟩,
              UID.write st.data st.bytes [pairValue x ch]⟩ none := rfl
          obtain ⟨st', hrun, hcount, hdata⟩ := ih hrest hnext hroom
          refine ⟨st', hrun, ?_, hdata⟩
          rw [hcount, List.length_singleton, Nat.add_assoc]
        · rw [parseLoop_full hch hd hst hfull]
          refine ⟨_, rfl, ?_, ?_⟩
          · show st.bytes = _
            rw [hfull]
            omega
          · exact (UID.write_of_le _ hfull.ge _).symm

/-- **The parser** writes the bytes that the string yields over the first ones of the
identifier, and looks for fifteen of them. -/
theorem parseString_eq (k : CharKind) (s : CString) (v : UID) :
    parseString k (terminated s.chars) v =
      .ok (decide (15 ≤ (bytesOf s).length), UID.write v 0 (bytesOf s)) := by
  have hinit : Locals.Holds ⟨0, 0, ⟨none, none⟩, v⟩ none := rfl
  obtain ⟨st', hrun, hcount, hdata⟩ := parseLoop_terminated k s.noNul hinit (Nat.zero_le _)
  unfold parseString
  rw [hrun]
  rw [scan_eq] at hcount hdata
  have hret : st'.bytes ≥ 15 ↔ 15 ≤ (bytesOf s).length := by
    rw [hcount, Nat.zero_add]
    show 15 ≤ min 16 (bytesOf s).length ↔ _
    omega
  simp only [hret, hdata]
  rfl

/-! ### What is accepted and what is written -/

lemma data_write_zero (v : UID) (bs : List UInt8) :
    (UID.write v 0 bs).data = bs.take sizeUid ++ v.data.drop bs.length := by
  have h := Block.write_zero v.data bs
  rw [v.size] at h
  exact h

lemma getElem?_write_zero (v : UID) (bs : List UInt8) {i : ℕ} (hi : i < sizeUid) :
    (UID.write v 0 bs).data[i]? = if i < bs.length then bs[i]? else v.data[i]? :=
  Block.getElem?_write_zero bs (hi.trans_eq v.size.symm)

/-- **Decoding.** On every string the parser meets no fault: it reads nothing behind the NUL
and no digit before it is set, and writes at no index past the last. The bytes the string
yields are then the first ones of the identifier, and the others are what they were. -/
theorem parseString_decodes (k : CharKind) (s : CString) (v : UID) :
    ∃ r u, parseString k (terminated s.chars) v = .ok (r, u) ∧
      ∀ i < sizeUid, u.data[i]? = if i < (bytesOf s).length then (bytesOf s)[i]? else v.data[i]? :=
  ⟨_, _, parseString_eq k s v, fun _ hi => getElem?_write_zero v (bytesOf s) hi⟩

example : bytesOf ⟨"0aF-1bC, 9".toList.map Char.toUInt8, by decide⟩ = [0x0a, 0x1b] := by decide

/-- The parser returns true. -/
def Accepts (k : CharKind) (s : CString) (v : UID) : Prop :=
  ∃ u, parseString k (terminated s.chars) v = .ok (true, u)

/-- Byte `i` is one and the same after the parser, whatever the identifier held before. -/
def Assigned (k : CharKind) (s : CString) (i : ℕ) : Prop :=
  ∃ b, ∀ v r u, parseString k (terminated s.chars) v = .ok (r, u) → u.data[i]? = some b

lemma accepts_iff {k : CharKind} {s : CString} {v : UID} :
    Accepts k s v ↔ 15 ≤ (bytesOf s).length := by
  unfold Accepts
  rw [parseString_eq]
  constructor
  · rintro ⟨u, hu⟩
    exact of_decide_eq_true (Prod.mk.inj (Except.ok.inj hu)).1
  · intro h
    rw [decide_eq_true h]
    exact ⟨_, rfl⟩

/-- Two identifiers that differ in every byte. -/
def zeros : UID := ⟨List.replicate 16 0, rfl⟩
def ones : UID := ⟨List.replicate 16 1, rfl⟩

lemma assigned_iff {k : CharKind} {s : CString} {i : ℕ} (hi : i < sizeUid) :
    Assigned k s i ↔ i < (bytesOf s).length := by
  constructor
  · rintro ⟨b, hb⟩
    by_contra hlt
    have h₀ := hb zeros _ _ (parseString_eq k s zeros)
    have h₁ := hb ones _ _ (parseString_eq k s ones)
    rw [getElem?_write_zero _ _ hi, if_neg hlt] at h₀ h₁
    have hi' : i < 16 := hi
    simp only [zeros, ones, List.getElem?_replicate, hi', if_true, Option.some.injEq] at h₀ h₁
    exact absurd (h₀.trans h₁.symm) (by decide)
  · intro hlt
    refine ⟨(bytesOf s)[i], fun v r u hu => ?_⟩
    rw [parseString_eq] at hu
    obtain ⟨-, rfl⟩ := Prod.mk.inj (Except.ok.inj hu)
    rw [getElem?_write_zero v _ hi, if_pos hlt, List.getElem?_eq_getElem hlt]

lemma forall_assigned_iff {k : CharKind} {s : CString} :
    (∀ i < sizeUid, Assigned k s i) ↔ 16 ≤ (bytesOf s).length := by
  constructor
  · intro h
    exact (assigned_iff (by decide)).mp (h 15 (by decide))
  · intro h i hi
    exact (assigned_iff hi).mpr (Nat.lt_of_lt_of_le hi h)

/-- **When the parser accepts.** It returns true exactly for a whole identifier, that is when
the string yields sixteen bytes or more, or equivalently when it assigns all sixteen, unless
the string yields fifteen. -/
theorem accepts_whole_iff (k : CharKind) (s : CString) (v : UID) :
    ((Accepts k s v ↔ 16 ≤ (bytesOf s).length) ↔ (bytesOf s).length ≠ 15) ∧
      ((Accepts k s v ↔ ∀ i < sizeUid, Assigned k s i) ↔ (bytesOf s).length ≠ 15) := by
  rw [forall_assigned_iff, accepts_iff]
  have h : ((15 ≤ (bytesOf s).length ↔ 16 ≤ (bytesOf s).length) ↔ (bytesOf s).length ≠ 15) := by
    omega
  exact ⟨h, h⟩

/-- Thirty digits. -/
def thirty : CString := ⟨List.replicate 30 48, by decide⟩

/-- Thirty digits are accepted, and leave the last byte as it was. -/
theorem accepts_thirty : Accepts .signed thirty ones ∧ (bytesOf thirty).length = 15 ∧
    ¬ Assigned .signed thirty 15 := by
  have hlen : (bytesOf thirty).length = 15 := by decide
  refine ⟨accepts_iff.mpr hlen.ge, hlen, fun h => ?_⟩
  have hlt := (assigned_iff (by decide)).mp h
  rw [hlen] at hlt
  exact absurd hlt (by decide)

end SimplePresence.Text
