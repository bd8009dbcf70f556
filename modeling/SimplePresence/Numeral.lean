import SimplePresence.Hex
import Mathlib.Data.Nat.Digits.Defs
import Mathlib.Data.Nat.Digits.Lemmas

/-!
Numerals, and how C reads them.

A numeral is a row of digits of a base up to sixteen, the highest first. `strtoul` with base
zero takes the base from the first characters of the text: `0x` for sixteen, `0` for eight,
and ten otherwise. It reads as many digits as there are, stops at the greatest value there is,
and negates modulo one more than that.
-/

namespace SimplePresence.Numeral

open SimplePresence.Hex

/-- A digit of base `b`. -/
def isDigitIn (b : ℕ) (c : UInt8) : Bool := (digitValue c).any (· < b)

/-- The value of some digits, the highest first. -/
def valueOf (b : ℕ) (s : List UInt8) : ℕ :=
  s.foldl (fun n c => n * b + (digitValue c).getD 0) 0

/-- The value of the digits a text begins with. -/
def readDigits (b : ℕ) (s : List UInt8) : ℕ := valueOf b (s.takeWhile (isDigitIn b))

/-- The shortest numeral of a number. -/
def numeral (b n : ℕ) : List UInt8 :=
  if n = 0 then [digit 0] else ((b.digits n).reverse).map digit

lemma isDigitIn_digit {b d : ℕ} (hb : b ≤ 16) (hd : d < b) : isDigitIn b (digit d) = true := by
  unfold isDigitIn
  rw [digitValue_digit (hd.trans_le hb)]
  simpa using hd

lemma mem_numeral {b n : ℕ} (hb : 1 < b) {c : UInt8} (h : c ∈ numeral b n) :
    ∃ d < b, c = digit d := by
  unfold numeral at h
  split_ifs at h
  · exact ⟨0, by omega, List.mem_singleton.mp h⟩
  · obtain ⟨d, hd, rfl⟩ := List.mem_map.mp h
    exact ⟨d, Nat.digits_lt_base hb (List.mem_reverse.mp hd), rfl⟩

lemma valueOf_map_digit {b : ℕ} (hb : b ≤ 16) {l : List ℕ} (hl : ∀ d ∈ l, d < b) :
    valueOf b (l.map digit) = Nat.ofDigits b l.reverse := by
  have hfold : ∀ (l : List ℕ) (n : ℕ), (∀ d ∈ l, d < b) →
      (l.map digit).foldl (fun n c => n * b + (digitValue c).getD 0) n =
        l.foldl (fun n d => n * b + d) n := by
    intro l
    induction l with
    | nil => exact fun _ _ => rfl
    | cons d l ih =>
      intro n hl
      have hd := (hl d List.mem_cons_self).trans_le hb
      rw [List.map_cons, List.foldl_cons, List.foldl_cons, digitValue_digit hd, Option.getD_some]
      exact ih _ fun e he => hl e (List.mem_cons_of_mem d he)
  rw [valueOf, hfold l 0 hl, Nat.ofDigits_eq_foldr, List.foldr_reverse]
  refine congrArg (fun f => l.foldl f 0) (funext fun n => funext fun d => ?_)
  rw [Nat.mul_comm]
  exact Nat.add_comm _ _

/-- **A numeral is read as the number it was written for.** -/
theorem readDigits_numeral {b : ℕ} (hb : 1 < b) (hb' : b ≤ 16) (n : ℕ) {rest : List UInt8}
    (hrest : ∀ c ∈ rest.head?, isDigitIn b c = false) :
    readDigits b (numeral b n ++ rest) = n := by
  have hall : ∀ c ∈ numeral b n, isDigitIn b c = true := by
    intro c hc
    obtain ⟨d, hd, rfl⟩ := mem_numeral hb hc
    exact isDigitIn_digit hb' hd
  have htake : (numeral b n ++ rest).takeWhile (isDigitIn b) = numeral b n := by
    rw [List.takeWhile_append_of_pos hall]
    cases rest with
    | nil => rw [List.takeWhile_nil, List.append_nil]
    | cons c rest =>
      have hc := hrest c rfl
      rw [List.takeWhile_cons_of_neg (by simp [hc]), List.append_nil]
  rw [readDigits, htake]
  unfold numeral
  split_ifs with hn
  · rw [hn]
    have h := valueOf_map_digit (l := [0]) hb' (by simpa using hb.trans' Nat.one_pos)
    simpa using h
  · rw [valueOf_map_digit hb' fun d hd => Nat.digits_lt_base hb (List.mem_reverse.mp hd),
      List.reverse_reverse, Nat.ofDigits_digits]

/-! ### `strtoul` -/

/-- `isspace`. -/
def isSpace (c : UInt8) : Bool := c = 32 || (9 ≤ c && c ≤ 13)

/-- The sign, and what follows it. -/
def sign : List UInt8 → Bool × List UInt8
  | 45 :: s => (true, s)
  | 43 :: s => (false, s)
  | s => (false, s)

/-- The base, and the digits. -/
def base : List UInt8 → ℕ × List UInt8
  | 48 :: x :: s => if x = 120 ∨ x = 88 then (16, s) else (8, 48 :: x :: s)
  | 48 :: s => (8, 48 :: s)
  | s => (10, s)

/-- The value of a text without space and sign. -/
def magnitude (s : List UInt8) : ℕ := readDigits (base s).1 (base s).2

/-- `strtoul(s, nullptr, 0)`, `max` being the greatest value there is. -/
def strtoul (max : ℕ) (s : List UInt8) : ℕ :=
  let (negative, s) := sign (s.dropWhile isSpace)
  let n := magnitude s
  if n > max then max
  else if negative then (max + 1 - n) % (max + 1)
  else n

/-- A way to write a number. -/
inductive Radix
  | eight
  | ten
  | sixteen
  deriving DecidableEq, Repr

namespace Radix

def base : Radix → ℕ
  | eight => 8
  | ten => 10
  | sixteen => 16

/-- What the digits are preceded by. -/
def mark : Radix → List UInt8
  | eight => [48]
  | ten => []
  | sixteen => [48, 120]

def write (r : Radix) (n : ℕ) : List UInt8 := r.mark ++ numeral r.base n

end Radix

lemma readDigits_zero_cons {b : ℕ} (hb : 0 < b) (s : List UInt8) :
    readDigits b (48 :: s) = readDigits b s := by
  have hzero : isDigitIn b 48 = true := by
    have hval : digitValue 48 = some 0 := rfl
    unfold isDigitIn
    rw [hval]
    simpa using hb
  unfold readDigits valueOf
  rw [List.takeWhile_cons_of_pos hzero, List.foldl_cons, Nat.zero_mul, Nat.zero_add]
  rfl

/-- A decimal numeral begins with a digit, and with zero only when it is that of zero. -/
lemma exists_numeral_ten (n : ℕ) :
    numeral 10 n = [48] ∧ n = 0 ∨ ∃ d t, 0 < d ∧ d < 10 ∧ numeral 10 n = digit d :: t := by
  unfold numeral
  split_ifs with hn
  · exact Or.inl ⟨rfl, hn⟩
  · right
    have hne := Nat.digits_ne_nil_iff_ne_zero (b := 10).mpr hn
    have hlast := Nat.getLast_digit_ne_zero 10 hn
    have hmem := List.getLast_mem hne
    refine ⟨(Nat.digits 10 n).getLast hne, ((Nat.digits 10 n).dropLast.reverse).map digit,
      Nat.pos_of_ne_zero hlast, Nat.digits_lt_base (by decide) hmem, ?_⟩
    rw [← List.map_cons, ← List.reverse_concat, List.dropLast_append_getLast hne]

lemma digit_mem_range {d : ℕ} (h : d < 10) : (digit d).toNat = 48 + d := by
  rw [toNat_digit (by omega), if_pos h]

lemma ne_of_toNat_ne {c c' : UInt8} (h : c.toNat ≠ c'.toNat) : c ≠ c' := fun hc => h (by rw [hc])

lemma base_of_pos {d : ℕ} (h0 : 0 < d) (h : d < 10) (t : List UInt8) :
    base (digit d :: t) = (10, digit d :: t) := by
  have hne : digit d ≠ 48 := by
    refine ne_of_toNat_ne ?_
    rw [digit_mem_range h]
    show 48 + d ≠ 48
    omega
  unfold base
  split
  · rename_i heq
    exact absurd (List.cons.inj heq).1 hne
  · rename_i heq
    exact absurd (List.cons.inj heq).1 hne
  · rfl

/-- The base of a number is known from how it begins. -/
lemma magnitude_write (r : Radix) (n : ℕ) : magnitude (r.write n) = n := by
  have hrest : ∀ b, ∀ c ∈ ([] : List UInt8).head?, isDigitIn b c = false := by simp
  cases r with
  | eight =>
    have hbase : base (48 :: numeral 8 n) = (8, 48 :: numeral 8 n) := by
      rcases hnum : numeral 8 n with _ | ⟨c, t⟩
      · rfl
      · obtain ⟨d, hd, rfl⟩ := mem_numeral (b := 8) (n := n) (c := c) (by decide)
          (hnum ▸ List.mem_cons_self)
        have hx : ¬ (digit d = 120 ∨ digit d = 88) := by
          rintro (hx | hx)
          · have hnat := congrArg UInt8.toNat hx
            rw [digit_mem_range (by omega)] at hnat
            have h120 : UInt8.toNat 120 = 120 := rfl
            omega
          · have hnat := congrArg UInt8.toNat hx
            rw [digit_mem_range (by omega)] at hnat
            have h88 : UInt8.toNat 88 = 88 := rfl
            omega
        exact if_neg hx
    have hread := readDigits_numeral (b := 8) (by decide) (by decide) n (hrest 8)
    rw [List.append_nil] at hread
    show readDigits (base (48 :: numeral 8 n)).1 (base (48 :: numeral 8 n)).2 = n
    rw [hbase, readDigits_zero_cons (Nat.succ_pos 7), hread]
  | ten =>
    have hread := readDigits_numeral (b := 10) (by decide) (by decide) n (hrest 10)
    rw [List.append_nil] at hread
    show magnitude (numeral 10 n) = n
    rcases exists_numeral_ten n with ⟨hnum, hn⟩ | ⟨d, t, h0, h, hnum⟩
    · rw [hnum, hn]
      rfl
    · unfold magnitude
      rw [hnum, base_of_pos h0 h, ← hnum, hread]
  | sixteen =>
    have hread := readDigits_numeral (b := 16) (by decide) (by decide) n (hrest 16)
    rw [List.append_nil] at hread
    exact hread

/-- Whatever the way to write it, a number begins with a decimal digit. -/
lemma exists_write (r : Radix) (n : ℕ) : ∃ d t, d < 10 ∧ r.write n = digit d :: t := by
  cases r with
  | eight => exact ⟨0, numeral 8 n, by decide, rfl⟩
  | ten =>
    rcases exists_numeral_ten n with ⟨hnum, -⟩ | ⟨d, t, -, h, hnum⟩
    · exact ⟨0, [], by decide, hnum⟩
    · exact ⟨d, t, h, hnum⟩
  | sixteen => exact ⟨0, 120 :: numeral 16 n, by decide, rfl⟩

lemma sign_write (r : Radix) (n : ℕ) :
    sign ((r.write n).dropWhile isSpace) = (false, r.write n) := by
  obtain ⟨d, t, hd, hw⟩ := exists_write r n
  have hnat := digit_mem_range hd
  have hspace : isSpace (digit d) = false := by
    unfold isSpace
    rw [Bool.or_eq_false_iff, Bool.and_eq_false_iff]
    refine ⟨decide_eq_false (ne_of_toNat_ne ?_), Or.inr (decide_eq_false ?_)⟩
    · show (digit d).toNat ≠ 32
      omega
    · rw [UInt8.le_iff_toNat_le, hnat]
      show ¬ 48 + d ≤ 13
      omega
  have hminus : digit d ≠ 45 := by
    refine ne_of_toNat_ne ?_
    show (digit d).toNat ≠ 45
    omega
  have hplus : digit d ≠ 43 := by
    refine ne_of_toNat_ne ?_
    show (digit d).toNat ≠ 43
    omega
  rw [hw, List.dropWhile_cons_of_neg (by simp [hspace])]
  unfold sign
  split
  · rename_i heq
    exact absurd (List.cons.inj heq).1 hminus
  · rename_i heq
    exact absurd (List.cons.inj heq).1 hplus
  · rfl

/-- **What `strtoul` makes of a number**, written in any of the three bases. -/
theorem strtoul_write (max : ℕ) (r : Radix) (n : ℕ) :
    strtoul max (r.write n) = min n max := by
  unfold strtoul
  rw [sign_write]
  dsimp only
  rw [magnitude_write, if_neg Bool.false_ne_true]
  split_ifs with h
  · exact (min_eq_right h.le).symm
  · exact (min_eq_left (not_lt.mp h)).symm

/-- A minus counts down from one more than the greatest value. -/
theorem strtoul_minus_write (max : ℕ) (r : Radix) (n : ℕ) :
    strtoul max (45 :: r.write n) = if n > max then max else (max + 1 - n) % (max + 1) := by
  have hsign : sign ((45 :: r.write n).dropWhile isSpace) = (true, r.write n) := by
    rw [List.dropWhile_cons_of_neg (by decide)]
    rfl
  unfold strtoul
  rw [hsign]
  dsimp only
  rw [magnitude_write, if_pos rfl]

/-! ### Rows of numerals -/

/-- Numerals with a separator between them. -/
def writeRow (sep : UInt8) (b : ℕ) (l : List ℕ) : List UInt8 :=
  [sep].intercalate (l.map (numeral b))

/-- The numbers below `bound` of a row of `k` shortest numerals. -/
def readRow (sep : UInt8) (b k bound : ℕ) (s : List UInt8) : Option (List ℕ) :=
  let parts := s.splitOn sep
  if parts.length = k ∧
      ∀ t ∈ parts, t = numeral b (readDigits b t) ∧ readDigits b t < bound then
    some (parts.map (readDigits b))
  else none

/-- **A row is read as the numbers it was written for.** -/
theorem readRow_writeRow {sep : UInt8} {b bound : ℕ} (hb : 1 < b) (hb' : b ≤ 16)
    (hsep : isDigitIn b sep = false) {l : List ℕ} (hl : l ≠ []) (hlt : ∀ n ∈ l, n < bound) :
    readRow sep b l.length bound (writeRow sep b l) = some l := by
  have hread : ∀ n, readDigits b (numeral b n) = n := by
    intro n
    have hrest : ∀ c ∈ ([] : List UInt8).head?, isDigitIn b c = false := by simp
    have h := readDigits_numeral hb hb' n hrest
    rwa [List.append_nil] at h
  have hparts : (writeRow sep b l).splitOn sep = l.map (numeral b) := by
    refine List.splitOn_intercalate sep ?_ (by simpa using hl)
    intro t ht hmem
    obtain ⟨n, -, rfl⟩ := List.mem_map.mp ht
    obtain ⟨d, hd, rfl⟩ := mem_numeral hb hmem
    rw [isDigitIn_digit hb' hd] at hsep
    cases hsep
  unfold readRow
  rw [hparts, if_pos]
  · rw [List.map_map]
    refine congrArg some ?_
    rw [funext hread (f := readDigits b ∘ numeral b) (g := id), List.map_id]
  · refine ⟨List.length_map _, fun t ht => ?_⟩
    obtain ⟨n, hn, rfl⟩ := List.mem_map.mp ht
    rw [hread]
    exact ⟨rfl, hlt n hn⟩

lemma mem_intercalate {sep c : UInt8} {gs : List (List UInt8)} (h : c ∈ [sep].intercalate gs) :
    c = sep ∨ ∃ g ∈ gs, c ∈ g := by
  induction gs with
  | nil => exact absurd h List.not_mem_nil
  | cons g gs ih =>
    cases gs with
    | nil =>
      rw [List.intercalate_singleton] at h
      exact Or.inr ⟨g, List.mem_cons_self, h⟩
    | cons g' gs =>
      rw [List.intercalate_cons_cons, List.append_assoc] at h
      rcases List.mem_append.mp h with hg | h
      · exact Or.inr ⟨g, List.mem_cons_self, hg⟩
      · rcases List.mem_append.mp h with hsep | h
        · exact Or.inl (List.mem_singleton.mp hsep)
        · rcases ih h with hsep | ⟨g'', hg, hc⟩
          · exact Or.inl hsep
          · exact Or.inr ⟨g'', List.mem_cons_of_mem g hg, hc⟩

/-- A row has separators and digits. -/
lemma mem_of_readRow {sep c : UInt8} {b k bound : ℕ} {s : List UInt8} {l : List ℕ} (hb : 1 < b)
    (hb' : b ≤ 16) (h : readRow sep b k bound s = some l) (hc : c ∈ s) :
    c = sep ∨ isDigitIn b c = true := by
  unfold readRow at h
  by_cases hparts : (s.splitOn sep).length = k ∧
      ∀ t ∈ s.splitOn sep, t = numeral b (readDigits b t) ∧ readDigits b t < bound
  · have hs : [sep].intercalate (s.splitOn sep) = s := List.intercalate_splitOn sep
    rw [← hs] at hc
    rcases mem_intercalate hc with hsep | ⟨t, ht, hc⟩
    · exact Or.inl hsep
    · rw [(hparts.2 t ht).1] at hc
      obtain ⟨d, hd, rfl⟩ := mem_numeral hb hc
      exact Or.inr (isDigitIn_digit hb' hd)
  · rw [if_neg hparts] at h
    cases h

/-- A row of more than one number has a separator. -/
lemma sep_mem_of_readRow {sep : UInt8} {b k bound : ℕ} {s : List UInt8} {l : List ℕ} (hk : 1 < k)
    (h : readRow sep b k bound s = some l) : sep ∈ s := by
  by_contra hsep
  have hlen : ¬ (s.splitOn sep).length = k := by
    rw [List.splitOn_eq_singleton hsep, List.length_singleton]
    omega
  unfold readRow at h
  rw [if_neg fun hc => hlen hc.1] at h
  cases h

end SimplePresence.Numeral
