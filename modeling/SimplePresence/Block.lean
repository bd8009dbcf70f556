import Mathlib.Data.List.TakeDrop
import Mathlib.Data.List.Infix
import Mathlib.Tactic.Common

/-!
Blocks of memory.

A block is the list of its cells. Cells are written from an offset on and read from an
offset on; a write keeps the length of the block, and reaches no cell past its end.
-/

namespace SimplePresence.Block

variable {α : Type*}

/-- The block with the cells of `bs` from offset `off` on. -/
def write (l : List α) (off : ℕ) (bs : List α) : List α :=
  l.mapIdx fun i x => if off ≤ i then (bs[i - off]?).getD x else x

/-- The `n` cells from offset `off` on. -/
def read (l : List α) (off n : ℕ) : List α := (l.drop off).take n

@[simp] lemma length_write (l : List α) (off : ℕ) (bs : List α) :
    (write l off bs).length = l.length := by
  unfold write
  exact List.length_mapIdx

lemma length_read (l : List α) (off n : ℕ) : (read l off n).length = min n (l.length - off) := by
  simp [read]

lemma read_drop (l : List α) (a off n : ℕ) : read (l.drop a) off n = read l (a + off) n := by
  unfold read
  rw [List.drop_drop]

/-- The cells between others. -/
lemma read_append (a b c : List α) : read (a ++ (b ++ c)) a.length b.length = b := by
  unfold read
  rw [List.drop_left, List.take_left]

lemma read_eq_nil {l : List α} {off : ℕ} (h : l.length ≤ off) (n : ℕ) : read l off n = [] := by
  unfold read
  rw [List.drop_eq_nil_of_le h, List.take_nil]

lemma getElem?_write (l : List α) (off : ℕ) (bs : List α) (i : ℕ) :
    (write l off bs)[i]? =
      l[i]?.map fun x => if off ≤ i then (bs[i - off]?).getD x else x := by
  unfold write
  exact List.getElem?_mapIdx

lemma getElem?_read (l : List α) (off n i : ℕ) :
    (read l off n)[i]? = if i < n then l[off + i]? else none := by
  unfold read
  rw [List.getElem?_take, List.getElem?_drop]

@[simp] lemma write_nil (l : List α) (off : ℕ) : write l off [] = l := by
  refine List.ext_getElem? fun i => ?_
  rw [getElem?_write]
  simp

/-- Past the end of the block nothing is written. -/
lemma write_of_length_le {l : List α} {off : ℕ} (h : l.length ≤ off) (bs : List α) :
    write l off bs = l := by
  refine List.ext_getElem? fun i => ?_
  rw [getElem?_write]
  rcases Nat.lt_or_ge i l.length with hi | hi
  · have hoff : ¬ off ≤ i := by omega
    simp [hoff]
  · rw [List.getElem?_eq_none hi]
    rfl

/-- Cells written one after the other. -/
lemma write_append (l : List α) (off : ℕ) (a b : List α) :
    write l off (a ++ b) = write (write l off a) (off + a.length) b := by
  refine List.ext_getElem? fun i => ?_
  rw [getElem?_write, getElem?_write, getElem?_write, Option.map_map]
  refine congrArg (fun f => l[i]?.map f) (funext fun x => ?_)
  by_cases h₁ : off + a.length ≤ i
  · have h₂ : off ≤ i := by omega
    have h₃ : a.length ≤ i - off := by omega
    have h₄ : i - off - a.length = i - (off + a.length) := by omega
    simp [h₁, h₂, List.getElem?_append_right h₃, List.getElem?_eq_none h₃, h₄]
  · by_cases h₂ : off ≤ i
    · have h₃ : i - off < a.length := by omega
      simp [h₁, h₂, List.getElem?_append_left h₃]
    · simp [h₁, h₂]

lemma getElem?_write_zero {l : List α} (bs : List α) {i : ℕ} (hi : i < l.length) :
    (write l 0 bs)[i]? = if i < bs.length then bs[i]? else l[i]? := by
  rw [getElem?_write, List.getElem?_eq_getElem hi]
  by_cases h : i < bs.length
  · simp [h]
  · simp [h]

/-- A write at the front, and what is left behind it. -/
lemma write_zero (l bs : List α) : write l 0 bs = bs.take l.length ++ l.drop bs.length := by
  induction l generalizing bs with
  | nil => simp [write]
  | cons x l ih =>
    cases bs with
    | nil => rw [write_nil]; rfl
    | cons b bs =>
      have htail : write (x :: l) 0 (b :: bs) = b :: write l 0 bs := by
        simp [write, List.mapIdx_cons]
      rw [htail, ih]
      rfl

lemma write_zero_of_le {l bs : List α} (h : bs.length ≤ l.length) :
    write l 0 bs = bs ++ l.drop bs.length := by
  rw [write_zero, List.take_of_length_le h]

/-- Two blocks become the same under a write exactly when they agree behind it. -/
lemma write_zero_eq_iff {p q : List α} (hlen : p.length = q.length) (bs : List α) :
    write p 0 bs = write q 0 bs ↔ p.drop bs.length = q.drop bs.length := by
  rw [write_zero, write_zero, hlen]
  exact List.append_right_inj _

/-- A write changes nothing exactly when what it writes is there already. -/
lemma write_zero_eq_self_iff {l bs : List α} (h : bs.length ≤ l.length) :
    write l 0 bs = l ↔ bs <+: l := by
  rw [write_zero_of_le h]
  constructor
  · intro heq
    exact ⟨_, heq⟩
  · rintro ⟨t, rfl⟩
    rw [List.drop_left]

/-- What is read is a prefix of a block that starts with as many of the same cells. -/
lemma read_prefix_iff {bs l : List α} {off n k : ℕ} (hk : (read bs off n).length = k) :
    read bs off n <+: l ↔ l.take k = read bs off k := by
  have hkn : k ≤ n := by
    rw [← hk, length_read]
    exact Nat.min_le_left _ _
  have hread : read bs off k = read bs off n := by
    calc read bs off k = (read bs off n).take k := by
          unfold read
          rw [List.take_take, Nat.min_eq_left hkn]
      _ = read bs off n := List.take_of_length_le hk.le
  rw [List.prefix_iff_eq_take, hk, hread]
  exact eq_comm

/-! ### Reading what was written -/

/-- A write that ends before the cells read leaves them. -/
lemma read_write_of_le {l bs : List α} {off o : ℕ} (h : off + bs.length ≤ o) (n : ℕ) :
    read (write l off bs) o n = read l o n := by
  refine List.ext_getElem? fun i => ?_
  have hnone : bs[o + i - off]? = none := List.getElem?_eq_none (by omega)
  rw [getElem?_read, getElem?_read, getElem?_write, hnone]
  simp

/-- A write that starts behind the cells read leaves them. -/
lemma read_write_of_ge {l bs : List α} {off o n : ℕ} (h : o + n ≤ off) :
    read (write l off bs) o n = read l o n := by
  refine List.ext_getElem? fun i => ?_
  rw [getElem?_read, getElem?_read]
  split_ifs with hi
  · have hoff : ¬ off ≤ o + i := by omega
    rw [getElem?_write]
    simp [hoff]
  · rfl

/-- The cells read from a write that starts before them. -/
lemma read_write (l bs : List α) {off o : ℕ} (h : off ≤ o) (n : ℕ) :
    read (write l off bs) o n = write (read l o n) 0 (read bs (o - off) n) := by
  refine List.ext_getElem? fun i => ?_
  rw [getElem?_write, getElem?_read, getElem?_read l, getElem?_write]
  have hoff : off ≤ o + i := by omega
  have hsub : o + i - off = o - off + i := by omega
  by_cases hi : i < n
  · simp [getElem?_read, hi, hoff, hsub]
  · simp [hi]

/-- The cells read from a write that starts among them. -/
lemma read_write_of_start (l bs : List α) {off o : ℕ} (h : o ≤ off) (n : ℕ) :
    read (write l off bs) o n = write (read l o n) (off - o) bs := by
  refine List.ext_getElem? fun i => ?_
  rw [getElem?_write, getElem?_read, getElem?_read l, getElem?_write]
  by_cases hi : i < n
  · have hiff : off ≤ o + i ↔ off - o ≤ i := by omega
    have hsub : o + i - off = i - (off - o) := by omega
    simp [hi, hiff, hsub]
  · simp [hi]

/-- Writing what is there already changes nothing. -/
lemma write_read (l : List α) (off n : ℕ) : write l off (read l off n) = l := by
  refine List.ext_getElem? fun i => ?_
  rw [getElem?_write]
  cases hi : l[i]? with
  | none => rfl
  | some x =>
    refine congrArg some ?_
    split_ifs with hoff
    · have hadd : off + (i - off) = i := by omega
      rw [getElem?_read, hadd, hi]
      split_ifs <;> rfl
    · rfl

/-- Within a write that fits, what was written is read. -/
lemma read_write_of_within {l bs : List α} {off o n : ℕ} (h : off ≤ o)
    (hbs : o + n ≤ off + bs.length) (hfit : off + bs.length ≤ l.length) :
    read (write l off bs) o n = read bs (o - off) n := by
  have hlen : (read l o n).length = (read bs (o - off) n).length := by
    rw [length_read, length_read]
    omega
  rw [read_write l bs h, write_zero_of_le hlen.ge, List.drop_eq_nil_of_le hlen.le,
    List.append_nil]

/-- A write that fits is read back. -/
lemma read_write_self {l bs : List α} {off : ℕ} (h : off + bs.length ≤ l.length) :
    read (write l off bs) off bs.length = bs := by
  rw [read_write_of_within le_rfl le_rfl h, Nat.sub_self]
  exact List.take_length

/-- The cells read keep what they hold exactly when what the write spills on them is there
already. -/
lemma read_write_eq_iff {l bs : List α} {off o n : ℕ} (h : off ≤ o) (hin : o + n ≤ l.length) :
    read (write l off bs) o n = read l o n ↔ read bs (o - off) n <+: read l o n := by
  have hlen : (read bs (o - off) n).length ≤ (read l o n).length := by
    rw [length_read, length_read]
    omega
  rw [read_write l bs h, write_zero_eq_self_iff hlen]

end SimplePresence.Block
