import SimplePresence.Block

/-!
Objects laid out in memory.

The members of a record lie in the order of their declaration, each at the next offset of its
alignment. An object is a block of the size of the record; members do not overlap, so a write
within one leaves the others, and a write past its end changes the members behind it unless
what it spills on them is there already.
-/

namespace SimplePresence.Record

open SimplePresence.Block

/-- The first multiple of `a` from `n` on. -/
def roundUp (n a : ℕ) : ℕ := (n + a - 1) / a * a

lemma le_roundUp (n : ℕ) {a : ℕ} (ha : 0 < a) : n ≤ roundUp n a := by
  have hdiv := Nat.div_add_mod (n + a - 1) a
  have hmod := Nat.mod_lt (n + a - 1) ha
  unfold roundUp
  rw [Nat.mul_comm]
  omega

/-- The members of a record in order of declaration. -/
structure Layout (M : Type*) where
  members : List M
  size : M → ℕ
  align : M → ℕ
  align_pos : ∀ m, 0 < align m

namespace Layout

section Size

variable {M : Type*} (L : Layout M)

/-- The end of the last of the members `l` when they are placed from `pos` on. -/
def endFrom : ℕ → List M → ℕ
  | pos, [] => pos
  | pos, x :: l => endFrom (roundUp pos (L.align x) + L.size x) l

/-- The alignment of the record. -/
def alignment : ℕ := (L.members.map L.align).foldr max 1

def sizeof : ℕ := roundUp (L.endFrom 0 L.members) L.alignment

variable {L}

lemma le_endFrom (pos : ℕ) (l : List M) : pos ≤ L.endFrom pos l := by
  induction l generalizing pos with
  | nil => exact le_refl pos
  | cons x l ih =>
    have hx := le_roundUp pos (L.align_pos x)
    exact hx.trans ((Nat.le_add_right _ _).trans (ih _))

lemma alignment_pos : 0 < L.alignment := by
  unfold alignment
  induction L.members.map L.align with
  | nil => exact Nat.one_pos
  | cons a l ih => exact lt_of_lt_of_le ih (le_max_right a _)

end Size

variable {M : Type*} [DecidableEq M] (L : Layout M)

/-- Where a member lies when the members `l` are placed from `pos` on. -/
def offsetFrom : ℕ → List M → M → ℕ
  | pos, [], _ => pos
  | pos, x :: l, m =>
    if m = x then roundUp pos (L.align x)
    else offsetFrom (roundUp pos (L.align x) + L.size x) l m

def offset (m : M) : ℕ := L.offsetFrom 0 L.members m

variable {L}

lemma le_offsetFrom (pos : ℕ) (l : List M) (m : M) : pos ≤ L.offsetFrom pos l m := by
  induction l generalizing pos with
  | nil => exact le_refl pos
  | cons x l ih =>
    have hx := le_roundUp pos (L.align_pos x)
    rw [offsetFrom]
    split_ifs with h
    · exact hx
    · exact hx.trans ((Nat.le_add_right _ _).trans (ih _))

lemma offsetFrom_add_size_le {pos : ℕ} {l : List M} {m : M} (h : m ∈ l) :
    L.offsetFrom pos l m + L.size m ≤ L.endFrom pos l := by
  induction l generalizing pos with
  | nil => cases h
  | cons x l ih =>
    rw [offsetFrom, endFrom]
    by_cases hx : m = x
    · rw [if_pos hx, hx]
      exact le_endFrom _ l
    · rw [if_neg hx]
      exact ih ((List.mem_cons.mp h).resolve_left hx)

/-- Of two members one ends before the other starts. -/
lemma offsetFrom_disjoint {pos : ℕ} {l : List M} {m n : M} (hm : m ∈ l) (hn : n ∈ l)
    (hne : m ≠ n) : L.offsetFrom pos l m + L.size m ≤ L.offsetFrom pos l n ∨
      L.offsetFrom pos l n + L.size n ≤ L.offsetFrom pos l m := by
  induction l generalizing pos with
  | nil => cases hm
  | cons x l ih =>
    rw [offsetFrom, offsetFrom]
    by_cases hmx : m = x
    · have hnx : ¬ n = x := fun h => hne (hmx.trans h.symm)
      rw [if_pos hmx, if_neg hnx, hmx]
      exact Or.inl (le_offsetFrom _ l n)
    · by_cases hnx : n = x
      · rw [if_neg hmx, if_pos hnx, hnx]
        exact Or.inr (le_offsetFrom _ l m)
      · rw [if_neg hmx, if_neg hnx]
        exact ih ((List.mem_cons.mp hm).resolve_left hmx) ((List.mem_cons.mp hn).resolve_left hnx)

lemma offset_add_size_le {m : M} (h : m ∈ L.members) : L.offset m + L.size m ≤ L.sizeof :=
  (offsetFrom_add_size_le h).trans (le_roundUp _ alignment_pos)

/-- Members do not overlap. -/
lemma offset_disjoint {m n : M} (hm : m ∈ L.members) (hn : n ∈ L.members) (hne : n ≠ m) :
    L.offset m + L.size m ≤ L.offset n ∨ L.offset n + L.size n ≤ L.offset m :=
  offsetFrom_disjoint hm hn hne.symm

end Layout

/-! ### Objects -/

/-- The bytes of an object, those between its members included. -/
@[ext]
structure Object {M : Type*} (L : Layout M) where
  bytes : List UInt8
  size : bytes.length = L.sizeof

namespace Object

variable {M : Type*} [DecidableEq M] {L : Layout M}

/-- The bytes of a member. -/
def member (o : Object L) (m : M) : List UInt8 := read o.bytes (L.offset m) (L.size m)

/-- Bytes written from offset `off` of the object on. -/
def store (o : Object L) (off : ℕ) (bs : List UInt8) : Object L :=
  ⟨write o.bytes off bs, (length_write _ _ _).trans o.size⟩

/-- The object that holds `b` in every byte. -/
def fill (L : Layout M) (b : UInt8) : Object L :=
  ⟨List.replicate L.sizeof b, List.length_replicate⟩

/-- No member but `m` changes. -/
def Frame (m : M) (o o' : Object L) : Prop :=
  ∀ n ∈ L.members, n ≠ m → o'.member n = o.member n

lemma Frame.refl (m : M) (o : Object L) : Frame m o o := fun _ _ _ => rfl

lemma length_member (o : Object L) {m : M} (hm : m ∈ L.members) :
    (o.member m).length = L.size m := by
  have hin := Layout.offset_add_size_le hm
  unfold member
  rw [length_read, o.size]
  omega

lemma member_fill (b : UInt8) {m : M} (hm : m ∈ L.members) :
    (fill L b).member m = List.replicate (L.size m) b := by
  refine List.eq_replicate_iff.mpr ⟨length_member _ hm, fun x hx => ?_⟩
  exact List.eq_of_mem_replicate (List.mem_of_mem_drop (List.mem_of_mem_take hx))

/-- A write within a member leaves the others. -/
lemma member_store_of_within {o : Object L} {m n : M} (hm : m ∈ L.members) (hn : n ∈ L.members)
    (hne : n ≠ m) {d : ℕ} {bs : List UInt8} (hfit : d + bs.length ≤ L.size m) :
    (o.store (L.offset m + d) bs).member n = o.member n := by
  rcases Layout.offset_disjoint hm hn hne with h | h
  · exact read_write_of_le (by omega) _
  · exact read_write_of_ge (by omega)

/-- A frame is not changed by a further write within the member. -/
lemma frame_store_iff_of_within {o o' : Object L} {m : M} (hm : m ∈ L.members) {d : ℕ}
    {bs : List UInt8} (hfit : d + bs.length ≤ L.size m) :
    Frame m o (o'.store (L.offset m + d) bs) ↔ Frame m o o' := by
  refine forall_congr' fun n => forall_congr' fun hn => forall_congr' fun hne => ?_
  rw [member_store_of_within hm hn hne hfit]

/-- **Spill.** A write that starts in a member leaves the others exactly when every member
behind it holds what is spilled on it already. -/
theorem frame_store_iff {o : Object L} {m : M} (hm : m ∈ L.members) {d : ℕ} (hd : d ≤ L.size m)
    (bs : List UInt8) : Frame m o (o.store (L.offset m + d) bs) ↔
      ∀ n ∈ L.members, L.offset m + L.size m ≤ L.offset n →
        n ≠ m → read bs (L.offset n - (L.offset m + d)) (L.size n) <+: o.member n := by
  refine forall_congr' fun n => forall_congr' fun hn => ?_
  constructor
  · intro h hbehind hne
    have hin : L.offset n + L.size n ≤ o.bytes.length := by
      rw [o.size]
      exact Layout.offset_add_size_le hn
    exact (read_write_eq_iff (by omega) hin).mp (h hne)
  · intro h hne
    rcases Layout.offset_disjoint hm hn hne with hbehind | hbefore
    · have hin : L.offset n + L.size n ≤ o.bytes.length := by
        rw [o.size]
        exact Layout.offset_add_size_le hn
      have hoff : L.offset m + d ≤ L.offset n := (Nat.add_le_add_left hd _).trans hbehind
      exact (read_write_eq_iff hoff hin).mpr (h hbehind hne)
    · exact read_write_of_ge (hbefore.trans (Nat.le_add_right _ _))

end Object

end SimplePresence.Record
