import Mathlib.Data.List.Basic
import Mathlib.Data.List.Nodup
import Mathlib.Algebra.GroupWithZero.Nat
import Mathlib.Tactic.Common

/-!
Memory that is handed out, given back, and owned.

A table has one entry a key; a heap is a table of blocks by address. Who may still use or free
a block is said by a list of blocks that the heap consists of: what is handed out joins the
list, what is given back leaves it, and what is on it can be used.
-/

namespace SimplePresence.Memory

variable {A B : Type*}

/-- Entries by key. -/
@[ext]
structure Table (A B : Type*) where
  entries : List (A × B)
  nodup : (entries.map Prod.fst).Nodup

namespace Table

def empty : Table A B := ⟨[], List.nodup_nil⟩

@[simp] lemma entries_empty : (empty : Table A B).entries = [] := rfl

lemma eq_of_mem {t : Table A B} {a : A} {b b' : B} (h : (a, b) ∈ t.entries)
    (h' : (a, b') ∈ t.entries) : b = b' :=
  congrArg Prod.snd (List.inj_on_of_nodup_map t.nodup h h' rfl)

/-- The same keys with other values. -/
def map {C : Type*} (t : Table A B) (f : B → C) : Table A C where
  entries := t.entries.map fun e => (e.1, f e.2)
  nodup := by
    rw [List.map_map]
    exact t.nodup

variable [DecidableEq A]

def get (t : Table A B) (a : A) : Option B := (t.entries.find? fun e => e.1 = a).map Prod.snd

def remove (t : Table A B) (a : A) : Table A B :=
  ⟨t.entries.filter fun e => e.1 ≠ a, t.nodup.sublist (List.filter_sublist.map Prod.fst)⟩

def put (t : Table A B) (a : A) (b : B) : Table A B :=
  ⟨(a, b) :: (t.remove a).entries, List.nodup_cons.mpr ⟨by simp [remove], (t.remove a).nodup⟩⟩

variable {t : Table A B} {a a' : A} {b b' : B}

lemma get_eq_some : t.get a = some b ↔ (a, b) ∈ t.entries := by
  unfold get
  constructor
  · intro h
    obtain ⟨⟨a₁, b₁⟩, he, rfl⟩ := Option.map_eq_some_iff.mp h
    have ha : a₁ = a := by simpa using List.find?_some he
    exact ha ▸ List.mem_of_find?_eq_some he
  · intro h
    rcases hf : t.entries.find? (fun e => e.1 = a) with _ | ⟨a₁, b₁⟩
    · exact absurd (List.find?_eq_none.mp hf (a, b) h) (by simp)
    · have ha : a₁ = a := by simpa using List.find?_some hf
      have hm := List.mem_of_find?_eq_some hf
      rw [hf]
      exact congrArg some (t.eq_of_mem (ha ▸ hm) h)

lemma get_eq_none : t.get a = none ↔ a ∉ t.entries.map Prod.fst := by
  constructor
  · intro h hm
    obtain ⟨⟨a₁, b⟩, he, rfl⟩ := List.mem_map.mp hm
    rw [get_eq_some.mpr he] at h
    cases h
  · intro h
    rcases hg : t.get a with _ | b
    · rfl
    · exact absurd (List.mem_map.mpr ⟨_, get_eq_some.mp hg, rfl⟩) h

lemma mem_remove {e : A × B} : e ∈ (t.remove a).entries ↔ e ∈ t.entries ∧ e.1 ≠ a := by
  simp [remove]

lemma get_of_get_remove (h : (t.remove a).get a' = some b) : t.get a' = some b :=
  get_eq_some.mpr (mem_remove.mp (get_eq_some.mp h)).1

/-- A table is an entry of it and the rest. -/
lemma perm_remove (h : (a, b) ∈ t.entries) :
    t.entries.Perm ((a, b) :: (t.remove a).entries) := by
  have hnd := t.nodup
  unfold remove
  dsimp only
  generalize t.entries = l at h hnd
  induction l with
  | nil => cases h
  | cons e l ih =>
    rw [List.map_cons, List.nodup_cons] at hnd
    rcases List.mem_cons.mp h with rfl | h
    · have hrest : l.filter (fun e => e.1 ≠ a) = l := by
        refine List.filter_eq_self.mpr fun e he => ?_
        have hne : e.1 ≠ a := fun hea => hnd.1 (List.mem_map.mpr ⟨e, he, hea⟩)
        simpa using hne
      rw [List.filter_cons_of_neg (by simp), hrest]
    · have hne : e.1 ≠ a := by
        rintro rfl
        exact hnd.1 (List.mem_map.mpr ⟨_, h, rfl⟩)
      rw [List.filter_cons_of_pos (by simpa using hne)]
      exact ((ih h hnd.2).cons e).trans (List.Perm.swap _ _ _)

lemma remove_of_get_eq_none (h : t.get a = none) : (t.remove a).entries = t.entries := by
  refine List.filter_eq_self.mpr fun e he => ?_
  have hne : e.1 ≠ a := fun hea =>
    get_eq_none.mp h (List.mem_map.mpr ⟨e, he, hea⟩)
  simpa using hne

lemma entries_put : (t.put a b).entries = (a, b) :: (t.remove a).entries := rfl

lemma entries_put_new (h : t.get a = none) : (t.put a b).entries = (a, b) :: t.entries := by
  rw [entries_put, remove_of_get_eq_none h]

/-- The sum of a table of numbers. -/
def total (t : Table A ℕ) : ℕ := (t.entries.map Prod.snd).sum

lemma total_remove {t : Table A ℕ} {n : ℕ} (h : t.get a = some n) :
    n + (t.remove a).total = t.total := by
  have hperm := (perm_remove (get_eq_some.mp h)).map Prod.snd
  unfold total
  rw [hperm.sum_nat, List.map_cons, List.sum_cons]

lemma total_put (t : Table A ℕ) (a : A) (n : ℕ) :
    (t.put a n).total = n + (t.remove a).total := by
  unfold total
  rw [entries_put, List.map_cons, List.sum_cons]

lemma total_put_le (t : Table A ℕ) (a : A) (n : ℕ) : (t.put a n).total ≤ n + t.total := by
  rw [total_put]
  rcases hg : t.get a with _ | m
  · have hsame : (t.remove a).total = t.total := by
      unfold total
      rw [remove_of_get_eq_none hg]
    omega
  · have hrest := total_remove hg
    omega

end Table

/-! ### The heap -/

/-- What a program can do wrong with a pointer. -/
inductive BadPointer
  /-- It is null. -/
  | null
  /-- It points to no block: to none ever, or to one that was freed. -/
  | dead
  deriving DecidableEq, Repr

abbrev Heap (A B : Type*) := Table A B

namespace Heap

section

variable [DecidableEq A]

/-- `malloc`: it returns `p`, when no block lies there, or a null pointer. -/
def malloc (h : Heap A B) (p : Option A) (b : B) : Option A × Heap A B :=
  match p with
  | none => (none, h)
  | some p => if (h.get p).isSome then (none, h) else (some p, h.put p b)

/-- `free` of a pointer that is not null. -/
def free (h : Heap A B) (p : A) : Except BadPointer (Heap A B) :=
  match h.get p with
  | none => .error .dead
  | some _ => .ok (h.remove p)

def load (h : Heap A B) (p : A) : Except BadPointer B :=
  match h.get p with
  | none => .error .dead
  | some b => .ok b

def store (h : Heap A B) (p : A) (b : B) : Except BadPointer (Heap A B) :=
  match h.get p with
  | none => .error .dead
  | some _ => .ok (h.put p b)

end

/-- The heap consists of the blocks of a list. -/
def Owned (h : Heap A B) (l : List (A × B)) : Prop := h.entries.Perm l

lemma owned_empty : Owned (Table.empty : Heap A B) [] := List.Perm.refl _

section Owned

variable {h : Heap A B} {l l' : List (A × B)} {p : A} {b b' : B}

lemma Owned.perm (ho : Owned h l) (hl : l.Perm l') : Owned h l' := ho.trans hl

lemma Owned.nodup (ho : Owned h l) : (l.map Prod.fst).Nodup :=
  (ho.map Prod.fst).nodup_iff.mp h.nodup

variable [DecidableEq A]

lemma Owned.get (ho : Owned h l) (hm : (p, b) ∈ l) : h.get p = some b :=
  Table.get_eq_some.mpr (ho.mem_iff.mpr hm)

/-- What `malloc` hands out is new, and owned. -/
lemma malloc_cases (ho : Owned h l) (p : Option A) (b : B) :
    h.malloc p b = (none, h) ∨
      ∃ q h', h.malloc p b = (some q, h') ∧ Owned h' ((q, b) :: l) := by
  rcases p with _ | q
  · exact Or.inl rfl
  · rcases hg : h.get q with _ | b'
    · refine Or.inr ⟨q, h.put q b, by simp [malloc, hg], ?_⟩
      unfold Owned
      rw [Table.entries_put_new hg]
      exact ho.cons _
    · exact Or.inl (by simp [malloc, hg])

/-- What is owned can be freed, once. -/
lemma Owned.free (ho : Owned h ((p, b) :: l)) : ∃ h', h.free p = .ok h' ∧ Owned h' l := by
  have hg := ho.get List.mem_cons_self
  refine ⟨h.remove p, by simp [Heap.free, hg], ?_⟩
  have hp := (Table.perm_remove (Table.get_eq_some.mp hg)).symm.trans ho
  exact (List.perm_cons _).mp hp

lemma Owned.load (ho : Owned h l) (hm : (p, b) ∈ l) : h.load p = .ok b := by
  simp [Heap.load, ho.get hm]

lemma Owned.store (ho : Owned h ((p, b) :: l)) (b' : B) :
    ∃ h', h.store p b' = .ok h' ∧ Owned h' ((p, b') :: l) := by
  have hg := ho.get List.mem_cons_self
  refine ⟨h.put p b', by simp [Heap.store, hg], ?_⟩
  have hp := (Table.perm_remove (Table.get_eq_some.mp hg)).symm.trans ho
  unfold Owned
  rw [Table.entries_put]
  exact ((List.perm_cons _).mp hp).cons _

end Owned

end Heap

end SimplePresence.Memory
