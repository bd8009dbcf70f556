import Mathlib.Data.List.InsertIdx
import Mathlib.Data.List.Sort
import Mathlib.Order.Basic
import Mathlib.Tactic.Common

/-!
Ordered maps with iterators.

An ordered map is its list of entries in key order. An iterator is a position in that
order; the position past the last entry is the end. Erasing at a position leaves the
position standing at the entry that followed the erased one.
-/

namespace SimplePresence.OrderedMap

/-- What an iterator can be asked for that the container does not answer. -/
inductive Fault
  | derefEnd
  | incrementEnd
  | outOfFuel
  deriving DecidableEq, Repr

/-- The entries of an ordered map, each key once and in increasing order. -/
@[ext]
structure Map (K V : Type*) [LinearOrder K] where
  entries : List (K × V)
  sorted : entries.Pairwise fun a b => a.1 < b.1

variable {K V : Type*} [LinearOrder K]

/-! ### Insertion into a sorted list of entries -/

/-- `insertEntry k v l` puts `v` under `k`, in place of what stood there. -/
def insertEntry (k : K) (v : V) : List (K × V) → List (K × V)
  | [] => [(k, v)]
  | e :: l =>
    if k < e.1 then (k, v) :: e :: l
    else if e.1 < k then e :: insertEntry k v l
    else (k, v) :: l

lemma key_of_mem_insertEntry {k : K} {v : V} {e : K × V} {l : List (K × V)}
    (h : e ∈ insertEntry k v l) : e = (k, v) ∨ e ∈ l := by
  induction l with
  | nil => left; simpa [insertEntry] using h
  | cons a l ih =>
    rw [insertEntry] at h
    split_ifs at h with h1 h2
    · simpa using h
    · rcases List.mem_cons.mp h with rfl | h'
      · simp
      · rcases ih h' with h'' | h''
        · exact Or.inl h''
        · exact Or.inr (List.mem_cons_of_mem _ h'')
    · rcases List.mem_cons.mp h with rfl | h'
      · exact Or.inl rfl
      · exact Or.inr (List.mem_cons_of_mem _ h')

lemma sorted_insertEntry {k : K} {v : V} {l : List (K × V)}
    (h : l.Pairwise fun a b => a.1 < b.1) :
    (insertEntry k v l).Pairwise fun a b => a.1 < b.1 := by
  induction l with
  | nil => simp [insertEntry]
  | cons a l ih =>
    obtain ⟨ha, hl⟩ := List.pairwise_cons.mp h
    rw [insertEntry]
    split_ifs with h1 h2
    · refine List.pairwise_cons.mpr ⟨fun e he => ?_, h⟩
      rcases List.mem_cons.mp he with rfl | he'
      · exact h1
      · exact h1.trans (ha e he')
    · refine List.pairwise_cons.mpr ⟨fun e he => ?_, ih hl⟩
      rcases key_of_mem_insertEntry he with rfl | he'
      · exact h2
      · exact ha e he'
    · have hk : a.1 = k := le_antisymm (not_lt.mp h1) (not_lt.mp h2)
      exact List.pairwise_cons.mpr ⟨fun e he => hk ▸ ha e he, hl⟩

lemma countP_insertEntry_le (p : K × V → Bool) (k : K) (v : V) (l : List (K × V)) :
    (insertEntry k v l).countP p ≤ l.countP p + if p (k, v) then 1 else 0 := by
  induction l with
  | nil =>
    rw [insertEntry, List.countP_cons]
  | cons e l ih =>
    rw [insertEntry]
    by_cases h₁ : k < e.1
    · rw [if_pos h₁, List.countP_cons]
    rw [if_neg h₁]
    by_cases h₂ : e.1 < k
    · rw [if_pos h₂, List.countP_cons, List.countP_cons]
      omega
    · rw [if_neg h₂, List.countP_cons, List.countP_cons]
      omega

lemma mem_insertEntry {k : K} {v : V} {e : K × V} {l : List (K × V)}
    (h : l.Pairwise fun a b => a.1 < b.1) :
    e ∈ insertEntry k v l ↔ e = (k, v) ∨ e ∈ l ∧ e.1 ≠ k := by
  induction l with
  | nil => simp [insertEntry]
  | cons a l ih =>
    obtain ⟨ha, hl⟩ := List.pairwise_cons.mp h
    rw [insertEntry]
    split_ifs with h1 h2
    · have hne : ∀ b ∈ a :: l, b.1 ≠ k := by
        intro b hb
        rcases List.mem_cons.mp hb with rfl | hb'
        · exact h1.ne'
        · exact (h1.trans (ha b hb')).ne'
      rw [List.mem_cons]
      exact or_congr_right ⟨fun he => ⟨he, hne e he⟩, fun he => he.1⟩
    · rw [List.mem_cons, ih hl, List.mem_cons]
      constructor
      · rintro (rfl | rfl | ⟨he, hk⟩)
        · exact Or.inr ⟨Or.inl rfl, h2.ne⟩
        · exact Or.inl rfl
        · exact Or.inr ⟨Or.inr he, hk⟩
      · rintro (rfl | ⟨rfl | he, hk⟩)
        · exact Or.inr (Or.inl rfl)
        · exact Or.inl rfl
        · exact Or.inr (Or.inr ⟨he, hk⟩)
    · have hk : a.1 = k := le_antisymm (not_lt.mp h1) (not_lt.mp h2)
      rw [List.mem_cons, List.mem_cons]
      constructor
      · rintro (rfl | he)
        · exact Or.inl rfl
        · exact Or.inr ⟨Or.inr he, fun h' => (ha e he).ne (hk.trans h'.symm)⟩
      · rintro (rfl | ⟨rfl | he, hne⟩)
        · exact Or.inl rfl
        · exact absurd hk hne
        · exact Or.inr he

/-! ### Maps and iterators -/

namespace Map

def empty : Map K V := ⟨[], List.Pairwise.nil⟩

@[simp] lemma entries_empty : (empty : Map K V).entries = [] := rfl

def size (m : Map K V) : ℕ := m.entries.length

def begin (_ : Map K V) : ℕ := 0

def endPos (m : Map K V) : ℕ := m.size

def deref (m : Map K V) (it : ℕ) : Option (K × V) := m.entries[it]?

/-- Erasing at a position; the same position then holds the entry that followed. -/
def erase (m : Map K V) (it : ℕ) : Map K V :=
  ⟨m.entries.eraseIdx it, m.sorted.sublist (List.eraseIdx_sublist _ _)⟩

/-- The position of a key, the end when it is absent. -/
def find (m : Map K V) (k : K) : ℕ := m.entries.findIdx fun e => e.1 = k

lemma entries_erase (m : Map K V) (it : ℕ) : (m.erase it).entries = m.entries.eraseIdx it := rfl

variable (m : Map K V)

def insert (k : K) (v : V) : Map K V := ⟨insertEntry k v m.entries, sorted_insertEntry m.sorted⟩

/-- After an insertion the map holds the new entry and the old ones of every other key. -/
lemma mem_insert {k : K} {v : V} {e : K × V} :
    e ∈ (m.insert k v).entries ↔ e = (k, v) ∨ e ∈ m.entries ∧ e.1 ≠ k :=
  mem_insertEntry m.sorted

variable {m}

/-- A key has one entry. -/
lemma eq_of_mem {e e' : K × V} (h : e ∈ m.entries) (h' : e' ∈ m.entries) (hk : e.1 = e'.1) :
    e = e' := by
  have hkeys : (m.entries.map Prod.fst).Nodup := List.pairwise_map.mpr (m.sorted.imp ne_of_lt)
  exact List.inj_on_of_nodup_map hkeys h h' hk

/-- Sorted lists of entries with the same members are the same. -/
lemma entries_ext {l l' : List (K × V)} (h : l.Pairwise fun a b => a.1 < b.1)
    (h' : l'.Pairwise fun a b => a.1 < b.1) (hmem : ∀ e, e ∈ l ↔ e ∈ l') : l = l' := by
  have hnd : ∀ {q : List (K × V)}, (q.Pairwise fun a b => a.1 < b.1) → q.Nodup := fun hq =>
    hq.imp fun hab he => absurd (congrArg Prod.fst he) hab.ne
  have hperm : l.Perm l' := (List.perm_ext_iff_of_nodup (hnd h) (hnd h')).mpr hmem
  exact hperm.eq_of_pairwise (fun a b _ _ hab hba => absurd hab hba.asymm) h h'

lemma deref_find_eq_some {k : K} {e : K × V} :
    m.deref (m.find k) = some e ↔ e ∈ m.entries ∧ e.1 = k := by
  unfold deref find
  constructor
  · intro h
    obtain ⟨hlt, rfl⟩ := List.getElem?_eq_some_iff.mp h
    exact ⟨List.getElem_mem _, by simpa using List.findIdx_getElem (w := hlt)⟩
  · rintro ⟨he, hk⟩
    have hlt : m.entries.findIdx (fun a => a.1 = k) < m.entries.length :=
      List.findIdx_lt_length_of_exists ⟨e, he, by simpa using hk⟩
    rw [List.getElem?_eq_getElem hlt, Option.some_inj]
    have hkey : (m.entries[m.entries.findIdx fun a => a.1 = k]).1 = k := by
      simpa using List.findIdx_getElem (w := hlt)
    exact eq_of_mem (List.getElem_mem _) he (hkey.trans hk.symm)

lemma deref_find_eq_none {k : K} : m.deref (m.find k) = none ↔ ∀ e ∈ m.entries, e.1 ≠ k := by
  constructor
  · intro h e he hk
    have := deref_find_eq_some.mpr ⟨he, hk⟩
    rw [h] at this
    cases this
  · intro h
    cases hd : m.deref (m.find k) with
    | none => rfl
    | some e =>
      obtain ⟨he, hk⟩ := deref_find_eq_some.mp hd
      exact absurd hk (h e he)

/-- Erasing at the position of a key removes the entry of that key and no other. -/
lemma mem_erase_find {k : K} {e : K × V} :
    e ∈ (m.erase (m.find k)).entries ↔ e ∈ m.entries ∧ e.1 ≠ k := by
  rw [entries_erase, List.mem_eraseIdx_iff_getElem?]
  constructor
  · rintro ⟨i, hi, hget⟩
    refine ⟨List.mem_of_getElem? hget, fun hk => hi ?_⟩
    have hf := deref_find_eq_some.mpr ⟨List.mem_of_getElem? hget, hk⟩
    have hnd : m.entries.Nodup := m.sorted.imp fun hab h => absurd (congrArg Prod.fst h) hab.ne
    exact (List.getElem?_inj (List.getElem?_eq_some_iff.mp hget).1 hnd).mp (hget.trans hf.symm)
  · rintro ⟨he, hk⟩
    obtain ⟨i, hlt, hget⟩ := List.getElem_of_mem he
    refine ⟨i, ?_, by rw [List.getElem?_eq_getElem hlt, hget]⟩
    rintro rfl
    have := deref_find_eq_some.mp (show m.deref (m.find k) = some e by
      rw [deref, List.getElem?_eq_getElem hlt, hget])
    exact hk this.2

end Map

/-! ### Another value under each key -/

section MapVal

variable {W : Type*} (f : V → W)

lemma insertEntry_map (k : K) (v : V) (l : List (K × V)) :
    insertEntry k (f v) (l.map (Prod.map id f)) = (insertEntry k v l).map (Prod.map id f) := by
  induction l with
  | nil => rfl
  | cons e l ih =>
    rw [List.map_cons, insertEntry, insertEntry, Prod.map_fst, id, ih]
    split_ifs <;> rfl

/-- The map with `f` of each value. -/
def Map.mapVal (m : Map K V) : Map K W :=
  ⟨m.entries.map (Prod.map id f), List.pairwise_map.mpr m.sorted⟩

lemma Map.mapVal_insert (m : Map K V) (k : K) (v : V) :
    (m.mapVal f).insert k (f v) = (m.insert k v).mapVal f :=
  Map.ext (insertEntry_map f k v m.entries)

lemma Map.find_mapVal (m : Map K V) (k : K) : (m.mapVal f).find k = m.find k := by
  show List.findIdx _ (m.entries.map (Prod.map id f)) = _
  rw [List.findIdx_map]
  rfl

lemma Map.mapVal_erase (m : Map K V) (it : ℕ) : (m.mapVal f).erase it = (m.erase it).mapVal f :=
  Map.ext (List.eraseIdx_map _ _ _)

end MapVal

/-! ### The end of the order -/

section Order

variable {K V : Type*} [LinearOrder K] {l : List (K × V)} {e e' : K × V}

/-- The greatest key comes last. -/
lemma exists_append_of_max (hl : l.Pairwise fun a b => a.1 < b.1) (he : e ∈ l)
    (hmax : ∀ x ∈ l, x.1 ≤ e.1) : ∃ l', l = l' ++ [e] := by
  obtain ⟨l₁, l₂, rfl⟩ := List.append_of_mem he
  obtain ⟨-, hcons, -⟩ := List.pairwise_append.mp hl
  cases l₂ with
  | nil => exact ⟨l₁, rfl⟩
  | cons x l₂ =>
    have hlt := (List.pairwise_cons.mp hcons).1 x List.mem_cons_self
    have hle := hmax x (List.mem_append_right _ (List.mem_cons_of_mem _ List.mem_cons_self))
    exact absurd hlt hle.not_gt

/-- The key below the greatest comes before it. -/
lemma exists_append_of_covers (hl : l.Pairwise fun a b => a.1 < b.1) (he : e ∈ l) (he' : e' ∈ l)
    (hlt : e.1 < e'.1) (hmax : ∀ x ∈ l, x.1 ≤ e'.1) (hcov : ∀ x ∈ l, x.1 < e'.1 → x.1 ≤ e.1) :
    ∃ l', l = l' ++ [e, e'] := by
  obtain ⟨l₁, rfl⟩ := exists_append_of_max hl he' hmax
  obtain ⟨hl₁, -, hbelow⟩ := List.pairwise_append.mp hl
  have he₁ : e ∈ l₁ := by
    rcases List.mem_append.mp he with h | h
    · exact h
    · obtain rfl := List.mem_singleton.mp h
      exact absurd hlt (lt_irrefl _)
  obtain ⟨l₂, rfl⟩ := exists_append_of_max hl₁ he₁ fun x hx => by
    refine hcov x (List.mem_append_left _ hx) ?_
    exact hbelow x hx e' List.mem_cons_self
  exact ⟨l₂, by rw [List.append_assoc]; rfl⟩

end Order

end SimplePresence.OrderedMap
