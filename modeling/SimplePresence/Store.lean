import SimplePresence.Query
import SimplePresence.Sweep
import Mathlib.Tactic.Linarith

/-!
The store of records, and its cleaner.

The cleaner is the `for` loop of the source over iterators of the map: the erased entry's
iterator is replaced by the one that follows, and the header of the loop then increments it.
The loop is related here, once, to the walk of `Sweep`; what it erases, when it is defined
and when it is exact are read off that walk.

How old a record is at a reading of the clock is an integer here. The 64 bits the program has
for it, and when they make no difference, are the subject of `Clock`.
-/

namespace SimplePresence.Store

open SimplePresence.Uid SimplePresence.Item SimplePresence.OrderedMap SimplePresence.Query
open SimplePresence.Sweep

def defExpirationSec : ℤ := 180

structure PresenceItemRec where
  modified : TaskTime
  addr : Sockaddr
  deriving DecidableEq, Repr

/-- `PresenceItemRec::expired`, with a difference that does not wrap. -/
def PresenceItemRec.expired (r : PresenceItemRec) (since : TaskTime) : Bool :=
  decide (seconds (since - r.modified) > defExpirationSec)

lemma expired_eq_false {r : PresenceItemRec} {since : TaskTime} :
    r.expired since = false ↔ seconds (since - r.modified) ≤ 180 := by
  unfold PresenceItemRec.expired defExpirationSec
  rw [decide_eq_false_iff_not, not_lt]

lemma expired_eq_false_iff {r : PresenceItemRec} {since : TaskTime} :
    r.expired since = false ↔ since - r.modified < 181 * ticksPerSec := by
  rw [expired_eq_false, seconds_le_iff (by decide)]
  exact Iff.rfl

/-- An expired record stays expired: one that is not has never been. -/
lemma unexpired_mono {r : PresenceItemRec} {t t' : TaskTime} (h : t ≤ t')
    (he : r.expired t' = false) : r.expired t = false := by
  rw [expired_eq_false_iff] at he ⊢
  linarith

abbrev Storage := Map UID PresenceItemRec

section Clean

variable (expired : PresenceItemRec → Bool)

/-- The `for` loop of `MemPresence::cleanExpired` from iterator `it` on, with what `expired`
answers in it. -/
def cleanLoop : ℕ → Storage → ℕ → Except Fault Storage
  | 0, _, _ => .error .outOfFuel
  | fuel + 1, storage, it =>
    if it = storage.endPos then .ok storage
    else
      match storage.deref it with
      | none => .error .derefEnd
      | some e =>
        -- `it = storage.erase(it)`: the position now holds the entry that followed
        let storage := if expired e.2 then storage.erase it else storage
        -- `it++` in the header
        if it = storage.endPos then .error .incrementEnd
        else cleanLoop fuel storage (it + 1)

def cleanBy (storage : Storage) : Except Fault Storage :=
  cleanLoop expired (storage.size + 1) storage storage.begin

end Clean

/-- The entries the cleaner is after. -/
abbrev stale (now : TaskTime) (e : UID × PresenceItemRec) : Bool := e.2.expired now

/-- `MemPresence::cleanExpired`, at the reading `now`. -/
def cleanExpired (storage : Storage) (now : TaskTime) : Except Fault Storage :=
  cleanBy (fun r => r.expired now) storage

/-- The class `MemPresence`, for any way to tell whether a record is expired at a reading. -/
structure MemPresenceBy (expired : PresenceItemRec → TaskTime → Bool) where
  storage : Storage

namespace MemPresenceBy

variable {expired : PresenceItemRec → TaskTime → Bool}

/-- `MemPresence::get`. -/
def get (s : MemPresenceBy expired) (now : TaskTime) (item : PresenceItem) :
    Bool × PresenceItem × MemPresenceBy expired :=
  let it := s.storage.find item.uid
  match s.storage.deref it with
  | none => (false, item, s)
  | some e =>
    if expired e.2 now then (false, item, ⟨s.storage.erase it⟩)
    else (true, { item with addr := e.2.addr, modified := e.2.modified }, s)

/-- The map as `put` hands it to the cleaner. -/
def stored (s : MemPresenceBy expired) (item : PresenceItem) : Storage :=
  let r : PresenceItemRec := ⟨item.modified, item.addr⟩
  s.storage.insert item.uid r

/-- `MemPresence::put`. -/
def put (s : MemPresenceBy expired) (now : TaskTime) (item : PresenceItem) :
    Except Fault (MemPresenceBy expired) :=
  match cleanBy (fun r => expired r now) (s.stored item) with
  | .error e => .error e
  | .ok storage => .ok ⟨storage⟩

instance : Presence (MemPresenceBy expired) := ⟨get, put⟩

end MemPresenceBy

/-- The store, on a clock whose differences are integers. -/
abbrev MemPresence := MemPresenceBy PresenceItemRec.expired

abbrev MemPresence.empty : MemPresence := ⟨Map.empty⟩

/-! ### The loop is the walk -/

lemma erase_append {m : Storage} {pre rest : List (UID × PresenceItemRec)}
    {e : UID × PresenceItemRec} (h : m.entries = pre ++ e :: rest) :
    (m.erase pre.length).entries = pre ++ rest := by
  rw [Map.entries_erase, h, List.eraseIdx_append_of_length_le (le_refl _)]
  simp

lemma endPos_append {m : Storage} {pre rest : List (UID × PresenceItemRec)}
    (h : m.entries = pre ++ rest) : pre.length = m.endPos ↔ rest = [] := by
  unfold Map.endPos Map.size
  rw [h, List.length_append, ← List.length_eq_zero_iff]
  omega

/-- From any iterator on, the loop leaves what is before it and walks what is after it. The
induction is on the fuel; an iteration takes one entry of the rest, or two. -/
lemma cleanLoop_eq (expired : PresenceItemRec → Bool) (fuel : ℕ) {m : Storage}
    {pre rest : List (UID × PresenceItemRec)} (hm : m.entries = pre ++ rest)
    (hf : rest.length < fuel) :
    (cleanLoop expired fuel m pre.length).map Map.entries =
      match sweep (fun e => expired e.2) rest with
      | none => .error .incrementEnd
      | some r => .ok (pre ++ r) := by
  induction fuel generalizing m pre rest with
  | zero => omega
  | succ fuel ih =>
    rw [cleanLoop]
    cases rest with
    | nil =>
      rw [if_pos ((endPos_append hm).mpr rfl)]
      simp [Except.map, sweep, hm]
    | cons a rest =>
      have hd : m.deref pre.length = some a := by simp [Map.deref, hm]
      rw [if_neg (by rw [endPos_append hm]; simp), hd]
      simp only [List.length_cons] at hf
      by_cases ha : expired a.2 = true
      · -- erased; the header then steps over the entry that followed, if there is one
        have he := erase_append hm
        simp only [ha, if_true]
        cases rest with
        | nil =>
          rw [if_pos ((endPos_append he).mpr rfl), sweep, if_pos ha]
          rfl
        | cons b rest =>
          have hb : (m.erase pre.length).entries = (pre ++ [b]) ++ rest := by simp [he]
          have := ih hb (by simp only [List.length_cons] at hf; omega)
          rw [if_neg (by rw [endPos_append he]; simp), sweep, if_pos ha]
          simp only [List.length_append, List.length_singleton] at this
          rw [this]
          cases sweep (fun e => expired e.2) rest <;> simp
      · have hs := sweep_cons_neg (fun e : UID × PresenceItemRec => expired e.2)
          (Bool.eq_false_iff.mpr ha) rest
        have hb : m.entries = (pre ++ [a]) ++ rest := by simp [hm]
        have := ih hb (by omega)
        simp only [ha, Bool.false_eq_true, if_false]
        rw [if_neg (by rw [endPos_append hm]; simp), hs]
        simp only [List.length_append, List.length_singleton] at this
        rw [this]
        cases sweep (fun e => expired e.2) rest <;> simp

section Clean

variable {expired : PresenceItemRec → Bool} {storage storage' : Storage}

lemma cleanBy_eq (expired : PresenceItemRec → Bool) (storage : Storage) :
    (cleanBy expired storage).map Map.entries =
      match sweep (fun e => expired e.2) storage.entries with
      | none => .error .incrementEnd
      | some r => .ok r := by
  have hm : storage.entries = [] ++ storage.entries := rfl
  have := cleanLoop_eq expired (storage.size + 1) hm (by unfold Map.size; omega)
  simpa [cleanBy, Map.begin] using this

lemma cleanBy_eq_ok : cleanBy expired storage = .ok storage' ↔
    sweep (fun e => expired e.2) storage.entries = some storage'.entries := by
  have h := cleanBy_eq expired storage
  refine ⟨fun hc => ?_, fun hs => ?_⟩
  · rw [hc] at h
    cases hs : sweep (fun e : UID × PresenceItemRec => expired e.2) storage.entries with
    | none => simp [hs, Except.map] at h
    | some r => simpa [hs, Except.map] using h.symm
  · rw [hs] at h
    cases hc : cleanBy expired storage with
    | error e => simp [hc, Except.map] at h
    | ok m =>
      simp only [hc, Except.map, Except.ok.injEq] at h
      rw [Map.ext h]

/-- The cleaner fails in one way only. -/
lemma cleanBy_eq_error {e : Fault} : cleanBy expired storage = .error e ↔
    sweep (fun e => expired e.2) storage.entries = none ∧ e = .incrementEnd := by
  have h := cleanBy_eq expired storage
  refine ⟨fun hc => ?_, fun ⟨hs, he⟩ => ?_⟩
  · rw [hc] at h
    cases hs : sweep (fun e : UID × PresenceItemRec => expired e.2) storage.entries with
    | none => simpa [hs, Except.map] using h
    | some r => simp [hs, Except.map] at h
  · rw [hs] at h
    cases hc : cleanBy expired storage with
    | error e' => simpa [hc, Except.map, he] using h
    | ok m => simp [hc, Except.map] at h

/-- A pass looks at the entries of the map only. -/
lemma cleanBy_congr {expired' : PresenceItemRec → Bool}
    (h : ∀ e ∈ storage.entries, expired e.2 = expired' e.2) :
    cleanBy expired storage = cleanBy expired' storage := by
  have hs := sweep_congr (fun e : UID × PresenceItemRec => expired e.2) h
  cases hc : cleanBy expired storage with
  | error e =>
    obtain ⟨hnone, he⟩ := cleanBy_eq_error.mp hc
    exact (cleanBy_eq_error.mpr ⟨hs ▸ hnone, he⟩).symm
  | ok m => exact (cleanBy_eq_ok.mpr (hs ▸ cleanBy_eq_ok.mp hc)).symm

lemma cleanExpired_eq_ok {now : TaskTime} : cleanExpired storage now = .ok storage' ↔
    sweep (stale now) storage.entries = some storage'.entries := cleanBy_eq_ok

lemma cleanExpired_eq_error {now : TaskTime} {e : Fault} : cleanExpired storage now = .error e ↔
    sweep (stale now) storage.entries = none ∧ e = .incrementEnd := cleanBy_eq_error

end Clean

/-! ### What the methods do to the records -/

section Records

variable {expired : PresenceItemRec → TaskTime → Bool}

/-- The record `u` has in a store. -/
def Holds (s : MemPresenceBy expired) (u : UID) (r : PresenceItemRec) : Prop :=
  (u, r) ∈ s.storage.entries

lemma not_holds_empty (u : UID) (r : PresenceItemRec) :
    ¬ Holds (⟨Map.empty⟩ : MemPresenceBy expired) u r := by
  unfold Holds
  simp

/-- What an item is recorded as. -/
def recOf (item : PresenceItem) : PresenceItemRec := ⟨item.modified, item.addr⟩

section Put

variable {s s' : MemPresenceBy expired} {now : TaskTime} {item : PresenceItem}

lemma mem_stored {e : UID × PresenceItemRec} :
    e ∈ (s.stored item).entries ↔
      e = (item.uid, recOf item) ∨ e ∈ s.storage.entries ∧ e.1 ≠ item.uid :=
  Map.mem_insert _

lemma putBy_eq_ok : Presence.put s now item = .ok s' ↔
    cleanBy (fun r => expired r now) (s.stored item) = .ok s'.storage := by
  show MemPresenceBy.put s now item = .ok s' ↔ _
  unfold MemPresenceBy.put
  cases cleanBy (fun r => expired r now) (s.stored item) with
  | error e => simp
  | ok m =>
    simp only [Except.ok.injEq]
    exact ⟨fun h => h ▸ rfl, fun h => by rw [h]⟩

/-- A store holds after a `put` what it held before, of other identifiers, and the item. -/
lemma holds_of_put (h : Presence.put s now item = .ok s') {u : UID} {r : PresenceItemRec}
    (hr : Holds s' u r) : u = item.uid ∧ r = recOf item ∨ u ≠ item.uid ∧ Holds s u r := by
  have hsub := sweep_sublist _ (cleanBy_eq_ok.mp (putBy_eq_ok.mp h))
  rcases mem_stored.mp (hsub.subset hr) with he | ⟨he, hne⟩
  · exact Or.inl ⟨congrArg Prod.fst he, congrArg Prod.snd he⟩
  · exact Or.inr ⟨hne, he⟩

/-- A `put` erases nothing that is not expired. -/
lemma put_holds (h : Presence.put s now item = .ok s') {u : UID} {r : PresenceItemRec}
    (hr : u = item.uid ∧ r = recOf item ∨ u ≠ item.uid ∧ Holds s u r)
    (he : expired r now = false) : Holds s' u r := by
  refine mem_sweep _ (cleanBy_eq_ok.mp (putBy_eq_ok.mp h)) (mem_stored.mpr ?_) he
  rcases hr with ⟨rfl, rfl⟩ | ⟨hne, hr⟩
  · exact Or.inl rfl
  · exact Or.inr ⟨hr, hne⟩

end Put

lemma put_eq_ok {s s' : MemPresence} {now : TaskTime} {item : PresenceItem} :
    Presence.put s now item = .ok s' ↔ cleanExpired (s.stored item) now = .ok s'.storage :=
  putBy_eq_ok

section Get

variable {s : MemPresenceBy expired} {now : TaskTime} {item : PresenceItem} {r : PresenceItemRec}

lemma get_absent (h : ∀ r, ¬ Holds s item.uid r) : Presence.get s now item = (false, item, s) := by
  have hn : s.storage.deref (s.storage.find item.uid) = none :=
    Map.deref_find_eq_none.mpr fun e he hk => h e.2 (by unfold Holds; rw [← hk]; exact he)
  show MemPresenceBy.get s now item = _
  simp [MemPresenceBy.get, hn]

lemma deref_of_holds (h : Holds s item.uid r) :
    s.storage.deref (s.storage.find item.uid) = some (item.uid, r) :=
  Map.deref_find_eq_some.mpr ⟨h, rfl⟩

lemma get_expired (h : Holds s item.uid r) (he : expired r now = true) :
    Presence.get s now item = (false, item, ⟨s.storage.erase (s.storage.find item.uid)⟩) := by
  show MemPresenceBy.get s now item = _
  simp [MemPresenceBy.get, deref_of_holds h, he]

lemma get_live (h : Holds s item.uid r) (he : expired r now = false) :
    Presence.get s now item = (true, { item with addr := r.addr, modified := r.modified }, s) := by
  show MemPresenceBy.get s now item = _
  simp [MemPresenceBy.get, deref_of_holds h, he]

lemma holds_erase {u : UID} {v : UID} :
    Holds (⟨s.storage.erase (s.storage.find u)⟩ : MemPresenceBy expired) v r ↔
      Holds s v r ∧ v ≠ u :=
  Map.mem_erase_find

/-- The three outcomes of a lookup. -/
lemma get_cases (s : MemPresenceBy expired) (now : TaskTime) (item : PresenceItem) :
    (∀ r, ¬ Holds s item.uid r) ∨ (∃ r, Holds s item.uid r ∧ expired r now = true) ∨
      ∃ r, Holds s item.uid r ∧ expired r now = false := by
  by_cases h : ∃ r, Holds s item.uid r
  · obtain ⟨r, hr⟩ := h
    cases he : expired r now
    · exact Or.inr (Or.inr ⟨r, hr, he⟩)
    · exact Or.inr (Or.inl ⟨r, hr, he⟩)
  · exact Or.inl fun r hr => h ⟨r, hr⟩

end Get

end Records

end SimplePresence.Store
