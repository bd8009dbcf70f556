import SimplePresence.Store
import Mathlib.Data.Int.ConditionallyCompleteOrder

/-!
The store against a log of everything that was put and never erased.

A log answers a lookup from the last item put for the identifier, and refuses it when that
item is too old. The store erases, lazily and in bulk, and its cleaner misses entries; as
long as the clock does not run backwards it answers as the log does.
-/

namespace SimplePresence.Log

open SimplePresence.Uid SimplePresence.Item SimplePresence.OrderedMap SimplePresence.Query
open SimplePresence.Store SimplePresence.Machine

/-- Every item ever put, the last one first. -/
@[ext]
structure PresenceLog where
  items : List PresenceItem

namespace PresenceLog

def empty : PresenceLog := ⟨[]⟩

/-- The last item put for `u`. -/
def last (l : PresenceLog) (u : UID) : Option PresenceItem := l.items.find? fun it => it.uid = u

def get (l : PresenceLog) (now : TaskTime) (item : PresenceItem) :
    Bool × PresenceItem × PresenceLog :=
  match l.last item.uid with
  | none => (false, item, l)
  | some it =>
    if (recOf it).expired now then (false, item, l)
    else (true, { item with addr := it.addr, modified := it.modified }, l)

def put (l : PresenceLog) (_ : TaskTime) (item : PresenceItem) : Except Fault PresenceLog :=
  .ok ⟨item :: l.items⟩

instance : Presence PresenceLog := ⟨get, put⟩

lemma last_cons_self (l : PresenceLog) (item : PresenceItem) :
    last ⟨item :: l.items⟩ item.uid = some item := by
  simp [last]

lemma last_cons_ne (l : PresenceLog) {item : PresenceItem} {u : UID} (h : u ≠ item.uid) :
    last ⟨item :: l.items⟩ u = l.last u := by
  unfold last
  rw [List.find?_cons_of_neg (by simpa using h.symm)]

end PresenceLog

lemma log_put (l : PresenceLog) (now : TaskTime) (item : PresenceItem) :
    Presence.put l now item = .ok ⟨item :: l.items⟩ := rfl

lemma log_get_none {l : PresenceLog} {now : TaskTime} {item : PresenceItem}
    (h : l.last item.uid = none) : Presence.get l now item = (false, item, l) := by
  show PresenceLog.get l now item = _
  simp [PresenceLog.get, h]

lemma log_get_expired {l : PresenceLog} {now : TaskTime} {item it : PresenceItem}
    (h : l.last item.uid = some it) (he : (recOf it).expired now = true) :
    Presence.get l now item = (false, item, l) := by
  show PresenceLog.get l now item = _
  simp [PresenceLog.get, h, he]

lemma log_get_live {l : PresenceLog} {now : TaskTime} {item it : PresenceItem}
    (h : l.last item.uid = some it) (he : (recOf it).expired now = false) :
    Presence.get l now item =
      (true, { item with addr := it.addr, modified := it.modified }, l) := by
  show PresenceLog.get l now item = _
  simp [PresenceLog.get, h, he]

lemma log_get_found {l : PresenceLog} {now : TaskTime} {item : PresenceItem} :
    (Presence.get l now item).1 = true ↔
      ∃ it, l.last item.uid = some it ∧ (recOf it).expired now = false := by
  rcases hlast : l.last item.uid with _ | it
  · rw [log_get_none hlast]
    simp
  · cases he : (recOf it).expired now
    · rw [log_get_live hlast he]
      simp [he]
    · rw [log_get_expired hlast he]
      simp [he]

lemma log_get_not_found {l : PresenceLog} {now : TaskTime} {item : PresenceItem}
    (h : (Presence.get l now item).1 = false) : (Presence.get l now item).2.1 = item := by
  rcases hlast : l.last item.uid with _ | it
  · rw [log_get_none hlast]
  · cases he : (recOf it).expired now
    · rw [log_get_live hlast he] at h
      cases h
    · rw [log_get_expired hlast he]

lemma log_get_store (l : PresenceLog) (now : TaskTime) (item : PresenceItem) :
    (Presence.get l now item).2.2 = l := by
  rcases hlast : l.last item.uid with _ | it
  · rw [log_get_none hlast]
  · cases he : (recOf it).expired now
    · rw [log_get_live hlast he]
    · rw [log_get_expired hlast he]

/-! ### What the store knows is in the log -/

section Sound

variable {expired : PresenceItemRec → TaskTime → Bool} {s s' : MemPresenceBy expired}
  {l : PresenceLog} {now : TaskTime} {item : PresenceItem}

/-- Every record of the store is that of the last item put for its identifier. -/
def Sound (s : MemPresenceBy expired) (l : PresenceLog) : Prop :=
  ∀ u r, Holds s u r → ∃ it, l.last u = some it ∧ r = recOf it

lemma sound_put (hs : Sound s l) (h : Presence.put s now item = .ok s') :
    Sound s' ⟨item :: l.items⟩ := by
  intro u r hr
  rcases holds_of_put h hr with ⟨rfl, rfl⟩ | ⟨hne, hr'⟩
  · exact ⟨item, l.last_cons_self item, rfl⟩
  · obtain ⟨it, hit, hrec⟩ := hs u r hr'
    exact ⟨it, by rw [l.last_cons_ne hne, hit], hrec⟩

/-- A lookup leaves the store as it is, or erases one expired record. -/
lemma sound_get (hs : Sound s l) (now : TaskTime) (item : PresenceItem) :
    Sound (Presence.get s now item).2.2 l := by
  rcases get_cases s now item with ha | ⟨r, hr, he⟩ | ⟨r, hr, he⟩
  · rw [get_absent ha]
    exact hs
  · rw [get_expired hr he]
    intro v q hq
    exact hs v q (holds_erase.mp hq).1
  · rw [get_live hr he]
    exact hs

/-- What a successful lookup returns comes from the last item put, and is not expired. -/
lemma get_found (hs : Sound s l) (h : (Presence.get s now item).1 = true) :
    ∃ it, l.last item.uid = some it ∧ expired (recOf it) now = false ∧
      (Presence.get s now item).2.1 = { item with addr := it.addr, modified := it.modified } := by
  rcases get_cases s now item with ha | ⟨r, hr, he⟩ | ⟨r, hr, he⟩
  · rw [get_absent ha] at h
    cases h
  · rw [get_expired hr he] at h
    cases h
  · obtain ⟨it, hit, rfl⟩ := hs _ r hr
    rw [get_live hr he]
    exact ⟨it, hit, he, rfl⟩

lemma get_not_found (h : (Presence.get s now item).1 = false) :
    (Presence.get s now item).2.1 = item := by
  rcases get_cases s now item with ha | ⟨r, hr, he⟩ | ⟨r, hr, he⟩
  · rw [get_absent ha]
  · rw [get_expired hr he]
  · rw [get_live hr he] at h
    cases h

end Sound

/-- Every item a lookup at `t` would be answered from is in the store. -/
def Live (t : TaskTime) (s : MemPresence) (l : PresenceLog) : Prop :=
  ∀ u it, l.last u = some it → (recOf it).expired t = false → Holds s u (recOf it)

/-- The store answers as the log does, from `t` on. -/
structure Tracks (t : TaskTime) (s : MemPresence) (l : PresenceLog) : Prop where
  sound : Sound s l
  live : Live t s l

section Step

variable {s s' : MemPresence} {l : PresenceLog} {t now : TaskTime} {item : PresenceItem}

lemma live_put (hl : Live t s l) (ht : t ≤ now) (h : Presence.put s now item = .ok s') :
    Live now s' ⟨item :: l.items⟩ := by
  intro u it hit he
  refine put_holds h ?_ he
  by_cases hu : u = item.uid
  · subst hu
    rw [l.last_cons_self] at hit
    cases hit
    exact Or.inl ⟨rfl, rfl⟩
  · rw [l.last_cons_ne hu] at hit
    have he' : (recOf it).expired t = false := unexpired_mono ht he
    exact Or.inr ⟨hu, hl u it hit he'⟩

lemma live_mono (hl : Live t s l) (ht : t ≤ now) : Live now s l :=
  fun u it hit he => hl u it hit (unexpired_mono ht he)

lemma live_get (hs : Sound s l) (hl : Live t s l) (ht : t ≤ now) (item : PresenceItem) :
    Live now (Presence.get s now item).2.2 l := by
  have hl' := live_mono hl ht
  rcases get_cases s now item with ha | ⟨r, hr, he⟩ | ⟨r, hr, he⟩
  · rw [get_absent ha]
    exact hl'
  · rw [get_expired hr he]
    intro v it hit hv
    refine holds_erase.mpr ⟨hl' v it hit hv, ?_⟩
    -- the record erased is the last one put for its identifier, and it is expired
    rintro rfl
    obtain ⟨it', hit', rfl⟩ := hs _ r hr
    rw [hit'] at hit
    cases hit
    rw [he] at hv
    cases hv
  · rw [get_live hr he]
    exact hl'

/-- **A lookup in the store and one in the log have the same answer.** -/
lemma get_eq_log (hT : Tracks t s l) (ht : t ≤ now) (item : PresenceItem) :
    (Presence.get s now item).1 = (Presence.get l now item).1 ∧
      (Presence.get s now item).2.1 = (Presence.get l now item).2.1 := by
  rcases hlast : l.last item.uid with _ | it
  · have ha : ∀ r, ¬ Holds s item.uid r := by
      intro r hr
      obtain ⟨it, hit, -⟩ := hT.sound _ r hr
      rw [hlast] at hit
      cases hit
    rw [get_absent ha, log_get_none hlast]
    exact ⟨rfl, rfl⟩
  · cases he : (recOf it).expired now
    · have hh := live_mono hT.live ht item.uid it hlast he
      rw [get_live hh he, log_get_live hlast he]
      exact ⟨rfl, rfl⟩
    · have hf : (Presence.get s now item).1 = false := by
        by_contra hn
        obtain ⟨it', hit', he', -⟩ := get_found hT.sound (by simpa using hn)
        rw [hlast] at hit'
        cases hit'
        rw [he] at he'
        cases he'
      rw [log_get_expired hlast he]
      exact ⟨hf, get_not_found hf⟩

end Step

lemma tracks_empty (t : TaskTime) : Tracks t MemPresence.empty PresenceLog.empty :=
  ⟨fun u r hr => absurd hr (not_holds_empty u r), fun u it hit => by cases hit⟩

/-- **The calls of the store are simulated by those of the log.** -/
theorem mem_simulates_log :
    Simulates (fun op : Op => [op.reading]) (Op.step : MemPresence → _ → _)
      (Op.step : PresenceLog → _ → _) Tracks := by
  intro t s l op o s' hT hc h
  have ht : t ≤ op.reading := (List.pairwise_cons.mp hc).1 _ List.mem_cons_self
  cases op with
  | put item now =>
    obtain ⟨rfl, hp⟩ := step_put.mp h
    exact ⟨_, rfl, sound_put hT.sound hp, live_put hT.live ht hp⟩
  | get item now =>
    obtain ⟨rfl, rfl⟩ := step_get.mp h
    obtain ⟨h₁, h₂⟩ := get_eq_log hT ht item
    refine ⟨l, step_get.mpr ⟨?_, (log_get_store l now item).symm⟩, ?_⟩
    · exact congrArg some (Prod.ext h₁ h₂)
    · exact ⟨sound_get hT.sound now item, live_get hT.sound hT.live ht item⟩

/-- The log of some calls. -/
def logOf (ops : List Op) : PresenceLog := ⟨(ops.filterMap Op.stored).reverse⟩

lemma logOf_put (ops : List Op) (item : PresenceItem) (now : TaskTime) :
    logOf (ops ++ [.put item now]) = ⟨item :: (logOf ops).items⟩ := by
  simp [logOf, Op.stored]

lemma logOf_get (ops : List Op) (item : PresenceItem) (now : TaskTime) :
    logOf (ops ++ [.get item now]) = logOf ops := by
  simp [logOf, Op.stored]

/-- A run of calls ends in a store that is sound for their log, whatever the clock reads. -/
lemma sound_run {expired : PresenceItemRec → TaskTime → Bool} {ops : List Op}
    {rs : List (Option (Bool × PresenceItem))} {s : MemPresenceBy expired}
    (h : runOps ⟨Map.empty⟩ ops = .ok (rs, s)) : Sound s (logOf ops) := by
  refine run_induction (I := fun ops _ s => Sound s (logOf ops))
    (fun u r hr => absurd hr (not_holds_empty u r)) (fun ops _ s₁ op o s₂ ih hs => ?_) h
  cases op with
  | put item now =>
    rw [logOf_put]
    exact sound_put ih (step_put.mp hs).2
  | get item now =>
    rw [logOf_get]
    exact (step_get.mp hs).2 ▸ sound_get ih now item

/-- The log a run of calls ends in is the log of the calls. -/
lemma log_run {ops : List Op} {rs : List (Option (Bool × PresenceItem))} {l : PresenceLog}
    (h : runOps PresenceLog.empty ops = .ok (rs, l)) : l = logOf ops := by
  refine run_induction (I := fun ops _ l => l = logOf ops) rfl
    (fun ops _ l₁ op o l₂ ih hs => ?_) h
  subst ih
  cases op with
  | put item now =>
    have hp := (step_put.mp hs).2
    rw [log_put] at hp
    cases hp
    rw [logOf_put]
  | get item now =>
    rw [(step_get.mp hs).2, log_get_store, logOf_get]

lemma flatMap_reading (ops : List Op) :
    ops.flatMap (fun op => [op.reading]) = ops.map Op.reading := by
  rw [List.map_eq_flatMap]

/-- A run of calls on a clock that never runs backwards has the outputs of its log, and ends
in a store that tracks it. -/
lemma tracks_run {ops : List Op} {rs : List (Option (Bool × PresenceItem))} {s : MemPresence}
    {t : TaskTime} (hc : (t :: ops.map Op.reading).Pairwise (· ≤ ·))
    (h : runOps MemPresence.empty ops = .ok (rs, s)) :
    runOps PresenceLog.empty ops = .ok (rs, logOf ops) ∧
      Tracks (latest t (ops.map Op.reading)) s (logOf ops) := by
  rw [← flatMap_reading] at hc ⊢
  obtain ⟨l, hl, hT⟩ := run_simulates _ mem_simulates_log (tracks_empty t) hc h
  obtain rfl := log_run hl
  exact ⟨hl, hT⟩

/-- What follows a run on the clock finds the store tracked by the log of the run. -/
lemma tracks_of_run {ops : List Op} {rs : List (Option (Bool × PresenceItem))} {s : MemPresence}
    {rest : List TaskTime} (hc : (ops.map Op.reading ++ rest).Pairwise (· ≤ ·))
    (h : runOps MemPresence.empty ops = .ok (rs, s)) :
    ∃ t, Tracks t s (logOf ops) ∧ (t :: rest).Pairwise (· ≤ ·) := by
  obtain ⟨t, ht⟩ := exists_pairwise_cons hc
  obtain ⟨hc₁, hc₂⟩ := pairwise_latest ht
  exact ⟨_, (tracks_run hc₁ h).2, hc₂⟩

end SimplePresence.Log
