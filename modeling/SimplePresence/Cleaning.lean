import SimplePresence.Log

/-!
When the cleaner is defined, and when it is exact.

The erased entry is passed over twice, by `erase` and by the header of the loop. At the end
of the map the second step has nowhere to go; inside it, the entry that followed is never
looked at. Both are decided by where the expired entries stand in the order of identifiers.
-/

namespace SimplePresence.Cleaning

open SimplePresence.Uid SimplePresence.Item SimplePresence.OrderedMap SimplePresence.Query
open SimplePresence.Store SimplePresence.Log SimplePresence.Machine SimplePresence.Sweep

/-- The number of expired entries in a row at the end of the order. -/
abbrev expiredTail (storage : Storage) (now : TaskTime) : ℕ := trail (stale now) storage.entries

lemma cleanExpired_defined_iff (storage : Storage) (now : TaskTime) :
    (∃ storage', cleanExpired storage now = .ok storage') ↔ Even (expiredTail storage now) := by
  rw [← sweep_isSome_iff]
  refine ⟨fun ⟨storage', h⟩ => ?_, fun h => ?_⟩
  · rw [cleanExpired_eq_ok.mp h]
    rfl
  · cases hc : cleanExpired storage now with
    | ok storage' => exact ⟨storage', rfl⟩
    | error e =>
      rw [(cleanExpired_eq_error.mp hc).1] at h
      cases h

section Put

variable {s : MemPresence} {now : TaskTime} {item : PresenceItem}

lemma put_defined_iff : (∃ s', Presence.put s now item = .ok s') ↔
    Even (expiredTail (s.stored item) now) := by
  rw [← cleanExpired_defined_iff]
  exact ⟨fun ⟨s', h⟩ => ⟨_, put_eq_ok.mp h⟩, fun ⟨m, h⟩ => ⟨⟨m⟩, put_eq_ok.mpr h⟩⟩

lemma put_error {e : Fault} (h : Presence.put s now item = .error e) : e = .incrementEnd := by
  have h' : MemPresenceBy.put s now item = .error e := h
  unfold MemPresenceBy.put at h'
  cases hc : cleanBy (fun r => r.expired now) (s.stored item) with
  | error e' =>
    simp only [hc, Except.error.injEq] at h'
    exact h' ▸ (cleanBy_eq_error.mp hc).2
  | ok m => simp [hc] at h'

lemma step_error {op : Op} {e : Fault} (h : Op.step s op = .error e) : e = .incrementEnd := by
  cases op with
  | put item now =>
    rw [Op.step] at h
    cases hp : Presence.put s now item with
    | error e' =>
      simp only [hp, Except.error.injEq] at h
      exact h ▸ put_error hp
    | ok s' => simp [hp] at h
  | get item now => cases h

end Put

/-- **Safety of the cleaner.** Over any map, a pass ends, looks at live entries only and stays
clear of the end exactly when an even number of expired entries stands at the end of the map.
A run of `put` and `get` on an empty store is defined exactly when the passes of its `put`s
are, and where a pass fails, it fails by incrementing the end. -/
theorem cleaner_safe_iff (ops : List Op) :
    (∀ storage now, (∃ storage', cleanExpired storage now = .ok storage') ↔
      Even (expiredTail storage now)) ∧
    ((∃ r, runOps MemPresence.empty ops = .ok r) ↔
      ∀ pre item now post, ops = pre ++ .put item now :: post → ∀ rs s,
        runOps MemPresence.empty pre = .ok (rs, s) → Even (expiredTail (s.stored item) now)) ∧
    ∀ e, runOps MemPresence.empty ops = .error e → e = .incrementEnd := by
  refine ⟨cleanExpired_defined_iff, ?_, fun e he => ?_⟩
  swap
  · obtain ⟨_, _, -, hs⟩ := run_eq_error he
    exact step_error hs
  rw [run_isOk_iff]
  refine ⟨fun h pre item now post hops rs s hpre => ?_, fun h pre op post hops rs s hpre => ?_⟩
  · obtain ⟨⟨o, s'⟩, hs⟩ := h pre _ post hops rs s hpre
    exact put_defined_iff.mp ⟨s', (step_put.mp hs).2⟩
  · cases op with
    | put item now =>
      obtain ⟨s', hp⟩ := put_defined_iff.mpr (h pre item now post hops rs s hpre)
      exact ⟨(none, s'), step_put.mpr ⟨rfl, hp⟩⟩
    | get item now => exact ⟨_, step_get.mpr ⟨rfl, rfl⟩⟩

/-- Two registrations; the second comes 181 s after the first and before it in the order. -/
def lateRun : List Op :=
  [.put ⟨0, UID.ofBytes [2], Sockaddr.ofBytes [2, 0, 7, 232]⟩ 0,
    .put ⟨181 * ticksPerSec, UID.ofBytes [1], Sockaddr.ofBytes [2, 0, 7, 233]⟩ (181 * ticksPerSec)]

theorem cleaner_increments_end :
    (lateRun.map Op.reading).Pairwise (· ≤ ·) ∧
      (∀ item now, Op.put item now ∈ lateRun → item.modified ≤ now) ∧
      ¬ ∃ r, runOps MemPresence.empty lateRun = .ok r := by
  refine ⟨by decide, fun item now h => ?_, fun ⟨r, h⟩ => ?_⟩
  · simp only [lateRun, List.mem_cons, Op.put.injEq, List.not_mem_nil, or_false] at h
    rcases h with ⟨rfl, rfl⟩ | ⟨rfl, rfl⟩ <;> exact le_rfl
  · have hf : runOps MemPresence.empty lateRun = .error .incrementEnd := rfl
    rw [hf] at h
    cases h

/-! ### Exactness -/

/-- Every expired entry has an unexpired one right after it. -/
def Separated (storage : Storage) (now : TaskTime) : Prop :=
  ∀ it e, storage.deref it = some e → e.2.expired now = true →
    ∃ e', storage.deref (it + 1) = some e' ∧ e'.2.expired now = false

lemma separated_iff (storage : Storage) (now : TaskTime) :
    Separated storage now ↔ Spaced (stale now) storage.entries :=
  (spaced_iff _ _).symm

/-- `storage'` is `storage` without the expired entries, and nothing else. -/
def Exact (storage storage' : Storage) (now : TaskTime) : Prop :=
  ∀ e, e ∈ storage'.entries ↔ e ∈ storage.entries ∧ e.2.expired now = false

lemma exact_iff {storage storage' : Storage} {now : TaskTime} :
    Exact storage storage' now ↔
      storage'.entries = storage.entries.filter fun e => !stale now e := by
  refine ⟨fun h => ?_, fun h e => by simp [h]⟩
  refine Map.entries_ext storage'.sorted (storage.sorted.sublist List.filter_sublist) fun e => ?_
  rw [h e]
  simp

lemma cleanExpired_exact_iff_separated (storage : Storage) (now : TaskTime) :
    (∃ storage', cleanExpired storage now = .ok storage' ∧ Exact storage storage' now) ↔
      Separated storage now := by
  rw [separated_iff, ← sweep_eq_filter_iff]
  refine ⟨fun ⟨storage', hc, he⟩ => ?_, fun h => ?_⟩
  · rw [cleanExpired_eq_ok.mp hc, exact_iff.mp he]
  · refine ⟨⟨_, storage.sorted.sublist List.filter_sublist⟩, cleanExpired_eq_ok.mpr h, ?_⟩
    exact exact_iff.mpr rfl

/-- After a `put` whose pass is exact the store holds no expired record, and conversely. -/
lemma put_fresh_iff (s : MemPresence) (item : PresenceItem) (now : TaskTime) :
    (∃ s', Presence.put s now item = .ok s' ∧ ∀ u r, Holds s' u r → r.expired now = false) ↔
      Separated (s.stored item) now := by
  rw [← cleanExpired_exact_iff_separated]
  refine ⟨fun ⟨s', hp, hf⟩ => ?_, fun ⟨m, hc, he⟩ => ?_⟩
  · refine ⟨s'.storage, put_eq_ok.mp hp, fun e => ⟨fun hm => ?_, fun ⟨hm, he⟩ => ?_⟩⟩
    · have hsub := sweep_sublist _ (cleanExpired_eq_ok.mp (put_eq_ok.mp hp))
      exact ⟨hsub.subset hm, hf e.1 e.2 hm⟩
    · exact mem_sweep _ (cleanExpired_eq_ok.mp (put_eq_ok.mp hp)) hm he
  · exact ⟨⟨m⟩, put_eq_ok.mpr hc, fun u r hr => ((he (u, r)).mp hr).2⟩

/-- **Exactness of the cleaner.** The cleaner leaves the unexpired entries and only those
exactly when every expired entry has an unexpired one right after it in the order; and in any
run of `put` and `get` on an empty store, this is when the store holds after a `put` only
identifiers whose last item is unexpired at the reading of that `put`. -/
theorem cleanExpired_exact_iff (storage : Storage) (now : TaskTime) :
    ((∃ storage', cleanExpired storage now = .ok storage' ∧ Exact storage storage' now) ↔
      Separated storage now) ∧
    ∀ ops rs s item, runOps MemPresence.empty ops = .ok (rs, s) → s.stored item = storage →
      ((∃ s', Presence.put s now item = .ok s' ∧ ∀ u r, Holds s' u r →
        ∃ it, lastPut (ops ++ [.put item now]) u = some it ∧ r = recOf it ∧
          seconds (now - it.modified) ≤ 180) ↔
        Separated storage now) := by
  refine ⟨cleanExpired_exact_iff_separated storage now, ?_⟩
  rintro ops rs s item h rfl
  rw [← put_fresh_iff]
  refine exists_congr fun s' => and_congr_right fun hp => ?_
  refine ⟨fun hl u r hr => ?_, fun hf u r hr => ?_⟩
  · obtain ⟨it, -, rfl, hage⟩ := hl u r hr
    exact expired_eq_false.mpr hage
  · have hs := sound_put (sound_run h) hp
    rw [← logOf_put ops item now] at hs
    obtain ⟨it, hit, rfl⟩ := hs u r hr
    exact ⟨it, hit, rfl, expired_eq_false.mp (hf u _ hr)⟩

/-- Two records that expire together, and a registration after both in the order. -/
def crowdedRun : List Op :=
  [.put ⟨0, UID.ofBytes [1], Sockaddr.ofBytes [2, 0, 7, 232]⟩ 0,
    .put ⟨0, UID.ofBytes [2], Sockaddr.ofBytes [2, 0, 7, 233]⟩ 0]

def crowdingItem : PresenceItem :=
  ⟨181 * ticksPerSec, UID.ofBytes [3], Sockaddr.ofBytes [2, 0, 7, 234]⟩

theorem cleanExpired_keeps_expired : ∃ rs s storage',
    runOps MemPresence.empty crowdedRun = .ok (rs, s) ∧
    cleanExpired (s.stored crowdingItem) (181 * ticksPerSec) = .ok storage' ∧
    ¬ Exact (s.stored crowdingItem) storage' (181 * ticksPerSec) := by
  refine ⟨_, _, _, rfl, rfl, fun h => ?_⟩
  have h2 := (h (UID.ofBytes [2], ⟨0, Sockaddr.ofBytes [2, 0, 7, 233]⟩)).mp (by decide)
  exact absurd h2.2 (by decide)

end SimplePresence.Cleaning
