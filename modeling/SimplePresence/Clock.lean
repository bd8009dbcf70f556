import SimplePresence.Service

/-!
The clock of the program.

A reading is a signed count of nanoseconds in 64 bits, and so is the difference of two, which
wraps when they are too far apart. A record stamped centuries before the clock may then be taken
for a fresh one, and one stamped centuries ahead of it for an old one. The store of the program
is looked at here with such differences. It keeps to the log for every identifier whose stamps
are in range of the clock, and runs as the store of the other modules does on a clock whose
readings are in range of each other.
-/

namespace SimplePresence.Clock

open SimplePresence.Uid SimplePresence.Item SimplePresence.OrderedMap SimplePresence.Query
open SimplePresence.Store SimplePresence.Log SimplePresence.Machine SimplePresence.Service

/-! ### Differences in 64 bits -/

/-- The values of a signed count of 64 bits. -/
def Fits64 (d : ℤ) : Prop := -2 ^ 63 ≤ d ∧ d < 2 ^ 63

instance (d : ℤ) : Decidable (Fits64 d) := inferInstanceAs (Decidable (_ ∧ _))

/-- `since - modified`, which wraps. -/
def sub64 (since modified : TaskTime) : ℤ := (since - modified).bmod (2 ^ 64)

lemma sub64_eq {t m : TaskTime} (h : Fits64 (t - m)) : sub64 t m = t - m := by
  obtain ⟨hlo, hhi⟩ := h
  exact Int.bmod_eq_of_le (by omega) (by omega)

/-- A count between two that fit fits. -/
lemma Fits64.between {m t₀ t t₁ : TaskTime} (h₀ : Fits64 (t₀ - m)) (h₁ : Fits64 (t₁ - m))
    (hlo : t₀ ≤ t) (hhi : t ≤ t₁) : Fits64 (t - m) := by
  obtain ⟨h, -⟩ := h₀
  obtain ⟨-, h'⟩ := h₁
  constructor <;> linarith

/-- `PresenceItemRec::expired`, on counts of 64 bits. -/
def expired64 (r : PresenceItemRec) (since : TaskTime) : Bool :=
  decide (seconds (sub64 since r.modified) > defExpirationSec)

/-- Where the difference fits, it is the one of the integers. -/
lemma expired64_eq {r : PresenceItemRec} {since : TaskTime} (h : Fits64 (since - r.modified)) :
    expired64 r since = r.expired since := by
  unfold expired64 PresenceItemRec.expired
  rw [sub64_eq h]

/-- The store of the program. -/
abbrev MemPresence64 := MemPresenceBy expired64

abbrev MemPresence64.empty : MemPresence64 := ⟨Map.empty⟩

/-! ### Records that stay -/

section Stay

variable {expired : PresenceItemRec → TaskTime → Bool} {s s' : MemPresenceBy expired}
  {ops : List Op} {u : UID} {r : PresenceItemRec} {it item : PresenceItem} {now : TaskTime}

lemma lastPut_get : lastPut (ops ++ [.get item now]) u = lastPut ops u :=
  congrArg (·.last u) (logOf_get ops item now)

lemma lastPut_put : lastPut (ops ++ [.put item now]) u =
    if item.uid = u then some item else lastPut ops u := by
  have h : lastPut (ops ++ [.put item now]) u = PresenceLog.last ⟨item :: (logOf ops).items⟩ u :=
    congrArg (·.last u) (logOf_put ops item now)
  rw [h]
  split_ifs with hu
  · rw [← hu, PresenceLog.last_cons_self]
  · exact PresenceLog.last_cons_ne _ (Ne.symm hu)

/-- The call that put the last item for an identifier. -/
lemma lastPut_eq_some (h : lastPut ops u = some it) : it.uid = u ∧
    ∃ pre now post, ops = pre ++ .put it now :: post ∧ lastPut post u = none := by
  induction ops using List.reverseRecOn with
  | nil => cases h
  | append_singleton ops op ih =>
    cases op with
    | get item now =>
      rw [lastPut_get] at h
      obtain ⟨hu, pre, t, post, rfl, hno⟩ := ih h
      exact ⟨hu, pre, t, post ++ [.get item now], by simp, lastPut_get.trans hno⟩
    | put item now =>
      rw [lastPut_put] at h
      split_ifs at h with hu
      · cases h
        exact ⟨hu, ops, now, [], rfl, rfl⟩
      · obtain ⟨hu', pre, t, post, rfl, hno⟩ := ih h
        exact ⟨hu', pre, t, post ++ [.put item now], by simp,
          lastPut_put.trans ((if_neg hu).trans hno)⟩

/-- A record stays through calls that store none for its identifier and read the clock while it
is not expired. -/
lemma holds_runOps {rs : List (Option (Bool × PresenceItem))} (hr : Holds s u r)
    (hno : lastPut ops u = none) (he : ∀ op ∈ ops, expired r op.reading = false)
    (h : runOps s ops = .ok (rs, s')) : Holds s' u r := by
  refine run_induction (I := fun ops _ s => lastPut ops u = none →
    (∀ op ∈ ops, expired r op.reading = false) → Holds s u r) (fun _ _ => hr)
    (fun ops _ s₁ op _ s₂ ih hs hno he => ?_) h hno he
  have he' := fun o ho => he o (List.mem_append_left [op] ho)
  have heop : expired r op.reading = false := he op (List.mem_append_right ops List.mem_cons_self)
  cases op with
  | put item now =>
    rw [lastPut_put] at hno
    split_ifs at hno with hu
    exact put_holds (step_put.mp hs).2 (Or.inr ⟨Ne.symm hu, ih hno he'⟩) heop
  | get item now =>
    rw [lastPut_get] at hno
    have hh := ih hno he'
    rw [(step_get.mp hs).2]
    rcases get_cases s₁ now item with ha | ⟨q, hq, hqe⟩ | ⟨q, hq, hqe⟩
    · rw [get_absent ha]
      exact hh
    · rw [get_expired hq hqe]
      refine holds_erase.mpr ⟨hh, ?_⟩
      -- one record an identifier: the one erased is expired, and this one is not
      rintro rfl
      have hrq := (deref_of_holds hh).symm.trans (deref_of_holds hq)
      obtain rfl := congrArg Prod.snd (Option.some.inj hrq)
      cases heop.symm.trans hqe
    · rw [get_live hq hqe]
      exact hh

end Stay

/-! ### The store and the log -/

/-- The stamps of the items put for `u` are in range of the clock, as it was when they were put
and as it is at `now`. -/
def InRange (ops : List Op) (u : UID) (now : TaskTime) : Prop :=
  ∀ it t, Op.put it t ∈ ops → it.uid = u → Fits64 (t - it.modified) ∧ Fits64 (now - it.modified)

section Refinement

variable {ops : List Op} {rs : List (Option (Bool × PresenceItem))} {s : MemPresence64}
  {item it : PresenceItem} {now : TaskTime}

/-- The last item put for an identifier is there to be found while it is not expired, when its
stamp is in range and the clock never runs backwards. -/
lemma holds_last (hc : (ops.map Op.reading ++ [now]).Pairwise (· ≤ ·))
    (hr : InRange ops item.uid now) (h : runOps MemPresence64.empty ops = .ok (rs, s))
    (hlast : lastPut ops item.uid = some it) (he : (recOf it).expired now = false) :
    Holds s item.uid (recOf it) ∧ expired64 (recOf it) now = false := by
  obtain ⟨hu, pre, t, post, rfl, hno⟩ := lastPut_eq_some hlast
  obtain ⟨ht, hnow⟩ := hr it t (by simp) hu
  have hfit₀ : Fits64 (t - (recOf it).modified) := ht
  have hfit₁ : Fits64 (now - (recOf it).modified) := hnow
  -- at each reading from the put on the record is in range, and not expired
  have hlive : ∀ t', t ≤ t' → t' ≤ now → expired64 (recOf it) t' = false := by
    intro t' hlo hhi
    rw [expired64_eq (hfit₀.between hfit₁ hlo hhi)]
    exact unexpired_mono hhi he
  rw [List.map_append, List.map_cons, List.append_assoc, List.pairwise_append] at hc
  obtain ⟨hhead, htail⟩ := List.pairwise_cons.mp hc.2.1
  have htnow : t ≤ now := hhead now (by simp)
  obtain ⟨rs₁, s₁, o, s₂, rs₂, -, hput, hpost, -⟩ := run_split h
  have hs₂ : Holds s₂ item.uid (recOf it) :=
    put_holds (step_put.mp hput).2 (Or.inl ⟨hu.symm, rfl⟩) (hlive t le_rfl htnow)
  refine ⟨holds_runOps hs₂ hno (fun op hop => ?_) hpost, hlive now htnow le_rfl⟩
  have hmem : op.reading ∈ post.map Op.reading := List.mem_map_of_mem hop
  refine hlive _ (hhead _ (List.mem_append_left _ hmem)) ?_
  exact (List.pairwise_append.mp htail).2.2 _ hmem now List.mem_cons_self

/-- **A lookup of an identifier whose stamps are in range is answered as in the log.** -/
lemma get_eq_logOf (hc : (ops.map Op.reading ++ [now]).Pairwise (· ≤ ·))
    (hr : InRange ops item.uid now) (h : runOps MemPresence64.empty ops = .ok (rs, s)) :
    (Presence.get s now item).1 = (Presence.get (logOf ops) now item).1 ∧
      (Presence.get s now item).2.1 = (Presence.get (logOf ops) now item).2.1 := by
  by_cases hlive : ∃ it, lastPut ops item.uid = some it ∧ (recOf it).expired now = false
  · obtain ⟨it, hlast, he⟩ := hlive
    obtain ⟨hh, he'⟩ := holds_last hc hr h hlast he
    have hlog : (logOf ops).last item.uid = some it := hlast
    rw [get_live hh he', log_get_live hlog he]
    exact ⟨rfl, rfl⟩
  · have hlog : (Presence.get (logOf ops) now item).1 = false := by
      rw [← Bool.not_eq_true, log_get_found]
      exact hlive
    have hf : (Presence.get s now item).1 = false := by
      by_contra hn
      obtain ⟨it, hlast, he, -⟩ := get_found (sound_run h) (by simpa using hn)
      obtain ⟨hu, pre, t, post, rfl, -⟩ := lastPut_eq_some hlast
      have hfit : Fits64 (now - (recOf it).modified) := (hr it t (by simp) hu).2
      rw [expired64_eq hfit] at he
      exact hlive ⟨it, hlast, he⟩
    exact ⟨hf.trans hlog.symm, (get_not_found hf).trans (log_get_not_found hlog).symm⟩

/-- A run whose lookups are all of identifiers in range has the outputs of the log. -/
lemma run_eq_log (hc : (ops.map Op.reading).Pairwise (· ≤ ·))
    (hr : ∀ pre item now post, ops = pre ++ .get item now :: post → InRange pre item.uid now)
    (h : runOps MemPresence64.empty ops = .ok (rs, s)) :
    runOps PresenceLog.empty ops = .ok (rs, logOf ops) := by
  induction ops using List.reverseRecOn generalizing rs s with
  | nil =>
    cases h
    rfl
  | append_singleton ops op ih =>
    obtain ⟨rs₁, s₁, rs₂, h₁, h₂, rfl⟩ := run_append_eq_ok.mp h
    obtain ⟨o, s₂, _, hs, hnil, rfl⟩ := run_cons_eq_ok.mp h₂
    cases hnil
    rw [List.map_append, List.map_singleton] at hc
    have hlog := ih (List.pairwise_append.mp hc).1
      (fun pre item now post hp => hr pre item now (post ++ [op]) (by simp [hp])) h₁
    refine run_append_eq_ok.mpr ⟨rs₁, logOf ops, [o], hlog, run_cons_eq_ok.mpr
      ⟨o, logOf (ops ++ [op]), [], ?_, rfl, rfl⟩, rfl⟩
    cases op with
    | put item now =>
      obtain ⟨rfl, -⟩ := step_put.mp hs
      rw [logOf_put]
      rfl
    | get item now =>
      obtain ⟨rfl, -⟩ := step_get.mp hs
      obtain ⟨hf, hitem⟩ := get_eq_logOf hc (hr ops item now [] rfl) h₁
      rw [logOf_get]
      exact step_get.mpr ⟨congrArg some (Prod.ext hf hitem), (log_get_store _ _ _).symm⟩

end Refinement

/-- **The store refines the log.** Take a run of `put` and `get` in which every cleaning pass
is defined. A `get` that returns `true` hands over the last item put for its identifier, and
one that returns `false` leaves its item alone. An item handed over is at most 180 whole seconds
old, unless its stamp is out of range of the clock. While the stamps of an identifier are in
range and the clock never runs backwards, it is found exactly when the last item put for it is
at most 180 whole seconds old; and the answers of a run that asks for such identifiers only are
those of a log that never erases. -/
theorem store_refines_log (ops : List Op) (hdef : ∃ r, runOps MemPresence64.empty ops = .ok r) :
    (∀ pre item now post, ops = pre ++ .get item now :: post →
      ∃ rs s found item' s', runOps MemPresence64.empty pre = .ok (rs, s) ∧
        Presence.get s now item = (found, item', s') ∧
        (found = true → ∃ it, lastPut pre item.uid = some it ∧
          item' = { item with addr := it.addr, modified := it.modified } ∧
          (Fits64 (now - it.modified) → seconds (now - it.modified) ≤ 180)) ∧
        ((ops.map Op.reading).Pairwise (· ≤ ·) → InRange pre item.uid now →
          (found = true ↔ ∃ it, lastPut pre item.uid = some it ∧
            seconds (now - it.modified) ≤ 180)) ∧
        (found = false → item' = item)) ∧
    ((ops.map Op.reading).Pairwise (· ≤ ·) →
      (∀ pre item now post, ops = pre ++ .get item now :: post → InRange pre item.uid now) →
      ∃ rs s l, runOps MemPresence64.empty ops = .ok (rs, s) ∧
        runOps PresenceLog.empty ops = .ok (rs, l)) := by
  obtain ⟨⟨rs, s⟩, h⟩ := hdef
  refine ⟨?_, fun hc hr => ⟨rs, s, _, h, run_eq_log hc hr h⟩⟩
  rintro pre item now post rfl
  obtain ⟨rs₁, s₁, o, s₂, rs₂, h₁, -, -, -⟩ := run_split h
  refine ⟨rs₁, s₁, (Presence.get s₁ now item).1, (Presence.get s₁ now item).2.1,
    (Presence.get s₁ now item).2.2, h₁, rfl, fun hf => ?_, fun hc hr => ?_, get_not_found⟩
  · obtain ⟨it, hit, he, hitem⟩ := get_found (sound_run h₁) hf
    refine ⟨it, hit, hitem, fun hfit => ?_⟩
    have hfit' : Fits64 (now - (recOf it).modified) := hfit
    rw [expired64_eq hfit'] at he
    exact expired_eq_false.mp he
  · rw [List.map_append, List.map_cons, List.append_cons, List.pairwise_append] at hc
    have hpre : (pre.map Op.reading ++ [now]).Pairwise (· ≤ ·) := hc.1
    rw [(get_eq_logOf hpre hr h₁).1, log_get_found]
    exact exists_congr fun it => and_congr_right fun _ => expired_eq_false

/-- A registration, a lookup that finds it, and one that comes too late. -/
def shortRun : List Op :=
  [.put ⟨0, UID.ofBytes [1], Sockaddr.ofBytes [2, 0, 7, 232]⟩ 1,
    .get ⟨1, UID.ofBytes [1], Sockaddr.ofBytes []⟩ 2,
    .get ⟨1, UID.ofBytes [1], Sockaddr.ofBytes []⟩ (181 * ticksPerSec)]

theorem store_refines_log_shortRun : ∃ rs s l, runOps MemPresence64.empty shortRun = .ok (rs, s) ∧
    runOps PresenceLog.empty shortRun = .ok (rs, l) := by
  refine (store_refines_log shortRun ⟨_, rfl⟩).2 (by decide) ?_
  intro pre item now post hp it t ht _
  have hget : Op.get item now ∈ shortRun := by simp [hp]
  have hput : Op.put it t ∈ shortRun := by simp [hp, ht]
  simp only [shortRun, List.mem_cons, List.not_mem_nil, or_false, false_or, Op.get.injEq,
    Op.put.injEq, reduceCtorEq] at hget hput
  obtain ⟨rfl, rfl⟩ := hput
  rcases hget with ⟨-, rfl⟩ | ⟨-, rfl⟩ <;> decide

/-- An item stamped with the least count there is, put and looked up today. -/
def farRun : List Op :=
  [.put ⟨-2 ^ 63, UID.ofBytes [1], Sockaddr.ofBytes [2, 0, 7, 232]⟩ 1700000000000000000,
    .get ⟨0, UID.ofBytes [1], Sockaddr.ofBytes []⟩ 1700000000000000000]

/-- It is found, at an age of centuries. -/
theorem far_stamp_found : (∃ r, runOps MemPresence64.empty farRun = .ok r) ∧
    (farRun.map Op.reading).Pairwise (· ≤ ·) ∧
    ∃ pre item now, farRun = pre ++ [.get item now] ∧ ∃ rs s,
      runOps MemPresence64.empty pre = .ok (rs, s) ∧ (Presence.get s now item).1 = true ∧
      ∃ it, lastPut pre item.uid = some it ∧ Fits64 it.modified ∧ Fits64 now ∧
        ¬ seconds (now - it.modified) ≤ 180 :=
  ⟨⟨_, rfl⟩, by decide, [farRun.head (by decide)], _, _, rfl, _, _, rfl, rfl, _, rfl, by decide,
    by decide, by decide⟩

/-! ### A clock in range -/

/-- A store as the program keeps it. -/
def to64 (s : MemPresence) : MemPresence64 := ⟨s.storage⟩

/-- The stamps of a store are among some readings. -/
def Dated (R : List TaskTime) (s : MemPresence) : Prop := ∀ u r, Holds s u r → r.modified ∈ R

/-- No two of some readings are too far apart. -/
def Near (R : List TaskTime) : Prop := ∀ t ∈ R, ∀ t' ∈ R, Fits64 (t - t')

section Near

variable {R : List TaskTime} {s s' : MemPresence} {item : PresenceItem} {now : TaskTime}
  {r : Request} {a : Answer}

lemma dated_put (hs : Dated R s) (hitem : item.modified ∈ R)
    (h : Presence.put s now item = .ok s') : Dated R s' := by
  intro u q hq
  rcases holds_of_put h hq with ⟨-, rfl⟩ | ⟨-, hq'⟩
  · exact hitem
  · exact hs u q hq'

lemma dated_get (hs : Dated R s) (now : TaskTime) (item : PresenceItem) :
    Dated R (Presence.get s now item).2.2 := by
  rcases get_cases s now item with ha | ⟨q, hq, he⟩ | ⟨q, hq, he⟩
  · rw [get_absent ha]
    exact hs
  · rw [get_expired hq he]
    exact fun v q' hq' => hs v q' (holds_erase.mp hq').1
  · rw [get_live hq he]
    exact hs

lemma to64_inj : to64 s = to64 s' ↔ s = s' :=
  ⟨fun h => congrArg (fun t : MemPresence64 => (⟨t.storage⟩ : MemPresence)) h, congrArg to64⟩

/-- A cleaning pass at a reading in range is the pass of the other store. -/
lemma put_to64 (hR : Near R) (hs : Dated R s) (hnow : now ∈ R) (hitem : item.modified ∈ R) :
    Presence.put (to64 s) now item = .ok (to64 s') ↔ Presence.put s now item = .ok s' := by
  have hcongr : cleanBy (fun q => expired64 q now) (s.stored item) =
      cleanBy (fun q => q.expired now) (s.stored item) := by
    refine cleanBy_congr fun e he => expired64_eq (hR now hnow _ ?_)
    rcases mem_stored.mp he with rfl | ⟨he', -⟩
    · exact hitem
    · exact hs e.1 e.2 he'
  have hstored : (to64 s).stored item = s.stored item := rfl
  rw [putBy_eq_ok, putBy_eq_ok, hstored, hcongr]
  rfl

lemma get_to64 (hR : Near R) (hs : Dated R s) (hnow : now ∈ R) (item : PresenceItem) :
    (Presence.get (to64 s) now item).1 = (Presence.get s now item).1 ∧
      (Presence.get (to64 s) now item).2.1 = (Presence.get s now item).2.1 ∧
      (Presence.get (to64 s) now item).2.2 = to64 (Presence.get s now item).2.2 := by
  have heq : ∀ q, Holds s item.uid q → expired64 q now = q.expired now := fun q hq =>
    expired64_eq (hR now hnow _ (hs _ q hq))
  rcases get_cases s now item with ha | ⟨q, hq, he⟩ | ⟨q, hq, he⟩
  · have ha' : ∀ q, ¬ Holds (to64 s) item.uid q := ha
    rw [get_absent ha, get_absent ha']
    exact ⟨rfl, rfl, rfl⟩
  · have hq' : Holds (to64 s) item.uid q := hq
    rw [get_expired hq he, get_expired hq' ((heq q hq).trans he)]
    exact ⟨rfl, rfl, rfl⟩
  · have hq' : Holds (to64 s) item.uid q := hq
    rw [get_live hq he, get_live hq' ((heq q hq).trans he)]
    exact ⟨rfl, rfl, rfl⟩

lemma reply_to64 (hR : Near R) (hs : Dated R s) (hnow : now ∈ R) (dest : UID)
    (item : PresenceItem) : reply dest (Presence.get (to64 s) now item) =
      reply dest (Presence.get s now item) := by
  obtain ⟨hf, hitem, -⟩ := get_to64 hR hs hnow item
  unfold reply
  rw [hf, hitem]

/-- A request whose readings are in range of the stamps. -/
lemma handle_to64 (hR : Near R) (hs : Dated R s) (hr : ∀ t ∈ r.readings, t ∈ R) :
    handle (to64 s) r = .ok (a, to64 s') ↔ handle s r = .ok (a, s') := by
  obtain ⟨addr, buf, now⟩ := r
  unfold Request.readings at hr
  unfold handle
  dsimp only at hr ⊢
  rcases buf_cases buf with ho | ⟨src, rfl⟩ | ⟨src, dest, rfl⟩
  · rw [query_other s addr now ho, query_other (to64 s) addr now ho]
    simp only [Except.ok.injEq, Prod.mk.injEq, to64_inj]
  · rw [now.taken_ping] at hr
    have hctor : now.ctor ∈ R := hr _ (by simp)
    rw [query_ping, query_ping, put_to64 hR hs (hr _ (by simp)) hctor]
  · rw [now.taken_lookup] at hr
    have hctor : now.ctor ∈ R := hr _ (by simp)
    have hput : now.put ∈ R := hr _ (by simp)
    have hget : now.get ∈ R := hr _ (by simp)
    rw [query_lookup, query_lookup]
    constructor
    · rintro ⟨s₁, hp, rfl, hs'⟩
      have hp' : Presence.put s now.put (PresenceItem.ofUidAddr now.ctor src addr) =
        .ok ⟨s₁.storage⟩ := (put_to64 hR hs hput hctor).mp hp
      have h₁ := dated_put hs hctor hp'
      obtain ⟨-, -, hstore⟩ := get_to64 hR h₁ hget (PresenceItem.ofUidAddr now.ctor dest addr)
      exact ⟨_, hp', reply_to64 hR h₁ hget dest _, to64_inj.mp (hs'.trans hstore)⟩
    · rintro ⟨s₁, hp, rfl, rfl⟩
      have h₁ := dated_put hs hctor hp
      obtain ⟨-, -, hstore⟩ := get_to64 hR h₁ hget (PresenceItem.ofUidAddr now.ctor dest addr)
      exact ⟨to64 s₁, (put_to64 hR hs hput hctor).mpr hp, (reply_to64 hR h₁ hget dest _).symm,
        hstore.symm⟩

lemma dated_handle (hs : Dated R s) (hr : ∀ t ∈ r.readings, t ∈ R) (h : handle s r = .ok (a, s')) :
    Dated R s' := by
  have hctor : IsRequest r.buf → r.item.modified ∈ R := by
    intro hreq
    refine hr _ ?_
    unfold Request.readings Readings.taken
    rcases hreq with h16 | h32
    · rw [if_pos h16]
      exact List.mem_cons_self
    · rw [if_neg (by omega), if_pos h32]
      exact List.mem_cons_self
  rcases handle_cases h with ⟨-, -, rfl⟩ | ⟨src, hbuf, hp, -⟩ | ⟨src, dest, s₁, hbuf, hp, -, rfl⟩
  · exact hs
  · exact dated_put hs (hctor (hbuf ▸ isRequest_ping src)) hp
  · exact dated_get (dated_put hs (hctor (hbuf ▸ isRequest_lookup src dest)) hp) _ _

end Near

lemma serve_to64_from {R : List TaskTime} (hR : Near R) {s s' : MemPresence} {rs : List Request}
    {as : List Answer} (hs : Dated R s) (hrs : ∀ t ∈ rs.flatMap Request.readings, t ∈ R) :
    serve (to64 s) rs = .ok (as, to64 s') ↔ serve s rs = .ok (as, s') := by
  induction rs generalizing s as with
  | nil => simp only [run_nil, Except.ok.injEq, Prod.mk.injEq, to64_inj]
  | cons r rs ih =>
    rw [List.flatMap_cons] at hrs
    have hr : ∀ t ∈ r.readings, t ∈ R := fun t ht => hrs t (List.mem_append_left _ ht)
    have hrest : ∀ t ∈ rs.flatMap Request.readings, t ∈ R := fun t ht =>
      hrs t (List.mem_append_right _ ht)
    rw [run_cons_eq_ok, run_cons_eq_ok]
    constructor
    · rintro ⟨a, s₁, as₁, h, hrun, rfl⟩
      have h' : handle s r = .ok (a, ⟨s₁.storage⟩) := (handle_to64 hR hs hr).mp h
      exact ⟨a, _, as₁, h', (ih (dated_handle hs hr h') hrest).mp hrun, rfl⟩
    · rintro ⟨a, s₁, as₁, h, hrun, rfl⟩
      exact ⟨a, to64 s₁, as₁, (handle_to64 hR hs hr).mpr h,
        (ih (dated_handle hs hr h) hrest).mpr hrun, rfl⟩

/-- **The service on the clock of the program.** A run of requests whose readings are in range
of each other, as those of a clock set after 1970 are, has the same answers and leaves the same
records whether the differences are taken in 64 bits or not. -/
theorem serve_to64 (rs : List Request) (hR : Near (rs.flatMap Request.readings)) (as : List Answer)
    (s : MemPresence) :
    serve MemPresence64.empty rs = .ok (as, to64 s) ↔ serve MemPresence.empty rs = .ok (as, s) :=
  serve_to64_from hR (fun u q hq => absurd hq (not_holds_empty u q))
    fun _ ht => ht

end SimplePresence.Clock
