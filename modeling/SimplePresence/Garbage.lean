import SimplePresence.Log
import Mathlib.Data.List.Perm.Subperm

/-!
How much the cleaner leaves.

A pass that is defined may pass over expired records, but over one at most for each that it
erases. So half of them are gone after it, and what piles up over a run is bounded by what
expires between two passes.
-/

namespace SimplePresence.Garbage

open SimplePresence.Uid SimplePresence.Item SimplePresence.OrderedMap SimplePresence.Query
open SimplePresence.Store SimplePresence.Log SimplePresence.Sweep SimplePresence.Machine

/-- The number of records of a store that are expired. -/
def garbage (now : TaskTime) (s : MemPresence) : ℕ := s.storage.entries.countP (stale now)

variable {s s' : MemPresence} {now t t' : TaskTime} {item : PresenceItem} {ops : List Op}
  {outs : List (Option (Bool × PresenceItem))}

/-! ### One call -/

/-- A `put` leaves half of what is expired when it cleans. -/
lemma two_mul_garbage_put (h : Presence.put s now item = .ok s') :
    2 * garbage now s' ≤ garbage now s + if (recOf item).expired now then 1 else 0 := by
  have hsweep := two_mul_countP_sweep_le _ (cleanExpired_eq_ok.mp (put_eq_ok.mp h))
  have hinsert := countP_insertEntry_le (stale now) item.uid (recOf item) s.storage.entries
  exact hsweep.trans hinsert

lemma garbage_get_le (s : MemPresence) (now t : TaskTime) (item : PresenceItem) :
    garbage t (Presence.get s now item).2.2 ≤ garbage t s := by
  rcases get_cases s now item with ha | ⟨r, hr, he⟩ | ⟨r, hr, he⟩
  · rw [get_absent ha]
  · rw [get_expired hr he]
    exact (List.eraseIdx_sublist _ _).countP_le
  · rw [get_live hr he]

/-! ### While nothing expires -/

/-- No record of the store expires between `t` and `t'`. -/
def Quiet (t t' : TaskTime) (s : MemPresence) : Prop :=
  ∀ u r, Holds s u r → r.expired t' = true → r.expired t = true

lemma expired_mono {r : PresenceItemRec} (h : t ≤ t') (he : r.expired t = true) :
    r.expired t' = true := by
  by_contra hne
  have hfalse := unexpired_mono h (Bool.eq_false_of_not_eq_true hne)
  rw [he] at hfalse
  cases hfalse

lemma garbage_of_quiet (hq : Quiet t t' s) (h : t ≤ now) (h' : now ≤ t') :
    garbage now s = garbage t s := by
  refine List.countP_congr fun e he => ⟨fun hnow => ?_, expired_mono h⟩
  exact hq e.1 e.2 he (expired_mono h' hnow)

lemma quiet_get (hq : Quiet t t' s) (now : TaskTime) (item : PresenceItem) :
    Quiet t t' (Presence.get s now item).2.2 := by
  rcases get_cases s now item with ha | ⟨r, hr, he⟩ | ⟨r, hr, he⟩
  · rw [get_absent ha]
    exact hq
  · rw [get_expired hr he]
    exact fun u r' hr' => hq u r' (holds_erase.mp hr').1
  · rw [get_live hr he]
    exact hq

lemma quiet_put (hq : Quiet t t' s) (hfresh : (recOf item).expired t' = false)
    (h : Presence.put s now item = .ok s') : Quiet t t' s' := by
  intro u r hr he
  rcases holds_of_put h hr with ⟨-, rfl⟩ | ⟨-, hr'⟩
  · rw [hfresh] at he
    cases he
  · exact hq u r hr' he

/-- How many of some calls store. -/
def puts (ops : List Op) : ℕ := (ops.filterMap Op.stored).length

/-- **Every `put` halves what is expired.** Take any store and any run of calls during which
nothing in it expires and nothing is put that has. After `k` of them that put, what is expired
is no more than the `2 ^ k`th part of what was; so in the end nothing is. -/
theorem garbage_halves (h : runOps s ops = .ok (outs, s'))
    (hclock : ∀ op ∈ ops, t ≤ op.reading ∧ op.reading ≤ t') (hquiet : Quiet t t' s)
    (hfresh : ∀ it ∈ ops.filterMap Op.stored, (recOf it).expired t' = false) :
    2 ^ puts ops * garbage t s' ≤ garbage t s ∧
      (garbage t s < 2 ^ puts ops → ∀ u r, Holds s' u r → r.expired t' = false) := by
  have hrun := run_induction (I := fun ops _ s' =>
    (∀ op ∈ ops, t ≤ op.reading ∧ op.reading ≤ t') →
      (∀ it ∈ ops.filterMap Op.stored, (recOf it).expired t' = false) →
        Quiet t t' s' ∧ 2 ^ puts ops * garbage t s' ≤ garbage t s)
    (fun _ _ => ⟨hquiet, (Nat.one_mul _).le⟩) (fun ops outs s₁ op o s₂ ih hs hc hf => ?_) h
  · obtain ⟨hq, hle⟩ := hrun hclock hfresh
    refine ⟨hle, fun hlt u r hr => ?_⟩
    have hzero : garbage t s' = 0 := by
      by_contra hne
      have hpos := Nat.le_mul_of_pos_right (2 ^ puts ops) (Nat.pos_of_ne_zero hne)
      omega
    refine Bool.eq_false_of_not_eq_true fun he => ?_
    exact List.countP_eq_zero.mp hzero (u, r) hr (hq u r hr he)
  · obtain ⟨hq, hle⟩ := ih (fun op hop => hc op (List.mem_append_left _ hop)) fun it hit => by
      refine hf it ?_
      rw [List.filterMap_append]
      exact List.mem_append_left _ hit
    have hreading := hc op (List.mem_append_right _ List.mem_cons_self)
    cases op with
    | get item now =>
      obtain ⟨-, rfl⟩ := step_get.mp hs
      have hputs : puts (ops ++ [.get item now]) = puts ops := by
        unfold puts
        rw [List.filterMap_append]
        exact congrArg List.length (List.append_nil _)
      refine ⟨quiet_get hq now item, ?_⟩
      rw [hputs]
      exact (Nat.mul_le_mul_left _ (garbage_get_le s₁ now t item)).trans hle
    | put item now =>
      obtain ⟨hlow, hhigh⟩ : t ≤ now ∧ now ≤ t' := hreading
      obtain ⟨-, hp⟩ := step_put.mp hs
      have hputs : puts (ops ++ [.put item now]) = puts ops + 1 := by
        unfold puts
        rw [List.filterMap_append, List.length_append]
        rfl
      have hitem : (recOf item).expired t' = false := by
        refine hf item ?_
        rw [List.filterMap_append]
        exact List.mem_append_right _ List.mem_cons_self
      have hq₂ := quiet_put hq hitem hp
      have hnow : (recOf item).expired now = false := unexpired_mono hhigh hitem
      have hhalf : 2 * garbage t s₂ ≤ garbage t s₁ := by
        have hpass := two_mul_garbage_put hp
        rw [garbage_of_quiet hq₂ hlow hhigh, garbage_of_quiet hq hlow hhigh, hnow] at hpass
        exact hpass
      refine ⟨hq₂, ?_⟩
      calc 2 ^ puts (ops ++ [.put item now]) * garbage t s₂
          = 2 ^ puts ops * (2 * garbage t s₂) := by rw [hputs, pow_succ, mul_assoc]
        _ ≤ 2 ^ puts ops * garbage t s₁ := Nat.mul_le_mul_left _ hhalf
        _ ≤ garbage t s := hle

/-- Four registrations, and one 200 seconds later. -/
def fourPuts : List Op :=
  [1, 2, 3, 4].map fun b => .put ⟨0, UID.ofBytes [b], Sockaddr.ofBytes []⟩ 0
def latePut : Op :=
  .put ⟨200 * ticksPerSec, UID.ofBytes [9], Sockaddr.ofBytes []⟩ (200 * ticksPerSec)

theorem garbage_halves_fourPuts : ∃ outs s outs' s',
    runOps MemPresence.empty fourPuts = .ok (outs, s) ∧ runOps s [latePut] = .ok (outs', s') ∧
      garbage (200 * ticksPerSec) s = 4 ∧
      2 ^ puts [latePut] * garbage (200 * ticksPerSec) s' ≤ garbage (200 * ticksPerSec) s := by
  refine ⟨_, _, _, _, rfl, rfl, rfl, ?_⟩
  have hquiet : ∀ s, Quiet (200 * ticksPerSec) (200 * ticksPerSec) s := fun _ _ _ _ he => he
  exact (garbage_halves rfl (by decide) (hquiet _) (by decide)).1

/-! ### While records expire -/

/-- What the clock read in the last of some calls that puts. -/
def lastPass (ops : List Op) : Option TaskTime :=
  (ops.filterMap fun op => op.stored.map fun _ => op.reading).getLast?

/-- How many of the items put by some calls expired between the last pass and `now`. -/
def expiring (ops : List Op) (now : TaskTime) : ℕ :=
  match lastPass ops with
  | none => 0
  | some t =>
    (ops.filterMap Op.stored).countP fun it => (recOf it).expired now && !(recOf it).expired t

lemma lastPass_put (ops : List Op) (item : PresenceItem) (now : TaskTime) :
    lastPass (ops ++ [.put item now]) = some now := by
  unfold lastPass
  rw [List.filterMap_append]
  exact List.getLast?_concat

lemma lastPass_get (ops : List Op) (item : PresenceItem) (now : TaskTime) :
    lastPass (ops ++ [.get item now]) = lastPass ops := by
  unfold lastPass
  rw [List.filterMap_append]
  exact congrArg List.getLast? (List.append_nil _)

lemma stored_of_lastPass (h : lastPass ops = none) : ops.filterMap Op.stored = [] := by
  have hnil := List.filterMap_eq_nil_iff.mp (List.getLast?_eq_none_iff.mp h)
  exact List.filterMap_eq_nil_iff.mpr fun op hop => Option.map_eq_none_iff.mp (hnil op hop)

/-- What satisfies `p` satisfies `q` already, or `p` only. -/
lemma countP_le_add {α : Type*} (p q : α → Bool) (l : List α) :
    l.countP p ≤ l.countP q + l.countP fun a => p a && !q a := by
  induction l with
  | nil => exact le_rfl
  | cons a l ih =>
    rw [List.countP_cons, List.countP_cons, List.countP_cons]
    cases p a <;> cases q a <;> simp <;> omega

/-- Records of a store are as many as the items they are of, or fewer. -/
lemma countP_entries_le {l : PresenceLog} (hs : Sound s l) (f : PresenceItemRec → Bool) :
    (s.storage.entries.countP fun e => f e.2) ≤ l.items.countP fun it => f (recOf it) := by
  rw [List.countP_eq_length_filter, List.countP_eq_length_filter,
    ← List.length_map (f := Prod.fst), ← List.length_map (f := PresenceItem.uid)]
  have hnodup : (s.storage.entries.map Prod.fst).Nodup :=
    List.pairwise_map.mpr (s.storage.sorted.imp fun hlt => ne_of_lt hlt)
  have hsub : (s.storage.entries.filter fun e => f e.2).map Prod.fst ⊆
      (l.items.filter fun it => f (recOf it)).map PresenceItem.uid := by
    intro u hu
    obtain ⟨⟨u, r⟩, hr, rfl⟩ := List.mem_map.mp hu
    obtain ⟨hmem, hf⟩ := List.mem_filter.mp hr
    obtain ⟨it, hlast, rfl⟩ := hs u r hmem
    have huid : it.uid = u := by simpa using List.find?_some hlast
    refine List.mem_map.mpr ⟨it, List.mem_filter.mpr ⟨List.mem_of_find?_eq_some hlast, hf⟩, huid⟩
  have hfilter := hnodup.sublist ((List.filter_sublist (p := fun e => f e.2)).map Prod.fst)
  exact (List.subperm_of_subset hfilter hsub).length_le

/-- **What piles up.** Take any run of calls on an empty store, the clock as it likes. If the items
that expire between two passes, with the one that is put, are `n` at most each time, then the
store holds `n` expired records at most after every pass. -/
theorem garbage_bounded {n : ℕ} (h : runOps MemPresence.empty ops = .ok (outs, s))
    (hrate : ∀ pre item now post, ops = pre ++ .put item now :: post →
      (expiring pre now + if (recOf item).expired now then 1 else 0) ≤ n) :
    ∀ t, lastPass ops = some t → garbage t s ≤ n := by
  induction ops using List.reverseRecOn generalizing outs s with
  | nil =>
    intro t ht
    cases ht
  | append_singleton ops op ih =>
    obtain ⟨outs₁, s₁, o, s₂, outs₂, h₁, hs, h₂, rfl⟩ := run_split h
    cases h₂
    have hrec := ih h₁ fun pre item now post hops => by
      refine hrate pre item now (post ++ [op]) ?_
      rw [hops, List.append_assoc]
      rfl
    cases op with
    | get item now =>
      intro t ht
      rw [lastPass_get] at ht
      obtain ⟨-, rfl⟩ := step_get.mp hs
      exact (garbage_get_le s₁ now t item).trans (hrec t ht)
    | put item now =>
      intro t ht
      rw [lastPass_put] at ht
      obtain rfl := Option.some.inj ht
      have hpass := two_mul_garbage_put (step_put.mp hs).2
      have hnew := hrate ops item now [] rfl
      have hold : garbage now s₁ ≤ n + expiring ops now := by
        have hentries := countP_entries_le (sound_run h₁)
        have hitems : (logOf ops).items = (ops.filterMap Op.stored).reverse := rfl
        cases hlast : lastPass ops with
        | none =>
          have hempty : (logOf ops).items = [] := by
            rw [hitems, stored_of_lastPass hlast]
            rfl
          have hle := hentries fun r => r.expired now
          rw [hempty] at hle
          exact hle.trans (Nat.zero_le _)
        | some t =>
          have hsplit : s₁.storage.entries.countP (stale now) ≤
              s₁.storage.entries.countP (stale t) +
                s₁.storage.entries.countP fun e => e.2.expired now && !e.2.expired t :=
            countP_le_add _ _ _
          have hle := hentries fun r => r.expired now && !r.expired t
          rw [hitems, List.countP_reverse] at hle
          have hexp : expiring ops now = (ops.filterMap Op.stored).countP fun it =>
              (recOf it).expired now && !(recOf it).expired t := by
            unfold expiring
            rw [hlast]
          have hbefore := hrec t hlast
          unfold garbage at hbefore ⊢
          omega
      omega

/-- Two registrations, and one 200 seconds later. -/
def threePuts : List Op := fourPuts.take 2 ++ [latePut]

theorem garbage_bounded_threePuts : ∃ outs s,
    runOps MemPresence.empty threePuts = .ok (outs, s) ∧ garbage (200 * ticksPerSec) s ≤ 2 := by
  have hrate : ∀ pre item now post, threePuts = pre ++ .put item now :: post →
      (expiring pre now + if (recOf item).expired now then 1 else 0) ≤ 2 := by
    intro pre item now post h
    match pre, h with
    | [], h =>
      cases h
      decide
    | [_], h =>
      cases h
      decide
    | [_, _], h =>
      cases h
      decide
    | _ :: _ :: _ :: pre, h =>
      have hnil := (List.cons.inj (List.cons.inj (List.cons.inj h).2).2).2
      cases (List.append_eq_nil_iff.mp hnil.symm).2
  exact ⟨_, _, rfl, garbage_bounded rfl hrate (200 * ticksPerSec) rfl⟩

end SimplePresence.Garbage
