import SimplePresence.Service
import SimplePresence.Cleaning

/-!
What keeps the service up, and what brings it down.

The cleaner is defined as long as the last record in the order of identifiers is not expired.
A peer that has the greatest identifier and pings in time keeps every pass defined, whatever
the others do; one that has it and falls silent can end the service with its next request.
-/

namespace SimplePresence.Uptime

open SimplePresence.Uid SimplePresence.Item SimplePresence.OrderedMap SimplePresence.Query
open SimplePresence.Store SimplePresence.Log SimplePresence.Machine SimplePresence.Service
open SimplePresence.Sweep SimplePresence.Cleaning

/-! ### The greatest identifiers -/

/-- The greatest identifier, and the one below it. -/
def top : UID := UID.ofBytes (List.replicate 16 255)
def next : UID := UID.ofBytes (List.replicate 15 255 ++ [254])

lemma memcmp_top (s : List UInt8) (n : ℕ) : memcmp s (List.replicate n 255) ≤ 0 := by
  induction s generalizing n with
  | nil => cases n <;> exact le_rfl
  | cons a s ih =>
    cases n with
    | zero => exact le_rfl
    | succ n =>
      rw [List.replicate_succ, memcmp]
      split_ifs with ha
      · exact ih n
      · have hlt := a.toNat_lt
        have h255 : (255 : UInt8).toNat = 255 := rfl
        omega

lemma le_top (u : UID) : u ≤ top := UID.le_def.mpr (memcmp_top u.data 16)

lemma memcmp_next {s : List UInt8} {n : ℕ} (h : s.length = n + 1) :
    memcmp s (List.replicate n 255 ++ [254]) ≤ 0 ∨ s = List.replicate (n + 1) 255 := by
  induction n generalizing s with
  | zero =>
    obtain ⟨a, rfl⟩ := List.length_eq_one_iff.mp h
    have hlt := a.toNat_lt
    have h254 : (254 : UInt8).toNat = 254 := rfl
    have h255 : (255 : UInt8).toNat = 255 := rfl
    rw [List.replicate_zero, List.nil_append, memcmp]
    split_ifs with ha
    · exact Or.inl le_rfl
    · by_cases htop : a = 255
      · exact Or.inr (by rw [htop]; rfl)
      · have hne : a.toNat ≠ 255 := fun h => htop (UInt8.toNat_inj.mp h)
        exact Or.inl (by omega)
  | succ n ih =>
    cases s with
    | nil => cases h
    | cons a s =>
      rw [List.replicate_succ, List.cons_append, memcmp]
      split_ifs with ha
      · subst ha
        rcases ih (Nat.succ_inj.mp h) with hle | rfl
        · exact Or.inl hle
        · exact Or.inr rfl
      · have hlt := a.toNat_lt
        have h255 : (255 : UInt8).toNat = 255 := rfl
        exact Or.inl (by omega)

/-- Nothing is between them. -/
lemma le_next {u : UID} (h : u < top) : u ≤ next := by
  rcases memcmp_next (n := 15) u.length_data with hle | htop
  · exact UID.le_def.mpr hle
  · have heq : u = top := UID.ext htop
    exact absurd h (heq ▸ lt_irrefl _)

lemma next_lt_top : next < top := by decide

/-! ### What a request leaves of a record -/

section Keep

variable {s s' : MemPresence} {r : Request} {a : Answer} {u : UID} {rec : PresenceItemRec}

/-- A lookup erases no record that is not expired. -/
lemma holds_get (h : Holds s u rec) {now : TaskTime} (he : rec.expired now = false)
    (item : PresenceItem) : Holds (Presence.get s now item).2.2 u rec := by
  rcases get_cases s now item with ha | ⟨q, hq, hq'⟩ | ⟨q, hq, hq'⟩
  · rw [get_absent ha]
    exact h
  · rw [get_expired hq hq']
    refine holds_erase.mpr ⟨h, ?_⟩
    rintro rfl
    cases Map.eq_of_mem h hq rfl
    rw [he] at hq'
    cases hq'
  · rw [get_live hq hq']
    exact h

lemma put_mem_readings (hreq : IsRequest r.buf) : r.now.put ∈ r.readings := by
  unfold Request.readings
  rcases buf_cases r.buf with ho | ⟨src, hbuf⟩ | ⟨src, dest, hbuf⟩
  · exact absurd hreq ho
  · rw [hbuf, r.now.taken_ping]
    exact List.mem_cons_of_mem _ List.mem_cons_self
  · rw [hbuf, r.now.taken_lookup]
    exact List.mem_cons_of_mem _ List.mem_cons_self

/-- A record that is not expired at the readings of a request is there after it, if it was there
before or is that of the request. -/
lemma holds_handle (h : handle s r = .ok (a, s'))
    (hu : r.Bears u ∧ rec = recOf r.item ∨ ¬ r.Bears u ∧ Holds s u rec)
    (he : ∀ t ∈ r.readings, rec.expired t = false) : Holds s' u rec := by
  have hstored : ∀ s₁, IsRequest r.buf → Presence.put s r.now.put r.item = .ok s₁ →
      Holds s₁ u rec := by
    intro s₁ hreq hp
    refine put_holds hp ?_ (he _ (put_mem_readings hreq))
    rcases hu with ⟨hb, rfl⟩ | ⟨hb, hs⟩
    · exact Or.inl ⟨(Request.bears_iff.mp hb).2.symm, rfl⟩
    · exact Or.inr ⟨fun heq => hb (Request.bears_iff.mpr ⟨hreq, heq.symm⟩), hs⟩
  rcases handle_cases h with ⟨ho, -, rfl⟩ | ⟨src, hbuf, hp, -⟩ | ⟨src, dest, s₁, hbuf, hp, -, rfl⟩
  · exact (hu.resolve_left fun hb => ho hb.1.1).2
  · exact hstored s' (hbuf ▸ isRequest_ping src) hp
  · have hget : r.now.get ∈ r.readings := by
      unfold Request.readings
      rw [hbuf, r.now.taken_lookup]
      exact List.mem_cons_of_mem _ (List.mem_cons_of_mem _ List.mem_cons_self)
    exact holds_get (hstored s₁ (hbuf ▸ isRequest_lookup src dest) hp) (he _ hget) _

/-- A request is handled exactly when its item can be stored. -/
lemma handle_isOk_iff (hreq : IsRequest r.buf) :
    (∃ x, handle s r = .ok x) ↔ Even (expiredTail (s.stored r.item) r.now.put) := by
  rw [← put_defined_iff]
  constructor
  · rintro ⟨⟨a, s'⟩, h⟩
    rcases handle_cases h with ⟨ho, -⟩ | ⟨src, -, hp, -⟩ | ⟨src, dest, s₁, -, hp, -⟩
    · exact absurd hreq ho
    · exact ⟨s', hp⟩
    · exact ⟨s₁, hp⟩
  · rintro ⟨s₁, hp⟩
    unfold handle
    rcases buf_cases r.buf with ho | ⟨src, hbuf⟩ | ⟨src, dest, hbuf⟩
    · exact absurd hreq ho
    · have hitem : r.item = PresenceItem.ofUidAddr r.now.ctor src r.addr := by
        rw [Request.item, hbuf, UID.ofBytes_data]
      rw [hbuf]
      exact ⟨_, query_ping.mpr ⟨hitem ▸ hp, rfl⟩⟩
    · have hitem : r.item = PresenceItem.ofUidAddr r.now.ctor src r.addr := by
        rw [Request.item, hbuf, UID.ofBytes_append]
      rw [hbuf]
      exact ⟨_, query_lookup.mpr ⟨s₁, hitem ▸ hp, rfl, rfl⟩⟩

lemma handle_error {e : Fault} (h : handle s r = .error e) : e = .incrementEnd := by
  unfold handle query at h
  dsimp only at h
  split_ifs at h
  · rcases hp : Presence.put s r.now.put (PresenceItem.ofUidAddr r.now.ctor (UID.ofBytes r.buf)
        r.addr) with e' | s₁
    · rw [hp] at h
      cases h
      exact put_error hp
    · rw [hp] at h
      cases h
  · rcases hp : Presence.put s r.now.put (PresenceItem.ofUidAddr r.now.ctor (UID.ofBytes r.buf)
        r.addr) with e' | s₁
    · rw [hp] at h
      cases h
      exact put_error hp
    · rw [hp] at h
      dsimp only at h
      split at h <;> cases h

end Keep

/-- A record that no request of a run replaces, and that is not expired when they come. -/
lemma holds_run {s s' : MemPresence} {mid : List Request} {as : List Answer} {u : UID}
    {rec : PresenceItemRec} (h : serve s mid = .ok (as, s')) (hs : Holds s u rec)
    (hmid : ∀ r ∈ mid, ¬ r.Bears u ∧ ∀ t ∈ r.readings, rec.expired t = false) :
    Holds s' u rec := by
  induction mid generalizing s as with
  | nil =>
    cases h
    exact hs
  | cons r mid ih =>
    obtain ⟨a, s₁, as₁, hr, hrest, rfl⟩ := run_cons_eq_ok.mp h
    obtain ⟨hu, he⟩ := hmid r List.mem_cons_self
    have hs₁ := holds_handle hr (Or.inr ⟨hu, hs⟩) he
    exact ih hrest hs₁ fun q hq => hmid q (List.mem_cons_of_mem _ hq)

/-! ### A sentinel -/

section Sentinel

variable {pre : List Request} {r q : Request} {u : UID} {s : MemPresence} {as : List Answer}

/-- What is stored under an identifier was registered by a request. -/
lemma exists_request_of_holds (hs : Sound s (requestLog pre)) {v : UID} {rec : PresenceItemRec}
    (h : Holds s v rec) : ∃ q ∈ pre, IsRequest q.buf ∧ q.item.uid = v := by
  obtain ⟨it, hit, -⟩ := hs v rec h
  rw [last_requestLog] at hit
  obtain ⟨q, hq, -⟩ := Option.map_eq_some_iff.mp hit
  have hmem := List.mem_reverse.mp (List.mem_of_find?_eq_some hq)
  have hb : q.Bears v := by simpa using List.find?_some hq
  exact ⟨q, hmem, Request.bears_iff.mp hb⟩

/-- When the last record of the map is not expired, none is at its end. -/
lemma expiredTail_eq_zero {rec : PresenceItemRec} {now : TaskTime} {item : PresenceItem}
    (hmem : (u, rec) ∈ (s.stored item).entries) (he : rec.expired now = false)
    (hmax : ∀ e ∈ (s.stored item).entries, e.1 ≤ u) : expiredTail (s.stored item) now = 0 := by
  obtain ⟨l, hl⟩ := exists_append_of_max (s.stored item).sorted hmem hmax
  unfold expiredTail
  rw [hl]
  exact trail_concat_neg (stale now) he l

/-- When a request is stored, the last one to register `u` is in the map, if it is fresh. -/
lemma mem_stored_of_fresh (hreq : IsRequest r.buf)
    (hc : ((pre ++ [r]).flatMap Request.readings).Pairwise (· ≤ ·))
    (h : serve MemPresence.empty pre = .ok (as, s)) (hq : lastRequest (pre ++ [r]) u = some q)
    (hf : q.Fresh r.now.put) : (u, recOf q.item) ∈ (s.stored r.item).entries := by
  rw [lastRequest_concat] at hq
  split_ifs at hq with hb
  · cases hq
    exact mem_stored.mpr (Or.inl (by rw [(Request.bears_iff.mp hb).2]))
  · refine mem_stored.mpr (Or.inr ⟨?_, fun hu => hb (Request.bears_iff.mpr ⟨hreq, hu.symm⟩)⟩)
    have hlast : (requestLog pre).last u = some q.item := by
      rw [last_requestLog, hq]
      rfl
    obtain ⟨t, ht⟩ := exists_pairwise_cons hc
    rw [List.flatMap_append, List.flatMap_singleton] at ht
    obtain ⟨hc₁, hc₂⟩ := pairwise_latest ht
    have hle := (List.pairwise_cons.mp hc₂).1 _ (put_mem_readings hreq)
    have he := unexpired_mono hle ((q.expired_item _).mpr hf)
    exact (serve_tracks hc₁ h).2.live u q.item hlast he

/-- **A sentinel keeps the service up.** Take any requests, with a clock that never runs
backwards. If no identifier comes after `u`, and whenever a request is stored the last one to
register `u` was recorded less than 181 s before, then every pass of the cleaner is defined, and
the service answers as the log of its requests does. -/
theorem sentinel_keeps_service (u : UID) (rs : List Request)
    (hclock : (rs.flatMap Request.readings).Pairwise (· ≤ ·))
    (htop : ∀ r ∈ rs, IsRequest r.buf → r.item.uid ≤ u)
    (hfresh : ∀ pre r post, rs = pre ++ r :: post → IsRequest r.buf →
      ∃ q, lastRequest (pre ++ [r]) u = some q ∧ q.Fresh r.now.put) :
    ∃ as s, serve MemPresence.empty rs = .ok (as, s) ∧
      serve PresenceLog.empty rs = .ok (as, requestLog rs) := by
  have hdef : ∃ x, serve MemPresence.empty rs = .ok x := by
    refine run_isOk_iff.mpr fun pre r post hrs as s hpre => ?_
    by_cases hreq : IsRequest r.buf
    · obtain ⟨q, hq, hf⟩ := hfresh pre r post hrs hreq
      have hc : ((pre ++ [r]).flatMap Request.readings).Pairwise (· ≤ ·) := by
        rw [hrs, List.append_cons, List.flatMap_append] at hclock
        exact (List.pairwise_append.mp hclock).1
      have hmax : ∀ e ∈ (s.stored r.item).entries, e.1 ≤ u := by
        intro e he
        rcases mem_stored.mp he with rfl | ⟨hold, -⟩
        · exact htop r (by simp [hrs]) hreq
        · obtain ⟨p, hp, hpreq, huid⟩ := exists_request_of_holds (serve_sound hpre) hold
          exact huid ▸ htop p (by simp [hrs, hp]) hpreq
      have hzero := expiredTail_eq_zero (mem_stored_of_fresh hreq hc hpre hq hf)
        ((q.expired_item _).mpr hf) hmax
      refine (handle_isOk_iff hreq).mpr ?_
      rw [hzero]
      exact Even.zero
    · exact ⟨_, query_other s r.addr r.now hreq⟩
  obtain ⟨⟨as, s⟩, h⟩ := hdef
  obtain ⟨t, ht⟩ := exists_pairwise_cons hclock
  exact ⟨as, s, h, (serve_tracks ht h).1⟩

/-- A sentinel that pings every 100 seconds, and a peer that comes and goes. -/
def sentinelPing (t : TaskTime) : Request := ⟨Sockaddr.ofBytes [2, 0, 7, 232], top.data, ⟨t, t, t⟩⟩
def watched : List Request :=
  [sentinelPing 0, pinged, sentinelPing (100 * ticksPerSec), sentinelPing (200 * ticksPerSec)]

theorem sentinel_keeps_service_watched : ∃ as s, serve MemPresence.empty watched = .ok (as, s) ∧
    serve PresenceLog.empty watched = .ok (as, requestLog watched) := by
  refine sentinel_keeps_service top watched (by decide) (fun r _ _ => le_top _) ?_
  intro pre r post h _
  unfold watched at h
  rcases pre with _ | ⟨a, _ | ⟨b, _ | ⟨c, _ | ⟨d, _ | ⟨e, pre⟩⟩⟩⟩⟩
  all_goals
    simp only [List.nil_append, List.cons_append, List.cons.injEq, List.nil_eq] at h
  · obtain ⟨rfl, -⟩ := h
    exact ⟨_, rfl, by decide⟩
  · obtain ⟨rfl, rfl, -⟩ := h
    exact ⟨_, rfl, by decide⟩
  · obtain ⟨rfl, rfl, rfl, -⟩ := h
    exact ⟨_, rfl, by decide⟩
  · obtain ⟨rfl, rfl, rfl, rfl, -⟩ := h
    exact ⟨_, rfl, by decide⟩
  · exact absurd h.2.2.2.2 (by simp)
  · exact absurd h.2.2.2.2 (by simp)

end Sentinel

/-! ### An attack -/

section Attack

variable {s s' : MemPresence} {mid post : List Request} {r₁ r₂ : Request}

/-- With the greatest identifier expired and the one below it not, one record is at the end. -/
lemma expiredTail_eq_one {rec : PresenceItemRec} {now : TaskTime} {item : PresenceItem}
    (hnext : item.uid = next) (hfresh : (recOf item).expired now = false)
    (htop : Holds s top rec) (hlate : rec.expired now = true) :
    expiredTail (s.stored item) now = 1 := by
  have hstored : (next, recOf item) ∈ (s.stored item).entries :=
    mem_stored.mpr (Or.inl (by rw [hnext]))
  have hold : (top, rec) ∈ (s.stored item).entries :=
    mem_stored.mpr (Or.inr ⟨htop, hnext ▸ next_lt_top.ne'⟩)
  obtain ⟨l, hl⟩ := exists_append_of_covers (s.stored item).sorted hstored hold next_lt_top
    (fun e _ => le_top e.1) fun e _ => le_next
  unfold expiredTail
  rw [hl, List.append_cons, trail_concat_pos (stale now) hlate,
    trail_concat_neg (stale now) hfresh]

/-- **Two requests end the service.** Take any store. A peer registers the greatest identifier
and is silent; whatever the others send while it is fresh, unless they use that identifier, the
next request to come, under the identifier below it, makes the cleaner step past the end of the
map, if no request before it has. -/
theorem two_requests_end_service (s : MemPresence) (r₁ r₂ : Request) (mid post : List Request)
    (h₁ : r₁.Bears top) (hmid : ∀ r ∈ mid, ¬ r.Bears top)
    (hfresh : ∀ r ∈ r₁ :: mid, ∀ t ∈ r.readings, r₁.Fresh t)
    (h₂ : r₂.Bears next) (hself : r₂.Fresh r₂.now.put) (hlate : ¬ r₁.Fresh r₂.now.put) :
    (∀ as s₂, serve s (r₁ :: mid) = .ok (as, s₂) → handle s₂ r₂ = .error .incrementEnd) ∧
      serve s (r₁ :: (mid ++ r₂ :: post)) = .error .incrementEnd := by
  have hlast : ∀ as s₂, serve s (r₁ :: mid) = .ok (as, s₂) →
      handle s₂ r₂ = .error .incrementEnd := by
    intro as s₂ h
    obtain ⟨a₁, s₁, as₁, hr₁, hrun, -⟩ := run_cons_eq_ok.mp h
    have hunexpired : ∀ r ∈ r₁ :: mid, ∀ t ∈ r.readings, (recOf r₁.item).expired t = false :=
      fun r hr t ht => (r₁.expired_item t).mpr (hfresh r hr t ht)
    have hs₁ := holds_handle hr₁ (Or.inl ⟨h₁, rfl⟩) (hunexpired r₁ List.mem_cons_self)
    have hs₂ := holds_run hrun hs₁ fun r hr =>
      ⟨hmid r hr, hunexpired r (List.mem_cons_of_mem _ hr)⟩
    -- what the pass of the second request finds at the end of the map
    have hexpired : (recOf r₁.item).expired r₂.now.put = true := by
      by_contra hne
      exact hlate ((r₁.expired_item _).mp (Bool.eq_false_of_not_eq_true hne))
    obtain ⟨hreq, huid⟩ := Request.bears_iff.mp h₂
    have hone := expiredTail_eq_one huid ((r₂.expired_item _).mpr hself) hs₂ hexpired
    cases h : handle s₂ r₂ with
    | error e => rw [handle_error h]
    | ok x =>
      have heven := (handle_isOk_iff hreq).mp ⟨x, h⟩
      rw [hone] at heven
      exact absurd heven Nat.not_even_one
  refine ⟨hlast, ?_⟩
  cases h : serve s (r₁ :: (mid ++ r₂ :: post)) with
  | error e =>
    obtain ⟨t, r, -, hr⟩ := run_eq_error h
    rw [handle_error hr]
  | ok x =>
    have hsplit : serve s ((r₁ :: mid) ++ r₂ :: post) = .ok (x.1, x.2) := h
    obtain ⟨as, s₂, a, s₃, as', hrun, hr₂, -, -⟩ := run_split hsplit
    rw [hlast as s₂ hrun] at hr₂
    cases hr₂

/-- The last ping of the sentinel, and one under the identifier below it. -/
def fatal : Request :=
  ⟨Sockaddr.ofBytes [2, 0, 7, 233], next.data, ⟨181 * ticksPerSec, 181 * ticksPerSec, 0⟩⟩

theorem two_requests_end_service_fatal :
    (∃ as s₂, serve MemPresence.empty [sentinelPing 0, pinged] = .ok (as, s₂) ∧
      handle s₂ fatal = .error .incrementEnd) ∧
    serve MemPresence.empty (sentinelPing 0 :: ([pinged] ++ fatal :: [])) =
      .error .incrementEnd := by
  obtain ⟨hlast, hrun⟩ := two_requests_end_service MemPresence.empty (sentinelPing 0) fatal
    [pinged] [] (Request.bears_ping rfl) (by decide) (by decide) (Request.bears_ping rfl)
    (by decide) (by decide)
  exact ⟨⟨_, _, rfl, hlast _ _ rfl⟩, hrun⟩

end Attack

end SimplePresence.Uptime
