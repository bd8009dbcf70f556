import SimplePresence.Client
import Mathlib.Data.Finset.Max
import Mathlib.Tactic.Linarith

/-!
A client that keeps pinging stays known.

The timer of a client counts milliseconds, the age of a record is in whole seconds. A client
pings every two minutes and a record lasts three, so there is a minute to spare for a late
timer and a slow network.
-/

namespace SimplePresence.Pinging

open SimplePresence.Uid SimplePresence.Item SimplePresence.OrderedMap SimplePresence.Query
open SimplePresence.Store SimplePresence.Machine SimplePresence.Service SimplePresence.Client

/-- A millisecond. -/
def ticksPerMs : TaskTime := 1000000

/-- When `onTimer` is called for the `k`-th time: at once when the timer is started, and then
a period after the last time. Each call comes `late`. -/
def timerAt (start : TaskTime) (late : ℕ → TaskTime) : ℕ → TaskTime
  | 0 => start + late 0
  | k + 1 => timerAt start late k + defPingTimeoutMs * ticksPerMs + late (k + 1)

/-- When the `k`-th ping is recorded. -/
def recordedAt (start : TaskTime) (late transit : ℕ → TaskTime) (k : ℕ) : TaskTime :=
  timerAt start late k + transit k

/-- A request the service handles: the `k`-th ping of the client, or any other. -/
inductive Arrival
  | ping (k : ℕ) (addr : Sockaddr) (put : TaskTime)
  | other (r : Request)

namespace Arrival

def index : Arrival → Option ℕ
  | .ping k _ _ => some k
  | .other _ => none

def request {σ : Type*} [Presence σ] (c : UVClient σ) (recorded : ℕ → TaskTime) :
    Arrival → Request
  | .ping k addr put => ⟨addr, (onTimer c).buf, ⟨recorded k, put, put⟩⟩
  | .other r => r

end Arrival

lemma mem_index {l : List Arrival} {k : ℕ} :
    k ∈ l.filterMap Arrival.index ↔ ∃ addr put, Arrival.ping k addr put ∈ l := by
  rw [List.mem_filterMap]
  constructor
  · rintro ⟨_ | r, hmem, hk⟩
    · cases hk
      exact ⟨_, _, hmem⟩
    · cases hk
  · rintro ⟨addr, put, hmem⟩
    exact ⟨_, hmem, rfl⟩

/-- Of some numbers, one is not followed by the next. -/
lemma exists_succ_notMem {l : List ℕ} (h : ∃ k, k ∈ l) : ∃ k ∈ l, k + 1 ∉ l := by
  obtain ⟨k₀, hk₀⟩ := h
  obtain ⟨k, hk, hmax⟩ := l.toFinset.exists_max_image id ⟨k₀, List.mem_toFinset.mpr hk₀⟩
  refine ⟨k, List.mem_toFinset.mp hk, fun hsucc => ?_⟩
  have hle : k + 1 ≤ k := hmax _ (List.mem_toFinset.mpr hsucc)
  omega

/-- Two pings in a row are recorded less than 181 s apart. -/
lemma recordedAt_succ {start : TaskTime} {late transit : ℕ → TaskTime} {k : ℕ}
    (h : late (k + 1) + (transit (k + 1) - transit k) < 61 * ticksPerSec) :
    recordedAt start late transit (k + 1) <
      recordedAt start late transit k + 181 * ticksPerSec := by
  have hms : defPingTimeoutMs * ticksPerMs = 120 * ticksPerSec := by decide
  have hsucc : timerAt start late (k + 1) =
      timerAt start late k + defPingTimeoutMs * ticksPerMs + late (k + 1) := rfl
  calc recordedAt start late transit (k + 1)
      = timerAt start late k + 120 * ticksPerSec + late (k + 1) + transit (k + 1) := by
        rw [recordedAt, hsucc, hms]
    _ < timerAt start late k + transit k + 181 * ticksPerSec := by linarith
    _ = recordedAt start late transit k + 181 * ticksPerSec := rfl

lemma ctor_mem_readings {r : Request} (h : IsRequest r.buf) : r.now.ctor ∈ r.readings := by
  unfold Request.readings
  rcases buf_cases r.buf with ho | ⟨src, hs⟩ | ⟨src, dest, hs⟩
  · exact absurd h ho
  · rw [hs, Readings.taken_ping]
    exact List.mem_cons_self
  · rw [hs, Readings.taken_lookup]
    exact List.mem_cons_self

/-- On a clock that never runs backwards, the last request to register an identifier was not
recorded before any other that did. -/
lemma lastRequest_of_mem {rs : List Request} {p : Request} {u : UID}
    (hc : (rs.flatMap Request.readings).Pairwise (· ≤ ·)) (hp : p ∈ rs) (hu : p.Bears u) :
    ∃ q, lastRequest rs u = some q ∧ p.now.ctor ≤ q.now.ctor := by
  induction rs using List.reverseRecOn with
  | nil => cases hp
  | append_singleton rs r ih =>
    rw [List.flatMap_append, List.flatMap_singleton, List.pairwise_append] at hc
    obtain ⟨hc₁, -, hc₂⟩ := hc
    rw [lastRequest_concat]
    by_cases hr : r.Bears u
    · rw [if_pos hr]
      refine ⟨r, rfl, ?_⟩
      rcases List.mem_append.mp hp with hp | hp
      · exact hc₂ _ (List.mem_flatMap.mpr ⟨p, hp, ctor_mem_readings hu.1⟩) _
          (ctor_mem_readings hr.1)
      · rw [List.mem_singleton.mp hp]
    · rw [if_neg hr]
      refine ih hc₁ ?_
      rcases List.mem_append.mp hp with hp | hp
      · exact hp
      · rw [List.mem_singleton.mp hp] at hu
        exact absurd hu hr

section

variable {σ : Type*} [Presence σ] (c : UVClient σ)

lemma ping_bears (recorded : ℕ → TaskTime) (k : ℕ) (addr : Sockaddr) (put : TaskTime) :
    (Arrival.request c recorded (.ping k addr put)).Bears c.uid :=
  Request.bears_ping (List.take_of_length_le c.uid.size.le)

/-- A request handled before a ping took its readings before the ping was recorded. -/
lemma get_le_recorded {recorded : ℕ → TaskTime} {pre post : List Arrival} {r : Request} {k : ℕ}
    {addr : Sockaddr} {put : TaskTime}
    (hclock : ((pre ++ .other r :: post).map (Arrival.request c recorded)
      |>.flatMap Request.readings).Pairwise (· ≤ ·))
    (hget : r.now.get ∈ r.readings) (hping : .ping k addr put ∈ post) :
    r.now.get ≤ recorded k := by
  rw [List.map_append, List.map_cons, List.flatMap_append, List.flatMap_cons] at hclock
  obtain ⟨-, hlater, -⟩ := List.pairwise_append.mp hclock
  obtain ⟨-, -, hle⟩ := List.pairwise_append.mp hlater
  have hmem : Arrival.request c recorded (.ping k addr put) ∈
      post.map (Arrival.request c recorded) := List.mem_map_of_mem hping
  have hctor := ctor_mem_readings (ping_bears c recorded k addr put).1
  exact hle _ hget _ (List.mem_flatMap.mpr ⟨_, hmem, hctor⟩)

/-- At any lookup the last ping so far was recorded less than 181 s before. -/
lemma exists_fresh_ping {recorded : ℕ → TaskTime} {n : ℕ} {pre post : List Arrival} {r : Request}
    (hstep : ∀ k < n, recorded (k + 1) < recorded k + 181 * ticksPerSec)
    (hpings : ∀ k, k ∈ (pre ++ .other r :: post).filterMap Arrival.index ↔ k ≤ n)
    (hclock : ((pre ++ .other r :: post).map (Arrival.request c recorded)
      |>.flatMap Request.readings).Pairwise (· ≤ ·))
    (hfirst : ∃ k, k ∈ pre.filterMap Arrival.index) (hget : r.now.get ∈ r.readings)
    (hlast : r.now.get < recorded n + 181 * ticksPerSec) :
    ∃ k addr put, Arrival.ping k addr put ∈ pre ∧
      r.now.get < recorded k + 181 * ticksPerSec := by
  obtain ⟨k, hk, hsucc⟩ := exists_succ_notMem hfirst
  obtain ⟨addr, put, hping⟩ := mem_index.mp hk
  refine ⟨k, addr, put, hping, ?_⟩
  have hkn : k ≤ n := by
    rw [← hpings, List.filterMap_append]
    exact List.mem_append_left _ hk
  by_cases hlt : k < n
  · -- the next ping comes after the lookup
    have hnext := (hpings (k + 1)).mpr hlt
    rw [List.filterMap_append, List.mem_append] at hnext
    obtain ⟨addr', put', hping'⟩ := mem_index.mp (hnext.resolve_left hsucc)
    have hpost : Arrival.ping (k + 1) addr' put' ∈ post := by simpa using hping'
    calc r.now.get ≤ recorded (k + 1) := get_le_recorded c hclock hget hpost
      _ < recorded k + 181 * ticksPerSec := hstep k hlt
  · obtain rfl : k = n := by omega
    exact hlast

end

/-- **A pinging client is never reported absent.** Take a run of the service in which a client's
pings all arrive, the timer being late and the transit longer than that of the ping before by
less than 61 s together. From its first ping until 181 s after its last one, a lookup of the
client is answered with the address of the last request to bear its identifier. -/
theorem pinging_client_present {σ : Type*} [Presence σ] (c : UVClient σ) (start : TaskTime)
    (late transit : ℕ → TaskTime) (n : ℕ) (arrivals : List Arrival)
    (hlate : ∀ k < n, late (k + 1) + (transit (k + 1) - transit k) < 61 * ticksPerSec)
    (hpings : ∀ k, k ∈ arrivals.filterMap Arrival.index ↔ k ≤ n)
    (hclock : ((arrivals.map (Arrival.request c (recordedAt start late transit))).flatMap
      Request.readings).Pairwise (· ≤ ·))
    (hdef : ∃ r, serve MemPresence.empty
      (arrivals.map (Arrival.request c (recordedAt start late transit))) = .ok r) :
    ∀ pre r post (src : UID), arrivals = pre ++ .other r :: post →
      (∃ k, k ∈ pre.filterMap Arrival.index) → r.buf = src.data ++ c.uid.data →
      r.now.get < recordedAt start late transit n + 181 * ticksPerSec →
      ∃ as s s' q,
        serve MemPresence.empty (pre.map (Arrival.request c (recordedAt start late transit))) =
          .ok (as, s) ∧
        lastRequest (pre.map (Arrival.request c (recordedAt start late transit)) ++ [r]) c.uid =
          some q ∧
        handle s r = .ok (⟨32, c.uid.data ++ q.addr.bytes⟩, s') := by
  rintro pre r post src rfl hfirst hbuf hlast
  have hget : r.now.get ∈ r.readings := by
    unfold Request.readings
    rw [hbuf, Readings.taken_lookup]
    simp
  obtain ⟨k, addr, put, hk, hfresh⟩ := exists_fresh_ping c
    (fun k hk => recordedAt_succ (hlate k hk)) hpings hclock hfirst hget hlast
  obtain ⟨⟨as, s⟩, h⟩ := hdef
  rw [List.map_append, List.map_cons] at h hclock
  obtain ⟨as₁, s₁, a, s₂, as₂, h₁, hr, -, -⟩ := run_split h
  have hc : ((pre.map (Arrival.request c (recordedAt start late transit)) ++ [r]).flatMap
      Request.readings).Pairwise (· ≤ ·) := by
    rw [List.append_cons, List.flatMap_append] at hclock
    exact (List.pairwise_append.mp hclock).1
  obtain ⟨q, hq, hle⟩ := lastRequest_of_mem hc
    (List.mem_append_left _ (List.mem_map_of_mem hk)) (ping_bears c _ k addr put)
  have hq_fresh : q.Fresh r.now.get := by
    have hle' : recordedAt start late transit k ≤ q.now.ctor := hle
    unfold Request.Fresh
    linarith
  have ha := (lookup_answer hc h₁ hr hbuf).1 q hq hq_fresh
  exact ⟨as₁, s₁, s₂, q, h₁, hq, ha ▸ hr⟩

def pinger : UVClient MemPresence := ⟨UID.ofBytes [2], pinged.addr, MemPresence.empty⟩

def askedAt (t : TaskTime) : Request := { asked with now := ⟨t, t, t⟩ }

/-- Two pings, the second one ten seconds late, and a lookup after each of them. -/
def twoPings : List Arrival :=
  [.ping 0 pinged.addr 1, .other (askedAt (120 * ticksPerSec)),
    .ping 1 pinged.addr (130 * ticksPerSec), .other (askedAt (310 * ticksPerSec))]

def twoRecordedAt : ℕ → TaskTime := recordedAt 0 (fun k => 10 * ticksPerSec * k) 0

theorem pinging_client_present_twoPings : ∃ as s s' q,
    serve MemPresence.empty ((twoPings.take 3).map (Arrival.request pinger twoRecordedAt)) =
      .ok (as, s) ∧
    lastRequest ((twoPings.take 3).map (Arrival.request pinger twoRecordedAt) ++
      [askedAt (310 * ticksPerSec)]) pinger.uid = some q ∧
    handle s (askedAt (310 * ticksPerSec)) =
      .ok (⟨32, pinger.uid.data ++ q.addr.bytes⟩, s') := by
  refine pinging_client_present pinger 0 (fun k => 10 * ticksPerSec * k) 0 1 twoPings ?_ ?_
    (by decide) ⟨_, rfl⟩ _ _ [] _ rfl ⟨0, by decide⟩ rfl (by decide)
  · intro k hk
    obtain rfl : k = 0 := by omega
    decide
  · intro k
    have hindex : twoPings.filterMap Arrival.index = [0, 1] := rfl
    rw [hindex, List.mem_pair]
    omega

end SimplePresence.Pinging
