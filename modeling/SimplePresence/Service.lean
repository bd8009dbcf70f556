import SimplePresence.Log

/-!
The service over whole runs of requests.

The store is lossy: records are erased lazily, in bulk, and not all of them. What a lookup is
answered with depends on the requests themselves all the same, on the last one to bear the
identifier asked for.
-/

namespace SimplePresence.Service

open SimplePresence.Uid SimplePresence.Item SimplePresence.OrderedMap SimplePresence.Query
open SimplePresence.Store SimplePresence.Log SimplePresence.Machine

/-- A request as `Presence::query` is handed it, with the clock readings it takes. -/
structure Request where
  addr : Sockaddr
  buf : List UInt8
  now : Readings
  deriving DecidableEq, Repr

namespace Request

def readings (r : Request) : List TaskTime := r.now.taken r.buf

/-- The request registers `u`. -/
def Bears (r : Request) (u : UID) : Prop := IsRequest r.buf ∧ r.buf.take sizeUid = u.data

instance (r : Request) (u : UID) : Decidable (r.Bears u) := inferInstanceAs (Decidable (_ ∧ _))

/-- What the request has stored for its sender. -/
def item (r : Request) : PresenceItem :=
  PresenceItem.ofUidAddr r.now.ctor (UID.ofBytes r.buf) r.addr

lemma bears_iff {r : Request} {u : UID} : r.Bears u ↔ IsRequest r.buf ∧ r.item.uid = u := by
  refine and_congr_right fun h => ?_
  have hlen : sizeUid ≤ r.buf.length := by
    rcases h with h | h <;> rw [h] <;> decide
  rw [← UID.data_ofBytes hlen, UID.ext_iff]
  rfl

lemma bears_ping {r : Request} {u : UID} (h : r.buf = u.data) : r.Bears u := by
  refine ⟨h ▸ isRequest_ping u, ?_⟩
  rw [h, List.take_of_length_le u.size.le]

end Request

/-- One request handed to `query`. -/
def handle {σ : Type*} [Presence σ] (s : σ) (r : Request) : Except Fault (Answer × σ) :=
  query s r.addr r.buf r.now

section Spec

variable {σ : Type*} [Presence σ] {s s' : σ} {r : Request} {a : Answer} {src dest : UID}

lemma handle_ping (hbuf : r.buf = src.data) (h : handle s r = .ok (a, s')) :
    Presence.put s r.now.put (PresenceItem.ofUidAddr r.now.ctor src r.addr) = .ok s' ∧
      a = ⟨32, src.data ++ r.addr.bytes⟩ := by
  unfold handle at h
  rw [hbuf] at h
  exact query_ping.mp h

lemma handle_lookup (hbuf : r.buf = src.data ++ dest.data) (h : handle s r = .ok (a, s')) :
    ∃ s₁, Presence.put s r.now.put (PresenceItem.ofUidAddr r.now.ctor src r.addr) = .ok s₁ ∧
      a = reply dest (Presence.get s₁ r.now.get (PresenceItem.ofUidAddr r.now.ctor dest r.addr)) ∧
      s' = (Presence.get s₁ r.now.get (PresenceItem.ofUidAddr r.now.ctor dest r.addr)).2.2 := by
  unfold handle at h
  rw [hbuf] at h
  exact query_lookup.mp h

/-- What handling a request can do: nothing, or put its item, and then look one up. -/
lemma handle_cases (h : handle s r = .ok (a, s')) :
    (¬ IsRequest r.buf ∧ a = ⟨0, []⟩ ∧ s' = s) ∨
      (∃ src : UID, r.buf = src.data ∧ Presence.put s r.now.put r.item = .ok s' ∧
        a = ⟨32, src.data ++ r.addr.bytes⟩) ∨
      ∃ (src dest : UID) (s₁ : σ), r.buf = src.data ++ dest.data ∧
        Presence.put s r.now.put r.item = .ok s₁ ∧
        a = reply dest (Presence.get s₁ r.now.get
          (PresenceItem.ofUidAddr r.now.ctor dest r.addr)) ∧
        s' = (Presence.get s₁ r.now.get (PresenceItem.ofUidAddr r.now.ctor dest r.addr)).2.2 := by
  rcases buf_cases r.buf with ho | ⟨src, hbuf⟩ | ⟨src, dest, hbuf⟩
  · unfold handle at h
    rw [query_other s r.addr r.now ho] at h
    cases h
    exact Or.inl ⟨ho, rfl, rfl⟩
  · have hitem : r.item = PresenceItem.ofUidAddr r.now.ctor src r.addr := by
      rw [Request.item, hbuf, UID.ofBytes_data]
    obtain ⟨hp, ha⟩ := handle_ping hbuf h
    exact Or.inr (Or.inl ⟨src, hbuf, hitem ▸ hp, ha⟩)
  · have hitem : r.item = PresenceItem.ofUidAddr r.now.ctor src r.addr := by
      rw [Request.item, hbuf, UID.ofBytes_append]
    obtain ⟨s₁, hp, ha, hs⟩ := handle_lookup hbuf h
    exact Or.inr (Or.inr ⟨src, dest, s₁, hbuf, hitem ▸ hp, ha, hs⟩)

end Spec

/-- The requests of a list, one after the other, in whatever interleaving of clients. -/
abbrev serve {σ : Type*} [Presence σ] (s : σ) (rs : List Request) := run handle s rs

/-- The last request to register `u`. -/
def lastRequest (rs : List Request) (u : UID) : Option Request := rs.reverse.find? (·.Bears u)

lemma lastRequest_concat (rs : List Request) (r : Request) (u : UID) :
    lastRequest (rs ++ [r]) u = if r.Bears u then some r else lastRequest rs u := by
  unfold lastRequest
  rw [List.reverse_concat]
  split_ifs with h
  · exact List.find?_cons_of_pos (by simpa using h)
  · exact List.find?_cons_of_neg (by simpa using h)

/-- **A simulation of the calls of a store is one of the requests it serves.** -/
theorem handle_simulates {σ τ : Type*} [Presence σ] [Presence τ] {R : TaskTime → σ → τ → Prop}
    (hsim : Simulates (fun op : Op => [op.reading]) (Op.step : σ → _ → _) (Op.step : τ → _ → _) R) :
    Simulates Request.readings (handle : σ → _ → _) (handle : τ → _ → _) R := by
  rintro t s l ⟨addr, buf, now⟩ a s' hR hc h
  unfold Request.readings at hc ⊢
  unfold handle at h ⊢
  dsimp only at hc h ⊢
  rcases buf_cases buf with ho | ⟨src, rfl⟩ | ⟨src, dest, rfl⟩
  · rw [query_other s addr now ho] at h
    cases h
    rw [now.taken_other ho]
    exact ⟨l, query_other l addr now ho, hR⟩
  · obtain ⟨hp, rfl⟩ := query_ping.mp h
    rw [now.taken_ping] at hc ⊢
    have htp : t ≤ now.put := (List.pairwise_cons.mp hc).1 _ (by simp)
    obtain ⟨l₁, hl₁, hR₁⟩ := hsim t s l (.put _ now.put) none s' hR (List.pairwise_pair.mpr htp)
      (step_put.mpr ⟨rfl, hp⟩)
    exact ⟨l₁, query_ping.mpr ⟨(step_put.mp hl₁).2, rfl⟩, hR₁⟩
  · obtain ⟨s₁, hp, rfl, rfl⟩ := query_lookup.mp h
    rw [now.taken_lookup] at hc ⊢
    have htp : t ≤ now.put := (List.pairwise_cons.mp hc).1 _ (by simp)
    have hpg : now.put ≤ now.get := by
      have := (List.pairwise_cons.mp (List.pairwise_cons.mp hc).2).2
      simpa using this
    obtain ⟨l₁, hl₁, hR₁⟩ := hsim t s l (.put _ now.put) none s₁ hR (List.pairwise_pair.mpr htp)
      (step_put.mpr ⟨rfl, hp⟩)
    obtain ⟨l₂, hl₂, hR₂⟩ := hsim now.put s₁ l₁
      (.get (PresenceItem.ofUidAddr now.ctor dest addr) now.get) _ _ hR₁
      (List.pairwise_pair.mpr hpg)
      (step_get.mpr ⟨rfl, rfl⟩)
    obtain ⟨ho, rfl⟩ := step_get.mp hl₂
    refine ⟨_, query_lookup.mpr ⟨l₁, (step_put.mp hl₁).2, ?_, rfl⟩, hR₂⟩
    -- the store and the log hand over the same item
    obtain ⟨h₁, h₂⟩ := Prod.mk.inj (Option.some.inj ho)
    unfold reply
    rw [h₁, h₂]

/-! ### The log of a run -/

/-- The log of some requests. -/
def requestLog (rs : List Request) : PresenceLog :=
  ⟨((rs.filter fun r => IsRequest r.buf).map Request.item).reverse⟩

lemma requestLog_other (rs : List Request) {r : Request} (h : ¬ IsRequest r.buf) :
    requestLog (rs ++ [r]) = requestLog rs := by
  simp [requestLog, h]

lemma requestLog_request (rs : List Request) {r : Request} (h : IsRequest r.buf) :
    requestLog (rs ++ [r]) = ⟨r.item :: (requestLog rs).items⟩ := by
  simp [requestLog, h]

/-- The last item of the log for `u` is that of the last request to register `u`. -/
lemma last_requestLog (rs : List Request) (u : UID) :
    (requestLog rs).last u = (lastRequest rs u).map Request.item := by
  induction rs using List.reverseRecOn with
  | nil => rfl
  | append_singleton rs r ih =>
    rw [lastRequest_concat]
    by_cases hr : IsRequest r.buf
    · rw [requestLog_request rs hr]
      by_cases hu : r.item.uid = u
      · rw [if_pos (Request.bears_iff.mpr ⟨hr, hu⟩), ← hu, PresenceLog.last_cons_self]
        rfl
      · have hb : ¬ r.Bears u := fun hb => hu (Request.bears_iff.mp hb).2
        rw [if_neg hb, PresenceLog.last_cons_ne _ (Ne.symm hu), ih]
    · rw [requestLog_other rs hr, if_neg fun hb => hr hb.1, ih]

lemma handle_log {l l' : PresenceLog} {rs : List Request} {r : Request} {a : Answer}
    (hl : l = requestLog rs) (h : handle l r = .ok (a, l')) : l' = requestLog (rs ++ [r]) := by
  subst hl
  rcases handle_cases h with ⟨ho, -, rfl⟩ | ⟨src, hbuf, hp, -⟩ | ⟨src, dest, l₁, hbuf, hp, -, rfl⟩
  · rw [requestLog_other rs ho]
  · rw [log_put] at hp
    cases hp
    rw [requestLog_request rs (hbuf ▸ isRequest_ping src)]
  · rw [log_put] at hp
    cases hp
    rw [log_get_store, requestLog_request rs (hbuf ▸ isRequest_lookup src dest)]

lemma serve_log {rs : List Request} {as : List Answer} {l : PresenceLog}
    (h : serve PresenceLog.empty rs = .ok (as, l)) : l = requestLog rs := by
  exact run_induction (I := fun rs _ l => l = requestLog rs) rfl
    (fun _ _ _ _ _ _ hl hs => handle_log hl hs) h

lemma handle_sound {s s' : MemPresence} {rs : List Request} {r : Request} {a : Answer}
    (hs : Sound s (requestLog rs)) (h : handle s r = .ok (a, s')) :
    Sound s' (requestLog (rs ++ [r])) := by
  rcases handle_cases h with ⟨ho, -, rfl⟩ | ⟨src, hbuf, hp, -⟩ | ⟨src, dest, s₁, hbuf, hp, -, rfl⟩
  · rw [requestLog_other rs ho]
    exact hs
  · rw [requestLog_request rs (hbuf ▸ isRequest_ping src)]
    exact sound_put hs hp
  · rw [requestLog_request rs (hbuf ▸ isRequest_lookup src dest)]
    exact sound_get (sound_put hs hp) r.now.get _

/-- What a run of the service leaves is in the log of its requests, whatever the clock reads. -/
lemma serve_sound {rs : List Request} {as : List Answer} {s : MemPresence}
    (h : serve MemPresence.empty rs = .ok (as, s)) : Sound s (requestLog rs) :=
  run_induction (I := fun rs _ s => Sound s (requestLog rs))
    (fun u r hr => absurd hr (not_holds_empty u r)) (fun _ _ _ _ _ _ hs h => handle_sound hs h) h

/-- A run of the service is tracked by the log of its requests. -/
lemma serve_tracks {rs : List Request} {as : List Answer} {s : MemPresence} {t : TaskTime}
    (hc : (t :: rs.flatMap Request.readings).Pairwise (· ≤ ·))
    (h : serve MemPresence.empty rs = .ok (as, s)) :
    serve PresenceLog.empty rs = .ok (as, requestLog rs) ∧
      Tracks (latest t (rs.flatMap Request.readings)) s (requestLog rs) := by
  obtain ⟨l, hl, hT⟩ := run_simulates _ (handle_simulates mem_simulates_log) (tracks_empty t) hc h
  obtain rfl := serve_log hl
  exact ⟨hl, hT⟩

/-! ### Answers -/

/-- The request was recorded less than 181 s before `now`. -/
def Request.Fresh (q : Request) (now : TaskTime) : Prop := now - q.now.ctor < 181 * ticksPerSec

instance (q : Request) (now : TaskTime) : Decidable (q.Fresh now) := Int.decLt _ _

lemma Request.expired_item (q : Request) (now : TaskTime) :
    (recOf q.item).expired now = false ↔ q.Fresh now := expired_eq_false_iff

section Answers

variable {pre : List Request} {r : Request} {as : List Answer} {a : Answer} {s s' : MemPresence}

/-- The service answers a request as the log of the requests before it does. -/
lemma handle_eq_log (hc : ((pre ++ [r]).flatMap Request.readings).Pairwise (· ≤ ·))
    (h : serve MemPresence.empty pre = .ok (as, s)) (hr : handle s r = .ok (a, s')) :
    ∃ l, handle (requestLog pre) r = .ok (a, l) := by
  obtain ⟨t, ht⟩ := exists_pairwise_cons hc
  rw [List.flatMap_append, List.flatMap_singleton] at ht
  obtain ⟨hc₁, hc₂⟩ := pairwise_latest ht
  have hT := (serve_tracks hc₁ h).2
  obtain ⟨l, hl, -⟩ := handle_simulates mem_simulates_log _ _ _ _ _ _ hT hc₂ hr
  exact ⟨l, hl⟩

/-- What a lookup is answered with. -/
lemma lookup_answer (hc : ((pre ++ [r]).flatMap Request.readings).Pairwise (· ≤ ·))
    (h : serve MemPresence.empty pre = .ok (as, s)) (hr : handle s r = .ok (a, s'))
    {src dest : UID} (hbuf : r.buf = src.data ++ dest.data) :
    (∀ q, lastRequest (pre ++ [r]) dest = some q → q.Fresh r.now.get →
      a = ⟨32, dest.data ++ q.addr.bytes⟩) ∧
    ((¬ ∃ q, lastRequest (pre ++ [r]) dest = some q ∧ q.Fresh r.now.get) →
      a = ⟨0, dest.data⟩) := by
  obtain ⟨l, hl⟩ := handle_eq_log hc h hr
  have hlog := handle_log rfl hl
  obtain ⟨l₁, hp, rfl, rfl⟩ := handle_lookup hbuf hl
  rw [log_get_store] at hlog
  subst hlog
  have hlast := last_requestLog (pre ++ [r]) dest
  unfold reply
  refine ⟨fun q hq hf => ?_, fun hno => ?_⟩
  · rw [hq] at hlast
    rw [log_get_live hlast ((q.expired_item _).mpr hf)]
    rfl
  · have hnf : ¬ (Presence.get (requestLog (pre ++ [r])) r.now.get
        (PresenceItem.ofUidAddr r.now.ctor dest r.addr)).1 = true := by
      intro hf
      obtain ⟨it, hit, he⟩ := log_get_found.mp hf
      have hit' := hlast.symm.trans hit
      obtain ⟨q, hq, rfl⟩ := Option.map_eq_some_iff.mp hit'
      exact hno ⟨q, hq, (q.expired_item _).mp he⟩
    rw [if_neg hnf]

/-- When a lookup reads the store, its sender is registered. -/
lemma sound_lookup {addr : Sockaddr} {src : UID} {now : Readings} (hs : Sound s (requestLog pre))
    (hp : Presence.put s now.put (PresenceItem.ofUidAddr now.ctor src addr) = .ok s') (dest : UID) :
    Sound s' (requestLog (pre ++ [⟨addr, src.data ++ dest.data, now⟩])) := by
  rw [requestLog_request pre (isRequest_lookup src dest)]
  simpa [Request.item] using sound_put hs hp

/-- What is found in a store that is in the log of some requests is the address of the last of
them to register the identifier, which is fresh. -/
lemma found_of_sound {now : TaskTime} {item : PresenceItem} (hs : Sound s (requestLog pre))
    (hf : (Presence.get s now item).1 = true) :
    ∃ q, lastRequest pre item.uid = some q ∧ q.Fresh now ∧
      (Presence.get s now item).2.1.addr = q.addr := by
  obtain ⟨it, hit, he, hitem⟩ := get_found hs hf
  have hlast := (last_requestLog pre item.uid).symm.trans hit
  obtain ⟨q, hq, rfl⟩ := Option.map_eq_some_iff.mp hlast
  exact ⟨q, hq, (q.expired_item now).mp he, by rw [hitem]; rfl⟩

/-- What a lookup finds comes from the last request for the identifier, whatever the clock reads. -/
lemma lookup_found (h : serve MemPresence.empty pre = .ok (as, s)) (hr : handle s r = .ok (a, s'))
    {src dest : UID} (hbuf : r.buf = src.data ++ dest.data) (hret : a.ret = 32) :
    ∃ q, lastRequest (pre ++ [r]) dest = some q ∧ a = ⟨32, dest.data ++ q.addr.bytes⟩ := by
  obtain ⟨addr, buf, now⟩ := r
  dsimp only at hbuf
  subst hbuf
  obtain ⟨s₁, hp, rfl, -⟩ := query_lookup.mp hr
  have hs := sound_lookup (serve_sound h) hp dest
  unfold reply at hret ⊢
  split at hret
  · rename_i hf
    obtain ⟨q, hq, -, haddr⟩ := found_of_sound hs hf
    exact ⟨q, hq, by rw [if_pos hf, haddr]⟩
  · cases hret

end Answers

/-- **The protocol of the service.** Take any run of requests on an empty store, with a clock
that never runs backwards and every cleaning pass defined. A request of another length is
answered with nothing and changes nothing. One of 16 bytes is answered with itself and the
address it came from. One of 32 bytes is answered with the identifier it asks for and the
address of the last request to bear that identifier, when there is one recorded less than
181 s before the lookup, and with nothing otherwise. -/
theorem service_contract (rs : List Request)
    (hclock : (rs.flatMap Request.readings).Pairwise (· ≤ ·))
    (hdef : ∃ r, serve MemPresence.empty rs = .ok r) :
    ∀ pre r post, rs = pre ++ r :: post →
      ∃ as s a s', serve MemPresence.empty pre = .ok (as, s) ∧ handle s r = .ok (a, s') ∧
        (r.buf.length ≠ 16 → r.buf.length ≠ 32 → a.ret = 0 ∧ s' = s) ∧
        (r.buf.length = 16 → a.ret = 32 ∧ a.retBuf = r.buf ++ r.addr.bytes) ∧
        ∀ src dest : UID, r.buf = src.data ++ dest.data →
          (∀ b : Sockaddr, a.ret = 32 ∧ a.retBuf = dest.data ++ b.bytes ↔
            ∃ q, lastRequest (pre ++ [r]) dest = some q ∧
              r.now.get - q.now.ctor < 181 * ticksPerSec ∧ q.addr = b) ∧
          ((¬ ∃ q, lastRequest (pre ++ [r]) dest = some q ∧
            r.now.get - q.now.ctor < 181 * ticksPerSec) → a.ret = 0) := by
  rintro pre r post rfl
  obtain ⟨⟨as, s⟩, h⟩ := hdef
  obtain ⟨as₁, s₁, a, s₂, as₂, h₁, hr, -, -⟩ := run_split h
  have hc : ((pre ++ [r]).flatMap Request.readings).Pairwise (· ≤ ·) := by
    rw [List.append_cons, List.flatMap_append] at hclock
    exact (List.pairwise_append.mp hclock).1
  refine ⟨as₁, s₁, a, s₂, h₁, hr, fun h16 h32 => ?_, fun h16 => ?_, fun src dest hbuf => ?_⟩
  · have hother : handle s₁ r = .ok (⟨0, []⟩, s₁) :=
      query_other s₁ r.addr r.now fun hreq => hreq.elim h16 h32
    rw [hother] at hr
    cases hr
    exact ⟨rfl, rfl⟩
  · obtain ⟨src, hsrc⟩ := exists_uid_of_length h16
    rw [(handle_ping hsrc hr).2, hsrc]
    exact ⟨rfl, rfl⟩
  · obtain ⟨hfound, habsent⟩ := lookup_answer hc h₁ hr hbuf
    refine ⟨fun b => ⟨fun ⟨hret, hbytes⟩ => ?_, fun ⟨q, hq, hf, hb⟩ => ?_⟩, fun hno => ?_⟩
    · by_cases hex : ∃ q, lastRequest (pre ++ [r]) dest = some q ∧ q.Fresh r.now.get
      · obtain ⟨q, hq, hf⟩ := hex
        rw [hfound q hq hf] at hbytes
        exact ⟨q, hq, hf, Sockaddr.ext (List.append_cancel_left hbytes)⟩
      · rw [habsent hex] at hret
        cases hret
    · rw [hfound q hq hf, hb]
      exact ⟨rfl, rfl⟩
    · rw [habsent hno]

/-- The ping of one client, and a lookup of it by another. -/
def pinged : Request := ⟨Sockaddr.ofBytes [2, 0, 7, 232], (UID.ofBytes [2]).data, ⟨0, 1, 1⟩⟩
def asked : Request :=
  ⟨Sockaddr.ofBytes [2, 0, 7, 233], (UID.ofBytes [1]).data ++ (UID.ofBytes [2]).data, ⟨2, 3, 4⟩⟩

theorem service_contract_asked : ∃ as s a s',
    serve MemPresence.empty [pinged] = .ok (as, s) ∧ handle s asked = .ok (a, s') ∧
    a.ret = 32 ∧ a.retBuf = (UID.ofBytes [2]).data ++ pinged.addr.bytes := by
  obtain ⟨as, s, a, s', h, hr, -, -, hl⟩ :=
    service_contract [pinged, asked] (by decide) ⟨_, rfl⟩ [pinged] asked [] rfl
  have hans := (hl (UID.ofBytes [1]) (UID.ofBytes [2]) rfl).1 pinged.addr
  exact ⟨as, s, a, s', h, hr, hans.mpr ⟨pinged, by decide⟩⟩

end SimplePresence.Service
