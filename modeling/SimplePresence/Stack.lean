import SimplePresence.Listener

/-!
What replies owe to the stack.

`onReadTCP` has `uv_tcp_getpeername` fill a local that it has not initialised, and does not
look at whether it did. What the local held before may then be echoed, stored, and handed to
whoever asks for the sender. Two runs that differ in it hold the same records up to their
addresses; they answer the same unless one of the records so made is asked for in time.
-/

namespace SimplePresence.Stack

open SimplePresence.Uid SimplePresence.Item SimplePresence.OrderedMap SimplePresence.Query
open SimplePresence.Store SimplePresence.Log SimplePresence.Sweep SimplePresence.Machine
open SimplePresence.Service SimplePresence.Listener

/-! ### Stores up to addresses -/

/-- A record without its address. -/
def hideAddr (r : PresenceItemRec) : PresenceItemRec := { r with addr := Sockaddr.ofBytes [] }

/-- A store without its addresses. -/
def hide (s : MemPresence) : MemPresence := ⟨s.storage.mapVal hideAddr⟩

def hideItem (it : PresenceItem) : PresenceItem := { it with addr := Sockaddr.ofBytes [] }

lemma hideItem_ofUidAddr (now : TaskTime) (u : UID) (a b : Sockaddr) :
    hideItem (PresenceItem.ofUidAddr now u a) = hideItem (PresenceItem.ofUidAddr now u b) := rfl

lemma cleanExpired_hide {m m' : Storage} {now : TaskTime} (h : cleanExpired m now = .ok m') :
    cleanExpired (m.mapVal hideAddr) now = .ok (m'.mapVal hideAddr) := by
  rw [cleanExpired_eq_ok] at h ⊢
  show sweep (stale now) (m.entries.map (Prod.map id hideAddr)) = _
  rw [sweep_map]
  -- expiry does not depend on the address
  have hstale : stale now ∘ Prod.map id hideAddr = stale now := rfl
  rw [hstale, h]
  rfl

lemma cleanExpired_of_hide {m n : Storage} {now : TaskTime}
    (h : cleanExpired (m.mapVal hideAddr) now = .ok n) :
    ∃ m', cleanExpired m now = .ok m' ∧ m'.mapVal hideAddr = n := by
  cases hm : cleanExpired m now with
  | ok m' =>
    rw [cleanExpired_hide hm] at h
    exact ⟨m', rfl, Except.ok.inj h⟩
  | error e =>
    have hnone := (cleanExpired_eq_error.mp hm).1
    have hsome := cleanExpired_eq_ok.mp h
    have hmap : sweep (stale now) (m.entries.map (Prod.map id hideAddr)) = none := by
      rw [sweep_map]
      show (sweep (stale now) m.entries).map _ = none
      rw [hnone]
      rfl
    cases hmap.symm.trans hsome

section Hide

variable {s s' t : MemPresence} {now : TaskTime} {item item' : PresenceItem}

lemma stored_hide (s : MemPresence) (item : PresenceItem) :
    (hide s).stored (hideItem item) = (s.stored item).mapVal hideAddr :=
  Map.mapVal_insert hideAddr s.storage item.uid (recOf item)

/-- Stores that differ in addresses are cleaned alike. -/
lemma put_hide (hs : hide s = hide s') (hitem : hideItem item = hideItem item')
    (h : Presence.put s now item = .ok t) :
    ∃ t', Presence.put s' now item' = .ok t' ∧ hide t = hide t' := by
  have hc := cleanExpired_hide (put_eq_ok.mp h)
  rw [← stored_hide, hs, hitem, stored_hide] at hc
  obtain ⟨m', hm', heq⟩ := cleanExpired_of_hide hc
  exact ⟨⟨m'⟩, put_eq_ok.mpr hm', congrArg MemPresenceBy.mk heq.symm⟩

lemma holds_hide {u : UID} {r : PresenceItemRec} (h : Holds s u r) :
    Holds (hide s) u (hideAddr r) :=
  List.mem_map_of_mem h

lemma not_holds_hide {u : UID} (h : ∀ r, ¬ Holds s u r) (r : PresenceItemRec) :
    ¬ Holds (hide s) u r := by
  intro hr
  obtain ⟨e, he, heq⟩ := List.mem_map.mp hr
  have hu : e.1 = u := congrArg Prod.fst heq
  exact h e.2 (hu ▸ he)

lemma get_hide (s : MemPresence) (now : TaskTime) (hu : item'.uid = item.uid) :
    (Presence.get (hide s) now item').1 = (Presence.get s now item).1 ∧
      (Presence.get (hide s) now item').2.2 = hide (Presence.get s now item).2.2 := by
  rcases get_cases s now item with ha | ⟨r, hr, he⟩ | ⟨r, hr, he⟩
  · rw [get_absent ha, get_absent (hu ▸ not_holds_hide ha)]
    exact ⟨rfl, rfl⟩
  · have hr' : Holds (hide s) item'.uid (hideAddr r) := hu ▸ holds_hide hr
    rw [get_expired hr he, get_expired hr' he]
    have hfind : (hide s).storage.find item'.uid = s.storage.find item.uid := by
      rw [hu]
      exact Map.find_mapVal hideAddr s.storage item.uid
    refine ⟨rfl, congrArg MemPresenceBy.mk ?_⟩
    rw [hfind]
    exact Map.mapVal_erase hideAddr s.storage _
  · have hr' : Holds (hide s) item'.uid (hideAddr r) := hu ▸ holds_hide hr
    rw [get_live hr he, get_live hr' he]
    exact ⟨rfl, rfl⟩

/-- Stores that differ in addresses find the same identifiers. -/
lemma get_hide_eq (hs : hide s = hide s') (now : TaskTime) (hu : item.uid = item'.uid) :
    (Presence.get s now item).1 = (Presence.get s' now item').1 ∧
      hide (Presence.get s now item).2.2 = hide (Presence.get s' now item').2.2 := by
  obtain ⟨h₁, h₂⟩ := get_hide s now (rfl : item.uid = item.uid)
  obtain ⟨h₁', h₂'⟩ := get_hide s' now hu
  rw [hs] at h₁ h₂
  exact ⟨h₁.symm.trans h₁', h₂.symm.trans h₂'⟩

/-- A request served from two stores that differ in addresses, and from two addresses. The
answers are the same when the addresses they would show are. -/
lemma handle_hide {r r' : Request} {rs rs' : List Request} {a : Answer} (hs : hide s = hide s')
    (hbuf : r.buf = r'.buf) (hnow : r.now = r'.now) (hl : Sound s (requestLog rs))
    (hl' : Sound s' (requestLog rs')) (h : handle s r = .ok (a, t)) :
    ∃ a' t', handle s' r' = .ok (a', t') ∧ hide t = hide t' ∧
      ((∀ src : UID, r.buf = src.data → r.addr = r'.addr) →
        (∀ (src dest : UID) q q', r.buf = src.data ++ dest.data →
          lastRequest (rs ++ [r]) dest = some q → lastRequest (rs' ++ [r']) dest = some q' →
          q.Fresh r.now.get → q.addr = q'.addr) → a = a') := by
  obtain ⟨addr, buf, now⟩ := r
  obtain ⟨addr', buf', now'⟩ := r'
  dsimp only at hbuf hnow
  subst hbuf hnow
  unfold handle at h ⊢
  dsimp only at h ⊢
  rcases buf_cases buf with ho | ⟨src, rfl⟩ | ⟨src, dest, rfl⟩
  · rw [query_other s addr now ho] at h
    cases h
    exact ⟨_, s', query_other s' addr' now ho, hs, fun _ _ => rfl⟩
  · obtain ⟨hp, rfl⟩ := query_ping.mp h
    obtain ⟨t', hp', ht⟩ := put_hide hs (hideItem_ofUidAddr now.ctor src addr addr') hp
    refine ⟨_, t', query_ping.mpr ⟨hp', rfl⟩, ht, fun haddr _ => ?_⟩
    rw [haddr src rfl]
  · obtain ⟨s₁, hp, rfl, rfl⟩ := query_lookup.mp h
    obtain ⟨s₁', hp', h₁⟩ := put_hide hs (hideItem_ofUidAddr now.ctor src addr addr') hp
    have hu : (PresenceItem.ofUidAddr now.ctor dest addr).uid =
      (PresenceItem.ofUidAddr now.ctor dest addr').uid := rfl
    obtain ⟨hfound, hstore⟩ := get_hide_eq h₁ now.get hu
    refine ⟨_, _, query_lookup.mpr ⟨s₁', hp', rfl, rfl⟩, hstore, fun _ haddr => ?_⟩
    have hl₁ := sound_lookup hl hp dest
    have hl₁' := sound_lookup hl' hp' dest
    unfold reply
    rw [← hfound]
    by_cases hf : (Presence.get s₁ now.get (PresenceItem.ofUidAddr now.ctor dest addr)).1 = true
    · -- both stores find the record of their last request for the identifier
      obtain ⟨q, hq, hfresh, hqa⟩ := found_of_sound hl₁ hf
      obtain ⟨q', hq', -, hqa'⟩ := found_of_sound hl₁' (hfound ▸ hf)
      have heq : q.addr = q'.addr := haddr src dest q q' rfl hq hq' hfresh
      rw [if_pos hf, if_pos hf, hqa, hqa', heq]
    · rw [if_neg hf, if_neg hf]

end Hide

/-! ### Runs of read callbacks -/

/-- A read callback of the service and the clock. -/
inductive Event
  | udp (bytesRead : ℤ) (base : List UInt8) (addr : Sockaddr) (now : Readings)
  /-- `peer` is what `uv_tcp_getpeername` fills `addr` with, nothing when it fails. -/
  | tcp (peer : Option Sockaddr) (readCount : ℤ) (base : List UInt8) (now : Readings)

namespace Event

/-- The callback; `stack` is what the uninitialised local of `onReadTCP` holds. -/
def step (stack : Sockaddr) (s : MemPresence) :
    Event → Except Fault (Option (List UInt8) × MemPresence)
  | .udp bytesRead base addr now => onUDPRead s bytesRead base addr now
  | .tcp peer readCount base now =>
    (onReadTCP s stack peer readCount base now).map fun r => (r.1.reply, r.2)

def bytes : Event → List UInt8
  | .udp bytesRead base _ _ => base.take bytesRead.toNat
  | .tcp _ readCount base _ => base.take readCount.toNat

def now : Event → Readings
  | .udp _ _ _ now => now
  | .tcp _ _ _ now => now

/-- The callback knows whom it reads from. -/
def named : Event → Bool
  | .udp _ _ _ _ => true
  | .tcp peer _ _ _ => peer.isSome

def addr (stack : Sockaddr) : Event → Sockaddr
  | .udp _ _ addr _ => addr
  | .tcp peer _ _ _ => getpeername peer stack

def request (stack : Sockaddr) (e : Event) : Request := ⟨e.addr stack, e.bytes, e.now⟩

def readings (e : Event) : List TaskTime := e.now.taken e.bytes

/-- The callback registers `u`. -/
def Bears (e : Event) (u : UID) : Prop := IsRequest e.bytes ∧ e.bytes.take sizeUid = u.data

instance (e : Event) (u : UID) : Decidable (e.Bears u) := inferInstanceAs (Decidable (_ ∧ _))

lemma addr_named {e : Event} (h : e.named = true) (stack stack' : Sockaddr) :
    e.addr stack = e.addr stack' := by
  rcases e with ⟨n, base, a, now⟩ | ⟨_ | peer, n, base, now⟩
  · rfl
  · cases h
  · rfl

lemma addr_unnamed {e : Event} (h : e.named = false) (stack : Sockaddr) : e.addr stack = stack := by
  rcases e with ⟨n, base, a, now⟩ | ⟨_ | peer, n, base, now⟩
  · cases h
  · rfl
  · cases h

/-- Either callback is one call of `query`. -/
lemma step_eq (stack : Sockaddr) (s : MemPresence) (e : Event) :
    e.step stack s = (handle s (e.request stack)).map fun r => (sent r.1, r.2) := by
  have hnil : ∀ a now, query s a [] now = .ok (⟨0, []⟩, s) := fun a now =>
    query_other s a now (by decide)
  cases e with
  | udp n base a now =>
    show onUDPRead s n base a now = (query s a (base.take n.toNat) now).map _
    unfold onUDPRead
    by_cases hn : 0 < n
    · rw [if_neg (by omega), if_neg (by omega)]
      cases query s a (base.take n.toNat) now with
      | error e => rfl
      | ok r => rfl
    · have h0 : n.toNat = 0 := by omega
      rw [h0, List.take_zero, hnil]
      split_ifs with h₁ h₂
      · rfl
      · rfl
      · omega
  | tcp peer n base now =>
    show (onReadTCP s stack peer n base now).map _ =
      (query s (getpeername peer stack) (base.take n.toNat) now).map _
    unfold onReadTCP
    by_cases hn : n ≤ 0
    · have h0 : n.toNat = 0 := by omega
      rw [if_pos hn, h0, List.take_zero, hnil]
      rfl
    · rw [if_neg hn]
      cases query s (getpeername peer stack) (base.take n.toNat) now with
      | error e => rfl
      | ok r => rfl

end Event

/-- The replies to some callbacks and the store after them, from an empty one; `stack n` is what
the local of the `n`-th callback holds. -/
def runEvents (stack : ℕ → Sockaddr) (es : List Event) :
    Except Fault (List (Option (List UInt8)) × MemPresence) :=
  run (fun s (i : Sockaddr × Event) => i.2.step i.1 s) MemPresence.empty
    (es.mapIdx fun n e => (stack n, e))

/-- The calls of `query` some callbacks make. -/
def requests (stack : ℕ → Sockaddr) (es : List Event) : List Request :=
  es.mapIdx fun n e => e.request (stack n)

/-- The last callback to register `u`. -/
def lastEvent (es : List Event) (u : UID) : Option Event := es.reverse.find? (·.Bears u)

section Runs

variable {stack stack' : ℕ → Sockaddr} {es : List Event}

lemma runEvents_eq (stack : ℕ → Sockaddr) (es : List Event) :
    runEvents stack es =
      (serve MemPresence.empty (requests stack es)).map fun r => (r.1.map sent, r.2) := by
  have hreq : requests stack es =
      (es.mapIdx fun n e => (stack n, e)).map fun i => i.2.request i.1 := by
    unfold requests
    rw [List.mapIdx_eq_zipIdx_map, List.mapIdx_eq_zipIdx_map, List.map_map]
    rfl
  rw [hreq]
  exact run_map (fun i : Sockaddr × Event => i.2.request i.1) sent id
    (fun i _ s => Event.step_eq i.1 s i.2) MemPresence.empty

lemma runEvents_eq_ok {replies : List (Option (List UInt8))} {s : MemPresence} :
    runEvents stack es = .ok (replies, s) ↔
      ∃ as, serve MemPresence.empty (requests stack es) = .ok (as, s) ∧ replies = as.map sent := by
  rw [runEvents_eq]
  cases serve MemPresence.empty (requests stack es) with
  | error e => simp [Except.map]
  | ok r =>
    simp only [Except.map, Except.ok.injEq, Prod.mk.injEq]
    exact ⟨fun ⟨h₁, h₂⟩ => ⟨r.1, Prod.ext rfl h₂, h₁.symm⟩, fun ⟨as, h₁, h₂⟩ => by
      rw [h₁]
      exact ⟨h₂.symm, rfl⟩⟩

lemma requests_concat (stack : ℕ → Sockaddr) (es : List Event) (e : Event) :
    requests stack (es ++ [e]) = requests stack es ++ [e.request (stack es.length)] :=
  List.mapIdx_concat

lemma requests_const (x : Sockaddr) (es : List Event) :
    requests (fun _ => x) es = es.map (Event.request x) := by
  induction es using List.reverseRecOn with
  | nil => rfl
  | append_singleton es e ih => rw [requests_concat, ih, List.map_append]; rfl

lemma flatMap_readings (stack : ℕ → Sockaddr) (es : List Event) :
    (requests stack es).flatMap Request.readings = es.flatMap Event.readings := by
  induction es using List.reverseRecOn with
  | nil => rfl
  | append_singleton es e ih =>
    rw [requests_concat, List.flatMap_append, List.flatMap_append, ih]
    rfl

lemma lastEvent_concat (es : List Event) (e : Event) (u : UID) :
    lastEvent (es ++ [e]) u = if e.Bears u then some e else lastEvent es u := by
  unfold lastEvent
  rw [List.reverse_concat]
  split_ifs with h
  · exact List.find?_cons_of_pos (by simpa using h)
  · exact List.find?_cons_of_neg (by simpa using h)

/-- The last request to register an identifier is that of the last callback that did. -/
lemma lastRequest_requests (stack : ℕ → Sockaddr) (es : List Event) (u : UID) :
    ∃ n, lastRequest (requests stack es) u =
      (lastEvent es u).map fun e => e.request (stack n) := by
  induction es using List.reverseRecOn with
  | nil => exact ⟨0, rfl⟩
  | append_singleton es e ih =>
    rw [requests_concat, lastRequest_concat, lastEvent_concat]
    -- the last callback decides, when it registers the identifier
    have hiff : (e.request (stack es.length)).Bears u ↔ e.Bears u := Iff.rfl
    rw [if_congr hiff rfl rfl]
    by_cases hu : e.Bears u
    · rw [if_pos hu, if_pos hu]
      exact ⟨es.length, rfl⟩
    · rw [if_neg hu, if_neg hu]
      exact ih

end Runs

/-! ### When the stack shows -/

/-- The reply shows what the stack held: to a ping of a sender that is not known, or to a lookup
of an identifier that a callback of such a sender was the last to register, less than 181 s
before. -/
def Event.Exposes (pre : List Event) (e : Event) : Prop :=
  (e.bytes.length = 16 ∧ e.named = false) ∨
    e.bytes.length = 32 ∧ ∃ q,
      lastEvent (pre ++ [e]) (UID.ofBytes (e.bytes.drop sizeUid)) = some q ∧
        q.named = false ∧ e.now.get - q.now.ctor < 181 * ticksPerSec

/-- No reply of a run shows what the stack held. -/
def Clean (es : List Event) : Prop := ∀ pre e post, es = pre ++ e :: post → ¬ e.Exposes pre

/-- No reply of a run depends on what the stack held. -/
def Unseen (es : List Event) : Prop :=
  ∀ stack stack' replies s, runEvents stack es = .ok (replies, s) →
    ∃ s', runEvents stack' es = .ok (replies, s')

section Exposure

variable {es : List Event} {e : Event}

lemma clean_concat (h : Clean (es ++ [e])) : Clean es ∧ ¬ e.Exposes es := by
  refine ⟨fun pre e' post heq => ?_, h es e [] rfl⟩
  refine h pre e' (post ++ [e]) ?_
  rw [heq, List.append_assoc, List.cons_append]

/-- **Two runs that differ in the stack** hold the same records up to addresses. They answer the
same when no reply shows the stack. -/
lemma serve_hide (stack stack' : ℕ → Sockaddr) {as : List Answer} {s : MemPresence}
    (h : serve MemPresence.empty (requests stack es) = .ok (as, s)) :
    ∃ as' s', serve MemPresence.empty (requests stack' es) = .ok (as', s') ∧ hide s = hide s' ∧
      (Clean es → as = as') := by
  induction es using List.reverseRecOn generalizing as s with
  | nil => exact ⟨as, s, h, rfl, fun _ => rfl⟩
  | append_singleton es e ih =>
    rw [requests_concat] at h ⊢
    obtain ⟨as₁, s₁, a, t, as₂, h₁, hr, h₂, rfl⟩ := run_split h
    cases h₂
    obtain ⟨as₁', s₁', h₁', hhide, hsame⟩ := ih h₁
    have hbuf : (e.request (stack es.length)).buf = (e.request (stack' es.length)).buf := rfl
    obtain ⟨a', t', hr', ht, ha⟩ := handle_hide hhide hbuf rfl (serve_sound h₁) (serve_sound h₁') hr
    refine ⟨as₁' ++ [a'], t', run_append_eq_ok.mpr ⟨as₁', s₁', [a'], h₁',
      run_cons_eq_ok.mpr ⟨a', t', [], hr', rfl, rfl⟩, rfl⟩, ht, fun hclean => ?_⟩
    obtain ⟨hclean₁, hexp⟩ := clean_concat hclean
    rw [hsame hclean₁, ha ?_ ?_]
    · intro src hsrc
      have hlen : e.bytes.length = 16 := by
        rw [show e.bytes = src.data from hsrc, src.length_data]
      refine Event.addr_named ?_ _ _
      by_contra hn
      exact hexp (Or.inl ⟨hlen, by simpa using hn⟩)
    · intro src dest q q' hbuf hq hq' hf
      have hbytes : e.bytes = src.data ++ dest.data := hbuf
      have hlen : e.bytes.length = 32 := by rw [hbytes, src.length_append]
      have hdest : UID.ofBytes (e.bytes.drop sizeUid) = dest := by
        rw [hbytes, List.drop_left' src.size, UID.ofBytes_data]
      rw [← requests_concat] at hq hq'
      obtain ⟨n, hn⟩ := lastRequest_requests stack (es ++ [e]) dest
      obtain ⟨n', hn'⟩ := lastRequest_requests stack' (es ++ [e]) dest
      rw [hq] at hn
      rw [hq'] at hn'
      obtain ⟨c, hc, rfl⟩ := Option.map_eq_some_iff.mp hn.symm
      rw [hc] at hn'
      cases hn'
      refine Event.addr_named ?_ _ _
      by_contra hnamed
      exact hexp (Or.inr ⟨hlen, c, hdest ▸ hc, by simpa using hnamed, hf⟩)

/-- A reply that shows the stack, for the same `stack` everywhere. -/
lemma exposes_answer (h : e.Exposes es)
    (hclock : ((es ++ [e]).flatMap Event.readings).Pairwise (· ≤ ·)) :
    ∃ u : UID, ∀ x as s a s', serve MemPresence.empty (requests (fun _ => x) es) = .ok (as, s) →
      handle s (e.request x) = .ok (a, s') → a = ⟨32, u.data ++ x.bytes⟩ := by
  rcases h with ⟨hlen, hnamed⟩ | ⟨hlen, q, hq, hnamed, hf⟩
  · obtain ⟨src, hsrc⟩ := exists_uid_of_length hlen
    refine ⟨src, fun x as s a s' _ ha => ?_⟩
    have hbuf : (e.request x).buf = src.data := hsrc
    rw [(handle_ping hbuf ha).2]
    show (⟨32, src.data ++ (e.addr x).bytes⟩ : Answer) = _
    rw [e.addr_unnamed hnamed]
  · obtain ⟨src, dest, hbuf⟩ := exists_append_of_length hlen
    rw [hbuf, List.drop_left' src.size, UID.ofBytes_data] at hq
    refine ⟨dest, fun x as s a s' hs ha => ?_⟩
    have hc := hclock
    rw [← flatMap_readings (fun _ => x), requests_concat] at hc
    obtain ⟨n, hn⟩ := lastRequest_requests (fun _ => x) (es ++ [e]) dest
    rw [hq, requests_concat] at hn
    have hbuf' : (e.request x).buf = src.data ++ dest.data := hbuf
    rw [(lookup_answer hc hs ha hbuf').1 _ hn hf]
    show (⟨32, dest.data ++ (q.addr x).bytes⟩ : Answer) = _
    rw [q.addr_unnamed hnamed]

end Exposure

/-- **When replies do not depend on the stack.** They do not in any run none of whose replies
shows it; and these are the only such runs, among those whose clock never runs backwards and
whose cleaning passes are defined. -/
theorem replies_unseen_iff (es : List Event) :
    (Clean es → Unseen es) ∧
    ((es.flatMap Event.readings).Pairwise (· ≤ ·) → (∃ stack r, runEvents stack es = .ok r) →
      (Unseen es ↔ Clean es)) := by
  have hsuff : Clean es → Unseen es := by
    intro hclean stack stack' replies s h
    obtain ⟨as, hs, rfl⟩ := runEvents_eq_ok.mp h
    obtain ⟨as', s', hs', -, hsame⟩ := serve_hide stack stack' hs
    exact ⟨s', runEvents_eq_ok.mpr ⟨as', hs', by rw [hsame hclean]⟩⟩
  refine ⟨hsuff, fun hclock hdef => ⟨fun hunseen => ?_, hsuff⟩⟩
  rintro pre e post rfl hexp
  -- the same run, with two different values on the stack throughout
  obtain ⟨stack, ⟨replies, s⟩, h⟩ := hdef
  obtain ⟨as, hs, -⟩ := runEvents_eq_ok.mp h
  obtain ⟨as₁, s₁, h₁, -⟩ := serve_hide stack (fun _ => Sockaddr.ofBytes [1]) hs
  obtain ⟨s₂, hrun₂⟩ := hunseen _ (fun _ => Sockaddr.ofBytes [2]) _ _
    (runEvents_eq_ok.mpr ⟨as₁, h₁, rfl⟩)
  obtain ⟨as₂, h₂, hsent⟩ := runEvents_eq_ok.mp hrun₂
  have hc : ((pre ++ [e]).flatMap Event.readings).Pairwise (· ≤ ·) := by
    rw [List.append_cons, List.flatMap_append] at hclock
    exact (List.pairwise_append.mp hclock).1
  obtain ⟨u, hu⟩ := exposes_answer hexp hc
  rw [requests_const, List.map_append, List.map_cons] at h₁ h₂
  obtain ⟨bs₁, t₁, a₁, t₁', cs₁, hpre₁, ha₁, -, rfl⟩ := run_split h₁
  obtain ⟨bs₂, t₂, a₂, t₂', cs₂, hpre₂, ha₂, -, rfl⟩ := run_split h₂
  have hlen : (bs₁.map sent).length = (bs₂.map sent).length := by
    rw [List.length_map, List.length_map, length_run hpre₁, length_run hpre₂, List.length_map,
      List.length_map]
  rw [← requests_const] at hpre₁ hpre₂
  rw [List.map_append, List.map_append, List.map_cons, List.map_cons] at hsent
  have hreply := (List.cons.inj (List.append_inj hsent hlen).2).1
  rw [hu _ _ _ _ _ hpre₁ ha₁, hu _ _ _ _ _ hpre₂ ha₂, sent_record, sent_record] at hreply
  have hbytes := List.append_cancel_left (Option.some.inj hreply)
  exact absurd hbytes (by decide)

/-- A ping over a connection that was reset as its bytes were read, and a lookup of its sender
by another client. -/
def resetPing : List Event :=
  [.tcp none 16 pinged.buf pinged.now, .udp 32 asked.buf asked.addr asked.now]

/-- A ping of a client, and a lookup of it over a connection that was reset. -/
def resetLookup : List Event :=
  [.udp 16 pinged.buf pinged.addr pinged.now, .tcp none 32 asked.buf asked.now]

lemma clean_resetLookup : Clean resetLookup := by
  intro pre e post h hexp
  rcases pre with _ | ⟨e₁, _ | ⟨e₂, pre⟩⟩
  · cases h
    rcases hexp with ⟨-, hnamed⟩ | ⟨hlen, -⟩
    · cases hnamed
    · exact absurd hlen (by decide)
  · cases h
    rcases hexp with ⟨hlen, -⟩ | ⟨-, q, hq, hnamed, -⟩
    · exact absurd hlen (by decide)
    · -- who asks is not known, but who is asked for is
      cases hq
      cases hnamed
  · have hlen := congrArg List.length h
    simp [resetLookup] at hlen

theorem replies_unseen_iff_resetPing : (Unseen resetPing ↔ Clean resetPing) ∧
    Clean resetLookup ∧ Unseen resetLookup :=
  ⟨(replies_unseen_iff resetPing).2 (by decide) ⟨fun _ => pinged.addr, _, rfl⟩,
    clean_resetLookup, (replies_unseen_iff resetLookup).1 clean_resetLookup⟩

/-- The ping is answered with what the stack held, and so is the other client. -/
theorem stack_reaches_replies :
    ∃ s s', runEvents (fun _ => Sockaddr.ofBytes [1]) resetPing =
        .ok ([some ((UID.ofBytes [2]).data ++ (Sockaddr.ofBytes [1]).bytes),
          some ((UID.ofBytes [2]).data ++ (Sockaddr.ofBytes [1]).bytes)], s) ∧
      runEvents (fun _ => Sockaddr.ofBytes [3]) resetPing =
        .ok ([some ((UID.ofBytes [2]).data ++ (Sockaddr.ofBytes [3]).bytes),
          some ((UID.ofBytes [2]).data ++ (Sockaddr.ofBytes [3]).bytes)], s') ∧
      (Sockaddr.ofBytes [1]).bytes ≠ (Sockaddr.ofBytes [3]).bytes :=
  ⟨_, _, rfl, rfl, by decide⟩

end SimplePresence.Stack
