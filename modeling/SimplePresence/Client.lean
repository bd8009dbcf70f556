import SimplePresence.Listener

/-!
A client of the service.

It pings the service on a timer, and keeps a store of its own, where it puts what datagrams
of thirty-two bytes carry. What the service answers a request with is such a datagram, so the
two stores agree on an address once it has been relayed.
-/

namespace SimplePresence.Client

open SimplePresence.Uid SimplePresence.Item SimplePresence.OrderedMap SimplePresence.Query
open SimplePresence.Store SimplePresence.Log SimplePresence.Machine SimplePresence.Service
open SimplePresence.Listener

def defPingTimeoutMs : ℤ := 120000

/-- The fields of a client its handlers read. -/
structure UVClient (σ : Type*) where
  uid : UID
  remoteAddress : Sockaddr
  presence : σ

structure Send where
  dest : Sockaddr
  buf : List UInt8
  deriving DecidableEq, Repr

section

variable {σ : Type*} [Presence σ]

def onTimer (c : UVClient σ) : Send := ⟨c.remoteAddress, c.uid.data.take 16⟩

/-- `onUDPRead` of the client; `addr` is the sender, which it does not look at. -/
def onUDPRead (c : UVClient σ) (bytesRead : ℤ) (base : List UInt8) (_addr : Sockaddr)
    (ctor put : TaskTime) : Except Fault (UVClient σ) :=
  if bytesRead < 0 then .ok c
  else if bytesRead = 0 then .ok c
  else if bytesRead = 32 then
    match Presence.put c.presence put (PresenceItem.ofBuffer ctor base) with
    | .error e => .error e
    | .ok s => .ok { c with presence := s }
  else .ok c

/-- `onReadTCP` of the client, which answers requests as the service does. -/
def onReadTCP (c : UVClient σ) (addr : Sockaddr) (peer : Option Sockaddr) (readCount : ℤ)
    (base : List UInt8) (now : Readings) : Except Fault (Effect × UVClient σ) :=
  (Listener.onReadTCP c.presence addr peer readCount base now).map fun r =>
    (r.1, { c with presence := r.2 })

variable {c c' : UVClient σ} {base : List UInt8} {addr : Sockaddr} {ctor put : TaskTime}

lemma onUDPRead_other {n : ℤ} (h : n ≠ 32) :
    onUDPRead c n base addr ctor put = .ok c := by
  unfold onUDPRead
  rw [if_neg h]
  split
  · rfl
  · split <;> rfl

lemma onUDPRead_record : onUDPRead c 32 base addr ctor put = .ok c' ↔
    ∃ s, Presence.put c.presence put (PresenceItem.ofBuffer ctor base) = .ok s ∧
      c' = { c with presence := s } := by
  unfold onUDPRead
  rw [if_neg (by decide), if_neg (by decide), if_pos rfl]
  cases Presence.put c.presence put (PresenceItem.ofBuffer ctor base) with
  | error e => simp
  | ok s => simp [eq_comm]

/-- Stored by the handler or as a buffer, an identifier and an address make one record. -/
lemma putBuf_eq_onUDPRead (c : UVClient σ) (u : UID) (b addr : Sockaddr) (ctor put : TaskTime) :
    putBuf c.presence (u.data ++ b.bytes) ctor put =
      (onUDPRead c 32 (u.data ++ b.bytes) addr ctor put).map fun c' => (true, c'.presence) := by
  have hlen := length_append_bytes u b
  have hdrop : (u.data ++ b.bytes).drop sizeUid = b.bytes := List.drop_left' u.size
  unfold putBuf onUDPRead
  rw [if_pos hlen, if_neg (by decide), if_neg (by decide), if_pos rfl, hdrop,
    UID.ofBytes_append, Sockaddr.ofBytes_bytes, PresenceItem.ofBuffer_append]
  dsimp only
  cases Presence.put c.presence put (PresenceItem.ofUidAddr ctor u b) with
  | error e => rfl
  | ok s => rfl

end

/-! ### What the service relays -/

/-- What the service answers with thirty-two bytes is an identifier and an address. -/
lemma answer_form {s s' : MemPresence} {r : Request} {a : Answer} (hr : handle s r = .ok (a, s'))
    (h : a.ret = 32) : ∃ (u : UID) (b : Sockaddr), sent a = some (u.data ++ b.bytes) := by
  rcases handle_cases hr with ⟨-, rfl, -⟩ | ⟨src, -, -, rfl⟩ | ⟨src, dest, s₁, -, -, rfl, -⟩
  · cases h
  · exact ⟨src, _, sent_record src _⟩
  · unfold reply at h ⊢
    split
    · exact ⟨dest, _, sent_record dest _⟩
    · rename_i hf
      rw [if_neg hf] at h
      cases h

/-! ### Lookups after a run -/

section Lookups

variable {ops : List Op} {outs : List (Option (Bool × PresenceItem))} {s s' : MemPresence}
  {a : Answer}

/-- After a run `get` answers as the log of the run does. -/
lemma get_run {now : TaskTime} (hc : (ops.map Op.reading ++ [now]).Pairwise (· ≤ ·))
    (h : runOps MemPresence.empty ops = .ok (outs, s)) (item : PresenceItem) :
    (Presence.get s now item).1 = (Presence.get (logOf ops) now item).1 ∧
      (Presence.get s now item).2.1 = (Presence.get (logOf ops) now item).2.1 := by
  obtain ⟨t, hT, ht⟩ := tracks_of_run hc h
  exact get_eq_log hT ((List.pairwise_cons.mp ht).1 now List.mem_cons_self) item

lemma handle_run {q : Request} (hc : (ops.map Op.reading ++ q.readings).Pairwise (· ≤ ·))
    (h : runOps MemPresence.empty ops = .ok (outs, s)) (hq : handle s q = .ok (a, s')) :
    ∃ l, handle (logOf ops) q = .ok (a, l) := by
  obtain ⟨t, hT, ht⟩ := tracks_of_run hc h
  obtain ⟨l, hl, -⟩ := handle_simulates mem_simulates_log _ _ _ _ _ _ hT ht hq
  exact ⟨l, hl⟩

end Lookups

/-! ### The log of a client that has handled a datagram -/

section Relayed

variable {ops later : List Op} {put : TaskTime} {v : UID}

lemma lastPut_relayed (item : PresenceItem) (h : lastPut later item.uid = none) :
    lastPut (ops ++ .put item put :: later) item.uid = some item := by
  unfold lastPut at h ⊢
  simp [List.filterMap_append, Op.stored, List.find?_append, h]

lemma lastPut_frame {item : PresenceItem} (hv : v ≠ item.uid) :
    lastPut (ops ++ .put item put :: later) v = lastPut (ops ++ later) v := by
  unfold lastPut
  simp [List.filterMap_append, Op.stored, List.find?_append, hv.symm]

end Relayed

/-- What a log answers a lookup with depends on its last item for the identifier. -/
lemma log_get_congr {l l' : PresenceLog} (now : TaskTime) (item : PresenceItem)
    (h : l.last item.uid = l'.last item.uid) :
    (Presence.get l now item).1 = (Presence.get l' now item).1 ∧
      (Presence.get l now item).2.1 = (Presence.get l' now item).2.1 := by
  rcases hl : l.last item.uid with _ | it
  · rw [log_get_none hl, log_get_none (h ▸ hl)]
    exact ⟨rfl, rfl⟩
  · cases he : (recOf it).expired now
    · rw [log_get_live hl he, log_get_live (h ▸ hl) he]
      exact ⟨rfl, rfl⟩
    · rw [log_get_expired hl he, log_get_expired (h ▸ hl) he]
      exact ⟨rfl, rfl⟩

/-- What a log answers a lookup with: what it last held, the sender being stored first. -/
lemma log_lookup {l l' : PresenceLog} {q : Request} {src dest : UID} {a : Answer}
    (hbuf : q.buf = src.data ++ dest.data) (h : handle l q = .ok (a, l')) :
    a = reply dest (Presence.get (⟨PresenceItem.ofUidAddr q.now.ctor src q.addr :: l.items⟩ :
      PresenceLog) q.now.get (PresenceItem.ofUidAddr q.now.ctor dest q.addr)) := by
  obtain ⟨l₁, hp, ha, -⟩ := handle_lookup hbuf h
  rw [log_put] at hp
  cases hp
  exact ha

/-! ### The relay -/

section Relay

variable {ops later : List Op} {outs : List (Option (Bool × PresenceItem))} {s s' : MemPresence}
  {u : UID} {b : Sockaddr} {ctor put : TaskTime} {a : Answer}

lemma relay_get {now : TaskTime} {item : PresenceItem}
    (h : runOps MemPresence.empty (ops ++ .put (PresenceItem.ofUidAddr ctor u b) put :: later) =
      .ok (outs, s))
    (hlater : lastPut later u = none) (hitem : item.uid = u)
    (hc : ((ops ++ .put (PresenceItem.ofUidAddr ctor u b) put :: later).map Op.reading ++
      [now]).Pairwise (· ≤ ·))
    (hnow : now - ctor < 181 * ticksPerSec) :
    ∃ s₃, Presence.get s now item = (true, { item with addr := b, modified := ctor }, s₃) := by
  have hlast : (logOf (ops ++ .put (PresenceItem.ofUidAddr ctor u b) put :: later)).last item.uid =
      some (PresenceItem.ofUidAddr ctor u b) := by
    rw [hitem]
    exact lastPut_relayed (PresenceItem.ofUidAddr ctor u b) hlater
  obtain ⟨h₁, h₂⟩ := get_run hc h item
  rw [log_get_live hlast (expired_eq_false_iff.mpr hnow)] at h₁ h₂
  exact ⟨_, Prod.ext h₁ (Prod.ext h₂ rfl)⟩

lemma relay_query {q : Request} {src : UID}
    (h : runOps MemPresence.empty (ops ++ .put (PresenceItem.ofUidAddr ctor u b) put :: later) =
      .ok (outs, s))
    (hlater : lastPut later u = none) (hbuf : q.buf = src.data ++ u.data) (hsrc : src ≠ u)
    (hc : ((ops ++ .put (PresenceItem.ofUidAddr ctor u b) put :: later).map Op.reading ++
      q.readings).Pairwise (· ≤ ·))
    (hnow : q.now.get - ctor < 181 * ticksPerSec) (hq : handle s q = .ok (a, s')) :
    a = ⟨32, u.data ++ b.bytes⟩ := by
  obtain ⟨l, hl⟩ := handle_run hc h hq
  have hlast : PresenceLog.last ⟨PresenceItem.ofUidAddr q.now.ctor src q.addr ::
      (logOf (ops ++ .put (PresenceItem.ofUidAddr ctor u b) put :: later)).items⟩ u =
      some (PresenceItem.ofUidAddr ctor u b) := by
    rw [PresenceLog.last_cons_ne _ hsrc.symm]
    exact lastPut_relayed (PresenceItem.ofUidAddr ctor u b) hlater
  rw [log_lookup hbuf hl, log_get_live hlast (expired_eq_false_iff.mpr hnow)]
  rfl

end Relay

section Frame

variable {ops later : List Op} {outs outs' : List (Option (Bool × PresenceItem))}
  {s s' t t' : MemPresence} {stored : PresenceItem} {put : TaskTime} {a a' : Answer}

/-- The readings of a run with an item less are still in order. -/
lemma readings_frame {rest : List TaskTime}
    (hc : ((ops ++ .put stored put :: later).map Op.reading ++ rest).Pairwise (· ≤ ·)) :
    ((ops ++ later).map Op.reading ++ rest).Pairwise (· ≤ ·) := by
  refine hc.sublist (List.Sublist.append (List.Sublist.map _ ?_) (List.Sublist.refl rest))
  exact List.Sublist.append (List.Sublist.refl ops) (List.sublist_cons_self _ later)

/-- An item stored changes no answer of `get` for another identifier. -/
lemma frame_get {now : TaskTime} {item : PresenceItem}
    (h : runOps MemPresence.empty (ops ++ .put stored put :: later) = .ok (outs, s))
    (h' : runOps MemPresence.empty (ops ++ later) = .ok (outs', s')) (hne : item.uid ≠ stored.uid)
    (hc : ((ops ++ .put stored put :: later).map Op.reading ++ [now]).Pairwise (· ≤ ·)) :
    (Presence.get s now item).1 = (Presence.get s' now item).1 ∧
      (Presence.get s now item).2.1 = (Presence.get s' now item).2.1 := by
  obtain ⟨h₁, h₂⟩ := get_run hc h item
  obtain ⟨h₁', h₂'⟩ := get_run (readings_frame hc) h' item
  have hlast : (logOf (ops ++ .put stored put :: later)).last item.uid =
      (logOf (ops ++ later)).last item.uid := lastPut_frame hne
  obtain ⟨e₁, e₂⟩ := log_get_congr now item hlast
  exact ⟨by rw [h₁, h₁', e₁], by rw [h₂, h₂', e₂]⟩

lemma frame_query {q : Request} {src dest : UID}
    (h : runOps MemPresence.empty (ops ++ .put stored put :: later) = .ok (outs, s))
    (h' : runOps MemPresence.empty (ops ++ later) = .ok (outs', s')) (hne : dest ≠ stored.uid)
    (hc : ((ops ++ .put stored put :: later).map Op.reading ++ q.readings).Pairwise (· ≤ ·))
    (hbuf : q.buf = src.data ++ dest.data) (hq : handle s q = .ok (a, t))
    (hq' : handle s' q = .ok (a', t')) : a = a' := by
  obtain ⟨l, hl⟩ := handle_run hc h hq
  obtain ⟨l', hl'⟩ := handle_run (readings_frame hc) h' hq'
  have hlast : PresenceLog.last ⟨PresenceItem.ofUidAddr q.now.ctor src q.addr ::
        (logOf (ops ++ .put stored put :: later)).items⟩ dest =
      PresenceLog.last ⟨PresenceItem.ofUidAddr q.now.ctor src q.addr ::
        (logOf (ops ++ later)).items⟩ dest := by
    by_cases hd : src = dest
    · subst hd
      exact (PresenceLog.last_cons_self _ (PresenceItem.ofUidAddr q.now.ctor src q.addr)).trans
        (PresenceLog.last_cons_self _ _).symm
    · rw [PresenceLog.last_cons_ne _ (Ne.symm hd), PresenceLog.last_cons_ne _ (Ne.symm hd)]
      exact lastPut_frame hne
  obtain ⟨e₁, e₂⟩ := log_get_congr q.now.get (PresenceItem.ofUidAddr q.now.ctor dest q.addr) hlast
  rw [log_lookup hbuf hl, log_lookup hbuf hl']
  unfold reply
  rw [e₁, e₂]

end Frame

/-- **The relay.** Whatever the service answers with thirty-two bytes, from any store, is an
identifier and an address. A client that handles them as a datagram stores what it stores when
it is handed them as a buffer. Less than 181 s after the item made of them was stamped, and
until another record for the identifier is put, `get` and requests of other senders find that
very address; and what lookups of the other identifiers find is what they find without the
datagram. -/
theorem relay_agreement {s s' : MemPresence} {r : Request} {a : Answer}
    (hr : handle s r = .ok (a, s')) (hret : a.ret = 32) :
    ∃ (u : UID) (b : Sockaddr), sent a = some (u.data ++ b.bytes) ∧
      ∀ (c c' : UVClient MemPresence) (ops later : List Op)
        (outs outs₂ : List (Option (Bool × PresenceItem))) (s₂ : MemPresence)
        (addr : Sockaddr) (ctor put : TaskTime),
        runOps MemPresence.empty ops = .ok (outs, c.presence) →
        onUDPRead c 32 (u.data ++ b.bytes) addr ctor put = .ok c' →
        runOps c'.presence later = .ok (outs₂, s₂) →
        putBuf c.presence (u.data ++ b.bytes) ctor put = .ok (true, c'.presence) ∧
        (lastPut later u = none →
          (∀ item now, item.uid = u →
            (ops.map Op.reading ++ put :: later.map Op.reading ++ [now]).Pairwise (· ≤ ·) →
            now - ctor < 181 * ticksPerSec →
            ∃ s₃, Presence.get s₂ now item =
              (true, { item with addr := b, modified := ctor }, s₃)) ∧
          ∀ (q : Request) (src : UID) a₃ s₃, q.buf = src.data ++ u.data → src ≠ u →
            (ops.map Op.reading ++ put :: later.map Op.reading ++ q.readings).Pairwise (· ≤ ·) →
            q.now.get - ctor < 181 * ticksPerSec →
            handle s₂ q = .ok (a₃, s₃) → sent a₃ = some (u.data ++ b.bytes)) ∧
        ∀ outs₂' s₂', runOps c.presence later = .ok (outs₂', s₂') →
          (∀ item now, item.uid ≠ u →
            (ops.map Op.reading ++ put :: later.map Op.reading ++ [now]).Pairwise (· ≤ ·) →
            (Presence.get s₂ now item).1 = (Presence.get s₂' now item).1 ∧
              (Presence.get s₂ now item).2.1 = (Presence.get s₂' now item).2.1) ∧
          ∀ (q : Request) (src dest : UID) a₃ s₃ a₃' s₃', q.buf = src.data ++ dest.data → dest ≠ u →
            (ops.map Op.reading ++ put :: later.map Op.reading ++ q.readings).Pairwise (· ≤ ·) →
            handle s₂ q = .ok (a₃, s₃) → handle s₂' q = .ok (a₃', s₃') → a₃ = a₃' := by
  obtain ⟨u, b, hub⟩ := answer_form hr hret
  refine ⟨u, b, hub, fun c c' ops later outs outs₂ s₂ addr ctor put hops hdgram hlater => ?_⟩
  have hbuf := putBuf_eq_onUDPRead c u b addr ctor put
  rw [hdgram] at hbuf
  obtain ⟨c₁, hput, rfl⟩ := onUDPRead_record.mp hdgram
  rw [PresenceItem.ofBuffer_append] at hput
  -- the datagram is one more call between the others
  have hrun : runOps MemPresence.empty
      (ops ++ .put (PresenceItem.ofUidAddr ctor u b) put :: later) =
        .ok (outs ++ none :: outs₂, s₂) :=
    run_append_eq_ok.mpr ⟨outs, c.presence, none :: outs₂, hops,
      run_cons_eq_ok.mpr ⟨none, c₁, outs₂, step_put.mpr ⟨rfl, hput⟩, hlater, rfl⟩, rfl⟩
  have hmap : (ops ++ .put (PresenceItem.ofUidAddr ctor u b) put :: later).map Op.reading =
      ops.map Op.reading ++ put :: later.map Op.reading := List.map_append
  refine ⟨hbuf, fun hnone => ⟨fun item now hitem hc hnow => ?_, ?_⟩, ?_⟩
  · exact relay_get hrun hnone hitem (hmap ▸ hc) hnow
  · intro q src a₃ s₃ hq hsrc hc hnow ha
    rw [relay_query hrun hnone hq hsrc (hmap ▸ hc) hnow ha, sent_record]
  · intro outs₂' s₂' hlater'
    have hrun' : runOps MemPresence.empty (ops ++ later) = .ok (outs ++ outs₂', s₂') :=
      run_append_eq_ok.mpr ⟨outs, c.presence, outs₂', hops, hlater', rfl⟩
    refine ⟨fun item now hne hc => frame_get hrun hrun' hne (hmap ▸ hc), ?_⟩
    intro q src dest a₃ s₃ a₃' s₃' hq hne hc ha ha'
    exact frame_query hrun hrun' hne (hmap ▸ hc) hq ha ha'

def newClient : UVClient MemPresence :=
  ⟨UID.ofBytes [1], Sockaddr.ofBytes [2, 0, 7, 208], MemPresence.empty⟩

/-- A ping whose reply is relayed to a client, which hears of another identifier before it looks
this one up. -/
theorem relay_agreement_pinged : ∃ s' c' outs s₂ s₃,
    handle MemPresence.empty pinged = .ok (⟨32, (UID.ofBytes [2]).data ++ pinged.addr.bytes⟩, s') ∧
    onUDPRead newClient 32 ((UID.ofBytes [2]).data ++ pinged.addr.bytes) newClient.remoteAddress
      10 11 = .ok c' ∧
    runOps c'.presence [.put ⟨12, UID.ofBytes [3], pinged.addr⟩ 13] = .ok (outs, s₂) ∧
    Presence.get s₂ 14 ⟨0, UID.ofBytes [2], Sockaddr.ofBytes []⟩ =
      (true, ⟨10, UID.ofBytes [2], pinged.addr⟩, s₃) := by
  have hr : ∃ s', handle MemPresence.empty pinged =
      .ok (⟨32, (UID.ofBytes [2]).data ++ pinged.addr.bytes⟩, s') := ⟨_, rfl⟩
  obtain ⟨s', hr'⟩ := hr
  obtain ⟨u, b, hub, hrelay⟩ := relay_agreement hr' rfl
  obtain ⟨hu, hb⟩ := List.append_inj
    (Option.some.inj ((sent_record (UID.ofBytes [2]) pinged.addr).symm.trans hub))
    ((UID.ofBytes [2]).size.trans u.size.symm)
  obtain rfl := UID.ext hu
  obtain rfl := Sockaddr.ext hb
  obtain ⟨-, hfound, -⟩ := hrelay newClient _ [] [.put ⟨12, UID.ofBytes [3], pinged.addr⟩ 13] []
    _ _ newClient.remoteAddress 10 11 rfl rfl rfl
  obtain ⟨s₃, h₃⟩ := (hfound (by decide)).1 ⟨0, UID.ofBytes [2], Sockaddr.ofBytes []⟩ 14 rfl
    (by decide) (by decide)
  exact ⟨s', _, _, _, s₃, hr', rfl, rfl, h₃⟩

end SimplePresence.Client
