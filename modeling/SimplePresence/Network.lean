import SimplePresence.Client

/-!
A client and its service in a network of others.

Whatever was sent can be delivered at any time, any number of times, or never. Others send
what they like, from any address but that of the service. The client has no way to tell a
reply from any other datagram of thirty-two bytes, and does not look at the sender.

These are runs over UDP. Either program also answers requests over TCP from the same store;
nobody does so here.
-/

namespace SimplePresence.Network

open SimplePresence.Uid SimplePresence.Item SimplePresence.OrderedMap SimplePresence.Query
open SimplePresence.Store SimplePresence.Machine SimplePresence.Listener SimplePresence.Client

structure Datagram where
  src : Sockaddr
  dest : Sockaddr
  buf : List UInt8
  deriving DecidableEq, Repr

/-- The store of the service, the client, and every datagram sent so far. -/
structure World where
  service : MemPresence
  client : UVClient MemPresence
  sent : List Datagram

/-- The timer of the client calls back, the service or the client is handed a datagram, or
somebody else sends one. -/
inductive Action
  | timer
  | serve (d : Datagram) (now : Readings)
  | deliver (d : Datagram) (ctor put : TaskTime)
  | send (d : Datagram)

inductive Event
  | nothing
  | answered (d : Datagram)
  /-- A datagram was read by the client, whose store was `before` and is `after` now. -/
  | received (d : Datagram) (before after : MemPresence)

/-- One step of the network; `me` is the address of the client. Nothing is delivered that was
not sent. -/
def World.step (me : Sockaddr) (w : World) : Action → Except Fault (Event × World)
  | .timer =>
    let ping := onTimer w.client
    .ok (.nothing, { w with sent := ⟨me, ping.dest, ping.buf⟩ :: w.sent })
  | .serve d now =>
    if d ∈ w.sent ∧ d.dest = w.client.remoteAddress then
      match Listener.onUDPRead w.service d.buf.length d.buf d.src now with
      | .error e => .error e
      | .ok (none, s) => .ok (.nothing, { w with service := s })
      | .ok (some buf, s) =>
        let answer := Datagram.mk w.client.remoteAddress d.src buf
        .ok (.answered answer, { w with service := s, sent := answer :: w.sent })
    else .ok (.nothing, w)
  | .deliver d ctor put =>
    if d ∈ w.sent ∧ d.dest = me then
      match Client.onUDPRead w.client d.buf.length d.buf d.src ctor put with
      | .error e => .error e
      | .ok c => .ok (.received d w.client.presence c.presence, { w with client := c })
    else .ok (.nothing, w)
  | .send d =>
    if d.src = w.client.remoteAddress then .ok (.nothing, w)
    else .ok (.nothing, { w with sent := d :: w.sent })

def World.initial (uid : UID) (remoteAddress : Sockaddr) : World :=
  ⟨MemPresence.empty, ⟨uid, remoteAddress, MemPresence.empty⟩, []⟩

/-! ### What a step can do -/

section Step

variable {me : Sockaddr} {w w' : World} {e : Event} {d : Datagram}

lemma step_serve {now : Readings} (h : World.step me w (.serve d now) = .ok (e, w')) :
    (e = .nothing ∧ w'.sent = w.sent ∧ w'.client = w.client) ∨
      ∃ buf, e = .answered ⟨w.client.remoteAddress, d.src, buf⟩ ∧ w'.client = w.client ∧
        w'.sent = ⟨w.client.remoteAddress, d.src, buf⟩ :: w.sent := by
  rw [World.step] at h
  split at h
  · rcases hread : Listener.onUDPRead w.service d.buf.length d.buf d.src now with
      e' | ⟨_ | buf, s⟩
    · rw [hread] at h
      cases h
    · rw [hread] at h
      cases h
      exact Or.inl ⟨rfl, rfl, rfl⟩
    · rw [hread] at h
      cases h
      exact Or.inr ⟨buf, rfl, rfl, rfl⟩
  · cases h
    exact Or.inl ⟨rfl, rfl, rfl⟩

/-- The client puts a datagram of thirty-two bytes, whoever sent it, and no other. -/
lemma step_deliver {ctor put : TaskTime} (h : World.step me w (.deliver d ctor put) = .ok (e, w')) :
    (e = .nothing ∧ w' = w ∧ ¬ (d ∈ w.sent ∧ d.dest = me)) ∨
      (d ∈ w.sent ∧ d.dest = me) ∧ ∃ s, e = .received d w.client.presence s ∧
        w' = { w with client := { w.client with presence := s } } ∧
        (d.buf.length ≠ 32 → s = w.client.presence) ∧
        (d.buf.length = 32 →
          Presence.put w.client.presence put (PresenceItem.ofBuffer ctor d.buf) = .ok s) := by
  rw [World.step] at h
  by_cases hd : d ∈ w.sent ∧ d.dest = me
  · rw [if_pos hd] at h
    refine Or.inr ⟨hd, ?_⟩
    by_cases hlen : d.buf.length = 32
    · rw [hlen] at h
      rcases hc : Client.onUDPRead w.client (32 : ℕ) d.buf d.src ctor put with e' | c
      · rw [hc] at h
        cases h
      · rw [hc] at h
        cases h
        obtain ⟨s, hs, rfl⟩ := onUDPRead_record.mp hc
        exact ⟨s, rfl, rfl, fun hne => absurd hlen hne, fun _ => hs⟩
    · have hother : Client.onUDPRead w.client d.buf.length d.buf d.src ctor put =
          .ok w.client := onUDPRead_other (by omega)
      rw [hother] at h
      cases h
      exact ⟨w.client.presence, rfl, rfl, fun _ => rfl, fun hlen' => absurd hlen' hlen⟩
  · rw [if_neg hd] at h
    cases h
    exact Or.inl ⟨rfl, rfl, hd⟩

lemma step_send (h : World.step me w (.send d) = .ok (e, w')) :
    e = .nothing ∧ w'.client = w.client ∧
      (w'.sent = w.sent ∨ d.src ≠ w.client.remoteAddress ∧ w'.sent = d :: w.sent) := by
  rw [World.step] at h
  split at h
  · cases h
    exact ⟨rfl, rfl, Or.inl rfl⟩
  · rename_i hsrc
    cases h
    exact ⟨rfl, rfl, Or.inr ⟨hsrc, rfl⟩⟩

end Step

/-! ### Where records come from -/

/-- What the client made of a datagram: a put of the record it carries, or nothing. -/
structure Taken (d : Datagram) (s s' : MemPresence) : Prop where
  other : d.buf.length ≠ 32 → s' = s
  record : d.buf.length = 32 → ∃ it put,
    d.buf = it.uid.data ++ it.addr.bytes ∧ Presence.put s put it = .ok s'

/-- What is known of the events of a run and the world it ends in. -/
structure Invariant (me remoteAddress : Sockaddr) (es : List Event) (w : World) : Prop where
  remote : w.client.remoteAddress = remoteAddress
  /-- Of the datagrams from the service's address, those of thirty-two bytes are replies. -/
  replies : ∀ d ∈ w.sent, d.src = remoteAddress → d.buf.length = 32 → .answered d ∈ es
  /-- What was read was sent to the client, as a reply if it came from the service's address. -/
  read : ∀ pre d s s' post, es = pre ++ .received d s s' :: post →
    d ∈ w.sent ∧ d.dest = me ∧ Taken d s s' ∧
      (d.src = remoteAddress → d.buf.length = 32 → .answered d ∈ pre)
  /-- Nothing else is in the store. -/
  stored : ∀ u r, Holds w.client.presence u r → ∃ d s s' it put, .received d s s' ∈ es ∧
    d.buf = it.uid.data ++ it.addr.bytes ∧ Presence.put s put it = .ok s' ∧ it.uid = u ∧
      r = recOf it

section Run

variable {me remoteAddress : Sockaddr} {es : List Event} {w w' : World}

lemma Invariant.initial (uid : UID) :
    Invariant me remoteAddress [] (World.initial uid remoteAddress) where
  remote := rfl
  replies := fun d hd => by cases hd
  read := fun pre d s s' post h => by simp at h
  stored := fun u r hr => absurd hr (not_holds_empty u r)

/-- What holds of the datagrams read in a trace holds of those in the trace with one more event,
when it holds of that event. -/
lemma read_append {P : List Event → Datagram → MemPresence → MemPresence → Prop} {e : Event}
    (h : ∀ pre d s s' post, es = pre ++ .received d s s' :: post → P pre d s s')
    (he : ∀ d s s', e = .received d s s' → P es d s s') :
    ∀ pre d s s' post, es ++ [e] = pre ++ .received d s s' :: post → P pre d s s' := by
  intro pre d s s' post heq
  rcases List.eq_nil_or_concat post with rfl | ⟨post, x, rfl⟩
  · obtain ⟨rfl, h₂⟩ := List.append_inj' heq rfl
    exact he d s s' (List.singleton_inj.mp h₂)
  · rw [List.concat_eq_append, ← List.cons_append, ← List.append_assoc] at heq
    exact h pre d s s' post (List.append_inj' heq rfl).1

/-- A step in which the client reads nothing keeps the invariant, as long as a datagram of
thirty-two bytes it sends from the service's address is a reply. -/
lemma Invariant.of_quiet {e : Event} (hI : Invariant me remoteAddress es w)
    (he : ∀ d s s', e ≠ .received d s s') (hclient : w'.client = w.client)
    (hsent : ∀ d ∈ w.sent, d ∈ w'.sent)
    (hnew : ∀ d ∈ w'.sent, d ∈ w.sent ∨ d.src ≠ remoteAddress ∨ d.buf.length ≠ 32 ∨
      e = .answered d) :
    Invariant me remoteAddress (es ++ [e]) w' where
  remote := by rw [hclient, hI.remote]
  replies := by
    intro d hd hsrc hlen
    rcases hnew d hd with h | h | h | h
    · exact List.mem_append_left _ (hI.replies d h hsrc hlen)
    · exact absurd hsrc h
    · exact absurd hlen h
    · exact List.mem_append_right _ (List.mem_singleton.mpr h.symm)
  read := by
    refine read_append (fun pre d s s' post h => ?_) (fun d s s' h => absurd h (he d s s'))
    obtain ⟨h₁, h₂⟩ := hI.read pre d s s' post h
    exact ⟨hsent d h₁, h₂⟩
  stored := by
    intro u r hr
    rw [hclient] at hr
    obtain ⟨d, s, s', it, put, hmem, hit⟩ := hI.stored u r hr
    exact ⟨d, s, s', it, put, List.mem_append_left _ hmem, hit⟩

lemma Invariant.of_read {d : Datagram} {ctor put : TaskTime} {s : MemPresence}
    (hI : Invariant me remoteAddress es w) (hd : d ∈ w.sent) (hdest : d.dest = me)
    (hother : d.buf.length ≠ 32 → s = w.client.presence)
    (hput : d.buf.length = 32 →
      Presence.put w.client.presence put (PresenceItem.ofBuffer ctor d.buf) = .ok s) :
    Invariant me remoteAddress (es ++ [.received d w.client.presence s])
      { w with client := { w.client with presence := s } } where
  remote := hI.remote
  replies := fun d' hd' hsrc hlen' => List.mem_append_left _ (hI.replies d' hd' hsrc hlen')
  read := by
    refine read_append (fun pre d' s s' post h => hI.read pre d' s s' post h) ?_
    intro d' t t' h
    cases h
    refine ⟨hd, hdest, ⟨hother, fun hlen => ?_⟩, fun hsrc hlen => hI.replies d hd hsrc hlen⟩
    exact ⟨_, put, (PresenceItem.data_ofBuffer ctor hlen).symm, hput hlen⟩
  stored := by
    intro u r hr
    have hold : Holds w.client.presence u r → ∃ d' t t' it put',
        .received d' t t' ∈ es ++ [.received d w.client.presence s] ∧
        d'.buf = it.uid.data ++ it.addr.bytes ∧ Presence.put t put' it = .ok t' ∧ it.uid = u ∧
          r = recOf it := by
      intro hr'
      obtain ⟨d', t, t', it, put', hmem, hit⟩ := hI.stored u r hr'
      exact ⟨d', t, t', it, put', List.mem_append_left _ hmem, hit⟩
    by_cases hlen : d.buf.length = 32
    · rcases holds_of_put (hput hlen) hr with ⟨rfl, rfl⟩ | ⟨-, hr'⟩
      · exact ⟨d, _, s, _, put, List.mem_append_right _ List.mem_cons_self,
          (PresenceItem.data_ofBuffer ctor hlen).symm, hput hlen, rfl, rfl⟩
      · exact hold hr'
    · exact hold (hother hlen ▸ hr)

/-- **Every step keeps the invariant.** -/
lemma invariant_step {a : Action} {e : Event} (hI : Invariant me remoteAddress es w)
    (h : World.step me w a = .ok (e, w')) : Invariant me remoteAddress (es ++ [e]) w' := by
  cases a with
  | timer =>
    cases h
    refine hI.of_quiet (fun d s s' h => by cases h) rfl (fun d => List.mem_cons_of_mem _) ?_
    intro d hd
    rcases List.mem_cons.mp hd with rfl | hd
    · -- a ping has sixteen bytes
      refine Or.inr (Or.inr (Or.inl ?_))
      show (w.client.uid.data.take 16).length ≠ 32
      simp [w.client.uid.length_data]
    · exact Or.inl hd
  | serve d now =>
    rcases step_serve h with ⟨rfl, hsent, hclient⟩ | ⟨buf, rfl, hclient, hsent⟩
    · exact hI.of_quiet (fun d s s' h => by cases h) hclient (fun d hd => hsent ▸ hd)
        (fun d hd => Or.inl (hsent ▸ hd))
    · refine hI.of_quiet (fun d s s' h => by cases h) hclient
        (fun d hd => hsent ▸ List.mem_cons_of_mem _ hd) (fun d' hd' => ?_)
      rw [hsent] at hd'
      rcases List.mem_cons.mp hd' with rfl | hd'
      · exact Or.inr (Or.inr (Or.inr rfl))
      · exact Or.inl hd'
  | deliver d ctor put =>
    rcases step_deliver h with ⟨rfl, rfl, -⟩ | ⟨⟨hd, hdest⟩, s, rfl, rfl, hother, hput⟩
    · exact hI.of_quiet (fun d s s' h => by cases h) rfl (fun d hd => hd) (fun d hd => Or.inl hd)
    · exact hI.of_read hd hdest hother hput
  | send d =>
    obtain ⟨rfl, hclient, hsent | ⟨hsrc, hsent⟩⟩ := step_send h
    · exact hI.of_quiet (fun d s s' h => by cases h) hclient (fun d hd => hsent ▸ hd)
        (fun d hd => Or.inl (hsent ▸ hd))
    · refine hI.of_quiet (fun d s s' h => by cases h) hclient
        (fun d hd => hsent ▸ List.mem_cons_of_mem _ hd) (fun d' hd' => ?_)
      rw [hsent] at hd'
      rcases List.mem_cons.mp hd' with rfl | hd'
      · exact Or.inr (Or.inl (hI.remote ▸ hsrc))
      · exact Or.inl hd'

end Run

lemma invariant_run {me remoteAddress : Sockaddr} {uid : UID} {actions : List Action}
    {es : List Event} {w : World}
    (h : run (World.step me) (World.initial uid remoteAddress) actions = .ok (es, w)) :
    Invariant me remoteAddress es w :=
  run_induction (I := fun _ es w => Invariant me remoteAddress es w) (Invariant.initial uid)
    (fun _ _ _ _ _ _ hI hs => invariant_step hI hs) h

/-- **Where a client learns addresses.** In any run of the network in which every cleaning pass
is defined, what the client reads was sent to it. If it has thirty-two bytes they are an
identifier and an address, put as such whoever sent them, and a reply of the service if they
came from its address; any other leaves the store alone. Nothing is in the store that was not
put in this way, and every datagram sent to the client is so treated when it is delivered. -/
theorem client_learns_from_datagrams (me remoteAddress : Sockaddr) (uid : UID)
    (actions : List Action) (es : List Event) (w : World)
    (h : run (World.step me) (World.initial uid remoteAddress) actions = .ok (es, w)) :
    (∀ pre d s s' post, es = pre ++ .received d s s' :: post →
      d ∈ w.sent ∧ d.dest = me ∧ (d.buf.length ≠ 32 → s' = s) ∧
        (d.buf.length = 32 → ∃ it put, d.buf = it.uid.data ++ it.addr.bytes ∧
          Presence.put s put it = .ok s' ∧ (d.src = remoteAddress → .answered d ∈ pre))) ∧
    (∀ u r, Holds w.client.presence u r → ∃ d s s' it put, .received d s s' ∈ es ∧
      d.buf = it.uid.data ++ it.addr.bytes ∧ Presence.put s put it = .ok s' ∧ it.uid = u ∧
        r = recOf it) ∧
    ∀ d ctor put e w', d ∈ w.sent → d.dest = me →
      World.step me w (.deliver d ctor put) = .ok (e, w') →
      e = .received d w.client.presence w'.client.presence ∧
        (d.buf.length = 32 → Presence.put w.client.presence put (PresenceItem.ofBuffer ctor d.buf) =
          .ok w'.client.presence) ∧
        (d.buf.length ≠ 32 → w' = w) := by
  have hI := invariant_run h
  refine ⟨fun pre d s s' post hes => ?_, hI.stored, fun d ctor put e w' hd hdest hs => ?_⟩
  · obtain ⟨hd, hdest, htaken, hreply⟩ := hI.read pre d s s' post hes
    refine ⟨hd, hdest, htaken.other, fun hlen => ?_⟩
    obtain ⟨it, put, hbuf, hput⟩ := htaken.record hlen
    exact ⟨it, put, hbuf, hput, fun hsrc => hreply hsrc hlen⟩
  · rcases step_deliver hs with ⟨-, -, hno⟩ | ⟨-, s, rfl, rfl, hother, hput⟩
    · exact absurd ⟨hd, hdest⟩ hno
    · refine ⟨rfl, hput, fun hne => ?_⟩
      rw [hother hne]

def home : Sockaddr := Sockaddr.ofBytes [2, 0, 7, 208, 10, 0, 0, 1]

def server : Sockaddr := Sockaddr.ofBytes [2, 0, 7, 209, 10, 0, 0, 2]

def stranger : Sockaddr := Sockaddr.ofBytes [2, 0, 7, 210, 10, 0, 0, 3]

def pingPong : List Action :=
  [.timer, .serve ⟨home, server, (UID.ofBytes [1]).data⟩ ⟨0, 0, 0⟩,
    .deliver ⟨server, home, (UID.ofBytes [1]).data ++ home.bytes⟩ 1 1]

theorem client_learns_from_datagrams_pingPong : ∃ es w,
    run (World.step home) (World.initial (UID.ofBytes [1]) server) pingPong = .ok (es, w) ∧
    Holds w.client.presence (UID.ofBytes [1]) ⟨1, home⟩ ∧
    ∀ u r, Holds w.client.presence u r → ∃ d s s' it put, .received d s s' ∈ es ∧
      d.buf = it.uid.data ++ it.addr.bytes ∧ Presence.put s put it = .ok s' ∧ it.uid = u ∧
        r = recOf it :=
  ⟨_, _, rfl, List.mem_cons_self,
    (client_learns_from_datagrams home server (UID.ofBytes [1]) pingPong _ _ rfl).2.1⟩

/-- A request to look somebody up that reaches the client instead of the service. -/
def astray : Datagram :=
  ⟨stranger, home, (UID.ofBytes [3]).data ++ (UID.ofBytes [4]).data⟩

/-- It is put as a record, the identifier asked for as the address of the one who asks. -/
theorem client_learns_from_stranger : ∃ es w,
    run (World.step home) (World.initial (UID.ofBytes [1]) server)
      [.send astray, .deliver astray 0 0] = .ok (es, w) ∧
    astray.src ≠ server ∧ (∀ d, .answered d ∉ es) ∧
    ¬ Holds (World.initial (UID.ofBytes [1]) server).client.presence (UID.ofBytes [3])
      ⟨0, Sockaddr.ofBytes (UID.ofBytes [4]).data⟩ ∧
    Holds w.client.presence (UID.ofBytes [3]) ⟨0, Sockaddr.ofBytes (UID.ofBytes [4]).data⟩ := by
  refine ⟨_, _, rfl, by decide, fun d hd => ?_, not_holds_empty _ _, List.mem_cons_self⟩
  rcases List.mem_cons.mp hd with h | h
  · cases h
  · rcases List.mem_cons.mp h with h | h <;> cases h

end SimplePresence.Network
