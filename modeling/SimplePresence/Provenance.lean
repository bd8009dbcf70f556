import SimplePresence.Network

/-!
Where what a client is told comes from.

The service looks at nothing but the first bytes of a request and its sender. So every address
in a reply is one that a datagram came from which began with the identifier; and a client only
asks for itself, so as long as nobody sends in its name the service tells it nothing but where
it is. All of this is said of UDP: a request over TCP is recorded with the address it came from
as well, and a client answers one from the store it keeps what it is told in.
-/

namespace SimplePresence.Provenance

open SimplePresence.Uid SimplePresence.Item SimplePresence.OrderedMap SimplePresence.Query
open SimplePresence.Store SimplePresence.Machine SimplePresence.Service SimplePresence.Listener
open SimplePresence.Network

/-! ### What the service makes of a datagram -/

section Handle

variable {s s' : MemPresence} {r : Request} {a : Answer}

/-- A record of the store is one it held, or that of the request. -/
lemma holds_of_handle (h : handle s r = .ok (a, s')) {u : UID} {rec : PresenceItemRec}
    (hr : Holds s' u rec) : Holds s u rec ∨ r.Bears u ∧ rec.addr = r.addr := by
  have hput : ∀ s₁, IsRequest r.buf → Presence.put s r.now.put r.item = .ok s₁ →
      Holds s₁ u rec → Holds s u rec ∨ r.Bears u ∧ rec.addr = r.addr := by
    intro s₁ hreq hp h₁
    rcases holds_of_put hp h₁ with ⟨rfl, rfl⟩ | ⟨-, hs⟩
    · exact Or.inr ⟨Request.bears_iff.mpr ⟨hreq, rfl⟩, rfl⟩
    · exact Or.inl hs
  rcases handle_cases h with ⟨-, -, rfl⟩ | ⟨src, hbuf, hp, -⟩ | ⟨src, dest, s₁, hbuf, hp, -, rfl⟩
  · exact Or.inl hr
  · exact hput s' (hbuf ▸ isRequest_ping src) hp hr
  · refine hput s₁ (hbuf ▸ isRequest_lookup src dest) hp ?_
    rcases get_cases s₁ r.now.get (PresenceItem.ofUidAddr r.now.ctor dest r.addr) with
      ha | ⟨q, hq, he⟩ | ⟨q, hq, he⟩
    · rwa [get_absent ha] at hr
    · rw [get_expired hq he] at hr
      exact (holds_erase.mp hr).1
    · rwa [get_live hq he] at hr

/-- A request asks for an identifier: its sender's, or the one behind it. -/
def Asks (buf : List UInt8) (u : UID) : Prop :=
  buf = u.data ∨ ∃ src : UID, buf = src.data ++ u.data

/-- What is sent is where the identifier that is asked for is, as the request itself says or the
store does. -/
lemma sent_of_handle (h : handle s r = .ok (a, s')) {buf : List UInt8} (hs : sent a = some buf) :
    ∃ (u : UID) (b : Sockaddr), buf = u.data ++ b.bytes ∧ Asks r.buf u ∧
      (r.buf = u.data → b = r.addr) ∧
      (r.Bears u ∧ b = r.addr ∨ ∃ rec, Holds s u rec ∧ b = rec.addr) := by
  rcases handle_cases h with ⟨-, rfl, -⟩ | ⟨src, hbuf, -, rfl⟩ | ⟨src, dest, s₁, hbuf, hp, rfl, -⟩
  · cases hs
  · rw [sent_record] at hs
    cases hs
    exact ⟨src, r.addr, rfl, Or.inl hbuf, fun _ => rfl, Or.inl ⟨Request.bears_ping hbuf, rfl⟩⟩
  · have hnone : sent ⟨0, dest.data⟩ = none := rfl
    unfold reply at hs
    rcases get_cases s₁ r.now.get (PresenceItem.ofUidAddr r.now.ctor dest r.addr) with
      ha | ⟨q, hq, he⟩ | ⟨q, hq, he⟩
    · rw [get_absent ha, if_neg Bool.false_ne_true, hnone] at hs
      cases hs
    · rw [get_expired hq he, if_neg Bool.false_ne_true, hnone] at hs
      cases hs
    · rw [get_live hq he, if_pos rfl, sent_record] at hs
      cases hs
      refine ⟨dest, q.addr, rfl, Or.inr ⟨src, hbuf⟩, fun hping => ?_, ?_⟩
      · have hlen := congrArg List.length (hbuf.symm.trans hping)
        rw [src.length_append, dest.length_data] at hlen
        cases hlen
      rcases holds_of_put hp hq with ⟨hd, rfl⟩ | ⟨-, hheld⟩
      · exact Or.inl ⟨Request.bears_iff.mpr ⟨hbuf ▸ isRequest_lookup src dest, hd.symm⟩, rfl⟩
      · exact Or.inr ⟨q, hheld, rfl⟩

/-- The service hands a datagram to `query`, whatever its length. -/
lemma onUDPRead_eq (s : MemPresence) (buf : List UInt8) (addr : Sockaddr) (now : Readings) :
    Listener.onUDPRead s buf.length buf addr now =
      (handle s ⟨addr, buf, now⟩).map fun r => (sent r.1, r.2) := by
  unfold Listener.onUDPRead handle
  rw [if_neg (by omega), Int.toNat_natCast, List.take_length]
  split_ifs with hzero
  · have hnil : buf.length = 0 := by omega
    have hother : ¬ IsRequest buf := by
      unfold IsRequest
      omega
    rw [query_other s addr now hother]
    rfl
  · cases query s addr buf now with
    | error e => rfl
    | ok r => rfl

end Handle

/-! ### What holds of everything sent -/

/-- A datagram to the service says that `u` is at `b`. -/
def Announces (remoteAddress : Sockaddr) (q : Datagram) (u : UID) (b : Sockaddr) : Prop :=
  q.dest = remoteAddress ∧ q.src = b ∧ IsRequest q.buf ∧ q.buf.take sizeUid = u.data

/-- What a datagram says was asked for where it goes, and announced. -/
def Vouched (remoteAddress : Sockaddr) (sent : List Datagram) (d : Datagram) : Prop :=
  ∃ (u : UID) (b : Sockaddr), d.buf = u.data ++ b.bytes ∧
    (∃ q ∈ sent, q.dest = remoteAddress ∧ q.src = d.dest ∧ Asks q.buf u ∧
      (q.buf = u.data → b = q.src)) ∧
    ∃ q ∈ sent, Announces remoteAddress q u b

/-- Every record of the service was announced, and every reply is vouched for. -/
structure Truthful (remoteAddress : Sockaddr) (w : World) : Prop where
  remote : w.client.remoteAddress = remoteAddress
  known : ∀ u rec, Holds w.service u rec → ∃ q ∈ w.sent, Announces remoteAddress q u rec.addr
  told : ∀ d ∈ w.sent, d.src = remoteAddress → d.buf.length = 32 → Vouched remoteAddress w.sent d

section Step

variable {me remoteAddress : Sockaddr} {w w' : World} {e : Event} {d : Datagram}

lemma Vouched.mono {l l' : List Datagram} (hsub : ∀ q ∈ l, q ∈ l')
    (h : Vouched remoteAddress l d) : Vouched remoteAddress l' d := by
  obtain ⟨u, b, hbuf, ⟨q, hq, hasks⟩, ⟨q', hq', hann⟩⟩ := h
  exact ⟨u, b, hbuf, ⟨q, hsub q hq, hasks⟩, ⟨q', hsub q' hq', hann⟩⟩

lemma Truthful.initial (uid : UID) : Truthful remoteAddress (World.initial uid remoteAddress) where
  remote := rfl
  known := fun u rec h => absurd h (not_holds_empty u rec)
  told := fun d hd => by cases hd

/-- A step that leaves the service alone, and sends no thirty-two bytes in its name. -/
lemma Truthful.of_quiet (h : Truthful remoteAddress w)
    (hremote : w'.client.remoteAddress = w.client.remoteAddress) (hservice : w'.service = w.service)
    (hsub : ∀ d ∈ w.sent, d ∈ w'.sent)
    (hnew : ∀ d ∈ w'.sent, d ∈ w.sent ∨ d.src ≠ remoteAddress ∨ d.buf.length ≠ 32) :
    Truthful remoteAddress w' where
  remote := hremote.trans h.remote
  known := by
    intro u rec hrec
    obtain ⟨q, hq, hann⟩ := h.known u rec (hservice ▸ hrec)
    exact ⟨q, hsub q hq, hann⟩
  told := by
    intro d hd hsrc hlen
    rcases hnew d hd with hold | hne | hne
    · exact (h.told d hold hsrc hlen).mono hsub
    · exact absurd hsrc hne
    · exact absurd hlen hne

/-- The service is handed what was sent to it, or nothing happens. -/
lemma step_serve_handle {now : Readings} (h : World.step me w (.serve d now) = .ok (e, w')) :
    w' = w ∨ d ∈ w.sent ∧ d.dest = w.client.remoteAddress ∧ ∃ a s,
      handle w.service ⟨d.src, d.buf, now⟩ = .ok (a, s) ∧
      w'.service = s ∧ w'.client = w.client ∧
      w'.sent = (sent a).toList.map (Datagram.mk w.client.remoteAddress d.src) ++ w.sent := by
  rw [World.step] at h
  split_ifs at h with hd
  · rw [onUDPRead_eq] at h
    rcases hh : handle w.service ⟨d.src, d.buf, now⟩ with _ | ⟨a, s⟩
    · rw [hh] at h
      cases h
    · rw [hh] at h
      refine Or.inr ⟨hd.1, hd.2, a, s, rfl, ?_⟩
      dsimp only [Except.map] at h
      cases hs : sent a with
      | none =>
        rw [hs] at h
        cases h
        exact ⟨rfl, rfl, rfl⟩
      | some buf =>
        rw [hs] at h
        cases h
        exact ⟨rfl, rfl, rfl⟩
  · cases h
    exact Or.inl rfl

/-- What the service does with a datagram is truthful. -/
lemma Truthful.serve {now : Readings} (h : Truthful remoteAddress w)
    (hs : World.step me w (.serve d now) = .ok (e, w')) : Truthful remoteAddress w' := by
  rcases step_serve_handle hs with rfl | ⟨hd, hdest, a, s, hh, rfl, hclient, hsent⟩
  · exact h
  · rw [h.remote] at hdest hsent
    have hsub : ∀ q ∈ w.sent, q ∈ w'.sent := fun q hq => hsent ▸ List.mem_append_right _ hq
    -- what the request bears, it announces
    have hann : ∀ u, (Request.mk d.src d.buf now).Bears u → Announces remoteAddress d u d.src :=
      fun u hb => ⟨hdest, rfl, hb.1, hb.2⟩
    refine ⟨hclient ▸ h.remote, fun u rec hrec => ?_, fun d' hd' hsrc hlen => ?_⟩
    · rcases holds_of_handle hh hrec with hold | ⟨hb, haddr⟩
      · obtain ⟨q, hq, hq'⟩ := h.known u rec hold
        exact ⟨q, hsub q hq, hq'⟩
      · refine ⟨d, hsub d hd, ?_⟩
        rw [haddr]
        exact hann u hb
    · rw [hsent] at hd'
      rcases List.mem_append.mp hd' with hnew | hold
      · obtain ⟨buf, hbuf, rfl⟩ := List.mem_map.mp hnew
        obtain ⟨u, b, rfl, hasks, hping, hfrom⟩ := sent_of_handle hh (Option.mem_toList.mp hbuf)
        refine ⟨u, b, rfl, ⟨d, hsub d hd, hdest, rfl, hasks, hping⟩, ?_⟩
        rcases hfrom with ⟨hb, rfl⟩ | ⟨rec, hrec, rfl⟩
        · exact ⟨d, hsub d hd, hann u hb⟩
        · obtain ⟨q, hq, hq'⟩ := h.known u rec hrec
          exact ⟨q, hsub q hq, hq'⟩
      · exact (h.told d' hold hsrc hlen).mono hsub

/-- **Every step is truthful.** -/
lemma Truthful.step {a : Action} (h : Truthful remoteAddress w)
    (hs : World.step me w a = .ok (e, w')) : Truthful remoteAddress w' := by
  cases a with
  | timer =>
    cases hs
    refine h.of_quiet rfl rfl (fun d => List.mem_cons_of_mem _) fun d hd => ?_
    rcases List.mem_cons.mp hd with rfl | hd
    · refine Or.inr (Or.inr fun hlen => ?_)
      have hping := List.length_take_le 16 w.client.uid.data
      have hlen' : (w.client.uid.data.take 16).length = 32 := hlen
      omega
    · exact Or.inl hd
  | serve d now => exact h.serve hs
  | deliver d ctor put =>
    rcases step_deliver hs with ⟨-, rfl, -⟩ | ⟨-, s, -, rfl, -, -⟩
    · exact h
    · exact h.of_quiet rfl rfl (fun d hd => hd) fun d hd => Or.inl hd
  | send d =>
    rw [World.step] at hs
    split_ifs at hs with hsrc
    · cases hs
      exact h
    · cases hs
      refine h.of_quiet rfl rfl (fun d => List.mem_cons_of_mem _) fun d' hd' => ?_
      rcases List.mem_cons.mp hd' with rfl | hd'
      · exact Or.inr (Or.inl (h.remote ▸ hsrc))
      · exact Or.inl hd'

end Step

/-! ### Who sends -/

/-- A datagram is sent by the service, or it is a ping of the client, or one of those that `P`
holds of. -/
structure Senders (me remoteAddress : Sockaddr) (uid : UID) (P : Datagram → Prop) (w : World) :
    Prop where
  own : w.client.uid = uid
  remote : w.client.remoteAddress = remoteAddress
  sent : ∀ d ∈ w.sent, d.src = remoteAddress ∨ d = ⟨me, remoteAddress, uid.data⟩ ∨ P d

/-- The datagrams of others are those that are sent by them. -/
lemma Senders.step {me remoteAddress : Sockaddr} {uid : UID} {P : Datagram → Prop} {w w' : World}
    {a : Action} {e : Event} (ha : ∀ d, a = .send d → P d) (h : Senders me remoteAddress uid P w)
    (hs : World.step me w a = .ok (e, w')) : Senders me remoteAddress uid P w' := by
  cases a with
  | timer =>
    cases hs
    refine ⟨h.own, h.remote, fun d hd => ?_⟩
    rcases List.mem_cons.mp hd with rfl | hd
    · have hping : w.client.uid.data.take 16 = uid.data := by
        rw [h.own, List.take_of_length_le uid.length_data.le]
      refine Or.inr (Or.inl ?_)
      show Datagram.mk me w.client.remoteAddress (w.client.uid.data.take 16) = _
      rw [hping, h.remote]
    · exact h.sent d hd
  | serve d now =>
    rcases step_serve_handle hs with rfl | ⟨-, -, a, s, -, -, hclient, hsent⟩
    · exact h
    · refine ⟨hclient ▸ h.own, hclient ▸ h.remote, fun d' hd' => ?_⟩
      rw [hsent, h.remote] at hd'
      rcases List.mem_append.mp hd' with hnew | hold
      · obtain ⟨buf, -, rfl⟩ := List.mem_map.mp hnew
        exact Or.inl rfl
      · exact h.sent d' hold
  | deliver d ctor put =>
    rcases step_deliver hs with ⟨-, rfl, -⟩ | ⟨-, s, -, rfl, -, -⟩
    · exact h
    · exact ⟨h.own, h.remote, h.sent⟩
  | send d =>
    obtain ⟨-, hclient, hsent | ⟨-, hsent⟩⟩ := step_send hs
    · exact ⟨hclient ▸ h.own, hclient ▸ h.remote, hsent ▸ h.sent⟩
    · refine ⟨hclient ▸ h.own, hclient ▸ h.remote, fun d' hd' => ?_⟩
      rw [hsent] at hd'
      rcases List.mem_cons.mp hd' with rfl | hd'
      · exact Or.inr (Or.inr (ha d' rfl))
      · exact h.sent d' hd'

section Run

variable {me remoteAddress : Sockaddr} {uid : UID} {actions : List Action} {es : List Event}
  {w : World}

lemma truthful_run
    (h : run (World.step me) (World.initial uid remoteAddress) actions = .ok (es, w)) :
    Truthful remoteAddress w :=
  run_induction (I := fun _ _ w => Truthful remoteAddress w) (Truthful.initial uid)
    (fun _ _ _ _ _ _ h hs => h.step hs) h

lemma senders_run
    (h : run (World.step me) (World.initial uid remoteAddress) actions = .ok (es, w)) :
    Senders me remoteAddress uid (fun d => .send d ∈ actions) w := by
  refine run_induction (I := fun as _ w =>
    (∀ a ∈ as, a ∈ actions) → Senders me remoteAddress uid (fun d => .send d ∈ actions) w)
    (fun _ => ⟨rfl, rfl, fun d hd => by cases hd⟩) (fun as es w a e w' ih hs has => ?_) h
    fun a ha => ha
  refine (ih fun a ha => has a (List.mem_append_left _ ha)).step (fun d hd => ?_) hs
  exact hd ▸ has a (List.mem_append_right _ (List.mem_singleton_self a))

/-- **What the service tells a client over UDP is true.** Take any run of the network, in which
nobody uses TCP and every cleaning pass is defined. Of every identifier and address that the
client reads from the service, somebody asked for the identifier from the address of the client,
and from the address it is told a datagram went to the service that began with the identifier.
When nobody else sends from the address of the client, all it is told is its own identifier and
address; and when nobody else sends it thirty-two bytes either, its store holds nothing else. -/
theorem service_tells_the_truth (me remoteAddress : Sockaddr) (uid : UID) (actions : List Action)
    (es : List Event) (w : World)
    (h : run (World.step me) (World.initial uid remoteAddress) actions = .ok (es, w)) :
    (∀ d s s' (u : UID) (b : Sockaddr), .received d s s' ∈ es → d.src = remoteAddress →
      d.buf = u.data ++ b.bytes →
      (∃ q ∈ w.sent, q.dest = remoteAddress ∧ q.src = me ∧ Asks q.buf u) ∧
        ∃ q ∈ w.sent, Announces remoteAddress q u b) ∧
    (me ≠ remoteAddress → (∀ d, .send d ∈ actions → d.src ≠ me) →
      (∀ d s s' (u : UID) (b : Sockaddr), .received d s s' ∈ es → d.src = remoteAddress →
        d.buf = u.data ++ b.bytes → u = uid ∧ b = me) ∧
        ((∀ d, .send d ∈ actions → d.dest = me → d.buf.length ≠ 32) →
          ∀ u rec, Holds w.client.presence u rec → u = uid ∧ rec.addr = me)) := by
  have hI := invariant_run h
  have hT := truthful_run h
  -- what the client reads was sent to it
  have hread : ∀ d s s', .received d s s' ∈ es → d ∈ w.sent ∧ d.dest = me := by
    intro d s s' hmem
    obtain ⟨pre, post, hes⟩ := List.append_of_mem hmem
    obtain ⟨hd, hdest, -⟩ := hI.read pre d s s' post hes
    exact ⟨hd, hdest⟩
  have hvouched : ∀ d s s' (u : UID) (b : Sockaddr), .received d s s' ∈ es →
      d.src = remoteAddress → d.buf = u.data ++ b.bytes →
      (∃ q ∈ w.sent, q.dest = remoteAddress ∧ q.src = me ∧ Asks q.buf u ∧
        (q.buf = u.data → b = q.src)) ∧ ∃ q ∈ w.sent, Announces remoteAddress q u b := by
    intro d s s' u b hmem hsrc hbuf
    obtain ⟨hd, hdest⟩ := hread d s s' hmem
    have hlen : d.buf.length = 32 := hbuf ▸ length_append_bytes u b
    obtain ⟨v, c, hvc, hasked, hann⟩ := hT.told d hd hsrc hlen
    obtain ⟨hv, hc⟩ := List.append_inj (hbuf.symm.trans hvc) (u.length_eq v)
    obtain rfl := UID.ext hv
    obtain rfl := Sockaddr.ext hc
    exact ⟨hdest ▸ hasked, hann⟩
  refine ⟨fun d s s' u b hmem hsrc hbuf => ?_, fun hne hown => ?_⟩
  · obtain ⟨⟨q, hq, hdest, hme, hasks, -⟩, hann⟩ := hvouched d s s' u b hmem hsrc hbuf
    exact ⟨⟨q, hq, hdest, hme, hasks⟩, hann⟩
  have hS := senders_run h
  have hping : ∀ q ∈ w.sent, q.src = me → q.buf = uid.data := by
    intro q hq hsrc
    rcases hS.sent q hq with hremote | rfl | hsend
    · exact absurd (hsrc.symm.trans hremote) hne
    · rfl
    · exact absurd hsrc (hown q hsend)
  have hself : ∀ d s s' (u : UID) (b : Sockaddr), .received d s s' ∈ es → d.src = remoteAddress →
      d.buf = u.data ++ b.bytes → u = uid ∧ b = me := by
    intro d s s' u b hmem hsrc hbuf
    obtain ⟨⟨q, hq, -, hme, hasks, haddr⟩, -⟩ := hvouched d s s' u b hmem hsrc hbuf
    have hqbuf := hping q hq hme
    rcases hasks with hown | ⟨src, hlookup⟩
    · exact ⟨UID.ext (hown.symm.trans hqbuf), (haddr hown).trans hme⟩
    · have hlen := congrArg List.length (hlookup.symm.trans hqbuf)
      rw [src.length_append, uid.length_data] at hlen
      cases hlen
  refine ⟨hself, fun hquiet u rec hrec => ?_⟩
  obtain ⟨d, s, s', it, put, hmem, hbuf, -, rfl, rfl⟩ := hI.stored u rec hrec
  obtain ⟨hd, hdest⟩ := hread d s s' hmem
  have hlen : d.buf.length = 32 := hbuf ▸ length_append_bytes it.uid it.addr
  rcases hS.sent d hd with hremote | rfl | hsend
  · exact hself d s s' _ _ hmem hremote hbuf
  · rw [uid.length_data] at hlen
    cases hlen
  · exact absurd hlen (hquiet d hsend hdest)

end Run

/-- A stranger registers, and the client hears back from the service. -/
def amongOthers : List Action :=
  .send ⟨stranger, server, (UID.ofBytes [2]).data⟩ ::
    .serve ⟨stranger, server, (UID.ofBytes [2]).data⟩ ⟨0, 0, 0⟩ :: pingPong

theorem service_tells_the_truth_amongOthers : ∃ es w,
    run (World.step home) (World.initial (UID.ofBytes [1]) server) amongOthers = .ok (es, w) ∧
    Holds w.client.presence (UID.ofBytes [1]) ⟨1, home⟩ ∧
    ∀ u rec, Holds w.client.presence u rec → u = UID.ofBytes [1] ∧ rec.addr = home := by
  obtain ⟨es, w, h, hself⟩ : ∃ es w,
      run (World.step home) (World.initial (UID.ofBytes [1]) server) amongOthers = .ok (es, w) ∧
        Holds w.client.presence (UID.ofBytes [1]) ⟨1, home⟩ := ⟨_, _, rfl, List.mem_cons_self⟩
  have hsend : ∀ d, .send d ∈ amongOthers → d = ⟨stranger, server, (UID.ofBytes [2]).data⟩ := by
    intro d hd
    simpa [amongOthers, pingPong] using hd
  refine ⟨es, w, h, hself, ?_⟩
  refine ((service_tells_the_truth home server (UID.ofBytes [1]) amongOthers es w h).2 (by decide)
    fun d hd => ?_).2 fun d hd hdest => ?_
  · rw [hsend d hd]
    decide
  · rw [hsend d hd] at hdest
    exact absurd hdest (by decide)

end SimplePresence.Provenance
