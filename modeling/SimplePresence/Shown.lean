import SimplePresence.CommandLine
import SimplePresence.Client
import SimplePresence.Printed

/-!
What is printed at the second level of verbosity.

Either program prints the record a datagram carries, made into an item on the stack: the service
for what it replies with, the client for what it receives. The address of an item is its last
member and has sixteen bytes, while an address of the sixth version is read from the eighth to
the twenty-fourth. Which datagrams make the programs read past the item is settled here over
whole runs.
-/

namespace SimplePresence.Shown

open SimplePresence.Uid SimplePresence.Item SimplePresence.Record SimplePresence.OrderedMap
open SimplePresence.Query SimplePresence.Store SimplePresence.Machine SimplePresence.Service
open SimplePresence.Listener SimplePresence.Client SimplePresence.Printed
open SimplePresence.Peername SimplePresence.Setters SimplePresence.Address
open SimplePresence.CommandLine

/-! ### Printing an item -/

inductive ItemMember
  | vptr | modified | uid | addr
  deriving DecidableEq, Repr

/-- `PresenceItem` as it lies in memory. -/
def itemLayout : Layout ItemMember where
  members := [.vptr, .modified, .uid, .addr]
  size
    | .vptr | .modified => 8
    | .uid | .addr => 16
  align
    | .vptr | .modified => 8
    | .uid => 1
    | .addr => 2
  align_pos := by rintro (_ | _ | _ | _) <;> decide

/-- An item in memory. Its first two members are not looked at, and zero here. -/
def object (it : PresenceItem) : Object itemLayout where
  bytes := List.replicate 16 0 ++ (it.uid.data ++ it.addr.bytes)
  size := by
    rw [List.length_append, length_append_bytes, List.length_replicate]
    rfl

/-- What there is from the address of an item on. -/
def addrOf (it : PresenceItem) : List UInt8 := (object it).bytes.drop (itemLayout.offset .addr)

/-- Nothing lies behind the address. -/
lemma addrOf_eq (it : PresenceItem) : addrOf it = it.addr.bytes := by
  have hoff : itemLayout.offset .addr = 16 + 16 := rfl
  unfold addrOf object
  rw [hoff, ← List.drop_drop]
  exact List.drop_left' it.uid.size

/-- `std::cout << it.uid.toString() << ": " << sockaddr2string(&it.addr)`. -/
def printItem (N : Names) (it : PresenceItem) : Except Address.Fault (List UInt8) := do
  let addr ← sockaddr2string N (addrOf it)
  pure (UID.toString it.uid ++ [58, 32] ++ addr)

section

variable {N : Names} {it : PresenceItem}

lemma printItem_at {e : Endpoint} (h : e.At it.addr.bytes) :
    printItem N it = .ok (UID.toString it.uid ++ [58, 32] ++ e.text N) := by
  unfold printItem
  rw [addrOf_eq, sockaddr2string_at N h]
  rfl

lemma field_of_le {mem : List UInt8} {off n : ℕ} (h : off + n ≤ mem.length) :
    ∃ o, field mem off n = .ok o ∧ o.bytes = Block.read mem off n :=
  ⟨_, dif_pos h, rfl⟩

/-- The address of an item holds all that is read of it unless it is of the sixth version. -/
lemma printItem_isOk_iff :
    (∃ l, printItem N it = .ok l) ↔ it.addr.bytes.take 2 ≠ afInet6 := by
  have hlen := it.addr.length_bytes
  obtain ⟨family, hfamily, hread⟩ := field_of_le (by omega : 0 + 2 ≤ it.addr.bytes.length)
  obtain ⟨sinAddr, hsinAddr, -⟩ := field_of_le (by omega : 4 + 4 ≤ it.addr.bytes.length)
  obtain ⟨sinPort, hsinPort, -⟩ := field_of_le (by omega : 2 + 2 ≤ it.addr.bytes.length)
  have hsin6 : field it.addr.bytes 8 16 = .error .overread := dif_neg (by omega)
  have htake : family.bytes = it.addr.bytes.take 2 := hread
  unfold printItem sockaddr2string
  rw [addrOf_eq, hfamily, ← htake]
  dsimp only [bind, Except.bind]
  by_cases h4 : family.bytes = afInet
  · have hne : family.bytes ≠ afInet6 := by
      rw [h4]
      decide
    rw [if_pos h4, hsinAddr]
    refine ⟨fun _ => hne, fun _ => ?_⟩
    dsimp only
    cases N.inetNtop4 sinAddr with
    | none => exact ⟨_, rfl⟩
    | some buf =>
      dsimp only
      rw [hsinPort]
      exact ⟨_, rfl⟩
  · rw [if_neg h4]
    by_cases h6 : family.bytes = afInet6
    · rw [if_pos h6, hsin6]
      constructor
      · rintro ⟨l, hl⟩
        cases hl
      · exact fun hne => absurd h6 hne
    · rw [if_neg h6]
      exact ⟨fun _ => h6, fun _ => ⟨_, rfl⟩⟩

end

/-! ### The service -/

/-- How a request arrives. -/
inductive Via
  | udp
  | tcp
  deriving DecidableEq, Repr

/-- What is printed when a request has been answered: of a reply to a datagram, the item. -/
def lookReply (N : Names) (v : Via × Request) (a : Answer) :
    Except Address.Fault (Option (List UInt8)) :=
  match v.1, sent a with
  | .udp, some writeBuffer => (printItem N (PresenceItem.ofBuffer v.2.now.get writeBuffer)).map some
  | _, _ => .ok none

/-- A request that arrives somehow. -/
def receive (s : MemPresence) (v : Via × Request) :
    Except OrderedMap.Fault (Answer × MemPresence) :=
  handle s v.2

/-- The service at the second level of verbosity. -/
abbrev verboseServe (N : Names) (s : MemPresence) (vs : List (Via × Request)) :=
  run (watch receive (lookReply N)) s vs

/-- The reply to `r`, after the requests `pre`, says of `u` what `q` was sent from. -/
def Says (pre : List Request) (r : Request) (u : UID) (q : Request) : Prop :=
  (r.buf = u.data ∧ q = r) ∨
    ∃ src : UID, r.buf = src.data ++ u.data ∧ lastRequest (pre ++ [r]) u = some q ∧
      q.Fresh r.now.get

lemma run_receive (s : MemPresence) (vs : List (Via × Request)) :
    run receive s vs = serve s (vs.map Prod.snd) := by
  have hmap : run receive s vs =
      (serve s (vs.map Prod.snd)).map fun r => (r.1.map id, id r.2) := by
    refine run_map Prod.snd id (fun t : MemPresence => t) (fun v _ t => ?_) s
    show handle t v.2 = (handle t v.2).map fun r => (id r.1, r.2)
    cases handle t v.2 <;> rfl
  rw [hmap]
  cases serve s (vs.map Prod.snd) with
  | error e => rfl
  | ok r => simp [Except.map]

section Says

variable {pre : List Request} {r : Request} {as : List Answer} {a : Answer} {s s' : MemPresence}

/-- What is sent in reply is what the requests say. -/
lemma sent_eq_some_iff (hc : ((pre ++ [r]).flatMap Request.readings).Pairwise (· ≤ ·))
    (h : serve MemPresence.empty pre = .ok (as, s)) (hr : handle s r = .ok (a, s'))
    {w : List UInt8} :
    sent a = some w ↔ ∃ u q, Says pre r u q ∧ w = u.data ++ q.addr.bytes := by
  rcases buf_cases r.buf with ho | ⟨src, hbuf⟩ | ⟨src, dest, hbuf⟩
  · rcases handle_cases hr with ⟨-, rfl, -⟩ | ⟨src, hbuf, -⟩ | ⟨src, dest, -, hbuf, -⟩
    · constructor
      · intro hs
        cases hs
      · rintro ⟨u, q, ⟨hbuf, -⟩ | ⟨src, hbuf, -⟩, -⟩
        · exact absurd (hbuf ▸ isRequest_ping u) ho
        · exact absurd (hbuf ▸ isRequest_lookup src u) ho
    · exact absurd (hbuf ▸ isRequest_ping src) ho
    · exact absurd (hbuf ▸ isRequest_lookup src dest) ho
  · rw [(handle_ping hbuf hr).2, sent_record, Option.some.injEq]
    constructor
    · rintro rfl
      exact ⟨src, r, Or.inl ⟨hbuf, rfl⟩, rfl⟩
    · rintro ⟨u, q, ⟨hbuf', rfl⟩ | ⟨src', hbuf', -⟩, rfl⟩
      · rw [← hbuf, hbuf']
      · have hlen := src'.length_append u
        rw [← hbuf', hbuf, src.length_data] at hlen
        omega
  · obtain ⟨hfound, habsent⟩ := lookup_answer hc h hr hbuf
    have hsays : ∀ u q, Says pre r u q →
        u = dest ∧ lastRequest (pre ++ [r]) dest = some q ∧ q.Fresh r.now.get := by
      rintro u q (⟨hbuf', -⟩ | ⟨src', hbuf', hq⟩)
      · have hlen := src.length_append dest
        rw [← hbuf, hbuf', u.length_data] at hlen
        omega
      · have hdata := hbuf.symm.trans hbuf'
        have hu := (List.append_inj hdata (src.length_data.trans src'.length_data.symm)).2
        obtain rfl : dest = u := UID.ext hu
        exact ⟨rfl, hq⟩
    constructor
    · intro hs
      by_cases hex : ∃ q, lastRequest (pre ++ [r]) dest = some q ∧ q.Fresh r.now.get
      · obtain ⟨q, hq, hf⟩ := hex
        rw [hfound q hq hf, sent_record] at hs
        exact ⟨dest, q, Or.inr ⟨src, hbuf, hq, hf⟩, (Option.some.inj hs).symm⟩
      · rw [habsent hex] at hs
        cases hs
    · rintro ⟨u, q, hq, rfl⟩
      obtain ⟨rfl, hlast, hf⟩ := hsays u q hq
      rw [hfound q hlast hf, sent_record]

/-- Of a reply over UDP the item it makes is printed. -/
lemma lookReply_udp (N : Names) {v : Via × Request} (hv : v.1 = .udp) {u : UID} {b : Sockaddr}
    (hs : sent a = some (u.data ++ b.bytes)) :
    lookReply N v a = (printItem N (PresenceItem.ofUidAddr v.2.now.get u b)).map some := by
  unfold lookReply
  rw [hv, hs]
  dsimp only
  rw [PresenceItem.ofBuffer_append]

/-- A reply over UDP can be printed unless it shows an address of the sixth version. -/
lemma lookReply_isOk_iff (N : Names) (v : Via × Request)
    (hsent : ∀ w, sent a = some w ↔ ∃ u q, Says pre v.2 u q ∧ w = u.data ++ q.addr.bytes) :
    (∃ l, lookReply N v a = .ok l) ↔
      (v.1 = .udp → ∀ u q, Says pre v.2 u q → q.addr.bytes.take 2 ≠ afInet6) := by
  obtain ⟨via, r⟩ := v
  cases via with
  | tcp => exact ⟨fun _ hv => Via.noConfusion hv, fun _ => ⟨none, rfl⟩⟩
  | udp =>
    cases hs : sent a with
    | none =>
      have hlook : lookReply N (.udp, r) a = .ok none := by
        unfold lookReply
        rw [hs]
      refine ⟨fun _ _ u q hq => ?_, fun _ => ⟨none, hlook⟩⟩
      cases hs.symm.trans ((hsent _).mpr ⟨u, q, hq, rfl⟩)
    | some w =>
      obtain ⟨u, q, hq, rfl⟩ := (hsent w).mp hs
      have hlook := lookReply_udp N (v := (.udp, r)) rfl hs
      have hprint : (∃ l, printItem N (PresenceItem.ofUidAddr r.now.get u q.addr) = .ok l) ↔
          q.addr.bytes.take 2 ≠ afInet6 := printItem_isOk_iff
      rw [hlook]
      constructor
      · rintro ⟨l, hl⟩ - u' q' hq'
        -- whatever else the requests say is what is sent
        have hw := (hsent _).mpr ⟨u', q', hq', rfl⟩
        have hdata := Option.some.inj (hs.symm.trans hw)
        have haddr := (List.append_inj hdata (u.length_data.trans u'.length_data.symm)).2
        rw [← haddr]
        refine hprint.mp ?_
        cases hp : printItem N (PresenceItem.ofUidAddr r.now.get u q.addr) with
        | ok l' => exact ⟨l', rfl⟩
        | error e =>
          rw [hp] at hl
          cases hl
      · intro hne
        obtain ⟨l, hl⟩ := hprint.mpr (hne rfl u q hq)
        exact ⟨some l, by rw [hl]; rfl⟩

end Says

/-- **What the service prints.** Take a run of requests, each over UDP or TCP, with a clock that
never runs backwards and every cleaning pass defined. The service gets through it at the second
level of verbosity exactly when no reply over UDP shows a request from an address of the sixth
version; on the first that does it reads past the item. What it prints of a reply that shows a
peer of the fourth version is the identifier and the text for the peer. -/
theorem verbose_service_iff (N : Names) (vs : List (Via × Request))
    (hclock : ((vs.map Prod.snd).flatMap Request.readings).Pairwise (· ≤ ·))
    (hdef : ∃ r, serve MemPresence.empty (vs.map Prod.snd) = .ok r) :
    ((∃ r, verboseServe N MemPresence.empty vs = .ok r) ↔
        ∀ pre v post u q, vs = pre ++ v :: post → v.1 = .udp →
          Says (pre.map Prod.snd) v.2 u q → q.addr.bytes.take 2 ≠ afInet6) ∧
      ∀ xs t, verboseServe N MemPresence.empty vs = .ok (xs, t) →
        ∀ pre v post u q, vs = pre ++ v :: post → v.1 = .udp →
          Says (pre.map Prod.snd) v.2 u q → ∀ port ip, q.addr = (Peer.v4 port ip).sockaddr →
            (xs[pre.length]?).bind Prod.snd = some (UID.toString u ++ [58, 32] ++
              (Endpoint.v4 ip (ntohs port)).text N) := by
  have hrun : ∃ r, run receive MemPresence.empty vs = .ok r := by
    rw [run_receive]
    exact hdef
  -- what is sent at each point of the run is what the requests up to it say
  have hsent : ∀ pre v post as s a s', vs = pre ++ v :: post →
      run receive MemPresence.empty pre = .ok (as, s) → receive s v = .ok (a, s') →
      ∀ w, sent a = some w ↔
        ∃ u q, Says (pre.map Prod.snd) v.2 u q ∧ w = u.data ++ q.addr.bytes := by
    rintro pre v post as s a s' rfl hpre hstep w
    rw [run_receive] at hpre
    refine sent_eq_some_iff ?_ hpre hstep
    rw [List.map_append, List.map_cons, List.append_cons, List.flatMap_append] at hclock
    exact (List.pairwise_append.mp hclock).1
  refine ⟨?_, fun xs t hw pre v post u q hvs hv hq port ip haddr => ?_⟩
  · rw [run_watch_isOk_iff hrun]
    constructor
    · intro hlook pre v post u q hvs hv hq
      obtain ⟨⟨as, t⟩, hr⟩ := hrun
      subst hvs
      obtain ⟨as₁, s, a, s', -, hpre, hstep, -, -⟩ := run_split hr
      have hl := hlook pre v post rfl as₁ s a s' hpre hstep
      exact (lookReply_isOk_iff N v (hsent pre v post as₁ s a s' rfl hpre hstep)).mp hl hv u q hq
    · intro hne pre v post hvs as s a s' hpre hstep
      exact (lookReply_isOk_iff N v (hsent pre v post as s a s' hvs hpre hstep)).mpr
        fun hv u q hq => hne pre v post u q hvs hv hq
  · subst hvs
    obtain ⟨xs₁, s, x, s', xs₂, hpre, hstep, -, rfl⟩ := run_split hw
    have hlen := length_run hpre
    obtain ⟨hstep', hlook⟩ := watch_eq_ok.mp hstep
    have hs := (hsent pre v post _ s x.1 s' rfl (run_watch_eq_ok.mp hpre).1 hstep' _).mpr
      ⟨u, q, hq, rfl⟩
    have hat : (Endpoint.v4 ip (ntohs port)).At q.addr.bytes := by
      rw [haddr, Peer.bytes_sockaddr_v4]
      exact at_layout (.v4 port ip)
    have hprint : printItem N (PresenceItem.ofUidAddr v.2.now.get u q.addr) = _ := printItem_at hat
    rw [lookReply_udp N hv hs, hprint] at hlook
    rw [← hlen, List.getElem?_append_right le_rfl, Nat.sub_self]
    exact (Except.ok.inj hlook).symm

/-- A host of the sixth version registers over TCP, and is asked for over UDP. -/
def spied : List (Via × Request) :=
  [(.tcp, ⟨hostA.sockaddr, (UID.ofBytes [2]).data, ⟨0, 1, 1⟩⟩), (.udp, asked)]

theorem verbose_service_iff_spied :
    ¬ ∃ r, verboseServe plainNames MemPresence.empty spied = .ok r := by
  obtain ⟨hiff, -⟩ := verbose_service_iff plainNames spied (by decide) ⟨_, rfl⟩
  intro hr
  refine hiff.mp hr [(.tcp, ⟨hostA.sockaddr, (UID.ofBytes [2]).data, ⟨0, 1, 1⟩⟩)] (.udp, asked) []
    (UID.ofBytes [2]) ⟨hostA.sockaddr, (UID.ofBytes [2]).data, ⟨0, 1, 1⟩⟩ rfl rfl ?_ (by decide)
  exact Or.inr ⟨UID.ofBytes [1], rfl, by decide, by decide⟩

/-! ### The client -/

/-- What a client is woken by: its timer, or a datagram. -/
inductive Wake
  | timer
  | datagram (bytesRead : ℤ) (base : List UInt8) (addr : Sockaddr) (ctor put : TaskTime)

/-- What a client sends when it is woken, and the client after it. -/
def wake (c : Client.UVClient MemPresence) :
    Wake → Except OrderedMap.Fault (Option Send × Client.UVClient MemPresence)
  | .timer => .ok (some (onTimer c), c)
  | .datagram bytesRead base addr ctor put =>
    (Client.onUDPRead c bytesRead base addr ctor put).map fun c => (none, c)

/-- The text `Send ping to `. -/
def sendPingTo : List UInt8 := [83, 101, 110, 100, 32, 112, 105, 110, 103, 32, 116, 111, 32]

/-- What is printed then; `o` is the client in memory. -/
def lookWake (N : Names) {rest : ℕ} (o : Object (Setters.UVClient rest)) (w : Wake)
    (_ : Option Send) : Except Address.Fault (Option (List UInt8)) :=
  match w with
  | .timer => (sockaddr2string N (pingTarget o)).map fun t => some (sendPingTo ++ t)
  | .datagram bytesRead base _ ctor _ =>
    if bytesRead = 32 then (printItem N (PresenceItem.ofBuffer ctor base)).map some
    else .ok none

/-- Twenty-four bytes are all that is read of a socket address. -/
lemma sockaddr2string_isOk (N : Names) {mem : List UInt8} (h : 24 ≤ mem.length) :
    ∃ s, sockaddr2string N mem = .ok s := by
  obtain ⟨family, hfamily, -⟩ := field_of_le (by omega : 0 + 2 ≤ mem.length)
  obtain ⟨port, hport, -⟩ := field_of_le (by omega : 2 + 2 ≤ mem.length)
  obtain ⟨ip4, hip4, -⟩ := field_of_le (by omega : 4 + 4 ≤ mem.length)
  obtain ⟨ip6, hip6, -⟩ := field_of_le (by omega : 8 + 16 ≤ mem.length)
  unfold sockaddr2string
  rw [hfamily, hport, hip4, hip6]
  dsimp only [bind, Except.bind]
  split_ifs
  · cases N.inetNtop4 ip4 <;> exact ⟨_, rfl⟩
  · cases N.inetNtop6 ip6 <;> exact ⟨_, rfl⟩
  · exact ⟨_, rfl⟩

lemma lookWake_isOk_iff (N : Names) {rest : ℕ} (o : Object (Setters.UVClient rest)) (w : Wake)
    (x : Option Send) : (∃ l, lookWake N o w x = .ok l) ↔
      ∀ base addr ctor put, w = .datagram 32 base addr ctor put →
        (Sockaddr.ofBytes (base.drop 16)).bytes.take 2 ≠ afInet6 := by
  cases w with
  | timer =>
    obtain ⟨hremote, -, -, hroom⟩ := remoteAddress_room rest
    have hlen : 24 ≤ (pingTarget o).length := by
      unfold pingTarget
      rw [List.length_drop, o.size, hremote]
      omega
    obtain ⟨s, hs⟩ := sockaddr2string_isOk N hlen
    refine ⟨fun _ base addr ctor put hw => Wake.noConfusion hw, fun _ => ?_⟩
    refine ⟨some (sendPingTo ++ s), ?_⟩
    unfold lookWake
    rw [hs]
    rfl
  | datagram bytesRead base addr ctor put =>
    have hprint : (∃ l, printItem N (PresenceItem.ofBuffer ctor base) = .ok l) ↔
        (Sockaddr.ofBytes (base.drop 16)).bytes.take 2 ≠ afInet6 := printItem_isOk_iff
    unfold lookWake
    dsimp only
    constructor
    · rintro ⟨l, hl⟩ base addr ctor put hw
      cases hw
      rw [if_pos rfl] at hl
      refine hprint.mp ?_
      cases hp : printItem N (PresenceItem.ofBuffer ctor base) with
      | ok l' => exact ⟨l', rfl⟩
      | error e =>
        rw [hp] at hl
        cases hl
    · intro hne
      split_ifs with h32
      · obtain ⟨l, hl⟩ := hprint.mpr (hne base addr ctor put (by rw [h32]))
        exact ⟨some l, by rw [hl]; rfl⟩
      · exact ⟨none, rfl⟩

/-- **What the client prints.** Take any run of a client, of its timer and of datagrams from
anyone, in which every cleaning pass is defined. The client gets through it at the second level
of verbosity exactly when no datagram of thirty-two bytes has the mark of the sixth version
behind its identifier. Its own pings it can always print. -/
theorem verbose_client_iff (N : Names) {rest : ℕ} (o : Object (Setters.UVClient rest))
    (c : Client.UVClient MemPresence) (ws : List Wake) (hdef : ∃ r, run wake c ws = .ok r) :
    (∃ r, run (watch wake (lookWake N o)) c ws = .ok r) ↔
      ∀ base addr ctor put, Wake.datagram 32 base addr ctor put ∈ ws →
        (Sockaddr.ofBytes (base.drop 16)).bytes.take 2 ≠ afInet6 := by
  rw [run_watch_isOk_iff hdef]
  constructor
  · intro hlook base addr ctor put hmem
    obtain ⟨pre, post, rfl⟩ := List.append_of_mem hmem
    obtain ⟨⟨os, c'⟩, hr⟩ := hdef
    obtain ⟨os₁, c₁, x, c₂, -, hpre, hstep, -, -⟩ := run_split hr
    have hl := hlook pre _ post rfl os₁ c₁ x c₂ hpre hstep
    exact (lookWake_isOk_iff N o _ x).mp hl base addr ctor put rfl
  · rintro hne pre w post rfl os c₁ x c₂ - -
    refine (lookWake_isOk_iff N o w x).mpr fun base addr ctor put hw => ?_
    exact hne base addr ctor put (hw ▸ List.mem_append_right pre List.mem_cons_self)

/-- A client that pings, and is sent one datagram by anyone. -/
theorem verbose_client_iff_spied : ¬ ∃ r,
    run (watch wake (lookWake plainNames (Object.fill (Setters.UVClient 208) 0)))
      ⟨UID.ofBytes [1], Sockaddr.ofBytes [], MemPresence.empty⟩
      [.timer, .datagram 32 ((UID.ofBytes [2]).data ++ hostA.sockaddr.bytes) hostC.sockaddr 0 0] =
        .ok r := by
  intro hr
  have hne := (verbose_client_iff plainNames (Object.fill (Setters.UVClient 208) 0) _ _
    ⟨_, rfl⟩).mp hr _ _ _ _ (List.mem_cons_of_mem _ List.mem_cons_self)
  exact absurd hne (by decide)

end SimplePresence.Shown
