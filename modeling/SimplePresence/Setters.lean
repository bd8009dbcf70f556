import SimplePresence.Peername
import SimplePresence.Record

/-!
Setting an address.

The listener and the client keep their addresses as `struct sockaddr` members of sixteen
bytes, and set them through pointers cast to the address structures of the two families. What
the C library and libuv make of a host is a parameter. Objects are laid out as on Linux with
eight-byte pointers, the pointer to the table of virtual functions first.
-/

namespace SimplePresence.Setters

open SimplePresence.Block SimplePresence.Record SimplePresence.Record.Object
open SimplePresence.Peername

/-! ### The objects -/

inductive ListenerMember
  | vptr | uv | serviceAddress | verbose | presence | status
  deriving DecidableEq, Repr

/-- `UVListener`. -/
def UVListener : Layout ListenerMember where
  members := [.vptr, .uv, .serviceAddress, .verbose, .presence, .status]
  size
    | .vptr | .uv | .presence => 8
    | .serviceAddress => 16
    | .verbose | .status => 4
  align
    | .vptr | .uv | .presence => 8
    | .serviceAddress => 2
    | .verbose | .status => 4
  align_pos := by rintro (_ | _ | _ | _ | _ | _) <;> decide

inductive ClientMember
  | vptr | uv | servaddr | verbose | presence | status | remoteAddress | udpSocket | uid
  deriving DecidableEq, Repr

/-- `UVClient`. An `uv_udp_t` begins with a pointer; `rest` bytes follow it. -/
def UVClient (rest : ℕ) : Layout ClientMember where
  members :=
    [.vptr, .uv, .servaddr, .verbose, .presence, .status, .remoteAddress, .udpSocket, .uid]
  size
    | .vptr | .uv | .presence => 8
    | .servaddr | .remoteAddress | .uid => 16
    | .verbose | .status => 4
    | .udpSocket => 8 + rest
  align
    | .vptr | .uv | .presence | .udpSocket => 8
    | .servaddr | .remoteAddress => 2
    | .verbose | .status => 4
    | .uid => 1
  align_pos := by rintro (_ | _ | _ | _ | _ | _ | _ | _ | _) <;> decide

/-! ### The setters -/

/-- What the C library and libuv make of a host. -/
structure Resolver where
  /-- `inet_pton(AF_INET, ..)`, which writes an `in_addr` when it accepts the host. -/
  inetPton4 : List UInt8 → Option (Octets 4)
  /-- `inet_pton(AF_INET6, ..)`, which writes an `in6_addr` when it accepts the host. -/
  inetPton6 : List UInt8 → Option (Octets 16)
  /-- The `sockaddr_in` that `uv_ip4_addr` writes. -/
  uvIp4Addr : List UInt8 → UInt16 → Octets 16
  /-- The `sockaddr_in6` that `uv_ip6_addr` writes. -/
  uvIp6Addr : List UInt8 → UInt16 → Octets 28

def isAddrStringIPv6 (R : Resolver) (value : List UInt8) : Bool := (R.inetPton6 value).isSome

def afInet : List UInt8 := [2, 0]
def afInet6 : List UInt8 := [10, 0]

/-- The bytes of a port in network order. -/
def htons (port : UInt16) : List UInt8 := [UInt8.ofNat (port.toNat / 256), UInt8.ofNat port.toNat]

section Setter

variable {M : Type*} [DecidableEq M] {L : Layout M}

/-- What both classes do with a host: the address is written over the member `m`. -/
def setHost (R : Resolver) (m : M) (host : List UInt8) (port : UInt16) (o : Object L) : Object L :=
  if isAddrStringIPv6 R host then o.store (L.offset m) (R.uvIp6Addr host port).bytes
  else o.store (L.offset m) (R.uvIp4Addr host port).bytes

/-- What both classes do with a number: the three fields of a `sockaddr_in` one by one. -/
def setIpv4 (m : M) (ipv4 : Octets 4) (port : UInt16) (o : Object L) : Object L :=
  let o := o.store (L.offset m) afInet
  let o := o.store (L.offset m + 4) ipv4.bytes
  o.store (L.offset m + 2) (htons port)

/-- `string2sockaddr` with the pointer at offset `retval`: what it returns, and the object
after it. -/
def string2sockaddr (R : Resolver) (retval : ℕ) (address : List UInt8) (port : UInt16)
    (o : Object L) : Bool × Object L :=
  match R.inetPton6 address with
  | some ip =>
    let o := o.store (retval + 8) ip.bytes
    let o := o.store retval afInet6
    (true, o.store (retval + 2) (htons port))
  | none =>
    match R.inetPton4 address with
    | some ip =>
      let o := o.store (retval + 4) ip.bytes
      let o := o.store retval afInet
      (true, o.store (retval + 2) (htons port))
    | none => (false, o)

end Setter

/-- `UVListener::setAddress(const std::string &, uint16_t)`. -/
def UVListener.setAddress (R : Resolver) (host : List UInt8) (port : UInt16) :
    Object UVListener → Object UVListener :=
  setHost R .serviceAddress host port

/-- `UVListener::setAddress(uint32_t &, uint16_t)`. -/
def UVListener.setAddressIpv4 (ipv4 : Octets 4) (port : UInt16) :
    Object UVListener → Object UVListener :=
  setIpv4 .serviceAddress ipv4 port

variable {rest : ℕ}

/-- `UVClient::setAddress(const std::string &, uint16_t)`. -/
def UVClient.setAddress (R : Resolver) (host : List UInt8) (port : UInt16) :
    Object (UVClient rest) → Object (UVClient rest) :=
  setHost R .servaddr host port

/-- `UVClient::setAddress(uint32_t &, uint16_t)`. -/
def UVClient.setAddressIpv4 (ipv4 : Octets 4) (port : UInt16) :
    Object (UVClient rest) → Object (UVClient rest) :=
  setIpv4 .servaddr ipv4 port

/-- `UVClient::setRemoteAddress`. -/
def UVClient.setRemoteAddress (R : Resolver) (aAddress : List UInt8) (aPort : UInt16)
    (o : Object (UVClient rest)) : Object (UVClient rest) :=
  (string2sockaddr R ((UVClient rest).offset .remoteAddress) aAddress aPort o).2

/-! ### What the setters leave -/

section Frame

variable {M : Type*} [DecidableEq M] {L : Layout M}

/-- What lies behind the address in both classes: an `int`, a pointer eight bytes on, and
nothing else that the larger structure reaches. -/
structure Neighbours (L : Layout M) (m v p : M) : Prop where
  mem : m ∈ L.members
  size : L.size m = 16
  verbose : v ∈ L.members ∧ v ≠ m ∧ L.offset v = L.offset m + 16 ∧ L.size v = 4
  presence : p ∈ L.members ∧ p ≠ m ∧ L.offset p = L.offset m + 24 ∧ L.size p = 8
  far : ∀ n ∈ L.members, n ≠ v → n ≠ p → L.offset n ≤ L.offset m ∨ L.offset m + 28 ≤ L.offset n

/-- A structure of twenty-eight bytes leaves the neighbours exactly when they hold already what
reaches them. -/
lemma frame_store_sockaddrIn6_iff {m v p : M} (h : Neighbours L m v p) (o : Object L)
    (a : Octets 28) : Frame m o (o.store (L.offset m) a.bytes) ↔
      o.member v = read a.bytes 16 4 ∧ (o.member p).take 4 = read a.bytes 24 4 := by
  obtain ⟨hv, hvm, hvoff, hvsize⟩ := h.verbose
  obtain ⟨hp, hpm, hpoff, hpsize⟩ := h.presence
  have hverbose : read a.bytes 16 4 <+: o.member v ↔ o.member v = read a.bytes 16 4 := by
    have hlen : (o.member v).length = 4 := (length_member o hv).trans hvsize
    rw [read_prefix_iff (k := 4) (by rw [length_read, a.size]; rfl), List.take_of_length_le hlen.le]
  have hpresence : read a.bytes 24 8 <+: o.member p ↔ (o.member p).take 4 = read a.bytes 24 4 :=
    read_prefix_iff (by rw [length_read, a.size]; rfl)
  have hspill := frame_store_iff (o := o) h.mem (Nat.zero_le _) a.bytes
  rw [Nat.add_zero] at hspill
  rw [hspill, ← hverbose, ← hpresence]
  constructor
  · intro hall
    have h₁ := hall v hv (by rw [h.size, hvoff]) hvm
    have h₂ := hall p hp (by rw [h.size, hpoff]; omega) hpm
    rw [hvoff, hvsize, Nat.add_sub_cancel_left] at h₁
    rw [hpoff, hpsize, Nat.add_sub_cancel_left] at h₂
    exact ⟨h₁, h₂⟩
  · rintro ⟨h₁, h₂⟩ n hn hbehind -
    by_cases hnv : n = v
    · rw [hnv, hvoff, hvsize, Nat.add_sub_cancel_left]
      exact h₁
    by_cases hnp : n = p
    · rw [hnp, hpoff, hpsize, Nat.add_sub_cancel_left]
      exact h₂
    have hfar := h.far n hn hnv hnp
    rw [h.size] at hbehind
    rw [read_eq_nil (by rw [a.size]; omega)]
    exact List.nil_prefix

lemma frame_setHost_iff {m v p : M} (h : Neighbours L m v p) (R : Resolver) (host : List UInt8)
    (port : UInt16) (o : Object L) : Frame m o (setHost R m host port o) ↔
      (isAddrStringIPv6 R host = true → o.member v = read (R.uvIp6Addr host port).bytes 16 4 ∧
        (o.member p).take 4 = read (R.uvIp6Addr host port).bytes 24 4) := by
  unfold setHost
  cases hhost : isAddrStringIPv6 R host with
  | true =>
    rw [if_pos rfl, frame_store_sockaddrIn6_iff h]
    exact ⟨fun hf _ => hf, fun hf => hf rfl⟩
  | false =>
    have hfit : 0 + (R.uvIp4Addr host port).bytes.length ≤ L.size m := by
      rw [(R.uvIp4Addr host port).size, h.size]
    have hframe := (frame_store_iff_of_within (o := o) h.mem hfit).mpr (Frame.refl m o)
    exact ⟨fun _ hf => Bool.noConfusion hf, fun _ => hframe⟩

/-- The family and the port are written within the address. -/
lemma frame_store_family_port_iff {o o' : Object L} {m : M} (hm : m ∈ L.members)
    (hsize : L.size m = 16) {af port : List UInt8} (haf : af.length = 2) (hport : port.length = 2) :
    Frame m o ((o'.store (L.offset m) af).store (L.offset m + 2) port) ↔ Frame m o o' := by
  have hfit : 0 + af.length ≤ L.size m := by
    rw [haf, hsize]
    omega
  have hfit' : 2 + port.length ≤ L.size m := by
    rw [hport, hsize]
    omega
  rw [frame_store_iff_of_within hm hfit']
  exact frame_store_iff_of_within hm hfit

/-- A number is written within the address. -/
lemma frame_setIpv4 {m : M} (hm : m ∈ L.members) (hsize : L.size m = 16) (ipv4 : Octets 4)
    (port : UInt16) (o : Object L) : Frame m o (setIpv4 m ipv4 port o) := by
  have hfamily : 0 + afInet.length ≤ L.size m := by
    rw [hsize]
    show 0 + 2 ≤ 16
    omega
  have haddr : 4 + ipv4.bytes.length ≤ L.size m := by
    rw [ipv4.size, hsize]
    omega
  have hport : 2 + (htons port).length ≤ L.size m := by
    rw [hsize]
    show 2 + 2 ≤ 16
    omega
  unfold setIpv4
  apply (frame_store_iff_of_within hm hport).mpr
  apply (frame_store_iff_of_within hm haddr).mpr
  exact (frame_store_iff_of_within hm hfamily).mpr (Frame.refl m o)

/-- No structure of the sixth version suits every object. -/
lemma forall_frame_setHost_iff {m v p : M} (h : Neighbours L m v p) (R : Resolver)
    (host : List UInt8) (port : UInt16) :
    (∀ o : Object L, Frame m o (setHost R m host port o)) ↔ isAddrStringIPv6 R host = false := by
  constructor
  · intro hall
    by_contra hhost
    have h₀ := ((frame_setHost_iff h R host port _).mp (hall (fill L 0))
      (Bool.of_not_eq_false hhost)).1
    have h₁ := ((frame_setHost_iff h R host port _).mp (hall (fill L 1))
      (Bool.of_not_eq_false hhost)).1
    obtain ⟨hv, -, -, hvsize⟩ := h.verbose
    rw [← h₁, member_fill 0 hv, member_fill 1 hv, hvsize] at h₀
    exact absurd h₀ (by decide)
  · intro hhost o
    exact (frame_setHost_iff h R host port o).mpr fun hf => absurd (hhost.symm.trans hf) (by decide)

end Frame

lemma neighbours_listener :
    Neighbours UVListener .serviceAddress .verbose .presence where
  mem := by decide
  size := rfl
  verbose := by decide
  presence := by decide
  far := by decide

section Client

variable (rest : ℕ)

lemma mem_members (m : ClientMember) : m ∈ (UVClient rest).members := by
  cases m <;> simp [UVClient]

/-- Where the members of a client lie. -/
lemma offset_client (m : ClientMember) : (UVClient rest).offset m =
    match m with
    | .vptr => 0
    | .uv => 8
    | .servaddr => 16
    | .verbose => 32
    | .presence => 40
    | .status => 48
    | .remoteAddress => 52
    | .udpSocket => 72
    | .uid => 80 + rest := by
  cases m <;> simp [UVClient, Layout.offset, Layout.offsetFrom, roundUp]
  omega

lemma neighbours_client : Neighbours (UVClient rest) .servaddr .verbose .presence where
  mem := mem_members rest _
  size := rfl
  verbose := ⟨mem_members rest _, by decide, by simp only [offset_client], rfl⟩
  presence := ⟨mem_members rest _, by decide, by simp only [offset_client], rfl⟩
  far := by
    intro n _ hv hp
    cases n with
    | verbose => exact absurd rfl hv
    | presence => exact absurd rfl hp
    | _ =>
      simp only [offset_client]
      omega

variable {rest}

/-- The end of an `in6_addr` reaches the socket behind the address. -/
lemma frame_store_in6Addr_iff (ip : Octets 16) (o : Object (UVClient rest)) :
    Frame .remoteAddress o (o.store ((UVClient rest).offset .remoteAddress + 8) ip.bytes) ↔
      (o.member .udpSocket).take 4 = read ip.bytes 12 4 := by
  have hsize : (UVClient rest).size .remoteAddress = 16 := rfl
  have hlen : (read ip.bytes 12 (8 + rest)).length = 4 := by
    rw [length_read, ip.size]
    omega
  rw [← read_prefix_iff hlen, frame_store_iff (mem_members rest _) (by rw [hsize]; omega)]
  constructor
  · intro hall
    have h := hall .udpSocket (mem_members rest _) (by simp [offset_client, hsize]) (by decide)
    simp only [offset_client] at h
    exact h
  · intro h n _ hbehind hne
    cases n with
    | udpSocket =>
      simp only [offset_client]
      exact h
    | uid =>
      simp only [offset_client]
      rw [read_eq_nil (by rw [ip.size]; omega)]
      exact List.nil_prefix
    | remoteAddress => exact absurd rfl hne
    | _ =>
      simp only [offset_client, hsize] at hbehind
      omega

lemma frame_setRemoteAddress_iff (R : Resolver) (host : List UInt8) (port : UInt16)
    (o : Object (UVClient rest)) :
    Frame .remoteAddress o (UVClient.setRemoteAddress R host port o) ↔
      ∀ ip, R.inetPton6 host = some ip → (o.member .udpSocket).take 4 = read ip.bytes 12 4 := by
  have hm := mem_members rest .remoteAddress
  have hsize : (UVClient rest).size .remoteAddress = 16 := rfl
  unfold UVClient.setRemoteAddress string2sockaddr
  cases h6 : R.inetPton6 host with
  | some ip =>
    have hcond : (∀ ip', some ip = some ip' →
        (o.member .udpSocket).take 4 = read ip'.bytes 12 4) ↔
          (o.member .udpSocket).take 4 = read ip.bytes 12 4 :=
      ⟨fun h => h ip rfl, fun h ip' hip => Option.some.inj hip ▸ h⟩
    rw [hcond, ← frame_store_in6Addr_iff]
    exact frame_store_family_port_iff hm hsize rfl rfl
  | none =>
    refine ⟨fun _ ip hip => (Option.some_ne_none ip hip.symm).elim, fun _ => ?_⟩
    cases h4 : R.inetPton4 host with
    | none => exact Frame.refl _ o
    | some ip =>
      have haddr : 4 + ip.bytes.length ≤ (UVClient rest).size .remoteAddress := by
        rw [ip.size, hsize]
        omega
      apply (frame_store_family_port_iff hm hsize rfl rfl).mpr
      exact (frame_store_iff_of_within hm haddr).mpr (Frame.refl _ o)

lemma forall_frame_setRemoteAddress_iff (R : Resolver) (host : List UInt8) (port : UInt16) :
    (∀ o : Object (UVClient rest),
        Frame .remoteAddress o (UVClient.setRemoteAddress R host port o)) ↔
      isAddrStringIPv6 R host = false := by
  unfold isAddrStringIPv6
  constructor
  · intro hall
    cases h6 : R.inetPton6 host with
    | none => rfl
    | some ip =>
      have h₀ := (frame_setRemoteAddress_iff R host port _).mp (hall (fill _ 0)) ip h6
      have h₁ := (frame_setRemoteAddress_iff R host port _).mp (hall (fill _ 1)) ip h6
      have hmin : min 4 (8 + rest) = 4 := by omega
      have htake : ∀ b : UInt8, (List.replicate ((UVClient rest).size .udpSocket) b).take 4 =
          List.replicate 4 b := by
        intro b
        rw [List.take_replicate]
        exact congrArg (fun n => List.replicate n b) hmin
      rw [← h₁, member_fill 0 (mem_members rest _), member_fill 1 (mem_members rest _), htake,
        htake] at h₀
      exact absurd h₀ (by decide)
  · intro hhost o
    refine (frame_setRemoteAddress_iff R host port o).mpr fun ip h6 => ?_
    rw [h6] at hhost
    cases hhost

end Client

/-- **When setting an address touches only that address.** A number always does. A host does
for every object exactly when it is no address of the sixth version. A host of that version
does for an object that holds already what reaches its other members: the socket address
reaches `verbose` and half of the pointer `presence`, and the internet address the start of
`udpSocket`. -/
theorem setters_frame_iff (R : Resolver) (host : List UInt8) (port : UInt16) (ipv4 : Octets 4)
    (rest : ℕ) :
    (((∀ o, Frame .serviceAddress o (UVListener.setAddress R host port o)) ↔
          isAddrStringIPv6 R host = false) ∧
        ∀ o, Frame .serviceAddress o (UVListener.setAddress R host port o) ↔
          (isAddrStringIPv6 R host = true →
            o.member .verbose = read (R.uvIp6Addr host port).bytes 16 4 ∧
              (o.member .presence).take 4 = read (R.uvIp6Addr host port).bytes 24 4)) ∧
      (((∀ o : Object (UVClient rest), Frame .servaddr o (UVClient.setAddress R host port o)) ↔
          isAddrStringIPv6 R host = false) ∧
        ∀ o : Object (UVClient rest), Frame .servaddr o (UVClient.setAddress R host port o) ↔
          (isAddrStringIPv6 R host = true →
            o.member .verbose = read (R.uvIp6Addr host port).bytes 16 4 ∧
              (o.member .presence).take 4 = read (R.uvIp6Addr host port).bytes 24 4)) ∧
      (((∀ o : Object (UVClient rest),
            Frame .remoteAddress o (UVClient.setRemoteAddress R host port o)) ↔
          isAddrStringIPv6 R host = false) ∧
        ∀ o : Object (UVClient rest),
          Frame .remoteAddress o (UVClient.setRemoteAddress R host port o) ↔
            ∀ ip, R.inetPton6 host = some ip →
              (o.member .udpSocket).take 4 = read ip.bytes 12 4) ∧
      (∀ o, Frame .serviceAddress o (UVListener.setAddressIpv4 ipv4 port o)) ∧
      ∀ o : Object (UVClient rest), Frame .servaddr o (UVClient.setAddressIpv4 ipv4 port o) := by
  refine ⟨⟨?_, ?_⟩, ⟨?_, ?_⟩, ⟨?_, ?_⟩, ?_, ?_⟩
  · exact forall_frame_setHost_iff neighbours_listener R host port
  · exact frame_setHost_iff neighbours_listener R host port
  · exact forall_frame_setHost_iff (neighbours_client rest) R host port
  · exact frame_setHost_iff (neighbours_client rest) R host port
  · exact forall_frame_setRemoteAddress_iff R host port
  · exact frame_setRemoteAddress_iff R host port
  · exact frame_setIpv4 neighbours_listener.mem rfl ipv4 port
  · exact frame_setIpv4 (neighbours_client rest).mem rfl ipv4 port

/-- The host `::1`. -/
def loopbackHost : List UInt8 := [58, 58, 49]

def loopbackIp : Octets 16 := ⟨[0, 0, 0, 0, 0, 0, 0, 0, 0, 0, 0, 0, 0, 0, 0, 1], rfl⟩

/-- A resolver that knows one host. -/
def loopback : Resolver where
  inetPton4 _ := none
  inetPton6 host := if host = loopbackHost then some loopbackIp else none
  uvIp4Addr _ port := ⟨afInet ++ htons port ++ List.replicate 12 0, rfl⟩
  uvIp6Addr _ port :=
    ⟨afInet6 ++ htons port ++ List.replicate 4 0 ++ loopbackIp.bytes ++ List.replicate 4 0, rfl⟩

/-- The host `::1` set in objects whose bytes are all 255: the listener loses its verbosity and
the lower half of the pointer to its records, the client the same and the start of its socket. -/
theorem loopback_spills :
    ((UVListener.setAddress loopback loopbackHost 2024 (fill UVListener 255)).member .verbose =
          [0, 0, 0, 0] ∧
        (UVListener.setAddress loopback loopbackHost 2024 (fill UVListener 255)).member .presence =
          [0, 0, 0, 0, 255, 255, 255, 255]) ∧
      ¬ Frame .serviceAddress (fill UVListener 255)
        (UVListener.setAddress loopback loopbackHost 2024 (fill UVListener 255)) ∧
      ¬ Frame .servaddr (fill (UVClient 208) 255)
        (UVClient.setAddress loopback loopbackHost 2024 (fill (UVClient 208) 255)) ∧
      ¬ Frame .remoteAddress (fill (UVClient 208) 255)
        (UVClient.setRemoteAddress loopback loopbackHost 2024 (fill (UVClient 208) 255)) := by
  refine ⟨⟨rfl, rfl⟩, fun h => ?_, fun h => ?_, fun h => ?_⟩
  · have hverbose := ((frame_setHost_iff neighbours_listener _ _ _ _).mp h rfl).1
    rw [member_fill 255 (by decide)] at hverbose
    exact absurd hverbose (by decide)
  · have hverbose := ((frame_setHost_iff (neighbours_client 208) _ _ _ _).mp h rfl).1
    rw [member_fill 255 (mem_members _ _)] at hverbose
    exact absurd hverbose (by decide)
  · have hsocket := (frame_setRemoteAddress_iff _ _ _ _).mp h loopbackIp rfl
    rw [member_fill 255 (mem_members _ _)] at hsocket
    exact absurd hsocket (by decide)

end SimplePresence.Setters
