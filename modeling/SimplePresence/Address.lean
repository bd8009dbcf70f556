import SimplePresence.Construct
import SimplePresence.Numeral
import SimplePresence.Setters

/-!
Socket addresses and their texts.

A text is a host and a port with a colon between them; hosts of the sixth version have colons
of their own, so the last one counts. A socket address is read through a pointer cast to the
structure of its family, wherever the object it points into ends. What the two have in common
is an endpoint: a family, an internet address and a port.
-/

namespace SimplePresence.Address

open SimplePresence.Block SimplePresence.Record SimplePresence.Record.Object
open SimplePresence.Peername SimplePresence.Setters SimplePresence.Numeral SimplePresence.Construct

/-! ### The functions -/

/-- A read that ends behind the last byte there is. -/
inductive Fault
  | overread
  deriving DecidableEq, Repr

def colon : UInt8 := 58

/-- `std::string::find_last_of`. -/
def findLastOf (c : UInt8) : List UInt8 → Option ℕ
  | [] => none
  | x :: s =>
    match findLastOf c s with
    | some i => some (i + 1)
    | none => if x = c then some 0 else none

/-- `ULONG_MAX`. -/
def ulongMax (w : LongSize) : ℕ := 256 ^ w.bytes - 1

/-- `splitAddress`: what it returns, and the two references after it. -/
def splitAddress (w : LongSize) (retAddress : List UInt8) (retPort : UInt16)
    (address : List UInt8) : Bool × List UInt8 × UInt16 :=
  match findLastOf colon address with
  | none => (false, retAddress, retPort)
  | some pos =>
    let p := address.drop (pos + 1)
    (true, address.take pos, UInt16.ofNat (strtoul (ulongMax w) p))

/-- What the C library prints of an internet address. -/
structure Names extends Resolver where
  /-- `inet_ntop(AF_INET, ..)` into `INET6_ADDRSTRLEN` characters. -/
  inetNtop4 : Octets 4 → Option (List UInt8)
  /-- `inet_ntop(AF_INET6, ..)` into `INET6_ADDRSTRLEN` characters. -/
  inetNtop6 : Octets 16 → Option (List UInt8)

/-- The `n` bytes at offset `off` from a pointer, `mem` being what there is from it on. -/
def field (mem : List UInt8) (off n : ℕ) : Except Fault (Octets n) :=
  if h : off + n ≤ mem.length then
    .ok ⟨read mem off n, by rw [length_read]; omega⟩
  else .error .overread

def ntohs (port : Octets 2) : UInt16 :=
  UInt16.ofNat ((port.bytes.getD 0 0).toNat * 256 + (port.bytes.getD 1 0).toNat)

/-- `sockaddr2string`. -/
def sockaddr2string (N : Names) (value : List UInt8) : Except Fault (List UInt8) := do
  let family ← field value 0 2
  if family.bytes = afInet then
    let sinAddr ← field value 4 4
    match N.inetNtop4 sinAddr with
    | none => pure []
    | some buf =>
      let sinPort ← field value 2 2
      pure (buf ++ colon :: numeral 10 (ntohs sinPort).toNat)
  else if family.bytes = afInet6 then
    let sin6Addr ← field value 8 16
    match N.inetNtop6 sin6Addr with
    | none => pure []
    | some buf =>
      let sin6Port ← field value 2 2
      pure (buf ++ colon :: numeral 10 (ntohs sin6Port).toNat)
  else pure []

/-- `sameSocketAddress`. The addresses are compared only when the ports are equal. -/
def sameSocketAddress (a b : List UInt8) : Except Fault Bool := do
  let aFamily ← field a 0 2
  let bFamily ← field b 0 2
  if aFamily ≠ bFamily then pure false
  else if aFamily.bytes = afInet then
    let aPort ← field a 2 2
    let bPort ← field b 2 2
    if aPort = bPort then
      let aAddr ← field a 4 4
      let bAddr ← field b 4 4
      pure (aAddr = bAddr)
    else pure false
  else if aFamily.bytes = afInet6 then
    let aPort ← field a 2 2
    let bPort ← field b 2 2
    if aPort = bPort then
      let aAddr ← field a 8 16
      let bAddr ← field b 8 16
      pure (aAddr = bAddr)
    else pure false
  else pure false

/-- `string2sockaddr(struct sockaddr *, const std::string &)`. What `port` holds before it is
set is not looked at. -/
def string2sockaddrValue {M : Type*} {L : Layout M} (R : Resolver) (w : LongSize)
    (retval : ℕ) (value : List UInt8) (o : Object L) : Bool × Object L :=
  match splitAddress w [] 0 value with
  | (false, _) => (false, o)
  | (true, address, port) => string2sockaddr R retval address port o

/-! ### Splitting -/

lemma findLastOf_eq_none {c : UInt8} {s : List UInt8} : findLastOf c s = none ↔ c ∉ s := by
  induction s with
  | nil => simp [findLastOf]
  | cons x s ih =>
    rw [List.mem_cons, not_or, ← ih, findLastOf]
    cases findLastOf c s with
    | some i => simp
    | none => simp [eq_comm]

lemma findLastOf_append_cons {c : UInt8} {t : List UInt8} (ht : c ∉ t) (s : List UInt8) :
    findLastOf c (s ++ c :: t) = some s.length := by
  induction s with
  | nil =>
    rw [List.nil_append, findLastOf, findLastOf_eq_none.mpr ht]
    exact if_pos rfl
  | cons x s ih =>
    rw [List.cons_append, findLastOf, ih]
    rfl

/-- A text is split at the last colon. -/
lemma splitAddress_append (w : LongSize) (retAddress : List UInt8) (retPort : UInt16)
    (host : List UInt8) {p : List UInt8} (hp : colon ∉ p) :
    splitAddress w retAddress retPort (host ++ colon :: p) =
      (true, host, UInt16.ofNat (strtoul (ulongMax w) p)) := by
  have hdrop : (host ++ colon :: p).drop (host.length + 1) = p := by
    rw [← List.drop_drop, List.drop_left, List.drop_one, List.tail_cons]
  unfold splitAddress
  rw [findLastOf_append_cons hp]
  dsimp only
  rw [hdrop, List.take_left]

lemma splitAddress_none (w : LongSize) (retAddress : List UInt8) (retPort : UInt16)
    {address : List UInt8} (h : colon ∉ address) :
    splitAddress w retAddress retPort address = (false, retAddress, retPort) := by
  unfold splitAddress
  rw [findLastOf_eq_none.mpr h]

/-- A text has no colon, or is split at its last one. -/
lemma text_cases (address : List UInt8) :
    colon ∉ address ∨ ∃ host p, colon ∉ p ∧ address = host ++ colon :: p := by
  induction address with
  | nil => exact Or.inl List.not_mem_nil
  | cons x s ih =>
    rcases ih with h | ⟨host, p, hp, rfl⟩
    · by_cases hx : x = colon
      · exact Or.inr ⟨[], s, h, by rw [hx]; rfl⟩
      · exact Or.inl fun hmem => (List.mem_cons.mp hmem).elim (fun he => hx he.symm) h
    · exact Or.inr ⟨x :: host, p, hp, rfl⟩

lemma not_isDigitIn_colon (b : ℕ) : isDigitIn b colon = false := rfl

lemma colon_notMem_numeral {b : ℕ} (hb : 1 < b) (hb' : b ≤ 16) (n : ℕ) : colon ∉ numeral b n := by
  intro h
  obtain ⟨d, hd, heq⟩ := mem_numeral hb h
  have hcolon := not_isDigitIn_colon b
  rw [heq, isDigitIn_digit hb' hd] at hcolon
  cases hcolon

lemma colon_notMem_write (r : Radix) (n : ℕ) : colon ∉ r.write n := by
  have hmark : colon ∉ r.mark := by cases r <;> decide
  have hnum : colon ∉ numeral r.base n := by
    cases r <;> exact colon_notMem_numeral (by decide) (by decide) n
  unfold Radix.write
  rw [List.mem_append, not_or]
  exact ⟨hmark, hnum⟩

lemma toNat_le_ulongMax (w : LongSize) (port : UInt16) : port.toNat ≤ ulongMax w := by
  have hport := port.toNat_lt
  cases w
  · show port.toNat ≤ 256 ^ 4 - 1
    omega
  · show port.toNat ≤ 256 ^ 8 - 1
    omega

/-- A port is read from the number it is written as. -/
lemma ofNat_strtoul_write (w : LongSize) (r : Radix) (port : UInt16) :
    UInt16.ofNat (strtoul (ulongMax w) (r.write port.toNat)) = port := by
  rw [strtoul_write, min_eq_left (toNat_le_ulongMax w port)]
  exact UInt16.ofNat_toNat

/-- A host and a port are read back. -/
lemma splitAddress_write (w : LongSize) (retAddress : List UInt8) (retPort : UInt16)
    (host : List UInt8) (r : Radix) (port : UInt16) :
    splitAddress w retAddress retPort (host ++ colon :: r.write port.toNat) =
      (true, host, port) := by
  rw [splitAddress_append w _ _ host (colon_notMem_write r _), ofNat_strtoul_write]

/-! ### Endpoints -/

/-- What a socket address says of a peer. -/
inductive Endpoint
  | v4 (ip : Octets 4) (port : UInt16)
  | v6 (ip : Octets 16) (port : UInt16)
  deriving DecidableEq, Repr

namespace Endpoint

def family : Endpoint → List UInt8
  | v4 _ _ => afInet
  | v6 _ _ => afInet6

def port : Endpoint → UInt16
  | v4 _ port => port
  | v6 _ port => port

def ip : Endpoint → List UInt8
  | v4 ip _ => ip.bytes
  | v6 ip _ => ip.bytes

/-- Where the internet address lies. -/
def ipOffset : Endpoint → ℕ
  | v4 _ _ => 4
  | v6 _ _ => 8

/-- The end of the internet address. -/
def span : Endpoint → ℕ
  | v4 _ _ => 8
  | v6 _ _ => 24

/-- The bytes from a pointer on say it. -/
structure At (e : Endpoint) (mem : List UInt8) : Prop where
  family : read mem 0 2 = e.family
  port : read mem 2 2 = htons e.port
  ip : read mem e.ipOffset e.ip.length = e.ip

/-- The name of the host. -/
def name (N : Names) : Endpoint → Option (List UInt8)
  | v4 ip _ => N.inetNtop4 ip
  | v6 ip _ => N.inetNtop6 ip

/-- The text for it. -/
def text (N : Names) (e : Endpoint) : List UInt8 :=
  match e.name N with
  | none => []
  | some buf => buf ++ colon :: numeral 10 e.port.toNat

/-- What the resolver makes of a host. -/
def resolve (R : Resolver) (host : List UInt8) (port : UInt16) : Option Endpoint :=
  match R.inetPton6 host with
  | some ip => some (v6 ip port)
  | none => (R.inetPton4 host).map fun ip => v4 ip port

lemma span_eq (e : Endpoint) : e.ipOffset + e.ip.length = e.span ∧ 4 ≤ e.ipOffset := by
  cases e with
  | v4 ip port => exact ⟨congrArg (4 + ·) ip.size, le_rfl⟩
  | v6 ip port => exact ⟨congrArg (8 + ·) ip.size, Nat.le_add_left 4 4⟩

end Endpoint

lemma field_of_read {mem : List UInt8} {off n : ℕ} (hn : 0 < n) (o : Octets n)
    (h : read mem off n = o.bytes) : field mem off n = .ok o := by
  have hlen := congrArg List.length h
  rw [length_read, o.size] at hlen
  have hfit : off + n ≤ mem.length := by omega
  unfold field
  rw [dif_pos hfit]
  exact congrArg Except.ok (Octets.ext h)

def portOctets (port : UInt16) : Octets 2 := ⟨htons port, rfl⟩

lemma ntohs_portOctets (port : UInt16) : ntohs (portOctets port) = port := by
  have hport := port.toNat_lt
  have hhi : (UInt8.ofNat (port.toNat / 256)).toNat = port.toNat / 256 :=
    UInt8.toNat_ofNat_of_lt' (by show port.toNat / 256 < 256; omega)
  have hlo : (UInt8.ofNat port.toNat).toNat = port.toNat % 256 := UInt8.toNat_ofNat'
  have hsum : port.toNat / 256 * 256 + port.toNat % 256 = port.toNat := by omega
  show UInt16.ofNat ((UInt8.ofNat (port.toNat / 256)).toNat * 256 +
    (UInt8.ofNat port.toNat).toNat) = port
  rw [hhi, hlo, hsum]
  exact UInt16.ofNat_toNat

lemma htons_injective {p q : UInt16} (h : htons p = htons q) : p = q := by
  calc p = ntohs (portOctets p) := (ntohs_portOctets p).symm
    _ = ntohs (portOctets q) := congrArg ntohs (Octets.ext h)
    _ = q := ntohs_portOctets q

lemma ofNat_pair (hi lo : UInt8) : UInt8.ofNat (hi.toNat * 256 + lo.toNat) = lo := by
  have hlo := lo.toNat_lt
  refine UInt8.toNat_inj.mp ?_
  rw [UInt8.toNat_ofNat']
  omega

lemma htons_ntohs (port : Octets 2) : htons (ntohs port) = port.bytes := by
  obtain ⟨bytes, hsize⟩ := port
  match bytes, hsize with
  | [hi, lo], _ =>
    have hhi := hi.toNat_lt
    have hlo := lo.toNat_lt
    have hnat : (UInt16.ofNat (hi.toNat * 256 + lo.toNat)).toNat = hi.toNat * 256 + lo.toNat :=
      UInt16.toNat_ofNat_of_lt' (by show hi.toNat * 256 + lo.toNat < 65536; omega)
    have hdiv : (hi.toNat * 256 + lo.toNat) / 256 = hi.toNat := by omega
    show [UInt8.ofNat ((UInt16.ofNat (hi.toNat * 256 + lo.toNat)).toNat / 256),
      UInt8.ofNat (UInt16.ofNat (hi.toNat * 256 + lo.toNat)).toNat] = [hi, lo]
    rw [hnat, hdiv, ofNat_pair, UInt8.ofNat_toNat]

def zeroOctets (n : ℕ) : Octets n := ⟨List.replicate n 0, List.length_replicate⟩

lemma length_layout_v4 (port : Octets 2) (ip : Octets 4) :
    (Peer.v4 port ip).layout.length = 16 := by
  simp [Peer.layout, port.size, ip.size]

lemma length_layout_v6 (port : Octets 2) (flowinfo : Octets 4) (ip : Octets 16)
    (scope : Octets 4) : (Peer.v6 port flowinfo ip scope).layout.length = 28 := by
  simp [Peer.layout, port.size, flowinfo.size, ip.size, scope.size]

/-- The endpoint of a peer. -/
def Endpoint.ofPeer : Peer → Endpoint
  | .v4 port ip => .v4 ip (ntohs port)
  | .v6 port _ ip _ => .v6 ip (ntohs port)

/-- It is what the structure of the peer says. -/
lemma at_layout (p : Peer) : (Endpoint.ofPeer p).At p.layout := by
  cases p with
  | v4 port ip =>
    have hport := read_append afInet port.bytes (ip.bytes ++ List.replicate 8 0)
    have hip := read_append (afInet ++ port.bytes) ip.bytes (List.replicate 8 0)
    rw [port.size] at hport
    rw [List.length_append, port.size, List.append_assoc] at hip
    refine ⟨?_, hport.trans (htons_ntohs port).symm, hip⟩
    exact read_append [] afInet (port.bytes ++ (ip.bytes ++ List.replicate 8 0))
  | v6 port flowinfo ip scope =>
    have hport := read_append afInet6 port.bytes (flowinfo.bytes ++ (ip.bytes ++ scope.bytes))
    have hip := read_append (afInet6 ++ (port.bytes ++ flowinfo.bytes)) ip.bytes scope.bytes
    rw [port.size] at hport
    rw [List.length_append, List.length_append, port.size, flowinfo.size, List.append_assoc,
      List.append_assoc] at hip
    refine ⟨?_, hport.trans (htons_ntohs port).symm, hip⟩
    exact read_append [] afInet6 (port.bytes ++ (flowinfo.bytes ++ (ip.bytes ++ scope.bytes)))

lemma at_layout_v4 (port : UInt16) (ip : Octets 4) :
    (Endpoint.v4 ip port).At (Peer.v4 (portOctets port) ip).layout := by
  have hpeer : Endpoint.ofPeer (.v4 (portOctets port) ip) = .v4 ip port :=
    congrArg (Endpoint.v4 ip) (ntohs_portOctets port)
  rw [← hpeer]
  exact at_layout _

lemma at_layout_v6 (port : UInt16) (flowinfo : Octets 4) (ip : Octets 16) (scope : Octets 4) :
    (Endpoint.v6 ip port).At (Peer.v6 (portOctets port) flowinfo ip scope).layout := by
  have hpeer : Endpoint.ofPeer (.v6 (portOctets port) flowinfo ip scope) = .v6 ip port :=
    congrArg (Endpoint.v6 ip) (ntohs_portOctets port)
  rw [← hpeer]
  exact at_layout _

section At

variable {e e' : Endpoint} {mem mem' : List UInt8}

lemma field_family (h : e.At mem) : ∃ o, field mem 0 2 = .ok o ∧ o.bytes = e.family := by
  have hsize : e.family.length = 2 := by cases e <;> rfl
  exact ⟨⟨e.family, hsize⟩, field_of_read Nat.two_pos _ h.family, rfl⟩

lemma field_port (h : e.At mem) : field mem 2 2 = .ok (portOctets e.port) :=
  field_of_read Nat.two_pos _ h.port

lemma field_ip4 {ip : Octets 4} {port : UInt16} (h : (Endpoint.v4 ip port).At mem) :
    field mem 4 4 = .ok ip := by
  have hread : read mem 4 ip.bytes.length = ip.bytes := h.ip
  rw [ip.size] at hread
  exact field_of_read (Nat.succ_pos 3) ip hread

lemma field_ip6 {ip : Octets 16} {port : UInt16} (h : (Endpoint.v6 ip port).At mem) :
    field mem 8 16 = .ok ip := by
  have hread : read mem 8 ip.bytes.length = ip.bytes := h.ip
  rw [ip.size] at hread
  exact field_of_read (Nat.succ_pos 15) ip hread

/-- A socket address is printed as the endpoint it says. -/
lemma sockaddr2string_at (N : Names) (h : e.At mem) :
    sockaddr2string N mem = .ok (e.text N) := by
  obtain ⟨o, hfamily, ho⟩ := field_family h
  have hport := field_port h
  unfold sockaddr2string
  rw [hfamily]
  dsimp only [bind, Except.bind]
  cases e with
  | v4 ip port =>
    have heq : o.bytes = afInet := ho
    rw [if_pos heq, field_ip4 h]
    unfold Endpoint.text Endpoint.name
    dsimp only
    cases N.inetNtop4 ip with
    | none => rfl
    | some buf =>
      dsimp only
      rw [hport]
      dsimp only
      rw [ntohs_portOctets]
      rfl
  | v6 ip port =>
    have heq : o.bytes = afInet6 := ho
    have hne : ¬ o.bytes = afInet := by
      rw [heq]
      decide
    rw [if_neg hne, if_pos heq, field_ip6 h]
    unfold Endpoint.text Endpoint.name
    dsimp only
    cases N.inetNtop6 ip with
    | none => rfl
    | some buf =>
      dsimp only
      rw [hport]
      dsimp only
      rw [ntohs_portOctets]
      rfl

/-- Socket addresses are the same exactly when they say the same endpoint. -/
lemma sameSocketAddress_at (h : e.At mem) (h' : e'.At mem') :
    sameSocketAddress mem mem' = .ok (decide (e = e')) := by
  obtain ⟨o, hfamily, ho⟩ := field_family h
  obtain ⟨o', hfamily', ho'⟩ := field_family h'
  have hport := field_port h
  have hport' := field_port h'
  have hports : portOctets e.port = portOctets e'.port ↔ e.port = e'.port :=
    ⟨fun heq => htons_injective (congrArg Octets.bytes heq), congrArg portOctets⟩
  unfold sameSocketAddress
  rw [hfamily, hfamily']
  dsimp only [bind, Except.bind]
  cases e with
  | v4 ip port =>
    have heq : o.bytes = afInet := ho
    cases e' with
    | v4 ip' port' =>
      have hoo : o = o' := Octets.ext (ho.trans ho'.symm)
      rw [if_neg (not_not.mpr hoo), if_pos heq, hport, hport']
      dsimp only
      by_cases hp : port = port'
      · rw [if_pos (hports.mpr hp), field_ip4 h, field_ip4 h']
        simp [hp, pure, Except.pure]
      · rw [if_neg fun hc => hp (hports.mp hc)]
        simp [hp, pure, Except.pure]
    | v6 ip' port' =>
      have heq' : o'.bytes = afInet6 := ho'
      have hoo : o ≠ o' := by
        rintro rfl
        exact absurd (heq.symm.trans heq') (by decide)
      rw [if_pos hoo]
      simp [pure, Except.pure]
  | v6 ip port =>
    have heq : o.bytes = afInet6 := ho
    have hne : ¬ o.bytes = afInet := by
      rw [heq]
      decide
    cases e' with
    | v4 ip' port' =>
      have heq' : o'.bytes = afInet := ho'
      have hoo : o ≠ o' := by
        rintro rfl
        exact hne heq'
      rw [if_pos hoo]
      simp [pure, Except.pure]
    | v6 ip' port' =>
      have hoo : o = o' := Octets.ext (ho.trans ho'.symm)
      rw [if_neg (not_not.mpr hoo), if_neg hne, if_pos heq, hport, hport']
      dsimp only
      by_cases hp : port = port'
      · rw [if_pos (hports.mpr hp), field_ip6 h, field_ip6 h']
        simp [hp, pure, Except.pure]
      · rw [if_neg fun hc => hp (hports.mp hc)]
        simp [hp, pure, Except.pure]

end At

/-! ### Setting an address from a text -/

section Set

variable {M : Type*} {L : Layout M}

/-- Three fields stored one after the other are read back. -/
lemma at_store {e : Endpoint} {retval : ℕ} {o : Object L} (hroom : retval + e.span ≤ L.sizeof) :
    e.At ((((o.store (retval + e.ipOffset) e.ip).store retval e.family).store (retval + 2)
      (htons e.port)).bytes.drop retval) := by
  have hsize := o.size
  have hfamily : e.family.length = 2 := by cases e <;> rfl
  have hport : (htons e.port).length = 2 := rfl
  obtain ⟨hspan, hoff⟩ := e.span_eq
  constructor
  · rw [read_drop, Nat.add_zero]
    show read (write (write (write o.bytes (retval + e.ipOffset) e.ip) retval e.family) (retval + 2)
      (htons e.port)) retval 2 = e.family
    rw [read_write_of_ge (by omega)]
    rw [← hfamily]
    exact read_write_self (by rw [length_write]; omega)
  · rw [read_drop]
    show read (write (write (write o.bytes (retval + e.ipOffset) e.ip) retval e.family) (retval + 2)
      (htons e.port)) (retval + 2) (htons e.port).length = htons e.port
    exact read_write_self (by rw [length_write, length_write]; omega)
  · rw [read_drop]
    show read (write (write (write o.bytes (retval + e.ipOffset) e.ip) retval e.family) (retval + 2)
      (htons e.port)) (retval + e.ipOffset) e.ip.length = e.ip
    rw [read_write_of_le (by omega), read_write_of_le (by omega)]
    exact read_write_self (by omega)

/-- `string2sockaddr` stores what the resolver makes of the host, or nothing. -/
lemma string2sockaddr_cases (R : Resolver) (retval : ℕ) (host : List UInt8) (port : UInt16)
    (o : Object L) :
    (Endpoint.resolve R host port = none ∧ string2sockaddr R retval host port o = (false, o)) ∨
      ∃ e, Endpoint.resolve R host port = some e ∧
        string2sockaddr R retval host port o =
          (true, ((o.store (retval + e.ipOffset) e.ip).store retval e.family).store (retval + 2)
            (htons e.port)) := by
  unfold string2sockaddr Endpoint.resolve
  cases R.inetPton6 host with
  | some ip => exact Or.inr ⟨_, rfl, rfl⟩
  | none =>
    cases R.inetPton4 host with
    | some ip => exact Or.inr ⟨_, rfl, rfl⟩
    | none => exact Or.inl ⟨rfl, rfl⟩

lemma string2sockaddr_of_resolve {R : Resolver} {host : List UInt8} {port : UInt16} {e : Endpoint}
    (h : Endpoint.resolve R host port = some e) {retval : ℕ} {o : Object L}
    (hroom : retval + e.span ≤ L.sizeof) :
    (string2sockaddr R retval host port o).1 = true ∧
      e.At ((string2sockaddr R retval host port o).2.bytes.drop retval) := by
  rcases string2sockaddr_cases R retval host port o with ⟨hnone, -⟩ | ⟨e', he', hset⟩
  · cases hnone.symm.trans h
  · obtain rfl := Option.some.inj (he'.symm.trans h)
    rw [hset]
    exact ⟨rfl, at_store hroom⟩

end Set

/-! ### Round trips -/

/-- What is documented of the C library: the name it prints of an internet address denotes that
address, and only hosts of the sixth version have colons. -/
structure Names.Documented (N : Names) : Prop where
  ntop4 : ∀ ip, ∃ s, N.inetNtop4 ip = some s ∧ N.inetPton4 s = some ip
  ntop6 : ∀ ip, ∃ s, N.inetNtop6 ip = some s ∧ N.inetPton6 s = some ip
  dotted : ∀ s ip, N.inetPton4 s = some ip → colon ∉ s
  colons : ∀ s ip, N.inetPton6 s = some ip → colon ∈ s

/-- What is documented of libuv: the structure it writes for a host says that host and the port,
and one written for a host it rejects says any interface. -/
structure Resolver.Documented (R : Resolver) : Prop where
  ip4 : ∀ host port ip, R.inetPton4 host = some ip →
    (Endpoint.v4 ip port).At (R.uvIp4Addr host port).bytes
  ip6 : ∀ host port ip, R.inetPton6 host = some ip →
    (Endpoint.v6 ip port).At (R.uvIp6Addr host port).bytes
  rejected : ∀ host port, R.inetPton4 host = none →
    (Endpoint.v4 (zeroOctets 4) port).At (R.uvIp4Addr host port).bytes

section Documented

variable {N : Names}

/-- The name of a host is resolved to it. -/
lemma exists_name (hN : N.Documented) (e : Endpoint) :
    ∃ buf, e.name N = some buf ∧ Endpoint.resolve N.toResolver buf e.port = some e := by
  cases e with
  | v4 ip port =>
    obtain ⟨buf, hname, hip⟩ := hN.ntop4 ip
    refine ⟨buf, hname, ?_⟩
    have hnone : N.inetPton6 buf = none := by
      by_contra hne
      obtain ⟨ip', hip'⟩ := Option.ne_none_iff_exists'.mp hne
      exact hN.dotted buf ip hip (hN.colons buf ip' hip')
    unfold Endpoint.resolve
    rw [hnone, hip]
    rfl
  | v6 ip port =>
    obtain ⟨buf, hname, hip⟩ := hN.ntop6 ip
    refine ⟨buf, hname, ?_⟩
    unfold Endpoint.resolve
    rw [hip]
    rfl

/-- The text for an endpoint is split into its host and its port. -/
lemma exists_split_text (hN : N.Documented) (w : LongSize) (e : Endpoint) :
    ∃ buf, Endpoint.resolve N.toResolver buf e.port = some e ∧ e.text N ≠ [] ∧
      ∀ retAddress retPort,
        splitAddress w retAddress retPort (e.text N) = (true, buf, e.port) := by
  obtain ⟨buf, hname, hresolve⟩ := exists_name hN e
  have htext : e.text N = buf ++ colon :: numeral 10 e.port.toNat := by
    unfold Endpoint.text
    rw [hname]
  refine ⟨buf, hresolve, ?_, fun retAddress retPort => ?_⟩
  · rw [htext]
    exact List.append_ne_nil_of_right_ne_nil _ (List.cons_ne_nil _ _)
  · rw [htext]
    exact splitAddress_write w retAddress retPort buf .ten e.port

/-- **Addresses survive their texts.** Take an endpoint of either family at some address, and
the text printed of it. The text set at any place with room for the family says the endpoint
again, and it is the text of the socket addresses that are the same, and of no others. -/
theorem sockaddr_text_round_trip (hN : N.Documented) (w : LongSize) (e : Endpoint)
    {mem : List UInt8} (h : e.At mem) :
    ∃ s, sockaddr2string N mem = .ok s ∧ s ≠ [] ∧
      (∀ {M : Type} {L : Layout M} (retval : ℕ) (o : Object L), retval + e.span ≤ L.sizeof →
        (string2sockaddrValue N.toResolver w retval s o).1 = true ∧
          e.At ((string2sockaddrValue N.toResolver w retval s o).2.bytes.drop retval)) ∧
      ∀ (e' : Endpoint) {mem' : List UInt8}, e'.At mem' →
        (sockaddr2string N mem' = .ok s ↔ sameSocketAddress mem mem' = .ok true) := by
  obtain ⟨buf, hresolve, hne, hsplit⟩ := exists_split_text hN w e
  refine ⟨e.text N, sockaddr2string_at N h, hne, fun retval o hroom => ?_, fun e' mem' h' => ?_⟩
  · unfold string2sockaddrValue
    rw [hsplit [] 0]
    exact string2sockaddr_of_resolve hresolve hroom
  · rw [sockaddr2string_at N h', sameSocketAddress_at h h']
    refine ⟨fun htext => ?_, fun hsame => ?_⟩
    · -- the text is split into a host and a port, which are resolved to one endpoint
      obtain ⟨buf', hresolve', -, hsplit'⟩ := exists_split_text hN w e'
      have hs := hsplit' [] 0
      rw [Except.ok.inj htext, hsplit [] 0] at hs
      obtain ⟨hbuf, hport⟩ := Prod.mk.inj (Prod.mk.inj hs).2
      rw [← hbuf, ← hport, hresolve] at hresolve'
      exact congrArg Except.ok (decide_eq_true (Option.some.inj hresolve'))
    · rw [of_decide_eq_true (Except.ok.inj hsame)]

end Documented

/-! ### A C library -/

/-- The field of some bytes, when there are as many. -/
def Octets.ofBytes (n : ℕ) (bs : List UInt8) : Option (Octets n) :=
  if h : bs.length = n then some ⟨bs, h⟩ else none

/-- The numbers of two bytes each. -/
def pairs : List UInt8 → List ℕ
  | hi :: lo :: bs => (hi.toNat * 256 + lo.toNat) :: pairs bs
  | _ => []

def unpairs (l : List ℕ) : List UInt8 :=
  l.flatMap fun n => [UInt8.ofNat (n / 256), UInt8.ofNat n]

def plainPton4 (host : List UInt8) : Option (Octets 4) :=
  (readRow 46 10 4 256 host).bind fun l => Octets.ofBytes 4 (l.map UInt8.ofNat)

def plainPton6 (host : List UInt8) : Option (Octets 16) :=
  (readRow colon 16 8 65536 host).bind fun l => Octets.ofBytes 16 (unpairs l)

/-- A library that prints all the numbers of an address, and reads only what it prints. -/
def plainNames : Names where
  inetNtop4 ip := some (writeRow 46 10 (ip.bytes.map UInt8.toNat))
  inetNtop6 ip := some (writeRow colon 16 (pairs ip.bytes))
  inetPton4 := plainPton4
  inetPton6 := plainPton6
  uvIp4Addr host port :=
    ⟨(Peer.v4 (portOctets port) ((plainPton4 host).getD (zeroOctets 4))).layout,
      length_layout_v4 _ _⟩
  uvIp6Addr host port :=
    ⟨(Peer.v6 (portOctets port) (zeroOctets 4) ((plainPton6 host).getD (zeroOctets 16))
      (zeroOctets 4)).layout, length_layout_v6 _ _ _ _⟩

lemma Octets.ofBytes_bytes {n : ℕ} (o : Octets n) : Octets.ofBytes n o.bytes = some o :=
  dif_pos o.size

lemma pairs_spec (bs : List UInt8) (n : ℕ) (h : bs.length = 2 * n) :
    (pairs bs).length = n ∧ (∀ p ∈ pairs bs, p < 65536) ∧ unpairs (pairs bs) = bs := by
  induction n generalizing bs with
  | zero =>
    rw [List.length_eq_zero_iff.mp h]
    exact ⟨rfl, fun p hp => absurd hp List.not_mem_nil, rfl⟩
  | succ n ih =>
    obtain ⟨hi, lo, bs', rfl⟩ : ∃ hi lo bs', bs = hi :: lo :: bs' := by
      match bs, h with
      | hi :: lo :: bs', _ => exact ⟨hi, lo, bs', rfl⟩
    rw [List.length_cons, List.length_cons] at h
    obtain ⟨hlen, hlt, hback⟩ := ih bs' (by omega)
    have hhi := hi.toNat_lt
    have hlo := lo.toNat_lt
    refine ⟨congrArg (· + 1) hlen, fun p hp => ?_, ?_⟩
    · rcases List.mem_cons.mp hp with rfl | hp
      · omega
      · exact hlt p hp
    · have hdiv : (hi.toNat * 256 + lo.toNat) / 256 = hi.toNat := by omega
      show UInt8.ofNat ((hi.toNat * 256 + lo.toNat) / 256) ::
        UInt8.ofNat (hi.toNat * 256 + lo.toNat) :: unpairs (pairs bs') = hi :: lo :: bs'
      rw [hdiv, ofNat_pair, hback, UInt8.ofNat_toNat]

lemma plainNames_documented : plainNames.Documented where
  ntop4 ip := by
    have hlen : (ip.bytes.map UInt8.toNat).length = 4 := by rw [List.length_map, ip.size]
    have hne : ip.bytes.map UInt8.toNat ≠ [] := by
      intro hnil
      rw [hnil] at hlen
      cases hlen
    have hlt : ∀ n ∈ ip.bytes.map UInt8.toNat, n < 256 := by
      intro n hn
      obtain ⟨b, -, rfl⟩ := List.mem_map.mp hn
      exact b.toNat_lt
    have hread := readRow_writeRow (by omega : 1 < 10) (by omega) (rfl : isDigitIn 10 46 = false)
      hne hlt
    have hback : (ip.bytes.map UInt8.toNat).map UInt8.ofNat = ip.bytes := by
      rw [List.map_map]
      exact (List.map_congr_left fun b _ => UInt8.ofNat_toNat).trans (List.map_id _)
    refine ⟨_, rfl, ?_⟩
    show (readRow 46 10 4 256 _).bind _ = some ip
    rw [hlen] at hread
    rw [hread, Option.bind_some, hback, Octets.ofBytes_bytes]
  ntop6 ip := by
    obtain ⟨hlen, hlt, hback⟩ := pairs_spec ip.bytes 8 ip.size
    have hne : pairs ip.bytes ≠ [] := by
      intro hnil
      rw [hnil] at hlen
      cases hlen
    have hread := readRow_writeRow (by omega : 1 < 16) (by omega) (not_isDigitIn_colon 16) hne hlt
    refine ⟨_, rfl, ?_⟩
    show (readRow colon 16 8 65536 _).bind _ = some ip
    rw [hlen] at hread
    rw [hread, Option.bind_some, hback, Octets.ofBytes_bytes]
  dotted s ip h := by
    intro hmem
    obtain ⟨l, hl, -⟩ := Option.bind_eq_some_iff.mp h
    rcases mem_of_readRow (by omega) (by omega) hl hmem with hsep | hdigit
    · exact absurd hsep (by decide)
    · exact absurd hdigit (by decide)
  colons s ip h := by
    obtain ⟨l, hl, -⟩ := Option.bind_eq_some_iff.mp h
    exact sep_mem_of_readRow (by omega) hl

lemma plainNames_resolver_documented : Resolver.Documented plainNames.toResolver where
  ip4 host port ip h := by
    have hpton : plainPton4 host = some ip := h
    show (Endpoint.v4 ip port).At
      (Peer.v4 (portOctets port) ((plainPton4 host).getD (zeroOctets 4))).layout
    rw [hpton]
    exact at_layout_v4 port ip
  ip6 host port ip h := by
    have hpton : plainPton6 host = some ip := h
    show (Endpoint.v6 ip port).At (Peer.v6 (portOctets port) (zeroOctets 4)
      ((plainPton6 host).getD (zeroOctets 16)) (zeroOctets 4)).layout
    rw [hpton]
    exact at_layout_v6 port (zeroOctets 4) ip (zeroOctets 4)
  rejected host port h := by
    have hpton : plainPton4 host = none := h
    show (Endpoint.v4 (zeroOctets 4) port).At
      (Peer.v4 (portOctets port) ((plainPton4 host).getD (zeroOctets 4))).layout
    rw [hpton]
    exact at_layout_v4 port (zeroOctets 4)

/-- A host whose address has no zeros in a row, `2001:db8:1:2:3:4:5:6` with port 2024. -/
def hostD : Peer :=
  .v6 (portOctets 2024) (zeroOctets 4)
    ⟨[32, 1, 13, 184, 0, 1, 0, 2, 0, 3, 0, 4, 0, 5, 0, 6], rfl⟩ (zeroOctets 4)

theorem sockaddr_text_round_trip_hostD :
    ∃ s, sockaddr2string plainNames hostD.layout = .ok s ∧ s ≠ [] ∧
      (∀ {M : Type} {L : Layout M} (retval : ℕ) (o : Object L), retval + 24 ≤ L.sizeof →
        (string2sockaddrValue plainNames.toResolver .eight retval s o).1 = true ∧
          (Endpoint.ofPeer hostD).At
            ((string2sockaddrValue plainNames.toResolver .eight retval s o).2.bytes.drop retval)) ∧
      ∀ (e' : Endpoint) {mem' : List UInt8}, e'.At mem' →
        (sockaddr2string plainNames mem' = .ok s ↔
          sameSocketAddress hostD.layout mem' = .ok true) :=
  sockaddr_text_round_trip plainNames_documented .eight (Endpoint.ofPeer hostD) (at_layout hostD)

/-! ### What is read of a text -/

lemma ofNat_ulongMax (w : LongSize) : UInt16.ofNat (ulongMax w) = 65535 := by
  cases w <;> rfl

/-- Sixteen bits are left of a number that counts down from a power of two of a `long`. -/
lemma ofNat_sub_mod {w : LongSize} {n : ℕ} (h : n ≤ ulongMax w) :
    UInt16.ofNat ((ulongMax w + 1 - n) % (ulongMax w + 1)) = -UInt16.ofNat n := by
  refine UInt16.toNat_inj.mp ?_
  have hsize : UInt16.size = 65536 := rfl
  rw [UInt16.toNat_neg, UInt16.toNat_ofNat', UInt16.toNat_ofNat', hsize]
  cases w with
  | four =>
    have hmax : ulongMax .four = 4294967295 := rfl
    rw [hmax] at h ⊢
    omega
  | eight =>
    have hmax : ulongMax .eight = 18446744073709551615 := rfl
    rw [hmax] at h ⊢
    omega

/-- **Host and port of a text.** Whatever the host, colons and all, it is what stands before the
last colon, and the port is the number behind it modulo 65536, in any of the three bases; a
number that is too large for a `long` counts as the greatest there is, and a minus counts down
from zero. Every port is read back. A text without a colon leaves both references as they are,
and that is the only failure. -/
theorem splitAddress_reads (w : LongSize) (retAddress : List UInt8) (retPort : UInt16) :
    (∀ (host : List UInt8) (r : Radix) (n : ℕ),
      splitAddress w retAddress retPort (host ++ colon :: r.write n) =
        (true, host, UInt16.ofNat (min n (ulongMax w)))) ∧
      (∀ (host : List UInt8) (r : Radix) (n : ℕ),
        splitAddress w retAddress retPort (host ++ colon :: 45 :: r.write n) =
          (true, host, if n ≤ ulongMax w then -UInt16.ofNat n else 65535)) ∧
      (∀ (host : List UInt8) (r : Radix) (port : UInt16),
        splitAddress w retAddress retPort (host ++ colon :: r.write port.toNat) =
          (true, host, port)) ∧
      ∀ address, ((splitAddress w retAddress retPort address).1 = true ↔ colon ∈ address) ∧
        (colon ∉ address →
          splitAddress w retAddress retPort address = (false, retAddress, retPort)) := by
  refine ⟨fun host r n => ?_, fun host r n => ?_, fun host r port => ?_, fun address => ⟨?_, ?_⟩⟩
  · rw [splitAddress_append w _ _ host (colon_notMem_write r n), strtoul_write]
  · have hcolon : colon ∉ 45 :: r.write n := by
      rw [List.mem_cons, not_or]
      exact ⟨by decide, colon_notMem_write r n⟩
    rw [splitAddress_append w _ _ host hcolon, strtoul_minus_write]
    refine congrArg (fun port => (true, host, port)) ?_
    split_ifs with hgt hle hle
    · exact absurd hle (by omega)
    · exact ofNat_ulongMax w
    · exact ofNat_sub_mod hle
    · exact absurd hgt (by omega)
  · exact splitAddress_write w retAddress retPort host r port
  · rcases text_cases address with h | ⟨host, p, hp, rfl⟩
    · rw [splitAddress_none w retAddress retPort h]
      exact ⟨fun hc => Bool.noConfusion hc, fun hc => absurd hc h⟩
    · rw [splitAddress_append w _ _ host hp]
      exact ⟨fun _ => List.mem_append_right host List.mem_cons_self, fun _ => rfl⟩
  · exact splitAddress_none w retAddress retPort

end SimplePresence.Address
