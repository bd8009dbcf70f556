import SimplePresence.Service

/-!
What a reply says of a peer.

The service can be bound to an address of either family, and copies the address of a peer as
a `struct sockaddr` four times over on its way to a reply. Sixteen bytes hold all of an
Internet address of the fourth version, and half of one of the sixth.
-/

namespace SimplePresence.Peername

open SimplePresence.Uid SimplePresence.Item SimplePresence.OrderedMap SimplePresence.Query
open SimplePresence.Store SimplePresence.Log SimplePresence.Machine SimplePresence.Service

/-- A field of `n` bytes, as it lies in memory. -/
@[ext]
structure Octets (n : ℕ) where
  bytes : List UInt8
  size : bytes.length = n
  deriving DecidableEq, Repr

/-- Where a request comes from. -/
inductive Peer
  | v4 (port : Octets 2) (ip : Octets 4)
  | v6 (port : Octets 2) (flowinfo : Octets 4) (ip : Octets 16) (scope : Octets 4)
  deriving DecidableEq, Repr

namespace Peer

/-- `AF_INET` or `AF_INET6`. -/
def family : Peer → ℕ
  | v4 _ _ => 2
  | v6 _ _ _ _ => 10

def port : Peer → Octets 2
  | v4 port _ => port
  | v6 port _ _ _ => port

def ip : Peer → List UInt8
  | v4 _ ip => ip.bytes
  | v6 _ _ ip _ => ip.bytes

/-- The `struct sockaddr_in` or `struct sockaddr_in6` of a peer. -/
def layout : Peer → List UInt8
  | v4 port ip => [2, 0] ++ (port.bytes ++ (ip.bytes ++ List.replicate 8 0))
  | v6 port flowinfo ip scope =>
    [10, 0] ++ (port.bytes ++ (flowinfo.bytes ++ (ip.bytes ++ scope.bytes)))

/-- What is copied of it. -/
def sockaddr (p : Peer) : Sockaddr := Sockaddr.ofBytes p.layout

/-- The peers differ in family, port or address. -/
def Differ (p q : Peer) : Prop := p.family ≠ q.family ∨ p.port ≠ q.port ∨ p.ip ≠ q.ip

/-- Two peers of the sixth version that have the port, the flow information and the first half
of the address in common. -/
def Alike : Peer → Peer → Prop
  | v6 port flowinfo ip _, v6 port' flowinfo' ip' _ =>
    port = port' ∧ flowinfo = flowinfo' ∧ ip.bytes.take 8 = ip'.bytes.take 8
  | _, _ => False

instance (p q : Peer) : Decidable (Differ p q) := inferInstanceAs (Decidable (_ ∨ _ ∨ _))

lemma bytes_sockaddr_v4 (port : Octets 2) (ip : Octets 4) :
    (v4 port ip).sockaddr.bytes = [2, 0] ++ (port.bytes ++ (ip.bytes ++ List.replicate 8 0)) := by
  have hlen : (v4 port ip).layout.length = sizeofSockaddr := by
    simp [layout, port.size, ip.size, sizeofSockaddr]
  unfold sockaddr
  rw [Sockaddr.bytes_ofBytes hlen.ge, List.take_of_length_le hlen.le]
  rfl

lemma bytes_sockaddr_v6 (port : Octets 2) (flowinfo : Octets 4) (ip : Octets 16)
    (scope : Octets 4) : (v6 port flowinfo ip scope).sockaddr.bytes =
      [10, 0] ++ (port.bytes ++ (flowinfo.bytes ++ ip.bytes.take 8)) := by
  have hlen : sizeofSockaddr ≤ (v6 port flowinfo ip scope).layout.length := by
    simp [layout, port.size, flowinfo.size, ip.size, scope.size, sizeofSockaddr]
  unfold sockaddr
  rw [Sockaddr.bytes_ofBytes hlen]
  have hport : port.bytes.take 14 = port.bytes :=
    List.take_of_length_le (by rw [port.size]; decide)
  have hflow : flowinfo.bytes.take 12 = flowinfo.bytes :=
    List.take_of_length_le (by rw [flowinfo.size]; decide)
  simp [layout, List.take_append, port.size, flowinfo.size, ip.size, sizeofSockaddr, hport, hflow]

/-- **What is copied of two peers is the same** exactly when they are alike. -/
theorem sockaddr_eq_iff {p q : Peer} (h : p.Differ q) : p.sockaddr = q.sockaddr ↔ p.Alike q := by
  rw [Sockaddr.ext_iff]
  cases p with
  | v4 port ip =>
    cases q with
    | v4 port' ip' =>
      rw [bytes_sockaddr_v4, bytes_sockaddr_v4]
      refine ⟨fun heq => ?_, fun hf => hf.elim⟩
      have h₁ := List.append_cancel_left heq
      obtain ⟨hport, h₂⟩ := List.append_inj h₁ (port.size.trans port'.size.symm)
      have hip := List.append_cancel_right h₂
      rcases h with h | h | h
      · exact h rfl
      · exact h (Octets.ext hport)
      · exact h hip
    | v6 port' flowinfo' ip' scope' =>
      rw [bytes_sockaddr_v4, bytes_sockaddr_v6]
      exact ⟨fun heq => absurd (List.cons.inj heq).1 (by decide), fun hf => hf.elim⟩
  | v6 port flowinfo ip scope =>
    cases q with
    | v4 port' ip' =>
      rw [bytes_sockaddr_v4, bytes_sockaddr_v6]
      exact ⟨fun heq => absurd (List.cons.inj heq).1 (by decide), fun hf => hf.elim⟩
    | v6 port' flowinfo' ip' scope' =>
      rw [bytes_sockaddr_v6, bytes_sockaddr_v6]
      refine ⟨fun heq => ?_, fun ⟨hport, hflow, hip⟩ => by rw [hport, hflow, hip]⟩
      have h₁ := List.append_cancel_left heq
      obtain ⟨hport, h₂⟩ := List.append_inj h₁ (port.size.trans port'.size.symm)
      obtain ⟨hflow, hip⟩ := List.append_inj h₂ (flowinfo.size.trans flowinfo'.size.symm)
      exact ⟨Octets.ext hport, Octets.ext hflow, hip⟩

end Peer

/-- The service can answer a ping of `u` or a lookup of it with the address bytes `b`, when the
last request to register `u` came from `p`. -/
def Answered (u : UID) (p : Peer) (b : Sockaddr) : Prop :=
  ∃ pre r as s a s', serve MemPresence.empty pre = .ok (as, s) ∧ handle s r = .ok (a, s') ∧
    (r.buf = u.data ∨ ∃ src : UID, r.buf = src.data ++ u.data) ∧
    a.ret = 32 ∧ a.retBuf = u.data ++ b.bytes ∧
    ∃ q, lastRequest (pre ++ [r]) u = some q ∧ q.addr = p.sockaddr

/-- Only what was copied of the peer is answered. -/
lemma eq_of_answered {u : UID} {p : Peer} {b : Sockaddr} (h : Answered u p b) :
    b = p.sockaddr := by
  obtain ⟨pre, r, as, s, a, s', hs, hr, hbuf | ⟨src, hbuf⟩, hret, hbytes, q, hq, hp⟩ := h
  · rw [lastRequest_concat, if_pos (Request.bears_ping hbuf)] at hq
    obtain rfl := Option.some.inj hq
    rw [(handle_ping hbuf hr).2] at hbytes
    calc b = r.addr := (Sockaddr.ext (List.append_cancel_left hbytes)).symm
      _ = p.sockaddr := hp
  · obtain ⟨q', hq', rfl⟩ := lookup_found hs hr hbuf hret
    obtain rfl := Option.some.inj (hq'.symm.trans hq)
    calc b = q'.addr := (Sockaddr.ext (List.append_cancel_left hbytes)).symm
      _ = p.sockaddr := hp

/-- A ping is answered with it. -/
lemma answered_sockaddr (u : UID) (p : Peer) : Answered u p p.sockaddr := by
  let r : Request := ⟨p.sockaddr, u.data, ⟨0, 0, 0⟩⟩
  have hlast : lastRequest ([] ++ [r]) u = some r := by
    rw [lastRequest_concat, if_pos (Request.bears_ping rfl)]
  exact ⟨[], r, [], MemPresence.empty, ⟨32, u.data ++ p.sockaddr.bytes⟩, _, rfl,
    query_ping.mpr ⟨rfl, rfl⟩, Or.inl rfl, rfl, rfl, r, hlast, rfl⟩

/-- **When a reply tells two peers apart.** Take peers that differ in family, port or address.
Whatever the runs, the service answers for an identifier registered from the one with other
bytes than for the same identifier registered from the other, unless both are of the sixth
version with one port, one flow information and one first half of the address. -/
theorem reply_identifies_iff (u : UID) (p q : Peer) (h : p.Differ q) :
    (∀ b b', Answered u p b → Answered u q b' → b ≠ b') ↔ ¬ p.Alike q := by
  rw [← Peer.sockaddr_eq_iff h]
  constructor
  · intro hne heq
    exact hne _ _ (answered_sockaddr u p) (answered_sockaddr u q) heq
  · intro hne b b' hb hb'
    rw [eq_of_answered hb, eq_of_answered hb']
    exact hne

/-- Two hosts of one network, `2001:db8::1` and `2001:db8::2`, with port 2000. -/
def hostA : Peer :=
  .v6 ⟨[7, 208], rfl⟩ ⟨[0, 0, 0, 0], rfl⟩
    ⟨[32, 1, 13, 184, 0, 0, 0, 0, 0, 0, 0, 0, 0, 0, 0, 1], rfl⟩ ⟨[0, 0, 0, 0], rfl⟩
def hostB : Peer :=
  .v6 ⟨[7, 208], rfl⟩ ⟨[0, 0, 0, 0], rfl⟩
    ⟨[32, 1, 13, 184, 0, 0, 0, 0, 0, 0, 0, 0, 0, 0, 0, 2], rfl⟩ ⟨[0, 0, 0, 0], rfl⟩

/-- A host of another network. -/
def hostC : Peer :=
  .v6 ⟨[7, 208], rfl⟩ ⟨[0, 0, 0, 0], rfl⟩
    ⟨[32, 1, 13, 184, 0, 0, 0, 1, 0, 0, 0, 0, 0, 0, 0, 1], rfl⟩ ⟨[0, 0, 0, 0], rfl⟩

theorem reply_identifies_iff_hostC :
    ∃ b b', Answered (UID.ofBytes [1]) hostA b ∧ Answered (UID.ofBytes [1]) hostC b' ∧ b ≠ b' := by
  have hA := answered_sockaddr (UID.ofBytes [1]) hostA
  have hC := answered_sockaddr (UID.ofBytes [1]) hostC
  have hne := (reply_identifies_iff (UID.ofBytes [1]) hostA hostC (by decide)).mpr
    fun h => absurd h.2.2 (by decide)
  exact ⟨_, _, hA, hC, hne _ _ hA hC⟩

/-- Hosts of one network are answered for with the same bytes. -/
theorem reply_confuses_hosts : hostA.Differ hostB ∧
    ∃ b, Answered (UID.ofBytes [1]) hostA b ∧ Answered (UID.ofBytes [1]) hostB b := by
  have heq : hostB.sockaddr = hostA.sockaddr := by decide
  exact ⟨by decide, hostA.sockaddr, answered_sockaddr _ hostA, heq ▸ answered_sockaddr _ hostB⟩

end SimplePresence.Peername
