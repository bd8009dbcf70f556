import SimplePresence.Address

/-!
From the command line to the sockets.

Either program has one argument of the form `host:port`. `main` splits it, `run` hands the two
parts to a setter, and then copies the verbosity into the object. The objects keep addresses in
sixteen bytes, so an address of the sixth version reaches the members behind it: what is bound
to, or handed over to be sent to, depends on which of them are written afterwards. The client is
always bound to an address of the fourth version, and its socket has no use for one of the sixth.
-/

namespace SimplePresence.CommandLine

open SimplePresence.Block SimplePresence.Record SimplePresence.Record.Object
open SimplePresence.Peername SimplePresence.Setters SimplePresence.Numeral
open SimplePresence.Construct SimplePresence.Address

def errCodeCommandLine : ℤ := -5000

/-- The text `*`. -/
def anyInterface : List UInt8 := [42]

/-- What the argument parser finds. -/
structure SvcArgs where
  interfaceNPort : Option (List UInt8)
  verbose : ℕ
  help : ℕ
  nerrors : ℕ

structure CliSvcDescriptorNParams where
  intf : List UInt8
  port : UInt16
  verbose : ℕ
  deriving DecidableEq, Repr

/-- The parameters before `main`. -/
def CliSvcDescriptorNParams.init : CliSvcDescriptorNParams := ⟨[], 2024, 0⟩

/-- `main` of the service up to `run`, or the code it returns with. -/
def svcMain (w : LongSize) (args : SvcArgs) : Except ℤ CliSvcDescriptorNParams :=
  let cli := CliSvcDescriptorNParams.init
  let cli := { cli with verbose := args.verbose }
  let cli :=
    match args.interfaceNPort with
    | some sval =>
      let r := splitAddress w cli.intf cli.port sval
      { cli with intf := r.2.1, port := r.2.2 }
    | none => { cli with intf := anyInterface, port := 2024 }
  if args.help ≠ 0 ∨ args.nerrors ≠ 0 then .error errCodeCommandLine else .ok cli

/-- `run` of the service up to that of the listener. -/
def svcRun (R : Resolver) (cli : CliSvcDescriptorNParams) (server : Object UVListener) :
    Object UVListener :=
  let server := UVListener.setAddress R cli.intf cli.port server
  server.store (UVListener.offset .verbose) (longBytes .four cli.verbose)

/-- What `uv_tcp_bind` and `uv_udp_bind` are pointed to. -/
def boundTo (server : Object UVListener) : List UInt8 :=
  server.bytes.drop (UVListener.offset .serviceAddress)

/-! ### The client -/

structure ClientDescriptorNParams where
  remoteAddress : List UInt8
  remotePort : UInt16
  localPort : UInt16
  verbose : ℕ
  deriving DecidableEq, Repr

def ClientDescriptorNParams.init : ClientDescriptorNParams := ⟨[], 2024, 2025, 0⟩

section

variable {rest : ℕ}

/-- What `uv_udp_send` is pointed to by `onTimer`. -/
def pingTarget (client : Object (UVClient rest)) : List UInt8 :=
  client.bytes.drop ((UVClient rest).offset .remoteAddress)

end

/-- Bytes say one endpoint. -/
lemma endpoint_unique {e e' : Endpoint} {mem : List UInt8} (h : e.At mem) (h' : e'.At mem) :
    e = e' := by
  have hself := sameSocketAddress_at h h
  rw [sameSocketAddress_at h h'] at hself
  simpa using hself

/-- An endpoint stays where nothing is written. -/
lemma at_store_of_disjoint {M : Type*} {L : Layout M} {e : Endpoint} {o : Object L} {p off : ℕ}
    {bs : List UInt8} (h : e.At (o.bytes.drop p)) (hoff : off + bs.length ≤ p ∨ p + e.span ≤ off) :
    e.At ((o.store off bs).bytes.drop p) := by
  obtain ⟨hspan, hip⟩ := e.span_eq
  have hread : ∀ a n, a + n ≤ e.span →
      read ((o.store off bs).bytes.drop p) a n = read (o.bytes.drop p) a n := by
    intro a n hn
    rw [read_drop, read_drop]
    rcases hoff with hle | hge
    · exact read_write_of_le (by omega) n
    · exact read_write_of_ge (by omega)
  refine ⟨?_, ?_, ?_⟩
  · rw [hread 0 2 (by omega)]
    exact h.family
  · rw [hread 2 2 (by omega)]
    exact h.port
  · rw [hread _ _ hspan.le]
    exact h.ip

/-- A write within the internet address of the sixth version is one of another address. -/
lemma at_store_ip6 {M : Type*} {L : Layout M} {ip : Octets 16} {port : UInt16} {o : Object L}
    {p d : ℕ} {bs : List UInt8} (h : (Endpoint.v6 ip port).At (o.bytes.drop p)) :
    (Endpoint.v6 ⟨write ip.bytes d bs, (length_write _ _ _).trans ip.size⟩ port).At
      ((o.store (p + (8 + d)) bs).bytes.drop p) := by
  obtain ⟨hfamily, hport, hip⟩ := h
  have hlen : (write ip.bytes d bs).length = ip.bytes.length := length_write _ _ _
  rw [read_drop] at hfamily hport hip
  refine ⟨?_, ?_, ?_⟩
  · rw [read_drop]
    exact (read_write_of_ge (by omega)).trans hfamily
  · rw [read_drop]
    exact (read_write_of_ge (by omega)).trans hport
  · rw [read_drop]
    show read (write o.bytes (p + (8 + d)) bs) (p + 8) (write ip.bytes d bs).length =
      write ip.bytes d bs
    have hsub : p + (8 + d) - (p + 8) = d := by omega
    rw [read_write_of_start _ _ (by omega), hlen, hsub]
    exact congrArg (fun l => write l d bs) hip

/-! ### What the service is bound to -/

lemma svcMain_text (w : LongSize) (host : List UInt8) (r : Radix) (port : UInt16) (verbose : ℕ) :
    svcMain w ⟨some (host ++ colon :: r.write port.toNat), verbose, 0, 0⟩ =
      .ok ⟨host, port, verbose⟩ := by
  unfold svcMain
  dsimp only
  rw [splitAddress_write]
  rfl

lemma length_intBytes (n : ℕ) : (longBytes .four n).length = 4 := length_longBytes .four n

/-- A structure stored as a whole says what it said. -/
lemma at_store_whole {n : ℕ} {a : Octets n} {e : Endpoint} (ha : e.At a.bytes) (hn : e.span ≤ n)
    {M : Type*} {L : Layout M} {p : ℕ} (o : Object L) (hroom : p + n ≤ L.sizeof) :
    e.At ((o.store p a.bytes).bytes.drop p) := by
  obtain ⟨hspan, hip⟩ := e.span_eq
  have hsize := a.size
  have hread : ∀ off m, off + m ≤ e.span →
      read ((o.store p a.bytes).bytes.drop p) off m = read a.bytes off m := by
    intro off m hm
    have hsub : p + off - p = off := Nat.add_sub_cancel_left p off
    rw [read_drop]
    show read (write o.bytes p a.bytes) (p + off) m = read a.bytes off m
    rw [read_write_of_within (by omega) (by omega) (by rw [o.size]; omega), hsub]
  refine ⟨?_, ?_, ?_⟩
  · rw [hread 0 2 (by omega)]
    exact ha.family
  · rw [hread 2 2 (by omega)]
    exact ha.port
  · rw [hread _ _ hspan.le]
    exact ha.ip

section Service

variable {R : Resolver} (host : List UInt8) (port : UInt16) (verbose : ℕ)
  (server : Object UVListener)

/-- The verbosity is written over four bytes of an address of the sixth version. -/
lemma boundTo_v6 (hR : Resolver.Documented R) {ip : Octets 16} (hip : R.inetPton6 host = some ip) :
    (Endpoint.v6 ⟨write ip.bytes 8 (longBytes .four verbose),
      (length_write _ _ _).trans ip.size⟩ port).At
        (boundTo (svcRun R ⟨host, port, verbose⟩ server)) := by
  have hset : UVListener.setAddress R host port server =
      server.store 16 (R.uvIp6Addr host port).bytes := by
    unfold UVListener.setAddress setHost isAddrStringIPv6
    rw [hip]
    rfl
  have hroom : 16 + 28 ≤ UVListener.sizeof := by decide
  have hat := at_store_whole (hR.ip6 host port ip hip) (by show 24 ≤ 28; omega) server hroom
  unfold boundTo svcRun
  rw [hset]
  show Endpoint.At _
    (((server.store 16 _).store (16 + (8 + 8)) (longBytes .four verbose)).bytes.drop 16)
  exact at_store_ip6 hat

/-- An address of the fourth version is not reached by it. -/
lemma boundTo_v4 (h6 : R.inetPton6 host = none) {e : Endpoint}
    (he : e.At (R.uvIp4Addr host port).bytes) (hspan : e.span = 8) :
    e.At (boundTo (svcRun R ⟨host, port, verbose⟩ server)) := by
  have hset : UVListener.setAddress R host port server =
      server.store 16 (R.uvIp4Addr host port).bytes := by
    unfold UVListener.setAddress setHost isAddrStringIPv6
    rw [h6]
    rfl
  have hroom : 16 + 16 ≤ UVListener.sizeof := by decide
  have hat := at_store_whole he (by omega) server hroom
  unfold boundTo svcRun
  rw [hset]
  refine at_store_of_disjoint hat (Or.inr ?_)
  show 16 + e.span ≤ 32
  omega

/-- The pointer to the records is not reached by the verbosity. -/
lemma presence_svcRun : (svcRun R ⟨host, port, verbose⟩ server).member .presence =
    (UVListener.setAddress R host port server).member .presence := by
  have hfit : 0 + (longBytes .four verbose).length ≤ UVListener.size .verbose := by
    rw [length_intBytes]
    exact le_rfl
  exact member_store_of_within (by decide) (by decide) (by decide) hfit

lemma presence_v6 {ip : Octets 16} (hip : R.inetPton6 host = some ip) :
    (svcRun R ⟨host, port, verbose⟩ server).member .presence = server.member .presence ↔
      (server.member .presence).take 4 = read (R.uvIp6Addr host port).bytes 24 4 := by
  have hset : UVListener.setAddress R host port server =
      server.store 16 (R.uvIp6Addr host port).bytes := by
    unfold UVListener.setAddress setHost isAddrStringIPv6
    rw [hip]
    rfl
  have hlen : (read (R.uvIp6Addr host port).bytes 24 8).length = 4 := by
    rw [length_read, (R.uvIp6Addr host port).size]
    rfl
  have hin : 40 + 8 ≤ server.bytes.length := by
    rw [server.size]
    decide
  rw [presence_svcRun, hset, ← read_prefix_iff hlen]
  exact read_write_eq_iff (by show 16 ≤ 40; omega) hin

lemma presence_v4 (h6 : R.inetPton6 host = none) :
    (svcRun R ⟨host, port, verbose⟩ server).member .presence = server.member .presence := by
  have hframe := (frame_setHost_iff neighbours_listener R host port server).mpr fun h => by
    unfold isAddrStringIPv6 at h
    rw [h6] at h
    cases h
  exact (presence_svcRun host port verbose server).trans (hframe .presence (by decide) (by decide))

end Service

/-- **What the service is bound to.** Take a host, a port in any of the three bases, and a
verbosity on the command line. A host of the fourth version is bound to, and one that is no
address means any interface. A host of the sixth version is bound to exactly when four bytes of
its address are those of the verbosity, which is written over them; and the pointer to the
records survives exactly when its lower half is the scope of the address. -/
theorem service_binds_iff {R : Resolver} (hR : Resolver.Documented R) (w : LongSize)
    (host : List UInt8) (r : Radix) (port : UInt16) (verbose : ℕ) (server : Object UVListener) :
    ∃ cli, svcMain w ⟨some (host ++ colon :: r.write port.toNat), verbose, 0, 0⟩ = .ok cli ∧
      (∀ ip, R.inetPton6 host = some ip →
        ((Endpoint.v6 ip port).At (boundTo (svcRun R cli server)) ↔
            read ip.bytes 8 4 = longBytes .four verbose) ∧
          ((svcRun R cli server).member .presence = server.member .presence ↔
            (server.member .presence).take 4 = read (R.uvIp6Addr host port).bytes 24 4)) ∧
      (R.inetPton6 host = none →
        (svcRun R cli server).member .presence = server.member .presence ∧
          (∀ ip, R.inetPton4 host = some ip →
            (Endpoint.v4 ip port).At (boundTo (svcRun R cli server))) ∧
          (R.inetPton4 host = none →
            (Endpoint.v4 (zeroOctets 4) port).At (boundTo (svcRun R cli server)))) := by
  refine ⟨⟨host, port, verbose⟩, svcMain_text w host r port verbose, fun ip hip => ⟨?_, ?_⟩,
    fun h6 => ⟨?_, fun ip hip => ?_, fun h4 => ?_⟩⟩
  · have hbound := boundTo_v6 host port verbose server hR hip
    constructor
    · intro hat
      have heq := congrArg Endpoint.ip (endpoint_unique hat hbound)
      have hfit : 8 + (longBytes .four verbose).length ≤ ip.bytes.length := by
        rw [length_intBytes, ip.size]
        omega
      have hself := read_write_self hfit
      rw [length_intBytes] at hself
      calc read ip.bytes 8 4 = read (write ip.bytes 8 (longBytes .four verbose)) 8 4 :=
            congrArg (fun l => read l 8 4) heq
        _ = longBytes .four verbose := hself
    · intro heq
      have hback : write ip.bytes 8 (longBytes .four verbose) = ip.bytes := by
        rw [← heq]
        exact write_read ip.bytes 8 4
      have hip' : (⟨write ip.bytes 8 (longBytes .four verbose),
          (length_write _ _ _).trans ip.size⟩ : Octets 16) = ip := Octets.ext hback
      rwa [hip'] at hbound
  · exact presence_v6 host port verbose server hip
  · exact presence_v4 host port verbose server h6
  · exact boundTo_v4 host port verbose server h6 (hR.ip4 host port ip hip) rfl
  · exact boundTo_v4 host port verbose server h6 (hR.rejected host port h4) rfl

/-- With the host `2001:db8:1:2:3:4:5:6` and no verbosity, the service is bound elsewhere. -/
theorem service_binds_iff_hostD : ∃ host cli,
    svcMain .eight ⟨some (host ++ colon :: Radix.ten.write 2024), 0, 0, 0⟩ = .ok cli ∧
      ¬ (Endpoint.ofPeer hostD).At (boundTo (svcRun plainNames.toResolver cli (fill _ 0))) := by
  obtain ⟨host, -, hip⟩ := plainNames_documented.ntop6
    ⟨[32, 1, 13, 184, 0, 1, 0, 2, 0, 3, 0, 4, 0, 5, 0, 6], by decide⟩
  obtain ⟨cli, hcli, h6, -⟩ :=
    service_binds_iff plainNames_resolver_documented .eight host .ten 2024 0 (fill _ 0)
  refine ⟨host, cli, hcli, fun hat => ?_⟩
  have hread := (h6 _ hip).1.mp hat
  exact absurd hread (by decide)

/-! ### What the client sends to -/

section Client

variable {rest : ℕ}

/-- The local address and the verbosity lie before the remote address. -/
lemma remoteAddress_room (rest : ℕ) : (UVClient rest).offset .remoteAddress = 52 ∧
    (UVClient rest).offset .servaddr = 16 ∧ (UVClient rest).offset .verbose = 32 ∧
    52 + 24 ≤ (UVClient rest).sizeof := by
  have hsocket := Layout.offset_add_size_le (mem_members rest .udpSocket)
  have hsize : (UVClient rest).size .udpSocket = 8 + rest := rfl
  rw [offset_client, hsize] at hsocket
  dsimp only at hsocket
  exact ⟨offset_client rest _, offset_client rest _, offset_client rest _, by omega⟩

end Client

end SimplePresence.CommandLine
