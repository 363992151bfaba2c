import CiliumMini.Ebpf.Classifier

/-!
# What the classifier is for

A `DnsFrame` is an Ethernet frame with a UDP datagram from port 53: an Ethernet header, an IPv4 or
IPv6 header, a UDP header and a payload. The program submits one event for a packet that is such a
frame, if the ring buffer has room, and nothing for any other packet (`dnsTc_spec`).

The packet accesses are reduced to the bytes of the packet first (`ptrAt_eq`, `load_eq`,
`copyLoop_spec`), then `parse_udp` and `try_dns_tc` are run on a frame and on everything else.
-/

namespace CiliumMini

open Exec

/-! ## Frames -/

/-- An IP header in front of a UDP datagram. An IPv4 header is 20 bytes and as many bytes of options
as its first byte says. -/
inductive IpHeader where
  | v4 (fixed : Octets ipv4HdrLen) (options : List UInt8)
      (length_eq : ipv4HdrLen + options.length = 4 * (beAt fixed 0 1 % 16))
      (proto_eq : beAt fixed 9 1 = 17)
  | v6 (hdr : Octets ipv6HdrLen) (next_eq : beAt hdr 6 1 = 17)

namespace IpHeader

/-- The header on the wire. -/
def bytes : IpHeader → List UInt8
  | v4 fixed options _ _ => fixed.toList ++ options
  | v6 hdr _ => hdr.toList

/-- The ether type that announces the header. -/
def etherType : IpHeader → ℕ
  | v4 .. => 0x0800
  | v6 .. => 0x86DD

/-- The source address. -/
def src : IpHeader → RawIpAddr
  | v4 fixed _ _ _ => .fromIpv4 (fieldAt fixed 12 4 (by decide))
  | v6 hdr _ => .fromIpv6 (fieldAt hdr 8 16 (by decide))

/-- The destination address. -/
def dst : IpHeader → RawIpAddr
  | v4 fixed _ _ _ => .fromIpv4 (fieldAt fixed 16 4 (by decide))
  | v6 hdr _ => .fromIpv6 (fieldAt hdr 24 16 (by decide))

end IpHeader

/-- An Ethernet frame with a non-empty UDP datagram from port 53. -/
structure DnsFrame where
  eth : Octets ethHdrLen
  ip : IpHeader
  udp : Octets udpHdrLen
  payload : List UInt8
  etherType_eq : beAt eth 12 2 = ip.etherType
  srcPort_eq : beAt udp 0 2 = 53
  payload_ne_nil : payload ≠ []

/-- The frame on the wire. -/
def DnsFrame.encode (f : DnsFrame) : List UInt8 :=
  f.eth.toList ++ (f.ip.bytes ++ (f.udp.toList ++ f.payload))

/-- The event tells the addresses, families and ports of the frame, and up to 512 bytes of its
payload. -/
structure DnsFrame.Describes (f : DnsFrame) (ev : RawDnsEvent) : Prop where
  srcIp : ev.srcIp = f.ip.src
  dstIp : ev.dstIp = f.ip.dst
  srcPort : ev.srcPort.toNat = 53
  dstPort : ev.dstPort.toNat = beAt f.udp 2 2
  payloadLen : ev.payloadLen.toNat = min maxDnsPayloadSize f.payload.length
  payload : ev.message = f.payload.take maxDnsPayloadSize

/-- The fields of an event that are filled from a datagram between `src` and `dst`. -/
structure RawDnsEvent.FilledFrom (ev : RawDnsEvent) (src dst : RawIpAddr) (udp : Octets udpHdrLen)
    (payload : List UInt8) (endTs : UInt64) : Prop where
  srcIp : ev.srcIp = src
  dstIp : ev.dstIp = dst
  srcPort : ev.srcPort.toNat = 53
  dstPort : ev.dstPort.toNat = beAt udp 2 2
  payloadLen : ev.payloadLen.toNat = min maxDnsPayloadSize payload.length
  message : ev.message = payload.take maxDnsPayloadSize
  timestampNs : ev.timestampNs = endTs

/-- An event that is filled from the parts of a frame describes the frame. -/
theorem RawDnsEvent.FilledFrom.describes {ev : RawDnsEvent} {f : DnsFrame} {endTs : UInt64}
    (h : ev.FilledFrom f.ip.src f.ip.dst f.udp f.payload endTs) : f.Describes ev :=
  ⟨h.srcIp, h.dstIp, h.srcPort, h.dstPort, h.payloadLen, h.message⟩

/-! ## Packet accesses -/

section Access

variable {ctx : TcContext}

/-- `ptr_at` is the check that the type ends inside the packet. -/
theorem ptrAt_eq {offset len : ℕ} (h : offset + len < 4096) :
    ptrAt ctx offset len =
      if offset + len ≤ ctx.packet.length then .ok (ctx.data + offset) else .err () := by
  have hle := ctx.data_le
  rw [ptrAt, usizeAdd_eq (by omega), Outcome.ok_bind, usizeAdd_eq (by omega), Outcome.ok_bind]
  by_cases hin : offset + len ≤ ctx.packet.length
  · rw [if_pos hin, failIf_neg (by unfold TcContext.dataEnd; omega), Outcome.ok_bind]
  · rw [if_neg hin, failIf_pos (by unfold TcContext.dataEnd; omega), Outcome.err_bind]

/-- A load inside the packet reads the bytes that are there. -/
theorem load_eq {offset n : ℕ} (h : offset + n ≤ ctx.packet.length) :
    ctx.load (ctx.data + offset) n = .ok (octetsAt ctx.packet offset n h) := by
  have hin : ctx.data ≤ ctx.data + offset ∧ ctx.data + offset + n ≤ ctx.dataEnd := by
    unfold TcContext.dataEnd
    omega
  rw [TcContext.load, dif_pos hin]
  simp only [Nat.add_sub_cancel_left]

/-- The bytes from an offset on: those of one field, then the rest. -/
theorem drop_eq_octetsAt {b : List UInt8} {off n : ℕ} (h : off + n ≤ b.length) :
    b.drop off = (octetsAt b off n h).toList ++ b.drop (off + n) := by
  rw [← List.drop_drop]
  exact (List.take_append_drop n (b.drop off)).symm

theorem head_octetsAt {b : List UInt8} {off i : ℕ} (h : off + i + 1 ≤ b.length)
    (hi : i < (b.drop off).length) : (octetsAt b (off + i) 1 h).head = (b.drop off)[i] := by
  have hone : [(octetsAt b (off + i) 1 h).head] = [(b.drop off)[i]] := by
    rw [← List.Vector.toList_singleton]
    show (b.drop (off + i)).take 1 = _
    rw [← List.drop_drop, List.drop_eq_getElem_cons hi]
    rfl
  exact List.head_eq_of_cons_eq hone

/-- The copy loop at index `i`, where the first `i` bytes are in place: it ends with the first 512
bytes in place, or with all there are. -/
theorem copyLoop_spec (ctx : TcContext) {payloadOffset : ℕ} (hoff : payloadOffset ≤ 1000) (n : ℕ) :
    ∀ (i : ℕ) (payload : Octets maxDnsPayloadSize) (copiedLen : UInt16),
      i + n = maxDnsPayloadSize → copiedLen.toNat = i →
      i ≤ (ctx.packet.drop payloadOffset).length →
      payload.toList.take i = (ctx.packet.drop payloadOffset).take i →
      ∃ payload' copiedLen', copyLoop ctx payloadOffset n i payload copiedLen =
          .ok (payload', copiedLen') ∧
        copiedLen'.toNat = min maxDnsPayloadSize (ctx.packet.drop payloadOffset).length ∧
        payload'.toList.take copiedLen'.toNat =
          (ctx.packet.drop payloadOffset).take maxDnsPayloadSize := by
  have hle := ctx.data_le
  have hmax : maxDnsPayloadSize = 512 := rfl
  induction n with
  | zero =>
    intro i payload copiedLen hi hcopied hlen htake
    refine ⟨payload, copiedLen, rfl, by omega, ?_⟩
    rw [hcopied, htake]
    congr 1
  | succ n ih =>
    intro i payload copiedLen hi hcopied hlen htake
    rw [List.length_drop] at hlen
    rw [copyLoop, usizeAdd_eq (by omega), Outcome.ok_bind, usizeAdd_eq (by omega), Outcome.ok_bind,
      usizeAdd_eq (by omega), Outcome.ok_bind]
    by_cases hend : ctx.data + (payloadOffset + i) + 1 > ctx.dataEnd
    · -- all bytes of the packet are copied
      have hall : (ctx.packet.drop payloadOffset).length = i := by
        rw [List.length_drop]
        unfold TcContext.dataEnd at hend
        omega
      rw [if_pos hend]
      refine ⟨payload, copiedLen, rfl, by omega, ?_⟩
      rw [hcopied, htake, List.take_of_length_le hall.le, List.take_of_length_le (by omega)]
    · -- byte `i` is copied and counted, and the invariant holds at `i + 1`
      have hin : payloadOffset + i + 1 ≤ ctx.packet.length := by
        unfold TcContext.dataEnd at hend
        omega
      have hstore : i < maxDnsPayloadSize := by omega
      rw [if_neg hend, load_eq hin, Outcome.ok_bind, storeAt, dif_pos hstore, Outcome.ok_bind,
        u16Add, if_pos (by rw [hcopied]; simp; omega), Outcome.ok_bind]
      have hrest : i < (ctx.packet.drop payloadOffset).length := by
        rw [List.length_drop]
        omega
      refine ih (i + 1) _ _ (by omega) ?_ hrest ?_
      · rw [UInt16.toNat_add, hcopied]
        simp
        omega
      · have hlist : i < payload.toList.length := by
          rw [payload.toList_length]
          exact hstore
        rw [List.Vector.toList_set, List.take_add_one, List.take_add_one,
          List.take_set_of_le le_rfl, htake, List.getElem?_set_self hlist,
          List.getElem?_eq_getElem hrest, head_octetsAt hin hrest]

end Access

/-! ## Running the program -/

section Run

variable {net : NetworkTypes} {kernel : KernelAnswers} {ctx : TcContext} {before : List RawDnsEvent}

/-- A UDP header at `offset` with source port 53 and at least one byte behind it. -/
def DnsUdpAt (packet : List UInt8) (offset : ℕ) : Prop :=
  ∃ h : offset + udpHdrLen ≤ packet.length, beAt (octetsAt packet offset udpHdrLen h) 0 2 = 53 ∧
    packet.drop (offset + udpHdrLen) ≠ []

/-- The port check looks at the first two bytes of the UDP header. -/
theorem srcPort_ne_iff (hdr : Octets udpHdrLen) :
    net.srcPort hdr ≠ dnsPort ↔ beAt hdr 0 2 ≠ 53 := by
  rw [← net.srcPort_eq hdr, ne_eq, ne_eq, ← UInt16.toNat_inj]
  rfl

/-- The run submits nothing and does not panic. -/
def Skips (m : Exec (List RawDnsEvent) Unit Int32) (before : List RawDnsEvent) : Prop :=
  ∃ out, (out = .ok tcActOk ∨ out = .err ()) ∧ m.run before = (out, before)

/-- A program that only returns submits nothing. -/
theorem skips_pure : Skips (pure tcActOk) before := ⟨_, Or.inl rfl, rfl⟩

/-- A check that succeeds changes nothing. -/
theorem skips_lift_ok {α : Type} {m : Outcome Unit α} {a : α} (h : m = .ok a)
    (f : α → Exec (List RawDnsEvent) Unit Int32) :
    Skips (lift m >>= f) before ↔ Skips (f a) before := by
  unfold Skips
  rw [run_lift_bind_ok h]

/-- A check that fails ends the program without an event. -/
theorem skips_lift_err {α : Type} {m : Outcome Unit α} (h : m = .err ())
    (f : α → Exec (List RawDnsEvent) Unit Int32) : Skips (lift m >>= f) before :=
  ⟨.err (), Or.inr rfl, run_lift_bind_err h f before⟩

/-- A part that submits nothing, with its result dropped. -/
theorem Skips.then_ok {m : Exec (List RawDnsEvent) Unit Int32} (h : Skips m before) :
    Skips (do let _ ← m; return tcActOk) before := by
  obtain ⟨out, rfl | rfl, hrun⟩ := h
  · exact ⟨.ok tcActOk, Or.inl rfl, by rw [run_bind_ok hrun, run_pure]⟩
  · exact ⟨.err (), Or.inr rfl, by rw [run_bind_err hrun]⟩

/-- Without a datagram from port 53, or without room, `parse_udp` submits nothing. -/
theorem parseUdp_skips {offset : ℕ} (hoff : offset ≤ 100)
    (h : kernel.reserved = none ∨ ¬ DnsUdpAt ctx.packet offset) (src dst : RawIpAddr) :
    Skips (parseUdp net kernel ctx offset src dst) before := by
  have hle := ctx.data_le
  have hudp : udpHdrLen = 8 := rfl
  by_cases hlen : offset + udpHdrLen ≤ ctx.packet.length
  · rw [parseUdp, skips_lift_ok (by rw [ptrAt_eq (by omega), if_pos hlen]),
      skips_lift_ok (load_eq hlen)]
    by_cases hport : net.srcPort (octetsAt ctx.packet offset udpHdrLen hlen) ≠ dnsPort
    · rw [if_pos hport]
      exact skips_pure
    rw [if_neg hport, skips_lift_ok (usizeAdd_eq (by omega)),
      skips_lift_ok (usizeAdd_eq (by omega))]
    by_cases havail : ctx.dataEnd - (ctx.data + (offset + udpHdrLen)) = 0
    · rw [if_pos havail]
      exact skips_pure
    rw [if_neg havail]
    -- every test of the program is passed, so only the reservation can have failed
    have hat : DnsUdpAt ctx.packet offset := by
      refine ⟨hlen, not_not.mp fun hne => hport ((srcPort_ne_iff _).mpr hne), ?_⟩
      rw [ne_eq, List.drop_eq_nil_iff]
      unfold TcContext.dataEnd at havail
      omega
    rw [h.resolve_right (not_not.mpr hat)]
    exact skips_pure
  · rw [parseUdp]
    exact skips_lift_err (by rw [ptrAt_eq (by omega), if_neg hlen]) _

variable (net before) in
/-- On a datagram from port 53 and with room, `parse_udp` submits one event. -/
theorem parseUdp_submits {offset : ℕ} (hoff : offset ≤ 100) {old : RawDnsEvent}
    (hroom : kernel.reserved = some old) {udp : Octets udpHdrLen} {payload : List UInt8}
    (hudp : ctx.packet.drop offset = udp.toList ++ payload) (hport : beAt udp 0 2 = 53)
    (hne : payload ≠ []) (src dst : RawIpAddr) :
    ∃ ev, (parseUdp net kernel ctx offset src dst).run before = (.ok tcActOk, before ++ [ev]) ∧
      ev.FilledFrom src dst udp payload kernel.endTs := by
  have hle := ctx.data_le
  have hcut : ctx.packet.length - offset = udpHdrLen + payload.length := by
    rw [← List.length_drop, hudp, List.length_append, udp.toList_length]
  have hpos : 0 < payload.length := List.length_pos_iff.mpr hne
  have hudpLen : udpHdrLen = 8 := rfl
  have hlen : offset + udpHdrLen ≤ ctx.packet.length := by omega
  have hhdr : octetsAt ctx.packet offset udpHdrLen hlen = udp := by
    apply List.Vector.eq
    show (ctx.packet.drop offset).take udpHdrLen = _
    rw [hudp, List.take_left' udp.toList_length]
  have hrest : ctx.packet.drop (offset + udpHdrLen) = payload := by
    rw [← List.drop_drop, hudp, List.drop_left' udp.toList_length]
  have hnotskip : ¬ net.srcPort udp ≠ dnsPort := by
    rw [srcPort_ne_iff]
    exact not_not.mpr hport
  have havail : ¬ ctx.dataEnd - (ctx.data + (offset + udpHdrLen)) = 0 := by
    unfold TcContext.dataEnd
    omega
  obtain ⟨bytes, copied, hcopy, hcount, hbytes⟩ :=
    copyLoop_spec ctx (show offset + udpHdrLen ≤ 1000 by omega) maxDnsPayloadSize 0 old.payload 0
      (Nat.zero_add _) rfl (Nat.zero_le _) rfl
  rw [hrest] at hcount hbytes
  refine ⟨{ old with
    srcIp := src, dstIp := dst, srcPort := net.srcPort udp, dstPort := net.dstPort udp
    payload := bytes, payloadLen := copied, timestampNs := kernel.endTs }, ?_,
    ⟨rfl, rfl, ?_, ?_, hcount, hbytes, rfl⟩⟩
  · rw [parseUdp, run_lift_bind_ok (by rw [ptrAt_eq (by omega), if_pos hlen]),
      run_lift_bind_ok (load_eq hlen), hhdr, if_neg hnotskip,
      run_lift_bind_ok (usizeAdd_eq (by omega)), run_lift_bind_ok (usizeAdd_eq (by omega)),
      if_neg havail, hroom]
    simp only
    rw [run_lift_bind_ok hcopy]
    rfl
  · rw [net.srcPort_eq, hport]
  · rw [net.dstPort_eq]

/-- The header length is checked against its minimum; the maximum cannot be exceeded. -/
theorem getIpv4HeaderLen_eq (hdr : Octets ipv4HdrLen) :
    getIpv4HeaderLen net hdr =
      if 20 ≤ 4 * (beAt hdr 0 1 % 16) then .ok (4 * (beAt hdr 0 1 % 16)) else .err () := by
  have hnibble : beAt hdr 0 1 % 16 < 16 := Nat.mod_lt _ (by decide)
  have hmin : ipv4MinHdrLen = 20 := rfl
  have hmax : ipv4MaxHdrLen = 60 := rfl
  rw [getIpv4HeaderLen, net.ihl_eq]
  split
  · rw [failIf_neg (by omega)]
    rfl
  · rw [failIf_pos (by omega)]
    rfl

/-- No IP header that `ty` announces is followed by a datagram from port 53. -/
def NoDnsBehind (packet : List UInt8) (ty : ℕ) : Prop :=
  ∀ (ip : IpHeader) (rest : List UInt8), ip.etherType = ty →
    packet.drop ethHdrLen = ip.bytes ++ rest → ¬ DnsUdpAt packet (ethHdrLen + ip.bytes.length)

/-- How both arms end: unless the protocol is UDP and a datagram from port 53 follows the header,
nothing is submitted. -/
theorem protoArm_skips {proto : Option IpProto} {hdrLen : ℕ} (hle : hdrLen ≤ 60)
    (h : kernel.reserved = none ∨
      (proto = some .udp → ¬ DnsUdpAt ctx.packet (ethHdrLen + hdrLen))) (src dst : RawIpAddr) :
    Skips (do
      match ← lift (knownProto proto) with
      | .udp => do
        let offset ← lift (usizeAdd ethHdrLen hdrLen)
        let _ ← parseUdp net kernel ctx offset src dst
        return tcActOk
      | .other => return tcActOk) before := by
  have heth : ethHdrLen = 14 := rfl
  cases proto with
  | none => exact skips_lift_err rfl _
  | some p =>
    rw [skips_lift_ok (m := knownProto (some p)) rfl]
    cases p with
    | other => exact skips_pure
    | udp =>
      show Skips (lift (usizeAdd ethHdrLen hdrLen) >>= _) before
      rw [skips_lift_ok (usizeAdd_eq (by omega))]
      apply Skips.then_ok
      apply parseUdp_skips (by omega)
      exact h.imp_right fun hnone => hnone rfl

/-- Without a reserved record, or without a frame, the IPv4 arm submits nothing. -/
theorem ipv4Arm_skips (h : kernel.reserved = none ∨ NoDnsBehind ctx.packet 0x0800) :
    Skips (ipv4Arm net kernel ctx) before := by
  have heth : ethHdrLen = 14 := rfl
  have hip : ipv4HdrLen = 20 := rfl
  by_cases hlen : ethHdrLen + ipv4HdrLen ≤ ctx.packet.length
  · rw [ipv4Arm, ipv4ArmOver, skips_lift_ok (by rw [ptrAt_eq (by omega), if_pos hlen]),
      skips_lift_ok (load_eq hlen)]
    have hsplit := drop_eq_octetsAt hlen
    generalize octetsAt ctx.packet ethHdrLen ipv4HdrLen hlen = fixed at hsplit ⊢
    have hnibble : beAt fixed 0 1 % 16 < 16 := Nat.mod_lt _ (by decide)
    by_cases hihl : 20 ≤ 4 * (beAt fixed 0 1 % 16)
    · rw [skips_lift_ok (by rw [getIpv4HeaderLen_eq, if_pos hihl])]
      apply protoArm_skips (by omega)
      apply h.imp_right
      intro hnone hproto hat
      -- the bytes up to the UDP header are options
      obtain ⟨hudp, -⟩ := id hat
      obtain ⟨n, hn⟩ : ∃ n, 4 * (beAt fixed 0 1 % 16) = ipv4HdrLen + n :=
        ⟨4 * (beAt fixed 0 1 % 16) - 20, by omega⟩
      have hoptions : ((ctx.packet.drop (ethHdrLen + ipv4HdrLen)).take n).length = n := by
        rw [List.length_take, List.length_drop]
        omega
      have hbytes : (IpHeader.v4 fixed ((ctx.packet.drop (ethHdrLen + ipv4HdrLen)).take n)
          (by rw [hoptions, hn]) ((net.ipv4Proto_udp fixed).mp hproto)).bytes.length =
          4 * (beAt fixed 0 1 % 16) := by
        rw [IpHeader.bytes, List.length_append, fixed.toList_length, hoptions, hn]
      refine hnone (.v4 fixed _ _ _) ((ctx.packet.drop (ethHdrLen + ipv4HdrLen)).drop n) rfl ?_
        (hbytes.symm ▸ hat)
      rw [IpHeader.bytes, hsplit, List.append_assoc, List.take_append_drop]
    · exact skips_lift_err (by rw [getIpv4HeaderLen_eq, if_neg hihl]) _
  · rw [ipv4Arm, ipv4ArmOver]
    exact skips_lift_err (by rw [ptrAt_eq (by omega), if_neg hlen]) _

/-- The same for the IPv6 arm. -/
theorem ipv6Arm_skips (h : kernel.reserved = none ∨ NoDnsBehind ctx.packet 0x86DD) :
    Skips (ipv6Arm net kernel ctx) before := by
  have heth : ethHdrLen = 14 := rfl
  have hip : ipv6HdrLen = 40 := rfl
  by_cases hlen : ethHdrLen + ipv6HdrLen ≤ ctx.packet.length
  · rw [ipv6Arm, ipv6ArmOver, skips_lift_ok (by rw [ptrAt_eq (by omega), if_pos hlen]),
      skips_lift_ok (load_eq hlen)]
    have hsplit := drop_eq_octetsAt hlen
    generalize octetsAt ctx.packet ethHdrLen ipv6HdrLen hlen = hdr at hsplit ⊢
    apply protoArm_skips (by omega)
    apply h.imp_right
    intro hnone hnext hat
    refine hnone (.v6 hdr ((net.ipv6NextHdr_udp hdr).mp hnext)) _ rfl hsplit ?_
    rw [IpHeader.bytes, hdr.toList_length]
    exact hat
  · rw [ipv6Arm, ipv6ArmOver]
    exact skips_lift_err (by rw [ptrAt_eq (by omega), if_neg hlen]) _

variable (net before) in
/-- A packet that is no frame, or a full ring buffer: nothing is submitted. -/
theorem tryDnsTc_skips (h : kernel.reserved = none ∨ ∀ f : DnsFrame, ctx.packet ≠ f.encode) :
    Skips (tryDnsTc net kernel ctx) before := by
  have heth : ethHdrLen = 14 := rfl
  by_cases hlen : 0 + ethHdrLen ≤ ctx.packet.length
  · rw [tryDnsTc, tryDnsTcOver, skips_lift_ok (by rw [ptrAt_eq (by omega), if_pos hlen]),
      skips_lift_ok (load_eq hlen)]
    have hsplit := drop_eq_octetsAt hlen
    rw [List.drop_zero, Nat.zero_add] at hsplit
    generalize octetsAt ctx.packet 0 ethHdrLen hlen = eth at hsplit ⊢
    -- a header and a datagram that fit the ether type would make the packet a frame
    have hbehind : ∀ ty, beAt eth 12 2 = ty →
        kernel.reserved = none ∨ NoDnsBehind ctx.packet ty := by
      intro ty hty
      apply h.imp_right
      intro hnone ip rest hip hdrop hat
      obtain ⟨hudp, hport, hne⟩ := hat
      refine hnone
        ⟨eth, ip, octetsAt ctx.packet _ udpHdrLen hudp, _, hty.trans hip.symm, hport, hne⟩ ?_
      have hrest : ctx.packet.drop (ethHdrLen + ip.bytes.length) = rest := by
        rw [← List.drop_drop, hdrop, List.drop_left]
      rw [DnsFrame.encode, ← drop_eq_octetsAt hudp, hrest, ← hdrop]
      exact hsplit
    cases htype : net.etherType eth with
    | none => exact skips_pure
    | some ty =>
      cases ty with
      | other => exact skips_pure
      | ipv4 => exact ipv4Arm_skips (hbehind _ ((net.etherType_ipv4 eth).mp htype))
      | ipv6 => exact ipv6Arm_skips (hbehind _ ((net.etherType_ipv6 eth).mp htype))
  · rw [tryDnsTc, tryDnsTcOver]
    exact skips_lift_err (by rw [ptrAt_eq (by omega), if_neg hlen]) _

/-- A header at its place in the packet is what `ptr_at` and a load return. -/
theorem octetsAt_of_drop {packet rest : List UInt8} {off n : ℕ} {hdr : Octets n}
    (h : packet.drop off = hdr.toList ++ rest) (hle : off + n ≤ packet.length) :
    octetsAt packet off n hle = hdr := by
  apply List.Vector.eq
  show (packet.drop off).take n = _
  rw [h, List.take_left' hdr.toList_length]

/-- A header that is found at an offset ends inside the packet. -/
theorem le_of_drop {packet rest : List UInt8} {off n : ℕ} {hdr : Octets n}
    (h : packet.drop off = hdr.toList ++ rest) (hn : 0 < n) : off + n ≤ packet.length := by
  have hlen := congrArg List.length h
  rw [List.length_drop, List.length_append, hdr.toList_length] at hlen
  omega

/-- Behind an Ethernet header, the arm of the frame's IP version submits its event. -/
theorem ipv4Arm_submits {old : RawDnsEvent} (hroom : kernel.reserved = some old)
    {fixed : Octets ipv4HdrLen} {options : List UInt8} {udp : Octets udpHdrLen}
    {payload : List UInt8}
    (hdrop : ctx.packet.drop ethHdrLen = fixed.toList ++ (options ++ (udp.toList ++ payload)))
    (hlength : ipv4HdrLen + options.length = 4 * (beAt fixed 0 1 % 16))
    (hproto : beAt fixed 9 1 = 17) (hport : beAt udp 0 2 = 53) (hne : payload ≠ []) :
    ∃ ev, (ipv4Arm net kernel ctx).run before = (.ok tcActOk, before ++ [ev]) ∧
      ev.FilledFrom (.fromIpv4 (fieldAt fixed 12 4 (by decide)))
        (.fromIpv4 (fieldAt fixed 16 4 (by decide))) udp payload kernel.endTs := by
  have heth : ethHdrLen = 14 := rfl
  have hip : ipv4HdrLen = 20 := rfl
  have hnibble : beAt fixed 0 1 % 16 < 16 := Nat.mod_lt _ (by decide)
  have hlen := le_of_drop hdrop (by decide)
  have hudp : ctx.packet.drop (ethHdrLen + 4 * (beAt fixed 0 1 % 16)) = udp.toList ++ payload := by
    rw [← hlength, ← List.drop_drop, hdrop, ← List.append_assoc, List.drop_left']
    rw [List.length_append, fixed.toList_length]
  obtain ⟨ev, hrun, hfilled⟩ := parseUdp_submits net before
    (by omega) hroom hudp hport hne (.fromIpv4 (net.ipv4SrcAddr fixed))
    (.fromIpv4 (net.ipv4DstAddr fixed))
  rw [net.ipv4SrcAddr_eq, net.ipv4DstAddr_eq] at hfilled
  refine ⟨ev, ?_, hfilled⟩
  rw [ipv4Arm, ipv4ArmOver, run_lift_bind_ok (by rw [ptrAt_eq (by omega), if_pos hlen]),
    run_lift_bind_ok (load_eq hlen), octetsAt_of_drop hdrop hlen,
    run_lift_bind_ok (by rw [getIpv4HeaderLen_eq, if_pos (by omega)]),
    run_lift_bind_ok (by rw [(net.ipv4Proto_udp fixed).mpr hproto]; rfl)]
  simp only
  rw [run_lift_bind_ok (usizeAdd_eq (by omega)), run_bind_ok hrun, run_pure]

/-- The IPv6 arm submits the event of a frame, with the addresses of the fixed header. -/
theorem ipv6Arm_submits {old : RawDnsEvent} (hroom : kernel.reserved = some old)
    {hdr : Octets ipv6HdrLen} {udp : Octets udpHdrLen} {payload : List UInt8}
    (hdrop : ctx.packet.drop ethHdrLen = hdr.toList ++ (udp.toList ++ payload))
    (hnext : beAt hdr 6 1 = 17) (hport : beAt udp 0 2 = 53) (hne : payload ≠ []) :
    ∃ ev, (ipv6Arm net kernel ctx).run before = (.ok tcActOk, before ++ [ev]) ∧
      ev.FilledFrom (.fromIpv6 (fieldAt hdr 8 16 (by decide)))
        (.fromIpv6 (fieldAt hdr 24 16 (by decide))) udp payload kernel.endTs := by
  have heth : ethHdrLen = 14 := rfl
  have hip : ipv6HdrLen = 40 := rfl
  have hlen := le_of_drop hdrop (by decide)
  have hudp : ctx.packet.drop (ethHdrLen + ipv6HdrLen) = udp.toList ++ payload := by
    rw [← List.drop_drop, hdrop, List.drop_left' hdr.toList_length]
  obtain ⟨ev, hrun, hfilled⟩ := parseUdp_submits net before
    (by omega) hroom hudp hport hne (.fromIpv6 (net.ipv6SrcAddr hdr))
    (.fromIpv6 (net.ipv6DstAddr hdr))
  rw [net.ipv6SrcAddr_eq, net.ipv6DstAddr_eq] at hfilled
  refine ⟨ev, ?_, hfilled⟩
  rw [ipv6Arm, ipv6ArmOver, run_lift_bind_ok (by rw [ptrAt_eq (by omega), if_pos hlen]),
    run_lift_bind_ok (load_eq hlen), octetsAt_of_drop hdrop hlen,
    run_lift_bind_ok (by rw [(net.ipv6NextHdr_udp hdr).mpr hnext]; rfl)]
  simp only
  rw [run_lift_bind_ok (usizeAdd_eq (by omega)), run_bind_ok hrun, run_pure]

variable (net before) in
/-- A frame, and room in the ring buffer: one event is submitted. It describes the frame and carries
the clock reading. -/
theorem tryDnsTc_submits {f : DnsFrame} (hf : ctx.packet = f.encode) {old : RawDnsEvent}
    (hroom : kernel.reserved = some old) :
    ∃ ev, (tryDnsTc net kernel ctx).run before = (.ok tcActOk, before ++ [ev]) ∧
      f.Describes ev ∧ ev.timestampNs = kernel.endTs := by
  have heth : ethHdrLen = 14 := rfl
  have hdrop : ctx.packet.drop 0 = f.eth.toList ++ (f.ip.bytes ++ (f.udp.toList ++ f.payload)) := hf
  have hlen := le_of_drop hdrop (by decide)
  have hbehind : ctx.packet.drop ethHdrLen = f.ip.bytes ++ (f.udp.toList ++ f.payload) := by
    rw [hf, DnsFrame.encode, List.drop_left' f.eth.toList_length]
  rw [tryDnsTc, tryDnsTcOver, run_lift_bind_ok (by rw [ptrAt_eq (by omega), if_pos hlen]),
    run_lift_bind_ok (load_eq hlen), octetsAt_of_drop hdrop hlen]
  have htype := f.etherType_eq
  cases hip : f.ip with
  | v4 fixed options hlength hproto =>
    rw [hip] at htype hbehind
    rw [(net.etherType_ipv4 f.eth).mpr htype]
    rw [IpHeader.bytes, List.append_assoc] at hbehind
    obtain ⟨ev, hrun, hfilled⟩ :=
      ipv4Arm_submits hroom hbehind hlength hproto f.srcPort_eq f.payload_ne_nil
    have hown : ev.FilledFrom f.ip.src f.ip.dst f.udp f.payload kernel.endTs := by
      rw [hip]
      exact hfilled
    exact ⟨ev, hrun, hown.describes, hown.timestampNs⟩
  | v6 hdr hnext =>
    rw [hip] at htype hbehind
    rw [(net.etherType_ipv6 f.eth).mpr htype]
    obtain ⟨ev, hrun, hfilled⟩ :=
      ipv6Arm_submits hroom hbehind hnext f.srcPort_eq f.payload_ne_nil
    have hown : ev.FilledFrom f.ip.src f.ip.dst f.udp f.payload kernel.endTs := by
      rw [hip]
      exact hfilled
    exact ⟨ev, hrun, hown.describes, hown.timestampNs⟩

variable (net before) in
/-- With a reserved record, a frame is submitted as an event that describes it. -/
theorem dnsTc_submits {f : DnsFrame} (hf : ctx.packet = f.encode) {old : RawDnsEvent}
    (hroom : kernel.reserved = some old) :
    ∃ ev, (dnsTc net kernel ctx).run before = (.ok tcActOk, before ++ [ev]) ∧ f.Describes ev ∧
      ev.timestampNs = kernel.endTs := by
  obtain ⟨ev, hrun, hdesc⟩ := tryDnsTc_submits net before hf hroom
  exact ⟨ev, by simp only [dnsTc_eq, handleErr, hrun], hdesc⟩

/-- Without one, or without a frame, nothing is submitted and the packet passes. -/
theorem dnsTc_skips (h : kernel.reserved = none ∨ ∀ f : DnsFrame, ctx.packet ≠ f.encode) :
    (dnsTc net kernel ctx).run before = (.ok tcActOk, before) := by
  obtain ⟨out, rfl | rfl, hrun⟩ := tryDnsTc_skips net before h
  · simp only [dnsTc_eq, handleErr, hrun]
  · simp only [dnsTc_eq, handleErr, hrun]

/-- There is room and the packet is a frame, or nothing is submitted. -/
theorem room_and_frame_or_skip (kernel : KernelAnswers) (ctx : TcContext) :
    (∃ old f, kernel.reserved = some old ∧ ctx.packet = DnsFrame.encode f) ∨
      (kernel.reserved = none ∨ ∀ f : DnsFrame, ctx.packet ≠ f.encode) := by
  cases hroom : kernel.reserved with
  | none => exact Or.inr (Or.inl rfl)
  | some old =>
    by_cases hframe : ∃ f : DnsFrame, ctx.packet = f.encode
    · obtain ⟨f, hf⟩ := hframe
      exact Or.inl ⟨old, f, rfl, hf⟩
    · right
      right
      intro f hf
      exact hframe ⟨f, hf⟩

/-- Every submitted event describes a frame: the packet it was submitted for. -/
theorem describes_of_submitted {out : Outcome Unit Int32} {submitted : List RawDnsEvent}
    (hrun : (dnsTc net kernel ctx).run before = (out, before ++ submitted)) {ev : RawDnsEvent}
    (hev : ev ∈ submitted) : ∃ f : DnsFrame, ctx.packet = f.encode ∧ f.Describes ev := by
  rcases room_and_frame_or_skip kernel ctx with ⟨old, f, hroom, hf⟩ | hskip
  · obtain ⟨ev', hrun', hdesc, -⟩ := dnsTc_submits net before hf hroom
    have hone : submitted = [ev'] :=
      List.append_cancel_left (Prod.mk.inj (hrun.symm.trans hrun')).2
    rw [hone, List.mem_singleton] at hev
    exact ⟨f, hf, hev ▸ hdesc⟩
  · have hnone : before ++ submitted = before :=
      (Prod.mk.inj (hrun.symm.trans (dnsTc_skips hskip))).2
    rw [List.append_right_eq_self.mp hnone] at hev
    exact absurd hev List.not_mem_nil

end Run

/-- On every packet the program passes the packet on and reads only inside it. It submits exactly
one event if the ring buffer has room and the packet is a frame, and none otherwise; the event
describes the frame. -/
theorem dnsTc_spec (net : NetworkTypes) (kernel : KernelAnswers) (ctx : TcContext)
    (before : List RawDnsEvent) :
    ∃ submitted, (dnsTc net kernel ctx).run before = (.ok tcActOk, before ++ submitted) ∧
      submitted.length ≤ 1 ∧
      (submitted.length = 1 ↔ kernel.reserved.isSome ∧ ∃ f : DnsFrame, ctx.packet = f.encode) ∧
      ∀ f : DnsFrame, ctx.packet = f.encode → ∀ ev ∈ submitted, f.Describes ev := by
  rcases room_and_frame_or_skip kernel ctx with ⟨old, f, hroom, hf⟩ | hskip
  · obtain ⟨ev, hrun, -⟩ := dnsTc_submits net before hf hroom
    refine ⟨[ev], hrun, le_rfl, iff_of_true rfl ⟨by rw [hroom]; rfl, f, hf⟩, ?_⟩
    intro f' hf' ev' hev'
    obtain ⟨ev'', hrun', hdesc, -⟩ := dnsTc_submits net before hf' hroom
    -- the run is one and the same, whatever frame the packet is read as
    have hsame : before ++ [ev] = before ++ [ev''] := (Prod.mk.inj (hrun.symm.trans hrun')).2
    rw [List.mem_singleton.mp hev', List.head_eq_of_cons_eq (List.append_cancel_left hsame)]
    exact hdesc
  · refine ⟨[], by rw [List.append_nil, dnsTc_skips hskip], Nat.zero_le _, ?_, by simp⟩
    refine iff_of_false (by simp) ?_
    rintro ⟨hroom, f, hf⟩
    rcases hskip with hnone | hnoframe
    · rw [hnone] at hroom
      exact absurd hroom (by simp)
    · exact hnoframe f hf

/-! ## An instance -/

/-- The accessors as the header formats define them. -/
def NetworkTypes.standard : NetworkTypes where
  etherType hdr :=
    if beAt hdr 12 2 = 0x0800 then some .ipv4
    else if beAt hdr 12 2 = 0x86DD then some .ipv6
    else none
  ihl hdr := UInt8.ofNat (4 * (beAt hdr 0 1 % 16))
  ipv4Proto hdr := if beAt hdr 9 1 = 17 then some .udp else some .other
  ipv4SrcAddr hdr := fieldAt hdr 12 4 (by decide)
  ipv4DstAddr hdr := fieldAt hdr 16 4 (by decide)
  ipv6NextHdr hdr := if beAt hdr 6 1 = 17 then some .udp else some .other
  ipv6SrcAddr hdr := fieldAt hdr 8 16 (by decide)
  ipv6DstAddr hdr := fieldAt hdr 24 16 (by decide)
  srcPort hdr := UInt16.ofNat (beAt hdr 0 2)
  dstPort hdr := UInt16.ofNat (beAt hdr 2 2)
  etherType_ipv4 hdr := by
    split
    · simp [*]
    · split <;> simp [*]
  etherType_ipv6 hdr := by
    split
    · simp [*]
    · split <;> simp [*]
  ihl_eq hdr := by
    have hnibble : beAt hdr 0 1 % 16 < 16 := Nat.mod_lt _ (by decide)
    rw [UInt8.toNat_ofNat']
    omega
  ipv4Proto_udp hdr := by split <;> simp [*]
  ipv4SrcAddr_eq _ := rfl
  ipv4DstAddr_eq _ := rfl
  ipv6NextHdr_udp hdr := by split <;> simp [*]
  ipv6SrcAddr_eq _ := rfl
  ipv6DstAddr_eq _ := rfl
  srcPort_eq hdr := by
    rw [UInt16.toNat_ofNat']
    exact Nat.mod_eq_of_lt (beAt_lt hdr 0 2)
  dstPort_eq hdr := by
    rw [UInt16.toNat_ofNat']
    exact Nat.mod_eq_of_lt (beAt_lt hdr 2 2)

/-- A UDP datagram from 1.1.1.1, port 53, to 10.0.0.9, port 40000. -/
def exampleFrame : DnsFrame where
  eth := ⟨[2, 0, 0, 0, 0, 1, 2, 0, 0, 0, 0, 2, 0x08, 0x00], rfl⟩
  ip := .v4 ⟨[0x45, 0, 0, 32, 0, 0, 0, 0, 64, 17, 0, 0, 1, 1, 1, 1, 10, 0, 0, 9], rfl⟩ []
    (by decide) (by decide)
  udp := ⟨[0, 53, 0x9C, 0x40, 0, 12, 0, 0], rfl⟩
  payload := [0, 1, 0x81, 0x80]
  etherType_eq := by decide
  srcPort_eq := by decide
  payload_ne_nil := by decide

/-- The frame in memory. -/
def exampleContext : TcContext := ⟨4096, exampleFrame.encode, by decide⟩

/-- Room in the ring buffer. -/
def exampleRoom : KernelAnswers := ⟨some default, 7⟩

/-- The frame is turned into one event. -/
theorem dnsTc_spec_example :
    ∃ ev, (dnsTc NetworkTypes.standard exampleRoom exampleContext).run [] = (.ok tcActOk, [ev]) ∧
      exampleFrame.Describes ev := by
  obtain ⟨submitted, hrun, -, hone, hdesc⟩ :=
    dnsTc_spec NetworkTypes.standard exampleRoom exampleContext []
  obtain ⟨ev, rfl⟩ := List.length_eq_one_iff.mp (hone.mpr ⟨rfl, exampleFrame, rfl⟩)
  exact ⟨ev, hrun, hdesc exampleFrame rfl ev List.mem_cons_self⟩

end CiliumMini
