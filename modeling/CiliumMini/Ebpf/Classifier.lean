import CiliumMini.Common
import CiliumMini.Rust.Outcome

/-!
# The kernel classifier

Reference: `cilium-mini-ebpf/src/main.rs`.

The packet lies at an address, and every access goes through addresses as in the source: `ptr_at`
compares with `data_end`, and a load outside the packet panics. So a run that does not panic reads
only bytes of the packet. The mutable place is the ring buffer, seen as the list of submitted
events. The header accessors of the `network-types` crate are the parameter `NetworkTypes`.
-/

namespace CiliumMini

open Exec

/-! ## Header accessors -/

/-- `EtherType`, as far as the classifier tells types apart. -/
inductive EtherType where
  | ipv4
  | ipv6
  | other
deriving DecidableEq

/-- `IpProto`, as far as the classifier tells protocols apart. -/
inductive IpProto where
  | udp
  | other
deriving DecidableEq

/-- `EthHdr::LEN`. -/
def ethHdrLen : ℕ := 14

/-- `size_of::<Ipv4Hdr>()`. -/
def ipv4HdrLen : ℕ := 20

/-- `Ipv6Hdr::LEN`. -/
def ipv6HdrLen : ℕ := 40

/-- `UdpHdr::LEN`. -/
def udpHdrLen : ℕ := 8

/-- The big-endian number in the `n` bytes at offset `off` of a header. -/
def beAt {len : ℕ} (hdr : Octets len) (off n : ℕ) : ℕ := ofBe ((hdr.toList.drop off).take n)

/-- A field of `n` bytes is below `256 ^ n`. -/
theorem beAt_lt {len : ℕ} (hdr : Octets len) (off n : ℕ) : beAt hdr off n < 256 ^ n := by
  refine (ofBe_lt _).trans_le (Nat.pow_le_pow_right (by decide) ?_)
  rw [List.length_take]
  exact Nat.min_le_left _ _

/-- The `n` bytes at offset `off` of a header. -/
def fieldAt {len : ℕ} (hdr : Octets len) (off n : ℕ) (h : off + n ≤ len) : Octets n :=
  octetsAt hdr.toList off n (by simpa using h)

/-- The accessors of `network-types`; `none` is an unknown value. -/
structure NetworkTypes where
  etherType : Octets ethHdrLen → Option EtherType
  ihl : Octets ipv4HdrLen → UInt8
  ipv4Proto : Octets ipv4HdrLen → Option IpProto
  ipv4SrcAddr : Octets ipv4HdrLen → Octets 4
  ipv4DstAddr : Octets ipv4HdrLen → Octets 4
  ipv6NextHdr : Octets ipv6HdrLen → Option IpProto
  ipv6SrcAddr : Octets ipv6HdrLen → Octets 16
  ipv6DstAddr : Octets ipv6HdrLen → Octets 16
  srcPort : Octets udpHdrLen → UInt16
  dstPort : Octets udpHdrLen → UInt16
  etherType_ipv4 : ∀ hdr, etherType hdr = some .ipv4 ↔ beAt hdr 12 2 = 0x0800
  etherType_ipv6 : ∀ hdr, etherType hdr = some .ipv6 ↔ beAt hdr 12 2 = 0x86DD
  ihl_eq : ∀ hdr, (ihl hdr).toNat = 4 * (beAt hdr 0 1 % 16)
  ipv4Proto_udp : ∀ hdr, ipv4Proto hdr = some .udp ↔ beAt hdr 9 1 = 17
  ipv4SrcAddr_eq : ∀ hdr, ipv4SrcAddr hdr = fieldAt hdr 12 4 (by decide)
  ipv4DstAddr_eq : ∀ hdr, ipv4DstAddr hdr = fieldAt hdr 16 4 (by decide)
  ipv6NextHdr_udp : ∀ hdr, ipv6NextHdr hdr = some .udp ↔ beAt hdr 6 1 = 17
  ipv6SrcAddr_eq : ∀ hdr, ipv6SrcAddr hdr = fieldAt hdr 8 16 (by decide)
  ipv6DstAddr_eq : ∀ hdr, ipv6DstAddr hdr = fieldAt hdr 24 16 (by decide)
  srcPort_eq : ∀ hdr, (srcPort hdr).toNat = beAt hdr 0 2
  dstPort_eq : ∀ hdr, (dstPort hdr).toNat = beAt hdr 2 2

/-! ## Packet access -/

/-- `TcContext`: the packet and the address of its first byte. The last page of the address space
holds no packet, so offsets into headers never wrap around. -/
structure TcContext where
  data : ℕ
  packet : List UInt8
  data_le : data + packet.length + 4096 ≤ 2 ^ 64

/-- `ctx.data_end()`. -/
def TcContext.dataEnd (ctx : TcContext) : ℕ := ctx.data + ctx.packet.length

/-- Load `n` bytes at an address; outside the packet that is a panic. -/
def TcContext.load (ctx : TcContext) (addr n : ℕ) : Outcome Unit (Octets n) :=
  if h : ctx.data ≤ addr ∧ addr + n ≤ ctx.dataEnd then
    .ok (octetsAt ctx.packet (addr - ctx.data) n (by
      unfold TcContext.dataEnd at h
      omega))
  else .panic

/-- `ptr_at` for a type of `len` bytes: its address, if it ends inside the packet. -/
def ptrAt (ctx : TcContext) (offset len : ℕ) : Outcome Unit ℕ := do
  let start ← usizeAdd ctx.data offset
  let stop ← usizeAdd start len
  failIf (stop > ctx.dataEnd) ()
  usizeAdd ctx.data offset

/-! ## The program -/

/-- `TC_ACT_OK`. -/
def tcActOk : Int32 := 0

/-- `DNS_PORT`. -/
def dnsPort : UInt16 := 53

/-- `IPV4_MIN_HDR_LEN`. -/
def ipv4MinHdrLen : ℕ := 20

/-- `IPV4_MAX_HDR_LEN`. -/
def ipv4MaxHdrLen : ℕ := 60

/-- What the kernel answers during one call: the memory of the reserved ring-buffer record, if the
reservation succeeds, and the clock reading behind the copy. The one before it is only logged. -/
structure KernelAnswers where
  reserved : Option RawDnsEvent
  endTs : UInt64

/-- The copy loop of `parse_udp`: `n` iterations from index `i` on. -/
def copyLoop (ctx : TcContext) (payloadOffset : ℕ) :
    ℕ → ℕ → Octets maxDnsPayloadSize → UInt16 → Outcome Unit (Octets maxDnsPayloadSize × UInt16)
  | 0, _, payload, copiedLen => .ok (payload, copiedLen)
  | n + 1, i, payload, copiedLen => do
    let curOffset ← usizeAdd payloadOffset i
    let start ← usizeAdd ctx.data curOffset
    let stop ← usizeAdd start 1
    -- `break`: the packet ends before the buffer does
    if stop > ctx.dataEnd then .ok (payload, copiedLen) else do
      let byte ← ctx.load start 1
      let payload ← storeAt payload i byte.head
      let copiedLen ← u16Add copiedLen 1
      copyLoop ctx payloadOffset n (i + 1) payload copiedLen

section Program

variable (net : NetworkTypes) (kernel : KernelAnswers) (ctx : TcContext)

/-- `parse_udp`. -/
def parseUdp (offset : ℕ) (srcIp dstIp : RawIpAddr) : Exec (List RawDnsEvent) Unit Int32 := do
  let udphdr ← lift (ptrAt ctx offset udpHdrLen)
  let hdr ← lift (ctx.load udphdr udpHdrLen)
  let srcPort := net.srcPort hdr
  let dstPort := net.dstPort hdr
  -- only responses: the source port is looked at, the destination port is not
  if srcPort ≠ dnsPort then return tcActOk else do
    let payloadOffset ← lift (usizeAdd offset udpHdrLen)
    let payloadStart ← lift (usizeAdd ctx.data payloadOffset)
    let availableLen := ctx.dataEnd - payloadStart
    -- nothing is reserved for a datagram without payload
    if availableLen = 0 then return tcActOk else
      match kernel.reserved with
      | none => return tcActOk
      | some event => do
        let (payload, copiedLen) ←
          lift (copyLoop ctx payloadOffset maxDnsPayloadSize 0 event.payload 0)
        modify (· ++ [{ event with
          srcIp, dstIp, srcPort, dstPort, payload
          payloadLen := copiedLen, timestampNs := kernel.endTs }])
        return tcActOk

/-- `get_ipv4_header_len`. -/
def getIpv4HeaderLen (hdr : Octets ipv4HdrLen) : Outcome Unit ℕ := do
  let hdrLen := (net.ihl hdr).toNat
  failIf (hdrLen < ipv4MinHdrLen ∨ hdrLen > ipv4MaxHdrLen) ()
  return hdrLen

/-- `.map_err(|_: IpError| ())?`. -/
def knownProto (proto : Option IpProto) : Outcome Unit IpProto :=
  match proto with
  | some p => .ok p
  | none => .err ()

end Program

/-! ## The dispatch

`try_dns_tc` does the same whatever `parse_udp` works on: the events of this module, or the bytes of
the record.
-/

section Over

variable {σ : Type} (net : NetworkTypes) (ctx : TcContext)
  (parseUdp : ℕ → RawIpAddr → RawIpAddr → Exec σ Unit Int32)

/-- The `EtherType::Ipv4` arm of `try_dns_tc`, with any `parse_udp`. -/
def ipv4ArmOver : Exec σ Unit Int32 := do
  let ipv4hdr ← lift (ptrAt ctx ethHdrLen ipv4HdrLen)
  let ip ← lift (ctx.load ipv4hdr ipv4HdrLen)
  let srcIp := RawIpAddr.fromIpv4 (net.ipv4SrcAddr ip)
  let dstIp := RawIpAddr.fromIpv4 (net.ipv4DstAddr ip)
  let ipHdrLen ← lift (getIpv4HeaderLen net ip)
  match ← lift (knownProto (net.ipv4Proto ip)) with
  | .udp => do
    let offset ← lift (usizeAdd ethHdrLen ipHdrLen)
    -- `parse_udp(..)?` with its action dropped
    let _ ← parseUdp offset srcIp dstIp
    return tcActOk
  | .other => return tcActOk

/-- The `EtherType::Ipv6` arm of `try_dns_tc`, with any `parse_udp`. -/
def ipv6ArmOver : Exec σ Unit Int32 := do
  let ipv6hdr ← lift (ptrAt ctx ethHdrLen ipv6HdrLen)
  let ip ← lift (ctx.load ipv6hdr ipv6HdrLen)
  let srcIp := RawIpAddr.fromIpv6 (net.ipv6SrcAddr ip)
  let dstIp := RawIpAddr.fromIpv6 (net.ipv6DstAddr ip)
  match ← lift (knownProto (net.ipv6NextHdr ip)) with
  | .udp => do
    let offset ← lift (usizeAdd ethHdrLen ipv6HdrLen)
    let _ ← parseUdp offset srcIp dstIp
    return tcActOk
  | .other => return tcActOk

/-- `try_dns_tc`, with any `parse_udp`. -/
def tryDnsTcOver : Exec σ Unit Int32 := do
  let ethhdr ← lift (ptrAt ctx 0 ethHdrLen)
  let eth ← lift (ctx.load ethhdr ethHdrLen)
  match net.etherType eth with
  | some .ipv4 => ipv4ArmOver net ctx parseUdp
  | some .ipv6 => ipv6ArmOver net ctx parseUdp
  | _ => return tcActOk

/-- `dns_tc`, with any `parse_udp`. -/
def dnsTcOver : Exec σ Unit Int32 := handleErr (tryDnsTcOver net ctx parseUdp) fun _ => tcActOk

end Over

section Program

variable (net : NetworkTypes) (kernel : KernelAnswers) (ctx : TcContext)

/-- The `EtherType::Ipv4` arm of `try_dns_tc`. -/
def ipv4Arm : Exec (List RawDnsEvent) Unit Int32 := ipv4ArmOver net ctx (parseUdp net kernel ctx)

/-- The `EtherType::Ipv6` arm of `try_dns_tc`. -/
def ipv6Arm : Exec (List RawDnsEvent) Unit Int32 := ipv6ArmOver net ctx (parseUdp net kernel ctx)

/-- `try_dns_tc`. -/
def tryDnsTc : Exec (List RawDnsEvent) Unit Int32 := tryDnsTcOver net ctx (parseUdp net kernel ctx)

/-- `dns_tc`. -/
def dnsTc : Exec (List RawDnsEvent) Unit Int32 := dnsTcOver net ctx (parseUdp net kernel ctx)

/-- An error of `try_dns_tc` lets the packet pass. -/
theorem dnsTc_eq :
    dnsTc net kernel ctx = handleErr (tryDnsTc net kernel ctx) fun _ => tcActOk := rfl

end Program

end CiliumMini
