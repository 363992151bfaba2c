import CiliumMini.Rust.Net

/-!
# Types shared by the kernel program and the daemon

Reference: `cilium-mini-common/src/lib.rs`.

The two structs are `repr(C, align(8))`. Their `_pad` fields are kept: the kernel program writes the
address padding together with the address and never writes the padding of the event.
-/

namespace CiliumMini

/-- `AF_INET`. -/
def afInet : UInt32 := 2

/-- `AF_INET6`. -/
def afInet6 : UInt32 := 10

/-- `MAX_DNS_PAYLOAD_SIZE`. -/
def maxDnsPayloadSize : ℕ := 512

/-- `RawIpAddr`: an address in 16 bytes, of either family. -/
@[ext]
structure RawIpAddr where
  bytes : Octets 16
  family : UInt32
  pad : UInt32
deriving DecidableEq

namespace RawIpAddr

/-- `RawIpAddr::from_ipv4`: the four bytes, then twelve zeros. -/
def fromIpv4 (addr : Octets 4) : RawIpAddr where
  bytes := ⟨addr.toList ++ List.replicate 12 0, by simp⟩
  family := afInet
  pad := 0

/-- `RawIpAddr::from_ipv6`. -/
def fromIpv6 (addr : Octets 16) : RawIpAddr where
  bytes := addr
  family := afInet6
  pad := 0

instance : Inhabited RawIpAddr := ⟨⟨List.Vector.replicate 16 0, 0, 0⟩⟩

/-- The first four bytes of an IPv4 key are the address. -/
theorem fromIpv4_injective : Function.Injective fromIpv4 := by
  intro a b h
  have hbytes : a.toList ++ List.replicate 12 0 = b.toList ++ List.replicate 12 0 :=
    congrArg (fun r : RawIpAddr => r.bytes.toList) h
  exact List.Vector.eq _ _ (List.append_cancel_right hbytes)

/-- Different IPv6 addresses have different raw addresses. -/
theorem fromIpv6_injective : Function.Injective fromIpv6 :=
  fun _ _ h => congrArg bytes h

/-- A key of one family is never a key of the other. -/
theorem fromIpv4_ne_fromIpv6 (a : Octets 4) (b : Octets 16) : fromIpv4 a ≠ fromIpv6 b := by
  intro h
  have hfam : afInet = afInet6 := congrArg family h
  exact absurd hfam (by decide)

end RawIpAddr

/-- `RawDnsEvent`: one DNS response as the kernel program hands it over. -/
@[ext]
structure RawDnsEvent where
  srcIp : RawIpAddr
  dstIp : RawIpAddr
  srcPort : UInt16
  dstPort : UInt16
  pad : UInt16
  payloadLen : UInt16
  timestampNs : UInt64
  payload : Octets maxDnsPayloadSize
deriving DecidableEq

namespace RawDnsEvent

instance : Inhabited RawDnsEvent :=
  ⟨⟨default, default, 0, 0, 0, 0, 0, List.Vector.replicate maxDnsPayloadSize 0⟩⟩

/-- The bytes the event carries: the first `payload_len` bytes of its buffer. -/
def message (ev : RawDnsEvent) : List UInt8 := ev.payload.toList.take ev.payloadLen.toNat

/-- No more bytes are looked at than there are. -/
@[simp] theorem length_message (ev : RawDnsEvent) :
    ev.message.length = min ev.payloadLen.toNat maxDnsPayloadSize := by
  simp [message]

end RawDnsEvent

/-! ## Memory layout

The C layout on a little-endian machine: two 24-byte addresses, four `u16`, one `u64`, the payload.
-/

/-- The `n` bytes at offset `off`. -/
def octetsAt (b : List UInt8) (off n : ℕ) (h : off + n ≤ b.length) : Octets n :=
  ⟨(b.drop off).take n, by rw [List.length_take, List.length_drop]; omega⟩

/-- The little-endian number in the `n` bytes at offset `off`. -/
def numberAt (b : List UInt8) (off n : ℕ) : ℕ := ofLe ((b.drop off).take n)

/-- `size_of::<RawIpAddr>()`. -/
def RawIpAddr.size : ℕ := 24

/-- Read a `RawIpAddr` at offset `off`. -/
def RawIpAddr.readAt (b : List UInt8) (off : ℕ) (h : off + RawIpAddr.size ≤ b.length) :
    RawIpAddr where
  bytes := octetsAt b off 16 (by unfold RawIpAddr.size at h; omega)
  family := UInt32.ofNat (numberAt b (off + 16) 4)
  pad := UInt32.ofNat (numberAt b (off + 20) 4)

/-- `size_of::<RawDnsEvent>()`. -/
def RawDnsEvent.size : ℕ := 576

/-- `ptr::read_unaligned` of a `RawDnsEvent` from an item of exactly its size. -/
def RawDnsEvent.readUnaligned (b : List UInt8) (h : b.length = RawDnsEvent.size) : RawDnsEvent where
  srcIp := RawIpAddr.readAt b 0 (by rw [h]; decide)
  dstIp := RawIpAddr.readAt b 24 (by rw [h]; decide)
  srcPort := UInt16.ofNat (numberAt b 48 2)
  dstPort := UInt16.ofNat (numberAt b 50 2)
  pad := UInt16.ofNat (numberAt b 52 2)
  payloadLen := UInt16.ofNat (numberAt b 54 2)
  timestampNs := UInt64.ofNat (numberAt b 56 8)
  payload := octetsAt b 64 maxDnsPayloadSize (by rw [h]; decide)

/-- The bytes of a `RawIpAddr` in memory. -/
def RawIpAddr.image (ip : RawIpAddr) : List UInt8 :=
  ip.bytes.toList ++ (leBytes 4 ip.family.toNat ++ leBytes 4 ip.pad.toNat)

/-- The bytes of a `RawDnsEvent` in memory, as they lie in the ring buffer. -/
def RawDnsEvent.image (ev : RawDnsEvent) : List UInt8 :=
  ev.srcIp.image ++ (ev.dstIp.image ++ (leBytes 2 ev.srcPort.toNat ++ (leBytes 2 ev.dstPort.toNat ++
    (leBytes 2 ev.pad.toNat ++ (leBytes 2 ev.payloadLen.toNat ++ (leBytes 8 ev.timestampNs.toNat ++
      ev.payload.toList))))))

/-- An address takes 24 bytes of memory. -/
@[simp] theorem RawIpAddr.length_image (ip : RawIpAddr) : ip.image.length = RawIpAddr.size := by
  simp [image, RawIpAddr.size]

/-- An event takes 576 bytes of memory. -/
@[simp] theorem RawDnsEvent.length_image (ev : RawDnsEvent) :
    ev.image.length = RawDnsEvent.size := by
  have hpayload : ev.payload.toList.length = 512 := ev.payload.toList_length
  simp [image, RawIpAddr.size, RawDnsEvent.size, hpayload]

/-- The field at the offset where it was put. -/
theorem octetsAt_split {n off : ℕ} (pre post : List UInt8) (mid : Octets n)
    (hoff : pre.length = off)
    (h : off + n ≤ (pre ++ (mid.toList ++ post)).length) :
    octetsAt (pre ++ (mid.toList ++ post)) off n h = mid := by
  subst hoff
  apply List.Vector.eq
  show ((pre ++ (mid.toList ++ post)).drop pre.length).take n = mid.toList
  rw [List.drop_left, List.take_left' mid.toList_length]

/-- A number is read back from where it was stored. -/
theorem numberAt_split {off : ℕ} (pre post : List UInt8) (n v : ℕ) (hoff : pre.length = off) :
    numberAt (pre ++ (leBytes n v ++ post)) off n = v % 256 ^ n := by
  subst hoff
  rw [numberAt, List.drop_left, List.take_left' (length_leBytes n v), ofLe_leBytes]

/-- An address is read back from where it was stored. -/
theorem RawIpAddr.readAt_image {off : ℕ} (ip : RawIpAddr) (pre post : List UInt8)
    (hoff : pre.length = off) (h : off + RawIpAddr.size ≤ (pre ++ (ip.image ++ post)).length) :
    RawIpAddr.readAt (pre ++ (ip.image ++ post)) off h = ip := by
  have hfamily := numberAt_split (pre ++ ip.bytes.toList) (leBytes 4 ip.pad.toNat ++ post) 4
    ip.family.toNat (show _ = off + 16 by simp [hoff])
  have hpad := numberAt_split (pre ++ ip.bytes.toList ++ leBytes 4 ip.family.toNat) post 4
    ip.pad.toNat (show _ = off + 20 by simp [hoff])
  simp only [List.append_assoc] at hfamily hpad
  refine RawIpAddr.ext ?_ ?_ ?_
  · simp only [RawIpAddr.readAt, RawIpAddr.image, List.append_assoc]
    exact octetsAt_split pre _ ip.bytes hoff _
  · simp only [RawIpAddr.readAt, RawIpAddr.image, List.append_assoc, hfamily]
    simp
  · simp only [RawIpAddr.readAt, RawIpAddr.image, List.append_assoc, hpad]
    simp

/-- Reading the memory image of an event gives the event back. -/
theorem RawDnsEvent.readUnaligned_image (ev : RawDnsEvent)
    (h : ev.image.length = RawDnsEvent.size) : RawDnsEvent.readUnaligned ev.image h = ev := by
  have hpayload : ev.payload.toList.length = 512 := ev.payload.toList_length
  -- a number is read where everything in front of it ends
  have hnumber : ∀ (pre post : List UInt8) (n v off : ℕ), pre ++ (leBytes n v ++ post) = ev.image →
      pre.length = off → numberAt ev.image off n = v % 256 ^ n := by
    intro pre post n v off himage hoff
    rw [← himage, numberAt_split pre post n v hoff]
  refine RawDnsEvent.ext ?_ ?_ ?_ ?_ ?_ ?_ ?_ ?_
  · exact RawIpAddr.readAt_image ev.srcIp [] _ rfl (by simp)
  · exact RawIpAddr.readAt_image ev.dstIp ev.srcIp.image _ ev.srcIp.length_image (by simp)
  · have hport := hnumber (ev.srcIp.image ++ ev.dstIp.image) _ 2 ev.srcPort.toNat 48
      (List.append_assoc _ _ _) (by simp [RawIpAddr.size])
    simp [RawDnsEvent.readUnaligned, hport]
  · have hport := hnumber (ev.srcIp.image ++ ev.dstIp.image ++ leBytes 2 ev.srcPort.toNat) _ 2
      ev.dstPort.toNat 50 (by simp only [List.append_assoc]; rfl) (by simp [RawIpAddr.size])
    simp [RawDnsEvent.readUnaligned, hport]
  · have hpad := hnumber (ev.srcIp.image ++ ev.dstIp.image ++ leBytes 2 ev.srcPort.toNat ++
      leBytes 2 ev.dstPort.toNat) _ 2 ev.pad.toNat 52 (by simp only [List.append_assoc]; rfl)
      (by simp [RawIpAddr.size])
    simp [RawDnsEvent.readUnaligned, hpad]
  · have hlen := hnumber (ev.srcIp.image ++ ev.dstIp.image ++ leBytes 2 ev.srcPort.toNat ++
      leBytes 2 ev.dstPort.toNat ++ leBytes 2 ev.pad.toNat) _ 2 ev.payloadLen.toNat 54
      (by simp only [List.append_assoc]; rfl) (by simp [RawIpAddr.size])
    simp [RawDnsEvent.readUnaligned, hlen]
  · have htime := hnumber (ev.srcIp.image ++ ev.dstIp.image ++ leBytes 2 ev.srcPort.toNat ++
      leBytes 2 ev.dstPort.toNat ++ leBytes 2 ev.pad.toNat ++ leBytes 2 ev.payloadLen.toNat) _ 8
      ev.timestampNs.toNat 56 (by simp only [List.append_assoc]; rfl) (by simp [RawIpAddr.size])
    simp [RawDnsEvent.readUnaligned, htime]
  · apply List.Vector.eq
    show (ev.image.drop 64).take 512 = ev.payload.toList
    have himage : (ev.srcIp.image ++ ev.dstIp.image ++ leBytes 2 ev.srcPort.toNat ++
        leBytes 2 ev.dstPort.toNat ++ leBytes 2 ev.pad.toNat ++ leBytes 2 ev.payloadLen.toNat ++
        leBytes 8 ev.timestampNs.toNat) ++ ev.payload.toList = ev.image := by
      simp only [List.append_assoc]
      rfl
    rw [← himage, List.drop_left' (by simp [RawIpAddr.size]), ← hpayload, List.take_length]

end CiliumMini
