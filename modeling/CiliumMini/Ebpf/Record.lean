import CiliumMini.Ebpf.Spec
import CiliumMini.Rust.Memory

/-!
# The ring-buffer record, byte by byte

Reference: `parse_udp` in `cilium-mini-ebpf/src/main.rs`, `RawIpAddr::write_to` in
`cilium-mini-common/src/lib.rs`.

The kernel program never builds a `RawDnsEvent`. It reserves 576 bytes that hold whatever an earlier
record left there and stores into them through pointers: the addresses as three 64-bit words each,
the ports, the payload one byte at a time, and at last `payload_len` and `timestamp_ns`. Here the
program is written down over bytes, and its records are shown to be the memory images of the events
of `dnsTc` (`dnsTcBytes_refines`). No store leaves the record.
-/

namespace CiliumMini

open Exec

/-! ## Layout -/

/-- A little-endian word of memory, loaded and stored again. -/
theorem leBytes_numberAt {b : List UInt8} {off n : ℕ} (h : off + n ≤ b.length) :
    leBytes n (numberAt b off n) = (b.drop off).take n := by
  have hlen : ((b.drop off).take n).length = n := by
    rw [List.length_take, List.length_drop]
    omega
  have hword := leBytes_ofLe ((b.drop off).take n)
  rw [hlen] at hword
  exact hword

/-- A word of `n` bytes is below `256 ^ n`. -/
theorem numberAt_lt (b : List UInt8) (off n : ℕ) : numberAt b off n < 256 ^ n := by
  refine (ofLe_lt _).trans_le (Nat.pow_le_pow_right (by decide) ?_)
  rw [List.length_take]
  exact Nat.min_le_left _ _

/-- Two fields behind each other are one piece of memory. -/
theorem take_append_take (b : List UInt8) (off m n : ℕ) :
    (b.drop off).take m ++ (b.drop (off + m)).take n = (b.drop off).take (m + n) := by
  rw [← List.drop_drop, List.take_add]

/-- Bytes read as an address are the memory image of it. -/
theorem RawIpAddr.image_readAt (b : List UInt8) (off : ℕ) (h : off + RawIpAddr.size ≤ b.length) :
    (RawIpAddr.readAt b off h).image = (b.drop off).take RawIpAddr.size := by
  have hsize : off + 24 ≤ b.length := h
  have hfamily : (UInt32.ofNat (numberAt b (off + 16) 4)).toNat = numberAt b (off + 16) 4 :=
    UInt32.toNat_ofNat_of_lt' (numberAt_lt b (off + 16) 4)
  have hpad : (UInt32.ofNat (numberAt b (off + 20) 4)).toNat = numberAt b (off + 20) 4 :=
    UInt32.toNat_ofNat_of_lt' (numberAt_lt b (off + 20) 4)
  rw [image, readAt, hfamily, hpad, leBytes_numberAt (by omega), leBytes_numberAt (by omega)]
  show (b.drop off).take 16 ++ ((b.drop (off + 16)).take 4 ++ (b.drop (off + 16 + 4)).take 4) = _
  rw [take_append_take, take_append_take]
  rfl

/-- A block of the size of an event is the memory image of what it is read as. -/
theorem RawDnsEvent.image_readUnaligned (b : List UInt8) (h : b.length = RawDnsEvent.size) :
    (RawDnsEvent.readUnaligned b h).image = b := by
  have hsize : b.length = 576 := h
  have h16 : ∀ off, (UInt16.ofNat (numberAt b off 2)).toNat = numberAt b off 2 :=
    fun off => UInt16.toNat_ofNat_of_lt' (numberAt_lt b off 2)
  have h64 : (UInt64.ofNat (numberAt b 56 8)).toNat = numberAt b 56 8 :=
    UInt64.toNat_ofNat_of_lt' (numberAt_lt b 56 8)
  rw [image, readUnaligned, RawIpAddr.image_readAt, RawIpAddr.image_readAt, h16, h16, h16, h16, h64,
    leBytes_numberAt (by omega), leBytes_numberAt (by omega), leBytes_numberAt (by omega),
    leBytes_numberAt (by omega), leBytes_numberAt (by omega)]
  show (b.drop 0).take 24 ++ ((b.drop (0 + 24)).take 24 ++ ((b.drop (24 + 24)).take 2 ++
    ((b.drop (48 + 2)).take 2 ++ ((b.drop (50 + 2)).take 2 ++ ((b.drop (52 + 2)).take 2 ++
      ((b.drop (54 + 2)).take 8 ++ (b.drop (56 + 8)).take 512)))))) = b
  simp only [take_append_take]
  exact List.take_of_length_le (by rw [List.drop_zero]; omega)

/-- The part of the image in front of the payload. -/
def RawDnsEvent.header (ev : RawDnsEvent) : List UInt8 :=
  ev.srcIp.image ++ ev.dstIp.image ++ leBytes 2 ev.srcPort.toNat ++ leBytes 2 ev.dstPort.toNat ++
    leBytes 2 ev.pad.toNat ++ leBytes 2 ev.payloadLen.toNat ++ leBytes 8 ev.timestampNs.toNat

/-- The offset of `payload`. -/
def payloadAt : ℕ := 64

theorem RawDnsEvent.length_header (ev : RawDnsEvent) : ev.header.length = payloadAt := by
  simp [header, RawIpAddr.size, payloadAt]

/-- The image is the header and then the payload. -/
theorem RawDnsEvent.image_eq (ev : RawDnsEvent) : ev.image = ev.header ++ ev.payload.toList := by
  simp only [image, header, List.append_assoc]

/-! ## Stores -/

/-- `RawIpAddr::write_to`: three words from the address itself to `dst`. -/
def RawIpAddr.writeTo (self : RawIpAddr) (mem : List UInt8) (dst : ℕ) :
    Outcome Unit (List UInt8) := do
  let s := self.image
  let mem ← store mem dst (leBytes 8 (numberAt s 0 8))
  let mem ← store mem (dst + 8) (leBytes 8 (numberAt s 8 8))
  store mem (dst + 16) (leBytes 8 (numberAt s 16 8))

/-- The three words are the whole address, its padding included. -/
theorem RawIpAddr.writeTo_eq (self : RawIpAddr) (mem : List UInt8) (dst : ℕ) :
    self.writeTo mem dst = store mem dst self.image := by
  have hword : ∀ v, (leBytes 8 v).length = 8 := length_leBytes 8
  have hsize : self.image.length = 24 := self.length_image
  have hwhole : leBytes 8 (numberAt self.image 0 8) ++ (leBytes 8 (numberAt self.image 8 8) ++
      leBytes 8 (numberAt self.image 16 8)) = self.image := by
    rw [leBytes_numberAt (by omega), leBytes_numberAt (by omega), leBytes_numberAt (by omega)]
    show (self.image.drop 0).take 8 ++ ((self.image.drop (0 + 8)).take 8 ++
      (self.image.drop (8 + 8)).take 8) = _
    rw [take_append_take, take_append_take]
    exact List.take_of_length_le (by rw [List.drop_zero]; omega)
  have hlast : ∀ m : List UInt8, (do
      let m ← store m (dst + 8) (leBytes 8 (numberAt self.image 8 8))
      store m (dst + 16) (leBytes 8 (numberAt self.image 16 8))) =
        (store m (dst + 8) (leBytes 8 (numberAt self.image 8 8) ++
          leBytes 8 (numberAt self.image 16 8)) : Outcome Unit _) := by
    intro m
    rw [← store_store, hword]
  have hfirst := store_store (ε := Unit) mem dst (leBytes 8 (numberAt self.image 0 8))
    (leBytes 8 (numberAt self.image 8 8) ++ leBytes 8 (numberAt self.image 16 8))
  rw [hwhole, hword] at hfirst
  rw [← hfirst, writeTo]
  simp only [hlast]

/-- A store over one field makes the image of the event with that field set. -/
theorem store_image {ev ev' : RawDnsEvent} (pre mid post : List UInt8) {l : List UInt8} {off : ℕ}
    (hpre : ev.image = pre ++ (mid ++ post)) (hpost : ev'.image = pre ++ (l ++ post))
    (hoff : pre.length = off) (hlen : mid.length = l.length) :
    (store ev.image off l : Outcome Unit _) = .ok ev'.image := by
  rw [hpre, hpost, store_part hoff hlen]

section Fields

variable (ev : RawDnsEvent)

/-- `write_to` at the start of the record sets the source address and nothing else. -/
theorem writeTo_srcIp (ip : RawIpAddr) :
    ip.writeTo ev.image 0 = .ok { ev with srcIp := ip }.image := by
  rw [RawIpAddr.writeTo_eq]
  exact store_image [] ev.srcIp.image _ rfl rfl rfl (by simp)

/-- Behind it, the destination address. -/
theorem writeTo_dstIp (ip : RawIpAddr) :
    ip.writeTo ev.image 24 = .ok { ev with dstIp := ip }.image := by
  rw [RawIpAddr.writeTo_eq]
  exact store_image ev.srcIp.image ev.dstIp.image _ rfl rfl ev.srcIp.length_image (by simp)

/-- The store of the source port. -/
theorem store_srcPort (v : UInt16) :
    (store ev.image 48 (leBytes 2 v.toNat) : Outcome Unit _) =
      .ok { ev with srcPort := v }.image := by
  refine store_image (ev.srcIp.image ++ ev.dstIp.image) (leBytes 2 ev.srcPort.toNat)
    (leBytes 2 ev.dstPort.toNat ++ (leBytes 2 ev.pad.toNat ++ (leBytes 2 ev.payloadLen.toNat ++
      (leBytes 8 ev.timestampNs.toNat ++ ev.payload.toList)))) ?_ ?_ (by simp [RawIpAddr.size])
    (by simp)
  all_goals simp only [RawDnsEvent.image, List.append_assoc]

/-- The store of the destination port. -/
theorem store_dstPort (v : UInt16) :
    (store ev.image 50 (leBytes 2 v.toNat) : Outcome Unit _) =
      .ok { ev with dstPort := v }.image := by
  refine store_image (ev.srcIp.image ++ ev.dstIp.image ++ leBytes 2 ev.srcPort.toNat)
    (leBytes 2 ev.dstPort.toNat) (leBytes 2 ev.pad.toNat ++ (leBytes 2 ev.payloadLen.toNat ++
      (leBytes 8 ev.timestampNs.toNat ++ ev.payload.toList))) ?_ ?_ (by simp [RawIpAddr.size])
    (by simp)
  all_goals simp only [RawDnsEvent.image, List.append_assoc]

/-- The store of the length, behind two bytes of padding that keep what they held. -/
theorem store_payloadLen (v : UInt16) :
    (store ev.image 54 (leBytes 2 v.toNat) : Outcome Unit _) =
      .ok { ev with payloadLen := v }.image := by
  refine store_image (ev.srcIp.image ++ ev.dstIp.image ++ leBytes 2 ev.srcPort.toNat ++
    leBytes 2 ev.dstPort.toNat ++ leBytes 2 ev.pad.toNat) (leBytes 2 ev.payloadLen.toNat)
    (leBytes 8 ev.timestampNs.toNat ++ ev.payload.toList) ?_ ?_ (by simp [RawIpAddr.size])
    (by simp)
  all_goals simp only [RawDnsEvent.image, List.append_assoc]

/-- The store of the time. -/
theorem store_timestampNs (v : UInt64) :
    (store ev.image 56 (leBytes 8 v.toNat) : Outcome Unit _) =
      .ok { ev with timestampNs := v }.image := by
  refine store_image (ev.srcIp.image ++ ev.dstIp.image ++ leBytes 2 ev.srcPort.toNat ++
    leBytes 2 ev.dstPort.toNat ++ leBytes 2 ev.pad.toNat ++ leBytes 2 ev.payloadLen.toNat)
    (leBytes 8 ev.timestampNs.toNat) ev.payload.toList ?_ ?_ (by simp [RawIpAddr.size]) (by simp)
  all_goals simp only [RawDnsEvent.image, List.append_assoc]

/-- A byte of the payload. -/
theorem store_payload {i : ℕ} (hi : i < maxDnsPayloadSize) (b : UInt8) :
    (store ev.image (payloadAt + i) [b] : Outcome Unit _) =
      .ok { ev with payload := ev.payload.set ⟨i, hi⟩ b }.image := by
  have hlen : i < ev.payload.toList.length := by
    rw [ev.payload.toList_length]
    exact hi
  have hset : (ev.payload.set ⟨i, hi⟩ b).toList = ev.payload.toList.set i b := rfl
  have hheader : ({ ev with payload := ev.payload.set ⟨i, hi⟩ b } : RawDnsEvent).header =
      ev.header := rfl
  -- cut the record around the one byte that the store replaces
  refine store_image (ev.header ++ ev.payload.toList.take i) [ev.payload.toList[i]]
    (ev.payload.toList.drop (i + 1)) ?_ ?_ ?_ rfl
  · rw [RawDnsEvent.image_eq, List.append_assoc, List.singleton_append,
      ← List.drop_eq_getElem_cons hlen, List.take_append_drop]
  · rw [RawDnsEvent.image_eq, hheader, hset, List.append_assoc, List.set_eq_take_append_cons_drop,
      if_pos hlen]
    rfl
  · rw [List.length_append, ev.length_header, List.length_take_of_le hlen.le]

end Fields

/-! ## The program over bytes -/

/-- What the kernel answers: the bytes of the reserved record, if the reservation succeeds, and the
clock reading behind the copy. -/
structure KernelMemory where
  reserved : Option (Octets RawDnsEvent.size)
  endTs : UInt64

/-- The same answers, with the bytes read as an event. -/
def KernelMemory.answers (kernel : KernelMemory) : KernelAnswers where
  reserved := kernel.reserved.map fun b => RawDnsEvent.readUnaligned b.toList b.toList_length
  endTs := kernel.endTs

/-- `dst_payload[i] = byte`, with the check of the index. -/
def storePayload (mem : List UInt8) (i : ℕ) (byte : UInt8) : Outcome Unit (List UInt8) :=
  if i < maxDnsPayloadSize then store mem (payloadAt + i) [byte] else .panic

/-- The copy loop of `parse_udp`: `n` iterations from index `i` on. -/
def copyBytes (ctx : TcContext) (payloadOffset : ℕ) :
    ℕ → ℕ → List UInt8 → UInt16 → Outcome Unit (List UInt8 × UInt16)
  | 0, _, mem, copiedLen => .ok (mem, copiedLen)
  | n + 1, i, mem, copiedLen => do
    let curOffset ← usizeAdd payloadOffset i
    let start ← usizeAdd ctx.data curOffset
    let stop ← usizeAdd start 1
    if stop > ctx.dataEnd then .ok (mem, copiedLen) else do
      let byte ← ctx.load start 1
      let mem ← storePayload mem i byte.head
      let copiedLen ← u16Add copiedLen 1
      copyBytes ctx payloadOffset n (i + 1) mem copiedLen

/-- The loop fills the payload of the image as `copyLoop` fills the payload of the event. -/
theorem copyBytes_eq (ctx : TcContext) (payloadOffset n i : ℕ) (ev : RawDnsEvent) (c : UInt16) :
    copyBytes ctx payloadOffset n i ev.image c = do
      let (payload, c) ← copyLoop ctx payloadOffset n i ev.payload c
      return ({ ev with payload }.image, c) := by
  induction n generalizing i ev c with
  | zero => rfl
  | succ n ih =>
    -- both loops compute the same addresses first
    simp only [copyBytes, copyLoop, Outcome.bind_assoc]
    refine congrArg _ (funext fun cur => congrArg _ (funext fun start => ?_))
    refine congrArg _ (funext fun stop => ?_)
    by_cases hend : stop > ctx.dataEnd
    · simp only [if_pos hend]
      rfl
    · simp only [if_neg hend, Outcome.bind_assoc]
      refine congrArg _ (funext fun byte => ?_)
      -- an index behind the array is a panic of both
      by_cases hi : i < maxDnsPayloadSize
      · rw [storePayload, if_pos hi, store_payload ev hi, storeAt, dif_pos hi, Outcome.ok_bind,
          Outcome.ok_bind]
        refine congrArg _ (funext fun c => ?_)
        rw [ih]
      · rw [storePayload, if_neg hi, storeAt, dif_neg hi]
        rfl

section Program

variable (net : NetworkTypes) (kernel : KernelMemory) (ctx : TcContext)

/-- `parse_udp`, with its stores. -/
def parseUdpBytes (offset : ℕ) (srcIp dstIp : RawIpAddr) :
    Exec (List (List UInt8)) Unit Int32 := do
  let udphdr ← lift (ptrAt ctx offset udpHdrLen)
  let hdr ← lift (ctx.load udphdr udpHdrLen)
  let srcPort := net.srcPort hdr
  let dstPort := net.dstPort hdr
  if srcPort ≠ dnsPort then return tcActOk else do
    let payloadOffset ← lift (usizeAdd offset udpHdrLen)
    let payloadStart ← lift (usizeAdd ctx.data payloadOffset)
    let availableLen := ctx.dataEnd - payloadStart
    if availableLen = 0 then return tcActOk else
      match kernel.reserved with
      | none => return tcActOk
      | some event => do
        let mem ← lift (srcIp.writeTo event.toList 0)
        let mem ← lift (dstIp.writeTo mem 24)
        let mem ← lift (store mem 48 (leBytes 2 srcPort.toNat))
        let mem ← lift (store mem 50 (leBytes 2 dstPort.toNat))
        let (mem, copiedLen) ← lift (copyBytes ctx payloadOffset maxDnsPayloadSize 0 mem 0)
        let mem ← lift (store mem 54 (leBytes 2 copiedLen.toNat))
        let mem ← lift (store mem 56 (leBytes 8 kernel.endTs.toNat))
        modify (· ++ [mem])
        return tcActOk

/-- `dns_tc`, with the stores of `parse_udp`. -/
def dnsTcBytes : Exec (List (List UInt8)) Unit Int32 :=
  dnsTcOver net ctx (parseUdpBytes net kernel ctx)

end Program

/-! ## Refinement -/

/-- The second program ends like the first one and submits the images of its events. -/
def Renders (p : Exec (List RawDnsEvent) Unit Int32) (q : Exec (List (List UInt8)) Unit Int32) :
    Prop :=
  ∀ before items, ∃ out submitted, p.run before = (out, before ++ submitted) ∧
    q.run items = (out, items ++ submitted.map RawDnsEvent.image)

/-- Nothing is submitted by a program that only returns. -/
theorem renders_pure (r : Int32) : Renders (pure r) (pure r) :=
  fun before items => ⟨.ok r, [], by simp, by simp⟩

/-- A check that both programs make, and what follows if it succeeds. -/
theorem renders_lift {α : Type} (m : Outcome Unit α) {f : α → Exec (List RawDnsEvent) Unit Int32}
    {g : α → Exec (List (List UInt8)) Unit Int32} (h : ∀ a, m = .ok a → Renders (f a) (g a)) :
    Renders (lift m >>= f) (lift m >>= g) := by
  intro before items
  cases hm : m with
  | ok a =>
    rw [run_lift_bind_ok rfl, run_lift_bind_ok rfl]
    exact h a hm before items
  | err e =>
    refine ⟨.err e, [], ?_, ?_⟩
    · rw [run_lift_bind_err rfl, List.append_nil]
    · rw [run_lift_bind_err rfl, List.map_nil, List.append_nil]
  | panic => exact ⟨.panic, [], by simp [run_bind], by simp [run_bind]⟩

theorem lift_ok_bind {σ ε α β : Type} (a : α) (f : α → Exec σ ε β) :
    (lift (.ok a) >>= f) = f a := rfl

/-- What `parse_udp` returns is dropped in both programs. -/
theorem Renders.then_ok {p : Exec (List RawDnsEvent) Unit Int32}
    {q : Exec (List (List UInt8)) Unit Int32} (h : Renders p q) (r : Int32) :
    Renders (p >>= fun _ => pure r) (q >>= fun _ => pure r) := by
  intro before items
  obtain ⟨out, submitted, hp, hq⟩ := h before items
  cases out with
  | ok a =>
    exact ⟨.ok r, submitted, by rw [run_bind_ok hp, run_pure], by rw [run_bind_ok hq, run_pure]⟩
  | err e => exact ⟨.err e, submitted, run_bind_err hp _, run_bind_err hq _⟩
  | panic => exact ⟨.panic, submitted, by simp [run_bind, hp], by simp [run_bind, hq]⟩

/-- Both programs let the packet pass when a check fails. -/
theorem Renders.handleErr {p : Exec (List RawDnsEvent) Unit Int32}
    {q : Exec (List (List UInt8)) Unit Int32} (h : Renders p q) (f : Unit → Int32) :
    Renders (handleErr p f) (handleErr q f) := by
  intro before items
  obtain ⟨out, submitted, hp, hq⟩ := h before items
  cases out with
  | ok a => exact ⟨.ok a, submitted, by simp [Exec.handleErr, hp], by simp [Exec.handleErr, hq]⟩
  | err e =>
    exact ⟨.ok (f e), submitted, by simp [Exec.handleErr, hp], by simp [Exec.handleErr, hq]⟩
  | panic => exact ⟨.panic, submitted, by simp [Exec.handleErr, hp], by simp [Exec.handleErr, hq]⟩

section Refines

variable (net : NetworkTypes) (kernel : KernelMemory) (ctx : TcContext)

/-- The stores of `parse_udp`, one after the other, make the image of its event. -/
theorem parseUdpBytes_renders (offset : ℕ) (srcIp dstIp : RawIpAddr) :
    Renders (parseUdp net kernel.answers ctx offset srcIp dstIp)
      (parseUdpBytes net kernel ctx offset srcIp dstIp) := by
  refine renders_lift _ fun udphdr _ => renders_lift _ fun hdr _ => ?_
  by_cases hport : net.srcPort hdr ≠ dnsPort
  · simp only [if_pos hport]
    exact renders_pure _
  simp only [if_neg hport]
  refine renders_lift _ fun payloadOffset _ => renders_lift _ fun payloadStart _ => ?_
  by_cases havailable : ctx.dataEnd - payloadStart = 0
  · simp only [if_pos havailable]
    exact renders_pure _
  simp only [if_neg havailable]
  cases hreserved : kernel.reserved with
  | none =>
    have hanswers : kernel.answers.reserved = none := by simp [KernelMemory.answers, hreserved]
    simp only [hanswers]
    exact renders_pure _
  | some block =>
    have himage : block.toList =
        (RawDnsEvent.readUnaligned block.toList block.toList_length).image :=
      (RawDnsEvent.image_readUnaligned _ _).symm
    have hanswers : kernel.answers.reserved =
        some (RawDnsEvent.readUnaligned block.toList block.toList_length) := by
      simp [KernelMemory.answers, hreserved]
    -- whatever the reserved memory holds, it is the image of some event
    generalize RawDnsEvent.readUnaligned block.toList block.toList_length = old at himage hanswers
    simp only [hanswers]
    rw [himage, writeTo_srcIp, lift_ok_bind, writeTo_dstIp, lift_ok_bind, store_srcPort,
      lift_ok_bind, store_dstPort, lift_ok_bind, copyBytes_eq]
    simp only
    intro before items
    -- the length and the time are stored only behind the copy
    cases hcopy : copyLoop ctx payloadOffset maxDnsPayloadSize 0 old.payload 0 with
    | err e => exact ⟨.err e, [], by simp [run_bind], by simp [run_bind]⟩
    | panic => exact ⟨.panic, [], by simp [run_bind], by simp [run_bind]; rfl⟩
    | ok copied =>
      obtain ⟨payload, copiedLen⟩ := copied
      rw [Outcome.ok_bind, Outcome.pure_eq, lift_ok_bind, lift_ok_bind]
      simp only
      rw [store_payloadLen, lift_ok_bind, store_timestampNs, lift_ok_bind]
      exact ⟨.ok tcActOk, _, rfl, rfl⟩

/-- The program over bytes renders the program over events. -/
theorem dnsTcBytes_renders :
    Renders (dnsTc net kernel.answers ctx) (dnsTcBytes net kernel ctx) := by
  refine Renders.handleErr (renders_lift _ fun ethhdr _ => renders_lift _ fun eth _ => ?_) _
  -- both arms end in `parse_udp`, which is all that differs
  have harm : ∀ offset srcIp dstIp, Renders
      (parseUdp net kernel.answers ctx offset srcIp dstIp >>= fun _ => pure tcActOk)
      (parseUdpBytes net kernel ctx offset srcIp dstIp >>= fun _ => pure tcActOk) :=
    fun offset srcIp dstIp => (parseUdpBytes_renders net kernel ctx offset srcIp dstIp).then_ok _
  cases net.etherType eth with
  | none => exact renders_pure _
  | some ty =>
    cases ty with
    | other => exact renders_pure _
    | ipv4 =>
      refine renders_lift _ fun ipv4hdr _ => renders_lift _ fun ip _ => ?_
      refine renders_lift _ fun ipHdrLen _ => renders_lift _ fun proto _ => ?_
      cases proto with
      | udp => exact renders_lift _ fun offset _ => harm offset _ _
      | other => exact renders_pure _
    | ipv6 =>
      refine renders_lift _ fun ipv6hdr _ => renders_lift _ fun ip _ => ?_
      refine renders_lift _ fun proto _ => ?_
      cases proto with
      | udp => exact renders_lift _ fun offset _ => harm offset _ _
      | other => exact renders_pure _

end Refines

/-- On every packet and over every old contents of the reserved memory, the program with its stores
stays inside the record and returns like `dnsTc`. The records it submits are the images of the
events of `dnsTc`, of 576 bytes each, and the reader's `read_unaligned` gives back the event, which
describes the packet. -/
theorem dnsTcBytes_refines (net : NetworkTypes) (kernel : KernelMemory) (ctx : TcContext)
    (items : List (List UInt8)) :
    ∃ submitted, (dnsTc net kernel.answers ctx).run [] = (.ok tcActOk, submitted) ∧
      (dnsTcBytes net kernel ctx).run items =
        (.ok tcActOk, items ++ submitted.map RawDnsEvent.image) ∧
      ∀ ev ∈ submitted, (∃ h, RawDnsEvent.readUnaligned ev.image h = ev) ∧
        ∃ f : DnsFrame, ctx.packet = f.encode ∧ f.Describes ev := by
  obtain ⟨out, submitted, hrun, hbytes⟩ := dnsTcBytes_renders net kernel ctx [] items
  -- a packet is submitted or skipped, and the program returns alike
  obtain rfl : out = .ok tcActOk := by
    rcases room_and_frame_or_skip kernel.answers ctx with ⟨old, f, hroom, hf⟩ | hskip
    · obtain ⟨ev, hsubmits, -⟩ := dnsTc_submits net [] hf hroom
      exact (Prod.mk.inj (hrun.symm.trans hsubmits)).1
    · exact (Prod.mk.inj (hrun.symm.trans (dnsTc_skips hskip))).1
  refine ⟨submitted, hrun, hbytes, fun ev hev => ⟨⟨ev.length_image, ?_⟩, ?_⟩⟩
  · exact ev.readUnaligned_image _
  · exact describes_of_submitted hrun hev

end CiliumMini
