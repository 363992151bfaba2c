import CiliumMini.Parser.Responses
import CiliumMini.Rust.TwoRuns

/-!
# Cut and continued payloads

Every comparison of the parser with the length of its payload reports a truncated payload on one
side, so more bytes behind the payload can only change that verdict. Each function is run on `p` and
on `p ++ x`, and the two runs agree unless the first one ends with `UnexpectedEndOfPayload`
(`parseDnsInto_append`).
-/

namespace CiliumMini

open Exec

/-- The verdict that more bytes can change. -/
def DnsParseError.IsTruncated (e : DnsParseError) : Prop := e = .unexpectedEndOfPayload

theorem isTruncated : DnsParseError.IsTruncated .unexpectedEndOfPayload := rfl

section Walkers

variable (p x : List UInt8)

/-- More bytes do not make a section empty. -/
theorem not_isEmpty_append (h : ¬ p.isEmpty = true) : ¬ (p ++ x).isEmpty = true := by
  rw [List.isEmpty_iff] at h ⊢
  exact List.append_ne_nil_of_left_ne_nil h x

/-- With at least as much fuel, the walk over a longer payload agrees. -/
theorem skipNameLoop_append {fuel fuel' : ℕ} (hfuel : fuel ≤ fuel') (offset : ℕ) :
    (skipNameLoop p fuel offset).Agrees DnsParseError.IsTruncated Eq
      (skipNameLoop (p ++ x) fuel' offset) := by
  induction fuel generalizing fuel' offset with
  | zero => exact trivial
  | succ fuel ih =>
    obtain ⟨f, rfl⟩ : ∃ f, fuel' = f + 1 := ⟨fuel' - 1, by omega⟩
    have hlen : p.length ≤ (p ++ x).length := by simp
    rw [skipNameLoop, skipNameLoop]
    by_cases hoff : offset < p.length
    · rw [if_pos hoff, if_pos (by omega)]
      refine (agrees_index p x offset).bind ?_
      rintro b b' rfl
      by_cases hptr : b &&& 0xC0 = 0xC0
      · rw [if_pos hptr, if_pos hptr]
        apply Outcome.Agrees.bind_same
        intro next
        apply agrees_check isTruncated
        · omega
        · exact Outcome.agrees_refl _
      rw [if_neg hptr, if_neg hptr]
      by_cases hzero : b = 0
      · rw [if_pos hzero, if_pos hzero]
        exact Outcome.agrees_refl _
      rw [if_neg hzero, if_neg hzero]
      by_cases hle : b ≤ 63
      · rw [if_pos hle, if_pos hle]
        apply Outcome.Agrees.bind_same
        intro start
        apply Outcome.Agrees.bind_same
        intro next
        apply agrees_check isTruncated
        · omega
        · exact ih (by omega) next
      · rw [if_neg hle, if_neg hle]
        exact Outcome.agrees_refl _
    · rw [if_neg hoff]
      exact Outcome.agrees_err isTruncated _

/-- `skip_name` with more bytes behind the name. -/
theorem skipName_append :
    (skipName p).Agrees DnsParseError.IsTruncated Eq (skipName (p ++ x)) := by
  apply skipNameLoop_append
  rw [List.length_append]
  omega

/-- The loop over the question name, with more bytes and more fuel. -/
theorem parseQnameLoop_append {fuel fuel' : ℕ} (hfuel : fuel ≤ fuel') (offset total : ℕ) :
    (parseQnameLoop p fuel offset total).Agrees DnsParseError.IsTruncated Eq
      (parseQnameLoop (p ++ x) fuel' offset total) := by
  induction fuel generalizing fuel' offset total with
  | zero =>
    intro s
    exact trivial
  | succ fuel ih =>
    obtain ⟨f, rfl⟩ : ∃ f, fuel' = f + 1 := ⟨fuel' - 1, by omega⟩
    have hlen : p.length ≤ (p ++ x).length := by simp
    rw [parseQnameLoop, parseQnameLoop]
    by_cases hoff : offset < p.length
    · rw [if_pos hoff, if_pos (by omega)]
      refine (agrees_lift (agrees_index p x offset)).bind ?_
      rintro b b' rfl
      by_cases hzero : b.toNat = 0
      · rw [if_pos hzero, if_pos hzero]
        exact agrees_refl _
      rw [if_neg hzero, if_neg hzero]
      apply Agrees.bind_same
      intro _
      apply Agrees.bind_same
      intro start
      apply Agrees.bind_same
      intro stop
      -- the one check against the length of the payload
      apply agrees_lift_check isTruncated (by omega)
      apply Agrees.bind_same
      intro step
      apply Agrees.bind_same
      intro total
      apply Agrees.bind_same
      intro _
      refine (agrees_lift (agrees_slice p x start stop)).bind ?_
      rintro label label' rfl
      apply Agrees.bind_same
      intro _
      apply Agrees.bind_same
      intro _
      apply Agrees.bind_same
      intro _
      exact ih (by omega) stop total
    · rw [if_neg hoff]
      exact agrees_lift_err isTruncated _

/-- `parse_qname` with more bytes behind the name. -/
theorem parseQname_append :
    (parseQname p).Agrees DnsParseError.IsTruncated Eq (parseQname (p ++ x)) := by
  apply agrees_lift_check isTruncated
  · exact not_isEmpty_append p x
  · apply parseQnameLoop_append
    rw [List.length_append]
    omega

theorem beU16At_append (i : ℕ) :
    (beU16At p i).Agrees DnsParseError.IsTruncated Eq (beU16At (p ++ x) i) := by
  refine (agrees_index p x i).bind ?_
  rintro hi _ rfl
  apply Outcome.Agrees.bind_same
  intro j
  refine (agrees_index p x j).bind ?_
  rintro lo _ rfl
  exact Outcome.agrees_refl _

end Walkers

section Records

variable (p x : List UInt8)

/-- An iteration of `parse_rdata` on a longer payload reads the same record. -/
theorem readRecord_append (offset : ℕ) :
    (readRecord p offset).Agrees DnsParseError.IsTruncated Eq (readRecord (p ++ x) offset) := by
  have hlen : p.length ≤ (p ++ x).length := by simp
  apply agrees_check isTruncated (by omega)
  refine (agrees_sliceFrom p x offset).bind ?_
  rintro rest _ rfl
  refine (skipName_append rest x).bind ?_
  rintro n _ rfl
  apply Outcome.Agrees.bind_same
  intro fixedEnd
  apply agrees_check isTruncated (by omega)
  refine (beU16At_append p x n).bind ?_
  rintro typeNum _ rfl
  apply Outcome.Agrees.bind_same
  intro lengthOffset
  refine (beU16At_append p x lengthOffset).bind ?_
  rintro length _ rfl
  apply Outcome.Agrees.bind_same
  intro start
  apply Outcome.Agrees.bind_same
  intro stop
  apply agrees_check isTruncated (by omega)
  refine (agrees_slice p x start stop).bind ?_
  rintro rdata _ rfl
  exact Outcome.agrees_refl _

/-- The loop over the answers; each further record is looked for at the same offset. -/
theorem parseRdataLoop_append (n offset : ℕ) :
    (parseRdataLoop p n offset).Agrees DnsParseError.IsTruncated Eq
      (parseRdataLoop (p ++ x) n offset) := by
  induction n generalizing offset with
  | zero => exact agrees_refl _
  | succ n ih =>
    rw [parseRdataLoop, parseRdataLoop]
    refine (agrees_lift (readRecord_append p x offset)).bind ?_
    rintro r _ rfl
    apply Agrees.bind_same
    intro _
    exact ih r.next

/-- `parse_rdata` with more bytes behind the answers. -/
theorem parseRdata_append (anscount : UInt16) :
    (parseRdata p anscount).Agrees DnsParseError.IsTruncated Eq (parseRdata (p ++ x) anscount) := by
  apply agrees_lift_check isTruncated
  · exact not_isEmpty_append p x
  · exact parseRdataLoop_append p x _ _

theorem fromPayload_append :
    (DnsHdr.fromPayload p).Agrees DnsParseError.IsTruncated Eq (DnsHdr.fromPayload (p ++ x)) := by
  have hlen : p.length ≤ (p ++ x).length := by simp
  apply agrees_check isTruncated (by omega)
  refine (beU16At_append p x 0).bind ?_
  rintro transactionId _ rfl
  refine (beU16At_append p x 2).bind ?_
  rintro flags _ rfl
  refine (beU16At_append p x 4).bind ?_
  rintro questions _ rfl
  refine (beU16At_append p x 6).bind ?_
  rintro answerRrs _ rfl
  refine (beU16At_append p x 8).bind ?_
  rintro authorityRrs _ rfl
  refine (beU16At_append p x 10).bind ?_
  rintro additionalRrs _ rfl
  exact Outcome.agrees_refl _

end Records

/-- `ev'` is `ev` with `x` behind its payload and all other fields equal. -/
structure RawDnsEvent.ContinuedBy (ev ev' : RawDnsEvent) (x : List UInt8) : Prop where
  srcIp : ev'.srcIp = ev.srcIp
  dstIp : ev'.dstIp = ev.dstIp
  srcPort : ev'.srcPort = ev.srcPort
  dstPort : ev'.dstPort = ev.dstPort
  timestampNs : ev'.timestampNs = ev.timestampNs
  payloadLen : ev'.payloadLen.toNat = ev.payloadLen.toNat + x.length
  payloadLen_le : ev.payloadLen.toNat + x.length ≤ maxDnsPayloadSize
  message : ev'.message = ev.message ++ x

/-- The payload of a continued event, cut out of its buffer. -/
theorem RawDnsEvent.ContinuedBy.agrees_sliceTo {ev ev' : RawDnsEvent} {x : List UInt8}
    (h : ev.ContinuedBy ev' x) :
    (sliceTo ev.payload.toList ev.payloadLen.toNat : Outcome DnsParseError _).Agrees
      DnsParseError.IsTruncated (fun m m' => m' = m ++ x)
      (sliceTo ev'.payload.toList ev'.payloadLen.toNat) := by
  have hle := h.payloadLen_le
  have hlen' := h.payloadLen
  have hev : ev.payloadLen.toNat ≤ ev.payload.toList.length := by
    rw [List.Vector.toList_length]
    omega
  have hev' : ev'.payloadLen.toNat ≤ ev'.payload.toList.length := by
    rw [List.Vector.toList_length]
    omega
  rw [sliceTo_eq hev, sliceTo_eq hev']
  exact ⟨_, rfl, h.message⟩

/-- The whole parse, unless the shorter event is cut off. -/
theorem parseDnsInto_agrees {ev ev' : RawDnsEvent} {x : List UInt8} (h : ev.ContinuedBy ev' x) :
    (parseDnsInto ev).Agrees DnsParseError.IsTruncated Eq (parseDnsInto ev') := by
  have hlen := h.payloadLen
  rw [parseDnsInto, parseDnsInto, h.srcIp, h.dstIp, h.srcPort, h.dstPort, h.timestampNs]
  apply Agrees.bind_same
  intro _
  apply Agrees.bind_same
  intro _
  apply Agrees.bind_same
  intro _
  apply Agrees.bind_same
  intro _
  apply Agrees.bind_same
  intro _
  apply Agrees.bind_same
  intro _
  apply agrees_lift_check isTruncated (by omega)
  refine (agrees_lift h.agrees_sliceTo).bind ?_
  rintro dnsPayload _ rfl
  refine (agrees_lift (agrees_sliceFrom dnsPayload x _)).bind ?_
  rintro qnamePayload _ rfl
  refine ((parseQname_append qnamePayload x).zoom _ _).bind ?_
  rintro qnameLen _ rfl
  refine (agrees_lift (fromPayload_append dnsPayload x)).bind ?_
  rintro hdr _ rfl
  apply Agrees.bind_same
  intro questionStart
  apply Agrees.bind_same
  intro rdataOffset
  apply agrees_lift_check isTruncated (by omega)
  refine (agrees_lift (agrees_sliceFrom dnsPayload x _)).bind ?_
  rintro rdataPayload _ rfl
  exact parseRdata_append rdataPayload x _

/-- More bytes behind the payload change no verdict but `UnexpectedEndOfPayload`: any other result
comes out again, with the same slot. -/
theorem parseDnsInto_append (ev ev' : RawDnsEvent) (x : List UInt8) (h : ev.ContinuedBy ev' x)
    (slot : DnsResponse)
    (hresult : ((parseDnsInto ev).run slot).1 ≠ .err .unexpectedEndOfPayload) :
    (parseDnsInto ev').run slot = (parseDnsInto ev).run slot := by
  have hle := h.payloadLen_le
  apply (parseDnsInto_agrees h).run_eq
  · exact parseDnsInto_ne_panic (by omega) slot
  · rintro e rfl
    exact hresult

/-- An event for one A record, continued by two bytes. -/
theorem parseDnsInto_append_example :
    ∃ ev', (exampleEventA 10 0 0 1).ContinuedBy ev' [7, 7] ∧
      (parseDnsInto ev').run default = (parseDnsInto (exampleEventA 10 0 0 1)).run default ∧
      ((parseDnsInto ev').run default).1 = .ok () := by
  have hfit : ((exampleResponse [examplePointerA 10 0 0 1]).encode ++ [7, 7]).length ≤
      maxDnsPayloadSize := by decide
  have hcont : (exampleEventA 10 0 0 1).ContinuedBy
      (.carrying exampleResolver exampleResolver _ hfit) [7, 7] := by
    refine ⟨rfl, rfl, rfl, rfl, rfl, rfl, by decide, ?_⟩
    rw [RawDnsEvent.message_carrying, exampleEventA, exampleEvent, RawDnsEvent.message_carrying]
  have hok : ((parseDnsInto (exampleEventA 10 0 0 1)).run default).1 = .ok () := by
    decide +kernel
  have hsame := parseDnsInto_append _ _ _ hcont default (by rw [hok]; simp)
  exact ⟨_, hcont, hsame, by rw [hsame, hok]⟩

end CiliumMini
