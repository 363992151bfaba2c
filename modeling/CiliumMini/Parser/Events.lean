import CiliumMini.Parser.Records

/-!
# Parsing one event

`parseDnsInto_run` reduces `parse_dns_into` on an event with supported addresses to its two payload
parsers. Everything else about the function is read off that equation: it does not depend on the old
contents of the slot, it does not panic on a payload of at most 512 bytes, and on success the slot
holds the header fields, the domain and exactly the decoded records.
-/

namespace CiliumMini

open Exec

/-- The address families `parse_ip` accepts. -/
def RawIpAddr.Supported (ip : RawIpAddr) : Prop := ip.family = afInet ∨ ip.family = afInet6

/-- The text `parse_ip` writes. -/
def RawIpAddr.text (ip : RawIpAddr) : List Char :=
  if ip.family = afInet then (Ipv4Addr.mk ⟨ip.bytes.toList.take 4, by simp⟩).display
  else (Ipv6Addr.mk ip.bytes).display

/-- The text of an address is short, whatever its bytes are. -/
theorem RawIpAddr.length_text_le (ip : RawIpAddr) : ip.text.length ≤ 82 := by
  unfold RawIpAddr.text
  split
  · exact (Ipv4Addr.length_display_le _).trans (by decide)
  · exact Ipv6Addr.length_display_le _

/-- `parse_ip` appends the text of the address. -/
theorem parseIp_run {ip : RawIpAddr} (h : ip.Supported) (out : String) :
    (parseIp ip).run out = (.ok (), out ++ String.ofList ip.text) := by
  by_cases h4 : ip.family = afInet
  · rw [parseIp, RawIpAddr.text, if_pos h4, if_pos h4]
    obtain ⟨⟨bytes, hbytes⟩, family, pad⟩ := ip
    -- the four indices are those of sixteen bytes
    match bytes, hbytes with
    | b0 :: b1 :: b2 :: b3 :: rest, _ => rfl
  · have h6 : ip.family = afInet6 := h.resolve_left h4
    rw [parseIp, RawIpAddr.text, if_neg h4, if_neg h4, if_pos h6]
    rfl

/-- Of any other family it appends nothing. -/
theorem parseIp_run_unsupported {ip : RawIpAddr} (h : ¬ ip.Supported) (out : String) :
    (parseIp ip).run out = (.err (.unsupportedAddressFamily ip.family), out) := by
  have h4 : ¬ ip.family = afInet := fun h4 => h (Or.inl h4)
  have h6 : ¬ ip.family = afInet6 := fun h6 => h (Or.inr h6)
  rw [parseIp, if_neg h4, if_neg h6, run_lift]

/-- Nothing of the old slot survives `reset_slot`. -/
theorem resetSlot_eq (slot : DnsResponse) : resetSlot slot = default := rfl

/-- The event's addresses are of a supported family. -/
def RawDnsEvent.Supported (ev : RawDnsEvent) : Prop := ev.srcIp.Supported ∧ ev.dstIp.Supported

/-- The slot once the header fields and the domain are in place. -/
def RawDnsEvent.headed (ev : RawDnsEvent) (domain : String) : DnsResponse where
  srcIp := String.ofList ev.srcIp.text
  dstIp := String.ofList ev.dstIp.text
  srcPort := ev.srcPort.toUInt32
  dstPort := ev.dstPort.toUInt32
  timestampNs := ev.timestampNs
  domainName := domain
  resolvedIp := ""
  resolvedIpRaw := []
  ipFamily := 0

/-- The bytes from the question on. -/
def RawDnsEvent.question (ev : RawDnsEvent) : List UInt8 := ev.message.drop DnsHdr.len

/-- The bytes behind a question whose name takes `qnameLen` bytes. -/
def RawDnsEvent.answers (ev : RawDnsEvent) (qnameLen : ℕ) : List UInt8 :=
  ev.message.drop (DnsHdr.len + qnameLen + 4)

/-- ANCOUNT. -/
def RawDnsEvent.anscount (ev : RawDnsEvent) : UInt16 := u16At ev.message 6

/-- The address records that `parse_rdata` decodes while the event is parsed. -/
def RawDnsEvent.decoded (ev : RawDnsEvent) : List AddrRecord :=
  match (parseQname ev.question).run "" with
  | (.ok n, _) => decodedRecords (ev.answers n) ev.anscount.toNat 0
  | _ => []

/-- What an event is parsed to in a fresh slot. -/
def freshParse (ev : RawDnsEvent) : Option DnsResponse :=
  match (parseDnsInto ev).run default with
  | (.ok (), m) => some m
  | _ => none

section Event

variable {ev : RawDnsEvent}

/-- A fresh parse is a parse into an empty slot. -/
theorem freshParse_eq_some {m : DnsResponse} :
    freshParse ev = some m ↔ (parseDnsInto ev).run default = (.ok (), m) := by
  unfold freshParse
  rcases (parseDnsInto ev).run default with ⟨⟨⟩ | e | _, s⟩ <;> simp

/-- Up to 512 bytes, the message is as long as it says. -/
theorem length_message_eq (hlen : ev.payloadLen.toNat ≤ maxDnsPayloadSize) :
    ev.message.length = ev.payloadLen.toNat := by
  rw [RawDnsEvent.length_message, Nat.min_eq_left hlen]

/-- The parser never looks at more than 512 bytes. -/
theorem length_message_le : ev.message.length ≤ 512 := by
  rw [RawDnsEvent.length_message]
  exact Nat.min_le_right _ _

/-- So no offset into the question overflows. -/
theorem length_question_lt (ev : RawDnsEvent) : ev.question.length < 2 ^ 63 := by
  have hmax : ev.message.length ≤ 512 := length_message_le
  rw [RawDnsEvent.question, List.length_drop]
  omega

/-- The header is read from the first twelve bytes. -/
theorem fromPayload_eq {payload : List UInt8} (hlen : payload.length < 2 ^ 63)
    (h : DnsHdr.len ≤ payload.length) :
    DnsHdr.fromPayload payload =
      .ok ⟨u16At payload 0, u16At payload 2, u16At payload 4, u16At payload 6, u16At payload 8,
        u16At payload 10⟩ := by
  have h12 : 12 ≤ payload.length := h
  rw [DnsHdr.fromPayload, failIf_neg (by omega), Outcome.ok_bind, beU16At_eq hlen (by omega),
    Outcome.ok_bind, beU16At_eq hlen (by omega), Outcome.ok_bind, beU16At_eq hlen (by omega),
    Outcome.ok_bind, beU16At_eq hlen (by omega), Outcome.ok_bind, beU16At_eq hlen (by omega),
    Outcome.ok_bind, beU16At_eq hlen (by omega), Outcome.ok_bind, Outcome.pure_eq]

/-- The part of `parse_dns_into` behind the header fields. -/
theorem parseDnsInto_run (hsup : ev.Supported) (hlen : ev.payloadLen.toNat ≤ maxDnsPayloadSize)
    (h12 : DnsHdr.len ≤ ev.message.length) (slot : DnsResponse) :
    (parseDnsInto ev).run slot =
      match (parseQname ev.question).run "" with
      | (.ok n, domain) =>
        if DnsHdr.len + n + 4 > ev.message.length then
          (.err .unexpectedEndOfPayload, ev.headed domain)
        else (parseRdata (ev.answers n) ev.anscount).run (ev.headed domain)
      | (.err e, domain) => (.err e, ev.headed domain)
      | (.panic, domain) => (.panic, ev.headed domain) := by
  have hmsg := length_message_eq hlen
  have hmax : ev.message.length ≤ 512 := length_message_le
  have hhdr : DnsHdr.len = 12 := rfl
  -- the statements in front of the payload, one by one
  have hsrc : (zoom (·.srcIp) (fun v s => { s with srcIp := v }) (parseIp ev.srcIp)).run
      (default : DnsResponse) = (.ok (), { (default : DnsResponse) with
        srcIp := String.ofList ev.srcIp.text }) := by
    rw [run_zoom, parseIp_run hsup.1]
    simp [default]
  have hdst : (zoom (·.dstIp) (fun v s => { s with dstIp := v }) (parseIp ev.dstIp)).run
      { (default : DnsResponse) with srcIp := String.ofList ev.srcIp.text } =
      (.ok (), { (default : DnsResponse) with
        srcIp := String.ofList ev.srcIp.text, dstIp := String.ofList ev.dstIp.text }) := by
    rw [run_zoom, parseIp_run hsup.2]
    simp [default]
  have hpayload : (sliceTo ev.payload.toList ev.payloadLen.toNat : Outcome DnsParseError _) =
      .ok ev.message := by
    rw [sliceTo_eq (by simpa using hlen)]
    rfl
  have hquestion :
      (sliceFrom ev.message DnsHdr.len : Outcome DnsParseError _) = .ok ev.question := by
    rw [sliceFrom_eq h12]
    rfl
  rw [parseDnsInto, run_modify_bind, resetSlot_eq, run_bind_ok hsrc, run_bind_ok hdst,
    run_modify_bind, run_modify_bind, run_modify_bind,
    run_lift_bind_ok (failIf_neg (by omega) _), run_lift_bind_ok hpayload,
    run_lift_bind_ok hquestion, run_bind, run_zoom]
  -- the name ends inside the question, so the additions behind it do not overflow
  have hspec := parseQname_spec "" (length_question_lt ev)
  unfold Exec.Spec Post at hspec
  have hqlen : ev.question.length = ev.message.length - 12 := by
    rw [RawDnsEvent.question, List.length_drop, hhdr]
  simp only [default]
  rcases hq : (parseQname ev.question).run "" with ⟨n | e | _, domain⟩
  · rw [hq] at hspec
    obtain ⟨hn, -⟩ := hspec
    simp only
    rw [run_lift_bind_ok (fromPayload_eq (by omega) h12),
      run_lift_bind_ok (usizeAdd_eq (by omega)), run_lift_bind_ok (usizeAdd_eq (by omega))]
    by_cases hend : DnsHdr.len + n + 4 > ev.message.length
    · rw [if_pos hend, run_lift_bind_err (failIf_pos (by omega) _)]
      rfl
    · rw [if_neg hend, run_lift_bind_ok (failIf_neg (by omega) _),
        run_lift_bind_ok (sliceFrom_eq (by omega))]
      rfl
  · rfl
  · rfl

/-- A message that is shorter than a header is refused. -/
theorem parseDnsInto_run_short (hsup : ev.Supported)
    (hlen : ev.payloadLen.toNat ≤ maxDnsPayloadSize) (h12 : ev.message.length < DnsHdr.len)
    (slot : DnsResponse) :
    ((parseDnsInto ev).run slot).1 = .err .unexpectedEndOfPayload := by
  have hmsg := length_message_eq hlen
  -- the header fields are already in the slot when the length is checked
  rw [parseDnsInto, run_modify_bind, run_bind_ok (by rw [run_zoom, parseIp_run hsup.1]),
    run_bind_ok (by rw [run_zoom, parseIp_run hsup.2]), run_modify_bind, run_modify_bind,
    run_modify_bind, run_lift_bind_err (failIf_pos (by omega) _)]

/-- An event with an unsupported address is rejected with that family. -/
theorem parseDnsInto_run_unsupported (hsup : ¬ ev.Supported) (slot : DnsResponse) :
    ∃ af, ((parseDnsInto ev).run slot).1 = .err (.unsupportedAddressFamily af) := by
  by_cases hsrc : ev.srcIp.Supported
  · have hdst : ¬ ev.dstIp.Supported := fun hdst => hsup ⟨hsrc, hdst⟩
    refine ⟨ev.dstIp.family, ?_⟩
    rw [parseDnsInto, run_modify_bind, run_bind_ok (by rw [run_zoom, parseIp_run hsrc]),
      run_bind_err (by rw [run_zoom, parseIp_run_unsupported hdst])]
  · refine ⟨ev.srcIp.family, ?_⟩
    rw [parseDnsInto, run_modify_bind,
      run_bind_err (by rw [run_zoom, parseIp_run_unsupported hsrc])]

/-- The result and the final slot do not depend on what the slot held before. -/
theorem parseDnsInto_run_slot (ev : RawDnsEvent) (slot : DnsResponse) :
    (parseDnsInto ev).run slot = (parseDnsInto ev).run default := by
  rw [parseDnsInto, run_modify_bind, run_modify_bind, resetSlot_eq, resetSlot_eq]

/-- With supported addresses and a payload of at most 512 bytes, `parse_dns_into` never panics and
only fails with wire errors. -/
theorem parseDnsInto_spec (hsup : ev.Supported) (hlen : ev.payloadLen.toNat ≤ maxDnsPayloadSize)
    (slot : DnsResponse) :
    (parseDnsInto ev).Spec slot (fun _ _ => True) (fun e _ => e.IsWire) := by
  have hmax : ev.message.length ≤ 512 := length_message_le
  by_cases h12 : DnsHdr.len ≤ ev.message.length
  · have hspec := parseQname_spec "" (length_question_lt ev)
    unfold Exec.Spec at hspec ⊢
    rw [parseDnsInto_run hsup hlen h12]
    rcases hq : (parseQname ev.question).run "" with ⟨n | e | _, domain⟩
    · simp only
      split
      · exact trivial
      · exact parseRdata_spec (by rw [RawDnsEvent.answers, List.length_drop]; omega) _ _
    · rw [hq] at hspec
      exact hspec
    · rw [hq] at hspec
      exact hspec
  · unfold Exec.Spec Post
    rw [parseDnsInto_run_short hsup hlen (by omega)]
    exact trivial

/-- On a payload of at most 512 bytes `parse_dns_into` never panics, whatever the addresses. -/
theorem parseDnsInto_ne_panic (hlen : ev.payloadLen.toNat ≤ maxDnsPayloadSize)
    (slot : DnsResponse) :
    ((parseDnsInto ev).run slot).1 ≠ .panic := by
  by_cases hsup : ev.Supported
  · exact (parseDnsInto_spec hsup hlen slot).ne_panic
  · obtain ⟨af, haf⟩ := parseDnsInto_run_unsupported hsup slot
    rw [haf]
    simp

/-- What a successful parse went through, and what it leaves in the slot. -/
theorem parseDnsInto_ok (hlen : ev.payloadLen.toNat ≤ maxDnsPayloadSize) {slot s : DnsResponse}
    (h : (parseDnsInto ev).run slot = (.ok (), s)) :
    ev.Supported ∧ ∃ n domain, (parseQname ev.question).run "" = (.ok n, domain) ∧
      DnsHdr.len + n + 4 < ev.message.length ∧
      (parseRdataLoop (ev.answers n) ev.anscount.toNat 0).run (ev.headed domain) = (.ok (), s) ∧
      s = (ev.headed domain).addRecords ev.decoded := by
  have hmax : ev.message.length ≤ 512 := length_message_le
  have hsup : ev.Supported := by
    by_contra hsup
    obtain ⟨af, haf⟩ := parseDnsInto_run_unsupported hsup slot
    rw [h] at haf
    exact absurd haf (by simp)
  have h12 : DnsHdr.len ≤ ev.message.length := by
    by_contra h12
    have hshort := parseDnsInto_run_short hsup hlen (by omega) slot
    rw [h] at hshort
    exact absurd hshort (by simp)
  rw [parseDnsInto_run hsup hlen h12] at h
  -- only a name that is read leads to success
  rcases hq : (parseQname ev.question).run "" with ⟨n | e | _, domain⟩
  · simp only [hq] at h
    by_cases hend : DnsHdr.len + n + 4 > ev.message.length
    · rw [if_pos hend] at h
      exact absurd (congrArg Prod.fst h) (by simp)
    rw [if_neg hend, parseRdata] at h
    obtain ⟨⟨⟩, hne, hloop⟩ := run_lift_bind_eq_ok.mp h
    have hanswers : (ev.answers n).length = ev.message.length - (DnsHdr.len + n + 4) := by
      rw [RawDnsEvent.answers, List.length_drop]
    -- `parse_rdata` has refused an empty section
    have hpos : (ev.answers n).length ≠ 0 := by
      rw [failIf_eq_ok, List.isEmpty_iff] at hne
      exact fun h0 => hne (List.length_eq_zero_iff.mp h0)
    refine ⟨hsup, n, domain, rfl, by omega, hloop, ?_⟩
    have hdec : ev.decoded = decodedRecords (ev.answers n) ev.anscount.toNat 0 := by
      rw [RawDnsEvent.decoded, hq]
    rw [hdec]
    exact parseRdataLoop_run_ok _ hloop
  · simp only [hq] at h
    exact absurd (congrArg Prod.fst h) (by simp)
  · simp only [hq] at h
    exact absurd (congrArg Prod.fst h) (by simp)

/-- The address fields of a parsed response: the bytes of all decoded records, and the family of the
last one, or 0 if there is none. -/
theorem parseDnsInto_records (hlen : ev.payloadLen.toNat ≤ maxDnsPayloadSize)
    {slot s : DnsResponse} (h : (parseDnsInto ev).run slot = (.ok (), s)) :
    s.resolvedIpRaw = ev.decoded.flatMap AddrRecord.bytes ∧
      s.ipFamily = (ev.decoded.getLast?.map AddrRecord.family).getD 0 := by
  obtain ⟨-, n, domain, -, -, -, rfl⟩ := parseDnsInto_ok hlen h
  exact ⟨addRecords_resolvedIpRaw _ _, addRecords_ipFamily _ _⟩

end Event

end CiliumMini
