import CiliumMini.Parser.Events
import CiliumMini.Parser.Grammar

/-!
# Well-formed responses

What the parser does with a message that follows the wire format. Both name walkers measure a name
exactly. The first answer is read correctly. Every later answer is located with the length of its
name counted from the start of the answer section, so when the second name is as long as the first,
each further iteration reads the first record again (`parseRdataLoop_repeat`).
-/

namespace CiliumMini

open Exec Dns

/-! ## Records -/

/-- The record the parser should decode from a resource record. -/
def Dns.ResourceRecord.addr? (r : ResourceRecord) : Option AddrRecord :=
  if ha : r.rtype = typeA then some (.a ⟨r.rdata, r.length_a ha⟩)
  else if haaaa : r.rtype = typeAAAA then some (.aaaa ⟨r.rdata, r.length_aaaa haaaa⟩)
  else none

/-- The decoded record has the bytes that the answer carries. -/
theorem flatMap_bytes_addr? (r : ResourceRecord) :
    r.addr?.toList.flatMap AddrRecord.bytes = r.addressBytes := by
  unfold ResourceRecord.addr? ResourceRecord.addressBytes
  by_cases ha : r.rtype = typeA
  · simp [ha, AddrRecord.bytes]
  · by_cases haaaa : r.rtype = typeAAAA
    · rw [dif_neg ha, dif_pos haaaa, if_pos (Or.inr haaaa)]
      simp [AddrRecord.bytes]
    · simp [ha, haaaa]

section Section

variable {payload tail : List UInt8} {offset : ℕ}

/-- Reading a `u16` field that the encoder wrote at its place. -/
theorem u16At_append {pre : List UInt8} {v : ℕ} (hv : v < 65536) (tail : List UInt8)
    (h : payload = pre ++ (beBytes 2 v ++ tail)) : (u16At payload pre.length).toNat = v := by
  have htake : (payload.drop pre.length).take 2 = beBytes 2 v := by
    rw [h, List.drop_left]
    exact List.take_left' (length_beBytes 2 v)
  rw [u16At, htake, ofBe_beBytes_of_lt (by norm_num; exact hv)]
  simpa using hv

/-- What one iteration reads when the fixed part it looks at is that of `r`. -/
def Dns.ResourceRecord.read (r : ResourceRecord) : RecordRead where
  rtype := RecordType.tryFrom r.rtype
  rdlength := r.rdata.length
  rdata := r.rdata
  next := r.encode.length

/-- The record at the length of the first name is the first record. -/
theorem recordAt_encode (r : ResourceRecord) (h : payload = r.encode ++ tail) :
    recordAt payload r.name.encode.length = r.read := by
  have htype : u16At payload r.name.encode.length = r.rtype := by
    rw [← UInt16.toNat_inj]
    refine u16At_append r.rtype.toNat_lt (beBytes 2 r.rclass.toNat ++ beBytes 4 r.ttl.toNat ++
      beBytes 2 r.rdata.length ++ r.rdata ++ tail) ?_
    rw [h, ResourceRecord.encode, ResourceRecord.fixedPart]
    simp only [List.append_assoc]
  have hlength : (u16At payload (r.name.encode.length + 8)).toNat = r.rdata.length := by
    have hpre : r.name.encode.length + 8 = (r.name.encode ++ (beBytes 2 r.rtype.toNat ++
        beBytes 2 r.rclass.toNat ++ beBytes 4 r.ttl.toNat)).length := by simp
    rw [hpre]
    refine u16At_append r.rdata_lt (r.rdata ++ tail) ?_
    rw [h, ResourceRecord.encode, ResourceRecord.fixedPart]
    simp only [List.append_assoc]
  have hrdata : (payload.drop (r.name.encode.length + rrFixedHdrLen)).take r.rdata.length =
      r.rdata := by
    have hpre : r.name.encode.length + rrFixedHdrLen = (r.name.encode ++ r.fixedPart).length := by
      simp [rrFixedHdrLen]
    rw [h, hpre, ResourceRecord.encode, ← List.append_assoc r.name.encode, List.append_assoc,
      List.drop_left, List.take_left]
  have hnext : r.name.encode.length + rrFixedHdrLen + r.rdata.length = r.encode.length := by
    simp [ResourceRecord.encode, rrFixedHdrLen]
    omega
  simp only [recordAt, ResourceRecord.read, htype, hlength, hrdata, hnext]

/-- `skip_name` measures the name of the record its slice starts with. -/
theorem skipName_record (r : ResourceRecord) (hlen : (r.encode ++ tail).length < 2 ^ 63) :
    skipName (r.encode ++ tail) = .ok r.name.encode.length := by
  rw [ResourceRecord.encode, List.append_assoc] at hlen ⊢
  exact skipName_encode r.name hlen

/-- An iteration that measures a name as long as the first one reads the first record. -/
theorem readRecord_first (hlen : payload.length < 2 ^ 63) (r : ResourceRecord)
    (h : payload = r.encode ++ tail) (hoff : offset < payload.length)
    (hname : skipName (payload.drop offset) = .ok r.name.encode.length) :
    readRecord payload offset = .ok r.read := by
  have hend : r.encode.length ≤ payload.length := by
    rw [h, List.length_append]
    omega
  have hfixed : r.name.encode.length + rrFixedHdrLen ≤ payload.length := by
    simp only [ResourceRecord.encode, List.length_append, ResourceRecord.length_fixedPart] at hend
    unfold rrFixedHdrLen
    omega
  rw [readRecord_eq hlen hoff hname, recordAt_encode r h, if_neg (by omega)]
  exact if_neg (Nat.not_lt.mpr hend)

/-- Storing a well-formed record never fails: it adds the address, if the record has one. -/
theorem storeRecord_read (r : ResourceRecord) (s : DnsResponse) :
    (storeRecord r.read).run s = (.ok (), s.addRecords r.addr?.toList) := by
  rw [storeRecord_run r.read rfl]
  unfold ResourceRecord.addr?
  by_cases ha : r.rtype = typeA
  · have haddr : r.read.addr? = some (.a ⟨r.rdata, r.length_a ha⟩) := by
      simp only [RecordRead.addr?, ResourceRecord.read, RecordType.tryFrom, ha]
      exact dif_pos (r.length_a ha)
    rw [haddr, dif_pos ha]
    rfl
  · by_cases haaaa : r.rtype = typeAAAA
    · have haddr : r.read.addr? = some (.aaaa ⟨r.rdata, r.length_aaaa haaaa⟩) := by
        simp only [RecordRead.addr?, ResourceRecord.read, RecordType.tryFrom, haaaa]
        exact dif_pos (r.length_aaaa haaaa)
      rw [haddr, dif_neg ha, dif_pos haaaa]
      rfl
    · -- the two arms that only log
      have htype : r.read.rtype = .cname ∨ r.read.rtype = .unsupported r.rtype := by
        have ha' : ¬ r.rtype = 1 := ha
        have haaaa' : ¬ r.rtype = 28 := haaaa
        simp only [ResourceRecord.read, RecordType.tryFrom, if_neg ha', if_neg haaaa']
        split
        · exact Or.inl rfl
        · exact Or.inr rfl
      have haddr : r.read.addr? = none := by
        rcases htype with h | h <;> simp only [RecordRead.addr?, h]
      rw [haddr, dif_neg ha, dif_neg haaaa]
      rcases htype with h | h <;> simp [h, DnsResponse.addRecords]

/-- When every iteration measures a name as long as the first one, every iteration stores the first
record. -/
theorem parseRdataLoop_repeat (hlen : payload.length < 2 ^ 63) (r : ResourceRecord)
    (h : payload = r.encode ++ tail) (k : ℕ) (hoff : offset < payload.length)
    (hname : skipName (payload.drop offset) = .ok r.name.encode.length)
    (hagain : k = 0 ∨ r.encode.length < payload.length ∧
      skipName (payload.drop r.encode.length) = .ok r.name.encode.length) (s : DnsResponse) :
    (parseRdataLoop payload (k + 1) offset).run s =
      (.ok (), s.addRecords (List.replicate (k + 1) r.addr?.toList).flatten) := by
  induction k generalizing offset s with
  | zero =>
    rw [parseRdataLoop, run_lift_bind_ok (readRecord_first hlen r h hoff hname),
      run_bind_ok (storeRecord_read r s), parseRdataLoop, run_pure]
    simp
  | succ k ih =>
    -- the offset behind the first record is where every further iteration starts
    obtain ⟨hoff', hname'⟩ := hagain.resolve_left (by omega)
    rw [parseRdataLoop, run_lift_bind_ok (readRecord_first hlen r h hoff hname),
      run_bind_ok (storeRecord_read r s)]
    have hrest := ih hoff' hname' (Or.inr ⟨hoff', hname'⟩) (s.addRecords r.addr?.toList)
    rw [show r.read.next = r.encode.length from rfl, hrest, List.replicate_succ (n := k + 1),
      List.flatten_cons, DnsResponse.addRecords, DnsResponse.addRecords, DnsResponse.addRecords,
      List.foldl_append]

end Section

/-! ## Messages -/

/-- The event carries exactly the message `m`. -/
def RawDnsEvent.Carries (ev : RawDnsEvent) (m : Response) : Prop :=
  ev.payloadLen.toNat = m.encode.length ∧ ev.message = m.encode

/-- An event that carries as many bytes as it announces announces at most 512. -/
theorem payloadLen_le_of_message {ev : RawDnsEvent} {bytes : List UInt8}
    (hlen : ev.payloadLen.toNat = bytes.length) (hmsg : ev.message = bytes) :
    ev.payloadLen.toNat ≤ maxDnsPayloadSize := by
  have hmin := ev.length_message
  rw [hmsg, ← hlen] at hmin
  omega

section Message

variable {ev : RawDnsEvent} {m : Response}

/-- A carried message keeps the bound on `payload_len`. -/
theorem RawDnsEvent.Carries.payloadLen_le (h : ev.Carries m) :
    ev.payloadLen.toNat ≤ maxDnsPayloadSize := payloadLen_le_of_message h.1 h.2

/-- A carried message fits the payload. -/
theorem RawDnsEvent.Carries.length_le (h : ev.Carries m) : m.encode.length ≤ 512 := by
  rw [← h.2]
  exact length_message_le

/-- Behind the header lie the question name, type and class, and the answers. -/
theorem RawDnsEvent.Carries.question_eq (h : ev.Carries m) :
    ev.question = m.question.encode ++
      (beBytes 2 m.qtype.toNat ++ beBytes 2 m.qclass.toNat ++ m.answerSection) := by
  have hhdr : DnsHdr.len = m.header.length := by simp [DnsHdr.len]
  rw [RawDnsEvent.question, h.2, Response.encode, hhdr, List.drop_left]

/-- With the length of the question name, the answer section is found. -/
theorem RawDnsEvent.Carries.answers_eq (h : ev.Carries m) :
    ev.answers m.question.encode.length = m.answerSection := by
  have hsplit : m.encode = (m.header ++ (m.question.encode ++
      (beBytes 2 m.qtype.toNat ++ beBytes 2 m.qclass.toNat))) ++ m.answerSection := by
    simp only [Response.encode, List.append_assoc]
  have hpre : DnsHdr.len + m.question.encode.length + 4 = (m.header ++ (m.question.encode ++
      (beBytes 2 m.qtype.toNat ++ beBytes 2 m.qclass.toNat))).length := by
    simp [DnsHdr.len]
    omega
  rw [RawDnsEvent.answers, h.2, hsplit, hpre, List.drop_left]

/-- The header announces the answers that there are. -/
theorem RawDnsEvent.Carries.anscount_eq (h : ev.Carries m) :
    ev.anscount.toNat = m.answers.length := by
  have hle := m.length_answers_le
  have hfit := h.length_le
  have hpre : 6 = (beBytes 2 m.id.toNat ++ beBytes 2 m.flags.toNat ++ beBytes 2 1).length := by simp
  rw [RawDnsEvent.anscount, hpre]
  refine u16At_append (by omega) (beBytes 2 m.nscount.toNat ++ beBytes 2 m.arcount.toNat ++
    (m.question.encode ++ (beBytes 2 m.qtype.toNat ++ beBytes 2 m.qclass.toNat ++
      m.answerSection))) ?_
  rw [h.2, Response.encode, Response.header]
  simp only [List.append_assoc]

/-- On a well-formed message everything up to the answer section is parsed as it was encoded. -/
theorem parseDnsInto_run_carries (hsup : ev.Supported) (h : ev.Carries m) (slot : DnsResponse) :
    (parseDnsInto ev).run slot =
      (parseRdata m.answerSection ev.anscount).run
        (ev.headed (String.ofList m.question.dotted)) := by
  have hfit := h.length_le
  have hlen := m.length_encode
  have hq : (parseQname ev.question).run "" =
      (.ok m.question.encode.length, String.ofList m.question.dotted) := by
    rw [h.question_eq]
    exact parseQname_encode m.question _
  rw [parseDnsInto_run hsup h.payloadLen_le (by rw [h.2, hlen]; unfold DnsHdr.len; omega), hq]
  simp only
  rw [if_neg (by rw [h.2, hlen]; unfold DnsHdr.len; omega), h.answers_eq]

/-- The second answer's name takes as many bytes as the first one's. -/
def Dns.Response.SecondNameAligned (m : Response) : Prop :=
  match m.answers with
  | r₁ :: r₂ :: _ => r₂.name.encode.length = r₁.name.encode.length
  | _ => True

/-- The address bytes of the first answer, once for each answer. -/
def Dns.Response.firstRepeated (m : Response) : List UInt8 :=
  match m.answers with
  | [] => []
  | r :: _ => (List.replicate m.answers.length r.addressBytes).flatten

/-- The same record again and again has its bytes again and again. -/
theorem flatMap_bytes_replicate (r : ResourceRecord) (n : ℕ) :
    (List.replicate n r.addr?.toList).flatten.flatMap AddrRecord.bytes =
      (List.replicate n r.addressBytes).flatten := by
  induction n with
  | zero => rfl
  | succ n ih =>
    rw [List.replicate_succ, List.replicate_succ, List.flatten_cons, List.flatten_cons,
      List.flatMap_append, flatMap_bytes_addr?, ih]

/-- With an aligned second name and any byte behind the question, the parse succeeds, and
`resolved_ip_raw` is the first answer's address once for each answer. -/
theorem parseDnsInto_aligned (hsup : ev.Supported) (h : ev.Carries m) (hal : m.SecondNameAligned)
    (hne : m.answerSection ≠ []) (slot : DnsResponse) :
    ∃ s, (parseDnsInto ev).run slot = (.ok (), s) ∧
      s.domainName = String.ofList m.question.dotted ∧ s.resolvedIpRaw = m.firstRepeated := by
  have hfit := h.length_le
  have hlen := m.length_encode
  have hsec : m.answerSection.length < 2 ^ 63 := by omega
  rw [parseDnsInto_run_carries hsup h, parseRdata,
    run_lift_bind_ok (failIf_neg (by simpa using hne) _), h.anscount_eq]
  unfold Response.SecondNameAligned at hal
  unfold Response.firstRepeated
  cases hans : m.answers with
  | nil => exact ⟨_, rfl, rfl, rfl⟩
  | cons r rs =>
    rw [hans] at hal
    have hsplit : m.answerSection =
        r.encode ++ (rs.flatMap ResourceRecord.encode ++ m.trailing) := by
      rw [Response.answerSection, hans, List.flatMap_cons, List.append_assoc]
    have hpos : 0 < m.answerSection.length := List.length_pos_iff.mpr hne
    have hname : skipName (m.answerSection.drop 0) = .ok r.name.encode.length := by
      rw [hsplit] at hsec
      rw [List.drop_zero, hsplit]
      exact skipName_record r hsec
    have hagain : rs.length = 0 ∨ r.encode.length < m.answerSection.length ∧
        skipName (m.answerSection.drop r.encode.length) = .ok r.name.encode.length := by
      cases rs with
      | nil => exact Or.inl rfl
      | cons r₂ rs =>
        right
        have hdrop : m.answerSection.drop r.encode.length =
            r₂.encode ++ (rs.flatMap ResourceRecord.encode ++ m.trailing) := by
          rw [hsplit, List.drop_left, List.flatMap_cons, List.append_assoc]
        have hcut := congrArg List.length hdrop
        have hpos₂ := r₂.length_encode_pos
        rw [List.length_drop, List.length_append] at hcut
        refine ⟨by omega, ?_⟩
        -- the name measured here is the second one; its length is that of the first
        rw [hdrop, ← hal]
        apply skipName_record r₂
        rw [← hdrop, List.length_drop]
        omega
    rw [List.length_cons, parseRdataLoop_repeat hsec r hsplit rs.length hpos hname hagain]
    refine ⟨_, rfl, ?_, ?_⟩
    · rw [addRecords_frame]
      rfl
    · rw [addRecords_resolvedIpRaw, flatMap_bytes_replicate]
      rfl

/-- Nothing behind the question: the parse fails, also when no answer is announced. -/
theorem parseDnsInto_empty_section (hsup : ev.Supported) (h : ev.Carries m)
    (hempty : m.answerSection = []) (slot : DnsResponse) :
    ((parseDnsInto ev).run slot).1 = .err .unexpectedEndOfPayload := by
  rw [parseDnsInto_run_carries hsup h, hempty, parseRdata,
    run_lift_bind_err (failIf_pos (by simp) _)]

end Message

/-! ## Extraction and acceptance

`ExtractsAnswers` is what a reader of the log expects of a parsed response and `Accepts` is that
there is a log entry at all. Both hold when the loop may read the first record again and again
without changing the outcome; the examples show both failing on plain responses.
-/

/-- If the event is parsed, the slot holds the question's name and the addresses of all answers. -/
def ExtractsAnswers (ev : RawDnsEvent) (m : Response) (slot : DnsResponse) : Prop :=
  ∀ s, (parseDnsInto ev).run slot = (.ok (), s) →
    s.domainName = String.ofList m.question.dotted ∧ s.resolvedIpRaw = m.addresses

/-- The event is parsed. -/
def Accepts (ev : RawDnsEvent) (slot : DnsResponse) : Prop :=
  ∃ s, (parseDnsInto ev).run slot = (.ok (), s)

/-- An event with the given addresses that carries `msg`, padded with zeros. -/
def RawDnsEvent.carrying (src dst : RawIpAddr) (msg : List UInt8)
    (h : msg.length ≤ maxDnsPayloadSize) : RawDnsEvent where
  srcIp := src
  dstIp := dst
  srcPort := 53
  dstPort := 40000
  pad := 0
  payloadLen := UInt16.ofNat msg.length
  timestampNs := 1
  payload := ⟨msg ++ List.replicate (maxDnsPayloadSize - msg.length) 0, by simp; omega⟩

/-- The event announces the length of its message. -/
theorem RawDnsEvent.payloadLen_carrying (src dst : RawIpAddr) (msg : List UInt8)
    (h : msg.length ≤ maxDnsPayloadSize) :
    (RawDnsEvent.carrying src dst msg h).payloadLen.toNat = msg.length := by
  have hlt : msg.length < 65536 := h.trans_lt (by decide)
  simpa [RawDnsEvent.carrying] using hlt

/-- The padding is cut off. -/
theorem RawDnsEvent.message_carrying (src dst : RawIpAddr) (msg : List UInt8)
    (h : msg.length ≤ maxDnsPayloadSize) : (RawDnsEvent.carrying src dst msg h).message = msg := by
  rw [RawDnsEvent.message, payloadLen_carrying]
  exact List.take_left

/-- So every message that fits is carried by an event. -/
theorem RawDnsEvent.carrying_carries (src dst : RawIpAddr) (m : Response)
    (h : m.encode.length ≤ maxDnsPayloadSize) :
    (RawDnsEvent.carrying src dst m.encode h).Carries m :=
  ⟨payloadLen_carrying src dst m.encode h, message_carrying src dst m.encode h⟩

/-- Only without answers and trailing bytes is there nothing behind the question. -/
theorem answerSection_eq_nil (m : Response) :
    m.answerSection = [] ↔ m.answers = [] ∧ m.trailing = [] := by
  have hrec : ∀ r : ResourceRecord, r.encode ≠ [] :=
    fun r => List.ne_nil_of_length_pos r.length_encode_pos
  rw [Response.answerSection, List.append_eq_nil_iff]
  cases m.answers <;> simp [hrec]

/-- An event of an unsupported family is never parsed, so nothing wrong is extracted from it. -/
theorem extractsAnswers_of_not_supported {ev : RawDnsEvent} {m : Response} (h : ev.Carries m)
    (hsup : ¬ ev.Supported) (slot : DnsResponse) : ExtractsAnswers ev m slot := by
  intro s hs
  exact absurd (parseDnsInto_ok h.payloadLen_le hs).1 hsup

/-- With an aligned second name, a parsed response holds the right addresses exactly when they are
the first answer's address once for each answer. -/
theorem extractsAnswers_iff {ev : RawDnsEvent} {m : Response} (hsup : ev.Supported)
    (h : ev.Carries m) (hal : m.SecondNameAligned) (slot : DnsResponse) :
    ExtractsAnswers ev m slot ↔ m.addresses = m.firstRepeated := by
  by_cases hne : m.answerSection = []
  · -- the parse fails, but without answers there is nothing to extract either
    have hnone := ((answerSection_eq_nil m).mp hne).1
    have herr := parseDnsInto_empty_section hsup h hne slot
    refine iff_of_true (fun s hs => ?_) ?_
    · rw [hs] at herr
      exact absurd herr (by simp)
    · simp [Response.addresses, Response.firstRepeated, hnone]
  · obtain ⟨t, ht, hdomain, hraw⟩ := parseDnsInto_aligned hsup h hal hne slot
    constructor
    · intro hext
      rw [← (hext t ht).2, hraw]
    · intro haddr s hs
      obtain rfl : s = t := by
        rw [hs] at ht
        exact (Prod.mk.inj ht).2
      exact ⟨hdomain, hraw.trans haddr.symm⟩

/-- The right addresses come out if an address of the event is of an unsupported family, because
then nothing does, or if the second name is aligned and they are the first answer's address once for
each answer. For an aligned second name this is exact. -/
theorem parseDnsInto_extracts (ev : RawDnsEvent) (m : Response) (h : ev.Carries m)
    (slot : DnsResponse) :
    (¬ ev.Supported ∨ m.SecondNameAligned ∧ m.addresses = m.firstRepeated →
        ExtractsAnswers ev m slot) ∧
      (m.SecondNameAligned →
        (ExtractsAnswers ev m slot ↔ ¬ ev.Supported ∨ m.addresses = m.firstRepeated)) := by
  by_cases hsup : ev.Supported
  · refine ⟨?_, fun hal => ?_⟩
    · rintro (hnot | ⟨hal, haddr⟩)
      · exact absurd hsup hnot
      · exact (extractsAnswers_iff hsup h hal slot).mpr haddr
    · rw [extractsAnswers_iff hsup h hal slot]
      exact ⟨Or.inr, fun hor => hor.resolve_left (not_not_intro hsup)⟩
  · have hext := extractsAnswers_of_not_supported h hsup slot
    exact ⟨fun _ => hext, fun _ => iff_of_true hext (Or.inl hsup)⟩

/-- `1.1.1.1`, the resolver of the examples. -/
def exampleResolver : RawIpAddr := .fromIpv4 ⟨[1, 1, 1, 1], rfl⟩

/-- The name `a` in the examples. -/
def exampleLabel : Label := ⟨[97], by decide, by decide⟩

/-- A question for `a`, and its answers. -/
def exampleResponse (answers : List ResourceRecord) : Response where
  id := 1
  flags := 0x8180
  nscount := 0
  arcount := 0
  question := ⟨[exampleLabel], by simp [exampleLabel], by decide⟩
  qtype := typeA
  qclass := 1
  answers := answers
  trailing := []

/-- An A record with a name of one compression pointer to the question. -/
def examplePointerA (a b c d : UInt8) : ResourceRecord where
  name := ⟨[], .pointer 0xC0 12 (by decide)⟩
  rtype := typeA
  rclass := 1
  ttl := 60
  rdata := [a, b, c, d]
  rdata_lt := by simp
  length_a := fun _ => rfl
  length_aaaa := fun h => absurd h (by decide)

/-- An A record with its name written out. -/
def exampleLabelA (a b c d : UInt8) : ResourceRecord :=
  { examplePointerA a b c d with name := ⟨[exampleLabel], .root⟩ }

/-- A CNAME record from the question to the name `b`. -/
def exampleCname : ResourceRecord where
  name := ⟨[], .pointer 0xC0 12 (by decide)⟩
  rtype := 5
  rclass := 1
  ttl := 60
  rdata := [1, 98, 0]
  rdata_lt := by decide
  length_a := fun h => absurd h (by decide)
  length_aaaa := fun h => absurd h (by decide)

/-- The event that carries an example response. -/
def exampleEvent (answers : List ResourceRecord)
    (h : (exampleResponse answers).encode.length ≤ maxDnsPayloadSize) : RawDnsEvent :=
  .carrying exampleResolver exampleResolver (exampleResponse answers).encode h

/-- The event for one such A record. -/
def exampleEventA (a b c d : UInt8) : RawDnsEvent :=
  exampleEvent [examplePointerA a b c d] (Nat.le_of_ble_eq_true rfl)

/-- The event for a response of one CNAME record. -/
def exampleCnameEvent : RawDnsEvent := exampleEvent [exampleCname] (by decide)

/-- The event without answers. -/
def exampleEventNone : RawDnsEvent := exampleEvent [] (by decide)

theorem exampleEvent_supported (answers : List ResourceRecord)
    (h : (exampleResponse answers).encode.length ≤ maxDnsPayloadSize) :
    (exampleEvent answers h).Supported := ⟨Or.inl rfl, Or.inl rfl⟩

/-- One A record: the address comes out. -/
theorem parseDnsInto_extracts_one :
    ExtractsAnswers (exampleEventA 10 0 0 1) (exampleResponse [examplePointerA 10 0 0 1]) default :=
  (parseDnsInto_extracts _ _ (RawDnsEvent.carrying_carries _ _ _ (by decide)) default).1
    (Or.inr ⟨trivial, by decide⟩)

/-- Two A records: the first address comes out twice, the second is lost. -/
theorem parseDnsInto_loses_second :
    ¬ ∀ (ev : RawDnsEvent) (m : Response) (slot : DnsResponse),
      ev.Carries m → ExtractsAnswers ev m slot := by
  intro hall
  have hfit : (exampleResponse [examplePointerA 10 0 0 1, examplePointerA 10 0 0 2]).encode.length ≤
      maxDnsPayloadSize := by decide
  have hcarry : (exampleEvent _ hfit).Carries _ := RawDnsEvent.carrying_carries _ _ _ hfit
  obtain ⟨s, hs, -, hraw⟩ := parseDnsInto_aligned (exampleEvent_supported _ hfit) hcarry rfl
    (by decide +kernel) default
  have hright := (hall _ _ _ hcarry s hs).2
  rw [hraw] at hright
  exact absurd hright (by decide +kernel)

/-- A response with an aligned second name and any byte behind its question is accepted. One with
nothing behind its question never is. -/
theorem parseDnsInto_accepts (ev : RawDnsEvent) (m : Response) (hsup : ev.Supported)
    (h : ev.Carries m) (slot : DnsResponse) :
    (m.SecondNameAligned ∧ ¬ (m.answers = [] ∧ m.trailing = []) → Accepts ev slot) ∧
      (Accepts ev slot → ¬ (m.answers = [] ∧ m.trailing = [])) := by
  rw [← answerSection_eq_nil]
  constructor
  · rintro ⟨hal, hne⟩
    obtain ⟨s, hs, -⟩ := parseDnsInto_aligned hsup h hal hne slot
    exact ⟨s, hs⟩
  · rintro ⟨s, hs⟩ hempty
    have herr := parseDnsInto_empty_section hsup h hempty slot
    rw [hs] at herr
    exact absurd herr (by simp)

/-- One A record is accepted. -/
theorem parseDnsInto_accepts_one :
    Accepts (exampleEventA 10 0 0 1) default :=
  (parseDnsInto_accepts _ _ (exampleEvent_supported _ (by decide))
    (RawDnsEvent.carrying_carries _ _ _ (by decide)) default).1 ⟨trivial, by decide⟩

/-- A response without answers and without further bytes is rejected. So is one whose second name is
written out behind a first name that is a pointer: here the last two bytes of the first address are
taken for a length. -/
theorem parseDnsInto_rejects_wellFormed :
    (¬ ∀ (ev : RawDnsEvent) (m : Response) (slot : DnsResponse),
      ev.Supported → ev.Carries m → Accepts ev slot) ∧
      ¬ Accepts exampleEventNone default ∧
      ¬ Accepts (exampleEvent [examplePointerA 10 0 200 1, exampleLabelA 10 0 0 2] (by decide))
        default := by
  have hnone : ¬ Accepts exampleEventNone default := by
    rintro ⟨s, hs⟩
    have herr : ((parseDnsInto exampleEventNone).run default).1 =
        .err .unexpectedEndOfPayload := by decide +kernel
    rw [hs] at herr
    exact absurd herr (by simp)
  refine ⟨fun hall => ?_, hnone, ?_⟩
  · exact hnone (hall _ _ default (exampleEvent_supported _ _)
      (RawDnsEvent.carrying_carries _ _ (exampleResponse []) (by decide)))
  · rintro ⟨s, hs⟩
    have herr : ((parseDnsInto (exampleEvent
        [examplePointerA 10 0 200 1, exampleLabelA 10 0 0 2] (by decide))).run default).1 =
        .err .unexpectedEndOfPayload := by decide +kernel
    rw [hs] at herr
    exact absurd herr (by simp)

end CiliumMini
