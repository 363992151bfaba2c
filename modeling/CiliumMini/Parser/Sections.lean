import CiliumMini.Parser.Responses

/-!
# The sections of a message

`parse_dns_into` expects its answers behind one question and never looks at QDCOUNT. A message with
one answer is accepted exactly when the bytes behind its header read as one question and one record
(`parseDnsInto_one`, `parseDnsInto_one_ok`). For a message with one question these are its own
sections. For any other number of questions they are bytes of other sections, so such a message is
handled correctly only if it is rejected (`parseDnsInto_followsCounts`).
-/

namespace CiliumMini

open Exec Dns

/-! ## Messages with any number of questions -/

namespace Dns

/-- A question. -/
structure Question where
  name : Name
  qtype : UInt16
  qclass : UInt16

/-- QTYPE and QCLASS. -/
def Question.fixedPart (q : Question) : List UInt8 :=
  beBytes 2 q.qtype.toNat ++ beBytes 2 q.qclass.toNat

/-- The name, QTYPE, QCLASS. -/
def Question.encode (q : Question) : List UInt8 := q.name.encode ++ q.fixedPart

/-- A message with one answer, and any number of other records. -/
structure Message where
  id : UInt16
  flags : UInt16
  questions : List Question
  answer : ResourceRecord
  authority : List ResourceRecord
  additional : List ResourceRecord

namespace Message

/-- The twelve header bytes; the counts are those of the sections. -/
def header (m : Message) : List UInt8 :=
  beBytes 2 m.id.toNat ++ beBytes 2 m.flags.toNat ++ beBytes 2 m.questions.length ++ beBytes 2 1 ++
    beBytes 2 m.authority.length ++ beBytes 2 m.additional.length

/-- The bytes behind the answer. -/
def trailing (m : Message) : List UInt8 :=
  m.authority.flatMap ResourceRecord.encode ++ m.additional.flatMap ResourceRecord.encode

/-- The bytes behind the header. -/
def body (m : Message) : List UInt8 :=
  m.questions.flatMap Question.encode ++ (m.answer.encode ++ m.trailing)

/-- The whole message. -/
def encode (m : Message) : List UInt8 := m.header ++ m.body

@[simp] theorem length_header (m : Message) : m.header.length = 12 := by
  simp [header]

end Message

end Dns

/-- The event carries exactly the message `m`. -/
def RawDnsEvent.CarriesMessage (ev : RawDnsEvent) (m : Message) : Prop :=
  ev.payloadLen.toNat = m.encode.length ∧ ev.message = m.encode

section Carries

variable {ev : RawDnsEvent} {m : Message}

/-- A carried message keeps the bound on `payload_len`. -/
theorem RawDnsEvent.CarriesMessage.payloadLen_le (h : ev.CarriesMessage m) :
    ev.payloadLen.toNat ≤ maxDnsPayloadSize := payloadLen_le_of_message h.1 h.2

/-- Behind the header lies the body. -/
theorem RawDnsEvent.CarriesMessage.question_eq (h : ev.CarriesMessage m) :
    ev.question = m.body := by
  have hhdr : DnsHdr.len = m.header.length := by simp [DnsHdr.len]
  rw [RawDnsEvent.question, h.2, Message.encode, hhdr, List.drop_left]

/-- The header announces one answer. -/
theorem RawDnsEvent.CarriesMessage.anscount_eq (h : ev.CarriesMessage m) :
    ev.anscount.toNat = 1 := by
  have hpre : 6 = (beBytes 2 m.id.toNat ++ beBytes 2 m.flags.toNat ++
      beBytes 2 m.questions.length).length := by simp
  rw [RawDnsEvent.anscount, hpre]
  refine u16At_append (by decide) (beBytes 2 m.authority.length ++ beBytes 2 m.additional.length ++
    m.body) ?_
  rw [h.2, Message.encode, Message.header]
  simp only [List.append_assoc]

end Carries

/-! ## What one question and one record look like -/

/-- Valid labels, a zero byte, four bytes, a record, and anything behind it. -/
structure ReadsAs (bytes : List UInt8) (ls : List Label) (r : ResourceRecord) : Prop where
  valid : ValidLabels ls
  split : ∃ four tail, four.length = 4 ∧
    bytes = encodeLabels ls ++ 0 :: (four ++ (r.encode ++ tail))

/-- A field is encoded as the bytes it was read from. -/
theorem beBytes_field {l : List UInt8} {i k : ℕ} (h : i + k ≤ l.length) :
    ofBe ((l.drop i).take k) < 256 ^ k ∧
      beBytes k (ofBe ((l.drop i).take k)) = (l.drop i).take k := by
  have hlen : ((l.drop i).take k).length = k := by
    rw [List.length_take, List.length_drop]
    omega
  have hlt := ofBe_lt ((l.drop i).take k)
  have hback := beBytes_ofBe ((l.drop i).take k)
  rw [hlen] at hlt hback
  exact ⟨hlt, hback⟩

/-- Two bytes that were read are written as they were. -/
theorem beBytes_u16At {l : List UInt8} {i : ℕ} (h : i + 2 ≤ l.length) :
    beBytes 2 (u16At l i).toNat = (l.drop i).take 2 := by
  obtain ⟨hlt, hback⟩ := beBytes_field h
  rw [u16At, UInt16.toNat_ofNat', Nat.mod_eq_of_lt (by norm_num at hlt ⊢; exact hlt), hback]

theorem beBytes_u32 {l : List UInt8} {i : ℕ} (h : i + 4 ≤ l.length) :
    beBytes 4 (UInt32.ofNat (ofBe ((l.drop i).take 4))).toNat = (l.drop i).take 4 := by
  obtain ⟨hlt, hback⟩ := beBytes_field h
  rw [UInt32.toNat_ofNat', Nat.mod_eq_of_lt (by norm_num at hlt ⊢; exact hlt), hback]

/-- What the first iteration reads and stores is a record at the start of the payload. -/
theorem exists_record_of_readRecord {payload : List UInt8} {read : RecordRead} {s t : DnsResponse}
    (h : readRecord payload 0 = .ok read) (hstore : (storeRecord read).run s = (.ok (), t)) :
    ∃ (r : ResourceRecord) (tail : List UInt8), payload = r.encode ++ tail := by
  obtain ⟨ha, haaaa⟩ := length_of_storeRecord (length_rdata_of_readRecord h) hstore
  obtain ⟨-, n, hname, hread, hnext⟩ := readRecord_ok h
  rw [List.drop_zero] at hname
  obtain ⟨name, rest, hpayload, rfl⟩ := skipName_ok hname
  have hfixed : rrFixedHdrLen = 10 := rfl
  have hend : name.encode.length + rrFixedHdrLen +
      (u16At payload (name.encode.length + 8)).toNat ≤ payload.length := by
    rw [hread] at hnext
    exact hnext
  have hrdata : read.rdata.length = (u16At payload (name.encode.length + 8)).toNat := by
    rw [hread, recordAt, List.length_take, List.length_drop]
    omega
  have htype : read.rtype = RecordType.tryFrom (u16At payload name.encode.length) := by
    rw [hread, recordAt]
  -- the size checks of the store give the proof fields of the record
  refine ⟨⟨name, u16At payload name.encode.length, u16At payload (name.encode.length + 2),
    UInt32.ofNat (ofBe ((payload.drop (name.encode.length + 4)).take 4)), read.rdata, ?_, ?_, ?_⟩,
    payload.drop read.next, ?_⟩
  · rw [hrdata]
    exact UInt16.toNat_lt _
  · intro h1
    exact ha (by rw [htype, h1]; rfl)
  · intro h28
    exact haaaa (by rw [htype, h28]; rfl)
  · -- the fields of the record, one behind the other, are the bytes behind its name
    have hcut : ∀ i k, (payload.drop i).take k ++ payload.drop (i + k) = payload.drop i := by
      intro i k
      rw [← List.drop_drop, List.take_append_drop]
    have hdata : read.rdata ++ payload.drop read.next =
        payload.drop (name.encode.length + rrFixedHdrLen) := by
      rw [hread]
      exact hcut _ _
    have hname : name.encode ++ payload.drop name.encode.length = payload := by
      have hrest : payload.drop name.encode.length = rest := by rw [hpayload, List.drop_left]
      rw [hrest, hpayload]
    rw [ResourceRecord.encode, ResourceRecord.fixedPart]
    simp only [beBytes_u16At (show name.encode.length + 2 ≤ payload.length by omega),
      beBytes_u16At (show name.encode.length + 2 + 2 ≤ payload.length by omega),
      beBytes_u32 (show name.encode.length + 4 + 4 ≤ payload.length by omega), hrdata,
      beBytes_u16At (show name.encode.length + 8 + 2 ≤ payload.length by omega), List.append_assoc]
    rw [hdata, show _ ++ payload.drop (name.encode.length + rrFixedHdrLen) = _ from
      hcut (name.encode.length + 8) 2, hcut (name.encode.length + 4) 4,
      hcut (name.encode.length + 2) 2, hcut name.encode.length 2, hname]

section One

variable {ev : RawDnsEvent} {ls : List Label} {r : ResourceRecord}

/-- The answers start four bytes behind the name. -/
theorem answers_eq_drop {rest : List UInt8} (h : ev.question = encodeLabels ls ++ 0 :: rest) :
    ev.answers ((encodeLabels ls).length + 1) = rest.drop 4 := by
  have hfrom : ev.answers ((encodeLabels ls).length + 1) =
      ev.question.drop ((encodeLabels ls).length + 1 + 4) := by
    rw [RawDnsEvent.answers, RawDnsEvent.question, List.drop_drop, Nat.add_assoc]
  rw [hfrom, h, Nat.add_assoc, List.drop_length_add_append, Nat.add_comm 1, List.drop_succ_cons]

/-- An event with one answer whose bytes read as one question and one record is accepted: the
domain is that question's name, the address that record's. -/
theorem parseDnsInto_one (hsup : ev.Supported) (hlen : ev.payloadLen.toNat ≤ maxDnsPayloadSize)
    (hone : ev.anscount.toNat = 1) (hreads : ReadsAs ev.question ls r) (slot : DnsResponse) :
    (parseDnsInto ev).run slot =
      (.ok (), (ev.headed (String.ofList (dotted ls))).addRecords r.addr?.toList) := by
  obtain ⟨hv, four, tail, hfour, hquestion⟩ := hreads
  have hmax : ev.message.length ≤ 512 := length_message_le
  have hhdr : DnsHdr.len = 12 := rfl
  have hsize := congrArg List.length hquestion
  rw [RawDnsEvent.question, List.length_drop] at hsize
  simp only [List.length_append, List.length_cons] at hsize
  have hanswers : ev.answers ((encodeLabels ls).length + 1) = r.encode ++ tail := by
    rw [answers_eq_drop hquestion, ← hfour, List.drop_left]
  have hshort : (r.encode ++ tail).length < 2 ^ 63 := by
    rw [List.length_append]
    omega
  have hpos : 0 < (r.encode ++ tail).length := by
    have hrec := r.length_encode_pos
    rw [List.length_append]
    omega
  have hname : skipName ((r.encode ++ tail).drop 0) = .ok r.name.encode.length := by
    rw [List.drop_zero, skipName_record r hshort]
  -- one iteration from offset 0, where a relative offset is an absolute one
  rw [parseDnsInto_run hsup hlen (by omega), hquestion, parseQname_run_name hv]
  simp only
  rw [if_neg (by omega), hanswers, parseRdata,
    run_lift_bind_ok (failIf_neg (by simpa using List.ne_nil_of_length_pos hpos) _), hone,
    parseRdataLoop_repeat hshort r rfl 0 hpos hname (Or.inl rfl)]
  simp

/-- An accepted event with one answer reads as one question and one record. -/
theorem parseDnsInto_one_ok (hlen : ev.payloadLen.toNat ≤ maxDnsPayloadSize)
    (hone : ev.anscount.toNat = 1) {slot s : DnsResponse}
    (h : (parseDnsInto ev).run slot = (.ok (), s)) :
    ev.Supported ∧ ∃ ls r, ReadsAs ev.question ls r := by
  obtain ⟨hsup, n, domain, hname, hfit, hloop, -⟩ := parseDnsInto_ok hlen h
  obtain ⟨ls, rest, hv, hquestion, rfl, -⟩ := parseQname_ok hname
  rw [hone] at hloop
  obtain ⟨read, s', hread, hstore, -⟩ := parseRdataLoop_succ_ok hloop
  obtain ⟨r, tail, hanswers⟩ := exists_record_of_readRecord hread hstore
  refine ⟨hsup, ls, r, hv, rest.take 4, tail, ?_, ?_⟩
  · -- the four bytes are there, because the answers start behind them
    have hsize := congrArg List.length hquestion
    rw [RawDnsEvent.question, List.length_drop, List.length_append, List.length_cons] at hsize
    rw [List.length_take]
    omega
  · rw [← hanswers, answers_eq_drop hquestion, List.take_append_drop]
    exact hquestion

end One

/-! ## Messages with one answer -/

/-- The sections are told apart as the header counts them: an accepted message reports the name of
its first question and no other address than that of its answer, and a message with another number
of questions than one is rejected. -/
structure FollowsCounts (ev : RawDnsEvent) (m : Message) : Prop where
  domain : ∀ slot s, (parseDnsInto ev).run slot = (.ok (), s) →
    ∃ q qs, m.questions = q :: qs ∧ s.domainName = String.ofList (dotted q.name.labels)
  address : ∀ slot s, (parseDnsInto ev).run slot = (.ok (), s) →
    s.resolvedIpRaw ≠ [] → s.resolvedIpRaw = m.answer.rdata
  rejects : m.questions.length ≠ 1 → ∀ slot s, (parseDnsInto ev).run slot ≠ (.ok (), s)

/-- With one question an accepted message reads as its own sections. -/
theorem readsAs_of_one_question {m : Message} {q : Question} (hq : m.questions = [q])
    {ls : List Label} {r : ResourceRecord} (h : ReadsAs m.body ls r) :
    ReadsAs m.body q.name.labels m.answer := by
  obtain ⟨hv, four, tail, -, hsplit⟩ := h
  have hbody : m.body = encodeLabels q.name.labels ++ (q.name.tail.encode ++
      (q.fixedPart ++ (m.answer.encode ++ m.trailing))) := by
    rw [Message.body, hq, List.flatMap_singleton, Question.encode, Name.encode]
    simp only [List.append_assoc]
  -- labels and the zero byte behind them are read in one way only
  obtain ⟨rfl, hend, -⟩ := encodeLabels_inj (hbody.symm.trans hsplit)
  refine ⟨hv, q.fixedPart, m.trailing, by simp [Question.fixedPart], ?_⟩
  rw [hbody, hend]
  rfl

/-- An accepted message with one question is parsed to its own name and address. -/
theorem followsCounts_of_one_question {ev : RawDnsEvent} {m : Message} (h : ev.CarriesMessage m)
    (hcount : m.questions.length = 1) : FollowsCounts ev m := by
  obtain ⟨q, hq⟩ := List.length_eq_one_iff.mp hcount
  have hlen := h.payloadLen_le
  have hone := h.anscount_eq
  -- whatever the parse reports, it is what its own question and answer give
  have hslot : ∀ slot s, (parseDnsInto ev).run slot = (.ok (), s) →
      s = (ev.headed (String.ofList (dotted q.name.labels))).addRecords m.answer.addr?.toList := by
    intro slot s hs
    obtain ⟨hsup, ls, r, hreads⟩ := parseDnsInto_one_ok hlen hone hs
    rw [h.question_eq] at hreads
    have hown := readsAs_of_one_question hq hreads
    rw [← h.question_eq] at hown
    exact (Prod.mk.inj (hs.symm.trans (parseDnsInto_one hsup hlen hone hown slot))).2
  refine ⟨?_, ?_, fun hne => absurd hcount hne⟩
  · intro slot s hs
    refine ⟨q, [], hq, ?_⟩
    rw [hslot slot s hs, addRecords_frame]
    rfl
  · intro slot s hs hne
    rw [hslot slot s hs, addRecords_resolvedIpRaw, flatMap_bytes_addr?] at hne ⊢
    have haddr : m.answer.addressBytes ≠ [] := hne
    show [] ++ m.answer.addressBytes = _
    unfold ResourceRecord.addressBytes at haddr ⊢
    split_ifs at haddr ⊢
    · rfl
    · exact absurd rfl haddr

/-- A message with one answer is handled as its counts say exactly when it has one question, or is
rejected because its bytes do not read as one question and one record, or because of its addresses.
-/
theorem parseDnsInto_followsCounts (ev : RawDnsEvent) (m : Message) (h : ev.CarriesMessage m) :
    FollowsCounts ev m ↔
      m.questions.length = 1 ∨ ¬ (ev.Supported ∧ ∃ ls r, ReadsAs m.body ls r) := by
  have hlen := h.payloadLen_le
  have hone := h.anscount_eq
  rw [← h.question_eq]
  constructor
  · intro hfollows
    by_contra hcond
    obtain ⟨hcount, hreads⟩ := not_or.mp hcond
    obtain ⟨hsup, ls, r, hreads⟩ := not_not.mp hreads
    -- any other count is accepted here, and the counts say that it is rejected
    exact hfollows.rejects hcount default _ (parseDnsInto_one hsup hlen hone hreads default)
  · rintro (hcount | hnone)
    · exact followsCounts_of_one_question h hcount
    · have hnot : ∀ slot s, (parseDnsInto ev).run slot ≠ (.ok (), s) := by
        intro slot s hs
        exact hnone (parseDnsInto_one_ok hlen hone hs)
      exact ⟨fun slot s hs => absurd hs (hnot slot s), fun slot s hs => absurd hs (hnot slot s),
        fun _ => hnot⟩

/-- The question for a name of one letter. -/
def exampleQuestion (c : UInt8) : Question := ⟨⟨[⟨[c], by simp, by simp⟩], .root⟩, typeA, 1⟩

/-- Questions, and one answer of class 4 with the address 10.0.0.1 and a TTL of the bytes 10, 0, 0
and 9. -/
def countedMessage (questions : List Question) : Message where
  id := 1
  flags := 0x8180
  questions := questions
  answer := { examplePointerA 10 0 0 1 with rclass := 4, ttl := 0x0A000009 }
  authority := []
  additional := []

/-- The event that carries it. -/
def countedEvent (questions : List Question)
    (h : (countedMessage questions).encode.length ≤ maxDnsPayloadSize) : RawDnsEvent :=
  .carrying exampleResolver exampleResolver (countedMessage questions).encode h

theorem countedEvent_carries (questions : List Question)
    (h : (countedMessage questions).encode.length ≤ maxDnsPayloadSize) :
    (countedEvent questions h).CarriesMessage (countedMessage questions) :=
  ⟨RawDnsEvent.payloadLen_carrying _ _ _ h, RawDnsEvent.message_carrying _ _ _ h⟩

/-- One question. -/
theorem parseDnsInto_followsCounts_one :
    FollowsCounts (countedEvent [exampleQuestion 97] (by decide))
      (countedMessage [exampleQuestion 97]) :=
  (parseDnsInto_followsCounts _ _ (countedEvent_carries _ _)).mpr (Or.inl rfl)

/-- Questions for `a` and `b`. -/
def twoQuestions : List Question := [exampleQuestion 97, exampleQuestion 98]

theorem length_twoQuestions : (countedMessage twoQuestions).encode.length ≤ maxDnsPayloadSize := by
  decide

/-- Two questions: the second one is read as the name, type and class of an A record, and the TTL of
the answer as its address. -/
theorem parseDnsInto_misreads_question :
    (¬ ∀ (ev : RawDnsEvent) (m : Message), ev.CarriesMessage m → FollowsCounts ev m) ∧
      ∃ s, (parseDnsInto (countedEvent twoQuestions length_twoQuestions)).run default =
          (.ok (), s) ∧
        s.resolvedIpRaw = [10, 0, 0, 9] ∧
        (countedMessage twoQuestions).answer.rdata = [10, 0, 0, 1] := by
  have hok : ((parseDnsInto (countedEvent twoQuestions length_twoQuestions)).run default).1 =
      .ok () := by decide +kernel
  have hparsed : ∃ s, (parseDnsInto (countedEvent twoQuestions length_twoQuestions)).run
      default = (.ok (), s) ∧ s.resolvedIpRaw = [10, 0, 0, 9] :=
    ⟨_, run_eq_of_fst hok, by decide +kernel⟩
  obtain ⟨s, hs, hraw⟩ := hparsed
  refine ⟨?_, s, hs, hraw, rfl⟩
  intro hall
  have haddress := (hall _ _ (countedEvent_carries _ length_twoQuestions)).address _ s hs
  rw [hraw] at haddress
  exact absurd (haddress (by simp)) (by decide)

end CiliumMini
