import CiliumMini.Parser.Events
import CiliumMini.Parser.NameAgreement
import CiliumMini.Parser.Sections

/-!
# The verdict on every event

Which events `parse_dns_into` accepts, and why it refuses the others, in terms of the bytes alone:
addresses, question name, answer records. `Accepted` and `Refusal` say it without the parser; every
event has one of them, and the parser returns accordingly (`parseDnsInto_verdict`).

The answer loop is taken as it is: the fixed part of a record is looked for at the length of its
name, counted from the start of the section.
-/

namespace CiliumMini

open Exec Dns

/-! ## One record -/

section Record

variable {p : List UInt8} {o n : ℕ} {e : DnsParseError}

/-- An address record announces the length of its address. -/
def RecordRead.Sized (r : RecordRead) : Prop :=
  (r.rtype = .a → r.rdlength = 4) ∧ (r.rtype = .aaaa → r.rdlength = 16)

/-- An iteration at `o` gets through: there is a name of `n` bytes, and the record at `n` is inside
the section and of the right size. -/
structure ReadsAt (p : List UInt8) (o n : ℕ) : Prop where
  inside : o < p.length
  name : StartsWithName (p.drop o) n
  fixed : n + rrFixedHdrLen ≤ p.length
  data : (recordAt p n).next ≤ p.length
  sized : (recordAt p n).Sized

/-- Why an iteration at `o` fails. -/
inductive RecordRefusal (p : List UInt8) (o : ℕ) : DnsParseError → Prop
  /-- the section ends -/
  | ended (h : p.length ≤ o) : RecordRefusal p o .unexpectedEndOfPayload
  /-- the name breaks off -/
  | name {ls : List Label} {rest : List UInt8} {e : DnsParseError} (hin : o < p.length)
      (hsplit : p.drop o = encodeLabels ls ++ rest) (hviolation : RecordNameViolation rest e) :
      RecordRefusal p o e
  /-- the fixed part ends behind the section -/
  | fixed {n : ℕ} (hin : o < p.length) (hname : StartsWithName (p.drop o) n)
      (h : p.length < n + rrFixedHdrLen) : RecordRefusal p o .unexpectedEndOfPayload
  /-- the data end behind the section -/
  | data {n : ℕ} (hin : o < p.length) (hname : StartsWithName (p.drop o) n)
      (hfixed : n + rrFixedHdrLen ≤ p.length) (h : p.length < (recordAt p n).next) :
      RecordRefusal p o .unexpectedEndOfPayload
  /-- an address of the wrong size, reported as if the section had ended -/
  | size {n : ℕ} (hin : o < p.length) (hname : StartsWithName (p.drop o) n)
      (hfixed : n + rrFixedHdrLen ≤ p.length) (hdata : (recordAt p n).next ≤ p.length)
      (h : ¬ (recordAt p n).Sized) : RecordRefusal p o .unexpectedEndOfPayload

/-- A name that is there is skipped. -/
theorem skipName_drop_ok (hlen : p.length < 2 ^ 63) (hname : StartsWithName (p.drop o) n) :
    skipName (p.drop o) = .ok n := by
  have hdrop : (p.drop o).length < 2 ^ 63 := by
    rw [List.length_drop]
    omega
  exact (skipName_eq_ok_iff ⟨p.drop o, hdrop⟩ n).mpr hname

/-- Data that end inside the payload have their full length. -/
theorem length_rdata_recordAt (h : (recordAt p n).next ≤ p.length) :
    (recordAt p n).rdata.length = (recordAt p n).rdlength := by
  simp only [recordAt] at h ⊢
  rw [List.length_take, List.length_drop]
  omega

/-- A record that is there is read. -/
theorem ReadsAt.readRecord_eq (hlen : p.length < 2 ^ 63) (h : ReadsAt p o n) :
    readRecord p o = .ok (recordAt p n) := by
  have hfixed := h.fixed
  have hdata := h.data
  rw [CiliumMini.readRecord_eq hlen h.inside (skipName_drop_ok hlen h.name), if_neg (by omega),
    if_neg (by omega)]

/-- A record of the right size is stored or skipped. -/
theorem storeRecord_sized {r : RecordRead} (hr : r.rdata.length = r.rdlength) (h : r.Sized)
    (s : DnsResponse) : ∃ t, (storeRecord r).run s = (.ok (), t) := by
  rw [storeRecord_run r hr]
  cases haddr : r.addr? with
  | some rec => exact ⟨_, rfl⟩
  | none =>
    -- of the right size and still no address: a type that is skipped
    have hother : ¬ (r.rtype = .a ∨ r.rtype = .aaaa) := by
      rintro (htype | htype)
      · simp [RecordRead.addr?, htype, hr, h.1 htype] at haddr
      · simp [RecordRead.addr?, htype, hr, h.2 htype] at haddr
    exact ⟨s, by simp only [if_neg hother]⟩

/-- One of the wrong size ends the parse. -/
theorem storeRecord_not_sized {r : RecordRead} (hr : r.rdata.length = r.rdlength) (h : ¬ r.Sized)
    (s : DnsResponse) : (storeRecord r).run s = (.err .unexpectedEndOfPayload, s) := by
  have hwrong : (r.rtype = .a ∧ r.rdlength ≠ 4) ∨ (r.rtype = .aaaa ∧ r.rdlength ≠ 16) := by
    unfold RecordRead.Sized at h
    tauto
  rw [storeRecord_run r hr]
  rcases hwrong with ⟨htype, hsize⟩ | ⟨htype, hsize⟩
  · simp [RecordRead.addr?, htype, hr, hsize]
  · simp [RecordRead.addr?, htype, hr, hsize]

/-- Every iteration gets through or fails for one of the reasons. -/
theorem readsAt_or_refusal (p : List UInt8) (o : ℕ) :
    (∃ n, ReadsAt p o n) ∨ ∃ e, RecordRefusal p o e := by
  by_cases hin : o < p.length
  · obtain ⟨ls, rest, hsplit, ⟨stop, tail, rfl⟩ | ⟨e, hviolation⟩⟩ := exists_recordLabels (p.drop o)
    · have hname : StartsWithName (p.drop o) (Name.mk ls stop).encode.length :=
        ⟨⟨ls, stop⟩, tail, by rw [hsplit, Name.encode, List.append_assoc], rfl⟩
      -- from here on only the length of the name matters
      generalize (Name.mk ls stop).encode.length = n at hname
      by_cases hfixed : n + rrFixedHdrLen ≤ p.length
      · by_cases hdata : (recordAt p n).next ≤ p.length
        · by_cases hsized : (recordAt p n).Sized
          · exact .inl ⟨n, hin, hname, hfixed, hdata, hsized⟩
          · exact .inr ⟨_, .size hin hname hfixed hdata hsized⟩
        · exact .inr ⟨_, .data hin hname hfixed (by omega)⟩
      · exact .inr ⟨_, .fixed hin hname (by omega)⟩
    · exact .inr ⟨e, .name hin hsplit hviolation⟩
  · exact .inr ⟨_, .ended (by omega)⟩

/-- A reason for an iteration to fail is the error it fails with. -/
theorem RecordRefusal.run (hlen : p.length < 2 ^ 63) (h : RecordRefusal p o e) (k : ℕ)
    (s : DnsResponse) : ((parseRdataLoop p (k + 1) o).run s).1 = .err e := by
  rw [parseRdataLoop]
  cases h with
  | ended hend => rw [run_lift_bind_err (readRecord_end hend)]
  | name hin hsplit hviolation =>
    have hdrop : (p.drop o).length < 2 ^ 63 := by
      rw [List.length_drop]
      omega
    rw [hsplit] at hdrop
    have hskip : skipName (p.drop o) = .err e := by
      rw [hsplit]
      exact skipName_run_violation _ hviolation hdrop
    rw [run_lift_bind_err (readRecord_name_err hin hskip)]
  | fixed hin hname hend =>
    have hread := CiliumMini.readRecord_eq hlen hin (skipName_drop_ok hlen hname)
    rw [if_pos hend] at hread
    rw [run_lift_bind_err hread]
  | data hin hname hfixed hend =>
    have hread := CiliumMini.readRecord_eq hlen hin (skipName_drop_ok hlen hname)
    rw [if_neg (by omega), if_pos hend] at hread
    rw [run_lift_bind_err hread]
  | size hin hname hfixed hdata hsize =>
    have hread := CiliumMini.readRecord_eq hlen hin (skipName_drop_ok hlen hname)
    rw [if_neg (by omega), if_neg (by omega)] at hread
    -- the record is read, and the store refuses it
    rw [run_lift_bind_ok hread,
      run_bind_err (storeRecord_not_sized (length_rdata_recordAt hdata) hsize s)]

/-- An iteration that gets through leaves the rest of the loop to the offset behind its data. -/
theorem ReadsAt.run (hlen : p.length < 2 ^ 63) (h : ReadsAt p o n) (k : ℕ) (s : DnsResponse) :
    ∃ t, (parseRdataLoop p (k + 1) o).run s =
      (parseRdataLoop p k (recordAt p n).next).run t := by
  obtain ⟨t, hstore⟩ := storeRecord_sized (length_rdata_recordAt h.data) h.sized s
  refine ⟨t, ?_⟩
  rw [parseRdataLoop, run_lift_bind_ok (h.readRecord_eq hlen), run_bind_ok hstore]

end Record

/-! ## All records -/

section Answers

variable {p : List UInt8} {k o : ℕ} {e : DnsParseError}

/-- `k` iterations from `o` on get through. -/
inductive AnswersRead (p : List UInt8) : ℕ → ℕ → Prop
  | done (o : ℕ) : AnswersRead p 0 o
  | step {k o n : ℕ} (h : ReadsAt p o n) (hrest : AnswersRead p k (recordAt p n).next) :
      AnswersRead p (k + 1) o

/-- One of `k` iterations from `o` on fails. -/
inductive AnswersRefusal (p : List UInt8) : ℕ → ℕ → DnsParseError → Prop
  | here {k o : ℕ} {e : DnsParseError} (h : RecordRefusal p o e) : AnswersRefusal p (k + 1) o e
  | later {k o n : ℕ} {e : DnsParseError} (h : ReadsAt p o n)
      (hrest : AnswersRefusal p k (recordAt p n).next e) : AnswersRefusal p (k + 1) o e

/-- By induction on the answers left: all can be read, or one is the first that cannot. -/
theorem answersRead_or_refusal (p : List UInt8) (k o : ℕ) :
    AnswersRead p k o ∨ ∃ e, AnswersRefusal p k o e := by
  induction k generalizing o with
  | zero => exact .inl (.done o)
  | succ k ih =>
    obtain ⟨n, hread⟩ | ⟨e, hrefusal⟩ := readsAt_or_refusal p o
    · obtain hrest | ⟨e, hrest⟩ := ih (recordAt p n).next
      · exact .inl (.step hread hrest)
      · exact .inr ⟨e, .later hread hrest⟩
    · exact .inr ⟨e, .here hrefusal⟩

/-- If all can be read, the loop succeeds. -/
theorem AnswersRead.run (hlen : p.length < 2 ^ 63) (h : AnswersRead p k o) (s : DnsResponse) :
    ((parseRdataLoop p k o).run s).1 = .ok () := by
  induction h generalizing s with
  | done o => rfl
  | step hread _ ih =>
    obtain ⟨t, hrun⟩ := hread.run hlen _ s
    rw [hrun, ih]

/-- Otherwise it ends with the error of the first that cannot. -/
theorem AnswersRefusal.run (hlen : p.length < 2 ^ 63) (h : AnswersRefusal p k o e)
    (s : DnsResponse) : ((parseRdataLoop p k o).run s).1 = .err e := by
  induction h generalizing s with
  | here hrefusal => exact hrefusal.run hlen _ s
  | later hread _ ih =>
    obtain ⟨t, hrun⟩ := hread.run hlen _ s
    rw [hrun, ih]

end Answers

/-! ## The event -/

/-- The event is accepted: two addresses of known families, an ASCII question name with its zero
byte, its type and class and at least one byte behind them, and as many records as announced. -/
structure Accepted (ev : RawDnsEvent) : Prop where
  supported : ev.Supported
  answers : ∃ ls rest, ValidLabels ls ∧ ev.question = encodeLabels ls ++ 0 :: rest ∧
    4 < rest.length ∧ AnswersRead (rest.drop 4) ev.anscount.toNat 0

/-- Why an event is refused, with the error; the reasons are looked for in this order. -/
inductive Refusal (ev : RawDnsEvent) : DnsParseError → Prop
  /-- the source address is of an unknown family -/
  | source (h : ¬ ev.srcIp.Supported) : Refusal ev (.unsupportedAddressFamily ev.srcIp.family)
  /-- the destination is -/
  | destination (hsrc : ev.srcIp.Supported) (h : ¬ ev.dstIp.Supported) :
      Refusal ev (.unsupportedAddressFamily ev.dstIp.family)
  /-- there is no whole header -/
  | header (hsup : ev.Supported) (h : ev.message.length < DnsHdr.len) :
      Refusal ev .unexpectedEndOfPayload
  /-- the question name breaks off -/
  | name {ls : List Label} {rest : List UInt8} {e : DnsParseError} (hsup : ev.Supported)
      (hheader : DnsHdr.len ≤ ev.message.length) (hvalid : ValidLabels ls)
      (hsplit : ev.question = encodeLabels ls ++ rest)
      (hviolation : NameViolation (encodeLabels ls).length rest e) : Refusal ev e
  /-- nothing follows the question, also when no answer is announced -/
  | noAnswers {ls : List Label} {rest : List UInt8} (hsup : ev.Supported)
      (hvalid : ValidLabels ls) (hsplit : ev.question = encodeLabels ls ++ 0 :: rest)
      (h : rest.length ≤ 4) : Refusal ev .unexpectedEndOfPayload
  /-- a record is refused -/
  | answers {ls : List Label} {rest : List UInt8} {e : DnsParseError} (hsup : ev.Supported)
      (hvalid : ValidLabels ls) (hsplit : ev.question = encodeLabels ls ++ 0 :: rest)
      (hsize : 4 < rest.length) (h : AnswersRefusal (rest.drop 4) ev.anscount.toNat 0 e) :
      Refusal ev e

section Verdict

variable {ev : RawDnsEvent} {e : DnsParseError}

/-- An event is accepted or there is a first reason to refuse it. -/
theorem accepted_or_refusal (ev : RawDnsEvent) : Accepted ev ∨ ∃ e, Refusal ev e := by
  -- the checks in the order of `parse_dns_into`
  by_cases hsrc : ev.srcIp.Supported
  · by_cases hdst : ev.dstIp.Supported
    · have hsup : ev.Supported := ⟨hsrc, hdst⟩
      by_cases hheader : DnsHdr.len ≤ ev.message.length
      · obtain ⟨ls, hvalid, ⟨rest, hsplit, -⟩ | ⟨rest, e, hsplit, hviolation, -⟩⟩ :=
          parseQname_cases ev.question
        · by_cases hsize : 4 < rest.length
          · obtain hread | ⟨e, hrefusal⟩ :=
              answersRead_or_refusal (rest.drop 4) ev.anscount.toNat 0
            · exact .inl ⟨hsup, ls, rest, hvalid, hsplit, hsize, hread⟩
            · exact .inr ⟨e, .answers hsup hvalid hsplit hsize hrefusal⟩
          · exact .inr ⟨_, .noAnswers hsup hvalid hsplit (by omega)⟩
        · exact .inr ⟨e, .name hsup hheader hvalid hsplit hviolation⟩
      · exact .inr ⟨_, .header hsup (by omega)⟩
    · exact .inr ⟨_, .destination hsrc hdst⟩
  · exact .inr ⟨_, .source hsrc⟩

/-- A question with a whole name stands behind a whole header. -/
theorem length_of_split {ls : List Label} {rest : List UInt8}
    (hsplit : ev.question = encodeLabels ls ++ 0 :: rest) :
    ev.message.length = DnsHdr.len + ((encodeLabels ls).length + 1) + rest.length := by
  have hsize := congrArg List.length hsplit
  rw [RawDnsEvent.question, List.length_drop] at hsize
  simp only [List.length_append, List.length_cons] at hsize
  omega

/-- Behind a whole question the parser runs the answer loop. -/
theorem parseDnsInto_answers {ls : List Label} {rest : List UInt8} (hsup : ev.Supported)
    (hlen : ev.payloadLen.toNat ≤ maxDnsPayloadSize) (hvalid : ValidLabels ls)
    (hsplit : ev.question = encodeLabels ls ++ 0 :: rest) (hsize : 4 < rest.length)
    (slot : DnsResponse) :
    (parseDnsInto ev).run slot =
      (parseRdataLoop (rest.drop 4) ev.anscount.toNat 0).run
        (ev.headed (String.ofList (dotted ls))) := by
  have hmsg := length_of_split hsplit
  have hanswers := answers_eq_drop hsplit
  have hpos : 0 < (rest.drop 4).length := by
    rw [List.length_drop]
    omega
  rw [parseDnsInto_run hsup hlen (by omega), hsplit, parseQname_run_name hvalid]
  simp only
  rw [if_neg (by omega), hanswers, parseRdata,
    run_lift_bind_ok (failIf_neg (by simpa using List.ne_nil_of_length_pos hpos) _)]

/-- No offset into the answers overflows. -/
theorem length_answers_lt {ls : List Label} {rest : List UInt8}
    (hsplit : ev.question = encodeLabels ls ++ 0 :: rest) : (rest.drop 4).length < 2 ^ 63 := by
  have hmsg := length_of_split hsplit
  have hmax : ev.message.length ≤ 512 := length_message_le
  rw [List.length_drop]
  omega

/-- An accepted event is parsed. -/
theorem Accepted.run (h : Accepted ev) (hlen : ev.payloadLen.toNat ≤ maxDnsPayloadSize)
    (slot : DnsResponse) : ((parseDnsInto ev).run slot).1 = .ok () := by
  obtain ⟨hsup, ls, rest, hvalid, hsplit, hsize, hread⟩ := h
  rw [parseDnsInto_answers hsup hlen hvalid hsplit hsize]
  exact hread.run (length_answers_lt hsplit) _

/-- A refused event ends with the error of the reason. -/
theorem Refusal.run (h : Refusal ev e) (hlen : ev.payloadLen.toNat ≤ maxDnsPayloadSize)
    (slot : DnsResponse) : ((parseDnsInto ev).run slot).1 = .err e := by
  cases h with
  | source hsrc =>
    rw [parseDnsInto, run_modify_bind,
      run_bind_err (by rw [run_zoom, parseIp_run_unsupported hsrc])]
  | destination hsrc hdst =>
    rw [parseDnsInto, run_modify_bind, run_bind_ok (by rw [run_zoom, parseIp_run hsrc]),
      run_bind_err (by rw [run_zoom, parseIp_run_unsupported hdst])]
  | header hsup hshort => exact parseDnsInto_run_short hsup hlen hshort slot
  | name hsup hheader hvalid hsplit hviolation =>
    rw [parseDnsInto_run hsup hlen hheader, hsplit, parseQname_run_violation hvalid hviolation]
  | @noAnswers ls rest hsup hvalid hsplit hsize =>
    have hmsg := length_of_split hsplit
    rw [parseDnsInto_run hsup hlen (by omega), hsplit, parseQname_run_name hvalid]
    simp only
    by_cases hend : DnsHdr.len + ((encodeLabels ls).length + 1) + 4 > ev.message.length
    · rw [if_pos hend]
    · -- the question is whole, and what follows it is empty
      rw [if_neg hend, answers_eq_drop hsplit, List.drop_eq_nil_of_le hsize, parseRdata,
        run_lift_bind_err (failIf_pos List.isEmpty_nil _)]
  | answers hsup hvalid hsplit hsize hrefusal =>
    rw [parseDnsInto_answers hsup hlen hvalid hsplit hsize]
    exact hrefusal.run (length_answers_lt hsplit) _

/-- What is parsed was accepted, since every refusal is an error. -/
theorem accepted_of_ok (hlen : ev.payloadLen.toNat ≤ maxDnsPayloadSize) {slot : DnsResponse}
    (hrun : ((parseDnsInto ev).run slot).1 = .ok ()) : Accepted ev := by
  obtain h | ⟨e, h⟩ := accepted_or_refusal ev
  · exact h
  · rw [h.run hlen slot] at hrun
    exact absurd hrun (by simp)

/-- The parser accepts exactly the accepted events, and fails with exactly the error of a
refusal. -/
theorem parseDnsInto_verdict (ev : RawDnsEvent) (slot : DnsResponse)
    (hlen : ev.payloadLen.toNat ≤ maxDnsPayloadSize) :
    (((parseDnsInto ev).run slot).1 = .ok () ↔ Accepted ev) ∧
      ∀ e, ((parseDnsInto ev).run slot).1 = .err e ↔ Refusal ev e := by
  refine ⟨⟨accepted_of_ok hlen, fun h => h.run hlen slot⟩, fun e => ⟨fun hrun => ?_, fun h =>
    h.run hlen slot⟩⟩
  -- an event that is not accepted ends with the error of its reason, so that one is `e`
  obtain h | ⟨e', h⟩ := accepted_or_refusal ev
  · rw [h.run hlen slot] at hrun
    exact absurd hrun (by simp)
  · rw [h.run hlen slot] at hrun
    obtain rfl := Outcome.err.inj hrun
    exact h

/-- One A record is accepted; without answers the question is followed by nothing. -/
theorem parseDnsInto_verdict_example :
    Accepted (exampleEventA 10 0 0 1) ∧ Refusal exampleEventNone .unexpectedEndOfPayload :=
  ⟨(parseDnsInto_verdict (exampleEventA 10 0 0 1) default (by decide +kernel)).1.mp
      (by decide +kernel),
    ((parseDnsInto_verdict exampleEventNone default (by decide +kernel)).2 _).mp
      (by decide +kernel)⟩

end Verdict

end CiliumMini
