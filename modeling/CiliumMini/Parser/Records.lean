import CiliumMini.Parser.Names

/-!
# The answer loop

`readRecord_eq` says what one iteration of `parse_rdata` reads and `storeRecord_run` what it stores.
`decodedRecords` is the list of address records the loop decodes: the records for which it takes its
A or its AAAA arm, in order. A successful run leaves exactly these in the slot
(`parseRdataLoop_run_ok`).
-/

namespace CiliumMini

open Exec

/-- An address record as `parse_rdata` decodes it. -/
inductive AddrRecord where
  | a (addr : Octets 4)
  | aaaa (addr : Octets 16)
deriving DecidableEq

namespace AddrRecord

/-- The RDATA bytes. -/
def bytes : AddrRecord → List UInt8
  | a addr => addr.toList
  | aaaa addr => addr.toList

/-- The text written to `resolved_ip`. -/
def text : AddrRecord → List Char
  | a addr => (Ipv4Addr.mk addr).display
  | aaaa addr => (Ipv6Addr.mk addr).display

/-- The value written to `ip_family`. -/
def family : AddrRecord → UInt32
  | a _ => afInet
  | aaaa _ => afInet6

/-- The text of a record is short. -/
theorem length_text_le (r : AddrRecord) : r.text.length ≤ 82 := by
  cases r with
  | a addr => exact (Ipv4Addr.length_display_le _).trans (by decide)
  | aaaa addr => exact Ipv6Addr.length_display_le _

/-- A record has at most 16 address bytes. -/
theorem length_bytes_le (r : AddrRecord) : r.bytes.length ≤ 16 := by
  cases r <;> simp [bytes]

/-- The family of a record says how many bytes it has. -/
theorem length_bytes (r : AddrRecord) :
    r.family = afInet ∧ r.bytes.length = 4 ∨ r.family = afInet6 ∧ r.bytes.length = 16 := by
  cases r <;> simp [bytes, family]

end AddrRecord

/-- The slot after one address record. -/
def DnsResponse.addRecord (s : DnsResponse) (r : AddrRecord) : DnsResponse :=
  { s with
    resolvedIp := s.resolvedIp ++ String.ofList r.text
    resolvedIpRaw := s.resolvedIpRaw ++ r.bytes
    ipFamily := r.family }

/-- The address record of an iteration that takes the A or the AAAA arm to its end. -/
def RecordRead.addr? (r : RecordRead) : Option AddrRecord :=
  match r.rtype with
  | .a => if h : r.rdata.length = 4 then some (.a ⟨r.rdata, h⟩) else none
  | .aaaa => if h : r.rdata.length = 16 then some (.aaaa ⟨r.rdata, h⟩) else none
  | .cname | .unsupported _ => none

/-- The address records decoded by the first `n` iterations from `offset` on. -/
def decodedRecords (payload : List UInt8) : ℕ → ℕ → List AddrRecord
  | 0, _ => []
  | n + 1, offset =>
    match readRecord payload offset with
    | .ok r => r.addr?.toList ++ decodedRecords payload n r.next
    | _ => []

/-! ## Reading one record -/

/-- The big-endian `u16` at offset `i`. -/
def u16At (l : List UInt8) (i : ℕ) : UInt16 := UInt16.ofNat (ofBe ((l.drop i).take 2))

/-- Two bytes inside the payload are read. -/
theorem beU16At_eq {l : List UInt8} {i : ℕ} (hlen : l.length < 2 ^ 63) (h : i + 2 ≤ l.length) :
    beU16At l i = .ok (u16At l i) := by
  have htake : (l.drop i).take 2 = [l[i], l[i + 1]] := by
    rw [List.drop_eq_getElem_cons (by omega : i < l.length),
      List.drop_eq_getElem_cons (by omega : i + 1 < l.length)]
    rfl
  simp only [beU16At, u16At, htake]
  rw [index_eq (by omega : i < l.length), Outcome.ok_bind, usizeAdd_eq (by omega), Outcome.ok_bind,
    index_eq (by omega : i + 1 < l.length), Outcome.ok_bind, Outcome.pure_eq]

/-- What was read is what is there. -/
theorem beU16At_ok {l : List UInt8} {i : ℕ} {v : UInt16} (h : beU16At l i = .ok v) :
    v = u16At l i := by
  obtain ⟨hi, hhi, hthen⟩ := Outcome.bind_eq_ok.mp h
  obtain ⟨j, hj, hlast⟩ := Outcome.bind_eq_ok.mp hthen
  obtain ⟨lo, hlo, hv⟩ := Outcome.bind_eq_ok.mp hlast
  obtain rfl := eq_of_usizeAdd hj
  have htake : (l.drop i).take 2 = [hi, lo] := by
    rw [List.drop_eq_getElem?_toList_append, List.drop_eq_getElem?_toList_append,
      index_ok hhi, index_ok hlo]
    rfl
  rw [u16At, htake]
  exact (Outcome.ok.inj hv).symm

section ReadRecord

variable {payload : List UInt8} {offset : ℕ}

/-- The record whose fixed part starts `n` bytes into the payload. -/
def recordAt (payload : List UInt8) (n : ℕ) : RecordRead where
  rtype := RecordType.tryFrom (u16At payload n)
  rdlength := (u16At payload (n + 8)).toNat
  rdata := (payload.drop (n + rrFixedHdrLen)).take (u16At payload (n + 8)).toNat
  next := n + rrFixedHdrLen + (u16At payload (n + 8)).toNat

/-- At the end of the payload there is no record. -/
theorem readRecord_end (h : payload.length ≤ offset) :
    readRecord payload offset = .err .unexpectedEndOfPayload := by
  rw [readRecord, failIf_pos (by omega : offset ≥ payload.length), Outcome.err_bind]

/-- A name that breaks off is the error of the record. -/
theorem readRecord_name_err (h : offset < payload.length) {e : DnsParseError}
    (hname : skipName (payload.drop offset) = .err e) : readRecord payload offset = .err e := by
  rw [readRecord, failIf_neg (by omega : ¬ offset ≥ payload.length), Outcome.ok_bind,
    sliceFrom_eq (by omega), Outcome.ok_bind, hname, Outcome.err_bind]

/-- One iteration whose name has length `n` reads the record at offset `n` of the whole payload. -/
theorem readRecord_eq (hlen : payload.length < 2 ^ 63) (h : offset < payload.length) {n : ℕ}
    (hname : skipName (payload.drop offset) = .ok n) :
    readRecord payload offset =
      if n + rrFixedHdrLen > payload.length then .err .unexpectedEndOfPayload
      else if (recordAt payload n).next > payload.length then .err .unexpectedEndOfPayload
      else .ok (recordAt payload n) := by
  have hn : n ≤ payload.length - offset := ((skipName_drop_spec hlen offset).of_ok hname).2
  have hfixed : rrFixedHdrLen = 10 := rfl
  rw [readRecord, failIf_neg (by omega : ¬ offset ≥ payload.length), Outcome.ok_bind,
    sliceFrom_eq (by omega), Outcome.ok_bind, hname, Outcome.ok_bind, usizeAdd_eq (by omega),
    Outcome.ok_bind]
  by_cases hend : n + rrFixedHdrLen > payload.length
  · rw [failIf_pos hend, if_pos hend, Outcome.err_bind]
  -- from here on `n` is used as an offset into the whole payload
  rw [failIf_neg hend, if_neg hend, Outcome.ok_bind, beU16At_eq hlen (by omega), Outcome.ok_bind,
    usizeAdd_eq (by omega), Outcome.ok_bind, beU16At_eq hlen (by omega), Outcome.ok_bind]
  have hrd := (u16At payload (n + 8)).toNat_lt
  simp only [Outcome.ok_bind]
  rw [usizeAdd_eq (by omega), Outcome.ok_bind]
  by_cases hdata : (recordAt payload n).next > payload.length
  · have hdata' : n + rrFixedHdrLen + (u16At payload (n + 8)).toNat > payload.length := hdata
    rw [failIf_pos hdata', if_pos hdata, Outcome.err_bind]
  · have hdata' : ¬ n + rrFixedHdrLen + (u16At payload (n + 8)).toNat > payload.length := hdata
    rw [failIf_neg hdata', if_neg hdata, Outcome.ok_bind, slice_eq (by omega) (by omega),
      Outcome.ok_bind, Outcome.ok_bind, Outcome.pure_eq, Nat.add_sub_cancel_left]
    rfl

/-- What a completed iteration read: the record behind a name of length `n`, counted from the start
of the payload. -/
theorem readRecord_ok {r : RecordRead} (h : readRecord payload offset = .ok r) :
    offset < payload.length ∧ ∃ n, skipName (payload.drop offset) = .ok n ∧
      r = recordAt payload n ∧ r.next ≤ payload.length := by
  obtain ⟨⟨⟩, hoff, h⟩ := Outcome.bind_eq_ok.mp h
  rw [failIf_eq_ok] at hoff
  refine ⟨by omega, ?_⟩
  rw [sliceFrom_eq (by omega), Outcome.ok_bind] at h
  obtain ⟨n, hname, h⟩ := Outcome.bind_eq_ok.mp h
  refine ⟨n, hname, ?_⟩
  obtain ⟨fixedEnd, -, h⟩ := Outcome.bind_eq_ok.mp h
  obtain ⟨⟨⟩, -, h⟩ := Outcome.bind_eq_ok.mp h
  obtain ⟨typeNum, htype, h⟩ := Outcome.bind_eq_ok.mp h
  obtain ⟨lengthOffset, hlo, h⟩ := Outcome.bind_eq_ok.mp h
  obtain ⟨length, hlength, h⟩ := Outcome.bind_eq_ok.mp h
  obtain ⟨start, hstart, h⟩ := Outcome.bind_eq_ok.mp h
  obtain ⟨stop, hstop, h⟩ := Outcome.bind_eq_ok.mp h
  obtain ⟨⟨⟩, hfit, h⟩ := Outcome.bind_eq_ok.mp h
  obtain ⟨rdata, hrdata, h⟩ := Outcome.bind_eq_ok.mp h
  obtain ⟨next, hnext, h⟩ := Outcome.bind_eq_ok.mp h
  rw [eq_of_usizeAdd hlo] at hlength
  rw [eq_of_usizeAdd hstart] at hstop hrdata hnext
  rw [eq_of_usizeAdd hstop, beU16At_ok hlength] at hfit hrdata
  rw [beU16At_ok hlength] at hnext h
  rw [failIf_eq_ok] at hfit
  rw [slice_eq (by omega) (by omega), Nat.add_sub_cancel_left] at hrdata
  rw [beU16At_ok htype, eq_of_usizeAdd hnext, ← Outcome.ok.inj hrdata] at h
  have hr : r = recordAt payload n := (Outcome.ok.inj h).symm
  refine ⟨hr, ?_⟩
  rw [hr]
  exact Nat.not_lt.mp hfit

/-- The data of a completed iteration has the announced length. -/
theorem length_rdata_of_readRecord {r : RecordRead} (h : readRecord payload offset = .ok r) :
    r.rdata.length = r.rdlength := by
  obtain ⟨-, n, -, rfl, hnext⟩ := readRecord_ok h
  simp only [recordAt] at hnext ⊢
  rw [List.length_take, List.length_drop]
  omega

/-- Reading a record never panics; the data it returns has the announced length. -/
theorem readRecord_spec (hlen : payload.length < 2 ^ 63) :
    (readRecord payload offset).Spec
      (fun r => r.rdata.length = r.rdlength ∧ r.next ≤ payload.length) DnsParseError.IsWire := by
  by_cases hoff : offset < payload.length
  · have hspec := skipName_drop_spec hlen offset
    cases hname : skipName (payload.drop offset) with
    | ok n =>
      rw [readRecord_eq hlen hoff hname]
      split_ifs with hend hdata
      · exact trivial
      · exact trivial
      · have hnext : n + rrFixedHdrLen + (u16At payload (n + 8)).toNat ≤ payload.length := by
          simpa [recordAt] using hdata
        refine ⟨?_, by omega⟩
        simp only [recordAt, List.length_take, List.length_drop]
        omega
    | err e =>
      rw [readRecord_name_err hoff hname]
      exact hspec.of_err hname
    | panic => exact absurd hname hspec.ne_panic
  · rw [readRecord_end (by omega)]
    exact trivial

end ReadRecord

/-! ## Storing one record -/

/-- Storing a record either adds its address, or skips it, or reports a wrong length. -/
theorem storeRecord_run (r : RecordRead) (hr : r.rdata.length = r.rdlength) (s : DnsResponse) :
    (storeRecord r).run s =
      match r.addr? with
      | some rec => (.ok (), s.addRecord rec)
      | none =>
        if r.rtype = .a ∨ r.rtype = .aaaa then (.err .unexpectedEndOfPayload, s)
        else (.ok (), s) := by
  obtain ⟨rtype, rdlength, rdata, next⟩ := r
  simp only at hr
  subst hr
  cases rtype with
  | a =>
    by_cases h4 : rdata.length = 4
    · obtain ⟨b0, b1, b2, b3, rfl⟩ : ∃ b0 b1 b2 b3, rdata = [b0, b1, b2, b3] := by
        match rdata, h4 with
        | [b0, b1, b2, b3], _ => exact ⟨b0, b1, b2, b3, rfl⟩
      rfl
    · simp only [storeRecord, RecordRead.addr?, h4, dif_neg, not_false_eq_true]
      rw [run_lift_bind_err (failIf_pos h4 _)]
      simp
  | aaaa =>
    by_cases h16 : rdata.length = 16
    · simp only [storeRecord, RecordRead.addr?, h16, dif_pos]
      rw [run_lift_bind_ok (failIf_neg (by simp) _), run_lift_bind_ok (copyFromSlice_eq h16)]
      rfl
    · simp only [storeRecord, RecordRead.addr?, h16, dif_neg, not_false_eq_true]
      rw [run_lift_bind_err (failIf_pos h16 _)]
      simp
  | cname => rfl
  | unsupported t => rfl

/-- An address record that is stored without an error was decoded. -/
theorem addr?_ne_none_of_storeRecord {r : RecordRead} (hr : r.rdata.length = r.rdlength)
    {s t : DnsResponse} (h : (storeRecord r).run s = (.ok (), t))
    (htype : r.rtype = .a ∨ r.rtype = .aaaa) : r.addr? ≠ none := by
  intro hnone
  rw [storeRecord_run r hr, hnone] at h
  simp [htype] at h

/-- Storing a record succeeds only if an address has its length. -/
theorem length_of_storeRecord {r : RecordRead} (hr : r.rdata.length = r.rdlength)
    {s t : DnsResponse} (h : (storeRecord r).run s = (.ok (), t)) :
    (r.rtype = .a → r.rdata.length = 4) ∧ (r.rtype = .aaaa → r.rdata.length = 16) := by
  constructor
  · intro htype
    by_contra hne
    apply addr?_ne_none_of_storeRecord hr h (Or.inl htype)
    simp [RecordRead.addr?, htype, hne]
  · intro htype
    by_contra hne
    apply addr?_ne_none_of_storeRecord hr h (Or.inr htype)
    simp [RecordRead.addr?, htype, hne]

/-! ## The loop -/

/-- Every record of a list, added in order. -/
def DnsResponse.addRecords (s : DnsResponse) (rs : List AddrRecord) : DnsResponse :=
  rs.foldl DnsResponse.addRecord s

/-- The record that is read, and then the others. -/
theorem decodedRecords_succ {payload : List UInt8} {offset : ℕ} {r : RecordRead}
    (h : readRecord payload offset = .ok r) (n : ℕ) :
    decodedRecords payload (n + 1) offset = r.addr?.toList ++ decodedRecords payload n r.next := by
  rw [decodedRecords, h]

/-- The first iteration of a run that succeeds. -/
theorem parseRdataLoop_succ_ok {payload : List UInt8} {n offset : ℕ} {s t : DnsResponse}
    (h : (parseRdataLoop payload (n + 1) offset).run s = (.ok (), t)) :
    ∃ r s', readRecord payload offset = .ok r ∧ (storeRecord r).run s = (.ok (), s') ∧
      (parseRdataLoop payload n r.next).run s' = (.ok (), t) := by
  rw [parseRdataLoop] at h
  obtain ⟨r, hread, hthen⟩ := run_lift_bind_eq_ok.mp h
  obtain ⟨⟨⟩, s', hstore, hloop⟩ := run_bind_eq_ok.mp hthen
  exact ⟨r, s', hread, hstore, hloop⟩

/-- A run of the loop that succeeds has stored exactly the decoded records. -/
theorem parseRdataLoop_run_ok {payload : List UInt8} (n : ℕ) {offset : ℕ} {s t : DnsResponse}
    (h : (parseRdataLoop payload n offset).run s = (.ok (), t)) :
    t = s.addRecords (decodedRecords payload n offset) := by
  induction n generalizing offset s with
  | zero =>
    cases h
    rfl
  | succ n ih =>
    obtain ⟨r, s₂, hread, hstore, hloop⟩ := parseRdataLoop_succ_ok h
    rw [storeRecord_run r (length_rdata_of_readRecord hread)] at hstore
    rw [ih hloop, decodedRecords_succ hread]
    cases haddr : r.addr? with
    | some rec =>
      simp only [haddr] at hstore
      obtain ⟨-, rfl⟩ := Prod.mk.inj hstore
      rfl
    | none =>
      simp only [haddr] at hstore
      -- an address record of a wrong length ends the loop with an error
      split_ifs at hstore
      · exact absurd (congrArg Prod.fst hstore) (by simp)
      · obtain ⟨-, rfl⟩ := Prod.mk.inj hstore
        rfl

/-- The loop never panics, and it only fails with wire errors. -/
theorem parseRdataLoop_spec {payload : List UInt8} (hlen : payload.length < 2 ^ 63) (n offset : ℕ)
    (s : DnsResponse) :
    (parseRdataLoop payload n offset).Spec s (fun _ _ => True) (fun e _ => e.IsWire) := by
  induction n generalizing offset s with
  | zero => exact trivial
  | succ n ih =>
    rw [parseRdataLoop, spec_bind, spec_lift]
    refine (readRecord_spec hlen).mono ?_ fun e he => he
    rintro r ⟨hr, -⟩
    rw [spec_bind, Exec.Spec, storeRecord_run r hr]
    cases r.addr? with
    | some rec => exact ih _ _
    | none =>
      simp only
      split
      · exact trivial
      · exact ih _ _

/-- `parse_rdata` never panics, and it only fails with wire errors. -/
theorem parseRdata_spec {payload : List UInt8} (hlen : payload.length < 2 ^ 63) (anscount : UInt16)
    (s : DnsResponse) :
    (parseRdata payload anscount).Spec s (fun _ _ => True) (fun e _ => e.IsWire) := by
  rw [parseRdata, spec_bind, spec_lift, failIf_spec]
  exact ⟨fun _ => trivial, fun _ => parseRdataLoop_spec hlen _ _ _⟩

/-! ## What the records leave in the slot -/

section AddRecords

variable (s : DnsResponse) (rs : List AddrRecord)

theorem addRecords_cons (r : AddrRecord) : s.addRecords (r :: rs) = (s.addRecord r).addRecords rs :=
  rfl

/-- `resolved_ip_raw` grows by the bytes of the records, joined without separators. -/
theorem addRecords_resolvedIpRaw :
    (s.addRecords rs).resolvedIpRaw = s.resolvedIpRaw ++ rs.flatMap AddrRecord.bytes := by
  induction rs generalizing s with
  | nil => simp [DnsResponse.addRecords]
  | cons r rs ih => simp [addRecords_cons, ih, DnsResponse.addRecord]

/-- `resolved_ip` grows by the texts of the records, joined without separators. -/
theorem addRecords_resolvedIp :
    (s.addRecords rs).resolvedIp = s.resolvedIp ++ String.ofList (rs.flatMap AddrRecord.text) := by
  induction rs generalizing s with
  | nil => simp [DnsResponse.addRecords]
  | cons r rs ih =>
    simp [addRecords_cons, ih, DnsResponse.addRecord, String.append_assoc]

/-- `ip_family` is the family of the last record. -/
theorem addRecords_ipFamily :
    (s.addRecords rs).ipFamily = (rs.getLast?.map AddrRecord.family).getD s.ipFamily := by
  induction rs generalizing s with
  | nil => rfl
  | cons r rs ih =>
    rw [addRecords_cons, ih, List.getLast?_cons]
    cases rs.getLast? <;> rfl

/-- The other fields stay as they were. -/
theorem addRecords_frame :
    s.addRecords rs =
      { s with
        resolvedIp := (s.addRecords rs).resolvedIp
        resolvedIpRaw := (s.addRecords rs).resolvedIpRaw
        ipFamily := (s.addRecords rs).ipFamily } := by
  induction rs generalizing s with
  | nil => rfl
  | cons r rs ih =>
    rw [addRecords_cons, ih]
    rfl

end AddRecords

/-- At most one record is decoded per iteration. -/
theorem length_decodedRecords_le (payload : List UInt8) (n offset : ℕ) :
    (decodedRecords payload n offset).length ≤ n := by
  induction n generalizing offset with
  | zero => simp [decodedRecords]
  | succ n ih =>
    rw [decodedRecords]
    split
    · rename_i r _
      have hone : r.addr?.toList.length ≤ 1 := by cases r.addr? <;> simp
      have hrest := ih r.next
      rw [List.length_append]
      omega
    · simp

end CiliumMini
