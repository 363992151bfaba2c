import CiliumMini.Parser.Recovery
import CiliumMini.Parser.Responses

/-!
# Progress of the answer loop

An iteration of `parse_rdata` reads the name at its offset, and then the fixed part and the data of
a record. Behind the first iteration these are two places: the name is read at the offset, the
record at the length of that name, counted from the start of the payload. So the bytes of the
answers are read once exactly when there is at most one (`parseRdata_consumesOnce`), and a packet
can make the loop read its first record 65535 times (`parseRdata_amplifies`).
-/

namespace CiliumMini

open Exec Dns

/-- The windows from the start of the name to the end of the data, for the first `n` iterations from
`offset` on. -/
def recordWindows (payload : List UInt8) : ℕ → ℕ → List (ℕ × ℕ)
  | 0, _ => []
  | n + 1, offset =>
    match readRecord payload offset with
    | .ok r => (offset, r.next) :: recordWindows payload n r.next
    | _ => []

/-- The places that these iterations read, in order: the name, then the fixed part with the data. -/
def readSpans (payload : List UInt8) : ℕ → ℕ → List (ℕ × ℕ)
  | 0, _ => []
  | n + 1, offset =>
    match skipName (payload.drop offset), readRecord payload offset with
    | .ok k, .ok r => (offset, offset + k) :: (k, r.next) :: readSpans payload n r.next
    | _, _ => []

/-- Spans that are not empty, in order and apart from each other. -/
def Ascending (spans : List (ℕ × ℕ)) : Prop :=
  (∀ w ∈ spans, w.1 < w.2) ∧ spans.Pairwise fun v w => v.2 ≤ w.1

/-- Every byte of the answers is read at most once: what the iterations read is ascending, and so
are their windows, a record takes at least 11 bytes, and the addresses fit in the payload. -/
structure ConsumesOnce (payload : List UInt8) (anscount : UInt16) (t : DnsResponse) : Prop where
  spans : Ascending (readSpans payload anscount.toNat 0)
  windows : Ascending (recordWindows payload anscount.toNat 0)
  count : anscount.toNat * 11 ≤ payload.length
  raw : t.resolvedIpRaw.length ≤ payload.length

section Loop

variable {payload : List UInt8} {offset : ℕ} {r : RecordRead}

/-- The window of a record that is read, and those of the others. -/
theorem recordWindows_succ (h : readRecord payload offset = .ok r) (n : ℕ) :
    recordWindows payload (n + 1) offset = (offset, r.next) :: recordWindows payload n r.next := by
  rw [recordWindows, h]

/-- The two spans of a record that is read, and those of the others. -/
theorem readSpans_succ (h : readRecord payload offset = .ok r) {k : ℕ}
    (hname : skipName (payload.drop offset) = .ok k) (n : ℕ) :
    readSpans payload (n + 1) offset =
      (offset, offset + k) :: (k, r.next) :: readSpans payload n r.next := by
  rw [readSpans, h, hname]

/-- What an iteration measured and read. -/
theorem exists_name_of_readRecord (h : readRecord payload offset = .ok r) :
    ∃ k, skipName (payload.drop offset) = .ok k ∧ 0 < k ∧ k + 10 + r.rdlength = r.next ∧
      r.next ≤ payload.length := by
  obtain ⟨-, k, hname, hr, hnext⟩ := readRecord_ok h
  refine ⟨k, hname, ?_, by rw [hr]; rfl, hnext⟩
  obtain ⟨name, tail, -, hk⟩ := skipName_ok hname
  rw [hk, Name.encode, List.length_append]
  cases name.tail <;> simp [NameEnd.encode]

/-- An address comes from the data of its record. -/
theorem length_bytes_addr? (hr : r.rdata.length = r.rdlength) :
    (r.addr?.toList.flatMap AddrRecord.bytes).length ≤ r.rdlength := by
  rw [← hr]
  unfold RecordRead.addr?
  split
  · split <;> simp [AddrRecord.bytes]
  · split <;> simp [AddrRecord.bytes]
  · simp
  · simp

/-- The second iteration locates its record with the length of the name alone, so it reads a byte
of what was read before. -/
theorem not_ascending_readSpans {n : ℕ} {s t : DnsResponse}
    (h : (parseRdataLoop payload (n + 2) 0).run s = (.ok (), t)) :
    ¬ Ascending (readSpans payload (n + 2) 0) := by
  obtain ⟨r₁, s₁, hread₁, -, hloop⟩ := parseRdataLoop_succ_ok h
  obtain ⟨r₂, -, hread₂, -, -⟩ := parseRdataLoop_succ_ok hloop
  obtain ⟨k₁, hname₁, hpos₁, hnext₁, -⟩ := exists_name_of_readRecord hread₁
  obtain ⟨k₂, hname₂, -, -, -⟩ := exists_name_of_readRecord hread₂
  rw [readSpans_succ hread₁ hname₁, readSpans_succ hread₂ hname₂]
  rintro ⟨-, hpair⟩
  obtain ⟨-, hpair⟩ := List.pairwise_cons.mp hpair
  obtain ⟨-, hpair⟩ := List.pairwise_cons.mp hpair
  -- the second name ends at `r₁.next + k₂`, its record is read from `k₂` on
  have horder : r₁.next + k₂ ≤ k₂ :=
    (List.pairwise_cons.mp hpair).1 (k₂, r₂.next) List.mem_cons_self
  omega

/-- One record is read in one piece. -/
theorem consumesOnce_one {slot t : DnsResponse}
    (h : (parseRdata payload 1).run (resetSlot slot) = (.ok (), t)) :
    ConsumesOnce payload 1 t := by
  obtain ⟨-, hraw⟩ := parseRdata_joined h
  obtain ⟨⟨⟩, -, hloop⟩ := run_lift_bind_eq_ok.mp h
  obtain ⟨r, -, hread, -, -⟩ := parseRdataLoop_succ_ok hloop
  obtain ⟨k, hname, hpos, hnext, hle⟩ := exists_name_of_readRecord hread
  have hone : (1 : UInt16).toNat = 0 + 1 := rfl
  have hbytes := length_bytes_addr? (length_rdata_of_readRecord hread)
  rw [hone, decodedRecords_succ hread, decodedRecords, List.append_nil] at hraw
  refine ⟨?_, ?_, ?_, ?_⟩
  · rw [hone, readSpans_succ hread hname]
    simp only [Ascending, readSpans, List.mem_cons, List.not_mem_nil, or_false, forall_eq_or_imp,
      forall_eq, List.pairwise_cons, List.Pairwise.nil]
    refine ⟨⟨by omega, by omega⟩, by omega, ?_⟩
    simp
  · rw [hone, recordWindows_succ hread]
    simp only [Ascending, recordWindows, List.mem_singleton, forall_eq, List.pairwise_singleton]
    exact ⟨by omega, trivial⟩
  · rw [hone]
    omega
  · rw [hraw]
    omega

end Loop

/-- A successful run reads every byte at most once exactly when there is at most one answer. -/
theorem parseRdata_consumesOnce (payload : List UInt8) (anscount : UInt16) (slot t : DnsResponse)
    (h : (parseRdata payload anscount).run (resetSlot slot) = (.ok (), t)) :
    ConsumesOnce payload anscount t ↔ anscount.toNat ≤ 1 := by
  constructor
  · intro honce
    by_contra hmany
    obtain ⟨n, hn⟩ : ∃ n, anscount.toNat = n + 2 := ⟨anscount.toNat - 2, by omega⟩
    obtain ⟨⟨⟩, -, hloop⟩ := run_lift_bind_eq_ok.mp h
    have hspans := honce.spans
    rw [hn] at hloop hspans
    exact not_ascending_readSpans hloop hspans
  · intro hle
    rcases Nat.le_one_iff_eq_zero_or_eq_one.mp hle with hzero | hone
    · obtain ⟨-, hraw⟩ := parseRdata_joined h
      rw [hzero, decodedRecords, List.flatMap_nil] at hraw
      refine ⟨?_, ?_, ?_, ?_⟩
      · simp [hzero, readSpans, Ascending]
      · simp [hzero, recordWindows, Ascending]
      · simp [hzero]
      · simp [hraw]
    · obtain rfl : anscount = 1 := UInt16.toNat_inj.mp hone
      exact consumesOnce_one h

/-- One A record for 10.0.0.1 and the name of a second one. -/
def repeatedAnswers : List UInt8 := (examplePointerA 10 0 0 1).encode ++ [0xC0, 12]

/-- One announced answer is read once, whatever follows it. -/
theorem parseRdata_consumesOnce_one :
    ∃ t, (parseRdata repeatedAnswers 1).run (resetSlot default) = (.ok (), t) ∧
      ConsumesOnce repeatedAnswers 1 t :=
  ⟨_, rfl, (parseRdata_consumesOnce repeatedAnswers 1 default _ rfl).mpr (by decide)⟩

/-- Every announced answer is read as the one record. -/
theorem readRecord_repeatedAnswers {offset : ℕ} (h : offset = 0 ∨ offset = 16) :
    offset < repeatedAnswers.length ∧ skipName (repeatedAnswers.drop offset) = .ok 2 ∧
      readRecord repeatedAnswers offset = .ok (examplePointerA 10 0 0 1).read := by
  rcases h with rfl | rfl
  · exact ⟨by decide, rfl, rfl⟩
  · exact ⟨by decide, rfl, rfl⟩

/-- Every announced answer is read as the one record that is there. -/
theorem parseRdata_repeatedAnswers {anscount : UInt16} (hpos : 0 < anscount.toNat)
    (s : DnsResponse) :
    (parseRdata repeatedAnswers anscount).run s = (.ok (), s.addRecords
      (List.replicate anscount.toNat (examplePointerA 10 0 0 1).addr?.toList).flatten) := by
  obtain ⟨k, hk⟩ : ∃ k, anscount.toNat = k + 1 := ⟨anscount.toNat - 1, by omega⟩
  obtain ⟨hoff, hname, -⟩ := readRecord_repeatedAnswers (Or.inl rfl)
  obtain ⟨hoff', hname', -⟩ := readRecord_repeatedAnswers (Or.inr rfl)
  rw [parseRdata, run_lift_bind_ok (failIf_neg (by decide) _), hk]
  exact parseRdataLoop_repeat (by decide) (examplePointerA 10 0 0 1) rfl k hoff hname
    (Or.inr ⟨hoff', hname'⟩) s

/-- With 65535 announced answers, 18 bytes are read as 65535 records: `resolved_ip_raw` holds the
one address 65535 times, and the second window is empty. -/
theorem parseRdata_amplifies :
    (¬ ∀ (payload : List UInt8) (anscount : UInt16) (slot t : DnsResponse),
      (parseRdata payload anscount).run (resetSlot slot) = (.ok (), t) →
        ConsumesOnce payload anscount t) ∧
      ∃ t, (parseRdata repeatedAnswers 65535).run (resetSlot default) = (.ok (), t) ∧
        repeatedAnswers.length = 18 ∧ t.resolvedIpRaw.length = 65535 * 4 ∧
        ¬ Ascending (recordWindows repeatedAnswers 65535 0) := by
  have hcount : (65535 : UInt16).toNat = 65535 := rfl
  have hrun := parseRdata_repeatedAnswers (show 0 < (65535 : UInt16).toNat by decide)
    (resetSlot default)
  rw [hcount] at hrun
  have hraw : ∀ n, ((resetSlot default).addRecords
      (List.replicate n (examplePointerA 10 0 0 1).addr?.toList).flatten).resolvedIpRaw.length =
      n * 4 := by
    intro n
    rw [addRecords_resolvedIpRaw, flatMap_bytes_replicate]
    simp [resetSlot, ResourceRecord.addressBytes, examplePointerA, typeA]
  refine ⟨?_, _, hrun, rfl, hraw 65535, ?_⟩
  · intro hall
    have hfit := (hall _ _ _ _ hrun).raw
    rw [hraw] at hfit
    exact absurd hfit (by decide)
  · obtain ⟨-, -, hfirst⟩ := readRecord_repeatedAnswers (Or.inl rfl)
    obtain ⟨-, -, hsecond⟩ := readRecord_repeatedAnswers (Or.inr rfl)
    rw [recordWindows_succ hfirst 65534]
    rintro ⟨hpos, -⟩
    have hmem : (16, 16) ∈ recordWindows repeatedAnswers 65534 16 := by
      rw [recordWindows_succ hsecond 65533]
      exact List.mem_cons_self
    exact absurd (hpos (16, 16) (List.mem_cons_of_mem _ hmem)) (by decide)

end CiliumMini
