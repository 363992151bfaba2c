import CiliumMini.Parser.Grammar

/-!
# The two name walkers agree

`skip_name` decides the format of record names: labels, then a zero byte or a compression pointer.
Every slice either starts with such a name or breaks off behind some labels, and each way to break
off has its error (`skipName_cases`). The names that `parse_qname` accepts have the same length for
`skip_name`, and they are the ASCII names of at most 256 bytes that end in a zero byte
(`skipName_iff`).
-/

namespace CiliumMini

open Exec Dns

/-- What can be wrong behind the labels of a record name, where a label, the zero byte or a pointer
should start. -/
inductive RecordNameViolation : List UInt8 → DnsParseError → Prop
  | missing : RecordNameViolation [] .unexpectedEndOfPayload
  | cutPointer {b : UInt8} (h : 192 ≤ b.toNat) : RecordNameViolation [b] .unexpectedEndOfPayload
  | runsOut {b : UInt8} {rest : List UInt8} (hpos : 0 < b.toNat) (hle : b.toNat ≤ 63)
      (h : rest.length < b.toNat) : RecordNameViolation (b :: rest) .unexpectedEndOfPayload
  | reserved {b : UInt8} {rest : List UInt8} (hge : 64 ≤ b.toNat) (hle : b.toNat ≤ 191) :
      RecordNameViolation (b :: rest) (.invalidLabelLength b.toNat)

/-- The slice starts with a record name of `n` bytes. -/
def StartsWithName (p : List UInt8) (n : ℕ) : Prop :=
  ∃ (name : Name) (tail : List UInt8), p = name.encode ++ tail ∧ n = name.encode.length

/-- Behind labels there is a byte that is neither a length, nor zero, nor the start of a pointer. -/
def ReservedByte (p : List UInt8) (v : ℕ) : Prop :=
  ∃ (ls : List Label) (b : UInt8) (rest : List UInt8), p = encodeLabels ls ++ b :: rest ∧
    64 ≤ b.toNat ∧ b.toNat ≤ 191 ∧ v = b.toNat

section SkipName

variable {payload rest : List UInt8} {offset fuel : ℕ} {e : DnsParseError}

/-- `skip_name` stops at a violation with its error. -/
theorem RecordNameViolation.run (hv : RecordNameViolation rest e)
    (hlen : payload.length < 2 ^ 63) (h : payload.drop offset = rest) :
    skipNameLoop payload (fuel + 1) offset = .err e := by
  cases hv with
  | missing => exact skipNameLoop_end (List.drop_eq_nil_iff.mp h)
  | cutPointer hptr =>
    obtain ⟨hoff, hbyte, -, hend⟩ := getElem_of_drop h
    rw [List.length_nil] at hend
    rw [skipNameLoop_succ hlen hoff, hbyte, if_pos hptr, if_pos (by omega)]
  | runsOut hpos hle hshort =>
    obtain ⟨hoff, hbyte, -, hend⟩ := getElem_of_drop h
    rw [skipNameLoop_succ hlen hoff, hbyte, if_neg (by omega), if_neg (by omega), if_pos hle,
      if_pos (by omega)]
  | reserved hge hle =>
    obtain ⟨hoff, hbyte, -, -⟩ := getElem_of_drop h
    rw [skipNameLoop_succ hlen hoff, hbyte, if_neg (by omega), if_neg (by omega),
      if_neg (by omega)]

/-- Labels and a violation are rejected. -/
theorem skipName_run_violation (ls : List Label) (hv : RecordNameViolation rest e)
    (hlen : (encodeLabels ls ++ rest).length < 2 ^ 63) :
    skipName (encodeLabels ls ++ rest) = .err e := by
  obtain ⟨fuel, hrun⟩ := skipName_run_labels ls hlen
  rw [hrun, hv.run hlen List.drop_left]

/-- Every byte string has labels up to the end of a name or up to a violation. -/
theorem exists_recordLabels (p : List UInt8) :
    ∃ ls rest, p = encodeLabels ls ++ rest ∧
      ((∃ (e : NameEnd) (tail : List UInt8), rest = e.encode ++ tail) ∨
        ∃ e, RecordNameViolation rest e) := by
  induction hn : p.length using Nat.strong_induction_on generalizing p with
  | _ n ih =>
    cases p with
    | nil => exact ⟨[], [], rfl, Or.inr ⟨_, .missing⟩⟩
    | cons b tail =>
      by_cases hptr : 192 ≤ b.toNat
      · cases tail with
        | nil => exact ⟨[], [b], rfl, Or.inr ⟨_, .cutPointer hptr⟩⟩
        | cons lo tail => exact ⟨[], _, rfl, Or.inl ⟨.pointer b lo hptr, tail, rfl⟩⟩
      by_cases hzero : b.toNat = 0
      · obtain rfl : b = 0 := UInt8.toNat_inj.mp hzero
        exact ⟨[], _, rfl, Or.inl ⟨.root, tail, rfl⟩⟩
      by_cases hbig : 64 ≤ b.toNat
      · exact ⟨[], _, rfl, Or.inr ⟨_, .reserved hbig (by omega)⟩⟩
      by_cases hshort : tail.length < b.toNat
      · exact ⟨[], _, rfl, Or.inr ⟨_, .runsOut (by omega) (by omega) hshort⟩⟩
      -- one more label; the rest is shorter
      obtain ⟨l, rest, hp, -⟩ := exists_label (by omega) (by omega) (Nat.not_lt.mp hshort)
      have hcut : (b :: tail).length = l.encode.length + rest.length := by
        rw [hp, List.length_append]
      have hl := l.length_encode
      obtain ⟨ls, rest', hrest, hend⟩ := ih rest.length (by omega) rest rfl
      refine ⟨l :: ls, rest', ?_, hend⟩
      rw [encodeLabels_cons, List.append_assoc, ← hrest, hp]

/-- `skip_name` ends behind a name or at a violation. -/
theorem skipName_cases (p : U8Slice) :
    (∃ n, StartsWithName p.bytes n ∧ skipName p.bytes = .ok n) ∨
      ∃ ls rest e, p.bytes = encodeLabels ls ++ rest ∧ RecordNameViolation rest e ∧
        skipName p.bytes = .err e := by
  have hlen := p.length_lt
  obtain ⟨ls, rest, hp, ⟨e, tail, rfl⟩ | ⟨e, hv⟩⟩ := exists_recordLabels p.bytes
  · left
    have hname : p.bytes = (Name.mk ls e).encode ++ tail := by
      rw [hp, Name.encode, List.append_assoc]
    rw [hname] at hlen ⊢
    exact ⟨_, ⟨_, tail, rfl, rfl⟩, skipName_encode _ hlen⟩
  · right
    refine ⟨ls, rest, e, hp, hv, ?_⟩
    rw [hp] at hlen ⊢
    exact skipName_run_violation ls hv hlen

end SkipName

/-! ## Acceptance and errors -/

section Decides

variable (p : U8Slice)

/-- `skip_name` succeeds exactly behind a name, with the length of it. -/
theorem skipName_eq_ok_iff (n : ℕ) : skipName p.bytes = .ok n ↔ StartsWithName p.bytes n := by
  constructor
  · exact skipName_ok
  · rintro ⟨name, tail, hp, rfl⟩
    have hlen := p.length_lt
    rw [hp] at hlen ⊢
    exact skipName_encode name hlen

/-- It refuses a length exactly where a byte with a reserved prefix is met. -/
theorem skipName_eq_invalid_iff (v : ℕ) :
    skipName p.bytes = .err (.invalidLabelLength v) ↔ ReservedByte p.bytes v := by
  constructor
  · intro h
    obtain ⟨n, -, hok⟩ | ⟨ls, rest, e, hp, hv, herr⟩ := skipName_cases p
    · exact absurd (h.symm.trans hok) (by simp)
    · obtain rfl := Outcome.err.inj (h.symm.trans herr)
      cases hv with
      | reserved hge hle => exact ⟨ls, _, _, hp, hge, hle, rfl⟩
  · rintro ⟨ls, b, rest, hp, hge, hle, rfl⟩
    have hlen := p.length_lt
    rw [hp] at hlen ⊢
    exact skipName_run_violation ls (.reserved hge hle) hlen

/-- Everything else is reported as truncated. -/
theorem skipName_eq_truncated_iff :
    skipName p.bytes = .err .unexpectedEndOfPayload ↔
      (∀ n, ¬ StartsWithName p.bytes n) ∧ ∀ v, ¬ ReservedByte p.bytes v := by
  constructor
  · intro h
    refine ⟨fun n hname => ?_, fun v hbyte => ?_⟩
    · rw [← skipName_eq_ok_iff, h] at hname
      exact absurd hname (by simp)
    · rw [← skipName_eq_invalid_iff, h] at hbyte
      exact absurd hbyte (by simp)
  · rintro ⟨hname, hbyte⟩
    obtain ⟨n, hn, -⟩ | ⟨ls, rest, e, hp, hv, herr⟩ := skipName_cases p
    · exact absurd hn (hname n)
    · cases hv with
      | missing => exact herr
      | cutPointer h => exact herr
      | runsOut hpos hle h => exact herr
      | reserved hge hle => exact absurd ⟨ls, _, _, hp, hge, hle, rfl⟩ (hbyte _)

/-! ## Against `parse_qname` -/

/-- A name that `parse_qname` accepts has the same length for `skip_name`. -/
theorem skipName_of_parseQname {n : ℕ} {out : String}
    (h : (parseQname p.bytes).run "" = (.ok n, out)) : skipName p.bytes = .ok n := by
  obtain ⟨ls, rest, -, hp, rfl, -⟩ := parseQname_ok h
  rw [skipName_eq_ok_iff]
  refine ⟨⟨ls, .root⟩, rest, ?_, ?_⟩
  · rw [hp, Name.encode, List.append_assoc]
    rfl
  · rw [Name.encode, List.length_append]
    rfl

/-- Of the names that end in a zero byte, `parse_qname` accepts those of ASCII labels and at most
256 bytes. -/
theorem parseQname_of_skipName {ls : List Label} {rest : List UInt8} {n : ℕ}
    (hp : p.bytes = encodeLabels ls ++ 0 :: rest) (hascii : ∀ l ∈ ls, ∀ b ∈ l.bytes, b < 128)
    (h : skipName p.bytes = .ok n) (hle : n ≤ 256) :
    (parseQname p.bytes).run "" = (.ok n, String.ofList (dotted ls)) := by
  obtain ⟨name, tail, hname, rfl⟩ := (skipName_eq_ok_iff p n).mp h
  rw [hname, Name.encode, List.append_assoc] at hp
  -- the bytes can be read as a name in one way only
  obtain ⟨rfl, hend, rfl⟩ := encodeLabels_inj hp
  have hsize : name.encode.length = (encodeLabels name.labels).length + 1 := by
    rw [Name.encode, List.length_append, hend]
    rfl
  have hbytes : p.bytes = encodeLabels name.labels ++ 0 :: tail := by
    rw [hname, Name.encode, List.append_assoc, hend]
    rfl
  rw [hbytes, hsize, parseQname_run_name ⟨hascii, by omega⟩]

end Decides

/-- `skip_name` decides the format of record names and agrees with `parse_qname`. It returns the
length of the name that the slice starts with. It reports an invalid length for a byte from 64 to
191 behind labels, and a truncated payload for everything else. It returns what `parse_qname`
returns, and the other way round for ASCII names of at most 256 bytes that end in a zero byte. -/
theorem skipName_iff (p : U8Slice) :
    (∀ n, skipName p.bytes = .ok n ↔ StartsWithName p.bytes n) ∧
      (∀ n, skipName p.bytes = .ok n → 1 ≤ n ∧ n ≤ p.bytes.length) ∧
      (∀ v, skipName p.bytes = .err (.invalidLabelLength v) ↔ ReservedByte p.bytes v) ∧
      (skipName p.bytes = .err .unexpectedEndOfPayload ↔
        (∀ n, ¬ StartsWithName p.bytes n) ∧ ∀ v, ¬ ReservedByte p.bytes v) ∧
      (∀ n out, (parseQname p.bytes).run "" = (.ok n, out) → skipName p.bytes = .ok n) ∧
      ∀ ls rest n, p.bytes = encodeLabels ls ++ 0 :: rest →
        (∀ l ∈ ls, ∀ b ∈ l.bytes, b < 128) → skipName p.bytes = .ok n → n ≤ 256 →
          (parseQname p.bytes).run "" = (.ok n, String.ofList (dotted ls)) := by
  refine ⟨skipName_eq_ok_iff p, ?_, skipName_eq_invalid_iff p, skipName_eq_truncated_iff p, ?_, ?_⟩
  · intro n hok
    exact (skipName_spec p.length_lt).of_ok hok
  · intro n out hq
    exact skipName_of_parseQname p hq
  · intro ls rest n hp hascii hok hle
    exact parseQname_of_skipName p hp hascii hok hle

end CiliumMini
