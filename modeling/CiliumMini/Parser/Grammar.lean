import CiliumMini.Parser.Names
import CiliumMini.Wire.Dns

/-!
# Names against their grammar

Both name walkers follow the formats of `Wire.Dns`. `skip_name` measures exactly the record names
(`skipName_encode`, `skipName_ok`). `parse_qname` reads ASCII labels of at most 255 bytes, length
bytes included, up to a zero byte, and reports the first violation of that grammar otherwise
(`parseQname_iff`).
-/

namespace CiliumMini

open Exec Dns

/-! ## Record names -/

theorem encodeLabels_cons (l : Label) (ls : List Label) :
    encodeLabels (l :: ls) = l.encode ++ encodeLabels ls := rfl

/-- Each label takes a byte at least. -/
theorem length_le_encodeLabels (ls : List Label) : ls.length ≤ (encodeLabels ls).length := by
  induction ls with
  | nil => exact Nat.zero_le _
  | cons l ls ih =>
    have hl := l.length_encode
    rw [encodeLabels_cons, List.length_append, List.length_cons]
    omega

section Walk

variable {payload tail : List UInt8} {offset fuel : ℕ}

/-- The byte at the head of what is left. -/
theorem getElem_of_drop {b : UInt8} (h : payload.drop offset = b :: tail) :
    ∃ hoff : offset < payload.length, payload[offset] = b ∧ payload.drop (offset + 1) = tail ∧
      payload.length = offset + 1 + tail.length := by
  have hlen : (payload.drop offset).length = tail.length + 1 := by simp [h]
  rw [List.length_drop] at hlen
  have hoff : offset < payload.length := by omega
  rw [List.drop_eq_getElem_cons hoff] at h
  exact ⟨hoff, (List.cons.inj h).1, (List.cons.inj h).2, by omega⟩

/-- A length byte and as many bytes behind it are a label. -/
theorem exists_label {b : UInt8} (hpos : 0 < b.toNat) (hle : b.toNat ≤ 63)
    (hfit : b.toNat ≤ tail.length) :
    ∃ (l : Label) (rest : List UInt8), b :: tail = l.encode ++ rest ∧
      l.bytes.length = b.toNat := by
  have hlen : (tail.take b.toNat).length = b.toNat := List.length_take_of_le hfit
  refine ⟨⟨tail.take b.toNat, by omega, by omega⟩, tail.drop b.toNat, ?_, hlen⟩
  show b :: tail =
    UInt8.ofNat (tail.take b.toNat).length :: (tail.take b.toNat ++ tail.drop b.toNat)
  rw [hlen, List.take_append_drop, UInt8.ofNat_toNat]

/-- `skip_name` steps over a label. -/
theorem skipNameLoop_label (hlen : payload.length < 2 ^ 63) (l : Label)
    (h : payload.drop offset = l.encode ++ tail) :
    skipNameLoop payload (fuel + 1) offset =
      skipNameLoop payload fuel (offset + l.encode.length) := by
  rw [Label.encode, List.cons_append] at h
  obtain ⟨hoff, hbyte, -, hend⟩ := getElem_of_drop h
  have hnat : payload[offset].toNat = l.bytes.length := by rw [hbyte, l.toNat_lengthByte]
  have hpos := l.length_pos
  have hle := l.length_le
  rw [List.length_append] at hend
  rw [skipNameLoop_succ hlen hoff, hnat, if_neg (by omega), if_neg (by omega), if_pos hle,
    if_neg (by omega), Label.length_encode, Nat.add_assoc, Nat.add_comm 1]

/-- `skip_name` walks over labels. -/
theorem skipNameLoop_labels (hlen : payload.length < 2 ^ 63) (ls : List Label)
    (h : payload.drop offset = encodeLabels ls ++ tail) :
    skipNameLoop payload (fuel + ls.length) offset =
      skipNameLoop payload fuel (offset + (encodeLabels ls).length) := by
  induction ls generalizing offset with
  | nil => rfl
  | cons l ls ih =>
    rw [encodeLabels_cons, List.append_assoc] at h
    have hnext : payload.drop (offset + l.encode.length) = encodeLabels ls ++ tail := by
      rw [← List.drop_drop, h, List.drop_left]
    rw [List.length_cons, ← Nat.add_assoc, skipNameLoop_label hlen l h, ih hnext,
      encodeLabels_cons, List.length_append, Nat.add_assoc]

/-- At the start of a slice, `skip_name` walks over the labels and has fuel left for what ends them.
-/
theorem skipName_run_labels (ls : List Label) (hlen : (encodeLabels ls ++ tail).length < 2 ^ 63) :
    ∃ fuel, skipName (encodeLabels ls ++ tail) =
      skipNameLoop (encodeLabels ls ++ tail) (fuel + 1) (encodeLabels ls).length := by
  have hcount := length_le_encodeLabels ls
  obtain ⟨fuel, hfuel⟩ : ∃ fuel, (encodeLabels ls ++ tail).length + 1 = fuel + 1 + ls.length := by
    refine ⟨(encodeLabels ls ++ tail).length - ls.length, ?_⟩
    rw [List.length_append]
    omega
  refine ⟨fuel, ?_⟩
  rw [skipName, hfuel, skipNameLoop_labels hlen ls List.drop_zero, Nat.zero_add]

/-- `skip_name` returns the length of the name its slice starts with. -/
theorem skipName_encode (n : Name) (hlen : (n.encode ++ tail).length < 2 ^ 63) :
    skipName (n.encode ++ tail) = .ok n.encode.length := by
  obtain ⟨ls, e⟩ := n
  simp only [Name.encode, List.append_assoc] at hlen ⊢
  rw [List.length_append]
  obtain ⟨fuel, hrun⟩ := skipName_run_labels ls hlen
  have hend : (encodeLabels ls ++ (e.encode ++ tail)).drop (encodeLabels ls).length =
      e.encode ++ tail := List.drop_left
  cases e with
  | root =>
    obtain ⟨hoff, hbyte, -, -⟩ := getElem_of_drop hend
    rw [hrun, skipNameLoop_succ hlen hoff, hbyte]
    rfl
  | pointer hi lo hhi =>
    obtain ⟨hoff, hbyte, -, hlast⟩ := getElem_of_drop hend
    have hsize : (encodeLabels ls ++ ((NameEnd.pointer hi lo hhi).encode ++ tail)).length =
        (encodeLabels ls).length + 1 + (tail.length + 1) := hlast
    rw [hrun, skipNameLoop_succ hlen hoff, hbyte, if_pos hhi, if_neg (by omega)]
    rfl

/-- What `skip_name` measured is a name. -/
theorem skipNameLoop_ok {n : ℕ} (h : skipNameLoop payload fuel offset = .ok n) :
    ∃ ls e tail, payload.drop offset = encodeLabels ls ++ (NameEnd.encode e ++ tail) ∧
      n = offset + (encodeLabels ls ++ NameEnd.encode e).length := by
  induction fuel generalizing offset with
  | zero => exact absurd h (by simp [skipNameLoop])
  | succ fuel ih =>
    obtain ⟨hoff, hcase⟩ := skipNameLoop_succ_ok h
    have hdrop := List.drop_eq_getElem_cons hoff
    rcases hcase with ⟨hptr, hlo, rfl⟩ | ⟨hzero, rfl⟩ | ⟨hpos, hle, hfit, hloop⟩
    · refine ⟨[], .pointer payload[offset] payload[offset + 1] hptr,
        payload.drop (offset + 1 + 1), ?_, rfl⟩
      rw [hdrop, List.drop_eq_getElem_cons hlo]
      rfl
    · refine ⟨[], .root, payload.drop (offset + 1), ?_, rfl⟩
      rw [hdrop, hzero]
      rfl
    · -- a label, and the rest of the name behind it
      have hroom : payload[offset].toNat ≤ (payload.drop (offset + 1)).length := by
        rw [List.length_drop]
        omega
      obtain ⟨l, rest, hlabel, hlen⟩ := exists_label hpos hle hroom
      obtain ⟨ls, e, tail, hrest, rfl⟩ := ih hloop
      have hcut : payload.drop (offset + 1 + payload[offset].toNat) = rest := by
        rw [← hlen, Nat.add_assoc, Nat.add_comm 1, ← Label.length_encode, ← List.drop_drop, hdrop,
          hlabel, List.drop_left]
      refine ⟨l :: ls, e, tail, ?_, ?_⟩
      · rw [hdrop, hlabel, ← hcut, hrest, encodeLabels_cons, List.append_assoc]
      · simp only [encodeLabels_cons, List.length_append, Label.length_encode]
        omega

/-- `skip_name` accepts only names, and returns their length. -/
theorem skipName_ok {n : ℕ} (h : skipName payload = .ok n) :
    ∃ (name : Name) (tail : List UInt8), payload = name.encode ++ tail ∧
      n = name.encode.length := by
  obtain ⟨ls, e, tail, hdrop, hn⟩ := skipNameLoop_ok h
  refine ⟨⟨ls, e⟩, tail, ?_, ?_⟩
  · rw [Name.encode, List.append_assoc, ← hdrop, List.drop_zero]
  · rw [hn, Nat.zero_add, Name.encode]

/-- Labels can be told apart from what ends them, so a name that also reads as labels and a zero
byte is these labels and ends in that byte. -/
theorem encodeLabels_inj {ls ls' : List Label} {e : NameEnd} {rest : List UInt8}
    (h : encodeLabels ls ++ (e.encode ++ tail) = encodeLabels ls' ++ 0 :: rest) :
    ls = ls' ∧ e.encode = [0] ∧ tail = rest := by
  induction ls generalizing ls' with
  | nil =>
    cases ls' with
    | nil =>
      cases e with
      | root => exact ⟨rfl, rfl, (List.cons.inj h).2⟩
      | pointer hi lo hhi =>
        rw [(List.cons.inj h).1] at hhi
        exact absurd hhi (by decide)
    | cons l' ls' =>
      -- the end of a name is no length byte
      have hpos := l'.length_pos
      have hle := l'.length_le
      cases e with
      | root =>
        have hbyte := congrArg UInt8.toNat (List.cons.inj h).1
        rw [l'.toNat_lengthByte] at hbyte
        exact absurd hbyte (Nat.ne_of_lt hpos)
      | pointer hi lo hhi =>
        have hbyte := congrArg UInt8.toNat (List.cons.inj h).1
        rw [l'.toNat_lengthByte] at hbyte
        omega
  | cons l ls ih =>
    have hpos := l.length_pos
    cases ls' with
    | nil =>
      have hbyte := congrArg UInt8.toNat (List.cons.inj h).1
      rw [l.toNat_lengthByte] at hbyte
      exact absurd hbyte.symm (Nat.ne_of_lt hpos)
    | cons l' ls' =>
      rw [encodeLabels_cons, encodeLabels_cons, List.append_assoc, List.append_assoc, Label.encode,
        Label.encode, List.cons_append, List.cons_append] at h
      obtain ⟨hbyte, hbody⟩ := List.cons.inj h
      have hsize : l.bytes.length = l'.bytes.length := by
        rw [← l.toNat_lengthByte, hbyte, l'.toNat_lengthByte]
      obtain ⟨hbytes, hnext⟩ := List.append_inj hbody hsize
      obtain rfl : l = l' := by
        cases l
        cases l'
        simp_all
      obtain ⟨rfl, hend, hrest⟩ := ih hnext
      exact ⟨rfl, hend, hrest⟩

end Walk

/-! ## Question names -/

/-- Labels joined with dots. -/
def Dns.dotted (ls : List Label) : List Char := List.intercalate ['.'] (ls.map Label.text)

/-- The labels that `parse_qname` lets through: ASCII bytes, and at most 255 bytes with all length
bytes. -/
structure ValidLabels (ls : List Label) : Prop where
  ascii : ∀ l ∈ ls, ∀ b ∈ l.bytes, b < 128
  length_le : (encodeLabels ls).length ≤ 255

/-- What can be wrong behind `total` bytes of valid labels, where a label or the zero byte should
start. The conditions follow the order of the checks. -/
inductive NameViolation (total : ℕ) : List UInt8 → DnsParseError → Prop
  | missing : NameViolation total [] .unexpectedEndOfPayload
  | tooLong {b : UInt8} {rest : List UInt8} (h : 63 < b.toNat) :
      NameViolation total (b :: rest) (.invalidLabelLength b.toNat)
  | runsOut {b : UInt8} {rest : List UInt8} (hpos : 0 < b.toNat) (hle : b.toNat ≤ 63)
      (h : rest.length < b.toNat) : NameViolation total (b :: rest) .unexpectedEndOfPayload
  | exceeds (l : Label) {rest : List UInt8} (h : 255 < total + l.encode.length) :
      NameViolation total (l.encode ++ rest) .labelExceedsMaxLen
  | nonAscii (l : Label) {rest : List UInt8} (htotal : total + l.encode.length ≤ 255)
      (h : ¬ ∀ b ∈ l.bytes, b < 128) : NameViolation total (l.encode ++ rest) .nonAsciiDomainName

section Question

variable {payload tail : List UInt8} {offset fuel total : ℕ} {out : String}

/-- The check looks at every byte. -/
theorem isAscii_iff {l : List UInt8} : isAscii l = true ↔ ∀ b ∈ l, b < 128 := by
  simp [isAscii]

/-- What `parse_qname` sees at the start of a label. -/
theorem labelAt_encode (l : Label) (h : payload.drop offset = l.encode ++ tail) :
    ∃ hoff : offset < payload.length, payload[offset].toNat = l.bytes.length ∧
      labelAt payload offset l.bytes.length = l.bytes ∧
      offset + 1 + l.bytes.length ≤ payload.length := by
  rw [Label.encode, List.cons_append] at h
  obtain ⟨hoff, hbyte, hrest, hend⟩ := getElem_of_drop h
  rw [List.length_append] at hend
  refine ⟨hoff, by rw [hbyte, l.toNat_lengthByte], ?_, by omega⟩
  rw [labelAt, hrest, List.take_left]

/-- `parse_qname` steps over a label and adds its text. -/
theorem parseQnameLoop_label (hoff : offset < 2 ^ 63) (l : Label)
    (hascii : ∀ b ∈ l.bytes, b < 128) (htotal : total + l.encode.length ≤ 255)
    (h : payload.drop offset = l.encode ++ tail) :
    (parseQnameLoop payload (fuel + 1) offset total).run out =
      (parseQnameLoop payload fuel (offset + l.encode.length) (total + l.encode.length)).run
        (pushLabel out l.bytes) := by
  obtain ⟨hin, hnat, hlabel, hend⟩ := labelAt_encode l h
  have hpos := l.length_pos
  have hle := l.length_le
  rw [Label.length_encode] at htotal
  rw [parseQnameLoop_succ hoff (by omega) hin, hnat, hlabel, if_neg (by omega), if_neg (by omega),
    if_neg (by omega), if_neg (by omega), if_neg (by rw [isAscii_iff.mpr hascii]; simp),
    Label.length_encode, Nat.add_assoc offset, Nat.add_comm 1]

/-- `parse_qname` walks over valid labels, adding each in turn. -/
theorem parseQnameLoop_labels (ls : List Label) (hascii : ∀ l ∈ ls, ∀ b ∈ l.bytes, b < 128)
    (hoff : offset + (encodeLabels ls).length < 2 ^ 63)
    (htotal : total + (encodeLabels ls).length ≤ 255)
    (h : payload.drop offset = encodeLabels ls ++ tail) :
    (parseQnameLoop payload (fuel + ls.length) offset total).run out =
      (parseQnameLoop payload fuel (offset + (encodeLabels ls).length)
        (total + (encodeLabels ls).length)).run ((ls.map Label.bytes).foldl pushLabel out) := by
  induction ls generalizing offset total out with
  | nil => rfl
  | cons l ls ih =>
    rw [encodeLabels_cons, List.append_assoc] at h
    rw [encodeLabels_cons, List.length_append] at hoff htotal ⊢
    have hnext : payload.drop (offset + l.encode.length) = encodeLabels ls ++ tail := by
      rw [← List.drop_drop, h, List.drop_left]
    rw [List.length_cons, ← Nat.add_assoc,
      parseQnameLoop_label (by omega) l (hascii l List.mem_cons_self) (by omega) h,
      ih (fun l' hl' => hascii l' (List.mem_cons_of_mem l hl')) (by omega) (by omega) hnext,
      Nat.add_assoc, Nat.add_assoc, List.map_cons, List.foldl_cons]

/-- `parse_qname` stops at a violation with its error. -/
theorem NameViolation.run {rest : List UInt8} {e : DnsParseError}
    (hv : NameViolation total rest e) (hoff : offset < 2 ^ 63) (htotal : total ≤ 255)
    (h : payload.drop offset = rest) :
    (parseQnameLoop payload (fuel + 1) offset total).run out = (.err e, out) := by
  cases hv with
  | missing => exact parseQnameLoop_end (List.drop_eq_nil_iff.mp h)
  | tooLong hbig =>
    obtain ⟨hin, hbyte, -, -⟩ := getElem_of_drop h
    rw [parseQnameLoop_succ hoff htotal hin, hbyte, if_neg (by omega), if_pos hbig]
  | runsOut hpos hle hshort =>
    obtain ⟨hin, hbyte, -, hend⟩ := getElem_of_drop h
    rw [parseQnameLoop_succ hoff htotal hin, hbyte, if_neg (by omega), if_neg (by omega),
      if_pos (by omega)]
  | exceeds l hsum =>
    obtain ⟨hin, hnat, -, hend⟩ := labelAt_encode l h
    have hpos := l.length_pos
    have hle := l.length_le
    rw [Label.length_encode] at hsum
    rw [parseQnameLoop_succ hoff htotal hin, hnat, if_neg (by omega), if_neg (by omega),
      if_neg (by omega), if_pos (by omega)]
  | nonAscii l hsum hbytes =>
    obtain ⟨hin, hnat, hlabel, hend⟩ := labelAt_encode l h
    have hpos := l.length_pos
    have hle := l.length_le
    have hfalse : isAscii l.bytes = false := by
      rw [Bool.eq_false_iff, ne_eq, isAscii_iff]
      exact hbytes
    rw [Label.length_encode] at hsum
    rw [parseQnameLoop_succ hoff htotal hin, hnat, hlabel, if_neg (by omega), if_neg (by omega),
      if_neg (by omega), if_neg (by omega), if_pos hfalse]

/-- Every byte string has valid labels up to a zero byte or up to a violation. -/
theorem exists_validLabels (total : ℕ) (htotal : total ≤ 255) (p : List UInt8) :
    ∃ ls rest, (∀ l ∈ ls, ∀ b ∈ l.bytes, b < 128) ∧ total + (encodeLabels ls).length ≤ 255 ∧
      p = encodeLabels ls ++ rest ∧ ((∃ tail, rest = 0 :: tail) ∨
        ∃ e, NameViolation (total + (encodeLabels ls).length) rest e) := by
  induction hn : p.length using Nat.strong_induction_on generalizing p total with
  | _ n ih =>
    -- a violation right here: no label in front of it
    have hstop : ∀ rest e, p = rest → NameViolation total rest e → ∃ ls rest,
        (∀ l ∈ ls, ∀ b ∈ l.bytes, b < 128) ∧ total + (encodeLabels ls).length ≤ 255 ∧
        p = encodeLabels ls ++ rest ∧ ((∃ tail, rest = 0 :: tail) ∨
          ∃ e, NameViolation (total + (encodeLabels ls).length) rest e) := by
      intro rest e hp hv
      exact ⟨[], rest, by simp, by simpa [encodeLabels] using htotal, hp, Or.inr ⟨e, hv⟩⟩
    cases p with
    | nil => exact hstop _ _ rfl .missing
    | cons b tail =>
      by_cases hzero : b.toNat = 0
      · have hb : b = 0 := UInt8.toNat_inj.mp hzero
        exact ⟨[], b :: tail, by simp, by simpa [encodeLabels] using htotal, rfl,
          Or.inl ⟨tail, by rw [hb]⟩⟩
      by_cases hbig : 63 < b.toNat
      · exact hstop _ _ rfl (.tooLong hbig)
      by_cases hshort : tail.length < b.toNat
      · exact hstop _ _ rfl (.runsOut (by omega) (by omega) hshort)
      obtain ⟨l, rest, hp, hlen⟩ := exists_label (by omega) (by omega) (Nat.not_lt.mp hshort)
      by_cases hsum : 255 < total + l.encode.length
      · exact hstop _ _ hp (.exceeds l hsum)
      by_cases hascii : ∀ b ∈ l.bytes, b < 128
      · -- one more valid label; the rest is shorter
        have hcut : (b :: tail).length = l.encode.length + rest.length := by
          rw [hp, List.length_append]
        have hl := l.length_encode
        obtain ⟨ls, rest', hall, hfit, hrest, hend⟩ :=
          ih rest.length (by omega) (total + l.encode.length) (by omega) rest rfl
        refine ⟨l :: ls, rest', ?_, ?_, ?_, ?_⟩
        · exact List.forall_mem_cons.mpr ⟨hascii, hall⟩
        · rw [encodeLabels_cons, List.length_append]
          omega
        · rw [encodeLabels_cons, List.append_assoc, ← hrest, hp]
        · rw [encodeLabels_cons, List.length_append, ← Nat.add_assoc]
          exact hend
      · exact hstop _ _ hp (.nonAscii l (by omega) hascii)

/-- Adding labels to a text that is not empty puts a dot before each. -/
theorem foldl_pushLabel_of_ne (ls : List Label) {out : String} (hout : out ≠ "") :
    ((ls.map Label.bytes).foldl pushLabel out).toList =
      out.toList ++ ls.flatMap fun l => '.' :: l.text := by
  induction ls generalizing out with
  | nil => simp
  | cons l ls ih =>
    have hpush : (pushLabel out l.bytes).toList = out.toList ++ '.' :: l.text := by
      have hempty : out.isEmpty = false := by
        rw [Bool.eq_false_iff, ne_eq, String.isEmpty_iff]
        exact hout
      rw [pushLabel, hempty]
      simp [asciiStr, Label.text]
    have hne : pushLabel out l.bytes ≠ "" := by
      intro h
      rw [h] at hpush
      simp at hpush
    rw [List.map_cons, List.foldl_cons, ih hne, hpush]
    simp

/-- Starting from the empty text, the labels come out joined with dots. -/
theorem foldl_pushLabel (ls : List Label) :
    ((ls.map Label.bytes).foldl pushLabel "").toList =
      List.intercalate ['.'] (ls.map Label.text) := by
  cases ls with
  | nil => rfl
  | cons l ls =>
    have hfirst : (pushLabel "" l.bytes).toList = l.text := by
      simp [pushLabel, asciiStr, Label.text]
    have hne : pushLabel "" l.bytes ≠ "" := by
      intro h
      have hpos := l.length_pos
      have hzero : 0 = l.bytes.length := by
        simpa [h, Label.text] using congrArg List.length hfirst
      omega
    rw [List.map_cons, List.foldl_cons, foldl_pushLabel_of_ne ls hne, hfirst, List.map_cons,
      intercalate_cons_eq_flatMap, List.flatMap_map]

/-- From an empty text, `parse_qname` walks over valid labels and leaves them joined with dots. -/
theorem parseQname_run_labels {ls : List Label} (hv : ValidLabels ls) (rest : List UInt8)
    (hne : encodeLabels ls ++ rest ≠ []) :
    ∃ fuel, (parseQname (encodeLabels ls ++ rest)).run "" =
      (parseQnameLoop (encodeLabels ls ++ rest) (fuel + 1) (encodeLabels ls).length
        (encodeLabels ls).length).run (String.ofList (dotted ls)) := by
  have hle := hv.length_le
  have hcount := length_le_encodeLabels ls
  have htext : (ls.map Label.bytes).foldl pushLabel "" = String.ofList (dotted ls) := by
    rw [← String.toList_inj, foldl_pushLabel, String.toList_ofList]
    rfl
  obtain ⟨fuel, hfuel⟩ : ∃ fuel, (encodeLabels ls ++ rest).length + 1 = fuel + 1 + ls.length := by
    refine ⟨(encodeLabels ls ++ rest).length - ls.length, ?_⟩
    rw [List.length_append]
    omega
  refine ⟨fuel, ?_⟩
  rw [parseQname, run_lift_bind_ok (failIf_neg (by simpa using hne) _), hfuel,
    parseQnameLoop_labels ls hv.ascii (by omega) (by omega) List.drop_zero, htext,
    Nat.zero_add]

/-- Valid labels and a zero byte are accepted. -/
theorem parseQname_run_name {ls : List Label} (hv : ValidLabels ls) (tail : List UInt8) :
    (parseQname (encodeLabels ls ++ 0 :: tail)).run "" =
      (.ok ((encodeLabels ls).length + 1), String.ofList (dotted ls)) := by
  have hle := hv.length_le
  obtain ⟨fuel, hrun⟩ := parseQname_run_labels hv (0 :: tail) (by simp)
  have hzero : (encodeLabels ls ++ 0 :: tail).drop (encodeLabels ls).length = 0 :: tail :=
    List.drop_left
  obtain ⟨hin, hbyte, -, -⟩ := getElem_of_drop hzero
  rw [hrun, parseQnameLoop_succ (by omega) hle hin, hbyte]
  rfl

/-- Valid labels and a violation are rejected, with the labels left in the text. -/
theorem parseQname_run_violation {ls : List Label} (hv : ValidLabels ls) {rest : List UInt8}
    {e : DnsParseError} (h : NameViolation (encodeLabels ls).length rest e) :
    (parseQname (encodeLabels ls ++ rest)).run "" = (.err e, String.ofList (dotted ls)) := by
  have hle := hv.length_le
  by_cases hne : encodeLabels ls ++ rest = []
  · obtain ⟨hnone, rfl⟩ := List.append_eq_nil_iff.mp hne
    have hcount := length_le_encodeLabels ls
    rw [hnone, List.length_nil, Nat.le_zero, List.length_eq_zero_iff] at hcount
    subst hcount
    cases h with
    | missing => rfl
  · obtain ⟨fuel, hrun⟩ := parseQname_run_labels hv rest hne
    rw [hrun, h.run (by omega) hle List.drop_left]

/-- `parse_qname` accepts a valid question name: it returns the encoded length and the dotted text.
-/
theorem parseQname_encode (q : QName) (tail : List UInt8) :
    (parseQname (q.encode ++ tail)).run "" = (.ok q.encode.length, String.ofList q.dotted) := by
  have hsize := q.length_le
  rw [QName.encode, List.append_assoc, List.singleton_append,
    parseQname_run_name ⟨q.ascii, by omega⟩, List.length_append]
  rfl

/-- `parse_qname` ends at a zero byte or at a violation, behind valid labels. -/
theorem parseQname_cases (p : List UInt8) :
    ∃ ls, ValidLabels ls ∧
      ((∃ rest, p = encodeLabels ls ++ 0 :: rest ∧
          (parseQname p).run "" = (.ok ((encodeLabels ls).length + 1), String.ofList (dotted ls))) ∨
        ∃ rest e, p = encodeLabels ls ++ rest ∧ NameViolation (encodeLabels ls).length rest e ∧
          (parseQname p).run "" = (.err e, String.ofList (dotted ls))) := by
  obtain ⟨ls, rest, hascii, hle, hp, hend⟩ := exists_validLabels 0 (Nat.zero_le _) p
  rw [Nat.zero_add] at hle hend
  refine ⟨ls, ⟨hascii, hle⟩, ?_⟩
  rcases hend with ⟨tail, rfl⟩ | ⟨e, hv⟩
  · left
    exact ⟨tail, hp, by rw [hp, parseQname_run_name ⟨hascii, hle⟩]⟩
  · right
    exact ⟨rest, e, hp, hv, by rw [hp, parseQname_run_violation ⟨hascii, hle⟩ hv]⟩

/-- What an accepted name looks like. -/
theorem parseQname_ok {p : List UInt8} {n : ℕ} (h : (parseQname p).run "" = (.ok n, out)) :
    ∃ ls rest, ValidLabels ls ∧ p = encodeLabels ls ++ 0 :: rest ∧
      n = (encodeLabels ls).length + 1 ∧ out = String.ofList (dotted ls) := by
  obtain ⟨ls, hv, ⟨rest, hp, hrun⟩ | ⟨rest, e, -, -, hrun⟩⟩ := parseQname_cases p
  · obtain ⟨hn, hout⟩ := Prod.mk.inj (h.symm.trans hrun)
    exact ⟨ls, rest, hv, hp, Outcome.ok.inj hn, hout⟩
  · exact absurd (congrArg Prod.fst (h.symm.trans hrun)) (by simp)

/-- What a rejected name looks like. -/
theorem parseQname_err {p : List UInt8} {e : DnsParseError}
    (h : (parseQname p).run "" = (.err e, out)) :
    ∃ ls rest, ValidLabels ls ∧ p = encodeLabels ls ++ rest ∧
      NameViolation (encodeLabels ls).length rest e ∧ out = String.ofList (dotted ls) := by
  obtain ⟨ls, hv, ⟨rest, -, hrun⟩ | ⟨rest, e', hp, hviol, hrun⟩⟩ := parseQname_cases p
  · exact absurd (congrArg Prod.fst (h.symm.trans hrun)) (by simp)
  · obtain ⟨he, hout⟩ := Prod.mk.inj (h.symm.trans hrun)
    obtain rfl := Outcome.err.inj he
    exact ⟨ls, rest, hv, hp, hviol, hout⟩

end Question

/-- `parse_qname` decides its grammar. It accepts exactly the byte strings that start with valid
labels and a zero byte, and returns the length of that encoding and the labels joined with dots. It
rejects the others with the error of the first violation, and never panics. -/
theorem parseQname_iff (p : List UInt8) :
    (∀ n out, (parseQname p).run "" = (.ok n, out) ↔
      ∃ ls rest, ValidLabels ls ∧ p = encodeLabels ls ++ 0 :: rest ∧
        n = (encodeLabels ls).length + 1 ∧ out = String.ofList (dotted ls)) ∧
      (∀ e out, (parseQname p).run "" = (.err e, out) ↔
        ∃ ls rest, ValidLabels ls ∧ p = encodeLabels ls ++ rest ∧
          NameViolation (encodeLabels ls).length rest e ∧ out = String.ofList (dotted ls)) ∧
      ((parseQname p).run "").1 ≠ .panic := by
  refine ⟨fun n out => ⟨parseQname_ok, ?_⟩, fun e out => ⟨parseQname_err, ?_⟩, ?_⟩
  · rintro ⟨ls, rest, hv, rfl, rfl, rfl⟩
    exact parseQname_run_name hv rest
  · rintro ⟨ls, rest, hv, rfl, hviol, rfl⟩
    exact parseQname_run_violation hv hviol
  · obtain ⟨ls, -, ⟨rest, -, hrun⟩ | ⟨rest, e, -, -, hrun⟩⟩ := parseQname_cases p
    · rw [hrun]
      simp
    · rw [hrun]
      simp

end CiliumMini
