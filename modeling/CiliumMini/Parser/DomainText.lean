import CiliumMini.Parser.Grammar

/-!
# The text of a domain

Two consequences of the grammar that `parse_qname` accepts. The limit on the name does not count its
final zero byte, so a name may take 256 bytes (`parseQname_limit`). A label may hold the separator
of the text it is joined into, so the text tells the labels only of names without such a label
(`parseQname_reencode`).
-/

namespace CiliumMini

open Exec Dns

/-! ## The length limit -/

/-- The dotted text is shorter than the labels, which have one length byte each. -/
theorem length_dotted_le (ls : List Label) : (dotted ls).length ≤ (encodeLabels ls).length - 1 := by
  cases ls with
  | nil => exact Nat.zero_le _
  | cons l ls =>
    have hrest : (ls.flatMap fun l => '.' :: l.text).length = (encodeLabels ls).length := by
      induction ls with
      | nil => rfl
      | cons l ls ih =>
        rw [List.flatMap_cons, encodeLabels_cons, List.length_append, List.length_append, ih]
        simp [Label.text]
    rw [dotted, List.map_cons, intercalate_cons_eq_flatMap, List.flatMap_map, List.length_append,
      hrest, encodeLabels_cons, List.length_append, Label.length_encode, Label.text,
      List.length_map]
    omega

/-- The limits of RFC 1035 hold for what is accepted: at most 255 bytes with the final zero byte,
and at most 253 characters. -/
def KeepsNameLimit (p : List UInt8) : Prop :=
  ∀ n out, (parseQname p).run "" = (.ok n, out) → n ≤ 255 ∧ out.length ≤ 253

/-- The running total is tested before the zero byte is seen, so exactly the names whose labels take
255 bytes get past the limit. -/
theorem parseQname_limit (p : List UInt8) :
    KeepsNameLimit p ↔
      ¬ ∃ ls rest, ValidLabels ls ∧ (encodeLabels ls).length = 255 ∧
        p = encodeLabels ls ++ 0 :: rest := by
  constructor
  · rintro hkeeps ⟨ls, rest, hv, hlen, rfl⟩
    have hn := (hkeeps _ _ (parseQname_run_name hv rest)).1
    omega
  · intro hnone n out hrun
    obtain ⟨ls, rest, hv, hp, rfl, rfl⟩ := parseQname_ok hrun
    have hle := hv.length_le
    have htext := length_dotted_le ls
    have hne : (encodeLabels ls).length ≠ 255 := fun hlen => hnone ⟨ls, rest, hv, hlen, hp⟩
    rw [String.length_ofList]
    omega

/-- The letter `a`, `n` times. -/
def repeatedLabel (n : ℕ) (hpos : 0 < n) (hle : n ≤ 63) : Label :=
  ⟨List.replicate n 97, by simpa using hpos, by simpa using hle⟩

/-- Labels of 63, 63, 63 and 62 bytes: 255 bytes with their length bytes. -/
def limitLabels : List Label :=
  [repeatedLabel 63 (by decide) (by decide), repeatedLabel 63 (by decide) (by decide),
    repeatedLabel 63 (by decide) (by decide), repeatedLabel 62 (by decide) (by decide)]

/-- The bytes that such a label takes. -/
theorem length_encode_repeatedLabel {n : ℕ} (hpos : 0 < n) (hle : n ≤ 63) :
    (repeatedLabel n hpos hle).encode.length = n + 1 := by
  rw [Label.length_encode, repeatedLabel, List.length_replicate]

/-- Four such labels are just at the limit. -/
theorem length_limitLabels : (encodeLabels limitLabels).length = 255 := by
  simp only [limitLabels, encodeLabels_cons, List.length_append, length_encode_repeatedLabel]
  rfl

/-- A name of 256 bytes and 254 characters is accepted. -/
theorem parseQname_past_limit : ¬ ∀ p, KeepsNameLimit p := by
  intro hall
  have hv : ValidLabels limitLabels := by
    constructor
    · intro l hl b hb
      have hbytes : b = 97 := by
        simp only [limitLabels, List.mem_cons, List.not_mem_nil, or_false] at hl
        rcases hl with rfl | rfl | rfl | rfl <;> exact (List.mem_replicate.mp hb).2
      rw [hbytes]
      decide
    · exact length_limitLabels.le
  have hn := (hall _ _ _ (parseQname_run_name hv [])).1
  rw [length_limitLabels] at hn
  exact absurd hn (by decide)

/-! ## The text and the labels -/

/-- The parts of a dotted text; the empty text has none. -/
def splitDots (text : List Char) : List (List Char) :=
  if text = [] then [] else text.splitOn '.'

/-- A part as a length-prefixed label. -/
def encodePart (part : List Char) : List UInt8 :=
  UInt8.ofNat part.length :: part.map fun c => UInt8.ofNat c.toNat

/-- The text split at its dots and encoded again: each part as a label, then a zero byte. -/
def reencode (text : String) : List UInt8 := (splitDots text.toList).flatMap encodePart ++ [0]

/-- An ASCII byte and its character. -/
theorem toNat_charOfByte {b : UInt8} (h : b < 128) : (Char.ofNat b.toNat).toNat = b.toNat := by
  have hb : b.toNat < 128 := UInt8.lt_iff_toNat_lt.mp h
  have hvalid : b.toNat.isValidChar := Or.inl (by omega)
  rw [Char.ofNat, dif_pos hvalid]
  rfl

/-- An ASCII label is encoded from its text. -/
theorem encodePart_text (l : Label) (hascii : ∀ b ∈ l.bytes, b < 128) :
    encodePart l.text = l.encode := by
  have hback : l.text.map (fun c => UInt8.ofNat c.toNat) = l.bytes := by
    rw [Label.text, List.map_map]
    refine (List.map_congr_left ?_).trans (List.map_id _)
    intro b hb
    simp only [Function.comp_apply, id_eq]
    rw [toNat_charOfByte (hascii b hb), UInt8.ofNat_toNat]
  rw [encodePart, hback, Label.encode, Label.text, List.length_map]

/-- A label holds the separator of the dotted text. -/
def Dns.Label.HasDot (l : Label) : Prop := 46 ∈ l.bytes

/-- A text has a dot exactly if its label has the byte. -/
theorem dot_mem_text (l : Label) (hascii : ∀ b ∈ l.bytes, b < 128) : '.' ∈ l.text ↔ l.HasDot := by
  rw [Label.text, List.mem_map]
  constructor
  · rintro ⟨b, hb, hdot⟩
    have hnat := congrArg Char.toNat hdot
    rw [toNat_charOfByte (hascii b hb)] at hnat
    obtain rfl : b = 46 := UInt8.toNat_inj.mp hnat
    exact hb
  · intro h
    exact ⟨46, h, rfl⟩

/-- No part of a split list holds the separator. -/
theorem not_mem_of_mem_splitOn {α : Type} [DecidableEq α] (a : α) (xs : List α) :
    ∀ q ∈ xs.splitOn a, a ∉ q := by
  induction xs with
  | nil => simp
  | cons x xs ih =>
    have hne := List.splitOn_ne_nil a xs
    rw [List.splitOn_cons_eq_if_modifyHead]
    by_cases hx : x = a
    · rw [if_pos (by simpa using hx)]
      exact List.forall_mem_cons.mpr ⟨List.not_mem_nil, ih⟩
    · rw [if_neg (by simpa using hx)]
      generalize xs.splitOn a = parts at ih hne ⊢
      cases parts with
      | nil => exact absurd rfl hne
      | cons q parts =>
        obtain ⟨hq, hrest⟩ := List.forall_mem_cons.mp ih
        refine List.forall_mem_cons.mpr ⟨?_, hrest⟩
        rw [List.mem_cons, not_or]
        exact ⟨fun h => hx h.symm, hq⟩

/-- The text of ASCII labels is ASCII. -/
theorem toNat_lt_of_mem_dotted {ls : List Label} (hascii : ∀ l ∈ ls, ∀ b ∈ l.bytes, b < 128)
    {c : Char} (hc : c ∈ dotted ls) : c.toNat < 128 := by
  rcases mem_intercalate hc with rfl | ⟨q, hq, hc⟩
  · decide
  · obtain ⟨l, hl, rfl⟩ := List.mem_map.mp hq
    obtain ⟨b, hb, rfl⟩ := List.mem_map.mp hc
    rw [toNat_charOfByte (hascii l hl b hb)]
    exact UInt8.lt_iff_toNat_lt.mp (hascii l hl b hb)

/-- Labels can be read back from their encoding: parts with the same encoding have their bytes. -/
theorem encodeParts_inj {ls : List Label} (hle : (encodeLabels ls).length ≤ 255)
    {parts : List (List Char)}
    (h : parts.flatMap encodePart ++ [0] = encodeLabels ls ++ [0]) :
    parts.map (List.map fun c => UInt8.ofNat c.toNat) = ls.map Label.bytes := by
  induction ls generalizing parts with
  | nil =>
    cases parts with
    | nil => rfl
    | cons q parts =>
      have hlen := congrArg List.length h
      simp [encodeLabels, encodePart] at hlen
  | cons l ls ih =>
    have hpos := l.length_pos
    have hlong := l.length_le
    cases parts with
    | nil =>
      have hlen := congrArg List.length h
      simp [encodeLabels_cons] at hlen
      omega
    | cons q parts =>
      -- the length bytes agree, so the first part is as long as the first label
      have hlen := congrArg List.length h
      simp only [List.flatMap_cons, encodeLabels_cons, encodePart, List.length_append,
        List.length_cons, List.length_map, Label.length_encode] at hlen hle
      rw [List.flatMap_cons, encodeLabels_cons, encodePart, Label.encode, List.append_assoc,
        List.append_assoc, List.cons_append, List.cons_append] at h
      obtain ⟨hbyte, hrest⟩ := List.cons.inj h
      have hsize : q.length = l.bytes.length := by
        have hnat := congrArg UInt8.toNat hbyte
        rw [l.toNat_lengthByte, UInt8.toNat_ofNat'] at hnat
        omega
      obtain ⟨hq, hparts⟩ := List.append_inj hrest (by rw [List.length_map, hsize])
      rw [List.map_cons, List.map_cons, hq, ih (by omega) hparts]

/-- Labels without dots are split where they were joined. -/
theorem splitDots_dotted {ls : List Label} (hdots : ∀ q ∈ ls.map Label.text, '.' ∉ q) :
    splitDots (dotted ls) = ls.map Label.text := by
  cases ls with
  | nil => rfl
  | cons l ls =>
    have hne : dotted (l :: ls) ≠ [] := by
      intro hnil
      have hpos := l.length_pos
      rw [dotted, List.map_cons, intercalate_cons_eq_flatMap, List.append_eq_nil_iff, Label.text,
        List.map_eq_nil_iff] at hnil
      rw [hnil.1] at hpos
      exact absurd hpos (by simp)
    rw [splitDots, if_neg hne]
    exact List.splitOn_intercalate '.' hdots (by simp)

/-- The text gives the labels back exactly when no label holds a dot. -/
theorem reencode_dotted {ls : List Label} (hv : ValidLabels ls) :
    reencode (String.ofList (dotted ls)) = encodeLabels ls ++ [0] ↔ ∀ l ∈ ls, ¬ l.HasDot := by
  rw [reencode, String.toList_ofList]
  constructor
  · intro h l hl hdot
    have hbytes := encodeParts_inj hv.length_le h
    have hmem : l.bytes ∈ ls.map Label.bytes := List.mem_map_of_mem hl
    rw [← hbytes] at hmem
    obtain ⟨q, hq, hql⟩ := List.mem_map.mp hmem
    -- the dot of the label is a character of a part, and parts have none
    rw [Label.HasDot, ← hql] at hdot
    obtain ⟨c, hc, hc46⟩ := List.mem_map.mp hdot
    have hsplit : q ∈ (dotted ls).splitOn '.' := by
      unfold splitDots at hq
      split at hq
      · exact absurd hq List.not_mem_nil
      · exact hq
    have hjoin : List.intercalate ['.'] ((dotted ls).splitOn '.') = dotted ls :=
      List.intercalate_splitOn '.'
    have htext : c ∈ dotted ls := by
      rw [← hjoin]
      exact mem_intercalate_of_mem hsplit hc
    have hsmall := toNat_lt_of_mem_dotted hv.ascii htext
    have hnat := congrArg UInt8.toNat hc46
    rw [UInt8.toNat_ofNat'] at hnat
    have hdotNat : c.toNat = '.'.toNat := by
      have h46 : (46 : UInt8).toNat = '.'.toNat := rfl
      omega
    obtain rfl : c = '.' := Char.toNat_inj.mp hdotNat
    exact not_mem_of_mem_splitOn '.' _ q hsplit hc
  · intro hdots
    have hnone : ∀ q ∈ ls.map Label.text, '.' ∉ q := by
      intro q hq
      obtain ⟨l, hl, rfl⟩ := List.mem_map.mp hq
      rw [dot_mem_text l (hv.ascii l hl)]
      exact hdots l hl
    rw [splitDots_dotted hnone, List.flatMap_map, encodeLabels]
    congr 1
    apply List.flatMap_congr
    intro l hl
    exact encodePart_text l (hv.ascii l hl)

/-- The name at the start of `p` has a label that holds a dot. -/
def DottedLabel (p : List UInt8) : Prop :=
  ∃ ls rest, ValidLabels ls ∧ p = encodeLabels ls ++ 0 :: rest ∧ ∃ l ∈ ls, l.HasDot

/-- Splitting the text at its dots and encoding the parts gives the consumed bytes back. -/
def TextIdentifies (p : List UInt8) : Prop :=
  ∀ n out, (parseQname p).run "" = (.ok n, out) → reencode out = p.take n

/-- Whether the text of `p` identifies its name. -/
theorem textIdentifies_iff (p : List UInt8) : TextIdentifies p ↔ ¬ DottedLabel p := by
  have htake : ∀ ls rest, (encodeLabels ls ++ 0 :: rest).take ((encodeLabels ls).length + 1) =
      encodeLabels ls ++ [0] := by
    intro ls rest
    rw [List.take_length_add_append]
    rfl
  constructor
  · rintro hid ⟨ls, rest, hv, rfl, l, hl, hdot⟩
    have hback := hid _ _ (parseQname_run_name hv rest)
    rw [htake] at hback
    exact (reencode_dotted hv).mp hback l hl hdot
  · intro hnone n out hrun
    obtain ⟨ls, rest, hv, rfl, rfl, rfl⟩ := parseQname_ok hrun
    rw [htake, reencode_dotted hv]
    intro l hl hdot
    exact hnone ⟨ls, rest, hv, rfl, l, hl, hdot⟩

/-- The text identifies the name exactly when no label holds a dot, and two such names with the same
text are the same bytes. -/
theorem parseQname_reencode (p : List UInt8) :
    (TextIdentifies p ↔ ¬ DottedLabel p) ∧
      ∀ p' n n' out, ¬ DottedLabel p → ¬ DottedLabel p' →
        (parseQname p).run "" = (.ok n, out) → (parseQname p').run "" = (.ok n', out) →
          p.take n = p'.take n' := by
  refine ⟨textIdentifies_iff p, ?_⟩
  intro p' n n' out hp hp' hrun hrun'
  rw [← (textIdentifies_iff p).mpr hp n out hrun, ← (textIdentifies_iff p').mpr hp' n' out hrun']

/-- The labels `a` and `b`. -/
def twoLabelName : List UInt8 := [1, 97, 1, 98, 0]

/-- The one label `a.b`. -/
def dottedLabelName : List UInt8 := [3, 97, 46, 98, 0]

/-- The two labels of the example come out with a dot between them. -/
theorem parseQname_twoLabelName (rest : List UInt8) :
    (parseQname (twoLabelName ++ rest)).run "" = (.ok 5, "a.b") :=
  parseQname_encode ⟨[⟨[97], by decide, by decide⟩, ⟨[98], by decide, by decide⟩], by simp,
    by decide⟩ rest

/-- The text `a.b` of two labels gives them back. -/
theorem parseQname_reencode_twoLabels :
    ¬ DottedLabel twoLabelName ∧ ∀ rest, (twoLabelName ++ rest).take 5 = twoLabelName := by
  have hid : ∀ rest, TextIdentifies (twoLabelName ++ rest) := by
    intro rest n out hrun
    obtain ⟨hn, hout⟩ := Prod.mk.inj (hrun.symm.trans (parseQname_twoLabelName rest))
    rw [hout, Outcome.ok.inj hn]
    rfl
  have hnone : ¬ DottedLabel twoLabelName := (parseQname_reencode _).1.mp (hid [])
  refine ⟨hnone, ?_⟩
  intro rest
  exact (parseQname_reencode _).2 _ 5 5 "a.b" ((parseQname_reencode _).1.mp (hid rest)) hnone
    (parseQname_twoLabelName rest) (parseQname_twoLabelName [])

/-- The label `a.b` has the text of the labels `a` and `b`, so neither form of the law holds. -/
theorem parseQname_dot_collision :
    (¬ ∀ p p' n n' out, (parseQname p).run "" = (.ok n, out) →
      (parseQname p').run "" = (.ok n', out) → p.take n = p'.take n') ∧
      ¬ TextIdentifies dottedLabelName := by
  have hrun : (parseQname dottedLabelName).run "" = (.ok 5, "a.b") :=
    parseQname_encode ⟨[⟨[97, 46, 98], by decide, by decide⟩], by simp, by decide⟩ []
  constructor
  · intro hall
    have hsame := hall _ _ _ _ _ hrun (parseQname_twoLabelName [])
    exact absurd hsame (by decide)
  · intro hid
    exact absurd (hid _ _ hrun) (by decide +kernel)

end CiliumMini
