import CiliumMini.Rust.Net

/-!
# The text of an address identifies it

The text of an IPv4 address is split at its dots and the numbers are read back. The text of an IPv6
address is split at its colons: `::` shows as an empty part, and the missing zero segments are as
many as it takes to get to eight. An IPv4-mapped address is told by its dots.
-/

namespace CiliumMini

/-! ## Numbers -/

/-- The value of a digit. -/
def hexValue (c : Char) : ℕ := if c ≤ '9' then c.toNat - 48 else c.toNat - 87

/-- The number that the digits denote. -/
def readDigits (base : ℕ) (cs : List Char) : ℕ := cs.foldl (fun v c => base * v + hexValue c) 0

/-- A digit is read back from its character. -/
theorem hexValue_digitChar {n : ℕ} (h : n < 16) : hexValue (digitChar n) = n := by
  have hall : ∀ i : Fin 16, hexValue (digitChar i) = i := by decide
  exact hall ⟨n, h⟩

/-- A byte is read back from its decimal text. -/
theorem readDigits_showDec (b : UInt8) : readDigits 10 (showDec b) = b.toNat := by
  have hb := b.toNat_lt
  unfold showDec
  simp only
  split_ifs
  all_goals
    simp only [readDigits, List.foldl_cons, List.foldl_nil]
    repeat rw [hexValue_digitChar (by omega)]
    omega

/-- A segment is read back from its hexadecimal text. -/
theorem readDigits_showHex {n : ℕ} (h : n < 65536) : readDigits 16 (showHex n) = n := by
  unfold showHex
  split_ifs
  all_goals
    simp only [readDigits, List.foldl_cons, List.foldl_nil]
    repeat rw [hexValue_digitChar (by omega)]
    omega

/-- Zero too has a digit. -/
theorem showHex_ne_nil (n : ℕ) : showHex n ≠ [] := by
  unfold showHex
  split_ifs <;> simp

/-- Numbers are read back one by one. -/
theorem map_showDec_inj {l l' : List UInt8} (h : l.map showDec = l'.map showDec) : l = l' := by
  have hread := congrArg (List.map (readDigits 10)) h
  simp only [List.map_map, Function.comp_def, readDigits_showDec] at hread
  exact List.map_injective_iff.mpr (fun _ _ => UInt8.toNat_inj.mp) hread

/-- Segments are determined by their texts. -/
theorem map_showHex_inj {l l' : List ℕ} (hl : ∀ n ∈ l, n < 65536) (hl' : ∀ n ∈ l', n < 65536)
    (h : l.map showHex = l'.map showHex) : l = l' := by
  have hread : ∀ {l : List ℕ}, (∀ n ∈ l, n < 65536) →
      (l.map showHex).map (readDigits 16) = l := by
    intro l hl
    rw [List.map_map]
    exact (List.map_congr_left fun n hn => readDigits_showHex (hl n hn)).trans (List.map_id l)
  rw [← hread hl, h, hread hl']

/-! ## Parts -/

/-- Parts that do not contain the separator are found again. -/
theorem parts_eq_of_intercalate {c : Char} {ps qs : List (List Char)} (hps : ∀ p ∈ ps, c ∉ p)
    (hqs : ∀ q ∈ qs, c ∉ q) (hp : ps ≠ []) (hq : qs ≠ [])
    (h : List.intercalate [c] ps = List.intercalate [c] qs) : ps = qs := by
  rw [← List.splitOn_intercalate c hps hp, h, List.splitOn_intercalate c hqs hq]

/-- Joined texts are joined by one more separator. -/
theorem intercalate_append {c : Char} {ps qs : List (List Char)} (hp : ps ≠ []) (hq : qs ≠ []) :
    List.intercalate [c] (ps ++ qs) = List.intercalate [c] ps ++ c :: List.intercalate [c] qs := by
  obtain ⟨p, ps, rfl⟩ := List.exists_cons_of_ne_nil hp
  obtain ⟨q, qs, rfl⟩ := List.exists_cons_of_ne_nil hq
  rw [List.cons_append, intercalate_cons_eq_flatMap, intercalate_cons_eq_flatMap,
    intercalate_cons_eq_flatMap, List.flatMap_append, List.flatMap_cons]
  simp

/-- A separator is none of the digits. -/
theorem not_isHexDigit_mem {c : Char} (hc : isHexDigit c = false) {l : List Char}
    (h : ∀ d ∈ l, isHexDigit d = true) : c ∉ l := by
  intro hmem
  rw [h c hmem] at hc
  exact absurd hc (by simp)

/-- Different IPv4 addresses have different texts. -/
theorem Ipv4Addr.display_injective : Function.Injective Ipv4Addr.display := by
  intro a b h
  have hdot : ∀ (ip : Ipv4Addr), ∀ p ∈ ip.octets.toList.map showDec, '.' ∉ p := by
    intro ip p hp
    obtain ⟨n, -, rfl⟩ := List.mem_map.mp hp
    exact not_isHexDigit_mem rfl (isHexDigit_showDec n)
  have hne : ∀ ip : Ipv4Addr, ip.octets.toList.map showDec ≠ [] := by
    intro ip hnil
    have hlength := congrArg List.length hnil
    simp at hlength
  have hparts := parts_eq_of_intercalate (hdot a) (hdot b) (hne a) (hne b) h
  obtain ⟨a⟩ := a
  obtain ⟨b⟩ := b
  exact congrArg Ipv4Addr.mk (List.Vector.eq a b (map_showDec_inj hparts))

/-! ## The zero run -/

namespace Ipv6Addr

/-- The span marks a run of zeros in the segments. -/
def Span.Marks (z : Span) (segs : List ℕ) : Prop :=
  ∃ front back, segs = front ++ List.replicate z.len 0 ++ back ∧
    (z.len ≠ 0 → front.length = z.start)

/-- A span marks the same zeros in a longer list. -/
theorem Span.Marks.append {z : Span} {segs : List ℕ} (h : z.Marks segs) (l : List ℕ) :
    z.Marks (segs ++ l) := by
  obtain ⟨front, back, hsegs, hstart⟩ := h
  exact ⟨front, back ++ l, by rw [hsegs, List.append_assoc], hstart⟩

/-- The scan behind the segments `done`, where `longest` marks a run in them and `current` one at
their end. -/
theorem longestZeroes_marks (l : List ℕ) :
    ∀ (done : List ℕ) (longest current : Span), longest.Marks done →
      (∃ front, done = front ++ List.replicate current.len 0 ∧
        (current.len ≠ 0 → front.length = current.start)) →
      (longestZeroes done.length l longest current).Marks (done ++ l) := by
  induction l with
  | nil =>
    intro done longest current hlongest _
    rw [List.append_nil]
    exact hlongest
  | cons segment l ih =>
    intro done longest current hlongest hcurrent
    have hlength : done.length + 1 = (done ++ [segment]).length := by simp
    have hsplit : done ++ segment :: l = done ++ [segment] ++ l := by simp
    by_cases hzero : segment = 0
    · -- the run at the end grows by one
      obtain ⟨front, hdone, hstart⟩ := hcurrent
      have hgrown : ∃ front', done ++ [segment] = front' ++ List.replicate (current.len + 1) 0 ∧
          (current.len + 1 ≠ 0 →
            front'.length = if current.len = 0 then done.length else current.start) := by
        refine ⟨front, ?_, fun _ => ?_⟩
        · rw [hdone, hzero, List.replicate_succ', List.append_assoc]
        · by_cases hlen : current.len = 0
          · rw [if_pos hlen, hdone, hlen, List.replicate_zero, List.append_nil]
          · rw [if_neg hlen, hstart hlen]
      rw [longestZeroes, if_pos hzero, hlength, hsplit]
      refine ih _ _ _ ?_ hgrown
      generalize (if current.len = 0 then done.length else current.start) = start at hgrown ⊢
      split
      · obtain ⟨front', hend, hfront'⟩ := hgrown
        exact ⟨front', [], by rw [List.append_nil]; exact hend, hfront'⟩
      · exact hlongest.append _
    · rw [longestZeroes, if_neg hzero, hlength, hsplit]
      -- a segment that is not zero ends the current run
      exact ih _ _ _ (hlongest.append _) ⟨done ++ [segment], by simp, by simp⟩

/-- The segments around the longest run. -/
theorem segments_split (segs : List ℕ) {z : Span}
    (hz : longestZeroes 0 segs ⟨0, 0⟩ ⟨0, 0⟩ = z) (hlen : z.len > 1) :
    segs = segs.take z.start ++ List.replicate z.len 0 ++ segs.drop (z.start + z.len) := by
  have hmarks := longestZeroes_marks segs [] ⟨0, 0⟩ ⟨0, 0⟩ ⟨[], [], rfl, by simp⟩
    ⟨[], rfl, by simp⟩
  rw [List.length_nil, hz, List.nil_append] at hmarks
  obtain ⟨front, back, hsegs, hstart⟩ := hmarks
  have hfront := hstart (by omega)
  have htake : segs.take z.start = front := by
    rw [hsegs, List.append_assoc, List.take_left' hfront]
  have hdrop : segs.drop (z.start + z.len) = back := by
    rw [hsegs, List.drop_left' (by rw [List.length_append, List.length_replicate, hfront])]
  rw [htake, hdrop]
  exact hsegs

/-! ## The parts between colons -/

/-- The parts of the text on one side of `::`. -/
def side (chunk : List ℕ) : List (List Char) := if chunk = [] then [[]] else chunk.map showHex

/-- Each side of the gap has a part, if only an empty one. -/
theorem side_ne_nil (chunk : List ℕ) : side chunk ≠ [] := by
  unfold side
  split
  · simp
  · rename_i hne
    simpa using hne

/-- The parts of a side, joined, are its text. -/
theorem intercalate_side (chunk : List ℕ) :
    List.intercalate [':'] (side chunk) = fmtSubslice chunk := by
  unfold side
  split
  · rename_i hnil
    rw [hnil]
    rfl
  · rfl

/-- No part of a side has a colon in it. -/
theorem isHexDigit_side {chunk : List ℕ} (h : ∀ n ∈ chunk, n < 65536) :
    ∀ p ∈ side chunk, ∀ c ∈ p, isHexDigit c = true := by
  intro p hp
  unfold side at hp
  split at hp
  · rw [List.mem_singleton.mp hp]
    simp
  · obtain ⟨n, hn, rfl⟩ := List.mem_map.mp hp
    exact isHexDigit_showHex (h n hn)

/-- The two sides around an empty part are the text with the double colon. -/
theorem intercalate_sides (front back : List ℕ) :
    List.intercalate [':'] (side front ++ [] :: side back) =
      fmtSubslice front ++ "::".toList ++ fmtSubslice back := by
  have hback : List.intercalate [':'] ([[]] ++ side back) = ':' :: fmtSubslice back := by
    rw [intercalate_append (by simp) (side_ne_nil back), intercalate_side]
    rfl
  rw [intercalate_append (side_ne_nil front) (by simp), intercalate_side, ← List.singleton_append,
    List.append_assoc]
  exact congrArg (fmtSubslice front ++ ':' :: ·) hback

/-- The parts in front of the first empty one are the numbers of the first side. -/
theorem takeWhile_side (chunk : List ℕ) (rest : List (List Char)) :
    (side chunk ++ [] :: rest).takeWhile (· ≠ []) = chunk.map showHex := by
  unfold side
  split
  · rename_i hnil
    rw [hnil]
    rfl
  · rw [List.takeWhile_append_of_pos, List.takeWhile_cons_of_neg (by simp), List.append_nil]
    intro p hp
    obtain ⟨n, -, rfl⟩ := List.mem_map.mp hp
    simpa using showHex_ne_nil n

/-- The front side is determined by the parts up to the empty one. -/
theorem side_append_inj {c c' : List ℕ} {rest rest' : List (List Char)}
    (hc : ∀ n ∈ c, n < 65536) (hc' : ∀ n ∈ c', n < 65536)
    (h : side c ++ [] :: rest = side c' ++ [] :: rest') : c = c' ∧ rest = rest' := by
  have hfront := congrArg (List.takeWhile (· ≠ [])) h
  rw [takeWhile_side, takeWhile_side] at hfront
  obtain rfl := map_showHex_inj hc hc' hfront
  exact ⟨rfl, List.tail_eq_of_cons_eq (List.append_cancel_left h)⟩

/-- The parts of the text of segments, split at the colons. -/
def parts (segs : List ℕ) : List (List Char) :=
  let z := longestZeroes 0 segs ⟨0, 0⟩ ⟨0, 0⟩
  if z.len > 1 then side (segs.take z.start) ++ [] :: side (segs.drop (z.start + z.len))
  else segs.map showHex

/-- The number of missing segments is what it takes to get to the full length, so the parts tell the
segments. -/
theorem parts_inj {segs segs' : List ℕ} (hlt : ∀ n ∈ segs, n < 65536)
    (hlt' : ∀ n ∈ segs', n < 65536) (hlength : segs.length = segs'.length)
    (h : parts segs = parts segs') : segs = segs' := by
  have hempty : ∀ {segs : List ℕ}, [] ∉ segs.map showHex := by
    intro segs hmem
    obtain ⟨n, -, hn⟩ := List.mem_map.mp hmem
    exact showHex_ne_nil n hn
  simp only [parts] at h
  split at h <;> rename_i hrun <;> split at h <;> rename_i hrun'
  · -- both have a run, and the sides agree
    have hsplit := segments_split segs rfl hrun
    have hsplit' := segments_split segs' rfl hrun'
    generalize longestZeroes 0 segs ⟨0, 0⟩ ⟨0, 0⟩ = z at h hsplit
    generalize longestZeroes 0 segs' ⟨0, 0⟩ ⟨0, 0⟩ = z' at h hsplit'
    obtain ⟨hfront, hback⟩ := side_append_inj (fun n hn => hlt n (List.mem_of_mem_take hn))
      (fun n hn => hlt' n (List.mem_of_mem_take hn)) h
    have hdrop : segs.drop (z.start + z.len) = segs'.drop (z'.start + z'.len) :=
      (side_append_inj (fun n hn => hlt n (List.mem_of_mem_drop hn))
        (fun n hn => hlt' n (List.mem_of_mem_drop hn)) (congrArg (· ++ [[]]) hback)).1
    -- there are as many segments in both, so the runs are of one length
    rw [← hfront, ← hdrop] at hsplit'
    have hlen := congrArg List.length hsplit
    have hlen' := congrArg List.length hsplit'
    simp only [List.length_append, List.length_replicate] at hlen hlen'
    have hzeroes : z.len = z'.len := by omega
    rw [hsplit, hsplit', hzeroes]
  -- only one has a run, so only one has an empty part
  · exact absurd (h ▸ List.mem_append_right _ List.mem_cons_self) hempty
  · exact absurd (h ▸ List.mem_append_right _ List.mem_cons_self) hempty
  · exact map_showHex_inj hlt hlt' h

/-- An address has parts. -/
theorem parts_ne_nil {segs : List ℕ} (h : segs ≠ []) : parts segs ≠ [] := by
  simp only [parts]
  split
  · simp
  · simpa using h

/-- No part of an address has a colon in it, so the text is split where it was joined. -/
theorem isHexDigit_parts {segs : List ℕ} (h : ∀ n ∈ segs, n < 65536) :
    ∀ p ∈ parts segs, ∀ c ∈ p, isHexDigit c = true := by
  intro p hp
  simp only [parts] at hp
  split at hp
  · rcases List.mem_append.mp hp with hp | hp
    · exact isHexDigit_side (fun n hn => h n (List.mem_of_mem_take hn)) p hp
    · rcases List.mem_cons.mp hp with rfl | hp
      · simp
      · exact isHexDigit_side (fun n hn => h n (List.mem_of_mem_drop hn)) p hp
  · obtain ⟨n, hn, rfl⟩ := List.mem_map.mp hp
    exact isHexDigit_showHex (h n hn)

/-- An address that is not mapped prints as its parts. -/
theorem display_eq_parts {ip : Ipv6Addr} (h : ip.toIpv4Mapped = none) :
    ip.display = List.intercalate [':'] (parts ip.segments) := by
  rw [display, h]
  simp only [parts]
  split
  · rw [intercalate_sides]
  · rfl

/-- The bytes of the segments, one after the other. -/
theorem flatMap_pairs (l : List UInt8) (h : l.length % 2 = 0) :
    (pairs l).flatMap (beBytes 2) = l := by
  induction l using pairs.induct with
  | case1 hi lo l ih =>
    rw [pairs, List.flatMap_cons, ih (by simp only [List.length_cons] at h; omega)]
    rw [show beBytes 2 (ofBe [hi, lo]) = [hi, lo] from beBytes_ofBe [hi, lo]]
    rfl
  | case2 l hshort =>
    obtain _ | ⟨hi, _ | ⟨lo, l⟩⟩ := l
    · rfl
    · exact absurd h (by simp)
    · exact absurd rfl (hshort hi lo l)

/-- An address is determined by its segments. -/
theorem segments_inj {a b : Ipv6Addr} (h : a.segments = b.segments) : a = b := by
  have hbytes := congrArg (List.flatMap (beBytes 2)) h
  rw [segments, segments, flatMap_pairs _ (by simp), flatMap_pairs _ (by simp)] at hbytes
  obtain ⟨a⟩ := a
  obtain ⟨b⟩ := b
  exact congrArg mk (List.Vector.eq a b hbytes)

theorem length_segments (ip : Ipv6Addr) : ip.segments.length = 8 := by
  rw [segments, length_pairs, List.Vector.toList_length]

/-- A mapped address is twelve fixed bytes and its last four. -/
theorem toIpv4Mapped_inj {a b : Ipv6Addr} {v : Ipv4Addr} (ha : a.toIpv4Mapped = some v)
    (hb : b.toIpv4Mapped = some v) : a = b := by
  obtain ⟨a⟩ := a
  obtain ⟨b⟩ := b
  simp only [toIpv4Mapped, Option.ite_none_right_eq_some, Option.some.injEq] at ha hb
  have hlast : a.toList.drop 12 = b.toList.drop 12 :=
    congrArg (fun v : Ipv4Addr => v.octets.toList) (ha.2.trans hb.2.symm)
  refine congrArg mk (List.Vector.eq a b ?_)
  rw [← List.take_append_drop 12 a.toList, ← List.take_append_drop 12 b.toList, ha.1, hb.1, hlast]

/-- Only a mapped address prints a dot. -/
theorem dot_mem_display {ip : Ipv6Addr} : '.' ∈ ip.display ↔ ip.toIpv4Mapped ≠ none := by
  cases hmapped : ip.toIpv4Mapped with
  | some v =>
    refine iff_of_true ?_ (by simp)
    rw [display, hmapped]
    exact List.mem_append_right _ (List.mem_of_find?_eq_some v.firstNonHex_display)
  | none =>
    refine iff_of_false ?_ (by simp)
    have hlt : ∀ n ∈ ip.segments, n < 65536 := lt_of_mem_pairs _
    rw [display_eq_parts hmapped]
    intro hdot
    rcases mem_intercalate hdot with hcolon | ⟨q, hq, hdot⟩
    · exact absurd hcolon (by decide)
    · exact not_isHexDigit_mem rfl (isHexDigit_parts hlt q hq) hdot

/-- Different IPv6 addresses have different texts, with or without a double colon. -/
theorem display_injective : Function.Injective display := by
  intro a b h
  cases ha : a.toIpv4Mapped with
  | some v =>
    cases hb : b.toIpv4Mapped with
    | some w =>
      rw [display, display, ha, hb] at h
      obtain rfl : v = w := Ipv4Addr.display_injective (List.append_cancel_left h)
      exact toIpv4Mapped_inj ha hb
    | none =>
      -- only a mapped address has a dot in its text
      have hdot : '.' ∈ b.display := h ▸ dot_mem_display.mpr (by simp [ha])
      exact absurd hb (dot_mem_display.mp hdot)
  | none =>
    cases hb : b.toIpv4Mapped with
    | some w =>
      have hdot : '.' ∈ a.display := h ▸ dot_mem_display.mpr (by simp [hb])
      exact absurd ha (dot_mem_display.mp hdot)
    | none =>
      have hlt : ∀ ip : Ipv6Addr, ∀ n ∈ ip.segments, n < 65536 := fun ip => lt_of_mem_pairs _
      have hne : ∀ ip : Ipv6Addr, ip.segments ≠ [] := by
        intro ip hnil
        have hlength := ip.length_segments
        rw [hnil] at hlength
        exact absurd hlength (by simp)
      rw [display_eq_parts ha, display_eq_parts hb] at h
      have hcolon : ∀ ip : Ipv6Addr, ∀ p ∈ parts ip.segments, ':' ∉ p :=
        fun ip p hp => not_isHexDigit_mem rfl (isHexDigit_parts (hlt ip) p hp)
      have hparts := parts_eq_of_intercalate (hcolon a) (hcolon b) (parts_ne_nil (hne a))
        (parts_ne_nil (hne b)) h
      have hlength : a.segments.length = b.segments.length := by
        rw [length_segments, length_segments]
      exact segments_inj (parts_inj (hlt a) (hlt b) hlength hparts)

end Ipv6Addr

end CiliumMini
