import CiliumMini.Wire.Endian
import Mathlib.Data.Vector.Basic

/-!
# `std::net` addresses and their text

`Ipv4Addr` prints as dotted decimal. `Ipv6Addr` prints its eight 16-bit segments in lower-case
hexadecimal without leading zeros, with the first longest run of at least two zero segments written
`::`, and an IPv4-mapped address as `::ffff:` followed by the dotted decimal of its last four bytes.

The text tells the two kinds apart by its first character that is no hexadecimal digit
(`Ipv4Addr.firstNonHex_display`, `Ipv6Addr.firstNonHex_display`).
-/

namespace CiliumMini

/-- A Rust byte array `[u8; n]`. -/
abbrev Octets (n : ℕ) := List.Vector UInt8 n

/-- The decimal or hexadecimal digit of a number below 16. -/
def digitChar (n : ℕ) : Char :=
  if n < 10 then Char.ofNat (48 + n) else Char.ofNat (87 + n)

/-- `{}` of a `u8`. -/
def showDec (b : UInt8) : List Char :=
  let n := b.toNat
  if n < 10 then [digitChar n]
  else if n < 100 then [digitChar (n / 10), digitChar (n % 10)]
  else [digitChar (n / 100), digitChar (n / 10 % 10), digitChar (n % 10)]

/-- `{:x}` of a `u16`. -/
def showHex (n : ℕ) : List Char :=
  if n < 16 then [digitChar n]
  else if n < 256 then [digitChar (n / 16), digitChar (n % 16)]
  else if n < 4096 then [digitChar (n / 256), digitChar (n / 16 % 16), digitChar (n % 16)]
  else [digitChar (n / 4096), digitChar (n / 256 % 16), digitChar (n / 16 % 16), digitChar (n % 16)]

/-- `std::net::Ipv4Addr`. -/
structure Ipv4Addr where
  octets : Octets 4
deriving DecidableEq

namespace Ipv4Addr

/-- `Ipv4Addr::new`. -/
def new (a b c d : UInt8) : Ipv4Addr := ⟨⟨[a, b, c, d], rfl⟩⟩

/-- The four numbers of an address, in text, joined by dots. -/
def display (ip : Ipv4Addr) : List Char :=
  List.intercalate ['.'] (ip.octets.toList.map showDec)

end Ipv4Addr

/-- `std::net::Ipv6Addr`. -/
structure Ipv6Addr where
  octets : Octets 16
deriving DecidableEq

namespace Ipv6Addr

/-- The big-endian 16-bit values of a list of bytes. -/
def pairs : List UInt8 → List ℕ
  | hi :: lo :: l => ofBe [hi, lo] :: pairs l
  | _ => []

/-- `Ipv6Addr::segments`. -/
def segments (ip : Ipv6Addr) : List ℕ := pairs ip.octets.toList

/-- `Ipv6Addr::to_ipv4_mapped`: the last four bytes of an address in `::ffff:0:0/96`. -/
def toIpv4Mapped (ip : Ipv6Addr) : Option Ipv4Addr :=
  if ip.octets.toList.take 12 = [0, 0, 0, 0, 0, 0, 0, 0, 0, 0, 0xff, 0xff] then
    some ⟨⟨ip.octets.toList.drop 12, by simp⟩⟩
  else none

/-- A run of zero segments. -/
structure Span where
  start : ℕ
  len : ℕ

/-- Scan the segments from index `i` for the longest zero run, keeping the earlier of two equals. -/
def longestZeroes : ℕ → List ℕ → (longest current : Span) → Span
  | _, [], longest, _ => longest
  | i, segment :: l, longest, current =>
    if segment = 0 then
      let current : Span := ⟨if current.len = 0 then i else current.start, current.len + 1⟩
      longestZeroes (i + 1) l (if current.len > longest.len then current else longest) current
    else longestZeroes (i + 1) l longest ⟨0, 0⟩

/-- The segments in hexadecimal, joined by colons. -/
def fmtSubslice (chunk : List ℕ) : List Char := List.intercalate [':'] (chunk.map showHex)

/-- The text of an address. -/
def display (ip : Ipv6Addr) : List Char :=
  match ip.toIpv4Mapped with
  | some ipv4 => "::ffff:".toList ++ ipv4.display
  | none =>
    let zeroes := longestZeroes 0 ip.segments ⟨0, 0⟩ ⟨0, 0⟩
    if zeroes.len > 1 then
      fmtSubslice (ip.segments.take zeroes.start) ++ "::".toList ++
        fmtSubslice (ip.segments.drop (zeroes.start + zeroes.len))
    else fmtSubslice ip.segments

end Ipv6Addr

/-! ## Joined parts -/

/-- Joining with a separator puts it before every part but the first. -/
theorem intercalate_cons_eq_flatMap (c : Char) (p : List Char) (ps : List (List Char)) :
    List.intercalate [c] (p :: ps) = p ++ ps.flatMap (c :: ·) := by
  induction ps generalizing p with
  | nil => simp
  | cons q ps ih => simp [List.intercalate_cons_cons, ih]

/-- A character of the joined parts is the separator or one of a part. -/
theorem mem_intercalate {c sep : Char} {parts : List (List Char)}
    (h : c ∈ List.intercalate [sep] parts) : c = sep ∨ ∃ q ∈ parts, c ∈ q := by
  cases parts with
  | nil => exact absurd h List.not_mem_nil
  | cons q parts =>
    rw [intercalate_cons_eq_flatMap, List.mem_append, List.mem_flatMap] at h
    rcases h with h | ⟨q', hq', h⟩
    · exact Or.inr ⟨q, List.mem_cons_self, h⟩
    · rcases List.mem_cons.mp h with h | h
      · exact Or.inl h
      · exact Or.inr ⟨q', List.mem_cons_of_mem q hq', h⟩

/-- The characters of the parts are in the joined text. -/
theorem mem_intercalate_of_mem {c sep : Char} {parts : List (List Char)} {q : List Char}
    (hq : q ∈ parts) (hc : c ∈ q) : c ∈ List.intercalate [sep] parts := by
  cases parts with
  | nil => exact absurd hq List.not_mem_nil
  | cons p parts =>
    rw [intercalate_cons_eq_flatMap, List.mem_append, List.mem_flatMap]
    rcases List.mem_cons.mp hq with rfl | hq
    · exact Or.inl hc
    · exact Or.inr ⟨q, hq, List.mem_cons_of_mem sep hc⟩

/-! ## How long the text can be -/

/-- A byte has at most three decimal digits. -/
theorem length_showDec_le (b : UInt8) : (showDec b).length ≤ 3 := by
  unfold showDec
  simp only
  split_ifs <;> simp

/-- A segment has at most four hexadecimal digits. -/
theorem length_showHex_le (n : ℕ) : (showHex n).length ≤ 4 := by
  unfold showHex
  split_ifs <;> simp

/-- Joining parts of at most `k` characters with one separator character. -/
theorem length_intercalate_le {k : ℕ} (c : Char) (parts : List (List Char))
    (h : ∀ p ∈ parts, p.length ≤ k) :
    (List.intercalate [c] parts).length ≤ parts.length * (k + 1) := by
  induction parts with
  | nil => simp
  | cons p parts ih =>
    have hp : p.length ≤ k := h p List.mem_cons_self
    have hrest := ih fun q hq => h q (List.mem_cons_of_mem p hq)
    cases parts with
    | nil => simp; omega
    | cons q parts =>
      rw [List.intercalate_cons_cons]
      simp only [List.length_append, List.length_cons, List.length_nil] at hrest ⊢
      rw [Nat.add_mul]
      omega

/-- Four numbers and three dots. -/
theorem Ipv4Addr.length_display_le (ip : Ipv4Addr) : ip.display.length ≤ 16 := by
  have h := length_intercalate_le (k := 3) '.' (ip.octets.toList.map showDec) (by
    intro p hp
    obtain ⟨b, _, rfl⟩ := List.mem_map.mp hp
    exact length_showDec_le b)
  simpa [Ipv4Addr.display] using h

/-- Two bytes make one segment. -/
theorem Ipv6Addr.length_pairs (l : List UInt8) : (pairs l).length = l.length / 2 := by
  induction l using pairs.induct with
  | case1 hi lo l ih => simp only [pairs, List.length_cons, ih]; omega
  | case2 l h =>
    match l with
    | [] => rfl
    | [b] => simp [pairs]
    | hi :: lo :: l => exact absurd rfl (h hi lo l)

/-- Each segment takes four digits and a colon at most. -/
theorem Ipv6Addr.length_fmtSubslice_le (chunk : List ℕ) :
    (fmtSubslice chunk).length ≤ chunk.length * 5 := by
  have h := length_intercalate_le (k := 4) ':' (chunk.map showHex) (by
    intro p hp
    obtain ⟨n, _, rfl⟩ := List.mem_map.mp hp
    exact length_showHex_le n)
  simpa [fmtSubslice] using h

/-- No address prints more than 82 characters. The bound counts the two parts around `::` as if each
held all eight segments; the writer only needs some bound. -/
theorem Ipv6Addr.length_display_le (ip : Ipv6Addr) : ip.display.length ≤ 82 := by
  have hseg : ip.segments.length = 8 := by
    rw [segments, length_pairs, List.Vector.toList_length]
  unfold display
  split
  · rename_i ipv4 _
    have h := ipv4.length_display_le
    rw [List.length_append, show ("::ffff:".toList).length = 7 from rfl]
    omega
  · simp only
    split
    -- two sides of at most eight segments each
    · have hl := length_fmtSubslice_le
        (ip.segments.take (longestZeroes 0 ip.segments ⟨0, 0⟩ ⟨0, 0⟩).start)
      have hr := length_fmtSubslice_le (ip.segments.drop
        ((longestZeroes 0 ip.segments ⟨0, 0⟩ ⟨0, 0⟩).start +
          (longestZeroes 0 ip.segments ⟨0, 0⟩ ⟨0, 0⟩).len))
      rw [List.length_take] at hl
      rw [List.length_drop] at hr
      rw [List.length_append, List.length_append, show ("::".toList).length = 2 from rfl]
      omega
    · have h := length_fmtSubslice_le ip.segments
      omega

/-! ## The first character that is no hexadecimal digit

It is a dot in the text of an IPv4 address and a colon in the text of an IPv6 address.
-/

/-- `char::is_ascii_hexdigit`. -/
def isHexDigit (c : Char) : Bool :=
  ('0' ≤ c && c ≤ '9') || ('a' ≤ c && c ≤ 'f') || ('A' ≤ c && c ≤ 'F')

/-- The first character that is no hexadecimal digit. -/
def firstNonHex (text : List Char) : Option Char := text.find? fun c => !isHexDigit c

/-- The character of a digit is a hexadecimal digit. -/
theorem isHexDigit_digitChar {n : ℕ} (h : n < 16) : isHexDigit (digitChar n) = true := by
  have hall : ∀ i : Fin 16, isHexDigit (digitChar i) = true := by decide
  exact hall ⟨n, h⟩

theorem isHexDigit_digits (ds : List ℕ) (h : ∀ d ∈ ds, d < 16) :
    ∀ c ∈ ds.map digitChar, isHexDigit c = true := by
  intro c hc
  obtain ⟨d, hd, rfl⟩ := List.mem_map.mp hc
  exact isHexDigit_digitChar (h d hd)

/-- A decimal number has no other characters. -/
theorem isHexDigit_showDec (b : UInt8) : ∀ c ∈ showDec b, isHexDigit c = true := by
  have hb := b.toNat_lt
  unfold showDec
  simp only
  split_ifs
  · apply isHexDigit_digits [b.toNat]
    simp
    omega
  · apply isHexDigit_digits [b.toNat / 10, b.toNat % 10]
    simp
    omega
  · apply isHexDigit_digits [b.toNat / 100, b.toNat / 10 % 10, b.toNat % 10]
    simp
    omega

/-- Nor has a hexadecimal one. -/
theorem isHexDigit_showHex {n : ℕ} (hn : n < 65536) : ∀ c ∈ showHex n, isHexDigit c = true := by
  unfold showHex
  split_ifs
  · apply isHexDigit_digits [n]
    simp
    omega
  · apply isHexDigit_digits [n / 16, n % 16]
    simp
    omega
  · apply isHexDigit_digits [n / 256, n / 16 % 16, n % 16]
    simp
    omega
  · apply isHexDigit_digits [n / 4096, n / 256 % 16, n / 16 % 16, n % 16]
    simp
    omega

/-- Digits in front do not matter. -/
theorem firstNonHex_append_of_forall {l : List Char} (h : ∀ c ∈ l, isHexDigit c = true)
    (l' : List Char) : firstNonHex (l ++ l') = firstNonHex l' := by
  have hnone : l.find? (fun c => !isHexDigit c) = none := by
    rw [List.find?_eq_none]
    intro c hc
    simp [h c hc]
  rw [firstNonHex, List.find?_append, hnone, Option.none_or]
  rfl

/-- Nor does anything behind the first such character. -/
theorem firstNonHex_append_of_eq_some {l : List Char} {c : Char} (h : firstNonHex l = some c)
    (l' : List Char) : firstNonHex (l ++ l') = some c := by
  have hl : l.find? (fun c => !isHexDigit c) = some c := h
  rw [firstNonHex, List.find?_append, hl, Option.some_or]

/-- In a text of digits and colons it is a colon. -/
theorem firstNonHex_eq_colon {l : List Char} (h : ∀ c ∈ l, c = ':' ∨ isHexDigit c = true)
    (hcolon : ':' ∈ l) : firstNonHex l = some ':' := by
  cases hfind : firstNonHex l with
  | none => exact absurd (List.find?_eq_none.mp hfind ':' hcolon) (by decide)
  | some c =>
    have hc : isHexDigit c = false := by simpa using List.find?_some hfind
    rcases h c (List.mem_of_find?_eq_some hfind) with rfl | hdigit
    · rfl
    · rw [hc] at hdigit
      exact absurd hdigit (by simp)

/-- The first separator of an IPv4 text is a dot. -/
theorem Ipv4Addr.firstNonHex_display (ip : Ipv4Addr) : firstNonHex ip.display = some '.' := by
  obtain ⟨⟨octets, hlen⟩⟩ := ip
  match octets, hlen with
  | a :: b :: octets, _ =>
    show firstNonHex (List.intercalate ['.'] (showDec a :: showDec b :: octets.map showDec)) = _
    rw [intercalate_cons_eq_flatMap, firstNonHex_append_of_forall (isHexDigit_showDec a)]
    rfl

namespace Ipv6Addr

/-- A segment has 16 bits. -/
theorem lt_of_mem_pairs (l : List UInt8) : ∀ n ∈ pairs l, n < 65536 := by
  induction l using pairs.induct with
  | case1 hi lo l ih =>
    have hlt : ofBe [hi, lo] < 256 ^ 2 := ofBe_lt [hi, lo]
    rw [pairs]
    exact List.forall_mem_cons.mpr ⟨by omega, ih⟩
  | case2 l h =>
    match l with
    | [] => simp [pairs]
    | [b] => simp [pairs]
    | hi :: lo :: l => exact absurd rfl (h hi lo l)

/-- Segments in hexadecimal, joined by colons. -/
theorem mem_fmtSubslice {chunk : List ℕ} (hchunk : ∀ n ∈ chunk, n < 65536) {c : Char}
    (hc : c ∈ fmtSubslice chunk) : c = ':' ∨ isHexDigit c = true := by
  rcases mem_intercalate hc with rfl | ⟨q, hq, hc⟩
  · exact Or.inl rfl
  · obtain ⟨n, hn, rfl⟩ := List.mem_map.mp hq
    exact Or.inr (isHexDigit_showHex (hchunk n hn) c hc)

/-- Two segments have a colon between them. -/
theorem colon_mem_fmtSubslice {chunk : List ℕ} (h : 2 ≤ chunk.length) :
    ':' ∈ fmtSubslice chunk := by
  match chunk, h with
  | m :: n :: chunk, _ =>
    rw [fmtSubslice, List.map_cons, List.map_cons, intercalate_cons_eq_flatMap]
    simp

/-- The first separator of an IPv6 text is a colon, so it is no IPv4 text. -/
theorem firstNonHex_display (ip : Ipv6Addr) : firstNonHex ip.display = some ':' := by
  have hseg : ∀ n ∈ ip.segments, n < 65536 := lt_of_mem_pairs _
  have hcount : ip.segments.length = 8 := by
    rw [segments, length_pairs, List.Vector.toList_length]
  unfold display
  split
  · rfl
  · simp only
    split
    · apply firstNonHex_eq_colon
      · intro c hc
        rw [List.mem_append, List.mem_append] at hc
        rcases hc with (hc | hc) | hc
        · exact mem_fmtSubslice (fun n hn => hseg n (List.mem_of_mem_take hn)) hc
        · left
          simpa using hc
        · exact mem_fmtSubslice (fun n hn => hseg n (List.mem_of_mem_drop hn)) hc
      · rw [List.mem_append, List.mem_append]
        exact Or.inl (Or.inr (by simp))
    · apply firstNonHex_eq_colon
      · intro c hc
        exact mem_fmtSubslice hseg hc
      · exact colon_mem_fmtSubslice (by omega)

end Ipv6Addr

end CiliumMini
