import Mathlib.Tactic.NormNum
import Mathlib.Tactic.Ring
import Mathlib.Data.List.Basic

/-!
# The protobuf wire format

Base-128 varints, and fields with a varint or a length-delimited value. A message is a list of
fields, one behind the other. Every reader takes what the matching writer wrote off the front of its
input and leaves the rest (`readVarint_varint`, `readField_encodeField`), so a message is read back
field by field (`decodeFields_encodeFields`).
-/

namespace CiliumMini.Protobuf

/-- `n` in base 128, least significant digit first, with the top bit set on all digits but the last.
A number has fewer digits than its value, so `n` itself is enough fuel. -/
def varintFuel : ℕ → ℕ → List UInt8
  | 0, n => [UInt8.ofNat n]
  | fuel + 1, n =>
    if n < 128 then [UInt8.ofNat n] else UInt8.ofNat (128 + n % 128) :: varintFuel fuel (n / 128)

/-- The varint of `n`. -/
def varint (n : ℕ) : List UInt8 := varintFuel n n

/-- Take a varint off the front. -/
def readVarint : List UInt8 → Option (ℕ × List UInt8)
  | [] => none
  | b :: rest =>
    if b.toNat < 128 then some (b.toNat, rest)
    else (readVarint rest).map fun r => (b.toNat - 128 + 128 * r.1, r.2)

/-- By induction on the fuel, the groups are read back in order. -/
theorem readVarint_varintFuel (fuel n : ℕ) (h : n ≤ fuel) (rest : List UInt8) :
    readVarint (varintFuel fuel n ++ rest) = some (n, rest) := by
  induction fuel generalizing n with
  | zero =>
    obtain rfl : n = 0 := by omega
    rfl
  | succ fuel ih =>
    rw [varintFuel]
    by_cases hlt : n < 128
    · have hbyte : (UInt8.ofNat n).toNat = n := by
        rw [UInt8.toNat_ofNat']
        omega
      rw [if_pos hlt, List.singleton_append, readVarint, hbyte, if_pos hlt]
    · have hbyte : (UInt8.ofNat (128 + n % 128)).toNat = 128 + n % 128 := by
        rw [UInt8.toNat_ofNat']
        omega
      -- the top bit is set, so the digits behind are read first
      rw [if_neg hlt, List.cons_append, readVarint, hbyte, if_neg (by omega),
        ih (n / 128) (by omega), Option.map_some]
      congr 2
      omega

/-- A varint is read back, and nothing behind it is touched. -/
theorem readVarint_varint (n : ℕ) (rest : List UInt8) :
    readVarint (varint n ++ rest) = some (n, rest) :=
  readVarint_varintFuel n n le_rfl rest

/-- Each byte takes seven bits of the number. -/
theorem length_varintFuel_le (k fuel n : ℕ) (hfuel : n ≤ fuel) (h : n < 128 ^ (k + 1)) :
    (varintFuel fuel n).length ≤ k + 1 := by
  induction k generalizing fuel n with
  | zero =>
    cases fuel with
    | zero => exact le_rfl
    | succ fuel =>
      rw [varintFuel, if_pos (by omega)]
      exact le_rfl
  | succ k ih =>
    cases fuel with
    | zero => simp [varintFuel]
    | succ fuel =>
      rw [varintFuel]
      split
      · simp
      · have hdiv : n / 128 < 128 ^ (k + 1) := Nat.div_lt_of_lt_mul (by rw [← pow_succ']; exact h)
        have hrec := ih fuel (n / 128) (by omega) hdiv
        rw [List.length_cons]
        omega

/-- A number below `2 ^ 64` takes at most ten bytes. -/
theorem length_varint_le {n : ℕ} (h : n < 2 ^ 64) : (varint n).length ≤ 10 :=
  length_varintFuel_le 9 n n le_rfl (h.trans (by norm_num))

/-- A number below 128 is one byte. -/
theorem varint_of_lt {n : ℕ} (h : n < 128) : varint n = [UInt8.ofNat n] := by
  cases n with
  | zero => rfl
  | succ n => rw [varint, varintFuel, if_pos h]

/-- No number is written as nothing. -/
theorem varint_ne_nil (n : ℕ) : varint n ≠ [] := by
  cases n with
  | zero => simp [varint, varintFuel]
  | succ n =>
    rw [varint, varintFuel]
    split <;> simp

/-! ## Fields -/

/-- The value of a field: wire type 0 or 2. -/
inductive Value where
  | varint (n : ℕ)
  | len (bytes : List UInt8)

/-- A field number and its value. -/
abbrev Field := ℕ × Value

/-- Key and value of a field. -/
def encodeField : Field → List UInt8
  | (k, .varint n) => varint (8 * k) ++ varint n
  | (k, .len bytes) => varint (8 * k + 2) ++ (varint bytes.length ++ bytes)

/-- Take a field off the front. -/
def readField (s : List UInt8) : Option (Field × List UInt8) := do
  let (key, s) ← readVarint s
  let (n, s) ← readVarint s
  if key % 8 = 0 then some ((key / 8, .varint n), s)
  else if key % 8 = 2 ∧ n ≤ s.length then some ((key / 8, .len (s.take n)), s.drop n)
  else none

/-- A field is read back, and what is behind it is left. -/
theorem readField_encodeField (f : Field) (rest : List UInt8) :
    readField (encodeField f ++ rest) = some (f, rest) := by
  obtain ⟨k, n | bytes⟩ := f
  · have hmod : 8 * k % 8 = 0 := by omega
    have hdiv : 8 * k / 8 = k := by omega
    rw [readField, encodeField, List.append_assoc, readVarint_varint]
    simp [readVarint_varint, hmod, hdiv]
  · have hmod : (8 * k + 2) % 8 = 2 := by omega
    have hdiv : (8 * k + 2) / 8 = k := by omega
    rw [readField, encodeField, List.append_assoc, readVarint_varint]
    simp [readVarint_varint, hmod, hdiv]

/-- No field is written as nothing, so the reader makes progress. -/
theorem encodeField_ne_nil (f : Field) : encodeField f ≠ [] := by
  obtain ⟨k, n | bytes⟩ := f
  · exact List.append_ne_nil_of_left_ne_nil (varint_ne_nil _) _
  · exact List.append_ne_nil_of_left_ne_nil (varint_ne_nil _) _

/-- The fields of a message, one behind the other. -/
def encodeFields (fs : List Field) : List UInt8 := fs.flatMap encodeField

theorem encodeFields_append (fs fs' : List Field) :
    encodeFields (fs ++ fs') = encodeFields fs ++ encodeFields fs' := List.flatMap_append

/-- All fields of a message, at most `fuel` of them. -/
def readFields : ℕ → List UInt8 → Option (List Field)
  | _, [] => some []
  | 0, _ :: _ => none
  | fuel + 1, b :: s => do
    let (f, s) ← readField (b :: s)
    let fs ← readFields fuel s
    some (f :: fs)

/-- All fields of a message. A field takes at least one byte. -/
def decodeFields (s : List UInt8) : Option (List Field) := readFields s.length s

/-- A list of fields is read back with as much fuel as it has bytes. -/
theorem readFields_encodeFields (fuel : ℕ) (fs : List Field) (h : (encodeFields fs).length ≤ fuel) :
    readFields fuel (encodeFields fs) = some fs := by
  induction fs generalizing fuel with
  | nil => cases fuel <;> rfl
  | cons f fs ih =>
    have hcons : encodeFields (f :: fs) = encodeField f ++ encodeFields fs := rfl
    have hpos : 0 < (encodeField f).length := List.length_pos_iff.mpr (encodeField_ne_nil f)
    rw [hcons, List.length_append] at h
    -- a field has a byte, so there is fuel for it
    obtain ⟨fuel, rfl⟩ : ∃ k, fuel = k + 1 := ⟨fuel - 1, by omega⟩
    obtain ⟨b, s, hs⟩ := List.exists_cons_of_ne_nil
      (List.append_ne_nil_of_left_ne_nil (encodeField_ne_nil f) (encodeFields fs))
    rw [hcons, hs, readFields, ← hs, readField_encodeField]
    simp [ih fuel (by omega)]

/-- A message is read back. -/
theorem decodeFields_encodeFields (fs : List Field) : decodeFields (encodeFields fs) = some fs :=
  readFields_encodeFields _ fs le_rfl

end CiliumMini.Protobuf
