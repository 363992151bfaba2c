import Mathlib.Tactic.Basic
import Mathlib.Tactic.Ring
import Mathlib.Data.List.Basic

/-!
# Fixed-width integers as bytes

`leBytes n v` and `beBytes n v` are the `n` bytes of `v` modulo `256 ^ n`, least and most
significant byte first. `ofLe` and `ofBe` read such bytes back.
-/

namespace CiliumMini

/-- The `n` low bytes of `v`, least significant first. -/
def leBytes : ℕ → ℕ → List UInt8
  | 0, _ => []
  | n + 1, v => UInt8.ofNat (v % 256) :: leBytes n (v / 256)

/-- The number whose bytes, least significant first, are `l`. -/
def ofLe : List UInt8 → ℕ
  | [] => 0
  | b :: l => b.toNat + 256 * ofLe l

/-- The `n` low bytes of `v`, most significant first (`to_be_bytes`). -/
def beBytes (n v : ℕ) : List UInt8 := (leBytes n v).reverse

/-- The number whose bytes, most significant first, are `l` (`from_be_bytes`). -/
def ofBe (l : List UInt8) : ℕ := ofLe l.reverse

@[simp] theorem length_leBytes (n v : ℕ) : (leBytes n v).length = n := by
  induction n generalizing v with
  | zero => rfl
  | succ n ih => simp [leBytes, ih]

@[simp] theorem length_beBytes (n v : ℕ) : (beBytes n v).length = n := by
  simp [beBytes]

/-- Reading back the bytes of a number keeps it modulo `256 ^ n`. -/
theorem ofLe_leBytes (n v : ℕ) : ofLe (leBytes n v) = v % 256 ^ n := by
  induction n generalizing v with
  | zero => simp [leBytes, ofLe, Nat.mod_one]
  | succ n ih =>
    simp only [leBytes, ofLe, ih]
    rw [pow_succ', Nat.mod_mul]
    simp

/-- A number is read back up to what does not fit its bytes. -/
theorem ofBe_beBytes (n v : ℕ) : ofBe (beBytes n v) = v % 256 ^ n := by
  simp [ofBe, beBytes, ofLe_leBytes]

/-- A number that fits is read back. -/
theorem ofBe_beBytes_of_lt {n v : ℕ} (h : v < 256 ^ n) : ofBe (beBytes n v) = v := by
  rw [ofBe_beBytes, Nat.mod_eq_of_lt h]

/-- `n` bytes hold a number below `256 ^ n`. -/
theorem ofLe_lt (l : List UInt8) : ofLe l < 256 ^ l.length := by
  induction l with
  | nil => simp [ofLe]
  | cons b l ih =>
    have hb := b.toNat_lt
    simp only [ofLe, List.length_cons, pow_succ']
    omega

theorem ofBe_lt (l : List UInt8) : ofBe l < 256 ^ l.length := by
  simpa [ofBe] using ofLe_lt l.reverse

/-- A byte list is the byte list of its own value. -/
theorem leBytes_ofLe (l : List UInt8) : leBytes l.length (ofLe l) = l := by
  induction l with
  | nil => rfl
  | cons b l ih =>
    have hb := b.toNat_lt
    have hmod : (b.toNat + 256 * ofLe l) % 256 = b.toNat := by omega
    have hdiv : (b.toNat + 256 * ofLe l) / 256 = ofLe l := by omega
    simp [leBytes, ofLe, hmod, hdiv, ih]

/-- Bytes read as a number are written as the same bytes. -/
theorem beBytes_ofBe (l : List UInt8) : beBytes l.length (ofBe l) = l := by
  have h := leBytes_ofLe l.reverse
  rw [List.length_reverse] at h
  rw [beBytes, ofBe, h, List.reverse_reverse]

end CiliumMini
