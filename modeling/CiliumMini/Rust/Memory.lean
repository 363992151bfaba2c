import CiliumMini.Rust.Outcome

/-!
# Blocks of memory

A block is a list, and a store replaces the elements at an offset. A store outside the block panics.
Stores behind each other are one store (`store_store`), and a store over one part of a block leaves
the other parts alone (`store_part`).
-/

namespace CiliumMini

variable {ε α : Type}

/-- The block with the elements from `off` on replaced by `l`. -/
def splice (mem : List α) (off : ℕ) (l : List α) : List α :=
  mem.take off ++ (l ++ mem.drop (off + l.length))

/-- Store `l` at `off`. -/
def store (mem : List α) (off : ℕ) (l : List α) : Outcome ε (List α) :=
  if off + l.length ≤ mem.length then .ok (splice mem off l) else .panic

theorem store_eq {mem : List α} {off : ℕ} {l : List α} (h : off + l.length ≤ mem.length) :
    (store mem off l : Outcome ε _) = .ok (splice mem off l) := if_pos h

theorem store_panic {mem : List α} {off : ℕ} {l : List α} (h : ¬ off + l.length ≤ mem.length) :
    (store mem off l : Outcome ε _) = .panic := if_neg h

/-- A store keeps the size of the block. -/
theorem length_splice {mem : List α} {off : ℕ} {l : List α} (h : off + l.length ≤ mem.length) :
    (splice mem off l).length = mem.length := by
  simp only [splice, List.length_append, List.length_take, List.length_drop]
  omega

/-- A store over one part of a block. -/
theorem splice_part {pre mid l : List α} {off : ℕ} (hoff : pre.length = off)
    (hlen : mid.length = l.length) (post : List α) :
    splice (pre ++ (mid ++ post)) off l = pre ++ (l ++ post) := by
  subst hoff
  rw [splice, List.take_left, ← hlen, ← List.drop_drop, List.drop_left, List.drop_left]

/-- A store over a part of the memory that is as long as what is stored. -/
theorem store_part {pre mid l : List α} {off : ℕ} (hoff : pre.length = off)
    (hlen : mid.length = l.length) (post : List α) :
    (store (pre ++ (mid ++ post)) off l : Outcome ε _) = .ok (pre ++ (l ++ post)) := by
  have hin : off + l.length ≤ (pre ++ (mid ++ post)).length := by
    simp only [List.length_append]
    omega
  rw [store_eq hin, splice_part hoff hlen]

/-- Two stores of which the second starts where the first one ends. -/
theorem splice_splice {mem : List α} {off : ℕ} {l : List α} (h : off + l.length ≤ mem.length)
    (l' : List α) :
    splice (splice mem off l) (off + l.length) l' = splice mem off (l ++ l') := by
  have htake : (splice mem off l).take (off + l.length) = mem.take off ++ l := by
    rw [splice, ← List.append_assoc]
    exact List.take_left' (by rw [List.length_append, List.length_take_of_le (by omega)])
  have hdrop : (splice mem off l).drop (off + l.length + l'.length) =
      mem.drop (off + l.length + l'.length) := by
    rw [← List.drop_drop, splice, ← List.append_assoc, List.drop_left', List.drop_drop]
    rw [List.length_append, List.length_take_of_le (by omega)]
  rw [splice, htake, hdrop, splice, List.length_append, List.append_assoc, List.append_assoc,
    Nat.add_assoc]

/-- Two stores behind each other are one store. -/
theorem store_store (mem : List α) (off : ℕ) (l l' : List α) :
    (do let m ← store mem off l
        store m (off + l.length) l') = (store mem off (l ++ l') : Outcome ε _) := by
  by_cases hfirst : off + l.length ≤ mem.length
  · rw [store_eq hfirst, Outcome.ok_bind]
    by_cases hsecond : off + l.length + l'.length ≤ mem.length
    · rw [store_eq (by rw [length_splice hfirst]; exact hsecond), splice_splice hfirst,
        store_eq (by rw [List.length_append]; omega)]
    · rw [store_panic (by rw [length_splice hfirst]; exact hsecond),
        store_panic (by rw [List.length_append]; omega)]
  · rw [store_panic hfirst, store_panic (by rw [List.length_append]; omega)]
    rfl

end CiliumMini
