import CiliumMini.Rust.Outcome

/-!
# Two runs side by side

`Outcome.Agrees early R m m'` compares a run `m` with a second run `m'` of the same code on other
data: unless `m` panics or ends with an error in `early`, `m'` ends in the same way, with values
related by `R`. `Exec.Agrees` also compares the final contents of the place. Both follow the code:
there is one rule for sequencing and one for each operation.
-/

namespace CiliumMini

namespace Outcome

variable {ε α α' β β' : Type} {early : ε → Prop}

/-- The second run ends like the first one, unless that panics or ends early. -/
def Agrees (early : ε → Prop) (R : α → α' → Prop) (m : Outcome ε α) (m' : Outcome ε α') : Prop :=
  match m with
  | ok a => ∃ a', m' = ok a' ∧ R a a'
  | err e => early e ∨ m' = err e
  | panic => True

theorem agrees_refl (m : Outcome ε α) : m.Agrees early Eq m := by
  cases m with
  | ok a => exact ⟨a, rfl, rfl⟩
  | err e => exact Or.inr rfl
  | panic => exact trivial

/-- Sequences agree if their steps do. -/
theorem Agrees.bind {R : α → α' → Prop} {S : β → β' → Prop} {m : Outcome ε α} {m' : Outcome ε α'}
    {f : α → Outcome ε β} {f' : α' → Outcome ε β'} (hm : m.Agrees early R m')
    (hf : ∀ a a', R a a' → (f a).Agrees early S (f' a')) :
    (m >>= f).Agrees early S (m' >>= f') := by
  cases m with
  | ok a =>
    obtain ⟨a', rfl, hR⟩ := hm
    exact hf a a' hR
  | err e =>
    rcases hm with he | rfl
    · exact Or.inl he
    · exact Or.inr rfl
  | panic => exact trivial

/-- The same first part, and second parts that agree on its value. -/
theorem Agrees.bind_same {S : β → β' → Prop} (m : Outcome ε α) {f : α → Outcome ε β}
    {f' : α → Outcome ε β'} (hf : ∀ a, (f a).Agrees early S (f' a)) :
    (m >>= f).Agrees early S (m >>= f') := by
  refine (agrees_refl m).bind ?_
  rintro a a' rfl
  exact hf a

/-- An early error agrees with anything. -/
theorem agrees_err {e : ε} (he : early e) (m' : Outcome ε α') {R : α → α' → Prop} :
    (err e : Outcome ε α).Agrees early R m' := Or.inl he

end Outcome

section Checked

open Outcome

variable {ε α : Type} {early : ε → Prop}

/-- A check whose failure ends early, and that the second run passes if the first one does. -/
theorem agrees_check {β β' : Type} {S : β → β' → Prop} {c c' : Prop} [Decidable c] [Decidable c']
    {e : ε} (he : early e) (h : ¬ c → ¬ c') {f : Unit → Outcome ε β} {f' : Unit → Outcome ε β'}
    (hf : (f ()).Agrees early S (f' ())) :
    (failIf c e >>= f).Agrees early S (failIf c' e >>= f') := by
  by_cases hc : c
  · rw [failIf_pos hc]
    exact agrees_err he _
  · rw [failIf_neg hc, failIf_neg (h hc)]
    exact hf

variable (l x : List α)

/-- An index into a slice, and into the slice with more behind it. -/
theorem agrees_index (i : ℕ) : (index l i : Outcome ε α).Agrees early Eq (index (l ++ x) i) := by
  by_cases hi : i < l.length
  · have hi' : i < (l ++ x).length := by
      rw [List.length_append]
      omega
    rw [index_eq hi, index_eq hi', List.getElem_append_left hi]
    exact agrees_refl _
  -- behind the end of the shorter slice the first run panics, and nothing is asked of the other
  · have hpanic : (index l i : Outcome ε α) = .panic := by
      simp [index, List.getElem?_eq_none (Nat.not_lt.mp hi)]
    rw [hpanic]
    exact trivial

/-- The same for a range. -/
theorem agrees_slice (i j : ℕ) :
    (slice l i j : Outcome ε _).Agrees early Eq (slice (l ++ x) i j) := by
  by_cases h : i ≤ j ∧ j ≤ l.length
  · have hj : j ≤ (l ++ x).length := by
      rw [List.length_append]
      omega
    rw [slice_eq h.1 h.2, slice_eq h.1 hj, List.drop_append_of_le_length (by omega),
      List.take_append_of_le_length (by rw [List.length_drop]; omega)]
    exact agrees_refl _
  · rw [slice, if_neg h]
    exact trivial

/-- A suffix of the longer list is longer by the same bytes. -/
theorem agrees_sliceFrom (i : ℕ) :
    (sliceFrom l i : Outcome ε _).Agrees early (fun a a' => a' = a ++ x)
      (sliceFrom (l ++ x) i) := by
  by_cases h : i ≤ l.length
  · have h' : i ≤ (l ++ x).length := by
      rw [List.length_append]
      omega
    rw [sliceFrom_eq h, sliceFrom_eq h', List.drop_append_of_le_length h]
    exact ⟨_, rfl, rfl⟩
  · rw [sliceFrom, if_neg h]
    exact trivial

end Checked

namespace Exec

variable {σ τ ε α α' β β' : Type} {early : ε → Prop}

/-- The second run ends like the first one from every start, with the same contents of the place,
unless the first one panics or ends early. -/
def Agrees (early : ε → Prop) (R : α → α' → Prop) (m : Exec σ ε α) (m' : Exec σ ε α') : Prop :=
  ∀ s, match m.run s with
    | (.ok a, t) => ∃ a', m'.run s = (.ok a', t) ∧ R a a'
    | (.err e, t) => early e ∨ m'.run s = (.err e, t)
    | (.panic, _) => True

theorem agrees_refl (m : Exec σ ε α) : m.Agrees early Eq m := by
  intro s
  rcases m.run s with ⟨a | e | _, t⟩
  · exact ⟨a, rfl, rfl⟩
  · exact Or.inr rfl
  · exact trivial

theorem agrees_lift {R : α → α' → Prop} {m : Outcome ε α} {m' : Outcome ε α'}
    (h : m.Agrees early R m') : (lift m : Exec σ ε α).Agrees early R (lift m') := by
  intro s
  cases m with
  | ok a =>
    obtain ⟨a', rfl, hR⟩ := h
    exact ⟨a', rfl, hR⟩
  | err e =>
    rcases h with he | rfl
    · exact Or.inl he
    · exact Or.inr rfl
  | panic => exact trivial

/-- An early error of a pure step. -/
theorem agrees_lift_err {e : ε} (he : early e) (m' : Exec σ ε α') {R : α → α' → Prop} :
    (lift (.err e) : Exec σ ε α).Agrees early R m' := fun _ => Or.inl he

/-- Sequences agree if their steps do, from every state. -/
theorem Agrees.bind {R : α → α' → Prop} {S : β → β' → Prop} {m : Exec σ ε α} {m' : Exec σ ε α'}
    {f : α → Exec σ ε β} {f' : α' → Exec σ ε β'} (hm : m.Agrees early R m')
    (hf : ∀ a a', R a a' → (f a).Agrees early S (f' a')) :
    (m >>= f).Agrees early S (m' >>= f') := by
  intro s
  have hs := hm s
  rw [run_bind]
  rcases hrun : m.run s with ⟨a | e | _, t⟩
  · rw [hrun] at hs
    obtain ⟨a', hrun', hR⟩ := hs
    rw [run_bind_ok hrun']
    exact hf a a' hR t
  · rw [hrun] at hs
    rcases hs with he | hrun'
    · exact Or.inl he
    · exact Or.inr (run_bind_err hrun' f')
  · exact trivial

theorem Agrees.bind_same {S : β → β' → Prop} (m : Exec σ ε α) {f : α → Exec σ ε β}
    {f' : α → Exec σ ε β'} (hf : ∀ a, (f a).Agrees early S (f' a)) :
    (m >>= f).Agrees early S (m >>= f') := by
  refine (agrees_refl m).bind ?_
  rintro a a' rfl
  exact hf a

/-- A check whose failure ends early, and that the second run passes if the first one does. -/
theorem agrees_lift_check {S : β → β' → Prop} {c c' : Prop} [Decidable c] [Decidable c'] {e : ε}
    (he : early e) (h : ¬ c → ¬ c') {f : Unit → Exec σ ε β} {f' : Unit → Exec σ ε β'}
    (hf : (f ()).Agrees early S (f' ())) :
    (lift (failIf c e) >>= f).Agrees early S (lift (failIf c' e) >>= f') := by
  intro s
  by_cases hc : c
  · rw [run_lift_bind_err (failIf_pos hc e)]
    exact Or.inl he
  · rw [run_lift_bind_ok (failIf_neg hc e), run_lift_bind_ok (failIf_neg (h hc) e)]
    exact hf s

/-- Steps on a part of the state. -/
theorem Agrees.zoom {R : α → α' → Prop} {m : Exec τ ε α} {m' : Exec τ ε α'}
    (hm : m.Agrees early R m') (read : σ → τ) (write : τ → σ → σ) :
    (zoom read write m).Agrees early R (zoom read write m') := by
  intro s
  have hs := hm (read s)
  rw [run_zoom, run_zoom]
  rcases hrun : m.run (read s) with ⟨a | e | _, t⟩
  · rw [hrun] at hs
    obtain ⟨a', hrun', hR⟩ := hs
    rw [hrun']
    exact ⟨a', rfl, hR⟩
  · rw [hrun] at hs
    rcases hs with he | hrun'
    · exact Or.inl he
    · rw [hrun']
      exact Or.inr rfl
  · exact trivial

/-- Runs that agree are equal, if the first one neither panics nor ends early. -/
theorem Agrees.run_eq {m m' : Exec σ ε α} (h : m.Agrees early Eq m') {s : σ}
    (hpanic : (m.run s).1 ≠ .panic) (hearly : ∀ e, early e → (m.run s).1 ≠ .err e) :
    m'.run s = m.run s := by
  have hs := h s
  rcases hrun : m.run s with ⟨a | e | _, t⟩
  · rw [hrun] at hs
    obtain ⟨a', hrun', rfl⟩ := hs
    exact hrun'
  · rw [hrun] at hs
    rcases hs with he | hrun'
    · exact absurd (by rw [hrun]) (hearly e he)
    · exact hrun'
  · exact absurd (by rw [hrun]) hpanic

end Exec

end CiliumMini
