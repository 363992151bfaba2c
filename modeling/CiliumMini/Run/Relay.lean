import CiliumMini.Run.Trace
import Mathlib.Data.List.Perm.Basic

/-!
# A relay that may lose items

A relay takes items of type `ε` and delivers, in order, what `f` makes of them. It keeps the items
inside in one list of at most `cap`. An item is turned away, or it leaves the list in one of four
ways: it is delivered, its delivery fails, it has no result and is discarded, or it is dropped. The
relay may turn away and drop whatever it likes.

The fates of the items are one thing, what can be seen of them another: of an item that is delivered
only its result is seen. The laws are about the fates in every run from the empty relay. What is
delivered comes in order (`Ordered`), every item has exactly one fate (`Conserved`), and only items
without a result are discarded (`Justified`). No result is missing exactly if nothing failed and
nothing with a result was dropped (`lossless`).
-/

namespace CiliumMini.Relay

open List Run

variable {ε μ : Type}

/-- What a relay can do. -/
inductive Action (ε : Type) where
  /-- take an item, if there is room -/
  | offer (e : ε)
  /-- turn an item away -/
  | refuse (e : ε)
  /-- deliver the first item -/
  | deliver
  /-- fail to deliver the first item -/
  | fail
  /-- discard the item at a place, if it has no result -/
  | discard (i : ℕ)
  /-- drop the item at a place -/
  | drop (i : ℕ)

/-- What happens to an item, or to its result. -/
inductive Label (ε μ : Type) where
  | offered (e : ε)
  | delivered (m : μ)
  | failed (m : μ)
  | discarded (e : ε)
  | overflowed (e : ε)

/-- One action of a relay; `none` if it is not possible now. -/
def step (f : ε → Option μ) (cap : ℕ) (inside : List ε) : Action ε → Option (List ε)
  | .offer e => if inside.length < cap then some (inside ++ [e]) else none
  | .refuse _ => some inside
  | .deliver | .fail =>
    match inside with
    | e :: rest => if (f e).isSome then some rest else none
    | [] => none
  | .discard i =>
    match inside[i]? with
    | some e => if (f e).isNone then some (inside.eraseIdx i) else none
    | none => none
  | .drop i => if i < inside.length then some (inside.eraseIdx i) else none

/-- The fates that an action decides. An item that is turned away is dropped at once. -/
def fate (inside : List ε) : Action ε → List (Label ε ε)
  | .offer e => [.offered e]
  | .refuse e => [.offered e, .overflowed e]
  | .deliver => inside.head?.toList.map .delivered
  | .fail => inside.head?.toList.map .failed
  | .discard i => inside[i]?.toList.map .discarded
  | .drop i => inside[i]?.toList.map .overflowed

/-- What can be seen of a fate. -/
def Label.see (f : ε → Option μ) : Label ε ε → List (Label ε μ)
  | offered e => [.offered e]
  | delivered e => (f e).toList.map .delivered
  | failed e => (f e).toList.map .failed
  | discarded e => [.discarded e]
  | overflowed e => [.overflowed e]

/-- What can be seen of an action. -/
def label (f : ε → Option μ) (inside : List ε) (a : Action ε) : List (Label ε μ) :=
  (fate inside a).flatMap (Label.see f)

/-! ## The parts of a trace -/

/-- The items that were offered. -/
def offered (tr : List (Label ε μ)) : List ε :=
  tr.filterMap fun | .offered e => some e | _ => none

/-- What was delivered. -/
def delivered (tr : List (Label ε μ)) : List μ :=
  tr.filterMap fun | .delivered m => some m | _ => none

/-- What failed to be delivered. -/
def failed (tr : List (Label ε μ)) : List μ :=
  tr.filterMap fun | .failed m => some m | _ => none

/-- The items that were discarded. -/
def discarded (tr : List (Label ε μ)) : List ε :=
  tr.filterMap fun | .discarded e => some e | _ => none

/-- The items that were turned away or dropped. -/
def overflowed (tr : List (Label ε μ)) : List ε :=
  tr.filterMap fun | .overflowed e => some e | _ => none

section Parts

variable (tr tr' : List (Label ε μ))

@[simp] theorem offered_append : offered (tr ++ tr') = offered tr ++ offered tr' :=
  List.filterMap_append

@[simp] theorem delivered_append : delivered (tr ++ tr') = delivered tr ++ delivered tr' :=
  List.filterMap_append

@[simp] theorem failed_append : failed (tr ++ tr') = failed tr ++ failed tr' :=
  List.filterMap_append

@[simp] theorem discarded_append : discarded (tr ++ tr') = discarded tr ++ discarded tr' :=
  List.filterMap_append

@[simp] theorem overflowed_append : overflowed (tr ++ tr') = overflowed tr ++ overflowed tr' :=
  List.filterMap_append

end Parts

/-- What is seen of a list of fates: the items themselves, and the results of those that were
delivered or failed. -/
theorem parts_see (f : ε → Option μ) (tr : List (Label ε ε)) :
    offered (tr.flatMap (Label.see f)) = offered tr ∧
      delivered (tr.flatMap (Label.see f)) = (delivered tr).filterMap f ∧
      failed (tr.flatMap (Label.see f)) = (failed tr).filterMap f ∧
      discarded (tr.flatMap (Label.see f)) = discarded tr ∧
      overflowed (tr.flatMap (Label.see f)) = overflowed tr := by
  induction tr with
  | nil => exact ⟨rfl, rfl, rfl, rfl, rfl⟩
  | cons l tr ih =>
    obtain ⟨hoffered, hdelivered, hfailed, hdiscarded, hoverflowed⟩ := ih
    simp only [List.flatMap_cons, offered_append, delivered_append, failed_append,
      discarded_append, overflowed_append, hoffered, hdelivered, hfailed, hdiscarded, hoverflowed]
    cases l with
    | delivered e =>
      cases hf : f e <;> simp [Label.see, offered, delivered, failed, discarded, overflowed, hf]
    | failed e =>
      cases hf : f e <;> simp [Label.see, offered, delivered, failed, discarded, overflowed, hf]
    | _ => exact ⟨rfl, rfl, rfl, rfl, rfl⟩

/-! ## Steps -/

section Step

variable {f : ε → Option μ} {cap : ℕ}

/-- An item in the middle is at the place behind those in front of it. -/
theorem getElem?_middle (pre post : List ε) (e : ε) : (pre ++ e :: post)[pre.length]? = some e := by
  simp

/-- An item in the middle is taken out. -/
theorem eraseIdx_middle (pre post : List ε) (e : ε) :
    (pre ++ e :: post).eraseIdx pre.length = pre ++ post := by
  rw [List.eraseIdx_append_of_length_le (Nat.le_refl _), Nat.sub_self, List.eraseIdx_cons_zero]

/-- An item is taken while there is room. -/
theorem step_offer {inside : List ε} (h : inside.length < cap) (e : ε) :
    step f cap inside (.offer e) = some (inside ++ [e]) ∧
      label f inside (.offer e) = [.offered e] :=
  ⟨if_pos h, rfl⟩

/-- An item can always be turned away. -/
theorem step_refuse (f : ε → Option μ) (cap : ℕ) (inside : List ε) (e : ε) :
    step f cap inside (.refuse e) = some inside ∧
      label f inside (.refuse e) = [.offered e, .overflowed e] :=
  ⟨rfl, rfl⟩

/-- The first item is delivered. -/
theorem step_deliver (cap : ℕ) {e : ε} {m : μ} (h : f e = some m) (rest : List ε) :
    step f cap (e :: rest) .deliver = some rest ∧
      label f (e :: rest) .deliver = [.delivered m] := by
  simp [step, label, fate, Label.see, h]

/-- The first item fails to be delivered. -/
theorem step_fail (cap : ℕ) {e : ε} {m : μ} (h : f e = some m) (rest : List ε) :
    step f cap (e :: rest) .fail = some rest ∧ label f (e :: rest) .fail = [.failed m] := by
  simp [step, label, fate, Label.see, h]

/-- An item without a result can be discarded from the middle. -/
theorem step_discard (cap : ℕ) {e : ε} (h : f e = none) (pre post : List ε) :
    step f cap (pre ++ e :: post) (.discard pre.length) = some (pre ++ post) ∧
      label f (pre ++ e :: post) (.discard pre.length) = [.discarded e] := by
  simp only [step, label, fate, getElem?_middle, eraseIdx_middle]
  simp [h, Label.see]

/-- An item can be dropped from the middle. -/
theorem step_drop (f : ε → Option μ) (cap : ℕ) (e : ε) (pre post : List ε) :
    step f cap (pre ++ e :: post) (.drop pre.length) = some (pre ++ post) ∧
      label f (pre ++ e :: post) (.drop pre.length) = [.overflowed e] := by
  have hin : pre.length < (pre ++ e :: post).length := by simp
  simp only [step, label, fate, getElem?_middle, eraseIdx_middle, if_pos hin]
  simp [Label.see]

/-- Everything a relay can do in one step. -/
inductive Move (f : ε → Option μ) (cap : ℕ) : List ε → List (Label ε ε) → List ε → Prop
  | offer {inside : List ε} (h : inside.length < cap) (e : ε) :
      Move f cap inside [.offered e] (inside ++ [e])
  | refuse (inside : List ε) (e : ε) : Move f cap inside [.offered e, .overflowed e] inside
  | deliver {e : ε} (h : (f e).isSome) (rest : List ε) :
      Move f cap (e :: rest) [.delivered e] rest
  | fail {e : ε} (h : (f e).isSome) (rest : List ε) : Move f cap (e :: rest) [.failed e] rest
  | discard {e : ε} (h : f e = none) (pre post : List ε) :
      Move f cap (pre ++ e :: post) [.discarded e] (pre ++ post)
  | drop (e : ε) (pre post : List ε) :
      Move f cap (pre ++ e :: post) [.overflowed e] (pre ++ post)

/-- An item at a place is in the middle. -/
theorem exists_middle {l : List ε} {i : ℕ} {e : ε} (h : l[i]? = some e) :
    ∃ pre post, l = pre ++ e :: post ∧ pre.length = i := by
  obtain ⟨hi, he⟩ := List.getElem?_eq_some_iff.mp h
  refine ⟨l.take i, l.drop (i + 1), ?_, List.length_take_of_le (Nat.le_of_lt hi)⟩
  rw [← he, ← List.drop_eq_getElem_cons hi, List.take_append_drop]

/-- Every step is one of the moves. -/
theorem step_move {inside inside' : List ε} {a : Action ε}
    (h : step f cap inside a = some inside') : Move f cap inside (fate inside a) inside' := by
  cases a with
  | offer e =>
    simp only [step] at h
    split at h
    · rename_i hroom
      obtain rfl := Option.some.inj h
      exact .offer hroom e
    · exact absurd h (by simp)
  | refuse e =>
    obtain rfl := Option.some.inj h
    exact .refuse inside e
  | deliver =>
    -- only a relay with an item inside can deliver one
    cases inside with
    | nil => exact absurd h (by simp [step])
    | cons e rest =>
      simp only [step] at h
      split at h
      · rename_i hf
        obtain rfl := Option.some.inj h
        exact .deliver hf rest
      · exact absurd h (by simp)
  | fail =>
    cases inside with
    | nil => exact absurd h (by simp [step])
    | cons e rest =>
      simp only [step] at h
      split at h
      · rename_i hf
        obtain rfl := Option.some.inj h
        exact .fail hf rest
      · exact absurd h (by simp)
  | discard i =>
    cases hi : inside[i]? with
    | none => exact absurd h (by simp [step, hi])
    | some e =>
      obtain ⟨pre, post, rfl, rfl⟩ := exists_middle hi
      cases hf : f e with
      | some m => exact absurd h (by simp [step, hf])
      | none =>
        obtain ⟨hstep, -⟩ := step_discard cap hf pre post
        obtain rfl := Option.some.inj (hstep.symm.trans h)
        rw [fate, getElem?_middle]
        exact .discard hf pre post
  | drop i =>
    simp only [step] at h
    split at h
    · rename_i hin
      obtain ⟨pre, post, hsplit, rfl⟩ := exists_middle (List.getElem?_eq_getElem hin)
      obtain ⟨e, rfl⟩ : ∃ e, inside = pre ++ e :: post := ⟨_, hsplit⟩
      have herase := Option.some.inj h
      rw [eraseIdx_middle] at herase
      rw [fate, getElem?_middle, ← herase]
      exact .drop e pre post
    · exact absurd h (by simp)

end Step

/-! ## The laws -/

section Laws

variable {f : ε → Option μ} {cap : ℕ}

/-- What was delivered, then what is inside, comes from the offered items in order. -/
def Ordered (inside : List ε) (tr : List (Label ε ε)) : Prop := delivered tr ++ inside <+ offered tr

/-- Each offered item is delivered, failed, dropped, discarded or still inside. -/
def Conserved (inside : List ε) (tr : List (Label ε ε)) : Prop :=
  offered tr ~ delivered tr ++ failed tr ++ overflowed tr ++ discarded tr ++ inside

/-- No more than `cap` items are inside; what is delivered or fails has a result; and what is
discarded has none. -/
structure Justified (f : ε → Option μ) (cap : ℕ) (inside : List ε) (tr : List (Label ε ε)) :
    Prop where
  bounded : inside.length ≤ cap
  result : ∀ e ∈ delivered tr ++ failed tr, (f e).isSome
  noResult : ∀ e ∈ discarded tr, f e = none

/-- Without an item in the middle, those around it keep their order. -/
theorem middle_sublist (pre post : List ε) (e : ε) : pre ++ post <+ pre ++ e :: post :=
  (List.sublist_cons_self e post).append_left pre

/-- An item joins at the end, leaves from the front to the delivered ones, or is lost. -/
theorem Ordered.move {inside inside' : List ε} {tr l : List (Label ε ε)}
    (hi : Ordered inside tr) (h : Move f cap inside l inside') : Ordered inside' (tr ++ l) := by
  unfold Ordered at hi ⊢
  rw [delivered_append, offered_append]
  -- unless it is delivered or offered, the item is only taken out of what is inside
  have hless : ∀ {rest : List ε}, rest <+ inside →
      delivered tr ++ [] ++ rest <+ offered tr ++ [] := by
    intro rest hrest
    rw [List.append_nil, List.append_nil]
    exact (hrest.append_left _).trans hi
  cases h with
  | offer hroom e =>
    show delivered tr ++ [] ++ (inside ++ [e]) <+ offered tr ++ [e]
    rw [List.append_nil, ← List.append_assoc]
    exact hi.append_right _
  | refuse _ e =>
    show delivered tr ++ [] ++ inside <+ offered tr ++ [e]
    rw [List.append_nil]
    exact hi.trans (List.sublist_append_left _ _)
  | @deliver e hf rest =>
    show delivered tr ++ [e] ++ inside' <+ offered tr ++ []
    rw [List.append_nil, List.append_assoc]
    exact hi
  | @fail e hf rest => exact hless (List.sublist_cons_self e inside')
  | @discard e hf pre post => exact hless (middle_sublist pre post e)
  | drop e pre post => exact hless (middle_sublist pre post e)

/-- A move takes each item from one place to one other. -/
theorem Conserved.move {inside inside' : List ε} {tr l : List (Label ε ε)}
    (hi : Conserved inside tr) (h : Move f cap inside l inside') :
    Conserved inside' (tr ++ l) := by
  classical
  -- count one item everywhere, before and behind the move
  refine List.perm_iff_count.mpr fun r => ?_
  have hcount := List.perm_iff_count.mp hi r
  cases h <;>
    simp only [offered_append, delivered_append, failed_append, overflowed_append,
      discarded_append, List.count_append] at hcount ⊢ <;>
    simp_all [offered, delivered, failed, overflowed, discarded, List.count_cons] <;> omega

/-- A move keeps the bound, and it looks at the result of the item that it takes out. -/
theorem Justified.move {inside inside' : List ε} {tr l : List (Label ε ε)}
    (hi : Justified f cap inside tr) (h : Move f cap inside l inside') :
    Justified f cap inside' (tr ++ l) := by
  obtain ⟨hbounded, hresult, hnoResult⟩ := hi
  have hfewer : inside' <+ inside → inside'.length ≤ cap :=
    fun hsub => Nat.le_trans hsub.length_le hbounded
  -- an item with a result joins those that were delivered or failed
  have hjoin : ∀ {e e' : ε}, (f e).isSome → e' ∈ delivered tr ++ failed tr ∨ e' = e →
      (f e').isSome := by
    rintro e e' hf (hold | rfl)
    · exact hresult e' hold
    · exact hf
  cases h with
  | offer hroom e =>
    refine ⟨?_, by simpa [delivered, failed] using hresult, by simpa [discarded] using hnoResult⟩
    rw [List.length_append, List.length_singleton]
    omega
  | refuse _ e =>
    exact ⟨hbounded, by simpa [delivered, failed] using hresult,
      by simpa [discarded] using hnoResult⟩
  | @deliver e hf _ =>
    refine ⟨hfewer (List.sublist_cons_self e inside'), fun e' he' => hjoin hf ?_,
      by simpa [discarded] using hnoResult⟩
    simpa [delivered, failed, or_assoc, or_comm, or_left_comm] using he'
  | @fail e hf _ =>
    refine ⟨hfewer (List.sublist_cons_self e inside'), fun e' he' => hjoin hf ?_,
      by simpa [discarded] using hnoResult⟩
    simpa [delivered, failed, or_assoc, or_comm, or_left_comm] using he'
  | @discard e hf pre post =>
    refine ⟨hfewer (middle_sublist pre post e), by simpa [delivered, failed] using hresult,
      fun e' he' => ?_⟩
    rw [discarded_append, List.mem_append] at he'
    rcases he' with hold | hnew
    · exact hnoResult e' hold
    · obtain rfl : e' = e := List.mem_singleton.mp hnew
      exact hf
  | drop e pre post =>
    exact ⟨hfewer (middle_sublist pre post e), by simpa [delivered, failed] using hresult,
      by simpa [discarded] using hnoResult⟩

/-- The laws hold of the empty relay. -/
theorem laws_start :
    Ordered ([] : List ε) [] ∧ Conserved ([] : List ε) [] ∧ Justified f cap [] [] :=
  ⟨List.Sublist.refl _, List.Perm.refl _, Nat.zero_le _, by simp [delivered, failed],
    by simp [discarded]⟩

/-- Every run from the empty relay keeps the laws. -/
theorem laws {as : List (Action ε)} {inside : List ε}
    (hrun : as.foldlM (step f cap) [] = some inside) :
    Ordered inside (trace (step f cap) fate [] as) ∧
      Conserved inside (trace (step f cap) fate [] as) ∧
      Justified f cap inside (trace (step f cap) fate [] as) := by
  refine trace_invariant (I := fun inside tr => Ordered inside tr ∧ Conserved inside tr ∧
    Justified f cap inside tr) laws_start ?_ hrun
  intro inside a inside' tr ⟨horder, hconserved, hjust⟩ hstep
  have hmove := step_move hstep
  exact ⟨horder.move hmove, hconserved.move hmove, hjust.move hmove⟩

/-- No result is missing exactly if nothing failed and nothing with a result was dropped. -/
theorem lossless {inside : List ε} {tr : List (Label ε ε)} (horder : Ordered inside tr)
    (hconserved : Conserved inside tr) (hjust : Justified f cap inside tr) :
    (delivered tr ++ inside).filterMap f = (offered tr).filterMap f ↔
      failed tr = [] ∧ (overflowed tr).filterMap f = [] := by
  -- discarded items have no results, and all that failed have one
  have hdiscarded : ((discarded tr).filterMap f).length = 0 :=
    List.length_eq_zero_iff.mpr (List.filterMap_eq_nil_iff.mpr hjust.noResult)
  have hresults : ((failed tr).filterMap f).length = (failed tr).length :=
    List.filterMap_length_eq_length.mpr fun e he => hjust.result e (List.mem_append_right _ he)
  have hlengths := (hconserved.filterMap f).length_eq
  simp only [List.filterMap_append, List.length_append] at hlengths
  rw [← List.length_eq_zero_iff, ← List.length_eq_zero_iff (l := (overflowed tr).filterMap f)]
  constructor
  · intro hall
    have hsame := congrArg List.length hall
    rw [List.filterMap_append, List.length_append] at hsame
    omega
  · -- the two lists are in the same order, so it is enough that they are of one length
    rintro ⟨hfailed, hoverflowed⟩
    refine (horder.filterMap f).eq_of_length ?_
    rw [List.filterMap_append, List.length_append]
    omega

end Laws

end CiliumMini.Relay
