import CiliumMini.Run

/-!
# Traces, simulations and measures

What can be seen of a run is its trace: every action has a label in the state it is taken in. A
simulation matches each step of one machine with a run of another one that has the same labels, so
the second machine has a run with the trace of the first (`Simulation.run`). A measure that every
step lowers bounds the length of a run (`length_le_of_decreases`).
-/

namespace CiliumMini.Run

variable {σ α τ β ω : Type}

/-- The labels of a run, in order. The run ends at the first action that is not possible. -/
def trace (step : σ → α → Option σ) (label : σ → α → List ω) : σ → List α → List ω
  | _, [] => []
  | s, a :: as =>
    label s a ++
      match step s a with
      | some s' => trace step label s' as
      | none => []

section Trace

variable {step : σ → α → Option σ} {label : σ → α → List ω}

theorem trace_cons {s s' : σ} {a : α} (h : step s a = some s') (as : List α) :
    trace step label s (a :: as) = label s a ++ trace step label s' as := by
  rw [trace, h]

/-- The first action of a run. -/
theorem foldlM_cons_eq_some {s s' : σ} {a : α} {as : List α} :
    (a :: as).foldlM step s = some s' ↔ ∃ s₁, step s a = some s₁ ∧ as.foldlM step s₁ = some s' := by
  rw [List.foldlM_cons, Option.bind_eq_bind, Option.bind_eq_some_iff]

/-- A run of two parts. -/
theorem foldlM_append_eq_some {s s' : σ} {as bs : List α} :
    (as ++ bs).foldlM step s = some s' ↔
      ∃ s₁, as.foldlM step s = some s₁ ∧ bs.foldlM step s₁ = some s' := by
  rw [List.foldlM_append, Option.bind_eq_bind, Option.bind_eq_some_iff]

/-- The trace of a run that goes on. -/
theorem trace_append {s s' : σ} {as : List α} (h : as.foldlM step s = some s') (bs : List α) :
    trace step label s (as ++ bs) = trace step label s as ++ trace step label s' bs := by
  induction as generalizing s with
  | nil =>
    obtain rfl : s = s' := Option.some.inj h
    rfl
  | cons a as ih =>
    obtain ⟨s₁, hstep, hrun⟩ := foldlM_cons_eq_some.mp h
    rw [List.cons_append, trace_cons hstep, trace_cons hstep, ih hrun, List.append_assoc]

/-- The trace of one more action. -/
theorem trace_concat {s s₁ s' : σ} {as : List α} {a : α} (h : as.foldlM step s = some s₁)
    (hstep : step s₁ a = some s') :
    trace step label s (as ++ [a]) = trace step label s as ++ label s₁ a := by
  rw [trace_append h, trace_cons hstep, trace, List.append_nil]

/-- Labels that do not depend on the state. -/
theorem trace_eq_flatMap {f : α → List ω} {s s' : σ} {as : List α}
    (h : as.foldlM step s = some s') : trace step (fun _ a => f a) s as = as.flatMap f := by
  induction as generalizing s with
  | nil => rfl
  | cons a as ih =>
    obtain ⟨s₁, hstep, hrun⟩ := foldlM_cons_eq_some.mp h
    rw [trace_cons hstep, ih hrun, List.flatMap_cons]

/-- What holds of the labels of each action of a run holds of its trace. -/
theorem forall_mem_trace {P : ω → Prop} {as : List α}
    (h : ∀ s, ∀ a ∈ as, ∀ l ∈ label s a, P l) (s : σ) : ∀ l ∈ trace step label s as, P l := by
  induction as generalizing s with
  | nil => simp [trace]
  | cons a as ih =>
    intro l hl
    rw [trace, List.mem_append] at hl
    rcases hl with hhere | hlater
    · exact h s a List.mem_cons_self l hhere
    · cases hstep : step s a with
      | none =>
        rw [hstep] at hlater
        exact absurd hlater List.not_mem_nil
      | some s' =>
        rw [hstep] at hlater
        exact ih (fun s a' ha' => h s a' (List.mem_cons_of_mem a ha')) s' l hlater

/-- To look at each label of a trace is to look at the labels of each action. -/
theorem trace_flatMap {ω' : Type} (g : ω → List ω') (s : σ) (as : List α) :
    trace step (fun s a => (label s a).flatMap g) s as = (trace step label s as).flatMap g := by
  induction as generalizing s with
  | nil => rfl
  | cons a as ih =>
    rw [trace, trace, List.flatMap_append]
    cases step s a with
    | none => rfl
    | some s' => exact congrArg (List.flatMap g (label s a) ++ ·) (ih s')

/-- What holds of the start and the empty trace, and is kept by the actions of a run and their
labels, holds of the state that the run ends in and of its trace. -/
theorem trace_invariant_of_mem {I : σ → List ω → Prop} {start : σ} {as : List α}
    (hstart : I start [])
    (hstep : ∀ s a s' tr, a ∈ as → I s tr → step s a = some s' → I s' (tr ++ label s a)) {s : σ}
    (hrun : as.foldlM step start = some s) : I s (trace step label start as) := by
  induction as using List.reverseRecOn generalizing s with
  | nil =>
    obtain rfl : start = s := Option.some.inj hrun
    exact hstart
  | append_singleton as a ih =>
    obtain ⟨s₁, hrun₁, hlast⟩ := append_singleton_eq_some.mp hrun
    have hinv := ih (fun s b s' tr hb => hstep s b s' tr (List.mem_append_left [a] hb)) hrun₁
    rw [trace_concat hrun₁ hlast]
    exact hstep s₁ a s _ (List.mem_append_right as List.mem_cons_self) hinv hlast

/-- The same, for what is kept by every step. -/
theorem trace_invariant {I : σ → List ω → Prop} {start : σ} (hstart : I start [])
    (hstep : ∀ s a s' tr, I s tr → step s a = some s' → I s' (tr ++ label s a)) {as : List α}
    {s : σ} (hrun : as.foldlM step start = some s) : I s (trace step label start as) :=
  trace_invariant_of_mem hstart (fun s a s' tr _ => hstep s a s' tr) hrun

end Trace

/-- The steps of one machine that take an allowed action from related states are matched by runs of
another machine, with the same labels. -/
structure Simulation (step : σ → α → Option σ) (label : σ → α → List ω)
    (step' : τ → β → Option τ) (label' : τ → β → List ω) (allowed : α → Prop)
    (R : σ → τ → Prop) : Prop where
  matched : ∀ {s s' : σ} {t : τ} {a : α}, allowed a → R s t → step s a = some s' →
    ∃ bs t', bs.foldlM step' t = some t' ∧ R s' t' ∧ trace step' label' t bs = label s a

section Match

variable {step : τ → β → Option τ} {label : τ → β → List ω} {t t' : τ} {b : β} {P : τ → Prop}

/-- A step without labels is matched by standing still. -/
theorem match_none (ht : P t) :
    ∃ bs t', bs.foldlM step t = some t' ∧ P t' ∧ trace step label t bs = [] :=
  ⟨[], t, rfl, ht, rfl⟩

/-- A step is matched by one step. -/
theorem match_one (hb : step t b = some t') (ht' : P t') :
    ∃ bs t', bs.foldlM step t = some t' ∧ P t' ∧ trace step label t bs = label t b := by
  refine ⟨[b], t', ?_, ht', ?_⟩
  · exact foldlM_cons_eq_some.mpr ⟨t', hb, rfl⟩
  · rw [trace_cons hb, trace, List.append_nil]

end Match

/-- A run is matched by a run with the same trace. -/
theorem Simulation.run {step : σ → α → Option σ} {label : σ → α → List ω}
    {step' : τ → β → Option τ} {label' : τ → β → List ω} {allowed : α → Prop} {R : σ → τ → Prop}
    (h : Simulation step label step' label' allowed R) {s s' : σ} {t : τ} (hR : R s t)
    {as : List α} (hallowed : ∀ a ∈ as, allowed a) (hrun : as.foldlM step s = some s') :
    ∃ bs t', bs.foldlM step' t = some t' ∧ R s' t' ∧
      trace step' label' t bs = trace step label s as := by
  induction as generalizing s t with
  | nil =>
    obtain rfl : s = s' := Option.some.inj hrun
    exact ⟨[], t, rfl, hR, rfl⟩
  | cons a as ih =>
    obtain ⟨s₁, hstep, hrest⟩ := foldlM_cons_eq_some.mp hrun
    obtain ⟨bs, t₁, hbs, hR₁, htrace⟩ := h.matched (hallowed a List.mem_cons_self) hR hstep
    obtain ⟨cs, t', hcs, hR', htrace'⟩ :=
      ih hR₁ (fun a' ha' => hallowed a' (List.mem_cons_of_mem a ha')) hrest
    refine ⟨bs ++ cs, t', foldlM_append_eq_some.mpr ⟨t₁, hbs, hcs⟩, hR', ?_⟩
    rw [trace_append hbs, trace_cons hstep, htrace, htrace']

/-- If every allowed action lowers a measure, a run of such actions is at most as long as the
measure it uses up. -/
theorem length_le_of_decreases {step : σ → α → Option σ} {measure : σ → ℕ} {allowed : α → Prop}
    (h : ∀ s a s', allowed a → step s a = some s' → measure s' < measure s) {as : List α}
    (hallowed : ∀ a ∈ as, allowed a) {s s' : σ} (hrun : as.foldlM step s = some s') :
    as.length + measure s' ≤ measure s := by
  induction as generalizing s with
  | nil =>
    obtain rfl : s = s' := Option.some.inj hrun
    simp
  | cons a as ih =>
    obtain ⟨s₁, hstep, hrest⟩ := foldlM_cons_eq_some.mp hrun
    have hlower := h s a s₁ (hallowed a List.mem_cons_self) hstep
    have hlength := ih (fun a' ha' => hallowed a' (List.mem_cons_of_mem a ha')) hrest
    rw [List.length_cons]
    omega

/-- If every allowed action lowers a measure, some run of allowed actions ends in a state in which
none of them is possible. -/
theorem exists_run_to_stuck {step : σ → α → Option σ} {measure : σ → ℕ} {allowed : α → Prop}
    (h : ∀ s a s', allowed a → step s a = some s' → measure s' < measure s) (s : σ) :
    ∃ (as : List α) (s' : σ), (∀ a ∈ as, allowed a) ∧ as.foldlM step s = some s' ∧
      ∀ a, allowed a → step s' a = none := by
  -- on the measure: where an allowed action is possible, it leads to a state with a lower one
  induction hm : measure s using Nat.strongRecOn generalizing s with
  | ind n ih =>
    by_cases hstuck : ∀ a, allowed a → step s a = none
    · exact ⟨[], s, by simp, rfl, hstuck⟩
    · obtain ⟨a, ha, hmove⟩ : ∃ a, allowed a ∧ step s a ≠ none := by
        simpa only [not_forall, exists_prop] using hstuck
      obtain ⟨s₁, hstep⟩ := Option.ne_none_iff_exists'.mp hmove
      obtain ⟨as, s', has, hrun, hstuck'⟩ := ih _ (hm ▸ h s a s₁ ha hstep) s₁ rfl
      refine ⟨a :: as, s', List.forall_mem_cons.mpr ⟨ha, has⟩, ?_, hstuck'⟩
      exact foldlM_cons_eq_some.mpr ⟨s₁, hstep, hrun⟩

end CiliumMini.Run
