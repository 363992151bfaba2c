import Mathlib.Data.List.Induction

/-!
# Runs of a partial step function

A run takes a list of actions one after the other with `step : σ → α → Option σ`, where `none` means
that the action is not possible now. What holds at the start and is kept by every step of a run
holds in every state of the run. The step may be assumed to be one of the given run
(`invariant_of_mem`) and to be taken behind a prefix of it (`invariant_of_prefix`), so a condition
on the steps of a run can be used where they are taken.
-/

namespace CiliumMini.Run

open scoped List

variable {σ α : Type} {step : σ → α → Option σ} {start : σ}

/-- The last action of a run. -/
theorem append_singleton_eq_some {as : List α} {a : α} {s' : σ} :
    (as ++ [a]).foldlM step start = some s' ↔
      ∃ s, as.foldlM step start = some s ∧ step s a = some s' := by
  simp only [List.foldlM_append, List.foldlM_cons, List.foldlM_nil, bind_pure, Option.bind_eq_bind,
    Option.bind_eq_some_iff]

/-- The last action of a prefix is one of the run. -/
theorem mem_of_isPrefix {pre as : List α} {a : α} (h : pre ++ [a] <+: as) : a ∈ as :=
  h.subset (List.mem_append_right pre List.mem_cons_self)

/-- An invariant that every step of the run `as` keeps holds after every prefix of it. -/
theorem invariant_of_prefix {I : σ → Prop} {as : List α} (hstart : I start)
    (hstep : ∀ pre a s s', pre ++ [a] <+: as → pre.foldlM step start = some s → I s →
      step s a = some s' → I s')
    {pre : List α} (hpre : pre <+: as) {s : σ} (hrun : pre.foldlM step start = some s) : I s := by
  induction pre using List.reverseRecOn generalizing s with
  | nil =>
    obtain rfl : start = s := Option.some.inj hrun
    exact hstart
  | append_singleton pre a ih =>
    obtain ⟨s₀, hrun₀, hlast⟩ := append_singleton_eq_some.mp hrun
    have hinv : I s₀ := ih ((List.prefix_append pre [a]).trans hpre) hrun₀
    exact hstep pre a s₀ s hpre hrun₀ hinv hlast

/-- An invariant that the actions of a run keep holds in the state that the run ends in. -/
theorem invariant_of_mem {I : σ → Prop} {as : List α} (hstart : I start)
    (hstep : ∀ s a s', a ∈ as → I s → step s a = some s' → I s') {s : σ}
    (hrun : as.foldlM step start = some s) : I s := by
  apply invariant_of_prefix hstart _ List.prefix_rfl hrun
  intro pre a s₁ s₂ hpre _ hinv hlast
  exact hstep s₁ a s₂ (mem_of_isPrefix hpre) hinv hlast

/-- An invariant that every step keeps holds in every state that a run ends in. -/
theorem invariant {I : σ → Prop} (hstart : I start)
    (hstep : ∀ s a s', I s → step s a = some s' → I s') {as : List α} {s : σ}
    (hrun : as.foldlM step start = some s) : I s :=
  invariant_of_mem hstart (fun s a s' _ => hstep s a s') hrun

end CiliumMini.Run
