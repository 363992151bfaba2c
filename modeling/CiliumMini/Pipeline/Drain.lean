import CiliumMini.Pipeline.Refinement

/-!
# The pipeline drains

Between two items from the ring buffer the stages can only work off what is inside: every such step
brings one event closer to its end, and both queues are bounded, so 7000 steps are the most there
can be (`drains`). The stages never wait for each other in a circle: when none of them can move,
there is nothing left inside. All this is about a writer that could open its file; without one the
second queue only fills (`Lifecycle`).
-/

namespace CiliumMini

open Exec Run
open scoped List

/-- A step of the parser or the writer. The reader's steps bring in new items. -/
def Action.Internal : Action → Prop
  | .consume .. => False
  | _ => True

/-- The steps that the event in the parser's hands still has in front of it, at most. -/
def ParserPhase.weight : ParserPhase → ℕ
  | received _ => 4
  | parsed _ => 3
  | waiting | dead => 0

namespace Pipeline

variable {O : Type} {s s' : Pipeline O} {a : Action}

/-- The steps that the events inside still have in front of them, at most. -/
def work (s : Pipeline O) : ℕ :=
  5 * s.rawQueue.length + s.phase.weight + 2 * s.logQueue.length + s.writing.toList.length

/-- Only an event in the parser's hands has weight. -/
theorem weight_le (p : ParserPhase) : p.weight ≤ 4 * p.event?.toList.length := by
  cases p <;> simp [ParserPhase.weight, ParserPhase.event?]

/-- The queues bound what is left to do. -/
theorem Capacities.work_le (h : Capacities s) : s.work ≤ 7 * channelCapacity := by
  have hraw := h.raw
  have hlog := h.log
  have hweight := weight_le s.phase
  unfold work
  omega

variable [DnsObserver O]

/-- Every internal step brings an event closer to its end. -/
theorem work_move (ha : a.Internal) (h : Move s a s') : s'.work < s.work := by
  cases h <;> simp_all [work, Action.Internal, ParserPhase.weight] <;> omega

/-- Nothing is inside. -/
structure Drained (s : Pipeline O) : Prop where
  pending : s.pending = []
  logQueue : s.logQueue = []
  writing : s.writing = none

/-- The stages do not block each other: if none can move, nothing is inside. -/
theorem drained_of_stuck (hdead : s.phase ≠ .dead)
    (h : ∀ a : Action, a.Internal → s.step a = none) : Drained s := by
  have hwaiting : s.phase = .waiting := by
    cases hphase : s.phase with
    | waiting => rfl
    | received ev =>
      have hnone := h .observe trivial
      rw [step, hphase] at hnone
      rcases hrun : (ParserTask.observe ev).run s.task with ⟨⟨⟩ | e | _, t⟩ <;> simp [hrun] at hnone
    | parsed ev => exact absurd (h (.send .full) trivial) (by simp [step, hphase])
    | dead => exact absurd hphase hdead
  have hraw : s.rawQueue = [] := by
    cases hqueue : s.rawQueue with
    | nil => rfl
    | cons ev rest => exact absurd (h .receive trivial) (by simp [step, hwaiting, hqueue])
  have hwriting : s.writing = none := by
    cases hw : s.writing with
    | none => rfl
    | some m => exact absurd (h .write trivial) (by simp [step, hw])
  have hlog : s.logQueue = [] := by
    cases hqueue : s.logQueue with
    | nil => rfl
    | cons m rest => exact absurd (h .receiveLog trivial) (by simp [step, hwriting, hqueue])
  exact ⟨by rw [Pipeline.pending, hwaiting, hraw]; rfl, hlog, hwriting⟩

/-- Progress. From every state of every run, the parser and the writer can take at most 7000 steps
without a new item, in whatever order they take them; and when they cannot move any more, which some
such run reaches, nothing is left inside. -/
theorem drains (hcalm : DnsObserver.Calm O) (dnsObs : O) (actions : List Action) (s : Pipeline O)
    (hbounded : ∀ a ∈ actions, a.Bounded) (hrun : actions.foldlM step (start dnsObs) = some s) :
    (∀ (more : List Action) (s' : Pipeline O), (∀ a ∈ more, a.Internal) →
        more.foldlM step s = some s' →
        more.length ≤ 7 * channelCapacity ∧
          ((∀ a : Action, a.Internal → s'.step a = none) → Drained s')) ∧
      ∃ (more : List Action) (s' : Pipeline O),
        (∀ a ∈ more, a.Internal) ∧ more.foldlM step s = some s' ∧ Drained s' := by
  have hlower : ∀ (s : Pipeline O) (a : Action) (s' : Pipeline O), a.Internal →
      s.step a = some s' → s'.work < s.work :=
    fun s a s' ha hstep => work_move ha (step_move hstep)
  have hinternal : ∀ a : Action, a.Internal → a.Bounded := by
    intro a ha
    cases a <;> trivial
  have halive : ∀ (more : List Action) (s' : Pipeline O), (∀ a ∈ more, a.Internal) →
      more.foldlM step s = some s' → Alive s' := by
    intro more s' hmore hrun'
    have hwhole := foldlM_append_eq_some.mpr ⟨s, hrun, hrun'⟩
    refine (alive_of_run hcalm ?_ hwhole).1
    intro a ha
    rcases List.mem_append.mp ha with ha | ha
    · exact hbounded a ha
    · exact hinternal a (hmore a ha)
  -- the measure bounds the steps, and a run that uses it up ends where nothing is inside
  refine ⟨fun more s' hmore hrun' => ⟨?_, fun hstuck => ?_⟩, ?_⟩
  · have hlength := length_le_of_decreases hlower hmore hrun'
    have hwork := (alive_of_run hcalm hbounded hrun).2.work_le
    omega
  · exact drained_of_stuck (halive more s' hmore hrun').notDead hstuck
  · obtain ⟨more, s', hmore, hrun', hstuck⟩ := exists_run_to_stuck hlower s
    exact ⟨more, s', hmore, hrun', drained_of_stuck (halive more s' hmore hrun').notDead hstuck⟩

theorem drains_example :
    ∃ s, exampleRun.foldlM step (start policyForA) = some s ∧ s.logQueue.length = 1 ∧
      ∃ (more : List Action) (s' : Pipeline FqdnPolicyEngine),
        (∀ a ∈ more, a.Internal) ∧ more.foldlM step s = some s' ∧ Drained s' := by
  obtain ⟨s, hs, -, hqueue, -⟩ := exampleRun_runs
  exact ⟨s, hs, hqueue,
    (drains FqdnPolicyEngine.calm policyForA exampleRun s exampleRun_bounded hs).2⟩

end Pipeline

end CiliumMini
