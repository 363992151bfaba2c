import CiliumMini.Host.EndToEnd

/-!
# The host settles

When no more packets arrive, the stages work off what is on its way, whatever their order: every
step brings an item, an event, a message or a slice closer to its end, also one that drops it. What
was once sent to the writer is then in the file or in its buffer, unless a write fails (`settles`).
The log file could be opened; without a writer the second queue stays as it is.
-/

namespace CiliumMini

open Exec Run
open scoped List

/-- A step that is not the arrival of a packet. -/
def HostAction.Internal : HostAction → Prop
  | .packet .. => False
  | _ => True

/-- The step is not a failed write either. -/
def HostAction.Orderly : HostAction → Prop
  | .packet .. | .writeError _ => False
  | _ => True

/-- An orderly step is one without a packet. -/
theorem HostAction.Orderly.internal {a : HostAction} (h : a.Orderly) : a.Internal := by
  cases a with
  | packet => exact h
  | _ => trivial

/-! ## What is left to do -/

namespace LogProcess

variable {prost : Prost} {cap : ℕ} {p p' : LogProcess}

/-- The moves that the slices at hand need, at most: a slice for which there is no room is put
behind a flush. -/
def moves (cap : ℕ) (p : LogProcess) : ℕ :=
  match p.todo with
  | [] => 0
  | s :: rest => (if p.writer.Ready cap s then 1 else 2) + 2 * rest.length

/-- Each slice needs two moves at most. -/
theorem moves_le (p : LogProcess) (cap : ℕ) : p.moves cap ≤ 2 * p.todo.length := by
  unfold moves
  cases p.todo with
  | nil => exact Nat.zero_le _
  | cons s rest =>
    simp only [List.length_cons]
    split <;> omega

/-- A move of the buffered writer is one of those. -/
theorem moves_advance (h : p.step prost cap .advance = some p') : p'.moves cap < p.moves cap := by
  cases step_move h with
  | @put s rest htodo hready =>
    have hrest : moves cap { p with writer := p.writer.put cap s, todo := rest } ≤
        2 * rest.length := moves_le _ _
    have hp : p.moves cap = 1 + 2 * rest.length := by
      simp only [moves, htodo, if_pos hready]
    omega
  | @flush s rest htodo hready =>
    have hp : p.moves cap = 2 + 2 * rest.length := by
      simp only [moves, htodo, if_neg hready]
    have hp' : moves cap { p with writer := p.writer.flushBuf } = 1 + 2 * rest.length := by
      simp only [moves, htodo, if_pos (BufWriter.ready_flushBuf cap p.writer s)]
    omega

end LogProcess

namespace Pipeline

variable {O : Type} [DnsObserver O] {s s' : Pipeline O} {a : Action}

/-- The events and messages that the writer has not taken. -/
def untaken (s : Pipeline O) : ℕ :=
  s.rawQueue.length + s.phase.event?.toList.length + s.logQueue.length

/-- The parser only passes events on. -/
theorem untaken_le {a : ParserAction} (h : Move s a.action s') : s'.untaken ≤ s.untaken := by
  cases a with
  | receive =>
    cases h with
    | receive hphase hqueue => simp [untaken, hphase, hqueue, ParserPhase.event?]
  | observe =>
    cases h with
    | parsed hphase => simp [untaken, hphase, ParserPhase.event?]
    | rejected => simp [untaken, ParserPhase.event?]
    | died => simp [untaken, ParserPhase.event?]
  | send answer =>
    cases h with
    | sent hphase =>
      simp only [untaken, hphase, ParserPhase.event?, List.length_append, Option.toList]
      simp only [List.length_cons, List.length_nil]
      omega
    | logFull => simp [untaken, ParserPhase.event?]

/-- Unless a write fails, what was sent stays sent. -/
theorem sent_prefix (ha : a ≠ .writeError) (h : Move s a s') : s.sent <+: s'.sent := by
  cases h with
  | sent => exact ⟨[s.task.localDnsResponse], by simp [sent]⟩
  | receiveLog hwriting hqueue => simp [sent, hwriting, hqueue]
  | write hwriting => simp [sent, hwriting]
  | writeError => exact absurd rfl ha
  | _ => exact List.prefix_rfl

end Pipeline

namespace Host

variable {net : NetworkTypes} {prost : Prost} {cap : ℕ} {file : List UInt8}
  {domains : Finset String} {h h' : Host} {a : HostAction}

/-- The steps that everything on its way still has in front of it, at most: ten for an item in the
ring buffer, and four moves of the buffered writer for each message. -/
def work (cap : ℕ) (h : Host) : ℕ :=
  10 * h.ring.length + h.stages.work + 4 * h.stages.untaken + h.log.moves cap

/-- The writer takes one message at a time, in two slices. -/
def OneMessage (h : Host) : Prop := h.log.todo.length ≤ 2 * h.stages.writing.toList.length

/-- Every step without a packet brings something closer to its end. -/
theorem work_move (ha : a.Internal) (hmove : Move net prost cap h a h') :
    h'.work cap < h.work cap := by
  cases hmove with
  | packet => exact ha.elim
  | @consume answer item ring stages hring hstages =>
    -- an item costs ten, and its event needs five steps and one place, which counts four
    have hgrows : stages.work ≤ h.stages.work + 5 ∧ stages.untaken ≤ h.stages.untaken + 1 := by
      cases Pipeline.step_move hstages with
      | enqueue =>
        simp only [Pipeline.work, Pipeline.untaken, List.length_append, List.length_singleton]
        exact ⟨by omega, by omega⟩
      | _ => exact ⟨Nat.le_add_right _ _, Nat.le_add_right _ _⟩
    simp only [work, hring, List.length_cons]
    omega
  | @parser a stages hstages =>
    have hwork : stages.work < h.stages.work :=
      Pipeline.work_move (by cases a <;> trivial) (Pipeline.step_move hstages)
    have huntaken := Pipeline.untaken_le (Pipeline.step_move hstages)
    simp only [work]
    omega
  | @receiveLog m rest log hwriting hqueue hlog =>
    -- the two slices of a message, two moves each
    have hmoves : log.moves cap ≤ 4 := by
      have hle := log.moves_le cap
      cases LogProcess.step_move hlog with
      | receive => exact hle
    simp only [work, Pipeline.work, Pipeline.untaken, hwriting, hqueue, List.length_cons,
      Option.toList_some, Option.toList_none, List.length_nil]
    omega
  | advance hlog =>
    have hmoves := LogProcess.moves_advance hlog
    simp only [work]
    omega
  | write htodo hwriting =>
    simp only [work, Pipeline.work, Pipeline.untaken, hwriting, Option.toList_some,
      Option.toList_none, List.length_cons, List.length_nil]
    omega
  | writeError hwriting =>
    -- the slices at hand are given up with the message
    simp only [work, Pipeline.work, Pipeline.untaken, LogProcess.moves, hwriting,
      Option.toList_some, Option.toList_none, List.length_cons, List.length_nil]
    omega

/-- The writer never has more than one message at hand. -/
theorem oneMessage_move (hi : OneMessage h) (hmove : Move net prost cap h a h') :
    OneMessage h' := by
  unfold OneMessage at hi ⊢
  cases hmove with
  | packet => exact hi
  | @consume answer item ring stages hring hstages =>
    cases Pipeline.step_move hstages <;> exact hi
  | parser hstages =>
    rw [(Pipeline.parser_frame hstages).2.1]
    exact hi
  | receiveLog hwriting hqueue hlog =>
    cases LogProcess.step_move hlog with
    | receive => exact Nat.le_refl 2
  | advance hlog =>
    cases LogProcess.step_move hlog with
    | put htodo =>
      rw [htodo, List.length_cons] at hi
      exact (Nat.le_succ _).trans hi
    | flush => exact hi
  | write htodo hwriting =>
    rw [htodo]
    exact Nat.zero_le _
  | writeError hwriting => exact Nat.zero_le _

/-- The ring buffer and the two queues bound what is left to do. -/
theorem work_le (cap : ℕ) (hi : OneMessage h) (hcap : h.stages.Capacities) :
    h.work cap ≤ 10 * h.ring.length + 15 * channelCapacity := by
  have hwork := hcap.work_le
  have hraw := hcap.raw
  have hlog := hcap.log
  have hmoves := h.log.moves_le cap
  unfold OneMessage at hi
  unfold work Pipeline.untaken
  omega

/-- Nothing is on its way. -/
structure Settled (h : Host) : Prop where
  ring : h.ring = []
  stages : h.stages.Drained
  todo : h.log.todo = []

/-- All that was sent is written. -/
theorem Settled.sent_eq (hsettled : Settled h) : h.stages.sent = h.stages.log := by
  rw [Pipeline.sent, hsettled.stages.writing, hsettled.stages.logQueue]
  exact List.append_nil _

/-- If no stage can move, nothing is on its way. -/
theorem settled_of_stuck (halive : h.stages.Alive)
    (hstuck : ∀ a : HostAction, a.Orderly → h.step net prost cap a = none) : Settled h := by
  have hparser : ∀ a : ParserAction, h.stages.step a.action = none := fun a =>
    Option.map_eq_none_iff.mp (hstuck (.parser a) trivial)
  -- a slice at hand can be put or flushed, and a message without one is written
  have htodo : h.log.todo = [] := by
    cases htodo : h.log.todo with
    | nil => rfl
    | cons s rest =>
      have hnone := Option.map_eq_none_iff.mp (hstuck .advance trivial)
      simp only [LogProcess.step, htodo] at hnone
      split at hnone <;> exact absurd hnone (by simp)
  have hwriting : h.stages.writing = none := by
    cases hwriting : h.stages.writing with
    | none => rfl
    | some m =>
      exact absurd (hstuck .write trivial) (by simp [step, htodo, Pipeline.step, hwriting])
  have hqueue : h.stages.logQueue = [] := by
    cases hqueue : h.stages.logQueue with
    | nil => rfl
    | cons m rest =>
      exact absurd (hstuck .receiveLog trivial)
        (by simp [step, Pipeline.step, LogProcess.step, hwriting, hqueue, htodo])
  have hring : h.ring = [] := by
    cases hring : h.ring with
    | nil => rfl
    | cons item ring =>
      -- the reader can always take an item and drop it
      have hnone := hstuck (.consume .full) trivial
      simp only [step, hring, Option.map_eq_none_iff, Pipeline.step, Pipeline.consume] at hnone
      split at hnone <;> exact absurd hnone (by simp)
  refine ⟨hring, Pipeline.drained_of_stuck halive.notDead ?_, htodo⟩
  intro a ha
  cases a with
  | consume item answer => exact ha.elim
  | receive => exact hparser .receive
  | observe => exact hparser .observe
  | send answer => exact hparser (.send answer)
  | receiveLog => simp [Pipeline.step, hwriting, hqueue]
  | write => simp [Pipeline.step, hwriting]
  | writeError => simp [Pipeline.step, hwriting]

/-- With nothing on its way, no stage can move. -/
theorem Settled.stuck (hsettled : Settled h) (ha : a.Internal) : h.step net prost cap a = none := by
  have hwriting := hsettled.stages.writing
  obtain ⟨hqueue, hphase⟩ := Pipeline.waiting_of_pending_eq_nil hsettled.stages.pending
  cases a with
  | packet => exact ha.elim
  | consume answer => simp [step, hsettled.ring]
  | parser a =>
    rcases hphase with hwaiting | hdead
    · cases a <;> simp [step, ParserAction.action, Pipeline.step, hwaiting, hqueue]
    · cases a <;> simp [step, ParserAction.action, Pipeline.step, hdead]
  | receiveLog => simp [step, Pipeline.step, hwriting, hsettled.stages.logQueue]
  | advance => simp [step, LogProcess.step, hsettled.todo]
  | write => simp [step, Pipeline.step, hwriting]
  | writeError n => simp [step, LogProcess.fail, hsettled.todo]

/-- Unless a write fails, what was sent stays sent. -/
theorem sent_move (ha : ∀ n, a ≠ .writeError n) (hmove : Move net prost cap h a h') :
    h.stages.sent <+: h'.stages.sent := by
  cases hmove with
  | packet => exact List.prefix_rfl
  | consume hring hstages => exact Pipeline.sent_prefix (by simp) (Pipeline.step_move hstages)
  | @parser a stages hstages =>
    exact Pipeline.sent_prefix (by cases a <;> simp [ParserAction.action])
      (Pipeline.step_move hstages)
  | receiveLog hwriting hqueue => exact Pipeline.sent_prefix (by simp) (.receiveLog hwriting hqueue)
  | advance => exact List.prefix_rfl
  | write htodo hwriting => exact Pipeline.sent_prefix (by simp) (.write hwriting)
  | writeError => exact absurd rfl (ha _)

/-- The same for a run. -/
theorem sent_run {more : List HostAction} (hwrite : ∀ n, .writeError n ∉ more)
    (hrun : more.foldlM (step net prost cap) h = some h') : h.stages.sent <+: h'.stages.sent := by
  refine invariant_of_mem (I := fun h' => h.stages.sent <+: h'.stages.sent) List.prefix_rfl ?_ hrun
  intro h₁ a h₂ ha hi hstep
  refine hi.trans (sent_move ?_ (step_move hstep))
  rintro n rfl
  exact hwrite n ha

/-- Every step without a packet uses up some of the work. -/
theorem work_step (net : NetworkTypes) (prost : Prost) (cap : ℕ) (h : Host) (a : HostAction)
    (h' : Host) (ha : a.Internal) (hstep : h.step net prost cap a = some h') :
    h'.work cap < h.work cap :=
  work_move ha (step_move hstep)

/-- The parser lives on, and neither queue holds more than its slots. -/
theorem alive_of_run {actions : List HostAction}
    (hrun : actions.foldlM (step net prost cap) (start file domains) = some h) :
    h.stages.Alive ∧ h.stages.Capacities := by
  obtain ⟨-, run, hbounded, -, hstages⟩ := inv_of_any_run hrun
  exact Pipeline.alive_of_run FqdnPolicyEngine.calm hbounded hstages

/-- A run can be continued, without a failed write, to a state with nothing on its way. -/
theorem exists_settled {actions : List HostAction}
    (hrun : actions.foldlM (step net prost cap) (start file domains) = some h) :
    ∃ (more : List HostAction) (h' : Host), (∀ a ∈ more, a.Orderly) ∧
      more.foldlM (step net prost cap) h = some h' ∧ Settled h' := by
  obtain ⟨more, h', hmore, hrun', hstuck⟩ := exists_run_to_stuck
    (fun h a h' (ha : a.Orderly) => work_step net prost cap h a h' ha.internal) h
  have halive := (alive_of_run (foldlM_append_eq_some.mpr ⟨h, hrun, hrun'⟩)).1
  exact ⟨more, h', hmore, hrun', settled_of_stuck halive hstuck⟩

/-- Progress of the whole host. From every state of every run, the stages can take a bounded number
of steps without a new packet, in whatever order they take them and whichever writes fail. When none
of them can move, which some such run without a failed write reaches, nothing is on its way. If no
write failed behind the state, all that had been sent is written; and if none failed at all and the
old file held whole frames, file and buffer together are read back as the records of the old file
and then everything that was written. -/
theorem settles (net : NetworkTypes) (prost : Prost) (cap : ℕ) (file : List UInt8)
    (domains : Finset String) (actions : List HostAction) (h : Host)
    (hrun : actions.foldlM (step net prost cap) (start file domains) = some h) :
    (∀ (more : List HostAction) (h' : Host), (∀ a ∈ more, a.Internal) →
        more.foldlM (step net prost cap) h = some h' →
        more.length ≤ 10 * h.ring.length + 15 * channelCapacity ∧
          ((∀ a : HostAction, a.Internal → h'.step net prost cap a = none) →
            Settled h' ∧
              ((∀ n, .writeError n ∉ more) → h.stages.sent <+: h'.stages.log) ∧
              ((deframe file).2 = [] → (∀ n, .writeError n ∉ actions ++ more) →
                deframe h'.log.writer.contents =
                  ((deframe file).1 ++ h'.stages.log.map prost.encode, [])))) ∧
      ∃ (more : List HostAction) (h' : Host), (∀ a ∈ more, a.Orderly) ∧
        more.foldlM (step net prost cap) h = some h' ∧
        ∀ a : HostAction, a.Internal → h'.step net prost cap a = none := by
  refine ⟨fun more h' hmore hrun' => ⟨?_, fun hstuck => ?_⟩, ?_⟩
  · have hone : OneMessage h := by
      refine invariant (I := OneMessage) (Nat.zero_le _) ?_ hrun
      intro h₁ a h₂ hi hstep
      exact oneMessage_move hi (step_move hstep)
    have hwork := work_le cap hone (alive_of_run hrun).2
    have hlength := length_le_of_decreases (work_step _ _ _) hmore hrun'
    omega
  · have hwhole := foldlM_append_eq_some.mpr ⟨h, hrun, hrun'⟩
    have hsettled := settled_of_stuck (alive_of_run hwhole).1 fun a ha => hstuck a ha.internal
    refine ⟨hsettled, fun hwrite => ?_, fun hframes hwrite => ?_⟩
    · rw [← hsettled.sent_eq]
      exact sent_run hwrite hrun'
    · exact (filed_of_run hwrite hwhole).read_back hframes hsettled.stages.writing
  · obtain ⟨more, h', hmore, hrun', hsettled⟩ := exists_settled hrun
    exact ⟨more, h', hmore, hrun', fun a ha => hsettled.stuck ha⟩

/-- The message is sent and not yet taken. -/
theorem halfJourney_runs :
    ∃ h, (exampleJourney.take 6).foldlM (step .standard .proto3 2) (start [] {"a"}) = some h ∧
      h.stages.sent.length = 1 := by
  have hrun : (((exampleJourney.take 6).foldlM (step .standard .proto3 2) (start [] {"a"})).map
      fun h => h.stages.sent.length) = some 1 := by
    decide +kernel
  exact Option.map_eq_some_iff.mp hrun

/-- A message in the second queue comes to the file or to its buffer. -/
theorem settles_example :
    ∃ h, (exampleJourney.take 6).foldlM (step .standard .proto3 2) (start [] {"a"}) = some h ∧
      h.stages.sent.length = 1 ∧ ∃ (more : List HostAction) (h' : Host),
        more.foldlM (step .standard .proto3 2) h = some h' ∧ Settled h' ∧
        h.stages.sent <+: h'.stages.log ∧
        (deframe h'.log.writer.contents).1 = h'.stages.log.map Prost.proto3.encode := by
  obtain ⟨h, hh, hsent⟩ := halfJourney_runs
  obtain ⟨hall, more, h', hmore, hrun', hstuck⟩ :=
    settles .standard .proto3 2 [] {"a"} (exampleJourney.take 6) h hh
  have hwrite : ∀ n, .writeError n ∉ more := fun n hn => hmore _ hn
  obtain ⟨hsettled, hkept, hread⟩ :=
    (hall more h' (fun a ha => (hmore a ha).internal) hrun').2 hstuck
  refine ⟨h, hh, hsent, more, h', hrun', hsettled, hkept hwrite, ?_⟩
  refine congrArg Prod.fst (hread rfl fun n hn => ?_)
  rcases List.mem_append.mp hn with hn | hn
  · simp [exampleJourney] at hn
  · exact hwrite n hn

end Host

end CiliumMini
