import CiliumMini.Pipeline.Observer

/-!
# How the stages start and end

Reference: `assembly_processing_topology` and the three `spawn_` functions in
`cilium-mini-rs/src/topology.rs`.

The writer thread first opens its file. If that fails, `expect` ends the thread, but nobody learns
of it: the channels are those of a third-party crate, and an end that is dropped by a panic does not
close its channel. The reader, the parser and the observer go on as they would with a file, and the
second queue fills (`goes_on_without_file`).

A task that returns, or that the runtime drops at an `await`, does close its channels. The writer
then works off what is queued and flushes, so every message that was sent is written
(`orderly_end`). The parser is at an `await` only while it waits for an event. Nothing waits for the
writer: when the process ends first, the run just stops.
-/

namespace CiliumMini

open Exec Run
open scoped List

/-- Where the writer thread is. -/
inductive FileWriter where
  /-- before `open` has returned -/
  | opening
  /-- in the `while` loop -/
  | running
  /-- ended by `expect` -/
  | panicked
  /-- behind the final flush -/
  | finished
deriving DecidableEq

/-- The three stages, which of the two tasks have closed their channels, and where the writer is. -/
structure Daemon (O : Type) where
  pipe : Pipeline O
  readerGone : Bool
  parserGone : Bool
  writer : FileWriter

/-- One step of the daemon. -/
inductive DaemonAction where
  /-- `open` returns, with or without a file -/
  | openFile (ok : Bool)
  /-- a step of one of the stages -/
  | stage (a : Action)
  /-- the runtime drops the reader's task -/
  | dropReader
  /-- the reader takes an event, gets `Closed` for an answer, and returns -/
  | readerReturns (item : List UInt8)
  /-- at `recv_ref`, the runtime drops the parser's task, or the first channel is closed and empty
  -/
  | parserEnds
  /-- `recv_ref` finds the second channel closed and empty, and the writer flushes -/
  | finish

namespace Daemon

variable {O : Type}

/-- The daemon when its stages are spawned. -/
def start (dnsObs : O) : Daemon O := ⟨.start dnsObs, false, false, .opening⟩

/-- The stage is there to take the step, and no channel that it sends to is closed. -/
def Enabled (s : Daemon O) : Action → Prop
  | .consume item _ => s.readerGone = false ∧ (s.parserGone = false ∨ eventOf item = none)
  | .receive | .observe | .send _ => s.parserGone = false
  | .receiveLog | .write | .writeError => s.writer = .running

instance (s : Daemon O) : (a : Action) → Decidable (s.Enabled a)
  | .consume .. => inferInstanceAs (Decidable (_ ∧ _))
  | .receive | .observe | .send _ => inferInstanceAs (Decidable (_ = _))
  | .receiveLog | .write | .writeError => inferInstanceAs (Decidable (_ = _))

variable [DnsObserver O]

/-- One step; `none` if it is not possible now. -/
def step (s : Daemon O) : DaemonAction → Option (Daemon O)
  | .openFile ok =>
    if s.writer = .opening then some { s with writer := if ok then .running else .panicked }
    else none
  | .stage a => if s.Enabled a then (s.pipe.step a).map fun pipe => { s with pipe } else none
  | .dropReader => some { s with readerGone := true }
  | .readerReturns item =>
    if s.readerGone = false ∧ s.parserGone = true ∧ (eventOf item).isSome then
      some { s with
        pipe := { s.pipe with consumed := s.pipe.consumed ++ [item] }, readerGone := true }
    else none
  | .parserEnds =>
    if s.pipe.phase = .waiting then some { s with parserGone := true } else none
  | .finish =>
    if s.writer = .running ∧ s.parserGone = true ∧ s.pipe.logQueue = [] ∧ s.pipe.writing = none then
      some { s with writer := .finished }
    else none

/-- The outcomes of a step. -/
inductive Move (s : Daemon O) : DaemonAction → Daemon O → Prop
  | opened (h : s.writer = .opening) : Move s (.openFile true) { s with writer := .running }
  | notOpened (h : s.writer = .opening) : Move s (.openFile false) { s with writer := .panicked }
  | stage {a : Action} {pipe : Pipeline O} (henabled : s.Enabled a) (hpipe : s.pipe.Move a pipe) :
      Move s (.stage a) { s with pipe }
  | dropReader : Move s .dropReader { s with readerGone := true }
  | readerReturns {item : List UInt8} :
      Move s (.readerReturns item) { s with
        pipe := { s.pipe with consumed := s.pipe.consumed ++ [item] }, readerGone := true }
  | parserEnds (hphase : s.pipe.phase = .waiting) :
      Move s .parserEnds { s with parserGone := true }
  | finish (hrunning : s.writer = .running) (hgone : s.parserGone = true)
      (hqueue : s.pipe.logQueue = []) (hwriting : s.pipe.writing = none) :
      Move s .finish { s with writer := .finished }

variable {s s' : Daemon O} {a : DaemonAction}

/-- Every step is one of the moves. -/
theorem step_move (h : s.step a = some s') : Move s a s' := by
  cases a with
  | openFile ok =>
    simp only [step] at h
    split at h
    · rename_i hopening
      obtain rfl := Option.some.inj h
      cases ok
      · exact .notOpened hopening
      · exact .opened hopening
    · exact absurd h (by simp)
  | stage b =>
    simp only [step] at h
    split at h
    · rename_i henabled
      obtain ⟨pipe, hpipe, rfl⟩ := Option.map_eq_some_iff.mp h
      exact .stage henabled (Pipeline.step_move hpipe)
    · exact absurd h (by simp)
  | dropReader =>
    obtain rfl := Option.some.inj h
    exact .dropReader
  | readerReturns item =>
    simp only [step] at h
    split at h
    · obtain rfl := Option.some.inj h
      exact .readerReturns
    · exact absurd h (by simp)
  | parserEnds =>
    simp only [step] at h
    split at h
    · rename_i hphase
      obtain rfl := Option.some.inj h
      exact .parserEnds hphase
    · exact absurd h (by simp)
  | finish =>
    simp only [step] at h
    split at h
    · rename_i hguard
      obtain rfl := Option.some.inj h
      exact .finish hguard.1 hguard.2.1 hguard.2.2.1 hguard.2.2.2
    · exact absurd h (by simp)

/-- The message that a step puts into the second queue. -/
def sentBy (s : Daemon O) : DaemonAction → List DnsResponse
  | .stage (.send (.slot _)) => [s.pipe.task.localDnsResponse]
  | _ => []

/-- The messages that a run from the start puts into the second queue. -/
def sentIn (dnsObs : O) (actions : List DaemonAction) : List DnsResponse :=
  trace step sentBy (start dnsObs) actions

/-! ## What every run keeps -/

/-- The parser has closed its channel only while it waited, and the writer finishes only behind
that, with nothing left. -/
structure Ended (s : Daemon O) : Prop where
  waiting : s.parserGone = true → s.pipe.phase = .waiting
  finished : s.writer = .finished →
    s.parserGone = true ∧ s.pipe.logQueue = [] ∧ s.pipe.writing = none

omit [DnsObserver O] in
/-- A step of the parser needs a parser that is still there, so the writer has not finished. -/
theorem Ended.parser (hi : Ended s) (hgone : s.parserGone = false) {pipe : Pipeline O} :
    Ended { s with pipe } := by
  refine ⟨fun hgone' => ?_, fun hfinished => ?_⟩
  · exact absurd (hgone.symm.trans hgone') (by simp)
  · exact absurd (hgone.symm.trans (hi.finished hfinished).1) (by simp)

omit [DnsObserver O] in
/-- A step of the writer leaves the parser where it is. -/
theorem Ended.writer (hi : Ended s) (hrunning : s.writer = .running) {pipe : Pipeline O}
    (hphase : pipe.phase = s.pipe.phase) : Ended { s with pipe } := by
  refine ⟨fun hgone => hphase.trans (hi.waiting hgone), fun hfinished => ?_⟩
  exact absurd (hrunning.symm.trans hfinished) (by simp)

/-- Every move keeps this. -/
theorem Ended.move (hi : Ended s) (h : Move s a s') : Ended s' := by
  cases h with
  | opened => exact ⟨hi.waiting, by simp⟩
  | notOpened => exact ⟨hi.waiting, by simp⟩
  | dropReader => exact ⟨hi.waiting, hi.finished⟩
  | readerReturns => exact ⟨hi.waiting, hi.finished⟩
  | parserEnds hphase =>
    exact ⟨fun _ => hphase, fun hfinished => ⟨rfl, (hi.finished hfinished).2⟩⟩
  | finish hrunning hgone hqueue hwriting =>
    exact ⟨hi.waiting, fun _ => ⟨hgone, hqueue, hwriting⟩⟩
  | @stage b pipe henabled hpipe =>
    cases hpipe with
    | skip => exact ⟨hi.waiting, hi.finished⟩
    | enqueue => exact ⟨hi.waiting, hi.finished⟩
    | rawFull => exact ⟨hi.waiting, hi.finished⟩
    | receive => exact hi.parser henabled
    | parsed => exact hi.parser henabled
    | rejected => exact hi.parser henabled
    | died => exact hi.parser henabled
    | sent => exact hi.parser henabled
    | logFull => exact hi.parser henabled
    | receiveLog => exact hi.writer henabled rfl
    | write => exact hi.writer henabled rfl
    | writeError => exact hi.writer henabled rfl

/-- The queues keep their size. -/
theorem capacities_move (hi : s.pipe.Capacities) (h : Move s a s') : s'.pipe.Capacities := by
  cases h with
  | stage henabled hpipe => exact hi.move hpipe
  | readerReturns => exact ⟨hi.raw, hi.log⟩
  | _ => exact hi

/-- In every state of every run. -/
theorem ended_of_run {dnsObs : O} {actions : List DaemonAction}
    (hrun : actions.foldlM step (start dnsObs) = some s) : Ended s ∧ s.pipe.Capacities := by
  refine invariant (I := fun s => Ended s ∧ s.pipe.Capacities) ?_ ?_ hrun
  · exact ⟨⟨by simp [start], by simp [start]⟩, Pipeline.capacities_start dnsObs⟩
  · intro s a s' hi hstep
    exact ⟨hi.1.move (step_move hstep), capacities_move hi.2 (step_move hstep)⟩

/-- What a step does to the messages that were sent: it puts its own behind them. Only a failed
write takes one away. -/
theorem sent_move (ha : a ≠ .stage .writeError) (h : Move s a s') :
    s'.pipe.sent = s.pipe.sent ++ sentBy s a := by
  cases h with
  | stage henabled hpipe =>
    cases hpipe with
    | sent => simp [Pipeline.sent, sentBy]
    | receiveLog hwriting hqueue => simp [Pipeline.sent, sentBy, hwriting, hqueue]
    | write hwriting => simp [Pipeline.sent, sentBy, hwriting]
    | writeError => exact absurd rfl ha
    | _ => simp [Pipeline.sent, sentBy]
  | _ => simp [Pipeline.sent, sentBy]

/-- As long as the file is not open, what was sent stays in the queue. -/
structure Unopened (s : Daemon O) (ms : List DnsResponse) : Prop where
  log : s.pipe.log = []
  writing : s.pipe.writing = none
  logQueue : s.pipe.logQueue = ms

omit [DnsObserver O] in
/-- A step that sends nothing and leaves the writer's side as it is. -/
theorem Unopened.frame {ms : List DnsResponse} (hi : Unopened s ms) (hsent : sentBy s a = [])
    (hlog : s'.pipe.log = s.pipe.log) (hwriting : s'.pipe.writing = s.pipe.writing)
    (hqueue : s'.pipe.logQueue = s.pipe.logQueue) : Unopened s' (ms ++ sentBy s a) := by
  rw [hsent, List.append_nil]
  exact ⟨hlog.trans hi.log, hwriting.trans hi.writing, hqueue.trans hi.logQueue⟩

/-- Every move keeps this until the file is open. -/
theorem Unopened.move {ms : List DnsResponse}
    (hi : s.writer = .opening ∨ s.writer = .panicked → Unopened s ms) (h : Move s a s')
    (hwriter : s'.writer = .opening ∨ s'.writer = .panicked) : Unopened s' (ms ++ sentBy s a) := by
  cases h with
  | opened => simp at hwriter
  | notOpened hopening => exact (hi (.inl hopening)).frame rfl rfl rfl rfl
  | dropReader => exact (hi hwriter).frame rfl rfl rfl rfl
  | readerReturns => exact (hi hwriter).frame rfl rfl rfl rfl
  | parserEnds => exact (hi hwriter).frame rfl rfl rfl rfl
  | finish => simp at hwriter
  | @stage b pipe henabled hpipe =>
    -- without a file the writer is not in its loop, so none of its steps is possible
    have hidle : s.writer ≠ .running := by
      rcases hwriter with h | h <;> simp [show s.writer = _ from h]
    cases hpipe with
    | @sent ev old =>
      obtain ⟨hlog, hwriting, hqueue⟩ := hi hwriter
      exact ⟨hlog, hwriting, congrArg (· ++ [s.pipe.task.localDnsResponse]) hqueue⟩
    | receiveLog => exact absurd henabled hidle
    | write => exact absurd henabled hidle
    | writeError => exact absurd henabled hidle
    | _ => exact (hi hwriter).frame rfl rfl rfl rfl

end Daemon

/-- What a step is to the reader and the parser: a step of the writer is nothing, and the answer of
the second queue is left out. -/
def Action.front : Action → List Action
  | .receiveLog | .write | .writeError => []
  | .send _ => [.send .full]
  | a => [a]

/-- The same for a step of the daemon. -/
def DaemonAction.front : DaemonAction → List Action
  | .stage a => a.front
  | _ => []

/-- The parser's step is the same whatever the reused response holds. -/
theorem ParserTask.observe_congr {O : Type} [DnsObserver O] {t t' : ParserTask O}
    (h : t.dnsObs = t'.dnsObs) (ev : RawDnsEvent) :
    (observe ev).run t = (observe ev).run t' := by
  -- parsing overwrites the response before anything reads it
  have hsame : ∀ m, { t with localDnsResponse := m } = { t' with localDnsResponse := m } := by
    intro m
    rw [h]
  rw [observe, run_bind, run_bind, parseLocal_run, parseLocal_run, hsame]

namespace Daemon

variable {O : Type} [DnsObserver O]

/-- The daemon has no file, and its reader, parser and observer are where those of the pipeline are.
-/
structure Behind (p : Pipeline O) (s : Daemon O) : Prop where
  panicked : s.writer = .panicked
  reader : s.readerGone = false
  parser : s.parserGone = false
  consumed : s.pipe.consumed = p.consumed
  rawQueue : s.pipe.rawQueue = p.rawQueue
  phase : s.pipe.phase = p.phase
  dnsObs : s.pipe.task.dnsObs = p.task.dnsObs

/-- A step of the pipeline is matched by one of the daemon's stages. -/
theorem Behind.follow {p' : Pipeline O} {s : Daemon O} {a b : Action} {pipe : Pipeline O}
    (hmove : s.pipe.Move b pipe) (henabled : s.Enabled b) (hfront : b.front = a.front)
    (hR : Behind p' { s with pipe }) :
    ∃ bs t, bs.foldlM step s = some t ∧ Behind p' t ∧
      trace step (fun _ a => DaemonAction.front a) s bs = a.front := by
  rw [← hfront]
  refine match_one (b := DaemonAction.stage b) ?_ hR
  simp only [step, if_pos henabled, hmove.step_eq, Option.map_some]

/-- Every step of the pipeline is one of the daemon without a file, or one of the writer. -/
theorem simulation_without_file :
    Simulation (Pipeline.step (O := O)) (fun _ a => a.front) step
      (fun _ a => DaemonAction.front a) (fun _ => True) Behind where
  matched := by
    intro p p' s a _ hR hstep
    obtain ⟨hwriter, hreader, hparser, hconsumed, hraw, hphase, hobs⟩ := hR
    cases Pipeline.step_move hstep with
    | receiveLog => exact match_none ⟨hwriter, hreader, hparser, hconsumed, hraw, hphase, hobs⟩
    | write => exact match_none ⟨hwriter, hreader, hparser, hconsumed, hraw, hphase, hobs⟩
    | writeError => exact match_none ⟨hwriter, hreader, hparser, hconsumed, hraw, hphase, hobs⟩
    | @skip item answer hitem =>
      have hskip : s.pipe.Move (.consume item answer)
          { s.pipe with consumed := s.pipe.consumed ++ [item] } := .skip hitem
      refine Behind.follow hskip ⟨hreader, .inl hparser⟩ rfl ?_
      exact ⟨hwriter, hreader, hparser, by rw [hconsumed], hraw, hphase, hobs⟩
    | enqueue hitem hroom =>
      have hroom' : s.pipe.rawRoom := by
        rw [Pipeline.rawRoom, hraw, hphase]
        exact hroom
      refine Behind.follow (.enqueue hitem hroom') ⟨hreader, .inl hparser⟩ rfl ?_
      exact ⟨hwriter, hreader, hparser, by rw [hconsumed], by rw [hraw], hphase, hobs⟩
    | rawFull hitem =>
      refine Behind.follow (.rawFull hitem) ⟨hreader, .inl hparser⟩ rfl ?_
      exact ⟨hwriter, hreader, hparser, by rw [hconsumed], hraw, hphase, hobs⟩
    | receive hwaiting hqueue =>
      refine Behind.follow (.receive (hphase.trans hwaiting) (hraw.trans hqueue)) hparser rfl ?_
      exact ⟨hwriter, hreader, hparser, hconsumed, rfl, rfl, hobs⟩
    | parsed hreceived hobserve =>
      rw [← ParserTask.observe_congr hobs] at hobserve
      refine Behind.follow (.parsed (hphase.trans hreceived) hobserve) hparser rfl ?_
      exact ⟨hwriter, hreader, hparser, hconsumed, hraw, rfl, rfl⟩
    | rejected hreceived hobserve =>
      rw [← ParserTask.observe_congr hobs] at hobserve
      refine Behind.follow (.rejected (hphase.trans hreceived) hobserve) hparser rfl ?_
      exact ⟨hwriter, hreader, hparser, hconsumed, hraw, rfl, rfl⟩
    | died hreceived hobserve =>
      rw [← ParserTask.observe_congr hobs] at hobserve
      refine Behind.follow (.died (hphase.trans hreceived) hobserve) hparser rfl ?_
      exact ⟨hwriter, hreader, hparser, hconsumed, hraw, rfl, rfl⟩
    | @sent ev old hparsed hroom =>
      -- nobody takes a message from the queue, so it can be full here and not there
      by_cases hroom' : s.pipe.logRoom
      · have hsent : s.pipe.Move (.send (.slot old)) _ := .sent (hphase.trans hparsed) hroom'
        refine Behind.follow hsent hparser rfl ?_
        exact ⟨hwriter, hreader, hparser, hconsumed, hraw, rfl, hobs⟩
      · refine Behind.follow (.logFull (hphase.trans hparsed)) hparser rfl ?_
        exact ⟨hwriter, hreader, hparser, hconsumed, hraw, rfl, hobs⟩
    | logFull hparsed =>
      refine Behind.follow (.logFull (hphase.trans hparsed)) hparser rfl ?_
      exact ⟨hwriter, hreader, hparser, hconsumed, hraw, rfl, hobs⟩

/-- A log file that cannot be opened costs the log and nothing else. In every run in which `open`
failed, nothing is ever written, and the messages that were sent stay in the second queue, in order
and at most 1000 of them. And whatever the reader and the parser can do with a file they can do
behind a failed `open`: every run of the pipeline is matched by one with the same steps of theirs,
but for the second queue's answers, which leads to the same events in the first queue, the same
place in the parser's loop and the same observer. -/
theorem goes_on_without_file (dnsObs : O) :
    (∀ (actions : List DaemonAction) (s : Daemon O),
        actions.foldlM step (start dnsObs) = some s → s.writer = .panicked →
        s.pipe.log = [] ∧ s.pipe.writing = none ∧ s.pipe.logQueue = sentIn dnsObs actions ∧
          s.pipe.logQueue.length ≤ channelCapacity) ∧
      ∀ (actions : List Action) (p : Pipeline O),
        actions.foldlM Pipeline.step (.start dnsObs) = some p →
        ∃ (more : List DaemonAction) (s : Daemon O),
          (.openFile false :: more).foldlM step (start dnsObs) = some s ∧
          more.flatMap DaemonAction.front = actions.flatMap Action.front ∧
          s.writer = .panicked ∧ s.pipe.consumed = p.consumed ∧ s.pipe.rawQueue = p.rawQueue ∧
          s.pipe.phase = p.phase ∧ s.pipe.task.dnsObs = p.task.dnsObs := by
  refine ⟨fun actions s hrun hwriter => ?_, fun actions p hrun => ?_⟩
  · have hunopened : Unopened s (sentIn dnsObs actions) := by
      show Unopened s (trace step sentBy (start dnsObs) actions)
      refine trace_invariant
        (I := fun s ms => s.writer = .opening ∨ s.writer = .panicked → Unopened s ms)
        (fun _ => ⟨rfl, rfl, rfl⟩) ?_ hrun (.inr hwriter)
      intro s₁ a s₂ ms hi hstep
      exact Unopened.move hi (step_move hstep)
    have hcap := (ended_of_run hrun).2.log
    exact ⟨hunopened.log, hunopened.writing, hunopened.logQueue, by omega⟩
  · let s₀ : Daemon O := { start dnsObs with writer := .panicked }
    have hopen : step (start dnsObs) (.openFile false) = some s₀ := rfl
    have hstart : Behind (.start dnsObs) s₀ := ⟨rfl, rfl, rfl, rfl, rfl, rfl, rfl⟩
    obtain ⟨more, s, hmore, hR, htrace⟩ :=
      simulation_without_file.run hstart (fun _ _ => trivial) hrun
    rw [trace_eq_flatMap hmore, trace_eq_flatMap hrun] at htrace
    exact ⟨more, s, foldlM_cons_eq_some.mpr ⟨s₀, hopen, hmore⟩, htrace, hR.panicked, hR.consumed,
      hR.rawQueue, hR.phase, hR.dnsObs⟩

/-- The example run without a file leaves the same keys in the map. -/
theorem goes_on_without_file_example :
    ∃ p, exampleRun.foldlM Pipeline.step (.start policyForA) = some p ∧
      p.task.dnsObs.allowedIpMap.keys.length = 2 ∧ ∃ (more : List DaemonAction)
        (s : Daemon FqdnPolicyEngine),
        (.openFile false :: more).foldlM step (start policyForA) = some s ∧ s.pipe.log = [] ∧
        s.pipe.task.dnsObs.allowedIpMap.keys = p.task.dnsObs.allowedIpMap.keys := by
  have hrun : ((exampleRun.foldlM Pipeline.step (.start policyForA)).map
      fun p => p.task.dnsObs.allowedIpMap.keys.length) = some 2 := by decide +kernel
  obtain ⟨p, hp, hkeys⟩ := Option.map_eq_some_iff.mp hrun
  obtain ⟨hnone, hmatch⟩ := goes_on_without_file policyForA
  obtain ⟨more, s, hs, -, hwriter, -, -, -, hobs⟩ := hmatch exampleRun p hp
  exact ⟨p, hp, hkeys, more, s, hs, (hnone _ s hs hwriter).1, by rw [hobs]⟩

end Daemon

/-! ## The end of the writer -/

namespace Daemon

variable {O : Type} [DnsObserver O] {s s' : Daemon O} {a : DaemonAction}

/-- The steps that the writer still has in front of it, at most. -/
def left (s : Daemon O) : ℕ :=
  2 * s.pipe.logQueue.length + s.pipe.writing.toList.length +
    if s.writer = .running then 1 else 0

end Daemon

end CiliumMini
