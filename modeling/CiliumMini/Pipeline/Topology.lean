import CiliumMini.Pipeline.ParserStage
import CiliumMini.Run

/-!
# The processing topology

Reference: `cilium-mini-rs/src/topology.rs`.

Reader, parser and writer run concurrently and share two bounded queues. An `Action` is one step of
one of the three; a run is any sequence of actions, so it is any interleaving. The parser's
iteration is three steps (receive, parse and observe, send) and the writer's is two (receive,
write), because the other stages can act in between. `Move` lists the outcomes of a step with the
conditions they are taken under, and proofs about runs go through this list.

The queues are those of a third-party crate. They are taken to be first in, first out, with 1000
slots each: `try_send_ref` gives out a slot only while one is free, and the slot holds whatever was
left in it. It may also answer `Full` while slots are free. No channel is closed here; how channels
are closed is in `Lifecycle`.

`Inv` says that the messages that left the parser, followed by what the events still inside would be
parsed to, are a subsequence of what the consumed events parse to.
-/

namespace CiliumMini

open Exec
open scoped List

/-- The capacity of both channels. -/
def channelCapacity : ℕ := 1000

/-- What `raw_dns_tx.try_send_ref()` answers while the queue is open: a slot, whose old contents are
overwritten as a whole, or `Full`. -/
inductive RawSend where
  | slot
  | full
deriving DecidableEq

/-- Where the parser task is in its loop. -/
inductive ParserPhase where
  /-- at `recv_ref` -/
  | waiting
  /-- holding an event it has not parsed -/
  | received (ev : RawDnsEvent)
  /-- holding an event whose response is ready to be sent -/
  | parsed (ev : RawDnsEvent)
  /-- ended by a panic, which closes no channel -/
  | dead
deriving DecidableEq

/-- The event the parser holds. Its slot stays occupied. -/
def ParserPhase.event? : ParserPhase → Option RawDnsEvent
  | received ev | parsed ev => some ev
  | waiting | dead => none

/-- The state of the pipeline. `consumed` records every item taken from the ring buffer. -/
structure Pipeline (O : Type) where
  consumed : List (List UInt8)
  rawQueue : List RawDnsEvent
  phase : ParserPhase
  task : ParserTask O
  logQueue : List DnsResponse
  writing : Option DnsResponse
  log : List DnsResponse

/-- One step of one stage. -/
inductive Action where
  /-- the reader takes an item from the ring buffer and, for an event, asks for a slot -/
  | consume (item : List UInt8) (answer : RawSend)
  /-- the parser receives an event -/
  | receive
  /-- the parser parses the event it holds and shows the response to the observer -/
  | observe
  /-- the parser asks for a slot for its response -/
  | send (answer : LogSend)
  /-- the writer receives a message -/
  | receiveLog
  /-- the writer writes the message it holds -/
  | write
  /-- the writer fails to encode or to write the message it holds -/
  | writeError

/-- The event in a ring-buffer item of the right size. -/
def eventOf (item : List UInt8) : Option RawDnsEvent :=
  if h : item.length = RawDnsEvent.size then some (RawDnsEvent.readUnaligned item h) else none

/-- The item that the kernel program submits for an event is read back as that event. -/
theorem eventOf_image (ev : RawDnsEvent) : eventOf ev.image = some ev := by
  rw [eventOf, dif_pos ev.length_image, RawDnsEvent.readUnaligned_image]

namespace Pipeline

variable {O : Type}

/-- The pipeline when it starts. -/
def start (dnsObs : O) : Pipeline O where
  consumed := []
  rawQueue := []
  phase := .waiting
  task := .start dnsObs
  logQueue := []
  writing := none
  log := []

/-- The first queue has a free slot. -/
def rawRoom (s : Pipeline O) : Prop :=
  s.rawQueue.length + s.phase.event?.toList.length < channelCapacity

/-- The second queue has a free slot. -/
def logRoom (s : Pipeline O) : Prop :=
  s.logQueue.length + s.writing.toList.length < channelCapacity

instance (s : Pipeline O) : Decidable s.rawRoom := inferInstanceAs (Decidable (_ < _))

instance (s : Pipeline O) : Decidable s.logRoom := inferInstanceAs (Decidable (_ < _))

/-- The body of the reader's `while` loop. -/
def consume (item : List UInt8) (answer : RawSend) (s : Pipeline O) : Option (Pipeline O) :=
  let s := { s with consumed := s.consumed ++ [item] }
  match eventOf item with
  | none => some s
  | some ev =>
    match answer with
    | .slot => if s.rawRoom then some { s with rawQueue := s.rawQueue ++ [ev] } else none
    | .full => some s

/-- The parser behind the second queue's answer, and the message that it swapped into the queue. -/
def sendWith (answer : LogSend) (s : Pipeline O) : Pipeline O :=
  let r := s.task.send answer
  { s with phase := .waiting, task := r.1, logQueue := s.logQueue ++ r.2.toList }

variable [DnsObserver O]

/-- One step; `none` if the stage cannot take it now. -/
def step (s : Pipeline O) : Action → Option (Pipeline O)
  | .consume item answer => s.consume item answer
  | .receive =>
    match s.phase, s.rawQueue with
    | .waiting, ev :: rest => some { s with phase := .received ev, rawQueue := rest }
    | _, _ => none
  | .observe =>
    match s.phase with
    | .received ev =>
      match (ParserTask.observe ev).run s.task with
      | (.ok (), task) => some { s with phase := .parsed ev, task }
      | (.err _, task) => some { s with phase := .waiting, task }
      | (.panic, task) => some { s with phase := .dead, task }
    | _ => none
  | .send answer =>
    match s.phase with
    | .parsed _ =>
      match answer with
      | .slot old => if s.logRoom then some (s.sendWith (.slot old)) else none
      | .full => some (s.sendWith .full)
    | _ => none
  | .receiveLog =>
    match s.writing, s.logQueue with
    | none, m :: rest => some { s with writing := some m, logQueue := rest }
    | _, _ => none
  | .write =>
    match s.writing with
    | some m => some { s with writing := none, log := s.log ++ [m] }
    | none => none
  | .writeError =>
    match s.writing with
    | some _ => some { s with writing := none }
    | none => none

/-- The states reached by the runs from the start: any actions in any order. -/
def Reachable (dnsObs : O) (s : Pipeline O) : Prop :=
  ∃ actions : List Action, actions.foldlM step (start dnsObs) = some s

/-! ## Everything a step can do -/

/-- The outcomes of a step. -/
inductive Move (s : Pipeline O) : Action → Pipeline O → Prop
  /-- an item of the wrong size is skipped -/
  | skip {item : List UInt8} {answer : RawSend} (hitem : eventOf item = none) :
      Move s (.consume item answer) { s with consumed := s.consumed ++ [item] }
  /-- an event is queued -/
  | enqueue {item : List UInt8} {ev : RawDnsEvent} (hitem : eventOf item = some ev)
      (hroom : s.rawRoom) :
      Move s (.consume item .slot)
        { s with consumed := s.consumed ++ [item], rawQueue := s.rawQueue ++ [ev] }
  /-- an event is dropped, because the first queue reports that it is full -/
  | rawFull {item : List UInt8} {ev : RawDnsEvent} (hitem : eventOf item = some ev) :
      Move s (.consume item .full) { s with consumed := s.consumed ++ [item] }
  | receive {ev : RawDnsEvent} {rest : List RawDnsEvent} (hphase : s.phase = .waiting)
      (hqueue : s.rawQueue = ev :: rest) :
      Move s .receive { s with phase := .received ev, rawQueue := rest }
  | parsed {ev : RawDnsEvent} {task : ParserTask O} (hphase : s.phase = .received ev)
      (hobserve : (ParserTask.observe ev).run s.task = (.ok (), task)) :
      Move s .observe { s with phase := .parsed ev, task }
  | rejected {ev : RawDnsEvent} {e : DnsParseError} {task : ParserTask O}
      (hphase : s.phase = .received ev)
      (hobserve : (ParserTask.observe ev).run s.task = (.err e, task)) :
      Move s .observe { s with phase := .waiting, task }
  | died {ev : RawDnsEvent} {task : ParserTask O} (hphase : s.phase = .received ev)
      (hobserve : (ParserTask.observe ev).run s.task = (.panic, task)) :
      Move s .observe { s with phase := .dead, task }
  /-- the response is swapped with the old contents of a slot -/
  | sent {ev : RawDnsEvent} {old : DnsResponse} (hphase : s.phase = .parsed ev)
      (hroom : s.logRoom) :
      Move s (.send (.slot old))
        { s with
          phase := .waiting
          task := { s.task with localDnsResponse := old }
          logQueue := s.logQueue ++ [s.task.localDnsResponse] }
  /-- the response is dropped, because the second queue reports that it is full -/
  | logFull {ev : RawDnsEvent} (hphase : s.phase = .parsed ev) :
      Move s (.send .full) { s with phase := .waiting }
  | receiveLog {m : DnsResponse} {rest : List DnsResponse} (hwriting : s.writing = none)
      (hqueue : s.logQueue = m :: rest) :
      Move s .receiveLog { s with writing := some m, logQueue := rest }
  | write {m : DnsResponse} (hwriting : s.writing = some m) :
      Move s .write { s with writing := none, log := s.log ++ [m] }
  | writeError {m : DnsResponse} (hwriting : s.writing = some m) :
      Move s .writeError { s with writing := none }

/-- What the reader does with an item. -/
theorem consume_move {s s' : Pipeline O} {item : List UInt8} {answer : RawSend}
    (h : s.consume item answer = some s') : Move s (.consume item answer) s' := by
  cases hitem : eventOf item with
  | none =>
    simp only [consume, hitem, Option.some.injEq] at h
    subst h
    exact .skip hitem
  | some ev =>
    cases answer with
    | slot =>
      simp only [consume, hitem] at h
      split at h
      · rename_i hroom
        obtain rfl := Option.some.inj h
        exact .enqueue hitem hroom
      · exact absurd h (by simp)
    | full =>
      simp only [consume, hitem, Option.some.injEq] at h
      subst h
      exact .rawFull hitem

/-- What the parser does with its response. -/
theorem send_move {s s' : Pipeline O} {answer : LogSend} (h : s.step (.send answer) = some s') :
    Move s (.send answer) s' := by
  simp only [step] at h
  split at h
  · rename_i ev hphase
    cases answer with
    | slot old =>
      simp only at h
      split at h
      · rename_i hroom
        obtain rfl := Option.some.inj h
        exact .sent hphase hroom
      · exact absurd h (by simp)
    | full =>
      obtain rfl := Option.some.inj h
      -- nothing is put into the queue, and the parser keeps its response
      have hkept : s.sendWith .full = { s with phase := .waiting } := by
        simp [sendWith, ParserTask.send]
      rw [hkept]
      exact .logFull hphase
  · exact absurd h (by simp)

/-- Every step is one of the moves. -/
theorem step_move {s s' : Pipeline O} {a : Action} (h : s.step a = some s') : Move s a s' := by
  cases a with
  | consume item answer => exact consume_move h
  | send answer => exact send_move h
  | receive =>
    simp only [step] at h
    split at h
    · rename_i ev rest hphase hqueue
      obtain rfl := Option.some.inj h
      exact .receive hphase hqueue
    · exact absurd h (by simp)
  | observe =>
    simp only [step] at h
    split at h
    · rename_i ev hphase
      split at h <;> rename_i task hobserve <;> obtain rfl := Option.some.inj h
      · exact .parsed hphase hobserve
      · exact .rejected hphase hobserve
      · exact .died hphase hobserve
    · exact absurd h (by simp)
  | receiveLog =>
    simp only [step] at h
    split at h
    · rename_i m rest hwriting hqueue
      obtain rfl := Option.some.inj h
      exact .receiveLog hwriting hqueue
    · exact absurd h (by simp)
  | write =>
    simp only [step] at h
    split at h
    · rename_i m hwriting
      obtain rfl := Option.some.inj h
      exact .write hwriting
    · exact absurd h (by simp)
  | writeError =>
    simp only [step] at h
    split at h
    · rename_i m hwriting
      obtain rfl := Option.some.inj h
      exact .writeError hwriting
    · exact absurd h (by simp)

/-- Every move is a step. -/
theorem Move.step_eq {s s' : Pipeline O} {a : Action} (h : Move s a s') : s.step a = some s' := by
  cases h with
  | skip hitem => simp [step, consume, hitem]
  | enqueue hitem hroom =>
    simp only [step, consume, hitem]
    exact if_pos hroom
  | rawFull hitem => simp [step, consume, hitem]
  | receive hphase hqueue => simp [step, hphase, hqueue]
  | parsed hphase hobserve => simp [step, hphase, hobserve]
  | rejected hphase hobserve => simp [step, hphase, hobserve]
  | died hphase hobserve => simp [step, hphase, hobserve]
  | sent hphase hroom => simp [step, hphase, hroom, sendWith, ParserTask.send]
  | logFull hphase => simp [step, hphase, sendWith, ParserTask.send]
  | receiveLog hwriting hqueue => simp [step, hwriting, hqueue]
  | write hwriting => simp [step, hwriting]
  | writeError hwriting => simp [step, hwriting]

/-! ## Order, no duplication, no stale data -/

/-- The messages that left the parser, oldest first. -/
def sent (s : Pipeline O) : List DnsResponse := s.log ++ (s.writing.toList ++ s.logQueue)

/-- The events that are received but not yet turned into a message. -/
def pending (s : Pipeline O) : List RawDnsEvent := s.phase.event?.toList ++ s.rawQueue

omit [DnsObserver O] in
/-- With no event pending, the first queue is empty, and the parser waits unless it is dead. -/
theorem waiting_of_pending_eq_nil {s : Pipeline O} (h : s.pending = []) :
    s.rawQueue = [] ∧ (s.phase = .waiting ∨ s.phase = .dead) := by
  rw [pending, List.append_eq_nil_iff] at h
  obtain ⟨hevent, hqueue⟩ := h
  refine ⟨hqueue, ?_⟩
  cases hphase : s.phase with
  | waiting => exact .inl rfl
  | received ev => simp [hphase, ParserPhase.event?] at hevent
  | parsed ev => simp [hphase, ParserPhase.event?] at hevent
  | dead => exact .inr rfl

/-- The events among the consumed items. -/
def events (s : Pipeline O) : List RawDnsEvent := s.consumed.filterMap eventOf

/-- The invariant of the pipeline. -/
structure Inv (s : Pipeline O) : Prop where
  /-- what was sent, then what is still inside, comes from the consumed events in order -/
  order : s.sent ++ s.pending.filterMap freshParse <+ s.events.filterMap freshParse
  /-- a response ready to be sent is the one of the event that the parser holds -/
  ready : ∀ ev, s.phase = .parsed ev → freshParse ev = some s.task.localDnsResponse

omit [DnsObserver O] in
/-- The pipeline starts with nothing inside. -/
theorem inv_start (dnsObs : O) : Inv (start dnsObs) := by
  refine ⟨List.Sublist.refl _, ?_⟩
  intro ev hphase
  exact absurd hphase (by simp [start])

omit [DnsObserver O] in
/-- What the consumed events parse to only grows. -/
theorem filterMap_events_append (s : Pipeline O) (item : List UInt8) :
    ((s.consumed ++ [item]).filterMap eventOf).filterMap freshParse =
      s.events.filterMap freshParse ++ (eventOf item).toList.filterMap freshParse := by
  rw [List.filterMap_append, List.filterMap_append]
  cases hitem : eventOf item <;> simp [events, hitem]

omit [DnsObserver O] in
/-- An item that is taken and dropped leaves what is inside as it was. -/
theorem Inv.dropped {s : Pipeline O} (hi : Inv s) (item : List UInt8) :
    Inv { s with consumed := s.consumed ++ [item] } := by
  refine ⟨?_, hi.ready⟩
  show s.sent ++ s.pending.filterMap freshParse <+ _
  rw [events, filterMap_events_append]
  exact hi.order.trans (List.sublist_append_left _ _)

omit [DnsObserver O] in
/-- An event that leaves the parser without a message leaves fewer inside. -/
theorem Inv.less {s : Pipeline O} (hi : Inv s) :
    s.sent ++ s.rawQueue.filterMap freshParse <+ s.events.filterMap freshParse := by
  refine List.Sublist.trans ?_ hi.order
  rw [pending, List.filterMap_append]
  exact (List.sublist_append_right _ _).append_left _

/-- Every move keeps the invariant. -/
theorem Inv.move {s s' : Pipeline O} {a : Action} (hi : Inv s) (h : Move s a s') : Inv s' := by
  have horder := hi.order
  cases h with
  | skip hitem => exact hi.dropped _
  | rawFull hitem => exact hi.dropped _
  | @enqueue item ev hitem hroom =>
    -- the event is queued behind the pending ones and is the last of the consumed ones
    refine ⟨?_, hi.ready⟩
    show s.sent ++ (s.phase.event?.toList ++ (s.rawQueue ++ [ev])).filterMap freshParse <+ _
    rw [← List.append_assoc, List.filterMap_append, events, filterMap_events_append, hitem,
      ← List.append_assoc]
    exact hi.order.append_right _
  | receive hphase hqueue =>
    refine ⟨?_, by simp⟩
    simp only [sent, pending, hphase, hqueue] at horder ⊢
    exact horder
  | @parsed ev task hphase hobserve =>
    refine ⟨?_, ?_⟩
    · simp only [sent, pending, hphase] at horder ⊢
      exact horder
    · rintro ev' ⟨⟩
      exact freshParse_eq_some.mpr (ParserTask.parse_of_observe hobserve)
  | rejected hphase hobserve => exact ⟨hi.less, by simp⟩
  | died hphase hobserve => exact ⟨hi.less, by simp⟩
  | @sent ev old hphase hroom =>
    -- the swap leaves the old contents of the slot with the parser, where they are overwritten
    refine ⟨?_, by simp⟩
    have hheld : s.pending.filterMap freshParse =
        s.task.localDnsResponse :: s.rawQueue.filterMap freshParse := by
      rw [pending, hphase]
      exact List.filterMap_cons_some (hi.ready ev hphase)
    rw [hheld] at horder
    simpa [Pipeline.sent, pending, events, ParserPhase.event?] using horder
  | logFull hphase => exact ⟨hi.less, by simp⟩
  | receiveLog hwriting hqueue =>
    refine ⟨?_, hi.ready⟩
    simp only [Pipeline.sent, hwriting, hqueue] at horder ⊢
    exact horder
  | write hwriting =>
    refine ⟨?_, hi.ready⟩
    simpa [Pipeline.sent, pending, events, hwriting] using horder
  | writeError hwriting =>
    -- the message is dropped from the middle of what was sent
    refine ⟨List.Sublist.trans ?_ horder, hi.ready⟩
    exact ((List.sublist_append_right _ _).append_left _).append_right _

/-- The invariant holds in every state of every run. -/
theorem Reachable.inv {dnsObs : O} {s : Pipeline O} (h : Reachable dnsObs s) : Inv s := by
  obtain ⟨actions, hrun⟩ := h
  exact Run.invariant (inv_start dnsObs) (fun _ _ _ hi hstep => hi.move (step_move hstep)) hrun

end Pipeline

/-- A subsequence of the parsed events is what some of the events are parsed to. -/
theorem exists_kept {f : RawDnsEvent → Option DnsResponse} {evs : List RawDnsEvent}
    {ms : List DnsResponse} (h : ms <+ evs.filterMap f) :
    ∃ kept, kept <+ evs ∧ kept.map f = ms.map some := by
  induction evs generalizing ms with
  | nil =>
    obtain rfl := List.sublist_nil.mp h
    exact ⟨[], List.Sublist.refl _, rfl⟩
  | cons ev evs ih =>
    cases hev : f ev with
    | none =>
      rw [List.filterMap_cons_none hev] at h
      obtain ⟨kept, hsub, hmap⟩ := ih h
      exact ⟨kept, hsub.cons ev, hmap⟩
    | some m =>
      rw [List.filterMap_cons_some hev] at h
      cases h with
      | cons _ h =>
        obtain ⟨kept, hsub, hmap⟩ := ih h
        exact ⟨kept, hsub.cons ev, hmap⟩
      | cons_cons _ h =>
        obtain ⟨kept, hsub, hmap⟩ := ih h
        exact ⟨ev :: kept, hsub.cons_cons ev, by rw [List.map_cons, List.map_cons, hev, hmap]⟩

/-- In every state of every run, the log and then the waiting messages are some of the consumed
events, in order, each replaced by what it is parsed to in a fresh slot. -/
theorem Pipeline.messages_from_events {O : Type} [DnsObserver O] (dnsObs : O) (s : Pipeline O)
    (h : Pipeline.Reachable dnsObs s) :
    ∃ kept, kept <+ s.consumed.filterMap eventOf ∧
      kept.map freshParse = (s.log ++ s.logQueue).map some := by
  have hinv := h.inv.order
  refine exists_kept (List.Sublist.trans ?_ hinv)
  rw [Pipeline.sent]
  exact ((List.sublist_append_right _ _).append_left _).trans (List.sublist_append_left _ _)

/-- A run in which one response is written, one is dropped because of its size, one fails to parse
and one waits in the second queue. -/
def exampleRun : List Action :=
  let item₁ := (exampleEventA 10 0 0 1).image
  let item₂ := exampleEventNone.image
  let item₃ := (exampleEventA 10 0 0 2).image
  [.consume item₁ .slot, .consume [0, 1, 2] .slot, .receive, .consume item₂ .slot, .observe,
    .consume item₃ .slot, .send (.slot default), .receiveLog, .receive, .observe, .receive, .write,
    .observe, .send (.slot default)]

theorem Pipeline.messages_from_events_example :
    ∃ s, (exampleRun.foldlM Pipeline.step (Pipeline.start (⟨.empty, {"a"}⟩ : FqdnPolicyEngine))) =
        some s ∧ s.log.length = 1 ∧ s.logQueue.length = 1 ∧
      ∃ kept, kept <+ s.consumed.filterMap eventOf ∧
        kept.map freshParse = (s.log ++ s.logQueue).map some := by
  have hrun : ((exampleRun.foldlM Pipeline.step
      (Pipeline.start (⟨.empty, {"a"}⟩ : FqdnPolicyEngine))).map
      fun s => (s.log.length, s.logQueue.length)) = some (1, 1) := by decide +kernel
  obtain ⟨s, hs, hlengths⟩ := Option.map_eq_some_iff.mp hrun
  obtain ⟨hlog, hqueue⟩ := Prod.mk.inj hlengths
  exact ⟨s, hs, hlog, hqueue, Pipeline.messages_from_events _ s ⟨exampleRun, hs⟩⟩

end CiliumMini
