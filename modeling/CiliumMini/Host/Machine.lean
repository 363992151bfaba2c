import CiliumMini.CommitLog.Durability
import CiliumMini.Ebpf.Record
import CiliumMini.Pipeline.Observer
import CiliumMini.Pipeline.Safety
import Mathlib.Data.List.Forall2
import Mathlib.Data.List.ReduceOption

/-!
# The whole host

The kernel program, the ring buffer, the three stages and the log file, put together: packets arrive
at any time, each call of the program may find room in the ring buffer or not, each queue may answer
that it is full, each write to the file may fail behind any of its bytes, and the stages take their
steps in any order. The log file could be opened, and it may hold anything when the daemon starts.

A run may be spared some of these losses (`Spared`). Every run keeps that the events come from the
packets (`Sourced`) and that the stages are in a state of one of their own runs (`Staged`). While no
write fails, the file, the buffer and the slices at hand are what the writer took (`Filed`).
-/

namespace CiliumMini

open Exec Run
open scoped List

/-! ## The machine -/

/-- A step of the parser task. -/
inductive ParserAction where
  | receive
  | observe
  | send (answer : LogSend)

/-- The step, as one of the pipeline. -/
def ParserAction.action : ParserAction → Action
  | receive => .receive
  | observe => .observe
  | send answer => .send answer

/-- The write to the file that the writer is at fails behind `n` bytes: the flush that makes room
for the slice at hand, or the slice itself if it goes straight through. The loop gives the message
up and goes on; what is in the buffer stays there. -/
def LogProcess.fail (cap n : ℕ) (p : LogProcess) : Option LogProcess :=
  match p.todo with
  | [] => none
  | s :: _ =>
    if p.writer.Ready cap s then
      -- a slice that only goes into the buffer cannot fail
      if cap ≤ s.length ∧ n < s.length then
        some { p with writer := p.writer.failPut n s, todo := [] }
      else none
    else if n < p.writer.buf.length then
      some { p with writer := p.writer.failFlush n, todo := [] }
    else none

/-- The state of the host. `arrived` records every packet. -/
structure Host where
  arrived : List (List UInt8)
  ring : List (List UInt8)
  stages : Pipeline FqdnPolicyEngine
  log : LogProcess

/-- One step. -/
inductive HostAction where
  /-- a packet arrives, and the kernel program is run on it -/
  | packet (kernel : KernelMemory) (ctx : TcContext)
  /-- the reader takes the oldest item from the ring buffer and, for an event, asks for a slot -/
  | consume (answer : RawSend)
  /-- the parser takes a step -/
  | parser (a : ParserAction)
  /-- the writer receives a message and encodes it -/
  | receiveLog
  /-- the buffered writer makes its next move -/
  | advance
  /-- the writer has passed on all of its message -/
  | write
  /-- a write to the file fails behind `n` bytes, and the writer gives its message up -/
  | writeError (n : ℕ)

namespace Host

/-- The host when the daemon starts on a log file. -/
def start (file : List UInt8) (domains : Finset String) : Host :=
  ⟨[], [], .start (freshEngine domains), .onFile file []⟩

/-- One step; `none` if it is not possible now. -/
def step (net : NetworkTypes) (prost : Prost) (cap : ℕ) (h : Host) :
    HostAction → Option Host
  | .packet kernel ctx =>
    some { h with
      arrived := h.arrived ++ [ctx.packet], ring := ((dnsTcBytes net kernel ctx).run h.ring).2 }
  | .consume answer =>
    match h.ring with
    | [] => none
    | item :: ring =>
      (h.stages.step (.consume item answer)).map fun stages => { h with ring, stages }
  | .parser a => (h.stages.step a.action).map fun stages => { h with stages }
  | .receiveLog => do
    let stages ← h.stages.step .receiveLog
    let m ← stages.writing
    let log ← h.log.step prost cap (.receive m)
    return { h with stages, log }
  | .advance => (h.log.step prost cap .advance).map fun log => { h with log }
  | .write =>
    if h.log.todo = [] then (h.stages.step .write).map fun stages => { h with stages } else none
  | .writeError n => do
    let log ← h.log.fail cap n
    let stages ← h.stages.step .writeError
    return { h with stages, log }

variable {net : NetworkTypes} {prost : Prost} {cap : ℕ} {h h' : Host} {a : HostAction}

/-- The outcomes of a step. -/
inductive Move (net : NetworkTypes) (prost : Prost) (cap : ℕ) (h : Host) :
    HostAction → Host → Prop
  | packet {kernel : KernelMemory} {ctx : TcContext} :
      Move net prost cap h (.packet kernel ctx) { h with
        arrived := h.arrived ++ [ctx.packet], ring := ((dnsTcBytes net kernel ctx).run h.ring).2 }
  | consume {answer : RawSend} {item : List UInt8} {ring : List (List UInt8)}
      {stages : Pipeline FqdnPolicyEngine} (hring : h.ring = item :: ring)
      (hstages : h.stages.step (.consume item answer) = some stages) :
      Move net prost cap h (.consume answer) { h with ring, stages }
  | parser {a : ParserAction} {stages : Pipeline FqdnPolicyEngine}
      (hstages : h.stages.step a.action = some stages) :
      Move net prost cap h (.parser a) { h with stages }
  | receiveLog {m : DnsResponse} {rest : List DnsResponse} {log : LogProcess}
      (hwriting : h.stages.writing = none) (hqueue : h.stages.logQueue = m :: rest)
      (hlog : h.log.step prost cap (.receive m) = some log) :
      Move net prost cap h .receiveLog { h with
        stages := { h.stages with writing := some m, logQueue := rest }, log }
  | advance {log : LogProcess} (hlog : h.log.step prost cap .advance = some log) :
      Move net prost cap h .advance { h with log }
  | write {m : DnsResponse} (htodo : h.log.todo = []) (hwriting : h.stages.writing = some m) :
      Move net prost cap h .write { h with
        stages := { h.stages with writing := none, log := h.stages.log ++ [m] } }
  /-- the message is given up, with some of its bytes in the file or in the buffer -/
  | writeError {n : ℕ} {m : DnsResponse} {writer : BufWriter}
      (hwriting : h.stages.writing = some m) :
      Move net prost cap h (.writeError n) { h with
        stages := { h.stages with writing := none }, log := { h.log with writer, todo := [] } }

/-- A failed write changes nothing of the process but the writer and the slices at hand. -/
theorem exists_of_fail {p p' : LogProcess} {n : ℕ} (hfail : p.fail cap n = some p') :
    ∃ writer, p' = { p with writer, todo := [] } := by
  unfold LogProcess.fail at hfail
  split at hfail
  · exact absurd hfail (by simp)
  · split at hfail
    · split at hfail
      · exact ⟨_, (Option.some.inj hfail).symm⟩
      · exact absurd hfail (by simp)
    · split at hfail
      · exact ⟨_, (Option.some.inj hfail).symm⟩
      · exact absurd hfail (by simp)

/-- Every step is one of the moves. -/
theorem step_move (hstep : h.step net prost cap a = some h') : Move net prost cap h a h' := by
  cases a with
  | packet kernel ctx =>
    obtain rfl := Option.some.inj hstep
    exact .packet
  | consume answer =>
    cases hring : h.ring with
    | nil =>
      simp only [step, hring] at hstep
      exact absurd hstep (by simp)
    | cons item ring =>
      simp only [step, hring] at hstep
      obtain ⟨stages, hstages, rfl⟩ := Option.map_eq_some_iff.mp hstep
      exact .consume hring hstages
  | parser a =>
    obtain ⟨stages, hstages, rfl⟩ := Option.map_eq_some_iff.mp hstep
    exact .parser hstages
  | receiveLog =>
    obtain ⟨stages, hstages, hstep⟩ := Option.bind_eq_some_iff.mp hstep
    obtain ⟨m, hm, hstep⟩ := Option.bind_eq_some_iff.mp hstep
    obtain ⟨log, hlog, hstep⟩ := Option.bind_eq_some_iff.mp hstep
    obtain rfl := Option.some.inj hstep
    cases Pipeline.step_move hstages with
    | receiveLog hwriting hqueue =>
      obtain rfl := Option.some.inj hm
      exact .receiveLog hwriting hqueue hlog
  | advance =>
    obtain ⟨log, hlog, rfl⟩ := Option.map_eq_some_iff.mp hstep
    exact .advance hlog
  | write =>
    simp only [step] at hstep
    split at hstep
    · rename_i htodo
      obtain ⟨stages, hstages, rfl⟩ := Option.map_eq_some_iff.mp hstep
      cases Pipeline.step_move hstages with
      | write hwriting => exact .write htodo hwriting
    · exact absurd hstep (by simp)
  | writeError n =>
    obtain ⟨log, hlog, hstep⟩ := Option.bind_eq_some_iff.mp hstep
    obtain ⟨stages, hstages, hstep⟩ := Option.bind_eq_some_iff.mp hstep
    obtain rfl := Option.some.inj hstep
    obtain ⟨writer, rfl⟩ := exists_of_fail hlog
    cases Pipeline.step_move hstages with
    | writeError hwriting => exact .writeError hwriting

end Host

/-! ## From packets to events -/

/-- What the kernel program submits for a packet: an event that describes it, or nothing. With room,
nothing is submitted only for a packet that is no frame. -/
def Yields (room : Prop) (packet : List UInt8) : Option RawDnsEvent → Prop
  | some ev => ∃ f : DnsFrame, packet = f.encode ∧ f.Describes ev
  | none => room → ∀ f : DnsFrame, packet ≠ f.encode

variable {room : Prop} {packets : List (List UInt8)} {results : List (Option RawDnsEvent)}

/-- With room, the program submits an event that describes the frame. -/
theorem dnsTcBytes_submits (net : NetworkTypes) {kernel : KernelMemory} {ctx : TcContext}
    {f : DnsFrame} (hf : ctx.packet = f.encode) {old : RawDnsEvent}
    (hreserved : kernel.answers.reserved = some old) (items : List (List UInt8)) :
    ∃ ev, f.Describes ev ∧ ((dnsTcBytes net kernel ctx).run items).2 = items ++ [ev.image] := by
  obtain ⟨out, submitted, hrun, hbytes⟩ := dnsTcBytes_renders net kernel ctx [] items
  obtain ⟨ev, hsubmits, hdesc, -⟩ := dnsTc_submits net [] hf hreserved
  obtain rfl : submitted = [ev] := (Prod.mk.inj (hrun.symm.trans hsubmits)).2
  exact ⟨ev, hdesc, by rw [hbytes]; rfl⟩

/-- Whatever the packet is, the program submits what it should, or nothing. -/
theorem dnsTcBytes_yields (net : NetworkTypes) {kernel : KernelMemory} (ctx : TcContext)
    (hroom : room → kernel.reserved.isSome) (items : List (List UInt8)) :
    ∃ r : Option RawDnsEvent, Yields room ctx.packet r ∧
      ((dnsTcBytes net kernel ctx).run items).2 = items ++ r.toList.map RawDnsEvent.image := by
  rcases room_and_frame_or_skip kernel.answers ctx with ⟨old, f, hreserved, hf⟩ | hskip
  · obtain ⟨ev, hdesc, hsubmitted⟩ := dnsTcBytes_submits net hf hreserved items
    exact ⟨some ev, ⟨f, hf, hdesc⟩, hsubmitted⟩
  · obtain ⟨out, submitted, hrun, hbytes⟩ := dnsTcBytes_renders net kernel ctx [] items
    obtain rfl : submitted = [] := (Prod.mk.inj (hrun.symm.trans (dnsTc_skips hskip))).2
    refine ⟨none, fun hhere f hf => ?_, by rw [hbytes]; rfl⟩
    rcases hskip with hnone | hnoframe
    · have hsome : kernel.answers.reserved.isSome := by
        simpa [KernelMemory.answers] using hroom hhere
      rw [hnone] at hsome
      exact absurd hsome (by simp)
    · exact hnoframe f hf

/-- Each of the events was submitted for a packet of its own, in the order of the packets. -/
theorem exists_frames (h : List.Forall₂ (Yields room) packets results) {kept : List RawDnsEvent}
    (hkept : kept <+ results.reduceOption) :
    ∃ frames : List DnsFrame, frames.map DnsFrame.encode <+ packets ∧
      List.Forall₂ DnsFrame.Describes frames kept := by
  induction h generalizing kept with
  | nil =>
    obtain rfl := List.sublist_nil.mp hkept
    exact ⟨[], List.Sublist.refl _, .nil⟩
  | @cons packet r packets results hr hrest ih =>
    -- a packet without an event is passed over; any other is taken along if its event was kept
    cases r with
    | none =>
      rw [List.reduceOption_cons_of_none] at hkept
      obtain ⟨frames, hframes, hdesc⟩ := ih hkept
      exact ⟨frames, hframes.cons packet, hdesc⟩
    | some ev =>
      rw [List.reduceOption_cons_of_some] at hkept
      cases hkept with
      | cons _ hkept =>
        obtain ⟨frames, hframes, hdesc⟩ := ih hkept
        exact ⟨frames, hframes.cons packet, hdesc⟩
      | cons_cons _ hkept =>
        obtain ⟨f, rfl, hf⟩ := hr
        obtain ⟨frames, hframes, hdesc⟩ := ih hkept
        exact ⟨f :: frames, hframes.cons_cons f.encode, .cons hf hdesc⟩

/-- Each submitted event keeps the bound on `payload_len`. -/
theorem payloadLen_le_of_yields (h : List.Forall₂ (Yields room) packets results) {ev : RawDnsEvent}
    (hev : ev ∈ results.reduceOption) : ev.payloadLen.toNat ≤ maxDnsPayloadSize := by
  obtain ⟨frames, -, hdesc⟩ := exists_frames h (List.singleton_sublist.mpr hev)
  obtain ⟨f, _, hf, -, -⟩ := List.forall₂_cons_right_iff.mp hdesc
  exact hf.payloadLen_le

/-! ## What a run may be spared -/

/-- Which losses a run is spared: a full ring buffer, a full first or second queue, a failed write.
-/
structure Spared where
  room : Prop
  raw : Prop
  log : Prop
  write : Prop

namespace Spared

/-- Nothing is promised. -/
def nothing : Spared := ⟨False, False, False, False⟩

/-- Only failed writes do not occur. -/
def writes : Spared := ⟨False, False, False, True⟩

/-- Neither the ring buffer nor the first queue is ever full. -/
def events : Spared := ⟨True, True, False, False⟩

/-- Nothing is lost. -/
def everything : Spared := ⟨True, True, True, True⟩

end Spared

/-- The step is none of the losses. -/
def HostAction.Spares (p : Spared) : HostAction → Prop
  | .packet kernel _ => p.room → kernel.reserved.isSome
  | .consume answer => p.raw → answer ≠ .full
  | .parser a => p.log → a ≠ .send .full
  | .writeError _ => ¬ p.write
  | .receiveLog | .advance | .write => True

/-- The same for a step of the pipeline. -/
def Action.Spares (p : Spared) : Action → Prop
  | .consume _ answer => p.raw → answer ≠ .full
  | .send answer => p.log → answer ≠ .full
  | .writeError => ¬ p.write
  | .receive | .observe | .receiveLog | .write => True

/-- The event of an item joins the consumed ones. -/
theorem Pipeline.events_consume {s s' : Pipeline FqdnPolicyEngine} {item : List UInt8}
    {answer : RawSend} (h : s.step (.consume item answer) = some s') :
    s'.events = s.events ++ (eventOf item).toList := by
  have hgrow : (s.consumed ++ [item]).filterMap eventOf = s.events ++ (eventOf item).toList := by
    cases hitem : eventOf item <;> simp [Pipeline.events, hitem]
  cases step_move h <;> exact hgrow

/-- The parser touches neither the reader's nor the writer's side. -/
theorem Pipeline.parser_frame {s s' : Pipeline FqdnPolicyEngine} {a : ParserAction}
    (h : s.step a.action = some s') :
    s'.consumed = s.consumed ∧ s'.writing = s.writing ∧ s'.log = s.log := by
  cases a <;> cases step_move h <;> exact ⟨rfl, rfl, rfl⟩

namespace Host

variable {net : NetworkTypes} {prost : Prost} {cap : ℕ} {file : List UInt8}
  {domains : Finset String} {p : Spared} {h h' : Host} {a : HostAction}

/-- The events that the stages took and those in the ring buffer are what the packets yielded. -/
def Sourced (room : Prop) (h : Host) : Prop :=
  ∃ results waiting, List.Forall₂ (Yields room) h.arrived results ∧
    results.reduceOption = h.stages.events ++ waiting ∧ h.ring = waiting.map RawDnsEvent.image

/-- No packet has arrived when the daemon starts. -/
theorem sourced_start : Sourced room (start file domains) := ⟨[], [], .nil, rfl, rfl⟩

/-- A step that takes nothing from the ring buffer and puts nothing into it. -/
theorem Sourced.unchanged (hi : Sourced room h) (harrived : h'.arrived = h.arrived)
    (hring : h'.ring = h.ring) (hevents : h'.stages.events = h.stages.events) :
    Sourced room h' := by
  unfold Sourced
  rw [harrived, hring, hevents]
  exact hi

/-- A packet yields an event behind the others, and the reader takes the oldest one. -/
theorem Sourced.move (ha : a.Spares p) (hi : Sourced p.room h)
    (hmove : Move net prost cap h a h') : Sourced p.room h' := by
  cases hmove with
  | @packet kernel ctx =>
    obtain ⟨results, waiting, hresults, hsplit, hring⟩ := hi
    obtain ⟨r, hr, hsubmitted⟩ := dnsTcBytes_yields net ctx ha h.ring
    refine ⟨results ++ [r], waiting ++ r.toList, List.rel_append hresults (.cons hr .nil), ?_, ?_⟩
    · rw [List.reduceOption_append, hsplit, List.append_assoc]
      cases r <;> rfl
    · show ((dnsTcBytes net kernel ctx).run h.ring).2 = _
      rw [hsubmitted, hring, List.map_append]
  | @consume answer item ring stages hring hstages =>
    obtain ⟨results, waiting, hresults, hsplit, hwaiting⟩ := hi
    obtain ⟨ev, waiting, rfl, rfl, rfl⟩ := List.map_eq_cons_iff.mp (hwaiting.symm.trans hring)
    refine ⟨results, waiting, hresults, ?_, rfl⟩
    show results.reduceOption = stages.events ++ waiting
    rw [Pipeline.events_consume hstages, eventOf_image, hsplit, List.append_assoc]
    rfl
  | parser hstages =>
    refine hi.unchanged rfl rfl ?_
    exact congrArg (List.filterMap eventOf) (Pipeline.parser_frame hstages).1
  | receiveLog => exact hi.unchanged rfl rfl rfl
  | advance => exact hi.unchanged rfl rfl rfl
  | write => exact hi.unchanged rfl rfl rfl
  | writeError => exact hi.unchanged rfl rfl rfl

/-- The stages are in a state of a run on events that keep the bound, and this run is spared the
same losses. -/
def Staged (domains : Finset String) (p : Spared) (h : Host) : Prop :=
  ∃ actions : List Action, (∀ a ∈ actions, a.Bounded) ∧ (∀ a ∈ actions, a.Spares p) ∧
    actions.foldlM Pipeline.step (.start (freshEngine domains)) = some h.stages

/-- The stages start with the empty run. -/
theorem staged_start : Staged domains p (start file domains) := ⟨[], by simp, by simp, rfl⟩

/-- One more step of the stages. -/
theorem Staged.extend (hi : Staged domains p h) {b : Action} (hbounded : b.Bounded)
    (hspares : b.Spares p) (hstep : h.stages.step b = some h'.stages) : Staged domains p h' := by
  obtain ⟨actions, hactions, hspared, hrun⟩ := hi
  refine ⟨actions ++ [b], ?_, ?_, append_singleton_eq_some.mpr ⟨h.stages, hrun, hstep⟩⟩
  · intro a ha
    rcases List.mem_append.mp ha with ha | ha
    · exact hactions a ha
    · rw [List.mem_singleton.mp ha]
      exact hbounded
  · intro a ha
    rcases List.mem_append.mp ha with ha | ha
    · exact hspared a ha
    · rw [List.mem_singleton.mp ha]
      exact hspares

/-- What a step of the host does to the stages is nothing, or a step of theirs. -/
theorem Staged.move (hsource : Sourced room h) (ha : a.Spares p) (hi : Staged domains p h)
    (hmove : Move net prost cap h a h') : Staged domains p h' := by
  cases hmove with
  | packet => exact hi
  | @consume answer item ring stages hring hstages =>
    refine hi.extend (b := .consume item answer) ?_ ha hstages
    -- the item is the image of an event that the program submitted
    obtain ⟨results, waiting, hresults, hsplit, hwaiting⟩ := hsource
    obtain ⟨ev, rest, rfl, rfl, -⟩ := List.map_eq_cons_iff.mp (hwaiting.symm.trans hring)
    refine Pipeline.bounded_image (payloadLen_le_of_yields hresults ?_) answer
    rw [hsplit]
    exact List.mem_append_right _ List.mem_cons_self
  | @parser a stages hstages =>
    refine hi.extend (by cases a <;> trivial) ?_ hstages
    cases a with
    | send answer => exact fun hlog hfull => ha hlog (congrArg ParserAction.send hfull)
    | _ => trivial
  | receiveLog hwriting hqueue hlog =>
    refine hi.extend (show Action.receiveLog.Bounded from trivial) trivial ?_
    simp only [Pipeline.step, hwriting, hqueue]
  | advance => exact hi
  | write htodo hwriting =>
    refine hi.extend (show Action.write.Bounded from trivial) trivial ?_
    simp only [Pipeline.step, hwriting]
  | writeError hwriting =>
    refine hi.extend (show Action.writeError.Bounded from trivial) ha ?_
    simp only [Pipeline.step, hwriting]

/-- A message that waits for the writer has an encoding below `2 ^ 32` bytes. -/
theorem length_encode_waiting (prost : Prost) (hsource : Sourced room h)
    (hstaged : Staged domains p h) {m : DnsResponse} (hm : m ∈ h.stages.logQueue) :
    (prost.encode m).length < 2 ^ 32 := by
  obtain ⟨results, waiting, hresults, hsplit, -⟩ := hsource
  obtain ⟨actions, -, -, hrun⟩ := hstaged
  have horder := (show Pipeline.Reachable _ h.stages from ⟨actions, hrun⟩).inv.order
  have hsent : m ∈ h.stages.sent :=
    List.mem_append_right _ (List.mem_append_right _ hm)
  refine length_encode_lt prost (fun ev hev => payloadLen_le_of_yields hresults ?_) m
    (horder.subset (List.mem_append_left _ hsent))
  rw [hsplit]
  exact List.mem_append_left _ hev

/-- The log process has taken what the writer stage wrote and what it holds, and behind the bytes
that were in the file at the start there is nothing else. -/
structure Filed (prost : Prost) (cap : ℕ) (file : List UInt8) (h : Host) : Prop where
  taken : h.log.taken = (h.stages.log ++ h.stages.writing.toList).map prost.encode
  idle : h.stages.writing = none → h.log.todo = []
  follows : h.log.Follows file
  base_eq : file.length = h.log.base
  buf_le : h.log.writer.buf.length ≤ cap
  taken_lt : ∀ b ∈ h.log.taken, b.length < 2 ^ 32

/-- The writer has taken nothing when the daemon starts. -/
theorem filed_start : Filed prost cap file (start file domains) :=
  ⟨rfl, fun _ => rfl, LogProcess.follows_onFile file [], rfl, Nat.zero_le _,
    by simp [start, LogProcess.onFile]⟩

/-- A step that does not touch the writer's side. -/
theorem Filed.unchanged (hi : Filed prost cap file h) (hlog : h'.log = h.log)
    (hwritten : h'.stages.log = h.stages.log) (hwriting : h'.stages.writing = h.stages.writing) :
    Filed prost cap file h' where
  taken := by rw [hlog, hwritten, hwriting, hi.taken]
  idle := by
    rw [hlog, hwriting]
    exact hi.idle
  follows := hlog ▸ hi.follows
  base_eq := hlog ▸ hi.base_eq
  buf_le := hlog ▸ hi.buf_le
  taken_lt := hlog ▸ hi.taken_lt

/-- Unless a write fails, the writer's side stays in step with what was written. -/
theorem Filed.move (hsource : Sourced room h) (hstaged : Staged domains p h) (ha : a.Spares p)
    (hwrite : p.write) (hi : Filed prost cap file h) (hmove : Move net prost cap h a h') :
    Filed prost cap file h' := by
  cases hmove with
  | packet => exact hi.unchanged rfl rfl rfl
  | @consume answer item ring stages hring hstages =>
    cases Pipeline.step_move hstages <;> exact hi.unchanged rfl rfl rfl
  | parser hstages =>
    obtain ⟨-, hwriting, hlog⟩ := Pipeline.parser_frame hstages
    exact hi.unchanged rfl hlog hwriting
  | @receiveLog m rest log hwriting hqueue hlog =>
    have hsize : ∀ m', LogAction.receive m = .receive m' → (prost.encode m').length < 2 ^ 32 := by
      rintro _ ⟨⟩
      exact length_encode_waiting prost hsource hstaged (by rw [hqueue]; exact List.mem_cons_self)
    have htaken := hi.taken
    rw [hwriting] at htaken
    have hmove := LogProcess.step_move hlog
    have hfollows := hi.follows.move (by simp) hsize hmove
    have hlt := LogProcess.taken_lt_move hi.taken_lt hsize hmove
    cases hmove with
    | receive htodo =>
      refine ⟨?_, by simp, hfollows, hi.base_eq, hi.buf_le, hlt⟩
      show h.log.taken ++ [prost.encode m] = _
      rw [htaken]
      simp
  | @advance log hlog =>
    have hmove := LogProcess.step_move hlog
    have hfollows := hi.follows.move (by simp) (by simp) hmove
    -- while a slice is to be written, the writer holds its message
    have hbusy : ∀ {s rest}, h.log.todo = s :: rest → h.stages.writing ≠ none := by
      intro s rest htodo hnone
      rw [hi.idle hnone] at htodo
      exact absurd htodo (by simp)
    cases hmove with
    | put htodo hready =>
      exact ⟨hi.taken, fun hnone => absurd hnone (hbusy htodo), hfollows, hi.base_eq,
        BufWriter.length_buf_put hi.buf_le hready, hi.taken_lt⟩
    | flush htodo hready =>
      exact ⟨hi.taken, fun hnone => absurd hnone (hbusy htodo), hfollows, hi.base_eq,
        Nat.zero_le _, hi.taken_lt⟩
  | @write m htodo hwriting =>
    refine ⟨?_, fun _ => htodo, hi.follows, hi.base_eq, hi.buf_le, hi.taken_lt⟩
    rw [hi.taken, hwriting]
    simp
  | writeError => exact absurd hwrite ha

/-- What every run of the host keeps; the file only while no write fails. -/
theorem inv_of_run {actions : List HostAction} (hspares : ∀ a ∈ actions, a.Spares p)
    (hrun : actions.foldlM (step net prost cap) (start file domains) = some h) :
    Sourced p.room h ∧ Staged domains p h ∧ (p.write → Filed prost cap file h) := by
  refine invariant_of_mem
    (I := fun h => Sourced p.room h ∧ Staged domains p h ∧ (p.write → Filed prost cap file h))
    ⟨sourced_start, staged_start, fun _ => filed_start⟩ ?_ hrun
  rintro h₁ a h₂ hmem ⟨hsource, hstaged, hfiled⟩ hstep
  have hmove := step_move hstep
  have ha := hspares a hmem
  exact ⟨hsource.move ha hmove, hstaged.move hsource ha hmove,
    fun hwrite => (hfiled hwrite).move hsource hstaged ha hwrite hmove⟩

/-- A run is spared the losses that it does not have. -/
theorem spares_of_not_mem {actions : List HostAction}
    (hroom : p.room → ∀ kernel ctx, .packet kernel ctx ∈ actions → kernel.reserved.isSome)
    (hraw : p.raw → .consume .full ∉ actions) (hlog : p.log → .parser (.send .full) ∉ actions)
    (hwrite : p.write → ∀ n, .writeError n ∉ actions) : ∀ a ∈ actions, a.Spares p := by
  intro a ha
  cases a with
  | packet kernel ctx => exact fun hp => hroom hp kernel ctx ha
  | consume answer =>
    rintro hp rfl
    exact hraw hp ha
  | parser b =>
    rintro hp rfl
    exact hlog hp ha
  | writeError n => exact fun hp => hwrite hp n ha
  | _ => trivial

/-- What every run keeps, whatever is lost in it. -/
theorem inv_of_any_run {actions : List HostAction}
    (hrun : actions.foldlM (step net prost cap) (start file domains) = some h) :
    Sourced False h ∧ Staged domains .nothing h := by
  have hspares : ∀ a ∈ actions, a.Spares .nothing :=
    spares_of_not_mem False.elim False.elim False.elim False.elim
  obtain ⟨hsource, hstaged, -⟩ := inv_of_run hspares hrun
  exact ⟨hsource, hstaged⟩

/-- What every run without a failed write keeps. -/
theorem filed_of_run {actions : List HostAction} (hwrite : ∀ n, .writeError n ∉ actions)
    (hrun : actions.foldlM (step net prost cap) (start file domains) = some h) :
    Filed prost cap file h := by
  have hspares : ∀ a ∈ actions, a.Spares .writes :=
    spares_of_not_mem False.elim False.elim False.elim fun _ => hwrite
  exact (inv_of_run hspares hrun).2.2 trivial

/-- Behind whole frames, the reader finds the encodings of the oldest messages that the writer took,
in order. Of the others, all but the first lie in the buffer or in the slices of the message at
hand. -/
theorem Filed.records (hi : Filed prost cap file h) (hwhole : (deframe file).2 = []) :
    ∃ found lost, h.stages.log ++ h.stages.writing.toList = found ++ lost ∧
      (deframe h.log.writer.file).1 = (deframe file).1 ++ found.map prost.encode ∧
      (((lost.map prost.encode).drop 1).flatMap frame).length ≤
        cap + h.log.todo.flatten.length := by
  obtain ⟨torn, behind, -, hsplit, hrest, hshort⟩ := hi.follows.split hi.base_eq
  have hbehind := length_behind_torn hrest hshort
  have hbuf := hi.buf_le
  rw [List.length_append] at hbehind
  rw [hi.taken] at hsplit
  obtain ⟨found, lost, hmessages, hfound, rfl⟩ := List.map_eq_append_iff.mp hsplit
  refine ⟨found, lost, hmessages, ?_, by omega⟩
  rw [hi.follows.deframe_eq hi.base_eq hi.taken_lt hwhole, hfound]

/-- With no message at hand, file and buffer together are what was in the file and then the frames
of what was written. -/
theorem Filed.read_back (hi : Filed prost cap file h) (hwhole : (deframe file).2 = [])
    (hwriting : h.stages.writing = none) :
    deframe h.log.writer.contents =
      ((deframe file).1 ++ h.stages.log.map prost.encode, []) := by
  have htaken := hi.taken
  rw [hwriting, Option.toList_none, List.append_nil] at htaken
  have hsize := hi.taken_lt
  rw [htaken] at hsize
  -- nothing is at hand, so what is not in the file is in the buffer
  obtain ⟨written, hfile, hwritten⟩ := hi.follows
  rw [hi.idle hwriting, htaken, List.flatten_nil, List.append_nil] at hwritten
  rw [BufWriter.contents, hfile, List.append_assoc, hwritten, deframe_append, hwhole,
    List.nil_append, deframe_frames _ hsize]

end Host

end CiliumMini
