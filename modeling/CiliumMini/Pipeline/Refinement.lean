import CiliumMini.Pipeline.Alive
import CiliumMini.Run.Relay

/-!
# The pipeline is a relay

Seen from outside, three concurrent stages with two bounded queues and recycled slots do what one
list of events does: take an event or turn it away, deliver in order what the events parse to, and
let an event go that is not parsed, not written, or dropped at the second queue. `simulation`
matches every step of the pipeline with steps of the relay that have the same labels. The labels are
what the stages report about an event. The laws of the relay then hold of every interleaving,
whatever the queues answer.
-/

namespace CiliumMini

open Exec Run
open scoped List

namespace Pipeline

variable {O : Type} [DnsObserver O] {s s' : Pipeline O} {a : Action}

/-- What a step does to an event: it is taken from the ring buffer, dropped because a queue
answers `Full`, not parsed, written, or not written. -/
def label (s : Pipeline O) : Action → List (Relay.Label RawDnsEvent DnsResponse)
  | .consume item answer =>
    match eventOf item with
    | none => []
    | some ev =>
      match answer with
      | .slot => [.offered ev]
      | .full => [.offered ev, .overflowed ev]
  | .observe =>
    match s.phase with
    | .received ev => if (freshParse ev).isNone then [.discarded ev] else []
    | _ => []
  | .send (.slot _) => []
  | .send .full =>
    match s.phase with
    | .parsed ev => [.overflowed ev]
    | _ => []
  | .write => s.writing.toList.map .delivered
  | .writeError => s.writing.toList.map .failed
  | .receive | .receiveLog => []

/-- The labels of a run from the start. -/
def report (dnsObs : O) (actions : List Action) : List (Relay.Label RawDnsEvent DnsResponse) :=
  trace step label (start dnsObs) actions

/-- As many events as both queues have slots. -/
def relayCapacity : ℕ := channelCapacity + channelCapacity

/-- The events inside the relay: those whose messages wait behind the parser, then the pending ones.
-/
structure Relates (s : Pipeline O) (inside : List RawDnsEvent) : Prop where
  alive : s.Alive
  capacities : s.Capacities
  parts : ∃ done, inside = done ++ s.pending ∧
    done.map freshParse = (s.writing.toList ++ s.logQueue).map some

omit [DnsObserver O] in
/-- Nothing is inside at the start. -/
theorem relates_start (dnsObs : O) : Relates (start dnsObs) [] :=
  ⟨alive_start dnsObs, capacities_start dnsObs, [], rfl, rfl⟩

omit [DnsObserver O] in
/-- The event that the parser holds is the first of the pending ones. -/
theorem pending_of_event {ev : RawDnsEvent} (h : s.phase.event? = some ev) :
    s.pending = ev :: s.rawQueue := by
  rw [pending, h]
  rfl

omit [DnsObserver O] in
/-- The parser takes the first event of the queue, and the events inside stay the same. -/
theorem pending_receive {ev : RawDnsEvent} {rest : List RawDnsEvent} (hphase : s.phase = .waiting)
    (hqueue : s.rawQueue = ev :: rest) : s.pending = ev :: rest := by
  rw [pending, hphase, hqueue]
  rfl

omit [DnsObserver O] in
/-- When the first queue has a free slot, the relay has room. -/
theorem room_of_rawRoom {done : List RawDnsEvent} (hroom : s.rawRoom) (hcap : s.Capacities)
    (hdone : done.map freshParse = (s.writing.toList ++ s.logQueue).map some) :
    (done ++ s.pending).length < relayCapacity := by
  have hlog := hcap.log
  have hlength := congrArg List.length hdone
  rw [List.length_map, List.length_map, List.length_append] at hlength
  rw [rawRoom] at hroom
  rw [List.length_append, pending, List.length_append, relayCapacity]
  omega

/-- Every step of the pipeline is matched by the relay. -/
theorem simulation (hcalm : DnsObserver.Calm O) :
    Simulation step label (Relay.step freshParse relayCapacity) (Relay.label freshParse)
      Action.Bounded (Relates (O := O)) where
  matched := by
    intro s s' inside a ha hrel hstep
    have hmove := step_move hstep
    have halive' := hrel.alive.move hcalm ha hmove
    have hcap' := hrel.capacities.move hmove
    obtain ⟨done, rfl, hdone⟩ := hrel.parts
    cases hmove with
    | @skip item answer hitem =>
      have hlabel : label s (.consume item answer) = [] := by simp [label, hitem]
      rw [hlabel]
      exact match_none ⟨halive', hcap', done, rfl, hdone⟩
    | @enqueue item ev hitem hroom =>
      have hlabel : label s (.consume item .slot) = [.offered ev] := by simp [label, hitem]
      obtain ⟨hoffer, hoffered⟩ := Relay.step_offer (f := freshParse)
        (room_of_rawRoom hroom hrel.capacities hdone) ev
      rw [hlabel, ← hoffered]
      refine match_one hoffer ⟨halive', hcap', done, ?_, hdone⟩
      rw [List.append_assoc, pending, List.append_assoc]
      rfl
    | @rawFull item ev hitem =>
      have hlabel : label s (.consume item .full) = [.offered ev, .overflowed ev] := by
        simp [label, hitem]
      obtain ⟨hrefuse, hrefused⟩ :=
        Relay.step_refuse freshParse relayCapacity (done ++ s.pending) ev
      rw [hlabel, ← hrefused]
      exact match_one hrefuse ⟨halive', hcap', done, rfl, hdone⟩
    | @receive ev rest hphase hqueue =>
      refine match_none ⟨halive', hcap', done, ?_, hdone⟩
      rw [pending_receive hphase hqueue]
      rfl
    | @parsed ev task hphase hobserve =>
      have hparse := freshParse_eq_some.mpr (ParserTask.parse_of_observe hobserve)
      have hlabel : label s .observe = [] := by simp [label, hphase, hparse]
      rw [hlabel]
      refine match_none ⟨halive', hcap', done, ?_, hdone⟩
      rw [pending_of_event (by rw [hphase]; rfl)]
      rfl
    | @rejected ev e task hphase hobserve =>
      have hheld := @pending_of_event O s ev (by rw [hphase]; rfl)
      -- whatever the reused slot held, the event is one that does not parse
      have hlen := hrel.alive.bounded ev (by rw [hheld]; exact List.mem_cons_self)
      have hparse := ParserTask.freshParse_of_observe_err hcalm hlen hobserve
      have hlabel : label s .observe = [.discarded ev] := by simp [label, hphase, hparse]
      obtain ⟨hdiscard, hdiscarded⟩ :=
        Relay.step_discard relayCapacity hparse done s.rawQueue
      rw [hlabel, hheld, ← hdiscarded]
      exact match_one hdiscard ⟨halive', hcap', done, rfl, hdone⟩
    | @died ev task hphase hobserve => exact absurd rfl halive'.notDead
    | @sent ev old hphase hroom =>
      -- the event passes from the pending ones to those that wait behind the parser
      have hready := hrel.alive.ready ev hphase
      refine match_none ⟨halive', hcap', done ++ [ev], ?_, ?_⟩
      · rw [pending_of_event (by rw [hphase]; rfl), List.append_assoc]
        rfl
      · rw [List.map_append, hdone, List.map_singleton, hready]
        simp only [List.map_append, List.map_cons, List.map_nil, List.append_assoc]
    | @logFull ev hphase =>
      have hlabel : label s (.send .full) = [.overflowed ev] := by simp [label, hphase]
      have hheld := @pending_of_event O s ev (by rw [hphase]; rfl)
      obtain ⟨hdrop, hdropped⟩ :=
        Relay.step_drop freshParse relayCapacity ev done s.rawQueue
      rw [hlabel, hheld, ← hdropped]
      exact match_one hdrop ⟨halive', hcap', done, rfl, hdone⟩
    | @receiveLog m rest hwriting hqueue =>
      refine match_none ⟨halive', hcap', done, rfl, ?_⟩
      rw [hdone, hwriting, hqueue]
      rfl
    | @write m hwriting =>
      -- the message at hand is that of the oldest event behind the parser
      have hlabel : label s .write = [.delivered m] := by simp [label, hwriting]
      rw [hwriting] at hdone
      obtain ⟨ev, rest, rfl, hev, hrest⟩ := List.map_eq_cons_iff.mp hdone
      obtain ⟨hdeliver, hdelivered⟩ :=
        Relay.step_deliver relayCapacity hev (rest ++ s.pending)
      rw [hlabel, ← hdelivered]
      exact match_one hdeliver ⟨halive', hcap', rest, rfl, hrest⟩
    | @writeError m hwriting =>
      have hlabel : label s .writeError = [.failed m] := by simp [label, hwriting]
      rw [hwriting] at hdone
      obtain ⟨ev, rest, rfl, hev, hrest⟩ := List.map_eq_cons_iff.mp hdone
      obtain ⟨hfail, hfailed⟩ :=
        Relay.step_fail relayCapacity hev (rest ++ s.pending)
      rw [hlabel, ← hfailed]
      exact match_one hfail ⟨halive', hcap', rest, rfl, hrest⟩

/-! ## The laws of the relay, for every interleaving -/

omit [DnsObserver O] in
/-- The events that a step takes from the ring buffer, and the messages that it writes. -/
theorem label_parts (s : Pipeline O) (a : Action) :
    (Relay.offered (label s a), Relay.delivered (label s a)) =
      match a with
      | .consume item _ => ((eventOf item).toList, [])
      | .write => ([], s.writing.toList)
      | _ => ([], []) := by
  cases a with
  | consume item answer =>
    cases hitem : eventOf item with
    | none => simp [label, hitem, Relay.offered, Relay.delivered]
    | some ev => cases answer <;> simp [label, hitem, Relay.offered, Relay.delivered]
  | observe =>
    cases hphase : s.phase with
    | received ev =>
      cases hparse : freshParse ev <;>
        simp [label, hphase, hparse, Relay.offered, Relay.delivered]
    | _ => simp [label, hphase, Relay.offered, Relay.delivered]
  | send answer =>
    cases answer with
    | slot old => rfl
    | full => cases hphase : s.phase <;> simp [label, hphase, Relay.offered, Relay.delivered]
  | write =>
    cases hwriting : s.writing <;> simp [label, hwriting, Relay.offered, Relay.delivered]
  | writeError =>
    cases hwriting : s.writing <;> simp [label, hwriting, Relay.offered, Relay.delivered]
  | receive => rfl
  | receiveLog => rfl

/-- The labels say which events were taken and which messages were written. -/
theorem report_parts {dnsObs : O} {actions : List Action}
    (hrun : actions.foldlM step (start dnsObs) = some s) :
    Relay.offered (report dnsObs actions) = s.events ∧
      Relay.delivered (report dnsObs actions) = s.log := by
  refine trace_invariant (I := fun s tr => Relay.offered tr = s.events ∧ Relay.delivered tr = s.log)
    ⟨rfl, rfl⟩ ?_ hrun
  rintro s a s' tr ⟨hoffered, hdelivered⟩ hstep
  -- a step adds its own label to what was reported before
  have hoff : Relay.offered (label s a) = _ := congrArg Prod.fst (label_parts s a)
  have hdel : Relay.delivered (label s a) = _ := congrArg Prod.snd (label_parts s a)
  rw [Relay.offered_append, Relay.delivered_append, hoffered, hdelivered, hoff, hdel]
  cases step_move hstep <;> simp_all [events]

omit [DnsObserver O] in
/-- Only a failed write is reported as one, and only the answer `Full` drops an event. -/
theorem action_of_mem_label {l : Relay.Label RawDnsEvent DnsResponse} (hl : l ∈ label s a) :
    (∀ m, l = .failed m → a = .writeError) ∧
      ∀ ev, l = .overflowed ev → (∃ item, a = .consume item .full) ∨ a = .send .full := by
  cases a with
  | consume item answer =>
    cases hitem : eventOf item with
    | none => simp [label, hitem] at hl
    | some ev =>
      cases answer with
      | slot =>
        obtain rfl : l = .offered ev := by simpa [label, hitem] using hl
        simp
      | full =>
        obtain rfl | rfl : l = .offered ev ∨ l = .overflowed ev := by simpa [label, hitem] using hl
        · simp
        · simp
  | observe =>
    cases hphase : s.phase with
    | received ev =>
      cases hparse : freshParse ev <;> simp [label, hphase, hparse] at hl
      subst hl
      simp
    | _ => simp [label, hphase] at hl
  | send answer =>
    cases answer with
    | slot old => exact absurd hl List.not_mem_nil
    | full => cases hphase : s.phase <;> simp_all [label]
  | write => cases hwriting : s.writing <;> simp_all [label]
  | writeError => cases hwriting : s.writing <;> simp_all [label]
  | receive => exact absurd hl List.not_mem_nil
  | receiveLog => exact absurd hl List.not_mem_nil

/-- Without a failed write none is reported. -/
theorem failed_eq_nil {dnsObs : O} {actions : List Action} (hwrite : .writeError ∉ actions) :
    Relay.failed (report dnsObs actions) = [] := by
  refine List.filterMap_eq_nil_iff.mpr (forall_mem_trace (fun s a ha l hl => ?_) _)
  cases l with
  | failed m =>
    have haction := (action_of_mem_label hl).1 m rfl
    exact absurd (haction ▸ ha) hwrite
  | _ => rfl

/-- Without the answer `Full` no event is dropped. -/
theorem overflowed_eq_nil {dnsObs : O} {actions : List Action}
    (hraw : ∀ item, .consume item .full ∉ actions) (hlog : .send .full ∉ actions) :
    Relay.overflowed (report dnsObs actions) = [] := by
  refine List.filterMap_eq_nil_iff.mpr (forall_mem_trace (fun s a ha l hl => ?_) _)
  cases l with
  | overflowed ev =>
    rcases (action_of_mem_label hl).2 ev rfl with ⟨item, rfl⟩ | rfl
    · exact absurd ha (hraw item)
    · exact absurd ha hlog
  | _ => rfl

/-- What every run of the pipeline has in common with the relay: its report is what can be seen of
the fates of the events. -/
theorem report_laws (hcalm : DnsObserver.Calm O) {dnsObs : O} {actions : List Action}
    (hbounded : ∀ a ∈ actions, a.Bounded) (hrun : actions.foldlM step (start dnsObs) = some s) :
    ∃ inside fates, Relates s inside ∧
      fates.flatMap (Relay.Label.see freshParse) = report dnsObs actions ∧
      Relay.Ordered inside fates ∧ Relay.Conserved inside fates ∧
      Relay.Justified freshParse relayCapacity inside fates := by
  obtain ⟨relayActions, inside, hrelay, hrel, htrace⟩ :=
    (simulation hcalm).run (relates_start dnsObs) hbounded hrun
  refine ⟨inside, trace (Relay.step freshParse relayCapacity) Relay.fate [] relayActions, hrel, ?_,
    Relay.laws hrelay⟩
  rw [← trace_flatMap]
  exact htrace

/-- What was written and what is still inside is all there should be, exactly if no failed write was
reported and no event that parses was reported as dropped. -/
theorem complete_iff (hcalm : DnsObserver.Calm O) {dnsObs : O} {actions : List Action}
    (hbounded : ∀ a ∈ actions, a.Bounded) (hrun : actions.foldlM step (start dnsObs) = some s) :
    s.log ++ s.writing.toList ++ s.logQueue ++ s.pending.filterMap freshParse =
        s.events.filterMap freshParse ↔
      Relay.failed (report dnsObs actions) = [] ∧
        (Relay.overflowed (report dnsObs actions)).filterMap freshParse = [] := by
  obtain ⟨inside, fates, ⟨-, -, done, rfl, hdone⟩, hsee, horder, hconserved, hjust⟩ :=
    report_laws hcalm hbounded hrun
  obtain ⟨hoffered, hdelivered⟩ := report_parts hrun
  obtain ⟨hseenOffered, hseenDelivered, hseenFailed, -, hseenOverflowed⟩ :=
    Relay.parts_see freshParse fates
  rw [hsee] at hseenOffered hseenDelivered hseenFailed hseenOverflowed
  -- what failed has a result, so it is seen
  have hfailed : Relay.failed (report dnsObs actions) = [] ↔ Relay.failed fates = [] := by
    rw [hseenFailed, ← List.length_eq_zero_iff, ← List.length_eq_zero_iff,
      List.filterMap_length_eq_length.mpr]
    exact fun ev hev => hjust.result ev (List.mem_append_right _ hev)
  have hwaiting : done.filterMap freshParse = s.writing.toList ++ s.logQueue := by
    have hsome := congrArg (List.filterMap id) hdone
    simp only [List.filterMap_map, Function.id_comp, List.filterMap_some] at hsome
    exact hsome
  rw [hfailed, hseenOverflowed, ← Relay.lossless horder hconserved hjust, ← hseenOffered, hoffered,
    List.filterMap_append, ← hseenDelivered, hdelivered, List.filterMap_append, hwaiting]
  simp only [List.append_assoc]

/-- An item that the kernel program submits keeps the bound of its event. -/
theorem bounded_image {ev : RawDnsEvent} (h : ev.payloadLen.toNat ≤ maxDnsPayloadSize)
    (answer : RawSend) : (Action.consume ev.image answer).Bounded := by
  intro ev' hev'
  rw [eventOf_image] at hev'
  obtain rfl := Option.some.inj hev'
  exact h

/-- The events of the example run keep the bound on `payload_len`. -/
theorem exampleRun_bounded : ∀ a ∈ exampleRun, a.Bounded := by
  have hsmall : (Action.consume [0, 1, 2] .slot).Bounded := by
    intro ev hev
    rw [eventOf, dif_neg (by decide)] at hev
    exact absurd hev (by simp)
  have hA : ∀ b : UInt8, (Action.consume (exampleEventA 10 0 0 b).image .slot).Bounded :=
    fun b => bounded_image (Nat.le_of_ble_eq_true rfl) .slot
  have hNone : (Action.consume exampleEventNone.image .slot).Bounded :=
    bounded_image (by decide) .slot
  simp only [exampleRun, List.forall_mem_cons]
  exact ⟨hA 1, hsmall, trivial, hNone, trivial, hA 2, trivial, trivial, trivial, trivial, trivial,
    trivial, trivial, trivial, by simp⟩

/-- One message is written and one waits. -/
theorem exampleRun_runs :
    ∃ s, exampleRun.foldlM step (start policyForA) = some s ∧ s.log.length = 1 ∧
      s.logQueue.length = 1 ∧ s.consumed.length = 4 := by
  have hrun : ((exampleRun.foldlM step (start policyForA)).map
      fun s => (s.log.length, s.logQueue.length, s.consumed.length)) = some (1, 1, 4) := by
    decide +kernel
  obtain ⟨s, hs, hlengths⟩ := Option.map_eq_some_iff.mp hrun
  obtain ⟨hlog, hqueue, hconsumed⟩ := by simpa using hlengths
  exact ⟨s, hs, hlog, hqueue, hconsumed⟩

/-- Refinement. Every run of the three stages, in every interleaving and whatever the queues answer,
has the labels of a run of the relay. -/
theorem refines_relay (hcalm : DnsObserver.Calm O) (dnsObs : O) (actions : List Action)
    (s : Pipeline O) (hbounded : ∀ a ∈ actions, a.Bounded)
    (hrun : actions.foldlM step (start dnsObs) = some s) :
    ∃ (relayActions : List (Relay.Action RawDnsEvent)) (done : List RawDnsEvent),
      relayActions.foldlM (Relay.step freshParse relayCapacity) [] = some (done ++ s.pending) ∧
      done.map freshParse = (s.writing.toList ++ s.logQueue).map some ∧
      trace (Relay.step freshParse relayCapacity) (Relay.label freshParse) [] relayActions =
        report dnsObs actions ∧
      Relay.offered (report dnsObs actions) = s.events ∧
      Relay.delivered (report dnsObs actions) = s.log := by
  obtain ⟨relayActions, inside, hrelay, ⟨-, -, done, rfl, hdone⟩, htrace⟩ :=
    (simulation hcalm).run (relates_start dnsObs) hbounded hrun
  exact ⟨relayActions, done, hrelay, hdone, htrace, report_parts hrun⟩

theorem refines_relay_example :
    ∃ s, exampleRun.foldlM step (start policyForA) = some s ∧ s.log.length = 1 ∧
      ∃ (relayActions : List (Relay.Action RawDnsEvent)) (done : List RawDnsEvent),
        relayActions.foldlM (Relay.step freshParse relayCapacity) [] = some (done ++ s.pending) ∧
        trace (Relay.step freshParse relayCapacity) (Relay.label freshParse) [] relayActions =
          report policyForA exampleRun := by
  obtain ⟨s, hs, hlog, -⟩ := exampleRun_runs
  obtain ⟨relayActions, done, hrelay, -, htrace, -⟩ :=
    refines_relay FqdnPolicyEngine.calm policyForA exampleRun s exampleRun_bounded hs
  exact ⟨s, hs, hlog, relayActions, done, hrelay, htrace⟩

/-- If each of the events has a result, the results are those that are left without the others. -/
theorem map_eq_map_some {f : RawDnsEvent → Option DnsResponse} {evs : List RawDnsEvent}
    (h : ∀ ev ∈ evs, (f ev).isSome) : evs.map f = (evs.filterMap f).map some := by
  rw [List.map_filterMap_some_eq_filter_map_isSome, List.filter_eq_self.mpr]
  intro r hr
  obtain ⟨ev, hev, rfl⟩ := List.mem_map.mp hr
  exact h ev hev

/-- Conservation. Every event that was taken from the ring buffer is one of those that were written,
failed to be written, wait behind the parser, were dropped because a queue answered `Full`, were not
parsed, or are still in front of the parser's answer, and each is only one of these. The written
ones, those that wait and those in front come in the order in which they were taken. -/
theorem events_conserved (hcalm : DnsObserver.Calm O) (dnsObs : O) (actions : List Action)
    (s : Pipeline O) (hbounded : ∀ a ∈ actions, a.Bounded)
    (hrun : actions.foldlM step (start dnsObs) = some s) :
    ∃ written failed waiting : List RawDnsEvent,
      s.events ~ written ++ failed ++ waiting ++ Relay.overflowed (report dnsObs actions) ++
          Relay.discarded (report dnsObs actions) ++ s.pending ∧
        written ++ waiting ++ s.pending <+ s.events ∧
        written.map freshParse = s.log.map some ∧
        failed.map freshParse = (Relay.failed (report dnsObs actions)).map some ∧
        waiting.map freshParse = (s.writing.toList ++ s.logQueue).map some ∧
        ∀ ev ∈ Relay.discarded (report dnsObs actions), freshParse ev = none := by
  obtain ⟨inside, fates, ⟨-, -, done, rfl, hdone⟩, hsee, horder, hconserved, hjust⟩ :=
    report_laws hcalm hbounded hrun
  obtain ⟨hoffered, hdelivered⟩ := report_parts hrun
  obtain ⟨hseenOffered, hseenDelivered, hseenFailed, hseenDiscarded, hseenOverflowed⟩ :=
    Relay.parts_see freshParse fates
  rw [hsee] at hseenOffered hseenDelivered hseenFailed hseenDiscarded hseenOverflowed
  rw [Relay.Conserved, ← hseenOffered, hoffered, ← hseenOverflowed, ← hseenDiscarded] at hconserved
  rw [Relay.Ordered, ← hseenOffered, hoffered, ← List.append_assoc] at horder
  refine ⟨Relay.delivered fates, Relay.failed fates, done, hconserved.trans ?_, horder, ?_, ?_,
    hdone, ?_⟩
  · -- only the events behind the parser change their place
    have hswap := (List.perm_append_comm_assoc (Relay.overflowed (report dnsObs actions) ++
      Relay.discarded (report dnsObs actions)) done s.pending).append_left
        (Relay.delivered fates ++ Relay.failed fates)
    simp only [List.append_assoc] at hswap ⊢
    exact hswap
  · rw [map_eq_map_some fun ev hev => hjust.result ev (List.mem_append_left _ hev),
      ← hseenDelivered, hdelivered]
  · rw [map_eq_map_some fun ev hev => hjust.result ev (List.mem_append_right _ hev), ← hseenFailed]
  · rw [hseenDiscarded]
    exact hjust.noResult

theorem events_conserved_example :
    ∃ s, exampleRun.foldlM step (start policyForA) = some s ∧ s.log.length = 1 ∧
      ∃ written failed waiting : List RawDnsEvent,
        s.events ~ written ++ failed ++ waiting ++
          Relay.overflowed (report policyForA exampleRun) ++
          Relay.discarded (report policyForA exampleRun) ++ s.pending ∧
        written.map freshParse = s.log.map some := by
  obtain ⟨s, hs, hlog, -⟩ := exampleRun_runs
  obtain ⟨written, failed, waiting, hevents, -, hwritten, -⟩ :=
    events_conserved FqdnPolicyEngine.calm policyForA exampleRun s exampleRun_bounded hs
  exact ⟨s, hs, hlog, written, failed, waiting, hevents, hwritten⟩

/-- Events are lost only where it is reported. In every state of every run, the log followed by what
is still inside is what the taken events parse to, in order, exactly if no write has failed and no
event that parses was dropped at a queue; and this is so in a run in which no queue answers that it
is full and no write fails. -/
theorem lost_only_if_reported (hcalm : DnsObserver.Calm O) (dnsObs : O) (actions : List Action)
    (s : Pipeline O) (hbounded : ∀ a ∈ actions, a.Bounded)
    (hrun : actions.foldlM step (start dnsObs) = some s) :
    (s.log ++ s.writing.toList ++ s.logQueue ++ s.pending.filterMap freshParse =
        s.events.filterMap freshParse ↔
      Relay.failed (report dnsObs actions) = [] ∧
        (Relay.overflowed (report dnsObs actions)).filterMap freshParse = []) ∧
      ((∀ item, .consume item .full ∉ actions) → .send .full ∉ actions → .writeError ∉ actions →
        s.log ++ s.writing.toList ++ s.logQueue ++ s.pending.filterMap freshParse =
          s.events.filterMap freshParse) := by
  have hcomplete := complete_iff hcalm hbounded hrun
  refine ⟨hcomplete, fun hraw hlog hwrite => hcomplete.mpr ⟨failed_eq_nil hwrite, ?_⟩⟩
  rw [overflowed_eq_nil hraw hlog]
  rfl

theorem lost_only_if_reported_example :
    ∃ s, exampleRun.foldlM step (start policyForA) = some s ∧ s.log.length = 1 ∧
      s.log ++ s.writing.toList ++ s.logQueue ++ s.pending.filterMap freshParse =
        s.events.filterMap freshParse := by
  obtain ⟨s, hs, hlog, -⟩ := exampleRun_runs
  exact ⟨s, hs, hlog, (lost_only_if_reported FqdnPolicyEngine.calm policyForA exampleRun s
    exampleRun_bounded hs).2 (by simp [exampleRun]) (by simp [exampleRun]) (by simp [exampleRun])⟩

end Pipeline

end CiliumMini
