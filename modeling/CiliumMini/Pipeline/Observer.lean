import CiliumMini.Pipeline.Drain
import CiliumMini.Pipeline.AllowMap

/-!
# The observer and the pipeline

The observer only looks on: with everything but the observer's state forgotten, the pipeline takes
the steps of one that has no observer (`step_forget`). So the observer does not influence the queues
or the log (`observer_silent`).

In the other direction, what the policy engine has seen in a state of a run are the events that got
through the first queue, in order, less those that still wait there. Its map is a function of these
(`allowMap_interleaved`), whatever the interleaving and the log queue did.
-/

namespace CiliumMini

open Exec Run
open scoped List

/-- An observer that looks at nothing. -/
inductive NoObserver where
  | mk

instance : DnsObserver NoObserver := ⟨fun _ => pure ()⟩

theorem NoObserver.calm : DnsObserver.Calm NoObserver := by
  intro r o _
  exact (by simp : (Outcome.ok () : Outcome AnyhowError Unit) ≠ .panic)

/-- What `FqdnPolicyEngine::new` makes of an empty map. -/
def freshEngine (domains : Finset String) : FqdnPolicyEngine := ⟨.empty, domains⟩

namespace Pipeline

section Silent

variable {O : Type}

/-- Everything but the observer's state. -/
def forget (s : Pipeline O) : Pipeline NoObserver where
  consumed := s.consumed
  rawQueue := s.rawQueue
  phase := s.phase
  task := ⟨.mk, s.task.localDnsResponse⟩
  logQueue := s.logQueue
  writing := s.writing
  log := s.log

variable [DnsObserver O] {s : Pipeline O}

omit [DnsObserver O] in
/-- The reader does not look at the observer. -/
theorem consume_forget (s : Pipeline O) (item : List UInt8) (answer : RawSend) :
    (s.consume item answer).map forget = s.forget.consume item answer := by
  cases hitem : eventOf item with
  | none => simp [consume, forget, hitem]
  | some ev =>
    cases answer with
    | slot =>
      -- the room is the same without the observer
      simp only [consume, hitem]
      by_cases hroom : s.rawRoom
      · exact (congrArg (Option.map forget) (if_pos hroom)).trans (if_pos hroom).symm
      · exact (congrArg (Option.map forget) (if_neg hroom)).trans (if_neg hroom).symm
    | full => simp [consume, forget, hitem]

/-- The parser's step: the response and the verdict are the parser's alone. -/
theorem observe_forget (hcalm : DnsObserver.Calm O) (hi : Alive s) :
    (s.step .observe).map forget = s.forget.step .observe := by
  cases hphase : s.phase with
  | received ev =>
    have hlen := hi.bounded ev (by rw [pending_of_event (by rw [hphase]; rfl)]; simp)
    cases hparse : freshParse ev with
    | some m =>
      have hhere := ParserTask.observe_some hcalm hlen hparse s.task
      have hthere := ParserTask.observe_some NoObserver.calm hlen hparse s.forget.task
      rw [step, step, show s.forget.phase = s.phase from rfl, hphase]
      simp only [hhere, hthere]
      rfl
    | none =>
      obtain ⟨e, m, herr⟩ := ParserTask.parse_eq_err hlen hparse
      have hhere := ParserTask.observe_run_err (t := s.task) herr
      have hthere := ParserTask.observe_run_err (t := s.forget.task) herr
      rw [step, step, show s.forget.phase = s.phase from rfl, hphase]
      simp only [hhere, hthere]
      rfl
  | _ => simp [step, forget, hphase]

/-- Every step is possible with the observer exactly if it is without, and does the same. -/
theorem step_forget (hcalm : DnsObserver.Calm O) (hi : Alive s) (a : Action) :
    (s.step a).map forget = s.forget.step a := by
  cases a with
  | consume item answer => exact consume_forget s item answer
  | receive =>
    cases hphase : s.phase <;> cases hqueue : s.rawQueue <;> simp [step, forget, hphase, hqueue]
  | observe => exact observe_forget hcalm hi
  | send answer =>
    cases hphase : s.phase with
    | parsed ev =>
      have hphase' : s.forget.phase = .parsed ev := hphase
      cases answer with
      | slot old =>
        -- the slot takes the response, and the room for it is the same
        by_cases hroom : s.logRoom
        · have hroom' : s.forget.logRoom := hroom
          simp only [step, hphase, hphase', if_pos hroom, if_pos hroom']
          rfl
        · have hroom' : ¬ s.forget.logRoom := hroom
          simp only [step, hphase, hphase', if_neg hroom, if_neg hroom']
          rfl
      | full =>
        simp only [step, hphase, hphase']
        rfl
    | _ => simp [step, forget, hphase]
  | receiveLog =>
    cases hwriting : s.writing <;> cases hqueue : s.logQueue <;>
      simp [step, forget, hwriting, hqueue]
  | write => cases hwriting : s.writing <;> simp [step, forget, hwriting]
  | writeError => cases hwriting : s.writing <;> simp [step, forget, hwriting]

/-- A run is possible with the observer exactly if it is without, and does the same. -/
theorem run_forget (hcalm : DnsObserver.Calm O) {actions : List Action}
    (hbounded : ∀ a ∈ actions, a.Bounded) (hi : Alive s) :
    (actions.foldlM step s).map forget = actions.foldlM step s.forget := by
  induction actions generalizing s with
  | nil => rfl
  | cons a actions ih =>
    have hstep := step_forget hcalm hi a
    rw [List.foldlM_cons, List.foldlM_cons, ← hstep]
    cases hs : s.step a with
    | none => rfl
    | some s₁ =>
      have halive := hi.move hcalm (hbounded a List.mem_cons_self) (step_move hs)
      exact ih (fun a' ha' => hbounded a' (List.mem_cons_of_mem a ha')) halive

end Silent

/-- The observer is silent: a run is possible with one calm observer exactly if it is with another,
and the two end in the same state but for the observers. -/
theorem observer_silent {O O' : Type} [DnsObserver O] [DnsObserver O']
    (hcalm : DnsObserver.Calm O) (hcalm' : DnsObserver.Calm O') (dnsObs : O) (dnsObs' : O')
    (actions : List Action) (hbounded : ∀ a ∈ actions, a.Bounded) :
    (actions.foldlM step (start dnsObs)).map forget =
      (actions.foldlM step (start dnsObs')).map forget := by
  rw [run_forget hcalm hbounded (alive_start dnsObs),
    run_forget hcalm' hbounded (alive_start dnsObs')]
  rfl

/-- The example run writes the same log without an observer. -/
theorem observer_silent_example :
    ∃ s s', exampleRun.foldlM step (start policyForA) = some s ∧
      exampleRun.foldlM step (start NoObserver.mk) = some s' ∧ s.log.length = 1 ∧
      s.log = s'.log := by
  obtain ⟨s, hs, hlog, -⟩ := exampleRun_runs
  have hsame := observer_silent FqdnPolicyEngine.calm NoObserver.calm policyForA NoObserver.mk
    exampleRun exampleRun_bounded
  rw [hs] at hsame
  obtain ⟨s', hs', hforget⟩ := Option.map_eq_some_iff.mp hsame.symm
  exact ⟨s, s', hs, hs', hlog, (congrArg Pipeline.log hforget).symm⟩

/-! ## What the policy engine has seen -/

/-- What happens to an event at the first queue and at the parser. -/
inductive Passage where
  | queued (ev : RawDnsEvent)
  | observed (ev : RawDnsEvent)

/-- The events that were queued. -/
def queued (ps : List Passage) : List RawDnsEvent :=
  ps.filterMap fun | .queued ev => some ev | .observed _ => none

/-- The events that were parsed and, if that succeeded, shown to the observer. -/
def observed (ps : List Passage) : List RawDnsEvent :=
  ps.filterMap fun | .observed ev => some ev | .queued _ => none

section Seen

variable {O : Type}

/-- The passages of a step. -/
def passage (s : Pipeline O) : Action → List Passage
  | .consume item .slot => (eventOf item).toList.map .queued
  | .observe =>
    match s.phase with
    | .received ev => [.observed ev]
    | _ => []
  | _ => []

/-- The passages of a run from the start. -/
def passages [DnsObserver O] (dnsObs : O) (actions : List Action) : List Passage :=
  trace step passage (start dnsObs) actions

/-- The events that wait for the parser. -/
def unobserved (s : Pipeline O) : List RawDnsEvent :=
  match s.phase with
  | .received ev => ev :: s.rawQueue
  | _ => s.rawQueue

/-- With nothing in front of the parser's answer, nothing waits for the parser. -/
theorem unobserved_eq_nil {s : Pipeline O} (h : s.pending = []) : s.unobserved = [] := by
  obtain ⟨hqueue, hphase⟩ := waiting_of_pending_eq_nil h
  rcases hphase with hwaiting | hdead
  · simp [unobserved, hwaiting, hqueue]
  · simp [unobserved, hdead, hqueue]

/-- Unless the first queue answers that it is full, every event that is taken is queued. -/
theorem queued_eq_events [DnsObserver O] {s : Pipeline O} {dnsObs : O} {actions : List Action}
    (hraw : ∀ item, .consume item .full ∉ actions)
    (hrun : actions.foldlM step (start dnsObs) = some s) :
    queued (passages dnsObs actions) = s.events := by
  refine trace_invariant_of_mem (I := fun s ps => queued ps = s.events) rfl ?_ hrun
  intro s₁ a s₂ ps ha hi hstep
  have hqueued : queued (ps ++ passage s₁ a) = s₁.events ++ queued (passage s₁ a) := by
    rw [← hi]
    exact List.filterMap_append
  rw [hqueued]
  cases step_move hstep with
  | @skip item answer hitem => cases answer <;> simp [events, passage, queued, hitem]
  | enqueue hitem => simp [events, passage, queued, hitem]
  | rawFull => exact absurd ha (hraw _)
  | parsed hphase => simp [events, passage, queued, hphase]
  | rejected hphase => simp [events, passage, queued, hphase]
  | died hphase => simp [events, passage, queued, hphase]
  | _ => simp [events, passage, queued]

end Seen

/-- What the engine holds, and which events it has seen. -/
structure Seen (domains : Finset String) (s : Pipeline FqdnPolicyEngine) (ps : List Passage) :
    Prop where
  split : queued ps = observed ps ++ s.unobserved
  sublist : queued ps <+ s.events
  engine : s.task.dnsObs = (freshEngine domains).insertKeys
    ((observed ps).filterMap (RawDnsEvent.derivedKey domains))

/-- At the start the engine has seen nothing. -/
theorem seen_start (domains : Finset String) : Seen domains (start (freshEngine domains)) [] :=
  ⟨rfl, List.Sublist.refl _, rfl⟩

/-- The map holds the first keys that fit. -/
theorem Seen.keys_eq {domains : Finset String} {s : Pipeline FqdnPolicyEngine} {ps : List Passage}
    (h : Seen domains s ps) :
    s.task.dnsObs.allowedIpMap.keys =
      ((observed ps).filterMap (RawDnsEvent.derivedKey domains)).eraseDups.take
        allowedIpMapCapacity := by
  rw [h.engine]
  exact BoundedMap.keys_insertAll _ _

/-- Whether the event is parsed or not, the engine ends with its derived key inserted. -/
theorem observe_engine {ev : RawDnsEvent} (hlen : ev.payloadLen.toNat ≤ maxDnsPayloadSize)
    {t t' : ParserTask FqdnPolicyEngine} {out : Outcome DnsParseError Unit}
    (h : (ParserTask.observe ev).run t = (out, t')) :
    t'.dnsObs = t.dnsObs.insertKeys (ev.derivedKey t.dnsObs.allowedDomains).toList := by
  unfold RawDnsEvent.derivedKey
  rcases hparse : (parseDnsInto ev).run default with ⟨⟨⟩ | e | _, m⟩
  · obtain ⟨out', hout, hupdate⟩ :=
      FqdnPolicyEngine.update_run (e := t.dnsObs) (parseDnsInto_familyBacked hlen hparse)
    rw [ParserTask.observe_run_ok hparse hout hupdate] at h
    rw [← (Prod.mk.inj h).2, ParserTask.allowedKey_eq]
  · rw [ParserTask.observe_run_err hparse] at h
    rw [← (Prod.mk.inj h).2]
    rfl
  · exact absurd (congrArg Prod.fst hparse) (parseDnsInto_ne_panic hlen default)

/-- The parser's step moves one event from the waiting to the seen ones. -/
theorem Seen.observe {domains : Finset String} {s s' : Pipeline FqdnPolicyEngine}
    {ps : List Passage} (hi : Seen domains s ps) {ev : RawDnsEvent}
    (hlen : ev.payloadLen.toNat ≤ maxDnsPayloadSize) (hphase : s.phase = .received ev)
    {out : Outcome DnsParseError Unit}
    (hobserve : (ParserTask.observe ev).run s.task = (out, s'.task))
    (hunobserved : s'.unobserved = s.rawQueue) (hevents : s'.events = s.events) :
    Seen domains s' (ps ++ passage s .observe) := by
  have hpass : passage s .observe = [.observed ev] := by simp [passage, hphase]
  have hwaiting : s.unobserved = ev :: s.rawQueue := by simp [unobserved, hphase]
  have hqueued : queued (ps ++ [.observed ev]) = queued ps := by simp [queued]
  have hobserved : observed (ps ++ [.observed ev]) = observed ps ++ [ev] := by simp [observed]
  have hkeys := observe_engine hlen hobserve
  have hdomains : s.task.dnsObs.allowedDomains = domains := by
    rw [hi.engine]
    rfl
  rw [hpass]
  refine ⟨?_, ?_, ?_⟩
  · rw [hqueued, hobserved, hunobserved, hi.split, hwaiting, List.append_assoc]
    rfl
  · rw [hqueued, hevents]
    exact hi.sublist
  · rw [hobserved, hkeys, hdomains, hi.engine, FqdnPolicyEngine.insertKeys_insertKeys,
      List.filterMap_append]
    cases hkey : ev.derivedKey domains <;> simp [hkey]

/-- A step that neither queues nor observes. -/
theorem Seen.frame {domains : Finset String} {s s' : Pipeline FqdnPolicyEngine} {ps : List Passage}
    (h : Seen domains s ps) (hunobserved : s'.unobserved = s.unobserved)
    (hevents : s.events <+ s'.events) (hobs : s'.task.dnsObs = s.task.dnsObs) :
    Seen domains s' (ps ++ []) := by
  rw [List.append_nil]
  exact ⟨by rw [h.split, hunobserved], h.sublist.trans hevents, by rw [hobs, h.engine]⟩

/-- Every move keeps what the engine has seen in step with what it holds. -/
theorem Seen.move {domains : Finset String} {s s' : Pipeline FqdnPolicyEngine} {a : Action}
    {ps : List Passage} (hi : Seen domains s ps) (halive : Alive s) (h : Move s a s') :
    Seen domains s' (ps ++ passage s a) := by
  have hheld : ∀ {ev}, s.phase = .received ev → ev.payloadLen.toNat ≤ maxDnsPayloadSize := by
    intro ev hphase
    exact halive.bounded ev (by rw [pending_of_event (by rw [hphase]; rfl)]; simp)
  cases h with
  | @skip item answer hitem =>
    have hpass : passage s (.consume item answer) = [] := by
      cases answer <;> simp [passage, hitem]
    rw [hpass]
    exact hi.frame rfl (by simp [events, hitem]) rfl
  | @enqueue item ev hitem hroom =>
    have hpass : passage s (.consume item .slot) = [.queued ev] := by simp [passage, hitem]
    have hqueued : queued (ps ++ [.queued ev]) = queued ps ++ [ev] := by simp [queued]
    have hobserved : observed (ps ++ [.queued ev]) = observed ps := by simp [observed]
    have hbehind : { s with consumed := s.consumed ++ [item], rawQueue := s.rawQueue ++ [ev] :
        Pipeline FqdnPolicyEngine }.unobserved = s.unobserved ++ [ev] := by
      cases hphase : s.phase <;> simp [unobserved, hphase]
    rw [hpass]
    refine ⟨?_, ?_, ?_⟩
    · rw [hqueued, hobserved, hbehind, hi.split, List.append_assoc]
    · rw [hqueued]
      simpa [events, hitem] using hi.sublist.append_right [ev]
    · rw [hobserved]
      exact hi.engine
  | rawFull hitem => exact hi.frame rfl (by simp [events]) rfl
  | @receive ev rest hphase hqueue =>
    exact hi.frame (by simp [unobserved, hphase, hqueue]) (List.Sublist.refl _) rfl
  | @parsed ev task hphase hobserve => exact hi.observe (hheld hphase) hphase hobserve rfl rfl
  | @rejected ev e task hphase hobserve => exact hi.observe (hheld hphase) hphase hobserve rfl rfl
  | @died ev task hphase hobserve => exact hi.observe (hheld hphase) hphase hobserve rfl rfl
  | @sent ev old hphase hroom =>
    exact hi.frame (by simp [unobserved, hphase]) (List.Sublist.refl _) rfl
  | @logFull ev hphase =>
    exact hi.frame (by simp [unobserved, hphase]) (List.Sublist.refl _) rfl
  | receiveLog hwriting hqueue => exact hi.frame rfl (List.Sublist.refl _) rfl
  | write hwriting => exact hi.frame rfl (List.Sublist.refl _) rfl
  | writeError hwriting => exact hi.frame rfl (List.Sublist.refl _) rfl

/-- The same in every state of a run on events that keep the bound. -/
theorem seen_of_run {domains : Finset String} {actions : List Action}
    (hbounded : ∀ a ∈ actions, a.Bounded) {s : Pipeline FqdnPolicyEngine}
    (hrun : actions.foldlM step (start (freshEngine domains)) = some s) :
    Seen domains s (passages (freshEngine domains) actions) := by
  refine (trace_invariant_of_mem (I := fun s ps => Alive s ∧ Seen domains s ps)
    ⟨alive_start _, seen_start domains⟩ ?_ hrun).2
  rintro s₁ a s₂ ps ha ⟨halive, hseen⟩ hstep
  have hmove := step_move hstep
  exact ⟨halive.move FqdnPolicyEngine.calm (hbounded a ha) hmove, hseen.move halive hmove⟩

/-- The allow map in every interleaving. In every state of every run on events with a `payload_len`
of at most 512, the keys are the first 1024 distinct keys derived from the events that the parser
has handled. Those are, in order, the events that got through the first queue, less those that still
wait in it; the second queue and the writer do not matter. A key that is there stays there. -/
theorem allowMap_interleaved (domains : Finset String) (actions : List Action)
    (s : Pipeline FqdnPolicyEngine) (hbounded : ∀ a ∈ actions, a.Bounded)
    (hrun : actions.foldlM step (start (freshEngine domains)) = some s) :
    s.task.dnsObs.allowedIpMap.keys =
        ((observed (passages (freshEngine domains) actions)).filterMap
          (RawDnsEvent.derivedKey domains)).eraseDups.take allowedIpMapCapacity ∧
      observed (passages (freshEngine domains) actions) ++ s.unobserved =
        queued (passages (freshEngine domains) actions) ∧
      queued (passages (freshEngine domains) actions) <+ s.events ∧
      ∀ pre s₀, pre <+: actions → pre.foldlM step (start (freshEngine domains)) = some s₀ →
        s₀.task.dnsObs.allowedIpMap.keys <+: s.task.dnsObs.allowedIpMap.keys := by
  have hseen := seen_of_run hbounded hrun
  refine ⟨hseen.keys_eq, hseen.split.symm, hseen.sublist, ?_⟩
  intro pre s₀ hpre hrun₀
  have hseen₀ := seen_of_run (fun a ha => hbounded a (hpre.subset ha)) hrun₀
  obtain ⟨rest, rfl⟩ := hpre
  have hpassages : passages (freshEngine domains) (pre ++ rest) =
      passages (freshEngine domains) pre ++ trace step passage s₀ rest := trace_append hrun₀ rest
  have hobserved : observed (passages (freshEngine domains) (pre ++ rest)) =
      observed (passages (freshEngine domains) pre) ++ observed (trace step passage s₀ rest) := by
    rw [hpassages]
    exact List.filterMap_append
  rw [hseen₀.engine, hseen.engine, hobserved, List.filterMap_append,
    ← FqdnPolicyEngine.insertKeys_insertKeys]
  exact BoundedMap.keys_prefix_insertAll _ _ _

/-- The keys of the example run are those of the two events that parse. -/
theorem allowMap_interleaved_example :
    ∃ s, exampleRun.foldlM step (start (freshEngine {"a"})) = some s ∧
      s.task.dnsObs.allowedIpMap.keys =
        [.fromIpv4 ⟨[10, 0, 0, 1], rfl⟩, .fromIpv4 ⟨[10, 0, 0, 2], rfl⟩] := by
  obtain ⟨s, hs, -⟩ := exampleRun_runs
  have hkeys := (allowMap_interleaved {"a"} exampleRun s exampleRun_bounded hs).1
  refine ⟨s, hs, hkeys.trans ?_⟩
  decide +kernel

end Pipeline

end CiliumMini
