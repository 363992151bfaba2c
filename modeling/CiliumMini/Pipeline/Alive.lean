import CiliumMini.Pipeline.Topology

/-!
# What every run keeps

A calm observer is one that does not panic on a response the parser can produce; the policy engine
is calm. With a calm observer and events that keep the bound on `payload_len`, the parser task lives
on for ever (`Alive`). Neither queue ever holds more than its slots (`Capacities`).
-/

namespace CiliumMini

open Exec Run

/-- The observer does not panic on a response with a buffer as long as an address of its family. -/
def DnsObserver.Calm (O : Type) [DnsObserver O] : Prop :=
  ∀ (r : DnsResponse) (o : O), r.FamilyBacked → ((DnsObserver.update r).run o).1 ≠ .panic

/-- The policy engine only panics on a response that the parser cannot produce. -/
theorem FqdnPolicyEngine.calm : DnsObserver.Calm FqdnPolicyEngine := by
  intro r e hbacked
  obtain ⟨out, hout, hrun⟩ := FqdnPolicyEngine.update_run (e := e) hbacked
  show ((FqdnPolicyEngine.update r).run e).1 ≠ .panic
  rw [hrun]
  exact hout

/-- A policy engine that allows one domain. -/
def policyForA : FqdnPolicyEngine := ⟨.empty, {"a"}⟩

namespace ParserTask

variable {O : Type} [DnsObserver O] {ev : RawDnsEvent} {t t' : ParserTask O}

/-- What the task does with an event that is parsed, when the observer is calm. -/
theorem observe_some (hcalm : DnsObserver.Calm O) (hlen : ev.payloadLen.toNat ≤ maxDnsPayloadSize)
    {m : DnsResponse} (hparse : freshParse ev = some m) (t : ParserTask O) :
    (observe ev).run t = (.ok (), ⟨((DnsObserver.update m).run t.dnsObs).2, m⟩) := by
  rw [freshParse_eq_some] at hparse
  have hout := hcalm m t.dnsObs (parseDnsInto_familyBacked hlen hparse)
  exact observe_run_ok hparse hout rfl

omit [DnsObserver O] in
/-- An event that is not parsed is refused with an error. -/
theorem parse_eq_err (hlen : ev.payloadLen.toNat ≤ maxDnsPayloadSize)
    (hparse : freshParse ev = none) : ∃ e m, (parseDnsInto ev).run default = (.err e, m) := by
  rcases hrun : (parseDnsInto ev).run default with ⟨⟨⟩ | e | _, m⟩
  · rw [freshParse_eq_some.mpr hrun] at hparse
    exact absurd hparse (by simp)
  · exact ⟨e, m, rfl⟩
  · exact absurd (congrArg Prod.fst hrun) (parseDnsInto_ne_panic hlen default)

/-- With a calm observer the task does not panic. -/
theorem observe_ne_panic (hcalm : DnsObserver.Calm O)
    (hlen : ev.payloadLen.toNat ≤ maxDnsPayloadSize) : (observe ev).run t ≠ (.panic, t') := by
  intro hrun
  cases hparse : freshParse ev with
  | some m =>
    rw [observe_some hcalm hlen hparse] at hrun
    exact absurd (Prod.mk.inj hrun).1 (by simp)
  | none =>
    obtain ⟨e, m, herr⟩ := parse_eq_err hlen hparse
    rw [observe_run_err herr] at hrun
    exact absurd (Prod.mk.inj hrun).1 (by simp)

/-- An error of the task is an error of the parser. -/
theorem freshParse_of_observe_err (hcalm : DnsObserver.Calm O)
    (hlen : ev.payloadLen.toNat ≤ maxDnsPayloadSize) {e : DnsParseError}
    (h : (observe ev).run t = (.err e, t')) : freshParse ev = none := by
  cases hparse : freshParse ev with
  | some m =>
    rw [observe_some hcalm hlen hparse] at h
    exact absurd (Prod.mk.inj h).1 (by simp)
  | none => rfl

end ParserTask

/-- An item that the action takes from the ring buffer keeps the bound on `payload_len`. -/
def Action.Bounded : Action → Prop
  | .consume item _ => ∀ ev, eventOf item = some ev → ev.payloadLen.toNat ≤ maxDnsPayloadSize
  | _ => True

namespace Pipeline

variable {O : Type} [DnsObserver O] {s s' : Pipeline O} {a : Action}

/-! ## The parser task lives on -/

/-- The parser is running, on events that keep the bound. -/
structure Alive (s : Pipeline O) : Prop where
  notDead : s.phase ≠ .dead
  bounded : ∀ ev ∈ s.pending, ev.payloadLen.toNat ≤ maxDnsPayloadSize
  ready : ∀ ev, s.phase = .parsed ev → freshParse ev = some s.task.localDnsResponse

omit [DnsObserver O] in
theorem alive_start (dnsObs : O) : Alive (start dnsObs) where
  notDead := by simp [start]
  bounded := by simp [start, pending, ParserPhase.event?]
  ready := by simp [start]

/-- No move of a stage ends the parser. -/
theorem Alive.move (hcalm : DnsObserver.Calm O) (hi : Alive s) (ha : a.Bounded)
    (h : Move s a s') : Alive s' := by
  have hheld : ∀ {ev}, s.phase.event? = some ev → ev.payloadLen.toNat ≤ maxDnsPayloadSize := by
    intro ev hev
    exact hi.bounded ev (by simp [pending, hev])
  have hqueue : ∀ ev ∈ s.rawQueue, ev.payloadLen.toNat ≤ maxDnsPayloadSize := by
    intro ev hev
    exact hi.bounded ev (List.mem_append_right _ hev)
  cases h with
  | skip hitem => exact ⟨hi.notDead, hi.bounded, hi.ready⟩
  | @enqueue item ev hitem hroom =>
    refine ⟨hi.notDead, fun ev' hev' => ?_, hi.ready⟩
    rw [pending, ← List.append_assoc, List.mem_append, List.mem_singleton] at hev'
    rcases hev' with hev' | rfl
    · exact hi.bounded ev' hev'
    · exact ha ev' hitem
  | rawFull hitem => exact ⟨hi.notDead, hi.bounded, hi.ready⟩
  | @receive ev rest hphase hq =>
    refine ⟨by simp, fun ev' hev' => ?_, by simp⟩
    refine hqueue ev' ?_
    rw [hq]
    exact hev'
  | @parsed ev task hphase hobserve =>
    refine ⟨by simp, fun ev' hev' => ?_, ?_⟩
    · refine hi.bounded ev' ?_
      rw [pending, hphase]
      exact hev'
    · rintro ev' ⟨⟩
      exact freshParse_eq_some.mpr (ParserTask.parse_of_observe hobserve)
  | rejected hphase hobserve => exact ⟨by simp, hqueue, by simp⟩
  | @died ev task hphase hobserve =>
    -- the bound on the event and the calm observer rule this out
    exact absurd hobserve (ParserTask.observe_ne_panic hcalm (hheld (by rw [hphase]; rfl)))
  | sent hphase hroom => exact ⟨by simp, hqueue, by simp⟩
  | logFull hphase => exact ⟨by simp, hqueue, by simp⟩
  | receiveLog hwriting hq => exact ⟨hi.notDead, hi.bounded, hi.ready⟩
  | write hwriting => exact ⟨hi.notDead, hi.bounded, hi.ready⟩
  | writeError hwriting => exact ⟨hi.notDead, hi.bounded, hi.ready⟩

/-! ## The queues keep their size -/

/-- Neither queue holds more than its slots, the slots in use included. -/
structure Capacities (s : Pipeline O) : Prop where
  raw : s.rawQueue.length + s.phase.event?.toList.length ≤ channelCapacity
  log : s.logQueue.length + s.writing.toList.length ≤ channelCapacity

omit [DnsObserver O] in
/-- The pipeline starts with empty queues. -/
theorem capacities_start (dnsObs : O) : Capacities (start dnsObs) :=
  ⟨by simp [start, ParserPhase.event?], by simp [start]⟩

/-- Only a free slot is filled. -/
theorem Capacities.move (hi : Capacities s) (h : Move s a s') : Capacities s' := by
  obtain ⟨hraw, hlog⟩ := hi
  cases h with
  | skip => exact ⟨hraw, hlog⟩
  | rawFull => exact ⟨hraw, hlog⟩
  | enqueue hitem hroom =>
    rw [rawRoom] at hroom
    refine ⟨?_, hlog⟩
    simp only [List.length_append, List.length_singleton]
    omega
  | receive hphase hqueue =>
    rw [hphase, hqueue] at hraw
    exact ⟨hraw, hlog⟩
  | parsed hphase =>
    rw [hphase] at hraw
    exact ⟨hraw, hlog⟩
  | rejected => exact ⟨(Nat.le_add_right _ _).trans hraw, hlog⟩
  | died => exact ⟨(Nat.le_add_right _ _).trans hraw, hlog⟩
  | sent hphase hroom =>
    rw [logRoom] at hroom
    refine ⟨(Nat.le_add_right _ _).trans hraw, ?_⟩
    simp only [List.length_append, List.length_singleton]
    omega
  | logFull => exact ⟨(Nat.le_add_right _ _).trans hraw, hlog⟩
  | receiveLog hwriting hqueue =>
    -- the message at hand keeps its slot
    rw [hwriting, hqueue] at hlog
    exact ⟨hraw, hlog⟩
  | write => exact ⟨hraw, (Nat.le_add_right _ _).trans hlog⟩
  | writeError => exact ⟨hraw, (Nat.le_add_right _ _).trans hlog⟩

/-- Both hold in every state of a run on events that keep the bound. -/
theorem alive_of_run (hcalm : DnsObserver.Calm O) {dnsObs : O} {actions : List Action}
    (hbounded : ∀ a ∈ actions, a.Bounded) (hrun : actions.foldlM step (start dnsObs) = some s) :
    Alive s ∧ Capacities s := by
  refine invariant_of_mem (I := fun s => Alive s ∧ Capacities s)
    ⟨alive_start dnsObs, capacities_start dnsObs⟩ ?_ hrun
  intro s₁ a s₂ ha hi hstep
  exact ⟨hi.1.move hcalm (hbounded a ha) (step_move hstep), hi.2.move (step_move hstep)⟩

end Pipeline

end CiliumMini
