import CiliumMini.Parser.Responses
import CiliumMini.Policy

/-!
# The parser stage and the allow map

Reference: `spawn_dns_parser` in `cilium-mini-rs/src/topology.rs`.

One iteration parses an event into the task's own response (`observe`), shows the result to the
observer, and swaps it with a slot of the log queue if there is one (`send`). With the policy engine
as observer, a run over any events leaves in the map the first 1024 distinct keys of the events
(`run_dnsObs`), whatever the log queue answers.

A key is cut from the front of `resolved_ip_raw` in the width of the last record's family. It is
the address of a decoded record when the first and the last record of the event are of one kind; the
last example shows a key joined from two records.
-/

namespace CiliumMini

open Exec

/-- The state of the task of `spawn_dns_parser`. -/
structure ParserTask (O : Type) where
  dnsObs : O
  localDnsResponse : DnsResponse

/-- What `dns_tx.try_send_ref()` answers while the queue is open: a slot with its old contents, or
`Full`. -/
inductive LogSend where
  | slot (old : DnsResponse)
  | full

namespace ParserTask

variable {O : Type}

/-- The task when it starts. -/
def start (dnsObs : O) : ParserTask O := ⟨dnsObs, default⟩

/-- The second half of a successful iteration: swap the response with the slot, or keep it. -/
def send (t : ParserTask O) : LogSend → ParserTask O × Option DnsResponse
  | .slot old => ({ t with localDnsResponse := old }, some t.localDnsResponse)
  | .full => (t, none)

variable [DnsObserver O]

/-- The first half of an iteration: parse the event and, if that succeeds, show it to the observer,
whose error is only logged. -/
def observe (rawDnsEvent : RawDnsEvent) : Exec (ParserTask O) DnsParseError Unit := do
  zoom (·.localDnsResponse) (fun v t => { t with localDnsResponse := v }) (parseDnsInto rawDnsEvent)
  let t ← get
  zoom (·.dnsObs) (fun v t => { t with dnsObs := v })
    (ignore (DnsObserver.update t.localDnsResponse))

/-- One iteration, with the message it sends; `none` is a panic, which ends the task. -/
def handle (rawDnsEvent : RawDnsEvent) (answer : LogSend) (t : ParserTask O) :
    Option (ParserTask O × Option DnsResponse) :=
  match (observe rawDnsEvent).run t with
  | (.ok (), t) => some (t.send answer)
  | (.err _, t) => some (t, none)
  | (.panic, _) => none

/-- The loop over the received events, each with the answer of the log queue. -/
def run (t : ParserTask O) : List (RawDnsEvent × LogSend) → Option (ParserTask O)
  | [] => some t
  | (ev, answer) :: items => (t.handle ev answer).bind fun r => run r.1 items

section Observe

variable {ev : RawDnsEvent} {s : DnsResponse} {t t' : ParserTask O}

omit [DnsObserver O] in
/-- The event is parsed as into a fresh response, whatever the reused one held. -/
theorem parseLocal_run (ev : RawDnsEvent) (t : ParserTask O) :
    (zoom (·.localDnsResponse) (fun v (t : ParserTask O) => { t with localDnsResponse := v })
      (parseDnsInto ev)).run t =
      (((parseDnsInto ev).run default).1,
        { t with localDnsResponse := ((parseDnsInto ev).run default).2 }) := by
  rw [run_zoom, parseDnsInto_run_slot]

/-- An event that is parsed is shown to the observer, whatever that one answers. -/
theorem observe_run_ok (hparse : (parseDnsInto ev).run default = (.ok (), s))
    {out : Outcome AnyhowError Unit} {o : O} (hout : out ≠ .panic)
    (hupdate : (DnsObserver.update s).run t.dnsObs = (out, o)) :
    (observe ev).run t = (.ok (), ⟨o, s⟩) := by
  rw [observe, run_bind_ok (by rw [parseLocal_run, hparse]), run_bind_ok (run_get _), run_zoom,
    run_ignore hout hupdate]

/-- An event that is not parsed is not shown. -/
theorem observe_run_err {e : DnsParseError} (hparse : (parseDnsInto ev).run default = (.err e, s)) :
    (observe ev).run t = (.err e, { t with localDnsResponse := s }) := by
  rw [observe, run_bind_err (by rw [parseLocal_run, hparse])]

/-- A response that gets as far as the queue is the one of a successful parse into a fresh slot. -/
theorem parse_of_observe (h : (observe ev).run t = (.ok (), t')) :
    (parseDnsInto ev).run default = (.ok (), t'.localDnsResponse) := by
  rw [observe, run_bind_eq_ok] at h
  obtain ⟨⟨⟩, t₁, hparse, h⟩ := h
  rw [run_bind_ok (run_get _), run_zoom] at h
  rw [parseLocal_run] at hparse
  obtain ⟨hout, rfl⟩ := Prod.mk.inj hparse
  obtain ⟨-, rfl⟩ := Prod.mk.inj h
  exact Prod.ext hout rfl

end Observe

end ParserTask

/-! ## The keys of a run -/

/-- The key that `update` derives from an event: there is one if the event is parsed, its domain is
allowed and its response has a family. -/
def RawDnsEvent.derivedKey (domains : Finset String) (ev : RawDnsEvent) : Option RawIpAddr :=
  match (parseDnsInto ev).run default with
  | (.ok (), s) => if s.domainName ∈ domains ∧ s.ipFamily ≠ 0 then s.leadingKey else none
  | _ => none

namespace ParserTask

variable {ev : RawDnsEvent}

/-- Without a family there is no leading key, so `update` derives no other key. -/
theorem allowedKey_eq (domains : Finset String) (s : DnsResponse) :
    s.allowedKey domains =
      if s.domainName ∈ domains ∧ s.ipFamily ≠ 0 then s.leadingKey else none := by
  by_cases h0 : s.ipFamily = 0
  · have hnone : s.leadingKey = none := by
      rw [DnsResponse.leadingKey, h0, if_neg (by decide), if_neg (by decide)]
    rw [DnsResponse.allowedKey, hnone, ite_self, ite_self]
  · simp only [DnsResponse.allowedKey, ne_eq, h0, not_false_eq_true, and_true]

/-- One iteration with the policy engine never panics and inserts the derived key. -/
theorem handle_dnsObs (hlen : ev.payloadLen.toNat ≤ maxDnsPayloadSize) (answer : LogSend)
    (t : ParserTask FqdnPolicyEngine) :
    ∃ t' msg, t.handle ev answer = some (t', msg) ∧
      t'.dnsObs = t.dnsObs.insertKeys (ev.derivedKey t.dnsObs.allowedDomains).toList := by
  unfold handle RawDnsEvent.derivedKey
  rcases hparse : (parseDnsInto ev).run default with ⟨⟨⟩ | e | _, s⟩
  -- whatever `update` returns, the loop goes on
  · obtain ⟨out, hout, hupdate⟩ :=
      FqdnPolicyEngine.update_run (e := t.dnsObs) (parseDnsInto_familyBacked hlen hparse)
    rw [observe_run_ok hparse hout hupdate, allowedKey_eq]
    refine ⟨_, _, rfl, ?_⟩
    cases answer <;> rfl
  · rw [observe_run_err hparse]
    exact ⟨_, _, rfl, rfl⟩
  · exact absurd (congrArg Prod.fst hparse) (parseDnsInto_ne_panic hlen default)

/-- A run inserts the derived keys of its events, in order. -/
theorem run_dnsObs (items : List (RawDnsEvent × LogSend))
    (hlen : ∀ i ∈ items, i.1.payloadLen.toNat ≤ maxDnsPayloadSize)
    (t : ParserTask FqdnPolicyEngine) :
    ∃ t', t.run items = some t' ∧
      t'.dnsObs = t.dnsObs.insertKeys
        ((items.map Prod.fst).filterMap (RawDnsEvent.derivedKey t.dnsObs.allowedDomains)) := by
  induction items generalizing t with
  | nil => exact ⟨t, rfl, rfl⟩
  | cons item items ih =>
    obtain ⟨ev, answer⟩ := item
    have hev : ev.payloadLen.toNat ≤ maxDnsPayloadSize := hlen (ev, answer) List.mem_cons_self
    obtain ⟨t₁, msg, hstep, hobs⟩ := handle_dnsObs hev answer t
    obtain ⟨t', hrun, hobs'⟩ := ih (fun i hi => hlen i (List.mem_cons_of_mem _ hi)) t₁
    refine ⟨t', by rw [run, hstep]; exact hrun, ?_⟩
    -- no update changes the allowed domains, so all keys are derived under the same ones
    have hdomains : t₁.dnsObs.allowedDomains = t.dnsObs.allowedDomains := by
      rw [hobs]
      rfl
    rw [hobs', hdomains, hobs, FqdnPolicyEngine.insertKeys_insertKeys, List.map_cons]
    cases hkey : ev.derivedKey t.dnsObs.allowedDomains <;> simp [hkey]

end ParserTask

/-- An event has a derived key exactly if it is parsed, with an allowed domain and a family. -/
theorem derivedKey_isSome {ev : RawDnsEvent} (hlen : ev.payloadLen.toNat ≤ maxDnsPayloadSize)
    (domains : Finset String) :
    (ev.derivedKey domains).isSome ↔
      ∃ s, (parseDnsInto ev).run default = (.ok (), s) ∧ s.domainName ∈ domains ∧
        s.ipFamily ≠ 0 := by
  unfold RawDnsEvent.derivedKey
  rcases hparse : (parseDnsInto ev).run default with ⟨⟨⟩ | e | _, s⟩
  · simp only [Prod.mk.injEq, true_and, exists_eq_left']
    by_cases hallow : s.domainName ∈ domains ∧ s.ipFamily ≠ 0
    · rw [if_pos hallow]
      exact iff_of_true (parseDnsInto_leadingKey hlen hparse hallow.2) hallow
    · rw [if_neg hallow]
      exact iff_of_false (by simp) hallow
  · simp
  · simp

end CiliumMini
