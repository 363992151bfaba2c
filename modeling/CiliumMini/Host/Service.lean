import CiliumMini.Host.Settle
import CiliumMini.Parser.Verdict
import Mathlib.Algebra.Group.Action.Defs
import Mathlib.Algebra.Order.BigOperators.Group.List

/-!
# Service

What one more packet does to a host that waits for it. From every state of every run the host can
get back to where it serves the next packet: its message is written, and its key comes to the map if
there is room (`serves`). It can also be made to hold much: the messages that wait for the writer
have at most 1048560 bytes in `resolved_ip_raw` each, and as many packets of 91 bytes as the queue
has slots are enough to get there (`held_at_most`).
-/

namespace CiliumMini

open Exec Run Dns
open scoped List

/-! ## One packet -/

namespace Pipeline

variable {s : Pipeline FqdnPolicyEngine} {ev : RawDnsEvent} {m : DnsResponse}

/-- Nothing is in front of the parser, and reader and parser wait. -/
structure Waiting (s : Pipeline FqdnPolicyEngine) : Prop where
  rawQueue : s.rawQueue = []
  phase : s.phase = .waiting

/-- The pipeline behind the passage of an event. -/
def passed (s : Pipeline FqdnPolicyEngine) (ev : RawDnsEvent) (m : DnsResponse) :
    Pipeline FqdnPolicyEngine :=
  { s with
    consumed := s.consumed ++ [ev.image]
    task := ⟨((DnsObserver.update m).run s.task.dnsObs).2, default⟩
    logQueue := s.logQueue ++ [m] }

/-- When both queues give out a slot, an event that is parsed comes to the second queue. -/
theorem passes (hwaiting : Waiting s) (hroom : s.logRoom)
    (hlen : ev.payloadLen.toNat ≤ maxDnsPayloadSize) (hparse : freshParse ev = some m) :
    ∃ s₁ s₂ s₃, s.step (.consume ev.image .slot) = some s₁ ∧ s₁.step .receive = some s₂ ∧
      s₂.step .observe = some s₃ ∧ s₃.step (.send (.slot default)) = some (s.passed ev m) := by
  have hobserve := ParserTask.observe_some FqdnPolicyEngine.calm hlen hparse s.task
  refine ⟨{ s with consumed := s.consumed ++ [ev.image], rawQueue := [ev] },
    { s with consumed := s.consumed ++ [ev.image], phase := .received ev },
    { s with
      consumed := s.consumed ++ [ev.image]
      phase := .parsed ev
      task := ⟨((DnsObserver.update m).run s.task.dnsObs).2, m⟩ }, ?_, ?_, ?_, ?_⟩
  · simp [step, consume, eventOf_image, hwaiting.phase, hwaiting.rawQueue, rawRoom,
      ParserPhase.event?, channelCapacity]
  · simp [step, hwaiting.phase, hwaiting.rawQueue]
  · simp [step, hobserve]
  · unfold logRoom at hroom
    simp [step, logRoom, hroom, sendWith, ParserTask.send, passed, hwaiting.phase]

end Pipeline

namespace Host

variable {net : NetworkTypes} {prost : Prost} {cap : ℕ} {file : List UInt8}
  {domains : Finset String} {h h' : Host} {kernel : KernelMemory} {ctx : TcContext} {f : DnsFrame}
  {a : HostAction}

/-- The steps behind the arrival of a packet that bring its message to the second queue. -/
def passage : List HostAction :=
  [.consume .slot, .parser .receive, .parser .observe, .parser (.send (.slot default))]

/-- None of them is a failed write. -/
theorem passage_orderly : ∀ a ∈ passage, a.Orderly := by
  simp [passage, HostAction.Orderly]

/-- An accepted frame passes a host that waits for it and has a free slot for its message. -/
theorem passes (net : NetworkTypes) (prost : Prost) (cap : ℕ) (hring : h.ring = [])
    (hwaiting : h.stages.Waiting) (hroom : h.stages.logRoom) (hf : ctx.packet = f.encode)
    (hreserved : kernel.reserved.isSome) (haccepted : ∀ ev, f.Describes ev → Accepted ev) :
    ∃ ev m, f.Describes ev ∧ freshParse ev = some m ∧
      (.packet kernel ctx :: passage).foldlM (step net prost cap) h =
        some ⟨h.arrived ++ [ctx.packet], [], h.stages.passed ev m, h.log⟩ := by
  obtain ⟨old, hold⟩ : ∃ old, kernel.answers.reserved = some old := by
    obtain ⟨b, hb⟩ := Option.isSome_iff_exists.mp hreserved
    exact ⟨_, by rw [KernelMemory.answers, hb]; rfl⟩
  obtain ⟨ev, hdesc, hsubmitted⟩ := dnsTcBytes_submits net hf hold h.ring
  rw [hring, List.nil_append] at hsubmitted
  obtain ⟨m, hm⟩ : ∃ m, freshParse ev = some m := by
    have hok := (haccepted ev hdesc).run hdesc.payloadLen_le default
    exact ⟨_, freshParse_eq_some.mpr (Prod.ext hok rfl)⟩
  obtain ⟨s₁, s₂, s₃, hconsume, hreceive, hobserve, hsend⟩ :=
    Pipeline.passes hwaiting hroom hdesc.payloadLen_le hm
  refine ⟨ev, m, hdesc, hm, ?_⟩
  simp only [passage, List.foldlM_cons, List.foldlM_nil, step, hring, hsubmitted, hconsume,
    ParserAction.action, hreceive, hobserve, hsend, Option.map_some, Option.bind_eq_bind,
    Option.bind_some]
  rfl

/-- A settled host waits for the next packet. -/
theorem Settled.waiting (hsettled : Settled h) (halive : h.stages.Alive) : h.stages.Waiting := by
  obtain ⟨hqueue, hphase⟩ := Pipeline.waiting_of_pending_eq_nil hsettled.stages.pending
  exact ⟨hqueue, hphase.resolve_right halive.notDead⟩

/-- Nothing is in front of the parser, and neither its task nor what was sent has changed. -/
structure Quiet (s : Pipeline FqdnPolicyEngine) (h : Host) : Prop where
  ring : h.ring = []
  rawQueue : h.stages.rawQueue = []
  phase : h.stages.phase = .waiting
  task : h.stages.task = s.task
  sent : h.stages.sent = s.sent

/-- Without a new packet only the writer moves. -/
theorem Quiet.move {s : Pipeline FqdnPolicyEngine} (hi : Quiet s h) (ha : a.Orderly)
    (hmove : Move net prost cap h a h') : Quiet s h' := by
  cases hmove with
  | packet => exact ha.elim
  | consume hring => exact absurd (hi.ring.symm.trans hring) (by simp)
  | @parser a stages hstages =>
    cases a with
    | receive =>
      cases Pipeline.step_move hstages with
      | receive hphase hqueue => exact absurd (hi.rawQueue.symm.trans hqueue) (by simp)
    | observe =>
      cases Pipeline.step_move hstages with
      | parsed hphase => exact absurd (hi.phase.symm.trans hphase) (by simp)
      | rejected hphase => exact absurd (hi.phase.symm.trans hphase) (by simp)
      | died hphase => exact absurd (hi.phase.symm.trans hphase) (by simp)
    | send answer =>
      cases Pipeline.step_move hstages with
      | sent hphase => exact absurd (hi.phase.symm.trans hphase) (by simp)
      | logFull hphase => exact absurd (hi.phase.symm.trans hphase) (by simp)
  | receiveLog hwriting hqueue =>
    refine ⟨hi.ring, hi.rawQueue, hi.phase, hi.task, ?_⟩
    rw [← hi.sent]
    simp [Pipeline.sent, hwriting, hqueue]
  | advance => exact ⟨hi.ring, hi.rawQueue, hi.phase, hi.task, hi.sent⟩
  | write htodo hwriting =>
    refine ⟨hi.ring, hi.rawQueue, hi.phase, hi.task, ?_⟩
    rw [← hi.sent]
    simp [Pipeline.sent, hwriting]
  | writeError => exact ha.elim

/-- The same for a run. -/
theorem Quiet.run {s : Pipeline FqdnPolicyEngine} (hi : Quiet s h) {more : List HostAction}
    (hmore : ∀ a ∈ more, a.Orderly) (hrun : more.foldlM (step net prost cap) h = some h') :
    Quiet s h' := by
  refine invariant_of_mem (I := Quiet s) hi ?_ hrun
  intro h₁ a h₂ ha hi hstep
  exact hi.move (hmore a ha) (step_move hstep)

/-- Of an event that is shown to the engine, the derived key is in the map if there is room. -/
theorem mem_keys_of_update {ev : RawDnsEvent} {m : DnsResponse}
    (hlen : ev.payloadLen.toNat ≤ maxDnsPayloadSize) (hparse : freshParse ev = some m)
    (t : ParserTask FqdnPolicyEngine) {k : RawIpAddr}
    (hkey : ev.derivedKey t.dnsObs.allowedDomains = some k)
    (hroom : ((DnsObserver.update m).run t.dnsObs).2.allowedIpMap.keys.length <
      allowedIpMapCapacity) :
    k ∈ ((DnsObserver.update m).run t.dnsObs).2.allowedIpMap.keys := by
  have hengine := Pipeline.observe_engine hlen
    (ParserTask.observe_some FqdnPolicyEngine.calm hlen hparse t)
  rw [hkey] at hengine
  simp only at hengine
  rw [hengine] at hroom ⊢
  exact BoundedMap.mem_keys_insert_getD _ k 0 hroom

/-- The host never gets stuck for good. From every state of every run, whatever is on its way and
whatever was lost, the host can be brought to serve an accepted frame: behind the packet, with no
other packet on the way and no failed write, its message is the last one written, and its key is in
the map if the map has room. If no write failed before either and the old file held whole frames,
the message is the last record in file and buffer. -/
theorem serves (net : NetworkTypes) (prost : Prost) (cap : ℕ) (file : List UInt8)
    (domains : Finset String) (actions : List HostAction) (h : Host) (kernel : KernelMemory)
    (ctx : TcContext) (f : DnsFrame)
    (hrun : actions.foldlM (step net prost cap) (start file domains) = some h)
    (hf : ctx.packet = f.encode) (hreserved : kernel.reserved.isSome)
    (haccepted : ∀ ev, f.Describes ev → Accepted ev) :
    ∃ pre post h', (∀ a ∈ pre, a.Orderly) ∧ (∀ a ∈ post, a.Orderly) ∧
      (pre ++ .packet kernel ctx :: post).foldlM (step net prost cap) h = some h' ∧ Settled h' ∧
      ∃ ev m written, f.Describes ev ∧ freshParse ev = some m ∧
        h'.stages.log = written ++ [m] ∧
        ((deframe file).2 = [] → (∀ n, .writeError n ∉ actions) →
          ∃ before, deframe h'.log.writer.contents = (before ++ [prost.encode m], [])) ∧
        (h'.stages.task.dnsObs.allowedIpMap.keys.length < allowedIpMapCapacity →
          ∀ k, ev.derivedKey domains = some k →
            k ∈ h'.stages.task.dnsObs.allowedIpMap.keys) := by
  -- what is on its way is worked off, and the packet finds a host that waits for it
  obtain ⟨pre, h₁, hpre, hrun₁, hsettled₁⟩ := exists_settled hrun
  have hwhole₁ := foldlM_append_eq_some.mpr ⟨h, hrun, hrun₁⟩
  have hwaiting := hsettled₁.waiting (alive_of_run hwhole₁).1
  have hroom : h₁.stages.logRoom := by
    rw [Pipeline.logRoom, hsettled₁.stages.logQueue, hsettled₁.stages.writing]
    decide
  obtain ⟨ev, m, hdesc, hparse, hrun₂⟩ :=
    passes net prost cap hsettled₁.ring hwaiting hroom hf hreserved haccepted
  have hwhole₂ := foldlM_append_eq_some.mpr ⟨h₁, hwhole₁, hrun₂⟩
  -- then only the writer has something to do
  obtain ⟨post, h', hpost, hrun', hsettled'⟩ := exists_settled hwhole₂
  have hquiet : Quiet (h₁.stages.passed ev m) h' := by
    refine Quiet.run ?_ hpost hrun'
    exact ⟨rfl, hwaiting.rawQueue, hwaiting.phase, rfl, rfl⟩
  have hlog : h'.stages.log = h₁.stages.log ++ [m] := by
    rw [← hsettled'.sent_eq, hquiet.sent, Pipeline.sent, ← hsettled₁.sent_eq, Pipeline.sent]
    simp [Pipeline.passed]
  have hpassage : ∀ a ∈ passage ++ post, a.Orderly := by
    intro a ha
    rcases List.mem_append.mp ha with ha | ha
    · exact passage_orderly a ha
    · exact hpost a ha
  have hrest := foldlM_append_eq_some.mpr ⟨h₁, hrun₁, foldlM_append_eq_some.mpr ⟨_, hrun₂, hrun'⟩⟩
  refine ⟨pre, passage ++ post, h', hpre, hpassage, hrest, hsettled', ev, m, h₁.stages.log, hdesc,
    hparse, hlog, fun hframes hwrite => ?_, ?_⟩
  · have hfiled : Filed prost cap file h' := by
      refine filed_of_run (fun n hn => ?_) (foldlM_append_eq_some.mpr ⟨h, hrun, hrest⟩)
      rcases List.mem_append.mp hn with hn | hn
      · exact hwrite n hn
      · rcases List.mem_append.mp hn with hn | hn
        · exact hpre _ hn
        · rcases List.mem_cons.mp hn with hn | hn
          · exact absurd hn (by simp)
          · exact hpassage _ hn
    refine ⟨(deframe file).1 ++ h₁.stages.log.map prost.encode, ?_⟩
    rw [hfiled.read_back hframes hsettled'.stages.writing, hlog, List.map_append, List.append_assoc]
    rfl
  · rw [hquiet.task]
    intro hfree k hkey
    obtain ⟨-, run, hbounded, -, hstages⟩ := inv_of_any_run hwhole₁
    have hdomains : h₁.stages.task.dnsObs.allowedDomains = domains := by
      rw [(Pipeline.seen_of_run hbounded hstages).engine]
      rfl
    exact mem_keys_of_update hdesc.payloadLen_le hparse h₁.stages.task (hdomains ▸ hkey) hfree

/-- The response with one A record is accepted. -/
theorem answerFrame_accepted (ev : RawDnsEvent) (hdesc : answerFrame.Describes ev) :
    Accepted ev := by
  have hcarries : ev.Carries (exampleResponse [examplePointerA 10 0 0 1]) := by
    refine ⟨?_, ?_⟩
    · rw [hdesc.payloadLen]
      decide
    · rw [hdesc.payload]
      exact List.take_of_length_le (by decide)
  obtain ⟨s, hs, -⟩ := parseDnsInto_aligned hdesc.supported hcarries trivial (by decide) default
  exact accepted_of_ok hdesc.payloadLen_le (congrArg Prod.fst hs)

/-- With a message on its way, one more packet is served. -/
theorem serves_example :
    ∃ h, (exampleJourney.take 6).foldlM (step .standard .proto3 2) (start [] {"a"}) = some h ∧
      h.stages.sent.length = 1 ∧ ∃ (more : List HostAction) (h' : Host) (m : DnsResponse)
        (before : List (List UInt8)), more.foldlM (step .standard .proto3 2) h = some h' ∧
        Settled h' ∧
        deframe h'.log.writer.contents = (before ++ [Prost.proto3.encode m], []) := by
  obtain ⟨h, hh, hsent⟩ := halfJourney_runs
  obtain ⟨pre, post, h', -, -, hrun', hsettled, ev, m, written, -, -, -, hread, -⟩ :=
    serves .standard .proto3 2 [] {"a"} (exampleJourney.take 6) h
      ⟨some (List.Vector.replicate _ 0), 9⟩ ⟨4096, answerFrame.encode, by decide⟩ answerFrame hh rfl
      rfl answerFrame_accepted
  obtain ⟨before, hbefore⟩ := hread rfl (by simp [exampleJourney])
  exact ⟨h, hh, hsent, _, h', m, before, hrun', hsettled, hbefore⟩

end Host

/-! ## What can wait for the writer -/

/-- No more records are decoded than the header announces. -/
theorem length_decoded_le (ev : RawDnsEvent) : ev.decoded.length ≤ ev.anscount.toNat := by
  unfold RawDnsEvent.decoded
  split
  · exact length_decodedRecords_le _ _ _
  · exact Nat.zero_le _

/-- A message has room for at most 65535 IPv6 addresses. -/
theorem length_resolvedIpRaw_le {ev : RawDnsEvent} {m : DnsResponse}
    (hlen : ev.payloadLen.toNat ≤ maxDnsPayloadSize) (hparse : freshParse ev = some m) :
    m.resolvedIpRaw.length ≤ 16 * 65535 := by
  obtain ⟨-, -, -, -, -, -, -, hraw⟩ := freshParse_fields hlen hparse
  have hbytes := length_flatMap_le AddrRecord.bytes 16 AddrRecord.length_bytes_le ev.decoded
  have hcount := length_decoded_le ev
  have hmax := ev.anscount.toNat_lt
  rw [hraw]
  omega

/-- A record with an IPv6 address and a name of two bytes. -/
def floodRecord : ResourceRecord :=
  { examplePointerA 0 0 0 0 with
    rtype := typeAAAA
    rdata := List.replicate 16 1
    rdata_lt := by decide
    length_a := fun h => absurd h (by decide)
    length_aaaa := fun _ => rfl }

/-- The record, and two bytes that the loop takes for the name of the next one. -/
def floodAnswers : List UInt8 := floodRecord.encode ++ [0xC0, 12]

/-- A frame that announces 65535 answers. -/
def floodFrame : DnsFrame :=
  { exampleFrame with
    payload := [0, 1, 0x81, 0x80, 0, 1, 0xFF, 0xFF, 0, 0, 0, 0, 1, 97, 0, 0, 28, 0, 1] ++
      floodAnswers
    payload_ne_nil := by simp }

/-- Every announced answer is read as the one record. -/
theorem parseRdataLoop_flood {n : ℕ} (hpos : 0 < n) (s : DnsResponse) :
    (parseRdataLoop floodAnswers n 0).run s =
      (.ok (), s.addRecords (List.replicate n floodRecord.addr?.toList).flatten) := by
  obtain ⟨k, rfl⟩ : ∃ k, n = k + 1 := ⟨n - 1, by omega⟩
  exact parseRdataLoop_repeat (by decide) floodRecord rfl k (by decide) rfl
    (Or.inr ⟨by decide, rfl⟩) s

section Flood

variable {ev : RawDnsEvent} (hdesc : floodFrame.Describes ev)
include hdesc

/-- The whole payload is the message. -/
theorem message_flood : ev.message = floodFrame.payload := by
  rw [hdesc.payload]
  exact List.take_of_length_le (by decide)

/-- The header announces as many answers as it can. -/
theorem anscount_flood : ev.anscount.toNat = 65535 := by
  rw [RawDnsEvent.anscount, message_flood hdesc]
  rfl

/-- The event of the frame is parsed to that many copies of the one address. -/
theorem parseDnsInto_flood (slot : DnsResponse) :
    (parseDnsInto ev).run slot =
      (.ok (), (ev.headed (String.ofList (dotted [exampleLabel]))).addRecords
        (List.replicate ev.anscount.toNat floodRecord.addr?.toList).flatten) := by
  have hquestion : ev.question = encodeLabels [exampleLabel] ++ 0 :: ([0, 28, 0, 1] ++
      floodAnswers) := by
    rw [RawDnsEvent.question, message_flood hdesc]
    rfl
  have hvalid : ValidLabels [exampleLabel] := ⟨by simp [exampleLabel], by decide⟩
  have hpos : 0 < ev.anscount.toNat := by
    rw [anscount_flood hdesc]
    decide
  rw [parseDnsInto_answers hdesc.supported hdesc.payloadLen_le hvalid hquestion (by decide)]
  exact parseRdataLoop_flood hpos _

/-- So the frame is accepted. -/
theorem flood_accepted : Accepted ev :=
  accepted_of_ok hdesc.payloadLen_le (congrArg Prod.fst (parseDnsInto_flood hdesc default))

/-- The message of the frame is as long as a message can be. -/
theorem length_flood {m : DnsResponse} (hparse : freshParse ev = some m) :
    m.resolvedIpRaw.length = 16 * 65535 := by
  have hm := freshParse_eq_some.mp hparse
  rw [parseDnsInto_flood hdesc] at hm
  have hlength : ∀ n, (List.replicate n floodRecord.addressBytes).flatten.length = n * 16 := by
    intro n
    simp [ResourceRecord.addressBytes, floodRecord]
  have hempty : (ev.headed (String.ofList (dotted [exampleLabel]))).resolvedIpRaw = [] := rfl
  rw [← (Prod.mk.inj hm).2, addRecords_resolvedIpRaw, flatMap_bytes_replicate, hempty,
    List.nil_append, hlength, anscount_flood hdesc]

end Flood

namespace Host

variable {net : NetworkTypes} {prost : Prost} {cap : ℕ} {file : List UInt8}
  {domains : Finset String} {h : Host}

/-- The `resolved_ip_raw` bytes of the messages that the writer holds or that wait for it. -/
def heldBytes (h : Host) : ℕ :=
  ((h.stages.writing.toList ++ h.stages.logQueue).map fun m => m.resolvedIpRaw.length).sum

/-- Each packet adds at most one message. -/
theorem heldBytes_le {actions : List HostAction}
    (hrun : actions.foldlM (step net prost cap) (start file domains) = some h) :
    h.heldBytes ≤ min h.arrived.length channelCapacity * (16 * 65535) := by
  have hcap := (alive_of_run hrun).2.log
  obtain ⟨⟨results, waiting, hresults, hsplit, -⟩, run, -, -, hstages⟩ := inv_of_any_run hrun
  have horder := (show Pipeline.Reachable _ h.stages from ⟨run, hstages⟩).inv.order
  have hheld :
      h.stages.writing.toList ++ h.stages.logQueue <+ h.stages.events.filterMap freshParse :=
    ((List.sublist_append_right _ _).trans (List.sublist_append_left _ _)).trans horder
  -- every event that the stages took is that of a packet of its own
  have hcount : (h.stages.writing.toList ++ h.stages.logQueue).length ≤ h.arrived.length := by
    have hevents : h.stages.events.length ≤ results.reduceOption.length := by
      rw [hsplit, List.length_append]
      exact Nat.le_add_right _ _
    calc (h.stages.writing.toList ++ h.stages.logQueue).length
        ≤ (h.stages.events.filterMap freshParse).length := hheld.length_le
      _ ≤ h.stages.events.length := List.length_filterMap_le _ _
      _ ≤ results.reduceOption.length := hevents
      _ ≤ results.length := List.reduceOption_length_le _
      _ = h.arrived.length := hresults.length_eq.symm
  have hbytes : ∀ n ∈ (h.stages.writing.toList ++ h.stages.logQueue).map
      fun m => m.resolvedIpRaw.length, n ≤ 16 * 65535 := by
    intro n hn
    obtain ⟨m, hm, rfl⟩ := List.mem_map.mp hn
    obtain ⟨ev, hev, hparse⟩ := List.mem_filterMap.mp (hheld.subset hm)
    refine length_resolvedIpRaw_le (payloadLen_le_of_yields hresults ?_) hparse
    rw [hsplit]
    exact List.mem_append_left _ hev
  have hsum := List.sum_le_card_nsmul _ _ hbytes
  rw [List.length_map, smul_eq_mul] at hsum
  refine hsum.trans (Nat.mul_le_mul_right _ ?_)
  rw [List.length_append] at hcount ⊢
  omega

/-- The frame in memory. -/
def floodContext : TcContext := ⟨4096, floodFrame.encode, by decide⟩

/-- Room for its event. -/
def floodRoom : KernelMemory := ⟨some (List.Vector.replicate _ 0), 0⟩

/-- Each flood frame adds as much as a message can hold. -/
theorem exists_flooded (net : NetworkTypes) (prost : Prost) (cap : ℕ) (file : List UInt8)
    (domains : Finset String) (k : ℕ) (hk : k ≤ channelCapacity) :
    ∃ (actions : List HostAction) (h : Host),
      actions.foldlM (step net prost cap) (start file domains) = some h ∧ h.ring = [] ∧
      h.stages.Waiting ∧ h.stages.writing = none ∧ h.stages.logQueue.length = k ∧
      h.arrived = List.replicate k floodFrame.encode ∧ h.heldBytes = k * (16 * 65535) := by
  induction k with
  | zero =>
    refine ⟨[], start file domains, rfl, rfl, ⟨rfl, rfl⟩, rfl, rfl, rfl, ?_⟩
    simp [heldBytes, start, Pipeline.start]
  | succ k ih =>
    obtain ⟨actions, h, hrun, hring, hwaiting, hwriting, hqueue, harrived, hheld⟩ := ih (by omega)
    have hroom : h.stages.logRoom := by
      rw [Pipeline.logRoom, hqueue, hwriting]
      exact hk
    have hframe : floodContext.packet = floodFrame.encode := rfl
    have hreserved : floodRoom.reserved.isSome := rfl
    obtain ⟨ev, m, hdesc, hparse, hpassed⟩ := passes net prost cap hring hwaiting hroom hframe
      hreserved fun ev hdesc => flood_accepted hdesc
    refine ⟨_, _, foldlM_append_eq_some.mpr ⟨h, hrun, hpassed⟩, rfl, ?_, hwriting, ?_, ?_, ?_⟩
    · exact ⟨hwaiting.rawQueue, hwaiting.phase⟩
    · simp [Pipeline.passed, hqueue]
    · rw [harrived, List.replicate_succ']
      rfl
    · have hbytes := length_flood hdesc hparse
      simp only [heldBytes, hwriting, Option.toList_none, List.nil_append] at hheld
      simp only [heldBytes, Pipeline.passed, hwriting, Option.toList_none, List.nil_append,
        List.map_append, List.sum_append, hheld, List.map_cons, List.map_nil, List.sum_singleton,
        hbytes]
      omega

/-- How much can wait. In every state of every run, whatever is lost in it, the messages that the
writer holds or that wait for it have at most 1048560 bytes in `resolved_ip_raw` for each packet
that arrived, up to the 1000 slots of the queue. This is the exact bound, and packets of 91 bytes
are enough to reach it. -/
theorem held_at_most (net : NetworkTypes) (prost : Prost) (cap : ℕ) (file : List UInt8)
    (domains : Finset String) :
    (∀ (actions : List HostAction) (h : Host),
        actions.foldlM (step net prost cap) (start file domains) = some h →
        h.heldBytes ≤ min h.arrived.length channelCapacity * (16 * 65535)) ∧
      ∃ packet : List UInt8, packet.length = 91 ∧ ∀ k ≤ channelCapacity,
        ∃ (actions : List HostAction) (h : Host),
          actions.foldlM (step net prost cap) (start file domains) = some h ∧
          h.arrived = List.replicate k packet ∧ h.heldBytes = k * (16 * 65535) := by
  refine ⟨fun actions h hrun => heldBytes_le hrun, floodFrame.encode, rfl, fun k hk => ?_⟩
  obtain ⟨actions, h, hrun, -, -, -, -, harrived, hheld⟩ :=
    exists_flooded net prost cap file domains k hk
  exact ⟨actions, h, hrun, harrived, hheld⟩

end Host

end CiliumMini
