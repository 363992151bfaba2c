import CiliumMini.Host.Machine
import CiliumMini.Parser.Identity
import Mathlib.Data.List.Infix

/-!
# From packets to the file and the map

What the host is for. While no write fails, nothing gets into the file that does not come from a
packet, in every state of every run (`file_from_packets`); and nothing ever gets into the map that
is not derived from a packet (`map_from_packets`). As long as nothing is reported full, nothing is
missing: once the stages are done, every packet that the parser accepts has its record
(`log_complete`) and every key that `update` derives is in the map (`map_complete`).

The log file could be opened, and it holds whole frames when the daemon starts. Behind a torn frame
or a failed write, a reader can find records of no packet at all.
-/

namespace CiliumMini

open Exec Run
open scoped List

/-! ## From events to records -/

/-- The message tells the addresses and ports of the frame, and what its payload, cut behind 512
bytes, is parsed to. -/
structure DnsFrame.Recorded (f : DnsFrame) (m : DnsResponse) : Prop where
  srcIp : m.srcIp = String.ofList f.ip.src.text
  dstIp : m.dstIp = String.ofList f.ip.dst.text
  srcPort : m.srcPort.toNat = 53
  dstPort : m.dstPort.toNat = beAt f.udp 2 2
  parsed : ∃ ev, f.Describes ev ∧ freshParse ev = some m

/-- An event that describes the frame is parsed to a message that tells of it. -/
theorem DnsFrame.Describes.recorded {f : DnsFrame} {ev : RawDnsEvent} {m : DnsResponse}
    (h : f.Describes ev) (hparse : freshParse ev = some m) : f.Recorded m := by
  obtain ⟨-, hsrc, hdst, hsport, hdport, -⟩ := freshParse_fields h.payloadLen_le hparse
  refine ⟨?_, ?_, ?_, ?_, ev, h, hparse⟩
  · rw [hsrc, h.srcIp]
  · rw [hdst, h.dstIp]
  · rw [hsport, ev.srcPort.toNat_toUInt32, h.srcPort]
  · rw [hdport, ev.dstPort.toNat_toUInt32, h.dstPort]

/-- The same for each frame of a list. -/
theorem recorded_of_describes {frames : List DnsFrame} {evs : List RawDnsEvent}
    {ms : List DnsResponse} (h : List.Forall₂ DnsFrame.Describes frames evs)
    (hparse : evs.map freshParse = ms.map some) : List.Forall₂ DnsFrame.Recorded frames ms := by
  induction h generalizing ms with
  | nil =>
    obtain rfl := List.map_eq_nil_iff.mp hparse.symm
    exact .nil
  | cons hdesc _ ih =>
    obtain ⟨m, ms, rfl, hm, hrest⟩ := List.map_eq_cons_iff.mp hparse.symm
    exact .cons (hdesc.recorded hm.symm) (ih hrest.symm)

/-- Each event of a list describes one of the frames. -/
theorem exists_describes {frames : List DnsFrame} {evs : List RawDnsEvent}
    (h : List.Forall₂ DnsFrame.Describes frames evs) {ev : RawDnsEvent} (hev : ev ∈ evs) :
    ∃ f ∈ frames, f.Describes ev := by
  obtain ⟨i, hi, rfl⟩ := List.mem_iff_getElem.mp hev
  have hlength := h.length_eq
  exact ⟨frames[i], List.getElem_mem _, h.get (by omega) hi⟩

/-- A derived key is the leading key of an allowed response. -/
theorem derivedKey_eq_some {domains : Finset String} {ev : RawDnsEvent} {k : RawIpAddr}
    (h : ev.derivedKey domains = some k) :
    ∃ m, freshParse ev = some m ∧ m.domainName ∈ domains ∧ m.leadingKey = some k := by
  unfold RawDnsEvent.derivedKey at h
  split at h
  · rename_i m hparse
    split at h
    · rename_i hallowed
      exact ⟨m, freshParse_eq_some.mpr hparse, hallowed.1, h⟩
    · exact absurd h (by simp)
  · exact absurd h (by simp)

namespace Host

/-- Every record in the file is that of a packet. In every state of every run without a failed
write, so also whenever the process is killed, the records that a reader finds behind those of the
old file decode to the messages of some of the packets that arrived, in the order of their arrival
and none of them twice. The parser is still running. -/
theorem file_from_packets (net : NetworkTypes) (prost : Prost) (cap : ℕ) (file : List UInt8)
    (domains : Finset String) (actions : List HostAction) (h : Host)
    (hwhole : (deframe file).2 = []) (hwrite : ∀ n, .writeError n ∉ actions)
    (hrun : actions.foldlM (step net prost cap) (start file domains) = some h) :
    h.stages.phase ≠ .dead ∧ ∃ frames ms records, frames.map DnsFrame.encode <+ h.arrived ∧
      List.Forall₂ DnsFrame.Recorded frames ms ∧
      (deframe h.log.writer.file).1 = (deframe file).1 ++ records ∧
      records.map prost.decode = ms.map some := by
  obtain ⟨⟨results, waiting, hresults, hsplit, -⟩, run, hbounded, -, hstages⟩ := inv_of_any_run hrun
  refine ⟨(Pipeline.alive_of_run FqdnPolicyEngine.calm hbounded hstages).1.notDead, ?_⟩
  obtain ⟨found, lost, hmessages, hfound, -⟩ := (filed_of_run hwrite hrun).records hwhole
  -- what is found is what the writer took, that was sent, and that comes from the events
  have horder := (show Pipeline.Reachable _ h.stages from ⟨run, hstages⟩).inv.order
  have hsent : found <+ h.stages.sent := by
    rw [Pipeline.sent, ← List.append_assoc, hmessages, List.append_assoc]
    exact List.sublist_append_left _ _
  obtain ⟨kept, hkept, hparse⟩ :=
    exists_kept ((hsent.trans (List.sublist_append_left _ _)).trans horder)
  have hyielded : kept <+ results.reduceOption := by
    rw [hsplit]
    exact hkept.trans (List.sublist_append_left _ _)
  obtain ⟨frames, hframes, hdesc⟩ := exists_frames hresults hyielded
  refine ⟨frames, found, found.map prost.encode, hframes, recorded_of_describes hdesc hparse,
    hfound, ?_⟩
  rw [List.map_map]
  exact List.map_congr_left fun m _ => prost.decode_encode m

end Host

/-- A frame with a response of one A record. -/
def answerFrame : DnsFrame :=
  { exampleFrame with
    payload := (exampleResponse [examplePointerA 10 0 0 1]).encode
    payload_ne_nil := by decide }

/-- One packet for which there is no room, and one on its way to the file. -/
def exampleJourney : List HostAction :=
  let ctx : TcContext := ⟨4096, answerFrame.encode, by decide⟩
  [.packet ⟨none, 0⟩ ctx, .packet ⟨some (List.Vector.replicate _ 0), 7⟩ ctx, .consume .slot,
    .parser .receive, .parser .observe, .parser (.send (.slot default)), .receiveLog, .advance,
    .advance, .write]

namespace Host

/-- One of the two packets comes to the file and the map. -/
theorem exampleJourney_runs :
    ∃ h, exampleJourney.foldlM (step .standard .proto3 2) (start [] {"a"}) = some h ∧
      h.arrived.length = 2 ∧ (deframe h.log.writer.file).1.length = 1 ∧
      h.stages.task.dnsObs.allowedIpMap.keys.length = 1 := by
  have hrun : ((exampleJourney.foldlM (step .standard .proto3 2) (start [] {"a"})).map fun h =>
      (h.arrived.length, (deframe h.log.writer.file).1.length,
        h.stages.task.dnsObs.allowedIpMap.keys.length)) = some (2, 1, 1) := by
    decide +kernel
  obtain ⟨h, hh, hlengths⟩ := Option.map_eq_some_iff.mp hrun
  obtain ⟨harrived, hfound, hkeys⟩ := by simpa using hlengths
  exact ⟨h, hh, harrived, hfound, hkeys⟩

/-- Two packets arrive, and the one record in the file is that of one of them. -/
theorem file_from_packets_example :
    ∃ h, exampleJourney.foldlM (step .standard .proto3 2) (start [] {"a"}) = some h ∧
      h.arrived.length = 2 ∧ ∃ (f : DnsFrame) (m : DnsResponse), f.encode ∈ h.arrived ∧
        f.Recorded m ∧
        (deframe h.log.writer.file).1.map Prost.proto3.decode = [some m] := by
  obtain ⟨h, hh, harrived, hfound, -⟩ := exampleJourney_runs
  obtain ⟨-, frames, ms, records, hframes, hrecorded, hread, hdecode⟩ :=
    file_from_packets .standard .proto3 2 [] {"a"} exampleJourney h rfl
      (by simp [exampleJourney]) hh
  have hrecords : (deframe h.log.writer.file).1 = records := hread
  have hone : ms.length = 1 := by
    rw [← List.length_map (f := some), ← hdecode, List.length_map, ← hrecords, hfound]
  obtain ⟨m, rfl⟩ := List.length_eq_one_iff.mp hone
  obtain ⟨f, _, hf, -, rfl⟩ := List.forall₂_cons_right_iff.mp hrecorded
  exact ⟨h, hh, harrived, f, m, hframes.subset List.mem_cons_self, hf, hrecords ▸ hdecode⟩

/-- Every key in the map is derived from a packet. In every state of every run, whatever is lost in
it, the keys are the first 1024 distinct ones that are derived from some of the packets that
arrived, in the order of their arrival. Each is the leading key of a response for an allowed domain;
if the first and the last record that were decoded for it are of one kind, that is the address of
the first. -/
theorem map_from_packets (net : NetworkTypes) (prost : Prost) (cap : ℕ) (file : List UInt8)
    (domains : Finset String) (actions : List HostAction) (h : Host)
    (hrun : actions.foldlM (step net prost cap) (start file domains) = some h) :
    ∃ frames evs, frames.map DnsFrame.encode <+ h.arrived ∧
      List.Forall₂ DnsFrame.Describes frames evs ∧
      h.stages.task.dnsObs.allowedIpMap.keys =
        (evs.filterMap (RawDnsEvent.derivedKey domains)).eraseDups.take allowedIpMapCapacity ∧
      ∀ k ∈ h.stages.task.dnsObs.allowedIpMap.keys, ∃ f ∈ frames, ∃ ev ∈ evs, f.Describes ev ∧
        ∃ m, freshParse ev = some m ∧ f.Recorded m ∧ m.domainName ∈ domains ∧
          m.leadingKey = some k ∧
          (ev.OneKind → ∃ r, ev.decoded.head? = some r ∧ k = r.key) := by
  obtain ⟨⟨results, waiting, hresults, hsplit, -⟩, run, hbounded, -, hstages⟩ := inv_of_any_run hrun
  have hseen := Pipeline.seen_of_run hbounded hstages
  generalize Pipeline.passages (freshEngine domains) run = ps at hseen
  have hobserved : Pipeline.observed ps <+ results.reduceOption := by
    have hsub := hseen.sublist
    rw [hseen.split] at hsub
    rw [hsplit]
    exact ((List.sublist_append_left _ _).trans hsub).trans (List.sublist_append_left _ _)
  obtain ⟨frames, hframes, hdesc⟩ := exists_frames hresults hobserved
  have hkeys := hseen.keys_eq
  refine ⟨frames, Pipeline.observed ps, hframes, hdesc, hkeys, fun k hk => ?_⟩
  rw [hkeys] at hk
  -- each key comes from one of the events that the parser has shown to the engine
  obtain ⟨ev, hev, hkey⟩ := List.mem_filterMap.mp (List.mem_eraseDups.mp (List.mem_of_mem_take hk))
  obtain ⟨f, hf, hfev⟩ := exists_describes hdesc hev
  obtain ⟨m, hparse, hallowed, hleading⟩ := derivedKey_eq_some hkey
  refine ⟨f, hf, ev, hev, hfev, m, hparse, hfev.recorded hparse, hallowed, hleading, ?_⟩
  intro hkind
  obtain ⟨-, -, -, hfirst⟩ := derivedKey_of_oneKind hfev.payloadLen_le hkind hkey
  exact hfirst

theorem map_from_packets_example :
    ∃ h, exampleJourney.foldlM (step .standard .proto3 2) (start [] {"a"}) = some h ∧
      ∃ k, h.stages.task.dnsObs.allowedIpMap.keys = [k] ∧
        ∃ (f : DnsFrame) (m : DnsResponse), f.Recorded m ∧
          m.domainName ∈ ({"a"} : Finset String) ∧ m.leadingKey = some k := by
  obtain ⟨h, hh, -, -, hone⟩ := exampleJourney_runs
  obtain ⟨k, hk⟩ := List.length_eq_one_iff.mp hone
  obtain ⟨frames, evs, -, -, -, hkeys⟩ :=
    map_from_packets .standard .proto3 2 [] {"a"} exampleJourney h hh
  obtain ⟨f, -, ev, -, -, m, -, hm, hallowed, hleading, -⟩ :=
    hkeys k (by rw [hk]; exact List.mem_cons_self)
  exact ⟨h, hh, k, hk, f, m, hm, hallowed, hleading⟩

end Host

/-- What becomes of a packet if nothing is dropped: a record, unless it is no frame or the parser
refuses it. -/
inductive Handled (packet : List UInt8) : Option DnsResponse → Prop
  | record {f : DnsFrame} {m : DnsResponse} (hf : packet = f.encode) (hm : f.Recorded m) :
      Handled packet (some m)
  | refused {f : DnsFrame} {ev : RawDnsEvent} (hf : packet = f.encode) (hdesc : f.Describes ev)
      (hparse : freshParse ev = none) : Handled packet none
  | noFrame (h : ∀ f : DnsFrame, packet ≠ f.encode) : Handled packet none

/-- With room, what is submitted for a packet decides what becomes of it. -/
theorem Yields.handled {packet : List UInt8} {r : Option RawDnsEvent} (h : Yields True packet r) :
    Handled packet (r.bind freshParse) := by
  cases r with
  | none => exact .noFrame (h trivial)
  | some ev =>
    obtain ⟨f, hf, hdesc⟩ := h
    cases hparse : freshParse ev with
    | none =>
      rw [Option.bind_some, hparse]
      exact .refused hf hdesc hparse
    | some m =>
      rw [Option.bind_some, hparse]
      exact .record hf (hdesc.recorded hparse)

/-- The results of the results that are there. -/
theorem reduceOption_bind {α β : Type} (f : α → Option β) (l : List (Option α)) :
    (l.map (·.bind f)).reduceOption = l.reduceOption.filterMap f := by
  simp only [List.reduceOption, List.filterMap_map, List.filterMap_filterMap]
  rfl

namespace Host

/-- Nothing is missing. If every call of the program finds room in the ring buffer, no queue answers
that it is full and no write fails, then in every state of the run with nothing on its way, file and
buffer together hold, behind the records of the old file, those of exactly the packets that are
frames and that the parser accepts, in the order of their arrival. The file alone lacks at most one
record and what fits the buffer. -/
theorem log_complete (net : NetworkTypes) (prost : Prost) (cap : ℕ) (file : List UInt8)
    (domains : Finset String) (actions : List HostAction) (h : Host)
    (hwhole : (deframe file).2 = [])
    (hroom : ∀ kernel ctx, .packet kernel ctx ∈ actions → kernel.reserved.isSome)
    (hraw : .consume .full ∉ actions) (hlog : .parser (.send .full) ∉ actions)
    (hwrite : ∀ n, .writeError n ∉ actions)
    (hrun : actions.foldlM (step net prost cap) (start file domains) = some h) (hring : h.ring = [])
    (hdrained : h.stages.Drained) :
    ∃ (results : List (Option DnsResponse)) (records lost : List (List UInt8)),
      List.Forall₂ Handled h.arrived results ∧
      records.map prost.decode = results.reduceOption.map some ∧
      deframe h.log.writer.contents = ((deframe file).1 ++ records, []) ∧
      (deframe h.log.writer.file).1 ++ lost = (deframe file).1 ++ records ∧
      ((lost.drop 1).flatMap frame).length ≤ cap := by
  have hspares : ∀ a ∈ actions, a.Spares .everything :=
    spares_of_not_mem (fun _ => hroom) (fun _ => hraw) (fun _ => hlog) fun _ => hwrite
  obtain ⟨⟨results, waiting, hresults, hsplit, hwaiting⟩, ⟨run, hbounded, hspared, hstages⟩,
    hfiled⟩ := inv_of_run hspares hrun
  have hfiled := hfiled trivial
  obtain rfl : waiting = [] := List.map_eq_nil_iff.mp (hwaiting.symm.trans hring)
  rw [List.append_nil] at hsplit
  -- all that the events are parsed to is in the writer's hands
  have hlog : h.stages.log = results.reduceOption.filterMap freshParse := by
    have hall := (Pipeline.complete_iff FqdnPolicyEngine.calm hbounded hstages).mpr ?_
    · rw [hdrained.writing, hdrained.logQueue, hdrained.pending] at hall
      rw [hsplit, ← hall]
      simp
    · have hfull : Relay.overflowed (Pipeline.report (freshEngine domains) run) = [] :=
        Pipeline.overflowed_eq_nil (fun item hitem => hspared _ hitem trivial rfl)
          fun hsend => hspared _ hsend trivial rfl
      rw [hfull]
      exact ⟨Pipeline.failed_eq_nil fun herror => hspared _ herror trivial, rfl⟩
  obtain ⟨found, lost, hmessages, hfound, hbound⟩ := hfiled.records hwhole
  rw [hdrained.writing, Option.toList_none, List.append_nil] at hmessages
  rw [hfiled.idle hdrained.writing, List.flatten_nil, List.length_nil, Nat.add_zero] at hbound
  refine ⟨results.map (·.bind freshParse), h.stages.log.map prost.encode, lost.map prost.encode,
    List.forall₂_map_right_iff.mpr (hresults.imp fun _ _ hr => hr.handled), ?_,
    hfiled.read_back hwhole hdrained.writing, ?_, hbound⟩
  · rw [reduceOption_bind, ← hlog, List.map_map]
    exact List.map_congr_left fun m _ => prost.decode_encode m
  · rw [hmessages, List.map_append, hfound, List.append_assoc]

/-- A packet of three bytes, and the answer on its way to the file. -/
def quietJourney : List HostAction :=
  let mem : KernelMemory := ⟨some (List.Vector.replicate _ 0), 7⟩
  [.packet mem ⟨4096, [1, 2, 3], by decide⟩, .packet mem ⟨4096, answerFrame.encode, by decide⟩,
    .consume .slot, .parser .receive, .parser .observe, .parser (.send (.slot default)),
    .receiveLog, .advance, .advance, .write]

theorem quietJourney_room :
    ∀ kernel ctx, .packet kernel ctx ∈ quietJourney → kernel.reserved.isSome := by
  intro kernel ctx hpacket
  obtain ⟨rfl, -⟩ | ⟨rfl, -⟩ := by simpa [quietJourney] using hpacket
  · rfl
  · rfl

/-- Nothing is on its way at the end. -/
theorem quietJourney_runs :
    ∃ h, quietJourney.foldlM (step .standard .proto3 2) (start [] {"a"}) = some h ∧
      h.arrived.length = 2 ∧ (deframe h.log.writer.contents).1.length = 1 ∧
      h.stages.task.dnsObs.allowedIpMap.keys.length = 1 ∧ h.ring = [] ∧ h.stages.Drained := by
  have hrun : ((quietJourney.foldlM (step .standard .proto3 2) (start [] {"a"})).map fun h =>
      (h.arrived.length, (deframe h.log.writer.contents).1.length,
        h.stages.task.dnsObs.allowedIpMap.keys.length,
        h.ring.isEmpty && h.stages.pending.isEmpty && h.stages.logQueue.isEmpty &&
          h.stages.writing.isNone)) = some (2, 1, 1, true) := by
    decide +kernel
  obtain ⟨h, hh, hparts⟩ := Option.map_eq_some_iff.mp hrun
  obtain ⟨harrived, hfound, hkeys, ⟨⟨hring, hpending⟩, hqueue⟩, hwriting⟩ := by
    simpa using hparts
  exact ⟨h, hh, harrived, hfound, hkeys, hring, hpending, hqueue, hwriting⟩

theorem log_complete_example :
    ∃ h, quietJourney.foldlM (step .standard .proto3 2) (start [] {"a"}) = some h ∧
      h.arrived.length = 2 ∧ ∃ results : List (Option DnsResponse),
        List.Forall₂ Handled h.arrived results ∧ results.reduceOption.length = 1 ∧
        (deframe h.log.writer.contents).1.map Prost.proto3.decode =
          results.reduceOption.map some := by
  obtain ⟨h, hh, harrived, hfound, -, hring, hdrained⟩ := quietJourney_runs
  obtain ⟨results, records, lost, hhandled, hdecode, hread, -⟩ :=
    log_complete .standard .proto3 2 [] {"a"} quietJourney h rfl quietJourney_room
      (by simp [quietJourney]) (by simp [quietJourney]) (by simp [quietJourney]) hh hring hdrained
  have hrecords : (deframe h.log.writer.contents).1 = records := congrArg Prod.fst hread
  refine ⟨h, hh, harrived, results, hhandled, ?_, hrecords ▸ hdecode⟩
  have hlength := congrArg List.length hdecode
  rwa [List.length_map, List.length_map, ← hrecords, hfound, eq_comm] at hlength

/-- No derived key is missing. If every call of the program finds room in the ring buffer and the
first queue never answers that it is full, then in every state of the run with no event in front of
the parser, the keys of the map are the first 1024 distinct ones that are derived from all the
packets. So while the map has room, every key that `update` derives is in it, whatever the second
queue answered and whichever writes failed. Addresses of a response behind the first are no keys. -/
theorem map_complete (net : NetworkTypes) (prost : Prost) (cap : ℕ) (file : List UInt8)
    (domains : Finset String) (actions : List HostAction) (h : Host)
    (hroom : ∀ kernel ctx, .packet kernel ctx ∈ actions → kernel.reserved.isSome)
    (hraw : .consume .full ∉ actions)
    (hrun : actions.foldlM (step net prost cap) (start file domains) = some h) (hring : h.ring = [])
    (hpending : h.stages.pending = []) :
    ∃ results : List (Option RawDnsEvent), List.Forall₂ (Yields True) h.arrived results ∧
      h.stages.task.dnsObs.allowedIpMap.keys =
        (results.reduceOption.filterMap (RawDnsEvent.derivedKey domains)).eraseDups.take
          allowedIpMapCapacity ∧
      (h.stages.task.dnsObs.allowedIpMap.keys.length < allowedIpMapCapacity →
        ∀ ev k, some ev ∈ results → ev.derivedKey domains = some k →
          k ∈ h.stages.task.dnsObs.allowedIpMap.keys) := by
  have hspares : ∀ a ∈ actions, a.Spares .events :=
    spares_of_not_mem (fun _ => hroom) (fun _ => hraw) False.elim False.elim
  obtain ⟨⟨results, waiting, hresults, hsplit, hwaiting⟩, ⟨run, hbounded, hspared, hstages⟩, -⟩ :=
    inv_of_run hspares hrun
  obtain rfl : waiting = [] := List.map_eq_nil_iff.mp (hwaiting.symm.trans hring)
  have hseen := Pipeline.seen_of_run hbounded hstages
  have hqueued := Pipeline.queued_eq_events (fun item hitem => hspared _ hitem trivial rfl) hstages
  -- every event of the packets has been queued and shown to the engine
  have hall : Pipeline.observed (Pipeline.passages (freshEngine domains) run) =
      results.reduceOption := by
    have hnone : h.stages.unobserved = [] := Pipeline.unobserved_eq_nil hpending
    have hevents := hseen.split
    rw [hqueued, hnone, List.append_nil] at hevents
    rw [hsplit, List.append_nil, hevents]
  have hkeys : h.stages.task.dnsObs.allowedIpMap.keys =
      (results.reduceOption.filterMap (RawDnsEvent.derivedKey domains)).eraseDups.take
        allowedIpMapCapacity := by
    rw [← hall]
    exact hseen.keys_eq
  refine ⟨results, hresults, hkeys, fun hless ev k hev hkey => ?_⟩
  rw [hkeys, List.length_take] at hless
  rw [hkeys, List.take_of_length_le (by omega), List.mem_eraseDups]
  exact List.mem_filterMap.mpr ⟨ev, List.reduceOption_mem_iff.mpr hev, hkey⟩

/-- The one key of the map is that of the one event. -/
theorem map_complete_example :
    ∃ h, quietJourney.foldlM (step .standard .proto3 2) (start [] {"a"}) = some h ∧
      h.stages.task.dnsObs.allowedIpMap.keys.length = 1 ∧
      ∃ results : List (Option RawDnsEvent), List.Forall₂ (Yields True) h.arrived results ∧
        ∀ ev k, some ev ∈ results → ev.derivedKey {"a"} = some k →
          k ∈ h.stages.task.dnsObs.allowedIpMap.keys := by
  obtain ⟨h, hh, -, -, hone, hring, hdrained⟩ := quietJourney_runs
  obtain ⟨results, hresults, -, hall⟩ := map_complete .standard .proto3 2 [] {"a"} quietJourney h
    quietJourney_room (by simp [quietJourney]) hh hring hdrained.pending
  refine ⟨h, hh, hone, results, hresults, hall ?_⟩
  rw [hone]
  decide

end Host

end CiliumMini
