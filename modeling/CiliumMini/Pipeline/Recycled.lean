import CiliumMini.Ebpf.Spec
import CiliumMini.Parser.Events

/-!
# Recycled memory

The kernel program fills an event in memory of the ring buffer that still holds an old one, and the
daemon parses it into a slot that still holds an old response. Neither shows in the result: the
parser reads the fields that were written for this packet and the first `payload_len` bytes
(`parseDnsInto_congr`), so two calls on one packet give the same response, whatever was in memory
(`recycled_memory`).
-/

namespace CiliumMini

open Exec

/-- The two events agree in everything but their padding and the bytes behind `payload_len`. -/
structure RawDnsEvent.SameContent (ev ev' : RawDnsEvent) : Prop where
  srcIp : ev.srcIp = ev'.srcIp
  dstIp : ev.dstIp = ev'.dstIp
  srcPort : ev.srcPort = ev'.srcPort
  dstPort : ev.dstPort = ev'.dstPort
  timestampNs : ev.timestampNs = ev'.timestampNs
  payloadLen : ev.payloadLen = ev'.payloadLen
  message : ev.message = ev'.message

/-- The parser does not read the padding and the bytes behind `payload_len`. -/
theorem parseDnsInto_congr {ev ev' : RawDnsEvent} (h : ev.SameContent ev') :
    parseDnsInto ev = parseDnsInto ev' := by
  have hslice : (sliceTo ev.payload.toList ev'.payloadLen.toNat : Outcome DnsParseError _) =
      sliceTo ev'.payload.toList ev'.payloadLen.toNat := by
    have hmsg := h.message
    rw [RawDnsEvent.message, RawDnsEvent.message, h.payloadLen] at hmsg
    rw [sliceTo, sliceTo, hmsg, ev.payload.toList_length, ev'.payload.toList_length]
  simp only [parseDnsInto, h.srcIp, h.dstIp, h.srcPort, h.dstPort, h.timestampNs, h.payloadLen,
    hslice]

/-- The same, with the old contents of the slots. -/
theorem parseDnsInto_run_congr {ev ev' : RawDnsEvent} (h : ev.SameContent ev')
    (slot slot' : DnsResponse) : (parseDnsInto ev).run slot = (parseDnsInto ev').run slot' := by
  rw [parseDnsInto_congr h, parseDnsInto_run_slot ev' slot, parseDnsInto_run_slot ev' slot']

/-- Two events that describe one frame at one time have the same content. -/
theorem DnsFrame.Describes.sameContent {f : DnsFrame} {ev ev' : RawDnsEvent} (h : f.Describes ev)
    (h' : f.Describes ev') (htime : ev.timestampNs = ev'.timestampNs) : ev.SameContent ev' where
  srcIp := by rw [h.srcIp, h'.srcIp]
  dstIp := by rw [h.dstIp, h'.dstIp]
  srcPort := UInt16.toNat_inj.mp (by rw [h.srcPort, h'.srcPort])
  dstPort := UInt16.toNat_inj.mp (by rw [h.dstPort, h'.dstPort])
  timestampNs := htime
  payloadLen := UInt16.toNat_inj.mp (by rw [h.payloadLen, h'.payloadLen])
  message := by rw [h.payload, h'.payload]

/-- No leak from recycled memory. On every packet, whatever the reserved ring-buffer record and the
two slots held before, the submitted events are parsed to the same result and the same final slot.
-/
theorem recycled_memory (net : NetworkTypes) (ctx : TcContext) (endTs : UInt64)
    (old₁ old₂ : RawDnsEvent) (before₁ before₂ : List RawDnsEvent) :
    (∃ submitted₁ submitted₂,
      (dnsTc net ⟨some old₁, endTs⟩ ctx).run before₁ = (.ok tcActOk, before₁ ++ submitted₁) ∧
      (dnsTc net ⟨some old₂, endTs⟩ ctx).run before₂ = (.ok tcActOk, before₂ ++ submitted₂) ∧
      List.Forall₂ (fun ev₁ ev₂ => ∀ slot₁ slot₂ : DnsResponse,
        (parseDnsInto ev₁).run slot₁ = (parseDnsInto ev₂).run slot₂) submitted₁ submitted₂) ∧
      ∀ ev ev' : RawDnsEvent, ev.SameContent ev' → ∀ slot slot' : DnsResponse,
        (parseDnsInto ev).run slot = (parseDnsInto ev').run slot' := by
  refine ⟨?_, fun ev ev' h => parseDnsInto_run_congr h⟩
  by_cases hframe : ∃ f : DnsFrame, ctx.packet = f.encode
  · obtain ⟨f, hf⟩ := hframe
    obtain ⟨ev₁, hrun₁, hdesc₁, htime₁⟩ := dnsTc_submits net before₁ hf
      (show (⟨some old₁, endTs⟩ : KernelAnswers).reserved = some old₁ from rfl)
    obtain ⟨ev₂, hrun₂, hdesc₂, htime₂⟩ := dnsTc_submits net before₂ hf
      (show (⟨some old₂, endTs⟩ : KernelAnswers).reserved = some old₂ from rfl)
    refine ⟨[ev₁], [ev₂], hrun₁, hrun₂, List.Forall₂.cons ?_ List.Forall₂.nil⟩
    exact parseDnsInto_run_congr (hdesc₁.sameContent hdesc₂ (htime₁.trans htime₂.symm))
  · have hnone : ∀ f : DnsFrame, ctx.packet ≠ f.encode := fun f hf => hframe ⟨f, hf⟩
    refine ⟨[], [], ?_, ?_, List.Forall₂.nil⟩
    · rw [List.append_nil, dnsTc_skips (Or.inr hnone)]
    · rw [List.append_nil, dnsTc_skips (Or.inr hnone)]

end CiliumMini
