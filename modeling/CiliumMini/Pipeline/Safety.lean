import CiliumMini.Ebpf.Spec
import CiliumMini.Policy

/-!
# No packet crashes the daemon

The bound on `payload_len` and the address families are established by the kernel program and never
rechecked by the parser. The bytes behind `ip_family` are established by the parser and never
rechecked by the policy engine. Both are followed here from a packet to the map.
-/

namespace CiliumMini

open Exec

/-- The families that the kernel program writes are those that `parse_ip` accepts. -/
theorem IpHeader.supported (ip : IpHeader) : ip.src.Supported ∧ ip.dst.Supported := by
  cases ip with
  | v4 fixed options hlength hproto => exact ⟨Or.inl rfl, Or.inl rfl⟩
  | v6 hdr hnext => exact ⟨Or.inr rfl, Or.inr rfl⟩

/-- The addresses of a frame are of a supported family. -/
theorem DnsFrame.Describes.supported {f : DnsFrame} {ev : RawDnsEvent} (h : f.Describes ev) :
    ev.Supported := by
  rw [RawDnsEvent.Supported, h.srcIp, h.dstIp]
  exact f.ip.supported

/-- No event of a frame announces more than 512 bytes. -/
theorem DnsFrame.Describes.payloadLen_le {f : DnsFrame} {ev : RawDnsEvent} (h : f.Describes ev) :
    ev.payloadLen.toNat ≤ maxDnsPayloadSize := by
  rw [h.payloadLen]
  exact Nat.min_le_left _ _

/-- Whatever packet an event was submitted for: the event keeps the bounds that the parser relies
on, the parser neither panics nor finds an unsupported family, and what it produces makes no
`unwrap` of the policy engine fail. -/
theorem dnsTc_event_safe (net : NetworkTypes) (kernel : KernelAnswers) (ctx : TcContext)
    (before submitted : List RawDnsEvent) (out : Outcome Unit Int32)
    (hrun : (dnsTc net kernel ctx).run before = (out, before ++ submitted)) (ev : RawDnsEvent)
    (hev : ev ∈ submitted) :
    ev.payloadLen.toNat ≤ maxDnsPayloadSize ∧
      (ev.srcIp.family = afInet ∨ ev.srcIp.family = afInet6) ∧
      (ev.dstIp.family = afInet ∨ ev.dstIp.family = afInet6) ∧
      ∀ slot, ((parseDnsInto ev).run slot).1 ≠ .panic ∧
        (∀ af, ((parseDnsInto ev).run slot).1 ≠ .err (.unsupportedAddressFamily af)) ∧
        ∀ s, (parseDnsInto ev).run slot = (.ok (), s) →
          (s.ipFamily = afInet → 4 ≤ s.resolvedIpRaw.length) ∧
            (s.ipFamily = afInet6 → 16 ≤ s.resolvedIpRaw.length) ∧
            ∀ e : FqdnPolicyEngine, ((FqdnPolicyEngine.update s).run e).1 ≠ .panic := by
  obtain ⟨f, -, hdesc⟩ := describes_of_submitted hrun hev
  have hsup := hdesc.supported
  have hlen := hdesc.payloadLen_le
  refine ⟨hlen, hsup.1, hsup.2, fun slot => ⟨parseDnsInto_ne_panic hlen slot, ?_, ?_⟩⟩
  · intro af herr
    exact (parseDnsInto_spec hsup hlen slot).of_err (Prod.ext herr rfl)
  · intro s hs
    have hbacked := parseDnsInto_familyBacked hlen hs
    refine ⟨hbacked.1, hbacked.2, fun e => ?_⟩
    obtain ⟨out, hout, hupdate⟩ := FqdnPolicyEngine.update_run (e := e) hbacked
    rw [hupdate]
    exact hout

theorem dnsTc_event_safe_example :
    ∃ ev, (dnsTc NetworkTypes.standard exampleRoom exampleContext).run [] = (.ok tcActOk, [ev]) ∧
      ev.payloadLen.toNat ≤ maxDnsPayloadSize ∧
      ∀ slot, ((parseDnsInto ev).run slot).1 ≠ .panic := by
  obtain ⟨ev, hrun, -⟩ := dnsTc_submits NetworkTypes.standard []
    (show exampleContext.packet = exampleFrame.encode from rfl)
    (show exampleRoom.reserved = some _ from rfl)
  obtain ⟨hlen, -, -, hparse⟩ :=
    dnsTc_event_safe NetworkTypes.standard exampleRoom exampleContext [] [ev] (.ok tcActOk)
      hrun ev List.mem_cons_self
  exact ⟨ev, hrun, hlen, fun slot => (hparse slot).1⟩

end CiliumMini
