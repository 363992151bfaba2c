import CiliumMini.Parser.Recovery
import CiliumMini.Parser.Responses
import CiliumMini.Rust.NetText

/-!
# What a response tells about its event

The texts in a response lose nothing: source and destination address are read back from theirs,
family included, and text and bytes together tell the decoded records. So two events that are parsed
to one response agree in everything that the response is made of (`freshParse_identifies`).
-/

namespace CiliumMini

/-- The same family and the same address; the bytes behind an IPv4 address do not count. -/
def RawIpAddr.SameAddress (ip ip' : RawIpAddr) : Prop :=
  ip.family = ip'.family ∧
    if ip.family = afInet then ip.bytes.toList.take 4 = ip'.bytes.toList.take 4
    else ip.bytes = ip'.bytes

/-- The text of an address tells the address. -/
theorem RawIpAddr.text_inj {ip ip' : RawIpAddr} (hsup : ip.Supported) (hsup' : ip'.Supported)
    (h : ip.text = ip'.text) : ip.SameAddress ip' := by
  -- a dot or a colon comes first, so texts of two families differ
  have hmark := congrArg firstNonHex h
  unfold RawIpAddr.text at h hmark
  by_cases h4 : ip.family = afInet
  · by_cases h4' : ip'.family = afInet
    · rw [if_pos h4, if_pos h4'] at h
      have hfour := congrArg (fun v : Ipv4Addr => v.octets.toList) (Ipv4Addr.display_injective h)
      exact ⟨h4.trans h4'.symm, by rw [if_pos h4]; exact hfour⟩
    · rw [if_pos h4, if_neg h4', Ipv4Addr.firstNonHex_display,
        Ipv6Addr.firstNonHex_display] at hmark
      exact absurd hmark (by decide)
  · by_cases h4' : ip'.family = afInet
    · rw [if_neg h4, if_pos h4', Ipv4Addr.firstNonHex_display,
        Ipv6Addr.firstNonHex_display] at hmark
      exact absurd hmark (by decide)
    · rw [if_neg h4, if_neg h4'] at h
      have hall := Ipv6Addr.mk.inj (Ipv6Addr.display_injective h)
      refine ⟨(hsup.resolve_left h4).trans (hsup'.resolve_left h4').symm, ?_⟩
      rw [if_neg h4]
      exact hall

/-- The fields of a response. -/
theorem freshParse_fields {ev : RawDnsEvent} (hlen : ev.payloadLen.toNat ≤ maxDnsPayloadSize)
    {m : DnsResponse} (h : freshParse ev = some m) :
    ev.Supported ∧ m.srcIp = String.ofList ev.srcIp.text ∧ m.dstIp = String.ofList ev.dstIp.text ∧
      m.srcPort = ev.srcPort.toUInt32 ∧ m.dstPort = ev.dstPort.toUInt32 ∧
      m.timestampNs = ev.timestampNs ∧
      m.resolvedIp = String.ofList (ev.decoded.flatMap AddrRecord.text) ∧
      m.resolvedIpRaw = ev.decoded.flatMap AddrRecord.bytes := by
  obtain ⟨hsup, n, domain, -, -, -, hm⟩ := parseDnsInto_ok hlen (freshParse_eq_some.mp h)
  refine ⟨hsup, ?_, ?_, ?_, ?_, ?_, ?_, ?_⟩
  iterate 5
    · rw [hm, addRecords_frame]
      rfl
  · rw [hm, addRecords_resolvedIp]
    simp [RawDnsEvent.headed]
  · rw [hm, addRecords_resolvedIpRaw]
    rfl

/-- A response identifies its flow, its time and the records decoded for it: two events that are
parsed to one and the same response have the same addresses, ports and time, and the same address
records were decoded from their payloads. -/
theorem freshParse_identifies (ev ev' : RawDnsEvent) (m : DnsResponse)
    (hlen : ev.payloadLen.toNat ≤ maxDnsPayloadSize)
    (hlen' : ev'.payloadLen.toNat ≤ maxDnsPayloadSize) (h : freshParse ev = some m)
    (h' : freshParse ev' = some m) :
    ev.srcIp.SameAddress ev'.srcIp ∧ ev.dstIp.SameAddress ev'.dstIp ∧ ev.srcPort = ev'.srcPort ∧
      ev.dstPort = ev'.dstPort ∧ ev.timestampNs = ev'.timestampNs ∧ ev.decoded = ev'.decoded := by
  obtain ⟨hsup, hsrc, hdst, hsport, hdport, htime, htext, hraw⟩ := freshParse_fields hlen h
  obtain ⟨hsup', hsrc', hdst', hsport', hdport', htime', htext', hraw'⟩ :=
    freshParse_fields hlen' h'
  refine ⟨?_, ?_, ?_, ?_, htime.symm.trans htime', ?_⟩
  · exact RawIpAddr.text_inj hsup.1 hsup'.1 (String.ofList_injective (hsrc.symm.trans hsrc'))
  · exact RawIpAddr.text_inj hsup.2 hsup'.2 (String.ofList_injective (hdst.symm.trans hdst'))
  · exact UInt16.toUInt32_inj.mp (hsport.symm.trans hsport')
  · exact UInt16.toUInt32_inj.mp (hdport.symm.trans hdport')
  · exact AddrRecord.eq_of_joined (String.ofList_injective (htext.symm.trans htext'))
      (hraw.symm.trans hraw')

/-- An event with something in its padding. -/
def paddedEvent : RawDnsEvent := { exampleEventA 10 0 0 1 with pad := 7 }

/-- The padding of an event is not part of its response. -/
theorem freshParse_identifies_example :
    ∃ m, freshParse (exampleEventA 10 0 0 1) = some m ∧ freshParse paddedEvent = some m ∧
      (exampleEventA 10 0 0 1).decoded = paddedEvent.decoded := by
  have hlen : (exampleEventA 10 0 0 1).payloadLen.toNat ≤ maxDnsPayloadSize := by decide +kernel
  have hlen' : paddedEvent.payloadLen.toNat ≤ maxDnsPayloadSize := by decide +kernel
  have hsome : (freshParse (exampleEventA 10 0 0 1)).isSome := by decide +kernel
  have hsame : freshParse paddedEvent = freshParse (exampleEventA 10 0 0 1) := by decide +kernel
  obtain ⟨m, hm⟩ := Option.isSome_iff_exists.mp hsome
  obtain ⟨-, -, -, -, -, hdecoded⟩ := freshParse_identifies (exampleEventA 10 0 0 1) paddedEvent m
    hlen hlen' hm (hsame.trans hm)
  exact ⟨m, hm, hsame.trans hm, hdecoded⟩

end CiliumMini
