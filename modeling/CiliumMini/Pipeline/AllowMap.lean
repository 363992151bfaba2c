import CiliumMini.Pipeline.ParserStage

/-!
# The allow map over whole runs

Two laws of the map that the parser stage fills. The map is a function of the received events alone:
its keys are the first 1024 distinct derived keys (`allowMap_eq`). A derived key is the address of a
decoded record if the first and the last decoded record of its event are of one kind
(`allowMap_sound`); otherwise it can be joined from several records (`allowMap_joins_records`).
-/

namespace CiliumMini

open Exec

/-- The parser stage with the policy engine and an empty map. -/
def startPolicy (domains : Finset String) : ParserTask FqdnPolicyEngine :=
  .start ⟨.empty, domains⟩

/-- The keys derived from the events of a run, in order of arrival. -/
def derivedKeys (domains : Finset String) (items : List (RawDnsEvent × LogSend)) : List RawIpAddr :=
  (items.map Prod.fst).filterMap (RawDnsEvent.derivedKey domains)

section Runs

variable {domains : Finset String} {items items' : List (RawDnsEvent × LogSend)}

variable (domains) in
/-- A run from an empty map never panics; it inserts the derived keys in order. -/
theorem startPolicy_run (hlen : ∀ i ∈ items, i.1.payloadLen.toNat ≤ maxDnsPayloadSize) :
    ∃ t, (startPolicy domains).run items = some t ∧
      t.dnsObs.allowedIpMap = BoundedMap.empty.insertAll (derivedKeys domains items) 0 := by
  obtain ⟨t, hrun, hobs⟩ := ParserTask.run_dnsObs items hlen (startPolicy domains)
  refine ⟨t, hrun, ?_⟩
  rw [hobs]
  rfl

variable (domains) in
/-- From an empty map, the first 1024 distinct keys are left. -/
theorem keys_startPolicy_run (hlen : ∀ i ∈ items, i.1.payloadLen.toNat ≤ maxDnsPayloadSize) :
    ∃ t, (startPolicy domains).run items = some t ∧
      t.dnsObs.allowedIpMap.keys =
        (derivedKeys domains items).eraseDups.take allowedIpMapCapacity := by
  obtain ⟨t, hrun, hmap⟩ := startPolicy_run domains hlen
  exact ⟨t, hrun, by rw [hmap, BoundedMap.keys_insertAll]⟩

/-- A longer run keeps the keys of a shorter one. -/
theorem keys_prefix_of_prefix (hlen : ∀ i ∈ items, i.1.payloadLen.toNat ≤ maxDnsPayloadSize)
    {pre : List (RawDnsEvent × LogSend)} (hpre : pre <+: items) {t : ParserTask FqdnPolicyEngine}
    (ht : (startPolicy domains).run items = some t) :
    ∃ t₀, (startPolicy domains).run pre = some t₀ ∧
      t₀.dnsObs.allowedIpMap.keys <+: t.dnsObs.allowedIpMap.keys := by
  obtain ⟨rest, rfl⟩ := hpre
  obtain ⟨t₀, hrun₀, hmap₀⟩ := startPolicy_run domains
    fun i hi => hlen i (List.mem_append_left rest hi)
  obtain ⟨t₁, hrun₁, hmap₁⟩ := startPolicy_run domains hlen
  obtain rfl : t = t₁ := Option.some.inj (ht.symm.trans hrun₁)
  refine ⟨t₀, hrun₀, ?_⟩
  have hsplit : derivedKeys domains (pre ++ rest) =
      derivedKeys domains pre ++ derivedKeys domains rest := by
    simp [derivedKeys]
  rw [hmap₀, hmap₁, hsplit, BoundedMap.insertAll_append]
  exact BoundedMap.keys_prefix_insertAll _ _ _

/-- Runs over the same events, in any order and with any repetitions, derive the same keys. -/
theorem mem_derivedKeys_congr (hsame : ∀ ev, ev ∈ items.map Prod.fst ↔ ev ∈ items'.map Prod.fst)
    (k : RawIpAddr) : k ∈ derivedKeys domains items ↔ k ∈ derivedKeys domains items' := by
  simp only [derivedKeys, List.mem_filterMap, hsame]

end Runs

/-- The map is a function of the received events. Its keys are the first 1024 distinct keys derived
from the events that are parsed with an allowed domain and a family; no key is ever removed; and
while the distinct keys fit, neither order nor repetition of the events matters. The answers of the
log queue appear nowhere on the right. -/
theorem allowMap_eq (domains : Finset String) (items : List (RawDnsEvent × LogSend))
    (hlen : ∀ i ∈ items, i.1.payloadLen.toNat ≤ maxDnsPayloadSize) :
    ∃ t, (startPolicy domains).run items = some t ∧
      t.dnsObs.allowedIpMap.keys =
        (derivedKeys domains items).eraseDups.take allowedIpMapCapacity ∧
      (∀ i ∈ items, (i.1.derivedKey domains).isSome ↔
        ∃ s, (parseDnsInto i.1).run default = (.ok (), s) ∧ s.domainName ∈ domains ∧
          s.ipFamily ≠ 0) ∧
      (∀ pre, pre <+: items → ∃ t₀, (startPolicy domains).run pre = some t₀ ∧
        t₀.dnsObs.allowedIpMap.keys <+: t.dnsObs.allowedIpMap.keys) ∧
      ((derivedKeys domains items).eraseDups.length ≤ allowedIpMapCapacity →
        ∀ items', (∀ ev, ev ∈ items.map Prod.fst ↔ ev ∈ items'.map Prod.fst) →
          ∃ t', (startPolicy domains).run items' = some t' ∧
            ∀ k, t'.dnsObs.allowedIpMap.lookup k = t.dnsObs.allowedIpMap.lookup k) := by
  obtain ⟨t, hrun, hmap⟩ := startPolicy_run domains hlen
  refine ⟨t, hrun, by rw [hmap, BoundedMap.keys_insertAll],
    fun i hi => derivedKey_isSome (hlen i hi) domains,
    fun pre hpre => keys_prefix_of_prefix hlen hpre hrun, ?_⟩
  intro hfit items' hsame
  have hlen' : ∀ i ∈ items', i.1.payloadLen.toNat ≤ maxDnsPayloadSize := by
    intro i hi
    obtain ⟨j, hj, hji⟩ := List.mem_map.mp ((hsame i.1).mpr (List.mem_map_of_mem hi))
    exact hji ▸ hlen j hj
  obtain ⟨t', hrun', hmap'⟩ := startPolicy_run domains hlen'
  refine ⟨t', hrun', fun k => ?_⟩
  rw [hmap, hmap']
  exact (BoundedMap.lookup_insertAll_congr 0 (mem_derivedKeys_congr hsame) hfit k).symm

/-! ## Where the keys come from -/

/-- The map key of an address record. -/
def AddrRecord.key : AddrRecord → RawIpAddr
  | a addr => .fromIpv4 addr
  | aaaa addr => .fromIpv6 addr

/-- `k` is the address of a record that was decoded while one of the events was parsed, with an
allowed domain. -/
def KeySound (domains : Finset String) (events : List RawDnsEvent) (k : RawIpAddr) : Prop :=
  ∃ ev ∈ events, ∃ s, (parseDnsInto ev).run default = (.ok (), s) ∧ s.domainName ∈ domains ∧
    ∃ r ∈ ev.decoded, k = r.key

/-- The first and the last decoded address record are of one kind. -/
def RawDnsEvent.OneKind (ev : RawDnsEvent) : Prop :=
  ev.decoded.head?.map AddrRecord.family = ev.decoded.getLast?.map AddrRecord.family

/-- A response that starts with the bytes of a record and has its family yields that record's key.
-/
theorem leadingKey_of_record {s : DnsResponse} (r : AddrRecord) {rest : List UInt8}
    (hraw : s.resolvedIpRaw = r.bytes ++ rest) (hfam : s.ipFamily = r.family) :
    s.leadingKey = some r.key := by
  unfold DnsResponse.leadingKey
  cases r with
  | a addr =>
    have htake : s.resolvedIpRaw.take 4 = addr.toList := by
      rw [hraw]
      exact List.take_left' addr.toList_length
    have hlen : 4 ≤ s.resolvedIpRaw.length := by simp [hraw, AddrRecord.bytes]
    have h4 : s.ipFamily = afInet := hfam
    rw [if_pos h4, dif_pos hlen]
    exact congrArg (fun o => some (RawIpAddr.fromIpv4 o)) (Subtype.ext htake)
  | aaaa addr =>
    have htake : s.resolvedIpRaw.take 16 = addr.toList := by
      rw [hraw]
      exact List.take_left' addr.toList_length
    have hlen : 16 ≤ s.resolvedIpRaw.length := by simp [hraw, AddrRecord.bytes]
    have h6 : s.ipFamily = afInet6 := hfam
    have h4 : s.ipFamily ≠ afInet := by
      rw [h6]
      decide
    rw [if_neg h4, if_pos h6, dif_pos hlen]
    exact congrArg (fun o => some (RawIpAddr.fromIpv6 o)) (Subtype.ext htake)

/-- The derived key of an event whose first and last records are of one kind is the first record's.
-/
theorem derivedKey_of_oneKind {ev : RawDnsEvent}
    (hlen : ev.payloadLen.toNat ≤ maxDnsPayloadSize) (hkind : ev.OneKind) {domains : Finset String}
    {k : RawIpAddr} (h : ev.derivedKey domains = some k) :
    ∃ s, (parseDnsInto ev).run default = (.ok (), s) ∧ s.domainName ∈ domains ∧
      ∃ r, ev.decoded.head? = some r ∧ k = r.key := by
  obtain ⟨s, hparse, hdomain, hfam⟩ := (derivedKey_isSome hlen domains).mp (by rw [h]; rfl)
  refine ⟨s, hparse, hdomain, ?_⟩
  simp only [RawDnsEvent.derivedKey, hparse, if_pos (And.intro hdomain hfam)] at h
  obtain ⟨hraw, hlast⟩ := parseDnsInto_records hlen hparse
  rw [RawDnsEvent.OneKind] at hkind
  rw [← hkind] at hlast
  cases hdec : ev.decoded with
  | nil =>
    -- without a decoded record the slot keeps the family 0 of its reset
    rw [hdec] at hlast
    exact absurd hlast hfam
  | cons r rs =>
    rw [hdec] at hlast hraw
    have hfirst := leadingKey_of_record r hraw hlast
    exact ⟨r, rfl, Option.some.inj (h.symm.trans hfirst)⟩

/-- If in every event that is parsed with an allowed domain the first and the last decoded record
are of one kind, then after every prefix of the run all keys are addresses of decoded records. -/
theorem allowMap_sound (domains : Finset String) (items : List (RawDnsEvent × LogSend))
    (hlen : ∀ i ∈ items, i.1.payloadLen.toNat ≤ maxDnsPayloadSize)
    (hkind : ∀ i ∈ items, (∃ s, (parseDnsInto i.1).run default = (.ok (), s) ∧
      s.domainName ∈ domains) → i.1.OneKind)
    (pre : List (RawDnsEvent × LogSend)) (hpre : pre <+: items) :
    ∃ t, (startPolicy domains).run pre = some t ∧
      ∀ k ∈ t.dnsObs.allowedIpMap.keys, KeySound domains (pre.map Prod.fst) k := by
  have hlenPre : ∀ i ∈ pre, i.1.payloadLen.toNat ≤ maxDnsPayloadSize := by
    intro i hi
    exact hlen i (hpre.subset hi)
  obtain ⟨t, hrun, hkeys⟩ := keys_startPolicy_run domains hlenPre
  refine ⟨t, hrun, ?_⟩
  intro k hk
  rw [hkeys] at hk
  have hderived := List.mem_eraseDups.mp (List.mem_of_mem_take hk)
  obtain ⟨ev, hev, hkey⟩ := List.mem_filterMap.mp hderived
  obtain ⟨i, hi, rfl⟩ := List.mem_map.mp hev
  obtain ⟨s, hparse, hdomain, -⟩ :=
    (derivedKey_isSome (hlenPre i hi) domains).mp (by rw [hkey]; rfl)
  have hone := hkind i (hpre.subset hi) ⟨s, hparse, hdomain⟩
  obtain ⟨m, hm, hallowed, r, hr, rfl⟩ := derivedKey_of_oneKind (hlenPre i hi) hone hkey
  exact ⟨i.1, hev, m, hm, hallowed, r, List.mem_of_head? hr, rfl⟩

/-- Two responses, the second one met by a full log queue. -/
def exampleItems : List (RawDnsEvent × LogSend) :=
  [(exampleEventA 10 0 0 1, .slot default), (exampleEventA 10 0 0 2, .full)]

theorem exampleItems_length :
    ∀ i ∈ exampleItems, i.1.payloadLen.toNat ≤ maxDnsPayloadSize := by decide +kernel

theorem exampleItems_oneKind : ∀ i ∈ exampleItems, i.1.OneKind := by
  unfold RawDnsEvent.OneKind
  decide +kernel

/-- Both addresses are keys, although only one of the responses reached the log. -/
theorem allowMap_eq_example :
    derivedKeys {"a"} exampleItems =
        [.fromIpv4 ⟨[10, 0, 0, 1], rfl⟩, .fromIpv4 ⟨[10, 0, 0, 2], rfl⟩] ∧
      ∃ t, (startPolicy {"a"}).run exampleItems = some t ∧
        t.dnsObs.allowedIpMap.keys =
          (derivedKeys {"a"} exampleItems).eraseDups.take allowedIpMapCapacity := by
  obtain ⟨t, hrun, hkeys, -⟩ := allowMap_eq {"a"} exampleItems exampleItems_length
  exact ⟨by decide +kernel, t, hrun, hkeys⟩

/-- The keys of the example come from its events. -/
theorem allowMap_sound_example :
    ∃ t, (startPolicy {"a"}).run exampleItems = some t ∧
      ∀ k ∈ t.dnsObs.allowedIpMap.keys, KeySound {"a"} (exampleItems.map Prod.fst) k :=
  allowMap_sound {"a"} exampleItems exampleItems_length (fun i hi _ => exampleItems_oneKind i hi)
    exampleItems List.prefix_rfl

/-- A message for `a.bc` that the loop reads as an A record for 10.0.0.1 and then, out of a label of
the first name, as an AAAA record. -/
def mixedMessage : List UInt8 :=
  [0, 1, 0x81, 0x80, 0, 1, 0, 2, 0, 0, 0, 0] ++ [1, 97, 2, 98, 99, 0, 0, 1, 0, 1] ++
    ([26, 0, 28, 0, 1, 0, 0, 0, 0, 0, 16] ++
      [1, 2, 3, 4, 5, 6, 7, 8, 9, 10, 11, 12, 13, 14, 15, 16] ++
      [0, 0, 1, 0, 1, 0, 0, 0, 60, 0, 4, 10, 0, 0, 1]) ++
    [0, 0, 1, 0, 1, 0, 0, 0, 60, 0, 4, 10, 0, 0, 2]

/-- The event that carries it. -/
def mixedEvent : RawDnsEvent :=
  .carrying exampleResolver exampleResolver mixedMessage (by decide)

/-- The four bytes of the A record and the first twelve of the AAAA record become one key. -/
theorem allowMap_joins_records :
    ¬ ∀ (domains : Finset String) (items : List (RawDnsEvent × LogSend)),
      (∀ i ∈ items, i.1.payloadLen.toNat ≤ maxDnsPayloadSize) →
        ∃ t, (startPolicy domains).run items = some t ∧
          ∀ k ∈ t.dnsObs.allowedIpMap.keys, KeySound domains (items.map Prod.fst) k := by
  intro hall
  have hlen : ∀ i ∈ [(mixedEvent, LogSend.full)], i.1.payloadLen.toNat ≤ maxDnsPayloadSize := by
    decide +kernel
  obtain ⟨t, hrun, hsound⟩ := hall {"a.bc"} [(mixedEvent, .full)] hlen
  obtain ⟨t', hrun', hkeys⟩ := keys_startPolicy_run {"a.bc"} hlen
  obtain rfl : t = t' := Option.some.inj (hrun.symm.trans hrun')
  have hjoined : (derivedKeys {"a.bc"} [(mixedEvent, .full)]).eraseDups.take allowedIpMapCapacity =
      [.fromIpv6 ⟨[10, 0, 0, 1, 1, 2, 3, 4, 5, 6, 7, 8, 9, 10, 11, 12], rfl⟩] := by decide +kernel
  have hdecoded : mixedEvent.decoded.map AddrRecord.key = [.fromIpv4 ⟨[10, 0, 0, 1], rfl⟩,
      .fromIpv6 ⟨[1, 2, 3, 4, 5, 6, 7, 8, 9, 10, 11, 12, 13, 14, 15, 16], rfl⟩] := by decide +kernel
  rw [hkeys, hjoined] at hsound
  obtain ⟨ev, hev, s, -, -, r, hr, hkey⟩ := hsound _ List.mem_cons_self
  obtain rfl : ev = mixedEvent := List.mem_singleton.mp hev
  have hmem : r.key ∈ mixedEvent.decoded.map AddrRecord.key := List.mem_map_of_mem hr
  rw [hdecoded, ← hkey] at hmem
  exact absurd hmem (by decide)

end CiliumMini
