import CiliumMini.Parser.Sections
import CiliumMini.Pipeline.AllowMap
import Mathlib.Data.List.Perm.Subperm

/-!
# Which addresses of a response reach the allow map

`FqdnPolicyEngine::update` takes one address out of a response. Of several addresses all but the
first are left out (`update_insertsAll`), and a parsed response without any address ends in the
branch that the source calls a bug (`update_bug_unreachable`).
-/

namespace CiliumMini

open Exec Dns

/-! ## Responses with several addresses -/

/-- The response holds the addresses `rs`, all of the family in `ip_family`. -/
structure DnsResponse.Holds (r : DnsResponse) (rs : List AddrRecord) : Prop where
  ne_nil : rs ≠ []
  family : ∀ a ∈ rs, a.family = r.ipFamily
  raw : r.resolvedIpRaw = rs.flatMap AddrRecord.bytes

namespace FqdnPolicyEngine

/-- The map has room for the addresses it does not hold yet. -/
def RoomFor (e : FqdnPolicyEngine) (rs : List AddrRecord) : Prop :=
  (e.allowedIpMap.keys ++ rs.map AddrRecord.key).eraseDups.length ≤ allowedIpMapCapacity

instance (e : FqdnPolicyEngine) (rs : List AddrRecord) : Decidable (e.RoomFor rs) :=
  inferInstanceAs (Decidable (_ ≤ _))

/-- After a successful update every address is a key and no key is lost. -/
def InsertsAll (e : FqdnPolicyEngine) (r : DnsResponse) (rs : List AddrRecord) : Prop :=
  ∀ e', (update r).run e = (.ok (), e') →
    (∀ a ∈ rs, a.key ∈ e'.allowedIpMap.keys) ∧
      ∀ k ∈ e.allowedIpMap.keys, k ∈ e'.allowedIpMap.keys

end FqdnPolicyEngine

/-- Different records have different keys. -/
theorem AddrRecord.key_injective : Function.Injective AddrRecord.key := by
  intro r r' h
  cases r with
  | a addr =>
    cases r' with
    | a addr' => rw [RawIpAddr.fromIpv4_injective h]
    | aaaa addr' => exact absurd h (RawIpAddr.fromIpv4_ne_fromIpv6 _ _)
  | aaaa addr =>
    cases r' with
    | a addr' => exact absurd h.symm (RawIpAddr.fromIpv4_ne_fromIpv6 _ _)
    | aaaa addr' => rw [RawIpAddr.fromIpv6_injective h]

/-- A response that starts with the bytes of a record of its family yields that record's key. -/
theorem ipAddrOf_of_record {s : DnsResponse} (r : AddrRecord) {rest : List UInt8}
    (hraw : s.resolvedIpRaw = r.bytes ++ rest) (hfam : s.ipFamily = r.family) :
    ipAddrOf s = .ok r.key := by
  have hbacked : s.FamilyBacked := by
    unfold DnsResponse.FamilyBacked
    rw [hfam, hraw, List.length_append]
    rcases r.length_bytes with ⟨hf, hb⟩ | ⟨hf, hb⟩
    · rw [hf, hb]
      exact ⟨fun _ => Nat.le_add_right _ _, fun h => absurd h (by decide)⟩
    · rw [hf, hb]
      exact ⟨fun h => absurd h (by decide), fun _ => Nat.le_add_right _ _⟩
  rw [ipAddrOf_eq hbacked, leadingKey_of_record r hraw hfam]

section Update

variable {e : FqdnPolicyEngine} {r : DnsResponse} {a : AddrRecord} {rs : List AddrRecord}

/-- With room for its key, the insert of the first address is accepted. -/
theorem insert_of_roomFor (hroom : e.RoomFor (a :: rs)) :
    ∃ m, e.allowedIpMap.insert a.key 0 = some m := by
  cases hinsert : e.allowedIpMap.insert a.key 0 with
  | some m => exact ⟨m, rfl⟩
  | none =>
    -- a refused key would be one more than the room allows
    obtain ⟨hnew, hfull⟩ := BoundedMap.insert_eq_none.mp hinsert
    have hnodup : (a.key :: e.allowedIpMap.keys).Nodup :=
      List.nodup_cons.mpr ⟨hnew, e.allowedIpMap.nodup⟩
    have hsub : a.key :: e.allowedIpMap.keys ⊆
        (e.allowedIpMap.keys ++ (a :: rs).map AddrRecord.key).eraseDups := by
      intro k hk
      rw [List.mem_eraseDups, List.mem_append]
      rcases List.mem_cons.mp hk with rfl | hk
      · exact Or.inr List.mem_cons_self
      · exact Or.inl hk
    have hlen := (hnodup.subperm hsub).length_le
    unfold FqdnPolicyEngine.RoomFor at hroom
    rw [List.length_cons, hfull] at hlen
    omega

/-- An update with room succeeds and adds the key of the first address. -/
theorem update_run_first (hdomain : r.domainName ∈ e.allowedDomains) (h : r.Holds (a :: rs))
    (hroom : e.RoomFor (a :: rs)) :
    ∃ e', (FqdnPolicyEngine.update r).run e = (.ok (), e') ∧
      ∀ k, k ∈ e'.allowedIpMap.keys ↔ k = a.key ∨ k ∈ e.allowedIpMap.keys := by
  obtain ⟨m, hm⟩ := insert_of_roomFor hroom
  have hkey := ipAddrOf_of_record a h.raw (h.family a List.mem_cons_self).symm
  refine ⟨{ e with allowedIpMap := m }, ?_, ?_⟩
  · rw [FqdnPolicyEngine.update, run_bind_ok (run_get e), if_neg (not_not.mpr hdomain),
      run_lift_bind_ok hkey, insertAllowed, run_bind_ok (run_get e), hm]
    rfl
  · intro k
    rw [BoundedMap.keys_of_insert hm]
    by_cases hmem : a.key ∈ e.allowedIpMap.keys
    · rw [if_pos hmem]
      constructor
      · exact Or.inr
      · rintro (rfl | hk)
        · exact hmem
        · exact hk
    · rw [if_neg hmem, List.mem_append, List.mem_singleton, or_comm]

end Update

/-- All addresses of a response are inserted exactly when each is the first one or a key already. -/
theorem update_insertsAll (e : FqdnPolicyEngine) (r : DnsResponse) (rs : List AddrRecord)
    (hdomain : r.domainName ∈ e.allowedDomains) (h : r.Holds rs) (hroom : e.RoomFor rs) :
    e.InsertsAll r rs ↔ ∀ a ∈ rs, rs.head? = some a ∨ a.key ∈ e.allowedIpMap.keys := by
  cases rs with
  | nil => exact absurd rfl h.ne_nil
  | cons b rs =>
    obtain ⟨e', hrun, hkeys⟩ := update_run_first hdomain h hroom
    constructor
    · intro hall a ha
      rcases (hkeys a.key).mp ((hall e' hrun).1 a ha) with hfirst | hold
      · left
        rw [List.head?_cons, AddrRecord.key_injective hfirst]
      · exact Or.inr hold
    · intro hcond e'' hrun'
      obtain rfl : e' = e'' := (Prod.mk.inj (hrun.symm.trans hrun')).2
      refine ⟨fun a ha => (hkeys a.key).mpr ?_, fun k hk => (hkeys k).mpr (Or.inr hk)⟩
      rcases hcond a ha with hfirst | hold
      · left
        rw [List.head?_cons, Option.some.injEq] at hfirst
        rw [hfirst]
      · exact Or.inr hold

/-- The address 10.0.0.`d` of the examples. -/
def exampleAddr (d : UInt8) : AddrRecord := .a ⟨[10, 0, 0, d], rfl⟩

/-- A response for `a` with the given addresses. -/
def exampleHolding (rs : List AddrRecord) : DnsResponse :=
  { (default : DnsResponse) with
    domainName := "a", resolvedIpRaw := rs.flatMap AddrRecord.bytes, ipFamily := afInet }

/-- The policy for `a`, with an empty map. -/
def exampleEngine : FqdnPolicyEngine := ⟨.empty, {"a"}⟩

theorem exampleHolding_holds (ds : List UInt8) (hne : ds ≠ []) :
    (exampleHolding (ds.map exampleAddr)).Holds (ds.map exampleAddr) := by
  refine ⟨by simpa using hne, ?_, rfl⟩
  intro a ha
  obtain ⟨d, -, rfl⟩ := List.mem_map.mp ha
  rfl

/-- One address is inserted. -/
theorem update_insertsAll_one :
    exampleEngine.InsertsAll (exampleHolding [exampleAddr 1]) [exampleAddr 1] :=
  (update_insertsAll exampleEngine _ [exampleAddr 1] (Finset.mem_singleton_self _)
    (exampleHolding_holds [1] (by simp)) (by decide)).mpr (by simp)

/-- Of two addresses the second one is left out. -/
theorem update_leaves_second_out :
    ¬ ∀ (e : FqdnPolicyEngine) (r : DnsResponse) (rs : List AddrRecord),
      r.domainName ∈ e.allowedDomains → r.Holds rs → e.RoomFor rs → e.InsertsAll r rs := by
  intro hall
  have hdomain : (exampleHolding [exampleAddr 1, exampleAddr 2]).domainName ∈
      exampleEngine.allowedDomains := Finset.mem_singleton_self _
  have hholds := exampleHolding_holds [1, 2] (by simp)
  have hroom : exampleEngine.RoomFor [exampleAddr 1, exampleAddr 2] := by decide
  obtain ⟨e', hrun, hkeys⟩ := update_run_first hdomain hholds hroom
  have hsecond := (hall _ _ _ hdomain hholds hroom e' hrun).1 (exampleAddr 2) (by simp)
  rw [hkeys] at hsecond
  rcases hsecond with hkey | hold
  · exact absurd (AddrRecord.key_injective hkey) (by decide)
  · exact absurd hold List.not_mem_nil

/-! ## Responses without an address -/

/-- The error of the branch that the source calls a bug. -/
def bugError : AnyhowError := .msg "Ip family should be already parsed, so this is a bug"

/-- The payload asks for `domain`: its labels and a zero byte, four bytes for QTYPE and QCLASS, and
behind them `answers`. -/
def RawDnsEvent.Asks (ev : RawDnsEvent) (domain : String) (answers : List UInt8) : Prop :=
  ∃ (ls : List Label) (four : List UInt8), four.length = 4 ∧
    ev.question = encodeLabels ls ++ 0 :: (four ++ answers) ∧ domain = String.ofList (dotted ls)

/-- The TYPE fields that the first `n` iterations from `offset` on look at. Each stands behind as
many bytes as the name at the offset has, counted from the start of the answers. -/
def typeFields (answers : List UInt8) : ℕ → ℕ → List UInt16
  | 0, _ => []
  | n + 1, offset =>
    match skipName (answers.drop offset) with
    | .ok k => u16At answers k ::
        typeFields answers n (k + rrFixedHdrLen + (u16At answers (k + 8)).toNat)
    | _ => []

/-- One of the TYPE fields is that of an address record. -/
def HasAddressType (answers : List UInt8) (anscount : UInt16) : Prop :=
  ∃ t ∈ typeFields answers anscount.toNat 0, t = typeA ∨ t = typeAAAA

/-- An event asks one question. -/
theorem RawDnsEvent.Asks.unique {ev : RawDnsEvent} {domain domain' : String}
    {answers answers' : List UInt8} (h : ev.Asks domain answers) (h' : ev.Asks domain' answers') :
    domain = domain' ∧ answers = answers' := by
  obtain ⟨ls, four, hfour, hquestion, rfl⟩ := h
  obtain ⟨ls', four', hfour', hquestion', rfl⟩ := h'
  have hsplit : encodeLabels ls ++ (NameEnd.root.encode ++ (four ++ answers)) =
      encodeLabels ls' ++ 0 :: (four' ++ answers') := hquestion.symm.trans hquestion'
  obtain ⟨rfl, -, hrest⟩ := encodeLabels_inj hsplit
  exact ⟨rfl, (List.append_inj hrest (hfour.trans hfour'.symm)).2⟩

/-- Only the two address types are decoded. -/
theorem tryFrom_address {v : UInt16} :
    RecordType.tryFrom v = .a ∨ RecordType.tryFrom v = .aaaa ↔ v = typeA ∨ v = typeAAAA := by
  unfold RecordType.tryFrom typeA typeAAAA
  split_ifs <;> simp_all

/-- A record that is stored without an error has an address exactly when it is of such a type. -/
theorem addr?_eq_none_iff {r : RecordRead} (hr : r.rdata.length = r.rdlength) {s t : DnsResponse}
    (h : (storeRecord r).run s = (.ok (), t)) :
    r.addr? = none ↔ ¬ (r.rtype = .a ∨ r.rtype = .aaaa) := by
  constructor
  · intro hnone htype
    exact addr?_ne_none_of_storeRecord hr h htype hnone
  · intro htype
    cases hkind : r.rtype with
    | a => exact absurd (Or.inl hkind) htype
    | aaaa => exact absurd (Or.inr hkind) htype
    | cname => simp [RecordRead.addr?, hkind]
    | unsupported v => simp [RecordRead.addr?, hkind]

/-- A run of the loop that succeeds decodes no record exactly when it looks at no TYPE of an address
record. -/
theorem decodedRecords_eq_nil_iff {answers : List UInt8} (n : ℕ) {offset : ℕ} {s t : DnsResponse}
    (h : (parseRdataLoop answers n offset).run s = (.ok (), t)) :
    decodedRecords answers n offset = [] ↔
      ∀ v ∈ typeFields answers n offset, ¬ (v = typeA ∨ v = typeAAAA) := by
  induction n generalizing offset s with
  | zero => simp [decodedRecords, typeFields]
  | succ n ih =>
    obtain ⟨r, s', hread, hstore, hloop⟩ := parseRdataLoop_succ_ok h
    have hnone := addr?_eq_none_iff (length_rdata_of_readRecord hread) hstore
    obtain ⟨-, k, hname, rfl, -⟩ := readRecord_ok hread
    have htypes : typeFields answers (n + 1) offset =
        u16At answers k :: typeFields answers n (recordAt answers k).next := by
      rw [typeFields, hname]
      rfl
    have htype : (recordAt answers k).rtype = RecordType.tryFrom (u16At answers k) := rfl
    rw [decodedRecords_succ hread, htypes, List.forall_mem_cons, List.append_eq_nil_iff,
      Option.toList_eq_nil_iff, hnone, htype, tryFrom_address, ih hloop]

/-- What a parsed payload asks for, and whether a record was decoded from its answers. -/
theorem parseDnsInto_asks {ev : RawDnsEvent} (hlen : ev.payloadLen.toNat ≤ maxDnsPayloadSize)
    {slot s : DnsResponse} (h : (parseDnsInto ev).run slot = (.ok (), s)) :
    ∃ answers, ev.Asks s.domainName answers ∧
      (ev.decoded ≠ [] ↔ HasAddressType answers ev.anscount) := by
  obtain ⟨-, n, domain, hname, hfit, hloop, rfl⟩ := parseDnsInto_ok hlen h
  have hdecoded : ev.decoded = decodedRecords (ev.answers n) ev.anscount.toNat 0 := by
    rw [RawDnsEvent.decoded, hname]
  obtain ⟨ls, rest, -, hquestion, rfl, rfl⟩ := parseQname_ok hname
  have hsize := congrArg List.length hquestion
  rw [RawDnsEvent.question, List.length_drop, List.length_append, List.length_cons] at hsize
  have hanswers := answers_eq_drop hquestion
  rw [hanswers] at hdecoded hloop
  refine ⟨rest.drop 4, ⟨ls, rest.take 4, ?_, ?_, ?_⟩, ?_⟩
  · rw [List.length_take]
    omega
  · rw [List.take_append_drop, hquestion]
  · rw [addRecords_frame]
    rfl
  · rw [hdecoded, ne_eq, decodedRecords_eq_nil_iff _ hloop, HasAddressType]
    push Not
    rfl

/-- A parsed response has a leading key exactly when a record was decoded. -/
theorem parseDnsInto_leadingKey_iff {ev : RawDnsEvent}
    (hlen : ev.payloadLen.toNat ≤ maxDnsPayloadSize) {slot s : DnsResponse}
    (h : (parseDnsInto ev).run slot = (.ok (), s)) :
    s.leadingKey.isSome ↔ ev.decoded ≠ [] := by
  obtain ⟨-, hfam⟩ := parseDnsInto_records hlen h
  constructor
  · intro hsome hnil
    rw [hnil] at hfam
    have hzero : s.ipFamily = 0 := hfam
    rw [DnsResponse.leadingKey, hzero, if_neg (by decide), if_neg (by decide)] at hsome
    exact absurd hsome (by simp)
  · intro hne
    apply parseDnsInto_leadingKey hlen h
    rw [hfam, List.getLast?_eq_some_getLast hne]
    rcases (ev.decoded.getLast hne).length_bytes with ⟨hf, -⟩ | ⟨hf, -⟩
    · rw [Option.map_some, Option.getD_some, hf]
      decide
    · rw [Option.map_some, Option.getD_some, hf]
      decide

/-- After a successful parse, the branch is avoided exactly when the domain is not allowed or a
record was decoded. -/
theorem update_ne_bugError {ev : RawDnsEvent} (hlen : ev.payloadLen.toNat ≤ maxDnsPayloadSize)
    {slot s : DnsResponse} (h : (parseDnsInto ev).run slot = (.ok (), s)) (e : FqdnPolicyEngine) :
    ((FqdnPolicyEngine.update s).run e).1 ≠ .err bugError ↔
      s.domainName ∉ e.allowedDomains ∨ ev.decoded ≠ [] := by
  rw [FqdnPolicyEngine.update, run_bind_ok (run_get e)]
  by_cases hdomain : s.domainName ∈ e.allowedDomains
  · have hkey := ipAddrOf_eq (parseDnsInto_familyBacked hlen h)
    rw [if_neg (not_not.mpr hdomain), ← parseDnsInto_leadingKey_iff hlen h]
    cases hfirst : s.leadingKey with
    | some k =>
      rw [hfirst] at hkey
      rw [run_lift_bind_ok hkey, insertAllowed, run_bind_ok (run_get e)]
      refine iff_of_true ?_ (Or.inr rfl)
      cases e.allowedIpMap.insert k 0 with
      | some m => simp
      | none => simp [bugError]
    | none =>
      rw [hfirst] at hkey
      rw [run_lift_bind_err hkey]
      refine iff_of_false (fun hne => hne rfl) ?_
      simp [hdomain]
  · rw [if_pos hdomain]
    exact iff_of_true (by simp) (Or.inl hdomain)

/-- The branch is avoided exactly when the payload asks for a domain that is not allowed, or one of
the TYPE fields that the answer loop looks at is A or AAAA. -/
theorem update_bug_unreachable (ev : RawDnsEvent) (hlen : ev.payloadLen.toNat ≤ maxDnsPayloadSize)
    (slot s : DnsResponse) (h : (parseDnsInto ev).run slot = (.ok (), s)) (e : FqdnPolicyEngine) :
    ((FqdnPolicyEngine.update s).run e).1 ≠ .err bugError ↔
      ∃ domain answers, ev.Asks domain answers ∧
        (domain ∉ e.allowedDomains ∨ HasAddressType answers ev.anscount) := by
  obtain ⟨answers, hasks, hdecoded⟩ := parseDnsInto_asks hlen h
  rw [update_ne_bugError hlen h e, hdecoded]
  constructor
  · intro hcond
    exact ⟨s.domainName, answers, hasks, hcond⟩
  · rintro ⟨domain, answers', hasks', hcond⟩
    obtain ⟨rfl, rfl⟩ := hasks.unique hasks'
    exact hcond

/-- A response of one A record does not reach it. -/
theorem update_bug_unreachable_one :
    ∃ s, (parseDnsInto (exampleEventA 10 0 0 1)).run default = (.ok (), s) ∧
      ((FqdnPolicyEngine.update s).run exampleEngine).1 ≠ .err bugError := by
  have hok : ((parseDnsInto (exampleEventA 10 0 0 1)).run default).1 = .ok () := by
    decide +kernel
  have hrun := run_eq_of_fst hok
  have hasks : (exampleEventA 10 0 0 1).Asks "a" (examplePointerA 10 0 0 1).encode :=
    ⟨[exampleLabel], [0, 1, 0, 1], rfl, by decide +kernel, by decide +kernel⟩
  have htype : HasAddressType (examplePointerA 10 0 0 1).encode
      (exampleEventA 10 0 0 1).anscount := ⟨typeA, by decide +kernel, Or.inl rfl⟩
  exact ⟨_, hrun, (update_bug_unreachable _ (by decide +kernel) default _ hrun exampleEngine).mpr
    ⟨_, _, hasks, Or.inr htype⟩⟩

/-- A response of one CNAME record for an allowed domain reaches the branch. -/
theorem update_bug_reached :
    ¬ ∀ (ev : RawDnsEvent) (slot s : DnsResponse) (e : FqdnPolicyEngine),
      ev.payloadLen.toNat ≤ maxDnsPayloadSize → (parseDnsInto ev).run slot = (.ok (), s) →
        ((FqdnPolicyEngine.update s).run e).1 ≠ .err bugError := by
  intro hall
  have hfresh : freshParse exampleCnameEvent = some
      (exampleCnameEvent.headed "a") := by decide +kernel
  have hne := hall exampleCnameEvent default _ exampleEngine (by decide +kernel)
    (freshParse_eq_some.mp hfresh)
  exact hne rfl

end CiliumMini
