import CiliumMini.Parser.Events
import CiliumMini.Rust.BoundedMap
import Mathlib.Data.Finset.Basic

/-!
# The FQDN policy

Reference: `cilium-mini-rs/src/policy.rs`; the capacity of `ALLOWED_IP_MAP` is in
`cilium-mini-ebpf/src/main.rs`.

`FqdnPolicyEngine::update` cuts the first 4 or 16 bytes off `resolved_ip_raw`, as `ip_family` asks
for, and inserts what they make into the map. `update_run` says what it does on a response that the
parser can produce.
-/

namespace CiliumMini

open Exec

/-- An `anyhow::Error`: a text of the daemon, or an error of the BPF map. -/
inductive AnyhowError where
  | msg (text : String)
  | map
deriving DecidableEq, Repr

/-- `trait DnsObserver`. -/
class DnsObserver (O : Type) where
  update : DnsResponse → Exec O AnyhowError Unit

/-- `MAX_ENTRIES` of `ALLOWED_IP_MAP`. -/
def allowedIpMapCapacity : ℕ := 1024

/-- `FqdnPolicyEngine`. -/
structure FqdnPolicyEngine where
  allowedIpMap : BoundedMap RawIpAddr UInt8 allowedIpMapCapacity
  allowedDomains : Finset String

/-- `<[T]>::chunks_exact`: the full chunks of `n` elements; a rest is left out. -/
def chunksExact {α : Type} (n : ℕ) (l : List α) : List (List α) :=
  (List.range (l.length / n)).map fun i => (l.drop (i * n)).take n

/-- `<[u8; n]>::try_from(slice)` with its error replaced by `e`. -/
def tryIntoArray (n : ℕ) (l : List UInt8) (e : AnyhowError) : Outcome AnyhowError (Octets n) :=
  if h : l.length = n then .ok ⟨l, h⟩ else .err e

/-- The `match` on `ip_family` in `FqdnPolicyEngine::update`. -/
def ipAddrOf (r : DnsResponse) : Outcome AnyhowError RawIpAddr :=
  if r.ipFamily = afInet then do
    let chunk ← unwrap (chunksExact 4 r.resolvedIpRaw).head?
    let addr ← tryIntoArray 4 chunk
      (.msg ("expected 4 bytes for IPv4, got " ++ toString r.resolvedIpRaw.length))
    return .fromIpv4 addr
  else if r.ipFamily = afInet6 then do
    let chunk ← unwrap (chunksExact 16 r.resolvedIpRaw).head?
    let addr ← tryIntoArray 16 chunk
      (.msg ("expected 16 bytes for IPv6, got " ++ toString r.resolvedIpRaw.length))
    return .fromIpv6 addr
  else .err (.msg "Ip family should be already parsed, so this is a bug")

/-- `self.allowed_ip_map.insert(ip_addr, 0, 0)`. -/
def insertAllowed (ipAddr : RawIpAddr) : Exec FqdnPolicyEngine AnyhowError Unit := do
  let self ← get
  match self.allowedIpMap.insert ipAddr 0 with
  | some m => modify fun self => { self with allowedIpMap := m }
  | none => lift (.err .map)

/-- `FqdnPolicyEngine::update`. -/
def FqdnPolicyEngine.update (r : DnsResponse) : Exec FqdnPolicyEngine AnyhowError Unit := do
  let self ← get
  -- a domain that is not allowed is skipped, and that is no error
  if r.domainName ∉ self.allowedDomains then pure () else do
    let ipAddr ← lift (ipAddrOf r)
    insertAllowed ipAddr

instance : DnsObserver FqdnPolicyEngine := ⟨FqdnPolicyEngine.update⟩

/-! ## The key of a response -/

/-- The key that the first 4 or 16 bytes of `resolved_ip_raw` make, by `ip_family`. -/
def DnsResponse.leadingKey (r : DnsResponse) : Option RawIpAddr :=
  if r.ipFamily = afInet then
    if h : 4 ≤ r.resolvedIpRaw.length then
      some (.fromIpv4 ⟨r.resolvedIpRaw.take 4, List.length_take_of_le h⟩)
    else none
  else if r.ipFamily = afInet6 then
    if h : 16 ≤ r.resolvedIpRaw.length then
      some (.fromIpv6 ⟨r.resolvedIpRaw.take 16, List.length_take_of_le h⟩)
    else none
  else none

/-- `resolved_ip_raw` is at least as long as an address of the family in `ip_family`. -/
def DnsResponse.FamilyBacked (r : DnsResponse) : Prop :=
  (r.ipFamily = afInet → 4 ≤ r.resolvedIpRaw.length) ∧
    (r.ipFamily = afInet6 → 16 ≤ r.resolvedIpRaw.length)

/-- The first chunk is the first bytes. -/
theorem head?_chunksExact {α : Type} {n : ℕ} (hn : 0 < n) {l : List α} (h : n ≤ l.length) :
    (chunksExact n l).head? = some (l.take n) := by
  obtain ⟨q, hq⟩ : ∃ q, l.length / n = q + 1 :=
    Nat.exists_eq_succ_of_ne_zero (Nat.div_pos h hn).ne'
  rw [chunksExact, hq, List.range_succ_eq_map, List.map_cons, List.head?_cons, Nat.zero_mul,
    List.drop_zero]

/-- One arm of the `match`, on a buffer that is long enough: the first `n` bytes. -/
theorem firstChunk_eq {n : ℕ} (hn : 0 < n) {raw : List UInt8} (h : n ≤ raw.length) (e : AnyhowError)
    (build : Octets n → RawIpAddr) :
    (do let chunk ← unwrap (chunksExact n raw).head?
        let addr ← tryIntoArray n chunk e
        return build addr) = .ok (build ⟨raw.take n, List.length_take_of_le h⟩) := by
  have hchunk : (raw.take n).length = n := List.length_take_of_le h
  have htry : tryIntoArray n (raw.take n) e = .ok ⟨raw.take n, hchunk⟩ := dif_pos hchunk
  rw [head?_chunksExact hn h, unwrap, Outcome.ok_bind, htry]
  rfl

/-- On a backed response the `match` yields the leading key, and an error only for a family that is
neither of the two. -/
theorem ipAddrOf_eq {r : DnsResponse} (h : r.FamilyBacked) :
    ipAddrOf r = match r.leadingKey with
      | some k => .ok k
      | none => .err (.msg "Ip family should be already parsed, so this is a bug") := by
  unfold ipAddrOf DnsResponse.leadingKey
  by_cases h4 : r.ipFamily = afInet
  · rw [if_pos h4, if_pos h4, dif_pos (h.1 h4)]
    exact firstChunk_eq (by decide) (h.1 h4) _ _
  · rw [if_neg h4, if_neg h4]
    by_cases h6 : r.ipFamily = afInet6
    · rw [if_pos h6, if_pos h6, dif_pos (h.2 h6)]
      exact firstChunk_eq (by decide) (h.2 h6) _ _
    · rw [if_neg h6, if_neg h6]

/-- The key that a response adds under a set of allowed domains. -/
def DnsResponse.allowedKey (r : DnsResponse) (domains : Finset String) : Option RawIpAddr :=
  if r.domainName ∈ domains then r.leadingKey else none

/-! ## Updates -/

namespace FqdnPolicyEngine

variable {e : FqdnPolicyEngine} {r : DnsResponse}

/-- The engine with more keys. -/
def insertKeys (e : FqdnPolicyEngine) (ks : List RawIpAddr) : FqdnPolicyEngine :=
  { e with allowedIpMap := e.allowedIpMap.insertAll ks 0 }

/-- Keys are inserted one list after the other. -/
theorem insertKeys_insertKeys (ks ks' : List RawIpAddr) :
    (e.insertKeys ks).insertKeys ks' = e.insertKeys (ks ++ ks') := by
  simp only [insertKeys, BoundedMap.insertAll_append]

/-- A refused insert is an error and leaves the engine alone. -/
theorem insertAllowed_run (k : RawIpAddr) :
    ∃ out, out ≠ .panic ∧ (insertAllowed k).run e = (out, e.insertKeys [k]) := by
  rw [insertAllowed, run_bind_ok (run_get e)]
  -- a full map refuses a new key; `insertKeys` then changes nothing either
  cases h : e.allowedIpMap.insert k 0 with
  | some m => exact ⟨.ok (), by simp, by simp [insertKeys, BoundedMap.insertAll, h]⟩
  | none => exact ⟨.err .map, by simp, by simp [insertKeys, BoundedMap.insertAll, h]⟩

/-- On a backed response `update` does not panic, and it leaves the map with the response's key
inserted if there is room. -/
theorem update_run (h : r.FamilyBacked) :
    ∃ out, out ≠ .panic ∧
      (update r).run e = (out, e.insertKeys (r.allowedKey e.allowedDomains).toList) := by
  rw [update, run_bind_ok (run_get e), DnsResponse.allowedKey]
  by_cases hmem : r.domainName ∈ e.allowedDomains
  · rw [if_neg (not_not.mpr hmem), if_pos hmem]
    have hkey := ipAddrOf_eq h
    cases hfirst : r.leadingKey with
    | some k =>
      rw [hfirst] at hkey
      rw [run_lift_bind_ok hkey]
      exact insertAllowed_run k
    | none =>
      rw [hfirst] at hkey
      rw [run_lift_bind_err hkey]
      exact ⟨_, by simp, rfl⟩
  · rw [if_pos hmem, if_neg hmem]
    exact ⟨.ok (), by simp, rfl⟩

end FqdnPolicyEngine

/-! ## Responses of the parser -/

/-- A parsed response has no family, or one that its bytes back: the family is the one of the last
decoded record, and the bytes of all of them are there. -/
theorem parseDnsInto_family {ev : RawDnsEvent} (hlen : ev.payloadLen.toNat ≤ maxDnsPayloadSize)
    {slot s : DnsResponse} (h : (parseDnsInto ev).run slot = (.ok (), s)) :
    s.ipFamily = 0 ∨ s.ipFamily = afInet ∧ 4 ≤ s.resolvedIpRaw.length ∨
      s.ipFamily = afInet6 ∧ 16 ≤ s.resolvedIpRaw.length := by
  obtain ⟨hraw, hfam⟩ := parseDnsInto_records hlen h
  rw [hraw, hfam]
  -- only the last record counts for the family, and its bytes are among the joined ones
  rcases List.eq_nil_or_concat ev.decoded with hnil | ⟨rs, r, hlast⟩
  · rw [hnil]
    exact Or.inl rfl
  · right
    rw [hlast, List.concat_eq_append]
    simp only [List.getLast?_append, List.getLast?_singleton, Option.some_or, Option.map_some,
      Option.getD_some, List.flatMap_append, List.flatMap_singleton, List.length_append]
    rcases r.length_bytes with ⟨hf, hb⟩ | ⟨hf, hb⟩
    · exact Or.inl ⟨hf, by omega⟩
    · exact Or.inr ⟨hf, by omega⟩

/-- What the parser stores is at least as long as an address of the family it reports. -/
theorem parseDnsInto_familyBacked {ev : RawDnsEvent}
    (hlen : ev.payloadLen.toNat ≤ maxDnsPayloadSize) {slot s : DnsResponse}
    (h : (parseDnsInto ev).run slot = (.ok (), s)) : s.FamilyBacked := by
  have h46 : afInet ≠ afInet6 := by decide
  rcases parseDnsInto_family hlen h with h0 | ⟨h4, hraw⟩ | ⟨h6, hraw⟩
  · constructor
    · intro h4
      exact absurd (h0.symm.trans h4) (by decide)
    · intro h6
      exact absurd (h0.symm.trans h6) (by decide)
  · refine ⟨fun _ => hraw, ?_⟩
    intro h6
    exact absurd (h4.symm.trans h6) h46
  · refine ⟨?_, fun _ => hraw⟩
    intro h4
    exact absurd (h4.symm.trans h6) h46

/-- A parsed response with a family has a leading key. -/
theorem parseDnsInto_leadingKey {ev : RawDnsEvent}
    (hlen : ev.payloadLen.toNat ≤ maxDnsPayloadSize) {slot s : DnsResponse}
    (h : (parseDnsInto ev).run slot = (.ok (), s)) (hne : s.ipFamily ≠ 0) :
    s.leadingKey.isSome := by
  unfold DnsResponse.leadingKey
  rcases parseDnsInto_family hlen h with h0 | ⟨h4, hraw⟩ | ⟨h6, hraw⟩
  · exact absurd h0 hne
  · rw [if_pos h4, dif_pos hraw]
    rfl
  · have h4 : s.ipFamily ≠ afInet := by
      rw [h6]
      decide
    rw [if_neg h4, if_pos h6, dif_pos hraw]
    rfl

end CiliumMini
