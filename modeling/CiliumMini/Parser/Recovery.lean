import CiliumMini.Parser.Records

/-!
# Reading the addresses of a log record back

The answer loop joins the texts of the decoded addresses in `resolved_ip` and their bytes in
`resolved_ip_raw`, both without separators. The text shows the kind of the next address by its first
character that is no hexadecimal digit, and the kind says how many bytes to take, so the two fields
together determine the decoded records (`decodedRecords_recover`). Neither does so alone.
-/

namespace CiliumMini

open Exec

/-! ## Two joined views of one list -/

/-- A list of items is determined by two joined views of it, if the first view of an item shows at
its front a mark that fixes the length of the second, and mark and second view fix the item. -/
theorem eq_of_flatMap_eq {ι α β μ : Type} {text : ι → List α} {bytes : ι → List β}
    (mark : List α → μ) (hfront : ∀ i l, mark (text i ++ l) = mark (text i))
    (hlen : ∀ i j, mark (text i) = mark (text j) → (bytes i).length = (bytes j).length)
    (hinj : ∀ i j, mark (text i) = mark (text j) → bytes i = bytes j → i = j)
    (hne : ∀ i, bytes i ≠ []) {is js : List ι} (htext : is.flatMap text = js.flatMap text)
    (hbytes : is.flatMap bytes = js.flatMap bytes) : is = js := by
  induction is generalizing js with
  | nil =>
    cases js with
    | nil => rfl
    | cons j js =>
      rw [List.flatMap_nil, List.flatMap_cons] at hbytes
      exact absurd (List.append_eq_nil_iff.mp hbytes.symm).1 (hne j)
  | cons i is ih =>
    cases js with
    | nil =>
      rw [List.flatMap_nil, List.flatMap_cons] at hbytes
      exact absurd (List.append_eq_nil_iff.mp hbytes).1 (hne i)
    | cons j js =>
      rw [List.flatMap_cons, List.flatMap_cons] at htext hbytes
      -- the front of the text tells how many bytes belong to the first item
      have hmark : mark (text i) = mark (text j) := by
        rw [← hfront i (is.flatMap text), htext, hfront]
      obtain ⟨hhead, hrest⟩ := List.append_inj hbytes (hlen i j hmark)
      obtain rfl := hinj i j hmark hhead
      rw [ih (List.append_cancel_left htext) hrest]

/-! ## Address records -/

namespace AddrRecord

/-- The first character that is no hexadecimal digit tells the kind of a record. -/
theorem firstNonHex_text (r : AddrRecord) :
    firstNonHex r.text = some (match r with | a _ => '.' | aaaa _ => ':') := by
  cases r with
  | a addr => exact Ipv4Addr.firstNonHex_display _
  | aaaa addr => exact Ipv6Addr.firstNonHex_display _

/-- Texts and bytes of a list of records determine it. -/
theorem eq_of_joined {rs rs' : List AddrRecord} (htext : rs.flatMap text = rs'.flatMap text)
    (hbytes : rs.flatMap bytes = rs'.flatMap bytes) : rs = rs' := by
  refine eq_of_flatMap_eq firstNonHex ?_ ?_ ?_ ?_ htext hbytes
  · intro r l
    rw [firstNonHex_text]
    exact firstNonHex_append_of_eq_some (firstNonHex_text r) l
  -- one kind, so four bytes or sixteen in both
  · intro r r' hmark
    rw [firstNonHex_text, firstNonHex_text] at hmark
    cases r <;> cases r' <;> simp [bytes] at hmark ⊢
  · intro r r' hmark hbytes
    rw [firstNonHex_text, firstNonHex_text] at hmark
    cases r <;> cases r' <;> simp [bytes] at hmark hbytes ⊢
    · exact List.Vector.eq _ _ hbytes
    · exact List.Vector.eq _ _ hbytes
  · intro r hnil
    have hlen := congrArg List.length hnil
    cases r <;> simp [bytes] at hlen

end AddrRecord

/-! ## Runs of `parse_rdata` -/

/-- A successful run from a reset slot leaves the joined texts and bytes of its records. -/
theorem parseRdata_joined {payload : List UInt8} {anscount : UInt16} {slot t : DnsResponse}
    (h : (parseRdata payload anscount).run (resetSlot slot) = (.ok (), t)) :
    t.resolvedIp.toList =
        (decodedRecords payload anscount.toNat 0).flatMap AddrRecord.text ∧
      t.resolvedIpRaw = (decodedRecords payload anscount.toNat 0).flatMap AddrRecord.bytes := by
  obtain ⟨⟨⟩, -, hloop⟩ := run_lift_bind_eq_ok.mp h
  rw [parseRdataLoop_run_ok _ hloop, addRecords_resolvedIp, addRecords_resolvedIpRaw]
  simp [resetSlot]

/-- What is behind the name of an A record. -/
def bodyA (a b c d : UInt8) : List UInt8 := [0, 1, 0, 1, 0, 0, 0, 60, 0, 4, a, b, c, d]

/-- What is behind the name of an AAAA record with the same 16 bytes. -/
def bodyAAAA (b : UInt8) : List UInt8 :=
  [0, 28, 0, 1, 0, 0, 0, 60, 0, 16] ++ List.replicate 16 b

/-- A first name whose only label holds `inner`, then `outer`, then a root name. The loop reads
`outer` first and `inner` behind it. -/
def nestedAnswers (inner outer : List UInt8) : List UInt8 :=
  UInt8.ofNat inner.length :: (inner ++ (0 :: (outer ++ [0])))

/-- Two successful runs with the same text and the same bytes decoded the same records. The text
alone does not tell 1.1.1.1, 11.1.1.1 from 1.1.1.11, 1.1.1.1, and the bytes with the one family do
not tell an AAAA and an A record from five A records. -/
theorem decodedRecords_recover :
    (∀ (p₁ p₂ : List UInt8) (n₁ n₂ : UInt16) (slot₁ slot₂ t₁ t₂ : DnsResponse),
      (parseRdata p₁ n₁).run (resetSlot slot₁) = (.ok (), t₁) →
      (parseRdata p₂ n₂).run (resetSlot slot₂) = (.ok (), t₂) →
      t₁.resolvedIp = t₂.resolvedIp → t₁.resolvedIpRaw = t₂.resolvedIpRaw →
        decodedRecords p₁ n₁.toNat 0 = decodedRecords p₂ n₂.toNat 0) ∧
      (∃ (p₁ p₂ : List UInt8) (n₁ n₂ : UInt16) (t₁ t₂ : DnsResponse),
        (parseRdata p₁ n₁).run (resetSlot default) = (.ok (), t₁) ∧
        (parseRdata p₂ n₂).run (resetSlot default) = (.ok (), t₂) ∧
        t₁.resolvedIp = t₂.resolvedIp ∧
          decodedRecords p₁ n₁.toNat 0 ≠ decodedRecords p₂ n₂.toNat 0) ∧
      ∃ (p₁ p₂ : List UInt8) (n₁ n₂ : UInt16) (t₁ t₂ : DnsResponse),
        (parseRdata p₁ n₁).run (resetSlot default) = (.ok (), t₁) ∧
        (parseRdata p₂ n₂).run (resetSlot default) = (.ok (), t₂) ∧
        t₁.resolvedIpRaw = t₂.resolvedIpRaw ∧ t₁.ipFamily = t₂.ipFamily ∧
          decodedRecords p₁ n₁.toNat 0 ≠ decodedRecords p₂ n₂.toNat 0 := by
  refine ⟨?_, ?_, ?_⟩
  · intro p₁ p₂ n₁ n₂ slot₁ slot₂ t₁ t₂ h₁ h₂ htext hraw
    obtain ⟨htext₁, hraw₁⟩ := parseRdata_joined h₁
    obtain ⟨htext₂, hraw₂⟩ := parseRdata_joined h₂
    apply AddrRecord.eq_of_joined
    · rw [← htext₁, ← htext₂, htext]
    · rw [← hraw₁, ← hraw₂, hraw]
  -- the loop falls back to the inner record behind the outer one
  · refine ⟨nestedAnswers (bodyA 11 1 1 1) (bodyA 1 1 1 1),
      nestedAnswers (bodyA 1 1 1 1) (bodyA 1 1 1 11), 2, 2, _, _, rfl, rfl, ?_, ?_⟩
    · decide +kernel
    · decide +kernel
  · refine ⟨nestedAnswers (bodyA 1 1 1 1) (bodyAAAA 1), 0 :: (bodyA 1 1 1 1 ++ [0]), 2, 5, _, _,
      rfl, rfl, ?_, ?_, ?_⟩
    · decide +kernel
    · decide +kernel
    · decide +kernel

end CiliumMini
