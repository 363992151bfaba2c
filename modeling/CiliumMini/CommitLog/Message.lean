import CiliumMini.Parser.Events
import CiliumMini.Wire.Protobuf

/-!
# Messages of the commit log

Reference: `proto/network_event.proto`. The encoder and the decoder are those of the `prost` crate;
they are the parameter `Prost`, of which the format fixes the size of an encoding (`encodedLen`).
`Prost.proto3` is an instance, written down from the format.

What the parser produces is bounded: at most 65535 records, each with at most 82 characters of text
and 16 bytes, so the encoding is far below `2 ^ 32` bytes (`encodedLen_lt`).
-/

namespace CiliumMini

open Protobuf

/-! ## Sizes -/

/-- The size of a length-delimited field with a one-byte key; the default is left out. -/
def lenFieldSize (n : ℕ) : ℕ := if n = 0 then 0 else 1 + (varint n).length + n

/-- The size of a varint field with a one-byte key; the default is left out. -/
def uintFieldSize (n : ℕ) : ℕ := if n = 0 then 0 else 1 + (varint n).length

/-- The size of an encoded `DnsResponse`. -/
def encodedLen (m : DnsResponse) : ℕ :=
  lenFieldSize m.srcIp.utf8ByteSize + lenFieldSize m.dstIp.utf8ByteSize +
    uintFieldSize m.srcPort.toNat + uintFieldSize m.dstPort.toNat +
    uintFieldSize m.timestampNs.toNat + lenFieldSize m.domainName.utf8ByteSize +
    lenFieldSize m.resolvedIp.utf8ByteSize + lenFieldSize m.resolvedIpRaw.length +
    uintFieldSize m.ipFamily.toNat

/-- `prost::Message` for `DnsResponse`. -/
structure Prost where
  encode : DnsResponse → List UInt8
  decode : List UInt8 → Option DnsResponse
  decode_encode : ∀ m, decode (encode m) = some m
  length_encode : ∀ m, (encode m).length = encodedLen m

/-- A length-delimited field adds at most eleven bytes to its contents. -/
theorem lenFieldSize_le {n : ℕ} (h : n < 2 ^ 64) : lenFieldSize n ≤ 11 + n := by
  have hlen := length_varint_le h
  unfold lenFieldSize
  split
  · omega
  · omega

/-- A number takes at most eleven bytes with its key. -/
theorem uintFieldSize_le {n : ℕ} (h : n < 2 ^ 64) : uintFieldSize n ≤ 11 := by
  have hlen := length_varint_le h
  unfold uintFieldSize
  split
  · omega
  · omega

/-- A character has at most four bytes. -/
theorem utf8ByteSize_le (s : String) : s.utf8ByteSize ≤ 4 * s.length := by
  refine String.push_induction s (fun s => s.utf8ByteSize ≤ 4 * s.length) (by simp) ?_
  intro s c ih
  have hc := c.utf8Size_le_four
  rw [String.utf8ByteSize_push, String.length_push]
  omega

/-- Records with at most `c` elements each have at most `c` times their number together. -/
theorem length_flatMap_le {α : Type} (f : AddrRecord → List α) (c : ℕ)
    (hf : ∀ r, (f r).length ≤ c) (rs : List AddrRecord) :
    (rs.flatMap f).length ≤ c * rs.length := by
  induction rs with
  | nil => simp
  | cons r rs ih =>
    have hr := hf r
    rw [List.flatMap_cons, List.length_append, List.length_cons, Nat.mul_add, Nat.mul_one]
    omega

/-- Keys and lengths add at most 99 bytes to the texts and bytes of a message. -/
theorem encodedLen_le {m : DnsResponse} (hsrc : m.srcIp.utf8ByteSize < 2 ^ 64)
    (hdst : m.dstIp.utf8ByteSize < 2 ^ 64) (hname : m.domainName.utf8ByteSize < 2 ^ 64)
    (hip : m.resolvedIp.utf8ByteSize < 2 ^ 64) (hraw : m.resolvedIpRaw.length < 2 ^ 64) :
    encodedLen m ≤ 99 + m.srcIp.utf8ByteSize + m.dstIp.utf8ByteSize + m.domainName.utf8ByteSize +
      m.resolvedIp.utf8ByteSize + m.resolvedIpRaw.length := by
  have hsrcPort := uintFieldSize_le (m.srcPort.toNat_lt.trans (by decide))
  have hdstPort := uintFieldSize_le (m.dstPort.toNat_lt.trans (by decide))
  have htimestamp := uintFieldSize_le m.timestampNs.toNat_lt
  have hfamily := uintFieldSize_le (m.ipFamily.toNat_lt.trans (by decide))
  have hsrcField := lenFieldSize_le hsrc
  have hdstField := lenFieldSize_le hdst
  have hnameField := lenFieldSize_le hname
  have hipField := lenFieldSize_le hip
  have hrawField := lenFieldSize_le hraw
  unfold encodedLen
  omega

/-- The encoding of a parsed response fits a 32-bit length with room to spare. -/
theorem encodedLen_lt {ev : RawDnsEvent} (hlen : ev.payloadLen.toNat ≤ maxDnsPayloadSize)
    {slot m : DnsResponse} (h : (parseDnsInto ev).run slot = (.ok (), m)) :
    encodedLen m < 2 ^ 32 := by
  obtain ⟨-, n, domain, hq, hn, -, hm⟩ := parseDnsInto_ok hlen h
  have hmsg : ev.message.length ≤ 512 := length_message_le
  have hcount : ev.decoded.length < 65536 := by
    rw [RawDnsEvent.decoded, hq]
    exact (length_decodedRecords_le _ _ _).trans_lt ev.anscount.toNat_lt
  have hdomain : domain.length ≤ 512 := by
    have hspec := (parseQname_spec "" (length_question_lt ev)).of_ok hq
    simp only [String.length_empty] at hspec
    omega
  have htext := length_flatMap_le AddrRecord.text 82 AddrRecord.length_text_le ev.decoded
  have hbytes := length_flatMap_le AddrRecord.bytes 16 AddrRecord.length_bytes_le ev.decoded
  have hsrc : m.srcIp.length ≤ 82 := by
    rw [hm, addRecords_frame]
    simpa [RawDnsEvent.headed] using ev.srcIp.length_text_le
  have hdst : m.dstIp.length ≤ 82 := by
    rw [hm, addRecords_frame]
    simpa [RawDnsEvent.headed] using ev.dstIp.length_text_le
  have hname : m.domainName.length ≤ 512 := by
    rw [hm, addRecords_frame]
    exact hdomain
  have hip : m.resolvedIp.length ≤ 82 * ev.decoded.length := by
    rw [hm, addRecords_resolvedIp]
    simpa [RawDnsEvent.headed] using htext
  have hraw : m.resolvedIpRaw.length ≤ 16 * ev.decoded.length := by
    rw [hm, addRecords_resolvedIpRaw]
    simpa [RawDnsEvent.headed] using hbytes
  have hsrcBytes := utf8ByteSize_le m.srcIp
  have hdstBytes := utf8ByteSize_le m.dstIp
  have hnameBytes := utf8ByteSize_le m.domainName
  have hipBytes := utf8ByteSize_le m.resolvedIp
  have hle := encodedLen_le (m := m) (by omega) (by omega) (by omega) (by omega) (by omega)
  -- the largest terms are the text and the bytes of 65535 records, four times 82 and 16 bytes each
  omega

/-! ## An instance -/

/-- The UTF-8 bytes of a text. -/
def utf8Bytes (s : String) : List UInt8 := s.toByteArray.data.toList

/-- The text with the given UTF-8 bytes. -/
def ofUtf8Bytes (b : List UInt8) : Option String := String.fromUTF8? ⟨b.toArray⟩

/-- The bytes of a string are read back as the string. -/
theorem ofUtf8Bytes_utf8Bytes (s : String) : ofUtf8Bytes (utf8Bytes s) = some s := by
  have hbytes : (⟨(utf8Bytes s).toArray⟩ : ByteArray) = s.toByteArray := by simp [utf8Bytes]
  rw [ofUtf8Bytes, hbytes, String.fromUTF8?, dif_pos s.isValidUTF8]
  rfl

@[simp] theorem length_utf8Bytes (s : String) : (utf8Bytes s).length = s.utf8ByteSize := rfl

/-- Only the empty string has no bytes. -/
theorem utf8Bytes_eq_nil {s : String} : utf8Bytes s = [] ↔ s = "" := by
  rw [← List.length_eq_zero_iff, length_utf8Bytes, String.utf8ByteSize_eq_zero_iff]

/-- A `string` or `bytes` field; the default is left out. -/
def lenField (k : ℕ) (b : List UInt8) : List Field := if b = [] then [] else [(k, .len b)]

/-- A `uint32` or `uint64` field; the default is left out. -/
def uintField (k n : ℕ) : List Field := if n = 0 then [] else [(k, .varint n)]

/-- The fields of a message in the order of their numbers. -/
def DnsResponse.fields (m : DnsResponse) : List Field :=
  lenField 1 (utf8Bytes m.srcIp) ++ (lenField 2 (utf8Bytes m.dstIp) ++
    (uintField 3 m.srcPort.toNat ++ (uintField 4 m.dstPort.toNat ++
      (uintField 5 m.timestampNs.toNat ++ (lenField 6 (utf8Bytes m.domainName) ++
        (lenField 7 (utf8Bytes m.resolvedIp) ++ (lenField 8 m.resolvedIpRaw ++
          uintField 9 m.ipFamily.toNat)))))))

/-- Merge a field into a message; an unknown field is skipped. -/
def DnsResponse.setField (m : DnsResponse) : Field → Option DnsResponse
  | (1, .len b) => (ofUtf8Bytes b).map fun s => { m with srcIp := s }
  | (2, .len b) => (ofUtf8Bytes b).map fun s => { m with dstIp := s }
  | (3, .varint n) => some { m with srcPort := UInt32.ofNat n }
  | (4, .varint n) => some { m with dstPort := UInt32.ofNat n }
  | (5, .varint n) => some { m with timestampNs := UInt64.ofNat n }
  | (6, .len b) => (ofUtf8Bytes b).map fun s => { m with domainName := s }
  | (7, .len b) => (ofUtf8Bytes b).map fun s => { m with resolvedIp := s }
  | (8, .len b) => some { m with resolvedIpRaw := b }
  | (9, .varint n) => some { m with ipFamily := UInt32.ofNat n }
  | _ => some m

/-- The message with the given fields. -/
def DnsResponse.ofFields (fs : List Field) : Option DnsResponse :=
  fs.foldlM DnsResponse.setField default

/-- A left-out field is one that would set what is there already. -/
theorem foldlM_lenField {k : ℕ} {b : List UInt8} {m m' : DnsResponse}
    (hset : m.setField (k, .len b) = some m') (hskip : b = [] → m' = m) :
    (lenField k b).foldlM DnsResponse.setField m = some m' := by
  unfold lenField
  split
  · rename_i hnil
    rw [hskip hnil]
    rfl
  · simp [hset]

/-- A number field is set back, also when it is left out because it is zero. -/
theorem foldlM_uintField {k n : ℕ} {m m' : DnsResponse}
    (hset : m.setField (k, .varint n) = some m') (hskip : n = 0 → m' = m) :
    (uintField k n).foldlM DnsResponse.setField m = some m' := by
  unfold uintField
  split
  · rename_i hzero
    rw [hskip hzero]
    rfl
  · simp [hset]

theorem eq_zero_of_toNat32 {n : UInt32} (h : n.toNat = 0) : n = 0 := UInt32.toNat_inj.mp h

theorem eq_zero_of_toNat64 {n : UInt64} (h : n.toNat = 0) : n = 0 := UInt64.toNat_inj.mp h

/-- The fields of a message, merged one after the other into the default message, give it back. -/
theorem ofFields_fields (m : DnsResponse) : DnsResponse.ofFields m.fields = some m := by
  obtain ⟨src, dst, sport, dport, ts, dom, ip, raw, fam⟩ := m
  -- field by field: what is in the message before and behind each
  have h1 : (lenField 1 (utf8Bytes src)).foldlM DnsResponse.setField default =
      some ⟨src, "", 0, 0, 0, "", "", [], 0⟩ :=
    foldlM_lenField (by simp [DnsResponse.setField, ofUtf8Bytes_utf8Bytes, default])
      fun h => by rw [utf8Bytes_eq_nil.mp h]; rfl
  have h2 : (lenField 2 (utf8Bytes dst)).foldlM DnsResponse.setField
      ⟨src, "", 0, 0, 0, "", "", [], 0⟩ = some ⟨src, dst, 0, 0, 0, "", "", [], 0⟩ :=
    foldlM_lenField (by simp [DnsResponse.setField, ofUtf8Bytes_utf8Bytes])
      fun h => by rw [utf8Bytes_eq_nil.mp h]
  have h3 : (uintField 3 sport.toNat).foldlM DnsResponse.setField
      ⟨src, dst, 0, 0, 0, "", "", [], 0⟩ = some ⟨src, dst, sport, 0, 0, "", "", [], 0⟩ :=
    foldlM_uintField (by simp [DnsResponse.setField]) fun h => by rw [eq_zero_of_toNat32 h]
  have h4 : (uintField 4 dport.toNat).foldlM DnsResponse.setField
      ⟨src, dst, sport, 0, 0, "", "", [], 0⟩ = some ⟨src, dst, sport, dport, 0, "", "", [], 0⟩ :=
    foldlM_uintField (by simp [DnsResponse.setField]) fun h => by rw [eq_zero_of_toNat32 h]
  have h5 : (uintField 5 ts.toNat).foldlM DnsResponse.setField
      ⟨src, dst, sport, dport, 0, "", "", [], 0⟩ =
        some ⟨src, dst, sport, dport, ts, "", "", [], 0⟩ :=
    foldlM_uintField (by simp [DnsResponse.setField]) fun h => by rw [eq_zero_of_toNat64 h]
  have h6 : (lenField 6 (utf8Bytes dom)).foldlM DnsResponse.setField
      ⟨src, dst, sport, dport, ts, "", "", [], 0⟩ =
        some ⟨src, dst, sport, dport, ts, dom, "", [], 0⟩ :=
    foldlM_lenField (by simp [DnsResponse.setField, ofUtf8Bytes_utf8Bytes])
      fun h => by rw [utf8Bytes_eq_nil.mp h]
  have h7 : (lenField 7 (utf8Bytes ip)).foldlM DnsResponse.setField
      ⟨src, dst, sport, dport, ts, dom, "", [], 0⟩ =
        some ⟨src, dst, sport, dport, ts, dom, ip, [], 0⟩ :=
    foldlM_lenField (by simp [DnsResponse.setField, ofUtf8Bytes_utf8Bytes])
      fun h => by rw [utf8Bytes_eq_nil.mp h]
  have h8 : (lenField 8 raw).foldlM DnsResponse.setField
      ⟨src, dst, sport, dport, ts, dom, ip, [], 0⟩ =
        some ⟨src, dst, sport, dport, ts, dom, ip, raw, 0⟩ :=
    foldlM_lenField (by simp [DnsResponse.setField]) fun h => by rw [h]
  have h9 : (uintField 9 fam.toNat).foldlM DnsResponse.setField
      ⟨src, dst, sport, dport, ts, dom, ip, raw, 0⟩ =
        some ⟨src, dst, sport, dport, ts, dom, ip, raw, fam⟩ :=
    foldlM_uintField (by simp [DnsResponse.setField]) fun h => by rw [eq_zero_of_toNat32 h]
  simp only [DnsResponse.ofFields, DnsResponse.fields, List.foldlM_append, h1, h2, h3, h4, h5, h6,
    h7, h8, h9, Option.bind_eq_bind, Option.bind_some]

/-- The size of a length-delimited field, key included. -/
theorem length_lenField {k : ℕ} (hk : 8 * k + 2 < 128) (b : List UInt8) :
    (encodeFields (lenField k b)).length = lenFieldSize b.length := by
  unfold lenField lenFieldSize
  by_cases hb : b = []
  · rw [if_pos hb, if_pos (by rw [hb]; rfl)]
    rfl
  · have hlen : b.length ≠ 0 := fun h => hb (List.length_eq_zero_iff.mp h)
    rw [if_neg hb, if_neg hlen]
    simp [encodeFields, encodeField, varint_of_lt hk]
    omega

/-- The size of a number field, key included. -/
theorem length_uintField {k : ℕ} (hk : 8 * k < 128) (n : ℕ) :
    (encodeFields (uintField k n)).length = uintFieldSize n := by
  unfold uintField uintFieldSize
  by_cases hn : n = 0
  · rw [if_pos hn, if_pos hn]
    rfl
  · rw [if_neg hn, if_neg hn]
    simp [encodeFields, encodeField, varint_of_lt hk]
    omega

/-- The encoding that the format prescribes. -/
def Prost.proto3 : Prost where
  encode m := encodeFields m.fields
  decode s := (decodeFields s).bind DnsResponse.ofFields
  decode_encode m := by rw [decodeFields_encodeFields, Option.bind_some, ofFields_fields]
  length_encode m := by
    simp only [DnsResponse.fields, encodeFields_append, List.length_append]
    rw [length_lenField (by decide), length_lenField (by decide), length_uintField (by decide),
      length_uintField (by decide), length_uintField (by decide), length_lenField (by decide),
      length_lenField (by decide), length_lenField (by decide), length_uintField (by decide)]
    simp only [length_utf8Bytes, encodedLen]
    omega

end CiliumMini
