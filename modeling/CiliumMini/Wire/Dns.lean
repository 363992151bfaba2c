import CiliumMini.Wire.Endian
import Mathlib.Data.Vector.Basic

/-!
# DNS messages on the wire

The format of RFC 1035 as data: labels of 1 to 63 bytes, question names of at most 255 encoded
bytes, record names that end in a zero byte or in a compression pointer, resource records, and a
response with one question. The length rules are fields, so a value of these types is well formed.
-/

namespace CiliumMini.Dns

/-- A label: 1 to 63 bytes. -/
structure Label where
  bytes : List UInt8
  length_pos : 0 < bytes.length
  length_le : bytes.length ≤ 63

namespace Label

/-- A length byte, then the label. -/
def encode (l : Label) : List UInt8 := UInt8.ofNat l.bytes.length :: l.bytes

/-- The characters of an ASCII label. -/
def text (l : Label) : List Char := l.bytes.map fun b => Char.ofNat b.toNat

@[simp] theorem length_encode (l : Label) : l.encode.length = l.bytes.length + 1 := by
  simp [encode]

/-- The length byte of a label. -/
theorem toNat_lengthByte (l : Label) : (UInt8.ofNat l.bytes.length).toNat = l.bytes.length := by
  have h := l.length_le
  simp
  omega

end Label

/-- Labels, one after the other. -/
def encodeLabels (ls : List Label) : List UInt8 := ls.flatMap Label.encode

/-- The name of a question: ASCII labels, at most 255 bytes with all length bytes and the final zero
byte. -/
structure QName where
  labels : List Label
  ascii : ∀ l ∈ labels, ∀ b ∈ l.bytes, b < 128
  length_le : (encodeLabels labels).length + 1 ≤ 255

namespace QName

/-- The labels, then a zero byte. -/
def encode (q : QName) : List UInt8 := encodeLabels q.labels ++ [0]

/-- The labels joined with dots. -/
def dotted (q : QName) : List Char := List.intercalate ['.'] (q.labels.map Label.text)

end QName

/-- How the name of a record ends. -/
inductive NameEnd where
  | root
  | pointer (hi lo : UInt8) (h : 192 ≤ hi.toNat)

/-- The zero byte, or the two bytes of a compression pointer. -/
def NameEnd.encode : NameEnd → List UInt8
  | root => [0]
  | pointer hi lo _ => [hi, lo]

/-- The name of a record: labels, then a zero byte or a compression pointer. -/
structure Name where
  labels : List Label
  tail : NameEnd

/-- The labels, then the end of the name. -/
def Name.encode (n : Name) : List UInt8 := encodeLabels n.labels ++ n.tail.encode

/-- TYPE A. -/
def typeA : UInt16 := 1

/-- TYPE AAAA. -/
def typeAAAA : UInt16 := 28

/-- A resource record. An A record has 4 bytes of data, an AAAA record 16. -/
structure ResourceRecord where
  name : Name
  rtype : UInt16
  rclass : UInt16
  ttl : UInt32
  rdata : List UInt8
  rdata_lt : rdata.length < 65536
  length_a : rtype = typeA → rdata.length = 4
  length_aaaa : rtype = typeAAAA → rdata.length = 16

namespace ResourceRecord

/-- TYPE, CLASS, TTL and RDLENGTH. -/
def fixedPart (r : ResourceRecord) : List UInt8 :=
  beBytes 2 r.rtype.toNat ++ beBytes 2 r.rclass.toNat ++ beBytes 4 r.ttl.toNat ++
    beBytes 2 r.rdata.length

/-- The name, the fixed part, the data. -/
def encode (r : ResourceRecord) : List UInt8 := r.name.encode ++ (r.fixedPart ++ r.rdata)

/-- The address bytes a record contributes to a resolution. -/
def addressBytes (r : ResourceRecord) : List UInt8 :=
  if r.rtype = typeA ∨ r.rtype = typeAAAA then r.rdata else []

/-- Type, class, time to live and data length take ten bytes. -/
@[simp] theorem length_fixedPart (r : ResourceRecord) : r.fixedPart.length = 10 := by
  simp [fixedPart]

/-- No record is empty. -/
theorem length_encode_pos (r : ResourceRecord) : 0 < r.encode.length := by
  simp [encode]

end ResourceRecord

/-- A response with one question, its answers, and whatever bytes follow them. -/
structure Response where
  id : UInt16
  flags : UInt16
  nscount : UInt16
  arcount : UInt16
  question : QName
  qtype : UInt16
  qclass : UInt16
  answers : List ResourceRecord
  trailing : List UInt8

namespace Response

/-- The twelve header bytes; QDCOUNT is 1 and ANCOUNT is the number of answers. -/
def header (m : Response) : List UInt8 :=
  beBytes 2 m.id.toNat ++ beBytes 2 m.flags.toNat ++ beBytes 2 1 ++ beBytes 2 m.answers.length ++
    beBytes 2 m.nscount.toNat ++ beBytes 2 m.arcount.toNat

/-- The bytes behind the question. -/
def answerSection (m : Response) : List UInt8 :=
  m.answers.flatMap ResourceRecord.encode ++ m.trailing

/-- The whole message. -/
def encode (m : Response) : List UInt8 :=
  m.header ++ (m.question.encode ++ (beBytes 2 m.qtype.toNat ++ beBytes 2 m.qclass.toNat ++
    m.answerSection))

/-- The data of the A and AAAA answers, joined in order. -/
def addresses (m : Response) : List UInt8 := m.answers.flatMap ResourceRecord.addressBytes

@[simp] theorem length_header (m : Response) : m.header.length = 12 := by
  simp [header]

/-- A message is header, question, type and class, and the answer section. -/
theorem length_encode (m : Response) :
    m.encode.length = 12 + m.question.encode.length + 4 + m.answerSection.length := by
  simp [encode]
  omega

/-- A record takes at least one byte, so a message of 512 bytes holds fewer than 2 ^ 16 answers. -/
theorem length_answers_le (m : Response) : m.answers.length ≤ m.encode.length := by
  have hsection : m.answers.length ≤ m.answerSection.length := by
    -- by induction on the answers, a byte for each
    have h : m.answers.length ≤ (m.answers.flatMap ResourceRecord.encode).length := by
      induction m.answers with
      | nil => simp
      | cons r rs ih =>
        have hpos := r.length_encode_pos
        rw [List.flatMap_cons, List.length_append, List.length_cons]
        omega
    rw [answerSection, List.length_append]
    omega
  rw [length_encode]
  omega

end Response

end CiliumMini.Dns
