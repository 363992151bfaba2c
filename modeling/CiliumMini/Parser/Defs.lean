import CiliumMini.Common
import CiliumMini.Rust.Outcome

/-!
# The DNS wire parser

Reference: `cilium-mini-rs/src/parser.rs`; `DnsResponse` is generated from
`proto/network_event.proto`.

Each function is translated statement by statement. Offsets are `usize` and every addition on them
is checked. The `while` loops carry fuel; running out of it is reported as a panic, so a proof that
a function never panics is also a proof that its loop ends. Log lines are left out.
-/

namespace CiliumMini

open Exec

/-- `DnsParseError`. -/
inductive DnsParseError where
  | unexpectedEndOfPayload
  | invalidLabelLength (len : ℕ)
  | labelExceedsMaxLen
  | nonAsciiDomainName
  | unsupportedAddressFamily (af : UInt32)
  | formatError
deriving DecidableEq, Repr

/-- `proto::DnsResponse`. -/
structure DnsResponse where
  srcIp : String
  dstIp : String
  srcPort : UInt32
  dstPort : UInt32
  timestampNs : UInt64
  domainName : String
  resolvedIp : String
  resolvedIpRaw : List UInt8
  ipFamily : UInt32
deriving DecidableEq

/-- `DnsResponse::default()`. -/
instance : Inhabited DnsResponse := ⟨⟨"", "", 0, 0, 0, "", "", [], 0⟩⟩

/-- `DnsHdr`. -/
structure DnsHdr where
  transactionId : UInt16
  flags : UInt16
  questions : UInt16
  answerRrs : UInt16
  authorityRrs : UInt16
  additionalRrs : UInt16

/-- `DnsHdr::LEN`: six `u16`. -/
def DnsHdr.len : ℕ := 12

/-- `u16::from_be_bytes([l[i], l[i + 1]])`. -/
def beU16At (l : List UInt8) (i : ℕ) : Outcome DnsParseError UInt16 := do
  let hi ← index l i
  let j ← usizeAdd i 1
  let lo ← index l j
  return UInt16.ofNat (ofBe [hi, lo])

/-- `DnsHdr::from`. -/
def DnsHdr.fromPayload (payload : List UInt8) : Outcome DnsParseError DnsHdr := do
  failIf (payload.length < DnsHdr.len) .unexpectedEndOfPayload
  let transactionId ← beU16At payload 0
  let flags ← beU16At payload 2
  let questions ← beU16At payload 4
  let answerRrs ← beU16At payload 6
  let authorityRrs ← beU16At payload 8
  let additionalRrs ← beU16At payload 10
  return { transactionId, flags, questions, answerRrs, authorityRrs, additionalRrs }

/-- `RecordType`. -/
inductive RecordType where
  | a
  | cname
  | aaaa
  | unsupported (typeNum : UInt16)
deriving DecidableEq, Repr

/-- `RecordType::try_from`, which never fails. -/
def RecordType.tryFrom (val : UInt16) : RecordType :=
  if val = 1 then .a else if val = 5 then .cname else if val = 28 then .aaaa else .unsupported val

/-- `reset_slot`. -/
def resetSlot (slot : DnsResponse) : DnsResponse :=
  { slot with
    srcIp := "", dstIp := "", domainName := "", resolvedIp := "", resolvedIpRaw := []
    srcPort := 0, dstPort := 0, ipFamily := 0, timestampNs := 0 }

/-- `write!(out, "{ip}")`: formatting into a `String` does not fail. -/
def writeStr (text : List Char) : Exec String DnsParseError Unit :=
  modify (· ++ String.ofList text)

/-- `parse_ip`. -/
def parseIp (rawIp : RawIpAddr) : Exec String DnsParseError Unit :=
  if rawIp.family = afInet then do
    let b0 ← lift (index rawIp.bytes.toList 0)
    let b1 ← lift (index rawIp.bytes.toList 1)
    let b2 ← lift (index rawIp.bytes.toList 2)
    let b3 ← lift (index rawIp.bytes.toList 3)
    writeStr (Ipv4Addr.new b0 b1 b2 b3).display
  else if rawIp.family = afInet6 then
    writeStr (Ipv6Addr.mk rawIp.bytes).display
  else lift (.err (.unsupportedAddressFamily rawIp.family))

/-- `<[u8]>::is_ascii`. -/
def isAscii (l : List UInt8) : Bool := l.all (· < 128)

/-- `str::from_utf8` of ASCII bytes: each byte is one character. -/
def asciiStr (l : List UInt8) : String := String.ofList (l.map fun b => Char.ofNat b.toNat)

/-- The `while` loop of `parse_qname`. -/
def parseQnameLoop (payload : List UInt8) : ℕ → ℕ → ℕ → Exec String DnsParseError ℕ
  | 0, _, _ => lift .panic
  | fuel + 1, offset, totalDomainLen =>
    if offset < payload.length then do
      let b ← lift (index payload offset)
      let labelLen := b.toNat
      if labelLen = 0 then lift (usizeAdd offset 1) else do
        lift (failIf (labelLen > 63) (.invalidLabelLength labelLen))
        let labelStart ← lift (usizeAdd offset 1)
        let labelEnd ← lift (usizeAdd labelStart labelLen)
        lift (failIf (labelEnd > payload.length) .unexpectedEndOfPayload)
        let step ← lift (usizeAdd labelLen 1)
        let totalDomainLen ← lift (usizeAdd totalDomainLen step)
        lift (failIf (totalDomainLen > 255) .labelExceedsMaxLen)
        let labelBytes ← lift (slice payload labelStart labelEnd)
        lift (failIf (isAscii labelBytes = false) .nonAsciiDomainName)
        -- a dot in front of every label but the first
        modify fun out => if out.isEmpty then out else out.push '.'
        modify (· ++ asciiStr labelBytes)
        parseQnameLoop payload fuel labelEnd totalDomainLen
    else lift (.err .unexpectedEndOfPayload)

/-- `parse_qname`: the length of the encoded name; the dotted text is appended to `out`. -/
def parseQname (payload : List UInt8) : Exec String DnsParseError ℕ := do
  lift (failIf (payload.isEmpty = true) .unexpectedEndOfPayload)
  parseQnameLoop payload (payload.length + 1) 0 0

/-- The `while` loop of `skip_name`. -/
def skipNameLoop (payload : List UInt8) : ℕ → ℕ → Outcome DnsParseError ℕ
  | 0, _ => .panic
  | fuel + 1, offset =>
    if offset < payload.length then do
      let b ← index payload offset
      -- a compression pointer ends the name
      if b &&& 0xC0 = 0xC0 then do
        let next ← usizeAdd offset 2
        failIf (next > payload.length) .unexpectedEndOfPayload
        usizeAdd offset 2
      else if b = 0 then usizeAdd offset 1
      else if b ≤ 63 then do
        let start ← usizeAdd offset 1
        let nextOffset ← usizeAdd start b.toNat
        failIf (nextOffset > payload.length) .unexpectedEndOfPayload
        skipNameLoop payload fuel nextOffset
      else .err (.invalidLabelLength b.toNat)
    else .err .unexpectedEndOfPayload

/-- `skip_name`: the length of the encoded name at the start of `payload`. -/
def skipName (payload : List UInt8) : Outcome DnsParseError ℕ :=
  skipNameLoop payload (payload.length + 1) 0

/-- `RR_FIXED_HDR_LEN`: TYPE, CLASS, TTL and RDLENGTH. -/
def rrFixedHdrLen : ℕ := 10

/-- What one iteration of `parse_rdata` reads: the type, the announced length, the data and the
offset at which the next iteration starts. -/
structure RecordRead where
  rtype : RecordType
  rdlength : ℕ
  rdata : List UInt8
  next : ℕ
deriving DecidableEq

/-- The reading half of an iteration of `parse_rdata`. The length returned by `skip_name` counts
from `offset`, but it replaces `offset` as it is (`offset = skip_name(&payload[offset..])?`). -/
def readRecord (payload : List UInt8) (offset : ℕ) : Outcome DnsParseError RecordRead := do
  failIf (offset ≥ payload.length) .unexpectedEndOfPayload
  let rest ← sliceFrom payload offset
  let offset ← skipName rest
  let fixedEnd ← usizeAdd offset rrFixedHdrLen
  failIf (fixedEnd > payload.length) .unexpectedEndOfPayload
  let typeNum ← beU16At payload offset
  let rtype := RecordType.tryFrom typeNum
  let lengthOffset ← usizeAdd offset 8
  let length ← beU16At payload lengthOffset
  let rdlength := length.toNat
  let offset ← usizeAdd offset rrFixedHdrLen
  let rdataEnd ← usizeAdd offset rdlength
  failIf (rdataEnd > payload.length) .unexpectedEndOfPayload
  let rdata ← slice payload offset rdataEnd
  let next ← usizeAdd offset rdlength
  return { rtype, rdlength, rdata, next }

/-- The storing half of an iteration of `parse_rdata`: the `match` on the record type. -/
def storeRecord (r : RecordRead) : Exec DnsResponse DnsParseError Unit :=
  match r.rtype with
  | .a => do
    lift (failIf (r.rdlength ≠ 4) .unexpectedEndOfPayload)
    let b0 ← lift (index r.rdata 0)
    let b1 ← lift (index r.rdata 1)
    let b2 ← lift (index r.rdata 2)
    let b3 ← lift (index r.rdata 3)
    zoom (·.resolvedIp) (fun v s => { s with resolvedIp := v })
      (writeStr (Ipv4Addr.new b0 b1 b2 b3).display)
    let raw ← lift (sliceTo r.rdata 4)
    modify fun s => { s with resolvedIpRaw := s.resolvedIpRaw ++ raw }
    modify fun s => { s with ipFamily := afInet }
  | .aaaa => do
    lift (failIf (r.rdlength ≠ 16) .unexpectedEndOfPayload)
    let octets ← lift (copyFromSlice 16 r.rdata)
    zoom (·.resolvedIp) (fun v s => { s with resolvedIp := v })
      (writeStr (Ipv6Addr.mk octets).display)
    modify fun s => { s with resolvedIpRaw := s.resolvedIpRaw ++ octets.toList }
    modify fun s => { s with ipFamily := afInet6 }
  | .cname => pure ()
  | .unsupported _ => pure ()

/-- The `for _ in 0..anscount` loop of `parse_rdata`, from `offset` on. -/
def parseRdataLoop (payload : List UInt8) : ℕ → ℕ → Exec DnsResponse DnsParseError Unit
  | 0, _ => pure ()
  | n + 1, offset => do
    let r ← lift (readRecord payload offset)
    storeRecord r
    parseRdataLoop payload n r.next

/-- `parse_rdata`. -/
def parseRdata (payload : List UInt8) (anscount : UInt16) :
    Exec DnsResponse DnsParseError Unit := do
  lift (failIf (payload.isEmpty = true) .unexpectedEndOfPayload)
  parseRdataLoop payload anscount.toNat 0

/-- `parse_dns_into`. -/
def parseDnsInto (rawEvent : RawDnsEvent) : Exec DnsResponse DnsParseError Unit := do
  modify resetSlot
  zoom (·.srcIp) (fun v s => { s with srcIp := v }) (parseIp rawEvent.srcIp)
  zoom (·.dstIp) (fun v s => { s with dstIp := v }) (parseIp rawEvent.dstIp)
  modify fun s => { s with srcPort := rawEvent.srcPort.toUInt32 }
  modify fun s => { s with dstPort := rawEvent.dstPort.toUInt32 }
  modify fun s => { s with timestampNs := rawEvent.timestampNs }
  let totalLen := rawEvent.payloadLen.toNat
  lift (failIf (totalLen < DnsHdr.len) .unexpectedEndOfPayload)
  let dnsPayload ← lift (sliceTo rawEvent.payload.toList totalLen)
  let qnamePayload ← lift (sliceFrom dnsPayload DnsHdr.len)
  let qnameLen ← zoom (·.domainName) (fun v s => { s with domainName := v })
    (parseQname qnamePayload)
  let hdr ← lift (DnsHdr.fromPayload dnsPayload)
  let anscount := hdr.answerRrs
  let questionStart ← lift (usizeAdd DnsHdr.len qnameLen)
  let rdataOffset ← lift (usizeAdd questionStart 4)
  lift (failIf (rdataOffset > totalLen) .unexpectedEndOfPayload)
  let rdataPayload ← lift (sliceFrom dnsPayload rdataOffset)
  parseRdata rdataPayload anscount

end CiliumMini
