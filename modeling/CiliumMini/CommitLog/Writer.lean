import CiliumMini.CommitLog.Message
import CiliumMini.Parser.Responses
import CiliumMini.Rust.BufWriter
import CiliumMini.Wire.Framing
import Mathlib.Data.List.Induction

/-!
# The commit log writer

Reference: `spawn_file_writer` in `cilium-mini-rs/src/topology.rs`.

A message is written as two slices, the length of its encoding as four big-endian bytes and the
encoding. When no write fails, the log of a sequence of messages is the sequence of their frames and
is read back exactly (`commitLog_roundTrip`).

When a write fails, the loop logs the error and goes on with the next message, behind whatever part
of the failed one was passed on. A message is recovered if it was appended to a whole number of
frames (`appended_recovered`); behind a torn frame it can be lost (`append_after_failure_lost`).
-/

namespace CiliumMini

open scoped List

/-- The capacity of the buffered writer. -/
def bufCapacity : ℕ := 256 * 1024

/-- `(proto_buffer.len() as u32).to_be_bytes()`. -/
def lengthPrefix (body : List UInt8) : List UInt8 := beBytes 4 (body.length % 2 ^ 32)

/-- The two slices of a message are its frame, if the length is not cut by the cast. -/
theorem lengthPrefix_append {body : List UInt8} (h : body.length < 2 ^ 32) :
    lengthPrefix body ++ body = frame body := by
  rw [lengthPrefix, Nat.mod_eq_of_lt h, frame]

section Writer

variable (prost : Prost)

/-- The body of the writer's `while` loop, when no write fails. -/
def writeMessage (w : BufWriter) (m : DnsResponse) : BufWriter :=
  let protoBuffer := prost.encode m
  (w.writeAll bufCapacity (lengthPrefix protoBuffer)).writeAll bufCapacity protoBuffer

/-- The log file after the loop and the final flush, starting from the file `file`. -/
def writeLog (file : List UInt8) (ms : List DnsResponse) : List UInt8 :=
  (ms.foldl (writeMessage prost) ⟨file, []⟩).flushBuf.file

variable {prost}

/-- A message adds its frame to file and buffer. -/
theorem contents_writeMessage {m : DnsResponse} (h : (prost.encode m).length < 2 ^ 32)
    (w : BufWriter) :
    (writeMessage prost w m).contents = w.contents ++ frame (prost.encode m) := by
  rw [writeMessage, BufWriter.contents_writeAll, BufWriter.contents_writeAll, List.append_assoc,
    lengthPrefix_append h]

/-- The loop adds the frames of its messages. -/
theorem contents_foldl_writeMessage {ms : List DnsResponse}
    (h : ∀ m ∈ ms, (prost.encode m).length < 2 ^ 32) (w : BufWriter) :
    (ms.foldl (writeMessage prost) w).contents =
      w.contents ++ (ms.map prost.encode).flatMap frame := by
  induction ms generalizing w with
  | nil => simp
  | cons m ms ih =>
    rw [List.foldl_cons, ih (fun m' hm' => h m' (List.mem_cons_of_mem m hm')),
      contents_writeMessage (h m List.mem_cons_self), List.map_cons, List.flatMap_cons,
      List.append_assoc]

/-- The writer appends the frames of the messages. -/
theorem writeLog_eq {ms : List DnsResponse} (h : ∀ m ∈ ms, (prost.encode m).length < 2 ^ 32)
    (file : List UInt8) :
    writeLog prost file ms = file ++ (ms.map prost.encode).flatMap frame := by
  have hcontents := contents_foldl_writeMessage h ⟨file, []⟩
  rw [BufWriter.contents, BufWriter.contents, List.append_nil] at hcontents
  exact hcontents

end Writer

/-- What the parser sends to the writer has an encoding below `2 ^ 32` bytes. -/
theorem length_encode_lt (prost : Prost) {events : List RawDnsEvent}
    (hlen : ∀ ev ∈ events, ev.payloadLen.toNat ≤ maxDnsPayloadSize) :
    ∀ m ∈ events.filterMap freshParse, (prost.encode m).length < 2 ^ 32 := by
  intro m hm
  obtain ⟨ev, hev, hparse⟩ := List.mem_filterMap.mp hm
  rw [prost.length_encode]
  exact encodedLen_lt (hlen ev hev) (freshParse_eq_some.mp hparse)

/-- Every message that the parser produces has an encoding below `2 ^ 32` bytes, and the messages of
any events are read back from what the writer appends, frame by frame, with nothing left over. -/
theorem commitLog_roundTrip (prost : Prost) (events : List RawDnsEvent)
    (hlen : ∀ ev ∈ events, ev.payloadLen.toNat ≤ maxDnsPayloadSize) (file : List UInt8) :
    (∀ ev ∈ events, ∀ slot m, (parseDnsInto ev).run slot = (.ok (), m) →
        (prost.encode m).length < 2 ^ 32) ∧
      ∃ emitted, writeLog prost file (events.filterMap freshParse) = file ++ emitted ∧
        (deframe emitted).1.map prost.decode = (events.filterMap freshParse).map some ∧
        (deframe emitted).2 = [] := by
  have hsize := length_encode_lt prost hlen
  have hbodies : ∀ b ∈ (events.filterMap freshParse).map prost.encode, b.length < 2 ^ 32 := by
    intro b hb
    obtain ⟨m, hm, rfl⟩ := List.mem_map.mp hb
    exact hsize m hm
  refine ⟨?_, _, writeLog_eq hsize file, ?_⟩
  · intro ev hev slot m hm
    rw [prost.length_encode]
    exact encodedLen_lt (hlen ev hev) hm
  · rw [deframe_frames _ hbodies, List.map_map]
    exact ⟨List.map_congr_left fun m _ => prost.decode_encode m, rfl⟩

/-- Two events with one address each. -/
def exampleEvents : List RawDnsEvent :=
  [exampleEventA 10 0 0 1, exampleEventA 10 0 0 2]

/-- Two responses on the way to the log. -/
theorem commitLog_roundTrip_example :
    ∃ emitted, writeLog .proto3 [] (exampleEvents.filterMap freshParse) = emitted ∧
      ((deframe emitted).1.map Prost.proto3.decode).length = 2 := by
  obtain ⟨-, emitted, hlog, hread, -⟩ :=
    commitLog_roundTrip .proto3 exampleEvents (by decide +kernel) []
  refine ⟨emitted, hlog, ?_⟩
  rw [hread]
  decide +kernel

/-! ## Failed writes -/

/-- What a call of `write_all` ends with: all bytes passed on, or an error behind some of them. -/
inductive WriteResult where
  | ok
  | failed (passed : ℕ)
deriving DecidableEq

/-- One iteration of the writer's loop: the message and what its two writes end with. -/
structure Attempt where
  message : DnsResponse
  prefixResult : WriteResult
  bodyResult : WriteResult

/-- Both writes succeed. -/
def Attempt.Succeeds (a : Attempt) : Prop := a.prefixResult = .ok ∧ a.bodyResult = .ok

instance (a : Attempt) : Decidable a.Succeeds := inferInstanceAs (Decidable (_ ∧ _))

section Failures

variable (prost : Prost)

/-- The bytes passed on by one iteration; a failed length is not followed by a body. -/
def passedOn (a : Attempt) : List UInt8 :=
  let protoBuffer := prost.encode a.message
  match a.prefixResult with
  | .failed n => (lengthPrefix protoBuffer).take n
  | .ok =>
    match a.bodyResult with
    | .failed n => lengthPrefix protoBuffer ++ protoBuffer.take n
    | .ok => lengthPrefix protoBuffer ++ protoBuffer

/-- The byte stream after a sequence of iterations. -/
def stream (attempts : List Attempt) : List UInt8 := attempts.flatMap (passedOn prost)

/-- The encodings of the messages whose writes both succeed. -/
def appended (attempts : List Attempt) : List (List UInt8) :=
  (attempts.filter (·.Succeeds)).map fun a => prost.encode a.message

variable {prost}

/-- When both writes succeed, a whole frame is passed on. -/
theorem passedOn_of_succeeds {a : Attempt} (h : a.Succeeds)
    (hsize : (prost.encode a.message).length < 2 ^ 32) :
    passedOn prost a = frame (prost.encode a.message) := by
  rw [passedOn, h.1, h.2]
  exact lengthPrefix_append hsize

/-- One iteration: what was recovered stays recovered, and a success behind whole frames is added.
-/
theorem appended_step {attempts : List Attempt} {a : Attempt}
    (hsize : (prost.encode a.message).length < 2 ^ 32)
    (hwhole : a.Succeeds → (deframe (stream prost attempts)).2 = [])
    (h : appended prost attempts <+ (deframe (stream prost attempts)).1) :
    appended prost (attempts ++ [a]) <+ (deframe (stream prost (attempts ++ [a]))).1 := by
  have hstream : stream prost (attempts ++ [a]) = stream prost attempts ++ passedOn prost a := by
    simp [stream]
  rw [hstream]
  by_cases ha : a.Succeeds
  · -- there is no rest in front of the new frame
    have happended : appended prost (attempts ++ [a]) =
        appended prost attempts ++ [prost.encode a.message] := by
      simp [appended, ha]
    rw [passedOn_of_succeeds ha hsize, deframe_append_frame (hwhole ha) hsize, happended]
    exact h.append_right _
  · -- whatever was passed on comes behind the frames that the reader has found
    have happended : appended prost (attempts ++ [a]) = appended prost attempts := by
      simp [appended, ha]
    rw [happended]
    exact h.trans (deframe_prefix_append _ _).sublist

end Failures

/-- If every success finds a whole number of frames in the stream, then after every prefix of the
run the appended messages are recovered, intact and in order. -/
theorem appended_recovered (prost : Prost) (attempts : List Attempt)
    (hsize : ∀ a ∈ attempts, (prost.encode a.message).length < 2 ^ 32)
    (hwhole : ∀ pre a, pre ++ [a] <+: attempts → a.Succeeds →
      (deframe (stream prost pre)).2 = [])
    (pre : List Attempt) (hpre : pre <+: attempts) :
    appended prost pre <+ (deframe (stream prost pre)).1 := by
  induction pre using List.reverseRecOn with
  | nil => exact List.Sublist.refl _
  | append_singleton pre a ih =>
    refine appended_step (hsize a (hpre.subset (by simp))) (hwhole pre a hpre) (ih ?_)
    exact (List.prefix_append pre [a]).trans hpre

/-- A message of two bytes. -/
def exampleMessage (port : UInt32) : DnsResponse := { (default : DnsResponse) with srcPort := port }

/-- A failure that passes nothing on does no harm. -/
theorem appended_recovered_example :
    appended .proto3 [⟨exampleMessage 1, .failed 0, .ok⟩, ⟨exampleMessage 2, .ok, .ok⟩] <+
      (deframe (stream .proto3
        [⟨exampleMessage 1, .failed 0, .ok⟩, ⟨exampleMessage 2, .ok, .ok⟩])).1 := by
  refine appended_recovered .proto3 _ (by decide +kernel) ?_ _ List.prefix_rfl
  rintro pre a ⟨post, hsplit⟩ -
  rcases pre with _ | ⟨x, _ | ⟨y, pre⟩⟩
  · rfl
  · obtain rfl : x = ⟨exampleMessage 1, .failed 0, .ok⟩ := List.head_eq_of_cons_eq hsplit
    decide +kernel
  · have hlength := congrArg List.length hsplit
    simp at hlength

/-- A message that only has address bytes, all zero. -/
def zeroMessage (n : ℕ) : DnsResponse :=
  { (default : DnsResponse) with resolvedIpRaw := List.replicate n 0 }

/-- Its encoding is one field: key, length and zeros. -/
theorem encode_zeroMessage {n : ℕ} (h : n ≠ 0) :
    Prost.proto3.encode (zeroMessage n) = 66 :: Protobuf.varint n ++ List.replicate n 0 := by
  have hfields : (zeroMessage n).fields = [(8, .len (List.replicate n 0))] := by
    simp [DnsResponse.fields, zeroMessage, default, lenField, uintField, utf8Bytes, h]
  have hkey : Protobuf.varint (8 * 8 + 2) = [66] := rfl
  show Protobuf.encodeFields (zeroMessage n).fields = _
  rw [hfields, Protobuf.encodeFields, List.flatMap_singleton, Protobuf.encodeField, hkey,
    List.length_replicate]
  rfl

/-- The length of the encoding. -/
theorem length_encode_zeroMessage {n : ℕ} (h : n ≠ 0) :
    (Prost.proto3.encode (zeroMessage n)).length = 1 + (Protobuf.varint n).length + n := by
  rw [encode_zeroMessage h, List.length_append, List.length_cons, List.length_replicate]
  omega

/-- The first message fills the buffer, so the body of the second needs a flush and fails. The start
of the third message is then read as this body. -/
theorem append_after_failure_lost :
    ¬ ∀ (prost : Prost) (attempts : List Attempt),
      (∀ a ∈ attempts, (prost.encode a.message).length < 2 ^ 32) →
        appended prost attempts <+ (deframe (stream prost attempts)).1 := by
  intro hall
  let filler : Attempt := ⟨zeroMessage 262132, .ok, .ok⟩
  let others : List Attempt :=
    [⟨exampleMessage 1, .ok, .failed 0⟩, ⟨exampleMessage 2, .ok, .ok⟩]
  have hfiller : (Prost.proto3.encode filler.message).length < 2 ^ 32 := by
    rw [length_encode_zeroMessage (by norm_num)]
    decide +kernel
  have hlost := hall .proto3 (filler :: others)
    (List.forall_mem_cons.mpr ⟨hfiller, by decide +kernel⟩)
  -- the reader finds the filler, and behind it what it finds in the rest
  have hread : (deframe (stream .proto3 (filler :: others))).1 =
      Prost.proto3.encode filler.message :: (deframe (stream .proto3 others)).1 := by
    have hstream : stream .proto3 (filler :: others) =
        frame (Prost.proto3.encode filler.message) ++ stream .proto3 others := by
      rw [← passedOn_of_succeeds ⟨rfl, rfl⟩ hfiller]
      rfl
    rw [hstream, deframe_frame_append hfiller]
  have happended : appended .proto3 (filler :: others) =
      Prost.proto3.encode filler.message :: appended .proto3 others := rfl
  rw [hread, happended, List.cons_sublist_cons] at hlost
  exact absurd hlost (by decide +kernel)

end CiliumMini
