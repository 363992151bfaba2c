import CiliumMini.CommitLog.Writer
import CiliumMini.Run

/-!
# Restarts

Reference: `spawn_file_writer` in `cilium-mini-rs/src/topology.rs` and `main` in
`cilium-mini-rs/src/main.rs`, which returns without waiting for the writer thread.

A process can end at any move of the writer; its buffer is then lost, and the next process appends
to the same file. `LogProcess` follows the file over any number of processes and records, for each
of them, the messages it took. The complete frames that reached the file are recovered as long as
every process starts on a whole number of frames (`restarts_readable`). The buffer is flushed by
size, not by frame, so a process can leave a torn frame; then a complete frame of the next one can
be lost (`restart_loses_frame`).
-/

namespace CiliumMini

open scoped List

/-- The file and the running process. `taken`, `past` and `base` only record what happened: the
encodings that this process took, the complete frames that earlier ones brought to the file, and the
length of the file when this process started. -/
structure LogProcess where
  writer : BufWriter
  todo : List (List UInt8)
  taken : List (List UInt8)
  past : List (List UInt8)
  base : ℕ

/-- One move. -/
inductive LogAction where
  /-- the loop receives the next message -/
  | receive (m : DnsResponse)
  /-- the buffered writer makes its next move for the slice at hand -/
  | advance
  /-- the process ends, without the final flush, and another one opens the file -/
  | restart
deriving DecidableEq

namespace LogProcess

/-- The first process, on a new file. -/
def start : LogProcess := ⟨⟨[], []⟩, [], [], [], 0⟩

/-- A process just started on a file. -/
def onFile (file : List UInt8) (past : List (List UInt8)) : LogProcess :=
  ⟨⟨file, []⟩, [], [], past, file.length⟩

/-- The complete frames that this process brought to the file. -/
def landed (p : LogProcess) : List (List UInt8) :=
  completeFrames p.taken (p.writer.file.length - p.base)

/-- One move; `none` if it is not possible now. -/
def step (prost : Prost) (cap : ℕ) (p : LogProcess) : LogAction → Option LogProcess
  | .receive m =>
    if p.todo = [] then
      let protoBuffer := prost.encode m
      some { p with
        todo := [lengthPrefix protoBuffer, protoBuffer], taken := p.taken ++ [protoBuffer] }
    else none
  | .advance =>
    match p.todo with
    | [] => none
    | s :: rest =>
      if p.writer.Ready cap s then some { p with writer := p.writer.put cap s, todo := rest }
      else some { p with writer := p.writer.flushBuf }
  | .restart =>
    some {
      writer := ⟨p.writer.file, []⟩, todo := [], taken := [], past := p.past ++ p.landed
      base := p.writer.file.length }

/-- Every complete frame that reached the file in any process is recovered, in order. -/
def Readable (p : LogProcess) : Prop := p.past ++ p.landed <+ (deframe p.writer.file).1

/-! ## Everything a move can do -/

variable {prost : Prost} {cap : ℕ} {p p' : LogProcess} {a : LogAction}

/-- The outcomes of a move. -/
inductive Move (prost : Prost) (cap : ℕ) (p : LogProcess) : LogAction → LogProcess → Prop
  | receive {m : DnsResponse} (htodo : p.todo = []) :
      Move prost cap p (.receive m) { p with
        todo := [lengthPrefix (prost.encode m), prost.encode m]
        taken := p.taken ++ [prost.encode m] }
  /-- the slice is taken by the buffer or by the file -/
  | put {s : List UInt8} {rest : List (List UInt8)} (htodo : p.todo = s :: rest)
      (hready : p.writer.Ready cap s) :
      Move prost cap p .advance { p with writer := p.writer.put cap s, todo := rest }
  /-- the buffer is handed over and the slice stays where it is -/
  | flush {s : List UInt8} {rest : List (List UInt8)} (htodo : p.todo = s :: rest)
      (hready : ¬ p.writer.Ready cap s) :
      Move prost cap p .advance { p with writer := p.writer.flushBuf }
  | restart : Move prost cap p .restart (.onFile p.writer.file (p.past ++ p.landed))

/-- Every step is one of the moves. -/
theorem step_move (h : p.step prost cap a = some p') : Move prost cap p a p' := by
  cases a with
  | receive m =>
    simp only [step] at h
    split at h
    · rename_i htodo
      obtain rfl := Option.some.inj h
      exact .receive htodo
    · exact absurd h (by simp)
  | advance =>
    cases htodo : p.todo with
    | nil =>
      simp only [step, htodo] at h
      exact absurd h (by simp)
    | cons s rest =>
      simp only [step, htodo] at h
      split at h
      · rename_i hready
        obtain rfl := Option.some.inj h
        exact .put htodo hready
      · rename_i hready
        obtain rfl := Option.some.inj h
        rw [← htodo]
        exact .flush htodo hready
  | restart =>
    obtain rfl := Option.some.inj h
    exact .restart

/-- Behind `old`, the file, the buffer and the slices at hand are together the frames of the
messages that this process took. -/
def Follows (p : LogProcess) (old : List UInt8) : Prop :=
  ∃ written, p.writer.file = old ++ written ∧
    written ++ (p.writer.buf ++ p.todo.flatten) = p.taken.flatMap frame

/-- A process has taken nothing when it starts. -/
theorem follows_onFile (file : List UInt8) (past : List (List UInt8)) :
    (onFile file past).Follows file :=
  ⟨[], (List.append_nil file).symm, rfl⟩

/-- A slice moves from the front of `todo` to the end of the buffer or of the file, and the buffer
to the end of the file. -/
theorem Follows.move {old : List UInt8} (hi : p.Follows old) (ha : a ≠ .restart)
    (hsize : ∀ m, a = .receive m → (prost.encode m).length < 2 ^ 32) (h : Move prost cap p a p') :
    p'.Follows old := by
  obtain ⟨written, hfile, hwritten⟩ := hi
  cases h with
  | @receive m htodo =>
    rw [htodo, List.flatten_nil, List.append_nil] at hwritten
    refine ⟨written, hfile, ?_⟩
    simp only [List.flatten_cons, List.flatten_nil, List.append_nil, List.flatMap_append,
      List.flatMap_singleton]
    rw [lengthPrefix_append (hsize m rfl), ← hwritten, List.append_assoc]
  | @put s rest htodo hready =>
    rw [htodo, List.flatten_cons] at hwritten
    by_cases hlong : cap ≤ s.length
    · -- past the buffer, which is empty then
      have hempty := BufWriter.buf_eq_nil hready hlong
      refine ⟨written ++ s, ?_, ?_⟩
      · simp only [BufWriter.put, if_pos hlong]
        rw [hfile, List.append_assoc]
      · simp only [BufWriter.put, if_pos hlong]
        rw [hempty, List.nil_append] at hwritten ⊢
        rw [← hwritten, List.append_assoc]
    · refine ⟨written, ?_, ?_⟩
      · simp only [BufWriter.put, if_neg hlong]
        exact hfile
      · simp only [BufWriter.put, if_neg hlong]
        rw [← hwritten, List.append_assoc p.writer.buf]
  | flush htodo hready =>
    refine ⟨written ++ p.writer.buf, ?_, ?_⟩
    · rw [BufWriter.flushBuf, hfile, List.append_assoc]
    · rw [BufWriter.flushBuf, ← hwritten, List.append_assoc]
      rfl
  | restart => exact absurd rfl ha

/-- The encodings that a process took stay below `2 ^ 32` bytes. -/
theorem taken_lt_move (hi : ∀ b ∈ p.taken, b.length < 2 ^ 32)
    (hsize : ∀ m, a = .receive m → (prost.encode m).length < 2 ^ 32) (h : Move prost cap p a p') :
    ∀ b ∈ p'.taken, b.length < 2 ^ 32 := by
  cases h with
  | @receive m htodo =>
    intro b hb
    rcases List.mem_append.mp hb with hb | hb
    · exact hi b hb
    · rw [List.mem_singleton.mp hb]
      exact hsize m rfl
  | put => exact hi
  | flush => exact hi
  | restart => exact fun b hb => absurd hb List.not_mem_nil

/-! ## Whole frames -/

/-- The file is the frames of the earlier processes and a part of the frames of this one; the rest
of these is in the buffer or still to be written. -/
structure Inv (p : LogProcess) : Prop where
  follows : p.Follows (p.past.flatMap frame)
  base_eq : p.base = (p.past.flatMap frame).length
  past_lt : ∀ b ∈ p.past, b.length < 2 ^ 32
  taken_lt : ∀ b ∈ p.taken, b.length < 2 ^ 32

/-- The first process starts on a new file. -/
theorem inv_start : Inv start where
  follows := follows_onFile [] []
  base_eq := rfl
  past_lt := by simp [start]
  taken_lt := by simp [start]

/-- The reader finds exactly the frames of the earlier processes and the landed ones of this one. -/
theorem Inv.deframe_eq (h : Inv p) : (deframe p.writer.file).1 = p.past ++ p.landed := by
  obtain ⟨written, hfile, hwritten⟩ := h.follows
  have hlength : p.writer.file.length - p.base = written.length := by
    rw [hfile, List.length_append, h.base_eq, Nat.add_sub_cancel_left]
  rw [landed, hlength, hfile, deframe_frames_append _ h.past_lt,
    deframe_of_prefix h.taken_lt hwritten]

/-- A restart on a whole number of frames. -/
theorem Inv.restart (hi : Inv p) (hwhole : (deframe p.writer.file).2 = []) :
    Inv (.onFile p.writer.file (p.past ++ p.landed)) := by
  -- with no rest, the frames that the reader finds are the whole file
  obtain ⟨hjoin, hsize⟩ := deframe_sound p.writer.file
  rw [hwhole, List.append_nil, hi.deframe_eq] at hjoin
  rw [hi.deframe_eq] at hsize
  refine ⟨?_, ?_, hsize, by simp [onFile]⟩
  · show Follows _ ((p.past ++ p.landed).flatMap frame)
    rw [hjoin]
    exact follows_onFile _ _
  · show p.writer.file.length = ((p.past ++ p.landed).flatMap frame).length
    rw [hjoin]

/-- Every move keeps the invariant, a restart if it finds a whole number of frames. -/
theorem Inv.move (hi : Inv p) (hsize : ∀ m, a = .receive m → (prost.encode m).length < 2 ^ 32)
    (hwhole : a = .restart → (deframe p.writer.file).2 = []) (h : Move prost cap p a p') :
    Inv p' := by
  have hfollows : a ≠ .restart → p'.Follows (p.past.flatMap frame) :=
    fun ha => hi.follows.move ha hsize h
  have htaken := taken_lt_move hi.taken_lt hsize h
  cases h with
  | receive => exact ⟨hfollows (by simp), hi.base_eq, hi.past_lt, htaken⟩
  | put => exact ⟨hfollows (by simp), hi.base_eq, hi.past_lt, htaken⟩
  | flush => exact ⟨hfollows (by simp), hi.base_eq, hi.past_lt, htaken⟩
  | restart => exact hi.restart (hwhole rfl)

end LogProcess

/-- In every run whose messages fit a 32-bit length and whose processes all start on a whole number
of frames, every state is readable. -/
theorem restarts_readable (prost : Prost) (cap : ℕ) (actions : List LogAction)
    (hsize : ∀ m, .receive m ∈ actions → (prost.encode m).length < 2 ^ 32)
    (hwhole : ∀ pre p, pre ++ [.restart] <+: actions →
      pre.foldlM (LogProcess.step prost cap) .start = some p → (deframe p.writer.file).2 = [])
    (pre : List LogAction) (hpre : pre <+: actions) (p : LogProcess)
    (hrun : pre.foldlM (LogProcess.step prost cap) .start = some p) : p.Readable := by
  suffices hinv : p.Inv by
    rw [LogProcess.Readable, hinv.deframe_eq]
  apply Run.invariant_of_prefix LogProcess.inv_start _ hpre hrun
  intro pre a p₁ p₂ hpre hrun₁ hinv hstep
  refine hinv.move ?_ ?_ (LogProcess.step_move hstep)
  · rintro m rfl
    exact hsize m (Run.mem_of_isPrefix hpre)
  · rintro rfl
    exact hwhole pre p₁ hpre hrun₁

/-- One process that writes a frame straight through, and a second one on the same file. -/
theorem restarts_readable_example :
    ∃ p, [LogAction.receive (exampleMessage 1), .advance, .advance, .restart].foldlM
        (LogProcess.step .proto3 2) .start = some p ∧ p.past.length = 1 ∧ p.Readable := by
  have hrun : (([LogAction.receive (exampleMessage 1), .advance, .advance, .restart].foldlM
      (LogProcess.step .proto3 2) .start).map fun p => p.past.length) = some 1 := by decide +kernel
  obtain ⟨p, hp, hpast⟩ := Option.map_eq_some_iff.mp hrun
  refine ⟨p, hp, hpast, restarts_readable .proto3 2 _ ?_ ?_ _ List.prefix_rfl p hp⟩
  · intro m hm
    obtain rfl : m = exampleMessage 1 := by simpa using hm
    decide +kernel
  · rintro pre p₁ ⟨post, hsplit⟩ hrun₁
    have hpre : pre = [.receive (exampleMessage 1), .advance, .advance] := by
      rcases pre with _ | ⟨a, _ | ⟨b, _ | ⟨c, _ | ⟨d, pre⟩⟩⟩⟩ <;> simp_all
    have hwhole : (([LogAction.receive (exampleMessage 1), .advance, .advance].foldlM
        (LogProcess.step .proto3 2) .start).map fun p => (deframe p.writer.file).2) = some [] := by
      decide +kernel
    rw [← hpre, hrun₁, Option.map_some] at hwhole
    exact Option.some.inj hwhole

/-! ## A torn frame

With the capacity of the source: the first process fills its buffer up to the length prefix of its
second message, and the body then pushes the buffer out. The second process writes a message
straight through.
-/

namespace LogProcess

variable {prost : Prost} {cap : ℕ} {p : LogProcess} {s : List UInt8} {rest : List (List UInt8)}

/-- A short slice with room for it goes into the buffer. -/
theorem step_buffer (htodo : p.todo = s :: rest) (hfit : p.writer.buf.length + s.length ≤ cap)
    (hshort : s.length < cap) :
    p.step prost cap .advance =
      some { p with writer := ⟨p.writer.file, p.writer.buf ++ s⟩, todo := rest } := by
  have hready : p.writer.Ready cap s := Or.inl hfit
  simp only [step, htodo, if_pos hready, BufWriter.put, if_neg (Nat.not_le.mpr hshort)]

/-- A slice without room makes the writer flush first. -/
theorem step_flush (htodo : p.todo = s :: rest) (hover : cap < p.writer.buf.length + s.length)
    (hbuf : p.writer.buf ≠ []) :
    p.step prost cap .advance = some { p with writer := ⟨p.writer.file ++ p.writer.buf, []⟩ } := by
  have hready : ¬ p.writer.Ready cap s := by
    rintro (hfit | hempty)
    · omega
    · exact hbuf hempty
  simp only [step, htodo, if_neg hready, BufWriter.flushBuf]

/-- A long slice goes straight to the file. -/
theorem step_direct (htodo : p.todo = s :: rest) (hbuf : p.writer.buf = [])
    (hlong : cap ≤ s.length) :
    p.step prost cap .advance =
      some { p with writer := ⟨p.writer.file ++ s, []⟩, todo := rest } := by
  have hready : p.writer.Ready cap s := Or.inr hbuf
  simp only [step, htodo, if_pos hready, BufWriter.put, if_pos hlong, hbuf]

theorem step_receive {m : DnsResponse} (htodo : p.todo = []) :
    p.step prost cap (.receive m) = some { p with
      todo := [lengthPrefix (prost.encode m), prost.encode m]
      taken := p.taken ++ [prost.encode m] } := by
  simp only [step, if_pos htodo]

end LogProcess

theorem length_lengthPrefix (b : List UInt8) : (lengthPrefix b).length = 4 := length_beBytes 4 _

/-- The moves of a process that is ended by the flush for its second message, and a restart. -/
def fillingMoves (m₁ m₂ : DnsResponse) : List LogAction :=
  [.receive m₁, .advance, .advance, .receive m₂, .advance, .advance, .restart]

/-- The first message and the length of the second one fill the buffer, so the file ends in a frame
without a body. -/
theorem fillingMoves_run (prost : Prost) (m₁ m₂ : DnsResponse) {cap : ℕ}
    (h₁ : (prost.encode m₁).length + 8 = cap) (h₂ : 0 < (prost.encode m₂).length) :
    ∃ past, (fillingMoves m₁ m₂).foldlM (LogProcess.step prost cap) .start =
      some (.onFile (lengthPrefix (prost.encode m₁) ++ prost.encode m₁ ++
        lengthPrefix (prost.encode m₂)) past) := by
  have hfull : lengthPrefix (prost.encode m₁) ++ prost.encode m₁ ++ lengthPrefix (prost.encode m₂) ≠
      [] := by
    intro hnil
    have hlen := congrArg List.length hnil
    simp [length_lengthPrefix] at hlen
  simp only [fillingMoves, List.foldlM_cons, List.foldlM_nil, Option.bind_eq_bind]
  -- prefix, body and the second prefix are buffered, and the second body flushes them
  rw [LogProcess.step_receive rfl, Option.bind_some,
    LogProcess.step_buffer rfl (by simp [LogProcess.start, length_lengthPrefix]; omega)
      (by rw [length_lengthPrefix]; omega), Option.bind_some,
    LogProcess.step_buffer rfl (by simp [LogProcess.start, length_lengthPrefix]; omega) (by omega),
    Option.bind_some, LogProcess.step_receive rfl, Option.bind_some,
    LogProcess.step_buffer rfl (by simp [LogProcess.start, length_lengthPrefix]; omega)
      (by rw [length_lengthPrefix]; omega), Option.bind_some,
    LogProcess.step_flush rfl (by simp [LogProcess.start, length_lengthPrefix]; omega) hfull,
    Option.bind_some]
  exact ⟨_, rfl⟩

/-- The moves for a message that is as long as the buffer. -/
def throughMoves (m : DnsResponse) : List LogAction := [.receive m, .advance, .advance, .advance]

/-- The length is buffered, pushed out, and the body goes straight through. -/
theorem throughMoves_run {prost : Prost} (m : DnsResponse) {cap : ℕ} (hcap : 4 < cap)
    (hlong : cap ≤ (prost.encode m).length) (file : List UInt8) (past : List (List UInt8)) :
    ∃ p, (throughMoves m).foldlM (LogProcess.step prost cap) (.onFile file past) = some p ∧
      p.writer.file = file ++ (lengthPrefix (prost.encode m) ++ prost.encode m) ∧
      p.landed = [prost.encode m] := by
  have hfull : lengthPrefix (prost.encode m) ≠ [] := by
    intro hnil
    have hlen := congrArg List.length hnil
    simp [length_lengthPrefix] at hlen
  simp only [throughMoves, List.foldlM_cons, List.foldlM_nil, Option.bind_eq_bind]
  rw [LogProcess.step_receive rfl, Option.bind_some,
    LogProcess.step_buffer rfl (by simp [LogProcess.onFile, length_lengthPrefix]; omega)
      (by rw [length_lengthPrefix]; omega), Option.bind_some,
    LogProcess.step_flush rfl (by simp [LogProcess.onFile, length_lengthPrefix]; omega)
      (by simpa [LogProcess.onFile] using hfull),
    Option.bind_some, LogProcess.step_direct rfl rfl hlong, Option.bind_some]
  refine ⟨_, rfl, ?_, ?_⟩
  · simp [LogProcess.onFile]
  · simp [LogProcess.onFile, LogProcess.landed, completeFrames, length_lengthPrefix]

/-- Four zeros are a frame without a body. -/
theorem flatMap_frame_nil (n : ℕ) :
    (List.replicate n []).flatMap frame = List.replicate (n * 4) 0 := by
  induction n with
  | zero => rfl
  | succ n ih =>
    rw [List.replicate_succ, List.flatMap_cons, ih, Nat.succ_mul, Nat.add_comm, List.replicate_add]
    rfl

/-- Behind a length without its body, the reader takes as many bytes of what comes next for the
body. -/
theorem deframe_torn {b₁ b₂ head : List UInt8} (h₁ : b₁.length < 2 ^ 32) (h₂ : b₂.length < 2 ^ 32)
    (hhead : head.length = b₂.length) (n : ℕ) :
    deframe (lengthPrefix b₁ ++ b₁ ++ lengthPrefix b₂ ++ (head ++ List.replicate (n * 4) 0)) =
      (b₁ :: head :: List.replicate n [], []) := by
  have htaken : lengthPrefix b₂ ++ head = frame head := by
    rw [lengthPrefix, Nat.mod_eq_of_lt h₂, frame, hhead]
  have hsplit : lengthPrefix b₁ ++ b₁ ++ lengthPrefix b₂ ++ (head ++ List.replicate (n * 4) 0) =
      (b₁ :: head :: List.replicate n []).flatMap frame := by
    rw [List.flatMap_cons, List.flatMap_cons, flatMap_frame_nil, lengthPrefix_append h₁, ← htaken]
    simp only [List.append_assoc]
  rw [hsplit, deframe_frames]
  intro b hb
  rcases List.mem_cons.mp hb with rfl | hb
  · exact h₁
  · rcases List.mem_cons.mp hb with rfl | hb
    · omega
    · rw [List.eq_of_mem_replicate hb]
      norm_num

/-- With the capacity of the source, a run of two processes brings a frame to the file that the
reader does not find: it takes the start of that frame for the missing body of the torn one. -/
theorem restart_loses_frame :
    ¬ ∀ (prost : Prost) (actions : List LogAction),
      (∀ m, .receive m ∈ actions → (prost.encode m).length < 2 ^ 32) →
        ∀ p, actions.foldlM (LogProcess.step prost bufCapacity) .start = some p → p.Readable := by
  intro hall
  -- the three bodies take bufCapacity - 8, 8 and bufCapacity + 4 bytes
  have hlen₁ : (Prost.proto3.encode (zeroMessage 262132)).length = 262136 := by
    rw [length_encode_zeroMessage (by norm_num)]
    decide +kernel
  have hlen₂ : (Prost.proto3.encode (zeroMessage 6)).length = 8 := by
    rw [length_encode_zeroMessage (by norm_num)]
    decide +kernel
  have hlen₃ : (Prost.proto3.encode (zeroMessage 262144)).length = 262148 := by
    rw [length_encode_zeroMessage (by norm_num)]
    decide +kernel
  obtain ⟨past, hrun₁⟩ := fillingMoves_run .proto3 (zeroMessage 262132) (zeroMessage 6)
    (show _ = bufCapacity by rw [hlen₁]; rfl) (by rw [hlen₂]; norm_num)
  obtain ⟨p₂, hrun₂, hfile, hlanded⟩ := throughMoves_run (zeroMessage 262144)
    (show 4 < bufCapacity by decide +kernel) (by rw [hlen₃]; decide +kernel) _ past
  have hread := hall .proto3 (fillingMoves (zeroMessage 262132) (zeroMessage 6) ++
    throughMoves (zeroMessage 262144)) ?_ p₂ (by
      rw [List.foldlM_append, hrun₁, Option.bind_eq_bind, Option.bind_some, hrun₂])
  · -- the last body was brought to the file, and no body that the reader finds is as long
    have hmem : Prost.proto3.encode (zeroMessage 262144) ∈ (deframe p₂.writer.file).1 := by
      refine hread.subset (List.mem_append_right _ ?_)
      rw [hlanded]
      exact List.mem_singleton.mpr rfl
    have hhead : (lengthPrefix (Prost.proto3.encode (zeroMessage 262144)) ++
        66 :: Protobuf.varint 262144).length = (Prost.proto3.encode (zeroMessage 6)).length := by
      rw [hlen₂, List.length_append, length_lengthPrefix]
      decide +kernel
    have htail : lengthPrefix (Prost.proto3.encode (zeroMessage 262144)) ++
        Prost.proto3.encode (zeroMessage 262144) =
          (lengthPrefix (Prost.proto3.encode (zeroMessage 262144)) ++
            66 :: Protobuf.varint 262144) ++ List.replicate (65536 * 4) 0 := by
      rw [List.append_assoc, ← encode_zeroMessage (by norm_num)]
    rw [hfile, htail, deframe_torn (by rw [hlen₁]; norm_num) (by rw [hlen₂]; norm_num)
      hhead] at hmem
    rcases List.mem_cons.mp hmem with heq | hmem
    · have hlen := congrArg List.length heq
      rw [hlen₃, hlen₁] at hlen
      omega
    · rcases List.mem_cons.mp hmem with heq | hmem
      · have hlen := congrArg List.length heq
        rw [hlen₃, hhead, hlen₂] at hlen
        omega
      · have hlen := congrArg List.length (List.eq_of_mem_replicate hmem)
        rw [hlen₃, List.length_nil] at hlen
        omega
  · intro m hm
    have hcases : m = zeroMessage 262132 ∨ m = zeroMessage 6 ∨ m = zeroMessage 262144 := by
      simpa [fillingMoves, throughMoves, or_assoc] using hm
    rcases hcases with rfl | rfl | rfl
    · rw [hlen₁]
      norm_num
    · rw [hlen₂]
      norm_num
    · rw [hlen₃]
      norm_num

end CiliumMini
