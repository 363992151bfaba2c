import CiliumMini.Wire.Endian

/-!
# Length-delimited frames

A frame is a 4-byte big-endian length followed by that many bytes. `deframe` is the reader that
walks a byte stream from its start, frame by frame, and stops at the first frame that is not
complete.
-/

namespace CiliumMini

/-- One frame: the length of `body` as a 4-byte prefix, then `body`. -/
def frame (body : List UInt8) : List UInt8 := beBytes 4 body.length ++ body

/-- At most `fuel` frames from the start of a stream, and the bytes left over. -/
def deframeFuel : ℕ → List UInt8 → List (List UInt8) × List UInt8
  | 0, s => ([], s)
  | fuel + 1, s =>
    let n := ofBe (s.take 4)
    if 4 ≤ s.length ∧ 4 + n ≤ s.length then
      let r := deframeFuel fuel (s.drop (4 + n))
      ((s.drop 4).take n :: r.1, r.2)
    else ([], s)

/-- Every complete frame from the start of a stream, in order, and the bytes left over. A frame
takes at least four bytes, so the length of the stream is enough fuel. -/
def deframe (s : List UInt8) : List (List UInt8) × List UInt8 := deframeFuel s.length s

/-- A frame takes four bytes more than its body. -/
@[simp] theorem length_frame (body : List UInt8) : (frame body).length = 4 + body.length := by
  simp [frame]

/-- Fuel beyond the length of the stream changes nothing. -/
theorem deframeFuel_eq_deframe (fuel : ℕ) (s : List UInt8) (h : s.length ≤ fuel) :
    deframeFuel fuel s = deframe s := by
  -- any two amounts that are enough give the same, by induction on one of them
  suffices ∀ n (s : List UInt8), s.length ≤ n →
      ∀ m, s.length ≤ m → deframeFuel m s = deframeFuel n s from
    this s.length s le_rfl fuel h
  intro n
  induction n with
  | zero =>
    intro s hs m _
    obtain rfl : s = [] := List.length_eq_zero_iff.mp (by omega)
    cases m <;> simp [deframeFuel]
  | succ n ih =>
    intro s hs m hm
    cases m with
    | zero =>
      obtain rfl : s = [] := List.length_eq_zero_iff.mp (by omega)
      simp [deframeFuel]
    | succ m =>
      simp only [deframeFuel]
      split
      · have hlen : (s.drop (4 + ofBe (s.take 4))).length ≤ n := by
          rw [List.length_drop]
          omega
        rw [ih _ hlen m (by rw [List.length_drop]; omega)]
      · rfl

/-- The reader takes a complete frame off the front of a stream. -/
theorem deframe_frame_append {body : List UInt8} (h : body.length < 2 ^ 32) (s : List UInt8) :
    deframe (frame body ++ s) = (body :: (deframe s).1, (deframe s).2) := by
  have htake : (frame body ++ s).take 4 = beBytes 4 body.length := by
    simp [frame]
  have hn : ofBe ((frame body ++ s).take 4) = body.length := by
    rw [htake, ofBe_beBytes_of_lt (by norm_num at h ⊢; exact h)]
  have hbody : ((frame body ++ s).drop 4).take body.length = body := by
    simp [frame]
  have hrest : (frame body ++ s).drop (4 + body.length) = s := by
    rw [← length_frame, List.drop_left]
  have hlen : (frame body ++ s).length = (3 + body.length + s.length) + 1 := by
    rw [List.length_append, length_frame]
    omega
  rw [deframe, hlen, deframeFuel]
  simp only [hn, hbody, hrest]
  rw [if_pos (by omega), deframeFuel_eq_deframe _ s (by omega)]

/-- The reader finds no frame in a stream too short for the one it starts with. -/
theorem deframe_of_short {s : List UInt8} (h : s.length < 4 + ofBe (s.take 4) ∨ s.length < 4) :
    deframe s = ([], s) := by
  unfold deframe
  cases hs : s.length with
  | zero => rfl
  | succ n =>
    simp only [deframeFuel]
    rw [if_neg (by omega)]

/-- The reader recovers a sequence of frames, then reads on behind it. -/
theorem deframe_frames_append (bodies : List (List UInt8)) (h : ∀ b ∈ bodies, b.length < 2 ^ 32)
    (s : List UInt8) :
    deframe (bodies.flatMap frame ++ s) = (bodies ++ (deframe s).1, (deframe s).2) := by
  induction bodies with
  | nil => simp
  | cons b bodies ih =>
    have hb : b.length < 2 ^ 32 := h b List.mem_cons_self
    have hrest := ih fun b' hb' => h b' (List.mem_cons_of_mem b hb')
    rw [List.flatMap_cons, List.append_assoc, deframe_frame_append hb, hrest]
    rfl

@[simp] theorem deframe_nil : deframe [] = ([], []) := rfl

/-- Frames are recovered exactly, with nothing left over. -/
theorem deframe_frames (bodies : List (List UInt8)) (h : ∀ b ∈ bodies, b.length < 2 ^ 32) :
    deframe (bodies.flatMap frame) = (bodies, []) := by
  simpa using deframe_frames_append bodies h []

/-! ## Any stream

A stream is the frames that the reader finds, then a rest in which it finds none. So appending to a
stream never takes a frame away, and adds whole frames only if there is no rest.
-/

/-- What the reader finds, written again, is the stream. -/
theorem deframe_sound (s : List UInt8) :
    (deframe s).1.flatMap frame ++ (deframe s).2 = s ∧ ∀ b ∈ (deframe s).1, b.length < 2 ^ 32 := by
  suffices ∀ fuel (s : List UInt8),
      (deframeFuel fuel s).1.flatMap frame ++ (deframeFuel fuel s).2 = s ∧
        ∀ b ∈ (deframeFuel fuel s).1, b.length < 2 ^ 32 from this s.length s
  intro fuel
  induction fuel with
  | zero =>
    intro s
    simp [deframeFuel]
  | succ fuel ih =>
    intro s
    simp only [deframeFuel]
    split
    · rename_i h
      obtain ⟨hjoin, hsize⟩ := ih (s.drop (4 + ofBe (s.take 4)))
      -- by the guard of the reader, length and body are in the stream
      have hfour : (s.take 4).length = 4 := by
        rw [List.length_take]
        omega
      have hbody : ((s.drop 4).take (ofBe (s.take 4))).length = ofBe (s.take 4) := by
        rw [List.length_take, List.length_drop]
        omega
      have hlt : ofBe (s.take 4) < 2 ^ 32 := by
        have hbound := ofBe_lt (s.take 4)
        rw [hfour] at hbound
        omega
      constructor
      · have hbytes : beBytes 4 (ofBe (s.take 4)) = s.take 4 := by
          have hround := beBytes_ofBe (s.take 4)
          rwa [hfour] at hround
        rw [List.flatMap_cons, List.append_assoc, hjoin, frame, hbody, hbytes, List.append_assoc,
          ← List.drop_drop, List.take_append_drop, List.take_append_drop]
      · rintro b (_ | ⟨_, hb⟩)
        · rw [hbody]
          exact hlt
        · exact hsize b hb
    · simp

/-- Behind the frames of `s` the reader goes on with the rest of `s` and whatever is appended. -/
theorem deframe_append (s t : List UInt8) :
    deframe (s ++ t) =
      ((deframe s).1 ++ (deframe ((deframe s).2 ++ t)).1, (deframe ((deframe s).2 ++ t)).2) := by
  obtain ⟨hjoin, hsize⟩ := deframe_sound s
  -- write the stream as its frames and its rest, and read on behind the frames
  conv_lhs => rw [← hjoin, List.append_assoc]
  exact deframe_frames_append _ hsize _

/-- A frame that was found stays found. -/
theorem deframe_prefix_append (s t : List UInt8) : (deframe s).1 <+: (deframe (s ++ t)).1 := by
  rw [deframe_append]
  exact List.prefix_append _ _

/-- Behind whole frames, an appended frame is found. -/
theorem deframe_append_frame {s : List UInt8} (h : (deframe s).2 = []) {body : List UInt8}
    (hbody : body.length < 2 ^ 32) : deframe (s ++ frame body) = ((deframe s).1 ++ [body], []) := by
  have hone : deframe (frame body) = ([body], []) := by
    simpa using deframe_frame_append hbody []
  rw [deframe_append, h, List.nil_append, hone]

/-! ## Cut sequences of frames -/

/-- The bodies whose frames end within the first `n` bytes of the sequence of frames. -/
def completeFrames : List (List UInt8) → ℕ → List (List UInt8)
  | [], _ => []
  | b :: bodies, n =>
    if 4 + b.length ≤ n then b :: completeFrames bodies (n - (4 + b.length)) else []

/-- A cut behind a whole frame leaves that frame and a cut of the rest. -/
theorem exists_of_fit {b written rest tail : List UInt8} (h : written ++ rest = frame b ++ tail)
    (hfit : 4 + b.length ≤ written.length) :
    ∃ more, written = frame b ++ more ∧ more ++ rest = tail := by
  refine ⟨written.drop (frame b).length, ?_, ?_⟩
  · have htake := congrArg (List.take (frame b).length) h
    rw [List.take_append_of_le_length (by rw [length_frame]; exact hfit), List.take_left] at htake
    conv_lhs => rw [← List.take_append_drop (frame b).length written, htake]
  · have hdrop := congrArg (List.drop (frame b).length) h
    rw [List.drop_append_of_le_length (by rw [length_frame]; exact hfit), List.drop_left] at hdrop
    exact hdrop

/-- The reader finds exactly the complete frames of a cut sequence. -/
theorem deframe_of_prefix {bodies : List (List UInt8)} (hsize : ∀ b ∈ bodies, b.length < 2 ^ 32)
    {written rest : List UInt8} (h : written ++ rest = bodies.flatMap frame) :
    (deframe written).1 = completeFrames bodies written.length := by
  induction bodies generalizing written with
  | nil =>
    obtain rfl : written = [] := (List.append_eq_nil_iff.mp h).1
    rfl
  | cons b bodies ih =>
    have hb : b.length < 2 ^ 32 := hsize b List.mem_cons_self
    rw [List.flatMap_cons] at h
    rw [completeFrames]
    by_cases hfit : 4 + b.length ≤ written.length
    · -- the whole frame is there
      obtain ⟨more, rfl, hrest⟩ := exists_of_fit h hfit
      have hmore := ih (fun b' hb' => hsize b' (List.mem_cons_of_mem b hb')) hrest
      rw [if_pos hfit, deframe_frame_append hb, hmore, List.length_append, length_frame,
        Nat.add_sub_cancel_left]
    · -- the frame is cut in its length or in its body
      rw [if_neg hfit, deframe_of_short]
      by_cases hshort : written.length < 4
      · exact Or.inr hshort
      · left
        have htake : written.take 4 = beBytes 4 b.length := by
          have h4 := congrArg (List.take 4) h
          rw [frame, List.append_assoc, List.take_left' (length_beBytes 4 _),
            List.take_append_of_le_length (by omega)] at h4
          exact h4
        rw [htake, ofBe_beBytes_of_lt (by norm_num at hb ⊢; exact hb)]
        omega

/-- A cut sequence of frames is its complete frames and a part of the next one. What is cut off ends
that one and holds the others. -/
theorem exists_torn {bodies : List (List UInt8)} {written rest : List UInt8}
    (h : written ++ rest = bodies.flatMap frame) :
    ∃ torn lost, bodies = completeFrames bodies written.length ++ lost ∧
      written = (completeFrames bodies written.length).flatMap frame ++ torn ∧
      torn ++ rest = lost.flatMap frame ∧
      ∀ b, lost.head? = some b → torn.length < (frame b).length := by
  induction bodies generalizing written with
  | nil =>
    obtain ⟨rfl, rfl⟩ := List.append_eq_nil_iff.mp h
    exact ⟨[], [], rfl, rfl, rfl, by simp⟩
  | cons b bodies ih =>
    have hcons := h
    rw [List.flatMap_cons] at h
    rw [completeFrames]
    -- a frame that fits is complete; the first that does not is torn, and none behind it is begun
    by_cases hfit : 4 + b.length ≤ written.length
    · obtain ⟨more, rfl, hrest⟩ := exists_of_fit h hfit
      obtain ⟨torn, lost, hsplit, hwritten, htorn, hshort⟩ := ih hrest
      rw [if_pos hfit, List.length_append, length_frame, Nat.add_sub_cancel_left]
      refine ⟨torn, lost, congrArg (b :: ·) hsplit, ?_, htorn, hshort⟩
      rw [List.flatMap_cons, List.append_assoc, ← hwritten]
    · rw [if_neg hfit]
      refine ⟨written, b :: bodies, rfl, rfl, hcons, ?_⟩
      rintro _ ⟨⟩
      rw [length_frame]
      omega

/-- So all but the first of the bodies that are not complete lie behind the cut. -/
theorem length_behind_torn {lost : List (List UInt8)} {torn rest : List UInt8}
    (h : torn ++ rest = lost.flatMap frame)
    (hshort : ∀ b, lost.head? = some b → torn.length < (frame b).length) :
    ((lost.drop 1).flatMap frame).length ≤ rest.length := by
  cases lost with
  | nil => exact Nat.zero_le _
  | cons b lost =>
    have hlength := congrArg List.length h
    have hb := hshort b rfl
    rw [List.flatMap_cons, List.length_append, List.length_append] at hlength
    rw [List.drop_one, List.tail_cons]
    omega

end CiliumMini
