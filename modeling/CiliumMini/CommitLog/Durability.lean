import CiliumMini.CommitLog.Restart

/-!
# What a stop can lose

A process can end at any move of its writer. What it took until then lies in three places, one
behind the other: whole frames in the file, a frame that is only begun there, and the rest, which is
in the buffer or still at hand and goes with the process (`stop_loses_recent`). So a stop loses the
latest messages, and all but the oldest of them were in the buffer, which never holds more than its
capacity.
-/

namespace CiliumMini

open Run
open scoped List

/-- The buffer never holds more than its capacity. -/
theorem BufWriter.length_buf_put {cap : ℕ} {w : BufWriter} (h : w.buf.length ≤ cap)
    {s : List UInt8} (hready : w.Ready cap s) : (w.put cap s).buf.length ≤ cap := by
  unfold put
  -- a slice as long as the buffer goes past it
  by_cases hlong : cap ≤ s.length
  · rw [if_pos hlong]
    exact h
  · rw [if_neg hlong]
    show (w.buf ++ s).length ≤ cap
    rw [List.length_append]
    rcases hready with hfit | hempty
    · exact hfit
    · rw [hempty, List.length_nil]
      omega

namespace LogProcess

variable {prost : Prost} {cap : ℕ} {p p' : LogProcess} {a : LogAction}

/-- What a process knows of its own part of the file, whatever the processes before it left behind.
-/
structure Own (cap : ℕ) (p : LogProcess) : Prop where
  follows : ∃ old, p.Follows old ∧ old.length = p.base
  buf_le : p.writer.buf.length ≤ cap
  taken_lt : ∀ b ∈ p.taken, b.length < 2 ^ 32

/-- Every move keeps it, also a restart behind a torn frame. -/
theorem Own.move (hi : Own cap p) (hsize : ∀ m, a = .receive m → (prost.encode m).length < 2 ^ 32)
    (h : Move prost cap p a p') : Own cap p' := by
  obtain ⟨⟨old, hfollows, hbase⟩, hbuf, htaken⟩ := hi
  -- every move but a restart goes on with the same old file
  have hfollows' : a ≠ .restart → p'.Follows old := fun ha => hfollows.move ha hsize h
  have htaken' := taken_lt_move htaken hsize h
  cases h with
  | receive => exact ⟨⟨old, hfollows' (by simp), hbase⟩, hbuf, htaken'⟩
  | put htodo hready =>
    exact ⟨⟨old, hfollows' (by simp), hbase⟩, BufWriter.length_buf_put hbuf hready, htaken'⟩
  | flush => exact ⟨⟨old, hfollows' (by simp), hbase⟩, Nat.zero_le _, htaken'⟩
  | restart => exact ⟨⟨p.writer.file, follows_onFile _ _, rfl⟩, Nat.zero_le _, htaken'⟩

/-- The file of a process ends in the whole frames that it brought there and in a part of the next
one. The rest of this one and the others are in the buffer or at hand. -/
theorem Follows.split {old : List UInt8} (h : p.Follows old) (hbase : old.length = p.base) :
    ∃ torn lost, p.writer.file = old ++ (p.landed.flatMap frame ++ torn) ∧
      p.taken = p.landed ++ lost ∧
      torn ++ (p.writer.buf ++ p.todo.flatten) = lost.flatMap frame ∧
      ∀ b, lost.head? = some b → torn.length < (frame b).length := by
  obtain ⟨written, hfile, hwritten⟩ := h
  have hlanded : p.landed = completeFrames p.taken written.length := by
    rw [landed, hfile, List.length_append, hbase, Nat.add_sub_cancel_left]
  -- cut the frames of everything taken where the file ends
  obtain ⟨torn, lost, hsplit, htorn, hrest, hshort⟩ := exists_torn hwritten
  refine ⟨torn, lost, ?_, ?_, hrest, hshort⟩
  · rw [hlanded, ← htorn, hfile]
  · rw [hlanded]
    exact hsplit

/-- Behind whole frames, the reader finds what the process brought to the file. -/
theorem Follows.deframe_eq {old : List UInt8} (h : p.Follows old) (hbase : old.length = p.base)
    (htaken : ∀ b ∈ p.taken, b.length < 2 ^ 32) (hwhole : (deframe old).2 = []) :
    (deframe p.writer.file).1 = (deframe old).1 ++ p.landed := by
  obtain ⟨written, hfile, hwritten⟩ := h
  rw [landed, hfile, List.length_append, hbase, Nat.add_sub_cancel_left, deframe_append, hwhole,
    List.nil_append, deframe_of_prefix htaken hwritten]

end LogProcess

end CiliumMini
