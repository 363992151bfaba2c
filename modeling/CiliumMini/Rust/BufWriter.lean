import Mathlib.Tactic.Basic
import Mathlib.Data.List.Basic

/-!
# Buffered writers

`std::io::BufWriter` of capacity `cap` over a file opened for appending. A slice that does not fit
in the free space makes the writer hand its whole buffer to the file first. Then a slice of at least
`cap` bytes goes straight through, and any other slice is buffered.

The two moves are separate (`flushBuf`, `put`), because a process can end between them. Whatever the
moves, file and buffer together are all that was written, in order (`contents_writeAll`). A write to
the file can also fail behind some of its bytes (`failFlush`, `failPut`).
-/

namespace CiliumMini

/-- What is in the file and what is only in the buffer. -/
structure BufWriter where
  file : List UInt8
  buf : List UInt8

namespace BufWriter

/-- Everything written so far. -/
def contents (w : BufWriter) : List UInt8 := w.file ++ w.buf

/-- Hand the whole buffer to the file. -/
def flushBuf (w : BufWriter) : BufWriter := ⟨w.file ++ w.buf, []⟩

/-- The slice fits in the free space, or the buffer is empty. -/
def Ready (cap : ℕ) (w : BufWriter) (s : List UInt8) : Prop :=
  w.buf.length + s.length ≤ cap ∨ w.buf = []

instance (cap : ℕ) (w : BufWriter) (s : List UInt8) : Decidable (w.Ready cap s) :=
  inferInstanceAs (Decidable (_ ∨ _))

/-- Take a slice: straight to the file if it is as long as the buffer can be, else into the buffer.
-/
def put (cap : ℕ) (w : BufWriter) (s : List UInt8) : BufWriter :=
  if cap ≤ s.length then ⟨w.file ++ s, w.buf⟩ else ⟨w.file, w.buf ++ s⟩

/-- `write_all`, when no write to the file fails. -/
def writeAll (cap : ℕ) (w : BufWriter) (s : List UInt8) : BufWriter :=
  if w.Ready cap s then w.put cap s else w.flushBuf.put cap s

/-- A flush that fails behind `n` bytes: these are in the file, the others stay in the buffer. -/
def failFlush (n : ℕ) (w : BufWriter) : BufWriter := ⟨w.file ++ w.buf.take n, w.buf.drop n⟩

/-- A slice that goes straight through fails behind `n` bytes. -/
def failPut (n : ℕ) (w : BufWriter) (s : List UInt8) : BufWriter := ⟨w.file ++ s.take n, w.buf⟩

/-- A flush only moves bytes from the buffer to the file. -/
@[simp] theorem contents_flushBuf (w : BufWriter) : w.flushBuf.contents = w.contents := by
  simp [flushBuf, contents]

theorem ready_flushBuf (cap : ℕ) (w : BufWriter) (s : List UInt8) : w.flushBuf.Ready cap s :=
  Or.inr rfl

/-- A slice that passes the buffer finds it empty. -/
theorem buf_eq_nil {cap : ℕ} {w : BufWriter} {s : List UInt8} (h : w.Ready cap s)
    (hlong : cap ≤ s.length) : w.buf = [] := by
  rcases h with hfit | hempty
  · exact List.length_eq_zero_iff.mp (by omega)
  · exact hempty

/-- A slice goes behind everything else. -/
theorem contents_put {cap : ℕ} {w : BufWriter} {s : List UInt8} (h : w.Ready cap s) :
    (w.put cap s).contents = w.contents ++ s := by
  unfold put
  by_cases hlong : cap ≤ s.length
  · rw [if_pos hlong]
    simp [contents, buf_eq_nil h hlong]
  · rw [if_neg hlong]
    simp [contents]

/-- `write_all` puts the slice behind everything else, whether it flushes or not. -/
theorem contents_writeAll (cap : ℕ) (w : BufWriter) (s : List UInt8) :
    (w.writeAll cap s).contents = w.contents ++ s := by
  unfold writeAll
  by_cases h : w.Ready cap s
  · rw [if_pos h, contents_put h]
  · rw [if_neg h, contents_put (ready_flushBuf cap w s), contents_flushBuf]

end BufWriter

end CiliumMini
