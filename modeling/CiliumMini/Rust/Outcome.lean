import Mathlib.Tactic.Basic
import Mathlib.Data.List.Basic
import Mathlib.Data.Vector.Basic

/-!
# Panicking computations with errors and mutable state

A Rust function that returns `Result<α, ε>` ends in one of three ways: a value, an error, or a
panic. `Outcome ε α` is that result and `Exec σ ε α` adds one mutable place of type `σ`. An error
keeps what was already written to the place, as an early return through `?` does.

Every operation that can panic (an index, a slice, a checked addition, an `unwrap`) is a function
into `Outcome`, so "no panic" is a statement about the translated code. `Outcome.Spec` and
`Exec.Spec` are total: a panic satisfies no specification.
-/

namespace CiliumMini

/-- The three ways a call ends. -/
inductive Outcome (ε α : Type) where
  | ok (a : α)
  | err (e : ε)
  | panic
deriving DecidableEq, Repr

namespace Outcome

variable {ε α β : Type}

/-- Run `f` on the value; an error or a panic ends the computation. -/
def bind : Outcome ε α → (α → Outcome ε β) → Outcome ε β
  | ok a, f => f a
  | err e, _ => err e
  | panic, _ => panic

instance : Monad (Outcome ε) where
  pure := ok
  bind := bind

@[simp] theorem pure_eq (a : α) : (pure a : Outcome ε α) = ok a := rfl

@[simp] theorem ok_bind (a : α) (f : α → Outcome ε β) : (ok a >>= f) = f a := rfl

@[simp] theorem err_bind (e : ε) (f : α → Outcome ε β) : (err e >>= f) = err e := rfl

/-- Steps can be grouped in any way. -/
theorem bind_assoc {γ : Type} (m : Outcome ε α) (f : α → Outcome ε β) (g : β → Outcome ε γ) :
    (m >>= f >>= g) = m >>= fun a => f a >>= g := by
  cases m <;> rfl

/-- A sequence returns a value when both parts do. -/
theorem bind_eq_ok {m : Outcome ε α} {f : α → Outcome ε β} {b : β} :
    (m >>= f) = ok b ↔ ∃ a, m = ok a ∧ f a = ok b := by
  cases m with
  | ok a => simp
  | err e => simp
  | panic => simp [Bind.bind, bind]

/-- Total specification: a value satisfies `Q`, an error satisfies `E`, a panic satisfies nothing.
-/
def Spec (m : Outcome ε α) (Q : α → Prop) (E : ε → Prop) : Prop :=
  match m with
  | ok a => Q a
  | err e => E e
  | panic => False

section Spec

variable {Q : α → Prop} {E : ε → Prop}

@[simp] theorem spec_ok (a : α) : (ok a : Outcome ε α).Spec Q E ↔ Q a := Iff.rfl

@[simp] theorem spec_err (e : ε) : (err e : Outcome ε α).Spec Q E ↔ E e := Iff.rfl

@[simp] theorem spec_panic : (panic : Outcome ε α).Spec Q E ↔ False := Iff.rfl

/-- What a sequence guarantees is what its first step guarantees of the second. -/
@[simp] theorem spec_bind (m : Outcome ε α) (f : α → Outcome ε β) {Q : β → Prop} :
    (m >>= f).Spec Q E ↔ m.Spec (fun a => (f a).Spec Q E) E := by
  cases m <;> exact Iff.rfl

/-- A weaker guarantee. -/
theorem Spec.mono {m : Outcome ε α} {Q' : α → Prop} {E' : ε → Prop} (h : m.Spec Q E)
    (hQ : ∀ a, Q a → Q' a) (hE : ∀ e, E e → E' e) : m.Spec Q' E' := by
  cases m with
  | ok a => exact hQ a h
  | err e => exact hE e h
  | panic => exact h

/-- A guarantee rules out a panic. -/
theorem Spec.ne_panic {m : Outcome ε α} (h : m.Spec Q E) : m ≠ panic := by
  rintro rfl
  exact h

/-- What is guaranteed of a result. -/
theorem Spec.of_ok {m : Outcome ε α} (h : m.Spec Q E) {a : α} (hm : m = ok a) : Q a := by
  subst hm
  exact h

/-- What is guaranteed of an error. -/
theorem Spec.of_err {m : Outcome ε α} (h : m.Spec Q E) {e : ε} (hm : m = err e) : E e := by
  subst hm
  exact h

end Spec

end Outcome

/-! ## Operations that can panic -/

section Checked

variable {ε α : Type}

/-- A `&[u8]`. Rust keeps every slice at `isize::MAX` bytes or less. -/
structure U8Slice where
  bytes : List UInt8
  length_lt : bytes.length < 2 ^ 63

/-- `return Err(e)` under a condition. -/
def failIf (c : Prop) [Decidable c] (e : ε) : Outcome ε Unit :=
  if c then .err e else .ok ()

/-- `a + b` on `usize` (64 bits); an overflow panics. -/
def usizeAdd (a b : ℕ) : Outcome ε ℕ :=
  if a + b < 2 ^ 64 then .ok (a + b) else .panic

/-- `l[i]`. -/
def index (l : List α) (i : ℕ) : Outcome ε α :=
  match l[i]? with
  | some a => .ok a
  | none => .panic

/-- `&l[i..j]`. -/
def slice (l : List α) (i j : ℕ) : Outcome ε (List α) :=
  if i ≤ j ∧ j ≤ l.length then .ok ((l.drop i).take (j - i)) else .panic

/-- `&l[i..]`. -/
def sliceFrom (l : List α) (i : ℕ) : Outcome ε (List α) :=
  if i ≤ l.length then .ok (l.drop i) else .panic

/-- `&l[..j]`. -/
def sliceTo (l : List α) (j : ℕ) : Outcome ε (List α) :=
  if j ≤ l.length then .ok (l.take j) else .panic

/-- `dst.copy_from_slice(src)` into an array of `n` elements; a length mismatch panics. -/
def copyFromSlice (n : ℕ) (src : List α) : Outcome ε (List.Vector α n) :=
  if h : src.length = n then .ok ⟨src, h⟩ else .panic

/-- `dst[i] = a`. -/
def storeAt {n : ℕ} (dst : List.Vector α n) (i : ℕ) (a : α) : Outcome ε (List.Vector α n) :=
  if h : i < n then .ok (dst.set ⟨i, h⟩ a) else .panic

/-- `a + b` on `u16`; an overflow panics. -/
def u16Add (a b : UInt16) : Outcome ε UInt16 :=
  if a.toNat + b.toNat < 2 ^ 16 then .ok (a + b) else .panic

/-- `o.unwrap()`. -/
def unwrap (o : Option α) : Outcome ε α :=
  match o with
  | some a => .ok a
  | none => .panic

variable {Q : α → Prop} {E : ε → Prop}

theorem failIf_pos {c : Prop} [Decidable c] (h : c) (e : ε) : failIf c e = .err e := if_pos h

theorem failIf_neg {c : Prop} [Decidable c] (h : ¬ c) (e : ε) : failIf c e = .ok () := if_neg h

/-- What a check guarantees. -/
@[simp] theorem failIf_spec {c : Prop} [Decidable c] {e : ε} {Q : Unit → Prop} :
    (failIf c e).Spec Q E ↔ (c → E e) ∧ (¬ c → Q ()) := by
  by_cases h : c <;> simp [failIf, h]

@[simp] theorem failIf_eq_ok {c : Prop} [Decidable c] {e : ε} {u : Unit} :
    failIf c e = .ok u ↔ ¬ c := by
  by_cases h : c <;> simp [failIf, h]

theorem usizeAdd_eq {a b : ℕ} (h : a + b < 2 ^ 64) : (usizeAdd a b : Outcome ε ℕ) = .ok (a + b) :=
  if_pos h

/-- A sum that did not overflow. -/
theorem eq_of_usizeAdd {a b c : ℕ} (h : (usizeAdd a b : Outcome ε ℕ) = .ok c) : c = a + b := by
  unfold usizeAdd at h
  split at h
  · exact (Outcome.ok.inj h).symm
  · exact absurd h (by simp)

theorem index_eq {l : List α} {i : ℕ} (h : i < l.length) :
    (index l i : Outcome ε α) = .ok l[i] := by
  simp [index, List.getElem?_eq_getElem h]

/-- An index that did not panic was inside. -/
theorem index_ok {l : List α} {i : ℕ} {a : α} (h : (index l i : Outcome ε α) = .ok a) :
    l[i]? = some a := by
  unfold index at h
  split at h
  · rename_i b hb
    rw [hb, Outcome.ok.inj h]
  · exact absurd h (by simp)

theorem slice_eq {l : List α} {i j : ℕ} (hij : i ≤ j) (hj : j ≤ l.length) :
    (slice l i j : Outcome ε (List α)) = .ok ((l.drop i).take (j - i)) :=
  if_pos ⟨hij, hj⟩

theorem sliceFrom_eq {l : List α} {i : ℕ} (h : i ≤ l.length) :
    (sliceFrom l i : Outcome ε (List α)) = .ok (l.drop i) := if_pos h

theorem sliceTo_eq {l : List α} {j : ℕ} (h : j ≤ l.length) :
    (sliceTo l j : Outcome ε (List α)) = .ok (l.take j) := if_pos h

theorem copyFromSlice_eq {n : ℕ} {src : List α} (h : src.length = n) :
    (copyFromSlice n src : Outcome ε _) = .ok ⟨src, h⟩ := dif_pos h

end Checked

/-! ## Computations with one mutable place -/

/-- A computation over a mutable place of type `σ`. -/
structure Exec (σ ε α : Type) where
  run : σ → Outcome ε α × σ

namespace Exec

variable {σ τ ε α β : Type}

instance : Monad (Exec σ ε) where
  pure a := ⟨fun s => (.ok a, s)⟩
  bind m f := ⟨fun s =>
    match m.run s with
    | (.ok a, s') => (f a).run s'
    | (.err e, s') => (.err e, s')
    | (.panic, s') => (.panic, s')⟩

/-- A computation that leaves the place alone. -/
def lift (m : Outcome ε α) : Exec σ ε α := ⟨fun s => (m, s)⟩

/-- Update the place. -/
def modify (f : σ → σ) : Exec σ ε Unit := ⟨fun s => (.ok (), f s)⟩

/-- Read the place. -/
def get : Exec σ ε σ := ⟨fun s => (.ok s, s)⟩

/-- Pass a mutable borrow of one component of the place to `m`. -/
def zoom (read : σ → τ) (write : τ → σ → σ) (m : Exec τ ε α) : Exec σ ε α :=
  ⟨fun s => ((m.run (read s)).1, write (m.run (read s)).2 s)⟩

/-- `let _ = m`: an error is dropped, a panic is not. -/
def ignore {ε' : Type} (m : Exec σ ε α) : Exec σ ε' Unit :=
  ⟨fun s =>
    match m.run s with
    | (.panic, s') => (.panic, s')
    | (_, s') => (.ok (), s')⟩

/-- Turn an error into a value; what was written before stays written. -/
def handleErr (m : Exec σ ε α) (f : ε → α) : Exec σ ε α :=
  ⟨fun s =>
    match m.run s with
    | (.err e, s') => (.ok (f e), s')
    | r => r⟩

@[simp] theorem run_pure (a : α) (s : σ) : (pure a : Exec σ ε α).run s = (.ok a, s) := rfl

@[simp] theorem run_lift (m : Outcome ε α) (s : σ) :
    (lift m : Exec σ ε α).run s = (m, s) := rfl

@[simp] theorem run_modify (f : σ → σ) (s : σ) :
    (modify f : Exec σ ε Unit).run s = (.ok (), f s) := rfl

@[simp] theorem run_get (s : σ) : (get : Exec σ ε σ).run s = (.ok s, s) := rfl

/-- A step on a part of the state leaves the rest. -/
@[simp] theorem run_zoom (read : σ → τ) (write : τ → σ → σ) (m : Exec τ ε α) (s : σ) :
    (zoom read write m).run s = ((m.run (read s)).1, write (m.run (read s)).2 s) := rfl

/-- A run of which only the outcome is known. -/
theorem run_eq_of_fst {m : Exec σ ε α} {s : σ} {out : Outcome ε α} (h : (m.run s).1 = out) :
    m.run s = (out, (m.run s).2) := by
  rw [← h]

/-- `let _ =` drops a result or an error. -/
theorem run_ignore {ε' : Type} {m : Exec σ ε α} {s s' : σ} {out : Outcome ε α} (hout : out ≠ .panic)
    (h : m.run s = (out, s')) : (ignore m : Exec σ ε' Unit).run s = (.ok (), s') := by
  simp only [ignore, h]

/-- An error or a panic ends a sequence; the state so far stays. -/
theorem run_bind (m : Exec σ ε α) (f : α → Exec σ ε β) (s : σ) :
    (m >>= f).run s =
      match m.run s with
      | (.ok a, s') => (f a).run s'
      | (.err e, s') => (.err e, s')
      | (.panic, s') => (.panic, s') := rfl

/-- Behind a result, the sequence goes on. -/
theorem run_bind_ok {m : Exec σ ε α} {s s' : σ} {a : α} (h : m.run s = (.ok a, s'))
    (f : α → Exec σ ε β) : (m >>= f).run s = (f a).run s' := by
  rw [run_bind, h]

/-- Behind an error, it does not. -/
theorem run_bind_err {m : Exec σ ε α} {s s' : σ} {e : ε} (h : m.run s = (.err e, s'))
    (f : α → Exec σ ε β) : (m >>= f).run s = (.err e, s') := by
  rw [run_bind, h]

theorem run_lift_bind_ok {m : Outcome ε α} {a : α} (h : m = .ok a) (f : α → Exec σ ε β) (s : σ) :
    (lift m >>= f).run s = (f a).run s := by
  subst h
  rfl

theorem run_lift_bind_err {m : Outcome ε α} {e : ε} (h : m = .err e) (f : α → Exec σ ε β) (s : σ) :
    (lift m >>= f).run s = (.err e, s) := by
  subst h
  rfl

@[simp] theorem run_modify_bind (g : σ → σ) (f : Unit → Exec σ ε β) (s : σ) :
    (modify g >>= f).run s = (f ()).run (g s) := rfl

/-- A completed sequence is a completed first part followed by a completed second part. -/
theorem run_bind_eq_ok {m : Exec σ ε α} {f : α → Exec σ ε β} {s t : σ} {b : β} :
    (m >>= f).run s = (.ok b, t) ↔ ∃ a s', m.run s = (.ok a, s') ∧ (f a).run s' = (.ok b, t) := by
  rw [run_bind]
  rcases m.run s with ⟨_ | _ | _, s'⟩ <;> simp

/-- A sequence has a result if its pure first step and then its rest have one. -/
theorem run_lift_bind_eq_ok {m : Outcome ε α} {f : α → Exec σ ε β} {s t : σ} {b : β} :
    (lift m >>= f).run s = (.ok b, t) ↔ ∃ a, m = .ok a ∧ (f a).run s = (.ok b, t) := by
  cases m <;> simp [run_bind]

/-- Total specification of a result together with the final contents of the place. -/
def Post (r : Outcome ε α × σ) (Q : α → σ → Prop) (E : ε → σ → Prop) : Prop :=
  r.1.Spec (fun a => Q a r.2) (fun e => E e r.2)

theorem post_ok {a : α} {t : σ} {Q : α → σ → Prop} {E : ε → σ → Prop} :
    Post (.ok a, t) Q E ↔ Q a t := Iff.rfl

/-- Weaker conditions. -/
theorem Post.mono {r : Outcome ε α × σ} {Q Q' : α → σ → Prop} {E E' : ε → σ → Prop}
    (h : Post r Q E) (hQ : ∀ a t, Q a t → Q' a t) (hE : ∀ e t, E e t → E' e t) : Post r Q' E' :=
  Outcome.Spec.mono h (fun a => hQ a _) (fun e => hE e _)

/-- Total specification of a computation started in `s`. -/
def Spec (m : Exec σ ε α) (s : σ) (Q : α → σ → Prop) (E : ε → σ → Prop) : Prop :=
  Post (m.run s) Q E

section Spec

variable {s : σ} {Q : α → σ → Prop} {E : ε → σ → Prop}

@[simp] theorem spec_lift (m : Outcome ε α) :
    (lift m : Exec σ ε α).Spec s Q E ↔ m.Spec (fun a => Q a s) (fun e => E e s) := Iff.rfl

/-- A sequence, step by step. -/
@[simp] theorem spec_bind (m : Exec σ ε α) (f : α → Exec σ ε β) {Q : β → σ → Prop} :
    (m >>= f).Spec s Q E ↔ m.Spec s (fun a s' => (f a).Spec s' Q E) E := by
  simp only [Spec, Post, run_bind]
  rcases m.run s with ⟨_ | _ | _, s'⟩ <;> simp

theorem Spec.ne_panic {m : Exec σ ε α} (h : m.Spec s Q E) : (m.run s).1 ≠ .panic :=
  Outcome.Spec.ne_panic h

theorem Spec.of_ok {m : Exec σ ε α} (h : m.Spec s Q E) {a : α} {t : σ} (hm : m.run s = (.ok a, t)) :
    Q a t := by
  unfold Spec at h
  rw [hm] at h
  exact h

theorem Spec.of_err {m : Exec σ ε α} (h : m.Spec s Q E) {e : ε} {t : σ}
    (hm : m.run s = (.err e, t)) : E e t := by
  unfold Spec at h
  rw [hm] at h
  exact h

end Spec

end Exec

end CiliumMini
