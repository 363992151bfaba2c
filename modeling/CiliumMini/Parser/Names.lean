import CiliumMini.Parser.Defs

/-!
# The two name walkers

`skip_name` and `parse_qname` walk a length-prefixed name. For each loop this file states what one
iteration does (`skipNameLoop_succ`, `parseQnameLoop_succ`) and derives, by induction on the fuel,
that the loop ends without a panic and which results it can have.

A Rust slice holds at most `isize::MAX` bytes, so `payload.length < 2 ^ 63` holds of every slice.
-/

namespace CiliumMini

open Exec

/-- The errors the wire format itself can cause. -/
def DnsParseError.IsWire : DnsParseError → Prop
  | .unsupportedAddressFamily _ | .formatError => False
  | _ => True

/-- The mask test of `skip_name` is a comparison: both top bits are set from 192 on. -/
theorem compressionMask_iff (b : UInt8) : b &&& 0xC0 = 0xC0 ↔ 192 ≤ b.toNat := by
  have h : ∀ n : Fin 256, (UInt8.ofNat n &&& 0xC0 = 0xC0) ↔ 192 ≤ n.val := by
    decide +kernel
  have hb := h ⟨b.toNat, b.toNat_lt⟩
  simpa using hb

section SkipName

variable {payload : List UInt8} {fuel offset : ℕ}

/-- Past the end of the payload the walk reports a truncated name. -/
theorem skipNameLoop_end (h : payload.length ≤ offset) :
    skipNameLoop payload (fuel + 1) offset = .err .unexpectedEndOfPayload := by
  rw [skipNameLoop, if_neg (by omega)]

/-- One iteration of `skip_name` at a byte inside the payload. -/
theorem skipNameLoop_succ (hlen : payload.length < 2 ^ 63) (h : offset < payload.length) :
    skipNameLoop payload (fuel + 1) offset =
      if 192 ≤ payload[offset].toNat then
        if offset + 2 > payload.length then .err .unexpectedEndOfPayload else .ok (offset + 2)
      else if payload[offset].toNat = 0 then .ok (offset + 1)
      else if payload[offset].toNat ≤ 63 then
        if offset + 1 + payload[offset].toNat > payload.length then .err .unexpectedEndOfPayload
        else skipNameLoop payload fuel (offset + 1 + payload[offset].toNat)
      else .err (.invalidLabelLength payload[offset].toNat) := by
  have hb := payload[offset].toNat_lt
  rw [skipNameLoop, if_pos h, index_eq h]
  simp only [Outcome.ok_bind, compressionMask_iff]
  split
  · -- a compression pointer ends the name
    rw [usizeAdd_eq (by omega), Outcome.ok_bind]
    by_cases hend : offset + 2 > payload.length
    · rw [failIf_pos hend, if_pos hend, Outcome.err_bind]
    · rw [failIf_neg hend, if_neg hend, Outcome.ok_bind]
  · have hzero : payload[offset] = 0 ↔ payload[offset].toNat = 0 := by
      rw [← UInt8.toNat_inj]; rfl
    have hle : payload[offset] ≤ 63 ↔ payload[offset].toNat ≤ 63 := UInt8.le_iff_toNat_le
    simp only [hzero, hle]
    split
    · rw [usizeAdd_eq (by omega)]
    · split
      · -- a label; no byte is longer than the payload can be, so neither addition overflows
        rw [usizeAdd_eq (by omega), Outcome.ok_bind, usizeAdd_eq (by omega), Outcome.ok_bind]
        by_cases hend : offset + 1 + payload[offset].toNat > payload.length
        · rw [failIf_pos hend, if_pos hend, Outcome.err_bind]
        · rw [failIf_neg hend, if_neg hend, Outcome.ok_bind]
      · rfl

/-- What an iteration of a completed walk saw: a pointer, the zero byte, or a label with the rest of
the name behind it. -/
theorem skipNameLoop_succ_ok {n : ℕ} (h : skipNameLoop payload (fuel + 1) offset = .ok n) :
    ∃ hoff : offset < payload.length,
      (192 ≤ payload[offset].toNat ∧ offset + 1 < payload.length ∧ n = offset + 2) ∨
      (payload[offset] = 0 ∧ n = offset + 1) ∨
      (0 < payload[offset].toNat ∧ payload[offset].toNat ≤ 63 ∧
        offset + 1 + payload[offset].toNat ≤ payload.length ∧
        skipNameLoop payload fuel (offset + 1 + payload[offset].toNat) = .ok n) := by
  rw [skipNameLoop] at h
  split at h
  · rename_i hoff
    refine ⟨hoff, ?_⟩
    rw [index_eq hoff, Outcome.ok_bind] at h
    simp only [compressionMask_iff] at h
    split at h
    · rename_i hptr
      left
      obtain ⟨next, hnext, hthen⟩ := Outcome.bind_eq_ok.mp h
      obtain ⟨⟨⟩, hfit, hend⟩ := Outcome.bind_eq_ok.mp hthen
      rw [failIf_eq_ok, eq_of_usizeAdd hnext] at hfit
      exact ⟨hptr, by omega, eq_of_usizeAdd hend⟩
    · right
      split at h
      · rename_i hzero
        exact Or.inl ⟨hzero, eq_of_usizeAdd h⟩
      · right
        split at h
        · rename_i hzero hle
          obtain ⟨start, hstart, hthen⟩ := Outcome.bind_eq_ok.mp h
          obtain rfl := eq_of_usizeAdd hstart
          obtain ⟨next, hnext, hcheck⟩ := Outcome.bind_eq_ok.mp hthen
          obtain rfl := eq_of_usizeAdd hnext
          obtain ⟨⟨⟩, hfit, hloop⟩ := Outcome.bind_eq_ok.mp hcheck
          rw [failIf_eq_ok] at hfit
          have hpos : payload[offset].toNat ≠ 0 := fun h0 => hzero (UInt8.toNat_inj.mp h0)
          exact ⟨Nat.pos_of_ne_zero hpos, UInt8.le_iff_toNat_le.mp hle, by omega, hloop⟩
        · exact absurd h (by simp)
  · exact absurd h (by simp)

/-- With fuel for the rest of the payload the walk ends: it returns an offset further on and inside
the payload, or a wire error. -/
theorem skipNameLoop_spec (hlen : payload.length < 2 ^ 63) (hoff : offset ≤ payload.length)
    (hfuel : payload.length < offset + fuel) :
    (skipNameLoop payload fuel offset).Spec (fun n => offset < n ∧ n ≤ payload.length)
      DnsParseError.IsWire := by
  induction fuel generalizing offset with
  | zero => omega
  | succ fuel ih =>
    by_cases h : offset < payload.length
    · rw [skipNameLoop_succ hlen h]
      split_ifs with hptr hend hzero hlabel hlast
      · exact trivial
      · exact ⟨by omega, by omega⟩
      · exact ⟨by omega, by omega⟩
      · exact trivial
      · -- the walk goes on behind the label, with one unit of fuel for at least one byte
        refine (ih (by omega) (by omega)).mono ?_ fun _ he => he
        rintro n ⟨hlt, hle⟩
        exact ⟨by omega, hle⟩
      · exact trivial
    · rw [skipNameLoop_end (by omega)]
      exact trivial

/-- `skip_name` never panics; the length it returns is positive and inside the slice. -/
theorem skipName_spec (hlen : payload.length < 2 ^ 63) :
    (skipName payload).Spec (fun n => 1 ≤ n ∧ n ≤ payload.length) DnsParseError.IsWire :=
  skipNameLoop_spec hlen (Nat.zero_le _) (by omega)

/-- `skip_name(&payload[offset..])`: the length it returns counts from `offset`. -/
theorem skipName_drop_spec (hlen : payload.length < 2 ^ 63) (offset : ℕ) :
    (skipName (payload.drop offset)).Spec (fun n => 1 ≤ n ∧ n ≤ payload.length - offset)
      DnsParseError.IsWire := by
  have hspec := skipName_spec (show (payload.drop offset).length < 2 ^ 63 by
    rw [List.length_drop]
    omega)
  rw [List.length_drop] at hspec
  exact hspec

end SkipName

section ParseQname

variable {payload : List UInt8} {fuel offset total : ℕ} {out : String}

/-- The text after one more label: a dot unless the text is empty, then the label. -/
def pushLabel (out : String) (label : List UInt8) : String :=
  (if out.isEmpty then out else out.push '.') ++ asciiStr label

/-- A label adds a dot and its bytes at most. -/
theorem length_pushLabel_le (out : String) (label : List UInt8) :
    (pushLabel out label).length ≤ out.length + 1 + label.length := by
  unfold pushLabel asciiStr
  split <;> simp

/-- At the end of the payload the loop stops with an error. -/
theorem parseQnameLoop_end (h : payload.length ≤ offset) :
    (parseQnameLoop payload (fuel + 1) offset total).run out =
      (.err .unexpectedEndOfPayload, out) := by
  rw [parseQnameLoop, if_neg (by omega), run_lift]

/-- The bytes of the label whose length byte is at `offset`. -/
def labelAt (payload : List UInt8) (offset len : ℕ) : List UInt8 :=
  (payload.drop (offset + 1)).take len

/-- One iteration of `parse_qname` at a byte inside the payload. -/
theorem parseQnameLoop_succ (hoff : offset < 2 ^ 63) (htotal : total ≤ 255)
    (h : offset < payload.length) :
    (parseQnameLoop payload (fuel + 1) offset total).run out =
      if payload[offset].toNat = 0 then (.ok (offset + 1), out)
      else if payload[offset].toNat > 63 then
        (.err (.invalidLabelLength payload[offset].toNat), out)
      else if offset + 1 + payload[offset].toNat > payload.length then
        (.err .unexpectedEndOfPayload, out)
      else if total + (payload[offset].toNat + 1) > 255 then (.err .labelExceedsMaxLen, out)
      else if isAscii (labelAt payload offset payload[offset].toNat) = false then
        (.err .nonAsciiDomainName, out)
      else
        (parseQnameLoop payload fuel (offset + 1 + payload[offset].toNat)
          (total + (payload[offset].toNat + 1))).run
            (pushLabel out (labelAt payload offset payload[offset].toNat)) := by
  have hb := payload[offset].toNat_lt
  -- the checks in the order of the source; each one ends the loop or is passed
  rw [parseQnameLoop, if_pos h, run_lift_bind_ok (index_eq h)]
  by_cases hzero : payload[offset].toNat = 0
  · rw [if_pos hzero, if_pos hzero, run_lift, usizeAdd_eq (by omega)]
  rw [if_neg hzero, if_neg hzero]
  by_cases hbig : payload[offset].toNat > 63
  · rw [if_pos hbig, run_lift_bind_err (failIf_pos hbig _)]
  rw [if_neg hbig, run_lift_bind_ok (failIf_neg hbig _),
    run_lift_bind_ok (usizeAdd_eq (by omega)),
    run_lift_bind_ok (usizeAdd_eq (by omega))]
  by_cases hend : offset + 1 + payload[offset].toNat > payload.length
  · rw [if_pos hend, run_lift_bind_err (failIf_pos hend _)]
  rw [if_neg hend, run_lift_bind_ok (failIf_neg hend _),
    run_lift_bind_ok (usizeAdd_eq (by omega)),
    run_lift_bind_ok (usizeAdd_eq (by omega))]
  by_cases hsum : total + (payload[offset].toNat + 1) > 255
  · rw [if_pos hsum, run_lift_bind_err (failIf_pos hsum _)]
  have hslice : (slice payload (offset + 1) (offset + 1 + payload[offset].toNat) :
      Outcome DnsParseError _) = .ok (labelAt payload offset payload[offset].toNat) := by
    rw [slice_eq (by omega) (by omega), labelAt, Nat.add_sub_cancel_left]
  rw [if_neg hsum, run_lift_bind_ok (failIf_neg hsum _),
    run_lift_bind_ok hslice]
  by_cases hascii : isAscii (labelAt payload offset payload[offset].toNat) = false
  · rw [if_pos hascii, run_lift_bind_err (failIf_pos hascii _)]
  rw [if_neg hascii, run_lift_bind_ok (failIf_neg hascii _),
    run_modify_bind, run_modify_bind]
  rfl

/-- With fuel for the rest of the payload the loop ends: it returns an offset further on and inside
the payload, having added fewer characters than it consumed bytes, or a wire error. -/
theorem parseQnameLoop_spec (hlen : payload.length < 2 ^ 63) (htotal : total ≤ 255)
    (hoff : offset ≤ payload.length) (hfuel : payload.length < offset + fuel) :
    (parseQnameLoop payload fuel offset total).Spec out
      (fun n t => n ≤ payload.length ∧ t.length + offset + 1 ≤ out.length + n)
      (fun e _ => e.IsWire) := by
  induction fuel generalizing offset total out with
  | zero => omega
  | succ fuel ih =>
    unfold Exec.Spec
    by_cases h : offset < payload.length
    · rw [parseQnameLoop_succ (by omega) htotal h]
      split_ifs with hzero hbig hend hsum hascii
      · exact post_ok.mpr ⟨by omega, by omega⟩
      · exact trivial
      · exact trivial
      · exact trivial
      · exact trivial
      · have hlabel := length_pushLabel_le out (labelAt payload offset payload[offset].toNat)
        have hsize :
            (labelAt payload offset payload[offset].toNat).length ≤ payload[offset].toNat :=
          List.length_take_le _ _
        refine Post.mono (ih (show total + (payload[offset].toNat + 1) ≤ 255 by omega) (by omega)
          (by omega)) ?_ fun _ _ he => he
        rintro n t ⟨hle, htext⟩
        exact ⟨hle, by omega⟩
    · rw [parseQnameLoop_end (by omega)]
      exact trivial

/-- `parse_qname` never panics; the name it consumed lies inside the slice and is longer than the
text it added. -/
theorem parseQname_spec (out : String) (hlen : payload.length < 2 ^ 63) :
    (parseQname payload).Spec out
      (fun n t => n ≤ payload.length ∧ t.length + 1 ≤ out.length + n) (fun e _ => e.IsWire) := by
  rw [parseQname, spec_bind, spec_lift, failIf_spec]
  exact ⟨fun _ => trivial, fun _ =>
    parseQnameLoop_spec hlen (Nat.zero_le _) (Nat.zero_le _) (by omega)⟩

end ParseQname

end CiliumMini
