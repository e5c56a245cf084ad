import UsbCamera.CheckedInt
import UsbCamera.CountedLoop
import UsbCamera.StoreLog
import Mathlib.Tactic.Linarith
import Mathlib.Tactic.Ring

/-!
# The centred crop

`copyFrameCenterGravity` copies the middle of an image row by row.  Its margins are
`int` expressions and its running offsets wrap in `unsigned long`; what it copies has a
closed form in the number of the row.
-/

namespace UsbCamera

open CheckedInt CountedLoop

/-- `(src - dest + 1) >> 1` -/
def margin (src dest : Int) : Option Int := do
  let spare ← checked (src - dest)
  let rounded ← checked (spare + 1)
  some (shr rounded 1)

/-- The running offsets of the loop and what it has copied. -/
structure CropLoop where
  copyed : BitVec 32
  src_off : BitVec 32
  copies : List Copy

/-- The body of the loop. -/
def copyRow (horizontal_margin copy_once : Int) (bpp_shift : Nat) (loop : CropLoop) :
    Option CropLoop := do
  let skipped ← checked (horizontal_margin <<< (bpp_shift + 1))
  some
    { copyed := loop.copyed + BitVec.ofInt 32 copy_once
      src_off := loop.src_off + (BitVec.ofInt 32 copy_once + BitVec.ofInt 32 skipped)
      copies := loop.copies ++
        [⟨loop.copyed.toNat, loop.src_off.toNat, (BitVec.ofInt 32 copy_once).toNat⟩] }

/-- The copies `copyFrameCenterGravity` makes from `src` to `dest`. -/
def copyFrameCenterGravity (dest_w dest_h src_w src_h : Int) (bpp_shift : Nat) :
    Option (List Copy) :=
  if src_w < dest_w ∨ src_h < dest_h then some []
  else do
    let horizontal_margin ← margin src_w dest_w
    let vertical_margin ← margin src_h dest_h
    let above ← checked (vertical_margin * src_w)
    let corner ← checked (above + horizontal_margin)
    let src_off ← checked (corner <<< bpp_shift)
    let copy_once ← checked (dest_w <<< bpp_shift)
    let loop ← forRange (fun _ => copyRow horizontal_margin copy_once bpp_shift) dest_h.toNat
      ⟨0, BitVec.ofInt 32 src_off, []⟩
    some loop.copies

/-! ## The closed form -/

/-- The margin on the left or above, for a crop that is not larger than its source. -/
def cropMargin (src dest : Nat) : Nat :=
  (src - dest + 1) / 2

theorem shr_margin {src dest : Nat} (inside : dest ≤ src) :
    shr ((src : Int) - dest + 1) 1 = (cropMargin src dest : Int) := by
  rw [shr, Int.shiftRight_eq_div_pow, cropMargin]
  omega

theorem margin_natCast {src dest : Nat} (inside : dest ≤ src) :
    margin src dest =
      if src - dest + 1 < 2 ^ 31 then some (cropMargin src dest : Int) else none := by
  rw [margin]
  by_cases small : src - dest + 1 < 2 ^ 31
  · have spare : checked ((src : Int) - dest) = some ((src : Int) - dest) :=
      checked_of_fits ⟨by omega, by omega⟩
    have rounded : checked ((src : Int) - dest + 1) = some ((src : Int) - dest + 1) :=
      checked_of_fits ⟨by omega, by omega⟩
    rw [if_pos small, spare, Option.bind_eq_bind, Option.bind_some, rounded, Option.bind_some,
      shr_margin inside]
  · have rounded : checked ((src : Int) - dest + 1) = none := by
      refine if_neg fun fits => small ?_
      have bound := fits.2
      omega
    rw [if_neg small]
    by_cases spare : Fits ((src : Int) - dest)
    · rw [checked_of_fits spare, Option.bind_eq_bind, Option.bind_some, rounded]
      rfl
    · have none : checked ((src : Int) - dest) = none := if_neg spare
      rw [none]
      rfl

/-- The margin leaves room for the whole crop. -/
theorem cropMargin_add_le {src dest : Nat} (inside : dest ≤ src) :
    cropMargin src dest + dest ≤ src := by
  unfold cropMargin
  omega

section Crop

variable (dest_w dest_h src_w src_h bpp_shift : Nat)

/-- The first pixel of the crop. -/
def cropCorner : Nat :=
  cropMargin src_h dest_h * src_w + cropMargin src_w dest_w

/-- The `int` expressions of the crop fit. -/
def CropFits : Prop :=
  src_w - dest_w + 1 < 2 ^ 31 ∧ src_h - dest_h + 1 < 2 ^ 31 ∧
    cropCorner dest_w dest_h src_w src_h * 2 ^ bpp_shift < 2 ^ 31 ∧
    dest_w * 2 ^ bpp_shift < 2 ^ 31 ∧
    (0 < dest_h → cropMargin src_w dest_w * 2 ^ (bpp_shift + 1) < 2 ^ 31)

instance : Decidable (CropFits dest_w dest_h src_w src_h bpp_shift) :=
  inferInstanceAs (Decidable (_ ∧ _))

/-- The source pixels from the start of one copied row to the start of the next. -/
def cropPitch : Nat :=
  dest_w + 2 * cropMargin src_w dest_w

/-- The rows of the crop are as far apart as those of the source, or by one pixel more. -/
theorem cropPitch_bounds {dest_w src_w : Nat} (inside : dest_w ≤ src_w) :
    src_w ≤ cropPitch dest_w src_w ∧ cropPitch dest_w src_w ≤ src_w + 1 := by
  unfold cropPitch cropMargin
  omega

/-- The copy of one row, with offsets as far as `unsigned long` holds them. -/
def cropRow (row : Nat) : Copy where
  dest := (BitVec.ofNat 32 (row * (dest_w * 2 ^ bpp_shift))).toNat
  source := (BitVec.ofNat 32 ((cropCorner dest_w dest_h src_w src_h +
    row * cropPitch dest_w src_w) * 2 ^ bpp_shift)).toNat
  length := (BitVec.ofNat 32 (dest_w * 2 ^ bpp_shift)).toNat

/-- The state of the loop at a row. -/
def cropAt (row : Nat) : CropLoop where
  copyed := BitVec.ofNat 32 (row * (dest_w * 2 ^ bpp_shift))
  src_off := BitVec.ofNat 32 ((cropCorner dest_w dest_h src_w src_h +
    row * cropPitch dest_w src_w) * 2 ^ bpp_shift)
  copies := appended (fun row => [cropRow dest_w dest_h src_w src_h bpp_shift row]) row

variable {dest_w dest_h src_w src_h bpp_shift}

theorem shiftLeft_natCast (number shift : Nat) :
    (number : Int) <<< shift = ((number * 2 ^ shift : Nat) : Int) := by
  rw [Int.shiftLeft_eq]
  push_cast
  rfl

theorem cropAt_succ (row : Nat) :
    cropAt dest_w dest_h src_w src_h bpp_shift (row + 1) =
      { copyed := (cropAt dest_w dest_h src_w src_h bpp_shift row).copyed +
          BitVec.ofNat 32 (dest_w * 2 ^ bpp_shift)
        src_off := (cropAt dest_w dest_h src_w src_h bpp_shift row).src_off +
          (BitVec.ofNat 32 (dest_w * 2 ^ bpp_shift) +
            BitVec.ofNat 32 (cropMargin src_w dest_w * 2 ^ (bpp_shift + 1)))
        copies := (cropAt dest_w dest_h src_w src_h bpp_shift row).copies ++
          [cropRow dest_w dest_h src_w src_h bpp_shift row] } := by
  have source : (cropCorner dest_w dest_h src_w src_h + (row + 1) * cropPitch dest_w src_w) *
      2 ^ bpp_shift =
        (cropCorner dest_w dest_h src_w src_h + row * cropPitch dest_w src_w) * 2 ^ bpp_shift +
          (dest_w * 2 ^ bpp_shift + cropMargin src_w dest_w * 2 ^ (bpp_shift + 1)) := by
    unfold cropPitch
    ring
  have copyed : (row + 1) * (dest_w * 2 ^ bpp_shift) =
      row * (dest_w * 2 ^ bpp_shift) + dest_w * 2 ^ bpp_shift := Nat.succ_mul ..
  simp only [cropAt, appended_succ, source, copyed, BitVec.ofNat_add]

theorem copyRow_cropAt (row : Nat) :
    copyRow (cropMargin src_w dest_w) (dest_w * 2 ^ bpp_shift : Nat) bpp_shift
        (cropAt dest_w dest_h src_w src_h bpp_shift row) =
      if cropMargin src_w dest_w * 2 ^ (bpp_shift + 1) < 2 ^ 31 then
        some (cropAt dest_w dest_h src_w src_h bpp_shift (row + 1))
      else none := by
  rw [copyRow, shiftLeft_natCast, BitVec.ofInt_natCast, cropAt_succ]
  by_cases small : cropMargin src_w dest_w * 2 ^ (bpp_shift + 1) < 2 ^ 31
  · rw [if_pos small, checked_of_fits ⟨by omega, by omega⟩, Option.bind_eq_bind,
      Option.bind_some, BitVec.ofInt_natCast]
    rfl
  · have skipped : checked ((cropMargin src_w dest_w * 2 ^ (bpp_shift + 1) : Nat) : Int) =
        none := by
      refine if_neg fun fits => small ?_
      have bound := fits.2
      omega
    rw [if_neg small, skipped]
    rfl

/-- The loop copies all rows unless the step from row to row does not fit. -/
theorem cropLoop_eq :
    forRange (fun _ => copyRow (cropMargin src_w dest_w) (dest_w * 2 ^ bpp_shift : Nat) bpp_shift)
        dest_h ⟨0, BitVec.ofNat 32 (cropCorner dest_w dest_h src_w src_h * 2 ^ bpp_shift), []⟩ =
      if 0 < dest_h → cropMargin src_w dest_w * 2 ^ (bpp_shift + 1) < 2 ^ 31 then
        some (cropAt dest_w dest_h src_w src_h bpp_shift dest_h)
      else none := by
  have start : (⟨0, BitVec.ofNat 32 (cropCorner dest_w dest_h src_w src_h * 2 ^ bpp_shift), []⟩ :
      CropLoop) = cropAt dest_w dest_h src_w src_h bpp_shift 0 := by
    simp [cropAt]
  have rows : (∀ index < dest_h, cropMargin src_w dest_w * 2 ^ (bpp_shift + 1) < 2 ^ 31) ↔
      (0 < dest_h → cropMargin src_w dest_w * 2 ^ (bpp_shift + 1) < 2 ^ 31) :=
    ⟨fun all positive => all 0 positive, fun all index below => all (by omega)⟩
  rw [start, forRange_eq_of_guarded fun row _ => copyRow_cropAt row]
  exact if_congr rows rfl rfl

/-- A crop that is not larger than its source evaluates exactly when its expressions fit,
and then copies as its closed form says. -/
theorem copyFrameCenterGravity_eq (narrow : dest_w ≤ src_w) (short : dest_h ≤ src_h) :
    copyFrameCenterGravity dest_w dest_h src_w src_h bpp_shift =
      if CropFits dest_w dest_h src_w src_h bpp_shift then
        some (cropAt dest_w dest_h src_w src_h bpp_shift dest_h).copies
      else none := by
  have accepted : ¬ ((src_w : Int) < dest_w ∨ (src_h : Int) < dest_h) := by omega
  have corner : (cropMargin src_h dest_h : Int) * src_w + cropMargin src_w dest_w =
      (cropCorner dest_w dest_h src_w src_h : Int) := by
    rw [cropCorner]
    push_cast
    rfl
  have scale : 1 ≤ 2 ^ bpp_shift := Nat.one_le_two_pow
  have scaled : cropCorner dest_w dest_h src_w src_h ≤
      cropCorner dest_w dest_h src_w src_h * 2 ^ bpp_shift := Nat.le_mul_of_pos_right _ scale
  rw [copyFrameCenterGravity, if_neg accepted, margin_natCast narrow, margin_natCast short]
  by_cases fits : CropFits dest_w dest_h src_w src_h bpp_shift
  · rw [if_pos fits]
    obtain ⟨width, height, offset, once, skipped⟩ := fits
    have above : checked ((cropMargin src_h dest_h : Int) * src_w) =
        some ((cropMargin src_h dest_h : Int) * src_w) := by
      have sum : cropMargin src_h dest_h * src_w ≤ cropCorner dest_w dest_h src_w src_h :=
        Nat.le_add_right _ _
      rw [← Int.natCast_mul]
      exact checked_of_fits ⟨by omega, by omega⟩
    simp only [Option.bind_eq_bind]
    rw [if_pos width, if_pos height, Option.bind_some, Option.bind_some, above, Option.bind_some,
      corner, checked_of_fits ⟨by omega, by omega⟩, Option.bind_some, shiftLeft_natCast,
      checked_of_fits ⟨by omega, by omega⟩, Option.bind_some, shiftLeft_natCast,
      checked_of_fits ⟨by omega, by omega⟩, Option.bind_some, BitVec.ofInt_natCast,
      Int.toNat_natCast]
    refine Eq.trans (congrArg (fun loop => Option.bind loop fun loop => some loop.copies)
      cropLoop_eq) ?_
    rw [if_pos skipped]
    rfl
  · rw [if_neg fits]
    refine Option.eq_none_iff_forall_ne_some.mpr fun copies copied => fits ?_
    simp only [Option.bind_eq_bind, Option.bind_eq_some_iff, checked_eq_some_iff,
      Option.ite_none_right_eq_some] at copied
    obtain ⟨_, ⟨width, horizontal⟩, _, ⟨height, vertical⟩, _, ⟨-, rfl⟩, _, ⟨-, rfl⟩, _,
      ⟨offset, rfl⟩, _, ⟨once, rfl⟩, loop, looped, -⟩ := copied
    rw [← Option.some.inj horizontal, ← Option.some.inj vertical, corner, shiftLeft_natCast]
      at offset
    rw [← Option.some.inj horizontal, ← Option.some.inj vertical, corner, shiftLeft_natCast,
      shiftLeft_natCast, BitVec.ofInt_natCast, Int.toNat_natCast] at looped
    rw [shiftLeft_natCast] at once
    have rows := (Option.ite_none_right_eq_some.mp (cropLoop_eq.symm.trans looped)).1
    have offset := offset.2
    have once := once.2
    exact ⟨width, height, by omega, by omega, rows⟩

/-! ## Where the pixels come from -/

section Rows

variable (fits : CropFits dest_w dest_h src_w src_h bpp_shift)
  (copyed : ∀ row < dest_h, row * (dest_w * 2 ^ bpp_shift) < 2 ^ 32)

include fits copyed

theorem cropRow_dest {row : Nat} (inside : row < dest_h) :
    (cropRow dest_w dest_h src_w src_h bpp_shift row).dest = row * (dest_w * 2 ^ bpp_shift) ∧
      (cropRow dest_w dest_h src_w src_h bpp_shift row).length = dest_w * 2 ^ bpp_shift := by
  obtain ⟨-, -, -, once, -⟩ := fits
  simp only [cropRow, BitVec.toNat_ofNat]
  exact ⟨Nat.mod_eq_of_lt (copyed row inside), Nat.mod_eq_of_lt (by omega)⟩

/-- A row covers its own part of the destination. -/
theorem covers_cropRow {row offset : Nat} (inside : row < dest_h) :
    (cropRow dest_w dest_h src_w src_h bpp_shift row).Covers offset ↔
      row * (dest_w * 2 ^ bpp_shift) ≤ offset ∧
        offset < row * (dest_w * 2 ^ bpp_shift) + dest_w * 2 ^ bpp_shift := by
  obtain ⟨dest, length⟩ := cropRow_dest fits copyed inside
  rw [Copy.Covers, dest, length]

/-- Rows are copied one behind the other. -/
theorem copiedFrom_row {row byte : Nat} (inside : row < dest_h)
    (inRow : byte < dest_w * 2 ^ bpp_shift) :
    Copy.copiedFrom (cropAt dest_w dest_h src_w src_h bpp_shift dest_h).copies
        (row * (dest_w * 2 ^ bpp_shift) + byte) =
      some ((cropRow dest_w dest_h src_w src_h bpp_shift row).source + byte) := by
  have member : ∀ copy, copy ∈ (cropAt dest_w dest_h src_w src_h bpp_shift dest_h).copies ↔
      ∃ row < dest_h, copy = cropRow dest_w dest_h src_w src_h bpp_shift row := by
    intro copy
    simp only [cropAt, mem_appended, List.mem_singleton]
  have copied := Copy.copiedFrom_of_mem ((member _).mpr ⟨row, inside, rfl⟩)
    ((covers_cropRow fits copyed inside).mpr
      ⟨Nat.le_add_right _ byte, Nat.add_lt_add_left inRow _⟩) ?_
  · rw [copied, (cropRow_dest fits copyed inside).1, Nat.add_sub_cancel_left]
  · intro other otherMember covers
    obtain ⟨otherRow, otherInside, rfl⟩ := (member other).mp otherMember
    obtain ⟨first, last⟩ := (covers_cropRow fits copyed otherInside).mp covers
    obtain ⟨otherByte, position⟩ := Nat.exists_eq_add_of_le first
    have order : dest_w * 2 ^ bpp_shift * otherRow + otherByte =
        dest_w * 2 ^ bpp_shift * row + byte := by
      rw [Nat.mul_comm _ otherRow, Nat.mul_comm _ row]
      omega
    have same : otherRow = row := (position_injective (by omega) inRow order).1
    rw [same]

/-- Nothing is copied behind the last row. -/
theorem copiedFrom_behind {offset : Nat}
    (beyond : dest_h * (dest_w * 2 ^ bpp_shift) ≤ offset) :
    Copy.copiedFrom (cropAt dest_w dest_h src_w src_h bpp_shift dest_h).copies offset = none := by
  refine Copy.copiedFrom_eq_none_iff.mpr fun copy member covers => ?_
  simp only [cropAt, mem_appended, List.mem_singleton] at member
  obtain ⟨row, inside, rfl⟩ := member
  have last := ((covers_cropRow fits copyed inside).mp covers).2
  have bound : (row + 1) * (dest_w * 2 ^ bpp_shift) ≤ dest_h * (dest_w * 2 ^ bpp_shift) :=
    Nat.mul_le_mul_right _ inside
  rw [Nat.succ_mul] at bound
  omega

end Rows

/-- No offset of a copied row wraps. -/
def CropUnwrapped (dest_w dest_h src_w src_h bpp_shift : Nat) : Prop :=
  ∀ row < dest_h, row * (dest_w * 2 ^ bpp_shift) < 2 ^ 32 ∧
    (cropCorner dest_w dest_h src_w src_h + row * cropPitch dest_w src_w) * 2 ^ bpp_shift < 2 ^ 32

section Pixels

variable (fits : CropFits dest_w dest_h src_w src_h bpp_shift)
  (unwrapped : CropUnwrapped dest_w dest_h src_w src_h bpp_shift)

include fits unwrapped

theorem cropRow_eq {row : Nat} (inside : row < dest_h) :
    cropRow dest_w dest_h src_w src_h bpp_shift row =
      ⟨row * (dest_w * 2 ^ bpp_shift),
        (cropCorner dest_w dest_h src_w src_h + row * cropPitch dest_w src_w) * 2 ^ bpp_shift,
        dest_w * 2 ^ bpp_shift⟩ := by
  obtain ⟨dest, length⟩ := cropRow_dest fits (fun row inside => (unwrapped row inside).1) inside
  have source : (cropRow dest_w dest_h src_w src_h bpp_shift row).source =
      (cropCorner dest_w dest_h src_w src_h + row * cropPitch dest_w src_w) * 2 ^ bpp_shift := by
    simp only [cropRow, BitVec.toNat_ofNat]
    exact Nat.mod_eq_of_lt (unwrapped row inside).2
  rw [← dest, ← source, ← length]

theorem mem_crop {copy : Copy} :
    copy ∈ (cropAt dest_w dest_h src_w src_h bpp_shift dest_h).copies ↔
      ∃ row < dest_h, copy = ⟨row * (dest_w * 2 ^ bpp_shift),
        (cropCorner dest_w dest_h src_w src_h + row * cropPitch dest_w src_w) * 2 ^ bpp_shift,
        dest_w * 2 ^ bpp_shift⟩ := by
  simp only [cropAt, mem_appended, List.mem_singleton]
  refine exists_congr fun row => and_congr_right fun inside => ?_
  rw [cropRow_eq fits unwrapped inside]

theorem copiedFrom_crop {row byte : Nat} (inside : row < dest_h)
    (inRow : byte < dest_w * 2 ^ bpp_shift) :
    Copy.copiedFrom (cropAt dest_w dest_h src_w src_h bpp_shift dest_h).copies
        (row * (dest_w * 2 ^ bpp_shift) + byte) =
      some ((cropCorner dest_w dest_h src_w src_h + row * cropPitch dest_w src_w) *
        2 ^ bpp_shift + byte) := by
  rw [copiedFrom_row fits (fun row inside => (unwrapped row inside).1) inside inRow,
    cropRow_eq fits unwrapped inside]

end Pixels

end Crop

end UsbCamera
