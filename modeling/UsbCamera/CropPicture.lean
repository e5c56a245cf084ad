import UsbCamera.CenterCrop

/-!
# The crop as a picture

What `copyFrameCenterGravity` is for: the pixels of the destination are those in the
middle of the source.  From one row to the next the source offset advances by the copied
width and twice the left margin, which the rounding of the margin makes one pixel longer
than a row of the source whenever the two widths differ by an odd number.
-/

namespace UsbCamera

open CheckedInt CountedLoop

abbrev Byte := BitVec 8

/-- The byte the copies leave at an offset of the destination, when they leave one. -/
def pasted (copies : List Copy) (image : Nat → Byte) (offset : Nat) : Option Byte :=
  (Copy.copiedFrom copies offset).map image

/-- The copies stay inside a source of `src_w * src_h` pixels, write `dest_w * dest_h` pixels
and nothing else, and put the middle of every image there. -/
structure CentredCrop (dest_w dest_h src_w src_h bpp_shift : Nat) (copies : List Copy) :
    Prop where
  reads : ∀ copy ∈ copies, copy.source + copy.length ≤ src_w * src_h * 2 ^ bpp_shift
  writes : ∀ offset,
    Copy.copiedFrom copies offset ≠ none ↔ offset < dest_w * dest_h * 2 ^ bpp_shift
  pixels : ∀ image, ∀ y < dest_h, ∀ x < dest_w, ∀ byte < 2 ^ bpp_shift,
    pasted copies image ((y * dest_w + x) * 2 ^ bpp_shift + byte) =
      some (image (((cropMargin src_h dest_h + y) * src_w + cropMargin src_w dest_w + x) *
        2 ^ bpp_shift + byte))

/-- `copyFrameCenterGravity` evaluates, and copies the centred crop. -/
def CopiesCentred (dest_w dest_h src_w src_h bpp_shift : Nat) : Prop :=
  ∃ copies, copyFrameCenterGravity dest_w dest_h src_w src_h bpp_shift = some copies ∧
    CentredCrop dest_w dest_h src_w src_h bpp_shift copies

section Sizes

variable {dest_w dest_h src_w src_h bpp_shift : Nat}

/-- A row of a crop inside the source ends before the next row of the source does. -/
theorem cropRow_inside (narrow : dest_w ≤ src_w) (short : dest_h ≤ src_h) {row : Nat}
    (inside : row < dest_h) :
    (cropMargin src_h dest_h + row) * src_w + cropMargin src_w dest_w + dest_w ≤
      src_w * src_h := by
  have above := cropMargin_add_le short
  have left := cropMargin_add_le narrow
  have rows : (cropMargin src_h dest_h + row + 1) * src_w ≤ src_h * src_w :=
    Nat.mul_le_mul_right src_w (by omega)
  rw [Nat.succ_mul] at rows
  rw [Nat.mul_comm src_w src_h]
  omega

/-- The rows of the destination lie in the address space that holds the source. -/
theorem dest_unwrapped (narrow : dest_w ≤ src_w) (short : dest_h ≤ src_h) (wide : 0 < dest_w)
    (addressable : src_w * src_h * 2 ^ bpp_shift ≤ 2 ^ 32) :
    ∀ row < dest_h, row * (dest_w * 2 ^ bpp_shift) < 2 ^ 32 := by
  intro row inside
  have positive : 0 < dest_w * 2 ^ bpp_shift := Nat.mul_pos wide (by positivity)
  calc row * (dest_w * 2 ^ bpp_shift) < (row + 1) * (dest_w * 2 ^ bpp_shift) :=
        Nat.mul_lt_mul_of_pos_right (Nat.lt_succ_self row) positive
    _ ≤ src_h * (src_w * 2 ^ bpp_shift) :=
        Nat.mul_le_mul (by omega) (Nat.mul_le_mul_right _ narrow)
    _ = src_w * src_h * 2 ^ bpp_shift := by ring
    _ ≤ 2 ^ 32 := addressable

/-- Up to the second row, and with an even difference of the widths in every row, the source
offset is the one of the row in the middle. -/
theorem cropOffset_eq {row : Nat} (aligned : row = 0 ∨ (src_w - dest_w) % 2 = 0)
    (narrow : dest_w ≤ src_w) :
    cropCorner dest_w dest_h src_w src_h + row * cropPitch dest_w src_w =
      (cropMargin src_h dest_h + row) * src_w + cropMargin src_w dest_w := by
  rcases aligned with rfl | even
  · simp [cropCorner]
  · have pitch : cropPitch dest_w src_w = src_w := by
      unfold cropPitch cropMargin
      omega
    rw [pitch, cropCorner]
    ring

/-- What is copied of an image lands where the row and the column say. -/
theorem pixel_offset (y x byte : Nat) :
    (y * dest_w + x) * 2 ^ bpp_shift + byte =
      y * (dest_w * 2 ^ bpp_shift) + (x * 2 ^ bpp_shift + byte) := by
  ring

theorem pixel_inRow {x byte : Nat} (inRow : x < dest_w) (inPixel : byte < 2 ^ bpp_shift) :
    x * 2 ^ bpp_shift + byte < dest_w * 2 ^ bpp_shift := by
  have next : (x + 1) * 2 ^ bpp_shift ≤ dest_w * 2 ^ bpp_shift := Nat.mul_le_mul_right _ inRow
  rw [Nat.succ_mul] at next
  omega

section Copies

variable (narrow : dest_w ≤ src_w) (short : dest_h ≤ src_h) (wide : 0 < dest_w)
  (fits : CropFits dest_w dest_h src_w src_h bpp_shift)
  (addressable : src_w * src_h * 2 ^ bpp_shift ≤ 2 ^ 32)

include narrow short wide fits addressable

/-- With rows that keep their distance the crop is centred. -/
theorem centredCrop_of_aligned
    (aligned : ∀ row < dest_h, row = 0 ∨ (src_w - dest_w) % 2 = 0) :
    CentredCrop dest_w dest_h src_w src_h bpp_shift
      (cropAt dest_w dest_h src_w src_h bpp_shift dest_h).copies := by
  have copyed := dest_unwrapped narrow short wide addressable
  have ends : ∀ row < dest_h,
      (cropCorner dest_w dest_h src_w src_h + row * cropPitch dest_w src_w) * 2 ^ bpp_shift +
        dest_w * 2 ^ bpp_shift ≤ src_w * src_h * 2 ^ bpp_shift := by
    intro row inside
    rw [cropOffset_eq (aligned row inside) narrow, ← Nat.add_mul]
    exact Nat.mul_le_mul_right _ (cropRow_inside narrow short inside)
  have positive : 0 < dest_w * 2 ^ bpp_shift := Nat.mul_pos wide (by positivity)
  have unwrapped : CropUnwrapped dest_w dest_h src_w src_h bpp_shift := by
    intro row inside
    have last := ends row inside
    exact ⟨copyed row inside, by omega⟩
  constructor
  · intro copy member
    obtain ⟨row, inside, rfl⟩ := (mem_crop fits unwrapped).mp member
    exact ends row inside
  · intro offset
    have size : dest_w * dest_h * 2 ^ bpp_shift = dest_h * (dest_w * 2 ^ bpp_shift) := by ring
    rw [size]
    constructor
    · intro written
      by_contra beyond
      exact written (copiedFrom_behind fits copyed (by omega))
    · intro inside
      rw [Nat.mul_comm] at inside
      obtain ⟨row, inRows, byte, inRow, rfl⟩ := exists_position inside
      rw [Nat.mul_comm _ row, copiedFrom_row fits copyed inRows inRow]
      simp
  · intro image y inside x inRow byte inPixel
    rw [pasted, pixel_offset, copiedFrom_crop fits unwrapped inside (pixel_inRow inRow inPixel),
      cropOffset_eq (aligned y inside) narrow, Option.map_some]
    congr 2
    ring

/-- The second row of an odd crop is not where it should be. -/
theorem not_centredCrop_of_odd (tall : 2 ≤ dest_h) (odd : (src_w - dest_w) % 2 = 1) :
    ¬ CentredCrop dest_w dest_h src_w src_h bpp_shift
      (cropAt dest_w dest_h src_w src_h bpp_shift dest_h).copies := by
  intro centred
  have copyed := dest_unwrapped narrow short wide addressable
  have inSource := cropRow_inside narrow short (show 1 < dest_h by omega)
  generalize expectedEq :
    ((cropMargin src_h dest_h + 1) * src_w + cropMargin src_w dest_w) * 2 ^ bpp_shift = expected
  have scale : 2 ^ bpp_shift ≤ dest_w * 2 ^ bpp_shift := Nat.le_mul_of_pos_left _ wide
  have positive : 0 < 2 ^ bpp_shift := by positivity
  have below : expected + dest_w * 2 ^ bpp_shift ≤ 2 ^ 32 := by
    rw [← expectedEq, ← Nat.add_mul]
    exact (Nat.mul_le_mul_right _ inSource).trans addressable
  have pitch : cropPitch dest_w src_w = src_w + 1 := by
    unfold cropPitch cropMargin
    omega
  have shifted : (cropCorner dest_w dest_h src_w src_h + 1 * cropPitch dest_w src_w) *
      2 ^ bpp_shift = expected + 2 ^ bpp_shift := by
    rw [← expectedEq, pitch, cropCorner]
    ring
  -- an image that is marked where the row should come from
  have pixel := centred.pixels (fun offset => if offset = expected then 1 else 0) 1 (by omega) 0
    wide 0 positive
  rw [pasted, pixel_offset, copiedFrom_row fits copyed (show 1 < dest_h by omega)
    (pixel_inRow wide positive), cropRow, shifted, Option.map_some] at pixel
  simp only [Nat.add_zero, Nat.zero_mul, expectedEq, BitVec.toNat_ofNat, if_true] at pixel
  have once := fits.2.2.2.1
  have marked : (expected + 2 ^ bpp_shift) % 2 ^ 32 = expected := by
    by_contra elsewhere
    rw [if_neg elsewhere] at pixel
    exact absurd pixel (by decide)
  omega

end Copies

/-- The crop is centred exactly when the widths differ by an even number, or there is only
one row. -/
theorem copiesCentred_iff (narrow : dest_w ≤ src_w) (short : dest_h ≤ src_h) (wide : 0 < dest_w)
    (tall : 0 < dest_h) (fits : CropFits dest_w dest_h src_w src_h bpp_shift)
    (addressable : src_w * src_h * 2 ^ bpp_shift ≤ 2 ^ 32) :
    CopiesCentred dest_w dest_h src_w src_h bpp_shift ↔
      dest_h = 1 ∨ (src_w - dest_w) % 2 = 0 := by
  have evaluated : copyFrameCenterGravity dest_w dest_h src_w src_h bpp_shift =
      some (cropAt dest_w dest_h src_w src_h bpp_shift dest_h).copies := by
    rw [copyFrameCenterGravity_eq narrow short, if_pos fits]
  constructor
  · rintro ⟨copies, copied, centred⟩
    cases Option.some.inj (evaluated.symm.trans copied)
    by_contra misaligned
    rw [not_or] at misaligned
    exact not_centredCrop_of_odd narrow short wide fits addressable (by omega) (by omega) centred
  · intro aligned
    refine ⟨_, evaluated, centredCrop_of_aligned narrow short wide fits addressable ?_⟩
    intro row inside
    rcases aligned with single | even
    · exact Or.inl (by omega)
    · exact Or.inr even

end Sizes

/-- A 1280 × 720 image in four-byte pixels, cropped for a 640 × 480 encoder. -/
theorem copiesCentred_encoder : CopiesCentred 640 480 1280 720 2 :=
  (copiesCentred_iff (by decide) (by decide) (by decide) (by decide) (by decide)
    (by decide)).mpr (Or.inr (by decide))

/-- Two columns out of three: the second row is read from one byte behind where it starts,
and its last byte from behind the image. -/
theorem not_copiesCentred :
    ¬ ∀ dest_w dest_h src_w src_h bpp_shift : Nat, dest_w ≤ src_w → dest_h ≤ src_h →
      0 < dest_w → 0 < dest_h → CropFits dest_w dest_h src_w src_h bpp_shift →
      src_w * src_h * 2 ^ bpp_shift ≤ 2 ^ 32 →
      CopiesCentred dest_w dest_h src_w src_h bpp_shift := by
  intro always
  obtain ⟨copies, copied, centred⟩ := always 2 2 3 2 0 (by decide) (by decide) (by decide)
    (by decide) (by decide) (by decide)
  have evaluated : copyFrameCenterGravity 2 2 3 2 0 = some [⟨0, 1, 2⟩, ⟨2, 5, 2⟩] := by decide
  cases Option.some.inj (evaluated.symm.trans copied)
  exact absurd (centred.reads ⟨2, 5, 2⟩ (by simp)) (by decide)

end UsbCamera
