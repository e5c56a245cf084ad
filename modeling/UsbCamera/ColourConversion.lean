import UsbCamera.PackedPicture
import UsbCamera.Saturation
import Mathlib.Data.Rat.Cast.Order
import Mathlib.Tactic.NormNum

/-!
# The colours of a frame

`Yvyu2RGBA` approximates the coefficients of BT.601 with sums of shifts.  Red and blue come
out within 8 of the exact value; of the shifts for green only the first of each chroma is
subtracted and the others are added, which leaves most colours far too green or not green
enough.
-/

namespace UsbCamera

open CheckedInt CountedLoop StoreLog Saturation

/-! ## The standard -/

def bt601Red (luma cr : ℚ) : ℚ :=
  saturate 0 255 (luma + 1.402 * (cr - 128))

def bt601Green (luma cb cr : ℚ) : ℚ :=
  saturate 0 255 (luma - 0.344 * (cb - 128) - 0.714 * (cr - 128))

def bt601Blue (luma cb : ℚ) : ℚ :=
  saturate 0 255 (luma + 1.772 * (cb - 128))

/-! ## The samples of a pixel -/

section Samples

variable (yvyu : Frame) (width y x : Nat)

def lumaAt : Int :=
  (macropixelByte yvyu width y (x / 2) (2 * (x % 2))).toNat

def cbAt : Int :=
  (macropixelByte yvyu width y (x / 2) 1).toNat

def crAt : Int :=
  (macropixelByte yvyu width y (x / 2) 3).toNat

end Samples

/-- Every channel of every pixel is within 8 of the standard. -/
def ConvertsYCbCr (yvyu : Frame) (width height : Nat) : Prop :=
  ∃ packed, yvyu2RGBA false yvyu width height = some packed ∧
    ∀ heap, ∀ y < height, ∀ x < width, ∀ value,
      value = writeAll packed.stores heap (y * width + x : Nat) →
      |(littleEndian value 0 : ℚ) - bt601Red (lumaAt yvyu width y x) (crAt yvyu width y x)| ≤ 8 ∧
      |(littleEndian value 1 : ℚ) -
        bt601Green (lumaAt yvyu width y x) (cbAt yvyu width y x) (crAt yvyu width y x)| ≤ 8 ∧
      |(littleEndian value 2 : ℚ) - bt601Blue (lumaAt yvyu width y x) (cbAt yvyu width y x)| ≤ 8

/-! ## One channel -/

theorem cast_clamp (channel : Int) :
    ((clamp channel : Int) : ℚ) = saturate 0 255 (channel : ℚ) := by
  unfold clamp
  split_ifs with negative bright
  · rw [saturate_of_le (by exact_mod_cast negative.le) (by norm_num)]
    rfl
  · rw [saturate_of_ge (by exact_mod_cast bright.le) (by norm_num)]
    rfl
  · rw [saturate_of_mem (by exact_mod_cast Int.not_lt.mp negative)
      (by exact_mod_cast Int.not_lt.mp bright)]

/-- A channel is close to the standard when its shift is, to a thousandth, or when both
channels are near black or near full intensity. -/
theorem clamp_close_iff (luma shift thousandths : Int) :
    |((clamp (luma + shift) : Int) : ℚ) - saturate 0 255 ((luma : ℚ) + thousandths / 1000)| ≤ 8 ↔
      |1000 * shift - thousandths| ≤ 8000 ∨
        (1000 * (luma + shift) ≤ 8000 ∧ 1000 * luma + thousandths ≤ 8000) ∨
        (247000 ≤ 1000 * (luma + shift) ∧ 247000 ≤ 1000 * luma + thousandths) := by
  have below : ∀ number : Int, (number : ℚ) / 1000 ≤ 8 ↔ number ≤ 8000 := by
    intro number
    rw [div_le_iff₀ (by norm_num), show (8 : ℚ) * 1000 = ((8000 : Int) : ℚ) by norm_num,
      Int.cast_le]
  have above : ∀ number : Int, 255 - 8 ≤ (number : ℚ) / 1000 ↔ 247000 ≤ number := by
    intro number
    rw [le_div_iff₀ (by norm_num), show (255 - 8 : ℚ) * 1000 = ((247000 : Int) : ℚ) by norm_num,
      Int.cast_le]
  have channel : ((luma + shift : Int) : ℚ) = ((1000 * (luma + shift) : Int) : ℚ) / 1000 := by
    push_cast
    ring
  have standard : (luma : ℚ) + thousandths / 1000 =
      ((1000 * luma + thousandths : Int) : ℚ) / 1000 := by
    push_cast
    ring
  have difference : ((1000 * (luma + shift) : Int) : ℚ) / 1000 -
      ((1000 * luma + thousandths : Int) : ℚ) / 1000 =
        ((1000 * shift - thousandths : Int) : ℚ) / 1000 := by
    push_cast
    ring
  have size : |((1000 * shift - thousandths : Int) : ℚ) / 1000| =
      ((|1000 * shift - thousandths| : Int) : ℚ) / 1000 := by
    rw [abs_div, Int.cast_abs, abs_of_pos (by norm_num : (0 : ℚ) < 1000)]
  rw [cast_clamp, abs_saturate_sub_le_iff (by norm_num) (by norm_num), standard, channel,
    difference, size, zero_add, below, below, below, above, above]

/-! ## The three channels -/

section Channels

variable {luma cb cr : Int}

theorem shr_eq_div (value : Int) (bits : Nat) : shr value bits = value / 2 ^ bits := by
  rw [shr, Int.shiftRight_eq_div_pow]
  push_cast
  rfl

theorem red_close (cr_mem : 0 ≤ cr ∧ cr ≤ 255) :
    |((clamp (luma + diffR (cr - 128)) : Int) : ℚ) - bt601Red luma cr| ≤ 8 := by
  have standard : bt601Red luma cr =
      saturate 0 255 ((luma : ℚ) + ((1402 * (cr - 128) : Int) : ℚ) / 1000) := by
    rw [bt601Red]
    congr 1
    push_cast
    ring
  rw [standard, clamp_close_iff]
  refine Or.inl (abs_le.mpr ?_)
  unfold diffR
  simp only [shr_eq_div]
  omega

theorem blue_close (cb_mem : 0 ≤ cb ∧ cb ≤ 255) :
    |((clamp (luma + diffB (cb - 128)) : Int) : ℚ) - bt601Blue luma cb| ≤ 8 := by
  have standard : bt601Blue luma cb =
      saturate 0 255 ((luma : ℚ) + ((1772 * (cb - 128) : Int) : ℚ) / 1000) := by
    rw [bt601Blue]
    congr 1
    push_cast
    ring
  rw [standard, clamp_close_iff]
  refine Or.inl (abs_le.mpr ?_)
  unfold diffB
  simp only [shr_eq_div]
  omega

/-- By how many thousandths a quarter, less a sixteenth and a thirty-second, of `Cb` and a
half, less an eighth, a sixteenth and a thirty-second, of `Cr` fall short of what BT.601 takes
off green; each part is rounded down, and both samples are centred. -/
def greenExcess (cb cr : Int) : Int :=
  344 * cb + 714 * cr -
    1000 * (cb / 4 - cb / 16 - cb / 32 + cr / 2 - cr / 8 - cr / 16 - cr / 32)

/-- The excess is at most 8, or it is hidden by saturation: with and without it the pixel has
at most 8, or at least 247, of green. -/
def GreenClose (luma cb cr : Int) : Prop :=
  |greenExcess cb cr| ≤ 8000 ∨
    (1000 * luma - 344 * cb - 714 * cr ≤ 8000 ∧
      1000 * luma - 344 * cb - 714 * cr + greenExcess cb cr ≤ 8000) ∨
    (247000 ≤ 1000 * luma - 344 * cb - 714 * cr ∧
      247000 ≤ 1000 * luma - 344 * cb - 714 * cr + greenExcess cb cr)

instance (luma cb cr : Int) : Decidable (GreenClose luma cb cr) :=
  inferInstanceAs (Decidable (_ ∨ _))

theorem green_close_iff :
    |((clamp (luma + diffG (cb - 128) (cr - 128)) : Int) : ℚ) - bt601Green luma cb cr| ≤ 8 ↔
      GreenClose luma (cb - 128) (cr - 128) := by
  have standard : bt601Green luma cb cr = saturate 0 255
      ((luma : ℚ) + ((-344 * (cb - 128) - 714 * (cr - 128) : Int) : ℚ) / 1000) := by
    rw [bt601Green]
    congr 1
    push_cast
    ring
  have shifted : 1000 * diffG (cb - 128) (cr - 128) =
      -344 * (cb - 128) - 714 * (cr - 128) + greenExcess (cb - 128) (cr - 128) := by
    unfold diffG greenExcess
    simp only [shr_eq_div]
    omega
  rw [standard, clamp_close_iff, GreenClose, mul_add, shifted]
  generalize greenExcess (cb - 128) (cr - 128) = excess
  have difference : -344 * (cb - 128) - 714 * (cr - 128) + excess -
      (-344 * (cb - 128) - 714 * (cr - 128)) = excess := by omega
  rw [difference]
  omega

end Channels

/-! ## All pixels -/

section Pixels

variable {yvyu : Frame} {half height y x : Nat}

theorem promote_unsigned (byte : UInt8) : promote false byte = (byte.toNat : Int) := by
  simp [promote]

theorem byte_mem (byte : UInt8) : 0 ≤ (byte.toNat : Int) ∧ (byte.toNat : Int) ≤ 255 := by
  have bound := byte.toNat_lt
  omega

theorem centre_of_nonneg {chroma : Int} (nonneg : 0 ≤ chroma) : centre chroma = chroma - 128 :=
  if_neg (by omega)

/-- With an unsigned `char` a pixel is made of the samples themselves. -/
theorem sourcePixel_unsigned (width : Nat) :
    sourcePixel false yvyu width y x =
      rgbaPixel (lumaAt yvyu width y x) (cbAt yvyu width y x - 128)
        (crAt yvyu width y x - 128) := by
  simp only [sourcePixel, promote_unsigned, centre_of_nonneg (byte_mem _).1, lumaAt, cbAt, crAt]

/-- A pixel is within 8 of the standard exactly when its green is. -/
theorem pixel_close_iff (width : Nat) (value : BitVec 32)
    (made : value = sourcePixel false yvyu width y x) :
    (|(littleEndian value 0 : ℚ) - bt601Red (lumaAt yvyu width y x) (crAt yvyu width y x)| ≤ 8 ∧
      |(littleEndian value 1 : ℚ) -
        bt601Green (lumaAt yvyu width y x) (cbAt yvyu width y x) (crAt yvyu width y x)| ≤ 8 ∧
      |(littleEndian value 2 : ℚ) - bt601Blue (lumaAt yvyu width y x) (cbAt yvyu width y x)| ≤
        8) ↔
    GreenClose (lumaAt yvyu width y x) (cbAt yvyu width y x - 128) (crAt yvyu width y x - 128) := by
  rw [sourcePixel_unsigned, rgbaPixel] at made
  obtain ⟨red, green, blue, -⟩ := littleEndian_packRGBA
    (clamp_mem (lumaAt yvyu width y x + diffR (crAt yvyu width y x - 128)))
    (clamp_mem (lumaAt yvyu width y x +
      diffG (cbAt yvyu width y x - 128) (crAt yvyu width y x - 128)))
    (clamp_mem (lumaAt yvyu width y x + diffB (cbAt yvyu width y x - 128)))
  rw [made, red, green, blue, green_close_iff]
  constructor
  · rintro ⟨-, close, -⟩
    exact close
  · intro close
    exact ⟨red_close (byte_mem _), close, blue_close (byte_mem _)⟩

end Pixels

/-- For even widths the picture is within 8 of BT.601 exactly when every pixel has a green
excess of at most 8 or saturates both with and without it. -/
theorem convertsYCbCr_iff (yvyu : Frame) {width : Nat} (height : Nat)
    (evenWidth : width % 2 = 0) :
    ConvertsYCbCr yvyu width height ↔ ∀ y < height, ∀ x < width,
      GreenClose (lumaAt yvyu width y x) (cbAt yvyu width y x - 128)
        (crAt yvyu width y x - 128) := by
  obtain ⟨half, rfl⟩ : ∃ half, width = 2 * half := ⟨width / 2, by omega⟩
  constructor
  · rintro ⟨packed, converted, close⟩ y inside x inRow
    rw [yvyu2RGBA_eq, Int.toNat_natCast] at converted
    cases converted
    exact (pixel_close_iff _ _ (rgbData_even (fun _ => 0) inside inRow)).mp
      (close (fun _ => 0) y inside x inRow _ rfl)
  · intro close
    refine ⟨_, yvyu2RGBA_eq false yvyu _ height, ?_⟩
    rintro heap y inside x inRow value made
    rw [Int.toNat_natCast] at made
    exact (pixel_close_iff _ _ (made.trans (rgbData_even heap inside inRow))).mpr
      (close y inside x inRow)

/-- A grey frame. -/
theorem convertsYCbCr_grey : ConvertsYCbCr (fun _ => 128) 640 480 :=
  (convertsYCbCr_iff (fun _ => 128) 480 (by decide)).mpr fun _ _ _ _ =>
    (by decide : GreenClose 128 (128 - 128) (128 - 128))

/-- Two pixels of full luma and chroma: green is 196 where the standard has 120. -/
theorem not_convertsYCbCr :
    ¬ ∀ (yvyu : Frame) (width height : Nat), width % 2 = 0 → ConvertsYCbCr yvyu width height := by
  intro always
  obtain ⟨packed, converted, close⟩ := always (fun _ => 255) 2 1 (by decide)
  rw [yvyu2RGBA_eq, Int.toNat_natCast] at converted
  cases converted
  have green := (pixel_close_iff _ _ (@rgbData_even false (fun _ => 255) 1 1 (fun _ => 0) 0 0
    (by decide) (by decide))).mp (close (fun _ => 0) 0 (by decide) 0 (by decide) _ rfl)
  exact absurd green (by decide : ¬ GreenClose 255 (255 - 128) (255 - 128))

end UsbCamera
