import UsbCamera.ColourConversion

/-!
# The sign of plain `char`

`Yvyu2RGBA` reads its samples through a `char *` into `int` variables.  Where `char` is signed
a luma sample of 128 or more becomes negative, and the branch that centres a negative chroma
sample adds 127 where 128 would give the centred value of the other reading.  The two readings
of a frame agree only where no such sample occurs, or saturation and the rounding of the shifts
hide it.
-/

namespace UsbCamera

open CheckedInt CountedLoop StoreLog

/-! ## The samples read as signed -/

def signedLuma (luma : Int) : Int :=
  if luma < 128 then luma else luma - 256

/-- A chroma sample after the centring branches. -/
def signedChroma (chroma : Int) : Int :=
  if chroma < 128 then chroma - 128 else chroma - 129

theorem promote_signed (byte : UInt8) : promote true byte = signedLuma byte.toNat := by
  unfold promote signedLuma
  by_cases high : 128 ≤ byte.toNat
  · rw [if_pos ⟨rfl, high⟩, if_neg (by omega)]
  · rw [if_neg (fun both => high both.2), if_pos (by omega)]

theorem centre_signed (byte : UInt8) :
    centre (promote true byte) = signedChroma byte.toNat := by
  obtain ⟨low, high⟩ := byte_mem byte
  rw [promote_signed]
  unfold centre signedLuma signedChroma
  split_ifs <;> omega

theorem sourcePixel_signed (yvyu : Frame) (width y x : Nat) :
    sourcePixel true yvyu width y x =
      rgbaPixel (signedLuma (lumaAt yvyu width y x)) (signedChroma (cbAt yvyu width y x))
        (signedChroma (crAt yvyu width y x)) := by
  simp only [sourcePixel, centre_signed, lumaAt, cbAt, crAt]
  rw [promote_signed]

theorem rgbaPixel_inj (y cb cr y' cb' cr' : Int) :
    rgbaPixel y cb cr = rgbaPixel y' cb' cr' ↔
      clamp (y + diffR cr) = clamp (y' + diffR cr') ∧
        clamp (y + diffG cb cr) = clamp (y' + diffG cb' cr') ∧
        clamp (y + diffB cb) = clamp (y' + diffB cb') :=
  packRGBA_inj (clamp_mem _) (clamp_mem _) (clamp_mem _) (clamp_mem _) (clamp_mem _)
    (clamp_mem _)

/-! ## The samples on which the readings agree -/

/-- `Cr` is the same in both readings, or red is at its full intensity in both. -/
def RedKept (luma cr : Int) : Prop :=
  cr < 128 ∨ 255 ≤ luma + (cr - 129) + (cr - 129) / 4 + (cr - 129) / 8 + (cr - 129) / 32

/-- `Cb` is the same in both readings, or blue is at its full intensity in both. -/
def BlueKept (luma cb : Int) : Prop :=
  cb < 128 ∨ 255 ≤ luma + (cb - 129) + (cb - 129) / 2 + (cb - 129) / 4 + (cb - 129) / 64

/-- What the shifts for green gain when `Cb` is one lower, by the powers of two it is a
multiple of. -/
def cbStep (cb : Int) : Int :=
  if cb < 128 then 0
  else if cb % 32 = 0 then -1
  else if cb % 16 = 0 then 0
  else if cb % 4 = 0 then 1
  else 0

def crStep (cr : Int) : Int :=
  if cr < 128 then 0
  else if cr % 32 = 0 then -2
  else if cr % 16 = 0 then -1
  else if cr % 8 = 0 then 0
  else if cr % 2 = 0 then 1
  else 0

theorem cbStep_of_lt {cb : Int} (low : cb < 128) : cbStep cb = 0 :=
  if_pos low

theorem crStep_of_lt {cr : Int} (low : cr < 128) : crStep cr = 0 :=
  if_pos low

/-- The luma is below 128; and no channel changes, or the pixel is all but black and its
chroma neutral or just below. -/
def SignFree (luma cb cr : Int) : Prop :=
  luma < 128 ∧
    ((RedKept luma cr ∧ BlueKept luma cb ∧ cbStep cb + crStep cr = 0) ∨
      (luma = 0 ∧
        ((cr = 128 ∧ 120 ≤ cb ∧ cb ≤ 128) ∨ (cb = 128 ∧ 122 ≤ cr ∧ cr ≤ 128))))

instance (luma cb cr : Int) : Decidable (SignFree luma cb cr) := by
  unfold SignFree RedKept BlueKept
  infer_instance

/-! ## One channel in both readings -/

theorem clamp_eq_iff_of_lt {first second : Int} (lt : first < second) :
    clamp first = clamp second ↔ second ≤ 0 ∨ 255 ≤ first := by
  unfold clamp
  split_ifs <;> omega

theorem diffR_sub_one_lt (cr : Int) : diffR (cr - 1) < diffR cr := by
  have quarter : (cr - 1) / 4 ≤ cr / 4 := Int.ediv_le_ediv (by omega) (by omega)
  have eighth : (cr - 1) / 8 ≤ cr / 8 := Int.ediv_le_ediv (by omega) (by omega)
  have last : (cr - 1) / 32 ≤ cr / 32 := Int.ediv_le_ediv (by omega) (by omega)
  unfold diffR
  simp only [shr_eq_div, Int.reducePow]
  omega

theorem diffB_sub_one_lt (cb : Int) : diffB (cb - 1) < diffB cb := by
  have half : (cb - 1) / 2 ≤ cb / 2 := Int.ediv_le_ediv (by omega) (by omega)
  have quarter : (cb - 1) / 4 ≤ cb / 4 := Int.ediv_le_ediv (by omega) (by omega)
  have last : (cb - 1) / 64 ≤ cb / 64 := Int.ediv_le_ediv (by omega) (by omega)
  unfold diffB
  simp only [shr_eq_div, Int.reducePow]
  omega

theorem diffG_mem {cb cr : Int} (cbLow : -129 ≤ cb) (cbHigh : cb ≤ 127) (crLow : -129 ≤ cr)
    (crHigh : cr ≤ 127) : -60 ≤ diffG cb cr ∧ diffG cb cr ≤ 60 := by
  unfold diffG
  simp only [shr_eq_div, Int.reducePow]
  omega

/-- One less is one less after rounding just at the multiples. -/
theorem sub_one_ediv {divisor : Int} (positive : 0 < divisor) (value : Int) :
    (value - 1) / divisor = value / divisor - if value % divisor = 0 then 1 else 0 := by
  have split := Int.mul_ediv_add_emod value divisor
  have low := Int.emod_nonneg value (show divisor ≠ 0 by omega)
  have high := Int.emod_lt_of_pos value positive
  by_cases multiple : value % divisor = 0
  · have shifted : value - 1 = (divisor - 1) + divisor * (value / divisor - 1) := by
      rw [Int.mul_sub]
      omega
    rw [if_pos multiple, shifted, Int.add_mul_ediv_left _ _ (by omega),
      Int.ediv_eq_zero_of_lt (by omega) (by omega)]
    omega
  · have shifted : value - 1 = (value % divisor - 1) + divisor * (value / divisor) := by omega
    rw [if_neg multiple, shifted, Int.add_mul_ediv_left _ _ (by omega),
      Int.ediv_eq_zero_of_lt (by omega) (by omega)]
    omega

/-- The shifts for green when the centred `Cb` is one lower. -/
theorem diffG_signed_cb {cb : Int} (high : 128 ≤ cb) (cr : Int) :
    diffG (cb - 129) cr = diffG (cb - 128) cr + cbStep cb := by
  have lower : cb - 129 = cb - 128 - 1 := by omega
  have step : cbStep cb = (if (cb - 128) % 4 = 0 then 1 else 0) -
      (if (cb - 128) % 16 = 0 then 1 else 0) - (if (cb - 128) % 32 = 0 then 1 else 0) := by
    unfold cbStep
    rw [if_neg (show ¬ cb < 128 by omega)]
    split_ifs <;> omega
  rw [lower, step]
  unfold diffG
  simp only [shr_eq_div, Int.reducePow, sub_one_ediv (show (0 : Int) < 4 by omega),
    sub_one_ediv (show (0 : Int) < 16 by omega), sub_one_ediv (show (0 : Int) < 32 by omega)]
  ring

theorem diffG_signed_cr {cr : Int} (high : 128 ≤ cr) (cb : Int) :
    diffG cb (cr - 129) = diffG cb (cr - 128) + crStep cr := by
  have lower : cr - 129 = cr - 128 - 1 := by omega
  have step : crStep cr = (if (cr - 128) % 2 = 0 then 1 else 0) -
      (if (cr - 128) % 8 = 0 then 1 else 0) - (if (cr - 128) % 16 = 0 then 1 else 0) -
      (if (cr - 128) % 32 = 0 then 1 else 0) := by
    unfold crStep
    rw [if_neg (show ¬ cr < 128 by omega)]
    split_ifs <;> omega
  rw [lower, step]
  unfold diffG
  simp only [shr_eq_div, Int.reducePow, sub_one_ediv (show (0 : Int) < 2 by omega),
    sub_one_ediv (show (0 : Int) < 8 by omega), sub_one_ediv (show (0 : Int) < 16 by omega),
    sub_one_ediv (show (0 : Int) < 32 by omega)]
  ring

theorem diffG_signed (cb cr : Int) :
    diffG (signedChroma cb) (signedChroma cr) =
      diffG (cb - 128) (cr - 128) + (cbStep cb + crStep cr) := by
  have red : ∀ other, diffG other (signedChroma cr) = diffG other (cr - 128) + crStep cr := by
    intro other
    unfold signedChroma
    by_cases low : cr < 128
    · rw [if_pos low, crStep_of_lt low, Int.add_zero]
    · rw [if_neg low, diffG_signed_cr (by omega)]
  have blue : diffG (signedChroma cb) (cr - 128) = diffG (cb - 128) (cr - 128) + cbStep cb := by
    unfold signedChroma
    by_cases low : cb < 128
    · rw [if_pos low, cbStep_of_lt low, Int.add_zero]
    · rw [if_neg low, diffG_signed_cb (by omega)]
  rw [red, blue]
  omega

section Dark

variable {luma cb cr : Int}

/-- A channel with one rising shift is the same in both readings when its chroma sample is
below 128, or when it is black or at its full intensity in both. -/
theorem channel_kept_iff {shift : Int → Int} {chroma : Int}
    (rises : shift (chroma - 128 - 1) < shift (chroma - 128)) :
    clamp (luma + shift (signedChroma chroma)) = clamp (luma + shift (chroma - 128)) ↔
      chroma < 128 ∨ luma + shift (chroma - 128) ≤ 0 ∨ 255 ≤ luma + shift (chroma - 129) := by
  unfold signedChroma
  by_cases low : chroma < 128
  · simp [low]
  · have lower : chroma - 128 - 1 = chroma - 129 := by omega
    rw [lower] at rises
    rw [if_neg low, clamp_eq_iff_of_lt (by omega)]
    simp [low]

theorem red_kept_iff (dark : 0 ≤ luma) (cr_mem : 0 ≤ cr ∧ cr ≤ 255) :
    clamp (luma + diffR (signedChroma cr)) = clamp (luma + diffR (cr - 128)) ↔
      RedKept luma cr ∨ (luma = 0 ∧ cr = 128) := by
  rw [channel_kept_iff (diffR_sub_one_lt (cr - 128)), RedKept]
  by_cases low : cr < 128
  · simp [low]
  · have black : luma + diffR (cr - 128) ≤ 0 ↔ luma = 0 ∧ cr = 128 := by
      unfold diffR
      simp only [shr_eq_div, Int.reducePow]
      omega
    rw [black]
    unfold diffR
    simp only [shr_eq_div, Int.reducePow]
    omega

theorem blue_kept_iff (dark : 0 ≤ luma) (cb_mem : 0 ≤ cb ∧ cb ≤ 255) :
    clamp (luma + diffB (signedChroma cb)) = clamp (luma + diffB (cb - 128)) ↔
      BlueKept luma cb ∨ (luma = 0 ∧ cb = 128) := by
  rw [channel_kept_iff (diffB_sub_one_lt (cb - 128)), BlueKept]
  by_cases low : cb < 128
  · simp [low]
  · have black : luma + diffB (cb - 128) ≤ 0 ↔ luma = 0 ∧ cb = 128 := by
      unfold diffB
      simp only [shr_eq_div, Int.reducePow]
      omega
    rw [black]
    unfold diffB
    simp only [shr_eq_div, Int.reducePow]
    omega

theorem green_kept_iff (dark : 0 ≤ luma ∧ luma < 128) (cb_mem : 0 ≤ cb ∧ cb ≤ 255)
    (cr_mem : 0 ≤ cr ∧ cr ≤ 255) :
    clamp (luma + diffG (signedChroma cb) (signedChroma cr)) =
        clamp (luma + diffG (cb - 128) (cr - 128)) ↔
      cbStep cb + crStep cr = 0 ∨
        (luma + diffG (cb - 128) (cr - 128) ≤ 0 ∧
          luma + diffG (cb - 128) (cr - 128) + (cbStep cb + crStep cr) ≤ 0) := by
  have plain := @diffG_mem (cb - 128) (cr - 128) (by omega) (by omega) (by omega) (by omega)
  have signed := @diffG_mem (signedChroma cb) (signedChroma cr)
    (by unfold signedChroma; omega) (by unfold signedChroma; omega)
    (by unfold signedChroma; omega) (by unfold signedChroma; omega)
  rw [diffG_signed] at signed ⊢
  unfold clamp
  split_ifs <;> omega

/-- Where a chroma sample of 128 or more is hidden by full intensity, green is not black. -/
theorem green_positive (cb_mem : 0 ≤ cb ∧ cb ≤ 255) (cr_mem : 0 ≤ cr ∧ cr ≤ 255)
    (red : RedKept luma cr) (blue : BlueKept luma cb) (high : 128 ≤ cb ∨ 128 ≤ cr) :
    0 < luma + diffG (cb - 128) (cr - 128) := by
  by_cases highCr : 128 ≤ cr
  · have plain := @diffG_mem (cb - 128) (cr - 128) (by omega) (by omega) (by omega) (by omega)
    have bright : 80 ≤ luma := by
      rcases red with low | full
      · omega
      · omega
    omega
  · have highCb : 128 ≤ cb := by omega
    have bright : 34 ≤ luma := by
      rcases blue with low | full
      · omega
      · omega
    have shift : -30 ≤ diffG (cb - 128) (cr - 128) := by
      unfold diffG
      simp only [shr_eq_div, Int.reducePow]
      omega
    omega

/-- With neutral `Cr` and no luma, green is black for `Cb` from 120 on. -/
theorem black_of_neutral_cr (cb_mem : 0 ≤ cb ∧ cb ≤ 128) :
    diffG (cb - 128) (128 - 128) ≤ 0 ↔ 120 ≤ cb := by
  unfold diffG
  simp only [shr_eq_div, Int.reducePow]
  omega

theorem black_of_neutral_cb (cr_mem : 0 ≤ cr ∧ cr ≤ 128) :
    diffG (128 - 128) (cr - 128) ≤ 0 ↔ 122 ≤ cr := by
  unfold diffG
  simp only [shr_eq_div, Int.reducePow]
  omega

end Dark

/-- The two readings of the samples of a pixel agree exactly when the samples are free of
their sign. -/
theorem readings_eq_iff {luma cb cr : Int} (luma_mem : 0 ≤ luma ∧ luma ≤ 255)
    (cb_mem : 0 ≤ cb ∧ cb ≤ 255) (cr_mem : 0 ≤ cr ∧ cr ≤ 255) :
    rgbaPixel (signedLuma luma) (signedChroma cb) (signedChroma cr) =
        rgbaPixel luma (cb - 128) (cr - 128) ↔ SignFree luma cb cr := by
  rw [rgbaPixel_inj, SignFree]
  by_cases dark : luma < 128
  · have read : signedLuma luma = luma := if_pos dark
    rw [read, red_kept_iff luma_mem.1 cr_mem, blue_kept_iff luma_mem.1 cb_mem,
      green_kept_iff ⟨luma_mem.1, dark⟩ cb_mem cr_mem]
    simp only [dark, true_and]
    constructor
    · rintro ⟨red | ⟨rfl, rfl⟩, green, blue | ⟨zero, rfl⟩⟩
      · refine Or.inl ⟨red, blue, ?_⟩
        by_cases high : 128 ≤ cb ∨ 128 ≤ cr
        · have positive := green_positive cb_mem cr_mem red blue high
          omega
        · rw [cbStep_of_lt (by omega), crStep_of_lt (by omega)]
          rfl
      · have low : cr < 128 := by
          rcases red with low | full <;> omega
        have steps : cbStep 128 + crStep cr = -1 := by
          rw [crStep_of_lt low]
          rfl
        have black := (@black_of_neutral_cb cr ⟨cr_mem.1, by omega⟩).mp (by omega)
        exact Or.inr ⟨zero, Or.inr ⟨rfl, black, by omega⟩⟩
      · have low : cb < 128 := by
          rcases blue with low | full <;> omega
        have steps : cbStep cb + crStep 128 = -2 := by
          rw [cbStep_of_lt low]
          rfl
        have black := (@black_of_neutral_cr cb ⟨cb_mem.1, by omega⟩).mp (by omega)
        exact Or.inr ⟨rfl, Or.inl ⟨rfl, black, by omega⟩⟩
      · exact Or.inr ⟨rfl, Or.inl ⟨rfl, by omega, by omega⟩⟩
    · rintro (⟨red, blue, same⟩ | ⟨rfl, ⟨rfl, above, below⟩ | ⟨rfl, above, below⟩⟩)
      · exact ⟨Or.inl red, Or.inl same, Or.inl blue⟩
      · have black := (@black_of_neutral_cr cb ⟨cb_mem.1, below⟩).mpr above
        have steps : cbStep cb + crStep 128 ≤ 0 := by
          rcases (show cb < 128 ∨ cb = 128 by omega) with low | rfl
          · rw [cbStep_of_lt low]
            decide
          · decide
        refine ⟨Or.inr ⟨rfl, rfl⟩, Or.inr ⟨by omega, by omega⟩, ?_⟩
        rcases (show cb < 128 ∨ cb = 128 by omega) with low | rfl
        · exact Or.inl (Or.inl low)
        · exact Or.inr ⟨rfl, rfl⟩
      · have black := (@black_of_neutral_cb cr ⟨cr_mem.1, below⟩).mpr above
        have steps : cbStep 128 + crStep cr ≤ 0 := by
          rcases (show cr < 128 ∨ cr = 128 by omega) with low | rfl
          · rw [crStep_of_lt low]
            decide
          · decide
        refine ⟨?_, Or.inr ⟨by omega, by omega⟩, Or.inr ⟨rfl, rfl⟩⟩
        rcases (show cr < 128 ∨ cr = 128 by omega) with low | rfl
        · exact Or.inl (Or.inl low)
        · exact Or.inr ⟨rfl, rfl⟩
  · refine iff_of_false ?_ (fun both => dark both.1)
    rintro ⟨-, green, -⟩
    have plain := @diffG_mem (cb - 128) (cr - 128) (by omega) (by omega) (by omega) (by omega)
    have signed := @diffG_mem (signedChroma cb) (signedChroma cr)
      (by unfold signedChroma; omega) (by unfold signedChroma; omega)
      (by unfold signedChroma; omega) (by unfold signedChroma; omega)
    have read : signedLuma luma = luma - 256 := if_neg dark
    rw [read, clamp_eq_iff_of_lt (by omega)] at green
    omega

/-! ## All pixels -/

/-- The output is the same for a signed and an unsigned `char`. -/
def SignIndependent (yvyu : Frame) (width height : Nat) : Prop :=
  (yvyu2RGBA true yvyu width height).map Packed.pixels =
    (yvyu2RGBA false yvyu width height).map Packed.pixels

instance (yvyu : Frame) (width height : Nat) : Decidable (SignIndependent yvyu width height) :=
  inferInstanceAs (Decidable (_ = _))

theorem sourcePixel_eq_iff (yvyu : Frame) (width y x : Nat) :
    sourcePixel true yvyu width y x = sourcePixel false yvyu width y x ↔
      SignFree (lumaAt yvyu width y x) (cbAt yvyu width y x) (crAt yvyu width y x) := by
  rw [sourcePixel_signed, sourcePixel_unsigned]
  exact readings_eq_iff (byte_mem _) (byte_mem _) (byte_mem _)

/-- For even widths the output does not depend on the sign of `char` exactly when the samples
of every pixel are free of their sign. -/
theorem signIndependent_iff (yvyu : Frame) {width : Nat} (height : Nat)
    (evenWidth : width % 2 = 0) :
    SignIndependent yvyu width height ↔ ∀ y < height, ∀ x < width,
      SignFree (lumaAt yvyu width y x) (cbAt yvyu width y x) (crAt yvyu width y x) := by
  obtain ⟨half, rfl⟩ : ∃ half, width = 2 * half := ⟨width / 2, by omega⟩
  rw [SignIndependent, yvyu2RGBA_eq, yvyu2RGBA_eq, Int.toNat_natCast, Option.map_some,
    Option.map_some, Option.some.injEq]
  constructor
  · intro same y inside x inRow
    have stores : (packedAt true yvyu (2 * half : Nat) height 0).stores =
        (packedAt false yvyu (2 * half : Nat) height 0).stores := by
      rw [Packed.stores, same]
      rfl
    have signed := @rgbData_even true yvyu half height (fun _ => 0) y x inside inRow
    rw [stores, rgbData_even _ inside inRow] at signed
    exact (sourcePixel_eq_iff yvyu (2 * half) y x).mp signed.symm
  · intro free
    simp only [packedAt, appended_zero, List.append_nil, columns_even]
    refine appended_congr fun row inside => appended_congr fun column inRow => ?_
    rw [packedPixels_even, packedPixels_even,
      (sourcePixel_eq_iff yvyu (2 * half) row _).mpr (free row inside (2 * column) (by omega)),
      (sourcePixel_eq_iff yvyu (2 * half) row _).mpr (free row inside (2 * column + 1) (by omega))]

/-- A frame of dark samples. -/
theorem signIndependent_dark : SignIndependent (fun _ => 100) 640 480 :=
  (signIndependent_iff (fun _ => 100) 480 (by decide)).mpr fun _ _ _ _ =>
    (by decide : SignFree 100 100 100)

/-- Two pixels of middle grey are black for a signed `char`. -/
theorem not_signIndependent :
    ¬ ∀ (yvyu : Frame) (width height : Nat), width % 2 = 0 →
      SignIndependent yvyu width height := by
  intro always
  have same := always (fun _ => 128) 2 1 (by decide)
  exact absurd same (by decide)

end UsbCamera
