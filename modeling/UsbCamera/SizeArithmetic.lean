import UsbCamera.BufferOwnership
import UsbCamera.EncoderPicture
import UsbCamera.EncoderSnapshot
import UsbCamera.NegotiatedFormat
import UsbCamera.PreviewCopySize

/-!
# The arithmetic of the frame size

The size a camera is given is never looked at, not even after the driver has granted another
one.  Drawing multiplies it in `int`: the two scratch buffers, the planes, every macropixel
index and the margins of the crop.  The size of the encoder image is the largest of these, and
when it fits all of them do.
-/

namespace UsbCamera

open CheckedInt CountedLoop

/-! ## The expressions -/

/-- `mWidth * mHeight * 4` -/
def imageSize (mWidth mHeight : Int) : Option Int := do
  let pixels ← checked (mWidth * mHeight)
  checked (pixels * 4)

/-- `width * height`, where `U` starts. -/
def lumaSize (width height : Int) : Option Int :=
  checked (width * height)

/-- `width * height / 4`, from `U` to `V`. -/
def chromaSize (width height : Int) : Option Int := do
  let pixels ← checked (width * height)
  some (pixels.tdiv 4)

/-- `(i * width / 2 + j) * 4` -/
def sourceOffset (width : Int) (i j : Nat) : Option Int := do
  let rowStart ← checked (i * width)
  let macropixel ← checked (rowStart.tdiv 2 + j)
  checked (macropixel * 4)

/-- These are the expressions the planar converter evaluates. -/
theorem yvyu2Yuv420_expressions (yvyu : Frame) (width height : Int) :
    yvyu2Yuv420 yvyu width height =
      (lumaSize width height).bind fun luma => (chromaSize width height).bind fun chroma =>
        forRange (fun i => forRange (fun j planar =>
          (sourceOffset width i j).map fun source => storeMacropixel yvyu i j source planar)
          (columns width)) height.toNat ⟨0, luma, luma + chroma, [], []⟩ := by
  have body : ∀ (i j : Nat) (planar : Planar),
      ((checked (i * width)).bind fun rowStart =>
        (checked (rowStart.tdiv 2 + j)).bind fun macropixel =>
          (checked (macropixel * 4)).bind fun source =>
            some (storeMacropixel yvyu i j source planar)) =
      (sourceOffset width i j).map fun source => storeMacropixel yvyu i j source planar := by
    intro i j planar
    simp only [sourceOffset, Option.bind_eq_bind, Option.map_eq_bind, Function.comp_def,
      Option.bind_assoc]
  by_cases fits : Fits (width * height)
  · simp only [yvyu2Yuv420, lumaSize, chromaSize, checked_of_fits fits, Option.bind_eq_bind,
      Option.bind_some, body]
  · simp [yvyu2Yuv420, lumaSize, checked, fits]

/-- `evaluated` has its mathematical value, and that is not negative. -/
def Exact (evaluated : Option Int) (value : Int) : Prop :=
  evaluated = some value ∧ 0 ≤ value

/-- What the copy into a locked buffer evaluates: the size of the image when the buffer has the
same, and for a smaller one the three `int` offsets of the crop and the running ones. -/
def CopyExact (mWidth mHeight : Int) (buffer : Geometry) : Prop :=
  if mWidth = buffer.width ∧ mHeight = buffer.height then
    Exact (imageSize mWidth mHeight) (mWidth * mHeight * 4)
  else
    buffer.width ≤ mWidth → buffer.height ≤ mHeight →
      copyFrameCenterGravity buffer.width buffer.height mWidth mHeight 2 =
        some ((List.range buffer.height).map fun row =>
          ⟨row * (buffer.width * 4),
            (cropCorner buffer.width buffer.height mWidth.toNat mHeight.toNat +
              row * cropPitch buffer.width mWidth.toNat) * 4,
            buffer.width * 4⟩)

/-- The size expressions a step of a drawing function evaluates are exact; a locked window
buffer has pixels. -/
def Action.SizesExact (mWidth mHeight : Int) : Action → Prop
  | .allocScratch .yuv420sp => Exact (scratchSize mWidth mHeight) (mWidth * mHeight * 3 / 2)
  | .allocScratch .rgba8888 => Exact (imageSize mWidth mHeight) (mWidth * mHeight * 4)
  | .convert .yuv420sp _ =>
      Exact (lumaSize mWidth mHeight) (mWidth * mHeight) ∧
        Exact (chromaSize mWidth mHeight) (mWidth * mHeight / 4) ∧
        ∀ i j : Nat, i < mHeight → j < mWidth / 2 →
          Exact (sourceOffset mWidth i j) ((i * mWidth / 2 + j) * 4)
  | .copyScratch .rgba8888 => ∀ buffer : Geometry, 0 < buffer.width → 0 < buffer.height →
      CopyExact mWidth mHeight buffer
  | _ => True

/-! ## Sizes that fit -/

/-- The encoder image has a size: its number of bytes is an `int`. -/
theorem imageSize_exact_iff (mWidth mHeight : Int) :
    Exact (imageSize mWidth mHeight) (mWidth * mHeight * 4) ↔
      0 ≤ mWidth * mHeight ∧ mWidth * mHeight * 4 < 2 ^ 31 := by
  constructor
  · rintro ⟨evaluated, nonneg⟩
    simp only [imageSize, Option.bind_eq_bind, Option.bind_eq_some_iff, checked_eq_some_iff]
      at evaluated
    obtain ⟨pixels, ⟨-, rfl⟩, fits, -⟩ := evaluated
    exact ⟨by omega, fits.2⟩
  · rintro ⟨nonneg, small⟩
    refine ⟨?_, by omega⟩
    rw [imageSize, checked_of_fits ⟨by omega, by omega⟩, Option.bind_eq_bind, Option.bind_some,
      checked_of_fits ⟨by omega, small⟩]

section Small

variable {mWidth mHeight : Int} (nonneg : 0 ≤ mWidth * mHeight)
  (small : mWidth * mHeight * 4 < 2 ^ 31)

include nonneg small

theorem scratchSize_exact :
    Exact (scratchSize mWidth mHeight) (mWidth * mHeight * 3 / 2) := by
  refine ⟨?_, by omega⟩
  rw [scratchSize, checked_of_fits ⟨by omega, by omega⟩, Option.bind_eq_bind, Option.bind_some,
    checked_of_fits ⟨by omega, by omega⟩, Option.bind_some,
    Int.tdiv_eq_ediv_of_nonneg (by omega)]

theorem lumaSize_exact : Exact (lumaSize mWidth mHeight) (mWidth * mHeight) :=
  ⟨checked_of_fits ⟨by omega, by omega⟩, nonneg⟩

theorem chromaSize_exact : Exact (chromaSize mWidth mHeight) (mWidth * mHeight / 4) := by
  refine ⟨?_, by omega⟩
  rw [chromaSize, checked_of_fits ⟨by omega, by omega⟩, Option.bind_eq_bind, Option.bind_some,
    Int.tdiv_eq_ediv_of_nonneg nonneg]

theorem sourceOffset_exact {i j : Nat} (inside : i < mHeight) (inRow : j < mWidth / 2) :
    Exact (sourceOffset mWidth i j) ((i * mWidth / 2 + j) * 4) := by
  have before : (i + 1) * mWidth ≤ mWidth * mHeight := by
    rw [Int.mul_comm mWidth]
    exact Int.mul_le_mul_of_nonneg_right (by omega) (by omega)
  have start : 0 ≤ i * mWidth := Int.mul_nonneg (by omega) (by omega)
  rw [Int.add_mul, Int.one_mul] at before
  refine ⟨?_, by omega⟩
  rw [sourceOffset, checked_of_fits ⟨by omega, by omega⟩, Option.bind_eq_bind, Option.bind_some,
    Int.tdiv_eq_ediv_of_nonneg start, checked_of_fits ⟨by omega, by omega⟩, Option.bind_some,
    checked_of_fits ⟨by omega, by omega⟩]

theorem copyExact {buffer : Geometry} (wide : 0 < buffer.width) (tall : 0 < buffer.height) :
    CopyExact mWidth mHeight buffer := by
  unfold CopyExact
  split
  · exact (imageSize_exact_iff _ _).mpr ⟨nonneg, small⟩
  · intro narrow short
    obtain ⟨width, rfl⟩ := Int.eq_ofNat_of_zero_le (show 0 ≤ mWidth by omega)
    obtain ⟨height, rfl⟩ := Int.eq_ofNat_of_zero_le (show 0 ≤ mHeight by omega)
    have narrow : buffer.width ≤ width := by omega
    have short : buffer.height ≤ height := by omega
    have bytes : 4 * (width * height) < 2 ^ 31 := by
      have product : (width : Int) * height = ((width * height : Nat) : Int) := by push_cast; rfl
      omega
    have fits := cropFits_of_visible narrow short ⟨wide, tall⟩ bytes
    have unwrapped := cropUnwrapped_of_visible narrow short ⟨wide, tall⟩ bytes
    rw [copyFrameCenterGravity_eq narrow short, if_pos fits, Int.toNat_natCast, Int.toNat_natCast]
    refine congrArg some ((appended_congr fun row inside => ?_).trans (appended_singleton _ _))
    rw [cropRow_eq fits unwrapped inside]
    rfl

theorem Action.sizesExact (action : Action) : action.SizesExact mWidth mHeight := by
  cases action with
  | allocScratch scratch =>
      cases scratch with
      | yuv420sp => exact scratchSize_exact nonneg small
      | rgba8888 => exact (imageSize_exact_iff _ _).mpr ⟨nonneg, small⟩
  | convert scratch index =>
      cases scratch with
      | yuv420sp =>
          exact ⟨lumaSize_exact nonneg small, chromaSize_exact nonneg small,
            fun i j inside inRow => sourceOffset_exact nonneg small inside inRow⟩
      | rgba8888 => trivial
  | copyScratch scratch =>
      cases scratch with
      | yuv420sp => trivial
      | rgba8888 => exact fun buffer wide tall => copyExact nonneg small wide tall
  | _ => trivial

end Small

/-! ## Runs -/

namespace World

/-- In every run, whatever the driver answers, every size expression that drawing evaluates is
exact. -/
def SizesFit (width height : Int) : Prop :=
  ∀ (events : List Event) (final : World), run (attached width height) events = some final →
    EveryStep (fun world event => event.2.SizesExact world.camera.mWidth world.camera.mHeight)
      (attached width height) events

/-- A driver that grants 640 × 480, whatever was asked for, and one frame for one encoder, up
to the allocation of the encoder image. -/
def encoderImageEvents : List Event :=
  addEncoderEvents 2 10 ++ startEvents 5 1 ++ captureToDequeueEvents 5 1 (.filled 0) ++
    [.readPreview none, .lock .previewLock, .readPreview none, .freeScratch .yuv420sp,
      .unlock .previewLock, .lock .encoderLock, .encodersEmpty false].map fun action => (1, action)

theorem exists_encoderImage (width height : Int) : ∃ before final,
    run (attached width height) encoderImageEvents = some before ∧
      before.step (1, .allocScratch .rgba8888) = some final := by
  obtain ⟨final, ran⟩ := Option.isSome_iff_exists.mp
    (rfl : (run (attached width height)
      (encoderImageEvents ++ [(1, .allocScratch .rgba8888)])).isSome = true)
  obtain ⟨before, after, reached, stepped, -⟩ := LabelledRun.run_append_cons_iff.mp ran
  exact ⟨before, after, reached, stepped⟩

theorem size_of_sizesFit {width height : Int} (fit : SizesFit width height) :
    0 ≤ width * height ∧ width * height * 4 < 2 ^ 31 := by
  obtain ⟨before, final, reached, stepped⟩ := exists_encoderImage width height
  have every := fit (encoderImageEvents ++ [(1, .allocScratch .rgba8888)]) final
    (LabelledRun.run_append reached (LabelledRun.run_cons_iff.mpr ⟨final, stepped, rfl⟩))
  have exact := (LabelledRun.everyStep_cons_iff.mp
    ((LabelledRun.everyStep_append_iff reached).mp every).2).1
  rw [(size_of_run reached).1, (size_of_run reached).2] at exact
  exact (imageSize_exact_iff width height).mp exact

/-- The size of the camera does not change, so every step is exact when its arithmetic fits. -/
theorem everyStep_sizesExact {world final : World} {events : List Event}
    (nonneg : 0 ≤ world.camera.mWidth * world.camera.mHeight)
    (small : world.camera.mWidth * world.camera.mHeight * 4 < 2 ^ 31)
    (ran : run world events = some final) :
    EveryStep (fun world event => event.2.SizesExact world.camera.mWidth world.camera.mHeight)
      world events := by
  induction events generalizing world with
  | nil => trivial
  | cons event events ih =>
      obtain ⟨next, stepped, rest⟩ := LabelledRun.run_cons_iff.mp ran
      obtain ⟨width, height⟩ := Camera.size_of_apply (camera_of_step stepped)
      rw [EveryStep, LabelledRun.everyStep_cons_iff]
      refine ⟨event.2.sizesExact nonneg small, ?_⟩
      intro other otherStep
      cases Option.some.inj (stepped.symm.trans otherStep)
      exact ih (by rwa [width, height]) (by rwa [width, height]) rest

/-- The arithmetic of drawing is exact exactly when the encoder image has a non-negative size
that is an `int`. -/
theorem sizesFit_iff (width height : Int) :
    SizesFit width height ↔ 0 ≤ width * height ∧ width * height * 4 < 2 ^ 31 :=
  ⟨size_of_sizesFit, fun size _ _ ran => everyStep_sizesExact size.1 size.2 ran⟩

/-- 32768 × 32768, with a driver that grants 640 × 480: the encoder image would need 2³² bytes,
and a product that wraps asks for none. -/
theorem not_sizesFit :
    ¬ ∀ width height : Int, Fits width → Fits height → SizesFit width height := by
  intro always
  have size := size_of_sizesFit (always 32768 32768 (by decide) (by decide))
  exact absurd size.2 (by decide)

end World

end UsbCamera
