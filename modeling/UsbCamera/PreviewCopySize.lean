import UsbCamera.PreviewPicture

/-!
# The size of the preview copy

`drawPreviewSurface` asks for a window buffer of even sizes and copies as many bytes as its
rows and columns take, padding included, out of a scratch buffer that holds the picture
without padding.  The copy ends inside the scratch buffer only when there is no padding at
all: no added row, no added column, and chroma rows that are a multiple of 16 long.
-/

namespace UsbCamera

open CheckedInt

/-! ## The sizes -/

/-- `(size + 1) & ~1`, the width and the height requested of the window. -/
def evenUp (size : Int) : Option Int := do
  let next ← checked (size + 1)
  some (BitVec.ofInt 32 next &&& ~~~1#32).toInt

/-- `new char[mWidth * mHeight * 3 / 2]` -/
def scratchSize (mWidth mHeight : Int) : Option Int := do
  let pixels ← checked (mWidth * mHeight)
  let bytes ← checked (pixels * 3)
  some (bytes.tdiv 2)

theorem evenUp_natCast {size : Nat} (small : size + 1 < 2 ^ 31) :
    evenUp size = some (((size + 1) / 2 * 2 : Nat) : Int) := by
  have next : checked ((size : Int) + 1) = some ((size + 1 : Nat) : Int) :=
    checked_of_fits ⟨by omega, by omega⟩
  rw [evenUp, next]
  exact congrArg some (BitMask.toInt_and_not small (show 1 ≤ 32 by omega) rfl)

theorem scratchSize_natCast {width height : Nat} (small : 3 * (width * height) < 2 ^ 31) :
    scratchSize width height = some ((width * height * 3 / 2 : Nat) : Int) := by
  have pixels : checked ((width : Int) * height) = some ((width * height : Nat) : Int) := by
    rw [← Int.natCast_mul]
    exact checked_of_fits ⟨by omega, by omega⟩
  have bytes : checked (((width * height : Nat) : Int) * 3) =
      some ((width * height * 3 : Nat) : Int) := by
    have value : ((width * height : Nat) : Int) * 3 = ((width * height * 3 : Nat) : Int) := by
      omega
    rw [value]
    exact checked_of_fits ⟨by omega, by omega⟩
  rw [scratchSize, pixels, Option.bind_eq_bind, Option.bind_some, bytes]
  rfl

/-- `ALIGN(stride / 2, 16)` -/
def chromaStride (stride : Nat) : Nat :=
  (stride / 2 + 15) / 16 * 16

/-- The chroma rows are padded unless the stride is a multiple of 32. -/
theorem chromaStride_bounds {stride : Nat} (aligned : stride % 16 = 0) (positive : 0 < stride) :
    stride ≤ 2 * chromaStride stride ∧ chromaStride stride ≤ stride ∧
      (2 * chromaStride stride ≤ stride ↔ stride % 32 = 0) := by
  unfold chromaStride
  omega

/-- The sizes of the copy do not wrap when the `int` product of the luma plane fits. -/
theorem copySize_natCast {stride height : Nat} (aligned : stride % 16 = 0)
    (positive : 0 < stride) (tall : 2 ≤ height) (small : stride * height < 2 ^ 31) :
    ∃ copied, WindowBuffer.copySize ⟨stride, height⟩ = some copied ∧
      ALIGN ((stride : Int).tdiv 2) 16 = some (chromaStride stride : Int) ∧
      copied.toNat = stride * height + 2 * (chromaStride stride * height / 2) := by
  obtain ⟨-, narrow, -⟩ := chromaStride_bounds aligned positive
  have rows : stride * 2 ≤ stride * height := Nat.mul_le_mul_left stride tall
  have chroma : chromaStride stride * height ≤ stride * height := Nat.mul_le_mul_right height narrow
  have size : checked ((stride : Int) * height) = some ((stride * height : Nat) : Int) := by
    rw [← Int.natCast_mul]
    exact checked_of_fits ⟨by omega, by omega⟩
  have quotient : (stride : Int).tdiv 2 = ((stride / 2 : Nat) : Int) := by
    rw [show (2 : Int) = ((2 : Nat) : Int) from rfl, ← Int.ofNat_tdiv]
  have align : ALIGN ((stride : Int).tdiv 2) 16 = some (chromaStride stride : Int) := by
    rw [quotient, ALIGN_16 (by omega)]
    rfl
  refine ⟨BitVec.ofNat 32 (stride * height) +
    BitVec.ofNat 32 (chromaStride stride) * BitVec.ofNat 32 height / 2#32 * 2#32, ?_, align, ?_⟩
  · simp only [WindowBuffer.copySize, size, align, Option.bind_eq_bind, Option.bind_some,
      BitVec.ofInt_natCast]
  · have two : 2 % 2 ^ 32 = 2 := rfl
    simp only [BitVec.toNat_add, BitVec.toNat_mul, BitVec.toNat_udiv, BitVec.toNat_ofNat,
      ← Nat.mul_mod, two]
    omega

/-! ## Which copies end inside the scratch buffer -/

/-- For buffers at least as large as the picture, the copy is no longer than the picture just
when nothing is padded. -/
theorem copied_le_iff {width height stride rows : Nat} (wide : 0 < width) (tall : 0 < height)
    (aligned : stride % 16 = 0) (covers : width ≤ stride) (even : rows = (height + 1) / 2 * 2) :
    stride * rows + 2 * (chromaStride stride * rows / 2) ≤ width * height * 3 / 2 ↔
      height % 2 = 0 ∧ stride = width ∧ width % 32 = 0 := by
  obtain ⟨padded, -, unpadded⟩ := chromaStride_bounds aligned (by omega)
  have halves : 2 * (chromaStride stride * rows / 2) = chromaStride stride * rows := by
    rw [even, ← Nat.mul_assoc, Nat.mul_div_cancel _ (by omega), Nat.mul_comm]
  rw [halves]
  constructor
  · intro inside
    have chroma : stride * rows ≤ 2 * (chromaStride stride * rows) := by
      rw [← Nat.mul_assoc]
      exact Nat.mul_le_mul_right rows padded
    have luma : stride * rows ≤ width * height := by omega
    have sameStride : stride = width := by
      by_contra longer
      have rowsAbove : (width + 1) * height ≤ stride * rows :=
        Nat.mul_le_mul (by omega) (by omega)
      rw [Nat.succ_mul] at rowsAbove
      omega
    have sameRows : rows = height := by
      by_contra longer
      have rowsAbove : width * (height + 1) ≤ stride * rows :=
        Nat.mul_le_mul covers (by omega)
      rw [Nat.mul_succ] at rowsAbove
      omega
    rw [sameStride, sameRows] at inside
    have exactChroma : chromaStride width * 2 * height ≤ width * height := by
      rw [Nat.mul_right_comm]
      omega
    have chromaLe := Nat.le_of_mul_le_mul_right exactChroma tall
    rw [sameStride] at unpadded
    exact ⟨by omega, sameStride, unpadded.mp (by omega)⟩
  · rintro ⟨evenHeight, rfl, multiple⟩
    have sameRows : rows = height := by omega
    have exact : 2 * chromaStride stride = stride :=
      Nat.le_antisymm (unpadded.mpr multiple) padded
    have chroma : 2 * (chromaStride stride * height) = stride * height := by
      rw [← Nat.mul_assoc, exact]
    rw [sameRows]
    omega

/-- `drawPreviewSurface` computes both sizes, the copy takes the bytes of the padded planes,
and every byte it reads has been allocated. -/
def CopiesInside (width height : Nat) (buf : WindowBuffer) : Prop :=
  ∃ (allocated : Int) (copied : BitVec 32), scratchSize width height = some allocated ∧
    buf.copySize = some copied ∧ ∀ offset < copied.toNat, (offset : Int) < allocated

/-- The copy reads a byte behind the scratch buffer. -/
def OverReads (width height : Nat) (buf : WindowBuffer) : Prop :=
  ∃ (allocated : Int) (copied : BitVec 32), scratchSize width height = some allocated ∧
    buf.copySize = some copied ∧ ∃ offset < copied.toNat, allocated ≤ (offset : Int)

section Bounds

variable {width height allocated : Nat} {buf : WindowBuffer} {copied : BitVec 32}

theorem copiesInside_iff_le (scratch : scratchSize width height = some (allocated : Int))
    (size : buf.copySize = some copied) :
    CopiesInside width height buf ↔ copied.toNat ≤ allocated := by
  constructor
  · rintro ⟨_, _, first, second, inside⟩
    rw [scratch] at first
    rw [size] at second
    cases first
    cases second
    by_contra beyond
    have last := inside allocated (by omega)
    omega
  · intro inside
    exact ⟨_, _, scratch, size, fun offset below => by omega⟩

theorem overReads_iff_lt (scratch : scratchSize width height = some (allocated : Int))
    (size : buf.copySize = some copied) :
    OverReads width height buf ↔ allocated < copied.toNat := by
  constructor
  · rintro ⟨_, _, first, second, offset, below, behind⟩
    rw [scratch] at first
    rw [size] at second
    cases first
    cases second
    omega
  · intro beyond
    exact ⟨_, _, scratch, size, allocated, beyond, le_refl _⟩

end Bounds

/-- For every size of the camera and every buffer with the requested height and an aligned
stride that covers the requested width, the copied bytes are those of the padded planes, and
the copy stays inside the scratch buffer exactly for even heights and unpadded rows of a
multiple of 32 pixels; otherwise it reads past the end. -/
theorem copiesInside_iff {width height stride : Nat} {bufWidth bufHeight : Int}
    (wide : 0 < width) (tall : 0 < height) (requestedWidth : evenUp width = some bufWidth)
    (requestedHeight : evenUp height = some bufHeight) (aligned : stride % 16 = 0)
    (covers : bufWidth ≤ stride) (scratch : Fits ((width : Int) * height * 3))
    (window : Fits (stride * bufHeight)) :
    (∃ copied cStride, WindowBuffer.copySize ⟨stride, bufHeight⟩ = some copied ∧
      ALIGN ((stride : Int).tdiv 2) 16 = some cStride ∧
      (copied.toNat : Int) = stride * bufHeight + 2 * (cStride * bufHeight).tdiv 2) ∧
    (CopiesInside width height ⟨stride, bufHeight⟩ ↔
      height % 2 = 0 ∧ stride = width ∧ width % 32 = 0) ∧
    (OverReads width height ⟨stride, bufHeight⟩ ↔
      ¬ (height % 2 = 0 ∧ stride = width ∧ width % 32 = 0)) := by
  have pixels : 3 * (width * height) < 2 ^ 31 := by
    have bound := scratch.2
    rw [← Int.natCast_mul] at bound
    omega
  have widthBound : width ≤ width * height := Nat.le_mul_of_pos_right _ tall
  have heightBound : height ≤ width * height := Nat.le_mul_of_pos_left _ wide
  rw [evenUp_natCast (by omega)] at requestedWidth requestedHeight
  obtain rfl := Option.some.inj requestedWidth
  obtain rfl := Option.some.inj requestedHeight
  have luma : stride * ((height + 1) / 2 * 2) < 2 ^ 31 := by
    have bound := window.2
    rw [← Int.natCast_mul] at bound
    omega
  obtain ⟨copied, size, align, bytes⟩ :=
    copySize_natCast aligned (by omega) (show 2 ≤ (height + 1) / 2 * 2 by omega) luma
  have le_iff := copied_le_iff wide tall aligned (show width ≤ stride by omega) rfl
  rw [← bytes] at le_iff
  have allocated := scratchSize_natCast pixels
  refine ⟨⟨copied, chromaStride stride, size, align, ?_⟩, ?_, ?_⟩
  · rw [bytes, ← Int.natCast_mul, ← Int.natCast_mul, show (2 : Int) = ((2 : Nat) : Int) from rfl,
      ← Int.ofNat_tdiv]
    push_cast
    rfl
  · rw [copiesInside_iff_le allocated size, le_iff]
  · rw [overReads_iff_lt allocated size, ← le_iff, Nat.not_le]

theorem copiesInside_vga :
    CopiesInside 640 480 ⟨(640 : Nat), 480⟩ ∧ OverReads 176 144 ⟨(176 : Nat), 144⟩ :=
  ⟨(copiesInside_iff (by decide) (by decide) (by decide : evenUp (640 : Nat) = some 640)
      (by decide) (by decide) (by decide) (by decide) (by decide)).2.1.mpr (by decide),
    (copiesInside_iff (by decide) (by decide) (by decide : evenUp (176 : Nat) = some 176)
      (by decide) (by decide) (by decide) (by decide) (by decide)).2.2.mpr (by decide)⟩

end UsbCamera
