import UsbCamera.CenterCrop
import UsbCamera.FrameConversion

/-!
# The pictures the encoders get

`drawEncoderSurface` converts a frame once and copies it into the buffer of every surface
it can lock: whole when the sizes agree, and otherwise the middle of it.  Both ways the
rows are written one behind the other, whatever the stride of the buffer, and a buffer
larger than the picture is posted as it was.  This file says exactly which buffers are
drawn in full.
-/

namespace UsbCamera

open CheckedInt CountedLoop

/-! ## The code -/

/-- The geometry of a locked buffer, in pixels of four bytes. -/
structure Geometry where
  width : Nat
  height : Nat
  stride : Nat
  width_le : width ≤ stride
  deriving DecidableEq

/-- `new char[mWidth * mHeight * 4]` has a size. -/
def RgbaFits (mWidth mHeight : Int) : Prop :=
  Fits (mWidth * mHeight) ∧ Fits (mWidth * mHeight * 4) ∧ 0 ≤ mWidth * mHeight * 4

instance (mWidth mHeight : Int) : Decidable (RgbaFits mWidth mHeight) :=
  inferInstanceAs (Decidable (_ ∧ _))

/-- The pointer `mRGBA8888`: null, or a buffer whose size was computed when it was
allocated. -/
structure RgbaScratch (mWidth mHeight : Int) where
  allocated : Bool
  fits : allocated = true → RgbaFits mWidth mHeight

variable {mWidth mHeight : Int}

def RgbaScratch.null : RgbaScratch mWidth mHeight :=
  ⟨false, by simp⟩

def RgbaScratch.allocate (scratch : RgbaScratch mWidth mHeight) :
    Option (RgbaScratch mWidth mHeight) :=
  if scratch.allocated then some scratch
  else if fits : RgbaFits mWidth mHeight then some ⟨true, fun _ => fits⟩
  else none

/-- A buffer as it is posted: whose it is and what this call has copied into `bits`. -/
structure Post (Surface : Type) where
  surface : Surface
  buffer : Geometry
  copies : List Copy

/-- What is copied into a locked buffer. -/
def drawBuffer (mWidth mHeight : Int) (buffer : Geometry) : Option (List Copy) :=
  if mWidth = buffer.width ∧ mHeight = buffer.height then do
    let pixels ← checked (mWidth * mHeight)
    let bytes ← checked (pixels * 4)
    some [⟨0, 0, (BitVec.ofInt 32 bytes).toNat⟩]
  else copyFrameCenterGravity buffer.width buffer.height mWidth mHeight 2

/-- The loop over `mEncoderSurfaces`; a surface comes with the buffer its lock yields, if
it succeeds. -/
def drawSurfaces {Surface : Type} (mWidth mHeight : Int) :
    List (Surface × Option Geometry) → Option (List (Post Surface))
  | [] => some []
  | (_, none) :: surfaces => drawSurfaces mWidth mHeight surfaces
  | (surface, some buffer) :: surfaces => do
      let copies ← drawBuffer mWidth mHeight buffer
      let posts ← drawSurfaces mWidth mHeight surfaces
      some (⟨surface, buffer, copies⟩ :: posts)

/-- The outcome of one `drawEncoderSurface`: the converted image and the posted buffers. -/
structure EncoderPass (Surface : Type) (mWidth mHeight : Int) where
  mRGBA8888 : RgbaScratch mWidth mHeight
  image : List Pixel
  posts : List (Post Surface)

def drawEncoderSurface {Surface : Type} (signedChar : Bool) (yvyu : Frame)
    (mRGBA8888 : RgbaScratch mWidth mHeight) (surfaces : List (Surface × Option Geometry)) :
    Option (EncoderPass Surface mWidth mHeight) :=
  if surfaces.isEmpty then some ⟨RgbaScratch.null, [], []⟩
  else do
    let mRGBA8888 ← mRGBA8888.allocate
    let converted ← yvyu2RGBA signedChar yvyu mWidth mHeight
    let posts ← drawSurfaces mWidth mHeight surfaces
    some ⟨mRGBA8888, converted.pixels, posts⟩

/-! ## Buffers drawn in full -/

/-- The surfaces whose lock succeeds, in order. -/
def lockedSurfaces {Surface : Type} (surfaces : List (Surface × Option Geometry)) :
    List (Surface × Geometry) :=
  surfaces.filterMap fun entry => entry.2.map fun buffer => (entry.1, buffer)

/-- Every visible pixel holds the four bytes of a pixel of the image from row
`vm + y`, where `vm` is the vertical crop margin. -/
def FullyDrawn (mHeight : Int) (image : List Pixel) (buffer : Geometry) (copies : List Copy) :
    Prop :=
  ∀ y < buffer.height, ∀ x < buffer.width, ∃ pixel ∈ image,
    (pixel.row : Int) = shr (mHeight - buffer.height + 1) 1 + y ∧
    ∀ byte < 4, Copy.copiedFrom copies (4 * (y * buffer.stride + x) + byte) =
      some (4 * pixel.index + byte)

/-- Each surface whose lock succeeds is posted once, in order, and fully drawn. -/
def EncodersDrawn {Surface : Type} (signedChar : Bool) (yvyu : Frame)
    (mRGBA8888 : RgbaScratch mWidth mHeight) (surfaces : List (Surface × Option Geometry)) : Prop :=
  ∃ pass, drawEncoderSurface signedChar yvyu mRGBA8888 surfaces = some pass ∧
    (pass.posts.map fun post => (post.surface, post.buffer)) = lockedSurfaces surfaces ∧
    ∀ post ∈ pass.posts, FullyDrawn mHeight pass.image post.buffer post.copies

/-! ## The image -/

/-- The pixels a row of the image takes: an odd width loses its last column. -/
def imageRow (width : Nat) : Nat :=
  2 * (width / 2)

theorem exists_pixel_iff {signedChar : Bool} {yvyu : Frame} {width height row index : Nat} :
    (∃ pixel ∈ (packedAt signedChar yvyu width height 0).pixels,
        pixel.row = row ∧ pixel.index = index) ↔
      row < height ∧ row * imageRow width ≤ index ∧ index < (row + 1) * imageRow width := by
  have next : (row + 1) * imageRow width = row * imageRow width + 2 * (width / 2) :=
    Nat.succ_mul ..
  have start : row * imageRow width = 2 * (width / 2 * row) := by
    unfold imageRow
    ring
  rw [next, start]
  constructor
  · rintro ⟨pixel, member, rfl, rfl⟩
    obtain ⟨row, inside, column, inRow, member⟩ := mem_packed_pixels.mp member
    rw [columns_natCast] at inRow
    simp only [packedPixels, macropixelIndex, columns_natCast, List.mem_cons,
      List.not_mem_nil, or_false] at member
    rcases member with rfl | rfl
    · exact ⟨inside, by simp only; omega, by simp only; omega⟩
    · exact ⟨inside, by simp only; omega, by simp only; omega⟩
  · rintro ⟨inside, low, high⟩
    have inColumns : (index - 2 * (width / 2 * row)) / 2 < columns width := by
      rw [columns_natCast]
      omega
    have member : ∀ pixel ∈ packedPixels signedChar yvyu width row
        ((index - 2 * (width / 2 * row)) / 2),
          pixel ∈ (packedAt signedChar yvyu width height 0).pixels :=
      fun pixel here => mem_packed_pixels.mpr ⟨row, inside, _, inColumns, here⟩
    simp only [packedPixels, macropixelIndex, columns_natCast, List.forall_mem_cons] at member
    have parity : index = 2 * (width / 2 * row + (index - 2 * (width / 2 * row)) / 2) ∨
        index = 2 * (width / 2 * row + (index - 2 * (width / 2 * row)) / 2) + 1 := by omega
    rcases parity with even | odd
    · exact ⟨_, member.1, rfl, even.symm⟩
    · exact ⟨_, member.2.1, rfl, odd.symm⟩

/-! ## One buffer -/

/-- The buffer is not larger than the picture, its rows are not padded, and the last pixel
copied into it still belongs to its row of the image. -/
def Fills (width height : Nat) (buffer : Geometry) : Prop :=
  buffer.width ≤ width ∧ buffer.height ≤ height ∧
    (buffer.height = 1 ∨ buffer.stride = buffer.width) ∧
    cropCorner buffer.width buffer.height width height +
        (buffer.height - 1) * cropPitch buffer.width width + buffer.width ≤
      (cropMargin height buffer.height + buffer.height) * imageRow width

instance (width height : Nat) (buffer : Geometry) : Decidable (Fills width height buffer) :=
  inferInstanceAs (Decidable (_ ∧ _))

/-- The rows of the crop have been copied one behind the other, and nothing else. -/
structure Cropped (width height : Nat) (buffer : Geometry) (copies : List Copy) : Prop where
  rows : ∀ row < buffer.height, ∀ byte < buffer.width * 2 ^ 2,
    Copy.copiedFrom copies (row * (buffer.width * 2 ^ 2) + byte) =
      some ((cropCorner buffer.width buffer.height width height +
        row * cropPitch buffer.width width) * 2 ^ 2 + byte)
  behind : ∀ offset, buffer.height * (buffer.width * 2 ^ 2) ≤ offset →
    Copy.copiedFrom copies offset = none

section Visible

variable {width height : Nat} {buffer : Geometry} {copies : List Copy}

/-- When the last pixel of the crop is in its row of the image, every pixel is. -/
theorem Fills.row (fills : Fills width height buffer) {y x : Nat} (inside : y < buffer.height)
    (inRow : x < buffer.width) :
    cropMargin height buffer.height + y < height ∧
      (cropMargin height buffer.height + y) * imageRow width ≤
        cropCorner buffer.width buffer.height width height +
          y * cropPitch buffer.width width + x ∧
      cropCorner buffer.width buffer.height width height +
          y * cropPitch buffer.width width + x <
        (cropMargin height buffer.height + y + 1) * imageRow width := by
  obtain ⟨narrow, short, -, last⟩ := fills
  have margins := cropMargin_add_le short
  have inImage : imageRow width ≤ width := by
    unfold imageRow
    omega
  have longer : imageRow width ≤ cropPitch buffer.width width :=
    inImage.trans (cropPitch_bounds narrow).1
  obtain ⟨rest, height_eq⟩ : ∃ rest, buffer.height = y + rest + 1 :=
    ⟨buffer.height - (y + 1), by omega⟩
  refine ⟨by omega, ?_, ?_⟩
  · have above := Nat.mul_le_mul_left (cropMargin height buffer.height) inImage
    have here := Nat.mul_le_mul_left y longer
    rw [Nat.add_mul]
    unfold cropCorner
    omega
  · have below := Nat.mul_le_mul_left rest longer
    have rows : buffer.height - 1 = y + rest := by omega
    have lastRow : cropMargin height buffer.height + buffer.height =
        cropMargin height buffer.height + y + 1 + rest := by omega
    rw [rows, lastRow, Nat.add_mul y rest, Nat.add_mul _ rest] at last
    omega

/-- An even buffer in an even picture loses nothing to the rounding of its margin. -/
theorem fills_of_even (evenPicture : width % 2 = 0) (evenBuffer : buffer.width % 2 = 0)
    (narrow : buffer.width ≤ width) (short : buffer.height ≤ height)
    (tall : 0 < buffer.height) (unpadded : buffer.stride = buffer.width) :
    Fills width height buffer := by
  have row : imageRow width = width := by
    unfold imageRow
    omega
  have pitch : cropPitch buffer.width width = width := by
    unfold cropPitch cropMargin
    omega
  have left := cropMargin_add_le narrow
  obtain ⟨last, height_eq⟩ : ∃ last, buffer.height = last + 1 := ⟨buffer.height - 1, by omega⟩
  refine ⟨narrow, short, Or.inr unpadded, ?_⟩
  rw [row, pitch, cropCorner, height_eq, Nat.add_sub_cancel, ← Nat.add_assoc, Nat.add_mul,
    Nat.add_mul, Nat.one_mul]
  omega

namespace Cropped

theorem pixel (cropped : Cropped width height buffer copies) {y x byte : Nat}
    (inside : y < buffer.height) (inRow : x < buffer.width) (inPixel : byte < 4) :
    Copy.copiedFrom copies (4 * (y * buffer.width + x) + byte) =
      some (4 * (cropCorner buffer.width buffer.height width height +
        y * cropPitch buffer.width width + x) + byte) := by
  have dest : 4 * (y * buffer.width + x) + byte =
      y * (buffer.width * 2 ^ 2) + (4 * x + byte) := by ring
  have source : 4 * (cropCorner buffer.width buffer.height width height +
      y * cropPitch buffer.width width + x) + byte =
        (cropCorner buffer.width buffer.height width height +
          y * cropPitch buffer.width width) * 2 ^ 2 + (4 * x + byte) := by ring
  rw [dest, source]
  exact cropped.rows y inside _ (by omega)

/-- If the last visible pixel has been written then no row but the last ends in padding. -/
theorem unpadded (cropped : Cropped width height buffer copies) (wide : 0 < buffer.width)
    (tall : 0 < buffer.height)
    (written : Copy.copiedFrom copies
      (4 * ((buffer.height - 1) * buffer.stride + (buffer.width - 1)) + 0) ≠ none) :
    buffer.height = 1 ∨ buffer.stride = buffer.width := by
  by_contra padded
  rw [not_or] at padded
  refine written (cropped.behind _ ?_)
  obtain ⟨last, height⟩ : ∃ last, buffer.height = last + 1 := ⟨buffer.height - 1, by omega⟩
  have longer : last * (buffer.width + 1) ≤ last * buffer.stride :=
    Nat.mul_le_mul_left last (by have inside := buffer.width_le; omega)
  rw [Nat.mul_succ] at longer
  rw [height, Nat.add_sub_cancel, Nat.succ_mul, ← Nat.mul_assoc]
  omega

theorem fullyDrawn_iff {signedChar : Bool} {yvyu : Frame}
    (cropped : Cropped width height buffer copies) (narrow : buffer.width ≤ width)
    (short : buffer.height ≤ height) (visible : 0 < buffer.width ∧ 0 < buffer.height) :
    FullyDrawn height (packedAt signedChar yvyu width height 0).pixels buffer copies ↔
      Fills width height buffer := by
  have vertical := shr_margin short
  constructor
  · intro drawn
    obtain ⟨pixel, member, row, bytes⟩ :=
      drawn (buffer.height - 1) (by omega) (buffer.width - 1) (by omega)
    have unpadded := cropped.unpadded visible.1 visible.2 (by rw [bytes 0 (by omega)]; simp)
    have position : (buffer.height - 1) * buffer.stride = (buffer.height - 1) * buffer.width := by
      rcases unpadded with single | same
      · simp [single]
      · rw [same]
    have source := bytes 0 (by omega)
    rw [position, cropped.pixel (by omega) (by omega) (by omega)] at source
    have index := Option.some.inj source
    rw [vertical] at row
    obtain ⟨-, -, last⟩ := exists_pixel_iff.mp ⟨pixel, member, rfl, rfl⟩
    have lastRow : pixel.row + 1 = cropMargin height buffer.height + buffer.height := by omega
    rw [lastRow] at last
    exact ⟨narrow, short, unpadded, by omega⟩
  · intro fills y inside x inRow
    have position : y * buffer.stride = y * buffer.width := by
      rcases fills.2.2.1 with single | same
      · have first : y = 0 := by omega
        simp [first]
      · rw [same]
    obtain ⟨pixel, member, row, index⟩ :=
      exists_pixel_iff.mpr (fills.row inside inRow)
    refine ⟨pixel, member, ?_, ?_⟩
    · rw [vertical, row]
      push_cast
      rfl
    · intro byte inPixel
      rw [position, cropped.pixel inside inRow inPixel, index]

end Cropped

theorem cropped_whole (buffer : Geometry) :
    Cropped buffer.width buffer.height buffer
      [⟨0, 0, buffer.height * (buffer.width * 2 ^ 2)⟩] where
  rows row inside byte inRow := by
    have noMargin : ∀ size : Nat, cropMargin size size = 0 := by
      intro size
      unfold cropMargin
      omega
    have source : (cropCorner buffer.width buffer.height buffer.width buffer.height +
        row * cropPitch buffer.width buffer.width) * 2 ^ 2 + byte =
          row * (buffer.width * 2 ^ 2) + byte := by
      simp [cropCorner, cropPitch, noMargin, Nat.mul_assoc]
    have last := position_lt inRow inside
    rw [Nat.mul_comm _ row, Nat.mul_comm _ buffer.height] at last
    have covers : Copy.Covers ⟨0, 0, buffer.height * (buffer.width * 2 ^ 2)⟩
        (row * (buffer.width * 2 ^ 2) + byte) := ⟨Nat.zero_le _, by rw [Nat.zero_add]; exact last⟩
    rw [source, Copy.copiedFrom_of_mem (List.mem_singleton.mpr rfl) covers (by simp)]
    simp
  behind offset beyond := by
    refine Copy.copiedFrom_eq_none_iff.mpr fun copy member covers => ?_
    rw [List.mem_singleton.mp member] at covers
    have inside : offset < 0 + buffer.height * (buffer.width * 2 ^ 2) := covers.2
    omega

theorem drawBuffer_whole (small : 4 * (buffer.width * buffer.height) < 2 ^ 31) :
    drawBuffer buffer.width buffer.height buffer =
      some [⟨0, 0, buffer.height * (buffer.width * 2 ^ 2)⟩] := by
  have product : (buffer.width : Int) * buffer.height =
      ((buffer.width * buffer.height : Nat) : Int) := by
    push_cast
    rfl
  have pixels : Fits ((buffer.width * buffer.height : Nat) : Int) := ⟨by omega, by omega⟩
  have bytes : Fits (((buffer.width * buffer.height : Nat) : Int) * 4) := ⟨by omega, by omega⟩
  have size : (BitVec.ofInt 32 (((buffer.width * buffer.height : Nat) : Int) * 4)).toNat =
      buffer.height * (buffer.width * 2 ^ 2) := by
    have natural : ((buffer.width * buffer.height : Nat) : Int) * 4 =
        ((4 * (buffer.width * buffer.height) : Nat) : Int) := by
      push_cast
      ring
    rw [natural, BitVec.ofInt_natCast, BitVec.toNat_ofNat, Nat.mod_eq_of_lt (by omega)]
    ring
  rw [drawBuffer, if_pos ⟨rfl, rfl⟩, product, checked_of_fits pixels, Option.bind_eq_bind,
    Option.bind_some, checked_of_fits bytes, Option.bind_some, size]

section Evaluation

variable (narrow : buffer.width ≤ width) (short : buffer.height ≤ height)
  (visible : 0 < buffer.width ∧ 0 < buffer.height) (small : 4 * (width * height) < 2 ^ 31)

include narrow short visible

/-- The corner of a crop with pixels, bounded by the size of the picture. -/
theorem cropCorner_add_le :
    cropCorner buffer.width buffer.height width height + buffer.width +
      (buffer.height - 1) * width ≤ width * height := by
  have above := cropMargin_add_le short
  have left := cropMargin_add_le narrow
  obtain ⟨last, height_eq⟩ : ∃ last, buffer.height = last + 1 :=
    ⟨buffer.height - 1, by omega⟩
  have rows : (cropMargin height buffer.height + last + 1) * width ≤ height * width :=
    Nat.mul_le_mul_right width (by omega)
  rw [height_eq, Nat.add_sub_cancel, Nat.mul_comm width height]
  rw [height_eq] at rows
  rw [Nat.add_mul, Nat.add_mul, Nat.one_mul] at rows
  unfold cropCorner
  omega

include small

theorem cropFits_of_visible : CropFits buffer.width buffer.height width height 2 := by
  have corner := cropCorner_add_le narrow short visible
  have wide : width ≤ width * height := Nat.le_mul_of_pos_right _ (by omega)
  have tall : height ≤ width * height := Nat.le_mul_of_pos_left _ (by omega)
  refine ⟨by omega, by omega, by omega, by omega, ?_⟩
  intro _
  unfold cropMargin
  omega

theorem cropUnwrapped_of_visible : CropUnwrapped buffer.width buffer.height width height 2 := by
  intro row inside
  have corner := cropCorner_add_le narrow short visible
  have tall : height ≤ width * height := Nat.le_mul_of_pos_left _ (by omega)
  have rows : row * width ≤ (buffer.height - 1) * width :=
    Nat.mul_le_mul_right width (by omega)
  have dest : row * buffer.width ≤ row * width := Nat.mul_le_mul_left row narrow
  have pitch : row * cropPitch buffer.width width ≤ row * width + row := by
    calc row * cropPitch buffer.width width ≤ row * (width + 1) :=
          Nat.mul_le_mul_left row (cropPitch_bounds narrow).2
      _ = row * width + row := Nat.mul_succ row width
  constructor
  · rw [← Nat.mul_assoc]
    omega
  · omega

/-- Both branches copy the middle of the image. -/
theorem drawBuffer_cropped :
    ∃ copies, drawBuffer width height buffer = some copies ∧
      Cropped width height buffer copies := by
  by_cases same : (width : Int) = buffer.width ∧ (height : Int) = buffer.height
  · have sameWidth : width = buffer.width := by omega
    have sameHeight : height = buffer.height := by omega
    subst sameWidth sameHeight
    exact ⟨_, drawBuffer_whole small, cropped_whole buffer⟩
  · have fits := cropFits_of_visible narrow short visible small
    have unwrapped := cropUnwrapped_of_visible narrow short visible small
    refine ⟨_, ?_, fun row inside byte inRow => copiedFrom_crop fits unwrapped inside inRow,
      fun offset beyond =>
        copiedFrom_behind fits (fun row inside => (unwrapped row inside).1) beyond⟩
    rw [drawBuffer, if_neg same, copyFrameCenterGravity_eq narrow short, if_pos fits]

end Evaluation

end Visible

/-- A buffer with visible pixels is filled; for one without, at most the margins are
computed. -/
def DrawnWhen (mWidth mHeight : Int) (buffer : Geometry) : Prop :=
  if 0 < buffer.width ∧ 0 < buffer.height then Fills mWidth.toNat mHeight.toNat buffer
  else
    (mWidth = buffer.width ∧ mHeight = buffer.height) ∨ mWidth < buffer.width ∨
      mHeight < buffer.height ∨
      CropFits buffer.width buffer.height mWidth.toNat mHeight.toNat 2

instance (mWidth mHeight : Int) (buffer : Geometry) :
    Decidable (DrawnWhen mWidth mHeight buffer) := by
  unfold DrawnWhen
  infer_instance

section Buffer

variable {buffer : Geometry} {signedChar : Bool} {yvyu : Frame}

theorem drawBuffer_refused (larger : mWidth < buffer.width ∨ mHeight < buffer.height) :
    drawBuffer mWidth mHeight buffer = some [] := by
  have different : ¬ (mWidth = buffer.width ∧ mHeight = buffer.height) := by omega
  rw [drawBuffer, if_neg different, copyFrameCenterGravity, if_pos larger]

/-- A buffer without pixels is drawn when its copies can be computed. -/
theorem drawBuffer_empty (fits : RgbaFits mWidth mHeight)
    (empty : ¬ (0 < buffer.width ∧ 0 < buffer.height)) :
    (∃ copies, drawBuffer mWidth mHeight buffer = some copies) ↔
      DrawnWhen mWidth mHeight buffer := by
  rw [DrawnWhen, if_neg empty]
  by_cases same : mWidth = buffer.width ∧ mHeight = buffer.height
  · refine iff_of_true ⟨[⟨0, 0, (BitVec.ofInt 32 (mWidth * mHeight * 4)).toNat⟩], ?_⟩ (Or.inl same)
    rw [drawBuffer, if_pos same, checked_of_fits fits.1, Option.bind_eq_bind, Option.bind_some,
      checked_of_fits fits.2.1, Option.bind_some]
  · by_cases larger : mWidth < buffer.width ∨ mHeight < buffer.height
    · exact iff_of_true ⟨[], drawBuffer_refused larger⟩
        (Or.inr (larger.imp_right Or.inl))
    · obtain ⟨width, rfl⟩ : ∃ width : Nat, mWidth = width := ⟨mWidth.toNat, by omega⟩
      obtain ⟨height, rfl⟩ : ∃ height : Nat, mHeight = height := ⟨mHeight.toNat, by omega⟩
      rw [drawBuffer, if_neg same, copyFrameCenterGravity_eq (by omega) (by omega),
        Int.toNat_natCast, Int.toNat_natCast]
      constructor
      · rintro ⟨copies, evaluated⟩
        exact Or.inr (Or.inr (Or.inr (Option.ite_none_right_eq_some.mp evaluated).1))
      · intro condition
        have crop : CropFits buffer.width buffer.height width height 2 := by
          rcases condition with whole | narrow | short | crop
          · exact absurd whole same
          · exact absurd (Or.inl narrow) larger
          · exact absurd (Or.inr short) larger
          · exact crop
        exact ⟨_, if_pos crop⟩

/-- One buffer is drawn in full exactly under its condition. -/
theorem drawn_iff (fits : RgbaFits mWidth mHeight) :
    (∃ copies, drawBuffer mWidth mHeight buffer = some copies ∧
        FullyDrawn mHeight (packedAt signedChar yvyu mWidth mHeight.toNat 0).pixels buffer
          copies) ↔
      DrawnWhen mWidth mHeight buffer := by
  by_cases visible : 0 < buffer.width ∧ 0 < buffer.height
  · rw [DrawnWhen, if_pos visible]
    by_cases larger : mWidth < buffer.width ∨ mHeight < buffer.height
    · refine iff_of_false ?_ ?_
      · rintro ⟨copies, evaluated, drawn⟩
        rw [drawBuffer_refused larger] at evaluated
        cases Option.some.inj evaluated
        obtain ⟨pixel, -, -, bytes⟩ := drawn 0 visible.2 0 visible.1
        cases bytes 0 (by omega)
      · rintro ⟨narrow, short, -⟩
        omega
    · obtain ⟨width, rfl⟩ : ∃ width : Nat, mWidth = width := ⟨mWidth.toNat, by omega⟩
      obtain ⟨height, rfl⟩ : ∃ height : Nat, mHeight = height := ⟨mHeight.toNat, by omega⟩
      have narrow : buffer.width ≤ width := by omega
      have short : buffer.height ≤ height := by omega
      have small : 4 * (width * height) < 2 ^ 31 := by
        have bound := fits.2.1.2
        rw [← Int.natCast_mul] at bound
        omega
      obtain ⟨copies, evaluated, cropped⟩ := drawBuffer_cropped narrow short visible small
      rw [Int.toNat_natCast, Int.toNat_natCast, ← cropped.fullyDrawn_iff narrow short visible]
      constructor
      · rintro ⟨other, otherEvaluated, drawn⟩
        rw [evaluated] at otherEvaluated
        cases Option.some.inj otherEvaluated
        exact drawn
      · intro drawn
        exact ⟨copies, evaluated, drawn⟩
  · rw [← drawBuffer_empty fits visible]
    constructor
    · rintro ⟨copies, evaluated, -⟩
      exact ⟨copies, evaluated⟩
    · rintro ⟨copies, evaluated⟩
      refine ⟨copies, evaluated, fun y inside x inRow => ?_⟩
      exact absurd ⟨by omega, by omega⟩ visible

end Buffer

/-! ## All surfaces -/

section Surfaces

variable {Surface : Type} {surfaces : List (Surface × Option Geometry)}
  {posts : List (Post Surface)}

/-- The surfaces whose lock succeeds are posted in order, each with the copies into its own
buffer. -/
theorem drawSurfaces_eq_some_iff :
    drawSurfaces mWidth mHeight surfaces = some posts ↔
      (posts.map fun post => (post.surface, post.buffer)) = lockedSurfaces surfaces ∧
        ∀ post ∈ posts, drawBuffer mWidth mHeight post.buffer = some post.copies := by
  induction surfaces generalizing posts with
  | nil =>
      constructor
      · intro drawn
        cases Option.some.inj drawn
        exact ⟨rfl, by simp⟩
      · rintro ⟨none, -⟩
        rw [List.map_eq_nil_iff.mp none]
        rfl
  | cons entry surfaces ih =>
      obtain ⟨surface, lock⟩ := entry
      cases lock with
      | none => exact ih
      | some buffer =>
          simp only [drawSurfaces, Option.bind_eq_bind, Option.bind_eq_some_iff]
          constructor
          · rintro ⟨copies, evaluated, rest, drawn, same⟩
            cases Option.some.inj same
            obtain ⟨inOrder, each⟩ := ih.mp drawn
            refine ⟨congrArg ((surface, buffer) :: ·) inOrder, ?_⟩
            exact List.forall_mem_cons.mpr ⟨evaluated, each⟩
          · rintro ⟨inOrder, each⟩
            obtain ⟨post, rest, rfl, same, restInOrder⟩ := List.map_eq_cons_iff.mp inOrder
            obtain ⟨evaluated, restEach⟩ := List.forall_mem_cons.mp each
            cases same
            exact ⟨post.copies, evaluated, rest, ih.mpr ⟨restInOrder, restEach⟩, rfl⟩

theorem exists_drawSurfaces
    (drawable : ∀ locked ∈ lockedSurfaces surfaces, ∃ copies,
      drawBuffer mWidth mHeight locked.2 = some copies) :
    ∃ posts, drawSurfaces mWidth mHeight surfaces = some posts := by
  induction surfaces with
  | nil => exact ⟨[], rfl⟩
  | cons entry surfaces ih =>
      obtain ⟨surface, lock⟩ := entry
      cases lock with
      | none => exact ih drawable
      | some buffer =>
          obtain ⟨first, rest⟩ := List.forall_mem_cons.mp drawable
          obtain ⟨copies, evaluated⟩ := first
          obtain ⟨posts, drawn⟩ := ih rest
          exact ⟨_, by rw [drawSurfaces, evaluated, drawn]; rfl⟩

end Surfaces

namespace RgbaScratch

variable {scratch result : RgbaScratch mWidth mHeight}

theorem fits_of_allocate (allocated : scratch.allocate = some result) :
    RgbaFits mWidth mHeight := by
  unfold allocate at allocated
  split at allocated
  · exact scratch.fits ‹_›
  · split at allocated
    · assumption
    · cases allocated

theorem exists_allocate (scratch : RgbaScratch mWidth mHeight) (fits : RgbaFits mWidth mHeight) :
    ∃ result, scratch.allocate = some result := by
  unfold allocate
  split
  · exact ⟨_, rfl⟩
  · exact ⟨_, rfl⟩

end RgbaScratch

/-- Some encoders of a frame: the size of the scratch buffer fits, and every locked buffer
meets its own condition. -/
theorem encodersDrawn_of_ne_nil {Surface : Type} {signedChar : Bool} {yvyu : Frame}
    {mRGBA8888 : RgbaScratch mWidth mHeight} {surfaces : List (Surface × Option Geometry)}
    (nonempty : surfaces ≠ []) :
    EncodersDrawn signedChar yvyu mRGBA8888 surfaces ↔
      RgbaFits mWidth mHeight ∧
        ∀ locked ∈ lockedSurfaces surfaces, DrawnWhen mWidth mHeight locked.2 := by
  have notEmpty : ¬ surfaces.isEmpty = true := by simpa using nonempty
  simp only [EncodersDrawn, drawEncoderSurface, notEmpty, yvyu2RGBA_eq, Option.bind_eq_bind,
    Option.bind_some]
  constructor
  · rintro ⟨pass, evaluated, -, drawn⟩
    obtain ⟨scratch, allocated, evaluated⟩ := Option.bind_eq_some_iff.mp evaluated
    obtain ⟨posts, drawnPosts, same⟩ := Option.bind_eq_some_iff.mp evaluated
    cases Option.some.inj same
    obtain ⟨inOrder, each⟩ := drawSurfaces_eq_some_iff.mp drawnPosts
    have fits := RgbaScratch.fits_of_allocate allocated
    refine ⟨fits, fun locked member => ?_⟩
    rw [← inOrder] at member
    obtain ⟨post, posted, rfl⟩ := List.mem_map.mp member
    exact (drawn_iff fits).mp ⟨post.copies, each post posted, drawn post posted⟩
  · rintro ⟨fits, condition⟩
    obtain ⟨scratch, allocated⟩ := mRGBA8888.exists_allocate fits
    have drawable : ∀ locked ∈ lockedSurfaces surfaces, ∃ copies,
        drawBuffer mWidth mHeight locked.2 = some copies ∧
          FullyDrawn mHeight (packedAt signedChar yvyu mWidth mHeight.toNat 0).pixels
            locked.2 copies :=
      fun locked member => (drawn_iff fits).mpr (condition locked member)
    obtain ⟨posts, drawnPosts⟩ := exists_drawSurfaces fun locked member =>
      (drawable locked member).imp fun _ drawn => drawn.1
    obtain ⟨inOrder, each⟩ := drawSurfaces_eq_some_iff.mp drawnPosts
    refine ⟨⟨scratch, _, posts⟩, by rw [allocated, drawnPosts]; rfl, inOrder, ?_⟩
    intro post posted
    have member : (post.surface, post.buffer) ∈ lockedSurfaces surfaces := by
      rw [← inOrder]
      exact List.mem_map_of_mem posted
    obtain ⟨copies, evaluated, drawn⟩ := drawable _ member
    have same : copies = post.copies :=
      Option.some.inj (evaluated.symm.trans (each post posted))
    exact same ▸ drawn

/-- A frame is drawn for all encoders exactly when there are none, or the size of the
scratch buffer fits and every locked buffer meets its own condition. -/
theorem encodersDrawn_iff {Surface : Type} (signedChar : Bool) (yvyu : Frame)
    (mRGBA8888 : RgbaScratch mWidth mHeight) (surfaces : List (Surface × Option Geometry)) :
    EncodersDrawn signedChar yvyu mRGBA8888 surfaces ↔
      surfaces = [] ∨ (RgbaFits mWidth mHeight ∧
        ∀ locked ∈ lockedSurfaces surfaces, DrawnWhen mWidth mHeight locked.2) := by
  by_cases none : surfaces = []
  · subst none
    exact iff_of_true ⟨⟨RgbaScratch.null, [], []⟩, rfl, rfl, by simp⟩ (Or.inl rfl)
  · rw [encodersDrawn_of_ne_nil none]
    simp only [none, false_or]

example : DrawnWhen 1280 720 ⟨640, 480, 640, by decide⟩ := by decide

/-- A 360 × 240 buffer whose rows are padded to 384 pixels, and a camera of 640 × 480. -/
theorem not_encodersDrawn :
    ¬ ∀ (mWidth mHeight : Int) (signedChar : Bool) (yvyu : Frame)
      (mRGBA8888 : RgbaScratch mWidth mHeight) (surfaces : List (Nat × Option Geometry)),
      EncodersDrawn signedChar yvyu mRGBA8888 surfaces := by
  intro always
  have drawn := always 640 480 false (fun _ => 0) RgbaScratch.null
    [(0, some ⟨360, 240, 384, by decide⟩)]
  obtain ⟨-, condition⟩ := (encodersDrawn_of_ne_nil (by simp)).mp drawn
  exact absurd (condition (0, ⟨360, 240, 384, by decide⟩) (by simp [lockedSurfaces]))
    (by decide)

end UsbCamera
