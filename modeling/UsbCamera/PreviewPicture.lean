import UsbCamera.BitMask
import UsbCamera.FrameConversion

/-!
# The picture the preview shows

`Yvyu2Yuv420` writes tightly packed planes, and `drawPreviewSurface` copies them with
one `memcpy` into a window buffer whose planes are padded: rows of `stride` luma bytes
and of `ALIGN(stride / 2, 16)` chroma bytes.  The two layouts agree exactly when there is
no padding, that is, when the stride is the width and the width a multiple of 32.
-/

namespace UsbCamera

open CheckedInt CountedLoop StoreLog

/-! ## The copy of `drawPreviewSurface` -/

/-- `(x + y - 1) & ~(y - 1)` -/
def ALIGN (x y : Int) : Option Int := do
  let sum ← checked (x + y)
  let top ← checked (sum - 1)
  let mask ← checked (y - 1)
  some (BitVec.ofInt 32 top &&& ~~~ BitVec.ofInt 32 mask).toInt

/-- The geometry of a dequeued window buffer. -/
structure WindowBuffer where
  stride : Int
  height : Int
  deriving DecidableEq

/-- The number of bytes `drawPreviewSurface` copies, computed in `size_t` from an `int`
product and `ALIGN`. -/
def WindowBuffer.copySize (buf : WindowBuffer) : Option (BitVec 32) := do
  let ySize ← checked (buf.stride * buf.height)
  let cStride ← ALIGN (buf.stride.tdiv 2) 16
  let dst_y_size := BitVec.ofInt 32 ySize
  let dst_c_stride := BitVec.ofInt 32 cStride
  let dst_c_size := dst_c_stride * BitVec.ofInt 32 buf.height / 2#32
  some (dst_y_size + dst_c_size * 2#32)

/-- What `drawPreviewSurface` leaves in the buffer it has locked: it allocates
`mYuv420sp`, converts, and copies.  `heap` is the memory at `mYuv420sp` and behind it,
`dst` what the window buffer held before. -/
def drawPreviewSurface (yvyu : Frame) (mWidth mHeight : Int) (buf : WindowBuffer)
    (heap dst : Int → UInt8) : Option (Int → UInt8) := do
  let pixels ← checked (mWidth * mHeight)
  let _allocated ← checked (pixels * 3)
  let planar ← yvyu2Yuv420 yvyu mWidth mHeight
  let copied ← buf.copySize
  let mYuv420sp := writeAll planar.stores heap
  some fun offset =>
    if 0 ≤ offset ∧ offset < copied.toNat then mYuv420sp offset else dst offset

theorem ALIGN_16 {number : Nat} (small : number + 16 < 2 ^ 31) :
    ALIGN number 16 = some (((number + 15) / 16 * 16 : Nat) : Int) := by
  have sum : checked ((number : Int) + 16) = some ((number : Int) + 16) :=
    checked_of_fits ⟨by omega, by omega⟩
  have top : checked ((number : Int) + 16 - 1) = some ((number + 15 : Nat) : Int) := by
    have value : (number : Int) + 16 - 1 = ((number + 15 : Nat) : Int) := by omega
    rw [checked_of_fits ⟨by omega, by omega⟩, value]
  have mask : checked ((16 : Int) - 1) = some 15 := rfl
  simp only [ALIGN, sum, top, mask, Option.bind_eq_bind, Option.bind_some, Option.some.injEq]
  exact BitMask.toInt_and_not (by omega) (show 4 ≤ 32 by omega) rfl

/-! ## The planes of an even picture -/

section Planes

variable (yvyu : Frame) (half lines : Nat)

/-- The three planes `Yvyu2Yuv420` writes for a picture of `2 * half` by `2 * lines`
pixels. -/
def planes : List (Store UInt8) :=
  (planarAt yvyu (2 * half : Nat) (4 * (half * lines) : Nat) (2 * lines) 0).stores

theorem planarStores_even (row column : Nat) :
    planarStores yvyu (2 * half : Nat) (4 * (half * lines) : Nat) row column =
      [⟨(2 * (half * row + column) : Nat), yvyu (2 * (2 * (half * row + column)) : Nat)⟩,
        ⟨(2 * (half * row + column) + 1 : Nat),
          yvyu (2 * (2 * (half * row + column) + 1) : Nat)⟩] ++
      if row % 2 = 0 then
        [⟨(4 * (half * lines) + (half * (row / 2) + column) : Nat),
            yvyu (4 * (half * row + column) + 3 : Nat)⟩,
          ⟨(5 * (half * lines) + (half * (row / 2) + column) : Nat),
            yvyu (4 * (half * row + column) + 1 : Nat)⟩]
      else [] := by
  have quarter : ((4 * (half * lines) : Nat) : Int).tdiv 4 = ((half * lines : Nat) : Int) := by
    rw [show (4 : Int) = ((4 : Nat) : Int) from rfl, ← Int.ofNat_tdiv,
      Nat.mul_div_cancel_left _ (by omega)]
  simp only [planarStores, macropixelIndex, columns_even, sourceIndex_natCast, rowStart_even,
    quarter]
  push_cast
  ring_nf

/-- Luma is stored in order; plane 0 takes the last byte of each macropixel of an even row
and plane 1 the second. -/
theorem mem_planes {yvyu : Frame} {half lines : Nat} {store : Store UInt8} :
    store ∈ planes yvyu half lines ↔
      (∃ pixel < 4 * (half * lines), store = ⟨(pixel : Nat), yvyu (2 * pixel : Nat)⟩) ∨
      ∃ plane < 2, ∃ line < lines, ∃ column < half,
        store = ⟨(half * lines * (4 + plane) + (half * line + column) : Nat),
          yvyu (4 * (half * (2 * line) + column) + (3 - 2 * plane) : Nat)⟩ := by
  have total : half * (2 * lines) = 2 * (half * lines) := Nat.mul_left_comm ..
  simp only [planes, mem_planar_stores, columns_even, planarStores_even]
  constructor
  · rintro ⟨row, inside, column, inRow, member⟩
    have position : half * row + column < 2 * (half * lines) :=
      total ▸ position_lt inRow inside
    rcases List.mem_append.mp member with luma | chroma
    · simp only [List.mem_cons, List.not_mem_nil, or_false] at luma
      rcases luma with rfl | rfl
      · exact Or.inl ⟨_, by omega, rfl⟩
      · exact Or.inl ⟨_, by omega, rfl⟩
    · by_cases even : row % 2 = 0
      · obtain ⟨line, rfl⟩ : ∃ line, row = 2 * line := ⟨row / 2, by omega⟩
        have same : 2 * line / 2 = line := by omega
        simp only [even, if_true, same, List.mem_cons, List.not_mem_nil, or_false] at chroma
        rcases chroma with rfl | rfl
        · exact Or.inr ⟨0, by omega, line, by omega, column, inRow, by simp [Nat.mul_comm]⟩
        · exact Or.inr ⟨1, by omega, line, by omega, column, inRow, by simp [Nat.mul_comm]⟩
      · simp [even] at chroma
  · rintro (⟨pixel, below, rfl⟩ | ⟨plane, two, line, inside, column, inRow, rfl⟩)
    · obtain ⟨row, inside, column, inRow, position⟩ :
          ∃ row < 2 * lines, ∃ column < half, pixel / 2 = half * row + column :=
        exists_position (by omega)
      refine ⟨row, inside, column, inRow, List.mem_append_left _ ?_⟩
      have parity : pixel = 2 * (half * row + column) ∨ pixel = 2 * (half * row + column) + 1 := by
        omega
      rcases parity with rfl | rfl
      · simp
      · simp
    · refine ⟨2 * line, by omega, column, inRow, List.mem_append_right _ ?_⟩
      have even : 2 * line % 2 = 0 := by omega
      have same : 2 * line / 2 = line := by omega
      simp only [even, if_true, same, List.mem_cons, List.not_mem_nil, or_false]
      have either : plane = 0 ∨ plane = 1 := by omega
      rcases either with rfl | rfl
      · exact Or.inl (by simp [Nat.mul_comm])
      · exact Or.inr (by simp [Nat.mul_comm])

variable {yvyu half lines} {heap : Int → UInt8}

theorem scratch_luma {pixel : Nat} (inside : pixel < 4 * (half * lines)) :
    writeAll (planes yvyu half lines) heap (pixel : Nat) = yvyu (2 * pixel : Nat) := by
  refine writeAll_of_mem (mem_planes.mpr (Or.inl ⟨pixel, inside, rfl⟩)) ?_
  intro other member there
  rcases mem_planes.mp member with ⟨otherPixel, -, rfl⟩ | ⟨plane, -, line, -, column, -, rfl⟩
  · have same : otherPixel = pixel := Int.natCast_inj.mp there
    rw [same]
  · have same := Int.natCast_inj.mp there
    rw [Nat.mul_add] at same
    omega

theorem scratch_chroma {plane line column : Nat} (two : plane < 2) (inside : line < lines)
    (inRow : column < half) :
    writeAll (planes yvyu half lines) heap
        (half * lines * (4 + plane) + (half * line + column) : Nat) =
      yvyu (4 * (half * (2 * line) + column) + (3 - 2 * plane) : Nat) := by
  refine writeAll_of_mem
    (mem_planes.mpr (Or.inr ⟨plane, two, line, inside, column, inRow, rfl⟩)) ?_
  intro other member there
  rcases mem_planes.mp member with ⟨pixel, below, rfl⟩ |
    ⟨otherPlane, -, otherLine, otherInside, otherColumn, otherInRow, rfl⟩
  · have same := Int.natCast_inj.mp there
    rw [Nat.mul_add] at same
    omega
  · obtain ⟨samePlane, samePosition⟩ := position_injective (position_lt otherInRow otherInside)
      (position_lt inRow inside) (Int.natCast_inj.mp there)
    obtain ⟨rfl, rfl⟩ := position_injective otherInRow inRow samePosition
    have same : otherPlane = plane := by omega
    rw [same]

end Planes

/-! ## What the window should show -/

/-- Byte `byte` of macropixel `column` in row `row` of a packed YUYV frame. -/
def macropixelByte (yvyu : Frame) (width row column byte : Nat) : UInt8 :=
  yvyu (2 * width * row + 4 * column + byte : Nat)

section Samples

variable {yvyu : Frame} {half lines : Nat} {heap : Int → UInt8}

/-- The samples in the planes, by the pixels and the macropixels they belong to. -/
theorem planes_luma {y x : Nat} (inside : y < 2 * lines) (inRow : x < 2 * half) :
    writeAll (planes yvyu half lines) heap (y * (2 * half) + x : Nat) =
      macropixelByte yvyu (2 * half) y (x / 2) (2 * (x % 2)) := by
  have position := position_lt inRow inside
  have size : 2 * half * (2 * lines) = 4 * (half * lines) := by ring
  have pixel : y * (2 * half) + x = 2 * half * y + x := by ring
  rw [pixel, scratch_luma (by omega), macropixelByte]
  congr 2
  rw [Nat.mul_assoc 2 (2 * half) y]
  omega

theorem planes_cr {line column : Nat} (inside : line < lines) (inRow : column < half) :
    writeAll (planes yvyu half lines) heap
        (4 * (half * lines) + line * half + column : Nat) =
      macropixelByte yvyu (2 * half) (2 * line) column 3 := by
  have offset : 4 * (half * lines) + line * half + column =
      half * lines * (4 + 0) + (half * line + column) := by ring
  have source : 2 * (2 * half) * (2 * line) + 4 * column + 3 =
      4 * (half * (2 * line) + column) + (3 - 2 * 0) := by ring
  rw [offset, scratch_chroma (by omega) inside inRow, macropixelByte, source]

theorem planes_cb {line column : Nat} (inside : line < lines) (inRow : column < half) :
    writeAll (planes yvyu half lines) heap
        (4 * (half * lines) + half * lines + line * half + column : Nat) =
      macropixelByte yvyu (2 * half) (2 * line) column 1 := by
  have offset : 4 * (half * lines) + half * lines + line * half + column =
      half * lines * (4 + 1) + (half * line + column) := by ring
  have source : 2 * (2 * half) * (2 * line) + 4 * column + 1 =
      4 * (half * (2 * line) + column) + (3 - 2 * 1) := by ring
  rw [offset, scratch_chroma (by omega) inside inRow, macropixelByte, source]

end Samples

/-- Every visible pixel of a YV12 buffer is that of the frame: its luma, and the chroma
of its macropixel in the even row above. -/
structure ShowsFrame (yvyu : Frame) (width height stride cStride : Nat)
    (dst : Int → UInt8) : Prop where
  luma : ∀ y < height, ∀ x < width,
    dst (y * stride + x : Nat) = macropixelByte yvyu width y (x / 2) (2 * (x % 2))
  cr : ∀ y < height / 2, ∀ x < width / 2,
    dst (stride * height + y * cStride + x : Nat) = macropixelByte yvyu width (2 * y) x 3
  cb : ∀ y < height / 2, ∀ x < width / 2,
    dst (stride * height + cStride * height / 2 + y * cStride + x : Nat) =
      macropixelByte yvyu width (2 * y) x 1

/-- The preview shows every captured frame, whatever the buffers held before. -/
def PreviewShown (width height stride : Nat) : Prop :=
  ∀ yvyu heap dst, ∃ shown,
    drawPreviewSurface yvyu width height ⟨stride, height⟩ heap dst = some shown ∧
      ∃ cStride : Nat, ALIGN (stride / 2 : Nat) 16 = some (cStride : Int) ∧
        ShowsFrame yvyu width height stride cStride shown

section Shown

variable {half lines stride : Nat}

theorem yvyu2Yuv420_planes (yvyu : Frame) (small : 12 * (half * lines) < 2 ^ 31) :
    ∃ planar, yvyu2Yuv420 yvyu (2 * half : Nat) (2 * lines : Nat) = some planar ∧
      planar.stores = planes yvyu half lines := by
  have size : 2 * half * (2 * lines) = 4 * (half * lines) := by ring
  refine ⟨_, yvyu2Yuv420_natCast yvyu (by omega), ?_⟩
  rw [planes, size_even]

/-- Without padding the copy takes the three planes. -/
theorem copySize_eq (aligned : half % 16 = 0) (small : 12 * (half * lines) < 2 ^ 31)
    (positive : 0 < lines) :
    WindowBuffer.copySize ⟨(2 * half : Nat), (2 * lines : Nat)⟩ =
      some (BitVec.ofNat 32 (6 * (half * lines))) := by
  have bound : half ≤ half * lines := Nat.le_mul_of_pos_right _ positive
  have size : checked ((4 * (half * lines) : Nat) : Int) =
      some ((4 * (half * lines) : Nat) : Int) :=
    checked_of_fits ⟨by omega, by omega⟩
  have quotient : ((2 * half : Nat) : Int).tdiv 2 = (half : Int) := by
    rw [show (2 : Int) = ((2 : Nat) : Int) from rfl, ← Int.ofNat_tdiv,
      Nat.mul_div_cancel_left _ (by omega)]
  have rounded : (half + 15) / 16 * 16 = half := by omega
  have chromaStride := ALIGN_16 (show half + 16 < 2 ^ 31 by omega)
  simp only [WindowBuffer.copySize, size_even, size, quotient, chromaStride, rounded,
    Option.bind_eq_bind, Option.bind_some, Option.some.injEq, BitVec.ofInt_natCast]
  have chroma : half * (2 * lines) = 2 * (half * lines) := Nat.mul_left_comm ..
  have two : 2 % 2 ^ 32 = 2 := rfl
  apply BitVec.eq_of_toNat_eq
  simp only [BitVec.toNat_add, BitVec.toNat_mul, BitVec.toNat_udiv, BitVec.toNat_ofNat,
    ← Nat.mul_mod, chroma, two]
  omega

/-- What a drawn frame tells: its products fit, and the window holds the copied part of
the scratch buffer. -/
theorem of_drawPreviewSurface {yvyu : Frame} {width height : Int} {buf : WindowBuffer}
    {heap dst shown : Int → UInt8}
    (drawn : drawPreviewSurface yvyu width height buf heap dst = some shown) :
    ∃ (planar : Planar) (copied : BitVec 32), yvyu2Yuv420 yvyu width height = some planar ∧
      Fits (width * height * 3) ∧ Fits (buf.stride * buf.height) ∧
        shown = fun offset : Int =>
          if 0 ≤ offset ∧ offset < copied.toNat then writeAll planar.stores heap offset
          else dst offset := by
  simp only [drawPreviewSurface, WindowBuffer.copySize, Option.bind_eq_bind,
    Option.bind_eq_some_iff, checked_eq_some_iff] at drawn
  obtain ⟨_, ⟨-, rfl⟩, _, ⟨scratch, -⟩, planar, converted, copied, ⟨_, ⟨size, -⟩, -⟩, same⟩ :=
    drawn
  exact ⟨planar, copied, converted, scratch, size, (Option.some.inj same).symm⟩

/-- Over cleared memory, whatever is shown was stored by the converter. -/
theorem exists_store_of_shown {yvyu : Frame} {buf : WindowBuffer} {shown : Int → UInt8}
    {offset : Int}
    (drawn : drawPreviewSurface yvyu (2 * half : Nat) (2 * lines : Nat) buf (fun _ => 0)
      (fun _ => 0) = some shown)
    (visible : shown offset ≠ 0) :
    ∃ store ∈ planes yvyu half lines, store.offset = offset ∧ store.value ≠ 0 := by
  obtain ⟨planar, copied, converted, -, -, rfl⟩ := of_drawPreviewSurface drawn
  rw [yvyu2Yuv420_eq, Option.ite_none_right_eq_some, Int.toNat_natCast, size_even] at converted
  obtain ⟨-, rfl⟩ := converted.imp_right Option.some.inj
  have written : writeAll (planes yvyu half lines) (fun _ => 0) offset ≠ 0 := by
    intro zero
    refine visible ?_
    show (if _ then writeAll (planes yvyu half lines) (fun _ => 0) offset else 0) = 0
    rw [zero, ite_self]
  rcases writeAll_eq_or_mem (planes yvyu half lines) (fun _ => 0) offset with
    ⟨zero, -⟩ | ⟨store, member, there, value⟩
  · exact absurd zero written
  · exact ⟨store, member, there, value ▸ written⟩

/-! ## Two frames that tell the layouts apart -/

/-- A frame that is dark but for one byte. -/
def spark (source : Nat) : Frame :=
  fun offset => if offset = source then 1 else 0

theorem spark_ne_zero_iff {source : Nat} {offset : Int} :
    spark source offset ≠ 0 ↔ offset = source := by
  unfold spark
  split <;> simp_all

/-- The first luma byte of the second row lies one row further in the window, so its
stride is the width. -/
theorem stride_of_previewShown (tall : 0 < lines)
    (wide : 0 < half) (shows : PreviewShown (2 * half) (2 * lines) stride) : stride = 2 * half := by
  obtain ⟨shown, drawn, cStride, -, frame⟩ :=
    shows (spark (4 * half)) (fun _ => 0) (fun _ => 0)
  have pixel := frame.luma 1 (by omega) 0 (by omega)
  have bright : macropixelByte (spark (4 * half)) (2 * half) 1 (0 / 2) (2 * (0 % 2)) ≠ 0 :=
    spark_ne_zero_iff.mpr (by push_cast; omega)
  rw [← pixel] at bright
  obtain ⟨store, member, there, value⟩ := exists_store_of_shown drawn bright
  rcases mem_planes.mp member with ⟨pixel, -, rfl⟩ | ⟨plane, two, line, -, column, -, rfl⟩
  · have source := Int.natCast_inj.mp (spark_ne_zero_iff.mp value)
    have position := Int.natCast_inj.mp there
    omega
  · have source := Int.natCast_inj.mp (spark_ne_zero_iff.mp value)
    omega

/-- The first byte of the second chroma plane lies behind the first plane, so the
stride of the chroma planes is half the width. -/
theorem cStride_of_previewShown (tall : 0 < lines) (wide : 0 < half)
    (shows : PreviewShown (2 * half) (2 * lines) (2 * half)) :
    ALIGN half 16 = some (half : Int) := by
  obtain ⟨shown, drawn, cStride, aligned, frame⟩ := shows (spark 1) (fun _ => 0) (fun _ => 0)
  have pixel := frame.cb 0 (by omega) 0 (by omega)
  have bright : macropixelByte (spark 1) (2 * half) (2 * 0) 0 1 ≠ 0 :=
    spark_ne_zero_iff.mpr (by simp)
  rw [← pixel] at bright
  obtain ⟨store, member, there, value⟩ := exists_store_of_shown drawn bright
  rcases mem_planes.mp member with ⟨pixel, -, rfl⟩ | ⟨plane, two, line, -, column, -, rfl⟩
  · have source := Int.natCast_inj.mp (spark_ne_zero_iff.mp value)
    omega
  · have source := Int.natCast_inj.mp (spark_ne_zero_iff.mp value)
    have position := Int.natCast_inj.mp there
    have second : plane = 1 := by omega
    have first : half * (2 * line) + column = 0 := by omega
    have start : half * line + column = 0 := by
      have bound : half * line ≤ half * (2 * line) := Nat.mul_le_mul_left _ (by omega)
      omega
    have size : 2 * half * (2 * lines) = half * lines * 4 := by ring
    have plane : cStride * (2 * lines) / 2 = cStride * lines := by
      rw [Nat.mul_left_comm, Nat.mul_div_cancel_left _ (by omega)]
    rw [second, start, size, plane] at position
    have chroma : cStride * lines = half * lines := by omega
    have same : cStride = half := Nat.eq_of_mul_eq_mul_right tall chroma
    have quotient : 2 * half / 2 = half := by omega
    rw [quotient, same] at aligned
    exact aligned

/-- A window that holds the three planes without padding shows the frame. -/
theorem showsFrame_of_scratch {yvyu : Frame} (heap : Int → UInt8) {shown : Int → UInt8}
    (copied : ∀ offset < 6 * (half * lines),
      shown (offset : Nat) = writeAll (planes yvyu half lines) heap (offset : Nat)) :
    ShowsFrame yvyu (2 * half) (2 * lines) (2 * half) half shown where
  luma y inside x inRow := by
    have position := position_lt inRow inside
    have size : 2 * half * (2 * lines) = 4 * (half * lines) := by ring
    have pixel : y * (2 * half) + x = 2 * half * y + x := by ring
    rw [copied _ (by omega), planes_luma inside inRow]
  cr y inside x inRow := by
    have line : y < lines := by omega
    have column : x < half := by omega
    have position := position_lt column line
    have size : 2 * half * (2 * lines) = 4 * (half * lines) := by ring
    rw [size, copied _ (by rw [Nat.mul_comm y]; omega), planes_cr line column]
  cb y inside x inRow := by
    have line : y < lines := by omega
    have column : x < half := by omega
    have position := position_lt column line
    have size : 2 * half * (2 * lines) = 4 * (half * lines) := by ring
    have plane : half * (2 * lines) / 2 = half * lines := by
      rw [Nat.mul_left_comm, Nat.mul_div_cancel_left _ (by omega)]
    rw [size, plane, copied _ (by rw [Nat.mul_comm y]; omega), planes_cb line column]

theorem drawPreviewSurface_eq {yvyu : Frame} {width height : Int} {buf : WindowBuffer}
    {planar : Planar} {copied : BitVec 32} (heap dst : Int → UInt8)
    (pixels : Fits (width * height)) (scratch : Fits (width * height * 3))
    (converted : yvyu2Yuv420 yvyu width height = some planar)
    (size : buf.copySize = some copied) :
    drawPreviewSurface yvyu width height buf heap dst =
      some fun offset : Int =>
        if 0 ≤ offset ∧ offset < copied.toNat then writeAll planar.stores heap offset
        else dst offset := by
  simp only [drawPreviewSurface, checked_of_fits pixels, checked_of_fits scratch, converted, size,
    Option.bind_eq_bind, Option.bind_some]

/-- A picture whose planes need no padding is copied whole. -/
theorem drawPreviewSurface_unpadded (yvyu : Frame) (heap dst : Int → UInt8) (tall : 0 < lines)
    (multiple : half % 16 = 0) (small : 12 * (half * lines) < 2 ^ 31) :
    drawPreviewSurface yvyu (2 * half : Nat) (2 * lines : Nat)
        ⟨(2 * half : Nat), (2 * lines : Nat)⟩ heap dst =
      some fun offset : Int =>
        if 0 ≤ offset ∧ offset < (6 * (half * lines) : Nat) then
          writeAll (planes yvyu half lines) heap offset
        else dst offset := by
  have pixels : Fits (((2 * half : Nat) : Int) * ((2 * lines : Nat) : Int)) := by
    rw [size_even]
    exact ⟨by omega, by omega⟩
  have scratch : Fits (((2 * half : Nat) : Int) * ((2 * lines : Nat) : Int) * 3) := by
    rw [size_even]
    exact ⟨by omega, by omega⟩
  have whole : (BitVec.ofNat 32 (6 * (half * lines))).toNat = 6 * (half * lines) := by
    rw [BitVec.toNat_ofNat]
    omega
  obtain ⟨planar, converted, stores⟩ := yvyu2Yuv420_planes yvyu small
  rw [drawPreviewSurface_eq heap dst pixels scratch converted (copySize_eq multiple small tall),
    stores, whole]

theorem previewShown_of_unpadded (tall : 0 < lines) (multiple : half % 16 = 0)
    (small : 12 * (half * lines) < 2 ^ 31) :
    PreviewShown (2 * half) (2 * lines) (2 * half) := by
  intro yvyu heap dst
  have bound : half ≤ half * lines := Nat.le_mul_of_pos_right _ tall
  have quotient : 2 * half / 2 = half := by omega
  have rounded : (half + 15) / 16 * 16 = half := by omega
  refine ⟨_, drawPreviewSurface_unpadded yvyu heap dst tall multiple small, half, ?_, ?_⟩
  · rw [quotient, ALIGN_16 (by omega), rounded]
  · refine showsFrame_of_scratch heap fun offset inside => ?_
    exact if_pos ⟨by omega, by omega⟩

end Shown

/-- For even sizes and aligned strides, the preview shows every frame exactly when
neither plane is padded and the size of the scratch buffer fits in an `int`. -/
theorem previewShown_iff {width height stride : Nat} (wide : 0 < width)
    (evenWidth : width % 2 = 0) (tall : 0 < height) (evenHeight : height % 2 = 0)
    (aligned : stride % 16 = 0) (inside : width ≤ stride) :
    PreviewShown width height stride ↔
      stride = width ∧ width % 32 = 0 ∧ 3 * (width * height) < 2 ^ 31 := by
  obtain ⟨half, rfl⟩ : ∃ half, width = 2 * half := ⟨width / 2, by omega⟩
  obtain ⟨lines, rfl⟩ : ∃ lines, height = 2 * lines := ⟨height / 2, by omega⟩
  have size : 3 * (2 * half * (2 * lines)) = 12 * (half * lines) := by ring
  rw [size]
  constructor
  · intro shows
    have unpadded := stride_of_previewShown (by omega) (by omega) shows
    subst unpadded
    obtain ⟨shown, drawn, -⟩ := shows (fun _ => 0) (fun _ => 0) (fun _ => 0)
    obtain ⟨-, -, -, scratch, -, -⟩ := of_drawPreviewSurface drawn
    rw [size_even] at scratch
    have small := scratch.2
    have bound : half ≤ half * lines := Nat.le_mul_of_pos_right _ (by omega)
    have chroma := cStride_of_previewShown (by omega) (by omega) shows
    rw [ALIGN_16 (by omega)] at chroma
    have multiple := Int.natCast_inj.mp (Option.some.inj chroma)
    exact ⟨rfl, by omega, by omega⟩
  · rintro ⟨rfl, multiple, small⟩ yvyu heap dst
    exact previewShown_of_unpadded (by omega) (by omega) small yvyu heap dst

theorem previewShown_vga : PreviewShown 640 480 640 :=
  (previewShown_iff (by decide) (by decide) (by decide) (by decide) (by decide)
    (by decide)).mpr (by decide)

/-- At 176 × 144 a window without padding in its luma rows still pads its chroma rows of
88 bytes to 96. -/
theorem not_previewShown :
    ¬ ∀ width height stride : Nat, 0 < width → width % 2 = 0 → 0 < height → height % 2 = 0 →
      stride % 16 = 0 → width ≤ stride → PreviewShown width height stride := by
  intro always
  have shows : PreviewShown (2 * 88) (2 * 72) (2 * 88) :=
    always 176 144 176 (by decide) (by decide) (by decide) (by decide) (by decide) (by decide)
  have chroma := cStride_of_previewShown (by decide) (by decide) shows
  exact absurd chroma (by decide)

end UsbCamera
