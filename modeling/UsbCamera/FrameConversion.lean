import UsbCamera.CheckedInt
import UsbCamera.CountedLoop
import UsbCamera.StoreLog
import Mathlib.Tactic.Linarith
import Mathlib.Tactic.Ring

/-!
# The two converters

`Yvyu2Yuv420` indexes every macropixel of the frame from the start, with `int`
products; `Yvyu2RGBA` runs a pointer over it.  Both are translated with the log of
what they read and write, and both logs have a closed form: the product of a row and
a column.
-/

namespace UsbCamera

open CheckedInt CountedLoop

/-- The bytes of a capture buffer. -/
abbrev Frame := Int → UInt8

/-- A byte a converter reads: byte `byte` of macropixel `column` in `row`. -/
structure Read where
  row : Nat
  column : Nat
  byte : Nat
  offset : Int
  deriving DecidableEq

/-- The four reads of one macropixel. -/
def macropixelReads (row column : Nat) (source : Int) : List Read :=
  [⟨row, column, 0, source⟩, ⟨row, column, 1, source + 1⟩, ⟨row, column, 2, source + 2⟩,
    ⟨row, column, 3, source + 3⟩]

theorem mem_macropixelReads {row column : Nat} {source : Int} {read : Read} :
    read ∈ macropixelReads row column source ↔
      ∃ byte < 4, read = ⟨row, column, byte, source + byte⟩ := by
  constructor
  · intro member
    simp only [macropixelReads, List.mem_cons, List.not_mem_nil, or_false] at member
    rcases member with rfl | rfl | rfl | rfl
    · exact ⟨0, by omega, by simp⟩
    · exact ⟨1, by omega, rfl⟩
    · exact ⟨2, by omega, rfl⟩
    · exact ⟨3, by omega, rfl⟩
  · rintro ⟨byte, bound, rfl⟩
    have four : byte = 0 ∨ byte = 1 ∨ byte = 2 ∨ byte = 3 := by omega
    rcases four with rfl | rfl | rfl | rfl <;> simp [macropixelReads]

/-- The macropixels in a row, `width / 2`. -/
def columns (width : Int) : Nat :=
  (width.tdiv 2).toNat

/-! ## `Yvyu2Yuv420` -/

/-- The pointers `Y`, `U` and `V` as offsets into `yuv420`, and what has been read and
stored. -/
structure Planar where
  Y : Int
  U : Int
  V : Int
  reads : List Read
  stores : List (Store UInt8)

/-- The body of the inner loop, once the index of the macropixel is known. -/
def storeMacropixel (yvyu : Frame) (row column : Nat) (source : Int) (planar : Planar) :
    Planar :=
  let y1 := yvyu source
  let v := yvyu (source + 1)
  let y2 := yvyu (source + 2)
  let u := yvyu (source + 3)
  let luma : Planar :=
    { planar with
      Y := planar.Y + 2
      reads := planar.reads ++ macropixelReads row column source
      stores := planar.stores ++ [⟨planar.Y, y1⟩, ⟨planar.Y + 1, y2⟩] }
  if row % 2 = 0 then
    { luma with
      U := luma.U + 1
      V := luma.V + 1
      stores := luma.stores ++ [⟨luma.U, u⟩, ⟨luma.V, v⟩] }
  else luma

def yvyu2Yuv420 (yvyu : Frame) (width height : Int) : Option Planar := do
  let size ← checked (width * height)
  let row (i : Nat) : Planar → Option Planar :=
    forRange (fun j planar => do
      let rowStart ← checked (i * width)
      let macropixel ← checked (rowStart.tdiv 2 + j)
      let source ← checked (macropixel * 4)
      some (storeMacropixel yvyu i j source planar)) (columns width)
  forRange row height.toNat ⟨0, size, size + size.tdiv 4, [], []⟩

section Planar

variable (yvyu : Frame) (width size : Int)

/-- `(i * width / 2 + j) * 4` -/
def sourceIndex (row column : Nat) : Int :=
  ((row * width).tdiv 2 + column) * 4

/-- The index is computed without overflow. -/
def SourceFits (row column : Nat) : Prop :=
  Fits (row * width) ∧ Fits ((row * width).tdiv 2 + column) ∧ Fits (sourceIndex width row column)

instance (row column : Nat) : Decidable (SourceFits width row column) :=
  inferInstanceAs (Decidable (_ ∧ _ ∧ _))

/-- The position of a macropixel counted over all rows. -/
def macropixelIndex (row column : Nat) : Nat :=
  columns width * row + column

def planarReads (row column : Nat) : List Read :=
  macropixelReads row column (sourceIndex width row column)

/-- What one macropixel stores: two luma bytes, and on even rows a byte in each chroma
plane. -/
def planarStores (row column : Nat) : List (Store UInt8) :=
  let source := sourceIndex width row column
  [⟨2 * macropixelIndex width row column, yvyu source⟩,
    ⟨2 * macropixelIndex width row column + 1, yvyu (source + 2)⟩] ++
  if row % 2 = 0 then
    [⟨size + macropixelIndex width (row / 2) column, yvyu (source + 3)⟩,
      ⟨size + size.tdiv 4 + macropixelIndex width (row / 2) column, yvyu (source + 1)⟩]
  else []

/-- The chroma bytes stored per plane before a macropixel. -/
def chromaCount (row column : Nat) : Nat :=
  columns width * ((row + 1) / 2) + if row % 2 = 0 then column else 0

/-- The state of the loops at a macropixel. -/
def planarAt (row column : Nat) : Planar where
  Y := 2 * macropixelIndex width row column
  U := size + chromaCount width row column
  V := size + size.tdiv 4 + chromaCount width row column
  reads :=
    appended (fun i => appended (planarReads width i) (columns width)) row ++
      appended (planarReads width row) column
  stores :=
    appended (fun i => appended (planarStores yvyu width size i) (columns width)) row ++
      appended (planarStores yvyu width size row) column

theorem storeMacropixel_planarAt (row column : Nat) :
    storeMacropixel yvyu row column (sourceIndex width row column)
        (planarAt yvyu width size row column) =
      planarAt yvyu width size row (column + 1) := by
  have index : macropixelIndex width row (column + 1) =
      macropixelIndex width row column + 1 := by
    simp [macropixelIndex, Nat.add_assoc]
  by_cases even : row % 2 = 0
  · have half : (row + 1) / 2 = row / 2 := by omega
    have count : chromaCount width row column = macropixelIndex width (row / 2) column := by
      simp [chromaCount, macropixelIndex, even, half]
    have next : chromaCount width row (column + 1) = chromaCount width row column + 1 := by
      simp [chromaCount, even, Nat.add_assoc]
    simp only [storeMacropixel, planarAt, even, if_true, appended_succ, index, next, count,
      planarStores, planarReads, List.append_assoc, Planar.mk.injEq]
    refine ⟨by push_cast; ring, by push_cast; ring, by push_cast; ring, trivial, trivial⟩
  · have next : chromaCount width row (column + 1) = chromaCount width row column := by
      simp [chromaCount, even]
    simp only [storeMacropixel, planarAt, even, if_false, appended_succ, index, next,
      planarStores, planarReads, List.append_assoc, Planar.mk.injEq, List.append_nil]
    refine ⟨by push_cast; ring, trivial, trivial, trivial, trivial⟩

/-- The end of a row is the start of the next. -/
theorem planarAt_succ_row (row : Nat) :
    planarAt yvyu width size row (columns width) = planarAt yvyu width size (row + 1) 0 := by
  have index : macropixelIndex width row (columns width) =
      macropixelIndex width (row + 1) 0 := by
    simp [macropixelIndex, Nat.mul_add]
  have count : chromaCount width row (columns width) = chromaCount width (row + 1) 0 := by
    by_cases even : row % 2 = 0
    · have half : (row + 1 + 1) / 2 = (row + 1) / 2 + 1 := by omega
      simp [chromaCount, even, half, Nat.mul_add]
    · have half : (row + 1 + 1) / 2 = (row + 1) / 2 := by omega
      simp [chromaCount, even, half]
  simp only [planarAt, index, count, appended_succ, appended_zero, List.append_nil]

theorem yuv420_row (row : Nat) :
    forRange (fun j planar => do
        let rowStart ← checked (row * width)
        let macropixel ← checked (rowStart.tdiv 2 + j)
        let source ← checked (macropixel * 4)
        some (storeMacropixel yvyu row j source planar)) (columns width)
        (planarAt yvyu width size row 0) =
      if ∀ column < columns width, SourceFits width row column then
        some (planarAt yvyu width size (row + 1) 0)
      else none := by
  rw [← planarAt_succ_row]
  refine forRange_eq_of_guarded fun column _ => ?_
  unfold checked SourceFits
  by_cases first : Fits (row * width)
  · by_cases second : Fits ((row * width).tdiv 2 + column)
    · by_cases third : Fits (sourceIndex width row column)
      · have product : Fits (((row * width).tdiv 2 + column) * 4) := third
        simp only [first, second, third, product, Option.bind_eq_bind, Option.bind_some,
          and_self, if_true]
        exact congrArg some (storeMacropixel_planarAt yvyu width size row column)
      · have product : ¬ Fits (((row * width).tdiv 2 + column) * 4) := third
        simp [first, second, third, product]
    · simp [first, second]
  · simp [first]

end Planar

/-- `Yvyu2Yuv420` evaluates without overflow exactly when the size of the picture and
every index fit, and then reads and stores as its closed form says. -/
theorem yvyu2Yuv420_eq (yvyu : Frame) (width height : Int) :
    yvyu2Yuv420 yvyu width height =
      if Fits (width * height) ∧ ∀ row < height.toNat, ∀ column < columns width,
          SourceFits width row column then
        some (planarAt yvyu width (width * height) height.toNat 0)
      else none := by
  by_cases fits : Fits (width * height)
  · have start : (⟨0, width * height, width * height + (width * height).tdiv 4, [], []⟩ :
        Planar) = planarAt yvyu width (width * height) 0 0 := by
      simp [planarAt, macropixelIndex, chromaCount]
    simp only [yvyu2Yuv420, checked_of_fits fits, Option.bind_eq_bind, Option.bind_some, start,
      fits, true_and]
    exact forRange_eq_of_guarded fun row _ => yuv420_row yvyu width (width * height) row
  · simp [yvyu2Yuv420, checked, fits]

/-! ## `Yvyu2RGBA` -/

/-- Promotion of a `char`, whose sign the compiler chooses. -/
def promote (signedChar : Bool) (byte : UInt8) : Int :=
  if signedChar ∧ 128 ≤ byte.toNat then byte.toNat - 256 else byte.toNat

/-- `if(c < 0) c += 127; else c -= 128;` -/
def centre (chroma : Int) : Int :=
  if chroma < 0 then chroma + 127 else chroma - 128

def clamp (channel : Int) : Int :=
  if channel < 0 then 0 else if 255 < channel then 255 else channel

def diffR (cr : Int) : Int :=
  cr + shr cr 2 + shr cr 3 + shr cr 5

def diffG (cb cr : Int) : Int :=
  0 - shr cb 2 + shr cb 4 + shr cb 5 - shr cr 1 + shr cr 3 + shr cr 4 + shr cr 5

def diffB (cb : Int) : Int :=
  cb + shr cb 1 + shr cb 2 + shr cb 6

/-- `0xff000000 + (B << 16) + (G << 8) + (R << 0)` -/
def packRGBA (r g b : Int) : BitVec 32 :=
  0xff000000#32 + (BitVec.ofInt 32 b <<< 16) + (BitVec.ofInt 32 g <<< 8) +
    (BitVec.ofInt 32 r <<< 0)

/-- One output pixel, from its luma and the centred chroma. -/
def rgbaPixel (y cb cr : Int) : BitVec 32 :=
  packRGBA (clamp (y + diffR cr)) (clamp (y + diffG cb cr)) (clamp (y + diffB cb))

/-- A write of `rgbData`: the pixel at `index`, converted from macropixel `column` of
`row`. -/
structure Pixel where
  index : Nat
  row : Nat
  column : Nat
  value : BitVec 32
  deriving DecidableEq

/-- The running pointer `ptr` as an offset into `yvyu`, the index `pixPtr`, and what has
been read and written.  `pixPtr` counts the pixels of an image that has been
allocated and is not checked. -/
structure Packed where
  ptr : Int
  pixPtr : Nat
  reads : List Read
  pixels : List Pixel

/-- The body of the inner loop. -/
def packMacropixel (signedChar : Bool) (yvyu : Frame) (row column : Nat) (packed : Packed) :
    Packed :=
  let y0 := promote signedChar (yvyu packed.ptr)
  let cb := centre (promote signedChar (yvyu (packed.ptr + 1)))
  let y1 := promote signedChar (yvyu (packed.ptr + 2))
  let cr := centre (promote signedChar (yvyu (packed.ptr + 3)))
  { ptr := packed.ptr + 4
    pixPtr := packed.pixPtr + 2
    reads := packed.reads ++ macropixelReads row column packed.ptr
    pixels := packed.pixels ++
      [⟨packed.pixPtr, row, column, rgbaPixel y0 cb cr⟩,
        ⟨packed.pixPtr + 1, row, column, rgbaPixel y1 cb cr⟩] }

def yvyu2RGBA (signedChar : Bool) (yvyu : Frame) (w h : Int) : Option Packed :=
  forRange (fun j => forRange (fun i packed =>
    some (packMacropixel signedChar yvyu j i packed)) (columns w)) h.toNat ⟨0, 0, [], []⟩

section Packed

variable (signedChar : Bool) (yvyu : Frame) (width : Int)

/-- Where the running pointer stands at a macropixel. -/
def runningIndex (row column : Nat) : Int :=
  4 * macropixelIndex width row column

def packedReads (row column : Nat) : List Read :=
  macropixelReads row column (runningIndex width row column)

def packedPixels (row column : Nat) : List Pixel :=
  let ptr := runningIndex width row column
  let cb := centre (promote signedChar (yvyu (ptr + 1)))
  let cr := centre (promote signedChar (yvyu (ptr + 3)))
  [⟨2 * macropixelIndex width row column, row, column,
      rgbaPixel (promote signedChar (yvyu ptr)) cb cr⟩,
    ⟨2 * macropixelIndex width row column + 1, row, column,
      rgbaPixel (promote signedChar (yvyu (ptr + 2))) cb cr⟩]

/-- The state of the loops at a macropixel. -/
def packedAt (row column : Nat) : Packed where
  ptr := runningIndex width row column
  pixPtr := 2 * macropixelIndex width row column
  reads :=
    appended (fun j => appended (packedReads width j) (columns width)) row ++
      appended (packedReads width row) column
  pixels :=
    appended (fun j => appended (packedPixels signedChar yvyu width j) (columns width)) row ++
      appended (packedPixels signedChar yvyu width row) column

theorem packMacropixel_packedAt (row column : Nat) :
    packMacropixel signedChar yvyu row column (packedAt signedChar yvyu width row column) =
      packedAt signedChar yvyu width row (column + 1) := by
  have index : macropixelIndex width row (column + 1) =
      macropixelIndex width row column + 1 := by
    simp [macropixelIndex, Nat.add_assoc]
  simp only [packMacropixel, packedAt, appended_succ, packedReads, packedPixels,
    runningIndex, index, List.append_assoc, Packed.mk.injEq]
  exact ⟨by push_cast; ring, by ring, trivial, trivial⟩

theorem packedAt_succ_row (row : Nat) :
    packedAt signedChar yvyu width row (columns width) =
      packedAt signedChar yvyu width (row + 1) 0 := by
  have index : macropixelIndex width row (columns width) =
      macropixelIndex width (row + 1) 0 := by
    simp [macropixelIndex, Nat.mul_add]
  simp only [packedAt, runningIndex, index, appended_succ, appended_zero, List.append_nil]

theorem rgba_row (row : Nat) :
    forRange (fun i packed => some (packMacropixel signedChar yvyu row i packed))
        (columns width) (packedAt signedChar yvyu width row 0) =
      some (packedAt signedChar yvyu width (row + 1) 0) := by
  rw [← packedAt_succ_row]
  exact forRange_eq_of_closed fun column _ =>
    congrArg some (packMacropixel_packedAt signedChar yvyu width row column)

/-- `Yvyu2RGBA` always evaluates, and reads and writes as its closed form says. -/
theorem yvyu2RGBA_eq (height : Int) :
    yvyu2RGBA signedChar yvyu width height =
      some (packedAt signedChar yvyu width height.toNat 0) := by
  have start : (⟨0, 0, [], []⟩ : Packed) = packedAt signedChar yvyu width 0 0 := by
    simp [packedAt, runningIndex, macropixelIndex]
  rw [yvyu2RGBA, start]
  exact forRange_eq_of_closed fun row _ => rgba_row signedChar yvyu width row

end Packed

/-! ## What is read and written -/

theorem mem_planar_reads {yvyu : Frame} {width size : Int} {height : Nat} {read : Read} :
    read ∈ (planarAt yvyu width size height 0).reads ↔
      ∃ row < height, ∃ column < columns width, ∃ byte < 4,
        read = ⟨row, column, byte, sourceIndex width row column + byte⟩ := by
  simp only [planarAt, appended_zero, List.append_nil, mem_appended, planarReads,
    mem_macropixelReads]

theorem mem_packed_reads {signedChar : Bool} {yvyu : Frame} {width : Int} {height : Nat}
    {read : Read} :
    read ∈ (packedAt signedChar yvyu width height 0).reads ↔
      ∃ row < height, ∃ column < columns width, ∃ byte < 4,
        read = ⟨row, column, byte, runningIndex width row column + byte⟩ := by
  simp only [packedAt, appended_zero, List.append_nil, mem_appended, packedReads,
    mem_macropixelReads]

theorem mem_planar_stores {yvyu : Frame} {width size : Int} {height : Nat}
    {store : Store UInt8} :
    store ∈ (planarAt yvyu width size height 0).stores ↔
      ∃ row < height, ∃ column < columns width,
        store ∈ planarStores yvyu width size row column := by
  simp only [planarAt, appended_zero, List.append_nil, mem_appended]

theorem mem_packed_pixels {signedChar : Bool} {yvyu : Frame} {width : Int} {height : Nat}
    {pixel : Pixel} :
    pixel ∈ (packedAt signedChar yvyu width height 0).pixels ↔
      ∃ row < height, ∃ column < columns width,
        pixel ∈ packedPixels signedChar yvyu width row column := by
  simp only [packedAt, appended_zero, List.append_nil, mem_appended]

/-! ## Pictures of natural size -/

@[simp]
theorem columns_natCast (width : Nat) : columns width = width / 2 := by
  have quotient : ((width : Int).tdiv 2) = ((width / 2 : Nat) : Int) := by
    rw [Int.ofNat_tdiv]
    rfl
  rw [columns, quotient, Int.toNat_natCast]

theorem columns_even (half : Nat) : columns (2 * half : Nat) = half := by
  rw [columns_natCast]
  omega

/-- Rows of an even picture start on a macropixel. -/
theorem rowStart_even (row half : Nat) : row * (2 * half) / 2 = half * row := by
  rw [Nat.mul_left_comm, Nat.mul_div_cancel_left _ (by omega), Nat.mul_comm]

theorem size_even (half lines : Nat) :
    ((2 * half : Nat) : Int) * ((2 * lines : Nat) : Int) = ((4 * (half * lines) : Nat) : Int) := by
  push_cast
  ring

/-- A picture that is not two pixels wide has no macropixel. -/
theorem columns_of_le_one {width : Int} (narrow : width ≤ 1) : columns width = 0 := by
  rcases le_or_gt width 0 with negative | positive
  · have quotient := Int.tdiv_nonneg (show 0 ≤ -width by omega) (show (0 : Int) ≤ 2 by omega)
    rw [Int.neg_tdiv] at quotient
    unfold columns
    omega
  · have one : width = 1 := by omega
    rw [one]
    rfl

theorem sourceIndex_natCast (width row column : Nat) :
    sourceIndex width row column = ((4 * (row * width / 2 + column) : Nat) : Int) := by
  have product : ((row : Int) * (width : Int)).tdiv 2 = ((row * width / 2 : Nat) : Int) := by
    rw [← Int.natCast_mul, Int.ofNat_tdiv]
    rfl
  rw [sourceIndex, product]
  push_cast
  ring

theorem runningIndex_natCast (width row column : Nat) :
    runningIndex width row column = ((4 * (width / 2 * row + column) : Nat) : Int) := by
  simp [runningIndex, macropixelIndex]

/-- The index of a macropixel fits in an `int` when the picture size and the index
do. -/
theorem sourceFits_natCast_iff {width height row column : Nat}
    (size : Fits ((width : Int) * height)) (inside : row < height) :
    SourceFits width row column ↔ 4 * (row * width / 2 + column) < 2 ^ 31 := by
  have rowFits : Fits ((row : Int) * width) := by
    refine size.of_le (by positivity) ?_
    rw [mul_comm (width : Int)]
    exact mul_le_mul_of_nonneg_right (by omega) (by positivity)
  have product : ((row : Int) * (width : Int)).tdiv 2 = ((row * width / 2 : Nat) : Int) := by
    rw [← Int.natCast_mul, Int.ofNat_tdiv]
    rfl
  rw [SourceFits, sourceIndex_natCast, product]
  simp only [rowFits, true_and]
  constructor
  · rintro ⟨-, fits⟩
    have bound := fits.2
    omega
  · intro bound
    constructor
    · exact (fits_of_nonneg (by positivity)).mpr (by push_cast at *; omega)
    · exact (fits_of_nonneg (by positivity)).mpr (by push_cast at *; omega)

/-- The converter evaluates when every byte of the frame has an `int` index. -/
theorem yvyu2Yuv420_natCast (yvyu : Frame) {width height : Nat}
    (small : 2 * (width * height) ≤ 2 ^ 31) :
    yvyu2Yuv420 yvyu width height = some (planarAt yvyu width (width * height) height 0) := by
  have size : Fits ((width : Int) * height) := by
    rw [← Int.natCast_mul]
    exact ⟨by omega, by omega⟩
  have sources : ∀ row < height, ∀ column < width / 2, SourceFits width row column := by
    intro row inside column inRow
    refine (sourceFits_natCast_iff size inside).mpr ?_
    have next : (row + 1) * width ≤ height * width := Nat.mul_le_mul_right width inside
    rw [Nat.succ_mul, Nat.mul_comm height] at next
    omega
  rw [yvyu2Yuv420_eq, Int.toNat_natCast, columns_natCast, if_pos ⟨size, sources⟩]

end UsbCamera
