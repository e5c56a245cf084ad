import UsbCamera.PreviewPicture

/-!
# The packed picture

`Yvyu2RGBA` writes its pixels one behind the other and builds each with a 32-bit addition of
shifted channels.  The channels are clamped to a byte, so the addition has no carries and the
bytes of a pixel are its channels; each pixel is a function of the macropixel it comes from.
-/

namespace UsbCamera

open CheckedInt CountedLoop StoreLog

/-! ## The bytes of a pixel -/

/-- Byte `byte` of a 32-bit value, counted from the lowest. -/
def littleEndian (value : BitVec 32) (byte : Nat) : Int :=
  ((value.extractLsb' (8 * byte) 8).toNat : Int)

theorem clamp_mem (channel : Int) : 0 ≤ clamp channel ∧ clamp channel ≤ 255 := by
  unfold clamp
  omega

section Lanes

variable {r g b : Int}

/-- The sum of the shifted channels has no carries. -/
theorem packRGBA_toNat (red : 0 ≤ r ∧ r ≤ 255) (green : 0 ≤ g ∧ g ≤ 255)
    (blue : 0 ≤ b ∧ b ≤ 255) :
    ((packRGBA r g b).toNat : Int) = 255 * 2 ^ 24 + b * 2 ^ 16 + g * 2 ^ 8 + r := by
  obtain ⟨r, rfl⟩ := Int.eq_ofNat_of_zero_le red.1
  obtain ⟨g, rfl⟩ := Int.eq_ofNat_of_zero_le green.1
  obtain ⟨b, rfl⟩ := Int.eq_ofNat_of_zero_le blue.1
  simp only [packRGBA, BitVec.ofInt_natCast, BitVec.toNat_add, BitVec.toNat_shiftLeft,
    BitVec.toNat_ofNat, Nat.shiftLeft_eq]
  omega

theorem littleEndian_eq (value : BitVec 32) (byte : Nat) :
    littleEndian value byte = ((value.toNat / 2 ^ (8 * byte) % 256 : Nat) : Int) := by
  rw [littleEndian, BitVec.extractLsb'_toNat, Nat.shiftRight_eq_div_pow]

theorem littleEndian_packRGBA (red : 0 ≤ r ∧ r ≤ 255) (green : 0 ≤ g ∧ g ≤ 255)
    (blue : 0 ≤ b ∧ b ≤ 255) :
    littleEndian (packRGBA r g b) 0 = r ∧ littleEndian (packRGBA r g b) 1 = g ∧
      littleEndian (packRGBA r g b) 2 = b ∧ littleEndian (packRGBA r g b) 3 = 255 := by
  have sum := packRGBA_toNat red green blue
  simp only [littleEndian_eq]
  refine ⟨?_, ?_, ?_, ?_⟩ <;> omega

theorem packRGBA_inj {r' g' b' : Int} (red : 0 ≤ r ∧ r ≤ 255) (green : 0 ≤ g ∧ g ≤ 255)
    (blue : 0 ≤ b ∧ b ≤ 255) (red' : 0 ≤ r' ∧ r' ≤ 255) (green' : 0 ≤ g' ∧ g' ≤ 255)
    (blue' : 0 ≤ b' ∧ b' ≤ 255) :
    packRGBA r g b = packRGBA r' g' b' ↔ r = r' ∧ g = g' ∧ b = b' := by
  constructor
  · intro same
    obtain ⟨lane0, lane1, lane2, -⟩ := littleEndian_packRGBA red green blue
    obtain ⟨lane0', lane1', lane2', -⟩ := littleEndian_packRGBA red' green' blue'
    rw [same] at lane0 lane1 lane2
    exact ⟨lane0.symm.trans lane0', lane1.symm.trans lane1', lane2.symm.trans lane2'⟩
  · rintro ⟨rfl, rfl, rfl⟩
    rfl

end Lanes

/-! ## The output -/

/-- The writes of `rgbData` as stores. -/
def Packed.stores (packed : Packed) : List (Store (BitVec 32)) :=
  packed.pixels.map fun pixel => ⟨pixel.index, pixel.value⟩

/-- The bytes a pixel is made of: its luma and the second and the last byte of its
macropixel. -/
def sourcePixel (signedChar : Bool) (yvyu : Frame) (width y x : Nat) : BitVec 32 :=
  rgbaPixel (promote signedChar (macropixelByte yvyu width y (x / 2) (2 * (x % 2))))
    (centre (promote signedChar (macropixelByte yvyu width y (x / 2) 1)))
    (centre (promote signedChar (macropixelByte yvyu width y (x / 2) 3)))

section Output

variable {signedChar : Bool} {yvyu : Frame} {half height : Nat}

theorem map_index_packedPixels (row : Nat) :
    (appended (packedPixels signedChar yvyu (2 * half : Nat) row) half).map Pixel.index =
      List.range' (2 * half * row) (2 * half) := by
  have macropixel : ∀ column, (packedPixels signedChar yvyu (2 * half : Nat) row column).map
      Pixel.index = List.range' (2 * half * row + 2 * column) 2 := by
    intro column
    simp only [packedPixels, macropixelIndex, columns_even, List.map_cons, List.map_nil,
      List.range'_succ, List.range'_zero, Nat.mul_add, Nat.mul_assoc]
  simp only [map_appended, macropixel]
  exact appended_range' _ _ _

/-- The pixels are written in order, each once. -/
theorem map_index_even :
    (packedAt signedChar yvyu (2 * half : Nat) height 0).pixels.map Pixel.index =
      List.range (2 * half * height) := by
  simp only [packedAt, appended_zero, List.append_nil, map_appended, columns_even]
  have rows : (appended (fun row =>
      appended (fun column => (packedPixels signedChar yvyu (2 * half : Nat) row column).map
        Pixel.index) half) height) =
      appended (fun row => List.range' (0 + 2 * half * row) (2 * half)) height := by
    refine appended_congr fun row _ => ?_
    rw [← map_appended, map_index_packedPixels, Nat.zero_add]
  rw [rows, appended_range', List.range_eq_range']

theorem packedPixels_even (row column : Nat) :
    packedPixels signedChar yvyu (2 * half : Nat) row column =
      [⟨2 * (half * row + column), row, column,
          sourcePixel signedChar yvyu (2 * half) row (2 * column)⟩,
        ⟨2 * (half * row + column) + 1, row, column,
          sourcePixel signedChar yvyu (2 * half) row (2 * column + 1)⟩] := by
  have halves : 2 * half / 2 = half := by omega
  have ptr : runningIndex (2 * half : Nat) row column =
      ((2 * (2 * half) * row + 4 * column : Nat) : Int) := by
    rw [runningIndex_natCast, halves]
    congr 1
    ring
  have first : 2 * column / 2 = column ∧ 2 * column % 2 = 0 := by omega
  have second : (2 * column + 1) / 2 = column ∧ (2 * column + 1) % 2 = 1 := by omega
  simp only [packedPixels, macropixelIndex, columns_even, ptr, sourcePixel, macropixelByte,
    first, second]
  rfl

theorem mem_pixels_even {y x : Nat} (inside : y < height) (inRow : x < 2 * half) :
    (⟨y * (2 * half) + x, y, x / 2, sourcePixel signedChar yvyu (2 * half) y x⟩ : Pixel) ∈
      (packedAt signedChar yvyu (2 * half : Nat) height 0).pixels := by
  refine mem_packed_pixels.mpr ⟨y, inside, x / 2, by rw [columns_even]; omega, ?_⟩
  have product : y * (2 * half) = 2 * (half * y) := by ring
  rw [packedPixels_even, product]
  have parity : x = 2 * (x / 2) ∨ x = 2 * (x / 2) + 1 := by omega
  rcases parity with even | odd
  · have index : 2 * (half * y) + x = 2 * (half * y + x / 2) := by omega
    rw [index, ← even]
    exact List.mem_cons_self
  · have index : 2 * (half * y) + x = 2 * (half * y + x / 2) + 1 := by omega
    rw [index, ← odd]
    exact List.mem_cons_of_mem _ List.mem_cons_self

theorem map_offset_stores (packed : Packed) :
    packed.stores.map Store.offset = (packed.pixels.map Pixel.index).map Nat.cast := by
  simp only [Packed.stores, List.map_map]
  rfl

theorem rgbData_even (heap : Int → BitVec 32) {y x : Nat} (inside : y < height)
    (inRow : x < 2 * half) :
    writeAll (packedAt signedChar yvyu (2 * half : Nat) height 0).stores heap
        (y * (2 * half) + x : Nat) =
      sourcePixel signedChar yvyu (2 * half) y x := by
  have once : ((packedAt signedChar yvyu (2 * half : Nat) height 0).stores.map
      Store.offset).Nodup := by
    rw [map_offset_stores, map_index_even]
    exact List.nodup_range.map Nat.cast_injective
  exact writeAll_of_nodup once (List.mem_map_of_mem (mem_pixels_even inside inRow))

end Output

/-- The output is the packed picture of the frame: its pixels are written in order, each once;
their bytes are the clamped channels and 255; and a pixel is the same for every frame with the
same macropixel there. -/
structure PackedPicture (signedChar : Bool) (yvyu : Frame) (width height : Nat)
    (packed : Packed) : Prop where
  once : packed.pixels.map Pixel.index = List.range (width * height)
  bytes : ∀ heap, ∀ y < height, ∀ x < width, ∀ value luma cb cr,
    value = writeAll packed.stores heap (y * width + x : Nat) →
    luma = promote signedChar (macropixelByte yvyu width y (x / 2) (2 * (x % 2))) →
    cb = centre (promote signedChar (macropixelByte yvyu width y (x / 2) 1)) →
    cr = centre (promote signedChar (macropixelByte yvyu width y (x / 2) 3)) →
    littleEndian value 0 = clamp (luma + diffR cr) ∧
      littleEndian value 1 = clamp (luma + diffG cb cr) ∧
      littleEndian value 2 = clamp (luma + diffB cb) ∧ littleEndian value 3 = 255
  locality : ∀ heap heap', ∀ y < height, ∀ x < width, ∀ yvyu' packed',
    yvyu2RGBA signedChar yvyu' width height = some packed' →
    (∀ byte < 4, macropixelByte yvyu' width y (x / 2) byte =
      macropixelByte yvyu width y (x / 2) byte) →
    writeAll packed'.stores heap' (y * width + x : Nat) =
      writeAll packed.stores heap (y * width + x : Nat)

/-- For even widths every frame is packed without interference. -/
theorem yvyu2RGBA_packs (signedChar : Bool) (yvyu : Frame) {width : Nat} (height : Nat)
    (evenWidth : width % 2 = 0) :
    ∃ packed, yvyu2RGBA signedChar yvyu width height = some packed ∧
      PackedPicture signedChar yvyu width height packed := by
  obtain ⟨half, rfl⟩ : ∃ half, width = 2 * half := ⟨width / 2, by omega⟩
  refine ⟨_, yvyu2RGBA_eq signedChar yvyu _ height, ?_⟩
  rw [Int.toNat_natCast]
  constructor
  · exact map_index_even
  · rintro heap y inside x inRow value luma cb cr rfl rfl rfl rfl
    rw [rgbData_even heap inside inRow]
    exact littleEndian_packRGBA (clamp_mem _) (clamp_mem _) (clamp_mem _)
  · intro heap heap' y inside x inRow yvyu' packed' converted same
    rw [yvyu2RGBA_eq, Int.toNat_natCast] at converted
    rw [← Option.some.inj converted, rgbData_even heap' inside inRow,
      rgbData_even heap inside inRow]
    unfold sourcePixel
    rw [same _ (show 2 * (x % 2) < 4 by omega), same 1 (by omega), same 3 (by omega)]

theorem yvyu2RGBA_packs_vga :
    ∃ packed, yvyu2RGBA false (fun offset => UInt8.ofNat offset.toNat) 640 480 = some packed ∧
      PackedPicture false (fun offset => UInt8.ofNat offset.toNat) 640 480 packed :=
  @yvyu2RGBA_packs false (fun offset => UInt8.ofNat offset.toNat) 640 480 (by decide)

end UsbCamera
