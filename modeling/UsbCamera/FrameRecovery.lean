import UsbCamera.CharSignedness
import UsbCamera.PlanarPicture
import Mathlib.Order.Monotone.Basic

/-!
# What the converters keep of a frame

The shifts of `Yvyu2RGBA` are coarse, yet no two samples give the same three channels: red and
blue rise with their chroma, and green cannot make up for both.  Only saturation loses
something, so a picture without a black or full channel determines its frame, and with it the
preview.  `Yvyu2Yuv420` loses the chroma of the odd rows and nothing else, and every planar
picture is that of some frame.
-/

namespace UsbCamera

open CheckedInt CountedLoop StoreLog

/-! ## Three channels determine the samples -/

def greenOfCb (cb : Int) : Int :=
  0 - shr cb 2 + shr cb 4 + shr cb 5

def greenOfCr (cr : Int) : Int :=
  shr cr 3 + shr cr 4 + shr cr 5 - shr cr 1

theorem diffG_eq (cb cr : Int) : diffG cb cr = greenOfCb cb + greenOfCr cr := by
  unfold diffG greenOfCb greenOfCr
  omega

theorem diffR_strictMono : StrictMono diffR := by
  refine strictMono_int_of_lt_succ fun cr => ?_
  have step := diffR_sub_one_lt (cr + 1)
  rwa [add_sub_cancel_right] at step

theorem diffB_strictMono : StrictMono diffB := by
  refine strictMono_int_of_lt_succ fun cb => ?_
  have step := diffB_sub_one_lt (cb + 1)
  rwa [add_sub_cancel_right] at step

/-- Green gains at most half of what red gains. -/
theorem red_green_mono : Monotone fun cr => diffR cr - 2 * greenOfCr cr := by
  refine monotone_int_of_le_succ fun cr => ?_
  have sixteenths : (cr + 1) / 16 - cr / 16 ≤ (cr + 1) / 2 - cr / 2 := by omega
  have eighths : (cr + 1) / 8 - cr / 8 ≤ (cr + 1) / 4 - cr / 4 := by omega
  have last : (cr + 1) / 32 - cr / 32 ≤ 1 := by omega
  unfold diffR greenOfCr
  simp only [shr_eq_div, Int.reducePow]
  linarith

/-- Green gains less than half of what blue gains. -/
theorem blue_green_strictMono : StrictMono fun cb => diffB cb - 2 * greenOfCb cb := by
  refine strictMono_int_of_lt_succ fun cb => ?_
  have sixteenths : (cb + 1) / 16 - cb / 16 ≤ (cb + 1) / 4 - cb / 4 := by omega
  have halves : (cb + 1) / 32 - cb / 32 ≤ (cb + 1) / 2 - cb / 2 := by omega
  have quarters : (cb + 1) / 32 - cb / 32 ≤ (cb + 1) / 4 - cb / 4 := by omega
  have last : cb / 64 ≤ (cb + 1) / 64 := by omega
  unfold diffB greenOfCb
  simp only [shr_eq_div, Int.reducePow]
  linarith

section Samples

variable {luma cb cr luma' cb' cr' : Int}

/-- A brighter pixel with the same red and blue has less chroma, and too much green. -/
theorem not_brighter (red : luma + diffR cr = luma' + diffR cr')
    (green : luma + diffG cb cr = luma' + diffG cb' cr')
    (blue : luma + diffB cb = luma' + diffB cb') : luma ≤ luma' := by
  by_contra brighter
  have lessCr : cr < cr' := diffR_strictMono.lt_iff_lt.mp (by omega)
  have lessCb : cb < cb' := diffB_strictMono.lt_iff_lt.mp (by omega)
  have redGreen := red_green_mono lessCr.le
  have blueGreen := blue_green_strictMono lessCb
  rw [diffG_eq, diffG_eq] at green
  dsimp only at redGreen blueGreen
  omega

theorem samples_of_channels (red : luma + diffR cr = luma' + diffR cr')
    (green : luma + diffG cb cr = luma' + diffG cb' cr')
    (blue : luma + diffB cb = luma' + diffB cb') : luma = luma' ∧ cb = cb' ∧ cr = cr' := by
  have same : luma = luma' :=
    le_antisymm (not_brighter red green blue) (not_brighter red.symm green.symm blue.symm)
  subst same
  exact ⟨rfl, diffB_strictMono.injective (by omega), diffR_strictMono.injective (by omega)⟩

theorem eq_of_clamp {channel channel' : Int} (same : clamp channel = clamp channel')
    (inside : 0 < clamp channel ∧ clamp channel < 255) : channel = channel' := by
  unfold clamp at same inside
  split_ifs at same inside <;> omega

end Samples

/-- No channel of a pixel is black or at its full intensity. -/
def Moderate (value : BitVec 32) : Prop :=
  ∀ channel < 3, 0 < littleEndian value channel ∧ littleEndian value channel < 255

instance (value : BitVec 32) : Decidable (Moderate value) :=
  inferInstanceAs (Decidable (∀ channel < 3, _))

theorem samples_of_rgbaPixel {luma cb cr luma' cb' cr' : Int}
    (moderate : Moderate (rgbaPixel luma cb cr))
    (same : rgbaPixel luma cb cr = rgbaPixel luma' cb' cr') :
    luma = luma' ∧ cb = cb' ∧ cr = cr' := by
  obtain ⟨red, green, blue⟩ := (rgbaPixel_inj _ _ _ _ _ _).mp same
  obtain ⟨redByte, greenByte, blueByte, -⟩ := littleEndian_packRGBA
    (clamp_mem (luma + diffR cr)) (clamp_mem (luma + diffG cb cr)) (clamp_mem (luma + diffB cb))
  have redInside := moderate 0 (by omega)
  have greenInside := moderate 1 (by omega)
  have blueInside := moderate 2 (by omega)
  rw [rgbaPixel, redByte] at redInside
  rw [rgbaPixel, greenByte] at greenInside
  rw [rgbaPixel, blueByte] at blueInside
  exact samples_of_channels (eq_of_clamp red redInside) (eq_of_clamp green greenInside)
    (eq_of_clamp blue blueInside)

/-! ## The bytes of a frame -/

/-- The frames have the same bytes. -/
def SameFrame (yvyu yvyu' : Frame) (width height : Nat) : Prop :=
  ∀ offset < 2 * (width * height), yvyu (offset : Nat) = yvyu' (offset : Nat)

section Frames

variable {yvyu yvyu' : Frame} {half height : Nat}

theorem sameFrame_iff : SameFrame yvyu yvyu' (2 * half) height ↔
    ∀ y < height, ∀ k < half, ∀ byte < 4,
      macropixelByte yvyu (2 * half) y k byte = macropixelByte yvyu' (2 * half) y k byte := by
  have size : 2 * (2 * half * height) = 4 * (half * height) := by ring
  have place : ∀ y k byte, 2 * (2 * half) * y + 4 * k + byte = 4 * (half * y + k) + byte := by
    intro y k byte
    ring
  rw [SameFrame, size]
  simp only [macropixelByte, place]
  constructor
  · intro same y inside k inRow byte four
    have position := position_lt inRow inside
    exact same _ (by omega)
  · intro same offset below
    obtain ⟨y, inside, k, inRow, position⟩ :
        ∃ y < height, ∃ k < half, offset / 4 = half * y + k :=
      exists_position (by omega)
    have split : offset = 4 * (half * y + k) + offset % 4 := by omega
    rw [split]
    exact same y inside k inRow _ (Nat.mod_lt _ (by decide))

/-- A pixel without black or full channels tells the luma and the chroma it was made of. -/
theorem bytes_of_sourcePixel {width y x : Nat}
    (moderate : Moderate (sourcePixel false yvyu width y x))
    (same : sourcePixel false yvyu width y x = sourcePixel false yvyu' width y x) :
    ∀ byte, byte = 2 * (x % 2) ∨ byte % 2 = 1 ∧ byte < 4 →
      macropixelByte yvyu width y (x / 2) byte = macropixelByte yvyu' width y (x / 2) byte := by
  rw [sourcePixel_unsigned] at moderate
  rw [sourcePixel_unsigned, sourcePixel_unsigned] at same
  obtain ⟨luma, cb, cr⟩ := samples_of_rgbaPixel moderate same
  have byteEq : ∀ byte byte' : UInt8, (byte.toNat : Int) = byte'.toNat → byte = byte' := by
    intro byte byte' equal
    exact UInt8.toNat_inj.mp (Int.natCast_inj.mp equal)
  rintro byte (rfl | ⟨odd, four⟩)
  · exact byteEq _ _ luma
  · have either : byte = 1 ∨ byte = 3 := by omega
    rcases either with rfl | rfl
    · exact byteEq _ _ (sub_left_injective cb)
    · exact byteEq _ _ (sub_left_injective cr)

theorem sourcePixel_of_pixels {y x : Nat}
    (same : (packedAt false yvyu (2 * half : Nat) height 0).pixels =
      (packedAt false yvyu' (2 * half : Nat) height 0).pixels)
    (inside : y < height) (inRow : x < 2 * half) :
    sourcePixel false yvyu (2 * half) y x = sourcePixel false yvyu' (2 * half) y x := by
  have stores : (packedAt false yvyu (2 * half : Nat) height 0).stores =
      (packedAt false yvyu' (2 * half : Nat) height 0).stores := by
    rw [Packed.stores, same]
    rfl
  rw [← rgbData_even (fun _ => 0) inside inRow, stores, rgbData_even _ inside inRow]

/-- Frames with the same bytes have the same picture. -/
theorem pixels_of_sameFrame (same : SameFrame yvyu yvyu' (2 * half) height) :
    (packedAt false yvyu (2 * half : Nat) height 0).pixels =
      (packedAt false yvyu' (2 * half : Nat) height 0).pixels := by
  have bytes := sameFrame_iff.mp same
  simp only [packedAt, appended_zero, List.append_nil, columns_even]
  refine appended_congr fun y inside => appended_congr fun k inRow => ?_
  have first : 2 * k / 2 = k := by omega
  have second : (2 * k + 1) / 2 = k := by omega
  simp only [packedPixels_even, sourcePixel, first, second]
  rw [bytes y inside k inRow _ (show 2 * (2 * k % 2) < 4 by omega),
    bytes y inside k inRow _ (show 2 * ((2 * k + 1) % 2) < 4 by omega),
    bytes y inside k inRow 1 (by omega), bytes y inside k inRow 3 (by omega)]

/-! ## The planes -/

/-- The frames differ at most in the chroma of odd rows. -/
def SameButOddChroma (yvyu yvyu' : Frame) (width height : Nat) : Prop :=
  ∀ y < height, ∀ k < width / 2, ∀ byte < 4, byte % 2 = 0 ∨ y % 2 = 0 →
    macropixelByte yvyu width y k byte = macropixelByte yvyu' width y k byte

/-- What a macropixel stores, by its bytes. -/
theorem planarStores_bytes (yvyu : Frame) (half row column : Nat) (size : Int) :
    planarStores yvyu (2 * half : Nat) size row column =
      [⟨2 * macropixelIndex (2 * half : Nat) row column,
          macropixelByte yvyu (2 * half) row column 0⟩,
        ⟨2 * macropixelIndex (2 * half : Nat) row column + 1,
          macropixelByte yvyu (2 * half) row column 2⟩] ++
      if row % 2 = 0 then
        [⟨size + macropixelIndex (2 * half : Nat) (row / 2) column,
            macropixelByte yvyu (2 * half) row column 3⟩,
          ⟨size + size.tdiv 4 + macropixelIndex (2 * half : Nat) (row / 2) column,
            macropixelByte yvyu (2 * half) row column 1⟩]
      else [] := by
  have source : sourceIndex (2 * half : Nat) row column =
      ((2 * (2 * half) * row + 4 * column : Nat) : Int) := by
    rw [sourceIndex_natCast, rowStart_even]
    congr 1
    ring
  simp only [planarStores, source, macropixelByte]
  rfl

theorem planarStores_congr {row column : Nat} (size : Int)
    (same : ∀ byte < 4, byte % 2 = 0 ∨ row % 2 = 0 →
      macropixelByte yvyu (2 * half) row column byte =
        macropixelByte yvyu' (2 * half) row column byte) :
    planarStores yvyu (2 * half : Nat) size row column =
      planarStores yvyu' (2 * half : Nat) size row column := by
  rw [planarStores_bytes, planarStores_bytes, same 0 (by decide) (Or.inl rfl),
    same 2 (by decide) (Or.inl rfl)]
  by_cases even : row % 2 = 0
  · rw [same 3 (by decide) (Or.inr even), same 1 (by decide) (Or.inr even)]
  · simp only [even, if_false]

/-- The preview does not depend on the chroma of odd rows. -/
theorem yvyu2Yuv420_congr (same : SameButOddChroma yvyu yvyu' (2 * half) height) :
    yvyu2Yuv420 yvyu (2 * half : Nat) height = yvyu2Yuv420 yvyu' (2 * half : Nat) height := by
  have halves : 2 * half / 2 = half := by omega
  have planar : ∀ size, planarAt yvyu (2 * half : Nat) size height 0 =
      planarAt yvyu' (2 * half : Nat) size height 0 := by
    intro size
    simp only [planarAt, appended_zero, List.append_nil, columns_even, Planar.mk.injEq, true_and]
    refine appended_congr fun y inside => appended_congr fun k inRow => ?_
    exact planarStores_congr size (same y inside k (by omega))
  rw [yvyu2Yuv420_eq, yvyu2Yuv420_eq, Int.toNat_natCast, planar]

theorem sameButOddChroma_of_sameFrame (same : SameFrame yvyu yvyu' (2 * half) height) :
    SameButOddChroma yvyu yvyu' (2 * half) height := by
  intro y inside k inRow byte four _
  exact sameFrame_iff.mp same y inside k (by omega) byte four

end Frames

/-! ## The packed picture determines the frame -/

/-- A picture without black or full channels is that of one frame only, and so determines the
preview as well. -/
theorem sameFrame_iff_of_moderate {yvyu yvyu' : Frame} {width height : Nat}
    {packed packed' : Packed} (evenWidth : width % 2 = 0)
    (converted : yvyu2RGBA false yvyu width height = some packed)
    (converted' : yvyu2RGBA false yvyu' width height = some packed')
    (moderate : ∀ pixel ∈ packed.pixels, Moderate pixel.value) :
    (packed.pixels = packed'.pixels ↔ SameFrame yvyu yvyu' width height) ∧
      (packed.pixels = packed'.pixels →
        yvyu2Yuv420 yvyu width height = yvyu2Yuv420 yvyu' width height) := by
  obtain ⟨half, rfl⟩ : ∃ half, width = 2 * half := ⟨width / 2, by omega⟩
  rw [yvyu2RGBA_eq, Int.toNat_natCast] at converted converted'
  cases converted
  cases converted'
  have recovered : (packedAt false yvyu (2 * half : Nat) height 0).pixels =
      (packedAt false yvyu' (2 * half : Nat) height 0).pixels →
        SameFrame yvyu yvyu' (2 * half) height := by
    intro same
    refine sameFrame_iff.mpr fun y inside k inRow byte four => ?_
    have told : ∀ x, x / 2 = k → byte = 2 * (x % 2) ∨ byte % 2 = 1 ∧ byte < 4 →
        macropixelByte yvyu (2 * half) y k byte = macropixelByte yvyu' (2 * half) y k byte := by
      rintro x rfl which
      have within : x < 2 * half := by omega
      have member := @mem_pixels_even false yvyu half height y x inside within
      have bounded := moderate _ member
      exact bytes_of_sourcePixel bounded (sourcePixel_of_pixels same inside within) byte which
    have parity : byte = 0 ∨ byte = 2 ∨ byte % 2 = 1 := by omega
    rcases parity with rfl | rfl | odd
    · exact told (2 * k) (by omega) (Or.inl (by omega))
    · exact told (2 * k + 1) (by omega) (Or.inl (by omega))
    · exact told (2 * k) (by omega) (Or.inr ⟨odd, four⟩)
  refine ⟨⟨recovered, pixels_of_sameFrame⟩, fun same => ?_⟩
  exact yvyu2Yuv420_congr (sameButOddChroma_of_sameFrame (recovered same))

/-- A grey frame, and the same followed by other bytes. -/
theorem sameFrame_iff_of_moderate_grey :
    ∃ packed packed', yvyu2RGBA false (fun _ => 128) 2 2 = some packed ∧
      yvyu2RGBA false (fun offset => if offset < 8 then 128 else 0) 2 2 = some packed' ∧
      (packed.pixels = packed'.pixels ↔
        SameFrame (fun _ => 128) (fun offset => if offset < 8 then 128 else 0) 2 2) ∧
      (packed.pixels = packed'.pixels → yvyu2Yuv420 (fun _ => 128) 2 2 =
        yvyu2Yuv420 (fun offset => if offset < 8 then 128 else 0) 2 2) := by
  obtain ⟨packed, converted⟩ := Option.isSome_iff_exists.mp
    (by decide : (yvyu2RGBA false (fun _ => 128) 2 2).isSome = true)
  obtain ⟨packed', converted'⟩ := Option.isSome_iff_exists.mp
    (by decide :
      (yvyu2RGBA false (fun offset => if offset < 8 then 128 else 0) 2 2).isSome = true)
  have moderate := (by decide :
    ∀ packed ∈ yvyu2RGBA false (fun _ => 128) 2 2, ∀ pixel ∈ packed.pixels,
      Moderate pixel.value) packed converted
  exact ⟨packed, packed', converted, converted', @sameFrame_iff_of_moderate _ _ 2 2 _ _
    (by decide) converted converted' moderate⟩

/-! ## The planar picture and its frames -/

/-- A frame with the samples of a planar picture: each chroma byte is that of two rows. -/
def frameOf (yuv : Int → UInt8) (width height : Nat) : Frame := fun offset =>
  let row := offset.toNat / (2 * width)
  let rest := offset.toNat % (2 * width)
  let chroma := row / 2 * (width / 2) + rest / 4
  if rest % 4 = 3 then yuv (width * height + chroma : Nat)
  else if rest % 4 = 1 then yuv (width * height + width * height / 4 + chroma : Nat)
  else yuv (row * width + rest / 2 : Nat)

theorem macropixelByte_frameOf (yuv : Int → UInt8) {width : Nat} (height : Nat) {y k byte : Nat}
    (inRow : k < width / 2) (four : byte < 4) :
    macropixelByte (frameOf yuv width height) width y k byte =
      if byte = 3 then yuv (width * height + (y / 2 * (width / 2) + k) : Nat)
      else if byte = 1 then
        yuv (width * height + width * height / 4 + (y / 2 * (width / 2) + k) : Nat)
      else yuv (y * width + (4 * k + byte) / 2 : Nat) := by
  have below : 4 * k + byte < 2 * width := by omega
  have offset : 2 * width * y + 4 * k + byte = 4 * k + byte + 2 * width * y := by omega
  have row : (4 * k + byte + 2 * width * y) / (2 * width) = y := by
    rw [Nat.add_mul_div_left _ _ (by omega), Nat.div_eq_of_lt below, Nat.zero_add]
  have rest : (4 * k + byte + 2 * width * y) % (2 * width) = 4 * k + byte := by
    rw [Nat.add_mul_mod_self_left, Nat.mod_eq_of_lt below]
  have column : (4 * k + byte) / 4 = k := by omega
  have last : (4 * k + byte) % 4 = byte := by omega
  simp only [macropixelByte, frameOf, offset, Int.toNat_natCast, row, rest, column, last]

/-- What `Yvyu2Yuv420` keeps of the frames of a size: everything but the chroma of odd rows,
and all planar pictures occur. -/
structure KeepsPlanes (width height : Nat) : Prop where
  kept : ∀ yvyu yvyu' planar planar', yvyu2Yuv420 yvyu width height = some planar →
    yvyu2Yuv420 yvyu' width height = some planar' →
    ((∀ heap offset, writeAll planar.stores heap offset = writeAll planar'.stores heap offset) ↔
      SameButOddChroma yvyu yvyu' width height)
  reached : ∀ yuv, ∃ planar, yvyu2Yuv420 (frameOf yuv width height) width height = some planar ∧
    ∀ heap, ∀ offset < width * height * 3 / 2,
      writeAll planar.stores heap (offset : Nat) = yuv (offset : Nat)

section Planes

variable {yvyu yvyu' : Frame} {half lines : Nat} {planar planar' : Planar}

theorem sameButOddChroma_of_output (picture : PlanarPicture yvyu (2 * half) (2 * lines) planar)
    (picture' : PlanarPicture yvyu' (2 * half) (2 * lines) planar')
    (same : ∀ heap offset,
      writeAll planar.stores heap offset = writeAll planar'.stores heap offset) :
    SameButOddChroma yvyu yvyu' (2 * half) (2 * lines) := by
  have luma : ∀ y < 2 * lines, ∀ x < 2 * half,
      macropixelByte yvyu (2 * half) y (x / 2) (2 * (x % 2)) =
        macropixelByte yvyu' (2 * half) y (x / 2) (2 * (x % 2)) := by
    intro y inside x inRow
    rw [← picture.luma (fun _ => 0) y inside x inRow, same,
      picture'.luma (fun _ => 0) y inside x inRow]
  have cr : ∀ r < 2 * lines / 2, ∀ k < 2 * half / 2,
      macropixelByte yvyu (2 * half) (2 * r) k 3 =
        macropixelByte yvyu' (2 * half) (2 * r) k 3 := by
    intro r inside k inRow
    rw [← picture.cr (fun _ => 0) r inside k inRow, same,
      picture'.cr (fun _ => 0) r inside k inRow]
  have cb : ∀ r < 2 * lines / 2, ∀ k < 2 * half / 2,
      macropixelByte yvyu (2 * half) (2 * r) k 1 =
        macropixelByte yvyu' (2 * half) (2 * r) k 1 := by
    intro r inside k inRow
    rw [← picture.cb (fun _ => 0) r inside k inRow, same,
      picture'.cb (fun _ => 0) r inside k inRow]
  intro y inside k inRow byte four kept
  have which : byte = 0 ∨ byte = 2 ∨ (byte = 1 ∨ byte = 3) ∧ y % 2 = 0 := by omega
  rcases which with rfl | rfl | ⟨odd, even⟩
  · have at0 := luma y inside (2 * k) (by omega)
    rwa [show 2 * k / 2 = k by omega, show 2 * (2 * k % 2) = 0 by omega] at at0
  · have at2 := luma y inside (2 * k + 1) (by omega)
    rwa [show (2 * k + 1) / 2 = k by omega, show 2 * ((2 * k + 1) % 2) = 2 by omega] at at2
  · have row : y = 2 * (y / 2) := by omega
    rcases odd with rfl | rfl
    · rw [row]
      exact cb (y / 2) (by omega) k inRow
    · rw [row]
      exact cr (y / 2) (by omega) k inRow

/-- The planes of the frame made of a planar picture are that picture. -/
theorem output_frameOf (yuv : Int → UInt8)
    (picture : PlanarPicture (frameOf yuv (2 * half) (2 * lines)) (2 * half) (2 * lines) planar)
    (heap : Int → UInt8) {offset : Nat} (below : offset < 2 * half * (2 * lines) * 3 / 2) :
    writeAll planar.stores heap (offset : Nat) = yuv (offset : Nat) := by
  have size : 2 * half * (2 * lines) = 4 * (half * lines) := by ring
  have halves : 2 * half / 2 = half := by omega
  have quarter : 4 * (half * lines) / 4 = half * lines := by omega
  rcases Nat.lt_or_ge offset (4 * (half * lines)) with inLuma | behind
  · obtain ⟨y, inside, x, inRow, rfl⟩ : ∃ y < 2 * lines, ∃ x < 2 * half,
        offset = 2 * half * y + x := exists_position (by omega)
    rw [Nat.mul_comm (2 * half) y, picture.luma heap y inside x inRow,
      macropixelByte_frameOf yuv _ (by omega) (by omega), if_neg (by omega), if_neg (by omega)]
    congr 2
    omega
  · rcases Nat.lt_or_ge offset (5 * (half * lines)) with inCr | beyond
    · obtain ⟨r, inside, k, inRow, position⟩ : ∃ r < lines, ∃ k < half,
          offset - 4 * (half * lines) = half * r + k := exists_position (by omega)
      have place : offset = 2 * half * (2 * lines) + r * (2 * half / 2) + k := by
        rw [size, halves, Nat.mul_comm r]
        omega
      rw [place, picture.cr heap r (by omega) k (by omega),
        macropixelByte_frameOf yuv _ (by omega) (by omega), if_pos rfl,
        show 2 * r / 2 = r by omega, Nat.add_assoc]
    · obtain ⟨r, inside, k, inRow, position⟩ : ∃ r < lines, ∃ k < half,
          offset - 5 * (half * lines) = half * r + k := exists_position (by omega)
      have place : offset =
          2 * half * (2 * lines) + 2 * half * (2 * lines) / 4 + r * (2 * half / 2) + k := by
        rw [size, quarter, halves, Nat.mul_comm r]
        omega
      rw [place, picture.cb heap r (by omega) k (by omega),
        macropixelByte_frameOf yuv _ (by omega) (by omega), if_neg (by decide), if_pos rfl,
        show 2 * r / 2 = r by omega, Nat.add_assoc _ (r * (2 * half / 2))]

end Planes

/-- For even sizes without overflow two frames have the same planar picture exactly when they
differ at most in the chroma of odd rows, and every planar picture is that of a frame. -/
theorem keepsPlanes_of_even {width height : Nat} (evenWidth : width % 2 = 0)
    (evenHeight : height % 2 = 0) (small : 2 * (width * height) ≤ 2 ^ 31) :
    KeepsPlanes width height := by
  obtain ⟨half, rfl⟩ : ∃ half, width = 2 * half := ⟨width / 2, by omega⟩
  obtain ⟨lines, rfl⟩ : ∃ lines, height = 2 * lines := ⟨height / 2, by omega⟩
  constructor
  · intro yvyu yvyu' planar planar' converted converted'
    constructor
    · intro same
      rw [yvyu2Yuv420_natCast _ small] at converted converted'
      cases converted
      cases converted'
      exact sameButOddChroma_of_output (planarPicture_even yvyu half lines)
        (planarPicture_even yvyu' half lines) same
    · intro same heap offset
      rw [yvyu2Yuv420_congr same, converted'] at converted
      rw [Option.some.inj converted]
  · intro yuv
    exact ⟨_, yvyu2Yuv420_natCast _ small, fun heap offset below =>
      output_frameOf yuv (planarPicture_even _ half lines) heap below⟩

theorem keepsPlanes_vga : KeepsPlanes 640 480 :=
  keepsPlanes_of_even (by decide) (by decide) (by decide)

end UsbCamera
