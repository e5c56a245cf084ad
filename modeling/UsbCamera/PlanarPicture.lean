import UsbCamera.PreviewPicture
import Mathlib.Data.Int.ConditionallyCompleteOrder
import Mathlib.Order.CompletePartialOrder
import Mathlib.Order.Interval.Set.Disjoint

/-!
# The planar picture

`Yvyu2Yuv420` stores through three pointers.  For even sizes they run over the three planes
of the output, each byte once.  For odd heights a chroma row more is stored than the plane
offsets and the allocation of `drawPreviewSurface` leave room for, unless the column an odd
width loses makes up for it.
-/

namespace UsbCamera

open CheckedInt CountedLoop StoreLog

/-! ## The indices the pointers go over -/

namespace Planar

/-- The indices stored through `Y`: every store through a pointer is where it stands and
advances it by one. -/
def throughY (planar : Planar) : Set Int :=
  Set.Ico 0 planar.Y

def throughU (planar : Planar) (size : Int) : Set Int :=
  Set.Ico size planar.U

def throughV (planar : Planar) (size : Int) : Set Int :=
  Set.Ico (size + size.tdiv 4) planar.V

end Planar

section Offsets

variable {yvyu : Frame} {width height : Nat}

theorem tdiv_size (width height : Nat) :
    ((width : Int) * height).tdiv 4 = ((width * height / 4 : Nat) : Int) := by
  rw [← Int.natCast_mul, show (4 : Int) = ((4 : Nat) : Int) from rfl, ← Int.ofNat_tdiv]

/-- Where the bytes of a macropixel are stored. -/
def storedOffsets (width height row column : Nat) : List Nat :=
  [2 * (width / 2 * row + column), 2 * (width / 2 * row + column) + 1] ++
    if row % 2 = 0 then
      [width * height + (width / 2 * (row / 2) + column),
        width * height + width * height / 4 + (width / 2 * (row / 2) + column)]
    else []

theorem map_offset_planarStores (row column : Nat) :
    (planarStores yvyu width (width * height) row column).map Store.offset =
      (storedOffsets width height row column).map Nat.cast := by
  by_cases even : row % 2 = 0
  · simp [planarStores, storedOffsets, macropixelIndex, tdiv_size, even]
  · simp [planarStores, storedOffsets, macropixelIndex, even]

theorem mem_offsets {row column : Nat} {offset : Int} :
    offset ∈ (planarStores yvyu width (width * height) row column).map Store.offset ↔
      (∃ sample < 2, offset = (2 * (width / 2 * row + column) + sample : Nat)) ∨
      (row % 2 = 0 ∧ ∃ plane < 2, offset =
        (width * height + plane * (width * height / 4) + (width / 2 * (row / 2) + column) :
          Nat)) := by
  simp only [map_offset_planarStores, storedOffsets, List.map_append, List.mem_append,
    Nat.exists_lt_succ_right, Nat.not_lt_zero]
  by_cases even : row % 2 = 0
  · simp [even]
  · simp [even]

/-- All luma bytes lie in the first plane. -/
theorem luma_below {row column sample : Nat} (inside : row < height)
    (inRow : column < width / 2) (two : sample < 2) :
    2 * (width / 2 * row + column) + sample < 2 * (width / 2 * height) := by
  have position := position_lt inRow inside
  omega

theorem luma_le_size (width height : Nat) : 2 * (width / 2 * height) ≤ width * height := by
  rw [← Nat.mul_assoc]
  exact Nat.mul_le_mul_right height (by omega)

/-- The chroma byte of an even row counted from the start of its plane. -/
theorem chroma_below {row column : Nat} (inside : row < height) (inRow : column < width / 2) :
    width / 2 * (row / 2) + column < width / 2 * ((height + 1) / 2) :=
  position_lt inRow (by omega)

theorem mem_throughY {offset : Int} :
    offset ∈ (planarAt yvyu width (width * height) height 0).throughY ↔
      0 ≤ offset ∧ offset < (2 * (width / 2 * height) : Nat) := by
  simp [Planar.throughY, planarAt, macropixelIndex]

theorem mem_throughU {offset : Int} :
    offset ∈ (planarAt yvyu width (width * height) height 0).throughU (width * height) ↔
      (width * height : Nat) ≤ offset ∧
        offset < (width * height + width / 2 * ((height + 1) / 2) : Nat) := by
  simp [Planar.throughU, planarAt, chromaCount]

theorem mem_throughV {offset : Int} :
    offset ∈ (planarAt yvyu width (width * height) height 0).throughV (width * height) ↔
      (width * height + width * height / 4 : Nat) ≤ offset ∧
        offset < (width * height + width * height / 4 + width / 2 * ((height + 1) / 2) :
          Nat) := by
  simp [Planar.throughV, planarAt, chromaCount, tdiv_size]

theorem mem_stored_iff {offset : Int} :
    offset ∈ (planarAt yvyu width (width * height) height 0).stores.map Store.offset ↔
      offset ∈ (planarAt yvyu width (width * height) height 0).throughY ∨
      offset ∈ (planarAt yvyu width (width * height) height 0).throughU (width * height) ∨
      offset ∈ (planarAt yvyu width (width * height) height 0).throughV (width * height) := by
  have stored : offset ∈ (planarAt yvyu width (width * height) height 0).stores.map Store.offset ↔
      ∃ row < height, ∃ column < width / 2,
        offset ∈ (planarStores yvyu width (width * height) row column).map Store.offset := by
    simp only [planarAt, appended_zero, List.append_nil, map_appended, mem_appended,
      columns_natCast]
  simp only [stored, mem_offsets, mem_throughY, mem_throughU, mem_throughV]
  constructor
  · rintro ⟨row, inside, column, inRow, ⟨sample, two, rfl⟩ | ⟨-, plane, two, rfl⟩⟩
    · have below := luma_below inside inRow two
      exact Or.inl ⟨by omega, by omega⟩
    · have below := chroma_below inside inRow
      have either : plane = 0 ∨ plane = 1 := by omega
      rcases either with rfl | rfl
      · exact Or.inr (Or.inl ⟨by omega, by omega⟩)
      · exact Or.inr (Or.inr ⟨by omega, by omega⟩)
  · have ofChroma : ∀ plane < 2, ∀ index < width / 2 * ((height + 1) / 2),
        offset = (width * height + plane * (width * height / 4) + index : Nat) →
        ∃ row < height, ∃ column < width / 2,
          row % 2 = 0 ∧ ∃ plane < 2, offset =
            (width * height + plane * (width * height / 4) + (width / 2 * (row / 2) + column) :
              Nat) := by
      intro plane two index below there
      obtain ⟨line, inside, column, inRow, rfl⟩ := exists_position below
      have half : 2 * line / 2 = line := by omega
      exact ⟨2 * line, by omega, column, inRow, by omega, plane, two, by rw [half]; exact there⟩
    rintro (⟨low, high⟩ | ⟨low, high⟩ | ⟨low, high⟩)
    · obtain ⟨index, rfl⟩ := Int.eq_ofNat_of_zero_le low
      obtain ⟨row, inside, column, inRow, position⟩ :
          ∃ row < height, ∃ column < width / 2, index / 2 = width / 2 * row + column :=
        exists_position (by omega)
      exact ⟨row, inside, column, inRow, Or.inl ⟨index % 2, by omega, by omega⟩⟩
    · obtain ⟨index, rfl⟩ := Int.le.dest low
      obtain ⟨row, inside, column, inRow, stored⟩ :=
        ofChroma 0 (by omega) index (by omega) (by omega)
      exact ⟨row, inside, column, inRow, Or.inr stored⟩
    · obtain ⟨index, rfl⟩ := Int.le.dest low
      obtain ⟨row, inside, column, inRow, stored⟩ :=
        ofChroma 1 (by omega) index (by omega) (by omega)
      exact ⟨row, inside, column, inRow, Or.inr stored⟩

/-- When a plane has room for its chroma bytes, an offset tells the macropixel it was stored
for. -/
theorem macropixel_of_offset (room : width / 2 * ((height + 1) / 2) ≤ width * height / 4)
    {row row' column column' : Nat} {offset : Int} (inside : row < height)
    (inRow : column < width / 2) (inside' : row' < height) (inRow' : column' < width / 2)
    (here : offset ∈ (planarStores yvyu width (width * height) row column).map Store.offset)
    (there : offset ∈ (planarStores yvyu width (width * height) row' column').map Store.offset) :
    row = row' ∧ column = column' := by
  have luma := luma_le_size width height
  have chroma := chroma_below inside inRow
  have chroma' := chroma_below inside' inRow'
  rcases mem_offsets.mp here with ⟨sample, two, first⟩ | ⟨even, plane, two, first⟩
  · have below := luma_below inside inRow two
    rcases mem_offsets.mp there with ⟨sample', two', second⟩ | ⟨even', plane', two', second⟩
    · exact position_injective inRow inRow' (by omega)
    · omega
  · rcases mem_offsets.mp there with ⟨sample', two', second⟩ | ⟨even', plane', two', second⟩
    · have below := luma_below inside' inRow' two'
      omega
    · have same : width / 2 * (row / 2) + column = width / 2 * (row' / 2) + column' := by
        have either : plane = 0 ∨ plane = 1 := by omega
        have either' : plane' = 0 ∨ plane' = 1 := by omega
        rcases either with rfl | rfl <;> rcases either' with rfl | rfl <;> omega
      obtain ⟨line, columns⟩ := position_injective inRow inRow' same
      exact ⟨by omega, columns⟩

theorem nodup_offsets (room : width / 2 * ((height + 1) / 2) ≤ width * height / 4) :
    ((planarAt yvyu width (width * height) height 0).stores.map Store.offset).Nodup := by
  simp only [planarAt, appended_zero, List.append_nil, map_appended, columns_natCast]
  refine nodup_appended (fun row inside => nodup_appended ?_ ?_) ?_
  · intro column inRow
    have below := luma_below inside inRow (show 1 < 2 by omega)
    have luma := luma_le_size width height
    have chroma := chroma_below inside inRow
    rw [map_offset_planarStores]
    refine List.Nodup.map Nat.cast_injective ?_
    by_cases even : row % 2 = 0
    · simp only [storedOffsets, even, if_true, List.cons_append, List.nil_append,
        List.nodup_cons, List.mem_cons, List.not_mem_nil, or_false, not_false_eq_true,
        List.nodup_nil, and_true]
      omega
    · simp [storedOffsets, even]
  · intro column inRow column' inRow' offset here there
    exact (macropixel_of_offset room inside inRow inside inRow' here there).2
  · intro row inside row' inside' offset here there
    obtain ⟨column, inRow, member⟩ := mem_appended.mp here
    obtain ⟨column', inRow', member'⟩ := mem_appended.mp there
    exact (macropixel_of_offset room inside inRow inside' inRow' member member').1

end Offsets

/-! ## The planes of an even picture -/

/-- The output is the planar picture of the frame: all of its bytes and no others are
written, each once, and they hold the luma of the pixels and the last and the second byte of
the macropixels of even rows. -/
structure PlanarPicture (yvyu : Frame) (width height : Nat) (planar : Planar) : Prop where
  once : ∀ offset : Int, (planar.stores.map Store.offset).count offset =
    if 0 ≤ offset ∧ offset < (width * height * 3 / 2 : Nat) then 1 else 0
  luma : ∀ heap, ∀ y < height, ∀ x < width,
    writeAll planar.stores heap (y * width + x : Nat) =
      macropixelByte yvyu width y (x / 2) (2 * (x % 2))
  cr : ∀ heap, ∀ r < height / 2, ∀ k < width / 2,
    writeAll planar.stores heap (width * height + r * (width / 2) + k : Nat) =
      macropixelByte yvyu width (2 * r) k 3
  cb : ∀ heap, ∀ r < height / 2, ∀ k < width / 2,
    writeAll planar.stores heap
        (width * height + width * height / 4 + r * (width / 2) + k : Nat) =
      macropixelByte yvyu width (2 * r) k 1

theorem stores_even (yvyu : Frame) (half lines : Nat) :
    (planarAt yvyu (2 * half : Nat) ((2 * half : Nat) * (2 * lines : Nat)) (2 * lines) 0).stores =
      planes yvyu half lines := by
  rw [planes, size_even]

theorem count_even (yvyu : Frame) (half lines : Nat) (offset : Int) :
    ((planes yvyu half lines).map Store.offset).count offset =
      if 0 ≤ offset ∧ offset < (6 * (half * lines) : Nat) then 1 else 0 := by
  have size : 2 * half * (2 * lines) = 4 * (half * lines) := by ring
  have halves : 2 * half / 2 = half := by omega
  have rows : (2 * lines + 1) / 2 = lines := by omega
  have luma : half * (2 * lines) = 2 * (half * lines) := Nat.mul_left_comm ..
  have room : 2 * half / 2 * ((2 * lines + 1) / 2) ≤ 2 * half * (2 * lines) / 4 := by
    rw [halves, rows, size]
    omega
  have nodup := @nodup_offsets yvyu _ _ room
  have mem : offset ∈ (planes yvyu half lines).map Store.offset ↔
      0 ≤ offset ∧ offset < (6 * (half * lines) : Nat) := by
    rw [← stores_even, mem_stored_iff, mem_throughY, mem_throughU, mem_throughV, size, halves,
      rows, luma]
    omega
  rw [stores_even] at nodup
  by_cases inside : 0 ≤ offset ∧ offset < (6 * (half * lines) : Nat)
  · rw [if_pos inside]
    exact List.count_eq_one_of_mem nodup (mem.mpr inside)
  · rw [if_neg inside]
    exact List.count_eq_zero.mpr fun member => inside (mem.mp member)

theorem planarPicture_even (yvyu : Frame) (half lines : Nat) :
    PlanarPicture yvyu (2 * half) (2 * lines)
      (planarAt yvyu (2 * half : Nat) ((2 * half : Nat) * (2 * lines : Nat)) (2 * lines) 0) where
  once offset := by
    have bytes : 2 * half * (2 * lines) * 3 / 2 = 6 * (half * lines) := by
      have product : 2 * half * (2 * lines) * 3 = 12 * (half * lines) := by ring
      omega
    rw [stores_even, count_even, bytes]
  luma heap y inside x inRow := by
    rw [stores_even, planes_luma inside inRow]
  cr heap r inside k inRow := by
    have halves : 2 * half / 2 = half := by omega
    have size : 2 * half * (2 * lines) = 4 * (half * lines) := by ring
    rw [stores_even, halves, size, planes_cr (by omega) (by omega)]
  cb heap r inside k inRow := by
    have halves : 2 * half / 2 = half := by omega
    have size : 2 * half * (2 * lines) = 4 * (half * lines) := by ring
    have quarter : 4 * (half * lines) / 4 = half * lines := by omega
    rw [stores_even, halves, size, quarter, planes_cb (by omega) (by omega)]

/-- An even picture is converted without overflow exactly when its frame has at most `2 ^ 31`
bytes. -/
theorem yvyu2Yuv420_even_isSome_iff (yvyu : Frame) (half lines : Nat) :
    (yvyu2Yuv420 yvyu (2 * half : Nat) (2 * lines : Nat)).isSome ↔
      2 * (2 * half * (2 * lines)) ≤ 2 ^ 31 := by
  have size : 2 * half * (2 * lines) = 4 * (half * lines) := by ring
  constructor
  · intro evaluates
    rw [yvyu2Yuv420_eq, Option.isSome_ite, Int.toNat_natCast, columns_even] at evaluates
    obtain ⟨fits, sources⟩ := evaluates
    rcases Nat.eq_zero_or_pos (half * lines) with empty | positive
    · omega
    · have wide : 0 < half := Nat.pos_of_mul_pos_right positive
      have tall : 0 < lines := Nat.pos_of_mul_pos_left positive
      have last := (sourceFits_natCast_iff fits (show 2 * lines - 1 < 2 * lines by omega)).mp
        (sources (2 * lines - 1) (by omega) (half - 1) (by omega))
      rw [rowStart_even, Nat.mul_sub_one, Nat.mul_left_comm] at last
      have bound : half ≤ half * lines := Nat.le_mul_of_pos_right _ tall
      omega
  · intro small
    rw [yvyu2Yuv420_natCast yvyu small]
    rfl

/-- For even sizes every call whose indices fit in an `int`, that is, every call with a frame
of at most `2 ^ 31` bytes, produces the planar picture. -/
theorem yvyu2Yuv420_picture (yvyu : Frame) {width height : Nat} (evenWidth : width % 2 = 0)
    (evenHeight : height % 2 = 0) :
    ((yvyu2Yuv420 yvyu width height).isSome ↔ 2 * (width * height) ≤ 2 ^ 31) ∧
      ∀ planar, yvyu2Yuv420 yvyu width height = some planar →
        PlanarPicture yvyu width height planar := by
  obtain ⟨half, rfl⟩ : ∃ half, width = 2 * half := ⟨width / 2, by omega⟩
  obtain ⟨lines, rfl⟩ : ∃ lines, height = 2 * lines := ⟨height / 2, by omega⟩
  have defined := yvyu2Yuv420_even_isSome_iff yvyu half lines
  refine ⟨defined, fun planar converted => ?_⟩
  have small := defined.mp (by rw [converted]; rfl)
  rw [yvyu2Yuv420_natCast yvyu small] at converted
  rw [← Option.some.inj converted]
  exact planarPicture_even yvyu half lines

theorem yvyu2Yuv420_picture_vga :
    ∃ planar, yvyu2Yuv420 (fun offset => UInt8.ofNat offset.toNat) 640 480 = some planar ∧
      PlanarPicture (fun offset => UInt8.ofNat offset.toNat) 640 480 planar := by
  obtain ⟨defined, picture⟩ :=
    @yvyu2Yuv420_picture (fun offset => UInt8.ofNat offset.toNat) 640 480 (by decide) (by decide)
  obtain ⟨planar, converted⟩ := Option.isSome_iff_exists.mp (defined.mpr (by decide))
  exact ⟨planar, converted, picture planar converted⟩

/-! ## Pictures of any size -/

/-- Every store lies in the buffer `drawPreviewSurface` has allocated, no byte is stored
twice, and the three pointers go over different bytes. -/
structure WritesApart (width height : Nat) (planar : Planar) : Prop where
  inside : ∀ store ∈ planar.stores,
    0 ≤ store.offset ∧ store.offset < (width * height * 3 / 2 : Nat)
  once : (planar.stores.map Store.offset).Nodup
  lumaU : Disjoint planar.throughY (planar.throughU (width * height))
  lumaV : Disjoint planar.throughY (planar.throughV (width * height))
  chroma : Disjoint (planar.throughU (width * height)) (planar.throughV (width * height))

/-- Every frame of the size is converted, with all stores apart and inside. -/
def ConvertsApart (width height : Nat) : Prop :=
  ∀ yvyu, ∃ planar, yvyu2Yuv420 yvyu width height = some planar ∧ WritesApart width height planar

/-- A plane has room for its chroma bytes when no row is stored for a missing line, or when
the lost columns make up for it. -/
theorem chroma_room_iff {width height : Nat} (wide : 0 < width) (tall : 0 < height) :
    width / 2 * ((height + 1) / 2) ≤ width * height / 4 ↔
      height % 2 = 0 ∨ (width % 2 = 1 ∧ width ≤ height) := by
  rw [Nat.le_div_iff_mul_le (by omega)]
  obtain ⟨half, rfl | rfl⟩ := Nat.even_or_odd' width
  · have halves : 2 * half / 2 = half := by omega
    obtain ⟨lines, rfl | rfl⟩ := Nat.even_or_odd' height
    · have rows : (2 * lines + 1) / 2 = lines := by omega
      have size : 2 * half * (2 * lines) = half * lines * 4 := by ring
      rw [halves, rows, size]
      omega
    · have rows : (2 * lines + 1 + 1) / 2 = lines + 1 := by omega
      have size : 2 * half * (2 * lines + 1) = half * (lines + 1) * 4 - 2 * half := by
        have product : half * (lines + 1) * 4 = 2 * half * (2 * lines + 1) + 2 * half := by ring
        omega
      have bound : half ≤ half * (lines + 1) := Nat.le_mul_of_pos_right _ (by omega)
      rw [halves, rows, size]
      omega
  · have halves : (2 * half + 1) / 2 = half := by omega
    obtain ⟨lines, rfl | rfl⟩ := Nat.even_or_odd' height
    · have rows : (2 * lines + 1) / 2 = lines := by omega
      have size : (2 * half + 1) * (2 * lines) = half * lines * 4 + 2 * lines := by ring
      rw [halves, rows, size]
      omega
    · have rows : (2 * lines + 1 + 1) / 2 = lines + 1 := by omega
      have size :
          (2 * half + 1) * (2 * lines + 1) = half * lines * 4 + 2 * half + 2 * lines + 1 := by
        ring
      have chroma : half * (lines + 1) * 4 = half * lines * 4 + 4 * half := by ring
      rw [halves, rows, size, chroma]
      omega

section Apart

variable {yvyu : Frame} {width height : Nat}

theorem writesApart_of_room (room : width / 2 * ((height + 1) / 2) ≤ width * height / 4) :
    WritesApart width height (planarAt yvyu width (width * height) height 0) where
  inside store member := by
    have luma := luma_le_size width height
    rcases mem_stored_iff.mp (List.mem_map_of_mem member) with through | through | through
    · obtain ⟨low, high⟩ := mem_throughY.mp through
      exact ⟨by omega, by omega⟩
    · obtain ⟨low, high⟩ := mem_throughU.mp through
      exact ⟨by omega, by omega⟩
    · obtain ⟨low, high⟩ := mem_throughV.mp through
      exact ⟨by omega, by omega⟩
  once := nodup_offsets room
  lumaU := by
    have luma := luma_le_size width height
    refine Set.disjoint_left.mpr fun offset through throughU => ?_
    have high := (mem_throughY.mp through).2
    have low := (mem_throughU.mp throughU).1
    omega
  lumaV := by
    have luma := luma_le_size width height
    refine Set.disjoint_left.mpr fun offset through throughV => ?_
    have high := (mem_throughY.mp through).2
    have low := (mem_throughV.mp throughV).1
    omega
  chroma := by
    refine Set.disjoint_left.mpr fun offset throughU throughV => ?_
    have high := (mem_throughU.mp throughU).2
    have low := (mem_throughV.mp throughV).1
    omega

/-- Without that room the second chroma plane begins among the bytes of the first. -/
theorem room_of_writesApart
    (apart : WritesApart width height (planarAt yvyu width (width * height) height 0)) :
    width / 2 * ((height + 1) / 2) ≤ width * height / 4 := by
  by_contra full
  refine Set.disjoint_left.mp apart.chroma
    (mem_throughU.mpr (?_ : _ ∧ ((width * height + width * height / 4 : Nat) : Int) < _))
    (mem_throughV.mpr ?_)
  · exact ⟨by omega, by omega⟩
  · exact ⟨by omega, by omega⟩

/-- Without overflow, the converter stays inside the buffer of `drawPreviewSurface` and
writes no byte twice exactly for even heights, and for odd widths up to the height. -/
theorem convertsApart_iff (wide : 0 < width) (tall : 0 < height)
    (small : 3 * (width * height) < 2 ^ 31) :
    ConvertsApart width height ↔ height % 2 = 0 ∨ (width % 2 = 1 ∧ width ≤ height) := by
  rw [← chroma_room_iff wide tall]
  constructor
  · intro converts
    obtain ⟨planar, converted, apart⟩ := converts fun _ => 0
    rw [yvyu2Yuv420_natCast _ (by omega)] at converted
    rw [← Option.some.inj converted] at apart
    exact room_of_writesApart apart
  · intro room yvyu
    exact ⟨_, yvyu2Yuv420_natCast yvyu (by omega), writesApart_of_room room⟩

end Apart

theorem convertsApart_odd : ConvertsApart 319 481 :=
  (convertsApart_iff (by decide) (by decide) (by decide)).mpr (by decide)

/-- At 4 × 3 each chroma plane gets four bytes and has room for three: the planes overlap,
and the last byte is stored behind the allocated 18. -/
theorem not_convertsApart :
    ¬ ∀ width height : Nat, 0 < width → 0 < height → 3 * (width * height) < 2 ^ 31 →
      ConvertsApart width height := by
  intro always
  have room : 4 / 2 * ((3 + 1) / 2) ≤ 4 * 3 / 4 := by
    obtain ⟨planar, converted, apart⟩ :=
      always 4 3 (by decide) (by decide) (by decide) fun _ => 0
    rw [yvyu2Yuv420_natCast _ (by decide)] at converted
    rw [← Option.some.inj converted] at apart
    exact room_of_writesApart apart
  exact absurd room (by decide)

end UsbCamera
