import UsbCamera.PlanarPicture

/-!
# Two converters for one frame

The preview and the encoders convert the same frame, one by an index computed anew for every
macropixel, the other with a running pointer.  `i * width / 2` counts half a macropixel more
for every second row of an odd width, which the pointer never sees.
-/

namespace UsbCamera

open CheckedInt CountedLoop

/-- Both converters take every macropixel from the same bytes of the frame, and the samples
the preview stores are those the encoders' pixels are made of. -/
structure SamePicture (yvyu : Frame) (width height : Nat) (planar : Planar) (packed : Packed) :
    Prop where
  index : ∀ row < height, ∀ column < width / 2,
    sourceIndex width row column = runningIndex width row column
  reads : ∀ read, read ∈ planar.reads ↔ read ∈ packed.reads
  luma : ∀ row < height, ∀ column < width / 2, ∀ sample < 2, ∃ source : Int,
    (⟨row, column, 2 * sample, source⟩ : Read) ∈ packed.reads ∧
      (⟨(2 * (width / 2 * row + column) + sample : Nat), yvyu source⟩ : Store UInt8) ∈
        planar.stores
  chroma : ∀ row < height, row % 2 = 0 → ∀ column < width / 2, ∃ cb cr : Int,
    (⟨row, column, 1, cb⟩ : Read) ∈ packed.reads ∧ (⟨row, column, 3, cr⟩ : Read) ∈ packed.reads ∧
      (⟨(width * height + (width / 2 * (row / 2) + column) : Nat), yvyu cr⟩ : Store UInt8) ∈
        planar.stores ∧
      (⟨(width * height + width * height / 4 + (width / 2 * (row / 2) + column) : Nat),
        yvyu cb⟩ : Store UInt8) ∈ planar.stores

section Sizes

variable {yvyu : Frame} {width height : Nat} {signedChar : Bool}

/-- The rows begin at the same bytes in both converters. -/
theorem index_eq_iff {row column : Nat} :
    sourceIndex width row column = runningIndex width row column ↔
      row * width / 2 = width / 2 * row := by
  rw [sourceIndex_natCast, runningIndex_natCast]
  omega

/-- Only an odd width sets rows apart, and only from the third on. -/
theorem index_eq_of_aligned (aligned : width % 2 = 0 ∨ width = 1 ∨ height ≤ 2) {row column : Nat}
    (inside : row < height) (inRow : column < width / 2) :
    sourceIndex width row column = runningIndex width row column := by
  rw [index_eq_iff]
  rcases aligned with even | narrow | short
  · obtain ⟨half, rfl⟩ : ∃ half, width = 2 * half := ⟨width / 2, by omega⟩
    have halves : 2 * half / 2 = half := by omega
    rw [rowStart_even, halves]
  · omega
  · have either : row = 0 ∨ row = 1 := by omega
    rcases either with rfl | rfl <;> omega

/-- What the preview stores for a macropixel, with its bytes numbered from the index. -/
theorem mem_stores_of_index {row column : Nat} (inside : row < height)
    (inRow : column < width / 2) {store : Store UInt8}
    (member : store ∈ planarStores yvyu width (width * height) row column) :
    store ∈ (planarAt yvyu width (width * height) height 0).stores :=
  mem_planar_stores.mpr ⟨row, inside, column, by rwa [columns_natCast], member⟩

theorem samePicture_of_aligned (aligned : width % 2 = 0 ∨ width = 1 ∨ height ≤ 2) :
    SamePicture yvyu width height (planarAt yvyu width (width * height) height 0)
      (packedAt signedChar yvyu width height 0) where
  index row inside column inRow := index_eq_of_aligned aligned inside inRow
  reads read := by
    rw [mem_planar_reads, mem_packed_reads, columns_natCast]
    refine exists_congr fun row => and_congr_right fun inside => exists_congr fun column =>
      and_congr_right fun inRow => ?_
    rw [index_eq_of_aligned aligned inside inRow]
  luma row inside column inRow sample two := by
    have same := index_eq_of_aligned aligned inside inRow
    refine ⟨runningIndex width row column + (2 * sample : Nat), ?_, ?_⟩
    · exact mem_packed_reads.mpr
        ⟨row, inside, column, by rwa [columns_natCast], 2 * sample, by omega, rfl⟩
    · refine mem_stores_of_index inside inRow (List.mem_append_left _ ?_)
      have either : sample = 0 ∨ sample = 1 := by omega
      rcases either with rfl | rfl
      · simp [macropixelIndex, same]
      · simp [macropixelIndex, same]
  chroma row inside even column inRow := by
    have same := index_eq_of_aligned aligned inside inRow
    refine ⟨runningIndex width row column + (1 : Nat), runningIndex width row column + (3 : Nat),
      ?_, ?_, ?_, ?_⟩
    · exact mem_packed_reads.mpr ⟨row, inside, column, by rwa [columns_natCast], 1, by omega, rfl⟩
    · exact mem_packed_reads.mpr ⟨row, inside, column, by rwa [columns_natCast], 3, by omega, rfl⟩
    · refine mem_stores_of_index inside inRow (List.mem_append_right _ ?_)
      simp [macropixelIndex, even, same]
    · refine mem_stores_of_index inside inRow (List.mem_append_right _ ?_)
      simp [macropixelIndex, even, same, tdiv_size]

/-- Without overflow both converters show the same picture exactly for even widths, for
pictures without a macropixel, and for at most two rows. -/
theorem samePicture_iff {planar : Planar} {packed : Packed}
    (preview : yvyu2Yuv420 yvyu width height = some planar)
    (encoder : yvyu2RGBA signedChar yvyu width height = some packed) :
    SamePicture yvyu width height planar packed ↔
      width % 2 = 0 ∨ width = 1 ∨ height ≤ 2 := by
  rw [yvyu2Yuv420_eq, Option.ite_none_right_eq_some, Int.toNat_natCast] at preview
  rw [yvyu2RGBA_eq, Int.toNat_natCast] at encoder
  obtain ⟨-, rfl⟩ := preview.imp_right Option.some.inj
  obtain rfl := Option.some.inj encoder
  constructor
  · intro same
    by_contra apart
    have third := index_eq_iff.mp (same.index 2 (by omega) 0 (by omega))
    omega
  · exact samePicture_of_aligned

end Sizes

theorem samePicture_vga :
    ∃ planar packed, yvyu2Yuv420 (fun _ => 0) (640 : Nat) (480 : Nat) = some planar ∧
      yvyu2RGBA false (fun _ => 0) (640 : Nat) (480 : Nat) = some packed ∧
      SamePicture (fun _ => 0) 640 480 planar packed := by
  have preview := @yvyu2Yuv420_natCast (fun _ => 0) 640 480 (by decide)
  have encoder := yvyu2RGBA_eq false (fun _ => 0) (640 : Nat) (480 : Nat)
  exact ⟨_, _, preview, encoder,
    (samePicture_iff preview encoder).mpr (Or.inl (by decide))⟩

/-- At 3 × 3 the third row of the preview begins at byte 12 and that of the encoders at
byte 8. -/
theorem not_samePicture :
    ¬ ∀ (yvyu : Frame) (signedChar : Bool) (width height : Nat) (planar : Planar)
      (packed : Packed), 0 < width → 0 < height →
      yvyu2Yuv420 yvyu width height = some planar →
      yvyu2RGBA signedChar yvyu width height = some packed →
      SamePicture yvyu width height planar packed := by
  intro always
  have preview := @yvyu2Yuv420_natCast (fun _ => 0) 3 3 (by decide)
  have encoder := yvyu2RGBA_eq false (fun _ => 0) (3 : Nat) (3 : Nat)
  have same := always (fun _ => 0) false 3 3 _ _ (by decide) (by decide) preview encoder
  exact absurd (same.index 2 (by decide) 0 (by decide)) (by decide)

end UsbCamera
