import UsbCamera.FrameConversion
import UsbCamera.UserThread

/-!
# Decoding what the driver negotiated

`openCamera` asks for a picture size, and the driver may answer with another one and
with a row pitch of its own.  The answer is not kept: the converters go on with the
requested size, assume rows of `width / 2` macropixels without padding, and never look
at the length of the buffer.  This file says exactly for which answers that is right.
-/

namespace UsbCamera

open CheckedInt CountedLoop

/-! ## Reads of a picture -/

/-- The read lies inside the buffer, at the place the row pitch gives it. -/
def Read.InPlace (length bytesperline : Nat) (read : Read) : Prop :=
  0 ≤ read.offset ∧ read.offset < length ∧
    read.offset = read.row * bytesperline + 4 * read.column + read.byte

/-- Both converters evaluate, and all their reads are in place. -/
def Decodes (width height : Int) (length bytesperline : Nat) : Prop :=
  (∀ yvyu, ∃ planar, yvyu2Yuv420 yvyu width height = some planar ∧
    ∀ read ∈ planar.reads, read.InPlace length bytesperline) ∧
  ∀ signedChar yvyu, ∃ packed, yvyu2RGBA signedChar yvyu width height = some packed ∧
    ∀ read ∈ packed.reads, read.InPlace length bytesperline

/-- The buffer holds the requested picture, its indices fit in an `int`, and its rows
lie where the converters look for them. -/
def DecodesWhen (width height : Int) (length bytesperline : Nat) : Prop :=
  Fits (width * height) ∧
    (height ≤ 0 ∨ width ≤ 1 ∨
      4 * ((height - 1) * width / 2 + width / 2) ≤ length ∧
      4 * ((height - 1) * width / 2 + width / 2) ≤ 2 ^ 31 ∧
      (2 ≤ height → (bytesperline : Int) = 4 * (width / 2)) ∧
      (3 ≤ height → width % 2 = 0))

instance (width height : Int) (length bytesperline : Nat) :
    Decidable (DecodesWhen width height length bytesperline) :=
  inferInstanceAs (Decidable (_ ∧ _))

/-- Both converters look for every row where its pitch puts it exactly when the pitch is
that of unpadded macropixels and, from the third row on, no row ends in half of one. -/
theorem rows_in_place_iff (width height bytesperline : Nat) :
    (∀ row < height, 4 * (row * width / 2) = row * bytesperline ∧
        4 * (width / 2 * row) = row * bytesperline) ↔
      (2 ≤ height → bytesperline = 4 * (width / 2)) ∧ (3 ≤ height → width % 2 = 0) := by
  constructor
  · intro rows
    have pitch : 2 ≤ height → bytesperline = 4 * (width / 2) := by
      intro tall
      have second := (rows 1 (by omega)).2
      omega
    refine ⟨pitch, ?_⟩
    intro tall
    have third := (rows 2 (by omega)).1
    have pitch := pitch (by omega)
    omega
  · rintro ⟨pitch, even⟩ row inside
    rcases Nat.lt_or_ge row 2 with low | high
    · rcases Nat.lt_or_ge row 1 with first | second
      · have zero : row = 0 := by omega
        simp [zero]
      · have one : row = 1 := by omega
        have pitch := pitch (by omega)
        rw [one]
        omega
    · have pitch := pitch (by omega)
      obtain ⟨half, rfl⟩ : ∃ half, width = 2 * half :=
        ⟨width / 2, by have even := even (by omega); omega⟩
      rw [rowStart_even, pitch, Nat.mul_div_cancel_left _ (by omega)]
      constructor <;> ring

section Positive

variable {width height length bytesperline : Nat}

theorem inPlace_natCast_iff {row column byte index : Nat} :
    Read.InPlace length bytesperline ⟨row, column, byte, (index : Int) + byte⟩ ↔
      index + byte < length ∧ index + byte = row * bytesperline + 4 * column + byte := by
  simp only [Read.InPlace]
  constructor
  · rintro ⟨-, inside, place⟩
    exact ⟨by exact_mod_cast inside, by exact_mod_cast place⟩
  · rintro ⟨inside, place⟩
    exact ⟨by positivity, by exact_mod_cast inside, by exact_mod_cast place⟩

/-- The reads of the planar converter, which computes its indices in an `int`. -/
theorem planar_inPlace_iff :
    (∀ yvyu, ∃ planar, yvyu2Yuv420 yvyu width height = some planar ∧
        ∀ read ∈ planar.reads, read.InPlace length bytesperline) ↔
      Fits ((width : Int) * height) ∧
        ∀ row < height, ∀ column < width / 2,
          4 * (row * width / 2 + column) < 2 ^ 31 ∧
          ∀ byte < 4,
            4 * (row * width / 2 + column) + byte < length ∧
              4 * (row * width / 2 + column) + byte =
                row * bytesperline + 4 * column + byte := by
  constructor
  · intro planar
    obtain ⟨state, converted, inPlace⟩ := planar fun _ => 0
    rw [yvyu2Yuv420_eq] at converted
    split at converted
    · rename_i fits
      cases Option.some.inj converted
      refine ⟨fits.1, ?_⟩
      intro row inside column inRow
      have inColumns : column < columns width := by simpa using inRow
      refine ⟨(sourceFits_natCast_iff fits.1 inside).mp (fits.2 row (by simpa) column inColumns),
        ?_⟩
      intro byte bound
      have read := inPlace _ (mem_planar_reads.mpr
        ⟨row, by simpa, column, inColumns, byte, bound, rfl⟩)
      rwa [sourceIndex_natCast, inPlace_natCast_iff] at read
    · cases converted
  · rintro ⟨fits, reads⟩ yvyu
    rw [yvyu2Yuv420_eq, if_pos]
    · refine ⟨_, rfl, ?_⟩
      intro read member
      obtain ⟨row, inside, column, inColumns, byte, bound, rfl⟩ := mem_planar_reads.mp member
      rw [sourceIndex_natCast, inPlace_natCast_iff]
      exact (reads row (by simpa using inside) column (by simpa using inColumns)).2 byte bound
    · refine ⟨fits, ?_⟩
      intro row inside column inColumns
      have inside : row < height := by simpa using inside
      rw [sourceFits_natCast_iff fits inside]
      exact (reads row inside column (by simpa using inColumns)).1

theorem packed_inPlace_iff :
    (∀ signedChar yvyu, ∃ packed, yvyu2RGBA signedChar yvyu width height = some packed ∧
        ∀ read ∈ packed.reads, read.InPlace length bytesperline) ↔
      ∀ row < height, ∀ column < width / 2, ∀ byte < 4,
        4 * (width / 2 * row + column) + byte < length ∧
          4 * (width / 2 * row + column) + byte = row * bytesperline + 4 * column + byte := by
  constructor
  · intro packed row inside column inRow byte bound
    obtain ⟨state, converted, inPlace⟩ := packed false fun _ => 0
    rw [yvyu2RGBA_eq] at converted
    cases Option.some.inj converted
    have read := inPlace _ (mem_packed_reads.mpr
      ⟨row, by simpa, column, by simpa using inRow, byte, bound, rfl⟩)
    rwa [runningIndex_natCast, inPlace_natCast_iff] at read
  · intro reads signedChar yvyu
    rw [yvyu2RGBA_eq]
    refine ⟨_, rfl, ?_⟩
    intro read member
    obtain ⟨row, inside, column, inColumns, byte, bound, rfl⟩ := mem_packed_reads.mp member
    rw [runningIndex_natCast, inPlace_natCast_iff]
    exact reads row (by simpa using inside) column (by simpa using inColumns) byte bound

theorem decodes_natCast_iff :
    Decodes width height length bytesperline ↔
      Fits ((width : Int) * height) ∧
        ∀ row < height, ∀ column < width / 2,
          4 * (row * width / 2 + column) < 2 ^ 31 ∧
          ∀ byte < 4,
            (4 * (row * width / 2 + column) + byte < length ∧
              4 * (row * width / 2 + column) + byte =
                row * bytesperline + 4 * column + byte) ∧
            4 * (width / 2 * row + column) + byte < length ∧
              4 * (width / 2 * row + column) + byte =
                row * bytesperline + 4 * column + byte := by
  rw [Decodes, planar_inPlace_iff, packed_inPlace_iff]
  constructor
  · rintro ⟨⟨fits, planar⟩, packed⟩
    refine ⟨fits, fun row inside column inRow => ?_⟩
    obtain ⟨small, reads⟩ := planar row inside column inRow
    exact ⟨small, fun byte bound => ⟨reads byte bound, packed row inside column inRow byte bound⟩⟩
  · rintro ⟨fits, reads⟩
    refine ⟨⟨fits, fun row inside column inRow => ?_⟩, fun row inside column inRow byte bound => ?_⟩
    · obtain ⟨small, both⟩ := reads row inside column inRow
      exact ⟨small, fun byte bound => (both byte bound).1⟩
    · exact ((reads row inside column inRow).2 byte bound).2

/-- The last macropixel of the last row decides about the bounds, the first of each row
about the places. -/
theorem reads_in_place_iff (wide : 2 ≤ width) (tall : 1 ≤ height) :
    (∀ row < height, ∀ column < width / 2,
        4 * (row * width / 2 + column) < 2 ^ 31 ∧
        ∀ byte < 4,
          (4 * (row * width / 2 + column) + byte < length ∧
            4 * (row * width / 2 + column) + byte =
              row * bytesperline + 4 * column + byte) ∧
          4 * (width / 2 * row + column) + byte < length ∧
            4 * (width / 2 * row + column) + byte =
              row * bytesperline + 4 * column + byte) ↔
      4 * ((height - 1) * width / 2 + width / 2) ≤ length ∧
        4 * ((height - 1) * width / 2 + width / 2) ≤ 2 ^ 31 ∧
        ((2 ≤ height → bytesperline = 4 * (width / 2)) ∧ (3 ≤ height → width % 2 = 0)) := by
  rw [← rows_in_place_iff]
  constructor
  · intro reads
    obtain ⟨lastFits, last⟩ := reads (height - 1) (by omega) (width / 2 - 1) (by omega)
    have lastByte := (last 3 (by omega)).1.1
    refine ⟨by omega, by omega, ?_⟩
    intro row inside
    have first := (reads row inside 0 (by omega)).2 0 (by omega)
    omega
  · rintro ⟨bound, fits, rows⟩ row inside column inRow
    have before : row * width / 2 ≤ (height - 1) * width / 2 :=
      Nat.div_le_div_right (Nat.mul_le_mul_right width (by omega))
    have places := rows row inside
    refine ⟨by omega, ?_⟩
    intro byte small
    omega

end Positive

/-- Both converters read in place exactly under the condition. -/
theorem decodes_iff (width height : Int) (length bytesperline : Nat) :
    Decodes width height length bytesperline ↔
      DecodesWhen width height length bytesperline := by
  by_cases small : height ≤ 0 ∨ width ≤ 1
  · have noReads : ∀ row < height.toNat, ∀ column < columns width, False := by
      intro row inside column inColumns
      rcases small with flat | narrow
      · omega
      · rw [columns_of_le_one narrow] at inColumns
        omega
    have condition : DecodesWhen width height length bytesperline ↔ Fits (width * height) := by
      unfold DecodesWhen
      tauto
    rw [condition]
    constructor
    · rintro ⟨planar, -⟩
      obtain ⟨_, converted, -⟩ := planar fun _ => 0
      rw [yvyu2Yuv420_eq] at converted
      split at converted
      · rename_i fits
        exact fits.1
      · cases converted
    · intro fits
      constructor
      · intro yvyu
        rw [yvyu2Yuv420_eq, if_pos ⟨fits, fun row inside column inColumns =>
          (noReads row inside column inColumns).elim⟩]
        refine ⟨_, rfl, ?_⟩
        intro read member
        obtain ⟨row, inside, column, inColumns, -⟩ := mem_planar_reads.mp member
        exact (noReads row inside column inColumns).elim
      · intro signedChar yvyu
        rw [yvyu2RGBA_eq]
        refine ⟨_, rfl, ?_⟩
        intro read member
        obtain ⟨row, inside, column, inColumns, -⟩ := mem_packed_reads.mp member
        exact (noReads row inside column inColumns).elim
  · obtain ⟨width, rfl⟩ := Int.eq_ofNat_of_zero_le (show 0 ≤ width by omega)
    obtain ⟨height, rfl⟩ := Int.eq_ofNat_of_zero_le (show 0 ≤ height by omega)
    have wide : 2 ≤ width := by omega
    have tall : 1 ≤ height := by omega
    have last : ((height : Int) - 1) * width / 2 + width / 2 =
        (((height - 1) * width / 2 + width / 2 : Nat) : Int) := by
      push_cast [Nat.cast_sub tall]
      rfl
    rw [decodes_natCast_iff, reads_in_place_iff wide tall, DecodesWhen, last]
    refine and_congr_right fun _ => ?_
    generalize (height - 1) * width / 2 + width / 2 = macropixels
    omega

/-! ## The driver's side of `openCamera` -/

/-- What a driver answers: the format it leaves in the request, the number of buffers it
grants and their lengths, each at least the negotiated `sizeimage`. -/
structure Driver where
  format : PixFormat
  count : Nat
  length : Nat → Nat
  sizeimage_le : ∀ index < count, format.sizeimage ≤ length index

/-- A successful request is answered by this driver. -/
def Driver.Answers (driver : Driver) : Action → Prop
  | .ioctl _ (.setFmt answer) true => answer = driver.format
  | .ioctl _ (.reqBufs count) true => count = driver.count
  | .ioctl _ (.queryBuf index length) true => length = driver.length index
  | _ => True

instance (driver : Driver) (action : Action) : Decidable (driver.Answers action) := by
  unfold Driver.Answers
  split <;> infer_instance

/-- The action is one `openCamera` makes `mFD` and `mBufferArray` with. -/
def Action.ofOpen (action : Action) : Bool :=
  action.opens || action.setsBuffer

theorem Action.setsBuffer_of_ofOpen {action : Action} (notOpen : action.ofOpen = false) :
    action.setsBuffer = false := by
  simp only [ofOpen, Bool.or_eq_false_iff] at notOpen
  exact notOpen.2

/-- The first `bound` entries of `mBufferArray` are mappings of the driver's buffers. -/
def Driver.Mapped (driver : Driver) (camera : Camera) (bound : Nat) : Prop :=
  ∀ index < bound, camera.mBufferArray index = ⟨true, driver.length index⟩

/-- What `openCamera` has mapped at each of its points. -/
def OpenPc.Progress (driver : Driver) (camera : Camera) : OpenPc → Prop
  | .queryBuf index count => count = driver.count ∧ driver.Mapped camera index
  | .mapBuf index count length =>
      count = driver.count ∧ length = driver.length index ∧ driver.Mapped camera index
  | .queueBuf _ | .streamOn | .logFd => driver.Mapped camera driver.count
  | .returnFd => 0 ≤ camera.mFD → driver.Mapped camera driver.count
  | .returned fd => 0 ≤ fd → driver.Mapped camera driver.count
  | _ => True

/-- The same for a thread that opens the device, until its `start()` creates the capture
thread. -/
def Pc.Progress (driver : Driver) (camera : Camera) : Pc → Prop
  | .opening pc => pc.Progress driver camera
  | .spawning => driver.Mapped camera driver.count
  | _ => True

namespace OpenPc

variable {driver : Driver} {camera : Camera}

theorem progress_queueLoop {index : Nat} (mapped : driver.Mapped camera driver.count) :
    (queueLoop index).Progress driver camera := by
  unfold queueLoop
  split <;> exact mapped

theorem progress_mapLoop {index : Nat} (mapped : driver.Mapped camera index) :
    (mapLoop index driver.count).Progress driver camera := by
  unfold mapLoop
  split
  · exact ⟨rfl, mapped⟩
  · rename_i finished
    exact progress_queueLoop fun other below => mapped other (by omega)

end OpenPc

theorem Pc.progress_afterOpen {driver : Driver} {camera : Camera} {pc : OpenPc}
    (progress : pc.Progress driver camera) : (afterOpen pc).Progress driver camera := by
  cases pc with
  | returned fd =>
      by_cases positive : 0 < fd
      · simp only [afterOpen, positive, if_true]
        exact progress (by omega)
      · simp only [afterOpen, positive, if_false]
        trivial
  | _ => exact progress

namespace World

/-! ## One `openCamera` -/

section Steps

variable {driver : Driver} {world next : World} {thread mover : ThreadId} {action : Action}

theorem mapped_of_step {bound : Nat} (mapped : driver.Mapped world.camera bound)
    (notSet : action.setsBuffer = false)
    (stepped : world.step (mover, action) = some next) : driver.Mapped next.camera bound := by
  intro index below
  rw [Camera.mBufferArray_of_apply (camera_of_step stepped) notSet]
  exact mapped index below

theorem progress_of_move {pc pc' : OpenPc} (move : OpenPc.Move pc action pc')
    (answers : driver.Answers action) (progress : pc.Progress driver world.camera)
    (stepped : world.step (thread, action) = some next) :
    pc'.Progress driver next.camera := by
  cases move with
  | openDev | opened | queryCap | setFmt | setParm | getParm | requestFailed | mapFailed
  | closeFd => trivial
  | openFailed negative =>
      have observed := Camera.eq_mFD_of_readFd (camera_of_step stepped)
      have same : next.camera.mFD = world.camera.mFD :=
        Camera.mFD_of_apply (camera_of_step stepped) rfl
      intro nonneg
      omega
  | reqBufs =>
      rw [show _ = driver.count from answers]
      exact OpenPc.progress_mapLoop fun _ below => by omega
  | queryBuf => exact ⟨progress.1, answers, mapped_of_step progress.2 rfl stepped⟩
  | @mapBuf fd index count length =>
      obtain ⟨rfl, rfl, mapped⟩ := progress
      obtain ⟨here, elsewhere⟩ := Camera.of_mapBuf (camera_of_step stepped)
      refine OpenPc.progress_mapLoop fun other below => ?_
      by_cases same : other = index
      · rw [same, here]
      · rw [elsewhere other same]
        exact mapped other (by omega)
  | queueBuf => exact OpenPc.progress_queueLoop (mapped_of_step progress rfl stepped)
  | streamOn => exact mapped_of_step progress rfl stepped
  | logFd => exact fun _ => mapped_of_step progress rfl stepped
  | clearFd =>
      have cleared : next.camera.mFD = -1 := by
        rw [← Option.some.inj (camera_of_step stepped)]
      intro nonneg
      omega
  | returnFd =>
      have observed := Camera.eq_mFD_of_readFd (camera_of_step stepped)
      intro nonneg
      exact mapped_of_step (progress (by omega)) rfl stepped

/-- Other threads that do not open the device do not undo the progress. -/
theorem progress_of_other {pc : Pc} (progress : pc.Progress driver world.camera)
    (notOpen : action.ofOpen = false) (stepped : world.step (mover, action) = some next) :
    pc.Progress driver next.camera := by
  have notSet := Action.setsBuffer_of_ofOpen notOpen
  have notOpened : ∀ fd, action ≠ .openDev fd := by
    rintro fd rfl
    cases notOpen
  have kept : ∀ bound, driver.Mapped world.camera bound → driver.Mapped next.camera bound :=
    fun bound mapped => mapped_of_step mapped notSet stepped
  cases pc with
  | opening inner =>
      cases inner with
      | queryBuf index count => exact ⟨progress.1, kept _ progress.2⟩
      | mapBuf index count length => exact ⟨progress.1, progress.2.1, kept _ progress.2.2⟩
      | queueBuf | streamOn | logFd => exact kept _ progress
      | returnFd =>
          exact fun nonneg => kept _
            (progress (Camera.mFD_nonneg_of_apply (camera_of_step stepped) notOpened nonneg))
      | returned fd => exact fun nonneg => kept _ (progress nonneg)
      | _ => trivial
  | spawning => exact kept _ progress
  | _ => trivial

/-- While `thread` runs `openCamera`, nobody else opens the device, and the driver
answers the requests of `thread`. -/
def OpensWith (driver : Driver) (thread : ThreadId) (event : Event) : Prop :=
  (event.1 = thread → driver.Answers event.2) ∧ (event.1 ≠ thread → event.2.ofOpen = false)

instance (driver : Driver) (thread : ThreadId) (event : Event) :
    Decidable (OpensWith driver thread event) :=
  inferInstanceAs (Decidable (_ ∧ _))

theorem progress_of_step
    (progress : (world.threads thread).Progress driver world.camera)
    (opens : OpensWith driver thread (mover, action))
    (stepped : world.step (mover, action) = some next) :
    (next.threads thread).Progress driver next.camera := by
  by_cases own : mover = thread
  · subst own
    have move := move_of_step stepped
    generalize world.threads mover = pc at move progress
    generalize next.threads mover = pc' at move
    cases move with
    | @call entry => cases entry <;> trivial
    | opening inner =>
        exact Pc.progress_afterOpen (progress_of_move inner (opens.1 rfl) progress stepped)
    | @capturing _ _ _ pc' _ _ => cases pc' <;> trivial
    | @surface _ pc' _ _ => cases pc' <;> trivial
    | _ => trivial
  · rcases other_of_step stepped (Ne.symm own) with same | ⟨-, -, begun⟩
    · rw [same]
      exact progress_of_other progress (opens.2 own) stepped
    · rw [begun]
      trivial

end Steps

section Runs

variable {driver : Driver} {world final : World} {thread : ThreadId} {events : List Event}

theorem progress_of_run (ran : run world events = some final)
    (opens : ∀ event ∈ events, OpensWith driver thread event)
    (progress : (world.threads thread).Progress driver world.camera) :
    (final.threads thread).Progress driver final.camera := by
  induction events generalizing world with
  | nil =>
      cases Option.some.inj ran
      exact progress
  | cons event events ih =>
      obtain ⟨next, stepped, rest⟩ := LabelledRun.run_cons_iff.mp ran
      exact ih rest (fun other member => opens other (by simp [member]))
        (progress_of_step progress (opens event (by simp)) stepped)

/-- The requested size stays what the constructor was given. -/
theorem size_of_run (ran : run world events = some final) :
    final.camera.mWidth = world.camera.mWidth ∧
      final.camera.mHeight = world.camera.mHeight := by
  induction events generalizing world with
  | nil =>
      cases Option.some.inj ran
      exact ⟨rfl, rfl⟩
  | cons event events ih =>
      obtain ⟨next, stepped, rest⟩ := LabelledRun.run_cons_iff.mp ran
      have same := Camera.size_of_apply (camera_of_step stepped)
      rw [(ih rest).1, (ih rest).2]
      exact same

/-- Without another `openCamera` the mapped buffers stay as they are. -/
theorem mBufferArray_of_run (ran : run world events = some final)
    (notOpen : ∀ event ∈ events, event.2.ofOpen = false) :
    final.camera.mBufferArray = world.camera.mBufferArray := by
  induction events generalizing world with
  | nil =>
      cases Option.some.inj ran
      rfl
  | cons event events ih =>
      obtain ⟨next, stepped, rest⟩ := LabelledRun.run_cons_iff.mp ran
      have notSet := Action.setsBuffer_of_ofOpen (notOpen event (by simp))
      rw [ih rest fun other member => notOpen other (by simp [member])]
      exact Camera.mBufferArray_of_apply (camera_of_step stepped) notSet

/-- In every later frame, both converters read every buffer the driver may hand over
within its length and row by row where the negotiated pitch puts them. -/
def DecodesNegotiated (driver : Driver) (opened : World) : Prop :=
  ∀ (after : List Event) (later : World), run opened after = some later →
    (∀ event ∈ after, event.2.ofOpen = false) →
    ∀ index < driver.count,
      Decodes later.camera.mWidth later.camera.mHeight
        (later.camera.mBufferArray index).length driver.format.bytesperline

/-- After an `openCamera` that returned a positive descriptor the frames are decoded as
negotiated exactly when every buffer holds the requested picture with the row pitch the
converters assume. -/
theorem decodesNegotiated_iff {opened : World}
    (begins : world.threads thread = .opening .openDev)
    (ran : run world events = some opened)
    (opens : ∀ event ∈ events, OpensWith driver thread event)
    (returned : opened.threads thread = .spawning) :
    DecodesNegotiated driver opened ↔
      ∀ index < driver.count,
        DecodesWhen world.camera.mWidth world.camera.mHeight (driver.length index)
          driver.format.bytesperline := by
  have progress := progress_of_run ran opens (by rw [begins]; trivial)
  rw [returned] at progress
  have mapped : driver.Mapped opened.camera driver.count := progress
  obtain ⟨width, height⟩ := size_of_run ran
  constructor
  · intro decodes index below
    have now := decodes [] opened rfl (by simp) index below
    rw [mapped index below, width, height] at now
    exact (decodes_iff _ _ _ _).mp now
  · intro condition after later continued notOpen index below
    obtain ⟨laterWidth, laterHeight⟩ := size_of_run continued
    rw [mBufferArray_of_run continued notOpen, mapped index below, laterWidth, laterHeight, width,
      height]
    exact (decodes_iff _ _ _ _).mpr (condition index below)

end Runs

/-! ## Two drivers for 640 × 480 -/

/-- A driver that grants four buffers holding a YUYV picture of the given size. -/
def yuyvDriver (width height : Nat) : Driver where
  format := yuyvFormat width height
  count := bufferNR
  length := fun _ => 2 * width * height
  sizeimage_le := fun _ _ => Nat.le_refl _

/-- The user thread has entered `openCamera`. -/
def enterOpenEvents : List Event :=
  [(userThread, .call .start), (userThread, .getCamera true)]

/-- An `openCamera` of the user thread that a driver answers throughout. -/
def openEvents (width height : Nat) : List Event :=
  (openActions 5 (yuyvFormat width height) (2 * width * height)).map fun action =>
    (userThread, action)

theorem exists_opening : ∃ world,
    run (attached 640 480) enterOpenEvents = some world ∧
      world.threads userThread = .opening .openDev ∧
      world.camera.mWidth = 640 ∧ world.camera.mHeight = 480 := by
  obtain ⟨world, entered⟩ := Option.isSome_iff_exists.mp
    (by decide : (run (attached 640 480) enterOpenEvents).isSome = true)
  exact ⟨world, entered, (by decide : ∀ world ∈ run (attached 640 480) enterOpenEvents,
    world.threads userThread = .opening .openDev ∧
      world.camera.mWidth = 640 ∧ world.camera.mHeight = 480) world entered⟩

/-- A driver that honours the request. -/
theorem decodesNegotiated_sameSize :
    ∃ world opened, run (attached 640 480) enterOpenEvents = some world ∧
      run world (openEvents 640 480) = some opened ∧
      DecodesNegotiated (yuyvDriver 640 480) opened := by
  obtain ⟨world, entered, begins, width, height⟩ := exists_opening
  obtain ⟨opened, ran, returned⟩ := (by decide :
    ∀ world ∈ run (attached 640 480) enterOpenEvents,
      ∃ opened ∈ run world (openEvents 640 480),
        opened.threads userThread = .spawning) world entered
  refine ⟨world, opened, entered, ran, ?_⟩
  refine (decodesNegotiated_iff begins ran (by decide) returned).mpr ?_
  intro index _
  rw [width, height]
  exact (by decide : DecodesWhen 640 480 (2 * 640 * 480) (2 * 640))

/-- A driver that grants 320 × 240: its buffers hold a quarter of what the converters
read. -/
theorem not_decodesNegotiated :
    ¬ ∀ (driver : Driver) (world opened : World) (thread : ThreadId) (events : List Event),
      world.threads thread = .opening .openDev → run world events = some opened →
      (∀ event ∈ events, OpensWith driver thread event) →
      opened.threads thread = .spawning → DecodesNegotiated driver opened := by
  intro always
  obtain ⟨world, entered, begins, width, height⟩ := exists_opening
  obtain ⟨opened, ran, returned, length⟩ := (by decide :
    ∀ world ∈ run (attached 640 480) enterOpenEvents,
      ∃ opened ∈ run world (openEvents 320 240),
        opened.threads userThread = .spawning ∧
          (opened.camera.mBufferArray 0).length = 2 * 320 * 240) world entered
  obtain ⟨openedWidth, openedHeight⟩ := size_of_run ran
  have decodes := always (yuyvDriver 320 240) world opened userThread _ begins ran
    (by decide) returned [] opened rfl (by simp) 0 (by decide)
  rw [openedWidth, openedHeight, width, height, length, decodes_iff] at decodes
  exact absurd decodes (by decide)

end World

end UsbCamera
