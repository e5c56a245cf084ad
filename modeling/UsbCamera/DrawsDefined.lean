import UsbCamera.FrameMemory

/-!
# Drawing is defined

The places where memory could stop a step of the camera: a product that overflows, a copy
whose size cannot be computed, a copy to a pointer `mapper.lock` has not set.  When the
scratch images have sizes, the buffers handed over have too, and every lock of a mapper
succeeds, a session never gets there.
-/

namespace UsbCamera

open CheckedInt

/-- The size of the copy into the window buffer and the crop into the encoder buffer can be
computed. -/
def Handed.Fits (mWidth mHeight : Int) (handed : Handed) : Prop :=
  (∃ copied, handed.window.copySize = some copied) ∧
    ∃ copies, drawBuffer mWidth mHeight handed.encoder = some copies

/-- What `drawPreviewSurface` needs to go on. -/
def PreviewPc.Ready (memory : Memory) (thread : ThreadId) : PreviewPc → Prop
  | .lockBuffer _ => ∃ copied, (memory.buf thread).copySize = some copied
  | .copy _ _ => (∃ copied, (memory.buf thread).copySize = some copied) ∧
      ∃ dst, memory.dst thread = some dst
  | .unlockBuffer _ | .queue _ => ∃ bytes, memory.dst thread = some bytes
  | _ => True

/-- What `drawEncoderSurface` needs to go on. -/
def EncoderPc.Ready (mWidth mHeight : Int) (memory : Memory) (thread : ThreadId) :
    EncoderPc → Prop
  | .copy _ _ => ∃ copies, drawBuffer mWidth mHeight (memory.buffer thread) = some copies
  | _ => True

def CapturePc.Ready (mWidth mHeight : Int) (memory : Memory) (thread : ThreadId) :
    CapturePc → Prop
  | .preview pc => pc.Ready memory thread
  | .encoder pc => pc.Ready mWidth mHeight memory thread
  | _ => True

/-- The images of the draws and the buffers requested of the preview window have sizes. -/
structure DrawFits (mWidth mHeight : Int) : Prop where
  rgba : RgbaFits mWidth mHeight
  width : CheckedInt.Fits (mWidth + 1)
  height : CheckedInt.Fits (mHeight + 1)

instance (mWidth mHeight : Int) : Decidable (DrawFits mWidth mHeight) :=
  decidable_of_iff (RgbaFits mWidth mHeight ∧ CheckedInt.Fits (mWidth + 1) ∧
    CheckedInt.Fits (mHeight + 1))
    ⟨fun ⟨rgba, width, height⟩ => ⟨rgba, width, height⟩,
      fun fits => ⟨fits.rgba, fits.width, fits.height⟩⟩

section Sizes

variable {mWidth mHeight : Int}

theorem exists_evenUp {size : Int} (fits : CheckedInt.Fits (size + 1)) :
    ∃ even, evenUp size = some even := by
  rw [evenUp, checked_of_fits fits]
  exact ⟨_, rfl⟩

theorem yuvFits_of_rgbaFits (fits : RgbaFits mWidth mHeight) : YuvFits mWidth mHeight := by
  obtain ⟨pixels, bytes, nonneg⟩ := fits
  have bound := bytes.2
  exact ⟨pixels, ⟨by omega, by omega⟩, by omega⟩

theorem scratch_fits (fits : RgbaFits mWidth mHeight) (scratch : Scratch) :
    scratch.Fits mWidth mHeight := by
  cases scratch with
  | yuv420sp => exact yuvFits_of_rgbaFits fits
  | rgba8888 => exact fits

/-- A picture whose pixels have an `int` size is converted: either both sizes are natural
numbers, or there is no macropixel. -/
theorem exists_yvyu2Yuv420 (frame : Frame) (fits : RgbaFits mWidth mHeight) :
    ∃ planar, yvyu2Yuv420 frame mWidth mHeight = some planar := by
  by_cases natural : 0 ≤ mWidth ∧ 0 ≤ mHeight
  · obtain ⟨width, rfl⟩ := Int.eq_ofNat_of_zero_le natural.1
    obtain ⟨height, rfl⟩ := Int.eq_ofNat_of_zero_le natural.2
    have bound := fits.2.1.2
    rw [← Int.natCast_mul] at bound
    exact ⟨_, yvyu2Yuv420_natCast frame (by omega)⟩
  · rw [yvyu2Yuv420_eq]
    refine ⟨_, if_pos ⟨fits.1, fun row inside column inRow => ?_⟩⟩
    have wide : 0 < mWidth.tdiv 2 := by
      unfold columns at inRow
      omega
    have positive : 0 ≤ mWidth := by
      by_contra negative
      have opposite : 0 ≤ (-mWidth).tdiv 2 := Int.tdiv_nonneg (by omega) (by decide)
      rw [Int.neg_tdiv] at opposite
      omega
    exact absurd ⟨positive, by omega⟩ natural

end Sizes

section Steps

variable {signedChar : Bool} {camera : Camera} {thread : ThreadId} {handed : Handed}
  {memory : Memory} {action : Action}

/-- The steps of the preview draw are defined, and leave what the next one needs. -/
theorem PreviewPc.exists_apply {pc after : PreviewPc} (move : PreviewPc.Move pc action after)
    (fits : DrawFits camera.mWidth camera.mHeight)
    (handedFits : handed.Fits camera.mWidth camera.mHeight) (locks : action.locks = true)
    (ready : pc.Ready memory thread) :
    ∃ memory', memory.apply signedChar camera thread handed action = some memory' ∧
      after.Ready memory' thread := by
  cases move with
  | takeWindow | noSurface | surface =>
      obtain ⟨bufWidth, wide⟩ := exists_evenUp fits.width
      obtain ⟨bufHeight, tall⟩ := exists_evenUp fits.height
      simp only [Memory.apply, wide, tall, Option.bind_eq_bind, Option.bind_some]
      exact ⟨_, rfl, trivial⟩
  | allocScratch =>
      simp only [Memory.apply]
      split
      · exact ⟨_, rfl, trivial⟩
      · exact ⟨_, if_pos (scratch_fits fits.rgba .yuv420sp), trivial⟩
  | @convert window index =>
      obtain ⟨planar, converted⟩ :=
        exists_yvyu2Yuv420 (memory.mapped (memory.start index)) fits.rgba
      exact ⟨_, Option.bind_eq_some_iff.mpr ⟨planar, converted, rfl⟩, trivial⟩
  | dequeued =>
      obtain ⟨⟨copied, size⟩, -⟩ := handedFits
      exact ⟨_, rfl, copied, by simpa using size⟩
  | @lockBuffer window ok =>
      cases ok with
      | true => exact ⟨_, rfl, ready, handed.bytes, by simp⟩
      | false => cases locks
  | copy =>
      obtain ⟨⟨copied, size⟩, dst, locked⟩ := ready
      simp only [Memory.apply, locked, size, Option.bind_eq_bind, Option.bind_some]
      exact ⟨_, rfl, _, Function.update_self ..⟩
  | unlockBuffer => exact ⟨_, rfl, ready⟩
  | @queue window ok =>
      cases ok with
      | true =>
          obtain ⟨bytes, written⟩ := ready
          exact ⟨_, Option.bind_eq_some_iff.mpr ⟨bytes, written, rfl⟩, trivial⟩
      | false => exact ⟨_, rfl, trivial⟩
  | lock | freeScratch | unlockEmpty | configure | dequeueFailed | unlockFailed | unlockQueued => exact ⟨_, rfl, trivial⟩

/-- The steps of the encoder draw are. -/
theorem EncoderPc.exists_apply {pc after : EncoderPc} (move : EncoderPc.Move pc action after)
    (fits : DrawFits camera.mWidth camera.mHeight)
    (handedFits : handed.Fits camera.mWidth camera.mHeight)
    (ready : pc.Ready camera.mWidth camera.mHeight memory thread) :
    ∃ memory', memory.apply signedChar camera thread handed action = some memory' ∧
      after.Ready camera.mWidth camera.mHeight memory' thread := by
  cases move with
  | allocScratch =>
      simp only [Memory.apply]
      split
      · exact ⟨_, rfl, trivial⟩
      · exact ⟨_, if_pos (scratch_fits fits.rgba .rgba8888), trivial⟩
  | @convert index =>
      refine ⟨_, Option.bind_eq_some_iff.mpr ⟨_, yvyu2RGBA_eq .., rfl⟩, trivial⟩
  | locked =>
      obtain ⟨-, copies, evaluated⟩ := handedFits
      exact ⟨_, rfl, copies, by simpa using evaluated⟩
  | copy =>
      obtain ⟨copies, evaluated⟩ := ready
      exact ⟨_, Option.bind_eq_some_iff.mpr ⟨copies, evaluated, rfl⟩, trivial⟩
  | lock | empty | nonempty | unlockEmpty | freeScratch | atEnd | surface | lockFailed | post
  | unlock => exact ⟨_, rfl, trivial⟩

theorem Memory.exists_apply_of_not_draws (quiet : action.draws = false) :
    ∃ memory', memory.apply signedChar camera thread handed action = some memory' := by
  unfold Memory.apply
  split <;> first | exact ⟨_, rfl⟩ | cases quiet

theorem CapturePc.Move.exists_apply {first first' : Bool} {pc pc' : CapturePc}
    (move : CapturePc.Move first pc action first' pc')
    (fits : DrawFits camera.mWidth camera.mHeight)
    (handedFits : handed.Fits camera.mWidth camera.mHeight) (locks : action.locks = true)
    (ready : pc.Ready camera.mWidth camera.mHeight memory thread) :
    ∃ memory', memory.apply signedChar camera thread handed action = some memory' ∧
      pc'.Ready camera.mWidth camera.mHeight memory' thread := by
  cases move with
  | preview drawn =>
      obtain ⟨memory', applied, after⟩ :=
        PreviewPc.exists_apply (PreviewPc.move_of_next drawn) fits handedFits locks ready
      refine ⟨memory', applied, ?_⟩
      split
      · trivial
      · exact after
  | encoder drawn =>
      obtain ⟨memory', applied, after⟩ :=
        EncoderPc.exists_apply (EncoderPc.move_of_next drawn) fits handedFits ready
      refine ⟨memory', applied, ?_⟩
      split
      · trivial
      · exact after
  | @stillRunning result errno =>
      refine ⟨memory, rfl, ?_⟩
      unfold afterSelect
      split_ifs <;> trivial
  | @dequeueBuf fd result =>
      have quiet : (Action.dequeueBuf fd result).draws = false := rfl
      obtain ⟨memory', applied⟩ := Memory.exists_apply_of_not_draws quiet
      refine ⟨memory', applied, ?_⟩
      cases result <;> simp only [afterDequeue] <;> split_ifs <;> trivial
  | _ => exact ⟨memory, rfl, trivial⟩

end Steps

/-! ## A frame drawn for the preview and for one encoder -/

/-- Cleared memory and buffers of the size of the picture. -/
def Handed.cleared : Handed where
  bytes := fun _ => 0
  window := ⟨640, 480⟩
  encoder := ⟨640, 480, 640, by decide⟩

theorem Handed.cleared_fits : Handed.cleared.Fits 640 480 :=
  ⟨⟨_, rfl⟩, _, rfl⟩

/-- Nothing has been logged, and the entries of `mBufferArray` point to the buffers of `fd`. -/
def Memory.fresh (fd : Int) : Memory where
  start := fun index => (fd, index)
  mapped := fun _ _ => 0
  mYuv420sp := fun _ => 0
  mRGBA8888 := fun _ => 0
  buf := fun _ => Handed.cleared.window
  dst := fun _ => none
  buffer := fun _ => Handed.cleared.encoder
  bits := fun _ _ => 0
  frames := []
  previews := []
  posts := []

/-- The user thread sets the preview surface 7 and adds the encoder surface 9. -/
def setSurfacesEvents : List Event :=
  World.setPreviewEvents 7 ++
    [.call (.addEncoder (some 9)), .getCamera true, .surfaceValid true, .lock .encoderLock,
      .pushEncoder 9, .unlock .encoderLock, .encodersSize].map fun action => (userThread, action)

/-- One frame from buffer 2, previewed and posted to the encoder, and the buffer requeued. -/
def drawnFrameEvents : List Event :=
  setSurfacesEvents ++ World.captureToDequeueEvents 5 1 (.filled 2) ++
    World.previewToConvertEvents 1 7 2 ++
    [.window (some 7) .configure, .window (some 7) (.dequeue true),
      .window (some 7) (.lockBuffer true), .copyScratch .yuv420sp,
      .window (some 7) (.unlockBuffer true), .window (some 7) (.queue true),
      .unlock .previewLock, .lock .encoderLock, .encodersEmpty false, .allocScratch .rgba8888,
      .convert .rgba8888 2, .encoderAt 0 (some 9), .window (some 9) (.lockWindow true),
      .copyScratch .rgba8888, .window (some 9) .post, .encoderAt 1 none, .unlock .encoderLock,
      .requeueBuf 5 2 true].map fun action => (1, action)

/-! ## Runs -/

namespace Pipeline

/-- Every state of a session in which nothing undefined has been asked for. -/
structure Defined (mWidth mHeight : Int) (thread : ThreadId) (pipeline : Pipeline) : Prop where
  width : pipeline.world.camera.mWidth = mWidth
  height : pipeline.world.camera.mHeight = mHeight
  own : (∃ first pc, pipeline.world.threads thread = .capturing first pc ∧
      pc.Ready mWidth mHeight pipeline.memory thread) ∨
    (pipeline.world.threads thread).bystander = true
  others : ∀ other, other ≠ thread → (pipeline.world.threads other).bystander = true

/-- During the session other threads stop the capture and change the surfaces, no `mapper.lock`
fails, and what the environment hands over has sizes. -/
def DrawableEvent (mWidth mHeight : Int) : PipelineEvent → Prop
  | .fill _ _ _ => True
  | .act event handed =>
      World.SessionCall event ∧ event.2.locks = true ∧ handed.Fits mWidth mHeight

namespace Defined

variable {signedChar : Bool} {mWidth mHeight : Int} {thread : ThreadId}
  {pipeline next : Pipeline}

theorem of_bystander {world : World} {mover : ThreadId} {action : Action} {handed : Handed}
    (defined : Defined mWidth mHeight thread pipeline) (call : World.SessionCall (mover, action))
    (stands : (pipeline.world.threads mover).bystander = true)
    (stepped : pipeline.world.step (mover, action) = some world) :
    ∃ memory, pipeline.memory.apply signedChar pipeline.world.camera mover handed action =
        some memory ∧ Defined mWidth mHeight thread ⟨world, memory⟩ := by
  obtain ⟨still, stood, unmoved⟩ := World.bystander_of_step stands call stepped
  obtain ⟨width, height⟩ := Camera.size_of_apply (World.camera_of_step stepped)
  refine ⟨pipeline.memory, ?_, width.trans defined.width, height.trans defined.height, ?_, ?_⟩
  · cases action <;> first | rfl | cases stood
  · by_cases own : thread = mover
    · exact Or.inr (own ▸ still)
    · simp only [unmoved thread own]
      exact defined.own
  · intro other distinct
    by_cases moves : other = mover
    · exact moves ▸ still
    · simp only [unmoved other moves]
      exact defined.others other distinct

theorem of_capture {world : World} {action : Action} {handed : Handed} {first : Bool}
    {pc : CapturePc} (defined : Defined mWidth mHeight thread pipeline)
    (fits : DrawFits mWidth mHeight)
    (call : DrawableEvent mWidth mHeight (.act (thread, action) handed))
    (capture : pipeline.world.threads thread = .capturing first pc)
    (ready : pc.Ready mWidth mHeight pipeline.memory thread)
    (stepped : pipeline.world.step (thread, action) = some world) :
    ∃ memory, pipeline.memory.apply signedChar pipeline.world.camera thread handed action =
        some memory ∧ Defined mWidth mHeight thread ⟨world, memory⟩ := by
  obtain ⟨-, locks, handedFits⟩ := call
  obtain ⟨width, height⟩ := Camera.size_of_apply (World.camera_of_step stepped)
  have move := World.move_of_step stepped
  rw [capture] at move
  generalize placed : world.threads thread = after at move
  cases move with
  | @capturing _ first' _ pc' _ inner =>
      rw [← defined.width, ← defined.height] at fits handedFits ready
      obtain ⟨memory, applied, ready'⟩ := inner.exists_apply fits handedFits locks ready
      rw [defined.width, defined.height] at ready'
      refine ⟨memory, applied, width.trans defined.width, height.trans defined.height, ?_, ?_⟩
      · simp only [placed]
        cases pc' with
        | returned => exact Or.inr rfl
        | _ => exact Or.inl ⟨first', _, rfl, ready'⟩
      · intro other distinct
        rcases World.other_of_step stepped distinct with same | ⟨rfl, -, -⟩
        · simp only [same]
          exact defined.others other distinct
        · rcases inner.own_or_draws with own | draws
          · cases own
          · cases draws

/-- Whatever the camera does next, memory allows it. -/
theorem exists_act {event : Event} {handed : Handed} {world : World}
    (defined : Defined mWidth mHeight thread pipeline) (fits : DrawFits mWidth mHeight)
    (call : DrawableEvent mWidth mHeight (.act event handed))
    (stepped : pipeline.world.step event = some world) :
    ∃ memory, pipeline.step signedChar (.act event handed) = some ⟨world, memory⟩ ∧
      Defined mWidth mHeight thread ⟨world, memory⟩ := by
  obtain ⟨mover, action⟩ := event
  have placed : ∃ memory, pipeline.memory.apply signedChar pipeline.world.camera mover handed
      action = some memory ∧ Defined mWidth mHeight thread ⟨world, memory⟩ := by
    by_cases own : mover = thread
    · subst own
      rcases defined.own with ⟨first, pc, capture, ready⟩ | stands
      · exact defined.of_capture fits call capture ready stepped
      · exact defined.of_bystander call.1 stands stepped
    · exact defined.of_bystander call.1 (defined.others mover own) stepped
  obtain ⟨memory, applied, defined'⟩ := placed
  refine ⟨memory, ?_, defined'⟩
  simp only [step, applied, stepped, Option.bind_eq_bind, Option.bind_some]

theorem step {event : PipelineEvent} (defined : Defined mWidth mHeight thread pipeline)
    (fits : DrawFits mWidth mHeight) (call : DrawableEvent mWidth mHeight event)
    (stepped : pipeline.step signedChar event = some next) :
    Defined mWidth mHeight thread next := by
  cases event with
  | fill fd index frame =>
      obtain ⟨-, rfl⟩ := of_fill stepped
      refine ⟨defined.width, defined.height, ?_, defined.others⟩
      rcases defined.own with ⟨first, pc, capture, ready⟩ | stands
      · refine Or.inl ⟨first, pc, capture, ?_⟩
        cases pc with
        | preview pc => cases pc <;> exact ready
        | encoder pc => cases pc <;> exact ready
        | _ => trivial
      · exact Or.inr stands
  | act event handed =>
      obtain ⟨_, moved⟩ := of_act stepped
      obtain ⟨memory, again, defined'⟩ := defined.exists_act fits call moved
      rw [Option.some.inj (stepped.symm.trans again)]
      exact defined'

end Defined

section Runs

variable {signedChar : Bool} {mWidth mHeight : Int} {thread : ThreadId} {start : Pipeline}

theorem defined_of_capture (isWidth : start.world.camera.mWidth = mWidth)
    (isHeight : start.world.camera.mHeight = mHeight)
    (capture : start.world.threads thread = .capturing true .getCamera)
    (others : ∀ other, other ≠ thread → (start.world.threads other).bystander = true) :
    Defined mWidth mHeight thread start :=
  ⟨isWidth, isHeight, Or.inl ⟨true, .getCamera, capture, trivial⟩, others⟩

/-- A run of the camera is a run on memory, whatever the environment hands over. -/
theorem Defined.exists_run {events : List (Event × Handed)} {final : World}
    (defined : Defined mWidth mHeight thread start) (fits : DrawFits mWidth mHeight)
    (ran : World.run start.world (events.map Prod.fst) = some final)
    (calls : ∀ event ∈ events, DrawableEvent mWidth mHeight (.act event.1 event.2)) :
    ∃ memory, run signedChar start (events.map fun event => .act event.1 event.2) =
      some ⟨final, memory⟩ := by
  induction events generalizing start with
  | nil =>
      cases Option.some.inj ran
      exact ⟨start.memory, rfl⟩
  | cons event events ih =>
      obtain ⟨world, stepped, rest⟩ := LabelledRun.run_cons_iff.mp ran
      obtain ⟨memory, placed, defined'⟩ :=
        defined.exists_act fits (calls event (by simp)) stepped
      obtain ⟨memory', onward⟩ := ih defined' rest fun other member =>
        calls other (by simp [member])
      exact ⟨memory', LabelledRun.run_cons_iff.mpr ⟨_, placed, onward⟩⟩

end Runs

theorem exists_opened_fresh : ∃ start : Pipeline,
    start.memory = Memory.fresh 5 ∧ World.Opened start.world 1 ∧
      start.world.camera.mFD = 5 ∧ start.world.camera.mWidth = 640 ∧
      start.world.camera.mHeight = 480 ∧ start.world.camera.mYuv420sp = false ∧
      start.world.camera.mRGBA8888 = false ∧
      (World.run start.world (drawnFrameEvents ++ [(1, .loopTest true)])).isSome = true ∧
      (5, 2) ∈ start.world.device.driverOwned := by
  obtain ⟨world, started, opened⟩ := World.exists_opened
  have facts := (by decide : ∀ world ∈ World.run (World.attached 640 480) (startEvents 5 1),
    world.camera.mFD = 5 ∧ world.camera.mWidth = 640 ∧ world.camera.mHeight = 480 ∧
      world.camera.mYuv420sp = false ∧ world.camera.mRGBA8888 = false ∧
      (World.run world (drawnFrameEvents ++ [(1, .loopTest true)])).isSome = true ∧
      (5, 2) ∈ world.device.driverOwned) world started
  exact ⟨⟨world, Memory.fresh 5⟩, rfl, opened, facts⟩

/-! ### No step is undefined -/

/-- In every state of such a session, memory allows whatever step the camera can take. -/
theorem exists_act_of_run {signedChar : Bool} {mWidth mHeight : Int} {thread : ThreadId}
    {start pipeline : Pipeline} {events : List PipelineEvent} {event : Event}
    {handed : Handed} {world : World}
    (capture : start.world.threads thread = .capturing true .getCamera)
    (others : ∀ other, other ≠ thread → (start.world.threads other).bystander = true)
    (isWidth : start.world.camera.mWidth = mWidth)
    (isHeight : start.world.camera.mHeight = mHeight) (fits : DrawFits mWidth mHeight)
    (ran : run signedChar start events = some pipeline)
    (calls : ∀ event ∈ events, DrawableEvent mWidth mHeight event)
    (call : DrawableEvent mWidth mHeight (.act event handed))
    (stepped : pipeline.world.step event = some world) :
    ∃ memory, pipeline.step signedChar (.act event handed) = some ⟨world, memory⟩ := by
  have initial := defined_of_capture isWidth isHeight capture others
  have defined : Defined mWidth mHeight thread pipeline := by
    refine LabelledRun.invariant_of_run ?_ initial
      (LabelledRun.everyStep_of_forall_mem calls) ran
    intro before event after defined call stepped
    exact defined.step fits call stepped
  obtain ⟨memory, placed, -⟩ := defined.exists_act fits call stepped
  exact ⟨memory, placed⟩

theorem exists_act_drawnFrame : ∃ start pipeline world memory,
    run false start (drawnFrameEvents.map fun event => .act event .cleared) = some pipeline ∧
      pipeline.world.step (1, .loopTest true) = some world ∧
      pipeline.step false (.act (1, .loopTest true) .cleared) = some ⟨world, memory⟩ := by
  obtain ⟨start, -, opened, -, isWidth, isHeight, -, -, goesOn, -⟩ := exists_opened_fresh
  obtain ⟨final, onward⟩ := Option.isSome_iff_exists.mp goesOn
  obtain ⟨world, drawn, rest⟩ := LabelledRun.run_append_iff.mp onward
  obtain ⟨next, stepped, -⟩ := LabelledRun.run_cons_iff.mp rest
  have calls : ∀ event ∈ drawnFrameEvents, World.SessionCall event ∧ event.2.locks = true := by
    decide
  have drawable : ∀ event ∈ drawnFrameEvents, DrawableEvent 640 480 (.act event .cleared) :=
    fun event member => ⟨(calls event member).1, (calls event member).2, Handed.cleared_fits⟩
  have fits : DrawFits 640 480 := by decide
  have defined := defined_of_capture isWidth isHeight opened.capture opened.others
  obtain ⟨memory, ran⟩ := @Defined.exists_run false 640 480 1 start
    (drawnFrameEvents.map fun event => (event, .cleared)) world defined fits
    (by simpa [Function.comp_def] using drawn) (List.forall_mem_map.mpr drawable)
  rw [List.map_map] at ran
  obtain ⟨memory', placed⟩ := @exists_act_of_run false 640 480 1 start ⟨world, memory⟩
    (drawnFrameEvents.map fun event => .act event .cleared) (1, .loopTest true) .cleared next
    opened.capture opened.others isWidth isHeight fits ran (List.forall_mem_map.mpr drawable)
    ⟨by decide, rfl, Handed.cleared_fits⟩ stepped
  exact ⟨start, ⟨world, memory⟩, next, memory', ran, stepped, placed⟩

end Pipeline

end UsbCamera
