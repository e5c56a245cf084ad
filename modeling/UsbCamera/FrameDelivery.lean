import UsbCamera.FrameMemory

/-!
# Frames arrive whole

From `VIDIOC_DQBUF` to `VIDIOC_QBUF` the driver does not own the buffer in
`mCurBufInfo`, so both converters read the frame as it was dequeued, whatever the driver
writes into its other buffers meanwhile.  What a draw has made of the frame is followed
from point to point of its program: the planes or pixels in the scratch image, then the
bytes copied into the window buffer.  Every buffer that leaves the process is therefore
drawn from the frame that was dequeued last.
-/

namespace UsbCamera

open CheckedInt StoreLog

/-! ## What a draw has made of a frame -/

section Made

variable (mWidth mHeight : Int) (memory : Memory) (thread : ThreadId) (frame : Frame)

/-- `mYuv420sp` holds the planes of the frame. -/
def HoldsPlanes : Prop :=
  YuvFits mWidth mHeight ∧ ∃ heap planar, yvyu2Yuv420 frame mWidth mHeight = some planar ∧
    memory.mYuv420sp = writeAll planar.stores heap

/-- `mRGBA8888` holds the pixels of the frame. -/
def HoldsPixels (signedChar : Bool) : Prop :=
  RgbaFits mWidth mHeight ∧ ∃ heap packed,
    yvyu2RGBA signedChar frame mWidth mHeight = some packed ∧
      memory.mRGBA8888 = writeAll packed.byteStores heap

/-- A preview buffer drawn from the frame. -/
def PreviewOf (buf : WindowBuffer) (bytes : Int → UInt8) : Prop :=
  ∃ heap dst, drawPreviewSurface frame mWidth mHeight buf heap dst = some bytes

/-- An encoder buffer drawn from the frame. -/
def PostOf (signedChar : Bool) (buffer : Geometry) (bits : Nat → UInt8) : Prop :=
  RgbaFits mWidth mHeight ∧ ∃ heap before packed copies,
    yvyu2RGBA signedChar frame mWidth mHeight = some packed ∧
      drawBuffer mWidth mHeight buffer = some copies ∧
        bits = paste copies (writeAll packed.byteStores heap) before

/-- At a point of `drawPreviewSurface`. -/
def PreviewPc.Made : PreviewPc → Prop
  | .convert _ => YuvFits mWidth mHeight
  | .configure _ | .dequeue _ | .lockBuffer _ | .copy _ _ =>
      HoldsPlanes mWidth mHeight memory frame
  | .unlockBuffer _ | .queue _ =>
      ∃ bytes, memory.dst thread = some bytes ∧
        PreviewOf mWidth mHeight frame (memory.buf thread) bytes
  | _ => True

/-- At a point of `drawEncoderSurface`. -/
def EncoderPc.Made (signedChar : Bool) : EncoderPc → Prop
  | .convert => RgbaFits mWidth mHeight
  | .iterate _ | .lockWindow _ _ | .copy _ _ =>
      HoldsPixels mWidth mHeight memory frame signedChar
  | .post _ _ =>
      HoldsPixels mWidth mHeight memory frame signedChar ∧
        PostOf mWidth mHeight frame signedChar (memory.buffer thread) (memory.bits thread)
  | _ => True

end Made

/-- Only an allocation makes the pointer to a scratch image point somewhere. -/
theorem Camera.allocated_of_apply {camera camera' : Camera} {thread : ThreadId}
    {action : Action} {scratch : Scratch} (applied : camera.apply thread action = some camera')
    (other : action ≠ .allocScratch scratch) (allocated : camera'.allocated scratch = true) :
    camera.allocated scratch = true := by
  cases update_of_apply applied with
  | @lock mutex | @unlock mutex => cases mutex <;> cases scratch <;> exact allocated
  | @allocScratch touched | @freeScratch touched =>
      cases touched <;> cases scratch <;>
        first | exact allocated | exact absurd rfl other | cases allocated
  | deleteCamera => cases scratch <;> cases allocated
  | _ => cases scratch <;> exact allocated

namespace Memory

variable {signedChar : Bool} {camera : Camera} {thread : ThreadId} {handed : Handed}
  {memory memory' : Memory} {action : Action} {scratch : Scratch}

/-- After its allocation a scratch image has a size. -/
theorem fits_of_alloc (fits : camera.allocated scratch = true →
      scratch.Fits camera.mWidth camera.mHeight)
    (applied : memory.apply signedChar camera thread handed (.allocScratch scratch) =
      some memory') : scratch.Fits camera.mWidth camera.mHeight := by
  simp only [apply] at applied
  split at applied
  · exact fits ‹_›
  · exact (Option.ite_none_right_eq_some.mp applied).1

/-- A scratch image that is there has a size. -/
theorem fits_of_apply {camera' : Camera}
    (fits : camera.allocated scratch = true → scratch.Fits camera.mWidth camera.mHeight)
    (applied : memory.apply signedChar camera thread handed action = some memory')
    (fields : camera.apply thread action = some camera')
    (allocated : camera'.allocated scratch = true) :
    scratch.Fits camera.mWidth camera.mHeight := by
  by_cases allocates : action = .allocScratch scratch
  · subst allocates
    exact fits_of_alloc fits applied
  · exact fits (Camera.allocated_of_apply fields allocates allocated)

/-- A bystander touches no memory of the pictures. -/
theorem eq_of_bystander (stands : action.ofBystander = true)
    (applied : memory.apply signedChar camera thread handed action = some memory') :
    memory' = memory := by
  cases action <;> first | cases stands; done | exact (Option.some.inj applied).symm

/-- A draw neither moves the mapped buffers nor dequeues, and its logs grow only when a
buffer leaves. -/
structure Draws (memory memory' : Memory) (action : Action) : Prop where
  start : memory'.start = memory.start
  mapped : memory'.mapped = memory.mapped
  frames : memory'.frames = memory.frames
  previews : (∀ window, action ≠ .window window (.queue true)) →
    memory'.previews = memory.previews
  posts : (∀ window, action ≠ .window window .post) → memory'.posts = memory.posts

theorem draws_of_apply (draws : action.draws = true)
    (applied : memory.apply signedChar camera thread handed action = some memory') :
    Draws memory memory' action := by
  unfold apply at applied
  split at applied
  case h_1 | h_2 => cases draws
  case h_4 scratch =>
      split at applied
      · cases applied
        exact ⟨rfl, rfl, rfl, fun _ => rfl, fun _ => rfl⟩
      · obtain ⟨-, same⟩ := Option.ite_none_right_eq_some.mp applied
        rw [← Option.some.inj same]
        cases scratch <;> exact ⟨rfl, rfl, rfl, fun _ => rfl, fun _ => rfl⟩
  case h_5 | h_6 | h_12 =>
      obtain ⟨_, -, same⟩ := Option.bind_eq_some_iff.mp applied
      cases same
      exact ⟨rfl, rfl, rfl, fun _ => rfl, fun _ => rfl⟩
  case h_3 | h_9 =>
      obtain ⟨_, -, rest⟩ := Option.bind_eq_some_iff.mp applied
      obtain ⟨_, -, same⟩ := Option.bind_eq_some_iff.mp rest
      cases same
      exact ⟨rfl, rfl, rfl, fun _ => rfl, fun _ => rfl⟩
  case h_10 =>
      obtain ⟨_, -, same⟩ := Option.bind_eq_some_iff.mp applied
      cases same
      exact ⟨rfl, rfl, rfl, fun notQueued => absurd rfl (notQueued _), fun _ => rfl⟩
  case h_13 =>
      cases applied
      exact ⟨rfl, rfl, rfl, fun _ => rfl, fun notPosted => absurd rfl (notPosted _)⟩
  all_goals
    cases applied
    exact ⟨rfl, rfl, rfl, fun _ => rfl, fun _ => rfl⟩

end Memory

section Draws

variable {signedChar : Bool} {camera : Camera} {thread : ThreadId} {handed : Handed}
  {memory memory' : Memory} {frame : Frame} {action : Action}

theorem HoldsPlanes.of_convert {mWidth mHeight : Int} {planar : Planar}
    (fits : YuvFits mWidth mHeight)
    (converted : yvyu2Yuv420 frame mWidth mHeight = some planar)
    (stored : memory'.mYuv420sp = writeAll planar.stores memory.mYuv420sp) :
    HoldsPlanes mWidth mHeight memory' frame :=
  ⟨fits, memory.mYuv420sp, planar, converted, stored⟩

/-- The copy of the planes into a locked buffer is `drawPreviewSurface` as a whole. -/
theorem HoldsPlanes.previewOf {mWidth mHeight : Int} {buf : WindowBuffer}
    {copied : BitVec 32} (holds : HoldsPlanes mWidth mHeight memory frame)
    (size : buf.copySize = some copied) (dst : Int → UInt8) :
    PreviewOf mWidth mHeight frame buf fun offset : Int =>
      if 0 ≤ offset ∧ offset < copied.toNat then memory.mYuv420sp offset else dst offset := by
  obtain ⟨⟨pixels, scratch, -⟩, heap, planar, converted, stored⟩ := holds
  refine ⟨heap, dst, ?_⟩
  rw [stored]
  exact drawPreviewSurface_eq heap dst pixels scratch converted size

/-- One step of `drawPreviewSurface` on the frame in the current buffer. -/
theorem PreviewPc.made_of_move {pc after : PreviewPc} (move : PreviewPc.Move pc action after)
    (fits : ∀ scratch, camera.allocated scratch = true →
      scratch.Fits camera.mWidth camera.mHeight)
    (source : ∀ kind index, action = .convert kind index →
      memory.mapped (memory.start index) = frame)
    (made : pc.Made camera.mWidth camera.mHeight memory thread frame)
    (applied : memory.apply signedChar camera thread handed action = some memory') :
    after.Made camera.mWidth camera.mHeight memory' thread frame := by
  cases move with
  | allocScratch => exact Memory.fits_of_alloc (fits .yuv420sp) applied
  | @convert window index =>
      obtain ⟨planar, converted, same⟩ := Option.bind_eq_some_iff.mp applied
      rw [source _ _ rfl] at converted
      rw [← Option.some.inj same]
      exact HoldsPlanes.of_convert made converted rfl
  | configure | dequeued | lockBuffer =>
      rw [← Option.some.inj applied]
      exact made
  | copy =>
      obtain ⟨dst, -, rest⟩ := Option.bind_eq_some_iff.mp applied
      obtain ⟨copied, size, same⟩ := Option.bind_eq_some_iff.mp rest
      rw [← Option.some.inj same]
      exact ⟨_, Function.update_self .., made.previewOf size dst⟩
  | unlockBuffer =>
      rw [← Option.some.inj applied]
      exact made
  | takeWindow | lock | noSurface | surface | freeScratch | unlockEmpty | dequeueFailed
  | unlockFailed | queue | unlockQueued => trivial

/-- One step of `drawEncoderSurface` on the frame in the current buffer. -/
theorem EncoderPc.made_of_move {pc after : EncoderPc} (move : EncoderPc.Move pc action after)
    (fits : ∀ scratch, camera.allocated scratch = true →
      scratch.Fits camera.mWidth camera.mHeight)
    (source : ∀ kind index, action = .convert kind index →
      memory.mapped (memory.start index) = frame)
    (made : pc.Made camera.mWidth camera.mHeight memory thread frame signedChar)
    (applied : memory.apply signedChar camera thread handed action = some memory') :
    after.Made camera.mWidth camera.mHeight memory' thread frame signedChar := by
  cases move with
  | allocScratch => exact Memory.fits_of_alloc (fits .rgba8888) applied
  | @convert index =>
      obtain ⟨packed, converted, same⟩ := Option.bind_eq_some_iff.mp applied
      rw [source _ _ rfl] at converted
      rw [← Option.some.inj same]
      exact ⟨made, _, packed, converted, rfl⟩
  | surface | locked | lockFailed =>
      rw [← Option.some.inj applied]
      exact made
  | copy =>
      obtain ⟨copies, evaluated, same⟩ := Option.bind_eq_some_iff.mp applied
      rw [← Option.some.inj same]
      obtain ⟨fits, heap, packed, converted, stored⟩ := made
      refine ⟨⟨fits, heap, packed, converted, stored⟩, fits, heap, memory.bits thread, packed,
        copies, ?_, ?_, ?_⟩
      · exact converted
      · simpa using evaluated
      · simp [stored]
  | post =>
      rw [← Option.some.inj applied]
      exact made.1
  | lock | empty | nonempty | unlockEmpty | freeScratch | atEnd | unlock => trivial

end Draws

/-! ## What has left the process -/

/-- Each buffer that left was drawn from the frame dequeued last before it, no frame was
previewed twice, and the posts follow the frames. -/
structure Delivered (signedChar : Bool) (mWidth mHeight : Int) (memory : Memory) : Prop where
  previews : ∀ preview ∈ memory.previews, preview.frame ≤ memory.frames.length ∧
    ∃ frame, (memory.frames.take preview.frame).getLast? = some frame ∧
      PreviewOf mWidth mHeight frame preview.buf preview.bytes
  previewOrder : (memory.previews.map Preview.frame).Pairwise (· < ·)
  posts : ∀ posted ∈ memory.posts, posted.frame ≤ memory.frames.length ∧
    ∃ frame, (memory.frames.take posted.frame).getLast? = some frame ∧
      PostOf mWidth mHeight frame signedChar posted.buffer posted.bits
  postOrder : (memory.posts.map Posted.frame).Pairwise (· ≤ ·)

namespace Delivered

variable {signedChar : Bool} {mWidth mHeight : Int} {memory memory' : Memory} {frame : Frame}

theorem of_same (delivered : Delivered signedChar mWidth mHeight memory)
    (frames : memory'.frames = memory.frames) (previews : memory'.previews = memory.previews)
    (posts : memory'.posts = memory.posts) : Delivered signedChar mWidth mHeight memory' where
  previews := by
    rw [frames, previews]
    exact delivered.previews
  previewOrder := by
    rw [previews]
    exact delivered.previewOrder
  posts := by
    rw [frames, posts]
    exact delivered.posts
  postOrder := by
    rw [posts]
    exact delivered.postOrder

/-- A frame dequeued later changes nothing about what has left. -/
theorem of_dequeue (delivered : Delivered signedChar mWidth mHeight memory) :
    Delivered signedChar mWidth mHeight { memory with frames := memory.frames ++ [frame] } where
  previews preview member := by
    obtain ⟨earlier, source, drawn⟩ := delivered.previews preview member
    refine ⟨by simp only [List.length_append]; omega, source, ?_, drawn.2⟩
    rw [List.take_append_of_le_length earlier]
    exact drawn.1
  previewOrder := delivered.previewOrder
  posts posted member := by
    obtain ⟨earlier, source, drawn⟩ := delivered.posts posted member
    refine ⟨by simp only [List.length_append]; omega, source, ?_, drawn.2⟩
    rw [List.take_append_of_le_length earlier]
    exact drawn.1
  postOrder := delivered.postOrder

theorem of_queue {preview : Preview} (delivered : Delivered signedChar mWidth mHeight memory)
    (now : preview.frame = memory.frames.length)
    (latest : memory.frames.getLast? = some frame)
    (drawn : PreviewOf mWidth mHeight frame preview.buf preview.bytes)
    (pending : ∀ earlier ∈ memory.previews, earlier.frame < memory.frames.length) :
    Delivered signedChar mWidth mHeight
      { memory with previews := memory.previews ++ [preview] } where
  previews other member := by
    rcases List.mem_append.mp member with earlier | last
    · exact delivered.previews other earlier
    · cases List.mem_singleton.mp last
      exact ⟨now.le, frame, by rw [now, List.take_length]; exact latest, drawn⟩
  previewOrder := by
    simp only [List.map_append, List.map_cons, List.map_nil, List.pairwise_append]
    refine ⟨delivered.previewOrder, List.pairwise_singleton _ _, ?_⟩
    intro number earlier last isLast
    obtain ⟨other, member, rfl⟩ := List.mem_map.mp earlier
    rw [List.mem_singleton.mp isLast, now]
    exact pending other member
  posts := delivered.posts
  postOrder := delivered.postOrder

theorem of_post {posted : Posted} (delivered : Delivered signedChar mWidth mHeight memory)
    (now : posted.frame = memory.frames.length)
    (latest : memory.frames.getLast? = some frame)
    (drawn : PostOf mWidth mHeight frame signedChar posted.buffer posted.bits) :
    Delivered signedChar mWidth mHeight { memory with posts := memory.posts ++ [posted] } where
  previews := delivered.previews
  previewOrder := delivered.previewOrder
  posts other member := by
    rcases List.mem_append.mp member with earlier | last
    · exact delivered.posts other earlier
    · cases List.mem_singleton.mp last
      exact ⟨now.le, frame, by rw [now, List.take_length]; exact latest, drawn⟩
  postOrder := by
    simp only [List.map_append, List.map_cons, List.map_nil, List.pairwise_append]
    refine ⟨delivered.postOrder, List.pairwise_singleton _ _, ?_⟩
    intro number earlier last isLast
    obtain ⟨other, member, rfl⟩ := List.mem_map.mp earlier
    rw [List.mem_singleton.mp isLast, now]
    exact (delivered.posts other member).1

end Delivered

/-! ## The capture program on memory -/

/-- At a point of the capture program. -/
def CapturePc.Made (mWidth mHeight : Int) (memory : Memory) (thread : ThreadId)
    (frame : Frame) (signedChar : Bool) : CapturePc → Prop
  | .preview pc => pc.Made mWidth mHeight memory thread frame
  | .encoder pc => pc.Made mWidth mHeight memory thread frame signedChar
  | _ => True

/-- A frame has been dequeued and not yet been previewed. -/
def CapturePc.pending : CapturePc → Bool
  | .notifyFirst => true
  | .preview pc => pc != .unlockQueued && pc != .returned
  | _ => false

namespace Pipeline

/-- The entries of `mBufferArray` point to the buffers of the open device. -/
def Mapped (pipeline : Pipeline) : Prop :=
  ∀ index < bufferNR, pipeline.memory.start index = (pipeline.world.camera.mFD, index)

/-- The bytes of the buffer the application holds. -/
def held (pipeline : Pipeline) : Frame :=
  pipeline.memory.mapped (pipeline.world.camera.mFD, pipeline.world.camera.mCurBufInfo)

/-- What holds of memory when the capture program of `thread` is at `pc`. -/
structure Stage (signedChar : Bool) (thread : ThreadId) (pipeline : Pipeline) (pc : CapturePc) :
    Prop where
  mapped : pc.phase ≠ .ended → Mapped pipeline
  latest : pc.phase = .holding → pipeline.memory.frames.getLast? = some pipeline.held
  made : ∀ frame, pipeline.memory.frames.getLast? = some frame →
    pc.Made pipeline.world.camera.mWidth pipeline.world.camera.mHeight pipeline.memory thread
      frame signedChar
  pending : pc.pending = true → ∀ preview ∈ pipeline.memory.previews,
    preview.frame < pipeline.memory.frames.length

section Stages

variable {signedChar : Bool} {pipeline next : Pipeline} {thread : ThreadId} {action : Action}
  {handed : Handed} {first first' : Bool} {pc pc' : CapturePc}

theorem fields_of_step (keeps : action.keepsBuffers = true)
    (stepped : pipeline.world.step (thread, action) = some next.world) :
    next.world.camera.mFD = pipeline.world.camera.mFD ∧
      next.world.camera.mCurBufInfo = pipeline.world.camera.mCurBufInfo := by
  have fields := World.camera_of_step stepped
  refine ⟨Camera.mFD_of_apply fields (Action.keepsFd_of_keepsBuffers keeps), ?_⟩
  apply Camera.mCurBufInfo_of_apply fields
  · rintro rfl
    cases keeps
  · rintro fd result rfl
    cases keeps

theorem Mapped.of_same (mapped : Mapped pipeline)
    (start : next.memory.start = pipeline.memory.start)
    (descriptor : next.world.camera.mFD = pipeline.world.camera.mFD) : Mapped next := by
  intro index inRange
  rw [start, descriptor]
  exact mapped index inRange

namespace Stage

/-- On the error exit nothing is drawn any more. -/
theorem of_ended (ended : pc.phase = .ended) : Stage signedChar thread pipeline pc where
  mapped goesOn := absurd ended goesOn
  latest holding := by
    rw [ended] at holding
    cases holding
  made frame _ := by
    cases pc with
    | preview pc | encoder pc => cases ended
    | _ => trivial
  pending waiting := by
    cases pc <;> cases ended <;> cases waiting

/-- A step outside the draws leaves memory and the buffer as they are. -/
theorem of_unmoved (stage : Stage signedChar thread pipeline pc)
    (descriptor : next.world.camera.mFD = pipeline.world.camera.mFD)
    (current : pc'.phase = .holding →
      next.world.camera.mCurBufInfo = pipeline.world.camera.mCurBufInfo)
    (memory : next.memory = pipeline.memory) (phase : pc'.phase = pc.phase)
    (made : ∀ mWidth mHeight memory frame,
      pc'.Made mWidth mHeight memory thread frame signedChar)
    (pending : pc'.pending = true → pc.pending = true) :
    Stage signedChar thread next pc' where
  mapped goesOn := (stage.mapped (phase ▸ goesOn)).of_same (by rw [memory]) descriptor
  latest holding := by
    rw [held, memory, descriptor, current holding]
    exact stage.latest (phase ▸ holding)
  made frame _ := made _ _ _ frame
  pending waiting := by
    rw [memory]
    exact stage.pending (pending waiting)

/-- The converters read the buffer the application holds. -/
theorem held_of_convert {kind : Scratch} {index : Nat}
    (stage : Stage signedChar thread pipeline pc)
    (buffers : World.Buffers pipeline.world pc.phase) (holding : pc.phase = .holding)
    (stepped : pipeline.world.step (thread, .convert kind index) = some next.world) :
    pipeline.memory.mapped (pipeline.memory.start index) = pipeline.held := by
  have current := Camera.of_convert (World.camera_of_step stepped)
  have inRange : pipeline.world.camera.mCurBufInfo < bufferNR := by
    rw [holding] at buffers
    exact buffers.1
  have goesOn : pc.phase ≠ .ended := by simp [holding]
  rw [current, stage.mapped goesOn _ inRange, held]

/-- A step of a draw, provided what it makes is made of the current frame. -/
theorem of_draws (stage : Stage signedChar thread pipeline pc) (holding : pc.phase = .holding)
    (draws : action.draws = true)
    (applied : pipeline.memory.apply signedChar pipeline.world.camera thread handed action =
      some next.memory)
    (stepped : pipeline.world.step (thread, action) = some next.world)
    (made : pc'.Made pipeline.world.camera.mWidth pipeline.world.camera.mHeight next.memory thread
      pipeline.held signedChar)
    (pending : pc'.pending = true →
      pc.pending = true ∧ ∀ window, action ≠ .window window (.queue true)) :
    Stage signedChar thread next pc' := by
  have kept := Memory.draws_of_apply draws applied
  obtain ⟨descriptor, current⟩ :=
    fields_of_step (Action.keepsBuffers_of_draws draws) stepped
  obtain ⟨width, height⟩ := Camera.size_of_apply (World.camera_of_step stepped)
  have same : next.held = pipeline.held := by rw [held, held, kept.mapped, descriptor, current]
  have goesOn : pc.phase ≠ .ended := by simp [holding]
  refine ⟨fun _ => (stage.mapped goesOn).of_same kept.start descriptor, fun _ => ?_, ?_, ?_⟩
  · rw [kept.frames, same]
    exact stage.latest holding
  · intro frame latest
    rw [kept.frames, stage.latest holding] at latest
    rw [width, height, ← Option.some.inj latest]
    exact made
  · intro waiting
    obtain ⟨waited, notQueued⟩ := pending waiting
    rw [kept.previews notQueued, kept.frames]
    exact stage.pending waited

theorem of_preview {pc after : PreviewPc} (move : PreviewPc.Move pc action after)
    (stage : Stage signedChar thread pipeline (.preview pc))
    (buffers : World.Buffers pipeline.world .holding)
    (fits : ∀ scratch, pipeline.world.camera.allocated scratch = true →
      scratch.Fits pipeline.world.camera.mWidth pipeline.world.camera.mHeight)
    (applied : pipeline.memory.apply signedChar pipeline.world.camera thread handed action =
      some next.memory)
    (stepped : pipeline.world.step (thread, action) = some next.world)
    (draws : action.draws = true) :
    Stage signedChar thread next
      (if after = .returned then .encoder .lock else .preview after) := by
  have source : ∀ kind index, action = .convert kind index →
      pipeline.memory.mapped (pipeline.memory.start index) = pipeline.held := by
    rintro kind index rfl
    exact stage.held_of_convert buffers rfl stepped
  have made := PreviewPc.made_of_move move fits source
    (stage.made _ (stage.latest rfl)) applied
  split
  · refine stage.of_draws rfl draws applied stepped trivial ?_
    rintro ⟨⟩
  · refine stage.of_draws rfl draws applied stepped made ?_
    intro waiting
    cases move with
    | queue => cases waiting
    | unlockEmpty | unlockFailed | unlockQueued => contradiction
    | _ => exact ⟨rfl, by rintro window ⟨⟩⟩

theorem of_encoder {pc after : EncoderPc} (move : EncoderPc.Move pc action after)
    (stage : Stage signedChar thread pipeline (.encoder pc))
    (buffers : World.Buffers pipeline.world .holding)
    (fits : ∀ scratch, pipeline.world.camera.allocated scratch = true →
      scratch.Fits pipeline.world.camera.mWidth pipeline.world.camera.mHeight)
    (applied : pipeline.memory.apply signedChar pipeline.world.camera thread handed action =
      some next.memory)
    (stepped : pipeline.world.step (thread, action) = some next.world)
    (draws : action.draws = true) :
    Stage signedChar thread next (if after = .returned then .requeueBuf else .encoder after) := by
  have source : ∀ kind index, action = .convert kind index →
      pipeline.memory.mapped (pipeline.memory.start index) = pipeline.held := by
    rintro kind index rfl
    exact stage.held_of_convert buffers rfl stepped
  have made := EncoderPc.made_of_move move fits source (stage.made _ (stage.latest rfl)) applied
  split
  · refine stage.of_draws rfl draws applied stepped trivial ?_
    rintro ⟨⟩
  · refine stage.of_draws rfl draws applied stepped made ?_
    rintro ⟨⟩

end Stage

/-- What leaves in a step of `drawPreviewSurface` was drawn from the current frame. -/
theorem delivered_of_preview {mWidth mHeight : Int} {pc after : PreviewPc}
    (move : PreviewPc.Move pc action after)
    (stage : Stage signedChar thread pipeline (.preview pc))
    (width : pipeline.world.camera.mWidth = mWidth)
    (height : pipeline.world.camera.mHeight = mHeight)
    (delivered : Delivered signedChar mWidth mHeight pipeline.memory)
    (applied : pipeline.memory.apply signedChar pipeline.world.camera thread handed action =
      some next.memory)
    (draws : action.draws = true) : Delivered signedChar mWidth mHeight next.memory := by
  have latest := stage.latest rfl
  have made := stage.made _ latest
  rw [width, height] at made
  by_cases queues : ∃ window, action = .window window (.queue true)
  · obtain ⟨window, rfl⟩ := queues
    obtain ⟨bytes, written, same⟩ := Option.bind_eq_some_iff.mp applied
    rw [← Option.some.inj same]
    cases move with
    | queue =>
        obtain ⟨other, held, drawn⟩ := made
        cases Option.some.inj (written.symm.trans held)
        exact delivered.of_queue rfl latest drawn (stage.pending rfl)
  · have kept := Memory.draws_of_apply draws applied
    refine delivered.of_same kept.frames (kept.previews fun window same => ?_)
      (kept.posts ?_)
    · exact queues ⟨window, same⟩
    · rintro window rfl
      cases move

/-- The same for a step of `drawEncoderSurface`. -/
theorem delivered_of_encoder {mWidth mHeight : Int} {pc after : EncoderPc}
    (move : EncoderPc.Move pc action after)
    (stage : Stage signedChar thread pipeline (.encoder pc))
    (width : pipeline.world.camera.mWidth = mWidth)
    (height : pipeline.world.camera.mHeight = mHeight)
    (delivered : Delivered signedChar mWidth mHeight pipeline.memory)
    (applied : pipeline.memory.apply signedChar pipeline.world.camera thread handed action =
      some next.memory)
    (draws : action.draws = true) : Delivered signedChar mWidth mHeight next.memory := by
  have latest := stage.latest rfl
  have made := stage.made _ latest
  rw [width, height] at made
  by_cases posts : ∃ window, action = .window window .post
  · obtain ⟨window, rfl⟩ := posts
    rw [← Option.some.inj applied]
    cases move with
    | post => exact delivered.of_post rfl latest made.2
  · have kept := Memory.draws_of_apply draws applied
    refine delivered.of_same kept.frames (kept.previews ?_) (kept.posts fun window same => ?_)
    · rintro window rfl
      cases move
    · exact posts ⟨window, same⟩

theorem Stage.of_filled {fd : Int} {index : Nat} {mWidth mHeight : Int}
    (stage : Stage signedChar thread pipeline .dequeueBuf)
    (delivered : Delivered signedChar mWidth mHeight pipeline.memory)
    (applied : pipeline.memory.apply signedChar pipeline.world.camera thread handed
      (.dequeueBuf fd (.filled index)) = some next.memory)
    (stepped : pipeline.world.step (thread, .dequeueBuf fd (.filled index)) = some next.world) :
    Stage signedChar thread next (CapturePc.afterDequeue first (.filled index)) ∧
      Delivered signedChar mWidth mHeight next.memory := by
  obtain ⟨rfl, descriptor, current⟩ := Camera.of_dequeueBuf (World.camera_of_step stepped)
  have same := (Option.some.inj applied).symm
  rw [same]
  refine ⟨⟨fun _ => ?_, fun _ => ?_, fun frame _ => ?_, fun _ preview member => ?_⟩,
    delivered.of_dequeue⟩
  · exact (stage.mapped (by decide)).of_same (by rw [same]) descriptor
  · rw [held, same, descriptor, current index rfl]
    simp
  · cases first <;> trivial
  · rw [same] at member ⊢
    have earlier := (delivered.previews preview member).1
    simp only [List.length_append, List.length_singleton]
    omega

/-- One step of the capture program. -/
theorem Stage.of_move {mWidth mHeight : Int} (move : CapturePc.Move first pc action first' pc')
    (stage : Stage signedChar thread pipeline pc)
    (buffers : World.Buffers pipeline.world pc.phase)
    (width : pipeline.world.camera.mWidth = mWidth)
    (height : pipeline.world.camera.mHeight = mHeight)
    (fits : ∀ scratch, pipeline.world.camera.allocated scratch = true →
      scratch.Fits mWidth mHeight)
    (delivered : Delivered signedChar mWidth mHeight pipeline.memory)
    (onlyEagain : World.OnlyEagain (thread, action))
    (applied : pipeline.memory.apply signedChar pipeline.world.camera thread handed action =
      some next.memory)
    (stepped : pipeline.world.step (thread, action) = some next.world) :
    Stage signedChar thread next pc' ∧ Delivered signedChar mWidth mHeight next.memory := by
  have unmoved : ∀ {memory : Memory}, some memory = some next.memory →
      Delivered signedChar mWidth mHeight memory →
      Delivered signedChar mWidth mHeight next.memory :=
    fun same delivered => Option.some.inj same ▸ delivered
  cases move with
  | @stillRunning result errno =>
      refine ⟨?_, unmoved applied delivered⟩
      obtain ⟨descriptor, current⟩ := fields_of_step rfl stepped
      rcases CapturePc.phase_afterSelect result errno with queued | ended
      · refine stage.of_unmoved descriptor (fun _ => current) (Option.some.inj applied).symm
          queued ?_ ?_
        · unfold CapturePc.afterSelect
          split_ifs <;> intros <;> trivial
        · unfold CapturePc.afterSelect
          split_ifs <;> rintro ⟨⟩
      · exact of_ended ended
  | clearBufInfo =>
      refine ⟨?_, unmoved applied delivered⟩
      have descriptor := Camera.mFD_of_apply (World.camera_of_step stepped) rfl
      refine stage.of_unmoved descriptor ?_ (Option.some.inj applied).symm rfl
        (fun _ _ _ _ => trivial) ?_
      · rintro ⟨⟩
      · rintro ⟨⟩
  | @dequeueBuf fd result =>
      cases result with
      | filled index => exact stage.of_filled delivered applied stepped
      | failed errno =>
          rw [onlyEagain errno rfl]
          exact ⟨of_ended rfl, unmoved applied delivered⟩
  | preview drawn =>
      have draws := PreviewPc.draws_of_next drawn
      subst width height
      exact ⟨stage.of_preview (PreviewPc.move_of_next drawn) buffers fits applied stepped draws,
        delivered_of_preview (PreviewPc.move_of_next drawn) stage rfl rfl delivered applied draws⟩
  | encoder drawn =>
      have draws := EncoderPc.draws_of_next drawn
      subst width height
      exact ⟨stage.of_encoder (EncoderPc.move_of_next drawn) buffers fits applied stepped draws,
        delivered_of_encoder (EncoderPc.move_of_next drawn) stage rfl rfl delivered applied draws⟩
  | requeued =>
      refine ⟨?_, unmoved applied delivered⟩
      have descriptor := Camera.mFD_of_apply (World.camera_of_step stepped) rfl
      have memory := (Option.some.inj applied).symm
      have mapped := (stage.mapped (by decide)).of_same (by rw [memory]) descriptor
      refine ⟨fun _ => mapped, ?_, fun _ _ => trivial, ?_⟩
      · rintro ⟨⟩
      · rintro ⟨⟩
  | attached | isOpen | raisePeek | enterLoop | leaveLoop | fdSet | select | stopped | lowerPeek
  | notifyFirst =>
      refine ⟨?_, unmoved applied delivered⟩
      obtain ⟨descriptor, current⟩ := fields_of_step rfl stepped
      exact stage.of_unmoved descriptor (fun _ => current) (Option.some.inj applied).symm rfl
        (fun _ _ _ _ => trivial) id
  | detached | notOpen | requeueFailed | notifyStop | closeFd | clearFd | notifyError =>
      exact ⟨of_ended rfl, unmoved applied delivered⟩

end Stages

/-! ## Runs of a session -/

/-- What `openCamera` leaves for `startCapture` on `thread`: the session has begun, the
entries of `mBufferArray` point to its buffers, and nothing has been logged. -/
structure Begun (thread : ThreadId) (pipeline : Pipeline) : Prop where
  opened : World.Opened pipeline.world thread
  mapped : Mapped pipeline
  fits : ∀ scratch, pipeline.world.camera.allocated scratch = true →
    scratch.Fits pipeline.world.camera.mWidth pipeline.world.camera.mHeight
  frames : pipeline.memory.frames = []
  previews : pipeline.memory.previews = []
  posts : pipeline.memory.posts = []

/-- What holds in every state of a session whose failing dequeues report `EAGAIN`. -/
structure Delivery (signedChar : Bool) (mWidth mHeight : Int) (thread : ThreadId)
    (pipeline : Pipeline) : Prop where
  session : World.Session thread pipeline.world
  width : pipeline.world.camera.mWidth = mWidth
  height : pipeline.world.camera.mHeight = mHeight
  fits : ∀ scratch, pipeline.world.camera.allocated scratch = true →
    scratch.Fits mWidth mHeight
  stage : ∀ first pc, pipeline.world.threads thread = .capturing first pc →
    Stage signedChar thread pipeline pc
  delivered : Delivered signedChar mWidth mHeight pipeline.memory

section Runs

variable {signedChar : Bool} {mWidth mHeight : Int} {thread mover : ThreadId}
  {pipeline next : Pipeline} {action : Action} {handed : Handed}

theorem Begun.delivery (begun : Begun thread pipeline) :
    Delivery signedChar pipeline.world.camera.mWidth pipeline.world.camera.mHeight thread
      pipeline where
  session := begun.opened.session
  width := rfl
  height := rfl
  fits := begun.fits
  stage first pc capture := by
    rw [begun.opened.capture] at capture
    cases capture
    refine ⟨fun _ => begun.mapped, ?_, fun _ _ => trivial, ?_⟩
    · rintro ⟨⟩
    · rintro ⟨⟩
  delivered := by
    constructor
    · simp [begun.previews]
    · simp [begun.previews]
    · simp [begun.posts]
    · simp [begun.posts]

namespace Delivery

theorem buffers (delivery : Delivery signedChar mWidth mHeight thread pipeline)
    {first : Bool} {pc : CapturePc}
    (capture : pipeline.world.threads thread = .capturing first pc) :
    World.Buffers pipeline.world pc.phase := by
  rcases delivery.session.own with ⟨_, _, same, buffers⟩ | stands
  · rw [capture] at same
    cases same
    exact buffers
  · rw [capture] at stands
    cases stands

/-- The driver writes into none of the buffers the application reads. -/
theorem fill {fd : Int} {index : Nat} {frame : Frame}
    (delivery : Delivery signedChar mWidth mHeight thread pipeline)
    (owned : (fd, index) ∈ pipeline.world.device.driverOwned) :
    Delivery signedChar mWidth mHeight thread
      { pipeline with memory := pipeline.memory.fill fd index frame } where
  session := delivery.session
  width := delivery.width
  height := delivery.height
  fits := delivery.fits
  stage first pc capture := by
    have stage := delivery.stage first pc capture
    refine ⟨stage.mapped, fun holding => ?_, ?_, stage.pending⟩
    · have buffers := delivery.buffers capture
      rw [holding] at buffers
      have elsewhere : (pipeline.world.camera.mFD, pipeline.world.camera.mCurBufInfo) ≠
          (fd, index) := by
        intro same
        rw [← same] at owned
        exact buffers.owned_of_holding.2 owned
      refine (stage.latest holding).trans ?_
      simp only [held, Memory.fill, if_neg elsewhere]
    · intro frame latest
      have made := stage.made frame latest
      cases pc with
      | preview pc => cases pc <;> exact made
      | encoder pc => cases pc <;> exact made
      | _ => trivial
  delivered := delivery.delivered.of_same rfl rfl rfl

theorem fits_of_step (delivery : Delivery signedChar mWidth mHeight thread pipeline)
    (applied : pipeline.memory.apply signedChar pipeline.world.camera mover handed action =
      some next.memory)
    (stepped : pipeline.world.step (mover, action) = some next.world) (scratch : Scratch)
    (allocated : next.world.camera.allocated scratch = true) :
    scratch.Fits mWidth mHeight := by
  rw [← delivery.width, ← delivery.height]
  refine Memory.fits_of_apply ?_ applied (World.camera_of_step stepped) allocated
  rw [delivery.width, delivery.height]
  exact delivery.fits scratch

/-- A step of a bystander leaves memory and the buffers alone. -/
theorem of_bystander (delivery : Delivery signedChar mWidth mHeight thread pipeline)
    (call : World.SessionCall (mover, action))
    (stands : (pipeline.world.threads mover).bystander = true)
    (applied : pipeline.memory.apply signedChar pipeline.world.camera mover handed action =
      some next.memory)
    (stepped : pipeline.world.step (mover, action) = some next.world) :
    Delivery signedChar mWidth mHeight thread next := by
  obtain ⟨still, stood, unmoved⟩ := World.bystander_of_step stands call stepped
  have memory := Memory.eq_of_bystander stood applied
  have keeps := Action.keepsBuffers_of_bystander stood
  obtain ⟨descriptor, current⟩ := fields_of_step keeps stepped
  obtain ⟨width, height⟩ := Camera.size_of_apply (World.camera_of_step stepped)
  refine ⟨(delivery.session.step_bystander call stands stepped).1, width.trans delivery.width,
    height.trans delivery.height, delivery.fits_of_step applied stepped, ?_,
    memory ▸ delivery.delivered⟩
  intro first pc capture
  have distinct : thread ≠ mover := by
    rintro rfl
    rw [capture] at still
    cases still
  rw [unmoved thread distinct] at capture
  have stage := delivery.stage first pc capture
  refine ⟨fun goesOn => (stage.mapped goesOn).of_same (by rw [memory]) descriptor,
    fun holding => ?_, ?_, ?_⟩
  · rw [held, memory, descriptor, current]
    exact stage.latest holding
  · rw [memory, width, height]
    exact stage.made
  · rw [memory]
    exact stage.pending

theorem of_capture {first : Bool} {pc : CapturePc}
    (delivery : Delivery signedChar mWidth mHeight thread pipeline)
    (capture : pipeline.world.threads thread = .capturing first pc)
    (call : World.SessionCall (thread, action)) (onlyEagain : World.OnlyEagain (thread, action))
    (applied : pipeline.memory.apply signedChar pipeline.world.camera thread handed action =
      some next.memory)
    (stepped : pipeline.world.step (thread, action) = some next.world) :
    Delivery signedChar mWidth mHeight thread next := by
  have buffers := delivery.buffers capture
  have stage := delivery.stage first pc capture
  obtain ⟨width, height⟩ := Camera.size_of_apply (World.camera_of_step stepped)
  have session := (delivery.session.step call onlyEagain stepped).1
  have move := World.move_of_step stepped
  rw [capture] at move
  generalize placed : next.world.threads thread = after at move
  cases move with
  | @capturing _ first' _ pc' _ inner =>
      obtain ⟨stage', delivered⟩ := stage.of_move inner buffers delivery.width delivery.height
        delivery.fits delivery.delivered onlyEagain applied stepped
      refine ⟨session, width.trans delivery.width, height.trans delivery.height,
        delivery.fits_of_step applied stepped, ?_, delivered⟩
      intro other otherPc same
      rw [placed] at same
      obtain ⟨-, rfl⟩ := Pc.afterCapture_eq_capturing same
      exact stage'

theorem step {event : PipelineEvent}
    (delivery : Delivery signedChar mWidth mHeight thread pipeline)
    (call : ∀ moved ∈ event.event, World.SessionCall moved ∧ World.OnlyEagain moved)
    (stepped : pipeline.step signedChar event = some next) :
    Delivery signedChar mWidth mHeight thread next := by
  cases event with
  | fill fd index frame =>
      obtain ⟨owned, rfl⟩ := of_fill stepped
      exact delivery.fill owned
  | act event handed =>
      obtain ⟨mover, action⟩ := event
      obtain ⟨applied, moved⟩ := of_act stepped
      obtain ⟨session, onlyEagain⟩ := call (mover, action) rfl
      by_cases own : mover = thread
      · subst own
        rcases delivery.session.own with ⟨first, pc, capture, -⟩ | stands
        · exact delivery.of_capture capture session onlyEagain applied moved
        · exact delivery.of_bystander session stands applied moved
      · exact delivery.of_bystander session (delivery.session.others mover own) applied moved

end Delivery

end Runs

end Pipeline

end UsbCamera
