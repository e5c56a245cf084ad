import UsbCamera.UserThread

/-!
# Who owns the capture buffers

A successful `VIDIOC_DQBUF` hands one buffer to the application and a successful
`VIDIOC_QBUF` hands it back.  `startCapture` relies on this alternation: what it
draws and requeues is `mCurBufInfo.index`, and the loop starts each iteration owning
nothing.  The alternation holds as long as every failing `VIDIOC_DQBUF` takes the
error exit, which the switch over `errno` does for `EAGAIN` alone.
-/

namespace UsbCamera

/-- The action leaves the descriptor, the current index and the driver's queue as
they are. -/
def Action.keepsBuffers : Action → Bool
  | .openDev _ | .closeFd _ | .clearFd | .deleteCamera _ | .clearBufInfo
  | .dequeueBuf _ _ | .requeueBuf _ _ _ | .ioctl _ _ _ => false
  | _ => true

theorem Action.keepsFd_of_keepsBuffers {action : Action} (keeps : action.keepsBuffers = true) :
    action.keepsFd = true := by
  cases action <;> first | rfl | cases keeps

theorem Action.keepsBuffers_of_bystander {action : Action}
    (stands : action.ofBystander = true) : action.keepsBuffers = true := by
  cases action <;> first | rfl | cases stands

theorem Action.keepsBuffers_of_draws {action : Action} (draws : action.draws = true) :
    action.keepsBuffers = true := by
  cases action <;> first | rfl | cases draws

/-- The `errno` of a failing `VIDIOC_DQBUF`. -/
def Action.dequeueError : Action → Option Errno
  | .dequeueBuf _ (.failed errno) => some errno
  | _ => none

theorem Device.driverOwned_of_apply {device device' : Device} {action : Action}
    (keeps : action.keepsBuffers = true) (applied : device.apply action = some device') :
    device'.driverOwned = device.driverOwned := by
  unfold Device.apply at applied
  split at applied
  case h_6 => cases applied; rfl
  case h_8 => cases applied; rfl
  all_goals cases keeps

/-! ## The phases of an iteration -/

/-- `queued`: the application owns nothing; `holding`: it owns the buffer in
`mCurBufInfo`; `ended`: on the error exit. -/
inductive Phase
  | queued
  | holding
  | ended
  deriving DecidableEq

namespace CapturePc

def phase : CapturePc → Phase
  | .getCamera | .checkFd | .raisePeek | .loopTest | .fdSet | .select | .recheck _ _
  | .clearBufInfo | .dequeueBuf | .lowerPeek | .notifyStop => .queued
  | .notifyFirst | .preview _ | .encoder _ | .requeueBuf => .holding
  | .closeFd | .clearFd | .notifyError | .returned => .ended

theorem phase_afterSelect (result : Int) (errno : Errno) :
    (afterSelect result errno).phase = .queued ∨ (afterSelect result errno).phase = .ended := by
  unfold afterSelect
  split_ifs
  · exact Or.inl rfl
  · exact Or.inr rfl
  · exact Or.inr rfl
  · exact Or.inl rfl

@[simp]
theorem phase_afterDequeue_filled (first : Bool) (index : Nat) :
    (afterDequeue first (.filled index)).phase = .holding := by
  cases first <;> rfl

@[simp]
theorem afterDequeue_eagain (first : Bool) : afterDequeue first (.failed eagain) = .closeFd :=
  rfl

end CapturePc

namespace World

/-! ## A capture session -/

/-- The application owns the buffer: it is one of the four and the driver does not
have it. -/
def AppOwned (world : World) (index : Nat) : Prop :=
  index < bufferNR ∧ (world.camera.mFD, index) ∉ world.device.driverOwned

/-- What the buffers look like in each phase of an iteration. -/
def Buffers (world : World) : Phase → Prop
  | .queued => ∀ index,
      (world.camera.mFD, index) ∈ world.device.driverOwned ↔ index < bufferNR
  | .holding => world.camera.mCurBufInfo < bufferNR ∧ ∀ index,
      (world.camera.mFD, index) ∈ world.device.driverOwned ↔
        index < bufferNR ∧ index ≠ world.camera.mCurBufInfo
  | .ended => True

/-- What a step of a capture session must respect. -/
def BufferSafe (world : World) (event : Event) : Prop :=
  match event.2 with
  | .convert _ index | .requeueBuf _ index _ => AppOwned world index
  | .loopTest _ | .notify .captureStop => ∀ index, ¬ AppOwned world index
  | _ => True

/-- The state `openCamera` leaves for `startCapture` on `thread`: every buffer is
queued, and nobody else opens, captures or releases. -/
structure Opened (world : World) (thread : ThreadId) : Prop where
  capture : world.threads thread = .capturing true .getCamera
  others : ∀ other, other ≠ thread → (world.threads other).bystander = true
  queued : Buffers world .queued

/-- During the session other threads may stop the capture and change the
surfaces. -/
def SessionCall (event : Event) : Prop :=
  ∀ entry ∈ event.2.method, entry ≠ .start ∧ entry ≠ .release

instance (event : Event) : Decidable (SessionCall event) :=
  inferInstanceAs (Decidable (∀ entry ∈ event.2.method, _))

/-- Every failing `VIDIOC_DQBUF` reports `EAGAIN`. -/
def OnlyEagain (event : Event) : Prop :=
  ∀ errno ∈ event.2.dequeueError, errno = eagain

instance (event : Event) : Decidable (OnlyEagain event) :=
  inferInstanceAs (Decidable (∀ errno ∈ event.2.dequeueError, _))

section Phases

variable {world next : World} {thread : ThreadId} {action : Action}
  {first first' : Bool} {pc pc' : CapturePc}

theorem Buffers.owned_of_holding (buffers : Buffers world .holding) :
    AppOwned world world.camera.mCurBufInfo := by
  refine ⟨buffers.1, ?_⟩
  rw [buffers.2]
  exact fun owned => owned.2 rfl

theorem Buffers.none_of_queued (buffers : Buffers world .queued) (index : Nat) :
    ¬ AppOwned world index := by
  rintro ⟨inRange, notQueued⟩
  exact notQueued ((buffers index).mpr inRange)

theorem Buffers.of_keeps {phase : Phase} (keeps : action.keepsBuffers = true)
    (stepped : world.step (thread, action) = some next) (buffers : Buffers world phase) :
    Buffers next phase := by
  have descriptor : next.camera.mFD = world.camera.mFD :=
    Camera.mFD_of_apply (camera_of_step stepped) (Action.keepsFd_of_keepsBuffers keeps)
  have current : next.camera.mCurBufInfo = world.camera.mCurBufInfo := by
    apply Camera.mCurBufInfo_of_apply (camera_of_step stepped)
    · rintro rfl
      cases keeps
    · rintro fd result rfl
      cases keeps
  have queue := Device.driverOwned_of_apply keeps (device_of_step stepped)
  cases phase with
  | queued => simpa [Buffers, descriptor, queue] using buffers
  | holding => simpa [Buffers, descriptor, current, queue] using buffers
  | ended => trivial

/-- A successful `VIDIOC_DQBUF` hands over the buffer it names. -/
theorem Buffers.of_filled {fd : Int} {index : Nat} (buffers : Buffers world .queued)
    (stepped : world.step (thread, .dequeueBuf fd (.filled index)) = some next) :
    Buffers next .holding := by
  obtain ⟨rfl, descriptor, current⟩ := Camera.of_dequeueBuf (camera_of_step stepped)
  obtain ⟨queued, taken⟩ := Device.of_filled (device_of_step stepped)
  have inRange : index < bufferNR := (buffers index).mp queued
  simp only [Buffers, descriptor, current index rfl, taken]
  refine ⟨inRange, fun position => ?_⟩
  rw [Device.mem_dequeue, buffers position]
  simp

/-- A successful `VIDIOC_QBUF` hands the current buffer back. -/
theorem Buffers.of_requeued {fd : Int} {index : Nat} (buffers : Buffers world .holding)
    (stepped : world.step (thread, .requeueBuf fd index true) = some next) :
    Buffers next .queued := by
  obtain ⟨rfl, rfl, same⟩ := Camera.of_requeueBuf (camera_of_step stepped)
  have kernel : next.device = world.device.enqueue world.camera.mFD world.camera.mCurBufInfo :=
    (Option.some.inj (device_of_step stepped)).symm
  intro position
  rw [same, kernel, Device.mem_enqueue, buffers.2 position]
  have inRange := buffers.1
  by_cases current : position = world.camera.mCurBufInfo
  · simp [current, inRange]
  · simp [current]

theorem Buffers.of_clearBufInfo (buffers : Buffers world .queued)
    (stepped : world.step (thread, .clearBufInfo) = some next) : Buffers next .queued := by
  have descriptor : next.camera.mFD = world.camera.mFD :=
    Camera.mFD_of_apply (camera_of_step stepped) rfl
  have kernel : next.device = world.device := (Option.some.inj (device_of_step stepped)).symm
  simpa [Buffers, descriptor, kernel] using buffers

/-- One step of the capture program keeps the buffers as its phase says, provided a
failing `VIDIOC_DQBUF` reports `EAGAIN`. -/
theorem Buffers.of_move (move : CapturePc.Move first pc action first' pc')
    (buffers : Buffers world pc.phase) (onlyEagain : OnlyEagain (thread, action))
    (stepped : world.step (thread, action) = some next) : Buffers next pc'.phase := by
  cases move with
  | @stillRunning result errno =>
      rcases CapturePc.phase_afterSelect result errno with queued | ended
      · rw [queued]
        exact buffers.of_keeps rfl stepped
      · rw [ended]
        trivial
  | clearBufInfo => exact buffers.of_clearBufInfo stepped
  | @dequeueBuf fd result =>
      cases result with
      | filled index =>
          rw [CapturePc.phase_afterDequeue_filled]
          exact buffers.of_filled stepped
      | failed errno =>
          rw [onlyEagain errno rfl]
          trivial
  | preview drawn =>
      have kept := buffers.of_keeps
        (Action.keepsBuffers_of_draws (PreviewPc.draws_of_next drawn)) stepped
      split <;> exact kept
  | encoder drawn =>
      have kept := buffers.of_keeps
        (Action.keepsBuffers_of_draws (EncoderPc.draws_of_next drawn)) stepped
      split <;> exact kept
  | requeued => exact buffers.of_requeued stepped
  | attached | isOpen | raisePeek | enterLoop | leaveLoop | fdSet | select | stopped
  | notifyFirst | lowerPeek => exact buffers.of_keeps rfl stepped
  | detached | notOpen | requeueFailed | notifyStop | closeFd | clearFd | notifyError =>
      trivial

/-- What the phases guarantee of the next step of the capture program. -/
theorem Buffers.safe (move : CapturePc.Move first pc action first' pc')
    (buffers : Buffers world pc.phase) (stepped : world.step (thread, action) = some next) :
    BufferSafe world (thread, action) := by
  cases move with
  | enterLoop | leaveLoop | notifyStop => exact buffers.none_of_queued
  | requeued | requeueFailed =>
      obtain ⟨-, rfl, -⟩ := Camera.of_requeueBuf (camera_of_step stepped)
      exact buffers.owned_of_holding
  | preview drawn | encoder drawn =>
      cases action with
      | convert scratch index =>
          rw [BufferSafe, Camera.of_convert (camera_of_step stepped)]
          exact buffers.owned_of_holding
      | requeueBuf | loopTest | notify =>
          first
          | cases PreviewPc.draws_of_next drawn
          | cases EncoderPc.draws_of_next drawn
      | _ => trivial
  | _ => trivial

end Phases

/-! ## Runs of a session -/

/-- What holds in every world of a session whose failing dequeues report `EAGAIN`:
the capture thread has its buffers as its phase says, or has returned. -/
structure Session (thread : ThreadId) (world : World) : Prop where
  own : (∃ first pc, world.threads thread = .capturing first pc ∧ Buffers world pc.phase) ∨
    (world.threads thread).bystander = true
  others : ∀ other, other ≠ thread → (world.threads other).bystander = true

theorem Opened.session {world : World} {thread : ThreadId} (opened : Opened world thread) :
    Session thread world :=
  ⟨Or.inl ⟨true, .getCamera, opened.capture, opened.queued⟩, opened.others⟩

section Session

variable {world next : World} {thread mover : ThreadId} {action : Action}

theorem Session.step_bystander (session : Session thread world)
    (call : SessionCall (mover, action))
    (stands : (world.threads mover).bystander = true)
    (stepped : world.step (mover, action) = some next) :
    Session thread next ∧ BufferSafe world (mover, action) := by
  obtain ⟨still, stood, unmoved⟩ := bystander_of_step stands call stepped
  have keeps := Action.keepsBuffers_of_bystander stood
  refine ⟨⟨?_, ?_⟩, ?_⟩
  · by_cases own : thread = mover
    · exact Or.inr (own ▸ still)
    · rw [unmoved thread own]
      rcases session.own with ⟨first, pc, capture, buffers⟩ | stood
      · exact Or.inl ⟨first, pc, capture, buffers.of_keeps keeps stepped⟩
      · exact Or.inr stood
  · intro other distinct
    by_cases moves : other = mover
    · rw [moves]
      exact still
    · rw [unmoved other moves]
      exact session.others other distinct
  · cases action <;> trivial

theorem Session.step_capture {first : Bool} {pc : CapturePc}
    (session : Session thread world)
    (capture : world.threads thread = .capturing first pc) (buffers : Buffers world pc.phase)
    (onlyEagain : OnlyEagain (thread, action))
    (stepped : world.step (thread, action) = some next) :
    Session thread next ∧ BufferSafe world (thread, action) := by
  have move := move_of_step stepped
  rw [capture] at move
  generalize placed : next.threads thread = after at move
  cases move with
  | @capturing _ first' _ pc' _ inner =>
      have kept := buffers.of_move inner onlyEagain stepped
      refine ⟨⟨?_, ?_⟩, buffers.safe inner stepped⟩
      · rw [placed]
        cases pc' with
        | returned => exact Or.inr rfl
        | _ => exact Or.inl ⟨first', _, rfl, kept⟩
      · intro other distinct
        rcases other_of_step stepped distinct with same | ⟨rfl, -, -⟩
        · rw [same]
          exact session.others other distinct
        · rcases inner.own_or_draws with own | draws
          · cases own
          · cases draws

theorem Session.step (session : Session thread world) (call : SessionCall (mover, action))
    (onlyEagain : OnlyEagain (mover, action))
    (stepped : world.step (mover, action) = some next) :
    Session thread next ∧ BufferSafe world (mover, action) := by
  by_cases own : mover = thread
  · subst own
    rcases session.own with ⟨first, pc, capture, buffers⟩ | stands
    · exact session.step_capture capture buffers onlyEagain stepped
    · exact session.step_bystander call stands stepped
  · exact session.step_bystander call (session.others mover own) stepped

end Session

/-- In a session in which every failing `VIDIOC_DQBUF` reports `EAGAIN`, every draw
reads and every `VIDIOC_QBUF` returns a buffer the application owns, and it owns
none when the loop condition is evaluated or the stop is notified. -/
theorem bufferSafe_of_onlyEagain {world final : World} {thread : ThreadId}
    {events : List Event} (opened : Opened world thread)
    (ran : run world events = some final) (calls : ∀ event ∈ events, SessionCall event)
    (onlyEagain : ∀ event ∈ events, OnlyEagain event) :
    EveryStep BufferSafe world events := by
  have conditions : EveryStep (fun _ event => SessionCall event ∧ OnlyEagain event)
      world events :=
    LabelledRun.everyStep_of_forall_mem fun event member =>
      ⟨calls event member, onlyEagain event member⟩
  refine LabelledRun.everyStep_of_invariant ?_ ?_ opened.session conditions ran
  · rintro before ⟨mover, action⟩ next session conditions stepped
    exact (session.step conditions.1 conditions.2 stepped).1
  · rintro before ⟨mover, action⟩ next session conditions stepped
    exact (session.step conditions.1 conditions.2 stepped).2

/-! ## Two sessions -/

instance (world : World) (index : Nat) : Decidable (AppOwned world index) :=
  inferInstanceAs (Decidable (_ ∧ _))

/-- Only the four buffers need to be looked at. -/
instance (world : World) : Decidable (∀ index, ¬ AppOwned world index) :=
  decidable_of_iff (∀ index < bufferNR, ¬ AppOwned world index)
    ⟨fun none index owned => none index owned.1 owned, fun none index _ => none index⟩

instance (world : World) (event : Event) : Decidable (BufferSafe world event) := by
  unfold BufferSafe
  split <;> infer_instance

/-- What the user thread's `start()` leaves. -/
theorem exists_opened : ∃ world,
    run (attached 640 480) (startEvents 5 1) = some world ∧ Opened world 1 := by
  obtain ⟨world, ran⟩ := Option.isSome_iff_exists.mp
    (by decide : (run (attached 640 480) (startEvents 5 1)).isSome = true)
  obtain ⟨capture, user, descriptor, queue⟩ := (by decide :
    ∀ world ∈ run (attached 640 480) (startEvents 5 1),
      world.threads 1 = .capturing true .getCamera ∧ world.threads 0 = .idle ∧
        world.camera.mFD = 5 ∧
        world.device.driverOwned = [(5, 3), (5, 2), (5, 1), (5, 0)]) world ran
  have confined : Confined [0, 1] world := (confined_attached 640 480).of_run
    (by decide : ∀ event ∈ startEvents 5 1, Within [0, 1] event) ran
  refine ⟨world, ran, capture, ?_, ?_⟩
  · intro other distinct
    by_cases isUser : other = 0
    · rw [isUser, user]
      rfl
    · rw [confined other (by simp [isUser, distinct])]
      rfl
  · intro index
    rw [descriptor, queue]
    simp [bufferNR]
    omega

/-- The capture thread from its creation to the dequeue, which answers `result`. -/
def captureToDequeueEvents (fd : Int) (thread : ThreadId) (result : DequeueResult) :
    List Event :=
  captureToSelectEvents fd thread ++
    [(thread, .recheck true), (thread, .clearBufInfo), (thread, .dequeueBuf fd result),
      (thread, .notify .firstCapture)]

/-- The user thread sets the preview surface. -/
def setPreviewEvents (surface : Surface) : List Event :=
  [.call (.setPreview (some surface)), .getCamera true, .surfaceValid true, .lock .previewLock,
    .writePreview (some surface), .unlock .previewLock].map fun action => (userThread, action)

/-- `drawPreviewSurface` up to the conversion of buffer `index`. -/
def previewToConvertEvents (thread : ThreadId) (surface : Surface) (index : Nat) : List Event :=
  [.readPreview (some surface), .lock .previewLock, .readPreview (some surface),
    .allocScratch .yuv420sp, .convert .yuv420sp index].map fun action => (thread, action)

/-- One previewed frame, then a stop. -/
def previewedFrameEvents : List Event :=
  setPreviewEvents 7 ++ captureToDequeueEvents 5 1 (.filled 2) ++ previewToConvertEvents 1 7 2 ++
    [.window (some 7) .configure, .window (some 7) (.dequeue true),
      .window (some 7) (.lockBuffer true), .copyScratch .yuv420sp,
      .window (some 7) (.unlockBuffer true), .window (some 7) (.queue true),
      .unlock .previewLock, .lock .encoderLock, .encodersEmpty true, .unlock .encoderLock,
      .freeScratch .rgba8888, .requeueBuf 5 2 true].map (fun action => (1, action)) ++
    stopCallEvents ++ [(userThread, .writePeek false), (1, .loopTest false),
      (1, .writePeek false), (1, .notify .captureStop)]

theorem bufferSafe_previewedFrame :
    ∃ world, run (attached 640 480) (startEvents 5 1) = some world ∧
      EveryStep BufferSafe world previewedFrameEvents := by
  obtain ⟨world, started, opened⟩ := exists_opened
  obtain ⟨final, ran⟩ := Option.isSome_iff_exists.mp
    ((by decide : ∀ world ∈ run (attached 640 480) (startEvents 5 1),
      (run world previewedFrameEvents).isSome = true) world started)
  exact ⟨world, started,
    bufferSafe_of_onlyEagain opened ran (by decide) (by decide)⟩

/-- When the dequeue fails with `EIO` nothing has been handed over, and the preview
draws buffer 0 nevertheless. -/
theorem not_bufferSafe :
    ¬ ∀ (world final : World) (thread : ThreadId) (events : List Event),
      Opened world thread → run world events = some final →
      (∀ event ∈ events, SessionCall event) → EveryStep BufferSafe world events := by
  intro always
  let events := setPreviewEvents 7 ++ captureToDequeueEvents 5 1 (.failed eio) ++
    previewToConvertEvents 1 7 0
  obtain ⟨world, started, opened⟩ := exists_opened
  obtain ⟨ran, unsafeDraw⟩ := (by decide :
    ∀ world ∈ run (attached 640 480) (startEvents 5 1),
      (run world events).isSome = true ∧ ¬ EveryStep BufferSafe world events) world started
  obtain ⟨final, ran⟩ := Option.isSome_iff_exists.mp ran
  exact unsafeDraw (always world final 1 events opened ran (by decide))

end World

end UsbCamera
