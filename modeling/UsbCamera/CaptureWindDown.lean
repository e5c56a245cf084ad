import UsbCamera.NotificationProtocol
import UsbCamera.ObjectLifetime
import UsbCamera.PreviewWindow
import UsbCamera.ProgramProgress

/-!
# How long a stopped capture goes on

Once `mPeekRun` is down and nobody is left to raise it, the capture thread has only so many
statements before it returns: those of the frame it may have begun, four for each encoder
surface of that frame, and the way out of the loop.  Until then it can execute the next one,
waits for a mutex whose owner can, or is about to notify Java.  A notification is one statement
here; when it returns is up to `mClientLock` and the clients.
-/

namespace UsbCamera

/-! ## The statements that are left -/

/-- At most so many statements of `drawPreviewSurface` are left. -/
def PreviewPc.left : PreviewPc → Nat
  | .takeWindow => 12
  | .lock _ => 11
  | .testSurface _ => 10
  | .allocScratch _ => 9
  | .convert _ => 8
  | .configure _ => 7
  | .dequeue _ => 6
  | .lockBuffer _ => 5
  | .copy _ _ => 4
  | .unlockBuffer _ => 3
  | .queue _ | .freeScratch => 2
  | .unlockQueued | .unlockFailed | .unlockEmpty => 1
  | .returned => 0

theorem PreviewPc.Move.left_lt {pc after : PreviewPc} {action : Action}
    (move : Move pc action after) : after.left < pc.left := by
  cases move <;> simp only [left] <;> omega

/-- At most so many of `drawEncoderSurface`, with `count` surfaces in the list. -/
def EncoderPc.left (count : Nat) : EncoderPc → Nat
  | .lock => 4 * count + 6
  | .testEmpty => 4 * count + 5
  | .allocScratch => 4 * count + 4
  | .convert => 4 * count + 3
  | .iterate position => 4 * (count - position) + 2
  | .lockWindow position _ => 4 * (count - (position + 1)) + 5
  | .copy position _ => 4 * (count - (position + 1)) + 4
  | .post position _ => 4 * (count - (position + 1)) + 3
  | .unlockEmpty => 2
  | .unlock | .freeScratch => 1
  | .returned => 0

/-- The list has no surface behind its end. -/
def Action.Within (count : Nat) : Action → Prop
  | .encoderAt position (some _) => position < count
  | _ => True

theorem EncoderPc.Move.left_lt {count : Nat} {pc after : EncoderPc} {action : Action}
    (move : Move pc action after) (within : action.Within count) :
    after.left count < pc.left count := by
  cases move with
  | @surface position window =>
      have inside : position < count := within
      simp only [left]
      omega
  | _ =>
      simp only [left]
      omega

/-- At most so many of `startCapture`, when `mPeekRun` is down. -/
def CapturePc.left (count : Nat) : CapturePc → Nat
  | .clearBufInfo => 4 * count + 25
  | .dequeueBuf => 4 * count + 24
  | .notifyFirst => 4 * count + 23
  | .preview pc => pc.left + (4 * count + 10)
  | .encoder pc => pc.left count + 4
  | .fdSet => 5
  | .requeueBuf | .select => 4
  | .recheck _ _ | .loopTest | .closeFd => 3
  | .lowerPeek | .clearFd => 2
  | .notifyStop | .notifyError => 1
  | .getCamera | .checkFd | .raisePeek | .returned => 0

theorem CapturePc.left_le (count : Nat) {pc : CapturePc} : pc.left count ≤ 4 * count + 25 := by
  cases pc with
  | preview pc => cases pc <;> simp only [left, PreviewPc.left] <;> omega
  | encoder pc => cases pc <;> simp only [left, EncoderPc.left] <;> omega
  | _ =>
      simp only [left]
      omega

/-- Every statement of a capture that has been stopped leaves fewer of them. -/
theorem CapturePc.Move.left_lt {count : Nat} {first first' : Bool} {pc pc' : CapturePc}
    {action : Action} (move : Move first pc action first' pc') (late : pc.early = false)
    (stopped : action ≠ .loopTest true ∧ action ≠ .recheck true)
    (within : action.Within count) : pc'.left count < pc.left count := by
  cases move with
  | attached | detached | notOpen | isOpen | raisePeek => cases late
  | enterLoop => exact absurd rfl stopped.1
  | stillRunning => exact absurd rfl stopped.2
  | @dequeueBuf fd result =>
      cases result <;> simp only [afterDequeue] <;> split_ifs <;>
        simp only [left, PreviewPc.left] <;> omega
  | preview drawn =>
      have fewer := (PreviewPc.move_of_next drawn).left_lt
      split_ifs
      · simp only [left, EncoderPc.left]
        omega
      · simp only [left]
        omega
  | encoder drawn =>
      have fewer := (EncoderPc.move_of_next drawn).left_lt within
      split_ifs
      · simp only [left]
        omega
      · simp only [left]
        omega
  | _ =>
      simp only [left, PreviewPc.left]
      omega

/-- The action is neither a notification, which waits for `mClientLock` and runs the callbacks,
nor a call on a `NULL` window, which the code does not survive. -/
def Action.completes : Action → Bool
  | .notify _ | .window none _ => false
  | _ => true

namespace World

/-- The steps a thread takes itself. -/
def ownSteps (thread : ThreadId) (events : List Event) : Nat :=
  events.countP fun event => event.1 = thread

@[simp]
theorem ownSteps_nil (thread : ThreadId) : ownSteps thread [] = 0 :=
  rfl

theorem ownSteps_cons (thread : ThreadId) (event : Event) (events : List Event) :
    ownSteps thread (event :: events) =
      ownSteps thread events + if event.1 = thread then 1 else 0 := by
  simp [ownSteps, List.countP_cons]

/-- At most so many statements of the capture are left. -/
def left (count : Nat) (world : World) (thread : ThreadId) : Nat :=
  match world.threads thread with
  | .capturing _ pc => pc.left count
  | _ => 0

/-- The list of encoder surfaces has no more entries than that. -/
def AtMost (count : Nat) (world : World) : Prop :=
  world.camera.mEncoderSurfaces.length ≤ count

instance (count : Nat) (world : World) : Decidable (AtMost count world) :=
  inferInstanceAs (Decidable (_ ≤ _))

section WindDown

variable {world next final : World} {thread mover : ThreadId} {action : Action} {count : Nat}
  {events : List Event}

theorem within_of_step (few : AtMost count world)
    (stepped : world.step (mover, action) = some next) : action.Within count := by
  have fields := camera_of_step stepped
  cases action with
  | encoderAt position surface =>
      cases surface with
      | none => trivial
      | some window =>
          simp only [Camera.apply] at fields
          obtain ⟨found, -⟩ := Option.ite_none_right_eq_some.mp fields
          obtain ⟨inside, -⟩ := List.getElem?_eq_some_iff.mp found.symm
          exact Nat.lt_of_lt_of_le inside few
  | _ => trivial

/-- Each of its own steps leaves the capture fewer, and a capture that has ended does not begin
again. -/
theorem WindsDown.left_of_step (winds : WindsDown thread world)
    (call : SessionCall (mover, action)) (few : AtMost count world)
    (stepped : world.step (mover, action) = some next)
    (goesOn : (next.threads thread).isCapturing = true) :
    (world.threads thread).isCapturing = true ∧
      left count next thread + (if mover = thread then 1 else 0) ≤ left count world thread := by
  by_cases own : mover = thread
  · subst own
    rcases winds.own with ⟨first, pc, capture⟩ | stands
    · refine ⟨by rw [capture]; rfl, ?_⟩
      have fields := camera_of_step stepped
      have late := winds.late
      have move := move_of_step stepped
      rw [capture] at move late
      generalize placed : next.threads mover = after at move goesOn
      cases move with
      | @capturing _ first' _ pc' _ inner =>
          have stopped : action ≠ .loopTest true ∧ action ≠ .recheck true := by
            constructor <;> rintro rfl <;> simp [Camera.apply, winds.lowered] at fields
          have notEarly : pc.early = false := late
          have fewer := inner.left_lt notEarly stopped (within_of_step few stepped)
          simp only [left, capture, placed, if_true]
          cases pc' <;> exact fewer
    · obtain ⟨still, -⟩ := bystander_of_step stands call stepped
      obtain ⟨first, pc, capture⟩ := Pc.eq_capturing goesOn
      rw [capture] at still
      cases still
  · obtain ⟨-, -, unmoved⟩ := bystander_of_step (winds.others mover own) call stepped
    have same := unmoved thread (Ne.symm own)
    refine ⟨same ▸ goesOn, ?_⟩
    simp [left, same, own]

/-- The steps it has taken, and those it has left. -/
theorem WindsDown.ownSteps_le (winds : WindsDown thread world)
    (calls : ∀ event ∈ events, SessionCall event)
    (few : EveryStep (fun state _ => AtMost count state) world events)
    (ran : run world events = some final)
    (goesOn : (final.threads thread).isCapturing = true) :
    (world.threads thread).isCapturing = true ∧
      ownSteps thread events + left count final thread ≤ left count world thread := by
  induction events generalizing world with
  | nil =>
      cases Option.some.inj ran
      exact ⟨goesOn, by simp⟩
  | cons event events ih =>
      obtain ⟨mover, action⟩ := event
      obtain ⟨next, stepped, onward⟩ := LabelledRun.run_cons_iff.mp ran
      rw [EveryStep, LabelledRun.everyStep_cons_iff] at few
      have call := calls (mover, action) (by simp)
      obtain ⟨capturing, rest⟩ := ih (winds.step call stepped).windsDown
        (fun other member => calls other (by simp [member])) (few.2 next stepped) onward
      obtain ⟨before, fewer⟩ := winds.left_of_step call few.1 stepped capturing
      refine ⟨before, ?_⟩
      simp only [ownSteps_cons]
      omega

theorem WindsDown.of_run (winds : WindsDown thread world)
    (calls : ∀ event ∈ events, SessionCall event) (ran : run world events = some final) :
    WindsDown thread final := by
  refine LabelledRun.invariant_of_run ?_ winds
    (LabelledRun.everyStep_of_forall_mem calls) ran
  rintro before ⟨mover, action⟩ after winds call stepped
  exact (winds.step call stepped).windsDown

end WindDown

/-! ## The next statement -/

/-- The thread can take a step. -/
def CanStep (world : World) (thread : ThreadId) : Prop :=
  ∃ action next, world.step (thread, action) = some next

/-- The thread can execute its next statement: the object is there, and the statement neither
notifies Java nor calls a `NULL` window nor copies to a pointer that was not set. -/
def Executes (world : World) (thread : ThreadId) : Prop :=
  world.alive = true ∧
    (∀ first window, world.threads thread ≠ .capturing first (.preview (.copy window false))) ∧
    ∃ action next, world.step (thread, action) = some next ∧ action.completes = true

/-- The thread calls one of the notify methods of `Camera.java` next. -/
def AboutToNotify (world : World) (thread : ThreadId) : Prop :=
  ∃ notification pc, (world.threads thread).next (.notify notification) = some pc

/-- Every thread is at work in its function, or outside the native code. -/
def AtWork (world : World) : Prop :=
  ∀ thread, (world.threads thread).hasReturned = false

section Progress

variable {world next final : World} {thread mover : ThreadId} {action : Action}
  {events : List Event}

theorem AtWork.step (atWork : AtWork world)
    (stepped : world.step (mover, action) = some next) : AtWork next := by
  intro other
  by_cases own : other = mover
  · rw [own]
    exact Pc.hasReturned_of_move (move_of_step stepped)
  · rcases other_of_step stepped own with same | ⟨-, -, begun⟩
    · rw [same]
      exact atWork other
    · rw [begun]
      rfl

theorem atWork_of_run {width height : Int}
    (ran : run (attached width height) events = some final) : AtWork final := by
  refine LabelledRun.invariant_of_run ?_ (fun thread => rfl)
    (LabelledRun.everyStep_of_forall_mem fun event _ => (trivial : True)) ran
  rintro before ⟨mover, action⟩ after atWork - stepped
  exact atWork.step stepped

/-- Unless it creates a thread, what its surroundings allow is a step. -/
theorem canStep_of_possible {pc : Pc} (moved : (world.threads thread).next action = some pc)
    (possible : Possible world.mNativeObject world.camera world.device thread action)
    (notSpawn : ∀ child, action ≠ .spawn child) : world.CanStep thread := by
  obtain ⟨attached, pointer⟩ := Option.isSome_iff_exists.mp possible.pointer
  obtain ⟨camera, fields⟩ := Option.isSome_iff_exists.mp possible.fields
  obtain ⟨device, kernel⟩ := Option.isSome_iff_exists.mp possible.kernel
  obtain ⟨next, stepped, -⟩ := exists_step world thread action moved pointer fields kernel notSpawn
  exact ⟨action, next, stepped⟩

/-- The thread takes a mutex next, or can step. -/
theorem AtWork.waits_or_steps (atWork : AtWork world) (thread : ThreadId)
    (notSpawning : world.threads thread ≠ .spawning) :
    (∃ mutex pc, (world.threads thread).next (.lock mutex) = some pc) ∨ world.CanStep thread := by
  have goesOn : GoesOn world.mNativeObject world.camera world.device thread
      (world.threads thread).next := Pc.goesOn (atWork thread)
  rcases goesOn with ⟨mutex, waits⟩ | ⟨action, moves, possible⟩
  · obtain ⟨pc, moved⟩ := Option.isSome_iff_exists.mp waits
    exact Or.inl ⟨mutex, pc, moved⟩
  · obtain ⟨pc, moved⟩ := Option.isSome_iff_exists.mp moves
    refine Or.inr (canStep_of_possible moved possible ?_)
    rintro child rfl
    exact notSpawning (Pc.spawning_of_move (Pc.move_of_next moved))

/-- A mutex is taken by a thread that holds none. -/
theorem holds_of_lock {mutex : Mutex} {pc : Pc}
    (moved : (world.threads thread).next (.lock mutex) = some pc) :
    (world.threads thread).holds = none := by
  have locking := Pc.lockStep_of_move (Pc.move_of_next moved)
  generalize (world.threads thread).holds = before at locking
  generalize pc.holds = after at locking
  cases locking with
  | lock => rfl
  | keep notLock => exact absurd rfl (notLock mutex)

/-- No notification is sent with a mutex held. -/
theorem holds_of_notify {notification : Notification} {pc : Pc}
    (moved : (world.threads thread).next (.notify notification) = some pc) :
    (world.threads thread).holds = none := by
  have move := Pc.move_of_next moved
  generalize world.threads thread = before at move
  cases move with
  | capturing inner =>
      cases inner with
      | preview drawn => cases PreviewPc.move_of_next drawn
      | encoder drawn => cases EncoderPc.move_of_next drawn
      | _ => rfl
  | opening inner => cases inner.own
  | surface inner => cases SurfacePc.own_of_next inner

/-- Every thread is at work, the object is there, and no draw has lost its window or the
buffer of that window. -/
structure Sound (world : World) : Prop where
  atWork : AtWork world
  lasts : Lasts world
  windows : WindowsCurrent world
  copies : CopiesLocked world

theorem Sound.executes_or_notifies (sound : Sound world) (canStep : world.CanStep thread) :
    world.Executes thread ∨ world.AboutToNotify thread := by
  obtain ⟨action, next, stepped⟩ := canStep
  cases action with
  | notify notification =>
      obtain ⟨pc, moved, -⟩ := step_eq_some_iff.mp stepped
      exact Or.inr ⟨notification, pc, moved⟩
  | window surface called =>
      cases surface with
      | none => exact absurd rfl (sound.windows.window_ne_none stepped)
      | some window => exact Or.inl ⟨sound.lasts.alive, sound.copies thread, _, next, stepped, rfl⟩
  | _ => exact Or.inl ⟨sound.lasts.alive, sound.copies thread, _, next, stepped, rfl⟩

/-- The owner of a mutex waits for nothing. -/
theorem Sound.executes_of_holder (sound : Sound world) {mutex : Mutex}
    (held : world.camera.holder mutex = some thread) : world.Executes thread := by
  have holds := (sound.windows.sections mutex thread).mp held
  have notSpawning : world.threads thread ≠ .spawning := by
    intro spawning
    rw [spawning] at holds
    cases holds
  rcases sound.atWork.waits_or_steps thread notSpawning with ⟨other, pc, moved⟩ | steps
  · rw [holds_of_lock moved] at holds
    cases holds
  · rcases sound.executes_or_notifies steps with executes | ⟨notification, pc, moved⟩
    · exact executes
    · rw [holds_of_notify moved] at holds
      cases holds

/-- A thread that captures executes its next statement, notifies Java, or waits for a mutex
whose owner can go on. -/
theorem Sound.goesOn (sound : Sound world)
    (capturing : (world.threads thread).isCapturing = true) :
    world.Executes thread ∨ world.AboutToNotify thread ∨
      ∃ mutex pc owner, (world.threads thread).next (.lock mutex) = some pc ∧
        world.camera.holder mutex = some owner ∧ owner ≠ thread ∧ world.Executes owner := by
  have notSpawning : world.threads thread ≠ .spawning := by
    intro spawning
    rw [spawning] at capturing
    cases capturing
  rcases sound.atWork.waits_or_steps thread notSpawning with ⟨mutex, pc, moved⟩ | steps
  · cases held : world.camera.holder mutex with
    | none =>
        have locked : world.camera.apply thread (.lock mutex) =
            some (world.camera.setHolder mutex (some thread)) := if_pos held
        have steps := canStep_of_possible moved (possible_of rfl locked rfl) (by simp)
        rcases sound.executes_or_notifies steps with executes | notifies
        · exact Or.inl executes
        · exact Or.inr (Or.inl notifies)
    | some owner =>
        refine Or.inr (Or.inr
          ⟨mutex, pc, owner, moved, held, ?_, sound.executes_of_holder held⟩)
        rintro rfl
        have holds := (sound.windows.sections mutex owner).mp held
        rw [holds_of_lock moved] at holds
        cases holds
  · rcases sound.executes_or_notifies steps with executes | notifies
    · exact Or.inl executes
    · exact Or.inr (Or.inl notifies)

theorem sound_of_run {width height : Int} (unreleased : ∀ event ∈ events, Unreleased event)
    (keeps : EveryStep KeepsWindow (attached width height) events)
    (locks : ∀ event ∈ events, event.2.locks = true)
    (ran : run (attached width height) events = some final) : Sound final :=
  ⟨atWork_of_run ran, lasts_of_run unreleased ran, windowsCurrent_of_run keeps ran,
    copiesLocked_of_run locks ran⟩

theorem Unreleased.of_sessionCall {event : Event} (call : SessionCall event) :
    Unreleased event :=
  fun released => (call .release released).2 rfl

end Progress

/-- A capture that has been stopped comes to its end, as far as the native code decides it. -/
structure Finishes (thread : ThreadId) (count : Nat) (events : List Event) (final : World) :
    Prop where
  bounded : (final.threads thread).isCapturing = true → ownSteps thread events ≤ 4 * count + 25
  goesOn : (final.threads thread).isCapturing = true →
    final.Executes thread ∨ final.AboutToNotify thread ∨
      ∃ mutex pc owner, (final.threads thread).next (.lock mutex) = some pc ∧
        final.camera.holder mutex = some owner ∧ owner ≠ thread ∧ final.Executes owner

section Results

variable {start final : World} {thread : ThreadId} {count : Nat} {earlier events : List Event}

/-- The capture is stopped when `select` has told it of a frame. -/
def stoppedAtSelectEvents : List Event :=
  startEvents 5 1 ++ captureToSelectEvents 5 1 ++ [(1, .recheck true)] ++ stopCallEvents ++
    [(userThread, .writePeek false)]

/-- The frame is still drawn, to no surface, up to the test of the loop. -/
def lastFrameEvents : List Event :=
  [.clearBufInfo, .dequeueBuf 5 (.filled 2), .notify .firstCapture, .readPreview none,
    .lock .previewLock, .readPreview none, .freeScratch .yuv420sp, .unlock .previewLock,
    .lock .encoderLock, .encodersEmpty true, .unlock .encoderLock, .freeScratch .rgba8888,
    .requeueBuf 5 2 true].map fun action => (1, action)

end Results

end World

end UsbCamera
