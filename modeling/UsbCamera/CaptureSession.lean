import UsbCamera.UserThread

/-!
# One capture session at a time

`start()` looks neither at `mFD` nor for a capture thread that is still running, and
`openCamera` overwrites the descriptor such a thread is using.  Sessions stay apart
in the runs where every `open` happens while no capture thread exists: then there is
never more than one of them, and nobody else writes `mFD` while it has the device
open.
-/

namespace UsbCamera

/-- The activation closes its descriptor or sends its terminal notification. -/
def Action.endsSession : Action → Bool
  | .closeFd _ | .notify .captureStop | .notify .cameraError => true
  | _ => false

/-! ## Points of a session -/

/-- `startCapture` has found the device open and has not closed it. -/
def CapturePc.usesDevice : CapturePc → Bool
  | .getCamera | .checkFd | .clearFd | .notifyError | .returned => false
  | _ => true

@[simp]
theorem CapturePc.usesDevice_afterSelect (result : Int) (errno : Errno) :
    (afterSelect result errno).usesDevice = true := by
  unfold afterSelect
  split_ifs <;> rfl

@[simp]
theorem CapturePc.usesDevice_afterDequeue (first : Bool) (result : DequeueResult) :
    (afterDequeue first result).usesDevice = true := by
  cases result <;> simp only [afterDequeue] <;> split_ifs <;> rfl

/-- Until it ends, a session goes on using its device and leaves `mFD` alone. -/
theorem CapturePc.Move.usesDevice {first first' : Bool} {pc pc' : CapturePc}
    {action : Action} (move : Move first pc action first' pc')
    (uses : pc.usesDevice = true) (goesOn : action.endsSession = false) :
    pc'.usesDevice = true ∧ action.keepsFd = true := by
  cases move with
  | stillRunning => exact ⟨usesDevice_afterSelect _ _, rfl⟩
  | dequeueBuf => exact ⟨usesDevice_afterDequeue _ _, rfl⟩
  | preview drawn =>
      have draws := PreviewPc.draws_of_next drawn
      constructor
      · split <;> rfl
      · cases action <;> first | rfl | cases draws
  | encoder drawn =>
      have draws := EncoderPc.draws_of_next drawn
      constructor
      · split <;> rfl
      · cases action <;> first | rfl | cases draws
  | attached | detached | notOpen | isOpen | clearFd | notifyError => cases uses
  | notifyStop | closeFd => cases goesOn
  | _ => exact ⟨rfl, rfl⟩

namespace Pc

def isCapturing : Pc → Bool
  | .capturing _ _ => true
  | _ => false

/-- Between `mPeekRun = true` and the terminal notification. -/
def live : Pc → Bool
  | .capturing _ pc => !pc.early
  | _ => false

/-- Inside `start()`, after `open`. -/
def opened : Pc → Bool
  | .opening .openDev => false
  | .opening _ | .spawning => true
  | _ => false

theorem isCapturing_of_live {pc : Pc} (alive : pc.live = true) : pc.isCapturing = true := by
  cases pc <;> first | rfl | cases alive

theorem eq_capturing {pc : Pc} (captures : pc.isCapturing = true) :
    ∃ first inner, pc = .capturing first inner := by
  cases pc with
  | capturing first inner => exact ⟨first, inner, rfl⟩
  | _ => cases captures

theorem isCapturing_of_move {pc pc' : Pc} {action : Action} (move : Move pc action pc')
    (captures : pc'.isCapturing = true) : pc.isCapturing = true := by
  obtain ⟨first, inner, rfl⟩ := eq_capturing captures
  obtain ⟨_, _, rfl, -⟩ := capturing_of_move move
  rfl

theorem opened_of_move {pc pc' : Pc} {action : Action} (move : Move pc action pc')
    (isOpened : pc'.opened = true) : pc.opened = true ∨ action.opens = true := by
  cases move with
  | @call entry => cases entry <;> cases isOpened
  | @opening pc _ _ inner =>
      cases inner with
      | openDev => exact Or.inr rfl
      | requestFailed requests =>
          cases pc with
          | openDev => cases requests
          | _ => exact Or.inl rfl
      | _ => exact Or.inl rfl
  | @capturing _ first' _ pc' _ _ => cases pc' <;> cases isOpened
  | @surface _ pc' _ _ => cases pc' <;> cases isOpened
  | _ => cases isOpened

end Pc

namespace World

/-! ## The two properties -/

/-- At most one activation is live at any time, and while it is, and has not closed
it, `mFD` is the descriptor it found when it started. -/
structure SingleSession (start : World) (events : List Event) : Prop where
  unique : ∀ before after world, events = before ++ after →
    run start before = some world → ∀ thread other,
      (world.threads thread).live = true → (world.threads other).live = true →
      thread = other
  descriptor : ∀ before between after thread first fd started world,
    events = before ++ (thread, .readFd fd) :: (between ++ after) →
    run start before = some started → started.threads thread = .capturing first .checkFd →
    0 ≤ fd → run start (before ++ (thread, .readFd fd) :: between) = some world →
    (∀ event ∈ between, event.1 = thread → event.2.endsSession = false) →
    (world.threads thread).live = true → world.camera.mFD = fd

/-- No capture thread exists when the device is opened. -/
def OpensAlone (world : World) (event : Event) : Prop :=
  ∀ thread, event.2.opens = true → (world.threads thread).isCapturing = false

/-- What holds in every world reached while every `open` was alone. -/
structure OneCapture (world : World) : Prop where
  single : SingleUser world
  unique : ∀ thread other, (world.threads thread).isCapturing = true →
    (world.threads other).isCapturing = true → thread = other
  opening : (world.threads userThread).opened = true →
    ∀ thread, (world.threads thread).isCapturing = false

theorem oneCapture_attached (width height : Int) : OneCapture (attached width height) where
  single := singleUser_attached width height
  unique := by rintro _ _ ⟨⟩
  opening := by rintro ⟨⟩

section Steps

variable {world next : World} {thread mover : ThreadId} {action : Action}

theorem isCapturing_of_step (stepped : world.step (mover, action) = some next)
    (captures : (next.threads thread).isCapturing = true) :
    (world.threads thread).isCapturing = true ∨ action = .spawn thread := by
  by_cases moves : thread = mover
  · subst moves
    exact Or.inl (Pc.isCapturing_of_move (move_of_step stepped) captures)
  · rcases other_of_step stepped moves with same | ⟨spawned, -, -⟩
    · rw [← same]
      exact Or.inl captures
    · exact Or.inr spawned

/-- No capture thread exists when one is created. -/
theorem OneCapture.none_of_spawn (one : OneCapture world) {child : ThreadId}
    (stepped : world.step (mover, .spawn child) = some next) (thread : ThreadId) :
    (world.threads thread).isCapturing = false := by
  have spawning := (one.single.spawner stepped).2
  exact one.opening (by rw [spawning]; rfl) thread

theorem OneCapture.step (one : OneCapture world) (call : UserCall (mover, action))
    (alone : OpensAlone world (mover, action))
    (stepped : world.step (mover, action) = some next) : OneCapture next := by
  refine ⟨one.single.step call stepped, ?_, ?_⟩
  · intro thread other captures otherCaptures
    rcases isCapturing_of_step stepped captures with was | rfl
    · rcases isCapturing_of_step stepped otherCaptures with otherWas | rfl
      · exact one.unique thread other was otherWas
      · rw [one.none_of_spawn stepped thread] at was
        cases was
    · rcases isCapturing_of_step stepped otherCaptures with otherWas | same
      · rw [one.none_of_spawn stepped other] at otherWas
        cases otherWas
      · exact Action.spawn.inj same
  · intro isOpened thread
    by_contra captures
    have captures : (next.threads thread).isCapturing = true := by simpa using captures
    have before : (world.threads userThread).opened = true ∨ action.opens = true := by
      by_cases user : userThread = mover
      · subst user
        exact Pc.opened_of_move (move_of_step stepped) isOpened
      · rcases other_of_step stepped user with same | ⟨-, -, begun⟩
        · rw [← same]
          exact Or.inl isOpened
        · rw [begun] at isOpened
          cases isOpened
    rcases isCapturing_of_step stepped captures with was | rfl
    · rcases before with wasOpened | opens
      · rw [one.opening wasOpened thread] at was
        cases was
      · rw [alone thread opens] at was
        cases was
    · obtain ⟨rfl, spawning⟩ := one.single.spawner stepped
      have idle := move_of_step stepped
      rw [spawning] at idle
      generalize next.threads userThread = after at idle isOpened
      cases idle
      cases isOpened

/-- While a capture thread exists, no other thread writes `mFD`. -/
theorem OneCapture.keepsFd (one : OneCapture world)
    (captures : (world.threads thread).isCapturing = true) (distinct : mover ≠ thread)
    (alone : OpensAlone world (mover, action))
    (stepped : world.step (mover, action) = some next) : action.keepsFd = true := by
  have move := move_of_step stepped
  cases action with
  | openDev fd =>
      rw [alone thread rfl] at captures
      cases captures
  | clearFd =>
      rcases Pc.clearFd_of_move move with opening | ⟨first, capturing⟩
      · have isUser : mover = userThread := by
          by_contra notUser
          have capture := one.single.others mover notUser
          rw [opening] at capture
          cases capture
        subst isUser
        rw [one.opening (by rw [opening]; rfl) thread] at captures
        cases captures
      · exact absurd (one.unique mover thread (by rw [capturing]; rfl) captures) distinct
  | deleteCamera fd =>
      have releasing := (Pc.delete_of_move move).1
      by_cases isUser : mover = userThread
      · have user := one.single.user
        rw [← isUser, releasing] at user
        cases user
      · have capture := one.single.others mover isUser
        rw [releasing] at capture
        cases capture
  | _ => rfl

end Steps

/-! ## Runs in which the device is always opened alone -/

/-- A session of `thread` that found `fd` when it started and goes on. -/
structure UsesDevice (thread : ThreadId) (fd : Int) (world : World) : Prop where
  one : OneCapture world
  session : ∃ first pc, world.threads thread = .capturing first pc ∧ pc.usesDevice = true
  descriptor : world.camera.mFD = fd

theorem UsesDevice.step {thread mover : ThreadId} {fd : Int} {world next : World}
    {action : Action} (uses : UsesDevice thread fd world) (call : UserCall (mover, action))
    (alone : OpensAlone world (mover, action))
    (goesOn : mover = thread → action.endsSession = false)
    (stepped : world.step (mover, action) = some next) : UsesDevice thread fd next := by
  have one := uses.one.step call alone stepped
  obtain ⟨first, pc, capture, usesDevice⟩ := uses.session
  have captures : (world.threads thread).isCapturing = true := by
    rw [capture]
    rfl
  by_cases moves : mover = thread
  · subst moves
    have move := move_of_step stepped
    rw [capture] at move
    generalize placed : next.threads mover = after at move
    cases move with
    | @capturing _ first' _ pc' _ inner =>
        obtain ⟨still, keeps⟩ := inner.usesDevice usesDevice (goesOn rfl)
        refine ⟨one, ?_, ?_⟩
        · rw [placed]
          cases pc' with
          | returned => cases still
          | _ => exact ⟨first', _, rfl, still⟩
        · rw [Camera.mFD_of_apply (camera_of_step stepped) keeps, uses.descriptor]
  · refine ⟨one, ?_, ?_⟩
    · rcases other_of_step stepped (Ne.symm moves) with same | ⟨-, idle, -⟩
      · rw [same]
        exact uses.session
      · rw [idle] at capture
        cases capture
    · have keeps := uses.one.keepsFd captures moves alone stepped
      rw [Camera.mFD_of_apply (camera_of_step stepped) keeps, uses.descriptor]

/-- The session begins with a check that finds the device open. -/
theorem OneCapture.usesDevice {thread : ThreadId} {first : Bool} {fd : Int}
    {world next : World} (one : OneCapture world)
    (atCheck : world.threads thread = .capturing first .checkFd) (isOpen : 0 ≤ fd)
    (call : UserCall (thread, .readFd fd)) (alone : OpensAlone world (thread, .readFd fd))
    (stepped : world.step (thread, .readFd fd) = some next) : UsesDevice thread fd next := by
  have observed := Camera.eq_mFD_of_readFd (camera_of_step stepped)
  have moved := moved_of_step stepped
  rw [atCheck] at moved
  refine ⟨one.step call alone stepped, ⟨first, .raisePeek, ?_, rfl⟩, ?_⟩
  · simpa [Pc.next, CapturePc.next, Pc.afterCapture, Int.not_lt.mpr isOpen] using moved.symm
  · rw [Camera.mFD_of_apply (camera_of_step stepped) rfl, observed]

section Runs

variable {width height : Int} {events : List Event} {final : World}

theorem oneCapture_of_run (calls : ∀ event ∈ events, UserCall event)
    (alone : EveryStep OpensAlone (attached width height) events)
    (ran : run (attached width height) events = some final) : OneCapture final := by
  have conditions := LabelledRun.EveryStep.and
    (LabelledRun.everyStep_of_forall_mem calls) alone
  refine LabelledRun.invariant_of_run ?_ (oneCapture_attached width height) conditions ran
  rintro world ⟨mover, action⟩ next one conditions stepped
  exact one.step conditions.1 conditions.2 stepped

/-- When every `open` happens while no capture thread exists, sessions neither
overlap nor lose their descriptor. -/
theorem singleSession_of_opensAlone (calls : ∀ event ∈ events, UserCall event)
    (alone : EveryStep OpensAlone (attached width height) events)
    (ran : run (attached width height) events = some final) :
    SingleSession (attached width height) events := by
  constructor
  · rintro before after world rfl reached thread other live otherLive
    have earlier := ((LabelledRun.everyStep_append_iff reached).mp alone).1
    have one := oneCapture_of_run
      (fun event member => calls event (by simp [member])) earlier reached
    exact one.unique thread other (Pc.isCapturing_of_live live)
      (Pc.isCapturing_of_live otherLive)
  · rintro before between after thread first fd started world rfl reached atCheck isOpen
      continued goesOn -
    obtain ⟨earlier, later⟩ := (LabelledRun.everyStep_append_iff reached).mp alone
    have one := oneCapture_of_run
      (fun event member => calls event (by simp [member])) earlier reached
    rw [LabelledRun.everyStep_cons_iff] at later
    obtain ⟨started', checked, same, stepped, onward⟩ :=
      LabelledRun.run_append_cons_iff.mp continued
    cases Option.some.inj (reached.symm.trans same)
    have uses := one.usesDevice atCheck isOpen (calls _ (by simp)) later.1 stepped
    have conditions := LabelledRun.EveryStep.and
      (LabelledRun.EveryStep.and
        (LabelledRun.everyStep_of_forall_mem
          fun event member => calls event (by simp [member]))
        ((LabelledRun.everyStep_append_iff onward).mp (later.2 _ stepped)).1)
      (LabelledRun.everyStep_of_forall_mem goesOn)
    refine (LabelledRun.invariant_of_run ?_ uses conditions onward).descriptor
    rintro world ⟨mover, action⟩ next uses ⟨⟨call, alone⟩, goesOn⟩ stepped
    exact uses.step call alone goesOn stepped

end Runs

/-! ## Two runs with a second `start()` -/

/-- A capture that is stopped and has returned before the camera is started
again. -/
def restartEvents : List Event :=
  startEvents 5 1 ++ captureToSelectEvents 5 1 ++ stopCallEvents ++
    [(userThread, .writePeek false)] ++ captureStopEvents 1 ++
    startEvents 6 2 ++ captureToSelectEvents 6 2

theorem singleSession_restart : SingleSession (attached 640 480) restartEvents := by
  obtain ⟨final, ran⟩ := Option.isSome_iff_exists.mp
    (by decide : (run (attached 640 480) restartEvents).isSome = true)
  refine singleSession_of_opensAlone (by decide) ?_ ran
  have within : ∀ event ∈ restartEvents, Within [0, 1, 2] event := by decide
  refine (confined_attached 640 480).everyStep ?_ within (by decide +kernel)
  intro world event thread idle
  simp [idle, Pc.isCapturing]

/-- Stopped and started again while the first capture thread is still in `select`:
both activations are live at once. -/
theorem not_singleSession :
    ¬ ∀ (width height : Int) (events : List Event) (final : World),
      (∀ event ∈ events, UserCall event) →
      run (attached width height) events = some final →
      SingleSession (attached width height) events := by
  intro always
  let events := startEvents 5 1 ++ captureToSelectEvents 5 1 ++ stopCallEvents ++
    [(userThread, .writePeek false)] ++ startEvents 6 2 ++ captureToSelectEvents 6 2
  obtain ⟨final, ran⟩ := Option.isSome_iff_exists.mp
    (by decide : (run (attached 640 480) events).isSome = true)
  have single := always 640 480 events final (by decide) ran
  have both := (by decide : ∀ final ∈ run (attached 640 480) events,
    (final.threads 1).live = true ∧ (final.threads 2).live = true) final ran
  have same := single.unique events [] final (by simp) ran 1 2 both.1 both.2
  exact absurd same (by decide)

end World

end UsbCamera
