import UsbCamera.BufferOwnership
import UsbCamera.CaptureSession
import UsbCamera.DeviceAccounting

/-!
# What one capture run tells Java

A run of `startCapture` that finds the device open leaves its loop in one of two ways.
A stop lowers `mPeekRun` and is answered by `notifyCaptureStop`; an error closes the
descriptor, writes `mFD = -1` and is answered by `notifyCameraError`.  Before either
there is at most one `notifyFirstCapture`, and no frame is drawn before it.  The four
things an observer can see of this, the notifications so far, the descriptors closed so
far, `mFD` and the open descriptors, are kept together in a `Tally`.
-/

namespace UsbCamera

/-- The notification an action sends. -/
def Action.notification : Action → Option Notification
  | .notify notification => some notification
  | _ => none

/-- A step of one of the two draws.  Taking and giving back a mutex is left out, which the
setters do as well. -/
def Action.ofDraw : Action → Bool
  | .lock _ | .unlock _ => false
  | action => action.draws

/-- `VIDIOC_QBUF` of the capture loop, with which it is done with a frame. -/
def Action.requeues : Action → Bool
  | .requeueBuf _ _ _ => true
  | _ => false

/-- The action neither opens the device nor deletes the object, which no capture program
does. -/
def Action.tallied : Action → Bool
  | .openDev _ | .deleteCamera _ => false
  | _ => true

section Actions

variable {action : Action}

theorem CapturePc.Move.tallied {first first' : Bool} {pc pc' : CapturePc}
    (move : Move first pc action first' pc') : action.tallied = true := by
  rcases move.own_or_draws with own | draws
  · cases action <;> first | rfl | cases own
  · cases action <;> first | rfl | cases draws

theorem Action.notification_of_draws (draws : action.draws = true) :
    action.notification = none := by
  cases action <;> first | rfl | cases draws

theorem Action.ofBystander_quiet (stands : action.ofBystander = true) :
    action.notification = none ∧ action.ofDraw = false ∧ action.requeues = false ∧
      action.tallied = true := by
  cases action <;> first | exact ⟨rfl, rfl, rfl, rfl⟩ | cases stands

end Actions

/-- The notifications sent, in order. -/
def notified (events : List Event) : List Notification :=
  events.filterMap fun event => event.2.notification

/-- The descriptors closed, in order. -/
def closed (events : List Event) : List Int :=
  events.filterMap fun event => event.2.closes

@[simp]
theorem notified_nil : notified [] = [] :=
  rfl

@[simp]
theorem closed_nil : closed [] = [] :=
  rfl

/-- How many frames a stretch of a run draws, where a frame lasts until its buffer is
queued again; `counted` tells whether the current frame has been counted already. -/
def framesDrawn : Bool → List Event → Nat
  | _, [] => 0
  | counted, event :: events =>
      if event.2.requeues then framesDrawn false events
      else if event.2.ofDraw then (if counted then 0 else 1) + framesDrawn true events
      else framesDrawn counted events

/-! ## The tally of a run -/

/-- What an observer sees of a run and of the world it has reached. -/
structure Tally where
  notified : List Notification
  closed : List Int
  mFD : Int
  openFds : List Int

namespace Tally

/-- The tally of some events and the world after them. -/
def of (events : List Event) (world : World) : Tally :=
  ⟨UsbCamera.notified events, UsbCamera.closed events, world.camera.mFD, world.device.openFds⟩

def tell (tally : Tally) (notification : Notification) : Tally :=
  { tally with notified := tally.notified ++ [notification] }

def close (tally : Tally) (fd : Int) : Tally :=
  { tally with
    closed := tally.closed ++ [fd]
    openFds := tally.openFds.filter fun other => other ≠ fd }

def forget (tally : Tally) : Tally :=
  { tally with mFD := -1 }

/-- The tally after an action of the capture program or of a bystander. -/
def after (tally : Tally) : Action → Tally
  | .notify notification => tally.tell notification
  | .closeFd fd => tally.close fd
  | .clearFd => tally.forget
  | _ => tally

/-- Only three actions show in the tally. -/
theorem after_eq_self {tally : Tally} {action : Action} (silent : action.notification = none)
    (keeps : action.keepsDescriptors = true) : tally.after action = tally := by
  cases action with
  | notify => cases silent
  | closeFd | clearFd => cases keeps
  | _ => rfl

/-- Most actions show nowhere. -/
theorem of_unseen {events : List Event} {world next : World} {thread : ThreadId}
    {action : Action} (silent : action.notification = none) (notClosed : action.closes = none)
    (fd : next.camera.mFD = world.camera.mFD)
    (fds : next.device.openFds = world.device.openFds) :
    of (events ++ [(thread, action)]) next = of events world := by
  simp [of, UsbCamera.notified, UsbCamera.closed, silent, notClosed, fd, fds]

theorem of_step {events : List Event} {world next : World} {thread : ThreadId}
    {action : Action} (tallied : action.tallied = true)
    (stepped : world.step (thread, action) = some next) :
    of (events ++ [(thread, action)]) next = (of events world).after action := by
  have fields := World.camera_of_step stepped
  have kernel := World.device_of_step stepped
  cases action with
  | notify notification =>
      have fd := Camera.mFD_of_apply fields rfl
      have fds := Device.openFds_of_apply rfl kernel
      simp [of, after, tell, UsbCamera.notified, UsbCamera.closed, Action.notification,
        Action.closes, fd, fds]
  | closeFd fd =>
      have kept := Camera.mFD_of_apply fields rfl
      have placed : world.device.close fd = next.device := Option.some.inj kernel
      simp [of, after, close, UsbCamera.notified, UsbCamera.closed, Action.notification,
        Action.closes, kept, ← placed, Device.close]
  | clearFd =>
      have placed : { world.camera with mFD := -1 } = next.camera := Option.some.inj fields
      have same : world.device = next.device := Option.some.inj kernel
      simp [of, after, forget, UsbCamera.notified, UsbCamera.closed, Action.notification,
        Action.closes, ← placed, ← same]
  | openDev | deleteCamera => cases tallied
  | _ =>
      exact of_unseen rfl rfl (Camera.mFD_of_apply fields rfl)
        (Device.openFds_of_apply rfl kernel)

/-- The tally of a loop: the first-capture notification is sent when `firstCapture` is
cleared. -/
def inLoop (start : Tally) (first : Bool) : Tally :=
  if first then start else start.tell .firstCapture

@[simp]
theorem inLoop_mFD (start : Tally) (first : Bool) : (start.inLoop first).mFD = start.mFD := by
  cases first <;> rfl

end Tally

/-! ## The points of the protocol -/

namespace CapturePc

/-- `startCapture` is running and has not closed the descriptor. -/
def deviceOpen : CapturePc → Bool
  | .getCamera | .clearFd | .notifyError | .returned => false
  | _ => true

@[simp]
theorem deviceOpen_afterSelect (result : Int) (errno : Errno) :
    (afterSelect result errno).deviceOpen = true := by
  unfold afterSelect
  split_ifs <;> rfl

@[simp]
theorem deviceOpen_afterDequeue (first : Bool) (result : DequeueResult) :
    (afterDequeue first result).deviceOpen = true := by
  cases result <;> simp only [afterDequeue] <;> split_ifs <;> rfl

/-- What a point says of `firstCapture`. -/
def agrees (first : Bool) : CapturePc → Bool
  | .notifyFirst => first
  | .preview _ | .encoder _ | .requeueBuf => !first
  | _ => true

@[simp]
theorem agrees_afterSelect (first : Bool) (result : Int) (errno : Errno) :
    (afterSelect result errno).agrees first = true := by
  unfold afterSelect
  split_ifs <;> rfl

@[simp]
theorem agrees_afterDequeue (first : Bool) (result : DequeueResult) :
    (afterDequeue first result).agrees first = true := by
  cases result <;> simp only [afterDequeue] <;> split_ifs <;> simp_all [agrees]

theorem Move.agrees {first first' : Bool} {pc pc' : CapturePc} {action : Action}
    (move : Move first pc action first' pc') (agreed : pc.agrees first = true) :
    pc'.agrees first' = true := by
  cases move with
  | stillRunning => exact agrees_afterSelect _ _ _
  | dequeueBuf => exact agrees_afterDequeue _ _
  | preview drawn | encoder drawn =>
      split
      · exact agreed
      · exact agreed
  | _ => rfl

/-- The points from which a frame is still drawn when `mPeekRun` is not looked at again. -/
def mayDraw : CapturePc → Bool
  | .clearBufInfo | .dequeueBuf | .notifyFirst | .preview _ | .encoder _ => true
  | _ => false

/-- Each draw step is made at such a point. -/
theorem Move.mayDraw_of_ofDraw {first first' : Bool} {pc pc' : CapturePc} {action : Action}
    (move : Move first pc action first' pc') (draws : action.ofDraw = true) :
    pc.mayDraw = true ∧ (pc.agrees first = true → first = false) := by
  cases move with
  | preview drawn | encoder drawn => exact ⟨rfl, by simp [CapturePc.agrees]⟩
  | _ => cases draws

/-- Only seeing `mPeekRun` still true leads to such a point from another one. -/
theorem Move.mayDraw_before {first first' : Bool} {pc pc' : CapturePc} {action : Action}
    (move : Move first pc action first' pc') (notRunning : action ≠ .recheck true)
    (draws : pc'.mayDraw = true) : pc.mayDraw = true ∧ action.requeues = false := by
  cases move with
  | stillRunning => exact absurd rfl notRunning
  | clearBufInfo | dequeueBuf | notifyFirst => exact ⟨rfl, rfl⟩
  | preview drawn =>
      have draws := PreviewPc.draws_of_next drawn
      exact ⟨rfl, by cases action <;> first | rfl | cases draws⟩
  | encoder drawn =>
      have draws := EncoderPc.draws_of_next drawn
      exact ⟨rfl, by cases action <;> first | rfl | cases draws⟩
  | _ => cases draws

end CapturePc

/-- Where a thread stands before `mPeekRun = true`. -/
def Pc.early : Pc → Bool
  | .capturing _ pc => pc.early
  | _ => false

/-- Where a thread that will draw without looking at `mPeekRun` stands. -/
def Pc.mayDraw : Pc → Bool
  | .capturing _ pc => pc.mayDraw
  | _ => false

/-- How far a run that began with the tally `start` has got. -/
inductive Stage (start : Tally) : Tally → Pc → Prop
  | running {first : Bool} {pc : CapturePc} :
      pc.deviceOpen = true → pc.agrees first = true →
      Stage start (start.inLoop first) (.capturing first pc)
  | closing {first : Bool} :
      Stage start ((start.inLoop first).close start.mFD) (.capturing first .clearFd)
  | failing {first : Bool} :
      Stage start ((start.inLoop first).close start.mFD).forget (.capturing first .notifyError)
  | stopped {first : Bool} {pc : Pc} :
      pc.bystander = true → Stage start ((start.inLoop first).tell .captureStop) pc
  | failed {first : Bool} {pc : Pc} :
      pc.bystander = true →
      Stage start (((start.inLoop first).close start.mFD).forget.tell .cameraError) pc

namespace Stage

variable {start tally : Tally}

theorem of_move {first first' : Bool} {pc pc' : CapturePc} {action : Action}
    (stage : Stage start tally (.capturing first pc)) (isOpen : 0 ≤ start.mFD)
    (observed : ∀ fd, action = .readFd fd ∨ action = .closeFd fd → fd = tally.mFD)
    (move : CapturePc.Move first pc action first' pc') :
    Stage start (tally.after action) (Pc.afterCapture first' pc') := by
  cases stage with
  | running uses agreed =>
      have agreed' := move.agrees agreed
      cases move with
      | notOpen negative =>
          have same := observed _ (Or.inl rfl)
          rw [Tally.inLoop_mFD] at same
          omega
      | isOpen | raisePeek | enterLoop | leaveLoop | fdSet | select | stopped | clearBufInfo
      | requeued | requeueFailed | lowerPeek => exact .running rfl agreed'
      | @stillRunning result errno =>
          have runs : Stage start (start.inLoop first)
              (.capturing first (CapturePc.afterSelect result errno)) :=
            .running (CapturePc.deviceOpen_afterSelect _ _) agreed'
          unfold CapturePc.afterSelect at runs ⊢
          split_ifs at runs ⊢ <;> exact runs
      | @dequeueBuf fd result =>
          have runs : Stage start (start.inLoop first)
              (.capturing first (CapturePc.afterDequeue first result)) :=
            .running (CapturePc.deviceOpen_afterDequeue _ _) agreed'
          cases result <;> simp only [CapturePc.afterDequeue] at runs ⊢ <;>
            split_ifs at runs ⊢ <;> exact runs
      | notifyFirst =>
          have isFirst : first = true := agreed
          subst isFirst
          have told : Stage start (start.inLoop false)
              (.capturing false (.preview .takeWindow)) := .running rfl rfl
          exact told
      | @preview _ after _ drawn =>
          have draws := PreviewPc.draws_of_next drawn
          rw [Tally.after_eq_self (Action.notification_of_draws draws)
            (Action.keepsDescriptors_of_draws draws)]
          by_cases returned : after = .returned
          · rw [if_pos returned] at agreed' ⊢
            exact .running rfl agreed'
          · rw [if_neg returned] at agreed' ⊢
            exact .running rfl agreed'
      | @encoder _ after _ drawn =>
          have draws := EncoderPc.draws_of_next drawn
          rw [Tally.after_eq_self (Action.notification_of_draws draws)
            (Action.keepsDescriptors_of_draws draws)]
          by_cases returned : after = .returned
          · rw [if_pos returned] at agreed' ⊢
            exact .running rfl agreed'
          · rw [if_neg returned] at agreed' ⊢
            exact .running rfl agreed'
      | notifyStop => exact .stopped rfl
      | @closeFd fd =>
          have same := observed fd (Or.inr rfl)
          rw [Tally.inLoop_mFD] at same
          rw [same]
          exact .closing
      | attached | detached | clearFd | notifyError => cases uses
  | closing =>
      cases move with
      | clearFd => exact .failing
  | failing =>
      cases move with
      | notifyError => exact .failed rfl
  | stopped stands => cases stands
  | failed stands => cases stands

/-- A thread with a tally is still capturing, or has returned. -/
theorem capturing_or_bystander {pc : Pc} (stage : Stage start tally pc) :
    (∃ first inner, pc = .capturing first inner) ∨ pc.bystander = true := by
  cases stage with
  | running | closing | failing => exact Or.inl ⟨_, _, rfl⟩
  | stopped stands | failed stands => exact Or.inr stands

theorem eq_of_ended {pc : Pc} (stage : Stage start tally pc) (ended : pc.isCapturing = false) :
    ∃ first, tally = (start.inLoop first).tell .captureStop ∨
      tally = ((start.inLoop first).close start.mFD).forget.tell .cameraError := by
  cases stage with
  | running | closing | failing => cases ended
  | stopped => exact ⟨_, Or.inl rfl⟩
  | failed => exact ⟨_, Or.inr rfl⟩

/-- Every notification but the first capture comes after it. -/
theorem notified_eq {pc : Pc} (stage : Stage start tally pc) :
    ∃ first ending, tally.notified = (start.inLoop first).notified ++ ending ∧
      .firstCapture ∉ ending := by
  cases stage with
  | running => exact ⟨_, [], (List.append_nil _).symm, by simp⟩
  | closing | failing => exact ⟨_, [], (List.append_nil _).symm, by simp⟩
  | stopped => exact ⟨_, [.captureStop], rfl, by simp⟩
  | failed => exact ⟨_, [.cameraError], rfl, by simp⟩

theorem of_bystander {pc pc' : Pc} (stage : Stage start tally pc)
    (stands : pc.bystander = true) (still : pc'.bystander = true) : Stage start tally pc' := by
  cases stage with
  | running | closing | failing => cases stands
  | stopped => exact .stopped still
  | failed => exact .failed still

end Stage

namespace World

/-- `thread` has entered `startCapture` with the device open and is the only one on its
`Camera`; nobody is opening or releasing it. -/
structure Entered (world : World) (thread : ThreadId) : Prop where
  capture : world.threads thread = .capturing true .checkFd
  isOpen : 0 ≤ world.camera.mFD
  others : ∀ other, other ≠ thread → (world.threads other).bystander = true

/-- What holds of `thread` after some events of such a run. -/
structure Protocol (start : Tally) (thread : ThreadId) (events : List Event)
    (now : World) : Prop where
  stage : Stage start (Tally.of events now) (now.threads thread)
  raised : (thread, .writePeek true) ∈ events → (now.threads thread).early = false
  others : ∀ other, other ≠ thread → (now.threads other).bystander = true

section Protocol

variable {start : Tally} {world next : World} {thread mover : ThreadId} {action : Action}
  {events : List Event}

theorem Entered.protocol (entered : Entered world thread) :
    Protocol (Tally.of [] world) thread [] world where
  stage := by
    have begun : Stage (Tally.of [] world) ((Tally.of [] world).inLoop true)
        (.capturing true .checkFd) := .running rfl rfl
    rw [entered.capture]
    exact begun
  raised := by simp
  others := entered.others

theorem Protocol.step_bystander (protocol : Protocol start thread events world)
    (call : SessionCall (mover, action)) (stands : (world.threads mover).bystander = true)
    (stepped : world.step (mover, action) = some next) :
    Protocol start thread (events ++ [(mover, action)]) next := by
  obtain ⟨still, stood, unmoved⟩ := bystander_of_step stands call stepped
  have same : Tally.of (events ++ [(mover, action)]) next = Tally.of events world := by
    obtain ⟨silent, -, -, tallied⟩ := Action.ofBystander_quiet stood
    rw [Tally.of_step tallied stepped]
    exact Tally.after_eq_self silent (Action.keepsDescriptors_of_bystander stood)
  refine ⟨?_, ?_, ?_⟩
  · rw [same]
    by_cases own : thread = mover
    · rw [own]
      exact (own ▸ protocol.stage).of_bystander stands still
    · rw [unmoved thread own]
      exact protocol.stage
  · intro member
    by_cases own : thread = mover
    · rw [own]
      cases placed : next.threads mover <;> first | rfl | (rw [placed] at still; cases still)
    · rw [unmoved thread own]
      apply protocol.raised
      simpa [own] using member
  · intro other distinct
    by_cases moves : other = mover
    · rw [moves]
      exact still
    · rw [unmoved other moves]
      exact protocol.others other distinct

theorem Protocol.step_capture {first : Bool} {pc : CapturePc}
    (protocol : Protocol start thread events world) (isOpen : 0 ≤ start.mFD)
    (capture : world.threads thread = .capturing first pc)
    (stepped : world.step (thread, action) = some next) :
    Protocol start thread (events ++ [(thread, action)]) next := by
  have move := move_of_step stepped
  have fields := camera_of_step stepped
  have stage := protocol.stage
  have raised := protocol.raised
  rw [capture] at move stage raised
  generalize placed : next.threads thread = after at move
  cases move with
  | @capturing _ first' _ pc' _ inner =>
      have observed : ∀ fd, action = .readFd fd ∨ action = .closeFd fd →
          fd = world.camera.mFD := by
        rintro fd (rfl | rfl)
        · exact Camera.eq_mFD_of_readFd fields
        · by_contra distinct
          simp [Camera.apply, distinct] at fields
      have notSpawned : ∀ child, action ≠ .spawn child := by
        rintro child rfl
        rcases inner.own_or_draws with own | draws
        · cases own
        · cases draws
      refine ⟨?_, ?_, ?_⟩
      · rw [Tally.of_step inner.tallied stepped, placed]
        exact stage.of_move isOpen observed inner
      · intro member
        rw [placed]
        by_contra isEarly
        have isEarly : pc'.early = true := by
          cases pc' <;> simp_all [Pc.afterCapture, Pc.early]
        rcases inner.early isEarly with ⟨rfl, rfl, -⟩ | ⟨rfl, -, fd, -, rfl⟩
        · cases raised (by simpa using member)
        · cases raised (by simpa using member)
      · intro other distinct
        rcases other_of_step stepped distinct with same | ⟨spawned, -, -⟩
        · rw [same]
          exact protocol.others other distinct
        · exact absurd spawned (notSpawned other)

theorem Protocol.step (protocol : Protocol start thread events world)
    (isOpen : 0 ≤ start.mFD) (call : SessionCall (mover, action))
    (stepped : world.step (mover, action) = some next) :
    Protocol start thread (events ++ [(mover, action)]) next := by
  by_cases own : mover = thread
  · subst own
    rcases protocol.stage.capturing_or_bystander with ⟨first, pc, capture⟩ | stands
    · exact protocol.step_capture isOpen capture stepped
    · exact protocol.step_bystander call stands stepped
  · exact protocol.step_bystander call (protocol.others mover own) stepped

theorem Entered.protocol_of_run {final : World} (entered : Entered world thread)
    (calls : ∀ event ∈ events, SessionCall event) (ran : run world events = some final) :
    Protocol (Tally.of [] world) thread events final := by
  refine LabelledRun.history_of_run ?_ entered.protocol
    (LabelledRun.everyStep_of_forall_mem calls) ran
  rintro before now ⟨mover, action⟩ next protocol call stepped
  exact protocol.step entered.isOpen call stepped

end Protocol

/-! ## After a stop -/

/-- Nobody will raise `mPeekRun` any more. -/
structure WindsDown (thread : ThreadId) (world : World) : Prop where
  own : (∃ first pc, world.threads thread = .capturing first pc) ∨
    (world.threads thread).bystander = true
  lowered : world.camera.mPeekRun = false
  late : (world.threads thread).early = false
  others : ∀ other, other ≠ thread → (world.threads other).bystander = true

section WindsDown

variable {world next : World} {thread mover : ThreadId} {action : Action}

/-- What one step of a world that winds down does: it goes on winding down, and a frame is
drawn only by a thread that was about to draw it. -/
structure DrawsLast (thread : ThreadId) (world next : World) (action : Action) : Prop where
  windsDown : WindsDown thread next
  ofDraw : action.ofDraw = true → (world.threads thread).mayDraw = true
  mayDraw : (next.threads thread).mayDraw = true →
    (world.threads thread).mayDraw = true ∧ action.requeues = false

theorem WindsDown.step_bystander (winds : WindsDown thread world)
    (call : SessionCall (mover, action)) (stands : (world.threads mover).bystander = true)
    (stepped : world.step (mover, action) = some next) :
    DrawsLast thread world next action := by
  obtain ⟨still, stood, unmoved⟩ := bystander_of_step stands call stepped
  obtain ⟨-, notDraw, notRequeue, -⟩ := Action.ofBystander_quiet stood
  have lowered : next.camera.mPeekRun = false := by
    apply Camera.mPeekRun_lowered (camera_of_step stepped) winds.lowered
    rintro rfl
    obtain ⟨first, atRaise⟩ := Pc.raisePeek_of_move (move_of_step stepped)
    rw [atRaise] at stands
    cases stands
  have settled : (next.threads mover).early = false ∧ (next.threads mover).mayDraw = false := by
    cases placed : next.threads mover <;>
      first | exact ⟨rfl, rfl⟩ | (rw [placed] at still; cases still)
  refine ⟨⟨?_, lowered, ?_, ?_⟩, ?_, ?_⟩
  · by_cases own : thread = mover
    · exact Or.inr (own ▸ still)
    · rw [unmoved thread own]
      exact winds.own
  · by_cases own : thread = mover
    · exact own ▸ settled.1
    · rw [unmoved thread own]
      exact winds.late
  · intro other distinct
    by_cases moves : other = mover
    · rw [moves]
      exact still
    · rw [unmoved other moves]
      exact winds.others other distinct
  · intro draws
    rw [notDraw] at draws
    cases draws
  · intro draws
    by_cases own : thread = mover
    · rw [own, settled.2] at draws
      cases draws
    · rw [unmoved thread own] at draws
      exact ⟨draws, notRequeue⟩

theorem WindsDown.step_capture {first : Bool} {pc : CapturePc}
    (winds : WindsDown thread world) (capture : world.threads thread = .capturing first pc)
    (stepped : world.step (thread, action) = some next) :
    DrawsLast thread world next action := by
  have move := move_of_step stepped
  have fields := camera_of_step stepped
  have late := winds.late
  rw [capture] at move late
  generalize placed : next.threads thread = after at move
  cases move with
  | @capturing _ first' _ pc' _ inner =>
      have notSpawned : ∀ child, action ≠ .spawn child := by
        rintro child rfl
        rcases inner.own_or_draws with own | draws
        · cases own
        · cases draws
      have notRunning : action ≠ .recheck true := by
        rintro rfl
        simp [Camera.apply, winds.lowered] at fields
      refine ⟨⟨?_, ?_, ?_, ?_⟩, ?_, ?_⟩
      · rw [placed]
        cases pc' with
        | returned => exact Or.inr rfl
        | _ => exact Or.inl ⟨_, _, rfl⟩
      · apply Camera.mPeekRun_lowered fields winds.lowered
        rintro rfl
        rw [inner.raises] at late
        cases late
      · by_contra isEarly
        have isEarly : pc'.early = true := by
          cases pc' <;> simp_all [Pc.afterCapture, Pc.early]
        rcases inner.early isEarly with ⟨rfl, -, -⟩ | ⟨rfl, -, -⟩ <;> cases late
      · intro other distinct
        rcases other_of_step stepped distinct with same | ⟨spawned, -, -⟩
        · rw [same]
          exact winds.others other distinct
        · exact absurd spawned (notSpawned other)
      · intro draws
        rw [capture]
        exact (inner.mayDraw_of_ofDraw draws).1
      · intro draws
        have draws : pc'.mayDraw = true := by
          rw [placed] at draws
          cases pc' <;> exact draws
        rw [capture]
        exact inner.mayDraw_before notRunning draws

theorem WindsDown.step (winds : WindsDown thread world) (call : SessionCall (mover, action))
    (stepped : world.step (mover, action) = some next) :
    DrawsLast thread world next action := by
  by_cases own : mover = thread
  · subst own
    rcases winds.own with ⟨first, pc, capture⟩ | stands
    · exact winds.step_capture capture stepped
    · exact winds.step_bystander call stands stepped
  · exact winds.step_bystander call (winds.others mover own) stepped

/-- While it winds down, a run draws at most the frame it has begun. -/
theorem WindsDown.framesDrawn_le (winds : WindsDown thread world) {final : World}
    {events : List Event} (calls : ∀ event ∈ events, SessionCall event)
    (ran : run world events = some final) (counted : Bool) :
    framesDrawn counted events ≤
      if (world.threads thread).mayDraw = true ∧ counted = false then 1 else 0 := by
  induction events generalizing world counted with
  | nil => simp [framesDrawn]
  | cons event events ih =>
      obtain ⟨mover, action⟩ := event
      obtain ⟨next, stepped, rest⟩ := LabelledRun.run_cons_iff.mp ran
      have last := winds.step (calls _ (by simp)) stepped
      have onward := ih last.windsDown (fun other member => calls other (by simp [member])) rest
      by_cases requeues : action.requeues = true
      · have bound := onward false
        rw [if_neg fun may => by simp [(last.mayDraw may.1).2] at requeues] at bound
        rw [framesDrawn, if_pos requeues]
        omega
      · rw [framesDrawn, if_neg requeues]
        by_cases draws : action.ofDraw = true
        · have bound := onward true
          rw [if_neg (by simp)] at bound
          rw [if_pos draws, last.ofDraw draws]
          cases counted <;> simp <;> omega
        · have bound := onward counted
          rw [if_neg draws]
          by_cases may : (next.threads thread).mayDraw = true
          · rw [(last.mayDraw may).1]
            rwa [may] at bound
          · rw [if_neg fun both => may both.1] at bound
            omega

end WindsDown

/-! ## The protocol -/

/-- How a run ends: with one terminal notification, after at most one first capture, the
error being told just when the descriptor has been closed. -/
structure Ends (start final : World) (events : List Event) : Prop where
  sequence : ∃ ending, (ending = .captureStop ∨ ending = .cameraError) ∧
    (notified events = [ending] ∨ notified events = [.firstCapture, ending])
  error : .cameraError ∈ notified events ↔
    closed events = [start.camera.mFD] ∧ start.camera.mFD ∉ final.device.openFds ∧
      final.camera.mFD = -1
  stop : .captureStop ∈ notified events ↔
    closed events = [] ∧ final.device.openFds = start.device.openFds ∧
      final.camera.mFD = start.camera.mFD

/-- What the events of a run of `thread` look like.  After a stop that comes when
`mPeekRun = true` has been written, at most one more frame is drawn. -/
structure FollowsProtocol (start final : World) (thread : ThreadId) (events : List Event) :
    Prop where
  ends : (final.threads thread).isCapturing = false → Ends start final events
  firstOnce : (notified events).count .firstCapture ≤ 1
  firstBeforeDraws : ∀ before event after, events = before ++ event :: after →
    event.2.ofDraw = true → .firstCapture ∈ notified before
  oneMoreFrame : ∀ before stopper after, events = before ++ (stopper, .writePeek false) :: after →
    (thread, .writePeek true) ∈ before → framesDrawn false after ≤ 1

section FollowsProtocol

variable {start now : World} {thread : ThreadId} {events : List Event}

/-- The events of a run that has ended in one of its two ways. -/
theorem Protocol.ends (protocol : Protocol (Tally.of [] start) thread events now)
    (ended : (now.threads thread).isCapturing = false) : Ends start now events := by
  obtain ⟨first, stopped | failed⟩ := protocol.stage.eq_of_ended ended
  · have told := congrArg Tally.notified stopped
    have shut := congrArg Tally.closed stopped
    have kept := congrArg Tally.mFD stopped
    have fds := congrArg Tally.openFds stopped
    cases first <;> simp [Tally.of, Tally.inLoop, Tally.tell, notified_nil, closed_nil]
      at told shut kept fds
    · exact ⟨⟨_, Or.inl rfl, Or.inr told⟩, by simp [told, shut], by simp [told, shut, kept, fds]⟩
    · exact ⟨⟨_, Or.inl rfl, Or.inl told⟩, by simp [told, shut], by simp [told, shut, kept, fds]⟩
  · have told := congrArg Tally.notified failed
    have shut := congrArg Tally.closed failed
    have gone := congrArg Tally.mFD failed
    have fds := congrArg Tally.openFds failed
    cases first <;> simp [Tally.of, Tally.inLoop, Tally.tell, Tally.close, Tally.forget,
      notified_nil, closed_nil] at told shut gone fds
    · exact ⟨⟨_, Or.inr rfl, Or.inr told⟩, by simp [told, shut, gone, fds], by simp [told, shut]⟩
    · exact ⟨⟨_, Or.inr rfl, Or.inl told⟩, by simp [told, shut, gone, fds], by simp [told, shut]⟩

/-- The capture thread draws only after it has told the first capture. -/
theorem Protocol.told_of_draw {next : World} {event : Event}
    (protocol : Protocol (Tally.of [] start) thread events now)
    (call : SessionCall event) (stepped : now.step event = some next)
    (draws : event.2.ofDraw = true) : .firstCapture ∈ notified events := by
  obtain ⟨mover, action⟩ := event
  have notStanding : (now.threads mover).bystander ≠ true := by
    intro stands
    obtain ⟨-, stood, -⟩ := bystander_of_step stands call stepped
    have quiet := (Action.ofBystander_quiet stood).2.1
    rw [draws] at quiet
    cases quiet
  by_cases own : mover = thread
  · subst own
    rcases protocol.stage.capturing_or_bystander with ⟨first, pc, capture⟩ | stands
    · have move := move_of_step stepped
      have stage := protocol.stage
      rw [capture] at move stage
      generalize next.threads mover = after at move
      generalize reached : Tally.of events now = tally at stage
      cases move with
      | capturing inner =>
          obtain ⟨may, notFirst⟩ := inner.mayDraw_of_ofDraw draws
          cases stage with
          | running uses agreed =>
              have told := congrArg Tally.notified reached
              rw [notFirst agreed] at told
              have told : notified events = [.firstCapture] := told
              simp [told]
          | closing | failing => cases may
          | stopped stands | failed stands => cases stands
    · exact absurd stands notStanding
  · exact absurd (protocol.others mover own) notStanding

end FollowsProtocol

/-- Every run of `startCapture` that is entered with the device open, and with nobody
else capturing, opening or releasing, follows the protocol. -/
theorem followsProtocol_of_run {start final : World} {thread : ThreadId} {events : List Event}
    (entered : Entered start thread) (calls : ∀ event ∈ events, SessionCall event)
    (ran : run start events = some final) : FollowsProtocol start final thread events := by
  have protocol := entered.protocol_of_run calls ran
  refine ⟨protocol.ends, ?_, ?_, ?_⟩
  · obtain ⟨first, ending, told, others⟩ := protocol.stage.notified_eq
    have told : notified events = _ := told
    rw [told, List.count_append, List.count_eq_zero_of_not_mem others]
    cases first <;> simp [Tally.inLoop, Tally.tell, Tally.of]
  · rintro before event after rfl draws
    obtain ⟨middle, next, reached, stepped, -⟩ := LabelledRun.run_append_cons_iff.mp ran
    have before := entered.protocol_of_run (fun other member => calls other (by simp [member]))
      reached
    exact before.told_of_draw (calls event (by simp)) stepped draws
  · rintro before stopper after rfl raised
    obtain ⟨middle, next, reached, stepped, rest⟩ := LabelledRun.run_append_cons_iff.mp ran
    have stopped := (entered.protocol_of_run (fun other member => calls other (by simp [member]))
      reached).step entered.isOpen (calls _ (by simp)) stepped
    have winds : WindsDown thread next :=
      { own := stopped.stage.capturing_or_bystander
        lowered := Camera.mPeekRun_of_writePeek (camera_of_step stepped)
        late := stopped.raised (by simp [raised])
        others := stopped.others }
    have bound := winds.framesDrawn_le (fun other member => calls other (by simp [member])) rest
      false
    split_ifs at bound <;> omega

/-- One frame that is drawn although the stop came before it was dequeued. -/
def stoppedFrameEvents : List Event :=
  setPreviewEvents 7 ++
    [.readFd 5, .writePeek true, .loopTest true, .readFd 5, .select 5 1 0,
      .recheck true].map (fun action => (1, action)) ++
    stopCallEvents ++ [(userThread, .writePeek false)] ++
    [.clearBufInfo, .dequeueBuf 5 (.filled 2), .notify .firstCapture].map
      (fun action => (1, action)) ++
    previewToConvertEvents 1 7 2 ++
    [.window (some 7) .configure, .window (some 7) (.dequeue false), .unlock .previewLock,
      .lock .encoderLock, .encodersEmpty true, .unlock .encoderLock, .freeScratch .rgba8888,
      .requeueBuf 5 2 true, .loopTest false, .writePeek false,
      .notify .captureStop].map (fun action => (1, action))

theorem followsProtocol_stoppedFrame :
    ∃ start final, Entered start 1 ∧ run start stoppedFrameEvents = some final ∧
      FollowsProtocol start final 1 stoppedFrameEvents := by
  obtain ⟨start, started⟩ := Option.isSome_iff_exists.mp
    (by decide : (run (attached 640 480) (startEvents 5 1 ++ [(1, .getCamera true)])).isSome = true)
  obtain ⟨capture, user, isOpen, ran⟩ := (by decide :
    ∀ start ∈ run (attached 640 480) (startEvents 5 1 ++ [(1, .getCamera true)]),
      start.threads 1 = .capturing true .checkFd ∧ start.threads 0 = .idle ∧
        0 ≤ start.camera.mFD ∧ (run start stoppedFrameEvents).isSome = true) start started
  obtain ⟨final, ran⟩ := Option.isSome_iff_exists.mp ran
  have confined : Confined [0, 1] start := (confined_attached 640 480).of_run
    (by decide : ∀ event ∈ startEvents 5 1 ++ [(1, .getCamera true)], Within [0, 1] event) started
  have entered : Entered start 1 := by
    refine ⟨capture, isOpen, ?_⟩
    intro other distinct
    by_cases isUser : other = 0
    · rw [isUser, user]
      rfl
    · rw [confined other (by simp [isUser, distinct])]
      rfl
  exact ⟨start, final, entered, ran, followsProtocol_of_run entered (by decide) ran⟩

end World

end UsbCamera
