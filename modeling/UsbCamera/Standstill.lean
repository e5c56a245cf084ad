import UsbCamera.LockHolding
import UsbCamera.ProgramProgress

/-!
# When the threads stand still

Every statement of the camera can be executed whatever the state is, but for the ones that take
a lock.  Since nobody waits in a circle and the callbacks return, the threads come to a
standstill in one way only: they all wait for `mClientLock`, and the thread that owns it has left
a notification through the exception and has nothing more to do.
-/

namespace UsbCamera

/-- The native functions on a stack are at work. -/
def Working (stack : List Activation) : Prop :=
  ∀ pc, .native pc ∈ stack → pc.hasReturned = false

theorem Activation.Move.working {frame : Activation} {action : JavaAction}
    {frames : List Activation} (move : Move frame action frames) : Working frames := by
  intro pc member
  cases move with
  | @native before after action _ inside =>
      have still := Pc.hasReturned_of_move inside
      cases action <;> simp [afterNative] at member <;> rw [member] <;> exact still
  | @callNative method client entry =>
      have entered : pc = Pc.enter entry := by simpa using member
      rw [entered]
      exact Pc.hasReturned_of_move .call
  | @clientCalls call =>
      cases call with
      | update method client => simp [JavaCall.activation] at member
      | stop =>
          have entered : pc = Pc.enter .stop := by simpa [JavaCall.activation] using member
          rw [entered]
          rfl
  | _ => simp at member

theorem Working.next {stack after : List Activation} {action : JavaAction}
    (working : Working stack) (moved : App.nextStack stack action = some after) :
    Working after := by
  cases stack with
  | nil =>
      cases action with
      | enter call =>
          rw [← Option.some.inj moved]
          have entered : Working [call.activation, .callback] := Activation.Move.clientCalls.working
          intro pc member
          exact entered pc (List.mem_cons.mpr (Or.inl (List.mem_singleton.mp member)))
      | _ => cases moved
  | cons frame rest =>
      obtain ⟨frames, topMoved, rfl⟩ := Option.map_eq_some_iff.mp moved
      intro pc member
      rcases List.mem_append.mp member with placed | below
      · exact (Activation.move_of_next topMoved).working pc placed
      · exact working pc (List.mem_cons_of_mem _ below)

namespace App

/-! ## Three ways to be -/

/-- The locks say who is inside their sections, and every function is at work. -/
structure Lively (events : List (ThreadId × JavaAction)) (app : App) : Prop where
  taken : LocksTaken app
  counted : Counted events app
  working : ∀ thread, Working (app.stackOf thread)

section Steps

variable {app next : App} {thread capture : ThreadId} {action : JavaAction}
  {events : List (ThreadId × JavaAction)}

theorem Begins.lively (begins : Begins app capture) : Lively [] app := by
  refine ⟨begins.locksTaken, begins.counted, fun thread pc member => ?_⟩
  rcases begins.stack thread with capturing | idle
  · rw [capturing] at member
    cases List.mem_singleton.mp member
    rfl
  · rw [idle] at member
    cases member

theorem Lively.step (lively : Lively events app)
    (stepped : app.step (thread, action) = some next) :
    Lively (events ++ [(thread, action)]) next := by
  refine ⟨lively.taken.step stepped, lively.counted.step stepped, fun other => ?_⟩
  by_cases mover : other = thread
  · subst mover
    exact (lively.working other).next (moved_of_step stepped)
  · rw [other_of_step stepped mover]
    exact lively.working other

theorem lively_of_run {final : App} (begins : Begins app capture)
    (ran : run app events = some final) : Lively events final := by
  refine LabelledRun.history_of_run ?_ begins.lively
    (LabelledRun.everyStep_of_forall_mem fun event _ => (trivial : True)) ran
  rintro before state ⟨mover, action⟩ after lively - stepped
  exact lively.step stepped

/-- The thread can take a step. -/
def CanStep (app : App) (thread : ThreadId) : Prop :=
  ∃ action next, app.step (thread, action) = some next

theorem canStep_of (action : JavaAction) {frame : Activation} {rest frames : List Activation}
    {shared : App} (stack : app.stackOf thread = frame :: rest)
    (moved : frame.next action = some frames)
    (applied : app.apply thread action = some shared) : app.CanStep thread := by
  refine ⟨action, _, step_eq_some_iff.mpr ⟨frames ++ rest, shared, ?_, applied, rfl⟩⟩
  rw [stack, nextStack, moved]
  rfl

theorem exists_apply_of_possible {action : Action}
    (possible : Possible app.mNativeObject app.camera app.device thread action) :
    ∃ shared, app.apply thread (.native action) = some shared := by
  obtain ⟨attached, pointer⟩ := Option.isSome_iff_exists.mp possible.pointer
  obtain ⟨camera, fields⟩ := Option.isSome_iff_exists.mp possible.fields
  obtain ⟨device, kernel⟩ := Option.isSome_iff_exists.mp possible.kernel
  exact ⟨_, by rw [apply, pointer, fields, kernel]; rfl⟩

/-- The native top of a stack takes a mutex, or the thread can step. -/
theorem waits_or_steps_native {pc : Pc} {rest : List Activation}
    (stack : app.stackOf thread = .native pc :: rest) (working : pc.hasReturned = false) :
    (∃ mutex, app.Requests thread mutex) ∨ app.CanStep thread := by
  by_cases idle : pc = .idle
  · subst idle
    have returns : Activation.next (.native .idle) .leave = some [] := rfl
    exact Or.inr (canStep_of _ stack returns rfl)
  · have goesOn : GoesOn app.mNativeObject app.camera app.device thread pc.next :=
      Pc.goesOn working
    rcases goesOn with ⟨mutex, waits⟩ | ⟨action, moves, possible⟩
    · obtain ⟨pc', moved⟩ := Option.isSome_iff_exists.mp waits
      exact Or.inl ⟨mutex, pc, rest, pc', stack, moved⟩
    · obtain ⟨pc', moved⟩ := Option.isSome_iff_exists.mp moves
      obtain ⟨shared, applied⟩ := exists_apply_of_possible possible
      have topMoved : (Activation.native pc).next (.native action) =
          some (Activation.afterNative pc' action) := by
        cases pc with
        | idle => exact absurd rfl idle
        | _ =>
            rw [Activation.next, moved]
            · rfl
            · simp
      exact Or.inr (canStep_of _ stack topMoved applied)

/-- A thread inside a section can leave it. -/
theorem Lively.exists_unlock (lively : Lively events app) {frame : Activation}
    {rest : List Activation} (stack : app.stackOf thread = frame :: rest)
    (inside : frame.inSection = true) :
    ∃ shared, app.apply thread .unlockClients = some shared := by
  have entered := lively.counted.held thread
  rw [stack, Activation.sections_cons, inside] at entered
  have holds : 0 < app.holdCount thread := by
    rw [entered]
    simp only [Bool.toNat_true]
    omega
  obtain ⟨count, taken⟩ := (holdCount_pos_iff lively.counted).mp holds
  simp [apply, taken, unlockClients]

/-- The loop goes on, ends, or finds the list modified. -/
theorem canStep_of_loop {notification : Notification} {cursor : FailFastList.Cursor}
    {rest : List Activation}
    (stack : app.stackOf thread = .notify notification (.loop cursor) :: rest) :
    app.CanStep thread := by
  by_cases more : app.mClients.hasNext cursor = true
  · cases given : app.mClients.next cursor with
    | none =>
        exact canStep_of (.loopStale cursor) stack (if_pos rfl)
          (if_pos ⟨more, by rw [given]; rfl⟩)
    | some item =>
        exact canStep_of (.loopNext cursor item.1) stack (if_pos rfl)
          (if_pos ⟨more, by rw [given]; rfl⟩)
  · exact canStep_of (.loopEnd cursor) stack (if_pos rfl) (if_neg more)

/-- A thread that is not idle waits for a lock or can step. -/
theorem Lively.waits_or_steps (lively : Lively events app) (busy : app.stackOf thread ≠ []) :
    app.RequestsClients thread ∨ (∃ mutex, app.Requests thread mutex) ∨ app.CanStep thread := by
  obtain ⟨frame, rest, stack⟩ := List.exists_cons_of_ne_nil busy
  cases frame with
  | native pc =>
      refine Or.inr (waits_or_steps_native stack (lively.working thread pc ?_))
      rw [stack]
      exact List.mem_cons_self
  | callback => exact Or.inr (Or.inr (canStep_of .leave stack rfl rfl))
  | update method client pc =>
      cases pc with
      | lock => exact Or.inl ⟨_, rest, _, stack, rfl⟩
      | changeList =>
          exact Or.inr (Or.inr (canStep_of (.changeList method client) stack
            (if_pos ⟨rfl, rfl⟩) rfl))
      | isEncoder | getSurface =>
          exact Or.inr (Or.inr (canStep_of .callBack stack rfl rfl))
      | isEncoderReturned =>
          exact Or.inr (Or.inr (canStep_of (.answerIsEncoder true) stack rfl rfl))
      | getSurfaceReturned =>
          exact Or.inr (Or.inr (canStep_of (.answerGetSurface none) stack rfl rfl))
      | callNative entry =>
          exact Or.inr (Or.inr (canStep_of .callNative stack rfl rfl))
      | unlock =>
          obtain ⟨shared, applied⟩ := lively.exists_unlock stack rfl
          exact Or.inr (Or.inr (canStep_of _ stack rfl applied))
  | notify notification pc =>
      cases pc with
      | lock => exact Or.inl ⟨_, rest, _, stack, rfl⟩
      | iterator =>
          exact Or.inr (Or.inr (canStep_of (.iterator app.mClients.iterator) stack rfl
            (if_pos rfl)))
      | loop cursor => exact Or.inr (Or.inr (canStep_of_loop stack))
      | unlock =>
          obtain ⟨shared, applied⟩ := lively.exists_unlock stack rfl
          exact Or.inr (Or.inr (canStep_of _ stack rfl applied))

end Steps

/-! ## The standstill -/

/-- Not every thread is idle, and none of the others can step. -/
structure Standstill (app : App) : Prop where
  someBusy : ∃ thread, app.stackOf thread ≠ []
  noneSteps : ∀ thread, app.stackOf thread ≠ [] → ∀ action, app.step (thread, action) = none

section Results

variable {app final : App} {thread capture : ThreadId} {events : List (ThreadId × JavaAction)}

theorem Standstill.not_canStep (still : Standstill app) (busy : app.stackOf thread ≠ []) :
    ¬ app.CanStep thread := by
  rintro ⟨action, next, stepped⟩
  rw [still.noneSteps thread busy action] at stepped
  cases stepped

theorem canStep_of_requestsClients (requests : app.RequestsClients thread)
    (free : ∀ owner count, app.mClientLock = some (owner, count) → owner = thread) :
    app.CanStep thread := by
  obtain ⟨frame, rest, frames, stack, moved⟩ := requests
  cases taken : app.mClientLock with
  | none => exact canStep_of _ stack moved (by simp only [apply, taken]; rfl)
  | some holding =>
      obtain ⟨owner, count⟩ := holding
      have own := free owner count taken
      exact canStep_of _ stack moved (by simp only [apply, taken, lockClients, own, if_true]; rfl)

theorem canStep_of_requests {mutex : Mutex} (requests : app.Requests thread mutex)
    (free : app.camera.holder mutex = none) : app.CanStep thread := by
  obtain ⟨pc, rest, pc', stack, moved⟩ := requests
  have topMoved : (Activation.native pc).next (.native (.lock mutex)) =
      some (Activation.afterNative pc' (.lock mutex)) := by
    cases pc with
    | idle => cases moved
    | _ =>
        rw [Activation.next, moved]
        · rfl
        · simp
  have locked : app.camera.apply thread (.lock mutex) =
      some (app.camera.setHolder mutex (some thread)) := if_pos free
  exact canStep_of _ stack topMoved (by simp [apply, locked, World.applyPointer, Device.apply]; rfl)

/-- At `lock()` there is no other statement to go on with. -/
theorem step_of_waits (requests : app.RequestsClients thread) {owner : ThreadId} {count : Nat}
    (taken : app.mClientLock = some (owner, count)) (distinct : owner ≠ thread)
    {action : JavaAction} : app.step (thread, action) = none := by
  obtain ⟨frame, rest, frames, stack, moved⟩ := requests
  have refused : app.apply thread .lockClients = none := by
    simp [apply, taken, lockClients, distinct]
  cases stepped : app.step (thread, action) with
  | none => rfl
  | some next =>
      obtain ⟨placed, shared, stepMoved, applied, -⟩ := step_eq_some_iff.mp stepped
      rw [stack] at stepMoved
      obtain ⟨top, topMoved, -⟩ := Option.map_eq_some_iff.mp stepMoved
      have locks : action = .lockClients := by
        cases Activation.move_of_next moved with
        | updateLocks | notifyLocks =>
            cases Activation.move_of_next topMoved
            rfl
      rw [locks, refused] at applied
      cases applied

/-- A thread that holds one of the two mutexes of the native object takes no lock, so it can
step. -/
theorem Lively.canStep_of_holder (lively : Lively events app) {mutex : Mutex}
    (held : app.camera.holder mutex = some thread) : app.CanStep thread := by
  obtain ⟨pc, rest, stack⟩ := lively.taken.outside held
  have inside : Activation.topHolds (app.stackOf thread) = some mutex :=
    (lively.taken.owned mutex thread).mp held
  rcases lively.waits_or_steps (by rw [stack]; simp) with requests | ⟨other, requests⟩ | steps
  · rw [requests.topHolds] at inside
    cases inside
  · rw [requests.topHolds] at inside
    cases inside
  · exact steps

/-- In a standstill all threads wait for `mClientLock`, and its owner is a thread that is idle
and has abandoned a notification. -/
theorem Lively.of_standstill (lively : Lively events app) (still : Standstill app) :
    (∀ thread, app.stackOf thread ≠ [] → app.RequestsClients thread) ∧
      ∃ owner, app.stackOf owner = [] ∧ 0 < abandoned events owner := by
  have mutexFree : ∀ mutex, app.camera.holder mutex = none := by
    intro mutex
    cases held : app.camera.holder mutex with
    | none => rfl
    | some owner =>
        obtain ⟨pc, rest, stack⟩ := lively.taken.outside held
        exact absurd (lively.canStep_of_holder held) (still.not_canStep (by rw [stack]; simp))
  have waiting : ∀ thread, app.stackOf thread ≠ [] → app.RequestsClients thread := by
    intro thread busy
    rcases lively.waits_or_steps busy with requests | ⟨mutex, requests⟩ | steps
    · exact requests
    · exact absurd (canStep_of_requests requests (mutexFree mutex)) (still.not_canStep busy)
    · exact absurd steps (still.not_canStep busy)
  refine ⟨waiting, ?_⟩
  obtain ⟨thread, busy⟩ := still.someBusy
  -- somebody else owns the lock, and an owner that is busy could take it again
  obtain ⟨owner, count, taken⟩ : ∃ owner count, app.mClientLock = some (owner, count) := by
    by_contra none
    refine still.not_canStep busy (canStep_of_requestsClients (waiting thread busy) ?_)
    intro owner count taken
    exact absurd ⟨owner, count, taken⟩ none
  have idle : app.stackOf owner = [] := by
    by_contra ownerBusy
    refine still.not_canStep ownerBusy
      (canStep_of_requestsClients (waiting owner ownerBusy) ?_)
    intro other otherCount alsoTaken
    rw [taken] at alsoTaken
    cases alsoTaken
    rfl
  refine ⟨owner, idle, ?_⟩
  have holds := (holdCount_pos_iff lively.counted).mpr ⟨count, taken⟩
  have entered := lively.counted.held owner
  rw [idle, Activation.sections_nil] at entered
  omega

/-- The threads stand still exactly when all of them wait for `mClientLock` and its owner is a
thread that is idle, having abandoned a notification. -/
theorem standstill_iff (begins : Begins app capture) (ran : run app events = some final) :
    Standstill final ↔
      (∃ thread, final.stackOf thread ≠ []) ∧
        (∀ thread, final.stackOf thread ≠ [] → final.RequestsClients thread) ∧
        ∃ owner, final.stackOf owner = [] ∧ 0 < abandoned events owner := by
  have lively := lively_of_run begins ran
  constructor
  · intro still
    exact ⟨still.someBusy, lively.of_standstill still⟩
  · rintro ⟨someBusy, waiting, owner, idle, left⟩
    refine ⟨someBusy, fun thread busy action => ?_⟩
    have entered := lively.counted.held owner
    obtain ⟨count, taken⟩ := (holdCount_pos_iff lively.counted).mp
      (show 0 < final.holdCount owner by omega)
    refine step_of_waits (waiting thread busy) taken ?_
    rintro rfl
    exact busy idle

/-- After the abandoned notification the capture draws its frame and is stopped by the user
thread, which then waits for the lock nobody gives back. -/
def stoppedAfterEvents : List (ThreadId × JavaAction) :=
  abandonedEvents ++
  [.readPreview none, .lock .previewLock, .readPreview none, .freeScratch .yuv420sp,
    .unlock .previewLock, .lock .encoderLock, .encodersEmpty true, .unlock .encoderLock,
    .freeScratch .rgba8888, .requeueBuf 5 2 true].map (fun action => (1, .native action)) ++
  [.enter .stop, .native (.getCamera true), .native (.writePeek false), .leave].map
    (fun action => (0, action)) ++
  [.native (.loopTest false), .native (.writePeek false), .native (.notify .captureStop),
    .lockClients, .iterator ⟨0, 2⟩, .loopNext ⟨0, 2⟩ 4, .leave, .loopNext ⟨1, 2⟩ 6, .leave,
    .loopEnd ⟨2, 2⟩, .unlockClients, .leave].map (fun action => (1, action)) ++
  [(0, .enter (.update .addClient 7))]

theorem standstill_stoppedAfter :
    ∃ final, run (opened 5 1) stoppedAfterEvents = some final ∧ Standstill final := by
  obtain ⟨final, ran⟩ := Option.isSome_iff_exists.mp
    (by decide : (run (opened 5 1) stoppedAfterEvents).isSome = true)
  have placed : (run (opened 5 1) stoppedAfterEvents).map
      (fun app => (app.stackOf 0, app.stackOf 1)) =
      some ([.update .addClient 7 .lock], []) := by decide
  rw [ran] at placed
  obtain ⟨user, capture⟩ := Prod.mk.inj (Option.some.inj placed)
  refine ⟨final, ran, (standstill_iff (begins_opened 5 1) ran).mpr ⟨?_, ?_, ?_⟩⟩
  · exact ⟨0, by simp [user]⟩
  · intro thread busy
    by_cases isUser : thread = 0
    · subst isUser
      exact ⟨_, [], _, user, rfl⟩
    · by_cases isCapture : thread = 1
      · subst isCapture
        exact absurd capture busy
      · have absent : ∀ event ∈ stoppedAfterEvents, event.1 = 0 ∨ event.1 = 1 := by decide
        have notMoved : ∀ event ∈ stoppedAfterEvents, event.1 ≠ thread := by
          rintro event member rfl
          rcases absent event member with zero | one
          · exact isUser zero
          · exact isCapture one
        have still := stackOf_of_run notMoved ran
        rw [still] at busy
        simp [opened, isCapture] at busy
  · exact ⟨1, capture, by decide⟩

end Results

end App

end UsbCamera
