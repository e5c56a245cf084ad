import UsbCamera.JavaCamera
import UsbCamera.ProgramSteps

/-!
# Threads that cross between Java and native code

`addClient`, `removeClient` and the three notifications as they run on threads: each thread
has a stack of activations, Java methods and client callbacks above native code and native
code above Java methods, and any thread may perform the next action of its topmost one.
Callbacks return normally and may call the camera again, on the thread that called them
back.  The native activations are those of the native programs, and the fields of the native
object and the device change as they say.
-/

namespace UsbCamera

/-! ## Activations -/

/-- The two methods that change the list of clients. -/
inductive ClientMethod
  | addClient
  | removeClient
  deriving DecidableEq

/-- Points of `addClient` and `removeClient`. -/
inductive UpdatePc
  | lock
  | changeList
  | isEncoder
  | isEncoderReturned
  | getSurface (encoder : Bool)
  | getSurfaceReturned (encoder : Bool)
  | callNative (entry : Call)
  | unlock
  deriving DecidableEq

namespace ClientMethod

/-- The native method for the surface the client has handed over. -/
def entry (encoder : Bool) (jsurface : Option Surface) : ClientMethod → Call
  | .addClient => if encoder then .addEncoder jsurface else .setPreview jsurface
  | .removeClient => .removeEncoder jsurface

/-- `removeClient` does not ask a preview client for its surface. -/
def afterIsEncoder (encoder : Bool) : ClientMethod → UpdatePc
  | .addClient => .getSurface encoder
  | .removeClient => if encoder then .getSurface true else .callNative (.setPreview none)

def change (clients : FailFastList ClientId) (client : ClientId) :
    ClientMethod → FailFastList ClientId
  | .addClient => clients.add client
  | .removeClient => clients.remove client

end ClientMethod

deriving instance DecidableEq for FailFastList.Cursor

/-- Points of the three notifications. -/
inductive NotifyPc
  | lock
  | iterator
  | loop (cursor : FailFastList.Cursor)
  | unlock
  deriving DecidableEq

/-- An activation on the stack of a thread; `callback` is client code. -/
inductive Activation
  | native (pc : Pc)
  | update (method : ClientMethod) (client : ClientId) (pc : UpdatePc)
  | notify (notification : Notification) (pc : NotifyPc)
  | callback
  deriving DecidableEq

/-- What client code and the user's own code call. -/
inductive JavaCall
  | update (method : ClientMethod) (client : ClientId)
  | stop
  deriving DecidableEq

def JavaCall.activation : JavaCall → Activation
  | .update method client => .update method client .lock
  | .stop => .native (Pc.enter .stop)

/-- One step of a thread, with what it observed or was answered. -/
inductive JavaAction
  | native (action : Action)
  | enter (call : JavaCall)
  | leave
  | lockClients
  | unlockClients
  | changeList (method : ClientMethod) (client : ClientId)
  | callBack
  | answerIsEncoder (encoder : Bool)
  | answerGetSurface (jsurface : Option Surface)
  | callNative
  | iterator (cursor : FailFastList.Cursor)
  | loopNext (cursor : FailFastList.Cursor) (client : ClientId)
  | loopEnd (cursor : FailFastList.Cursor)
  | loopStale (cursor : FailFastList.Cursor)
  deriving DecidableEq

/-- The action only looks at what is shared. -/
def JavaAction.observes : JavaAction → Bool
  | .native _ | .lockClients | .unlockClients | .changeList _ _ => false
  | _ => true

namespace Activation

/-- What a native step leaves on the stack: a notification runs above the native code that
sends it. -/
def afterNative (pc : Pc) : Action → List Activation
  | .notify notification => [.notify notification .lock, .native pc]
  | _ => [.native pc]

/-- The activations that replace the topmost one.  A callback ends by returning to the method
that called it; none throws. -/
def next : Activation → JavaAction → Option (List Activation)
  | .native .idle, .leave => some []
  | .native .idle, _ => none
  | .native pc, .native action => (pc.next action).map fun pc => afterNative pc action
  | .update method client .lock, .lockClients => some [.update method client .changeList]
  | .update method client .changeList, .changeList other argument =>
      if other = method ∧ argument = client then some [.update method client .isEncoder] else none
  | .update method client .isEncoder, .callBack =>
      some [.callback, .update method client .isEncoderReturned]
  | .update method client .isEncoderReturned, .answerIsEncoder encoder =>
      some [.update method client (method.afterIsEncoder encoder)]
  | .update method client (.getSurface encoder), .callBack =>
      some [.callback, .update method client (.getSurfaceReturned encoder)]
  | .update method client (.getSurfaceReturned encoder), .answerGetSurface jsurface =>
      some [.update method client (.callNative (method.entry encoder jsurface))]
  | .update method client (.callNative entry), .callNative =>
      some [.native (Pc.enter entry), .update method client .unlock]
  | .update _ _ .unlock, .unlockClients => some []
  | .notify notification .lock, .lockClients => some [.notify notification .iterator]
  | .notify notification .iterator, .iterator cursor => some [.notify notification (.loop cursor)]
  | .notify notification (.loop cursor), .loopNext other _ =>
      if other = cursor then
        some [.callback,
          .notify notification (.loop { cursor with nextIndex := cursor.nextIndex + 1 })]
      else none
  | .notify notification (.loop cursor), .loopEnd other =>
      if other = cursor then some [.notify notification .unlock] else none
  -- the exception leaves the method with the lock held, and the native caller goes on
  | .notify _ (.loop cursor), .loopStale other => if other = cursor then some [] else none
  | .notify _ .unlock, .unlockClients => some []
  | .callback, .enter call => some [call.activation, .callback]
  | .callback, .leave => some []
  | _, _ => none

/-- The edges of an activation. -/
inductive Move : Activation → JavaAction → List Activation → Prop
  | nativeReturns : Move (.native .idle) .leave []
  | native {pc pc' : Pc} {action : Action} :
      pc ≠ .idle → Pc.Move pc action pc' →
      Move (.native pc) (.native action) (afterNative pc' action)
  | updateLocks {method : ClientMethod} {client : ClientId} :
      Move (.update method client .lock) .lockClients [.update method client .changeList]
  | changeList {method : ClientMethod} {client : ClientId} :
      Move (.update method client .changeList) (.changeList method client)
        [.update method client .isEncoder]
  | askIsEncoder {method : ClientMethod} {client : ClientId} :
      Move (.update method client .isEncoder) .callBack
        [.callback, .update method client .isEncoderReturned]
  | isEncoder {method : ClientMethod} {client : ClientId} {encoder : Bool} :
      Move (.update method client .isEncoderReturned) (.answerIsEncoder encoder)
        [.update method client (method.afterIsEncoder encoder)]
  | askSurface {method : ClientMethod} {client : ClientId} {encoder : Bool} :
      Move (.update method client (.getSurface encoder)) .callBack
        [.callback, .update method client (.getSurfaceReturned encoder)]
  | getSurface {method : ClientMethod} {client : ClientId} {encoder : Bool}
      {jsurface : Option Surface} :
      Move (.update method client (.getSurfaceReturned encoder)) (.answerGetSurface jsurface)
        [.update method client (.callNative (method.entry encoder jsurface))]
  | callNative {method : ClientMethod} {client : ClientId} {entry : Call} :
      Move (.update method client (.callNative entry)) .callNative
        [.native (Pc.enter entry), .update method client .unlock]
  | updateUnlocks {method : ClientMethod} {client : ClientId} :
      Move (.update method client .unlock) .unlockClients []
  | notifyLocks {notification : Notification} :
      Move (.notify notification .lock) .lockClients [.notify notification .iterator]
  | iterator {notification : Notification} {cursor : FailFastList.Cursor} :
      Move (.notify notification .iterator) (.iterator cursor) [.notify notification (.loop cursor)]
  | loopNext {notification : Notification} {cursor : FailFastList.Cursor} {client : ClientId} :
      Move (.notify notification (.loop cursor)) (.loopNext cursor client)
        [.callback,
          .notify notification (.loop { cursor with nextIndex := cursor.nextIndex + 1 })]
  | loopEnd {notification : Notification} {cursor : FailFastList.Cursor} :
      Move (.notify notification (.loop cursor)) (.loopEnd cursor) [.notify notification .unlock]
  | loopStale {notification : Notification} {cursor : FailFastList.Cursor} :
      Move (.notify notification (.loop cursor)) (.loopStale cursor) []
  | notifyUnlocks {notification : Notification} :
      Move (.notify notification .unlock) .unlockClients []
  | clientCalls {call : JavaCall} : Move .callback (.enter call) [call.activation, .callback]
  | clientReturns : Move .callback .leave []

theorem move_of_next {frame : Activation} {action : JavaAction} {frames : List Activation}
    (moved : frame.next action = some frames) : Move frame action frames := by
  unfold next at moved
  split at moved
  case h_1 => cases moved; exact .nativeReturns
  case h_3 pc action notIdle =>
      obtain ⟨pc', inside, rfl⟩ := Option.map_eq_some_iff.mp moved
      exact .native (fun idle => notIdle idle) (Pc.move_of_next inside)
  case h_4 => cases moved; exact .updateLocks
  case h_5 =>
      split at moved
      · rename_i same
        obtain ⟨rfl, rfl⟩ := same
        cases moved
        exact .changeList
      · cases moved
  case h_6 => cases moved; exact .askIsEncoder
  case h_7 => cases moved; exact .isEncoder
  case h_8 => cases moved; exact .askSurface
  case h_9 => cases moved; exact .getSurface
  case h_10 => cases moved; exact .callNative
  case h_11 => cases moved; exact .updateUnlocks
  case h_12 => cases moved; exact .notifyLocks
  case h_13 => cases moved; exact .iterator
  case h_14 =>
      split at moved
      · rename_i same
        subst same
        cases moved
        exact .loopNext
      · cases moved
  case h_15 =>
      split at moved
      · rename_i same
        subst same
        cases moved
        exact .loopEnd
      · cases moved
  case h_16 =>
      split at moved
      · rename_i same
        subst same
        cases moved
        exact .loopStale
      · cases moved
  case h_17 => cases moved; exact .notifyUnlocks
  case h_18 => cases moved; exact .clientCalls
  case h_19 => cases moved; exact .clientReturns
  all_goals cases moved

end Activation

/-! ## The state the threads share -/

/-- `mClientLock` is its owner with the hold count. -/
structure App where
  mNativeObject : Bool
  camera : Camera
  device : Device
  mClients : FailFastList ClientId
  mClientLock : Option (ThreadId × Nat)
  stackOf : ThreadId → List Activation

namespace App

/-- Taking the re-entrant lock; `none` when another thread owns it. -/
def lockClients (thread : ThreadId) : Option (ThreadId × Nat) → Option (Option (ThreadId × Nat))
  | none => some (some (thread, 1))
  | some (owner, count) => if owner = thread then some (some (thread, count + 1)) else none

/-- Giving it back; `none` for a thread that does not own it. -/
def unlockClients (thread : ThreadId) :
    Option (ThreadId × Nat) → Option (Option (ThreadId × Nat))
  | none => none
  | some (owner, count) =>
      if owner = thread then some (if count = 1 then none else some (thread, count - 1)) else none

/-- The effect of an action of `thread` on what is shared. -/
def apply (app : App) (thread : ThreadId) : JavaAction → Option App
  | .native action => do
      let mNativeObject ← World.applyPointer app.mNativeObject action
      let camera ← app.camera.apply thread action
      let device ← app.device.apply action
      some { app with mNativeObject := mNativeObject, camera := camera, device := device }
  | .lockClients =>
      (lockClients thread app.mClientLock).map fun held => { app with mClientLock := held }
  | .unlockClients =>
      (unlockClients thread app.mClientLock).map fun held => { app with mClientLock := held }
  | .changeList method client => some { app with mClients := method.change app.mClients client }
  | .iterator cursor => if cursor = app.mClients.iterator then some app else none
  | .loopNext cursor client =>
      if app.mClients.hasNext cursor ∧ (app.mClients.next cursor).map Prod.fst = some client then
        some app
      else none
  | .loopEnd cursor => if app.mClients.hasNext cursor then none else some app
  | .loopStale cursor =>
      if app.mClients.hasNext cursor ∧ (app.mClients.next cursor).isNone then some app else none
  | .enter _ | .leave | .callBack | .answerIsEncoder _ | .answerGetSurface _ | .callNative =>
      some app

/-- What an action of a thread writes. -/
inductive Update (app : App) (thread : ThreadId) : JavaAction → App → Prop
  | native {action : Action} {mNativeObject : Bool} {camera : Camera} {device : Device} :
      World.applyPointer app.mNativeObject action = some mNativeObject →
      app.camera.apply thread action = some camera → app.device.apply action = some device →
      Update app thread (.native action)
        { app with mNativeObject := mNativeObject, camera := camera, device := device }
  | locked {held : Option (ThreadId × Nat)} :
      lockClients thread app.mClientLock = some held →
      Update app thread .lockClients { app with mClientLock := held }
  | unlocked {held : Option (ThreadId × Nat)} :
      unlockClients thread app.mClientLock = some held →
      Update app thread .unlockClients { app with mClientLock := held }
  | changed {method : ClientMethod} {client : ClientId} :
      Update app thread (.changeList method client)
        { app with mClients := method.change app.mClients client }
  | observed {action : JavaAction} : action.observes = true → Update app thread action app

theorem update_of_apply {app shared : App} {thread : ThreadId} {action : JavaAction}
    (applied : app.apply thread action = some shared) : Update app thread action shared := by
  cases action with
  | native action =>
      simp only [apply, Option.bind_eq_bind, Option.bind_eq_some_iff, Option.some.injEq] at applied
      obtain ⟨_, pointer, _, fields, _, kernel, rfl⟩ := applied
      exact .native pointer fields kernel
  | lockClients =>
      obtain ⟨_, taken, rfl⟩ := Option.map_eq_some_iff.mp applied
      exact .locked taken
  | unlockClients =>
      obtain ⟨_, given, rfl⟩ := Option.map_eq_some_iff.mp applied
      exact .unlocked given
  | changeList method client =>
      cases applied
      exact .changed
  | iterator | loopNext | loopEnd | loopStale =>
      simp only [apply] at applied
      split at applied <;> cases applied
      exact .observed rfl
  | _ =>
      cases applied
      exact .observed rfl

/-- The stack after a step of its topmost activation; an idle thread may call. -/
def nextStack : List Activation → JavaAction → Option (List Activation)
  | [], .enter call => some [call.activation]
  | [], _ => none
  | frame :: rest, action => (frame.next action).map fun frames => frames ++ rest

/-- What lies below the topmost activation stays there. -/
theorem nextStack_append {top : Activation} {rest lower after : List Activation}
    {action : JavaAction} (moved : nextStack (top :: rest ++ lower) action = some after) :
    ∃ upper, nextStack (top :: rest) action = some upper ∧ upper ++ lower = after := by
  obtain ⟨frames, topMoved, rfl⟩ := Option.map_eq_some_iff.mp moved
  exact ⟨frames ++ rest, by rw [nextStack, topMoved]; rfl, List.append_assoc _ _ _⟩

/-- One step of one thread. -/
def step (app : App) (event : ThreadId × JavaAction) : Option App := do
  let stack ← nextStack (app.stackOf event.1) event.2
  let shared ← app.apply event.1 event.2
  some { shared with
    stackOf := fun other => if other = event.1 then stack else app.stackOf other }

abbrev run : App → List (ThreadId × JavaAction) → Option App :=
  LabelledRun.run step

abbrev EveryStep (meets : App → ThreadId × JavaAction → Prop) :
    App → List (ThreadId × JavaAction) → Prop :=
  LabelledRun.EveryStep step meets

/-- `capture` is about to run `startCapture`, every other thread is idle, and nobody holds a
lock. -/
structure Begins (app : App) (capture : ThreadId) : Prop where
  capturing : app.stackOf capture = [.native (.capturing true .getCamera)]
  idle : ∀ other, other ≠ capture → app.stackOf other = []
  mutexes : ∀ mutex, app.camera.holder mutex = none
  clients : app.mClientLock = none

/-- The state after a successful `startPreview` that has created the thread `capture`, with the
buffers of the device `fd` queued. -/
def opened (fd : Int) (capture : ThreadId) : App where
  mNativeObject := true
  camera := { Camera.create 640 480 with mFD := fd }
  device := ⟨[fd], [], (List.range bufferNR).map fun index => (fd, index)⟩
  mClients := ⟨[], 0⟩
  mClientLock := none
  stackOf := fun thread => if thread = capture then [.native (.capturing true .getCamera)] else []

theorem begins_opened (fd : Int) (capture : ThreadId) : Begins (opened fd capture) capture where
  capturing := by simp [opened]
  idle := fun other distinct => by simp [opened, distinct]
  mutexes := fun mutex => by cases mutex <;> rfl
  clients := rfl

theorem Begins.stack {app : App} {capture : ThreadId} (begins : Begins app capture)
    (thread : ThreadId) :
    app.stackOf thread = [.native (.capturing true .getCamera)] ∨ app.stackOf thread = [] := by
  by_cases own : thread = capture
  · exact Or.inl (own ▸ begins.capturing)
  · exact Or.inr (begins.idle thread own)

section Steps

variable {app next : App} {thread : ThreadId} {action : JavaAction}

theorem step_eq_some_iff :
    app.step (thread, action) = some next ↔
      ∃ stack shared, nextStack (app.stackOf thread) action = some stack ∧
        app.apply thread action = some shared ∧
        next = { shared with
          stackOf := fun other => if other = thread then stack else app.stackOf other } := by
  simp only [step, Option.bind_eq_bind, Option.bind_eq_some_iff, Option.some.injEq]
  constructor
  · rintro ⟨stack, moved, shared, applied, rfl⟩
    exact ⟨stack, shared, moved, applied, rfl⟩
  · rintro ⟨stack, shared, moved, applied, rfl⟩
    exact ⟨stack, moved, shared, applied, rfl⟩

/-- The thread that moves goes on with its topmost activation. -/
theorem moved_of_step (stepped : app.step (thread, action) = some next) :
    nextStack (app.stackOf thread) action = some (next.stackOf thread) := by
  obtain ⟨stack, shared, moved, -, rfl⟩ := step_eq_some_iff.mp stepped
  simpa using moved

theorem other_of_step (stepped : app.step (thread, action) = some next) {other : ThreadId}
    (distinct : other ≠ thread) : next.stackOf other = app.stackOf other := by
  obtain ⟨stack, shared, -, -, rfl⟩ := step_eq_some_iff.mp stepped
  simp [distinct]

/-- The next state is what the action makes of the shared state, but for the stacks. -/
theorem applied_of_step (stepped : app.step (thread, action) = some next) :
    ∃ shared, app.apply thread action = some shared ∧
      next.mNativeObject = shared.mNativeObject ∧ next.camera = shared.camera ∧
      next.device = shared.device ∧ next.mClients = shared.mClients ∧
      next.mClientLock = shared.mClientLock := by
  obtain ⟨stack, shared, -, applied, rfl⟩ := step_eq_some_iff.mp stepped
  exact ⟨shared, applied, rfl, rfl, rfl, rfl, rfl⟩

theorem camera_of_native {step : Action} (stepped : app.step (thread, .native step) = some next) :
    app.camera.apply thread step = some next.camera := by
  obtain ⟨shared, applied, -, same, -⟩ := applied_of_step stepped
  rw [same]
  cases update_of_apply applied with
  | native _ fields _ => exact fields
  | observed java => cases java

/-- Java code does not touch the fields of the native object. -/
theorem camera_of_java (stepped : app.step (thread, action) = some next)
    (notNative : ∀ step, action ≠ .native step) : next.camera = app.camera := by
  obtain ⟨shared, applied, -, same, -⟩ := applied_of_step stepped
  rw [same]
  cases update_of_apply applied with
  | native => exact absurd rfl (notNative _)
  | _ => rfl

/-- Only the two methods change the list of clients. -/
theorem mClients_of_step (stepped : app.step (thread, action) = some next)
    (notChanged : ∀ method client, action ≠ .changeList method client) :
    next.mClients = app.mClients := by
  obtain ⟨shared, applied, -, -, -, same, -⟩ := applied_of_step stepped
  rw [same]
  cases update_of_apply applied with
  | changed => exact absurd rfl (notChanged _ _)
  | _ => rfl

theorem mClients_of_changeList {method : ClientMethod} {client : ClientId}
    (stepped : app.step (thread, .changeList method client) = some next) :
    next.mClients = method.change app.mClients client := by
  obtain ⟨shared, applied, -, -, -, same, -⟩ := applied_of_step stepped
  cases applied
  exact same

theorem cursor_of_iterator {cursor : FailFastList.Cursor}
    (stepped : app.step (thread, .iterator cursor) = some next) :
    cursor = app.mClients.iterator := by
  obtain ⟨shared, applied, -⟩ := applied_of_step stepped
  simp only [apply] at applied
  split at applied
  · assumption
  · cases applied

/-- The loop goes on to the item its iterator gives, while the list is unmodified. -/
theorem of_loopNext {cursor : FailFastList.Cursor} {client : ClientId}
    (stepped : app.step (thread, .loopNext cursor client) = some next) :
    cursor.expectedModCount = app.mClients.modCount ∧
      app.mClients.items[cursor.nextIndex]? = some client := by
  obtain ⟨shared, applied, -⟩ := applied_of_step stepped
  simp only [apply] at applied
  split at applied
  · rename_i given
    exact FailFastList.of_next given.2
  · cases applied

theorem of_loopEnd {cursor : FailFastList.Cursor}
    (stepped : app.step (thread, .loopEnd cursor) = some next) :
    app.mClients.items.length ≤ cursor.nextIndex := by
  obtain ⟨shared, applied, -⟩ := applied_of_step stepped
  simp only [apply] at applied
  split at applied
  · cases applied
  · rename_i ended
    simpa [FailFastList.hasNext] using ended

/-- An iterator throws when the list has been modified. -/
theorem of_loopStale {cursor : FailFastList.Cursor}
    (stepped : app.step (thread, .loopStale cursor) = some next) :
    cursor.expectedModCount ≠ app.mClients.modCount := by
  obtain ⟨shared, applied, -⟩ := applied_of_step stepped
  simp only [apply] at applied
  split at applied
  · rename_i stale
    exact FailFastList.modified_of_next stale.1 stale.2
  · cases applied

end Steps

end App

end UsbCamera
