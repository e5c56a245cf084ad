import UsbCamera.ClientThreads

/-!
# Who registered which surface

The native object keeps a list of surfaces and does not know whose they are.  A run is followed
here by what its calls have meant to the clients: which client registered which surface,
whether the loop of `notifyFirstCapture` has begun, and who has been told of the first frame.
Every surface in `mEncoderSurfaces` has been registered by a client, since only `addClient`
calls `nativeAddEncoder`.
-/

namespace UsbCamera

/-! ## Calls to and from clients -/

namespace JavaAction

def pushes : JavaAction → Bool
  | .native (.pushEncoder _) => true
  | _ => false

def iterates : JavaAction → Bool
  | .iterator _ => true
  | _ => false

end JavaAction

/-- The client for which a thread is inside the native code of `addClient`. -/
def registrant : List Activation → Option ClientId
  | .native _ :: .update .addClient client _ :: _ => some client
  | _ => none

/-- Is the thread inside `notifyFirstCapture` itself, and not in a callback? -/
def tellsFirst : List Activation → Bool
  | .notify .firstCapture _ :: _ => true
  | _ => false

/-- Which surfaces are registered, and by whom, after an action. -/
def registeredAfter (registered : List (ClientId × Surface)) (stack : List Activation) :
    JavaAction → List (ClientId × Surface)
  | .native (.pushEncoder surface) =>
      registered ++ (registrant stack).toList.map fun client => (client, surface)
  | .native (.removeEncoder surface) =>
      registered.filter fun registration => registration.2 ≠ surface
  | _ => registered

/-- The client whose `onFirstCapture` an action calls. -/
def toldBy (stack : List Activation) : JavaAction → List ClientId
  | .loopNext _ client => if tellsFirst stack then [client] else []
  | _ => []

/-- A state with its history: the surfaces in `mEncoderSurfaces` with the clients that
registered them, and the clients told in this capture. -/
structure Tracked where
  app : App
  registered : List (ClientId × Surface)
  begun : Bool
  told : List ClientId

namespace Tracked

def step (tracked : Tracked) (event : ThreadId × JavaAction) : Option Tracked :=
  (tracked.app.step event).map fun app =>
    { app := app
      registered := registeredAfter tracked.registered (tracked.app.stackOf event.1) event.2
      begun := tracked.begun || (event.2.iterates && tellsFirst (tracked.app.stackOf event.1))
      told := tracked.told ++ toldBy (tracked.app.stackOf event.1) event.2 }

abbrev run : Tracked → List (ThreadId × JavaAction) → Option Tracked :=
  LabelledRun.run step

abbrev EveryStep (meets : Tracked → ThreadId × JavaAction → Prop) :
    Tracked → List (ThreadId × JavaAction) → Prop :=
  LabelledRun.EveryStep step meets

/-- A capture begins with the registrations made before it, and nobody told. -/
structure Begins (tracked : Tracked) (capture : ThreadId) : Prop where
  app : tracked.app.Begins capture
  registered : tracked.registered.map Prod.snd = tracked.app.camera.mEncoderSurfaces
  begun : tracked.begun = false
  told : tracked.told = []

/-- A capture of the device `fd` with no client registered. -/
def opened (fd : Int) (capture : ThreadId) : Tracked :=
  ⟨App.opened fd capture, [], false, []⟩

theorem begins_opened (fd : Int) (capture : ThreadId) : Begins (opened fd capture) capture :=
  ⟨App.begins_opened fd capture, rfl, rfl, rfl⟩

section Steps

variable {tracked next : Tracked} {thread : ThreadId} {action : JavaAction}

/-- A step of the threads, and what it adds to the history. -/
theorem of_step (stepped : tracked.step (thread, action) = some next) :
    tracked.app.step (thread, action) = some next.app ∧
      next.registered =
        registeredAfter tracked.registered (tracked.app.stackOf thread) action ∧
      next.begun = (tracked.begun || (action.iterates && tellsFirst (tracked.app.stackOf thread))) ∧
      next.told = tracked.told ++ toldBy (tracked.app.stackOf thread) action := by
  obtain ⟨app, moved, rfl⟩ := Option.map_eq_some_iff.mp stepped
  exact ⟨moved, rfl, rfl, rfl⟩

end Steps

end Tracked

/-- A surface was registered before, or is being registered by this thread. -/
theorem mem_registeredAfter {registered : List (ClientId × Surface)} {stack : List Activation}
    {action : JavaAction} {registration : ClientId × Surface}
    (member : registration ∈ registeredAfter registered stack action) :
    registration ∈ registered ∨ (action.pushes = true ∧ registration.1 ∈ registrant stack) := by
  unfold registeredAfter at member
  split at member
  · rcases List.mem_append.mp member with earlier | now
    · exact Or.inl earlier
    · obtain ⟨client, registers, rfl⟩ := List.mem_map.mp now
      exact Or.inr ⟨rfl, Option.mem_toList.mp registers⟩
  · exact Or.inl (List.mem_of_mem_filter member)
  · exact Or.inl member

/-! ## Registrants -/

def SurfaceUpdate.adds : SurfaceUpdate → Bool
  | .addEncoder _ => true
  | .setPreview _ | .removeEncoder _ => false

/-- On the way to pushing a surface. -/
def SurfacePc.adds : SurfacePc → Bool
  | .getCamera (some update) | .getCameraFor update | .checkValid update | .lock update
  | .apply update => update.adds
  | _ => false

theorem SurfacePc.adds_of_next {pc after : SurfacePc} {action : Action}
    (moved : pc.next action = some after) (adding : after.adds = true) : pc.adds = true := by
  unfold SurfacePc.next at moved
  split at moved
  all_goals (repeat' split at moved)
  all_goals first
    | cases moved; done
    | (cases moved; cases adding)
    | (cases moved; exact adding)

theorem SurfacePc.adds_of_push {pc after : SurfacePc} {surface : Surface}
    (moved : pc.next (.pushEncoder surface) = some after) : pc.adds = true := by
  cases pc with
  | apply update =>
      cases update with
      | addEncoder => rfl
      | setPreview | removeEncoder => cases moved
  | _ => cases moved

namespace Pc

/-- Inside `nativeAddEncoder`, before the surface is in the list. -/
def adds : Pc → Bool
  | .surface pc => pc.adds
  | _ => false

theorem adds_of_move {pc pc' : Pc} {action : Action} (move : Move pc action pc')
    (working : pc ≠ .idle) (adding : pc'.adds = true) : pc.adds = true := by
  cases move with
  | call => exact absurd rfl working
  | @opening _ pc' _ _ =>
      cases pc' with
      | returned fd => by_cases positive : 0 < fd <;> simp [afterOpen, positive, adds] at adding
      | _ => cases adding
  | @capturing _ _ _ pc' _ _ => cases pc' <;> cases adding
  | @surface _ pc' _ inner =>
      have after : pc'.adds = true := by cases pc' <;> exact adding
      exact SurfacePc.adds_of_next inner after
  | _ => cases adding

theorem adds_of_push {pc pc' : Pc} {surface : Surface}
    (move : Move pc (.pushEncoder surface) pc') : pc.adds = true := by
  cases move with
  | opening inner => cases inner.own
  | capturing inner => rcases inner.own_or_draws with own | draws <;> contradiction
  | surface inner => exact SurfacePc.adds_of_push inner

end Pc

/-- The registrant is told from the caller alone. -/
theorem registrant_native (pc pc' : Pc) (below : List Activation) :
    registrant (.native pc :: below) = registrant (.native pc' :: below) := by
  cases below with
  | nil => rfl
  | cons caller rest =>
      cases caller with
      | update method => cases method <;> rfl
      | _ => rfl

/-- `nativeAddEncoder` runs above the `addClient` that has called it. -/
def Activation.SeatedOn : Activation → List Activation → Prop
  | .native pc, below => pc.adds = true → (registrant (.native pc :: below)).isSome = true
  | .update .removeClient _ (.callNative entry), _ => (Pc.enter entry).adds = false
  | _, _ => True

def Seated : List Activation → Prop
  | [] => True
  | activation :: below => activation.SeatedOn below ∧ Seated below

theorem seatedOn_enter (call : JavaCall) (below : List Activation) :
    call.activation.SeatedOn below := by
  cases call with
  | update method client => cases method <;> trivial
  | stop => exact fun adding => absurd adding (by decide)

theorem ClientMethod.entry_removeClient (encoder : Bool) (jsurface : Option Surface) :
    (Pc.enter (ClientMethod.removeClient.entry encoder jsurface)).adds = false := by
  cases jsurface <;> rfl

theorem Activation.Move.seated {activation : Activation} {action : JavaAction}
    {frames below : List Activation} (move : Move activation action frames)
    (seatedOn : activation.SeatedOn below) (seated : Seated below) : Seated (frames ++ below) := by
  cases move with
  | nativeReturns | updateUnlocks | loopStale | notifyUnlocks | clientReturns => exact seated
  | @native pc pc' action working inside =>
      have stays : Seated (.native pc' :: below) :=
        ⟨fun adding => registrant_native pc pc' below ▸
          seatedOn (Pc.adds_of_move inside working adding), seated⟩
      cases action with
      | notify => exact ⟨trivial, stays⟩
      | _ => exact stays
  | @callNative method client entry =>
      cases method with
      | addClient => exact ⟨fun _ => rfl, trivial, seated⟩
      | removeClient =>
          have other : (Pc.enter entry).adds = false := seatedOn
          exact ⟨fun adding => absurd adding (by simp [other]), trivial, seated⟩
  | @getSurface method client encoder jsurface =>
      cases method with
      | addClient => exact ⟨trivial, seated⟩
      | removeClient => exact ⟨ClientMethod.entry_removeClient encoder jsurface, seated⟩
  | @isEncoder method client encoder =>
      cases method with
      | addClient => exact ⟨trivial, seated⟩
      | removeClient => cases encoder <;> exact ⟨by trivial, seated⟩
  | @clientCalls call => exact ⟨seatedOn_enter call _, trivial, seated⟩
  | @updateLocks method | @changeList method => cases method <;> exact ⟨trivial, seated⟩
  | @askIsEncoder method | @askSurface method =>
      cases method <;> exact ⟨trivial, trivial, seated⟩
  | notifyLocks | iterator | loopEnd => exact ⟨trivial, seated⟩
  | loopNext => exact ⟨trivial, trivial, seated⟩

theorem Seated.next {stack after : List Activation} {action : JavaAction} (seated : Seated stack)
    (moved : App.nextStack stack action = some after) : Seated after := by
  cases stack with
  | nil =>
      cases action with
      | enter call =>
          rw [← Option.some.inj moved]
          exact ⟨seatedOn_enter call [], trivial⟩
      | _ => cases moved
  | cons activation below =>
      obtain ⟨frames, topMoved, rfl⟩ := Option.map_eq_some_iff.mp moved
      exact (Activation.move_of_next topMoved).seated seated.1 seated.2

namespace Tracked

/-- The registrations account for the whole list of the native object. -/
structure Recorded (tracked : Tracked) : Prop where
  surfaces : tracked.registered.map Prod.snd = tracked.app.camera.mEncoderSurfaces
  seated : ∀ thread, Seated (tracked.app.stackOf thread)

theorem Begins.recorded {tracked : Tracked} {capture : ThreadId}
    (begins : Begins tracked capture) : Recorded tracked := by
  refine ⟨begins.registered, fun thread => ?_⟩
  rcases begins.app.stack thread with capturing | idle
  · rw [capturing]
    exact ⟨fun adding => absurd adding (by decide), trivial⟩
  · rw [idle]
    trivial

section Steps

variable {tracked next : Tracked} {thread : ThreadId} {action : JavaAction}

/-- A surface is pushed on behalf of a client. -/
theorem Recorded.registrant_of_push (recorded : Recorded tracked) {surface : Surface} {app : App}
    (stepped : tracked.app.step (thread, .native (.pushEncoder surface)) = some app) :
    ∃ client, registrant (tracked.app.stackOf thread) = some client := by
  have moved := App.moved_of_step stepped
  have seated := recorded.seated thread
  generalize tracked.app.stackOf thread = stack at moved seated
  cases stack with
  | nil => cases moved
  | cons activation below =>
      obtain ⟨frames, topMoved, -⟩ := Option.map_eq_some_iff.mp moved
      cases Activation.move_of_next topMoved with
      | native working inside =>
          exact Option.isSome_iff_exists.mp (seated.1 (Pc.adds_of_push inside))

theorem Recorded.surfaces_of_step (recorded : Recorded tracked)
    (stepped : tracked.step (thread, action) = some next) :
    next.registered.map Prod.snd = next.app.camera.mEncoderSurfaces := by
  obtain ⟨appStepped, registered, -⟩ := of_step stepped
  rw [registered]
  cases action with
  | native step =>
      have applied := App.camera_of_native appStepped
      cases step with
      | pushEncoder surface =>
          obtain ⟨client, registers⟩ := recorded.registrant_of_push appStepped
          have pushed : { tracked.app.camera with
              mEncoderSurfaces := tracked.app.camera.mEncoderSurfaces ++ [surface] } =
              next.app.camera := Option.some.inj applied
          simp [registeredAfter, registers, recorded.surfaces, ← pushed]
      | removeEncoder surface =>
          have removed : { tracked.app.camera with
              mEncoderSurfaces :=
                tracked.app.camera.mEncoderSurfaces.filter fun other => other ≠ surface } =
              next.app.camera := Option.some.inj applied
          rw [← removed, ← recorded.surfaces, List.filter_map]
          rfl
      | _ =>
          rw [Camera.mEncoderSurfaces_of_apply applied (by simp) (by simp)]
          exact recorded.surfaces
  | _ =>
      rw [App.camera_of_java appStepped (by simp)]
      exact recorded.surfaces

theorem Recorded.step (recorded : Recorded tracked)
    (stepped : tracked.step (thread, action) = some next) : Recorded next := by
  refine ⟨recorded.surfaces_of_step stepped, fun other => ?_⟩
  have appStepped := (of_step stepped).1
  by_cases mover : other = thread
  · subst mover
    exact (recorded.seated other).next (App.moved_of_step appStepped)
  · rw [App.other_of_step appStepped mover]
    exact recorded.seated other

end Steps

/-- Every surface in `mEncoderSurfaces` is recorded with the client that registered it. -/
theorem recorded_of_run {start final : Tracked} {capture : ThreadId}
    {events : List (ThreadId × JavaAction)} (begins : Begins start capture)
    (ran : run start events = some final) : Recorded final := by
  refine LabelledRun.invariant_of_run ?_ begins.recorded
    (LabelledRun.everyStep_of_forall_mem fun event _ => (trivial : True)) ran
  rintro before ⟨thread, action⟩ after recorded - stepped
  exact recorded.step stepped

end Tracked

end UsbCamera
