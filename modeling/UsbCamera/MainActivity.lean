import UsbCamera.EncoderRegistry
import UsbCamera.SerialRegistry

/-!
# The activity as a client

`MainActivity` registers its encoder before it starts the camera and its preview whenever the
holder of the surface view has a surface.  The callbacks of the holder come on the thread of the
user interface, while the capture thread tells the clients and draws.  None of its own callbacks
calls the camera.
-/

namespace UsbCamera

namespace MainActivity

open Registering (effect)

/-- The `CameraEncoder`. -/
def cameraEncoder : ClientId := 0

/-- The `CameraPreview`. -/
def cameraPreview : ClientId := 1

/-- The registration in `onCreate`, with the input surface of the codec. -/
def onCreate (inputSurface : Option JSurface) : Registering :=
  ⟨.addClient, cameraEncoder, true, inputSurface⟩

/-- The callbacks of the `SurfaceHolder` that do something; `surfaceCreated` keeps the surface
of the holder, which `getSurface` then answers. -/
inductive HolderCallback
  | surfaceCreated (mSurface : Option JSurface)
  | surfaceDestroyed
  deriving DecidableEq

/-- The callback that makes a call of the preview. -/
def HolderCallback.of (call : Registering) : HolderCallback :=
  match call.method with
  | .addClient => .surfaceCreated call.jsurface
  | .removeClient => .surfaceDestroyed

/-- How often the preview is registered, and the surface it is shown on. -/
structure Showing where
  previews : Nat
  surface : Option Surface
  deriving DecidableEq

/-- A null surface clears the preview, one that is not valid changes nothing. -/
def Showing.after (showing : Showing) : HolderCallback → Showing
  | .surfaceCreated none => ⟨showing.previews + 1, none⟩
  | .surfaceCreated (some mSurface) =>
      ⟨showing.previews + 1,
        if mSurface.isValid then some mSurface.nativeSurface else showing.surface⟩
  | .surfaceDestroyed => ⟨showing.previews - 1, none⟩

/-- What is shown after these callbacks. -/
def showing (callbacks : List HolderCallback) : Showing :=
  callbacks.foldl Showing.after ⟨0, none⟩

/-! ## One callback after the other -/

/-- The camera with one encoder, and the preview as it is shown. -/
structure Displays (encoders : List Surface) (showing : Showing) (camera : JavaCamera) : Prop where
  clients : camera.mClients.items =
    cameraEncoder :: List.replicate showing.previews cameraPreview
  native : camera.mNativeObject = some ⟨showing.surface, encoders⟩

/-- A call of the preview. -/
def OfPreview (call : Registering) : Prop :=
  call.client = cameraPreview ∧ call.encoder = false

section Sequential

variable {encoders : List Surface} {shown : Showing} {camera : JavaCamera}

theorem displays_onCreate (inputSurface : Option JSurface) :
    Displays (accepted inputSurface).toList ⟨0, none⟩
      (effect JavaCamera.create (onCreate inputSurface)) := by
  constructor
  · rfl
  · cases inputSurface with
    | none => rfl
    | some jsurface =>
        cases valid : jsurface.isValid <;>
          simp [effect, onCreate, Registering.update, Registering.checked, accepted, valid,
            SurfaceUpdate.applyTo, JavaCamera.create, Registering.listed]

theorem Displays.effect (displays : Displays encoders shown camera) {call : Registering}
    (preview : OfPreview call) :
    Displays encoders (shown.after (HolderCallback.of call)) (effect camera call) := by
  obtain ⟨method, client, encoder, jsurface⟩ := call
  obtain ⟨rfl, rfl⟩ : client = cameraPreview ∧ encoder = false := preview
  cases method with
  | addClient =>
      have added : camera.mClients.items ++ [cameraPreview] =
          cameraEncoder :: List.replicate (shown.previews + 1) cameraPreview := by
        rw [displays.clients, List.replicate_succ', List.cons_append]
      cases jsurface with
      | none =>
          refine ⟨added, ?_⟩
          simp [Registering.effect, displays.native, Registering.update, SurfaceUpdate.applyTo,
            HolderCallback.of, Showing.after]
      | some mSurface =>
          refine ⟨added, ?_⟩
          cases valid : mSurface.isValid <;>
            simp [Registering.effect, displays.native, Registering.update, Registering.checked,
              SurfaceUpdate.applyTo, HolderCallback.of, Showing.after, valid]
  | removeClient =>
      constructor
      · have removed := FailFastList.remove_items camera.mClients cameraPreview
        rwa [displays.clients, List.erase_cons_tail (by decide), List.erase_replicate_self]
          at removed
      · simp [Registering.effect, displays.native, Registering.update, SurfaceUpdate.applyTo,
          HolderCallback.of, Showing.after]

/-- After any calls of the preview. -/
theorem Displays.of_run {calls : List Registering} {final : JavaCamera}
    (displays : Displays encoders shown camera) (preview : ∀ call ∈ calls, OfPreview call)
    (ran : Registering.run camera calls = some final) :
    Displays encoders ((calls.map HolderCallback.of).foldl Showing.after shown) final := by
  induction calls generalizing camera shown with
  | nil =>
      cases Option.some.inj ran
      exact displays
  | cons call calls ih =>
      obtain ⟨next, stepped, onward⟩ := LabelledRun.run_cons_iff.mp ran
      rw [Registering.step_eq] at stepped
      cases stepped
      exact ih (displays.effect (preview call (by simp)))
        (fun other member => preview other (by simp [member])) onward

end Sequential

/-! ## On the threads -/

/-- The client an action registers or unregisters. -/
def argument : JavaAction → Option ClientId
  | .enter (.update _ client) => some client
  | _ => none

/-- What a thread of the activity may do: the preview is what is registered and unregistered,
never from inside a callback, and it is no encoder. -/
def OfActivity (serial : Serial) (event : ThreadId × JavaAction) : Prop :=
  (∀ client ∈ argument event.2,
    client = cameraPreview ∧ serial.app.stackOf event.1 = []) ∧
  event.2 ≠ .answerIsEncoder true

instance (serial : Serial) (event : ThreadId × JavaAction) :
    Decidable (OfActivity serial event) :=
  inferInstanceAs (Decidable ((∀ client ∈ argument event.2, _ ∧ _) ∧ _))

theorem OfActivity.outermost {serial : Serial} {event : ThreadId × JavaAction}
    (activity : OfActivity serial event) (registers : event.2.registers = true) :
    serial.app.stackOf event.1 = [] := by
  obtain ⟨thread, action⟩ := event
  cases action with
  | enter call =>
      cases call with
      | update method client => exact (activity.1 client rfl).2
      | stop => cases registers
  | _ => cases registers

/-- Every call is one of the preview, completed or not. -/
structure Previews (serial : Serial) : Prop where
  completed : ∀ call ∈ serial.completed, OfPreview call
  current : ∀ call ∈ serial.current, OfPreview call
  activations : ∀ thread method client pc,
    .update method client pc ∈ serial.app.stackOf thread → client = cameraPreview

section Threads

variable {serial next : Serial} {thread : ThreadId} {action : JavaAction}

/-- Only a call puts another client on a stack. -/
theorem client_of_move {frame : Activation} {frames : List Activation} {method : ClientMethod}
    {client : ClientId} {pc : UpdatePc} (move : Activation.Move frame action frames)
    (notCall : action.registers = false) (member : .update method client pc ∈ frames) :
    ∃ before, frame = .update method client before := by
  cases move with
  | native =>
      rename_i action _ _
      cases action <;> simp [Activation.afterNative] at member
  | @clientCalls call =>
      cases call with
      | update => cases notCall
      | stop => simp [JavaCall.activation] at member
  | updateLocks | changeList | isEncoder | getSurface =>
      cases List.mem_singleton.mp member
      exact ⟨_, rfl⟩
  | askIsEncoder | askSurface | callNative =>
      simp only [List.mem_cons, reduceCtorEq, List.not_mem_nil, or_false, false_or,
        Activation.update.injEq] at member
      obtain ⟨rfl, rfl, rfl⟩ := member
      exact ⟨_, rfl⟩
  | _ => simp at member

theorem Previews.activations_of_step (previews : Previews serial)
    (activity : OfActivity serial (thread, action))
    (stepped : serial.app.step (thread, action) = some next.app) :
    ∀ other method client pc,
      .update method client pc ∈ next.app.stackOf other → client = cameraPreview := by
  intro other method client pc member
  by_cases mover : other = thread
  · subst mover
    have moved := App.moved_of_step stepped
    cases stack : serial.app.stackOf other with
    | nil =>
        rw [stack] at moved
        cases action with
        | enter call =>
            rw [← Option.some.inj moved, List.mem_singleton] at member
            cases call with
            | update called argument =>
                cases member
                exact (activity.1 _ rfl).1
            | stop => cases member
        | _ => cases moved
    | cons frame rest =>
        rw [stack] at moved
        obtain ⟨frames, topMoved, placed⟩ := Option.map_eq_some_iff.mp moved
        have notCall : action.registers = false := by
          by_contra called
          have empty := activity.outermost (by simpa using called)
          rw [stack] at empty
          cases empty
        have before := previews.activations other method client
        rw [stack] at before
        rw [← placed] at member
        rcases List.mem_append.mp member with top | below
        · obtain ⟨was, rfl⟩ := client_of_move (Activation.move_of_next topMoved) notCall top
          exact before was List.mem_cons_self
        · exact before pc (List.mem_cons_of_mem _ below)
  · rw [App.other_of_step stepped mover] at member
    exact previews.activations other method client pc member

/-- The thread that changes the list is inside the method it changes it for. -/
theorem mem_of_changeList {app after : App} {method : ClientMethod} {client : ClientId}
    (stepped : app.step (thread, .changeList method client) = some after) :
    .update method client .changeList ∈ app.stackOf thread := by
  have moved := App.moved_of_step stepped
  cases stack : app.stackOf thread with
  | nil =>
      rw [stack] at moved
      cases moved
  | cons frame rest =>
      rw [stack] at moved
      obtain ⟨frames, topMoved, -⟩ := Option.map_eq_some_iff.mp moved
      cases Activation.move_of_next topMoved with
      | changeList => exact List.mem_cons_self

/-- An answer is added to the call that is inside its section. -/
theorem Previews.current_map (previews : Previews serial) {change : Registering → Registering}
    (keeps : ∀ call, OfPreview call → OfPreview (change call)) :
    ∀ call ∈ serial.current.map change, OfPreview call := by
  intro call member
  obtain ⟨before, was, rfl⟩ := Option.map_eq_some_iff.mp member
  exact keeps before (previews.current before was)

theorem Previews.step (previews : Previews serial)
    (activity : OfActivity serial (thread, action))
    (stepped : serial.step (thread, action) = some next) : Previews next := by
  obtain ⟨appStepped, advanced⟩ := Serial.of_step stepped
  have activations := previews.activations_of_step activity appStepped
  by_cases spares : action.spares = true ∧ action ≠ .unlockClients
  · rw [Serial.advance_of_spares next.app spares.1 spares.2] at advanced
    refine ⟨?_, ?_, activations⟩
    · rw [advanced]
      exact previews.completed
    · rw [advanced]
      exact previews.current
  · refine ⟨?_, ?_, activations⟩
    · rw [advanced]
      cases action with
      | unlockClients =>
          intro call member
          rcases List.mem_append.mp member with before | inside
          · exact previews.completed call before
          · exact previews.current call (Option.mem_toList.mp inside)
      | native step => cases step <;> exact previews.completed
      | _ => exact previews.completed
    · rw [advanced]
      cases action with
      | changeList method client =>
          intro call member
          cases member
          exact ⟨previews.activations thread method client _ (mem_of_changeList appStepped), rfl⟩
      | answerIsEncoder encoder =>
          cases encoder with
          | true => exact absurd rfl activity.2
          | false => exact previews.current_map fun call preview => ⟨preview.1, rfl⟩
      | answerGetSurface => exact previews.current_map fun call preview => preview
      | native step =>
          cases step with
          | surfaceValid => exact previews.current_map fun call preview => preview
          | _ => exact previews.current
      | unlockClients =>
          intro call member
          cases member
      | _ => exact previews.current

end Threads

/-- After `onCreate` the capture thread begins, with the encoder registered. -/
structure Created (inputSurface : Option JSurface) (app : App) (capture : ThreadId) : Prop where
  begins : app.Begins capture
  registered : Registering.step JavaCamera.create (onCreate inputSurface) = some app.javaCamera

section Results

variable {inputSurface : Option JSurface} {app : App} {final : Serial} {capture : ThreadId}
  {events : List (ThreadId × JavaAction)}

theorem Created.previews (created : Created inputSurface app capture) :
    Previews (Serial.ofApp app) := by
  refine ⟨fun call member => ?_, fun call member => ?_,
    fun thread method client pc member => ?_⟩
  · cases member
  · cases member
  · rcases created.begins.stack thread with capturing | idle
    · rw [Serial.ofApp, capturing] at member
      cases List.mem_singleton.mp member
    · rw [Serial.ofApp, idle] at member
      cases member

/-- The registry of the activity after the callbacks whose calls are completed: the encoder
first, then the preview as often as it is registered; the preview is shown on the surface of
the last callback. -/
structure Shows (inputSurface : Option JSurface) (callbacks : List HolderCallback) (app : App) :
    Prop where
  clients : app.mClients.items =
    cameraEncoder :: List.replicate (showing callbacks).previews cameraPreview
  encoders : app.camera.mEncoderSurfaces = (accepted inputSurface).toList
  preview : app.camera.mPreviewSurface = (showing callbacks).surface

/-- Whatever the capture thread does meanwhile, when no callback of the surface holder is inside
`addClient` or `removeClient` the registry is what the callbacks, one after the other, make of
it. -/
theorem shows_of_run (created : Created inputSurface app capture)
    (activity : Serial.EveryStep OfActivity (Serial.ofApp app) events)
    (ran : Serial.run (Serial.ofApp app) events = some final)
    (outside : ∀ thread, ∀ frame ∈ final.app.stackOf thread, frame.registers = false) :
    Shows inputSurface (final.completed.map HolderCallback.of) final.app := by
  have notNested : Serial.EveryStep Serial.NotNested (Serial.ofApp app) events := by
    refine activity.imp fun serial event ofActivity calls frame member => ?_
    rw [ofActivity.outermost calls] at member
    cases member
  have account := (Serial.accounted_of_run created.begins notNested ran).sequential.outside outside
  have previews : Previews final := by
    refine LabelledRun.invariant_of_run ?_ created.previews activity ran
    rintro serial ⟨thread, action⟩ next previews ofActivity stepped
    exact previews.step ofActivity stepped
  have began : app.javaCamera = effect JavaCamera.create (onCreate inputSurface) := by
    have registered := created.registered
    rw [Registering.step_eq] at registered
    exact (Option.some.inj registered).symm
  have displays := displays_onCreate inputSurface
  rw [← began] at displays
  have shown := displays.of_run previews.completed account
  have native := shown.native
  simp only [App.javaCamera] at native
  split at native
  · obtain ⟨preview, encoders⟩ := NativeSurfaces.mk.inj (Option.some.inj native)
    exact ⟨shown.clients, encoders, preview⟩
  · cases native

/-- The camera after `onCreate`, with the capture thread `1`. -/
def afterOnCreate : App :=
  { App.opened 5 1 with
    camera := { (App.opened 5 1).camera with mEncoderSurfaces := [9] }
    mClients := ⟨[cameraEncoder], 1⟩ }

/-- The holder gets a surface and loses it again, while the capture thread comes to its first
frame and tells the clients. -/
def holderEvents : List (ThreadId × JavaAction) :=
  [.enter (.update .addClient cameraPreview), .lockClients, .changeList .addClient cameraPreview,
    .callBack, .leave, .answerIsEncoder false, .callBack, .leave, .answerGetSurface (some 8),
    .callNative, .native (.getCamera true), .native (.surfaceValid true)].map
    (fun action => (0, action)) ++
  [.getCamera true, .readFd 5, .writePeek true, .loopTest true, .readFd 5, .select 5 1 0,
    .recheck true, .clearBufInfo, .dequeueBuf 5 (.filled 2), .notify .firstCapture].map
    (fun action => (1, .native action)) ++
  [.native (.lock .previewLock), .native (.writePreview (some 8)),
    .native (.unlock .previewLock), .leave, .unlockClients].map (fun action => (0, action)) ++
  [.lockClients, .iterator ⟨0, 2⟩, .loopNext ⟨0, 2⟩ cameraEncoder, .leave,
    .loopNext ⟨1, 2⟩ cameraPreview].map (fun action => (1, action)) ++
  [(0, .enter (.update .removeClient cameraPreview))] ++
  [.leave, .loopEnd ⟨2, 2⟩, .unlockClients].map (fun action => (1, action)) ++
  [.lockClients, .changeList .removeClient cameraPreview, .callBack, .leave,
    .answerIsEncoder false, .callNative, .native (.getCamera true), .native (.lock .previewLock),
    .native (.writePreview none), .native (.unlock .previewLock), .leave, .unlockClients].map
    fun action => (0, action)

theorem shows_holder :
    ∃ final, Serial.run (Serial.ofApp afterOnCreate) holderEvents = some final ∧
      Shows (some ⟨9, true⟩) (final.completed.map HolderCallback.of) final.app := by
  obtain ⟨final, ran⟩ := Option.isSome_iff_exists.mp
    (by decide : (Serial.run (Serial.ofApp afterOnCreate) holderEvents).isSome = true)
  have begins : afterOnCreate.Begins 1 := by
    refine ⟨rfl, fun other distinct => ?_, fun mutex => ?_, rfl⟩
    · simp [afterOnCreate, App.opened, distinct]
    · cases mutex <;> rfl
  have created : Created (some ⟨9, true⟩) afterOnCreate 1 := ⟨begins, rfl⟩
  have placed := (by decide :
    ∀ final ∈ Serial.run (Serial.ofApp afterOnCreate) holderEvents,
      (∀ frame ∈ final.app.stackOf 0, frame.registers = false) ∧
        ∀ frame ∈ final.app.stackOf 1, frame.registers = false) final ran
  refine ⟨final, ran, shows_of_run created (by decide) ran fun thread => ?_⟩
  by_cases isUser : thread = 0
  · exact isUser ▸ placed.1
  · by_cases isCapture : thread = 1
    · exact isCapture ▸ placed.2
    · have absent : ∀ event ∈ holderEvents, event.1 = 0 ∨ event.1 = 1 := by decide
      have notMoved : ∀ event ∈ holderEvents, event.1 ≠ thread := by
        rintro event member rfl
        rcases absent event member with zero | one
        · exact isUser zero
        · exact isCapture one
      rw [App.stackOf_of_run notMoved (Serial.app_of_run ran)]
      simp [Serial.ofApp, afterOnCreate, App.opened, isCapture]

end Results

end MainActivity

end UsbCamera
