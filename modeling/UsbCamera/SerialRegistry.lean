import UsbCamera.LockHolding

/-!
# Registrations one after the other

Any number of threads may call `addClient` and `removeClient` at once.  As long as the callbacks
return, the list of clients and the surfaces of the native object are what one thread makes of
them that calls the two methods of the sequential object one after the other, in the order in
which the calls give the lock back.  The one thing the lock does not keep apart is a call from inside another one, by the
same thread: a client must not register anything from its `isEncoder` or `getSurface`.
-/

namespace UsbCamera

/-! ## The sequential object -/

/-- A call of one of the two methods with what the client has answered, and what the native
code has found out about the surface. -/
structure Registering where
  method : ClientMethod
  client : ClientId
  encoder : Bool
  jsurface : Option JSurface
  deriving DecidableEq

def SurfaceUpdate.applyTo (native : NativeSurfaces) : SurfaceUpdate → NativeSurfaces
  | .setPreview surface => { native with mPreviewSurface := surface }
  | .addEncoder surface =>
      { native with mEncoderSurfaces := native.mEncoderSurfaces ++ [surface] }
  | .removeEncoder surface =>
      { native with
        mEncoderSurfaces := native.mEncoderSurfaces.filter fun other => other ≠ surface }

namespace Registering

def answers (call : Registering) : Answers :=
  ⟨.ok call.encoder, .ok call.jsurface⟩

/-- The call on the sequential object. -/
def perform (call : Registering) : JavaCamera.Java Unit :=
  match call.method with
  | .addClient => JavaCamera.addClient call.client call.answers
  | .removeClient => JavaCamera.removeClient call.client call.answers

def step (camera : JavaCamera) (call : Registering) : Option JavaCamera :=
  match call.perform.exec camera with
  | some (.ok (), after) => some after
  | _ => none

/-- Calls one after the other. -/
abbrev run : JavaCamera → List Registering → Option JavaCamera :=
  LabelledRun.run step

/-- What the native code makes of a surface that is or is not valid. -/
def checked (update : Surface → SurfaceUpdate) : Option JSurface → Option SurfaceUpdate
  | none => none
  | some jsurface => if jsurface.isValid then some (update jsurface.nativeSurface) else none

/-- The update of the native object the call makes. -/
def update (call : Registering) : Option SurfaceUpdate :=
  match call.method, call.encoder, call.jsurface with
  | .addClient, true, jsurface => checked .addEncoder jsurface
  | .addClient, false, none => some (.setPreview none)
  | .addClient, false, some jsurface =>
      checked (fun surface => .setPreview (some surface)) (some jsurface)
  | .removeClient, true, jsurface => checked .removeEncoder jsurface
  | .removeClient, false, _ => some (.setPreview none)

/-- The camera with the list of clients changed, and the surfaces not yet. -/
def listed (camera : JavaCamera) (call : Registering) : JavaCamera :=
  { camera with mClients := call.method.change camera.mClients call.client }

/-- The camera after the whole call. -/
def effect (camera : JavaCamera) (call : Registering) : JavaCamera :=
  { listed camera call with
    mNativeObject := camera.mNativeObject.map fun native =>
      match call.update with
      | some update => update.applyTo native
      | none => native }

theorem step_eq (camera : JavaCamera) (call : Registering) :
    step camera call = some (effect camera call) := by
  obtain ⟨method, client, encoder, jsurface⟩ := call
  cases method with
  | addClient =>
      have performed := JavaCamera.exec_addClient camera client encoder jsurface
      simp only [step, perform, answers, performed, effect, listed, Option.some.injEq]
      congr 2
      funext native
      cases encoder with
      | true =>
          cases jsurface with
          | none => rfl
          | some jsurface =>
              cases valid : jsurface.isValid <;>
                simp [update, checked, SurfaceUpdate.applyTo, NativeSurfaces.addEncoderSurface,
                  valid]
      | false =>
          cases jsurface with
          | none => rfl
          | some jsurface =>
              cases valid : jsurface.isValid <;>
                simp [update, checked, SurfaceUpdate.applyTo, NativeSurfaces.setPreviewSurface,
                  valid]
  | removeClient =>
      have performed := JavaCamera.exec_removeClient camera client encoder jsurface
      simp only [step, perform, answers, performed, effect, listed, Option.some.injEq]
      congr 2
      funext native
      cases encoder with
      | true =>
          cases jsurface with
          | none => rfl
          | some jsurface =>
              cases valid : jsurface.isValid <;>
                simp [update, checked, SurfaceUpdate.applyTo, NativeSurfaces.removeEncoderSurface,
                  valid]
      | false => rfl

/-- One more call. -/
theorem run_append_singleton {start camera : JavaCamera} {calls : List Registering}
    (ran : run start calls = some camera) (call : Registering) :
    run start (calls ++ [call]) = some (effect camera call) :=
  LabelledRun.run_append ran (LabelledRun.run_cons_iff.mpr ⟨_, step_eq camera call, rfl⟩)

end Registering

/-! ## The threads, with the calls they complete -/

/-- What the sequential object holds of the state the threads share. -/
def App.javaCamera (app : App) : JavaCamera where
  mClients := app.mClients
  mClientLock := 0
  mNativeObject :=
    if app.mNativeObject then some ⟨app.camera.mPreviewSurface, app.camera.mEncoderSurfaces⟩
    else none
  releaseCalls := 0

/-- The threads with the call that is inside its section, as far as it has got, and the calls
that have given the lock back. -/
structure Serial where
  app : App
  current : Option Registering
  completed : List Registering

namespace Serial

def advance (serial : Serial) (app : App) : JavaAction → Serial
  | .changeList method client =>
      { serial with app := app, current := some ⟨method, client, false, none⟩ }
  | .answerIsEncoder encoder =>
      { serial with
        app := app
        current := serial.current.map fun call => { call with encoder := encoder } }
  | .answerGetSurface jsurface =>
      { serial with
        app := app
        current := serial.current.map fun call =>
          { call with jsurface := jsurface.map fun surface => ⟨surface, false⟩ } }
  | .native (.surfaceValid valid) =>
      { serial with
        app := app
        current := serial.current.map fun call =>
          { call with
            jsurface := call.jsurface.map fun surface => { surface with isValid := valid } } }
  | .unlockClients =>
      { app := app, current := none, completed := serial.completed ++ serial.current.toList }
  | _ => { serial with app := app }

def step (serial : Serial) (event : ThreadId × JavaAction) : Option Serial :=
  (serial.app.step event).map fun app => serial.advance app event.2

abbrev run : Serial → List (ThreadId × JavaAction) → Option Serial :=
  LabelledRun.run step

abbrev EveryStep (meets : Serial → ThreadId × JavaAction → Prop) :
    Serial → List (ThreadId × JavaAction) → Prop :=
  LabelledRun.EveryStep step meets

/-- Before any call. -/
def ofApp (app : App) : Serial :=
  ⟨app, none, []⟩

end Serial

/-! ## Threads outside the two methods -/

namespace Activation

/-- Inside the section of `addClient` or `removeClient`. -/
def registers : Activation → Bool
  | .update _ _ pc => pc ≠ .lock
  | _ => false

/-- Code that leaves the registry alone. -/
def stands : Activation → Bool
  | .update _ _ pc => pc = .lock
  | .native pc => match pc with
    | .idle | .stopGet | .stopWrite | .capturing _ _ => true
    | _ => false
  | .notify _ _ | .callback => true

theorem stands_activation (call : JavaCall) : call.activation.stands = true := by
  cases call <;> rfl

theorem stands_afterNative {pc : Pc} (stays : (Activation.native pc).stands = true)
    (action : Action) : ∀ frame ∈ afterNative pc action, frame.stands = true := by
  intro frame member
  cases action with
  | notify notification =>
      rcases List.mem_cons.mp member with rfl | member
      · rfl
      · rw [List.mem_singleton.mp member]
        exact stays
  | _ =>
      rw [List.mem_singleton.mp member]
      exact stays

end Activation

/-- The action writes neither the surfaces nor the pointer. -/
def Action.keepsRegistry : Action → Bool
  | .writePreview _ | .pushEncoder _ | .removeEncoder _ | .clearCamera => false
  | _ => true

/-- The action leaves the registry as it is. -/
def JavaAction.keepsRegistry : JavaAction → Bool
  | .native action => action.keepsRegistry
  | .changeList _ _ => false
  | _ => true

/-- The action takes no part in a registration. -/
def JavaAction.spares : JavaAction → Bool
  | .native (.surfaceValid _) | .answerIsEncoder _ | .answerGetSurface _ | .callNative => false
  | action => action.keepsRegistry

theorem JavaAction.keepsRegistry_of_spares {action : JavaAction} (spares : action.spares = true) :
    action.keepsRegistry = true := by
  unfold JavaAction.spares at spares
  split at spares
  · rfl
  · rfl
  · rfl
  · rfl
  · exact spares

theorem Pc.stands_of_move {pc pc' : Pc} {action : Action}
    (stands : (Activation.native pc).stands = true) (working : pc ≠ .idle)
    (move : Move pc action pc') :
    (Activation.native pc').stands = true ∧ (JavaAction.native action).spares = true := by
  cases move with
  | call => exact absurd rfl working
  | @capturing _ first' _ pc' action inner =>
      refine ⟨by cases pc' <;> rfl, ?_⟩
      rcases inner.own_or_draws with own | draws
      · cases action <;> first | rfl | cases own
      · cases action <;> first | rfl | cases draws
  | stopAttached | stopDetached | stop => exact ⟨rfl, rfl⟩
  | startAttached | startDetached | opening | spawn | releaseAttached | releaseDetached
  | releaseStop | delete | clear | surface => cases stands

/-- No activation of the thread touches the registry, or will before it locks. -/
def Outside (stack : List Activation) : Prop :=
  ∀ frame ∈ stack, frame.stands = true

/-- A thread outside the two methods stays outside, unless it takes the lock for one of
them. -/
theorem Outside.next {stack after : List Activation} {action : JavaAction}
    (outside : Outside stack) (moved : App.nextStack stack action = some after) :
    action.spares = true ∧
      (Outside after ∨
        action = .lockClients ∧ ∃ method client below, Outside below ∧
          after = .update method client .changeList :: below) := by
  cases stack with
  | nil =>
      cases action with
      | enter call =>
          refine ⟨rfl, Or.inl fun frame member => ?_⟩
          rw [← Option.some.inj moved] at member
          rw [List.mem_singleton.mp member]
          exact Activation.stands_activation call
      | _ => cases moved
  | cons frame rest =>
      obtain ⟨frames, topMoved, rfl⟩ := Option.map_eq_some_iff.mp moved
      have stands : frame.stands = true := outside frame List.mem_cons_self
      have below : Outside rest := fun other member =>
        outside other (List.mem_cons_of_mem _ member)
      have above (placed : ∀ other ∈ frames, other.stands = true) : Outside (frames ++ rest) := by
        intro other member
        rcases List.mem_append.mp member with top | under
        · exact placed other top
        · exact below other under
      cases Activation.move_of_next topMoved with
      | @native pc pc' action working inside =>
          obtain ⟨stays, spares⟩ := Pc.stands_of_move stands working inside
          exact ⟨spares, Or.inl (above (Activation.stands_afterNative stays action))⟩
      | @updateLocks method client => exact ⟨rfl, Or.inr ⟨rfl, method, client, rest, below, rfl⟩⟩
      | @clientCalls call =>
          refine ⟨rfl, Or.inl (above ?_)⟩
          intro other member
          rcases List.mem_cons.mp member with rfl | member
          · exact Activation.stands_activation call
          · rw [List.mem_singleton.mp member]
            rfl
      | nativeReturns | notifyLocks | iterator | loopNext | loopEnd | loopStale | notifyUnlocks
      | clientReturns => exact ⟨rfl, Or.inl (above (by simp [Activation.stands]))⟩
      | changeList | askIsEncoder | isEncoder | askSurface | getSurface | callNative
      | updateUnlocks => cases stands

namespace App

theorem javaCamera_of_step {app next : App} {thread : ThreadId} {action : JavaAction}
    (keeps : action.keepsRegistry = true) (stepped : app.step (thread, action) = some next) :
    next.javaCamera = app.javaCamera := by
  have clients : next.mClients = app.mClients := by
    refine mClients_of_step stepped fun method client same => ?_
    rw [same] at keeps
    cases keeps
  obtain ⟨shared, applied, pointer, camera, -⟩ := applied_of_step stepped
  unfold javaCamera
  rw [clients, pointer, camera]
  cases update_of_apply applied with
  | @native step mNativeObject camera device pointed fields _ =>
      have attached : mNativeObject = app.mNativeObject := by
        unfold World.applyPointer at pointed
        split at pointed
        · exact (Option.some.inj (Option.ite_none_right_eq_some.mp pointed).2).symm
        · cases keeps
        · exact (Option.some.inj pointed).symm
      have preview := Camera.mPreviewSurface_of_apply fields (by rintro _ rfl; cases keeps)
      have encoders := Camera.mEncoderSurfaces_of_apply fields (by rintro _ rfl; cases keeps)
        (by rintro _ rfl; cases keeps)
      simp only [attached, preview, encoders]
  | _ => rfl

end App

/-! ## A thread inside one of the two methods -/

/-- What lies above the method while a client answers; the answer may stop the capture. -/
inductive Answering : List Activation → Prop
  | done : Answering []
  | asked : Answering [.callback]
  | stops {pc : Pc} : pc = .stopGet ∨ pc = .stopWrite ∨ pc = .idle →
      Answering [.native pc, .callback]

namespace Registering

/-- The call hands this to the native code, which has not looked at the surface yet. -/
inductive Hands : Registering → Call → Prop
  | addEncoder {client : ClientId} {jsurface : Option Surface} :
      Hands ⟨.addClient, client, true, jsurface.map fun surface => ⟨surface, false⟩⟩
        (.addEncoder jsurface)
  | setPreview {client : ClientId} {jsurface : Option Surface} :
      Hands ⟨.addClient, client, false, jsurface.map fun surface => ⟨surface, false⟩⟩
        (.setPreview jsurface)
  | removeEncoder {client : ClientId} {jsurface : Option Surface} :
      Hands ⟨.removeClient, client, true, jsurface.map fun surface => ⟨surface, false⟩⟩
        (.removeEncoder jsurface)
  | clearPreview {client : ClientId} {jsurface : Option JSurface} :
      Hands ⟨.removeClient, client, false, jsurface⟩ (.setPreview none)

/-- The call with what `isValid` has found. -/
def validated (call : Registering) (valid : Bool) : Registering :=
  { call with jsurface := call.jsurface.map fun surface => { surface with isValid := valid } }

/-- The native code is on its way to the update of the call. -/
inductive Pending (call : Registering) : SurfacePc → Prop
  | null {update : SurfaceUpdate} : call.update = some update →
      Pending call (.getCamera (some update))
  | nothing : call.update = none → Pending call (.getCamera none)
  | getCamera {update : SurfaceUpdate} : (call.validated true).update = some update →
      (call.validated false).update = none → Pending call (.getCameraFor update)
  | checkValid {update : SurfaceUpdate} : (call.validated true).update = some update →
      (call.validated false).update = none → Pending call (.checkValid update)
  | lock {update : SurfaceUpdate} : call.update = some update → Pending call (.lock update)
  | apply {update : SurfaceUpdate} : call.update = some update → Pending call (.apply update)

theorem Hands.pending {call : Registering} {entry : Call} (hands : Hands call entry) :
    ∃ pc, Pc.enter entry = .surface pc ∧ Pending call pc := by
  cases hands with
  | @addEncoder client jsurface =>
      cases jsurface with
      | none => exact ⟨_, rfl, .nothing rfl⟩
      | some surface => exact ⟨_, rfl, .getCamera rfl rfl⟩
  | @setPreview client jsurface =>
      cases jsurface with
      | none => exact ⟨_, rfl, .null rfl⟩
      | some surface => exact ⟨_, rfl, .getCamera rfl rfl⟩
  | @removeEncoder client jsurface =>
      cases jsurface with
      | none => exact ⟨_, rfl, .nothing rfl⟩
      | some surface => exact ⟨_, rfl, .getCamera rfl rfl⟩
  | clearPreview => exact ⟨_, rfl, .null rfl⟩

end Registering

/-- The update has been made. -/
inductive SurfacePc.Updated : SurfacePc → Prop
  | unlock {update : SurfaceUpdate} : Updated (.unlock update)
  | logSize : Updated .logSize

open Registering (Hands Pending listed effect) in
/-- A thread is inside a call: `before` is the sequential object before it, `view` the registry
as it is now. -/
inductive Inside (before view : JavaCamera) : Option Registering → List Activation → Prop
  | locked {method : ClientMethod} {client : ClientId} {below : List Activation} :
      Outside below → view = before →
      Inside before view none (.update method client .changeList :: below)
  | asksEncoder {call : Registering} {below : List Activation} :
      Outside below → view = listed before call →
      Inside before view (some call) (.update call.method call.client .isEncoder :: below)
  | answersEncoder {call : Registering} {above below : List Activation} :
      Outside below → Answering above → view = listed before call →
      Inside before view (some call)
        (above ++ .update call.method call.client .isEncoderReturned :: below)
  | asksSurface {call : Registering} {below : List Activation} :
      Outside below → view = listed before call →
      (call.method = .removeClient → call.encoder = true) →
      Inside before view (some call)
        (.update call.method call.client (.getSurface call.encoder) :: below)
  | answersSurface {call : Registering} {above below : List Activation} :
      Outside below → Answering above → view = listed before call →
      (call.method = .removeClient → call.encoder = true) →
      Inside before view (some call)
        (above ++ .update call.method call.client (.getSurfaceReturned call.encoder) :: below)
  | calls {call : Registering} {entry : Call} {below : List Activation} :
      Outside below → view = listed before call → Hands call entry →
      Inside before view (some call) (.update call.method call.client (.callNative entry) :: below)
  | native {call : Registering} {pc : SurfacePc} {below : List Activation} :
      Outside below → view = listed before call → Pending call pc →
      Inside before view (some call)
        (.native (.surface pc) :: .update call.method call.client .unlock :: below)
  | updated {call : Registering} {pc : SurfacePc} {below : List Activation} :
      Outside below → view = effect before call → pc.Updated →
      Inside before view (some call)
        (.native (.surface pc) :: .update call.method call.client .unlock :: below)
  | nativeReturned {call : Registering} {below : List Activation} :
      Outside below → view = effect before call →
      Inside before view (some call)
        (.native .idle :: .update call.method call.client .unlock :: below)
  | returned {call : Registering} {below : List Activation} :
      Outside below → view = effect before call →
      Inside before view (some call) (.update call.method call.client .unlock :: below)

namespace App

theorem javaCamera_of_changeList {app next : App} {thread : ThreadId} {method : ClientMethod}
    {client : ClientId} (stepped : app.step (thread, .changeList method client) = some next) :
    next.javaCamera =
      { app.javaCamera with mClients := method.change app.javaCamera.mClients client } := by
  obtain ⟨shared, applied, pointer, camera, -, clients, -⟩ := applied_of_step stepped
  cases applied
  simp only [javaCamera, pointer, camera, clients]

/-- The update of a surface entry point on the sequential object. -/
theorem javaCamera_of_update {app next : App} {thread : ThreadId} {update : SurfaceUpdate}
    (stepped : app.step (thread, .native update.action) = some next) :
    next.javaCamera =
      { app.javaCamera with
        mNativeObject := app.javaCamera.mNativeObject.map update.applyTo } := by
  have fields := camera_of_native stepped
  have clients := mClients_of_step stepped (by simp)
  obtain ⟨shared, applied, pointer, -⟩ := applied_of_step stepped
  have attached : next.mNativeObject = app.mNativeObject := by
    rw [pointer]
    cases update_of_apply applied with
    | native pointed _ _ => cases update <;> exact (Option.some.inj pointed).symm
    | observed java => cases java
  simp only [javaCamera, attached, clients]
  cases app.mNativeObject with
  | false => rfl
  | true =>
      cases update <;> rw [← Option.some.inj fields] <;> rfl

end App

namespace Serial

section Steps

variable {serial next : Serial} {thread : ThreadId} {action : JavaAction}

theorem of_step (stepped : serial.step (thread, action) = some next) :
    serial.app.step (thread, action) = some next.app ∧
      next = serial.advance next.app action := by
  obtain ⟨app, moved, rfl⟩ := Option.map_eq_some_iff.mp stepped
  have same : (serial.advance app action).app = app := by
    unfold advance
    split <;> rfl
  rw [same]
  exact ⟨moved, rfl⟩

/-- What takes no part in a registration changes nothing but the state of the threads. -/
theorem advance_of_spares (app : App) (spares : action.spares = true)
    (notUnlocked : action ≠ .unlockClients) :
    serial.advance app action = { serial with app := app } := by
  cases action with
  | native step =>
      cases step with
      | surfaceValid => cases spares
      | _ => rfl
  | changeList | answerIsEncoder | answerGetSurface => cases spares
  | unlockClients => exact absurd rfl notUnlocked
  | _ => rfl

end Steps

end Serial

/-- While a client answers, what it does stays above the method. -/
theorem Answering.next {above below after : List Activation} {frame : Activation}
    {action : JavaAction} (answering : Answering above) (more : above ≠ [])
    (notUpdate : ∀ method client, action ≠ .enter (.update method client))
    (moved : App.nextStack (above ++ frame :: below) action = some after) :
    (∃ rest, Answering rest ∧ after = rest ++ frame :: below) ∧
      action.spares = true ∧ action ≠ .unlockClients := by
  cases answering with
  | done => exact absurd rfl more
  | asked =>
      obtain ⟨frames, topMoved, rfl⟩ := Option.map_eq_some_iff.mp moved
      cases Activation.move_of_next topMoved with
      | @clientCalls call =>
          cases call with
          | update method client => exact absurd rfl (notUpdate method client)
          | stop => exact ⟨⟨_, .stops (Or.inl rfl), rfl⟩, rfl, by simp⟩
      | clientReturns => exact ⟨⟨[], .done, rfl⟩, rfl, by simp⟩
  | @stops pc at_stop =>
      obtain ⟨frames, topMoved, rfl⟩ := Option.map_eq_some_iff.mp moved
      cases Activation.move_of_next topMoved with
      | nativeReturns => exact ⟨⟨_, .asked, rfl⟩, rfl, by simp⟩
      | native working inside =>
          rcases at_stop with rfl | rfl | rfl
          · cases inside with
            | stopAttached => exact ⟨⟨_, .stops (Or.inr (Or.inl rfl)), rfl⟩, rfl, by simp⟩
            | stopDetached => exact ⟨⟨_, .stops (Or.inr (Or.inr rfl)), rfl⟩, rfl, by simp⟩
          · cases inside with
            | stop => exact ⟨⟨_, .stops (Or.inr (Or.inr rfl)), rfl⟩, rfl, by simp⟩
          · exact absurd rfl working

namespace Registering

theorem effect_of_none {camera : JavaCamera} {call : Registering} (nothing : call.update = none) :
    effect camera call = listed camera call := by
  cases pointer : camera.mNativeObject <;> simp [effect, listed, nothing, pointer]

theorem effect_of_detached {camera : JavaCamera} (call : Registering)
    (detached : camera.mNativeObject = none) : effect camera call = listed camera call := by
  simp [effect, listed, detached]

theorem effect_of_update {camera : JavaCamera} {call : Registering} {update : SurfaceUpdate}
    (makes : call.update = some update) :
    effect camera call =
      { listed camera call with
        mNativeObject := (listed camera call).mNativeObject.map update.applyTo } := by
  simp only [effect, listed, makes]

end Registering

namespace App

/-- `getCamera` finds the pointer cleared. -/
theorem detached_of_step {app next : App} {thread : ThreadId}
    (stepped : app.step (thread, .native (.getCamera false)) = some next) :
    app.javaCamera.mNativeObject = none := by
  obtain ⟨shared, applied, -⟩ := applied_of_step stepped
  cases update_of_apply applied with
  | native pointed _ _ =>
      have cleared : false = app.mNativeObject := (Option.ite_none_right_eq_some.mp pointed).1
      simp [javaCamera, ← cleared]
  | observed java => cases java

end App

open Registering (Pending listed effect)

section Owner

variable {before : JavaCamera} {app next : App} {thread : ThreadId} {action : JavaAction}
  {call : Registering} {pc : SurfacePc} {below : List Activation}

/-- With the pointer cleared there is nothing to update. -/
theorem effect_of_getCamera (view : app.javaCamera = listed before call)
    (stepped : app.step (thread, .native (.getCamera false)) = some next) :
    next.javaCamera = effect before call := by
  have detached : before.mNativeObject = none := by
    have cleared := App.detached_of_step stepped
    rwa [view] at cleared
  rw [App.javaCamera_of_step rfl stepped, view, Registering.effect_of_detached call detached]

/-- A step of the native code before the update. -/
theorem Inside.of_pending (outside : Outside below) (view : app.javaCamera = listed before call)
    (pending : Pending call pc)
    (stack : app.stackOf thread =
      .native (.surface pc) :: .update call.method call.client .unlock :: below)
    (stepped : app.step (thread, action) = some next) {serial : Serial}
    (current : serial.current = some call) :
    Inside before next.javaCamera (serial.advance next action).current (next.stackOf thread) ∧
      (serial.advance next action).completed = serial.completed := by
  have moved := App.moved_of_step stepped
  rw [stack] at moved
  obtain ⟨frames, topMoved, placed⟩ := Option.map_eq_some_iff.mp moved
  rw [← placed]
  obtain ⟨step, after, rfl, surfaceMoved, rfl⟩ : ∃ step after, action = .native step ∧
      pc.next step = some after ∧
      frames = Activation.afterNative (Pc.afterSurface after) step := by
    cases Activation.move_of_next topMoved with
    | native working inside =>
        cases inside with
        | surface surfaceMoved => exact ⟨_, _, rfl, surfaceMoved, rfl⟩
  have move := SurfacePc.move_of_next surfaceMoved
  cases pending with
  | null makes =>
      cases move with
      | null =>
          have same := App.javaCamera_of_step rfl stepped
          exact ⟨current ▸ .native outside (same.trans view) (.lock makes), rfl⟩
      | nullDetached =>
          exact ⟨current ▸ .nativeReturned outside (effect_of_getCamera view stepped), rfl⟩
  | nothing makesNone =>
      cases move with
      | nullIgnored =>
          have same := App.javaCamera_of_step rfl stepped
          refine ⟨current ▸ .nativeReturned outside ?_, rfl⟩
          rw [same, view, Registering.effect_of_none makesNone]
  | getCamera makes refuses =>
      cases move with
      | attached =>
          have same := App.javaCamera_of_step rfl stepped
          exact ⟨current ▸ .native outside (same.trans view) (.checkValid makes refuses), rfl⟩
      | detached =>
          exact ⟨current ▸ .nativeReturned outside (effect_of_getCamera view stepped), rfl⟩
  | checkValid makes refuses =>
      cases move with
      | valid =>
          have same := App.javaCamera_of_step rfl stepped
          have found : (serial.advance next (.native (.surfaceValid true))).current =
              some (call.validated true) := congrArg (Option.map _) current
          rw [found]
          exact ⟨.native outside (same.trans view) (.lock makes), rfl⟩
      | invalid =>
          have same := App.javaCamera_of_step rfl stepped
          have found : (serial.advance next (.native (.surfaceValid false))).current =
              some (call.validated false) := congrArg (Option.map _) current
          rw [found]
          refine ⟨.nativeReturned outside ?_, rfl⟩
          rw [same, view, Registering.effect_of_none refuses]
          rfl
  | lock makes =>
      cases move with
      | lock =>
          have same := App.javaCamera_of_step rfl stepped
          exact ⟨current ▸ .native outside (same.trans view) (.apply makes), rfl⟩
  | @apply update makes =>
      cases move with
      | apply =>
          have made := App.javaCamera_of_update stepped
          rw [view, ← Registering.effect_of_update makes] at made
          cases update with
          | setPreview | addEncoder | removeEncoder =>
              exact ⟨current ▸ .updated outside made .unlock, rfl⟩

/-- A step of the native code after the update. -/
theorem Inside.of_updated (outside : Outside below) (view : app.javaCamera = effect before call)
    (updated : pc.Updated)
    (stack : app.stackOf thread =
      .native (.surface pc) :: .update call.method call.client .unlock :: below)
    (stepped : app.step (thread, action) = some next) {serial : Serial}
    (current : serial.current = some call) :
    Inside before next.javaCamera (serial.advance next action).current (next.stackOf thread) ∧
      (serial.advance next action).completed = serial.completed := by
  have moved := App.moved_of_step stepped
  rw [stack] at moved
  obtain ⟨frames, topMoved, placed⟩ := Option.map_eq_some_iff.mp moved
  rw [← placed]
  obtain ⟨step, after, rfl, surfaceMoved, rfl⟩ : ∃ step after, action = .native step ∧
      pc.next step = some after ∧
      frames = Activation.afterNative (Pc.afterSurface after) step := by
    cases Activation.move_of_next topMoved with
    | native working inside =>
        cases inside with
        | surface surfaceMoved => exact ⟨_, _, rfl, surfaceMoved, rfl⟩
  have move := SurfacePc.move_of_next surfaceMoved
  cases updated with
  | unlock =>
      cases move with
      | unlockPreview | unlockRemoved =>
          have same := App.javaCamera_of_step rfl stepped
          exact ⟨current ▸ .nativeReturned outside (same.trans view), rfl⟩
      | unlockAdded =>
          have same := App.javaCamera_of_step rfl stepped
          exact ⟨current ▸ .updated outside (same.trans view) .logSize, rfl⟩
  | logSize =>
      cases move with
      | logSize =>
          have same := App.javaCamera_of_step rfl stepped
          exact ⟨current ▸ .nativeReturned outside (same.trans view), rfl⟩

/-- A method that is waiting for an answer is not called again by the one who answers. -/
theorem not_nested {above : List Activation} {method other : ClientMethod}
    {client argument : ClientId} {pc : UpdatePc}
    (notNested : ∀ method client, action = .enter (.update method client) →
      ∀ frame ∈ above ++ .update other argument pc :: below, frame.registers = false)
    (inSection : (Activation.update other argument pc).registers = true) :
    action ≠ .enter (.update method client) := by
  intro enters
  have outside := notNested method client enters (.update other argument pc) (by simp)
  rw [inSection] at outside
  cases outside

/-- The client has said whether it is an encoder. -/
theorem Inside.of_isEncoder (outside : Outside below) (view : app.javaCamera = listed before call)
    (encoder : Bool) {serial : Serial} (current : serial.current = some call) :
    Inside before app.javaCamera (serial.advance next (.answerIsEncoder encoder)).current
      ([.update call.method call.client (call.method.afterIsEncoder encoder)] ++ below) := by
  have answered : (serial.advance next (.answerIsEncoder encoder)).current =
      some { call with encoder := encoder } := congrArg (Option.map _) current
  rw [answered]
  obtain ⟨method, client, asked, jsurface⟩ := call
  cases method with
  | addClient => exact .asksSurface outside view (by simp)
  | removeClient =>
      cases encoder with
      | true => exact .asksSurface outside view (by simp)
      | false => exact .calls outside view .clearPreview

/-- The client has given its surface. -/
theorem Inside.of_getSurface (outside : Outside below)
    (view : app.javaCamera = listed before call)
    (encodes : call.method = .removeClient → call.encoder = true) (jsurface : Option Surface)
    {serial : Serial} (current : serial.current = some call) :
    Inside before app.javaCamera (serial.advance next (.answerGetSurface jsurface)).current
      ([.update call.method call.client
        (.callNative (call.method.entry call.encoder jsurface))] ++ below) := by
  have answered : (serial.advance next (.answerGetSurface jsurface)).current =
      some { call with jsurface := jsurface.map fun surface => ⟨surface, false⟩ } :=
    congrArg (Option.map _) current
  rw [answered]
  obtain ⟨method, client, encoder, asked⟩ := call
  cases method with
  | addClient =>
      cases encoder with
      | true => exact .calls outside view .addEncoder
      | false => exact .calls outside view .setPreview
  | removeClient =>
      obtain rfl : encoder = true := encodes rfl
      exact .calls outside view .removeEncoder

/-- A step of the thread that is inside a call leaves it there, or completes the call. -/
theorem Inside.step {serial : Serial}
    (inside : Inside before serial.app.javaCamera serial.current (serial.app.stackOf thread))
    (notNested : ∀ method client, action = .enter (.update method client) →
      ∀ frame ∈ serial.app.stackOf thread, frame.registers = false)
    (stepped : serial.app.step (thread, action) = some next) :
    (Inside before next.javaCamera (serial.advance next action).current (next.stackOf thread) ∧
        (serial.advance next action).completed = serial.completed) ∨
      (Outside (next.stackOf thread) ∧ (serial.advance next action).current = none ∧
        ∃ call, next.javaCamera = effect before call ∧
          (serial.advance next action).completed = serial.completed ++ [call]) := by
  have moved := App.moved_of_step stepped
  generalize stack : serial.app.stackOf thread = frames at inside moved notNested
  generalize current : serial.current = call at inside
  generalize viewed : serial.app.javaCamera = view at inside
  cases inside with
  | locked outside sameView =>
      obtain ⟨top, topMoved, placed⟩ := Option.map_eq_some_iff.mp moved
      rw [← placed]
      cases Activation.move_of_next topMoved with
      | changeList =>
          have changed := App.javaCamera_of_changeList stepped
          rw [viewed, sameView] at changed
          exact Or.inl ⟨.asksEncoder outside changed, rfl⟩
  | asksEncoder outside listed =>
      obtain ⟨top, topMoved, placed⟩ := Option.map_eq_some_iff.mp moved
      rw [← placed]
      cases Activation.move_of_next topMoved with
      | askIsEncoder =>
          have same := App.javaCamera_of_step rfl stepped
          exact Or.inl
            ⟨current ▸ .answersEncoder outside .asked (same.trans (viewed.trans listed)), rfl⟩
  | @answersEncoder call above below outside answering listed =>
      have view := viewed.trans listed
      by_cases more : above = []
      · subst more
        obtain ⟨top, topMoved, placed⟩ := Option.map_eq_some_iff.mp moved
        rw [← placed]
        cases Activation.move_of_next topMoved with
        | @isEncoder _ _ encoder =>
            have same := App.javaCamera_of_step rfl stepped
            exact Or.inl ⟨Inside.of_isEncoder outside (same.trans view) encoder current, rfl⟩
      · obtain ⟨⟨rest, goesOn, after⟩, spares, notUnlocked⟩ :=
          answering.next more (fun method client => not_nested notNested rfl) moved
        have same := App.javaCamera_of_step (JavaAction.keepsRegistry_of_spares spares) stepped
        rw [Serial.advance_of_spares next spares notUnlocked, after]
        exact Or.inl ⟨current ▸ .answersEncoder outside goesOn (same.trans view), rfl⟩
  | asksSurface outside listed encodes =>
      obtain ⟨top, topMoved, placed⟩ := Option.map_eq_some_iff.mp moved
      rw [← placed]
      cases Activation.move_of_next topMoved with
      | askSurface =>
          have same := App.javaCamera_of_step rfl stepped
          exact Or.inl
            ⟨current ▸ .answersSurface outside .asked (same.trans (viewed.trans listed)) encodes,
              rfl⟩
  | @answersSurface call above below outside answering listed encodes =>
      have view := viewed.trans listed
      by_cases more : above = []
      · subst more
        obtain ⟨top, topMoved, placed⟩ := Option.map_eq_some_iff.mp moved
        rw [← placed]
        cases Activation.move_of_next topMoved with
        | @getSurface _ _ _ jsurface =>
            have same := App.javaCamera_of_step rfl stepped
            exact Or.inl
              ⟨Inside.of_getSurface outside (same.trans view) encodes jsurface current, rfl⟩
      · obtain ⟨⟨rest, goesOn, after⟩, spares, notUnlocked⟩ :=
          answering.next more (fun method client => not_nested notNested rfl) moved
        have same := App.javaCamera_of_step (JavaAction.keepsRegistry_of_spares spares) stepped
        rw [Serial.advance_of_spares next spares notUnlocked, after]
        exact Or.inl ⟨current ▸ .answersSurface outside goesOn (same.trans view) encodes, rfl⟩
  | calls outside listed hands =>
      obtain ⟨top, topMoved, placed⟩ := Option.map_eq_some_iff.mp moved
      rw [← placed]
      cases Activation.move_of_next topMoved with
      | callNative =>
          have same := App.javaCamera_of_step rfl stepped
          obtain ⟨pc, entered, pending⟩ := hands.pending
          rw [entered]
          exact Or.inl ⟨current ▸ .native outside (same.trans (viewed.trans listed)) pending, rfl⟩
  | native outside listed pending =>
      exact Or.inl (Inside.of_pending outside (viewed.trans listed) pending stack stepped current)
  | updated outside made updated =>
      exact Or.inl (Inside.of_updated outside (viewed.trans made) updated stack stepped current)
  | nativeReturned outside made =>
      obtain ⟨top, topMoved, placed⟩ := Option.map_eq_some_iff.mp moved
      rw [← placed]
      cases Activation.move_of_next topMoved with
      | nativeReturns =>
          have same := App.javaCamera_of_step rfl stepped
          exact Or.inl ⟨current ▸ .returned outside (same.trans (viewed.trans made)), rfl⟩
      | native working => exact absurd rfl working
  | returned outside made =>
      obtain ⟨top, topMoved, placed⟩ := Option.map_eq_some_iff.mp moved
      rw [← placed]
      cases Activation.move_of_next topMoved with
      | updateUnlocks =>
          have same := App.javaCamera_of_step rfl stepped
          refine Or.inr ⟨outside, rfl, _, same.trans (viewed.trans made), ?_⟩
          simp [Serial.advance, current]

end Owner

/-! ## Every interleaving -/

theorem Inside.exists_registers {before view : JavaCamera} {current : Option Registering}
    {stack : List Activation} (inside : Inside before view current stack) :
    ∃ frame ∈ stack, frame.registers = true := by
  cases inside with
  | answersEncoder | answersSurface =>
      exact ⟨_, List.mem_append_right _ List.mem_cons_self, rfl⟩
  | native | updated | nativeReturned =>
      exact ⟨_, List.mem_cons_of_mem _ List.mem_cons_self, rfl⟩
  | locked | asksEncoder | asksSurface | calls | returned =>
      exact ⟨_, List.mem_cons_self, rfl⟩

theorem Activation.of_registers {frame : Activation} (registers : frame.registers = true) :
    frame.inSection = true ∧ frame.stands = false := by
  cases frame with
  | update method client pc =>
      simp only [Activation.registers, ne_eq, decide_eq_true_eq] at registers
      simp [Activation.inSection, Activation.stands, registers]
  | _ => cases registers

theorem Inside.sections_pos {before view : JavaCamera} {current : Option Registering}
    {stack : List Activation} (inside : Inside before view current stack) :
    0 < Activation.sections stack := by
  obtain ⟨frame, member, registers⟩ := inside.exists_registers
  exact List.countP_pos_iff.mpr ⟨frame, member, (Activation.of_registers registers).1⟩

theorem Inside.not_outside {before view : JavaCamera} {current : Option Registering}
    {stack : List Activation} (inside : Inside before view current stack) : ¬ Outside stack := by
  intro outside
  obtain ⟨frame, member, registers⟩ := inside.exists_registers
  have stands := outside frame member
  rw [(Activation.of_registers registers).2] at stands
  cases stands

/-- What the registry can be while the sequential object is `before`. -/
theorem Inside.view {before view : JavaCamera} {current : Option Registering}
    {stack : List Activation} (inside : Inside before view current stack) :
    view = before ∨
      ∃ call, current = some call ∧ (view = listed before call ∨ view = effect before call) := by
  cases inside with
  | locked outside same => exact Or.inl same
  | asksEncoder outside listed | answersEncoder outside answering listed
  | asksSurface outside listed | answersSurface outside answering listed
  | calls outside listed | native outside listed =>
      exact Or.inr ⟨_, rfl, Or.inl listed⟩
  | updated outside made | nativeReturned outside made | returned outside made =>
      exact Or.inr ⟨_, rfl, Or.inr made⟩

namespace App

/-- Another thread neither takes nor gives back a lock that is owned. -/
theorem keepsLock_of_step {app next : App} {owner thread : ThreadId} {count : Nat}
    {action : JavaAction} (taken : app.mClientLock = some (owner, count))
    (distinct : thread ≠ owner) (stepped : app.step (thread, action) = some next) :
    action ≠ .lockClients ∧ action ≠ .unlockClients := by
  obtain ⟨shared, applied, -⟩ := applied_of_step stepped
  constructor
  · rintro rfl
    simp [apply, taken, lockClients, Ne.symm distinct] at applied
  · rintro rfl
    simp [apply, taken, unlockClients, Ne.symm distinct] at applied

end App

namespace Serial

/-- Nobody registers a client from inside another registration. -/
def NotNested (serial : Serial) (event : ThreadId × JavaAction) : Prop :=
  event.2.registers = true →
    ∀ frame ∈ serial.app.stackOf event.1, frame.registers = false

instance (serial : Serial) (event : ThreadId × JavaAction) :
    Decidable (NotNested serial event) :=
  inferInstanceAs (Decidable (_ → ∀ frame ∈ serial.app.stackOf event.1, _))

/-- The calls that are completed account for the registry, but for the one call a thread may
be inside of. -/
structure Accounted (start : JavaCamera) (events : List (ThreadId × JavaAction))
    (serial : Serial) : Prop where
  counted : App.Counted events serial.app
  calls : ∃ before, Registering.run start serial.completed = some before ∧
    ((serial.current = none ∧ serial.app.javaCamera = before ∧
        ∀ thread, Outside (serial.app.stackOf thread)) ∨
      ∃ owner, Inside before serial.app.javaCamera serial.current (serial.app.stackOf owner) ∧
        ∀ other, other ≠ owner → Outside (serial.app.stackOf other))

section Steps

variable {serial next : Serial} {thread : ThreadId} {action : JavaAction} {start : JavaCamera}
  {events : List (ThreadId × JavaAction)}

theorem accounted_ofApp {app : App} {capture : ThreadId} (begins : app.Begins capture) :
    Accounted app.javaCamera [] (ofApp app) := by
  refine ⟨begins.counted, _, rfl, Or.inl ⟨rfl, rfl, fun thread frame member => ?_⟩⟩
  rcases begins.stack thread with capturing | idle
  · rw [ofApp, capturing] at member
    rw [List.mem_singleton.mp member]
    rfl
  · rw [ofApp, idle] at member
    cases member

theorem advance_of_none (app : App) (spares : action.spares = true)
    (idle : serial.current = none) :
    (serial.advance app action).current = none ∧
      (serial.advance app action).completed = serial.completed := by
  by_cases unlocks : action = .unlockClients
  · subst unlocks
    exact ⟨rfl, by simp [advance, idle]⟩
  · rw [advance_of_spares app spares unlocks]
    exact ⟨idle, rfl⟩

/-- What a thread that is not inside a call does to the account. -/
theorem Accounted.step_outside (accounted : Accounted start events serial)
    (outside : Outside (serial.app.stackOf thread))
    (stepped : serial.step (thread, action) = some next) :
    ∃ before, Registering.run start next.completed = some before ∧
      ((next.current = none ∧ next.app.javaCamera = before ∧
          ∀ thread, Outside (next.app.stackOf thread)) ∨
        ∃ owner, Inside before next.app.javaCamera next.current (next.app.stackOf owner) ∧
          ∀ other, other ≠ owner → Outside (next.app.stackOf other)) := by
  obtain ⟨appStepped, advanced⟩ := of_step stepped
  obtain ⟨spares, after⟩ := outside.next (App.moved_of_step appStepped)
  have same := App.javaCamera_of_step (JavaAction.keepsRegistry_of_spares spares) appStepped
  obtain ⟨before, ran, ⟨idle, view, all⟩ | ⟨owner, inside, others⟩⟩ := accounted.calls
  · obtain ⟨stillIdle, completed⟩ := advance_of_none next.app spares idle
    rw [← advanced] at stillIdle completed
    refine ⟨before, by rw [completed]; exact ran, ?_⟩
    have rest : ∀ other, other ≠ thread → Outside (next.app.stackOf other) := by
      intro other distinct
      rw [App.other_of_step appStepped distinct]
      exact all other
    rcases after with still | ⟨-, method, client, below, under, placed⟩
    · refine Or.inl ⟨stillIdle, same.trans view, fun other => ?_⟩
      by_cases mover : other = thread
      · rw [mover]
        exact still
      · exact rest other mover
    · refine Or.inr ⟨thread, ?_, rest⟩
      rw [stillIdle, placed]
      exact .locked under (same.trans view)
  · have distinct : thread ≠ owner := by
      rintro rfl
      exact inside.not_outside outside
    have holds : 0 < serial.app.holdCount owner := by
      have entered := accounted.counted.held owner
      have positive := inside.sections_pos
      omega
    obtain ⟨count, taken⟩ := (App.holdCount_pos_iff accounted.counted).mp holds
    obtain ⟨notLocked, notUnlocked⟩ := App.keepsLock_of_step taken distinct appStepped
    rw [advance_of_spares next.app spares notUnlocked] at advanced
    have current : next.current = serial.current := by rw [advanced]
    have completed : next.completed = serial.completed := by rw [advanced]
    refine ⟨before, by rw [completed]; exact ran, Or.inr ⟨owner, ?_, fun other notOwner => ?_⟩⟩
    · rw [same, current, App.other_of_step appStepped (Ne.symm distinct)]
      exact inside
    · by_cases mover : other = thread
      · rw [mover]
        rcases after with still | ⟨locks, -⟩
        · exact still
        · exact absurd locks notLocked
      · rw [App.other_of_step appStepped mover]
        exact others other notOwner

theorem Accounted.step (accounted : Accounted start events serial)
    (notNested : NotNested serial (thread, action))
    (stepped : serial.step (thread, action) = some next) :
    Accounted start (events ++ [(thread, action)]) next := by
  obtain ⟨appStepped, advanced⟩ := of_step stepped
  refine ⟨accounted.counted.step appStepped, ?_⟩
  obtain ⟨before, ran, ⟨idle, view, all⟩ | ⟨owner, inside, others⟩⟩ := accounted.calls
  · exact accounted.step_outside (all thread) stepped
  · by_cases mover : thread = owner
    · subst mover
      have apart : ∀ method client, action = .enter (.update method client) →
          ∀ frame ∈ serial.app.stackOf thread, frame.registers = false := by
        rintro method client rfl
        exact notNested rfl
      have outcome := inside.step apart appStepped
      rw [← advanced] at outcome
      have rest : ∀ other, other ≠ thread → Outside (next.app.stackOf other) := by
        intro other distinct
        rw [App.other_of_step appStepped distinct]
        exact others other distinct
      rcases outcome with ⟨still, completed⟩ | ⟨outside, idle, call, view, completed⟩
      · exact ⟨before, by rw [completed]; exact ran, Or.inr ⟨thread, still, rest⟩⟩
      · refine ⟨effect before call, ?_, Or.inl ⟨idle, view, fun other => ?_⟩⟩
        · rw [completed]
          exact Registering.run_append_singleton ran call
        · by_cases own : other = thread
          · rw [own]
            exact outside
          · exact rest other own
    · exact accounted.step_outside (others thread mover) stepped

end Steps

/-- The registry is what the sequential object becomes through the completed calls; while a
thread is inside one more call, it differs by a part of that call. -/
structure Sequential (start : JavaCamera) (serial : Serial) : Prop where
  outside : (∀ thread, ∀ frame ∈ serial.app.stackOf thread, frame.registers = false) →
    Registering.run start serial.completed = some serial.app.javaCamera
  inside : ∃ before, Registering.run start serial.completed = some before ∧
    (serial.app.javaCamera = before ∨
      ∃ call, serial.current = some call ∧
        (serial.app.javaCamera = listed before call ∨
          serial.app.javaCamera = effect before call))

section Results

variable {app : App} {final : Serial} {capture : ThreadId}
  {events : List (ThreadId × JavaAction)}

/-- The threads are those of the run without the account. -/
theorem app_of_run {serial : Serial} (ran : run serial events = some final) :
    App.run serial.app events = some final.app := by
  induction events generalizing serial with
  | nil =>
      cases Option.some.inj ran
      rfl
  | cons event events ih =>
      obtain ⟨next, stepped, onward⟩ := LabelledRun.run_cons_iff.mp ran
      exact LabelledRun.run_cons_iff.mpr ⟨next.app, (of_step stepped).1, ih onward⟩

theorem accounted_of_run (begins : app.Begins capture)
    (notNested : EveryStep NotNested (ofApp app) events)
    (ran : run (ofApp app) events = some final) : Accounted app.javaCamera events final := by
  refine LabelledRun.history_of_run ?_ (accounted_ofApp begins) notNested ran
  rintro before state ⟨mover, action⟩ after accounted notNested stepped
  exact accounted.step notNested stepped

theorem Accounted.sequential {start : JavaCamera} (accounted : Accounted start events final) :
    Sequential start final := by
  obtain ⟨before, account, ⟨idle, view, all⟩ | ⟨owner, inside, others⟩⟩ := accounted.calls
  · refine ⟨fun _ => ?_, before, account, Or.inl view⟩
    rw [view]
    exact account
  · refine ⟨fun outside => ?_, before, account, inside.view⟩
    obtain ⟨frame, member, registers⟩ := inside.exists_registers
    rw [outside owner frame member] at registers
    cases registers

/-- Two threads register at the same time; the second waits until the first has given the lock
back. -/
def twoClientsEvents : List (ThreadId × JavaAction) :=
  [(0, .enter (.update .addClient 4)), (2, .enter (.update .addClient 6)), (0, .lockClients),
    (0, .changeList .addClient 4), (0, .callBack), (0, .leave), (0, .answerIsEncoder true),
    (1, .native (.getCamera true)), (0, .callBack), (0, .leave), (0, .answerGetSurface (some 9)),
    (0, .callNative), (0, .native (.getCamera true)), (1, .native (.readFd 5)),
    (0, .native (.surfaceValid true)), (0, .native (.lock .encoderLock)),
    (0, .native (.pushEncoder 9)), (0, .native (.unlock .encoderLock)),
    (0, .native .encodersSize), (0, .leave), (0, .unlockClients), (2, .lockClients),
    (2, .changeList .addClient 6), (2, .callBack), (2, .leave), (2, .answerIsEncoder false),
    (2, .callBack), (2, .leave), (2, .answerGetSurface (some 8)), (2, .callNative),
    (2, .native (.getCamera true)), (2, .native (.surfaceValid true)),
    (2, .native (.lock .previewLock)), (2, .native (.writePreview (some 8))),
    (2, .native (.unlock .previewLock)), (2, .leave), (2, .unlockClients)]

end Results

end Serial

end UsbCamera
