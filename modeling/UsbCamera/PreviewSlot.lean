import UsbCamera.JavaCamera
import UsbCamera.LabelledRun

/-!
# The preview slot and the preview clients

Any number of preview clients may be registered, and the native object has one
`mPreviewSurface` for them all.  `addClient` fills the slot with the surface of the client
it adds; `removeClient` empties it whoever owns it.  The slot therefore follows the
clients as long as no removal leaves another client behind.
-/

namespace UsbCamera

/-- A call of `addClient` or `removeClient` for a preview client. -/
inductive PreviewCall
  | add (client : ClientId)
  | remove (client : ClientId)
  deriving DecidableEq

/-- The camera, and the clients that have been added to it, the most recent one first. -/
structure PreviewClients where
  camera : JavaCamera
  added : List ClientId

namespace PreviewClients

/-- The callbacks of a preview client with a fixed valid surface. -/
def answers (surfaceOf : ClientId → Surface) (client : ClientId) : Answers where
  isEncoder := .ok false
  getSurface := .ok (some ⟨surfaceOf client, true⟩)

def perform (surfaceOf : ClientId → Surface) : PreviewCall → JavaCamera.Java Unit
  | .add client => JavaCamera.addClient client (answers surfaceOf client)
  | .remove client => JavaCamera.removeClient client (answers surfaceOf client)

def record (added : List ClientId) : PreviewCall → List ClientId
  | .add client => client :: added
  | .remove _ => added

def step (surfaceOf : ClientId → Surface) (clients : PreviewClients) (call : PreviewCall) :
    Option PreviewClients :=
  match (perform surfaceOf call).exec clients.camera with
  | some (.ok (), camera) => some ⟨camera, record clients.added call⟩
  | _ => none

abbrev run (surfaceOf : ClientId → Surface) :
    PreviewClients → List PreviewCall → Option PreviewClients :=
  LabelledRun.run (step surfaceOf)

def fresh : PreviewClients := ⟨JavaCamera.create, []⟩

/-- `mPreviewSurface`, when the native object is attached. -/
def slot (clients : PreviewClients) : Option (Option Surface) :=
  clients.camera.mNativeObject.map NativeSurfaces.mPreviewSurface

/-- The most recently added client that is still in `mClients`. -/
def latest (clients : PreviewClients) : Option ClientId :=
  clients.added.find? fun client => client ∈ clients.camera.mClients.items

/-- The slot holds the surface of the most recently added client that is still registered,
and is `NULL` just when there is none. -/
structure Follows (surfaceOf : ClientId → Surface) (clients : PreviewClients) : Prop where
  latest : clients.slot = some (clients.latest.map surfaceOf)
  null : clients.slot = some none ↔ clients.camera.mClients.items = []

/-- The slot follows the clients after every call, and removing a client that does not own
it leaves it alone. -/
structure SlotFollowsClients (surfaceOf : ClientId → Surface) (calls : List PreviewCall) :
    Prop where
  follows : ∀ before after clients, calls = before ++ after →
    run surfaceOf fresh before = some clients → Follows surfaceOf clients
  unowned : ∀ before client after clients next, calls = before ++ .remove client :: after →
    run surfaceOf fresh before = some clients →
    step surfaceOf clients (.remove client) = some next →
    clients.slot ≠ some (some (surfaceOf client)) → next.slot = clients.slot

/-- A removal leaves no client registered. -/
def LeavesNone (clients : PreviewClients) : PreviewCall → Prop
  | .add _ => True
  | .remove client => clients.camera.mClients.items.erase client = []

instance (clients : PreviewClients) : DecidablePred (LeavesNone clients)
  | .add _ => isTrue trivial
  | .remove client =>
      inferInstanceAs (Decidable (clients.camera.mClients.items.erase client = []))

/-! ## One call -/

section Calls

variable {surfaceOf : ClientId → Surface} {clients next : PreviewClients} {client : ClientId}

theorem exists_step (clients : PreviewClients) (call : PreviewCall) :
    ∃ next, step surfaceOf clients call = some next := by
  cases call with
  | add client => simp [step, perform, answers, JavaCamera.exec_addClient]
  | remove client => simp [step, perform, answers, JavaCamera.exec_removeClient]

theorem step_add (stepped : step surfaceOf clients (.add client) = some next) :
    next.camera.mClients.items = clients.camera.mClients.items ++ [client] ∧
      next.slot = clients.slot.map (fun _ => some (surfaceOf client)) ∧
      next.added = client :: clients.added := by
  simp only [step, perform, answers, JavaCamera.exec_addClient, Option.some.injEq] at stepped
  rw [← stepped]
  refine ⟨rfl, ?_, rfl⟩
  simp [slot, Function.comp_def, NativeSurfaces.setPreviewSurface]

theorem step_remove (stepped : step surfaceOf clients (.remove client) = some next) :
    next.camera.mClients.items = clients.camera.mClients.items.erase client ∧
      next.slot = clients.slot.map (fun _ => none) ∧ next.added = clients.added := by
  simp only [step, perform, answers, JavaCamera.exec_removeClient, Option.some.injEq] at stepped
  rw [← stepped]
  refine ⟨FailFastList.remove_items _ _, ?_, rfl⟩
  simp [slot, Function.comp_def, NativeSurfaces.setPreviewSurface]

theorem Follows.add (follows : Follows surfaceOf clients)
    (stepped : step surfaceOf clients (.add client) = some next) : Follows surfaceOf next := by
  obtain ⟨items, filled, added⟩ := step_add stepped
  have isLatest : next.latest = some client := by
    rw [PreviewClients.latest, added, items]
    simp
  rw [follows.latest, Option.map_some] at filled
  constructor
  · rw [filled, isLatest, Option.map_some]
  · simp [filled, items]

theorem Follows.remove_iff (follows : Follows surfaceOf clients)
    (stepped : step surfaceOf clients (.remove client) = some next) :
    Follows surfaceOf next ↔ clients.camera.mClients.items.erase client = [] := by
  obtain ⟨items, emptied, -⟩ := step_remove stepped
  rw [follows.latest, Option.map_some] at emptied
  constructor
  · intro still
    rw [← items]
    exact still.null.mp emptied
  · intro none
    rw [← items] at none
    have noLatest : next.latest = Option.none := by
      rw [PreviewClients.latest, none]
      simp
    constructor
    · rw [emptied, noLatest, Option.map_none]
    · simp [emptied, none]

theorem Follows.step_iff {call : PreviewCall} (follows : Follows surfaceOf clients)
    (stepped : step surfaceOf clients call = some next) :
    Follows surfaceOf next ↔ LeavesNone clients call := by
  cases call with
  | add client => exact iff_of_true (follows.add stepped) trivial
  | remove client => exact follows.remove_iff stepped

theorem Follows.owner_of_erase (follows : Follows surfaceOf clients)
    (none : clients.camera.mClients.items.erase client = [])
    (registered : clients.camera.mClients.items ≠ []) :
    clients.slot = some (some (surfaceOf client)) := by
  have member : client ∈ clients.camera.mClients.items := by
    by_contra absent
    rw [List.erase_of_not_mem absent] at none
    exact registered none
  have alone : clients.camera.mClients.items = [client] := by
    have perm := List.perm_cons_erase member
    rw [none] at perm
    exact List.perm_singleton.mp perm
  have filled := follows.latest
  cases isLatest : clients.latest with
  | none =>
      rw [isLatest] at filled
      exact absurd (follows.null.mp filled) registered
  | some other =>
      have registered := List.find?_some isLatest
      rw [alone] at registered
      have same : other = client := by simpa using registered
      rw [filled, isLatest, same, Option.map_some]

end Calls

/-! ## Every sequence of calls -/

theorem follows_fresh (surfaceOf : ClientId → Surface) : Follows surfaceOf fresh :=
  ⟨rfl, iff_of_true rfl rfl⟩

/-- The slot follows the clients exactly when every removal leaves no client registered. -/
theorem slotFollowsClients_iff (surfaceOf : ClientId → Surface) (calls : List PreviewCall) :
    SlotFollowsClients surfaceOf calls ↔
      LabelledRun.EveryStep (step surfaceOf) LeavesNone fresh calls := by
  have follows_iff : (∀ before after clients, calls = before ++ after →
      run surfaceOf fresh before = some clients → Follows surfaceOf clients) ↔
      LabelledRun.EveryStep (step surfaceOf) LeavesNone fresh calls := by
    refine LabelledRun.forall_prefix_iff_everyStep exists_step
      (fun _ _ _ (_ : True) _ => trivial) ?_ trivial (follows_fresh surfaceOf)
    intro clients call next _ follows stepped
    exact follows.step_iff stepped
  constructor
  · intro slotFollows
    exact follows_iff.mp slotFollows.follows
  · intro leavesNone
    have follows := follows_iff.mpr leavesNone
    refine ⟨follows, ?_⟩
    rintro before client after clients next rfl reached stepped notOwner
    have holds := follows before _ clients rfl reached
    have rest := ((LabelledRun.everyStep_append_iff reached).mp leavesNone).2
    have none : clients.camera.mClients.items.erase client = [] :=
      (LabelledRun.everyStep_cons_iff.mp rest).1
    by_cases registered : clients.camera.mClients.items = []
    · rw [(step_remove stepped).2.1, holds.null.mpr registered, Option.map_some]
    · exact absurd (holds.owner_of_erase none registered) notOwner

/-- Replacing a preview works when the old one goes first. -/
example : LabelledRun.EveryStep (step id) LeavesNone fresh [.add 1, .remove 1, .add 2] := by
  decide

/-- A second preview is added before the first is removed, as happens when a new surface
view is created before the old one is destroyed. -/
def overlapCalls : List PreviewCall := [.add 1, .add 2, .remove 1]

theorem not_slotFollowsClients :
    ¬ ∀ surfaceOf calls, SlotFollowsClients surfaceOf calls := by
  intro always
  have follows := (always (fun client => client) overlapCalls).follows overlapCalls []
    ⟨⟨⟨[2], 3⟩, 0, some ⟨none, []⟩, 0⟩, [2, 1]⟩ rfl rfl
  cases follows.latest

end PreviewClients

end UsbCamera
