import UsbCamera.ProgramSteps

/-!
# Who holds the native mutexes

The points of each program at which it holds `mPreviewLock` or `mEncoderLock`, and the
agreement between those points and the owners the mutexes record.  A thread holds at
most one of the two, asks for one only while it holds neither, and two threads are
never inside sections of the same mutex.
-/

namespace UsbCamera

/-- What an action does to the mutex its thread holds: a program locks only while it holds
none, and unlocks the one it holds. -/
inductive LockStep : Option Mutex → Action → Option Mutex → Prop
  | lock {mutex : Mutex} : LockStep none (.lock mutex) (some mutex)
  | unlock {mutex : Mutex} : LockStep (some mutex) (.unlock mutex) none
  | keep {held : Option Mutex} {action : Action} :
      (∀ mutex, action ≠ .lock mutex) → (∀ mutex, action ≠ .unlock mutex) →
      LockStep held action held

/-! ## The sections of the programs -/

/-- The mutex `drawPreviewSurface` holds at a point. -/
def PreviewPc.holds : PreviewPc → Option Mutex
  | .takeWindow | .lock _ | .returned => none
  | _ => some .previewLock

theorem PreviewPc.lockStep_of_next {pc after : PreviewPc} {action : Action}
    (moved : pc.next action = some after) : LockStep pc.holds action after.holds := by
  unfold PreviewPc.next at moved
  split at moved
  all_goals (repeat' split at moved)
  all_goals cases moved
  all_goals first
    | exact .lock
    | exact .unlock
    | exact .keep (by simp) (by simp)

/-- The mutex `drawEncoderSurface` holds at a point. -/
def EncoderPc.holds : EncoderPc → Option Mutex
  | .lock | .freeScratch | .returned => none
  | _ => some .encoderLock

theorem EncoderPc.lockStep_of_next {pc after : EncoderPc} {action : Action}
    (moved : pc.next action = some after) : LockStep pc.holds action after.holds := by
  unfold EncoderPc.next at moved
  split at moved
  all_goals (repeat' split at moved)
  all_goals cases moved
  all_goals first
    | exact .lock
    | exact .unlock
    | exact .keep (by simp) (by simp)

/-- The mutex a surface entry point holds. -/
def SurfacePc.holds : SurfacePc → Option Mutex
  | .apply update | .unlock update => some update.mutex
  | _ => none

theorem SurfacePc.lockStep_of_next {pc after : SurfacePc} {action : Action}
    (moved : pc.next action = some after) : LockStep pc.holds action after.holds := by
  unfold SurfacePc.next at moved
  split at moved
  case h_5 update =>
      split at moved
      · rename_i same
        cases same
        cases moved
        cases update <;> exact .keep (by simp [SurfaceUpdate.action])
          (by simp [SurfaceUpdate.action])
      · cases moved
  all_goals (repeat' split at moved)
  all_goals cases moved
  all_goals subst_vars
  all_goals first
    | exact .lock
    | exact .unlock
    | exact .keep (by simp) (by simp)

def CapturePc.holds : CapturePc → Option Mutex
  | .preview pc => pc.holds
  | .encoder pc => pc.holds
  | _ => none

namespace CapturePc

@[simp]
theorem holds_afterSelect (result : Int) (errno : Errno) :
    (afterSelect result errno).holds = none := by
  unfold afterSelect
  split_ifs <;> rfl

@[simp]
theorem holds_afterDequeue (first : Bool) (result : DequeueResult) :
    (afterDequeue first result).holds = none := by
  cases result <;> simp only [afterDequeue] <;> split_ifs <;> rfl

theorem lockStep_of_move {first first' : Bool} {pc pc' : CapturePc} {action : Action}
    (move : Move first pc action first' pc') : LockStep pc.holds action pc'.holds := by
  cases move with
  | @preview pc after action drawn =>
      have step := PreviewPc.lockStep_of_next drawn
      by_cases returned : after = .returned
      · subst returned
        exact step
      · rw [if_neg returned]
        exact step
  | @encoder pc after action drawn =>
      have step := EncoderPc.lockStep_of_next drawn
      by_cases returned : after = .returned
      · subst returned
        exact step
      · rw [if_neg returned]
        exact step
  | @stillRunning result errno =>
      rw [holds_afterSelect]
      exact .keep (by simp) (by simp)
  | @dequeueBuf fd result =>
      rw [holds_afterDequeue]
      exact .keep (by simp) (by simp)
  | _ => exact .keep (by simp) (by simp)

end CapturePc

/-- The mutex a thread holds. -/
def Pc.holds : Pc → Option Mutex
  | .capturing _ pc => pc.holds
  | .surface pc => pc.holds
  | _ => none

namespace Pc

@[simp]
theorem holds_enter (entry : Call) : (enter entry).holds = none := by
  cases entry with
  | setPreview jsurface | addEncoder jsurface | removeEncoder jsurface =>
      cases jsurface <;> rfl
  | start | stop | release => rfl

@[simp]
theorem holds_afterOpen (pc : OpenPc) : (afterOpen pc).holds = none := by
  cases pc
  case returned fd => by_cases positive : 0 < fd <;> simp [afterOpen, positive, holds]
  all_goals rfl

@[simp]
theorem holds_afterCapture (first : Bool) (pc : CapturePc) :
    (afterCapture first pc).holds = pc.holds := by
  cases pc <;> rfl

@[simp]
theorem holds_afterSurface (pc : SurfacePc) : (afterSurface pc).holds = pc.holds := by
  cases pc <;> rfl

theorem keeps_of_own {action : Action} (own : OpenPc.ownAction action = true)
    (held : Option Mutex) : LockStep held action held := by
  apply LockStep.keep
  · rintro mutex rfl
    cases own
  · rintro mutex rfl
    cases own

theorem lockStep_of_move {pc pc' : Pc} {action : Action} (move : Move pc action pc') :
    LockStep pc.holds action pc'.holds := by
  cases move with
  | call =>
      rw [holds_enter]
      exact .keep (by simp) (by simp)
  | opening inner =>
      rw [holds_afterOpen]
      exact keeps_of_own inner.own none
  | capturing inner =>
      rw [holds_afterCapture]
      exact CapturePc.lockStep_of_move inner
  | surface inner =>
      rw [holds_afterSurface]
      exact SurfacePc.lockStep_of_next inner
  | _ => exact .keep (by simp) (by simp)

end Pc

/-! ## What the mutexes guard -/

/-- The mutex under which a window is used. -/
def WindowCall.mutex : WindowCall → Mutex
  | .configure | .dequeue _ | .lockBuffer _ | .unlockBuffer _ | .queue _ => .previewLock
  | .lockWindow _ | .post => .encoderLock

/-- The mutex under which an action is performed.  `mPreviewSurface` is also read before
`mPreviewLock` is taken. -/
def Action.guard : Action → Option Mutex
  | .writePreview _ => some .previewLock
  | .pushEncoder _ | .removeEncoder _ | .encodersEmpty _ | .encoderAt _ _ => some .encoderLock
  | .window _ called => some called.mutex
  | _ => none

section Guards

variable {action : Action} {mutex : Mutex}

theorem PreviewPc.guarded_of_next {pc after : PreviewPc} (moved : pc.next action = some after)
    (guarded : action.guard = some mutex) : pc.holds = some mutex := by
  unfold PreviewPc.next at moved
  split at moved
  all_goals first
    | exact guarded
    | cases guarded
    | cases moved

theorem EncoderPc.guarded_of_next {pc after : EncoderPc} (moved : pc.next action = some after)
    (guarded : action.guard = some mutex) : pc.holds = some mutex := by
  unfold EncoderPc.next at moved
  split at moved
  all_goals first
    | exact guarded
    | cases guarded
    | cases moved

theorem SurfacePc.guarded_of_next {pc after : SurfacePc} (moved : pc.next action = some after)
    (guarded : action.guard = some mutex) : pc.holds = some mutex := by
  unfold SurfacePc.next at moved
  split at moved
  case h_5 update =>
      split at moved
      · rename_i same
        rw [same] at guarded
        cases update <;> exact guarded
      · cases moved
  all_goals first
    | cases guarded
    | cases moved

theorem Pc.guarded_of_move {pc pc' : Pc} (move : Move pc action pc')
    (guarded : action.guard = some mutex) : pc.holds = some mutex := by
  cases move with
  | opening inner =>
      cases inner <;> cases guarded
  | capturing inner =>
      cases inner with
      | preview drawn => exact PreviewPc.guarded_of_next drawn guarded
      | encoder drawn => exact EncoderPc.guarded_of_next drawn guarded
      | _ => cases guarded
  | surface inner => exact SurfacePc.guarded_of_next inner guarded
  | _ => cases guarded

end Guards

/-! ## Owners and sections -/

/-- The owners the mutexes record are the threads that say they hold them. -/
def Camera.OwnedAs (camera : Camera) (holds : ThreadId → Option Mutex) : Prop :=
  ∀ mutex thread, camera.holder mutex = some thread ↔ holds thread = some mutex

namespace Camera

variable {camera camera' : Camera} {holds holds' : ThreadId → Option Mutex}
  {thread : ThreadId} {action : Action}

theorem OwnedAs.of_setHolder {changed : Mutex} {owner : Option ThreadId}
    (owned : camera.OwnedAs holds) (placed : camera' = camera.setHolder changed owner)
    (unmoved : ∀ other, other ≠ thread → holds' other = holds other)
    (mine : owner = some thread ↔ holds' thread = some changed)
    (elsewhere : ∀ mutex, mutex ≠ changed →
      (holds thread = some mutex ↔ holds' thread = some mutex))
    (others : ∀ other, other ≠ thread →
      owner ≠ some other ∧ camera.holder changed ≠ some other) : camera'.OwnedAs holds' := by
  intro mutex other
  rw [placed, setHolder_holder]
  by_cases mover : other = thread
  · subst mover
    by_cases same : mutex = changed
    · rw [if_pos same, same]
      exact mine
    · rw [if_neg same, owned mutex other]
      exact elsewhere mutex same
  · rw [unmoved other mover]
    by_cases same : mutex = changed
    · subst same
      rw [if_pos rfl, ← owned mutex other]
      have apart := others other mover
      simp [apart.1, apart.2]
    · rw [if_neg same]
      exact owned mutex other

/-- A step of a thread that locks and unlocks as it says keeps the owners right. -/
theorem OwnedAs.step (owned : camera.OwnedAs holds)
    (locking : LockStep (holds thread) action (holds' thread))
    (applied : camera.apply thread action = some camera')
    (unmoved : ∀ other, other ≠ thread → holds' other = holds other) :
    camera'.OwnedAs holds' := by
  generalize held : holds thread = before at locking
  generalize holdsNow : holds' thread = after at locking
  cases locking with
  | @lock taken =>
      obtain ⟨free, placed⟩ := of_lock applied
      apply owned.of_setHolder placed unmoved
      · simp [holdsNow]
      · intro mutex distinct
        simp [held, holdsNow, Ne.symm distinct]
      · intro other distinct
        simp [free, Ne.symm distinct]
  | @unlock freed =>
      have placed : camera' = camera.setHolder freed none := (Option.some.inj applied).symm
      have owner := (owned freed thread).mpr held
      apply owned.of_setHolder placed unmoved
      · simp [holdsNow]
      · intro mutex distinct
        simp [held, holdsNow, Ne.symm distinct]
      · intro other distinct
        simp [owner, Ne.symm distinct]
  | keep notLock notUnlock =>
      intro mutex other
      rw [holder_of_apply applied notLock notUnlock, owned mutex other]
      by_cases mover : other = thread
      · rw [mover, holdsNow, held]
      · rw [unmoved other mover]

end Camera

namespace World

/-- A mutex is owned by just the thread that is inside one of its sections. -/
def SectionsExclusive (world : World) : Prop :=
  ∀ mutex thread,
    world.camera.holder mutex = some thread ↔ (world.threads thread).holds = some mutex

theorem sectionsExclusive_attached (width height : Int) :
    SectionsExclusive (attached width height) := by
  intro mutex thread
  cases mutex <;> simp [attached, Camera.create, Camera.holder, Pc.holds]

section Steps

variable {world next : World} {thread : ThreadId} {action : Action}

theorem lockStep_of_step (stepped : world.step (thread, action) = some next) :
    LockStep (world.threads thread).holds action (next.threads thread).holds :=
  Pc.lockStep_of_move (move_of_step stepped)

theorem holds_of_other (stepped : world.step (thread, action) = some next)
    {other : ThreadId} (distinct : other ≠ thread) :
    (next.threads other).holds = (world.threads other).holds := by
  rcases other_of_step stepped distinct with same | ⟨-, idle, begun⟩
  · rw [same]
  · rw [begun, idle]
    rfl

theorem SectionsExclusive.step (exclusive : SectionsExclusive world)
    (stepped : world.step (thread, action) = some next) : SectionsExclusive next := by
  have owned : world.camera.OwnedAs fun other => (world.threads other).holds := exclusive
  have still : next.camera.OwnedAs fun other => (next.threads other).holds :=
    owned.step (lockStep_of_step stepped) (camera_of_step stepped)
      fun other distinct => holds_of_other stepped distinct
  exact still

/-- In every world a run reaches, sections of one mutex exclude each other. -/
theorem sectionsExclusive_of_run {final : World} {events : List Event}
    (exclusive : SectionsExclusive world)
    (ran : run world events = some final) : SectionsExclusive final := by
  refine LabelledRun.invariant_of_run ?_ exclusive
    (LabelledRun.everyStep_of_forall_mem fun event _ => (trivial : True)) ran
  rintro before ⟨mover, action⟩ after exclusive - stepped
  exact exclusive.step stepped

/-- Two threads inside sections of one mutex are the same. -/
theorem SectionsExclusive.same (exclusive : SectionsExclusive world) {mutex : Mutex}
    {other : ThreadId}
    (held : (world.threads thread).holds = some mutex)
    (alsoHeld : (world.threads other).holds = some mutex) : thread = other := by
  have owner := (exclusive mutex thread).mpr held
  have also := (exclusive mutex other).mpr alsoHeld
  exact Option.some.inj (owner.symm.trans also)

end Steps

end World

end UsbCamera
