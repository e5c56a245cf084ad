import UsbCamera.Linearization
import UsbCamera.MutexExclusion
import UsbCamera.UserThread

/-!
# Encoder passes and registry updates

`addEncoderSurface`, `removeEncoderSurface` and the passes of `drawEncoderSurface` run on
different threads and meet in `mEncoderSurfaces`.  A recorder notes when each of them
begins and returns, and on which surfaces a pass tries to lock a window.  Since both the
updates and the iteration are made under `mEncoderLock`, every record has a sequential
order in which each pass attempts exactly the surfaces that are registered.
-/

namespace UsbCamera

open Linearization

/-! ## The record -/

/-- What an operation does: it makes an update of the list, or it goes through it. -/
inductive Deed
  | update (update : SurfaceUpdate)
  | pass (attempted : List Surface)
  deriving DecidableEq

/-- A call of `addEncoderSurface` or `removeEncoderSurface`, or a pass of
`drawEncoderSurface`; a thread begins at most one at a time. -/
structure Operation where
  thread : ThreadId
  began : Nat
  deed : Deed
  deriving DecidableEq

namespace Operation

/-- The list after an operation. -/
def perform (surfaces : List Surface) (operation : Operation) : List Surface :=
  match operation.deed with
  | .update (.addEncoder surface) => surfaces ++ [surface]
  | .update (.removeEncoder surface) => surfaces.filter fun other => other ≠ surface
  | .update (.setPreview _) | .pass _ => surfaces

/-- A pass attempts one lock for each element of the list, in its order. -/
def Allowed (surfaces : List Surface) (operation : Operation) : Prop :=
  ∀ attempted, operation.deed = .pass attempted → attempted = surfaces

/-- A pass attempts to lock the window of a surface. -/
def attempt (surface : Surface) (operation : Operation) : Operation :=
  match operation.deed with
  | .pass attempted => { operation with deed := .pass (attempted ++ [surface]) }
  | .update _ => operation

end Operation

/-- What has been recorded: the operations that have returned, and those the threads are
in. -/
structure History where
  timeline : Timeline Operation
  current : ThreadId → Option Operation

namespace History

def fresh : History := ⟨⟨0, []⟩, fun _ => none⟩

/-- The operation the thread of an event is in after it, with `reached` its next point.  A
call that is refused, for an invalid surface or without a native object, is no update. -/
def inside (history : History) (event : Event) (reached : Pc) : Option Operation :=
  match event.2, reached with
  | .call (.addEncoder (some surface)), _ =>
      some ⟨event.1, history.timeline.time, .update (.addEncoder surface)⟩
  | .call (.removeEncoder (some surface)), _ =>
      some ⟨event.1, history.timeline.time, .update (.removeEncoder surface)⟩
  | .getCamera false, _ | .surfaceValid false, _ => none
  | .window (some surface) (.lockWindow _), _ =>
      (history.current event.1).map (Operation.attempt surface)
  | _, .capturing _ (.encoder .lock) => some ⟨event.1, history.timeline.time, .pass []⟩
  | _, _ => history.current event.1

/-- A call has returned, or a pass has returned to the loop of `startCapture`. -/
def returns : Pc → Bool
  | .idle | .capturing _ .requeueBuf => true
  | _ => false

def record (history : History) (event : Event) (reached : Pc) : History where
  timeline :=
    { time := history.timeline.time + 1
      completed := history.timeline.completed ++
        if returns reached then
          (history.inside event reached).toList.map fun operation =>
            (operation, history.timeline.time)
        else [] }
  current := fun thread =>
    if thread = event.1 then
      if returns reached then none else history.inside event reached
    else history.current thread

end History

/-- A world and the record of what has happened in it. -/
structure Watched where
  world : World
  history : History

namespace Watched

def step (watched : Watched) (event : Event) : Option Watched :=
  (watched.world.step event).map fun next =>
    ⟨next, watched.history.record event (next.threads event.1)⟩

abbrev run : Watched → List Event → Option Watched :=
  LabelledRun.run step

def attached (width height : Int) : Watched :=
  ⟨World.attached width height, History.fresh⟩

theorem step_eq_some_iff {watched next : Watched} {event : Event} :
    watched.step event = some next ↔
      watched.world.step event = some next.world ∧
        next.history = watched.history.record event (next.world.threads event.1) := by
  obtain ⟨world, history⟩ := next
  simp only [step, Option.map_eq_some_iff, Watched.mk.injEq]
  constructor
  · rintro ⟨next, stepped, rfl, rfl⟩
    exact ⟨stepped, rfl⟩
  · rintro ⟨stepped, rfl⟩
    exact ⟨world, stepped, rfl, rfl⟩

end Watched

/-! ## Where an operation stands -/

/-- What a pass has attempted when it is at a point, with the list as it is now. -/
def EncoderPc.Attempts (surfaces attempted : List Surface) : EncoderPc → Prop
  | .lock | .testEmpty | .allocScratch | .convert => attempted = []
  | .unlockEmpty => attempted = [] ∧ surfaces = []
  | .iterate position => attempted = surfaces.take position
  | .lockWindow position nativeWindow =>
      attempted = surfaces.take position ∧ surfaces[position]? = some nativeWindow
  | .copy position _ | .post position _ => attempted = surfaces.take (position + 1)
  | .unlock => attempted = surfaces
  | .freeScratch | .returned => True

/-- The pass has given the mutex back. -/
def EncoderPc.effective : EncoderPc → Bool
  | .freeScratch | .returned => true
  | _ => false

section Tracks

variable (order : List Operation) (thread : ThreadId) (current : Option Operation)

/-- An operation stands in the order once it has taken effect. -/
def Stands (began : Nat) (deed : Deed) (effective : Bool) : Prop :=
  if effective then (⟨thread, began, deed⟩ : Operation) ∈ order
  else ∀ other, (⟨thread, began, other⟩ : Operation) ∉ order

/-- The thread is in an update, which has or has not been made. -/
def InUpdate (made : Bool) (update : SurfaceUpdate) : Prop :=
  if update.mutex = .encoderLock then
    ∃ began, current = some ⟨thread, began, .update update⟩ ∧
      Stands order thread began (.update update) made
  else current = none

def SurfacePc.Tracks : SurfacePc → Prop
  | .getCamera null => current = none ∧ ∀ update ∈ null, update.mutex ≠ .encoderLock
  | .getCameraFor update | .checkValid update | .lock update | .apply update =>
      InUpdate order thread current false update
  | .unlock update => InUpdate order thread current true update
  | .logSize => ∃ began deed, current = some ⟨thread, began, deed⟩ ∧
      Stands order thread began deed true
  | .returned => current = none

/-- The recorded operation of a thread is the one it is in. -/
def Pc.Tracks (surfaces : List Surface) : Pc → Prop
  | .surface pc => pc.Tracks order thread current
  | .capturing _ (.encoder pc) =>
      ∃ began attempted, current = some ⟨thread, began, .pass attempted⟩ ∧
        Stands order thread began (.pass attempted) pc.effective ∧ pc.Attempts surfaces attempted
  | _ => current = none

end Tracks

/-- An order explains what has happened: it respects the record, its passes attempt what
its updates lead to, and so does the list itself. -/
structure Explains (watched : Watched) (order : List Operation) : Prop where
  sections : World.SectionsExclusive watched.world
  respects : Respects Operation.began watched.history.timeline order
  legal : Legal Operation.perform Operation.Allowed [] order
  surfaces : watched.world.camera.mEncoderSurfaces = replay Operation.perform [] order
  current : ∀ thread operation, watched.history.current thread = some operation →
    operation.thread = thread ∧ operation.began < watched.history.timeline.time
  tracks : ∀ thread, (watched.world.threads thread).Tracks order thread
    (watched.history.current thread) watched.world.camera.mEncoderSurfaces
  pending : ∀ operation ∈ order, watched.history.current operation.thread = some operation ∨
    ∃ returned, (operation, returned) ∈ watched.history.timeline.completed

theorem explains_attached (width height : Int) : Explains (Watched.attached width height) [] where
  sections := World.sectionsExclusive_attached width height
  respects := respects_nil 0
  legal := trivial
  surfaces := rfl
  current := by
    intro thread operation recorded
    cases recorded
  tracks := fun _ => rfl
  pending := by simp

/-! ## Points -/

namespace EncoderPc

variable {pc after : EncoderPc} {action : Action} {camera camera' : Camera} {thread : ThreadId}
  {attempted : List Surface}

/-- Outside its section a pass does not depend on the list. -/
theorem attempts_of_holds {surfaces : List Surface} (outside : pc.holds ≠ some .encoderLock)
    (attempts : pc.Attempts surfaces attempted) (other : List Surface) :
    pc.Attempts other attempted := by
  cases pc <;> first | exact attempts | exact absurd rfl outside

/-- When a pass gives the mutex back it has attempted the whole list. -/
theorem attempts_whole {surfaces : List Surface} {mutex : Mutex}
    (moved : pc.next (.unlock mutex) = some after) (attempts : pc.Attempts surfaces attempted) :
    attempted = surfaces ∧ after.effective = true ∧ pc.effective = false := by
  cases pc <;> cases mutex <;> simp [EncoderPc.next] at moved
  · obtain ⟨rfl, rfl⟩ := attempts
    subst moved
    exact ⟨rfl, rfl, rfl⟩
  · subst moved
    exact ⟨attempts, rfl, rfl⟩

/-- What a step adds to the attempts of a pass. -/
def attemptedAfter (attempted : List Surface) : Action → List Surface
  | .window (some surface) (.lockWindow _) => attempted ++ [surface]
  | _ => attempted

theorem attempts_of_next (moved : pc.next action = some after)
    (applied : camera.apply thread action = some camera')
    (attempts : pc.Attempts camera.mEncoderSurfaces attempted) :
    after.Attempts camera.mEncoderSurfaces (attemptedAfter attempted action) := by
  unfold EncoderPc.next at moved
  split at moved
  case h_2 =>
      cases moved
      simp only [Camera.apply] at applied
      split at applied
      · rename_i empty
        exact ⟨attempts, List.isEmpty_iff.mp empty.symm⟩
      · cases applied
  case h_8 position other surface =>
      split at moved
      · rename_i same
        subst same
        simp only [Camera.apply] at applied
        split at applied
        · rename_i found
          cases surface with
          | none =>
              cases moved
              have beyond := List.getElem?_eq_none_iff.mp found.symm
              exact attempts.trans (List.take_of_length_le beyond)
          | some window =>
              cases moved
              exact ⟨attempts, found.symm⟩
        · cases applied
      · cases moved
  case h_9 position nativeWindow surface ok =>
      split at moved
      · rename_i same
        subst same
        obtain ⟨rfl, found⟩ := attempts
        have taken : camera.mEncoderSurfaces.take position ++ [nativeWindow] =
            camera.mEncoderSurfaces.take (position + 1) := by
          rw [List.take_add_one, found]
          rfl
        cases ok <;> cases moved <;> exact taken
      · cases moved
  case h_11 position nativeWindow surface =>
      split at moved
      · rename_i same
        subst same
        cases moved
        exact attempts
      · cases moved
  all_goals cases moved
  all_goals first
    | exact attempts
    | exact attempts.symm ▸ (List.take_zero).symm
    | trivial

/-- A pass takes effect when it gives the mutex back. -/
theorem effective_of_next (moved : pc.next action = some after)
    (notUnlock : ∀ mutex, action ≠ .unlock mutex) : after.effective = pc.effective := by
  unfold EncoderPc.next at moved
  split at moved
  all_goals (repeat' split at moved)
  all_goals cases moved
  all_goals first
    | rfl
    | exact absurd rfl (notUnlock _)

/-- A pass does not begin anew. -/
theorem ne_lock_of_next (moved : pc.next action = some after) : after ≠ .lock := by
  rintro rfl
  unfold EncoderPc.next at moved
  split at moved
  all_goals (repeat' split at moved)
  all_goals cases moved

theorem attemptedAfter_of_effective (moved : pc.next action = some after)
    (effective : pc.effective = true) : attemptedAfter attempted action = attempted := by
  cases action with
  | window surface called =>
      cases pc <;> first | cases effective; done | simp [EncoderPc.next] at moved
  | _ => rfl

end EncoderPc

section Others

variable {order order' : List Operation} {thread : ThreadId} {current : Option Operation}
  {surfaces surfaces' : List Surface}

theorem Stands.of_other {began : Nat} {deed : Deed} {effective : Bool}
    (stands : Stands order thread began deed effective)
    (members : ∀ began deed,
      (⟨thread, began, deed⟩ : Operation) ∈ order' ↔ (⟨thread, began, deed⟩ : Operation) ∈ order) :
    Stands order' thread began deed effective := by
  unfold Stands at *
  simpa only [members] using stands

theorem InUpdate.of_other {made : Bool} {update : SurfaceUpdate}
    (inUpdate : InUpdate order thread current made update)
    (members : ∀ began deed,
      (⟨thread, began, deed⟩ : Operation) ∈ order' ↔ (⟨thread, began, deed⟩ : Operation) ∈ order) :
    InUpdate order' thread current made update := by
  unfold InUpdate at *
  split
  · rename_i encoder
    rw [if_pos encoder] at inUpdate
    obtain ⟨began, recorded, stands⟩ := inUpdate
    exact ⟨began, recorded, stands.of_other members⟩
  · rename_i preview
    rwa [if_neg preview] at inUpdate

/-- What is recorded of a thread stays right while the order grows by operations of other
threads, and the list changes only when the thread is outside its section. -/
theorem Pc.tracks_of_other {pc : Pc} (tracks : pc.Tracks order thread current surfaces)
    (kept : surfaces' = surfaces ∨ pc.holds ≠ some .encoderLock)
    (members : ∀ began deed,
      (⟨thread, began, deed⟩ : Operation) ∈ order' ↔ (⟨thread, began, deed⟩ : Operation) ∈ order) :
    pc.Tracks order' thread current surfaces' := by
  cases pc with
  | surface pc =>
      cases pc with
      | getCamera | returned => exact tracks
      | getCameraFor | checkValid | lock | apply | unlock =>
          exact InUpdate.of_other tracks members
      | logSize =>
          obtain ⟨began, deed, recorded, stands⟩ := tracks
          exact ⟨began, deed, recorded, stands.of_other members⟩
  | capturing first pc =>
      cases pc with
      | encoder pc =>
          obtain ⟨began, attempted, recorded, stands, attempts⟩ := tracks
          refine ⟨began, attempted, recorded, stands.of_other members, ?_⟩
          rcases kept with same | outside
          · rw [same]
            exact attempts
          · exact EncoderPc.attempts_of_holds outside attempts surfaces'
      | _ => exact tracks
  | _ => exact tracks

end Others

/-! ## One step -/

section Steps

variable {watched next : Watched} {order order' : List Operation} {thread : ThreadId}
  {action : Action}

theorem tracks_of_returns {surfaces : List Surface} {pc : Pc}
    (returned : History.returns pc = true) : pc.Tracks order thread none surfaces := by
  cases pc with
  | idle => rfl
  | capturing first pc => cases pc <;> first | rfl | cases returned
  | _ => cases returned

/-- The order grows by the operation a thread is in, when that takes effect. -/
inductive Grows (watched : Watched) (order : List Operation) (thread : ThreadId)
    (operation : Option Operation) : List Operation → Prop
  | same : Grows watched order thread operation order
  | effect {made : Operation} :
      watched.history.current thread = some made → operation = some made → made ∉ order →
      Operation.Allowed watched.world.camera.mEncoderSurfaces made →
      Grows watched order thread operation (order ++ [made])

namespace Grows

variable {operation : Option Operation}

theorem respects (grows : Grows watched order thread operation order')
    (explains : Explains watched order) :
    Respects Operation.began watched.history.timeline order' := by
  cases grows with
  | same => exact explains.respects
  | effect was _ fresh _ => exact explains.respects.append fresh (explains.current thread _ was).2

theorem legal (grows : Grows watched order thread operation order')
    (explains : Explains watched order) :
    Legal Operation.perform Operation.Allowed [] order' := by
  cases grows with
  | same => exact explains.legal
  | effect _ _ _ allowed =>
      rw [explains.surfaces] at allowed
      exact legal_append_iff.mpr ⟨explains.legal, allowed, trivial⟩

/-- The operations of other threads stand in the order as before. -/
theorem members (grows : Grows watched order thread operation order')
    (explains : Explains watched order) {other : ThreadId} (distinct : other ≠ thread)
    (began : Nat) (deed : Deed) :
    (⟨other, began, deed⟩ : Operation) ∈ order' ↔ (⟨other, began, deed⟩ : Operation) ∈ order := by
  cases grows with
  | same => rfl
  | @effect made was _ _ _ =>
      have maker := (explains.current thread made was).1
      have apart : (⟨other, began, deed⟩ : Operation) ≠ made := by
        rintro rfl
        exact distinct maker
      simp [apart]

theorem mem_or_made (grows : Grows watched order thread operation order') {made : Operation}
    (member : made ∈ order') : made ∈ order ∨ operation = some made := by
  cases grows with
  | same => exact Or.inl member
  | effect _ isNew _ _ =>
      rcases List.mem_append.mp member with earlier | last
      · exact Or.inl earlier
      · rw [List.mem_singleton.mp last]
        exact Or.inr isNew

end Grows

/-- What is in the order is the operation its thread is in, or has returned. -/
theorem Explains.pending_of_grows (explains : Explains watched order)
    {operation : Option Operation} (grows : Grows watched order thread operation order')
    (carried : ∀ made ∈ order, watched.history.current thread = some made →
      operation = some made) {made : Operation} (member : made ∈ order') :
    operation = some made ∨
      (made.thread ≠ thread ∧ watched.history.current made.thread = some made) ∨
      ∃ returned, (made, returned) ∈ watched.history.timeline.completed := by
  rcases grows.mem_or_made member with earlier | new
  · rcases explains.pending made earlier with isCurrent | done
    · by_cases mover : made.thread = thread
      · rw [mover] at isCurrent
        exact Or.inl (carried made earlier isCurrent)
      · exact Or.inr (Or.inl ⟨mover, isCurrent⟩)
    · exact Or.inr (Or.inr done)
  · exact Or.inl new

theorem Explains.tracks_of_other (explains : Explains watched order)
    (moved : watched.world.step (thread, action) = some next.world)
    {operation : Option Operation} (grows : Grows watched order thread operation order')
    (kept : next.world.camera.mEncoderSurfaces = watched.world.camera.mEncoderSurfaces ∨
      (watched.world.threads thread).holds = some .encoderLock)
    {other : ThreadId} (distinct : other ≠ thread) :
    (next.world.threads other).Tracks order' other (watched.history.current other)
      next.world.camera.mEncoderSurfaces := by
  rcases World.other_of_step moved distinct with same | ⟨-, idle, begun⟩
  · rw [same]
    refine Pc.tracks_of_other (explains.tracks other) ?_ (grows.members explains distinct)
    rcases kept with unchanged | held
    · exact Or.inl unchanged
    · refine Or.inr fun alsoHeld => distinct ?_
      exact explains.sections.same alsoHeld held
  · have none := explains.tracks other
    rw [idle] at none
    rw [begun]
    exact none

/-- A step explained from its parts: the order has grown by what the mover made effective,
and what the mover is in afterwards is recorded rightly. -/
theorem Explains.of_parts (explains : Explains watched order)
    (stepped : watched.step (thread, action) = some next) {operation : Option Operation}
    (inside : watched.history.inside (thread, action) (next.world.threads thread) = operation)
    (grows : Grows watched order thread operation order')
    (kept : next.world.camera.mEncoderSurfaces = watched.world.camera.mEncoderSurfaces ∨
      (watched.world.threads thread).holds = some .encoderLock)
    (surfaces : next.world.camera.mEncoderSurfaces = replay Operation.perform [] order')
    (own : ∀ made, operation = some made →
      made.thread = thread ∧ made.began ≤ watched.history.timeline.time)
    (carried : ∀ made ∈ order, watched.history.current thread = some made →
      operation = some made)
    (tracks : if History.returns (next.world.threads thread) = true then
        ∀ made, operation = some made → made ∈ order'
      else (next.world.threads thread).Tracks order' thread operation
        next.world.camera.mEncoderSurfaces) :
    Explains next order' := by
  obtain ⟨moved, recorded⟩ := Watched.step_eq_some_iff.mp stepped
  have current : ∀ other, next.history.current other =
      if other = thread then
        if History.returns (next.world.threads thread) then none else operation
      else watched.history.current other := by
    intro other
    rw [recorded]
    simp only [History.record, inside]
  have timeline : next.history.timeline =
      ⟨watched.history.timeline.time + 1, watched.history.timeline.completed ++
        if History.returns (next.world.threads thread) then
          operation.toList.map fun made => (made, watched.history.timeline.time)
        else []⟩ := by
    rw [recorded]
    simp only [History.record, inside]
  constructor
  case sections => exact explains.sections.step moved
  case legal => exact grows.legal explains
  case surfaces => exact surfaces
  case respects =>
      have respects := grows.respects explains
      rw [timeline]
      split at tracks
      · rename_i returned
        rw [if_pos returned]
        cases operation with
        | none => simpa using respects.tick
        | some made => exact respects.complete (tracks made rfl)
      · rename_i remains
        rw [if_neg remains]
        simpa using respects.tick
  case current =>
      intro other made isCurrent
      rw [current] at isCurrent
      rw [timeline]
      split at isCurrent
      · rename_i mover
        split at isCurrent
        · cases isCurrent
        · have was := own made isCurrent
          exact ⟨was.1.trans mover.symm, Nat.lt_succ_of_le was.2⟩
      · have was := explains.current other made isCurrent
        exact ⟨was.1, Nat.lt_succ_of_lt was.2⟩
  case tracks =>
      intro other
      rw [current]
      by_cases mover : other = thread
      · subst mover
        rw [if_pos rfl]
        split at tracks
        · rename_i returned
          rw [if_pos returned]
          exact tracks_of_returns returned
        · rename_i remains
          rw [if_neg remains]
          exact tracks
      · rw [if_neg mover]
        exact explains.tracks_of_other moved grows kept mover
  case pending =>
      intro made member
      rw [current, timeline]
      rcases explains.pending_of_grows grows carried member with
        isNow | ⟨other, isCurrent⟩ | ⟨returned, done⟩
      · rw [if_pos (own made isNow).1]
        split
        · exact Or.inr ⟨watched.history.timeline.time, by simp [isNow]⟩
        · exact Or.inl isNow
      · rw [if_neg other]
        exact Or.inl isCurrent
      · exact Or.inr ⟨returned, List.mem_append_left _ done⟩

theorem Explains.of_quiet (explains : Explains watched order)
    (stepped : watched.step (thread, action) = some next) {operation : Option Operation}
    (inside : watched.history.inside (thread, action) (next.world.threads thread) = operation)
    (kept : next.world.camera.mEncoderSurfaces = watched.world.camera.mEncoderSurfaces)
    (own : ∀ made, operation = some made →
      made.thread = thread ∧ made.began ≤ watched.history.timeline.time)
    (carried : ∀ made ∈ order, watched.history.current thread = some made →
      operation = some made)
    (tracks : if History.returns (next.world.threads thread) = true then
        ∀ made, operation = some made → made ∈ order
      else (next.world.threads thread).Tracks order thread operation
        next.world.camera.mEncoderSurfaces) :
    Explains next order :=
  explains.of_parts stepped inside .same (Or.inl kept) (kept.trans explains.surfaces) own
    carried tracks

theorem Explains.of_current (explains : Explains watched order)
    (stepped : watched.step (thread, action) = some next)
    (inside : watched.history.inside (thread, action) (next.world.threads thread) =
      watched.history.current thread)
    (kept : next.world.camera.mEncoderSurfaces = watched.world.camera.mEncoderSurfaces)
    (tracks : if History.returns (next.world.threads thread) = true then
        ∀ made, watched.history.current thread = some made → made ∈ order
      else (next.world.threads thread).Tracks order thread (watched.history.current thread)
        next.world.camera.mEncoderSurfaces) :
    Explains next order := by
  refine explains.of_quiet stepped inside kept ?_ (fun _ _ same => same) tracks
  intro made isCurrent
  have was := explains.current thread made isCurrent
  exact ⟨was.1, Nat.le_of_lt was.2⟩

/-- The thread is in no operation afterwards; one it was in has not taken effect. -/
theorem Explains.of_none (explains : Explains watched order)
    (stepped : watched.step (thread, action) = some next)
    (inside : watched.history.inside (thread, action) (next.world.threads thread) = none)
    (kept : next.world.camera.mEncoderSurfaces = watched.world.camera.mEncoderSurfaces)
    (ineffective : ∀ made, watched.history.current thread = some made → made ∉ order)
    (tracks : (next.world.threads thread).Tracks order thread none
      next.world.camera.mEncoderSurfaces) :
    Explains next order := by
  refine explains.of_quiet stepped inside kept (by simp) ?_ ?_
  · intro made member isCurrent
    exact absurd member (ineffective made isCurrent)
  · split
    · simp
    · exact tracks

theorem Explains.of_begin (explains : Explains watched order)
    (stepped : watched.step (thread, action) = some next) {deed : Deed}
    (notIn : watched.history.current thread = none)
    (inside : watched.history.inside (thread, action) (next.world.threads thread) =
      some ⟨thread, watched.history.timeline.time, deed⟩)
    (kept : next.world.camera.mEncoderSurfaces = watched.world.camera.mEncoderSurfaces)
    (remains : History.returns (next.world.threads thread) = false)
    (tracks : Stands order thread watched.history.timeline.time deed false →
      (next.world.threads thread).Tracks order thread
        (some ⟨thread, watched.history.timeline.time, deed⟩)
        next.world.camera.mEncoderSurfaces) :
    Explains next order := by
  refine explains.of_quiet stepped inside kept ?_ ?_ ?_
  · intro made isNew
    cases isNew
    exact ⟨rfl, Nat.le_refl _⟩
  · intro made _ isCurrent
    rw [notIn] at isCurrent
    cases isCurrent
  · rw [if_neg (by simp [remains])]
    apply tracks
    intro other member
    exact absurd (explains.respects.past _ member) (Nat.lt_irrefl _)

end Steps

/-! ### What the recorder notes -/

namespace History

variable (history : History) {thread : ThreadId} {action : Action} {reached : Pc}

/-- Most events leave a thread in the operation it is in. -/
theorem inside_eq_current (notCall : ∀ entry, action ≠ .call entry)
    (notDetached : action ≠ .getCamera false) (notInvalid : action ≠ .surfaceValid false)
    (notAttempt : ∀ surface ok, action ≠ .window (some surface) (.lockWindow ok))
    (notEntered : ∀ first, reached ≠ .capturing first (.encoder .lock)) :
    history.inside (thread, action) reached = history.current thread := by
  unfold inside
  split
  case h_1 called => exact absurd called (notCall _)
  case h_2 called => exact absurd called (notCall _)
  case h_3 refused => exact absurd refused notDetached
  case h_4 refused => exact absurd refused notInvalid
  case h_5 attempts => exact absurd attempts (notAttempt _ _)
  case h_6 => exact absurd rfl (notEntered _)
  case h_7 => rfl

/-- A thread enters an operation by a call or by reaching the encoder draw. -/
theorem inside_of_none (notIn : history.current thread = none)
    (notCall : ∀ entry, action ≠ .call entry)
    (notEntered : ∀ first, reached ≠ .capturing first (.encoder .lock)) :
    history.inside (thread, action) reached = none := by
  unfold inside
  split
  case h_1 called => exact absurd called (notCall _)
  case h_2 called => exact absurd called (notCall _)
  case h_3 => rfl
  case h_4 => rfl
  case h_5 => rw [notIn, Option.map_none]
  case h_6 => exact absurd rfl (notEntered _)
  case h_7 => exact notIn

theorem inside_of_drawn {pc after : EncoderPc} {began : Nat} {attempted : List Surface}
    (recorded : history.current thread = some ⟨thread, began, .pass attempted⟩)
    (drawn : pc.next action = some after)
    (notEntered : ∀ first, reached ≠ .capturing first (.encoder .lock)) :
    history.inside (thread, action) reached =
      some ⟨thread, began, .pass (EncoderPc.attemptedAfter attempted action)⟩ := by
  have draws := EncoderPc.draws_of_next drawn
  by_cases attempts : ∃ surface ok, action = .window (some surface) (.lockWindow ok)
  · obtain ⟨surface, ok, rfl⟩ := attempts
    simp only [inside, recorded, Option.map_some]
    rfl
  · have same : EncoderPc.attemptedAfter attempted action = attempted := by
      unfold EncoderPc.attemptedAfter
      split
      · exact absurd ⟨_, _, rfl⟩ attempts
      · rfl
    rw [same, ← recorded]
    apply inside_eq_current
    · rintro entry rfl
      cases draws
    · rintro rfl
      cases draws
    · rintro rfl
      cases draws
    · intro surface ok same
      exact attempts ⟨surface, ok, same⟩
    · exact notEntered

/-- A surface entry point that is not refused goes on with its operation. -/
theorem inside_of_surface {pc after : SurfacePc} (moved : pc.next action = some after)
    (notDetached : action ≠ .getCamera false) (notInvalid : action ≠ .surfaceValid false) :
    history.inside (thread, action) (Pc.afterSurface after) = history.current thread := by
  have own := SurfacePc.own_of_next moved
  apply inside_eq_current _ _ notDetached notInvalid
  · rintro surface ok rfl
    cases own
  · intro first entered
    cases after <;> cases entered
  · rintro entry rfl
    cases own

end History

/-- At these points a thread is in no operation. -/
def Pc.uninvolved : Pc → Bool
  | .surface _ | .capturing _ (.encoder _) => false
  | _ => true

theorem Pc.tracks_uninvolved {pc : Pc} (uninvolved : pc.uninvolved = true)
    {order : List Operation} {thread : ThreadId} {current : Option Operation}
    {surfaces : List Surface} : pc.Tracks order thread current surfaces ↔ current = none := by
  cases pc with
  | surface => cases uninvolved
  | capturing first pc => cases pc <;> first | rfl | cases uninvolved
  | _ => rfl

theorem Pc.holds_of_uninvolved {pc : Pc} (uninvolved : pc.uninvolved = true) :
    pc.holds ≠ some .encoderLock := by
  cases pc with
  | surface => cases uninvolved
  | capturing first pc =>
      cases pc with
      | encoder => cases uninvolved
      | preview pc => cases pc <;> simp [Pc.holds, CapturePc.holds, PreviewPc.holds]
      | _ => simp [Pc.holds, CapturePc.holds]
  | _ => simp [Pc.holds]

/-- The action updates the list of encoder surfaces. -/
def Action.updatesEncoders : Action → Bool
  | .pushEncoder _ | .removeEncoder _ => true
  | _ => false

section Movers

variable {watched next : Watched} {order : List Operation} {thread : ThreadId} {action : Action}

theorem surfaces_of_step (stepped : watched.step (thread, action) = some next)
    (notUpdate : action.updatesEncoders = false) :
    next.world.camera.mEncoderSurfaces = watched.world.camera.mEncoderSurfaces := by
  have moved := (Watched.step_eq_some_iff.mp stepped).1
  apply Camera.mEncoderSurfaces_of_apply (World.camera_of_step moved)
  · rintro surface rfl
    cases notUpdate
  · rintro surface rfl
    cases notUpdate

theorem Explains.step_uninvolved (explains : Explains watched order)
    (stepped : watched.step (thread, action) = some next)
    (before : (watched.world.threads thread).uninvolved = true)
    (after : (next.world.threads thread).uninvolved = true)
    (notCall : ∀ entry, action ≠ .call entry) : Explains next order := by
  have notIn := (Pc.tracks_uninvolved before).mp (explains.tracks thread)
  have moved := (Watched.step_eq_some_iff.mp stepped).1
  apply explains.of_none stepped
  · apply History.inside_of_none _ notIn notCall
    intro first reached
    rw [reached] at after
    cases after
  · apply surfaces_of_step stepped
    cases updates : action.updatesEncoders with
    | false => rfl
    | true =>
        have guarded : action.guard = some .encoderLock := by
          cases action <;> first | rfl | cases updates
        have holds := Pc.guarded_of_move (World.move_of_step moved) guarded
        exact absurd holds (Pc.holds_of_uninvolved before)
  · intro made isCurrent
    rw [notIn] at isCurrent
    cases isCurrent
  · exact (Pc.tracks_uninvolved after).mpr rfl

theorem Explains.step_call (explains : Explains watched order) {entry : Call}
    (stepped : watched.step (thread, .call entry) = some next)
    (before : watched.world.threads thread = .idle)
    (after : next.world.threads thread = Pc.enter entry) : Explains next order := by
  have notIn : watched.history.current thread = none := by
    have tracks := explains.tracks thread
    rw [before] at tracks
    exact tracks
  have kept := surfaces_of_step stepped rfl
  have outside : watched.history.inside (thread, .call entry) (next.world.threads thread) = none →
      (Pc.enter entry).Tracks order thread none next.world.camera.mEncoderSurfaces →
      Explains next order := by
    intro inside tracks
    refine explains.of_none stepped inside kept ?_ (after ▸ tracks)
    intro made isCurrent
    rw [notIn] at isCurrent
    cases isCurrent
  cases entry with
  | start | stop | release =>
      refine outside ?_ rfl
      rw [after]
      exact notIn
  | setPreview jsurface =>
      cases jsurface with
      | none =>
          refine outside ?_ ⟨rfl, by simp [SurfaceUpdate.mutex]⟩
          rw [after]
          exact notIn
      | some surface =>
          refine outside ?_ rfl
          rw [after]
          exact notIn
  | addEncoder jsurface | removeEncoder jsurface =>
      cases jsurface with
      | none =>
          refine outside ?_ ⟨rfl, by simp⟩
          rw [after]
          exact notIn
      | some surface =>
          apply explains.of_begin stepped notIn
          · rw [after]
            rfl
          · exact kept
          · rw [after]
            rfl
          · intro fresh
            rw [after]
            exact ⟨_, rfl, fresh⟩

theorem Explains.pass (explains : Explains watched order) {first : Bool} {pc : EncoderPc}
    (before : watched.world.threads thread = .capturing first (.encoder pc)) :
    ∃ began attempted,
      watched.history.current thread = some ⟨thread, began, .pass attempted⟩ ∧
      began ≤ watched.history.timeline.time ∧
      Stands order thread began (.pass attempted) pc.effective ∧
      pc.Attempts watched.world.camera.mEncoderSurfaces attempted := by
  have tracks := explains.tracks thread
  rw [before] at tracks
  obtain ⟨began, attempted, recorded, stands, attempts⟩ := tracks
  have was := explains.current thread _ recorded
  exact ⟨began, attempted, recorded, Nat.le_of_lt was.2, stands, attempts⟩

/-- A step of a pass leaves the list as it is, and is recorded with what it attempts. -/
theorem inside_of_pass {first : Bool} {pc after : EncoderPc} {began : Nat}
    {attempted : List Surface} (stepped : watched.step (thread, action) = some next)
    (recorded : watched.history.current thread = some ⟨thread, began, .pass attempted⟩)
    (drawn : pc.next action = some after)
    (reached : next.world.threads thread = Pc.afterCapture first
      (if after = .returned then .requeueBuf else .encoder after)) :
    next.world.camera.mEncoderSurfaces = watched.world.camera.mEncoderSurfaces ∧
      watched.history.inside (thread, action) (next.world.threads thread) =
        some ⟨thread, began, .pass (EncoderPc.attemptedAfter attempted action)⟩ := by
  constructor
  · apply surfaces_of_step stepped
    cases action <;> first | rfl | cases EncoderPc.draws_of_next drawn
  · apply History.inside_of_drawn _ recorded drawn
    intro other entered
    rw [entered] at reached
    split at reached
    · cases reached
    · cases reached
      exact EncoderPc.ne_lock_of_next drawn rfl

/-- A pass takes effect when it gives the mutex back. -/
theorem Explains.step_effect (explains : Explains watched order) {first : Bool}
    {pc after : EncoderPc} {mutex : Mutex}
    (stepped : watched.step (thread, .unlock mutex) = some next)
    (before : watched.world.threads thread = .capturing first (.encoder pc))
    (drawn : pc.next (.unlock mutex) = some after)
    (reached : next.world.threads thread = Pc.afterCapture first
      (if after = .returned then .requeueBuf else .encoder after)) :
    ∃ order', Explains next order' := by
  obtain ⟨began, attempted, recorded, past, stands, attempts⟩ := explains.pass before
  obtain ⟨kept, inside⟩ := inside_of_pass stepped recorded drawn reached
  have applied := World.camera_of_step (Watched.step_eq_some_iff.mp stepped).1
  have attemptsAfter := EncoderPc.attempts_of_next drawn applied attempts
  obtain ⟨whole, effective, ineffective⟩ := EncoderPc.attempts_whole drawn attempts
  rw [ineffective] at stands
  refine ⟨order ++ [⟨thread, began, .pass attempted⟩], ?_⟩
  apply explains.of_parts stepped inside
  · refine .effect recorded rfl (stands _) ?_
    intro other same
    cases same
    exact whole
  · exact Or.inl kept
  · rw [replay_append, ← explains.surfaces]
    exact kept
  · intro made same
    cases same
    exact ⟨rfl, past⟩
  · intro made _ isCurrent
    exact recorded.symm.trans isCurrent
  · rw [reached]
    by_cases returned : after = .returned
    · subst returned
      intro made same
      cases same
      exact List.mem_append_right order List.mem_cons_self
    · rw [if_neg returned]
      refine ⟨began, attempted, rfl, ?_, kept ▸ attemptsAfter⟩
      rw [effective]
      exact List.mem_append_right order List.mem_cons_self

theorem Explains.step_pass (explains : Explains watched order) {first : Bool}
    {pc after : EncoderPc} (stepped : watched.step (thread, action) = some next)
    (before : watched.world.threads thread = .capturing first (.encoder pc))
    (drawn : pc.next action = some after)
    (reached : next.world.threads thread = Pc.afterCapture first
      (if after = .returned then .requeueBuf else .encoder after))
    (notUnlock : ∀ mutex, action ≠ .unlock mutex) : Explains next order := by
  obtain ⟨began, attempted, recorded, past, stands, attempts⟩ := explains.pass before
  obtain ⟨kept, inside⟩ := inside_of_pass stepped recorded drawn reached
  have applied := World.camera_of_step (Watched.step_eq_some_iff.mp stepped).1
  have attemptsAfter := EncoderPc.attempts_of_next drawn applied attempts
  have stillStands : Stands order thread began
      (.pass (EncoderPc.attemptedAfter attempted action)) after.effective := by
    rw [EncoderPc.effective_of_next drawn notUnlock]
    cases effective : pc.effective with
    | false =>
        rw [effective] at stands
        exact stands
    | true =>
        rw [EncoderPc.attemptedAfter_of_effective drawn effective, ← effective]
        exact stands
  refine explains.of_quiet stepped inside kept ?_ ?_ ?_
  · intro made same
    cases same
    exact ⟨rfl, past⟩
  · intro made member isCurrent
    rw [recorded] at isCurrent
    cases isCurrent
    cases effective : pc.effective with
    | false =>
        rw [effective] at stands
        exact absurd member (stands _)
    | true => rw [EncoderPc.attemptedAfter_of_effective drawn effective]
  · rw [reached]
    by_cases returned : after = .returned
    · subst returned
      intro made same
      cases same
      exact stillStands
    · rw [if_neg returned]
      exact ⟨began, _, rfl, stillStands, kept ▸ attemptsAfter⟩

theorem Explains.step_encoder (explains : Explains watched order) {first : Bool}
    {pc after : EncoderPc} (stepped : watched.step (thread, action) = some next)
    (before : watched.world.threads thread = .capturing first (.encoder pc))
    (drawn : pc.next action = some after)
    (reached : next.world.threads thread = Pc.afterCapture first
      (if after = .returned then .requeueBuf else .encoder after)) :
    ∃ order', Explains next order' := by
  by_cases unlocks : ∃ mutex, action = .unlock mutex
  · obtain ⟨mutex, rfl⟩ := unlocks
    exact explains.step_effect stepped before drawn reached
  · exact ⟨order, explains.step_pass stepped before drawn reached fun mutex same =>
      unlocks ⟨mutex, same⟩⟩

theorem InUpdate.ineffective {current : Option Operation} {update : SurfaceUpdate}
    (inUpdate : InUpdate order thread current false update) (made : Operation)
    (isCurrent : current = some made) : made ∉ order := by
  unfold InUpdate at inUpdate
  split at inUpdate
  · obtain ⟨began, recorded, stands⟩ := inUpdate
    rw [recorded] at isCurrent
    cases isCurrent
    exact stands _
  · rw [inUpdate] at isCurrent
    cases isCurrent

theorem InUpdate.effective {current : Option Operation} {update : SurfaceUpdate}
    (inUpdate : InUpdate order thread current true update) (made : Operation)
    (isCurrent : current = some made) : made ∈ order := by
  unfold InUpdate at inUpdate
  split at inUpdate
  · obtain ⟨began, recorded, stands⟩ := inUpdate
    rw [recorded] at isCurrent
    cases isCurrent
    exact stands
  · rw [inUpdate] at isCurrent
    cases isCurrent

/-- A step of a surface entry point that does not update the list. -/
theorem Explains.step_waiting (explains : Explains watched order)
    (stepped : watched.step (thread, action) = some next) {pc after : SurfacePc}
    (moved : pc.next action = some after)
    (reached : next.world.threads thread = .surface after) (goesOn : after ≠ .returned)
    (notDetached : action ≠ .getCamera false) (notInvalid : action ≠ .surfaceValid false)
    (notUpdate : action.updatesEncoders = false)
    (tracks : after.Tracks order thread (watched.history.current thread)) :
    Explains next order := by
  have still : Pc.afterSurface after = .surface after := by
    cases after <;> first | rfl | exact absurd rfl goesOn
  refine explains.of_current stepped ?_ (surfaces_of_step stepped notUpdate) ?_
  · rw [reached, ← still]
    exact History.inside_of_surface _ moved notDetached notInvalid
  · rw [reached]
    exact tracks

theorem Explains.step_returning (explains : Explains watched order)
    (stepped : watched.step (thread, action) = some next) {pc : SurfacePc}
    (moved : pc.next action = some .returned)
    (reached : next.world.threads thread = .idle)
    (notDetached : action ≠ .getCamera false) (notInvalid : action ≠ .surfaceValid false)
    (notUpdate : action.updatesEncoders = false)
    (effective : ∀ made, watched.history.current thread = some made → made ∈ order) :
    Explains next order := by
  refine explains.of_current stepped ?_ (surfaces_of_step stepped notUpdate) ?_
  · rw [reached]
    exact History.inside_of_surface _ moved notDetached notInvalid
  · rw [reached]
    exact effective

theorem Explains.step_refused (explains : Explains watched order)
    (stepped : watched.step (thread, action) = some next)
    (reached : next.world.threads thread = .idle)
    (refused : action = .getCamera false ∨ action = .surfaceValid false)
    (ineffective : ∀ made, watched.history.current thread = some made → made ∉ order) :
    Explains next order := by
  apply explains.of_none stepped _ _ ineffective
  · rw [reached]
    rfl
  · rcases refused with rfl | rfl <;> rfl
  · apply surfaces_of_step stepped
    rcases refused with rfl | rfl <;> rfl

theorem Explains.step_update (explains : Explains watched order) {update : SurfaceUpdate}
    (stepped : watched.step (thread, update.action) = some next)
    (before : watched.world.threads thread = .surface (.apply update))
    (reached : next.world.threads thread = .surface (.unlock update))
    (encoder : update.mutex = .encoderLock) : ∃ order', Explains next order' := by
  obtain ⟨began, recorded, stands⟩ : ∃ began,
      watched.history.current thread = some ⟨thread, began, .update update⟩ ∧
        Stands order thread began (.update update) false := by
    have tracks := explains.tracks thread
    rw [before] at tracks
    simpa [Pc.Tracks, SurfacePc.Tracks, InUpdate, encoder] using tracks
  have moved := (Watched.step_eq_some_iff.mp stepped).1
  have applied := World.camera_of_step moved
  have surfaces : next.world.camera.mEncoderSurfaces =
      Operation.perform watched.world.camera.mEncoderSurfaces
        ⟨thread, began, .update update⟩ := by
    cases update with
    | setPreview surface => cases encoder
    | addEncoder surface | removeEncoder surface =>
        rw [← Option.some.inj applied]
        rfl
  have inside : watched.history.inside (thread, update.action)
      (next.world.threads thread) = some ⟨thread, began, .update update⟩ := by
    rw [reached, ← recorded]
    cases update <;> rfl
  refine ⟨order ++ [⟨thread, began, .update update⟩], ?_⟩
  apply explains.of_parts stepped inside
  · refine .effect recorded rfl (stands _) ?_
    intro attempted same
    cases same
  · refine Or.inr ?_
    rw [before]
    exact congrArg some encoder
  · rw [surfaces, explains.surfaces, replay_append]
    rfl
  · intro made same
    cases same
    exact ⟨rfl, Nat.le_of_lt (explains.current thread _ recorded).2⟩
  · intro made _ isCurrent
    exact recorded.symm.trans isCurrent
  · rw [reached]
    show InUpdate _ thread _ true update
    rw [InUpdate, if_pos encoder]
    exact ⟨began, rfl, List.mem_append_right order List.mem_cons_self⟩

theorem Explains.step_getCamera (explains : Explains watched order)
    {null : Option SurfaceUpdate} {after : SurfacePc} {attached : Bool}
    (stepped : watched.step (thread, .getCamera attached) = some next)
    (notIn : watched.history.current thread = none)
    (preview : ∀ update ∈ null, update.mutex ≠ .encoderLock)
    (moved : (SurfacePc.getCamera null).next (.getCamera attached) = some after)
    (reached : next.world.threads thread = Pc.afterSurface after) : Explains next order := by
  have ineffective : ∀ made, watched.history.current thread = some made → made ∉ order := by
    intro made isCurrent
    rw [notIn] at isCurrent
    cases isCurrent
  cases attached with
  | false =>
      have ended : after = .returned := by
        cases null <;> cases moved <;> rfl
      rw [ended] at reached
      exact explains.step_refused stepped reached (Or.inl rfl) ineffective
  | true =>
      cases null with
      | none =>
          have ignored : (SurfacePc.getCamera none).next (.getCamera true) = some .returned := rfl
          cases moved
          apply explains.step_returning stepped ignored reached
          all_goals simp [notIn, Action.updatesEncoders]
      | some update =>
          have accepted : (SurfacePc.getCamera (some update)).next (.getCamera true) =
              some (.lock update) := rfl
          cases moved
          apply explains.step_waiting stepped accepted reached
          case tracks =>
              show InUpdate order thread _ false update
              rw [InUpdate, if_neg (preview update rfl)]
              exact notIn
          all_goals simp [Action.updatesEncoders]

theorem Explains.step_apply (explains : Explains watched order) {update : SurfaceUpdate}
    (stepped : watched.step (thread, update.action) = some next)
    (before : watched.world.threads thread = .surface (.apply update))
    (reached : next.world.threads thread = .surface (.unlock update)) :
    ∃ order', Explains next order' := by
  by_cases encoder : update.mutex = .encoderLock
  · exact explains.step_update stepped before reached encoder
  · have tracks : InUpdate order thread (watched.history.current thread) false update := by
      have tracks := explains.tracks thread
      rw [before] at tracks
      exact tracks
    have moved : (SurfacePc.apply update).next update.action = some (.unlock update) := by
      cases update <;> simp [SurfacePc.next]
    refine ⟨order, explains.step_waiting stepped moved reached (by simp) ?_ ?_ ?_ ?_⟩
    · cases update <;> simp [SurfaceUpdate.action]
    · cases update <;> simp [SurfaceUpdate.action]
    · cases update <;> first | rfl | exact absurd rfl encoder
    · show InUpdate order thread _ true update
      rw [InUpdate, if_neg encoder] at tracks ⊢
      exact tracks

theorem Explains.step_surface (explains : Explains watched order) {pc after : SurfacePc}
    (stepped : watched.step (thread, action) = some next)
    (before : watched.world.threads thread = .surface pc)
    (moved : pc.next action = some after)
    (reached : next.world.threads thread = Pc.afterSurface after) :
    ∃ order', Explains next order' := by
  have tracks : pc.Tracks order thread (watched.history.current thread) := by
    have tracks := explains.tracks thread
    rw [before] at tracks
    exact tracks
  have waits (goesOn : after ≠ .returned) := fun still =>
    explains.step_waiting stepped moved still goesOn
  have edge := moved
  unfold SurfacePc.next at edge
  split at edge
  case h_1 null attached =>
      exact ⟨order, explains.step_getCamera stepped tracks.1 tracks.2 moved reached⟩
  case h_2 update attached =>
      cases attached <;> cases edge
      · exact ⟨order, explains.step_refused stepped reached (Or.inl rfl) tracks.ineffective⟩
      · exact ⟨order, waits (by simp) reached (by simp) (by simp) rfl tracks⟩
  case h_3 update valid =>
      cases valid <;> cases edge
      · exact ⟨order, explains.step_refused stepped reached (Or.inr rfl) tracks.ineffective⟩
      · exact ⟨order, waits (by simp) reached (by simp) (by simp) rfl tracks⟩
  case h_4 update mutex =>
      split at edge
      · cases edge
        exact ⟨order, waits (by simp) reached (by simp) (by simp) rfl tracks⟩
      · cases edge
  case h_5 update =>
      split at edge
      · rename_i performs
        subst performs
        cases edge
        exact explains.step_apply stepped before reached
      · cases edge
  case h_6 update mutex =>
      split at edge
      · cases update with
        | addEncoder surface =>
            cases edge
            obtain ⟨began, recorded, stands⟩ := tracks
            exact ⟨order, waits (by simp) reached (by simp) (by simp) rfl
              ⟨began, _, recorded, stands⟩⟩
        | setPreview surface | removeEncoder surface =>
            cases edge
            exact ⟨order, explains.step_returning stepped moved reached (by simp) (by simp) rfl
              tracks.effective⟩
      · cases edge
  case h_7 =>
      cases edge
      refine ⟨order, explains.step_returning stepped moved reached (by simp) (by simp) rfl ?_⟩
      obtain ⟨began, deed, recorded, stands⟩ := tracks
      intro made isCurrent
      rw [recorded] at isCurrent
      cases isCurrent
      exact stands
  case h_8 => cases edge

theorem Pc.uninvolved_afterOpen (pc : OpenPc) : (afterOpen pc).uninvolved = true := by
  cases pc
  case returned fd => by_cases positive : 0 < fd <;> simp [afterOpen, positive, uninvolved]
  all_goals rfl

theorem Pc.uninvolved_afterCapture {first : Bool} {pc : CapturePc}
    (notEncoder : ∀ inner, pc ≠ .encoder inner) :
    (afterCapture first pc).uninvolved = true := by
  cases pc with
  | encoder inner => exact absurd rfl (notEncoder inner)
  | _ => rfl

/-- The preview draw is left with the mutex given back. -/
theorem PreviewPc.unlocks_of_returned {pc : PreviewPc} {action : Action}
    (drawn : pc.next action = some .returned) : action = .unlock .previewLock := by
  unfold PreviewPc.next at drawn
  split at drawn
  all_goals first
    | rfl
    | (repeat' split at drawn) <;> cases drawn

theorem Explains.step_capture (explains : Explains watched order) {first first' : Bool}
    {pc pc' : CapturePc} (stepped : watched.step (thread, action) = some next)
    (before : watched.world.threads thread = .capturing first pc)
    (move : CapturePc.Move first pc action first' pc')
    (reached : next.world.threads thread = Pc.afterCapture first' pc') :
    ∃ order', Explains next order' := by
  by_cases drawing : ∃ inner, pc = .encoder inner
  · obtain ⟨inner, rfl⟩ := drawing
    cases move with
    | encoder drawn => exact explains.step_encoder stepped before drawn reached
  · have notDrawing : ∀ inner, pc ≠ .encoder inner := fun inner same => drawing ⟨inner, same⟩
    have uninvolved : (watched.world.threads thread).uninvolved = true := by
      rw [before]
      cases pc with
      | encoder inner => exact absurd rfl (notDrawing inner)
      | _ => rfl
    have notCall : ∀ entry, action ≠ .call entry := by
      rintro entry rfl
      rcases move.own_or_draws with own | draws
      · cases own
      · cases draws
    by_cases enters : ∃ inner, pc' = .encoder inner
    · obtain ⟨inner, rfl⟩ := enters
      rcases move.encoder_after with ⟨rfl, preview, rfl, drawn⟩ | ⟨other, same, -⟩
      · obtain rfl := PreviewPc.unlocks_of_returned drawn
        have inside : watched.history.inside (thread, .unlock .previewLock)
            (next.world.threads thread) =
              some ⟨thread, watched.history.timeline.time, .pass []⟩ := by
          rw [reached]
          rfl
        refine ⟨order, explains.of_begin stepped ?_ inside ?_ ?_ ?_⟩
        · exact (Pc.tracks_uninvolved uninvolved).mp (explains.tracks thread)
        · exact surfaces_of_step stepped rfl
        · rw [reached]
          rfl
        · intro fresh
          rw [reached]
          exact ⟨_, [], rfl, fresh, rfl⟩
      · exact absurd same (notDrawing other)
    · refine ⟨order, explains.step_uninvolved stepped uninvolved ?_ notCall⟩
      rw [reached]
      exact Pc.uninvolved_afterCapture fun inner same => enters ⟨inner, same⟩

/-- Every step has an order that explains what has happened. -/
theorem Explains.step (explains : Explains watched order)
    (stepped : watched.step (thread, action) = some next) : ∃ order', Explains next order' := by
  have move := World.move_of_step (Watched.step_eq_some_iff.mp stepped).1
  generalize before : watched.world.threads thread = pc at move
  generalize reached : next.world.threads thread = pc' at move
  have outside : pc.uninvolved = true → pc'.uninvolved = true →
      (∀ entry, action ≠ .call entry) → ∃ order', Explains next order' := by
    intro uninvolved still notCall
    exact ⟨order, explains.step_uninvolved stepped (before ▸ uninvolved) (reached ▸ still)
      notCall⟩
  cases move with
  | call => exact ⟨order, explains.step_call stepped before reached⟩
  | opening inner =>
      apply outside rfl (Pc.uninvolved_afterOpen _)
      rintro entry rfl
      cases inner.own
  | capturing inner => exact explains.step_capture stepped before inner reached
  | surface inner => exact explains.step_surface stepped before inner reached
  | _ => exact outside rfl rfl (by simp)

end Movers

/-! ## Every interleaving -/

/-- Some order explains what has happened. -/
def Explained (watched : Watched) : Prop :=
  ∃ order, Explains watched order

theorem explained_of_run {width height : Int} {events : List Event} {final : Watched}
    (ran : Watched.run (Watched.attached width height) events = some final) :
    Explained final := by
  have start : Explained (Watched.attached width height) := ⟨[], explains_attached width height⟩
  refine LabelledRun.invariant_of_run ?_ start
    (LabelledRun.everyStep_of_forall_mem fun event _ => (trivial : True)) ran
  rintro watched ⟨thread, action⟩ next ⟨order, explains⟩ - stepped
  exact explains.step stepped

/-- A sequential order of the updates and passes that have returned, and of updates and
passes still in progress that have taken effect: it agrees with which had returned before
which began, and each pass attempts the list that the updates before it lead to. -/
structure Linearizes (history : History) (order : List Operation) : Prop where
  complete : ∀ operation returned,
    (operation, returned) ∈ history.timeline.completed → operation ∈ order
  recorded : ∀ operation ∈ order, history.current operation.thread = some operation ∨
    ∃ returned, (operation, returned) ∈ history.timeline.completed
  once : order.Nodup
  realTime : ∀ first second, second ∈ order →
    history.timeline.Precedes Operation.began first second → [first, second].Sublist order
  snapshot : ∀ before pass after attempted, order = before ++ pass :: after →
    pass.deed = .pass attempted → attempted = replay Operation.perform [] before

/-- An added surface is attempted by every later pass unless it is removed in between. -/
def NoAddLost (history : History) (order : List Operation) : Prop :=
  ∀ add pass surface attempted, add.deed = .update (.addEncoder surface) →
    pass.deed = .pass attempted → pass ∈ order →
    history.timeline.Precedes Operation.began add pass →
    surface ∈ attempted ∨
      ∃ removal, removal.deed = .update (.removeEncoder surface) ∧
        [add, removal, pass].Sublist order

/-- A removed surface is attempted by no later pass unless it is added in between. -/
def GoneUntilAdded (history : History) (order : List Operation) : Prop :=
  ∀ removal pass surface attempted, removal.deed = .update (.removeEncoder surface) →
    pass.deed = .pass attempted → pass ∈ order →
    history.timeline.Precedes Operation.began removal pass →
    surface ∉ attempted ∨
      ∃ add, add.deed = .update (.addEncoder surface) ∧ [removal, add, pass].Sublist order

section Orders

variable {watched : Watched} {order : List Operation}

theorem Explains.linearizes (explains : Explains watched order) :
    Linearizes watched.history order where
  complete := fun operation returned done =>
    (explains.respects.included operation returned done).1
  recorded := explains.pending
  once := explains.respects.nodup
  realTime := fun _ _ member precedes => explains.respects.sublist precedes member
  snapshot := by
    intro before pass after attempted split isPass
    have legal := explains.legal
    rw [split, legal_append_iff] at legal
    exact legal.2.1 attempted isPass

theorem Operation.ends_member {surfaces : List Surface} {surface : Surface}
    {operation : Operation} (member : surface ∈ surfaces)
    (gone : ¬ surface ∈ Operation.perform surfaces operation) :
    operation.deed = .update (.removeEncoder surface) := by
  obtain ⟨thread, began, deed⟩ := operation
  cases deed with
  | pass attempted => exact absurd member gone
  | update update =>
      cases update with
      | setPreview other => exact absurd member gone
      | addEncoder other => exact absurd (List.mem_append_left [other] member) gone
      | removeEncoder other =>
          by_cases same : surface = other
          · rw [same]
          · exact absurd (List.mem_filter.mpr ⟨member, by simpa using same⟩) gone

theorem Operation.ends_absent {surfaces : List Surface} {surface : Surface}
    {operation : Operation} (absent : surface ∉ surfaces)
    (there : ¬ surface ∉ Operation.perform surfaces operation) :
    operation.deed = .update (.addEncoder surface) := by
  have there := not_not.mp there
  obtain ⟨thread, began, deed⟩ := operation
  cases deed with
  | pass attempted => exact absurd there absent
  | update update =>
      cases update with
      | setPreview other => exact absurd there absent
      | removeEncoder other => exact absurd (List.mem_of_mem_filter there) absent
      | addEncoder other =>
          rcases List.mem_append.mp there with before | added
          · exact absurd before absent
          · rw [List.mem_singleton.mp added]

theorem Explains.noAddLost (explains : Explains watched order) :
    NoAddLost watched.history order := by
  intro add pass surface attempted isAdd isPass member precedes
  by_cases found : surface ∈ attempted
  · exact Or.inl found
  · right
    have sublist := explains.respects.sublist precedes member
    obtain ⟨removal, between, surfaces, held, gone⟩ :=
      exists_between (fun surfaces => surface ∈ surfaces) explains.legal sublist
        (fun before => by simp [Operation.perform, isAdd])
        (fun before allowed => by rw [← allowed attempted isPass]; exact found)
    exact ⟨removal, Operation.ends_member held gone, between⟩

theorem Explains.goneUntilAdded (explains : Explains watched order) :
    GoneUntilAdded watched.history order := by
  intro removal pass surface attempted isRemoval isPass member precedes
  by_cases found : surface ∈ attempted
  · right
    have sublist := explains.respects.sublist precedes member
    obtain ⟨add, between, surfaces, absent, there⟩ :=
      exists_between (fun surfaces => surface ∉ surfaces) explains.legal sublist
        (fun before => by simp [Operation.perform, isRemoval])
        (fun before allowed => by rw [← allowed attempted isPass]; exact not_not.mpr found)
    exact ⟨add, Operation.ends_absent absent there, between⟩
  · exact Or.inl found

end Orders

/-- Every interleaving of registry updates and passes has a sequential order in which each
pass attempts, once and in list order, the surfaces that the updates before it lead to; no
add is lost, and a removed surface is not attempted before it is added again. -/
theorem encoderPasses_linearizable {width height : Int} {events : List Event} {final : Watched}
    (ran : Watched.run (Watched.attached width height) events = some final) :
    ∃ order, Linearizes final.history order ∧ NoAddLost final.history order ∧
      GoneUntilAdded final.history order ∧
      final.world.camera.mEncoderSurfaces = replay Operation.perform [] order := by
  obtain ⟨order, explains⟩ := explained_of_run ran
  exact ⟨order, explains.linearizes, explains.noAddLost, explains.goneUntilAdded,
    explains.surfaces⟩

/-- A call of `addEncoder` that returns. -/
def addEncoderEvents (thread : ThreadId) (surface : Surface) : List Event :=
  [.call (.addEncoder (some surface)), .getCamera true, .surfaceValid true, .lock .encoderLock,
    .pushEncoder surface, .unlock .encoderLock, .encodersSize].map fun action => (thread, action)

/-- Two surfaces are added, the first of them is posted and the second refuses the lock, and
a removal starts during the pass. -/
def twoEncodersEvents : List Event :=
  addEncoderEvents 2 10 ++ addEncoderEvents 3 11 ++ startEvents 5 1 ++
    captureToSelectEvents 5 1 ++
    [(1, .recheck true), (1, .clearBufInfo), (1, .dequeueBuf 5 (.filled 0)),
      (1, .notify .firstCapture), (1, .readPreview none), (1, .lock .previewLock),
      (1, .readPreview none), (1, .freeScratch .yuv420sp), (1, .unlock .previewLock),
      (1, .lock .encoderLock), (1, .encodersEmpty false), (1, .allocScratch .rgba8888),
      (1, .convert .rgba8888 0), (1, .encoderAt 0 (some 10)),
      (2, .call (.removeEncoder (some 10))), (2, .getCamera true), (2, .surfaceValid true),
      (1, .window (some 10) (.lockWindow true)), (1, .copyScratch .rgba8888),
      (1, .window (some 10) .post), (1, .encoderAt 1 (some 11)),
      (1, .window (some 11) (.lockWindow false)), (1, .encoderAt 2 none),
      (1, .unlock .encoderLock), (2, .lock .encoderLock), (2, .removeEncoder 10),
      (2, .unlock .encoderLock)]

theorem encoderPasses_linearizable_twoEncoders :
    ∃ final order, Watched.run (Watched.attached 640 480) twoEncodersEvents = some final ∧
      Linearizes final.history order ∧ NoAddLost final.history order ∧
      GoneUntilAdded final.history order ∧
      final.world.camera.mEncoderSurfaces = replay Operation.perform [] order := by
  obtain ⟨final, ran⟩ := Option.isSome_iff_exists.mp (by decide :
    (Watched.run (Watched.attached 640 480) twoEncodersEvents).isSome = true)
  obtain ⟨order, explained⟩ := encoderPasses_linearizable ran
  exact ⟨final, order, ran, explained⟩

end UsbCamera
