import UsbCamera.NativePrograms

/-!
# Threads sharing one native camera

The interleaving semantics: any thread may perform the next action of its
program, provided the camera object, the device and the Java field
`mNativeObject` allow that action.  Every thread number is available; a thread
outside the native code is idle, whether it has been created or not.
-/

namespace UsbCamera

/-- One step of a thread. -/
abbrev Event := ThreadId × Action

structure World where
  mNativeObject : Bool
  alive : Bool
  camera : Camera
  device : Device
  threads : ThreadId → Pc

namespace World

/-- After the constructor of `Camera.java`. -/
def attached (width height : Int) : World where
  mNativeObject := true
  alive := true
  camera := Camera.create width height
  device := Device.empty
  threads := fun _ => .idle

/-- The effect of an action on `mNativeObject`; `getCamera` observes it. -/
def applyPointer (mNativeObject : Bool) : Action → Option Bool
  | .getCamera attached => if attached = mNativeObject then some mNativeObject else none
  | .clearCamera => some false
  | _ => some mNativeObject

/-- Is the native object still there after the action? -/
def aliveAfter (alive : Bool) : Action → Bool
  | .deleteCamera _ => false
  | _ => alive

/-- Move `thread` to `pc`; a `spawn` also starts the capture program on a thread
that is idle. -/
def moveThread (threads : ThreadId → Pc) (thread : ThreadId) (pc : Pc) :
    Action → Option (ThreadId → Pc)
  | .spawn child =>
      if child ≠ thread ∧ threads child = .idle then
        some fun other =>
          if other = child then .capturing true .getCamera
          else if other = thread then pc else threads other
      else none
  | _ => some fun other => if other = thread then pc else threads other

/-- One step of one thread.  A notification is one step here, as if `mClientLock` were free and
every callback returned; `App.step` takes it apart. -/
def step (world : World) (event : Event) : Option World := do
  let pc ← (world.threads event.1).next event.2
  let mNativeObject ← applyPointer world.mNativeObject event.2
  let camera ← world.camera.apply event.1 event.2
  let device ← world.device.apply event.2
  let threads ← moveThread world.threads event.1 pc event.2
  some ⟨mNativeObject, aliveAfter world.alive event.2, camera, device, threads⟩

/-- Runs of the camera under every interleaving. -/
abbrev run : World → List Event → Option World :=
  LabelledRun.run step

abbrev EveryStep (meets : World → Event → Prop) : World → List Event → Prop :=
  LabelledRun.EveryStep step meets

theorem step_eq_some_iff {world next : World} {thread : ThreadId} {action : Action} :
    world.step (thread, action) = some next ↔
      ∃ pc, (world.threads thread).next action = some pc ∧
        applyPointer world.mNativeObject action = some next.mNativeObject ∧
        world.camera.apply thread action = some next.camera ∧
        world.device.apply action = some next.device ∧
        moveThread world.threads thread pc action = some next.threads ∧
        next.alive = aliveAfter world.alive action := by
  obtain ⟨mNativeObject, alive, camera, device, threads⟩ := next
  simp only [step, Option.bind_eq_bind, Option.bind_eq_some_iff, Option.some.injEq,
    World.mk.injEq]
  constructor
  · rintro ⟨pc, moved, _, pointer, _, fields, _, kernel, _, placed, rfl, rfl, rfl, rfl, rfl⟩
    exact ⟨pc, moved, pointer, fields, kernel, placed, rfl⟩
  · rintro ⟨pc, moved, pointer, fields, kernel, placed, rfl⟩
    exact ⟨pc, moved, _, pointer, _, fields, _, kernel, _, placed, rfl, rfl, rfl, rfl, rfl⟩

/-- A step other than a `spawn` happens as soon as its parts do. -/
theorem exists_step (world : World) (thread : ThreadId) (action : Action) {pc : Pc}
    {mNativeObject : Bool} {camera : Camera} {device : Device}
    (moved : (world.threads thread).next action = some pc)
    (pointer : applyPointer world.mNativeObject action = some mNativeObject)
    (fields : world.camera.apply thread action = some camera)
    (kernel : world.device.apply action = some device)
    (notSpawn : ∀ child, action ≠ .spawn child) :
    ∃ next, world.step (thread, action) = some next ∧ next.threads thread = pc ∧
      next.mNativeObject = mNativeObject ∧ next.camera = camera := by
  refine ⟨⟨mNativeObject, aliveAfter world.alive action, camera, device,
    fun other => if other = thread then pc else world.threads other⟩, ?_, ?_, rfl, rfl⟩
  · apply step_eq_some_iff.mpr
    refine ⟨pc, moved, pointer, fields, kernel, ?_, rfl⟩
    unfold moveThread
    split
    · rename_i child
      exact absurd rfl (notSpawn child)
    · rfl
  · simp

section Threads

variable {threads placed : ThreadId → Pc} {pc : Pc}
  {world next : World} {thread : ThreadId} {action : Action}

theorem moveThread_self (moved : moveThread threads thread pc action = some placed) :
    placed thread = pc := by
  unfold moveThread at moved
  split at moved
  · split at moved
    · rename_i child fresh
      cases moved
      simp [fresh.1.symm]
    · cases moved
  · cases moved
    simp

theorem moveThread_other (moved : moveThread threads thread pc action = some placed)
    {other : ThreadId} (distinct : other ≠ thread) :
    placed other = threads other ∨
      action = .spawn other ∧ threads other = .idle ∧
        placed other = .capturing true .getCamera := by
  unfold moveThread at moved
  split at moved
  · split at moved
    · rename_i child fresh
      cases moved
      by_cases isChild : other = child
      · subst isChild
        exact Or.inr ⟨rfl, fresh.2, by simp⟩
      · exact Or.inl (by simp [isChild, distinct])
    · cases moved
  · cases moved
    exact Or.inl (by simp [distinct])

theorem moved_of_step (stepped : world.step (thread, action) = some next) :
    (world.threads thread).next action = some (next.threads thread) := by
  obtain ⟨pc, moved, -, -, -, placed, -⟩ := step_eq_some_iff.mp stepped
  rw [moved, moveThread_self placed]

/-- Another thread stays where it is, or is the idle thread that a `spawn`
starts. -/
theorem other_of_step (stepped : world.step (thread, action) = some next)
    {other : ThreadId} (distinct : other ≠ thread) :
    next.threads other = world.threads other ∨
      action = .spawn other ∧ world.threads other = .idle ∧
        next.threads other = .capturing true .getCamera := by
  obtain ⟨_, -, -, -, -, placed, -⟩ := step_eq_some_iff.mp stepped
  exact moveThread_other placed distinct

theorem spawned_of_step {child : ThreadId}
    (stepped : world.step (thread, .spawn child) = some next) :
    next.threads child = .capturing true .getCamera := by
  obtain ⟨_, -, -, -, -, placed, -⟩ := step_eq_some_iff.mp stepped
  simp only [moveThread] at placed
  split at placed
  · rw [← Option.some.inj placed]
    simp
  · cases placed

theorem camera_of_step (stepped : world.step (thread, action) = some next) :
    world.camera.apply thread action = some next.camera := by
  obtain ⟨_, -, -, fields, -, -, -⟩ := step_eq_some_iff.mp stepped
  exact fields

theorem device_of_step (stepped : world.step (thread, action) = some next) :
    world.device.apply action = some next.device := by
  obtain ⟨_, -, -, -, kernel, -, -⟩ := step_eq_some_iff.mp stepped
  exact kernel

theorem pointer_of_step (stepped : world.step (thread, action) = some next) :
    applyPointer world.mNativeObject action = some next.mNativeObject := by
  obtain ⟨_, -, pointer, -, -, -, -⟩ := step_eq_some_iff.mp stepped
  exact pointer

/-- Nothing attaches the object again. -/
theorem mNativeObject_of_step (stepped : world.step (thread, action) = some next)
    (isAttached : next.mNativeObject = true) : world.mNativeObject = true := by
  have pointer := pointer_of_step stepped
  unfold applyPointer at pointer
  split at pointer
  · split at pointer <;> simp_all
  · simp_all
  · simp_all

theorem alive_of_step (stepped : world.step (thread, action) = some next) :
    next.alive = aliveAfter world.alive action := by
  obtain ⟨_, -, -, -, -, -, lives⟩ := step_eq_some_iff.mp stepped
  exact lives

end Threads

/-! ## Conditions on all threads -/

section AllThreads

variable {meets : World → Event → ThreadId → Prop} {active : List ThreadId}

/-- The event moves and creates no thread outside the list. -/
def Within (active : List ThreadId) (event : Event) : Prop :=
  event.1 ∈ active ∧ ∀ child ∈ event.2.spawned, child ∈ active

instance (event : Event) : Decidable (Within active event) :=
  inferInstanceAs (Decidable (_ ∧ ∀ child ∈ event.2.spawned, _))

/-- Every thread outside the list is idle. -/
def Confined (active : List ThreadId) (world : World) : Prop :=
  ∀ thread, thread ∉ active → world.threads thread = .idle

theorem confined_attached (width height : Int) : Confined active (attached width height) :=
  fun _ _ => rfl

/-- A thread that neither moves nor is created stays idle. -/
theorem Confined.step {world next : World} {event : Event}
    (confined : Confined active world) (within : Within active event)
    (stepped : world.step event = some next) : Confined active next := by
  intro thread outside
  have notMover : thread ≠ event.1 := fun same => outside (same ▸ within.1)
  rcases other_of_step stepped notMover with same | ⟨spawned, -, -⟩
  · rw [same]
    exact confined thread outside
  · exact absurd (within.2 thread (by simp [spawned, Action.spawned])) outside

theorem Confined.of_run {world final : World} {events : List Event}
    (confined : Confined active world) (within : ∀ event ∈ events, Within active event)
    (ran : run world events = some final) : Confined active final := by
  refine LabelledRun.invariant_of_run ?_ confined
    (LabelledRun.everyStep_of_forall_mem within) ran
  intro world event next confined within stepped
  exact confined.step within stepped

/-- A condition that idle threads meet needs to be looked at only on the threads
a run moves or creates. -/
theorem Confined.everyStep
    (ofIdle : ∀ world event thread, world.threads thread = .idle → meets world event thread)
    {world : World} {events : List Event} (confined : Confined active world)
    (within : ∀ event ∈ events, Within active event)
    (checked : EveryStep (fun world event => ∀ thread ∈ active, meets world event thread)
      world events) :
    EveryStep (fun world event => ∀ thread, meets world event thread) world events := by
  induction events generalizing world with
  | nil => trivial
  | cons event events ih =>
      rw [EveryStep, LabelledRun.everyStep_cons_iff] at checked ⊢
      constructor
      · intro thread
        by_cases member : thread ∈ active
        · exact checked.1 thread member
        · exact ofIdle world event thread (confined thread member)
      · intro next stepped
        exact ih (confined.step (within event (by simp)) stepped)
          (fun other member => within other (by simp [member])) (checked.2 next stepped)

end AllThreads

end World

end UsbCamera
