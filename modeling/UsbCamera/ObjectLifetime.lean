import UsbCamera.UserThread

/-!
# Nobody uses the camera object after its release

Every native entry point fetches the pointer in `mNativeObject` and uses it in
later steps; nothing keeps the object alive in between.  The object is therefore
used only while it exists in the runs where `release()` deletes it when no other
thread is between its fetch and its last access, and where nobody fetches the
pointer between the deletion and the write that clears it.
-/

namespace UsbCamera

/-! ## Threads that hold the pointer -/

/-- The thread has fetched the pointer and will still use it. -/
def CapturePc.holdsCamera : CapturePc → Bool
  | .getCamera | .notifyStop | .notifyError | .returned => false
  | _ => true

def SurfacePc.holdsCamera : SurfacePc → Bool
  | .getCamera _ | .getCameraFor _ | .returned => false
  | _ => true

def Pc.holdsCamera : Pc → Bool
  | .opening _ | .stopWrite | .releaseStop | .releaseDelete => true
  | .capturing _ pc => pc.holdsCamera
  | .surface pc => pc.holdsCamera
  | .idle | .startGet | .spawning | .stopGet | .releaseGet | .releaseClear => false

namespace CapturePc

variable {first first' : Bool} {pc pc' : CapturePc} {action : Action}

theorem Move.holds_of_touches (move : Move first pc action first' pc')
    (touches : action.touchesCamera = true) : pc.holdsCamera = true := by
  cases move with
  | attached | detached | notifyStop | notifyError => cases touches
  | _ => rfl

theorem Move.holds_before (move : Move first pc action first' pc')
    (holds : pc'.holdsCamera = true) :
    pc.holdsCamera = true ∨ action = .getCamera true := by
  cases move with
  | attached => exact Or.inr rfl
  | detached | notifyStop | notifyError => cases holds
  | _ => exact Or.inl rfl

end CapturePc

namespace SurfacePc

variable {pc pc' : SurfacePc} {action : Action}

theorem holds_of_touches (moved : pc.next action = some pc')
    (touches : action.touchesCamera = true) : pc.holdsCamera = true := by
  cases pc with
  | getCamera null => cases action <;> simp_all [SurfacePc.next, Action.touchesCamera]
  | getCameraFor update => cases action <;> simp_all [SurfacePc.next, Action.touchesCamera]
  | returned => cases action <;> cases moved
  | _ => rfl

theorem holds_before (moved : pc.next action = some pc') (holds : pc'.holdsCamera = true) :
    pc.holdsCamera = true ∨ action = .getCamera true := by
  cases pc with
  | getCamera null =>
      cases action with
      | getCamera attached =>
          cases attached
          · cases null <;> cases moved <;> cases holds
          · exact Or.inr rfl
      | _ => cases moved
  | getCameraFor update =>
      cases action with
      | getCamera attached =>
          cases attached
          · cases moved
            cases holds
          · exact Or.inr rfl
      | _ => cases moved
  | returned => cases action <;> cases moved
  | _ => exact Or.inl rfl

end SurfacePc

namespace Pc

variable {pc pc' : Pc} {action : Action}

@[simp]
theorem holdsCamera_afterCapture (first : Bool) (pc : CapturePc) :
    (afterCapture first pc).holdsCamera = pc.holdsCamera := by
  cases pc <;> rfl

@[simp]
theorem holdsCamera_afterSurface (pc : SurfacePc) :
    (afterSurface pc).holdsCamera = pc.holdsCamera := by
  cases pc <;> rfl

@[simp]
theorem holdsCamera_enter (entry : Call) : (enter entry).holdsCamera = false := by
  cases entry with
  | start | stop | release => rfl
  | setPreview jsurface | addEncoder jsurface | removeEncoder jsurface =>
      cases jsurface <;> rfl

/-- Only a thread that has fetched the pointer touches the object or deletes
it. -/
theorem holds_of_use (move : Move pc action pc')
    (uses : action.touchesCamera = true ∨ action.deletes = true) : pc.holdsCamera = true := by
  cases move with
  | opening | stop | releaseStop | delete => rfl
  | capturing inner =>
      rcases uses with touches | deletes
      · exact inner.holds_of_touches touches
      · rcases inner.own_or_draws with own | draws <;> cases action <;> simp_all [
          Action.deletes, CapturePc.ownAction, Action.draws]
  | surface inner =>
      rcases uses with touches | deletes
      · exact SurfacePc.holds_of_touches inner touches
      · have own := SurfacePc.own_of_next inner
        cases action <;> simp_all [Action.deletes, SurfacePc.ownAction]
  | _ => rcases uses with touches | deletes <;> contradiction

/-- A thread comes to hold the pointer by fetching it. -/
theorem holds_before (move : Move pc action pc') (holds : pc'.holdsCamera = true) :
    pc.holdsCamera = true ∨ action = .getCamera true := by
  cases move with
  | call => simp at holds
  | startAttached | stopAttached | releaseAttached => exact Or.inr rfl
  | opening | releaseStop => exact Or.inl rfl
  | capturing inner => exact inner.holds_before (by simpa using holds)
  | surface inner => exact SurfacePc.holds_before inner (by simpa using holds)
  | _ => cases holds

/-- A release leaves its last point only by clearing `mNativeObject`. -/
theorem clear_of_move (move : Move .releaseClear action pc') : action = .clearCamera := by
  cases move
  rfl

end Pc

/-! ## Before any release -/

/-- The thread is inside `release()`. -/
def Pc.releasing : Pc → Bool
  | .releaseGet | .releaseStop | .releaseDelete | .releaseClear => true
  | _ => false

namespace Pc

variable {pc pc' : Pc} {action : Action}

@[simp]
theorem releasing_afterOpen (inner : OpenPc) : (afterOpen inner).releasing = false := by
  cases inner
  case returned fd => by_cases positive : 0 < fd <;> simp [afterOpen, positive, releasing]
  all_goals rfl

@[simp]
theorem releasing_afterCapture (first : Bool) (inner : CapturePc) :
    (afterCapture first inner).releasing = false := by
  cases inner <;> rfl

@[simp]
theorem releasing_afterSurface (inner : SurfacePc) :
    (afterSurface inner).releasing = false := by
  cases inner <;> rfl

/-- A thread gets into `release()` by calling it. -/
theorem releasing_of_move (move : Move pc action pc') (outside : pc.releasing = false)
    (unreleased : action.method ≠ some .release) : pc'.releasing = false := by
  cases move with
  | @call entry =>
      cases entry with
      | release => exact absurd rfl unreleased
      | _ => rfl
  | opening => exact releasing_afterOpen _
  | capturing => exact releasing_afterCapture _ _
  | surface => exact releasing_afterSurface _
  | releaseAttached | releaseStop | delete => cases outside
  | _ => rfl

end Pc

namespace World

/-- `release()` is not called. -/
def Unreleased (event : Event) : Prop :=
  event.2.method ≠ some .release

instance (event : Event) : Decidable (Unreleased event) :=
  inferInstanceAs (Decidable (_ ≠ _))

/-- The object exists, and nobody is about to delete it. -/
structure Lasts (world : World) : Prop where
  alive : world.alive = true
  outside : ∀ thread, (world.threads thread).releasing = false

section Lasts

variable {world next final : World} {thread : ThreadId} {action : Action}

theorem Lasts.step (lasts : Lasts world) (unreleased : Unreleased (thread, action))
    (stepped : world.step (thread, action) = some next) : Lasts next := by
  have move := move_of_step stepped
  refine ⟨?_, fun other => ?_⟩
  · rw [alive_of_step stepped]
    cases action with
    | deleteCamera fd =>
        have outside := lasts.outside thread
        rw [(Pc.delete_of_move move).1] at outside
        cases outside
    | _ => exact lasts.alive
  · by_cases mover : other = thread
    · rw [mover]
      exact Pc.releasing_of_move move (lasts.outside thread) unreleased
    · rcases other_of_step stepped mover with same | ⟨-, -, begun⟩
      · rw [same]
        exact lasts.outside other
      · rw [begun]
        rfl

theorem lasts_of_run {width height : Int} {events : List Event}
    (unreleased : ∀ event ∈ events, Unreleased event)
    (ran : run (attached width height) events = some final) : Lasts final := by
  refine LabelledRun.invariant_of_run ?_ ⟨rfl, fun thread => rfl⟩
    (LabelledRun.everyStep_of_forall_mem unreleased) ran
  rintro before ⟨mover, action⟩ after lasts unreleased stepped
  exact lasts.step unreleased stepped

end Lasts

/-! ## Exclusive releases -/

/-- Once the object is deleted, no step touches it and none deletes it again. -/
def NoUseAfterRelease (events : List Event) : Prop :=
  ∀ (before after : List Event) (thread : ThreadId) (fd : Int),
    events = before ++ (thread, .deleteCamera fd) :: after →
    ∀ event ∈ after, event.2.touchesCamera = false ∧ event.2.deletes = false

/-- What an exclusive release asks of another thread: it holds no pointer when the
object is deleted, and it is not between the deletion and the clearing when a
pointer is fetched. -/
def Spares (world : World) (event : Event) (thread : ThreadId) : Prop :=
  (event.2.deletes = true → thread ≠ event.1 →
    (world.threads thread).holdsCamera = false) ∧
  (event.2 = .getCamera true → world.threads thread ≠ .releaseClear)

instance (world : World) (event : Event) (thread : ThreadId) :
    Decidable (Spares world event thread) :=
  inferInstanceAs (Decidable (_ ∧ _))

def Exclusive (world : World) (event : Event) : Prop :=
  ∀ thread, Spares world event thread

/-- While the object exists anything goes; afterwards nobody holds the pointer,
and it can be fetched only until the releasing thread has cleared it. -/
structure Unheld (world : World) : Prop where
  free : world.alive = false → ∀ thread, (world.threads thread).holdsCamera = false
  clearing : world.alive = false → world.mNativeObject = true →
    ∃ thread, world.threads thread = .releaseClear

section Steps

variable {world next : World} {thread : ThreadId} {action : Action}

/-- In a world without the object, no exclusive step fetches the pointer. -/
theorem Unheld.noFetch (unheld : Unheld world) (dead : world.alive = false)
    (exclusive : Exclusive world (thread, action))
    (stepped : world.step (thread, action) = some next) : action ≠ .getCamera true := by
  rintro rfl
  have fetched := pointer_of_step stepped
  simp only [applyPointer] at fetched
  split at fetched
  · rename_i isAttached
    obtain ⟨releasing, atClear⟩ := unheld.clearing dead isAttached.symm
    exact (exclusive releasing).2 rfl atClear
  · cases fetched

theorem Unheld.noUse (unheld : Unheld world) (dead : world.alive = false)
    (stepped : world.step (thread, action) = some next) :
    action.touchesCamera = false ∧ action.deletes = false := by
  have free := unheld.free dead thread
  constructor
  · by_contra touches
    rw [Pc.holds_of_use (move_of_step stepped) (Or.inl (by simpa using touches))] at free
    cases free
  · by_contra deletes
    rw [Pc.holds_of_use (move_of_step stepped) (Or.inr (by simpa using deletes))] at free
    cases free

/-- Nobody holds the pointer after the deletion itself. -/
theorem free_of_delete {fd : Int} (exclusive : Exclusive world (thread, .deleteCamera fd))
    (stepped : world.step (thread, .deleteCamera fd) = some next) :
    ∀ other, (next.threads other).holdsCamera = false := by
  intro other
  by_cases mover : other = thread
  · rw [mover, (Pc.delete_of_move (move_of_step stepped)).2]
    rfl
  · rcases other_of_step stepped mover with same | ⟨contra, -, -⟩
    · rw [same]
      exact (exclusive other).1 rfl mover
    · cases contra

/-- Nobody comes to hold the pointer in a step that does not fetch it. -/
theorem free_of_step (free : ∀ other, (world.threads other).holdsCamera = false)
    (noFetch : action ≠ .getCamera true)
    (stepped : world.step (thread, action) = some next) :
    ∀ other, (next.threads other).holdsCamera = false := by
  intro other
  by_cases mover : other = thread
  · subst mover
    by_contra holds
    rcases Pc.holds_before (move_of_step stepped) (by simpa using holds) with held | fetched
    · rw [free other] at held
      cases held
    · exact noFetch fetched
  · rcases other_of_step stepped mover with same | ⟨-, -, begun⟩
    · rw [same]
      exact free other
    · rw [begun]
      rfl

theorem alive_eq_false_of_step (stepped : world.step (thread, action) = some next)
    (dead : next.alive = false) :
    world.alive = false ∨ ∃ fd, action = .deleteCamera fd := by
  have lives := alive_of_step stepped
  rw [dead] at lives
  unfold aliveAfter at lives
  split at lives
  · exact Or.inr ⟨_, rfl⟩
  · exact Or.inl lives.symm

theorem dead_of_step (stepped : world.step (thread, action) = some next)
    (dead : world.alive = false) : next.alive = false := by
  rw [alive_of_step stepped, dead]
  unfold aliveAfter
  split <;> rfl

/-- Until the pointer is cleared, the thread that is to clear it stays there. -/
theorem clearing_of_step (stepped : world.step (thread, action) = some next)
    (isAttached : next.mNativeObject = true)
    (clearing : ∃ other, world.threads other = .releaseClear) :
    ∃ other, next.threads other = .releaseClear := by
  obtain ⟨other, atClear⟩ := clearing
  refine ⟨other, ?_⟩
  by_cases mover : other = thread
  · subst mover
    have move := move_of_step stepped
    rw [atClear] at move
    have cleared := pointer_of_step stepped
    rw [Pc.clear_of_move move] at cleared
    simp [applyPointer, isAttached] at cleared
  · rcases other_of_step stepped mover with same | ⟨-, idle, -⟩
    · rw [same]
      exact atClear
    · rw [atClear] at idle
      cases idle

theorem Unheld.step (unheld : Unheld world) (exclusive : Exclusive world (thread, action))
    (stepped : world.step (thread, action) = some next) : Unheld next := by
  constructor
  · intro dead
    rcases alive_eq_false_of_step stepped dead with wasDead | ⟨fd, rfl⟩
    · exact free_of_step (unheld.free wasDead) (unheld.noFetch wasDead exclusive stepped) stepped
    · exact free_of_delete exclusive stepped
  · intro dead isAttached
    rcases alive_eq_false_of_step stepped dead with wasDead | ⟨fd, rfl⟩
    · exact clearing_of_step stepped isAttached
        (unheld.clearing wasDead (mNativeObject_of_step stepped isAttached))
    · exact ⟨thread, (Pc.delete_of_move (move_of_step stepped)).2⟩

end Steps

/-! ## Runs -/

theorem unheld_attached (width height : Int) : Unheld (attached width height) where
  free := by rintro ⟨⟩
  clearing := by rintro ⟨⟩

/-- The object has been deleted and nobody holds a pointer to it. -/
structure Released (world : World) : Prop where
  unheld : Unheld world
  dead : world.alive = false

theorem Released.step {world next : World} {thread : ThreadId} {action : Action}
    (released : Released world) (exclusive : Exclusive world (thread, action))
    (stepped : world.step (thread, action) = some next) : Released next :=
  ⟨released.unheld.step exclusive stepped, dead_of_step stepped released.dead⟩

/-- Without the object, nothing is left that would use it. -/
theorem Released.noUse {world final : World} {events : List Event}
    (released : Released world) (exclusive : EveryStep Exclusive world events)
    (ran : run world events = some final) :
    ∀ event ∈ events, event.2.touchesCamera = false ∧ event.2.deletes = false := by
  have noUse : EveryStep (fun _ event => event.2.touchesCamera = false ∧
      event.2.deletes = false) world events := by
    refine LabelledRun.everyStep_of_invariant ?_ ?_ released exclusive ran
    · rintro before ⟨thread, action⟩ next released exclusive stepped
      exact released.step exclusive stepped
    · rintro before ⟨thread, action⟩ next released - stepped
      exact released.unheld.noUse released.dead stepped
  exact LabelledRun.forall_mem_of_everyStep noUse ran

/-- In every run whose releases are exclusive the object is deleted at most once
and never used afterwards. -/
theorem noUseAfterRelease_of_exclusive {width height : Int} {events : List Event}
    {final : World} (ran : run (attached width height) events = some final)
    (exclusive : EveryStep Exclusive (attached width height) events) :
    NoUseAfterRelease events := by
  rintro before after thread fd rfl
  obtain ⟨world, next, reached, deleted, continued⟩ :=
    LabelledRun.run_append_cons_iff.mp ran
  obtain ⟨earlier, later⟩ := (LabelledRun.everyStep_append_iff reached).mp exclusive
  rw [LabelledRun.everyStep_cons_iff] at later
  have unheld : Unheld world := LabelledRun.invariant_of_run
    (fun _ _ _ unheld exclusive stepped => unheld.step exclusive stepped)
    (unheld_attached width height) earlier reached
  have released : Released next := ⟨unheld.step later.1 deleted, alive_of_step deleted⟩
  exact released.noUse (later.2 next deleted) continued

/-! ## An exclusive and a racing release -/

/-- A capture that is stopped and has ended before `release()` is called. -/
def stopThenRelease : List Event :=
  startEvents 5 1 ++ captureToSelectEvents 5 1 ++ stopCallEvents ++
    [(userThread, .writePeek false), (1, .recheck false), (1, .writePeek false),
      (1, .notify .captureStop)] ++
    releaseEvents 5 userThread ++ [(userThread, .clearCamera), (userThread, .call .stop),
      (userThread, .getCamera false)]

theorem noUseAfterRelease_stopThenRelease : NoUseAfterRelease stopThenRelease := by
  obtain ⟨final, ran⟩ := Option.isSome_iff_exists.mp
    (by decide : (run (attached 640 480) stopThenRelease).isSome = true)
  refine noUseAfterRelease_of_exclusive ran ?_
  have within : ∀ event ∈ stopThenRelease, Within [0, 1] event := by decide
  refine (confined_attached 640 480).everyStep ?_ within (by decide)
  intro world event thread idle
  simp [Spares, idle, Pc.holdsCamera]

/-- A `release()` that comes while the capture thread is in `select`: the thread
tests `mPeekRun` of the deleted object. -/
theorem not_noUseAfterRelease :
    ¬ ∀ (width height : Int) (events : List Event) (final : World),
      run (attached width height) events = some final → NoUseAfterRelease events := by
  intro always
  let before := startEvents 5 1 ++ captureToSelectEvents 5 1 ++
    [(2, .call .release), (2, .getCamera true), (2, .writePeek false)]
  obtain ⟨final, ran⟩ := Option.isSome_iff_exists.mp
    (by decide : (run (attached 640 480)
      (before ++ (2, .deleteCamera 5) :: [(1, .recheck false)])).isSome = true)
  have safe := always 640 480 _ final ran before [(1, .recheck false)] 2 5 rfl
  exact absurd (safe (1, .recheck false) (by simp)).1 (by decide)

end World

end UsbCamera
