import UsbCamera.UserThread

/-!
# Whether a stop reaches the capture loop

`stop()` only clears `mPeekRun`, and the capture thread sets the flag itself some
time after `start()` has returned.  A stop is therefore delivered exactly when,
at the moment it clears the flag, no capture thread is still on its way to
`mPeekRun = true`.
-/

namespace UsbCamera

open LabelledRun (everyStep_of_forall_mem)

namespace World

/-- After `stop()` has returned, and with no later `start()`, the loop condition
`while(mPeekRun)` is never found true again.  The last action of `stop()` is the
write of `mPeekRun`. -/
def StopNeverLost : Prop :=
  ∀ (width height : Int) (before after : List Event) (returned final : World),
    (∀ event ∈ before ++ after, UserCall event) →
    run (attached width height) (before ++ [(userThread, .writePeek false)]) = some returned →
    run returned after = some final →
    (∀ event ∈ after, event.2 ≠ .call .start) →
    ∀ thread, (thread, .loopTest true) ∉ after

/-- The thread is a capture thread that has not set `mPeekRun` yet and will find
the device open. -/
def MayRaise (world : World) (thread : ThreadId) : Prop :=
  match world.threads thread with
  | .capturing _ .getCamera => world.mNativeObject = true ∧ 0 ≤ world.camera.mFD
  | .capturing _ .checkFd => 0 ≤ world.camera.mFD
  | .capturing _ .raisePeek => True
  | _ => False

/-! ## A thread that may raise the flag enters the loop -/

/-- Some continuation without calls finds the loop condition true on `thread`. -/
def MayEnterLoop (world : World) (thread : ThreadId) : Prop :=
  ∃ after final, run world after = some final ∧ (thread, .loopTest true) ∈ after ∧
    ∀ event ∈ after, ∀ entry, event.2 ≠ .call entry

section Raising

variable {world next : World} {thread : ThreadId} {first : Bool}

theorem MayEnterLoop.of_step {action : Action}
    (stepped : world.step (thread, action) = some next)
    (noCall : ∀ entry, action ≠ .call entry) (enters : MayEnterLoop next thread) :
    MayEnterLoop world thread := by
  obtain ⟨after, final, ran, tested, calls⟩ := enters
  refine ⟨(thread, action) :: after, final,
    LabelledRun.run_cons_iff.mpr ⟨next, stepped, ran⟩, List.mem_cons_of_mem _ tested, ?_⟩
  intro event member entry
  rcases List.mem_cons.mp member with rfl | later
  · exact noCall entry
  · exact calls event later entry

theorem mayEnterLoop_of_raisePeek
    (atRaise : world.threads thread = .capturing first .raisePeek) :
    MayEnterLoop world thread := by
  obtain ⟨raised, raise, atTest, -, flag⟩ := world.exists_step thread (.writePeek true)
    (by rw [atRaise]; rfl) rfl rfl rfl (by simp)
  obtain ⟨final, test, -, -, -⟩ := raised.exists_step thread (.loopTest true)
    (by rw [atTest]; rfl) rfl (by rw [flag]; rfl) rfl (by simp)
  refine MayEnterLoop.of_step raise (by simp) ⟨[(thread, .loopTest true)], final, ?_, ?_, ?_⟩
  · exact LabelledRun.run_cons_iff.mpr ⟨final, test, rfl⟩
  · simp
  · simp

theorem mayEnterLoop_of_checkFd
    (atCheck : world.threads thread = .capturing first .checkFd)
    (isOpen : 0 ≤ world.camera.mFD) : MayEnterLoop world thread := by
  obtain ⟨checked, check, atRaise, -, -⟩ := world.exists_step thread
    (.readFd world.camera.mFD)
    (show _ = some (Pc.capturing first .raisePeek) by
      rw [atCheck]
      simp [Pc.next, CapturePc.next, Pc.afterCapture, Int.not_lt.mpr isOpen])
    rfl (by simp [Camera.apply]; rfl) rfl (by simp)
  exact MayEnterLoop.of_step check (by simp) (mayEnterLoop_of_raisePeek atRaise)

theorem mayEnterLoop_of_mayRaise (raises : MayRaise world thread) :
    MayEnterLoop world thread := by
  unfold MayRaise at raises
  split at raises
  case h_1 first atGet =>
      obtain ⟨fetched, fetch, atCheck, -, fields⟩ := world.exists_step thread
        (.getCamera true) (by rw [atGet]; rfl) (by simp [applyPointer, raises.1]; rfl) rfl rfl
        (by simp)
      refine MayEnterLoop.of_step fetch (by simp) (mayEnterLoop_of_checkFd atCheck ?_)
      rw [fields]
      exact raises.2
  case h_2 first atCheck => exact mayEnterLoop_of_checkFd atCheck raises
  case h_3 first atRaise => exact mayEnterLoop_of_raisePeek atRaise
  case h_4 => exact raises.elim

end Raising

/-! ## A world in which the stop has been delivered -/

/-- The flag is down and nobody is left who would raise it. -/
structure Stopped (world : World) : Prop where
  single : SingleUser world
  flag : world.camera.mPeekRun = false
  notStarting : (world.threads userThread).starting = false
  quiet : ∀ thread, ¬ MayRaise world thread

section Stopped

variable {world next : World} {thread : ThreadId} {action : Action}

theorem Stopped.notOpened (stopped : Stopped world)
    (stepped : world.step (thread, action) = some next) (fd : Int) :
    action ≠ .openDev fd := by
  rintro rfl
  have opening := Pc.openDev_of_move (move_of_step stepped)
  by_cases user : thread = userThread
  · subst user
    have notStarting := stopped.notStarting
    rw [opening] at notStarting
    cases notStarting
  · have capture := stopped.single.others thread user
    rw [opening] at capture
    cases capture

/-- In a stopped world a step makes no thread able to raise the flag. -/
theorem Stopped.mayRaise_of_step (stopped : Stopped world)
    (stepped : world.step (thread, action) = some next) {other : ThreadId}
    (raises : MayRaise next other) : MayRaise world other := by
  have descriptor :=
    Camera.mFD_nonneg_of_apply (camera_of_step stepped) (stopped.notOpened stepped)
  have pointer := mNativeObject_of_step stepped
  by_cases mover : other = thread
  · subst mover
    have move := move_of_step stepped
    unfold MayRaise at raises
    split at raises
    case h_1 first atGet =>
        rw [atGet] at move
        obtain ⟨first₀, inner₀, -, inside⟩ := Pc.capturing_of_move move
        rcases inside.early rfl with ⟨-, -, contra⟩ | ⟨-, contra, -⟩ <;> cases contra
    case h_2 first atCheck =>
        rw [atCheck] at move
        obtain ⟨first₀, inner₀, before, inside⟩ := Pc.capturing_of_move move
        rcases inside.early rfl with ⟨rfl, rfl, -⟩ | ⟨-, contra, -⟩
        · have fetched := pointer_of_step stepped
          simp only [applyPointer] at fetched
          split at fetched
          · rename_i isAttached
            simp only [MayRaise, before]
            exact ⟨isAttached.symm, descriptor raises⟩
          · cases fetched
        · cases contra
    case h_3 first atRaise =>
        rw [atRaise] at move
        obtain ⟨first₀, inner₀, before, inside⟩ := Pc.capturing_of_move move
        rcases inside.early rfl with ⟨-, -, contra⟩ | ⟨rfl, -, fd, nonneg, rfl⟩
        · cases contra
        · have same := Camera.eq_mFD_of_readFd (camera_of_step stepped)
          simp only [MayRaise, before]
          omega
    case h_4 => exact raises.elim
  · rcases other_of_step stepped mover with same | ⟨rfl, -, -⟩
    · unfold MayRaise at raises ⊢
      rw [same] at raises
      split at raises <;> simp_all
    · have spawner := stopped.single.spawner stepped
      have notStarting := stopped.notStarting
      rw [spawner.2] at notStarting
      cases notStarting

theorem Stopped.step (stopped : Stopped world) (call : UserCall (thread, action))
    (noStart : action ≠ .call .start)
    (stepped : world.step (thread, action) = some next) : Stopped next := by
  have quiet := fun other raises => stopped.quiet other (stopped.mayRaise_of_step stepped raises)
  refine ⟨stopped.single.step call stepped, ?_, ?_, quiet⟩
  · apply Camera.mPeekRun_lowered (camera_of_step stepped) stopped.flag
    rintro rfl
    obtain ⟨first, atRaise⟩ := Pc.raisePeek_of_move (move_of_step stepped)
    exact stopped.quiet thread (by simp [MayRaise, atRaise])
  · by_cases user : thread = userThread
    · subst user
      have notStarting := stopped.notStarting
      by_contra starts
      rcases Pc.starting_of_move (move_of_step stepped) (by simpa using starts) with was | called
      · rw [was] at notStarting
        cases notStarting
      · exact noStart called
    · rcases other_of_step stepped (Ne.symm user) with same | ⟨rfl, -, begun⟩
      · rw [same]
        exact stopped.notStarting
      · rw [begun]
        rfl

theorem Stopped.noLoopTest (stopped : Stopped world)
    (stepped : world.step (thread, action) = some next) : action ≠ .loopTest true := by
  rintro rfl
  have observed := camera_of_step stepped
  simp [Camera.apply, stopped.flag] at observed

end Stopped

/-! ## The stop of a user thread -/

section UserStop

variable {width height : Int} {before : List Event} {world returned : World}

/-- The user thread clears the flag at the end of `stop()` and nowhere else. -/
theorem SingleUser.stopWrite (single : SingleUser world)
    (stopped : world.step (userThread, .writePeek false) = some returned) :
    world.threads userThread = .stopWrite ∧ returned.threads userThread = .idle := by
  have move := move_of_step stopped
  have user := single.user
  generalize world.threads userThread = pc at move user
  generalize returned.threads userThread = pc' at move
  cases move with
  | stop => exact ⟨rfl, rfl⟩
  | opening inner => cases inner.own
  | capturing | releaseStop | surface => cases user

/-- Clearing the flag leaves every thread as able to raise it as before. -/
theorem SingleUser.mayRaise_iff (single : SingleUser world)
    (stopped : world.step (userThread, .writePeek false) = some returned)
    (thread : ThreadId) : MayRaise returned thread ↔ MayRaise world thread := by
  obtain ⟨atWrite, idle⟩ := single.stopWrite stopped
  have pointer : returned.mNativeObject = world.mNativeObject :=
    (Option.some.inj (pointer_of_step stopped)).symm
  have descriptor : returned.camera.mFD = world.camera.mFD :=
    Camera.mFD_of_apply (camera_of_step stopped) rfl
  by_cases user : thread = userThread
  · subst user
    simp [MayRaise, atWrite, idle]
  · rcases other_of_step stopped user with same | ⟨contra, -, -⟩
    · simp only [MayRaise, same, pointer, descriptor]
    · cases contra

/-- A stop is delivered, whatever happens after it, exactly when no capture
thread can still raise the flag at the moment the stop clears it. -/
theorem stop_delivered_iff (calls : ∀ event ∈ before, UserCall event)
    (reached : run (attached width height) before = some world)
    (stopped : world.step (userThread, .writePeek false) = some returned) :
    (∀ (after : List Event) (final : World),
        (∀ event ∈ after, UserCall event ∧ event.2 ≠ .call .start) →
        run returned after = some final →
        ∀ thread, (thread, .loopTest true) ∉ after) ↔
      ∀ thread, ¬ MayRaise world thread := by
  have single := singleUser_of_run calls reached
  constructor
  · intro delivered thread raises
    obtain ⟨after, final, ran, tested, noCall⟩ :=
      mayEnterLoop_of_mayRaise ((single.mayRaise_iff stopped thread).mpr raises)
    refine delivered after final (fun event member => ⟨?_, noCall event member .start⟩)
      ran thread tested
    intro entry called
    exact (noCall event member entry (Action.eq_call_of_method called)).elim
  · intro quiet after final allowed ran thread tested
    have begins : Stopped returned :=
      { single := single.step (by simp [UserCall, Action.method]) stopped
        flag := Camera.mPeekRun_of_writePeek (camera_of_step stopped)
        notStarting := by rw [(single.stopWrite stopped).2]; rfl
        quiet := fun other raises =>
          quiet other ((single.mayRaise_iff stopped other).mp raises) }
    have never : EveryStep (fun _ event => event.2 ≠ .loopTest true) returned after := by
      refine LabelledRun.everyStep_of_invariant ?_ ?_ begins
        (everyStep_of_forall_mem allowed) ran
      · rintro _ ⟨thread, action⟩ _ still allowed stepped
        exact still.step allowed.1 allowed.2 stepped
      · rintro _ ⟨thread, action⟩ _ still - stepped
        exact still.noLoopTest stepped
    exact LabelledRun.forall_mem_of_everyStep never ran _ tested rfl

end UserStop

/-- A capture thread that is already in its loop when the stop comes. -/
theorem stop_delivered_iff_inLoop :
    ∃ world returned,
      run (attached 640 480) (startEvents 5 1 ++ captureEntryEvents 5 1 ++
        [(1, .writePeek true), (1, .loopTest true)] ++ stopCallEvents) = some world ∧
      world.step (userThread, .writePeek false) = some returned ∧
      ((∀ (after : List Event) (final : World),
          (∀ event ∈ after, UserCall event ∧ event.2 ≠ .call .start) →
          run returned after = some final →
          ∀ thread, (thread, .loopTest true) ∉ after) ↔
        ∀ thread, ¬ MayRaise world thread) := by
  obtain ⟨final, ran⟩ := Option.isSome_iff_exists.mp
    (by decide : (run (attached 640 480) ((startEvents 5 1 ++ captureEntryEvents 5 1 ++
      [(1, .writePeek true), (1, .loopTest true)] ++ stopCallEvents) ++
      [(userThread, .writePeek false)])).isSome = true)
  obtain ⟨world, returned, reached, stopped, -⟩ := LabelledRun.run_append_cons_iff.mp ran
  exact ⟨world, returned, reached, stopped,
    stop_delivered_iff (by decide) reached stopped⟩

/-- The two statements of the run in which the stop comes before the capture
thread has run: the loop is entered after `stop()` has returned. -/
theorem not_stopNeverLost : ¬ StopNeverLost := by
  intro neverLost
  let before := startEvents 5 1 ++ stopCallEvents
  let after := captureEntryEvents 5 1 ++ [(1, .writePeek true), (1, .loopTest true)]
  obtain ⟨returned, stopped⟩ := Option.isSome_iff_exists.mp
    (by decide : (run (attached 640 480)
      (before ++ [(userThread, .writePeek false)])).isSome = true)
  obtain ⟨final, ran⟩ := Option.isSome_iff_exists.mp
    (by decide : (run (attached 640 480)
      ((before ++ [(userThread, .writePeek false)]) ++ after)).isSome = true)
  obtain ⟨middle, reached, continued⟩ := LabelledRun.run_append_iff.mp ran
  cases Option.some.inj (stopped.symm.trans reached)
  exact neverLost 640 480 before after returned final (by decide) stopped continued
    (by decide) 1 (by decide)

end World

end UsbCamera
