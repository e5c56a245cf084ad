import UsbCamera.CaptureWindDown

/-!
# How long a native mutex is held

The setters wait while a frame is drawn, and a draw waits while a setter writes.  Until the
camera is released neither wait is long: a section takes no other lock and calls no Java, its
owner can execute its next statement as long as the draws find their windows, and the statements
of a section are as many as the draw has left, four for each encoder surface in the list.
-/

namespace UsbCamera

/-- At most so many statements of a setter are left in its section. -/
def SurfacePc.left : SurfacePc → Nat
  | .apply _ => 2
  | .unlock _ => 1
  | _ => 0

/-- At most so many statements are left in the section a thread is inside, with its `unlock`. -/
def Pc.sectionLeft (count : Nat) : Pc → Nat
  | .capturing _ (.preview pc) => pc.left
  | .capturing _ (.encoder pc) => pc.left count
  | .surface pc => pc.left
  | _ => 0

/-- The length of the longest section of a mutex, with `count` encoder surfaces. -/
def Mutex.longest (count : Nat) : Mutex → Nat
  | .previewLock => 10
  | .encoderLock => 4 * count + 5

theorem Mutex.two_le_longest (count : Nat) (mutex : Mutex) : 2 ≤ mutex.longest count := by
  cases mutex <;> simp only [longest] <;> omega

namespace Pc

theorem sectionLeft_pos {count : Nat} {pc : Pc} {mutex : Mutex}
    (held : pc.holds = some mutex) : 0 < pc.sectionLeft count := by
  cases pc with
  | capturing first inner =>
      cases inner with
      | preview drawing =>
          cases drawing <;> cases held <;> simp [sectionLeft, PreviewPc.left]
      | encoder drawing =>
          cases drawing <;> cases held <;> simp [sectionLeft, EncoderPc.left]
      | _ => cases held
  | surface inner => cases inner <;> cases held <;> simp [sectionLeft, SurfacePc.left]
  | _ => cases held

theorem sectionLeft_le (count : Nat) {pc : Pc} {mutex : Mutex}
    (held : pc.holds = some mutex) : pc.sectionLeft count ≤ mutex.longest count := by
  cases pc with
  | capturing first inner =>
      cases inner with
      | preview drawing =>
          cases drawing <;> cases held <;> simp [sectionLeft, PreviewPc.left, Mutex.longest]
      | encoder drawing =>
          cases drawing <;> cases held <;>
            simp only [sectionLeft, EncoderPc.left, Mutex.longest] <;> omega
      | _ => cases held
  | surface inner =>
      have two := Mutex.two_le_longest count mutex
      cases inner with
      | apply | unlock =>
          simp only [sectionLeft, SurfacePc.left]
          omega
      | _ => cases held
  | _ => cases held

/-- Every statement of a section leaves fewer of them, until the mutex is given back. -/
theorem sectionLeft_lt {count : Nat} {pc pc' : Pc} {action : Action} {mutex : Mutex}
    (move : Move pc action pc') (held : pc.holds = some mutex) (still : pc'.holds = some mutex)
    (within : action.Within count) : pc'.sectionLeft count < pc.sectionLeft count := by
  cases move with
  | @capturing first first' inner inner' _ move =>
      cases move with
      | @preview drawing after _ drawn =>
          have fewer := (PreviewPc.move_of_next drawn).left_lt
          by_cases returned : after = .returned
          · subst returned
            cases still
          · simpa [returned, afterCapture, sectionLeft] using fewer
      | @encoder drawing after _ drawn =>
          have fewer := (EncoderPc.move_of_next drawn).left_lt within
          by_cases returned : after = .returned
          · subst returned
            cases still
          · simpa [returned, afterCapture, sectionLeft] using fewer
      | _ => cases held
  | surface drawn =>
      cases SurfacePc.move_of_next drawn with
      | apply => exact Nat.one_lt_two
      | unlockPreview | unlockAdded | unlockRemoved => cases still
      | _ => cases held
  | _ => cases held

end Pc

namespace World

section Sections

variable {world next final : World} {thread mover : ThreadId} {action : Action} {count : Nat}
  {mutex : Mutex} {events : List Event}

/-- A step leaves the owner of a mutex inside its section, with fewer statements left when it is
its own, unless it gives the mutex back. -/
theorem holds_of_step (held : (world.threads thread).holds = some mutex)
    (few : AtMost count world) (notBack : (mover, action) ≠ (thread, .unlock mutex))
    (stepped : world.step (mover, action) = some next) :
    (next.threads thread).holds = some mutex ∧
      (next.threads thread).sectionLeft count + (if mover = thread then 1 else 0) ≤
        (world.threads thread).sectionLeft count := by
  by_cases own : mover = thread
  · subst own
    have locking := lockStep_of_step stepped
    rw [held] at locking
    have still : (next.threads mover).holds = some mutex := by
      generalize (next.threads mover).holds = after at locking
      cases locking with
      | unlock => exact absurd rfl notBack
      | keep => rfl
    have fewer := Pc.sectionLeft_lt (move_of_step stepped) held still (within_of_step few stepped)
    refine ⟨still, ?_⟩
    rw [if_pos rfl]
    exact fewer
  · rcases other_of_step stepped (Ne.symm own) with same | ⟨-, idle, -⟩
    · rw [same]
      exact ⟨held, by simp [own]⟩
    · rw [idle] at held
      cases held

theorem ownSteps_of_holds (held : (world.threads thread).holds = some mutex)
    (few : EveryStep (fun state _ => AtMost count state) world events)
    (notBack : (thread, .unlock mutex) ∉ events) (ran : run world events = some final) :
    (final.threads thread).holds = some mutex ∧
      ownSteps thread events + (final.threads thread).sectionLeft count ≤
        (world.threads thread).sectionLeft count := by
  induction events generalizing world with
  | nil =>
      cases Option.some.inj ran
      exact ⟨held, by simp⟩
  | cons event events ih =>
      obtain ⟨mover, action⟩ := event
      obtain ⟨next, stepped, onward⟩ := LabelledRun.run_cons_iff.mp ran
      rw [EveryStep, LabelledRun.everyStep_cons_iff] at few
      have differs : (mover, action) ≠ (thread, .unlock mutex) := fun same =>
        notBack (same ▸ List.mem_cons_self)
      obtain ⟨still, fewer⟩ := holds_of_step held few.1 differs stepped
      obtain ⟨atEnd, rest⟩ := ih still (few.2 next stepped)
        (fun member => notBack (List.mem_cons_of_mem _ member)) onward
      refine ⟨atEnd, ?_⟩
      simp only [ownSteps_cons]
      omega

end Sections

/-- The owner of a mutex keeps it for no more than a few of its own statements, and can execute
the next one. -/
structure GivesBack (mutex : Mutex) (thread : ThreadId) (count : Nat) (events : List Event)
    (final : World) : Prop where
  held : final.camera.holder mutex = some thread
  bounded : ownSteps thread events < mutex.longest count
  executes : final.Executes thread

section Results

variable {start final : World} {thread : ThreadId} {mutex : Mutex} {count : Nat}
  {earlier events : List Event}

/-- The capture thread is inside its second draw when a setter comes to the lock. -/
def drawingEvents : List Event :=
  startEvents 5 1 ++ captureToSelectEvents 5 1 ++
    ([.recheck true, .clearBufInfo, .dequeueBuf 5 (.filled 2), .notify .firstCapture,
      .readPreview none, .lock .previewLock, .readPreview none, .freeScratch .yuv420sp,
      .unlock .previewLock, .lock .encoderLock].map fun action => (1, action)) ++
    [(userThread, .call (.removeEncoder (some 9))), (userThread, .getCamera true),
      (userThread, .surfaceValid true)]

end Results

end World

end UsbCamera
