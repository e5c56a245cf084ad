import UsbCamera.MutexExclusion
import UsbCamera.BufferOwnership

/-!
# The window a preview is drawn to

`drawPreviewSurface` takes its window from `mPreviewSurface` before it locks
`mPreviewLock`, and tests `mPreviewSurface` itself after it has the lock.  The window is
the tested surface, and not `NULL`, exactly when no setter has put another surface there
in between.
-/

namespace UsbCamera

/-- What the local window is worth at a point, with `mPreviewSurface` as it is now: once
the test has passed it is the current surface. -/
def PreviewPc.Current (mPreviewSurface : Option Surface) : PreviewPc → Prop
  | .testSurface nativeWindow => mPreviewSurface = none ∨ mPreviewSurface = nativeWindow
  | .allocScratch nativeWindow | .convert nativeWindow | .configure nativeWindow
  | .dequeue nativeWindow | .lockBuffer nativeWindow | .copy nativeWindow _
  | .unlockBuffer nativeWindow | .queue nativeWindow =>
      nativeWindow ≠ none ∧ nativeWindow = mPreviewSurface
  | _ => True

namespace PreviewPc

/-- Outside the section under `mPreviewLock` nothing is promised. -/
theorem current_of_holds {pc : PreviewPc} (outside : pc.holds = none)
    (mPreviewSurface : Option Surface) : pc.Current mPreviewSurface := by
  cases pc <;> trivial

/-- The calls on the local window are made on the current surface. -/
theorem window_of_next {pc after : PreviewPc} {surface : Option Surface} {called : WindowCall}
    {mPreviewSurface : Option Surface} (current : pc.Current mPreviewSurface)
    (moved : pc.next (.window surface called) = some after) :
    surface ≠ none ∧ surface = mPreviewSurface := by
  unfold PreviewPc.next at moved
  split at moved
  case h_17 => cases moved
  all_goals rename_i performed
  all_goals cases performed
  all_goals split at moved
  all_goals first
    | cases moved; done
    | rename_i same; rw [same]; exact current

/-- A step of the draw keeps the window current, provided `mPreviewSurface` is `NULL` or
the window when the lock is taken. -/
theorem current_of_next {pc after : PreviewPc} {camera camera' : Camera} {thread : ThreadId}
    {action : Action} (moved : pc.next action = some after)
    (applied : camera.apply thread action = some camera')
    (keeps : ∀ nativeWindow, pc = .lock nativeWindow →
      camera.mPreviewSurface = none ∨ camera.mPreviewSurface = nativeWindow)
    (current : pc.Current camera.mPreviewSurface) : after.Current camera'.mPreviewSurface := by
  have same : camera'.mPreviewSurface = camera.mPreviewSurface := by
    apply Camera.mPreviewSurface_of_apply applied
    rintro surface rfl
    cases draws_of_next moved
  rw [same]
  unfold PreviewPc.next at moved
  split at moved
  case h_2 nativeWindow =>
      cases moved
      exact keeps nativeWindow rfl
  case h_4 nativeWindow surface =>
      -- the test has passed: `mPreviewSurface` is not `NULL`
      cases moved
      have tested := Camera.of_readPreview applied
      simp only [Current, ← tested] at current ⊢
      rcases current with null | kept
      · cases null
      · simp [← kept]
  all_goals (repeat' split at moved)
  all_goals cases moved
  all_goals trivial

end PreviewPc

namespace World

/-- When a draw takes `mPreviewLock`, `mPreviewSurface` is `NULL` or still the surface the
draw has read before. -/
def KeepsWindow (world : World) (event : Event) : Prop :=
  match world.threads event.1, event.2 with
  | .capturing _ (.preview (.lock nativeWindow)), .lock _ =>
      world.camera.mPreviewSurface = none ∨ world.camera.mPreviewSurface = nativeWindow
  | _, _ => True

instance (world : World) (event : Event) : Decidable (KeepsWindow world event) :=
  decidable_of_iff
    ((match world.threads event.1, event.2 with
      | .capturing _ (.preview (.lock nativeWindow)), .lock _ =>
          decide (world.camera.mPreviewSurface = none ∨
            world.camera.mPreviewSurface = nativeWindow)
      | _, _ => true) = true) <| by
    unfold KeepsWindow
    split <;> simp

/-- A preview is drawn to a window that is the current surface. -/
def DrawsCurrent (world : World) (event : Event) : Prop :=
  match event.2 with
  | .window surface called =>
      called.mutex = .previewLock →
        surface ≠ none ∧ surface = world.camera.mPreviewSurface
  | _ => True

instance (world : World) (event : Event) : Decidable (DrawsCurrent world event) :=
  decidable_of_iff
    ((match event.2 with
      | .window surface called =>
          decide (called.mutex = .previewLock →
            surface ≠ none ∧ surface = world.camera.mPreviewSurface)
      | _ => true) = true) <| by
    unfold DrawsCurrent
    split <;> simp [imp_iff_not_or]

/-- Every draw that is past its test has the current surface. -/
structure WindowsCurrent (world : World) : Prop where
  sections : SectionsExclusive world
  current : ∀ thread first pc, world.threads thread = .capturing first (.preview pc) →
    pc.Current world.camera.mPreviewSurface

theorem windowsCurrent_attached (width height : Int) :
    WindowsCurrent (attached width height) := by
  refine ⟨sectionsExclusive_attached width height, ?_⟩
  intro thread first pc drawing
  cases drawing

section Steps

variable {world next : World} {thread : ThreadId} {action : Action}

/-- While a draw is inside its section nobody else writes `mPreviewSurface`. -/
theorem WindowsCurrent.of_other (windows : WindowsCurrent world) {drawer : ThreadId}
    {first : Bool} {pc : PreviewPc}
    (drawing : world.threads drawer = .capturing first (.preview pc)) (other : drawer ≠ thread)
    (stepped : world.step (thread, action) = some next) :
    pc.Current next.camera.mPreviewSurface := by
  cases held : pc.holds with
  | none => exact PreviewPc.current_of_holds held _
  | some mutex =>
      have holds : (world.threads drawer).holds = some mutex := by
        rw [drawing]
        exact held
      have preview : mutex = .previewLock := by
        cases pc <;> simp_all [PreviewPc.holds]
      have same : next.camera.mPreviewSurface = world.camera.mPreviewSurface := by
        apply Camera.mPreviewSurface_of_apply (camera_of_step stepped)
        rintro surface rfl
        have writer := Pc.guarded_of_move (move_of_step stepped) rfl
        exact other (windows.sections.same (preview ▸ holds) writer)
      rw [same]
      exact windows.current drawer first pc drawing

theorem WindowsCurrent.step (windows : WindowsCurrent world)
    (keeps : KeepsWindow world (thread, action))
    (stepped : world.step (thread, action) = some next) : WindowsCurrent next := by
  refine ⟨windows.sections.step stepped, ?_⟩
  intro drawer first after drawing
  by_cases mover : drawer = thread
  · subst mover
    have move := move_of_step stepped
    rw [drawing] at move
    obtain ⟨before, outer, placed, inside⟩ := Pc.capturing_of_move move
    rcases inside.preview_after with rfl | ⟨pc, rfl, drawn⟩
    · trivial
    · refine PreviewPc.current_of_next drawn (camera_of_step stepped) ?_
        (windows.current drawer before pc placed)
      rintro nativeWindow rfl
      cases action with
      | lock mutex => simpa [KeepsWindow, placed] using keeps
      | _ => cases drawn
  · rcases other_of_step stepped mover with same | ⟨-, -, begun⟩
    · rw [same] at drawing
      exact windows.of_other drawing mover stepped
    · rw [begun] at drawing
      cases drawing

/-- What the invariant says of the window calls of a step. -/
theorem WindowsCurrent.drawsCurrent (windows : WindowsCurrent world)
    (stepped : world.step (thread, action) = some next) :
    DrawsCurrent world (thread, action) := by
  cases action with
  | window surface called =>
      intro preview
      have move := move_of_step stepped
      generalize placed : world.threads thread = pc at move
      generalize next.threads thread = pc' at move
      cases move with
      | opening inner => cases inner.own
      | @capturing first _ pc _ _ inner =>
          cases inner with
          | preview drawn =>
              exact PreviewPc.window_of_next (windows.current thread first _ placed) drawn
          | @encoder pc _ _ drawn =>
              have held := EncoderPc.guarded_of_next drawn rfl
              rw [preview] at held
              cases pc <;> cases held
      | surface inner => cases SurfacePc.own_of_next inner
  | _ => trivial

/-- Neither draw calls a `NULL` window. -/
theorem WindowsCurrent.window_ne_none (windows : WindowsCurrent world)
    {surface : Option Surface} {called : WindowCall}
    (stepped : world.step (thread, .window surface called) = some next) : surface ≠ none := by
  have move := move_of_step stepped
  generalize placed : world.threads thread = pc at move
  generalize next.threads thread = pc' at move
  cases move with
  | opening inner => cases inner.own
  | @capturing first _ pc _ _ inner =>
      cases inner with
      | preview drawn =>
          exact (PreviewPc.window_of_next (windows.current thread first _ placed) drawn).1
      | encoder drawn => cases EncoderPc.move_of_next drawn <;> simp
  | surface inner => cases SurfacePc.own_of_next inner

theorem windowsCurrent_of_run {width height : Int} {events : List Event} {final : World}
    (keeps : EveryStep KeepsWindow (attached width height) events)
    (ran : run (attached width height) events = some final) : WindowsCurrent final := by
  refine LabelledRun.invariant_of_run ?_ (windowsCurrent_attached width height) keeps ran
  rintro before ⟨mover, action⟩ after windows keeps stepped
  exact windows.step keeps stepped

/-- No draw is about to copy to a pointer that a failing `mapper.lock` has not set. -/
def CopiesLocked (world : World) : Prop :=
  ∀ thread first window, world.threads thread ≠ .capturing first (.preview (.copy window false))

theorem CopiesLocked.step (copies : CopiesLocked world) (locks : action.locks = true)
    (stepped : world.step (thread, action) = some next) : CopiesLocked next := by
  intro drawer first window drawing
  by_cases mover : drawer = thread
  · subst mover
    have move := move_of_step stepped
    rw [drawing] at move
    obtain ⟨before, outer, -, inside⟩ := Pc.capturing_of_move move
    rcases inside.preview_after with contra | ⟨pc, -, drawn⟩
    · cases contra
    · cases PreviewPc.move_of_next drawn
      cases locks
  · rcases other_of_step stepped mover with same | ⟨-, -, begun⟩
    · exact copies drawer first window (same ▸ drawing)
    · rw [begun] at drawing
      cases drawing

theorem copiesLocked_of_run {width height : Int} {events : List Event} {final : World}
    (locks : ∀ event ∈ events, event.2.locks = true)
    (ran : run (attached width height) events = some final) : CopiesLocked final := by
  refine LabelledRun.invariant_of_run ?_ (fun thread first window drawing => by cases drawing)
    (LabelledRun.everyStep_of_forall_mem locks) ran
  rintro before ⟨mover, action⟩ after copies locks stepped
  exact copies.step locks stepped

end Steps

/-! ## Every interleaving -/

/-- No event draws a preview on the surface. -/
def NeverDrawnOn (surface : Surface) (events : List Event) : Prop :=
  ∀ thread called, called.mutex = .previewLock →
    (thread, Action.window (some surface) called) ∉ events

/-- Once a setter has replaced a surface, no preview is drawn on it until it is set again. -/
def ReplacedForGood (initial : World) (events : List Event) : Prop :=
  ∀ before setter surface after world replaced,
    events = before ++ (setter, .writePreview surface) :: after →
    run initial before = some world → world.camera.mPreviewSurface = some replaced →
    surface ≠ some replaced →
    (∀ event ∈ after, event.2 ≠ .writePreview (some replaced)) → NeverDrawnOn replaced after

/-- While the surface is not set again, a run whose draws are current does not draw on
it. -/
theorem neverDrawnOn_of_drawsCurrent {world final : World} {surface : Surface}
    {events : List Event} (current : EveryStep DrawsCurrent world events)
    (ran : run world events = some final) (replaced : world.camera.mPreviewSurface ≠ some surface)
    (notSet : ∀ event ∈ events, event.2 ≠ .writePreview (some surface)) :
    NeverDrawnOn surface events := by
  induction events generalizing world with
  | nil => simp [NeverDrawnOn]
  | cons event events ih =>
      obtain ⟨mover, action⟩ := event
      obtain ⟨next, stepped, rest⟩ := LabelledRun.run_cons_iff.mp ran
      have applied := camera_of_step stepped
      rw [EveryStep, LabelledRun.everyStep_cons_iff] at current
      have still : next.camera.mPreviewSurface ≠ some surface := by
        by_cases writes : ∃ other, action = .writePreview other
        · obtain ⟨other, rfl⟩ := writes
          rw [← Option.some.inj applied]
          rintro rfl
          exact notSet (mover, _) List.mem_cons_self rfl
        · rw [Camera.mPreviewSurface_of_apply applied fun other written => writes ⟨other, written⟩]
          exact replaced
      intro thread called preview member
      rcases List.mem_cons.mp member with here | later
      · cases here
        exact replaced (current.1 preview).2.symm
      · exact ih (current.2 next stepped) rest still
          (fun other member => notSet other (by simp [member])) thread called preview later

/-- In every run whose draws find `mPreviewSurface` unchanged, or `NULL`, when they take
`mPreviewLock`, a preview is only ever drawn to the current surface, and never to one that
has been replaced. -/
theorem previewDrawsCurrent_of_keepsWindow {width height : Int} {events : List Event}
    {final : World} (ran : run (attached width height) events = some final)
    (keeps : EveryStep KeepsWindow (attached width height) events) :
    EveryStep DrawsCurrent (attached width height) events ∧
      ReplacedForGood (attached width height) events := by
  have current : EveryStep DrawsCurrent (attached width height) events := by
    refine LabelledRun.everyStep_of_invariant ?_ ?_ (windowsCurrent_attached width height)
      keeps ran
    · rintro world ⟨thread, action⟩ next windows keeps stepped
      exact windows.step keeps stepped
    · rintro world ⟨thread, action⟩ next windows keeps stepped
      exact windows.drawsCurrent stepped
  refine ⟨current, ?_⟩
  rintro before setter surface after world replaced rfl reached held other notSet
  obtain ⟨middle, next, arrived, stepped, finished⟩ := LabelledRun.run_append_cons_iff.mp ran
  cases Option.some.inj (reached.symm.trans arrived)
  rw [EveryStep, LabelledRun.everyStep_append_iff reached,
    LabelledRun.everyStep_cons_iff] at current
  have written : next.camera.mPreviewSurface = surface := by
    rw [← Option.some.inj (camera_of_step stepped)]
  exact neverDrawnOn_of_drawsCurrent (current.2.2 next stepped) finished
    (written ▸ other) notSet

/-- A frame previewed on a surface that stays. -/
theorem previewDrawsCurrent_previewedFrame :
    EveryStep DrawsCurrent (attached 640 480) (startEvents 5 1 ++ previewedFrameEvents) ∧
      ReplacedForGood (attached 640 480) (startEvents 5 1 ++ previewedFrameEvents) := by
  obtain ⟨final, ran⟩ := Option.isSome_iff_exists.mp
    (by decide : (run (attached 640 480) (startEvents 5 1 ++ previewedFrameEvents)).isSome = true)
  exact previewDrawsCurrent_of_keepsWindow ran (by decide +kernel)

/-- The capture thread reads `NULL`, the user thread sets a surface, and the capture thread
goes on: the test passes and the window is still `NULL`. -/
def setBeforeLockEvents : List Event :=
  startEvents 5 1 ++ captureToDequeueEvents 5 1 (.filled 2) ++ [(1, .readPreview none)] ++
    setPreviewEvents 7 ++
    [.lock .previewLock, .readPreview (some 7), .allocScratch .yuv420sp, .convert .yuv420sp 2,
      .window none .configure].map fun action => (1, action)

theorem not_previewDrawsCurrent :
    ¬ ∀ (width height : Int) (events : List Event) (final : World),
      run (attached width height) events = some final →
      EveryStep DrawsCurrent (attached width height) events ∧
        ReplacedForGood (attached width height) events := by
  intro always
  obtain ⟨final, ran⟩ := Option.isSome_iff_exists.mp
    (by decide : (run (attached 640 480) setBeforeLockEvents).isSome = true)
  have current := (always 640 480 setBeforeLockEvents final ran).1
  exact absurd current (by decide)

end World

end UsbCamera
