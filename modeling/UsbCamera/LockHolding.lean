import UsbCamera.LockOrder

/-!
# How often `mClientLock` is held

The lock counts the sections its owner is inside, and every access to the list of clients is
made by that owner.  While the callbacks of the clients return, one way out of a section gives
nothing back: the exception of an iterator whose list has been modified leaves a notification
with the lock held.  What is never given back is counted here as abandoned, and it is the only
thing that can then bring the threads to a standstill.
-/

namespace UsbCamera

/-! ## Sections -/

/-- The action takes `mClientLock`. -/
def JavaAction.enters : JavaAction → Bool
  | .lockClients => true
  | _ => false

/-- The action calls `addClient` or `removeClient`. -/
def JavaAction.registers : JavaAction → Bool
  | .enter (.update _ _) => true
  | _ => false

/-- The exception leaves a notification without `unlock()`. -/
def JavaAction.abandons : JavaAction → Bool
  | .loopStale _ => true
  | _ => false

/-- The action ends a section, with or without giving the lock back. -/
def JavaAction.exits : JavaAction → Bool
  | .unlockClients | .loopStale _ => true
  | _ => false

namespace Activation

/-- Between `lock()` and `unlock()`. -/
def inSection : Activation → Bool
  | .update _ _ pc => pc ≠ .lock
  | .notify _ pc => pc ≠ .lock
  | .native _ | .callback => false

/-- The sections a stack is inside. -/
def sections (stack : List Activation) : Nat :=
  stack.countP inSection

@[simp]
theorem sections_nil : sections [] = 0 :=
  rfl

@[simp]
theorem sections_cons (frame : Activation) (stack : List Activation) :
    sections (frame :: stack) = sections stack + frame.inSection.toNat := by
  simp only [sections, List.countP_cons]
  cases frame.inSection <;> rfl

@[simp]
theorem sections_append (above below : List Activation) :
    sections (above ++ below) = sections above + sections below :=
  List.countP_append

@[simp]
theorem sections_afterNative (pc : Pc) (action : Action) :
    sections (afterNative pc action) = 0 := by
  cases action <;> rfl

@[simp]
theorem inSection_activation (call : JavaCall) : call.activation.inSection = false := by
  cases call <;> rfl

theorem inSection_afterIsEncoder (method : ClientMethod) (client : ClientId) (encoder : Bool) :
    inSection (.update method client (method.afterIsEncoder encoder)) = true := by
  cases method <;> cases encoder <;> rfl

/-- A section is entered with `lock()`, and ended with `unlock()` or the exception. -/
theorem Move.sections_eq {frame : Activation} {action : JavaAction} {frames : List Activation}
    (move : Move frame action frames) :
    sections frames + action.exits.toNat = frame.inSection.toNat + action.enters.toNat := by
  cases move with
  | native => simp [inSection, JavaAction.exits, JavaAction.enters]
  | isEncoder =>
      simp only [sections_cons, sections_nil, inSection_afterIsEncoder]
      rfl
  | clientCalls =>
      simp only [sections_cons, sections_nil, inSection_activation]
      rfl
  | _ => rfl

theorem sections_of_nextStack {stack after : List Activation} {action : JavaAction}
    (moved : App.nextStack stack action = some after) :
    sections after + action.exits.toNat = sections stack + action.enters.toNat := by
  cases stack with
  | nil =>
      cases action with
      | enter call =>
          rw [← Option.some.inj moved]
          simp [JavaAction.exits, JavaAction.enters]
      | _ => cases moved
  | cons frame rest =>
      obtain ⟨frames, topMoved, rfl⟩ := Option.map_eq_some_iff.mp moved
      have balanced := (move_of_next topMoved).sections_eq
      simp only [sections_append, sections_cons]
      omega

end Activation

namespace App

open Activation (sections topHolds)

/-! ## The hold count -/

/-- How often a thread holds the lock. -/
def holds (thread : ThreadId) : Option (ThreadId × Nat) → Nat
  | none => 0
  | some (owner, count) => if owner = thread then count else 0

/-- A lock that is owned is held. -/
def OwnedIsHeld (lock : Option (ThreadId × Nat)) : Prop :=
  ∀ owner count, lock = some (owner, count) → 0 < count

theorem holds_of_lockClients {thread : ThreadId} {lock held : Option (ThreadId × Nat)}
    (taken : lockClients thread lock = some held) :
    holds thread held = holds thread lock + 1 ∧
      (∀ other, other ≠ thread → holds other held = holds other lock) ∧ OwnedIsHeld held := by
  cases lock with
  | none =>
      cases Option.some.inj taken
      refine ⟨by simp [holds], fun other distinct => by simp [holds, Ne.symm distinct], ?_⟩
      rintro owner count ⟨⟩
      exact Nat.one_pos
  | some holding =>
      obtain ⟨owner, count⟩ := holding
      obtain ⟨rfl, placed⟩ := Option.ite_none_right_eq_some.mp taken
      cases placed
      refine ⟨by simp [holds], fun other distinct => by simp [holds, Ne.symm distinct], ?_⟩
      rintro owner count ⟨⟩
      exact Nat.succ_pos _

theorem holds_of_unlockClients {thread : ThreadId} {lock held : Option (ThreadId × Nat)}
    (owned : OwnedIsHeld lock) (given : unlockClients thread lock = some held) :
    holds thread held + 1 = holds thread lock ∧
      (∀ other, other ≠ thread → holds other held = holds other lock) ∧ OwnedIsHeld held := by
  cases lock with
  | none => cases given
  | some holding =>
      obtain ⟨owner, count⟩ := holding
      have positive := owned owner count rfl
      obtain ⟨rfl, placed⟩ := Option.ite_none_right_eq_some.mp given
      rw [← Option.some.inj placed]
      by_cases last : count = 1
      · refine ⟨by simp [holds, last], fun other distinct => ?_, by simp [last, OwnedIsHeld]⟩
        simp [holds, last, Ne.symm distinct]
      · refine ⟨?_, fun other distinct => by simp [holds, last, Ne.symm distinct], ?_⟩
        · simp only [holds, last, if_false, if_true]
          omega
        · simp only [last, if_false]
          rintro owner remaining ⟨⟩
          omega

/-- How often the thread holds `mClientLock`. -/
def holdCount (app : App) (thread : ThreadId) : Nat :=
  holds thread app.mClientLock

/-- The notifications a thread has left through the exception. -/
def abandoned (events : List (ThreadId × JavaAction)) (thread : ThreadId) : Nat :=
  events.countP fun event => event.1 = thread ∧ event.2.abandons

@[simp]
theorem abandoned_append (before after : List (ThreadId × JavaAction)) (thread : ThreadId) :
    abandoned (before ++ after) thread = abandoned before thread + abandoned after thread :=
  List.countP_append

theorem abandoned_singleton (mover thread : ThreadId) (action : JavaAction) :
    abandoned [(mover, action)] thread =
      if mover = thread then action.abandons.toNat else 0 := by
  by_cases same : mover = thread <;> cases abandons : action.abandons <;>
    simp [abandoned, same, abandons]

/-- The lock counts what its owner is inside of and what it has abandoned. -/
structure Counted (events : List (ThreadId × JavaAction)) (app : App) : Prop where
  held : ∀ thread,
    app.holdCount thread = sections (app.stackOf thread) + abandoned events thread
  owned : OwnedIsHeld app.mClientLock

section Steps

variable {app next : App} {thread capture : ThreadId} {action : JavaAction}
  {events : List (ThreadId × JavaAction)}

theorem Begins.counted (begins : Begins app capture) : Counted [] app := by
  constructor
  · intro thread
    rcases begins.stack thread with capturing | idle
    · rw [capturing, holdCount, begins.clients]
      rfl
    · rw [idle, holdCount, begins.clients]
      rfl
  · intro owner count taken
    rw [begins.clients] at taken
    cases taken

theorem holdCount_pos_iff (counted : Counted events app) :
    0 < app.holdCount thread ↔ ∃ count, app.mClientLock = some (thread, count) := by
  unfold holdCount
  cases taken : app.mClientLock with
  | none => simp [holds]
  | some held =>
      obtain ⟨owner, count⟩ := held
      have positive := counted.owned owner count taken
      by_cases same : owner = thread <;> simp [holds, same, positive]

/-- `lock()` adds one to the holds of its thread, `unlock()` takes one away. -/
theorem holdCount_of_step (counted : Counted events app)
    (stepped : app.step (thread, action) = some next) :
    (next.holdCount thread + action.exits.toNat =
      app.holdCount thread + action.enters.toNat + action.abandons.toNat) ∧
    (∀ other, other ≠ thread → next.holdCount other = app.holdCount other) ∧
    OwnedIsHeld next.mClientLock := by
  obtain ⟨shared, applied, -, -, -, -, same⟩ := applied_of_step stepped
  unfold holdCount
  rw [same]
  cases update_of_apply applied with
  | native | changed => exact ⟨rfl, fun _ _ => rfl, counted.owned⟩
  | observed observes =>
      refine ⟨?_, fun _ _ => rfl, counted.owned⟩
      cases action with
      | lockClients | unlockClients => cases observes
      | _ => rfl
  | locked taken =>
      obtain ⟨own, others, owned⟩ := holds_of_lockClients taken
      exact ⟨own, others, owned⟩
  | unlocked given =>
      obtain ⟨own, others, owned⟩ := holds_of_unlockClients counted.owned given
      exact ⟨own, others, owned⟩

theorem Counted.step (counted : Counted events app)
    (stepped : app.step (thread, action) = some next) :
    Counted (events ++ [(thread, action)]) next := by
  obtain ⟨own, others, owned⟩ := holdCount_of_step counted stepped
  refine ⟨fun other => ?_, owned⟩
  have before := counted.held other
  rw [abandoned_append, abandoned_singleton]
  by_cases mover : thread = other
  · subst mover
    have balanced := Activation.sections_of_nextStack (moved_of_step stepped)
    rw [if_pos rfl]
    omega
  · rw [if_neg mover, others other (Ne.symm mover), other_of_step stepped (Ne.symm mover)]
    exact before

theorem counted_of_run {final : App} (begins : Begins app capture)
    (ran : run app events = some final) : Counted events final := by
  refine LabelledRun.history_of_run ?_ begins.counted
    (LabelledRun.everyStep_of_forall_mem fun event _ => (trivial : True)) ran
  rintro before state ⟨mover, action⟩ after counted - stepped
  exact counted.step stepped

end Steps

/-- What the lock says of the threads after these events. -/
structure HeldAsEntered (events : List (ThreadId × JavaAction)) (app : App) : Prop where
  count : ∀ thread,
    app.holdCount thread = sections (app.stackOf thread) + abandoned events thread
  exclusive : ∀ thread other, 0 < app.holdCount thread → thread ≠ other →
    sections (app.stackOf other) = 0 ∧ abandoned events other = 0
  free_iff : app.mClientLock = none ↔
    ∀ thread, sections (app.stackOf thread) = 0 ∧ abandoned events thread = 0

section Results

variable {app final : App} {thread capture : ThreadId} {events : List (ThreadId × JavaAction)}

theorem Counted.exclusive (counted : Counted events app) {other : ThreadId}
    (holds : 0 < app.holdCount thread) (distinct : thread ≠ other) :
    sections (app.stackOf other) = 0 ∧ abandoned events other = 0 := by
  obtain ⟨count, taken⟩ := (holdCount_pos_iff counted).mp holds
  have none : app.holdCount other = 0 := by
    rw [holdCount, taken]
    exact if_neg distinct
  have entered := counted.held other
  omega

/-- In every reachable state `mClientLock` is held as often as its owner is inside its sections
or has abandoned one, and nobody else is inside any. -/
theorem heldAsEntered_of_run (begins : Begins app capture)
    (ran : run app events = some final) : HeldAsEntered events final := by
  have counted := counted_of_run begins ran
  refine ⟨counted.held, fun _ _ holds distinct => counted.exclusive holds distinct, ?_, ?_⟩
  · intro free thread
    have entered := counted.held thread
    rw [holdCount, free] at entered
    simp only [holds] at entered
    omega
  · intro left
    cases taken : final.mClientLock with
    | none => rfl
    | some holding =>
        obtain ⟨owner, count⟩ := holding
        have holds := (holdCount_pos_iff counted).mpr ⟨count, taken⟩
        have entered := counted.held owner
        obtain ⟨outside, kept⟩ := left owner
        omega

/-- The first capture tells its only client, which registers another one from the callback; the
loop then finds the list modified. -/
def abandonedEvents : List (ThreadId × JavaAction) :=
  [.enter (.update .addClient 4), .lockClients, .changeList .addClient 4, .callBack, .leave,
    .answerIsEncoder false, .callBack, .leave, .answerGetSurface none, .callNative,
    .native (.getCamera true), .native (.lock .previewLock), .native (.writePreview none),
    .native (.unlock .previewLock), .leave, .unlockClients].map (fun action => (0, action)) ++
  [.native (.getCamera true), .native (.readFd 5), .native (.writePeek true),
    .native (.loopTest true), .native (.readFd 5), .native (.select 5 1 0),
    .native (.recheck true), .native .clearBufInfo, .native (.dequeueBuf 5 (.filled 2)),
    .native (.notify .firstCapture), .lockClients, .iterator ⟨0, 1⟩, .loopNext ⟨0, 1⟩ 4,
    .enter (.update .addClient 6), .lockClients, .changeList .addClient 6, .callBack, .leave,
    .answerIsEncoder false, .callBack, .leave, .answerGetSurface none, .callNative,
    .native (.getCamera true), .native (.lock .previewLock), .native (.writePreview none),
    .native (.unlock .previewLock), .leave, .unlockClients, .leave,
    .loopStale ⟨1, 1⟩].map fun action => (1, action)

theorem heldAsEntered_abandoned :
    ∃ final, run (opened 5 1) abandonedEvents = some final ∧
      HeldAsEntered abandonedEvents final := by
  obtain ⟨final, ran⟩ := Option.isSome_iff_exists.mp
    (by decide : (run (opened 5 1) abandonedEvents).isSome = true)
  exact ⟨final, ran, heldAsEntered_of_run (begins_opened 5 1) ran⟩

end Results

end App

/-! ## Accesses under a lock -/

/-- A lock of the Java or of the native object. -/
inductive Guard
  | clients
  | native (mutex : Mutex)
  deriving DecidableEq

/-- The lock under which an action is performed.  `mPreviewSurface` is also read before
`mPreviewLock` is taken, and the size of `mEncoderSurfaces` after `mEncoderLock` is given
back. -/
def JavaAction.guard : JavaAction → Option Guard
  | .native action => action.guard.map .native
  | .changeList _ _ | .iterator _ | .loopNext _ _ | .loopEnd _ | .loopStale _ => some .clients
  | _ => none

namespace App

/-- The thread owns the lock. -/
def Owns (app : App) (thread : ThreadId) : Guard → Prop
  | .clients => ∃ count, app.mClientLock = some (thread, count)
  | .native mutex => app.camera.holder mutex = some thread

/-- The next step of the thread reads `mPreviewSurface` without the lock. -/
def TakesWindow (app : App) (thread : ThreadId) : Prop :=
  ∃ first rest, app.stackOf thread = .native (.capturing first (.preview .takeWindow)) :: rest

/-- The step touches what is shared under its lock. -/
structure Guarded (app : App) (event : ThreadId × JavaAction) : Prop where
  owns : ∀ guard ∈ event.2.guard, app.Owns event.1 guard
  readsPreview : ∀ surface, event.2 = .native (.readPreview surface) →
    app.Owns event.1 (.native .previewLock) ∨ app.TakesWindow event.1

end App

namespace Activation

/-- The list of clients is used inside a section. -/
theorem Move.inSection_of_guard {frame : Activation} {action : JavaAction}
    {frames : List Activation} (move : Move frame action frames)
    (guarded : action.guard = some .clients) : frame.inSection = true := by
  cases move with
  | @native pc pc' action =>
      simp only [JavaAction.guard, Option.map_eq_some_iff] at guarded
      obtain ⟨mutex, -, other⟩ := guarded
      cases other
  | changeList | iterator | loopNext | loopEnd | loopStale => rfl
  | _ => cases guarded

end Activation

/-- Only the first statement of `drawPreviewSurface` reads the surface without the lock. -/
theorem Pc.holds_of_readPreview {pc pc' : Pc} {surface : Option Surface}
    (move : Move pc (.readPreview surface) pc') :
    pc.holds = some .previewLock ∨ ∃ first, pc = .capturing first (.preview .takeWindow) := by
  cases move with
  | opening inner => cases inner.own
  | @capturing first _ _ _ _ inner =>
      cases inner with
      | preview drawn =>
          cases PreviewPc.move_of_next drawn with
          | takeWindow => exact Or.inr ⟨first, rfl⟩
          | noSurface | surface => exact Or.inl rfl
      | encoder drawn => cases EncoderPc.move_of_next drawn
  | @surface _ _ _ inner => cases SurfacePc.own_of_next inner

namespace App

section Races

variable {app next final : App} {thread other capture : ThreadId} {action action' : JavaAction}
  {events : List (ThreadId × JavaAction)}

theorem LocksTaken.owns_of_native (taken : LocksTaken app) {pc : Pc} {rest : List Activation}
    {mutex : Mutex} (stack : app.stackOf thread = .native pc :: rest)
    (holds : pc.holds = some mutex) : app.Owns thread (.native mutex) := by
  have top : Activation.topHolds (app.stackOf thread) = some mutex := by
    rw [stack]
    exact holds
  exact (taken.owned mutex thread).mpr top

theorem guarded_of_step (taken : LocksTaken app) (counted : Counted events app)
    (stepped : app.step (thread, action) = some next) : Guarded app (thread, action) := by
  have moved := moved_of_step stepped
  cases stack : app.stackOf thread with
  | nil =>
      rw [stack] at moved
      cases action with
      | enter call => exact ⟨by simp [JavaAction.guard], by simp⟩
      | _ => cases moved
  | cons frame rest =>
      rw [stack] at moved
      obtain ⟨frames, topMoved, -⟩ := Option.map_eq_some_iff.mp moved
      have move := Activation.move_of_next topMoved
      constructor
      · rintro (_ | mutex) guarded
        · have inside := move.inSection_of_guard guarded
          have entered := counted.held thread
          rw [stack, Activation.sections_cons, inside] at entered
          refine (holdCount_pos_iff counted).mp ?_
          rw [entered]
          simp only [Bool.toNat_true]
          omega
        · cases action with
          | native step =>
              obtain ⟨_, guarded, same⟩ := Option.map_eq_some_iff.mp guarded
              cases same
              cases move with
              | native working inside =>
                  exact taken.owns_of_native stack (Pc.guarded_of_move inside guarded)
          | _ => cases guarded
      · rintro surface ⟨⟩
        cases move with
        | native working inside =>
            rcases Pc.holds_of_readPreview inside with holds | ⟨first, rfl⟩
            · exact Or.inl (taken.owns_of_native stack holds)
            · exact Or.inr ⟨first, rest, stack⟩

theorem Owns.same {guard : Guard} (owns : app.Owns thread guard)
    (alsoOwns : app.Owns other guard) : thread = other := by
  cases guard with
  | clients =>
      obtain ⟨count, taken⟩ := owns
      obtain ⟨otherCount, alsoTaken⟩ := alsoOwns
      rw [taken] at alsoTaken
      cases alsoTaken
      rfl
  | native mutex => exact Option.some.inj (owns.symm.trans alsoOwns)

/-- A thread that takes no step stays where it is. -/
theorem stackOf_of_run (absent : ∀ event ∈ events, event.1 ≠ thread)
    (ran : run app events = some final) : final.stackOf thread = app.stackOf thread := by
  induction events generalizing app with
  | nil =>
      cases Option.some.inj ran
      rfl
  | cons event events ih =>
      obtain ⟨next, stepped, onward⟩ := LabelledRun.run_cons_iff.mp ran
      rw [ih (fun other member => absent other (by simp [member])) onward]
      exact other_of_step stepped (Ne.symm (absent event (by simp)))

/-- All three locks say who is inside their sections. -/
def LocksKept (app : App) : Prop :=
  LocksTaken app ∧ ∃ events, Counted events app

theorem LocksKept.step (kept : LocksKept app)
    (stepped : app.step (thread, action) = some next) : LocksKept next := by
  obtain ⟨taken, before, counted⟩ := kept
  exact ⟨taken.step stepped, _, counted.step stepped⟩

/-- What a guarded action uses is used only by the owner of its lock, so no two threads are
about to use it at once.  Two reads have no guard: the one of `mPreviewSurface` that begins a
preview draw, and the one of the size of `mEncoderSurfaces` that ends `addEncoderSurface`. -/
structure RaceFree (start final : App) (events : List (ThreadId × JavaAction)) : Prop where
  guarded : EveryStep Guarded start events
  apart : ∀ thread other action action' next next', thread ≠ other →
    final.step (thread, action) = some next → final.step (other, action') = some next' →
    ∀ guard, action.guard = some guard → action'.guard ≠ some guard

end Races

end App

end UsbCamera
