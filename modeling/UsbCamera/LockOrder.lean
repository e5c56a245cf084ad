import UsbCamera.ClientThreads
import UsbCamera.MutexExclusion
import Mathlib.Logic.Relation

/-!
# The order in which the three locks are taken

`mClientLock` is taken first and may be taken again by its owner; `mPreviewLock` and
`mEncoderLock` are taken last, one at a time, for sections that call nobody back.  A thread
inside such a section waits for nothing, the owner of `mClientLock` waits at most for such a
section, and everybody else waits at most for those two, so nobody waits in a circle.
-/

namespace UsbCamera

namespace Pc

/-- A notification is sent with no mutex held. -/
theorem holds_of_notify {pc pc' : Pc} {notification : Notification}
    (move : Move pc (.notify notification) pc') : pc.holds = none ∧ pc'.holds = none := by
  cases move with
  | opening inner => cases inner.own
  | capturing inner =>
      cases inner with
      | notifyFirst | notifyStop | notifyError => exact ⟨rfl, rfl⟩
      | preview drawn => cases PreviewPc.draws_of_next drawn
      | encoder drawn => cases EncoderPc.draws_of_next drawn
  | surface inner => cases SurfacePc.own_of_next inner

/-- The step with which a native method, or one of the two draws, returns. -/
def Returns (pc : Pc) (action : Action) : Prop :=
  pc.next action = some .idle ∨
    (∃ first inner, pc = .capturing first (.preview inner) ∧
      inner.next action = some .returned) ∨
    ∃ first inner, pc = .capturing first (.encoder inner) ∧ inner.next action = some .returned

/-- Where it returns to, no mutex is held. -/
theorem Returns.holds {pc pc' : Pc} {action : Action} (returns : Returns pc action)
    (moved : pc.next action = some pc') : pc'.holds = none := by
  rcases returns with idle | ⟨first, inner, rfl, drawn⟩ | ⟨first, inner, rfl, drawn⟩
  · rw [moved] at idle
    rw [Option.some.inj idle]
    rfl
  · simp only [next, CapturePc.next, drawn, Option.map_some, if_true, Option.some.injEq] at moved
    rw [← moved]
    rfl
  · simp only [next, CapturePc.next, drawn, Option.map_some, if_true, Option.some.injEq] at moved
    rw [← moved]
    rfl

end Pc

/-! ## The mutexes a stack holds -/

namespace Activation

def holds : Activation → Option Mutex
  | .native pc => pc.holds
  | _ => none

/-- The mutex the topmost activation holds. -/
def topHolds : List Activation → Option Mutex
  | [] => none
  | frame :: _ => frame.holds

/-- A native step locks and unlocks as its program does, and leaves an activation that holds
what the program holds, with nothing held below it. -/
theorem holds_afterNative {pc pc' : Pc} {action : Action} (move : Pc.Move pc action pc') :
    LockStep pc.holds action (topHolds (afterNative pc' action)) ∧
      topHolds (afterNative pc' action) = pc'.holds ∧
      ∀ lower ∈ (afterNative pc' action).tail, lower.holds = none := by
  cases action with
  | notify notification =>
      obtain ⟨before, after⟩ := Pc.holds_of_notify move
      refine ⟨?_, ?_, ?_⟩
      · rw [before]
        exact .keep (by simp) (by simp)
      · rw [after]
        rfl
      · simp [afterNative, holds, after]
  | _ => exact ⟨Pc.lockStep_of_move move, rfl, by simp [afterNative]⟩

theorem next_native {pc : Pc} {action : Action} {frames : List Activation}
    (moved : (Activation.native pc).next (.native action) = some frames) :
    ∃ pc', pc.next action = some pc' ∧ afterNative pc' action = frames := by
  cases pc with
  | idle => cases moved
  | _ => exact Option.map_eq_some_iff.mp moved

/-- Java code holds no native mutex. -/
theorem Move.holds_of_java {frame : Activation} {action : JavaAction} {frames : List Activation}
    (move : Move frame action frames) (notNative : ∀ step, action ≠ .native step) :
    frame.holds = none ∧ ∀ other ∈ frames, other.holds = none := by
  cases move with
  | native => exact absurd rfl (notNative _)
  | callNative => exact ⟨rfl, by simp [holds]⟩
  | @clientCalls call =>
      refine ⟨rfl, ?_⟩
      cases call <;> simp [holds, JavaCall.activation]
  | _ => exact ⟨rfl, by simp [holds]⟩

end Activation

namespace App

open Activation (topHolds)

/-- The owners of the two mutexes are the threads whose topmost activation holds them, and no
activation below holds one. -/
structure LocksTaken (app : App) : Prop where
  owned : app.camera.OwnedAs fun thread => topHolds (app.stackOf thread)
  below : ∀ thread, ∀ lower ∈ (app.stackOf thread).tail, lower.holds = none

section Steps

variable {app next : App} {thread capture : ThreadId} {action : JavaAction}

theorem Begins.locksTaken (begins : Begins app capture) : LocksTaken app := by
  refine ⟨fun mutex thread => ?_, fun thread lower member => ?_⟩
  · rcases begins.stack thread with capturing | idle
    · simp [begins.mutexes, capturing, topHolds, Activation.holds, Pc.holds, CapturePc.holds]
    · simp [begins.mutexes, idle, topHolds]
  · rcases begins.stack thread with capturing | idle
    · rw [capturing] at member
      cases member
    · rw [idle] at member
      cases member

/-- What a step puts on top of what was below. -/
theorem LocksTaken.below_append (taken : LocksTaken app) {frame : Activation}
    {frames rest : List Activation}
    (stack : app.stackOf thread = frame :: rest)
    (fresh : ∀ lower ∈ frames.tail, lower.holds = none) :
    ∀ lower ∈ (frames ++ rest).tail, lower.holds = none := by
  have under : ∀ lower ∈ rest, lower.holds = none := by
    have below := taken.below thread
    rwa [stack] at below
  intro lower member
  cases frames with
  | nil => exact under lower (List.mem_of_mem_tail member)
  | cons first others =>
      rcases List.mem_append.mp member with new | old
      · exact fresh lower new
      · exact under lower old

/-- What a step does to the mutex its thread holds. -/
theorem LocksTaken.stack_of_step (taken : LocksTaken app)
    (stepped : app.step (thread, action) = some next) :
    next.camera.OwnedAs (fun other => topHolds (next.stackOf other)) ∧
      ∀ lower ∈ (next.stackOf thread).tail, lower.holds = none := by
  have moved := moved_of_step stepped
  have unmoved : ∀ other, other ≠ thread →
      topHolds (next.stackOf other) = topHolds (app.stackOf other) :=
    fun other distinct => by rw [other_of_step stepped distinct]
  -- Java code on top before the step means Java code, or nothing, holds after it
  have java (notNative : ∀ step, action ≠ .native step)
      (held : topHolds (app.stackOf thread) = none)
      (holds : topHolds (next.stackOf thread) = none) :
      next.camera.OwnedAs fun other => topHolds (next.stackOf other) := by
    have same : ∀ other, topHolds (next.stackOf other) = topHolds (app.stackOf other) := by
      intro other
      by_cases mover : other = thread
      · rw [mover, held, holds]
      · exact unmoved other mover
    simpa only [camera_of_java stepped notNative, same] using taken.owned
  cases stack : app.stackOf thread with
  | nil =>
      rw [stack] at moved java
      cases action with
      | enter call =>
          have placed : next.stackOf thread = [call.activation] := (Option.some.inj moved).symm
          rw [placed] at java ⊢
          refine ⟨java (by simp) rfl ?_, by simp⟩
          cases call <;> simp [topHolds, JavaCall.activation, Activation.holds]
      | _ => cases moved
  | cons frame rest =>
      rw [stack] at moved java
      obtain ⟨frames, topMoved, placed⟩ := Option.map_eq_some_iff.mp moved
      have move := Activation.move_of_next topMoved
      rw [← placed] at java ⊢
      by_cases native : ∃ step, action = .native step
      · obtain ⟨step, rfl⟩ := native
        cases move with
        | @native pc pc' step working inside =>
            obtain ⟨locking, -, lower⟩ := Activation.holds_afterNative inside
            refine ⟨?_, taken.below_append stack lower⟩
            refine taken.owned.step ?_ (camera_of_native stepped) unmoved
            rw [stack, ← placed]
            cases step <;> exact locking
      · have notNative : ∀ step, action ≠ .native step := fun step same => native ⟨step, same⟩
        obtain ⟨held, fresh⟩ := move.holds_of_java notNative
        refine ⟨java notNative held ?_,
          taken.below_append stack fun lower member => fresh lower (List.mem_of_mem_tail member)⟩
        cases frames with
        | nil =>
            have below := taken.below thread
            rw [stack] at below
            cases rest with
            | nil => rfl
            | cons uncovered others => exact below uncovered (by simp)
        | cons first others => exact fresh first (by simp)

/-- The lock invariant from what a step does to the stack of its thread. -/
theorem LocksTaken.step (taken : LocksTaken app)
    (stepped : app.step (thread, action) = some next) : LocksTaken next := by
  obtain ⟨owned, below⟩ := taken.stack_of_step stepped
  refine ⟨owned, fun other => ?_⟩
  by_cases mover : other = thread
  · rw [mover]
    exact below
  · rw [other_of_step stepped mover]
    exact taken.below other

theorem locksTaken_of_run {final : App} {events : List (ThreadId × JavaAction)}
    (taken : LocksTaken app) (ran : run app events = some final) : LocksTaken final := by
  refine LabelledRun.invariant_of_run ?_ taken
    (LabelledRun.everyStep_of_forall_mem fun event _ => (trivial : True)) ran
  rintro before ⟨mover, action⟩ after taken - stepped
  exact taken.step stepped

end Steps

/-! ## Waiting -/

/-- The next step of the thread takes a native mutex. -/
def Requests (app : App) (thread : ThreadId) (mutex : Mutex) : Prop :=
  ∃ pc rest pc', app.stackOf thread = .native pc :: rest ∧ pc.next (.lock mutex) = some pc'

/-- The next step of the thread takes `mClientLock`. -/
def RequestsClients (app : App) (thread : ThreadId) : Prop :=
  ∃ frame rest frames, app.stackOf thread = frame :: rest ∧
    frame.next .lockClients = some frames

/-- The thread requests a lock the other holds; the owner of `mClientLock` gets it again. -/
def WaitsFor (app : App) (thread owner : ThreadId) : Prop :=
  (∃ mutex, app.Requests thread mutex ∧ app.camera.holder mutex = some owner) ∨
    (app.RequestsClients thread ∧ owner ≠ thread ∧
      ∃ count, app.mClientLock = some (owner, count))

/-- Threads inside a native section come first, then the owner of `mClientLock`. -/
def level (app : App) (thread : ThreadId) : Nat :=
  if (topHolds (app.stackOf thread)).isSome then 0
  else if app.mClientLock.map Prod.fst = some thread then 1 else 2

section Waiting

variable {app : App} {thread owner : ThreadId} {mutex : Mutex}

/-- A native mutex is requested with none held. -/
theorem Requests.topHolds (requests : app.Requests thread mutex) :
    topHolds (app.stackOf thread) = none := by
  obtain ⟨pc, rest, pc', stack, moved⟩ := requests
  have locking := Pc.lockStep_of_move (Pc.move_of_next moved)
  rw [stack]
  generalize held : pc.holds = before at locking
  generalize pc'.holds = after at locking
  cases locking with
  | lock => exact held
  | keep notLock => exact absurd rfl (notLock mutex)

/-- `mClientLock` is requested from Java code. -/
theorem RequestsClients.topHolds (requests : app.RequestsClients thread) :
    topHolds (app.stackOf thread) = none := by
  obtain ⟨frame, rest, frames, stack, moved⟩ := requests
  rw [stack]
  exact ((Activation.move_of_next moved).holds_of_java (by simp)).1

/-- Whoever is waited for is nearer to going on. -/
theorem LocksTaken.level_lt (taken : LocksTaken app) (waits : app.WaitsFor thread owner) :
    app.level owner < app.level thread := by
  rcases waits with ⟨mutex, requests, held⟩ | ⟨requests, distinct, count, held⟩
  · have inside := (taken.owned mutex owner).mp held
    have outside := requests.topHolds
    simp only [level, inside, outside, Option.isSome_some, Option.isSome_none, if_true,
      Bool.false_eq_true, if_false]
    split_ifs <;> omega
  · have outside := requests.topHolds
    simp only [level, outside, held, Option.map_some, Option.some.injEq, if_true,
      if_neg distinct, Option.isSome_none, Bool.false_eq_true, if_false]
    split_ifs <;> omega

theorem LocksTaken.level_lt_of_chain (taken : LocksTaken app)
    (chain : Relation.TransGen app.WaitsFor thread owner) : app.level owner < app.level thread := by
  induction chain with
  | single waits => exact taken.level_lt waits
  | tail _ waits ih => exact Nat.lt_trans (taken.level_lt waits) ih

end Waiting

/-- What the use of the locks promises: native mutexes are not nested, every call gives back
what it took, on each of its return paths and before it lets Java code run, and no thread
waits in a circle. -/
structure LocksSafe (app : App) : Prop where
  notNested : ∀ thread mutex, app.Requests thread mutex →
    ∀ held, app.camera.holder held ≠ some thread
  released : ∀ thread pc rest action next, app.stackOf thread = .native pc :: rest →
    Pc.Returns pc action → app.step (thread, .native action) = some next →
    ∀ mutex, next.camera.holder mutex ≠ some thread
  outside : ∀ thread mutex, app.camera.holder mutex = some thread →
    ∃ pc rest, app.stackOf thread = .native pc :: rest
  acyclic : ∀ thread, ¬ Relation.TransGen app.WaitsFor thread thread

section Results

variable {app next : App} {thread : ThreadId}

theorem LocksTaken.released (taken : LocksTaken app) {pc : Pc} {rest : List Activation}
    {action : Action} (stack : app.stackOf thread = .native pc :: rest)
    (returns : Pc.Returns pc action) (stepped : app.step (thread, .native action) = some next)
    (mutex : Mutex) : next.camera.holder mutex ≠ some thread := by
  intro held
  have holds : topHolds (next.stackOf thread) = some mutex :=
    ((taken.step stepped).owned mutex thread).mp held
  have moved := moved_of_step stepped
  rw [stack] at moved
  obtain ⟨frames, topMoved, placed⟩ := Option.map_eq_some_iff.mp moved
  obtain ⟨pc', inside, rfl⟩ := Activation.next_native topMoved
  have free := returns.holds inside
  obtain ⟨-, top, -⟩ := Activation.holds_afterNative (Pc.move_of_next inside)
  rw [free] at top
  rw [← placed] at holds
  cases action <;> cases top.symm.trans holds

theorem LocksTaken.outside (taken : LocksTaken app) {mutex : Mutex}
    (held : app.camera.holder mutex = some thread) :
    ∃ pc rest, app.stackOf thread = .native pc :: rest := by
  have holds : topHolds (app.stackOf thread) = some mutex := (taken.owned mutex thread).mp held
  cases stack : app.stackOf thread with
  | nil =>
      rw [stack] at holds
      cases holds
  | cons frame rest =>
      rw [stack] at holds
      cases frame with
      | native pc => exact ⟨pc, rest, rfl⟩
      | _ => cases holds

/-- The locks of the camera cannot deadlock. -/
theorem locksSafe_of_run {final : App} {capture : ThreadId}
    {events : List (ThreadId × JavaAction)} (begins : Begins app capture)
    (ran : run app events = some final) : LocksSafe final := by
  have taken := locksTaken_of_run begins.locksTaken ran
  refine ⟨?_, ?_, fun thread mutex held => taken.outside held, ?_⟩
  · intro thread mutex requests held owned
    have holds : topHolds (final.stackOf thread) = some held := (taken.owned held thread).mp owned
    rw [requests.topHolds] at holds
    cases holds
  · intro thread pc rest action next stack returns stepped
    exact taken.released stack returns stepped
  · intro thread cycle
    exact absurd (taken.level_lt_of_chain cycle) (Nat.lt_irrefl _)

/-- A user thread registers an encoder client and stops inside the section of `mEncoderLock`,
while the capture thread waits for `mClientLock` to tell the clients of its first frame. -/
def registeringEvents : List (ThreadId × JavaAction) :=
  [.enter (.update .addClient 4), .lockClients, .changeList .addClient 4, .callBack, .leave,
    .answerIsEncoder true, .callBack, .leave, .answerGetSurface (some 9), .callNative,
    .native (.getCamera true), .native (.surfaceValid true),
    .native (.lock .encoderLock)].map (fun action => (0, action)) ++
  [.getCamera true, .readFd 5, .writePeek true, .loopTest true, .readFd 5, .select 5 1 0,
    .recheck true, .clearBufInfo, .dequeueBuf 5 (.filled 2),
    .notify .firstCapture].map fun action => (1, .native action)

theorem locksSafe_registering :
    ∃ final, run (opened 5 1) registeringEvents = some final ∧ LocksSafe final := by
  obtain ⟨final, ran⟩ := Option.isSome_iff_exists.mp
    (by decide : (run (opened 5 1) registeringEvents).isSome = true)
  exact ⟨final, ran, locksSafe_of_run (begins_opened 5 1) ran⟩

end Results

end App

end UsbCamera
