import UsbCamera.Standstill

/-!
# Clients that leave the registrations alone

The callbacks of the clients return and may call the camera again.  When none of them registers
or unregisters a client, nothing can come between an iterator and its list: while the capture
thread tells the clients it owns `mClientLock`, and the only thread that could change the
list under it is that thread itself.  So no iterator throws, no notification is abandoned,
and the threads never come to a standstill.
-/

namespace UsbCamera

/-- Notifications are sent by the capture program alone. -/
theorem Pc.capturing_of_notify {pc pc' : Pc} {notification : Notification}
    (move : Move pc (.notify notification) pc') : ∃ first inner, pc = .capturing first inner := by
  cases move with
  | opening inner => cases inner.own
  | capturing inner => exact ⟨_, _, rfl⟩
  | surface inner => cases SurfacePc.own_of_next inner

namespace Activation

/-- `addClient` or `removeClient`. -/
def updates : Activation → Bool
  | .update _ _ _ => true
  | _ => false

/-- The capture, and what it tells the clients. -/
def tells : Activation → Bool
  | .notify _ _ | .native (.capturing _ _) => true
  | _ => false

/-- Without a registering call a stack gets only what belongs to what was there. -/
theorem Move.of_mem {frame placed : Activation} {action : JavaAction}
    {frames : List Activation} (move : Move frame action frames)
    (calm : action.registers = false)
    (member : placed ∈ frames) :
    (placed.updates = true → frame.updates = true) ∧
      (placed.tells = true → frame.tells = true) := by
  cases move with
  | @native pc pc' action _ inside =>
      have captures : ∀ first inner, pc' = .capturing first inner →
          tells (.native pc) = true := by
        rintro first inner rfl
        obtain ⟨before, point, rfl, -⟩ := Pc.capturing_of_move inside
        rfl
      have below : placed = .native pc' → (placed.updates = true → updates (.native pc) = true) ∧
          (placed.tells = true → tells (.native pc) = true) := by
        rintro rfl
        refine ⟨by rintro ⟨⟩, fun isTold => ?_⟩
        cases pc' with
        | capturing first inner => exact captures first inner rfl
        | _ => cases isTold
      cases action with
      | notify notification =>
          simp only [afterNative, List.mem_cons, List.not_mem_nil, or_false] at member
          rcases member with rfl | member
          · refine ⟨by rintro ⟨⟩, fun _ => ?_⟩
            obtain ⟨first, inner, rfl⟩ := Pc.capturing_of_notify inside
            rfl
          · exact below member
      | _ => exact below (List.mem_singleton.mp member)
  | @clientCalls call =>
      cases call with
      | update method client => cases calm
      | stop =>
          simp only [JavaCall.activation, List.mem_cons, List.not_mem_nil, or_false] at member
          rcases member with rfl | rfl <;> exact ⟨id, id⟩
  | @callNative method client entry =>
      simp only [List.mem_cons, List.not_mem_nil, or_false] at member
      refine ⟨fun _ => rfl, ?_⟩
      rcases member with rfl | rfl
      · cases entry <;> rintro ⟨⟩
      · exact id
  | loopNext =>
      simp only [List.mem_cons, List.not_mem_nil, or_false] at member
      rcases member with rfl | rfl <;>
        exact ⟨by rintro ⟨⟩, fun _ => rfl⟩
  | askIsEncoder | askSurface =>
      simp only [List.mem_cons, List.not_mem_nil, or_false] at member
      rcases member with rfl | rfl <;>
        exact ⟨fun _ => rfl, by rintro ⟨⟩⟩
  | updateLocks | changeList | isEncoder | getSurface | notifyLocks | iterator | loopEnd =>
      cases List.mem_singleton.mp member
      exact ⟨id, id⟩
  | _ => cases member

/-- A loop on a stack has been there with the same expectation, or has just asked for its
iterator. -/
theorem Move.loop_of_mem {frame : Activation} {action : JavaAction} {frames : List Activation}
    {notification : Notification} {cursor : FailFastList.Cursor}
    (move : Move frame action frames) (member : .notify notification (.loop cursor) ∈ frames) :
    action = .iterator cursor ∨ ∃ before, frame = .notify notification (.loop before) ∧
      before.expectedModCount = cursor.expectedModCount := by
  cases move with
  | native =>
      rename_i action _ _
      cases action <;> simp [afterNative] at member
  | clientCalls =>
      rename_i call
      cases call <;> simp [JavaCall.activation] at member
  | iterator =>
      simp only [List.mem_singleton, notify.injEq, NotifyPc.loop.injEq] at member
      exact Or.inl (by rw [member.2])
  | @loopNext told before client =>
      simp only [List.mem_cons, reduceCtorEq, List.not_mem_nil, or_false, false_or, notify.injEq,
        NotifyPc.loop.injEq] at member
      obtain ⟨rfl, rfl⟩ := member
      exact Or.inr ⟨before, rfl, rfl⟩
  | _ => simp at member

end Activation

/-- A thread registers a client, or tells the clients. -/
def Apart (stack : List Activation) : Prop :=
  (∀ frame ∈ stack, frame.updates = false) ∨ ∀ frame ∈ stack, frame.tells = false

theorem Apart.next {stack after : List Activation} {action : JavaAction} (apart : Apart stack)
    (outermost : action.registers = true → stack = [])
    (moved : App.nextStack stack action = some after) : Apart after := by
  cases stack with
  | nil =>
      cases action with
      | enter call =>
          cases Option.some.inj moved
          right
          intro frame member
          rw [List.mem_singleton.mp member]
          cases call <;> rfl
      | _ => cases moved
  | cons frame rest =>
      obtain ⟨frames, topMoved, rfl⟩ := Option.map_eq_some_iff.mp moved
      have calm : action.registers = false := by
        by_contra called
        cases outermost (by simpa using called)
      have placed := fun (other : Activation) (member : other ∈ frames) =>
        (Activation.move_of_next topMoved).of_mem calm member
      rcases apart with noUpdate | noNotice
      · left
        intro other member
        rcases List.mem_append.mp member with onTop | below
        · by_contra isUpdate
          have was := (placed other onTop).1 (by simpa using isUpdate)
          rw [noUpdate frame List.mem_cons_self] at was
          cases was
        · exact noUpdate other (List.mem_cons_of_mem _ below)
      · right
        intro other member
        rcases List.mem_append.mp member with onTop | below
        · by_contra isTold
          have was := (placed other onTop).2 (by simpa using isTold)
          rw [noNotice frame List.mem_cons_self] at was
          cases was
        · exact noNotice other (List.mem_cons_of_mem _ below)

namespace App

/-- No callback registers or unregisters a client: the two methods are called by threads that
are in no other call. -/
def Outermost (app : App) (event : ThreadId × JavaAction) : Prop :=
  event.2.registers = true → app.stackOf event.1 = []

instance (app : App) (event : ThreadId × JavaAction) : Decidable (Outermost app event) :=
  inferInstanceAs (Decidable (_ → _))

/-- Every iterator in use expects the list as it is. -/
structure Calm (events : List (ThreadId × JavaAction)) (app : App) : Prop where
  lively : Lively events app
  apart : ∀ thread, Apart (app.stackOf thread)
  fresh : ∀ thread notification cursor,
    .notify notification (.loop cursor) ∈ app.stackOf thread →
      cursor.expectedModCount = app.mClients.modCount
  kept : ∀ thread, abandoned events thread = 0

section Steps

variable {app next : App} {thread capture : ThreadId} {action : JavaAction}
  {events : List (ThreadId × JavaAction)}

theorem Begins.calm (begins : Begins app capture) : Calm [] app := by
  refine ⟨begins.lively, fun thread => ?_, fun thread notification cursor member => ?_,
    fun _ => rfl⟩
  · rcases begins.stack thread with capturing | idle
    · left
      intro frame member
      rw [capturing, List.mem_singleton] at member
      rw [member]
      rfl
    · left
      intro frame member
      rw [idle] at member
      cases member
  · rcases begins.stack thread with capturing | idle
    · rw [capturing] at member
      cases List.mem_singleton.mp member
    · rw [idle] at member
      cases member

/-- An iterator that throws is one behind whose back the list has been modified. -/
theorem Calm.not_stale {cursor : FailFastList.Cursor} (calm : Calm events app) :
    app.step (thread, .loopStale cursor) = none := by
  cases stepped : app.step (thread, .loopStale cursor) with
  | none => rfl
  | some next =>
      have moved := moved_of_step stepped
      cases stack : app.stackOf thread with
      | nil =>
          rw [stack] at moved
          cases moved
      | cons frame rest =>
          rw [stack] at moved
          obtain ⟨frames, topMoved, -⟩ := Option.map_eq_some_iff.mp moved
          cases Activation.move_of_next topMoved with
          | @loopStale notification =>
              have expected := calm.fresh thread notification cursor
                (by rw [stack]; exact List.mem_cons_self)
              exact absurd expected (of_loopStale stepped)

/-- While a thread tells the clients, nobody else changes the list. -/
theorem Calm.noLoop_of_changeList (calm : Calm events app) {method : ClientMethod}
    {client : ClientId} (stepped : app.step (thread, .changeList method client) = some next)
    (other : ThreadId) (notification : Notification) (cursor : FailFastList.Cursor) :
    .notify notification (.loop cursor) ∉ next.stackOf other := by
  intro member
  have moved := moved_of_step stepped
  cases stack : app.stackOf thread with
  | nil =>
      rw [stack] at moved
      cases moved
  | cons frame rest =>
      rw [stack] at moved
      obtain ⟨frames, topMoved, placed⟩ := Option.map_eq_some_iff.mp moved
      cases Activation.move_of_next topMoved with
      | changeList =>
          by_cases mover : other = thread
          · subst mover
            rw [← placed] at member
            have below : .notify notification (.loop cursor) ∈ rest := by simpa using member
            have apart := calm.apart other
            rw [stack] at apart
            rcases apart with noUpdate | noNotice
            · cases noUpdate _ List.mem_cons_self
            · cases noNotice _ (List.mem_cons_of_mem _ below)
          · rw [other_of_step stepped mover] at member
            have entered := calm.lively.counted.held thread
            rw [stack, Activation.sections_cons] at entered
            have holds : 0 < app.holdCount thread := by
              rw [entered]
              exact Nat.lt_of_lt_of_le (Nat.lt_add_left _ Nat.one_pos) (Nat.le_add_right _ _)
            have outside := (calm.lively.counted.exclusive holds (Ne.symm mover)).1
            have inside := List.countP_eq_zero.mp outside _ member
            exact inside rfl

theorem Calm.step (calm : Calm events app) (outermost : Outermost app (thread, action))
    (stepped : app.step (thread, action) = some next) :
    Calm (events ++ [(thread, action)]) next := by
  have moved := moved_of_step stepped
  refine ⟨calm.lively.step stepped, fun other => ?_, fun other notification cursor member => ?_,
    fun other => ?_⟩
  · by_cases mover : other = thread
    · subst mover
      exact (calm.apart other).next outermost moved
    · rw [other_of_step stepped mover]
      exact calm.apart other
  · by_cases changes : ∃ method client, action = .changeList method client
    · obtain ⟨method, client, rfl⟩ := changes
      exact absurd member (calm.noLoop_of_changeList stepped other notification cursor)
    · have same := mClients_of_step stepped
        (fun method client changed => changes ⟨method, client, changed⟩)
      rw [same]
      by_cases mover : other = thread
      · subst mover
        cases stack : app.stackOf other with
        | nil =>
            rw [stack] at moved
            cases action with
            | enter call =>
                rw [← Option.some.inj moved, List.mem_singleton] at member
                cases call <;> cases member
            | _ => cases moved
        | cons frame rest =>
            rw [stack] at moved
            obtain ⟨frames, topMoved, placed⟩ := Option.map_eq_some_iff.mp moved
            rw [← placed] at member
            have before := calm.fresh other notification
            rw [stack] at before
            rcases List.mem_append.mp member with onTop | below
            · rcases (Activation.move_of_next topMoved).loop_of_mem onTop with
                rfl | ⟨was, rfl, expects⟩
              · rw [cursor_of_iterator stepped]
                rfl
              · rw [← expects]
                exact before was List.mem_cons_self
            · exact before cursor (List.mem_cons_of_mem _ below)
      · rw [other_of_step stepped mover] at member
        exact calm.fresh other notification cursor member
  · have notStale : action.abandons = false := by
      cases action with
      | loopStale cursor =>
          rw [calm.not_stale] at stepped
          cases stepped
      | _ => rfl
    rw [abandoned_append, abandoned_singleton, calm.kept other, notStale]
    simp

theorem calm_of_run {final : App} (begins : Begins app capture)
    (outermost : EveryStep Outermost app events) (ran : run app events = some final) :
    Calm events final := by
  refine LabelledRun.history_of_run ?_ begins.calm outermost ran
  rintro before state ⟨mover, action⟩ after calm outermost stepped
  exact calm.step outermost stepped

end Steps

/-- No iterator throws, the threads do not stand still, and when they have nothing more to do
the lock is free. -/
structure Undisturbed (app : App) : Prop where
  noThrow : ∀ thread cursor, app.step (thread, .loopStale cursor) = none
  goesOn : (∃ thread, app.stackOf thread ≠ []) →
    ∃ thread, app.stackOf thread ≠ [] ∧ app.CanStep thread
  lockFree : (∀ thread, app.stackOf thread = []) → app.mClientLock = none

section Results

variable {app final : App} {capture : ThreadId} {events : List (ThreadId × JavaAction)}

/-- Clients that leave the registrations alone disturb neither the notifications nor one
another, whatever the threads do. -/
theorem undisturbed_of_run (begins : Begins app capture)
    (outermost : EveryStep Outermost app events) (ran : run app events = some final) :
    Undisturbed final := by
  have calm := calm_of_run begins outermost ran
  refine ⟨fun thread cursor => calm.not_stale, fun busy => ?_, fun idle => ?_⟩
  · by_contra none
    have still : Standstill final := by
      refine ⟨busy, fun thread busy action => ?_⟩
      cases stepped : final.step (thread, action) with
      | none => rfl
      | some next => exact absurd ⟨thread, busy, action, next, stepped⟩ none
    obtain ⟨-, owner, -, left⟩ := calm.lively.of_standstill still
    rw [calm.kept owner] at left
    cases left
  · cases taken : final.mClientLock with
    | none => rfl
    | some holding =>
        obtain ⟨owner, count⟩ := holding
        have holds := (holdCount_pos_iff calm.lively.counted).mpr ⟨count, taken⟩
        have entered := calm.lively.counted.held owner
        rw [idle owner, calm.kept owner, Activation.sections_nil] at entered
        omega

theorem undisturbed_registering :
    ∃ final, run (opened 5 1) registeringEvents = some final ∧ Undisturbed final := by
  obtain ⟨final, ran⟩ := Option.isSome_iff_exists.mp
    (by decide : (run (opened 5 1) registeringEvents).isSome = true)
  exact ⟨final, ran, undisturbed_of_run (begins_opened 5 1) (by decide) ran⟩

end Results

end App

end UsbCamera
