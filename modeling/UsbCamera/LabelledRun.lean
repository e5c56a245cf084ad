import Mathlib.Data.List.Basic

/-!
# Runs of partial step functions

An open system is given by a partial step function: `step state event` is the
state after `event`, or `none` when that event cannot happen there.  The event
carries every choice that is not the system's own (which thread moves, what the
environment answers), so a list of events determines the whole run.

The file proves the rules that later results use: what every step preserves
holds at the end of a run, also when it speaks about the events so far, and what an
invariant guarantees of one step holds of every step of a run.
-/

namespace UsbCamera

namespace LabelledRun

variable {State Event : Type*}

/-- Execute the events in order, stopping with `none` at the first impossible
one. -/
def run (step : State → Event → Option State) : State → List Event → Option State
  | state, [] => some state
  | state, event :: events =>
      (step state event).bind fun next => run step next events

/-- Every step the run takes satisfies `meets`, which sees the state before
the step and its event. -/
def EveryStep (step : State → Event → Option State) (meets : State → Event → Prop) :
    State → List Event → Prop
  | _, [] => True
  | state, event :: events =>
      meets state event ∧
        match step state event with
        | none => True
        | some next => EveryStep step meets next events

section Runs

variable {step : State → Event → Option State}

@[simp]
theorem run_nil (state : State) : run step state [] = some state :=
  rfl

theorem run_cons_iff {state final : State} {event : Event} {events : List Event} :
    run step state (event :: events) = some final ↔
      ∃ next, step state event = some next ∧ run step next events = some final := by
  simp [run, Option.bind_eq_some_iff]

theorem run_append_iff {state final : State} {before after : List Event} :
    run step state (before ++ after) = some final ↔
      ∃ middle, run step state before = some middle ∧
        run step middle after = some final := by
  induction before generalizing state with
  | nil => simp
  | cons event events ih =>
      simp only [List.cons_append, run_cons_iff, ih]
      constructor
      · rintro ⟨next, stepped, middle, reached, finished⟩
        exact ⟨middle, ⟨next, stepped, reached⟩, finished⟩
      · rintro ⟨middle, ⟨next, stepped, reached⟩, finished⟩
        exact ⟨next, stepped, middle, reached, finished⟩

theorem run_append {state middle final : State} {before after : List Event}
    (reached : run step state before = some middle)
    (finished : run step middle after = some final) :
    run step state (before ++ after) = some final :=
  run_append_iff.mpr ⟨middle, reached, finished⟩

theorem run_append_cons_iff {state final : State} {event : Event}
    {before after : List Event} :
    run step state (before ++ event :: after) = some final ↔
      ∃ middle next, run step state before = some middle ∧
        step middle event = some next ∧ run step next after = some final := by
  simp only [run_append_iff, run_cons_iff]
  constructor
  · rintro ⟨middle, reached, next, stepped, finished⟩
    exact ⟨middle, next, reached, stepped, finished⟩
  · rintro ⟨middle, next, reached, stepped, finished⟩
    exact ⟨middle, reached, next, stepped, finished⟩

end Runs

section Conditions

variable {step : State → Event → Option State} {meets : State → Event → Prop}

@[simp]
theorem everyStep_nil (state : State) : EveryStep step meets state [] :=
  trivial

theorem everyStep_cons_iff {state : State} {event : Event} {events : List Event} :
    EveryStep step meets state (event :: events) ↔
      meets state event ∧
        ∀ next, step state event = some next → EveryStep step meets next events := by
  cases stepped : step state event with
  | none => simp [EveryStep, stepped]
  | some next => simp [EveryStep, stepped]

theorem everyStep_append_iff {state middle : State} {before after : List Event}
    (reached : run step state before = some middle) :
    EveryStep step meets state (before ++ after) ↔
      EveryStep step meets state before ∧ EveryStep step meets middle after := by
  induction before generalizing state with
  | nil =>
      cases Option.some.inj reached
      simp
  | cons event events ih =>
      obtain ⟨next, stepped, reached⟩ := run_cons_iff.mp reached
      simp only [List.cons_append, everyStep_cons_iff, stepped, Option.some.injEq,
        forall_eq', ih reached, and_assoc]

/-- A condition on events alone holds at every step as soon as every event of
the list satisfies it. -/
theorem everyStep_of_forall_mem {allowed : Event → Prop} {state : State}
    {events : List Event} (all : ∀ event ∈ events, allowed event) :
    EveryStep step (fun _ event => allowed event) state events := by
  induction events generalizing state with
  | nil => trivial
  | cons event events ih =>
      rw [everyStep_cons_iff]
      exact ⟨all event (by simp), fun _ _ => ih fun other member =>
        all other (by simp [member])⟩

theorem EveryStep.and {others : State → Event → Prop} {state : State}
    {events : List Event} (first : EveryStep step meets state events)
    (second : EveryStep step others state events) :
    EveryStep step (fun state event => meets state event ∧ others state event)
      state events := by
  induction events generalizing state with
  | nil => trivial
  | cons event events ih =>
      rw [everyStep_cons_iff] at first second ⊢
      exact ⟨⟨first.1, second.1⟩, fun next stepped =>
        ih (first.2 next stepped) (second.2 next stepped)⟩

theorem EveryStep.imp {others : State → Event → Prop} {state : State}
    {events : List Event} (weaker : ∀ state event, meets state event → others state event)
    (conditions : EveryStep step meets state events) :
    EveryStep step others state events := by
  induction events generalizing state with
  | nil => trivial
  | cons event events ih =>
      rw [everyStep_cons_iff] at conditions ⊢
      exact ⟨weaker state event conditions.1, fun next stepped =>
        ih (conditions.2 next stepped)⟩

/-- Changing the events in what the step function does not read changes only
what the conditions see. -/
theorem everyStep_map_iff {f : Event → Event}
    (same : ∀ state event, step state (f event) = step state event)
    {state : State} {events : List Event} :
    EveryStep step meets state (events.map f) ↔
      EveryStep step (fun state event => meets state (f event)) state events := by
  induction events generalizing state with
  | nil => simp
  | cons event events ih =>
      simp only [List.map_cons, everyStep_cons_iff, same, ih]

/-- Along a completed run, a condition on events alone holds of every event of
the list. -/
theorem forall_mem_of_everyStep {allowed : Event → Prop} {state final : State}
    {events : List Event}
    (conditions : EveryStep step (fun _ event => allowed event) state events)
    (ran : run step state events = some final) : ∀ event ∈ events, allowed event := by
  induction events generalizing state with
  | nil => simp
  | cons event events ih =>
      obtain ⟨next, stepped, rest⟩ := run_cons_iff.mp ran
      rw [everyStep_cons_iff] at conditions
      intro other member
      rcases List.mem_cons.mp member with rfl | later
      · exact conditions.1
      · exact ih (conditions.2 next stepped) rest other later

/-- Whether a condition holds along a concrete run can be computed. -/
instance decidableEveryStep [∀ state event, Decidable (meets state event)] :
    ∀ (state : State) (events : List Event),
      Decidable (EveryStep step meets state events)
  | _, [] => isTrue trivial
  | state, event :: events =>
      match stepped : step state event with
      | none => decidable_of_iff (meets state event) (by simp [EveryStep, stepped])
      | some next =>
          have := decidableEveryStep next events
          decidable_of_iff (meets state event ∧ EveryStep step meets next events)
            (by simp [EveryStep, stepped])

end Conditions

section Invariants

variable {step : State → Event → Option State} {meets : State → Event → Prop}
  {invariant : State → Prop}

/-- What every allowed step preserves holds at the end of every allowed
run. -/
theorem invariant_of_run
    (preserved : ∀ state event next, invariant state → meets state event →
      step state event = some next → invariant next)
    {state final : State} {events : List Event} (initial : invariant state)
    (conditions : EveryStep step meets state events)
    (ran : run step state events = some final) : invariant final := by
  induction events generalizing state with
  | nil =>
      cases Option.some.inj ran
      exact initial
  | cons event events ih =>
      obtain ⟨next, stepped, rest⟩ := run_cons_iff.mp ran
      rw [everyStep_cons_iff] at conditions
      exact ih (preserved state event next initial conditions.1 stepped)
        (conditions.2 next stepped) rest

/-- The same for an invariant that also speaks about the events so far. -/
theorem history_of_run {invariant : List Event → State → Prop}
    (preserved : ∀ before state event next, invariant before state → meets state event →
      step state event = some next → invariant (before ++ [event]) next)
    {state final : State} {events : List Event} (initial : invariant [] state)
    (conditions : EveryStep step meets state events)
    (ran : run step state events = some final) : invariant events final := by
  have onward : ∀ before, invariant before state → invariant (before ++ events) final := by
    clear initial
    induction events generalizing state with
    | nil =>
        intro before holds
        cases Option.some.inj ran
        simpa using holds
    | cons event events ih =>
        intro before holds
        obtain ⟨next, stepped, rest⟩ := run_cons_iff.mp ran
        rw [everyStep_cons_iff] at conditions
        have held := ih (conditions.2 next stepped) rest (before ++ [event])
          (preserved before state event next holds conditions.1 stepped)
        simpa using held
  exact onward [] initial

/-- What an invariant guarantees of one allowed step holds of every step of an
allowed run. -/
theorem everyStep_of_invariant {guaranteed : State → Event → Prop}
    (preserved : ∀ state event next, invariant state → meets state event →
      step state event = some next → invariant next)
    (guarantee : ∀ state event next, invariant state → meets state event →
      step state event = some next → guaranteed state event)
    {state final : State} {events : List Event} (initial : invariant state)
    (conditions : EveryStep step meets state events)
    (ran : run step state events = some final) :
    EveryStep step guaranteed state events := by
  induction events generalizing state with
  | nil => trivial
  | cons event events ih =>
      obtain ⟨next, stepped, rest⟩ := run_cons_iff.mp ran
      rw [everyStep_cons_iff] at conditions ⊢
      refine ⟨guarantee state event next initial conditions.1 stepped, ?_⟩
      intro other otherStep
      cases Option.some.inj (stepped.symm.trans otherStep)
      exact ih (preserved state event next initial conditions.1 stepped)
        (conditions.2 next stepped) rest

/-- When a step keeps a property exactly under a condition, the property holds after
every event exactly when every step meets the condition. -/
theorem forall_prefix_iff_everyStep {property : State → Prop}
    (total : ∀ state event, ∃ next, step state event = some next)
    (preserved : ∀ state event next, invariant state → step state event = some next →
      invariant next)
    (kept : ∀ state event next, invariant state → property state →
      step state event = some next → (property next ↔ meets state event))
    {state : State} {events : List Event} (initial : invariant state)
    (holds : property state) :
    (∀ before after reached, events = before ++ after →
        run step state before = some reached → property reached) ↔
      EveryStep step meets state events := by
  induction events generalizing state with
  | nil =>
      simp only [everyStep_nil, iff_true]
      intro before after reached split ran
      obtain ⟨rfl, -⟩ := List.append_eq_nil_iff.mp split.symm
      cases Option.some.inj ran
      exact holds
  | cons event events ih =>
      obtain ⟨next, stepped⟩ := total state event
      have keeps := kept state event next initial holds stepped
      have nextInvariant := preserved state event next initial stepped
      rw [everyStep_cons_iff]
      constructor
      · intro always
        have nextHolds := always [event] events next rfl (run_cons_iff.mpr ⟨next, stepped, rfl⟩)
        refine ⟨keeps.mp nextHolds, ?_⟩
        intro other same
        cases Option.some.inj (stepped.symm.trans same)
        refine (ih nextInvariant nextHolds).mp ?_
        rintro before after reached rfl ran
        exact always (event :: before) after reached rfl
          (run_cons_iff.mpr ⟨next, stepped, ran⟩)
      · rintro ⟨met, rest⟩ before after reached split ran
        have nextHolds := keeps.mpr met
        cases before with
        | nil =>
            cases Option.some.inj ran
            exact holds
        | cons first before =>
            obtain ⟨rfl, rfl⟩ := List.cons.inj split
            obtain ⟨other, same, onward⟩ := run_cons_iff.mp ran
            cases Option.some.inj (stepped.symm.trans same)
            exact (ih nextInvariant nextHolds).mpr (rest next stepped) before after reached
              rfl onward

end Invariants

end LabelledRun

end UsbCamera
