import Mathlib.Data.List.Basic
import Mathlib.Data.List.Pairwise

/-!
# Sequential orders of overlapping operations

Operations begin, return and take effect at numbered moments.  An order of those that
have taken effect explains their outcomes when each is what the operations before it
lead to, and respects time when no operation stands before one that had returned before
it began.  The order is built by appending an operation when it takes effect; the rules
below say what that keeps.
-/

namespace UsbCamera

namespace Linearization

/-! ## Sequential outcomes -/

section Replay

variable {State Op : Type*} (perform : State → Op → State) (allowed : State → Op → Prop)

/-- The state a sequence of operations leads to. -/
def replay (state : State) (order : List Op) : State :=
  order.foldl perform state

/-- Each operation has an outcome allowed in the state those before it lead to. -/
def Legal : State → List Op → Prop
  | _, [] => True
  | state, op :: order => allowed state op ∧ Legal (perform state op) order

variable {perform allowed}

theorem replay_append (state : State) (before after : List Op) :
    replay perform state (before ++ after) =
      replay perform (replay perform state before) after :=
  List.foldl_append

theorem legal_append_iff {state : State} {before after : List Op} :
    Legal perform allowed state (before ++ after) ↔
      Legal perform allowed state before ∧
        Legal perform allowed (replay perform state before) after := by
  induction before generalizing state with
  | nil => simp [Legal, replay]
  | cons op before ih =>
      simp only [List.cons_append, Legal, ih, and_assoc]
      rfl

/-- What holds at some point of a sequence and no longer at its end has been ended by one
of its operations. -/
theorem exists_of_replay {holds : State → Prop} {state : State} {order : List Op}
    (atStart : holds state) (atEnd : ¬ holds (replay perform state order)) :
    ∃ op ∈ order, ∃ at_op, holds at_op ∧ ¬ holds (perform at_op op) := by
  induction order generalizing state with
  | nil => exact absurd atStart atEnd
  | cons op order ih =>
      by_cases still : holds (perform state op)
      · obtain ⟨later, member, ended⟩ := ih still atEnd
        exact ⟨later, by simp [member], ended⟩
      · exact ⟨op, by simp, state, atStart, still⟩

/-- When the first of two operations establishes what the second needs to be missing, an
operation between them has ended it. -/
theorem exists_between (holds : State → Prop) {state : State} {order : List Op}
    {first second : Op} (legal : Legal perform allowed state order)
    (sublist : [first, second].Sublist order)
    (established : ∀ before, holds (perform before first))
    (missing : ∀ before, allowed before second → ¬ holds before) :
    ∃ op, [first, op, second].Sublist order ∧
      ∃ before, holds before ∧ ¬ holds (perform before op) := by
  obtain ⟨front, rest, rfl, inFront, inRest⟩ := List.cons_sublist_iff.mp sublist
  obtain ⟨front, middle, rfl⟩ := List.append_of_mem inFront
  obtain ⟨between, back, rfl⟩ := List.append_of_mem (List.singleton_sublist.mp inRest)
  have onward := (legal_append_iff.mp legal).2
  rw [replay_append] at onward
  have atSecond := missing _ (legal_append_iff.mp onward).2.1
  rw [show replay perform (replay perform state front) (first :: middle) =
      replay perform (perform (replay perform state front) first) middle from rfl,
    ← replay_append] at atSecond
  obtain ⟨op, member, ended⟩ := exists_of_replay (established _) atSecond
  refine ⟨op, ?_, ended⟩
  have pieces : front ++ first :: middle ++ (between ++ second :: back) =
      front ++ ([first] ++ ((middle ++ between) ++ ([second] ++ back))) := by
    simp
  rw [pieces]
  refine List.Sublist.trans ?_ (List.sublist_append_right front _)
  refine (List.Sublist.refl [first]).append ?_
  exact (List.singleton_sublist.mpr member).append (List.sublist_append_left [second] back)

end Replay

/-! ## Real time -/

/-- The number of moments so far, and the operations that have returned, with the moments
of their returns. -/
structure Timeline (Op : Type*) where
  time : Nat
  completed : List (Op × Nat)

section Order

variable {Op : Type*} (began : Op → Nat)

/-- The operation had returned before the other began. -/
def Timeline.Precedes (timeline : Timeline Op) (first second : Op) : Prop :=
  ∃ returned, (first, returned) ∈ timeline.completed ∧ returned < began second

/-- The order contains the operations that have returned, each once, and agrees with which
had returned before which began. -/
structure Respects (timeline : Timeline Op) (order : List Op) : Prop where
  nodup : order.Nodup
  included : ∀ op returned, (op, returned) ∈ timeline.completed →
    op ∈ order ∧ began op < returned
  past : ∀ op ∈ order, began op < timeline.time
  ordered : order.Pairwise fun earlier later => ¬ timeline.Precedes began later earlier

variable {began} {timeline : Timeline Op} {order : List Op}

theorem respects_nil (time : Nat) : Respects began ⟨time, []⟩ [] :=
  ⟨List.nodup_nil, by simp, by simp, List.Pairwise.nil⟩

/-- Time passes. -/
theorem Respects.tick (respects : Respects began timeline order) :
    Respects began { timeline with time := timeline.time + 1 } order := by
  refine ⟨respects.nodup, respects.included, ?_, respects.ordered⟩
  intro op member
  exact Nat.lt_succ_of_lt (respects.past op member)

/-- An operation that has begun takes effect. -/
theorem Respects.append (respects : Respects began timeline order) {op : Op}
    (fresh : op ∉ order) (begun : began op < timeline.time) :
    Respects began timeline (order ++ [op]) := by
  constructor
  · rw [List.nodup_append]
    refine ⟨respects.nodup, List.pairwise_singleton _ op, ?_⟩
    rintro other member last isLast rfl
    exact fresh (List.mem_singleton.mp isLast ▸ member)
  · intro other returned done
    obtain ⟨member, later⟩ := respects.included other returned done
    exact ⟨List.mem_append_left _ member, later⟩
  · intro other member
    rcases List.mem_append.mp member with earlier | last
    · exact respects.past other earlier
    · rw [List.mem_singleton.mp last]
      exact begun
  · rw [List.pairwise_append]
    refine ⟨respects.ordered, List.pairwise_singleton _ _, ?_⟩
    rintro other - last isLast ⟨returned, done, -⟩
    -- the new operation has not returned
    rw [List.mem_singleton.mp isLast] at done
    exact fresh (respects.included op returned done).1

/-- An operation that has taken effect returns. -/
theorem Respects.complete (respects : Respects began timeline order) {op : Op}
    (effective : op ∈ order) :
    Respects began ⟨timeline.time + 1, timeline.completed ++ [(op, timeline.time)]⟩ order := by
  refine ⟨respects.nodup, ?_, respects.tick.past, ?_⟩
  · intro other returned done
    rcases List.mem_append.mp done with earlier | now
    · exact respects.included other returned earlier
    · cases List.mem_singleton.mp now
      exact ⟨effective, respects.past op effective⟩
  · refine respects.ordered.imp_of_mem ?_
    rintro earlier later inOrder - notBefore ⟨returned, done, before⟩
    rcases List.mem_append.mp done with past | now
    · exact notBefore ⟨returned, past, before⟩
    · cases List.mem_singleton.mp now
      exact absurd (respects.past earlier inOrder) (Nat.not_lt.mpr (Nat.le_of_lt before))

/-- Of two operations, the one that had returned before the other began comes first. -/
theorem Respects.sublist (respects : Respects began timeline order) {first second : Op}
    (precedes : timeline.Precedes began first second) (member : second ∈ order) :
    [first, second].Sublist order := by
  obtain ⟨returned, done, before⟩ := precedes
  obtain ⟨firstMember, afterStart⟩ := respects.included first returned done
  obtain ⟨front, back, split⟩ := List.append_of_mem member
  have ordered := respects.ordered
  rw [split] at firstMember ordered ⊢
  rcases List.mem_append.mp firstMember with inFront | later
  · exact (List.singleton_sublist.mpr inFront).append
      (List.singleton_sublist.mpr List.mem_cons_self)
  · rcases List.mem_cons.mp later with same | inBack
    · rw [same] at afterStart
      exact absurd before (Nat.not_lt.mpr (Nat.le_of_lt afterStart))
    · rw [List.pairwise_append] at ordered
      exact absurd ⟨returned, done, before⟩
        (List.rel_of_pairwise_cons ordered.2.1 inBack)

end Order

end Linearization

end UsbCamera
