import Mathlib.Data.List.Basic

/-!
# Lists with a fail-fast iterator

A mutable list that counts its structural modifications, and the iterator that
remembers the count it was created with: `hasNext` compares the iterator's index
with the current size, `next` fails once the list has been modified behind the
iterator's back.  A loop over such a list runs inside a method that may throw; the
state a method has reached survives its exception.
-/

namespace UsbCamera

/-! ## Methods that may throw -/

/-- A method on `State` that may throw `Error`; `none` when a loop inside it has not
finished within its fuel. -/
abbrev Method (Error State : Type) (α : Type) := ExceptT Error (StateT State Option) α

namespace Method

variable {Error State α β : Type}

/-- How the method ends: what it returned or threw, and the state it left. -/
def exec (method : Method Error State α) (state : State) : Option (Except Error α × State) :=
  method state

@[simp]
theorem exec_pure (value : α) (state : State) :
    exec (pure value : Method Error State α) state = some (.ok value, state) :=
  rfl

@[simp]
theorem exec_throw (error : Error) (state : State) :
    exec (throw error : Method Error State α) state = some (.error error, state) :=
  rfl

@[simp]
theorem exec_get (state : State) :
    exec (get : Method Error State State) state = some (.ok state, state) :=
  rfl

@[simp]
theorem exec_modify (change : State → State) (state : State) :
    exec (modify change : Method Error State Unit) state = some (.ok (), change state) :=
  rfl

/-- A method that returned is followed by the rest, at the state it left. -/
theorem exec_bind_of_ok {first : Method Error State α} {rest : α → Method Error State β}
    {state next : State} {value : α} (returned : first.exec state = some (.ok value, next)) :
    (first >>= rest).exec state = (rest value).exec next := by
  simp only [exec] at returned ⊢
  show (first state).bind _ = _
  rw [returned]
  rfl

theorem exec_bind_of_error {first : Method Error State α} {rest : α → Method Error State β}
    {state next : State} {error : Error}
    (threw : first.exec state = some (.error error, next)) :
    (first >>= rest).exec state = some (.error error, next) := by
  simp only [exec] at threw ⊢
  show (first state).bind _ = _
  rw [threw]
  rfl

theorem exec_bind_of_none {first : Method Error State α} {rest : α → Method Error State β}
    {state : State} (unfinished : first.exec state = none) :
    (first >>= rest).exec state = none := by
  simp only [exec] at unfinished ⊢
  show (first state).bind _ = _
  rw [unfinished]
  rfl

/-- A method returns when its first part returns and then the rest. -/
theorem exec_bind_eq_ok_iff {first : Method Error State α} {rest : α → Method Error State β}
    {state final : State} {value : β} :
    (first >>= rest).exec state = some (.ok value, final) ↔
      ∃ inner middle, first.exec state = some (.ok inner, middle) ∧
        (rest inner).exec middle = some (.ok value, final) := by
  constructor
  · intro returned
    cases ended : first.exec state with
    | none =>
        rw [exec_bind_of_none ended] at returned
        cases returned
    | some outcome =>
        obtain ⟨result, middle⟩ := outcome
        cases result with
        | ok inner =>
            rw [exec_bind_of_ok ended] at returned
            exact ⟨inner, middle, rfl, returned⟩
        | error error =>
            rw [exec_bind_of_error ended] at returned
            cases returned
  · rintro ⟨inner, middle, begun, returned⟩
    rwa [exec_bind_of_ok begun]

end Method

/-! ## The list and its iterator -/

structure FailFastList (α : Type) where
  items : List α
  modCount : Nat

namespace FailFastList

/-- An iterator: the index of its next item and the modification count it
expects. -/
structure Cursor where
  nextIndex : Nat
  expectedModCount : Nat

variable {α : Type}

def empty : FailFastList α := ⟨[], 0⟩

def add (list : FailFastList α) (item : α) : FailFastList α :=
  ⟨list.items ++ [item], list.modCount + 1⟩

/-- Remove the first occurrence; removing an absent item modifies nothing. -/
def remove [DecidableEq α] (list : FailFastList α) (item : α) : FailFastList α :=
  if item ∈ list.items then ⟨list.items.erase item, list.modCount + 1⟩ else list

def iterator (list : FailFastList α) : Cursor := ⟨0, list.modCount⟩

def hasNext (list : FailFastList α) (cursor : Cursor) : Bool :=
  cursor.nextIndex < list.items.length

/-- The next item, or `none` for the exception about a concurrent modification. -/
def next (list : FailFastList α) (cursor : Cursor) : Option (α × Cursor) :=
  if cursor.expectedModCount = list.modCount then
    list.items[cursor.nextIndex]?.map fun item =>
      (item, { cursor with nextIndex := cursor.nextIndex + 1 })
  else none

@[simp]
theorem remove_items [DecidableEq α] (list : FailFastList α) (item : α) :
    (list.remove item).items = list.items.erase item := by
  unfold remove
  split
  · rfl
  · rename_i absent
    rw [List.erase_of_not_mem absent]

section Iteration

variable {list : FailFastList α} {cursor : Cursor}

/-- An item is given while the list is unmodified. -/
theorem of_next {item : α} (given : (list.next cursor).map Prod.fst = some item) :
    cursor.expectedModCount = list.modCount ∧ list.items[cursor.nextIndex]? = some item := by
  unfold next at given
  split at given
  · rename_i current
    exact ⟨current, by simpa using given⟩
  · cases given

/-- An iterator that is not at the end fails only when the list has been modified. -/
theorem modified_of_next (more : list.hasNext cursor = true)
    (failed : (list.next cursor).isNone = true) : cursor.expectedModCount ≠ list.modCount := by
  intro current
  have within : cursor.nextIndex < list.items.length := by simpa [hasNext] using more
  simp [next, current, within] at failed

end Iteration

section Loop

variable {Error State : Type}

/-- The loop `for (item : list) body`, from an iterator on. -/
def forEach (list : State → FailFastList α) (stale : Error)
    (body : α → Method Error State Unit) : Nat → Cursor → Method Error State Unit
  | 0, _ => fun _ => none
  | fuel + 1, cursor => do
      let current := list (← get)
      if current.hasNext cursor then
        match current.next cursor with
        | none => throw stale
        | some (item, cursor) => do
            body item
            forEach list stale body fuel cursor
      else pure ()

variable {list : State → FailFastList α} {stale : Error} {body : α → Method Error State Unit}
  {fuel : Nat} {cursor : Cursor} {state : State}

theorem forEach_of_end (done : cursor.nextIndex ≥ (list state).items.length) :
    (forEach list stale body (fuel + 1) cursor).exec state = some (.ok (), state) := by
  unfold forEach
  rw [Method.exec_bind_of_ok (Method.exec_get state)]
  simp [hasNext, Nat.not_lt.mpr done]

/-- A list modified behind the iterator's back ends the loop with the exception. -/
theorem forEach_of_stale (more : cursor.nextIndex < (list state).items.length)
    (modified : cursor.expectedModCount ≠ (list state).modCount) :
    (forEach list stale body (fuel + 1) cursor).exec state = some (.error stale, state) := by
  unfold forEach
  rw [Method.exec_bind_of_ok (Method.exec_get state)]
  simp [hasNext, more, next, modified]

/-- A loop whose list has been modified returns only from the end of the list. -/
theorem forEach_returns_iff_of_modified {after : State}
    (modified : cursor.expectedModCount ≠ (list state).modCount) :
    (forEach list stale body (fuel + 1) cursor).exec state = some (.ok (), after) ↔
      (list state).items.length ≤ cursor.nextIndex ∧ after = state := by
  by_cases ended : (list state).items.length ≤ cursor.nextIndex
  · rw [forEach_of_end ended]
    simp [ended, eq_comm]
  · rw [forEach_of_stale (Nat.not_le.mp ended) modified]
    simp [ended]

theorem forEach_of_next {item : α} {after : State}
    (found : (list state).items[cursor.nextIndex]? = some item)
    (current : cursor.expectedModCount = (list state).modCount)
    (returned : (body item).exec state = some (.ok (), after)) :
    (forEach list stale body (fuel + 1) cursor).exec state =
      (forEach list stale body fuel { cursor with nextIndex := cursor.nextIndex + 1 }).exec
        after := by
  obtain ⟨more, -⟩ := List.getElem?_eq_some_iff.mp found
  rw [forEach, Method.exec_bind_of_ok (Method.exec_get state)]
  simp only [hasNext, more, decide_true, if_true, next, current, found, Option.map_some]
  exact Method.exec_bind_of_ok returned

theorem forEach_of_throw {item : α} {after : State} {error : Error}
    (found : (list state).items[cursor.nextIndex]? = some item)
    (current : cursor.expectedModCount = (list state).modCount)
    (threw : (body item).exec state = some (.error error, after)) :
    (forEach list stale body (fuel + 1) cursor).exec state = some (.error error, after) := by
  obtain ⟨more, -⟩ := List.getElem?_eq_some_iff.mp found
  rw [forEach, Method.exec_bind_of_ok (Method.exec_get state)]
  simp only [hasNext, more, decide_true, if_true, next, current, found, Option.map_some]
  exact Method.exec_bind_of_error threw

theorem forEach_of_unfinished {item : α}
    (found : (list state).items[cursor.nextIndex]? = some item)
    (current : cursor.expectedModCount = (list state).modCount)
    (unfinished : (body item).exec state = none) :
    (forEach list stale body (fuel + 1) cursor).exec state = none := by
  obtain ⟨more, -⟩ := List.getElem?_eq_some_iff.mp found
  rw [forEach, Method.exec_bind_of_ok (Method.exec_get state)]
  simp only [hasNext, more, decide_true, if_true, next, current, found, Option.map_some]
  exact Method.exec_bind_of_none unfinished

/-- What every iteration keeps, the loop keeps, however it ends. -/
theorem invariant_of_forEach {invariant : State → Prop}
    (kept : ∀ item state ended, invariant state → (body item).exec state = some ended →
      invariant ended.2)
    {ended : Except Error Unit × State} (initial : invariant state)
    (ran : (forEach list stale body fuel cursor).exec state = some ended) :
    invariant ended.2 := by
  induction fuel generalizing cursor state with
  | zero => cases ran
  | succ fuel ih =>
      by_cases more : cursor.nextIndex < (list state).items.length
      · by_cases current : cursor.expectedModCount = (list state).modCount
        · have found := List.getElem?_eq_getElem more
          cases first : (body (list state).items[cursor.nextIndex]).exec state with
          | none =>
              rw [forEach_of_unfinished found current first] at ran
              cases ran
          | some outcome =>
              obtain ⟨result, middle⟩ := outcome
              have held := kept _ _ _ initial first
              cases result with
              | ok _ =>
                  rw [forEach_of_next found current first] at ran
                  exact ih held ran
              | error _ =>
                  rw [forEach_of_throw found current first] at ran
                  cases ran
                  exact held
        · rw [forEach_of_stale more current] at ran
          cases ran
          exact initial
      · rw [forEach_of_end (Nat.not_lt.mp more)] at ran
        cases ran
        exact initial

end Loop

/-! ## Changes -/

/-- A call that may modify a list. -/
inductive Change (α : Type)
  | add (item : α)
  | remove (item : α)

/-- The change is a structural modification of a list of these items. -/
def Change.Modifies (items : List α) : Change α → Prop
  | .add _ => True
  | .remove item => item ∈ items

instance [DecidableEq α] (items : List α) (change : Change α) :
    Decidable (change.Modifies items) := by
  cases change <;> unfold Change.Modifies <;> infer_instance

section Changes

variable [DecidableEq α]

def apply (list : FailFastList α) : Change α → FailFastList α
  | .add item => list.add item
  | .remove item => list.remove item

def applyAll (list : FailFastList α) (changes : List (Change α)) : FailFastList α :=
  changes.foldl apply list

/-- The item a change takes out of the list. -/
def taken (list : FailFastList α) : Change α → List α
  | .add _ => []
  | .remove item => if item ∈ list.items then [item] else []

/-- What a sequence of changes takes out of the list, in order. -/
def removals (list : FailFastList α) : List (Change α) → List α
  | [] => []
  | change :: changes => list.taken change ++ (list.apply change).removals changes

@[simp]
theorem applyAll_cons (list : FailFastList α) (change : Change α) (changes : List (Change α)) :
    list.applyAll (change :: changes) = (list.apply change).applyAll changes :=
  rfl

theorem applyAll_append (list : FailFastList α) (before after : List (Change α)) :
    list.applyAll (before ++ after) = (list.applyAll before).applyAll after :=
  List.foldl_append

theorem removals_append (list : FailFastList α) (before after : List (Change α)) :
    list.removals (before ++ after) =
      list.removals before ++ (list.applyAll before).removals after := by
  induction before generalizing list with
  | nil => rfl
  | cons change before ih => simp [removals, ih]

theorem apply_of_idle {list : FailFastList α} {change : Change α}
    (idle : ¬ change.Modifies list.items) : list.apply change = list ∧ list.taken change = [] := by
  cases change with
  | add item => exact absurd trivial idle
  | remove item => exact ⟨if_neg idle, if_neg idle⟩

theorem modCount_apply {list : FailFastList α} {change : Change α}
    (modifies : change.Modifies list.items) :
    (list.apply change).modCount = list.modCount + 1 := by
  cases change with
  | add item => rfl
  | remove item => exact congrArg modCount (if_pos modifies)

theorem applyAll_of_idle {list : FailFastList α} {changes : List (Change α)}
    (idle : ∀ change ∈ changes, ¬ change.Modifies list.items) :
    list.applyAll changes = list ∧ list.removals changes = [] := by
  induction changes with
  | nil => exact ⟨rfl, rfl⟩
  | cons change changes ih =>
      obtain ⟨same, none⟩ := apply_of_idle (idle change (by simp))
      obtain ⟨sameAll, noneAll⟩ := ih fun other member => idle other (by simp [member])
      simp [removals, same, none, sameAll, noneAll]

theorem modCount_le_applyAll (list : FailFastList α) (changes : List (Change α)) :
    list.modCount ≤ (list.applyAll changes).modCount := by
  induction changes generalizing list with
  | nil => exact Nat.le_refl _
  | cons change changes ih =>
      refine Nat.le_trans ?_ (ih (list.apply change))
      by_cases modifies : change.Modifies list.items
      · rw [modCount_apply modifies]
        omega
      · exact Nat.le_of_eq (congrArg modCount (apply_of_idle modifies).1.symm)

/-- The first change that modifies the list is never undone in its count. -/
theorem modCount_lt_applyAll {list : FailFastList α} {changes : List (Change α)}
    (modifies : ∃ change ∈ changes, change.Modifies list.items) :
    list.modCount < (list.applyAll changes).modCount := by
  induction changes with
  | nil => simp at modifies
  | cons change changes ih =>
      rw [applyAll_cons]
      by_cases now : change.Modifies list.items
      · have grows := modCount_le_applyAll (list.apply change) changes
        rw [modCount_apply now] at grows
        omega
      · rw [(apply_of_idle now).1]
        apply ih
        simpa [now] using modifies

end Changes

/-! ## Lists and the count of their modifications -/

/-- A later state of a list: the count never falls, and a list with the same count is the
same. -/
def Follows (after before : FailFastList α) : Prop :=
  before.modCount ≤ after.modCount ∧ (after.modCount = before.modCount → after = before)

theorem Follows.refl (list : FailFastList α) : list.Follows list :=
  ⟨Nat.le_refl _, fun _ => rfl⟩

theorem Follows.trans {before middle after : FailFastList α} (later : after.Follows middle)
    (earlier : middle.Follows before) : after.Follows before := by
  refine ⟨Nat.le_trans earlier.1 later.1, fun same => ?_⟩
  have still : middle.modCount = before.modCount := by
    have grown := earlier.1
    have grows := later.1
    omega
  exact (later.2 (same.trans still.symm)).trans (earlier.2 still)

/-- A modification is seen from the count. -/
theorem Follows.of_modified {before after : FailFastList α}
    (modified : after.modCount = before.modCount + 1) : after.Follows before :=
  ⟨by omega, fun same => by omega⟩

section Removal

variable [DecidableEq α]

theorem follows_remove (list : FailFastList α) (item : α) : (list.remove item).Follows list := by
  by_cases member : item ∈ list.items
  · exact .of_modified (by simp [remove, member])
  · rw [show list.remove item = list from if_neg member]
    exact .refl list

/-- The list without its first item. -/
def withoutFirst (list : FailFastList α) : FailFastList α :=
  match list.items with
  | [] => list
  | item :: _ => list.remove item

end Removal

end FailFastList

end UsbCamera
