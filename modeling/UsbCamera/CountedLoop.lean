import Mathlib.Data.List.Basic
import Mathlib.Data.List.Nodup

/-!
# Counted loops

The loop `for (i = 0; i < count; i++) body` over a partial body.  A loop whose state
after `i` iterations has a closed form is evaluated by checking one iteration; when
the body is defined under a guard, the loop is defined exactly when every guard
holds.
-/

namespace UsbCamera

namespace CountedLoop

variable {State : Type*}

/-- Run the body for `0, 1, …, count - 1`. -/
def forRange (body : Nat → State → Option State) : Nat → State → Option State
  | 0, state => some state
  | count + 1, state => (forRange body count state).bind (body count)

variable {body : Nat → State → Option State}

@[simp]
theorem forRange_zero (state : State) : forRange body 0 state = some state :=
  rfl

theorem forRange_succ (count : Nat) (state : State) :
    forRange body (count + 1) state = (forRange body count state).bind (body count) :=
  rfl

theorem forRange_eq_of_closed {closed : Nat → State} {count : Nat}
    (iteration : ∀ index < count, body index (closed index) = some (closed (index + 1))) :
    forRange body count (closed 0) = some (closed count) := by
  induction count with
  | zero => rfl
  | succ count ih =>
      rw [forRange_succ, ih fun index before => iteration index (by omega)]
      exact iteration count (by omega)

/-- A loop whose iterations follow a closed form as long as their guards hold. -/
theorem forRange_eq_of_guarded {closed : Nat → State} {guarded : Nat → Prop}
    [DecidablePred guarded] {count : Nat}
    (iteration : ∀ index < count, body index (closed index) =
      if guarded index then some (closed (index + 1)) else none) :
    forRange body count (closed 0) =
      if ∀ index < count, guarded index then some (closed count) else none := by
  induction count with
  | zero => simp
  | succ count ih =>
      rw [forRange_succ, ih fun index before => iteration index (by omega)]
      by_cases earlier : ∀ index < count, guarded index
      · rw [if_pos earlier, Option.bind_some, iteration count (by omega)]
        by_cases last : guarded count
        · have all : ∀ index < count + 1, guarded index := by
            intro index before
            rcases Nat.lt_succ_iff_lt_or_eq.mp before with lower | rfl
            · exact earlier index lower
            · exact last
          rw [if_pos last, if_pos all]
        · have notAll : ¬ ∀ index < count + 1, guarded index := fun all =>
            last (all count (by omega))
          rw [if_neg last, if_neg notAll]
      · have notAll : ¬ ∀ index < count + 1, guarded index := fun all =>
          earlier fun index before => all index (by omega)
        rw [if_neg earlier, if_neg notAll]
        rfl

/-! ## Lists built by a loop -/

variable {Item : Type*}

/-- What `count` iterations append when each appends its own items. -/
def appended (items : Nat → List Item) (count : Nat) : List Item :=
  (List.range count).flatMap items

@[simp]
theorem appended_zero (items : Nat → List Item) : appended items 0 = [] :=
  rfl

theorem appended_succ (items : Nat → List Item) (count : Nat) :
    appended items (count + 1) = appended items count ++ items count := by
  simp [appended, List.range_succ]

theorem mem_appended {items : Nat → List Item} {count : Nat} {item : Item} :
    item ∈ appended items count ↔ ∃ index < count, item ∈ items index := by
  simp [appended]

theorem appended_singleton (item : Nat → Item) (count : Nat) :
    appended (fun index => [item index]) count = (List.range count).map item :=
  List.map_eq_flatMap.symm

theorem map_appended {Other : Type*} (view : Item → Other) (items : Nat → List Item)
    (count : Nat) :
    (appended items count).map view = appended (fun index => (items index).map view) count := by
  simp [appended, List.map_flatMap]

/-- No item is appended twice when no iteration appends one twice and different iterations
append different items. -/
theorem nodup_appended {items : Nat → List Item} {count : Nat}
    (each : ∀ index < count, (items index).Nodup)
    (apart : ∀ index < count, ∀ other < count, ∀ item ∈ items index, item ∈ items other →
      index = other) :
    (appended items count).Nodup := by
  induction count with
  | zero => simp
  | succ count ih =>
      rw [appended_succ, List.nodup_append]
      refine ⟨ih (fun index below => each index (by omega)) ?_, each count (by omega), ?_⟩
      · intro index below other otherBelow
        exact apart index (by omega) other (by omega)
      · rintro item earlier _ last rfl
        obtain ⟨index, below, member⟩ := mem_appended.mp earlier
        have same := apart index (by omega) count (by omega) item member last
        omega

theorem appended_congr {items others : Nat → List Item} {count : Nat}
    (same : ∀ index < count, items index = others index) :
    appended items count = appended others count := by
  induction count with
  | zero => rfl
  | succ count ih =>
      rw [appended_succ, appended_succ, ih fun index below => same index (by omega),
        same count (by omega)]

/-- Iterations that append consecutive numbers append all of them in order. -/
theorem appended_range' (start size count : Nat) :
    appended (fun index => List.range' (start + size * index) size) count =
      List.range' start (size * count) := by
  induction count with
  | zero => simp
  | succ count ih =>
      rw [appended_succ, ih, Nat.mul_succ]
      exact List.range'_append_1

/-! ## Positions in nested loops -/

section Positions

variable {count row row' rows column column' : Nat}

theorem position_lt (inRow : column < count) (inside : row < rows) :
    count * row + column < count * rows := by
  calc count * row + column < count * row + count := by omega
    _ = count * (row + 1) := (Nat.mul_succ count row).symm
    _ ≤ count * rows := Nat.mul_le_mul_left count inside

theorem row_of_position (row : Nat) (inRow : column < count) :
    (count * row + column) / count = row := by
  rw [Nat.mul_add_div (by omega), Nat.div_eq_of_lt inRow, Nat.add_zero]

theorem position_injective (inRow : column < count) (inRow' : column' < count)
    (same : count * row + column = count * row' + column') : row = row' ∧ column = column' := by
  have rowSame : row = row' := by
    rw [← row_of_position row inRow, same, row_of_position row' inRow']
  subst rowSame
  exact ⟨rfl, by omega⟩

theorem exists_position {index : Nat} (below : index < count * rows) :
    ∃ row < rows, ∃ column < count, index = count * row + column := by
  refine ⟨index / count, Nat.div_lt_of_lt_mul below, index % count, ?_, ?_⟩
  · refine Nat.mod_lt _ (Nat.pos_of_ne_zero ?_)
    rintro rfl
    omega
  · exact (Nat.div_add_mod index count).symm

end Positions

end CountedLoop

end UsbCamera
