import Mathlib.Data.List.Basic
import Mathlib.Data.List.Nodup

/-!
# Memory written by stores and copies

Memory is a function from offsets to values.  A program that only writes is
described by the list of its stores, in order; what the memory holds afterwards at an
offset comes from the last store there.  Block copies are described by where their
bytes go and where they come from.
-/

namespace UsbCamera

/-! ## Stores -/

structure Store (Value : Type) where
  offset : Int
  value : Value
  deriving DecidableEq

namespace StoreLog

variable {Value : Type} {stores : List (Store Value)} {memory : Int → Value} {offset : Int}

/-- The memory after one store. -/
def write (memory : Int → Value) (store : Store Value) : Int → Value :=
  fun offset => if offset = store.offset then store.value else memory offset

/-- The memory after all stores. -/
def writeAll (stores : List (Store Value)) (memory : Int → Value) : Int → Value :=
  stores.foldl write memory

/-- An offset holds what it held before or what some store put there. -/
theorem writeAll_eq_or_mem (stores : List (Store Value)) (memory : Int → Value)
    (offset : Int) :
    (writeAll stores memory offset = memory offset ∧
        ∀ store ∈ stores, store.offset ≠ offset) ∨
      ∃ store ∈ stores, store.offset = offset ∧ writeAll stores memory offset = store.value := by
  induction stores generalizing memory with
  | nil => exact Or.inl ⟨rfl, by simp⟩
  | cons store stores ih =>
      rcases ih (write memory store) with ⟨same, untouched⟩ | ⟨later, member, there, value⟩
      · by_cases hit : offset = store.offset
        · refine Or.inr ⟨store, by simp, hit.symm, ?_⟩
          show writeAll stores (write memory store) offset = _
          rw [same, write, if_pos hit]
        · refine Or.inl ⟨?_, ?_⟩
          · show writeAll stores (write memory store) offset = _
            rw [same, write, if_neg hit]
          · intro other member
            rcases List.mem_cons.mp member with rfl | later
            · exact Ne.symm hit
            · exact untouched other later
      · exact Or.inr ⟨later, by simp [member], there, value⟩

/-- When all stores to an offset agree, it holds their value. -/
theorem writeAll_of_mem {store : Store Value} (member : store ∈ stores)
    (agree : ∀ other ∈ stores, other.offset = store.offset → other.value = store.value) :
    writeAll stores memory store.offset = store.value := by
  rcases writeAll_eq_or_mem stores memory store.offset with ⟨-, untouched⟩ |
    ⟨other, otherMember, there, value⟩
  · exact absurd rfl (untouched store member)
  · rw [value]
    exact agree other otherMember there

/-- When no offset is stored to twice, every store keeps its value. -/
theorem writeAll_of_nodup {store : Store Value} (once : (stores.map Store.offset).Nodup)
    (member : store ∈ stores) : writeAll stores memory store.offset = store.value := by
  refine writeAll_of_mem member fun other otherMember there => ?_
  rw [List.inj_on_of_nodup_map once otherMember member there]

end StoreLog

/-! ## Block copies -/

/-- `length` bytes from `source` on go to `dest` on. -/
structure Copy where
  dest : Nat
  source : Nat
  length : Nat
  deriving DecidableEq

namespace Copy

def Covers (copy : Copy) (offset : Nat) : Prop :=
  copy.dest ≤ offset ∧ offset < copy.dest + copy.length

instance (copy : Copy) (offset : Nat) : Decidable (copy.Covers offset) :=
  inferInstanceAs (Decidable (_ ∧ _))

/-- Where the byte at an offset was last copied from, if it was. -/
def copiedFrom : List Copy → Nat → Option Nat
  | [], _ => none
  | copy :: copies, offset =>
      (copiedFrom copies offset).or
        (if copy.Covers offset then some (copy.source + (offset - copy.dest)) else none)

theorem copiedFrom_eq_none_iff {copies : List Copy} {offset : Nat} :
    copiedFrom copies offset = none ↔ ∀ copy ∈ copies, ¬ copy.Covers offset := by
  induction copies with
  | nil => simp [copiedFrom]
  | cons copy copies ih =>
      simp only [copiedFrom, Option.or_eq_none_iff, ih, List.forall_mem_cons]
      split <;> rename_i covers <;> simp [covers]

theorem exists_of_copiedFrom {copies : List Copy} {offset source : Nat}
    (copied : copiedFrom copies offset = some source) :
    ∃ copy ∈ copies, copy.Covers offset ∧ source = copy.source + (offset - copy.dest) := by
  induction copies with
  | nil => cases copied
  | cons copy copies ih =>
      simp only [copiedFrom, Option.or_eq_some_iff] at copied
      rcases copied with later | ⟨-, here⟩
      · obtain ⟨other, member, rest⟩ := ih later
        exact ⟨other, by simp [member], rest⟩
      · split at here
        · rename_i covers
          exact ⟨copy, by simp, covers, (Option.some.inj here).symm⟩
        · cases here

/-- When just one of the copies covers an offset, the byte comes from it. -/
theorem copiedFrom_of_mem {copies : List Copy} {copy : Copy} {offset : Nat}
    (member : copy ∈ copies) (covers : copy.Covers offset)
    (only : ∀ other ∈ copies, other.Covers offset → other = copy) :
    copiedFrom copies offset = some (copy.source + (offset - copy.dest)) := by
  cases copied : copiedFrom copies offset with
  | none => exact absurd covers (copiedFrom_eq_none_iff.mp copied copy member)
  | some source =>
      obtain ⟨other, otherMember, otherCovers, origin⟩ := exists_of_copiedFrom copied
      rw [origin, only other otherMember otherCovers]

end Copy

end UsbCamera
