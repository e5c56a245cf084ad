import UsbCamera.RecordedStream
import Mathlib.Algebra.BigOperators.Group.Finset.Piecewise
import Mathlib.Algebra.Order.BigOperators.Group.Finset

/-!
# How long the recorder lives

The position of a buffer object is never set back, so what can be read from it in the life of
the writer thread is one filling of it, however often the codec hands it out.  The thread ends
with the first buffer that does not fit behind what has been read before, and the file is never
longer than all the buffers of the codec together.
-/

namespace UsbCamera

namespace CameraEncoder

/-- A buffer has been dequeued. -/
def OutputResult.isBuffer : OutputResult → Bool
  | .buffer _ _ _ _ _ => true
  | _ => false

/-- The buffer is one of the first `objects`. -/
def OutputResult.Among (objects : Nat) : OutputResult → Prop
  | .buffer outputBufferId _ outBuffers _ _ => outBuffers outputBufferId < objects
  | _ => True

/-- How much of each object has been dequeued after these results. -/
def total (results : List OutputResult) : BufferObject → Nat :=
  results.foldl dequeued fun _ => 0

/-- What stands in the file. -/
def Writer.file (writer : Writer) : List UInt8 :=
  writer.finalFos.getD []

theorem run_append (writer : Writer) (earlier later : List OutputResult) :
    run writer (earlier ++ later) = run (run writer earlier) later :=
  List.foldl_append

/-- After `run()` has been left nothing happens any more. -/
theorem run_of_ended {writer : Writer} (ended : writer.running = false)
    (results : List OutputResult) : run writer results = writer := by
  induction results with
  | nil => rfl
  | cons result results ih =>
      have still : step writer result = writer := by simp [step, ended]
      rw [run, List.foldl_cons, still]
      exact ih

theorem file_prefix_step (writer : Writer) (result : OutputResult) :
    writer.file <+: (step writer result).file := by
  by_cases running : writer.running = true
  · cases result with
    | buffer outputBufferId outInfo outBuffers contents write =>
        simp only [step, running, if_true, iterate]
        split
        · exact List.prefix_rfl
        · cases opened : writer.finalFos with
          | none => simp [Writer.file, opened]
          | some file => simp [Writer.file, opened]
    | _ => simp [step, running, iterate]
  · simp [step, running]

/-- What has been written stays in the file. -/
theorem file_prefix_run (writer : Writer) (results : List OutputResult) :
    writer.file <+: (run writer results).file := by
  induction results generalizing writer with
  | nil => exact List.prefix_rfl
  | cons result results ih =>
      exact (file_prefix_step writer result).trans (ih (step writer result))

theorem file_prefix_take (writer : Writer) (results : List OutputResult) (iterations : Nat) :
    (run writer (results.take iterations)).file <+: (run writer results).file := by
  have later := file_prefix_run (run writer (results.take iterations)) (results.drop iterations)
  rwa [← run_append, List.take_append_drop] at later

theorem le_dequeued (read : BufferObject → Nat) (result : OutputResult)
    (buffer : BufferObject) : read buffer ≤ dequeued read result buffer := by
  cases result with
  | buffer outputBufferId outInfo outBuffers contents write =>
      by_cases same : buffer = outBuffers outputBufferId
      · subst same
        simp [dequeued]
      · simp [dequeued, Function.update_of_ne same]
  | _ => exact Nat.le_refl _

theorem le_foldl_dequeued (read : BufferObject → Nat) (results : List OutputResult)
    (buffer : BufferObject) : read buffer ≤ results.foldl dequeued read buffer := by
  induction results generalizing read with
  | nil => exact Nat.le_refl _
  | cons result results ih =>
      exact Nat.le_trans (le_dequeued read result buffer) (ih (dequeued read result))

theorem WriteResult.length_appended_le (write : WriteResult) (encodeData : List UInt8) :
    (write.appended encodeData).length ≤ encodeData.length := by
  cases write with
  | written => exact Nat.le_refl _
  | ioException count => exact List.length_take_le' count encodeData

/-- What is read from one of the objects is added to the sum of all. -/
theorem sum_update_add (read : BufferObject → Nat) {buffer objects : Nat} (size : Nat)
    (among : buffer < objects) :
    ∑ other ∈ Finset.range objects, Function.update read buffer (read buffer + size) other =
      ∑ other ∈ Finset.range objects, read other + size := by
  have split : Function.update read buffer (read buffer + size) =
      fun other => read other + if other = buffer then size else 0 := by
    funext other
    by_cases same : other = buffer
    · subst same
      simp
    · simp [same]
  rw [split, Finset.sum_add_distrib, Finset.sum_ite_eq', if_pos (Finset.mem_range.mpr among)]

/-! ## One iteration -/

section Iteration

variable {limit read : BufferObject → Nat} {file : List UInt8} {writer : Writer}
  {result : OutputResult}

/-- A result that is no buffer, or whose buffer fits, leaves the thread running; what it
appends has been dequeued. -/
theorem Follows.next (follows : Follows limit read file writer)
    (fits : ∀ buffer, dequeued read result buffer ≤ limit buffer) :
    ∃ appended, Follows limit (dequeued read result) (file ++ appended) (step writer result) ∧
      ∀ objects, result.Among objects →
        ∑ buffer ∈ Finset.range objects, read buffer + appended.length ≤
          ∑ buffer ∈ Finset.range objects, dequeued read result buffer := by
  cases result with
  | buffer outputBufferId outInfo outBuffers contents write =>
      have room := fits (outBuffers outputBufferId)
      simp only [dequeued, Function.update_self] at room
      refine ⟨_, follows.buffer_of_fits contents write room, ?_⟩
      have short := write.length_appended_le
        (bytes contents (read (outBuffers outputBufferId)) outInfo.size)
      simp only [bytes, List.length_map, List.length_range] at short
      intro objects among
      rw [dequeued, sum_update_add read outInfo.size among]
      exact Nat.add_le_add_left short _
  | outputBuffersChanged | outputFormatChanged | tryAgainLater =>
      refine ⟨[], ?_, fun _ _ => Nat.le_refl _⟩
      simpa [follows.step_eq_iterate, iterate, dequeued] using follows

/-- A buffer that does not fit ends the thread. -/
theorem Follows.ends (follows : Follows limit read file writer) {buffer : BufferObject}
    (exceeds : limit buffer < dequeued read result buffer) :
    step writer result = { writer with running := false } := by
  have within := follows.read_le buffer
  cases result with
  | buffer outputBufferId outInfo outBuffers contents write =>
      by_cases same : buffer = outBuffers outputBufferId
      · subst same
        simp only [dequeued, Function.update_self] at exceeds
        exact follows.buffer_of_short (by omega)
      · simp only [dequeued, Function.update_of_ne same] at exceeds
        omega
  | _ =>
      simp only [dequeued] at exceeds
      omega

end Iteration

/-! ## A whole life -/

section Life

variable {limit read : BufferObject → Nat} {file : List UInt8} {writer : Writer}

/-- The thread runs as long as no object has been dequeued beyond its limit. -/
theorem Follows.running_iff (follows : Follows limit read file writer)
    (results : List OutputResult) :
    (run writer results).running = true ↔
      ∀ buffer, results.foldl dequeued read buffer ≤ limit buffer := by
  induction results generalizing read file writer with
  | nil => exact ⟨fun _ => follows.read_le, fun _ => follows.running⟩
  | cons result results ih =>
      rw [run, List.foldl_cons, List.foldl_cons]
      by_cases fits : ∀ buffer, dequeued read result buffer ≤ limit buffer
      · obtain ⟨appended, after, -⟩ := follows.next fits
        exact ih after
      · obtain ⟨buffer, exceeds⟩ := not_forall.mp fits
        have exceeds : limit buffer < dequeued read result buffer := Nat.lt_of_not_le exceeds
        have ended : (step writer result).running = false := by rw [follows.ends exceeds]
        have stays := run_of_ended ended results
        rw [run] at stays
        rw [stays, ended]
        have grows := le_foldl_dequeued (dequeued read result) results buffer
        constructor
        · rintro ⟨⟩
        · intro within
          have bound := within buffer
          omega

/-- The file holds no more than what has been dequeued. -/
theorem Follows.exists_file (follows : Follows limit read file writer)
    (results : List OutputResult) :
    ∃ recorded, (run writer results).finalFos = some recorded ∧
      ∀ objects, (∀ result ∈ results, result.Among objects) →
        file.length ≤ ∑ buffer ∈ Finset.range objects, read buffer →
          recorded.length ≤ ∑ buffer ∈ Finset.range objects, limit buffer := by
  induction results generalizing read file writer with
  | nil =>
      refine ⟨file, follows.opened, fun objects _ short => ?_⟩
      exact Nat.le_trans short (Finset.sum_le_sum fun buffer _ => follows.read_le buffer)
  | cons result results ih =>
      rw [run, List.foldl_cons]
      by_cases fits : ∀ buffer, dequeued read result buffer ≤ limit buffer
      · obtain ⟨appended, after, added⟩ := follows.next fits
        obtain ⟨recorded, opened, bounded⟩ := ih after
        refine ⟨recorded, opened, ?_⟩
        intro objects among short
        refine bounded objects (fun other member => among other (by simp [member])) ?_
        have more := added objects (among result (by simp))
        rw [List.length_append]
        omega
      · obtain ⟨buffer, exceeds⟩ := not_forall.mp fits
        have stopped := follows.ends (Nat.lt_of_not_le exceeds)
        have stays := run_of_ended (by rw [stopped] : (step writer result).running = false) results
        rw [run] at stays
        refine ⟨file, by rw [stays, stopped, follows.opened], ?_⟩
        intro objects _ short
        exact Nat.le_trans short (Finset.sum_le_sum fun buffer _ => follows.read_le buffer)

/-- A thread whose file could not be opened runs until it is given a buffer. -/
theorem run_of_unopened {writer : Writer} (unopened : writer.finalFos = none)
    (results : List OutputResult) :
    (run writer results).finalFos = none ∧
      ((run writer results).running = true ↔
        writer.running = true ∧ ∀ result ∈ results, result.isBuffer = false) := by
  induction results generalizing writer with
  | nil => simp [run, unopened]
  | cons result results ih =>
      rw [run, List.foldl_cons]
      have nothing : (step writer result).finalFos = none ∧
          ((step writer result).running = true ↔
            writer.running = true ∧ result.isBuffer = false) := by
        cases running : writer.running with
        | false => simp [step, running, unopened]
        | true =>
            cases result with
            | buffer outputBufferId outInfo outBuffers contents write =>
                simp only [step, running, if_true, iterate, OutputResult.isBuffer]
                split <;> simp [unopened]
            | _ => simp [step, running, iterate, unopened, OutputResult.isBuffer]
      obtain ⟨still, onward⟩ := ih nothing.1
      refine ⟨still, ?_⟩
      rw [run] at onward
      rw [onward, nothing.2]
      simp [and_assoc]

end Life

/-- What becomes of a recorder that has been given these results. -/
structure Lifetime (limit : BufferObject → Nat) (opened : Bool) (results : List OutputResult) :
    Prop where
  running_iff : (run (onFirstCapture limit opened) results).running = true ↔
    if opened then ∀ buffer, total results buffer ≤ limit buffer
    else ∀ result ∈ results, result.isBuffer = false
  grows : ∀ iterations, (run (onFirstCapture limit opened) (results.take iterations)).file <+:
    (run (onFirstCapture limit opened) results).file
  bounded : ∀ objects, (∀ result ∈ results, result.Among objects) →
    (run (onFirstCapture limit opened) results).file.length ≤
      ∑ buffer ∈ Finset.range objects, limit buffer

/-- Whatever the codec answers, the recorder is alive exactly when no buffer object has been
dequeued beyond its limit, and the file is a growing one that all the buffers together
bound. -/
theorem recorder_lifetime (limit : BufferObject → Nat) (opened : Bool)
    (results : List OutputResult) :
    Lifetime limit opened results := by
  cases opened with
  | false =>
      have unopened : (onFirstCapture limit false).finalFos = none := rfl
      have empty : ∀ given, (run (onFirstCapture limit false) given).file = [] := by
        intro given
        rw [Writer.file, (run_of_unopened unopened given).1]
        rfl
      refine ⟨?_, file_prefix_take _ results, ?_⟩
      · rw [(run_of_unopened unopened results).2]
        simp [onFirstCapture]
      · intro objects _
        rw [empty]
        exact Nat.zero_le _
  | true =>
      have follows := follows_onFirstCapture limit
      refine ⟨follows.running_iff results, file_prefix_take _ results, ?_⟩
      intro objects among
      obtain ⟨recorded, is, bounded⟩ := follows.exists_file results
      rw [Writer.file, is]
      exact bounded objects among (Nat.zero_le _)

end CameraEncoder

end UsbCamera
