import UsbCamera.LabelledRun
import Mathlib.Logic.Function.Basic

/-!
# The recorded stream

The writer thread of the encoder takes one output buffer after another from the codec and
appends its bytes to a file.  It reads them with the relative `ByteBuffer.get`, so from the
position where the last read of the same buffer object ended, while the codec reports the
offset at which the bytes of this buffer begin.  The thread neither looks at that offset
nor moves the position.

The codec is free in what it answers: which buffers in which order, the part of each that is
valid, and what lies in the buffer.  A codec that hands a buffer out leaves its position
alone.
-/

namespace UsbCamera

namespace CameraEncoder

open LabelledRun

/-! ## Byte buffers -/

/-- The `length` bytes from `start` on. -/
def bytes (contents : Nat → UInt8) (start length : Nat) : List UInt8 :=
  (List.range length).map fun index => contents (start + index)

/-- What a `java.nio.ByteBuffer` object keeps besides the memory it shows. -/
structure ByteBuffer where
  limit : Nat
  position : Nat
  position_le : position ≤ limit

namespace ByteBuffer

def fresh (limit : Nat) : ByteBuffer :=
  ⟨limit, 0, Nat.zero_le limit⟩

/-- `get(dst, 0, length)`: the bytes from the position on, which moves behind them.
`none` is the `BufferUnderflowException`, which transfers nothing. -/
def get (buffer : ByteBuffer) (contents : Nat → UInt8) (length : Nat) :
    Option (List UInt8 × ByteBuffer) :=
  if fits : buffer.position + length ≤ buffer.limit then
    some (bytes contents buffer.position length,
      { buffer with position := buffer.position + length, position_le := fits })
  else
    none

theorem get_of_fits {buffer : ByteBuffer} {contents : Nat → UInt8} {length : Nat}
    (fits : buffer.position + length ≤ buffer.limit) :
    buffer.get contents length =
      some (bytes contents buffer.position length,
        { buffer with position := buffer.position + length, position_le := fits }) := by
  simp [get, fits]

theorem get_eq_none {buffer : ByteBuffer} {contents : Nat → UInt8} {length : Nat}
    (short : ¬buffer.position + length ≤ buffer.limit) :
    buffer.get contents length = none := by
  simp [get, short]

end ByteBuffer

@[simp]
theorem bytes_zero (contents : Nat → UInt8) (start : Nat) : bytes contents start 0 = [] :=
  rfl

theorem bytes_succ (contents : Nat → UInt8) (start length : Nat) :
    bytes contents start (length + 1) =
      contents start :: bytes contents (start + 1) length := by
  simp only [bytes, List.range_succ_eq_map, List.map_cons, List.map_map, Nat.add_zero,
    List.cons.injEq, true_and]
  apply List.map_congr_left
  intro index _
  simp [Nat.add_assoc, Nat.add_comm 1]

/-! ## The writer thread -/

/-- The identity of a buffer object. -/
abbrev BufferObject := Nat

/-- `MediaCodec.BufferInfo`, as far as it says where the bytes are. -/
structure BufferInfo where
  offset : Nat
  size : Nat
deriving DecidableEq, Repr

/-- How a call of `finalFos.write` ends; an `IOException` may leave some of the bytes in
the file. -/
inductive WriteResult where
  | written
  | ioException (count : Nat)
deriving DecidableEq, Repr

def WriteResult.appended (write : WriteResult) (encodeData : List UInt8) : List UInt8 :=
  match write with
  | .written => encodeData
  | .ioException count => encodeData.take count

/-- What `dequeueOutputBuffer` returns, with the answers of the calls that follow it in
the same iteration: the objects `getOutputBuffers` lists, what the dequeued one shows, and
how the write ends. -/
inductive OutputResult where
  | buffer (outputBufferId : Nat) (outInfo : BufferInfo) (outBuffers : Nat → BufferObject)
      (contents : Nat → UInt8) (write : WriteResult)
  | outputBuffersChanged
  | outputFormatChanged
  | tryAgainLater

structure Writer where
  byteBuffers : BufferObject → ByteBuffer
  /-- What has been written to `finalFos`, `none` when the file could not be opened. -/
  finalFos : Option (List UInt8)
  /-- Whether no exception has ended `run`. -/
  running : Bool

/-- One iteration of the loop. -/
def iterate (writer : Writer) : OutputResult → Writer
  | .buffer outputBufferId outInfo outBuffers contents write =>
      let buffer := outBuffers outputBufferId
      match (writer.byteBuffers buffer).get contents outInfo.size with
      -- only the write stands in the try block, so this exception leaves `run`
      | none => { writer with running := false }
      | some (encodeData, afterGet) =>
          let byteBuffers := Function.update writer.byteBuffers buffer afterGet
          match writer.finalFos with
          -- a null `finalFos` throws no `IOException`
          | none => { writer with byteBuffers := byteBuffers, running := false }
          | some file =>
              { writer with
                byteBuffers := byteBuffers
                finalFos := some (file ++ write.appended encodeData) }
  | .outputBuffersChanged => writer
  | .outputFormatChanged => writer
  | .tryAgainLater => writer

/-- The loop takes another iteration only while the thread runs. -/
def step (writer : Writer) (result : OutputResult) : Writer :=
  if writer.running then iterate writer result else writer

/-- The thread as `onFirstCapture` starts it. -/
def onFirstCapture (limit : BufferObject → Nat) (opened : Bool) : Writer where
  byteBuffers := fun buffer => ByteBuffer.fresh (limit buffer)
  finalFos := if opened then some [] else none
  running := true

/-- The thread after it has been given these results. -/
def run (writer : Writer) (results : List OutputResult) : Writer :=
  results.foldl step writer

/-! ## The encoder's stream -/

/-- The bytes the codec has encoded into the dequeued buffer. -/
def OutputResult.encoded : OutputResult → List UInt8
  | .buffer _ outInfo _ contents _ => bytes contents outInfo.offset outInfo.size
  | _ => []

/-- The encoder's stream, in dequeue order. -/
def stream (results : List OutputResult) : List UInt8 :=
  results.flatMap OutputResult.encoded

/-- After any number of iterations the file is the encoder's stream so far. -/
def RecordsStream (limit : BufferObject → Nat) (results : List OutputResult) : Prop :=
  ∀ iterations, (run (onFirstCapture limit true) (results.take iterations)).finalFos =
    some (stream (results.take iterations))

def OutputResult.Written : OutputResult → Prop
  | .buffer _ _ _ _ write => write = .written
  | _ => True

/-- How much has been dequeued of each buffer object, with this result. -/
def dequeued (read : BufferObject → Nat) : OutputResult → BufferObject → Nat
  | .buffer outputBufferId outInfo outBuffers _ _ =>
      Function.update read (outBuffers outputBufferId)
        (read (outBuffers outputBufferId) + outInfo.size)
  | _ => read

/-- The condition holds of every result and of what has been dequeued before it. -/
def AtEveryResult (condition : (BufferObject → Nat) → OutputResult → Prop)
    (results : List OutputResult) : Prop :=
  EveryStep (fun read result => some (dequeued read result)) condition (fun _ => 0) results

/-- The reported part lies within the buffer. -/
def OutputResult.Inside (limit : BufferObject → Nat) : OutputResult → Prop
  | .buffer outputBufferId outInfo outBuffers _ _ =>
      outInfo.offset + outInfo.size ≤ limit (outBuffers outputBufferId)
  | _ => True

/-- The reported part begins where the parts dequeued before of the same object, put
one behind the other, end. -/
def Consecutive (read : BufferObject → Nat) : OutputResult → Prop
  | .buffer outputBufferId outInfo outBuffers _ _ =>
      outInfo.size = 0 ∨ outInfo.offset = read (outBuffers outputBufferId)
  | _ => True

/-- From there on the buffer holds as many bytes, and the same ones. -/
def SameBytes (limit read : BufferObject → Nat) : OutputResult → Prop
  | .buffer outputBufferId outInfo outBuffers contents _ =>
      outInfo.size = 0 ∨
        (read (outBuffers outputBufferId) + outInfo.size ≤
            limit (outBuffers outputBufferId) ∧
          bytes contents (read (outBuffers outputBufferId)) outInfo.size =
            bytes contents outInfo.offset outInfo.size)
  | _ => True

/-- The same result with other contents in the buffer. -/
def OutputResult.withContents (fill : BufferInfo → Nat → UInt8) : OutputResult → OutputResult
  | .buffer outputBufferId outInfo outBuffers _ write =>
      .buffer outputBufferId outInfo outBuffers (fill outInfo) write
  | other => other

/-- The result without what its buffer shows. -/
def OutputResult.handout : OutputResult → OutputResult :=
  OutputResult.withContents fun _ _ => 0

/-- The codec hands out the same buffers with the same offsets and sizes, whatever it has
encoded into them. -/
def SameHandouts (first second : List OutputResult) : Prop :=
  first.map OutputResult.handout = second.map OutputResult.handout

/-! ## What one iteration appends -/

/-- The thread runs, its file has been opened, and its buffer objects stand where the
buffers dequeued so far have left them. -/
structure Follows (limit read : BufferObject → Nat) (file : List UInt8)
    (writer : Writer) : Prop where
  running : writer.running = true
  opened : writer.finalFos = some file
  limits : ∀ buffer, (writer.byteBuffers buffer).limit = limit buffer
  positions : ∀ buffer, (writer.byteBuffers buffer).position = read buffer

theorem follows_onFirstCapture (limit : BufferObject → Nat) :
    Follows limit (fun _ => 0) [] (onFirstCapture limit true) :=
  ⟨rfl, rfl, fun _ => rfl, fun _ => rfl⟩

section Iteration

variable {limit read : BufferObject → Nat} {file : List UInt8} {writer : Writer}

theorem Follows.read_le (follows : Follows limit read file writer) (buffer : BufferObject) :
    read buffer ≤ limit buffer := by
  have within := (writer.byteBuffers buffer).position_le
  rwa [follows.positions, follows.limits] at within

theorem Follows.room_iff (follows : Follows limit read file writer) (buffer : BufferObject)
    (size : Nat) :
    (writer.byteBuffers buffer).position + size ≤ (writer.byteBuffers buffer).limit ↔
      read buffer + size ≤ limit buffer := by
  rw [follows.positions, follows.limits]

theorem Follows.step_eq_iterate (follows : Follows limit read file writer)
    (result : OutputResult) : step writer result = iterate writer result := by
  simp [step, follows.running]

/-- A buffer with enough bytes behind its position is read and written. -/
theorem Follows.buffer_of_fits (follows : Follows limit read file writer)
    {outputBufferId : Nat} {outInfo : BufferInfo} {outBuffers : Nat → BufferObject}
    (contents : Nat → UInt8) (write : WriteResult)
    (fits : read (outBuffers outputBufferId) + outInfo.size ≤
      limit (outBuffers outputBufferId)) :
    Follows limit
      (dequeued read (.buffer outputBufferId outInfo outBuffers contents write))
      (file ++ write.appended (bytes contents (read (outBuffers outputBufferId)) outInfo.size))
      (step writer (.buffer outputBufferId outInfo outBuffers contents write)) := by
  have room := (follows.room_iff (outBuffers outputBufferId) outInfo.size).mpr fits
  rw [follows.step_eq_iterate]
  simp only [iterate, ByteBuffer.get_of_fits room, follows.opened, follows.positions]
  refine ⟨follows.running, rfl, ?_, ?_⟩
  · intro buffer
    by_cases same : buffer = outBuffers outputBufferId
    · subst same
      simp [follows.limits]
    · simp [Function.update_of_ne same, follows.limits]
  · intro buffer
    by_cases same : buffer = outBuffers outputBufferId
    · subst same
      simp [dequeued]
    · simp [dequeued, Function.update_of_ne same, follows.positions]

/-- A buffer with too few bytes behind its position ends the thread. -/
theorem Follows.buffer_of_short (follows : Follows limit read file writer)
    {outputBufferId : Nat} {outInfo : BufferInfo} {outBuffers : Nat → BufferObject}
    {contents : Nat → UInt8} {write : WriteResult}
    (short : ¬read (outBuffers outputBufferId) + outInfo.size ≤
      limit (outBuffers outputBufferId)) :
    step writer (.buffer outputBufferId outInfo outBuffers contents write) =
      { writer with running := false } := by
  have underflows := mt (follows.room_iff (outBuffers outputBufferId) outInfo.size).mp short
  rw [follows.step_eq_iterate]
  simp only [iterate, ByteBuffer.get_eq_none underflows]

/-- Where the bytes read are the encoded ones, the iteration records them and leaves
the thread ready for the next. -/
theorem Follows.step_of_sameBytes (follows : Follows limit read file writer)
    {result : OutputResult} (written : result.Written) (same : SameBytes limit read result) :
    Follows limit (dequeued read result) (file ++ result.encoded) (step writer result) := by
  cases result with
  | buffer outputBufferId outInfo outBuffers contents write =>
      have fits : read (outBuffers outputBufferId) + outInfo.size ≤
          limit (outBuffers outputBufferId) := by
        rcases same with empty | ⟨fits, -⟩
        · rw [empty]
          exact follows.read_le _
        · exact fits
      have recorded : write.appended
          (bytes contents (read (outBuffers outputBufferId)) outInfo.size) =
            bytes contents outInfo.offset outInfo.size := by
        rw [written]
        rcases same with empty | ⟨-, same⟩
        · simp [WriteResult.appended, empty]
        · exact same
      have after := follows.buffer_of_fits contents write fits
      rwa [recorded] at after
  | outputBuffersChanged | outputFormatChanged | tryAgainLater =>
      simpa [follows.step_eq_iterate, iterate, OutputResult.encoded, dequeued] using follows

theorem Follows.sameBytes_of_step (follows : Follows limit read file writer)
    {result : OutputResult} (written : result.Written)
    (recorded : (step writer result).finalFos = some (file ++ result.encoded)) :
    SameBytes limit read result := by
  cases result with
  | buffer outputBufferId outInfo outBuffers contents write =>
      by_cases fits : read (outBuffers outputBufferId) + outInfo.size ≤
          limit (outBuffers outputBufferId)
      · have after := follows.buffer_of_fits contents write fits
        rw [after.opened, Option.some.injEq, List.append_cancel_left_eq, written] at recorded
        exact Or.inr ⟨fits, recorded⟩
      · rw [follows.buffer_of_short fits, follows.opened, Option.some.injEq,
          List.self_eq_append_right] at recorded
        left
        simpa [OutputResult.encoded, bytes] using recorded
  | outputBuffersChanged | outputFormatChanged | tryAgainLater => trivial

end Iteration

/-! ## What a run records -/

/-- From a thread in any such state on, the file grows by the stream exactly when
every dequeued buffer is read where its bytes are. -/
theorem Follows.records_iff {limit read : BufferObject → Nat} {file : List UInt8}
    {writer : Writer} (follows : Follows limit read file writer)
    {results : List OutputResult} (written : ∀ result ∈ results, result.Written) :
    (∀ iterations, (run writer (results.take iterations)).finalFos =
        some (file ++ stream (results.take iterations))) ↔
      EveryStep (fun read result => some (dequeued read result)) (SameBytes limit) read
        results := by
  induction results generalizing read file writer with
  | nil => simp [run, stream, follows.opened]
  | cons result results ih =>
      have firstWritten := written result (by simp)
      have laterWritten : ∀ other ∈ results, other.Written := fun other member =>
        written other (by simp [member])
      rw [everyStep_cons_iff]
      constructor
      · intro records
        have recorded := records 1
        simp only [List.take_succ_cons, List.take_zero, run, List.foldl_cons, List.foldl_nil,
          stream, List.flatMap_cons, List.flatMap_nil, List.append_nil] at recorded
        have same := follows.sameBytes_of_step firstWritten recorded
        refine ⟨same, ?_⟩
        rintro next ⟨⟩
        refine (ih (follows.step_of_sameBytes firstWritten same) laterWritten).mp ?_
        intro iterations
        simpa [run, stream] using records (iterations + 1)
      · rintro ⟨same, later⟩ iterations
        cases iterations with
        | zero => simp [run, stream, follows.opened]
        | succ iterations =>
            have onward := (ih (follows.step_of_sameBytes firstWritten same)
              laterWritten).mpr (later _ rfl) iterations
            simpa [run, stream] using onward

theorem recordsStream_iff_sameBytes {limit : BufferObject → Nat}
    {results : List OutputResult} (written : ∀ result ∈ results, result.Written) :
    RecordsStream limit results ↔ AtEveryResult (SameBytes limit) results :=
  (follows_onFirstCapture limit).records_iff written

/-! ## Whatever the buffers hold -/

section Contents

variable {fill : BufferInfo → Nat → UInt8} {limit read : BufferObject → Nat}
  {result : OutputResult} {first second results : List OutputResult}

theorem dequeued_withContents :
    dequeued read (result.withContents fill) = dequeued read result := by
  cases result <;> rfl

theorem inside_withContents : (result.withContents fill).Inside limit ↔ result.Inside limit := by
  cases result <;> rfl

theorem written_withContents : (result.withContents fill).Written ↔ result.Written := by
  cases result <;> rfl

theorem consecutive_withContents :
    Consecutive read (result.withContents fill) ↔ Consecutive read result := by
  cases result <;> rfl

/-- A condition that holds of every result, with the contents replaced. -/
theorem atEveryResult_map_iff {condition : (BufferObject → Nat) → OutputResult → Prop} :
    AtEveryResult condition (results.map (OutputResult.withContents fill)) ↔
      AtEveryResult (fun read result => condition read (result.withContents fill)) results := by
  apply everyStep_map_iff
  intro read result
  rw [dequeued_withContents]

/-- A condition on single results that does not see the contents. -/
theorem SameHandouts.forall_iff (same : SameHandouts first second)
    {condition : OutputResult → Prop}
    (blind : ∀ result, condition (OutputResult.handout result) ↔ condition result) :
    (∀ result ∈ first, condition result) ↔ ∀ result ∈ second, condition result := by
  have handouts := congrArg (fun results => ∀ result ∈ results, condition result) same
  simp only [List.forall_mem_map, blind] at handouts
  exact iff_of_eq handouts

theorem SameHandouts.consecutive_iff (same : SameHandouts first second) :
    AtEveryResult Consecutive first ↔ AtEveryResult Consecutive second := by
  have handouts := congrArg (AtEveryResult Consecutive) same
  simp only [OutputResult.handout, atEveryResult_map_iff, consecutive_withContents] at handouts
  exact iff_of_eq handouts

/-- Read from the reported offset, the bytes are the encoded ones. -/
theorem sameBytes_of_consecutive (inside : result.Inside limit)
    (consecutive : Consecutive read result) : SameBytes limit read result := by
  cases result with
  | buffer outputBufferId outInfo outBuffers contents write =>
      rcases consecutive with empty | begins
      · exact Or.inl empty
      · refine Or.inr ⟨?_, ?_⟩
        · rw [← begins]
          exact inside
        · rw [← begins]
  | outputBuffersChanged | outputFormatChanged | tryAgainLater => trivial

/-- Contents whose only byte that is not zero stands at the reported offset. -/
def marked (outInfo : BufferInfo) (index : Nat) : UInt8 :=
  if index = outInfo.offset then 1 else 0

/-- With such contents nothing but reading from the offset gives the encoded bytes. -/
theorem consecutive_of_sameBytes_marked
    (same : SameBytes limit read (result.withContents marked)) : Consecutive read result := by
  cases result with
  | buffer outputBufferId outInfo outBuffers contents write =>
      rcases same with empty | ⟨-, same⟩
      · exact Or.inl empty
      · obtain empty | ⟨rest, nonempty⟩ :
            outInfo.size = 0 ∨ ∃ rest, outInfo.size = rest + 1 := by
          cases outInfo.size <;> simp
        · exact Or.inl empty
        · right
          simp only [nonempty, bytes_succ, List.cons.injEq, marked, if_true] at same
          by_contra elsewhere
          simp [Ne.symm elsewhere] at same
  | outputBuffersChanged | outputFormatChanged | tryAgainLater => trivial

end Contents

theorem recordsStream_of_consecutive {limit : BufferObject → Nat}
    {results : List OutputResult} (inside : ∀ result ∈ results, result.Inside limit)
    (written : ∀ result ∈ results, result.Written)
    (consecutive : AtEveryResult Consecutive results) : RecordsStream limit results :=
  (recordsStream_iff_sameBytes written).mpr
    ((consecutive.and (everyStep_of_forall_mem inside)).imp fun _ _ conditions =>
      sameBytes_of_consecutive conditions.2 conditions.1)

/-- The file is the encoder's stream exactly when every dequeued buffer shows the same
bytes at the position of its object as at the reported offset.  With no regard to what is
encoded it is so exactly when the two are the same place. -/
theorem recordsStream_iff {limit : BufferObject → Nat} {results : List OutputResult}
    (inside : ∀ result ∈ results, result.Inside limit)
    (written : ∀ result ∈ results, result.Written) :
    (RecordsStream limit results ↔ AtEveryResult (SameBytes limit) results) ∧
      ((∀ others, SameHandouts others results → RecordsStream limit others) ↔
        AtEveryResult Consecutive results) := by
  refine ⟨recordsStream_iff_sameBytes written, ?_, ?_⟩
  · intro records
    have handouts : SameHandouts (results.map (OutputResult.withContents marked)) results := by
      simp only [SameHandouts, List.map_map]
      apply List.map_congr_left
      intro result _
      cases result <;> rfl
    have markedWritten : ∀ result ∈ results.map (OutputResult.withContents marked),
        result.Written :=
      (handouts.forall_iff fun _ => written_withContents).mpr written
    have same := (recordsStream_iff_sameBytes markedWritten).mp (records _ handouts)
    exact (atEveryResult_map_iff.mp same).imp fun _ _ => consecutive_of_sameBytes_marked
  · intro consecutive others handouts
    exact recordsStream_of_consecutive
      ((handouts.forall_iff fun _ => inside_withContents).mpr inside)
      ((handouts.forall_iff fun _ => written_withContents).mpr written)
      (handouts.consecutive_iff.mpr consecutive)

/-- A codec that comes back to a buffer with an offset behind what it had put there. -/
def goesOn : List OutputResult :=
  [.outputFormatChanged,
    .buffer 0 ⟨0, 2⟩ id (fun index => .ofNat (index + 5)) .written,
    .outputBuffersChanged,
    .buffer 1 ⟨0, 1⟩ id (fun index => .ofNat (index + 9)) .written,
    .buffer 0 ⟨2, 1⟩ id (fun index => .ofNat (index + 1)) .written]

theorem recordsStream_iff_goesOn :
    (∀ result ∈ goesOn, result.Inside fun _ => 4) ∧ (∀ result ∈ goesOn, result.Written) ∧
      RecordsStream (fun _ => 4) goesOn ∧
      ∀ others, SameHandouts others goesOn → RecordsStream (fun _ => 4) others := by
  have inside : ∀ result ∈ goesOn, result.Inside fun _ => 4 := by
    simp [goesOn, OutputResult.Inside]
  have written : ∀ result ∈ goesOn, result.Written := by
    simp [goesOn, OutputResult.Written]
  have recorded := recordsStream_iff inside written
  refine ⟨inside, written, recorded.1.mpr ?_, recorded.2.mpr ?_⟩
  · exact ⟨trivial, Or.inr (by decide), trivial, Or.inr (by decide), Or.inr (by decide), trivial⟩
  · exact ⟨trivial, Or.inr rfl, trivial, Or.inr rfl, Or.inr rfl, trivial⟩

/-- A codec that uses one buffer for two pictures, both at its beginning. -/
def usedTwice : List OutputResult :=
  [.buffer 0 ⟨0, 1⟩ id (fun index => if index = 0 then 1 else 0) .written,
    .buffer 0 ⟨0, 1⟩ id (fun index => if index = 0 then 2 else 0) .written]

theorem not_recordsStream_usedTwice :
    ((∀ result ∈ usedTwice, result.Inside fun _ => 4) ∧
        ∀ result ∈ usedTwice, result.Written) ∧
      (run (onFirstCapture (fun _ => 4) true) usedTwice).finalFos = some [1, 0] ∧
      stream usedTwice = [1, 2] ∧ ¬RecordsStream (fun _ => 4) usedTwice := by
  have file : (run (onFirstCapture (fun _ => 4) true) usedTwice).finalFos = some [1, 0] := by
    rfl
  refine ⟨⟨?_, ?_⟩, file, rfl, ?_⟩
  · simp [usedTwice, OutputResult.Inside]
  · simp [usedTwice, OutputResult.Written]
  · intro records
    have recorded : (run (onFirstCapture (fun _ => 4) true) usedTwice).finalFos =
        some (stream usedTwice) := records 2
    rw [file] at recorded
    exact absurd recorded (by decide)

end CameraEncoder

end UsbCamera
