import UsbCamera.BufferOwnership
import UsbCamera.EncoderPicture
import UsbCamera.PackedPicture
import UsbCamera.PreviewCopySize

/-!
# The memory the frames go through

`CameraWorld` says who may do what next and nothing about bytes.  Here every step also
acts on memory: the driver fills the capture buffers it owns, the converters read the
mapped buffer and store into a scratch image, the copies go from there into window
buffers, and a window buffer that is queued or posted leaves the process.  The log of
what has been dequeued and what has left is kept with the memory.
-/

namespace UsbCamera

open CheckedInt StoreLog

/-! ## Bytes of packed pixels and of copies -/

/-- Byte `byte` of a pixel in memory. -/
def pixelByte (value : BitVec 32) (byte : Nat) : UInt8 :=
  ⟨value.extractLsb' (8 * byte) 8⟩

/-- The writes of `rgbData` as bytes of the `char` array it points into. -/
def Packed.byteStores (packed : Packed) : List (Store UInt8) :=
  packed.pixels.flatMap fun pixel =>
    (List.range 4).map fun byte => ⟨(4 * pixel.index + byte : Nat), pixelByte pixel.value byte⟩

theorem Packed.mem_byteStores {packed : Packed} {store : Store UInt8} :
    store ∈ packed.byteStores ↔ ∃ pixel ∈ packed.pixels, ∃ byte < 4,
      store = ⟨(4 * pixel.index + byte : Nat), pixelByte pixel.value byte⟩ := by
  simp only [byteStores, List.mem_flatMap, List.mem_map, List.mem_range, eq_comm]

/-- When every index is written once, the bytes of a pixel are found at its index. -/
theorem writeAll_byteStores {packed : Packed} {pixel : Pixel} {byte : Nat}
    (once : (packed.pixels.map Pixel.index).Nodup) (member : pixel ∈ packed.pixels)
    (inPixel : byte < 4) (memory : Int → UInt8) :
    writeAll packed.byteStores memory (4 * pixel.index + byte : Nat) =
      pixelByte pixel.value byte := by
  have stored := Packed.mem_byteStores.mpr ⟨pixel, member, byte, inPixel, rfl⟩
  refine writeAll_of_mem stored ?_
  intro other otherMember there
  obtain ⟨otherPixel, member', otherByte, otherInPixel, rfl⟩ :=
    Packed.mem_byteStores.mp otherMember
  have there := Int.natCast_inj.mp there
  have sameByte : otherByte = byte := by omega
  have sameIndex : otherPixel.index = pixel.index := by omega
  rw [List.inj_on_of_nodup_map once member' member sameIndex, sameByte]

/-- The memory behind a buffer after copies from an image. -/
def paste (copies : List Copy) (image : Int → UInt8) (bits : Nat → UInt8) (offset : Nat) :
    UInt8 :=
  match Copy.copiedFrom copies offset with
  | some source => image source
  | none => bits offset

/-! ## Memory -/

/-- `new char[mWidth * mHeight * 3 / 2]` has a size. -/
def YuvFits (mWidth mHeight : Int) : Prop :=
  Fits (mWidth * mHeight) ∧ Fits (mWidth * mHeight * 3) ∧ 0 ≤ mWidth * mHeight * 3

instance (mWidth mHeight : Int) : Decidable (YuvFits mWidth mHeight) :=
  inferInstanceAs (Decidable (_ ∧ _))

/-- The scratch image has a size. -/
def Scratch.Fits (mWidth mHeight : Int) : Scratch → Prop
  | .yuv420sp => YuvFits mWidth mHeight
  | .rgba8888 => RgbaFits mWidth mHeight

instance (mWidth mHeight : Int) (scratch : Scratch) : Decidable (scratch.Fits mWidth mHeight) :=
  match scratch with
  | .yuv420sp => inferInstanceAs (Decidable (YuvFits mWidth mHeight))
  | .rgba8888 => inferInstanceAs (Decidable (RgbaFits mWidth mHeight))

/-- The pointer to the scratch image is not null. -/
def Camera.allocated (camera : Camera) : Scratch → Bool
  | .yuv420sp => camera.mYuv420sp
  | .rgba8888 => camera.mRGBA8888

/-- What the environment hands over with an action: the bytes behind fresh heap memory or
a locked buffer, and the geometry of a window buffer. -/
structure Handed where
  bytes : Int → UInt8
  window : WindowBuffer
  encoder : Geometry

/-- A buffer given to `queueBuffer`; `frame` counts the frames dequeued before. -/
structure Preview where
  frame : Nat
  window : Option Surface
  buf : WindowBuffer
  bytes : Int → UInt8

/-- A buffer given to `ANativeWindow_unlockAndPost`. -/
structure Posted where
  frame : Nat
  window : Option Surface
  buffer : Geometry
  bits : Nat → UInt8

/-- `mapped` holds the driver's buffers by descriptor and index, and `start` which of them
an entry of `mBufferArray` points to; `buf`, `dst` and `buffer` with `bits` are the locals of
the two draws.  `frames`, `previews` and `posts` log what was dequeued and what left. -/
structure Memory where
  start : Nat → Int × Nat
  mapped : Int × Nat → Frame
  mYuv420sp : Int → UInt8
  mRGBA8888 : Int → UInt8
  buf : ThreadId → WindowBuffer
  dst : ThreadId → Option (Int → UInt8)
  buffer : ThreadId → Geometry
  bits : ThreadId → Nat → UInt8
  frames : List Frame
  previews : List Preview
  posts : List Posted

namespace Memory

def setScratch (memory : Memory) (bytes : Int → UInt8) : Scratch → Memory
  | .yuv420sp => { memory with mYuv420sp := bytes }
  | .rgba8888 => { memory with mRGBA8888 := bytes }

/-- The driver writes a frame. -/
def fill (memory : Memory) (fd : Int) (index : Nat) (frame : Frame) : Memory :=
  { memory with
    mapped := fun buffer => if buffer = (fd, index) then frame else memory.mapped buffer }

/-- The effect of an action on memory, `camera` being the object before it; `none` where
the code overflows an `int` or copies to a pointer that was never set. -/
def apply (signedChar : Bool) (camera : Camera) (thread : ThreadId) (handed : Handed)
    (memory : Memory) : Action → Option Memory
  | .mapBuf fd index _ true =>
      some { memory with start := Function.update memory.start index (fd, index) }
  | .dequeueBuf fd (.filled index) =>
      some { memory with frames := memory.frames ++ [memory.mapped (fd, index)] }
  -- `bufWidth` and `bufHeight` are computed right after the window has been taken
  | .readPreview _ => do
      let _ ← evenUp camera.mWidth
      let _ ← evenUp camera.mHeight
      some memory
  | .allocScratch scratch =>
      if camera.allocated scratch then some memory
      else if scratch.Fits camera.mWidth camera.mHeight then
        some (memory.setScratch handed.bytes scratch)
      else none
  | .convert .yuv420sp index => do
      let yvyu := memory.mapped (memory.start index)
      let planar ← yvyu2Yuv420 yvyu camera.mWidth camera.mHeight
      some { memory with mYuv420sp := writeAll planar.stores memory.mYuv420sp }
  | .convert .rgba8888 index => do
      let yvyu := memory.mapped (memory.start index)
      let packed ← yvyu2RGBA signedChar yvyu camera.mWidth camera.mHeight
      some { memory with mRGBA8888 := writeAll packed.byteStores memory.mRGBA8888 }
  | .window _ (.dequeue true) =>
      some { memory with buf := Function.update memory.buf thread handed.window }
  -- `mapper.lock` sets `dst` only when it succeeds
  | .window _ (.lockBuffer ok) =>
      some { memory with
        dst := Function.update memory.dst thread (if ok then some handed.bytes else none) }
  | .copyScratch .yuv420sp => do
      let dst ← memory.dst thread
      let copied ← (memory.buf thread).copySize
      let shown (offset : Int) : UInt8 :=
        if 0 ≤ offset ∧ offset < copied.toNat then memory.mYuv420sp offset else dst offset
      some { memory with dst := Function.update memory.dst thread (some shown) }
  | .window window (.queue true) => do
      let bytes ← memory.dst thread
      some { memory with
        previews :=
          memory.previews ++ [⟨memory.frames.length, window, memory.buf thread, bytes⟩] }
  | .window _ (.lockWindow true) =>
      some { memory with
        buffer := Function.update memory.buffer thread handed.encoder
        bits := Function.update memory.bits thread fun offset => handed.bytes offset }
  | .copyScratch .rgba8888 => do
      let copies ← drawBuffer camera.mWidth camera.mHeight (memory.buffer thread)
      some { memory with
        bits := Function.update memory.bits thread
          (paste copies memory.mRGBA8888 (memory.bits thread)) }
  | .window window .post =>
      some { memory with
        posts := memory.posts ++
          [⟨memory.frames.length, window, memory.buffer thread, memory.bits thread⟩] }
  | _ => some memory

end Memory

/-! ## Steps -/

structure Pipeline where
  world : World
  memory : Memory

/-- The driver writes a frame into one of its buffers, or a thread takes a step. -/
inductive PipelineEvent
  | fill (fd : Int) (index : Nat) (frame : Frame)
  | act (event : Event) (handed : Handed)

/-- The step of a thread. -/
def PipelineEvent.event : PipelineEvent → Option Event
  | .fill _ _ _ => none
  | .act event _ => some event

namespace Pipeline

def step (signedChar : Bool) (pipeline : Pipeline) : PipelineEvent → Option Pipeline
  | .fill fd index frame =>
      if pipeline.world.device.driverOwned.contains (fd, index) then
        some { pipeline with memory := pipeline.memory.fill fd index frame }
      else none
  | .act event handed => do
      let memory ← pipeline.memory.apply signedChar pipeline.world.camera event.1 handed event.2
      let world ← pipeline.world.step event
      some ⟨world, memory⟩

abbrev run (signedChar : Bool) : Pipeline → List PipelineEvent → Option Pipeline :=
  LabelledRun.run (step signedChar)

abbrev EveryStep (signedChar : Bool) (meets : Pipeline → PipelineEvent → Prop) :
    Pipeline → List PipelineEvent → Prop :=
  LabelledRun.EveryStep (step signedChar) meets

section Steps

variable {signedChar : Bool} {pipeline next : Pipeline}

theorem of_fill {fd : Int} {index : Nat} {frame : Frame}
    (stepped : pipeline.step signedChar (.fill fd index frame) = some next) :
    (fd, index) ∈ pipeline.world.device.driverOwned ∧
      next = { pipeline with memory := pipeline.memory.fill fd index frame } := by
  simp only [step, Option.ite_none_right_eq_some, List.contains_iff_mem] at stepped
  exact stepped.imp_right fun same => (Option.some.inj same).symm

theorem of_act {event : Event} {handed : Handed}
    (stepped : pipeline.step signedChar (.act event handed) = some next) :
    pipeline.memory.apply signedChar pipeline.world.camera event.1 handed event.2 =
        some next.memory ∧ pipeline.world.step event = some next.world := by
  simp only [step, Option.bind_eq_bind, Option.bind_eq_some_iff] at stepped
  obtain ⟨memory, applied, world, moved, same⟩ := stepped
  rw [← Option.some.inj same]
  exact ⟨applied, moved⟩

/-- The threads of a run of the pipeline take the steps of a run of the camera. -/
theorem run_world {final : Pipeline} {events : List PipelineEvent}
    (ran : run signedChar pipeline events = some final) :
    World.run pipeline.world (events.filterMap PipelineEvent.event) = some final.world := by
  induction events generalizing pipeline with
  | nil =>
      cases Option.some.inj ran
      rfl
  | cons event events ih =>
      obtain ⟨middle, stepped, rest⟩ := LabelledRun.run_cons_iff.mp ran
      cases event with
      | fill fd index frame =>
          have same : middle.world = pipeline.world := by rw [(of_fill stepped).2]
          rw [← same]
          exact ih rest
      | act event handed =>
          exact LabelledRun.run_cons_iff.mpr ⟨middle.world, (of_act stepped).2, ih rest⟩

end Steps

end Pipeline

end UsbCamera
