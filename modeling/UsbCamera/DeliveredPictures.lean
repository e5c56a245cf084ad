import UsbCamera.CropPicture
import UsbCamera.DrawsDefined
import UsbCamera.FrameDelivery

/-!
# The pictures that leave the process

The bytes of a buffer that has been queued or posted, compared with the bytes of the
capture buffer at `VIDIOC_DQBUF`: over a whole session, under every interleaving with the
driver and with the threads that stop the capture and change the surfaces.
-/

namespace UsbCamera

open StoreLog

/-! ## Pixels of one buffer -/

/-- Without padding a preview buffer shows the frame it was drawn from. -/
theorem PreviewOf.showsFrame {half lines : Nat} {frame : Frame} {bytes : Int → UInt8}
    (multiple : half % 16 = 0)
    (drawn : PreviewOf (2 * half : Nat) (2 * lines : Nat) frame
      ⟨(2 * half : Nat), (2 * lines : Nat)⟩ bytes) :
    ShowsFrame frame (2 * half) (2 * lines) (2 * half) half bytes := by
  obtain ⟨heap, dst, drawn⟩ := drawn
  obtain ⟨-, -, -, scratch, -, -⟩ := of_drawPreviewSurface drawn
  rw [size_even] at scratch
  have small := scratch.2
  rcases Nat.eq_zero_or_pos lines with rfl | tall
  · constructor <;> intro y inside <;> omega
  · rw [drawPreviewSurface_unpadded frame heap dst tall multiple (by omega)] at drawn
    rw [← Option.some.inj drawn]
    refine showsFrame_of_scratch heap fun offset inside => ?_
    exact if_pos ⟨by omega, by omega⟩

/-- The pixels of a buffer are those in the middle of the frame. -/
def ShowsMiddle (signedChar : Bool) (frame : Frame) (width height : Nat) (buffer : Geometry)
    (bits : Nat → UInt8) : Prop :=
  ∀ y < buffer.height, ∀ x < buffer.width, ∀ byte < 4,
    bits (4 * (y * buffer.stride + x) + byte) =
      pixelByte (sourcePixel signedChar frame width (cropMargin height buffer.height + y)
        (cropMargin width buffer.width + x)) byte

/-- The bytes of the scratch image at a pixel of the frame. -/
theorem byteStores_even {signedChar : Bool} {frame : Frame} {half height y x byte : Nat}
    (heap : Int → UInt8) (inside : y < height) (inRow : x < 2 * half) (inPixel : byte < 4) :
    writeAll (packedAt signedChar frame (2 * half : Nat) height 0).byteStores heap
        (4 * (y * (2 * half) + x) + byte : Nat) =
      pixelByte (sourcePixel signedChar frame (2 * half) y x) byte := by
  have once : ((packedAt signedChar frame (2 * half : Nat) height 0).pixels.map
      Pixel.index).Nodup := by
    rw [map_index_even]
    exact List.nodup_range
  exact writeAll_byteStores once (mem_pixels_even inside inRow) inPixel heap

/-- An unpadded buffer not larger than the picture shows its middle, when the margins left
and right of it are equal. -/
theorem PostOf.showsMiddle {signedChar : Bool} {half height : Nat} {frame : Frame}
    {buffer : Geometry} {bits : Nat → UInt8} (narrow : buffer.width ≤ 2 * half)
    (short : buffer.height ≤ height) (evenBuffer : buffer.width % 2 = 0)
    (unpadded : buffer.stride = buffer.width)
    (drawn : PostOf (2 * half : Nat) height frame signedChar buffer bits) :
    ShowsMiddle signedChar frame (2 * half) height buffer bits := by
  intro y inside x inRow byte inPixel
  obtain ⟨fits, heap, before, packed, copies, converted, evaluated, rfl⟩ := drawn
  have small : 4 * (2 * half * height) < 2 ^ 31 := by
    have bound := fits.2.1.2
    rw [← Int.natCast_mul] at bound
    omega
  obtain ⟨_, again, cropped⟩ := drawBuffer_cropped narrow short ⟨by omega, by omega⟩ small
  cases Option.some.inj (evaluated.symm.trans again)
  rw [yvyu2RGBA_eq, Int.toNat_natCast] at converted
  have above := cropMargin_add_le short
  have left := cropMargin_add_le narrow
  have source := @cropOffset_eq buffer.width buffer.height (2 * half) height y
    (Or.inr (by omega)) narrow
  rw [paste, unpadded, cropped.pixel inside inRow inPixel, source, ← Option.some.inj converted,
    Nat.add_assoc]
  exact byteStores_even heap (by omega) (by omega) inPixel

/-! ## A whole session -/

/-- Unpadded previews show the frame that was dequeued last before them, and no frame is
previewed twice or after a later one. -/
structure PreviewsShown (width height : Nat) (memory : Memory) : Prop where
  shows : ∀ preview ∈ memory.previews, preview.buf = ⟨width, height⟩ →
    ∃ frame, (memory.frames.take preview.frame).getLast? = some frame ∧
      ShowsFrame frame width height width (width / 2) preview.bytes
  once : (memory.previews.map Preview.frame).Pairwise (· < ·)

/-- Unpadded posts of even width that fit show the middle of the frame that was dequeued last
before them, and no frame is posted after a later one. -/
structure PostsShown (signedChar : Bool) (width height : Nat) (memory : Memory) : Prop where
  shows : ∀ posted ∈ memory.posts, posted.buffer.stride = posted.buffer.width →
    posted.buffer.width % 2 = 0 → posted.buffer.width ≤ width → posted.buffer.height ≤ height →
    ∃ frame, (memory.frames.take posted.frame).getLast? = some frame ∧
      ShowsMiddle signedChar frame width height posted.buffer posted.bits
  order : (memory.posts.map Posted.frame).Pairwise (· ≤ ·)

theorem Delivered.previewsShown {signedChar : Bool} {width height : Nat} {memory : Memory}
    (delivered : Delivered signedChar width height memory) (multiple : width % 32 = 0)
    (evenHeight : height % 2 = 0) : PreviewsShown width height memory := by
  obtain ⟨half, rfl⟩ : ∃ half, width = 2 * half := ⟨width / 2, by omega⟩
  obtain ⟨lines, rfl⟩ : ∃ lines, height = 2 * lines := ⟨height / 2, by omega⟩
  have quotient : 2 * half / 2 = half := by omega
  refine ⟨fun preview member unpadded => ?_, delivered.previewOrder⟩
  obtain ⟨-, frame, latest, drawn⟩ := delivered.previews preview member
  rw [unpadded] at drawn
  rw [quotient]
  exact ⟨frame, latest, drawn.showsFrame (by omega)⟩

theorem Delivered.postsShown {signedChar : Bool} {width height : Nat} {memory : Memory}
    (delivered : Delivered signedChar width height memory) (evenWidth : width % 2 = 0) :
    PostsShown signedChar width height memory := by
  obtain ⟨half, rfl⟩ : ∃ half, width = 2 * half := ⟨width / 2, by omega⟩
  refine ⟨fun posted member unpadded evenBuffer narrow short => ?_, delivered.postOrder⟩
  obtain ⟨-, frame, latest, drawn⟩ := delivered.posts posted member
  exact ⟨frame, latest, drawn.showsMiddle narrow short evenBuffer unpadded⟩

namespace Pipeline

/-- The converters read the frame that was dequeued last, as it was dequeued. -/
def ConvertsLatest (pipeline : Pipeline) (event : PipelineEvent) : Prop :=
  ∀ thread kind index, event.event = some (thread, .convert kind index) →
    pipeline.memory.frames.getLast? =
      some (pipeline.memory.mapped (pipeline.memory.start index))

/-- During the session other threads stop the capture and change the surfaces, and every
failing `VIDIOC_DQBUF` reports `EAGAIN`. -/
def SessionEvent (event : PipelineEvent) : Prop :=
  ∀ moved ∈ event.event, World.SessionCall moved ∧ World.OnlyEagain moved

instance (event : PipelineEvent) : Decidable (SessionEvent event) :=
  inferInstanceAs (Decidable (∀ moved ∈ event.event, _))

section Runs

variable {signedChar : Bool} {mWidth mHeight : Int} {thread : ThreadId}
  {pipeline next start final : Pipeline} {events : List PipelineEvent}

theorem Delivery.convertsLatest {event : PipelineEvent}
    (delivery : Delivery signedChar mWidth mHeight thread pipeline) (call : SessionEvent event)
    (stepped : pipeline.step signedChar event = some next) :
    ConvertsLatest pipeline event := by
  intro mover kind index converts
  cases event with
  | fill fd index frame => cases converts
  | act event handed =>
      cases Option.some.inj converts
      obtain ⟨-, moved⟩ := of_act stepped
      obtain ⟨session, onlyEagain⟩ := call _ rfl
      have notStands : (pipeline.world.threads mover).bystander = true → False := by
        intro stands
        cases (World.bystander_of_step stands session moved).2.1
      have own : mover = thread := by
        by_contra distinct
        exact notStands (delivery.session.others mover distinct)
      subst own
      rcases delivery.session.own with ⟨first, pc, capture, buffers⟩ | stands
      · have stage := delivery.stage first pc capture
        have holding : pc.phase = .holding := by
          have move := World.move_of_step moved
          rw [capture] at move
          generalize next.world.threads mover = after at move
          cases move with
          | capturing inner => cases inner <;> rfl
        rw [stage.held_of_convert buffers holding moved]
        exact stage.latest holding
      · exact absurd stands notStands

theorem delivery_of_run (begun : Begun thread start)
    (ran : run signedChar start events = some final)
    (calls : ∀ event ∈ events, SessionEvent event) :
    Delivery signedChar start.world.camera.mWidth start.world.camera.mHeight thread final := by
  refine LabelledRun.invariant_of_run ?_ begun.delivery
    (LabelledRun.everyStep_of_forall_mem calls) ran
  intro before event after delivery call stepped
  exact delivery.step call stepped

end Runs

/-- The driver fills buffer 2 before the frame of `drawnFrameEvents` is dequeued. -/
def drawnFrame : List PipelineEvent :=
  .fill 5 2 (fun offset => UInt8.ofNat offset.toNat) ::
    drawnFrameEvents.map fun event => .act event .cleared

theorem exists_drawnFrame : ∃ start final : Pipeline, Begun 1 start ∧
    run false start drawnFrame = some final ∧ (∀ event ∈ drawnFrame, SessionEvent event) ∧
      start.world.camera.mWidth = (640 : Nat) ∧ start.world.camera.mHeight = (480 : Nat) := by
  obtain ⟨start, memory, opened, descriptor, isWidth, isHeight, noYuv, noRgba, goesOn, owned⟩ :=
    exists_opened_fresh
  obtain ⟨world, onward⟩ := Option.isSome_iff_exists.mp goesOn
  obtain ⟨drawn, ran, -⟩ := LabelledRun.run_append_iff.mp onward
  have calls : ∀ event ∈ drawnFrameEvents, World.SessionCall event ∧ event.2.locks = true ∧
      World.OnlyEagain event := by decide
  let filled : Pipeline :=
    ⟨start.world, start.memory.fill 5 2 fun offset => UInt8.ofNat offset.toNat⟩
  have defined : Defined 640 480 1 filled :=
    defined_of_capture isWidth isHeight opened.capture opened.others
  obtain ⟨memory', ran'⟩ := @Defined.exists_run false 640 480 1 filled
    (drawnFrameEvents.map fun event => (event, .cleared)) drawn defined (by decide)
    (by simpa [Function.comp_def] using ran)
    (List.forall_mem_map.mpr fun event member =>
      ⟨(calls event member).1, (calls event member).2.1, Handed.cleared_fits⟩)
  rw [List.map_map] at ran'
  refine ⟨start, ⟨drawn, memory'⟩, ⟨opened, ?_, ?_, ?_, ?_, ?_⟩, ?_, ?_, isWidth, isHeight⟩
  · intro index inRange
    rw [memory, descriptor]
    rfl
  · intro scratch allocated
    cases scratch with
    | yuv420sp => cases noYuv.symm.trans allocated
    | rgba8888 => cases noRgba.symm.trans allocated
  · rw [memory]
    rfl
  · rw [memory]
    rfl
  · rw [memory]
    rfl
  · exact LabelledRun.run_cons_iff.mpr ⟨filled, if_pos (List.contains_iff_mem.mpr owned), ran'⟩
  · refine List.forall_mem_cons.mpr ⟨?_, List.forall_mem_map.mpr fun event member moved same => ?_⟩
    · rintro moved ⟨⟩
    · cases same
      exact ⟨(calls event member).1, (calls event member).2.2⟩

section Session

variable {signedChar : Bool} {thread : ThreadId} {start final : Pipeline}
  {events : List PipelineEvent}

end Session

end Pipeline

end UsbCamera
