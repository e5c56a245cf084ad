import UsbCamera.NativePrograms

/-!
# The window calls of a preview

`drawPreviewSurface` dequeues a buffer from the window, locks it with the mapper, copies,
unlocks and queues it.  The mapper sets `dst` only when it succeeds, and its result is not
looked at: after a failed lock the copy goes through whatever the local variable held, and
the buffer is queued like any other.  Buffers are given back and the preview lock is released
on every path that returns; only a null window, taken before the lock, keeps a call from
returning.
-/

namespace UsbCamera

/-- A buffer of a window, by its handle. -/
abbrev BufferHandle := Nat

/-- Where a locked buffer is mapped. -/
abbrev Address := Nat

/-- What one call of `drawPreviewSurface` finds: the surface it takes its window from and the
surface it tests under the lock, the results of its window calls (a buffer or an address when
they succeed), and the value its uninitialised local `dst` has. -/
structure PreviewOutcome where
  nativeWindow : Option Surface
  mPreviewSurface : Option Surface
  index : Nat
  dequeue : Option BufferHandle
  lockBuffer : Option Address
  unlockBuffer : Bool
  queue : Bool
  uninitialised : Address

/-- A statement of `drawPreviewSurface`, with the arguments and results that matter for the
buffers. -/
inductive PreviewEvent
  | takeWindow
  | lockPreview
  | testSurface
  | freeScratch
  | allocScratch
  | convert
  | configure
  | dequeueBuffer (buffer : Option BufferHandle)
  | lockBuffer (buffer : BufferHandle) (vaddr : Option Address)
  | memcpy (dst : Address)
  | unlockBuffer (buffer : BufferHandle)
  | queueBuffer (buffer : BufferHandle)
  | cancelBuffer (buffer : BufferHandle)
  | unlockPreview
  deriving DecidableEq

namespace PreviewOutcome

/-- The local `dst` after `mapper.lock`. -/
def dst (outcome : PreviewOutcome) : Address :=
  outcome.lockBuffer.getD outcome.uninitialised

/-- A call that finds a surface under the lock while its window is null stops in the first
window call, which goes through the null pointer. -/
def returns (outcome : PreviewOutcome) : Bool :=
  outcome.mPreviewSurface.isNone || outcome.nativeWindow.isSome

/-- What `drawPreviewSurface` does, statement by statement. -/
def events (outcome : PreviewOutcome) : List PreviewEvent :=
  [.takeWindow, .lockPreview, .testSurface] ++
    match outcome.mPreviewSurface with
    | none => [.freeScratch, .unlockPreview]
    | some _ =>
        [.allocScratch, .convert, .configure] ++
          match outcome.nativeWindow with
          | none => []
          | some _ =>
              .dequeueBuffer outcome.dequeue ::
                match outcome.dequeue with
                | none => [.unlockPreview]
                | some buffer =>
                    [.lockBuffer buffer outcome.lockBuffer, .memcpy outcome.dst,
                      .unlockBuffer buffer, .queueBuffer buffer, .unlockPreview]

/-- The four ways through `drawPreviewSurface`: no surface, a null window, no buffer, and a
buffer. -/
theorem events_cases (outcome : PreviewOutcome) :
    (outcome.mPreviewSurface = none ∧ outcome.returns = true ∧
      outcome.events = [.takeWindow, .lockPreview, .testSurface, .freeScratch, .unlockPreview]) ∨
    (outcome.mPreviewSurface ≠ none ∧ outcome.nativeWindow = none ∧ outcome.returns = false ∧
      outcome.events = [.takeWindow, .lockPreview, .testSurface, .allocScratch, .convert,
        .configure]) ∨
    (outcome.mPreviewSurface ≠ none ∧ outcome.nativeWindow ≠ none ∧ outcome.returns = true ∧
      outcome.dequeue = none ∧
      outcome.events = [.takeWindow, .lockPreview, .testSurface, .allocScratch, .convert,
        .configure, .dequeueBuffer none, .unlockPreview]) ∨
    (outcome.mPreviewSurface ≠ none ∧ outcome.nativeWindow ≠ none ∧ outcome.returns = true ∧
      ∃ buffer, outcome.dequeue = some buffer ∧
        outcome.events = [.takeWindow, .lockPreview, .testSurface, .allocScratch, .convert,
          .configure, .dequeueBuffer (some buffer), .lockBuffer buffer outcome.lockBuffer,
          .memcpy outcome.dst, .unlockBuffer buffer, .queueBuffer buffer, .unlockPreview]) := by
  unfold events returns
  cases outcome.mPreviewSurface with
  | none => simp
  | some surface =>
      cases outcome.nativeWindow with
      | none => simp
      | some window => cases outcome.dequeue <;> simp

/-- The step of the capture program an event stands for; it makes no other. -/
def action (outcome : PreviewOutcome) : PreviewEvent → Option Action
  | .takeWindow => some (.readPreview outcome.nativeWindow)
  | .lockPreview => some (.lock .previewLock)
  | .testSurface => some (.readPreview outcome.mPreviewSurface)
  | .freeScratch => some (.freeScratch .yuv420sp)
  | .allocScratch => some (.allocScratch .yuv420sp)
  | .convert => some (.convert .yuv420sp outcome.index)
  | .configure => some (.window outcome.nativeWindow .configure)
  | .dequeueBuffer buffer => some (.window outcome.nativeWindow (.dequeue buffer.isSome))
  | .lockBuffer _ vaddr => some (.window outcome.nativeWindow (.lockBuffer vaddr.isSome))
  | .memcpy _ => some (.copyScratch .yuv420sp)
  | .unlockBuffer _ => some (.window outcome.nativeWindow (.unlockBuffer outcome.unlockBuffer))
  | .queueBuffer _ => some (.window outcome.nativeWindow (.queue outcome.queue))
  | .cancelBuffer _ => none
  | .unlockPreview => some (.unlock .previewLock)

/-- The program counter after some events. -/
def follow (outcome : PreviewOutcome) (pc : PreviewPc) (events : List PreviewEvent) :
    Option PreviewPc :=
  events.foldlM (fun pc event => (outcome.action event).bind pc.next) pc

/-- The events are a path through `drawPreviewSurface` from its start; it is a path to the
end when the call returns. -/
theorem follow_events (outcome : PreviewOutcome) :
    outcome.follow .takeWindow outcome.events =
      some (if outcome.returns then .returned else .dequeue outcome.nativeWindow) := by
  obtain ⟨window, surface, index, dequeue, lockBuffer, unlocked, queued, rest⟩ := outcome
  cases surface with
  | none => rfl
  | some surface =>
      cases window with
      | none => rfl
      | some window =>
          cases dequeue with
          | none => simp [follow, events, action, returns, PreviewPc.next]
          | some buffer => simp [follow, events, action, returns, PreviewPc.next]

end PreviewOutcome

/-! ## Brackets -/

/-- Every dequeued buffer is given back once, queued or cancelled. -/
def GivenBack (events : List PreviewEvent) : Prop :=
  ∀ buffer, events.count (.queueBuffer buffer) + events.count (.cancelBuffer buffer) =
    events.count (.dequeueBuffer (some buffer))

theorem GivenBack.append {before after : List PreviewEvent} (first : GivenBack before)
    (second : GivenBack after) : GivenBack (before ++ after) := by
  intro buffer
  have := first buffer
  have := second buffer
  simp only [List.count_append]
  omega

theorem GivenBack.flatten {calls : List (List PreviewEvent)}
    (each : ∀ call ∈ calls, GivenBack call) : GivenBack calls.flatten := by
  induction calls with
  | nil => intro buffer; rfl
  | cons call calls ih =>
      rw [List.flatten_cons]
      exact (each call (by simp)).append (ih fun other member => each other (by simp [member]))

/-- The bracket discipline of one call. -/
structure WindowHandled (call : List PreviewEvent) : Prop where
  /-- A copy writes through an address that a lock of the dequeued buffer returned. -/
  writes : ∀ before dst after, call = before ++ .memcpy dst :: after →
    ∃ buffer, .dequeueBuffer (some buffer) ∈ before ∧ .lockBuffer buffer (some dst) ∈ before
  givenBack : GivenBack call
  /-- A buffer whose lock failed is not queued. -/
  notDisplayed : ∀ buffer, .lockBuffer buffer none ∈ call → .queueBuffer buffer ∉ call
  /-- The preview lock is taken and released once. -/
  released : call.count .lockPreview = 1 ∧ call.count .unlockPreview = 1

/-- The discipline over a run, given by its calls: each call is in order, and at every end of
a call no buffer is out. -/
structure RunHandled (calls : List (List PreviewEvent)) : Prop where
  handled : ∀ call ∈ calls, WindowHandled call
  balanced : ∀ done, done <+: calls → GivenBack done.flatten

theorem runHandled_of_windowHandled {calls : List (List PreviewEvent)}
    (handled : ∀ call ∈ calls, WindowHandled call) : RunHandled calls where
  handled := handled
  balanced _ started :=
    .flatten fun call member => (handled call (started.subset member)).givenBack

namespace PreviewOutcome

/-- Dequeued buffers are given back whatever the window and the mapper answer. -/
theorem givenBack_events (outcome : PreviewOutcome) : GivenBack outcome.events := by
  intro other
  rcases outcome.events_cases with ⟨-, -, events⟩ | ⟨-, -, -, events⟩ | ⟨-, -, -, -, events⟩ |
    ⟨-, -, -, buffer, -, events⟩
  · rw [events]; rfl
  · rw [events]; rfl
  · rw [events]; rfl
  · simp [events, List.count_cons]

theorem count_lockPreview (outcome : PreviewOutcome) :
    outcome.events.count .lockPreview = 1 := by
  rcases outcome.events_cases with ⟨-, -, events⟩ | ⟨-, -, -, events⟩ | ⟨-, -, -, -, events⟩ |
    ⟨-, -, -, buffer, -, events⟩ <;> simp [events]

/-- The preview lock is released once on every path to a return. -/
theorem count_unlockPreview (outcome : PreviewOutcome) :
    outcome.events.count .unlockPreview = outcome.returns.toNat := by
  rcases outcome.events_cases with ⟨-, returned, events⟩ | ⟨-, -, stuck, events⟩ |
    ⟨-, -, returned, -, events⟩ | ⟨-, -, returned, buffer, -, events⟩
  · simp [events, returned]
  · simp [events, stuck]
  · simp [events, returned]
  · simp [events, returned]

/-- The window results under which a call of `drawPreviewSurface` is in order: no surface, or
a window whose buffer, if it gives one, can be locked. -/
def LockSucceeds (outcome : PreviewOutcome) : Prop :=
  outcome.mPreviewSurface = none ∨
    outcome.nativeWindow ≠ none ∧ (outcome.dequeue = none ∨ outcome.lockBuffer ≠ none)

theorem LockSucceeds.returns {outcome : PreviewOutcome} (good : outcome.LockSucceeds) :
    outcome.returns = true := by
  rcases good with noSurface | ⟨window, -⟩
  · simp [PreviewOutcome.returns, noSurface]
  · simp [PreviewOutcome.returns, Option.isSome_iff_ne_none, window]

/-- A copy after a successful lock goes through the address the lock returned. -/
theorem LockSucceeds.writes {outcome : PreviewOutcome} (good : outcome.LockSucceeds)
    {before after : List PreviewEvent} {dst : Address}
    (copied : outcome.events = before ++ .memcpy dst :: after) :
    ∃ buffer, .dequeueBuffer (some buffer) ∈ before ∧ .lockBuffer buffer (some dst) ∈ before := by
  have copies : .memcpy dst ∈ outcome.events := by simp [copied]
  rcases outcome.events_cases with ⟨-, -, events⟩ | ⟨-, -, -, events⟩ | ⟨-, -, -, -, events⟩ |
    ⟨surface, window, -, buffer, dequeued, events⟩
  · simp [events] at copies
  · simp [events] at copies
  · simp [events] at copies
  · obtain ⟨vaddr, locked⟩ : ∃ vaddr, outcome.lockBuffer = some vaddr := by
      simpa [LockSucceeds, surface, window, dequeued, Option.ne_none_iff_exists'] using good
    obtain ⟨rfl, rfl, -⟩ : _ ∧ dst = vaddr ∧ _ := by
      simpa [events, List.cons_eq_append_iff, PreviewOutcome.dst, locked] using copied
    exact ⟨buffer, by simp, by simp⟩

/-- A failed lock is one of a call that is not in order. -/
theorem LockSucceeds.locked {outcome : PreviewOutcome} (good : outcome.LockSucceeds)
    (buffer : BufferHandle) : .lockBuffer buffer none ∉ outcome.events := by
  intro failed
  rcases outcome.events_cases with ⟨-, -, events⟩ | ⟨-, -, -, events⟩ | ⟨-, -, -, -, events⟩ |
    ⟨surface, window, -, other, dequeued, events⟩
  · simp [events] at failed
  · simp [events] at failed
  · simp [events] at failed
  · obtain ⟨-, unlocked⟩ : buffer = other ∧ outcome.lockBuffer = none := by
      simpa [events, eq_comm] using failed
    rcases good with noSurface | ⟨-, refused | mapped⟩
    · exact surface noSurface
    · simp [refused] at dequeued
    · exact mapped unlocked

/-- A call is in order exactly when its lock succeeds. -/
theorem windowHandled_iff (outcome : PreviewOutcome) :
    WindowHandled outcome.events ↔ outcome.LockSucceeds := by
  constructor
  · intro handled
    rcases outcome.events_cases with ⟨noSurface, -⟩ | ⟨-, -, stuck, -⟩ |
      ⟨-, window, -, refused, -⟩ | ⟨-, window, -, buffer, -, events⟩
    · exact .inl noSurface
    · have released := handled.released.2
      rw [count_unlockPreview, stuck] at released
      cases released
    · exact .inr ⟨window, .inl refused⟩
    · refine .inr ⟨window, .inr fun failed => ?_⟩
      exact handled.notDisplayed buffer (by simp [events, failed]) (by simp [events])
  · intro good
    exact {
      writes := fun _ _ _ copied => good.writes copied
      givenBack := outcome.givenBack_events
      notDisplayed := fun buffer failed => absurd failed (good.locked buffer)
      released := ⟨outcome.count_lockPreview, by simp [count_unlockPreview, good.returns]⟩ }

end PreviewOutcome

/-! ## Runs -/

/-- The calls of a run that draws frame after frame; no frame follows a call that does not
return. -/
def drawFrames : List PreviewOutcome → List (List PreviewEvent)
  | [] => []
  | frame :: frames => frame.events :: if frame.returns then drawFrames frames else []

theorem handled_drawFrames_iff (frames : List PreviewOutcome) :
    (∀ call ∈ drawFrames frames, WindowHandled call) ↔ ∀ frame ∈ frames, frame.LockSucceeds := by
  induction frames with
  | nil => simp [drawFrames]
  | cons frame frames ih =>
      rw [drawFrames, List.forall_mem_cons, List.forall_mem_cons, frame.windowHandled_iff]
      refine and_congr_right fun good => ?_
      rw [if_pos good.returns, ih]

/-- A run keeps the bracket discipline exactly when every dequeued buffer can be locked, and
no call finds a surface after taking a null window. -/
theorem runHandled_iff (frames : List PreviewOutcome) :
    RunHandled (drawFrames frames) ↔ ∀ frame ∈ frames, frame.LockSucceeds := by
  rw [← handled_drawFrames_iff]
  exact ⟨fun run => run.handled, runHandled_of_windowHandled⟩

/-- The second frame's lock fails: its copy writes through `0xdead`, which no lock returned,
and its buffer is queued. -/
theorem not_runHandled :
    ¬∀ frames : List PreviewOutcome, RunHandled (drawFrames frames) := by
  intro always
  have handled := (always [
    ⟨some 1, some 1, 0, some 7, some 0x1000, true, true, 0xbeef⟩,
    ⟨some 1, some 1, 1, some 8, none, true, true, 0xdead⟩]).handled
  obtain ⟨buffer, -, locked⟩ := (handled _ (.tail _ (.head _))).writes
    [.takeWindow, .lockPreview, .testSurface, .allocScratch, .convert, .configure,
      .dequeueBuffer (some 8), .lockBuffer 8 none] 0xdead
    [.unlockBuffer 8, .queueBuffer 8, .unlockPreview] rfl
  simp at locked

end UsbCamera
