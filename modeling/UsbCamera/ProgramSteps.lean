import UsbCamera.CameraWorld
import Mathlib.Tactic.SplitIfs

/-!
# What each program can do next

Inversion of the `next` functions, stated once.  `CapturePc.Move` and
`OpenPc.Move` list the edges of the two long programs, with the guard each edge
observed; the draw and surface programs are described by the actions they can
perform.  Later proofs split on these edges and never unfold `next`.
-/

namespace UsbCamera

/-! ## Draw programs -/

/-- The actions of `drawPreviewSurface` and `drawEncoderSurface`. -/
def Action.draws : Action → Bool
  | .lock _ | .unlock _ | .readPreview _ | .encodersEmpty _ | .encoderAt _ _
  | .allocScratch _ | .freeScratch _ | .convert _ _ | .copyScratch _ | .window _ _ => true
  | _ => false

theorem PreviewPc.draws_of_next {pc after : PreviewPc} {action : Action}
    (moved : pc.next action = some after) : action.draws = true := by
  unfold PreviewPc.next at moved
  split at moved <;> first | rfl | cases moved

theorem EncoderPc.draws_of_next {pc after : EncoderPc} {action : Action}
    (moved : pc.next action = some after) : action.draws = true := by
  unfold EncoderPc.next at moved
  split at moved <;> first | rfl | cases moved

namespace PreviewPc

/-- The edges of `drawPreviewSurface`. -/
inductive Move : PreviewPc → Action → PreviewPc → Prop
  | takeWindow {surface : Option Surface} :
      Move .takeWindow (.readPreview surface) (.lock surface)
  | lock {window : Option Surface} :
      Move (.lock window) (.lock .previewLock) (.testSurface window)
  | noSurface {window : Option Surface} :
      Move (.testSurface window) (.readPreview none) .freeScratch
  | surface {window : Option Surface} {shown : Surface} :
      Move (.testSurface window) (.readPreview (some shown)) (.allocScratch window)
  | freeScratch : Move .freeScratch (.freeScratch .yuv420sp) .unlockEmpty
  | unlockEmpty : Move .unlockEmpty (.unlock .previewLock) .returned
  | allocScratch {window : Option Surface} :
      Move (.allocScratch window) (.allocScratch .yuv420sp) (.convert window)
  | convert {window : Option Surface} {index : Nat} :
      Move (.convert window) (.convert .yuv420sp index) (.configure window)
  | configure {window : Option Surface} :
      Move (.configure window) (.window window .configure) (.dequeue window)
  | dequeued {window : Option Surface} :
      Move (.dequeue window) (.window window (.dequeue true)) (.lockBuffer window)
  | dequeueFailed {window : Option Surface} :
      Move (.dequeue window) (.window window (.dequeue false)) .unlockFailed
  | unlockFailed : Move .unlockFailed (.unlock .previewLock) .returned
  | lockBuffer {window : Option Surface} {ok : Bool} :
      Move (.lockBuffer window) (.window window (.lockBuffer ok)) (.copy window ok)
  | copy {window : Option Surface} {locked : Bool} :
      Move (.copy window locked) (.copyScratch .yuv420sp) (.unlockBuffer window)
  | unlockBuffer {window : Option Surface} {ok : Bool} :
      Move (.unlockBuffer window) (.window window (.unlockBuffer ok)) (.queue window)
  | queue {window : Option Surface} {ok : Bool} :
      Move (.queue window) (.window window (.queue ok)) .unlockQueued
  | unlockQueued : Move .unlockQueued (.unlock .previewLock) .returned

theorem move_of_next {pc after : PreviewPc} {action : Action}
    (moved : pc.next action = some after) : Move pc action after := by
  unfold PreviewPc.next at moved
  split at moved
  case h_1 => cases moved; exact .takeWindow
  case h_2 => cases moved; exact .lock
  case h_3 => cases moved; exact .noSurface
  case h_4 => cases moved; exact .surface
  case h_5 => cases moved; exact .freeScratch
  case h_6 => cases moved; exact .unlockEmpty
  case h_7 => cases moved; exact .allocScratch
  case h_8 => cases moved; exact .convert
  case h_9 =>
      obtain ⟨rfl, placed⟩ := Option.ite_none_right_eq_some.mp moved
      cases placed
      exact .configure
  case h_10 ok =>
      obtain ⟨rfl, placed⟩ := Option.ite_none_right_eq_some.mp moved
      cases ok <;> cases placed
      · exact .dequeueFailed
      · exact .dequeued
  case h_11 => cases moved; exact .unlockFailed
  case h_12 =>
      obtain ⟨rfl, placed⟩ := Option.ite_none_right_eq_some.mp moved
      cases placed
      exact .lockBuffer
  case h_13 => cases moved; exact .copy
  case h_14 =>
      obtain ⟨rfl, placed⟩ := Option.ite_none_right_eq_some.mp moved
      cases placed
      exact .unlockBuffer
  case h_15 =>
      obtain ⟨rfl, placed⟩ := Option.ite_none_right_eq_some.mp moved
      cases placed
      exact .queue
  case h_16 => cases moved; exact .unlockQueued
  case h_17 => cases moved

end PreviewPc

namespace EncoderPc

/-- The edges of `drawEncoderSurface`. -/
inductive Move : EncoderPc → Action → EncoderPc → Prop
  | lock : Move .lock (.lock .encoderLock) .testEmpty
  | empty : Move .testEmpty (.encodersEmpty true) .unlockEmpty
  | nonempty : Move .testEmpty (.encodersEmpty false) .allocScratch
  | unlockEmpty : Move .unlockEmpty (.unlock .encoderLock) .freeScratch
  | freeScratch : Move .freeScratch (.freeScratch .rgba8888) .returned
  | allocScratch : Move .allocScratch (.allocScratch .rgba8888) .convert
  | convert {index : Nat} : Move .convert (.convert .rgba8888 index) (.iterate 0)
  | atEnd {position : Nat} : Move (.iterate position) (.encoderAt position none) .unlock
  | surface {position : Nat} {window : Surface} :
      Move (.iterate position) (.encoderAt position (some window)) (.lockWindow position window)
  | locked {position : Nat} {window : Surface} :
      Move (.lockWindow position window) (.window (some window) (.lockWindow true))
        (.copy position window)
  | lockFailed {position : Nat} {window : Surface} :
      Move (.lockWindow position window) (.window (some window) (.lockWindow false))
        (.iterate (position + 1))
  | copy {position : Nat} {window : Surface} :
      Move (.copy position window) (.copyScratch .rgba8888) (.post position window)
  | post {position : Nat} {window : Surface} :
      Move (.post position window) (.window (some window) .post) (.iterate (position + 1))
  | unlock : Move .unlock (.unlock .encoderLock) .returned

theorem move_of_next {pc after : EncoderPc} {action : Action}
    (moved : pc.next action = some after) : Move pc action after := by
  unfold EncoderPc.next at moved
  split at moved
  case h_1 => cases moved; exact .lock
  case h_2 => cases moved; exact .empty
  case h_3 => cases moved; exact .nonempty
  case h_4 => cases moved; exact .unlockEmpty
  case h_5 => cases moved; exact .freeScratch
  case h_6 => cases moved; exact .allocScratch
  case h_7 => cases moved; exact .convert
  case h_8 surface =>
      obtain ⟨rfl, placed⟩ := Option.ite_none_right_eq_some.mp moved
      cases surface <;> cases placed
      · exact .atEnd
      · exact .surface
  case h_9 ok =>
      obtain ⟨rfl, placed⟩ := Option.ite_none_right_eq_some.mp moved
      cases ok <;> cases placed
      · exact .lockFailed
      · exact .locked
  case h_10 => cases moved; exact .copy
  case h_11 =>
      obtain ⟨rfl, placed⟩ := Option.ite_none_right_eq_some.mp moved
      cases placed
      exact .post
  case h_12 => cases moved; exact .unlock
  case h_13 => cases moved

end EncoderPc

/-! ## The capture program -/

namespace CapturePc

/-- The edges of the capture program: `Move first pc action first' pc'`. -/
inductive Move (first : Bool) : CapturePc → Action → Bool → CapturePc → Prop
  | attached : Move first .getCamera (.getCamera true) first .checkFd
  | detached : Move first .getCamera (.getCamera false) first .returned
  | notOpen {fd : Int} : fd < 0 → Move first .checkFd (.readFd fd) first .returned
  | isOpen {fd : Int} : 0 ≤ fd → Move first .checkFd (.readFd fd) first .raisePeek
  | raisePeek : Move first .raisePeek (.writePeek true) first .loopTest
  | enterLoop : Move first .loopTest (.loopTest true) first .fdSet
  | leaveLoop : Move first .loopTest (.loopTest false) first .lowerPeek
  | fdSet {fd : Int} : Move first .fdSet (.readFd fd) first .select
  | select {fd result : Int} {errno : Errno} :
      Move first .select (.select fd result errno) first (.recheck result errno)
  | stillRunning {result : Int} {errno : Errno} :
      Move first (.recheck result errno) (.recheck true) first (afterSelect result errno)
  | stopped {result : Int} {errno : Errno} :
      Move first (.recheck result errno) (.recheck false) first .lowerPeek
  | clearBufInfo : Move first .clearBufInfo .clearBufInfo first .dequeueBuf
  | dequeueBuf {fd : Int} {result : DequeueResult} :
      Move first .dequeueBuf (.dequeueBuf fd result) first (afterDequeue first result)
  | notifyFirst :
      Move first .notifyFirst (.notify .firstCapture) false (.preview .takeWindow)
  | preview {pc after : PreviewPc} {action : Action} :
      pc.next action = some after →
      Move first (.preview pc) action first
        (if after = .returned then .encoder .lock else .preview after)
  | encoder {pc after : EncoderPc} {action : Action} :
      pc.next action = some after →
      Move first (.encoder pc) action first
        (if after = .returned then .requeueBuf else .encoder after)
  | requeued {fd : Int} {index : Nat} :
      Move first .requeueBuf (.requeueBuf fd index true) first .loopTest
  | requeueFailed {fd : Int} {index : Nat} :
      Move first .requeueBuf (.requeueBuf fd index false) first .closeFd
  | lowerPeek : Move first .lowerPeek (.writePeek false) first .notifyStop
  | notifyStop : Move first .notifyStop (.notify .captureStop) first .returned
  | closeFd {fd : Int} : Move first .closeFd (.closeFd fd) first .clearFd
  | clearFd : Move first .clearFd .clearFd first .notifyError
  | notifyError : Move first .notifyError (.notify .cameraError) first .returned

theorem move_of_next {first first' : Bool} {pc pc' : CapturePc} {action : Action}
    (moved : pc.next first action = some (first', pc')) :
    Move first pc action first' pc' := by
  unfold CapturePc.next at moved
  split at moved
  case h_1 attached =>
      cases attached <;> cases moved
      · exact .detached
      · exact .attached
  case h_2 fd =>
      by_cases negative : fd < 0 <;> simp [negative] at moved <;>
        obtain ⟨rfl, rfl⟩ := moved
      · exact .notOpen negative
      · exact .isOpen (by omega)
  case h_3 => cases moved; exact .raisePeek
  case h_4 value =>
      cases value <;> cases moved
      · exact .leaveLoop
      · exact .enterLoop
  case h_5 => cases moved; exact .fdSet
  case h_6 => cases moved; exact .select
  case h_7 result errno value =>
      cases value <;> cases moved
      · exact .stopped
      · exact .stillRunning
  case h_8 => cases moved; exact .clearBufInfo
  case h_9 => cases moved; exact .dequeueBuf
  case h_10 => cases moved; exact .notifyFirst
  case h_11 pc =>
      obtain ⟨after, drawn, placed⟩ := Option.map_eq_some_iff.mp moved
      cases placed
      exact .preview drawn
  case h_12 pc =>
      obtain ⟨after, drawn, placed⟩ := Option.map_eq_some_iff.mp moved
      cases placed
      exact .encoder drawn
  case h_13 ok =>
      cases ok <;> cases moved
      · exact .requeueFailed
      · exact .requeued
  case h_14 => cases moved; exact .lowerPeek
  case h_15 => cases moved; exact .notifyStop
  case h_16 => cases moved; exact .closeFd
  case h_17 => cases moved; exact .clearFd
  case h_18 => cases moved; exact .notifyError
  case h_19 => cases moved

/-- Before `mPeekRun = true`. -/
def early : CapturePc → Bool
  | .getCamera | .checkFd | .raisePeek => true
  | _ => false

@[simp]
theorem early_afterSelect (result : Int) (errno : Errno) :
    (afterSelect result errno).early = false := by
  unfold afterSelect
  split_ifs <;> rfl

@[simp]
theorem early_afterDequeue (first : Bool) (result : DequeueResult) :
    (afterDequeue first result).early = false := by
  cases result <;> simp only [afterDequeue] <;> split_ifs <;> rfl

/-- The early points are passed in order, each by the test the code makes. -/
theorem Move.early {first first' : Bool} {pc pc' : CapturePc} {action : Action}
    (move : Move first pc action first' pc') (isEarly : pc'.early = true) :
    (pc = .getCamera ∧ action = .getCamera true ∧ pc' = .checkFd) ∨
      (pc = .checkFd ∧ pc' = .raisePeek ∧ ∃ fd, 0 ≤ fd ∧ action = .readFd fd) := by
  cases move with
  | attached => exact Or.inl ⟨rfl, rfl, rfl⟩
  | isOpen nonneg => exact Or.inr ⟨rfl, rfl, _, nonneg, rfl⟩
  | preview drawn => split at isEarly <;> cases isEarly
  | encoder drawn => split at isEarly <;> cases isEarly
  | stillRunning => simp at isEarly
  | dequeueBuf => simp at isEarly
  | _ => cases isEarly

/-- The actions of the capture program outside the two draws. -/
def ownAction : Action → Bool
  | .getCamera _ | .readFd _ | .writePeek _ | .loopTest _ | .recheck _ | .select _ _ _
  | .clearBufInfo | .dequeueBuf _ _ | .requeueBuf _ _ _ | .notify _ | .closeFd _
  | .clearFd => true
  | _ => false

theorem Move.own_or_draws {first first' : Bool} {pc pc' : CapturePc} {action : Action}
    (move : Move first pc action first' pc') :
    ownAction action = true ∨ action.draws = true := by
  cases move with
  | preview drawn => exact Or.inr (PreviewPc.draws_of_next drawn)
  | encoder drawn => exact Or.inr (EncoderPc.draws_of_next drawn)
  | _ => exact Or.inl rfl

/-- The preview draw is begun at its first point, and every other point is reached by one of
its own steps. -/
theorem Move.preview_after {first first' : Bool} {pc : CapturePc} {action : Action}
    {after : PreviewPc} (move : Move first pc action first' (.preview after)) :
    after = .takeWindow ∨ ∃ before, pc = .preview before ∧ before.next action = some after := by
  generalize reached : CapturePc.preview after = target at move
  cases move with
  | @preview before pc' action drawn =>
      split at reached
      · cases reached
      · cases reached
        exact Or.inr ⟨before, rfl, drawn⟩
  | encoder drawn => split at reached <;> cases reached
  | @stillRunning result errno =>
      unfold afterSelect at reached
      split_ifs at reached
  | @dequeueBuf fd result =>
      cases result <;> simp only [afterDequeue] at reached <;> split_ifs at reached <;>
        cases reached <;> exact Or.inl rfl
  | notifyFirst =>
      cases reached
      exact Or.inl rfl
  | _ => cases reached

/-- The encoder draw is begun when the preview draw returns, and goes on by its own steps. -/
theorem Move.encoder_after {first first' : Bool} {pc : CapturePc} {action : Action}
    {after : EncoderPc} (move : Move first pc action first' (.encoder after)) :
    (after = .lock ∧ ∃ before, pc = .preview before ∧ before.next action = some .returned) ∨
      ∃ before, pc = .encoder before ∧ before.next action = some after := by
  generalize reached : CapturePc.encoder after = target at move
  cases move with
  | @preview before pc' action drawn =>
      split at reached
      · rename_i returned
        cases reached
        rw [returned] at drawn
        exact Or.inl ⟨rfl, before, rfl, drawn⟩
      · cases reached
  | @encoder before pc' action drawn =>
      split at reached
      · cases reached
      · cases reached
        exact Or.inr ⟨before, rfl, drawn⟩
  | @stillRunning result errno =>
      unfold afterSelect at reached
      split_ifs at reached
  | @dequeueBuf fd result =>
      cases result <;> simp only [afterDequeue] at reached <;> split_ifs at reached
  | _ => cases reached

theorem Move.raises {first first' : Bool} {pc pc' : CapturePc}
    (move : Move first pc (.writePeek true) first' pc') : pc = .raisePeek := by
  cases move with
  | raisePeek => rfl
  | preview drawn => cases PreviewPc.draws_of_next drawn
  | encoder drawn => cases EncoderPc.draws_of_next drawn

end CapturePc

/-! ## Opening the device -/

namespace OpenPc

/-- The points that issue an `ioctl` and leave for `exit_tag` when it fails. -/
def requests : OpenPc → Bool
  | .queryCap | .setFmt | .setParm | .getParm | .reqBufs | .queryBuf _ _ | .queueBuf _
  | .streamOn => true
  | _ => false

/-- The edges of `openCamera`. -/
inductive Move : OpenPc → Action → OpenPc → Prop
  | openDev {fd : Int} : Move .openDev (.openDev fd) .testFd
  | openFailed {fd : Int} : fd < 0 → Move .testFd (.readFd fd) .returnFd
  | opened {fd : Int} : 0 ≤ fd → Move .testFd (.readFd fd) .queryCap
  | queryCap {fd : Int} : Move .queryCap (.ioctl fd (.queryCap true) true) .setFmt
  | setFmt {fd : Int} {answer : PixFormat} :
      Move .setFmt (.ioctl fd (.setFmt answer) true) .setParm
  | setParm {fd : Int} : Move .setParm (.ioctl fd .setParm true) .getParm
  | getParm {fd : Int} : Move .getParm (.ioctl fd .getParm true) .reqBufs
  | reqBufs {fd : Int} {count : Nat} :
      Move .reqBufs (.ioctl fd (.reqBufs count) true) (mapLoop 0 count)
  | queryBuf {fd : Int} {index count length : Nat} :
      Move (.queryBuf index count) (.ioctl fd (.queryBuf index length) true)
        (.mapBuf index count length)
  | mapBuf {fd : Int} {index count length : Nat} :
      Move (.mapBuf index count length) (.mapBuf fd index length true)
        (mapLoop (index + 1) count)
  | queueBuf {fd : Int} {index : Nat} :
      Move (.queueBuf index) (.ioctl fd (.queueBuf index) true) (queueLoop (index + 1))
  | streamOn {fd : Int} : Move .streamOn (.ioctl fd .streamOn true) .logFd
  | logFd {fd : Int} : Move .logFd (.readFd fd) .returnFd
  | requestFailed {pc : OpenPc} {fd : Int} {request : Request} {ok : Bool} :
      pc.requests = true → Move pc (.ioctl fd request ok) .closeFd
  | mapFailed {fd : Int} {index count length : Nat} :
      Move (.mapBuf index count length) (.mapBuf fd index length false) .closeFd
  | closeFd {fd : Int} : Move .closeFd (.closeFd fd) .clearFd
  | clearFd : Move .clearFd .clearFd .returnFd
  | returnFd {fd : Int} : Move .returnFd (.readFd fd) (.returned fd)

theorem move_of_next {pc pc' : OpenPc} {action : Action}
    (moved : pc.next action = some pc') : Move pc action pc' := by
  unfold OpenPc.next at moved
  split at moved
  case h_1 => cases moved; exact .openDev
  case h_2 fd =>
      by_cases negative : fd < 0 <;> simp [negative] at moved <;> subst moved
      · exact .openFailed negative
      · exact .opened (by omega)
  case h_3 captures ok =>
      cases ok <;> cases captures <;> cases moved
      · exact .requestFailed rfl
      · exact .requestFailed rfl
      · exact .requestFailed rfl
      · exact .queryCap
  case h_4 ok =>
      cases ok <;> cases moved
      · exact .requestFailed rfl
      · exact .setFmt
  case h_5 ok =>
      cases ok <;> cases moved
      · exact .requestFailed rfl
      · exact .setParm
  case h_6 ok =>
      cases ok <;> cases moved
      · exact .requestFailed rfl
      · exact .getParm
  case h_7 ok =>
      cases ok <;> cases moved
      · exact .requestFailed rfl
      · exact .reqBufs
  case h_8 ok =>
      split at moved
      · rename_i sameIndex
        subst sameIndex
        cases ok <;> cases moved
        · exact .requestFailed rfl
        · exact .queryBuf
      · cases moved
  case h_9 ok =>
      split at moved
      · rename_i same
        obtain ⟨rfl, rfl⟩ := same
        cases ok <;> cases moved
        · exact .mapFailed
        · exact .mapBuf
      · cases moved
  case h_10 ok =>
      split at moved
      · rename_i sameIndex
        subst sameIndex
        cases ok <;> cases moved
        · exact .requestFailed rfl
        · exact .queueBuf
      · cases moved
  case h_11 ok =>
      cases ok <;> cases moved
      · exact .requestFailed rfl
      · exact .streamOn
  case h_12 => cases moved; exact .logFd
  case h_13 => cases moved; exact .closeFd
  case h_14 => cases moved; exact .clearFd
  case h_15 => cases moved; exact .returnFd
  case h_16 => cases moved

/-- The actions of `openCamera`. -/
def ownAction : Action → Bool
  | .openDev _ | .readFd _ | .ioctl _ _ _ | .mapBuf _ _ _ _ | .closeFd _ | .clearFd => true
  | _ => false

theorem Move.own {pc pc' : OpenPc} {action : Action} (move : Move pc action pc') :
    ownAction action = true := by
  cases move <;> rfl

end OpenPc

/-! ## The surface entry points -/

namespace SurfacePc

/-- The actions of the three surface entry points. -/
def ownAction : Action → Bool
  | .getCamera _ | .surfaceValid _ | .lock _ | .unlock _ | .writePreview _
  | .pushEncoder _ | .removeEncoder _ | .encodersSize => true
  | _ => false

/-- The edges of the three surface entry points. -/
inductive Move : SurfacePc → Action → SurfacePc → Prop
  | null {update : SurfaceUpdate} :
      Move (.getCamera (some update)) (.getCamera true) (.lock update)
  | nullDetached {update : SurfaceUpdate} :
      Move (.getCamera (some update)) (.getCamera false) .returned
  | nullIgnored {attached : Bool} : Move (.getCamera none) (.getCamera attached) .returned
  | attached {update : SurfaceUpdate} :
      Move (.getCameraFor update) (.getCamera true) (.checkValid update)
  | detached {update : SurfaceUpdate} :
      Move (.getCameraFor update) (.getCamera false) .returned
  | valid {update : SurfaceUpdate} :
      Move (.checkValid update) (.surfaceValid true) (.lock update)
  | invalid {update : SurfaceUpdate} :
      Move (.checkValid update) (.surfaceValid false) .returned
  | lock {update : SurfaceUpdate} : Move (.lock update) (.lock update.mutex) (.apply update)
  | apply {update : SurfaceUpdate} : Move (.apply update) update.action (.unlock update)
  | unlockPreview {surface : Option Surface} :
      Move (.unlock (.setPreview surface)) (.unlock .previewLock) .returned
  | unlockAdded {surface : Surface} :
      Move (.unlock (.addEncoder surface)) (.unlock .encoderLock) .logSize
  | unlockRemoved {surface : Surface} :
      Move (.unlock (.removeEncoder surface)) (.unlock .encoderLock) .returned
  | logSize : Move .logSize .encodersSize .returned

theorem move_of_next {pc after : SurfacePc} {action : Action}
    (moved : pc.next action = some after) : Move pc action after := by
  unfold SurfacePc.next at moved
  split at moved
  case h_1 null attached =>
      cases null <;> cases attached <;> cases moved
      · exact .nullIgnored
      · exact .nullIgnored
      · exact .nullDetached
      · exact .null
  case h_2 update attached =>
      cases attached <;> cases moved
      · exact .detached
      · exact .attached
  case h_3 update valid =>
      cases valid <;> cases moved
      · exact .invalid
      · exact .valid
  case h_4 =>
      obtain ⟨rfl, placed⟩ := Option.ite_none_right_eq_some.mp moved
      cases placed
      exact .lock
  case h_5 =>
      obtain ⟨rfl, placed⟩ := Option.ite_none_right_eq_some.mp moved
      cases placed
      exact .apply
  case h_6 update _ =>
      obtain ⟨rfl, placed⟩ := Option.ite_none_right_eq_some.mp moved
      cases update <;> cases placed
      · exact .unlockPreview
      · exact .unlockAdded
      · exact .unlockRemoved
  case h_7 => cases moved; exact .logSize
  case h_8 => cases moved

theorem own_of_next {pc after : SurfacePc} {action : Action}
    (moved : pc.next action = some after) : ownAction action = true := by
  unfold SurfacePc.next at moved
  split at moved
  case h_5 performed update =>
      split at moved
      · rename_i same
        subst same
        cases update <;> rfl
      · cases moved
  all_goals first | rfl | cases moved

end SurfacePc

/-! ## Threads -/

/-- The actions of a thread that runs neither `start()`, `release()` nor the
capture program. -/
def Action.ofBystander : Action → Bool
  | .call _ | .getCamera _ | .writePeek _ | .surfaceValid _ | .lock _ | .unlock _
  | .writePreview _ | .pushEncoder _ | .removeEncoder _ | .encodersSize => true
  | _ => false

namespace Pc

/-- The edges of a thread. -/
inductive Move : Pc → Action → Pc → Prop
  | call {entry : Call} : Move .idle (.call entry) (enter entry)
  | startAttached : Move .startGet (.getCamera true) (.opening .openDev)
  | startDetached : Move .startGet (.getCamera false) .idle
  | opening {pc pc' : OpenPc} {action : Action} :
      OpenPc.Move pc action pc' → Move (.opening pc) action (afterOpen pc')
  | spawn {child : ThreadId} : Move .spawning (.spawn child) .idle
  | capturing {first first' : Bool} {pc pc' : CapturePc} {action : Action} :
      CapturePc.Move first pc action first' pc' →
      Move (.capturing first pc) action (afterCapture first' pc')
  | stopAttached : Move .stopGet (.getCamera true) .stopWrite
  | stopDetached : Move .stopGet (.getCamera false) .idle
  | stop : Move .stopWrite (.writePeek false) .idle
  | releaseAttached : Move .releaseGet (.getCamera true) .releaseStop
  | releaseDetached : Move .releaseGet (.getCamera false) .idle
  | releaseStop : Move .releaseStop (.writePeek false) .releaseDelete
  | delete {fd : Int} : Move .releaseDelete (.deleteCamera fd) .releaseClear
  | clear : Move .releaseClear .clearCamera .idle
  | surface {pc pc' : SurfacePc} {action : Action} :
      pc.next action = some pc' → Move (.surface pc) action (afterSurface pc')

theorem move_of_next {pc pc' : Pc} {action : Action}
    (moved : pc.next action = some pc') : Move pc action pc' := by
  unfold Pc.next at moved
  split at moved
  case h_1 => cases moved; exact .call
  case h_2 attached =>
      cases attached <;> cases moved
      · exact .startDetached
      · exact .startAttached
  case h_3 =>
      obtain ⟨inner, inside, rfl⟩ := Option.map_eq_some_iff.mp moved
      exact .opening (OpenPc.move_of_next inside)
  case h_4 => cases moved; exact .spawn
  case h_5 =>
      obtain ⟨⟨first', inner⟩, inside, rfl⟩ := Option.map_eq_some_iff.mp moved
      exact .capturing (CapturePc.move_of_next inside)
  case h_6 attached =>
      cases attached <;> cases moved
      · exact .stopDetached
      · exact .stopAttached
  case h_7 => cases moved; exact .stop
  case h_8 attached =>
      cases attached <;> cases moved
      · exact .releaseDetached
      · exact .releaseAttached
  case h_9 => cases moved; exact .releaseStop
  case h_10 => cases moved; exact .delete
  case h_11 => cases moved; exact .clear
  case h_12 =>
      obtain ⟨inner, inside, rfl⟩ := Option.map_eq_some_iff.mp moved
      exact .surface inside
  case h_13 => cases moved

theorem enter_ne_capturing (entry : Call) (first : Bool) (pc : CapturePc) :
    enter entry ≠ capturing first pc := by
  cases entry <;> simp [enter]

theorem afterOpen_ne_capturing (inner : OpenPc) (first : Bool) (pc : CapturePc) :
    afterOpen inner ≠ capturing first pc := by
  cases inner
  case returned fd => by_cases positive : 0 < fd <;> simp [afterOpen, positive]
  all_goals simp [afterOpen]

theorem afterSurface_ne_capturing (inner : SurfacePc) (first : Bool) (pc : CapturePc) :
    afterSurface inner ≠ capturing first pc := by
  cases inner <;> simp [afterSurface]

theorem afterCapture_eq_capturing {first first' : Bool} {pc pc' : CapturePc}
    (placed : afterCapture first' pc' = capturing first pc) : first' = first ∧ pc' = pc := by
  cases pc' <;> simp_all [afterCapture]

/-- A thread that is capturing after one of its own steps was so before it. -/
theorem capturing_of_move {pc : Pc} {action : Action} {first : Bool} {inner : CapturePc}
    (move : Move pc action (capturing first inner)) :
    ∃ first₀ inner₀, pc = capturing first₀ inner₀ ∧
      CapturePc.Move first₀ inner₀ action first inner := by
  generalize placed : capturing first inner = after at move
  cases move with
  | call => exact absurd placed.symm (enter_ne_capturing _ _ _)
  | opening => exact absurd placed.symm (afterOpen_ne_capturing _ _ _)
  | capturing inside =>
      obtain ⟨rfl, rfl⟩ := afterCapture_eq_capturing placed.symm
      exact ⟨_, _, rfl, inside⟩
  | surface => exact absurd placed.symm (afterSurface_ne_capturing _ _ _)
  | _ => cases placed

/-- `mPeekRun = true` is the capture program's. -/
theorem raisePeek_of_move {pc pc' : Pc} (move : Move pc (.writePeek true) pc') :
    ∃ first, pc = capturing first .raisePeek := by
  cases move with
  | opening inner => cases inner.own
  | @capturing first _ _ _ _ inner =>
      cases inner.raises
      exact ⟨first, rfl⟩
  | surface inner => cases SurfacePc.own_of_next inner

/-- `open` is called by `openCamera` alone. -/
theorem openDev_of_move {pc pc' : Pc} {fd : Int} (move : Move pc (.openDev fd) pc') :
    pc = opening .openDev := by
  cases move with
  | opening inner => cases inner; rfl
  | capturing inner =>
      rcases inner.own_or_draws with own | draws
      · cases own
      · cases draws
  | surface inner => cases SurfacePc.own_of_next inner

/-- The object is deleted by `release()` alone. -/
theorem delete_of_move {pc pc' : Pc} {fd : Int} (move : Move pc (.deleteCamera fd) pc') :
    pc = .releaseDelete ∧ pc' = .releaseClear := by
  cases move with
  | delete => exact ⟨rfl, rfl⟩
  | opening inner => cases inner.own
  | capturing inner => rcases inner.own_or_draws with own | draws <;> contradiction
  | surface inner => cases SurfacePc.own_of_next inner

/-- `mNativeObject` is cleared at the end of `release()`. -/
theorem clearCamera_of_move {pc pc' : Pc} (move : Move pc .clearCamera pc') :
    pc = .releaseClear := by
  cases move with
  | clear => rfl
  | opening inner => cases inner.own
  | capturing inner => rcases inner.own_or_draws with own | draws <;> contradiction
  | surface inner => cases SurfacePc.own_of_next inner

/-- `mFD = -1` is written on the error exits of `openCamera` and `startCapture`. -/
theorem clearFd_of_move {pc pc' : Pc} (move : Move pc .clearFd pc') :
    pc = opening .clearFd ∨ ∃ first, pc = capturing first .clearFd := by
  cases move with
  | opening inner =>
      cases inner
      exact Or.inl rfl
  | @capturing first _ _ _ _ inner =>
      cases inner with
      | clearFd => exact Or.inr ⟨first, rfl⟩
      | preview drawn => cases PreviewPc.draws_of_next drawn
      | encoder drawn => cases EncoderPc.draws_of_next drawn
  | surface inner => cases SurfacePc.own_of_next inner

/-! ### Bystanders -/

/-- Where a thread that runs neither `start()`, `release()` nor the capture
program can be. -/
def bystander : Pc → Bool
  | .idle | .stopGet | .stopWrite | .surface _ => true
  | _ => false

/-- A bystander that calls neither `start()` nor `release()` stays one. -/
theorem bystander_of_move {pc pc' : Pc} {action : Action} (stands : pc.bystander = true)
    (calls : ∀ entry ∈ action.method, entry ≠ .start ∧ entry ≠ .release)
    (move : Move pc action pc') :
    pc'.bystander = true ∧ action.ofBystander = true := by
  cases move with
  | @call entry =>
      have allowed := calls entry rfl
      refine ⟨?_, rfl⟩
      cases entry with
      | start => exact absurd rfl allowed.1
      | release => exact absurd rfl allowed.2
      | stop | setPreview jsurface | addEncoder jsurface | removeEncoder jsurface => rfl
  | stopAttached | stopDetached | stop => exact ⟨rfl, rfl⟩
  | @surface _ pc' action inner =>
      constructor
      · cases pc' <;> rfl
      · have own := SurfacePc.own_of_next inner
        cases action <;> first | rfl | cases own
  | _ => cases stands

end Pc

namespace World

theorem move_of_step {world next : World} {thread : ThreadId} {action : Action}
    (stepped : world.step (thread, action) = some next) :
    Pc.Move (world.threads thread) action (next.threads thread) :=
  Pc.move_of_next (moved_of_step stepped)

/-- A bystander that calls neither `start()` nor `release()` stays one and moves no other
thread. -/
theorem bystander_of_step {world next : World} {thread : ThreadId} {action : Action}
    (stands : (world.threads thread).bystander = true)
    (calls : ∀ entry ∈ action.method, entry ≠ .start ∧ entry ≠ .release)
    (stepped : world.step (thread, action) = some next) :
    (next.threads thread).bystander = true ∧ action.ofBystander = true ∧
      ∀ other, other ≠ thread → next.threads other = world.threads other := by
  obtain ⟨still, stood⟩ := Pc.bystander_of_move stands calls (move_of_step stepped)
  refine ⟨still, stood, ?_⟩
  intro other apart
  rcases other_of_step stepped apart with same | ⟨rfl, -, -⟩
  · exact same
  · cases stood

end World

end UsbCamera
