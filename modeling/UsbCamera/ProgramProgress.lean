import UsbCamera.ProgramSteps

/-!
# Every statement but `lock` can be executed

Whatever the fields of the object, the device and the pointer are, each point of the native
programs has a statement they allow, unless the next one takes a mutex.  What a system call or
a window answers is chosen by the environment, so it is enough that one answer is possible.
-/

namespace UsbCamera

/-- The pointer, the fields and the device allow the action. -/
structure Possible (mNativeObject : Bool) (camera : Camera) (device : Device)
    (thread : ThreadId) (action : Action) : Prop where
  pointer : (World.applyPointer mNativeObject action).isSome = true
  fields : (camera.apply thread action).isSome = true
  kernel : (device.apply action).isSome = true

/-- From a point with these steps the program takes a mutex or does something possible. -/
def GoesOn {Point : Type} (mNativeObject : Bool) (camera : Camera) (device : Device)
    (thread : ThreadId) (next : Action → Option Point) : Prop :=
  (∃ mutex, (next (.lock mutex)).isSome = true) ∨
    ∃ action, (next action).isSome = true ∧ Possible mNativeObject camera device thread action

section Programs

variable {mNativeObject : Bool} {camera : Camera} {device : Device} {thread : ThreadId}

theorem possible_of {action : Action} {attached : Bool} {camera' : Camera} {device' : Device}
    (pointer : World.applyPointer mNativeObject action = some attached)
    (fields : camera.apply thread action = some camera')
    (kernel : device.apply action = some device') :
    Possible mNativeObject camera device thread action :=
  ⟨by rw [pointer]; rfl, by rw [fields]; rfl, by rw [kernel]; rfl⟩

theorem GoesOn.map {Point Place : Type} {next : Action → Option Point}
    (goesOn : GoesOn mNativeObject camera device thread next) (place : Point → Place) :
    GoesOn mNativeObject camera device thread fun action => (next action).map place := by
  rcases goesOn with ⟨mutex, waits⟩ | ⟨action, moves, possible⟩
  · exact Or.inl ⟨mutex, by simpa using waits⟩
  · exact Or.inr ⟨action, by simpa using moves, possible⟩

theorem PreviewPc.goesOn {pc : PreviewPc} (working : pc ≠ .returned) :
    GoesOn mNativeObject camera device thread pc.next := by
  cases pc with
  | takeWindow =>
      exact Or.inr ⟨.readPreview camera.mPreviewSurface, rfl,
        possible_of rfl (if_pos rfl) rfl⟩
  | lock window => exact Or.inl ⟨.previewLock, rfl⟩
  | testSurface window =>
      exact Or.inr ⟨.readPreview camera.mPreviewSurface,
        by cases camera.mPreviewSurface <;> rfl,
        possible_of rfl (if_pos rfl) rfl⟩
  | freeScratch => exact Or.inr ⟨.freeScratch .yuv420sp, rfl, possible_of rfl rfl rfl⟩
  | unlockEmpty | unlockFailed | unlockQueued =>
      exact Or.inr ⟨.unlock .previewLock, rfl, possible_of rfl rfl rfl⟩
  | allocScratch window => exact Or.inr ⟨.allocScratch .yuv420sp, rfl, possible_of rfl rfl rfl⟩
  | convert window =>
      exact Or.inr ⟨.convert .yuv420sp camera.mCurBufInfo, rfl,
        possible_of rfl (if_pos rfl) rfl⟩
  | configure window =>
      exact Or.inr ⟨.window window .configure, by simp [next], possible_of rfl rfl rfl⟩
  | dequeue window =>
      exact Or.inr ⟨.window window (.dequeue true), by simp [next], possible_of rfl rfl rfl⟩
  | lockBuffer window =>
      exact Or.inr ⟨.window window (.lockBuffer true), by simp [next], possible_of rfl rfl rfl⟩
  | copy window locked => exact Or.inr ⟨.copyScratch .yuv420sp, rfl, possible_of rfl rfl rfl⟩
  | unlockBuffer window =>
      exact Or.inr ⟨.window window (.unlockBuffer true), by simp [next], possible_of rfl rfl rfl⟩
  | queue window =>
      exact Or.inr ⟨.window window (.queue true), by simp [next], possible_of rfl rfl rfl⟩
  | returned => exact absurd rfl working

theorem EncoderPc.goesOn {pc : EncoderPc} (working : pc ≠ .returned) :
    GoesOn mNativeObject camera device thread pc.next := by
  cases pc with
  | lock => exact Or.inl ⟨.encoderLock, rfl⟩
  | testEmpty =>
      exact Or.inr ⟨.encodersEmpty camera.mEncoderSurfaces.isEmpty,
        by cases camera.mEncoderSurfaces.isEmpty <;> rfl,
        possible_of rfl (if_pos rfl) rfl⟩
  | unlockEmpty | unlock => exact Or.inr ⟨.unlock .encoderLock, rfl, possible_of rfl rfl rfl⟩
  | freeScratch => exact Or.inr ⟨.freeScratch .rgba8888, rfl, possible_of rfl rfl rfl⟩
  | allocScratch => exact Or.inr ⟨.allocScratch .rgba8888, rfl, possible_of rfl rfl rfl⟩
  | convert =>
      exact Or.inr ⟨.convert .rgba8888 camera.mCurBufInfo, rfl,
        possible_of rfl (if_pos rfl) rfl⟩
  | iterate position =>
      exact Or.inr ⟨.encoderAt position camera.mEncoderSurfaces[position]?,
        by cases camera.mEncoderSurfaces[position]? <;> simp [next],
        possible_of rfl (if_pos rfl) rfl⟩
  | lockWindow position window =>
      exact Or.inr ⟨.window (some window) (.lockWindow true), by simp [next],
        possible_of rfl rfl rfl⟩
  | copy position window => exact Or.inr ⟨.copyScratch .rgba8888, rfl, possible_of rfl rfl rfl⟩
  | post position window =>
      exact Or.inr ⟨.window (some window) .post, by simp [next], possible_of rfl rfl rfl⟩
  | returned => exact absurd rfl working

/-- A program that has returned is not gone on with: its caller is. -/
def CapturePc.hasReturned : CapturePc → Bool
  | .returned | .preview .returned | .encoder .returned => true
  | _ => false

theorem CapturePc.goesOn {first : Bool} {pc : CapturePc} (working : pc.hasReturned = false) :
    GoesOn mNativeObject camera device thread (pc.next first) := by
  cases pc with
  | getCamera =>
      exact Or.inr ⟨.getCamera mNativeObject, rfl, possible_of (if_pos rfl) rfl rfl⟩
  | checkFd | fdSet =>
      exact Or.inr ⟨.readFd camera.mFD, rfl, possible_of rfl (if_pos rfl) rfl⟩
  | raisePeek => exact Or.inr ⟨.writePeek true, rfl, possible_of rfl rfl rfl⟩
  | loopTest =>
      exact Or.inr ⟨.loopTest camera.mPeekRun, rfl, possible_of rfl (if_pos rfl) rfl⟩
  | select =>
      exact Or.inr ⟨.select camera.mFD 0 0, rfl, possible_of rfl (if_pos rfl) rfl⟩
  | recheck result errno =>
      exact Or.inr ⟨.recheck camera.mPeekRun, rfl, possible_of rfl (if_pos rfl) rfl⟩
  | clearBufInfo => exact Or.inr ⟨.clearBufInfo, rfl, possible_of rfl rfl rfl⟩
  | dequeueBuf =>
      exact Or.inr ⟨.dequeueBuf camera.mFD (.failed eagain), rfl,
        possible_of rfl (if_pos rfl) rfl⟩
  | notifyFirst => exact Or.inr ⟨.notify .firstCapture, rfl, possible_of rfl rfl rfl⟩
  | preview pc =>
      have inner : pc ≠ .returned := by
        rintro rfl
        cases working
      exact (PreviewPc.goesOn inner).map _
  | encoder pc =>
      have inner : pc ≠ .returned := by
        rintro rfl
        cases working
      exact (EncoderPc.goesOn inner).map _
  | requeueBuf =>
      exact Or.inr ⟨.requeueBuf camera.mFD camera.mCurBufInfo true, rfl,
        possible_of rfl (if_pos ⟨rfl, rfl⟩) rfl⟩
  | lowerPeek => exact Or.inr ⟨.writePeek false, rfl, possible_of rfl rfl rfl⟩
  | notifyStop => exact Or.inr ⟨.notify .captureStop, rfl, possible_of rfl rfl rfl⟩
  | closeFd =>
      exact Or.inr ⟨.closeFd camera.mFD, rfl, possible_of rfl (if_pos rfl) rfl⟩
  | clearFd => exact Or.inr ⟨.clearFd, rfl, possible_of rfl rfl rfl⟩
  | notifyError => exact Or.inr ⟨.notify .cameraError, rfl, possible_of rfl rfl rfl⟩
  | returned => cases working

theorem OpenPc.goesOn {pc : OpenPc} (working : ∀ fd, pc ≠ .returned fd) :
    GoesOn mNativeObject camera device thread pc.next := by
  have request (asked : Request) :
      Possible mNativeObject camera device thread (.ioctl camera.mFD asked false) :=
    possible_of rfl (if_pos rfl) (by cases asked <;> rfl)
  cases pc with
  | openDev => exact Or.inr ⟨.openDev (-1), rfl, possible_of rfl rfl (if_pos (by decide))⟩
  | testFd | logFd | returnFd =>
      exact Or.inr ⟨.readFd camera.mFD, rfl, possible_of rfl (if_pos rfl) rfl⟩
  | queryCap => exact Or.inr ⟨_, rfl, request (.queryCap true)⟩
  | setFmt => exact Or.inr ⟨_, rfl, request (.setFmt ⟨0, 0, 0, 0, 0⟩)⟩
  | setParm => exact Or.inr ⟨_, rfl, request .setParm⟩
  | getParm => exact Or.inr ⟨_, rfl, request .getParm⟩
  | reqBufs => exact Or.inr ⟨_, rfl, request (.reqBufs 0)⟩
  | queryBuf index count => exact Or.inr ⟨_, by simp [next], request (.queryBuf index 0)⟩
  | mapBuf index count length =>
      exact Or.inr ⟨.mapBuf camera.mFD index length false, by simp [next],
        possible_of rfl (if_pos rfl) rfl⟩
  | queueBuf index => exact Or.inr ⟨_, by simp [next], request (.queueBuf index)⟩
  | streamOn => exact Or.inr ⟨_, rfl, request .streamOn⟩
  | closeFd =>
      exact Or.inr ⟨.closeFd camera.mFD, rfl, possible_of rfl (if_pos rfl) rfl⟩
  | clearFd => exact Or.inr ⟨.clearFd, rfl, possible_of rfl rfl rfl⟩
  | returned fd => exact absurd rfl (working fd)

theorem SurfacePc.goesOn {pc : SurfacePc} (working : pc ≠ .returned) :
    GoesOn mNativeObject camera device thread pc.next := by
  cases pc with
  | getCamera null =>
      exact Or.inr ⟨.getCamera mNativeObject, by cases null <;> rfl,
        possible_of (if_pos rfl) rfl rfl⟩
  | getCameraFor update =>
      exact Or.inr ⟨.getCamera mNativeObject, rfl, possible_of (if_pos rfl) rfl rfl⟩
  | checkValid update => exact Or.inr ⟨.surfaceValid true, rfl, possible_of rfl rfl rfl⟩
  | lock update => exact Or.inl ⟨update.mutex, by simp [next]⟩
  | apply update =>
      exact Or.inr ⟨update.action, by simp [next],
        by cases update <;> exact possible_of rfl rfl rfl⟩
  | unlock update =>
      exact Or.inr ⟨.unlock update.mutex, by cases update <;> simp [next],
        possible_of rfl rfl rfl⟩
  | logSize => exact Or.inr ⟨.encodersSize, rfl, possible_of rfl rfl rfl⟩
  | returned => exact absurd rfl working

def Pc.hasReturned : Pc → Bool
  | .opening (.returned _) | .surface .returned => true
  | .capturing _ pc => pc.hasReturned
  | _ => false

theorem Pc.goesOn {pc : Pc} (working : pc.hasReturned = false) :
    GoesOn mNativeObject camera device thread pc.next := by
  cases pc with
  | idle => exact Or.inr ⟨.call .stop, rfl, possible_of rfl rfl rfl⟩
  | startGet | stopGet | releaseGet =>
      exact Or.inr ⟨.getCamera mNativeObject, rfl, possible_of (if_pos rfl) rfl rfl⟩
  | opening pc =>
      have inner : ∀ fd, pc ≠ .returned fd := by
        rintro fd rfl
        cases working
      exact (OpenPc.goesOn inner).map _
  | spawning => exact Or.inr ⟨.spawn 0, rfl, possible_of rfl rfl rfl⟩
  | capturing first pc => exact (CapturePc.goesOn working).map _
  | stopWrite | releaseStop => exact Or.inr ⟨.writePeek false, rfl, possible_of rfl rfl rfl⟩
  | releaseDelete =>
      exact Or.inr ⟨.deleteCamera camera.mFD, rfl, possible_of rfl (if_pos rfl) rfl⟩
  | releaseClear => exact Or.inr ⟨.clearCamera, rfl, possible_of rfl rfl rfl⟩
  | surface pc =>
      have inner : pc ≠ .returned := by
        rintro rfl
        cases working
      exact (SurfacePc.goesOn inner).map _

end Programs

/-! ## A function that returns leaves its caller at work -/

theorem CapturePc.hasReturned_of_move {first first' : Bool} {pc pc' : CapturePc} {action : Action}
    (move : Move first pc action first' pc') : pc' = .returned ∨ pc'.hasReturned = false := by
  cases move with
  | detached | notOpen | notifyStop | notifyError => exact Or.inl rfl
  | @stillRunning result errno =>
      unfold afterSelect
      split_ifs <;> exact Or.inr rfl
  | @dequeueBuf fd result =>
      cases result <;> simp only [afterDequeue] <;> split_ifs <;> exact Or.inr rfl
  | preview drawn | encoder drawn =>
      split
      · exact Or.inr rfl
      · rename_i working
        refine Or.inr ?_
        unfold hasReturned
        split <;> simp_all
  | _ => exact Or.inr rfl

theorem Pc.hasReturned_of_move {pc pc' : Pc} {action : Action} (move : Move pc action pc') :
    pc'.hasReturned = false := by
  cases move with
  | @call entry =>
      cases entry with
      | setPreview jsurface | addEncoder jsurface | removeEncoder jsurface =>
          cases jsurface <;> rfl
      | start | stop | release => rfl
  | @opening _ pc' =>
      cases pc' with
      | returned fd => by_cases positive : 0 < fd <;> simp [afterOpen, positive, hasReturned]
      | _ => rfl
  | @capturing _ first' _ pc' _ inner =>
      rcases CapturePc.hasReturned_of_move inner with rfl | working
      · rfl
      · cases pc' <;> first | rfl | exact working
  | @surface _ pc' => cases pc' <;> rfl
  | _ => rfl

end UsbCamera
