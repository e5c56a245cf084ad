import UsbCamera.LabelledRun

/-!
# The native camera object and the device behind it

The fields of the native `Camera` that more than one thread reads or writes, the
state of the video device as its driver keeps it, and the atomic actions by
which threads touch them.  An action names one access together with what it
observed or what the environment answered; `Camera.apply` and `Device.apply` say
when the access is possible and what it changes.  The order in which a thread
performs its actions is left to the programs.
-/

namespace UsbCamera

abbrev ThreadId := Nat

/-- The object an `sp<Surface>` points to. -/
abbrev Surface := Nat

abbrev Errno := Nat

def eintr : Errno := 4

def eio : Errno := 5

def eagain : Errno := 11

/-- `BUFFER_NR`, the length of `mBufferArray`. -/
def bufferNR : Nat := 4

inductive Mutex
  | previewLock
  | encoderLock
  deriving DecidableEq

/-- The two scratch images, allocated by a draw and freed by a later one. -/
inductive Scratch
  | yuv420sp
  | rgba8888
  deriving DecidableEq

/-- The Java methods the capture thread calls back. -/
inductive Notification
  | firstCapture
  | captureStop
  | cameraError
  deriving DecidableEq

/-- The part of `v4l2_pix_format` that describes where pixels lie. -/
structure PixFormat where
  width : Nat
  height : Nat
  bytesperline : Nat
  sizeimage : Nat
  pixelformat : Nat
  deriving DecidableEq

/-- The requests of `openCamera`, with what a successful answer returns. -/
inductive Request
  | queryCap (captures : Bool)
  | setFmt (answer : PixFormat)
  | setParm
  | getParm
  | reqBufs (count : Nat)
  | queryBuf (index length : Nat)
  | queueBuf (index : Nat)
  | streamOn
  deriving DecidableEq

/-- `VIDIOC_DQBUF` hands over an index or fails with an `errno`. -/
inductive DequeueResult
  | filled (index : Nat)
  | failed (errno : Errno)
  deriving DecidableEq

/-- Calls on an `ANativeWindow` or its mapper, with their success. -/
inductive WindowCall
  | configure
  | dequeue (ok : Bool)
  | lockBuffer (ok : Bool)
  | unlockBuffer (ok : Bool)
  | queue (ok : Bool)
  | lockWindow (ok : Bool)
  | post
  deriving DecidableEq

/-- The methods of `Camera.java` that enter native code; surfaces are given as
the native surface behind the Java object, `none` for `null`. -/
inductive Call
  | start
  | stop
  | release
  | setPreview (jsurface : Option Surface)
  | addEncoder (jsurface : Option Surface)
  | removeEncoder (jsurface : Option Surface)
  deriving DecidableEq

/-- One atomic step of a thread. -/
inductive Action
  | call (entry : Call)
  | spawn (thread : ThreadId)
  | getCamera (attached : Bool)
  | clearCamera
  | deleteCamera (fd : Int)
  | surfaceValid (valid : Bool)
  | notify (notification : Notification)
  | writePeek (value : Bool)
  | loopTest (value : Bool)
  | recheck (value : Bool)
  | openDev (fd : Int)
  | readFd (fd : Int)
  | closeFd (fd : Int)
  | clearFd
  | ioctl (fd : Int) (request : Request) (ok : Bool)
  | mapBuf (fd : Int) (index length : Nat) (ok : Bool)
  | select (fd : Int) (result : Int) (errno : Errno)
  | clearBufInfo
  | dequeueBuf (fd : Int) (result : DequeueResult)
  | requeueBuf (fd : Int) (index : Nat) (ok : Bool)
  | lock (mutex : Mutex)
  | unlock (mutex : Mutex)
  | readPreview (surface : Option Surface)
  | writePreview (surface : Option Surface)
  | encodersEmpty (empty : Bool)
  | encodersSize
  | encoderAt (position : Nat) (surface : Option Surface)
  | pushEncoder (surface : Surface)
  | removeEncoder (surface : Surface)
  | allocScratch (scratch : Scratch)
  | freeScratch (scratch : Scratch)
  | convert (scratch : Scratch) (index : Nat)
  | copyScratch (scratch : Scratch)
  | window (surface : Option Surface) (called : WindowCall)
  deriving DecidableEq

/-- The method an action calls. -/
def Action.method : Action → Option Call
  | .call entry => some entry
  | _ => none

theorem Action.eq_call_of_method {action : Action} {entry : Call}
    (called : action.method = some entry) : action = .call entry := by
  cases action with
  | call other =>
      cases called
      rfl
  | _ => cases called

/-- The thread an action creates. -/
def Action.spawned : Action → Option ThreadId
  | .spawn child => some child
  | _ => none

/-- The action opens the device. -/
def Action.opens : Action → Bool
  | .openDev _ => true
  | _ => false

/-- The action is not a failing `mapper.lock`. -/
def Action.locks : Action → Bool
  | .window _ (.lockBuffer false) => false
  | _ => true

/-- The action leaves `mFD` as it is. -/
def Action.keepsFd : Action → Bool
  | .openDev _ | .clearFd | .deleteCamera _ => false
  | _ => true

/-- The action writes an entry of `mBufferArray`. -/
def Action.setsBuffer : Action → Bool
  | .mapBuf _ _ _ _ => true
  | _ => false

/-- The action deletes the native object. -/
def Action.deletes : Action → Bool
  | .deleteCamera _ => true
  | _ => false

/-- The descriptor a system call or a test takes from `mFD`. -/
def Action.descriptor : Action → Option Int
  | .readFd fd | .closeFd fd | .ioctl fd _ _ | .mapBuf fd _ _ _ | .select fd _ _
  | .dequeueBuf fd _ | .requeueBuf fd _ _ => some fd
  | _ => none

/-- Does the action read or write a field of the native object?  Window calls go
through a local pointer, `mNativeObject` is a field of the Java object, and
deleting the object is not counted as an access to it. -/
def Action.touchesCamera : Action → Bool
  | .call _ | .spawn _ | .getCamera _ | .clearCamera | .deleteCamera _
  | .surfaceValid _ | .notify _ | .window _ _ => false
  | _ => true

/-- An entry of `mBufferArray`. -/
structure Buffer where
  mapped : Bool
  length : Nat
  deriving DecidableEq

/-- The fields of the native object.  Of the scratch images only whether they
are allocated is kept, of `mCurBufInfo` only its `index`. -/
structure Camera where
  mYuv420sp : Bool
  mRGBA8888 : Bool
  mPreviewSurface : Option Surface
  mEncoderSurfaces : List Surface
  mPeekRun : Bool
  mFD : Int
  mWidth : Int
  mHeight : Int
  mCurBufInfo : Nat
  mBufferArray : Nat → Buffer
  mPreviewLock : Option ThreadId
  mEncoderLock : Option ThreadId

namespace Camera

/-- The object the constructor builds. -/
def create (cropWidth cropHeight : Int) : Camera where
  mYuv420sp := false
  mRGBA8888 := false
  mPreviewSurface := none
  mEncoderSurfaces := []
  mPeekRun := false
  mFD := -1
  mWidth := cropWidth
  mHeight := cropHeight
  mCurBufInfo := 0
  mBufferArray := fun _ => ⟨false, 0⟩
  mPreviewLock := none
  mEncoderLock := none

def holder (camera : Camera) : Mutex → Option ThreadId
  | .previewLock => camera.mPreviewLock
  | .encoderLock => camera.mEncoderLock

def setHolder (camera : Camera) (mutex : Mutex) (thread : Option ThreadId) : Camera :=
  match mutex with
  | .previewLock => { camera with mPreviewLock := thread }
  | .encoderLock => { camera with mEncoderLock := thread }

def setScratch (camera : Camera) (scratch : Scratch) (allocated : Bool) : Camera :=
  match scratch with
  | .yuv420sp => { camera with mYuv420sp := allocated }
  | .rgba8888 => { camera with mRGBA8888 := allocated }

def setBuffer (camera : Camera) (index : Nat) (buffer : Buffer) : Camera :=
  { camera with
    mBufferArray := fun other => if other = index then buffer else camera.mBufferArray other }

/-- What the destructor leaves behind: it frees the scratch images and closes
the descriptor when `mFD > 0`.  The other fields and the mutexes go with the object; what
threads still do with them afterwards is undefined, and `World.alive` tells that it is. -/
def destroy (camera : Camera) : Camera :=
  { camera with
    mYuv420sp := false
    mRGBA8888 := false
    mFD := if 0 < camera.mFD then -1 else camera.mFD }

/-- The effect of an action of `thread` on the fields; `none` when the field does
not hold the observed value, or the mutex is taken. -/
def apply (camera : Camera) (thread : ThreadId) : Action → Option Camera
  | .deleteCamera fd => if fd = camera.mFD then some camera.destroy else none
  | .writePeek value => some { camera with mPeekRun := value }
  | .loopTest value | .recheck value =>
      if value = camera.mPeekRun then some camera else none
  | .openDev fd => some { camera with mFD := fd }
  | .readFd fd | .closeFd fd | .ioctl fd _ _ | .select fd _ _ =>
      if fd = camera.mFD then some camera else none
  | .clearFd => some { camera with mFD := -1 }
  | .mapBuf fd index length ok =>
      if fd = camera.mFD then some (camera.setBuffer index ⟨ok, length⟩) else none
  | .clearBufInfo => some { camera with mCurBufInfo := 0 }
  | .dequeueBuf fd result =>
      if fd = camera.mFD then
        match result with
        | .filled index => some { camera with mCurBufInfo := index }
        | .failed _ => some camera
      else none
  | .requeueBuf fd index _ =>
      if fd = camera.mFD ∧ index = camera.mCurBufInfo then some camera else none
  | .lock mutex =>
      if camera.holder mutex = none then some (camera.setHolder mutex (some thread)) else none
  | .unlock mutex => some (camera.setHolder mutex none)
  | .readPreview surface => if surface = camera.mPreviewSurface then some camera else none
  | .writePreview surface => some { camera with mPreviewSurface := surface }
  | .encodersEmpty empty =>
      if empty = camera.mEncoderSurfaces.isEmpty then some camera else none
  | .encoderAt position surface =>
      if surface = camera.mEncoderSurfaces[position]? then some camera else none
  | .pushEncoder surface =>
      some { camera with mEncoderSurfaces := camera.mEncoderSurfaces ++ [surface] }
  | .removeEncoder surface =>
      some { camera with
        mEncoderSurfaces := camera.mEncoderSurfaces.filter fun other => other ≠ surface }
  | .allocScratch scratch => some (camera.setScratch scratch true)
  | .freeScratch scratch => some (camera.setScratch scratch false)
  | .convert _ index => if index = camera.mCurBufInfo then some camera else none
  | .call _ | .spawn _ | .getCamera _ | .clearCamera | .surfaceValid _ | .notify _
  | .encodersSize | .copyScratch _ | .window _ _ => some camera

/-- What an action writes: one of the fields, or nothing. -/
inductive Update (camera : Camera) (thread : ThreadId) : Action → Camera → Prop
  | deleteCamera {fd : Int} :
      fd = camera.mFD → Update camera thread (.deleteCamera fd) camera.destroy
  | writePeek {value : Bool} :
      Update camera thread (.writePeek value) { camera with mPeekRun := value }
  | openDev {fd : Int} : Update camera thread (.openDev fd) { camera with mFD := fd }
  | clearFd : Update camera thread .clearFd { camera with mFD := -1 }
  | mapBuf {fd : Int} {index length : Nat} {ok : Bool} :
      fd = camera.mFD →
      Update camera thread (.mapBuf fd index length ok) (camera.setBuffer index ⟨ok, length⟩)
  | clearBufInfo : Update camera thread .clearBufInfo { camera with mCurBufInfo := 0 }
  | filled {fd : Int} {index : Nat} :
      fd = camera.mFD →
      Update camera thread (.dequeueBuf fd (.filled index)) { camera with mCurBufInfo := index }
  | lock {mutex : Mutex} :
      camera.holder mutex = none →
      Update camera thread (.lock mutex) (camera.setHolder mutex (some thread))
  | unlock {mutex : Mutex} :
      Update camera thread (.unlock mutex) (camera.setHolder mutex none)
  | writePreview {surface : Option Surface} :
      Update camera thread (.writePreview surface) { camera with mPreviewSurface := surface }
  | pushEncoder {surface : Surface} :
      Update camera thread (.pushEncoder surface)
        { camera with mEncoderSurfaces := camera.mEncoderSurfaces ++ [surface] }
  | removeEncoder {surface : Surface} :
      Update camera thread (.removeEncoder surface)
        { camera with
          mEncoderSurfaces := camera.mEncoderSurfaces.filter fun other => other ≠ surface }
  | allocScratch {scratch : Scratch} :
      Update camera thread (.allocScratch scratch) (camera.setScratch scratch true)
  | freeScratch {scratch : Scratch} :
      Update camera thread (.freeScratch scratch) (camera.setScratch scratch false)
  | same {action : Action} : Update camera thread action camera

theorem update_of_apply {camera camera' : Camera} {thread : ThreadId} {action : Action}
    (applied : camera.apply thread action = some camera') :
    Update camera thread action camera' := by
  unfold apply at applied
  split at applied
  all_goals (repeat' split at applied)
  all_goals cases applied
  all_goals constructor
  all_goals assumption

section Frame

@[simp]
theorem setHolder_mPeekRun (camera : Camera) (mutex : Mutex) (thread : Option ThreadId) :
    (camera.setHolder mutex thread).mPeekRun = camera.mPeekRun := by
  cases mutex <;> rfl

@[simp]
theorem setHolder_mFD (camera : Camera) (mutex : Mutex) (thread : Option ThreadId) :
    (camera.setHolder mutex thread).mFD = camera.mFD := by
  cases mutex <;> rfl

@[simp]
theorem setHolder_mCurBufInfo (camera : Camera) (mutex : Mutex) (thread : Option ThreadId) :
    (camera.setHolder mutex thread).mCurBufInfo = camera.mCurBufInfo := by
  cases mutex <;> rfl

@[simp]
theorem setScratch_mPeekRun (camera : Camera) (scratch : Scratch) (allocated : Bool) :
    (camera.setScratch scratch allocated).mPeekRun = camera.mPeekRun := by
  cases scratch <;> rfl

@[simp]
theorem setScratch_mFD (camera : Camera) (scratch : Scratch) (allocated : Bool) :
    (camera.setScratch scratch allocated).mFD = camera.mFD := by
  cases scratch <;> rfl

@[simp]
theorem setScratch_mCurBufInfo (camera : Camera) (scratch : Scratch) (allocated : Bool) :
    (camera.setScratch scratch allocated).mCurBufInfo = camera.mCurBufInfo := by
  cases scratch <;> rfl

@[simp]
theorem setHolder_mWidth (camera : Camera) (mutex : Mutex) (thread : Option ThreadId) :
    (camera.setHolder mutex thread).mWidth = camera.mWidth := by
  cases mutex <;> rfl

@[simp]
theorem setHolder_mHeight (camera : Camera) (mutex : Mutex) (thread : Option ThreadId) :
    (camera.setHolder mutex thread).mHeight = camera.mHeight := by
  cases mutex <;> rfl

@[simp]
theorem setHolder_mBufferArray (camera : Camera) (mutex : Mutex) (thread : Option ThreadId) :
    (camera.setHolder mutex thread).mBufferArray = camera.mBufferArray := by
  cases mutex <;> rfl

@[simp]
theorem setScratch_mWidth (camera : Camera) (scratch : Scratch) (allocated : Bool) :
    (camera.setScratch scratch allocated).mWidth = camera.mWidth := by
  cases scratch <;> rfl

@[simp]
theorem setScratch_mHeight (camera : Camera) (scratch : Scratch) (allocated : Bool) :
    (camera.setScratch scratch allocated).mHeight = camera.mHeight := by
  cases scratch <;> rfl

@[simp]
theorem setScratch_mBufferArray (camera : Camera) (scratch : Scratch) (allocated : Bool) :
    (camera.setScratch scratch allocated).mBufferArray = camera.mBufferArray := by
  cases scratch <;> rfl

@[simp]
theorem setHolder_mPreviewSurface (camera : Camera) (mutex : Mutex) (thread : Option ThreadId) :
    (camera.setHolder mutex thread).mPreviewSurface = camera.mPreviewSurface := by
  cases mutex <;> rfl

@[simp]
theorem setScratch_mPreviewSurface (camera : Camera) (scratch : Scratch) (allocated : Bool) :
    (camera.setScratch scratch allocated).mPreviewSurface = camera.mPreviewSurface := by
  cases scratch <;> rfl

@[simp]
theorem setHolder_mEncoderSurfaces (camera : Camera) (mutex : Mutex) (thread : Option ThreadId) :
    (camera.setHolder mutex thread).mEncoderSurfaces = camera.mEncoderSurfaces := by
  cases mutex <;> rfl

@[simp]
theorem setScratch_mEncoderSurfaces (camera : Camera) (scratch : Scratch) (allocated : Bool) :
    (camera.setScratch scratch allocated).mEncoderSurfaces = camera.mEncoderSurfaces := by
  cases scratch <;> rfl

@[simp]
theorem setScratch_holder (camera : Camera) (scratch : Scratch) (allocated : Bool)
    (mutex : Mutex) : (camera.setScratch scratch allocated).holder mutex = camera.holder mutex := by
  cases scratch <;> cases mutex <;> rfl

@[simp]
theorem setHolder_holder (camera : Camera) (mutex other : Mutex) (thread : Option ThreadId) :
    (camera.setHolder mutex thread).holder other =
      if other = mutex then thread else camera.holder other := by
  cases mutex <;> cases other <;> rfl

variable {camera camera' : Camera} {thread : ThreadId} {action : Action}

/-- Only a write of `mPeekRun` changes it. -/
theorem mPeekRun_of_apply (applied : camera.apply thread action = some camera')
    (other : ∀ value, action ≠ .writePeek value) :
    camera'.mPeekRun = camera.mPeekRun := by
  cases update_of_apply applied with
  | writePeek => exact absurd rfl (other _)
  | lock | unlock | allocScratch | freeScratch => simp
  | _ => rfl

/-- Only `open`, the two `mFD = -1` and the destructor change `mFD`. -/
theorem mFD_of_apply (applied : camera.apply thread action = some camera')
    (keeps : action.keepsFd = true) : camera'.mFD = camera.mFD := by
  cases update_of_apply applied with
  | openDev | clearFd | deleteCamera => cases keeps
  | lock | unlock | allocScratch | freeScratch => simp
  | _ => rfl

/-- A descriptor can only become valid through `open`. -/
theorem mFD_nonneg_of_apply (applied : camera.apply thread action = some camera')
    (notOpened : ∀ fd, action ≠ .openDev fd) (isOpen : 0 ≤ camera'.mFD) :
    0 ≤ camera.mFD := by
  cases update_of_apply applied with
  | openDev => exact absurd rfl (notOpened _)
  | clearFd => cases isOpen
  | deleteCamera =>
      simp only [destroy] at isOpen
      split at isOpen <;> omega
  | lock | unlock | allocScratch | freeScratch => simpa using isOpen
  | _ => exact isOpen

theorem mPeekRun_of_writePeek {value : Bool}
    (applied : camera.apply thread (.writePeek value) = some camera') :
    camera'.mPeekRun = value := by
  cases Option.some.inj applied
  rfl

/-- A lowered `mPeekRun` stays down until somebody raises it. -/
theorem mPeekRun_lowered (applied : camera.apply thread action = some camera')
    (lowered : camera.mPeekRun = false) (notRaised : action ≠ .writePeek true) :
    camera'.mPeekRun = false := by
  by_cases writes : ∃ value, action = .writePeek value
  · obtain ⟨value, rfl⟩ := writes
    cases value with
    | false => exact mPeekRun_of_writePeek applied
    | true => exact absurd rfl notRaised
  · rw [mPeekRun_of_apply applied fun value same => writes ⟨value, same⟩]
    exact lowered

theorem eq_mFD_of_readFd {fd : Int} (applied : camera.apply thread (.readFd fd) = some camera') :
    fd = camera.mFD := by
  simp only [apply] at applied
  split at applied
  · assumption
  · cases applied

/-- A system call on the device is made with `mFD`. -/
theorem eq_mFD_of_apply {fd : Int} (applied : camera.apply thread action = some camera')
    (uses : action.descriptor = some fd) : fd = camera.mFD := by
  unfold apply at applied
  split at applied
  all_goals first | cases uses; done | skip
  all_goals (repeat' split at applied)
  all_goals first | cases applied; done | skip
  all_goals simp_all [Action.descriptor]

/-- Only `startCapture` itself changes the index in `mCurBufInfo`. -/
theorem mCurBufInfo_of_apply (applied : camera.apply thread action = some camera')
    (notCleared : action ≠ .clearBufInfo)
    (notDequeued : ∀ fd result, action ≠ .dequeueBuf fd result) :
    camera'.mCurBufInfo = camera.mCurBufInfo := by
  cases update_of_apply applied with
  | clearBufInfo => exact absurd rfl notCleared
  | filled => exact absurd rfl (notDequeued _ _)
  | lock | unlock | allocScratch | freeScratch => simp
  | _ => rfl

theorem size_of_apply (applied : camera.apply thread action = some camera') :
    camera'.mWidth = camera.mWidth ∧ camera'.mHeight = camera.mHeight := by
  cases update_of_apply applied with
  | lock | unlock | allocScratch | freeScratch => simp
  | _ => exact ⟨rfl, rfl⟩

/-- Only `mmap` writes an entry of `mBufferArray`. -/
theorem mBufferArray_of_apply (applied : camera.apply thread action = some camera')
    (notSet : action.setsBuffer = false) :
    camera'.mBufferArray = camera.mBufferArray := by
  cases update_of_apply applied with
  | mapBuf => cases notSet
  | lock | unlock | allocScratch | freeScratch => simp
  | _ => rfl

/-- Only a setter changes the preview surface. -/
theorem mPreviewSurface_of_apply (applied : camera.apply thread action = some camera')
    (notWritten : ∀ surface, action ≠ .writePreview surface) :
    camera'.mPreviewSurface = camera.mPreviewSurface := by
  cases update_of_apply applied with
  | writePreview => exact absurd rfl (notWritten _)
  | lock | unlock | allocScratch | freeScratch => simp
  | _ => rfl

/-- Only the two list updates change the encoder surfaces. -/
theorem mEncoderSurfaces_of_apply (applied : camera.apply thread action = some camera')
    (notPushed : ∀ surface, action ≠ .pushEncoder surface)
    (notRemoved : ∀ surface, action ≠ .removeEncoder surface) :
    camera'.mEncoderSurfaces = camera.mEncoderSurfaces := by
  cases update_of_apply applied with
  | pushEncoder => exact absurd rfl (notPushed _)
  | removeEncoder => exact absurd rfl (notRemoved _)
  | lock | unlock | allocScratch | freeScratch => simp
  | _ => rfl

/-- Only `pthread_mutex_lock` and `pthread_mutex_unlock` change who holds a mutex. -/
theorem holder_of_apply {mutex : Mutex} (applied : camera.apply thread action = some camera')
    (notLocked : ∀ other, action ≠ .lock other) (notUnlocked : ∀ other, action ≠ .unlock other) :
    camera'.holder mutex = camera.holder mutex := by
  cases update_of_apply applied with
  | lock => exact absurd rfl (notLocked _)
  | unlock => exact absurd rfl (notUnlocked _)
  | allocScratch | freeScratch => simp
  | _ => cases mutex <;> rfl

/-- A mutex is locked only while nobody holds it. -/
theorem of_lock {mutex : Mutex} (applied : camera.apply thread (.lock mutex) = some camera') :
    camera.holder mutex = none ∧ camera' = camera.setHolder mutex (some thread) := by
  simp only [apply] at applied
  split at applied
  · exact ⟨by assumption, (Option.some.inj applied).symm⟩
  · cases applied

theorem of_readPreview {surface : Option Surface}
    (applied : camera.apply thread (.readPreview surface) = some camera') :
    surface = camera.mPreviewSurface := by
  simp only [apply] at applied
  split at applied
  · assumption
  · cases applied

theorem of_mapBuf {fd : Int} {index length : Nat} {ok : Bool}
    (applied : camera.apply thread (.mapBuf fd index length ok) = some camera') :
    camera'.mBufferArray index = ⟨ok, length⟩ ∧
      ∀ other, other ≠ index → camera'.mBufferArray other = camera.mBufferArray other := by
  simp only [apply] at applied
  split at applied
  · rw [← Option.some.inj applied]
    exact ⟨by simp [setBuffer], fun other distinct => by simp [setBuffer, distinct]⟩
  · cases applied

/-- A dequeue uses `mFD`, and changes the index only when it succeeds. -/
theorem of_dequeueBuf {fd : Int} {result : DequeueResult}
    (applied : camera.apply thread (.dequeueBuf fd result) = some camera') :
    fd = camera.mFD ∧ camera'.mFD = camera.mFD ∧
      ∀ index, result = .filled index → camera'.mCurBufInfo = index := by
  simp only [apply] at applied
  split at applied
  · rename_i same
    refine ⟨same, ?_⟩
    cases result with
    | filled index =>
        rw [← Option.some.inj applied]
        simp
    | failed errno =>
        rw [← Option.some.inj applied]
        simp
  · cases applied

/-- `VIDIOC_QBUF` is issued for the index in `mCurBufInfo`. -/
theorem of_requeueBuf {fd : Int} {index : Nat} {ok : Bool}
    (applied : camera.apply thread (.requeueBuf fd index ok) = some camera') :
    fd = camera.mFD ∧ index = camera.mCurBufInfo ∧ camera' = camera := by
  simp only [apply] at applied
  split at applied
  · rename_i same
    exact ⟨same.1, same.2, (Option.some.inj applied).symm⟩
  · cases applied

theorem of_convert {scratch : Scratch} {index : Nat}
    (applied : camera.apply thread (.convert scratch index) = some camera') :
    index = camera.mCurBufInfo := by
  simp only [apply] at applied
  split at applied
  · assumption
  · cases applied

end Frame

end Camera

/-- What the kernel keeps for this process: the open camera descriptors, the
mappings made of their buffers and not unmapped, and for each descriptor the
buffers its driver owns. -/
structure Device where
  openFds : List Int
  mappings : List (Int × Nat)
  driverOwned : List (Int × Nat)

namespace Device

def empty : Device := ⟨[], [], []⟩

/-- Closing a descriptor ends its queues; mappings stay. -/
def close (device : Device) (fd : Int) : Device :=
  { device with
    openFds := device.openFds.filter fun other => other ≠ fd
    driverOwned := device.driverOwned.filter fun owned => owned.1 ≠ fd }

def enqueue (device : Device) (fd : Int) (index : Nat) : Device :=
  { device with driverOwned := device.driverOwned.insert (fd, index) }

def dequeue (device : Device) (fd : Int) (index : Nat) : Device :=
  { device with driverOwned := device.driverOwned.filter fun owned => owned ≠ (fd, index) }

/-- The effect of an action on the device.  `open` returns a negative value or a
descriptor that is not open, and a successful `VIDIOC_DQBUF` hands over a buffer
the driver owns; every other outcome is free. -/
def apply (device : Device) : Action → Option Device
  | .openDev fd =>
      if fd < 0 then some device
      else if fd ∈ device.openFds then none
      else some { device with openFds := fd :: device.openFds }
  | .closeFd fd => some (device.close fd)
  | .deleteCamera fd => some (if 0 < fd then device.close fd else device)
  | .ioctl fd (.queueBuf index) true => some (device.enqueue fd index)
  | .requeueBuf fd index true => some (device.enqueue fd index)
  | .mapBuf fd index _ true =>
      some { device with mappings := (fd, index) :: device.mappings }
  | .dequeueBuf fd (.filled index) =>
      if (fd, index) ∈ device.driverOwned then some (device.dequeue fd index) else none
  | _ => some device

@[simp]
theorem mem_enqueue {device : Device} {fd other : Int} {index position : Nat} :
    (other, position) ∈ (device.enqueue fd index).driverOwned ↔
      (other = fd ∧ position = index) ∨ (other, position) ∈ device.driverOwned := by
  simp [enqueue]

@[simp]
theorem mem_dequeue {device : Device} {fd other : Int} {index position : Nat} :
    (other, position) ∈ (device.dequeue fd index).driverOwned ↔
      (other, position) ∈ device.driverOwned ∧ ¬ (other = fd ∧ position = index) := by
  simp only [dequeue, List.mem_filter, ne_eq, Prod.mk.injEq, decide_eq_true_eq]

theorem of_filled {device device' : Device} {fd : Int} {index : Nat}
    (applied : device.apply (.dequeueBuf fd (.filled index)) = some device') :
    (fd, index) ∈ device.driverOwned ∧ device' = device.dequeue fd index := by
  simp only [apply] at applied
  split at applied
  · exact ⟨by assumption, (Option.some.inj applied).symm⟩
  · cases applied

end Device

end UsbCamera
