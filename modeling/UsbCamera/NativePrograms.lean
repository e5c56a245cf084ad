import UsbCamera.CameraState

/-!
# The native entry points as program counters

Each native function is a program counter type with a `next` function: at a
given point, which actions the code can perform and where it continues.  Branches
on a local value are resolved by the action that observed it.  The points follow
the statements of `com_hongdian_usbcamera_Camera.cpp` in order.
-/

namespace UsbCamera

/-! ## `drawPreviewSurface` -/

/-- Points of `drawPreviewSurface`; `nativeWindow` is the local reference taken
before the lock. -/
inductive PreviewPc
  | takeWindow
  | lock (nativeWindow : Option Surface)
  | testSurface (nativeWindow : Option Surface)
  | freeScratch
  | unlockEmpty
  | allocScratch (nativeWindow : Option Surface)
  | convert (nativeWindow : Option Surface)
  | configure (nativeWindow : Option Surface)
  | dequeue (nativeWindow : Option Surface)
  | unlockFailed
  | lockBuffer (nativeWindow : Option Surface)
  | copy (nativeWindow : Option Surface) (locked : Bool)
  | unlockBuffer (nativeWindow : Option Surface)
  | queue (nativeWindow : Option Surface)
  | unlockQueued
  | returned
  deriving DecidableEq

/-- The calls go on whatever the window is; on a `NULL` window the code ends the process. -/
def PreviewPc.next : PreviewPc → Action → Option PreviewPc
  | .takeWindow, .readPreview surface => some (.lock surface)
  | .lock window, .lock .previewLock => some (.testSurface window)
  | .testSurface _, .readPreview none => some .freeScratch
  | .testSurface window, .readPreview (some _) => some (.allocScratch window)
  | .freeScratch, .freeScratch .yuv420sp => some .unlockEmpty
  | .unlockEmpty, .unlock .previewLock => some .returned
  | .allocScratch window, .allocScratch .yuv420sp => some (.convert window)
  | .convert window, .convert .yuv420sp _ => some (.configure window)
  | .configure window, .window surface .configure =>
      if surface = window then some (.dequeue window) else none
  | .dequeue window, .window surface (.dequeue ok) =>
      if surface = window then
        some (if ok then .lockBuffer window else .unlockFailed)
      else none
  | .unlockFailed, .unlock .previewLock => some .returned
  | .lockBuffer window, .window surface (.lockBuffer ok) =>
      if surface = window then some (.copy window ok) else none
  -- the result of `mapper.lock` is not looked at: the copy runs either way
  | .copy window _, .copyScratch .yuv420sp => some (.unlockBuffer window)
  | .unlockBuffer window, .window surface (.unlockBuffer _) =>
      if surface = window then some (.queue window) else none
  | .queue window, .window surface (.queue _) =>
      if surface = window then some .unlockQueued else none
  | .unlockQueued, .unlock .previewLock => some .returned
  | _, _ => none

/-! ## `drawEncoderSurface` -/

/-- Points of `drawEncoderSurface`; `position` is the list iterator `i`. -/
inductive EncoderPc
  | lock
  | testEmpty
  | unlockEmpty
  | freeScratch
  | allocScratch
  | convert
  | iterate (position : Nat)
  | lockWindow (position : Nat) (nativeWindow : Surface)
  | copy (position : Nat) (nativeWindow : Surface)
  | post (position : Nat) (nativeWindow : Surface)
  | unlock
  | returned
  deriving DecidableEq

def EncoderPc.next : EncoderPc → Action → Option EncoderPc
  | .lock, .lock .encoderLock => some .testEmpty
  | .testEmpty, .encodersEmpty true => some .unlockEmpty
  | .testEmpty, .encodersEmpty false => some .allocScratch
  | .unlockEmpty, .unlock .encoderLock => some .freeScratch
  | .freeScratch, .freeScratch .rgba8888 => some .returned
  | .allocScratch, .allocScratch .rgba8888 => some .convert
  | .convert, .convert .rgba8888 _ => some (.iterate 0)
  | .iterate position, .encoderAt other surface =>
      if other = position then
        match surface with
        | none => some .unlock
        | some window => some (.lockWindow position window)
      else none
  | .lockWindow position window, .window surface (.lockWindow ok) =>
      if surface = some window then
        some (if ok then .copy position window else .iterate (position + 1))
      else none
  | .copy position window, .copyScratch .rgba8888 => some (.post position window)
  | .post position window, .window surface .post =>
      if surface = some window then some (.iterate (position + 1)) else none
  | .unlock, .unlock .encoderLock => some .returned
  | _, _ => none

/-! ## `startCapture` -/

/-- Points of `nativeStartCapture` and `startCapture`. -/
inductive CapturePc
  | getCamera
  | checkFd
  | raisePeek
  | loopTest
  | fdSet
  | select
  | recheck (result : Int) (errno : Errno)
  | clearBufInfo
  | dequeueBuf
  | notifyFirst
  | preview (pc : PreviewPc)
  | encoder (pc : EncoderPc)
  | requeueBuf
  | lowerPeek
  | notifyStop
  | closeFd
  | clearFd
  | notifyError
  | returned
  deriving DecidableEq

/-- After `select`, when `mPeekRun` was still true: `-1` retries on `EINTR` and
otherwise ends the capture, `0` is the time-out. -/
def CapturePc.afterSelect (result : Int) (errno : Errno) : CapturePc :=
  if result = -1 then
    if errno = eintr then .loopTest else .closeFd
  else if result = 0 then .closeFd
  else .clearBufInfo

/-- After `VIDIOC_DQBUF`: only `EAGAIN` leaves for the error exit; `EIO` and
every other `errno` fall out of the switch and continue like a success. -/
def CapturePc.afterDequeue (firstCapture : Bool) : DequeueResult → CapturePc
  | .failed errno =>
      if errno = eagain then .closeFd
      else if firstCapture then .notifyFirst else .preview .takeWindow
  | .filled _ => if firstCapture then .notifyFirst else .preview .takeWindow

/-- The capture program; `first` is the local `firstCapture`. -/
def CapturePc.next (first : Bool) : CapturePc → Action → Option (Bool × CapturePc)
  | .getCamera, .getCamera attached =>
      some (first, if attached then .checkFd else .returned)
  | .checkFd, .readFd fd => some (first, if fd < 0 then .returned else .raisePeek)
  | .raisePeek, .writePeek true => some (first, .loopTest)
  | .loopTest, .loopTest value => some (first, if value then .fdSet else .lowerPeek)
  | .fdSet, .readFd _ => some (first, .select)
  | .select, .select _ result errno => some (first, .recheck result errno)
  | .recheck result errno, .recheck value =>
      some (first, if value then afterSelect result errno else .lowerPeek)
  | .clearBufInfo, .clearBufInfo => some (first, .dequeueBuf)
  | .dequeueBuf, .dequeueBuf _ result => some (first, afterDequeue first result)
  | .notifyFirst, .notify .firstCapture => some (false, .preview .takeWindow)
  | .preview pc, action =>
      (pc.next action).map fun pc =>
        (first, if pc = .returned then .encoder .lock else .preview pc)
  | .encoder pc, action =>
      (pc.next action).map fun pc =>
        (first, if pc = .returned then .requeueBuf else .encoder pc)
  | .requeueBuf, .requeueBuf _ _ ok => some (first, if ok then .loopTest else .closeFd)
  | .lowerPeek, .writePeek false => some (first, .notifyStop)
  | .notifyStop, .notify .captureStop => some (first, .returned)
  | .closeFd, .closeFd _ => some (first, .clearFd)
  | .clearFd, .clearFd => some (first, .notifyError)
  | .notifyError, .notify .cameraError => some (first, .returned)
  | _, _ => none

/-! ## `openCamera` -/

/-- Points of `openCamera`; `count` is `req.count` as the driver returned it,
`length` the local `buf.length`. -/
inductive OpenPc
  | openDev
  | testFd
  | queryCap
  | setFmt
  | setParm
  | getParm
  | reqBufs
  | queryBuf (index count : Nat)
  | mapBuf (index count length : Nat)
  | queueBuf (index : Nat)
  | streamOn
  | logFd
  | returnFd
  | closeFd
  | clearFd
  | returned (fd : Int)
  deriving DecidableEq

/-- Head of the queueing loop, which runs to `BUFFER_NR`. -/
def OpenPc.queueLoop (index : Nat) : OpenPc :=
  if index < bufferNR then .queueBuf index else .streamOn

/-- Head of the mapping loop, which runs to the granted `req.count`. -/
def OpenPc.mapLoop (index count : Nat) : OpenPc :=
  if index < count then .queryBuf index count else queueLoop 0

def OpenPc.next : OpenPc → Action → Option OpenPc
  | .openDev, .openDev _ => some .testFd
  | .testFd, .readFd fd => some (if fd < 0 then .returnFd else .queryCap)
  | .queryCap, .ioctl _ (.queryCap captures) ok =>
      some (if ok && captures then .setFmt else .closeFd)
  | .setFmt, .ioctl _ (.setFmt _) ok => some (if ok then .setParm else .closeFd)
  | .setParm, .ioctl _ .setParm ok => some (if ok then .getParm else .closeFd)
  | .getParm, .ioctl _ .getParm ok => some (if ok then .reqBufs else .closeFd)
  | .reqBufs, .ioctl _ (.reqBufs count) ok =>
      some (if ok then mapLoop 0 count else .closeFd)
  | .queryBuf index count, .ioctl _ (.queryBuf other length) ok =>
      if other = index then
        some (if ok then .mapBuf index count length else .closeFd)
      else none
  | .mapBuf index count length, .mapBuf _ other otherLength ok =>
      if other = index ∧ otherLength = length then
        some (if ok then mapLoop (index + 1) count else .closeFd)
      else none
  | .queueBuf index, .ioctl _ (.queueBuf other) ok =>
      if other = index then
        some (if ok then queueLoop (index + 1) else .closeFd)
      else none
  | .streamOn, .ioctl _ .streamOn ok => some (if ok then .logFd else .closeFd)
  | .logFd, .readFd _ => some .returnFd
  | .closeFd, .closeFd _ => some .clearFd
  | .clearFd, .clearFd => some .returnFd
  | .returnFd, .readFd fd => some (.returned fd)
  | _, _ => none

/-! ## The surface entry points -/

/-- The update `setPreviewSurface`, `addEncoderSurface` or `removeEncoderSurface`
makes once its argument has been accepted. -/
inductive SurfaceUpdate
  | setPreview (surface : Option Surface)
  | addEncoder (surface : Surface)
  | removeEncoder (surface : Surface)
  deriving DecidableEq

namespace SurfaceUpdate

def mutex : SurfaceUpdate → Mutex
  | .setPreview _ => .previewLock
  | .addEncoder _ | .removeEncoder _ => .encoderLock

def action : SurfaceUpdate → Action
  | .setPreview surface => .writePreview surface
  | .addEncoder surface => .pushEncoder surface
  | .removeEncoder surface => .removeEncoder surface

end SurfaceUpdate

/-- Points of `nativeSetPreview`, `nativeAddEncoder` and `nativeRemoveEncoder`,
which differ in the update they make and in what they do with `NULL`. -/
inductive SurfacePc
  | getCamera (null : Option SurfaceUpdate)
  | getCameraFor (update : SurfaceUpdate)
  | checkValid (update : SurfaceUpdate)
  | lock (update : SurfaceUpdate)
  | apply (update : SurfaceUpdate)
  | unlock (update : SurfaceUpdate)
  | logSize
  | returned
  deriving DecidableEq

namespace SurfacePc

def setPreview : Option Surface → SurfacePc
  | none => .getCamera (some (.setPreview none))
  | some surface => .getCameraFor (.setPreview (some surface))

def addEncoder : Option Surface → SurfacePc
  | none => .getCamera none
  | some surface => .getCameraFor (.addEncoder surface)

def removeEncoder : Option Surface → SurfacePc
  | none => .getCamera none
  | some surface => .getCameraFor (.removeEncoder surface)

def next : SurfacePc → Action → Option SurfacePc
  -- a `NULL` surface clears the preview and is ignored by the encoder methods
  | .getCamera null, .getCamera attached =>
      match null with
      | some update => some (if attached then .lock update else .returned)
      | none => some .returned
  | .getCameraFor update, .getCamera attached =>
      some (if attached then .checkValid update else .returned)
  | .checkValid update, .surfaceValid valid =>
      some (if valid then .lock update else .returned)
  | .lock update, .lock mutex =>
      if mutex = update.mutex then some (.apply update) else none
  | .apply update, action =>
      if action = update.action then some (.unlock update) else none
  | .unlock update, .unlock mutex =>
      if mutex = update.mutex then
        match update with
        | .addEncoder _ => some .logSize
        | .setPreview _ | .removeEncoder _ => some .returned
      else none
  | .logSize, .encodersSize => some .returned
  | _, _ => none

end SurfacePc

/-! ## Threads -/

/-- Where a thread is: outside the native code, or inside one of its entry
points.  `start` continues, when `openCamera` returned a positive descriptor, with
the creation of the capture thread. -/
inductive Pc
  | idle
  | startGet
  | opening (pc : OpenPc)
  | spawning
  | capturing (first : Bool) (pc : CapturePc)
  | stopGet
  | stopWrite
  | releaseGet
  | releaseStop
  | releaseDelete
  | releaseClear
  | surface (pc : SurfacePc)
  deriving DecidableEq

namespace Pc

def enter : Call → Pc
  | .start => .startGet
  | .stop => .stopGet
  | .release => .releaseGet
  | .setPreview jsurface => .surface (SurfacePc.setPreview jsurface)
  | .addEncoder jsurface => .surface (SurfacePc.addEncoder jsurface)
  | .removeEncoder jsurface => .surface (SurfacePc.removeEncoder jsurface)

/-- `nativeOpenCamera` answers 0 only for a positive descriptor. -/
def afterOpen : OpenPc → Pc
  | .returned fd => if 0 < fd then .spawning else .idle
  | pc => .opening pc

def afterCapture (first : Bool) : CapturePc → Pc
  | .returned => .idle
  | pc => .capturing first pc

def afterSurface : SurfacePc → Pc
  | .returned => .idle
  | pc => .surface pc

def next : Pc → Action → Option Pc
  | .idle, .call entry => some (enter entry)
  | .startGet, .getCamera attached => some (if attached then .opening .openDev else .idle)
  | .opening pc, action => (pc.next action).map afterOpen
  | .spawning, .spawn _ => some .idle
  | .capturing first pc, action =>
      (pc.next first action).map fun after => afterCapture after.1 after.2
  | .stopGet, .getCamera attached => some (if attached then .stopWrite else .idle)
  | .stopWrite, .writePeek false => some .idle
  | .releaseGet, .getCamera attached => some (if attached then .releaseStop else .idle)
  | .releaseStop, .writePeek false => some .releaseDelete
  | .releaseDelete, .deleteCamera _ => some .releaseClear
  | .releaseClear, .clearCamera => some .idle
  | .surface pc, action => (pc.next action).map afterSurface
  | _, _ => none

end Pc

end UsbCamera
