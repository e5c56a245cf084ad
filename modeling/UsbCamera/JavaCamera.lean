import UsbCamera.CameraState
import UsbCamera.FailFastList

/-!
# The methods of `Camera.java`

The Java side of the camera: the list of registered clients, the lock around it and
the native surface registry its methods keep up to date.  No method unlocks in a
`finally`, so an exception leaves the lock held.
-/

namespace UsbCamera

/-- A `CameraClient`; clients are compared by identity. -/
abbrev ClientId := Nat

/-- A `Surface` argument as the native code finds it during the call. -/
structure JSurface where
  nativeSurface : Surface
  isValid : Bool
  deriving DecidableEq

/-- What can escape from a method of `Camera.java`. -/
inductive Throwable
  | concurrentModification
  | thrownByClient
  deriving DecidableEq

/-! ## The native surface registry -/

/-- The surfaces the native object draws on. -/
structure NativeSurfaces where
  mPreviewSurface : Option Surface
  mEncoderSurfaces : List Surface
  deriving DecidableEq

namespace NativeSurfaces

def setPreviewSurface (native : NativeSurfaces) : Option JSurface → NativeSurfaces
  | none => { native with mPreviewSurface := none }
  | some jsurface =>
      if jsurface.isValid then
        { native with mPreviewSurface := some jsurface.nativeSurface }
      else native

def addEncoderSurface (native : NativeSurfaces) : Option JSurface → NativeSurfaces
  | none => native
  | some jsurface =>
      if jsurface.isValid then
        { native with mEncoderSurfaces := native.mEncoderSurfaces ++ [jsurface.nativeSurface] }
      else native

/-- `std::list::remove` drops every equal pointer. -/
def removeEncoderSurface (native : NativeSurfaces) : Option JSurface → NativeSurfaces
  | none => native
  | some jsurface =>
      if jsurface.isValid then
        { native with
          mEncoderSurfaces :=
            native.mEncoderSurfaces.filter fun other => other ≠ jsurface.nativeSurface }
      else native

end NativeSurfaces

/-! ## The Java object -/

/-- The fields of a `Camera` as one thread sees them: `mClientLock` is that thread's
hold count, `mNativeObject` what the native pointer leads to, and `releaseCalls`
counts the calls of `releaseCamera()`. -/
structure JavaCamera where
  mClients : FailFastList ClientId
  mClientLock : Nat
  mNativeObject : Option NativeSurfaces
  releaseCalls : Nat

/-- What the callbacks of a client answer during one call. -/
structure Answers where
  isEncoder : Except Throwable Bool
  getSurface : Except Throwable (Option JSurface)

namespace JavaCamera

abbrev Java := Method Throwable JavaCamera

/-- After the constructor. -/
def create : JavaCamera where
  mClients := FailFastList.empty
  mClientLock := 0
  mNativeObject := some ⟨none, []⟩
  releaseCalls := 0

def lockClients : Java Unit :=
  modify fun camera => { camera with mClientLock := camera.mClientLock + 1 }

def unlockClients : Java Unit :=
  modify fun camera => { camera with mClientLock := camera.mClientLock - 1 }

def answer {α : Type} : Except Throwable α → Java α
  | .ok value => pure value
  | .error thrown => throw thrown

def setPreview (jsurface : Option JSurface) : Java Unit :=
  modify fun camera =>
    { camera with
      mNativeObject := camera.mNativeObject.map fun native => native.setPreviewSurface jsurface }

def addEncoder (jsurface : Option JSurface) : Java Unit :=
  modify fun camera =>
    { camera with
      mNativeObject := camera.mNativeObject.map fun native => native.addEncoderSurface jsurface }

def removeEncoder (jsurface : Option JSurface) : Java Unit :=
  modify fun camera =>
    { camera with
      mNativeObject :=
        camera.mNativeObject.map fun native => native.removeEncoderSurface jsurface }

/-- `nativeReleaseCamera` deletes the native object and clears the pointer. -/
def releaseCamera : Java Unit :=
  modify fun camera =>
    { camera with mNativeObject := none, releaseCalls := camera.releaseCalls + 1 }

def addClient (client : ClientId) (answers : Answers) : Java Unit := do
  lockClients
  modify fun camera => { camera with mClients := camera.mClients.add client }
  if ← answer answers.isEncoder then
    addEncoder (← answer answers.getSurface)
  else
    setPreview (← answer answers.getSurface)
  unlockClients

def removeClient (client : ClientId) (answers : Answers) : Java Unit := do
  lockClients
  modify fun camera => { camera with mClients := camera.mClients.remove client }
  if ← answer answers.isEncoder then
    removeEncoder (← answer answers.getSurface)
  else
    setPreview none
  unlockClients

/-- `mClients.remove(c)` inside the loop of `release()`. -/
def removeFromClients (client : ClientId) : Java Unit :=
  modify fun camera => { camera with mClients := camera.mClients.remove client }

/-- An iteration advances the iterator or ends the loop, so the loop of `release()`
never needs more iterations than it has fuel. -/
def release : Java Unit := do
  lockClients
  let clients := (← get).mClients
  FailFastList.forEach mClients .concurrentModification removeFromClients
    (clients.items.length + 1) clients.iterator
  unlockClients
  releaseCamera

/-! ## Calls whose callbacks return -/

section Calls

variable (camera : JavaCamera) (client : ClientId) (encoder : Bool)
  (jsurface : Option JSurface)

theorem exec_addClient :
    (addClient client ⟨.ok encoder, .ok jsurface⟩).exec camera =
      some (.ok (), { camera with
        mClients := camera.mClients.add client
        mNativeObject := camera.mNativeObject.map fun native =>
          if encoder then native.addEncoderSurface jsurface
          else native.setPreviewSurface jsurface }) := by
  cases encoder <;> rfl

theorem exec_removeClient :
    (removeClient client ⟨.ok encoder, .ok jsurface⟩).exec camera =
      some (.ok (), { camera with
        mClients := camera.mClients.remove client
        mNativeObject := camera.mNativeObject.map fun native =>
          if encoder then native.removeEncoderSurface jsurface
          else native.setPreviewSurface none }) := by
  cases encoder <;> rfl

end Calls

/-! ## How `release()` ends -/

section Release

variable {camera : JavaCamera}

/-- The state in which the loop of `release()` begins. -/
def locked (camera : JavaCamera) : JavaCamera :=
  { camera with mClientLock := camera.mClientLock + 1 }

/-- The state after the first iteration. -/
def firstRemoved (camera : JavaCamera) (client : ClientId) : JavaCamera :=
  { camera with mClients := ⟨camera.mClients.items.erase client, camera.mClients.modCount + 1⟩ }

/-- The end of `release()` when its loop has returned. -/
def released (camera : JavaCamera) : JavaCamera :=
  { camera with
    mClientLock := camera.mClientLock - 1
    mNativeObject := none
    releaseCalls := camera.releaseCalls + 1 }

theorem release_of_loop {after : JavaCamera}
    (returned : (FailFastList.forEach mClients .concurrentModification removeFromClients
      (camera.mClients.items.length + 1) camera.mClients.iterator).exec camera.locked =
        some (.ok (), after)) :
    release.exec camera = some (.ok (), after.released) := by
  unfold release
  rw [Method.exec_bind_of_ok (show lockClients.exec camera = some (.ok (), camera.locked) from rfl),
    Method.exec_bind_of_ok (Method.exec_get _)]
  exact Method.exec_bind_of_ok returned

theorem release_of_throw {after : JavaCamera} {thrown : Throwable}
    (threw : (FailFastList.forEach mClients .concurrentModification removeFromClients
      (camera.mClients.items.length + 1) camera.mClients.iterator).exec camera.locked =
        some (.error thrown, after)) :
    release.exec camera = some (.error thrown, after) := by
  unfold release
  rw [Method.exec_bind_of_ok (show lockClients.exec camera = some (.ok (), camera.locked) from rfl),
    Method.exec_bind_of_ok (Method.exec_get _)]
  exact Method.exec_bind_of_error threw

theorem release_of_nil (none : camera.mClients.items = []) :
    release.exec camera = some (.ok (), camera.locked.released) := by
  apply release_of_loop
  exact FailFastList.forEach_of_end (by simp [FailFastList.iterator, locked, none])

theorem loop_of_cons {client : ClientId} {clients : List ClientId}
    (items : camera.mClients.items = client :: clients) (fuel : Nat) :
    (FailFastList.forEach mClients .concurrentModification removeFromClients
      (fuel + 1) camera.mClients.iterator).exec camera.locked =
    (FailFastList.forEach mClients .concurrentModification removeFromClients
      fuel ⟨1, camera.mClients.modCount⟩).exec (camera.locked.firstRemoved client) := by
  apply FailFastList.forEach_of_next
  · show camera.mClients.items[0]? = _
    rw [items]
    rfl
  · rfl
  · simp [removeFromClients, FailFastList.remove, firstRemoved, locked, items]

/-- With one or two clients the loop ends after the first of them: its index has
reached the size. -/
theorem release_of_short {client : ClientId} {clients : List ClientId}
    (items : camera.mClients.items = client :: clients) (short : clients.length ≤ 1) :
    release.exec camera = some (.ok (), (camera.locked.firstRemoved client).released) := by
  apply release_of_loop
  rw [loop_of_cons items]
  have fuel : camera.mClients.items.length = clients.length + 1 := by simp [items]
  rw [fuel]
  apply FailFastList.forEach_of_end
  simpa [firstRemoved, locked, items] using short

/-- With three clients or more the second iteration finds the list modified. -/
theorem release_of_long {client : ClientId} {clients : List ClientId}
    (items : camera.mClients.items = client :: clients) (long : 2 ≤ clients.length) :
    release.exec camera =
      some (.error .concurrentModification, camera.locked.firstRemoved client) := by
  apply release_of_throw
  rw [loop_of_cons items]
  have fuel : camera.mClients.items.length = clients.length + 1 := by simp [items]
  rw [fuel]
  apply FailFastList.forEach_of_stale
  · simpa [firstRemoved, locked, items, Nat.lt_iff_add_one_le] using long
  · simp [firstRemoved, locked]

end Release

/-- `release()` returns normally, with no client left, the lock as it was before and
the native object released once. -/
def ReleasesCleanly (camera : JavaCamera) : Prop :=
  ∃ after, release.exec camera = some (.ok (), after) ∧ after.mClients.items = [] ∧
    after.mClientLock = camera.mClientLock ∧ after.releaseCalls = camera.releaseCalls + 1

/-- `release()` does what it is for exactly when at most one client is registered:
with two it leaves the second behind, with more it throws with the lock held. -/
theorem releasesCleanly_iff (camera : JavaCamera) :
    ReleasesCleanly camera ↔ camera.mClients.items.length ≤ 1 := by
  cases items : camera.mClients.items with
  | nil =>
      have outcome := release_of_nil items
      simp only [List.length_nil, Nat.zero_le, iff_true]
      exact ⟨_, outcome, items, rfl, rfl⟩
  | cons client clients =>
      by_cases short : clients.length ≤ 1
      · have outcome := release_of_short items short
        have left : ((camera.locked.firstRemoved client).released).mClients.items = clients := by
          simp [released, firstRemoved, locked, items]
        constructor
        · rintro ⟨after, same, empty, -, -⟩
          rw [outcome] at same
          cases same
          rw [left] at empty
          simp [empty]
        · intro single
          have none : clients = [] := List.eq_nil_of_length_eq_zero (by simpa using single)
          exact ⟨_, outcome, by rw [left, none], rfl, rfl⟩
      · have outcome := release_of_long items (by omega)
        constructor
        · rintro ⟨after, same, -, -, -⟩
          rw [outcome] at same
          cases same
        · intro single
          simp at single
          simp [single] at short

/-- Three registered clients. -/
theorem not_releasesCleanly : ¬ ∀ camera, ReleasesCleanly camera := by
  intro always
  obtain ⟨after, returned, -⟩ := always { create with mClients := ⟨[1, 2, 3], 3⟩ }
  cases returned

end JavaCamera

end UsbCamera
