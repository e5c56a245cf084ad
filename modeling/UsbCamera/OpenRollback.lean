import UsbCamera.DeviceAccounting

/-!
# What a failed `openCamera` leaves behind

One call of `openCamera` by itself, from any state of the object and with any answers of
the system.  The one error exit closes the descriptor and writes `mFD = -1`; it does not
unmap the buffers that have been mapped, and nothing looks at the descriptor `mFD` held
before.  The caller takes descriptor 0 for a failure.
-/

namespace UsbCamera

/-! ## What the system answered -/

/-- The descriptor, or the error, `open` returned. -/
def Action.openedFd : Action → Option Int
  | .openDev fd => some fd
  | _ => none

/-- The number of buffers `VIDIOC_REQBUFS` granted. -/
def Action.grant : Action → Option Nat
  | .ioctl _ (.reqBufs count) true => some count
  | _ => none

/-- The buffer `mmap` has mapped. -/
def Action.mapping : Action → Option (Int × Nat)
  | .mapBuf fd index _ true => some (fd, index)
  | _ => none

/-- The descriptor on which `VIDIOC_STREAMON` succeeded. -/
def Action.streamed : Action → Option Int
  | .ioctl fd .streamOn true => some fd
  | _ => none

def openedFds (actions : List Action) : List Int :=
  actions.filterMap Action.openedFd

def grants (actions : List Action) : List Nat :=
  actions.filterMap Action.grant

def mappings (actions : List Action) : List (Int × Nat) :=
  actions.filterMap Action.mapping

def streaming (actions : List Action) : List Int :=
  actions.filterMap Action.streamed

section Answers

variable (actions : List Action) (action : Action)

@[simp]
theorem openedFds_concat :
    openedFds (actions ++ [action]) = openedFds actions ++ action.openedFd.toList := by
  cases fresh : action.openedFd <;> simp [openedFds, fresh]

@[simp]
theorem grants_concat : grants (actions ++ [action]) = grants actions ++ action.grant.toList := by
  cases fresh : action.grant <;> simp [grants, fresh]

@[simp]
theorem mappings_concat :
    mappings (actions ++ [action]) = mappings actions ++ action.mapping.toList := by
  cases fresh : action.mapping <;> simp [mappings, fresh]

@[simp]
theorem streaming_concat :
    streaming (actions ++ [action]) = streaming actions ++ action.streamed.toList := by
  cases fresh : action.streamed <;> simp [streaming, fresh]

end Answers

/-- The action answers nothing that is counted and leaves descriptors and buffers alone. -/
def Action.uneventful (action : Action) : Bool :=
  action.openedFd.isNone && action.grant.isNone && action.streamed.isNone &&
    action.keepsDescriptors && !action.setsBuffer

namespace Device

variable {device device' : Device} {action : Action}

/-- A successful `mmap` adds its mapping, and nothing takes one away. -/
theorem mappings_eq_of_apply (applied : device.apply action = some device') :
    device'.mappings = action.mapping.toList ++ device.mappings := by
  unfold Device.apply at applied
  split at applied
  case h_8 notMapped _ =>
      cases applied
      cases action with
      | mapBuf fd index length ok =>
          cases ok with
          | false => rfl
          | true => exact absurd rfl (notMapped fd index length)
      | _ => rfl
  all_goals (repeat' split at applied)
  all_goals cases applied
  all_goals rfl

/-- A request other than closing leaves the driver what it had. -/
theorem driverOwned_of_own (own : OpenPc.ownAction action = true)
    (keeps : action.keepsDescriptors = true) (applied : device.apply action = some device') :
    ∀ owned ∈ device.driverOwned, owned ∈ device'.driverOwned := by
  unfold Device.apply at applied
  split at applied
  case h_4 fd index =>
      cases applied
      rintro ⟨other, position⟩ member
      simp [member]
  case h_1 | h_2 | h_3 => cases keeps
  case h_5 | h_7 => cases own
  all_goals
    cases applied
    exact fun _ member => member

end Device

/-- A request that leaves for the error exit has been refused, or has found a device that
does not capture. -/
theorem OpenPc.uneventful_of_refused {pc : OpenPc} {fd : Int} {request : Request} {ok : Bool}
    (moved : pc.next (.ioctl fd request ok) = some .closeFd) :
    (Action.ioctl fd request ok).uneventful = true := by
  cases ok with
  | false => cases request <;> rfl
  | true =>
      cases request with
      | reqBufs count =>
          cases pc <;> simp [OpenPc.next, OpenPc.mapLoop, OpenPc.queueLoop] at moved
          split_ifs at moved
      | streamOn => cases pc <;> simp [OpenPc.next] at moved
      | _ => rfl

/-! ## One call -/

/-- A call of `openCamera`: where it stands, the object and the device. -/
structure Opening where
  pc : OpenPc
  camera : Camera
  device : Device

/-- The answer of the native method to the descriptor `openCamera` returned. -/
def nativeOpenCamera (fd : Int) : Int :=
  if 0 < fd then 0 else -1

namespace Opening

def step (thread : ThreadId) (opening : Opening) (action : Action) : Option Opening := do
  let pc ← opening.pc.next action
  let camera ← opening.camera.apply thread action
  let device ← opening.device.apply action
  some ⟨pc, camera, device⟩

abbrev run (thread : ThreadId) : Opening → List Action → Option Opening :=
  LabelledRun.run (step thread)

theorem step_eq_some_iff {thread : ThreadId} {opening next : Opening} {action : Action} :
    opening.step thread action = some next ↔
      opening.pc.next action = some next.pc ∧
        opening.camera.apply thread action = some next.camera ∧
        opening.device.apply action = some next.device := by
  obtain ⟨pc, camera, device⟩ := next
  simp only [step, Option.bind_eq_bind, Option.bind_eq_some_iff, Option.some.injEq,
    Opening.mk.injEq]
  constructor
  · rintro ⟨_, moved, _, fields, _, kernel, rfl, rfl, rfl⟩
    exact ⟨moved, fields, kernel⟩
  · rintro ⟨moved, fields, kernel⟩
    exact ⟨_, moved, _, fields, _, kernel, rfl, rfl, rfl⟩

/-- A thread that opens the device makes the steps of such a call. -/
theorem step_of_world {world next : World} {thread : ThreadId} {action : Action} {pc : OpenPc}
    (opens : world.threads thread = .opening pc)
    (stepped : world.step (thread, action) = some next) :
    ∃ pc', step thread ⟨pc, world.camera, world.device⟩ action =
        some ⟨pc', next.camera, next.device⟩ ∧
      next.threads thread = Pc.afterOpen pc' := by
  have moved := World.moved_of_step stepped
  rw [opens] at moved
  obtain ⟨pc', inside, placed⟩ := Option.map_eq_some_iff.mp moved
  exact ⟨pc', step_eq_some_iff.mpr
    ⟨inside, World.camera_of_step stepped, World.device_of_step stepped⟩, placed.symm⟩

/-- `start()` goes on to create the capture thread just when the native method answers 0. -/
theorem afterOpen_returned_iff (fd : Int) :
    Pc.afterOpen (.returned fd) = .spawning ↔ nativeOpenCamera fd = 0 := by
  by_cases positive : 0 < fd <;> simp [Pc.afterOpen, nativeOpenCamera, positive]

/-- The object knows an open descriptor, and could close it. -/
def Reaches (opening : Opening) (fd : Int) : Prop :=
  0 ≤ fd ∧ fd ∈ opening.device.openFds ∧ opening.camera.mFD = fd

/-- What a call that has returned `fd` must have done: on failure nothing of it is left and
no open descriptor has been lost, on success everything is in place. -/
structure AllOrNothing (start final : Opening) (actions : List Action) (fd : Int) : Prop where
  nothing : nativeOpenCamera fd = -1 →
    (∀ left ∈ final.device.openFds, left ∈ start.device.openFds) ∧
      final.device.mappings = start.device.mappings ∧
      (∀ old, start.Reaches old → old ∈ final.device.openFds → final.Reaches old) ∧
      final.camera.mFD < 0
  everything : nativeOpenCamera fd = 0 →
    openedFds actions = [final.camera.mFD] ∧ final.camera.mFD ∈ final.device.openFds ∧
      streaming actions = [final.camera.mFD] ∧
      ∀ index < bufferNR,
        (final.camera.mBufferArray index).mapped = true ∧
          (final.camera.mFD, index) ∈ mappings actions ∧
          (final.camera.mFD, index) ∈ final.device.driverOwned

/-- When every step up to `VIDIOC_STREAMON` succeeds, the descriptor is positive and
`BUFFER_NR` buffers are granted; otherwise no buffer has been mapped, and `mFD` held no open
descriptor before. -/
def RollsBack (start : Opening) (actions : List Action) : Prop :=
  if streaming actions = [] then
    mappings actions = [] ∧ (start.camera.mFD < 0 ∨ start.camera.mFD ∉ start.device.openFds)
  else (∀ fd ∈ openedFds actions, 0 < fd) ∧ ∀ count ∈ grants actions, bufferNR ≤ count

instance (start : Opening) (actions : List Action) : Decidable (RollsBack start actions) := by
  unfold RollsBack
  infer_instance

/-! ## The points of a call -/

/-- The device is open and `mapped` buffers have been mapped, `queued` of them queued. -/
structure Live (start now : Opening) (actions : List Action) (fd : Int) (granted : List Nat)
    (mapped queued : Nat) (streams : List Int) : Prop where
  nonneg : 0 ≤ fd
  fresh : fd ∉ start.device.openFds
  wasOpened : openedFds actions = [fd]
  wasGranted : grants actions = granted
  wasMapped : mappings actions = (List.range mapped).map fun index => (fd, index)
  isStreaming : streaming actions = streams
  mFD : now.camera.mFD = fd
  openFds : now.device.openFds = fd :: start.device.openFds
  buffers : ∀ index < mapped, (now.camera.mBufferArray index).mapped = true
  queue : ∀ index < queued, (fd, index) ∈ now.device.driverOwned

/-- Streaming has not been switched on, and no descriptor is open that was not before. -/
structure Closed (start now : Opening) (actions : List Action) : Prop where
  notStreaming : streaming actions = []
  openFds : now.device.openFds = start.device.openFds

/-- What holds at each point of a call. -/
def Stage (start now : Opening) (actions : List Action) : OpenPc → Prop
  | .openDev => actions = [] ∧ now.camera = start.camera ∧ now.device = start.device
  | .testFd =>
      (now.camera.mFD < 0 ∧ Closed start now actions) ∨
        ∃ fd, Live start now actions fd [] 0 0 []
  | .queryCap | .setFmt | .setParm | .getParm | .reqBufs =>
      ∃ fd, Live start now actions fd [] 0 0 []
  | .queryBuf index count | .mapBuf index count _ =>
      index < count ∧ ∃ fd, Live start now actions fd [count] index 0 []
  | .queueBuf index =>
      index < bufferNR ∧ ∃ fd count, Live start now actions fd [count] count index []
  | .streamOn => ∃ fd count, Live start now actions fd [count] count bufferNR []
  | .logFd => ∃ fd count, Live start now actions fd [count] count bufferNR [fd]
  | .closeFd => ∃ fd granted mapped queued, Live start now actions fd granted mapped queued []
  | .clearFd => Closed start now actions
  | .returnFd =>
      (now.camera.mFD < 0 ∧ Closed start now actions) ∨
        ∃ fd count, Live start now actions fd [count] count bufferNR [fd]
  | .returned result =>
      result = now.camera.mFD ∧
        ((now.camera.mFD < 0 ∧ Closed start now actions) ∨
          ∃ fd count, Live start now actions fd [count] count bufferNR [fd])

section Steps

variable {start now next : Opening} {actions : List Action} {action : Action}
  {thread : ThreadId} {fd : Int} {granted : List Nat} {mapped queued : Nat}
  {streams : List Int}

theorem Live.of_answer (live : Live start now actions fd granted mapped queued streams)
    (own : OpenPc.ownAction action = true) (notOpened : action.openedFd = none)
    (keeps : action.keepsDescriptors = true) (notSet : action.setsBuffer = false)
    (stepped : now.step thread action = some next) :
    Live start next (actions ++ [action]) fd (granted ++ action.grant.toList) mapped queued
      (streams ++ action.streamed.toList) := by
  obtain ⟨-, fields, kernel⟩ := step_eq_some_iff.mp stepped
  have notMapped : action.mapping = none := by
    cases action <;> first | rfl | cases notSet
  exact
    { nonneg := live.nonneg
      fresh := live.fresh
      wasOpened := by simp [notOpened, live.wasOpened]
      wasGranted := by simp [live.wasGranted]
      wasMapped := by simp [notMapped, live.wasMapped]
      isStreaming := by simp [live.isStreaming]
      mFD := by
        rw [Camera.mFD_of_apply fields (Action.keepsFd_of_keepsDescriptors keeps), live.mFD]
      openFds := by rw [Device.openFds_of_apply keeps kernel, live.openFds]
      buffers := by
        rw [Camera.mBufferArray_of_apply fields notSet]
        exact live.buffers
      queue := fun index below =>
        Device.driverOwned_of_own own keeps kernel _ (live.queue index below) }

theorem Live.of_uneventful (live : Live start now actions fd granted mapped queued streams)
    (own : OpenPc.ownAction action = true) (uneventful : action.uneventful = true)
    (stepped : now.step thread action = some next) :
    Live start next (actions ++ [action]) fd granted mapped queued streams := by
  simp only [Action.uneventful, Bool.and_eq_true, Option.isNone_iff_eq_none,
    Bool.not_eq_true'] at uneventful
  obtain ⟨⟨⟨⟨notOpened, grant⟩, streamed⟩, keeps⟩, notSet⟩ := uneventful
  have answered := live.of_answer own notOpened keeps notSet stepped
  simpa [grant, streamed] using answered

/-- The descriptor an action uses is the one this call has opened. -/
theorem Live.descriptor (live : Live start now actions fd granted mapped queued streams)
    {used : Int} (uses : action.descriptor = some used)
    (stepped : now.step thread action = some next) : used = fd := by
  obtain ⟨-, fields, -⟩ := step_eq_some_iff.mp stepped
  rw [Camera.eq_mFD_of_apply fields uses, live.mFD]

theorem Closed.of_step (closed : Closed start now actions) (notStreamed : action.streamed = none)
    (same : next.device.openFds = now.device.openFds) :
    Closed start next (actions ++ [action]) :=
  ⟨by simp [notStreamed, closed.notStreaming], by rw [same, closed.openFds]⟩

/-- `open` returned an error, or a descriptor that was not open. -/
theorem stage_of_openDev {opened : Int} (entered : actions = [] ∧ now.camera = start.camera ∧
      now.device = start.device)
    (stepped : now.step thread (.openDev opened) = some next) :
    Stage start next (actions ++ [.openDev opened]) .testFd := by
  obtain ⟨rfl, -, sameDevice⟩ := entered
  obtain ⟨-, fields, kernel⟩ := step_eq_some_iff.mp stepped
  have mFD : next.camera.mFD = opened := by rw [← Option.some.inj fields]
  rw [sameDevice] at kernel
  simp only [Device.apply] at kernel
  split_ifs at kernel with negative known
  · left
    rw [mFD]
    exact ⟨negative, rfl, by rw [← Option.some.inj kernel]⟩
  · right
    exact ⟨opened,
      { nonneg := by omega
        fresh := known
        wasOpened := rfl
        wasGranted := rfl
        wasMapped := rfl
        isStreaming := rfl
        mFD := mFD
        openFds := by rw [← Option.some.inj kernel]
        buffers := fun _ below => absurd below (Nat.not_lt_zero _)
        queue := fun _ below => absurd below (Nat.not_lt_zero _) }⟩

theorem Live.of_mapBuf {other : Int} {length : Nat}
    (live : Live start now actions fd granted mapped queued [])
    (stepped : now.step thread (.mapBuf other mapped length true) = some next) :
    Live start next (actions ++ [.mapBuf other mapped length true]) fd granted (mapped + 1) queued
      [] := by
  have sameFd := live.descriptor rfl stepped
  obtain ⟨-, fields, kernel⟩ := step_eq_some_iff.mp stepped
  obtain ⟨here, elsewhere⟩ := Camera.of_mapBuf fields
  exact
    { nonneg := live.nonneg
      fresh := live.fresh
      wasOpened := by simp [live.wasOpened, Action.openedFd]
      wasGranted := by simp [live.wasGranted, Action.grant]
      wasMapped := by simp [live.wasMapped, Action.mapping, List.range_succ, sameFd]
      isStreaming := by simp [live.isStreaming, Action.streamed]
      mFD := by rw [Camera.mFD_of_apply fields rfl, live.mFD]
      openFds := by rw [Device.openFds_of_apply rfl kernel, live.openFds]
      buffers := by
        intro index below
        by_cases last : index = mapped
        · rw [last, here]
        · rw [elsewhere index last]
          exact live.buffers index (by omega)
      queue := fun index below =>
        Device.driverOwned_of_own rfl rfl kernel _ (live.queue index below) }

/-- `mmap` fails: the entry is written nevertheless. -/
theorem Live.of_mapFailed {other : Int} {length : Nat}
    (live : Live start now actions fd granted mapped queued [])
    (stepped : now.step thread (.mapBuf other mapped length false) = some next) :
    Live start next (actions ++ [.mapBuf other mapped length false]) fd granted mapped queued
      [] := by
  obtain ⟨-, fields, kernel⟩ := step_eq_some_iff.mp stepped
  obtain ⟨-, elsewhere⟩ := Camera.of_mapBuf fields
  exact
    { nonneg := live.nonneg
      fresh := live.fresh
      wasOpened := by simp [live.wasOpened, Action.openedFd]
      wasGranted := by simp [live.wasGranted, Action.grant]
      wasMapped := by simp [live.wasMapped, Action.mapping]
      isStreaming := by simp [live.isStreaming, Action.streamed]
      mFD := by rw [Camera.mFD_of_apply fields rfl, live.mFD]
      openFds := by rw [Device.openFds_of_apply rfl kernel, live.openFds]
      buffers := by
        intro index below
        rw [elsewhere index (by omega)]
        exact live.buffers index below
      queue := fun index below =>
        Device.driverOwned_of_own rfl rfl kernel _ (live.queue index below) }

theorem Live.of_queueBuf {other : Int}
    (live : Live start now actions fd granted mapped queued [])
    (stepped : now.step thread (.ioctl other (.queueBuf queued) true) = some next) :
    Live start next (actions ++ [.ioctl other (.queueBuf queued) true]) fd granted mapped
      (queued + 1) [] := by
  have sameFd := live.descriptor rfl stepped
  obtain ⟨-, -, kernel⟩ := step_eq_some_iff.mp stepped
  have placed : now.device.enqueue other queued = next.device := Option.some.inj kernel
  have answered := live.of_uneventful rfl rfl stepped
  refine { answered with queue := ?_ }
  intro index below
  rw [← placed, sameFd, Device.mem_enqueue]
  by_cases last : index = queued
  · exact Or.inl ⟨rfl, last⟩
  · exact Or.inr (live.queue index (by omega))

theorem Live.of_streamOn {other : Int}
    (live : Live start now actions fd granted mapped queued [])
    (stepped : now.step thread (.ioctl other .streamOn true) = some next) :
    Live start next (actions ++ [.ioctl other .streamOn true]) fd granted mapped queued [fd] := by
  have sameFd := live.descriptor rfl stepped
  have answered := live.of_answer rfl rfl rfl rfl stepped
  simpa [Action.grant, Action.streamed, sameFd] using answered

/-- The error exit closes the descriptor this call has opened. -/
theorem Live.closed_of_closeFd {other : Int}
    (live : Live start now actions fd granted mapped queued [])
    (stepped : now.step thread (.closeFd other) = some next) :
    Closed start next (actions ++ [.closeFd other]) := by
  have sameFd := live.descriptor rfl stepped
  obtain ⟨-, -, kernel⟩ := step_eq_some_iff.mp stepped
  have placed : now.device.close other = next.device := Option.some.inj kernel
  refine ⟨by simp [live.isStreaming, Action.streamed], ?_⟩
  rw [← placed, sameFd, Device.close, live.openFds, List.filter_cons_of_neg (by simp)]
  rw [List.filter_eq_self]
  intro old member
  have distinct : old ≠ fd := by
    rintro rfl
    exact live.fresh member
  simpa using distinct

theorem stage_queueLoop {index count : Nat} (begun : index ≤ bufferNR)
    (live : Live start now actions fd [count] count index []) :
    Stage start now actions (OpenPc.queueLoop index) := by
  unfold OpenPc.queueLoop
  split_ifs with more
  · exact ⟨more, fd, count, live⟩
  · have all : index = bufferNR := by omega
    rw [all] at live
    exact ⟨fd, count, live⟩

theorem stage_mapLoop {index count : Nat} (begun : index ≤ count)
    (live : Live start now actions fd [count] index 0 []) :
    Stage start now actions (OpenPc.mapLoop index count) := by
  unfold OpenPc.mapLoop
  split_ifs with more
  · exact ⟨more, fd, live⟩
  · have all : index = count := by omega
    rw [all] at live
    exact stage_queueLoop (Nat.zero_le _) live

/-- At a point that issues a request the device is open and not streaming. -/
theorem Stage.live_of_requests {pc : OpenPc} (stage : Stage start now actions pc)
    (requests : pc.requests = true) :
    ∃ fd granted mapped queued, Live start now actions fd granted mapped queued [] := by
  cases pc with
  | queryCap | setFmt | setParm | getParm | reqBufs =>
      obtain ⟨fd, live⟩ := stage
      exact ⟨fd, _, _, _, live⟩
  | queryBuf index count =>
      obtain ⟨-, fd, live⟩ := stage
      exact ⟨fd, _, _, _, live⟩
  | queueBuf index =>
      obtain ⟨-, fd, count, live⟩ := stage
      exact ⟨fd, _, _, _, live⟩
  | streamOn =>
      obtain ⟨fd, count, live⟩ := stage
      exact ⟨fd, _, _, _, live⟩
  | _ => cases requests

theorem Stage.step (stage : Stage start now actions now.pc)
    (stepped : now.step thread action = some next) :
    Stage start next (actions ++ [action]) next.pc := by
  obtain ⟨moved, fields, kernel⟩ := step_eq_some_iff.mp stepped
  have move := OpenPc.move_of_next moved
  generalize now.pc = pc at move stage moved
  generalize next.pc = pc' at move moved
  cases move with
  | openDev => exact stage_of_openDev stage stepped
  | openFailed negative =>
      have observed := Camera.eq_mFD_of_readFd fields
      rcases stage with ⟨failed, closed⟩ | ⟨fd, live⟩
      · left
        rw [Camera.mFD_of_apply fields rfl]
        exact ⟨failed, closed.of_step rfl (Device.openFds_of_apply rfl kernel)⟩
      · have nonneg := live.nonneg
        rw [← live.mFD, ← observed] at nonneg
        omega
  | opened nonneg =>
      have observed := Camera.eq_mFD_of_readFd fields
      rcases stage with ⟨failed, closed⟩ | ⟨fd, live⟩
      · omega
      · exact ⟨fd, live.of_uneventful rfl rfl stepped⟩
  | queryCap | setFmt | setParm | getParm =>
      obtain ⟨fd, live⟩ := stage
      exact ⟨fd, live.of_uneventful rfl rfl stepped⟩
  | reqBufs =>
      obtain ⟨fd, live⟩ := stage
      exact stage_mapLoop (Nat.zero_le _) (live.of_answer rfl rfl rfl rfl stepped)
  | queryBuf =>
      obtain ⟨more, fd, live⟩ := stage
      exact ⟨more, fd, live.of_uneventful rfl rfl stepped⟩
  | mapBuf =>
      obtain ⟨more, fd, live⟩ := stage
      exact stage_mapLoop more (live.of_mapBuf stepped)
  | queueBuf =>
      obtain ⟨more, fd, count, live⟩ := stage
      exact stage_queueLoop more (live.of_queueBuf stepped)
  | streamOn =>
      obtain ⟨fd, count, live⟩ := stage
      exact ⟨fd, count, live.of_streamOn stepped⟩
  | logFd =>
      obtain ⟨fd, count, live⟩ := stage
      exact Or.inr ⟨fd, count, live.of_uneventful rfl rfl stepped⟩
  | requestFailed requests =>
      obtain ⟨fd, granted, mapped, queued, live⟩ := stage.live_of_requests requests
      exact ⟨fd, _, _, _,
        live.of_uneventful rfl (OpenPc.uneventful_of_refused moved) stepped⟩
  | mapFailed =>
      obtain ⟨more, fd, live⟩ := stage
      exact ⟨fd, _, _, _, live.of_mapFailed stepped⟩
  | closeFd =>
      obtain ⟨fd, granted, mapped, queued, live⟩ := stage
      exact live.closed_of_closeFd stepped
  | clearFd =>
      left
      have cleared : next.camera.mFD = -1 := by rw [← Option.some.inj fields]
      have sameDevice : now.device = next.device := Option.some.inj kernel
      exact ⟨by omega, stage.of_step rfl (by rw [sameDevice])⟩
  | returnFd =>
      have observed := Camera.eq_mFD_of_readFd fields
      have kept := Camera.mFD_of_apply fields rfl
      refine ⟨by omega, ?_⟩
      rw [kept]
      rcases stage with ⟨failed, closed⟩ | ⟨fd, count, live⟩
      · exact Or.inl ⟨failed, closed.of_step rfl (Device.openFds_of_apply rfl kernel)⟩
      · exact Or.inr ⟨fd, count, live.of_uneventful rfl rfl stepped⟩

end Steps

/-! ## The calls that roll back -/

section Calls

variable {start final : Opening} {actions : List Action} {thread : ThreadId} {fd : Int}

theorem stage_of_run (entered : start.pc = .openDev) (ran : run thread start actions = some final) :
    Stage start final actions final.pc := by
  have initial : Stage start start [] start.pc := by
    rw [entered]
    exact ⟨rfl, rfl, rfl⟩
  have preserved : ∀ before now action next, Stage start now before now.pc → True →
      step thread now action = some next → Stage start next (before ++ [action]) next.pc :=
    fun before now action next stage _ stepped => stage.step stepped
  have staged := LabelledRun.history_of_run preserved initial
    (LabelledRun.everyStep_of_forall_mem fun _ _ => trivial) ran
  exact staged

theorem mappings_of_run (ran : run thread start actions = some final) :
    final.device.mappings = (mappings actions).reverse ++ start.device.mappings := by
  induction actions generalizing start with
  | nil =>
      cases Option.some.inj ran
      rfl
  | cons action actions ih =>
      obtain ⟨next, stepped, rest⟩ := LabelledRun.run_cons_iff.mp ran
      obtain ⟨-, -, kernel⟩ := step_eq_some_iff.mp stepped
      rw [ih rest, Device.mappings_eq_of_apply kernel]
      cases fresh : action.mapping <;> simp [mappings, fresh]

/-- A call that failed is undone exactly when it has mapped nothing and `mFD` held no open
descriptor. -/
theorem allOrNothing_iff_of_closed (ran : run thread start actions = some final)
    (failed : final.camera.mFD < 0) (closed : Closed start final actions)
    (returned : fd = final.camera.mFD) :
    AllOrNothing start final actions fd ↔ RollsBack start actions := by
  have answer : nativeOpenCamera fd = -1 := by
    rw [nativeOpenCamera, if_neg (by omega)]
  have kept := mappings_of_run ran
  rw [RollsBack, if_pos closed.notStreaming]
  constructor
  · intro holds
    obtain ⟨-, unmapped, reached, -⟩ := holds.nothing answer
    constructor
    · rw [kept] at unmapped
      simpa using unmapped
    · by_contra held
      push Not at held
      have still := reached start.camera.mFD ⟨by omega, held.2, rfl⟩
        (by rw [closed.openFds]; exact held.2)
      have same := still.2.2
      omega
  · rintro ⟨unmapped, notHeld⟩
    refine ⟨fun _ => ⟨?_, ?_, ?_, failed⟩, ?_⟩
    · rw [closed.openFds]
      exact fun _ member => member
    · rw [kept, unmapped]
      rfl
    · rintro old ⟨nonneg, known, rfl⟩ -
      rcases notHeld with negative | unknown
      · omega
      · exact absurd known unknown
    · intro success
      rw [answer] at success
      cases success

/-- A call in which everything succeeded is complete exactly when its descriptor is positive
and as many buffers are granted as it queues. -/
theorem allOrNothing_iff_of_live {opened : Int} {count : Nat}
    (live : Live start final actions opened [count] count bufferNR [opened])
    (returned : fd = final.camera.mFD) :
    AllOrNothing start final actions fd ↔ RollsBack start actions := by
  have same : fd = opened := by rw [returned, live.mFD]
  have nonneg := live.nonneg
  rw [RollsBack, live.isStreaming, if_neg (by simp), live.wasOpened, live.wasGranted]
  simp only [List.mem_singleton, forall_eq]
  constructor
  · intro holds
    have positive : 0 < opened := by
      by_contra zero
      have negative := (holds.nothing (by rw [nativeOpenCamera, if_neg (by omega)])).2.2.2
      rw [live.mFD] at negative
      omega
    refine ⟨positive, ?_⟩
    obtain ⟨-, -, -, all⟩ := holds.everything (by rw [nativeOpenCamera, if_pos (by omega)])
    have last := (all 3 (by decide)).2.1
    rw [live.wasMapped] at last
    have below : 3 < count := by simpa [live.mFD] using last
    exact below
  · rintro ⟨positive, enough⟩
    refine ⟨?_, fun _ => ⟨?_, ?_, ?_, ?_⟩⟩
    · intro failure
      rw [nativeOpenCamera, if_pos (by omega)] at failure
      cases failure
    · rw [live.mFD, live.wasOpened]
    · rw [live.mFD, live.openFds]
      simp
    · rw [live.mFD, live.isStreaming]
    · intro index below
      rw [live.mFD]
      refine ⟨live.buffers index (by omega), ?_, live.queue index below⟩
      rw [live.wasMapped]
      simpa using (by omega : index < count)

/-- A call of `openCamera` that has returned is all or nothing exactly when it succeeded with a
positive descriptor and enough buffers, or failed before it mapped any, with no open
descriptor in `mFD`. -/
theorem allOrNothing_iff (entered : start.pc = .openDev)
    (ran : run thread start actions = some final) (returned : final.pc = .returned fd) :
    AllOrNothing start final actions fd ↔ RollsBack start actions := by
  have stage := stage_of_run entered ran
  rw [returned] at stage
  obtain ⟨result, ⟨failed, closed⟩ | ⟨opened, count, live⟩⟩ := stage
  · exact allOrNothing_iff_of_closed ran failed closed result
  · exact allOrNothing_iff_of_live live result

/-- A call whose second `mmap` fails. -/
def secondMapFails : List Action :=
  [.openDev 5, .readFd 5, .ioctl 5 (.queryCap true) true,
    .ioctl 5 (.setFmt (yuyvFormat 640 480)) true, .ioctl 5 .setParm true, .ioctl 5 .getParm true,
    .ioctl 5 (.reqBufs bufferNR) true, .ioctl 5 (.queryBuf 0 614400) true,
    .mapBuf 5 0 614400 true, .ioctl 5 (.queryBuf 1 614400) true, .mapBuf 5 1 614400 false,
    .closeFd 5, .clearFd, .readFd (-1)]

end Calls

/-- The call that succeeds with four buffers. -/
theorem allOrNothing_openActions :
    ∃ final, run 0 ⟨.openDev, Camera.create 640 480, Device.empty⟩
        (openActions 5 (yuyvFormat 640 480) 614400) = some final ∧
      AllOrNothing ⟨.openDev, Camera.create 640 480, Device.empty⟩ final
        (openActions 5 (yuyvFormat 640 480) 614400) 5 := by
  obtain ⟨final, ran, returned⟩ := (by decide :
    ∃ final ∈ run 0 ⟨.openDev, Camera.create 640 480, Device.empty⟩
      (openActions 5 (yuyvFormat 640 480) 614400), final.pc = .returned 5)
  exact ⟨final, ran, (allOrNothing_iff rfl ran returned).mpr (by decide)⟩

/-- The first buffer stays mapped although the call has failed. -/
theorem not_allOrNothing :
    ¬ ∀ (start final : Opening) (thread : ThreadId) (actions : List Action) (fd : Int),
      start.pc = .openDev → run thread start actions = some final → final.pc = .returned fd →
      AllOrNothing start final actions fd := by
  intro always
  obtain ⟨final, ran, returned, left⟩ := (by decide :
    ∃ final ∈ run 0 ⟨.openDev, Camera.create 640 480, Device.empty⟩ secondMapFails,
      final.pc = .returned (-1) ∧ final.device.mappings = [(5, 0)])
  obtain ⟨-, unmapped, -⟩ := (always _ final 0 _ (-1) rfl ran returned).nothing rfl
  rw [left] at unmapped
  cases unmapped

end Opening

end UsbCamera
