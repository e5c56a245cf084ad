import UsbCamera.DeviceAccounting
import UsbCamera.DrawsDefined
import UsbCamera.FrameDelivery

/-!
# A `start()` that succeeds begins a session

What `startCapture` relies on is prepared by `openCamera`: it queues the four buffers of a
descriptor on which nothing was queued before, after mapping each of them to its entry of
`mBufferArray`.  The mapping loop runs to the driver's grant and the queueing loop to
`BUFFER_NR`, so the two agree when the grant is not smaller.
-/

namespace UsbCamera

/-- A successful `VIDIOC_REQBUFS` grants at least as many buffers as there are entries. -/
def Action.grantsAll : Action → Bool
  | .ioctl _ (.reqBufs count) true => bufferNR ≤ count
  | _ => true

namespace Pipeline

/-- Of the open device exactly the first `bound` buffers are queued. -/
def Queued (pipeline : Pipeline) (bound : Nat) : Prop :=
  ∀ index, (pipeline.world.camera.mFD, index) ∈ pipeline.world.device.driverOwned ↔
    index < bound

/-- The first `bound` entries of `mBufferArray` point to the buffers of the open device. -/
def MappedTo (pipeline : Pipeline) (bound : Nat) : Prop :=
  ∀ index < bound, pipeline.memory.start index = (pipeline.world.camera.mFD, index)

/-- Buffers are queued on open descriptors only. -/
def QueuesOpen (pipeline : Pipeline) : Prop :=
  ∀ fd index, (fd, index) ∈ pipeline.world.device.driverOwned →
    fd ∈ pipeline.world.device.openFds

end Pipeline

/-- What `openCamera` has prepared at each of its points. -/
def OpenPc.Prepared (pipeline : Pipeline) : OpenPc → Prop
  | .openDev => pipeline.QueuesOpen
  | .testFd => 0 ≤ pipeline.world.camera.mFD → pipeline.Queued 0
  | .queryCap | .setFmt | .setParm | .getParm | .reqBufs => pipeline.Queued 0
  | .queryBuf index count | .mapBuf index count _ =>
      pipeline.Queued 0 ∧ bufferNR ≤ count ∧ pipeline.MappedTo index
  | .queueBuf index =>
      pipeline.Queued index ∧ index < bufferNR ∧ pipeline.MappedTo bufferNR
  | .streamOn | .logFd => pipeline.Queued bufferNR ∧ pipeline.MappedTo bufferNR
  | .returnFd =>
      0 ≤ pipeline.world.camera.mFD → pipeline.Queued bufferNR ∧ pipeline.MappedTo bufferNR
  | .returned fd => 0 < fd → pipeline.Queued bufferNR ∧ pipeline.MappedTo bufferNR
  | .closeFd | .clearFd => True

def Pc.Prepared (pipeline : Pipeline) : Pc → Prop
  | .startGet => pipeline.QueuesOpen
  | .opening pc => pc.Prepared pipeline
  | .spawning => pipeline.Queued bufferNR ∧ pipeline.MappedTo bufferNR
  | _ => True

theorem Pc.prepared_afterOpen {pipeline : Pipeline} {pc : OpenPc}
    (prepared : pc.Prepared pipeline) : (afterOpen pc).Prepared pipeline := by
  cases pc with
  | returned fd =>
      by_cases positive : 0 < fd
      · rw [afterOpen, if_pos positive]
        exact prepared positive
      · simp [afterOpen, positive, Pc.Prepared]
  | _ => exact prepared

theorem Pc.starting_afterOpen (pc : OpenPc) :
    (afterOpen pc).starting = true ∨ (afterOpen pc).bystander = true := by
  cases pc with
  | returned fd =>
      by_cases positive : 0 < fd
      · exact Or.inl (by simp [afterOpen, positive, starting])
      · exact Or.inr (by simp [afterOpen, positive, bystander])
  | _ => exact Or.inl rfl

namespace Pipeline

section Steps

variable {signedChar : Bool} {pipeline next : Pipeline} {thread : ThreadId} {action : Action}
  {handed : Handed}

theorem Queued.of_same {bound : Nat} (queued : Queued pipeline bound)
    (descriptor : next.world.camera.mFD = pipeline.world.camera.mFD)
    (queue : next.world.device.driverOwned = pipeline.world.device.driverOwned) :
    Queued next bound := by
  intro index
  rw [descriptor, queue]
  exact queued index

theorem MappedTo.of_same {bound : Nat} (mapped : MappedTo pipeline bound)
    (descriptor : next.world.camera.mFD = pipeline.world.camera.mFD)
    (start : next.memory.start = pipeline.memory.start) : MappedTo next bound := by
  intro index inRange
  rw [start, descriptor]
  exact mapped index inRange

/-- `open` answers a descriptor on which nothing is queued. -/
theorem QueuesOpen.queued_of_open {fd : Int} (queuesOpen : QueuesOpen pipeline)
    (stepped : pipeline.world.step (thread, .openDev fd) = some next.world)
    (isOpen : 0 ≤ next.world.camera.mFD) : Queued next 0 := by
  have recorded : next.world.camera.mFD = fd := by
    rw [← Option.some.inj (World.camera_of_step stepped)]
  have kernel := World.device_of_step stepped
  simp only [Device.apply, if_neg (Int.not_lt.mpr (recorded ▸ isOpen))] at kernel
  split at kernel
  · cases kernel
  · rename_i fresh
    intro index
    rw [recorded, ← Option.some.inj kernel]
    simp only [Nat.not_lt_zero, iff_false]
    intro queued
    exact fresh (queuesOpen fd index queued)

/-- `VIDIOC_QBUF` in the queueing loop. -/
theorem Queued.of_queueBuf {fd : Int} {index : Nat} (queued : Queued pipeline index)
    (stepped : pipeline.world.step (thread, .ioctl fd (.queueBuf index) true) =
      some next.world) : Queued next (index + 1) := by
  have fields := World.camera_of_step stepped
  have same : fd = pipeline.world.camera.mFD := Camera.eq_mFD_of_apply fields rfl
  have descriptor := Camera.mFD_of_apply fields rfl
  have kernel : next.world.device = pipeline.world.device.enqueue fd index :=
    (Option.some.inj (World.device_of_step stepped)).symm
  intro other
  rw [descriptor, kernel, Device.mem_enqueue, queued other, same]
  simp only [true_and]
  omega

/-- `mmap` in the mapping loop. -/
theorem MappedTo.of_mapBuf {fd : Int} {index length : Nat} (mapped : MappedTo pipeline index)
    (applied : pipeline.memory.apply signedChar pipeline.world.camera thread handed
      (.mapBuf fd index length true) = some next.memory)
    (stepped : pipeline.world.step (thread, .mapBuf fd index length true) = some next.world) :
    MappedTo next (index + 1) := by
  have fields := World.camera_of_step stepped
  have same : fd = pipeline.world.camera.mFD := Camera.eq_mFD_of_apply fields rfl
  have descriptor := Camera.mFD_of_apply fields rfl
  intro other below
  rw [← Option.some.inj applied, descriptor, ← same]
  by_cases last : other = index
  · subst last
    exact Function.update_self ..
  · simp only [Function.update_of_ne last]
    rw [same]
    exact mapped other (by omega)

theorem prepared_queueLoop {index : Nat} (queued : Queued pipeline index)
    (inRange : index ≤ bufferNR) (mapped : MappedTo pipeline bufferNR) :
    (OpenPc.queueLoop index).Prepared pipeline := by
  unfold OpenPc.queueLoop
  split
  · exact ⟨queued, by assumption, mapped⟩
  · have all : index = bufferNR := by omega
    exact ⟨all ▸ queued, mapped⟩

theorem prepared_mapLoop {index count : Nat} (queued : Queued pipeline 0)
    (enough : bufferNR ≤ count) (mapped : MappedTo pipeline index) :
    (OpenPc.mapLoop index count).Prepared pipeline := by
  unfold OpenPc.mapLoop
  split
  · exact ⟨queued, enough, mapped⟩
  · exact prepared_queueLoop queued (Nat.zero_le _) fun other below =>
      mapped other (by omega)

/-- A step of `openCamera`. -/
theorem prepared_of_move {pc pc' : OpenPc} (move : OpenPc.Move pc action pc')
    (grants : action.grantsAll = true) (prepared : pc.Prepared pipeline)
    (applied : pipeline.memory.apply signedChar pipeline.world.camera thread handed action =
      some next.memory)
    (stepped : pipeline.world.step (thread, action) = some next.world) :
    pc'.Prepared next := by
  have fields := World.camera_of_step stepped
  have kernel := World.device_of_step stepped
  have queued : action.keepsFd = true → some pipeline.world.device = some next.world.device →
      ∀ {bound}, Queued pipeline bound → Queued next bound := by
    intro keeps unchanged bound queued
    exact queued.of_same (Camera.mFD_of_apply fields keeps) (by rw [Option.some.inj unchanged])
  have mapped : action.keepsFd = true → some pipeline.memory = some next.memory →
      ∀ {bound}, MappedTo pipeline bound → MappedTo next bound := by
    intro keeps unchanged bound mapped
    exact mapped.of_same (Camera.mFD_of_apply fields keeps) (by rw [Option.some.inj unchanged])
  cases move with
  | openDev => exact prepared.queued_of_open stepped
  | @openFailed fd negative =>
      have observed := Camera.eq_mFD_of_readFd fields
      have kept := Camera.mFD_of_apply fields rfl
      intro nonneg
      omega
  | @opened fd nonneg =>
      have observed := Camera.eq_mFD_of_readFd fields
      exact queued rfl kernel (prepared (observed ▸ nonneg))
  | queryCap | setFmt | setParm | getParm => exact queued rfl kernel prepared
  | @reqBufs fd count =>
      have enough : bufferNR ≤ count := by simpa [Action.grantsAll] using grants
      exact prepared_mapLoop (queued rfl kernel prepared) enough
        fun index below => absurd below (Nat.not_lt_zero _)
  | queryBuf =>
      obtain ⟨empty, enough, covered⟩ := prepared
      exact ⟨queued rfl kernel empty, enough, mapped rfl applied covered⟩
  | mapBuf =>
      obtain ⟨empty, enough, covered⟩ := prepared
      have kept : next.world.device.driverOwned = pipeline.world.device.driverOwned := by
        rw [← Option.some.inj kernel]
      exact prepared_mapLoop (empty.of_same (Camera.mFD_of_apply fields rfl) kept) enough
        (covered.of_mapBuf applied stepped)
  | queueBuf =>
      obtain ⟨before, inRange, covered⟩ := prepared
      exact prepared_queueLoop (before.of_queueBuf stepped) inRange (mapped rfl applied covered)
  | streamOn => exact ⟨queued rfl kernel prepared.1, mapped rfl applied prepared.2⟩
  | logFd => exact fun _ => ⟨queued rfl kernel prepared.1, mapped rfl applied prepared.2⟩
  | requestFailed | mapFailed | closeFd => trivial
  | clearFd =>
      have cleared : next.world.camera.mFD = -1 := by rw [← Option.some.inj fields]
      intro nonneg
      omega
  | @returnFd fd =>
      have observed := Camera.eq_mFD_of_readFd fields
      intro positive
      obtain ⟨all, covered⟩ := prepared (by omega)
      exact ⟨queued rfl kernel all, mapped rfl applied covered⟩

/-- The device, the descriptor and the mapped buffers stay as they are. -/
theorem prepared_of_same {pc : Pc} (prepared : pc.Prepared pipeline)
    (descriptor : next.world.camera.mFD = pipeline.world.camera.mFD)
    (queue : next.world.device.driverOwned = pipeline.world.device.driverOwned)
    (openFds : next.world.device.openFds = pipeline.world.device.openFds)
    (start : next.memory.start = pipeline.memory.start) : pc.Prepared next := by
  cases pc with
  | startGet =>
      intro fd index
      rw [queue, openFds]
      exact prepared fd index
  | opening inner =>
      cases inner with
      | openDev =>
          intro fd index
          rw [queue, openFds]
          exact prepared fd index
      | testFd =>
          intro isOpen
          exact (prepared (descriptor ▸ isOpen)).of_same descriptor queue
      | queryCap | setFmt | setParm | getParm | reqBufs => exact prepared.of_same descriptor queue
      | queryBuf | mapBuf =>
          exact ⟨prepared.1.of_same descriptor queue, prepared.2.1,
            prepared.2.2.of_same descriptor start⟩
      | queueBuf =>
          exact ⟨prepared.1.of_same descriptor queue, prepared.2.1,
            prepared.2.2.of_same descriptor start⟩
      | streamOn | logFd =>
          exact ⟨prepared.1.of_same descriptor queue, prepared.2.of_same descriptor start⟩
      | returnFd =>
          intro isOpen
          obtain ⟨all, covered⟩ := prepared (descriptor ▸ isOpen)
          exact ⟨all.of_same descriptor queue, covered.of_same descriptor start⟩
      | returned fd =>
          intro positive
          obtain ⟨all, covered⟩ := prepared positive
          exact ⟨all.of_same descriptor queue, covered.of_same descriptor start⟩
      | closeFd | clearFd => trivial
  | spawning =>
      exact ⟨prepared.1.of_same descriptor queue, prepared.2.of_same descriptor start⟩
  | _ => trivial

end Steps

/-! ## From the call of `openCamera` to the creation of the capture thread -/

/-- While `opener` is in `start()`: what is prepared, and that nothing has been drawn. -/
structure Opening (opener : ThreadId) (pipeline : Pipeline) : Prop where
  own : (pipeline.world.threads opener).starting = true ∨
    (pipeline.world.threads opener).bystander = true
  others : ∀ other, other ≠ opener → (pipeline.world.threads other).bystander = true
  prepared : (pipeline.world.threads opener).Prepared pipeline
  fits : ∀ scratch, pipeline.world.camera.allocated scratch = true →
    scratch.Fits pipeline.world.camera.mWidth pipeline.world.camera.mHeight
  frames : pipeline.memory.frames = []
  previews : pipeline.memory.previews = []
  posts : pipeline.memory.posts = []

/-- Nobody calls `start()` or `release()`, no thread is created, and the driver grants enough
buffers. -/
def OpeningEvent (event : PipelineEvent) : Prop :=
  ∀ moved ∈ event.event,
    World.SessionCall moved ∧ moved.2.spawned = none ∧ moved.2.grantsAll = true

instance (event : PipelineEvent) : Decidable (OpeningEvent event) :=
  inferInstanceAs (Decidable (∀ moved ∈ event.event, _))

section Runs

variable {signedChar : Bool} {pipeline next start : Pipeline} {opener child mover : ThreadId}
  {action : Action} {handed : Handed} {events : List PipelineEvent}

/-- Nothing that is logged happens in `start()`. -/
theorem logs_of_open (own : OpenPc.ownAction action = true)
    (applied : pipeline.memory.apply signedChar pipeline.world.camera mover handed action =
      some next.memory) :
    next.memory.frames = pipeline.memory.frames ∧
      next.memory.previews = pipeline.memory.previews ∧
        next.memory.posts = pipeline.memory.posts := by
  unfold Memory.apply at applied
  split at applied
  case h_1 | h_14 =>
      rw [← Option.some.inj applied]
      exact ⟨rfl, rfl, rfl⟩
  all_goals cases own

namespace Opening

theorem fill {fd : Int} {index : Nat} {frame : Frame} (opening : Opening opener pipeline) :
    Opening opener { pipeline with memory := pipeline.memory.fill fd index frame } :=
  ⟨opening.own, opening.others, prepared_of_same opening.prepared rfl rfl rfl rfl, opening.fits,
    opening.frames, opening.previews, opening.posts⟩

theorem fits_of_step (opening : Opening opener pipeline)
    (applied : pipeline.memory.apply signedChar pipeline.world.camera mover handed action =
      some next.memory)
    (stepped : pipeline.world.step (mover, action) = some next.world) (scratch : Scratch)
    (allocated : next.world.camera.allocated scratch = true) :
    scratch.Fits next.world.camera.mWidth next.world.camera.mHeight := by
  obtain ⟨width, height⟩ := Camera.size_of_apply (World.camera_of_step stepped)
  rw [width, height]
  exact Memory.fits_of_apply (opening.fits scratch) applied (World.camera_of_step stepped)
    allocated

theorem of_bystander (opening : Opening opener pipeline)
    (call : World.SessionCall (mover, action))
    (stands : (pipeline.world.threads mover).bystander = true)
    (applied : pipeline.memory.apply signedChar pipeline.world.camera mover handed action =
      some next.memory)
    (stepped : pipeline.world.step (mover, action) = some next.world) : Opening opener next := by
  obtain ⟨still, stood, unmoved⟩ := World.bystander_of_step stands call stepped
  have memory := Memory.eq_of_bystander stood applied
  have kernel := World.device_of_step stepped
  have descriptor := (fields_of_step (Action.keepsBuffers_of_bystander stood) stepped).1
  have queue := Device.driverOwned_of_apply (Action.keepsBuffers_of_bystander stood) kernel
  have openFds := Device.openFds_of_apply (Action.keepsDescriptors_of_bystander stood) kernel
  refine ⟨?_, ?_, ?_, opening.fits_of_step applied stepped, by rw [memory, opening.frames],
    by rw [memory, opening.previews], by rw [memory, opening.posts]⟩
  · by_cases own : opener = mover
    · exact Or.inr (own ▸ still)
    · rw [unmoved opener own]
      exact opening.own
  · intro other distinct
    by_cases moves : other = mover
    · exact moves ▸ still
    · rw [unmoved other moves]
      exact opening.others other distinct
  · by_cases own : opener = mover
    · rw [own]
      generalize next.world.threads mover = pc at still
      cases pc <;> trivial
    · rw [unmoved opener own]
      exact prepared_of_same opening.prepared descriptor queue openFds (by rw [memory])

/-- A step of `start()` before the capture thread is created. -/
theorem of_starting (opening : Opening opener pipeline)
    (starts : (pipeline.world.threads opener).starting = true)
    (noChild : action.spawned = none) (grants : action.grantsAll = true)
    (applied : pipeline.memory.apply signedChar pipeline.world.camera opener handed action =
      some next.memory)
    (stepped : pipeline.world.step (opener, action) = some next.world) : Opening opener next := by
  have others : ∀ other, other ≠ opener → (next.world.threads other).bystander = true := by
    intro other distinct
    rcases World.other_of_step stepped distinct with same | ⟨rfl, -, -⟩
    · rw [same]
      exact opening.others other distinct
    · cases noChild
  have move := World.move_of_step stepped
  have prepared := opening.prepared
  generalize pipeline.world.threads opener = pc at move starts prepared
  have placed : (((next.world.threads opener).starting = true ∨
      (next.world.threads opener).bystander = true) ∧
        (next.world.threads opener).Prepared next) ∧
      next.memory.frames = pipeline.memory.frames ∧
        next.memory.previews = pipeline.memory.previews ∧
          next.memory.posts = pipeline.memory.posts := by
    generalize next.world.threads opener = after at move
    cases move with
    | startAttached =>
        have memory := (Option.some.inj applied).symm
        have kernel := Option.some.inj (World.device_of_step stepped)
        refine ⟨⟨Or.inl rfl, fun fd index => ?_⟩, by rw [memory], by rw [memory], by rw [memory]⟩
        rw [← kernel]
        exact prepared fd index
    | startDetached =>
        have memory := (Option.some.inj applied).symm
        exact ⟨⟨Or.inr rfl, trivial⟩, by rw [memory], by rw [memory], by rw [memory]⟩
    | opening inner =>
        exact ⟨⟨Pc.starting_afterOpen _,
          Pc.prepared_afterOpen (prepared_of_move inner grants prepared applied stepped)⟩,
          logs_of_open inner.own applied⟩
    | spawn => cases noChild
    | _ => cases starts
  obtain ⟨⟨own, prepared'⟩, frames, previews, posts⟩ := placed
  exact ⟨own, others, prepared', opening.fits_of_step applied stepped, frames.trans opening.frames,
    previews.trans opening.previews, posts.trans opening.posts⟩

theorem step {event : PipelineEvent} (opening : Opening opener pipeline)
    (calls : OpeningEvent event) (stepped : pipeline.step signedChar event = some next) :
    Opening opener next := by
  cases event with
  | fill fd index frame =>
      obtain ⟨-, rfl⟩ := of_fill stepped
      exact opening.fill
  | act event handed =>
      obtain ⟨mover, action⟩ := event
      obtain ⟨applied, moved⟩ := of_act stepped
      obtain ⟨session, noChild, grants⟩ := calls (mover, action) rfl
      by_cases own : mover = opener
      · subst own
        rcases opening.own with starts | stands
        · exact opening.of_starting starts noChild grants applied moved
        · exact opening.of_bystander session stands applied moved
      · exact opening.of_bystander session (opening.others mover own) applied moved

/-- The creation of the capture thread begins a session. -/
theorem begun (opening : Opening opener pipeline)
    (stepped : pipeline.step signedChar (.act (opener, .spawn child) handed) = some next) :
    Begun child next := by
  obtain ⟨applied, moved⟩ := of_act stepped
  have memory : next.memory = pipeline.memory := (Option.some.inj applied).symm
  have spawning : pipeline.world.threads opener = .spawning :=
    Pc.spawning_of_move (World.move_of_step moved)
  have prepared := opening.prepared
  rw [spawning] at prepared
  have descriptor := Camera.mFD_of_apply (World.camera_of_step moved) rfl
  have kernel := Option.some.inj (World.device_of_step moved)
  refine ⟨⟨World.spawned_of_step moved, ?_, ?_⟩, prepared.2.of_same descriptor (by rw [memory]),
    opening.fits_of_step applied moved, by rw [memory, opening.frames],
    by rw [memory, opening.previews], by rw [memory, opening.posts]⟩
  · intro other distinct
    by_cases own : other = opener
    · have move := World.move_of_step moved
      rw [spawning] at move
      rw [own]
      generalize next.world.threads opener = after at move
      cases move
      rfl
    · rcases World.other_of_step moved own with same | ⟨isChild, -, -⟩
      · rw [same]
        exact opening.others other own
      · exact absurd (Action.spawn.inj isChild).symm distinct
  · exact prepared.1.of_same descriptor (by rw [← kernel])

end Opening

end Runs

/-- `opener` has called `start()`, nobody else opens, captures or releases, and nothing has been
logged. -/
structure Starts (opener : ThreadId) (pipeline : Pipeline) : Prop where
  begins : pipeline.world.threads opener = .startGet
  others : ∀ other, other ≠ opener → (pipeline.world.threads other).bystander = true
  queuesOpen : QueuesOpen pipeline
  fits : ∀ scratch, pipeline.world.camera.allocated scratch = true →
    scratch.Fits pipeline.world.camera.mWidth pipeline.world.camera.mHeight
  frames : pipeline.memory.frames = []
  previews : pipeline.memory.previews = []
  posts : pipeline.memory.posts = []

theorem Starts.opening {opener : ThreadId} {pipeline : Pipeline} (starts : Starts opener pipeline) :
    Opening opener pipeline where
  own := Or.inl (by rw [starts.begins]; rfl)
  others := starts.others
  prepared := by
    rw [starts.begins]
    exact starts.queuesOpen
  fits := starts.fits
  frames := starts.frames
  previews := starts.previews
  posts := starts.posts

/-- A `start()` that creates the capture thread leaves what a session begins with: every buffer
queued and mapped.  Meanwhile other threads have stopped the camera and changed its surfaces,
and the driver has granted enough buffers. -/
theorem begun_of_start {signedChar : Bool} {start pipeline next : Pipeline}
    {opener child : ThreadId} {handed : Handed} {events : List PipelineEvent}
    (starts : Starts opener start) (ran : run signedChar start events = some pipeline)
    (calls : ∀ event ∈ events, OpeningEvent event)
    (stepped : pipeline.step signedChar (.act (opener, .spawn child) handed) = some next) :
    Begun child next := by
  have opening : Opening opener pipeline := by
    refine LabelledRun.invariant_of_run ?_ starts.opening
      (LabelledRun.everyStep_of_forall_mem calls) ran
    intro before event after opening call stepped
    exact opening.step call stepped
  exact opening.begun stepped

/-- The user thread calls `start()` on a fresh camera. -/
def called : Pipeline where
  world := { World.attached 640 480 with
    threads := fun thread => if thread = userThread then .startGet else .idle }
  memory := Memory.fresh (-1)

theorem starts_called : Starts userThread called where
  begins := rfl
  others other distinct := by
    simp [called, distinct, Pc.bystander]
  queuesOpen := by
    rintro fd index ⟨⟩
  fits := by
    rintro scratch allocated
    cases scratch <;> cases allocated
  frames := rfl
  previews := rfl
  posts := rfl

/-- `openCamera` as it succeeds with descriptor 5. -/
def openingEvents : List PipelineEvent :=
  (Action.getCamera true :: openActions 5 (yuyvFormat 640 480) (2 * 640 * 480)).map fun action =>
    .act (userThread, action) .cleared

theorem begun_called : ∃ pipeline next, run false called openingEvents = some pipeline ∧
    pipeline.step false (.act (userThread, .spawn 1) .cleared) = some next ∧ Begun 1 next := by
  obtain ⟨final, ran⟩ := Option.isSome_iff_exists.mp (by decide :
    (run false called
      (openingEvents ++ [.act (userThread, .spawn 1) .cleared])).isSome = true)
  obtain ⟨pipeline, opened, rest⟩ := LabelledRun.run_append_iff.mp ran
  obtain ⟨next, stepped, -⟩ := LabelledRun.run_cons_iff.mp rest
  exact ⟨pipeline, next, opened, stepped,
    begun_of_start starts_called opened (by decide) stepped⟩

end Pipeline

end UsbCamera
