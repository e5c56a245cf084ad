import UsbCamera.NegotiatedFormat

/-!
# Indices into `mBufferArray`

The array has `BUFFER_NR` entries, the mapping loop of `openCamera` runs to the number of
buffers the driver granted, the queueing loop to `BUFFER_NR`, and the capture loop uses the
index `VIDIOC_DQBUF` returns.  A driver that grants fewer buffers makes `openCamera` fail when
it queues one too many; one that grants more makes it write behind the array.
-/

namespace UsbCamera

/-- What a driver that has granted `count` buffers answers about their indices. -/
def GrantsOnly (count : Nat) : Action → Prop
  | .ioctl _ (.reqBufs granted) true => granted = count
  | .ioctl _ (.queryBuf index _) true | .ioctl _ (.queueBuf index) true
  | .requeueBuf _ index true | .dequeueBuf _ (.filled index) => index < count
  | _ => True

instance (count : Nat) (action : Action) : Decidable (GrantsOnly count action) :=
  decidable_of_iff
    ((match action with
      | .ioctl _ (.reqBufs granted) true => decide (granted = count)
      | .ioctl _ (.queryBuf index _) true | .ioctl _ (.queueBuf index) true
      | .requeueBuf _ index true | .dequeueBuf _ (.filled index) => decide (index < count)
      | _ => true) = true) <| by
    unfold GrantsOnly
    split <;> simp

/-- The first `bound` entries of `mBufferArray` are buffers that `thread` has mapped. -/
def MappedIn (thread : ThreadId) (events : List Event) (camera : Camera) (bound : Nat) : Prop :=
  ∀ index < bound, ∃ fd length,
    (thread, .mapBuf fd index length true) ∈ events ∧ camera.mBufferArray index = ⟨true, length⟩

/-- What `openCamera` has mapped at each of its points, and how far the grant reaches. -/
def OpenPc.Indexed (thread : ThreadId) (events : List Event) (camera : Camera) (count : Nat) :
    OpenPc → Prop
  | .queryBuf index granted => granted = count ∧ MappedIn thread events camera index
  | .mapBuf index granted _ =>
      granted = count ∧ index < count ∧ MappedIn thread events camera index
  | .queueBuf index => MappedIn thread events camera count ∧ index ≤ count
  | .streamOn | .logFd => MappedIn thread events camera count ∧ bufferNR ≤ count
  | .returnFd => 0 ≤ camera.mFD → MappedIn thread events camera count ∧ bufferNR ≤ count
  | _ => True

def Pc.Indexed (thread : ThreadId) (events : List Event) (camera : Camera) (count : Nat) :
    Pc → Prop
  | .opening pc => pc.Indexed thread events camera count
  | _ => True

theorem Pc.indexed_afterOpen {thread : ThreadId} {events : List Event} {camera : Camera}
    {count : Nat} {pc : OpenPc} (indexed : pc.Indexed thread events camera count) :
    (afterOpen pc).Indexed thread events camera count := by
  cases pc with
  | returned fd => by_cases positive : 0 < fd <;> simp [afterOpen, positive, Pc.Indexed]
  | _ => exact indexed

/-- `mmap` is called by `openCamera` alone, for the buffer it has just asked about. -/
theorem Pc.mapBuf_of_move {pc pc' : Pc} {fd : Int} {index length : Nat} {ok : Bool}
    (move : Move pc (.mapBuf fd index length ok) pc') :
    ∃ count, pc = .opening (.mapBuf index count length) := by
  cases move with
  | opening inner =>
      cases inner with
      | mapBuf | mapFailed => exact ⟨_, rfl⟩
  | capturing inner => rcases inner.own_or_draws with own | draws <;> contradiction
  | surface inner => cases SurfacePc.own_of_next inner

namespace World

/-! ## One `openCamera` -/

section Steps

variable {world next : World} {thread mover : ThreadId} {events : List Event} {action : Action}
  {count : Nat}

theorem MappedIn.of_step {bound : Nat} (mapped : MappedIn thread events world.camera bound)
    (notSet : action.setsBuffer = false) (stepped : world.step (mover, action) = some next) :
    MappedIn thread (events ++ [(mover, action)]) next.camera bound := by
  intro index below
  obtain ⟨fd, length, member, entry⟩ := mapped index below
  refine ⟨fd, length, List.mem_append_left _ member, ?_⟩
  rw [Camera.mBufferArray_of_apply (camera_of_step stepped) notSet, entry]

theorem MappedIn.of_mapBuf {fd : Int} {index length : Nat}
    (mapped : MappedIn thread events world.camera index)
    (stepped : world.step (thread, .mapBuf fd index length true) = some next) :
    MappedIn thread (events ++ [(thread, .mapBuf fd index length true)]) next.camera
      (index + 1) := by
  obtain ⟨here, elsewhere⟩ := Camera.of_mapBuf (camera_of_step stepped)
  intro other below
  by_cases last : other = index
  · subst last
    exact ⟨fd, length, by simp, here⟩
  · obtain ⟨otherFd, otherLength, member, entry⟩ := mapped other (by omega)
    exact ⟨otherFd, otherLength, List.mem_append_left _ member, by rw [elsewhere other last, entry]⟩

theorem indexed_queueLoop {camera : Camera} {index : Nat}
    (mapped : MappedIn thread events camera count) (queued : index ≤ count) :
    (OpenPc.queueLoop index).Indexed thread events camera count := by
  unfold OpenPc.queueLoop
  split
  · exact ⟨mapped, queued⟩
  · exact ⟨mapped, by omega⟩

theorem indexed_mapLoop {camera : Camera} {index : Nat}
    (mapped : MappedIn thread events camera index) (begun : index ≤ count) :
    (OpenPc.mapLoop index count).Indexed thread events camera count := by
  unfold OpenPc.mapLoop
  split
  · exact ⟨rfl, mapped⟩
  · have all : index = count := by omega
    rw [all] at mapped
    exact indexed_queueLoop mapped (Nat.zero_le _)

theorem indexed_of_move {pc pc' : OpenPc} (move : OpenPc.Move pc action pc')
    (grants : GrantsOnly count action)
    (indexed : pc.Indexed thread events world.camera count)
    (stepped : world.step (thread, action) = some next) :
    pc'.Indexed thread (events ++ [(thread, action)]) next.camera count := by
  have fields := camera_of_step stepped
  cases move with
  | openDev | opened | queryCap | setFmt | setParm | getParm | requestFailed | mapFailed
  | closeFd => trivial
  | openFailed negative =>
      have observed := Camera.eq_mFD_of_readFd fields
      have kept := Camera.mFD_of_apply fields rfl
      intro nonneg
      omega
  | reqBufs =>
      rw [show _ = count from grants]
      exact indexed_mapLoop (fun _ below => absurd below (Nat.not_lt_zero _)) (Nat.zero_le _)
  | queryBuf => exact ⟨indexed.1, grants, MappedIn.of_step indexed.2 rfl stepped⟩
  | mapBuf =>
      obtain ⟨rfl, below, mapped⟩ := indexed
      exact indexed_mapLoop (MappedIn.of_mapBuf mapped stepped) below
  | queueBuf => exact indexed_queueLoop (MappedIn.of_step indexed.1 rfl stepped) grants
  | streamOn => exact ⟨MappedIn.of_step indexed.1 rfl stepped, indexed.2⟩
  | logFd => exact fun _ => ⟨MappedIn.of_step indexed.1 rfl stepped, indexed.2⟩
  | clearFd =>
      have cleared : next.camera.mFD = -1 := by rw [← Option.some.inj fields]
      intro nonneg
      omega
  | returnFd => trivial

/-- A step of another thread, which does not open the device. -/
theorem indexed_of_other {pc : Pc} (indexed : pc.Indexed thread events world.camera count)
    (notOpen : action.ofOpen = false) (stepped : world.step (mover, action) = some next) :
    pc.Indexed thread (events ++ [(mover, action)]) next.camera count := by
  have notSet := Action.setsBuffer_of_ofOpen notOpen
  have notOpened : ∀ fd, action ≠ .openDev fd := by
    rintro fd rfl
    cases notOpen
  have kept : ∀ bound, MappedIn thread events world.camera bound →
      MappedIn thread (events ++ [(mover, action)]) next.camera bound :=
    fun bound mapped => MappedIn.of_step mapped notSet stepped
  cases pc with
  | opening inner =>
      cases inner with
      | queryBuf index granted => exact ⟨indexed.1, kept _ indexed.2⟩
      | mapBuf index granted length => exact ⟨indexed.1, indexed.2.1, kept _ indexed.2.2⟩
      | queueBuf | streamOn | logFd => exact ⟨kept _ indexed.1, indexed.2⟩
      | returnFd =>
          intro nonneg
          obtain ⟨mapped, enough⟩ :=
            indexed (Camera.mFD_nonneg_of_apply (camera_of_step stepped) notOpened nonneg)
          exact ⟨kept _ mapped, enough⟩
      | _ => trivial
  | _ => trivial

/-- While `thread` runs `openCamera`, nobody else opens the device, and the driver grants
`count` buffers. -/
def OpensWithin (thread : ThreadId) (count : Nat) (event : Event) : Prop :=
  GrantsOnly count event.2 ∧ (event.1 ≠ thread → event.2.ofOpen = false)

instance (thread : ThreadId) (count : Nat) (event : Event) :
    Decidable (OpensWithin thread count event) :=
  inferInstanceAs (Decidable (_ ∧ _))

/-- What holds after some events of such an `openCamera`: every access so far lies below the
grant, and the point is as it should be. -/
structure Indexed (thread : ThreadId) (count : Nat) (events : List Event) (now : World) :
    Prop where
  accessed : ∀ fd index length ok, (thread, .mapBuf fd index length ok) ∈ events → index < count
  point : (now.threads thread).Indexed thread events now.camera count

theorem Indexed.step (indexed : Indexed thread count events world)
    (opens : OpensWithin thread count (mover, action))
    (stepped : world.step (mover, action) = some next) :
    Indexed thread count (events ++ [(mover, action)]) next := by
  constructor
  · intro fd index length ok member
    rcases List.mem_append.mp member with earlier | now
    · exact indexed.accessed fd index length ok earlier
    · obtain ⟨rfl, rfl⟩ := Prod.mk.inj (List.mem_singleton.mp now)
      obtain ⟨granted, atMap⟩ := Pc.mapBuf_of_move (move_of_step stepped)
      have point := indexed.point
      rw [atMap] at point
      exact point.2.1
  · by_cases own : mover = thread
    · subst own
      have move := move_of_step stepped
      have point := indexed.point
      generalize world.threads mover = pc at move point
      generalize next.threads mover = pc' at move
      cases move with
      | @call entry => cases entry <;> trivial
      | opening inner => exact Pc.indexed_afterOpen (indexed_of_move inner opens.1 point stepped)
      | @capturing _ _ _ pc' _ _ => cases pc' <;> trivial
      | @surface _ pc' _ _ => cases pc' <;> trivial
      | _ => trivial
    · rcases other_of_step stepped (Ne.symm own) with same | ⟨-, -, begun⟩
      · rw [same]
        exact indexed_of_other indexed.point (opens.2 own) stepped
      · rw [begun]
        trivial

end Steps

section Runs

variable {start reached : World} {thread : ThreadId} {count : Nat} {events : List Event}

theorem indexed_of_run (begins : start.threads thread = .opening .openDev)
    (ran : run start events = some reached)
    (opens : ∀ event ∈ events, OpensWithin thread count event) :
    Indexed thread count events reached := by
  have initial : Indexed thread count [] start := by
    refine ⟨by simp, ?_⟩
    rw [begins]
    trivial
  refine LabelledRun.history_of_run ?_ initial (LabelledRun.everyStep_of_forall_mem opens) ran
  rintro before now ⟨mover, action⟩ next indexed opens stepped
  exact indexed.step opens stepped

/-- When the driver grants `count` buffers, `openCamera` stays inside `mBufferArray`, and once it
has succeeded every later dequeue, until the device is opened again, yields an index inside the
array whose entry that `openCamera` has mapped. -/
def IndicesInRange (count : Nat) : Prop :=
  ∀ (start reached : World) (thread : ThreadId) (events : List Event),
    start.threads thread = .opening .openDev → run start events = some reached →
    (∀ event ∈ events, OpensWithin thread count event) →
    (∀ fd index length ok, (thread, .mapBuf fd index length ok) ∈ events → index < bufferNR) ∧
      (reached.threads thread = .opening .returnFd → 0 ≤ reached.camera.mFD →
        ∀ (after : List Event) (later next : World) (capture : ThreadId) (fd : Int) (index : Nat),
          run reached after = some later → (∀ event ∈ after, event.2.ofOpen = false) →
          later.step (capture, .dequeueBuf fd (.filled index)) = some next →
          GrantsOnly count (.dequeueBuf fd (.filled index)) →
          index < bufferNR ∧ ∃ fd length, (thread, .mapBuf fd index length true) ∈ events ∧
            later.camera.mBufferArray index = ⟨true, length⟩)

theorem indicesInRange_of_le (fits : count ≤ bufferNR) : IndicesInRange count := by
  intro start reached thread events begins ran opens
  have indexed := indexed_of_run begins ran opens
  constructor
  · intro fd index length ok member
    have below := indexed.accessed fd index length ok member
    omega
  · intro returning isOpen after later next capture fd index continued notOpen _ below
    have point := indexed.point
    rw [returning] at point
    obtain ⟨mapped, -⟩ := point isOpen
    have below : index < count := below
    rw [mBufferArray_of_run continued notOpen]
    exact ⟨by omega, mapped index below⟩

/-! ## Grants that are too large -/

/-- One iteration of the mapping loop, with every answer a success. -/
theorem exists_mapStep {index : Nat}
    (asks : start.threads thread = .opening (.queryBuf index count)) :
    ∃ next, run start [(thread, .ioctl start.camera.mFD (.queryBuf index 0) true),
        (thread, .mapBuf start.camera.mFD index 0 true)] = some next ∧
      next.threads thread = Pc.afterOpen (OpenPc.mapLoop (index + 1) count) := by
  obtain ⟨asked, ask, atMap, -, fields⟩ := start.exists_step thread
    (.ioctl start.camera.mFD (.queryBuf index 0) true)
    (show _ = some (Pc.opening (.mapBuf index count 0)) by
      rw [asks]
      simp [Pc.next, OpenPc.next, Pc.afterOpen])
    rfl (show _ = some start.camera by simp [Camera.apply]) rfl (by simp)
  obtain ⟨next, map, atLoop, -, -⟩ := asked.exists_step thread
    (.mapBuf start.camera.mFD index 0 true)
    (show _ = some (Pc.afterOpen (OpenPc.mapLoop (index + 1) count)) by
      rw [atMap]
      simp [Pc.next, OpenPc.next])
    rfl (show _ = some (asked.camera.setBuffer index ⟨true, 0⟩) by simp [Camera.apply, fields])
    rfl (by simp)
  refine ⟨next, ?_, atLoop⟩
  exact LabelledRun.run_cons_iff.mpr ⟨asked, ask, LabelledRun.run_cons_iff.mpr ⟨next, map, rfl⟩⟩

/-- The mapping loop asks about every buffer that was granted. -/
theorem exists_mapLoop (asks : start.threads thread = .opening (.queryBuf 0 count)) (index : Nat)
    (below : index < count) :
    ∃ events next, run start events = some next ∧
      (∀ event ∈ events, OpensWithin thread count event) ∧
      next.threads thread = .opening (.queryBuf index count) := by
  induction index with
  | zero => exact ⟨[], start, rfl, by simp, asks⟩
  | succ index ih =>
      obtain ⟨events, middle, ran, opens, asksNext⟩ := ih (by omega)
      obtain ⟨next, mapped, atLoop⟩ := exists_mapStep asksNext
      refine ⟨_, next, LabelledRun.run_append ran mapped, ?_, ?_⟩
      · intro event member
        rcases List.mem_append.mp member with earlier | now
        · exact opens event earlier
        · simp only [List.mem_cons, List.not_mem_nil, or_false] at now
          rcases now with rfl | rfl
          · exact ⟨show index < count by omega, fun distinct => absurd rfl distinct⟩
          · exact ⟨trivial, fun distinct => absurd rfl distinct⟩
      · rw [atLoop, OpenPc.mapLoop, if_pos below]
        rfl

/-- The user thread inside `openCamera`, up to `VIDIOC_REQBUFS`. -/
def toReqBufsEvents : List Event :=
  [.openDev 5, .readFd 5, .ioctl 5 (.queryCap true) true,
    .ioctl 5 (.setFmt (yuyvFormat 640 480)) true, .ioctl 5 .setParm true,
    .ioctl 5 .getParm true].map fun action => (userThread, action)

/-- A driver that grants more than `BUFFER_NR` buffers makes `openCamera` write behind the
array. -/
theorem not_indicesInRange_of_lt (exceeds : bufferNR < count) : ¬ IndicesInRange count := by
  intro inRange
  obtain ⟨world, entered⟩ := Option.isSome_iff_exists.mp
    (by decide : (run (attached 640 480) enterOpenEvents).isSome = true)
  obtain ⟨begins, before, ran, asks, isOpen⟩ := (by decide :
    ∀ world ∈ run (attached 640 480) enterOpenEvents,
      world.threads userThread = .opening .openDev ∧
        ∃ before ∈ run world toReqBufsEvents,
          before.threads userThread = .opening .reqBufs ∧ before.camera.mFD = 5) world entered
  obtain ⟨granted, grant, atLoop, -, -⟩ := before.exists_step userThread
    (.ioctl 5 (.reqBufs count) true)
    (show _ = some (Pc.opening (.queryBuf 0 count)) by
      rw [asks]
      simp [Pc.next, OpenPc.next, OpenPc.mapLoop, Pc.afterOpen, show 0 < count by omega])
    rfl (show _ = some before.camera by simp [Camera.apply, isOpen]) rfl (by simp)
  obtain ⟨events, asked, mapped, opens, asksLast⟩ := exists_mapLoop atLoop bufferNR exceeds
  obtain ⟨reached, mappedLast, -⟩ := exists_mapStep asksLast
  have whole := LabelledRun.run_append ran
    (LabelledRun.run_cons_iff.mpr ⟨granted, grant, LabelledRun.run_append mapped mappedLast⟩)
  have allOpen : ∀ event ∈ toReqBufsEvents ++ (userThread, .ioctl 5 (.reqBufs count) true) ::
      (events ++ [(userThread, .ioctl asked.camera.mFD (.queryBuf bufferNR 0) true),
        (userThread, .mapBuf asked.camera.mFD bufferNR 0 true)]),
      OpensWithin userThread count event := by
    have own : ∀ action, GrantsOnly count action →
        OpensWithin userThread count (userThread, action) :=
      fun _ grants => ⟨grants, fun distinct => absurd rfl distinct⟩
    simp only [toReqBufsEvents, List.map_cons, List.map_nil, List.forall_mem_append,
      List.forall_mem_cons]
    refine ⟨⟨own _ trivial, own _ trivial, own _ trivial, own _ trivial, own _ trivial,
      own _ trivial, by simp⟩, own _ rfl, opens, own _ exceeds, own _ trivial, by simp⟩
  have inside := (inRange world reached userThread _ begins whole allOpen).1
    asked.camera.mFD bufferNR 0 true (by simp)
  omega

/-- The indices stay in range exactly when the driver grants at most `BUFFER_NR` buffers. -/
theorem indicesInRange_iff (count : Nat) : IndicesInRange count ↔ count ≤ bufferNR := by
  constructor
  · intro inRange
    by_contra exceeds
    exact not_indicesInRange_of_lt (by omega) inRange
  · exact indicesInRange_of_le

/-- A driver that grants five buffers when asked for four. -/
theorem not_indicesInRange : ¬ ∀ count, IndicesInRange count := by
  intro always
  exact not_indicesInRange_of_lt (by decide) (always 5)

end Runs

end World

end UsbCamera
