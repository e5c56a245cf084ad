import UsbCamera.UserThread

/-!
# What the camera holds of the device

The only record of an open descriptor is `mFD`, and opening, error closing and
destruction each look at its sign with a comparison of their own: `openCamera` does
not look at all, the error exits close it, the destructor closes it when
`mFD > 0`.  In sequential runs the record is right as long as the device is never
opened over a valid `mFD` and the object never deleted with descriptor 0.  Nothing
ever unmaps a buffer.
-/

namespace UsbCamera

/-- The descriptor an action closes. -/
def Action.closes : Action → Option Int
  | .closeFd fd => some fd
  | .deleteCamera fd => if 0 < fd then some fd else none
  | _ => none

/-- The action maps a buffer. -/
def Action.maps : Action → Bool
  | .mapBuf _ _ _ ok => ok
  | _ => false

/-- The action leaves `mFD` and the open descriptors as they are. -/
def Action.keepsDescriptors : Action → Bool
  | .openDev _ | .closeFd _ | .clearFd | .deleteCamera _ => false
  | _ => true

theorem Action.keepsFd_of_keepsDescriptors {action : Action}
    (keeps : action.keepsDescriptors = true) : action.keepsFd = true := by
  cases action <;> first | rfl | cases keeps

theorem Action.keepsDescriptors_of_draws {action : Action} (draws : action.draws = true) :
    action.keepsDescriptors = true := by
  cases action <;> first | rfl | cases draws

theorem Action.keepsDescriptors_of_bystander {action : Action}
    (stands : action.ofBystander = true) : action.keepsDescriptors = true := by
  cases action <;> first | rfl | cases stands

namespace Device

variable {device device' : Device} {action : Action}

theorem openFds_of_apply (keeps : action.keepsDescriptors = true)
    (applied : device.apply action = some device') : device'.openFds = device.openFds := by
  unfold Device.apply at applied
  split at applied
  case h_1 | h_2 | h_3 => cases keeps
  case h_7 =>
      split at applied
      · cases applied
        rfl
      · cases applied
  all_goals
    cases applied
    rfl

/-- Mappings are made and never undone. -/
theorem mappings_of_apply (applied : device.apply action = some device') :
    device'.mappings = [] ↔ device.mappings = [] ∧ action.maps = false := by
  unfold Device.apply at applied
  split at applied
  case h_1 =>
      split at applied
      · rw [← Option.some.inj applied]
        simp [Action.maps]
      · split at applied
        · cases applied
        · rw [← Option.some.inj applied]
          simp [Action.maps]
  case h_3 =>
      rw [← Option.some.inj applied]
      split <;> simp [Action.maps, close]
  case h_7 =>
      split at applied
      · rw [← Option.some.inj applied]
        simp [Action.maps, dequeue]
      · cases applied
  case h_8 notMapped _ =>
      rw [← Option.some.inj applied]
      cases action with
      | mapBuf fd index length ok =>
          cases ok with
          | true => exact absurd rfl (notMapped fd index length)
          | false => simp [Action.maps]
      | _ => simp [Action.maps]
  all_goals
    rw [← Option.some.inj applied]
    simp [Action.maps, close, enqueue]

end Device

/-! ## The ledger of a thread -/

/-- What a thread at a point of its program knows of the device: `settled`, the
record in `mFD` is right; `inUse`, it is right and the device is open; `closed`, the
device is closed and the record not yet cleared; `gone`, the object has been
destroyed. -/
inductive Ledger
  | settled
  | inUse
  | closed
  | gone
  deriving DecidableEq

def OpenPc.ledger : OpenPc → Ledger
  | .openDev | .testFd | .logFd | .returnFd | .returned _ => .settled
  | .clearFd => .closed
  | _ => .inUse

def CapturePc.ledger : CapturePc → Ledger
  | .getCamera | .checkFd | .notifyStop | .notifyError | .returned => .settled
  | .clearFd => .closed
  | _ => .inUse

def Pc.ledger : Pc → Ledger
  | .opening pc => pc.ledger
  | .capturing _ pc => pc.ledger
  | .releaseClear => .gone
  | _ => .settled

@[simp]
theorem OpenPc.ledger_queueLoop (index : Nat) : (queueLoop index).ledger = .inUse := by
  unfold queueLoop
  split <;> rfl

@[simp]
theorem OpenPc.ledger_mapLoop (index count : Nat) : (mapLoop index count).ledger = .inUse := by
  unfold mapLoop
  split
  · rfl
  · exact ledger_queueLoop 0

theorem OpenPc.ledger_of_requests {pc : OpenPc} (requests : pc.requests = true) :
    pc.ledger = .inUse := by
  cases pc <;> first | rfl | cases requests

@[simp]
theorem CapturePc.ledger_afterSelect (result : Int) (errno : Errno) :
    (afterSelect result errno).ledger = .inUse := by
  unfold afterSelect
  split_ifs <;> rfl

@[simp]
theorem CapturePc.ledger_afterDequeue (first : Bool) (result : DequeueResult) :
    (afterDequeue first result).ledger = .inUse := by
  cases result <;> simp only [afterDequeue] <;> split_ifs <;> rfl

namespace Pc

@[simp]
theorem ledger_enter (entry : Call) : (enter entry).ledger = .settled := by
  cases entry <;> rfl

@[simp]
theorem ledger_afterOpen (pc : OpenPc) : (afterOpen pc).ledger = pc.ledger := by
  cases pc with
  | returned fd => by_cases positive : 0 < fd <;> simp [afterOpen, positive] <;> rfl
  | _ => rfl

@[simp]
theorem ledger_afterCapture (first : Bool) (pc : CapturePc) :
    (afterCapture first pc).ledger = pc.ledger := by
  cases pc <;> rfl

@[simp]
theorem ledger_afterSurface (pc : SurfacePc) : (afterSurface pc).ledger = .settled := by
  cases pc <;> rfl

end Pc

/-- The descriptors a right record stands for. -/
def held (fd : Int) : List Int :=
  if 0 ≤ fd then [fd] else []

namespace World

/-- The state of the device at each entry of the ledger. -/
def Balance (world : World) : Ledger → Prop
  | .settled => world.device.openFds = held world.camera.mFD
  | .inUse => 0 ≤ world.camera.mFD ∧ world.device.openFds = [world.camera.mFD]
  | .closed => world.device.openFds = []
  | .gone => world.camera.mFD < 0 ∧ world.device.openFds = []

/-- The device is opened only when `mFD` records no descriptor, and the object is
not deleted while it records descriptor 0. -/
def RecordsOne (world : World) (event : Event) : Prop :=
  (event.2.opens = true → world.camera.mFD < 0) ∧
  (event.2.deletes = true → world.camera.mFD ≠ 0)

instance (world : World) (event : Event) : Decidable (RecordsOne world event) :=
  inferInstanceAs (Decidable (_ ∧ _))

section Steps

variable {world next : World} {thread : ThreadId} {action : Action} {ledger : Ledger}

theorem Balance.settled_of_inUse (balance : Balance world .inUse) :
    Balance world .settled := by
  simp only [Balance, held, if_pos balance.1]
  exact balance.2

theorem Balance.settled_of_gone (balance : Balance world .gone) :
    Balance world .settled := by
  simp only [Balance, held, if_neg (Int.not_le.mpr balance.1)]
  exact balance.2

theorem Balance.inUse_of_settled (balance : Balance world .settled)
    (isOpen : 0 ≤ world.camera.mFD) : Balance world .inUse := by
  simp only [Balance, held, if_pos isOpen] at balance
  exact ⟨isOpen, balance⟩

theorem Balance.of_keeps (balance : Balance world ledger)
    (keeps : action.keepsDescriptors = true)
    (stepped : world.step (thread, action) = some next) : Balance next ledger := by
  have descriptor : next.camera.mFD = world.camera.mFD :=
    Camera.mFD_of_apply (camera_of_step stepped) (Action.keepsFd_of_keepsDescriptors keeps)
  have openFds := Device.openFds_of_apply keeps (device_of_step stepped)
  cases ledger <;> simpa [Balance, descriptor, openFds] using balance

theorem Balance.of_open {fd : Int} (balance : Balance world .settled)
    (unrecorded : world.camera.mFD < 0)
    (stepped : world.step (thread, .openDev fd) = some next) : Balance next .settled := by
  have recorded : next.camera.mFD = fd := by
    rw [← Option.some.inj (camera_of_step stepped)]
  have kernel := device_of_step stepped
  simp only [Balance, held, if_neg (Int.not_le.mpr unrecorded)] at balance
  simp only [Device.apply] at kernel
  simp only [Balance, held, recorded]
  split at kernel
  · rename_i failed
    rw [← Option.some.inj kernel, if_neg (Int.not_le.mpr failed), balance]
  · rename_i opened
    split at kernel
    · cases kernel
    · rw [← Option.some.inj kernel, if_pos (by omega), balance]

theorem Balance.of_close {fd : Int} (balance : Balance world .inUse)
    (stepped : world.step (thread, .closeFd fd) = some next) : Balance next .closed := by
  have recorded := camera_of_step stepped
  simp only [Camera.apply] at recorded
  split at recorded
  · rename_i same
    have kernel : next.device = world.device.close fd :=
      (Option.some.inj (device_of_step stepped)).symm
    simp [Balance, kernel, Device.close, balance.2, same]
  · cases recorded

theorem Balance.of_clear (balance : Balance world .closed)
    (stepped : world.step (thread, .clearFd) = some next) : Balance next .settled := by
  have recorded : next.camera.mFD = -1 := by
    rw [← Option.some.inj (camera_of_step stepped)]
  have kernel : next.device = world.device := (Option.some.inj (device_of_step stepped)).symm
  simpa [Balance, held, recorded, kernel] using balance

theorem Balance.of_delete {fd : Int} (balance : Balance world .settled)
    (nonzero : world.camera.mFD ≠ 0)
    (stepped : world.step (thread, .deleteCamera fd) = some next) : Balance next .gone := by
  have destroyed := camera_of_step stepped
  simp only [Camera.apply] at destroyed
  split at destroyed
  · rename_i same
    subst same
    have kernel := Option.some.inj (device_of_step stepped)
    rw [Balance, ← Option.some.inj destroyed, ← kernel]
    simp only [Balance, held] at balance
    by_cases positive : 0 < world.camera.mFD
    · rw [if_pos (by omega)] at balance
      simp [Camera.destroy, positive, Device.close, balance]
    · have negative : world.camera.mFD < 0 := by omega
      rw [if_neg (by omega)] at balance
      simp [Camera.destroy, positive, negative, balance]
  · cases destroyed

/-! ### One step of each program -/

theorem Balance.of_open_move {pc pc' : OpenPc} (move : OpenPc.Move pc action pc')
    (balance : Balance world pc.ledger) (records : RecordsOne world (thread, action))
    (stepped : world.step (thread, action) = some next) : Balance next pc'.ledger := by
  cases move with
  | openDev => exact balance.of_open (records.1 rfl) stepped
  | opened nonneg =>
      have observed := Camera.eq_mFD_of_readFd (camera_of_step stepped)
      exact (balance.inUse_of_settled (observed ▸ nonneg)).of_keeps rfl stepped
  | streamOn => exact balance.settled_of_inUse.of_keeps rfl stepped
  | reqBufs =>
      rw [OpenPc.ledger_mapLoop]
      exact balance.of_keeps rfl stepped
  | mapBuf =>
      rw [OpenPc.ledger_mapLoop]
      exact balance.of_keeps rfl stepped
  | queueBuf =>
      rw [OpenPc.ledger_queueLoop]
      exact balance.of_keeps rfl stepped
  | requestFailed requests =>
      rw [OpenPc.ledger_of_requests requests] at balance
      exact balance.of_keeps rfl stepped
  | closeFd => exact balance.of_close stepped
  | clearFd => exact balance.of_clear stepped
  | _ => exact balance.of_keeps rfl stepped

theorem Balance.of_capture_move {first first' : Bool} {pc pc' : CapturePc}
    (move : CapturePc.Move first pc action first' pc') (balance : Balance world pc.ledger)
    (stepped : world.step (thread, action) = some next) : Balance next pc'.ledger := by
  cases move with
  | isOpen nonneg =>
      have observed := Camera.eq_mFD_of_readFd (camera_of_step stepped)
      exact (balance.inUse_of_settled (observed ▸ nonneg)).of_keeps rfl stepped
  | stillRunning =>
      rw [CapturePc.ledger_afterSelect]
      exact balance.of_keeps rfl stepped
  | dequeueBuf =>
      rw [CapturePc.ledger_afterDequeue]
      exact balance.of_keeps rfl stepped
  | preview drawn =>
      have kept := balance.of_keeps
        (Action.keepsDescriptors_of_draws (PreviewPc.draws_of_next drawn)) stepped
      split <;> exact kept
  | encoder drawn =>
      have kept := balance.of_keeps
        (Action.keepsDescriptors_of_draws (EncoderPc.draws_of_next drawn)) stepped
      split <;> exact kept
  | lowerPeek => exact balance.settled_of_inUse.of_keeps rfl stepped
  | closeFd => exact balance.of_close stepped
  | clearFd => exact balance.of_clear stepped
  | _ => exact balance.of_keeps rfl stepped

theorem Balance.of_move {pc pc' : Pc} (move : Pc.Move pc action pc')
    (balance : Balance world pc.ledger) (records : RecordsOne world (thread, action))
    (stepped : world.step (thread, action) = some next) : Balance next pc'.ledger := by
  cases move with
  | call =>
      rw [Pc.ledger_enter]
      exact balance.of_keeps rfl stepped
  | opening inner =>
      rw [Pc.ledger_afterOpen]
      exact balance.of_open_move inner records stepped
  | capturing inner =>
      rw [Pc.ledger_afterCapture]
      exact balance.of_capture_move inner stepped
  | delete => exact balance.of_delete (records.2 rfl) stepped
  | clear => exact balance.settled_of_gone.of_keeps rfl stepped
  | @surface _ _ action inner =>
      rw [Pc.ledger_afterSurface]
      have own := SurfacePc.own_of_next inner
      refine balance.of_keeps ?_ stepped
      cases action <;> first | rfl | cases own
  | _ => exact balance.of_keeps rfl stepped

/-- A thread closes only the descriptor that is open. -/
theorem Balance.closes_open {pc pc' : Pc} (move : Pc.Move pc action pc')
    (balance : Balance world pc.ledger)
    (stepped : world.step (thread, action) = some next) :
    ∀ fd ∈ action.closes, fd ∈ world.device.openFds := by
  intro fd closes
  have fields := camera_of_step stepped
  cases action with
  | closeFd closed =>
      cases closes
      have inUse : Balance world .inUse := by
        cases move with
        | opening inner => cases inner; exact balance
        | capturing inner =>
            cases inner with
            | closeFd => exact balance
            | preview drawn => cases PreviewPc.draws_of_next drawn
            | encoder drawn => cases EncoderPc.draws_of_next drawn
        | surface inner => cases SurfacePc.own_of_next inner
      simp only [Camera.apply] at fields
      split at fields
      · rename_i same
        simp [same, inUse.2]
      · cases fields
  | deleteCamera deleted =>
      rw [(Pc.delete_of_move move).1] at balance
      simp only [Action.closes, Option.mem_def] at closes
      split at closes
      · cases closes
        simp only [Camera.apply] at fields
        split at fields
        · rename_i positive same
          subst same
          simp only [Balance, Pc.ledger, held, if_pos (Int.le_of_lt positive)] at balance
          simp [balance]
        · cases fields
      · cases closes
  | _ => cases closes

end Steps

/-! ## Sequential runs -/

/-- `start()` and `release()` are called when every other call and every capture has
finished. -/
def Sequential (world : World) (event : Event) : Prop :=
  ∀ thread, event.2.method = some .start ∨ event.2.method = some .release →
    world.threads thread = .idle

/-- One thread at a time has to do with the device, and what it knows of it is
true. -/
structure ActedBy (actor : ThreadId) (world : World) : Prop where
  others : ∀ other, other ≠ actor → (world.threads other).bystander = true
  balance : Balance world (world.threads actor).ledger

/-- Some thread acts. -/
def Accounted (world : World) : Prop :=
  ∃ actor, ActedBy actor world

theorem accounted_attached (width height : Int) : Accounted (attached width height) :=
  ⟨0, fun _ _ => rfl, rfl⟩

section Sequential

variable {world next : World} {actor mover : ThreadId} {action : Action}

/-- The acting thread moves; after a `spawn` the new capture thread acts. -/
theorem ActedBy.step_actor (acted : ActedBy actor world)
    (records : RecordsOne world (actor, action))
    (stepped : world.step (actor, action) = some next) :
    Accounted next := by
  have move := move_of_step stepped
  by_cases spawns : ∃ child, action = .spawn child
  · obtain ⟨child, rfl⟩ := spawns
    have atSpawn := Pc.spawning_of_move move
    rw [atSpawn] at move
    have balance := acted.balance
    rw [atSpawn] at balance
    refine ⟨child, ?_, ?_⟩
    · intro other distinct
      by_cases isActor : other = actor
      · rw [isActor]
        generalize next.threads actor = after at move
        cases move
        rfl
      · rcases other_of_step stepped isActor with same | ⟨spawned, -, -⟩
        · rw [same]
          exact acted.others other isActor
        · exact absurd (Action.spawn.inj spawned).symm distinct
    · rw [spawned_of_step stepped]
      exact balance.of_keeps rfl stepped
  · refine ⟨actor, ?_, acted.balance.of_move move records stepped⟩
    intro other distinct
    rcases other_of_step stepped distinct with same | ⟨spawned, -, -⟩
    · rw [same]
      exact acted.others other distinct
    · exact absurd ⟨other, spawned⟩ spawns

/-- A bystander that calls neither `start()` nor `release()` leaves the actor
alone. -/
theorem ActedBy.step_bystander (acted : ActedBy actor world) (distinct : mover ≠ actor)
    (calls : ∀ entry ∈ action.method, entry ≠ .start ∧ entry ≠ .release)
    (stepped : world.step (mover, action) = some next) : ActedBy actor next := by
  have stands := acted.others mover distinct
  obtain ⟨still, stood, unmoved⟩ := bystander_of_step stands calls stepped
  constructor
  · intro other apart
    by_cases moves : other = mover
    · rw [moves]
      exact still
    · rw [unmoved other moves]
      exact acted.others other apart
  · rw [unmoved actor (Ne.symm distinct)]
    exact acted.balance.of_keeps (Action.keepsDescriptors_of_bystander stood) stepped

/-- In a world where every thread is idle any thread may act next. -/
theorem ActedBy.of_idle (acted : ActedBy actor world)
    (idle : ∀ thread, world.threads thread = .idle) (other : ThreadId) :
    ActedBy other world := by
  refine ⟨fun thread _ => by rw [idle thread]; rfl, ?_⟩
  have balance := acted.balance
  rw [idle actor] at balance
  rw [idle other]
  exact balance

theorem Accounted.step (accounted : Accounted world)
    (sequential : Sequential world (mover, action))
    (records : RecordsOne world (mover, action))
    (stepped : world.step (mover, action) = some next) : Accounted next := by
  obtain ⟨actor, acted⟩ := accounted
  by_cases acts : mover = actor
  · subst acts
    exact acted.step_actor records stepped
  · by_cases begins : action.method = some .start ∨ action.method = some .release
    · have idle := fun thread => sequential thread begins
      exact (acted.of_idle idle mover).step_actor records stepped
    · refine ⟨actor, acted.step_bystander acts ?_ stepped⟩
      rintro entry called
      exact ⟨fun same => begins (Or.inl (same ▸ called)),
        fun same => begins (Or.inr (same ▸ called))⟩

theorem ActedBy.closes_open (acted : ActedBy actor world)
    (stepped : world.step (mover, action) = some next) :
    ∀ fd ∈ action.closes, fd ∈ world.device.openFds := by
  have move := move_of_step stepped
  by_cases acts : mover = actor
  · subst acts
    exact acted.balance.closes_open move stepped
  · intro fd closes
    have stands := acted.others mover acts
    have noCall : action.method = none := by
      cases action <;> first | rfl | cases closes
    have stood := (Pc.bystander_of_move stands (by simp [noCall]) move).2
    have noClose : action.closes = none := by
      cases action <;> first | rfl | cases stood
    rw [noClose] at closes
    cases closes

end Sequential

/-! ## After every call and after the release -/

end World

/-- Outside the native code, or a capture thread that has not begun. -/
def Pc.rests : Pc → Bool
  | .idle | .capturing _ .getCamera => true
  | _ => false

theorem Pc.ledger_of_rests {pc : Pc} (rests : pc.rests = true) : pc.ledger = .settled := by
  cases pc with
  | capturing first inner => cases inner <;> first | rfl | cases rests
  | _ => first | rfl | cases rests

namespace World

/-- After every call the open descriptors are those `mFD` stands for, only open
descriptors are closed, and a `release()` leaves neither a descriptor nor a mapping. -/
structure ResourcesReleased (start : World) (events : List Event) : Prop where
  accounted : ∀ before after world, events = before ++ after →
    run start before = some world → (∀ thread, (world.threads thread).rests = true) →
    world.device.openFds = held world.camera.mFD
  closedOnce : EveryStep (fun world event => ∀ fd ∈ event.2.closes, fd ∈ world.device.openFds)
    start events
  released : ∀ before after thread world, events = before ++ (thread, .clearCamera) :: after →
    run start (before ++ [(thread, .clearCamera)]) = some world →
    world.device.openFds = [] ∧ world.device.mappings = []

theorem mappings_of_run {world final : World} {events : List Event}
    (ran : run world events = some final) :
    final.device.mappings = [] ↔
      world.device.mappings = [] ∧ ∀ event ∈ events, event.2.maps = false := by
  induction events generalizing world with
  | nil =>
      cases Option.some.inj ran
      simp
  | cons event events ih =>
      obtain ⟨next, stepped, rest⟩ := LabelledRun.run_cons_iff.mp ran
      rw [ih rest, Device.mappings_of_apply (device_of_step stepped), List.forall_mem_cons,
        and_assoc]

section Runs

variable {width height : Int} {events : List Event} {final : World}

theorem accounted_of_run
    (sequential : EveryStep Sequential (attached width height) events)
    (records : EveryStep RecordsOne (attached width height) events)
    (ran : run (attached width height) events = some final) :
    Accounted final := by
  refine LabelledRun.invariant_of_run ?_ (accounted_attached width height)
    (sequential.and records) ran
  rintro world ⟨mover, action⟩ next accounted conditions stepped
  exact accounted.step conditions.1 conditions.2 stepped

/-- A release that has cleared `mNativeObject` leaves no descriptor open. -/
theorem ActedBy.openFds_of_clear {actor mover : ThreadId} {world next : World}
    (acted : ActedBy actor world) (stepped : world.step (mover, .clearCamera) = some next) :
    next.device.openFds = [] := by
  have atClear := Pc.clearCamera_of_move (move_of_step stepped)
  have acts : mover = actor := by
    by_contra distinct
    have stands := acted.others mover distinct
    rw [atClear] at stands
    cases stands
  have balance := acted.balance
  rw [← acts, atClear] at balance
  rw [Device.openFds_of_apply rfl (device_of_step stepped)]
  exact balance.2

/-- In a sequential run in which every descriptor is recorded alone, the resources
are all released exactly when no buffer had been mapped before the release. -/
theorem resourcesReleased_iff
    (sequential : EveryStep Sequential (attached width height) events)
    (records : EveryStep RecordsOne (attached width height) events)
    (ran : run (attached width height) events = some final) :
    ResourcesReleased (attached width height) events ↔
      ∀ before after thread, events = before ++ (thread, .clearCamera) :: after →
        ∀ event ∈ before, event.2.maps = false := by
  have accounted : ∀ before after world, events = before ++ after →
      run (attached width height) before = some world → Accounted world := by
    rintro before after world rfl reached
    exact accounted_of_run ((LabelledRun.everyStep_append_iff reached).mp sequential).1
      ((LabelledRun.everyStep_append_iff reached).mp records).1 reached
  have unmapped : ∀ before thread world,
      run (attached width height) (before ++ [(thread, .clearCamera)]) = some world →
      (world.device.mappings = [] ↔ ∀ event ∈ before, event.2.maps = false) := by
    intro before thread world reached
    have begins : (attached width height).device.mappings = [] := rfl
    have clearing : (Action.clearCamera).maps = false := rfl
    rw [mappings_of_run reached]
    simp only [begins, true_and, List.forall_mem_append, List.forall_mem_singleton,
      clearing, and_true]
  constructor
  · rintro resources before after thread rfl
    obtain ⟨world, cleared, reached, stepped, -⟩ := LabelledRun.run_append_cons_iff.mp ran
    have whole : run (attached width height) (before ++ [(thread, .clearCamera)]) =
        some cleared :=
      LabelledRun.run_append reached (LabelledRun.run_cons_iff.mpr ⟨cleared, stepped, rfl⟩)
    exact (unmapped before thread cleared whole).mp
      (resources.released before after thread cleared rfl whole).2
  · intro noMap
    refine ⟨?_, ?_, ?_⟩
    · intro before after world split reached rests
      obtain ⟨actor, acted⟩ := accounted before after world split reached
      have balance := acted.balance
      rw [Pc.ledger_of_rests (rests actor)] at balance
      exact balance
    · refine LabelledRun.everyStep_of_invariant ?_ ?_
        (accounted_attached width height) (sequential.and records) ran
      · rintro world ⟨mover, action⟩ next accounted conditions stepped
        exact accounted.step conditions.1 conditions.2 stepped
      · rintro world ⟨mover, action⟩ next ⟨actor, acted⟩ - stepped
        exact acted.closes_open stepped
    · rintro before after thread world split reached
      obtain ⟨earlier, cleared, reachedEarlier, stepped, done⟩ :=
        LabelledRun.run_append_cons_iff.mp reached
      cases Option.some.inj done
      obtain ⟨actor, acted⟩ := accounted before _ earlier split reachedEarlier
      exact ⟨acted.openFds_of_clear stepped,
        (unmapped before thread _ reached).mpr (noMap before after thread split)⟩

end Runs

/-! ## A capture that ends by a stop -/

/-- Started, captured, stopped and released, one after the other. -/
def captureThenReleaseEvents : List Event :=
  startEvents 5 1 ++ captureToSelectEvents 5 1 ++ stopCallEvents ++
    [(userThread, .writePeek false)] ++ captureStopEvents 1 ++
    releaseEvents 5 userThread ++ [(userThread, .clearCamera)]

theorem sequential_captureThenRelease :
    EveryStep Sequential (attached 640 480) captureThenReleaseEvents := by
  have within : ∀ event ∈ captureThenReleaseEvents, Within [0, 1] event := by decide
  refine (confined_attached 640 480).everyStep ?_ within (by decide +kernel)
  intro world event thread idle _
  exact idle

theorem resourcesReleased_iff_captureThenRelease :
    ResourcesReleased (attached 640 480) captureThenReleaseEvents ↔
      ∀ before after thread,
        captureThenReleaseEvents = before ++ (thread, .clearCamera) :: after →
        ∀ event ∈ before, event.2.maps = false := by
  obtain ⟨final, ran⟩ := Option.isSome_iff_exists.mp
    (by decide : (run (attached 640 480) captureThenReleaseEvents).isSome = true)
  exact resourcesReleased_iff sequential_captureThenRelease (by decide) ran

/-- The four buffers `openCamera` maps are still mapped after `release()`. -/
theorem not_resourcesReleased :
    ¬ ∀ (width height : Int) (events : List Event) (final : World),
      EveryStep Sequential (attached width height) events →
      run (attached width height) events = some final →
      ResourcesReleased (attached width height) events := by
  intro always
  obtain ⟨final, ran⟩ := Option.isSome_iff_exists.mp
    (by decide : (run (attached 640 480) captureThenReleaseEvents).isSome = true)
  have resources := always 640 480 _ final sequential_captureThenRelease ran
  have unmapped := (resources.released _ [] userThread final rfl ran).2
  have mapped := (by decide : ∀ final ∈ run (attached 640 480) captureThenReleaseEvents,
    final.device.mappings ≠ []) final ran
  exact mapped unmapped

end World

end UsbCamera
