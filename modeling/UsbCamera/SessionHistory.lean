import UsbCamera.NotificationProtocol
import UsbCamera.ObjectLifetime

/-!
# The life of a camera, start after start

`start()` opens the device, whatever `mFD` already records, and hands it to a new capture
thread; the thread ends by a stop, which leaves the device open, or by an error, which
closes it.  Between the constructor and `release()` this goes on any number of times, while
other threads stop the camera and change its surfaces.  When no `start()` is called before
the one before it has come to its end, what can be seen of such a life from outside is one
complete episode after another.
-/

namespace UsbCamera

/-! ## What is seen from outside -/

/-- The device is opened or closed, a capture thread is created, Java is told. -/
inductive Mark
  | opened (fd : Int)
  | closed (fd : Int)
  | created (thread : ThreadId)
  | told (notification : Notification)
  deriving DecidableEq

/-- The mark an action leaves; a failing `open` leaves none. -/
def Action.mark : Action → Option Mark
  | .openDev fd => if 0 ≤ fd then some (.opened fd) else none
  | .closeFd fd => some (.closed fd)
  | .spawn child => some (.created child)
  | .notify notification => some (.told notification)
  | _ => none

/-- A mark and the thread that made it. -/
abbrev Entry := ThreadId × Mark

/-- What an action of `thread` adds to the record. -/
def Action.entry (thread : ThreadId) (action : Action) : List Entry :=
  (action.mark.map fun mark => (thread, mark)).toList

/-- The record of a run. -/
def record (events : List Event) : List Entry :=
  events.flatMap fun event => event.2.entry event.1

/-- One `start()` that opened the device.  `captured` tells whether a frame was
dequeued. -/
inductive Episode
  /-- Negotiation failed: `openCamera` closed the device again. -/
  | rolledBack (opener : ThreadId) (fd : Int)
  /-- `open` returned descriptor 0, which `nativeOpenCamera` reports as a failure. -/
  | unused (opener : ThreadId)
  | stopped (opener thread : ThreadId) (fd : Int) (captured : Bool)
  | failed (opener thread : ThreadId) (fd : Int) (captured : Bool)

namespace Episode

/-- The entries of a capture that has not ended. -/
def begun (opener thread : ThreadId) (fd : Int) (captured : Bool) : List Entry :=
  (opener, .opened fd) :: (opener, .created thread) ::
    if captured then [(thread, .told .firstCapture)] else []

def entries : Episode → List Entry
  | .rolledBack opener fd => [(opener, .opened fd), (opener, .closed fd)]
  | .unused opener => [(opener, .opened 0)]
  | .stopped opener thread fd captured =>
      begun opener thread fd captured ++ [(thread, .told .captureStop)]
  | .failed opener thread fd captured =>
      begun opener thread fd captured ++
        [(thread, .closed fd), (thread, .told .cameraError)]

/-- The descriptor an episode leaves open. -/
def leftOpen : Episode → Option Int
  | .unused _ => some 0
  | .stopped _ _ fd _ => some fd
  | .rolledBack _ _ | .failed _ _ _ _ => none

/-- The descriptors some episodes have left open, the last one first. -/
def left (episodes : List Episode) : List Int :=
  (episodes.filterMap leftOpen).reverse

@[simp]
theorem left_append (earlier later : List Episode) :
    left (earlier ++ later) = left later ++ left earlier := by
  simp [left]

end Episode

/-- The open descriptors after an action that is not the destructor's. -/
def Action.openAfter : Action → List Int → List Int
  | .openDev fd, fds => if 0 ≤ fd then fd :: fds else fds
  | .closeFd fd, fds => fds.filter fun other => other ≠ fd
  | _, fds => fds

theorem Action.openAfter_close {fd : Int} {others : List Int}
    (distinct : (fd :: others).Nodup) :
    (Action.closeFd fd).openAfter (fd :: others) = others := by
  have fresh := (List.nodup_cons.mp distinct).1
  simp only [openAfter, ne_eq, not_true_eq_false, decide_false, Bool.false_eq_true,
    not_false_eq_true, List.filter_cons_of_neg, List.filter_eq_self, decide_eq_true_eq]
  rintro other member rfl
  exact fresh member

namespace Device

variable {device device' : Device} {action : Action}

theorem openFds_eq_openAfter (notDeleted : action.deletes = false)
    (applied : device.apply action = some device') :
    device'.openFds = action.openAfter device.openFds := by
  by_cases keeps : action.keepsDescriptors = true
  · rw [openFds_of_apply keeps applied]
    cases action <;> first | rfl | cases keeps
  · cases action with
    | openDev fd =>
        simp only [apply] at applied
        split at applied
        · rename_i failed
          cases applied
          simp [Action.openAfter, Int.not_le.mpr failed]
        · rename_i opened
          split at applied
          · cases applied
          · cases applied
            simp [Action.openAfter, Int.not_lt.mp opened]
    | closeFd fd =>
        cases applied
        rfl
    | clearFd =>
        cases applied
        rfl
    | deleteCamera fd => cases notDeleted
    | _ => exact absurd rfl keeps

/-- The kernel hands out no descriptor twice. -/
theorem nodup_openAfter (distinct : device.openFds.Nodup)
    (applied : device.apply action = some device') :
    (action.openAfter device.openFds).Nodup := by
  cases action with
  | openDev fd =>
      simp only [apply] at applied
      split at applied
      · rename_i failed
        simpa [Action.openAfter, Int.not_le.mpr failed] using distinct
      · rename_i opened
        split at applied
        · cases applied
        · rename_i fresh
          simpa [Action.openAfter, Int.not_lt.mp opened] using ⟨fresh, distinct⟩
  | closeFd fd => exact distinct.filter _
  | _ => exact distinct

end Device

/-- The descriptor an action hands to the kernel. -/
def Action.systemCall : Action → Option Int
  | .closeFd fd | .ioctl fd _ _ | .mapBuf fd _ _ _ | .select fd _ _ | .dequeueBuf fd _
  | .requeueBuf fd _ _ => some fd
  | _ => none

/-! ## An episode under way -/

/-- `openCamera` has called `open` and has not closed the device. -/
def OpenPc.pastOpen : OpenPc → Bool
  | .openDev | .clearFd | .returned _ => false
  | _ => true

@[simp]
theorem OpenPc.pastOpen_queueLoop (index : Nat) : (queueLoop index).pastOpen = true := by
  unfold queueLoop
  split <;> rfl

@[simp]
theorem OpenPc.pastOpen_mapLoop (index count : Nat) :
    (mapLoop index count).pastOpen = true := by
  unfold mapLoop
  split
  · rfl
  · exact pastOpen_queueLoop 0

theorem Pc.afterOpen_of_pastOpen {pc : OpenPc} (past : pc.pastOpen = true) :
    afterOpen pc = .opening pc := by
  cases pc <;> first | rfl | cases past

/-- What an action reads of `mFD`, and what it leaves there. -/
structure KeepsRecord (fd : Int) (action : Action) (fd' : Int) : Prop where
  observed : ∀ other, action = .readFd other ∨ action = .closeFd other → other = fd
  kept : action.keepsFd = true → fd' = fd
  opened : ∀ other, action = .openDev other → fd' = other
  cleared : action = .clearFd → fd' = -1

/-- Every system call takes its descriptor from `mFD`. -/
theorem Camera.eq_mFD_of_systemCall {camera camera' : Camera} {thread : ThreadId}
    {action : Action} {fd : Int} (calls : action.systemCall = some fd)
    (applied : camera.apply thread action = some camera') : fd = camera.mFD := by
  cases action with
  | closeFd | ioctl | mapBuf | select | dequeueBuf =>
      cases calls
      by_contra distinct
      simp [Camera.apply, distinct] at applied
  | requeueBuf =>
      cases calls
      by_contra distinct
      simp [Camera.apply, distinct] at applied
  | _ => cases calls

theorem KeepsRecord.of_apply {camera camera' : Camera} {thread : ThreadId} {action : Action}
    (applied : camera.apply thread action = some camera') :
    KeepsRecord camera.mFD action camera'.mFD where
  observed := by
    rintro other (rfl | rfl)
    · exact Camera.eq_mFD_of_readFd applied
    · by_contra distinct
      simp [Camera.apply, distinct] at applied
  kept := Camera.mFD_of_apply applied
  opened := by
    rintro other rfl
    cases applied
    rfl
  cleared := by
    rintro rfl
    cases applied
    rfl

/-- What stands in the record of the episode the acting thread is in, by the point it has
reached: `fd` is `mFD`, the two lists are the entries so far and the descriptors they leave
open. -/
inductive Underway (fd : Int) (actor : ThreadId) : Pc → List Entry → List Int → Prop
  | resting {pc : Pc} : pc.bystander = true → Underway fd actor pc [] []
  | called : Underway fd actor .startGet [] []
  | begun : Underway fd actor (.opening .openDev) [] []
  | refused {pc : OpenPc} :
      pc = .testFd ∨ pc = .returnFd → fd < 0 → Underway fd actor (.opening pc) [] []
  | opening {pc : OpenPc} :
      pc.pastOpen = true → 0 ≤ fd →
      Underway fd actor (.opening pc) [(actor, .opened fd)] [fd]
  | rollingBack :
      Underway fd actor (.opening .clearFd) [(actor, .opened fd), (actor, .closed fd)] []
  | spawning : 0 < fd → Underway fd actor .spawning [(actor, .opened fd)] [fd]
  | created {opener : ThreadId} :
      0 < fd →
      Underway fd actor (.capturing true .getCamera) (Episode.begun opener actor fd false) [fd]
  | capturing {opener : ThreadId} {first : Bool} {pc : CapturePc} :
      0 < fd → pc.deviceOpen = true → pc.agrees first = true →
      Underway fd actor (.capturing first pc) (Episode.begun opener actor fd (!first)) [fd]
  | closing {opener : ThreadId} {first : Bool} :
      Underway fd actor (.capturing first .clearFd)
        (Episode.begun opener actor fd (!first) ++ [(actor, .closed fd)]) []
  | failing {opener : ThreadId} {first : Bool} {was : Int} :
      Underway fd actor (.capturing first .notifyError)
        (Episode.begun opener actor was (!first) ++ [(actor, .closed was)]) []

/-- After a step of the acting thread: it may have ended an episode, and is further in the
one under way. -/
structure Continues (actor : ThreadId) (action : Action) (written : List Entry)
    (fds : List Int) (fd' : Int) (pc' : Pc) : Prop where
  intro ::
  episodes : ∃ ended written' fds', Underway fd' actor pc' written' fds' ∧
    written ++ action.entry actor = ended.flatMap Episode.entries ++ written' ∧
    ∀ others, (fds ++ others).Nodup →
      action.openAfter (fds ++ others) = fds' ++ (Episode.left ended ++ others)

namespace Underway

variable {fd fd' : Int} {actor : ThreadId} {pc pc' : Pc} {action : Action}
  {written : List Entry} {fds : List Int}

theorem continues_unmarked (underway : Underway fd' actor pc' written fds)
    (unmarked : action.mark = none) : Continues actor action written fds fd' pc' := by
  refine ⟨[], written, fds, underway, ?_, ?_⟩
  · simp [Action.entry, unmarked]
  · intro others distinct
    cases action with
    | openDev fd =>
        have failed : ¬ 0 ≤ fd := by
          intro opened
          simp [Action.mark, opened] at unmarked
        simp [Action.openAfter, failed, Episode.left]
    | closeFd => cases unmarked
    | _ => rfl

theorem unmarked_of_draws (draws : action.draws = true) : action.mark = none := by
  cases action <;> first | rfl | cases draws

/-- One step of `openCamera`. -/
theorem of_open_move {pc pc' : OpenPc} (underway : Underway fd actor (.opening pc) written fds)
    (move : OpenPc.Move pc action pc') (keeps : KeepsRecord fd action fd') :
    Continues actor action written fds fd' (Pc.afterOpen pc') := by
  cases underway with
  | resting stands => cases stands
  | begun =>
      cases move with
      | requestFailed requests => cases requests
      | @openDev other =>
          cases keeps.opened other rfl
          by_cases failed : fd' < 0
          · exact continues_unmarked (.refused (Or.inl rfl) failed)
              (by simp [Action.mark, Int.not_le.mpr failed])
          · have nonneg : 0 ≤ fd' := by omega
            refine ⟨[], _, _, .opening rfl nonneg, ?_, ?_⟩
            · simp [Action.entry, Action.mark, nonneg]
            · intro others _
              simp [Action.openAfter, nonneg, Episode.left]
  | refused place failed =>
      cases move with
      | openFailed =>
          cases keeps.kept rfl
          exact continues_unmarked (.refused (Or.inr rfl) failed) rfl
      | opened nonneg =>
          have same := keeps.observed _ (Or.inl rfl)
          omega
      | @returnFd other =>
          cases keeps.kept rfl
          cases keeps.observed _ (Or.inl rfl)
          rw [Pc.afterOpen, if_neg (by omega : ¬ 0 < fd)]
          exact continues_unmarked (.resting rfl) rfl
      | requestFailed requests => rcases place with rfl | rfl <;> cases requests
      | _ => rcases place with place | place <;> cases place
  | opening past nonneg =>
      have onward : ∀ {next : OpenPc}, next.pastOpen = true → action.keepsFd = true →
          action.mark = none →
          Continues actor action [(actor, .opened fd)] [fd] fd' (Pc.afterOpen next) := by
        intro next still keepsFd unmarked
        cases keeps.kept keepsFd
        rw [Pc.afterOpen_of_pastOpen still]
        exact continues_unmarked (.opening still nonneg) unmarked
      cases move with
      | openDev | clearFd => cases past
      | openFailed negative =>
          have same := keeps.observed _ (Or.inl rfl)
          omega
      | reqBufs | mapBuf => exact onward (OpenPc.pastOpen_mapLoop _ _) rfl rfl
      | queueBuf => exact onward (OpenPc.pastOpen_queueLoop _) rfl rfl
      | @closeFd other =>
          cases keeps.kept rfl
          cases keeps.observed _ (Or.inr rfl)
          refine ⟨[], _, _, .rollingBack, rfl, ?_⟩
          intro others distinct
          exact Action.openAfter_close distinct
      | @returnFd other =>
          cases keeps.kept rfl
          cases keeps.observed _ (Or.inl rfl)
          by_cases positive : 0 < fd
          · rw [Pc.afterOpen, if_pos positive]
            exact continues_unmarked (.spawning positive) rfl
          · have zero : fd = 0 := by omega
            subst zero
            refine ⟨[.unused actor], [], [], .resting rfl, rfl, ?_⟩
            intro others _
            rfl
      | _ => exact onward rfl rfl rfl
  | rollingBack =>
      cases move with
      | requestFailed requests => cases requests
      | clearFd =>
          cases keeps.cleared rfl
          refine ⟨[.rolledBack actor fd], [], [], .refused (Or.inr rfl) (by omega), rfl, ?_⟩
          intro others _
          rfl

/-- One step of the capture program on an attached camera. -/
theorem of_capture_move {first first' : Bool} {pc pc' : CapturePc}
    (underway : Underway fd actor (.capturing first pc) written fds)
    (move : CapturePc.Move first pc action first' pc') (keeps : KeepsRecord fd action fd')
    (attached : action ≠ .getCamera false) :
    Continues actor action written fds fd' (Pc.afterCapture first' pc') := by
  cases underway with
  | resting stands => cases stands
  | created positive =>
      cases move with
      | attached =>
          cases keeps.kept rfl
          exact continues_unmarked (.capturing positive rfl rfl) rfl
      | detached => exact absurd rfl attached
  | @capturing opener _ _ positive uses agreed =>
      have agreed' := move.agrees agreed
      have onward : pc'.deviceOpen = true → action.keepsFd = true → action.mark = none →
          first' = first →
          Continues actor action (Episode.begun opener actor fd (!first)) [fd] fd'
            (Pc.afterCapture first' pc') := by
        rintro still keepsFd unmarked rfl
        cases keeps.kept keepsFd
        have placed : Pc.afterCapture first' pc' = .capturing first' pc' := by
          cases pc' <;> first | rfl | cases still
        rw [placed]
        exact continues_unmarked (.capturing positive still agreed') unmarked
      cases move with
      | attached | detached | clearFd | notifyError => cases uses
      | notOpen negative =>
          have same := keeps.observed _ (Or.inl rfl)
          omega
      | stillRunning => exact onward (CapturePc.deviceOpen_afterSelect _ _) rfl rfl rfl
      | dequeueBuf => exact onward (CapturePc.deviceOpen_afterDequeue _ _) rfl rfl rfl
      | preview drawn =>
          have draws := PreviewPc.draws_of_next drawn
          exact onward (by split <;> rfl) (Action.keepsFd_of_keepsDescriptors
            (Action.keepsDescriptors_of_draws draws))
            (unmarked_of_draws draws) rfl
      | encoder drawn =>
          have draws := EncoderPc.draws_of_next drawn
          exact onward (by split <;> rfl) (Action.keepsFd_of_keepsDescriptors
            (Action.keepsDescriptors_of_draws draws))
            (unmarked_of_draws draws) rfl
      | notifyFirst =>
          cases keeps.kept rfl
          have isFirst : first = true := agreed
          subst isFirst
          refine ⟨[], _, _, .capturing positive rfl agreed', rfl, ?_⟩
          intro others _
          rfl
      | notifyStop =>
          refine ⟨[.stopped opener actor fd (!first)], [], [], .resting rfl, ?_, ?_⟩
          · simp [Episode.entries, Action.entry, Action.mark]
          · intro others _
            rfl
      | @closeFd other =>
          cases keeps.kept rfl
          cases keeps.observed _ (Or.inr rfl)
          refine ⟨[], _, _, .closing, rfl, ?_⟩
          intro others distinct
          exact Action.openAfter_close distinct
      | _ => exact onward rfl rfl rfl rfl
  | closing =>
      cases move with
      | clearFd => exact continues_unmarked .failing rfl
  | @failing opener _ was =>
      cases move with
      | notifyError =>
          refine ⟨[.failed opener actor was (!first)], [], [], .resting rfl, ?_, ?_⟩
          · simp [Episode.entries, Action.entry, Action.mark]
          · intro others _
            rfl

/-- One step of a thread that has to do with the device, other than creating the capture
thread. -/
theorem of_move (underway : Underway fd actor pc written fds) (busy : pc.bystander = false)
    (move : Pc.Move pc action pc') (keeps : KeepsRecord fd action fd')
    (attached : action ≠ .getCamera false) (notSpawn : ∀ child, action ≠ .spawn child) :
    Continues actor action written fds fd' pc' := by
  cases move with
  | opening inner => exact underway.of_open_move inner keeps
  | capturing inner => exact underway.of_capture_move inner keeps attached
  | spawn => exact absurd rfl (notSpawn _)
  | startDetached => exact absurd rfl attached
  | startAttached =>
      cases underway with
      | resting stands => cases stands
      | called => exact continues_unmarked .begun rfl
  | call | stopAttached | stopDetached | stop | surface => cases busy
  | releaseAttached | releaseDetached | releaseStop | delete | clear =>
      cases underway with
      | resting stands => cases stands

/-- Before `release()` the object is neither deleted nor detached. -/
theorem keepsObject (underway : Underway fd actor pc written fds)
    (move : Pc.Move pc action pc') : action.deletes = false ∧ action ≠ .clearCamera := by
  constructor
  · cases action with
    | deleteCamera other =>
        rw [(Pc.delete_of_move move).1] at underway
        cases underway with
        | resting stands => cases stands
    | _ => rfl
  · rintro rfl
    rw [Pc.clearCamera_of_move move] at underway
    cases underway with
    | resting stands => cases stands

/-- Whoever makes a system call has the device open. -/
theorem open_of_systemCall (underway : Underway fd actor pc written fds)
    (move : Pc.Move pc action pc') (calls : action.systemCall = some fd) : fd ∈ fds := by
  cases underway with
  | opening | spawning | created | capturing => simp
  | resting stands =>
      cases move with
      | opening | capturing => cases stands
      | surface inner =>
          have own := SurfacePc.own_of_next inner
          cases action <;> cases calls <;> cases own
      | _ => cases calls
  | called => cases move <;> cases calls
  | begun =>
      cases move with
      | opening inner =>
          cases inner with
          | requestFailed requests => cases requests
          | _ => cases calls
  | refused place =>
      cases move with
      | opening inner =>
          cases inner with
          | openFailed | opened | returnFd => cases calls
          | requestFailed requests => rcases place with rfl | rfl <;> cases requests
          | _ => rcases place with place | place <;> cases place
  | rollingBack =>
      cases move with
      | opening inner =>
          cases inner with
          | requestFailed requests => cases requests
          | _ => cases calls
  | closing | failing =>
      cases move with
      | capturing inner => cases inner; cases calls

theorem eq_nil_of_bystander (underway : Underway fd actor pc written fds)
    (stands : pc.bystander = true) : written = [] ∧ fds = [] := by
  cases underway with
  | resting => exact ⟨rfl, rfl⟩
  | _ => cases stands

/-- An episode under way is the beginning of one. -/
theorem prefix_entries (underway : Underway fd actor pc written fds) :
    ∃ episode : Episode, written <+: episode.entries := by
  cases underway with
  | resting | called | begun | refused => exact ⟨.unused actor, List.nil_prefix⟩
  | opening | spawning => exact ⟨.rolledBack actor fd, [(actor, .closed fd)], rfl⟩
  | rollingBack => exact ⟨.rolledBack actor fd, List.prefix_rfl⟩
  | @created opener => exact ⟨.stopped opener actor fd false, List.prefix_append _ _⟩
  | @capturing opener first => exact ⟨.stopped opener actor fd (!first), List.prefix_append _ _⟩
  | @closing opener first =>
      refine ⟨.failed opener actor fd (!first), [(actor, .told .cameraError)], ?_⟩
      simp [Episode.entries]
  | @failing opener first was =>
      refine ⟨.failed opener actor was (!first), [(actor, .told .cameraError)], ?_⟩
      simp [Episode.entries]

end Underway

/-! ## The whole life -/

namespace World

/-- When `start()` is called, nobody is opening the device and no capture thread
exists. -/
def StartsAlone (world : World) (event : Event) : Prop :=
  ∀ thread, event.2.method = some .start → (world.threads thread).bystander = true

/-- At most one thread has to do with the device; what it and its predecessors have done
is recorded. -/
structure Lives (episodes : List Episode) (actor : ThreadId) (events : List Event)
    (world : World) : Prop where
  others : ∀ other, other ≠ actor → (world.threads other).bystander = true
  attached : world.mNativeObject = true
  distinct : world.device.openFds.Nodup
  underway : ∃ written fds, Underway world.camera.mFD actor (world.threads actor) written fds ∧
    record events = episodes.flatMap Episode.entries ++ written ∧
    world.device.openFds = fds ++ Episode.left episodes

/-- Some thread has to do with the device. -/
def Lived (events : List Event) (world : World) : Prop :=
  ∃ episodes actor, Lives episodes actor events world

theorem lives_attached (width height : Int) : Lives [] userThread [] (attached width height) where
  others := fun _ _ => rfl
  attached := rfl
  distinct := List.nodup_nil
  underway := ⟨[], [], .resting rfl, rfl, rfl⟩

/-- The world is one such a life leads to. -/
def HasLived (world : World) : Prop :=
  ∃ events, Lived events world

theorem hasLived_attached (width height : Int) : HasLived (attached width height) :=
  ⟨[], [], userThread, lives_attached width height⟩

section Steps

variable {world next : World} {events : List Event} {episodes : List Episode}
  {actor mover : ThreadId} {action : Action}

theorem attached_of_step (isAttached : world.mNativeObject = true)
    (notCleared : action ≠ .clearCamera) (stepped : world.step (mover, action) = some next) :
    next.mNativeObject = true ∧ action ≠ .getCamera false := by
  have pointer := pointer_of_step stepped
  rw [isAttached] at pointer
  constructor
  · unfold applyPointer at pointer
    split at pointer
    · split at pointer <;> simp_all
    · exact absurd rfl notCleared
    · exact (Option.some.inj pointer).symm
  · rintro rfl
    simp [applyPointer] at pointer

theorem record_append (events : List Event) (thread : ThreadId) (action : Action) :
    record (events ++ [(thread, action)]) = record events ++ action.entry thread := by
  simp [record]

/-- The capture thread takes over from the thread that has opened the device. -/
theorem Lives.spawn {child : ThreadId} (lives : Lives episodes actor events world)
    (stepped : world.step (actor, .spawn child) = some next) :
    Lives episodes child (events ++ [(actor, .spawn child)]) next := by
  obtain ⟨written, fds, underway, told, isOpen⟩ := lives.underway
  have move := move_of_step stepped
  have spawning := Pc.spawning_of_move move
  rw [spawning] at move underway
  have fd := Camera.mFD_of_apply (camera_of_step stepped) rfl
  have openFds := Device.openFds_of_apply rfl (device_of_step stepped)
  refine ⟨?_, (attached_of_step lives.attached (by simp) stepped).1, ?_, ?_⟩
  · intro other distinct
    by_cases isActor : other = actor
    · rw [isActor]
      generalize next.threads actor = after at move
      cases move
      rfl
    · rcases other_of_step stepped isActor with same | ⟨spawned, -, -⟩
      · rw [same]
        exact lives.others other isActor
      · exact absurd (Action.spawn.inj spawned).symm distinct
  · rw [openFds]
    exact lives.distinct
  · cases underway with
    | resting stands => cases stands
    | spawning positive =>
        refine ⟨Episode.begun actor child world.camera.mFD false, [world.camera.mFD],
          ?_, ?_, ?_⟩
        · rw [spawned_of_step stepped, fd]
          exact .created positive
        · rw [record_append, told, List.append_assoc]
          rfl
        · rw [openFds, isOpen]

/-- Every other step of the acting thread. -/
theorem Lives.step_actor (lives : Lives episodes actor events world)
    (busy : (world.threads actor).bystander = false) (notSpawn : ∀ child, action ≠ .spawn child)
    (stepped : world.step (actor, action) = some next) :
    ∃ episodes', Lives episodes' actor (events ++ [(actor, action)]) next := by
  obtain ⟨written, fds, underway, told, isOpen⟩ := lives.underway
  have move := move_of_step stepped
  obtain ⟨notDeleted, notCleared⟩ := underway.keepsObject move
  obtain ⟨isAttached, attached⟩ := attached_of_step lives.attached notCleared stepped
  have kernel := device_of_step stepped
  have openFds := Device.openFds_eq_openAfter notDeleted kernel
  obtain ⟨ended, written', fds', underway', told', open'⟩ :=
    (underway.of_move busy move (KeepsRecord.of_apply (camera_of_step stepped)) attached
      notSpawn).episodes
  refine ⟨episodes ++ ended, ?_, isAttached, ?_, written', fds', underway', ?_, ?_⟩
  · intro other distinct
    rcases other_of_step stepped distinct with same | ⟨spawned, -, -⟩
    · rw [same]
      exact lives.others other distinct
    · exact absurd spawned (notSpawn other)
  · rw [openFds]
    exact Device.nodup_openAfter lives.distinct kernel
  · rw [record_append, told, List.append_assoc, told', List.flatMap_append, List.append_assoc]
  · rw [openFds, isOpen, open' _ (isOpen ▸ lives.distinct), Episode.left_append]

theorem Lives.step_bystander (lives : Lives episodes actor events world)
    (stands : (world.threads mover).bystander = true) (call : SessionCall (mover, action))
    (stepped : world.step (mover, action) = some next) :
    Lives episodes actor (events ++ [(mover, action)]) next := by
  obtain ⟨written, fds, underway, told, isOpen⟩ := lives.underway
  obtain ⟨still, stood, unmoved⟩ := bystander_of_step stands call stepped
  have keeps := Action.keepsDescriptors_of_bystander stood
  have unmarked : action.mark = none := by cases action <;> first | rfl | cases stood
  have notCleared : action ≠ .clearCamera := by
    rintro rfl
    cases stood
  have fd := Camera.mFD_of_apply (camera_of_step stepped)
    (Action.keepsFd_of_keepsDescriptors keeps)
  have openFds := Device.openFds_of_apply keeps (device_of_step stepped)
  refine ⟨?_, (attached_of_step lives.attached notCleared stepped).1, ?_,
    written, fds, ?_, ?_, ?_⟩
  · intro other distinct
    by_cases moves : other = mover
    · rw [moves]
      exact still
    · rw [unmoved other moves]
      exact lives.others other distinct
  · rw [openFds]
    exact lives.distinct
  · rw [fd]
    by_cases moves : actor = mover
    · rw [moves] at underway ⊢
      obtain ⟨rfl, rfl⟩ := underway.eq_nil_of_bystander stands
      exact .resting still
    · rw [unmoved actor moves]
      exact underway
  · simp [record_append, Action.entry, unmarked, told]
  · rw [openFds, isOpen]

/-- `start()` is called by a thread outside the native code. -/
theorem Lives.start (lives : Lives episodes actor events world)
    (alone : ∀ thread, (world.threads thread).bystander = true)
    (stepped : world.step (mover, .call .start) = some next) :
    Lives episodes mover (events ++ [(mover, .call .start)]) next := by
  obtain ⟨written, fds, underway, told, isOpen⟩ := lives.underway
  obtain ⟨rfl, rfl⟩ := underway.eq_nil_of_bystander (alone actor)
  have move := move_of_step stepped
  have openFds := Device.openFds_of_apply rfl (device_of_step stepped)
  refine ⟨?_, (attached_of_step lives.attached (by simp) stepped).1, ?_, [], [], ?_, ?_, ?_⟩
  · intro other distinct
    rcases other_of_step stepped distinct with same | ⟨spawned, -, -⟩
    · rw [same]
      exact alone other
    · cases spawned
  · rw [openFds]
    exact lives.distinct
  · have standing := alone mover
    generalize world.threads mover = before at move standing
    generalize next.threads mover = after at move
    cases move with
    | call => exact .called
    | opening | capturing => cases standing
    | surface inner => cases SurfacePc.own_of_next inner
  · simp [record_append, Action.entry, Action.mark, told]
  · rw [openFds, isOpen]

theorem Lives.step (lives : Lives episodes actor events world)
    (unreleased : Unreleased (mover, action)) (alone : StartsAlone world (mover, action))
    (stepped : world.step (mover, action) = some next) :
    Lived (events ++ [(mover, action)]) next := by
  by_cases starts : action.method = some .start
  · cases Action.eq_call_of_method starts
    exact ⟨episodes, mover, lives.start (fun thread => alone thread starts) stepped⟩
  · by_cases stands : (world.threads mover).bystander = true
    · refine ⟨episodes, actor, lives.step_bystander stands ?_ stepped⟩
      rintro entry called
      exact ⟨fun same => starts (same ▸ called), fun same => unreleased (same ▸ called)⟩
    · have acts : mover = actor := by
        by_contra distinct
        exact stands (lives.others mover distinct)
      subst acts
      by_cases spawns : ∃ child, action = .spawn child
      · obtain ⟨child, rfl⟩ := spawns
        exact ⟨episodes, child, lives.spawn stepped⟩
      · obtain ⟨episodes', lives'⟩ := lives.step_actor (by simpa using stands)
          (fun child spawned => spawns ⟨child, spawned⟩) stepped
        exact ⟨episodes', mover, lives'⟩

/-- A bystander makes no system call. -/
theorem Lived.systemCall_open (lived : Lived events world)
    (stepped : world.step (mover, action) = some next) :
    ∀ fd ∈ action.systemCall, fd ∈ world.device.openFds := by
  intro fd calls
  obtain ⟨episodes, actor, lives⟩ := lived
  obtain ⟨written, fds, underway, told, isOpen⟩ := lives.underway
  have move := move_of_step stepped
  have recorded := Camera.eq_mFD_of_systemCall calls (camera_of_step stepped)
  subst recorded
  by_cases acts : mover = actor
  · subst acts
    rw [isOpen]
    exact List.mem_append_left _ (underway.open_of_systemCall move calls)
  · have stands : Underway world.camera.mFD mover (world.threads mover) [] [] :=
      .resting (lives.others mover acts)
    cases stands.open_of_systemCall move calls

end Steps

/-- A record is one whole episode after another, with the beginning of the next; when every
thread is out of `start()` and of the capture program nothing of it is missing, and the open
descriptors are those the episodes left open. -/
structure Chronicle (events : List Event) (world : World) (episodes : List Episode)
    (written : List Entry) : Prop where
  recorded : record events = episodes.flatMap Episode.entries ++ written
  begun : ∃ episode : Episode, written <+: episode.entries
  atRest : (∀ thread, (world.threads thread).bystander = true) →
    written = [] ∧ world.device.openFds = Episode.left episodes

/-- The kernel is called on an open descriptor only. -/
def CallsOpen (world : World) (event : Event) : Prop :=
  ∀ fd ∈ event.2.systemCall, fd ∈ world.device.openFds

section Runs

variable {width height : Int} {events : List Event} {final : World}

theorem lived_of_run (unreleased : ∀ event ∈ events, Unreleased event)
    (alone : EveryStep StartsAlone (attached width height) events)
    (ran : run (attached width height) events = some final) :
    Lived events final := by
  have begins : Lived [] (attached width height) :=
    ⟨[], userThread, lives_attached width height⟩
  refine LabelledRun.history_of_run ?_ begins
    ((LabelledRun.everyStep_of_forall_mem unreleased).and alone) ran
  rintro before world ⟨mover, action⟩ next ⟨episodes, actor, lives⟩ conditions stepped
  exact lives.step conditions.1 conditions.2 stepped

/-- The life of a camera that is started only when the last capture has ended. -/
theorem chronicle_of_run (unreleased : ∀ event ∈ events, Unreleased event)
    (alone : EveryStep StartsAlone (attached width height) events)
    (ran : run (attached width height) events = some final) :
    ∃ episodes written, Chronicle events final episodes written := by
  obtain ⟨episodes, actor, lives⟩ := lived_of_run unreleased alone ran
  obtain ⟨written, fds, underway, told, isOpen⟩ := lives.underway
  refine ⟨episodes, written, told, underway.prefix_entries, ?_⟩
  intro rests
  obtain ⟨rfl, rfl⟩ := underway.eq_nil_of_bystander (rests actor)
  exact ⟨rfl, isOpen⟩

end Runs

theorem startsAlone_restart : EveryStep StartsAlone (attached 640 480) restartEvents := by
  have within : ∀ event ∈ restartEvents, Within [0, 1, 2] event := by decide
  refine (confined_attached 640 480).everyStep ?_ within (by decide +kernel)
  intro world event thread idle _
  rw [idle]
  rfl

theorem chronicle_restart :
    ∃ final episodes written, run (attached 640 480) restartEvents = some final ∧
      Chronicle restartEvents final episodes written := by
  obtain ⟨final, ran⟩ := Option.isSome_iff_exists.mp
    (by decide : (run (attached 640 480) restartEvents).isSome = true)
  obtain ⟨episodes, written, chronicle⟩ :=
    chronicle_of_run (by decide) startsAlone_restart ran
  exact ⟨final, episodes, written, ran, chronicle⟩

section Runs

variable {width height : Int} {events : List Event} {final : World}

/-- In such a life every system call is made on a descriptor that is open: none is used
before it is opened or after it is closed, and none is closed twice. -/
theorem callsOpen_of_run (unreleased : ∀ event ∈ events, Unreleased event)
    (alone : EveryStep StartsAlone (attached width height) events)
    (ran : run (attached width height) events = some final) :
    EveryStep CallsOpen (attached width height) events := by
  refine LabelledRun.everyStep_of_invariant ?_ ?_ (hasLived_attached width height)
    ((LabelledRun.everyStep_of_forall_mem unreleased).and alone) ran
  · rintro world ⟨mover, action⟩ next ⟨before, episodes, actor, lives⟩ conditions stepped
    exact ⟨_, lives.step conditions.1 conditions.2 stepped⟩
  · rintro world ⟨mover, action⟩ next ⟨before, lived⟩ - stepped
    exact lived.systemCall_open stepped

end Runs

theorem callsOpen_restart :
    EveryStep CallsOpen (attached 640 480) restartEvents := by
  obtain ⟨final, ran⟩ := Option.isSome_iff_exists.mp
    (by decide : (run (attached 640 480) restartEvents).isSome = true)
  exact callsOpen_of_run (by decide) startsAlone_restart ran

end World

end UsbCamera
