import UsbCamera.ProgramSteps

/-!
# One user thread that starts and stops the camera

The runs in which a single thread calls the methods of `Camera.java`, and calls
only `start()` and `stop()`.  Every other thread that is inside the native code is
then a capture thread some `start()` has created.
-/

namespace UsbCamera

/-- The thread that calls `start()` and `stop()`. -/
def userThread : ThreadId := 0

/-- Only the user thread calls, and only `start()` and `stop()`. -/
def UserCall (event : Event) : Prop :=
  ∀ entry ∈ event.2.method, event.1 = userThread ∧ (entry = .start ∨ entry = .stop)

instance (event : Event) : Decidable (UserCall event) :=
  inferInstanceAs (Decidable (∀ entry ∈ event.2.method, _))

namespace Pc

/-- Inside `start()`. -/
def starting : Pc → Bool
  | .startGet | .opening _ | .spawning => true
  | _ => false

/-- Where a thread that only calls `start()` and `stop()` can be. -/
def ofUser : Pc → Bool
  | .idle | .startGet | .opening _ | .spawning | .stopGet | .stopWrite => true
  | _ => false

/-- Where a thread that makes no call can be. -/
def ofCapture : Pc → Bool
  | .idle | .capturing _ _ => true
  | _ => false

@[simp]
theorem ofUser_afterOpen (pc : OpenPc) : (afterOpen pc).ofUser = true := by
  cases pc
  case returned fd => by_cases positive : 0 < fd <;> simp [afterOpen, positive, ofUser]
  all_goals rfl

@[simp]
theorem ofCapture_afterCapture (first : Bool) (pc : CapturePc) :
    (afterCapture first pc).ofCapture = true := by
  cases pc <;> rfl

theorem ofUser_of_move {pc pc' : Pc} {action : Action} (user : pc.ofUser = true)
    (calls : ∀ entry, action = .call entry → entry = .start ∨ entry = .stop)
    (move : Move pc action pc') : pc'.ofUser = true := by
  cases move with
  | call =>
      rcases calls _ rfl with rfl | rfl <;> rfl
  | opening => simp
  | capturing | releaseAttached | releaseStop | delete | surface => cases user
  | _ => rfl

theorem ofCapture_of_move {pc pc' : Pc} {action : Action} (capture : pc.ofCapture = true)
    (noCall : ∀ entry, action ≠ .call entry) (move : Move pc action pc') :
    pc'.ofCapture = true := by
  cases move with
  | call => exact absurd rfl (noCall _)
  | capturing => simp
  | startAttached | opening | stopAttached | releaseAttached | releaseStop | delete
  | surface => cases capture
  | _ => rfl

theorem starting_of_move {pc pc' : Pc} {action : Action}
    (move : Move pc action pc') (starts : pc'.starting = true) :
    pc.starting = true ∨ action = .call .start := by
  cases move with
  | @call entry =>
      cases entry with
      | start => exact Or.inr rfl
      | stop | release => cases starts
      | setPreview jsurface | addEncoder jsurface | removeEncoder jsurface => cases starts
  | startAttached | opening => exact Or.inl rfl
  | @capturing _ first' _ pc' _ _ => cases pc' <;> cases starts
  | @surface _ pc' _ _ => cases pc' <;> cases starts
  | _ => cases starts

theorem spawning_of_move {pc pc' : Pc} {child : ThreadId}
    (move : Move pc (.spawn child) pc') : pc = .spawning := by
  cases move with
  | opening inner => cases inner.own
  | capturing inner =>
      rcases inner.own_or_draws with own | draws
      · cases own
      · cases draws
  | surface inner => cases SurfacePc.own_of_next inner
  | spawn => rfl

end Pc

namespace World

/-- What holds in every world a single user thread can reach. -/
structure SingleUser (world : World) : Prop where
  user : (world.threads userThread).ofUser = true
  others : ∀ thread, thread ≠ userThread → (world.threads thread).ofCapture = true

theorem singleUser_attached (width height : Int) :
    SingleUser (attached width height) :=
  ⟨rfl, fun _ _ => rfl⟩

theorem SingleUser.spawner {world next : World} (single : SingleUser world)
    {thread child : ThreadId} (stepped : world.step (thread, .spawn child) = some next) :
    thread = userThread ∧ world.threads userThread = .spawning := by
  have spawning := Pc.spawning_of_move (move_of_step stepped)
  by_cases user : thread = userThread
  · subst user
    exact ⟨rfl, spawning⟩
  · have capture := single.others thread user
    rw [spawning] at capture
    cases capture

theorem SingleUser.step {world next : World} {event : Event} (single : SingleUser world)
    (call : UserCall event) (stepped : world.step event = some next) :
    SingleUser next := by
  obtain ⟨thread, action⟩ := event
  have move := move_of_step stepped
  constructor
  · by_cases user : thread = userThread
    · subst user
      exact Pc.ofUser_of_move single.user
        (fun entry called => (call entry (by simp [called, Action.method])).2) move
    · rcases other_of_step stepped (Ne.symm user) with same | ⟨spawned, -, -⟩
      · rw [same]
        exact single.user
      · subst spawned
        exact absurd (single.spawner stepped).1 user
  · intro other notUser
    by_cases mover : other = thread
    · subst mover
      exact Pc.ofCapture_of_move (single.others other notUser)
        (fun entry called => notUser (call entry (by simp [called, Action.method])).1) move
    · rcases other_of_step stepped mover with same | ⟨-, -, begun⟩
      · rw [same]
        exact single.others other notUser
      · rw [begun]
        rfl

theorem singleUser_of_run {width height : Int} {events : List Event} {world : World}
    (calls : ∀ event ∈ events, UserCall event)
    (reached : run (attached width height) events = some world) : SingleUser world := by
  refine LabelledRun.invariant_of_run ?_ (singleUser_attached width height)
    (LabelledRun.everyStep_of_forall_mem calls) reached
  intro _ _ _ single call stepped
  exact single.step call stepped

end World

/-! ## A `start()` that succeeds -/

/-- The actions of an `openCamera` in which every system call succeeds and the
driver grants four buffers of `length` bytes. -/
def openActions (fd : Int) (format : PixFormat) (length : Nat) : List Action :=
  [.openDev fd, .readFd fd, .ioctl fd (.queryCap true) true, .ioctl fd (.setFmt format) true,
    .ioctl fd .setParm true, .ioctl fd .getParm true, .ioctl fd (.reqBufs bufferNR) true] ++
  (List.range bufferNR).flatMap (fun index =>
    [.ioctl fd (.queryBuf index length) true, .mapBuf fd index length true]) ++
  (List.range bufferNR).map (fun index => .ioctl fd (.queueBuf index) true) ++
  [.ioctl fd .streamOn true, .readFd fd, .readFd fd]

/-- The answer to `VIDIOC_S_FMT` that grants a packed YUYV picture of the given size. -/
def yuyvFormat (width height : Nat) : PixFormat :=
  ⟨width, height, 2 * width, 2 * width * height, 0x56595559⟩

def startActions (fd : Int) (child : ThreadId) : List Action :=
  [.call .start, .getCamera true] ++ openActions fd (yuyvFormat 640 480) (2 * 640 * 480) ++
    [.spawn child]

/-- A whole `start()` of the user thread that opens `fd` and creates `child`. -/
def startEvents (fd : Int) (child : ThreadId) : List Event :=
  (startActions fd child).map fun action => (userThread, action)

/-- A call of `stop()` up to the write that ends it. -/
def stopCallEvents : List Event :=
  [(userThread, .call .stop), (userThread, .getCamera true)]

/-- The capture thread up to the point where it sets `mPeekRun`. -/
def captureEntryEvents (fd : Int) (thread : ThreadId) : List Event :=
  [(thread, .getCamera true), (thread, .readFd fd)]

/-- A capture thread from its creation to the return of `select`. -/
def captureToSelectEvents (fd : Int) (thread : ThreadId) : List Event :=
  captureEntryEvents fd thread ++
    [(thread, .writePeek true), (thread, .loopTest true), (thread, .readFd fd),
      (thread, .select fd 1 0)]

/-- The capture thread sees the stop and returns. -/
def captureStopEvents (thread : ThreadId) : List Event :=
  [(thread, .recheck false), (thread, .writePeek false), (thread, .notify .captureStop)]

/-- A `release()` up to the deletion of the object. -/
def releaseEvents (fd : Int) (thread : ThreadId) : List Event :=
  [(thread, .call .release), (thread, .getCamera true), (thread, .writePeek false),
    (thread, .deleteCamera fd)]

end UsbCamera
