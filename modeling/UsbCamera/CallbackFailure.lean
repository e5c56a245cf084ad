import UsbCamera.NotificationDelivery

/-!
# Client callbacks that throw

`addClient`, `removeClient` and the three notify methods call client code between
`mClientLock.lock()` and `mClientLock.unlock()`, without a `try`.  The client code may call
the camera again on the same thread, and may throw.  Each of the five methods is failure
atomic in just the calls that run through: every callback returns, also inside the calls
that callbacks make, and a notification whose list is modified is at its end by then.
Everything else leaves the lock held more often than before.
-/

namespace UsbCamera

namespace JavaCamera

/-- What a callback of a client does before it returns or throws.  A call of the camera
goes on with `next` when it returns and with `handler` when it throws; a client that
does not catch has `throws` there.  `start()` and `stop()` touch neither the clients nor
their lock. -/
inductive Callback
  | returns
  | throws (thrown : Throwable)
  | addClient (client : ClientId) (isEncoder : Callback) (encoder : Bool)
      (getSurface : Callback) (jsurface : Option JSurface) (next handler : Callback)
  | removeClient (client : ClientId) (isEncoder : Callback) (encoder : Bool)
      (getSurface : Callback) (jsurface : Option JSurface) (next handler : Callback)
  | release (next handler : Callback)

namespace Delivery

/-- Make the call, and go on according to how it ends. -/
def attempt (call next handler : Delivering Unit) : Delivering Unit := fun delivery =>
  (call.exec delivery).bind fun ended =>
    match ended.1 with
    | .ok () => next.exec ended.2
    | .error _ => handler.exec ended.2

end Delivery

namespace Callback

/-- The callback is performed on the thread that called it, inside `mClientLock`. -/
def perform : Callback → Delivering Unit
  | .returns => pure ()
  | .throws thrown => throw thrown
  | .addClient client isEncoder encoder getSurface jsurface next handler =>
      Delivery.attempt
        (Delivery.addClient client (do isEncoder.perform; pure encoder)
          (do getSurface.perform; pure jsurface))
        next.perform handler.perform
  | .removeClient client isEncoder encoder getSurface jsurface next handler =>
      Delivery.attempt
        (Delivery.removeClient client (do isEncoder.perform; pure encoder)
          (do getSurface.perform; pure jsurface))
        next.perform handler.perform
  | .release next handler =>
      Delivery.attempt (Delivery.onCamera JavaCamera.release) next.perform handler.perform

/-- The list of clients a callback leaves when every call in it returns. -/
def leaves : Callback → FailFastList ClientId → FailFastList ClientId
  | .returns, clients | .throws _, clients => clients
  | .addClient client isEncoder _ getSurface _ next _, clients =>
      next.leaves (getSurface.leaves (isEncoder.leaves (clients.add client)))
  | .removeClient client isEncoder encoder getSurface _ next _, clients =>
      let asked := isEncoder.leaves (clients.remove client)
      next.leaves (if encoder then getSurface.leaves asked else asked)
  | .release next _, clients => next.leaves clients.withoutFirst

/-- The callback returns, and so does every call in it, at any depth.  `removeClient` asks
an encoder only for its surface, and `release()` gets through a list of two. -/
def RunsThrough : Callback → FailFastList ClientId → Prop
  | .returns, _ => True
  | .throws _, _ => False
  | .addClient client isEncoder _ getSurface _ next _, clients =>
      let asked := isEncoder.leaves (clients.add client)
      isEncoder.RunsThrough (clients.add client) ∧ getSurface.RunsThrough asked ∧
        next.RunsThrough (getSurface.leaves asked)
  | .removeClient client isEncoder encoder getSurface _ next _, clients =>
      let asked := isEncoder.leaves (clients.remove client)
      isEncoder.RunsThrough (clients.remove client) ∧
        (encoder = true → getSurface.RunsThrough asked) ∧
        next.RunsThrough (if encoder then getSurface.leaves asked else asked)
  | .release next _, clients =>
      clients.items.length ≤ 2 ∧ next.RunsThrough clients.withoutFirst

instance decidableRunsThrough :
    ∀ (callback : Callback) (clients : FailFastList ClientId),
      Decidable (callback.RunsThrough clients)
  | .returns, _ => inferInstanceAs (Decidable True)
  | .throws _, _ => inferInstanceAs (Decidable False)
  | .addClient client isEncoder _ getSurface _ next _, clients =>
      have := decidableRunsThrough isEncoder (clients.add client)
      have := decidableRunsThrough getSurface (isEncoder.leaves (clients.add client))
      have := decidableRunsThrough next
        (getSurface.leaves (isEncoder.leaves (clients.add client)))
      inferInstanceAs (Decidable (_ ∧ _ ∧ _))
  | .removeClient client isEncoder encoder getSurface _ next _, clients =>
      have := decidableRunsThrough isEncoder (clients.remove client)
      have := decidableRunsThrough getSurface (isEncoder.leaves (clients.remove client))
      have := decidableRunsThrough next
        (if encoder then getSurface.leaves (isEncoder.leaves (clients.remove client))
          else isEncoder.leaves (clients.remove client))
      inferInstanceAs (Decidable (_ ∧ (encoder = true → _) ∧ _))
  | .release next _, clients =>
      have := decidableRunsThrough next clients.withoutFirst
      inferInstanceAs (Decidable (_ ≤ 2 ∧ _))

end Callback

/-- What the notification callbacks of the clients do, given the clients called back before
in the same notification. -/
structure Callbacks where
  onFirstCapture : List ClientId → ClientId → Int → Callback
  onCaptureStop : List ClientId → ClientId → Callback
  onCameraError : List ClientId → ClientId → Callback

/-- A call of one of the methods that call clients back, with what the callbacks do. -/
inductive LockedCall
  | addClient (client : ClientId) (isEncoder : Callback) (encoder : Bool)
      (getSurface : Callback) (jsurface : Option JSurface)
  | removeClient (client : ClientId) (isEncoder : Callback) (encoder : Bool)
      (getSurface : Callback) (jsurface : Option JSurface)
  | notifyFirstCapture (callbacks : Callbacks) (timestampUS : Int)
  | notifyCaptureStop (callbacks : Callbacks)
  | notifyCameraError (callbacks : Callbacks)

namespace LockedCall

def method : LockedCall → Delivering Unit
  | .addClient client isEncoder encoder getSurface jsurface =>
      Delivery.addClient client (do isEncoder.perform; pure encoder)
        (do getSurface.perform; pure jsurface)
  | .removeClient client isEncoder encoder getSurface jsurface =>
      Delivery.removeClient client (do isEncoder.perform; pure encoder)
        (do getSurface.perform; pure jsurface)
  | .notifyFirstCapture callbacks timestampUS =>
      Delivery.notifyClients fun told client =>
        (callbacks.onFirstCapture told client timestampUS).perform
  | .notifyCaptureStop callbacks =>
      Delivery.notifyClients fun told client => (callbacks.onCaptureStop told client).perform
  | .notifyCameraError callbacks =>
      Delivery.notifyClients fun told client => (callbacks.onCameraError told client).perform

/-- What a call returns or throws, and the camera it leaves. -/
def outcome (call : LockedCall) (camera : JavaCamera) :
    Option (Except Throwable Unit × JavaCamera) :=
  (call.method.exec ⟨camera, []⟩).map fun ended => (ended.1, ended.2.camera)

/-- The call changes the list of clients. -/
def updates : LockedCall → Bool
  | .addClient .. | .removeClient .. => true
  | _ => false

/-- The call ends with the lock held as often as before, and an `addClient` or
`removeClient` that throws leaves the clients and the native surfaces as they were. -/
def FailureAtomic (call : LockedCall) (camera : JavaCamera) : Prop :=
  ∃ result after, call.outcome camera = some (result, after) ∧
    after.mClientLock = camera.mClientLock ∧
    (call.updates = true → ∀ thrown, result = .error thrown →
      after.mClients.items = camera.mClients.items ∧
        after.mNativeObject = camera.mNativeObject)

/-- From the clients already told on: every callback runs through, and the first one that
modifies the list, if there is one, leaves no more clients than have been told by then. -/
def TellsThrough (callback : List ClientId → ClientId → Callback)
    (clients : FailFastList ClientId) : List ClientId → List ClientId → Prop
  | _, [] => True
  | told, client :: rest =>
      let left := (callback told client).leaves clients
      (callback told client).RunsThrough clients ∧
        if left.modCount = clients.modCount then
          TellsThrough callback clients (told ++ [client]) rest
        else left.items.length ≤ told.length + 1

instance decidableTellsThrough (callback : List ClientId → ClientId → Callback)
    (clients : FailFastList ClientId) :
    ∀ told rest : List ClientId, Decidable (TellsThrough callback clients told rest)
  | _, [] => inferInstanceAs (Decidable True)
  | told, client :: rest =>
      have := decidableTellsThrough callback clients (told ++ [client]) rest
      inferInstanceAs (Decidable ((callback told client).RunsThrough clients ∧
        if ((callback told client).leaves clients).modCount = clients.modCount then
          TellsThrough callback clients (told ++ [client]) rest
        else ((callback told client).leaves clients).items.length ≤ told.length + 1))

/-- Every callback the call makes runs through, and a notification is not stopped by its
iterator. -/
def RunsThrough (clients : FailFastList ClientId) : LockedCall → Prop
  | .addClient client isEncoder _ getSurface _ =>
      isEncoder.RunsThrough (clients.add client) ∧
        getSurface.RunsThrough (isEncoder.leaves (clients.add client))
  | .removeClient client isEncoder encoder getSurface _ =>
      isEncoder.RunsThrough (clients.remove client) ∧
        (encoder = true → getSurface.RunsThrough (isEncoder.leaves (clients.remove client)))
  | .notifyFirstCapture callbacks timestampUS =>
      TellsThrough (fun told client => callbacks.onFirstCapture told client timestampUS)
        clients [] clients.items
  | .notifyCaptureStop callbacks =>
      TellsThrough callbacks.onCaptureStop clients [] clients.items
  | .notifyCameraError callbacks =>
      TellsThrough callbacks.onCameraError clients [] clients.items

instance (clients : FailFastList ClientId) (call : LockedCall) :
    Decidable (call.RunsThrough clients) := by
  cases call <;> unfold RunsThrough <;> infer_instance

end LockedCall

/-! ## How a method inside the lock ends -/

namespace Delivery

section Ends

variable {α β : Type} {owed : Nat} {before middle after entered : Delivery} {whole more : Prop}

/-- How a method ends that still has to call `unlock()` `owed` times, which an exception
skips.  When it runs through, `whole`, it returns with nothing left to unlock; otherwise
it throws or the lock stays held. -/
structure Settles (owed : Nat) (before : Delivery) (result : Except Throwable α)
    (after : Delivery) (whole : Prop) : Prop where
  mClientLock : before.camera.mClientLock ≤ after.camera.mClientLock + owed
  thrown : ∀ thrown, result = .error thrown →
    before.camera.mClientLock ≤ after.camera.mClientLock
  through : whole → (∃ value, result = .ok value) ∧
    after.camera.mClientLock + owed = before.camera.mClientLock
  disturbed : ¬whole → ∀ value, result = .ok value →
    before.camera.mClientLock < after.camera.mClientLock + owed

/-- How a method that locks and unlocks itself ends: unless it runs through, the lock stays
held. -/
structure Balances (before : Delivery) (result : Except Throwable Unit) (after : Delivery)
    (whole : Prop) : Prop where
  through : whole → result = .ok () ∧ after.camera.mClientLock = before.camera.mClientLock
  disturbed : ¬whole → before.camera.mClientLock < after.camera.mClientLock

theorem Settles.congr {result : Except Throwable α}
    (settles : Settles owed before result after whole) (same : whole ↔ more) :
    Settles owed before result after more :=
  propext same ▸ settles

theorem Settles.bind {value : α} {result : Except Throwable β}
    (begun : Settles 0 before (.ok value) middle whole)
    (rest : Settles owed middle result after more) :
    Settles owed before result after (whole ∧ more) where
  mClientLock := Nat.le_trans begun.mClientLock rest.mClientLock
  thrown thrown same := Nat.le_trans begun.mClientLock (rest.thrown thrown same)
  through both := ⟨(rest.through both.2).1, (rest.through both.2).2.trans
    (begun.through both.1).2⟩
  disturbed missed returned same := by
    have started := begun.mClientLock
    have ended := rest.mClientLock
    -- the part that was not through left the lock held, and no `unlock()` is made twice
    by_cases first : whole
    · have strict := rest.disturbed (fun second => missed ⟨first, second⟩) returned same
      omega
    · have strict := begun.disturbed first value rfl
      omega

/-- The rest runs through on the list that the beginning leaves when it runs through. -/
theorem Settles.andThen {value : α} {result : Except Throwable β}
    {through goesThrough : FailFastList ClientId → Prop}
    {leaves : FailFastList ClientId → FailFastList ClientId}
    (begun : Settles 0 before (.ok value) middle (through before.camera.mClients))
    (left : through before.camera.mClients →
      middle.camera.mClients = leaves before.camera.mClients)
    (rest : Settles owed middle result after (goesThrough middle.camera.mClients)) :
    Settles owed before result after
      (through before.camera.mClients ∧ goesThrough (leaves before.camera.mClients)) :=
  (begun.bind rest).congr (and_congr_right fun ran => by rw [left ran])

theorem Settles.returned (value : α)
    (lock : after.camera.mClientLock + owed = before.camera.mClientLock) :
    Settles owed before (.ok value) after True where
  mClientLock := lock.ge
  thrown := by rintro _ ⟨⟩
  through _ := ⟨⟨value, rfl⟩, lock⟩
  disturbed missed := absurd trivial missed

theorem Settles.throw {thrown : Throwable}
    (begun : Settles 0 before (.error thrown : Except Throwable α) after whole) :
    Settles owed before (.error thrown : Except Throwable β) after (whole ∧ more) where
  mClientLock := Nat.le_trans begun.mClientLock (Nat.le_add_right _ _)
  thrown _ _ := begun.mClientLock
  through both := by
    obtain ⟨⟨value, contra⟩, -⟩ := begun.through both.1
    cases contra
  disturbed _ _ contra := by cases contra

theorem Settles.balances {result : Except Throwable Unit}
    (locked : entered.camera.mClientLock = before.camera.mClientLock + 1)
    (settles : Settles 1 entered result after whole) : Balances before result after whole where
  through ran := by
    obtain ⟨⟨value, returned⟩, lock⟩ := settles.through ran
    exact ⟨returned, by omega⟩
  disturbed missed := by
    cases result with
    | ok value =>
        have strict := settles.disturbed missed value rfl
        omega
    | error thrown =>
        have held := settles.thrown thrown rfl
        omega

theorem Balances.settles {result : Except Throwable Unit}
    (balances : Balances before result after whole) : Settles 0 before result after whole := by
  have kept : before.camera.mClientLock ≤ after.camera.mClientLock := by
    by_cases ran : whole
    · exact (balances.through ran).2.ge
    · exact (balances.disturbed ran).le
  exact {
    mClientLock := kept
    thrown := fun _ _ => kept
    through := fun ran => ⟨⟨(), (balances.through ran).1⟩, (balances.through ran).2⟩
    disturbed := fun missed _ _ => balances.disturbed missed }

/-- A call that was not through leaves the lock held, whatever its caller does then. -/
theorem Balances.goesOn {result : Except Throwable Unit} {ended : Except Throwable β}
    (balances : Balances before result middle whole) (missed : ¬whole)
    (rest : Settles 0 middle ended after more) {all : Prop} (includes : all → whole) :
    Settles 0 before ended after all := by
  have strict := Nat.lt_of_lt_of_le (balances.disturbed missed) rest.mClientLock
  exact {
    mClientLock := strict.le
    thrown := fun _ _ => strict.le
    through := fun ran => absurd (includes ran) missed
    disturbed := fun _ _ _ => strict }

end Ends

/-! ## Methods that call no client of the notification back -/

/-- What happens inside a callback calls no client of the notification back, and its changes
show in the count of the list. -/
structure Inside (before after : Delivery) : Prop where
  told : after.told = before.told
  mClients : after.camera.mClients.Follows before.camera.mClients

theorem Inside.refl (delivery : Delivery) : Inside delivery delivery :=
  ⟨rfl, .refl _⟩

theorem Inside.trans {before middle after : Delivery} (first : Inside before middle)
    (second : Inside middle after) : Inside before after :=
  ⟨second.told.trans first.told, second.mClients.trans first.mClients⟩

section Methods

variable {α β : Type} {owed : Nat} {value : α} {answer : β}
  {first : Delivering α} {rest : α → Delivering β} {client : ClientId}
  {through more : FailFastList ClientId → Prop}
  {leaves remains : FailFastList ClientId → FailFastList ClientId}

/-- A method inside the lock, from every state: it ends, returns only `value`, and when it
runs through leaves the list that `leaves` says. -/
def Ends (owed : Nat) (method : Delivering α) (value : α)
    (through : FailFastList ClientId → Prop)
    (leaves : FailFastList ClientId → FailFastList ClientId) : Prop :=
  ∀ before : Delivery, owed ≤ before.camera.mClientLock →
    ∃ result after, method.exec before = some (result, after) ∧
      Settles owed before result after (through before.camera.mClients) ∧
      Inside before after ∧ (∀ returned, result = .ok returned → returned = value) ∧
      (through before.camera.mClients →
        after.camera.mClients = leaves before.camera.mClients)

/-- A step that always returns, keeps the lock and makes one change. -/
def Steps (step : Delivering Unit)
    (change : FailFastList ClientId → FailFastList ClientId) : Prop :=
  ∀ before : Delivery, ∃ after, step.exec before = some (.ok (), after) ∧
    Inside before after ∧
    after.camera.mClientLock = before.camera.mClientLock ∧
    after.camera.mClients = change before.camera.mClients

/-- A whole call: it locks and unlocks itself. -/
def Closes (method : Delivering Unit) (through : FailFastList ClientId → Prop)
    (leaves : FailFastList ClientId → FailFastList ClientId) : Prop :=
  ∀ before : Delivery, ∃ result after, method.exec before = some (result, after) ∧
    Balances before result after (through before.camera.mClients) ∧
    Inside before after ∧
    (through before.camera.mClients →
      after.camera.mClients = leaves before.camera.mClients)

theorem Ends.congr (ends : Ends owed first value through leaves)
    (same : ∀ clients, through clients ↔ more clients) :
    Ends owed first value more leaves := by
  have equal : through = more := funext fun clients => propext (same clients)
  exact equal ▸ ends

theorem Ends.bind (begun : Ends 0 first value through leaves)
    (ends : ∀ returned, returned = value → Ends owed (rest returned) answer more remains) :
    Ends owed (first >>= rest) answer (fun clients => through clients ∧ more (leaves clients))
      fun clients => remains (leaves clients) := by
  intro before locked
  obtain ⟨result, middle, ran, settles, inside, returned, left⟩ := begun before (Nat.zero_le _)
  cases result with
  | error thrown =>
      refine ⟨_, middle, Method.exec_bind_of_error ran, settles.throw, inside, ?_, ?_⟩
      · rintro _ ⟨⟩
      · intro both
        obtain ⟨⟨_, contra⟩, -⟩ := settles.through both.1
        cases contra
  | ok first =>
      obtain ⟨result, after, ranRest, settlesRest, insideRest, returnedRest, leftRest⟩ :=
        ends first (returned first rfl) middle (Nat.le_trans locked settles.mClientLock)
      refine ⟨result, after, (Method.exec_bind_of_ok ran).trans ranRest,
        settles.andThen left settlesRest, inside.trans insideRest, returnedRest, ?_⟩
      rintro ⟨through, more⟩
      rw [← left through] at more
      rw [leftRest more, left through]

theorem Ends.step {step : Delivering Unit} {rest : Delivering β}
    {change : FailFastList ClientId → FailFastList ClientId} (steps : Steps step change)
    (ends : Ends owed rest answer more remains) :
    Ends owed (step >>= fun _ => rest) answer (fun clients => more (change clients))
      fun clients => remains (change clients) := by
  have begun : Ends 0 step () (fun _ => True) change := by
    intro before _
    obtain ⟨after, ran, inside, lock, left⟩ := steps before
    exact ⟨_, after, ran, .returned () lock, inside, fun _ _ => rfl, fun _ => left⟩
  exact (begun.bind fun _ _ => ends).congr fun _ => iff_of_eq (true_and _)

theorem ends_pure (value : α) : Ends 0 (pure value) value (fun _ => True) id := by
  intro before _
  refine ⟨_, before, Method.exec_pure value before, .returned value rfl, .refl before, ?_,
    fun _ => rfl⟩
  rintro returned ⟨⟩
  rfl

theorem ends_throw (thrown : Throwable) (value : α) :
    Ends 0 (throw thrown) value (fun _ => False) id := by
  intro before _
  refine ⟨_, before, Method.exec_throw thrown before,
    ⟨le_rfl, fun _ _ => le_rfl, False.elim, ?_⟩, .refl before, ?_, False.elim⟩
  · rintro _ _ ⟨⟩
  · rintro _ ⟨⟩

theorem ends_unlock : Ends 1 (onCamera unlockClients) () (fun _ => True) id := by
  intro before locked
  exact ⟨.ok (), { before with camera := { before.camera with
      mClientLock := before.camera.mClientLock - 1 } }, rfl,
    .returned () (Nat.sub_add_cancel locked), ⟨rfl, .refl _⟩, fun _ _ => rfl, fun _ => rfl⟩

/-- A callback that answers when it returns. -/
theorem Ends.answers {performed : Delivering Unit} (ends : Ends 0 performed () through leaves)
    (value : α) : Ends 0 (do performed; pure value) value through leaves :=
  (ends.bind fun _ _ => ends_pure value).congr fun _ => and_iff_left trivial

theorem Ends.locked {body : Delivering Unit} (ends : Ends 1 body () through leaves) :
    Closes (onCamera lockClients >>= fun _ => body) through leaves := by
  intro before
  have entered : (onCamera lockClients).exec before =
      some (.ok (), { before with camera := before.camera.locked }) := rfl
  obtain ⟨result, after, ran, settles, inside, -, left⟩ :=
    ends { before with camera := before.camera.locked } (Nat.le_add_left _ _)
  exact ⟨result, after, (Method.exec_bind_of_ok entered).trans ran, settles.balances rfl,
    ⟨inside.told, inside.mClients⟩, left⟩

/-- A call in a callback, with what follows when it returns and when it throws. -/
theorem Closes.attempted {call next handler : Delivering Unit}
    {caught : FailFastList ClientId → Prop}
    {others : FailFastList ClientId → FailFastList ClientId}
    (closes : Closes call through leaves) (goesOn : Ends 0 next () more remains)
    (handles : Ends 0 handler () caught others) :
    Ends 0 (attempt call next handler) ()
      (fun clients => through clients ∧ more (leaves clients))
      fun clients => remains (leaves clients) := by
  intro before _
  obtain ⟨result, middle, ran, balances, inside, left⟩ := closes before
  cases result with
  | ok value =>
      obtain ⟨result, after, ranNext, settles, insideNext, -, leftNext⟩ :=
        goesOn middle (Nat.zero_le _)
      have whole : (attempt call next handler).exec before = some (result, after) := by
        simp only [Method.exec, Delivery.attempt] at ran ranNext ⊢
        rw [ran]
        exact ranNext
      refine ⟨result, after, whole, balances.settles.andThen left settles,
        inside.trans insideNext, fun _ _ => rfl, ?_⟩
      rintro ⟨through, more⟩
      rw [← left through] at more
      rw [leftNext more, left through]
  | error thrown =>
      obtain ⟨result, after, ranHandler, settles, insideHandler, -, -⟩ :=
        handles middle (Nat.zero_le _)
      have whole : (attempt call next handler).exec before = some (result, after) := by
        simp only [Method.exec, Delivery.attempt] at ran ranHandler ⊢
        rw [ran]
        exact ranHandler
      have missed : ¬through before.camera.mClients := by
        intro ran
        cases (balances.through ran).1
      exact ⟨result, after, whole, balances.goesOn missed settles And.left,
        inside.trans insideHandler, fun _ _ => rfl, fun both => absurd both.1 missed⟩

end Methods

/-! ## The calls -/

section Calls

variable {isEncoder : Delivering Bool} {getSurface : Delivering (Option JSurface)}
  {encoder : Bool} {jsurface : Option JSurface}
  {throughEncoder throughSurface : FailFastList ClientId → Prop}
  {leavesEncoder leavesSurface : FailFastList ClientId → FailFastList ClientId}

/-- A native method touches neither the lock nor the list. -/
theorem ends_native {native : Java Unit}
    (returns : ∀ camera, ∃ surfaces, native.exec camera =
      some (.ok (), { camera with mNativeObject := surfaces })) :
    Ends 1 (onCamera native >>= fun _ => onCamera unlockClients) () (fun _ => True) id := by
  refine Ends.step ?_ ends_unlock
  intro before
  obtain ⟨surfaces, ran⟩ := returns before.camera
  exact ⟨{ before with camera := { before.camera with mNativeObject := surfaces } },
    congrArg (Option.map _) ran, ⟨rfl, .refl _⟩, rfl, rfl⟩

theorem closes_addClient (client : ClientId)
    (asks : Ends 0 isEncoder encoder throughEncoder leavesEncoder)
    (gives : Ends 0 getSurface jsurface throughSurface leavesSurface) :
    Closes (addClient client isEncoder getSurface)
      (fun clients => throughEncoder (clients.add client) ∧
        throughSurface (leavesEncoder (clients.add client)))
      fun clients => leavesSurface (leavesEncoder (clients.add client)) := by
  have adds : Steps (onCamera (modify fun camera =>
      { camera with mClients := camera.mClients.add client }))
      fun clients => clients.add client := fun before =>
    ⟨{ before with camera := { before.camera with
      mClients := before.camera.mClients.add client } }, rfl, ⟨rfl, .of_modified rfl⟩, rfl, rfl⟩
  have registers : ∀ native : Option JSurface → Java Unit,
      (∀ camera, ∃ surfaces, (native jsurface).exec camera =
        some (.ok (), { camera with mNativeObject := surfaces })) →
      Ends 1 (getSurface >>= fun jsurface => onCamera (native jsurface) >>= fun _ =>
        onCamera unlockClients) () throughSurface leavesSurface := fun native returns =>
    (gives.bind fun _ same => same ▸ ends_native returns).congr fun _ => and_iff_left trivial
  refine (Ends.step adds (asks.bind fun returned same => ?_)).locked
  subst same
  cases returned with
  | true => exact registers addEncoder fun _ => ⟨_, rfl⟩
  | false => exact registers setPreview fun _ => ⟨_, rfl⟩

theorem closes_removeClient (client : ClientId)
    (asks : Ends 0 isEncoder encoder throughEncoder leavesEncoder)
    (gives : Ends 0 getSurface jsurface throughSurface leavesSurface) :
    Closes (removeClient client isEncoder getSurface)
      (fun clients => throughEncoder (clients.remove client) ∧
        (encoder = true → throughSurface (leavesEncoder (clients.remove client))))
      fun clients =>
        if encoder then leavesSurface (leavesEncoder (clients.remove client))
        else leavesEncoder (clients.remove client) := by
  have logs : Steps (logRemoval client) id := by
    intro before
    refine ⟨_, rfl, ⟨?_, .refl _⟩, rfl, rfl⟩
    simp [Delivery.told, List.filterMap_map]
  have removes : Steps (onCamera (removeFromClients client))
      fun clients => clients.remove client := fun before =>
    ⟨{ before with camera := { before.camera with
      mClients := before.camera.mClients.remove client } }, rfl,
      ⟨rfl, FailFastList.follows_remove _ _⟩, rfl, rfl⟩
  have withdraws : ∀ returned, returned = encoder → Ends 1
      (if returned = true then getSurface >>= fun jsurface =>
        onCamera (removeEncoder jsurface) >>= fun _ => onCamera unlockClients
      else onCamera (setPreview none) >>= fun _ => onCamera unlockClients) ()
      (fun clients => encoder = true → throughSurface clients)
      fun clients => if encoder then leavesSurface clients else clients := by
    rintro returned rfl
    cases returned with
    | true =>
        exact (gives.bind fun _ _ => ends_native fun _ => ⟨_, rfl⟩).congr fun _ => by simp
    | false => exact (ends_native fun _ => ⟨_, rfl⟩).congr fun _ => by simp
  exact (Ends.step logs (Ends.step removes (asks.bind withdraws))).locked

theorem closes_release :
    Closes (onCamera JavaCamera.release) (fun clients => clients.items.length ≤ 2)
      FailFastList.withoutFirst := by
  intro before
  show ∃ result after, _ ∧ Balances before result after
    (before.camera.mClients.items.length ≤ 2) ∧ _ ∧
      (before.camera.mClients.items.length ≤ 2 → _)
  cases items : before.camera.mClients.items with
  | nil =>
      refine ⟨.ok (), { before with camera := before.camera.locked.released },
        congrArg (Option.map _) (release_of_nil items), ?_, ⟨rfl, .refl _⟩, fun _ => ?_⟩
      · exact ⟨fun _ => ⟨rfl, rfl⟩, fun long => absurd (Nat.zero_le _) long⟩
      · simp only [FailFastList.withoutFirst, items]
        rfl
  | cons client clients =>
      rw [List.length_cons]
      by_cases short : clients.length ≤ 1
      · refine ⟨.ok (), { before with
            camera := (before.camera.locked.firstRemoved client).released },
          congrArg (Option.map _) (release_of_short items short), ?_,
          ⟨rfl, .of_modified rfl⟩, fun _ => ?_⟩
        · exact ⟨fun _ => ⟨rfl, rfl⟩, fun long => absurd (Nat.succ_le_succ short) long⟩
        · have first : client ∈ before.camera.mClients.items := by simp [items]
          simp only [FailFastList.withoutFirst, items]
          exact (if_pos first).symm
      · refine ⟨.error .concurrentModification, { before with
            camera := before.camera.locked.firstRemoved client },
          congrArg (Option.map _) (release_of_long items (by omega)), ?_,
          ⟨rfl, .of_modified rfl⟩, ?_⟩
        · exact ⟨fun within => absurd (Nat.le_of_succ_le_succ within) short,
            fun _ => Nat.lt_succ_self _⟩
        · exact fun within => absurd (Nat.le_of_succ_le_succ within) short

end Calls

end Delivery

/-- A callback runs through exactly under its condition. -/
theorem Callback.ends_perform (callback : Callback) :
    Delivery.Ends 0 callback.perform () callback.RunsThrough callback.leaves := by
  induction callback with
  | returns => exact Delivery.ends_pure ()
  | throws thrown => exact Delivery.ends_throw thrown ()
  | addClient client isEncoder encoder getSurface jsurface next handler
      ihEncoder ihSurface ihNext ihHandler =>
      have call := Delivery.closes_addClient client (ihEncoder.answers encoder)
        (ihSurface.answers jsurface)
      exact (call.attempted ihNext ihHandler).congr fun _ => and_assoc
  | removeClient client isEncoder encoder getSurface jsurface next handler
      ihEncoder ihSurface ihNext ihHandler =>
      have call := Delivery.closes_removeClient client (ihEncoder.answers encoder)
        (ihSurface.answers jsurface)
      exact (call.attempted ihNext ihHandler).congr fun _ => and_assoc
  | release next handler ihNext ihHandler =>
      exact Delivery.closes_release.attempted ihNext ihHandler

/-! ## How a notification ends -/

namespace Delivery

variable {callback : List ClientId → ClientId → Callback}

/-- A callback of the notification is what it performs, and one more client told. -/
theorem exec_callingBack (callback : List ClientId → ClientId → Callback) (client : ClientId)
    (before : Delivery) :
    ∃ result after,
      (callBack (fun told client => (callback told client).perform) client).exec before =
        some (result, after) ∧
      Settles 0 before result after
        ((callback before.told client).RunsThrough before.camera.mClients) ∧
      after.told = before.told ++ [client] ∧
      after.camera.mClients.Follows before.camera.mClients ∧
      ((callback before.told client).RunsThrough before.camera.mClients →
        after.camera.mClients =
          (callback before.told client).leaves before.camera.mClients) := by
  obtain ⟨result, after, ran, settles, inside, -, left⟩ :=
    (callback before.told client).ends_perform
      { before with log := before.log ++ [.called client] } (Nat.zero_le _)
  refine ⟨result, after, ?_, ⟨settles.mClientLock, settles.thrown, settles.through,
    settles.disturbed⟩, ?_, inside.mClients, left⟩
  · unfold callBack
    rw [Method.exec_bind_of_ok (Method.exec_get _),
      Method.exec_bind_of_ok (Method.exec_modify _ _)]
    exact ran
  · rw [inside.told]
    simp [Delivery.told]

/-- The loop over a list modified behind the iterator's back. -/
theorem settles_stale {fuel : Nat} {cursor : FailFastList.Cursor} {delivery : Delivery}
    (modified : cursor.expectedModCount ≠ delivery.camera.mClients.modCount) :
    ∃ result, (FailFastList.forEach (fun delivery : Delivery => delivery.camera.mClients)
        .concurrentModification (callBack fun told client => (callback told client).perform)
        (fuel + 1) cursor).exec delivery = some (result, delivery) ∧
      Settles 0 delivery result delivery
        (delivery.camera.mClients.items.length ≤ cursor.nextIndex) := by
  by_cases ended : delivery.camera.mClients.items.length ≤ cursor.nextIndex
  · refine ⟨_, FailFastList.forEach_of_end ended, ?_⟩
    exact (Settles.returned () rfl).congr (iff_of_true trivial ended)
  · refine ⟨_, FailFastList.forEach_of_stale (Nat.not_le.mp ended) modified, ?_⟩
    exact ⟨le_rfl, fun _ _ => le_rfl, fun within => absurd within ended,
      by rintro _ _ ⟨⟩⟩

/-- The loop of a notification from the clients already told on. -/
theorem settles_loop {told rest : List ClientId} {fuel : Nat} {delivery : Delivery}
    (items : delivery.camera.mClients.items = told ++ rest) (sofar : delivery.told = told)
    (enough : rest.length < fuel) :
    ∃ result after, (FailFastList.forEach (fun delivery : Delivery => delivery.camera.mClients)
        .concurrentModification (callBack fun told client => (callback told client).perform)
        fuel ⟨told.length, delivery.camera.mClients.modCount⟩).exec delivery =
          some (result, after) ∧
      Settles 0 delivery result after
        (LockedCall.TellsThrough callback delivery.camera.mClients told rest) := by
  induction rest generalizing told delivery fuel with
  | nil =>
      obtain ⟨fuel, rfl⟩ : ∃ less, fuel = less + 1 := ⟨fuel - 1, by simp at enough; omega⟩
      exact ⟨_, delivery, FailFastList.forEach_of_end (by simp [items]),
        .returned () rfl⟩
  | cons client rest ih =>
      obtain ⟨fuel, rfl⟩ : ∃ less, fuel = less + 1 := ⟨fuel - 1, by omega⟩
      have enough : rest.length < fuel := by simpa using enough
      obtain ⟨result, next, called, settles, toldNext, follows, left⟩ :=
        exec_callingBack callback client delivery
      rw [sofar] at settles toldNext left
      cases result with
      | error thrown =>
          exact ⟨_, next, FailFastList.forEach_of_throw (by simp [items]) rfl called,
            settles.throw⟩
      | ok value =>
          rw [FailFastList.forEach_of_next (by simp [items]) rfl called, LockedCall.TellsThrough]
          by_cases same : next.camera.mClients.modCount = delivery.camera.mClients.modCount
          · have unchanged := follows.2 same
            obtain ⟨result, after, ran, settlesRest⟩ := @ih (told ++ [client]) fuel next
              (by rw [unchanged, items]; simp) toldNext enough
            rw [List.length_append, List.length_singleton, same] at ran
            refine ⟨result, after, ran, ?_⟩
            refine (settles.bind settlesRest).congr (and_congr_right fun through => ?_)
            rw [← left through, if_pos same, unchanged]
          · obtain ⟨fuel, rfl⟩ : ∃ less, fuel = less + 1 := ⟨fuel - 1, by omega⟩
            obtain ⟨result, ran, settlesRest⟩ := @settles_stale callback fuel
              ⟨told.length + 1, delivery.camera.mClients.modCount⟩ next (Ne.symm same)
            refine ⟨result, next, ran, ?_⟩
            refine (settles.bind settlesRest).congr (and_congr_right fun through => ?_)
            rw [← left through, if_neg same]

/-- A notification ends, with the lock as before exactly when it runs through. -/
theorem balances_notifyClients (callback : List ClientId → ClientId → Callback)
    (camera : JavaCamera) :
    ∃ result after,
      (notifyClients fun told client => (callback told client).perform).exec ⟨camera, []⟩ =
        some (result, after) ∧
      Balances ⟨camera, []⟩ result after
        (LockedCall.TellsThrough callback camera.mClients [] camera.mClients.items) := by
  have entered : (onCamera lockClients).exec ⟨camera, []⟩ =
      some (.ok (), ⟨camera.locked, []⟩) := rfl
  obtain ⟨result, after, ran, settles⟩ := @settles_loop callback [] camera.mClients.items
    (camera.mClients.items.length + 1) ⟨camera.locked, []⟩ rfl rfl (Nat.lt_succ_self _)
  have locked : 1 ≤ after.camera.mClientLock :=
    Nat.le_trans (Nat.le_add_left _ _) settles.mClientLock
  unfold notifyClients
  rw [Method.exec_bind_of_ok entered, Method.exec_bind_of_ok (Method.exec_get _)]
  cases result with
  | error thrown =>
      have thrown : Settles 1 ⟨camera.locked, []⟩ (.error thrown : Except Throwable Unit) after
          (_ ∧ True) := settles.throw
      exact ⟨_, after, Method.exec_bind_of_error ran,
        (thrown.congr (and_iff_left trivial)).balances rfl⟩
  | ok value =>
      obtain ⟨result, unlocked, ranUnlock, settlesUnlock, -⟩ := ends_unlock after locked
      exact ⟨result, unlocked, (Method.exec_bind_of_ok ran).trans ranUnlock,
        ((settles.bind settlesUnlock).congr (and_iff_left trivial)).balances rfl⟩

end Delivery

/-! ## Failure atomicity -/

namespace LockedCall

/-- Every call ends, and the lock is held as before exactly when it runs through. -/
theorem balances_method (call : LockedCall) (camera : JavaCamera) :
    ∃ result after, call.method.exec ⟨camera, []⟩ = some (result, after) ∧
      Delivery.Balances ⟨camera, []⟩ result after (call.RunsThrough camera.mClients) := by
  cases call with
  | addClient client isEncoder encoder getSurface jsurface =>
      obtain ⟨result, after, ran, balances, -⟩ := Delivery.closes_addClient client
        (isEncoder.ends_perform.answers encoder) (getSurface.ends_perform.answers jsurface)
        ⟨camera, []⟩
      exact ⟨result, after, ran, balances⟩
  | removeClient client isEncoder encoder getSurface jsurface =>
      obtain ⟨result, after, ran, balances, -⟩ := Delivery.closes_removeClient client
        (isEncoder.ends_perform.answers encoder) (getSurface.ends_perform.answers jsurface)
        ⟨camera, []⟩
      exact ⟨result, after, ran, balances⟩
  | notifyFirstCapture callbacks timestampUS =>
      exact Delivery.balances_notifyClients _ camera
  | notifyCaptureStop callbacks => exact Delivery.balances_notifyClients _ camera
  | notifyCameraError callbacks => exact Delivery.balances_notifyClients _ camera

/-- A call is failure atomic exactly when it runs through. -/
theorem failureAtomic_iff (call : LockedCall) (camera : JavaCamera) :
    FailureAtomic call camera ↔ call.RunsThrough camera.mClients := by
  obtain ⟨result, after, ran, balances⟩ := balances_method call camera
  have ended : call.outcome camera = some (result, after.camera) := by
    rw [outcome, ran, Option.map_some]
  constructor
  · rintro ⟨_, _, same, balanced, -⟩
    by_contra disturbed
    have held := balances.disturbed disturbed
    rw [ended] at same
    cases same
    exact absurd balanced held.ne'
  · intro through
    obtain ⟨returned, balanced⟩ := balances.through through
    refine ⟨result, after.camera, ended, balanced, ?_⟩
    rintro - thrown threw
    cases returned.symm.trans threw

/-- Every callback of this notification returns, and it throws with the lock held: the first
of three clients leaves while it is called back. -/
example : ¬(notifyCaptureStop ⟨fun _ _ _ => .returns,
    fun _ client => .removeClient client .returns true .returns none .returns .returns,
    fun _ _ => .returns⟩).RunsThrough ⟨[1, 2, 3], 3⟩ := by decide

/-- An encoder client whose codec has started: `getSurface()` throws. -/
theorem not_failureAtomic : ¬ ∀ call camera, FailureAtomic call camera := by
  intro always
  obtain ⟨result, after, ended, balanced, -⟩ :=
    always (.addClient 1 .returns true (.throws .thrownByClient) none) create
  cases ended
  cases balanced

end LockedCall

end JavaCamera

end UsbCamera
