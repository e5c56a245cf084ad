import UsbCamera.JavaCamera
import Mathlib.Data.List.Count
import Mathlib.Data.List.Nodup
import Mathlib.Data.List.TakeWhile

/-!
# Notifications whose callbacks change the registry

The three notify methods iterate over `mClients` under `mClientLock`, which admits the thread
again: a callback may call `addClient` and `removeClient`.  The list is then modified behind
the iterator's back, and the first callback that does it is the last one made.  This file
says exactly when such a notification still reaches its clients.
-/

namespace UsbCamera

namespace JavaCamera

/-- What a callback of a client does with the camera before it returns: any number of calls of
`addClient` and `removeClient`, whose own callbacks `isEncoder` and `getSurface` may do as much
before they answer. -/
inductive Behaviour
  | done
  | addClient (client : ClientId) (isEncoder : Behaviour) (encoder : Bool)
      (getSurface : Behaviour) (jsurface : Option JSurface) (next : Behaviour)
  | removeClient (client : ClientId) (isEncoder : Behaviour) (encoder : Bool)
      (getSurface : Behaviour) (jsurface : Option JSurface) (next : Behaviour)

/-- The calls back of a notification and the removals by `removeClient`, as they happen. -/
inductive DeliveryEvent
  | called (client : ClientId)
  | removed (client : ClientId)
  deriving DecidableEq

/-- The camera during a notification, with what has happened so far. -/
structure Delivery where
  camera : JavaCamera
  log : List DeliveryEvent

abbrev Delivering := Method Throwable Delivery

namespace Delivery

/-- The clients called back so far. -/
def told (delivery : Delivery) : List ClientId :=
  delivery.log.filterMap fun
    | .called client => some client
    | .removed _ => none

/-- A method that calls no client back. -/
def onCamera {α : Type} (method : Java α) : Delivering α := fun delivery =>
  (method.exec delivery.camera).map fun ended => (ended.1, { delivery with camera := ended.2 })

/-- Log that `client` is about to be taken out of the list, if it is there. -/
def logRemoval (client : ClientId) : Delivering Unit :=
  modify fun delivery =>
    { delivery with
      log := delivery.log ++ (delivery.camera.mClients.taken (.remove client)).map .removed }

def addClient (client : ClientId) (isEncoder : Delivering Bool)
    (getSurface : Delivering (Option JSurface)) : Delivering Unit := do
  onCamera lockClients
  onCamera (modify fun camera => { camera with mClients := camera.mClients.add client })
  if ← isEncoder then
    onCamera (addEncoder (← getSurface))
  else
    onCamera (setPreview (← getSurface))
  onCamera unlockClients

def removeClient (client : ClientId) (isEncoder : Delivering Bool)
    (getSurface : Delivering (Option JSurface)) : Delivering Unit := do
  onCamera lockClients
  logRemoval client
  onCamera (removeFromClients client)
  if ← isEncoder then
    onCamera (removeEncoder (← getSurface))
  else
    onCamera (setPreview none)
  onCamera unlockClients

end Delivery

/-- The callback is performed on the thread that notifies. -/
def Behaviour.perform : Behaviour → Delivering Unit
  | .done => pure ()
  | .addClient client isEncoder encoder getSurface jsurface next => do
      Delivery.addClient client (do isEncoder.perform; pure encoder)
        (do getSurface.perform; pure jsurface)
      next.perform
  | .removeClient client isEncoder encoder getSurface jsurface next => do
      Delivery.removeClient client (do isEncoder.perform; pure encoder)
        (do getSurface.perform; pure jsurface)
      next.perform

/-- What a callback does to the list of clients, in order.  `removeClient` asks an encoder
only for its surface. -/
def Behaviour.changes : Behaviour → List (FailFastList.Change ClientId)
  | .done => []
  | .addClient client isEncoder _ getSurface _ next =>
      .add client :: isEncoder.changes ++ getSurface.changes ++ next.changes
  | .removeClient client isEncoder encoder getSurface _ next =>
      .remove client :: isEncoder.changes ++ (if encoder then getSurface.changes else []) ++
        next.changes

namespace Delivery

/-- A call whose own callbacks do nothing is the call of the Java method. -/
theorem addClient_pure (client : ClientId) (encoder : Bool) (jsurface : Option JSurface)
    (delivery : Delivery) :
    (addClient client (pure encoder) (pure jsurface)).exec delivery =
      (onCamera (JavaCamera.addClient client ⟨.ok encoder, .ok jsurface⟩)).exec delivery := by
  cases encoder <;> rfl

theorem removeClient_pure (client : ClientId) (encoder : Bool) (jsurface : Option JSurface)
    (delivery : Delivery) :
    (removeClient client (pure encoder) (pure jsurface)).exec delivery =
      (do
        logRemoval client
        onCamera (JavaCamera.removeClient client ⟨.ok encoder, .ok jsurface⟩) :
          Delivering Unit).exec delivery := by
  cases encoder <;> rfl

end Delivery

/-! ## What a callback leaves -/

/-- From one state to the other, the changes have been made to the list of clients, what they
took out has been logged, and the lock is held as often as before. -/
structure Delivery.Changed (before after : Delivery)
    (changes : List (FailFastList.Change ClientId)) : Prop where
  mClients : after.camera.mClients = before.camera.mClients.applyAll changes
  mClientLock : after.camera.mClientLock = before.camera.mClientLock
  log : after.log = before.log ++ (before.camera.mClients.removals changes).map .removed

namespace Delivery

variable {before middle after : Delivery} {changes others : List (FailFastList.Change ClientId)}
  {client : ClientId} {isEncoder : Delivering Bool} {getSurface : Delivering (Option JSurface)}

theorem Changed.refl (delivery : Delivery) : delivery.Changed delivery [] :=
  ⟨rfl, rfl, by simp [FailFastList.removals]⟩

theorem Changed.trans (first : before.Changed middle changes)
    (second : middle.Changed after others) : before.Changed after (changes ++ others) where
  mClients := by rw [second.mClients, first.mClients, FailFastList.applyAll_append]
  mClientLock := second.mClientLock.trans first.mClientLock
  log := by
    rw [second.log, first.log, first.mClients, FailFastList.removals_append, List.map_append,
      List.append_assoc]

/-- Under the lock, with the client added. -/
def added (delivery : Delivery) (client : ClientId) : Delivery :=
  { delivery with
    camera := { delivery.camera with
      mClientLock := delivery.camera.mClientLock + 1
      mClients := delivery.camera.mClients.add client } }

/-- Under the lock, with the client removed. -/
def withdrawn (delivery : Delivery) (client : ClientId) : Delivery where
  camera := { delivery.camera with
    mClientLock := delivery.camera.mClientLock + 1
    mClients := delivery.camera.mClients.remove client }
  log := delivery.log ++
    (delivery.camera.mClients.taken (.remove client)).map .removed

/-- The callbacks inside `addClient` return, so it returns too. -/
theorem exec_addClient {encoder : Bool} {jsurface : Option JSurface}
    (asked : isEncoder.exec (before.added client) = some (.ok encoder, middle))
    (given : getSurface.exec middle = some (.ok jsurface, after)) :
    ∃ final, (addClient client isEncoder getSurface).exec before = some (.ok (), final) ∧
      final.camera.mClients = after.camera.mClients ∧
      final.camera.mClientLock = after.camera.mClientLock - 1 ∧ final.log = after.log := by
  have entered : (onCamera lockClients).exec before =
      some (.ok (), { before with camera := before.camera.locked }) := rfl
  have extended : (onCamera (modify fun camera =>
      { camera with mClients := camera.mClients.add client })).exec
        { before with camera := before.camera.locked } = some (.ok (), before.added client) := rfl
  unfold addClient
  rw [Method.exec_bind_of_ok entered, Method.exec_bind_of_ok extended,
    Method.exec_bind_of_ok asked]
  cases encoder with
  | true =>
      simp only [if_true]
      rw [Method.exec_bind_of_ok given]
      exact ⟨_, rfl, rfl, rfl, rfl⟩
  | false =>
      simp only [Bool.false_eq_true, if_false]
      rw [Method.exec_bind_of_ok given]
      exact ⟨_, rfl, rfl, rfl, rfl⟩

/-- The same for `removeClient`, which asks an encoder only for its surface. -/
theorem exec_removeClient {encoder : Bool} {jsurface : Option JSurface}
    (asked : isEncoder.exec (before.withdrawn client) = some (.ok encoder, middle))
    (given : if encoder then getSurface.exec middle = some (.ok jsurface, after)
      else after = middle) :
    ∃ final, (removeClient client isEncoder getSurface).exec before = some (.ok (), final) ∧
      final.camera.mClients = after.camera.mClients ∧
      final.camera.mClientLock = after.camera.mClientLock - 1 ∧ final.log = after.log := by
  have entered : (onCamera lockClients).exec before =
      some (.ok (), { before with camera := before.camera.locked }) := rfl
  have logged : (logRemoval client).exec { before with camera := before.camera.locked } =
      some (.ok (), ⟨before.camera.locked, (before.withdrawn client).log⟩) := rfl
  have withdrew : (onCamera (removeFromClients client)).exec
      ⟨before.camera.locked, (before.withdrawn client).log⟩ =
        some (.ok (), before.withdrawn client) := rfl
  unfold removeClient
  rw [Method.exec_bind_of_ok entered, Method.exec_bind_of_ok logged,
    Method.exec_bind_of_ok withdrew, Method.exec_bind_of_ok asked]
  cases encoder with
  | true =>
      simp only [if_true] at given ⊢
      rw [Method.exec_bind_of_ok given]
      exact ⟨_, rfl, rfl, rfl, rfl⟩
  | false =>
      simp only [Bool.false_eq_true, if_false] at given ⊢
      subst given
      exact ⟨_, rfl, rfl, rfl, rfl⟩

theorem exec_answer {α : Type} {performed : Delivering Unit} (value : α)
    (ran : performed.exec before = some (.ok (), after)) :
    (do performed; pure value : Delivering α).exec before = some (.ok value, after) :=
  Method.exec_bind_of_ok ran

/-- The end of a call whose own callbacks made some changes. -/
theorem Changed.of_entered {entered final : Delivery} {change : FailFastList.Change ClientId}
    (mClients : entered.camera.mClients = before.camera.mClients.apply change)
    (mClientLock : entered.camera.mClientLock = before.camera.mClientLock + 1)
    (log : entered.log = before.log ++ (before.camera.mClients.taken change).map .removed)
    (inside : entered.Changed after changes)
    (left : final.camera.mClients = after.camera.mClients ∧
      final.camera.mClientLock = after.camera.mClientLock - 1 ∧ final.log = after.log) :
    before.Changed final (change :: changes) where
  mClients := by rw [left.1, inside.mClients, mClients, FailFastList.applyAll_cons]
  mClientLock := by rw [left.2.1, inside.mClientLock, mClientLock, Nat.add_sub_cancel]
  log := by
    rw [left.2.2, inside.log, log, mClients, FailFastList.removals, List.map_append,
      List.append_assoc]

end Delivery

theorem exec_perform (behaviour : Behaviour) (before : Delivery) :
    ∃ after, behaviour.perform.exec before = some (.ok (), after) ∧
      before.Changed after behaviour.changes := by
  induction behaviour generalizing before with
  | done => exact ⟨before, rfl, .refl before⟩
  | addClient client isEncoder encoder getSurface jsurface next ihEncoder ihSurface ihNext =>
      obtain ⟨asked, askedRan, askedChanged⟩ := ihEncoder (before.added client)
      obtain ⟨given, givenRan, givenChanged⟩ := ihSurface asked
      obtain ⟨final, ran, left⟩ := Delivery.exec_addClient
        (Delivery.exec_answer encoder askedRan) (Delivery.exec_answer jsurface givenRan)
      obtain ⟨after, nextRan, nextChanged⟩ := ihNext final
      refine ⟨after, (Method.exec_bind_of_ok ran).trans nextRan, ?_⟩
      have call : before.Changed final
          (.add client :: (isEncoder.changes ++ getSurface.changes)) :=
        .of_entered rfl rfl (by simp [Delivery.added, FailFastList.taken])
          (askedChanged.trans givenChanged) left
      exact call.trans nextChanged
  | removeClient client isEncoder encoder getSurface jsurface next ihEncoder ihSurface ihNext =>
      obtain ⟨asked, askedRan, askedChanged⟩ := ihEncoder (before.withdrawn client)
      obtain ⟨given, givenRan, givenChanged⟩ : ∃ given,
          (if encoder then
            (do getSurface.perform; pure jsurface : Delivering (Option JSurface)).exec asked =
              some (.ok jsurface, given)
          else given = asked) ∧
          asked.Changed given (if encoder then getSurface.changes else []) := by
        cases encoder with
        | true =>
            obtain ⟨given, ran, changed⟩ := ihSurface asked
            exact ⟨given, Delivery.exec_answer jsurface ran, changed⟩
        | false => exact ⟨asked, rfl, .refl asked⟩
      obtain ⟨final, ran, left⟩ := Delivery.exec_removeClient
        (Delivery.exec_answer encoder askedRan) givenRan
      obtain ⟨after, nextRan, nextChanged⟩ := ihNext final
      refine ⟨after, (Method.exec_bind_of_ok ran).trans nextRan, ?_⟩
      have call : before.Changed final (.remove client ::
          (isEncoder.changes ++ if encoder then getSurface.changes else [])) :=
        .of_entered rfl rfl rfl (askedChanged.trans givenChanged) left
      exact call.trans nextChanged

/-! ## The notifications -/

/-- What the callbacks of a client do, given the clients called back before in the same
notification. -/
structure Behaviours where
  onFirstCapture : List ClientId → ClientId → Int → Behaviour
  onCaptureStop : List ClientId → ClientId → Behaviour
  onCameraError : List ClientId → ClientId → Behaviour

namespace Delivery

/-- Call `client` back, which then does what it `performs` after the clients called back
before. -/
def callBack (performs : List ClientId → ClientId → Delivering Unit) (client : ClientId) :
    Delivering Unit := do
  let told := (← get).told
  modify fun delivery => { delivery with log := delivery.log ++ [.called client] }
  performs told client

/-- The three notifications, which differ in the callback. -/
def notifyClients (performs : List ClientId → ClientId → Delivering Unit) :
    Delivering Unit := do
  onCamera lockClients
  let clients := (← get).camera.mClients
  FailFastList.forEach (fun delivery => delivery.camera.mClients) .concurrentModification
    (callBack performs) (clients.items.length + 1) clients.iterator
  onCamera unlockClients

def notifyFirstCapture (behaviours : Behaviours) (timestampUS : Int) : Delivering Unit :=
  notifyClients fun told client =>
    (behaviours.onFirstCapture told client timestampUS).perform

def notifyCaptureStop (behaviours : Behaviours) : Delivering Unit :=
  notifyClients fun told client => (behaviours.onCaptureStop told client).perform

def notifyCameraError (behaviours : Behaviours) : Delivering Unit :=
  notifyClients fun told client => (behaviours.onCameraError told client).perform

/-- A callback took the client out of the list before its turn came. -/
def RemovedFirst (client : ClientId) (log : List DeliveryEvent) : Prop :=
  .removed client ∈ log.takeWhile fun event => event != .called client

/-- The notification returns with the lock as it was, and has called back once every client
that was registered when it began and not removed before its turn. -/
def Notifies (method : Delivering Unit) (camera : JavaCamera) : Prop :=
  ∃ after, method.exec ⟨camera, []⟩ = some (.ok (), after) ∧
    after.camera.mClientLock = camera.mClientLock ∧
    ∀ client ∈ camera.mClients.items, ¬RemovedFirst client after.log →
      after.log.count (.called client) = 1

/-- From the clients already told on: either no callback changes the list, or the first one
that does leaves no more clients than have been told by then, and takes out those that have
not; and no client is told twice. -/
def NotifiesWhen (behave : List ClientId → ClientId → Behaviour)
    (clients : FailFastList ClientId) : List ClientId → List ClientId → Prop
  | told, [] => told.Nodup
  | told, client :: rest =>
      let changes := (behave told client).changes
      if ∃ change ∈ changes, change.Modifies clients.items then
        (clients.applyAll changes).items.length ≤ told.length + 1 ∧
          (told ++ [client]).Nodup ∧
          ∀ other ∈ rest, other ∈ told ++ [client] ∨ other ∈ clients.removals changes
      else NotifiesWhen behave clients (told ++ [client]) rest

instance decidableNotifiesWhen (behave : List ClientId → ClientId → Behaviour)
    (clients : FailFastList ClientId) :
    ∀ told rest : List ClientId, Decidable (NotifiesWhen behave clients told rest)
  | told, [] => inferInstanceAs (Decidable told.Nodup)
  | told, client :: rest =>
      have := decidableNotifiesWhen behave clients (told ++ [client]) rest
      inferInstanceAs (Decidable
        (if ∃ change ∈ (behave told client).changes, change.Modifies clients.items then
          (clients.applyAll (behave told client).changes).items.length ≤ told.length + 1 ∧
            (told ++ [client]).Nodup ∧
            ∀ other ∈ rest, other ∈ told ++ [client] ∨
              other ∈ clients.removals (behave told client).changes
        else NotifiesWhen behave clients (told ++ [client]) rest))

section Loop

variable {behave : List ClientId → ClientId → Behaviour} {delivery : Delivery}
  {told : List ClientId} {client : ClientId}

theorem told_of_log (log : delivery.log = told.map .called) : delivery.told = told := by
  simp [Delivery.told, log, List.filterMap_map]

theorem exec_callBack (behave : List ClientId → ClientId → Behaviour) (client : ClientId)
    (delivery : Delivery) :
    ∃ after, (callBack (fun told client => (behave told client).perform) client).exec delivery =
        some (.ok (), after) ∧
      after.camera.mClients =
        delivery.camera.mClients.applyAll (behave delivery.told client).changes ∧
      after.camera.mClientLock = delivery.camera.mClientLock ∧
      after.log = delivery.log ++ [.called client] ++
        (delivery.camera.mClients.removals (behave delivery.told client).changes).map
          .removed := by
  obtain ⟨after, ran, changed⟩ := exec_perform (behave delivery.told client)
    { delivery with log := delivery.log ++ [.called client] }
  refine ⟨after, ?_, changed.mClients, changed.mClientLock, changed.log⟩
  unfold callBack
  rw [Method.exec_bind_of_ok (Method.exec_get _), Method.exec_bind_of_ok (Method.exec_modify _ _)]
  exact ran

theorem removedFirst_iff {removed : List ClientId} :
    RemovedFirst client (told.map .called ++ removed.map .removed) ↔
      client ∉ told ∧ client ∈ removed := by
  unfold RemovedFirst
  induction told with
  | nil =>
      have all : ∀ event ∈ removed.map DeliveryEvent.removed,
          (event != .called client) = true := by simp
      simp [List.takeWhile_eq_self_iff.mpr all]
  | cons first told ih =>
      by_cases same : first = client
      · simp [same]
      · have other : client ≠ first := fun equal => same equal.symm
        simp only [List.map_cons, List.cons_append, List.takeWhile_cons, List.mem_cons]
        simp [same, other, ih]

theorem count_called {removed : List ClientId} :
    (told.map .called ++ removed.map .removed : List DeliveryEvent).count (.called client) =
      told.count client := by
  have injective : Function.Injective DeliveryEvent.called := fun _ _ => DeliveryEvent.called.inj
  have none : (removed.map DeliveryEvent.removed).count (.called client) = 0 :=
    List.count_eq_zero_of_not_mem (by simp)
  rw [List.count_append, List.count_map_of_injective _ _ injective, none, Nat.add_zero]

/-- What the log of a finished notification says about the clients it began with. -/
theorem calledOnce_iff {rest removed : List ClientId} {log : List DeliveryEvent}
    (logged : log = told.map .called ++ removed.map .removed) :
    (∀ client ∈ told ++ rest, ¬RemovedFirst client log → log.count (.called client) = 1) ↔
      told.Nodup ∧ ∀ other ∈ rest, other ∈ told ∨ other ∈ removed := by
  subst logged
  simp only [removedFirst_iff, count_called]
  constructor
  · intro once
    refine ⟨List.nodup_iff_count_eq_one.mpr fun client member =>
      once client (List.mem_append_left _ member) (by simp [member]), ?_⟩
    intro other waiting
    by_contra missed
    rw [not_or] at missed
    have called := once other (List.mem_append_right _ waiting) fun gone => missed.2 gone.2
    rw [List.count_eq_zero_of_not_mem missed.1] at called
    cases called
  · rintro ⟨distinct, served⟩ client registered stayed
    have member : client ∈ told := by
      rcases List.mem_append.mp registered with member | waiting
      · exact member
      · rcases served client waiting with member | gone
        · exact member
        · by_contra absent
          exact stayed ⟨absent, gone⟩
    exact List.count_eq_one_of_mem distinct member

theorem notifies_loop_iff {rest : List ClientId} {fuel : Nat}
    (split : delivery.camera.mClients.items = told ++ rest)
    (log : delivery.log = told.map .called) (enough : rest.length < fuel) :
    (∃ after, (FailFastList.forEach (fun delivery => delivery.camera.mClients)
        .concurrentModification (callBack fun told client => (behave told client).perform) fuel
        ⟨told.length, delivery.camera.mClients.modCount⟩).exec delivery = some (.ok (), after) ∧
      ∀ client ∈ told ++ rest, ¬RemovedFirst client after.log →
        after.log.count (.called client) = 1) ↔
      NotifiesWhen behave delivery.camera.mClients told rest := by
  induction rest generalizing told delivery fuel with
  | nil =>
      obtain ⟨fuel, rfl⟩ : ∃ less, fuel = less + 1 := ⟨fuel - 1, by simp at enough; omega⟩
      rw [FailFastList.forEach_of_end (by simp [split])]
      have once := @calledOnce_iff told [] [] delivery.log (by simp [log])
      simp only [List.not_mem_nil, false_imp_iff, implies_true, and_true] at once
      simp only [NotifiesWhen, ← once]
      constructor
      · rintro ⟨after, ended, called⟩
        cases ended
        exact called
      · intro called
        exact ⟨delivery, rfl, called⟩
  | cons client rest ih =>
      obtain ⟨fuel, rfl⟩ : ∃ less, fuel = less + 1 := ⟨fuel - 1, by omega⟩
      have enough : rest.length < fuel := by simpa using enough
      obtain ⟨next, returned, mClients, mClientLock, logged⟩ :=
        exec_callBack behave client delivery
      rw [told_of_log log] at mClients logged
      have logged : next.log = (told ++ [client]).map .called ++
          (delivery.camera.mClients.removals (behave told client).changes).map .removed := by
        rw [logged, log, List.map_append]
        rfl
      rw [FailFastList.forEach_of_next (by simp [split]) rfl returned]
      have order : told ++ client :: rest = (told ++ [client]) ++ rest := by simp
      rw [NotifiesWhen, order]
      by_cases modifies : ∃ change ∈ (behave told client).changes,
          change.Modifies delivery.camera.mClients.items
      · have stale := FailFastList.modCount_lt_applyAll modifies
        rw [if_pos modifies, ← calledOnce_iff logged, ← mClients]
        rw [← mClients] at stale
        obtain ⟨fuel, rfl⟩ : ∃ less, fuel = less + 1 := ⟨fuel - 1, by omega⟩
        have returns : ∀ after, (FailFastList.forEach
            (fun delivery : Delivery => delivery.camera.mClients) .concurrentModification
            (callBack fun told client => (behave told client).perform) (fuel + 1)
            ⟨told.length + 1, delivery.camera.mClients.modCount⟩).exec next =
              some (.ok (), after) ↔
            next.camera.mClients.items.length ≤ told.length + 1 ∧ after = next := fun after =>
          FailFastList.forEach_returns_iff_of_modified (Nat.ne_of_lt stale)
        simp only [returns]
        constructor
        · rintro ⟨after, ⟨ended, rfl⟩, called⟩
          exact ⟨ended, called⟩
        · rintro ⟨ended, called⟩
          exact ⟨next, ⟨ended, rfl⟩, called⟩
      · have idle : ∀ change ∈ (behave told client).changes,
            ¬change.Modifies delivery.camera.mClients.items :=
          fun change member now => modifies ⟨change, member, now⟩
        obtain ⟨sameClients, noneTaken⟩ := FailFastList.applyAll_of_idle idle
        rw [sameClients] at mClients
        rw [noneTaken, List.map_nil, List.append_nil] at logged
        rw [if_neg modifies, ← mClients, ← ih (by rw [mClients, split, order]) logged enough]
        simp only [List.length_append, List.length_singleton]

end Loop

theorem mClientLock_of_loop {behave : List ClientId → ClientId → Behaviour} {fuel : Nat}
    {cursor : FailFastList.Cursor} {before : Delivery} {ended : Except Throwable Unit × Delivery}
    (ran : (FailFastList.forEach (fun delivery : Delivery => delivery.camera.mClients)
      .concurrentModification (callBack fun told client => (behave told client).perform) fuel
      cursor).exec before = some ended) :
    ended.2.camera.mClientLock = before.camera.mClientLock := by
  have kept : ∀ (client : ClientId) (delivery : Delivery)
      (ended : Except Throwable Unit × Delivery),
      delivery.camera.mClientLock = before.camera.mClientLock →
      (callBack (fun told client => (behave told client).perform) client).exec delivery =
        some ended →
      ended.2.camera.mClientLock = before.camera.mClientLock := by
    intro client delivery ended held performed
    obtain ⟨after, returned, -, mClientLock, -⟩ := exec_callBack behave client delivery
    cases returned.symm.trans performed
    exact mClientLock.trans held
  exact FailFastList.invariant_of_forEach kept rfl ran

/-- A notification reaches its clients exactly under the condition. -/
theorem notifies_notifyClients_iff (behave : List ClientId → ClientId → Behaviour)
    (camera : JavaCamera) :
    Notifies (notifyClients fun told client => (behave told client).perform) camera ↔
      NotifiesWhen behave camera.mClients [] camera.mClients.items := by
  have loop := @notifies_loop_iff behave ⟨camera.locked, []⟩ [] camera.mClients.items
    (camera.mClients.items.length + 1) rfl rfl (Nat.lt_succ_self _)
  have entered : (onCamera lockClients).exec ⟨camera, []⟩ =
      some (.ok (), ⟨camera.locked, []⟩) := rfl
  refine Iff.trans ?_ loop
  unfold Notifies notifyClients
  rw [Method.exec_bind_of_ok entered, Method.exec_bind_of_ok (Method.exec_get _)]
  constructor
  · rintro ⟨final, ran, -, called⟩
    obtain ⟨_, after, returned, unlocked⟩ := Method.exec_bind_eq_ok_iff.mp ran
    cases unlocked
    exact ⟨after, returned, called⟩
  · rintro ⟨after, returned, called⟩
    refine ⟨_, (Method.exec_bind_of_ok returned).trans rfl, ?_, called⟩
    have held := mClientLock_of_loop returned
    exact congrArg (· - 1) held

/-- Each of the three notifications reaches its clients exactly when the first callback that
changes the list, if there is one, ends it. -/
theorem notifies_iff (behaviours : Behaviours) (timestampUS : Int) (camera : JavaCamera) :
    (Notifies (notifyFirstCapture behaviours timestampUS) camera ↔
        NotifiesWhen (fun told client => behaviours.onFirstCapture told client timestampUS)
          camera.mClients [] camera.mClients.items) ∧
      (Notifies (notifyCaptureStop behaviours) camera ↔
        NotifiesWhen behaviours.onCaptureStop camera.mClients [] camera.mClients.items) ∧
      (Notifies (notifyCameraError behaviours) camera ↔
        NotifiesWhen behaviours.onCameraError camera.mClients [] camera.mClients.items) :=
  ⟨notifies_notifyClients_iff _ camera, notifies_notifyClients_iff _ camera,
    notifies_notifyClients_iff _ camera⟩

/-- A callback that takes its client off the registry. -/
def leave (client : ClientId) : Behaviour :=
  .removeClient client .done true .done none .done

/-- The last client may leave. -/
example : NotifiesWhen (fun _ client => if client = 3 then leave client else .done)
    ⟨[1, 2, 3], 3⟩ [] [1, 2, 3] := by decide

/-- The first of three clients leaves: the second is not called, and the lock stays held. -/
theorem not_notifies :
    ¬∀ (behaviours : Behaviours) (timestampUS : Int) (camera : JavaCamera),
      Notifies (notifyFirstCapture behaviours timestampUS) camera ∧
        Notifies (notifyCaptureStop behaviours) camera ∧
        Notifies (notifyCameraError behaviours) camera := by
  intro always
  obtain ⟨-, ⟨after, returned, -⟩, -⟩ := always
    ⟨fun _ _ _ => .done, fun told client => if told = [] then leave client else .done,
      fun _ _ => .done⟩
    0 { create with mClients := ⟨[1, 2, 3], 3⟩ }
  cases returned

end Delivery

end JavaCamera

end UsbCamera
