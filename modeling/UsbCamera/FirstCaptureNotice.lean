import UsbCamera.NotificationProtocol
import UsbCamera.RegistrationHistory

/-!
# When an encoder client is told of the first frame

`notifyFirstCapture` is sent once, between dequeuing the first frame and drawing it, and goes
through `mClients` with a fail-fast iterator, while surfaces are registered at any time.  It
reaches every encoder client before a frame does as long as it misses none: who registers later
gets frames without having been told.
-/

namespace UsbCamera

namespace JavaAction

/-- The surface a frame is posted to. -/
def posted : JavaAction → Option Surface
  | .native (.window surface .post) => surface
  | _ => none

/-- The iterator of a loop that ends. -/
def loopLeft : JavaAction → Option FailFastList.Cursor
  | .loopEnd cursor | .loopStale cursor => some cursor
  | _ => none

end JavaAction

namespace Tracked

/-- Every client with a registered surface has been told. -/
def AllTold (tracked : Tracked) : Prop :=
  ∀ registration ∈ tracked.registered, registration.1 ∈ tracked.told

/-- A frame is posted only to clients that have been told. -/
def PostsTold (tracked : Tracked) (event : ThreadId × JavaAction) : Prop :=
  ∀ surface ∈ event.2.posted, ∀ registration ∈ tracked.registered,
    registration.2 = surface → registration.1 ∈ tracked.told

/-- The one notification misses no registered client: those registered before its loop are
in `mClients` when it begins, nobody changes `mClients` until they are told, and who registers
later has been told already. -/
structure NoneMissed (tracked : Tracked) (event : ThreadId × JavaAction) : Prop where
  later : event.2.pushes = true → tracked.begun = true →
    ∀ client ∈ registrant (tracked.app.stackOf event.1), client ∈ tracked.told
  listed : event.2.iterates = true → tellsFirst (tracked.app.stackOf event.1) = true →
    ∀ registration ∈ tracked.registered, registration.1 ∈ tracked.app.mClients.items
  unchanged : tellsFirst (tracked.app.stackOf event.1) = true →
    ∀ cursor ∈ event.2.loopLeft,
      cursor.expectedModCount = tracked.app.mClients.modCount ∨ tracked.AllTold

instance (tracked : Tracked) : Decidable tracked.AllTold :=
  inferInstanceAs (Decidable (∀ registration ∈ tracked.registered, _))

instance (tracked : Tracked) (event : ThreadId × JavaAction) :
    Decidable (PostsTold tracked event) :=
  inferInstanceAs (Decidable (∀ surface ∈ event.2.posted, _))

instance (tracked : Tracked) (event : ThreadId × JavaAction) :
    Decidable (NoneMissed tracked event) :=
  decidable_of_iff (_ ∧ _ ∧ _) ⟨fun ⟨later, listed, unchanged⟩ => ⟨later, listed, unchanged⟩,
    fun ⟨later, listed, unchanged⟩ => ⟨later, listed, unchanged⟩⟩

end Tracked

/-! ## Activations outside the notification -/

namespace Activation

/-- Neither part of the capture program nor of `notifyFirstCapture`. -/
def quiet : Activation → Bool
  | .native pc => pc.bystander
  | .update _ _ (.callNative entry) => (Pc.enter entry).bystander
  | .notify .firstCapture _ => false
  | _ => true

/-- Quiet native code sends no notification. -/
theorem quiet_afterNative {pc pc' : Pc} {action : Action} (stands : pc.bystander = true)
    (working : pc ≠ .idle) (move : Pc.Move pc action pc') :
    action.ofBystander = true ∧ ∀ activation ∈ afterNative pc' action, activation.quiet = true := by
  have calls : ∀ entry ∈ action.method, entry ≠ .start ∧ entry ≠ .release := by
    intro entry called
    obtain rfl := Action.eq_call_of_method called
    cases move with
    | call => exact absurd rfl working
    | surface inner => cases SurfacePc.own_of_next inner
    | _ => cases stands
  obtain ⟨still, stood⟩ := Pc.bystander_of_move stands calls move
  refine ⟨stood, ?_⟩
  cases action with
  | notify => cases stood
  | _ => simpa [afterNative, quiet] using still

theorem afterNative_of_silent {pc : Pc} {action : Action}
    (silent : action.notification = none) : afterNative pc action = [.native pc] := by
  cases action with
  | notify => cases silent
  | _ => rfl

theorem quiet_activation (call : JavaCall) : call.activation.quiet = true := by
  cases call <;> rfl

theorem Move.quiet {activation : Activation} {action : JavaAction} {frames : List Activation}
    (move : Move activation action frames) (isQuiet : activation.quiet = true) :
    ∀ other ∈ frames, other.quiet = true := by
  cases move with
  | native working inside => exact (quiet_afterNative isQuiet working inside).2
  | @isEncoder method client encoder =>
      cases method <;> cases encoder <;> simp [ClientMethod.afterIsEncoder, Activation.quiet,
        Pc.enter, Pc.bystander]
  | @getSurface method client encoder jsurface =>
      cases method <;> cases encoder <;> simp [ClientMethod.entry, Activation.quiet,
        Pc.enter, Pc.bystander]
  | callNative =>
      have surface : (Pc.enter _).bystander = true := isQuiet
      simp [Activation.quiet, surface]
  | @clientCalls call =>
      have entered := quiet_activation call
      intro other member
      rcases List.mem_pair.mp member with rfl | rfl
      · exact entered
      · rfl
  | @notifyLocks notification | @iterator notification | @loopNext notification
  | @loopEnd notification =>
      cases notification with
      | firstCapture => cases isQuiet
      | captureStop | cameraError => simp [Activation.quiet]
  | _ => simp [Activation.quiet]

end Activation

/-- No activation of the stack is part of the capture program or of `notifyFirstCapture`. -/
def Quiet (stack : List Activation) : Prop :=
  ∀ activation ∈ stack, activation.quiet = true

theorem Quiet.next {stack after : List Activation} {action : JavaAction} (isQuiet : Quiet stack)
    (moved : App.nextStack stack action = some after) : Quiet after := by
  cases stack with
  | nil =>
      cases action with
      | enter call =>
          rw [← Option.some.inj moved]
          simp [Quiet, Activation.quiet_activation]
      | _ => cases moved
  | cons activation rest =>
      obtain ⟨frames, topMoved, rfl⟩ := Option.map_eq_some_iff.mp moved
      have replaced := (Activation.move_of_next topMoved).quiet (isQuiet activation (by simp))
      intro other member
      rcases List.mem_append.mp member with new | old
      · exact replaced other new
      · exact isQuiet other (by simp [old])

theorem Activation.not_tellsFirst {activation : Activation} {rest : List Activation}
    (isQuiet : activation.quiet = true) : tellsFirst (activation :: rest) = false := by
  cases activation with
  | notify notification =>
      cases notification with
      | firstCapture => cases isQuiet
      | captureStop | cameraError => rfl
  | _ => rfl

theorem Quiet.not_tellsFirst {stack : List Activation} (isQuiet : Quiet stack) :
    tellsFirst stack = false := by
  cases stack with
  | nil => rfl
  | cons activation rest => exact Activation.not_tellsFirst (isQuiet activation (by simp))

theorem Quiet.not_posted {stack after : List Activation} {action : JavaAction}
    (isQuiet : Quiet stack) (moved : App.nextStack stack action = some after) :
    action.posted = none := by
  cases stack with
  | nil => cases action <;> first | rfl | cases moved
  | cons activation rest =>
      obtain ⟨frames, topMoved, -⟩ := Option.map_eq_some_iff.mp moved
      cases Activation.move_of_next topMoved with
      | native working inside =>
          obtain ⟨stood, -⟩ :=
            Activation.quiet_afterNative (isQuiet _ List.mem_cons_self) working inside
          rename_i action
          cases action <;> first | rfl | cases stood
      | _ => rfl

theorem ofDraw_of_posted {action : Action} {surface : Surface}
    (posted : surface ∈ (JavaAction.native action).posted) : action.ofDraw = true := by
  cases action with
  | window => rfl
  | _ => cases posted

/-! ## The history along a run -/

/-- A method that does not count a modification has made none. -/
theorem ClientMethod.change_of_modCount {method : ClientMethod} {clients : FailFastList ClientId}
    {client : ClientId} :
    clients.modCount ≤ (method.change clients client).modCount ∧
      ((method.change clients client).modCount = clients.modCount →
        (method.change clients client).items = clients.items) := by
  cases method with
  | addClient => simp [change, FailFastList.add]
  | removeClient =>
      simp only [change, FailFastList.remove]
      split_ifs <;> simp

namespace Tracked

section Steps

variable {tracked next : Tracked} {thread capture : ThreadId} {action : JavaAction}

/-- What a step outside the notification may change: it registers only clients that have been
told, once the loop has begun, and counts the modifications of `mClients`. -/
structure Kept (tracked next : Tracked) : Prop where
  begun : next.begun = tracked.begun
  told : next.told = tracked.told
  registered : tracked.begun = true → ∀ registration ∈ next.registered,
    registration ∈ tracked.registered ∨ registration.1 ∈ tracked.told
  modCount : tracked.app.mClients.modCount ≤ next.app.mClients.modCount
  items : next.app.mClients.modCount = tracked.app.mClients.modCount →
    next.app.mClients.items = tracked.app.mClients.items

theorem kept_of_step (met : NoneMissed tracked (thread, action))
    (outside : tellsFirst (tracked.app.stackOf thread) = false)
    (stepped : tracked.step (thread, action) = some next) : Kept tracked next := by
  obtain ⟨moved, registered, begun, told⟩ := of_step stepped
  have list : tracked.app.mClients.modCount ≤ next.app.mClients.modCount ∧
      (next.app.mClients.modCount = tracked.app.mClients.modCount →
        next.app.mClients.items = tracked.app.mClients.items) := by
    by_cases changed : ∃ method client, action = .changeList method client
    · obtain ⟨method, client, rfl⟩ := changed
      rw [App.mClients_of_changeList moved]
      exact ClientMethod.change_of_modCount
    · rw [App.mClients_of_step moved fun method client same => changed ⟨method, client, same⟩]
      exact ⟨Nat.le_refl _, fun _ => rfl⟩
  refine ⟨?_, ?_, ?_, list.1, list.2⟩
  · simpa [outside] using begun
  · have silent : toldBy (tracked.app.stackOf thread) action = [] := by
      cases action <;> first | rfl | simp [toldBy, outside]
    rw [told, silent, List.append_nil]
  · intro hasBegun registration member
    rw [registered] at member
    rcases mem_registeredAfter member with earlier | ⟨pushes, registers⟩
    · exact Or.inl earlier
    · exact Or.inr (met.later pushes hasBegun _ registers)

end Steps

/-! ## The invariant -/

/-- What holds at a point of `notifyFirstCapture`.  The loop has told the registered clients
it has passed, unless somebody has changed the list and it is about to end. -/
def Covers (tracked : Tracked) : NotifyPc → Prop
  | .lock | .iterator => tracked.begun = false
  | .loop cursor =>
      tracked.begun = true ∧ cursor.expectedModCount ≤ tracked.app.mClients.modCount ∧
        (cursor.expectedModCount = tracked.app.mClients.modCount →
          ∀ registration ∈ tracked.registered, registration.1 ∈ tracked.told ∨
            registration.1 ∈ tracked.app.mClients.items.drop cursor.nextIndex)
  | .unlock => tracked.begun = true ∧ tracked.AllTold

/-- What the local `firstCapture` says. -/
def FirstAgrees (tracked : Tracked) : Bool → Prop
  | true => tracked.begun = false
  | false => tracked.begun = true ∧ tracked.AllTold

/-- The stack of the capture thread: the capture program alone, or below the notification and
the callbacks it has made, or no more. -/
inductive CaptureStack (tracked : Tracked) : List Activation → Prop
  | running {first : Bool} {pc : CapturePc} :
      pc.agrees first = true → tracked.FirstAgrees first →
      CaptureStack tracked [.native (.capturing first pc)]
  | telling {upper : List Activation} {pc : NotifyPc} :
      Quiet upper → tracked.Covers pc →
      CaptureStack tracked
        (upper ++ [.notify .firstCapture pc, .native (.capturing false (.preview .takeWindow))])
  | done {stack : List Activation} : Quiet stack → CaptureStack tracked stack

/-- What holds in every state of a run that misses nobody. -/
structure Informs (capture : ThreadId) (tracked : Tracked) : Prop where
  own : tracked.CaptureStack (tracked.app.stackOf capture)
  others : ∀ other, other ≠ capture → Quiet (tracked.app.stackOf other)

theorem Begins.informs {tracked : Tracked} {capture : ThreadId}
    (begins : Begins tracked capture) : Informs capture tracked where
  own := by
    rw [begins.app.capturing]
    exact .running rfl begins.begun
  others := by
    intro other distinct
    rw [begins.app.idle other distinct]
    simp [Quiet]

section Preservation

variable {tracked next : Tracked} {thread capture : ThreadId} {action : JavaAction}

theorem AllTold.of_kept (told : tracked.AllTold) (begun : tracked.begun = true)
    (kept : Kept tracked next) : next.AllTold := by
  intro registration member
  rw [kept.told]
  rcases kept.registered begun registration member with earlier | already
  · exact told registration earlier
  · exact already

theorem FirstAgrees.of_kept {first : Bool} (agrees : tracked.FirstAgrees first)
    (kept : Kept tracked next) : next.FirstAgrees first := by
  cases first with
  | true => exact kept.begun.trans agrees
  | false => exact ⟨kept.begun.trans agrees.1, agrees.2.of_kept agrees.1 kept⟩

theorem Covers.of_kept {pc : NotifyPc} (covers : tracked.Covers pc) (kept : Kept tracked next) :
    next.Covers pc := by
  cases pc with
  | lock | iterator => exact kept.begun.trans covers
  | unlock => exact ⟨kept.begun.trans covers.1, covers.2.of_kept covers.1 kept⟩
  | loop cursor =>
      obtain ⟨begun, expected, passed⟩ := covers
      refine ⟨kept.begun.trans begun, Nat.le_trans expected kept.modCount, ?_⟩
      intro current registration member
      have unchanged : next.app.mClients.modCount = tracked.app.mClients.modCount := by
        have grown := kept.modCount
        omega
      rw [kept.told, kept.items unchanged]
      rcases kept.registered begun registration member with earlier | already
      · exact passed (current.trans unchanged) registration earlier
      · exact Or.inl already

theorem CaptureStack.of_kept {stack : List Activation} (own : tracked.CaptureStack stack)
    (kept : Kept tracked next) : next.CaptureStack stack := by
  cases own with
  | running agrees first => exact .running agrees (first.of_kept kept)
  | telling isQuiet covers => exact .telling isQuiet (covers.of_kept kept)
  | done isQuiet => exact .done isQuiet

/-- The capture program alone on the stack, at its next point or at its end. -/
theorem CaptureStack.of_afterCapture {first : Bool} {pc : CapturePc}
    (agrees : pc.agrees first = true) (firstAgrees : tracked.FirstAgrees first) :
    tracked.CaptureStack [.native (Pc.afterCapture first pc)] := by
  cases pc with
  | returned => exact .done (by simp [Quiet, Activation.quiet, Pc.afterCapture, Pc.bystander])
  | _ => exact .running agrees firstAgrees

theorem CaptureStack.of_running {first : Bool} {pc : CapturePc}
    {after : List Activation} (agrees : pc.agrees first = true)
    (firstAgrees : tracked.FirstAgrees first)
    (moved : App.nextStack [.native (.capturing first pc)] action = some after) :
    tracked.CaptureStack after := by
  obtain ⟨frames, topMoved, rfl⟩ := Option.map_eq_some_iff.mp moved
  cases Activation.move_of_next topMoved with
  | native working inside =>
      cases inside with
      | capturing inner =>
          have agrees' := inner.agrees agrees
          cases inner with
          | notifyFirst =>
              cases first with
              | false => cases agrees
              | true =>
                  have noneYet : Quiet [] := fun _ member => absurd member (List.not_mem_nil)
                  have told : tracked.Covers .lock := firstAgrees
                  exact .telling noneYet told
          | notifyStop | notifyError =>
              exact .done (by simp [Quiet, Activation.quiet, Activation.afterNative,
                Pc.afterCapture, Pc.bystander])
          | preview drawn =>
              rw [Activation.afterNative_of_silent
                (Action.notification_of_draws (PreviewPc.draws_of_next drawn))]
              exact .of_afterCapture agrees' firstAgrees
          | encoder drawn =>
              rw [Activation.afterNative_of_silent
                (Action.notification_of_draws (EncoderPc.draws_of_next drawn))]
              exact .of_afterCapture agrees' firstAgrees
          | _ => exact .of_afterCapture agrees' firstAgrees

/-- When the loop ends, it has told all that are registered. -/
theorem Covers.allTold {cursor : FailFastList.Cursor} (covers : tracked.Covers (.loop cursor))
    (passed : cursor.expectedModCount = tracked.app.mClients.modCount →
      tracked.app.mClients.items.length ≤ cursor.nextIndex)
    (unchanged : cursor.expectedModCount = tracked.app.mClients.modCount ∨ tracked.AllTold) :
    tracked.AllTold := by
  rcases unchanged with current | told
  · intro registration member
    rcases covers.2.2 current registration member with already | ahead
    · exact already
    · rw [List.drop_eq_nil_of_le (passed current)] at ahead
      cases ahead
  · exact told

/-- The part of the history a step of the notification leaves alone, and what it adds. -/
theorem of_notifying {pc : NotifyPc} {rest : List Activation}
    (stack : tracked.app.stackOf thread = .notify .firstCapture pc :: rest)
    (stepped : tracked.step (thread, action) = some next) :
    next.registered = tracked.registered ∧ next.app.mClients = tracked.app.mClients ∧
      next.begun = (tracked.begun || action.iterates) ∧
      next.told = tracked.told ++ toldBy (.notify .firstCapture pc :: rest) action := by
  obtain ⟨appStepped, registered, begun, told⟩ := of_step stepped
  have moved := App.moved_of_step appStepped
  rw [stack] at moved registered begun told
  obtain ⟨frames, topMoved, -⟩ := Option.map_eq_some_iff.mp moved
  have list : next.app.mClients = tracked.app.mClients := by
    refine App.mClients_of_step appStepped ?_
    rintro method client rfl
    cases Activation.move_of_next topMoved
  refine ⟨?_, list, by simpa [tellsFirst] using begun, told⟩
  rw [registered]
  cases Activation.move_of_next topMoved <;> rfl

theorem CaptureStack.of_telling {pc : NotifyPc}
    (met : NoneMissed tracked (thread, action)) (covers : tracked.Covers pc)
    (stack : tracked.app.stackOf thread =
      [.notify .firstCapture pc, .native (.capturing false (.preview .takeWindow))])
    (stepped : tracked.step (thread, action) = some next) :
    next.CaptureStack (next.app.stackOf thread) := by
  obtain ⟨appStepped, -⟩ := of_step stepped
  obtain ⟨registered, list, begun, told⟩ := of_notifying stack stepped
  have tells : tellsFirst (tracked.app.stackOf thread) = true := by rw [stack]; rfl
  have moved := App.moved_of_step appStepped
  rw [stack] at moved
  obtain ⟨frames, topMoved, placed⟩ := Option.map_eq_some_iff.mp moved
  have noneYet : Quiet [] := fun _ member => absurd member (List.not_mem_nil)
  -- once all are told, the notification goes on to its end and the draws begin
  have allTold (before : tracked.begun = true) (same : next.told = tracked.told)
      (all : tracked.AllTold) : next.begun = true ∧ next.AllTold := by
    refine ⟨by simp [begun, before], ?_⟩
    rw [AllTold, registered, same]
    exact all
  rw [← placed]
  cases Activation.move_of_next topMoved with
  | notifyLocks =>
      have notBegun : tracked.begun = false := covers
      have stillNot : next.Covers .iterator := by
        show next.begun = false
        simp [begun, notBegun, JavaAction.iterates]
      exact .telling noneYet stillNot
  | @iterator _ cursor =>
      have created := App.cursor_of_iterator appStepped
      refine .telling noneYet ⟨by simp [begun, JavaAction.iterates], ?_, ?_⟩
      · simp [created, list, FailFastList.iterator]
      · intro _ registration member
        rw [registered] at member
        have listed := met.listed rfl tells registration member
        right
        simpa [created, list, FailFastList.iterator] using listed
  | @loopNext _ cursor client =>
      obtain ⟨hasBegun, expected, passed⟩ := covers
      obtain ⟨current, item⟩ := App.of_loopNext appStepped
      have inCallback : Quiet [.callback] := by simp [Quiet, Activation.quiet]
      refine .telling inCallback ⟨by simp [begun, hasBegun], by rwa [list], ?_⟩
      intro _ registration member
      rw [registered] at member
      rw [told, list]
      rcases passed current registration member with already | ahead
      · exact Or.inl (List.mem_append_left _ already)
      · rw [@List.drop_eq_getElem?_toList_append _ _ cursor.nextIndex, item] at ahead
        rcases List.mem_cons.mp ahead with now | later
        · exact Or.inl (by simp [toldBy, tellsFirst, now])
        · exact Or.inr later
  | @loopEnd _ cursor =>
      have ended := App.of_loopEnd appStepped
      have all := Covers.allTold covers (fun _ => ended) (met.unchanged tells cursor rfl)
      exact .telling noneYet (allTold covers.1 (by simpa [toldBy] using told) all)
  | @loopStale _ cursor =>
      have modified := App.of_loopStale appStepped
      have all := Covers.allTold covers (fun current => absurd current modified)
        (met.unchanged tells cursor rfl)
      exact .running rfl (allTold covers.1 (by simpa [toldBy] using told) all)
  | notifyUnlocks => exact .running rfl (allTold covers.1 (by simpa [toldBy] using told) covers.2)

theorem CaptureStack.step (own : tracked.CaptureStack (tracked.app.stackOf thread))
    (met : NoneMissed tracked (thread, action))
    (stepped : tracked.step (thread, action) = some next) :
    next.CaptureStack (next.app.stackOf thread) := by
  have moved := App.moved_of_step (of_step stepped).1
  generalize stack : tracked.app.stackOf thread = before at own
  rw [stack] at moved
  cases own with
  | running agrees first =>
      have kept := kept_of_step met (by rw [stack]; rfl) stepped
      exact .of_running agrees (first.of_kept kept) moved
  | @telling upper pc isQuiet covers =>
      cases upper with
      | nil => exact .of_telling met covers stack stepped
      | cons top rest =>
          have outside : tellsFirst (tracked.app.stackOf thread) = false := by
            rw [stack]
            exact Activation.not_tellsFirst (isQuiet top (by simp))
          obtain ⟨upper, upperMoved, placed⟩ := App.nextStack_append moved
          rw [← placed]
          exact .telling (isQuiet.next upperMoved)
            (covers.of_kept (kept_of_step met outside stepped))
  | done isQuiet => exact .done (isQuiet.next moved)

theorem Informs.step (informs : Informs capture tracked)
    (met : NoneMissed tracked (thread, action))
    (stepped : tracked.step (thread, action) = some next) : Informs capture next := by
  have appStepped := (of_step stepped).1
  have unmoved : ∀ other, other ≠ capture → other ≠ thread → Quiet (next.app.stackOf other) := by
    intro other distinct still
    rw [App.other_of_step appStepped still]
    exact informs.others other distinct
  by_cases own : thread = capture
  · subst own
    exact ⟨informs.own.step met stepped, fun other distinct => unmoved other distinct distinct⟩
  · have isQuiet := informs.others thread own
    refine ⟨?_, fun other distinct => ?_⟩
    · rw [App.other_of_step appStepped (Ne.symm own)]
      exact informs.own.of_kept (kept_of_step met isQuiet.not_tellsFirst stepped)
    · by_cases mover : other = thread
      · subst mover
        exact isQuiet.next (App.moved_of_step appStepped)
      · exact unmoved other distinct mover

/-- A step that posts a frame is a step of the capture program, after its notification. -/
theorem Informs.postsTold (informs : Informs capture tracked)
    (stepped : tracked.step (thread, action) = some next) :
    PostsTold tracked (thread, action) := by
  intro surface posted registration member _
  have moved := App.moved_of_step (of_step stepped).1
  have notQuiet : ¬ Quiet (tracked.app.stackOf thread) := by
    intro isQuiet
    rw [isQuiet.not_posted moved] at posted
    cases posted
  have own : thread = capture := by
    by_contra other
    exact notQuiet (informs.others thread other)
  subst own
  have standing := informs.own
  generalize stack : tracked.app.stackOf thread = before at standing moved notQuiet
  cases standing with
  | running agrees first =>
      obtain ⟨frames, topMoved, -⟩ := Option.map_eq_some_iff.mp moved
      cases Activation.move_of_next topMoved with
      | native working inside =>
          cases inside with
          | capturing inner =>
              have drawn := inner.mayDraw_of_ofDraw (ofDraw_of_posted posted)
              rw [drawn.2 agrees] at first
              exact first.2 registration member
  | @telling upper pc isQuiet covers =>
      cases upper with
      | nil =>
          obtain ⟨frames, topMoved, -⟩ := Option.map_eq_some_iff.mp moved
          cases Activation.move_of_next topMoved <;> cases posted
      | cons top rest =>
          obtain ⟨upper, upperMoved, -⟩ := App.nextStack_append moved
          rw [isQuiet.not_posted upperMoved] at posted
          cases posted
  | done isQuiet => exact absurd isQuiet notQuiet

end Preservation

/-- In every run whose one notification misses no registered client, frames are posted only to
clients that have been told of the first one. -/
theorem postsTold_of_run {start final : Tracked} {capture : ThreadId}
    {events : List (ThreadId × JavaAction)} (begins : Begins start capture)
    (met : EveryStep NoneMissed start events) (ran : run start events = some final) :
    EveryStep PostsTold start events := by
  refine LabelledRun.everyStep_of_invariant ?_ ?_ begins.informs met ran
  · rintro before ⟨thread, action⟩ after informs met stepped
    exact informs.step met stepped
  · rintro before ⟨thread, action⟩ after informs - stepped
    exact informs.postsTold stepped

/-- `addClient` of an encoder client that has a valid surface. -/
def addEncoderSteps (client : ClientId) (surface : Surface) : List JavaAction :=
  [.enter (.update .addClient client), .lockClients, .changeList .addClient client, .callBack,
    .leave, .answerIsEncoder true, .callBack, .leave, .answerGetSurface (some surface),
    .callNative, .native (.getCamera true), .native (.surfaceValid true),
    .native (.lock .encoderLock), .native (.pushEncoder surface),
    .native (.unlock .encoderLock), .native .encodersSize, .leave, .unlockClients]

/-- The capture thread finds a frame in the buffer `index`. -/
def frameSteps (index : Nat) : List Action :=
  [.loopTest true, .readFd 5, .select 5 1 0, .recheck true, .clearBufInfo,
    .dequeueBuf 5 (.filled index)]

/-- From the beginning of `startCapture` until the first frame is announced. -/
def firstFrameSteps : List Action :=
  [.getCamera true, .readFd 5, .writePeek true] ++ frameSteps 2 ++ [.notify .firstCapture]

/-- The preview draw finds no surface. -/
def noPreviewSteps : List Action :=
  [.readPreview none, .lock .previewLock, .readPreview none, .freeScratch .yuv420sp,
    .unlock .previewLock]

/-- The frame is posted to the one registered surface. -/
def postSteps (index : Nat) (surface : Surface) : List Action :=
  [.lock .encoderLock, .encodersEmpty false, .allocScratch .rgba8888, .convert .rgba8888 index,
    .encoderAt 0 (some surface), .window (some surface) (.lockWindow true),
    .copyScratch .rgba8888, .window (some surface) .post]

/-- No surface is registered, and the capture loop is done with the frame. -/
def noEncoderSteps (index : Nat) : List Action :=
  [.lock .encoderLock, .encodersEmpty true, .unlock .encoderLock, .freeScratch .rgba8888,
    .requeueBuf 5 index true]

/-- Steps of one thread. -/
def onThread (thread : ThreadId) (actions : List JavaAction) : List (ThreadId × JavaAction) :=
  actions.map fun action => (thread, action)

/-- A client that was registered before the capture began, and is told before its frame. -/
def registeredFirstEvents : List (ThreadId × JavaAction) :=
  onThread 0 (addEncoderSteps 4 9) ++
    onThread 1 (firstFrameSteps.map .native ++
      [.lockClients, .iterator ⟨0, 1⟩, .loopNext ⟨0, 1⟩ 4, .leave, .loopEnd ⟨1, 1⟩,
        .unlockClients] ++
      (noPreviewSteps ++ postSteps 2 9).map .native)

set_option maxRecDepth 2000 in
theorem postsTold_registeredFirst :
    (run (opened 5 1) registeredFirstEvents).isSome = true ∧
      EveryStep PostsTold (opened 5 1) registeredFirstEvents := by
  obtain ⟨final, ran⟩ := Option.isSome_iff_exists.mp
    (by decide : (run (opened 5 1) registeredFirstEvents).isSome = true)
  have met : EveryStep NoneMissed (opened 5 1) registeredFirstEvents := by decide
  exact ⟨by simp [ran], postsTold_of_run (begins_opened 5 1) met ran⟩

/-- The client registers after the first frame, and gets the second. -/
def registeredLateEvents : List (ThreadId × JavaAction) :=
  onThread 1 (firstFrameSteps.map .native ++
      [.lockClients, .iterator ⟨0, 0⟩, .loopEnd ⟨0, 0⟩, .unlockClients] ++
      (noPreviewSteps ++ noEncoderSteps 2).map .native) ++
    onThread 0 (addEncoderSteps 4 9) ++
    onThread 1 ((frameSteps 3 ++ noPreviewSteps ++ postSteps 3 9).map .native)

set_option maxRecDepth 2000 in
/-- A client that registers during a capture is never told that it began. -/
theorem not_postsTold :
    ¬ ∀ start final capture events, Begins start capture → run start events = some final →
      EveryStep PostsTold start events := by
  intro told
  obtain ⟨final, ran⟩ := Option.isSome_iff_exists.mp
    (by decide : (run (opened 5 1) registeredLateEvents).isSome = true)
  exact absurd (told _ final 1 _ (begins_opened 5 1) ran) (by decide)

end Tracked

end UsbCamera
