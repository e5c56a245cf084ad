import UsbCamera.CaptureSession
import UsbCamera.DrawsDefined
import UsbCamera.MutexExclusion

/-!
# The rounds of the capture loop

A frame is handed over by `VIDIOC_DQBUF`, drawn to the preview and to the encoders, and given
back by `VIDIOC_QBUF`.  What a capture thread does with its frames is recorded here, with the
list of encoder surfaces at the moment it takes `mEncoderLock`.  Whatever the other threads do
before the camera is released, the record consists of whole rounds: each `VIDIOC_DQBUF` that
does not fail with `EAGAIN` is followed by one pass of the two draws and one `VIDIOC_QBUF`.
-/

namespace UsbCamera

/-! ## The record -/

/-- What a capture thread does with its frames. -/
inductive FrameMark
  | began
  | dequeued (result : DequeueResult)
  | told
  | queued (window : Option Surface) (ok : Bool)
  | offered (surfaces : List Surface)
  | tried (surface : Surface) (ok : Bool)
  | posted (surface : Surface)
  | requeued (ok : Bool)
  deriving DecidableEq

/-- The mark an action leaves while the encoder surfaces are `surfaces`. -/
def Action.frameMark (surfaces : List Surface) : Action → Option FrameMark
  | .writePeek true => some .began
  | .dequeueBuf _ result => some (.dequeued result)
  | .notify .firstCapture => some .told
  | .window surface (.queue ok) => some (.queued surface ok)
  | .lock .encoderLock => some (.offered surfaces)
  | .window (some surface) (.lockWindow ok) => some (.tried surface ok)
  | .window (some surface) .post => some (.posted surface)
  | .requeueBuf _ _ ok => some (.requeued ok)
  | _ => none

namespace World

/-- What an event adds to the record of a thread, which counts only its captures. -/
def film (thread : ThreadId) (world : World) (event : Event) : List FrameMark :=
  if event.1 = thread ∧ (world.threads thread).isCapturing = true then
    (event.2.frameMark world.camera.mEncoderSurfaces).toList
  else []

def frameRecord (thread : ThreadId) : World → List Event → List FrameMark
  | _, [] => []
  | world, event :: events =>
      film thread world event ++
        match world.step event with
        | some next => frameRecord thread next events
        | none => []

end World

/-! ## Rounds and sessions -/

/-- One lock for each surface, and a post for each lock that succeeds. -/
def tryMarks (tries : List (Surface × Bool)) : List FrameMark :=
  tries.flatMap fun attempt =>
    .tried attempt.1 attempt.2 :: if attempt.2 then [.posted attempt.1] else []

/-- A frame has been handed over, and Java is told of the first. -/
def pickedUp (first : Bool) (result : DequeueResult) : List FrameMark :=
  .dequeued result :: if first then [.told] else []

/-- At most one buffer is queued to the window of the preview. -/
def shownMarks (shown : Option (Option Surface × Bool)) : List FrameMark :=
  (shown.map fun buffer => .queued buffer.1 buffer.2).toList

/-- A round of the loop up to `VIDIOC_QBUF`.  Every outcome of `VIDIOC_DQBUF` but `EAGAIN` is
drawn. -/
structure Round where
  dequeued : DequeueResult
  shown : Option (Option Surface × Bool)
  tries : List (Surface × Bool)
  taken : dequeued ≠ .failed eagain

/-- Each surface in the list is tried once, in the order of the list. -/
def Round.marks (first : Bool) (round : Round) : List FrameMark :=
  pickedUp first round.dequeued ++ (shownMarks round.shown ++
    .offered (round.tries.map Prod.fst) :: tryMarks round.tries)

/-- How a session leaves the loop: between two rounds, or with one that fails. -/
inductive Ending
  | left
  | noBuffer
  | notRequeued (round : Round)

def Ending.marks (first : Bool) : Ending → List FrameMark
  | .left => []
  | .noBuffer => [.dequeued (.failed eagain)]
  | .notRequeued round => round.marks first ++ [.requeued false]

/-- Rounds that have given their frames back. -/
def drawnMarks : Bool → List Round → List FrameMark
  | _, [] => []
  | first, round :: rounds => round.marks first ++ .requeued true :: drawnMarks false rounds

def begunMarks (rounds : List Round) : List FrameMark :=
  .began :: drawnMarks true rounds

structure RecordedSession where
  rounds : List Round
  ending : Ending

def RecordedSession.marks (session : RecordedSession) : List FrameMark :=
  begunMarks session.rounds ++ session.ending.marks session.rounds.isEmpty

theorem drawnMarks_append (first : Bool) (rounds : List Round) (round : Round) :
    drawnMarks first (rounds ++ [round]) =
      drawnMarks first rounds ++
        (round.marks (first && rounds.isEmpty) ++ [.requeued true]) := by
  induction rounds generalizing first with
  | nil => simp [drawnMarks]
  | cons head rounds ih => simp [drawnMarks, ih]

theorem begunMarks_append (rounds : List Round) (round : Round) :
    begunMarks (rounds ++ [round]) =
      begunMarks rounds ++ (round.marks rounds.isEmpty ++ [.requeued true]) := by
  simp [begunMarks, drawnMarks_append]

theorem tryMarks_append (tries : List (Surface × Bool)) (attempt : Surface × Bool) :
    tryMarks (tries ++ [attempt]) =
      tryMarks tries ++
        .tried attempt.1 attempt.2 :: if attempt.2 then [.posted attempt.1] else [] := by
  simp [tryMarks]

theorem RecordedSession.prefix_of_round {rounds : List Round} {round : Round}
    {marks : List FrameMark} (before : marks <+: round.marks rounds.isEmpty) :
    begunMarks rounds ++ marks <+: RecordedSession.marks ⟨rounds, .notRequeued round⟩ :=
  (List.prefix_append_right_inj _).mpr (before.trans (List.prefix_append _ _))

/-! ## The draws of a round -/

/-- What the preview draw has left in the record. -/
def PreviewPc.Shown (marks : List FrameMark) : PreviewPc → Prop
  | .unlockQueued | .returned => ∃ shown, marks = shownMarks shown
  | _ => marks = []

/-- What the encoder draw has left, with the list as it is now. -/
def EncoderPc.Tried (surfaces : List Surface) (marks : List FrameMark) : EncoderPc → Prop
  | .lock => marks = []
  | .testEmpty | .allocScratch | .convert => marks = [.offered surfaces]
  | .unlockEmpty => surfaces = [] ∧ marks = [.offered []]
  | .freeScratch => marks = [.offered []]
  | .iterate position =>
      ∃ tries, tries.map Prod.fst = surfaces.take position ∧
        marks = .offered surfaces :: tryMarks tries
  | .lockWindow position window =>
      surfaces[position]? = some window ∧
        ∃ tries, tries.map Prod.fst = surfaces.take position ∧
          marks = .offered surfaces :: tryMarks tries
  | .copy position window | .post position window =>
      surfaces[position]? = some window ∧
        ∃ tries, tries.map Prod.fst = surfaces.take position ∧
          marks = .offered surfaces :: (tryMarks tries ++ [.tried window true])
  | .unlock =>
      ∃ tries, tries.map Prod.fst = surfaces ∧ marks = .offered surfaces :: tryMarks tries
  | .returned => ∃ tries, marks = .offered (tries.map Prod.fst) :: tryMarks tries

section Draws

variable {surfaces : List Surface} {marks : List FrameMark} {action : Action}

theorem PreviewPc.Shown.of_move (surfaces : List Surface) {pc pc' : PreviewPc}
    (shown : pc.Shown marks) (move : Move pc action pc') :
    pc'.Shown (marks ++ (action.frameMark surfaces).toList) := by
  cases move with
  | unlockEmpty | unlockFailed =>
      cases shown
      exact ⟨none, rfl⟩
  | @queue window ok =>
      cases shown
      exact ⟨some (window, ok), rfl⟩
  | unlockQueued =>
      obtain ⟨buffer, rfl⟩ := shown
      exact ⟨buffer, by simp [Action.frameMark]⟩
  | _ =>
      cases shown
      rfl

theorem map_fst_append_of_getElem {position : Nat} {window : Surface} (ok : Bool)
    {tries : List (Surface × Bool)} (there : surfaces[position]? = some window)
    (made : tries.map Prod.fst = surfaces.take position) :
    (tries ++ [(window, ok)]).map Prod.fst = surfaces.take (position + 1) := by
  rw [List.map_append, made, List.take_add_one, there]
  rfl

theorem EncoderPc.Tried.of_move {camera camera' : Camera} {thread : ThreadId} {pc pc' : EncoderPc}
    (tried : pc.Tried camera.mEncoderSurfaces marks) (move : Move pc action pc')
    (applied : camera.apply thread action = some camera') :
    pc'.Tried camera.mEncoderSurfaces
      (marks ++ (action.frameMark camera.mEncoderSurfaces).toList) := by
  cases move with
  | lock =>
      cases tried
      rfl
  | empty =>
      cases tried
      obtain ⟨isEmpty, -⟩ := Option.ite_none_right_eq_some.mp applied
      have none := List.isEmpty_iff.mp isEmpty.symm
      exact ⟨none, by rw [none]; rfl⟩
  | nonempty | allocScratch =>
      cases tried
      rfl
  | unlockEmpty =>
      obtain ⟨-, rfl⟩ := tried
      rfl
  | freeScratch =>
      cases tried
      exact ⟨[], rfl⟩
  | convert =>
      cases tried
      exact ⟨[], rfl, rfl⟩
  | @atEnd position =>
      obtain ⟨tries, made, rfl⟩ := tried
      obtain ⟨found, -⟩ := Option.ite_none_right_eq_some.mp applied
      have beyond := List.getElem?_eq_none_iff.mp found.symm
      rw [List.take_of_length_le beyond] at made
      exact ⟨tries, made, by simp [Action.frameMark]⟩
  | surface =>
      obtain ⟨tries, made, rfl⟩ := tried
      obtain ⟨found, -⟩ := Option.ite_none_right_eq_some.mp applied
      exact ⟨found.symm, tries, made, by simp [Action.frameMark]⟩
  | locked =>
      obtain ⟨there, tries, made, rfl⟩ := tried
      exact ⟨there, tries, made, by simp [Action.frameMark]⟩
  | @lockFailed position window =>
      obtain ⟨there, tries, made, rfl⟩ := tried
      refine ⟨tries ++ [(window, false)], map_fst_append_of_getElem _ there made, ?_⟩
      simp [Action.frameMark, tryMarks_append]
  | copy =>
      obtain ⟨there, tries, made, rfl⟩ := tried
      exact ⟨there, tries, made, by simp [Action.frameMark]⟩
  | @post position window =>
      obtain ⟨there, tries, made, rfl⟩ := tried
      refine ⟨tries ++ [(window, true)], map_fst_append_of_getElem _ there made, ?_⟩
      simp [Action.frameMark, tryMarks_append]
  | unlock =>
      obtain ⟨tries, made, rfl⟩ := tried
      exact ⟨tries, by simp [Action.frameMark, made]⟩

/-- Outside its section the draw does not depend on the list. -/
theorem EncoderPc.Tried.of_holds {pc : EncoderPc} (tried : pc.Tried surfaces marks)
    (outside : pc.holds ≠ some .encoderLock) (others : List Surface) : pc.Tried others marks := by
  cases pc with
  | lock | freeScratch | returned => exact tried
  | _ => exact absurd rfl outside

theorem PreviewPc.Shown.prefix_marks {pc : PreviewPc} (shown : pc.Shown marks) :
    ∃ buffer, marks <+: shownMarks buffer := by
  cases pc with
  | unlockQueued | returned =>
      obtain ⟨buffer, rfl⟩ := shown
      exact ⟨buffer, List.prefix_rfl⟩
  | _ =>
      cases shown
      exact ⟨none, List.nil_prefix⟩

/-- The surfaces not tried yet can still be tried. -/
theorem exists_completion {position : Nat} {tries : List (Surface × Bool)}
    (made : tries.map Prod.fst = surfaces.take position) :
    ∃ rest : List (Surface × Bool), (tries ++ rest).map Prod.fst = surfaces := by
  refine ⟨(surfaces.drop position).map fun surface => (surface, false), ?_⟩
  simp [made, Function.comp_def]

theorem EncoderPc.Tried.prefix_marks {pc : EncoderPc} (tried : pc.Tried surfaces marks) :
    ∃ tries, marks <+: .offered (tries.map Prod.fst) :: tryMarks tries := by
  have completed : ∀ {position : Nat} {tries : List (Surface × Bool)},
      tries.map Prod.fst = surfaces.take position → marks <+: .offered surfaces :: tryMarks tries →
      ∃ tries, marks <+: .offered (tries.map Prod.fst) :: tryMarks tries := by
    intro position tries made before
    obtain ⟨rest, whole⟩ := exists_completion made
    refine ⟨tries ++ rest, ?_⟩
    rw [whole, tryMarks, List.flatMap_append]
    exact before.trans (List.prefix_append _ _)
  cases pc with
  | lock =>
      cases tried
      exact ⟨[], List.nil_prefix⟩
  | testEmpty | allocScratch | convert =>
      cases tried
      have none : ([] : List (Surface × Bool)).map Prod.fst = surfaces.take 0 := rfl
      exact completed none List.prefix_rfl
  | unlockEmpty =>
      obtain ⟨-, rfl⟩ := tried
      exact ⟨[], List.prefix_rfl⟩
  | freeScratch =>
      cases tried
      exact ⟨[], List.prefix_rfl⟩
  | iterate =>
      obtain ⟨tries, made, rfl⟩ := tried
      exact completed made List.prefix_rfl
  | lockWindow =>
      obtain ⟨-, tries, made, rfl⟩ := tried
      exact completed made List.prefix_rfl
  | copy position window | post position window =>
      obtain ⟨there, tries, made, rfl⟩ := tried
      refine completed (map_fst_append_of_getElem true there made) ⟨[.posted window], ?_⟩
      simp [tryMarks_append]
  | unlock =>
      obtain ⟨tries, rfl, rfl⟩ := tried
      exact ⟨tries, List.prefix_rfl⟩
  | returned =>
      obtain ⟨tries, rfl⟩ := tried
      exact ⟨tries, List.prefix_rfl⟩

end Draws

/-! ## A session under way -/

/-- Between two rounds. -/
def CapturePc.between : CapturePc → Bool
  | .loopTest | .fdSet | .select | .recheck _ _ | .clearBufInfo | .dequeueBuf => true
  | _ => false

/-- Before or after the loop; `firstCapture` is still set before it. -/
def CapturePc.outsideLoop (first : Bool) : CapturePc → Bool
  | .getCamera | .checkFd | .raisePeek => first
  | .lowerPeek | .notifyStop | .closeFd | .clearFd | .notifyError | .returned => true
  | _ => false

def Pc.outsideLoop : Pc → Bool
  | .capturing first pc => pc.outsideLoop first
  | _ => true

theorem Pc.outsideLoop_of_not_capturing {pc : Pc} (elsewhere : ¬ pc.isCapturing = true) :
    pc.outsideLoop = true := by
  cases pc with
  | capturing => exact absurd rfl elsewhere
  | _ => rfl

theorem CapturePc.Move.keepsEncoders {first first' : Bool} {pc pc' : CapturePc} {action : Action}
    (move : Move first pc action first' pc') :
    (∀ surface, action ≠ .pushEncoder surface) ∧ ∀ surface, action ≠ .removeEncoder surface := by
  constructor
  · rintro surface rfl
    rcases move.own_or_draws with own | draws
    · cases own
    · cases draws
  · rintro surface rfl
    rcases move.own_or_draws with own | draws
    · cases own
    · cases draws

theorem CapturePc.afterDequeue_of_taken {first : Bool} {result : DequeueResult}
    (taken : result ≠ .failed eagain) :
    afterDequeue first result = if first then .notifyFirst else .preview .takeWindow := by
  cases result with
  | filled => rfl
  | failed errno =>
      have goesOn : errno ≠ eagain := by
        rintro rfl
        exact taken rfl
      exact if_neg goesOn

/-- The marks of the session a thread is in, by the point it has reached. -/
inductive Filming (surfaces : List Surface) : Pc → List FrameMark → Prop
  | outside {pc : Pc} : pc.outsideLoop = true → Filming surfaces pc []
  | between {first : Bool} {pc : CapturePc} (rounds : List Round) :
      rounds.isEmpty = first → pc.between = true →
      Filming surfaces (.capturing first pc) (begunMarks rounds)
  | telling {result : DequeueResult} :
      result ≠ .failed eagain →
      Filming surfaces (.capturing true .notifyFirst) (begunMarks [] ++ [.dequeued result])
  | preview {pc : PreviewPc} {result : DequeueResult} {marks : List FrameMark}
      (rounds : List Round) :
      result ≠ .failed eagain → pc.Shown marks →
      Filming surfaces (.capturing false (.preview pc))
        (begunMarks rounds ++ (pickedUp rounds.isEmpty result ++ marks))
  | encoder {pc : EncoderPc} {result : DequeueResult} {marks : List FrameMark}
      (rounds : List Round) (shown : Option (Option Surface × Bool)) :
      result ≠ .failed eagain → pc.Tried surfaces marks →
      Filming surfaces (.capturing false (.encoder pc))
        (begunMarks rounds ++ (pickedUp rounds.isEmpty result ++ (shownMarks shown ++ marks)))
  | requeueing (rounds : List Round) (round : Round) :
      Filming surfaces (.capturing false .requeueBuf)
        (begunMarks rounds ++ round.marks rounds.isEmpty)

/-- A step may end a session, and goes on in the one under way. -/
structure FilmsOn (surfaces : List Surface) (pc : Pc) (record : List FrameMark) : Prop where
  intro ::
  split : ∃ (ended : List RecordedSession) (marks : List FrameMark), Filming surfaces pc marks ∧
    record = ended.flatMap RecordedSession.marks ++ marks

namespace Filming

variable {surfaces : List Surface} {pc pc' : Pc} {marks : List FrameMark} {action : Action}

theorem filmsOn {record : List FrameMark} (filming : Filming surfaces pc marks)
    (same : record = marks) : FilmsOn surfaces pc record :=
  ⟨[], marks, filming, same⟩

theorem ends {pc : CapturePc} {first : Bool} {record : List FrameMark} (session : RecordedSession)
    (outside : pc.outsideLoop first = true) (same : record = session.marks) :
    FilmsOn surfaces (Pc.afterCapture first pc) record := by
  refine ⟨[session], [], .outside ?_, by simpa using same⟩
  cases pc <;> exact outside

/-- Another thread may change the list as long as this one is outside its section. -/
theorem of_other (filming : Filming surfaces pc marks) {others : List Surface}
    (kept : others = surfaces ∨ pc.holds ≠ some .encoderLock) : Filming others pc marks := by
  rcases kept with rfl | outside
  · exact filming
  · cases filming with
    | outside leaves => exact .outside leaves
    | between rounds isFirst inLoop => exact .between rounds isFirst inLoop
    | telling taken => exact .telling taken
    | preview rounds taken shown => exact .preview rounds taken shown
    | encoder rounds shown taken tried =>
        exact .encoder rounds shown taken (tried.of_holds outside others)
    | requeueing rounds round => exact .requeueing rounds round

/-- One step of the capture program. -/
theorem of_capture_move {camera camera' : Camera} {thread : ThreadId} {first first' : Bool}
    {pc pc' : CapturePc} (filming : Filming camera.mEncoderSurfaces (.capturing first pc) marks)
    (move : CapturePc.Move first pc action first' pc')
    (applied : camera.apply thread action = some camera') :
    FilmsOn camera.mEncoderSurfaces (Pc.afterCapture first' pc')
      (marks ++ (action.frameMark camera.mEncoderSurfaces).toList) := by
  cases filming with
  | outside leaves =>
      cases move with
      | attached | isOpen => exact filmsOn (.outside leaves) rfl
      | raisePeek =>
          cases (leaves : first = true)
          exact filmsOn (.between [] rfl rfl) rfl
      | detached | notOpen | lowerPeek | notifyStop | closeFd | clearFd | notifyError =>
          exact filmsOn (.outside rfl) rfl
      | _ => cases leaves
  | between rounds isFirst inLoop =>
      subst isFirst
      cases move with
      | enterLoop | fdSet | select | clearBufInfo =>
          exact filmsOn (.between rounds rfl rfl) (List.append_nil _)
      | leaveLoop | stopped => exact ends ⟨rounds, .left⟩ rfl rfl
      | @stillRunning result errno =>
          unfold CapturePc.afterSelect
          split_ifs
          · exact filmsOn (.between rounds rfl rfl) (List.append_nil _)
          · exact ends ⟨rounds, .left⟩ rfl rfl
          · exact ends ⟨rounds, .left⟩ rfl rfl
          · exact filmsOn (.between rounds rfl rfl) (List.append_nil _)
      | @dequeueBuf fd result =>
          by_cases gaveUp : result = .failed eagain
          · subst gaveUp
            exact ends ⟨rounds, .noBuffer⟩ rfl rfl
          · rw [CapturePc.afterDequeue_of_taken gaveUp]
            cases rounds with
            | nil => exact filmsOn (.telling gaveUp) rfl
            | cons round rounds =>
                exact filmsOn (.preview (round :: rounds) gaveUp rfl) (by rfl)
      | _ => cases inLoop
  | telling taken =>
      cases move with
      | notifyFirst => exact filmsOn (.preview [] taken rfl) (by rfl)
  | @preview _ result marks rounds taken shown =>
      cases move with
      | @preview _ after _ drawn =>
          have onward := shown.of_move camera.mEncoderSurfaces (PreviewPc.move_of_next drawn)
          by_cases returned : after = .returned
          · subst returned
            obtain ⟨shown, left⟩ := onward
            rw [if_pos rfl]
            refine filmsOn (.encoder rounds shown taken rfl) ?_
            rw [← left, List.append_nil, List.append_assoc, List.append_assoc]
          · rw [if_neg returned]
            refine filmsOn (.preview rounds taken onward) ?_
            rw [List.append_assoc, List.append_assoc]
  | @encoder _ result marks rounds shown taken tried =>
      cases move with
      | @encoder _ after _ drawn =>
          have onward := tried.of_move (EncoderPc.move_of_next drawn) applied
          by_cases returned : after = .returned
          · subst returned
            obtain ⟨tries, left⟩ := onward
            rw [if_pos rfl]
            refine filmsOn (.requeueing rounds ⟨result, shown, tries, taken⟩) ?_
            simp only [Round.marks, ← left, List.append_assoc]
          · rw [if_neg returned]
            refine filmsOn (.encoder rounds shown taken onward) ?_
            simp only [List.append_assoc]
  | requeueing rounds round =>
      cases move with
      | requeued =>
          refine filmsOn (.between (rounds ++ [round]) (by simp) rfl) ?_
          rw [begunMarks_append, List.append_assoc]
          rfl
      | requeueFailed => exact ends ⟨rounds, .notRequeued round⟩ rfl (List.append_assoc _ _ _)

theorem eq_nil_of_outside (filming : Filming surfaces pc marks)
    (outside : pc.outsideLoop = true) : marks = [] := by
  cases filming with
  | outside => rfl
  | @between _ pc _ _ inLoop => cases pc <;> first | cases inLoop; done | cases outside
  | _ => cases outside

theorem eq_nil_of_not_capturing (filming : Filming surfaces pc marks)
    (elsewhere : ¬ pc.isCapturing = true) : marks = [] :=
  filming.eq_nil_of_outside (Pc.outsideLoop_of_not_capturing elsewhere)

/-- A session under way is the beginning of one. -/
theorem prefix_session (filming : Filming surfaces pc marks) :
    ∃ session : RecordedSession, marks <+: session.marks := by
  cases filming with
  | outside => exact ⟨⟨[], .left⟩, List.nil_prefix⟩
  | between rounds => exact ⟨⟨rounds, .left⟩, List.prefix_append _ _⟩
  | @telling result taken =>
      have picked : [.dequeued result] <+: Round.marks true ⟨result, none, [], taken⟩ :=
        List.prefix_append _ _
      exact ⟨_, RecordedSession.prefix_of_round picked⟩
  | @preview _ result marks rounds taken shown =>
      obtain ⟨buffer, before⟩ := shown.prefix_marks
      have soFar : pickedUp rounds.isEmpty result ++ marks <+:
          Round.marks rounds.isEmpty ⟨result, buffer, [], taken⟩ :=
        (List.prefix_append_right_inj _).mpr (before.trans (List.prefix_append _ _))
      exact ⟨_, RecordedSession.prefix_of_round soFar⟩
  | @encoder _ result marks rounds buffer taken tried =>
      obtain ⟨tries, before⟩ := tried.prefix_marks
      have soFar : pickedUp rounds.isEmpty result ++ (shownMarks buffer ++ marks) <+:
          Round.marks rounds.isEmpty ⟨result, buffer, tries, taken⟩ :=
        (List.prefix_append_right_inj _).mpr ((List.prefix_append_right_inj _).mpr before)
      exact ⟨_, RecordedSession.prefix_of_round soFar⟩
  | requeueing rounds round => exact ⟨_, RecordedSession.prefix_of_round List.prefix_rfl⟩

end Filming

/-! ## The whole run -/

namespace World

section Runs

variable {world next final : World} {thread mover : ThreadId} {action : Action}
  {events : List Event} {marks : List FrameMark}

/-- The list of encoder surfaces changes only under `mEncoderLock`. -/
theorem encoders_of_step (stepped : world.step (mover, action) = some next) :
    next.camera.mEncoderSurfaces = world.camera.mEncoderSurfaces ∨
      (world.threads mover).holds = some .encoderLock := by
  by_cases guarded : action.guard = some .encoderLock
  · exact Or.inr (Pc.guarded_of_move (move_of_step stepped) guarded)
  · left
    apply Camera.mEncoderSurfaces_of_apply (camera_of_step stepped)
    · rintro surface rfl
      exact guarded rfl
    · rintro surface rfl
      exact guarded rfl

theorem filmsOn_of_own_step (filming : Filming world.camera.mEncoderSurfaces
      (world.threads thread) marks) (stepped : world.step (thread, action) = some next) :
    FilmsOn next.camera.mEncoderSurfaces (next.threads thread)
      (marks ++ film thread world (thread, action)) := by
  have move := move_of_step stepped
  have applied := camera_of_step stepped
  by_cases captures : (world.threads thread).isCapturing = true
  · rw [film, if_pos ⟨rfl, captures⟩]
    obtain ⟨first, pc, place⟩ := Pc.eq_capturing captures
    rw [place] at move filming
    generalize next.threads thread = after at move
    cases move with
    | capturing inner =>
        rw [Camera.mEncoderSurfaces_of_apply applied inner.keepsEncoders.1 inner.keepsEncoders.2]
        exact filming.of_capture_move inner applied
  · rw [film, if_neg fun both => captures both.2, filming.eq_nil_of_not_capturing captures]
    refine Filming.filmsOn (.outside (Pc.outsideLoop_of_not_capturing ?_)) rfl
    exact fun still => captures (Pc.isCapturing_of_move move still)

theorem filmsOn_of_step (exclusive : SectionsExclusive world)
    (filming : Filming world.camera.mEncoderSurfaces (world.threads thread) marks)
    (stepped : world.step (mover, action) = some next) :
    FilmsOn next.camera.mEncoderSurfaces (next.threads thread)
      (marks ++ film thread world (mover, action)) := by
  by_cases own : mover = thread
  · subst own
    exact filmsOn_of_own_step filming stepped
  · rw [film, if_neg fun both => own both.1, List.append_nil]
    rcases other_of_step stepped (Ne.symm own) with same | ⟨-, idle, begun⟩
    · rw [same]
      refine Filming.filmsOn (filming.of_other ?_) rfl
      rcases encoders_of_step stepped with kept | held
      · exact Or.inl kept
      · exact Or.inr fun also => own (exclusive.same held also)
    · rw [begun, filming.eq_nil_of_not_capturing (by simp [idle, Pc.isCapturing])]
      exact Filming.filmsOn (.outside rfl) rfl

theorem filmsOn_of_run (exclusive : SectionsExclusive world)
    (filming : Filming world.camera.mEncoderSurfaces (world.threads thread) marks)
    (ran : run world events = some final) :
    FilmsOn final.camera.mEncoderSurfaces (final.threads thread)
      (marks ++ frameRecord thread world events) := by
  induction events generalizing world marks with
  | nil =>
      cases Option.some.inj ran
      exact Filming.filmsOn filming (List.append_nil _)
  | cons event events ih =>
      obtain ⟨mover, action⟩ := event
      obtain ⟨next, stepped, onward⟩ := LabelledRun.run_cons_iff.mp ran
      obtain ⟨ended, marks', filming', written⟩ := filmsOn_of_step exclusive filming stepped
      obtain ⟨later, marks'', filming'', rest⟩ := ih (exclusive.step stepped) filming' onward
      refine ⟨ended ++ later, marks'', filming'', ?_⟩
      rw [frameRecord, stepped, ← List.append_assoc, written, List.append_assoc, rest,
        List.flatMap_append, List.append_assoc]

end Runs

/-- The record of a thread consists of the sessions it has ended and the beginning of the one it
is in, which is empty outside the capture loop. -/
structure WholeRounds (thread : ThreadId) (record : List FrameMark) (world : World) : Prop where
  intro ::
  split : ∃ (ended : List RecordedSession) (marks : List FrameMark),
    record = ended.flatMap RecordedSession.marks ++ marks ∧
      (∃ session : RecordedSession, marks <+: session.marks) ∧
      ((world.threads thread).outsideLoop = true → marks = [])

/-- In every interleaving each thread films whole rounds. -/
theorem wholeRounds_of_run {width height : Int} {events : List Event} {final : World}
    (thread : ThreadId) (ran : run (attached width height) events = some final) :
    WholeRounds thread (frameRecord thread (attached width height) events) final := by
  have filming : Filming (attached width height).camera.mEncoderSurfaces
      ((attached width height).threads thread) [] := .outside rfl
  obtain ⟨ended, marks, now, written⟩ :=
    filmsOn_of_run (sectionsExclusive_attached width height) filming ran
  exact ⟨ended, marks, written, now.prefix_session, now.eq_nil_of_outside⟩

theorem wholeRounds_drawnFrame :
    ∃ final, run (attached 640 480) (startEvents 5 1 ++ drawnFrameEvents) = some final ∧
      WholeRounds 1
        (frameRecord 1 (attached 640 480) (startEvents 5 1 ++ drawnFrameEvents)) final := by
  obtain ⟨final, ran⟩ := Option.isSome_iff_exists.mp
    (by decide : (run (attached 640 480) (startEvents 5 1 ++ drawnFrameEvents)).isSome = true)
  exact ⟨final, ran, wholeRounds_of_run 1 ran⟩

example : frameRecord 1 (attached 640 480) (startEvents 5 1 ++ drawnFrameEvents) =
    begunMarks [⟨.filled 2, some (some 7, true), [(9, true)], by decide⟩] := by
  decide

end World

end UsbCamera
