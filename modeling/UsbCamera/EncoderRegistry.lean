import UsbCamera.JavaCamera
import UsbCamera.LabelledRun

/-!
# The native encoder list and the Java client list

`addClient` and `removeClient` keep two lists in step: `mClients`, where a removal
drops the first occurrence of the client, and the native `mEncoderSurfaces`, where it
drops every occurrence of whatever surface the client hands over at that moment.
The lists stay in step exactly as long as each removal is handed the surface of the
registration it removes, and no other registration has the same one.
-/

namespace UsbCamera

/-! ## Registrations -/

/-- A client in `mClients`, with the encoder surface that was handed over when it was
added. -/
structure Registration where
  client : ClientId
  handed : Option Surface
  deriving DecidableEq

/-- The native surface a call accepts. -/
def accepted (jsurface : Option JSurface) : Option Surface :=
  jsurface.bind fun surface => if surface.isValid then some surface.nativeSurface else none

/-- A call of `addClient` or `removeClient`, with the surface `getSurface()` answers
during it. -/
inductive ClientCall
  | add (client : ClientId) (jsurface : Option JSurface)
  | remove (client : ClientId) (jsurface : Option JSurface)
  deriving DecidableEq

/-- The camera together with the registrations its calls have made. -/
structure Registry where
  camera : JavaCamera
  registrations : List Registration

namespace Registry

/-- The surfaces handed over by the registrations. -/
def surfaces (registrations : List Registration) : List Surface :=
  registrations.filterMap Registration.handed

/-- The surface handed over by the registration that a removal of `client` drops. -/
def handedBy (client : ClientId) (registrations : List Registration) : Option Surface :=
  (registrations.find? fun registration => registration.client = client).bind
    Registration.handed

def drop (client : ClientId) (registrations : List Registration) : List Registration :=
  registrations.eraseP fun registration => registration.client = client

variable (isEncoder : ClientId → Bool)

def answers (client : ClientId) (jsurface : Option JSurface) : Answers where
  isEncoder := .ok (isEncoder client)
  getSurface := .ok jsurface

/-- What a call of a client that returns from its callbacks does. -/
def perform : ClientCall → JavaCamera.Java Unit
  | .add client jsurface => JavaCamera.addClient client (answers isEncoder client jsurface)
  | .remove client jsurface =>
      JavaCamera.removeClient client (answers isEncoder client jsurface)

def register (registrations : List Registration) : ClientCall → List Registration
  | .add client jsurface =>
      registrations ++ [⟨client, if isEncoder client then accepted jsurface else none⟩]
  | .remove client _ => drop client registrations

def step (registry : Registry) (call : ClientCall) : Option Registry :=
  match (perform isEncoder call).exec registry.camera with
  | some (.ok (), camera) => some ⟨camera, register isEncoder registry.registrations call⟩
  | _ => none

def fresh : Registry := ⟨JavaCamera.create, []⟩

/-- The registrations are those of the clients in `mClients`, and `mEncoderSurfaces`
holds what the encoders among them handed over, in order. -/
structure Mirrors (registry : Registry) : Prop where
  clients : registry.camera.mClients.items = registry.registrations.map Registration.client
  encoders : ∃ native, registry.camera.mNativeObject = some native ∧
    native.mEncoderSurfaces = surfaces registry.registrations

/-- The removal of an encoder is handed the surface of the registration it drops, and
no other registration handed over the same; when that registration has no surface,
or there is none, it is handed nothing that is registered. -/
def RemovesOwn (registry : Registry) : ClientCall → Prop
  | .add _ _ => True
  | .remove client jsurface =>
      isEncoder client = true →
        match handedBy client registry.registrations with
        | some own =>
            accepted jsurface = some own ∧ (surfaces registry.registrations).count own = 1
        | none => ∀ target ∈ accepted jsurface, target ∉ surfaces registry.registrations

/-! ## The two removals -/

/-- Dropping a registration takes the surface it handed over, if any, out of the
list. -/
theorem surfaces_drop (client : ClientId) (registrations : List Registration) :
    ∃ before after,
      surfaces registrations =
        before ++ (handedBy client registrations).toList ++ after ∧
      surfaces (drop client registrations) = before ++ after := by
  induction registrations with
  | nil => exact ⟨[], [], rfl, rfl⟩
  | cons registration registrations ih =>
      by_cases same : registration.client = client
      · refine ⟨[], surfaces registrations, ?_, ?_⟩
        · cases handed : registration.handed <;>
            simp [surfaces, handedBy, same, handed]
        · simp [surfaces, drop, same]
      · obtain ⟨before, after, split, dropped⟩ := ih
        refine ⟨registration.handed.toList ++ before, after, ?_, ?_⟩
        · have others : handedBy client (registration :: registrations) =
              handedBy client registrations := by
            simp [handedBy, same]
          rw [others]
          cases handed : registration.handed <;>
            simp [surfaces, handed] at split ⊢ <;> simp [split]
        · cases handed : registration.handed <;>
            simp [surfaces, drop, same, handed] at dropped ⊢ <;> simp [dropped]

/-- Filtering out a surface drops just one entry exactly when it is that entry and
nowhere else. -/
theorem filter_ne_eq_iff {before after : List Surface} {own target : Surface} :
    ((before ++ own :: after).filter fun other => other ≠ target) = before ++ after ↔
      target = own ∧ (before ++ own :: after).count own = 1 := by
  constructor
  · intro filtered
    have absent : target ∉ before ++ after := by
      rw [← filtered]
      simp
    have same : target = own := by
      by_contra distinct
      have size := congrArg List.length filtered
      rw [List.filter_eq_self.mpr] at size
      · simp at size
      · intro other member
        have kept : other ≠ target := by
          rintro rfl
          rcases List.mem_append.mp member with left | right
          · exact absent (List.mem_append_left _ left)
          · rcases List.mem_cons.mp right with head | later
            · exact distinct head
            · exact absent (List.mem_append_right _ later)
        simpa using kept
    subst same
    refine ⟨rfl, ?_⟩
    have none := List.count_eq_zero.mpr absent
    simp only [List.count_append, List.count_cons_self] at none ⊢
    omega
  · rintro ⟨rfl, once⟩
    have absent : target ∉ before ++ after := by
      rw [← List.count_eq_zero]
      simp only [List.count_append, List.count_cons_self] at once ⊢
      omega
    rw [List.filter_append, List.filter_cons_of_neg (by simp), ← List.filter_append]
    rw [List.filter_eq_self]
    intro other member
    have kept : other ≠ target := by
      rintro rfl
      exact absent member
    simpa using kept

/-! ## The native side of a call -/

theorem setPreviewSurface_mEncoderSurfaces (native : NativeSurfaces)
    (jsurface : Option JSurface) :
    (native.setPreviewSurface jsurface).mEncoderSurfaces = native.mEncoderSurfaces := by
  cases jsurface with
  | none => rfl
  | some surface =>
      by_cases valid : surface.isValid <;> simp [NativeSurfaces.setPreviewSurface, valid]

theorem addEncoderSurface_mEncoderSurfaces (native : NativeSurfaces)
    (jsurface : Option JSurface) :
    (native.addEncoderSurface jsurface).mEncoderSurfaces =
      native.mEncoderSurfaces ++ (accepted jsurface).toList := by
  cases jsurface with
  | none => simp [NativeSurfaces.addEncoderSurface, accepted]
  | some surface =>
      by_cases valid : surface.isValid <;>
        simp [NativeSurfaces.addEncoderSurface, accepted, valid]

theorem removeEncoderSurface_mEncoderSurfaces (native : NativeSurfaces)
    (jsurface : Option JSurface) :
    (native.removeEncoderSurface jsurface).mEncoderSurfaces =
      match accepted jsurface with
      | some target => native.mEncoderSurfaces.filter fun other => other ≠ target
      | none => native.mEncoderSurfaces := by
  cases jsurface with
  | none => rfl
  | some surface =>
      by_cases valid : surface.isValid <;>
        simp [NativeSurfaces.removeEncoderSurface, accepted, valid]

/-- What the native removal leaves is what dropping the registration leaves exactly
when the removal was handed that registration's own surface. -/
theorem removeEncoderSurface_eq_iff (client : ClientId) (registrations : List Registration)
    {native : NativeSurfaces} (jsurface : Option JSurface)
    (mirrored : native.mEncoderSurfaces = surfaces registrations) :
    (native.removeEncoderSurface jsurface).mEncoderSurfaces =
        surfaces (drop client registrations) ↔
      match handedBy client registrations with
      | some own => accepted jsurface = some own ∧ (surfaces registrations).count own = 1
      | none => ∀ target ∈ accepted jsurface, target ∉ surfaces registrations := by
  obtain ⟨before, after, split, dropped⟩ := surfaces_drop client registrations
  rw [removeEncoderSurface_mEncoderSurfaces, mirrored, dropped, split]
  cases handedBy client registrations with
  | none =>
      simp only [Option.toList_none, List.append_nil]
      cases accepted jsurface with
      | none => simp
      | some target =>
          simp only [Option.mem_some_iff, forall_eq']
          rw [List.filter_eq_self]
          constructor
          · intro kept member
            simpa using kept target member
          · intro absent other member
            have distinct : other ≠ target := fun same => absent (same ▸ member)
            simpa using distinct
  | some own =>
      simp only [Option.toList_some, List.append_assoc, List.singleton_append]
      cases accepted jsurface with
      | none => simp
      | some target =>
          simp only [Option.some.injEq]
          exact filter_ne_eq_iff

/-! ## One call -/

/-- Clients that are not encoders have handed over no encoder surface. -/
def PreviewsHandNothing (registry : Registry) : Prop :=
  ∀ registration ∈ registry.registrations,
    isEncoder registration.client = false → registration.handed = none

variable {isEncoder} {registry next : Registry} {call : ClientCall}

theorem exists_step (registry : Registry) (call : ClientCall) :
    ∃ next, step isEncoder registry call = some next := by
  cases call with
  | add client jsurface =>
      simp [step, perform, answers, JavaCamera.exec_addClient]
  | remove client jsurface =>
      simp [step, perform, answers, JavaCamera.exec_removeClient]

theorem step_add {client : ClientId} {jsurface : Option JSurface}
    (stepped : step isEncoder registry (.add client jsurface) = some next) :
    next.camera.mClients = registry.camera.mClients.add client ∧
      next.camera.mNativeObject = (registry.camera.mNativeObject.map fun native =>
        if isEncoder client then native.addEncoderSurface jsurface
        else native.setPreviewSurface jsurface) ∧
      next.registrations = register isEncoder registry.registrations (.add client jsurface) := by
  simp only [step, perform, answers, JavaCamera.exec_addClient, Option.some.injEq] at stepped
  rw [← stepped]
  exact ⟨rfl, rfl, rfl⟩

theorem step_remove {client : ClientId} {jsurface : Option JSurface}
    (stepped : step isEncoder registry (.remove client jsurface) = some next) :
    next.camera.mClients = registry.camera.mClients.remove client ∧
      next.camera.mNativeObject = (registry.camera.mNativeObject.map fun native =>
        if isEncoder client then native.removeEncoderSurface jsurface
        else native.setPreviewSurface none) ∧
      next.registrations = drop client registry.registrations := by
  simp only [step, perform, answers, JavaCamera.exec_removeClient, Option.some.injEq] at stepped
  rw [← stepped]
  exact ⟨rfl, rfl, rfl⟩

theorem PreviewsHandNothing.step (nothing : PreviewsHandNothing isEncoder registry)
    (stepped : Registry.step isEncoder registry call = some next) :
    PreviewsHandNothing isEncoder next := by
  cases call with
  | add client jsurface =>
      obtain ⟨-, -, registered⟩ := step_add stepped
      intro registration member preview
      rw [registered, register] at member
      rcases List.mem_append.mp member with earlier | added
      · exact nothing registration earlier preview
      · rw [List.mem_singleton.mp added] at preview ⊢
        simp [preview]
  | remove client jsurface =>
      obtain ⟨-, -, registered⟩ := step_remove stepped
      intro registration member preview
      rw [registered] at member
      exact nothing registration (List.mem_of_mem_eraseP member) preview

/-- Both lists drop the first registration of the client. -/
theorem map_client_drop (client : ClientId) (registrations : List Registration) :
    (drop client registrations).map Registration.client =
      (registrations.map Registration.client).erase client := by
  induction registrations with
  | nil => rfl
  | cons registration registrations ih =>
      by_cases same : registration.client = client
      · simp [drop, same]
      · simp only [drop] at ih
        simp [drop, same, ih]

/-- Adding a client keeps the lists in step. -/
theorem Mirrors.add {client : ClientId} {jsurface : Option JSurface}
    (mirrors : Mirrors registry)
    (stepped : Registry.step isEncoder registry (.add client jsurface) = some next) :
    Mirrors next := by
  obtain ⟨clients, pointer, registered⟩ := step_add stepped
  obtain ⟨native, attached, encoders⟩ := mirrors.encoders
  rw [attached, Option.map_some] at pointer
  constructor
  · rw [clients, registered]
    simp [register, FailFastList.add, mirrors.clients]
  · refine ⟨_, pointer, ?_⟩
    rw [registered]
    by_cases encoder : isEncoder client
    · simp only [encoder, if_true, register, addEncoderSurface_mEncoderSurfaces, encoders,
        surfaces, List.filterMap_append]
      cases accepted jsurface <;> rfl
    · simp [encoder, register, setPreviewSurface_mEncoderSurfaces, encoders, surfaces]

theorem PreviewsHandNothing.surfaces_drop {client : ClientId}
    (nothing : PreviewsHandNothing isEncoder registry) (preview : isEncoder client = false) :
    surfaces (drop client registry.registrations) = surfaces registry.registrations := by
  have handed : handedBy client registry.registrations = none := by
    unfold handedBy
    cases found : registry.registrations.find? fun registration =>
        registration.client = client with
    | none => rfl
    | some registration =>
        have same : registration.client = client := by
          simpa using List.find?_some found
        exact nothing registration (List.mem_of_find?_eq_some found) (same ▸ preview)
  obtain ⟨before, after, split, dropped⟩ :=
    Registry.surfaces_drop client registry.registrations
  rw [dropped, split, handed]
  simp

/-- Removing a client keeps the lists in step exactly when it removes its own
surface. -/
theorem Mirrors.remove_iff {client : ClientId} {jsurface : Option JSurface}
    (mirrors : Mirrors registry) (nothing : PreviewsHandNothing isEncoder registry)
    (stepped : Registry.step isEncoder registry (.remove client jsurface) = some next) :
    Mirrors next ↔ RemovesOwn isEncoder registry (.remove client jsurface) := by
  obtain ⟨clients, pointer, registered⟩ := step_remove stepped
  obtain ⟨native, attached, encoders⟩ := mirrors.encoders
  rw [attached, Option.map_some] at pointer
  have sameClients :
      next.camera.mClients.items = next.registrations.map Registration.client := by
    rw [clients, registered, map_client_drop, FailFastList.remove_items, mirrors.clients]
  have exact : Mirrors next ↔
      (if isEncoder client then native.removeEncoderSurface jsurface
        else native.setPreviewSurface none).mEncoderSurfaces =
        surfaces (drop client registry.registrations) := by
    constructor
    · rintro ⟨-, after, same, mirrored⟩
      rw [pointer] at same
      rw [Option.some.inj same, mirrored, registered]
    · intro mirrored
      exact ⟨sameClients, _, pointer, by rw [mirrored, registered]⟩
  rw [exact]
  by_cases encoder : isEncoder client
  · simp only [encoder, if_true, RemovesOwn, forall_const]
    exact removeEncoderSurface_eq_iff client registry.registrations jsurface encoders
  · have preview : isEncoder client = false := by simpa using encoder
    have kept := nothing.surfaces_drop preview
    simp [preview, RemovesOwn, setPreviewSurface_mEncoderSurfaces, encoders, kept]

theorem mirrors_iff (mirrors : Mirrors registry)
    (nothing : PreviewsHandNothing isEncoder registry)
    (stepped : Registry.step isEncoder registry call = some next) :
    Mirrors next ↔ RemovesOwn isEncoder registry call := by
  cases call with
  | add client jsurface =>
      simp only [RemovesOwn, iff_true]
      exact mirrors.add stepped
  | remove client jsurface => exact mirrors.remove_iff nothing stepped

/-! ## Every sequence of calls -/

theorem mirrors_fresh : Mirrors fresh :=
  ⟨rfl, ⟨none, []⟩, rfl, rfl⟩

/-- After every call the native list mirrors the client list exactly when every
removal of an encoder client is handed its own surface. -/
theorem mirrors_after_calls_iff (isEncoder : ClientId → Bool) (calls : List ClientCall) :
    (∀ before after registry, calls = before ++ after →
        LabelledRun.run (step isEncoder) fresh before = some registry → Mirrors registry) ↔
      LabelledRun.EveryStep (step isEncoder) (RemovesOwn isEncoder) fresh calls := by
  have nothing : PreviewsHandNothing isEncoder fresh := by
    intro registration member
    cases member
  refine LabelledRun.forall_prefix_iff_everyStep exists_step ?_ ?_ nothing mirrors_fresh
  · intro registry call next nothing stepped
    exact nothing.step stepped
  · intro registry call next nothing mirrors stepped
    exact mirrors_iff mirrors nothing stepped

/-- An encoder client whose `getSurface()` makes a new surface on each call, as
`MediaCodec.createInputSurface` does. -/
def newSurfaceCalls : List ClientCall :=
  [.add 1 (some ⟨10, true⟩), .remove 1 (some ⟨11, true⟩)]

theorem not_mirrors_after_calls :
    ¬ ∀ (isEncoder : ClientId → Bool) (calls before after : List ClientCall)
        (registry : Registry), calls = before ++ after →
      LabelledRun.run (step isEncoder) fresh before = some registry → Mirrors registry := by
  intro always
  have mirrors := always (fun _ => true) newSurfaceCalls newSurfaceCalls []
    ⟨⟨⟨[], 2⟩, 0, some ⟨none, [10]⟩, 0⟩, []⟩ rfl rfl
  obtain ⟨native, attached, encoders⟩ := mirrors.encoders
  cases attached
  cases encoders

end Registry

end UsbCamera
