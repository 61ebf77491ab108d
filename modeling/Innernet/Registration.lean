import Innernet.Server.Guarantees
import Innernet.State

/-! A peer's registration, from both ends: the endpoint that changes it and resubmits it until the
server has answered, and the server's compare-and-swap with its path for a lost reply. -/
namespace Innernet

open Fallible Tables Runs

/-- An endpoint and the server it registers with. -/
structure Registrar where
  endpoint : EndpointState
  db : Database

/-- The path of a registration: `submit_pending_registration` sends one request, whose reply may
be lost; the endpoint changes its registration; the server works for others. -/
inductive Change where
  | disable
  | emergencyRetire
  | replace (identity : Identity)
  | submitPendingRegistration (limits : Limits) (size now : Nat) (reply : Bool)
  | elsewhere (op : Operation)

namespace Registrar

variable [Native]

def id (t : Registrar) : Nat := t.endpoint.peerId.val

/-- The bundle the server holds for the endpoint. -/
def held (t : Registrar) : Option AdvertisedBundle := t.db.bundles.lookup t.id

/-- The registration has not settled. -/
def Pending (t : Registrar) : Prop :=
  t.endpoint.enrollment = .registering ∨ t.endpoint.enrollment = .retiring

/-- What the endpoint keeps when the reply arrives. -/
def answered (s : EndpointState) : Except ServerError AdvertisedBundle → EndpointState
  | .error _ => s
  | .ok advertised =>
    match s.acceptRegistration advertised with
    | .error _ => s
    | .ok settled => settled

/-- A fresh identity has an id no bundle was ever registered under; other requests leave this
peer's bundle alone and do not take the id it is about to register. -/
inductive Step (key : String) : Registrar → Change → Registrar → Prop where
  | disable {t : Registrar} {s : EndpointState} :
      t.endpoint.disable = .ok s → Step key t .disable { t with endpoint := s }
  | emergencyRetire {t : Registrar} :
      Step key t .emergencyRetire { t with endpoint := t.endpoint.emergencyRetire }
  | replace {t : Registrar} {s : EndpointState} {identity : Identity} :
      t.endpoint.replace identity = .ok s →
      t.db.bundleHistory.lookup identity.bundle.bundleId = none →
      Step key t (.replace identity) { t with endpoint := s }
  | submit {t : Registrar} {limits : Limits} {size now : Nat} {reply : Bool} :
      t.Pending → Step key t (.submitPendingRegistration limits size now reply) {
        endpoint := if reply then
          answered t.endpoint
            (t.db.register t.id key t.endpoint.registration limits size now).1 else t.endpoint
        db := (t.db.register t.id key t.endpoint.registration limits size now).2 }
  | elsewhere {t : Registrar} {op : Operation} :
      (op.apply t.db).bundles.lookup t.id = t.held →
      (t.db.bundleHistory.lookup t.endpoint.registration.bundle.bundleId = none →
        (op.apply t.db).bundleHistory.lookup t.endpoint.registration.bundle.bundleId = none) →
      Step key t (.elsewhere op) { t with db := op.apply t.db }

/-- The endpoint never retires its bundle, and replaces it only when the server holds it. -/
def Orderly (m : Move Registrar Change) : Prop :=
  match m.label with
  | .disable | .emergencyRetire => False
  | .replace _ => m.before.held.map (fun a => a.bundle.bundleRevision) =
      some m.before.endpoint.identity.bundle.bundleRevision
  | _ => True

/-- A registered endpoint: what it registered is what the server holds. -/
structure Registered (key : String) (t : Registrar) : Prop where
  enrollment : t.endpoint.enrollment = .advertised
  bundle : t.endpoint.registration.bundle = t.endpoint.identity.bundle
  lifecycle : t.endpoint.registration.lifecycle = .enabled
  version : t.endpoint.registration.pqVersion = 1
  emergency : t.endpoint.registration.emergency = false
  revision : Database.nextRevision t.endpoint.registration.expectedRevision =
    .ok t.endpoint.identity.bundle.bundleRevision
  key : Key.fromBase64 key = some t.endpoint.identity.bundle.wgPublicKey.bytes
  held : t.held = some ⟨1, .enabled, t.endpoint.identity.bundle⟩

/-- The server serves the peer's registration: nothing but the registration itself can refuse. -/
structure Admits (key : String) (limits : Limits) (size : Nat) (t : Registrar) : Prop where
  ready : t.db.ready = true
  caller : ∃ row, t.db.caller t.id key = .ok row
  data : t.db.isServer t.id = .ok false
  idle : t.db.activeFor t.id = false ∨ (t.endpoint.registration.emergency = true ∧
    t.endpoint.registration.lifecycle = .retired)
  budget : t.db.budget limits size true = .ok ()

end Registrar

/-- An idle peer's server goes on admitting it through changes of its registration. -/
theorem Registrar.Admits.changed {key : String} {limits : Limits} {size : Nat} {t : Registrar}
    (admits : t.Admits key limits size) (idle : t.db.activeFor t.id = false) {s : EndpointState}
    (peerId : s.peerId = t.endpoint.peerId) : Registrar.Admits key limits size ⟨s, t.db⟩ := by
  have same : Registrar.id ⟨s, t.db⟩ = t.id := congrArg Number.val peerId
  refine ⟨admits.ready, ?_, ?_, .inl ?_, admits.budget⟩
  · rw [same]
    exact admits.caller
  · rw [same]
    exact admits.data
  · rw [same]
    exact idle

section Refusals

variable [Native]

open Database

/-- What is registered is what was asked for, one revision after the revision expected. -/
theorem Database.registerInner_desired {db db' : Database} {id : Nat} {key : String}
    {request : Registration} {limits : Limits} {size : Nat} {a : AdvertisedBundle}
    (done : db.registerInner id key request limits size = .ok (a, db')) :
    a = ⟨request.pqVersion, request.lifecycle, request.bundle⟩ ∧
      nextRevision request.expectedRevision = .ok request.bundle.bundleRevision ∧
      (db.view.bundle id = some a ∨
        (db.view.bundle id).map (fun b => b.bundle.bundleRevision) = request.expectedRevision) := by
  simp only [registerInner, bind_ok, pq_ok, require_ok] at done
  obtain ⟨_, _, _, _, _, _, _, _, current, read, _, _, _, _, next, following, _, same, done⟩ := done
  have here := bundle_ok read
  rw [← same] at following
  split at done
  · rename_i repeated
    cases done
    exact ⟨rfl, following, .inl (here.trans repeated)⟩
  · simp only [bind_ok, require_ok, pure_ok, Prod.mk.injEq] at done
    obtain ⟨_, expected, _, _, _, _, rfl, -⟩ := done
    exact ⟨rfl, following, .inr (here ▸ expected)⟩

/-- A request that asks for the revision it expects is refused by every server, for good. -/
theorem Database.same_revision_refused {db : Database} {id : Nat} {key : String}
    {request : Registration} {limits : Limits} {size : Nat}
    (same : request.expectedRevision = some request.bundle.bundleRevision) :
    ∃ e, db.registerInner id key request limits size = .error e := by
  rcases ok_or_error (db.registerInner id key request limits size) with
    ⟨⟨a, db'⟩, accepted⟩ | refused
  · have following := (registerInner_desired accepted).2.1
    rw [same] at following
    exact absurd rfl (Number.lt_of_next following).ne
  · exact refused

end Refusals

namespace Registrar

variable [Native]

open Database

/-- The pending registration follows the server's bundle by one revision under an unspent id, or
the server holds it already. -/
structure InStep (key : String) (t : Registrar) : Prop where
  sound : t.db.Sound
  bundle : t.endpoint.registration.bundle = t.endpoint.identity.bundle
  lifecycle : t.endpoint.registration.lifecycle = .enabled
  version : t.endpoint.registration.pqVersion = 1
  emergency : t.endpoint.registration.emergency = false
  revision : nextRevision t.endpoint.registration.expectedRevision =
    .ok t.endpoint.identity.bundle.bundleRevision
  key : Key.fromBase64 key = some t.endpoint.identity.bundle.wgPublicKey.bytes
  valid : t.endpoint.identity.bundle.validate = .ok ()
  held : t.held = some ⟨1, .enabled, t.endpoint.identity.bundle⟩ ∨
    (t.endpoint.enrollment = .registering ∧
      (t.held.map fun a => a.bundle.bundleRevision) = t.endpoint.registration.expectedRevision ∧
      (∀ a ∈ t.held, a.bundle.bundleId ≠ t.endpoint.identity.bundle.bundleId) ∧
      t.db.bundleHistory.lookup t.endpoint.identity.bundle.bundleId = none)

theorem Registered.inStep {key : String} {t : Registrar} (registered : t.Registered key)
    (sound : t.db.Sound) : t.InStep key where
  sound
  bundle := registered.bundle
  lifecycle := registered.lifecycle
  version := registered.version
  emergency := registered.emergency
  revision := registered.revision
  key := registered.key
  valid := (sound.ledger.checked t.id _ registered.held).1
  held := .inl registered.held

theorem replace_ok {s s' : EndpointState} {identity : Identity}
    (replaced : s.replace identity = .ok s') :
    s'.peerId = s.peerId ∧ s'.identity = identity ∧ s'.enrollment = .registering ∧
      s'.registration = ⟨some s.identity.bundle.bundleRevision, 1, .enabled, identity.bundle, false⟩ ∧
      identity.bundle.wgPublicKey = s.identity.bundle.wgPublicKey ∧
      identity.bundle.bundleId ≠ s.identity.bundle.bundleId ∧
      s.identity.bundle.bundleRevision.next = .ok identity.bundle.bundleRevision ∧
      identity.bundle.validate = .ok () := by
  simp only [EndpointState.replace, bind_ok, require_ok, pure_ok] at replaced
  obtain ⟨_, _, _, ⟨sameKey, newId⟩, following, next, _, revision, _, valid, rfl⟩ := replaced
  simp only [Identity.validate, bind_ok] at valid
  exact ⟨rfl, rfl, rfl, rfl, sameKey, newId, revision ▸ next, valid.choose_spec.1⟩

omit [Native] in
theorem disable_ok {s s' : EndpointState} (disabled : s.disable = .ok s') :
    s'.peerId = s.peerId ∧ s'.enrollment = .retiring ∧ s'.registration =
      ⟨some s.identity.bundle.bundleRevision, 1, .retired, s.identity.bundle, false⟩ := by
  simp only [EndpointState.disable, bind_ok, require_ok, pure_ok] at disabled
  obtain ⟨_, _, rfl⟩ := disabled
  exact ⟨rfl, rfl, rfl⟩

omit [Native] in
/-- An answer settles the enrollment or leaves the endpoint as it was. -/
theorem answered_cases (s : EndpointState) (answer : Except ServerError AdvertisedBundle) :
    answered s answer = s ∨ ∃ a enrollment, answer = .ok a ∧
      answered s answer = { s with enrollment } ∧
      a = ⟨1, s.registration.lifecycle, s.registration.bundle⟩ := by
  unfold answered
  split
  · exact .inl rfl
  · rename_i a
    split
    · exact .inl rfl
    · rename_i settled accepted
      simp only [EndpointState.acceptRegistration, bind_ok, require_ok, pure_ok] at accepted
      obtain ⟨_, ⟨bundle, lifecycle, version⟩, rfl⟩ := accepted
      refine .inr ⟨a, _, rfl, rfl, ?_⟩
      cases a
      cases bundle
      cases lifecycle
      cases version
      rfl

/-- What a registration leaves for the peer: its request, or what was there. -/
theorem register_cases {db : Database} (sound : db.Sound) (id : Nat) (key : String)
    (request : Registration) (limits : Limits) (size now : Nat) :
    ((db.register id key request limits size now).2.bundles.lookup id =
        some ⟨request.pqVersion, request.lifecycle, request.bundle⟩ ∧
      (db.register id key request limits size now).1 =
        .ok ⟨request.pqVersion, request.lifecycle, request.bundle⟩) ∨
    ((db.register id key request limits size now).2.bundles = db.bundles ∧
      (db.register id key request limits size now).2.bundleHistory = db.bundleHistory ∧
      ∃ e, (db.register id key request limits size now).1 = .error e) := by
  unfold register write
  cases sweep : db.sweepInner now with
  | error e => exact .inr ⟨rfl, rfl, e, rfl⟩
  | ok swept =>
    obtain ⟨-, only, soundSwept, -⟩ := sweepInner_ok sound sweep
    dsimp only
    cases outcome : swept.registerInner id key request limits size with
    | error e => exact .inr ⟨by rw [only], by rw [only], e, rfl⟩
    | ok done =>
      obtain ⟨a, db'⟩ := done
      obtain ⟨-, -, there, -⟩ := registerInner_ok soundSwept outcome
      obtain ⟨rfl, -⟩ := registerInner_desired outcome
      exact .inl ⟨there, rfl⟩

/-- Every orderly step keeps the two ends in step. -/
theorem InStep.step {key : String} {t t' : Registrar} {change : Change} (inStep : t.InStep key)
    (step : Step key t change t') (orderly : Orderly ⟨t, change, t'⟩) : t'.InStep key := by
  cases step with
  | disable => exact orderly.elim
  | emergencyRetire => exact orderly.elim
  | @replace s identity replaced unspent =>
    obtain ⟨peerId, sameIdentity, enrollment, registration, wg, newId, next, valid⟩ :=
      replace_ok replaced
    have orderly : t.held.map (fun a => a.bundle.bundleRevision) =
      some t.endpoint.identity.bundle.bundleRevision := orderly
    -- a registration the server has not seen yet expects an older revision than its own
    have held : t.held = some ⟨1, .enabled, t.endpoint.identity.bundle⟩ := by
      refine inStep.held.resolve_right fun ⟨_, expected, _⟩ => ?_
      have following := inStep.revision
      rw [← expected, orderly] at following
      exact absurd rfl (Number.lt_of_next following).ne
    have sameHeld : Registrar.held { t with endpoint := s } = t.held := by
      rw [Registrar.held, Registrar.held, Registrar.id, Registrar.id, peerId]
    refine ⟨inStep.sound, ?_, ?_, ?_, ?_, ?_, ?_, ?_, .inr ⟨enrollment, ?_, ?_, ?_⟩⟩
    · simp [registration, sameIdentity]
    · simp [registration]
    · simp [registration]
    · simp [registration]
    · simp [registration, sameIdentity, nextRevision, next]
    · simp [sameIdentity, wg, inStep.key]
    · simpa [sameIdentity] using valid
    · simp [sameHeld, held, registration]
    · simpa [sameHeld, held, sameIdentity] using newId.symm
    · exact sameIdentity.symm ▸ unspent
  | @submit limits size now reply pending =>
    have sound : (t.db.register t.id key t.endpoint.registration limits size now).2.Sound :=
      ((Operation.register t.id key t.endpoint.registration limits size now).reaches
        inStep.sound).sound
    have outcome := register_cases inStep.sound t.id key t.endpoint.registration limits size now
    have endpoint : (if reply then answered t.endpoint
        (t.db.register t.id key t.endpoint.registration limits size now).1 else t.endpoint) =
          t.endpoint ∨
        ∃ a enrollment, (t.db.register t.id key t.endpoint.registration limits size now).1 =
          .ok a ∧ (if reply then answered t.endpoint
            (t.db.register t.id key t.endpoint.registration limits size now).1 else t.endpoint) =
              { t.endpoint with enrollment } := by
      split
      · rcases answered_cases t.endpoint
          (t.db.register t.id key t.endpoint.registration limits size now).1 with
          same | ⟨a, enrollment, answer, settled, -⟩
        · exact .inl same
        · exact .inr ⟨a, enrollment, answer, settled⟩
      · exact .inl rfl
    rcases outcome with ⟨there, answer⟩ | ⟨bundles, history, e, refused⟩
    · rw [inStep.version, inStep.lifecycle, inStep.bundle] at there
      rcases endpoint with same | ⟨a, enrollment, -, same⟩
      · rw [same]
        exact ⟨sound, inStep.bundle, inStep.lifecycle, inStep.version, inStep.emergency,
          inStep.revision, inStep.key, inStep.valid, .inl there⟩
      · rw [same]
        exact ⟨sound, inStep.bundle, inStep.lifecycle, inStep.version, inStep.emergency,
          inStep.revision, inStep.key, inStep.valid, .inl there⟩
    · rcases endpoint with same | ⟨a, enrollment, answer, -⟩
      · rw [same]
        refine ⟨sound, inStep.bundle, inStep.lifecycle, inStep.version, inStep.emergency,
          inStep.revision, inStep.key, inStep.valid, ?_⟩
        simp only [Registrar.held, Registrar.id, bundles, history] at *
        exact inStep.held
      · rw [refused] at answer
        cases answer
  | @elsewhere op sameHeld unspent =>
    have sound := (op.reaches inStep.sound).sound
    refine ⟨sound, inStep.bundle, inStep.lifecycle, inStep.version, inStep.emergency,
      inStep.revision, inStep.key, inStep.valid, ?_⟩
    have same : Registrar.held { t with db := op.apply t.db } = t.held := sameHeld
    rw [same]
    rw [inStep.bundle] at unspent
    rcases inStep.held with held | ⟨enrollment, expected, newId, unspent'⟩
    · exact .inl held
    · exact .inr ⟨enrollment, expected, newId, unspent unspent'⟩

/-- In step, an admitting server accepts the registration. -/
theorem InStep.accepted {key : String} {t : Registrar} (inStep : t.InStep key) {limits : Limits}
    {size : Nat} (admits : t.Admits key limits size) : ∃ db',
      t.db.registerInner t.id key t.endpoint.registration limits size =
        .ok (⟨1, .enabled, t.endpoint.identity.bundle⟩, db') := by
  obtain ⟨row, caller⟩ := admits.caller
  have read := inStep.sound.bundle t.id
  have idle : t.db.activeFor t.id = false := by
    refine admits.idle.resolve_right fun both => ?_
    rw [inStep.emergency] at both
    cases both.1
  have holds : t.db.view.bundle t.id = t.held := rfl
  rw [holds] at read
  have request : t.endpoint.registration = ⟨t.endpoint.registration.expectedRevision, 1, .enabled,
      t.endpoint.identity.bundle, false⟩ := by
    rw [← inStep.version, ← inStep.lifecycle, ← inStep.bundle, ← inStep.emergency]
  generalize expected : t.endpoint.registration.expectedRevision = expectation at request
  rw [request]
  have following := inStep.revision
  rw [expected] at following
  by_cases repeated : t.held = some ⟨1, .enabled, t.endpoint.identity.bundle⟩
  · refine ⟨t.db, ?_⟩
    simp only [registerInner, bind_ok, pq_ok, require_ok]
    refine ⟨⟨⟩, admits.ready, row, caller, false, admits.data, ⟨⟩, rfl, t.held, read, ⟨⟩, inStep.valid,
      ⟨⟩, ⟨by simp, by simp, inStep.key⟩, _, following, ⟨⟩, rfl, ?_⟩
    rw [if_pos repeated]
    rfl
  · obtain ⟨-, revision, newId, unspent⟩ := inStep.held.resolve_left repeated
    rw [expected] at revision
    have enrolled : ∃ opened, t.db.enroll t.id ⟨expectation, 1, .enabled,
        t.endpoint.identity.bundle, false⟩ t.held limits size = .ok opened := by
      simp only [enroll, bind_ok, require_ok, pure_ok]
      exact ⟨_, ⟨⟩, admits.budget, ⟨⟩, newId, ⟨⟩, unspent, rfl⟩
    obtain ⟨opened, branch⟩ := enrolled
    refine ⟨opened.settleBundle t.id ⟨1, .enabled, t.endpoint.identity.bundle⟩, ?_⟩
    simp only [registerInner, bind_ok, pq_ok, require_ok]
    refine ⟨⟨⟩, admits.ready, row, caller, false, admits.data, ⟨⟩, rfl, t.held, read, ⟨⟩, inStep.valid,
      ⟨⟩, ⟨by simp, by simp, inStep.key⟩, _, following, ⟨⟩, rfl, ?_⟩
    rw [if_neg repeated]
    simp only [bind_ok, require_ok, changeLifecycle]
    exact ⟨⟨⟩, revision, ⟨⟩, .inl idle, opened, branch, rfl⟩

/-- In a run that never retires and replaces only what the server holds, an admitting server accepts
the registration, as the update it expects or as the retry of one already made, and the reply
settles it. -/
theorem pending_accepted {db₀ db : Database} {past : List (Move Database Operation)}
    (unused : db₀.Unused) (reached : Run Operation.Step db₀ past db) {key : String}
    {s : EndpointState} (registered : Registered key ⟨s, db⟩) {t : Registrar}
    {ms : List (Move Registrar Change)} (run : Run (Step key) ⟨s, db⟩ ms t)
    (orderly : ∀ m ∈ ms, Orderly m) {limits : Limits} {size : Nat}
    (admits : t.Admits key limits size) :
    ∃ a db', t.db.registerInner t.id key t.endpoint.registration limits size = .ok (a, db') ∧
      (t.held = some a ∨
        t.held.map (fun a => a.bundle.bundleRevision) = t.endpoint.registration.expectedRevision) ∧
      ∃ settled, t.endpoint.acceptRegistration a = .ok settled ∧
        ¬ Registrar.Pending ⟨settled, db'⟩ := by
  have inStep : t.InStep key := run.guarded (registered.inStep (Sound.reached unused reached))
    (fun _ _ _ held taken allowed => held.step taken allowed) orderly
  obtain ⟨db', accepted⟩ := inStep.accepted admits
  refine ⟨_, db', accepted, (registerInner_desired accepted).2.2,
    { t.endpoint with enrollment := .advertised }, ?_, ?_⟩
  · simp [EndpointState.acceptRegistration, inStep.bundle, inStep.lifecycle, require]
  · simp [Pending]

end Registrar

section Sample

open Arithmetic

def Arithmetic.renewed : Identity :=
  { identity 2 second with bundle := { (identity 2 second).bundle with bundleId := 12 } }

/-- The first peer and the server, both registrations made. -/
def Arithmetic.registrar : Registrar :=
  ⟨endpoint second (identity 2 first) ∅, served registrations⟩

theorem Arithmetic.unrefused_ok {α : Type} {x : Except ServerError α} (unrefused : refusal x = none) :
    ∃ a, x = .ok a := by
  rcases ok_or_error x with done | ⟨e, failed⟩
  · exact done
  · rw [failed] at unrefused
    cases unrefused

theorem Arithmetic.registrar_held :
    registrar.held = some ⟨1, .enabled, (identity 2 first).bundle⟩ ∧
      registrar.db.bundleHistory.lookup renewed.bundle.bundleId = none := by
  decide +kernel

theorem Arithmetic.registrar_admits :
    registrar.Admits (key 2) limits 0 ∧ registrar.db.activeFor registrar.id = false := by
  have serves : registrar.db.ready = true ∧ refusal (registrar.db.caller 2 (key 2)) = none ∧
      registrar.db.isServer 2 = .ok false ∧ registrar.db.activeFor 2 = false ∧
      registrar.db.budget limits 0 true = .ok () := by
    decide +kernel
  obtain ⟨ready, caller, data, idle, budget⟩ := serves
  exact ⟨⟨ready, unrefused_ok caller, data, .inl idle, budget⟩, idle⟩

theorem Arithmetic.registrar_registered : registrar.Registered (key 2) :=
  ⟨rfl, rfl, rfl, rfl, rfl, rfl, by decide +kernel, registrar_held.1⟩

theorem Registrar.pending_accepted_renewed : ∃ t : Registrar,
    @Step native (key 2) registrar (.replace renewed) t ∧ t.Pending ∧ ∃ a db',
      @Database.registerInner native t.db t.id (key 2) t.endpoint.registration limits 0 =
        .ok (a, db') := by
  have unrefused : refusal (pq (@EndpointState.replace native registrar.endpoint renewed)) = none := by
    decide +kernel
  obtain ⟨s, accepted⟩ := unrefused_ok unrefused
  have replaced := pq_ok.mp accepted
  obtain ⟨past, reached⟩ := served_run registrations
  obtain ⟨peerId, -, enrollment, -⟩ := @replace_ok native _ _ _ replaced
  have step : @Step native (key 2) registrar (.replace renewed) ⟨s, registrar.db⟩ :=
    @Step.replace native (key 2) registrar s renewed replaced registrar_held.2
  have orderly : ∀ m ∈ [(⟨registrar, .replace renewed, ⟨s, registrar.db⟩⟩ : Move Registrar Change)],
      Orderly m := by
    intro m member
    cases List.mem_singleton.mp member
    simp only [Orderly, registrar_held.1]
    rfl
  obtain ⟨a, db', accepted, -⟩ := @pending_accepted native _ _ _ site_unused reached _ _
    registrar_registered _ _ (.move .start step) orderly _ _
    (registrar_admits.1.changed registrar_admits.2 peerId)
  exact ⟨_, step, .inl enrollment, a, db', accepted⟩

/-- A retirement asks for the revision the server already holds. -/
theorem Registrar.retirement_refused : ∃ s, registrar.endpoint.disable = .ok s ∧
    Registrar.Pending ⟨s, registrar.db⟩ ∧ Registrar.Admits (key 2) limits 0 ⟨s, registrar.db⟩ ∧
      refusal (@Database.registerInner native registrar.db 2 (key 2) s.registration limits 0) =
        some .conflict := by
  have unrefused : refusal (pq registrar.endpoint.disable) = none := by decide +kernel
  obtain ⟨s, accepted⟩ := unrefused_ok unrefused
  have disabled := pq_ok.mp accepted
  obtain ⟨peerId, enrollment, registration⟩ := disable_ok disabled
  refine ⟨s, disabled, .inr enrollment,
    registrar_admits.1.changed registrar_admits.2 peerId, ?_⟩
  rw [registration]
  decide +kernel

end Sample

end Innernet
