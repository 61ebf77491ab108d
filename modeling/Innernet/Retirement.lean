import Innernet.Arithmetic

/-! Retiring an interface and enabling it again: what a retired endpoint may still start, and which
relationships its replacement recovers. -/
namespace Innernet

open Fallible Runs Tables

section Steps

variable [Native]

def EndpointState.Step (s : EndpointState) (d : Deed) (s' : EndpointState) : Prop := s' = d.apply s

end Steps

/-- What goes on at an interface that is neither retired nor replaced meanwhile. -/
def Deed.Routine : Deed → Prop
  | .reconcile _ => True
  | .upkeep (.observeRemote ..) => True
  | .upkeep (.observeActivity ..) => True
  | .upkeep (.noteSendFailure ..) => True
  | .upkeep (.setPolicy _) => True
  | .upkeep (.submitPendingRegistration _) => True
  | .upkeep (.acceptRegistration _) => True
  | .upkeep _ => False

namespace EndpointState

/-- Nothing is pending with anyone. -/
def Idle (s : EndpointState) : Prop :=
  ∀ other r, s.relationship other = some r → r.pending = none

/-- The call finds nothing to start: its relationship is closed, or neither due nor proposed to. -/
def Dormant (s : EndpointState) (c : Call) : Prop :=
  ∀ r, s.relationship c.other = some r → s.Open r →
    (s.peerId < c.other → r.due c.now c.rotationInterval c.idleTimeout = false) ∧
    (¬ s.peerId < c.other → ∀ e t, c.remote = some e → e.decision.phase = .proposed →
      e.transcript = some t → ¬ s.addressed c.other r t)

variable [Native] {s : EndpointState}

theorem reconcileRelationship_dormant {c : Call} {r : Relationship} (dormant : s.Dormant c)
    (known : s.relationship c.other = some r) (idle : r.pending = none) :
    s.reconcileRelationship c.other r c.remote c.now c.rotationInterval c.idleTimeout
      (.answering c.install c.fresh) c.draws [] = (.ok .none, r, []) := by
  by_cases shut : s.Open r
  · obtain ⟨initiator, responder⟩ := dormant r known shut
    unfold reconcileRelationship
    split
    · rfl
    · rw [idle]
      dsimp only
      split
      · rename_i below
        rw [initiator below]
        rfl
      · rename_i above
        have resting : s.answer c.other r c.remote c.draws = (.ok .none, r) := by
          unfold answer
          split
          · rfl
          rename_i e shown
          split
          · rfl
          rename_i phase
          rw [not_not] at phase
          split
          · rfl
          rename_i t transcript
          rw [if_pos (responder above e t shown phase transcript)]
        rw [resting]
  · exact reconcileRelationship_closed shut ..

/-- A dormant call on an idle endpoint does nothing at all. -/
theorem perform_dormant (idle : s.Idle) {c : Call} (dormant : s.Dormant c) :
    (c.perform s).2.2 = [] ∧ (∀ m, (c.perform s).1 ≠ .ok (.send m)) ∧
      ∀ other, (c.perform s).2.1.relationship other = s.relationship other := by
  unfold Call.perform reconcile
  split
  · exact ⟨rfl, fun _ sent => (nomatch sent), fun _ => rfl⟩
  split
  · exact ⟨rfl, fun _ sent => (nomatch sent), fun _ => rfl⟩
  rename_i r known
  rw [reconcileRelationship_dormant dormant known (idle c.other r known)]
  refine ⟨rfl, fun _ sent => (nomatch sent), fun other => ?_⟩
  rw [relationship_insert]
  split
  · rename_i here
    rw [here, known]
  · rfl

theorem upkeep_idle (idle : s.Idle) (u : Upkeep) : (u.perform s).Idle := by
  intro other r' after
  have upkept := upkept u s other
  rw [after] at upkept
  generalize before : s.relationship other = past at upkept
  cases upkept with
  | met => rfl
  | @revised r _ revised =>
    have none := idle other r before
    cases revised with
    | untouched => exact none
    | sampled => exact none
    | backedOff pending =>
      rw [none] at pending
      cases pending
    | replaced => exact none
    | disabled => rfl
    | retired => rfl
    | @observed bundle lifecycle =>
      rcases settle_pending (.refresh s.peerId other r bundle) lifecycle with same | dropped
      · rcases refresh_pending s.peerId other r bundle with same' | dropped
        · rw [same, same']
          exact none
        · rw [same, dropped]
      · exact dropped

/-- Routine work leaves the registration. -/
theorem routine_registration {d : Deed} (routine : d.Routine) :
    (d.apply s).registration = s.registration ∧ (d.apply s).identity = s.identity := by
  cases d with
  | reconcile c =>
    obtain ⟨relationships, frame⟩ := c.perform_frame s
    change (c.perform s).2.1.registration = _ ∧ (c.perform s).2.1.identity = _
    rw [frame]
    exact ⟨rfl, rfl⟩
  | upkeep u =>
    change (u.perform s).registration = _ ∧ (u.perform s).identity = _
    have managed := managed u s
    generalize u.perform s = s' at managed ⊢
    cases managed with
    | related => exact ⟨rfl, rfl⟩
    | permitted => exact ⟨rfl, rfl⟩
    | replaced => cases routine
    | submitted accepted =>
      rw [(acceptRegistration_ok accepted).2.2]
      exact ⟨rfl, rfl⟩
    | accepted accepted =>
      rw [(acceptRegistration_ok accepted).2.2]
      exact ⟨rfl, rfl⟩
    | disabled => cases routine
    | retired => cases routine

/-- A valid fresh identity for this interface. -/
def Renews (s : EndpointState) (identity : Identity) : Prop :=
  identity.bundle.wgPublicKey = s.identity.bundle.wgPublicKey ∧
    identity.bundle.bundleId ≠ s.identity.bundle.bundleId ∧
    s.identity.bundle.bundleRevision.next = .ok identity.bundle.bundleRevision ∧
    identity.validate = .ok ()

/-- A valid fresh identity is taken exactly when nothing is pending. -/
theorem replace_iff {identity : Identity} (renews : s.Renews identity) :
    (∃ s', s.replace identity = .ok s') ↔ s.Idle := by
  obtain ⟨key, fresh, next, valid⟩ := renews
  constructor
  · rintro ⟨s', replaced⟩ other r known
    exact pending_none_of_any (replace_ok replaced).1 known
  · intro idle
    have quiet : any (fun _ r => r.pending.isSome) s.relationships = false := by
      rw [← Bool.not_eq_true, any_iff]
      rintro ⟨other, r, known, busy⟩
      have known : s.relationship other = some r := known
      rw [idle other r known] at busy
      cases busy
    simp only [replace, bind_ok, require_ok, pure_ok]
    exact ⟨_, ⟨(), quiet, (), ⟨key, fresh⟩, _, next, (), rfl, (), valid, rfl⟩⟩

/-- An endpoint that has just been retired. -/
def Retires (s s' : EndpointState) : Prop := s.disable = .ok s' ∨ s' = s.emergencyRetire

omit [Native] in
theorem Retires.idle {s' : EndpointState} (retires : s.Retires s') :
    s'.Idle ∧ s'.registration.lifecycle = .retired := by
  rcases retires with disabled | rfl
  · obtain ⟨-, -, -, lifecycle, -, -, -, -, -, rows⟩ := disable_ok disabled
    refine ⟨fun other r known => ?_, lifecycle⟩
    rw [rows other, Option.map_eq_some_iff] at known
    obtain ⟨r, -, rfl⟩ := known
    rfl
  · refine ⟨fun other r known => ?_, rfl⟩
    rw [emergencyRetire, relationship_mapRelationships, Option.map_eq_some_iff] at known
    obtain ⟨r, -, rfl⟩ := known
    rfl

/-- The step is routine, and starts nothing where it is a call. -/
def Resting (m : Move EndpointState Deed) : Prop :=
  m.label.Routine ∧ ∀ c, m.label = .reconcile c → m.before.Dormant c

theorem Idle.step (idle : s.Idle) (d : Deed) (resting : Resting ⟨s, d, d.apply s⟩) :
    (d.apply s).Idle := by
  cases d with
  | upkeep u => exact upkeep_idle idle u
  | reconcile c =>
    intro other r known
    have known : (c.perform s).2.1.relationship other = some r := known
    rw [(perform_dormant idle (resting.2 c rfl)).2.2 other] at known
    exact idle other r known

/-- A retired endpoint whose calls find nothing to start stays retired, starts nothing, and takes a
valid fresh identity at any later time. -/
theorem retired_starts_nothing {s₀ s₁ : EndpointState} {ms : List (Move EndpointState Deed)}
    (retires : s₀.Retires s₁) (run : Run Step s₁ ms s) (resting : ∀ m ∈ ms, Resting m) :
    s.registration.lifecycle = .retired ∧
      (∀ m ∈ ms, ∀ c, m.label = .reconcile c → (c.perform m.before).2.2 = [] ∧
        (∀ sent, (c.perform m.before).1 ≠ .ok (.send sent)) ∧ m.after.Idle) ∧
      ∀ identity, s.Renews identity → ∃ s', s.replace identity = .ok s' := by
  have kept : ∀ (a : EndpointState) d b, a.Idle ∧ a.registration.lifecycle = .retired →
      Step a d b → Resting ⟨a, d, b⟩ → b.Idle ∧ b.registration.lifecycle = .retired := by
    rintro a d _ ⟨idle, retired⟩ rfl resting
    have registration := (routine_registration (s := a) (d := d) resting.1).1
    refine ⟨idle.step d resting, ?_⟩
    rw [registration]
    exact retired
  obtain ⟨idle, retired⟩ := run.guarded retires.idle kept resting
  refine ⟨retired, fun m member c label => ?_, fun identity renews => (replace_iff renews).mpr idle⟩
  have before := (run.before retires.idle kept resting m member).1
  have rests := resting m member
  obtain ⟨silent, unsent, -⟩ := perform_dormant before (rests.2 c label)
  refine ⟨silent, unsent, ?_⟩
  have taken := (run.reached m member).1
  rcases m with ⟨a, d, b⟩
  have taken : b = d.apply a := taken
  subst taken
  exact before.step d rests

/-- What is pending stands in the way of a new identity. -/
theorem replace_conflict {other : Number} {r : Relationship} (known : s.relationship other = some r)
    (busy : r.pending.isSome = true) (identity : Identity) :
    s.replace identity = .error .conflict := by
  have found : any (fun _ r => r.pending.isSome) s.relationships = true :=
    (any_iff _ _).mpr ⟨other, r, known, busy⟩
  unfold replace
  rw [found]
  rfl

end EndpointState

/-- A proposal made while retired, after one routine step, stands in the way of a new identity. -/
theorem EndpointState.starts_again [Native] {s₀ s₁ : EndpointState} {d : Deed} {c : Call}
    {identity : Identity} (disabled : s₀.disable = .ok s₁) (routine : d.Routine)
    (sent : ∃ sent, (c.perform (d.apply s₁)).1 = .ok (.send sent))
    (busy : ∃ r, (Deed.apply (d.apply s₁) (.reconcile c)).relationship c.other = some r ∧
      r.pending.isSome = true)
    (renews : s₁.Renews identity) (retired : s₁.registration.lifecycle = .retired) :
    ∃ (s : EndpointState) (ms : List (Move EndpointState Deed)), s₀.disable = .ok s₁ ∧
      Run Step s₁ ms s ∧ (∀ m ∈ ms, m.label.Routine) ∧ s.registration.lifecycle = .retired ∧
      (∃ m ∈ ms, ∃ c, m.label = .reconcile c ∧
        ∃ sent, (c.perform m.before).1 = .ok (.send sent)) ∧
      s.Renews identity ∧ s.replace identity = .error .conflict := by
  obtain ⟨r, known, busy⟩ := busy
  have one := routine_registration (s := s₁) routine
  have two := routine_registration (s := d.apply s₁) (d := .reconcile c) trivial
  refine ⟨_, [⟨s₁, d, d.apply s₁⟩, ⟨d.apply s₁, .reconcile c, _⟩], disabled,
    (Run.start.move rfl).move rfl, ?_, ?_,
    ⟨_, List.mem_cons_of_mem _ (List.mem_singleton.mpr rfl), c, rfl, sent⟩, ?_,
    replace_conflict known busy identity⟩
  · intro m member
    rcases List.mem_cons.mp member with rfl | last
    · exact routine
    · rw [List.mem_singleton] at last
      subst last
      trivial
  · rw [two.1, one.1]
    exact retired
  · unfold Renews
    rw [two.2, one.2]
    exact renews

/-- The foreign functions succeed on valid inputs. -/
structure Native.Working [Native] : Prop where
  hashes : ∀ data, ∃ out, pqHash data = some out
  tags : ∀ key data, ∃ out, pqHmac key data = some out
  expands : ∀ ikm salt info, ∃ out, pqHkdf ikm salt info = some out
  encapsulates : ∀ drawn (publicKey : HybridPublic),
    Crypto.validateKem publicKey.kem = .ok () → Crypto.validateX448 publicKey.x448 = .ok () →
    ∃ out, pqHybridEnc drawn publicKey = some out
  signs : ∀ drawn key data publicKey, Crypto.signingPublic key = .ok publicKey →
    ∃ out, pqSign drawn key data = some out

namespace EndpointState

variable [Native] {s : EndpointState}

/-- An endpoint enabled again: the relationships it had at its replacement, and no others, are
gated. -/
structure Reenabled (old : Number → Prop) (s : EndpointState) : Prop where
  enrollment : s.enrollment = .advertised
  lifecycle : s.registration.lifecycle = .enabled
  signing : ∃ publicKey, Crypto.signingPublic s.identity.signing = .ok publicKey
  gated : ∀ other r, s.relationship other = some r → (r.gated = true ↔ old other)
  known : ∀ other, old other → ∃ r, s.relationship other = some r

omit [Native] in
theorem settle_gated (r : Relationship) (lifecycle : Lifecycle) :
    (Relationship.settle r lifecycle).gated = r.gated := by
  unfold Relationship.settle
  split
  · rfl
  · split
    · rfl
    · rfl

theorem Reenabled.upkeep {old : Number → Prop} (reenabled : s.Reenabled old) {u : Upkeep}
    (routine : Deed.Routine (.upkeep u)) : (u.perform s).Reenabled old := by
  have row : ∀ other, (∀ r, (u.perform s).relationship other = some r →
      (r.gated = true ↔ old other)) ∧ (old other → ∃ r, (u.perform s).relationship other = some r) := by
    intro other
    have upkept := upkept u s other
    have gated := reenabled.gated other
    have known := reenabled.known other
    generalize s.relationship other = past at upkept gated known
    generalize (u.perform s).relationship other = now at upkept ⊢
    cases upkept with
    | unmet => exact ⟨fun _ none => (nomatch none), known⟩
    | met =>
      have new : ¬ old other := fun before => by
        obtain ⟨_, none⟩ := known before
        cases none
      refine ⟨fun r same => ?_, fun before => absurd before new⟩
      cases same
      exact ⟨fun set => (nomatch set), fun before => absurd before new⟩
    | @revised r r' revised =>
      refine ⟨fun _ same => ?_, fun _ => ⟨r', rfl⟩⟩
      cases same
      rw [← gated r rfl]
      cases revised with
      | untouched => exact Iff.rfl
      | sampled => exact Iff.rfl
      | backedOff => exact Iff.rfl
      | observed =>
        rw [settle_gated]
        exact Iff.rfl
      | replaced => cases routine
      | disabled => cases routine
      | retired => cases routine
  have enrollment : (u.perform s).enrollment = .advertised := by
    have managed := managed u s
    generalize u.perform s = s' at managed ⊢
    cases managed with
    | related => exact reenabled.enrollment
    | permitted => exact reenabled.enrollment
    | replaced => cases routine
    | submitted accepted =>
      rw [(acceptRegistration_ok accepted).2.2]
      exact if_pos reenabled.lifecycle
    | accepted accepted =>
      rw [(acceptRegistration_ok accepted).2.2]
      exact if_pos reenabled.lifecycle
    | disabled => cases routine
    | retired => cases routine
  obtain ⟨registration, identity⟩ := routine_registration (s := s) routine
  refine ⟨enrollment, ?_, ?_, fun other => (row other).1, fun other => (row other).2⟩
  · exact (congrArg Registration.lifecycle registration).trans reenabled.lifecycle
  · have identity : (u.perform s).identity = s.identity := identity
    rw [identity]
    exact reenabled.signing

theorem Reenabled.call {old : Number → Prop} (reenabled : s.Reenabled old) (c : Call) :
    ((c.perform s).2.1).Reenabled old := by
  obtain ⟨relationships, frame⟩ := c.perform_frame s
  have row : ∀ other, (∀ r, (c.perform s).2.1.relationship other = some r →
      (r.gated = true ↔ old other)) ∧
      (old other → ∃ r, (c.perform s).2.1.relationship other = some r) := by
    intro other
    by_cases here : other = c.other
    · subst here
      rcases c.turned s with ⟨same, -⟩ | ⟨r, r', -, before, after, -, turn⟩
      · rw [same]
        exact ⟨reenabled.gated _, reenabled.known _⟩
      · rw [after]
        refine ⟨fun _ same => ?_, fun _ => ⟨r', rfl⟩⟩
        cases same
        rw [← reenabled.gated _ r before, turn.gated]
    · rw [c.other_relationship s here]
      exact ⟨reenabled.gated _, reenabled.known _⟩
  refine ⟨?_, ?_, ?_, fun other => (row other).1, fun other => (row other).2⟩
  · rw [frame]
    exact reenabled.enrollment
  · rw [frame]
    exact reenabled.lifecycle
  · rw [frame]
    exact reenabled.signing

theorem Reenabled.run {old : Number → Prop} {deeds : List Deed} (reenabled : s.Reenabled old)
    (routine : ∀ d ∈ deeds, d.Routine) : (deeds.foldl Deed.apply s).Reenabled old := by
  induction deeds generalizing s with
  | nil => exact reenabled
  | cons d deeds ih =>
    refine ih ?_ fun d' member => routine d' (List.mem_cons_of_mem d member)
    cases d with
    | reconcile c => exact reenabled.call c
    | upkeep u => exact reenabled.upkeep (routine _ (by simp))

theorem reenabled_begins {s₁ s₂ : EndpointState} {identity : Identity}
    {advertised : AdvertisedBundle} (replaced : s.replace identity = .ok s₁)
    (accepted : s₁.acceptRegistration advertised = .ok s₂) :
    s₂.Reenabled fun other => ∃ r, s.relationship other = some r := by
  obtain ⟨-, valid, registration, same, -, -, -, -, -, rows⟩ := replace_ok replaced
  have lifecycle : s₁.registration.lifecycle = .enabled := by rw [registration]
  rw [(acceptRegistration_ok accepted).2.2]
  refine ⟨if_pos lifecycle, lifecycle, ?_, ?_, ?_⟩
  · have signing : s₁.identity.signing = identity.signing := congrArg Identity.signing same
    simp only [Identity.validate, bind_ok, require_ok] at valid
    obtain ⟨_, _, _, _, _, _, publicKey, found, -⟩ := valid
    exact ⟨publicKey, signing ▸ found⟩
  · intro other r known
    have known : s₁.relationship other = some r := known
    rw [rows other, Option.map_eq_some_iff] at known
    obtain ⟨r₀, before, rfl⟩ := known
    exact ⟨fun _ => ⟨r₀, before⟩, fun _ => rfl⟩
  · rintro other ⟨r, before⟩
    refine ⟨{ r with gated := true, status := .blocked }, ?_⟩
    change s₁.relationship other = _
    rw [rows other, before]
    rfl

/-- A gated relationship sends nothing. -/
theorem perform_gated {c : Call} {r : Relationship} (known : s.relationship c.other = some r)
    (gated : r.gated = true) (m : Message) : (c.perform s).1 ≠ .ok (.send m) := by
  intro sent
  rcases c.turned s with ⟨-, -, silent⟩ | ⟨r', _, -, before, -, shut, -⟩
  · cases silent _ sent
  · rw [known] at before
    cases before
    rw [shut.1] at gated
    cases gated

end EndpointState

section Success

variable [Native] {s : EndpointState}

theorem Message.signed_succeeds (working : Native.Working) {t : Transcript} {kind : Kind}
    {sender : Number} (ordered : t.initiatorId < t.responderId)
    (role : (sender = t.initiatorId ∧ kind = .propose) ∨ (sender = t.responderId ∧ kind = .ready))
    {key : Binary 66} {publicKey : Binary 67} (valid : Crypto.signingPublic key = .ok publicKey)
    (drawn : Nat) (candidate : Candidate) :
    ∃ m, Message.signed drawn t kind sender candidate key = .ok m := by
  obtain ⟨transcriptHash, hashed⟩ := working.hashes t.encode
  simp only [Message.signed, bind_ok, pure_ok, Crypto.hash, Crypto.tag, Crypto.sign, invoke_ok]
  generalize made : Message.mk 1 t.networkId t.initiatorId t.responderId t.initiator.bundleId
    t.responder.bundleId t.sequence t.exchangeId transcriptHash sender kind.code 0 0
    (if kind = .propose then some t.ciphertext else none)
    (if kind = .propose then some t.operatorPskId else none) = m
  have shape : m.validateShape = .ok kind := by
    subst made
    simp only [Message.validateShape, bind_ok, require_ok, pure_ok]
    refine ⟨kind, Kind.tryFrom_ok.mpr rfl, (), ⟨trivial, ordered⟩, (), ?_, (), ?_, rfl⟩
    · rcases role with ⟨rfl, rfl⟩ | ⟨rfl, rfl⟩
      · exact ⟨.inl rfl, fun ready => (by cases ready), fun _ => rfl⟩
      · exact ⟨.inr rfl, fun _ => rfl, fun early => by simp at early⟩
    · rcases role with ⟨-, rfl⟩ | ⟨-, rfl⟩
      · simp
      · simp
  obtain ⟨tag, tagged⟩ := working.tags (if sender = t.initiatorId then
    candidate.initiatorConfirmation else candidate.responderConfirmation) m.envelope
  obtain ⟨signature, signed⟩ := working.signs drawn key
    (Message.envelope { m with tag } ++ tag.bytes) publicKey valid
  refine ⟨_, transcriptHash, hashed, kind, ?_, tag, ?_, signature, ?_, rfl⟩
  · rw [made]
    exact shape
  · rw [made]
    exact tagged
  · subst made
    exact signed

theorem Crypto.derive_succeeds (working : Native.Working) (kem : Binary 32) (dh : Binary 56)
    (operator : Binary 32) (transcript : List UInt8) :
    ∃ candidate, Crypto.derive kem dh operator transcript = .ok candidate := by
  obtain ⟨salt, hashed⟩ := working.hashes transcript
  have expands : ∀ label, ∃ out, Crypto.expand (kem.bytes ++ dh.bytes ++ operator.bytes) salt label =
      .ok out := by
    intro label
    obtain ⟨out, expanded⟩ := working.expands (kem.bytes ++ dh.bytes ++ operator.bytes) salt
      (ascii label ++ salt.bytes)
    exact ⟨out, invoke_ok.mpr expanded⟩
  obtain ⟨psk, first⟩ := expands "innernet pq-psk v1 psk"
  obtain ⟨initiator, second⟩ := expands "innernet pq-psk v1 confirm i"
  obtain ⟨responder, third⟩ := expands "innernet pq-psk v1 confirm r"
  simp only [Crypto.derive, bind_ok, pure_ok, Crypto.hash, invoke_ok]
  exact ⟨_, salt, hashed, psk, first, initiator, second, responder, third, rfl⟩

namespace EndpointState

/-- The call gives its side the chance to start: a rotation that is due and can draw what it needs,
or a proposal that passes every check of the responder. -/
def Chance (s : EndpointState) (c : Call) (r : Relationship) : Prop :=
  if s.peerId < c.other then
    r.due c.now c.rotationInterval c.idleTimeout = true ∧ (∃ following, r.sequence.next = .ok following) ∧
      ∃ exchangeId, c.draws.exchangeId = .ok exchangeId
  else ∃ e t shared candidate propose, c.remote = some e ∧ e.decision.phase = .proposed ∧
    e.transcript = some t ∧ s.addressed c.other r t ∧
    Crypto.decapsulate t.ciphertext s.identity.hybridSecret = .ok shared ∧
    Crypto.derive shared.kem shared.x448 r.operatorPsk t.encode = .ok candidate ∧
    (e.messages.find? fun m => m.senderId = c.other ∧ m.messageType = Kind.propose.code) =
      some propose ∧ propose.authenticate t = .ok () ∧ propose.confirm candidate = .ok ()

theorem openProposal_succeeds (working : Native.Working) {other : Number} {r : Relationship}
    {draws : Draws} (initiator : s.peerId < other) (valid : r.remote.validate = .ok ())
    {publicKey : Binary 67} (signing : Crypto.signingPublic s.identity.signing = .ok publicKey)
    {exchangeId : Binary 16} (drawn : draws.exchangeId = .ok exchangeId) :
    ∃ p m, s.openProposal other r draws = .ok (p, m) := by
  simp only [Bundle.validate, bind_ok] at valid
  obtain ⟨_, kem, _, x448, -⟩ := valid
  obtain ⟨⟨ciphertext, shared⟩, encapsulated⟩ := working.encapsulates draws.encapsulation
    ⟨r.remote.pqKemPublicKey, r.remote.pqX448PublicKey⟩ kem x448
  generalize made : Transcript.mk s.networkId s.peerId other s.identity.bundle r.remote r.sequence
    exchangeId r.operatorPskId ciphertext = t
  obtain ⟨candidate, derived⟩ := Crypto.derive_succeeds working shared.kem shared.x448 r.operatorPsk
    t.encode
  have roles : t.initiatorId = s.peerId ∧ t.responderId = other := by
    subst made
    exact ⟨rfl, rfl⟩
  have ordered : t.initiatorId < t.responderId := by rwa [roles.1, roles.2]
  have signs : ∃ m, Message.signed draws.signature t .propose s.peerId candidate
      s.identity.signing = .ok m :=
    Message.signed_succeeds working ordered (.inl ⟨roles.1.symm, rfl⟩) signing _ _
  obtain ⟨m, signed⟩ := signs
  refine ⟨.opened t candidate .default m, m, ?_⟩
  simp only [openProposal, bind_ok, Crypto.encapsulate, invoke_ok]
  exact ⟨exchangeId, drawn, (ciphertext, shared), ⟨(), kem, encapsulated⟩, candidate,
    made ▸ derived, m, made ▸ signed, by rw [made]; rfl⟩

theorem openAnswer_succeeds (working : Native.Working) {c : Call} {r : Relationship}
    {publicKey : Binary 67} (signing : Crypto.signingPublic s.identity.signing = .ok publicKey)
    (apart : c.other ≠ s.peerId) (responder : ¬ s.peerId < c.other) (chance : s.Chance c r) :
    ∃ e t p m, c.remote = some e ∧ e.decision.phase = .proposed ∧ e.transcript = some t ∧
      s.addressed c.other r t ∧ s.openAnswer c.other r e t c.draws = .ok (p, m) := by
  rw [Chance, if_neg responder] at chance
  obtain ⟨e, t, shared, candidate, propose, shown, phase, transcript, addressed, decapsulated,
    derived, found, authentic, confirmed⟩ := chance
  have ordered : t.initiatorId < t.responderId := by
    rw [addressed.2.1, addressed.2.2.1]
    exact lt_of_le_of_ne (not_lt.mp responder) apart
  have signs : ∃ m, Message.signed c.draws.signature t .ready s.peerId candidate
      s.identity.signing = .ok m :=
    Message.signed_succeeds working ordered (.inr ⟨addressed.2.2.1.symm, rfl⟩) signing _ _
  obtain ⟨m, signed⟩ := signs
  obtain ⟨d, advanced⟩ : ∃ d, Decision.default.advance .ready false = .ok d := ⟨_, rfl⟩
  refine ⟨e, t, .opened t candidate d m, m, shown, phase, transcript, addressed, ?_⟩
  simp only [openAnswer, bind_ok, found]
  exact ⟨shared, decapsulated, candidate, derived, (), authentic, (), confirmed, d, advanced, m,
    signed, rfl⟩

/-- What a side starts an exchange with. -/
def opening (s : EndpointState) (other : Number) : Kind :=
  if s.peerId < other then .propose else .ready

/-- An open relationship with nothing pending takes its chance. -/
theorem perform_chance (working : Native.Working) {c : Call} {r : Relationship}
    {publicKey : Binary 67} (signing : Crypto.signingPublic s.identity.signing = .ok publicKey)
    (apart : c.other ≠ s.peerId ∧ c.other ≠ s.serverId)
    (known : s.relationship c.other = some r) (shut : s.Open r) (idle : r.pending = none)
    (valid : r.remote.validate = .ok ()) (chance : s.Chance c r) :
    ∃ m, (c.perform s).1 = .ok (.send m) ∧ m.messageType = (s.opening c.other).code := by
  have opened : ¬ (r.gated = true ∨ r.status = .blocked ∨ s.enrollment = .retiring) := by
    rw [not_or, not_or, Bool.not_eq_true]
    exact shut
  unfold Call.perform reconcile reconcileRelationship
  rw [if_neg (not_or.mpr apart), known]
  dsimp only
  rw [if_neg opened, idle]
  dsimp only
  by_cases initiator : s.peerId < c.other
  · rw [Chance, if_pos initiator] at chance
    obtain ⟨due, ⟨following, next⟩, exchangeId, drawn⟩ := chance
    obtain ⟨p, m, proposal⟩ := openProposal_succeeds working initiator valid signing drawn
    rw [if_pos initiator, if_pos due, propose, next]
    dsimp only
    rw [proposal]
    obtain ⟨_, _, -, signed, -⟩ := openProposal_ok proposal
    refine ⟨m, rfl, ?_⟩
    rw [opening, if_pos initiator]
    exact (Message.signed_made signed).messageType
  · obtain ⟨e, t, p, m, shown, phase, transcript, addressed, opened⟩ :=
      openAnswer_succeeds working signing apart.1 initiator chance
    rw [if_neg initiator, shown]
    unfold answer
    dsimp only
    rw [if_neg (not_not.mpr phase), transcript]
    dsimp only
    rw [if_neg (not_not.mpr addressed), opened]
    obtain ⟨_, _, _, -, -, -, -, -, -, -, signed, -⟩ := openAnswer_ok opened
    refine ⟨m, rfl, ?_⟩
    rw [opening, if_neg initiator]
    exact (Message.signed_made signed).messageType

/-- An observation of an enabled bundle pins it, and unblocks what is not gated. -/
theorem observeRemote_enabled {s s' : EndpointState} {peer : Number} {bundle : Bundle}
    (observed : s.observeRemote peer bundle .enabled = .ok s') {r : Relationship}
    (known : s'.relationship peer = some r) :
    (peer ≠ s.peerId ∧ peer ≠ s.serverId) ∧ r.remote.validate = .ok () ∧
      (r.gated = false → r.status ≠ .blocked) := by
  simp only [observeRemote, bind_ok, require_ok] at observed
  obtain ⟨_, apart, _, valid, observed⟩ := observed
  refine ⟨apart, ?_⟩
  split at observed
  · simp only [bind_ok, require_ok, pure_ok] at observed
    obtain ⟨_, -, rfl⟩ := observed
    rw [relationship_setRelationship] at known
    cases known
    rw [settle_fresh]
    exact ⟨valid, fun _ blocked => (by cases blocked)⟩
  · rename_i r₀ before
    simp only [bind_ok, require_ok, pure_ok] at observed
    obtain ⟨_, -, rfl⟩ := observed
    rw [relationship_setRelationship] at known
    cases known
    unfold Relationship.settle
    rw [if_neg (by simp)]
    split
    · exact ⟨valid, fun _ => by simp⟩
    · rename_i kept
      exact ⟨valid, fun free blocked => kept ⟨blocked, free⟩⟩

/-- After its replacement is advertised, and however long it has run since, an endpoint that
observes an enabled peer and is given the chance starts an exchange with it exactly when it did not
know the peer at the replacement. -/
theorem reenabled_recovers (working : Native.Working) {s₁ s₂ s₃ : EndpointState}
    {identity : Identity} {advertised : AdvertisedBundle} {deeds : List Deed} {other : Number}
    {bundle : Bundle} {r : Relationship} {c : Call} (replaced : s.replace identity = .ok s₁)
    (accepted : s₁.acceptRegistration advertised = .ok s₂) (routine : ∀ d ∈ deeds, d.Routine)
    (observed : (deeds.foldl Deed.apply s₂).observeRemote other bundle .enabled = .ok s₃)
    (known : s₃.relationship other = some r) (idle : r.pending = none) (call : c.other = other)
    (chance : s₃.Chance c r) :
    (∃ m, (c.perform s₃).1 = .ok (.send m) ∧ m.messageType = (s₃.opening other).code) ↔
      s.relationship other = none := by
  subst call
  have before := (reenabled_begins replaced accepted).run routine
  have reenabled : s₃.Reenabled fun other => ∃ r, s.relationship other = some r := by
    have step := before.upkeep (u := .observeRemote c.other bundle .enabled) trivial
    have same : Upkeep.perform (deeds.foldl Deed.apply s₂) (.observeRemote c.other bundle .enabled) =
        s₃ := by
      rw [Upkeep.perform, observed]
      rfl
    rwa [same] at step
  obtain ⟨apart, valid, unblocked⟩ := observeRemote_enabled observed known
  have apart : c.other ≠ s₃.peerId ∧ c.other ≠ s₃.serverId := by
    simp only [observeRemote, bind_ok, require_ok] at observed
    obtain ⟨_, _, _, _, observed⟩ := observed
    split at observed
    · simp only [bind_ok, pure_ok] at observed
      obtain ⟨_, _, rfl⟩ := observed
      exact apart
    · simp only [bind_ok, pure_ok] at observed
      obtain ⟨_, _, rfl⟩ := observed
      exact apart
  constructor
  · rintro ⟨m, sent, -⟩
    by_contra met
    have gated := (reenabled.gated c.other r known).mpr (Option.ne_none_iff_exists'.mp met)
    exact perform_gated known gated m sent
  · intro unmet
    have free : r.gated = false := by
      rw [← Bool.not_eq_true, reenabled.gated c.other r known]
      rintro ⟨r₀, met⟩
      rw [unmet] at met
      cases met
    obtain ⟨publicKey, signing⟩ := reenabled.signing
    have opened : s₃.Open r := ⟨free, unblocked free, by rw [reenabled.enrollment]; simp⟩
    exact perform_chance working signing apart known opened idle valid chance

/-- A relationship known at the replacement is never served again. -/
theorem replaced_inert {s₁ s₂ : EndpointState} {identity : Identity}
    {advertised : AdvertisedBundle} (replaced : s.replace identity = .ok s₁)
    (accepted : s₁.acceptRegistration advertised = .ok s₂) {deeds : List Deed}
    (routine : ∀ d ∈ deeds, d.Routine) {c : Call}
    (met : ∃ r, s.relationship c.other = some r) (m : Message) :
    (c.perform (deeds.foldl Deed.apply s₂)).1 ≠ .ok (.send m) := by
  have reenabled := (reenabled_begins replaced accepted).run routine
  obtain ⟨r, known⟩ := reenabled.known c.other met
  exact perform_gated known ((reenabled.gated c.other r known).mpr met) m

end EndpointState

end Success

section Sample

open Arithmetic

attribute [local instance] native

/-- An initiator that has met its peer. -/
def Arithmetic.acquainted : EndpointState :=
  endpoint second (identity 2 first) ((∅ : Table Number Relationship).insert third
    (.fresh (identity 3 first).bundle))

/-- The identity an interface is enabled again with. -/
def Arithmetic.successor : Identity :=
  { identity 2 second with bundle := { (identity 2 second).bundle with bundleId := 9 } }

theorem EndpointState.retired_starts_nothing_disabled :
    ∃ s s' : EndpointState, s.registration.lifecycle = .retired ∧ s.replace successor = .ok s' := by
  have retires : acquainted.Retires (acquainted.after acquainted.disable) := .inl rfl
  have run := trace_run Deed.apply (acquainted.after acquainted.disable) [turn third none]
  have resting : ∀ m ∈ trace Deed.apply (acquainted.after acquainted.disable) [turn third none],
      Resting m := by
    intro m member
    rw [trace, trace, List.mem_singleton] at member
    subst member
    exact ⟨trivial, fun c _ r _ shut => absurd rfl shut.2.2⟩
  obtain ⟨lifecycle, -, renewable⟩ := EndpointState.retired_starts_nothing retires run resting
  obtain ⟨s', replaced⟩ := renewable successor ⟨rfl, by decide, by decide, by decide +kernel⟩
  exact ⟨_, s', lifecycle, replaced⟩

/-- The server's answer to the retirement. -/
def Arithmetic.accepting : Deed :=
  .upkeep (.submitPendingRegistration (some ⟨1, .retired, (identity 2 first).bundle⟩))

/-- A cycle that may propose. -/
def Arithmetic.proposing : Call where
  other := third
  remote := none
  now := 20
  rotationInterval := 86400
  idleTimeout := 0
  install := .ok ()
  fresh := .ok true
  draws := ⟨.ok 5, 0, 0⟩

def Action.sends : Except Error Action → Bool
  | .ok (.send _) => true
  | _ => false

theorem Action.sends_iff {x : Except Error Action} :
    Action.sends x = true ↔ ∃ m, x = .ok (.send m) := by
  constructor
  · intro sends
    unfold Action.sends at sends
    split at sends
    · exact ⟨_, rfl⟩
    · cases sends
  · rintro ⟨m, rfl⟩
    rfl

/-- Once the server has accepted the retirement, the disabled initiator proposes again, and then
refuses the identity it is to be enabled with. -/
theorem EndpointState.retired_proposes : ∃ (s₀ s₁ s : EndpointState)
    (ms : List (Move EndpointState Deed)), s₀.disable = .ok s₁ ∧ Run Step s₁ ms s ∧
      (∀ m ∈ ms, m.label.Routine) ∧ s.registration.lifecycle = .retired ∧
      (∃ m ∈ ms, ∃ c, m.label = .reconcile c ∧
        ∃ sent, (c.perform m.before).1 = .ok (.send sent)) ∧
      s.Renews successor ∧ s.replace successor = .error .conflict := by
  have sent : ∃ sent, (proposing.perform
      (accepting.apply (acquainted.after acquainted.disable))).1 = .ok (.send sent) := by
    have checked : Action.sends (proposing.perform
        (accepting.apply (acquainted.after acquainted.disable))).1 = true := by decide +kernel
    exact Action.sends_iff.mp checked
  have busy : ((Deed.apply (accepting.apply (acquainted.after acquainted.disable))
      (.reconcile proposing)).relationship third).any (fun r => r.pending.isSome) = true := by
    decide +kernel
  have routine : accepting.Routine := trivial
  exact ⟨acquainted, acquainted.after acquainted.disable, EndpointState.starts_again rfl routine
    sent ((Option.any_eq_true _ _).mp busy) ⟨rfl, by decide, by decide, by decide +kernel⟩ rfl⟩

theorem Arithmetic.native_working : Native.Working :=
  ⟨fun _ => ⟨_, rfl⟩, fun _ _ => ⟨_, rfl⟩, fun _ _ _ => ⟨_, rfl⟩, fun _ _ _ _ => ⟨_, rfl⟩,
    fun _ _ _ _ _ => ⟨_, rfl⟩⟩

/-- The endpoint is replaced, the server accepts, and the directory shows its peer. -/
theorem EndpointState.replaced_advertised {s : EndpointState} (idle : s.Idle)
    (renews : s.Renews successor) (apart : third ≠ s.peerId ∧ third ≠ s.serverId)
    (first_seen : ∀ r, s.relationship third = some r → r.remote = (Arithmetic.identity 3 first).bundle) :
    ∃ s₁ s₂ s₃ advertised r, s.replace successor = .ok s₁ ∧
      s₁.acceptRegistration advertised = .ok s₂ ∧
      s₂.observeRemote third (Arithmetic.identity 3 first).bundle .enabled = .ok s₃ ∧
      s₃.relationship third = some r ∧ r.pending = none ∧ s₃.peerId = s.peerId ∧
      (s.relationship third = none → r = .fresh (Arithmetic.identity 3 first).bundle) := by
  have valid : (Arithmetic.identity 3 first).bundle.validate = .ok () := by decide +kernel
  obtain ⟨s₁, replaced⟩ := (replace_iff renews).mpr idle
  obtain ⟨-, -, registration, -, -, self, server, -, -, rows⟩ := replace_ok replaced
  refine ⟨s₁, { s₁ with enrollment := .advertised }, ?_⟩
  have accepted : s₁.acceptRegistration ⟨1, .enabled, successor.bundle⟩ =
      .ok { s₁ with enrollment := .advertised } := by
    simp only [acceptRegistration, bind_ok, require_ok, registration]
    exact ⟨(), ⟨trivial, trivial, trivial⟩, rfl⟩
  rw [← self, ← server] at apart
  have row := rows third
  cases met : s.relationship third with
  | none =>
    rw [met] at row
    refine ⟨_, _, .fresh (Arithmetic.identity 3 first).bundle, replaced, accepted, ?_,
      relationship_setRelationship { s₁ with enrollment := .advertised } third _, rfl, self,
      fun _ => rfl⟩
    simp only [observeRemote, bind_ok, require_ok, valid]
    refine ⟨(), apart, (), trivial, ?_⟩
    split
    · simp only [bind_ok, require_ok]
      refine ⟨(), fun retired => (by cases retired), ?_⟩
      rw [settle_fresh]
      rfl
    · rename_i r known
      have known : s₁.relationship third = some r := known
      rw [row] at known
      cases known
  | some r₀ =>
    rw [met] at row
    have same := first_seen r₀ met
    refine ⟨_, _, Relationship.settle (.refresh s₁.peerId third
      { r₀ with gated := true, status := .blocked } (Arithmetic.identity 3 first).bundle) .enabled,
      replaced, accepted, ?_,
      relationship_setRelationship { s₁ with enrollment := .advertised } third _, ?_, self,
      fun none => (by cases none)⟩
    · simp only [observeRemote, bind_ok, require_ok, valid]
      refine ⟨(), apart, (), trivial, ?_⟩
      split
      · rename_i unknown
        have unknown : s₁.relationship third = none := unknown
        rw [row] at unknown
        cases unknown
      · rename_i r known
        have known : s₁.relationship third = some r := known
        rw [row] at known
        cases known
        simp only [bind_ok, require_ok]
        refine ⟨(), ?_, rfl⟩
        rw [same]
        simp
    · have quiet := idle third r₀ met
      rcases settle_pending (.refresh s₁.peerId third
        { r₀ with gated := true, status := .blocked } (Arithmetic.identity 3 first).bundle) .enabled with
        here | here
      · rcases refresh_pending s₁.peerId third { r₀ with gated := true, status := .blocked }
          (Arithmetic.identity 3 first).bundle with kept | dropped
        · rw [here, kept]
          exact quiet
        · rw [here, dropped]
      · exact here

theorem EndpointState.reenabled_recovers_stranger : ∃ s s₁ s₂ s₃ : EndpointState, ∃ advertised m,
    s.replace successor = .ok s₁ ∧ s₁.acceptRegistration advertised = .ok s₂ ∧
      s₂.observeRemote third (Arithmetic.identity 3 first).bundle .enabled = .ok s₃ ∧
      (proposing.perform s₃).1 = .ok (.send m) ∧ m.messageType = Kind.propose.code := by
  obtain ⟨s₁, s₂, s₃, advertised, r, replaced, accepted, observed, known, idle, self, stranger⟩ :=
    EndpointState.replaced_advertised (s := endpoint second (Arithmetic.identity 2 first) ∅)
      (fun _ _ known => (nomatch known)) ⟨rfl, by decide, by decide, by decide +kernel⟩
      (by decide) (fun _ known => (nomatch known))
  have same := stranger rfl
  have initiator : s₃.peerId < proposing.other := by
    rw [self]
    decide
  have chance : s₃.Chance proposing r := by
    rw [Chance, if_pos initiator, same]
    exact ⟨rfl, ⟨second, by decide⟩, 5, rfl⟩
  have routine : ∀ d ∈ ([] : List Deed), d.Routine := fun _ member => (nomatch member)
  obtain ⟨m, sent, kind⟩ := (EndpointState.reenabled_recovers native_working replaced accepted
    routine observed known idle rfl chance).mpr rfl
  have initiator : s₃.peerId < third := initiator
  rw [opening, if_pos initiator] at kind
  exact ⟨_, s₁, s₂, s₃, advertised, m, replaced, accepted, observed, sent, kind⟩

/-- A peer met before the replacement is observed again, and whatever is done from then on, no call
ever serves it. -/
theorem EndpointState.replaced_never_recovers : ∃ s s₁ s₂ s₃ : EndpointState, ∃ advertised r,
    s.replace successor = .ok s₁ ∧ s₁.acceptRegistration advertised = .ok s₂ ∧
      s₂.observeRemote third (Arithmetic.identity 3 first).bundle .enabled = .ok s₃ ∧
      s₃.relationship third = some r ∧ r.pending = none ∧
      ∀ deeds : List Deed, (∀ d ∈ deeds, d.Routine) → ∀ c : Call, c.other = third → ∀ m,
        (c.perform (deeds.foldl Deed.apply s₃)).1 ≠ .ok (.send m) := by
  have met : acquainted.relationship third = some (.fresh (Arithmetic.identity 3 first).bundle) := rfl
  have quiet : acquainted.Idle := by
    intro other r known
    rw [acquainted, relationship, endpoint, lookup_insert_eq] at known
    split at known
    · cases known
      rfl
    · cases known
  obtain ⟨s₁, s₂, s₃, advertised, r, replaced, accepted, observed, known, idle, -, -⟩ :=
    EndpointState.replaced_advertised (s := acquainted) quiet
      ⟨rfl, by decide, by decide, by decide +kernel⟩ (by decide) (by
        intro r known
        rw [met] at known
        cases known
        rfl)
  refine ⟨_, s₁, s₂, s₃, advertised, r, replaced, accepted, observed, known, idle, ?_⟩
  intro deeds routine c call m
  have all : ∀ d ∈ Deed.upkeep (.observeRemote third (Arithmetic.identity 3 first).bundle .enabled) :: deeds,
      d.Routine := by
    intro d member
    rcases List.mem_cons.mp member with rfl | later
    · trivial
    · exact routine d later
  have inert := EndpointState.replaced_inert replaced accepted all (c := c) ⟨_, call ▸ met⟩ m
  have same : Deed.apply s₂ (.upkeep (.observeRemote third (Arithmetic.identity 3 first).bundle .enabled)) =
      s₃ := by
    rw [Deed.apply, Upkeep.perform, observed]
    rfl
  rwa [List.foldl_cons, same] at inert

end Sample

end Innernet
