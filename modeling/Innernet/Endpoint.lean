import Mathlib.Logic.Function.Basic
import Innernet.Library.Runs
import Innernet.Turn

/-! One endpoint over time: the calls of `reconcile` and everything else that is done to its
state, in any order and with any answers, and what each can make of one relationship. -/
namespace Innernet

open Fallible Runs Tables

/-- One call of `reconcile`: the record and the clock it is given, and what the installer and the
libraries answer to it. -/
structure Call where
  other : Number
  remote : Option Exchange
  now : Nat
  rotationInterval : Nat
  idleTimeout : Nat
  install : Except Error Unit
  fresh : Except Error Bool
  draws : Draws

/-- What happens to an endpoint besides `reconcile`. -/
inductive Upkeep where
  | observeRemote (peer : Number) (bundle : Bundle) (lifecycle : Lifecycle)
  | observeActivity (peer : Number) (now rxBytes txBytes : Nat)
  | noteSendFailure (peer : Number) (now : Nat) (drawn : Except Error UInt8)
  | setPolicy (permissive : Bool)
  | replace (identity : Identity)
  | submitPendingRegistration (reply : Option AdvertisedBundle)
  | acceptRegistration (advertised : AdvertisedBundle)
  | disable
  | emergencyRetire

inductive Deed where
  | reconcile (call : Call)
  | upkeep (u : Upkeep)

section Operations

variable [Native]

def Call.perform (c : Call) (s : EndpointState) :
    Except Error Action × EndpointState × List (Bundle × Candidate) :=
  s.reconcile c.other c.remote c.now c.rotationInterval c.idleTimeout
    (.answering c.install c.fresh) c.draws []

/-- An operation that fails leaves the state as it was. -/
def EndpointState.after (s : EndpointState) : Except Error EndpointState → EndpointState
  | .ok s' => s'
  | .error _ => s

omit [Native] in
/-- `submit_pending_registration`; `none` is a request that failed. -/
def EndpointState.submitPendingRegistration (s : EndpointState) (reply : Option AdvertisedBundle) :
    Except Error EndpointState :=
  if s.enrollment = .registering ∨ s.enrollment = .retiring then
    match reply with
    | some advertised => s.acceptRegistration advertised
    | none => .error .invalid
  else .ok s

/-- `legacy_eligible`: permissive mode may treat the peer as one without post-quantum keys. -/
def legacyEligible (s : EndpointState) (other : Number) (hasBundle : Bool) : Bool :=
  if s.policy ≠ .permissive ∨ hasBundle = true then false
  else ¬ (s.relationship other).any fun r => r.priorPq

namespace Upkeep

def perform (s : EndpointState) : Upkeep → EndpointState
  | observeRemote peer bundle lifecycle => s.after (s.observeRemote peer bundle lifecycle)
  | observeActivity peer now rxBytes txBytes => s.after (s.observeActivity peer now rxBytes txBytes)
  | noteSendFailure peer now drawn => (s.noteSendFailure peer now drawn).2
  | setPolicy permissive => { s with policy := if permissive then .permissive else .strict }
  | replace identity => s.after (s.replace identity)
  | submitPendingRegistration reply => s.after (s.submitPendingRegistration reply)
  | acceptRegistration advertised => s.after (s.acceptRegistration advertised)
  | disable => s.after s.disable
  | emergencyRetire => s.emergencyRetire

end Upkeep

/-- The directory's bundle can be taken over: it is valid and no older than the one observed. -/
def Relationship.Follows (r : Relationship) (bundle : Bundle) : Prop :=
  bundle.validate = .ok () ∧ ¬ (bundle.bundleRevision < r.remote.bundleRevision ∨
    (bundle.bundleRevision = r.remote.bundleRevision ∧ bundle ≠ r.remote))

/-- What upkeep can make of a relationship. -/
inductive Revised (s : EndpointState) (other : Number) (r : Relationship) :
    Upkeep → Relationship → Prop where
  | untouched {u : Upkeep} : Revised s other r u r
  | observed {bundle : Bundle} {lifecycle : Lifecycle} :
      other ≠ s.peerId ∧ other ≠ s.serverId → r.Follows bundle →
      Revised s other r (.observeRemote other bundle lifecycle)
        (.settle (.refresh s.peerId other r bundle) lifecycle)
  | sampled {now rxBytes txBytes : Nat} :
      Revised s other r (.observeActivity other now rxBytes txBytes)
        { r with activity := some ⟨rxBytes, txBytes, now⟩ }
  | backedOff {p : Pending} {now attempts nextRetryAt : Nat} {drawn : Except Error UInt8} :
      r.pending = some p → Revised s other r (.noteSendFailure other now drawn)
        { r with pending := some { p with attempts, nextRetryAt } }
  | replaced {identity : Identity} : r.pending = none →
      Revised s other r (.replace identity) { r with gated := true, status := .blocked }
  | disabled : s.enrollment ≠ .retiring → s.registration.lifecycle ≠ .retired →
      Revised s other r .disable { r with pending := none }
  | retired : Revised s other r .emergencyRetire
      { r with pending := none, confirmed := none, gated := true, status := .blocked }

/-- What upkeep can make of what is known of one peer. -/
inductive Upkept (s : EndpointState) (other : Number) (u : Upkeep) :
    Option Relationship → Option Relationship → Prop where
  | unmet : Upkept s other u none none
  | met {bundle : Bundle} : bundle.validate = .ok () → u = .observeRemote other bundle .enabled →
      Upkept s other u none (some (.fresh bundle))
  | revised {r r' : Relationship} : Revised s other r u r' → Upkept s other u (some r) (some r')

theorem Upkept.same (s : EndpointState) (other : Number) (u : Upkeep)
    (before : Option Relationship) : Upkept s other u before before := by
  cases before with
  | none => exact .unmet
  | some r => exact .revised .untouched

end Operations

namespace EndpointState

/-- What is pending with a peer. -/
def pendingWith (s : EndpointState) (other : Number) : Option Pending :=
  (s.relationship other).bind Relationship.pending

theorem relationship_insert (s : EndpointState) (peer other : Number) (r : Relationship) :
    (s.setRelationship peer r).relationship other =
      if other = peer then some r else s.relationship other :=
  lookup_insert_eq _ _ _ _

theorem settle_fresh (bundle : Bundle) :
    Relationship.settle (.fresh bundle) .enabled = .fresh bundle := rfl

theorem settle_pending (r : Relationship) (lifecycle : Lifecycle) :
    (Relationship.settle r lifecycle).pending = r.pending ∨
      (Relationship.settle r lifecycle).pending = none := by
  unfold Relationship.settle
  split
  · exact .inr rfl
  · split
    · exact .inl rfl
    · exact .inl rfl

theorem settle_confirmed (r : Relationship) (lifecycle : Lifecycle) :
    (Relationship.settle r lifecycle).confirmed = r.confirmed := by
  unfold Relationship.settle
  split
  · rfl
  · split
    · rfl
    · rfl

theorem refresh_pending (self other : Number) (r : Relationship) (bundle : Bundle) :
    (Relationship.refresh self other r bundle).pending = r.pending ∨
      (Relationship.refresh self other r bundle).pending = none := by
  simp only [Relationship.refresh]
  exact (ite_eq_or_eq _ _ _).symm

variable [Native]

theorem observeRemote_kept {s s' : EndpointState} {peer : Number} {bundle : Bundle}
    {lifecycle : Lifecycle} (other : Number)
    (observed : s.observeRemote peer bundle lifecycle = .ok s') :
    Upkept s other (.observeRemote peer bundle lifecycle) (s.relationship other)
      (s'.relationship other) := by
  simp only [observeRemote, bind_ok, require_ok] at observed
  obtain ⟨_, apart, _, valid, observed⟩ := observed
  split at observed
  · rename_i unknown
    simp only [bind_ok, require_ok, pure_ok] at observed
    obtain ⟨_, enabled, rfl⟩ := observed
    cases lifecycle with
    | retired => exact absurd rfl enabled
    | enabled =>
      rw [relationship_insert, settle_fresh]
      split
      · rename_i here
        subst here
        rw [unknown]
        exact .met valid rfl
      · exact .same s other _ _
  · rename_i r known
    simp only [bind_ok, require_ok, pure_ok] at observed
    obtain ⟨_, newer, rfl⟩ := observed
    rw [relationship_insert]
    split
    · rename_i here
      subst here
      rw [known]
      exact .revised (.observed apart ⟨valid, newer⟩)
    · exact .same s other _ _

omit [Native] in
theorem pending_none_of_any {s : EndpointState} {other : Number} {r : Relationship}
    (idle : any (fun _ r => r.pending.isSome) s.relationships = false)
    (known : s.relationship other = some r) : r.pending = none := by
  by_contra busy
  have found := (any_iff (fun _ r => r.pending.isSome) s.relationships).mpr
    ⟨other, r, known, Option.isSome_iff_ne_none.mpr busy⟩
  rw [found] at idle
  cases idle

theorem replace_ok {s s' : EndpointState} {identity : Identity}
    (replaced : s.replace identity = .ok s') :
    any (fun _ r => r.pending.isSome) s.relationships = false ∧ identity.validate = .ok () ∧
      s'.registration = ⟨some s.identity.bundle.bundleRevision, 1, .enabled, identity.bundle,
        false⟩ ∧ s'.identity = identity ∧ s'.enrollment = .registering ∧ s'.peerId = s.peerId ∧
      s'.serverId = s.serverId ∧ s'.networkId = s.networkId ∧ s'.policy = s.policy ∧
      ∀ other, s'.relationship other = (s.relationship other).map fun r =>
        { r with gated := true, status := .blocked } := by
  simp only [replace, bind_ok, require_ok, pure_ok] at replaced
  obtain ⟨_, idle, _, _, _, _, _, _, _, valid, rfl⟩ := replaced
  exact ⟨idle, valid, rfl, rfl, rfl, rfl, rfl, rfl, rfl, fun other =>
    relationship_mapRelationships _ _ other⟩

omit [Native] in
theorem acceptRegistration_ok {s s' : EndpointState} {advertised : AdvertisedBundle}
    (accepted : s.acceptRegistration advertised = .ok s') :
    advertised.bundle = s.registration.bundle ∧
      advertised.lifecycle = s.registration.lifecycle ∧
      s' = { s with
        enrollment := if s.registration.lifecycle = .enabled then .advertised else .retired } := by
  simp only [acceptRegistration, bind_ok, require_ok, pure_ok] at accepted
  obtain ⟨_, ⟨bundle, lifecycle, _⟩, rfl⟩ := accepted
  rw [lifecycle]
  exact ⟨bundle, rfl, rfl⟩

omit [Native] in
/-- A submission changes nothing, or accepts the server's reply. -/
theorem submitPendingRegistration_cases (s : EndpointState) (reply : Option AdvertisedBundle) :
    s.after (s.submitPendingRegistration reply) = s ∨ ∃ advertised s', reply = some advertised ∧
      s.acceptRegistration advertised = .ok s' ∧
      s.after (s.submitPendingRegistration reply) = s' := by
  unfold submitPendingRegistration
  split
  · cases reply with
    | none => exact .inl rfl
    | some advertised =>
      cases accepted : s.acceptRegistration advertised with
      | error e => exact .inl (by simp [accepted, after])
      | ok s' => exact .inr ⟨advertised, s', rfl, accepted, by simp [accepted, after]⟩
  · exact .inl rfl

omit [Native] in
theorem disable_ok {s s' : EndpointState} (disabled : s.disable = .ok s') :
    s.enrollment ≠ .retiring ∧ s.registration.lifecycle ≠ .retired ∧
      s'.enrollment = .retiring ∧ s'.registration.lifecycle = .retired ∧
      s'.identity = s.identity ∧ s'.peerId = s.peerId ∧ s'.serverId = s.serverId ∧
      s'.networkId = s.networkId ∧ s'.policy = s.policy ∧
      ∀ other, s'.relationship other =
        (s.relationship other).map fun r => { r with pending := none } := by
  simp only [disable, bind_ok, require_ok, pure_ok, not_or] at disabled
  obtain ⟨_, ⟨unretiring, enabled⟩, rfl⟩ := disabled
  exact ⟨unretiring, enabled, rfl, rfl, rfl, rfl, rfl, rfl, rfl, fun other =>
    relationship_mapRelationships _ _ other⟩

omit [Native] in
theorem noteSendFailure_kept (s : EndpointState) (peer : Number) (now : Nat)
    (drawn : Except Error UInt8) (other : Number) :
    (s.noteSendFailure peer now drawn).2.relationship other = s.relationship other ∨
      other = peer ∧ ∃ r p attempts nextRetryAt, s.relationship other = some r ∧
        r.pending = some p ∧ (s.noteSendFailure peer now drawn).2.relationship other =
          some { r with pending := some { p with attempts, nextRetryAt } } := by
  unfold noteSendFailure
  split
  · exact .inl rfl
  rename_i r known
  split
  · exact .inl rfl
  rename_i p pending
  dsimp only
  split
  · rw [relationship_insert]
    split
    · rename_i here
      subst here
      exact .inr ⟨rfl, r, p, _, p.nextRetryAt, known, pending, rfl⟩
    · exact .inl rfl
  · rw [relationship_insert]
    split
    · rename_i here
      subst here
      exact .inr ⟨rfl, r, p, _, _, known, pending, rfl⟩
    · exact .inl rfl

theorem mapRelationships_kept {s : EndpointState} {other : Number} {u : Upkeep}
    {f : Relationship → Relationship}
    (revised : ∀ r, s.relationship other = some r → Revised s other r u (f r)) :
    Upkept s other u (s.relationship other) ((s.relationship other).map f) := by
  cases known : s.relationship other with
  | none => exact .unmet
  | some r => exact .revised (revised r known)

/-- Upkeep makes of a relationship only what its case says. -/
theorem upkept (u : Upkeep) (s : EndpointState) (other : Number) :
    Upkept s other u (s.relationship other) ((u.perform s).relationship other) := by
  have same := Upkept.same s other u (s.relationship other)
  cases u with
  | observeRemote peer bundle lifecycle =>
    change Upkept s other _ _ ((s.after (s.observeRemote peer bundle lifecycle)).relationship other)
    cases observed : s.observeRemote peer bundle lifecycle with
    | error e => exact same
    | ok s' => exact observeRemote_kept other observed
  | observeActivity peer now rxBytes txBytes =>
    change Upkept s other _ _
      ((s.after (s.observeActivity peer now rxBytes txBytes)).relationship other)
    unfold observeActivity
    split
    · exact same
    rename_i r known
    dsimp only [after]
    split
    · exact same
    · rw [relationship_insert]
      split
      · rename_i here
        subst here
        rw [known]
        exact .revised .sampled
      · exact same
  | noteSendFailure peer now drawn =>
    change Upkept s other _ _ ((s.noteSendFailure peer now drawn).2.relationship other)
    rcases noteSendFailure_kept s peer now drawn other with
      here | ⟨rfl, r, p, attempts, nextRetryAt, known, pending, here⟩
    · rw [here]
      exact same
    · rw [here, known]
      exact .revised (.backedOff pending)
  | setPolicy permissive => exact same
  | replace identity =>
    change Upkept s other _ _ ((s.after (s.replace identity)).relationship other)
    cases replaced : s.replace identity with
    | error e => exact same
    | ok s' =>
      obtain ⟨idle, -, -, -, -, -, -, -, -, rows⟩ := replace_ok replaced
      change Upkept s other _ _ (s'.relationship other)
      rw [rows other]
      exact mapRelationships_kept fun r known => .replaced (pending_none_of_any idle known)
  | submitPendingRegistration reply =>
    change Upkept s other _ _ ((s.after (s.submitPendingRegistration reply)).relationship other)
    rcases s.submitPendingRegistration_cases reply with here | ⟨advertised, s', -, accepted, here⟩
    · rw [here]
      exact same
    · rw [here, (acceptRegistration_ok accepted).2.2]
      exact same
  | acceptRegistration advertised =>
    change Upkept s other _ _ ((s.after (s.acceptRegistration advertised)).relationship other)
    cases accepted : s.acceptRegistration advertised with
    | error e => exact same
    | ok s' =>
      rw [(acceptRegistration_ok accepted).2.2]
      exact same
  | disable =>
    change Upkept s other _ _ ((s.after s.disable).relationship other)
    cases disabled : s.disable with
    | error e => exact same
    | ok s' =>
      obtain ⟨unretiring, enabled, -, -, -, -, -, -, -, rows⟩ := disable_ok disabled
      change Upkept s other _ _ (s'.relationship other)
      rw [rows other]
      exact mapRelationships_kept fun r _ => .disabled unretiring enabled
  | emergencyRetire =>
    change Upkept s other _ _ (s.emergencyRetire.relationship other)
    rw [emergencyRetire, relationship_mapRelationships]
    exact mapRelationships_kept (s := s) fun r _ => .retired

/-- Only an observation changes the peer's bundle. -/
theorem revised_remote {s : EndpointState} {other : Number} {r r' : Relationship} {u : Upkeep}
    (revised : Revised s other r u r') : r'.remote = r.remote ∨
      ∃ bundle lifecycle, u = .observeRemote other bundle lifecycle ∧ r'.remote = bundle := by
  cases revised with
  | @observed bundle lifecycle =>
    refine .inr ⟨bundle, lifecycle, rfl, ?_⟩
    unfold Relationship.settle
    split
    · rfl
    · split
      · rfl
      · rfl
  | _ => exact .inl rfl

theorem revised_pending {s : EndpointState} {other : Number} {r r' : Relationship} {u : Upkeep}
    (revised : Revised s other r u r') {p' : Pending} (pending : r'.pending = some p') :
    ∃ p, r.pending = some p ∧ p'.transcript = p.transcript ∧ p'.candidate = p.candidate := by
  cases revised with
  | untouched => exact ⟨p', pending, rfl, rfl⟩
  | sampled => exact ⟨p', pending, rfl, rfl⟩
  | @backedOff p _ _ _ _ before =>
    cases pending
    exact ⟨p, before, rfl, rfl⟩
  | replaced => exact ⟨p', pending, rfl, rfl⟩
  | disabled => cases pending
  | retired => cases pending
  | @observed bundle lifecycle =>
    rcases settle_pending (.refresh s.peerId other r bundle) lifecycle with same | dropped
    · rcases refresh_pending s.peerId other r bundle with same' | dropped
      · exact ⟨p', by rw [← same', ← same, pending], rfl, rfl⟩
      · rw [same, dropped] at pending
        cases pending
    · rw [dropped] at pending
      cases pending

/-- What upkeep can make of the rest of the state. -/
inductive Managed (s : EndpointState) : Upkeep → EndpointState → Prop where
  | related {u : Upkeep} {relationships : Table Number Relationship} :
      Managed s u { s with relationships }
  | permitted {permissive : Bool} : Managed s (.setPolicy permissive)
      { s with policy := if permissive then .permissive else .strict }
  | replaced {identity : Identity} {s' : EndpointState} : s.replace identity = .ok s' →
      Managed s (.replace identity) s'
  | submitted {advertised : AdvertisedBundle} {s' : EndpointState} :
      s.acceptRegistration advertised = .ok s' →
      Managed s (.submitPendingRegistration (some advertised)) s'
  | accepted {advertised : AdvertisedBundle} {s' : EndpointState} :
      s.acceptRegistration advertised = .ok s' → Managed s (.acceptRegistration advertised) s'
  | disabled {s' : EndpointState} : s.disable = .ok s' → Managed s .disable s'
  | retired : Managed s .emergencyRetire s.emergencyRetire

theorem managed (u : Upkeep) (s : EndpointState) : Managed s u (u.perform s) := by
  cases u with
  | observeRemote peer bundle lifecycle =>
    change Managed s _ (s.after (s.observeRemote peer bundle lifecycle))
    cases observed : s.observeRemote peer bundle lifecycle with
    | error e => exact .related
    | ok s' =>
      simp only [observeRemote, bind_ok, require_ok] at observed
      obtain ⟨_, _, _, _, observed⟩ := observed
      split at observed
      · simp only [bind_ok, pure_ok] at observed
        obtain ⟨_, _, rfl⟩ := observed
        exact .related
      · simp only [bind_ok, pure_ok] at observed
        obtain ⟨_, _, rfl⟩ := observed
        exact .related
  | observeActivity peer now rxBytes txBytes =>
    change Managed s _ (s.after (s.observeActivity peer now rxBytes txBytes))
    unfold observeActivity
    split
    · exact .related
    · dsimp only [after]
      split
      · exact .related
      · exact .related
  | noteSendFailure peer now drawn =>
    change Managed s _ (s.noteSendFailure peer now drawn).2
    unfold noteSendFailure
    split
    · exact .related
    · split
      · exact .related
      · dsimp only
        split
        · exact .related
        · exact .related
  | setPolicy permissive => exact .permitted
  | replace identity =>
    change Managed s _ (s.after (s.replace identity))
    cases replaced : s.replace identity with
    | error e => exact .related
    | ok s' => exact .replaced replaced
  | submitPendingRegistration reply =>
    change Managed s _ (s.after (s.submitPendingRegistration reply))
    rcases s.submitPendingRegistration_cases reply with same | ⟨advertised, s', rfl, accepted, same⟩
    · rw [same]
      exact .related
    · rw [same]
      exact .submitted accepted
  | acceptRegistration advertised =>
    change Managed s _ (s.after (s.acceptRegistration advertised))
    cases accepted : s.acceptRegistration advertised with
    | error e => exact .related
    | ok s' => exact .accepted accepted
  | disable =>
    change Managed s _ (s.after s.disable)
    cases disabled : s.disable with
    | error e => exact .related
    | ok s' => exact .disabled disabled
  | emergencyRetire => exact .retired

theorem upkeep_peerId (u : Upkeep) (s : EndpointState) : (u.perform s).peerId = s.peerId := by
  have managed := managed u s
  generalize u.perform s = s' at managed
  cases managed with
  | related => rfl
  | permitted => rfl
  | replaced replaced => exact (replace_ok replaced).2.2.2.2.2.1
  | submitted accepted => rw [(acceptRegistration_ok accepted).2.2]
  | accepted accepted => rw [(acceptRegistration_ok accepted).2.2]
  | disabled disabled => exact (disable_ok disabled).2.2.2.2.2.1
  | retired => rfl

/-- Only `set_policy` changes the policy. -/
theorem upkeep_policy (u : Upkeep) (s : EndpointState) :
    (u.perform s).policy = s.policy ∨ ∃ permissive, u = .setPolicy permissive ∧
      (u.perform s).policy = if permissive then .permissive else .strict := by
  have managed := managed u s
  generalize u.perform s = s' at managed ⊢
  cases managed with
  | related => exact .inl rfl
  | permitted => exact .inr ⟨_, rfl, rfl⟩
  | replaced replaced =>
    obtain ⟨-, -, -, -, -, -, -, -, same, -⟩ := replace_ok replaced
    exact .inl same
  | submitted accepted =>
    rw [(acceptRegistration_ok accepted).2.2]
    exact .inl rfl
  | accepted accepted =>
    rw [(acceptRegistration_ok accepted).2.2]
    exact .inl rfl
  | disabled disabled =>
    obtain ⟨-, -, -, -, -, -, -, -, same, -⟩ := disable_ok disabled
    exact .inl same
  | retired => exact .inl rfl

/-- Only `replace` changes the identity, to a valid one. -/
theorem upkeep_identity (u : Upkeep) (s : EndpointState) :
    (u.perform s).identity = s.identity ∨ ∃ identity, u = .replace identity ∧
      identity.validate = .ok () ∧ (u.perform s).identity = identity := by
  have managed := managed u s
  generalize u.perform s = s' at managed ⊢
  cases managed with
  | related => exact .inl rfl
  | permitted => exact .inl rfl
  | replaced replaced =>
    obtain ⟨-, valid, -, same, -⟩ := replace_ok replaced
    exact .inr ⟨_, rfl, valid, same⟩
  | submitted accepted =>
    rw [(acceptRegistration_ok accepted).2.2]
    exact .inl rfl
  | accepted accepted =>
    rw [(acceptRegistration_ok accepted).2.2]
    exact .inl rfl
  | disabled disabled =>
    obtain ⟨-, -, -, -, same, -⟩ := disable_ok disabled
    exact .inl same
  | retired => exact .inl rfl

omit [Native] in
theorem validate_keys [Native] {i : Identity} (valid : i.validate = .ok ()) :
    Crypto.hybridPublic i.hybridSecret = .ok
      ⟨i.bundle.pqKemPublicKey, i.bundle.pqX448PublicKey⟩ := by
  simp only [Identity.validate, bind_ok, require_ok] at valid
  obtain ⟨_, _, publicKey, found, _, ⟨kem, x448⟩, -⟩ := valid
  rw [found, ← kem, ← x448]

/-- The gate of a call: what it needs to do anything at all. -/
def Open (s : EndpointState) (r : Relationship) : Prop :=
  r.gated = false ∧ r.status ≠ .blocked ∧ s.enrollment ≠ .retiring

theorem reconcileRelationship_closed {σ : Type} {s : EndpointState} {r : Relationship}
    (closed : ¬ s.Open r) (other : Number) (remote : Option Exchange)
    (now rotationInterval idleTimeout : Nat) (installer : Installer σ) (draws : Draws) (world : σ) :
    s.reconcileRelationship other r remote now rotationInterval idleTimeout installer draws world =
      (.ok .none, r, world) := by
  unfold reconcileRelationship
  rw [if_pos]
  by_contra not_shut
  rw [not_or, not_or, Bool.not_eq_true] at not_shut
  exact closed not_shut

end EndpointState

/-- A call does nothing, or takes one turn of an open relationship. -/
inductive Call.Performed [Native] (c : Call) (s : EndpointState) :
    Except Error Action → EndpointState → List (Bundle × Candidate) → Prop where
  | refused {e : Error} : Performed c s (.error e) s []
  | closed {r : Relationship} : s.relationship c.other = some r → ¬ s.Open r →
      Performed c s (.ok .none) (s.setRelationship c.other r) []
  | turned {r r' : Relationship} {result : Except Error Action} {calls : List (Bundle × Candidate)} :
      c.other ≠ s.peerId ∧ c.other ≠ s.serverId → s.relationship c.other = some r → s.Open r →
      EndpointState.Turn s c.other r c.remote c.now (.answering c.install c.fresh) c.draws []
        result r' calls →
      Performed c s result (s.setRelationship c.other r') calls

theorem Call.performed [Native] (c : Call) (s : EndpointState) :
    c.Performed s (c.perform s).1 (c.perform s).2.1 (c.perform s).2.2 := by
  unfold Call.perform EndpointState.reconcile
  split
  · exact .refused
  rename_i apart
  split
  · exact .refused
  rename_i r known
  dsimp only
  by_cases shut : s.Open r
  · exact .turned (not_or.mp apart) known shut (EndpointState.reconcileRelationship_turn rfl)
  · rw [EndpointState.reconcileRelationship_closed shut]
    exact .closed known shut

/-- A call leaves the relationship and sends nothing, or takes one turn of it. -/
theorem Call.turned [Native] (c : Call) (s : EndpointState) :
    ((c.perform s).2.1.relationship c.other = s.relationship c.other ∧ (c.perform s).2.2 = [] ∧
      ∀ action, (c.perform s).1 = .ok action → action = .none) ∨
    ∃ r r', c.other ≠ s.peerId ∧ s.relationship c.other = some r ∧
      (c.perform s).2.1.relationship c.other = some r' ∧ s.Open r ∧
      EndpointState.Turn s c.other r c.remote c.now (.answering c.install c.fresh) c.draws []
        (c.perform s).1 r' (c.perform s).2.2 := by
  have performed := c.performed s
  generalize (c.perform s).1 = result at performed ⊢
  generalize (c.perform s).2.1 = s' at performed ⊢
  generalize (c.perform s).2.2 = calls at performed ⊢
  cases performed with
  | refused => exact .inl ⟨rfl, rfl, fun _ done => nomatch done⟩
  | closed known =>
    refine .inl ⟨?_, rfl, fun _ done => (Except.ok.inj done).symm⟩
    rw [EndpointState.relationship_setRelationship, known]
  | @turned r r' _ _ apart known shut turn =>
    exact .inr ⟨r, r', apart.1, known, EndpointState.relationship_setRelationship _ _ _, shut, turn⟩

theorem Call.other_relationship [Native] (c : Call) (s : EndpointState) {other : Number}
    (apart : other ≠ c.other) : (c.perform s).2.1.relationship other = s.relationship other := by
  have performed := c.performed s
  generalize (c.perform s).1 = result at performed
  generalize (c.perform s).2.1 = s' at performed ⊢
  generalize (c.perform s).2.2 = calls at performed
  cases performed with
  | refused => rfl
  | closed => rw [EndpointState.relationship_insert, if_neg apart]
  | turned => rw [EndpointState.relationship_insert, if_neg apart]

/-- A call changes nothing but one relationship. -/
theorem Call.perform_frame [Native] (c : Call) (s : EndpointState) :
    ∃ relationships, (c.perform s).2.1 = { s with relationships } := by
  have performed := c.performed s
  generalize (c.perform s).1 = result at performed
  generalize (c.perform s).2.1 = s' at performed ⊢
  generalize (c.perform s).2.2 = calls at performed
  cases performed with
  | refused => exact ⟨s.relationships, rfl⟩
  | closed => exact ⟨_, rfl⟩
  | turned => exact ⟨_, rfl⟩

def Deed.apply [Native] (s : EndpointState) : Deed → EndpointState
  | .reconcile c => (c.perform s).2.1
  | .upkeep u => u.perform s

theorem EndpointState.apply_peerId [Native] (d : Deed) (s : EndpointState) :
    (d.apply s).peerId = s.peerId := by
  cases d with
  | upkeep u => exact upkeep_peerId u s
  | reconcile c =>
    obtain ⟨relationships, frame⟩ := c.perform_frame s
    change (c.perform s).2.1.peerId = s.peerId
    rw [frame]

/-- An endpoint with what is remembered of its run: the candidate `install` was last called with
for each peer, and whether a `Confirmed` message was emitted for it. -/
structure Endpoint where
  state : EndpointState
  keyed : Number → Option Candidate
  vouched : Number → Bool

/-- The action sends a `Confirmed` message. -/
def Action.vouches : Except Error Action → Bool
  | .ok (.send m) => m.messageType = Kind.confirmed.code
  | _ => false

namespace Endpoint

def start (s : EndpointState) : Endpoint where
  state := s
  keyed _ := none
  vouched _ := false

section Steps

variable [Native]

def next (e : Endpoint) : Deed → Endpoint
  | .reconcile c =>
    { state := (c.perform e.state).2.1
      keyed := Function.update e.keyed c.other
        (((c.perform e.state).2.2.getLast?.map Prod.snd).or (e.keyed c.other))
      vouched := Function.update e.vouched c.other
        (e.vouched c.other || Action.vouches (c.perform e.state).1) }
  | .upkeep u => { e with state := u.perform e.state }

def Step (e : Endpoint) (d : Deed) (e' : Endpoint) : Prop := e' = e.next d

/-- What one deed makes of what concerns one peer. -/
inductive Seen (e : Endpoint) (other : Number) : Deed → Option Relationship →
    Option Relationship → Option Candidate → Bool → Prop where
  | untouched {d : Deed} {before : Option Relationship} :
      Seen e other d before before (e.keyed other) (e.vouched other)
  | upkept {u : Upkeep} {before after : Option Relationship} :
      Upkept e.state other u before after →
      Seen e other (.upkeep u) before after (e.keyed other) (e.vouched other)
  | turned {c : Call} {r r' : Relationship} {result : Except Error Action}
      {calls : List (Bundle × Candidate)} : c.other = other →
      other ≠ e.state.peerId → e.state.Open r →
      EndpointState.Turn e.state other r c.remote c.now (.answering c.install c.fresh) c.draws []
        result r' calls →
      Seen e other (.reconcile c) (some r) (some r')
        ((calls.getLast?.map Prod.snd).or (e.keyed other))
        (e.vouched other || Action.vouches result)

theorem seen (e : Endpoint) (d : Deed) (other : Number) :
    e.Seen other d (e.state.relationship other) ((e.next d).state.relationship other)
      ((e.next d).keyed other) ((e.next d).vouched other) := by
  cases d with
  | upkeep u => exact .upkept (EndpointState.upkept u e.state other)
  | reconcile c =>
    have performed := c.performed e.state
    by_cases here : c.other = other
    · subst here
      change e.Seen c.other (.reconcile c) _ ((c.perform e.state).2.1.relationship c.other)
        (Function.update e.keyed c.other _ c.other) (Function.update e.vouched c.other _ c.other)
      rw [Function.update_self, Function.update_self]
      generalize (c.perform e.state).1 = result at performed ⊢
      generalize (c.perform e.state).2.1 = after at performed ⊢
      generalize (c.perform e.state).2.2 = calls at performed ⊢
      cases performed with
      | refused =>
        simp only [List.getLast?_nil, Option.map_none, Option.none_or, Action.vouches,
          Bool.or_false]
        exact .untouched
      | closed known =>
        simp only [List.getLast?_nil, Option.map_none, Option.none_or, Action.vouches,
          Bool.or_false, EndpointState.relationship_setRelationship]
        rw [known]
        exact .untouched
      | turned apart known shut turn =>
        rw [EndpointState.relationship_setRelationship, known]
        exact .turned rfl apart.1 shut turn
    · change e.Seen other (.reconcile c) _ ((c.perform e.state).2.1.relationship other)
        (Function.update e.keyed c.other _ other) (Function.update e.vouched c.other _ other)
      rw [Function.update_of_ne (Ne.symm here), Function.update_of_ne (Ne.symm here)]
      rw [c.other_relationship e.state (Ne.symm here)]
      exact .untouched

end Steps

end Endpoint

end Innernet
