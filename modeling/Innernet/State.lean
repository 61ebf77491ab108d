import Innernet.Api
import Innernet.Library.Tables

/-! The durable endpoint snapshot of `pq/src/state.rs` and the operations on it. An operation that
fails leaves the snapshot as it was, so each returns the new snapshot or an error. -/
namespace Innernet

open Fallible Tables

inductive Policy where
  | strict
  | permissive
  | retired
  deriving DecidableEq, Repr

inductive Enrollment where
  | registering
  | advertised
  | retiring
  | retired
  deriving DecidableEq, Repr

inductive Status where
  | advertised
  | legacy
  | preparing
  | recovering
  | confirmed
  | blocked
  deriving DecidableEq, Repr

structure Identity where
  bundle : Bundle
  kem : Binary 3168
  x448 : Binary 56
  signing : Binary 66
  deriving DecidableEq

namespace Identity

def hybridSecret (i : Identity) : HybridSecret where
  kem := i.kem
  x448 := i.x448

def validate [Native] (i : Identity) : Except Error Unit := do
  i.bundle.validate
  let publicKey ← Crypto.hybridPublic i.hybridSecret
  require (publicKey.kem = i.bundle.pqKemPublicKey ∧ publicKey.x448 = i.bundle.pqX448PublicKey)
    .invalid
  let signing ← Crypto.signingPublic i.signing
  require (signing = i.bundle.pqSigPublicKey) .invalid

end Identity

structure StagedLink where
  provisionId : Binary 16
  psk : Binary 32
  deriving DecidableEq

structure ManagementLink where
  provisionId : Binary 16
  psk : Binary 32
  verified : Bool
  staged : Option StagedLink
  previous : Option StagedLink
  deriving DecidableEq

structure Pending where
  transcript : Transcript
  candidate : Candidate
  decision : Decision
  outbox : List Message
  installationIntent : Bool
  installed : Bool
  confirmed : Bool
  attempts : Nat
  nextRetryAt : Nat
  deriving DecidableEq

structure Confirmed where
  localBundleId : Binary 16
  remoteBundleId : Binary 16
  sequence : Number
  exchangeId : Binary 16
  transcriptHash : Binary 32
  psk : Binary 32
  completedAt : Nat
  deriving DecidableEq

structure Activity where
  rxBytes : Nat
  txBytes : Nat
  lastActiveAt : Nat
  deriving DecidableEq

structure Relationship where
  remote : Bundle
  sequence : Number
  priorPq : Bool
  operatorPskId : Binary 16
  operatorPsk : Binary 32
  confirmed : Option Confirmed
  pending : Option Pending
  gated : Bool
  status : Status
  activity : Option Activity
  deriving DecidableEq

structure EndpointState where
  networkId : Binary 16
  peerId : Number
  serverId : Number
  serverPublicKey : Binary 32
  policy : Policy
  identity : Identity
  enrollment : Enrollment
  registration : Registration
  management : ManagementLink
  relationships : Table Number Relationship
  deriving DecidableEq

/-- What `observe_remote` enters for a peer seen for the first time. -/
def Relationship.fresh (remote : Bundle) : Relationship where
  remote
  sequence := ⟨1, by decide, by decide⟩
  priorPq := false
  operatorPskId := 0
  operatorPsk := 0
  confirmed := none
  pending := none
  gated := false
  status := .advertised
  activity := none

/-- A newer bundle id drops the pending exchange pinned to the old one. -/
def Relationship.refresh (self other : Number) (r : Relationship) (bundle : Bundle) :
    Relationship :=
  let pinned := r.pending.any fun p =>
    (if self < other then p.transcript.responder else p.transcript.initiator).bundleId =
      r.remote.bundleId
  { r with
    remote := bundle
    pending := if bundle.bundleId ≠ r.remote.bundleId ∧ pinned then none else r.pending }

def Relationship.settle (r : Relationship) (lifecycle : Lifecycle) : Relationship :=
  if lifecycle = .retired then { r with status := .blocked, pending := none }
  else if r.status = .blocked ∧ r.gated = false then { r with status := .advertised }
  else r

namespace EndpointState

def relationship (s : EndpointState) (other : Number) : Option Relationship :=
  s.relationships.lookup other

def setRelationship (s : EndpointState) (other : Number) (r : Relationship) : EndpointState :=
  { s with relationships := s.relationships.insert other r }

/-- `for r in self.relationships.values_mut()`. -/
def mapRelationships (s : EndpointState) (f : Relationship → Relationship) : EndpointState :=
  { s with relationships := mapRows (fun _ => f) s.relationships }

@[simp] theorem relationship_setRelationship (s : EndpointState) (other : Number)
    (r : Relationship) : (s.setRelationship other r).relationship other = some r :=
  AList.lookup_insert _

@[simp] theorem relationship_mapRelationships (s : EndpointState) (f : Relationship → Relationship)
    (other : Number) :
    (s.mapRelationships f).relationship other = (s.relationship other).map f :=
  lookup_mapRows _ _ _

section Operations

variable [Native]

def replace (s : EndpointState) (identity : Identity) : Except Error EndpointState := do
  require (any (fun _ r => r.pending.isSome) s.relationships = false) .conflict
  require (identity.bundle.wgPublicKey = s.identity.bundle.wgPublicKey ∧
    identity.bundle.bundleId ≠ s.identity.bundle.bundleId) .invalid
  let following ← s.identity.bundle.bundleRevision.next
  require (identity.bundle.bundleRevision = following) .invalid
  identity.validate
  let replaced := { s with
    registration := {
      expectedRevision := some s.identity.bundle.bundleRevision
      pqVersion := 1
      lifecycle := .enabled
      bundle := identity.bundle
      emergency := false }
    identity
    enrollment := .registering }
  return replaced.mapRelationships fun r => { r with gated := true, status := .blocked }

def acceptRegistration (s : EndpointState) (advertised : AdvertisedBundle) :
    Except Error EndpointState := do
  require (advertised.bundle = s.registration.bundle ∧
    advertised.lifecycle = s.registration.lifecycle ∧ advertised.pqVersion = 1) .conflict
  return { s with
    enrollment := if advertised.lifecycle = .enabled then .advertised else .retired }

def observeRemote (s : EndpointState) (other : Number) (bundle : Bundle) (lifecycle : Lifecycle) :
    Except Error EndpointState := do
  require (other ≠ s.peerId ∧ other ≠ s.serverId) .invalid
  bundle.validate
  match s.relationship other with
  | none =>
    require (lifecycle ≠ .retired) .invalid
    return s.setRelationship other (Relationship.settle (.fresh bundle) lifecycle)
  | some r =>
    require (¬ (bundle.bundleRevision < r.remote.bundleRevision ∨
      (bundle.bundleRevision = r.remote.bundleRevision ∧ bundle ≠ r.remote))) .conflict
    return s.setRelationship other
      (Relationship.settle (Relationship.refresh s.peerId other r bundle) lifecycle)

omit [Native] in
def observeActivity (s : EndpointState) (other : Number) (now rxBytes txBytes : Nat) :
    Except Error EndpointState :=
  match s.relationship other with
  | none => .error .invalid
  | some r =>
    let unchanged := r.activity.any fun a => a.rxBytes = rxBytes ∧ a.txBytes = txBytes
    .ok <| if unchanged then s else
      s.setRelationship other { r with activity := some ⟨rxBytes, txBytes, now⟩ }

def disable (s : EndpointState) : Except Error EndpointState := do
  require (¬ (s.enrollment = .retiring ∨ s.registration.lifecycle = .retired)) .conflict
  let disabled := { s with
    registration := {
      expectedRevision := some s.identity.bundle.bundleRevision
      pqVersion := 1
      lifecycle := .retired
      bundle := s.identity.bundle
      emergency := false }
    enrollment := .retiring }
  return disabled.mapRelationships fun r => { r with pending := none }

def emergencyRetire (s : EndpointState) : EndpointState :=
  let retired := { s with
    registration := {
      expectedRevision := some s.identity.bundle.bundleRevision
      pqVersion := 1
      lifecycle := .retired
      bundle := s.identity.bundle
      emergency := true }
    enrollment := .retiring }
  retired.mapRelationships fun r =>
    { r with pending := none, confirmed := none, gated := true, status := .blocked }

end Operations

end EndpointState

end Innernet
