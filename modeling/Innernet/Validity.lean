import Innernet.Binding
import Innernet.Retirement
import Innernet.Server.Management

/-! `EndpointState::validate` of `pq/src/state.rs`, and which operations keep it. -/
namespace Innernet

open Fallible Tables

namespace EndpointState

variable [Native]

def validateMessage (s : EndpointState) (p : Pending) (m : Message) : Except Error Unit := do
  require (m.senderId = s.peerId) .invalid
  m.authenticate p.transcript
  m.confirm p.candidate

def validatePending (s : EndpointState) (other : Number) (r : Relationship) (p : Pending) :
    Except Error Unit := do
  let t := p.transcript
  t.validate
  require (t.networkId = s.networkId ∧ t.initiatorId = min s.peerId other ∧
    t.responderId = max s.peerId other ∧ t.sequence ≤ r.sequence ∧ p.outbox.length ≤ 8) .invalid
  let ours := if s.peerId < other then t.initiator else t.responder
  let theirs := if s.peerId < other then t.responder else t.initiator
  require (ours = s.identity.bundle ∧ theirs = r.remote) .invalid
  p.outbox.forM (s.validateMessage p)

def validateRelationship (s : EndpointState) (other : Number) (r : Relationship) :
    Except Error Unit := do
  require (other ≠ s.peerId ∧ other ≠ s.serverId) .invalid
  r.remote.validate
  match r.pending with
  | .none => return ()
  | .some p => s.validatePending other r p

/-- The rows are checked in the table's order; that decides only which error is reported. -/
def validate (s : EndpointState) : Except Error Unit := do
  require (s.peerId ≠ s.serverId ∧ s.relationships.entries.length ≤ 10000) .invalid
  s.identity.validate
  s.management.validate
  require (s.registration.bundle = s.identity.bundle) .invalid
  s.relationships.entries.forM fun e => s.validateRelationship e.1 e.2

/-- What is checked of a pending exchange. -/
structure Pinned (s : EndpointState) (other : Number) (r : Relationship) (p : Pending) : Prop where
  transcript : p.transcript.validate = .ok ()
  networkId : p.transcript.networkId = s.networkId
  initiatorId : p.transcript.initiatorId = min s.peerId other
  responderId : p.transcript.responderId = max s.peerId other
  sequence : p.transcript.sequence ≤ r.sequence
  room : p.outbox.length ≤ 8
  ours : p.transcript.bundleOf s.peerId = s.identity.bundle
  theirs : (if s.peerId < other then p.transcript.responder else p.transcript.initiator) = r.remote
  outbox : ∀ m ∈ p.outbox, m.senderId = s.peerId ∧ m.authenticate p.transcript = .ok () ∧
    m.confirm p.candidate = .ok ()

/-- What is checked of a relationship. -/
structure Kept (s : EndpointState) (other : Number) (r : Relationship) : Prop where
  apart : other ≠ s.peerId ∧ other ≠ s.serverId
  remote : r.remote.validate = .ok ()
  pinned : ∀ p, r.pending = some p → s.Pinned other r p

structure Valid (s : EndpointState) : Prop where
  apart : s.peerId ≠ s.serverId
  few : s.relationships.entries.length ≤ 10000
  identity : s.identity.validate = .ok ()
  management : s.management.validate = .ok ()
  registered : s.registration.bundle = s.identity.bundle
  kept : ∀ other r, s.relationship other = some r → s.Kept other r

theorem validatePending_ok {s : EndpointState} {other : Number} {r : Relationship} {p : Pending}
    (apart : other ≠ s.peerId) : s.validatePending other r p = .ok () ↔ s.Pinned other r p := by
  have side : p.transcript.initiatorId = min s.peerId other →
      p.transcript.bundleOf s.peerId =
        if s.peerId < other then p.transcript.initiator else p.transcript.responder := by
    intro initiatorId
    rw [Transcript.bundleOf, initiatorId]
    refine if_congr ?_ rfl rfl
    rw [eq_comm, min_eq_left_iff]
    exact ⟨fun less => lt_of_le_of_ne less apart.symm, le_of_lt⟩
  simp only [validatePending, validateMessage, bind_ok, require_ok, forM_ok]
  constructor
  · rintro ⟨_, transcript, _, ⟨networkId, initiatorId, responderId, sequence, room⟩, _,
      ⟨ours, theirs⟩, outbox⟩
    refine ⟨transcript, networkId, initiatorId, responderId, sequence, room,
      (side initiatorId).trans ours, theirs, ?_⟩
    intro m queued
    obtain ⟨_, sender, _, authentic, confirmed⟩ := outbox m queued
    exact ⟨sender, authentic, confirmed⟩
  · intro pinned
    refine ⟨(), pinned.transcript, (), ⟨pinned.networkId, pinned.initiatorId, pinned.responderId,
      pinned.sequence, pinned.room⟩, (), ⟨(side pinned.initiatorId).symm.trans pinned.ours,
      pinned.theirs⟩, ?_⟩
    intro m queued
    obtain ⟨sender, authentic, confirmed⟩ := pinned.outbox m queued
    exact ⟨(), sender, (), authentic, confirmed⟩

theorem validateRelationship_ok {s : EndpointState} {other : Number} {r : Relationship} :
    s.validateRelationship other r = .ok () ↔ s.Kept other r := by
  unfold validateRelationship
  simp only [bind_ok, require_ok]
  constructor
  · rintro ⟨_, apart, _, remote, pending⟩
    refine ⟨apart, remote, ?_⟩
    intro p found
    rw [found] at pending
    exact (validatePending_ok apart.1).mp pending
  · intro kept
    refine ⟨(), kept.apart, (), kept.remote, ?_⟩
    cases found : r.pending with
    | none => rfl
    | some p => exact (validatePending_ok kept.apart.1).mpr (kept.pinned p found)

theorem validate_ok {s : EndpointState} : s.validate = .ok () ↔ s.Valid := by
  have rows : (s.relationships.entries.forM fun e => s.validateRelationship e.1 e.2) = .ok () ↔
      ∀ other r, s.relationship other = some r → s.Kept other r := by
    rw [forM_ok]
    constructor
    · intro each other r known
      exact validateRelationship_ok.mp (each ⟨other, r⟩ ((mem_entries_iff _ _).mpr known))
    · rintro each ⟨other, r⟩ member
      exact validateRelationship_ok.mpr (each other r ((mem_entries_iff _ _).mp member))
  simp only [validate, bind_ok, require_ok, rows]
  constructor
  · rintro ⟨_, ⟨apart, few⟩, _, identity, _, management, _, registered, kept⟩
    exact ⟨apart, few, identity, management, registered, kept⟩
  · intro valid
    exact ⟨(), ⟨valid.apart, valid.few⟩, (), valid.identity, (), valid.management, (),
      valid.registered, valid.kept⟩

theorem Valid.signing {s : EndpointState} (valid : s.Valid) :
    Crypto.signingPublic s.identity.signing = .ok s.identity.bundle.pqSigPublicKey := by
  have checked := valid.identity
  simp only [Identity.validate, bind_ok, require_ok] at checked
  obtain ⟨_, _, _, _, _, _, signing, found, same⟩ := checked
  rw [found, same]

end EndpointState

end Innernet
