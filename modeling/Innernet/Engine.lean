import Innernet.State

/-! The exchange-driving decisions of `pq/src/engine.rs`. A call may fail after it has changed the
relationship, so `reconcile` returns the relationship it leaves next to its result. -/
namespace Innernet

open Fallible Tables

/-- The `Installer` trait over a world of type `σ`. -/
structure Installer (σ : Type) where
  install : Bundle → Candidate → σ → Except Error Unit × σ
  handshakeFresh : Bundle → σ → Except Error Bool × σ

/-- What one call draws: the endpoint's own random bytes, and the choices the libraries make. -/
structure Draws where
  exchangeId : Except Error (Binary 16)
  encapsulation : Nat
  signature : Nat

inductive Action where
  | send (message : Message)
  | complete
  | none
  deriving DecidableEq

/-- The record is the one of this pending exchange. -/
def Pending.recordedIn (p : Pending) (e : Exchange) : Prop :=
  e.exchangeId = p.transcript.exchangeId ∧ e.sequence = p.transcript.sequence

instance (p : Pending) (e : Exchange) : Decidable (p.recordedIn e) :=
  inferInstanceAs (Decidable (_ ∧ _))

def durablySent (remote : Option Exchange) (pending : Pending) (self : Number) : Bool :=
  match remote with
  | .none => false
  | .some e =>
    if ¬ pending.recordedIn e then false
    else if e.decision.terminal then true
    else match pending.outbox.getLast? with
      | .none => true
      | .some last => e.messages.any fun m => m.senderId = self ∧ m.messageType = last.messageType

def Relationship.due (r : Relationship) (now rotationInterval idleTimeout : Nat) : Bool :=
  match r.confirmed with
  | .none => true
  | .some c =>
    let intervalElapsed := rotationInterval ≤ now - c.completedAt
    let idlePaused := idleTimeout ≠ 0 ∧ r.activity.any fun a => idleTimeout ≤ now - a.lastActiveAt
    intervalElapsed ∧ ¬ idlePaused

def Pending.opened (transcript : Transcript) (candidate : Candidate) (decision : Decision)
    (message : Message) : Pending where
  transcript
  candidate
  decision
  outbox := [message]
  installationIntent := false
  installed := false
  confirmed := false
  attempts := 0
  nextRetryAt := 0

section Merge

variable [Native]

/-- One message of the record: it is authenticated when it advances the local decision, and is
passed over when it does not. -/
def Pending.mergeMessage (p : Pending) (d : Decision) (m : Message) : Except Error Decision := do
  let kind ← m.validateShape
  match d.advance kind (m.senderId = p.transcript.initiatorId) with
  | .error _ => return d
  | .ok trial =>
    m.authenticate p.transcript
    m.confirm p.candidate
    return trial

def Pending.mergeMessages (p : Pending) : List Message → Decision → Except Error Unit × Decision
  | [], d => (.ok (), d)
  | m :: rest, d =>
    match p.mergeMessage d m with
    | .error e => (.error e, d)
    | .ok d => p.mergeMessages rest d

def Pending.mergeRemote (p : Pending) (other : Number) (remote : Option Exchange) :
    Except Error Unit × Decision :=
  match remote with
  | .none => (.ok (), p.decision)
  | .some e =>
    if p.recordedIn e then
      if e.decision.terminal = true ∧ p.decision.terminal = false then (.ok (), e.decision)
      else p.mergeMessages (e.messages.filter fun m => m.senderId = other) p.decision
    else (.ok (), p.decision)

end Merge

namespace EndpointState

variable [Native] {σ : Type}

def openProposal (s : EndpointState) (other : Number) (r : Relationship) (draws : Draws) :
    Except Error (Pending × Message) := do
  let exchangeId ← draws.exchangeId
  let hybridPublic : HybridPublic := ⟨r.remote.pqKemPublicKey, r.remote.pqX448PublicKey⟩
  let (ciphertext, shared) ← Crypto.encapsulate draws.encapsulation hybridPublic
  let transcript : Transcript := {
    networkId := s.networkId
    initiatorId := s.peerId
    responderId := other
    initiator := s.identity.bundle
    responder := r.remote
    sequence := r.sequence
    exchangeId
    operatorPskId := r.operatorPskId
    ciphertext }
  let candidate ← Crypto.derive shared.kem shared.x448 r.operatorPsk transcript.encode
  let message ← Message.signed draws.signature transcript .propose s.peerId candidate
    s.identity.signing
  return (.opened transcript candidate .default message, message)

/-- The initiator with nothing pending: the sequence is spent before anything can fail. -/
def propose (s : EndpointState) (other : Number) (r : Relationship) (draws : Draws) :
    Except Error Action × Relationship :=
  match r.sequence.next with
  | .error e => (.error e, r)
  | .ok following =>
    match s.openProposal other r draws with
    | .error e => (.error e, { r with sequence := following })
    | .ok (pending, message) =>
      (.ok (.send message), { r with sequence := following, pending := some pending })

/-- The transcript is one this responder can answer: its own and the observed bundle, unchanged. -/
def addressed (s : EndpointState) (other : Number) (r : Relationship) (t : Transcript) : Prop :=
  t.networkId = s.networkId ∧ t.initiatorId = other ∧ t.responderId = s.peerId ∧
    t.initiator = r.remote ∧ t.responder = s.identity.bundle

instance (s : EndpointState) (other : Number) (r : Relationship) (t : Transcript) :
    Decidable (s.addressed other r t) :=
  inferInstanceAs (Decidable (_ ∧ _ ∧ _ ∧ _ ∧ _))

def openAnswer (s : EndpointState) (other : Number) (r : Relationship) (e : Exchange)
    (transcript : Transcript) (draws : Draws) : Except Error (Pending × Message) := do
  let shared ← Crypto.decapsulate transcript.ciphertext s.identity.hybridSecret
  let candidate ← Crypto.derive shared.kem shared.x448 r.operatorPsk transcript.encode
  match e.messages.find? fun m => m.senderId = other ∧ m.messageType = Kind.propose.code with
  | .none => .error .invalid
  | .some propose =>
    propose.authenticate transcript
    propose.confirm candidate
    let decision ← Decision.default.advance .ready false
    let message ← Message.signed draws.signature transcript .ready s.peerId candidate
      s.identity.signing
    return (.opened transcript candidate decision message, message)

/-- The responder with nothing pending. -/
def answer (s : EndpointState) (other : Number) (r : Relationship) (remote : Option Exchange)
    (draws : Draws) : Except Error Action × Relationship :=
  match remote with
  | .none => (.ok .none, r)
  | .some e =>
    if e.decision.phase ≠ .proposed then (.ok .none, r)
    else match e.transcript with
      | .none => (.ok .none, r)
      | .some transcript =>
        if ¬ s.addressed other r transcript then (.ok .none, r)
        else match s.openAnswer other r e transcript draws with
          | .error e => (.error e, r)
          | .ok (pending, message) => (.ok (.send message), { r with pending := some pending })

/-- Sign the next message, advance the local decision by it and queue it. -/
def emit (s : EndpointState) (p : Pending) (kind : Kind) (initiator : Bool) (draws : Draws) :
    Except Error (Pending × Message) := do
  let message ← Message.signed draws.signature p.transcript kind s.peerId p.candidate
    s.identity.signing
  let decision ← p.decision.advance kind initiator
  return ({ p with decision, outbox := p.outbox ++ [message], attempts := 0, nextRetryAt := 0 },
    message)

/-- Queue a message, or keep what was already noted in `p` when that fails. -/
def queue (s : EndpointState) (r : Relationship) (p : Pending) (kind : Kind) (initiator : Bool)
    (draws : Draws) : Except Error Action × Relationship :=
  match s.emit p kind initiator draws with
  | .error e => (.error e, { r with pending := some p })
  | .ok (p, message) => (.ok (.send message), { r with pending := some p })

def committed (s : EndpointState) (other : Number) (r : Relationship) (p : Pending)
    (installer : Installer σ) (draws : Draws) (world : σ) :
    Except Error Action × Relationship × σ :=
  let kept := { r with pending := some p }
  let side : Bool := s.peerId = p.transcript.initiatorId
  if p.installed = false then
    if ¬ s.peerId < other ∨ p.decision.installed.responder = true then
      match installer.install r.remote p.candidate world with
      | (.error _, world) => (.error .installer, kept, world)
      | (.ok (), world) =>
        let (result, r) := s.queue r { p with installed := true } .installed side draws
        (result, r, world)
    else (.ok .none, kept, world)
  else if p.confirmed = false then
    match installer.handshakeFresh r.remote world with
    | (.error _, world) => (.error .installer, kept, world)
    | (.ok false, world) => (.ok .none, kept, world)
    | (.ok true, world) =>
      let (result, r) := s.queue r { p with confirmed := true } .confirmed side draws
      (result, r, world)
  else (.ok .none, kept, world)

def complete (s : EndpointState) (r : Relationship) (p : Pending) (now : Nat) :
    Except Error Action × Relationship :=
  match Crypto.hash p.transcript.encode with
  | .error e => (.error e, { r with pending := some p })
  | .ok transcriptHash =>
    (.ok .complete, { r with
      confirmed := some {
        localBundleId := s.identity.bundle.bundleId
        remoteBundleId := r.remote.bundleId
        sequence := p.transcript.sequence
        exchangeId := p.transcript.exchangeId
        transcriptHash
        psk := p.candidate.psk
        completedAt := now }
      priorPq := true
      status := .confirmed
      pending := none })

/-- The steps after the record has been merged and the last message is not due again. -/
def act (s : EndpointState) (other : Number) (r : Relationship) (p : Pending) (now : Nat)
    (installer : Installer σ) (draws : Draws) (world : σ) :
    Except Error Action × Relationship × σ :=
  let kept := { r with pending := some p }
  match p.decision.phase with
  | .aborted => (.ok .none, { r with pending := none }, world)
  | .proposed => (.ok .none, kept, world)
  | .ready =>
    if s.peerId < other then
      let (result, r) := s.queue r p .commit true draws
      (result, r, world)
    else (.ok .none, kept, world)
  | .committed => s.committed other r p installer draws world
  | .complete =>
    let (result, r) := s.complete r p now
    (result, r, world)

/-- The last message is sent again: the record does not show it and its backoff has run out. -/
def resends (s : EndpointState) (remote : Option Exchange) (p : Pending) (now : Nat) : Bool :=
  p.decision.phase ≠ .aborted ∧ durablySent remote p s.peerId = false ∧ p.nextRetryAt ≤ now

def proceed (s : EndpointState) (other : Number) (r : Relationship) (p : Pending)
    (remote : Option Exchange) (now : Nat) (installer : Installer σ) (draws : Draws) (world : σ) :
    Except Error Action × Relationship × σ :=
  match p.mergeRemote other remote with
  | (.error e, decision) => (.error e, { r with pending := some { p with decision } }, world)
  | (.ok (), decision) =>
    let p := { p with decision }
    match s.resends remote p now, p.outbox.getLast? with
    | true, .some last => (.ok (.send last), { r with pending := some p }, world)
    | _, _ => s.act other r p now installer draws world

def reconcileRelationship (s : EndpointState) (other : Number) (r : Relationship)
    (remote : Option Exchange) (now rotationInterval idleTimeout : Nat) (installer : Installer σ)
    (draws : Draws) (world : σ) : Except Error Action × Relationship × σ :=
  if r.gated = true ∨ r.status = .blocked ∨ s.enrollment = .retiring then (.ok .none, r, world)
  else match r.pending with
    | .some p => s.proceed other r p remote now installer draws world
    | .none =>
      if s.peerId < other then
        if r.due now rotationInterval idleTimeout then
          let (result, r) := s.propose other r draws
          (result, r, world)
        else (.ok .none, r, world)
      else
        let (result, r) := s.answer other r remote draws
        (result, r, world)

def reconcile (s : EndpointState) (other : Number) (remote : Option Exchange)
    (now rotationInterval idleTimeout : Nat) (installer : Installer σ) (draws : Draws) (world : σ) :
    Except Error Action × EndpointState × σ :=
  if other = s.peerId ∨ other = s.serverId then (.error .invalid, s, world)
  else match s.relationship other with
    | .none => (.error .invalid, s, world)
    | .some r =>
      let (result, r, world) := s.reconcileRelationship other r remote now rotationInterval
        idleTimeout installer draws world
      (result, s.setRelationship other r, world)

omit [Native] in
/-- `note_send_failure`; `drawn` is the random byte. -/
def noteSendFailure (s : EndpointState) (other : Number) (now : Nat)
    (drawn : Except Error UInt8) : Except Error Unit × EndpointState :=
  match s.relationship other with
  | .none => (.error .invalid, s)
  | .some r =>
    match r.pending with
    | .none => (.error .invalid, s)
    | .some p =>
      let attempts := min (p.attempts + 1) (2 ^ 32 - 1)
      let bound := min 60 (2 ^ min attempts 6)
      match drawn with
      | .error e =>
        (.error e, s.setRelationship other { r with pending := some { p with attempts } })
      | .ok byte =>
        let jitter := byte.toNat % bound
        let nextRetryAt := min (now + min (jitter + 1) 60) (2 ^ 64 - 1)
        (.ok (), s.setRelationship other
          { r with pending := some { p with attempts, nextRetryAt } })

end EndpointState

end Innernet
