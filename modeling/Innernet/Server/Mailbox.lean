import Innernet.Server.Database

/-! The transactional mailbox of `server/src/db/pq.rs`. -/
namespace Innernet

open Fallible Tables

def Exchange.key (e : Exchange) : ExchangeKey where
  initiatorId := e.initiatorId.val
  responderId := e.responderId.val
  initiatorBundleId := e.initiatorBundleId
  responderBundleId := e.responderBundleId

def Exchange.row (e : Exchange) : ExchangeRow where
  sequence := e.sequence
  active := !e.decision.terminal
  prepareExpiresAt := e.prepareExpiresAt
  record := e

/-- The record of a new exchange. -/
def Exchange.opened (t : Transcript) (transcriptHash : Binary 32) (message : Message)
    (digest : MessageDigest) (now : Nat) : Exchange where
  networkId := t.networkId
  initiatorId := t.initiatorId
  responderId := t.responderId
  initiatorBundleId := t.initiator.bundleId
  responderBundleId := t.responder.bundleId
  sequence := t.sequence
  exchangeId := t.exchangeId
  transcriptHash
  decision := .default
  createdAt := now
  prepareExpiresAt := now + prepareTtl
  transcript := some t
  messages := [message]
  receipts := [digest]
  termination := none

def ExchangeKey.involves (k : ExchangeKey) (id : Nat) : Prop :=
  k.initiatorId = id ∨ k.responderId = id

instance (k : ExchangeKey) (id : Nat) : Decidable (k.involves id) :=
  inferInstanceAs (Decidable (_ ∨ _))

namespace Database

def activeFor (db : Database) (id : Nat) : Bool :=
  any (fun k row => row.active && decide (k.involves id)) db.exchanges

/-- `save`: an upsert. A new row also has to meet the key's constraints, which a row already
there has met, and an active row the partial index on its pair. -/
def save (db : Database) (record : Exchange) : Except ServerError Database := do
  require (record.prepareExpiresAt < 2 ^ 63) .invalidQuery
  require (db.exchanges.lookup record.key ≠ none ∨
    (record.initiatorId < record.responderId ∧ db.peers.lookup record.initiatorId.val ≠ none ∧
      db.peers.lookup record.responderId.val ≠ none)) .constraint
  require (record.decision.terminal = true ∨
    any (fun k row => row.active && decide (k ≠ record.key ∧
      k.initiatorId = record.key.initiatorId ∧ k.responderId = record.key.responderId))
      db.exchanges = false) .constraint
  return { db with exchanges := db.exchanges.insert record.key record.row }

def visitRow (operation : Database → Exchange → Except ServerError Database) (db : Database)
    (k : ExchangeKey) : Except ServerError Database :=
  match db.exchanges.lookup k with
  | none => .error .noRows
  | some row => operation db row.record

/-- `visit`: the keys are fixed before the first row is changed. -/
def visit (db : Database) (predicate : ExchangeKey → ExchangeRow → Bool)
    (operation : Database → Exchange → Except ServerError Database) : Except ServerError Database :=
  (keysWhere predicate db.exchanges).foldlM (visitRow operation) db

/-- Close a record by decree. -/
def terminated (reason : String) (record : Exchange) : Exchange :=
  Exchange.compact { record with
    decision := { record.decision with phase := .aborted }
    termination := some reason }

def terminatePeer (db : Database) (id : Nat) (reason : String) : Except ServerError Database :=
  db.visit (fun k row => row.active && decide (k.involves id)) fun db record =>
    db.save (terminated reason record)

/-- The pair is checked again only when visibility has changed since the last sweep. -/
def revoke (db : Database) (changed : Bool) (record : Exchange) : Except ServerError Exchange :=
  if changed then
    match db.pairAllowed record.initiatorId.val record.responderId.val with
    | .ok () => .ok record
    | .error .unauthorized | .error .notFound | .error .noRows =>
      .ok { record with
        decision := { record.decision with phase := .aborted }
        termination := some "revoked" }
    | .error e => .error e
  else .ok record

def sweepRecord (db : Database) (changed : Bool) (now : Nat) (record : Exchange) :
    Except ServerError Database := do
  let record ← db.revoke changed record
  let record := if record.prepareExpiresAt ≤ now then
    { record with decision := record.decision.expire } else record
  if record.decision.terminal then db.save record.compact else return db

def visibilityChanged (db : Database) : Bool :=
  db.network.visibilityRevision ≠ db.network.sweptVisibilityRevision

def sweepInner (db : Database) (now : Nat) : Except ServerError Database := do
  let changed := db.visibilityChanged
  require (now < 2 ^ 63) .unavailable
  let swept ← db.visit (fun _ row => row.active && (changed ||
    (decide (row.record.decision.phase = .proposed ∨ row.record.decision.phase = .ready) &&
      decide (row.prepareExpiresAt ≤ now)))) fun db record => db.sweepRecord changed now record
  return if changed then
    { swept with network := { swept.network with
        sweptVisibilityRevision := swept.network.visibilityRevision } } else swept

/-- `write`: the sweep stays when the operation fails, the operation's own writes do not. -/
def write {α : Type} (db : Database) (now : Nat)
    (operation : Database → Except ServerError (α × Database)) : Except ServerError α × Database :=
  match db.sweepInner now with
  | .error e => (.error e, db)
  | .ok swept =>
    match operation swept with
    | .error e => (.error e, swept)
    | .ok (a, written) => (.ok a, written)

/-- `load_pair`, without its order: the callers only search it. -/
def loadPair (db : Database) (first second : Nat) : List Exchange :=
  (db.exchanges.entries.filter fun e => e.1.initiatorId = min first second ∧
    e.1.responderId = max first second).map fun e => e.2.record

section Requests

variable [Native]

/-- The branch of a new bundle: its id must never have been registered before. -/
def enroll (db : Database) (id : Nat) (request : Registration) (current : Option AdvertisedBundle)
    (limits : Limits) (size : Nat) : Except ServerError Database := do
  db.budget limits size true
  require (∀ b ∈ current, b.bundle.bundleId ≠ request.bundle.bundleId) .conflict
  require (db.bundleHistory.lookup request.bundle.bundleId = none) .conflict
  return { db with bundleHistory := db.bundleHistory.insert request.bundle.bundleId id }

/-- The branch of a retirement: the current bundle, one revision on. -/
def retire (db : Database) (id : Nat) (request : Registration) (current : Option AdvertisedBundle)
    (next : Number) : Except ServerError Database := do
  match current with
  | none => .error .conflict
  | some current =>
    require ({ current.bundle with bundleRevision := next } = request.bundle) .conflict
    db.terminatePeer id "retired"

def changeLifecycle (db : Database) (id : Nat) (request : Registration)
    (current : Option AdvertisedBundle) (next : Number) (limits : Limits) (size : Nat) :
    Except ServerError Database :=
  match request.lifecycle with
  | .enabled => db.enroll id request current limits size
  | .retired => db.retire id request current next

/-- The upsert of the bundle row and the removal of the finished exchanges of its peer. -/
def settleBundle (db : Database) (id : Nat) (desired : AdvertisedBundle) : Database :=
  { db.touch 1 with
    bundles := db.bundles.insert id { desired with pqVersion := 1 }
    exchanges := keep (fun k row => row.active || !decide (k.involves id)) db.exchanges }

/-- The revision a request asks for: the one after the revision it expects, the first if none. -/
def nextRevision : Option Number → Except Error Number
  | none => Number.new 1
  | some expected => expected.next

def registerInner (db : Database) (id : Nat) (key : String) (request : Registration)
    (limits : Limits) (size : Nat) : Except ServerError (AdvertisedBundle × Database) := do
  require (db.ready = true) .unavailable
  let _ ← db.caller id key
  let server ← db.isServer id
  require (server = false) .unauthorized
  let current ← db.bundle id
  let desired : AdvertisedBundle := {
    pqVersion := request.pqVersion
    lifecycle := request.lifecycle
    bundle := request.bundle }
  pq request.bundle.validate
  require (request.pqVersion = 1 ∧ (request.emergency = true → request.lifecycle = .retired) ∧
    Key.fromBase64 key = some request.bundle.wgPublicKey.bytes) .invalidQuery
  let next ← pq (nextRevision request.expectedRevision)
  require (request.bundle.bundleRevision = next) .conflict
  -- a lost successful reply is retried with the identical request
  if current = some desired then return (desired, db)
  else do
    require (current.map (fun b => b.bundle.bundleRevision) = request.expectedRevision) .conflict
    require (db.activeFor id = false ∨
      (request.emergency = true ∧ request.lifecycle = .retired)) .conflict
    let db ← db.changeLifecycle id request current next limits size
    return (desired, db.settleBundle id desired)

def register (db : Database) (id : Nat) (key : String) (request : Registration) (limits : Limits)
    (size now : Nat) : Except ServerError AdvertisedBundle × Database :=
  db.write now fun db => db.registerInner id key request limits size

/-- The message belongs to the record already stored for the pair. -/
def continueExchange (db : Database) (record : Exchange) (kind : Kind) (initiator : Bool)
    (message : Message) (digest : MessageDigest) : Except ServerError (Exchange × Database) := do
  require (message.exchangeId = record.exchangeId ∧
    message.transcriptHash = record.transcriptHash) .conflict
  if digest ∈ record.receipts then return (record, db)
  else do
    require (record.decision.terminal = false ∧ ∀ r ∈ record.receipts,
      ¬ (r.senderId = message.senderId ∧ r.messageType = message.messageType)) .conflict
    match record.transcript with
    | none => .error .unavailable
    | some transcript =>
      pq (message.authenticate transcript)
      let decision ← pq (record.decision.advance kind initiator)
      let record := Exchange.compact { record with
        decision
        messages := record.messages ++ [message]
        receipts := record.receipts ++ [digest] }
      let db ← db.save record
      return (record, db)

def activeCount (db : Database) (p : ExchangeKey → Bool) : Nat :=
  count (fun k row => row.active && p k) db.exchanges

/-- The message proposes a new exchange. -/
def openExchange (db : Database) (id other : Nat) (first second : Bundle) (kind : Kind)
    (message : Message) (digest : MessageDigest) (limits : Limits) (size now : Nat) :
    Except ServerError (Exchange × Database) := do
  require (kind = .propose ∧ ∀ r ∈ db.loadPair id other, r.decision.terminal = true) .conflict
  db.budget limits size false
  let global := db.activeCount fun _ => true
  require (∀ peer ∈ [id, other], db.activeCount (fun k => k.involves peer) < limits.peerActive ∧
    global < limits.globalActive) .rateLimited
  match message.operatorPskId, message.ciphertext with
  | some operatorPskId, some ciphertext =>
    let transcript : Transcript := {
      networkId := db.network.networkId
      initiatorId := message.initiatorId
      responderId := message.responderId
      initiator := first
      responder := second
      sequence := message.sequence
      exchangeId := message.exchangeId
      operatorPskId
      ciphertext }
    pq transcript.validate
    pq (message.authenticate transcript)
    let transcriptHash ← pq (Crypto.hash transcript.encode)
    -- `now.checked_add(PREPARE_TTL)`
    require (now + prepareTtl < 2 ^ 64) .invalidQuery
    let record := Exchange.opened transcript transcriptHash message digest now
    let db ← db.save record
    return (record, db)
  | _, _ => .error .invalidQuery

def submitInner (db : Database) (id : Nat) (key : String) (other : Nat) (message : Message)
    (limits : Limits) (size now : Nat) : Except ServerError (Exchange × Database) := do
  require (db.ready = true) .unavailable
  let _ ← db.caller id key
  db.pairAllowed id other
  let kind ← pq message.validateShape
  require (message.senderId.val = id ∧ message.initiatorId.val = min id other ∧
    message.responderId.val = max id other) .unauthorized
  let first ← db.activeBundle (min id other)
  let second ← db.activeBundle (max id other)
  require (message.networkId = db.network.networkId ∧
    message.initiatorBundleId = first.bundleId ∧
    message.responderBundleId = second.bundleId) .conflict
  let digest ← pq (MessageDigest.of message)
  match (db.loadPair id other).find? fun r => r.initiatorBundleId = first.bundleId ∧
      r.responderBundleId = second.bundleId with
  | none => db.openExchange id other first second kind message digest limits size now
  | some record =>
    require (record.sequence ≤ message.sequence) .conflict
    if message.sequence = record.sequence then
      db.continueExchange record kind (id < other) message digest
    else db.openExchange id other first second kind message digest limits size now

def submit (db : Database) (id : Nat) (key : String) (other : Nat) (message : Message)
    (limits : Limits) (size now : Nat) : Except ServerError Exchange × Database :=
  db.write now fun db => db.submitInner id key other message limits size now

end Requests

def sweep (db : Database) (now : Nat) : Except ServerError Unit × Database :=
  match db.sweepInner now with
  | .error e => (.error e, db)
  | .ok swept => (.ok (), swept)

/-- `page`: the transaction around a read. The walk over the directory and the mailbox reads only;
when it fails, its transaction is dropped with everything in it. -/
def page {α : Type} (db : Database) (id : Nat) (key : String) (now : Nat)
    (walk : PeerRow → Database → Except ServerError α) : Except ServerError α × Database :=
  let transaction : Except ServerError (α × Database) := do
    require (db.ready = true) .unavailable
    let caller ← db.caller id key
    let swept ← db.sweepInner now
    let result ← walk caller swept
    return (result, swept)
  match transaction with
  | .error e => (.error e, db)
  | .ok (result, swept) => (.ok result, swept)

end Database

end Innernet
