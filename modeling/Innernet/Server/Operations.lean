import Innernet.Server.Mailbox

/-! Every operation of the server that writes the database: the mailbox requests, the reads that
sweep, and the administration of peers, CIDRs and associations. An operation that fails leaves what
its transaction leaves. Checks on addresses and host names only refuse requests and are left out. -/
namespace Innernet

open Fallible Tables

namespace Database

/-- A statement or transaction that changes nothing when it fails. -/
def commit (db : Database) (changed : Except ServerError Database) : Database :=
  match changed with
  | .ok db => db
  | .error _ => db

def setPeer (db : Database) (id : Nat) (row : PeerRow) : Database :=
  { db with peers := db.peers.insert id row }

/-- The columns of `peers` declared `UNIQUE`. -/
def distinct (db : Database) (id : Nat) (row : PeerRow) : Prop :=
  any (fun k p => decide (k ≠ id) &&
    (decide (p.name = row.name) || decide (p.ip = row.ip) ||
      decide (p.publicKey = row.publicKey))) db.peers = false

instance (db : Database) (id : Nat) (row : PeerRow) : Decidable (db.distinct id row) :=
  inferInstanceAs (Decidable (_ = _))

/-- `DatabasePeer::create`. -/
def createPeer (db : Database) (contents : PeerRow) : Except ServerError Database := do
  require (db.cidrs.lookup contents.cidrId ≠ none) .noRows
  let id := db.network.maxPeerId + 1
  let row := { contents with isServer := false }
  require (db.peers.lookup id = none ∧ db.distinct id row) .constraint
  let created := (db.setPeer id row).touch 1
  return { created with network := { created.network with maxPeerId := id } }

/-- The `UPDATE` of `DatabasePeer::update`, as far as the kept columns go. -/
def writeContents (db : Database) (id : Nat) (name : String) (isDisabled : Bool) :
    Except ServerError Database :=
  match db.peers.lookup id with
  | none => .ok db
  | some row => do
    let row := { row with name, isDisabled }
    require (db.distinct id row) .constraint
    return (db.setPeer id row).touch 1

/-- `DatabasePeer::update`. -/
def updatePeer (db : Database) (id : Nat) (name : String) (isDisabled : Bool) :
    Except ServerError Database := do
  let updated ← db.writeContents id name isDisabled
  if isDisabled then updated.terminatePeer id "disabled" else return updated

/-- `DatabasePeer::disable`. -/
def disablePeer (db : Database) (id : Nat) : Except ServerError Database :=
  match db.peers.lookup id with
  | none => .error .notFound
  | some row =>
    ((db.setPeer id { row with isDisabled := true }).touch 1).terminatePeer id "disabled"

/-- `DatabasePeer::redeem`. -/
def redeemPeer (db : Database) (id : Nat) (publicKey : String) (now : Nat) :
    Except ServerError Database := do
  let row ← db.getPeer id
  require (row.isRedeemed = false) .gone
  require (∀ expires ∈ row.inviteExpires, now ≤ expires) .unauthorized
  let redeemed := { row with isRedeemed := true, publicKey }
  require (db.distinct id redeemed) .constraint
  return (db.setPeer id redeemed).touch 1

/-- `DatabasePeer::delete_expired_invites`, with the cascades of the mailbox tables. -/
def deleteExpiredInvites (db : Database) (now : Nat) : Database :=
  let expired : PeerRow → Bool := fun p =>
    !p.isRedeemed && p.inviteExpires.any fun expires => decide (expires < now)
  let gone := fun id => (db.peers.lookup id).any expired
  { db.touch (count (fun _ p => expired p) db.peers + count (fun id _ => gone id) db.bundles) with
    peers := keep (fun _ p => !expired p) db.peers
    bundles := keep (fun id _ => !gone id) db.bundles
    exchanges := keep (fun k _ => !gone k.initiatorId && !gone k.responderId) db.exchanges }

/-- `identify_server`. -/
def identifyServer (db : Database) (publicKey ip : String) : Except ServerError Database := do
  match keysWhere (fun _ p => decide (p.publicKey = publicKey ∧ p.ip = ip) && !p.isDisabled &&
      p.isRedeemed) db.peers with
  | [] => .error .noRows
  | id :: _ =>
    let row ← db.getPeer id
    require (any (fun k p => p.isServer && decide (k ≠ id)) db.peers = false) .conflict
    if row.isServer then return db
    else return (db.setPeer id { row with isServer := true }).touch 1

/-- `DatabaseCidr::create`. -/
def createCidr (db : Database) (parent : Option Nat) : Except ServerError Database := do
  require (any (fun _ p => decide (some p.cidrId = parent)) db.peers = false) .invalidQuery
  require (∀ id ∈ parent, db.cidrs.lookup id ≠ none) .invalidQuery
  return { db.touch 1 with cidrs := db.cidrs.insert (nextRowid db.cidrs) parent }

/-- `DatabaseCidr::update`: only the name changes. -/
def updateCidr (db : Database) (id : Nat) : Database :=
  if (db.cidrs.lookup id).isSome then db.touch 1 else db

/-- `DatabaseCidr::delete`, under the foreign keys of peers, CIDRs and associations. -/
def deleteCidr (db : Database) (id : Nat) : Except ServerError Database := do
  require (any (fun _ p => decide (p.cidrId = id)) db.peers = false ∧
    any (fun _ parent => decide (parent = some id)) db.cidrs = false ∧
    any (fun _ a => decide (a.cidrId1 = id ∨ a.cidrId2 = id)) db.associations = false) .constraint
  return if (db.cidrs.lookup id).isSome then
    { db.touch 1 with cidrs := keep (fun k _ => decide (k ≠ id)) db.cidrs } else db

/-- `DatabaseAssociation::create`. -/
def createAssociation (db : Database) (contents : AssociationRow) :
    Except ServerError Database := do
  require (any (fun _ a => decide (a = contents) ||
    decide (a = ⟨contents.cidrId2, contents.cidrId1⟩)) db.associations = false) .invalidQuery
  require (contents.cidrId1 ≠ contents.cidrId2 ∧ db.cidrs.lookup contents.cidrId1 ≠ none ∧
    db.cidrs.lookup contents.cidrId2 ≠ none) .invalidQuery
  return { db.touch 1 with
    associations := db.associations.insert (nextRowid db.associations) contents }

/-- `DatabaseAssociation::delete`: what the association allowed is revoked with it. -/
def deleteAssociation (db : Database) (id : Nat) : Except ServerError Database :=
  let removed := if (db.associations.lookup id).isSome then
    { db.touch 1 with associations := keep (fun k _ => decide (k ≠ id)) db.associations } else db
  removed.sweepInner 0

def setManagementReady (db : Database) (ready : Bool) : Database :=
  { db with network := { db.network with managementReady := ready } }

def enable (db : Database) : Except ServerError Database := do
  require (db.network.managementReady = true) .invalidQuery
  return { db with network := { db.network with enabled := true } }

end Database

inductive Operation where
  | register (id : Nat) (key : String) (request : Registration) (limits : Limits) (size now : Nat)
  | submit (id : Nat) (key : String) (other : Nat) (message : Message) (limits : Limits)
      (size now : Nat)
  | sweep (now : Nat)
  | page (id : Nat) (key : String) (now : Nat)
      (walk : PeerRow → Database → Except ServerError Unit)
  | createPeer (contents : PeerRow)
  | updatePeer (id : Nat) (name : String) (isDisabled : Bool)
  | disablePeer (id : Nat)
  | redeemPeer (id : Nat) (publicKey : String) (now : Nat)
  | deleteExpiredInvites (now : Nat)
  | identifyServer (publicKey ip : String)
  | createCidr (parent : Option Nat)
  | updateCidr (id : Nat)
  | deleteCidr (id : Nat)
  | createAssociation (contents : AssociationRow)
  | deleteAssociation (id : Nat)
  | setManagementReady (ready : Bool)
  | enable

/-- The database an operation leaves. -/
def Operation.apply [Native] : Operation → Database → Database
  | register id key request limits size now, db =>
    (db.register id key request limits size now).2
  | submit id key other message limits size now, db =>
    (db.submit id key other message limits size now).2
  | sweep now, db => (db.sweep now).2
  | page id key now walk, db => (db.page id key now walk).2
  | createPeer contents, db => db.commit (db.createPeer contents)
  | updatePeer id name isDisabled, db => db.commit (db.updatePeer id name isDisabled)
  | disablePeer id, db => db.commit (db.disablePeer id)
  | redeemPeer id publicKey now, db => db.commit (db.redeemPeer id publicKey now)
  | deleteExpiredInvites now, db => db.deleteExpiredInvites now
  | identifyServer publicKey ip, db => db.commit (db.identifyServer publicKey ip)
  | createCidr parent, db => db.commit (db.createCidr parent)
  | updateCidr id, db => db.updateCidr id
  | deleteCidr id, db => db.commit (db.deleteCidr id)
  | createAssociation contents, db => db.commit (db.createAssociation contents)
  | deleteAssociation id, db => db.commit (db.deleteAssociation id)
  | setManagementReady ready, db => db.setManagementReady ready
  | enable, db => db.commit db.enable

end Innernet
