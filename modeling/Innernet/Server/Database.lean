import Innernet.Api
import Innernet.Library.Tables

/-! The tables of the coordination server that decide who may speak to whom, and the mailbox
tables of `server/src/db/pq_schema.sql`. A row keeps the columns some modelled statement reads. -/
namespace Innernet

open Fallible Tables

/-- `ServerError`, with the two database errors the statements below can raise. -/
inductive ServerError where
  | unauthorized
  | notFound
  | invalidQuery
  | gone
  | conflict
  | rateLimited
  | unavailable
  | pq (error : Error)
  | noRows
  | constraint
  deriving DecidableEq, Repr

/-- `#[from] innernet_pq::Error`. -/
def pq {α : Type} : Except Error α → Except ServerError α
  | .ok a => .ok a
  | .error e => .error (.pq e)

@[simp] theorem pq_ok {α : Type} {x : Except Error α} {a : α} : pq x = .ok a ↔ x = .ok a := by
  cases x <;> simp [pq]

structure PeerRow where
  name : String
  ip : String
  publicKey : String
  cidrId : Nat
  isDisabled : Bool
  isRedeemed : Bool
  isServer : Bool
  inviteExpires : Option Nat
  deriving DecidableEq

structure AssociationRow where
  cidrId1 : Nat
  cidrId2 : Nat
  deriving DecidableEq

structure ExchangeKey where
  initiatorId : Nat
  responderId : Nat
  initiatorBundleId : Binary 16
  responderBundleId : Binary 16
  deriving DecidableEq

structure ExchangeRow where
  sequence : Number
  active : Bool
  prepareExpiresAt : Nat
  record : Exchange
  deriving DecidableEq

structure Network where
  networkId : Binary 16
  visibilityRevision : Nat
  sweptVisibilityRevision : Nat
  maxPeerId : Nat
  enabled : Bool
  managementReady : Bool
  deriving DecidableEq

structure Database where
  peers : Table Nat PeerRow
  cidrs : Table Nat (Option Nat)
  associations : Table Nat AssociationRow
  network : Network
  bundleHistory : Table (Binary 16) Nat
  bundles : Table Nat AdvertisedBundle
  exchanges : Table ExchangeKey ExchangeRow
  deriving DecidableEq

/-- `Limits`, as far as the database reads it. -/
structure Limits where
  peerActive : Nat
  globalActive : Nat
  peerIds : Nat
  bundleIds : Nat
  databaseBytes : Nat
  recoveryReserveBytes : Nat

/-- The rowid SQLite gives an inserted row. -/
def nextRowid {ν : Type} (t : Table Nat ν) : Nat := t.keys.foldl max 0 + 1

theorem foldl_max (l : List Nat) (start : Nat) :
    (start ≤ l.foldl max start ∧ ∀ k ∈ l, k ≤ l.foldl max start) ∧
      ∀ n, start ≤ n → (∀ k ∈ l, k ≤ n) → l.foldl max start ≤ n := by
  induction l generalizing start with
  | nil => exact ⟨⟨le_rfl, nofun⟩, fun n low _ => low⟩
  | cons a l ih =>
    obtain ⟨⟨above, all⟩, least⟩ := ih (max start a)
    refine ⟨⟨(le_max_left _ _).trans above, fun k member => ?_⟩, fun n low all => ?_⟩
    · rcases List.mem_cons.mp member with rfl | later
      · exact (le_max_right _ _).trans above
      · exact all k later
    · exact least n (max_le low (all a List.mem_cons_self)) fun k member =>
        all k (List.mem_cons_of_mem _ member)

theorem lt_nextRowid {ν : Type} {t : Table Nat ν} {k : Nat} (present : k ∈ t.keys) :
    k < nextRowid t := Nat.lt_succ_of_le ((foldl_max t.keys 0).1.2 k present)

/-- The next id depends on the ids alone. -/
theorem nextRowid_congr {ν ν' : Type} {t : Table Nat ν} {t' : Table Nat ν'}
    (same : ∀ k, (t.lookup k).isSome = (t'.lookup k).isSome) : nextRowid t = nextRowid t' := by
  have listed : ∀ k, k ∈ t.keys ↔ k ∈ t'.keys := by
    intro k
    rw [← AList.mem_keys, ← AList.mem_keys, ← AList.lookup_isSome, ← AList.lookup_isSome, same]
  refine congrArg Nat.succ (le_antisymm ?_ ?_)
  · exact (foldl_max t.keys 0).2 _ (Nat.zero_le _) fun k member =>
      (foldl_max t'.keys 0).1.2 k ((listed k).mp member)
  · exact (foldl_max t'.keys 0).2 _ (Nat.zero_le _) fun k member =>
      (foldl_max t.keys 0).1.2 k ((listed k).mpr member)

theorem nextRowid_fresh {ν : Type} (t : Table Nat ν) : t.lookup (nextRowid t) = none := by
  rw [AList.lookup_eq_none]
  exact fun member => Nat.lt_irrefl _ (lt_nextRowid (AList.mem_keys.mp member))

namespace Database

/-- The visibility triggers: one increment for each row a statement writes. -/
def touch (db : Database) (rows : Nat) : Database :=
  { db with network := { db.network with
      visibilityRevision := db.network.visibilityRevision + rows } }

section Directory

def getPeer (db : Database) (id : Nat) : Except ServerError PeerRow :=
  match db.peers.lookup id with
  | some row => .ok row
  | none => .error .noRows

def isServer (db : Database) (id : Nat) : Except ServerError Bool := do
  let row ← db.getPeer id
  return row.isServer

def ready (db : Database) : Bool :=
  db.network.enabled && db.network.managementReady &&
    decide (count (fun _ p => p.isServer && !p.isDisabled && p.isRedeemed) db.peers = 1)

def caller (db : Database) (id : Nat) (key : String) : Except ServerError PeerRow := do
  let row ← db.getPeer id
  require (row.isDisabled = false ∧ row.isRedeemed = true ∧ row.publicKey = key) .unauthorized
  return row

/-- `parent_of`: the chain of CIDRs from `id` up, at most as long as the table. -/
def parentOf (db : Database) : Nat → Nat → List Nat
  | 0, _ => []
  | fuel + 1, id =>
    match db.cidrs.lookup id with
    | none => []
    | some none => [id]
    | some (some parent) => id :: db.parentOf fuel parent

/-- `associated`: the other ends of every association of an ancestor. -/
def associated (db : Database) (ancestors : List Nat) : List Nat :=
  db.associations.entries.flatMap fun e =>
    (if e.2.cidrId1 ∈ ancestors then [e.2.cidrId2] else []) ++
      (if e.2.cidrId2 ∈ ancestors then [e.2.cidrId1] else [])

/-- `associated_subcidrs`: one round adds the children of what is there; as many rounds as there
are CIDRs reach every descendant. -/
def subcidrs (db : Database) : Nat → List Nat → List Nat
  | 0, found => found
  | fuel + 1, found =>
    db.subcidrs fuel (found ++ keysWhere (fun _ parent => parent.any (· ∈ found)) db.cidrs)

/-- `get_all_allowed_peers` of a peer in `cidr`. -/
def allowedPeers (db : Database) (cidr : Nat) : List Nat :=
  let size := db.cidrs.entries.length
  let reached := db.subcidrs size ([cidr, 2] ++ db.associated (db.parentOf size cidr))
  keysWhere (fun _ p => decide (p.cidrId ∈ reached) && !p.isDisabled && p.isRedeemed) db.peers

def pairAllowed (db : Database) (first second : Nat) : Except ServerError Unit := do
  require (0 < first ∧ 0 < second ∧ first ≠ second) .unauthorized
  let firstServer ← db.isServer first
  require (firstServer = false) .unauthorized
  let secondServer ← db.isServer second
  require (secondServer = false) .unauthorized
  let a ← db.getPeer first
  let b ← db.getPeer second
  require (a.isDisabled = false ∧ b.isDisabled = false ∧ a.isRedeemed = true ∧
    b.isRedeemed = true ∧ second ∈ db.allowedPeers a.cidrId ∧ first ∈ db.allowedPeers b.cidrId)
    .unauthorized

end Directory

section Bundles

variable [Native]

def bundle (db : Database) (peer : Nat) : Except ServerError (Option AdvertisedBundle) :=
  match db.bundles.lookup peer with
  | none => .ok none
  | some advertised => do
    pq advertised.bundle.validate
    require (advertised.pqVersion = 1) .unavailable
    return some advertised

def activeBundle (db : Database) (peer : Nat) : Except ServerError Bundle := do
  match ← db.bundle peer with
  | none => .error .conflict
  | some advertised =>
    require (advertised.lifecycle = .enabled) .conflict
    let current ← db.getPeer peer
    require (Key.fromBase64 current.publicKey = some advertised.bundle.wgPublicKey.bytes) .conflict
    return advertised.bundle

end Bundles

/-- `size` is the product of the two pragmas. -/
def budget (db : Database) (limits : Limits) (size : Nat) (newBundle : Bool) :
    Except ServerError Unit :=
  let peers := count (fun _ _ => true) db.peers
  let bundles := count (fun _ _ => true) db.bundleHistory
  require (size + 32768 ≤ limits.databaseBytes - limits.recoveryReserveBytes ∧
    peers ≤ limits.peerIds ∧ bundles ≤ limits.bundleIds ∧
    ¬ (newBundle = true ∧ bundles = limits.bundleIds)) .rateLimited

end Database

end Innernet
