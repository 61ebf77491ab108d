import Innernet.Activation
import Innernet.Server.Management
import Innernet.Server.Operations
import Mathlib.Data.List.Sort

/-! The machine the server runs on: its configuration, its database and the private store of its
management links, as `server/src/management.rs` and the commands of `server/src/lib.rs` use them.
Each command can be cut short, by a failure or a crash, between any two things it makes durable. -/
namespace Innernet

open Fallible Tables

/-- The error of a command. -/
inductive Failure where
  | text (message : String)
  | server (error : ServerError)
  | pq (error : Error)
  | store (error : StoreError)
  | cut
  deriving DecidableEq

/-- `ConfigFile`; the private key is known by its public one. -/
structure ConfigFile where
  publicKey : Binary 32
  address : String
  managementRequired : Bool
  deriving DecidableEq

/-- The private directory: `state.json`, once there is one, and the exported artifacts. -/
structure Vault where
  state : Option ServerState
  artifacts : Table String (List UInt8)
  deriving DecidableEq

structure Host where
  config : ConfigFile
  db : Database
  vault : Option Vault
  deriving DecidableEq

/-- Where a command is cut short. -/
inductive Cut where
  | created
  | identified
  | made
  | opened
  | saving
  | saved
  | ready
  deriving DecidableEq, Repr

namespace Database

/-- `is_server`. -/
def serverRow (db : Database) (id : Nat) : Except ServerError Bool :=
  match db.peers.lookup id with
  | none => .error .noRows
  | some row => .ok row.isServer

/-- The row `identify_server` settles on. -/
def candidates (db : Database) (publicKey ip : String) : List Nat :=
  keysWhere (fun _ p => decide (p.publicKey = publicKey ∧ p.ip = ip) && !p.isDisabled &&
    p.isRedeemed) db.peers

/-- `DatabasePeer::list`, in the order of the ids. -/
def listPeers (db : Database) : List (Sigma fun _ : Nat => PeerRow) :=
  db.peers.entries.insertionSort fun a b => a.1 ≤ b.1

theorem mem_listPeers {db : Database} {e : Sigma fun _ : Nat => PeerRow} :
    e ∈ db.listPeers ↔ db.peers.lookup e.1 = some e.2 :=
  ((List.perm_insertionSort _ _).mem_iff).trans (mem_entries_iff _ _)

end Database

/-- The link under a peer's id. -/
def ServerState.linkOf (s : ServerState) (id : Nat) : Option ManagementLink :=
  (Number.new id).toOption.bind s.link

namespace Manager

/-- The comparison of a loaded state with the network it is loaded for. -/
def mismatch : Failure :=
  .text "management state does not match this network; explicit recovery is required"

/-- `Manager::load`. -/
def load (h : Host) : Except Failure (Option Manager) :=
  match h.vault with
  | none => if h.config.managementRequired then .error (.store .io) else .ok none
  | some vault =>
    match vault.state with
    | none => .error (.store .corrupt)
    | some state =>
      match state.validate with
      | .error e => .error (.pq e)
      | .ok () => do
        require (state.networkId = h.db.network.networkId ∧
          state.serverPublicKey = h.config.publicKey) mismatch
        match h.db.serverRow state.serverId.val with
        | .error e => .error (.server e)
        | .ok isServer => do
          require (isServer = true) mismatch
          h.db.listPeers.forM fun e =>
            require (e.2.isDisabled = true ∨ e.1 = state.serverId.val ∨ state.linkOf e.1 ≠ none)
              (.text (s!"management PSK is missing for peer {e.1}; " ++
                "independent enrollment is required"))
          return some ⟨state, state⟩

/-- `Manager::enrollment`. -/
def enrollment (m : Manager) (peer : Nat) : Except Failure Management.Enrollment :=
  match Number.new peer with
  | .error e => .error (.pq e)
  | .ok id =>
    match m.state.link id with
    | none => .error (.text "peer has no provisioned management link")
    | some link =>
      match Management.SecretKey.fromBytes link.psk with
      | .error e => .error (.text e)
      | .ok psk => .ok {
          networkId := m.state.networkId
          provisionId := link.provisionId
          peerId := peer
          serverId := m.state.serverId.val
          psk }

end Manager

namespace Host

/-- `db::pq::identify_server` for the configured key and address. -/
def identify (h : Host) : Except Failure Nat × Host :=
  let publicKey := Key.toBase64 h.config.publicKey
  match h.db.identifyServer publicKey h.config.address,
    h.db.candidates publicKey h.config.address with
  | .ok db, id :: _ => (.ok id, { h with db })
  | .ok _, [] => (.error (.server .noRows), h)
  | .error e, _ => (.error (.server e), h)

/-- The state a new store begins with. -/
def initial (h : Host) (serverId : Nat) : Except Failure ServerState :=
  match Number.new serverId with
  | .error e => .error (.pq e)
  | .ok serverId =>
    let state : ServerState := {
      networkId := h.db.network.networkId
      serverId
      serverPublicKey := h.config.publicKey
      links := ∅ }
    match state.validate with
    | .error e => .error (.pq e)
    | .ok () => .ok state

def put (h : Host) (state : ServerState) : Host :=
  { h with vault := some { (h.vault.getD ⟨none, ∅⟩) with state := some state } }

/-- A store that is there, opened for this network. -/
def reopen (h : Host) (vault : Vault) (serverId : Nat) : Except Failure Manager :=
  match vault.state with
  | none => .error (.store .corrupt)
  | some state =>
    match state.validate with
    | .error e => .error (.pq e)
    | .ok () => do
      require (state.networkId = h.db.network.networkId ∧
        state.serverPublicKey = h.config.publicKey ∧ state.serverId.val = serverId) Manager.mismatch
      return ⟨state, state⟩

/-- `Manager::open_or_create`. -/
def openOrCreate (h : Host) (cut : Option Cut) : Except Failure (Option Manager) × Host :=
  if ¬ h.config.managementRequired then (.ok none, h)
  else match h.identify with
  | (.error e, h) => (.error e, h)
  | (.ok serverId, h) =>
    if cut = some .identified then (.error .cut, h)
    else match h.vault with
    | some vault => ((h.reopen vault serverId).map some, h)
    | none =>
      let h := { h with vault := some ⟨none, ∅⟩ }
      if cut = some .made then (.error .cut, h)
      else match h.initial serverId with
        | .error e => (.error e, h)
        | .ok state => (.ok (some ⟨state, state⟩), h.put state)

/-- Every enabled peer has a link. -/
def provisioned (h : Host) (state : ServerState) : Bool :=
  h.db.listPeers.all fun e => e.2.isDisabled || decide (e.1 = state.serverId.val) ||
    (state.linkOf e.1).isSome

/-- `Manager::provision_new_peer`. -/
def provisionNewPeer (h : Host) (m : Manager) (peer : Nat) (rng : Entropy) (cut : Option Cut) :
    Except Failure (Manager × Management.Enrollment) × Host :=
  match Number.new peer >>= fun id => m.state.provision id none rng with
  | .error e => (.error (.pq e), h)
  | .ok state =>
    if cut = some .saving then (.error (.store .io), h)
    else
      let h := h.put state
      if cut = some .saved then (.error .cut, h)
      else
        let h := if h.provisioned state then { h with db := h.db.setManagementReady true } else h
        if cut = some .ready then (.error .cut, h)
        else
          let m : Manager := ⟨state, state⟩
          ((m.enrollment peer).map fun enrollment => (m, enrollment), h)

/-- `NewPeerInfo::into_peer_contents`. -/
def newPeerContents (contents : PeerRow) (keypair : Binary 32) : PeerRow :=
  { contents with publicKey := Key.toBase64 keypair, isDisabled := false, isRedeemed := false }

/-- `add_peer`, up to what it makes durable on the host. -/
def addPeer (h : Host) (contents : PeerRow) (keypair : Binary 32) (rng : Entropy)
    (cut : Option Cut) : Except Failure (Option (Manager × Management.Enrollment)) × Host :=
  match h.db.createPeer (newPeerContents contents keypair) with
  | .error e => (.error (.server e), h)
  | .ok db =>
    let id := h.db.network.maxPeerId + 1
    let h := { h with db }
    if cut = some .created then (.error .cut, h)
    else match h.openOrCreate cut with
    | (.error e, h) => (.error e, h)
    | (.ok none, h) => (.ok none, h)
    | (.ok (some m), h) =>
      if cut = some .opened then (.error .cut, h)
      else
        let (result, h) := h.provisionNewPeer m id rng cut
        (result.map some, h)

/-- `enable_or_disable_peer`, up to what it makes durable on the host. -/
def enableOrDisablePeer (h : Host) (enable : Bool) (id : Nat) (cut : Option Cut) :
    Except Failure (Option Manager) × Host :=
  match h.db.getPeer id with
  | .error e => (.error (.server e), h)
  | .ok row =>
    match h.db.updatePeer id row.name (!enable) with
    | .error e => (.error (.server e), h)
    | .ok db =>
      let h := { h with db }
      if cut = some .created then (.error .cut, h)
      else if enable then
        match h.openOrCreate cut with
        | (.ok (some m), h) =>
          if m.state.linkOf id = none then (.error (.server .unavailable), h) else (.ok (some m), h)
        | done => done
      else (.ok none, h)

/-- `find_peer_by_name`. -/
def findPeerByName (h : Host) (name : String) : Except Failure Nat :=
  match keysWhere (fun _ p => decide (p.name = name)) h.db.peers with
  | [] => .error (.text s!"peer '{name}' does not exist")
  | id :: _ => .ok id

/-- `required_management`. -/
def requiredManagement (h : Host) (independentAdminAccess : Bool) (cut : Option Cut) :
    Except Failure Manager × Host :=
  if ¬ independentAdminAccess then
    (.error (.text "independent authenticated administrative access is required"), h)
  else match h.openOrCreate cut with
  | (.error e, h) => (.error e, h)
  | (.ok none, h) => (.error (.text "management was never required for this network"), h)
  | (.ok (some m), h) => (.ok m, h)

/-- What the error of a rotation says. -/
def rotationFailure (name : String) : Rotation → Failure
  | .stage .. => .text s!"failed to stage a rotation candidate for '{name}'"
  | .apply => .text s!"failed to apply the staged rotation for '{name}'"
  | .verify => .text s!"failed to mark '{name}' verified"
  | .confirm => .text s!"failed to confirm the rotation for '{name}' -- mark it verified first"
  | .rollback => .text s!"failed to roll back the rotation for '{name}'"
  | .force .. => .text s!"failed to force the management secret for '{name}'"

/-- The rotation commands, up to their work on the store. -/
def rotate (h : Host) (name : String) (independentAdminAccess : Bool) (rotation : Rotation)
    (saving : Saving) (cut : Option Cut) : Except Failure (Manager × Nat) × Host :=
  match h.findPeerByName name with
  | .error e => (.error e, h)
  | .ok id =>
    match h.requiredManagement independentAdminAccess cut with
    | (.error e, h) => (.error e, h)
    | (.ok m, h) =>
      match m.rotate id rotation saving with
      | (.error _, m) => (.error (rotationFailure name rotation), h.put m.stored)
      | (.ok (), m) => (.ok (m, id), h.put m.stored)

end Host

end Innernet
