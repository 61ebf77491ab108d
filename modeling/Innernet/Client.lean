import Innernet.Endpoint
import Innernet.Library.Runs
import Mathlib

/-! A client interface: the kernel's peers and the data-traffic gate beside the endpoint's state,
driven by `fetch` of `client-core/src/interface.rs` one effect at a time, so that it can be cut
short between any two of them. The kernel gate and the peer configuration are those of
`client-core/src/gate.rs`, `pq_install.rs` and `shared/src/types.rs`. -/
namespace Innernet

open Fallible Tables

inductive IpAddr where
  | v4 (bits : BitVec 32)
  | v6 (bits : BitVec 128)
  deriving DecidableEq

structure AllowedIp where
  address : IpAddr
  cidr : Nat
  deriving DecidableEq

structure SocketAddr where
  ip : IpAddr
  port : Nat
  deriving DecidableEq

/-- `Peer`, with its key decoded and its endpoint resolved. -/
structure Peer where
  id : Nat
  publicKey : Binary 32
  ip : IpAddr
  isDisabled : Bool
  endpoint : Option SocketAddr
  persistentKeepaliveInterval : Option Nat
  candidates : List SocketAddr
  deriving DecidableEq

/-- `peer_allowed_ip`. -/
def Peer.allowedIp (p : Peer) : AllowedIp where
  address := p.ip
  cidr := match p.ip with
    | .v4 _ => 32
    | .v6 _ => 128

/-- `PeerState`: an entry of the state pages. -/
structure Entry where
  isServer : Bool
  peer : Peer
  pq : Option AdvertisedBundle
  deriving DecidableEq

structure PeerConfig where
  presharedKey : Option (Binary 32)
  allowedIps : List AllowedIp
  persistentKeepaliveInterval : Option Nat
  endpoint : Option SocketAddr
  deriving DecidableEq

/-- The last handshake of a kernel peer, with the preshared key it was made under. -/
structure Handshake where
  time : Nat
  presharedKey : Option (Binary 32)
  deriving DecidableEq

structure PeerInfo where
  config : PeerConfig
  lastHandshake : Option Handshake
  rxBytes : Nat
  txBytes : Nat
  deriving DecidableEq

abbrev Device := Table (Binary 32) PeerInfo

/-- `PeerConfigBuilder`: what an update asks of one kernel peer. -/
structure PeerConfigBuilder where
  publicKey : Binary 32
  removeMe : Bool
  replaceAllowedIps : Bool
  allowedIps : List AllowedIp
  persistentKeepaliveInterval : Option Nat
  endpoint : Option SocketAddr
  presharedKey : Option (Binary 32)
  deriving DecidableEq

namespace PeerConfigBuilder

def new (publicKey : Binary 32) : PeerConfigBuilder where
  publicKey
  removeMe := false
  replaceAllowedIps := false
  allowedIps := []
  persistentKeepaliveInterval := none
  endpoint := none
  presharedKey := none

def remove (b : PeerConfigBuilder) : PeerConfigBuilder := { b with removeMe := true }

/-- A peer the kernel does not have yet. -/
def blank : PeerInfo where
  config := {
    presharedKey := none
    allowedIps := []
    persistentKeepaliveInterval := none
    endpoint := none }
  lastHandshake := none
  rxBytes := 0
  txBytes := 0

/-- What is not asked for stays as it was. -/
def configure (b : PeerConfigBuilder) (old : PeerInfo) : PeerInfo :=
  { old with config := {
      presharedKey := b.presharedKey <|> old.config.presharedKey
      allowedIps := (if b.replaceAllowedIps then [] else old.config.allowedIps) ++ b.allowedIps
      persistentKeepaliveInterval :=
        b.persistentKeepaliveInterval <|> old.config.persistentKeepaliveInterval
      endpoint := b.endpoint <|> old.config.endpoint } }

def apply (b : PeerConfigBuilder) (d : Device) : Device :=
  if b.removeMe then d.erase b.publicKey
  else d.insert b.publicKey (b.configure ((d.lookup b.publicKey).getD blank))

end PeerConfigBuilder

/-- `DeviceUpdate::apply`. -/
def Device.update (d : Device) (builders : List PeerConfigBuilder) : Device :=
  builders.foldl (fun d b => b.apply d) d

def rejectAfterTime : Nat := 180

def PeerInfo.isRecentlyConnected (i : PeerInfo) (now : Nat) : Bool :=
  i.lastHandshake.any fun h => h.time ≤ now ∧ now - h.time ≤ rejectAfterTime

/-- `PeerDiff::peer_config_builder` for a peer that stays; `none` when nothing changes. -/
def PeerDiff.peerConfigBuilder (now : Nat) (old : Option PeerInfo) (new : Peer) :
    Option PeerConfigBuilder :=
  let ips := [new.allowedIp]
  let b := PeerConfigBuilder.new new.publicKey
  let changedIps := old.all fun i => i.config.allowedIps ≠ ips
  let b := if changedIps then { b with replaceAllowedIps := true, allowedIps := ips } else b
  let changedKeepalive := old.all fun i =>
    i.config.persistentKeepaliveInterval ≠ new.persistentKeepaliveInterval
  -- `unset_persistent_keepalive` sets an interval of 0
  let b := if changedKeepalive then
    { b with persistentKeepaliveInterval := some (new.persistentKeepaliveInterval.getD 0) } else b
  let stable := old.any fun i => i.isRecentlyConnected now
  let changedEndpoint := ¬ stable ∧ new.endpoint.isSome ∧
    old.all fun i => i.config.endpoint ≠ new.endpoint
  let b := if changedEndpoint then { b with endpoint := new.endpoint } else b
  let reattempt := ¬ stable ∧ ¬ changedEndpoint ∧ new.candidates ≠ []
  if changedIps ∨ changedKeepalive ∨ changedEndpoint ∨ reattempt then some b else none

/-- `DeviceExt::diff`: peers new or changed, then the kernel peers nobody lists any more. -/
def Device.diff (d : Device) (own : Binary 32) (now : Nat) (peers : List Peer) :
    List PeerConfigBuilder :=
  let modifications := peers.filterMap fun p =>
    if p.isDisabled ∨ p.publicKey = own then none
    else PeerDiff.peerConfigBuilder now (d.lookup p.publicKey) p
  let removals := d.entries.filterMap fun e =>
    if peers.any fun p => p.publicKey = e.1 then none
    else some (PeerConfigBuilder.new e.1).remove
  modifications ++ removals

/-- The kernel's peers and the addresses the data gate blocks. -/
structure Tunnel where
  device : Device
  blocked : List AllowedIp

namespace Tunnel

/-- `gate::block`. -/
def block (t : Tunnel) (ips : List AllowedIp) : Tunnel :=
  { t with blocked := ips ++ t.blocked }

/-- `gate::release`. -/
def release (t : Tunnel) (ips : List AllowedIp) : Tunnel :=
  { t with blocked := t.blocked.filter fun ip => ip ∉ ips }

def setPeer (t : Tunnel) (publicKey : Binary 32) (i : PeerInfo) : Tunnel :=
  { t with device := t.device.insert publicKey i }

end Tunnel

/-- `find_peer`. -/
def findPeer (peers : List Peer) (bundle : Bundle) : Option Peer :=
  peers.find? fun p => p.publicKey = bundle.wgPublicKey

/-- Which of an installer's calls to the system succeed. -/
structure Answers where
  gates : Bool
  removes : Bool
  recreates : Bool
  reads : Bool

/-- `RealInstaller`, over a directory. -/
def realInstaller (peers : List Peer) (answers : Answers) : Installer Tunnel where
  install bundle candidate t :=
    match findPeer peers bundle with
    | none => (.error .installer, t)
    | some p =>
      if answers.gates = false then (.error .installer, t)
      else
        let t := t.block [p.allowedIp]
        if answers.removes = false then (.error .installer, t)
        else
          let t := { t with device := (PeerConfigBuilder.new p.publicKey).remove.apply t.device }
          if answers.recreates = false then (.error .installer, t)
          else
            let b : PeerConfigBuilder := { PeerConfigBuilder.new p.publicKey with
              replaceAllowedIps := true
              allowedIps := [p.allowedIp]
              persistentKeepaliveInterval := p.persistentKeepaliveInterval
              endpoint := p.endpoint
              presharedKey := some candidate.psk }
            (.ok (), { t with device := b.apply t.device })
  handshakeFresh bundle t :=
    match findPeer peers bundle with
    | none => (.error .installer, t)
    | some p =>
      if answers.reads = false then (.error .installer, t)
      else
        let fresh := (t.device.lookup p.publicKey).any fun i => i.lastHandshake.isSome
        (.ok fresh, if fresh then t.release [p.allowedIp] else t)

/-- `blocked_allowed_ips`. -/
def blockedAllowedIps (s : EndpointState) (peers : List Peer) : List AllowedIp :=
  s.relationships.entries.filterMap fun e => (findPeer peers e.2.remote).map Peer.allowedIp

/-- `reconcile_gate`. -/
def reconcileGate (s : EndpointState) (peers : List Peer) (answers : Answers) (t : Tunnel) :
    Tunnel :=
  if s.registration.lifecycle = .retired then t
  else s.relationships.entries.foldl (fun t e =>
    if e.2.pending.isSome ∨ e.2.confirmed.isNone then t
    else ((realInstaller peers answers).handshakeFresh e.2.remote t).2) t

/-- The entry of a data peer, as the proactive pass and `apply` select them. -/
def Entry.dataPeer (e : Entry) (s : EndpointState) : Option Number :=
  if e.isServer then none
  else match Number.new e.peer.id with
    | .error _ => none
    | .ok id => if id = s.serverId ∨ id = s.peerId then none else some id

/-- What the proactive pass does about an entry: gate its address, release it, or neither. -/
inductive Gating where
  | gate
  | release
  | leave
  deriving DecidableEq

def Entry.gating (e : Entry) (s : EndpointState) : Gating :=
  match e.dataPeer s with
  | none => .leave
  | some id =>
    let retiring : Bool := s.registration.lifecycle = .retired
    let confirmed := (s.relationship id).any fun r => r.confirmed.isSome
    if confirmed = true ∧ retiring = false then .leave
    else if retiring = false ∧ legacyEligible s id e.pq.isSome = true then .release
    else .gate

/-- The addresses of the entries the pass treats so. -/
def gatedBy (g : Gating) (s : EndpointState) (listing : List Entry) : List AllowedIp :=
  (listing.filter fun e => e.gating s = g).map fun e => e.peer.allowedIp

/-- `exchange_for`. -/
def exchangeFor (exchanges : List Exchange) (own other : Number) : Option Exchange :=
  exchanges.find? fun e => (e.initiatorId = own ∧ e.responderId = other) ∨
    (e.initiatorId = other ∧ e.responderId = own)

/-- `update_peers` of the cached directory: an address keeps its key, and who is not listed is
disabled. -/
def updatePeers (cache peers : List Peer) : Option (List Peer) := do
  let merged ← peers.foldlM (fun cache new =>
    match cache.find? fun p => p.ip = new.ip with
    | some existing =>
      if existing.publicKey ≠ new.publicKey then none
      else some (cache.replace existing new)
    | none => some (cache ++ [new])) cache
  return merged.map fun p =>
    if peers.any fun new => new.publicKey = p.publicKey then p else { p with isDisabled := true }

/-- The commands of `pq-disable`, `pq-enable` and recovery, done on the saved state. -/
def Upkeep.administrative : Upkeep → Bool
  | .replace _ => true
  | .disable => true
  | .emergencyRetire => true
  | _ => false

/-- What is configured of an interface. -/
structure Config where
  publicKey : Binary 32
  serverKey : Binary 32
  serverAddress : AllowedIp
  serverEndpoint : SocketAddr
  managementPsk : Option (Binary 32)

/-- What a fetch has read: the state in memory, the ordinary directory, and the state pages. -/
structure View where
  memory : EndpointState
  peers : List Peer
  listing : List Entry
  exchanges : List Exchange

/-- How far the running fetch is. -/
inductive Stage where
  | restored
  | waiting
  | fetched (v : View)
  | blocked (v : View)
  | gated (v : View)
  | cached
  | applying (v : View) (sampled : Device) (todo : List Entry)
  | acted (v : View) (sampled : Device) (todo : List Entry) (other : Number) (action : Action)
  | sending (v : View) (sampled : Device) (todo : List Entry) (other : Number) (message : Message)
  | noted (v : View) (sampled : Device) (todo : List Entry)

/-- The state saved on disk, the cached directory, the kernel with its gate, and the fetch that is
running, if one is. -/
structure Client where
  disk : EndpointState
  cache : List Peer
  up : Bool
  tunnel : Tunnel
  running : Option Stage

/-- What the server answers at the start of a fetch, with the flag and the save that follow. -/
structure Fetched where
  peers : List Peer
  listing : List Entry
  exchanges : List Exchange
  permissive : Bool
  reply : Option AdvertisedBundle
  saves : Bool

/-- The inputs of one peer's turn in `apply`. -/
structure Turning where
  now : Nat
  rotationInterval : Nat
  idleTimeout : Nat
  answers : Answers
  draws : Draws

inductive Effect where
  | start
  | raise
  | fetch (f : Fetched)
  | offline
  | block
  | release
  | update (now : Nat) (through : Option Nat)
  | turn (t : Turning)
  | save (done : Bool)
  | send (done : Bool) (now : Nat) (drawn : Except Error UInt8)
  | saveNote (done : Bool)
  | finish (answers : Answers)
  | abort
  | reboot
  | down
  | handshake (publicKey : Binary 32) (time : Nat)
  | traffic (publicKey : Binary 32) (rxBytes txBytes : Nat)
  | administer (u : Upkeep)

section Steps

variable [Native]

omit [Native] in
/-- The activity sample of `apply`, where the kernel had the peer. -/
def EndpointState.sample (s : EndpointState) (other : Number) (now : Nat) :
    Option PeerInfo → EndpointState
  | none => s
  | some i => s.after (s.observeActivity other now i.rxBytes i.txBytes)

/-- The turn of one entry in `apply`: `none` when the loop moves on to the next entry. -/
def View.turn (v : View) (sampled : Device) (e : Entry) (t : Turning) (tunnel : Tunnel) :
    Option (Number × Action) × EndpointState × Tunnel :=
  match e.dataPeer v.memory, e.pq with
  | some other, some advertised =>
    match v.memory.observeRemote other advertised.bundle advertised.lifecycle with
    | .error _ => (none, v.memory, tunnel)
    | .ok s =>
      let s := s.sample other t.now (sampled.lookup e.peer.publicKey)
      match s.reconcile other (exchangeFor v.exchanges s.peerId other) t.now t.rotationInterval
          t.idleTimeout (realInstaller v.peers t.answers) t.draws tunnel with
      | (.error _, s, tunnel) => (none, s, tunnel)
      | (.ok action, s, tunnel) => (some (other, action), s, tunnel)
  | _, _ => (none, v.memory, tunnel)

/-- The ordinary update, through its first instructions or all of them. The server's entry keeps
its management key. -/
def Config.update (cfg : Config) (now : Nat) (through : Option Nat) (peers : List Peer)
    (t : Tunnel) : Tunnel :=
  let updates := (t.device.diff cfg.publicKey now peers).map fun b =>
    if b.publicKey = cfg.serverKey ∧ cfg.managementPsk.isSome then
      { b with presharedKey := cfg.managementPsk } else b
  { t with device := t.device.update (match through with
      | none => updates
      | some n => updates.take n) }

/-- The kernel `wg::up` makes. -/
def Config.fresh (cfg : Config) : Device :=
  (∅ : Device).insert cfg.serverKey {
    PeerConfigBuilder.blank with
    config := {
      presharedKey := cfg.managementPsk
      allowedIps := [cfg.serverAddress]
      persistentKeepaliveInterval := some 25
      endpoint := some cfg.serverEndpoint } }

namespace Client

/-- One effect; `none` where the running fetch does not do it. -/
def next (cfg : Config) (c : Client) : Effect → Option Client
  | .start =>
    match c.running with
    | some _ => none
    | none =>
      if c.up then some { c with running := some .waiting }
      else some { c with
        tunnel := { c.tunnel with blocked := blockedAllowedIps c.disk c.cache }
        running := some .restored }
  | .raise =>
    match c.running with
    | some .restored => some { c with
        up := true
        tunnel := { c.tunnel with device := cfg.fresh }
        running := some .waiting }
    | _ => none
  | .fetch f =>
    match c.running with
    | some .waiting =>
      let loaded := { c.disk with policy := if f.permissive then .permissive else .strict }
      let submitted := loaded.submitPendingRegistration f.reply
      let memory := loaded.after submitted
      some { c with
        disk := if f.saves = true ∧ submitted.toOption.isSome = true then memory else c.disk
        running := some (.fetched ⟨memory, f.peers, f.listing, f.exchanges⟩) }
    | _ => none
  | .offline =>
    match c.running with
    | some .waiting => if c.cache = [] then none else some { c with running := some .cached }
    | _ => none
  | .block =>
    match c.running with
    | some (.fetched v) => some { c with
        tunnel := c.tunnel.block (gatedBy .gate v.memory v.listing)
        running := some (.blocked v) }
    | _ => none
  | .release =>
    match c.running with
    | some (.blocked v) => some { c with
        tunnel := c.tunnel.release (gatedBy .release v.memory v.listing)
        running := some (.gated v) }
    | _ => none
  | .update now through =>
    match c.running with
    | some (.gated v) => some { c with
        tunnel := cfg.update now through v.peers c.tunnel
        running := if through = none then some (.applying v c.tunnel.device v.listing) else none }
    | some .cached => some { c with
        tunnel := cfg.update now through c.cache c.tunnel
        cache := if through = none then (updatePeers c.cache c.cache).getD c.cache else c.cache
        running := none }
    | _ => none
  | .turn t =>
    match c.running with
    | some (.applying v sampled (e :: todo)) =>
      match v.turn sampled e t c.tunnel with
      | (none, memory, tunnel) =>
        some { c with tunnel, running := some (.applying { v with memory } sampled todo) }
      | (some (other, action), memory, tunnel) =>
        some { c with tunnel, running := some (.acted { v with memory } sampled todo other action) }
    | _ => none
  | .save done =>
    match c.running with
    | some (.acted v sampled todo other action) =>
      if done then some { c with
        disk := v.memory
        running := some (match action with
          | .send m => .sending v sampled todo other m
          | _ => .applying v sampled todo) }
      else some { c with running := some (.applying v sampled todo) }
    | _ => none
  | .send done now drawn =>
    match c.running with
    | some (.sending v sampled todo other _) =>
      if done then some { c with running := some (.applying v sampled todo) }
      else match v.memory.noteSendFailure other now drawn with
        | (.error _, memory) =>
          some { c with running := some (.applying { v with memory } sampled todo) }
        | (.ok (), memory) =>
          some { c with running := some (.noted { v with memory } sampled todo) }
    | _ => none
  | .saveNote done =>
    match c.running with
    | some (.noted v sampled todo) => some { c with
        disk := if done then v.memory else c.disk
        running := some (.applying v sampled todo) }
    | _ => none
  | .finish answers =>
    match c.running with
    | some (.applying v _ []) => some { c with
        tunnel := reconcileGate v.memory v.peers answers c.tunnel
        cache := (updatePeers c.cache v.peers).getD c.cache
        running := none }
    | _ => none
  | .abort => some { c with running := none }
  | .reboot => some { c with up := false, tunnel := ⟨∅, []⟩, running := none }
  | .down => some { c with
      up := false
      tunnel := { c.tunnel with device := ∅ }
      running := none }
  | .handshake publicKey time =>
    match c.tunnel.device.lookup publicKey with
    | none => none
    | some i => some { c with
        tunnel := c.tunnel.setPeer publicKey
          { i with lastHandshake := some ⟨time, i.config.presharedKey⟩ } }
  | .traffic publicKey rxBytes txBytes =>
    match c.tunnel.device.lookup publicKey with
    | none => none
    | some i => some { c with tunnel := c.tunnel.setPeer publicKey { i with rxBytes, txBytes } }
  | .administer u =>
    if c.running.isNone ∧ u.administrative then some { c with disk := u.perform c.disk } else none

end Client

end Steps

end Innernet
