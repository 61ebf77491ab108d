import Innernet.Server.Artifacts
import Innernet.Server.Rotation

/-! A running `serve` beside the commands of the operator. `serve` reads the store of management
links once, as it starts, and keeps the secrets it read; the commands open the store under its lock
and write the interface before they let it go. Four places configure a peer on the interface. -/
namespace Innernet

open Fallible Tables Runs Database Management

/-- The operations of a rotation that replace the active secret. -/
def Rotation.replaces : Rotation → Bool
  | .apply | .rollback | .force .. => true
  | _ => false

namespace Live

/-- `PeerConfigBuilder`: the peer and the row it was built from, and its preshared key. -/
structure PeerConfig where
  id : Nat
  row : PeerRow
  psk : Option (Binary 32)
  deriving DecidableEq

/-- `Manager::peer_config`. -/
def peerConfig (m : Manager) (id : Nat) (row : PeerRow) : Except ServerError PeerConfig :=
  match m.state.linkOf id with
  | none => .error .unavailable
  | some link => .ok { id, row, psk := some link.psk }

/-- The commands that configure a peer on the interface, and the other steps of a rotation. -/
inductive Command where
  | add
  | enable
  | rotate (rotation : Rotation)
  deriving DecidableEq

/-- A command that has read or written the row of its peer, and not yet opened the store. -/
structure Flight where
  command : Command
  id : Nat
  row : PeerRow
  deriving DecidableEq

/-- Who has the lock of the store. Without a manager there is no store, and no lock. -/
inductive Holder where
  | command (manager : Option Manager) (id : Nat) (row : PeerRow)
  | serve (manager : Option Manager)
  deriving DecidableEq

/-- What `serve` keeps: the secrets of its start, the configurations it has built and not yet
applied, and the tasks of redemptions that wait to write the interface. -/
structure Serving where
  managementPsks : Nat → Option (Binary 32)
  startup : Option (List PeerConfig)
  tasks : List (Nat × PeerRow)

/-- The steps of `serve` and of the commands, in any order. -/
inductive Event where
  | load
  | list
  | up
  | stop
  | create (contents : PeerRow)
  | redeem (id : Nat) (publicKey : String) (now : Nat)
  | finish (task : Nat)
  | addPeer (contents : PeerRow) (keypair : Binary 32)
  | enablePeer (id : Nat)
  | rotate (name : String) (rotation : Rotation)
  | opens (flight : Nat) (independentAdminAccess : Bool) (rng : Entropy) (saving : Saving)
      (cut : Option Cut)
  | push
  | abandon
  | abort (flight : Nat)
  | prepare (p : Host.Preparation)
  | database (op : Operation)

end Live

/-- A host, the commands under way on it, the lock of its store, and the server if it runs. -/
structure Live where
  host : Host
  flights : List Live.Flight
  holder : Option Live.Holder
  serving : Option Live.Serving

namespace Live

/-- The configurations `serve` starts with: the links of its manager for the enabled peers but the
server itself. -/
def startupConfigs (h : Host) : Option Manager → Except ServerError (List PeerConfig)
  | none => .ok (h.db.listPeers.map fun e => ⟨e.1, e.2, none⟩)
  | some m => h.db.listPeers.mapM fun e =>
    if e.1 ≠ m.state.serverId.val ∧ e.2.isDisabled = false then peerConfig m e.1 e.2
    else .ok ⟨e.1, e.2, none⟩

/-- `management_psks`. -/
def managementPsks (m : Option Manager) (id : Nat) : Option (Binary 32) :=
  m.bind fun m => (m.state.linkOf id).map ManagementLink.psk

/-- `serve` after it has started, as the HTTP requests find it. -/
def running (v : Live) : Option Serving := v.serving.filter fun s => s.startup.isNone

/-- The work of a command on the open store, up to its own write of the interface. -/
def work (h : Host) (f : Flight) (access : Bool) (rng : Entropy) (saving : Saving)
    (cut : Option Cut) : Option Holder × Host :=
  match f.command with
  | .add =>
    match h.openOrCreate cut with
    | (.error _, h) => (none, h)
    | (.ok none, h) => (some (.command none f.id f.row), h)
    | (.ok (some m), h) =>
      match h.provisionNewPeer m f.id rng cut with
      | (.error _, h) => (none, h)
      | (.ok (m, _), h) => (some (.command (some m) f.id f.row), h)
  | .enable =>
    match h.openOrCreate cut with
    | (.error _, h) => (none, h)
    | (.ok m, h) => (some (.command m f.id f.row), h)
  | .rotate rotation =>
    match h.requiredManagement access cut with
    | (.error _, h) => (none, h)
    | (.ok m, h) =>
      match m.rotate f.id rotation saving with
      | (.error _, m) => (none, h.put m.stored)
      | (.ok (), m) =>
        (if rotation.replaces then some (.command (some m) f.id f.row) else none, h.put m.stored)

/-- What an event writes to the interface. -/
def applies (v : Live) : Event → List PeerConfig
  | .up => ((v.serving.bind Serving.startup).getD [])
  | .create contents =>
    match v.running, v.host.db.createPeer contents with
    | some _, .ok db => ((db.peers.lookup (v.host.db.network.maxPeerId + 1)).map fun row =>
        ⟨v.host.db.network.maxPeerId + 1, row, none⟩).toList
    | _, _ => []
  | .finish task =>
    match v.running with
    | none => []
    | some s => (s.tasks[task]?.map fun t => ⟨t.1, t.2, s.managementPsks t.1⟩).toList
  | .push =>
    match v.holder with
    | some (.command none id row) => [⟨id, row, none⟩]
    | some (.command (some m) id row) => (peerConfig m id row).toOption.toList
    | _ => []
  | _ => []

def next [Native] (v : Live) : Event → Live
  | .load =>
    match v.holder, v.serving, Manager.load v.host with
    | none, none, .ok m => { v with holder := some (.serve m) }
    | _, _, _ => v
  | .list =>
    match v.holder with
    | some (.serve m) =>
      match startupConfigs v.host m with
      | .error _ => { v with holder := none }
      | .ok configs => { v with
          holder := none
          serving := some ⟨managementPsks m, some configs, []⟩ }
    | _ => v
  | .up => { v with serving := v.serving.map fun s => { s with startup := none } }
  | .stop => { v with
      serving := none
      holder := v.holder.filter fun holder => match holder with
        | .serve _ => false
        | .command .. => true }
  | .create contents =>
    if v.running.isNone then v
    else { v with host := v.host.on (v.host.db.commit (v.host.db.createPeer contents)) }
  | .redeem id publicKey now =>
    match v.running, v.host.db.redeemPeer id publicKey now with
    | some s, .ok db => { v with
        host := v.host.on db
        serving := some { s with
          tasks := s.tasks ++ ((db.peers.lookup id).map fun row => (id, row)).toList } }
    | _, _ => v
  | .finish task => { v with serving := v.serving.map fun s =>
      { s with tasks := s.tasks.eraseIdx task } }
  | .addPeer contents keypair =>
    match v.host.db.createPeer (Host.newPeerContents contents keypair) with
    | .error _ => v
    | .ok db => { v with
        host := v.host.on db
        flights := v.flights ++ ((db.peers.lookup (v.host.db.network.maxPeerId + 1)).map fun row =>
          (⟨.add, v.host.db.network.maxPeerId + 1, row⟩ : Flight)).toList }
  | .enablePeer id =>
    match v.host.db.getPeer id with
    | .error _ => v
    | .ok row =>
      match v.host.db.updatePeer id row.name false with
      | .error _ => v
      | .ok db => { v with
          host := v.host.on db
          flights := v.flights ++ [⟨.enable, id, { row with isDisabled := false }⟩] }
  | .rotate name rotation =>
    match v.host.findPeerByName name with
    | .error _ => v
    | .ok id => { v with
        flights := v.flights ++ ((v.host.db.peers.lookup id).map fun row =>
          (⟨.rotate rotation, id, row⟩ : Flight)).toList }
  | .opens flight access rng saving cut =>
    match v.flights[flight]? with
    | none => v
    | some f =>
      -- The lock is tried once: a command that finds it taken fails.
      if v.holder.isSome then { v with flights := v.flights.eraseIdx flight }
      else
        let (holder, host) := work v.host f access rng saving cut
        { v with host, holder, flights := v.flights.eraseIdx flight }
  | .push | .abandon => { v with
      holder := v.holder.filter fun holder => match holder with
        | .serve _ => true
        | .command .. => false }
  | .abort flight => { v with flights := v.flights.eraseIdx flight }
  | .prepare p => if v.holder.isSome then v else { v with host := (v.host.prepare p).2 }
  | .database op => { v with host := v.host.on (op.apply v.host.db) }

end Live

namespace Host

/-- The store is this server's still, and its links have their secrets, but those of the peers that
are `moved`. -/
def Retains (moved : Nat → Prop) (h h' : Host) : Prop :=
  ∀ s, h.state = some s → ∃ s', h'.state = some s' ∧ s'.serverId = s.serverId ∧
    ∀ id link, s.linkOf id = some link →
      ∃ link', s'.linkOf id = some link' ∧ (moved id ∨ link'.psk = link.psk)

variable {moved : Nat → Prop} {h h' h'' : Host}

theorem Retains.same (same : h'.state = h.state) : Retains moved h h' :=
  fun s stored => ⟨s, same.trans stored, rfl, fun _ link found => ⟨link, found, .inr rfl⟩⟩

theorem Retains.mono {moved' : Nat → Prop} (retains : Retains moved h h')
    (weaker : ∀ id, moved id → moved' id) : Retains moved' h h' := by
  intro s stored
  obtain ⟨s', stored', server, links⟩ := retains s stored
  refine ⟨s', stored', server, fun id link found => ?_⟩
  obtain ⟨link', found', moves⟩ := links id link found
  exact ⟨link', found', moves.imp_left (weaker id)⟩

theorem Retains.trans (first : Retains (fun _ => False) h h') (second : Retains moved h' h'') :
    Retains moved h h'' := by
  intro s stored
  obtain ⟨s', stored', server', links'⟩ := first s stored
  obtain ⟨s'', stored'', server'', links''⟩ := second s' stored'
  refine ⟨s'', stored'', server''.trans server', fun id link found => ?_⟩
  obtain ⟨link', found', same | same⟩ := links' id link found
  · cases same
  · obtain ⟨link'', found'', moves⟩ := links'' id link' found'
    exact ⟨link'', found'', moves.imp_right fun kept => kept.trans same⟩

theorem identify_frame (h : Host) : h.identify.2.vault = h.vault ∧
    h.identify.2.config = h.config := by
  unfold identify
  dsimp only
  split <;> exact ⟨rfl, rfl⟩

/-- What `open_or_create` leaves: the store that was there, or a new one. -/
theorem openOrCreate_frame (h : Host) (cut : Option Cut) :
    Retains (fun _ => False) h (h.openOrCreate cut).2 ∧
      (h.openOrCreate cut).2.config = h.config ∧
      (h.config.managementRequired = true → (h.openOrCreate cut).1 ≠ .ok none) ∧
      ∀ m, (h.openOrCreate cut).1 = .ok (some m) →
        (h.openOrCreate cut).2.state = some m.state ∧ m.stored = m.state := by
  obtain ⟨vault, config⟩ := h.identify_frame
  unfold openOrCreate
  split
  · rename_i never
    exact ⟨.same rfl, rfl, fun required => absurd required never,
      fun m impossible => (by cases impossible)⟩
  · split
    · rename_i e h' found
      rw [found] at vault config
      exact ⟨.same (congrArg (Option.bind · Vault.state) vault), config,
        fun _ impossible => (by cases impossible), fun m impossible => (by cases impossible)⟩
    · rename_i serverId h' found
      rw [found] at vault config
      have same : h'.state = h.state := congrArg (Option.bind · Vault.state) vault
      split
      · exact ⟨.same same, config, fun _ impossible => (by cases impossible),
          fun m impossible => (by cases impossible)⟩
      · split
        · rename_i vault' open_
          have opened : ∀ m, h'.reopen vault' serverId = .ok m →
              vault'.state = some m.state ∧ m.stored = m.state := by
            intro m done
            unfold reopen at done
            split at done
            · cases done
            · rename_i state inside
              split at done
              · cases done
              · simp only [bind_ok, require_ok, pure_ok] at done
                obtain ⟨_, -, rfl⟩ := done
                exact ⟨inside, rfl⟩
          refine ⟨.same same, config, fun _ impossible => ?_, fun m done => ?_⟩
          · cases result : h'.reopen vault' serverId with
            | error e =>
              rw [result] at impossible
              cases impossible
            | ok m =>
              rw [result] at impossible
              cases impossible
          · cases result : h'.reopen vault' serverId with
            | error e =>
              rw [result] at done
              cases done
            | ok m' =>
              rw [result] at done
              cases done
              obtain ⟨inside, current⟩ := opened m result
              refine ⟨?_, current⟩
              rw [state, open_]
              exact inside
        · rename_i missing
          have none_ : ∀ h'', Retains (fun _ => False) h h'' := by
            intro h'' s stored
            rw [← same, state, missing] at stored
            cases stored
          dsimp only
          split
          · exact ⟨none_ _, config, fun _ impossible => (by cases impossible),
              fun m impossible => (by cases impossible)⟩
          · split
            · exact ⟨none_ _, config, fun _ impossible => (by cases impossible),
                fun m impossible => (by cases impossible)⟩
            · rename_i state made
              refine ⟨none_ _, config, fun _ impossible => (by cases impossible), fun m done => ?_⟩
              cases done
              exact ⟨rfl, rfl⟩

end Host

namespace Live

theorem retains_put {moved : Nat → Prop} {h : Host} {s s' : ServerState} (stored : h.state = some s)
    (server : s'.serverId = s.serverId) (links : ∀ id link, s.linkOf id = some link →
      ∃ link', s'.linkOf id = some link' ∧ (moved id ∨ link'.psk = link.psk)) :
    Host.Retains moved h (h.put s') := by
  intro s₀ stored₀
  cases stored.symm.trans stored₀
  exact ⟨s', rfl, server, links⟩

/-- A link more leaves the links there are. -/
theorem provision_retains {s s' : ServerState} {peer : Number} {adopted : Option (Binary 32)}
    {rng : Entropy} (done : s.provision peer adopted rng = .ok s') :
    s'.serverId = s.serverId ∧ (∀ id link, s.linkOf id = some link → s'.linkOf id = some link) ∧
      s'.link peer ≠ none := by
  rcases ServerState.provision_ok done with ⟨rfl, found⟩ | ⟨link, absent, -, rfl⟩
  · exact ⟨rfl, fun _ _ found => found, found⟩
  · refine ⟨rfl, fun id link' found => ?_, ?_⟩
    · obtain ⟨number, named, found⟩ := Option.bind_eq_some_iff.mp found
      rw [Host.linkOf_some (toOption_some.mp named), ServerState.link_setLink, if_neg]
      · exact found
      · rintro rfl
        rw [absent] at found
        cases found
    · rw [ServerState.link_setLink, if_pos rfl]
      exact Option.some_ne_none _

theorem provisionNewPeer_frame {h : Host} {m : Manager} (stored : h.state = some m.state) (id : Nat)
    (rng : Entropy) (cut : Option Cut) :
    Host.Retains (fun _ => False) h (h.provisionNewPeer m id rng cut).2 ∧
      (h.provisionNewPeer m id rng cut).2.config = h.config ∧
      ∀ m' enrollment, (h.provisionNewPeer m id rng cut).1 = .ok (m', enrollment) →
        (h.provisionNewPeer m id rng cut).2.state = some m'.state := by
  unfold Host.provisionNewPeer
  split
  · exact ⟨.same rfl, rfl, fun _ _ impossible => (by cases impossible)⟩
  · rename_i state done
    simp only [bind_ok] at done
    obtain ⟨peer, named, done⟩ := done
    obtain ⟨server, links, -⟩ := provision_retains done
    have saved : Host.Retains (fun _ => False) h (h.put state) :=
      retains_put stored server fun id link found => ⟨link, links id link found, .inr rfl⟩
    split
    · exact ⟨.same rfl, rfl, fun _ _ impossible => (by cases impossible)⟩
    · dsimp only
      split
      · exact ⟨saved, rfl, fun _ _ impossible => (by cases impossible)⟩
      · -- Setting the mark of readiness writes the database alone.
        have marked : ∀ db, Host.Retains (fun _ => False) h ((h.put state).on db) := fun db => saved
        have left : ∀ h' : Host, h' = h.put state ∨ (∃ db, h' = (h.put state).on db) →
            Host.Retains (fun _ => False) h h' ∧ h'.config = h.config ∧ h'.state = some state := by
          rintro h' (rfl | ⟨db, rfl⟩)
          · exact ⟨saved, rfl, rfl⟩
          · exact ⟨marked db, rfl, rfl⟩
        have ready : ∀ h' : Host, (h' = if (h.put state).provisioned state then
            { h.put state with db := (h.put state).db.setManagementReady true } else h.put state) →
            h' = h.put state ∨ ∃ db, h' = (h.put state).on db := by
          rintro h' rfl
          split
          · exact .inr ⟨_, rfl⟩
          · exact .inl rfl
        obtain ⟨retains, config, stored'⟩ := left _ (ready _ rfl)
        split
        · exact ⟨retains, config, fun _ _ impossible => (by cases impossible)⟩
        · refine ⟨retains, config, fun m' enrollment ended => ?_⟩
          cases made : Manager.enrollment ⟨state, state⟩ id with
          | error e =>
            rw [made] at ended
            cases ended
          | ok enrollment' =>
            rw [made] at ended
            cases ended
            exact stored'

/-- Only three operations of a rotation change the active secret. -/
theorem rotate_psk {link changed : ManagementLink} {rotation : Rotation}
    (acted : link.rotate rotation = .ok changed) :
    rotation.replaces = true ∨ changed.psk = link.psk := by
  cases ManagementLink.rotate_changed acted with
  | applied => exact .inl rfl
  | restored => exact .inl rfl
  | forced => exact .inl rfl
  | same => exact .inr rfl
  | staged => exact .inr rfl
  | verified => exact .inr rfl
  | confirmed => exact .inr rfl

/-- A rotation leaves the store with the state of its manager when it succeeds, and replaces no
secret but that of its peer. -/
theorem rotate_frame {h : Host} {s : ServerState} (stored : h.state = some s) (id : Nat)
    (rotation : Rotation) (saving : Saving) :
    Host.Retains (fun peer => peer = id ∧ rotation.replaces = true ∧ saving.kept = true) h
        (h.put ((⟨s, s⟩ : Manager).rotate id rotation saving).2.stored) ∧
      (((⟨s, s⟩ : Manager).rotate id rotation saving).1 = .ok () →
        ((⟨s, s⟩ : Manager).rotate id rotation saving).2.stored =
          ((⟨s, s⟩ : Manager).rotate id rotation saving).2.state) := by
  constructor
  · rcases Manager.rotate_stored s id rotation saving with same |
      ⟨peer, link, changed, named, found, acted, kept, ended⟩
    · rw [same, Host.put_same stored]
      exact .same rfl
    · rw [ended]
      refine retains_put stored rfl fun id' link' found' => ?_
      obtain ⟨peer', named', found'⟩ := Option.bind_eq_some_iff.mp found'
      have target' := toOption_some.mp named'
      rw [Host.linkOf_some target', ServerState.link_setLink]
      split
      · rename_i same
        cases same
        cases found.symm.trans found'
        refine ⟨changed, rfl, (rotate_psk acted).imp_left fun replaces => ⟨?_, replaces, kept⟩⟩
        exact (Number.new_ok.mp target').symm.trans (Number.new_ok.mp named)
      · exact ⟨link', found', .inr rfl⟩
  · intro done
    have persisted : ∀ changed, ((⟨s, s⟩ : Manager).persist changed saving).1 = .ok () →
        ((⟨s, s⟩ : Manager).persist changed saving).2.stored =
          ((⟨s, s⟩ : Manager).persist changed saving).2.state := by
      intro changed done
      cases saving
      · rfl
      · cases done
      · cases done
    unfold Manager.rotate at done ⊢
    split at done
    · rename_i verify
      rw [if_pos verify]
      unfold Manager.markVerified at done ⊢
      split at done
      · cases done
      · split at done
        · cases done
        · split at done
          · rename_i known
            simp only [known, if_true]
          · rename_i unknown
            simp only [unknown]
            exact persisted _ done
    · rename_i moves
      rw [if_neg moves]
      split at done
      · cases done
      · split at done
        · cases done
        · exact persisted _ done

theorem provisionAll_retains {adopted : Table Number SecretKey} {rng : Nat → Entropy}
    {peers : List (Sigma fun _ : Nat => PeerRow)} {s s' : ServerState}
    (done : Host.provisionAll adopted rng peers s = .ok s') : s'.serverId = s.serverId ∧
      ∀ id link, s.linkOf id = some link → s'.linkOf id = some link := by
  induction peers generalizing s with
  | nil =>
    cases done
    exact ⟨rfl, fun _ _ found => found⟩
  | cons e rest ih =>
    obtain ⟨peer, s₁, -, first, done⟩ := Host.provisionAll_cons.mp done
    obtain ⟨server, links, -⟩ := provision_retains first
    obtain ⟨server', links'⟩ := ih done
    exact ⟨server'.trans server, fun id link found => links' id link (links id link found)⟩

theorem prepare_frame (h : Host) (p : Host.Preparation) :
    Host.Retains (fun _ => False) h (h.prepare p).2 ∧
      (h.config.managementRequired = true → (h.prepare p).2.config.managementRequired = true) := by
  obtain ⟨vault, config⟩ := h.identify_frame
  unfold Host.prepare
  split
  · exact ⟨.same rfl, id⟩
  · split
    · rename_i e h₁ found
      rw [found] at vault config
      exact ⟨.same (congrArg (Option.bind · Vault.state) vault), fun required => config ▸ required⟩
    · rename_i serverId h₁ found
      rw [found] at vault config
      have same : h₁.state = h.state := congrArg (Option.bind · Vault.state) vault
      have first : Host.Retains (fun _ => False) h h₁ := .same same
      have required : h.config.managementRequired = true → h₁.config.managementRequired = true :=
        fun required => config ▸ required
      split
      · exact ⟨first, required⟩
      · split
        · exact ⟨first, required⟩
        · rename_i draft drafted
          have made : Host.Retains (fun _ => False) h
              { h₁ with vault := some (h₁.vault.getD ⟨none, ∅⟩) } := by
            refine first.trans (.same ?_)
            unfold Host.state
            cases h₁.vault <;> rfl
          dsimp only
          split
          · exact ⟨made, required⟩
          · split
            · exact ⟨made, required⟩
            · rename_i state settled
              split
              · exact ⟨made, required⟩
              · have saved : Host.Retains (fun _ => False) h
                    (Host.put { h₁ with vault := some (h₁.vault.getD ⟨none, ∅⟩) } state) := by
                  intro s stored
                  rw [← same] at stored
                  obtain ⟨v, there, inside⟩ := Option.bind_eq_some_iff.mp stored
                  refine ⟨state, rfl, ?_⟩
                  unfold Host.settled at settled
                  simp only [there, inside] at settled
                  split at settled
                  · cases settled
                  · split at settled
                    · cases settled
                    · split at settled
                      · cases settled
                      · rename_i s' done
                        cases settled
                        obtain ⟨server, links⟩ := provisionAll_retains done
                        exact ⟨server, fun id link found => ⟨link, links id link found, .inr rfl⟩⟩
                split
                · exact ⟨saved, required⟩
                · split
                  · exact ⟨saved, fun _ => rfl⟩
                  · have exported := Host.exportAll_frame (h := { Host.put
                      { h₁ with vault := some (h₁.vault.getD ⟨none, ∅⟩) } state with
                      config := { h₁.config with managementRequired := true } })
                      ⟨state, state⟩ (h₁.enrolled serverId) p.torn rfl
                    exact ⟨saved.trans (.same exported.state), fun _ =>
                      congrArg ConfigFile.managementRequired exported.config⟩

/-- What a command does to the store: it keeps it under its manager, and replaces no secret unless
it is an operation that does, and is saved. -/
theorem work_frame {h : Host} (required : h.config.managementRequired = true) (f : Flight)
    (access : Bool) (rng : Entropy) (saving : Saving) (cut : Option Cut) :
    Host.Retains (fun peer => peer = f.id ∧ ∃ rotation, f.command = .rotate rotation ∧
        rotation.replaces = true ∧ saving.kept = true) h (work h f access rng saving cut).2 ∧
      (work h f access rng saving cut).2.config = h.config ∧
      ∀ holder, (work h f access rng saving cut).1 = some holder →
        ∃ m, holder = .command (some m) f.id f.row ∧
          (work h f access rng saving cut).2.state = some m.state := by
  obtain ⟨retains, config, managed, opened⟩ := h.openOrCreate_frame cut
  have untouched : ∀ {h' : Host} {moved}, h.Retains (fun _ => False) h' → h.Retains moved h' :=
    fun kept => kept.mono fun _ impossible => impossible.elim
  obtain ⟨command, id, row⟩ := f
  cases command with
  | add =>
    unfold work
    dsimp only
    split
    · rename_i e h' found
      rw [found] at retains config
      exact ⟨untouched retains, config, fun _ impossible => (by cases impossible)⟩
    · rename_i h' found
      rw [found] at managed
      exact absurd rfl (managed required)
    · rename_i m h' found
      rw [found] at retains config opened
      obtain ⟨stored, current⟩ := opened m rfl
      obtain ⟨provisioned, config', ends⟩ := provisionNewPeer_frame stored id rng cut
      split
      · rename_i e h'' ended
        rw [ended] at provisioned config'
        exact ⟨untouched (retains.trans provisioned), config'.trans config,
          fun _ impossible => (by cases impossible)⟩
      · rename_i m' enrollment h'' ended
        rw [ended] at provisioned config' ends
        refine ⟨untouched (retains.trans provisioned), config'.trans config, fun holder same => ?_⟩
        cases same
        exact ⟨m', rfl, ends m' enrollment rfl⟩
  | enable =>
    unfold work
    dsimp only
    split
    · rename_i e h' found
      rw [found] at retains config
      exact ⟨untouched retains, config, fun _ impossible => (by cases impossible)⟩
    · rename_i m h' found
      rw [found] at retains config managed opened
      refine ⟨untouched retains, config, fun holder same => ?_⟩
      cases same
      cases m with
      | none => exact absurd rfl (managed required)
      | some m => exact ⟨m, rfl, (opened m rfl).1⟩
  | rotate rotation =>
    unfold work
    dsimp only
    unfold Host.requiredManagement
    split
    · rename_i e h' refused
      split at refused
      · cases refused
        exact ⟨.same rfl, rfl, fun _ impossible => (by cases impossible)⟩
      · split at refused
        · rename_i found
          cases refused
          rw [found] at retains config
          exact ⟨untouched retains, config, fun _ impossible => (by cases impossible)⟩
        · rename_i found
          rw [found] at managed
          exact absurd rfl (managed required)
        · cases refused
    · rename_i m h' accepted
      split at accepted
      · cases accepted
      · split at accepted
        · cases accepted
        · cases accepted
        · rename_i m' h'' found
          cases accepted
          rw [found] at retains config opened
          obtain ⟨stored, current⟩ := opened m rfl
          obtain ⟨state, stored'⟩ := m
          cases current
          obtain ⟨rotated, ends⟩ := rotate_frame stored id rotation saving
          have moved := (retains.trans rotated).mono fun peer here =>
            (⟨here.1, rotation, rfl, here.2⟩ : peer = id ∧ ∃ r, Command.rotate rotation = .rotate r ∧
              r.replaces = true ∧ saving.kept = true)
          split
          · rename_i e m ended
            rw [ended] at moved
            exact ⟨moved, config, fun _ impossible => (by cases impossible)⟩
          · rename_i m ended
            rw [ended] at moved ends
            refine ⟨moved, config, fun holder held => ?_⟩
            split at held
            · cases held
              exact ⟨m, rfl, congrArg some (ends rfl)⟩
            · cases held

/-- The move replaces the peer's active secret: a saved `apply`, `rollback` or repair. -/
def Supersedes (id : Nat) (m : Move Live Event) : Prop :=
  ∃ flight access rng saving cut rotation row, m.label = .opens flight access rng saving cut ∧
    m.before.flights[flight]? = some ⟨.rotate rotation, id, row⟩ ∧ rotation.replaces = true ∧
    saving.kept = true

/-- `serve` takes the secrets of its start, and the peer has one. -/
def Reads (id : Nat) (m : Move Live Event) : Prop :=
  m.label = .list ∧ ∃ manager configs, m.before.holder = some (.serve manager) ∧
    startupConfigs m.before.host manager = .ok configs ∧ managementPsks manager id ≠ none

/-- What holds between the steps: who has the lock has the store as it is, and what `serve` has
built carries the secrets it has read. -/
structure Inv (v : Live) : Prop where
  required : v.host.config.managementRequired = true
  held : ∀ holder, v.holder = some holder → ∃ m, (holder = .serve (some m) ∨
    ∃ id row, holder = .command (some m) id row) ∧ v.host.state = some m.state
  built : ∀ serving, v.serving = some serving → ∃ s, v.host.state = some s ∧
    ∀ configs, serving.startup = some configs → ∀ c ∈ configs,
      c.row.isDisabled = true ∨ c.id = s.serverId.val ∨
        (c.psk ≠ none ∧ c.psk = serving.managementPsks c.id)

/-- A step that leaves the store, takes no lock and builds nothing. -/
theorem Inv.same {v v' : Live} (inv : v.Inv) (state : v'.host.state = v.host.state)
    (config : v'.host.config = v.host.config)
    (holder : ∀ holder, v'.holder = some holder → v.holder = some holder)
    (serving : ∀ serving', v'.serving = some serving' → ∃ serving, v.serving = some serving ∧
      serving'.managementPsks = serving.managementPsks ∧
      (serving'.startup = serving.startup ∨ serving'.startup = none)) : v'.Inv := by
  refine ⟨config ▸ inv.required, fun h held => ?_, fun serving' served => ?_⟩
  · rw [state]
    exact inv.held h (holder h held)
  · obtain ⟨old, served', psks, startup⟩ := serving serving' served
    obtain ⟨s, stored, built⟩ := inv.built old served'
    refine ⟨s, state.trans stored, fun configs present c member => ?_⟩
    rcases startup with same | gone
    · rw [psks]
      exact built configs (same ▸ present) c member
    · rw [gone] at present
      cases present

theorem load_stored {h : Host} (required : h.config.managementRequired = true)
    {m : Option Manager} (loaded : Manager.load h = .ok m) :
    ∃ m', m = some m' ∧ h.state = some m'.state := by
  unfold Manager.load at loaded
  split at loaded
  · rw [if_pos required] at loaded
    cases loaded
  · rename_i vault there
    split at loaded
    · cases loaded
    · rename_i s inside
      split at loaded
      · cases loaded
      · simp only [bind_ok, require_ok] at loaded
        obtain ⟨_, -, loaded⟩ := loaded
        split at loaded
        · cases loaded
        · simp only [bind_ok, require_ok, pure_ok] at loaded
          obtain ⟨_, -, _, -, rfl⟩ := loaded
          refine ⟨_, rfl, ?_⟩
          rw [Host.state, there]
          exact inside

/-- A configuration built at the start carries the secret that was read, unless its peer is disabled
or the server. -/
theorem startupConfigs_psk {h : Host} {m : Manager} {configs : List PeerConfig}
    (made : startupConfigs h (some m) = .ok configs) : ∀ c ∈ configs,
      c.row.isDisabled = true ∨ c.id = m.state.serverId.val ∨
        (c.psk ≠ none ∧ c.psk = managementPsks (some m) c.id) := by
  intro c member
  obtain ⟨⟨id, row⟩, -, done⟩ := mapM_mem made c member
  split at done
  · unfold peerConfig at done
    split at done
    · cases done
    · rename_i link found
      cases done
      refine .inr (.inr ⟨Option.some_ne_none _, ?_⟩)
      simp only [managementPsks, Option.bind_some, found, Option.map_some]
  · rename_i plain
    cases done
    rw [not_and_or, not_not, Bool.not_eq_false] at plain
    exact plain.symm.imp_right .inl

theorem next_frame [Native] {v : Live} (inv : v.Inv) (e : Event) : (v.next e).Inv ∧
    Host.Retains (fun id => Supersedes id ⟨v, e, v.next e⟩) v.host (v.next e).host := by
  have kept : ∀ {v' : Live}, v'.host.state = v.host.state → v'.host.config = v.host.config →
      (∀ holder, v'.holder = some holder → v.holder = some holder) →
      (∀ serving', v'.serving = some serving' → ∃ serving, v.serving = some serving ∧
        serving'.managementPsks = serving.managementPsks ∧
        (serving'.startup = serving.startup ∨ serving'.startup = none)) →
      v'.Inv ∧ Host.Retains (fun id => Supersedes id ⟨v, e, v'⟩) v.host v'.host :=
    fun state config holder serving => ⟨inv.same state config holder serving, .same state⟩
  have served : ∀ serving', v.serving = some serving' → ∃ serving, v.serving = some serving ∧
      serving'.managementPsks = serving.managementPsks ∧
      (serving'.startup = serving.startup ∨ serving'.startup = none) :=
    fun s present => ⟨s, present, rfl, .inl rfl⟩
  cases e with
  | load =>
    unfold next
    dsimp only
    split
    · rename_i m free idle loaded
      obtain ⟨m', rfl, stored⟩ := load_stored inv.required loaded
      refine ⟨⟨inv.required, fun holder held => ?_, inv.built⟩, .same rfl⟩
      cases held
      exact ⟨m', .inl rfl, stored⟩
    · exact kept rfl rfl (fun _ held => held) served
  | list =>
    unfold next
    dsimp only
    split
    · rename_i m taken
      obtain ⟨m', same | ⟨_, _, impossible⟩, stored⟩ := inv.held _ taken
      · cases same
        split
        · exact kept rfl rfl (fun _ impossible => nomatch impossible) served
        · rename_i configs made
          refine ⟨⟨inv.required, fun _ impossible => (nomatch impossible), ?_⟩, .same rfl⟩
          rintro serving ⟨⟩
          refine ⟨m'.state, stored, ?_⟩
          rintro configs ⟨⟩
          exact startupConfigs_psk made
      · cases impossible
    · exact kept rfl rfl (fun _ held => held) served
  | up =>
    refine kept rfl rfl (fun _ held => held) fun serving' present => ?_
    obtain ⟨serving, there, rfl⟩ := Option.map_eq_some_iff.mp present
    exact ⟨serving, there, rfl, .inr rfl⟩
  | stop =>
    exact kept rfl rfl (fun _ held => (Option.filter_eq_some_iff.mp held).1)
      fun _ impossible => nomatch impossible
  | create contents =>
    unfold next
    dsimp only
    split <;> exact kept rfl rfl (fun _ held => held) served
  | redeem id publicKey now =>
    unfold next
    dsimp only
    split
    · rename_i s db running done
      refine kept rfl rfl (fun _ held => held) ?_
      rintro serving' ⟨⟩
      exact ⟨s, (Option.filter_eq_some_iff.mp running).1, rfl, .inl rfl⟩
    · exact kept rfl rfl (fun _ held => held) served
  | finish task =>
    refine kept rfl rfl (fun _ held => held) fun serving' present => ?_
    obtain ⟨serving, there, rfl⟩ := Option.map_eq_some_iff.mp present
    exact ⟨serving, there, rfl, .inl rfl⟩
  | addPeer contents keypair =>
    unfold next
    dsimp only
    split <;> exact kept rfl rfl (fun _ held => held) served
  | enablePeer id =>
    unfold next
    dsimp only
    split
    · exact kept rfl rfl (fun _ held => held) served
    · split <;> exact kept rfl rfl (fun _ held => held) served
  | rotate name rotation =>
    unfold next
    dsimp only
    split <;> exact kept rfl rfl (fun _ held => held) served
  | opens flight access rng saving cut =>
    unfold next
    dsimp only
    split
    · exact kept rfl rfl (fun _ held => held) served
    · rename_i f found
      split
      · exact kept rfl rfl (fun _ held => held) served
      · obtain ⟨retains, config, holds⟩ := work_frame inv.required f access rng saving cut
        generalize work v.host f access rng saving cut = worked at retains config holds
        obtain ⟨holder, host⟩ := worked
        refine ⟨⟨config ▸ inv.required, ?_, ?_⟩, ?_⟩
        · intro taken same
          obtain ⟨m, rfl, stored⟩ := holds taken same
          exact ⟨m, .inr ⟨_, _, rfl⟩, stored⟩
        · intro serving present
          obtain ⟨s, stored, built⟩ := inv.built serving present
          obtain ⟨s', stored', server, -⟩ := retains s stored
          exact ⟨s', stored', server.symm ▸ built⟩
        · refine retains.mono ?_
          rintro id ⟨rfl, rotation, same, replaces, saved⟩
          obtain ⟨command, id, row⟩ := f
          cases same
          exact ⟨flight, access, rng, saving, cut, rotation, row, rfl, found, replaces, saved⟩
  | push =>
    exact kept rfl rfl (fun _ held => (Option.filter_eq_some_iff.mp held).1) served
  | abandon =>
    exact kept rfl rfl (fun _ held => (Option.filter_eq_some_iff.mp held).1) served
  | abort flight => exact kept rfl rfl (fun _ held => held) served
  | prepare p =>
    unfold next
    dsimp only
    split
    · exact kept rfl rfl (fun _ held => held) served
    · rename_i free
      obtain ⟨retains, required⟩ := prepare_frame v.host p
      refine ⟨⟨required inv.required, ?_, ?_⟩, retains.mono fun _ impossible => impossible.elim⟩
      · intro taken same
        rw [Bool.not_eq_true, Option.isSome_eq_false_iff, Option.isNone_iff_eq_none] at free
        rw [show v.holder = some taken from same] at free
        cases free
      · intro serving present
        obtain ⟨s, stored, built⟩ := inv.built serving present
        obtain ⟨s', stored', server, -⟩ := retains s stored
        exact ⟨s', stored', server.symm ▸ built⟩
  | database op => exact kept rfl rfl (fun _ held => held) served

def Step [Native] (v : Live) (e : Event) (v' : Live) : Prop := v' = v.next e

/-- The configuration is of an enabled peer other than the server. -/
def Concerns (v : Live) (c : PeerConfig) : Prop :=
  c.row.isDisabled = false ∧ ∀ s, v.host.state = some s → c.id ≠ s.serverId.val

/-- An event, after the moves made so far, that configures no peer without a secret or with a
superseded one: no enabled peer is created over HTTP, and what `serve` still applies is for peers
whose secret it read and nothing replaced since. -/
def Careful (past : List (Move Live Event)) (v : Live) (e : Event) : Prop :=
  match e with
  | .create contents => contents.isDisabled = true
  | .up | .finish _ => ∀ c ∈ v.applies e, v.Concerns c → Since (Reads c.id) (Supersedes c.id) past
  | _ => True

/-- The configuration carries the secret that is active in the store. -/
def Carries (v : Live) (c : PeerConfig) : Prop :=
  ∃ s link, v.host.state = some s ∧ s.linkOf c.id = some link ∧ c.psk = some link.psk

variable [Native] {v t : Live} {ms : List (Move Live Event)}

theorem Inv.reached (run : Run Step v ms t) (inv : v.Inv) : t.Inv :=
  run.invariant inv fun _ e _ inv taken => taken ▸ (next_frame inv e).1

/-- The secrets `serve` has are those it had, unless it takes them just now. -/
theorem next_serving {v : Live} {e : Event} {serving' : Serving}
    (present : (v.next e).serving = some serving') :
    (∃ serving, v.serving = some serving ∧ serving'.managementPsks = serving.managementPsks) ∨
      e = .list ∧ ∃ m configs, v.holder = some (.serve m) ∧
        startupConfigs v.host m = .ok configs := by
  have left : v.serving = some serving' →
      ∃ serving, v.serving = some serving ∧ serving'.managementPsks = serving.managementPsks :=
    fun there => ⟨serving', there, rfl⟩
  have mapped : ∀ f : Serving → Serving, (∀ s, (f s).managementPsks = s.managementPsks) →
      v.serving.map f = some serving' →
      ∃ serving, v.serving = some serving ∧ serving'.managementPsks = serving.managementPsks := by
    intro f same there
    obtain ⟨serving, running, rfl⟩ := Option.map_eq_some_iff.mp there
    exact ⟨serving, running, same serving⟩
  cases e with
  | list =>
    unfold next at present
    dsimp only at present
    split at present
    · rename_i m taken
      split at present
      · exact .inl (left present)
      · rename_i configs made
        exact .inr ⟨rfl, m, configs, taken, made⟩
    · exact .inl (left present)
  | up => exact .inl (mapped (fun s => { s with startup := none }) (fun _ => rfl) present)
  | stop => cases present
  | finish task =>
    exact .inl (mapped (fun s => { s with tasks := s.tasks.eraseIdx task }) (fun _ => rfl) present)
  | redeem id publicKey now =>
    unfold next at present
    dsimp only at present
    split at present
    · rename_i s db running done
      cases present
      exact .inl ⟨s, (Option.filter_eq_some_iff.mp running).1, rfl⟩
    · exact .inl (left present)
  | load =>
    unfold next at present
    dsimp only at present
    split at present <;> exact .inl (left present)
  | create contents =>
    unfold next at present
    dsimp only at present
    split at present <;> exact .inl (left present)
  | addPeer contents keypair =>
    unfold next at present
    dsimp only at present
    split at present <;> exact .inl (left present)
  | enablePeer id =>
    unfold next at present
    dsimp only at present
    split at present
    · exact .inl (left present)
    · split at present <;> exact .inl (left present)
  | rotate name rotation =>
    unfold next at present
    dsimp only at present
    split at present <;> exact .inl (left present)
  | opens flight access rng saving cut =>
    unfold next at present
    dsimp only at present
    split at present
    · exact .inl (left present)
    · split at present <;> exact .inl (left present)
  | prepare p =>
    unfold next at present
    dsimp only at present
    split at present <;> exact .inl (left present)
  | _ => exact .inl (left present)

/-- A secret that was read and not replaced since is active, and is the one `serve` has. -/
theorem read_active (run : Run Step v ms t) (inv : v.Inv) {id : Nat}
    (since : Since (Reads id) (Supersedes id) ms) :
    ∃ s link, t.host.state = some s ∧ s.linkOf id = some link ∧
      ∀ serving, t.serving = some serving → serving.managementPsks id = some link.psk := by
  induction run with
  | start =>
    obtain ⟨past, m, rest, impossible, -⟩ := since
    exact absurd impossible.symm (by simp)
  | @move past a b e run taken ih =>
    subst taken
    have inv' := Inv.reached run inv
    obtain ⟨-, retains⟩ := next_frame inv' e
    -- What is read is what the store has, as long as `serve` holds the lock.
    have reads : ∀ {m configs}, a.holder = some (.serve m) → startupConfigs a.host m = .ok configs →
        (a.next .list).host = a.host ∧
          (a.next .list).serving = some ⟨managementPsks m, some configs, []⟩ ∧
          ∃ m', m = some m' ∧ a.host.state = some m'.state := by
      intro m configs taken made
      obtain ⟨m', same | ⟨_, _, impossible⟩, stored⟩ := inv'.held _ taken
      · cases same
        refine ⟨?_, ?_, m', rfl, stored⟩ <;> simp only [next, taken, made]
      · cases impossible
    rcases since.last with ⟨rfl, manager, configs, taken, made, known⟩ | ⟨since, kept⟩
    · obtain ⟨host, serving, m, rfl, stored⟩ := reads taken made
      simp only [managementPsks, Option.bind_some] at known
      obtain ⟨link, found⟩ := Option.ne_none_iff_exists'.mp
        (fun missing => known (by rw [missing]; rfl) : m.state.linkOf id ≠ none)
      refine ⟨m.state, link, host.symm ▸ stored, found, fun serving' present => ?_⟩
      cases serving.symm.trans present
      simp only [managementPsks, Option.bind_some, found, Option.map_some]
    · obtain ⟨s, link, stored, found, read⟩ := ih since
      obtain ⟨s', stored', -, links⟩ := retains s stored
      obtain ⟨link', found', moved | same⟩ := links id link found
      · exact absurd moved kept
      · refine ⟨s', link', stored', found', fun serving' present => ?_⟩
        rcases next_serving present with ⟨serving, there, psks⟩ | ⟨rfl, m, configs, taken, made⟩
        · rw [psks, read serving there, same]
        · obtain ⟨-, serving, m', rfl, stored''⟩ := reads taken made
          cases serving.symm.trans present
          cases stored.symm.trans stored''
          simp only [managementPsks, Option.bind_some, found, Option.map_some, same]

/-- In every run whose moves are careful, every configuration of an enabled peer that is applied
carries the peer's active secret. -/
theorem secrets_carried (required : v.host.config.managementRequired = true)
    (idle : v.holder = none) (stopped : v.serving = none) (run : Run Step v ms t)
    (careful : ∀ past m rest, ms = past ++ m :: rest → Careful past m.before m.label) :
    ∀ m ∈ ms, ∀ c ∈ m.before.applies m.label, m.before.Concerns c → m.before.Carries c := by
  have inv : v.Inv := ⟨required, fun _ held => (by rw [idle] at held; cases held),
    fun _ served => (by rw [stopped] at served; cases served)⟩
  intro m member c applied concerns
  obtain ⟨-, past, rest, same, prior⟩ := run.reached m member
  have inv' := Inv.reached prior inv
  have allowed := careful past m rest same
  obtain ⟨enabled, other⟩ := concerns
  obtain ⟨w, e, w'⟩ := m
  dsimp only at allowed applied inv' prior other ⊢
  cases e with
  | create contents =>
    unfold applies at applied
    dsimp only at applied
    split at applied
    · rename_i _ db _ made
      rw [Option.mem_toList, Option.map_eq_some_iff] at applied
      obtain ⟨row, present, rfl⟩ := applied
      obtain ⟨-, rfl⟩ := Host.createPeer_rows made
      cases (AList.lookup_insert _).symm.trans present
      cases (show contents.isDisabled = true from allowed).symm.trans enabled
    · cases applied
  | up =>
    obtain ⟨s, link, stored, found, read⟩ :=
      read_active prior inv (allowed c applied ⟨enabled, other⟩)
    unfold applies at applied
    dsimp only at applied
    cases served : w.serving with
    | none =>
      rw [served] at applied
      cases applied
    | some serving =>
      rw [served, Option.bind_some] at applied
      cases startup : serving.startup with
      | none =>
        rw [startup] at applied
        cases applied
      | some configs =>
        rw [startup, Option.getD_some] at applied
        obtain ⟨s', stored', built⟩ := inv'.built serving served
        rcases built configs startup c applied with off | server | ⟨-, psk⟩
        · cases off.symm.trans enabled
        · exact absurd server (other s' stored')
        · exact ⟨s, link, stored, found, psk.trans (read serving served)⟩
  | finish task =>
    obtain ⟨s, link, stored, found, read⟩ :=
      read_active prior inv (allowed c applied ⟨enabled, other⟩)
    unfold applies at applied
    dsimp only at applied
    split at applied
    · cases applied
    · rename_i serving running
      have served := (Option.filter_eq_some_iff.mp running).1
      rw [Option.mem_toList, Option.map_eq_some_iff] at applied
      obtain ⟨pending, -, rfl⟩ := applied
      exact ⟨s, link, stored, found, read serving served⟩
  | push =>
    unfold applies at applied
    dsimp only at applied
    split at applied
    · rename_i id row held
      obtain ⟨m, impossible | ⟨_, _, impossible⟩, -⟩ := inv'.held _ held
      · cases impossible
      · cases impossible
    · rename_i m id row held
      obtain ⟨m', impossible | ⟨_, _, here⟩, stored⟩ := inv'.held _ held
      · cases impossible
      · cases here
        rw [Option.mem_toList, toOption_some] at applied
        unfold peerConfig at applied
        split at applied
        · cases applied
        · rename_i link found
          cases applied
          exact ⟨m.state, link, stored, found, rfl⟩
    · cases applied
  | _ => cases applied

end Live

namespace Live

section Sample

open Arithmetic

attribute [local instance] native

/-- The host of the sample, with nothing running. -/
def idle : Live := ⟨Host.sample, [], none, none⟩

/-- `serve` starts and is up. -/
def started : List Event := [.load, .list, .up]

/-- A peer is added with a link, up to the write of the interface. -/
def added : List Event :=
  [.addPeer (Host.newcomer false) 9, .opens 0 true ⟨some 5, some 8⟩ .done none, .push]

/-- The active secret of a peer is replaced, up to the write of the interface. -/
def rotated (name : String) : List Event :=
  [.rotate name (.stage none ⟨some 21, some 22⟩), .opens 0 true ⟨none, none⟩ .done none,
    .rotate name .apply, .opens 0 true ⟨none, none⟩ .done none, .push]

/-- What an event configures after the given ones, beside the peer's active secret. -/
def outcome (past : List Event) (e : Event) : List (Nat × Option (Binary 32) × Option (Binary 32)) :=
  let v := past.foldl next idle
  (v.applies e).map fun c =>
    (c.id, c.psk, v.host.state.bind fun s => (s.linkOf c.id).map ManagementLink.psk)

/-- A peer created over HTTP has no secret on the interface; one that was added after the start of
`serve` loses its secret as it redeems its invitation; one whose secret was replaced after that start
gets the superseded one back as it redeems; and so does a peer whose secret was replaced between the
start and its write of the interface. -/
theorem secrets_lost :
    outcome started (.create (Host.newcomer false)) = [(4, none, none)] ∧
    outcome (started ++ added ++ [.redeem 4 (Key.toBase64 10) 0]) (.finish 0) =
      [(4, none, some 8)] ∧
    outcome (added ++ started ++ rotated "carol" ++ [.redeem 4 (Key.toBase64 10) 0]) (.finish 0) =
      [(4, some 8, some 22)] ∧
    (2, some 6, some 22) ∈ outcome ([.load, .list] ++ rotated "alice") .up := by
  refine ⟨?_, ?_, ?_, ?_⟩ <;> decide +kernel

/-- `serve` starts, and its peers have their secrets. -/
theorem secrets_carried_started : ∃ ms t, Run Step idle ms t ∧ ms.map Move.label = started ∧
    ∀ m ∈ ms, ∀ c ∈ m.before.applies m.label, m.before.Concerns c → m.before.Carries c := by
  obtain ⟨s, startable, -⟩ := Host.sample_startable
  obtain ⟨m, loaded⟩ := (Host.loads_iff Host.sample).mpr ⟨s, startable⟩
  have first : idle.next .load = { idle with holder := some (.serve (some m)) } := by
    simp only [next, idle, loaded]
  obtain ⟨configs, made⟩ : ∃ configs, startupConfigs Host.sample (some m) = .ok configs := by
    have succeeds : ((Manager.load Host.sample).toOption.bind fun m =>
        (startupConfigs Host.sample m).toOption).isSome = true := by decide +kernel
    rw [loaded] at succeeds
    obtain ⟨configs, made⟩ := Option.isSome_iff_exists.mp succeeds
    exact ⟨configs, toOption_some.mp made⟩
  have second : (idle.next .load).next .list =
      ⟨Host.sample, [], none, some ⟨managementPsks (some m), some configs, []⟩⟩ := by
    rw [first]
    simp only [next, idle, made]
  have run : Run Step idle [⟨idle, .load, idle.next .load⟩,
      ⟨idle.next .load, .list, (idle.next .load).next .list⟩,
      ⟨(idle.next .load).next .list, .up, ((idle.next .load).next .list).next .up⟩]
      (((idle.next .load).next .list).next .up) := trace_run next idle started
  refine ⟨_, _, run, rfl, secrets_carried rfl rfl rfl run ?_⟩
  intro past move rest same
  have place : past.length < 3 := by
    have sizes := congrArg List.length same
    simp only [List.length_append, List.length_cons, List.length_nil] at sizes
    omega
  rcases past with _ | ⟨x, _ | ⟨y, _ | ⟨z, past⟩⟩⟩
  · cases same
    trivial
  · cases same
    trivial
  · cases same
    intro c applied concerns
    have member : c ∈ configs := by
      rw [second] at applied
      exact applied
    have psk : managementPsks (some m) c.id ≠ none := by
      rcases startupConfigs_psk made c member with off | server | ⟨known, read⟩
      · cases off.symm.trans concerns.1
      · obtain ⟨m', same, stored⟩ := load_stored rfl loaded
        cases same
        rw [second] at concerns
        exact absurd server (concerns.2 m.state stored)
      · exact read ▸ known
    have taken : (idle.next .load).holder = some (.serve (some m)) := by rw [first]
    have read : Reads c.id ⟨idle.next .load, .list, (idle.next .load).next .list⟩ := by
      refine ⟨rfl, some m, configs, taken, ?_, psk⟩
      dsimp only
      rw [first]
      exact made
    exact ⟨[⟨idle, .load, idle.next .load⟩], _, [], rfl, read, fun _ none_ => nomatch none_⟩
  · simp only [List.length_cons] at place
    omega

end Sample

end Live

end Innernet
