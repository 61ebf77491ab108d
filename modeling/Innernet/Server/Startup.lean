import Innernet.Arithmetic
import Innernet.Server.Host
import Innernet.Server.Rows

/-! Whether the server can start again. `Manager::load` asks for a link for every enabled peer;
links and peers are written by different commands, and a command may end between the two. -/
namespace Innernet

open Fallible Tables Runs Database

namespace Host

def state (h : Host) : Option ServerState := h.vault.bind Vault.state

/-- What `Manager::load` asks of the state it finds. -/
structure Startable (h : Host) (s : ServerState) : Prop where
  stored : h.state = some s
  valid : s.validate = .ok ()
  networkId : s.networkId = h.db.network.networkId
  publicKey : s.serverPublicKey = h.config.publicKey
  server : ∃ row, h.db.peers.lookup s.serverId.val = some row ∧ row.isServer = true
  linked : ∀ id row, h.db.peers.lookup id = some row →
    row.isDisabled = true ∨ id = s.serverId.val ∨ s.linkOf id ≠ none

/-- `Manager::load` succeeds with a manager. -/
def Loads (h : Host) : Prop := ∃ m, Manager.load h = .ok (some m)

theorem loads_iff (h : Host) : h.Loads ↔ ∃ s, h.Startable s := by
  unfold Loads Manager.load
  constructor
  · rintro ⟨m, done⟩
    split at done
    · split at done <;> cases done
    · rename_i vault open_
      split at done
      · cases done
      · rename_i s stored
        split at done
        · cases done
        · rename_i valid
          simp only [bind_ok, require_ok] at done
          obtain ⟨_, ⟨networkId, publicKey⟩, done⟩ := done
          split at done
          · cases done
          · rename_i isServer found
            simp only [bind_ok, require_ok, pure_ok] at done
            obtain ⟨_, server, ⟨⟩, each, -⟩ := done
            have linked := forM_ok.mp each
            refine ⟨s, ?_, valid, networkId, publicKey, ?_, ?_⟩
            · rw [state, open_]
              exact stored
            · unfold serverRow at found
              split at found
              · cases found
              · rename_i row present
                cases found
                exact ⟨row, present, server⟩
            · intro id row present
              exact require_ok.mp (linked ⟨id, row⟩ (mem_listPeers.mpr present))
  · rintro ⟨s, startable⟩
    obtain ⟨vault, open_, stored⟩ := Option.bind_eq_some_iff.mp startable.stored
    obtain ⟨row, present, server⟩ := startable.server
    refine ⟨⟨s, s⟩, ?_⟩
    have found : h.db.serverRow s.serverId.val = .ok true := by
      rw [serverRow, present]
      exact congrArg Except.ok server
    simp only [open_, stored, startable.valid, found]
    simp only [bind_ok, require_ok, pure_ok]
    refine ⟨⟨⟩, ⟨startable.networkId, startable.publicKey⟩, ⟨⟩, trivial, ⟨⟩, ?_, trivial⟩
    refine forM_ok.mpr ?_
    rintro ⟨id, row⟩ listed
    exact require_ok.mpr (startable.linked id row (mem_listPeers.mp listed))

theorem Startable.unique {h : Host} {s s' : ServerState} (startable : h.Startable s)
    (startable' : h.Startable s') : s = s' :=
  Option.some.inj (startable.stored.symm.trans startable'.stored)

/-- The peer has a link in the store, or is the server itself. -/
def Held (h : Host) (id : Nat) : Prop :=
  ∃ s, h.state = some s ∧ (id = s.serverId.val ∨ s.linkOf id ≠ none)

theorem Startable.held {h : Host} {s : ServerState} (startable : h.Startable s) {id : Nat} :
    h.Held id ↔ id = s.serverId.val ∨ s.linkOf id ≠ none := by
  constructor
  · rintro ⟨s', stored, holds⟩
    cases Option.some.inj (startable.stored.symm.trans stored)
    exact holds
  · exact fun holds => ⟨s, startable.stored, holds⟩

/-- Another database beside the same store. -/
def on (h : Host) (db : Database) : Host := { h with db }

theorem Startable.on {h : Host} {s : ServerState} (startable : h.Startable s) {db : Database}
    (networkId : db.network.networkId = h.db.network.networkId) :
    (h.on db).Loads ↔
      (∃ row, db.peers.lookup s.serverId.val = some row ∧ row.isServer = true) ∧
      ∀ id row, db.peers.lookup id = some row → row.isDisabled = true ∨ h.Held id := by
  rw [loads_iff]
  constructor
  · rintro ⟨s', startable'⟩
    obtain rfl : s = s' := Option.some.inj (startable.stored.symm.trans startable'.stored)
    refine ⟨startable'.server, fun id row present => ?_⟩
    rw [startable.held]
    exact startable'.linked id row present
  · rintro ⟨server, linked⟩
    refine ⟨s, startable.stored, startable.valid, ?_, startable.publicKey, server, ?_⟩
    · exact startable.networkId.trans networkId.symm
    · intro id row present
      rw [← startable.held]
      exact linked id row present

theorem Startable.rows {h : Host} {s : ServerState} (startable : h.Startable s) :
    (∃ row, h.db.peers.lookup s.serverId.val = some row ∧ row.isServer = true) ∧
      ∀ id row, h.db.peers.lookup id = some row → row.isDisabled = true ∨ h.Held id := by
  refine ⟨startable.server, fun id row present => ?_⟩
  rw [startable.held]
  exact startable.linked id row present

/-- Writing one row, which keeps the mark of the server, asks for a link if the row is enabled. -/
theorem Startable.insert {h : Host} {s : ServerState} (startable : h.Startable s) {id : Nat}
    {row : PeerRow} (server : ∀ old, h.db.peers.lookup id = some old → old.isServer = true →
      row.isServer = true) :
    ((∃ r, (h.db.peers.insert id row).lookup s.serverId.val = some r ∧ r.isServer = true) ∧
      ∀ k r, (h.db.peers.insert id row).lookup k = some r → r.isDisabled = true ∨ h.Held k) ↔
      (row.isDisabled = true ∨ h.Held id) := by
  obtain ⟨⟨found, present, marked⟩, linked⟩ := startable.rows
  constructor
  · rintro ⟨-, linked⟩
    exact linked id row (AList.lookup_insert _)
  · intro here
    constructor
    · rw [lookup_insert_eq]
      split
      · rename_i same
        exact ⟨row, rfl, server found (same ▸ present) marked⟩
      · exact ⟨found, present, marked⟩
    · intro k r written
      rw [lookup_insert_eq] at written
      split at written
      · rename_i same
        cases written
        exact same ▸ here
      · exact linked k r written

/-- An operation that the server may make without losing its way to start again: who is enabled has
a link, and the server's own row is not among the expired. -/
def Provides (h : Host) : Operation → Prop
  | .createPeer contents => ∀ db, h.db.createPeer contents = .ok db →
      contents.isDisabled = true ∨ h.Held (h.db.network.maxPeerId + 1)
  | .updatePeer id name isDisabled => ∀ db, h.db.updatePeer id name isDisabled = .ok db →
      h.db.peers.lookup id ≠ none → isDisabled = true ∨ h.Held id
  | .deleteExpiredInvites now => ∀ s row, h.state = some s →
      h.db.peers.lookup s.serverId.val = some row → row.expired now = false
  | _ => True

section Operations

variable [Native] {h : Host} {s : ServerState}

omit [Native] in
theorem createPeer_rows {db db' : Database} {contents : PeerRow}
    (done : db.createPeer contents = .ok db') :
    db.peers.lookup (db.network.maxPeerId + 1) = none ∧ db' = { db.touch 1 with
      peers := db.peers.insert (db.network.maxPeerId + 1) { contents with isServer := false }
      network := { (db.touch 1).network with maxPeerId := db.network.maxPeerId + 1 } } := by
  simp only [Database.createPeer, bind_ok, require_ok, pure_ok] at done
  obtain ⟨_, _, _, ⟨absent, -⟩, rfl⟩ := done
  exact ⟨absent, rfl⟩

theorem updatePeer_rows {db db' : Database} (sound : db.Sound) {id : Nat} {name : String}
    {isDisabled : Bool} {row : PeerRow} (found : db.peers.lookup id = some row)
    (done : db.updatePeer id name isDisabled = .ok db') :
    db'.peers = db.peers.insert id { row with name, isDisabled } := by
  simp only [Database.updatePeer, bind_ok] at done
  obtain ⟨updated, written, done⟩ := done
  have sound' := (writeContents_widens sound written).2
  have rows : updated.peers = db.peers.insert id { row with name, isDisabled } := by
    rw [writeContents, found] at written
    simp only [bind_ok, pure_ok] at written
    obtain ⟨_, _, rfl⟩ := written
    rfl
  split at done
  · rw [(terminatePeer_ok sound' done).1.directory.peers]
    exact rows
  · cases done
    exact rows

/-- Whether the server starts again after an operation on its database. -/
theorem Startable.operation (startable : h.Startable s) (sound : h.db.Sound) (op : Operation) :
    (h.on (op.apply h.db)).Loads ↔ h.Provides op := by
  have rewritten := op.rewritten sound
  have rows := startable.rows
  rw [startable.on rewritten.networkId]
  cases op with
  | createPeer contents =>
    change _ ↔ ∀ db, _ → _
    cases done : h.db.createPeer contents with
    | error e =>
      have left : (Operation.createPeer contents).apply h.db = h.db := congrArg h.db.commit done
      rw [left]
      exact ⟨fun _ _ impossible => (nomatch impossible), fun _ => rows⟩
    | ok db =>
      have made : (Operation.createPeer contents).apply h.db = db := congrArg h.db.commit done
      obtain ⟨absent, rfl⟩ := createPeer_rows done
      rw [made]
      refine (startable.insert fun old present => ?_).trans ?_
      · rw [absent] at present
        cases present
      · exact ⟨fun here _ _ => here, fun here => here _ rfl⟩
  | updatePeer id name isDisabled =>
    change _ ↔ ∀ db, _ → _
    cases done : h.db.updatePeer id name isDisabled with
    | error e =>
      have left : (Operation.updatePeer id name isDisabled).apply h.db = h.db :=
        congrArg h.db.commit done
      rw [left]
      exact ⟨fun _ _ impossible => (nomatch impossible), fun _ => rows⟩
    | ok db =>
      have made : (Operation.updatePeer id name isDisabled).apply h.db = db :=
        congrArg h.db.commit done
      rw [made] at rewritten ⊢
      cases found : h.db.peers.lookup id with
      | none =>
        have left : db.peers = h.db.peers := by
          have cases_ := rewritten.rows
          generalize db.peers = peers at cases_ ⊢
          cases cases_ with
          | same => rfl
          | updated present =>
            rw [found] at present
            cases present
        rw [left]
        exact ⟨fun _ _ _ absent => absurd rfl absent, fun _ => rows⟩
      | some row =>
        rw [updatePeer_rows sound found done]
        refine (startable.insert fun old present marked => ?_).trans ?_
        · rw [found] at present
          cases present
          exact marked
        · exact ⟨fun here _ _ _ => here, fun here => here _ rfl (by simp)⟩
  | deleteExpiredInvites now =>
    change (∃ row, (keep _ _).lookup _ = _ ∧ _) ∧ (∀ id row, (keep _ _).lookup _ = _ → _) ↔
      ∀ s row, _ → _ → _
    obtain ⟨⟨found, present, marked⟩, linked⟩ := rows
    simp only [lookup_keep, Option.filter_eq_some_iff, Bool.not_eq_true']
    constructor
    · rintro ⟨⟨row, ⟨present', kept⟩, -⟩, -⟩ s' row' stored there
      cases Option.some.inj (startable.stored.symm.trans stored)
      cases Option.some.inj (present'.symm.trans there)
      exact kept
    · intro unexpired
      exact ⟨⟨found, ⟨present, unexpired s found startable.stored present⟩, marked⟩,
        fun id row there => linked id row there.1⟩
  | disablePeer id =>
    have cases_ := rewritten.rows
    refine iff_of_true ?_ trivial
    generalize ((Operation.disablePeer id).apply h.db).peers = peers at cases_
    cases cases_ with
    | same => exact rows
    | disabled stored =>
      refine (startable.insert fun old present marked => ?_).mpr (.inl rfl)
      rw [stored] at present
      cases present
      exact marked
  | redeemPeer id publicKey now =>
    have cases_ := rewritten.rows
    refine iff_of_true ?_ trivial
    generalize ((Operation.redeemPeer id publicKey now).apply h.db).peers = peers at cases_
    cases cases_ with
    | same => exact rows
    | redeemed stored unredeemed accepted =>
      have enabled := rows.2 id _ stored
      refine (startable.insert fun old present marked => ?_).mpr enabled
      rw [stored] at present
      cases present
      exact marked
  | identifyServer publicKey ip =>
    have cases_ := rewritten.rows
    refine iff_of_true ?_ trivial
    generalize ((Operation.identifyServer publicKey ip).apply h.db).peers = peers at cases_
    cases cases_ with
    | same => exact rows
    | identified stored =>
      have enabled := rows.2 _ _ stored
      exact (startable.insert fun _ _ _ => rfl).mpr enabled
  | _ =>
    have cases_ := rewritten.rows
    refine iff_of_true ?_ trivial
    generalize (Operation.apply _ h.db).peers = peers at cases_ ⊢
    cases cases_
    exact rows

omit [Native] in
/-- With the server's row marked, `identify_server` finds that row or nothing, and writes nothing. -/
theorem identify_same {id : Nat} {row : PeerRow} (present : h.db.peers.lookup id = some row)
    (marked : row.isServer = true) : h.identify.2 = h := by
  have same : ∀ {publicKey ip db}, h.db.identifyServer publicKey ip = .ok db → db = h.db := by
    intro publicKey ip db done
    unfold Database.identifyServer at done
    split at done
    · cases done
    · rename_i id' rest identified
      simp only [bind_ok, require_ok] at done
      obtain ⟨row', read, _, single, done⟩ := done
      have only : id = id' := by
        have others := (any_eq_false _ _).mp single id row present
        rw [marked, Bool.true_and, decide_eq_false_iff_not, not_not] at others
        exact others
      subst only
      obtain rfl : row = row' := by
        rw [Database.getPeer, present] at read
        exact Except.ok.inj read
      rw [if_pos marked] at done
      exact (Except.ok.inj done).symm
  unfold identify
  dsimp only
  split
  · rename_i db id' rest done found
    rw [same done]
  · rfl
  · rfl

omit [Native] in
/-- On a host with a store `open_or_create` opens it and changes nothing. -/
theorem openOrCreate_same (required : h.config.managementRequired = true) {s : ServerState}
    (stored : h.state = some s) {id : Nat} {row : PeerRow}
    (present : h.db.peers.lookup id = some row) (marked : row.isServer = true)
    (cut : Option Cut) : (h.openOrCreate cut).2 = h ∧
      ((h.openOrCreate cut).1 = .ok (some ⟨s, s⟩) ∨ ∃ e, (h.openOrCreate cut).1 = .error e) := by
  obtain ⟨vault, open_, inside⟩ := Option.bind_eq_some_iff.mp stored
  have same := identify_same present marked
  have opened : ∀ id, h.reopen vault id = .ok ⟨s, s⟩ ∨ ∃ e, h.reopen vault id = .error e := by
    intro id
    simp only [reopen, inside]
    split
    · exact .inr ⟨_, rfl⟩
    · rcases ok_or_error (do
        require (s.networkId = h.db.network.networkId ∧ s.serverPublicKey = h.config.publicKey ∧
          s.serverId.val = id) Manager.mismatch
        return (⟨s, s⟩ : Manager)) with ⟨m, done⟩ | failed
      · have checked := done
        simp only [bind_ok, require_ok, pure_ok] at done
        obtain ⟨_, -, rfl⟩ := done
        exact .inl checked
      · exact .inr failed
  unfold openOrCreate
  rw [if_neg (not_not.mpr required)]
  split
  · rename_i e h' found
    have left : h' = h := by rw [← same, found]
    exact ⟨left, .inr ⟨e, rfl⟩⟩
  · rename_i serverId h' found
    obtain rfl : h' = h := by rw [← same, found]
    split
    · exact ⟨rfl, .inr ⟨_, rfl⟩⟩
    · rw [open_]
      refine ⟨rfl, ?_⟩
      rcases opened serverId with done | ⟨e, failed⟩
      · exact .inl (congrArg (Except.map some) done)
      · exact .inr ⟨e, congrArg (Except.map some) failed⟩

end Operations

end Host

namespace ServerState

theorem validate_ok {s : ServerState} : s.validate = .ok () ↔
    s.links.entries.length ≤ 10000 ∧ s.link s.serverId = none ∧
      ∀ peer link, s.link peer = some link → link.psk ≠ 0 := by
  simp only [validate, bind_ok, require_ok, any_eq_false, decide_eq_false_iff_not, not_or,
    not_lt, not_not]
  constructor
  · rintro ⟨_, ⟨few, other⟩, nonzero⟩
    exact ⟨few, other, nonzero⟩
  · rintro ⟨few, other, nonzero⟩
    exact ⟨⟨⟩, ⟨few, other⟩, nonzero⟩

/-- A link in the place of another. -/
theorem validate_setLink {s : ServerState} (valid : s.validate = .ok ()) {peer : Number}
    {link : ManagementLink} (found : s.link peer ≠ none) :
    (s.setLink peer link).validate = .ok () ↔ link.psk ≠ 0 := by
  obtain ⟨few, other, nonzero⟩ := validate_ok.mp valid
  rw [validate_ok]
  constructor
  · rintro ⟨-, -, nonzero'⟩
    exact nonzero' peer link (by rw [link_setLink, if_pos rfl])
  · intro here
    refine ⟨?_, ?_, ?_⟩
    · have known : peer ∈ s.links := AList.lookup_isSome.mp (Option.isSome_iff_ne_none.mpr found)
      change (s.links.insert peer link).entries.length ≤ 10000
      have size := AList.keys_insert (a := peer) (b := link) s.links
      have lengths : (s.links.insert peer link).entries.length = s.links.entries.length := by
        have counted := congrArg List.length size
        have listed : peer ∈ s.links.keys := AList.mem_keys.mp known
        rw [List.length_cons, List.length_erase_of_mem listed] at counted
        have positive := List.length_pos_of_mem listed
        simp only [AList.keys, List.keys, List.length_map] at counted positive
        omega
      rw [lengths]
      exact few
    · rw [link_setLink, if_neg]
      · exact other
      · rintro same
        exact found (same ▸ other)
    · intro peer' link' present
      rw [link_setLink] at present
      split at present
      · cases present
        exact here
      · exact nonzero peer' link' present

/-- A provisioned state is valid, and has the link. -/
theorem provision_valid {s s' : ServerState} (valid : s.validate = .ok ()) {peer : Number}
    {adopted : Option (Binary 32)} {rng : Entropy} (done : s.provision peer adopted rng = .ok s') :
    s'.validate = .ok () ∧ s'.networkId = s.networkId ∧ s'.serverId = s.serverId ∧
      s'.serverPublicKey = s.serverPublicKey ∧
      ∀ p, s.link p ≠ none ∨ p = peer → s'.link p ≠ none := by
  obtain ⟨few, other, nonzero⟩ := validate_ok.mp valid
  have apart : peer ≠ s.serverId := by
    simp only [provision, bind_ok, require_ok] at done
    obtain ⟨_, apart, -⟩ := done
    exact apart
  rcases provision_ok done with ⟨rfl, found⟩ | ⟨link, absent, -, rfl⟩
  · refine ⟨valid, rfl, rfl, rfl, ?_⟩
    rintro p (present | rfl)
    · exact present
    · exact found
  · simp only [provision, absent, bind_ok, require_ok, pure_ok, ManagementLink.validate] at done
    obtain ⟨_, -, _, room, made, generated, _, good, same⟩ := done
    have written := congrArg (fun t : ServerState => t.link peer) same
    simp only [link_setLink, if_true, Option.some.injEq] at written
    subst written
    refine ⟨validate_ok.mpr ⟨?_, ?_, ?_⟩, rfl, rfl, rfl, ?_⟩
    · change (s.links.insert peer _).entries.length ≤ 10000
      rw [AList.entries_insert_of_notMem (AList.lookup_eq_none.mp absent), List.length_cons]
      omega
    · rw [link_setLink, if_neg]
      · exact other
      · exact fun same => apart same.symm
    · intro p link' present
      rw [link_setLink] at present
      split at present
      · cases present
        exact good
      · exact nonzero p link' present
    · rintro p (present | rfl)
      · rw [link_setLink]
        split
        · exact Option.some_ne_none _
        · exact present
      · rw [link_setLink, if_pos rfl]
        exact Option.some_ne_none _

end ServerState

namespace Manager

/-- The store after a rotation of a peer's link that succeeds and is saved, and otherwise. -/
theorem rotate_stored (s : ServerState) (id : Nat) (rotation : Rotation) (saving : Saving) :
    ((⟨s, s⟩ : Manager).rotate id rotation saving).2.stored = s ∨
      ∃ peer link changed, Number.new id = .ok peer ∧ s.link peer = some link ∧
        link.rotate rotation = .ok changed ∧ saving.kept = true ∧
        ((⟨s, s⟩ : Manager).rotate id rotation saving).2.stored = s.setLink peer changed := by
  have persisted : ∀ changed, ((⟨s, s⟩ : Manager).persist changed saving).2.stored =
      if saving.kept then changed else s := by
    intro changed
    cases saving <;> rfl
  unfold rotate
  split
  · rename_i verify
    subst verify
    unfold markVerified
    split
    · exact .inl rfl
    · rename_i peer named
      split
      · exact .inl rfl
      · rename_i link found
        split
        · exact .inl rfl
        · rw [persisted]
          split
          · rename_i kept
            exact .inr ⟨peer, link, _, named, found, rfl, kept, rfl⟩
          · exact .inl rfl
  · split
    · exact .inl rfl
    · rename_i peer named
      split
      · exact .inl rfl
      · rename_i changed done
        obtain ⟨link, link', found, acted, rfl⟩ := ServerState.linkMut_ok done
        rw [persisted]
        split
        · rename_i kept
          exact .inr ⟨peer, link, link', named, found, acted, kept, rfl⟩
        · exact .inl rfl

/-- An operation other than a verification that succeeds on the link is in the store once saved. -/
theorem rotate_done {s : ServerState} {id : Nat} {rotation : Rotation} {saving : Saving}
    (moves : rotation ≠ .verify) {peer : Number} (named : Number.new id = .ok peer)
    (other : peer ≠ s.serverId) {link changed : ManagementLink} (found : s.link peer = some link)
    (acted : link.rotate rotation = .ok changed) (kept : saving.kept = true) :
    ((⟨s, s⟩ : Manager).rotate id rotation saving).2.stored = s.setLink peer changed := by
  have done : s.linkMut peer (fun link => link.rotate rotation) =
      .ok (s.setLink peer changed) := by
    simp only [ServerState.linkMut, found, bind_ok, require_ok, pure_ok]
    exact ⟨⟨⟩, other, changed, acted, rfl⟩
  unfold rotate
  rw [if_neg moves]
  simp only [named, done]
  cases saving
  · rfl
  · cases kept
  · rfl

end Manager

namespace Rotation

/-- The rotation makes no zero secret active. -/
def Nonzero (link : ManagementLink) : Rotation → Prop
  | .apply => ∀ staged, link.staged = some staged → staged.psk ≠ 0
  | .rollback => ∀ previous, link.previous = some previous → previous.psk ≠ 0
  | _ => True

theorem nonzero_iff {link changed : ManagementLink} {rotation : Rotation} (active : link.psk ≠ 0)
    (acted : link.rotate rotation = .ok changed) : changed.psk ≠ 0 ↔ rotation.Nonzero link := by
  cases rotation with
  | stage adopted rng =>
    refine iff_of_true ?_ trivial
    simp only [ManagementLink.rotate, ManagementLink.stageRotation] at acted
    split at acted
    · simp only [bind_ok, require_ok, pure_ok] at acted
      obtain ⟨_, _, rfl⟩ := acted
      exact active
    · simp only [bind_ok, pure_ok] at acted
      obtain ⟨_, _, _, _, rfl⟩ := acted
      exact active
  | apply =>
    simp only [ManagementLink.rotate, ManagementLink.applyRotation] at acted
    split at acted
    · cases acted
    · rename_i staged found
      cases acted
      simp [Nonzero, found]
  | verify =>
    cases acted
    exact iff_of_true active trivial
  | confirm =>
    simp only [ManagementLink.rotate, ManagementLink.confirmRotation, bind_ok, require_ok,
      pure_ok] at acted
    obtain ⟨_, _, _, _, rfl⟩ := acted
    exact iff_of_true active trivial
  | rollback =>
    simp only [ManagementLink.rotate, ManagementLink.rollbackRotation] at acted
    split at acted
    · cases acted
    · rename_i previous found
      cases acted
      simp [Nonzero, found]
  | force secret rng =>
    refine iff_of_true ?_ trivial
    simp only [ManagementLink.rotate, ManagementLink.forceActive, StagedLink.validate, bind_ok,
      require_ok, pure_ok] at acted
    obtain ⟨_, _, _, nonzero, rfl⟩ := acted
    exact nonzero

end Rotation

namespace Host

/-- What is done to a host. -/
inductive Request where
  | database (op : Operation)
  | addPeer (contents : PeerRow) (keypair : Binary 32) (rng : Entropy) (cut : Option Cut)
  | enableOrDisablePeer (enable : Bool) (id : Nat) (cut : Option Cut)
  | rotate (name : String) (independentAdminAccess : Bool) (rotation : Rotation)
      (saving : Saving) (cut : Option Cut)

def apply [Native] (h : Host) : Request → Host
  | .database op => h.on (op.apply h.db)
  | .addPeer contents keypair rng cut => (h.addPeer contents keypair rng cut).2
  | .enableOrDisablePeer enable id cut => (h.enableOrDisablePeer enable id cut).2
  | .rotate name independentAdminAccess rotation saving cut =>
    (h.rotate name independentAdminAccess rotation saving cut).2

/-- Nothing fails and nothing is cut short between the row of the new peer, in `db`, and the save of
its link. -/
def Links (h : Host) (db : Database) (rng : Entropy) (cut : Option Cut) : Prop :=
  cut ≠ some .created ∧ cut ≠ some .opened ∧ cut ≠ some .saving ∧
    ∃ m state, ((h.on db).openOrCreate cut).1 = .ok (some m) ∧
      (Number.new (h.db.network.maxPeerId + 1) >>= fun id => m.state.provision id none rng) =
        .ok state

/-- A request after which the server can start again. -/
def Careful (h : Host) : Request → Prop
  | .database op => h.Provides op
  | .addPeer contents keypair rng cut => ∀ db,
      h.db.createPeer (newPeerContents contents keypair) = .ok db →
      h.Held (h.db.network.maxPeerId + 1) ∨ h.Links db rng cut
  | .enableOrDisablePeer enable id _ => ∀ row db, h.db.peers.lookup id = some row →
      h.db.updatePeer id row.name (!enable) = .ok db → enable = false ∨ h.Held id
  | .rotate name independentAdminAccess rotation saving cut => ∀ id m,
      h.findPeerByName name = .ok id →
      (h.requiredManagement independentAdminAccess cut).1 = .ok m → saving.kept = true →
      ∀ link, m.state.linkOf id = some link → rotation.Nonzero link

section Steps

variable {h : Host} {s : ServerState}

theorem put_state (h : Host) (state : ServerState) : (h.put state).state = some state := rfl

theorem put_same (stored : h.state = some s) : h.put s = h := by
  obtain ⟨vault, open_, inside⟩ := Option.bind_eq_some_iff.mp stored
  obtain ⟨state, artifacts⟩ := vault
  cases inside
  unfold put
  rw [open_]
  obtain ⟨config, db, vault⟩ := h
  cases open_
  rfl

theorem addPeer_refused {contents : PeerRow} {keypair : Binary 32} {rng : Entropy}
    {cut : Option Cut} {e : ServerError}
    (refused : h.db.createPeer (newPeerContents contents keypair) = .error e) :
    (h.addPeer contents keypair rng cut).2 = h := by
  unfold addPeer
  rw [refused]

/-- How `add_peer` ends once the row is there: with the link saved, or with the row alone. -/
theorem addPeer_ends (startable : h.Startable s) (required : h.config.managementRequired = true)
    {contents : PeerRow} {keypair : Binary 32} (rng : Entropy) (cut : Option Cut) {db : Database}
    (done : h.db.createPeer (newPeerContents contents keypair) = .ok db) :
    (¬ h.Links db rng cut ∧ (h.addPeer contents keypair rng cut).2 = h.on db) ∨
      h.Links db rng cut ∧ ∃ state,
        (Number.new (h.db.network.maxPeerId + 1) >>= fun id => s.provision id none rng) =
          .ok state ∧
        ((h.addPeer contents keypair rng cut).2 = (h.on db).put state ∨
          (h.addPeer contents keypair rng cut).2 =
            ((h.on db).put state).on (db.setManagementReady true)) := by
  obtain ⟨row, present, marked⟩ := startable.server
  have still : (h.on db).db.peers.lookup s.serverId.val = some row := by
    obtain ⟨absent, rfl⟩ := createPeer_rows done
    change (h.db.peers.insert _ _).lookup _ = _
    rw [lookup_insert_eq, if_neg, present]
    rintro same
    rw [← same, present] at absent
    cases absent
  obtain ⟨same, opened⟩ :=
    openOrCreate_same (h := h.on db) required startable.stored still marked cut
  unfold addPeer
  rw [done]
  dsimp only
  split
  · rename_i here
    exact .inl ⟨fun links => links.1 here, rfl⟩
  · rename_i uncreated
    split
    · rename_i e h' found
      change (h.on db).openOrCreate cut = _ at found
      rw [found] at same
      refine .inl ⟨?_, same⟩
      rintro ⟨-, -, -, m, _, gone, -⟩
      rw [found] at gone
      cases gone
    · rename_i h' found
      change (h.on db).openOrCreate cut = _ at found
      rw [found] at opened
      rcases opened with impossible | ⟨_, impossible⟩ <;> cases impossible
    · rename_i m h' found
      change (h.on db).openOrCreate cut = _ at found
      rw [found] at same opened
      obtain rfl : h' = h.on db := same
      obtain rfl : m = ⟨s, s⟩ := by
        rcases opened with same | ⟨_, impossible⟩
        · exact Option.some.inj (Except.ok.inj same)
        · cases impossible
      split
      · rename_i here
        exact .inl ⟨fun links => links.2.1 here, rfl⟩
      · rename_i unopened
        change _ ∧ ((h.on db).provisionNewPeer ⟨s, s⟩ _ rng cut).2 = _ ∨ _ ∧ ∃ state, _ ∧
          (((h.on db).provisionNewPeer ⟨s, s⟩ _ rng cut).2 = _ ∨
            ((h.on db).provisionNewPeer ⟨s, s⟩ _ rng cut).2 = _)
        unfold provisionNewPeer
        split
        · rename_i e refused
          refine .inl ⟨?_, rfl⟩
          rintro ⟨-, -, -, m, state, gone, made⟩
          rw [found] at gone
          cases gone
          cases refused.symm.trans made
        · rename_i state made
          split
          · rename_i here
            exact .inl ⟨fun links => links.2.2.1 here, rfl⟩
          · rename_i unsaved
            refine .inr ⟨⟨uncreated, unopened, unsaved, _, state, congrArg Prod.fst found, made⟩,
              state, made, ?_⟩
            dsimp only
            split
            · exact .inl rfl
            · split <;> split <;> first | exact .inl rfl | exact .inr rfl

/-- The row of the server is still its row beside a row of a new peer. -/
theorem Startable.created (startable : h.Startable s) {contents : PeerRow} {db : Database}
    (done : h.db.createPeer contents = .ok db) :
    (∃ row, db.peers.lookup s.serverId.val = some row ∧ row.isServer = true) ∧
      ∀ id row, db.peers.lookup id = some row →
        id = h.db.network.maxPeerId + 1 ∨ row.isDisabled = true ∨ h.Held id := by
  obtain ⟨⟨found, present, marked⟩, linked⟩ := startable.rows
  obtain ⟨absent, rfl⟩ := createPeer_rows done
  constructor
  · refine ⟨found, ?_, marked⟩
    change (h.db.peers.insert _ _).lookup _ = _
    rw [lookup_insert_eq, if_neg, present]
    rintro same
    rw [← same, present] at absent
    cases absent
  · intro id row written
    change (h.db.peers.insert _ _).lookup _ = _ at written
    rw [lookup_insert_eq] at written
    split at written
    · exact .inl ‹_›
    · exact .inr (linked id row written)

theorem linkOf_some {state : ServerState} {id : Nat} {n : Number} (named : Number.new id = .ok n) :
    state.linkOf id = state.link n := by
  rw [ServerState.linkOf, named]
  rfl

/-- The store with the link of a new peer starts the server. -/
theorem Startable.provisioned (startable : h.Startable s) {contents : PeerRow} {rng : Entropy}
    {db db' : Database} {state : ServerState} (done : h.db.createPeer contents = .ok db)
    (made : (Number.new (h.db.network.maxPeerId + 1) >>= fun id => s.provision id none rng) =
      .ok state) (peers : db'.peers = db.peers)
    (networkId : db'.network.networkId = db.network.networkId) :
    (((h.on db).put state).on db').Startable state := by
  obtain ⟨server, linked⟩ := startable.created done
  simp only [bind_ok] at made
  obtain ⟨n, named, provision⟩ := made
  obtain ⟨valid, network, serverId, key, links⟩ :=
    ServerState.provision_valid startable.valid provision
  obtain ⟨-, written⟩ := createPeer_rows done
  have kept : ∀ id, s.linkOf id ≠ none → state.linkOf id ≠ none := by
    intro id held
    obtain ⟨link, found⟩ := Option.ne_none_iff_exists'.mp held
    obtain ⟨p, there, -⟩ := Option.bind_eq_some_iff.mp found
    have named' := toOption_some.mp there
    rw [linkOf_some named'] at held ⊢
    exact links p (.inl held)
  refine ⟨put_state _ _, valid, ?_, key.trans startable.publicKey, ?_, ?_⟩
  · rw [network, startable.networkId]
    change _ = db'.network.networkId
    rw [networkId, written]
    rfl
  · rw [serverId]
    change ∃ row, db'.peers.lookup _ = _ ∧ _
    rw [peers]
    exact server
  · intro id row present
    change db'.peers.lookup id = some row at present
    rw [peers] at present
    rcases linked id row present with rfl | off | held
    · exact .inr (.inr (linkOf_some named ▸ links n (.inr rfl)))
    · exact .inl off
    · rcases startable.held.mp held with here | there
      · exact .inr (.inl (serverId ▸ here))
      · exact .inr (.inr (kept id there))

/-- A link in the place of another leaves who has one. -/
theorem Startable.setLink (startable : h.Startable s) {peer : Number} {link changed : ManagementLink}
    (found : s.link peer = some link) :
    (h.put (s.setLink peer changed)).Loads ↔ changed.psk ≠ 0 := by
  have held := @ServerState.validate_setLink _ startable.valid peer changed
    (by rw [found]; exact Option.some_ne_none _)
  rw [← held, loads_iff]
  constructor
  · rintro ⟨s', startable'⟩
    obtain rfl := Option.some.inj (startable'.stored.symm.trans (put_state _ _))
    exact startable'.valid
  · intro valid
    refine ⟨_, put_state _ _, valid, startable.networkId, startable.publicKey,
      startable.server, ?_⟩
    intro id row present
    refine (startable.linked id row present).imp_right (Or.imp_right fun linked => ?_)
    obtain ⟨old, known⟩ := Option.ne_none_iff_exists'.mp linked
    obtain ⟨n, there, -⟩ := Option.bind_eq_some_iff.mp known
    rw [linkOf_some (toOption_some.mp there)] at linked ⊢
    rw [ServerState.link_setLink]
    split
    · exact Option.some_ne_none _
    · exact linked

theorem requiredManagement_same (startable : h.Startable s)
    (required : h.config.managementRequired = true) (access : Bool) (cut : Option Cut) :
    (h.requiredManagement access cut).2 = h ∧
      ∀ m, (h.requiredManagement access cut).1 = .ok m → m = ⟨s, s⟩ := by
  obtain ⟨row, present, marked⟩ := startable.server
  obtain ⟨same, opened⟩ := openOrCreate_same required startable.stored present marked cut
  unfold requiredManagement
  split
  · exact ⟨rfl, fun m impossible => (nomatch impossible)⟩
  · split
    · rename_i e h' found
      rw [found] at same
      exact ⟨same, fun m impossible => (nomatch impossible)⟩
    · rename_i h' found
      rw [found] at same
      exact ⟨same, fun m impossible => (nomatch impossible)⟩
    · rename_i m h' found
      rw [found] at same opened
      refine ⟨same, fun m' done => ?_⟩
      cases done
      rcases opened with done | ⟨_, impossible⟩
      · exact Option.some.inj (Except.ok.inj done)
      · cases impossible

/-- A rotation command works on the store it opened, or on nothing. -/
theorem Startable.rotate_ends (startable : h.Startable s)
    (required : h.config.managementRequired = true) (name : String) (access : Bool)
    (rotation : Rotation) (saving : Saving) (cut : Option Cut) :
    ((h.rotate name access rotation saving cut).2 = h ∧ ∀ id m, h.findPeerByName name = .ok id →
        (h.requiredManagement access cut).1 ≠ .ok m) ∨
      ∃ id, h.findPeerByName name = .ok id ∧
        (h.requiredManagement access cut).1 = .ok ⟨s, s⟩ ∧
        (h.rotate name access rotation saving cut).2 =
          h.put ((⟨s, s⟩ : Manager).rotate id rotation saving).2.stored := by
  obtain ⟨same, opened⟩ := requiredManagement_same startable required access cut
  cases named : h.findPeerByName name with
  | error e =>
    refine .inl ⟨?_, fun _ _ impossible => (nomatch impossible)⟩
    unfold rotate
    rw [named]
  | ok id =>
    cases managed : (h.requiredManagement access cut).1 with
    | error e =>
      refine .inl ⟨?_, fun _ _ _ impossible => (nomatch impossible)⟩
      have found : h.requiredManagement access cut = (.error e, h) := Prod.ext managed same
      unfold rotate
      simp only [named, found]
    | ok m =>
      obtain rfl := opened m managed
      have found : h.requiredManagement access cut = (.ok ⟨s, s⟩, h) := Prod.ext managed same
      refine .inr ⟨id, rfl, rfl, ?_⟩
      unfold rotate
      simp only [named, found]
      split <;> rename_i acted <;> rw [acted]

variable [Native]

/-- `enable_or_disable_peer` leaves the update alone on a host with a store. -/
theorem Startable.enable_ends (startable : h.Startable s)
    (required : h.config.managementRequired = true) (sound : h.db.Sound) (enable : Bool) (id : Nat)
    (cut : Option Cut) :
    ((h.enableOrDisablePeer enable id cut).2 = h ∧ ∀ row db, h.db.peers.lookup id = some row →
        h.db.updatePeer id row.name (!enable) ≠ .ok db) ∨
      ∃ row db, h.db.peers.lookup id = some row ∧
        h.db.updatePeer id row.name (!enable) = .ok db ∧
        (h.enableOrDisablePeer enable id cut).2 = h.on db := by
  cases found : h.db.peers.lookup id with
  | none =>
    refine .inl ⟨?_, fun _ _ impossible => (nomatch impossible)⟩
    unfold enableOrDisablePeer
    rw [getPeer, found]
  | some row =>
    cases done : h.db.updatePeer id row.name (!enable) with
    | error e =>
      refine .inl ⟨?_, ?_⟩
      · unfold enableOrDisablePeer
        simp only [getPeer, found, done]
      · rintro _ db same impossible
        cases same
        cases done.symm.trans impossible
    | ok db =>
      refine .inr ⟨row, db, rfl, done, ?_⟩
      obtain ⟨server, present, marked⟩ := startable.server
      have still : ∃ r, db.peers.lookup s.serverId.val = some r ∧ r.isServer = true := by
        rw [updatePeer_rows sound found done, lookup_insert_eq]
        split
        · rename_i same
          rw [same, found] at present
          cases present
          exact ⟨_, rfl, marked⟩
        · exact ⟨server, present, marked⟩
      obtain ⟨r, present', marked'⟩ := still
      obtain ⟨same, -⟩ :=
        openOrCreate_same (h := h.on db) required startable.stored present' marked' cut
      unfold enableOrDisablePeer
      simp only [getPeer, found, done]
      split
      · rfl
      · split
        · split
          · rename_i m h' opened
            have ends : ((h.on db).openOrCreate cut).2 = h' := congrArg Prod.snd opened
            rw [← same, ends]
            split <;> rfl
          · exact same
        · rfl

/-- Whether the server starts again after a request. -/
theorem Startable.step (startable : h.Startable s) (required : h.config.managementRequired = true)
    (sound : h.db.Sound) (request : Request) :
    (h.apply request).Loads ↔ h.Careful request := by
  cases request with
  | database op => exact startable.operation sound op
  | addPeer contents keypair rng cut =>
    change (h.addPeer contents keypair rng cut).2.Loads ↔ ∀ db, _ → _
    cases done : h.db.createPeer (newPeerContents contents keypair) with
    | error e =>
      rw [addPeer_refused done]
      exact ⟨fun _ _ impossible => (nomatch impossible),
        fun _ => (loads_iff h).mpr ⟨s, startable⟩⟩
    | ok db =>
      have row : (h.on db).Loads ↔ h.Held (h.db.network.maxPeerId + 1) := by
        have provides := startable.operation sound
          (.createPeer (newPeerContents contents keypair))
        have made : (Operation.createPeer (newPeerContents contents keypair)).apply h.db = db :=
          congrArg h.db.commit done
        rw [made] at provides
        refine provides.trans ⟨fun all => ?_, fun held _ _ => .inr held⟩
        exact (all db done).resolve_left (by simp [newPeerContents])
      rcases addPeer_ends startable required rng cut done with
        ⟨unlinked, ends⟩ | ⟨links, state, made, ends⟩
      · rw [ends, row]
        constructor
        · rintro held _ same
          exact .inl held
        · exact fun all => (all db rfl).resolve_right unlinked
      · refine iff_of_true ((loads_iff _).mpr ⟨state, ?_⟩) ?_
        · rcases ends with ends | ends <;> rw [ends]
          · have saved : (((h.on db).put state).on db).Startable state :=
              startable.provisioned done made rfl rfl
            exact saved
          · exact startable.provisioned done made rfl rfl
        · rintro _ same
          cases same
          exact .inr links
  | enableOrDisablePeer enable id cut =>
    change (h.enableOrDisablePeer enable id cut).2.Loads ↔ ∀ row db, _ → _ → _
    have stays := (loads_iff h).mpr ⟨s, startable⟩
    rcases startable.enable_ends required sound enable id cut with
      ⟨left, refused⟩ | ⟨row, db, found, done, ends⟩
    · rw [left]
      exact ⟨fun _ row db found done => absurd done (refused row db found), fun _ => stays⟩
    · rw [ends]
      have provides := startable.operation sound (.updatePeer id row.name (!enable))
      have made : (Operation.updatePeer id row.name (!enable)).apply h.db = db :=
        congrArg h.db.commit done
      rw [made] at provides
      refine provides.trans ⟨fun all _ _ _ _ => ?_, fun all _ _ _ => ?_⟩
      · exact (all db done (by rw [found]; exact Option.some_ne_none _)).imp_left (by simp)
      · exact (all row db found done).imp_left (by simp)
  | rotate name access rotation saving cut =>
    change (h.rotate name access rotation saving cut).2.Loads ↔ ∀ id m, _ → _ → _ → _
    have stays := (loads_iff h).mpr ⟨s, startable⟩
    rcases startable.rotate_ends required name access rotation saving cut with
      ⟨left, unmanaged⟩ | ⟨id, named, managed, ends⟩
    · rw [left]
      exact ⟨fun _ id m named managed => absurd managed (unmanaged id m named), fun _ => stays⟩
    · rw [ends, named, managed]
      constructor
      · intro loads id' m' same_id same_m kept link found
        cases same_id
        cases same_m
        obtain ⟨peer, there, found⟩ := Option.bind_eq_some_iff.mp found
        have target := toOption_some.mp there
        obtain ⟨-, other, nonzero⟩ := ServerState.validate_ok.mp startable.valid
        have apart : peer ≠ s.serverId := by
          rintro rfl
          rw [show s.link s.serverId = none from other] at found
          cases found
        have judged : rotation ≠ .verify → ∀ changed, link.rotate rotation = .ok changed →
            rotation.Nonzero link := by
          intro moves changed acted
          rw [Manager.rotate_done moves target apart found acted kept,
            startable.setLink found] at loads
          exact (Rotation.nonzero_iff (nonzero peer link found) acted).mp loads
        cases rotation with
        | apply =>
          intro staged present
          exact judged (by simp) _ (by rw [ManagementLink.rotate, ManagementLink.applyRotation,
            present]) staged present
        | rollback =>
          intro previous present
          exact judged (by simp) _ (by rw [ManagementLink.rotate,
            ManagementLink.rollbackRotation, present]) previous present
        | _ => trivial
      · intro all
        rcases Manager.rotate_stored s id rotation saving with left |
          ⟨peer, link, changed, target, found, acted, kept, stored⟩
        · rw [left, put_same startable.stored]
          exact stays
        · rw [stored, startable.setLink found]
          have active := (ServerState.validate_ok.mp startable.valid).2.2 peer link found
          rw [Rotation.nonzero_iff active acted]
          exact all id _ rfl rfl kept link (by rw [linkOf_some target]; exact found)

/-- A request leaves the configuration, and the database as operations of the server leave it. -/
theorem Startable.keeps (startable : h.Startable s) (required : h.config.managementRequired = true)
    (sound : h.db.Sound) (request : Request) :
    (h.apply request).config = h.config ∧ (h.apply request).db.Sound := by
  have after : ∀ {db : Database} (op : Operation), db.Sound → (op.apply db).Sound :=
    fun op sound => (op.reaches sound).sound
  cases request with
  | database op => exact ⟨rfl, after op sound⟩
  | addPeer contents keypair rng cut =>
    change (h.addPeer contents keypair rng cut).2.config = _ ∧
      (h.addPeer contents keypair rng cut).2.db.Sound
    cases done : h.db.createPeer (newPeerContents contents keypair) with
    | error e =>
      rw [addPeer_refused done]
      exact ⟨rfl, sound⟩
    | ok db =>
      have created : db.Sound := by
        have made : (Operation.createPeer (newPeerContents contents keypair)).apply h.db = db :=
          congrArg h.db.commit done
        exact made ▸ after _ sound
      rcases addPeer_ends startable required rng cut done with
        ⟨-, ends⟩ | ⟨-, state, -, ends | ends⟩ <;> rw [ends]
      · exact ⟨rfl, created⟩
      · exact ⟨rfl, created⟩
      · exact ⟨rfl, after (.setManagementReady true) created⟩
  | enableOrDisablePeer enable id cut =>
    change (h.enableOrDisablePeer enable id cut).2.config = _ ∧
      (h.enableOrDisablePeer enable id cut).2.db.Sound
    rcases startable.enable_ends required sound enable id cut with
      ⟨left, -⟩ | ⟨row, db, -, done, ends⟩
    · rw [left]
      exact ⟨rfl, sound⟩
    · have made : (Operation.updatePeer id row.name (!enable)).apply h.db = db :=
        congrArg h.db.commit done
      have updated := after (.updatePeer id row.name (!enable)) sound
      rw [made] at updated
      rw [ends]
      exact ⟨rfl, updated⟩
  | rotate name access rotation saving cut =>
    change (h.rotate name access rotation saving cut).2.config = _ ∧
      (h.rotate name access rotation saving cut).2.db.Sound
    rcases startable.rotate_ends required name access rotation saving cut with
      ⟨left, -⟩ | ⟨id, -, -, ends⟩
    · rw [left]
      exact ⟨rfl, sound⟩
    · rw [ends]
      exact ⟨rfl, sound⟩

def Step (h : Host) (request : Request) (h' : Host) : Prop := h.apply request = h'

/-- From a host that starts, every state of a run starts exactly when every request is careful. -/
theorem reloads_iff {db₀ : Database} {past : List (Move Database Operation)}
    (unused : db₀.Unused) (reached : Run Operation.Step db₀ past h.db)
    (required : h.config.managementRequired = true) (loads : h.Loads)
    {ms : List (Move Host Request)} {t : Host} (run : Run Step h ms t) :
    (∀ m ∈ ms, m.after.Loads) ↔ ∀ m ∈ ms, m.before.Careful m.label := by
  refine run.all_iff (P := fun h => h.Loads ∧ h.db.Sound ∧ h.config.managementRequired = true)
    ⟨loads, Database.Sound.reached unused reached, required⟩ ?_ ?_
  · rintro a request b ⟨loads, sound, required⟩ rfl careful
    obtain ⟨s, startable⟩ := (loads_iff a).mp loads
    obtain ⟨config, sound'⟩ := startable.keeps required sound request
    have next := (startable.step required sound request).mpr careful
    exact ⟨⟨next, sound', config ▸ required⟩, next⟩
  · rintro a request b ⟨loads, sound, required⟩ rfl next
    obtain ⟨s, startable⟩ := (loads_iff a).mp loads
    exact (startable.step required sound request).mp next

end Steps

section Sample

open Arithmetic

attribute [local instance] native

/-- The server with a link for peer 2; peer 3 is disabled and has none. -/
def sample : Host where
  config := { publicKey := 1, address := "10.0.0.1", managementRequired := true }
  db := (Operation.updatePeer 3 "bob" true).apply site
  vault := some {
    state := some {
      networkId := 7
      serverId := first
      serverPublicKey := 1
      links := (∅ : Table Number ManagementLink).insert second
        { provisionId := 5, psk := 6, verified := false, staged := none, previous := none } }
    artifacts := ∅ }

theorem sample_startable : ∃ s, sample.Startable s ∧ s.linkOf 3 = none ∧ s.linkOf 4 = none := by
  refine ⟨_, ⟨rfl, by decide +kernel, by decide +kernel, rfl, ⟨peer "server" "10.0.0.1" 1 true,
    by decide +kernel, rfl⟩, ?_⟩, by decide +kernel, by decide +kernel⟩
  have linked : any (fun id row => !(row.isDisabled || decide (id = 1) || decide (id = 2)))
      sample.db.peers = false := by decide +kernel
  intro id row present
  have here := (any_eq_false _ _).mp linked id row present
  simp only [Bool.not_eq_false', Bool.or_eq_true, decide_eq_true_eq] at here
  rcases here with (off | server) | peer
  · exact .inl off
  · exact .inr (.inl server)
  · subst peer
    exact .inr (.inr (by decide +kernel))

theorem sample_reached : ∃ past, Run Operation.Step site past sample.db := by
  have taken : Operation.Step site (.updatePeer 3 "bob" true) sample.db := rfl
  exact ⟨_, Run.start.move taken⟩

def newcomer (isDisabled : Bool) : PeerRow :=
  { peer "carol" "10.0.0.4" 3 false with
    publicKey := Key.toBase64 9
    isDisabled
    isRedeemed := false }

/-- Three requests that end the server's ability to start: enabling a peer that has no link, adding
a peer and stopping before its link is saved, and creating an enabled peer over the admin API. -/
theorem reloads_no_more : site.Unused ∧ (∃ past, Run Operation.Step site past sample.db) ∧
    sample.Loads ∧ ∀ request ∈ [Request.enableOrDisablePeer true 3 none,
      .addPeer (newcomer false) 9 ⟨some 5, some 8⟩ (some .created),
      .database (.createPeer (newcomer false))], ¬ (sample.apply request).Loads := by
  obtain ⟨s, startable, third, fourth⟩ := sample_startable
  obtain ⟨past, reached⟩ := sample_reached
  have unused : site.Unused := ⟨rfl, rfl, rfl⟩
  have sound := Database.Sound.reached unused reached
  have server : s.serverId.val = 1 := by
    have known := startable.stored
    cases known
    rfl
  have unheld : ∀ {id}, s.linkOf id = none → id ≠ 1 → ¬ sample.Held id := by
    intro id missing other held
    rcases startable.held.mp held with here | there
    · exact other (here.trans server)
    · exact there missing
  have accepted : ∀ {α : Type} {x : Except ServerError α}, x.toOption.isSome = true →
      ∃ a, x = .ok a := by
    intro α x some_
    obtain ⟨a, done⟩ := Option.isSome_iff_exists.mp some_
    exact ⟨a, toOption_some.mp done⟩
  refine ⟨unused, ⟨past, reached⟩, (loads_iff _).mpr ⟨s, startable⟩, ?_⟩
  intro request member loads
  have careful := (startable.step rfl sound request).mp loads
  simp only [List.mem_cons, List.not_mem_nil, or_false] at member
  rcases member with rfl | rfl | rfl
  · obtain ⟨db, done⟩ : ∃ db, sample.db.updatePeer 3 "bob" (!true) = .ok db :=
      accepted (by decide +kernel)
    have present : sample.db.peers.lookup 3 =
        some { peer "bob" "10.0.0.3" 3 false with isDisabled := true } := by decide +kernel
    exact (careful _ db present done).elim (by simp) (unheld third (by decide))
  · obtain ⟨db, done⟩ : ∃ db, sample.db.createPeer (newPeerContents (newcomer false) 9) = .ok db :=
      accepted (by decide +kernel)
    have next : sample.db.network.maxPeerId + 1 = 4 := by decide +kernel
    rcases careful db done with held | links
    · rw [next] at held
      exact unheld fourth (by decide) held
    · exact links.1 rfl
  · obtain ⟨db, done⟩ : ∃ db, sample.db.createPeer (newcomer false) = .ok db :=
      accepted (by decide +kernel)
    have next : sample.db.network.maxPeerId + 1 = 4 := by decide +kernel
    rcases careful db done with off | held
    · cases off
    · rw [next] at held
      exact unheld fourth (by decide) held

/-- A disabled peer created over the API, and a candidate staged for another. -/
theorem reloads_iff_added : ∃ ms t, Run Step sample ms t ∧
    ms.map Move.label = [.database (.createPeer (newcomer true)),
      .rotate "alice" true (.stage none ⟨some 7, some 8⟩) .done none] ∧
    ∀ m ∈ ms, m.after.Loads := by
  obtain ⟨s, startable, -⟩ := sample_startable
  obtain ⟨past, reached⟩ := sample_reached
  have run : Run Step sample [⟨sample, .database (.createPeer (newcomer true)), _⟩,
      ⟨_, .rotate "alice" true (.stage none ⟨some 7, some 8⟩) .done none, _⟩] _ :=
    (Run.start.move rfl).move rfl
  refine ⟨_, _, run, rfl, (reloads_iff ⟨rfl, rfl, rfl⟩ reached rfl
    ((loads_iff _).mpr ⟨s, startable⟩) run).mpr ?_⟩
  intro m member
  simp only [List.mem_cons, List.not_mem_nil, or_false] at member
  rcases member with rfl | rfl
  · exact fun _ _ => .inl rfl
  · intro _ _ _ _ _ _ _
    trivial

end Sample

end Host

end Innernet
