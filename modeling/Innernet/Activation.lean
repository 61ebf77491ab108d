import Innernet.Registration

/-! First activation: `open_or_register` of `client-core/src/pq_sync.rs` over the private store of
`pq/src/store.rs`. An attempt makes the directory, asks for the state, generates an identity,
registers it and saves it; it may be cut short anywhere in between. -/
namespace Innernet

open Fallible Tables Runs

inductive StoreError where
  | io
  | corrupt
  | newer
  | conflict
  deriving DecidableEq, Repr

/-- `state.json`. -/
structure Envelope where
  version : Nat
  generation : Nat
  value : EndpointState
  deriving DecidableEq

/-- An open store. `digest` stands for the bytes last read or written. -/
structure Store where
  fresh : Bool
  generation : Nat
  digest : Option Envelope

namespace Store

/-- A store is fresh when opening it has made its directory. -/
def opened (made : Bool) : Store where
  fresh := made
  generation := 0
  digest := none

def load (state : Option Envelope) : Except StoreError (EndpointState × Store) :=
  match state with
  | none => .error .corrupt
  | some e =>
    if 1 < e.version then .error .newer
    else if e.version ≠ 1 then .error .corrupt
    else if e.generation = 0 then .error .corrupt
    else .ok (e.value, { fresh := false, generation := e.generation, digest := some e })

/-- `save`, up to the rename: the envelope that replaces `state.json`. -/
def save (store : Store) (state : Option Envelope) (value : EndpointState) :
    Except StoreError Envelope := do
  require (store.generation + 1 < 2 ^ 64) .conflict
  let envelope : Envelope := { version := 1, generation := store.generation + 1, value }
  if store.fresh then
    match state with
    | none => return envelope
    | some _ => .error .conflict
  else
    match state with
    | none => .error .corrupt
    | some current =>
      require (current.version ≤ 1) .newer
      require (current.version = 1) .corrupt
      require (current.generation = store.generation) .conflict
      require (store.digest = some current) .conflict
      return envelope

end Store

/-- `Key::to_base64`. -/
def Key.toBase64 (key : Binary 32) : String :=
  String.ofList ((Base64.encode key.bytes).map fun c => Char.ofNat c.toNat)

/-- An entry of the state's first page, as far as `register` reads it. -/
structure PeerEntry where
  id : Nat
  publicKey : String
  isServer : Bool

structure StatePage where
  networkId : Binary 16
  peers : List PeerEntry

/-- What the generators of an identity and of the management link draw. -/
structure Material where
  bundleId : Binary 16
  hybridPublic : HybridPublic
  hybridSecret : HybridSecret
  signingPublic : Binary 67
  signing : Binary 66
  provisionId : Binary 16
  psk : Binary 32

def Identity.generate (wg : Binary 32) (revision : Number) (m : Material) : Identity where
  bundle := {
    bundleId := m.bundleId
    bundleRevision := revision
    wgPublicKey := wg
    pqKemPublicKey := m.hybridPublic.kem
    pqX448PublicKey := m.hybridPublic.x448
    pqSigPublicKey := m.signingPublic }
  kem := m.hybridSecret.kem
  x448 := m.hybridSecret.x448
  signing := m.signing

def ManagementLink.generate (m : Material) : ManagementLink where
  provisionId := m.provisionId
  psk := m.psk
  verified := false
  staged := none
  previous := none

/-- Where an attempt is cut short, by a failure or a crash: before the directory is made, once it
is made, at the request for the state, at the generation of the identity, before or after the
server has the registration, before or after the saved state is in its place. -/
inductive Stop where
  | opening
  | made
  | fetching
  | generating
  | requesting
  | replying
  | saving
  | renamed
  deriving DecidableEq, Repr

structure Attempt where
  stop : Option Stop
  page : StatePage
  material : Material
  permissive : Bool
  limits : Limits
  size : Nat
  now : Nat

inductive ActivationError where
  | store (error : StoreError)
  | request
  | lookup
  | random
  | server (error : ServerError)

/-- The private directory, with `state.json` in it, and the server. -/
structure Activation where
  directory : Option (Option Envelope)
  db : Database

/-- The peer that activates the interface. -/
structure Owner where
  id : Number
  key : String
  publicKey : Binary 32

/-- Its own entry and the server's, by their ids. -/
def StatePage.introduce (page : StatePage) (publicKey : Binary 32) : Option (Number × Number) := do
  let me ← page.peers.find? fun p => p.publicKey = Key.toBase64 publicKey
  let server ← page.peers.find? fun p => p.isServer
  match Number.new me.id, Number.new server.id with
  | .ok selfId, .ok serverId => some (selfId, serverId)
  | _, _ => none

/-- The state `register` builds before it asks the server. -/
def Attempt.enrolled (a : Attempt) (publicKey : Binary 32) (selfId serverId : Number) :
    EndpointState :=
  let identity := Identity.generate publicKey ⟨1, Nat.one_pos, Number.one_bounded⟩ a.material
  { networkId := a.page.networkId
    peerId := selfId
    serverId
    serverPublicKey := 0
    policy := .strict
    registration := {
      expectedRevision := none
      pqVersion := 1
      lifecycle := .enabled
      bundle := identity.bundle
      emergency := false }
    identity
    enrollment := .advertised
    management := .generate a.material
    relationships := ∅ }

section Operations

variable [Native]

/-- `register`, with the server's side of its request. -/
def Attempt.register (a : Attempt) (owner : Owner) (db : Database) :
    Except ActivationError EndpointState × Database :=
  if a.stop = some .fetching then (.error .request, db)
  else match a.page.introduce owner.publicKey with
    | none => (.error .lookup, db)
    | some (selfId, serverId) =>
      if a.stop = some .generating then (.error .random, db)
      else if a.stop = some .requesting then (.error .request, db)
      else
        let state := a.enrolled owner.publicKey selfId serverId
        match db.register owner.id.val owner.key state.registration a.limits a.size a.now with
        | (.error e, db) => (.error (.server e), db)
        | (.ok _, db) =>
          if a.stop = some .replying then (.error .request, db) else (.ok state, db)

def EndpointState.withPolicy (s : EndpointState) (permissive : Bool) : EndpointState :=
  { s with policy := if permissive then .permissive else .strict }

/-- `open_or_register`, and what it leaves behind. -/
def Attempt.openOrRegister (a : Attempt) (owner : Owner) (t : Activation) :
    Except ActivationError EndpointState × Activation :=
  if a.stop = some .opening then (.error (.store .io), t)
  else
    let store := Store.opened t.directory.isNone
    let found := t.directory.getD none
    if a.stop = some .made then (.error (.store .io), { t with directory := some found })
    else if store.fresh then
      match a.register owner t.db with
      | (.error e, db) => (.error e, ⟨some found, db⟩)
      | (.ok state, db) =>
        if a.stop = some .saving then (.error (.store .io), ⟨some found, db⟩)
        else match store.save found state with
          | .error e => (.error (.store e), ⟨some found, db⟩)
          | .ok envelope =>
            if a.stop = some .renamed then (.error (.store .io), ⟨some (some envelope), db⟩)
            else (.ok (state.withPolicy a.permissive), ⟨some (some envelope), db⟩)
    else match Store.load found with
      | .error e => (.error (.store e), { t with directory := some found })
      | .ok (state, _) => (.ok (state.withPolicy a.permissive), { t with directory := some found })

/-- The first page shows the peer and the server, and the server takes the registration. -/
structure Attempt.Admitted (a : Attempt) (owner : Owner) (db : Database) : Prop where
  lists : (a.page.introduce owner.publicKey).isSome = true
  soon : a.now < 2 ^ 63
  ready : db.ready = true
  caller : ∃ row, db.caller owner.id.val owner.key = .ok row
  data : db.isServer owner.id.val = .ok false
  valid : (Identity.generate owner.publicKey ⟨1, by decide, by decide⟩ a.material).bundle.validate =
    .ok ()
  key : Key.fromBase64 owner.key = some owner.publicKey.bytes
  budget : db.budget a.limits a.size true = .ok ()
  unspent : db.bundleHistory.lookup a.material.bundleId = none

end Operations

section Registering

variable [Native] {a : Attempt} {owner : Owner} {db : Database} {selfId serverId : Number}

open Database

omit [Native] in
theorem Database.OnlySwept.serves {db swept : Database} (only : db.OnlySwept swept) :
    swept.ready = db.ready ∧ (∀ id key, swept.caller id key = db.caller id key) ∧
      (∀ id, swept.isServer id = db.isServer id) ∧ swept.bundleHistory = db.bundleHistory ∧
      swept.bundles = db.bundles ∧
      ∀ limits size new, swept.budget limits size new = db.budget limits size new := by
  rw [only]
  exact ⟨rfl, fun _ _ => rfl, fun _ => rfl, rfl, rfl, fun _ _ _ => rfl⟩

/-- What the server has checked of a first bundle it takes. -/
theorem Database.registerInner_first {db db' : Database} {id : Nat} {key : String}
    {request : Registration} {limits : Limits} {size : Nat} {adv : AdvertisedBundle}
    (enabled : request.lifecycle = .enabled) (bare : db.bundles.lookup id = none)
    (done : db.registerInner id key request limits size = .ok (adv, db')) :
    db.ready = true ∧ (∃ row, db.caller id key = .ok row) ∧ db.isServer id = .ok false ∧
      request.bundle.validate = .ok () ∧
      Key.fromBase64 key = some request.bundle.wgPublicKey.bytes ∧
      db.budget limits size true = .ok () ∧
      db.bundleHistory.lookup request.bundle.bundleId = none := by
  simp only [registerInner, bind_ok, pq_ok, require_ok] at done
  obtain ⟨_, ready, row, called, _, data, _, rfl, current, read, _, valid, _, ⟨-, -, decoded⟩, next,
    _, _, _, rest⟩ := done
  have none : current = none := by
    rw [← bundle_ok read]
    exact bare
  subst none
  rw [if_neg (fun same => by cases same)] at rest
  simp only [bind_ok, require_ok, changeLifecycle, enabled] at rest
  obtain ⟨_, _, _, _, opened, enrolled, -⟩ := rest
  simp only [enroll, bind_ok, require_ok] at enrolled
  obtain ⟨_, within, _, -, _, unspent, -⟩ := enrolled
  exact ⟨ready, ⟨row, called⟩, data, valid, decoded, within, unspent⟩

/-- Where no bundle is held for the peer, the server takes the registration of a first one exactly
when the attempt is admitted. -/
theorem Attempt.registered_iff (sound : db.Sound) (bare : db.bundles.lookup owner.id.val = none)
    (listed : a.page.introduce owner.publicKey = some (selfId, serverId)) :
    (∃ adv, (db.register owner.id.val owner.key
      (a.enrolled owner.publicKey selfId serverId).registration a.limits a.size a.now).1 =
        .ok adv) ↔ a.Admitted owner db := by
  constructor
  · rintro ⟨adv, accepted⟩
    unfold Database.register write at accepted
    split at accepted
    · cases accepted
    · rename_i swept done
      obtain ⟨soon, only, -⟩ := sweepInner_ok sound done
      obtain ⟨ready, caller, data, history, bundles, budget⟩ := only.serves
      split at accepted
      · cases accepted
      · rename_i b written registered
        obtain ⟨isReady, ⟨row, called⟩, isData, valid, decoded, within, unspent⟩ :=
          registerInner_first rfl (bundles ▸ bare) registered
        exact ⟨by rw [listed]; rfl, soon, ready ▸ isReady, ⟨row, caller _ _ ▸ called⟩,
          data _ ▸ isData, valid, decoded, budget _ _ _ ▸ within, history ▸ unspent⟩
  · intro admitted
    obtain ⟨swept, done⟩ := sweepInner_succeeds sound admitted.soon
    obtain ⟨-, only, soundSwept, -⟩ := sweepInner_ok sound done
    obtain ⟨ready, caller, data, history, bundles, budget⟩ := only.serves
    have held : swept.bundles.lookup owner.id.val = none := by rw [bundles, bare]
    -- the pending form of the same registration is in step with the server
    let s : EndpointState := { a.enrolled owner.publicKey selfId serverId with
      peerId := owner.id
      enrollment := .registering }
    have inStep : Registrar.InStep owner.key ⟨s, swept⟩ := by
      refine ⟨soundSwept, rfl, rfl, rfl, rfl, rfl, admitted.key, admitted.valid, .inr ⟨rfl, ?_, ?_, ?_⟩⟩
      · change (swept.bundles.lookup owner.id.val).map _ = none
        rw [held]
        rfl
      · intro b member
        have member : b ∈ swept.bundles.lookup owner.id.val := member
        rw [held] at member
        cases member
      · exact history ▸ admitted.unspent
    have idle : swept.activeFor owner.id.val = false := by
      refine (activeFor_false soundSwept.columns).mpr fun k r found involved => ?_
      have absent : ∀ b, ¬ swept.view.Advertises owner.id.val b := by
        rintro b ⟨adv, current, -⟩
        have current : swept.bundles.lookup owner.id.val = some adv := current
        rw [held] at current
        cases current
      rcases involved with same | same
      · obtain ⟨b, advertised, -⟩ := soundSwept.ledger.initiator k r found
        exact absurd (same ▸ advertised) (absent b)
      · obtain ⟨b, advertised, -⟩ := soundSwept.ledger.responder k r found
        exact absurd (same ▸ advertised) (absent b)
    have admits : Registrar.Admits owner.key a.limits a.size ⟨s, swept⟩ := by
      obtain ⟨row, called⟩ := admitted.caller
      exact ⟨ready ▸ admitted.ready, ⟨row, caller _ _ ▸ called⟩, data _ ▸ admitted.data, .inl idle,
        budget _ _ _ ▸ admitted.budget⟩
    obtain ⟨db', accepted⟩ := inStep.accepted admits
    have accepted : swept.registerInner owner.id.val owner.key
        (a.enrolled owner.publicKey selfId serverId).registration a.limits a.size =
          .ok (⟨1, .enabled, s.identity.bundle⟩, db') := accepted
    refine ⟨⟨1, .enabled, s.identity.bundle⟩, ?_⟩
    unfold Database.register write
    rw [done]
    dsimp only
    rw [accepted]

/-- A registration that succeeds is admitted, and the server then holds its bundle. -/
theorem Attempt.register_cases (sound : db.Sound)
    (bare : db.bundles.lookup owner.id.val = none) :
    (∃ e db', a.register owner db = (.error e, db') ∧
      (¬ (a.stop = none ∨ a.stop = some .saving ∨ a.stop = some .renamed) ∨
        ¬ a.Admitted owner db)) ∨
    (∃ state db', a.register owner db = (.ok state, db') ∧ a.Admitted owner db ∧
      state.identity = Identity.generate owner.publicKey ⟨1, by decide, by decide⟩ a.material ∧
      db'.bundles.lookup owner.id.val = some ⟨1, .enabled, state.identity.bundle⟩ ∧
      (a.stop = none ∨ a.stop = some .saving ∨ a.stop = some .renamed ∨ a.stop = some .opening ∨
        a.stop = some .made)) := by
  unfold Attempt.register
  by_cases fetching : a.stop = some .fetching
  · rw [if_pos fetching]
    exact .inl ⟨_, _, rfl, .inl (by simp [fetching])⟩
  rw [if_neg fetching]
  cases listed : a.page.introduce owner.publicKey with
  | none =>
    refine .inl ⟨_, _, rfl, .inr fun admitted => ?_⟩
    have lists := admitted.lists
    rw [listed] at lists
    cases lists
  | some ids =>
    obtain ⟨selfId, serverId⟩ := ids
    dsimp only
    by_cases generating : a.stop = some .generating
    · rw [if_pos generating]
      exact .inl ⟨_, _, rfl, .inl (by simp [generating])⟩
    rw [if_neg generating]
    by_cases requesting : a.stop = some .requesting
    · rw [if_pos requesting]
      exact .inl ⟨_, _, rfl, .inl (by simp [requesting])⟩
    rw [if_neg requesting]
    have registered := Attempt.registered_iff sound bare listed
    have outcome := Registrar.register_cases sound owner.id.val owner.key
      (a.enrolled owner.publicKey selfId serverId).registration a.limits a.size a.now
    generalize db.register owner.id.val owner.key
      (a.enrolled owner.publicKey selfId serverId).registration a.limits a.size a.now = reply
      at registered outcome ⊢
    obtain ⟨answer, after⟩ := reply
    dsimp only at registered outcome ⊢
    rcases outcome with ⟨stored, rfl⟩ | ⟨-, -, e, rfl⟩
    · have admitted := registered.mp ⟨_, rfl⟩
      dsimp only
      by_cases replying : a.stop = some .replying
      · rw [if_pos replying]
        exact .inl ⟨_, _, rfl, .inl (by simp [replying])⟩
      · rw [if_neg replying]
        refine .inr ⟨_, _, rfl, admitted, rfl, stored, ?_⟩
        cases cut : a.stop with
        | none => exact .inl rfl
        | some stop => cases stop <;> simp_all
    · refine .inl ⟨_, _, rfl, .inr fun admitted => ?_⟩
      obtain ⟨adv, accepted⟩ := registered.mpr admitted
      cases accepted

end Registering

namespace Activation

variable [Native] {owner : Owner} {a : Attempt} {t t' : Activation}

open Database

/-- The attempt is not cut short before the saved state is in place, and nothing refuses it. -/
def Lands (owner : Owner) (a : Attempt) (t : Activation) : Prop :=
  (a.stop = none ∨ a.stop = some .renamed) ∧ a.Admitted owner t.db

/-- The bundle the server advertises for the peer. -/
def held (owner : Owner) (t : Activation) : Option AdvertisedBundle :=
  t.db.bundles.lookup owner.id.val

/-- The directory has the first save, of a generated identity whose bundle the server holds. -/
def Settled (owner : Owner) (t : Activation) : Prop :=
  ∃ e m, t.directory = some (some e) ∧ e.version = 1 ∧ e.generation = 1 ∧
    e.value.identity = Identity.generate owner.publicKey ⟨1, Nat.one_pos, Number.one_bounded⟩ m ∧
    t.held owner = some ⟨1, .enabled, e.value.identity.bundle⟩

/-- An attempt where a directory is only loads what is in it. -/
theorem openOrRegister_again {found : Option Envelope} (made : t.directory = some found) :
    (a.openOrRegister owner t).2 = t := by
  have same : ({ t with directory := some found } : Activation) = t := by rw [← made]
  unfold Attempt.openOrRegister
  split
  · rfl
  · simp only [made, Option.getD_some, Option.isNone_some, Store.opened, Bool.false_eq_true,
      if_false]
    split
    · exact same
    · split
      · exact same
      · exact same

/-- The attempt that makes the directory leaves the registered state in it, or nothing. -/
theorem openOrRegister_first (sound : t.db.Sound) (bare : t.held owner = none)
    (absent : t.directory = none) :
    (a.stop = some .opening ∧ (a.openOrRegister owner t).2 = t) ∨
    (a.stop ≠ some .opening ∧ ¬ Lands owner a t ∧
      (a.openOrRegister owner t).2.directory = some none) ∨
    (Lands owner a t ∧ Settled owner (a.openOrRegister owner t).2 ∧
      (a.stop = none → ∃ s, (a.openOrRegister owner t).1 = .ok s ∧
        (a.openOrRegister owner t).2.held owner = some ⟨1, .enabled, s.identity.bundle⟩)) := by
  by_cases opening : a.stop = some .opening
  · refine .inl ⟨opening, ?_⟩
    rw [Attempt.openOrRegister, if_pos opening]
  refine .inr ?_
  have short : ∀ stop, a.stop = some stop → stop ≠ .renamed → ¬ Lands owner a t := by
    rintro stop here apart ⟨never | there, -⟩
    · rw [here] at never
      cases never
    · rw [here] at there
      exact apart (Option.some.inj there)
  unfold Attempt.openOrRegister
  rw [if_neg opening]
  simp only [absent, Option.getD_none, Option.isNone_none, Store.opened, if_true]
  by_cases made : a.stop = some .made
  · rw [if_pos made]
    exact .inl ⟨opening, short _ made (by decide), rfl⟩
  rw [if_neg made]
  rcases Attempt.register_cases (a := a) sound bare with
    ⟨e, db, refused, cut | unadmitted⟩ | ⟨state, db, taken, admitted, generated, stored⟩
  · rw [refused]
    refine .inl ⟨opening, fun lands => ?_, rfl⟩
    rcases lands.1 with none | renamed
    · exact cut (.inl none)
    · exact cut (.inr (.inr renamed))
  · rw [refused]
    exact .inl ⟨opening, fun lands => unadmitted lands.2, rfl⟩
  rw [taken]
  dsimp only
  by_cases saving : a.stop = some .saving
  · rw [if_pos saving]
    exact .inl ⟨opening, short _ saving (by decide), rfl⟩
  rw [if_neg saving]
  have written : Store.save ⟨true, 0, none⟩ none state = .ok ⟨1, 1, state⟩ := rfl
  rw [written]
  dsimp only
  by_cases renamed : a.stop = some .renamed
  · rw [if_pos renamed]
    refine .inr ⟨⟨.inr renamed, admitted⟩, ⟨_, _, rfl, rfl, rfl, generated, stored.1⟩,
      fun never => ?_⟩
    rw [renamed] at never
    cases never
  · rw [if_neg renamed]
    rcases stored.2 with none | there | there | there | there
    · exact .inr ⟨⟨.inl none, admitted⟩, ⟨_, _, rfl, rfl, rfl, generated, stored.1⟩,
        fun _ => ⟨_, rfl, stored.1⟩⟩
    · exact absurd there saving
    · exact absurd there renamed
    · exact absurd there opening
    · exact absurd there made

inductive Event where
  | attempt (a : Attempt)
  | elsewhere (op : Operation)

/-- An attempt, or an operation of the server that leaves the peer's own bundle alone. -/
inductive Step (owner : Owner) : Activation → Event → Activation → Prop where
  | attempt {t : Activation} {a : Attempt} :
    Step owner t (.attempt a) (a.openOrRegister owner t).2
  | elsewhere {t : Activation} {op : Operation}
    (same : (op.apply t.db).bundles.lookup owner.id.val = t.held owner) :
    Step owner t (.elsewhere op) { t with db := op.apply t.db }

/-- What the server advertises for the peer, the saved state has the private keys of. -/
def Kept (owner : Owner) (t : Activation) : Prop :=
  ∀ adv ∈ t.held owner, ∃ e m, t.directory = some (some e) ∧ e.value.identity.bundle = adv.bundle ∧
    e.value.identity = Identity.generate owner.publicKey ⟨1, Nat.one_pos, Number.one_bounded⟩ m

/-- Nothing fails: the attempt is not cut short, and a first registration would be taken. -/
def Faultless (owner : Owner) (a : Attempt) (t : Activation) : Prop :=
  a.stop = none ∧ (t.held owner = none → a.Admitted owner t.db)

/-- An attempt that makes the directory gets the saved state into it. -/
def Whole (owner : Owner) (m : Move Activation Event) : Prop :=
  match m.label with
  | .attempt a => m.before.directory = none → a.stop = some .opening ∨ Lands owner a m.before
  | .elsewhere _ => True

/-- Before the first attempt that makes the directory, or after one that was whole. -/
structure Prepared (owner : Owner) (t : Activation) : Prop where
  sound : t.db.Sound
  phase : (t.directory = none ∧ t.held owner = none) ∨ Settled owner t

theorem Attempt.register_db (a : Attempt) (owner : Owner) (db : Database) :
    (a.register owner db).2 = db ∨ ∃ request, (a.register owner db).2 =
      (Operation.register owner.id.val owner.key request a.limits a.size a.now).apply db := by
  unfold Attempt.register
  split
  · exact .inl rfl
  split
  · exact .inl rfl
  rename_i selfId serverId _
  split
  · exact .inl rfl
  split
  · exact .inl rfl
  refine .inr ⟨(a.enrolled owner.publicKey selfId serverId).registration, ?_⟩
  change _ = (db.register owner.id.val owner.key _ a.limits a.size a.now).2
  dsimp only
  split
  · rename_i refused
    rw [refused]
  · rename_i accepted
    rw [accepted]
    split <;> rfl

theorem openOrRegister_db (a : Attempt) (owner : Owner) (t : Activation) :
    (a.openOrRegister owner t).2.db = t.db ∨ (a.openOrRegister owner t).2.db =
      (a.register owner t.db).2 := by
  unfold Attempt.openOrRegister
  split
  · exact .inl rfl
  dsimp only
  split
  · exact .inl rfl
  split
  · refine .inr ?_
    split
    · rename_i refused
      rw [refused]
    · rename_i taken
      rw [taken]
      split
      · rfl
      split
      · rfl
      · split <;> rfl
  · refine .inl ?_
    split <;> rfl

theorem sound_attempt (sound : t.db.Sound) : (a.openOrRegister owner t).2.db.Sound := by
  rcases openOrRegister_db a owner t with same | same
  · rwa [same]
  · rw [same]
    rcases Attempt.register_db a owner t.db with same | ⟨request, same⟩
    · rwa [same]
    · rw [same]
      exact ((Operation.register _ _ _ _ _ _).reaches sound).sound

/-- A whole attempt leaves the system prepared, and any other leaves an empty directory. -/
theorem Prepared.step (prepared : Prepared owner t) {event : Event}
    (step : Step owner t event t') :
    (Whole owner ⟨t, event, t'⟩ ∧ Prepared owner t') ∨
      (¬ Whole owner ⟨t, event, t'⟩ ∧ t'.directory = some none) := by
  cases step with
  | @attempt a =>
    have sound : (a.openOrRegister owner t).2.db.Sound := sound_attempt prepared.sound
    rcases prepared.phase with ⟨absent, bare⟩ | settled
    · rcases openOrRegister_first prepared.sound bare absent with
        ⟨opening, same⟩ | ⟨apart, torn, empty⟩ | ⟨lands, settled, -⟩
      · refine .inl ⟨fun _ => .inl opening, ?_⟩
        rw [same]
        exact prepared
      · refine .inr ⟨fun whole => ?_, empty⟩
        rcases whole absent with opening | lands
        · exact apart opening
        · exact torn lands
      · exact .inl ⟨fun _ => .inr lands, sound, .inr settled⟩
    · obtain ⟨e, m, saved, rest⟩ := settled
      refine .inl ⟨fun absent => ?_, ?_⟩
      · have absent : t.directory = none := absent
        rw [absent] at saved
        cases saved
      · rw [openOrRegister_again saved]
        exact ⟨prepared.sound, .inr ⟨e, m, saved, rest⟩⟩
  | @elsewhere op same =>
    refine .inl ⟨trivial, (op.reaches prepared.sound).sound, ?_⟩
    have held : Activation.held owner { t with db := op.apply t.db } = t.held owner := same
    rcases prepared.phase with ⟨absent, bare⟩ | ⟨e, m, saved, version, generation, generated, there⟩
    · exact .inl ⟨absent, held.trans bare⟩
    · exact .inr ⟨e, m, saved, version, generation, generated, held.trans there⟩

theorem torn_step {event : Event} (torn : t.directory = some none) (step : Step owner t event t') :
    t'.directory = some none := by
  cases step with
  | attempt =>
    rw [openOrRegister_again torn]
    exact torn
  | elsewhere => exact torn

theorem Prepared.kept (prepared : Prepared owner t) : Kept owner t := by
  intro adv there
  rcases prepared.phase with ⟨-, bare⟩ | ⟨e, m, saved, -, -, generated, held⟩
  · rw [bare] at there
    cases there
  · rw [held] at there
    cases there
    exact ⟨e, m, saved, rfl, generated⟩

theorem Prepared.recovers (prepared : Prepared owner t) (faultless : Faultless owner a t) :
    ∃ s, (a.openOrRegister owner t).1 = .ok s ∧
      (a.openOrRegister owner t).2.held owner = some ⟨1, .enabled, s.identity.bundle⟩ := by
  obtain ⟨unstopped, admitted⟩ := faultless
  rcases prepared.phase with ⟨absent, bare⟩ | ⟨e, m, saved, version, generation, -, held⟩
  · rcases openOrRegister_first prepared.sound bare absent with
      ⟨opening, -⟩ | ⟨-, torn, -⟩ | ⟨-, -, returns⟩
    · rw [unstopped] at opening
      cases opening
    · exact absurd ⟨.inl unstopped, admitted bare⟩ torn
    · exact returns unstopped
  · have loads : Store.load (some e) =
        .ok (e.value, { fresh := false, generation := 1, digest := some e }) := by
      simp [Store.load, version, generation]
    refine ⟨e.value.withPolicy a.permissive, ?_, ?_⟩
    · unfold Attempt.openOrRegister
      rw [if_neg (by simp [unstopped])]
      simp only [saved, Option.getD_some, Option.isNone_some, Store.opened, Bool.false_eq_true,
        if_false, loads]
      rw [if_neg (by simp [unstopped])]
    · rw [openOrRegister_again saved]
      exact held

/-- Where the directory is empty, no attempt that runs to its end returns a state. -/
theorem torn_refuses (torn : t.directory = some none) (unstopped : a.stop = none) :
    (a.openOrRegister owner t).1 = .error (.store .corrupt) := by
  unfold Attempt.openOrRegister
  rw [if_neg (by simp [unstopped])]
  simp only [torn, Option.getD_some, Option.isNone_some, Store.opened, Bool.false_eq_true, if_false]
  rw [if_neg (by simp [unstopped])]
  rfl

/-- Attempts from nothing leave the server and the saved state agreed, and a faultless attempt then
returns what the server advertises, exactly when every attempt that made the directory was whole. -/
theorem survives_iff {db₀ db : Database} {past : List (Move Database Operation)}
    (unused : db₀.Unused) (reached : Run Operation.Step db₀ past db)
    (bare : db.bundles.lookup owner.id.val = none) {ms : List (Move Activation Event)}
    (run : Run (Step owner) ⟨none, db⟩ ms t) (faultless : Faultless owner a t) :
    ((∀ m ∈ ms, Kept owner m.after) ∧ ∃ s, (a.openOrRegister owner t).1 = .ok s ∧
      (a.openOrRegister owner t).2.held owner = some ⟨1, .enabled, s.identity.bundle⟩) ↔
    ∀ m ∈ ms, Whole owner m := by
  have start : Prepared owner ⟨none, db⟩ :=
    ⟨Database.Sound.reached unused reached, .inl ⟨rfl, bare⟩⟩
  -- the system stays prepared along whole moves, and is torn for good after any other
  have along : ((∀ m ∈ ms, Whole owner m ∧ Prepared owner m.after) ∧ Prepared owner t) ∨
      ((∃ m ∈ ms, ¬ Whole owner m) ∧ t.directory = some none) := by
    clear faultless
    induction run with
    | start => exact .inl ⟨fun _ member => (nomatch member), start⟩
    | @move past a l b run taken ih =>
      rcases ih with ⟨whole, prepared⟩ | ⟨⟨m, member, broken⟩, torn⟩
      · rcases prepared.step taken with ⟨here, next⟩ | ⟨broken, torn⟩
        · refine .inl ⟨fun m member => ?_, next⟩
          rcases List.mem_append.mp member with old | new
          · exact whole m old
          · cases List.mem_singleton.mp new
            exact ⟨here, next⟩
        · exact .inr ⟨⟨_, List.mem_append_right _ (List.mem_singleton.mpr rfl), broken⟩, torn⟩
      · exact .inr ⟨⟨m, List.mem_append_left _ member, broken⟩, torn_step torn taken⟩
  constructor
  · rintro ⟨-, s, returned, -⟩
    rcases along with ⟨whole, -⟩ | ⟨-, torn⟩
    · exact fun m member => (whole m member).1
    · rw [torn_refuses torn faultless.1] at returned
      cases returned
  · intro whole
    rcases along with ⟨all, prepared⟩ | ⟨⟨m, member, broken⟩, -⟩
    · exact ⟨fun m member => (all m member).2.kept, prepared.recovers faultless⟩
    · exact absurd (whole m member) broken

end Activation

section Sample

open Arithmetic Activation

def Arithmetic.alice : Owner where
  id := second
  key := key 2
  publicKey := 2

/-- An attempt that draws the bundle number `n`, cut short where told. -/
def Arithmetic.attempt (n : Nat) (stop : Option Stop) : Attempt where
  stop
  page := {
    networkId := 7
    peers := [⟨1, key 1, true⟩, ⟨2, key 2, false⟩, ⟨3, key 3, false⟩] }
  material := {
    bundleId := BitVec.ofNat _ n
    hybridPublic := ⟨0, 0⟩
    hybridSecret := ⟨0, 0⟩
    signingPublic := BitVec.ofNat _ n
    signing := BitVec.ofNat _ n
    provisionId := 0
    psk := 0 }
  permissive := false
  limits := limits
  size := 0
  now := 10

theorem Arithmetic.attempt_admitted :
    @Attempt.Admitted native (attempt 6 (some .renamed)) alice site := by
  have serves : ((attempt 6 (some .renamed)).page.introduce alice.publicKey).isSome = true ∧
      refusal (site.caller 2 (key 2)) = none ∧ site.isServer 2 = .ok false ∧
      @Bundle.validate native (Identity.generate alice.publicKey ⟨1, by decide, by decide⟩
        (attempt 6 (some .renamed)).material).bundle = .ok () ∧
      Key.fromBase64 (key 2) = some alice.publicKey.bytes ∧
      site.budget limits 0 true = .ok () := by
    decide +kernel
  obtain ⟨lists, caller, data, valid, decoded, budget⟩ := serves
  exact @Attempt.Admitted.mk native _ _ _ lists (by decide +kernel) (by decide +kernel)
    (unrefused_ok caller) data valid decoded budget rfl

/-- The attempts one after the other, from nothing. -/
def Arithmetic.activated (attempts : List Attempt) : Activation :=
  attempts.foldl (fun t a => (@Attempt.openOrRegister native a alice t).2) ⟨none, site⟩

theorem Activation.survives_iff_renamed : ∃ ms,
    Run (@Step native alice) ⟨none, site⟩ ms
      (activated [attempt 5 (some .opening), attempt 6 (some .renamed)]) ∧ ms.length = 2 ∧
    (∀ m ∈ ms, @Whole native alice m) ∧ ∃ s, (@Attempt.openOrRegister native (attempt 7 none) alice
      (activated [attempt 5 (some .opening), attempt 6 (some .renamed)])).1 = .ok s := by
  let opened : Activation := ⟨none, site⟩
  have run : Run (@Step native alice) opened
      ([] ++ [⟨opened, .attempt (attempt 5 (some .opening)), activated [attempt 5 (some .opening)]⟩] ++
        [⟨activated [attempt 5 (some .opening)], .attempt (attempt 6 (some .renamed)),
          activated [attempt 5 (some .opening), attempt 6 (some .renamed)]⟩])
      (activated [attempt 5 (some .opening), attempt 6 (some .renamed)]) :=
    .move (.move .start (@Step.attempt native alice opened _))
      (@Step.attempt native alice (activated [attempt 5 (some .opening)]) _)
  have same : activated [attempt 5 (some .opening)] = opened := rfl
  have whole : ∀ m ∈ ([] ++
      [⟨opened, .attempt (attempt 5 (some .opening)), activated [attempt 5 (some .opening)]⟩] ++
        [⟨activated [attempt 5 (some .opening)], .attempt (attempt 6 (some .renamed)),
          activated [attempt 5 (some .opening), attempt 6 (some .renamed)]⟩] :
            List (Move Activation Event)), @Whole native alice m := by
    intro m member
    rw [List.nil_append, List.singleton_append, List.mem_cons, List.mem_singleton] at member
    rcases member with rfl | rfl
    · exact fun _ => .inl rfl
    · refine fun _ => .inr ⟨.inr rfl, ?_⟩
      rw [same]
      exact attempt_admitted
  have held : ((activated [attempt 5 (some .opening), attempt 6 (some .renamed)]).held
      alice).isSome = true := by
    decide +kernel
  have faultless : @Faultless native alice (attempt 7 none)
      (activated [attempt 5 (some .opening), attempt 6 (some .renamed)]) := by
    refine ⟨rfl, fun bare => ?_⟩
    rw [bare] at held
    cases held
  obtain ⟨past, reached⟩ := served_run []
  obtain ⟨-, s, returned, -⟩ := (@survives_iff native _ _ _ _ _ _ site_unused reached rfl _ run
    faultless).mpr whole
  exact ⟨_, run, rfl, whole, s, returned⟩

/-- The reply to the first registration is lost: the server advertises a bundle whose private keys
nobody has, and the next attempt finds an empty directory. -/
theorem Activation.registered_unsaved : ∃ ms,
    Run (@Step native alice) ⟨none, site⟩ ms (activated [attempt 5 (some .replying)]) ∧
    @Faultless native alice (attempt 6 none) (activated [attempt 5 (some .replying)]) ∧
    ¬ Kept alice (activated [attempt 5 (some .replying)]) ∧
    (@Attempt.openOrRegister native (attempt 6 none) alice
      (activated [attempt 5 (some .replying)])).1 = .error (.store .corrupt) := by
  let opened : Activation := ⟨none, site⟩
  have run : Run (@Step native alice) opened
      ([] ++ [⟨opened, .attempt (attempt 5 (some .replying)), activated [attempt 5 (some .replying)]⟩])
      (activated [attempt 5 (some .replying)]) :=
    .move .start (@Step.attempt native alice opened _)
  have facts : ((activated [attempt 5 (some .replying)]).held alice).isSome = true ∧
      (activated [attempt 5 (some .replying)]).directory = some none := by
    decide +kernel
  obtain ⟨held, torn⟩ := facts
  refine ⟨_, run, ⟨rfl, fun bare => ?_⟩, fun kept => ?_, @torn_refuses native _ _ _ torn rfl⟩
  · rw [bare] at held
    cases held
  · obtain ⟨adv, there⟩ := Option.isSome_iff_exists.mp held
    obtain ⟨e, m, saved, -⟩ := kept adv there
    rw [torn] at saved
    cases saved

end Sample

end Innernet
