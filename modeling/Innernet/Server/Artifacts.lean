import Innernet.Server.Startup
import Mathlib

/-! The artifacts an operator carries to a peer: `Store::export` of `pq/src/store.rs` and the two
commands that export, `stage_management_rotation` and `prepare`. A file that is there is never
written again, whatever it holds. -/
namespace Innernet

open Fallible Tables Runs Database

namespace Management

/-- `Provisioning`. -/
structure Provisioning where
  serverPublicKey : String
  peerAddress : String
  enrollment : Enrollment
  deriving DecidableEq

/-- A JSON array of numbers. -/
def jsonBytes (bytes : List UInt8) : List Char :=
  "[".toList ++ ",".toList.intercalate (bytes.map fun b => (toString b.toNat).toList) ++ "]".toList

/-- A JSON string; nothing written so has a character to escape. -/
def jsonText (text : List Char) : List Char := "\x22".toList ++ text ++ "\x22".toList

def jsonObject (fields : List (String × List Char)) : List Char :=
  "\x7b".toList ++ ",".toList.intercalate (fields.map fun f =>
    jsonText f.1.toList ++ ":".toList ++ f.2) ++ "\x7d".toList

def Enrollment.json (e : Enrollment) : List Char := jsonObject [
  ("network-id", jsonBytes e.networkId.bytes),
  ("provision-id", jsonBytes e.provisionId.bytes),
  ("peer-id", (toString e.peerId).toList),
  ("server-id", (toString e.serverId).toList),
  ("psk", jsonText (Key.toBase64 e.psk.bytes).toList)]

/-- `serde_json::to_vec`; the text is ASCII. -/
def Provisioning.encode (p : Provisioning) : List UInt8 :=
  (jsonObject [
    ("server-public-key", jsonText p.serverPublicKey.toList),
    ("peer-address", jsonText p.peerAddress.toList),
    ("enrollment", p.enrollment.json)]).map fun c => UInt8.ofNat c.toNat

end Management

open Management

namespace Vault

/-- The names `Store::export` accepts. They are ASCII, one byte a character. -/
def exportable (filename : String) : Bool :=
  decide (filename.toList ≠ [] ∧ filename.length ≤ 128 ∧ filename.toList.head? ≠ some '.') &&
    filename.toList.all (fun c => c.isAlphanum || c == '-' || c == '_' || c == '.') &&
    decide (filename ≠ "state.json" ∧ filename ≠ "owner.lock")

/-- `Store::export`. A crash leaves the first `torn` bytes of a new file. -/
def export_ (v : Vault) (filename : String) (bytes : List UInt8) (torn : Option Nat) :
    Except Failure Unit × Vault :=
  if exportable filename = false ∨ 2 ^ 20 < bytes.length then (.error (.store .io), v)
  else match v.artifacts.lookup filename with
  | some prior =>
    if prior.take (2 ^ 20 + 1) = bytes then (.ok (), v) else (.error (.store .conflict), v)
  | none => match torn with
    | some n =>
      (.error .cut, { v with artifacts := v.artifacts.insert filename (bytes.take n) })
    | none => (.ok (), { v with artifacts := v.artifacts.insert filename bytes })

/-- Nothing is written, or a file that was not there. -/
theorem export_writes (v : Vault) (filename : String) (bytes : List UInt8) (torn : Option Nat) :
    (v.export_ filename bytes torn).2 = v ∨
      v.artifacts.lookup filename = none ∧ ∃ written, (v.export_ filename bytes torn).2 =
        { v with artifacts := v.artifacts.insert filename written } := by
  unfold export_
  split
  · exact .inl rfl
  · split
    · split <;> exact .inl rfl
    · rename_i missing
      refine .inr ⟨missing, ?_⟩
      split
      · exact ⟨_, rfl⟩
      · exact ⟨bytes, rfl⟩

theorem export_ok {v : Vault} {filename : String} {bytes : List UInt8} :
    (v.export_ filename bytes none).1 = .ok () ↔ exportable filename = true ∧
      bytes.length ≤ 2 ^ 20 ∧
        (v.artifacts.lookup filename = none ∨ v.artifacts.lookup filename = some bytes) := by
  unfold export_
  split
  · rename_i refused
    refine iff_of_false (fun impossible => nomatch impossible) ?_
    rintro ⟨named, fits, -⟩
    rcases refused with bad | long
    · rw [named] at bad
      cases bad
    · omega
  · rename_i accepted
    rw [not_or, Bool.not_eq_false] at accepted
    obtain ⟨named, short⟩ := accepted
    have fits : bytes.length ≤ 2 ^ 20 := Nat.le_of_not_lt short
    cases found : v.artifacts.lookup filename with
    | none => exact iff_of_true rfl ⟨named, fits, .inl rfl⟩
    | some prior =>
      -- The file is read up to one byte more than an export may have.
      have whole : prior.take (2 ^ 20 + 1) = bytes ↔ prior = bytes := by
        constructor
        · rintro rfl
          rw [List.length_take] at fits
          exact (List.take_of_length_le (by omega)).symm
        · rintro rfl
          exact List.take_of_length_le (Nat.le_succ_of_le fits)
      simp only [whole]
      split
      · rename_i same
        exact iff_of_true rfl ⟨named, fits, .inr (congrArg some same)⟩
      · rename_i different
        refine iff_of_false (fun impossible => nomatch impossible) ?_
        rintro ⟨-, -, impossible | same⟩
        · cases impossible
        · exact different (Option.some.inj same)

theorem export_there {v : Vault} {filename : String} {bytes : List UInt8}
    (done : (v.export_ filename bytes none).1 = .ok ()) :
    (v.export_ filename bytes none).2.artifacts.lookup filename = some bytes := by
  obtain ⟨named, fits, absent | same⟩ := export_ok.mp done
  · unfold export_
    have short : ¬ 2 ^ 20 < bytes.length := Nat.not_lt_of_le fits
    simp only [named, Bool.true_eq_false, false_or, if_neg short, absent]
    exact AList.lookup_insert _
  · rcases export_writes v filename bytes none with left | ⟨missing, -⟩
    · rw [left]
      exact same
    · rw [missing] at same
      cases same

end Vault

namespace Host

def artifact (h : Host) (filename : String) : Option (List UInt8) :=
  h.vault.bind fun v => v.artifacts.lookup filename

/-- An export into the store of an open manager. -/
def export_ (h : Host) (filename : String) (bytes : List UInt8) (torn : Option Nat) :
    Except Failure Unit × Host :=
  let (result, v) := (h.vault.getD ⟨none, ∅⟩).export_ filename bytes torn
  (result, { h with vault := some v })

/-- The name of a peer's artifact of a rotation. -/
def rotationFile (id : Nat) : String := "peer-" ++ toString id ++ ".management.rotation.json"

/-- The name of a peer's artifact of a migration. -/
def managementFile (id : Nat) : String := "peer-" ++ toString id ++ ".management.json"

/-- The artifact of an enrollment of the peer with the row `row`. -/
def provisioning (h : Host) (row : PeerRow) (enrollment : Management.Enrollment) :
    Provisioning where
  serverPublicKey := Key.toBase64 h.config.publicKey
  peerAddress := row.ip
  enrollment

/-- `stage_management_rotation`. -/
def stageRotation (h : Host) (name : String) (independentAdminAccess : Bool)
    (adopted : Option SecretKey) (rng : Entropy) (saving : Saving) (cut : Option Cut)
    (torn : Option Nat) : Except Failure String × Host :=
  let rotation : Rotation := .stage (adopted.map SecretKey.bytes) rng
  let listed := h.db
  match h.rotate name independentAdminAccess rotation saving cut with
  | (.error e, h) => (.error e, h)
  | (.ok (m, id), h) =>
    if cut = some .saved then (.error .cut, h)
    else match m.stagedEnrollment id, listed.getPeer id with
    | .error _, _ => (.error (rotationFailure name rotation), h)
    | _, .error e => (.error (.server e), h)
    | .ok enrollment, .ok row =>
      match h.export_ (rotationFile id) (h.provisioning row enrollment).encode torn with
      | (.error e, h) => (.error e, h)
      | (.ok (), h) => (.ok (rotationFile id), h)

/-- The enabled peers but the server itself. -/
def enrolled (h : Host) (serverId : Nat) : List (Sigma fun _ : Nat => PeerRow) :=
  h.db.listPeers.filter fun e => !(decide (e.1 = serverId) || e.2.isDisabled)

/-- A link for every peer of a list. -/
def provisionAll (adopted : Table Number SecretKey) (rng : Nat → Entropy) :
    List (Sigma fun _ : Nat => PeerRow) → ServerState → Except Error ServerState
  | [], state => .ok state
  | e :: rest, state => do
    let id ← Number.new e.1
    let state ← state.provision id ((adopted.lookup id).map SecretKey.bytes) (rng e.1)
    provisionAll adopted rng rest state

/-- The exports of `prepare`. A crash comes in the export for one of the peers. -/
def exportAll (h : Host) (m : Manager) (torn : Option (Nat × Nat)) :
    List (Sigma fun _ : Nat => PeerRow) → Except Failure Unit × Host
  | [] => (.ok (), h)
  | e :: rest =>
    match m.enrollment e.1 with
    | .error failure => (.error failure, h)
    | .ok enrollment =>
      match h.export_ (managementFile e.1) (h.provisioning e.2 enrollment).encode
          ((torn.filter fun t => decide (t.1 = e.1)).map Prod.snd) with
      | (.error failure, h) => (.error failure, h)
      | (.ok (), h) => exportAll h m torn rest

/-- What a `prepare` is given and draws, and where it ends early. -/
structure Preparation where
  independentAdminAccess : Bool
  adopted : Table Number SecretKey
  first : Nat → Entropy
  second : Nat → Entropy
  cut : Option Cut
  torn : Option (Nat × Nat)

/-- The state `prepare` makes before it touches the store. -/
def drafted (h : Host) (p : Preparation) (serverId : Nat) : Except Failure ServerState :=
  match Number.new serverId with
  | .error e => .error (.pq e)
  | .ok number =>
    if p.adopted.keys.any fun id => !(h.enrolled serverId).any fun e => decide (e.1 = id.val) then
      .error (.text "adoption file contains an unavailable peer identity")
    else
      let state : ServerState := {
        networkId := h.db.network.networkId
        serverId := number
        serverPublicKey := h.config.publicKey
        links := ∅ }
      match provisionAll p.adopted p.first (h.enrolled serverId) state with
      | .error e => .error (.pq e)
      | .ok state => .ok state

/-- The state `prepare` saves: its own in a new store, else the one there is with links added. -/
def settled (h : Host) (p : Preparation) (serverId : Nat) (draft : ServerState)
    (found : Option Vault) : Except Failure ServerState :=
  match found with
  | none =>
    match draft.validate with
    | .error e => .error (.pq e)
    | .ok () => .ok draft
  | some vault =>
    match vault.state with
    | none => .error (.store .corrupt)
    | some prior =>
      match prior.validate with
      | .error e => .error (.pq e)
      | .ok () =>
        if prior.networkId ≠ draft.networkId ∨ prior.serverId ≠ draft.serverId ∨
            prior.serverPublicKey ≠ draft.serverPublicKey then
          .error (.text "private management state belongs to a different identity")
        else match provisionAll p.adopted p.second (h.enrolled serverId) prior with
          | .error e => .error (.pq e)
          | .ok state => .ok state

/-- `prepare`. -/
def prepare (h : Host) (p : Preparation) : Except Failure Unit × Host :=
  if ¬ p.independentAdminAccess then
    (.error (.text "independent authenticated administrative access is required"), h)
  else match h.identify with
  | (.error e, h) => (.error e, h)
  | (.ok serverId, h) =>
    if p.cut = some .identified then (.error .cut, h)
    else match h.drafted p serverId with
    | .error e => (.error e, h)
    | .ok draft =>
      let found := h.vault
      let h := { h with vault := some (found.getD ⟨none, ∅⟩) }
      if p.cut = some .made then (.error .cut, h)
      else match h.settled p serverId draft found with
      | .error e => (.error e, h)
      | .ok state =>
        if p.cut = some .saving then (.error (.store .io), h)
        else
          let h := h.put state
          if p.cut = some .saved then (.error .cut, h)
          else
            let h := { h with config := { h.config with managementRequired := true } }
            if p.cut = some .ready then (.error .cut, h)
            else h.exportAll ⟨state, state⟩ p.torn (h.enrolled serverId)

/-- A file named after a peer may be exported, and its name tells the peer. -/
theorem peerFile_exportable {id : Nat} (bound : id < 10 ^ 20) {suffix : String}
    (short : suffix.length ≤ 64)
    (plain : suffix.toList.all (fun c => c.isAlphanum || c == '-' || c == '_' || c == '.') = true) :
    Vault.exportable ("peer-" ++ toString id ++ suffix) = true := by
  have size : (toString id).length ≤ 20 := (Nat.length_repr_le_iff (by decide)).mpr bound
  have digits : ∀ c ∈ (toString id).toList, c.isAlphanum = true := by
    intro c member
    have digit : c.isDigit = true :=
      Nat.isDigit_of_mem_toDigits (b := 10) (n := id) (by decide) (by decide)
        (by rw [← Nat.toList_repr]; exact member)
    simp [Char.isAlphanum, digit]
  have spelled : ("peer-" ++ toString id ++ suffix).toList =
      'p' :: 'e' :: 'e' :: 'r' :: '-' :: ((toString id).toList ++ suffix.toList) := by
    rw [String.toList_append, String.toList_append]
    rfl
  have other : ∀ name : String, name.toList.head? ≠ some 'p' →
      "peer-" ++ toString id ++ suffix ≠ name := by
    rintro _ different rfl
    rw [spelled] at different
    exact different rfl
  unfold Vault.exportable
  rw [Bool.and_eq_true, Bool.and_eq_true, decide_eq_true_eq, decide_eq_true_eq]
  refine ⟨⟨⟨?_, ?_, ?_⟩, ?_⟩, other _ (by decide), other _ (by decide)⟩
  · rw [spelled]
    exact List.cons_ne_nil _ _
  · have five : ("peer-" : String).length = 5 := rfl
    rw [String.length_append, String.length_append, five]
    omega
  · rw [spelled]
    simp
  · rw [spelled]
    simp only [List.all_cons, List.all_append, Bool.and_eq_true]
    refine ⟨rfl, rfl, rfl, rfl, rfl, ?_, plain⟩
    rw [List.all_eq_true]
    intro c member
    simp [digits c member]

theorem rotationFile_exportable {id : Nat} (bound : id < 10 ^ 20) :
    Vault.exportable (rotationFile id) = true :=
  peerFile_exportable bound (by decide) (by decide)

theorem managementFile_exportable {id : Nat} (bound : id < 10 ^ 20) :
    Vault.exportable (managementFile id) = true :=
  peerFile_exportable bound (by decide) (by decide)

theorem managementFile_injective {id id' : Nat} (same : managementFile id = managementFile id') :
    id = id' := by
  unfold managementFile at same
  rw [String.append_left_inj, String.append_right_inj] at same
  exact Nat.repr_inj.mp same

section Exports

variable {h : Host} {filename : String} {bytes : List UInt8}

/-- An export may go ahead: the file is new, or holds what would be written. -/
def Free (h : Host) (filename : String) (bytes : List UInt8) : Prop :=
  bytes.length ≤ 2 ^ 20 ∧ (h.artifact filename = none ∨ h.artifact filename = some bytes)

/-- Nothing but the artifacts differs, and those that were there are as they were. -/
structure Exports (h h' : Host) : Prop where
  config : h'.config = h.config
  db : h'.db = h.db
  state : h'.state = h.state
  kept : ∀ file bytes, h.artifact file = some bytes → h'.artifact file = some bytes

theorem Exports.refl (h : Host) : Exports h h := ⟨rfl, rfl, rfl, fun _ _ found => found⟩

theorem Exports.trans {h h' h'' : Host} (first : Exports h h') (second : Exports h' h'') :
    Exports h h'' :=
  ⟨second.config.trans first.config, second.db.trans first.db, second.state.trans first.state,
    fun file bytes found => second.kept file bytes (first.kept file bytes found)⟩

theorem artifact_of {v : Vault} (there : h.vault = some v) (file : String) :
    h.artifact file = v.artifacts.lookup file := by
  rw [artifact, there]
  rfl

theorem export_vault {v : Vault} (there : h.vault = some v) (filename : String)
    (bytes : List UInt8) (torn : Option Nat) :
    h.export_ filename bytes torn = ((v.export_ filename bytes torn).1,
      { h with vault := some (v.export_ filename bytes torn).2 }) := by
  unfold export_
  rw [there, Option.getD_some]

/-- An export writes at most its own file, and that only when it is not there. -/
theorem export_frame {v : Vault} (there : h.vault = some v) (filename : String)
    (bytes : List UInt8) (torn : Option Nat) :
    Exports h (h.export_ filename bytes torn).2 ∧
      ∀ file, file ≠ filename →
        (h.export_ filename bytes torn).2.artifact file = h.artifact file := by
  rw [export_vault there]
  rcases Vault.export_writes v filename bytes torn with same | ⟨missing, written, added⟩
  · have left : { h with vault := some (v.export_ filename bytes torn).2 } = h := by
      rw [same, ← there]
    rw [left]
    exact ⟨.refl h, fun _ _ => rfl⟩
  · rw [added]
    have others : ∀ file, file ≠ filename → Host.artifact { h with vault := some { v with
        artifacts := v.artifacts.insert filename written } } file = h.artifact file := by
      intro file other
      rw [artifact_of there]
      exact AList.lookup_insert_ne other
    refine ⟨⟨rfl, rfl, by rw [state, state, there]; rfl, fun file bytes found => ?_⟩, others⟩
    rw [others file, found]
    rintro rfl
    rw [artifact_of there, missing] at found
    cases found

/-- An export that is not cut short succeeds exactly when it may. -/
theorem export_iff {v : Vault} (there : h.vault = some v)
    (named : Vault.exportable filename = true) (bytes : List UInt8) :
    (h.export_ filename bytes none).1 = .ok () ↔ h.Free filename bytes := by
  rw [export_vault there, Vault.export_ok, Free, artifact_of there]
  exact and_iff_right named

theorem export_written {v : Vault} (there : h.vault = some v)
    (done : (h.export_ filename bytes none).1 = .ok ()) :
    (h.export_ filename bytes none).2.artifact filename = some bytes := by
  rw [export_vault there] at done ⊢
  exact Vault.export_there done

end Exports

end Host

namespace ManagementLink

/-- The candidate of a staging: the one that is there, or one of the draws. -/
def candidate (link : ManagementLink) (adopted : Option (Binary 32)) (provisionId : Binary 16)
    (psk : Binary 32) : StagedLink :=
  link.staged.getD ⟨provisionId, adopted.getD psk⟩

/-- A staging draws a candidate for a link that has none, and only agrees to the one that is there
otherwise. -/
theorem stageRotation_ok {link changed : ManagementLink} {adopted : Option SecretKey}
    {provisionId : Binary 16} {psk : Binary 32} :
    link.stageRotation (adopted.map SecretKey.bytes) ⟨some provisionId, some psk⟩ = .ok changed ↔
      (∀ staged key, link.staged = some staged → adopted = some key → key.bytes = staged.psk) ∧
      (link.staged = none → psk ≠ 0) ∧
      changed = { link with
        staged := some (link.candidate (adopted.map SecretKey.bytes) provisionId psk) } := by
  unfold stageRotation candidate
  cases found : link.staged with
  | some staged =>
    have same : { link with staged := some staged } = link := by
      rw [← found]
    simp only [bind_ok, require_ok, pure_ok, Option.getD_some, same]
    constructor
    · rintro ⟨_, agreed, rfl⟩
      refine ⟨?_, fun impossible => (by cases impossible), rfl⟩
      rintro _ key ⟨⟩ rfl
      exact of_decide_eq_true agreed
    · rintro ⟨agreed, -, rfl⟩
      refine ⟨⟨⟩, ?_, rfl⟩
      cases adopted with
      | none => rfl
      | some key => exact decide_eq_true (agreed staged key rfl rfl)
  | none =>
    simp only [StagedLink.generate, StagedLink.validate, Crypto.random, bind_ok, require_ok,
      pure_ok, Option.getD_none]
    constructor
    · rintro ⟨staged, ⟨_, ⟨⟩, _, ⟨⟩, _, nonzero, rfl⟩, _, _, rfl⟩
      exact ⟨fun _ _ impossible => (by cases impossible), fun _ => nonzero, rfl⟩
    · rintro ⟨-, nonzero, rfl⟩
      refine ⟨_, ⟨_, rfl, _, rfl, ⟨⟩, nonzero trivial, rfl⟩, ⟨⟩, ?_, rfl⟩
      cases adopted with
      | none => exact nonzero trivial
      | some key => exact key.nonzero

theorem stagedEnrollment_some {link : ManagementLink} (networkId : Binary 16)
    (serverId peer : Int) :
    (∃ enrollment, link.stagedEnrollment networkId serverId peer = some enrollment) ↔
      ∃ staged, link.staged = some staged ∧ staged.psk ≠ 0 := by
  unfold stagedEnrollment
  cases link.staged with
  | none => simp
  | some staged =>
    rcases ok_or_error (SecretKey.fromBytes staged.psk) with ⟨key, done⟩ | ⟨e, failed⟩
    · have nonzero : staged.psk ≠ 0 := SecretKey.fromBytes_ok.mp done ▸ key.nonzero
      refine iff_of_true ?_ ⟨staged, rfl, nonzero⟩
      change ∃ enrollment, ((SecretKey.fromBytes staged.psk).toOption.bind _) = some enrollment
      rw [done]
      exact ⟨_, rfl⟩
    · refine iff_of_false ?_ ?_
      · change ¬ ∃ enrollment, ((SecretKey.fromBytes staged.psk).toOption.bind _) = some enrollment
        rw [failed]
        rintro ⟨_, impossible⟩
        cases impossible
      · rintro ⟨_, ⟨⟩, nonzero⟩
        have done : SecretKey.fromBytes staged.psk = .ok ⟨staged.psk, nonzero⟩ :=
          SecretKey.fromBytes_ok.mpr rfl
        cases failed.symm.trans done

end ManagementLink

/-- The candidate of a link that has just been set. -/
theorem Manager.stagedEnrollment_setLink {s : ServerState} {id : Nat} {peer : Number}
    (target : Number.new id = .ok peer) (link : ManagementLink) :
    Manager.stagedEnrollment ⟨s.setLink peer link, s.setLink peer link⟩ id =
      (link.stagedEnrollment s.networkId s.serverId.val id).elim (.error .unavailable) .ok := by
  unfold Manager.stagedEnrollment
  rw [target]
  have found : (s.setLink peer link).link peer = some link := by
    rw [ServerState.link_setLink, if_pos rfl]
  simp only [pq, bind, Except.bind, found]
  cases sealed : link.stagedEnrollment s.networkId s.serverId.val id with
  | none =>
    rw [show link.stagedEnrollment (s.setLink peer link).networkId
      (s.setLink peer link).serverId.val id = none from sealed]
    rfl
  | some enrollment =>
    rw [show link.stagedEnrollment (s.setLink peer link).networkId
      (s.setLink peer link).serverId.val id = some enrollment from sealed]
    rfl

namespace Host

section Staging

theorem put_artifact (h : Host) (s : ServerState) (file : String) :
    (h.put s).artifact file = h.artifact file := by
  unfold artifact put
  cases h.vault <;> rfl

theorem on_artifact (h : Host) (db : Database) (file : String) :
    (h.on db).artifact file = h.artifact file := rfl

variable {h : Host} {name : String} {id : Nat} {s : ServerState} {link : ManagementLink}

/-- The command opens the store `s`, and the peer with the name has a link there. -/
structure Reaches (h : Host) (name : String) (id : Nat) (s : ServerState) (link : ManagementLink) :
    Prop where
  named : h.findPeerByName name = .ok id
  managed : (h.openOrCreate none).1 = .ok (some ⟨s, s⟩)
  found : s.linkOf id = some link

/-- The command succeeds, and the file it names is the artifact of the enrollment staged then. -/
def Carries (h : Host) (id : Nat) (ended : Except Failure String × Host) : Prop :=
  ∃ file s row enrollment, ended.1 = .ok file ∧ ended.2.state = some s ∧
    Manager.stagedEnrollment ⟨s, s⟩ id = .ok enrollment ∧ h.db.peers.lookup id = some row ∧
    ended.2.artifact file = some (h.provisioning row enrollment).encode

/-- When a staging can be carried out: the adopted secret is the staged one if there is one, and the
file of the peer is not there or is the artifact of the candidate. -/
structure Stageable (h : Host) (id : Nat) (s : ServerState) (link : ManagementLink)
    (adopted : Option SecretKey) (provisionId : Binary 16) (psk : Binary 32) : Prop where
  agreed : ∀ staged key, link.staged = some staged → adopted = some key → key.bytes = staged.psk
  drawn : link.staged = none → psk ≠ 0
  nonzero : (link.candidate (adopted.map SecretKey.bytes) provisionId psk).psk ≠ 0
  free : ∀ row enrollment, h.db.peers.lookup id = some row →
    ManagementLink.stagedEnrollment { link with
      staged := some (link.candidate (adopted.map SecretKey.bytes) provisionId psk) }
      s.networkId s.serverId.val id = some enrollment →
    h.Free (rotationFile id) (h.provisioning row enrollment).encode

theorem openOrCreate_found {s : ServerState} (managed : (h.openOrCreate none).1 = .ok (some ⟨s, s⟩))
    (linked : s.linkOf id ≠ none) : h.state = some s ∧ s.validate = .ok () ∧
      ∃ db, (h.openOrCreate none).2 = h.on db := by
  have kept : ∀ {serverId h'}, h.identify = (.ok serverId, h') → ∃ db, h' = h.on db := by
    intro serverId h' found
    unfold identify at found
    dsimp only at found
    split at found
    · cases found
      exact ⟨_, rfl⟩
    · cases found
    · cases found
  unfold openOrCreate at managed ⊢
  split at managed
  · cases managed
  · rename_i required
    rw [if_neg required]
    split at managed
    · cases managed
    · rename_i serverId h' identified
      obtain ⟨db, rfl⟩ := kept identified
      simp only [reduceCtorEq, if_false] at managed ⊢
      split at managed
      · rename_i vault open_
        change (reopen (h.on db) vault serverId).map some = .ok (some ⟨s, s⟩) at managed
        unfold reopen at managed
        split at managed
        · cases managed
        · rename_i state inside
          split at managed
          · cases managed
          · rename_i valid
            rcases ok_or_error (do
              require (state.networkId = (h.on db).db.network.networkId ∧
                state.serverPublicKey = (h.on db).config.publicKey ∧
                state.serverId.val = serverId) Manager.mismatch
              return (⟨state, state⟩ : Manager)) with ⟨m, done⟩ | ⟨e, failed⟩
            · rw [done] at managed
              simp only [bind_ok, require_ok, pure_ok] at done
              obtain ⟨_, -, rfl⟩ := done
              cases managed
              refine ⟨?_, valid, db, rfl⟩
              have stored : (h.on db).state = some s := by
                rw [Host.state, open_]
                exact inside
              exact stored
            · rw [failed] at managed
              cases managed
      · rename_i missing
        split at managed
        · cases managed
        · rename_i state made
          cases managed
          unfold initial at made
          split at made
          · cases made
          · dsimp only at made
            split at made
            · cases made
            · cases made
              refine absurd ?_ linked
              unfold ServerState.linkOf
              cases (Number.new id).toOption <;> rfl

/-- A staging opened on its link: it stops there, or exports the candidate it has saved. -/
theorem Reaches.rotate_ends (reaches : h.Reaches name id s link) (adopted : Option SecretKey)
    (provisionId : Binary 16) (psk : Binary 32) :
    ∃ db peer, Number.new id = .ok peer ∧
      h.rotate name true (.stage (adopted.map SecretKey.bytes) ⟨some provisionId, some psk⟩) .done
        none =
        match link.stageRotation (adopted.map SecretKey.bytes) ⟨some provisionId, some psk⟩ with
        | .error _ => (.error (rotationFailure name
            (.stage (adopted.map SecretKey.bytes) ⟨some provisionId, some psk⟩)), (h.on db).put s)
        | .ok changed => (.ok (⟨s.setLink peer changed, s.setLink peer changed⟩, id),
            (h.on db).put (s.setLink peer changed)) := by
  have linked : s.linkOf id ≠ none := by
    rw [reaches.found]
    exact Option.some_ne_none _
  obtain ⟨stored, valid, db, ends⟩ := openOrCreate_found reaches.managed linked
  obtain ⟨peer, there, found⟩ := Option.bind_eq_some_iff.mp reaches.found
  have target := toOption_some.mp there
  have apart : peer ≠ s.serverId := by
    rintro rfl
    rw [(ServerState.validate_ok.mp valid).2.1] at found
    cases found
  have opened : h.openOrCreate none = (.ok (some ⟨s, s⟩), h.on db) := Prod.ext reaches.managed ends
  have managed : h.requiredManagement true none = (.ok ⟨s, s⟩, h.on db) := by
    unfold requiredManagement
    rw [if_neg (not_not.mpr rfl), opened]
  refine ⟨db, peer, target, ?_⟩
  unfold rotate
  rw [reaches.named]
  simp only [managed]
  unfold Manager.rotate
  rw [if_neg (fun impossible => Rotation.noConfusion impossible)]
  simp only [target]
  cases acted : link.stageRotation (adopted.map SecretKey.bytes) ⟨some provisionId, some psk⟩ with
  | error e =>
    have failed : ∃ e, s.linkMut peer (fun link => link.rotate
        (.stage (adopted.map SecretKey.bytes) ⟨some provisionId, some psk⟩)) = .error e := by
      rcases ok_or_error (s.linkMut peer fun link => link.rotate
        (.stage (adopted.map SecretKey.bytes) ⟨some provisionId, some psk⟩)) with ⟨s', done⟩ | failed
      · obtain ⟨link', changed, found', acted', -⟩ := ServerState.linkMut_ok done
        cases found.symm.trans found'
        cases acted.symm.trans acted'
      · exact failed
    obtain ⟨e', failed⟩ := failed
    simp only [failed]
  | ok changed =>
    have done : s.linkMut peer (fun link => link.rotate
        (.stage (adopted.map SecretKey.bytes) ⟨some provisionId, some psk⟩)) =
        .ok (s.setLink peer changed) := by
      simp only [ServerState.linkMut, found, bind_ok, require_ok, pure_ok]
      exact ⟨⟨⟩, apart, changed, acted, rfl⟩
    simp only [done]
    rfl

/-- A staging that nothing disturbs leaves its artifact exactly when it can be carried out. -/
theorem Reaches.carries_iff (reaches : h.Reaches name id s link) (adopted : Option SecretKey)
    (provisionId : Binary 16) (psk : Binary 32) :
    h.Carries id (h.stageRotation name true adopted ⟨some provisionId, some psk⟩ .done none none) ↔
      h.Stageable id s link adopted provisionId psk := by
  obtain ⟨db, peer, target, ends⟩ := reaches.rotate_ends adopted provisionId psk
  obtain ⟨row, present, -⟩ : ∃ row, h.db.peers.lookup id = some row ∧ row.name = name := by
    have named := reaches.named
    unfold findPeerByName at named
    split at named
    · cases named
    · rename_i id' rest listed
      cases named
      obtain ⟨row, found, same⟩ := (mem_keysWhere _ _ _).mp (listed ▸ List.mem_cons_self)
      exact ⟨row, found, of_decide_eq_true same⟩
  have read : h.db.getPeer id = .ok row := by
    rw [getPeer, present]
  unfold stageRotation
  dsimp only
  rw [ends]
  cases acted : link.stageRotation (adopted.map SecretKey.bytes) ⟨some provisionId, some psk⟩ with
  | error e =>
    refine iff_of_false ?_ fun stageable => ?_
    · rintro ⟨_, _, _, _, impossible, -⟩
      cases impossible
    · have done : link.stageRotation (adopted.map SecretKey.bytes) ⟨some provisionId, some psk⟩ =
          .ok _ := ManagementLink.stageRotation_ok.mpr ⟨stageable.agreed, stageable.drawn, rfl⟩
      cases acted.symm.trans done
  | ok changed =>
    obtain ⟨agreed, drawn, rfl⟩ := ManagementLink.stageRotation_ok.mp acted
    simp only [reduceCtorEq, if_false, read]
    have stageable : h.Stageable id s link adopted provisionId psk ↔ ∃ enrollment,
        ManagementLink.stagedEnrollment { link with
          staged := some (link.candidate (adopted.map SecretKey.bytes) provisionId psk) }
          s.networkId s.serverId.val id = some enrollment ∧
        h.Free (rotationFile id) (h.provisioning row enrollment).encode := by
      constructor
      · rintro ⟨-, -, nonzero, free⟩
        have held : ∃ staged, ({ link with staged := some (link.candidate
            (adopted.map SecretKey.bytes) provisionId psk) } : ManagementLink).staged =
              some staged ∧ staged.psk ≠ 0 := ⟨_, rfl, nonzero⟩
        obtain ⟨enrollment, sealed⟩ :=
          (ManagementLink.stagedEnrollment_some s.networkId s.serverId.val id).mpr held
        exact ⟨enrollment, sealed, free row enrollment present sealed⟩
      · rintro ⟨enrollment, sealed, free⟩
        refine ⟨agreed, drawn, ?_, ?_⟩
        · obtain ⟨staged, same, nonzero⟩ :=
            (ManagementLink.stagedEnrollment_some _ _ _).mp ⟨_, sealed⟩
          cases same
          exact nonzero
        · rintro row' enrollment' present' sealed'
          cases present.symm.trans present'
          cases sealed.symm.trans sealed'
          exact free
    rw [stageable]
    generalize sealed' : ManagementLink.stagedEnrollment { link with
      staged := some (link.candidate (adopted.map SecretKey.bytes) provisionId psk) }
      s.networkId s.serverId.val id = sealed
    have here := Manager.stagedEnrollment_setLink (s := s) target
      { link with staged := some (link.candidate (adopted.map SecretKey.bytes) provisionId psk) }
    rw [sealed'] at here
    cases sealed with
    | none =>
      rw [Option.elim_none] at here
      simp only [here]
      refine iff_of_false ?_ (by simp)
      rintro ⟨_, _, _, _, impossible, -⟩
      cases impossible
    | some enrollment =>
      rw [Option.elim_some] at here
      simp only [here]
      set s' := s.setLink peer { link with
        staged := some (link.candidate (adopted.map SecretKey.bytes) provisionId psk) }
      have there : ((h.on db).put s').vault = some _ := rfl
      have bounded : id < 10 ^ 20 := by
        have := (Number.new_ok.mp target)
        have := peer.bounded
        omega
      have free := export_iff there (rotationFile_exportable bounded)
        (h.provisioning row enrollment).encode
      have same : ((h.on db).put s').Free (rotationFile id) (h.provisioning row enrollment).encode ↔
          h.Free (rotationFile id) (h.provisioning row enrollment).encode := by
        unfold Free
        rw [put_artifact, on_artifact]
      rw [same] at free
      have provisioned : ((h.on db).put s').provisioning row enrollment =
          h.provisioning row enrollment := rfl
      rw [provisioned]
      constructor
      · rintro ⟨file, s'', row', enrollment', done, stored, sealed, present', written⟩
        refine ⟨enrollment, rfl, free.mp ?_⟩
        split at done
        · cases done
        · rename_i exported
          rw [exported]
      · rintro ⟨_, ⟨⟩, allowed⟩
        have done := free.mpr allowed
        have written := export_written there done
        obtain ⟨frame, -⟩ := export_frame there (rotationFile id)
          (h.provisioning row enrollment).encode none
        split
        · rename_i e h' failed
          rw [failed] at done
          cases done
        · rename_i h' exported
          rw [exported] at written frame
          exact ⟨_, s', row, enrollment, rfl, frame.state, here, present, written⟩

end Staging

end Host

namespace ManagementLink

/-- The active secret as it is exported. -/
def activeEnrollment (link : ManagementLink) (networkId : Binary 16) (serverId peer : Int) :
    Option Management.Enrollment :=
  (SecretKey.fromBytes link.psk).toOption.map fun psk =>
    { networkId, provisionId := link.provisionId, peerId := peer, serverId, psk }

end ManagementLink

/-- The link of a manager's peer, as an artifact has it. -/
theorem Manager.enrollment_ok {m : Manager} {id : Nat} {peer : Number}
    (target : Number.new id = .ok peer) {enrollment : Management.Enrollment} :
    m.enrollment id = .ok enrollment ↔ ∃ link, m.state.link peer = some link ∧
      link.activeEnrollment m.state.networkId m.state.serverId.val id = some enrollment := by
  unfold Manager.enrollment ManagementLink.activeEnrollment
  simp only [target]
  cases m.state.link peer with
  | none => simp
  | some link =>
    cases sealed : SecretKey.fromBytes link.psk with
    | error e => simp [sealed, Except.toOption]
    | ok psk => simp [sealed, Except.toOption]

namespace ServerState

/-- The link a peer has, or is given of its draws. -/
def linkFor (s : ServerState) (adopted : Table Number SecretKey) (rng : Nat → Entropy)
    (peer : Number) : Option ManagementLink :=
  match s.link peer with
  | some link => some link
  | none => do
    let provisionId ← (rng peer.val).provisionId
    let psk ← (rng peer.val).psk
    return {
      provisionId
      psk := ((adopted.lookup peer).map SecretKey.bytes).getD psk
      verified := false
      staged := none
      previous := none }

/-- A link for a peer: it agrees to the one there is, or there is room for one of the draws. -/
theorem provision_iff {s s' : ServerState} {peer : Number} {adopted : Option SecretKey}
    {rng : Entropy} : s.provision peer (adopted.map SecretKey.bytes) rng = .ok s' ↔
      peer ≠ s.serverId ∧
      ((∃ link, s.link peer = some link ∧ (∀ key, adopted = some key → key.bytes = link.psk) ∧
          s' = s) ∨
        (s.link peer = none ∧ s.links.entries.length < 10000 ∧
          ∃ provisionId psk, rng = ⟨some provisionId, some psk⟩ ∧ psk ≠ 0 ∧
            s' = s.setLink peer ⟨provisionId, (adopted.map SecretKey.bytes).getD psk, false, none,
              none⟩)) := by
  simp only [provision, bind_ok, require_ok]
  constructor
  · rintro ⟨_, apart, done⟩
    refine ⟨apart, ?_⟩
    split at done
    · rename_i link found
      simp only [bind_ok, require_ok, pure_ok] at done
      obtain ⟨_, agreed, rfl⟩ := done
      refine .inl ⟨link, found, ?_, rfl⟩
      rintro key rfl
      exact of_decide_eq_true agreed
    · rename_i missing
      simp only [ManagementLink.generated, ManagementLink.validate, Crypto.random, bind_ok,
        require_ok, pure_ok] at done
      obtain ⟨_, room, _, ⟨provisionId, first, psk, second, _, nonzero, rfl⟩, _, _, rfl⟩ := done
      obtain ⟨first', second'⟩ := rng
      cases first' with
      | none => cases first
      | some _ =>
        cases second' with
        | none => cases second
        | some _ =>
          cases first
          cases second
          exact .inr ⟨missing, room, _, _, rfl, nonzero, rfl⟩
  · rintro ⟨apart, ⟨link, found, agreed, rfl⟩ | ⟨missing, room, provisionId, psk, rfl, nonzero, rfl⟩⟩
    · refine ⟨⟨⟩, apart, ?_⟩
      simp only [found, bind_ok, require_ok, pure_ok]
      refine ⟨⟨⟩, ?_, trivial⟩
      cases adopted with
      | none => rfl
      | some key => exact decide_eq_true (agreed key rfl)
    · refine ⟨⟨⟩, apart, ?_⟩
      simp only [missing, ManagementLink.generated, ManagementLink.validate, Crypto.random,
        bind_ok, require_ok, pure_ok]
      refine ⟨⟨⟩, room, _, ⟨_, rfl, _, rfl, ⟨⟩, nonzero, rfl⟩, ⟨⟩, ?_, rfl⟩
      cases adopted with
      | none => exact nonzero
      | some key => exact key.nonzero

/-- What `provision` leaves of the other links, and of the peer's own. -/
theorem provision_links {s s' : ServerState} {peer : Number} {adopted : Table Number SecretKey}
    {rng : Nat → Entropy}
    (done : s.provision peer ((adopted.lookup peer).map SecretKey.bytes) (rng peer.val) = .ok s') :
    s'.link peer = s.linkFor adopted rng peer ∧
      (∀ other, other ≠ peer → s'.link other = s.link other) ∧
      s'.links.entries.length = s.links.entries.length + if s.link peer = none then 1 else 0 := by
  obtain ⟨-, ⟨link, found, -, rfl⟩ | ⟨missing, -, provisionId, psk, drawn, -, rfl⟩⟩ :=
    provision_iff.mp done
  · refine ⟨?_, fun _ _ => rfl, ?_⟩
    · rw [linkFor, found]
    · rw [found, if_neg (Option.some_ne_none _), Nat.add_zero]
  · refine ⟨?_, fun other different => ?_, ?_⟩
    · rw [link_setLink, if_pos rfl, linkFor, missing]
      simp only [drawn]
      rfl
    · rw [link_setLink, if_neg different]
    · rw [missing, if_pos rfl]
      change (s.links.insert peer _).entries.length = _
      rw [AList.entries_insert_of_notMem (AList.lookup_eq_none.mp missing), List.length_cons]

theorem provision_identity {s s' : ServerState} {peer : Number} {adopted : Option SecretKey}
    {rng : Entropy} (done : s.provision peer (adopted.map SecretKey.bytes) rng = .ok s') :
    s'.networkId = s.networkId ∧ s'.serverId = s.serverId ∧
      s'.serverPublicKey = s.serverPublicKey := by
  obtain ⟨-, ⟨_, _, _, rfl⟩ | ⟨_, _, _, _, _, _, rfl⟩⟩ := provision_iff.mp done <;>
    exact ⟨rfl, rfl, rfl⟩

/-- Every peer of the list can be provisioned: it has a link that agrees to its adopted secret, or
draws for one, and there is room. -/
structure Provisions (s : ServerState) (adopted : Table Number SecretKey) (rng : Nat → Entropy)
    (peers : List (Sigma fun _ : Nat => PeerRow)) : Prop where
  each : ∀ e ∈ peers, ∃ id, Number.new e.1 = .ok id ∧ id ≠ s.serverId ∧
    (∀ link key, s.link id = some link → adopted.lookup id = some key → key.bytes = link.psk) ∧
    (s.link id = none → ∃ provisionId psk, rng e.1 = ⟨some provisionId, some psk⟩ ∧ psk ≠ 0)
  room : 0 < peers.countP (fun e => (s.linkOf e.1).isNone) →
    s.links.entries.length + peers.countP (fun e => (s.linkOf e.1).isNone) ≤ 10000

theorem Provisions.named {s : ServerState} {adopted : Table Number SecretKey}
    {rng : Nat → Entropy} {peers : List (Sigma fun _ : Nat => PeerRow)}
    (able : s.Provisions adopted rng peers) : ∀ e ∈ peers, ∃ id, Number.new e.1 = .ok id :=
  fun e member => (able.each e member).imp fun _ known => known.1

end ServerState

namespace Host

open ServerState

theorem provisionAll_cons {adopted : Table Number SecretKey} {rng : Nat → Entropy}
    {e : Sigma fun _ : Nat => PeerRow} {rest : List (Sigma fun _ : Nat => PeerRow)}
    {s s' : ServerState} : provisionAll adopted rng (e :: rest) s = .ok s' ↔
      ∃ id s₁, Number.new e.1 = .ok id ∧
        s.provision id ((adopted.lookup id).map SecretKey.bytes) (rng id.val) = .ok s₁ ∧
        provisionAll adopted rng rest s₁ = .ok s' := by
  simp only [provisionAll, bind_ok]
  constructor
  · rintro ⟨id, target, s₁, done, rest⟩
    rw [← Number.new_ok.mp target] at done
    exact ⟨id, s₁, target, done, rest⟩
  · rintro ⟨id, s₁, target, done, rest⟩
    rw [Number.new_ok.mp target] at done
    exact ⟨id, target, s₁, done, rest⟩

/-- The peers after the first are as they were, once the first is provisioned. -/
theorem provision_others {adopted : Table Number SecretKey} {rng : Nat → Entropy}
    {e : Sigma fun _ : Nat => PeerRow} {rest : List (Sigma fun _ : Nat => PeerRow)}
    (apart : e.1 ∉ rest.map Sigma.fst) {s s₁ : ServerState} {id : Number}
    (target : Number.new e.1 = .ok id)
    (done : s.provision id ((adopted.lookup id).map SecretKey.bytes) (rng id.val) = .ok s₁) :
    (∀ e' ∈ rest, ∀ id', Number.new e'.1 = .ok id' → s₁.link id' = s.link id') ∧
      rest.countP (fun e => (s₁.linkOf e.1).isNone) =
        rest.countP (fun e => (s.linkOf e.1).isNone) := by
  have others : ∀ e' ∈ rest, ∀ id', Number.new e'.1 = .ok id' → s₁.link id' = s.link id' := by
    intro e' member id' target'
    refine (provision_links done).2.1 id' ?_
    rintro rfl
    refine apart (List.mem_map.mpr ⟨e', member, ?_⟩)
    exact (Number.new_ok.mp target').symm.trans (Number.new_ok.mp target)
  refine ⟨others, List.countP_congr fun e' member => ?_⟩
  unfold linkOf
  cases target' : Number.new e'.1 with
  | error _ => exact Iff.rfl
  | ok id' =>
    have same := others e' member id' target'
    simp only [Except.toOption, Option.bind_some, same]

theorem provisionAll_iff {adopted : Table Number SecretKey} {rng : Nat → Entropy}
    {peers : List (Sigma fun _ : Nat => PeerRow)} (distinct : (peers.map Sigma.fst).Nodup)
    {s : ServerState} : (∃ s', provisionAll adopted rng peers s = .ok s') ↔
      s.Provisions adopted rng peers := by
  induction peers generalizing s with
  | nil => exact iff_of_true ⟨s, rfl⟩ ⟨by simp, by simp⟩
  | cons e rest ih =>
    obtain ⟨apart, distinct⟩ := List.nodup_cons.mp distinct
    constructor
    · rintro ⟨s', done⟩
      obtain ⟨id, s₁, target, first, done⟩ := provisionAll_cons.mp done
      obtain ⟨each, room⟩ := (ih distinct).mp ⟨s', done⟩
      obtain ⟨others, counted⟩ := provision_others apart target first
      obtain ⟨-, -, size⟩ := provision_links first
      obtain ⟨other, here⟩ := provision_iff.mp first
      have server := (provision_identity first).2.1
      refine ⟨?_, ?_⟩
      · intro e' member
        rcases List.mem_cons.mp member with rfl | member
        · refine ⟨id, target, other, ?_, fun missing => ?_⟩
          · rintro link key found given
            rcases here with ⟨link', found', agreed, -⟩ | ⟨missing, -⟩
            · cases found.symm.trans found'
              exact agreed key given
            · cases missing.symm.trans found
          · rcases here with ⟨link', found', -⟩ | ⟨-, -, provisionId, psk, drawn, nonzero, -⟩
            · cases missing.symm.trans found'
            · rw [Number.new_ok.mp target] at drawn
              exact ⟨provisionId, psk, drawn, nonzero⟩
        · obtain ⟨id', target', other', agreed, drawn⟩ := each e' member
          rw [others e' member id' target'] at agreed drawn
          rw [server] at other'
          exact ⟨id', target', other', agreed, drawn⟩
      · rw [List.countP_cons, linkOf_some target]
        rw [counted, size] at room
        rcases here with ⟨link, found, -⟩ | ⟨missing, few, -⟩
        · rw [found] at room ⊢
          simpa using room
        · rw [missing] at room ⊢
          intro _
          simp only [if_true, Option.isNone_none] at room ⊢
          omega
    · rintro ⟨each, room⟩
      obtain ⟨id, target, other, agreed, drawn⟩ := each e List.mem_cons_self
      rw [List.countP_cons, linkOf_some target] at room
      obtain ⟨s₁, first⟩ : ∃ s₁,
          s.provision id ((adopted.lookup id).map SecretKey.bytes) (rng id.val) = .ok s₁ := by
        cases found : s.link id with
        | some link =>
          exact ⟨s, provision_iff.mpr ⟨other, .inl ⟨link, found,
            fun key given => agreed link key found given, rfl⟩⟩⟩
        | none =>
          obtain ⟨provisionId, psk, drawn, nonzero⟩ := drawn found
          rw [← Number.new_ok.mp target] at drawn
          rw [found] at room
          simp only [if_true, Option.isNone_none] at room
          exact ⟨_, provision_iff.mpr ⟨other, .inr ⟨found, by omega, provisionId, psk, drawn,
            nonzero, rfl⟩⟩⟩
      obtain ⟨others, counted⟩ := provision_others apart target first
      obtain ⟨-, -, size⟩ := provision_links first
      have server := (provision_identity first).2.1
      obtain ⟨s', done⟩ := (ih (s := s₁) distinct).mpr (by
        refine ⟨fun e' member => ?_, ?_⟩
        · obtain ⟨id', target', other', agreed, drawn⟩ := each e' (List.mem_cons_of_mem _ member)
          rw [← others e' member id' target'] at agreed drawn
          rw [← server] at other'
          exact ⟨id', target', other', agreed, drawn⟩
        · rw [counted, size]
          intro some_
          cases found : s.link id with
          | some link =>
            rw [found] at room
            simp only [Option.isNone_some, Bool.false_eq_true, if_false, reduceCtorEq] at room ⊢
            exact room some_
          | none =>
            rw [found] at room
            simp only [if_true, Option.isNone_none] at room ⊢
            omega)
      exact ⟨s', provisionAll_cons.mpr ⟨id, s₁, target, first, done⟩⟩

/-- Every peer of the list then has the link that is meant for it. -/
theorem provisionAll_links {adopted : Table Number SecretKey} {rng : Nat → Entropy}
    {peers : List (Sigma fun _ : Nat => PeerRow)} (distinct : (peers.map Sigma.fst).Nodup)
    {s s' : ServerState} (valid : s.validate = .ok ())
    (done : provisionAll adopted rng peers s = .ok s') :
    s'.validate = .ok () ∧ s'.networkId = s.networkId ∧ s'.serverId = s.serverId ∧
      s'.serverPublicKey = s.serverPublicKey ∧
      (∀ id, Number.val id ∉ peers.map Sigma.fst → s'.link id = s.link id) ∧
      ∀ e ∈ peers, ∀ id, Number.new e.1 = .ok id → s'.link id = s.linkFor adopted rng id := by
  induction peers generalizing s with
  | nil =>
    cases done
    exact ⟨valid, rfl, rfl, rfl, fun _ _ => rfl, by simp⟩
  | cons e rest ih =>
    obtain ⟨apart, distinct⟩ := List.nodup_cons.mp distinct
    obtain ⟨id, s₁, target, first, done⟩ := provisionAll_cons.mp done
    obtain ⟨others, -⟩ := provision_others apart target first
    obtain ⟨here, left, -⟩ := provision_links first
    obtain ⟨valid₁, -⟩ := provision_valid valid first
    obtain ⟨network, server, public_⟩ := provision_identity first
    obtain ⟨valid', network', server', public', kept, linked⟩ := ih distinct valid₁ done
    refine ⟨valid', network'.trans network, server'.trans server, public'.trans public_,
      fun id' absent => ?_, ?_⟩
    · rw [List.map_cons, List.mem_cons, not_or] at absent
      rw [kept id' absent.2]
      refine left id' ?_
      rintro rfl
      exact absent.1 (Number.new_ok.mp target)
    · intro e' member id' target'
      rcases List.mem_cons.mp member with rfl | member
      · cases target.symm.trans target'
        rw [kept id ?_, here]
        rw [Number.new_ok.mp target]
        exact apart
      · rw [linked e' member id' target', linkFor, linkFor, others e' member id' target']

/-- A store of this server that holds no link. -/
def blank (h : Host) (number : Number) : ServerState where
  networkId := h.db.network.networkId
  serverId := number
  serverPublicKey := h.config.publicKey
  links := ∅

/-- The state a `prepare` adds links to, and the draws it has for them. -/
inductive Base (h : Host) (p : Preparation) (number : Number) :
    ServerState → (Nat → Entropy) → Prop where
  | made (missing : h.vault = none) : Base h p number (h.blank number) p.first
  | kept {vault : Vault} {s : ServerState} (there : h.vault = some vault)
      (stored : vault.state = some s) (valid : s.validate = .ok ())
      (networkId : s.networkId = h.db.network.networkId) (serverId : s.serverId = number)
      (publicKey : s.serverPublicKey = h.config.publicKey) : Base h p number s p.second

theorem blank_valid (h : Host) (number : Number) : (h.blank number).validate = .ok () :=
  validate_ok.mpr ⟨Nat.zero_le _, rfl, fun _ _ impossible => nomatch impossible⟩

theorem Base.valid {h : Host} {p : Preparation} {number : Number} {s : ServerState} {rng : Nat → Entropy}
    (base : h.Base p number s rng) : s.validate = .ok () ∧ s.serverId = number := by
  cases base with
  | made => exact ⟨blank_valid h number, rfl⟩
  | kept _ _ valid _ serverId => exact ⟨valid, serverId⟩

theorem enrolled_distinct (h : Host) (serverId : Nat) :
    ((h.enrolled serverId).map Sigma.fst).Nodup := by
  have all : (h.db.listPeers.map Sigma.fst).Nodup :=
    ((List.perm_insertionSort _ h.db.peers.entries).map Sigma.fst).nodup_iff.mpr
      h.db.peers.nodupKeys
  exact all.sublist (List.filter_sublist.map Sigma.fst)

theorem mem_enrolled {h : Host} {serverId : Nat} {e : Sigma fun _ : Nat => PeerRow} :
    e ∈ h.enrolled serverId ↔
      h.db.peers.lookup e.1 = some e.2 ∧ e.1 ≠ serverId ∧ e.2.isDisabled = false := by
  unfold enrolled
  rw [List.mem_filter, mem_listPeers]
  simp

/-- What `prepare` asks of the adoption file, of the draws and of the store before it saves. -/
theorem settled_iff {h : Host} {p : Preparation} {serverId : Nat} {state : ServerState} :
    (∃ draft, h.drafted p serverId = .ok draft ∧
      h.settled p serverId draft h.vault = .ok state) ↔
    ∃ number s rng, Number.new serverId = .ok number ∧
      (∀ id ∈ p.adopted.keys, ∃ e ∈ h.enrolled serverId, e.1 = id.val) ∧
      (h.blank number).Provisions p.adopted p.first (h.enrolled serverId) ∧
      h.Base p number s rng ∧
      provisionAll p.adopted rng (h.enrolled serverId) s = .ok state := by
  have distinct := h.enrolled_distinct serverId
  have listed : (p.adopted.keys.any fun id =>
      !(h.enrolled serverId).any fun e => decide (e.1 = id.val)) = false ↔
        ∀ id ∈ p.adopted.keys, ∃ e ∈ h.enrolled serverId, e.1 = id.val := by
    simp
  constructor
  · rintro ⟨draft, drafted, settled⟩
    unfold Host.drafted at drafted
    split at drafted
    · cases drafted
    · rename_i number target
      split at drafted
      · cases drafted
      · rename_i known
        rw [Bool.not_eq_true, listed] at known
        dsimp only at drafted
        split at drafted
        · cases drafted
        · rename_i draft' made
          cases drafted
          have provisions := (provisionAll_iff distinct).mp ⟨draft, made⟩
          obtain ⟨-, network, server, public_, -⟩ :=
            provisionAll_links distinct (blank_valid h number) made
          have base : ∃ s rng, h.Base p number s rng ∧
              provisionAll p.adopted rng (h.enrolled serverId) s = .ok state := by
            unfold Host.settled at settled
            split at settled
            · rename_i missing
              split at settled
              · cases settled
              · cases settled
                exact ⟨_, _, .made missing, made⟩
            · rename_i vault there
              split at settled
              · cases settled
              · rename_i prior stored
                split at settled
                · cases settled
                · rename_i valid
                  split at settled
                  · cases settled
                  · rename_i same
                    rw [network, server, public_, not_or, not_or, not_not, not_not, not_not] at same
                    split at settled
                    · cases settled
                    · rename_i state' done
                      cases settled
                      exact ⟨_, _, .kept there stored valid same.1 same.2.1 same.2.2, done⟩
          obtain ⟨s, rng, base, done⟩ := base
          exact ⟨number, s, rng, target, known, provisions, base, done⟩
  · rintro ⟨number, s, rng, target, known, provisions, base, done⟩
    obtain ⟨draft, made⟩ := (provisionAll_iff distinct).mpr provisions
    obtain ⟨valid, network, server, public_, -⟩ :=
      provisionAll_links distinct (blank_valid h number) made
    refine ⟨draft, ?_, ?_⟩
    · unfold Host.drafted
      simp only [target]
      rw [if_neg (by rw [Bool.not_eq_true]; exact listed.mpr known)]
      change (match provisionAll p.adopted p.first (h.enrolled serverId) (h.blank number) with
        | .error e => _
        | .ok state => _) = _
      rw [made]
    · unfold Host.settled
      cases base with
      | made missing =>
        cases made.symm.trans done
        simp only [missing, valid]
      | kept there stored valid' networkId serverId' publicKey =>
        have same : ¬ (s.networkId ≠ draft.networkId ∨ s.serverId ≠ draft.serverId ∨
            s.serverPublicKey ≠ draft.serverPublicKey) := by
          rw [network, server, public_, not_or, not_or, not_not, not_not, not_not]
          exact ⟨networkId, serverId', publicKey⟩
        simp only [there, stored, valid', if_neg same, done]

section Exporting

variable {m : Manager} {peers : List (Sigma fun _ : Nat => PeerRow)}

theorem exportAll_frame {h : Host} (m : Manager) (peers : List (Sigma fun _ : Nat => PeerRow))
    (torn : Option (Nat × Nat)) {v : Vault} (there : h.vault = some v) : Exports h (h.exportAll m torn peers).2 := by
  induction peers generalizing h v with
  | nil => exact .refl h
  | cons e rest ih =>
    unfold exportAll
    split
    · exact .refl h
    · rename_i enrollment enrolled
      obtain ⟨first, -⟩ := export_frame there (managementFile e.1)
        (h.provisioning e.2 enrollment).encode
        ((torn.filter fun t => decide (t.1 = e.1)).map Prod.snd)
      have next := export_vault there (managementFile e.1)
        (h.provisioning e.2 enrollment).encode
        ((torn.filter fun t => decide (t.1 = e.1)).map Prod.snd)
      split
      · rename_i failure h' ended
        rw [ended] at first
        exact first
      · rename_i h' ended
        rw [ended] at first next
        have there' : h'.vault = some _ := congrArg (fun r => r.2.vault) next
        exact first.trans (ih there')

/-- The exports go through exactly when each of them may, and then every file is there. -/
theorem exportAll_iff (distinct : (peers.map Sigma.fst).Nodup)
    (named : ∀ e ∈ peers, ∃ id, Number.new e.1 = .ok id) {h : Host} {v : Vault}
    (there : h.vault = some v) : ((h.exportAll m none peers).1 = .ok () ↔
        ∀ e ∈ peers, ∃ enrollment, m.enrollment e.1 = .ok enrollment ∧
          h.Free (managementFile e.1) (h.provisioning e.2 enrollment).encode) ∧
      ((h.exportAll m none peers).1 = .ok () → ∀ e ∈ peers, ∀ enrollment,
        m.enrollment e.1 = .ok enrollment → (h.exportAll m none peers).2.artifact
          (managementFile e.1) = some (h.provisioning e.2 enrollment).encode) := by
  induction peers generalizing h v with
  | nil => exact ⟨iff_of_true rfl (by simp), by simp⟩
  | cons e rest ih =>
    obtain ⟨apart, distinct⟩ := List.nodup_cons.mp distinct
    unfold exportAll
    cases enrolled : m.enrollment e.1 with
    | error failure =>
      refine ⟨iff_of_false (fun impossible => nomatch impossible) fun all => ?_,
        fun impossible => nomatch impossible⟩
      obtain ⟨_, impossible, -⟩ := all e List.mem_cons_self
      cases enrolled.symm.trans impossible
    | ok enrollment =>
      obtain ⟨id, target⟩ := named e List.mem_cons_self
      have bounded : e.1 < 10 ^ 20 := by
        have := Number.new_ok.mp target
        have := id.bounded
        omega
      obtain ⟨frame, others⟩ := export_frame there (managementFile e.1)
        (h.provisioning e.2 enrollment).encode none
      have allowed := export_iff there (managementFile_exportable bounded)
        (h.provisioning e.2 enrollment).encode
      have next := export_vault there (managementFile e.1)
        (h.provisioning e.2 enrollment).encode none
      change (_ ↔ _) ∧ _
      simp only [Option.filter_none, Option.map_none]
      split
      · rename_i failure h' ended
        rw [ended] at allowed
        refine ⟨iff_of_false (fun impossible => nomatch impossible) fun all => ?_,
          fun impossible => nomatch impossible⟩
        obtain ⟨enrollment', same, free⟩ := all e List.mem_cons_self
        cases enrolled.symm.trans same
        cases allowed.mpr free
      · rename_i h' ended
        have written := export_written there (congrArg Prod.fst ended)
        rw [ended] at allowed next frame others written
        have there' : h'.vault = some _ := congrArg (fun r => r.2.vault) next
        obtain ⟨rest_iff, rest_written⟩ :=
          ih distinct (fun e' member => named e' (List.mem_cons_of_mem _ member)) there'
        have provisioned : ∀ row enrollment,
            h'.provisioning row enrollment = h.provisioning row enrollment := by
          intro row enrollment
          unfold provisioning
          rw [frame.config]
        have different : ∀ e' ∈ rest, managementFile e'.1 ≠ managementFile e.1 := by
          intro e' member same
          exact apart (managementFile_injective same ▸ List.mem_map_of_mem member)
        constructor
        · rw [rest_iff, List.forall_mem_cons]
          have unaffected : ∀ e' ∈ rest, ∀ bytes, h'.Free (managementFile e'.1) bytes ↔
              h.Free (managementFile e'.1) bytes := by
            intro e' member bytes
            unfold Free
            rw [others _ (different e' member)]
          constructor
          · intro all
            refine ⟨⟨enrollment, enrolled, allowed.mp rfl⟩, fun e' member => ?_⟩
            obtain ⟨enrollment', enrolled', free⟩ := all e' member
            rw [unaffected e' member, provisioned] at free
            exact ⟨enrollment', enrolled', free⟩
          · rintro ⟨-, all⟩ e' member
            obtain ⟨enrollment', enrolled', free⟩ := all e' member
            refine ⟨enrollment', enrolled', ?_⟩
            rw [unaffected e' member, provisioned]
            exact free
        · intro done e' member enrollment' enrolled'
          rcases List.mem_cons.mp member with rfl | member
          · cases enrolled.symm.trans enrolled'
            exact (exportAll_frame _ _ none there').kept _ _ written
          · rw [rest_written done e' member enrollment' enrolled', provisioned]

end Exporting

/-- The enrollment of a peer is that of the link it has or is given. -/
theorem Base.enrollment {h : Host} {p : Preparation} {number : Number} {s state : ServerState}
    {rng : Nat → Entropy} {serverId : Nat} (base : h.Base p number s rng)
    (done : provisionAll p.adopted rng (h.enrolled serverId) s = .ok state)
    {e : Sigma fun _ : Nat => PeerRow} (member : e ∈ h.enrolled serverId) {id : Number}
    (target : Number.new e.1 = .ok id) {enrollment : Management.Enrollment} :
    Manager.enrollment ⟨state, state⟩ e.1 = .ok enrollment ↔
      ∃ link, s.linkFor p.adopted rng id = some link ∧
        link.activeEnrollment s.networkId s.serverId.val e.1 = some enrollment := by
  obtain ⟨-, network, server, -, -, linked⟩ :=
    provisionAll_links (h.enrolled_distinct serverId) base.valid.1 done
  rw [Manager.enrollment_ok target, ← linked e member id target, network, server]

theorem Base.enrolls {h : Host} {p : Preparation} {number : Number} {s state : ServerState}
    {rng : Nat → Entropy} {serverId : Nat} (base : h.Base p number s rng)
    (able : s.Provisions p.adopted rng (h.enrolled serverId))
    (done : provisionAll p.adopted rng (h.enrolled serverId) s = .ok state)
    {e : Sigma fun _ : Nat => PeerRow} (member : e ∈ h.enrolled serverId) :
    ∃ enrollment, Manager.enrollment ⟨state, state⟩ e.1 = .ok enrollment := by
  obtain ⟨valid, -, -, -, -, linked⟩ :=
    provisionAll_links (h.enrolled_distinct serverId) base.valid.1 done
  obtain ⟨id, target, -, -, drawn⟩ := able.each e member
  have some_ : ∃ link, s.linkFor p.adopted rng id = some link := by
    unfold linkFor
    cases found : s.link id with
    | some link => exact ⟨link, rfl⟩
    | none =>
      obtain ⟨provisionId, psk, draws, -⟩ := drawn found
      rw [← Number.new_ok.mp target] at draws
      rw [draws]
      exact ⟨_, rfl⟩
  obtain ⟨link, found⟩ := some_
  rw [← linked e member id target] at found
  have nonzero := (validate_ok.mp valid).2.2 id link found
  have sealed : SecretKey.fromBytes link.psk = .ok ⟨link.psk, nonzero⟩ :=
    SecretKey.fromBytes_ok.mpr rfl
  have active : ∃ enrollment, link.activeEnrollment state.networkId state.serverId.val e.1 =
      some enrollment := by
    unfold ManagementLink.activeEnrollment
    rw [sealed]
    exact ⟨_, rfl⟩
  obtain ⟨enrollment, active⟩ := active
  exact ⟨enrollment, (Manager.enrollment_ok target).mpr ⟨link, found, active⟩⟩

/-- When a `prepare` can be carried out: the adoption file names enabled peers and agrees to the
active secrets there are, the store is this server's and has room, and the file of each peer is not
there or is the artifact of its active secret. -/
structure Preparable (h : Host) (p : Preparation) (serverId : Nat) (number : Number)
    (s : ServerState) (rng : Nat → Entropy) : Prop where
  server : number.val = serverId
  adopted : ∀ id ∈ p.adopted.keys, ∃ e ∈ h.enrolled serverId, e.1 = id.val
  draft : (h.blank number).Provisions p.adopted p.first (h.enrolled serverId)
  base : h.Base p number s rng
  provisions : s.Provisions p.adopted rng (h.enrolled serverId)
  free : ∀ e ∈ h.enrolled serverId, ∀ id link enrollment, Number.val id = e.1 →
    s.linkFor p.adopted rng id = some link →
    link.activeEnrollment s.networkId s.serverId.val e.1 = some enrollment →
    h.Free (managementFile e.1) (h.provisioning e.2 enrollment).encode

/-- Every enabled peer but the server has the artifact of its active secret. -/
def Furnished (h : Host) (serverId : Nat) : Prop :=
  ∃ s, h.state = some s ∧ ∀ id row, h.db.peers.lookup id = some row → row.isDisabled = false →
    id ≠ serverId → ∃ enrollment, Manager.enrollment ⟨s, s⟩ id = .ok enrollment ∧
      h.artifact (managementFile id) = some (h.provisioning row enrollment).encode

/-- A `prepare` that nothing disturbs leaves every artifact exactly when it can be carried out. -/
theorem furnished_iff {h h₁ : Host} {p : Preparation} {serverId : Nat}
    (access : p.independentAdminAccess = true) (uncut : p.cut = none) (whole : p.torn = none)
    (identified : h.identify = (.ok serverId, h₁)) :
    ((h.prepare p).1 = .ok () ∧ (h.prepare p).2.Furnished serverId) ↔
      ∃ number s rng, h₁.Preparable p serverId number s rng := by
  have distinct := h₁.enrolled_distinct serverId
  have refused : ∀ e h', h.prepare p = (.error e, h') →
      (∀ state, ¬ ∃ draft, h₁.drafted p serverId = .ok draft ∧
        h₁.settled p serverId draft h₁.vault = .ok state) →
      (((h.prepare p).1 = .ok () ∧ (h.prepare p).2.Furnished serverId) ↔
        ∃ number s rng, h₁.Preparable p serverId number s rng) := by
    intro e h' ended none_
    rw [ended]
    refine iff_of_false (fun impossible => nomatch impossible.1) ?_
    rintro ⟨number, s, rng, able⟩
    obtain ⟨state, done⟩ := (provisionAll_iff distinct).mpr able.provisions
    exact none_ state (settled_iff.mpr ⟨number, s, rng, Number.new_ok.mpr able.server,
      able.adopted, able.draft, able.base, done⟩)
  cases drafted : h₁.drafted p serverId with
  | error e =>
    refine refused e h₁ ?_ ?_
    · unfold prepare
      simp only [access, not_true, if_false, identified, uncut, reduceCtorEq, drafted]
    · rintro state ⟨draft, impossible, -⟩
      cases drafted.symm.trans impossible
  | ok draft =>
    set h₂ : Host := { h₁ with vault := some (h₁.vault.getD ⟨none, ∅⟩) } with made
    have same : h₂.settled p serverId draft h₁.vault = h₁.settled p serverId draft h₁.vault := rfl
    cases settled : h₁.settled p serverId draft h₁.vault with
    | error e =>
      refine refused e h₂ ?_ ?_
      · unfold prepare
        simp only [access, not_true, if_false, identified, uncut, reduceCtorEq, drafted]
        rw [← made, same, settled]
      · rintro state ⟨draft', same, impossible⟩
        cases drafted.symm.trans same
        cases settled.symm.trans impossible
    | ok state =>
      set h₃ : Host := { h₂.put state with
        config := { h₂.config with managementRequired := true } } with prepared
      have ends : h.prepare p = h₃.exportAll ⟨state, state⟩ none (h₁.enrolled serverId) := by
        unfold prepare
        simp only [access, not_true, if_false, identified, uncut, reduceCtorEq, drafted]
        rw [← made, same, settled, whole]
        rfl
      rw [ends]
      have there : h₃.vault = some _ := rfl
      have free : ∀ file bytes, h₃.Free file bytes ↔ h₁.Free file bytes := by
        intro file bytes
        have kept : h₃.artifact file = h₁.artifact file := by
          change (h₂.put state).artifact file = _
          rw [put_artifact]
          unfold artifact
          rw [made]
          cases h₁.vault <;> rfl
        unfold Free
        rw [kept]
      have provisioned : ∀ row enrollment, h₃.provisioning row enrollment =
          h₁.provisioning row enrollment := fun _ _ => rfl
      constructor
      · rintro ⟨exported, -⟩
        obtain ⟨number, s, rng, target, known, provisions, base, done⟩ :=
          settled_iff.mp ⟨draft, drafted, settled⟩
        have able := (provisionAll_iff distinct).mp ⟨state, done⟩
        obtain ⟨allowed, -⟩ := exportAll_iff (m := ⟨state, state⟩) distinct able.named there
        refine ⟨number, s, rng, Number.new_ok.mp target, known, provisions, base, able, ?_⟩
        intro e member id link enrollment named linked active
        obtain ⟨enrollment', enrolled, open_⟩ := allowed.mp exported e member
        rw [base.enrollment done member (Number.new_ok.mpr named)] at enrolled
        obtain ⟨link', linked', active'⟩ := enrolled
        cases linked.symm.trans linked'
        cases active.symm.trans active'
        rw [free, provisioned] at open_
        exact open_
      · rintro ⟨number, s, rng, able⟩
        obtain ⟨state', done⟩ := (provisionAll_iff distinct).mpr able.provisions
        obtain ⟨draft', drafted', settled'⟩ := settled_iff.mpr ⟨number, s, rng,
          Number.new_ok.mpr able.server, able.adopted, able.draft, able.base, done⟩
        cases drafted.symm.trans drafted'
        cases settled.symm.trans settled'
        obtain ⟨allowed, written⟩ :=
          exportAll_iff (m := ⟨state, state⟩) distinct able.provisions.named there
        have exported := allowed.mpr fun e member => by
          obtain ⟨id, target⟩ := able.provisions.named e member
          obtain ⟨enrollment, enrolled⟩ := able.base.enrolls able.provisions done member
          obtain ⟨link, linked, active⟩ := (able.base.enrollment done member target).mp enrolled
          refine ⟨enrollment, enrolled, (free _ _).mpr ?_⟩
          exact able.free e member id link enrollment (Number.new_ok.mp target) linked active
        refine ⟨exported, state, ?_, ?_⟩
        · exact (exportAll_frame _ _ none there).state
        · intro id row present enabled other
          have frame := exportAll_frame ⟨state, state⟩ (h₁.enrolled serverId) none there
          have member : (⟨id, row⟩ : Sigma fun _ : Nat => PeerRow) ∈ h₁.enrolled serverId := by
            refine mem_enrolled.mpr ⟨?_, other, enabled⟩
            rw [frame.db] at present
            exact present
          obtain ⟨enrollment, enrolled⟩ := able.base.enrolls able.provisions done member
          refine ⟨enrollment, enrolled, (written exported _ member enrollment enrolled).trans ?_⟩
          unfold provisioning
          rw [frame.config]

/-- What is done to a host and its artifacts. -/
inductive Work where
  | request (r : Request)
  | stage (name : String) (independentAdminAccess : Bool) (adopted : Option SecretKey)
      (rng : Entropy) (saving : Saving) (cut : Option Cut) (torn : Option Nat)
  | prepare (p : Preparation)

def perform [Native] (h : Host) : Work → Host
  | .request r => h.apply r
  | .stage name access adopted rng saving cut torn =>
    (h.stageRotation name access adopted rng saving cut torn).2
  | .prepare p => (h.prepare p).2

def Performs [Native] (h : Host) (work : Work) (h' : Host) : Prop := h' = h.perform work

/-- A file that is there is there afterwards, with the same bytes. -/
def Kept (h h' : Host) : Prop :=
  ∀ file bytes, h.artifact file = some bytes → h'.artifact file = some bytes

theorem Kept.refl (h : Host) : h.Kept h := fun _ _ found => found

theorem Kept.trans {h h' h'' : Host} (first : h.Kept h') (second : h'.Kept h'') : h.Kept h'' :=
  fun file bytes found => second file bytes (first file bytes found)

theorem kept_put {h h' : Host} (kept : h.Kept h') (s : ServerState) : h.Kept (h'.put s) := by
  intro file bytes found
  rw [put_artifact]
  exact kept file bytes found

theorem identify_kept (h : Host) : h.Kept h.identify.2 := by
  unfold identify
  dsimp only
  split
  · exact .refl h
  · exact .refl h
  · exact .refl h

theorem openOrCreate_kept (h : Host) (cut : Option Cut) : h.Kept (h.openOrCreate cut).2 := by
  have identified := h.identify_kept
  unfold openOrCreate
  split
  · exact .refl h
  · split
    · rename_i e h' found
      rw [found] at identified
      exact identified
    · rename_i serverId h' found
      rw [found] at identified
      split
      · exact identified
      · split
        · exact identified
        · rename_i missing
          have none_ : ∀ file bytes, h.artifact file ≠ some bytes := by
            intro file bytes present
            have there := identified file bytes present
            unfold artifact at there
            rw [missing] at there
            cases there
          have any : ∀ h', h.Kept h' := fun h' file bytes present => absurd present (none_ _ _)
          dsimp only
          split
          · exact any _
          · split <;> exact any _

theorem provisionNewPeer_kept (h : Host) (m : Manager) (peer : Nat) (rng : Entropy)
    (cut : Option Cut) : h.Kept (h.provisionNewPeer m peer rng cut).2 := by
  unfold provisionNewPeer
  split
  · exact .refl h
  · rename_i state done
    split
    · exact .refl h
    · dsimp only
      have saved := kept_put (.refl h) state
      split
      · exact saved
      · split
        · split <;> exact saved
        · split <;> exact saved

theorem addPeer_kept (h : Host) (contents : PeerRow) (keypair : Binary 32) (rng : Entropy)
    (cut : Option Cut) : h.Kept (h.addPeer contents keypair rng cut).2 := by
  unfold addPeer
  split
  · exact .refl h
  · rename_i db made
    have opened := openOrCreate_kept { h with db } cut
    dsimp only
    split
    · exact .refl h
    · split
      · rename_i e h' found
        rw [found] at opened
        exact opened
      · rename_i h' found
        rw [found] at opened
        exact opened
      · rename_i m h' found
        rw [found] at opened
        split
        · exact opened
        · exact opened.trans (provisionNewPeer_kept h' m _ rng cut)

theorem enable_kept (h : Host) (enable : Bool) (id : Nat) (cut : Option Cut) :
    h.Kept (h.enableOrDisablePeer enable id cut).2 := by
  unfold enableOrDisablePeer
  split
  · exact .refl h
  · split
    · exact .refl h
    · rename_i db done
      have opened := openOrCreate_kept { h with db } cut
      dsimp only
      split
      · exact .refl h
      · split
        · split
          · rename_i m h' found
            rw [found] at opened
            split <;> exact opened
          · exact opened
        · exact .refl h

theorem rotate_kept (h : Host) (name : String) (access : Bool) (rotation : Rotation)
    (saving : Saving) (cut : Option Cut) : h.Kept (h.rotate name access rotation saving cut).2 := by
  have managed : h.Kept (h.requiredManagement access cut).2 := by
    have opened := h.openOrCreate_kept cut
    unfold requiredManagement
    split
    · exact .refl h
    · split <;> rename_i found <;> rw [found] at opened <;> exact opened
  unfold rotate
  split
  · exact .refl h
  · split
    · rename_i e h' found
      rw [found] at managed
      exact managed
    · rename_i m h' found
      rw [found] at managed
      split <;> exact kept_put managed _

theorem export_kept (h : Host) (filename : String) (bytes : List UInt8) (torn : Option Nat) :
    h.Kept (h.export_ filename bytes torn).2 := by
  cases there : h.vault with
  | some v => exact (export_frame there filename bytes torn).1.kept
  | none =>
    intro file bytes found
    rw [artifact, there] at found
    cases found

theorem stageRotation_kept (h : Host) (name : String) (access : Bool) (adopted : Option SecretKey)
    (rng : Entropy) (saving : Saving) (cut : Option Cut) (torn : Option Nat) :
    h.Kept (h.stageRotation name access adopted rng saving cut torn).2 := by
  have rotated := h.rotate_kept name access (.stage (adopted.map SecretKey.bytes) rng) saving cut
  unfold stageRotation
  dsimp only
  split
  · rename_i e h' found
    rw [found] at rotated
    exact rotated
  · rename_i m id h' found
    rw [found] at rotated
    split
    · exact rotated
    · split
      · exact rotated
      · exact rotated
      · rename_i enrollment row _ _
        have exported := h'.export_kept (rotationFile id) (h'.provisioning row enrollment).encode
          torn
        split <;> rename_i ended <;> rw [ended] at exported <;> exact rotated.trans exported

theorem exportAll_kept (h : Host) (m : Manager) (torn : Option (Nat × Nat))
    (peers : List (Sigma fun _ : Nat => PeerRow)) : h.Kept (h.exportAll m torn peers).2 := by
  cases there : h.vault with
  | some v => exact (exportAll_frame m peers torn there).kept
  | none =>
    intro file bytes found
    rw [artifact, there] at found
    cases found

theorem prepare_kept (h : Host) (p : Preparation) : h.Kept (h.prepare p).2 := by
  have identified := h.identify_kept
  unfold prepare
  split
  · exact .refl h
  · split
    · rename_i e h' found
      rw [found] at identified
      exact identified
    · rename_i serverId h' found
      rw [found] at identified
      split
      · exact identified
      · split
        · exact identified
        · rename_i draft drafted
          have opened : h.Kept { h' with vault := some (h'.vault.getD ⟨none, ∅⟩) } := by
            intro file bytes present
            have there := identified file bytes present
            unfold artifact at there ⊢
            cases missing : h'.vault with
            | some v =>
              rw [missing] at there
              exact there
            | none =>
              rw [missing] at there
              cases there
          dsimp only
          split
          · exact opened
          · split
            · exact opened
            · split
              · exact opened
              · rename_i state settled _
                have saved := kept_put opened state
                split
                · exact saved
                · split
                  · exact saved
                  · exact fun file bytes present =>
                      exportAll_kept _ _ _ _ file bytes (saved file bytes present)

section Works

variable [Native] {h t : Host} {ms : List (Move Host Work)}

/-- An exported file is never written again, by nothing that is done to the host. -/
theorem perform_kept (h : Host) (work : Work) : h.Kept (h.perform work) := by
  cases work with
  | request r =>
    cases r with
    | database op => exact .refl h
    | addPeer contents keypair rng cut => exact h.addPeer_kept contents keypair rng cut
    | enableOrDisablePeer enable id cut => exact h.enable_kept enable id cut
    | rotate name access rotation saving cut => exact h.rotate_kept name access rotation saving cut
  | stage name access adopted rng saving cut torn =>
    exact h.stageRotation_kept name access adopted rng saving cut torn
  | prepare p => exact h.prepare_kept p

theorem artifacts_last (run : Run Performs h ms t) : h.Kept t :=
  run.invariant (P := h.Kept) (.refl h) fun a work _ kept done =>
    kept.trans (done ▸ a.perform_kept work)

/-- In every run, a staging and a `prepare` that nothing disturbs leave their artifacts exactly when
the files they write are not there yet, or are already the artifacts they would write. -/
theorem repeats_iff (run : Run Performs h ms t) (m : Move Host Work) (member : m ∈ ms) :
    (∀ name id s link adopted provisionId psk, m.before.Reaches name id s link →
      m.label = .stage name true adopted ⟨some provisionId, some psk⟩ .done none none →
      (m.before.Carries id ((m.before.stageRotation name true adopted
          ⟨some provisionId, some psk⟩ .done none none).1, m.after) ↔
        m.before.Stageable id s link adopted provisionId psk)) ∧
    ∀ p serverId h₁, m.label = .prepare p → p.independentAdminAccess = true → p.cut = none →
      p.torn = none → m.before.identify = (.ok serverId, h₁) →
      (((m.before.prepare p).1 = .ok () ∧ m.after.Furnished serverId) ↔
        ∃ number s rng, h₁.Preparable p serverId number s rng) := by
  obtain ⟨taken, -⟩ := run.reached m member
  constructor
  · intro name id s link adopted provisionId psk reaches label
    rw [label] at taken
    rw [show m.after = _ from taken]
    exact reaches.carries_iff adopted provisionId psk
  · intro p serverId h₁ label access uncut whole identified
    rw [label] at taken
    rw [show m.after = _ from taken]
    exact furnished_iff access uncut whole identified

end Works

section Sample

open Arithmetic

attribute [local instance] native

/-- A whole staging for the peer of the sample, with draws of its own. -/
def staging (provisionId : Binary 16) (psk : Binary 32) (torn : Option Nat) : Work :=
  .stage "alice" true none ⟨some provisionId, some psk⟩ .done none torn

/-- A whole `prepare` without an adoption file. -/
def preparation : Preparation where
  independentAdminAccess := true
  adopted := ∅
  first := fun _ => ⟨some 11, some 12⟩
  second := fun _ => ⟨some 13, some 14⟩
  cut := none
  torn := none

def rotation (r : Rotation) : Work := .request (.rotate "alice" true r .done none)

/-- A second rotation, a staging again after a crash in the export, and a `prepare` again after a
rotation: each finds its file taken. -/
theorem repeats_no_more :
    (∃ ms t, Run Performs sample ms t ∧ ms.map Move.label =
      [staging 7 8 none, rotation .apply, rotation .verify, rotation .confirm] ∧
      (t.stageRotation "alice" true none ⟨some 9, some 10⟩ .done none none).1 =
        .error (.store .conflict)) ∧
    (∃ ms t, Run Performs sample ms t ∧ ms.map Move.label = [staging 7 8 (some 5)] ∧
      (t.stageRotation "alice" true none ⟨some 9, some 10⟩ .done none none).1 =
        .error (.store .conflict)) ∧
    ∃ ms t, Run Performs sample ms t ∧ ms.map Move.label =
      [.prepare preparation, staging 7 8 none, rotation .apply] ∧
      (t.prepare preparation).1 = .error (.store .conflict) := by
  have rotated : (Host.stageRotation ([staging 7 8 none, rotation .apply, rotation .verify,
      rotation .confirm].foldl perform sample) "alice" true none ⟨some 9, some 10⟩ .done none
      none).1 = .error (.store .conflict) := by decide +kernel
  have torn : (Host.stageRotation ([staging 7 8 (some 5)].foldl perform sample) "alice" true none
      ⟨some 9, some 10⟩ .done none none).1 = .error (.store .conflict) := by decide +kernel
  have prepared : (Host.prepare ([.prepare preparation, staging 7 8 none,
      rotation .apply].foldl perform sample) preparation).1 = .error (.store .conflict) := by
    decide +kernel
  exact ⟨⟨_, _, trace_run _ _ _, trace_labels _ _ _, rotated⟩,
    ⟨_, _, trace_run _ _ _, trace_labels _ _ _, torn⟩,
    ⟨_, _, trace_run _ _ _, trace_labels _ _ _, prepared⟩⟩

/-- Enough draws for the peer of the sample. -/
theorem sample_provisions {s : ServerState} {rng : Nat → Entropy} (provisionId : Binary 16)
    (psk : Binary 32) (drawn : rng 2 = ⟨some provisionId, some psk⟩) (nonzero : psk ≠ 0)
    (server : s.serverId.val = 1) (few : s.links.entries.length < 10000) :
    s.Provisions ∅ rng (sample.enrolled 1) := by
  have only : (sample.enrolled 1).map Sigma.fst = [2] := by decide +kernel
  constructor
  · intro e member
    have here : e.1 = 2 := by
      have listed := List.mem_map_of_mem (f := Sigma.fst) member
      rw [only, List.mem_singleton] at listed
      exact listed
    refine ⟨second, Number.new_ok.mpr here.symm, ?_, ?_, fun _ => ?_⟩
    · rintro same
      rw [← same] at server
      cases server
    · exact fun _ _ _ impossible => nomatch impossible
    · rw [here]
      exact ⟨provisionId, psk, drawn, nonzero⟩
  · intro _
    have counted := List.countP_le_length
      (p := fun e : Sigma fun _ : Nat => PeerRow => (s.linkOf e.1).isNone) (l := sample.enrolled 1)
    have one : (sample.enrolled 1).length = 1 := by
      have sized := congrArg List.length only
      rwa [List.length_map] at sized
    omega

/-- A first staging and a first `prepare` each leave their artifact. -/
theorem repeats_iff_first :
    (∃ t, Run Performs sample [⟨sample, staging 7 8 none, t⟩] t ∧ sample.Carries 2
      ((sample.stageRotation "alice" true none ⟨some 7, some 8⟩ .done none none).1, t)) ∧
    ∃ t, Run Performs sample [⟨sample, .prepare preparation, t⟩] t ∧
      (sample.prepare preparation).1 = .ok () ∧ t.Furnished 1 := by
  obtain ⟨s, startable, -⟩ := sample_startable
  obtain ⟨vault, there, inside⟩ := Option.bind_eq_some_iff.mp startable.stored
  obtain ⟨h₁, first_done⟩ : ∃ h₁, Performs sample (staging 7 8 none) h₁ := ⟨_, rfl⟩
  obtain ⟨h₂, second_done⟩ : ∃ h₂, Performs sample (.prepare preparation) h₂ := ⟨_, rfl⟩
  have staged : Run Performs sample [⟨sample, staging 7 8 none, h₁⟩] h₁ :=
    Run.start.move first_done
  have prepared : Run Performs sample [⟨sample, .prepare preparation, h₂⟩] h₂ :=
    Run.start.move second_done
  have absent : ∀ file, sample.artifact file = none := fun _ => rfl
  obtain ⟨row, present, marked⟩ := startable.server
  refine ⟨⟨h₁, staged, ?_⟩, ⟨h₂, prepared, ?_⟩⟩
  · have managed : (sample.openOrCreate none).1 = .ok (some ⟨s, s⟩) := by
      refine (openOrCreate_same rfl startable.stored present marked none).2.resolve_right ?_
      rintro ⟨e, failed⟩
      have opens : (sample.openOrCreate none).1.toOption.isSome = true := by decide +kernel
      rw [failed] at opens
      cases opens
    have linked : sample.state.map (fun s => s.linkOf 2) = some (some ⟨5, 6, false, none, none⟩) := by
      decide +kernel
    have short : (sample.state.all fun s => (sample.db.peers.lookup 2).all fun row =>
        (ManagementLink.stagedEnrollment ⟨5, 6, false, some ⟨7, 8⟩, none⟩ s.networkId s.serverId.val
          2).all fun enrollment =>
            decide ((sample.provisioning row enrollment).encode.length ≤ 2 ^ 20)) = true := by
      decide +kernel
    rw [startable.stored] at linked short
    have reaches : sample.Reaches "alice" 2 s ⟨5, 6, false, none, none⟩ :=
      ⟨toOption_some.mp (by decide +kernel), managed, Option.some.inj linked⟩
    have able : sample.Stageable 2 s ⟨5, 6, false, none, none⟩ none 7 8 := by
      refine ⟨fun _ _ impossible => (nomatch impossible), fun _ => by decide, by decide,
        fun row enrollment present sealed => ⟨?_, .inl (absent _)⟩⟩
      have sealed' : ManagementLink.stagedEnrollment ⟨5, 6, false, some ⟨7, 8⟩, none⟩ s.networkId
        s.serverId.val 2 = some enrollment := sealed
      rw [present, Option.all_some, Option.all_some, sealed', Option.all_some] at short
      exact of_decide_eq_true short
    have moved : (⟨sample, staging 7 8 none, h₁⟩ : Move Host Work) ∈
        [⟨sample, staging 7 8 none, h₁⟩] := List.mem_singleton.mpr rfl
    exact ((repeats_iff staged _ moved).1 _ _ _ _ _ _ _ reaches rfl).mpr able
  · have few : sample.state.map (fun s => (s.links.entries.length, s.serverId)) =
        some (1, first) := by decide +kernel
    have short : (sample.state.all fun s => (sample.enrolled 1).all fun e =>
        ((Number.new e.1).toOption.bind fun id => (s.linkFor ∅ preparation.second id).bind fun link =>
          link.activeEnrollment s.networkId s.serverId.val e.1).all fun enrollment =>
            decide ((sample.provisioning e.2 enrollment).encode.length ≤ 2 ^ 20)) = true := by
      decide +kernel
    rw [startable.stored] at few short
    obtain ⟨size, server⟩ := Prod.mk.inj (Option.some.inj few)
    have able : sample.Preparable preparation 1 first s preparation.second := by
      refine ⟨rfl, fun id impossible => (nomatch impossible), ?_, ?_, ?_, ?_⟩
      · exact sample_provisions 11 12 rfl (by decide) rfl (by decide)
      · exact .kept there inside startable.valid startable.networkId server startable.publicKey
      · exact sample_provisions 13 14 rfl (by decide)
          (congrArg Number.val server) (by omega)
      · intro e member id link enrollment named linked active
        refine ⟨?_, .inl (absent _)⟩
        rw [Option.all_some, List.all_eq_true] at short
        have here := short e member
        have linked' : s.linkFor ∅ preparation.second id = some link := linked
        rw [Number.new_ok.mpr named] at here
        change Option.all _ ((s.linkFor ∅ preparation.second id).bind _) = true at here
        rw [linked', Option.bind_some, active, Option.all_some] at here
        exact of_decide_eq_true here
    have identified : sample.identify = (.ok 1, sample) :=
      Prod.ext (toOption_some.mp (by decide +kernel)) (identify_same present marked)
    have moved : (⟨sample, .prepare preparation, h₂⟩ : Move Host Work) ∈
        [⟨sample, .prepare preparation, h₂⟩] := List.mem_singleton.mpr rfl
    exact ((repeats_iff prepared _ moved).2 _ _ _ rfl rfl rfl rfl identified).mpr
      ⟨first, s, preparation.second, able⟩

end Sample

end Host

end Innernet
