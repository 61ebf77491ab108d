import Innernet.State
import Innernet.Server.Database

/-! The management link of `pq/src/state.rs` and the server's store of links. The six operations of
an administrative rotation move secrets between three slots and share one flag; an operation that
fails leaves the link as it was. -/
namespace Innernet

open Fallible Tables

/-- What `StagedLink::generate` and `ManagementLink::generate` read from the random source, in the
order they read it; `none` is a read that fails. -/
structure Entropy where
  provisionId : Option (Binary 16)
  psk : Option (Binary 32)
  deriving DecidableEq

/-- `crypto::random`. -/
def Crypto.random {n : Nat} : Option (Binary n) → Except Error (Binary n)
  | some bytes => .ok bytes
  | none => .error .random

namespace StagedLink

def validate (link : StagedLink) : Except Error Unit := require (link.psk ≠ 0) .invalid

def generate (rng : Entropy) : Except Error StagedLink := do
  let provisionId ← Crypto.random rng.provisionId
  let psk ← Crypto.random rng.psk
  let link : StagedLink := { provisionId, psk }
  link.validate
  return link

theorem generate_ok {rng : Entropy} {link : StagedLink} (generated : generate rng = .ok link) :
    link.psk ≠ 0 := by
  simp only [generate, validate, bind_ok, require_ok, pure_ok] at generated
  obtain ⟨_, _, _, _, _, nonzero, rfl⟩ := generated
  exact nonzero

end StagedLink

namespace ManagementLink

def validate (link : ManagementLink) : Except Error Unit := require (link.psk ≠ 0) .invalid

/-- `ManagementLink::generate`, with its draws read one by one. -/
def generated (rng : Entropy) : Except Error ManagementLink := do
  let provisionId ← Crypto.random rng.provisionId
  let psk ← Crypto.random rng.psk
  let link : ManagementLink :=
    { provisionId, psk, verified := false, staged := none, previous := none }
  link.validate
  return link

def stageRotation (link : ManagementLink) (adopted : Option (Binary 32)) (rng : Entropy) :
    Except Error ManagementLink :=
  match link.staged with
  | some existing => do
    require (adopted.all (fun key => decide (key = existing.psk)) = true) .conflict
    return link
  | none => do
    let staged ← StagedLink.generate rng
    let staged : StagedLink := { staged with psk := adopted.getD staged.psk }
    staged.validate
    return { link with staged := some staged }

def applyRotation (link : ManagementLink) : Except Error ManagementLink :=
  match link.staged with
  | none => .error .conflict
  | some staged => .ok {
      provisionId := staged.provisionId
      psk := staged.psk
      verified := false
      staged := none
      previous := some ⟨link.provisionId, link.psk⟩ }

def confirmRotation (link : ManagementLink) : Except Error ManagementLink := do
  require (link.previous ≠ none) .conflict
  require (link.verified = true) .conflict
  return { link with previous := none }

/-- The restored secret counts as verified, whether or not it ever was. -/
def rollbackRotation (link : ManagementLink) : Except Error ManagementLink :=
  match link.previous with
  | none => .error .conflict
  | some previous => .ok {
      provisionId := previous.provisionId
      psk := previous.psk
      verified := true
      staged := none
      previous := none }

def forceActive (link : ManagementLink) (secret : Binary 32) (rng : Entropy) :
    Except Error ManagementLink := do
  let forced ← StagedLink.generate rng
  let forced : StagedLink := { forced with psk := secret }
  forced.validate
  return { link with
    provisionId := forced.provisionId
    psk := forced.psk
    verified := false
    staged := none
    previous := none }

/-- The secrets a link has a copy of. -/
def secrets (link : ManagementLink) : List (Binary 32) :=
  link.psk :: (link.staged.toList ++ link.previous.toList).map StagedLink.psk

end ManagementLink

/-- A link as it is made: nothing verified, no rotation under way. -/
structure ManagementLink.Fresh (link : ManagementLink) : Prop where
  unverified : link.verified = false
  unstaged : link.staged = none
  unapplied : link.previous = none

theorem ManagementLink.generated_fresh {rng : Entropy} {link : ManagementLink}
    (made : generated rng = .ok link) : link.Fresh := by
  simp only [generated, validate, bind_ok, require_ok, pure_ok] at made
  obtain ⟨_, _, _, _, _, _, rfl⟩ := made
  exact ⟨rfl, rfl, rfl⟩

/-- `ServerState`. -/
structure ServerState where
  networkId : Binary 16
  serverId : Number
  serverPublicKey : Binary 32
  links : Table Number ManagementLink
  deriving DecidableEq

namespace ServerState

def link (s : ServerState) (peer : Number) : Option ManagementLink := s.links.lookup peer

def setLink (s : ServerState) (peer : Number) (link : ManagementLink) : ServerState :=
  { s with links := s.links.insert peer link }

@[simp] theorem link_setLink (s : ServerState) (peer other : Number) (link : ManagementLink) :
    (s.setLink peer link).link other = if other = peer then some link else s.link other :=
  lookup_insert_eq _ _ _ _

def validate (s : ServerState) : Except Error Unit := do
  require (¬ (10000 < s.links.entries.length ∨ s.link s.serverId ≠ none)) .invalid
  require (any (fun _ link => decide (link.psk = 0)) s.links = false) .invalid

/-- The link that `link_mut` hands out for writing, changed by `action`. -/
def linkMut (s : ServerState) (peer : Number)
    (action : ManagementLink → Except Error ManagementLink) : Except Error ServerState := do
  require (peer ≠ s.serverId) .invalid
  match s.link peer with
  | none => .error .invalid
  | some link =>
    let changed ← action link
    return s.setLink peer changed

def provision (s : ServerState) (peer : Number) (adopted : Option (Binary 32)) (rng : Entropy) :
    Except Error ServerState := do
  require (peer ≠ s.serverId) .invalid
  match s.link peer with
  | some existing =>
    require (adopted.all (fun key => decide (key = existing.psk)) = true) .conflict
    return s
  | none =>
    require (s.links.entries.length < 10000) .conflict
    let link ← ManagementLink.generated rng
    let link : ManagementLink := { link with psk := adopted.getD link.psk }
    link.validate
    return s.setLink peer link

theorem linkMut_ok {s s' : ServerState} {peer : Number}
    {action : ManagementLink → Except Error ManagementLink}
    (changed : s.linkMut peer action = .ok s') :
    ∃ link link', s.link peer = some link ∧ action link = .ok link' ∧
      s' = s.setLink peer link' := by
  simp only [linkMut, bind_ok, require_ok] at changed
  obtain ⟨_, _, changed⟩ := changed
  split at changed
  · cases changed
  · rename_i link found
    simp only [bind_ok, pure_ok] at changed
    obtain ⟨link', acted, rfl⟩ := changed
    exact ⟨link, link', found, acted, rfl⟩

theorem provision_ok {s s' : ServerState} {peer : Number} {adopted : Option (Binary 32)}
    {rng : Entropy} (provisioned : s.provision peer adopted rng = .ok s') :
    (s' = s ∧ s.link peer ≠ none) ∨
      ∃ link, s.link peer = none ∧ link.Fresh ∧ s' = s.setLink peer link := by
  simp only [provision, bind_ok, require_ok] at provisioned
  obtain ⟨_, _, provisioned⟩ := provisioned
  split at provisioned
  · rename_i existing found
    simp only [bind_ok, require_ok, pure_ok] at provisioned
    obtain ⟨_, _, rfl⟩ := provisioned
    exact .inl ⟨rfl, by simp [found]⟩
  · rename_i missing
    simp only [bind_ok, require_ok, pure_ok] at provisioned
    obtain ⟨_, _, link, made, _, _, rfl⟩ := provisioned
    have fresh := ManagementLink.generated_fresh made
    refine .inr ⟨_, missing, ?_, rfl⟩
    exact ⟨fresh.unverified, fresh.unstaged, fresh.unapplied⟩

end ServerState

namespace Management

/-- `SecretKey`: never zero. -/
structure SecretKey where
  bytes : Binary 32
  nonzero : bytes ≠ 0
  deriving DecidableEq

def SecretKey.fromBytes (bytes : Binary 32) : Except String SecretKey :=
  if nonzero : bytes ≠ 0 then .ok ⟨bytes, nonzero⟩
  else .error "a management PSK must not be zero"

theorem SecretKey.fromBytes_ok {bytes : Binary 32} {key : SecretKey} :
    fromBytes bytes = .ok key ↔ key.bytes = bytes := by
  unfold fromBytes
  obtain ⟨bytes', nonzero'⟩ := key
  split
  · simp [eq_comm]
  · rename_i zero
    constructor
    · intro done
      cases done
    · rintro rfl
      exact absurd nonzero' zero

/-- `innernet_shared::management::Enrollment`. -/
structure Enrollment where
  networkId : Binary 16
  provisionId : Binary 16
  peerId : Int
  serverId : Int
  psk : SecretKey
  deriving DecidableEq

def Enrollment.validate (e : Enrollment) : Except String Unit :=
  require (¬ (e.peerId ≤ 0 ∨ e.serverId ≤ 0 ∨ e.peerId = e.serverId))
    "invalid management enrollment identities"

end Management

/-- The staged candidate as it is exported, or nothing when there is none to export. -/
def ManagementLink.stagedEnrollment (link : ManagementLink) (networkId : Binary 16)
    (serverId peer : Int) : Option Management.Enrollment := do
  let staged ← link.staged
  let psk ← (Management.SecretKey.fromBytes staged.psk).toOption
  return { networkId, provisionId := staged.provisionId, peerId := peer, serverId, psk }

/-- One of the operations of an administrative rotation. -/
inductive Rotation where
  | stage (adopted : Option (Binary 32)) (rng : Entropy)
  | apply
  | verify
  | confirm
  | rollback
  | force (secret : Binary 32) (rng : Entropy)
  deriving DecidableEq

namespace ManagementLink

def rotate (link : ManagementLink) : Rotation → Except Error ManagementLink
  | .stage adopted rng => link.stageRotation adopted rng
  | .apply => link.applyRotation
  | .verify => .ok { link with verified := true }
  | .confirm => link.confirmRotation
  | .rollback => link.rollbackRotation
  | .force secret rng => link.forceActive secret rng

/-- The link an operation leaves: a failed operation or a failed save leaves the old one. -/
def rotated (link : ManagementLink) (rotation : Rotation) (saved : Bool) : ManagementLink :=
  match link.rotate rotation with
  | .ok changed => if saved then changed else link
  | .error _ => link

end ManagementLink

/-- Where a save ends: in its place, at an error before the rename, at an error after it. -/
inductive Saving where
  | done
  | failed
  | renamed
  deriving DecidableEq, Repr

/-- What the store holds after a save that ended so. -/
def Saving.kept : Saving → Bool
  | .failed => false
  | _ => true

/-- `Manager`: the state in memory and the state in the store. -/
structure Manager where
  state : ServerState
  stored : ServerState
  deriving DecidableEq

namespace Manager

def stagedEnrollment (m : Manager) (id : Nat) : Except ServerError Management.Enrollment := do
  let peer ← pq (Number.new id)
  match m.state.link peer with
  | none => .error .unavailable
  | some link =>
    match link.stagedEnrollment m.state.networkId m.state.serverId.val id with
    | none => .error .unavailable
    | some enrollment => .ok enrollment

/-- What `rotate` and `mark_verified` share: the change counts once it is saved, and a save that
fails puts the old link back in memory. -/
def persist (m : Manager) (changed : ServerState) (saving : Saving) :
    Except ServerError Unit × Manager :=
  let stored := if saving.kept then changed else m.stored
  if saving = .done then (.ok (), { state := changed, stored })
  else (.error .unavailable, { state := m.state, stored })

def markVerified (m : Manager) (id : Nat) (saving : Saving) : Except ServerError Unit × Manager :=
  match Number.new id with
  | .error e => (.error (.pq e), m)
  | .ok peer =>
    match m.state.link peer with
    | none => (.error .unavailable, m)
    | some link =>
      if link.verified then (.ok (), m)
      else m.persist (m.state.setLink peer { link with verified := true }) saving

/-- The five operations that go through `rotate`; `mark_verified` has its own path. -/
def rotate (m : Manager) (id : Nat) (rotation : Rotation) (saving : Saving) :
    Except ServerError Unit × Manager :=
  if rotation = .verify then m.markVerified id saving
  else match Number.new id with
    | .error e => (.error (.pq e), m)
    | .ok peer =>
      match m.state.linkMut peer fun link => link.rotate rotation with
      | .error _ => (.error .unavailable, m)
      | .ok changed => m.persist changed saving

/-- A change of one link, once persisted, is a change of that link in the store. -/
theorem persist_link {m : Manager} (current : m.stored = m.state) {target : Number}
    {link changed : ManagementLink} (found : m.state.link target = some link)
    {rotation : Rotation} (acted : link.rotate rotation = .ok changed) (saving : Saving)
    (peer : Number) :
    (m.persist (m.state.setLink target changed) saving).2.stored.link peer =
      (m.stored.link peer).map fun l =>
        if peer.val = target.val then l.rotated rotation saving.kept else l := by
  have stored : (m.persist (m.state.setLink target changed) saving).2.stored =
      if saving.kept then m.state.setLink target changed else m.stored := by
    cases saving <;> rfl
  rw [stored, current]
  by_cases here : peer = target
  · subst here
    simp only [found, Option.map_some, if_true, ManagementLink.rotated, acted]
    split
    · rw [ServerState.link_setLink, if_pos rfl]
    · exact found
  · have elsewhere : ¬ peer.val = target.val := fun same => here (Number.ext same)
    simp only [if_neg elsewhere, Option.map_id']
    split
    · rw [ServerState.link_setLink, if_neg here]
    · rfl

/-- Nothing done to the store is what a lost operation does to its link. -/
theorem unchanged_link (s : ServerState) (id : Nat) (rotation : Rotation) (peer : Number) :
    s.link peer = (s.link peer).map fun link =>
      if peer.val = id then link.rotated rotation false else link := by
  have same : ∀ link : ManagementLink, link.rotated rotation false = link := by
    intro link
    unfold ManagementLink.rotated
    split <;> rfl
  simp only [same, ite_self, Option.map_id']

/-- An operation on one peer works on its link alone, and that link is left or rotated. -/
theorem rotate_links {m : Manager} (current : m.stored = m.state) (id : Nat) (rotation : Rotation)
    (saving : Saving) (peer : Number) :
    ∃ kept, (m.rotate id rotation saving).2.stored.link peer =
      (m.stored.link peer).map fun link =>
        if peer.val = id then link.rotated rotation kept else link := by
  have left : ∃ kept, m.stored.link peer = (m.stored.link peer).map fun link =>
      if peer.val = id then link.rotated rotation kept else link :=
    ⟨false, unchanged_link _ _ _ _⟩
  unfold rotate
  split
  · rename_i verify
    subst verify
    unfold markVerified
    split
    · exact left
    · rename_i target named
      rw [Number.new_ok] at named
      split
      · exact left
      · rename_i link found
        split
        · exact left
        · have acted : link.rotate .verify = .ok { link with verified := true } := rfl
          exact ⟨saving.kept, named ▸ persist_link current found acted saving peer⟩
  · split
    · exact left
    · rename_i target named
      rw [Number.new_ok] at named
      split
      · exact left
      · rename_i changed done
        obtain ⟨link, link', found, acted, rfl⟩ := ServerState.linkMut_ok done
        exact ⟨saving.kept, named ▸ persist_link current found acted saving peer⟩

end Manager

end Innernet
