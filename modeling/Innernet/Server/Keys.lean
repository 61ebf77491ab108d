import Innernet.Activation
import Innernet.Client
import Innernet.Encoding
import Innernet.Server.Rows

/-! The public keys of the directory are text from the request that wrote them to the code that
unwraps them: on the server when it configures a peer, on every client when it compares the
directory with its interface. -/
namespace Innernet

open Fallible Tables Runs

/-- `Key::from_base64`. -/
def Key.decode (text : String) : Option (Binary 32) := (Key.fromBase64 text).map Binary.ofBytes

theorem Key.decode_toBase64 (key : Binary 32) : Key.decode (Key.toBase64 key) = some key := by
  have spelled : Key.fromBase64 (Key.toBase64 key) = some key.bytes := by
    unfold Key.fromBase64 Key.toBase64
    rw [bytes_ofList (Base64.encode_plain _), Base64.decode_encode]
    simp [Binary.bytes_length]
  have value : (Binary.ofBytes key.bytes : Binary 32) = key := by
    rw [Binary.ofBytes, Binary.number_bytes]
    exact BitVec.eq_of_toNat_eq (by rw [BitVec.toNat_ofNat, Nat.mod_eq_of_lt key.isLt])
  rw [Key.decode, spelled, Option.map_some, value]

/-- `Peer`, with the key as the directory stores it. -/
structure ListedPeer where
  id : Nat
  publicKey : String
  ip : IpAddr
  isDisabled : Bool
  endpoint : Option SocketAddr
  persistentKeepaliveInterval : Option Nat
  candidates : List SocketAddr
  deriving DecidableEq

def ListedPeer.keyed (p : ListedPeer) (publicKey : Binary 32) : Peer where
  id := p.id
  publicKey
  ip := p.ip
  isDisabled := p.isDisabled
  endpoint := p.endpoint
  persistentKeepaliveInterval := p.persistentKeepaliveInterval
  candidates := p.candidates

namespace PeerDiff

/-- What is asked of a peer that is listed: a disabled one goes. -/
def listed (now : Nat) (publicKey : Binary 32) (old : Option PeerInfo) (new : ListedPeer) :
    Option PeerConfigBuilder :=
  if new.isDisabled then some (PeerConfigBuilder.new publicKey).remove
  else peerConfigBuilder now old (new.keyed publicKey)

/-- `PeerDiff::peer_config_builder`; no result is the panic of `Key::from_base64(..).unwrap()`. -/
def builder (now : Nat) (old : Option (Binary 32 × PeerInfo)) (new : Option ListedPeer) :
    Option (Option PeerConfigBuilder) :=
  match old, new with
  | none, none => some none
  | some old, none => some (some (PeerConfigBuilder.new old.1).remove)
  | some old, some new => some (listed now old.1 (some old.2) new)
  | none, some new => (Key.decode new.publicKey).map fun key => listed now key none new

/-- `PeerDiff::new`; no result is a panic. -/
def new (now : Nat) (old : Option (Binary 32 × PeerInfo)) (new : Option ListedPeer) :
    Option (Except String (Option PeerConfigBuilder)) :=
  match old, new with
  | some o, some n =>
    if Key.toBase64 o.1 ≠ n.publicKey then
      some (.error "old and new peer configs have different public keys")
    else (builder now old new).map .ok
  | _, _ => (builder now old new).map .ok

end PeerDiff

/-- `PeerConfigBuilder::from(&Peer)`; no result is a panic, of the key or of an `expect`. -/
def PeerConfigBuilder.ofPeer (now : Nat) (p : ListedPeer) : Option PeerConfigBuilder := do
  match ← PeerDiff.new now none (some p) with
  | .ok diff => diff
  | .error _ => none

/-- `PeerDiff::new(..).unwrap()` as `diff` calls it. -/
def Device.unwrapped (now : Nat) (old : Option (Binary 32 × PeerInfo)) (p : Option ListedPeer) :
    Option (Option PeerConfigBuilder) := do
  match ← PeerDiff.new now old p with
  | .ok diff => some diff
  | .error _ => none

/-- The public key of the interface as `diff` spells it. -/
def Device.interfaceKey (own : Option (Binary 32)) : String := (own.map Key.toBase64).getD ""

/-- `DeviceExt::diff`; no result is a panic. -/
def Device.compare (d : Device) (own : Option (Binary 32)) (now : Nat) (peers : List ListedPeer) :
    Option (List PeerConfigBuilder) := do
  let modifications ← peers.mapM fun p =>
    if p.isDisabled ∨ p.publicKey = Device.interfaceKey own then some none
    else
      let existing := d.entries.find? fun e => Key.toBase64 e.1 = p.publicKey
      Device.unwrapped now (existing.map fun e => (e.1, e.2)) (some p)
  let removals ← d.entries.mapM fun e =>
    if peers.any fun p => decide (p.publicKey = Key.toBase64 e.1) then some none
    else Device.unwrapped now (some (e.1, e.2)) none
  some (modifications.reduceOption ++ removals.reduceOption)

/-- A peer not on the interface yet is always configured. -/
theorem PeerDiff.listed_fresh (now : Nat) (key : Binary 32) (p : ListedPeer) :
    (PeerDiff.listed now key none p).isSome = true := by
  unfold PeerDiff.listed
  split
  · rfl
  · simp [PeerDiff.peerConfigBuilder]

theorem PeerDiff.new_fresh (now : Nat) (p : ListedPeer) : PeerDiff.new now none (some p) =
    ((Key.decode p.publicKey).map fun key => PeerDiff.listed now key none p).map .ok := rfl

/-- The server panics on exactly the keys `from_base64` refuses. -/
theorem PeerConfigBuilder.ofPeer_isSome (now : Nat) (p : ListedPeer) :
    (PeerConfigBuilder.ofPeer now p).isSome = (Key.decode p.publicKey).isSome := by
  unfold PeerConfigBuilder.ofPeer
  rw [PeerDiff.new_fresh]
  cases Key.decode p.publicKey with
  | none => rfl
  | some key => exact PeerDiff.listed_fresh now key p

theorem Device.unwrapped_removed (now : Nat) (old : Binary 32 × PeerInfo) :
    (Device.unwrapped now (some old) none).isSome = true := rfl

theorem Device.unwrapped_kept (now : Nat) {old : Binary 32 × PeerInfo} {p : ListedPeer}
    (same : Key.toBase64 old.1 = p.publicKey) :
    (Device.unwrapped now (some old) (some p)).isSome = true := by
  unfold Device.unwrapped PeerDiff.new
  simp only [same, ne_eq, not_true_eq_false, if_false]
  rfl

theorem Device.unwrapped_fresh (now : Nat) (p : ListedPeer) :
    (Device.unwrapped now none (some p)).isSome = (Key.decode p.publicKey).isSome := by
  unfold Device.unwrapped
  rw [PeerDiff.new_fresh]
  cases Key.decode p.publicKey <;> rfl

/-- A loop that may panic does not when no round does. -/
theorem mapM_isSome {α β : Type} {f : α → Option β} {l : List α}
    (each : ∀ a ∈ l, (f a).isSome = true) : (l.mapM f).isSome = true := by
  induction l with
  | nil => rfl
  | cons a l ih =>
    obtain ⟨b, here⟩ := Option.isSome_iff_exists.mp (each a List.mem_cons_self)
    obtain ⟨rest, there⟩ := Option.isSome_iff_exists.mp
      (ih fun a' later => each a' (List.mem_cons_of_mem _ later))
    rw [List.mapM_cons, here, there]
    rfl

theorem Device.compare_isSome (d : Device) (own : Option (Binary 32)) (now : Nat)
    {peers : List ListedPeer} (parse : ∀ p ∈ peers, (Key.decode p.publicKey).isSome = true) :
    (d.compare own now peers).isSome = true := by
  have modified : ∀ p ∈ peers, (if p.isDisabled ∨ p.publicKey = Device.interfaceKey own then
      some none else Device.unwrapped now ((d.entries.find? fun e =>
        Key.toBase64 e.1 = p.publicKey).map fun e => (e.1, e.2)) (some p)).isSome = true := by
    intro p member
    split
    · rfl
    · cases found : d.entries.find? fun e => Key.toBase64 e.1 = p.publicKey with
      | none => exact (Device.unwrapped_fresh now p).trans (parse p member)
      | some e => exact Device.unwrapped_kept now (by simpa using List.find?_some found)
  have removed : ∀ e ∈ d.entries, (if peers.any fun p => decide (p.publicKey = Key.toBase64 e.1)
      then some none else Device.unwrapped now (some (e.1, e.2)) none).isSome = true := by
    intro e _
    split
    · rfl
    · exact Device.unwrapped_removed now _
  obtain ⟨modifications, first⟩ := Option.isSome_iff_exists.mp (mapM_isSome modified)
  obtain ⟨removals, second⟩ := Option.isSome_iff_exists.mp (mapM_isSome removed)
  unfold Device.compare
  rw [first, Option.bind_eq_bind, Option.bind_some, second]
  rfl

namespace Database

/-- What a request that is accepted writes as a peer's public key. -/
def entered (db : Database) : Operation → Option String
  | .createPeer contents =>
    (db.createPeer contents).toOption.map fun _ => contents.publicKey
  | .redeemPeer id publicKey now =>
    (db.redeemPeer id publicKey now).toOption.map fun _ => publicKey
  | _ => none

/-- Every stored key parses, so that neither configuring a peer on the server nor comparing any
part of the directory with any interface panics. -/
structure Parses (db : Database) : Prop where
  stored : ∀ id row, db.peers.lookup id = some row → (Key.decode row.publicKey).isSome = true
  configured : ∀ id row, db.peers.lookup id = some row → ∀ p : ListedPeer,
    p.publicKey = row.publicKey → ∀ now, (PeerConfigBuilder.ofPeer now p).isSome = true
  compared : ∀ (d : Device) own now (peers : List ListedPeer), (∀ p ∈ peers, ∃ id row,
    db.peers.lookup id = some row ∧ p.publicKey = row.publicKey) →
    (d.compare own now peers).isSome = true

theorem Parses.of_stored {db : Database} (stored : ∀ id row, db.peers.lookup id = some row →
    (Key.decode row.publicKey).isSome = true) : db.Parses where
  stored := stored
  configured id row found p same now := by
    rw [PeerConfigBuilder.ofPeer_isSome, same]
    exact stored id row found
  compared d own now peers listed := by
    refine d.compare_isSome own now fun p member => ?_
    obtain ⟨id, row, found, same⟩ := listed p member
    exact same ▸ stored id row found

end Database

/-- A request or a command: `add_peer` draws the key pair of an invitation itself, the others take
what they are given. -/
inductive Request where
  | addPeer (contents : PeerRow) (keypair : Binary 32)
  | other (op : Operation)

namespace Request

def operation : Request → Operation
  | addPeer contents keypair => .createPeer { contents with publicKey := Key.toBase64 keypair }
  | other op => op

/-- The text of a public key that comes in with an accepted request. -/
def entered (db : Database) : Request → Option String
  | addPeer _ _ => none
  | other op => db.entered op

variable [Native]

def Step (db : Database) (r : Request) (db' : Database) : Prop := r.operation.apply db = db'

omit [Native] in
/-- What is written is what came in, or a key of the server's own making. -/
theorem written_parses {db : Database} {r : Request}
    (parses : ∀ text ∈ r.entered db, (Key.decode text).isSome = true) :
    ∀ text ∈ db.entered r.operation, (Key.decode text).isSome = true := by
  cases r with
  | addPeer contents keypair =>
    intro text written
    obtain ⟨_, _, rfl⟩ := Option.map_eq_some_iff.mp written
    rw [Key.decode_toBase64]
    rfl
  | other op => exact parses

/-- A row after an operation has the key it had, or the one that was written. -/
theorem row_key (op : Operation) {db : Database} (sound : db.Sound) {id : Nat} {row : PeerRow}
    (found : (op.apply db).peers.lookup id = some row) :
    (∃ old, db.peers.lookup id = some old ∧ row.publicKey = old.publicKey) ∨
      db.entered op = some row.publicKey := by
  have rewritten := (op.rewritten sound).rows
  generalize (op.apply db).peers = peers at found rewritten
  -- a row written over an old one that keeps its key
  have over_row : ∀ {k : Nat} {old written : PeerRow}, db.peers.lookup k = some old →
      written.publicKey = old.publicKey → (db.peers.insert k written).lookup id = some row →
      ∃ old, db.peers.lookup id = some old ∧ row.publicKey = old.publicKey := by
    intro k old written stored same found
    rw [lookup_insert_eq] at found
    split at found
    · rename_i here
      cases found
      exact ⟨old, here ▸ stored, same⟩
    · exact ⟨row, found, rfl⟩
  cases rewritten with
  | same => exact .inl ⟨row, found, rfl⟩
  | created absent accepted =>
    obtain ⟨db', accepted⟩ := accepted
    rw [lookup_insert_eq] at found
    split at found
    · cases found
      refine .inr ?_
      simp [Database.entered, accepted, Except.toOption]
    · exact .inl ⟨row, found, rfl⟩
  | updated stored =>
    refine .inl (over_row stored ?_ found)
    rfl
  | disabled stored =>
    refine .inl (over_row stored ?_ found)
    rfl
  | redeemed stored unredeemed accepted =>
    obtain ⟨db', accepted⟩ := accepted
    rw [lookup_insert_eq] at found
    split at found
    · cases found
      refine .inr ?_
      simp [Database.entered, accepted, Except.toOption]
    · exact .inl ⟨row, found, rfl⟩
  | expired =>
    rw [lookup_keep] at found
    obtain ⟨stored, -⟩ := Option.filter_eq_some_iff.mp found
    exact .inl ⟨row, stored, rfl⟩
  | identified stored single =>
    refine .inl (over_row stored ?_ found)
    rfl

omit [Native] in
/-- What an accepted request writes is in a row afterwards. -/
theorem entered_stored [Native] (op : Operation) {db : Database} {text : String}
    (written : db.entered op = some text) :
    ∃ id row, (op.apply db).peers.lookup id = some row ∧ row.publicKey = text := by
  cases op with
  | createPeer contents =>
    obtain ⟨db', done, rfl⟩ := Option.map_eq_some_iff.mp written
    rw [toOption_some] at done
    have applied : (Operation.createPeer contents).apply db = db' := by
      change db.commit (db.createPeer contents) = db'
      rw [done]
      rfl
    rw [applied]
    simp only [Database.createPeer, bind_ok, require_ok, pure_ok] at done
    obtain ⟨_, _, _, _, rfl⟩ := done
    exact ⟨_, _, AList.lookup_insert _, rfl⟩
  | redeemPeer id publicKey now =>
    obtain ⟨db', done, rfl⟩ := Option.map_eq_some_iff.mp written
    rw [toOption_some] at done
    have applied : (Operation.redeemPeer id publicKey now).apply db = db' := by
      change db.commit (db.redeemPeer id publicKey now) = db'
      rw [done]
      rfl
    rw [applied]
    simp only [Database.redeemPeer, bind_ok, require_ok, pure_ok] at done
    obtain ⟨_, _, _, _, _, _, _, _, rfl⟩ := done
    exact ⟨_, _, AList.lookup_insert _, rfl⟩
  | _ => cases written

/-- The stored keys parse throughout a run exactly when every key that comes in does. -/
theorem stored_keys_parse {start t : Database} {ms : List (Move Database Request)}
    (unused : start.Unused) (parse : start.Parses) (run : Run Step start ms t) :
    (∀ m ∈ ms, m.after.Parses) ↔
      ∀ m ∈ ms, ∀ text ∈ m.label.entered m.before, (Key.decode text).isSome = true := by
  refine run.all_iff (P := fun db => db.Sound ∧ db.Parses) ⟨unused.sound, parse⟩ ?_ ?_
  · rintro a r b ⟨sound, parses⟩ taken entered
    have written := written_parses entered
    have next : b.Parses := by
      refine .of_stored fun id row found => ?_
      rw [← (taken : r.operation.apply a = b)] at found
      rcases row_key r.operation sound found with ⟨old, stored, same⟩ | new
      · exact same ▸ parses.stored id old stored
      · exact written _ new
    exact ⟨⟨(taken : r.operation.apply a = b) ▸ (r.operation.reaches sound).sound, next⟩, next⟩
  · rintro a r b - taken parses text written
    cases r with
    | addPeer contents keypair => cases written
    | other op =>
      obtain ⟨id, row, found, rfl⟩ := entered_stored op written
      exact parses.stored id row ((taken : op.apply a = b) ▸ found)

end Request

namespace Request

open Arithmetic

attribute [local instance] native

theorem site_parses : site.Parses := by
  refine .of_stored fun id row found => ?_
  simp only [site, lookup_insert_eq] at found
  split_ifs at found
  · cases found
    decide +kernel
  · cases found
    decide +kernel
  · cases found
    decide +kernel
  · cases found

def invited (publicKey : String) : PeerRow :=
  { peer "carol" "10.0.0.4" 4 false with publicKey, isRedeemed := false }

/-- Neither the admin API nor redemption reads the text it stores. -/
theorem stored_text_unread : site.Unused ∧ site.Parses ∧
    (∃ ms t, Run Step site ms t ∧
      ms.map Move.label = [.other (.createPeer (invited "not a key"))] ∧
      (t.peers.lookup 4).map PeerRow.publicKey = some "not a key" ∧ ¬ t.Parses) ∧
    ∃ ms t, Run Step site ms t ∧ ms.map Move.label =
        [.addPeer (invited "") 4, .other (.redeemPeer 4 "not a key" 20)] ∧
      (t.peers.lookup 4).map PeerRow.publicKey = some "not a key" ∧ ¬ t.Parses := by
  have unread : ∀ {t : Database}, (t.peers.lookup 4).map PeerRow.publicKey = some "not a key" →
      ¬ t.Parses := by
    intro t found parses
    obtain ⟨row, stored, text⟩ := Option.map_eq_some_iff.mp found
    have read := parses.stored 4 row stored
    rw [text] at read
    exact absurd read (by decide +kernel)
  refine ⟨⟨rfl, rfl, rfl⟩, site_parses,
    ⟨_, _, Run.start.move rfl, rfl, ?_⟩, ⟨_, _, (Run.start.move rfl).move rfl, rfl, ?_⟩⟩
  · have found : ((operation (.other (.createPeer (invited "not a key")))).apply
        site |>.peers.lookup 4).map PeerRow.publicKey = some "not a key" := by decide +kernel
    exact ⟨found, unread found⟩
  · have found : ((operation (.other (.redeemPeer 4 "not a key" 20))).apply
        ((operation (.addPeer (invited "") 4)).apply site) |>.peers.lookup 4).map
          PeerRow.publicKey = some "not a key" := by decide +kernel
    exact ⟨found, unread found⟩

/-- An invitation, and its redemption with a key of the peer's own. -/
theorem stored_keys_parse_redeemed : ∃ ms t, Run Step site ms t ∧
    (t.peers.lookup 4).map PeerRow.publicKey = some (Key.toBase64 9) ∧
      ∀ m ∈ ms, m.after.Parses := by
  have run : Run Step site [⟨site, .addPeer (invited "") 4, _⟩,
      ⟨_, .other (.redeemPeer 4 (Key.toBase64 9) 20), _⟩] _ := (Run.start.move rfl).move rfl
  refine ⟨_, _, run, by decide +kernel,
    (stored_keys_parse ⟨rfl, rfl, rfl⟩ site_parses run).mpr ?_⟩
  intro m member text written
  simp only [List.mem_cons, List.not_mem_nil, or_false] at member
  rcases member with rfl | rfl
  · cases written
  · simp only [entered, Database.entered, Option.mem_def, Option.map_eq_some_iff] at written
    obtain ⟨_, _, rfl⟩ := written
    rw [Key.decode_toBase64]
    rfl

end Request

end Innernet
