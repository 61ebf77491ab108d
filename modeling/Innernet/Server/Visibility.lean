import Innernet.Library.Chains
import Innernet.Server.Operations

/-! Who may see whom: the recursive queries of `get_all_allowed_peers` as chains of parents, and
what has to be kept for a pair that is allowed to stay so. -/
namespace Innernet

open Fallible Tables Chains

/-- A peer that may take part in an exchange. -/
structure PeerRow.Admissible (row : PeerRow) : Prop where
  isServer : row.isServer = false
  isDisabled : row.isDisabled = false
  isRedeemed : row.isRedeemed = true

namespace Database

variable {db db' : Database}

def parent (db : Database) (id : Nat) : Option Nat := (db.cidrs.lookup id).join

/-- The CIDR `id` is `ancestor` or lies below it. -/
def Under (db : Database) (id ancestor : Nat) : Prop := ∃ n, climb db.parent n id = some ancestor

def Associated (db : Database) (a b : Nat) : Prop :=
  ∃ id row, db.associations.lookup id = some row ∧
    ((row.cidrId1 = a ∧ row.cidrId2 = b) ∨ (row.cidrId2 = a ∧ row.cidrId1 = b))

/-- The peers in `cidr` see those in `id`: it is below the same CIDR, the infrastructure, or the
other end of an association of an ancestor. -/
def Sees (db : Database) (cidr id : Nat) : Prop :=
  ∃ top, db.Under id top ∧ (top = cidr ∨ top = 2 ∨ ∃ a, db.Under cidr a ∧
    db.cidrs.lookup a ≠ none ∧ db.Associated a top)

theorem parent_some {id p : Nat} : db.parent id = some p ↔ db.cidrs.lookup id = some (some p) := by
  rw [parent, Option.join_eq_some_iff]

theorem parent_key {id p : Nat} (found : db.parent id = some p) : id ∈ db.cidrs.keys :=
  AList.mem_keys.mpr (AList.lookup_isSome.mp (by rw [parent_some.mp found]; rfl))

theorem keys_length (db : Database) : db.cidrs.keys.length = db.cidrs.entries.length :=
  List.length_map _

theorem mem_parentOf {fuel id a : Nat} : a ∈ db.parentOf fuel id ↔
    ∃ n < fuel, climb db.parent n id = some a ∧ db.cidrs.lookup a ≠ none := by
  induction fuel generalizing id with
  | zero => simp [parentOf]
  | succ fuel ih =>
    have here : (∃ n < fuel + 1, climb db.parent n id = some a ∧ db.cidrs.lookup a ≠ none) ↔
        (a = id ∧ db.cidrs.lookup id ≠ none) ∨ ∃ p, db.parent id = some p ∧
          ∃ n < fuel, climb db.parent n p = some a ∧ db.cidrs.lookup a ≠ none := by
      constructor
      · rintro ⟨n, less, reached, found⟩
        cases n with
        | zero =>
          cases reached
          exact .inl ⟨rfl, found⟩
        | succ n =>
          obtain ⟨p, next, rest⟩ := Option.bind_eq_some_iff.mp reached
          exact .inr ⟨p, next, n, by omega, rest, found⟩
      · rintro (⟨rfl, found⟩ | ⟨p, next, n, less, reached, found⟩)
        · exact ⟨0, by omega, rfl, found⟩
        · exact ⟨n + 1, by omega, by rw [climb, next]; exact reached, found⟩
    rw [here]
    unfold parentOf
    split
    · rename_i absent
      simp [parent, absent]
    · rename_i root
      simp [parent, root]
    · rename_i p found
      simp [parent, found, ih]

theorem mem_subcidrs {fuel id : Nat} {found : List Nat} : id ∈ db.subcidrs fuel found ↔
    ∃ n ≤ fuel, ∃ top ∈ found, climb db.parent n id = some top := by
  induction fuel generalizing found with
  | zero =>
    rw [subcidrs]
    constructor
    · exact fun member => ⟨0, le_rfl, id, member, rfl⟩
    · rintro ⟨n, less, top, member, reached⟩
      cases Nat.le_zero.mp less
      cases reached
      exact member
  | succ fuel ih =>
    have child : ∀ k, k ∈ keysWhere (fun _ parent => parent.any (· ∈ found)) db.cidrs ↔
        ∃ top ∈ found, db.parent k = some top := by
      intro k
      simp only [mem_keysWhere, parent_some, Option.any_eq_true, decide_eq_true_eq]
      constructor
      · rintro ⟨_, stored, top, rfl, member⟩
        exact ⟨top, member, stored⟩
      · rintro ⟨top, member, stored⟩
        exact ⟨_, stored, top, rfl, member⟩
    rw [subcidrs, ih]
    constructor
    · rintro ⟨n, less, top, member, reached⟩
      rcases List.mem_append.mp member with old | new
      · exact ⟨n, by omega, top, old, reached⟩
      · obtain ⟨above, member, next⟩ := (child top).mp new
        exact ⟨n + 1, by omega, above, member, by rw [climb_last, reached]; exact next⟩
    · rintro ⟨n, less, top, member, reached⟩
      rcases Nat.le_succ_iff.mp less with earlier | rfl
      · exact ⟨n, earlier, top, List.mem_append_left _ member, reached⟩
      · rw [climb_last, Option.bind_eq_some_iff] at reached
        obtain ⟨below, reached, next⟩ := reached
        exact ⟨fuel, le_rfl, below, List.mem_append_right _ ((child below).mpr ⟨top, member, next⟩),
          reached⟩

/-- The rounds of the two recursive queries reach everything there is to reach. -/
theorem mem_reached {cidr id : Nat} :
    id ∈ db.subcidrs db.cidrs.entries.length ([cidr, 2] ++
      db.associated (db.parentOf db.cidrs.entries.length cidr)) ↔ db.Sees cidr id := by
  have ancestor : ∀ a, a ∈ db.parentOf db.cidrs.entries.length cidr ↔
      db.Under cidr a ∧ db.cidrs.lookup a ≠ none := by
    intro a
    rw [mem_parentOf]
    constructor
    · rintro ⟨n, -, reached, found⟩
      exact ⟨⟨n, reached⟩, found⟩
    · rintro ⟨⟨n, reached⟩, found⟩
      obtain ⟨m, -, reached, short⟩ := climb_short _ (fun _ _ => parent_key) reached
      have key : a ∈ db.cidrs.keys :=
        AList.mem_keys.mpr (AList.lookup_isSome.mp (Option.isSome_iff_ne_none.mpr found))
      exact ⟨m, db.keys_length ▸ short key, reached, found⟩
  have linked : ∀ top, top ∈ db.associated (db.parentOf db.cidrs.entries.length cidr) ↔
      ∃ a, db.Under cidr a ∧ db.cidrs.lookup a ≠ none ∧ db.Associated a top := by
    intro top
    simp only [associated, List.mem_flatMap, List.mem_append, mem_entries_iff]
    constructor
    · rintro ⟨⟨id, row⟩, stored, member | member⟩
      · split at member
        · rename_i above
          obtain ⟨under, found⟩ := (ancestor _).mp above
          exact ⟨_, under, found, id, row, stored, .inl ⟨rfl, (List.mem_singleton.mp member).symm⟩⟩
        · cases member
      · split at member
        · rename_i above
          obtain ⟨under, found⟩ := (ancestor _).mp above
          exact ⟨_, under, found, id, row, stored, .inr ⟨rfl, (List.mem_singleton.mp member).symm⟩⟩
        · cases member
    · rintro ⟨a, under, found, id, row, stored, ⟨rfl, rfl⟩ | ⟨rfl, rfl⟩⟩
      · exact ⟨⟨id, row⟩, stored, .inl (by simp [(ancestor _).mpr ⟨under, found⟩])⟩
      · exact ⟨⟨id, row⟩, stored, .inr (by simp [(ancestor _).mpr ⟨under, found⟩])⟩
  rw [mem_subcidrs]
  constructor
  · rintro ⟨n, -, top, member, reached⟩
    refine ⟨top, ⟨n, reached⟩, ?_⟩
    rcases List.mem_append.mp member with seed | other
    · simp only [List.mem_cons, List.not_mem_nil, or_false] at seed
      exact seed.imp_right .inl
    · exact .inr (.inr ((linked top).mp other))
  · rintro ⟨top, ⟨n, reached⟩, seed⟩
    obtain ⟨m, short, reached, -⟩ := climb_short _ (fun _ _ => parent_key) reached
    refine ⟨m, db.keys_length ▸ short, top, List.mem_append.mpr ?_, reached⟩
    rcases seed with rfl | rfl | other
    · exact .inl (by simp)
    · exact .inl (by simp)
    · exact .inr ((linked top).mpr other)

theorem mem_allowedPeers {cidr p : Nat} : p ∈ db.allowedPeers cidr ↔
    ∃ row, db.peers.lookup p = some row ∧ row.isDisabled = false ∧ row.isRedeemed = true ∧
      db.Sees cidr row.cidrId := by
  simp only [allowedPeers, mem_keysWhere, mem_reached, Bool.and_eq_true, decide_eq_true_eq,
    Bool.not_eq_true']
  constructor
  · rintro ⟨row, found, ⟨sees, enabled⟩, redeemed⟩
    exact ⟨row, found, enabled, redeemed, sees⟩
  · rintro ⟨row, found, enabled, redeemed, sees⟩
    exact ⟨row, found, ⟨sees, enabled⟩, redeemed⟩

/-- What `pair_allowed` decides. -/
theorem pairAllowed_iff {first second : Nat} : db.pairAllowed first second = .ok () ↔
    0 < first ∧ 0 < second ∧ first ≠ second ∧ ∃ a b, db.peers.lookup first = some a ∧
      db.peers.lookup second = some b ∧ a.Admissible ∧ b.Admissible ∧
      db.Sees a.cidrId b.cidrId ∧ db.Sees b.cidrId a.cidrId := by
  have read : ∀ {id row}, db.getPeer id = .ok row ↔ db.peers.lookup id = some row := by
    intro id row
    unfold getPeer
    split <;> simp_all
  simp only [pairAllowed, isServer, bind_ok, pure_ok, require_ok, read, mem_allowedPeers]
  constructor
  · rintro ⟨_, ⟨positive, positive', apart⟩, _, ⟨a, first, rfl⟩, _, data, _, ⟨b, second, rfl⟩, _,
      data', a', first', b', second', enabled, enabled', redeemed, redeemed', ⟨_, seen, -, -, sees⟩,
      ⟨_, seen', -, -, sees'⟩⟩
    cases Option.some.inj (first.symm.trans first')
    cases Option.some.inj (second.symm.trans second')
    cases Option.some.inj (second.symm.trans seen)
    cases Option.some.inj (first.symm.trans seen')
    exact ⟨positive, positive', apart, a, b, first, second, ⟨data, enabled, redeemed⟩,
      ⟨data', enabled', redeemed'⟩, sees, sees'⟩
  · rintro ⟨positive, positive', apart, a, b, first, second, admissible, admissible', sees, sees'⟩
    exact ⟨⟨⟩, ⟨positive, positive', apart⟩, _, ⟨a, first, rfl⟩, ⟨⟩, admissible.isServer, _,
      ⟨b, second, rfl⟩, ⟨⟩, admissible'.isServer, a, first, b, second, admissible.isDisabled,
      admissible'.isDisabled, admissible.isRedeemed, admissible'.isRedeemed,
      ⟨b, second, admissible'.isDisabled, admissible'.isRedeemed, sees⟩,
      ⟨a, first, admissible.isDisabled, admissible.isRedeemed, sees'⟩⟩

theorem pairAllowed_symm {first second : Nat} (allowed : db.pairAllowed first second = .ok ()) :
    db.pairAllowed second first = .ok () := by
  obtain ⟨positive, positive', apart, a, b, first, second, admissible, admissible', sees, sees'⟩ :=
    pairAllowed_iff.mp allowed
  exact pairAllowed_iff.mpr ⟨positive', positive, apart.symm, b, a, second, first, admissible',
    admissible, sees', sees⟩

/-- A view stays where the CIDRs it passes and the associations it uses do. -/
theorem Sees.along {P : Nat → Prop} {cidr id : Nat}
    (cidrs : ∀ k v, P k → db.cidrs.lookup k = some v → db'.cidrs.lookup k = some v ∧
      ∀ above ∈ v, P above)
    (associations : ∀ a top, db.Associated a top → db'.Associated a top) (start : P cidr)
    (start' : P id) (sees : db.Sees cidr id) : db'.Sees cidr id := by
  have step : ∀ a b, P a → db.parent a = some b → db'.parent a = some b ∧ P b := by
    intro a b holds next
    obtain ⟨same, above⟩ := cidrs a _ holds (parent_some.mp next)
    exact ⟨parent_some.mpr same, above b rfl⟩
  obtain ⟨top, ⟨n, reached⟩, seed⟩ := sees
  refine ⟨top, ⟨n, (climb_along step start' reached).1⟩, seed.imp_right (.imp_right ?_)⟩
  rintro ⟨a, ⟨m, climbed⟩, found, associated⟩
  obtain ⟨climbed, holds⟩ := climb_along step start climbed
  obtain ⟨v, stored⟩ := Option.ne_none_iff_exists'.mp found
  exact ⟨a, ⟨m, climbed⟩, by rw [(cidrs a v holds stored).1]; exact Option.some_ne_none v,
    associations a top associated⟩

/-- The tables `pair_allowed` reads are the same. -/
structure SameDirectory (db db' : Database) : Prop where
  peers : db'.peers = db.peers
  cidrs : db'.cidrs = db.cidrs
  associations : db'.associations = db.associations

/-- `db'` allows what `db` does to the peers in `P`. -/
structure Wider (P : Nat → Prop) (db db' : Database) : Prop where
  peers : ∀ p row, P p → db.peers.lookup p = some row → row.Admissible →
    ∃ row', db'.peers.lookup p = some row' ∧ row'.Admissible ∧ row'.cidrId = row.cidrId
  sees : ∀ p q a b, db.peers.lookup p = some a → db.peers.lookup q = some b →
    db.Sees a.cidrId b.cidrId → db'.Sees a.cidrId b.cidrId

/-- The peers of the key may speak to each other. -/
def allowedKey (db : Database) (k : ExchangeKey) : Prop :=
  db.pairAllowed k.initiatorId k.responderId = .ok ()

theorem allowedKey_involved {k : ExchangeKey} (allowed : db.allowedKey k) (p : Nat)
    (involved : k.involves p) : ∃ row, db.peers.lookup p = some row ∧ row.Admissible := by
  obtain ⟨-, -, -, a, b, first, second, admissible, admissible', -⟩ := pairAllowed_iff.mp allowed
  rcases involved with rfl | rfl
  · exact ⟨a, first, admissible⟩
  · exact ⟨b, second, admissible'⟩

theorem SameDirectory.sees (same : SameDirectory db db') {c i : Nat} (sees : db.Sees c i) :
    db'.Sees c i := by
  refine sees.along (P := fun _ => True) (fun k v _ found => ⟨?_, fun _ _ => trivial⟩) ?_ trivial
    trivial
  · rw [same.cidrs]
    exact found
  · rintro a top ⟨id, row, found, ends⟩
    exact ⟨id, row, by rw [same.associations]; exact found, ends⟩

theorem Wider.allowed {P : Nat → Prop} (wider : Wider P db db') {k : ExchangeKey}
    (within : ∀ p, k.involves p → P p) (allowed : db.allowedKey k) : db'.allowedKey k := by
  obtain ⟨positive, positive', apart, a, b, first, second, admissible, admissible', sees, sees'⟩ :=
    pairAllowed_iff.mp allowed
  obtain ⟨c, found, good, same⟩ := wider.peers _ a (within _ (.inl rfl)) first admissible
  obtain ⟨d, found', good', same'⟩ := wider.peers _ b (within _ (.inr rfl)) second admissible'
  refine pairAllowed_iff.mpr ⟨positive, positive', apart, c, d, found, found', good, good', ?_, ?_⟩
  · rw [same, same']
    exact wider.sees _ _ a b first second sees
  · rw [same, same']
    exact wider.sees _ _ b a second first sees'

theorem SameDirectory.wider (same : SameDirectory db db') : Wider (fun _ => True) db db' where
  peers p row _ found admissible := ⟨row, by rw [same.peers]; exact found, admissible, rfl⟩
  sees _ _ _ _ _ _ := same.sees

theorem SameDirectory.symm (same : SameDirectory db db') : SameDirectory db' db :=
  ⟨same.peers.symm, same.cidrs.symm, same.associations.symm⟩

theorem SameDirectory.allowed (same : SameDirectory db db') {k : ExchangeKey} :
    db'.allowedKey k ↔ db.allowedKey k :=
  ⟨same.symm.wider.allowed fun _ _ => trivial, same.wider.allowed fun _ _ => trivial⟩

/-- The CIDRs form a tree, as the foreign keys and the checks of `DatabaseCidr::create` keep it,
every peer is in one of them, and no peer has a number below one. -/
structure Tree (db : Database) : Prop where
  known : ∀ id p, db.parent id = some p → db.cidrs.lookup p ≠ none
  acyclic : ∀ id n, climb db.parent (n + 1) id ≠ some id
  placed : ∀ p row, db.peers.lookup p = some row → db.cidrs.lookup row.cidrId ≠ none
  positive : ∀ p row, db.peers.lookup p = some row → 0 < p

/-- No CIDR has `id` as its parent. -/
def Leaf (db : Database) (id : Nat) : Prop := ∀ below, db.parent below ≠ some id

theorem Leaf.under {id leaf : Nat} (bottom : db.Leaf leaf) (under : db.Under id leaf) :
    id = leaf := by
  obtain ⟨n, reached⟩ := under
  cases n with
  | zero => exact Option.some.inj reached
  | succ n =>
    rw [climb_last, Option.bind_eq_some_iff] at reached
    obtain ⟨below, -, next⟩ := reached
    exact absurd next (bottom below)

theorem Tree.above (tree : db.Tree) {id a : Nat} (known : db.cidrs.lookup id ≠ none)
    (under : db.Under id a) : db.cidrs.lookup a ≠ none := by
  obtain ⟨n, reached⟩ := under
  cases n with
  | zero =>
    cases reached
    exact known
  | succ n =>
    rw [climb_last, Option.bind_eq_some_iff] at reached
    obtain ⟨below, -, next⟩ := reached
    exact tree.known below a next

theorem climb_below (descending : ∀ id p, db.parent id = some p → p < id) {n id a : Nat}
    (reached : climb db.parent (n + 1) id = some a) : a < id := by
  induction n generalizing id with
  | zero =>
    rw [climb, Option.bind_eq_some_iff] at reached
    obtain ⟨p, next, same⟩ := reached
    cases same
    exact descending id _ next
  | succ n ih =>
    rw [climb, Option.bind_eq_some_iff] at reached
    obtain ⟨p, next, rest⟩ := reached
    exact Nat.lt_trans (ih rest) (descending id p next)

/-- In a tree a chain of parents ends within as many steps as there are CIDRs. -/
theorem Tree.chain_ends (tree : db.Tree) {id : Nat} (known : db.cidrs.lookup id ≠ none) :
    climb db.parent db.cidrs.entries.length id = none := by
  rw [Option.eq_none_iff_forall_ne_some]
  intro a reached
  have key : a ∈ db.cidrs.keys := AList.mem_keys.mpr (AList.lookup_isSome.mp
    (Option.isSome_iff_ne_none.mpr (tree.above known ⟨_, reached⟩)))
  obtain ⟨m, -, shorter, less⟩ := climb_short _ (fun _ _ => parent_key) reached
  have less := db.keys_length ▸ less key
  obtain ⟨k, length⟩ : ∃ k, db.cidrs.entries.length = m + (k + 1) :=
    ⟨db.cidrs.entries.length - m - 1, by omega⟩
  rw [length, climb_add, shorter, Option.bind_some] at reached
  exact tree.acyclic a k reached

theorem parentOf_more {fuel id : Nat} (ends : climb db.parent fuel id = none) (k : Nat) :
    db.parentOf (fuel + k) id = db.parentOf fuel id := by
  induction fuel generalizing id with
  | zero => cases ends
  | succ fuel ih =>
    rw [Nat.succ_add, parentOf, parentOf]
    split
    · rfl
    · rfl
    · rename_i p found
      rw [climb, parent_some.mpr found, Option.bind_some] at ends
      rw [ih ends]

/-- The chain of parents is complete: the recursive query stops with it. -/
theorem Tree.parentOf_complete (tree : db.Tree) {id : Nat} (known : db.cidrs.lookup id ≠ none)
    (k : Nat) : db.parentOf (db.cidrs.entries.length + k) id =
      db.parentOf db.cidrs.entries.length id :=
  parentOf_more (tree.chain_ends known) k

theorem Tree.sees_iff (tree : db.Tree) {cidr id : Nat} (known : db.cidrs.lookup cidr ≠ none) :
    db.Sees cidr id ↔ db.Under id cidr ∨ db.Under id 2 ∨
      ∃ x y, db.Associated x y ∧ db.Under cidr x ∧ db.Under id y := by
  constructor
  · rintro ⟨top, under, rfl | rfl | ⟨a, above, _, associated⟩⟩
    · exact .inl under
    · exact .inr (.inl under)
    · exact .inr (.inr ⟨a, top, associated, above, under⟩)
  · rintro (under | under | ⟨x, y, associated, above, under⟩)
    · exact ⟨cidr, under, .inl rfl⟩
    · exact ⟨2, under, .inr (.inl rfl)⟩
    · exact ⟨y, under, .inr (.inr ⟨x, above, tree.above known above, associated⟩)⟩

theorem Associated.symm {a b : Nat} (associated : db.Associated a b) : db.Associated b a := by
  obtain ⟨id, row, found, ⟨rfl, rfl⟩ | ⟨rfl, rfl⟩⟩ := associated
  · exact ⟨id, row, found, .inr ⟨rfl, rfl⟩⟩
  · exact ⟨id, row, found, .inl ⟨rfl, rfl⟩⟩

/-- Outside the infrastructure two leaves see each other or neither sees the other. -/
theorem Tree.sees_symm (tree : db.Tree) {c d : Nat} (known : db.cidrs.lookup c ≠ none)
    (known' : db.cidrs.lookup d ≠ none) (leaf : db.Leaf c) (outside : ¬ db.Under d 2)
    (sees : db.Sees c d) : db.Sees d c := by
  rw [tree.sees_iff known] at sees
  rw [tree.sees_iff known']
  rcases sees with under | under | ⟨x, y, associated, above, under⟩
  · cases leaf.under under
    exact .inl ⟨0, rfl⟩
  · exact absurd under outside
  · exact .inr (.inr ⟨y, x, associated.symm, under, above⟩)

/-- Who a peer sees, exactly, each once; and between leaves outside the infrastructure seeing is
mutual, so that any two such peers that are not the server may form a pair. -/
theorem allowed_peers_exact (tree : db.Tree) {a : Nat} {row : PeerRow}
    (found : db.peers.lookup a = some row) :
    (∀ p, p ∈ db.allowedPeers row.cidrId ↔ ∃ row', db.peers.lookup p = some row' ∧
      row'.isDisabled = false ∧ row'.isRedeemed = true ∧
      (db.Under row'.cidrId row.cidrId ∨ db.Under row'.cidrId 2 ∨
        ∃ x y, db.Associated x y ∧ db.Under row.cidrId x ∧ db.Under row'.cidrId y)) ∧
    (db.allowedPeers row.cidrId).Nodup ∧
    ∀ b row', db.peers.lookup b = some row' →
      row.isDisabled = false → row.isRedeemed = true →
      row'.isDisabled = false → row'.isRedeemed = true →
      db.Leaf row.cidrId → db.Leaf row'.cidrId →
      ¬ db.Under row.cidrId 2 → ¬ db.Under row'.cidrId 2 →
      (b ∈ db.allowedPeers row.cidrId ↔ a ∈ db.allowedPeers row'.cidrId) ∧
      (a ≠ b → row.isServer = false → row'.isServer = false →
        b ∈ db.allowedPeers row.cidrId → db.pairAllowed a b = .ok ()) := by
  have known := tree.placed a row found
  refine ⟨fun p => ?_, by unfold allowedPeers; exact keysWhere_nodup _ _, ?_⟩
  · rw [mem_allowedPeers]
    simp only [tree.sees_iff known]
  · intro b row' found' enabled redeemed enabled' redeemed' leaf leaf' outside outside'
    have known' := tree.placed b row' found'
    have seen : b ∈ db.allowedPeers row.cidrId ↔ db.Sees row.cidrId row'.cidrId := by
      rw [mem_allowedPeers]
      constructor
      · rintro ⟨_, stored, -, -, sees⟩
        cases Option.some.inj (found'.symm.trans stored)
        exact sees
      · exact fun sees => ⟨row', found', enabled', redeemed', sees⟩
    have seen' : a ∈ db.allowedPeers row'.cidrId ↔ db.Sees row'.cidrId row.cidrId := by
      rw [mem_allowedPeers]
      constructor
      · rintro ⟨_, stored, -, -, sees⟩
        cases Option.some.inj (found.symm.trans stored)
        exact sees
      · exact fun sees => ⟨row, found, enabled, redeemed, sees⟩
    have mutual_sight : db.Sees row.cidrId row'.cidrId ↔ db.Sees row'.cidrId row.cidrId :=
      ⟨tree.sees_symm known known' leaf outside', tree.sees_symm known' known leaf' outside⟩
    refine ⟨by rw [seen, seen', mutual_sight], ?_⟩
    intro apart data data' sees
    rw [seen] at sees
    exact pairAllowed_iff.mpr ⟨tree.positive a row found, tree.positive b row' found', apart, row,
      row', found, found', ⟨data, enabled, redeemed⟩, ⟨data', enabled', redeemed'⟩, sees,
      mutual_sight.mp sees⟩

section Sample

/-- The root, the infrastructure and two associated leaves, with a peer in each leaf. -/
def sampleDirectory : Database where
  peers := ([⟨1, ⟨"server", "10.0.0.1", "k1", 2, false, true, true, none⟩⟩,
    ⟨2, ⟨"a", "10.0.1.1", "k2", 3, false, true, false, none⟩⟩,
    ⟨3, ⟨"b", "10.0.2.1", "k3", 4, false, true, false, none⟩⟩] :
      List (Sigma fun _ : Nat => PeerRow)).toAList
  cidrs := ([⟨1, none⟩, ⟨2, some 1⟩, ⟨3, some 1⟩, ⟨4, some 1⟩] :
    List (Sigma fun _ : Nat => Option Nat)).toAList
  associations := ([⟨1, ⟨4, 3⟩⟩] : List (Sigma fun _ : Nat => AssociationRow)).toAList
  network := ⟨0, 1, 1, 3, false, false⟩
  bundleHistory := ∅
  bundles := ∅
  exchanges := ∅

theorem sampleDirectory_tree : sampleDirectory.Tree := by
  have rows : ∀ {κ ν : Type} [DecidableEq κ] {t : Table κ ν} {k : κ} {v : ν},
      t.lookup k = some v → k ∈ t.keys := fun found =>
    AList.mem_keys.mpr (AList.lookup_isSome.mp (by rw [found]; rfl))
  have parents : ∀ id ∈ sampleDirectory.cidrs.keys, ∀ p ∈ sampleDirectory.parent id,
      p < id ∧ sampleDirectory.cidrs.lookup p ≠ none := by decide +kernel
  have peers : ∀ p ∈ sampleDirectory.peers.keys, ∀ row ∈ sampleDirectory.peers.lookup p,
      0 < p ∧ sampleDirectory.cidrs.lookup row.cidrId ≠ none := by decide +kernel
  exact {
    known := fun id p next => (parents id (parent_key next) p next).2
    acyclic := fun id n reached => Nat.lt_irrefl id
      (climb_below (fun id p next => (parents id (parent_key next) p next).1) reached)
    placed := fun p row found => (peers p (rows found) row found).2
    positive := fun p row found => (peers p (rows found) row found).1 }

theorem allowed_peers_exact_pair : sampleDirectory.pairAllowed 2 3 = .ok () := by
  have below : ∀ id ∈ [3, 4], sampleDirectory.parent id = some 1 := by decide +kernel
  have root : sampleDirectory.parent 1 = none := by decide +kernel
  have outside : ∀ id ∈ [3, 4], ¬ sampleDirectory.Under id 2 := by
    rintro id member ⟨n, reached⟩
    match n with
    | 0 =>
      cases reached
      exact absurd member (by decide)
    | 1 =>
      rw [climb, below id member] at reached
      cases reached
    | n + 2 =>
      rw [climb, below id member, Option.bind_some, climb, root] at reached
      cases reached
  have leaf : ∀ id ∈ [3, 4], sampleDirectory.Leaf id := by
    have apart : ∀ id ∈ [3, 4], ∀ k ∈ sampleDirectory.cidrs.keys,
        sampleDirectory.parent k ≠ some id := by decide +kernel
    exact fun id member k next => apart id member k (parent_key next) next
  have exact_sight := (allowed_peers_exact sampleDirectory_tree (a := 2) rfl).2.2 3 _ rfl rfl rfl
    rfl rfl (leaf 3 (by decide)) (leaf 4 (by decide)) (outside 3 (by decide))
    (outside 4 (by decide))
  exact exact_sight.2 (by decide) rfl rfl (by decide +kernel)

end Sample

end Database

end Innernet
