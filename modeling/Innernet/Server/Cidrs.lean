import Innernet.Arithmetic
import Innernet.Client
import Innernet.Library.Blocks
import Innernet.Library.Nesting
import Innernet.Server.Visibility

/-! The CIDR tree of the directory, with the ranges of `server/src/db/cidr.rs` and the checks on
addresses of `server/src/db/peer.rs`. Address arithmetic is that of the `ipnet` crate. -/
namespace Innernet

open Fallible Tables Runs Chains Blocks Nesting

namespace IpAddr

def width : IpAddr → Nat
  | v4 _ => 32
  | v6 _ => 128

def bits : IpAddr → Nat
  | v4 bits => bits.toNat
  | v6 bits => bits.toNat

theorem bits_lt (a : IpAddr) : a.bits < 2 ^ a.width := by
  cases a with
  | v4 bits => exact bits.isLt
  | v6 bits => exact bits.isLt

theorem exists_bits (a : IpAddr) {n : Nat} (bound : n < 2 ^ a.width) :
    ∃ b : IpAddr, b.width = a.width ∧ b.bits = n := by
  cases a with
  | v4 => exact ⟨v4 (BitVec.ofNat 32 n), rfl, Nat.mod_eq_of_lt bound⟩
  | v6 => exact ⟨v6 (BitVec.ofNat 128 n), rfl, Nat.mod_eq_of_lt bound⟩

end IpAddr

/-- An address, which may have bits set behind the prefix, and the length of the prefix. -/
structure IpNet where
  addr : IpAddr
  prefixLen : Nat
  short : prefixLen ≤ addr.width
  deriving DecidableEq

namespace IpNet

def free (net : IpNet) : Nat := net.addr.width - net.prefixLen

/-- The addresses of the network: those of its family with its prefix. -/
def range (net : IpNet) : Set IpAddr :=
  {ip | ip.width = net.addr.width ∧ ip.bits >>> net.free = net.addr.bits >>> net.free}

theorem mem_range {net : IpNet} {ip : IpAddr} : ip ∈ net.range ↔
    ip.width = net.addr.width ∧ ip.bits ∈ block net.addr.width net.free net.addr.bits := by
  constructor
  · rintro ⟨family, agree⟩
    exact ⟨family, family ▸ ip.bits_lt, agree⟩
  · rintro ⟨family, -, agree⟩
    exact ⟨family, agree⟩

theorem addr_mem (net : IpNet) : net.addr ∈ net.range := ⟨rfl, rfl⟩

theorem free_le (net : IpNet) : net.free ≤ net.addr.width := Nat.sub_le _ _

variable {net other : IpNet}

theorem family (inside : net.range ⊆ other.range) : net.addr.width = other.addr.width :=
  (inside net.addr_mem).1

/-- Networks with a common address are nested. -/
theorem range_subset {ip : IpAddr} (left : ip ∈ net.range) (right : ip ∈ other.range)
    (longer : other.prefixLen ≤ net.prefixLen) : net.range ⊆ other.range := by
  have same : net.addr.width = other.addr.width := left.1.symm.trans right.1
  have less : net.free ≤ other.free := by
    unfold free
    omega
  intro ip' member
  rw [mem_range] at left right member ⊢
  rw [same] at left member
  exact ⟨member.1, block_subset less left.2 right.2 member.2⟩

theorem prefixLen_le (inside : net.range ⊆ other.range) : other.prefixLen ≤ net.prefixLen := by
  have same := family inside
  have blocks : block net.addr.width net.free net.addr.bits ⊆
      block net.addr.width other.free other.addr.bits := by
    intro y member
    obtain ⟨ip, width, rfl⟩ := net.addr.exists_bits member.1
    have there := mem_range.mp (inside (mem_range.mpr ⟨width, member⟩))
    exact same ▸ there.2
  have less := free_le_of_subset net.free_le ⟨net.addr.bits_lt, rfl⟩ blocks
  have short := other.short
  unfold free at less
  omega

theorem range_ssubset (inside : net.range ⊆ other.range) (longer : other.prefixLen < net.prefixLen) :
    net.range ⊂ other.range :=
  ⟨inside, fun back => Nat.not_le_of_lt longer (prefixLen_le back)⟩

theorem range_eq (inside : net.range ⊆ other.range) (same : net.prefixLen ≤ other.prefixLen) :
    net.range = other.range :=
  inside.antisymm (range_subset (inside net.addr_mem) net.addr_mem same)

end IpNet

/-- The operations of `ipnet` on networks. -/
class Ipnet where
  network : IpNet → IpAddr
  broadcast : IpNet → IpAddr
  contains : IpNet → IpAddr → Bool
  containsNet : IpNet → IpNet → Bool

/-- What `ipnet` documents of them. -/
class Ipnet.Sound [Ipnet] : Prop where
  network_least : ∀ net, network net ∈ net.range ∧ ∀ ip ∈ net.range, (network net).bits ≤ ip.bits
  broadcast_greatest : ∀ net, broadcast net ∈ net.range ∧
    ∀ ip ∈ net.range, ip.bits ≤ (broadcast net).bits
  contains_iff : ∀ net ip, contains net ip = true ↔ ip ∈ net.range
  containsNet_iff : ∀ net other, containsNet net other = true ↔ other.range ⊆ net.range

open Ipnet

/-- `IpNetExt::is_assignable`. -/
def IpNet.isAssignable [Ipnet] (net : IpNet) (ip : IpAddr) : Bool :=
  contains net ip && match net.addr with
    | .v4 _ => decide (31 ≤ net.prefixLen) || (ip != network net && ip != broadcast net)
    | .v6 _ => decide (127 ≤ net.prefixLen) || ip != network net

/-- `CidrContents`. -/
structure CidrContents where
  name : String
  cidr : IpNet
  parent : Option Nat
  deriving DecidableEq

/-- A row of `peers` and the address its `ip` is the text of. -/
structure PlacedPeer where
  row : PeerRow
  ip : IpAddr
  deriving DecidableEq

/-- The tables the tree is kept in. -/
structure Allocation where
  cidrs : Table Nat CidrContents
  peers : Table Nat PlacedPeer
  associations : Table Nat AssociationRow
  maxPeerId : Nat
  deriving DecidableEq

/-- `Iterator::max_by_key`: of several greatest elements the last. -/
def maxByKey {α : Type} (key : α → Nat) : List α → Option α
  | [] => none
  | a :: rest =>
    match maxByKey key rest with
    | none => some a
    | some b => if key a ≤ key b then some b else some a

theorem maxByKey_mem {α : Type} {key : α → Nat} {l : List α} {a : α}
    (greatest : maxByKey key l = some a) : a ∈ l := by
  induction l with
  | nil => cases greatest
  | cons b l ih =>
    unfold maxByKey at greatest
    split at greatest
    · cases greatest
      exact List.mem_cons_self
    · rename_i c found
      split at greatest
      · cases greatest
        exact List.mem_cons_of_mem _ (ih found)
      · cases greatest
        exact List.mem_cons_self

/-- `PEER_NAME_REGEX`: letters and digits with single hyphens between them. -/
def matchesName : List Char → Bool
  | [] => false
  | [c] => alphanumeric c
  | c :: '-' :: rest => alphanumeric c && matchesName rest
  | c :: rest => alphanumeric c && matchesName rest
where
  alphanumeric (c : Char) : Bool := ('a' ≤ c && c ≤ 'z') || ('0' ≤ c && c ≤ '9')

/-- `is_valid_name`. -/
def isValidName (name : String) : Bool := decide (name.utf8ByteSize < 64) && matchesName name.toList

namespace Allocation

/-- `DatabaseCidr::list`: rows come in the order of their ids, the newest last. -/
def list (r : Allocation) : List (Sigma fun _ : Nat => CidrContents) := r.cidrs.entries.reverse

def getCidr (r : Allocation) (id : Nat) : Except ServerError CidrContents :=
  match r.cidrs.lookup id with
  | some c => .ok c
  | none => .error .noRows

section Requests

variable [Ipnet]

/-- The checks of `DatabaseCidr::create` on the place of a CIDR: its parent is the closest CIDR
around it. -/
def checkPlace (r : Allocation) (cidr : IpNet) : Option Nat → Except ServerError Unit
  | none => .ok ()
  | some parentId =>
    match maxByKey (fun e => e.2.cidr.prefixLen)
        (r.list.filter fun e => containsNet e.2.cidr cidr) with
    | none => .error .invalidQuery
    | some closest => do
      require (closest.1 = parentId) .invalidQuery
      let parent ← r.getCidr parentId
      require (contains parent.cidr (network cidr) = true ∧
        contains parent.cidr (broadcast cidr) = true) .invalidQuery

def overlaps (cidr sibling : IpNet) : Bool :=
  contains cidr (network sibling) || contains cidr (broadcast sibling) ||
    contains sibling (network cidr) || contains sibling (broadcast cidr)

/-- `DatabaseCidr::create`. -/
def createCidr (r : Allocation) (contents : CidrContents) : Except ServerError Allocation := do
  require (any (fun _ p => decide (some p.row.cidrId = contents.parent)) r.peers = false)
    .invalidQuery
  r.checkPlace contents.cidr contents.parent
  require (any (fun _ c => decide (c.parent = contents.parent) &&
    overlaps contents.cidr c.cidr) r.cidrs = false) .invalidQuery
  require (any (fun _ c => decide (c.name = contents.name) ||
    decide (c.cidr.addr = contents.cidr.addr ∧ c.cidr.prefixLen = contents.cidr.prefixLen))
      r.cidrs = false) .constraint
  return { r with cidrs := r.cidrs.insert (nextRowid r.cidrs) contents }

omit [Ipnet] in
/-- `DatabaseCidr::delete`, under the foreign keys of peers, CIDRs and associations. -/
def deleteCidr (r : Allocation) (id : Nat) : Except ServerError Allocation := do
  require (any (fun _ p => decide (p.row.cidrId = id)) r.peers = false ∧
    any (fun _ c => decide (c.parent = some id)) r.cidrs = false ∧
    any (fun _ a => decide (a.cidrId1 = id ∨ a.cidrId2 = id)) r.associations = false) .constraint
  return { r with cidrs := keep (fun k _ => decide (k ≠ id)) r.cidrs }

/-- `DatabasePeer::create`. -/
def createPeer (r : Allocation) (contents : PlacedPeer) : Except ServerError Allocation := do
  require (isValidName contents.row.name = true) .invalidQuery
  let cidr ← r.getCidr contents.row.cidrId
  require (contains cidr.cidr contents.ip = true) .invalidQuery
  require (cidr.cidr.isAssignable contents.ip = true) .invalidQuery
  let id := r.maxPeerId + 1
  let row : PeerRow := { contents.row with isServer := false }
  require (r.peers.lookup id = none ∧ any (fun k p => decide (k ≠ id) &&
    (decide (p.row.name = row.name) || decide (p.row.ip = row.ip) ||
      decide (p.row.publicKey = row.publicKey))) r.peers = false) .constraint
  return { r with peers := r.peers.insert id { contents with row }, maxPeerId := id }

end Requests

inductive Request where
  | createCidr (contents : CidrContents)
  | deleteCidr (id : Nat)
  | createPeer (contents : PlacedPeer)

def apply [Ipnet] (r : Allocation) : Request → Except ServerError Allocation
  | .createCidr contents => r.createCidr contents
  | .deleteCidr id => r.deleteCidr id
  | .createPeer contents => r.createPeer contents

/-- A request that is refused leaves nothing. -/
def next [Ipnet] (r : Allocation) (request : Request) : Option Allocation := (r.apply request).toOption

/-- An accepted request. -/
abbrev Step [Ipnet] : Allocation → Request → Allocation → Prop := Taken next

/-- The parent of a CIDR. -/
def parent (r : Allocation) (id : Nat) : Option Nat := (r.cidrs.lookup id).bind CidrContents.parent

/-- No CIDR has `id` as its parent. -/
def Leaf (r : Allocation) (id : Nat) : Prop := ∀ below, r.parent below ≠ some id

/-- The CIDRs are a tree of nested ranges, and the peers are in its leaves. -/
structure Tree (r : Allocation) : Prop where
  within : ∀ id c p, r.cidrs.lookup id = some c → c.parent = some p →
    ∃ above, r.cidrs.lookup p = some above ∧ c.cidr.range ⊂ above.cidr.range
  apart : ∀ id c id' c', r.cidrs.lookup id = some c → r.cidrs.lookup id' = some c' → id ≠ id' →
    c.parent = c'.parent → Disjoint c.cidr.range c'.cidr.range
  distinct : ∀ id c id' c', r.cidrs.lookup id = some c → r.cidrs.lookup id' = some c' → id ≠ id' →
    c.cidr.range ≠ c'.cidr.range
  single : ∃! root, ∃ c, r.cidrs.lookup root = some c ∧ c.parent = none
  acyclic : ∀ id n, climb r.parent (n + 1) id ≠ some id
  separate : ∀ id p, r.peers.lookup id = some p → r.Leaf p.row.cidrId
  placed : ∀ id p, r.peers.lookup id = some p →
    ∃ c, r.cidrs.lookup p.row.cidrId = some c ∧ p.ip ∈ c.cidr.range ∧
      ∀ leaf c', r.cidrs.lookup leaf = some c' → r.Leaf leaf → p.ip ∈ c'.cidr.range →
        leaf = p.row.cidrId

/-- What the requests keep of the tree. -/
structure Formed (r : Allocation) : Prop where
  within : ∀ id c p, r.cidrs.lookup id = some c → c.parent = some p →
    p < id ∧ ∃ above, r.cidrs.lookup p = some above ∧ c.cidr.range ⊂ above.cidr.range
  apart : ∀ id c id' c', r.cidrs.lookup id = some c → r.cidrs.lookup id' = some c' → id ≠ id' →
    c.parent = c'.parent → Disjoint c.cidr.range c'.cidr.range
  single : ∃! root, ∃ c, r.cidrs.lookup root = some c ∧ c.parent = none
  separate : ∀ id p, r.peers.lookup id = some p → r.Leaf p.row.cidrId
  placed : ∀ id p, r.peers.lookup id = some p →
    ∃ c, r.cidrs.lookup p.row.cidrId = some c ∧ p.ip ∈ c.cidr.range
  positive : ∀ id p, r.peers.lookup id = some p → 0 < id

theorem parent_some {r : Allocation} {id p : Nat} : r.parent id = some p ↔
    ∃ c, r.cidrs.lookup id = some c ∧ c.parent = some p := Option.bind_eq_some_iff

/-- The addresses of a CIDR by its id. -/
def range (r : Allocation) (id : Nat) : Set IpAddr :=
  {ip | ∃ c, r.cidrs.lookup id = some c ∧ ip ∈ c.cidr.range}

theorem range_of {r : Allocation} {id : Nat} {c : CidrContents} (found : r.cidrs.lookup id = some c) :
    r.range id = c.cidr.range := by
  ext ip
  constructor
  · rintro ⟨c', found', member⟩
    cases Option.some.inj (found.symm.trans found')
    exact member
  · exact fun member => ⟨c, found, member⟩

theorem Formed.nested {r : Allocation} (formed : r.Formed) : Nested r.parent r.range where
  within id p next := by
    obtain ⟨c, found, top⟩ := parent_some.mp next
    obtain ⟨-, above, found', inside⟩ := formed.within id c p found top
    rw [range_of found, range_of found']
    exact inside
  apart id id' level different := by
    rw [Set.disjoint_left]
    rintro ip ⟨c, found, left⟩ ⟨c', found', right⟩
    rw [parent, parent, found, found'] at level
    exact Set.disjoint_left.mp (formed.apart id c id' c' found found' different level) left right
  grounded := by
    refine Subrelation.wf ?_ Nat.lt_wfRel.wf
    intro p id next
    obtain ⟨c, found, top⟩ := parent_some.mp next
    exact (formed.within id c p found top).1

theorem Formed.tree {r : Allocation} (formed : r.Formed) : r.Tree where
  within id c p found top := (formed.within id c p found top).2
  apart := formed.apart
  distinct id c id' c' found found' different same := by
    refine different (formed.nested.range_injective ?_ ?_)
    · exact ⟨c.cidr.addr, c, found, c.cidr.addr_mem⟩
    · rw [range_of found, range_of found', same]
  single := formed.single
  acyclic := formed.nested.acyclic
  separate := formed.separate
  placed id p found := by
    obtain ⟨c, cidr, member⟩ := formed.placed id p found
    refine ⟨c, cidr, member, fun leaf c' cidr' bottom member' => ?_⟩
    exact formed.nested.leaf_unique bottom (formed.separate id p found) ⟨c', cidr', member'⟩
      ⟨c, cidr, member⟩

/-- A request that leaves the tree a tree: a CIDR is created under a parent with a shorter prefix,
the root is not deleted, and a peer is created where no CIDR is below. -/
def Orderly (r : Allocation) : Request → Prop
  | .createCidr contents => ∃ p, contents.parent = some p ∧
      ∀ above, r.cidrs.lookup p = some above → above.cidr.prefixLen < contents.cidr.prefixLen
  | .deleteCidr id => ∀ c, r.cidrs.lookup id = some c → c.parent ≠ none
  | .createPeer contents => r.Leaf contents.row.cidrId

instance (r : Allocation) (request : Request) : Decidable (r.Orderly request) :=
  match request with
  | .createCidr contents => decidable_of_iff (contents.parent.any fun p =>
      (r.cidrs.lookup p).all fun above =>
        decide (above.cidr.prefixLen < contents.cidr.prefixLen)) (by
          simp only [Orderly, Option.any_eq_true, Option.all_eq_true, decide_eq_true_eq])
  | .deleteCidr id => decidable_of_iff ((r.cidrs.lookup id).all fun c =>
      decide (c.parent ≠ none)) (by
        simp only [Orderly, Option.all_eq_true, decide_eq_true_eq])
  | .createPeer contents => decidable_of_iff (any (fun _ c =>
      decide (c.parent = some contents.row.cidrId)) r.cidrs = false) (by
        simp only [any_eq_false, decide_eq_false_iff_not, Orderly, Leaf, parent,
          ne_eq, Option.bind_eq_some_iff, not_exists, not_and])

section Laws

variable [Ipnet] [Ipnet.Sound] {r r' : Allocation}

omit [Ipnet.Sound] in
theorem checkPlace_ok {cidr : IpNet} {p : Nat} (checked : r.checkPlace cidr (some p) = .ok ()) :
    ∃ above, r.cidrs.lookup p = some above ∧ containsNet above.cidr cidr = true := by
  simp only [checkPlace] at checked
  split at checked
  · cases checked
  · rename_i closest greatest
    simp only [bind_ok, require_ok] at checked
    obtain ⟨_, rfl, -⟩ := checked
    obtain ⟨listed, around⟩ := List.mem_filter.mp (maxByKey_mem greatest)
    exact ⟨closest.2, (mem_entries_iff _ _).mp (List.mem_reverse.mp listed), around⟩

theorem disjoint_of_overlaps {net other : IpNet} (apart : overlaps net other = false) :
    Disjoint net.range other.range := by
  simp only [overlaps, Bool.or_eq_false_iff] at apart
  obtain ⟨⟨⟨network_out, -⟩, network_out'⟩, -⟩ := apart
  rw [← Bool.not_eq_true, Ipnet.Sound.contains_iff] at network_out network_out'
  rw [Set.disjoint_left]
  intro ip left right
  rcases Nat.le_total other.prefixLen net.prefixLen with longer | longer
  · exact network_out' (IpNet.range_subset left right longer (Ipnet.Sound.network_least net).1)
  · exact network_out (IpNet.range_subset right left longer (Ipnet.Sound.network_least other).1)

/-- What `DatabaseCidr::create` does when it succeeds. -/
theorem createCidr_ok {contents : CidrContents} (done : r.createCidr contents = .ok r') :
    r' = { r with cidrs := r.cidrs.insert (nextRowid r.cidrs) contents } ∧
    (∀ id p, r.peers.lookup id = some p → some p.row.cidrId ≠ contents.parent) ∧
    (∀ p, contents.parent = some p → ∃ above, r.cidrs.lookup p = some above ∧
      contents.cidr.range ⊆ above.cidr.range) ∧
    ∀ id c, r.cidrs.lookup id = some c → c.parent = contents.parent →
      Disjoint contents.cidr.range c.cidr.range := by
  simp only [createCidr, bind_ok, require_ok, pure_ok, any_eq_false, decide_eq_false_iff_not] at done
  obtain ⟨_, unattached, _, place, _, siblings, _, -, rfl⟩ := done
  refine ⟨rfl, unattached, ?_, ?_⟩
  · intro p top
    rw [top] at place
    obtain ⟨above, found, around⟩ := checkPlace_ok place
    exact ⟨above, found, (Ipnet.Sound.containsNet_iff _ _).mp around⟩
  · intro id c found level
    have apart := siblings id c found
    rw [decide_eq_true level, Bool.true_and] at apart
    exact disjoint_of_overlaps apart

omit [Ipnet] [Ipnet.Sound] in
theorem deleteCidr_ok {id : Nat} (done : r.deleteCidr id = .ok r') :
    r' = { r with cidrs := keep (fun k _ => decide (k ≠ id)) r.cidrs } ∧
      (∀ k p, r.peers.lookup k = some p → p.row.cidrId ≠ id) ∧
      ∀ k c, r.cidrs.lookup k = some c → c.parent ≠ some id := by
  simp only [deleteCidr, bind_ok, require_ok, pure_ok, any_eq_false, decide_eq_false_iff_not]
    at done
  obtain ⟨_, ⟨unattached, childless, -⟩, rfl⟩ := done
  exact ⟨rfl, unattached, childless⟩

theorem createPeer_ok {contents : PlacedPeer} (done : r.createPeer contents = .ok r') :
    ∃ c, r.cidrs.lookup contents.row.cidrId = some c ∧ contents.ip ∈ c.cidr.range ∧
      r' = { r with
        peers := r.peers.insert (r.maxPeerId + 1)
          { contents with row := { contents.row with isServer := false } }
        maxPeerId := r.maxPeerId + 1 } := by
  simp only [createPeer, bind_ok, require_ok, pure_ok] at done
  obtain ⟨_, -, c, found, _, inside, _, -, _, -, rfl⟩ := done
  unfold getCidr at found
  split at found
  · rename_i known
    cases found
    exact ⟨c, known, (Ipnet.Sound.contains_iff _ _).mp inside, rfl⟩
  · cases found

omit [Ipnet] [Ipnet.Sound] in
/-- A CIDR after an insertion: the new one or one from before. -/
theorem inserted {contents c : CidrContents} {id : Nat}
    (found : (r.cidrs.insert (nextRowid r.cidrs) contents).lookup id = some c) :
    id = nextRowid r.cidrs ∧ c = contents ∨
      id < nextRowid r.cidrs ∧ r.cidrs.lookup id = some c := by
  rw [lookup_insert_eq] at found
  split at found
  · cases found
    exact .inl ⟨‹_›, rfl⟩
  · refine .inr ⟨lt_nextRowid ?_, found⟩
    exact AList.mem_keys.mpr (AList.lookup_isSome.mp (by rw [found]; rfl))

omit [Ipnet] [Ipnet.Sound] in
theorem insert_kept (contents : CidrContents) {id : Nat} {c : CidrContents}
    (found : r.cidrs.lookup id = some c) :
    (r.cidrs.insert (nextRowid r.cidrs) contents).lookup id = some c := by
  rw [lookup_insert_eq, if_neg, found]
  rintro rfl
  rw [nextRowid_fresh] at found
  cases found

/-- One request, when it is orderly. -/
theorem Formed.step (formed : r.Formed) {request : Request} (taken : Step r request r')
    (orderly : r.Orderly request) : r'.Formed := by
  have taken := toOption_some.mp taken
  cases request with
  | createCidr contents =>
    obtain ⟨rfl, unattached, around, siblings⟩ := createCidr_ok taken
    obtain ⟨p, top, longer⟩ := orderly
    obtain ⟨above, found, inside⟩ := around p top
    have fresh : ∀ id c, r.cidrs.lookup id = some c → c.parent ≠ some (nextRowid r.cidrs) := by
      intro id c found next
      obtain ⟨-, _, known, -⟩ := formed.within id c _ found next
      rw [nextRowid_fresh] at known
      cases known
    constructor
    · intro id c q present next
      rcases inserted present with ⟨rfl, rfl⟩ | ⟨-, present⟩
      · cases top.symm.trans next
        refine ⟨lt_nextRowid ?_, above, insert_kept _ found,
          IpNet.range_ssubset inside (longer above found)⟩
        exact AList.mem_keys.mpr (AList.lookup_isSome.mp (by rw [found]; rfl))
      · obtain ⟨less, outer, known, strict⟩ := formed.within id c q present next
        exact ⟨less, outer, insert_kept _ known, strict⟩
    · intro id c id' c' present present' different level
      rcases inserted present with ⟨rfl, rfl⟩ | ⟨-, old⟩ <;>
        rcases inserted present' with ⟨rfl, rfl⟩ | ⟨-, old'⟩
      · exact absurd rfl different
      · exact siblings id' c' old' level.symm
      · exact (siblings id c old level).symm
      · exact formed.apart id c id' c' old old' different level
    · obtain ⟨root, ⟨c, present, highest⟩, only⟩ := formed.single
      refine ⟨root, ⟨c, insert_kept _ present, highest⟩, ?_⟩
      rintro id ⟨c', present', highest'⟩
      rcases inserted present' with ⟨rfl, rfl⟩ | ⟨-, present'⟩
      · cases top.symm.trans highest'
      · exact only id ⟨c', present', highest'⟩
    · intro id q peer below next
      obtain ⟨c, present, attached⟩ := parent_some.mp next
      rcases inserted present with ⟨-, rfl⟩ | ⟨-, old⟩
      · exact unattached id q peer attached.symm
      · exact formed.separate id q peer below (parent_some.mpr ⟨c, old, attached⟩)
    · intro id q peer
      obtain ⟨c, present, member⟩ := formed.placed id q peer
      exact ⟨c, insert_kept _ present, member⟩
    · exact formed.positive
  | deleteCidr gone =>
    obtain ⟨rfl, unattached, childless⟩ := deleteCidr_ok taken
    have left : ∀ {id c}, (keep (fun k _ => decide (k ≠ gone)) r.cidrs).lookup id = some c ↔
        r.cidrs.lookup id = some c ∧ id ≠ gone := by
      intro id c
      rw [lookup_keep, Option.filter_eq_some_iff, decide_eq_true_eq]
    constructor
    · intro id c p present next
      obtain ⟨less, above, known, strict⟩ := formed.within id c p (left.mp present).1 next
      refine ⟨less, above, left.mpr ⟨known, ?_⟩, strict⟩
      rintro rfl
      exact childless id c (left.mp present).1 next
    · intro id c id' c' present present'
      exact formed.apart id c id' c' (left.mp present).1 (left.mp present').1
    · obtain ⟨root, ⟨c, present, highest⟩, only⟩ := formed.single
      refine ⟨root, ⟨c, left.mpr ⟨present, ?_⟩, highest⟩, ?_⟩
      · rintro rfl
        exact orderly c present highest
      · rintro id ⟨c', present', highest'⟩
        exact only id ⟨c', (left.mp present').1, highest'⟩
    · intro id p peer below next
      obtain ⟨c, present, next⟩ := parent_some.mp next
      exact formed.separate id p peer below (parent_some.mpr ⟨c, (left.mp present).1, next⟩)
    · intro id p peer
      obtain ⟨c, present, member⟩ := formed.placed id p peer
      exact ⟨c, left.mpr ⟨present, unattached id p peer⟩, member⟩
    · exact formed.positive
  | createPeer contents =>
    obtain ⟨c, found, member, rfl⟩ := createPeer_ok taken
    have attached : ∀ {id p}, (r.peers.insert (r.maxPeerId + 1)
        { contents with row := { contents.row with isServer := false } }).lookup id = some p →
        (0 < id ∧ p.row.cidrId = contents.row.cidrId ∧ p.ip = contents.ip) ∨
          r.peers.lookup id = some p := by
      intro id p peer
      rw [lookup_insert_eq] at peer
      split at peer
      · rename_i new
        cases peer
        exact .inl ⟨new ▸ Nat.succ_pos _, rfl, rfl⟩
      · exact .inr peer
    refine ⟨formed.within, formed.apart, formed.single, ?_, ?_, ?_⟩
    · intro id p peer
      rcases attached peer with ⟨-, same, -⟩ | old
      · exact same ▸ orderly
      · exact formed.separate id p old
    · intro id p peer
      rcases attached peer with ⟨-, same, place⟩ | old
      · exact ⟨c, same ▸ found, place ▸ member⟩
      · exact formed.placed id p old
    · intro id p peer
      rcases attached peer with ⟨above, -⟩ | old
      · exact above
      · exact formed.positive id p old

/-- And when it is not, the tree is lost. -/
theorem Formed.disorderly (formed : r.Formed) {request : Request} (taken : Step r request r')
    (tree : r'.Tree) : r.Orderly request := by
  have taken := toOption_some.mp taken
  cases request with
  | createCidr contents =>
    obtain ⟨rfl, -, around, -⟩ := createCidr_ok taken
    have new : (r.cidrs.insert (nextRowid r.cidrs) contents).lookup (nextRowid r.cidrs) =
        some contents := AList.lookup_insert _
    cases top : contents.parent with
    | none =>
      -- a second root
      obtain ⟨root, ⟨c, present, highest⟩, -⟩ := formed.single
      obtain ⟨root', -, only⟩ := tree.single
      have old := only root ⟨c, insert_kept _ present, highest⟩
      have fresh := only (nextRowid r.cidrs) ⟨contents, new, top⟩
      rw [old.trans fresh.symm, nextRowid_fresh] at present
      cases present
    | some p =>
      refine ⟨p, top, fun above found => ?_⟩
      obtain ⟨_, found', inside⟩ := around p top
      cases Option.some.inj (found.symm.trans found')
      by_contra shorter
      obtain ⟨_, stays, strict⟩ := tree.within _ contents p new top
      cases Option.some.inj ((insert_kept _ found).symm.trans stays)
      exact strict.ne (IpNet.range_eq inside (Nat.le_of_not_lt shorter))
  | deleteCidr gone =>
    obtain ⟨rfl, -, -⟩ := deleteCidr_ok taken
    intro c found highest
    obtain ⟨root, ⟨c', present, highest'⟩, -⟩ := tree.single
    rw [lookup_keep, Option.filter_eq_some_iff, decide_eq_true_eq] at present
    obtain ⟨_, -, only⟩ := formed.single
    exact present.2 ((only root ⟨c', present.1, highest'⟩).trans
      (only gone ⟨c, found, highest⟩).symm)
  | createPeer contents =>
    obtain ⟨c, -, -, rfl⟩ := createPeer_ok taken
    have childless := tree.separate (r.maxPeerId + 1) _ (AList.lookup_insert r.peers)
    exact childless

end Laws

/-- The directory of a new network: its root CIDR. -/
def rooted (id : Nat) (root : CidrContents) (maxPeerId : Nat) : Allocation where
  cidrs := (∅ : Table Nat CidrContents).insert id root
  peers := ∅
  associations := ∅
  maxPeerId

theorem rooted_formed {id : Nat} {root : CidrContents} (top : root.parent = none)
    (maxPeerId : Nat) : (rooted id root maxPeerId).Formed := by
  have only : ∀ {k c}, (rooted id root maxPeerId).cidrs.lookup k = some c → k = id ∧ c = root := by
    intro k c found
    rw [rooted, lookup_insert_eq] at found
    split at found
    · cases found
      exact ⟨‹_›, rfl⟩
    · cases found
  constructor
  · intro k c p found next
    obtain ⟨rfl, rfl⟩ := only found
    cases top.symm.trans next
  · intro k c k' c' found found' different
    exact absurd ((only found).1.trans (only found').1.symm) different
  · refine ⟨id, ⟨root, AList.lookup_insert _, top⟩, ?_⟩
    rintro k ⟨c, found, -⟩
    exact (only found).1
  · intro k p peer
    cases peer
  · intro k p peer
    cases peer
  · intro k p peer
    cases peer

/-- In a run of accepted requests the CIDRs stay a tree, with the peers in its leaves, exactly when
every request is orderly. -/
theorem cidrs_form_tree [Ipnet] [Ipnet.Sound] {id : Nat} {root : CidrContents} {maxPeerId : Nat}
    (top : root.parent = none) {ms : List (Move Allocation Request)} {t : Allocation}
    (run : Run Step (rooted id root maxPeerId) ms t) :
    (∀ m ∈ ms, m.after.Tree) ↔ ∀ m ∈ ms, m.before.Orderly m.label := by
  refine run.all_iff (P := Formed) (rooted_formed top maxPeerId) ?_ ?_
  · intro a request b formed taken orderly
    have next := formed.step taken orderly
    exact ⟨next, next.tree⟩
  · exact fun a request b formed taken tree => formed.disorderly taken tree

/-- The request as an operation on the database. -/
def Request.operation : Request → Operation
  | createCidr contents => .createCidr contents.parent
  | deleteCidr id => .deleteCidr id
  | createPeer contents => .createPeer contents.row

/-- The tables as the rest of the server reads them, without the ranges. -/
structure Shows (r : Allocation) (db : Database) : Prop where
  cidrs : ∀ id, db.cidrs.lookup id = (r.cidrs.lookup id).map CidrContents.parent
  peers : ∀ id, db.peers.lookup id = (r.peers.lookup id).map PlacedPeer.row
  associations : db.associations = r.associations
  numbered : db.network.maxPeerId = r.maxPeerId

namespace Shows

variable {r r' : Allocation} {db : Database}

theorem parent (shows : r.Shows db) : db.parent = r.parent := by
  funext id
  rw [Database.parent, Allocation.parent, shows.cidrs]
  cases r.cidrs.lookup id <;> rfl

theorem peer (shows : r.Shows db) {id : Nat} {row : PeerRow}
    (found : db.peers.lookup id = some row) : ∃ p, r.peers.lookup id = some p ∧ p.row = row := by
  rw [shows.peers, Option.map_eq_some_iff] at found
  exact found

theorem cidr (shows : r.Shows db) {id : Nat} {p : Option Nat}
    (found : db.cidrs.lookup id = some p) : ∃ c, r.cidrs.lookup id = some c ∧ c.parent = p := by
  rw [shows.cidrs, Option.map_eq_some_iff] at found
  exact found

/-- The tree of ranges is a tree for those who read the parents. -/
theorem tree (shows : r.Shows db) (formed : r.Formed) : db.Tree where
  known id p top := by
    rw [shows.parent] at top
    obtain ⟨c, found, top⟩ := parent_some.mp top
    obtain ⟨-, above, known, -⟩ := formed.within id c p found top
    rw [shows.cidrs, known]
    exact Option.some_ne_none _
  acyclic id n := by
    rw [shows.parent]
    exact formed.nested.acyclic id n
  placed id row found := by
    obtain ⟨p, peer, rfl⟩ := shows.peer found
    obtain ⟨c, known, -⟩ := formed.placed id p peer
    rw [shows.cidrs, known]
    exact Option.some_ne_none _
  positive id row found := by
    obtain ⟨p, peer, -⟩ := shows.peer found
    exact formed.positive id p peer

theorem nextRowid (shows : r.Shows db) : nextRowid db.cidrs = nextRowid r.cidrs :=
  nextRowid_congr fun k => by rw [shows.cidrs, Option.isSome_map]

/-- What the registry accepts the database does, to the same effect. -/
theorem step [Native] [Ipnet] [Ipnet.Sound] (shows : r.Shows db) {request : Request}
    (taken : Step r request r') : r'.Shows (request.operation.apply db) := by
  have taken := toOption_some.mp taken
  cases request with
  | createCidr contents =>
    obtain ⟨rfl, unattached, around, -⟩ := createCidr_ok taken
    have accepted : db.createCidr contents.parent = .ok { db.touch 1 with
        cidrs := db.cidrs.insert (Innernet.nextRowid db.cidrs) contents.parent } := by
      simp only [Database.createCidr, bind_ok, require_ok, pure_ok, any_eq_false,
        decide_eq_false_iff_not]
      refine ⟨⟨⟩, ?_, ⟨⟩, ?_, trivial⟩
      · intro id row found
        obtain ⟨p, peer, rfl⟩ := shows.peer found
        exact unattached id p peer
      · intro p top
        obtain ⟨above, found, -⟩ := around p top
        rw [shows.cidrs, found]
        exact Option.some_ne_none _
    have applied : (Request.createCidr contents).operation.apply db = _ :=
      congrArg db.commit accepted
    rw [applied]
    refine ⟨fun id => ?_, shows.peers, shows.associations, shows.numbered⟩
    change (db.cidrs.insert _ _).lookup id = _
    rw [shows.nextRowid, lookup_insert_eq, lookup_insert_eq, shows.cidrs]
    split <;> rfl
  | deleteCidr gone =>
    have done := taken
    obtain ⟨rfl, unattached, childless⟩ := deleteCidr_ok taken
    simp only [apply, deleteCidr, bind_ok, require_ok] at done
    obtain ⟨_, ⟨-, -, unassociated⟩, -⟩ := done
    have accepted : db.deleteCidr gone = .ok (if (db.cidrs.lookup gone).isSome then
        { db.touch 1 with cidrs := keep (fun k _ => decide (k ≠ gone)) db.cidrs } else db) := by
      simp only [Database.deleteCidr, bind_ok, require_ok, pure_ok, any_eq_false,
        decide_eq_false_iff_not]
      refine ⟨⟨⟩, ⟨?_, ?_, ?_⟩, trivial⟩
      · intro id row found
        obtain ⟨p, peer, rfl⟩ := shows.peer found
        exact unattached id p peer
      · intro id p found
        obtain ⟨c, known, rfl⟩ := shows.cidr found
        exact childless id c known
      · rw [shows.associations]
        simpa only [any_eq_false, decide_eq_false_iff_not] using unassociated
    have applied : (Request.deleteCidr gone).operation.apply db = _ :=
      congrArg db.commit accepted
    rw [applied]
    change Allocation.Shows _ (if _ then _ else _)
    have left : ∀ id, (keep (fun k _ => decide (k ≠ gone)) db.cidrs).lookup id =
        ((keep (fun k _ => decide (k ≠ gone)) r.cidrs).lookup id).map CidrContents.parent := by
      intro id
      rw [lookup_keep, lookup_keep, shows.cidrs]
      cases r.cidrs.lookup id with
      | none => rfl
      | some c =>
        by_cases same : id = gone <;> simp [Option.filter, same]
    split
    · exact ⟨left, shows.peers, shows.associations, shows.numbered⟩
    · rename_i absent
      refine ⟨fun id => ?_, shows.peers, shows.associations, shows.numbered⟩
      rw [← left, lookup_keep]
      cases found : db.cidrs.lookup id with
      | none => rfl
      | some p =>
        have other : id ≠ gone := by
          rintro rfl
          exact absent (by rw [found]; rfl)
        simp [Option.filter, other]
  | createPeer contents =>
    have done := taken
    obtain ⟨c, found, -, rfl⟩ := createPeer_ok taken
    simp only [apply, createPeer, bind_ok, require_ok] at done
    obtain ⟨_, -, _, -, _, -, _, -, _, ⟨absent, distinct⟩, -⟩ := done
    have accepted : db.createPeer contents.row = .ok
        (let created := (db.setPeer (db.network.maxPeerId + 1)
          { contents.row with isServer := false }).touch 1
        { created with network := { created.network with
          maxPeerId := db.network.maxPeerId + 1 } }) := by
      simp only [Database.createPeer, bind_ok, require_ok, pure_ok]
      refine ⟨⟨⟩, ?_, ⟨⟩, ⟨?_, ?_⟩, trivial⟩
      · rw [shows.cidrs, found]
        exact Option.some_ne_none _
      · rw [shows.numbered, shows.peers, absent]
        rfl
      · unfold Database.distinct
        rw [any_eq_false] at distinct ⊢
        intro id row stored
        obtain ⟨p, peer, rfl⟩ := shows.peer stored
        rw [shows.numbered]
        exact distinct id p peer
    have applied : (Request.createPeer contents).operation.apply db = _ :=
      congrArg db.commit accepted
    rw [applied]
    refine ⟨shows.cidrs, fun id => ?_, shows.associations, congrArg (· + 1) shows.numbered⟩
    change (db.peers.insert _ _).lookup id = _
    rw [shows.numbered, lookup_insert_eq, lookup_insert_eq, shows.peers]
    split <;> rfl

/-- After orderly requests the server reads a tree: what the visibility of peers rests on. -/
theorem tables_follow [Native] [Ipnet] [Ipnet.Sound] (shows : r.Shows db) (formed : r.Formed)
    {ms : List (Move Allocation Request)} (run : Run Step r ms r')
    (orderly : ∀ m ∈ ms, m.before.Orderly m.label) :
    r'.Formed ∧ r'.Shows ((ms.map fun m => m.label.operation).foldl (fun db op => op.apply db) db) ∧
      ((ms.map fun m => m.label.operation).foldl (fun db op => op.apply db) db).Tree := by
  have kept : r'.Formed ∧
      r'.Shows ((ms.map fun m => m.label.operation).foldl (fun db op => op.apply db) db) := by
    induction run with
    | start => exact ⟨formed, shows⟩
    | @move past a b request run taken ih =>
      obtain ⟨formed, shown⟩ := ih fun m member => orderly m (by simp [member])
      refine ⟨formed.step taken (orderly ⟨a, request, b⟩ (by simp)), ?_⟩
      rw [List.map_append, List.foldl_append]
      exact shown.step taken
  exact ⟨kept.1, kept.2, kept.2.tree kept.1⟩

end Shows

section Sample

/-- The address of the same family with the bits `n`. -/
def withBits : IpAddr → Nat → IpAddr
  | .v4 _, n => .v4 (BitVec.ofNat 32 n)
  | .v6 _, n => .v6 (BitVec.ofNat 128 n)

@[reducible] def arithmetic : Ipnet where
  network net := withBits net.addr (net.addr.bits >>> net.free <<< net.free)
  broadcast net :=
    withBits net.addr (net.addr.bits >>> net.free <<< net.free + (2 ^ net.free - 1))
  contains net ip := decide (ip.width = net.addr.width ∧
    ip.bits >>> net.free = net.addr.bits >>> net.free)
  containsNet net other := decide (net.prefixLen ≤ other.prefixLen ∧
    other.addr.width = net.addr.width ∧
    other.addr.bits >>> net.free = net.addr.bits >>> net.free)

attribute [local instance] arithmetic

theorem arithmetic_sound : Ipnet.Sound := by
  have made : ∀ (a : IpAddr) {n : Nat}, n < 2 ^ a.width →
      (withBits a n).width = a.width ∧ (withBits a n).bits = n := by
    intro a n bound
    cases a with
    | v4 => exact ⟨rfl, Nat.mod_eq_of_lt bound⟩
    | v6 => exact ⟨rfl, Nat.mod_eq_of_lt bound⟩
  have ends : ∀ (net : IpNet) {low : Nat}, low < 2 ^ net.free →
      let a := withBits net.addr (net.addr.bits >>> net.free <<< net.free + low)
      a ∈ net.range ∧ a.bits = net.addr.bits >>> net.free <<< net.free + low := by
    intro net low less
    have top := Nat.two_pow_pos net.free
    have bound : net.addr.bits >>> net.free <<< net.free + low < 2 ^ net.addr.width := by
      have whole := net.addr.bits_lt
      have power : 2 ^ net.addr.width = 2 ^ net.free * 2 ^ (net.addr.width - net.free) := by
        rw [← pow_add, Nat.add_sub_cancel' net.free_le]
      rw [Nat.shiftLeft_eq, Nat.shiftRight_eq_div_pow]
      rw [power] at whole ⊢
      have quotient := Nat.div_lt_of_lt_mul whole
      calc net.addr.bits / 2 ^ net.free * 2 ^ net.free + low
          < (net.addr.bits / 2 ^ net.free + 1) * 2 ^ net.free := by
            rw [Nat.succ_mul]
            exact Nat.add_lt_add_left less _
        _ ≤ 2 ^ (net.addr.width - net.free) * 2 ^ net.free := Nat.mul_le_mul_right _ quotient
        _ = _ := Nat.mul_comm _ _
    obtain ⟨width, bits⟩ := made net.addr bound
    refine ⟨⟨width, ?_⟩, bits⟩
    rw [bits, Nat.shiftLeft_eq, Nat.shiftRight_eq_div_pow, Nat.shiftRight_eq_div_pow,
      Nat.add_comm, Nat.add_mul_div_right _ _ top, Nat.div_eq_of_lt less, Nat.zero_add]
  have split : ∀ (net : IpNet), ∀ ip ∈ net.range,
      ip.bits = net.addr.bits >>> net.free <<< net.free + ip.bits % 2 ^ net.free := by
    rintro net ip ⟨-, agree⟩
    rw [← agree, Nat.shiftLeft_eq, Nat.shiftRight_eq_div_pow]
    exact (Nat.div_add_mod' _ _).symm
  refine ⟨fun net => ?_, fun net => ?_, fun net ip => ?_, fun net other => ?_⟩
  · obtain ⟨inside, bits⟩ := ends net (Nat.two_pow_pos net.free)
    refine ⟨inside, fun ip member => ?_⟩
    have whole := split net ip member
    calc (network net).bits = net.addr.bits >>> net.free <<< net.free := bits
      _ ≤ ip.bits := by omega
  · obtain ⟨inside, bits⟩ := ends net (Nat.sub_lt (Nat.two_pow_pos net.free) Nat.one_pos)
    refine ⟨inside, fun ip member => ?_⟩
    have whole := split net ip member
    have less := Nat.mod_lt ip.bits (Nat.two_pow_pos net.free)
    have same : (broadcast net).bits = _ := bits
    omega
  · exact decide_eq_true_iff
  · refine decide_eq_true_iff.trans ⟨?_, ?_⟩
    · rintro ⟨longer, width, agree⟩
      exact IpNet.range_subset other.addr_mem ⟨width, agree⟩ longer
    · intro inside
      exact ⟨IpNet.prefixLen_le inside, inside other.addr_mem⟩

def net (bits : BitVec 32) (prefixLen : Nat) (short : prefixLen ≤ 32) : IpNet :=
  ⟨.v4 bits, prefixLen, short⟩

def sampleRoot : CidrContents := ⟨"network", net 0x0a000000 8 (by decide), none⟩

def sample : Allocation := rooted 1 sampleRoot 0

def below (name : String) (bits : BitVec 32) (parent : Option Nat) : CidrContents :=
  ⟨name, net bits 16 (by decide), parent⟩

def placedPeer (name : String) (bits : BitVec 32) (cidrId : Nat) : PlacedPeer where
  row := ⟨name, name, name, cidrId, false, false, false, none⟩
  ip := .v4 bits

/-- The root and a second CIDR of which a given condition holds. -/
def pair (t : Allocation) (p : CidrContents → CidrContents → Bool) : Bool :=
  (t.cidrs.lookup 1).any fun c => (t.cidrs.lookup 2).any (p c)

theorem pair_some {t : Allocation} {p : CidrContents → CidrContents → Bool}
    (found : t.pair p = true) : ∃ c c', t.cidrs.lookup 1 = some c ∧ t.cidrs.lookup 2 = some c' ∧
      p c c' = true := by
  obtain ⟨c, root, rest⟩ := (Option.any_eq_true _ _).mp found
  obtain ⟨c', second, holds⟩ := (Option.any_eq_true _ _).mp rest
  exact ⟨c, c', root, second, holds⟩

/-- Three ways to lose the tree: a root of its own beside the first, a CIDR with the range of its
parent spelled with other host bits, and a peer in a CIDR that has another below. -/
theorem tree_lost :
    (∃ ms t, Run Step sample ms t ∧
      ms.map Move.label = [.createCidr (below "second" 0xc0a80000 none)] ∧ ¬ t.Tree) ∧
    (∃ ms t, Run Step sample ms t ∧
      ms.map Move.label =
        [.createCidr ⟨"again", net 0x0a010203 8 (by decide), some 1⟩] ∧ ¬ t.Tree) ∧
    ∃ ms t, Run Step sample ms t ∧
      ms.map Move.label = [.createCidr (below "site" 0x0a010000 (some 1)),
        .createPeer (placedPeer "alice" 0x0a020001 1)] ∧ ¬ t.Tree := by
  have lost : ∀ {ls : List Request} {g : Allocation → Bool},
      ((execute next sample ls).any fun r => g r.2) = true →
      (∀ t, g t = true → ¬ t.Tree) →
      ∃ ms t, Run Step sample ms t ∧ ms.map Move.label = ls ∧ ¬ t.Tree := by
    intro ls g checked bad
    obtain ⟨ms, t, run, labels, holds⟩ := execute_reaches checked
    exact ⟨ms, t, run, labels, bad t holds⟩
  refine ⟨?_, ?_, ?_⟩
  · refine lost (g := fun t => t.pair fun c c' => c.parent.isNone && c'.parent.isNone)
      (by decide +kernel) fun t found tree => ?_
    obtain ⟨c, c', root, second, tops⟩ := pair_some found
    rw [Bool.and_eq_true, Option.isNone_iff_eq_none, Option.isNone_iff_eq_none] at tops
    have same := tree.single.unique ⟨c, root, tops.1⟩ ⟨c', second, tops.2⟩
    exact absurd same (by decide)
  · refine lost (g := fun t => t.pair fun c c' =>
      decide (c'.parent = some 1 ∧ c'.cidr.prefixLen ≤ c.cidr.prefixLen)) (by decide +kernel)
      fun t found tree => ?_
    obtain ⟨c, c', root, second, holds⟩ := pair_some found
    obtain ⟨attached, same⟩ := of_decide_eq_true holds
    obtain ⟨_, known, strict⟩ := tree.within 2 c' 1 second attached
    cases Option.some.inj (root.symm.trans known)
    exact strict.ne (IpNet.range_eq strict.subset same)
  · refine lost (g := fun t => (t.pair fun _ c' => decide (c'.parent = some 1)) &&
      (t.peers.lookup 1).any fun p => decide (p.row.cidrId = 1)) (by decide +kernel)
      fun t found tree => ?_
    obtain ⟨below, there⟩ := Bool.and_eq_true_iff.mp found
    obtain ⟨c, c', -, second, attached⟩ := pair_some below
    obtain ⟨p, peer, place⟩ := (Option.any_eq_true _ _).mp there
    have leaf := of_decide_eq_true place ▸ tree.separate 1 p peer
    exact leaf 2 (parent_some.mpr ⟨c', second, of_decide_eq_true attached⟩)

/-- Two CIDRs below the root, a peer in one and the other deleted again. -/
theorem cidrs_form_tree_grown : ∃ ms t, Run Step sample ms t ∧
    (t.peers.lookup 1).any (fun p => decide (p.row.cidrId = 2)) = true ∧
      ∀ m ∈ ms, m.after.Tree := by
  have checked : ((execute next sample [.createCidr (below "site" 0x0a010000 (some 1)),
      .createCidr (below "other" 0x0a020000 (some 1)),
      .createPeer (placedPeer "alice" 0x0a010001 2), .deleteCidr 3]).any fun r =>
        (r.1.all fun m => decide (m.before.Orderly m.label)) &&
          (r.2.peers.lookup 1).any fun p => decide (p.row.cidrId = 2)) = true := by decide +kernel
  obtain ⟨⟨ms, t⟩, executed, holds⟩ := (Option.any_eq_true _ _).mp checked
  rw [Bool.and_eq_true, List.all_eq_true] at holds
  have run := execute_run executed
  have sound := arithmetic_sound
  exact ⟨ms, t, run, holds.2, (cidrs_form_tree rfl run).mpr fun m member =>
    of_decide_eq_true (holds.1 m member)⟩

/-- What the server reads of a new network. -/
def tables : Database := { Arithmetic.site with
  peers := ∅
  cidrs := (∅ : Table Nat (Option Nat)).insert 1 none
  associations := sample.associations
  network := { Arithmetic.site.network with maxPeerId := 0 } }

theorem sample_shows : sample.Shows tables where
  cidrs id := by
    simp only [tables, sample, rooted, lookup_insert_eq]
    split <;> rfl
  peers _ := rfl
  associations := rfl
  numbered := rfl

/-- The same requests, followed by the tables. -/
theorem Shows.tables_follow_grown : ∃ (t : Allocation) (db : Database), t.Shows db ∧ db.Tree ∧
    (t.peers.lookup 1).any (fun p => decide (p.row.cidrId = 2)) = true := by
  have checked : ((execute next sample [.createCidr (below "site" 0x0a010000 (some 1)),
      .createPeer (placedPeer "alice" 0x0a010001 2)]).any fun r =>
        (r.1.all fun m => decide (m.before.Orderly m.label)) &&
          (r.2.peers.lookup 1).any fun p => decide (p.row.cidrId = 2)) = true := by decide +kernel
  obtain ⟨⟨ms, t⟩, executed, holds⟩ := (Option.any_eq_true _ _).mp checked
  rw [Bool.and_eq_true, List.all_eq_true] at holds
  have sound := arithmetic_sound
  obtain ⟨-, shown, tree⟩ := @Shows.tables_follow sample t tables Arithmetic.native _ sound sample_shows
    (rooted_formed rfl 0) ms (execute_run executed) fun m member => of_decide_eq_true (holds.1 m member)
  exact ⟨t, _, shown, tree, holds.2⟩

end Sample

end Allocation

end Innernet
