import Innernet.Library.Panics
import Innernet.Server.Cidrs
import Mathlib

/-! `gather_new_peer_info` of `shared/src/prompts.rs`: the CIDR, the address and the rest of what
makes a new peer, over the tree of `shared/src/types.rs`. -/
namespace Innernet

open Fallible Panics Tables Ipnet

/-- `Cidr`: its id and its contents. -/
abbrev Cidr := Sigma fun _ : Nat => CidrContents

structure CidrTree where
  cidrs : List Cidr
  contents : Cidr

namespace CidrTree

def children (tree : CidrTree) : List CidrTree :=
  (tree.cidrs.filter fun c => c.2.parent = some tree.contents.1).map fun c => ⟨tree.cidrs, c⟩

/-- As deep as the fuel lasts. -/
def leaves : Nat → CidrTree → Option (List Cidr)
  | 0, _ => none
  | fuel + 1, tree =>
    if !(tree.cidrs.any fun c => c.2.parent = some tree.contents.1) then some [tree.contents]
    else (tree.children.mapM (leaves fuel)).map List.flatten

end CidrTree

/-- The networks of `ipnet` with the iterator over their hosts. -/
class HostRange extends Ipnet where
  hosts : IpNet → List IpAddr

/-- What `ipnet` documents of `hosts`: the addresses of the network, and for IPv4 below a prefix of
31 neither the network address nor the broadcast address. -/
class HostRange.Sound [HostRange] : Prop extends Ipnet.Sound where
  mem_hosts : ∀ net ip, ip ∈ HostRange.hosts net ↔ ip ∈ net.range ∧
    (net.addr.width = 32 → net.prefixLen < 31 → ip ≠ network net ∧ ip ≠ broadcast net)

open HostRange

/-- `AddPeerOpts`; `τ` has the times an invitation can expire after. -/
structure AddPeerOpts (τ : Type) where
  name : Option String
  ip : Option IpAddr
  autoIp : Bool
  cidr : Option String
  admin : Option Bool
  yes : Bool
  saveConfig : Option String
  inviteExpires : Option τ

/-- `NewPeerInfo`, as it is gathered. -/
structure Prompts.NewPeerInfo (τ : Type) where
  name : String
  ip : IpAddr
  cidrId : Nat
  isAdmin : Bool
  inviteExpires : τ

/-- The prompts: what they show, and what is answered, if anything is. -/
structure Terminal (τ : Type) where
  select : List Cidr → String → Except String Cidr
  inputIp : String → IpAddr → Except String IpAddr
  inputName : String → Except String String
  inputExpires : String → String → Except String τ
  inputPath : String → String → Except String String
  confirm : String → Except String Bool

variable {τ : Type}

namespace Terminal

/-- What is gathered after the address. -/
def finish (terminal : Terminal τ) (args : AddPeerOpts τ) (cidr : Cidr) (ip : IpAddr) :
    Except String (Option (Prompts.NewPeerInfo τ × String)) := do
  let name ← match args.name with
    | some name => pure name
    | none => terminal.inputName "Name"
  let isAdmin ← match args.admin with
    | some isAdmin => pure isAdmin
    | none => terminal.confirm ("Make " ++ name ++ " an admin?")
  let inviteExpires ← match args.inviteExpires with
    | some inviteExpires => pure inviteExpires
    | none => terminal.inputExpires "Invite expires after" "14d"
  let inviteSavePath ← match args.saveConfig with
    | some location => pure location
    | none => terminal.inputPath "Save peer invitation file to" (name ++ ".toml")
  let confirmed ← if args.yes then pure true else terminal.confirm ("Create peer " ++ name ++ "?")
  if confirmed then
    return some ({ name, ip, cidrId := cidr.1, isAdmin, inviteExpires }, inviteSavePath)
  else return none

def chooseCidr (terminal : Terminal τ) (args : AddPeerOpts τ) (leaves : List Cidr) :
    Except String Cidr :=
  match args.cidr with
  | some parentName =>
    match leaves.find? fun cidr => cidr.2.name = parentName with
    | some cidr => .ok cidr
    | none => .error "No eligible CIDR with that name exists."
  | none => terminal.select leaves "Eligible CIDRs for peer"

def chooseIp (terminal : Terminal τ) (args : AddPeerOpts τ) (available : IpAddr) :
    Except String IpAddr :=
  match args.ip with
  | some ip => .ok ip
  | none => if args.autoIp then .ok available else terminal.inputIp "IP" available

end Terminal

/-- The first address that no listed peer has. -/
def availableIp [HostRange] (net : IpNet) (peers : List PlacedPeer) : Option IpAddr :=
  ((hosts net).filter fun ip => net.isAssignable ip).find? fun ip =>
    !peers.any fun peer => peer.ip = ip

/-- `gather_new_peer_info` once it has the leaves. -/
def gatherFrom [HostRange] (terminal : Terminal τ) (peers : List PlacedPeer) (args : AddPeerOpts τ)
    (leaves : List Cidr) : Outcome String (Option (Prompts.NewPeerInfo τ × String)) := do
  let cidr ← lift (terminal.chooseCidr args leaves)
  -- `expect("No IPs in this CIDR are avavilable")`
  let available ← (availableIp cidr.2.cidr peers).elim (.error .panic) .ok
  let ip ← lift (terminal.chooseIp args available)
  lift (terminal.finish args cidr ip)

/-- No result is no end of the search for leaves. -/
def gatherNewPeerInfo [HostRange] (terminal : Terminal τ) (fuel : Nat) (peers : List PlacedPeer)
    (tree : CidrTree) (args : AddPeerOpts τ) :
    Option (Outcome String (Option (Prompts.NewPeerInfo τ × String))) :=
  (tree.leaves fuel).map (gatherFrom terminal peers args)

/-! ### The leaves of a tree -/

namespace CidrTree

/-- Fuel that is left over changes nothing. -/
theorem leaves_fuel {fuel more : Nat} {tree : CidrTree} {ls : List Cidr}
    (found : tree.leaves fuel = some ls) (enough : fuel ≤ more) : tree.leaves more = some ls := by
  induction fuel generalizing more tree ls with
  | zero => cases found
  | succ fuel ih =>
    obtain ⟨more, rfl⟩ := Nat.exists_eq_add_of_le' (Nat.le_of_add_left_le enough)
    unfold leaves at found ⊢
    split at found
    · rename_i bottom
      rwa [if_pos bottom]
    · rename_i inner
      rw [if_neg inner]
      rw [Option.map_eq_some_iff] at found ⊢
      obtain ⟨lss, each, same⟩ := found
      exact ⟨lss, mapM_weaken (fun t ls found => ih found (by omega)) each, same⟩

variable {r : Allocation}

/-- A CIDR below another has a longer prefix. -/
theorem prefix_lt (formed : r.Tree) {id p : Nat} {c above : CidrContents}
    (found : r.cidrs.lookup id = some c) (top : c.parent = some p)
    (parent : r.cidrs.lookup p = some above) : above.cidr.prefixLen < c.cidr.prefixLen := by
  obtain ⟨_, known, inside⟩ := formed.within id c p found top
  cases Option.some.inj (parent.symm.trans known)
  by_contra shorter
  exact inside.ne (IpNet.range_eq inside.subset (Nat.le_of_not_lt shorter))

theorem mem_list {c : Cidr} : c ∈ r.list ↔ r.cidrs.lookup c.1 = some c.2 := by
  rw [Allocation.list, List.mem_reverse, mem_entries_iff]

/-- The prefixes below a CIDR grow, so the search for its leaves ends, and it finds leaves. -/
theorem leaves_within (formed : r.Tree) (fuel : Nat) (root : Cidr) (listed : root ∈ r.list)
    (enough : 129 ≤ fuel + root.2.cidr.prefixLen) :
    ∃ ls, leaves fuel ⟨r.list, root⟩ = some ls ∧ ∀ c ∈ ls, c ∈ r.list ∧ r.Leaf c.1 := by
  induction fuel generalizing root with
  | zero =>
    have short := root.2.cidr.short
    have narrow : root.2.cidr.addr.width ≤ 128 := by
      cases root.2.cidr.addr <;> simp [IpAddr.width]
    omega
  | succ fuel ih =>
    unfold leaves
    split
    · rename_i bottom
      refine ⟨[root], rfl, ?_⟩
      intro c member
      rw [List.mem_singleton.mp member]
      refine ⟨listed, ?_⟩
      intro below attached
      obtain ⟨c, found, top⟩ := Allocation.parent_some.mp attached
      have inner : r.list.any (fun c => decide (c.2.parent = some root.1)) = true :=
        List.any_eq_true.mpr ⟨⟨below, c⟩, mem_list.mpr found, decide_eq_true top⟩
      simp [inner] at bottom
    · have each : ∀ t ∈ children ⟨r.list, root⟩, ∃ ls, leaves fuel t = some ls ∧
          ∀ c ∈ ls, c ∈ r.list ∧ r.Leaf c.1 := by
        intro t member
        simp only [children, List.mem_map, List.mem_filter, decide_eq_true_eq] at member
        obtain ⟨c, ⟨inside, top⟩, rfl⟩ := member
        have longer := prefix_lt formed (mem_list.mp inside) top (mem_list.mp listed)
        exact ih c inside (by omega)
      obtain ⟨lss, mapped, all⟩ := mapM_some each
      refine ⟨lss.flatten, by rw [mapped, Option.map_some], ?_⟩
      intro c member
      obtain ⟨ls, inside, member⟩ := List.mem_flatten.mp member
      exact all ls inside c member

/-- With fuel for the longest prefix there is one list of leaves. -/
theorem leaves_total (formed : r.Tree) {root : Cidr} (listed : root ∈ r.list) :
    ∃ ls, (∀ fuel, 129 ≤ fuel → leaves fuel ⟨r.list, root⟩ = some ls) ∧
      ∀ c ∈ ls, c ∈ r.list ∧ r.Leaf c.1 := by
  obtain ⟨ls, found, all⟩ := leaves_within formed 129 root listed (Nat.le_add_right _ _)
  exact ⟨ls, fun fuel enough => leaves_fuel found enough, all⟩

end CidrTree

/-! ### The address -/

/-- An address of the network that may be assigned and that no listed peer has. -/
def Free [Ipnet] (net : IpNet) (peers : List PlacedPeer) (ip : IpAddr) : Prop :=
  ip ∈ net.range ∧ net.isAssignable ip = true ∧ ∀ p ∈ peers, p.ip ≠ ip

namespace Allocation

/-- The directory lists every peer of the data. -/
def Listed (r : Allocation) (peers : List PlacedPeer) : Prop :=
  ∀ id p, r.peers.lookup id = some p → p ∈ peers

/-- A peer that the data take as far as its address does not matter: its name is valid, its number,
its name and its key are new, and the text of its address is that of no other address. -/
structure Admissible (r : Allocation) (contents : PlacedPeer) : Prop where
  valid : isValidName contents.row.name = true
  numbered : r.peers.lookup (r.maxPeerId + 1) = none
  name : ∀ id p, r.peers.lookup id = some p → p.row.name ≠ contents.row.name
  publicKey : ∀ id p, r.peers.lookup id = some p → p.row.publicKey ≠ contents.row.publicKey
  spelled : ∀ id p, r.peers.lookup id = some p → p.row.ip = contents.row.ip → p.ip = contents.ip

/-- `DatabasePeer::create` accepts every admissible peer at the address. -/
def Accepts [Ipnet] (r : Allocation) (cidrId : Nat) (ip : IpAddr) : Prop :=
  ∀ contents : PlacedPeer, contents.ip = ip → contents.row.cidrId = cidrId →
    r.Admissible contents → ∃ r', r.createPeer contents = .ok r'

end Allocation

section Laws

variable [HostRange] [HostRange.Sound]

/-- What may be assigned is a host. -/
theorem assignable_host {net : IpNet} {ip : IpAddr} (assignable : net.isAssignable ip = true) :
    ip ∈ hosts net := by
  rw [IpNet.isAssignable, Bool.and_eq_true, Ipnet.Sound.contains_iff] at assignable
  obtain ⟨inside, allowed⟩ := assignable
  refine (HostRange.Sound.mem_hosts net ip).mpr ⟨inside, ?_⟩
  intro family wide
  cases same : net.addr with
  | v4 bits =>
    have narrow : ¬ 31 ≤ net.prefixLen := by omega
    simpa [same, narrow] using allowed
  | v6 bits => simp [same, IpAddr.width] at family

theorem availableIp_free {net : IpNet} {peers : List PlacedPeer} {ip : IpAddr}
    (found : availableIp net peers = some ip) : Free net peers ip := by
  have member := List.mem_filter.mp (List.mem_of_find?_eq_some found)
  have unused := List.find?_some found
  have inside := member.2
  rw [IpNet.isAssignable, Bool.and_eq_true, Ipnet.Sound.contains_iff] at inside
  refine ⟨inside.1, member.2, ?_⟩
  simpa using unused

theorem availableIp_none {net : IpNet} {peers : List PlacedPeer} :
    availableIp net peers = none ↔ ¬ ∃ ip, Free net peers ip := by
  constructor
  · rintro none_left ⟨ip, inside, assignable, unused⟩
    have used := List.find?_eq_none.mp none_left ip
      (List.mem_filter.mpr ⟨assignable_host assignable, assignable⟩)
    exact used (by simpa using unused)
  · intro none_left
    cases found : availableIp net peers with
    | none => rfl
    | some ip => exact absurd ⟨ip, availableIp_free found⟩ none_left

omit [HostRange.Sound] in
/-- A free address of a known CIDR is accepted when the listed peers are those of the data. -/
theorem free_accepted {r : Allocation} {cidr : Cidr} (known : r.cidrs.lookup cidr.1 = some cidr.2)
    {peers : List PlacedPeer} (listed : r.Listed peers) {ip : IpAddr}
    (free : Free cidr.2.cidr peers ip) : r.Accepts cidr.1 ip := by
  obtain ⟨inside, assignable, unused⟩ := free
  rintro contents rfl place admissible
  have contained : contains cidr.2.cidr contents.ip = true := by
    rw [IpNet.isAssignable, Bool.and_eq_true] at assignable
    exact assignable.1
  have distinct : Tables.any (fun k p => decide (k ≠ r.maxPeerId + 1) &&
      (decide (p.row.name = contents.row.name) || decide (p.row.ip = contents.row.ip) ||
        decide (p.row.publicKey = contents.row.publicKey))) r.peers = false := by
    rw [any_eq_false]
    intro id p found
    have other_ip : p.row.ip ≠ contents.row.ip := by
      intro same
      exact unused p (listed id p found) (admissible.spelled id p found same)
    simp [admissible.name id p found, admissible.publicKey id p found, other_ip]
  simp only [Allocation.createPeer, bind_ok, require_ok, pure_ok]
  refine ⟨_, ⟨⟩, admissible.valid, cidr.2, ?_, ⟨⟩, contained, ⟨⟩, assignable, ⟨⟩,
    ⟨admissible.numbered, distinct⟩, rfl⟩
  rw [Allocation.getCidr, place, known]

/-! ### What is gathered -/

/-- The outcome for a named CIDR: no panic; with `auto_ip` a free address is taken that the server
accepts, or there is none and an error; an address that is given is taken as it is. -/
def Assigns (r : Allocation) (terminal : Terminal τ) (peers : List PlacedPeer) (args : AddPeerOpts τ)
    (cidr : Cidr) (outcome : Outcome String (Option (Prompts.NewPeerInfo τ × String))) : Prop :=
  outcome ≠ .error .panic ∧
    (∀ ip, args.ip = some ip → outcome = lift (terminal.finish args cidr ip)) ∧
    (args.ip = none → args.autoIp = true →
      (∃ ip, Free cidr.2.cidr peers ip ∧ (r.Listed peers → r.Accepts cidr.1 ip) ∧
        outcome = lift (terminal.finish args cidr ip)) ∨
      (¬ ∃ ip, Free cidr.2.cidr peers ip) ∧ ∃ e, outcome = .error (.error e))

omit [HostRange] [HostRange.Sound] in
theorem chooseCidr_named {terminal : Terminal τ} {args : AddPeerOpts τ} {name : String}
    (named : args.cidr = some name) {leaves : List Cidr} {cidr : Cidr}
    (eligible : leaves.find? (fun c => c.2.name = name) = some cidr) :
    terminal.chooseCidr args leaves = .ok cidr := by
  simp only [Terminal.chooseCidr, named, eligible]

section From

variable {terminal : Terminal τ} {peers : List PlacedPeer} {args : AddPeerOpts τ}
  {leaves : List Cidr} {cidr : Cidr}

omit [HostRange.Sound] in
/-- Without an available address the panic comes before an address is asked for. -/
theorem gatherFrom_none (chosen : terminal.chooseCidr args leaves = .ok cidr)
    (none_left : availableIp cidr.2.cidr peers = none) :
    gatherFrom terminal peers args leaves = .error .panic := by
  rw [gatherFrom, chosen, lift_bind, none_left]
  rfl

omit [HostRange.Sound] in
theorem gatherFrom_some (chosen : terminal.chooseCidr args leaves = .ok cidr) {available : IpAddr}
    (some_left : availableIp cidr.2.cidr peers = some available) :
    gatherFrom terminal peers args leaves =
      lift (terminal.chooseIp args available >>= terminal.finish args cidr) := by
  rw [gatherFrom, chosen, lift_bind, some_left]
  change (lift (terminal.chooseIp args available) >>= fun ip =>
    lift (terminal.finish args cidr ip)) = _
  cases terminal.chooseIp args available <;> rfl

end From

/-- For a named leaf of a tree of CIDRs the outcome is right exactly when the leaf has a free
address left, whether one is asked for or not. -/
theorem gather_assigns_iff {r : Allocation} (formed : r.Tree) {root : Cidr} (inside : root ∈ r.list)
    (terminal : Terminal τ) (peers : List PlacedPeer) {args : AddPeerOpts τ} {name : String}
    (named : args.cidr = some name) :
    ∃ leaves, (∀ fuel, 129 ≤ fuel → CidrTree.leaves fuel ⟨r.list, root⟩ = some leaves) ∧
      ∀ cidr, leaves.find? (fun c => c.2.name = name) = some cidr → r.Leaf cidr.1 ∧
        ∃ outcome, (∀ fuel, 129 ≤ fuel →
            gatherNewPeerInfo terminal fuel peers ⟨r.list, root⟩ args = some outcome) ∧
          (Assigns r terminal peers args cidr outcome ↔ ∃ ip, Free cidr.2.cidr peers ip) := by
  obtain ⟨leaves, total, bottom⟩ := CidrTree.leaves_total formed inside
  refine ⟨leaves, total, ?_⟩
  intro cidr eligible
  obtain ⟨listed, leaf⟩ := bottom cidr (List.mem_of_find?_eq_some eligible)
  have chosen : terminal.chooseCidr args leaves = .ok cidr := chooseCidr_named named eligible
  refine ⟨leaf, ?_⟩
  have gathered : ∀ fuel, 129 ≤ fuel → gatherNewPeerInfo terminal fuel peers ⟨r.list, root⟩ args =
      some (gatherFrom terminal peers args leaves) := by
    intro fuel enough
    rw [gatherNewPeerInfo, total fuel enough, Option.map_some]
  refine ⟨_, gathered, ?_⟩
  cases available : availableIp cidr.2.cidr peers with
  | none =>
    have none_left := availableIp_none.mp available
    rw [gatherFrom_none chosen available]
    constructor
    · rintro ⟨quiet, _⟩
      exact absurd rfl quiet
    · intro some_left
      exact absurd some_left none_left
  | some ip =>
    have free := availableIp_free available
    rw [gatherFrom_some chosen available]
    constructor
    · intro _
      exact ⟨ip, free⟩
    · intro _
      refine ⟨lift_panic, ?_, ?_⟩
      · intro given same
        rw [Terminal.chooseIp, same]
        rfl
      · intro not_given auto
        refine .inl ⟨ip, free, ?_, ?_⟩
        · intro all
          exact free_accepted (CidrTree.mem_list.mp listed) all free
        · rw [Terminal.chooseIp, not_given, auto]
          rfl

end Laws

section Sample

open Allocation

/-- The hosts of a network in order, by `Allocation.arithmetic`. -/
@[reducible] def hostArithmetic : HostRange where
  toIpnet := arithmetic
  hosts net := ((List.range (2 ^ net.free)).map fun low =>
      withBits net.addr (net.addr.bits >>> net.free <<< net.free + low)).filter fun ip =>
    arithmetic.contains net ip && decide (net.addr.width = 32 → net.prefixLen < 31 →
      ip ≠ arithmetic.network net ∧ ip ≠ arithmetic.broadcast net)

attribute [local instance] hostArithmetic

theorem withBits_bits {a ip : IpAddr} (family : ip.width = a.width) : withBits a ip.bits = ip := by
  cases a <;> cases ip <;> simp_all [withBits, IpAddr.bits, IpAddr.width]

theorem hostArithmetic_sound : HostRange.Sound where
  toSound := arithmetic_sound
  mem_hosts net ip := by
    simp only [hosts, List.mem_filter, List.mem_map, List.mem_range, Bool.and_eq_true,
      decide_eq_true_eq, arithmetic_sound.contains_iff]
    constructor
    · rintro ⟨-, inside, ends⟩
      exact ⟨inside, ends⟩
    · rintro ⟨inside, ends⟩
      obtain ⟨family, agree⟩ := inside
      refine ⟨⟨ip.bits % 2 ^ net.free, Nat.mod_lt _ (Nat.two_pow_pos _), ?_⟩,
        ⟨family, agree⟩, ends⟩
      rw [← agree, Nat.shiftLeft_eq, Nat.shiftRight_eq_div_pow, Nat.div_add_mod']
      exact withBits_bits family

/-- Prompts that are answered with the first choice, or not at all. -/
def sampleTerminal : Terminal Nat where
  select cidrs _ := cidrs.head?.elim (.error "no CIDR") .ok
  inputIp _ available := .ok available
  inputName _ := .error "not a terminal"
  inputExpires _ _ := .ok 14
  inputPath _ path := .ok path
  confirm _ := .ok true

def sampleOpts : AddPeerOpts Nat where
  name := some "alice"
  ip := none
  autoIp := true
  cidr := some "network"
  admin := some false
  yes := true
  saveConfig := none
  inviteExpires := none

/-- In the root CIDR of a new network with one peer a free address is found. -/
theorem gather_assigns_iff_rooted : ∃ outcome,
    gatherNewPeerInfo sampleTerminal 129 [placedPeer "server" 0x0a000001 1]
      ⟨sample.list, ⟨1, sampleRoot⟩⟩ sampleOpts = some outcome ∧
    Assigns sample sampleTerminal [placedPeer "server" 0x0a000001 1] sampleOpts ⟨1, sampleRoot⟩
      outcome := by
  have sound := hostArithmetic_sound
  have formed : sample.Tree := (rooted_formed rfl 0).tree
  have inside : (⟨1, sampleRoot⟩ : Cidr) ∈ sample.list := List.mem_singleton.mpr rfl
  have named : sampleOpts.cidr = some "network" := rfl
  obtain ⟨leaves, total, each⟩ := gather_assigns_iff formed inside sampleTerminal
    [placedPeer "server" 0x0a000001 1] named
  have only : leaves = [⟨1, sampleRoot⟩] := Option.some.inj ((total 129 le_rfl).symm.trans rfl)
  obtain ⟨-, outcome, gathered, right⟩ := each ⟨1, sampleRoot⟩ (by rw [only]; rfl)
  refine ⟨outcome, gathered 129 le_rfl, right.mpr ⟨.v4 0x0a000002, ?_⟩⟩
  refine ⟨⟨rfl, by decide⟩, by decide +kernel, ?_⟩
  intro p listed
  rw [List.mem_singleton.mp listed]
  decide

end Sample

end Innernet
