import Innernet.Convergence
import Mathlib.Data.Countable.Basic
import Mathlib.Data.List.TakeWhile
import Mathlib.Logic.Equiv.List

/-! The data store of `client-core/src/data_store.rs`, which remembers the key of every address of
the network, and the place `fetch` of `interface.rs` asks it. The end of `fetch` after the data
store is not modelled. -/
namespace Innernet.Pinning

open Runs

/-- `Peer`, whole. -/
structure StoredPeer extends ListedPeer where
  name : String
  cidrId : Int
  isAdmin : Bool
  isRedeemed : Bool
  inviteExpires : Option Nat
  deriving DecidableEq

structure Cidr where
  id : Int
  name : String
  cidr : AllowedIp
  parent : Option Int
  deriving DecidableEq

/-- `Contents::V1`. -/
structure Contents where
  peers : List StoredPeer
  cidrs : List Cidr
  deriving DecidableEq

/-- `to_string_pretty`, the texts that are UTF-8, and `from_str`. -/
structure Format where
  pretty : Contents → List UInt8
  legible : List UInt8 → Bool
  parse : List UInt8 → Option Contents

/-- What is written is read back, and nothing is read from a part of it. -/
structure Format.Faithful (f : Format) : Prop where
  legible : ∀ c, f.legible (f.pretty c) = true
  whole : ∀ c, f.parse (f.pretty c) = some c
  part : ∀ c n, n < (f.pretty c).length → f.parse ((f.pretty c).take n) = none

section Handle

variable (f : Format)

def read (text : List UInt8) : Option Contents :=
  if f.legible text then some ((f.parse text).getD ⟨[], []⟩) else none

/-- `open_with_path`; with a `fault` it fails once the file is there. -/
def openWithPath (file : Option (List UInt8)) (create fault : Bool) :
    Option Contents × Option (List UInt8) :=
  let file := if create then some (file.getD []) else file
  (if fault then none else file.bind (read f), file)

/-- The entry of the address: the first one. -/
def find (peers : List StoredPeer) (ip : IpAddr) : Option StoredPeer :=
  peers.find? fun p => p.ip = ip

/-- `*existing_peer = new_peer.clone()`. -/
def overwrite (new : StoredPeer) : List StoredPeer → List StoredPeer
  | [] => []
  | p :: rest => if p.ip = new.ip then new :: rest else p :: overwrite new rest

def pinningError : String := "PINNING ERROR: New peer has same IP but different public key."

/-- The first loop of `update_peers`. -/
def pin : List StoredPeer → List StoredPeer → Except String Unit × List StoredPeer
  | peers, [] => (.ok (), peers)
  | peers, new :: rest =>
    match find peers new.ip with
    | some existing =>
      if existing.publicKey ≠ new.publicKey then (.error pinningError, peers)
      else pin (overwrite new peers) rest
    | none => pin (peers ++ [new]) rest

/-- The second loop of `update_peers`. -/
def disable (new peers : List StoredPeer) : List StoredPeer :=
  peers.map fun p =>
    if new.any fun n => n.publicKey = p.publicKey then p
    else { p with toListedPeer := { p.toListedPeer with isDisabled := true } }

def updatePeers (c : Contents) (new : List StoredPeer) : Except String Unit × Contents :=
  match pin c.peers new with
  | (.error e, peers) => (.error e, { c with peers })
  | (.ok (), peers) => (.ok (), { c with peers := disable new peers })

/-- How a write comes out. One that is `cut` ends with an error or, without one, with a crash:
before the file is emptied, or with so many bytes of the text in it. -/
inductive Fate where
  | whole
  | cut (written : Option Nat) (error : Option String)
  deriving DecidableEq

/-- No result is a crash. -/
def write (c : Contents) (file : List UInt8) : Fate → Option (Except String Unit) × List UInt8
  | .whole => (some (.ok ()), f.pretty c)
  | .cut none error => (error.map .error, file)
  | .cut (some n) error => (error.map .error, (f.pretty c).take n)

structure Updated where
  result : Option (Except String Unit)
  contents : Contents
  file : List UInt8

def updatePeersAndSetCidrs (c : Contents) (file : List UInt8) (new : List StoredPeer)
    (cidrs : List Cidr) (fate : Fate) : Updated :=
  match updatePeers c new with
  | (.error e, contents) => { result := some (.error e), contents, file }
  | (.ok (), contents) =>
    let contents := { contents with cidrs }
    let (result, file) := write f contents file fate
    { result, contents, file }

end Handle

/-- The key the address is bound to. -/
def binding (peers : List StoredPeer) (ip : IpAddr) : Option String :=
  (find peers ip).map fun p => p.publicKey

def pins (peers : List StoredPeer) : List (IpAddr × String) :=
  peers.filterMap fun p => (binding peers p.ip).map fun key => (p.ip, key)

/-- The file, the stores open on it, and the bindings that calls have stored and reported stored. -/
structure World where
  file : Option (List UInt8)
  handles : Nat → Option Contents
  pinned : List (IpAddr × String)

def World.start (file : Option (List UInt8)) : World where
  file
  handles := fun _ => none
  pinned := []

inductive Request where
  | opens (handle : Nat) (create fault : Bool)
  | update (handle : Nat) (new : List StoredPeer) (cidrs : List Cidr) (fate : Fate)
  | close (handle : Nat)

section Calls

variable (f : Format)

/-- A process that crashes takes its handle with it. -/
def World.next (w : World) : Request → Option World
  | .opens handle create fault =>
    let (contents, file) := openWithPath f w.file create fault
    some { w with file, handles := Function.update w.handles handle contents }
  | .update handle new cidrs fate =>
    match w.handles handle, w.file with
    | some c, some file =>
      let u := updatePeersAndSetCidrs f c file new cidrs fate
      some {
        file := some u.file
        handles := Function.update w.handles handle (u.result.map fun _ => u.contents)
        pinned := match u.result with
          | some (.ok ()) => pins u.contents.peers ++ w.pinned
          | _ => w.pinned }
    | _, _ => none
  | .close handle => some { w with handles := Function.update w.handles handle none }

/-- Whatever an open finds binds every address that was ever pinned. -/
def World.Bound (w : World) : Prop :=
  ∀ create contents, (openWithPath f w.file create false).1 = some contents →
    ∀ pair ∈ w.pinned, binding contents.peers pair.1 = some pair.2

end Calls

/-! ### The scan -/

/-- Every peer of the directory has the key its address is bound to, by the store or else by the
directory's own first peer there. -/
def Agrees (peers new : List StoredPeer) : Prop :=
  ∀ n ∈ new, binding (peers ++ new) n.ip = some n.publicKey

instance (peers new : List StoredPeer) : Decidable (Agrees peers new) :=
  inferInstanceAs (Decidable (∀ n ∈ new, _))

/-- The directory up to its first peer with another key. -/
def leading (peers new : List StoredPeer) : List StoredPeer :=
  new.takeWhile fun n => binding (peers ++ new) n.ip = some n.publicKey

/-- The entry of the address replaced, or a new one. -/
def place : List StoredPeer → StoredPeer → List StoredPeer
  | [], new => [new]
  | p :: rest, new => if p.ip = new.ip then new :: rest else p :: place rest new

theorem overwrite_eq {peers : List StoredPeer} {new e : StoredPeer}
    (found : find peers new.ip = some e) : overwrite new peers = place peers new := by
  induction peers with
  | nil => cases found
  | cons p rest ih =>
    rw [find, List.find?_cons] at found
    unfold overwrite place
    split
    · rfl
    · rename_i other
      rw [decide_eq_false other] at found
      rw [ih found]

theorem push_eq {peers : List StoredPeer} {new : StoredPeer} (missing : find peers new.ip = none) :
    peers ++ [new] = place peers new := by
  induction peers with
  | nil => rfl
  | cons p rest ih =>
    have other := List.find?_eq_none.mp missing p List.mem_cons_self
    rw [find, List.find?_cons, Bool.eq_false_iff.mpr other] at missing
    rw [place, if_neg fun same => other (decide_eq_true same), List.cons_append, ih missing]

theorem find_cons (p : StoredPeer) (rest : List StoredPeer) (ip : IpAddr) :
    find (p :: rest) ip = if p.ip = ip then some p else find rest ip := by
  unfold find
  rw [List.find?_cons]
  by_cases same : p.ip = ip
  · rw [decide_eq_true same, if_pos same]
  · rw [decide_eq_false same, if_neg same]

theorem find_append (peers more : List StoredPeer) (ip : IpAddr) :
    find (peers ++ more) ip = (find peers ip).or (find more ip) := List.find?_append

theorem find_ip {peers : List StoredPeer} {ip : IpAddr} {e : StoredPeer}
    (found : find peers ip = some e) : e ∈ peers ∧ e.ip = ip := by
  have chosen := List.find?_some found
  exact ⟨List.mem_of_find?_eq_some found, of_decide_eq_true chosen⟩

theorem find_place (peers : List StoredPeer) (new : StoredPeer) (ip : IpAddr) :
    find (place peers new) ip = if new.ip = ip then some new else find peers ip := by
  induction peers with
  | nil => rw [place, find_cons]
  | cons p rest ih =>
    rw [place]
    split
    · rename_i same
      rw [find_cons, find_cons, same]
      split <;> rfl
    · rename_i other
      rw [find_cons, find_cons, ih]
      by_cases here : p.ip = ip
      · rw [if_pos here, if_neg fun same => other (here.trans same.symm), if_pos here]
      · rw [if_neg here, if_neg here]

theorem binding_append (peers more : List StoredPeer) (ip : IpAddr) :
    binding (peers ++ more) ip = (binding peers ip).or (binding more ip) := by
  rw [binding, find_append, Option.map_or]
  rfl

theorem binding_place {peers rest : List StoredPeer} {new : StoredPeer}
    (agrees : binding (peers ++ new :: rest) new.ip = some new.publicKey) (ip : IpAddr) :
    binding (place peers new ++ rest) ip = binding (peers ++ new :: rest) ip := by
  rw [binding_append, binding, find_place]
  split
  · rename_i same
    rw [← same, agrees]
    rfl
  · rename_i other
    rw [binding_append peers, binding, binding, binding, find_cons, if_neg other]

/-- The scan stores the directory up to its first peer with another key, and fails if there is
one. -/
theorem pin_eq (peers new : List StoredPeer) :
    pin peers new =
      (if Agrees peers new then .ok () else .error pinningError,
        (leading peers new).foldl place peers) := by
  induction new generalizing peers with
  | nil => rfl
  | cons n rest ih =>
    unfold pin
    have later (agrees : binding (peers ++ n :: rest) n.ip = some n.publicKey) :
        pin (place peers n) rest =
          (if Agrees peers (n :: rest) then .ok () else .error pinningError,
            (leading peers (n :: rest)).foldl place peers) := by
      have same := binding_place agrees
      rw [ih, leading, leading, List.takeWhile_cons, decide_eq_true agrees]
      simp only [Agrees, List.forall_mem_cons, agrees, true_and, same, if_true, List.foldl_cons]
    cases found : find peers n.ip with
    | none =>
      have agrees : binding (peers ++ n :: rest) n.ip = some n.publicKey := by
        rw [binding, find_append, found, Option.none_or, find_cons, if_pos rfl]
        rfl
      rw [push_eq found]
      exact later agrees
    | some e =>
      have bound : binding (peers ++ n :: rest) n.ip = some e.publicKey := by
        rw [binding, find_append, found]
        rfl
      change (if e.publicKey ≠ n.publicKey then _ else _) = _
      split
      · rename_i other
        have never : ¬ binding (peers ++ n :: rest) n.ip = some n.publicKey := by
          rw [bound, Option.some.injEq]
          exact other
        have clash : ¬ Agrees peers (n :: rest) := fun all => never (all n List.mem_cons_self)
        rw [if_neg clash, leading, List.takeWhile_cons, decide_eq_false never]
        rfl
      · rename_i same
        rw [not_not] at same
        rw [overwrite_eq found]
        exact later (bound.trans (congrArg some same))

theorem leading_of {peers new : List StoredPeer} (agrees : Agrees peers new) :
    leading peers new = new :=
  List.takeWhile_eq_self_iff.mpr fun n member => decide_eq_true (agrees n member)

theorem binding_placed {peers new : List StoredPeer} (agrees : Agrees peers new) (ip : IpAddr) :
    binding (new.foldl place peers) ip = binding (peers ++ new) ip := by
  induction new generalizing peers with
  | nil => rw [List.append_nil, List.foldl_nil]
  | cons n rest ih =>
    have same := binding_place (agrees n List.mem_cons_self)
    have later : Agrees (place peers n) rest := by
      intro m member
      rw [same]
      exact agrees m (List.mem_cons_of_mem _ member)
    rw [List.foldl_cons, ih later, same]

theorem binding_disable (new peers : List StoredPeer) (ip : IpAddr) :
    binding (disable new peers) ip = binding peers ip := by
  unfold binding disable
  induction peers with
  | nil => rfl
  | cons p rest ih =>
    rw [List.map_cons, find_cons, find_cons]
    by_cases same : p.ip = ip
    · rw [if_pos same, if_pos (by split <;> exact same)]
      split <;> rfl
    · rw [if_neg same, if_neg (by split <;> exact same), ih]

/-- The last peer of the directory at an address is the one kept. -/
theorem find_placed (peers pre : List StoredPeer) (ip : IpAddr) :
    find (pre.foldl place peers) ip = (find pre.reverse ip).or (find peers ip) := by
  induction pre generalizing peers with
  | nil => rfl
  | cons p ps ih =>
    rw [List.foldl_cons, ih, find_place, List.reverse_cons, find_append, Option.or_assoc, find_cons]
    split <;> rfl

theorem placed_cons (e : StoredPeer) (es pre : List StoredPeer) :
    pre.foldl place (e :: es) = (find pre.reverse e.ip).getD e ::
      (pre.filter fun p => p.ip ≠ e.ip).foldl place es := by
  induction pre generalizing e es with
  | nil => rfl
  | cons p ps ih =>
    rw [List.foldl_cons, List.reverse_cons, find_append, find_cons, place]
    by_cases same : e.ip = p.ip
    · have here : p.ip = e.ip := same.symm
      rw [if_pos same, ih, if_pos here, List.filter_cons, decide_eq_false (not_not.mpr here), same]
      cases find ps.reverse p.ip <;> rfl
    · have apart : p.ip ≠ e.ip := Ne.symm same
      rw [if_neg same, ih, if_neg apart, List.filter_cons, decide_eq_true apart]
      change _ = _ :: (List.foldl place es (p :: _))
      cases find ps.reverse e.ip <;> rfl

/-- Storing the peers changes nothing: at every address the last of them is the one stored. -/
def Still (peers pre : List StoredPeer) : Prop :=
  ∀ p ∈ pre, find pre.reverse p.ip = find peers p.ip

theorem find_some {peers : List StoredPeer} {p : StoredPeer} (member : p ∈ peers) :
    ∃ e, find peers p.ip = some e := by
  cases found : find peers p.ip with
  | some e => exact ⟨e, rfl⟩
  | none => exact absurd (decide_eq_true rfl) (List.find?_eq_none.mp found p member)

theorem find_filter {peers : List StoredPeer} {ip other : IpAddr} (apart : ip ≠ other) :
    find (peers.filter fun p => p.ip ≠ other) ip = find peers ip := by
  induction peers with
  | nil => rfl
  | cons p rest ih =>
    rw [List.filter_cons]
    split
    · rw [find_cons, find_cons, ih]
    · rename_i dropped
      have there : p.ip = other := by simpa using dropped
      rw [find_cons, if_neg fun same => apart (same.symm.trans there), ih]

theorem placed_iff (peers pre : List StoredPeer) :
    pre.foldl place peers = peers ↔ Still peers pre := by
  constructor
  · intro unmoved p member
    obtain ⟨e, last⟩ := find_some (List.mem_reverse.mpr member)
    have kept := find_placed peers pre p.ip
    rw [unmoved, last, Option.some_or] at kept
    rw [last, kept]
  · intro still
    induction peers generalizing pre with
    | nil =>
      cases pre with
      | nil => rfl
      | cons p ps =>
        obtain ⟨e, last⟩ := find_some (List.mem_reverse.mpr (List.mem_cons_self (a := p) (l := ps)))
        have here := still p List.mem_cons_self
        rw [last] at here
        cases here
    | cons e es ih =>
      rw [placed_cons]
      have head : (find pre.reverse e.ip).getD e = e := by
        cases last : find pre.reverse e.ip with
        | none => rfl
        | some p =>
          obtain ⟨member, here⟩ := find_ip last
          have same := still p (List.mem_reverse.mp member)
          rw [here, last, find_cons, if_pos rfl] at same
          exact Option.some.inj same
      have tail : Still es (pre.filter fun p => p.ip ≠ e.ip) := by
        intro p member
        obtain ⟨listed, apart⟩ := List.mem_filter.mp member
        have other : p.ip ≠ e.ip := of_decide_eq_true apart
        have same := still p listed
        rw [find_cons, if_neg other.symm] at same
        rw [← List.filter_reverse, find_filter other, same]
      rw [head, ih _ tail]

/-- Nothing is disabled that was not. -/
def Settled (peers new : List StoredPeer) : Prop :=
  ∀ e ∈ peers, e.isDisabled = true ∨ ∃ n ∈ new, n.publicKey = e.publicKey

theorem disable_iff (new peers : List StoredPeer) :
    disable new peers = peers ↔ Settled peers new := by
  have each (e : StoredPeer) : (if new.any fun n => n.publicKey = e.publicKey then e
      else { e with toListedPeer := { e.toListedPeer with isDisabled := true } }) = e ↔
      e.isDisabled = true ∨ ∃ n ∈ new, n.publicKey = e.publicKey := by
    split
    · rename_i listed
      simp only [List.any_eq_true, decide_eq_true_eq] at listed
      exact iff_of_true rfl (.inr listed)
    · rename_i missing
      simp only [List.any_eq_true, decide_eq_true_eq] at missing
      rw [or_iff_left missing]
      constructor
      · intro same
        exact (congrArg (fun p : StoredPeer => p.isDisabled) same).symm
      · intro already
        rw [← already]
  rw [disable]
  nth_rewrite 2 [← List.map_id peers]
  rw [List.map_inj_left]
  exact forall₂_congr fun e _ => each e

/-- The peers stored are listed, so disabling does not undo a change of theirs. -/
theorem placed_of_disable {peers new : List StoredPeer} (pre : List StoredPeer) (listed : pre ⊆ new)
    (unmoved : disable new (pre.foldl place peers) = peers) : pre.foldl place peers = peers := by
  induction peers generalizing pre with
  | nil => exact List.map_eq_nil_iff.mp unmoved
  | cons e es ih =>
    rw [placed_cons, disable, List.map_cons, List.cons.injEq] at unmoved
    obtain ⟨head, tail⟩ := unmoved
    have rest := ih _ (fun p member => listed (List.mem_of_mem_filter member)) tail
    rw [placed_cons, rest]
    cases last : find pre.reverse e.ip with
    | none => rfl
    | some p =>
      have member := listed (List.mem_reverse.mp (find_ip last).1)
      have present : (new.any fun n => n.publicKey = p.publicKey) = true :=
        List.any_eq_true.mpr ⟨p, member, decide_eq_true rfl⟩
      rw [last, Option.getD_some, if_pos present] at head
      rw [Option.getD_some, head]

/-! ### The stored bindings -/

/-- The contents a directory that agrees leaves. -/
def Contents.updated (c : Contents) (new : List StoredPeer) (cidrs : List Cidr) : Contents where
  peers := disable new (new.foldl place c.peers)
  cidrs

theorem updated_iff (c : Contents) (new : List StoredPeer) (cidrs : List Cidr) :
    c.updated new cidrs = c ↔ Still c.peers new ∧ Settled c.peers new ∧ cidrs = c.cidrs := by
  rw [Contents.updated, Contents.mk.injEq, ← and_assoc]
  refine and_congr_left fun _ => ?_
  constructor
  · intro unmoved
    have placed := placed_of_disable new (List.Subset.refl _) unmoved
    rw [placed] at unmoved
    exact ⟨(placed_iff _ _).mp placed, (disable_iff _ _).mp unmoved⟩
  · rintro ⟨still, settled⟩
    rw [(placed_iff _ _).mpr still, (disable_iff _ _).mpr settled]

section Calls

variable (f : Format) (c : Contents) (file : List UInt8) (new : List StoredPeer) (cidrs : List Cidr)
  (fate : Fate)

theorem update_agrees (agrees : Agrees c.peers new) :
    updatePeersAndSetCidrs f c file new cidrs fate = {
      result := (write f (c.updated new cidrs) file fate).1
      contents := c.updated new cidrs
      file := (write f (c.updated new cidrs) file fate).2 } := by
  rw [updatePeersAndSetCidrs, updatePeers, pin_eq, if_pos agrees, leading_of agrees]
  rfl

theorem update_clashes (clash : ¬ Agrees c.peers new) :
    updatePeersAndSetCidrs f c file new cidrs fate = {
      result := some (.error pinningError)
      contents := { c with peers := (leading c.peers new).foldl place c.peers }
      file } := by
  rw [updatePeersAndSetCidrs, updatePeers, pin_eq, if_neg clash]

theorem binding_updated {c : Contents} {new : List StoredPeer} (agrees : Agrees c.peers new)
    (cidrs : List Cidr) (ip : IpAddr) :
    binding (c.updated new cidrs).peers ip = binding (c.peers ++ new) ip := by
  rw [Contents.updated, binding_disable, binding_placed agrees]

/-- A call that fails leaves things as they were: the peers it stored before it failed were stored
already, and so was whatever it put into the file. -/
def Undisturbed : Prop :=
  if Agrees c.peers new then
    (Still c.peers new ∧ Settled c.peers new ∧ cidrs = c.cidrs) ∧
      match fate with
      | .cut (some n) _ => (f.pretty c).take n = file
      | _ => True
  else Still c.peers (leading c.peers new)

theorem failed_iff {e : String}
    (failed : (updatePeersAndSetCidrs f c file new cidrs fate).result = some (.error e)) :
    ((updatePeersAndSetCidrs f c file new cidrs fate).contents = c ∧
        (updatePeersAndSetCidrs f c file new cidrs fate).file = file) ↔
      Undisturbed f c file new cidrs fate := by
  unfold Undisturbed
  by_cases agrees : Agrees c.peers new
  · rw [update_agrees f c file new cidrs fate agrees] at failed ⊢
    rw [if_pos agrees, ← updated_iff]
    refine and_congr_right fun same => ?_
    have same : c.updated new cidrs = c := same
    change (write f (c.updated new cidrs) file fate).1 = _ at failed
    change (write f (c.updated new cidrs) file fate).2 = file ↔ _
    rw [same] at failed ⊢
    cases fate with
    | whole => cases failed
    | cut written error =>
      cases written with
      | none => exact iff_of_true rfl trivial
      | some n => rfl
  · rw [update_clashes f c file new cidrs fate agrees, if_neg agrees, ← placed_iff]
    constructor
    · rintro ⟨same, -⟩
      exact congrArg Contents.peers same
    · intro same
      exact ⟨by rw [same], rfl⟩

end Calls

/-! ### Runs -/

/-- The peers bind every address that was pinned as it was. -/
def Covers (peers : List StoredPeer) (pinned : List (IpAddr × String)) : Prop :=
  ∀ pair ∈ pinned, binding peers pair.1 = some pair.2

section Runs

variable (f : Format)

/-- A request that loses no pin: a full write starts from contents that still have them, and a
write cut short after the file was emptied leaves nothing that can be read, or there was no pin. -/
def Safe (w : World) : Request → Prop
  | .update handle new cidrs fate =>
    ∀ c, w.handles handle = some c → Agrees c.peers new →
      match fate with
      | .whole => Covers (c.peers ++ new) w.pinned
      | .cut none _ => True
      | .cut (some n) _ =>
        if n < (f.pretty (c.updated new cidrs)).length then
          w.pinned = [] ∨ f.legible ((f.pretty (c.updated new cidrs)).take n) = false
        else Covers (c.peers ++ new) w.pinned
  | _ => True

variable {f}

theorem mem_pins {peers : List StoredPeer} {pair : IpAddr × String} (member : pair ∈ pins peers) :
    binding peers pair.1 = some pair.2 := by
  simp only [pins, List.mem_filterMap, Option.map_eq_some_iff] at member
  obtain ⟨p, -, key, bound, rfl⟩ := member
  exact bound

/-- What any open finds is what reading the file gives. -/
theorem bound_iff {w : World} : w.Bound f ↔
    ∀ c, read f (w.file.getD []) = some c → Covers c.peers w.pinned := by
  unfold World.Bound
  constructor
  · intro bound c found
    exact bound true c found
  · intro bound create c found
    cases create with
    | true => exact bound c found
    | false =>
      rw [openWithPath, if_neg Bool.false_ne_true, if_neg Bool.false_ne_true,
        Option.bind_eq_some_iff] at found
      obtain ⟨text, there, found⟩ := found
      rw [there] at bound
      exact bound c found

theorem read_pretty (faithful : f.Faithful) (c : Contents) : read f (f.pretty c) = some c := by
  rw [read, if_pos (faithful.legible c), faithful.whole]
  rfl

theorem read_part (faithful : f.Faithful) (c : Contents) {n : Nat} (cut : n < (f.pretty c).length) :
    read f ((f.pretty c).take n) =
      if f.legible ((f.pretty c).take n) then some ⟨[], []⟩ else none := by
  rw [read, faithful.part c n cut]
  rfl

theorem opens_file (file : Option (List UInt8)) (create fault : Bool) :
    (openWithPath f file create fault).2.getD [] = file.getD [] := by
  cases create <;> cases file <;> rfl

variable {w w' : World}

theorem covers_nil {pinned : List (IpAddr × String)} : Covers [] pinned ↔ pinned = [] := by
  constructor
  · intro none_
    rw [List.eq_nil_iff_forall_not_mem]
    intro pair member
    cases none_ pair member
  · rintro rfl
    exact fun _ member => (nomatch member)

theorem covers_updated {c : Contents} {new : List StoredPeer} (agrees : Agrees c.peers new)
    (cidrs : List Cidr) (pinned : List (IpAddr × String)) :
    Covers (c.updated new cidrs).peers pinned ↔ Covers (c.peers ++ new) pinned := by
  unfold Covers
  simp only [binding_updated agrees]

/-- A call: what is made of the world by what `updatePeersAndSetCidrs` makes of its handle. -/
theorem next_update {handle : Nat} {new : List StoredPeer} {cidrs : List Cidr} {fate : Fate}
    (taken : w.next f (.update handle new cidrs fate) = some w') :
    ∃ c file, w.handles handle = some c ∧ w.file = some file ∧
      ∃ u, u = updatePeersAndSetCidrs f c file new cidrs fate ∧ w'.file = some u.file ∧
        w'.pinned = match u.result with
          | some (.ok ()) => pins u.contents.peers ++ w.pinned
          | _ => w.pinned := by
  simp only [World.next] at taken
  split at taken
  · rename_i c file held there
    cases Option.some.inj taken
    exact ⟨c, file, held, there, _, rfl, rfl, rfl⟩
  · cases taken

/-- After the call every pin is there exactly when the call was safe. -/
theorem update_bound (faithful : f.Faithful) {handle : Nat} {new : List StoredPeer}
    {cidrs : List Cidr} {fate : Fate} (bound : w.Bound f)
    (taken : w.next f (.update handle new cidrs fate) = some w') :
    w'.Bound f ↔ Safe f w (.update handle new cidrs fate) := by
  obtain ⟨c, file, held, there, u, called, file', pinned'⟩ := next_update taken
  rw [bound_iff] at bound ⊢
  rw [there, Option.getD_some] at bound
  rw [file', pinned', Option.getD_some]
  have one (P : Contents → Prop) : (∀ c', w.handles handle = some c' → P c') ↔ P c := by
    simp [held]
  rw [Safe, one fun c => Agrees c.peers new → _]
  by_cases agrees : Agrees c.peers new
  · rw [update_agrees f c file new cidrs fate agrees] at called
    rw [called, forall_prop_of_true agrees]
    have full (pinned : List (IpAddr × String)) :
        (∀ c', read f (f.pretty (c.updated new cidrs)) = some c' → Covers c'.peers pinned) ↔
          Covers (c.peers ++ new) pinned := by
      rw [read_pretty faithful, ← covers_updated agrees cidrs]
      simp
    cases fate with
    | whole =>
      change (∀ c', read f (f.pretty (c.updated new cidrs)) = some c' →
        Covers c'.peers (pins (c.updated new cidrs).peers ++ w.pinned)) ↔ _
      rw [full, Covers, List.forall_mem_append, and_iff_right]
      · rfl
      · intro pair member
        rw [← binding_updated agrees cidrs]
        exact mem_pins member
    | cut written error =>
      have same : (match (write f (c.updated new cidrs) file (.cut written error)).1 with
          | some (.ok ()) => pins (c.updated new cidrs).peers ++ w.pinned
          | _ => w.pinned) = w.pinned := by
        cases written <;> cases error <;> rfl
      change (∀ c', read f (write f (c.updated new cidrs) file (.cut written error)).2 = some c' →
        Covers c'.peers (match (write f (c.updated new cidrs) file (.cut written error)).1 with
          | some (.ok ()) => pins (c.updated new cidrs).peers ++ w.pinned
          | _ => w.pinned)) ↔ _
      rw [same]
      cases written with
      | none => exact iff_of_true bound trivial
      | some n =>
        change (∀ c', read f ((f.pretty (c.updated new cidrs)).take n) = some c' → _) ↔ ite _ _ _
        split
        · rename_i short
          rw [read_part faithful _ short]
          split
          · rename_i legible
            simp only [Option.some.injEq, forall_eq', covers_nil, legible, Bool.true_eq_false,
              or_false]
          · rename_i illegible
            simp only [Bool.not_eq_true] at illegible
            exact iff_of_true (fun _ never => nomatch never) (.inr illegible)
        · rename_i long
          rw [List.take_of_length_le (Nat.le_of_not_lt long), full]
  · rw [update_clashes f c file new cidrs fate agrees] at called
    rw [called]
    exact iff_of_true bound fun all => absurd all agrees

/-- The pins last through a run exactly when each of its requests is safe. -/
theorem bound_all (faithful : f.Faithful) {file : Option (List UInt8)}
    {ms : List (Move World Request)} {w : World} (run : Run (Taken (World.next f)) (.start file) ms w) :
    (∀ m ∈ ms, m.after.Bound f) ↔ ∀ m ∈ ms, Safe f m.before m.label := by
  have step : ∀ a l b, a.Bound f → Taken (World.next f) a l b → (b.Bound f ↔ Safe f a l) := by
    intro a l b bound taken
    cases l with
    | opens handle create fault =>
      cases Option.some.inj taken
      rw [bound_iff] at bound ⊢
      change (∀ c, read f ((openWithPath f a.file create fault).2.getD []) = some c → _) ↔ _
      rw [opens_file]
      exact iff_of_true bound trivial
    | update handle new cidrs fate => exact update_bound faithful bound taken
    | close handle =>
      cases Option.some.inj taken
      exact iff_of_true bound trivial
  have initial : (World.start file).Bound f := fun _ _ _ _ member => nomatch member
  refine run.all_iff (G := fun m => Safe f m.before m.label) initial ?_ ?_
  · intro a l b bound taken safe
    have after := (step a l b bound taken).mpr safe
    exact ⟨after, after⟩
  · intro a l b bound taken after
    exact (step a l b bound taken).mp after

end Runs

/-! ### Where `fetch` asks -/

/-- What `fetch` does to the machine: an update of the interface, the peers it writes to the hosts
file, and the kernel peers that get the preshared key of an exchange. -/
inductive Effect where
  | device (builders : List PeerConfigBuilder)
  | hosts (peers : List StoredPeer)
  | exchange (publicKey : Binary 32)
  deriving DecidableEq

/-- A peer gets to the kernel or to the hosts file; removals bring none. -/
def Effect.Carries : Effect → Prop
  | .device builders => ∃ b ∈ builders, b.removeMe = false
  | .hosts peers => peers ≠ []
  | .exchange _ => True

/-- One `fetch`: the directory it has, the interface it finds, and how the parts of it that can fail
come out. `activation` is everything about exchanges that comes before the interface is compared
with the directory, `exchanges` what comes after. -/
structure Cycle where
  directory : List StoredPeer
  cidrs : List Cidr
  peerEndpointOverrides : List (IpAddr × SocketAddr)
  device : Device
  interfaceKey : Option (Binary 32)
  now : Nat
  interfaceUp : Bool
  noWriteHosts : Bool
  serverKey : Option (Binary 32)
  managementPsk : Option (Binary 32)
  activation : Except String Unit
  applied : Except String Unit
  hosts : Except String Unit
  exchanges : List Effect × Except String Unit
  fate : Fate

inductive Ending where
  | returned (result : Except String Unit)
  | panicked
  | crashed

structure Outcome where
  effects : List Effect
  ending : Ending
  contents : Contents
  file : List UInt8

namespace Cycle

def override (peers : List StoredPeer) (entry : IpAddr × SocketAddr) : List StoredPeer :=
  match peers with
  | [] => []
  | p :: rest =>
    if p.ip = entry.1 then
      { p with toListedPeer := { p.toListedPeer with endpoint := some entry.2 } } :: rest
    else p :: override rest entry

variable (y : Cycle)

def peers : List StoredPeer := y.peerEndpointOverrides.foldl override y.directory

/-- The server's own entry keeps its management key. -/
def secure (update : PeerConfigBuilder) : PeerConfigBuilder :=
  match y.managementPsk with
  | some psk =>
    if y.serverKey = some update.publicKey then { update with presharedKey := some psk } else update
  | none => update

/-- No result is a panic. -/
def updates : Option (List PeerConfigBuilder) :=
  (y.device.compare y.interfaceKey y.now (y.peers.map StoredPeer.toListedPeer)).map
    (·.map y.secure)

def touches (updates : List PeerConfigBuilder) : Bool := updates ≠ [] ∨ y.interfaceUp = false

def bring (updates : List PeerConfigBuilder) : List Effect × Except String Unit :=
  if y.touches updates then
    match y.applied with
    | .error e => ([.device updates], .error e)
    | .ok () =>
      if y.noWriteHosts then ([.device updates], .ok ())
      else ([.device updates, .hosts y.peers], y.hosts)
  else ([], .ok ())

/-- `fetch` up to its data store update. -/
def fetch (f : Format) (c : Contents) (file : List UInt8) : Outcome :=
  match y.activation with
  | .error e => { effects := [], ending := .returned (.error e), contents := c, file }
  | .ok () =>
    match y.updates with
    | none => { effects := [], ending := .panicked, contents := c, file }
    | some updates =>
      match y.bring updates with
      | (effects, .error e) => { effects, ending := .returned (.error e), contents := c, file }
      | (effects, .ok ()) =>
        match y.exchanges with
        | (more, .error e) =>
          { effects := effects ++ more, ending := .returned (.error e), contents := c, file }
        | (more, .ok ()) =>
          let u := updatePeersAndSetCidrs f c file y.peers y.cidrs y.fate
          { effects := effects ++ more
            ending := match u.result with
              | some result => .returned result
              | none => .crashed
            contents := u.contents
            file := u.file }

/-- No peer of the directory gets anywhere: the interface needs nothing but removals, the hosts file
is left alone or not come to, and neither are the exchanges or they install nothing. -/
def Calm : Prop :=
  y.activation = .ok () → ∀ updates, y.updates = some updates →
    (∀ b ∈ updates, b.removeMe = true) ∧
      (y.touches updates = true → y.applied = .ok () → y.noWriteHosts = true) ∧
      ((y.touches updates = true → y.applied = .ok ()) → ∀ e ∈ y.exchanges.1, ¬ e.Carries)

theorem override_pairs (peers : List StoredPeer) (entry : IpAddr × SocketAddr) :
    (override peers entry).map (fun p => (p.ip, p.publicKey)) =
      peers.map fun p => (p.ip, p.publicKey) := by
  induction peers with
  | nil => rfl
  | cons p rest ih =>
    unfold override
    split
    · rfl
    · rw [List.map_cons, ih, List.map_cons]

/-- An override moves no key. -/
theorem peers_pairs : y.peers.map (fun p => (p.ip, p.publicKey)) =
    y.directory.map fun p => (p.ip, p.publicKey) := by
  unfold peers
  generalize y.directory = directory
  induction y.peerEndpointOverrides generalizing directory with
  | nil => rfl
  | cons entry rest ih => rw [List.foldl_cons, ih, override_pairs]

theorem clashes {c : Contents} {n : StoredPeer} {key : String} (member : n ∈ y.directory)
    (bound : binding c.peers n.ip = some key) (other : key ≠ n.publicKey) :
    ¬ Agrees c.peers y.peers := by
  have pair : (n.ip, n.publicKey) ∈ y.peers.map fun p => (p.ip, p.publicKey) := by
    rw [peers_pairs]
    exact List.mem_map.mpr ⟨n, member, rfl⟩
  obtain ⟨m, listed, same⟩ := List.mem_map.mp pair
  rw [Prod.mk.injEq] at same
  intro agrees
  have found := agrees m listed
  rw [binding_append, same.1, bound, Option.some_or, same.2, Option.some.injEq] at found
  exact other found

theorem bring_calm (updates : List PeerConfigBuilder) (listed : y.peers ≠ []) :
    (∀ e ∈ (y.bring updates).1, ¬ e.Carries) ↔
      (∀ b ∈ updates, b.removeMe = true) ∧
        (y.touches updates = true → y.applied = .ok () → y.noWriteHosts = true) := by
  unfold bring
  split
  · rename_i touched
    have removals : ¬ (Effect.device updates).Carries ↔ ∀ b ∈ updates, b.removeMe = true := by
      simp [Effect.Carries]
    have written : (Effect.hosts y.peers).Carries := listed
    cases y.applied with
    | error e => simp [removals]
    | ok _ => cases y.noWriteHosts <;> simp [touched, removals, written]
  · rename_i untouched
    have none_ : updates = [] := by
      simp only [touches, decide_eq_true_eq, not_or, not_not] at untouched
      exact untouched.1
    have empty : ∀ b ∈ updates, b.removeMe = true := fun b member => by
      rw [none_] at member
      cases member
    exact iff_of_true (fun _ member => nomatch member)
      ⟨empty, fun touched => absurd touched untouched⟩

theorem bring_ok {updates : List PeerConfigBuilder} (calm : y.touches updates = true →
    y.applied = .ok () → y.noWriteHosts = true) :
    (y.bring updates).2 = .ok () ↔ (y.touches updates = true → y.applied = .ok ()) := by
  unfold bring
  split
  · rename_i touched
    rw [forall_prop_of_true touched]
    cases applied : y.applied with
    | error e => simp
    | ok _ => simp [calm touched applied]
  · rename_i untouched
    exact iff_of_true rfl fun touched => absurd touched untouched

/-- A directory that disagrees with the store is always refused; when nothing of it went anywhere
before that. -/
theorem fetch_clash (f : Format) {c : Contents} (file : List UInt8) {n : StoredPeer} {key : String}
    (member : n ∈ y.directory) (bound : binding c.peers n.ip = some key)
    (other : key ≠ n.publicKey) :
    ((∃ e, (y.fetch f c file).ending = .returned (.error e)) ∨
        (y.fetch f c file).ending = .panicked) ∧
      ((∀ e ∈ (y.fetch f c file).effects, ¬ e.Carries) ↔ y.Calm) := by
  have clash := y.clashes member bound other
  have listed : y.peers ≠ [] := by
    intro empty
    have pairs := y.peers_pairs
    rw [empty] at pairs
    rw [List.map_eq_nil_iff.mp pairs.symm] at member
    cases member
  unfold fetch Calm
  cases y.activation with
  | error e => exact ⟨.inl ⟨e, rfl⟩, by simp⟩
  | ok _ =>
    rw [forall_prop_of_true rfl]
    cases y.updates with
    | none => exact ⟨.inr rfl, by simp⟩
    | some updates =>
      have calm := y.bring_calm updates listed
      have goes : (y.touches updates = true → y.applied = .ok () → y.noWriteHosts = true) →
          ((y.bring updates).2 = .ok () ↔ (y.touches updates = true → y.applied = .ok ())) :=
        y.bring_ok
      simp only [Option.some.injEq, forall_eq']
      rw [← and_assoc, ← calm]
      generalize y.bring updates = brought at calm goes
      obtain ⟨effects, went⟩ := brought
      cases went with
      | error e =>
        refine ⟨.inl ⟨e, rfl⟩, ?_⟩
        rw [iff_self_and]
        intro quiet never
        have on := (goes (calm.mp quiet).2).mpr never
        cases on
      | ok _ =>
        have on (quiet : ∀ e ∈ effects, ¬ e.Carries) :
            y.touches updates = true → y.applied = .ok () :=
          (goes (calm.mp quiet).2).mp rfl
        have both : (∀ e ∈ effects ++ y.exchanges.1, ¬ e.Carries) ↔
            (∀ e ∈ effects, ¬ e.Carries) ∧ ((y.touches updates = true → y.applied = .ok ()) →
              ∀ e ∈ y.exchanges.1, ¬ e.Carries) := by
          rw [List.forall_mem_append]
          exact and_congr_right fun quiet => (imp_iff_right (on quiet)).symm
        change (_ ∨ _) ∧ ((∀ e ∈ _, _) ↔ ((∀ e ∈ effects, _) ∧ _))
        rw [← both]
        cases y.exchanges with
        | mk more ended =>
          cases ended with
          | error e => exact ⟨.inl ⟨e, rfl⟩, Iff.rfl⟩
          | ok _ =>
            refine ⟨.inl ⟨pinningError, ?_⟩, Iff.rfl⟩
            change (match (updatePeersAndSetCidrs f c file y.peers y.cidrs y.fate).result with
              | some result => Ending.returned result
              | none => .crashed) = _
            rw [update_clashes f c file y.peers y.cidrs y.fate clash]

end Cycle

/-- Pins last through a run exactly when its requests are safe; a call that fails leaves things as
they were exactly when what it did first changed nothing; and a directory that disagrees with the
store is refused, before any of it went anywhere exactly when the cycle was calm. -/
theorem pins_hold_iff (f : Format) (faithful : f.Faithful) :
    (∀ file ms w, Run (Taken (World.next f)) (.start file) ms w →
      ((∀ m ∈ ms, m.after.Bound f) ↔ ∀ m ∈ ms, Safe f m.before m.label)) ∧
    (∀ c file new cidrs fate e,
      (updatePeersAndSetCidrs f c file new cidrs fate).result = some (.error e) →
      (((updatePeersAndSetCidrs f c file new cidrs fate).contents = c ∧
        (updatePeersAndSetCidrs f c file new cidrs fate).file = file) ↔
        Undisturbed f c file new cidrs fate)) ∧
    ∀ (y : Cycle) c file n key, n ∈ y.directory → binding c.peers n.ip = some key →
      key ≠ n.publicKey →
      ((∃ e, (y.fetch f c file).ending = .returned (.error e)) ∨
        (y.fetch f c file).ending = .panicked) ∧
      ((∀ e ∈ (y.fetch f c file).effects, ¬ e.Carries) ↔ y.Calm) := by
  refine ⟨?_, ?_, ?_⟩
  · intro file ms w run
    exact bound_all faithful run
  · intro c file new cidrs fate e failed
    exact failed_iff f c file new cidrs fate failed
  · intro y c file n key member bound other
    exact y.fetch_clash f file member bound other

/-! ### A text -/

namespace Sample

instance countableBitVec (n : Nat) : Countable (BitVec n) :=
  Function.Injective.countable (f := BitVec.toNat) fun _ _ => BitVec.eq_of_toNat_eq

instance countableString : Countable String :=
  have : Countable Char :=
    Function.Injective.countable (f := Char.toNat) fun _ _ => Char.toNat_inj.mp
  Function.Injective.countable (f := String.toList) fun _ _ => String.toList_inj.mp

instance : Countable IpAddr :=
  Function.Injective.countable (β := BitVec 32 ⊕ BitVec 128)
    (f := fun | .v4 bits => .inl bits | .v6 bits => .inr bits) <| by
      rintro (_ | _) (_ | _) same <;> cases same <;> rfl

instance : Countable SocketAddr :=
  Function.Injective.countable (f := fun a => (a.ip, a.port)) <| by
    rintro ⟨_, _⟩ ⟨_, _⟩ same
    cases same
    rfl

instance : Countable Cidr :=
  Function.Injective.countable
    (f := fun c => (c.id, c.name, c.cidr.address, c.cidr.cidr, c.parent)) <| by
      rintro ⟨_, _, ⟨_, _⟩, _⟩ ⟨_, _, ⟨_, _⟩, _⟩ same
      cases same
      rfl

instance : Countable StoredPeer :=
  Function.Injective.countable (f := fun p => ((p.id, p.publicKey, p.ip, p.isDisabled, p.endpoint,
    p.persistentKeepaliveInterval, p.candidates), p.name, p.cidrId, p.isAdmin, p.isRedeemed,
    p.inviteExpires)) <| by
      rintro ⟨⟨_, _, _, _, _, _, _⟩, _, _, _, _, _⟩ ⟨⟨_, _, _, _, _, _, _⟩, _, _, _, _, _⟩ same
      cases same
      rfl

instance : Countable Contents :=
  Function.Injective.countable (f := fun c => (c.peers, c.cidrs)) <| by
    rintro ⟨_, _⟩ ⟨_, _⟩ same
    cases same
    rfl

def publicKey : String := "AgICAgICAgICAgICAgICAgICAgICAgICAgICAgICAgI="

def peer : StoredPeer where
  id := 2
  publicKey
  ip := .v4 0x0a2a0002#32
  isDisabled := false
  endpoint := none
  persistentKeepaliveInterval := none
  candidates := []
  name := "peer"
  cidrId := 1
  isAdmin := false
  isRedeemed := true
  inviteExpires := none

def one : Contents where
  peers := [peer]
  cidrs := []

/-- `one` as `serde_json` writes it. -/
def text : List UInt8 :=
  123 :: ("\n  \"version\": \"1\",\n  \"peers\": [\n    \x7b\n      \"id\": 2,\n" ++
    "      \"name\": \"peer\",\n      \"ip\": \"10.42.0.2\",\n      \"cidr_id\": 1,\n" ++
    "      \"public_key\": \"" ++ publicKey ++ "\",\n      \"endpoint\": null,\n" ++
    "      \"persistent_keepalive_interval\": null,\n      \"is_admin\": false,\n" ++
    "      \"is_disabled\": false,\n      \"is_redeemed\": true,\n" ++
    "      \"invite_expires\": null,\n      \"candidates\": []\n    \x7d\n  ],\n" ++
    "  \"cidrs\": []\n\x7d").toUTF8.data.toList

/-- Some number for every contents. -/
noncomputable def index (c : Contents) : Nat := (Countable.exists_injective_nat Contents).choose c

theorem index_injective : Function.Injective index :=
  (Countable.exists_injective_nat Contents).choose_spec

/-- So many strokes, with a mark at their end. -/
def strokes (n : Nat) : List UInt8 := List.replicate n 49 ++ [50]

open Classical in
noncomputable def count (t : List UInt8) : Option Contents :=
  if found : ∃ c, strokes (index c) = t then some found.choose else none

open Classical in
/-- The text of `one`, and for all other contents the strokes of their number. -/
noncomputable def format : Format where
  pretty c := if c = one then text else strokes (index c)
  legible _ := true
  parse t := if t = text then some one else count t

theorem strokes_injective {a b : Nat} (same : strokes a = strokes b) : a = b := by
  have lengths := congrArg List.length same
  simpa [strokes] using lengths

theorem count_strokes (c : Contents) : count (strokes (index c)) = some c := by
  have found : ∃ c', strokes (index c') = strokes (index c) := ⟨c, rfl⟩
  rw [count, dif_pos found, index_injective (strokes_injective found.choose_spec)]

/-- Strokes end with their mark and have it nowhere else. -/
theorem count_unmarked {t : List UInt8} (unmarked : 50 ∉ t) : count t = none := by
  rw [count, dif_neg]
  rintro ⟨c, rfl⟩
  exact unmarked (by simp [strokes])

theorem text_head : text.head? = some 123 := rfl

theorem count_braced {t : List UInt8} (head : t.head? = some 123) : count t = none := by
  rw [count, dif_neg]
  rintro ⟨c, rfl⟩
  cases number : index c with
  | zero => simp [strokes, number] at head
  | succ n => simp [strokes, number, List.replicate_succ] at head

theorem strokes_apart (n : Nat) : strokes n ≠ text := by
  intro same
  have head := text_head
  rw [← same] at head
  cases n <;> simp [strokes, List.replicate_succ] at head

theorem format_faithful : format.Faithful := by
  have written (c : Contents) : format.pretty c = text ∧ c = one ∨
      format.pretty c = strokes (index c) := by
    by_cases same : c = one
    · exact .inl ⟨if_pos same, same⟩
    · exact .inr (if_neg same)
  have numbered {t : List UInt8} (other : t ≠ text) : format.parse t = count t := if_neg other
  refine ⟨fun _ => rfl, fun c => ?_, fun c n short => ?_⟩
  · rcases written c with ⟨same, rfl⟩ | same
    · rw [same]
      simp only [format, if_true]
    · rw [same, numbered (strokes_apart _), count_strokes]
  · rcases written c with ⟨same, rfl⟩ | same
    · rw [same] at short ⊢
      have other : text.take n ≠ text := by
        intro whole
        have lengths := congrArg List.length whole
        rw [List.length_take] at lengths
        omega
      rw [numbered other]
      cases n with
      | zero => exact count_unmarked (by simp)
      | succ n => exact count_braced (by rw [List.head?_take, if_neg (by simp), text_head])
    · rw [same] at short ⊢
      have cut : (strokes (index c)).take n = List.replicate n 49 := by
        have most : n ≤ index c := by
          simp [strokes] at short
          omega
        rw [strokes, List.take_append_of_le_length (by simpa using most), List.take_replicate,
          Nat.min_eq_left most]
      have unmarked : (50 : UInt8) ∉ List.replicate n 49 := by simp
      have other : List.replicate n 49 ≠ text := by
        intro same
        have head := text_head
        rw [← same] at head
        cases n <;> simp [List.replicate_succ] at head
      rw [cut, numbered other, count_unmarked unmarked]

/-- The peer's address with a key of its own. -/
def impostor : StoredPeer :=
  { peer with toListedPeer := {
      peer.toListedPeer with publicKey := "AwMDAwMDAwMDAwMDAwMDAwMDAwMDAwMDAwMDAwMDAwM=" } }

def retired : StoredPeer :=
  { impostor with toListedPeer := { impostor.toListedPeer with isDisabled := true } }

/-- A cycle that gets a directory from the server and finds nothing on the interface. -/
def cycle (directory : List StoredPeer) : Cycle where
  directory
  cidrs := []
  peerEndpointOverrides := []
  device := ∅
  interfaceKey := none
  now := 0
  interfaceUp := true
  noWriteHosts := false
  serverKey := none
  managementPsk := none
  activation := .ok ()
  applied := .ok ()
  hosts := .ok ()
  exchanges := ([], .ok ())
  fate := .whole

theorem pretty_one : format.pretty one = text := by simp only [format, if_true]

theorem read_nil : read format [] = some ⟨[], []⟩ := by
  have short : 0 < (format.pretty one).length := by
    rw [pretty_one, List.length_pos_iff]
    intro empty
    have head := text_head
    rw [empty] at head
    cases head
  have part := read_part format_faithful one short
  rw [List.take_zero] at part
  exact part

def opened : World := ⟨some [], Function.update (fun _ => none) 0 (some ⟨[], []⟩), []⟩

def stored : World :=
  ⟨some text, Function.update opened.handles 0 (some one), [(peer.ip, publicKey)]⟩

def emptied : World := ⟨some [], Function.update stored.handles 0 none, stored.pinned⟩

theorem next_opened : Taken (World.next format) (.start none) (.opens 0 true false) opened := by
  change some (World.mk _ (Function.update _ 0 (read format [])) _) = _
  rw [read_nil]
  rfl

theorem next_stored : Taken (World.next format) opened (.update 0 [peer] [] .whole) stored := by
  have held : opened.handles 0 = some ⟨[], []⟩ := rfl
  have there : opened.file = some [] := rfl
  have agrees : Agrees [] [peer] := by decide +kernel
  have same : (Contents.mk [] []).updated [peer] [] = one := by decide +kernel
  have pinned : pins one.peers = [(peer.ip, publicKey)] := by decide +kernel
  simp only [Taken, World.next, held, there,
    update_agrees format ⟨[], []⟩ [] [peer] [] .whole agrees, same, write, pretty_one, pinned]
  rfl

theorem next_emptied :
    Taken (World.next format) stored (.update 0 [peer] [] (.cut (some 0) none)) emptied := by
  have held : stored.handles 0 = some one := rfl
  have there : stored.file = some text := rfl
  have agrees : Agrees one.peers [peer] := by decide +kernel
  have same : one.updated [peer] [] = one := by decide +kernel
  simp only [Taken, World.next, held, there,
    update_agrees format one text [peer] [] (.cut (some 0) none) agrees, same, write, pretty_one]
  rfl

end Sample

open Sample

/-- A first peer is stored; its key is refused to another; and a disabled entry for the address,
with another key, goes nowhere. -/
theorem pins_hold_iff_stored :
    (∃ ms w, Run (Taken (World.next format)) (.start none) ms w ∧
      w.pinned = [(peer.ip, publicKey)] ∧ ∀ m ∈ ms, m.after.Bound format) ∧
    ((updatePeersAndSetCidrs format one text [peer, impostor] [] .whole).contents = one ∧
      (updatePeersAndSetCidrs format one text [peer, impostor] [] .whole).file = text) ∧
    ∀ e ∈ ((cycle [retired]).fetch format one text).effects, ¬ e.Carries := by
  obtain ⟨bound, failed, refused⟩ := pins_hold_iff format format_faithful
  have run := (Run.start.move next_opened).move next_stored
  have clash : ¬ Agrees one.peers [peer, impostor] := by decide +kernel
  have lead : leading one.peers [peer, impostor] = [peer] := by decide +kernel
  have held : binding one.peers retired.ip = some publicKey := by decide +kernel
  have nothing : (cycle [retired]).updates = some [] := by decide +kernel
  refine ⟨⟨_, stored, run, rfl, ?_⟩, ?_, ?_⟩
  · rw [bound none _ _ run]
    intro m member
    simp only [List.nil_append, List.mem_append, List.mem_singleton] at member
    rcases member with rfl | rfl
    · trivial
    · intro c _ _ pair none_
      cases none_
  · refine (failed one text [peer, impostor] [] .whole pinningError ?_).mpr ?_
    · rw [update_clashes format one text _ _ _ clash]
    · unfold Undisturbed
      rw [if_neg clash, lead]
      intro p member
      rw [List.mem_singleton.mp member]
      rfl
  · refine (refused (cycle [retired]) one text retired publicKey (List.mem_singleton_self _) held
      (by decide)).2.mpr ?_
    intro _ updates found
    rw [nothing, Option.some.injEq] at found
    subst found
    exact ⟨by simp, by simp [Cycle.touches, cycle], fun _ e member => nomatch member⟩

/-- A crash right after the file was emptied loses the pin; a refused directory has left its first
peer in memory; and its second one is on the interface. -/
theorem unpinned : format.Faithful ∧
    (∃ ms w, Run (Taken (World.next format)) (.start none) ms w ∧ ¬ w.Bound format) ∧
    ((updatePeersAndSetCidrs format one text [{ peer with isAdmin := true }, impostor] []
        .whole).result = some (.error pinningError) ∧
      (updatePeersAndSetCidrs format one text [{ peer with isAdmin := true }, impostor] []
        .whole).contents ≠ one) ∧
    impostor ∈ (cycle [impostor]).directory ∧ binding one.peers impostor.ip = some publicKey ∧
      publicKey ≠ impostor.publicKey ∧
      ∃ e ∈ ((cycle [impostor]).fetch format one text).effects, e.Carries := by
  refine ⟨format_faithful, ?_, ?_, ?_⟩
  · refine ⟨_, emptied, ((Run.start.move next_opened).move next_stored).move next_emptied, ?_⟩
    intro bound
    have found := bound_iff.mp bound ⟨[], []⟩ read_nil
    cases found _ (List.mem_singleton_self _)
  · have clash : ¬ Agrees one.peers [{ peer with isAdmin := true }, impostor] := by decide +kernel
    have moved : (leading one.peers [{ peer with isAdmin := true }, impostor]).foldl place
        one.peers ≠ one.peers := by
      decide +kernel
    rw [update_clashes format one text _ _ _ clash]
    exact ⟨rfl, fun same => moved (congrArg Contents.peers same)⟩
  · have held : binding one.peers impostor.ip = some publicKey := by decide +kernel
    have other : publicKey ≠ impostor.publicKey := by decide
    refine ⟨List.mem_singleton_self _, held, other, ?_⟩
    by_contra quiet
    have refused :=
      (cycle [impostor]).fetch_clash format text (List.mem_singleton_self _) held other
    have calm := refused.2.mp fun e member carried => quiet ⟨e, member, carried⟩
    have asked : ((cycle [impostor]).updates.any fun updates =>
        updates.any fun b => !b.removeMe) = true := by decide +kernel
    obtain ⟨updates, found, some_⟩ := (Option.any_eq_true _ _).mp asked
    obtain ⟨b, member, stays⟩ := List.any_eq_true.mp some_
    rw [(calm rfl updates found).1 b member] at stays
    cases stays

end Innernet.Pinning
