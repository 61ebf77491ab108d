import Innernet.Client
import Innernet.Library.Panics
import Mathlib

/-! The batches of `wireguard-control/src/backends/kernel.rs`: the attributes and peers of one update
in as many messages as they need. -/
namespace Innernet

open Fallible Panics

/-- `WireguardAttribute`: `α` has what may be pushed beside names and peers. -/
inductive WireguardAttribute (α π : Type) where
  | ifName (name : String)
  | device (a : α)
  | peers (ps : List π)
  deriving DecidableEq

/-- What the netlink library reports of the length of what it encodes, and the most a message can
take. -/
structure Lengths (α π : Type) where
  ifName : String → Nat
  device : α → Nat
  peer : π → Nat
  list : Nat
  maxPayload : Nat

variable {α π : Type}

namespace WireguardAttribute

def isName : WireguardAttribute α π → Bool
  | ifName _ => true
  | _ => false

def isPeers : WireguardAttribute α π → Bool
  | peers _ => true
  | _ => false

def isEmptyPeers : WireguardAttribute α π → Bool
  | peers [] => true
  | _ => false

/-- `buffer_len`: a list takes a header and its elements. -/
def bufferLen (lengths : Lengths α π) : WireguardAttribute α π → Nat
  | ifName name => lengths.ifName name
  | device a => lengths.device a
  | peers ps => lengths.list + (ps.map lengths.peer).sum

def devices : WireguardAttribute α π → List α
  | device a => [a]
  | _ => []

def peerList : WireguardAttribute α π → List π
  | peers ps => ps
  | _ => []

end WireguardAttribute

open WireguardAttribute

/-- The attributes of a `WireguardMessage`, whose command is always `SetDevice`. -/
abbrev WireguardMessage (α π : Type) := List (WireguardAttribute α π)

namespace WireguardMessage

def bufferLen (lengths : Lengths α π) (m : WireguardMessage α π) : Nat :=
  (m.map (WireguardAttribute.bufferLen lengths)).sum

def devices (m : WireguardMessage α π) : List α := m.flatMap WireguardAttribute.devices

def peerList (m : WireguardMessage α π) : List π := m.flatMap WireguardAttribute.peerList

/-- The push on the first list of peers. -/
def pushPeer (peer : π) : WireguardMessage α π → Option (WireguardMessage α π)
  | [] => none
  | peers ps :: rest => some (peers (ps ++ [peer]) :: rest)
  | nla :: rest => (pushPeer peer rest).map (nla :: ·)

end WireguardMessage

/-- The errors of a push: what is too large, and its length. -/
inductive PushError where
  | nla (bufferLen : Nat)
  | peer (bufferLen : Nat)

structure ApplyPayload (α π : Type) where
  iface : String
  nlas : WireguardMessage α π
  currentBufferLen : Nat
  queue : List (WireguardMessage α π)

namespace ApplyPayload

variable [DecidableEq α] [DecidableEq π] (lengths : Lengths α π)

omit [DecidableEq α] [DecidableEq π] in
def new (iface : String) : ApplyPayload α π where
  iface
  nlas := [.ifName iface]
  currentBufferLen := WireguardMessage.bufferLen lengths [.ifName iface]
  queue := []

def flushNlas (p : ApplyPayload α π) : ApplyPayload α π :=
  let nlas := p.nlas.filter fun nla => !nla.isEmptyPeers
  let template := [.ifName p.iface]
  if nlas ≠ [] ∧ nlas ≠ template then
    { p with
      nlas := template
      currentBufferLen := WireguardMessage.bufferLen lengths template
      queue := p.queue ++ [nlas] }
  else { p with nlas }

def push (p : ApplyPayload α π) (nla : WireguardAttribute α π) :
    Except PushError (ApplyPayload α π) :=
  let len := nla.bufferLen lengths
  let p := if lengths.maxPayload < p.currentBufferLen + len then p.flushNlas lengths else p
  if lengths.maxPayload < p.currentBufferLen + len then .error (.nla len)
  else .ok { p with nlas := p.nlas ++ [nla], currentBufferLen := p.currentBufferLen + len }

/-- The part of `push_peer` after the flush it may make. -/
def pushPeerInto (p : ApplyPayload α π) (peer : π) (needsPeerNla : Bool) :
    Outcome PushError (ApplyPayload α π) := do
  let len := lengths.peer peer
  let p ← if needsPeerNla then lift (p.push lengths (.peers [])) else pure p
  require (p.currentBufferLen + len ≤ lengths.maxPayload) (.error (.peer len))
  let nlas ← (WireguardMessage.pushPeer peer p.nlas).elim (.error .panic) .ok
  return { p with nlas, currentBufferLen := p.currentBufferLen + len }

def pushPeer (p : ApplyPayload α π) (peer : π) : Outcome PushError (ApplyPayload α π) :=
  let needsPeerNla := !p.nlas.any isPeers
  let len := lengths.peer peer
  let additional :=
    if needsPeerNla then len + (peers [] : WireguardAttribute α π).bufferLen lengths else len
  if lengths.maxPayload < p.currentBufferLen + additional then
    (p.flushNlas lengths).pushPeerInto lengths peer true
  else p.pushPeerInto lengths peer needsPeerNla

/-- One push of an attribute or of a peer. -/
def add (p : ApplyPayload α π) : α ⊕ π → Outcome PushError (ApplyPayload α π)
  | .inl a => lift (p.push lengths (.device a))
  | .inr peer => p.pushPeer lengths peer

def addAll (p : ApplyPayload α π) (pushes : List (α ⊕ π)) :
    Outcome PushError (ApplyPayload α π) :=
  pushes.foldlM (fun q new => q.add lengths new) p

def finish (p : ApplyPayload α π) : List (WireguardMessage α π) := (p.flushNlas lengths).queue

end ApplyPayload

section Messages

variable {lengths : Lengths α π} {m m' : WireguardMessage α π} {iface : String} {peer : π}

namespace WireguardMessage

@[simp] theorem bufferLen_append :
    bufferLen lengths (m ++ m') = bufferLen lengths m + bufferLen lengths m' := by
  simp [bufferLen]

@[simp] theorem devices_append : devices (m ++ m') = devices m ++ devices m' := by
  simp [devices]

@[simp] theorem peerList_append : peerList (m ++ m') = peerList m ++ peerList m' := by
  simp [peerList]

/-- A message that begins with the name of the interface, with one list of peers at most and no empty
one. -/
structure Formed (iface : String) (m : WireguardMessage α π) : Prop where
  named : ∃ rest, m = .ifName iface :: rest ∧ ∀ nla ∈ rest, nla.isName = false
  single : m.countP isPeers ≤ 1
  filled : .peers [] ∉ m

/-- A message as it is sent. -/
structure Sendable (lengths : Lengths α π) (iface : String) (m : WireguardMessage α π) : Prop
    extends Formed iface m where
  fits : bufferLen lengths m ≤ lengths.maxPayload

theorem formed_template : Formed iface ([.ifName iface] : WireguardMessage α π) where
  named := ⟨[], rfl, by simp⟩
  single := by simp [isPeers]
  filled := by simp

theorem formed_concat {nla : WireguardAttribute α π} (formed : Formed iface m)
    (other : nla.isName = false) (single : (m ++ [nla]).countP isPeers ≤ 1)
    (some_ : nla ≠ .peers []) : Formed iface (m ++ [nla]) where
  named := by
    obtain ⟨rest, rfl, others⟩ := formed.named
    refine ⟨rest ++ [nla], rfl, ?_⟩
    intro nla' member
    rcases List.mem_append.mp member with earlier | last
    · exact others nla' earlier
    · rw [List.mem_singleton.mp last]
      exact other
  single := single
  filled := by
    intro member
    rcases List.mem_append.mp member with earlier | last
    · exact formed.filled earlier
    · exact some_ (List.mem_singleton.mp last).symm

/-- The list a peer is pushed on is the only one. -/
theorem exists_peers (some_ : m.any isPeers = true) (single : m.countP isPeers ≤ 1) :
    ∃ before ps after, m = before ++ .peers ps :: after ∧
      pushPeer peer m = some (before ++ .peers (ps ++ [peer]) :: after) ∧
      (∀ nla ∈ before, nla.isPeers = false) ∧ ∀ nla ∈ after, nla.isPeers = false := by
  induction m with
  | nil => cases some_
  | cons nla rest ih =>
    cases nla with
    | peers ps =>
      refine ⟨[], ps, rest, rfl, rfl, by simp, ?_⟩
      have zero : rest.countP isPeers = 0 := by
        rw [List.countP_cons_of_pos rfl] at single
        omega
      simpa using List.countP_eq_zero.mp zero
    | ifName name =>
      obtain ⟨before, ps, after, rfl, done, left, right⟩ := ih some_ single
      refine ⟨.ifName name :: before, ps, after, rfl, ?_, ?_, right⟩
      · simp [pushPeer, done]
      · exact List.forall_mem_cons.mpr ⟨rfl, left⟩
    | device a =>
      obtain ⟨before, ps, after, rfl, done, left, right⟩ := ih some_ single
      refine ⟨.device a :: before, ps, after, rfl, ?_, ?_, right⟩
      · simp [pushPeer, done]
      · exact List.forall_mem_cons.mpr ⟨rfl, left⟩

theorem peerList_none (none_ : ∀ nla ∈ m, nla.isPeers = false) : peerList m = [] := by
  rw [peerList, List.flatMap_eq_nil_iff]
  intro nla member
  cases nla with
  | peers ps => cases none_ _ member
  | _ => rfl

theorem formed_grown {before after : WireguardMessage α π} {ps : List π}
    (formed : Formed iface (before ++ .peers ps :: after)) :
    Formed iface (before ++ .peers (ps ++ [peer]) :: after) where
  named := by
    obtain ⟨rest, same, others⟩ := formed.named
    cases before with
    | nil => cases same
    | cons nla before =>
      cases same
      refine ⟨before ++ .peers (ps ++ [peer]) :: after, rfl, ?_⟩
      intro nla member
      rcases List.mem_append.mp member with earlier | later
      · exact others nla (List.mem_append_left _ earlier)
      · rcases List.mem_cons.mp later with rfl | later
        · rfl
        · exact others nla (List.mem_append_right _ (List.mem_cons_of_mem _ later))
  single := by simpa [List.countP_append, List.countP_cons, isPeers] using formed.single
  filled := by
    have filled := formed.filled
    simp only [List.mem_append, List.mem_cons, not_or] at filled ⊢
    exact ⟨filled.1, by simp, filled.2.2⟩

end WireguardMessage

end Messages

namespace ApplyPayload

section Pushes

variable [DecidableEq α] [DecidableEq π] {lengths : Lengths α π} {p p' : ApplyPayload α π}
  {pushed : List (α ⊕ π)} {a : α} {peer : π}

/-- What was pushed is in the messages, and the buffer is as long as it is said to be. -/
structure Holds (lengths : Lengths α π) (p : ApplyPayload α π) (pushed : List (α ⊕ π)) : Prop where
  formed : WireguardMessage.Formed p.iface p.nlas
  counted : p.currentBufferLen = p.nlas.bufferLen lengths
  fits : p.nlas ≠ [.ifName p.iface] → p.nlas.bufferLen lengths ≤ lengths.maxPayload
  sendable : ∀ m ∈ p.queue, WireguardMessage.Sendable lengths p.iface m
  devices : p.queue.flatMap WireguardMessage.devices ++ p.nlas.devices =
    pushed.filterMap Sum.getLeft?
  peers : p.queue.flatMap WireguardMessage.peerList ++ p.nlas.peerList =
    pushed.filterMap Sum.getRight?

omit [DecidableEq α] [DecidableEq π] in
theorem new_holds {iface : String} : Holds lengths (new lengths iface) [] where
  formed := WireguardMessage.formed_template
  counted := rfl
  fits := fun other => absurd rfl other
  sendable := by simp [new]
  devices := rfl
  peers := rfl

theorem flush_cases (holds : Holds lengths p pushed) :
    (p.nlas = [.ifName p.iface] ∧ p.flushNlas lengths = p) ∨
      p.nlas ≠ [.ifName p.iface] ∧ p.flushNlas lengths = { p with
        nlas := [.ifName p.iface]
        currentBufferLen := WireguardMessage.bufferLen lengths [.ifName p.iface]
        queue := p.queue ++ [p.nlas] } := by
  have kept : p.nlas.filter (fun nla => !nla.isEmptyPeers) = p.nlas := by
    rw [List.filter_eq_self]
    intro nla member
    cases nla with
    | peers ps =>
      cases ps with
      | nil => exact absurd member holds.formed.filled
      | cons => rfl
    | _ => rfl
  have some_ : p.nlas ≠ [] := by
    obtain ⟨rest, same, -⟩ := holds.formed.named
    rw [same]
    simp
  unfold flushNlas
  simp only [kept, some_, ne_eq, not_false_eq_true, true_and]
  split
  · rename_i other
    exact .inr ⟨other, rfl⟩
  · rename_i same
    exact .inl ⟨not_not.mp same, rfl⟩

/-- A flush leaves the name alone in the buffer and loses nothing. -/
theorem flush_holds (holds : Holds lengths p pushed) :
    Holds lengths (p.flushNlas lengths) pushed ∧
      (p.flushNlas lengths).nlas = [.ifName p.iface] ∧ (p.flushNlas lengths).iface = p.iface := by
  rcases flush_cases holds with ⟨same, flushed⟩ | ⟨other, flushed⟩
  · rw [flushed]
    exact ⟨holds, same, rfl⟩
  · rw [flushed]
    refine ⟨⟨WireguardMessage.formed_template, rfl, fun other => absurd rfl other, ?_, ?_, ?_⟩,
      rfl, rfl⟩
    · intro m member
      rcases List.mem_append.mp member with earlier | last
      · exact holds.sendable m earlier
      · rw [List.mem_singleton.mp last]
        exact ⟨holds.formed, holds.fits other⟩
    · simpa [WireguardMessage.devices, WireguardAttribute.devices] using holds.devices
    · simpa [WireguardMessage.peerList, WireguardAttribute.peerList] using holds.peers

/-- The buffer after another attribute. -/
def concat (lengths : Lengths α π) (p : ApplyPayload α π) (nla : WireguardAttribute α π) :
    ApplyPayload α π :=
  { p with nlas := p.nlas ++ [nla], currentBufferLen := p.currentBufferLen + nla.bufferLen lengths }

omit [DecidableEq α] [DecidableEq π] in
/-- Another attribute at the end of the buffer. -/
theorem concat_holds {nla : WireguardAttribute α π} {new : α ⊕ π} (holds : Holds lengths p pushed)
    (other : nla.isName = false) (single : (p.nlas ++ [nla]).countP isPeers ≤ 1)
    (some_ : nla ≠ .peers [])
    (fits : p.currentBufferLen + nla.bufferLen lengths ≤ lengths.maxPayload)
    (devices : nla.devices = [new].filterMap Sum.getLeft?)
    (peers : nla.peerList = [new].filterMap Sum.getRight?) :
    Holds lengths (p.concat lengths nla) (pushed ++ [new]) where
  formed := WireguardMessage.formed_concat holds.formed other single some_
  counted := by
    dsimp only [concat]
    rw [WireguardMessage.bufferLen_append, ← holds.counted]
    simp [WireguardMessage.bufferLen]
  fits := by
    intro _
    dsimp only [concat]
    rw [WireguardMessage.bufferLen_append, ← holds.counted]
    simpa [WireguardMessage.bufferLen] using fits
  sendable := holds.sendable
  devices := by
    dsimp only [concat]
    rw [WireguardMessage.devices_append, List.filterMap_append, ← holds.devices, ← devices]
    simp [WireguardMessage.devices]
  peers := by
    dsimp only [concat]
    rw [WireguardMessage.peerList_append, List.filterMap_append, ← holds.peers, ← peers]
    simp [WireguardMessage.peerList]

omit [DecidableEq α] [DecidableEq π] in
/-- Another peer in the list of the buffer. -/
theorem grow_holds (holds : Holds lengths p pushed) (some_ : p.nlas.any isPeers = true)
    (fits : p.currentBufferLen + lengths.peer peer ≤ lengths.maxPayload) :
    ∃ nlas, WireguardMessage.pushPeer peer p.nlas = some nlas ∧
      Holds lengths { p with
        nlas
        currentBufferLen := p.currentBufferLen + lengths.peer peer } (pushed ++ [.inr peer]) := by
  obtain ⟨formed, counted, -, sendable, devices, peers⟩ := holds
  obtain ⟨before, ps, after, same, done, -, right⟩ :=
    WireguardMessage.exists_peers some_ formed.single
  have last := WireguardMessage.peerList_none right
  refine ⟨_, done, ?_⟩
  rw [same] at formed counted devices peers
  have length : WireguardMessage.bufferLen lengths (before ++ .peers (ps ++ [peer]) :: after) =
      p.currentBufferLen + lengths.peer peer := by
    rw [counted]
    simp only [WireguardMessage.bufferLen, bufferLen, List.map_append, List.map_cons, List.sum_append,
      List.sum_cons, List.map_nil, List.sum_nil]
    omega
  refine ⟨WireguardMessage.formed_grown formed, length.symm, fun _ => length.trans_le fits, sendable,
    ?_, ?_⟩
  · have none_ : [Sum.inr peer].filterMap (Sum.getLeft? : α ⊕ π → Option α) = [] := rfl
    rw [List.filterMap_append, none_, List.append_nil]
    simpa [WireguardMessage.devices, WireguardAttribute.devices] using devices
  · have listed : WireguardMessage.peerList (before ++ .peers (ps ++ [peer]) :: after) =
        WireguardMessage.peerList (before ++ .peers ps :: after) ++ [peer] := by
      simp only [WireguardMessage.peerList, List.flatMap_append, List.flatMap_cons] at last ⊢
      rw [last]
      simp [peerList]
    rw [listed, ← List.append_assoc, peers]
    simp

omit [DecidableEq α] [DecidableEq π] in
theorem template_len (holds : Holds lengths p pushed) (same : p.nlas = [.ifName p.iface]) :
    p.currentBufferLen = lengths.ifName p.iface := by
  rw [holds.counted, same]
  simp [WireguardMessage.bufferLen, bufferLen]

theorem push_fits {nla : WireguardAttribute α π}
    (fits : p.currentBufferLen + nla.bufferLen lengths ≤ lengths.maxPayload) :
    p.push lengths nla = .ok (p.concat lengths nla) := by
  dsimp only [push]
  rw [if_neg (Nat.not_lt.mpr fits), if_neg (Nat.not_lt.mpr fits), concat]

/-- A push that does not fit is one after a flush, and fails if it does not fit there. -/
theorem push_full {nla : WireguardAttribute α π} (holds : Holds lengths p pushed)
    (full : lengths.maxPayload < p.currentBufferLen + nla.bufferLen lengths) :
    p.push lengths nla = if lengths.maxPayload < lengths.ifName p.iface + nla.bufferLen lengths
      then .error (.nla (nla.bufferLen lengths))
      else .ok ((p.flushNlas lengths).concat lengths nla) := by
  obtain ⟨flushed, same, iface⟩ := flush_holds holds
  have len := template_len flushed (iface ▸ same)
  rw [iface] at len
  dsimp only [push]
  rw [if_pos full, len, concat, len]

omit [DecidableEq α] [DecidableEq π] in
theorem device_holds (holds : Holds lengths p pushed)
    (fits : p.currentBufferLen + lengths.device a ≤ lengths.maxPayload) :
    Holds lengths (p.concat lengths (.device a)) (pushed ++ [.inl a]) := by
  refine concat_holds holds rfl ?_ (by simp) fits rfl rfl
  rw [List.countP_append]
  exact holds.formed.single

/-- A push of an attribute keeps all, or the attribute is too large for a message of its own. -/
theorem push_holds (holds : Holds lengths p pushed) :
    (∃ p', p.push lengths (.device a) = .ok p' ∧ Holds lengths p' (pushed ++ [.inl a]) ∧
      p'.iface = p.iface) ∨
    (p.push lengths (.device a) = .error (.nla (lengths.device a)) ∧
      lengths.maxPayload < lengths.ifName p.iface + lengths.device a) := by
  by_cases full : lengths.maxPayload < p.currentBufferLen + lengths.device a
  · have after : p.push lengths (.device a) =
        if lengths.maxPayload < lengths.ifName p.iface + lengths.device a
        then .error (.nla (lengths.device a))
        else .ok ((p.flushNlas lengths).concat lengths (.device a)) := push_full holds full
    rw [after]
    split
    · rename_i large
      exact .inr ⟨rfl, large⟩
    · rename_i fits
      obtain ⟨flushed, same, iface⟩ := flush_holds holds
      have len := template_len flushed (iface ▸ same)
      rw [iface] at len
      exact .inl ⟨_, rfl, device_holds flushed (len ▸ Nat.not_lt.mp fits), iface⟩
  · have fits := Nat.not_lt.mp full
    exact .inl ⟨_, push_fits fits, device_holds holds fits, rfl⟩

omit [DecidableEq α] [DecidableEq π] in
theorem peers_holds (holds : Holds lengths p pushed) (none_ : p.nlas.any isPeers = false)
    (fits : p.currentBufferLen + (lengths.list + lengths.peer peer) ≤ lengths.maxPayload) :
    Holds lengths (p.concat lengths (.peers [peer])) (pushed ++ [.inr peer]) := by
  refine concat_holds holds rfl ?_ (by simp) (by simpa [bufferLen] using fits) rfl rfl
  have zero : p.nlas.countP isPeers = 0 := by
    rw [List.countP_eq_zero]
    simpa using none_
  rw [List.countP_append, zero]
  exact le_rfl

omit [DecidableEq α] [DecidableEq π] in
/-- The push on a list that was just added. -/
theorem pushPeer_new {m : WireguardMessage α π} (none_ : m.any isPeers = false) :
    WireguardMessage.pushPeer peer (m ++ [.peers []]) = some (m ++ [.peers [peer]]) := by
  induction m with
  | nil => rfl
  | cons nla rest ih =>
    rw [List.any_cons, Bool.or_eq_false_iff] at none_
    cases nla with
    | peers ps => cases none_.1
    | ifName name => simp [WireguardMessage.pushPeer, ih none_.2]
    | device a => simp [WireguardMessage.pushPeer, ih none_.2]

theorem pushPeerInto_new (none_ : p.nlas.any isPeers = false)
    (fits : p.currentBufferLen + (lengths.list + lengths.peer peer) ≤ lengths.maxPayload) :
    p.pushPeerInto lengths peer true = .ok (p.concat lengths (.peers [peer])) := by
  have empty : (WireguardAttribute.peers [] : WireguardAttribute α π).bufferLen lengths =
      lengths.list := rfl
  have opened := push_fits (p := p) (by rw [empty]; omega)
  unfold pushPeerInto
  rw [if_pos rfl, opened]
  have room : (p.concat lengths (.peers [])).currentBufferLen + lengths.peer peer ≤
      lengths.maxPayload := by
    dsimp only [concat]
    rw [empty]
    omega
  have grown : (WireguardMessage.pushPeer peer (p.concat lengths (.peers [])).nlas).elim
      (.error .panic) .ok = (.ok (p.nlas ++ [.peers [peer]]) : Outcome PushError _) := by
    dsimp only [concat]
    rw [pushPeer_new none_]
    rfl
  refine bind_ok.mpr ⟨_, rfl, bind_ok.mpr ⟨⟨⟩, require_ok.mpr room, bind_ok.mpr ⟨_, grown, ?_⟩⟩⟩
  simp [pure, Except.pure, concat, bufferLen, Nat.add_assoc]

theorem pushPeerInto_old (holds : Holds lengths p pushed) (some_ : p.nlas.any isPeers = true)
    (fits : p.currentBufferLen + lengths.peer peer ≤ lengths.maxPayload) :
    ∃ p', p.pushPeerInto lengths peer false = .ok p' ∧ Holds lengths p' (pushed ++ [.inr peer]) ∧
      p'.iface = p.iface := by
  obtain ⟨nlas, done, kept⟩ := grow_holds holds some_ fits
  refine ⟨_, ?_, kept, rfl⟩
  have grown : (WireguardMessage.pushPeer peer p.nlas).elim (.error .panic) .ok =
      (.ok nlas : Outcome PushError _) := by
    rw [done]
    rfl
  unfold pushPeerInto
  rw [if_neg Bool.false_ne_true]
  simp only [bind_ok, require_ok, pure_ok]
  exact ⟨p, rfl, ⟨⟩, fits, nlas, grown, rfl⟩

/-- On a buffer with nothing but the name, the only failure is that of a peer that is too large. -/
theorem pushPeerInto_template (holds : Holds lengths p pushed) (same : p.nlas = [.ifName p.iface])
    (large : lengths.maxPayload < lengths.ifName p.iface + (lengths.list + lengths.peer peer)) :
    ∃ e, p.pushPeerInto lengths peer true = .error (.error e) := by
  have empty : (WireguardAttribute.peers [] : WireguardAttribute α π).bufferLen lengths =
      lengths.list := rfl
  have len := template_len holds same
  unfold pushPeerInto
  rw [if_pos rfl]
  by_cases full : lengths.maxPayload < lengths.ifName p.iface + lengths.list
  · have failed := push_full holds (by rw [len, empty]; exact full)
    rw [empty, if_pos full] at failed
    rw [failed]
    exact ⟨_, rfl⟩
  · have opened := push_fits (p := p)
      (by rw [len, empty]; exact Nat.not_lt.mp full)
    rw [opened]
    refine ⟨_, bind_error.mpr (.inr ⟨_, rfl, bind_error.mpr (.inl (require_error.mpr ⟨?_, rfl⟩))⟩)⟩
    dsimp only [concat]
    rw [empty, len]
    omega

/-- A push of a peer keeps all, or the peer is too large for a message of its own. -/
theorem pushPeer_holds (holds : Holds lengths p pushed) :
    (∃ p', p.pushPeer lengths peer = .ok p' ∧ Holds lengths p' (pushed ++ [.inr peer]) ∧
      p'.iface = p.iface) ∨
    (∃ e, p.pushPeer lengths peer = .error (.error e)) ∧
      lengths.maxPayload < lengths.ifName p.iface + (lengths.list + lengths.peer peer) := by
  have empty : (WireguardAttribute.peers [] : WireguardAttribute α π).bufferLen lengths =
      lengths.list := rfl
  dsimp only [pushPeer]
  generalize total : (if (!p.nlas.any isPeers) = true then
    lengths.peer peer + (peers [] : WireguardAttribute α π).bufferLen lengths
    else lengths.peer peer) = additional
  by_cases full : lengths.maxPayload < p.currentBufferLen + additional
  · rw [if_pos full]
    obtain ⟨flushed, same, iface⟩ := flush_holds holds
    have len := template_len flushed (iface ▸ same)
    have none_ : (p.flushNlas lengths).nlas.any isPeers = false := by
      rw [same]
      rfl
    by_cases large : lengths.maxPayload <
        lengths.ifName p.iface + (lengths.list + lengths.peer peer)
    · exact .inr ⟨pushPeerInto_template flushed (iface ▸ same) (iface ▸ large), large⟩
    · have fits : (p.flushNlas lengths).currentBufferLen + (lengths.list + lengths.peer peer) ≤
          lengths.maxPayload := by
        rw [len, iface]
        exact Nat.not_lt.mp large
      exact .inl ⟨_, pushPeerInto_new none_ fits, peers_holds flushed none_ fits, iface⟩
  · rw [if_neg full]
    have fits := Nat.not_lt.mp full
    cases some_ : p.nlas.any isPeers with
    | true =>
      have total : lengths.peer peer = additional := by simpa [some_] using total
      exact .inl (pushPeerInto_old holds some_ (total ▸ fits))
    | false =>
      have total : lengths.list + lengths.peer peer = additional := by
        simpa [some_, empty, Nat.add_comm] using total
      rw [← total] at fits
      exact .inl ⟨_, pushPeerInto_new some_ fits, peers_holds holds some_ fits, rfl⟩

/-- Whether an attribute or a peer fits in a message of its own. -/
def Alone (lengths : Lengths α π) (iface : String) : α ⊕ π → Prop
  | .inl a => lengths.ifName iface + lengths.device a ≤ lengths.maxPayload
  | .inr peer => lengths.ifName iface + (lengths.list + lengths.peer peer) ≤ lengths.maxPayload

theorem add_holds {new : α ⊕ π} (holds : Holds lengths p pushed) :
    (∃ p', p.add lengths new = .ok p' ∧ Holds lengths p' (pushed ++ [new]) ∧ p'.iface = p.iface) ∨
      (∃ e, p.add lengths new = .error (.error e)) ∧ ¬ Alone lengths p.iface new := by
  cases new with
  | inl a =>
    rcases push_holds (a := a) holds with ⟨p', done, kept⟩ | ⟨failed, large⟩
    · exact .inl ⟨p', lift_ok.mpr done, kept⟩
    · refine .inr ⟨⟨_, congrArg lift failed⟩, Nat.not_le.mpr large⟩
  | inr peer =>
    rcases pushPeer_holds holds with kept | ⟨failed, large⟩
    · exact .inl kept
    · exact .inr ⟨failed, Nat.not_le.mpr large⟩

/-- Every payload that pushes without an error lead to holds what was pushed. -/
theorem run_holds {iface : String} {pushes : List (α ⊕ π)} (holds : Holds lengths p pushed)
    (same : p.iface = iface) (run : p.addAll lengths pushes = .ok p') :
    Holds lengths p' (pushed ++ pushes) ∧ p'.iface = iface := by
  induction pushes generalizing p pushed with
  | nil =>
    cases run
    rw [List.append_nil]
    exact ⟨holds, same⟩
  | cons new pushes ih =>
    rw [addAll, List.foldlM_cons, bind_ok] at run
    obtain ⟨q, done, rest⟩ := run
    rcases add_holds holds with ⟨q', done', kept, iface'⟩ | ⟨⟨e, failed⟩, -⟩
    · cases done.symm.trans done'
      rw [← List.singleton_append, ← List.append_assoc]
      exact ih kept (iface'.trans same) rest
    · cases done.symm.trans failed

theorem finish_holds (holds : Holds lengths p pushed) :
    (∀ m ∈ p.finish lengths, WireguardMessage.Sendable lengths p.iface m) ∧
      (p.finish lengths).flatMap WireguardMessage.devices = pushed.filterMap Sum.getLeft? ∧
      (p.finish lengths).flatMap WireguardMessage.peerList = pushed.filterMap Sum.getRight? := by
  obtain ⟨flushed, same, iface⟩ := flush_holds holds
  have devices := flushed.devices
  have peers := flushed.peers
  have none_ : WireguardMessage.devices [(ifName p.iface : WireguardAttribute α π)] = [] := rfl
  have none_' : WireguardMessage.peerList [(ifName p.iface : WireguardAttribute α π)] = [] := rfl
  rw [same, none_, List.append_nil] at devices
  rw [same, none_', List.append_nil] at peers
  exact ⟨iface ▸ flushed.sendable, devices, peers⟩

/-- Batching is lossless: whatever was pushed without an error is sent, in order and once, in
messages that fit, and a further push fails only for what does not fit in a message of its own. -/
theorem finish_lossless {iface : String} {pushes : List (α ⊕ π)}
    (run : (new lengths iface).addAll lengths pushes = .ok p) :
    ((∀ m ∈ p.finish lengths, WireguardMessage.Sendable lengths iface m) ∧
      (p.finish lengths).flatMap WireguardMessage.devices = pushes.filterMap Sum.getLeft? ∧
      (p.finish lengths).flatMap WireguardMessage.peerList = pushes.filterMap Sum.getRight?) ∧
    ∀ new fault, p.add lengths new = .error fault →
      fault ≠ .panic ∧ ¬ Alone lengths iface new := by
  obtain ⟨holds, rfl⟩ := run_holds new_holds rfl run
  rw [List.nil_append] at holds
  refine ⟨finish_holds holds, fun new fault failed => ?_⟩
  rcases add_holds holds with ⟨p', done, -⟩ | ⟨⟨e, failed'⟩, large⟩
  · cases failed.symm.trans done
  · cases failed.symm.trans failed'
    exact ⟨by simp, large⟩

/-- Three peers that take two messages. -/
theorem three_peers_lossless :
    let lengths : Lengths Nat Nat := ⟨fun _ => 8, id, id, 4, 40⟩
    ∃ p, (new lengths "wg0").addAll lengths [.inl 5, .inr 10, .inr 11, .inr 12] = .ok p ∧
      p.finish lengths =
        [[.ifName "wg0", .device 5, .peers [10, 11]], [.ifName "wg0", .peers [12]]] ∧
      (p.finish lengths).flatMap WireguardMessage.peerList = [10, 11, 12] :=
  ⟨_, rfl, by decide, (@finish_lossless Nat Nat _ _ ⟨fun _ => 8, id, id, 4, 40⟩ _ "wg0"
    [.inl 5, .inr 10, .inr 11, .inr 12] rfl).1.2.2⟩

end Pushes

end ApplyPayload

/-- The attributes `apply` pushes before the peers. -/
inductive DeviceAttribute where
  | privateKey (key : Binary 32)
  | fwmark (mark : Nat)
  | listenPort (port : Nat)
  | replacePeers
  deriving DecidableEq

structure DeviceUpdate where
  privateKey : Option (Binary 32)
  fwmark : Option Nat
  listenPort : Option Nat
  replacePeers : Bool
  peers : List PeerConfigBuilder

namespace DeviceUpdate

def attributes (u : DeviceUpdate) : List DeviceAttribute :=
  (u.privateKey.map .privateKey).toList ++ (u.fwmark.map .fwmark).toList ++
    (u.listenPort.map .listenPort).toList ++ if u.replacePeers then [.replacePeers] else []

def pushes (u : DeviceUpdate) : List (DeviceAttribute ⊕ PeerConfigBuilder) :=
  u.attributes.map Sum.inl ++ u.peers.map Sum.inr

/-- The messages of `apply`; a builder stands for its `to_nla`. -/
def messages (lengths : Lengths DeviceAttribute PeerConfigBuilder) (u : DeviceUpdate)
    (iface : String) :
    Outcome PushError (List (WireguardMessage DeviceAttribute PeerConfigBuilder)) := do
  let p ← (ApplyPayload.new lengths iface).addAll lengths u.pushes
  return p.finish lengths

/-- The messages of an update, one after another, are the update. -/
theorem messages_update {lengths : Lengths DeviceAttribute PeerConfigBuilder} {u : DeviceUpdate}
    {iface : String} {ms : List (WireguardMessage DeviceAttribute PeerConfigBuilder)} {d : Device}
    (sent : u.messages lengths iface = .ok ms) :
    ms.flatMap WireguardMessage.devices = u.attributes ∧
      ms.foldl (fun d m => d.update m.peerList) d = d.update u.peers := by
  simp only [messages, bind_ok, pure_ok] at sent
  obtain ⟨p, run, rfl⟩ := sent
  obtain ⟨holds, -⟩ := ApplyPayload.run_holds ApplyPayload.new_holds rfl run
  rw [List.nil_append] at holds
  obtain ⟨-, devices, peers⟩ := ApplyPayload.finish_holds holds
  constructor
  · rw [devices]
    simp [pushes, List.filterMap_append, List.filterMap_map, Function.comp_def]
  · have listed : (p.finish lengths).flatMap WireguardMessage.peerList = u.peers := by
      rw [peers]
      simp [pushes, List.filterMap_append, List.filterMap_map, Function.comp_def]
    rw [Device.update, ← listed, List.foldl_flatMap]
    rfl

/-- An update of three peers that takes two messages. -/
theorem messages_update_split :
    let u : DeviceUpdate := ⟨none, some 5, none, false, [.new 10, .new 11, .new 12]⟩
    let lengths : Lengths DeviceAttribute PeerConfigBuilder :=
      ⟨fun _ => 8, fun _ => 5, fun _ => 11, 4, 40⟩
    ∃ ms, u.messages lengths "wg0" = .ok ms ∧ ms.length = 2 ∧
      ms.flatMap WireguardMessage.devices = u.attributes ∧
      ms.foldl (fun d m => d.update m.peerList) (∅ : Device) = Device.update ∅ u.peers := by
  intro u lengths
  have two : (u.messages lengths "wg0").toOption.map List.length = some 2 := rfl
  obtain ⟨ms, sent⟩ : ∃ ms, u.messages lengths "wg0" = .ok ms := ⟨_, rfl⟩
  rw [sent] at two
  exact ⟨ms, sent, Option.some.inj two, messages_update sent⟩

end DeviceUpdate

end Innernet
