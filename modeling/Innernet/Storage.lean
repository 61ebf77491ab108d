import Innernet.Activation
import Innernet.Binding
import Innernet.Library.Durability

/-! The private store of `pq/src/store.rs`: one `state.json`, replaced by the rename of a finished
file, under a lock that one handle holds. Owners, modes and links of the files are not modelled; the
temporary files of failed saves are never read and are left out. -/
namespace Innernet.Storage

open Fallible Durability Runs

abbrev File := Cell (List UInt8)

def maxBytes : Nat := 16 * 1024 * 1024

structure Envelope (α : Type) where
  version : Nat
  generation : Nat
  value : α
  deriving DecidableEq

/-- `serde_json` for one type of values: the text of an envelope, and what the three structures the
store reads a text into make of it. -/
structure Format (α : Type) where
  toVec : Envelope α → Option (List UInt8)
  version : List UInt8 → Option Nat
  generation : List UInt8 → Option (Nat × Nat)
  envelope : List UInt8 → Option (Envelope α)

/-- What is written is read back. -/
structure Format.Faithful {α : Type} (f : Format α) : Prop where
  nonempty : ∀ e bytes, f.toVec e = some bytes → bytes ≠ []
  version : ∀ e bytes, f.toVec e = some bytes → f.version bytes = some e.version
  generation : ∀ e bytes, f.toVec e = some bytes →
    f.generation bytes = some (e.version, e.generation)
  envelope : ∀ e bytes, f.toVec e = some bytes → f.envelope bytes = some e

/-- `map_err(|_| StoreError::Corrupt)`. -/
def orCorrupt {β : Type} : Option β → Except StoreError β
  | some b => .ok b
  | none => .error .corrupt

@[simp] theorem orCorrupt_ok {β : Type} {x : Option β} {b : β} :
    orCorrupt x = .ok b ↔ x = some b := by
  cases x <;> simp [orCorrupt]

/-- An open store. The lock it holds is that it is there. -/
structure Store where
  generation : Nat
  fresh : Bool
  digest : Option (Binary 32)
  deriving DecidableEq

inductive Boundary where
  | beforeWrite
  | afterFileSync
  | afterRename
  | afterDirectorySync
  deriving DecidableEq

/-- An error comes back to the caller. A crash does not; with the power it takes the last `back`
renames that no directory sync has followed. -/
inductive Fault where
  | error
  | crash (back : Nat)
  deriving DecidableEq

def bytes (state : Option File) : Except StoreError (List UInt8) :=
  match state with
  | none => .error .corrupt
  | some file =>
    if file.seen.length = 0 ∨ maxBytes < file.seen.length then .error .corrupt else .ok file.seen

section Handle

variable [Native] {α : Type} (f : Format α)

def hash (data : List UInt8) : Except StoreError (Binary 32) :=
  orCorrupt (Crypto.hash data).toOption

/-- The text of `state.json` and what it holds. -/
def read (state : Option File) : Except StoreError (List UInt8 × Envelope α) := do
  let bytes ← bytes state
  let version ← orCorrupt (f.version bytes)
  require (version ≤ 1) .newer
  require (version = 1) .corrupt
  let value ← orCorrupt (f.envelope bytes)
  require (value.generation ≠ 0) .corrupt
  return (bytes, value)

def Store.load (s : Store) (state : Option File) : Except StoreError α × Store :=
  match read f state with
  | .error e => (.error e, s)
  | .ok (bytes, value) =>
    let s := { s with generation := value.generation, fresh := false }
    match hash bytes with
    | .error e => (.error e, s)
    | .ok digest => (.ok value.value, { s with digest := some digest })

/-- The contents a save may replace: none for a fresh handle, else those of its digest. -/
def Store.check (s : Store) (state : Option File) : Except StoreError Unit :=
  if s.fresh then
    match state with
    | none => .ok ()
    | some _ => .error .conflict
  else do
    let current ← bytes state
    let (version, generation) ← orCorrupt (f.generation current)
    require (version ≤ 1) .newer
    require (version = 1) .corrupt
    require (generation = s.generation) .conflict
    let digest ← hash current
    require (s.digest = some digest) .conflict

/-- `save_checked` up to the first boundary; `drawn` is how the random name and the creation of the
temporary file come out. -/
def Store.prepare (s : Store) (state : Option File) (value : α) (drawn : Except StoreError Unit) :
    Except StoreError (List UInt8) := do
  require (s.generation + 1 < 2 ^ 64) .conflict
  s.check f state
  let bytes ← orCorrupt (f.toVec { version := 1, generation := s.generation + 1, value })
  require (bytes.length ≤ maxBytes) .corrupt
  drawn
  return bytes

/-- The closure of `save_checked`: the temporary file is written, renamed and the directory synced,
with a place for a fault before and after each. -/
def replace (state : Cell (Option File)) (bytes : List UInt8) (fault : Boundary → Option Fault) :
    Except Fault Unit × Cell (Option File) :=
  match fault .beforeWrite with
  | some fault => (.error fault, state)
  | none =>
    let file := ((Cell.stable []).write bytes).sync
    match fault .afterFileSync with
    | some fault => (.error fault, state)
    | none =>
      let state := state.put (some file)
      match fault .afterRename with
      | some fault => (.error fault, state)
      | none =>
        let state := state.sync
        match fault .afterDirectorySync with
        | some fault => (.error fault, state)
        | none => (.ok (), state)

/-- What a save leaves: no result and no handle after a crash. -/
structure Saved where
  result : Option (Except StoreError Unit)
  store : Option Store
  state : Cell (Option File)

def Store.saveChecked (s : Store) (state : Cell (Option File)) (value : α)
    (drawn : Except StoreError Unit) (fault : Boundary → Option Fault) : Saved :=
  match s.prepare f state.seen value drawn with
  | .error e => ⟨some (.error e), some s, state⟩
  | .ok bytes =>
    match replace state bytes fault with
    | (.error .error, state) => ⟨some (.error .io), some s, state⟩
    | (.error (.crash back), state) => ⟨none, none, state.fail back⟩
    | (.ok (), state) =>
      let s := { s with generation := s.generation + 1, fresh := false }
      match hash bytes with
      | .error e => ⟨some (.error e), some s, state⟩
      | .ok digest => ⟨some (.ok ()), some { s with digest := some digest }, state⟩

end Handle

/-- The private directory, once it is there, and the handle that holds its lock. -/
structure World where
  folder : Option (Cell (Option File))
  store : Option Store
  deriving DecidableEq

inductive Call (α : Type) where
  | openStore (create : Bool)
  | load
  | save (value : α) (drawn : Except StoreError Unit) (fault : Boundary → Option Fault)
  | drop

inductive Answer (α : Type) where
  | opened
  | busy
  | missing
  | loaded (result : Except StoreError α)
  | saved (result : Except StoreError Unit)
  | crashed
  | dropped
  deriving DecidableEq

namespace World

variable [Native] {α : Type} (f : Format α)

/-- `Store::open`: a handle is fresh when it has made the directory. -/
def openStore (w : World) (create : Bool) : Answer α × World :=
  match w.store, w.folder with
  | some _, _ => (.busy, w)
  | none, some state => (.opened, ⟨some state.sync, some ⟨0, false, none⟩⟩)
  | none, none =>
    if create then (.opened, ⟨some (Cell.stable none), some ⟨0, true, none⟩⟩) else (.missing, w)

/-- A call on the directory; only a live handle loads, saves and is dropped. -/
def next (w : World) : Call α → Option (Answer α × World)
  | .openStore create => some (w.openStore create)
  | .load =>
    match w.store, w.folder with
    | some s, some state =>
      let (result, s) := s.load f state.seen
      some (.loaded result, { w with store := some s })
    | _, _ => none
  | .save value drawn fault =>
    match w.store, w.folder with
    | some s, some state =>
      let after := s.saveChecked f state value drawn fault
      some (match after.result with
        | some result => .saved result
        | none => .crashed, ⟨some after.state, after.store⟩)
    | _, _ => none
  | .drop =>
    match w.store with
    | some _ => some (.dropped, { w with store := none })
    | none => none

def Step (w : World) (l : Call α × Answer α) (w' : World) : Prop := w.next f l.1 = some (l.2, w')

instance [DecidableEq α] (w : World) (l : Call α × Answer α) (w' : World) :
    Decidable (w.Step f l w') :=
  inferInstanceAs (Decidable (_ = _))

/-- `state.json`; a directory that is not there holds none. -/
def state (w : World) : Cell (Option File) := w.folder.getD (Cell.stable none)

/-- The text of `state.json`. -/
def found (w : World) : Option (List UInt8) := w.state.seen.map Cell.seen

/-- What `state.json` can be, after a loss of power too. -/
def Can (w : World) (x : Option File) : Prop := w.state.Can x

/-- The save gets as far as its rename and puts `bytes` in place. -/
def Renames (w : World) (c : Call α) (bytes : List UInt8) : Prop :=
  ∃ value drawn fault s state, c = .save value drawn fault ∧ w.store = some s ∧
    w.folder = some state ∧ s.prepare f state.seen value drawn = .ok bytes ∧
    fault .beforeWrite = none ∧ fault .afterFileSync = none

end World

section Spec

variable [Native] {α : Type} {f : Format α} {s : Store} {state : Cell (Option File)}
  {value : α} {drawn : Except StoreError Unit} {fault : Boundary → Option Fault}
  {text : List UInt8}

/-- The file a save has finished. -/
def finished (text : List UInt8) : File := Cell.stable text

omit [Native] in
theorem replace_early (state : Cell (Option File)) (text : List UInt8)
    (early : fault .beforeWrite ≠ none ∨ fault .afterFileSync ≠ none) :
    ∃ stopped, replace state text fault = (.error stopped, state) := by
  unfold replace
  cases first : fault .beforeWrite with
  | some stopped => exact ⟨stopped, rfl⟩
  | none =>
    cases second : fault .afterFileSync with
    | some stopped => exact ⟨stopped, rfl⟩
    | none => exact absurd early (by simp [first, second])

omit [Native] in
/-- From the rename on the finished file is in place; without a fault the directory is synced. -/
theorem replace_renamed (state : Cell (Option File)) (text : List UInt8)
    (first : fault .beforeWrite = none) (second : fault .afterFileSync = none) :
    replace state text fault = (.ok (), (state.put (some (finished text))).sync) ∨
      ∃ stopped after, replace state text fault = (.error stopped, after) ∧
        (after = state.put (some (finished text)) ∨
          after = (state.put (some (finished text))).sync) := by
  unfold replace
  rw [first, second]
  cases third : fault .afterRename with
  | some stopped => exact .inr ⟨stopped, _, rfl, .inl rfl⟩
  | none =>
    cases fourth : fault .afterDirectorySync with
    | some stopped => exact .inr ⟨stopped, _, rfl, .inr rfl⟩
    | none => exact .inl rfl

/-- A save that does not reach its rename. -/
inductive Kept (s : Store) (state : Cell (Option File)) : Saved → Prop where
  | refused (e : StoreError) : Kept s state ⟨some (.error e), some s, state⟩
  | crashed (back : Nat) : Kept s state ⟨none, none, state.fail back⟩

/-- A save that puts `text` in place, with the directory synced after it or not. -/
inductive Renamed [Native] (s : Store) (state : Cell (Option File)) (text : List UInt8) :
    Saved → Prop where
  | done {digest : Binary 32} : hash text = .ok digest → Renamed s state text
      ⟨some (.ok ()), some ⟨s.generation + 1, false, some digest⟩,
        (state.put (some (finished text))).sync⟩
  | failed {e : StoreError} {s' : Store} {after : Cell (Option File)} :
      s' = s ∨ s' = { s with generation := s.generation + 1, fresh := false } →
      after = state.put (some (finished text)) ∨ after = (state.put (some (finished text))).sync →
      Renamed s state text ⟨some (.error e), some s', after⟩
  | crashed {back : Nat} {after : Cell (Option File)} :
      after = state.put (some (finished text)) ∨ after = (state.put (some (finished text))).sync →
      Renamed s state text ⟨none, none, after.fail back⟩

theorem saveChecked_cases (f : Format α) (s : Store) (state : Cell (Option File)) (value : α)
    (drawn : Except StoreError Unit) (fault : Boundary → Option Fault) :
    (Kept s state (s.saveChecked f state value drawn fault) ∧
      ∀ text, s.prepare f state.seen value drawn = .ok text →
        fault .beforeWrite ≠ none ∨ fault .afterFileSync ≠ none) ∨
    ∃ text, s.prepare f state.seen value drawn = .ok text ∧ fault .beforeWrite = none ∧
      fault .afterFileSync = none ∧
      Renamed s state text (s.saveChecked f state value drawn fault) := by
  unfold Store.saveChecked
  cases prepared : s.prepare f state.seen value drawn with
  | error e => exact .inl ⟨.refused e, fun _ never => nomatch never⟩
  | ok text =>
    by_cases early : fault .beforeWrite ≠ none ∨ fault .afterFileSync ≠ none
    · obtain ⟨stopped, halted⟩ := replace_early state text early
      refine .inl ⟨?_, fun _ _ => early⟩
      dsimp only
      rw [halted]
      cases stopped with
      | error => exact .refused .io
      | crash back => exact .crashed back
    · simp only [ne_eq, not_or, not_not] at early
      refine .inr ⟨text, rfl, early.1, early.2, ?_⟩
      dsimp only
      rcases replace_renamed state text early.1 early.2 with done |
        ⟨stopped, after, halted, place⟩
      · rw [done]
        dsimp only
        split
        · exact .failed (.inr rfl) (.inr rfl)
        · rename_i digest hashed
          exact .done hashed
      · rw [halted]
        cases stopped with
        | error => exact .failed (.inl rfl) place
        | crash back => exact .crashed place

omit [Native] in
/-- A save that does not reach its rename leaves what could be found before. -/
theorem Kept.can {saved : Saved} (kept : Kept s state saved) :
    (∀ x, saved.state.Can x → state.Can x) ∧ (saved.result ≠ none → saved.state = state) := by
  cases kept with
  | refused e => exact ⟨fun _ can => can, fun _ => rfl⟩
  | crashed back =>
    refine ⟨fun x can => ?_, fun never => absurd rfl never⟩
    rw [Cell.can_fail] at can
    exact can ▸ Cell.seen_fail _ _

theorem Renamed.can {saved : Saved} (renamed : Renamed s state text saved) (x : Option File)
    (can : saved.state.Can x) : x = some (finished text) ∨ state.Can x := by
  have places : ∀ after, after = state.put (some (finished text)) ∨
      after = (state.put (some (finished text))).sync → after.Can x →
        x = some (finished text) ∨ state.Can x := by
    rintro after (rfl | rfl) can
    · exact Cell.can_put.mp can
    · exact .inl (Cell.can_sync.mp can)
  cases renamed with
  | done => exact places _ (.inr rfl) can
  | failed _ place => exact places _ place can
  | crashed place =>
    rw [Cell.can_fail] at can
    exact places _ place (can ▸ Cell.seen_fail _ _)

theorem Renamed.seen {saved : Saved} (renamed : Renamed s state text saved)
    (returned : saved.result ≠ none) : saved.state.seen = some (finished text) := by
  cases renamed with
  | done => rfl
  | failed _ place => rcases place with rfl | rfl <;> rfl
  | crashed => exact absurd rfl returned

end Spec

section Steps

variable [Native] {α : Type} {f : Format α} {w w' : World} {r : Answer α}

/-- A save, taken apart. -/
theorem step_save {value : α} {drawn : Except StoreError Unit} {fault : Boundary → Option Fault}
    (step : w.Step f (.save value drawn fault, r) w') :
    ∃ s state, w.store = some s ∧ w.folder = some state ∧
      w'.folder = some (s.saveChecked f state value drawn fault).state ∧
      w'.store = (s.saveChecked f state value drawn fault).store ∧
      r = (match (s.saveChecked f state value drawn fault).result with
        | some result => .saved result
        | none => .crashed) := by
  unfold World.Step World.next at step
  dsimp only at step
  split at step
  · rename_i s state held there
    cases step
    exact ⟨s, state, held, there, rfl, rfl, rfl⟩
  · cases step

/-- Nothing but a save changes what is found; a directory sync makes it safe. -/
theorem step_quiet {c : Call α} (step : w.Step f (c, r) w')
    (quiet : ∀ value drawn fault, c ≠ .save value drawn fault) :
    w'.found = w.found ∧ ∀ x, w'.Can x → w.Can x := by
  have same : w'.folder = w.folder → w'.found = w.found ∧ ∀ x, w'.Can x → w.Can x := by
    intro folder
    simp only [World.found, World.Can, World.state, folder, true_and]
    exact fun _ can => can
  cases c with
  | openStore create =>
    have taken : w.openStore create = (r, w') := Option.some.inj step
    unfold World.openStore at taken
    split at taken
    · cases taken
      exact same rfl
    · rename_i state unheld there
      cases taken
      simp only [World.found, World.Can, World.state, there, Option.getD_some, Cell.seen_sync,
        Cell.can_sync, forall_eq, true_and]
      exact Cell.can_seen
    · rename_i unheld absent
      split at taken <;> cases taken
      · simp only [World.found, World.Can, World.state, absent, Option.getD_some, Option.getD_none,
          true_and]
        exact fun _ can => can
      · exact same rfl
  | load =>
    unfold World.Step World.next at step
    dsimp only at step
    split at step
    · cases step
      exact same rfl
    · cases step
  | save value drawn fault => exact absurd rfl (quiet value drawn fault)
  | drop =>
    unfold World.Step World.next at step
    dsimp only at step
    split at step
    · cases step
      exact same rfl
    · cases step

end Steps

end Innernet.Storage
