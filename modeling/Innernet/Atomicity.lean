import Innernet.Storage

/-! What the private store promises over whole runs of opens, loads, saves and drops, whatever save
is cut short. -/
namespace Innernet.Storage

open Fallible Durability Runs

variable [Native] {α : Type} {f : Format α} {w w' w₀ : World} {r : Answer α} {c : Call α}
  {ms past : List (Move World (Call α × Answer α))} {s : Store} {text : List UInt8} {value : α}
  {drawn : Except StoreError Unit} {fault : Boundary → Option Fault}

/-- No file, or one whole envelope that a save of the run has made. -/
def Known (f : Format α) (ms : List (Move World (Call α × Answer α))) (x : Option File) : Prop :=
  x = none ∨ ∃ m ∈ ms, ∃ value drawn fault generation text, m.label.1 = .save value drawn fault ∧
    f.toVec ⟨1, generation, value⟩ = some text ∧ x = some (finished text)

/-- The handle has loaded `text` or written it. -/
def Took (text : List UInt8) (m : Move World (Call α × Answer α)) : Prop :=
  m.after.found = some text ∧
    ((∃ value, m.label.2 = .loaded (.ok value)) ∨ m.label.2 = .saved (.ok ()))

def Opened (m : Move World (Call α × Answer α)) : Prop := m.label.2 = .opened

/-- What a rename replaces: nothing, or the text the handle itself took last, one generation
before. -/
def Replaces (f : Format α) (past : List (Move World (Call α × Answer α))) (w : World)
    (text : List UInt8) : Prop :=
  ∃ generation, f.generation text = some (1, generation + 1) ∧
    ((w.found = none ∧ generation = 0) ∨ ∃ old, w.found = some old ∧
      f.generation old = some (1, generation) ∧ Since (Took old) Opened past)

structure Inv (f : Format α) (ms : List (Move World (Call α × Answer α))) (w : World) : Prop where
  known : ∀ x, w.Can x → Known f ms x
  fresh : ∀ s, w.store = some s → s.fresh = true → s.generation = 0
  digest : ∀ s digest, w.store = some s → s.digest = some digest →
    ∃ text, hash text = .ok digest ∧ Since (Took text) Opened ms

omit [Native] in
theorem Known.more {x : Option File} (known : Known f ms x)
    (m : Move World (Call α × Answer α)) : Known f (ms ++ [m]) x := by
  rcases known with none | ⟨m', member, made⟩
  · exact .inl none
  · exact .inr ⟨m', List.mem_append_left _ member, made⟩

omit [Native] in
theorem bytes_ok {state : Option File} : bytes state = .ok text ↔
    ∃ file, state = some file ∧ file.seen = text ∧ text.length ≠ 0 ∧ text.length ≤ maxBytes := by
  cases state with
  | none => simp [bytes]
  | some file =>
    simp only [bytes, Option.some.injEq, exists_eq_left']
    split
    · rename_i bad
      refine ⟨fun never => (nomatch never), ?_⟩
      rintro ⟨rfl, nonempty, short⟩
      rcases bad with empty | long
      · exact absurd empty nonempty
      · exact absurd long (Nat.not_lt.mpr short)
    · rename_i good
      rw [not_or, Nat.not_lt] at good
      constructor
      · intro same
        cases same
        exact ⟨rfl, good.1, good.2⟩
      · rintro ⟨rfl, -, -⟩
        rfl

/-- A save that gets to write has made its envelope, over nothing or over what its digest is of. -/
theorem prepare_ok {state : Option File} (prepared : s.prepare f state value drawn = .ok text) :
    f.toVec ⟨1, s.generation + 1, value⟩ = some text ∧ text.length ≤ maxBytes ∧
      ((s.fresh = true ∧ state = none) ∨ ∃ file digest, state = some file ∧
        f.generation file.seen = some (1, s.generation) ∧ hash file.seen = .ok digest ∧
        s.digest = some digest) := by
  simp only [Store.prepare, bind_ok, require_ok, orCorrupt_ok, pure_ok] at prepared
  obtain ⟨_, _, _, checked, _, written, _, short, _, _, rfl⟩ := prepared
  refine ⟨written, short, ?_⟩
  unfold Store.check at checked
  split at checked
  · rename_i fresh
    split at checked
    · exact .inl ⟨fresh, rfl⟩
    · cases checked
  · simp only [bind_ok, bytes_ok, orCorrupt_ok, require_ok] at checked
    obtain ⟨_, ⟨file, rfl, rfl, _⟩, ⟨version, generation⟩, headed, _, _, _, rfl, _, rfl, digest,
      hashed, same⟩ := checked
    exact .inr ⟨file, digest, rfl, headed, hashed, same⟩

omit [Native] in
theorem read_ok {state : Option File} {e : Envelope α} : read f state = .ok (text, e) ↔
    bytes state = .ok text ∧ f.version text = some 1 ∧ f.envelope text = some e ∧
      e.generation ≠ 0 := by
  simp only [read, bind_ok, orCorrupt_ok, require_ok, pure_ok, Prod.mk.injEq]
  constructor
  · rintro ⟨_, opened, version, headed, _, _, _, rfl, _, parsed, _, later, rfl, rfl⟩
    exact ⟨opened, headed, parsed, later⟩
  · rintro ⟨opened, headed, parsed, later⟩
    exact ⟨text, opened, 1, headed, ⟨⟩, le_rfl, ⟨⟩, rfl, e, parsed, ⟨⟩, later, rfl, rfl⟩

/-- A load that fails may have moved the handle on, but has taken nothing. -/
theorem load_cases (f : Format α) (s : Store) (state : Option File) :
    (∃ e, (s.load f state).1 = .error e ∧ (s.load f state).2.digest = s.digest ∧
      ((s.load f state).2.fresh = true → (s.load f state).2 = s)) ∨
    ∃ text e digest, read f state = .ok (text, e) ∧ hash text = .ok digest ∧
      s.load f state = (.ok e.value, ⟨e.generation, false, some digest⟩) := by
  unfold Store.load
  cases opened : read f state with
  | error e => exact .inl ⟨e, rfl, rfl, fun _ => rfl⟩
  | ok pair =>
    obtain ⟨text, e⟩ := pair
    cases hashed : hash text with
    | error e =>
      refine .inl ⟨e, ?_⟩
      simp [hashed]
    | ok digest =>
      refine .inr ⟨text, e, digest, rfl, hashed, ?_⟩
      simp [hashed]

omit [Native] in
theorem found_of {state : Cell (Option File)} (there : w.folder = some state) :
    w.found = state.seen.map Cell.seen ∧ ∀ x, w.Can x ↔ state.Can x := by
  simp [World.found, World.Can, World.state, there]

theorem Inv.save (inv : Inv f ms w) (step : w.Step f (.save value drawn fault, r) w') :
    Inv f (ms ++ [⟨w, (.save value drawn fault, r), w'⟩]) w' := by
  obtain ⟨s, state, held, there, folder, store, answer⟩ := step_save step
  have before := (found_of there).2
  have after := found_of folder
  have unopened : ¬ Opened (⟨w, (.save value drawn fault, r), w'⟩ :
      Move World (Call α × Answer α)) := by
    change r ≠ .opened
    rw [answer]
    split <;> simp
  -- a handle that keeps its digest keeps what it took
  have keeps : ∀ (s' : Store) digest, s'.digest = s.digest → s'.digest = some digest →
      ∃ text, hash text = .ok digest ∧
        Since (Took text) Opened (ms ++ [⟨w, (.save value drawn fault, r), w'⟩]) := by
    intro s' digest same taken
    obtain ⟨text, hashed, since⟩ := inv.digest s digest held (same ▸ taken)
    exact ⟨text, hashed, since.later unopened⟩
  rcases saveChecked_cases f s state value drawn fault with ⟨kept, -⟩ | ⟨text, prepared, -, -, renamed⟩
  all_goals
    generalize s.saveChecked f state value drawn fault = saved at *
  · refine ⟨fun x can => ?_, fun s' found => ?_, fun s' digest found taken => ?_⟩
    · exact (inv.known x ((before x).mpr (kept.can.1 x ((after.2 x).mp can)))).more _
    · rw [store] at found
      cases kept with
      | refused e => exact Option.some.inj found ▸ inv.fresh s held
      | crashed back => cases found
    · rw [store] at found
      cases kept with
      | refused e => exact keeps s' digest (congrArg _ (Option.some.inj found).symm) taken
      | crashed back => cases found
  · obtain ⟨written, -, -⟩ := prepare_ok prepared
    refine ⟨fun x can => ?_, fun s' found => ?_, fun s' digest found taken => ?_⟩
    · rcases renamed.can x ((after.2 x).mp can) with new | old
      · exact .inr ⟨_, List.mem_append_right _ (List.mem_singleton_self _), value, drawn, fault, _,
          text, rfl, written, new⟩
      · exact (inv.known x ((before x).mpr old)).more _
    · rw [store] at found
      cases renamed with
      | done => cases found; simp
      | failed handle =>
        cases found
        rcases handle with rfl | rfl
        · exact inv.fresh s' held
        · simp
      | crashed => cases found
    · rw [store] at found
      cases renamed with
      | done hashed =>
        cases found
        cases taken
        refine ⟨text, hashed, Since.now ⟨?_, .inr answer⟩⟩
        rw [after.1]
        rfl
      | failed handle =>
        cases found
        refine keeps s' digest ?_ taken
        rcases handle with rfl | rfl <;> rfl
      | crashed => cases found

theorem Inv.step (inv : Inv f ms w) (step : w.Step f (c, r) w') :
    Inv f (ms ++ [⟨w, (c, r), w'⟩]) w' := by
  cases c with
  | save value drawn fault => exact inv.save step
  | openStore create =>
    have known := fun x can => (inv.known x ((step_quiet step (by simp)).2 x can)).more
      ⟨w, (.openStore create, r), w'⟩
    have taken : w.openStore create = (r, w') := Option.some.inj step
    unfold World.openStore at taken
    split at taken
    · rename_i s held
      cases taken
      refine ⟨known, fun s' found => inv.fresh s' found, fun s' digest found taken => ?_⟩
      obtain ⟨text, hashed, since⟩ := inv.digest s' digest found taken
      exact ⟨text, hashed, since.later (by simp [Opened])⟩
    · cases taken
      refine ⟨known, fun s' found => ?_, fun s' digest found taken => ?_⟩
      · cases found
        exact fun never => by cases never
      · cases found
        cases taken
    · rename_i unheld absent
      split at taken <;> cases taken
      · refine ⟨known, fun s' found _ => ?_, fun s' digest found taken => ?_⟩
        · cases found
          rfl
        · cases found
          cases taken
      · refine ⟨known, fun s' found => inv.fresh s' found, fun s' digest found => ?_⟩
        rw [unheld] at found
        cases found
  | load =>
    have known := fun x can => (inv.known x ((step_quiet step (by simp)).2 x can)).more
      ⟨w, (.load, r), w'⟩
    unfold World.Step World.next at step
    dsimp only at step
    split at step
    · rename_i s state held there
      cases step
      refine ⟨known, fun s' found fresh => ?_, fun s' digest found taken => ?_⟩
      all_goals
        cases found
      · rcases load_cases f s state.seen with ⟨e, -, -, same⟩ | ⟨_, _, _, -, -, done⟩
        · have unmoved := same fresh
          rw [unmoved] at fresh ⊢
          exact inv.fresh s held fresh
        · rw [done] at fresh
          cases fresh
      · rcases load_cases f s state.seen with ⟨e, failed, same, -⟩ | ⟨text, e, d, opened, hashed, done⟩
        · obtain ⟨text, hashed, since⟩ := inv.digest s digest held (same ▸ taken)
          exact ⟨text, hashed, since.later (by simp [Opened])⟩
        · rw [done] at taken
          cases taken
          refine ⟨text, hashed, Since.now ⟨?_, .inl ⟨e.value, by rw [done]⟩⟩⟩
          obtain ⟨file, there', same, -⟩ := bytes_ok.mp (read_ok.mp opened).1
          change World.found { w with store := _ } = _
          simp [World.found, World.state, there, there', same]
    · cases step
  | drop =>
    have known := fun x can => (inv.known x ((step_quiet step (by simp)).2 x can)).more
      ⟨w, (.drop, r), w'⟩
    unfold World.Step World.next at step
    dsimp only at step
    split at step
    · cases step
      exact ⟨known, fun s' found => (by cases found), fun s' digest found => (by cases found)⟩
    · cases step

/-- No handle, and no `state.json` to be found. -/
structure World.Bare (w : World) : Prop where
  store : w.store = none
  empty : ∀ x, w.Can x → x = none

theorem Inv.reached (bare : w₀.Bare) (run : Run (World.Step f) w₀ ms w) : Inv f ms w := by
  induction run with
  | start =>
    refine ⟨fun x can => .inl (bare.empty x can), fun s found => ?_, fun s digest found => ?_⟩
    all_goals
      rw [bare.store] at found
      cases found
  | move run step ih => exact ih.step step

theorem hash_ok {digest : Binary 32} :
    hash text = .ok digest ↔ Native.pqHash text = some digest := by
  unfold hash Crypto.hash
  cases hashed : Native.pqHash text <;> simp [invoke, Except.toOption]

/-- A rename replaces what the handle took itself, and counts one generation on. -/
theorem Inv.replaces (faithful : f.Faithful) (free : Native.CollisionFree) (inv : Inv f ms w)
    (renames : w.Renames f c text) : Replaces f ms w text := by
  obtain ⟨value, drawn, fault, s, state, -, held, there, prepared, -, -⟩ := renames
  obtain ⟨written, -, covered⟩ := prepare_ok prepared
  refine ⟨s.generation, faithful.generation _ _ written, ?_⟩
  have found := (found_of there).1
  rcases covered with ⟨fresh, absent⟩ | ⟨file, digest, present, headed, hashed, same⟩
  · rw [absent] at found
    exact .inl ⟨found, inv.fresh s held fresh⟩
  · rw [present] at found
    obtain ⟨old, hashed', since⟩ := inv.digest s digest held same
    have equal : old = file.seen := free _ _ _ (hash_ok.mp hashed') (hash_ok.mp hashed)
    exact .inr ⟨file.seen, found, headed, equal ▸ since⟩

/-- What a call makes of `state.json`. -/
theorem step_moves (step : w.Step f (c, r) w') :
    (∀ x, w'.Can x → w.Can x ∨ ∃ text, w.Renames f c text ∧ x = some (finished text)) ∧
      (r = .crashed ∨ w'.found = w.found ∨
        ∃ text, w.Renames f c text ∧ w'.found = some text) := by
  by_cases saving : ∃ value drawn fault, c = .save value drawn fault
  · obtain ⟨value, drawn, fault, rfl⟩ := saving
    obtain ⟨s, state, held, there, folder, -, answer⟩ := step_save step
    have before := found_of there
    have after := found_of folder
    rcases saveChecked_cases f s state value drawn fault with ⟨kept, -⟩ |
      ⟨text, prepared, early, late, renamed⟩
    all_goals
      generalize s.saveChecked f state value drawn fault = saved at *
    · refine ⟨fun x can => .inl ((before.2 x).mpr (kept.can.1 x ((after.2 x).mp can))), ?_⟩
      cases kept with
      | refused e => exact .inr (.inl (after.1.trans before.1.symm))
      | crashed back => exact .inl answer
    · have renames : w.Renames f (.save value drawn fault) text :=
        ⟨value, drawn, fault, s, state, rfl, held, there, prepared, early, late⟩
      refine ⟨fun x can => ?_, ?_⟩
      · rcases renamed.can x ((after.2 x).mp can) with new | old
        · exact .inr ⟨text, renames, new⟩
        · exact .inl ((before.2 x).mpr old)
      · cases result : saved.result with
        | none =>
          rw [result] at answer
          exact .inl answer
        | some result' =>
          refine .inr (.inr ⟨text, renames, ?_⟩)
          rw [after.1, renamed.seen (by simp [result])]
          rfl
  · have quiet := step_quiet step fun value drawn fault same => saving ⟨value, drawn, fault, same⟩
    exact ⟨fun x can => .inl (quiet.2 x can), .inr (.inl quiet.1)⟩

/-- The value is safe on disk: nothing but its envelope can be found, and that reads back. -/
def Safe (f : Format α) (value : α) (w : World) : Prop :=
  ∃ generation text digest, (∀ x, w.Can x → x = some (finished text)) ∧
    f.toVec ⟨1, generation + 1, value⟩ = some text ∧ text.length ≤ maxBytes ∧
    hash text = .ok digest

theorem Safe.saved (step : w.Step f (.save value drawn fault, .saved (.ok ())) w') :
    Safe f value w' := by
  obtain ⟨s, state, held, there, folder, -, answer⟩ := step_save step
  have after := (found_of folder).2
  rcases saveChecked_cases f s state value drawn fault with ⟨kept, -⟩ |
    ⟨text, prepared, -, -, renamed⟩
  all_goals
    generalize s.saveChecked f state value drawn fault = saved at *
  · cases kept <;> cases answer
  · obtain ⟨written, short, -⟩ := prepare_ok prepared
    cases renamed with
    | @done digest hashed =>
      refine ⟨s.generation, text, digest, fun x can => ?_, written, short, hashed⟩
      exact Cell.can_sync.mp ((after x).mp can)
    | failed => cases answer
    | crashed => cases answer

theorem Safe.step (safe : Safe f value w) (step : w.Step f (c, r) w')
    (kept : ∀ text, ¬ w.Renames f c text) : Safe f value w' := by
  obtain ⟨generation, text, digest, only, rest⟩ := safe
  refine ⟨generation, text, digest, fun x can => ?_, rest⟩
  rcases (step_moves step).1 x can with old | ⟨text', renames, -⟩
  · exact only x old
  · exact absurd renames (kept text')

theorem Safe.load (faithful : f.Faithful) (safe : Safe f value w)
    (step : w.Step f (.load, r) w') : r = .loaded (.ok value) := by
  obtain ⟨generation, text, digest, only, written, short, hashed⟩ := safe
  unfold World.Step World.next at step
  dsimp only at step
  split at step
  · rename_i s state held there
    cases step
    have seen : state.seen = some (finished text) :=
      only _ (((found_of there).2 _).mpr Cell.can_seen)
    have opened : read f state.seen = .ok (text, ⟨1, generation + 1, value⟩) := by
      refine read_ok.mpr ⟨bytes_ok.mpr ⟨_, seen, rfl, ?_, short⟩, faithful.version _ _ written,
        faithful.envelope _ _ written, Nat.succ_ne_zero _⟩
      exact fun empty => faithful.nonempty _ _ written (List.length_eq_zero_iff.mp empty)
    rcases load_cases f s state.seen with ⟨e, failed, -⟩ | ⟨text', e, digest', opened', -, done⟩
    · unfold Store.load at failed
      rw [opened] at failed
      dsimp only at failed
      rw [hashed] at failed
      cases failed
    · rw [opened] at opened'
      cases opened'
      rw [done]
  · cases step

/-- Over any run of opens, loads, saves and drops, with saves cut short at any boundary:
`state.json` is absent or one whole envelope of some save; each rename counts one generation on and
replaces only what its handle took itself; what a save has answered `Ok` to is what is loaded until
the next rename; and a save that fails leaves the old contents or the new. -/
theorem saves_atomic (faithful : f.Faithful) (free : Native.CollisionFree) (bare : w₀.Bare)
    (run : Run (World.Step f) w₀ ms w) :
    (∀ x, w.Can x → Known f ms x) ∧
    (∀ past m rest, ms = past ++ m :: rest →
      (∀ x, m.after.Can x → m.before.Can x ∨
        ∃ text, m.before.Renames f m.label.1 text ∧ x = some (finished text)) ∧
      (m.label.2 = .crashed ∨ m.after.found = m.before.found ∨
        ∃ text, m.before.Renames f m.label.1 text ∧ m.after.found = some text) ∧
      ∀ text, m.before.Renames f m.label.1 text → Replaces f past m.before text) ∧
    (∀ past m rest value drawn fault, ms = past ++ m :: rest →
      m.label = (.save value drawn fault, .saved (.ok ())) →
      (∀ m' ∈ rest, ∀ text, ¬ m'.before.Renames f m'.label.1 text) →
      ∀ r w', w.Step f (.load, r) w' → r = .loaded (.ok value)) ∧
    ∀ past m rest value drawn fault e, ms = past ++ m :: rest →
      m.label = (.save value drawn fault, .saved (.error e)) →
      (∀ m' ∈ rest, ∀ value drawn fault, m'.label.1 ≠ .save value drawn fault) →
      w.found = m.before.found ∨
        ∃ text, m.before.Renames f m.label.1 text ∧ w.found = some text := by
  refine ⟨(Inv.reached bare run).known, ?_, ?_, ?_⟩
  · intro past m rest whole
    obtain ⟨prior, step, -⟩ := (whole ▸ run).between
    obtain ⟨left, moved⟩ := step_moves step
    exact ⟨left, moved, fun text => (Inv.reached bare prior).replaces faithful free⟩
  · intro past m rest value drawn fault whole saved unreplaced r w' loading
    obtain ⟨-, step, later⟩ := (whole ▸ run).between
    rw [saved] at step
    have safe : Safe f value w := by
      refine later.guarded (Safe.saved step) ?_ unreplaced
      exact fun _ _ _ safe step kept => safe.step step kept
    exact safe.load faithful loading
  · intro past m rest value drawn fault e whole failed quiet
    obtain ⟨-, step, later⟩ := (whole ▸ run).between
    have still : w.found = m.after.found := by
      refine later.guarded (P := fun w => w.found = m.after.found) rfl ?_ quiet
      exact fun _ _ _ same step quiet => (step_quiet step quiet).1.trans same
    have uncrashed : m.label.2 ≠ .crashed := by
      rw [failed]
      exact fun never => nomatch never
    rw [still]
    exact (step_moves step).2.resolve_left uncrashed

end Innernet.Storage

namespace Innernet

open Durability Runs Storage

namespace Arithmetic

/-- `{"version":1,"generation":g,"value":v}` for two digits. -/
def envelope (g v : UInt8) : List UInt8 :=
  [123, 34, 118, 101, 114, 115, 105, 111, 110, 34, 58, 49, 44, 34, 103, 101, 110, 101, 114, 97, 116,
    105, 111, 110, 34, 58, 48 + g, 44, 34, 118, 97, 108, 117, 101, 34, 58, 48 + v, 125]

/-- The two envelopes of the sample as `serde_json` writes and reads them. -/
def format : Format Nat where
  toVec e :=
    if e = ⟨1, 1, 7⟩ then some (envelope 1 7) else if e = ⟨1, 2, 8⟩ then some (envelope 2 8) else none
  version text := if text = envelope 1 7 ∨ text = envelope 2 8 then some 1 else none
  generation text :=
    if text = envelope 1 7 then some (1, 1) else if text = envelope 2 8 then some (1, 2) else none
  envelope text :=
    if text = envelope 1 7 then some ⟨1, 1, 7⟩ else if text = envelope 2 8 then some ⟨1, 2, 8⟩
    else none

theorem format_faithful : format.Faithful := by
  have written : ∀ e text, format.toVec e = some text →
      (e = ⟨1, 1, 7⟩ ∧ text = envelope 1 7) ∨ (e = ⟨1, 2, 8⟩ ∧ text = envelope 2 8) := by
    intro e text made
    unfold format at made
    dsimp only at made
    split_ifs at made with first second
    · exact .inl ⟨first, (Option.some.inj made).symm⟩
    · exact .inr ⟨second, (Option.some.inj made).symm⟩
  constructor
  all_goals
    intro e text made
    rcases written e text made with ⟨rfl, rfl⟩ | ⟨rfl, rfl⟩ <;> decide

@[reducible] def digesting : Native where
  __ := native
  pqHash data := if data = envelope 1 7 then some 1 else if data = envelope 2 8 then some 2 else none

theorem digesting_collisionFree : @Native.CollisionFree digesting :=
  fun _ _ _ found found' => paired_injective found found'

def untouched : Boundary → Option Fault := fun _ => none

/-- The directory sync after the rename fails. -/
def unsynced : Boundary → Option Fault
  | .afterRename => some .error
  | _ => none

end Arithmetic

open Arithmetic

/-- A second save fails after its rename: the new contents are there, and they are whole. -/
theorem Storage.saves_atomic_unsynced : ∃ ms w,
    Run (@World.Step digesting _ format) ⟨none, none⟩ ms w ∧
      (ms.map fun m => m.label.2) = [.opened, .saved (.ok ()), .saved (.error .io)] ∧
      w.found = some (envelope 2 8) ∧ ∀ x, w.Can x → Known format ms x := by
  let _ := digesting
  have opened : World.Step format ⟨none, none⟩ (.openStore true, .opened)
      ⟨some (Cell.stable none), some ⟨0, true, none⟩⟩ := by
    decide +kernel
  have first : World.Step format ⟨some (Cell.stable none), some ⟨0, true, none⟩⟩
      (.save 7 (.ok ()) untouched, .saved (.ok ()))
      ⟨some (Cell.stable (some (finished (envelope 1 7)))), some ⟨1, false, some 1⟩⟩ := by
    decide +kernel
  have second : World.Step format
      ⟨some (Cell.stable (some (finished (envelope 1 7)))), some ⟨1, false, some 1⟩⟩
      (.save 8 (.ok ()) unsynced, .saved (.error .io))
      ⟨some ((Cell.stable (some (finished (envelope 1 7)))).put (some (finished (envelope 2 8)))),
        some ⟨1, false, some 1⟩⟩ := by
    decide +kernel
  have run := ((Run.start.move opened).move first).move second
  have bare : World.Bare ⟨none, none⟩ := ⟨rfl, fun x can => Cell.can_stable.mp can⟩
  exact ⟨_, _, run, rfl, rfl, (saves_atomic format_faithful digesting_collisionFree bare run).1⟩

end Innernet
