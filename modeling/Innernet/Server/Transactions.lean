import Innernet.Server.Ledger
import Innernet.Server.Visibility

/-! The tables refine the ledger. Each transaction of the mailbox is read once here: which step of
the ledger it takes, and that the columns keep repeating what the record says. -/
namespace Innernet

open Fallible Tables Exchange Ledger

namespace Database

def view (db : Database) : Ledger where
  record k := (db.exchanges.lookup k).map ExchangeRow.record
  bundle p := db.bundles.lookup p
  spent x := db.bundleHistory.lookup x ≠ none

/-- The columns of a row repeat its record. -/
def Columns (db : Database) : Prop :=
  ∀ k row, db.exchanges.lookup k = some row → row = row.record.row

/-- Nothing but the rows of `pq_exchanges` differs. -/
def OnlyExchanges (db db' : Database) : Prop := db' = { db with exchanges := db'.exchanges }

/-- No peer with a record can still expire with its invitation. -/
def Redeemed (db : Database) : Prop :=
  ∀ k r, db.view.record k = some r → ∀ p, k.involves p →
    ∃ row, db.peers.lookup p = some row ∧ row.isRedeemed = true

structure Sound [Native] (db : Database) : Prop where
  columns : db.Columns
  ledger : db.view.Inv
  redeemed : db.Redeemed

theorem OnlyExchanges.refl (db : Database) : db.OnlyExchanges db := rfl

theorem OnlyExchanges.trans {db db' db'' : Database} (first : db.OnlyExchanges db')
    (second : db'.OnlyExchanges db'') : db.OnlyExchanges db'' := by
  rw [OnlyExchanges] at *
  rw [second, first]

theorem OnlyExchanges.view {db db' : Database} (only : db.OnlyExchanges db') :
    db'.view = { db.view with record := db'.view.record } := by
  rw [only]
  rfl

theorem Columns.row {db : Database} (columns : db.Columns) {k : ExchangeKey} {row : ExchangeRow}
    (found : db.exchanges.lookup k = some row) : db.exchanges.lookup k = some row.record.row := by
  rw [found, ← columns k row found]

theorem Columns.record {db : Database} (columns : db.Columns) {k : ExchangeKey} {r : Exchange} :
    db.view.record k = some r ↔ db.exchanges.lookup k = some r.row := by
  simp only [Database.view, Option.map_eq_some_iff]
  constructor
  · rintro ⟨row, found, rfl⟩
    exact columns.row found
  · intro found
    exact ⟨r.row, found, rfl⟩

theorem view_none {db : Database} {k : ExchangeKey} :
    db.view.record k = none ↔ db.exchanges.lookup k = none :=
  Option.map_eq_none_iff

section Save

theorem save_ok {db db' : Database} {r : Exchange} (saved : db.save r = .ok db') :
    r.prepareExpiresAt < 2 ^ 63 ∧
      db' = { db with exchanges := db.exchanges.insert r.key r.row } := by
  simp only [save, bind_ok, require_ok, pure_ok] at saved
  obtain ⟨_, soon, _, _, _, _, rfl⟩ := saved
  exact ⟨soon, rfl⟩

theorem save_lookup {db db' : Database} {r : Exchange} (saved : db.save r = .ok db')
    (k : ExchangeKey) :
    db'.exchanges.lookup k = if k = r.key then some r.row else db.exchanges.lookup k := by
  rw [(save_ok saved).2]
  exact lookup_insert_eq _ _ _ _

theorem save_only {db db' : Database} {r : Exchange} (saved : db.save r = .ok db') :
    db.OnlyExchanges db' := by
  rw [(save_ok saved).2]
  rfl

theorem save_columns {db db' : Database} {r : Exchange} (columns : db.Columns)
    (saved : db.save r = .ok db') : db'.Columns := by
  intro k row found
  rw [save_lookup saved] at found
  split at found
  · cases found
    rfl
  · exact columns k row found

theorem save_view {db db' : Database} {r : Exchange} (saved : db.save r = .ok db') :
    db'.view = db.view.put r := by
  rw [(save_only saved).view, Ledger.put]
  have rows : db'.view.record = Function.update db.view.record r.key (some r) := by
    funext k
    change (db'.exchanges.lookup k).map ExchangeRow.record = _
    rw [save_lookup saved, Function.update_apply]
    split <;> rfl
  rw [rows]

/-- A closed record can always be written back. -/
theorem save_closed {db : Database} {r : Exchange} (there : db.exchanges.lookup r.key ≠ none)
    (soon : r.prepareExpiresAt < 2 ^ 63) (terminal : r.decision.terminal = true) :
    ∃ db', db.save r = .ok db' := by
  refine ⟨{ db with exchanges := db.exchanges.insert r.key r.row }, ?_⟩
  simp only [save, bind_ok, require_ok, pure_ok]
  exact ⟨⟨⟩, soon, ⟨⟩, .inl there, ⟨⟩, .inl terminal, trivial⟩

end Save

section Visit

/-- Each row is stored under the key of its record. -/
def Keyed (db : Database) : Prop :=
  ∀ k row, db.exchanges.lookup k = some row → row.record.key = k

theorem save_keyed {db db' : Database} {r : Exchange} (keyed : db.Keyed)
    (saved : db.save r = .ok db') : db'.Keyed := by
  intro k row found
  rw [save_lookup saved] at found
  split at found
  · rename_i same
    cases found
    exact same.symm
  · exact keyed k row found

/-- What a visit does, when each round leaves its record or writes a closed form of it. -/
theorem visit_ok {db db' : Database} {predicate : ExchangeKey → ExchangeRow → Bool}
    {operation : Database → Exchange → Except ServerError Database} (kept : Exchange → Prop)
    (closes : Exchange → Exchange → Prop) (columns : db.Columns) (keyed : db.Keyed)
    (round : ∀ s t r, db.OnlyExchanges s → operation s r = .ok t → (t = s ∧ kept r) ∨
      ∃ r', r'.key = r.key ∧ s.save r' = .ok t ∧ (r.decision.terminal = false → closes r r'))
    (visited : db.visit predicate operation = .ok db') :
    db.OnlyExchanges db' ∧ db'.Columns ∧ db'.Keyed ∧ ∀ k,
      (∀ r, db.exchanges.lookup k = some r.row → r.decision.terminal = false →
        predicate k r.row = true → (kept r ∧ db'.exchanges.lookup k = some r.row) ∨
          ∃ r', closes r r' ∧ db'.exchanges.lookup k = some r'.row) ∧
      ((∀ row, db.exchanges.lookup k = some row → predicate k row = false) →
        db'.exchanges.lookup k = db.exchanges.lookup k) := by
  have loop := foldlM_rows (fun s k => s.exchanges.lookup k)
    (fun s t => s.OnlyExchanges t ∧ (s.Columns → t.Columns) ∧ (s.Keyed → t.Keyed))
    (fun s => ⟨.refl s, id, id⟩)
    (fun s t u a b => ⟨a.1.trans b.1, b.2.1 ∘ a.2.1, b.2.2 ∘ a.2.2⟩)
    (visitRow operation)
    (fun k old new => ∀ r, old = some r.row → r.decision.terminal = false →
      (kept r ∧ new = some r.row) ∨ ∃ r', closes r r' ∧ new = some r'.row) db
    (fun s t k framed done => ?_) (keysWhere predicate db.exchanges) (keysWhere_nodup _ _) db db'
    ⟨.refl db, id, id⟩ visited
  · obtain ⟨⟨only, columns', keyed'⟩, rows⟩ := loop
    refine ⟨only, columns' columns, keyed' keyed, fun k => ⟨fun r found live selected => ?_,
      fun excluded => (rows k).2 fun member => ?_⟩⟩
    · exact (rows k).1 ((mem_keysWhere _ _ _).mpr ⟨_, found, selected⟩) r found live
    · obtain ⟨row, found, selected⟩ := (mem_keysWhere _ _ _).mp member
      rw [excluded row found] at selected
      cases selected
  · unfold visitRow at done
    split at done
    · cases done
    · rename_i row found
      rcases round s t row.record framed.1 done with ⟨rfl, keeps⟩ | ⟨r', key, saved, closed⟩
      · refine ⟨⟨.refl _, id, id⟩, fun r same live => .inl ?_, fun _ _ => rfl⟩
        rw [found] at same
        cases same
        exact ⟨keeps, found⟩
      · have here : r'.key = k := key.trans (framed.2.2 keyed k row found)
        refine ⟨⟨save_only saved, fun c => save_columns c saved, fun c => save_keyed c saved⟩,
          fun r same live => .inr ⟨r', ?_, ?_⟩, fun k' other => ?_⟩
        · rw [found] at same
          cases same
          exact closed live
        · rw [save_lookup saved, if_pos here.symm]
        · rw [save_lookup saved, if_neg fun same => other (same.trans here)]

/-- A visit succeeds when each round does on the records it selects. -/
theorem visit_succeeds {db : Database} {predicate : ExchangeKey → ExchangeRow → Bool}
    {operation : Database → Exchange → Except ServerError Database} (columns : db.Columns)
    (keyed : db.Keyed)
    (round : ∀ s k r, db.OnlyExchanges s → s.exchanges.lookup k = some r.row →
      db.exchanges.lookup k = some r.row → predicate k r.row = true →
      ∃ t, operation s r = .ok t ∧ (t = s ∨ ∃ r', r'.key = r.key ∧ s.save r' = .ok t)) :
    ∃ db', db.visit predicate operation = .ok db' := by
  refine foldlM_succeeds (fun s k => s.exchanges.lookup k) OnlyExchanges .refl
    (fun s t u => OnlyExchanges.trans) _ db (keysWhere predicate db.exchanges)
    (keysWhere_nodup _ _) ?_
  intro s k only member same
  obtain ⟨row, found, selected⟩ := (mem_keysWhere _ _ _).mp member
  have here := columns k row found
  rw [here] at found selected
  rw [found] at same
  obtain ⟨t, done, effect⟩ := round s k row.record only same found selected
  refine ⟨t, by rw [visitRow, same]; exact done, ?_⟩
  rcases effect with rfl | ⟨r', key, saved⟩
  · exact ⟨.refl _, fun _ _ => rfl⟩
  · refine ⟨save_only saved, fun k' other => ?_⟩
    have place : r'.key = k := key.trans (keyed k row.record.row found)
    rw [save_lookup saved, if_neg fun same => other (same.trans place)]

end Visit

/-- Nothing but the rows of `pq_exchanges` and the mark of the last sweep differs. -/
def OnlySwept (db db' : Database) : Prop :=
  db' = { db with
    exchanges := db'.exchanges
    network := { db.network with
      sweptVisibilityRevision := db'.network.sweptVisibilityRevision } }

theorem OnlySwept.refl (db : Database) : db.OnlySwept db := rfl

theorem OnlySwept.trans {db db' db'' : Database} (first : db.OnlySwept db')
    (second : db'.OnlySwept db'') : db.OnlySwept db'' := by
  rw [OnlySwept] at *
  rw [second, first]

theorem OnlyExchanges.swept {db db' : Database} (only : db.OnlyExchanges db') :
    db.OnlySwept db' := by
  rw [only]
  rfl

theorem OnlySwept.view {db db' : Database} (only : db.OnlySwept db') :
    db'.view = { db.view with record := db'.view.record } := by
  rw [only]
  rfl

theorem OnlySwept.directory {db db' : Database} (only : db.OnlySwept db') :
    SameDirectory db db' := by
  rw [only]
  exact ⟨rfl, rfl, rfl⟩

theorem OnlyExchanges.directory {db db' : Database} (only : db.OnlyExchanges db') :
    SameDirectory db db' :=
  only.swept.directory

variable [Native]

theorem Sound.keyed {db : Database} (sound : db.Sound) : db.Keyed :=
  fun k row found => sound.ledger.key k row.record (by simp [Database.view, found])

omit [Native] in
theorem terminated_key (reason : String) (r : Exchange) : (terminated reason r).key = r.key :=
  (compact_fields _).1

omit [Native] in
theorem row_active (r : Exchange) : r.row.active = true ↔ r.decision.terminal = false := by
  simp [Exchange.row]

theorem Sound.settle {db db' : Database} (sound : db.Sound) (only : db.OnlySwept db')
    (columns : db'.Columns)
    (rows : ∀ k, Settled (db.view.record k) (db'.view.record k)) :
    Ledger.Step db.view .settled db'.view ∧ db'.Sound := by
  have step : Ledger.Step db.view .settled db'.view := by
    rw [only.view]
    exact .settle rows
  have peers : db'.peers = db.peers := by rw [only]
  refine ⟨step, columns, sound.ledger.step step, fun k r' found p involved => ?_⟩
  obtain ⟨r, before, -⟩ := (found ▸ rows k).closed
  rw [peers]
  exact sound.redeemed k r before p involved

/-- Every active exchange of the peer is closed by decree; the others are left. -/
theorem terminatePeer_ok {db db' : Database} (sound : db.Sound) {id : Nat} {reason : String}
    (done : db.terminatePeer id reason = .ok db') :
    db.OnlyExchanges db' ∧ db'.Sound ∧ Ledger.Step db.view .settled db'.view ∧
      ∀ k, db'.view.record k = (db.view.record k).map fun r =>
        if r.decision.terminal = false ∧ k.involves id then terminated reason r else r := by
  obtain ⟨only, columns, -, rows⟩ := visit_ok (fun _ => False)
    (fun r r' => r' = terminated reason r) sound.columns sound.keyed
    (fun s t r _ saved => .inr ⟨_, terminated_key reason r, saved, fun _ => rfl⟩) done
  have exact_ : ∀ k, db'.view.record k = (db.view.record k).map fun r =>
      if r.decision.terminal = false ∧ k.involves id then terminated reason r else r := by
    intro k
    cases found : db.view.record k with
    | none =>
      have absent := view_none.mp found
      refine view_none.mpr ?_
      rw [(rows k).2 (by simp [absent]), absent]
    | some r =>
      rw [sound.columns.record] at found
      rw [Option.map_some, columns.record]
      by_cases selected : r.decision.terminal = false ∧ k.involves id
      · rw [if_pos selected]
        rcases (rows k).1 r found selected.1 (by simp [row_active, selected]) with
          ⟨never, _⟩ | ⟨_, rfl, closed⟩
        · exact never.elim
        · exact closed
      · rw [if_neg selected, (rows k).2 ?_, found]
        intro row same
        rw [found] at same
        cases same
        rw [Bool.eq_false_iff, ne_eq, Bool.and_eq_true, row_active, decide_eq_true_eq]
        exact selected
  have settled : ∀ k, Settled (db.view.record k) (db'.view.record k) := by
    intro k
    rw [exact_ k]
    cases db.view.record k with
    | none => exact .inl rfl
    | some r =>
      rw [Option.map_some]
      split
      · rename_i selected
        exact .inr ⟨r, _, rfl, rfl, .decree reason selected.1⟩
      · exact .inl rfl
  obtain ⟨step, sound'⟩ := sound.settle only.swept columns settled
  exact ⟨only, sound', step, exact_⟩

theorem terminatePeer_succeeds {db : Database} (sound : db.Sound) (id : Nat) (reason : String) :
    ∃ db', db.terminatePeer id reason = .ok db' := by
  refine visit_succeeds sound.columns sound.keyed ?_
  intro s k r only there found selected
  have record := sound.columns.record.mpr found
  have key := terminated_key reason r
  have here : r.key = k := sound.ledger.key k r record
  have saves : ∃ t, s.save (terminated reason r) = .ok t := save_closed
    (by rw [key, here, there]; exact Option.some_ne_none _)
    (by rw [terminated, (compact_fields _).2.2.2.2.1]; exact (sound.ledger.formed k r record).expires)
    (by rw [terminated, (compact_fields _).2.1]; exact terminal_aborted _)
  obtain ⟨t, saved⟩ := saves
  exact ⟨t, saved, .inr ⟨_, key, saved⟩⟩

omit [Native] in
theorem pairAllowed_error {db : Database} {first second : Nat} {e : ServerError}
    (refused : db.pairAllowed first second = .error e) : e = .unauthorized ∨ e = .noRows := by
  have missing : ∀ id, db.getPeer id = .error e → e = .noRows := by
    intro id absent
    unfold getPeer at absent
    split at absent <;> cases absent
    rfl
  simp only [pairAllowed, isServer, bind_error, bind_ok, require_error, require_ok] at refused
  rcases refused with ⟨-, same⟩ | ⟨_, -, (absent | ⟨_, _, never⟩) | ⟨_, -, ⟨-, same⟩ | ⟨_, -,
    (absent | ⟨_, _, never⟩) | ⟨_, -, ⟨-, same⟩ | ⟨_, -, absent | ⟨_, -, absent | ⟨_, -, -, same⟩⟩⟩⟩⟩⟩⟩
  · exact .inl same.symm
  · exact .inr (missing _ absent)
  · cases never
  · exact .inl same.symm
  · exact .inr (missing _ absent)
  · cases never
  · exact .inl same.symm
  · exact .inr (missing _ absent)
  · exact .inr (missing _ absent)
  · exact .inl same.symm

omit [Native] in
/-- The record checked against the directory: as it was, or revoked by decree. -/
theorem revoke_ok {db : Database} {changed : Bool} {r r' : Exchange}
    (done : db.revoke changed r = .ok r') :
    (r' = r ∧ (changed = true → db.allowedKey r.key)) ∨ (changed = true ∧ r' = { r with
      decision := { r.decision with phase := .aborted }
      termination := some "revoked" }) := by
  unfold revoke at done
  split at done
  · rename_i changed
    refine (?_ : _ ∨ _)
    split at done <;> cases done
    · rename_i allowed
      exact .inl ⟨rfl, fun _ => allowed⟩
    · exact .inr ⟨changed, rfl⟩
    · exact .inr ⟨changed, rfl⟩
    · exact .inr ⟨changed, rfl⟩
  · rename_i unchanged
    cases done
    exact .inl ⟨rfl, fun changed => absurd changed unchanged⟩

omit [Native] in
theorem revoke_succeeds (db : Database) (changed : Bool) (r : Exchange) :
    ∃ r', db.revoke changed r = .ok r' := by
  unfold revoke
  split
  · split
    · exact ⟨_, rfl⟩
    · exact ⟨_, rfl⟩
    · exact ⟨_, rfl⟩
    · exact ⟨_, rfl⟩
    · rename_i unknown refused
      rcases pairAllowed_error refused with rfl | rfl <;> simp_all
  · exact ⟨_, rfl⟩

omit [Native] in
/-- One round of a sweep leaves a record that is not due and still allowed, or writes a closed form
of it. -/
theorem sweepRecord_ok {s t : Database} {changed : Bool} {now : Nat} {r : Exchange}
    (done : s.sweepRecord changed now r = .ok t) :
    (t = s ∧ ¬ r.Due now ∧ (changed = true → s.allowedKey r.key)) ∨
      ∃ r', r'.key = r.key ∧ s.save r' = .ok t ∧ (r.decision.terminal = false → Closing r r') := by
  simp only [sweepRecord, bind_ok] at done
  obtain ⟨checked, revoked, done⟩ := done
  rcases revoke_ok revoked with ⟨rfl, allowed⟩ | ⟨-, rfl⟩
  · split at done
    · rename_i expired
      split at done
      · rename_i closed
        refine .inr ⟨_, ?_, done, fun live => .expiry ?_⟩
        · exact (compact_fields _).1
        · by_contra late
          rw [Decision.expire, if_neg late, live] at closed
          cases closed
      · rename_i open_
        cases done
        refine .inl ⟨rfl, fun due => open_ ?_, allowed⟩
        rw [expire_early due.1]
        exact terminal_aborted _
    · rename_i early
      split at done
      · rename_i closed
        refine .inr ⟨_, ?_, done, fun live => ?_⟩
        · exact (compact_fields _).1
        · rw [live] at closed
          cases closed
      · cases done
        exact .inl ⟨rfl, fun due => early due.2, allowed⟩
  · have same : ∀ d : Decision, d.phase = .aborted → d.expire = d := by
      intro d phase
      simp [Decision.expire, phase]
    have unchanged : (if r.prepareExpiresAt ≤ now then
        { { r with decision := { r.decision with phase := .aborted }, termination := some "revoked" }
          with decision := Decision.expire { r.decision with phase := .aborted } }
        else { r with decision := { r.decision with phase := .aborted }
                      termination := some "revoked" }) =
        { r with decision := { r.decision with phase := .aborted }
                 termination := some "revoked" } := by
      rw [same _ rfl, ite_self]
    dsimp only at done
    rw [unchanged, if_pos (terminal_aborted _)] at done
    refine .inr ⟨_, ?_, done, fun live => .decree "revoked" live⟩
    exact (compact_fields _).1

omit [Native] in
theorem sweepRecord_succeeds {s : Database} {changed : Bool} {now : Nat} {r : Exchange}
    (there : s.exchanges.lookup r.key ≠ none) (soon : r.prepareExpiresAt < 2 ^ 63) :
    ∃ t, s.sweepRecord changed now r = .ok t ∧
      (t = s ∨ ∃ r', r'.key = r.key ∧ s.save r' = .ok t) := by
  obtain ⟨checked, revoked⟩ := revoke_succeeds s changed r
  have same : checked.key = r.key ∧ checked.prepareExpiresAt = r.prepareExpiresAt := by
    rcases revoke_ok revoked with ⟨rfl, -⟩ | ⟨-, rfl⟩ <;> exact ⟨rfl, rfl⟩
  generalize expired : (if checked.prepareExpiresAt ≤ now then
    { checked with decision := checked.decision.expire } else checked) = final
  have kept : final.key = r.key ∧ final.prepareExpiresAt = r.prepareExpiresAt := by
    rw [← expired]
    split <;> exact same
  obtain ⟨key, decision, -, -, expires, -⟩ := compact_fields final
  by_cases closed : final.decision.terminal = true
  · have saves : ∃ t, s.save final.compact = .ok t := save_closed
      (by rw [key, kept.1]; exact there) (by rw [expires, kept.2]; exact soon)
      (by rw [decision]; exact closed)
    obtain ⟨t, saved⟩ := saves
    refine ⟨t, ?_, .inr ⟨final.compact, key.trans kept.1, saved⟩⟩
    simp only [sweepRecord, bind_ok]
    exact ⟨checked, revoked, by rw [expired, if_pos closed]; exact saved⟩
  · refine ⟨s, ?_, .inl rfl⟩
    simp only [sweepRecord, bind_ok]
    exact ⟨checked, revoked, by rw [expired, if_neg closed]; rfl⟩

/-- The rows a sweep selects: all active ones when visibility has changed, else those due. -/
def swept (changed : Bool) (now : Nat) (row : ExchangeRow) : Bool :=
  row.active && (changed ||
    (decide (row.record.decision.phase = .proposed ∨ row.record.decision.phase = .ready) &&
      decide (row.prepareExpiresAt ≤ now)))

omit [Native] in
theorem swept_row {changed : Bool} {now : Nat} {r : Exchange} :
    swept changed now r.row = true ↔
      r.decision.terminal = false ∧ (changed = true ∨ r.Due now) := by
  simp only [swept, Bool.and_eq_true, Bool.or_eq_true, decide_eq_true_eq, row_active]
  rfl

/-- A sweep closes what is due, may revoke what is active, and touches nothing else. -/
theorem sweepInner_ok {db db' : Database} (sound : db.Sound) {now : Nat}
    (done : db.sweepInner now = .ok db') :
    now < 2 ^ 63 ∧ db.OnlySwept db' ∧ db'.Sound ∧ Ledger.Step db.view .settled db'.view ∧
      (∀ k r, db.view.record k = some r → r.Due now →
        ∃ r', db'.view.record k = some r' ∧ r'.decision.phase = .aborted) ∧
      (∀ k r, db'.view.record k = some r → r.decision.terminal = false →
        db.view.record k = some r ∧ (db.visibilityChanged = true → db'.allowedKey k)) ∧
      db'.visibilityChanged = false := by
  simp only [sweepInner, bind_ok, require_ok, pure_ok] at done
  obtain ⟨_, soon, visited, walk, finished⟩ := done
  obtain ⟨only, columns, -, rows⟩ := visit_ok
    (fun r => ¬ r.Due now ∧ (db.visibilityChanged = true → db.allowedKey r.key)) Closing
    sound.columns sound.keyed (fun s t r same round => (sweepRecord_ok round).imp_left fun left =>
      ⟨left.1, left.2.1, fun changed => same.directory.allowed.mp (left.2.2 changed)⟩) walk
  have same : db'.exchanges = visited.exchanges := by
    rw [← finished]
    split <;> rfl
  have swept_ : db.OnlySwept db' := by
    rw [← finished, only]
    split <;> rfl
  have columns' : db'.Columns := by
    intro k row found
    rw [same] at found
    exact columns k row found
  have row : ∀ k r, db.exchanges.lookup k = some r.row →
      ∃ r', db'.exchanges.lookup k = some r'.row ∧ ((r' = r ∧ ¬ r.Due now ∧
        (r.decision.terminal = false → db.visibilityChanged = true → db.allowedKey r.key)) ∨
          Closing r r') := by
    intro k r found
    rw [same]
    by_cases selected : swept db.visibilityChanged now r.row = true
    · rcases (rows k).1 r found (swept_row.mp selected).1 selected with ⟨⟨keeps, allowed⟩, left⟩ |
        ⟨r', closing, closed⟩
      · exact ⟨r, left, .inl ⟨rfl, keeps, fun _ => allowed⟩⟩
      · exact ⟨r', closed, .inr closing⟩
    · refine ⟨r, ?_, .inl ⟨rfl, fun due => selected (swept_row.mpr ⟨due.live, .inr due⟩),
        fun live changed => absurd (swept_row.mpr ⟨live, .inl changed⟩) selected⟩⟩
      rw [(rows k).2 ?_, found]
      intro other there
      rw [found] at there
      cases there
      exact Bool.eq_false_iff.mpr selected
  have settled : ∀ k, Settled (db.view.record k) (db'.view.record k) := by
    intro k
    cases found : db.view.record k with
    | none =>
      have absent := view_none.mp found
      refine .inl (view_none.mpr ?_)
      rw [same, (rows k).2 (by simp [absent]), absent]
    | some r =>
      obtain ⟨r', there, ⟨rfl, -, -⟩ | closing⟩ := row k r (sound.columns.record.mp found)
      · exact .inl (columns'.record.mpr there)
      · exact .inr ⟨r, r', rfl, columns'.record.mpr there, closing⟩
  obtain ⟨step, sound'⟩ := sound.settle swept_ columns' settled
  have current : db'.visibilityChanged = false := by
    rw [← finished]
    split
    · simp [visibilityChanged]
    · rename_i unchanged
      rw [only]
      exact Bool.eq_false_iff.mpr unchanged
  refine ⟨soon, swept_, sound', step, fun k r found due => ?_, fun k r found live => ?_, current⟩
  · obtain ⟨r', there, ⟨rfl, never, -⟩ | closing⟩ := row k r (sound.columns.record.mp found)
    · exact absurd due never
    · obtain ⟨-, _, rfl, -⟩ := closing.shape
      exact ⟨_, columns'.record.mpr there, rfl⟩
  · obtain ⟨r₀, before, -⟩ := (found ▸ settled k).closed
    obtain ⟨r', there, ⟨rfl, -, allowed⟩ | closing⟩ := row k r₀ (sound.columns.record.mp before)
    · rw [columns'.record] at found
      obtain rfl : r = r' := congrArg ExchangeRow.record (Option.some.inj (found.symm.trans there))
      refine ⟨before, fun changed => swept_.directory.allowed.mpr ?_⟩
      rw [← sound.ledger.key k r before]
      exact allowed live changed
    · rw [columns'.record] at found
      obtain rfl : r = r' := congrArg ExchangeRow.record (Option.some.inj (found.symm.trans there))
      obtain ⟨-, _, rfl, -⟩ := closing.shape
      rw [terminal_aborted] at live
      cases live

theorem sweepInner_succeeds {db : Database} (sound : db.Sound) {now : Nat} (soon : now < 2 ^ 63) :
    ∃ db', db.sweepInner now = .ok db' := by
  have walk : ∃ visited, db.visit (fun _ => swept db.visibilityChanged now) (fun db' record =>
      db'.sweepRecord db.visibilityChanged now record) = .ok visited := by
    refine visit_succeeds sound.columns sound.keyed fun s k r only there found selected => ?_
    have record := sound.columns.record.mpr found
    refine sweepRecord_succeeds ?_ (sound.ledger.formed k r record).expires
    rw [sound.ledger.key k r record, there]
    exact Option.some_ne_none _
  obtain ⟨visited, walked⟩ := walk
  have swept_ : ∃ db', (pure (if db.visibilityChanged = true then { visited with
      network := { visited.network with
        sweptVisibilityRevision := visited.network.visibilityRevision } } else visited) :
      Except ServerError Database) = .ok db' := ⟨_, rfl⟩
  obtain ⟨db', finished⟩ := swept_
  refine ⟨db', ?_⟩
  simp only [sweepInner, bind_ok, require_ok]
  exact ⟨⟨⟩, soon, visited, walked, finished⟩

end Database

end Innernet
