import Innernet.Arithmetic
import Innernet.Server.History
import Innernet.Server.Laws

/-! What the mailbox promises over whole runs of the server. -/
namespace Innernet

open Fallible Tables Runs Exchange Ledger

/-- The rows of `pq_exchanges` among themselves, with their columns and with `pq_bundles`. -/
structure Database.Consistent [Native] (db : Database) : Prop where
  single : ∀ k k' row row', db.exchanges.lookup k = some row → db.exchanges.lookup k' = some row' →
    (k.initiatorId = k'.initiatorId ∧ k.responderId = k'.responderId) ∨
      (k.initiatorId = k'.responderId ∧ k.responderId = k'.initiatorId) → k = k'
  current : ∀ k row, db.exchanges.lookup k = some row →
    ∃ a b, db.bundles.lookup k.initiatorId = some a ∧ db.bundles.lookup k.responderId = some b ∧
      a.bundle.bundleId = k.initiatorBundleId ∧ b.bundle.bundleId = k.responderBundleId
  columns : ∀ k row, db.exchanges.lookup k = some row → row.record.key = k ∧
    row.sequence = row.record.sequence ∧ row.prepareExpiresAt = row.record.prepareExpiresAt
  active : ∀ k row, db.exchanges.lookup k = some row →
    (row.active = true ↔ row.record.decision.terminal = false)
  compacted : ∀ k row, db.exchanges.lookup k = some row → row.record.decision.terminal = true →
    row.record.transcript = none ∧ row.record.messages = []
  bodies : ∀ k row, db.exchanges.lookup k = some row → row.record.decision.terminal = false →
    ∃ t, row.record.Bodies t
  receipts : ∀ k row, db.exchanges.lookup k = some row →
    (row.record.receipts.map fun d => (d.senderId, d.messageType)).Nodup

theorem Database.Sound.consistent [Native] {db : Database} (sound : db.Sound) : db.Consistent := by
  have stored : ∀ {k row}, db.exchanges.lookup k = some row →
      db.view.record k = some row.record ∧ row = row.record.row :=
    fun found => ⟨sound.columns.record.mpr (sound.columns.row found), sound.columns _ _ found⟩
  have ordered : ∀ {k row}, db.exchanges.lookup k = some row → k.initiatorId < k.responderId := by
    intro k row found
    rw [← sound.keyed k row found]
    exact (Number.lt_def _ _).mp (sound.ledger.formed k _ (stored found).1).ordered
  constructor
  · intro k k' row row' found found' pair
    rcases pair with ⟨initiator, responder⟩ | ⟨initiator, responder⟩
    · exact sound.ledger.single (stored found).1 (stored found').1 initiator responder
    · have less := ordered found
      have less' := ordered found'
      omega
  · intro k row found
    obtain ⟨_, ⟨a, held, -, rfl⟩, same⟩ := sound.ledger.initiator k _ (stored found).1
    obtain ⟨_, ⟨b, held', -, rfl⟩, same'⟩ := sound.ledger.responder k _ (stored found).1
    exact ⟨a, b, held, held', same, same'⟩
  · intro k row found
    have columns := (stored found).2
    exact ⟨sound.keyed k row found, congrArg _ columns, congrArg _ columns⟩
  · intro k row found
    rw [(stored found).2]
    exact row_active row.record
  · exact fun k row found => (sound.ledger.formed k _ (stored found).1).compacted
  · exact fun k row found => (sound.ledger.formed k _ (stored found).1).live
  · exact fun k row found => (sound.ledger.formed k _ (stored found).1).single

/-- The mailbox tables agree with themselves in every database a server reaches. -/
theorem Database.reached_consistent [Native] {db₀ db : Database}
    {ms : List (Move Database Operation)} (unused : db₀.Unused)
    (run : Run Operation.Step db₀ ms db) : db.Consistent :=
  (Sound.reached unused run).consistent

section Sample

open Arithmetic

theorem Arithmetic.site_unused : site.Unused := ⟨rfl, rfl, rfl⟩

theorem Arithmetic.served_run (ops : List Operation) :
    ∃ ms, Run (@Operation.Step native) site ms (served ops) :=
  @Operation.runs native ops site

theorem Database.reached_consistent_proposed :
    rows (served (registrations ++ proposes first 5 20)) = [(first, 5, .proposed)] ∧
      @Database.Consistent native (served (registrations ++ proposes first 5 20)) := by
  obtain ⟨ms, run⟩ := served_run (registrations ++ proposes first 5 20)
  exact ⟨by decide +kernel, @Database.reached_consistent native _ _ _ site_unused run⟩

end Sample

/-- The sequence of the record a move opens under two bundles. -/
def opened [Native] (initiator responder : Binary 16) (m : Move Database Operation) :
    Option Number :=
  ((m.label.opens m.before).filter fun r =>
    r.initiatorBundleId = initiator ∧ r.responderBundleId = responder).map Exchange.sequence

/-- Under two bundle ids the accepted proposals rise in sequence, and an exchange that is over
stays over: no live record under its sequence comes back, whatever the exchange id. -/
theorem Database.sequences_consumed [Native] {db₀ db : Database}
    {ms : List (Move Database Operation)} (unused : db₀.Unused)
    (run : Run Operation.Step db₀ ms db) (initiator responder : Binary 16) :
    (ms.filterMap (opened initiator responder)).Pairwise (· < ·) ∧
      ∀ m ∈ ms, ∀ k row, m.before.exchanges.lookup k = some row →
        k.initiatorBundleId = initiator → k.responderBundleId = responder →
        row.record.decision.terminal = true →
        ∀ k' row', db.exchanges.lookup k' = some row' → k'.initiatorBundleId = initiator →
          k'.responderBundleId = responder → row.record.sequence ≤ row'.record.sequence ∧
            (row'.record.sequence = row.record.sequence →
              row'.record.exchangeId = row.record.exchangeId ∧
                row'.record.decision.terminal = true) := by
  constructor
  · obtain ⟨moves, steps, records, -⟩ := (Operation.history unused.sound run).run
    have rise := Ledger.Run.sequences unused.sound.ledger steps initiator responder
    have same : ms.filterMap (opened initiator responder) =
        moves.filterMap fun m => m.label.sequence initiator responder := by
      have split : (fun m : Move Ledger Event => m.label.sequence initiator responder) =
          fun m => (m.label.created.filter fun r => r.initiatorBundleId = initiator ∧
            r.responderBundleId = responder).map Exchange.sequence := by
        funext m
        cases m.label with
        | opened r message =>
          simp only [Event.sequence, Event.created, Option.filter_some, decide_eq_true_eq]
          split <;> rfl
        | settled => rfl
        | continued r message => rfl
        | rebundled id => rfl
        | dropped => rfl
      have outer : ∀ {α} (f : α → Option Exchange) (l : List α),
          (l.filterMap fun a => ((f a).filter fun r => r.initiatorBundleId = initiator ∧
            r.responderBundleId = responder).map Exchange.sequence) =
          ((l.filterMap f).filter fun r => r.initiatorBundleId = initiator ∧
            r.responderBundleId = responder).map Exchange.sequence := by
        intro α f l
        rw [List.filter_filterMap, List.map_filterMap]
      rw [split, outer, records, ← outer]
      rfl
    rw [same]
    exact rise
  · intro m member k row found under under' ended k' row' found' initiates responds
    obtain ⟨taken, past, rest, whole, prior⟩ := run.reached m member
    have sound := Sound.reached unused prior
    have later := Operation.history sound ((Run.start.move taken).append (whole ▸ run).between.2.2)
    obtain ⟨moves, steps, -⟩ := later.run
    have before := sound.columns.record.mpr (sound.columns.row found)
    have after := later.sound.columns.record.mpr (later.sound.columns.row found')
    have spent : m.before.view.Keeps initiator responder
        (Over row.record.sequence row.record.exchangeId) :=
      .inr (.inr ⟨k, row.record, before, under, under', .inr ⟨rfl, rfl, ended⟩⟩)
    have kept := Ledger.Run.keeps sound.ledger steps Over.evolves Over.newer spent
    rw [← initiates, ← responds] at kept
    rcases kept.here later.sound.ledger after with above | ⟨same, sameId, ended'⟩
    · exact ⟨above.le, fun same => absurd same above.ne'⟩
    · exact ⟨same.ge, fun _ => ⟨sameId, ended'⟩⟩

section Sample

open Arithmetic

/-- A proposal, its expiry, and a proposal of the same exchange id under the next sequence. -/
def Arithmetic.reuse : List Operation :=
  registrations ++ proposes first 5 20 ++ [.sweep 700] ++ proposes second 5 710

theorem Database.sequences_consumed_reuse : ∃ ms,
    Run (@Operation.Step native) site ms (served reuse) ∧
      (ms.filterMap (@opened native 2 3)).Pairwise (· < ·) := by
  obtain ⟨ms, run⟩ := served_run reuse
  exact ⟨ms, run, (@Database.sequences_consumed native _ _ _ site_unused run 2 3).1⟩

theorem Database.exchange_id_reopened :
    rows (served (registrations ++ proposes first 5 20 ++ [.sweep 700])) = [(first, 5, .aborted)] ∧
      rows (served reuse) = [(second, 5, .proposed)] := by
  decide +kernel

end Sample

section Expiry

variable [Native]

omit [Native] in
/-- A write works on the swept tables, and a refused one leaves them. -/
theorem Database.write_swept {α : Type} {db swept : Database} {now : Nat}
    {operation : Database → Except ServerError (α × Database)}
    (done : db.sweepInner now = .ok swept) :
    (∀ e, (db.write now operation).1 = .error e → (db.write now operation).2 = swept) ∧
      ∀ a, (db.write now operation).1 = .ok a →
        operation swept = .ok (a, (db.write now operation).2) := by
  unfold Database.write
  rw [done]
  dsimp only
  split
  · exact ⟨fun _ _ => rfl, fun a never => by cases never⟩
  · rename_i a written accepted
    refine ⟨fun e never => ?_, fun b same => ?_⟩
    · cases never
    · cases same
      exact accepted

/-- The requests at `now` work on the swept tables: a refused one leaves them, and a read that
answers has read them and leaves them. -/
structure Database.Serves (db swept : Database) (now : Nat) : Prop where
  refused : ∀ id key other message limits size e,
    (db.submit id key other message limits size now).1 = .error e →
      (db.submit id key other message limits size now).2 = swept
  accepted : ∀ id key other message limits size r,
    (db.submit id key other message limits size now).1 = .ok r →
      swept.submitInner id key other message limits size now =
        .ok (r, (db.submit id key other message limits size now).2)
  read : ∀ {α : Type} id key (walk : PeerRow → Database → Except ServerError α) a,
    (db.page id key now walk).1 = .ok a →
      (∃ caller, walk caller swept = .ok a) ∧ (db.page id key now walk).2 = swept

theorem Database.serves {db swept : Database} {now : Nat} (done : db.sweepInner now = .ok swept) :
    db.Serves swept now := by
  refine ⟨?_, ?_, ?_⟩
  · intro id key other message limits size
    exact (write_swept done).1
  · intro id key other message limits size
    exact (write_swept done).2
  · intro α id key walk a read
    unfold page at read ⊢
    dsimp only at read ⊢
    split at read
    · cases read
    · rename_i result swept' transaction
      cases read
      simp only [bind_ok, pure_ok, Prod.mk.injEq] at transaction
      obtain ⟨_, _, caller, _, swept'', sweep, _, walked, rfl, rfl⟩ := transaction
      rw [done] at sweep
      cases sweep
      exact ⟨⟨caller, walked⟩, rfl⟩

/-- Commit, abort and expiry exclude each other over whole runs. A record evolves, or has been
terminal before it went; and what is due at `now` is aborted before any request at `now` is
served. -/
theorem Database.outcomes_exclusive {db₀ db db' : Database} {past ms : List (Move Database Operation)}
    (unused : db₀.Unused) (before : Run Operation.Step db₀ past db)
    (run : Run Operation.Step db ms db') {k : ExchangeKey} {row : ExchangeRow}
    (found : db.exchanges.lookup k = some row) :
    ((∃ row', db'.exchanges.lookup k = some row' ∧ row.record.Evolves row'.record) ∨
      ∃ moves, Run Ledger.Step db.view moves db'.view ∧ ∃ m ∈ moves, ∃ r,
        m.before.record k = some r ∧ row.record.Evolves r ∧ r.decision.terminal = true) ∧
    ∀ now, row.record.Due now → now < 2 ^ 63 → ∃ swept, db.sweepInner now = .ok swept ∧
      db.Serves swept now ∧ ∃ row', swept.exchanges.lookup k = some row' ∧
        row.record.Evolves row'.record ∧ row'.record.decision.phase = .aborted := by
  have sound := Sound.reached unused before
  have there := sound.columns.record.mpr (sound.columns.row found)
  constructor
  · obtain ⟨moves, steps, -⟩ := (Operation.history sound run).run
    have sound' := (Operation.history sound run).sound
    rcases Ledger.Run.evolves sound.ledger steps there with ⟨r, after, evolved⟩ | ended
    · exact .inl ⟨r.row, sound'.columns.record.mp after, evolved⟩
    · exact .inr ⟨moves, steps, ended⟩
  · intro now due soon
    obtain ⟨swept, done⟩ := sweepInner_succeeds sound soon
    obtain ⟨-, -, sound', step, closed, -⟩ := sweepInner_ok sound done
    obtain ⟨r, after, aborted⟩ := closed k row.record there due
    refine ⟨swept, done, serves done, r.row, sound'.columns.record.mp after, ?_, aborted⟩
    rcases step.evolves sound.ledger there with ⟨r', same, evolved⟩ | ended
    · rw [after] at same
      cases same
      exact evolved
    · rw [due.live] at ended
      cases ended

end Expiry

section Sample

open Arithmetic

theorem Database.outcomes_exclusive_expired : ∃ k row swept,
    (served (registrations ++ proposes first 5 20)).exchanges.lookup k = some row ∧
      @Database.Serves native (served (registrations ++ proposes first 5 20)) swept 700 ∧
      ∃ row', swept.exchanges.lookup k = some row' ∧ row'.record.decision.phase = .aborted := by
  obtain ⟨ms, run⟩ := served_run (registrations ++ proposes first 5 20)
  have stored : ∃ k row, (served (registrations ++ proposes first 5 20)).exchanges.lookup k =
      some row ∧ row.record.Due 700 := by
    refine ⟨⟨2, 3, 2, 3⟩, ?_⟩
    have due : ((served (registrations ++ proposes first 5 20)).exchanges.lookup ⟨2, 3, 2, 3⟩).any
        (fun row => decide (row.record.Due 700)) = true := by decide +kernel
    obtain ⟨row, found, holds⟩ := (Option.any_eq_true _ _).mp due
    exact ⟨row, found, of_decide_eq_true holds⟩
  obtain ⟨k, row, found, due⟩ := stored
  obtain ⟨swept, -, served, row', there, -, aborted⟩ :=
    (@Database.outcomes_exclusive native _ _ _ _ _ site_unused run .start k row found).2 700 due
      (by decide)
  exact ⟨k, row, swept, found, served, row', there, aborted⟩

/-- A read refused after the sweep, here for its cursor, drops the sweep with its transaction. -/
theorem Database.refused_read_drops_sweep :
    rows (served (registrations ++ proposes first 5 20)) = [(first, 5, .proposed)] ∧
      rows (served (registrations ++ proposes first 5 20 ++
        [.page 2 (key 2) 700 fun _ _ => .error .invalidQuery])) = [(first, 5, .proposed)] := by
  decide +kernel

end Sample

end Innernet
