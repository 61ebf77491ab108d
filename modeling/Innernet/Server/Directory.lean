import Innernet.Server.Pages
import Innernet.Server.Rows

/-! What the visibility revision counts: while it stays, so do the directory, the bundles in it and
the pairs that have a record. And what a bundle in the directory goes back to. -/
namespace Innernet

open Fallible Tables Paging Runs Ledger

section Bundles

variable [Native]

theorem Ledger.Step.bundle_kept {l l' : Ledger} {event : Event} (step : Step l event l') {p : Nat}
    {a : AdvertisedBundle} (other : event ≠ .rebundled p) (found : l'.bundle p = some a) :
    l.bundle p = some a := by
  cases step with
  | settle => exact found
  | opened => exact found
  | continued => exact found
  | @rebundled id =>
    rw [bundle_rebundle] at found
    split at found
    · rename_i same
      exact absurd (same ▸ rfl) other
    · exact found
  | dropped =>
    rw [without] at found
    dsimp only at found
    split at found
    · cases found
    · exact found

/-- Records go with a new bundle only. -/
theorem Ledger.Step.record_kept {l l' : Ledger} {event : Event} (step : Step l event l')
    {k : ExchangeKey} (other : ∀ p, event ≠ .rebundled p) (stored : l.record k ≠ none) :
    l'.record k ≠ none := by
  cases step with
  | settle settled =>
    rcases settled k with same | ⟨r, r', before, after, -⟩
    · exact fun gone => stored (same.symm.trans gone)
    · exact fun gone => Option.some_ne_none r' (after.symm.trans gone)
  | opened =>
    rw [record_put]
    split
    · exact Option.some_ne_none _
    · exact stored
  | continued =>
    rw [record_put]
    split
    · exact Option.some_ne_none _
    · exact stored
  | rebundled => exact absurd rfl (other _)
  | dropped => exact stored

theorem Database.Reaches.bundle_kept {allowed : Event → Prop} {db db' : Database}
    {opened : List Exchange} (reaches : Reaches allowed db db' opened) {p : Nat}
    {a : AdvertisedBundle} (other : ¬ allowed (.rebundled p)) (found : db'.view.bundle p = some a) :
    db.view.bundle p = some a := by
  obtain ⟨ms, run, -, all⟩ := reaches.run
  refine run.guarded (P := fun l => l.bundle p = some a → db.view.bundle p = some a) id ?_ all found
  intro l event l' kept step may found
  refine kept (step.bundle_kept ?_ found)
  rintro rfl
  exact other may

theorem Database.Reaches.record_kept {allowed : Event → Prop} {db db' : Database}
    {opened : List Exchange} (reaches : Reaches allowed db db' opened) {k : ExchangeKey}
    (other : ∀ p, ¬ allowed (.rebundled p)) (stored : db.view.record k ≠ none) :
    db'.view.record k ≠ none := by
  obtain ⟨ms, run, -, all⟩ := reaches.run
  refine run.guarded (P := fun l => l.record k ≠ none) stored ?_ all
  intro l event l' kept step may
  refine step.record_kept ?_ kept
  rintro p rfl
  exact other p may

/-- A bundle of the directory was there before, or the operation is its registration. -/
theorem Operation.registered (op : Operation) {db : Database} (sound : db.Sound) {p : Nat}
    {a : AdvertisedBundle} (found : (op.apply db).view.bundle p = some a) :
    db.view.bundle p = some a ∨ ∃ key request limits size now swept,
      op = .register p key request limits size now ∧ swept.Sound ∧
        Database.registerInner swept p key request limits size = .ok (a, op.apply db) := by
  by_cases may : op.Causes (.rebundled p)
  · cases op with
    | register id key request limits size now =>
      obtain rfl : p = id := may
      change (db.write now fun db =>
        db.registerInner p key request limits size).2.view.bundle p = some a at found
      change _ ∨ ∃ key' request' limits' size' now' swept, Operation.register p key request limits
        size now = .register p key' request' limits' size' now' ∧ swept.Sound ∧
          Database.registerInner swept p key' request' limits' size' = .ok (a,
            (db.write now fun db => db.registerInner p key request limits size).2)
      unfold Database.write at *
      split at found
      · exact .inl found
      · rename_i swept sweep
        obtain ⟨-, only, soundSwept, -⟩ := Database.sweepInner_ok sound sweep
        split at found
        · rw [only.view] at found
          exact .inl found
        · rename_i b written accepted
          obtain ⟨-, -, current, -⟩ := Database.registerInner_ok soundSwept accepted
          rw [found] at current
          cases current
          exact .inr ⟨key, request, limits, size, now, swept, rfl, soundSwept, accepted⟩
    | _ => cases may
  · exact .inl ((op.reaches sound).bundle_kept may found)

/-- A bundle of the directory was there before, or the operation asks for it. -/
theorem Operation.bundle_after (op : Operation) {db : Database} (sound : db.Sound) {p : Nat}
    {a : AdvertisedBundle} (found : (op.apply db).view.bundle p = some a) :
    db.view.bundle p = some a ∨ ∃ key request limits size now,
      op = .register p key request limits size now ∧ a.bundle = request.bundle := by
  rcases op.registered sound found with old |
    ⟨key, request, limits, size, now, swept, rfl, soundSwept, accepted⟩
  · exact .inl old
  · exact .inr ⟨key, request, limits, size, now, rfl,
      (Database.registerInner_ok soundSwept accepted).2.1⟩

end Bundles

namespace Database

/-- Nothing a page is made of has changed but the records that are stored. -/
structure Holds (db db' : Database) : Prop where
  directory : SameDirectory db db'
  bundles : db'.bundles = db.bundles
  rows : ∀ k, db.view.record k ≠ none → db'.view.record k ≠ none

/-- A change of the directory is counted. -/
structure Steady (db db' : Database) : Prop where
  counted : db.network.visibilityRevision ≤ db'.network.visibilityRevision
  holds : db'.network.visibilityRevision = db.network.visibilityRevision → db.Holds db'

variable {db db' db'' : Database}

theorem Holds.refl (db : Database) : db.Holds db := ⟨⟨rfl, rfl, rfl⟩, rfl, fun _ => id⟩

theorem Holds.trans (first : db.Holds db') (second : db'.Holds db'') : db.Holds db'' where
  directory := ⟨second.directory.peers.trans first.directory.peers,
    second.directory.cidrs.trans first.directory.cidrs,
    second.directory.associations.trans first.directory.associations⟩
  bundles := second.bundles.trans first.bundles
  rows k stored := second.rows k (first.rows k stored)

theorem Steady.refl (db : Database) : db.Steady db := ⟨le_rfl, fun _ => .refl db⟩

theorem Steady.trans (first : db.Steady db') (second : db'.Steady db'') : db.Steady db'' where
  counted := first.counted.trans second.counted
  holds same := by
    have low := first.counted
    have high := second.counted
    exact (first.holds (by omega)).trans (second.holds (by omega))

/-- A statement that a trigger counts. -/
theorem Steady.counts (more : db.network.visibilityRevision < db'.network.visibilityRevision) :
    db.Steady db' := ⟨more.le, fun same => absurd same more.ne'⟩

theorem OnlySwept.steady (only : db.OnlySwept db')
    (rows : ∀ k, db.view.record k ≠ none → db'.view.record k ≠ none) : db.Steady db' := by
  refine ⟨?_, fun _ => ⟨only.directory, ?_, rows⟩⟩
  · rw [only]
  · rw [only]

theorem commit_steady {changed : Except ServerError Database}
    (done : ∀ db', changed = .ok db' → db.Steady db') : db.Steady (db.commit changed) := by
  unfold commit
  split
  · exact done _ rfl
  · exact .refl db

variable [Native]

theorem sweepInner_steady {now : Nat} (sound : db.Sound) (done : db.sweepInner now = .ok db') :
    db.Steady db' := by
  obtain ⟨-, only, -, step, -⟩ := sweepInner_ok sound done
  exact only.steady fun k => step.record_kept nofun

theorem terminatePeer_steady {id : Nat} {reason : String} (sound : db.Sound)
    (done : db.terminatePeer id reason = .ok db') : db.Steady db' := by
  obtain ⟨only, -, step, -⟩ := terminatePeer_ok sound done
  exact only.swept.steady fun k => step.record_kept nofun

theorem write_steady {α : Type} (sound : db.Sound) (now : Nat)
    {operation : Database → Except ServerError (α × Database)}
    (done : ∀ swept a db', swept.Sound → operation swept = .ok (a, db') → swept.Steady db') :
    db.Steady (db.write now operation).2 := by
  unfold write
  split
  · exact .refl db
  · rename_i swept sweep
    have first := sweepInner_steady sound sweep
    split
    · exact first
    · rename_i a db' accepted
      exact first.trans (done swept a db' (sweepInner_ok sound sweep).2.2.1 accepted)

/-- A registration that is not a retry writes the bundle, and is counted. -/
theorem registerInner_steady {id : Nat} {key : String} {request : Registration} {limits : Limits}
    {size : Nat} {a : AdvertisedBundle} (sound : db.Sound)
    (done : db.registerInner id key request limits size = .ok (a, db')) : db.Steady db' := by
  simp only [registerInner, bind_ok] at done
  obtain ⟨_, _, _, _, _, _, _, _, current, _, _, _, _, _, next, _, _, _, done⟩ := done
  split at done
  · cases done
    exact .refl db
  · simp only [bind_ok, pure_ok, Prod.mk.injEq] at done
    obtain ⟨_, _, _, _, mid, branch, -, rfl⟩ := done
    have same : mid.network = db.network := by
      unfold changeLifecycle at branch
      split at branch
      · simp only [enroll, bind_ok, pure_ok] at branch
        obtain ⟨_, _, _, _, _, _, rfl⟩ := branch
        rfl
      · unfold retire at branch
        split at branch
        · cases branch
        · simp only [bind_ok] at branch
          obtain ⟨_, _, branch⟩ := branch
          rw [(terminatePeer_ok sound branch).1]
    refine .counts ?_
    change db.network.visibilityRevision < mid.network.visibilityRevision + 1
    rw [same]
    exact Nat.lt_succ_self _

omit [Native] in
/-- Invitations that expire are counted; where none does, everything stays. -/
theorem deleteExpiredInvites_steady (db : Database) (now : Nat) :
    db.Steady (db.deleteExpiredInvites now) := by
  refine ⟨Nat.le_add_right _ _, fun same => ?_⟩
  have same : db.network.visibilityRevision + (count (fun _ p => p.expired now) db.peers +
    count (fun id _ => (db.peers.lookup id).any fun p => p.expired now) db.bundles) =
      db.network.visibilityRevision := same
  have quiet : ∀ e ∈ db.peers.entries, e.2.expired now = false :=
    (count_zero (fun _ p => p.expired now) db.peers).mp (by omega)
  have stays : ∀ id, (db.peers.lookup id).any (fun p => p.expired now) = false := by
    intro id
    cases found : db.peers.lookup id with
    | none => rfl
    | some row => exact quiet ⟨id, row⟩ ((mem_entries_iff _ _).mpr found)
  have peers : (db.deleteExpiredInvites now).peers = db.peers := by
    change keep (fun _ p => !p.expired now) db.peers = db.peers
    exact keep_self _ _ fun e member => by simp [quiet e member]
  have bundles : (db.deleteExpiredInvites now).bundles = db.bundles := by
    change keep (fun id _ => !(db.peers.lookup id).any fun p => p.expired now) db.bundles = db.bundles
    exact keep_self _ _ fun e _ => by simp [stays]
  have exchanges : (db.deleteExpiredInvites now).exchanges = db.exchanges := by
    change keep (fun k _ => (!(db.peers.lookup k.initiatorId).any fun p => p.expired now) &&
      !(db.peers.lookup k.responderId).any fun p => p.expired now) db.exchanges = db.exchanges
    exact keep_self _ _ fun e _ => by simp [stays]
  refine ⟨⟨peers, rfl, rfl⟩, bundles, fun k stored => ?_⟩
  rw [view, exchanges]
  exact stored

end Database

open Database

variable [Native]

/-- Every operation counts what it changes in the directory. -/
theorem Operation.steady (op : Operation) {db : Database} (sound : db.Sound) :
    db.Steady (op.apply db) := by
  have next : ∀ {db' : Database}, db'.network.visibilityRevision =
      db.network.visibilityRevision + 1 → db.Steady db' := fun same => .counts (by omega)
  cases op with
  | register id key request limits size now =>
    exact write_steady sound now fun swept a db' soundSwept accepted =>
      registerInner_steady soundSwept accepted
  | submit id key other message limits size now =>
    refine write_steady sound now fun swept a db' soundSwept accepted => ?_
    obtain ⟨only, -, -, -, -, -, -, -, step⟩ := submitInner_ok soundSwept accepted
    refine only.swept.steady fun k stored => ?_
    rcases step with ⟨rfl, -⟩ | opened | continued
    · exact stored
    · exact opened.record_kept nofun stored
    · exact continued.record_kept nofun stored
  | sweep now =>
    change db.Steady (db.sweep now).2
    unfold Database.sweep
    split
    · exact .refl db
    · rename_i swept done
      exact sweepInner_steady sound done
  | page id key now walk =>
    change db.Steady (db.page id key now walk).2
    unfold Database.page
    dsimp only
    split
    · exact .refl db
    · rename_i result swept read
      simp only [bind_ok, pure_ok, Prod.mk.injEq] at read
      obtain ⟨_, _, _, _, _, sweep, _, _, _, rfl⟩ := read
      exact sweepInner_steady sound sweep
  | createPeer contents =>
    refine commit_steady fun db' done => next ?_
    simp only [Database.createPeer, bind_ok, pure_ok] at done
    obtain ⟨_, _, _, _, rfl⟩ := done
    rfl
  | updatePeer id name isDisabled =>
    refine commit_steady fun db' done => ?_
    simp only [Database.updatePeer, bind_ok] at done
    obtain ⟨updated, written, done⟩ := done
    have row : updated.Sound ∧ db.Steady updated := by
      refine ⟨(writeContents_widens sound written).2, ?_⟩
      unfold writeContents at written
      split at written
      · cases written
        exact .refl db
      · simp only [bind_ok, pure_ok] at written
        obtain ⟨_, _, rfl⟩ := written
        exact next rfl
    split at done
    · exact row.2.trans (terminatePeer_steady row.1 done)
    · rw [pure_ok] at done
      exact done ▸ row.2
  | disablePeer id =>
    refine commit_steady fun db' done => ?_
    unfold Database.disablePeer at done
    split at done
    · cases done
    · rename_i row found
      have written : ((db.setPeer id { row with isDisabled := true }).touch 1).Sound := by
        have reached : Reaches (fun _ => True) db
            ((db.setPeer id { row with isDisabled := true }).touch 1) [] := by
          refine sound.untouched rfl rfl rfl (setPeer_redeemed fun row' present yes => ?_)
          rw [found] at present
          cases present
          exact yes
        exact reached.sound
      have first : db.Steady ((db.setPeer id { row with isDisabled := true }).touch 1) := next rfl
      exact first.trans (terminatePeer_steady written done)
  | redeemPeer id publicKey now =>
    refine commit_steady fun db' done => next ?_
    simp only [Database.redeemPeer, bind_ok, pure_ok] at done
    obtain ⟨_, _, _, _, _, _, _, _, rfl⟩ := done
    rfl
  | deleteExpiredInvites now => exact db.deleteExpiredInvites_steady now
  | identifyServer publicKey ip =>
    refine commit_steady fun db' done => ?_
    unfold Database.identifyServer at done
    split at done
    · cases done
    · simp only [bind_ok] at done
      obtain ⟨row, _, _, _, done⟩ := done
      split at done <;> cases done
      · exact .refl db
      · exact next rfl
  | createCidr parent =>
    refine commit_steady fun db' done => next ?_
    simp only [Database.createCidr, bind_ok, pure_ok] at done
    obtain ⟨_, _, _, _, rfl⟩ := done
    rfl
  | updateCidr id =>
    change db.Steady (db.updateCidr id)
    unfold Database.updateCidr
    split
    · exact next rfl
    · exact .refl db
  | deleteCidr id =>
    refine commit_steady fun db' done => ?_
    simp only [Database.deleteCidr, bind_ok, pure_ok] at done
    obtain ⟨_, _, rfl⟩ := done
    split
    · exact next rfl
    · exact .refl db
  | createAssociation contents =>
    refine commit_steady fun db' done => next ?_
    simp only [Database.createAssociation, bind_ok, pure_ok] at done
    obtain ⟨_, _, _, _, rfl⟩ := done
    rfl
  | deleteAssociation id =>
    refine commit_steady fun db' done => ?_
    unfold Database.deleteAssociation at done
    dsimp only at done
    split at done
    · have removed : Reaches (fun _ => True) db { db.touch 1 with
          associations := keep (fun k _ => decide (k ≠ id)) db.associations } [] :=
        sound.samePeers rfl rfl rfl rfl
      have first : db.Steady { db.touch 1 with
          associations := keep (fun k _ => decide (k ≠ id)) db.associations } := next rfl
      exact first.trans (sweepInner_steady removed.sound done)
    · exact sweepInner_steady sound done
  | setManagementReady ready => exact ⟨le_rfl, fun _ => ⟨⟨rfl, rfl, rfl⟩, rfl, fun _ => id⟩⟩
  | enable =>
    refine commit_steady fun db' done => ?_
    simp only [Database.enable, bind_ok, pure_ok] at done
    obtain ⟨_, _, rfl⟩ := done
    exact ⟨le_rfl, fun _ => ⟨⟨rfl, rfl, rfl⟩, rfl, fun _ => id⟩⟩

omit [Native] in
/-- A redeemed peer keeps its key, whatever is written. -/
theorem Rewrites.redeemed_kept {db : Database} {op : Operation} {peers : Table Nat PeerRow}
    (rewrites : Rewrites db op peers) {p : Nat} {row : PeerRow}
    (found : db.peers.lookup p = some row) (redeemed : row.isRedeemed = true) :
    ∃ row', peers.lookup p = some row' ∧ row'.isRedeemed = true ∧ row'.publicKey = row.publicKey := by
  have over_row : ∀ {k : Nat} {old written : PeerRow}, db.peers.lookup k = some old →
      (old.isRedeemed = true → written.isRedeemed = true ∧ written.publicKey = old.publicKey) →
      ∃ row', (db.peers.insert k written).lookup p = some row' ∧ row'.isRedeemed = true ∧
        row'.publicKey = row.publicKey := by
    intro k old written stored same
    rw [lookup_insert_eq]
    split
    · rename_i here
      subst here
      cases Option.some.inj (stored.symm.trans found)
      exact ⟨written, rfl, same redeemed⟩
    · exact ⟨row, found, redeemed, rfl⟩
  cases rewrites with
  | same => exact ⟨row, found, redeemed, rfl⟩
  | created absent =>
    rw [lookup_insert_eq, if_neg]
    · exact ⟨row, found, redeemed, rfl⟩
    · rintro rfl
      rw [absent] at found
      cases found
  | updated stored => exact over_row stored fun yes => ⟨yes, rfl⟩
  | disabled stored => exact over_row stored fun yes => ⟨yes, rfl⟩
  | redeemed stored unredeemed =>
    refine over_row stored fun yes => ?_
    rw [unredeemed] at yes
    cases yes
  | expired =>
    rw [lookup_keep, found]
    exact ⟨row, by simp [PeerRow.expired, redeemed], redeemed, rfl⟩
  | identified stored => exact over_row stored fun yes => ⟨yes, rfl⟩

namespace Database

/-- A bundle of the directory is a redeemed peer's, for its own key. -/
def Bound (db : Database) : Prop := ∀ p a, db.view.bundle p = some a →
  ∃ row, db.peers.lookup p = some row ∧ row.isRedeemed = true ∧
    Key.fromBase64 row.publicKey = some a.bundle.wgPublicKey.bytes

theorem registerInner_bound {db db' : Database} {id : Nat} {key : String} {request : Registration}
    {limits : Limits} {size : Nat} {a : AdvertisedBundle} (sound : db.Sound)
    (done : db.registerInner id key request limits size = .ok (a, db')) :
    ∃ row, db'.peers.lookup id = some row ∧ row.isRedeemed = true ∧
      Key.fromBase64 row.publicKey = some request.bundle.wgPublicKey.bytes := by
  rw [(registerInner_directory sound done).1.peers]
  simp only [registerInner, caller, bind_ok, require_ok, pure_ok] at done
  obtain ⟨_, _, _, ⟨row, read, _, ⟨_, redeemed, rfl⟩, _⟩, _, _, _, _, _, _, _, _, _, ⟨_, _, keyed⟩,
    _⟩ := done
  refine ⟨row, ?_, redeemed, keyed⟩
  unfold getPeer at read
  split at read <;> cases read
  assumption

theorem Bound.apply {db : Database} (bound : db.Bound) (sound : db.Sound) (op : Operation) :
    (op.apply db).Bound := by
  intro p a found
  have old : db.view.bundle p = some a → ∃ row, (op.apply db).peers.lookup p = some row ∧
      row.isRedeemed = true ∧ Key.fromBase64 row.publicKey = some a.bundle.wgPublicKey.bytes := by
    intro before
    obtain ⟨row, stored, redeemed, keyed⟩ := bound p a before
    obtain ⟨row', after, redeemed', same⟩ := (op.rewritten sound).rows.redeemed_kept stored redeemed
    exact ⟨row', after, redeemed', same ▸ keyed⟩
  rcases op.registered sound found with before |
    ⟨key, request, limits, size, now, swept, rfl, soundSwept, accepted⟩
  · exact old before
  · rw [(registerInner_ok soundSwept accepted).2.1]
    exact registerInner_bound soundSwept accepted

section Reading

variable {db : Database} {caller other : Nat} {row : PeerRow}

omit [Native] in
theorem mem_mailbox {e : Exchange} : (other, e) ∈ db.mailbox caller ↔
    ∃ k, db.view.record k = some e ∧ k.involves caller ∧ k.other caller = other := by
  simp only [mailbox, view, List.mem_map, List.mem_filter, decide_eq_true_eq, Prod.mk.injEq,
    Option.map_eq_some_iff]
  constructor
  · rintro ⟨⟨k, stored⟩, ⟨member, involved⟩, same, record⟩
    exact ⟨k, ⟨stored, (mem_entries_iff _ _).mp member, record⟩, involved, same⟩
  · rintro ⟨k, ⟨stored, found, record⟩, involved, same⟩
    exact ⟨⟨k, stored⟩, ⟨(mem_entries_iff _ _).mpr found, involved⟩, same, record⟩

omit [Native] in
theorem other_involved (k : ExchangeKey) (caller : Nat) : k.involves (k.other caller) := by
  unfold ExchangeKey.other
  split
  · exact .inr rfl
  · exact .inl rfl

omit [Native] in
theorem getPeer_found {p : Nat} {row : PeerRow} (found : db.peers.lookup p = some row) :
    db.getPeer p = .ok row := by
  rw [getPeer, found]

omit [Native] in
/-- Two peers that exist are refused for one reason. -/
theorem pairAllowed_refused {first second : Nat} {a b : PeerRow} {error : ServerError}
    (found : db.peers.lookup first = some a) (found' : db.peers.lookup second = some b)
    (refused : db.pairAllowed first second = .error error) : error = .unauthorized := by
  have present : ∀ {p row}, db.peers.lookup p = some row → db.getPeer p ≠ .error .noRows := by
    intro p row stored
    rw [getPeer_found stored]
    simp
  have serves : ∀ {p row}, db.peers.lookup p = some row → db.isServer p ≠ .error .noRows :=
    fun stored => bind_ne_error (present stored) fun _ _ => by simp [pure, Except.pure]
  rcases pairAllowed_error refused with same | missing
  · exact same
  · refine absurd (missing ▸ refused) (bind_ne_error (require_ne_error (by decide)) fun _ _ => ?_)
    refine bind_ne_error (serves found) fun _ _ => bind_ne_error (require_ne_error (by decide)) ?_
    refine fun _ _ => bind_ne_error (serves found') fun _ _ => ?_
    refine bind_ne_error (require_ne_error (by decide)) fun _ _ => ?_
    refine bind_ne_error (present found) fun _ _ => bind_ne_error (present found') fun _ _ => ?_
    exact require_ne_error (by decide)

theorem Sound.key_ordered (sound : db.Sound) {k : ExchangeKey} {e : Exchange}
    (record : db.view.record k = some e) : k.initiatorId < k.responderId := by
  have less := (Number.lt_def _ _).mp (sound.ledger.formed k e record).ordered
  rw [← sound.ledger.key k e record]
  exact less

/-- A peer has one record with each other peer. -/
theorem Sound.pair_single (sound : db.Sound) {k k' : ExchangeKey} {e e' : Exchange}
    (record : db.view.record k = some e) (record' : db.view.record k' = some e')
    (involved : k.involves caller) (involved' : k'.involves caller)
    (same : k.other caller = k'.other caller) : k = k' := by
  have less := sound.key_ordered record
  have less' := sound.key_ordered record'
  have ends : k.initiatorId = k'.initiatorId ∧ k.responderId = k'.responderId := by
    unfold ExchangeKey.other at same
    unfold ExchangeKey.involves at involved involved'
    split at same <;> split at same <;> omega
  exact sound.ledger.single record record' ends.1 ends.2

theorem Sound.mailbox_single (sound : db.Sound) : ((db.mailbox caller).map Prod.fst).Nodup := by
  rw [mailbox, List.map_map]
  refine List.Nodup.map_on ?_ (db.exchanges.nodupKeys.nodup.filter _)
  rintro ⟨k, stored⟩ member ⟨k', stored'⟩ member' same
  rw [List.mem_filter, mem_entries_iff, decide_eq_true_eq] at member member'
  have record := sound.columns.record.mpr (sound.columns.row member.1)
  have record' := sound.columns.record.mpr (sound.columns.row member'.1)
  cases sound.pair_single record record' member.2 member'.2 same
  cases Option.some.inj (member.1.symm.trans member'.1)
  rfl

theorem Sound.readable (sound : db.Sound) (bound : db.Bound)
    (found : db.peers.lookup caller = some row) :
    db.Readable caller (db.allowedPeers row.cidrId) where
  distinct := by
    unfold allowedPeers
    exact keysWhere_nodup _ _
  states p member := by
    obtain ⟨row', there, -⟩ := mem_allowedPeers.mp member
    simp only [peerState, isServer, bind_ok, require_ok, pure_ok, getPeer_found there, sound.bundle]
    refine ⟨_, row', rfl, db.view.bundle p, rfl, ⟨⟩, ?_, row'.isServer, ⟨row', rfl, rfl⟩, rfl⟩
    intro a advertised
    obtain ⟨row'', there', -, keyed⟩ := bound p a advertised
    cases Option.some.inj (there.symm.trans there')
    exact keyed
  single := sound.mailbox_single
  pairs := by
    rintro ⟨other, e⟩ member error refused
    obtain ⟨k, record, involved, rfl⟩ := mem_mailbox.mp member
    obtain ⟨row', found', -⟩ := sound.redeemed k e record _ (other_involved k caller)
    exact pairAllowed_refused found found' refused
  named := by
    rintro ⟨other, e⟩ member
    obtain ⟨k, record, involved, rfl⟩ := mem_mailbox.mp member
    rw [Exchange.other, sound.ledger.key k e record]
  visible other allowed := by
    obtain ⟨-, -, -, a, b, first, second, -, admissible, sees, -⟩ := pairAllowed_iff.mp allowed
    cases Option.some.inj (found.symm.trans first)
    exact mem_allowedPeers.mpr ⟨b, second, admissible.isDisabled, admissible.isRedeemed, sees⟩

/-- The records a walk comes to after a position. -/
theorem Sound.mem_records (sound : db.Sound) (bound : db.Bound)
    (found : db.peers.lookup caller = some row) {position : Nat × Nat} {e : Exchange} :
    e ∈ db.records caller (db.allowedPeers row.cidrId) position ↔
      db.view.record e.key = some e ∧ e.key.involves caller ∧
        db.pairAllowed caller (e.other caller) = .ok () ∧ Ahead position (e.other caller) := by
  rw [(sound.readable bound found).mem_records, mem_mailbox]
  constructor
  · rintro ⟨⟨k, record, involved, -⟩, allowed, ahead⟩
    obtain rfl : e.key = k := sound.ledger.key k e record
    exact ⟨record, involved, allowed, ahead⟩
  · rintro ⟨record, involved, allowed, ahead⟩
    exact ⟨⟨e.key, record, involved, rfl⟩, allowed, ahead⟩

end Reading

section Holding

variable {db db' : Database} {caller : Nat} {peers : List Nat}

omit [Native] in
theorem Holds.pairAllowed (holds : db.Holds db') (first second : Nat) :
    db'.pairAllowed first second = .ok () ↔ db.pairAllowed first second = .ok () :=
  holds.directory.allowed (k := ⟨first, second, db.network.networkId, db.network.networkId⟩)

omit [Native] in
theorem Holds.allowedPeers (holds : db.Holds db') (cidr : Nat) :
    db'.allowedPeers cidr = db.allowedPeers cidr := by
  have same : ∀ id, db'.Sees cidr id ↔ db.Sees cidr id := fun id =>
    ⟨holds.directory.symm.sees, holds.directory.sees⟩
  unfold Database.allowedPeers keysWhere
  rw [holds.directory.peers]
  refine congrArg (List.map Sigma.fst) (List.filter_congr fun e _ => ?_)
  dsimp only
  rw [decide_eq_decide.mpr (mem_reached.trans ((same e.2.cidrId).trans mem_reached.symm))]

theorem Holds.peerState (holds : db.Holds db') (p : Nat) : db'.peerState p = db.peerState p := by
  unfold Database.peerState Database.isServer Database.getPeer Database.bundle
  rw [holds.directory.peers, holds.bundles]

theorem Holds.states (holds : db.Holds db') (position : Nat × Nat) :
    db'.states caller peers position = db.states caller peers position := by
  obtain ⟨stage, after⟩ := position
  rw [states_eq, states_eq]
  simp only [holds.peerState]

omit [Native] in
theorem Holds.most (holds : db.Holds db') (position : Nat × Nat) :
    db'.most peers position = db.most peers position := by
  have rows : db'.cidrRows = db.cidrRows := by rw [cidrRows, cidrRows, holds.directory.cidrs]
  unfold Database.most
  rw [rows]

/-- SQLite's ids are 64-bit integers. -/
structure Small (db : Database) : Prop where
  peers : ∀ p ∈ db.peers.keys, p < 2 ^ 63
  cidrs : ∀ c ∈ db.cidrs.keys, c < 2 ^ 63

omit [Native] in
theorem Holds.small (holds : db.Holds db') : db'.Small ↔ db.Small := by
  constructor
  · rintro ⟨peers, cidrs⟩
    rw [holds.directory.peers] at peers
    rw [holds.directory.cidrs] at cidrs
    exact ⟨peers, cidrs⟩
  · rintro ⟨peers, cidrs⟩
    rw [← holds.directory.peers] at peers
    rw [← holds.directory.cidrs] at cidrs
    exact ⟨peers, cidrs⟩

theorem Sound.small_ids (sound : db.Sound) (small : db.Small) {cidr : Nat} :
    ∀ id ∈ db.ids caller (db.allowedPeers cidr), id < 2 ^ 63 := by
  intro id member
  have stored : ∀ {p row}, db.peers.lookup p = some row → p < 2 ^ 63 := by
    intro p row found
    exact small.peers p (AList.mem_keys.mpr (AList.lookup_isSome.mp (by rw [found]; rfl)))
  rcases List.mem_append.mp member with early | exchange
  · rcases List.mem_append.mp early with peer | cidr
    · obtain ⟨row, found, -⟩ := mem_allowedPeers.mp peer
      exact stored found
    · obtain ⟨row, there, rfl⟩ := List.mem_map.mp cidr
      obtain ⟨e, stored, rfl⟩ := List.mem_map.mp there
      exact small.cidrs e.1 (List.mem_map_of_mem stored)
  · obtain ⟨⟨other, e⟩, there, rfl⟩ := List.mem_map.mp exchange
    obtain ⟨k, record, involved, rfl⟩ := mem_mailbox.mp there
    obtain ⟨row', found', -⟩ := sound.redeemed k e record _ (other_involved k caller)
    exact stored found'

end Holding

end Database

end Innernet
