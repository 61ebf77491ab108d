import Innernet.Server.Requests

/-! Every operation of the server is a run of the ledger, and whole runs of operations are runs of
the ledger one after the other. -/
namespace Innernet

open Fallible Tables Exchange Ledger Runs

/-- The record an event opens. -/
def Ledger.Event.created : Ledger.Event → Option Exchange
  | .opened r _ => some r
  | _ => none

namespace Database

variable [Native]

/-- `db'` is reached by ledger steps of the allowed kinds that open the records `opened`, in
order. -/
structure Reaches (allowed : Event → Prop) (db db' : Database) (opened : List Exchange) : Prop where
  sound : db'.Sound
  run : ∃ ms, Run Ledger.Step db.view ms db'.view ∧ ms.filterMap (·.label.created) = opened ∧
    ∀ m ∈ ms, allowed m.label

/-- What no request is needed for is always allowed. -/
def Quiet (allowed : Event → Prop) : Prop := allowed .settled ∧ allowed .dropped

variable {allowed : Event → Prop}

theorem Sound.stay {db : Database} (sound : db.Sound) : Reaches allowed db db [] :=
  ⟨sound, [], .start, rfl, by simp⟩

theorem Reaches.trans {db db' db'' : Database} {first second : List Exchange}
    (a : Reaches allowed db db' first) (b : Reaches allowed db' db'' second) :
    Reaches allowed db db'' (first ++ second) := by
  obtain ⟨ms, run, opened, all⟩ := a.run
  obtain ⟨ms', run', opened', all'⟩ := b.run
  refine ⟨b.sound, ms ++ ms', run.append run', by rw [List.filterMap_append, opened, opened'], ?_⟩
  exact fun m member => (List.mem_append.mp member).elim (all m) (all' m)

theorem Reaches.after {db db' db'' : Database} {opened : List Exchange}
    (a : Reaches allowed db db' []) (b : Reaches allowed db' db'' opened) :
    Reaches allowed db db'' opened :=
  a.trans b

theorem Reaches.weaken {db db' : Database} {opened : List Exchange} {wider : Event → Prop}
    (a : Reaches allowed db db' opened) (all : ∀ event, allowed event → wider event) :
    Reaches wider db db' opened := by
  obtain ⟨ms, run, same, within⟩ := a.run
  exact ⟨a.sound, ms, run, same, fun m member => all _ (within m member)⟩

theorem Reaches.step {db db' : Database} {event : Event} (sound : db'.Sound) (may : allowed event)
    (step : Ledger.Step db.view event db'.view) :
    Reaches allowed db db' event.created.toList := by
  refine ⟨sound, [⟨db.view, event, db'.view⟩], .move .start step, ?_, by simpa using may⟩
  cases event <;> rfl

omit [Native] in
/-- Writing a peer takes no redemption back. -/
theorem setPeer_redeemed {db : Database} {id : Nat} {written : PeerRow}
    (kept : ∀ row, db.peers.lookup id = some row → row.isRedeemed = true → written.isRedeemed = true)
    (p : Nat) (row : PeerRow) (found : db.peers.lookup p = some row) (yes : row.isRedeemed = true) :
    ∃ row', (db.setPeer id written).peers.lookup p = some row' ∧ row'.isRedeemed = true := by
  change ∃ row', (db.peers.insert id written).lookup p = some row' ∧ _
  rw [lookup_insert_eq]
  split
  · rename_i same
    exact ⟨written, rfl, kept row (same ▸ found) yes⟩
  · exact ⟨row, found, yes⟩

/-- A statement on the other tables is no step at all. -/
theorem Sound.untouched {db db' : Database} (sound : db.Sound)
    (exchanges : db'.exchanges = db.exchanges) (bundles : db'.bundles = db.bundles)
    (history : db'.bundleHistory = db.bundleHistory)
    (redeemed : ∀ p row, db.peers.lookup p = some row → row.isRedeemed = true →
      ∃ row', db'.peers.lookup p = some row' ∧ row'.isRedeemed = true) :
    Reaches allowed db db' [] := by
  have view : db'.view = db.view := by rw [view, view, exchanges, bundles, history]
  refine ⟨⟨?_, view ▸ sound.ledger, ?_⟩, [], view ▸ .start, rfl, by simp⟩
  · intro k row found
    rw [exchanges] at found
    exact sound.columns k row found
  · intro k r found p involved
    obtain ⟨row, present, yes⟩ := sound.redeemed k r (view ▸ found) p involved
    exact redeemed p row present yes

theorem Sound.samePeers {db db' : Database} (sound : db.Sound)
    (exchanges : db'.exchanges = db.exchanges) (bundles : db'.bundles = db.bundles)
    (history : db'.bundleHistory = db.bundleHistory) (peers : db'.peers = db.peers) :
    Reaches allowed db db' [] :=
  sound.untouched exchanges bundles history fun _ row found yes => ⟨row, peers ▸ found, yes⟩

theorem sweepInner_reaches (quiet : Quiet allowed) {db db' : Database} (sound : db.Sound) {now : Nat}
    (done : db.sweepInner now = .ok db') : Reaches allowed db db' [] := by
  obtain ⟨-, -, sound', step, -⟩ := sweepInner_ok sound done
  exact .step sound' quiet.1 step

theorem terminatePeer_reaches (quiet : Quiet allowed) {db db' : Database} (sound : db.Sound)
    {id : Nat} {reason : String} (done : db.terminatePeer id reason = .ok db') :
    Reaches allowed db db' [] := by
  obtain ⟨-, sound', step, -⟩ := terminatePeer_ok sound done
  exact .step sound' quiet.1 step

/-- `write` is a sweep, then the operation if it succeeds. -/
theorem write_reaches (quiet : Quiet allowed) {α : Type} {db : Database} (sound : db.Sound)
    (now : Nat)
    {operation : Database → Except ServerError (α × Database)} (opened : List Exchange)
    (failed : (∃ e, (db.write now operation).1 = .error e) → opened = [])
    (done : ∀ swept a db', swept.Sound → db.sweepInner now = .ok swept →
      operation swept = .ok (a, db') → (db.write now operation).1 = .ok a →
      Reaches allowed swept db' opened) :
    Reaches allowed db (db.write now operation).2 opened := by
  unfold write at *
  split
  · rename_i e stopped
    rw [failed ⟨e, by simp [stopped]⟩]
    exact sound.stay
  · rename_i swept sweep
    have first := sweepInner_reaches quiet sound sweep
    split
    · rename_i e refused
      rw [failed ⟨e, by simp [sweep, refused]⟩]
      exact first
    · rename_i a db' accepted
      exact first.after (done swept a db' first.sound sweep accepted (by simp [sweep, accepted]))

theorem commit_reaches {db : Database} (sound : db.Sound) {changed : Except ServerError Database}
    (done : ∀ db', changed = .ok db' → Reaches allowed db db' []) :
    Reaches allowed db (db.commit changed) [] := by
  unfold commit
  split
  · exact done _ rfl
  · exact sound.stay

theorem registerInner_reaches (quiet : Quiet allowed) {db db' : Database} (sound : db.Sound)
    {id : Nat} {key : String} {request : Registration} {limits : Limits} {size : Nat}
    {a : AdvertisedBundle} (may : allowed (.rebundled id))
    (done : db.registerInner id key request limits size = .ok (a, db')) :
    Reaches allowed db db' [] := by
  obtain ⟨sound', -, -, same | ⟨mid, soundMid, reached, step⟩⟩ := registerInner_ok sound done
  · rw [same]
    exact sound.stay
  · have last : Reaches allowed mid db' [] := .step sound' may step
    rcases reached with rfl | ⟨-, settled⟩
    · exact last
    · have first : Reaches allowed db mid [] := .step soundMid quiet.1 settled
      exact first.after last

theorem page_reaches (quiet : Quiet allowed) {α : Type} {db : Database} (sound : db.Sound)
    (id : Nat) (key : String) (now : Nat)
    (walk : PeerRow → Database → Except ServerError α) :
    Reaches allowed db (db.page id key now walk).2 [] := by
  unfold page
  dsimp only
  split
  · exact sound.stay
  · rename_i result swept read
    simp only [bind_ok, require_ok, pure_ok, Prod.mk.injEq] at read
    obtain ⟨_, _, _, _, _, sweep, _, _, rfl, rfl⟩ := read
    exact sweepInner_reaches quiet sound sweep

theorem deleteExpiredInvites_reaches (quiet : Quiet allowed) {db : Database} (sound : db.Sound)
    (now : Nat) : Reaches allowed db (db.deleteExpiredInvites now) [] := by
  generalize expires : (fun p : PeerRow =>
    !p.isRedeemed && p.inviteExpires.any fun expires => decide (expires < now)) = expired
  have stays : ∀ k r, db.view.record k = some r → ∀ p, k.involves p →
      ∃ row, db.peers.lookup p = some row ∧ row.isRedeemed = true ∧ expired row = false := by
    intro k r found p involved
    obtain ⟨row, present, yes⟩ := sound.redeemed k r found p involved
    exact ⟨row, present, yes, by simp [← expires, yes]⟩
  generalize gone : (fun id => (db.peers.lookup id).any expired) = g
  have kept : ∀ k r, db.view.record k = some r → ∀ p, k.involves p → g p = false := by
    intro k r found p involved
    obtain ⟨row, present, -, not⟩ := stays k r found p involved
    simp [← gone, present, not]
  have both : ∀ k r, db.view.record k = some r → g k.initiatorId = false ∧ g k.responderId = false :=
    fun k r found => ⟨kept k r found _ (.inl rfl), kept k r found _ (.inr rfl)⟩
  have rows : ∀ k, (db.deleteExpiredInvites now).exchanges.lookup k = db.exchanges.lookup k := by
    intro k
    have cascade : (db.deleteExpiredInvites now).exchanges.lookup k =
        (db.exchanges.lookup k).filter fun _ => !g k.initiatorId && !g k.responderId := by
      rw [← gone, ← expires]
      exact lookup_keep _ _ k
    rw [cascade]
    cases found : db.exchanges.lookup k with
    | none => rfl
    | some row =>
      obtain ⟨initiator, responder⟩ := both k _ (sound.columns.record.mpr (sound.columns.row found))
      simp [initiator, responder]
  have record : (db.deleteExpiredInvites now).view.record = db.view.record := by
    funext k
    exact congrArg (Option.map ExchangeRow.record) (rows k)
  have bundle : (db.deleteExpiredInvites now).view.bundle = (db.view.without g).bundle := by
    funext p
    have cascade : (db.deleteExpiredInvites now).bundles.lookup p =
        (db.bundles.lookup p).filter fun _ => !g p := by
      rw [← gone, ← expires]
      exact lookup_keep _ _ p
    refine cascade.trans ?_
    rw [Ledger.without]
    dsimp only [Database.view]
    cases db.bundles.lookup p <;> cases g p <;> rfl
  have view : (db.deleteExpiredInvites now).view = db.view.without g :=
    calc (db.deleteExpiredInvites now).view
        = ⟨(db.deleteExpiredInvites now).view.record, (db.deleteExpiredInvites now).view.bundle,
            db.view.spent⟩ := rfl
      _ = db.view.without g := by rw [record, bundle]; rfl
  have step : Ledger.Step db.view .dropped (db.deleteExpiredInvites now).view := by
    rw [view]
    exact .dropped g both
  refine .step ⟨?_, sound.ledger.step step, ?_⟩ quiet.2 step
  · intro k row found
    exact sound.columns k row (rows k ▸ found)
  · intro k r found p involved
    rw [record] at found
    obtain ⟨row, present, yes, not⟩ := stays k r found p involved
    refine ⟨row, ?_, yes⟩
    have cascade : (db.deleteExpiredInvites now).peers.lookup p =
        (db.peers.lookup p).filter fun row => !expired row := by
      rw [← expires]
      exact lookup_keep _ _ p
    rw [cascade, present]
    simp [not]

end Database

namespace Operation

variable [Native]

/-- The record an operation opens: an accepted proposal under a sequence not yet stored. -/
def opens (op : Operation) (db : Database) : Option Exchange :=
  match op with
  | submit id key other message limits size now =>
    match (db.submit id key other message limits size now).1 with
    | .error _ => none
    | .ok r =>
      if (db.view.record r.key).map Exchange.sequence = some r.sequence then none else some r
  | _ => none

open Database

theorem settled_sequence {l l' : Ledger} (step : Ledger.Step l .settled l') (k : ExchangeKey) :
    (l'.record k).map Exchange.sequence = (l.record k).map Exchange.sequence := by
  cases step with
  | settle settled =>
    dsimp only
    rcases settled k with same | ⟨r, r', before, after, closing⟩
    · rw [same]
    · obtain ⟨-, _, rfl, -⟩ := closing.shape
      rw [before, after]
      rfl

/-- The ledger steps an operation can cause: besides the closing of records and the loss of idle
peers, those of its own request. -/
def Causes : Operation → Event → Prop
  | _, .settled => True
  | _, .dropped => True
  | register id .., .rebundled peer => peer = id
  | submit id _ other message .., .opened r m =>
    m = message ∧ r.initiatorId.val = min id other ∧ r.responderId.val = max id other
  | submit id _ other message .., .continued r m =>
    m = message ∧ r.initiatorId.val = min id other ∧ r.responderId.val = max id other
  | _, _ => False

omit [Native] in
theorem causes_quiet (op : Operation) : Quiet op.Causes := by
  cases op <;> exact ⟨trivial, trivial⟩

theorem submit_reaches {db : Database} (sound : db.Sound) (id : Nat) (key : String) (other : Nat)
    (message : Message) (limits : Limits) (size now : Nat) :
    Reaches (submit id key other message limits size now).Causes db
      (db.submit id key other message limits size now).2
      ((submit id key other message limits size now).opens db).toList := by
  refine write_reaches (causes_quiet _) sound now _ ?_ ?_
  · rintro ⟨e, refused⟩
    have refused : (db.submit id key other message limits size now).1 = .error e := refused
    simp [opens, refused]
  · intro swept r db' soundSwept sweep accepted result
    have result : (db.submit id key other message limits size now).1 = .ok r := result
    obtain ⟨-, -, -, settled, -⟩ := sweepInner_ok sound sweep
    obtain ⟨-, sound', there, initiator, responder, -, -, -, retry | opened | continued⟩ :=
      submitInner_ok soundSwept accepted
    · obtain ⟨rfl, -⟩ := retry
      have old : (db.view.record r.key).map Exchange.sequence = some r.sequence := by
        rw [← settled_sequence settled, there]
        rfl
      rw [opens, result]
      simp only [old, if_true]
      exact soundSwept.stay
    · obtain ⟨-, -, -, -, -, newer, -⟩ := opened.opened_cases
      have fresh : (db.view.record r.key).map Exchange.sequence ≠ some r.sequence := by
        rw [← settled_sequence settled]
        intro same
        obtain ⟨old, stored, equal⟩ := Option.map_eq_some_iff.mp same
        exact absurd equal (newer old stored).ne
      rw [opens, result]
      simp only [fresh, if_false]
      exact .step sound' ⟨rfl, initiator, responder⟩ opened
    · obtain ⟨-, before, t, kind, stored, continuing⟩ := continued.continued_cases
      have old : (db.view.record r.key).map Exchange.sequence = some r.sequence := by
        rw [← settled_sequence settled, continuing.fields.1, stored, continuing.fields.2.1]
        rfl
      rw [opens, result]
      simp only [old, if_true]
      exact .step sound' ⟨rfl, initiator, responder⟩ continued

theorem reaches (op : Operation) {db : Database} (sound : db.Sound) :
    Reaches op.Causes db (op.apply db) (op.opens db).toList := by
  have quiet := op.causes_quiet
  cases op with
  | register id key request limits size now =>
    exact write_reaches quiet sound now _ (fun _ => rfl)
      fun swept a db' soundSwept _ accepted _ => registerInner_reaches quiet soundSwept rfl accepted
  | submit id key other message limits size now =>
    exact submit_reaches sound id key other message limits size now
  | sweep now =>
    change Reaches _ db (db.sweep now).2 []
    unfold Database.sweep
    split
    · exact sound.stay
    · rename_i swept done
      exact sweepInner_reaches quiet sound done
  | page id key now walk => exact page_reaches quiet sound id key now walk
  | createPeer contents =>
    refine commit_reaches sound fun db' done => ?_
    simp only [Database.createPeer, bind_ok, require_ok, pure_ok] at done
    obtain ⟨_, _, _, ⟨absent, -⟩, rfl⟩ := done
    refine sound.untouched rfl rfl rfl (setPeer_redeemed fun row present _ => ?_)
    rw [absent] at present
    cases present
  | updatePeer id name isDisabled =>
    refine commit_reaches sound fun db' done => ?_
    simp only [Database.updatePeer, bind_ok] at done
    obtain ⟨updated, changed, finished⟩ := done
    have first : Reaches (updatePeer id name isDisabled).Causes db updated [] := by
      unfold Database.writeContents at changed
      split at changed
      · cases changed
        exact sound.stay
      · rename_i row present
        simp only [bind_ok, pure_ok] at changed
        obtain ⟨_, _, rfl⟩ := changed
        refine sound.untouched rfl rfl rfl (setPeer_redeemed fun row' found yes => ?_)
        rw [present] at found
        cases found
        exact yes
    split at finished
    · exact first.after (terminatePeer_reaches quiet first.sound finished)
    · cases finished
      exact first
  | disablePeer id =>
    refine commit_reaches sound fun db' done => ?_
    unfold Database.disablePeer at done
    split at done
    · cases done
    · rename_i row found
      have first : Reaches (disablePeer id).Causes db
          ((db.setPeer id { row with isDisabled := true }).touch 1) [] := by
        refine sound.untouched rfl rfl rfl (setPeer_redeemed fun row' present yes => ?_)
        rw [found] at present
        cases present
        exact yes
      exact first.after (terminatePeer_reaches quiet first.sound done)
  | redeemPeer id publicKey now =>
    refine commit_reaches sound fun db' done => ?_
    simp only [Database.redeemPeer, bind_ok, pure_ok] at done
    obtain ⟨_, _, _, _, _, _, _, _, rfl⟩ := done
    exact sound.untouched rfl rfl rfl (setPeer_redeemed fun _ _ _ => rfl)
  | deleteExpiredInvites now => exact deleteExpiredInvites_reaches quiet sound now
  | identifyServer publicKey ip =>
    refine commit_reaches sound fun db' done => ?_
    unfold Database.identifyServer at done
    split at done
    · cases done
    · simp only [bind_ok] at done
      obtain ⟨row, read, _, _, done⟩ := done
      split at done <;> cases done
      · exact sound.stay
      · refine sound.untouched rfl rfl rfl (setPeer_redeemed fun row' found yes => ?_)
        rw [Database.getPeer, found] at read
        cases read
        exact yes
  | createCidr parent =>
    refine commit_reaches sound fun db' done => ?_
    simp only [Database.createCidr, bind_ok, pure_ok] at done
    obtain ⟨_, _, _, _, rfl⟩ := done
    exact sound.samePeers rfl rfl rfl rfl
  | updateCidr id =>
    change Reaches _ db (db.updateCidr id) []
    unfold Database.updateCidr
    split
    · exact sound.samePeers rfl rfl rfl rfl
    · exact sound.stay
  | deleteCidr id =>
    refine commit_reaches sound fun db' done => ?_
    simp only [Database.deleteCidr, bind_ok, pure_ok] at done
    obtain ⟨_, _, rfl⟩ := done
    split
    · exact sound.samePeers rfl rfl rfl rfl
    · exact sound.stay
  | createAssociation contents =>
    refine commit_reaches sound fun db' done => ?_
    simp only [Database.createAssociation, bind_ok, pure_ok] at done
    obtain ⟨_, _, _, _, rfl⟩ := done
    exact sound.samePeers rfl rfl rfl rfl
  | deleteAssociation id =>
    refine commit_reaches sound fun db' done => ?_
    unfold Database.deleteAssociation at done
    dsimp only at done
    split at done
    · rename_i present
      have first : Reaches (deleteAssociation id).Causes db { db.touch 1 with
          associations := keep (fun k _ => decide (k ≠ id)) db.associations } [] :=
        sound.samePeers rfl rfl rfl rfl
      exact first.after (sweepInner_reaches quiet first.sound done)
    · exact sweepInner_reaches quiet sound done
  | setManagementReady ready => exact sound.samePeers rfl rfl rfl rfl
  | enable =>
    refine commit_reaches sound fun db' done => ?_
    simp only [Database.enable, bind_ok, pure_ok] at done
    obtain ⟨_, _, rfl⟩ := done
    exact sound.samePeers rfl rfl rfl rfl

/-- The operations as a deterministic system. -/
def Step (db : Database) (op : Operation) (db' : Database) : Prop := op.apply db = db'

end Operation

/-- A database no bundle has been registered in. -/
structure Database.Unused (db : Database) : Prop where
  bundles : db.bundles = ∅
  bundleHistory : db.bundleHistory = ∅
  exchanges : db.exchanges = ∅

theorem Database.Unused.sound [Native] {db : Database} (unused : db.Unused) : db.Sound := by
  have empty : ∀ k, db.view.record k = none := by
    intro k
    rw [Database.view_none, unused.exchanges]
    rfl
  have bare : ∀ p, db.view.bundle p = none := by
    intro p
    change db.bundles.lookup p = none
    rw [unused.bundles]
    rfl
  refine ⟨?_, by constructor <;> simp [empty, bare], fun k r found => by simp [empty] at found⟩
  intro k row found
  rw [unused.exchanges] at found
  cases found

/-- A run of the server is a run of the ledger that opens the same records. -/
theorem Operation.history [Native] {db₀ db : Database} {ms : List (Move Database Operation)}
    (sound : db₀.Sound) (run : Run Operation.Step db₀ ms db) :
    Database.Reaches (fun _ => True) db₀ db (ms.filterMap fun m => m.label.opens m.before) := by
  induction run with
  | start => exact sound.stay
  | @move past a b op run taken ih =>
    have next : Database.Reaches (fun _ => True) a (op.apply a) (op.opens a).toList :=
      (op.reaches ih.sound).weaken fun _ _ => trivial
    rw [show op.apply a = b from taken] at next
    have last : [(⟨a, op, b⟩ : Move Database Operation)].filterMap (fun m => m.label.opens m.before) =
        (op.opens a).toList := by
      cases opened : op.opens a <;> simp [opened]
    rw [List.filterMap_append, last]
    exact ih.trans next

/-- The run that applies the operations one after the other. -/
theorem Operation.runs [Native] (ops : List Operation) (db : Database) :
    ∃ ms, Run Operation.Step db ms (ops.foldl (fun db op => op.apply db) db) := by
  induction ops generalizing db with
  | nil => exact ⟨[], .start⟩
  | cons op ops ih =>
    obtain ⟨ms, run⟩ := ih (op.apply db)
    exact ⟨_, (Run.start.move rfl).append run⟩

/-- Every database a server reaches keeps the invariant. -/
theorem Database.Sound.reached [Native] {db₀ db : Database} {ms : List (Move Database Operation)}
    (unused : db₀.Unused) (run : Run Operation.Step db₀ ms db) : db.Sound :=
  run.invariant unused.sound fun _ op _ sound taken => taken ▸ (op.reaches sound).sound

end Innernet
