import Innernet.Serialization
import Innernet.Server.Retries

/-! Does every stored record fit its row: how many receipts and messages it can gather, how long its
JSON text can get, and what a committed record still has to take in. -/
namespace Innernet

open Fallible Tables Runs Exchange Ledger Documents

/-- The side a message of the kind may come from. -/
def Kind.From : Kind → Bool → Prop
  | .ready, initiator => initiator = false
  | .propose, initiator | .commit, initiator | .abort, initiator => initiator = true
  | _, _ => True

/-- The reasons records are terminated for. -/
def Exchange.reasons : List String := ["retired", "disabled", "revoked"]

namespace Exchange

/-- What the receipts of a record are for, beyond being different. -/
structure Tallied (r : Exchange) : Prop where
  sent : ∀ d ∈ r.receipts, ∃ (kind : Kind) (initiator : Bool), d.senderId = r.side initiator ∧
    d.messageType = kind.code ∧ kind.From initiator
  aborted : r.received .abort true → r.decision.phase = .aborted ∧ ¬ r.received .commit true
  expires : r.prepareExpiresAt = r.createdAt + prepareTtl

/-- The receipts there can be; an exchange that has the `aborting` one cannot have the other. -/
def possible (r : Exchange) (aborting : Bool) : List (Number × UInt8) :=
  [(r.initiatorId, Kind.propose.code), (r.responderId, Kind.ready.code),
    (r.initiatorId, if aborting then Kind.abort.code else Kind.commit.code),
    (r.responderId, Kind.installed.code), (r.initiatorId, Kind.installed.code),
    (r.responderId, Kind.confirmed.code), (r.initiatorId, Kind.confirmed.code)]

theorem Tallied.possible {r : Exchange} (tallied : r.Tallied) :
    ∃ aborting, ∀ d ∈ r.receipts, (d.senderId, d.messageType) ∈ r.possible aborting := by
  by_cases aborting : r.received .abort true
  · refine ⟨true, fun d member => ?_⟩
    obtain ⟨kind, initiator, sender, type, sends⟩ := tallied.sent d member
    have uncommitted := (tallied.aborted aborting).2
    rw [sender, type]
    cases kind <;> cases initiator <;> simp_all [Exchange.possible, Kind.From, side]
    exact absurd ⟨d, member, sender, type⟩ uncommitted
  · refine ⟨false, fun d member => ?_⟩
    obtain ⟨kind, initiator, sender, type, sends⟩ := tallied.sent d member
    rw [sender, type]
    cases kind <;> cases initiator <;> simp_all [Exchange.possible, Kind.From, side]
    exact absurd ⟨d, member, sender, type⟩ aborting

variable [Native] {r r' : Exchange} {t : Transcript} {message : Message} {kind : Kind}

theorem Tallied.receipts (formed : r.WellFormed) (tallied : r.Tallied) :
    r.receipts.length ≤ 7 := by
  obtain ⟨aborting, all⟩ := tallied.possible
  have listed : (r.receipts.map fun d => (d.senderId, d.messageType)) ⊆ r.possible aborting := by
    intro pair member
    obtain ⟨d, there, rfl⟩ := List.mem_map.mp member
    exact all d there
  have fewer := (List.subperm_of_subset formed.single listed).length_le
  rwa [List.length_map] at fewer

/-- A live record has the message of every receipt, a terminal one has none. -/
theorem Tallied.messages (formed : r.WellFormed) (tallied : r.Tallied) :
    r.messages.length ≤ 7 := by
  cases live : r.decision.terminal with
  | true =>
    rw [(formed.compacted live).2]
    exact Nat.zero_le 7
  | false =>
    obtain ⟨t, bodies⟩ := formed.live live
    rw [bodies.digests.length_eq]
    exact tallied.receipts formed

theorem Tallied.opening (opening : r.Opening t message) : r.Tallied := by
  obtain ⟨transcriptHash, digest, now, rfl, hashed, digested, soon⟩ := opening.opened
  obtain ⟨messageType, -, -, -, initiates, -⟩ := shape_cases opening.shape
  obtain ⟨-, initiatorId, -⟩ := authenticate_cases opening.authentic
  obtain ⟨sender, type⟩ := MessageDigest.of_ok digested
  have proposes : digest.messageType = Kind.propose.code := type.trans messageType
  refine ⟨fun d member => ?_, fun received => ?_, rfl⟩
  · rw [List.mem_singleton.mp member]
    exact ⟨.propose, true, sender.trans ((initiates (.inl rfl)).trans initiatorId), proposes, rfl⟩
  · obtain ⟨d, member, -, aborts⟩ := received
    rw [List.mem_singleton.mp member, proposes] at aborts
    exact absurd aborts (by decide)

omit [Native] in
theorem Tallied.closing (tallied : r.Tallied) (closing : Closing r r') : r'.Tallied := by
  obtain ⟨-, termination, rfl, -⟩ := closing.shape
  refine ⟨tallied.sent, fun received => ⟨rfl, ?_⟩, tallied.expires⟩
  exact (tallied.aborted received).2

theorem Tallied.continuing (formed : r.WellFormed) (tallied : r.Tallied)
    (continuing : Continuing r r' t message kind) : r'.Tallied := by
  obtain ⟨-, -, -, -, -, i, o, -, advanced, digest, digested, receipts⟩ := continuing.fields
  obtain ⟨decision, digest', advanced', -, same⟩ := continuing.continued
  obtain ⟨messageType, less, -, responds, initiates, -⟩ := shape_cases continuing.shape
  obtain ⟨sender, type⟩ := MessageDigest.of_ok digested
  have running : r.decision.phase ≠ .aborted := by
    intro aborted
    have live := continuing.live
    simp [Decision.terminal, aborted] at live
  have sameSide : ∀ initiator, r'.side initiator = r.side initiator := by
    intro initiator
    cases initiator <;> simp [side, i, o]
  refine ⟨fun d member => ?_, fun received => ?_, ?_⟩
  · rw [receipts] at member
    rcases List.mem_append.mp member with old | new
    · obtain ⟨k, initiator, from_, type, sends⟩ := tallied.sent d old
      exact ⟨k, initiator, from_.trans (sameSide initiator).symm, type, sends⟩
    · rw [List.mem_singleton.mp new]
      refine ⟨kind, decide (message.senderId = message.initiatorId), ?_, type.trans messageType, ?_⟩
      · rw [sender, sameSide]
        exact (continuing.sides formed _).mpr rfl
      · cases kind with
        | ready => exact decide_eq_false fun it => less.ne (it.symm.trans (responds rfl))
        | propose => exact decide_eq_true (initiates (.inl rfl))
        | commit => exact decide_eq_true (initiates (.inr (.inl rfl)))
        | abort => exact decide_eq_true (initiates (.inr (.inr rfl)))
        | installed => trivial
        | confirmed => trivial
  · rw [continuing.received formed] at received
    rcases received with before | ⟨aborts, -⟩
    · exact absurd (tallied.aborted before).1 running
    · subst aborts
      rcases Decision.advance_cases advanced with ⟨k, _⟩ | ⟨k, _⟩ | ⟨-, -, early, closed⟩ |
        ⟨k, _⟩ | ⟨k, _⟩
      · cases k
      · cases k
      · refine ⟨by rw [closed], fun committed => ?_⟩
        rw [continuing.received formed] at committed
        rcases committed with before | ⟨other, -⟩
        · have has := (formed.accounted .commit true (by decide) (.inl running)).mpr before
          rcases early with phase | phase <;> simp [Decision.has, phase] at has
        · cases other
      · cases k
      · cases k
  · rw [same]
    unfold compact
    split <;> exact tallied.expires

end Exchange

/-! ### The rows of a run -/

namespace Ledger

variable [Native] {l l' : Ledger}

def Tallied (l : Ledger) : Prop := ∀ k r, l.record k = some r → r.Tallied

theorem Tallied.step {event : Event} (inv : l.Inv) (tallied : l.Tallied)
    (step : Step l event l') : l'.Tallied := by
  intro k r' found
  cases step with
  | @settle record settled =>
    have row := settled k
    rw [show record k = some r' from found] at row
    obtain ⟨r, before, same | closing⟩ := row.closed
    · exact same ▸ tallied k r before
    · exact (tallied k r before).closing closing
  | @opened new t message opening _ _ _ _ =>
    rw [record_put] at found
    split at found
    · cases found
      exact .opening opening
    · exact tallied k r' found
  | @continued old new t message kind stored continuing =>
    rw [record_put] at found
    split at found
    · cases found
      exact (tallied _ old stored).continuing (inv.formed _ old stored) continuing
    · exact tallied k r' found
  | @rebundled id b finished replaces =>
    rw [rebundle] at found
    dsimp only at found
    split at found
    · cases found
    · exact tallied k r' found
  | dropped gone stay => exact tallied k r' found

theorem Run.tallied {ms : List (Move Ledger Event)} (inv : l.Inv) (tallied : l.Tallied)
    (run : Run Step l ms l') : l'.Tallied := by
  have preserved : ∀ a event b, a.Inv ∧ a.Tallied → Step a event b → b.Inv ∧ b.Tallied :=
    fun _ _ _ held step => ⟨held.1.step step, held.2.step held.1 step⟩
  exact (run.invariant ⟨inv, tallied⟩ preserved).2

end Ledger

/-! ### Why records were terminated -/

namespace Database

/-- Records were terminated for known reasons only. -/
def Explained (db : Database) : Prop :=
  ∀ k r, db.view.record k = some r → ∀ s, r.termination = some s → s ∈ Exchange.reasons

variable [Native] {db db' : Database}

omit [Native] in
theorem Explained.fewer (explained : db.Explained)
    (rows : ∀ k row, db'.exchanges.lookup k = some row → db.exchanges.lookup k = some row) :
    db'.Explained := by
  intro k r found
  obtain ⟨row, there, rfl⟩ := Option.map_eq_some_iff.mp found
  exact explained k row.record (Option.map_eq_some_iff.mpr ⟨row, rows k row there, rfl⟩)

omit [Native] in
theorem Explained.same (explained : db.Explained) (rows : db'.exchanges = db.exchanges) :
    db'.Explained :=
  explained.fewer fun _ _ found => rows ▸ found

theorem Explained.terminatePeer (sound : db.Sound) (explained : db.Explained) {id : Nat}
    {reason : String} (known : reason ∈ Exchange.reasons)
    (done : db.terminatePeer id reason = .ok db') : db'.Explained := by
  obtain ⟨-, -, -, rows⟩ := terminatePeer_ok sound done
  intro k r' found s terminated
  rw [rows k] at found
  obtain ⟨r, before, rfl⟩ := Option.map_eq_some_iff.mp found
  split at terminated
  · rw [show (Database.terminated reason r).termination = some reason from
      (compact_fields _).2.2.2.2.2.2.1] at terminated
    exact Option.some.inj terminated ▸ known
  · exact explained k r before s terminated

omit [Native] in
/-- A round of a sweep terminates a record as revoked or leaves the reason alone. -/
theorem sweepRecord_explains {s t : Database} {changed : Bool} {now : Nat} {r : Exchange}
    (done : s.sweepRecord changed now r = .ok t) : t = s ∨ ∃ r', r'.key = r.key ∧
      s.save r' = .ok t ∧ (r'.termination = r.termination ∨ r'.termination = some "revoked") := by
  simp only [sweepRecord, bind_ok] at done
  obtain ⟨checked, revoked, done⟩ := done
  generalize expired : (if checked.prepareExpiresAt ≤ now then
    { checked with decision := checked.decision.expire } else checked) = final at done
  have same : final.key = checked.key ∧ final.termination = checked.termination := by
    rw [← expired]
    split <;> exact ⟨rfl, rfl⟩
  split at done
  · obtain ⟨key, -, -, -, -, -, termination, -⟩ := compact_fields final
    refine .inr ⟨_, ?_, done, ?_⟩
    · rcases revoke_ok revoked with ⟨rfl, -⟩ | ⟨-, rfl⟩ <;> exact key.trans same.1
    · rw [termination, same.2]
      rcases revoke_ok revoked with ⟨rfl, -⟩ | ⟨-, rfl⟩
      · exact .inl rfl
      · exact .inr rfl
  · rw [pure_ok] at done
    exact .inl done.symm

theorem Explained.sweepInner (sound : db.Sound) (explained : db.Explained) {now : Nat}
    (done : db.sweepInner now = .ok db') : db'.Explained := by
  simp only [Database.sweepInner, bind_ok, require_ok, pure_ok] at done
  obtain ⟨_, soon, visited, walk, finished⟩ := done
  obtain ⟨-, columns, -, rows⟩ := visit_ok (fun _ => True)
    (fun r r' => r'.termination = r.termination ∨ r'.termination = some "revoked")
    sound.columns sound.keyed (fun s t r _ round => (sweepRecord_explains round).imp
      (fun left => ⟨left, trivial⟩) fun next => next.imp fun _ held =>
        ⟨held.1, held.2.1, fun _ => held.2.2⟩) walk
  have whole : visited.Explained := by
    intro k r' found s terminated
    rw [columns.record] at found
    by_cases here : ∃ row, db.exchanges.lookup k = some row ∧
        swept db.visibilityChanged now row = true
    · obtain ⟨row, stored, selected⟩ := here
      have before := sound.columns.record.mpr (sound.columns.row stored)
      have columned := sound.columns k row stored
      rw [columned] at stored selected
      rcases (rows k).1 row.record stored (swept_row.mp selected).1 selected with ⟨-, left⟩ |
        ⟨r, why, left⟩
      · obtain rfl : r' = row.record :=
          congrArg ExchangeRow.record (Option.some.inj (found.symm.trans left))
        exact explained k row.record before s terminated
      · obtain rfl : r' = r :=
          congrArg ExchangeRow.record (Option.some.inj (found.symm.trans left))
        rcases why with same | revoked
        · exact explained k row.record before s (same ▸ terminated)
        · cases Option.some.inj (revoked.symm.trans terminated)
          exact by decide
    · rw [(rows k).2 fun row stored => Bool.eq_false_iff.mpr fun selected =>
        here ⟨row, stored, selected⟩] at found
      exact explained k r' (sound.columns.record.mpr found) s terminated
  refine whole.same ?_
  rw [← finished]
  split <;> rfl

theorem Explained.submitInner (sound : db.Sound) (explained : db.Explained) {id other : Nat}
    {key : String} {message : Message} {limits : Limits} {size now : Nat} {r : Exchange}
    (done : db.submitInner id key other message limits size now = .ok (r, db')) :
    db'.Explained := by
  obtain ⟨-, -, -, -, -, -, -, -, known | opened | continued⟩ := submitInner_ok sound done
  · exact known.1 ▸ explained
  · obtain ⟨shape, t, opening, -⟩ := opened.opened_cases
    obtain ⟨_, _, _, rfl, -⟩ := opening.opened
    rw [Explained, shape]
    intro k r found s terminated
    rw [record_put] at found
    split at found
    · cases found
      cases terminated
    · exact explained k r found s terminated
  · obtain ⟨shape, before, t, kind, stored, continuing⟩ := continued.continued_cases
    obtain ⟨-, -, -, -, -, -, -, same, -⟩ := continuing.fields
    rw [Explained, shape]
    intro k r' found s terminated
    rw [record_put] at found
    split at found
    · cases found
      exact explained _ before stored s (same ▸ terminated)
    · exact explained k r' found s terminated

theorem Explained.registerInner (sound : db.Sound) (explained : db.Explained) {id : Nat}
    {key : String} {request : Registration} {limits : Limits} {size : Nat} {a : AdvertisedBundle}
    (done : db.registerInner id key request limits size = .ok (a, db')) : db'.Explained := by
  simp only [Database.registerInner, bind_ok, pq_ok, require_ok] at done
  obtain ⟨_, _, _, _, _, _, _, _, current, _, _, _, _, _, next, _, _, _, done⟩ := done
  split at done
  · cases done
    exact explained
  · simp only [bind_ok, require_ok, pure_ok, Prod.mk.injEq] at done
    obtain ⟨_, _, _, _, opened, branch, -, rfl⟩ := done
    have whole : opened.Explained := by
      unfold changeLifecycle at branch
      split at branch
      · rw [(enroll_ok branch).2]
        exact explained.same rfl
      · unfold retire at branch
        split at branch
        · cases branch
        · rw [bind_ok] at branch
          obtain ⟨_, _, done⟩ := branch
          exact explained.terminatePeer sound (by decide) done
    refine whole.fewer fun k row found => ?_
    exact (Option.filter_eq_some_iff.mp ((lookup_keep _ _ k).symm.trans found)).1

theorem Explained.write (sound : db.Sound) (explained : db.Explained) {α : Type} (now : Nat)
    {operation : Database → Except ServerError (α × Database)}
    (done : ∀ swept a db', swept.Sound → swept.Explained → operation swept = .ok (a, db') →
      db'.Explained) : (db.write now operation).2.Explained := by
  unfold Database.write
  split
  · exact explained
  · rename_i swept sweep
    have first := explained.sweepInner sound sweep
    split
    · exact first
    · rename_i a db' accepted
      exact done swept a db' (sweepInner_ok sound sweep).2.2.1 first accepted

omit [Native] in
theorem Explained.commit (explained : db.Explained) {changed : Except ServerError Database}
    (done : ∀ db', changed = .ok db' → db'.Explained) : (db.commit changed).Explained := by
  unfold Database.commit
  split
  · exact done _ rfl
  · exact explained

theorem Explained.disabled (sound : db.Sound) (explained : db.Explained) {id : Nat}
    {row row' : PeerRow} (found : db.peers.lookup id = some row)
    (done : ((db.setPeer id row').touch 1).terminatePeer id "disabled" = .ok db')
    (kept : row'.isRedeemed = row.isRedeemed) : db'.Explained := by
  have reached : Reaches (fun _ => True) db ((db.setPeer id row').touch 1) [] := by
    refine sound.untouched rfl rfl rfl (setPeer_redeemed fun before present yes => ?_)
    rw [found] at present
    cases present
    exact kept.trans yes
  exact (explained.same rfl).terminatePeer reached.sound (by decide) done

end Database

open Database

theorem Operation.explained [Native] (op : Operation) {db : Database} (sound : db.Sound)
    (explained : db.Explained) : (op.apply db).Explained := by
  cases op with
  | register id key request limits size now =>
    exact explained.write sound now fun swept a db' sound' explained' accepted =>
      explained'.registerInner sound' accepted
  | submit id key other message limits size now =>
    exact explained.write sound now fun swept r db' sound' explained' accepted =>
      explained'.submitInner sound' accepted
  | sweep now =>
    change (db.sweep now).2.Explained
    unfold Database.sweep
    split
    · exact explained
    · rename_i swept done
      exact explained.sweepInner sound done
  | page id key now walk =>
    change (db.page id key now walk).2.Explained
    unfold Database.page
    dsimp only
    split
    · exact explained
    · rename_i result swept read
      simp only [bind_ok, require_ok, pure_ok, Prod.mk.injEq] at read
      obtain ⟨_, _, _, _, _, sweep, _, _, _, rfl⟩ := read
      exact explained.sweepInner sound sweep
  | createPeer contents =>
    refine explained.commit fun db' done => ?_
    simp only [Database.createPeer, bind_ok, require_ok, pure_ok] at done
    obtain ⟨_, _, _, _, rfl⟩ := done
    exact explained.same rfl
  | updatePeer id name isDisabled =>
    refine explained.commit fun db' done => ?_
    simp only [Database.updatePeer, bind_ok] at done
    obtain ⟨updated, changed, finished⟩ := done
    unfold Database.writeContents at changed
    split at changed
    · rw [Except.ok.injEq] at changed
      subst changed
      split at finished
      · exact explained.terminatePeer sound (by decide) finished
      · exact (pure_ok.mp finished) ▸ explained
    · rename_i row found
      simp only [bind_ok, pure_ok] at changed
      obtain ⟨_, _, rfl⟩ := changed
      split at finished
      · exact explained.disabled sound found finished rfl
      · exact (pure_ok.mp finished) ▸ explained.same rfl
  | disablePeer id =>
    refine explained.commit fun db' done => ?_
    unfold Database.disablePeer at done
    split at done
    · cases done
    · rename_i row found
      exact explained.disabled sound found done rfl
  | redeemPeer id publicKey now =>
    refine explained.commit fun db' done => ?_
    simp only [Database.redeemPeer, bind_ok, pure_ok] at done
    obtain ⟨_, _, _, _, _, _, _, _, rfl⟩ := done
    exact explained.same rfl
  | deleteExpiredInvites now =>
    refine explained.fewer fun k row found => ?_
    exact (Option.filter_eq_some_iff.mp ((lookup_keep _ _ k).symm.trans found)).1
  | identifyServer publicKey ip =>
    refine explained.commit fun db' done => ?_
    unfold Database.identifyServer at done
    split at done
    · cases done
    · simp only [bind_ok] at done
      obtain ⟨_, _, _, _, done⟩ := done
      split at done <;> cases done
      · exact explained
      · exact explained.same rfl
  | createCidr parent =>
    refine explained.commit fun db' done => ?_
    simp only [Database.createCidr, bind_ok, pure_ok] at done
    obtain ⟨_, _, _, _, rfl⟩ := done
    exact explained.same rfl
  | updateCidr id =>
    change (db.updateCidr id).Explained
    unfold Database.updateCidr
    split <;> exact explained.same rfl
  | deleteCidr id =>
    refine explained.commit fun db' done => ?_
    simp only [Database.deleteCidr, bind_ok, pure_ok] at done
    obtain ⟨_, _, rfl⟩ := done
    split <;> exact explained.same rfl
  | createAssociation contents =>
    refine explained.commit fun db' done => ?_
    simp only [Database.createAssociation, bind_ok, pure_ok] at done
    obtain ⟨_, _, _, _, rfl⟩ := done
    exact explained.same rfl
  | deleteAssociation id =>
    refine explained.commit fun db' done => ?_
    unfold Database.deleteAssociation at done
    dsimp only at done
    split at done
    · have removed : Reaches (fun _ => True) db { db.touch 1 with
          associations := keep (fun k _ => decide (k ≠ id)) db.associations } [] :=
        sound.samePeers rfl rfl rfl rfl
      exact Explained.sweepInner removed.sound (explained.same rfl) done
    · exact explained.sweepInner sound done
  | setManagementReady ready => exact explained.same rfl
  | enable =>
    refine explained.commit fun db' done => ?_
    simp only [Database.enable, bind_ok, pure_ok] at done
    obtain ⟨_, _, rfl⟩ := done
    exact explained.same rfl

/-! ### What is saved -/

/-- The bounds of a record. Its text is ASCII: it has as many characters as bytes. -/
structure Exchange.Fits (r : Exchange) : Prop where
  receipts : r.receipts.length ≤ 7
  messages : r.messages.length ≤ 7
  single : (r.receipts.map fun d => (d.senderId, d.messageType)).Nodup
  sequence : r.sequence.val < 2 ^ 63
  expires : r.prepareExpiresAt < 2 ^ 63
  length : r.json.length ≤ 32768

/-- The `CHECK` constraints of `pq_exchanges` that no column has by its type. -/
structure ExchangeRow.Checked (k : ExchangeKey) (row : ExchangeRow) : Prop where
  sequence : 0 < row.sequence.val
  length : row.record.json.length ≤ 32768
  valid : ∃ v : Value, v.Strict ∧ row.record.json = v.render
  ordered : 0 < k.initiatorId ∧ k.initiatorId < k.responderId

/-- What may be saved in the place of a record. -/
inductive Exchange.Next [Native] (r : Exchange) : Exchange → Prop where
  | terminated {reason : String} : reason ∈ Exchange.reasons → r.decision.terminal = false →
      Next r (Database.terminated reason r)
  | expired {now : Nat} : r.Due now → Next r { r with decision := r.decision.expire }.compact
  | compacted : Next r r.compact
  | accepted {r' : Exchange} {t : Transcript} {message : Message} {kind : Kind} :
      Continuing r r' t message kind → Next r r'

namespace Exchange

variable [Native] {r r' : Exchange}

theorem fits (formed : r.WellFormed) (tallied : r.Tallied)
    (explained : ∀ s, r.termination = some s → s ∈ reasons) :
    r.Fits ∧ r.row.Checked r.key := by
  have soon : r.prepareExpiresAt < 10 ^ 20 := formed.expires.trans (by decide)
  have earlier : r.createdAt ≤ r.prepareExpiresAt := by
    rw [tallied.expires]
    exact Nat.le_add_right _ _
  have short : ∀ s ∈ reasons, (Serialization.text s).render.length ≤ 100 := by decide
  have ascii : ∀ s ∈ reasons, (Serialization.text s).Strict := by
    intro s member
    refine Serialization.text_strict ?_
    revert s
    decide
  have length : r.json.length ≤ 32768 := Serialization.record_length r (tallied.messages formed)
    (tallied.receipts formed) (earlier.trans_lt soon) soon
    (Serialization.optional_length _ (by decide) fun s why => short s (explained s why))
  refine ⟨?_, ?_⟩
  · exact {
      receipts := tallied.receipts formed
      messages := tallied.messages formed
      single := formed.single
      sequence := r.sequence.bounded
      expires := formed.expires
      length }
  · exact {
      sequence := r.sequence.positive
      length
      valid := ⟨r.value, Serialization.record_strict r fun s why => ascii s (explained s why), rfl⟩
      ordered := ⟨r.initiatorId.positive, formed.ordered⟩ }

omit [Native] in
theorem terminated_termination (reason : String) :
    (Database.terminated reason r).termination = some reason := by
  obtain ⟨-, -, -, -, -, -, termination, -⟩ := compact_fields { r with
    decision := { r.decision with phase := .aborted }, termination := some reason }
  exact termination

/-- What the checks read of a record stays right in everything saved in its place. -/
theorem Next.kept (formed : r.WellFormed) (tallied : r.Tallied)
    (explained : ∀ s, r.termination = some s → s ∈ reasons) (next : r.Next r') :
    r'.key = r.key ∧ r'.WellFormed ∧ r'.Tallied ∧
      ∀ s, r'.termination = some s → s ∈ reasons := by
  cases next with
  | @terminated reason known live =>
    have closing : Closing r (Database.terminated reason r) := .decree reason live
    refine ⟨closing_key closing, formed.close closing, tallied.closing closing, ?_⟩
    intro s why
    rw [terminated_termination] at why
    exact Option.some.inj why ▸ known
  | expired due =>
    have closing : Closing r { r with decision := r.decision.expire }.compact := .expiry due.1
    refine ⟨closing_key closing, formed.close closing, tallied.closing closing, ?_⟩
    rw [(compact_fields _).2.2.2.2.2.2.1]
    exact explained
  | compacted =>
    have same : r.compact = r := by
      cases live : r.decision.terminal with
      | false => exact compact_live live
      | true =>
        obtain ⟨transcript, messages⟩ := formed.compacted live
        rw [compact_terminal live, ← transcript, ← messages]
    rw [same]
    exact ⟨rfl, formed, tallied, explained⟩
  | accepted continuing =>
    obtain ⟨key, -, -, -, -, -, -, termination, -⟩ := continuing.fields
    refine ⟨key, formed.continue continuing, tallied.continuing formed continuing, ?_⟩
    rw [termination]
    exact explained

theorem Opening.fits {t : Transcript} {message : Message} (opening : r.Opening t message) :
    r.Fits ∧ r.row.Checked r.key := by
  refine Exchange.fits opening.wellFormed (.opening opening) fun s why => ?_
  obtain ⟨_, _, _, rfl, -⟩ := opening.opened
  cases why

end Exchange

namespace Database

variable [Native] {db : Database}

/-- No other record of the pair is active beside an active one. -/
theorem Sound.alone (sound : db.Sound) {r : Exchange} (stored : db.view.record r.key = some r) :
    any (fun k row => row.active && decide (k ≠ r.key ∧ k.initiatorId = r.key.initiatorId ∧
      k.responderId = r.key.responderId)) db.exchanges = false := by
  refine Bool.eq_false_iff.mpr fun other => ?_
  obtain ⟨k, row, found, selected⟩ := (any_iff _ _).mp other
  rw [Bool.and_eq_true, decide_eq_true_eq] at selected
  obtain ⟨-, different, initiator, responder⟩ := selected
  have there := sound.columns.record.mpr (sound.columns.row found)
  exact different (sound.ledger.single there stored initiator responder)

/-- The table takes whatever comes in the place of a stored record. -/
theorem Sound.save_next (sound : db.Sound) {r r' : Exchange}
    (stored : db.view.record r.key = some r) (key : r'.key = r.key)
    (soon : r'.prepareExpiresAt < 2 ^ 63) : ∃ db', db.save r' = .ok db' := by
  refine ⟨{ db with exchanges := db.exchanges.insert r'.key r'.row }, ?_⟩
  simp only [save, bind_ok, require_ok, pure_ok]
  refine ⟨⟨⟩, soon, ⟨⟩, .inl ?_, ⟨⟩, .inr ?_, trivial⟩
  · rw [key, sound.columns.record.mp stored]
    exact Option.some_ne_none _
  · rw [key]
    exact sound.alone stored

omit [Native] in
theorem pq_unconstrained {α : Type} (x : Except Error α) : pq x ≠ .error .constraint := by
  cases x <;> exact fun failed => nomatch failed

omit [Native] in
theorem getPeer_unconstrained (id : Nat) : db.getPeer id ≠ .error .constraint := by
  unfold getPeer
  split <;> exact fun failed => nomatch failed

omit [Native] in
theorem caller_unconstrained (id : Nat) (key : String) : db.caller id key ≠ .error .constraint := by
  refine bind_ne_error (getPeer_unconstrained id) fun row _ => bind_ne_error ?_ fun _ _ => ?_
  · exact require_ne_error (by decide)
  · exact fun failed => nomatch failed

theorem bundle_unconstrained (p : Nat) : db.bundle p ≠ .error .constraint := by
  unfold Database.bundle
  split
  · exact fun failed => nomatch failed
  · refine bind_ne_error (pq_unconstrained _) fun _ _ => bind_ne_error ?_ fun _ _ => ?_
    · exact require_ne_error (by decide)
    · exact fun failed => nomatch failed

theorem activeBundle_unconstrained (p : Nat) : db.activeBundle p ≠ .error .constraint := by
  refine bind_ne_error (bundle_unconstrained p) fun current _ => ?_
  cases current with
  | none => exact fun failed => nomatch failed
  | some advertised =>
    refine bind_ne_error (require_ne_error (by decide)) fun _ _ =>
      bind_ne_error (getPeer_unconstrained p) fun _ _ => bind_ne_error ?_ fun _ _ => ?_
    · exact require_ne_error (by decide)
    · exact fun failed => nomatch failed

omit [Native] in
theorem save_unconstrained {r : Exchange}
    (saves : r.prepareExpiresAt < 2 ^ 63 → ∃ db', db.save r = .ok db') :
    db.save r ≠ .error .constraint := by
  intro failed
  by_cases soon : r.prepareExpiresAt < 2 ^ 63
  · obtain ⟨db', saved⟩ := saves soon
    rw [saved] at failed
    cases failed
  · rw [save, bind_error] at failed
    rcases failed with early | ⟨_, passed, -⟩
    · cases (require_error.mp early).2
    · exact soon (require_ok.mp passed)

theorem Sound.continueExchange_unconstrained (sound : db.Sound) {record : Exchange} {kind : Kind}
    {initiator : Bool} {message : Message} {digest : MessageDigest}
    (stored : db.view.record record.key = some record) :
    db.continueExchange record kind initiator message digest ≠ .error .constraint := by
  refine bind_ne_error (require_ne_error (by decide)) fun _ _ => ?_
  split
  · exact fun failed => by cases failed
  · refine bind_ne_error (require_ne_error (by decide)) fun _ _ => ?_
    split
    · exact fun failed => by cases failed
    · refine bind_ne_error (pq_unconstrained _) fun _ _ =>
        bind_ne_error (pq_unconstrained _) fun decision _ => bind_ne_error ?_ fun _ _ => ?_
      · exact save_unconstrained fun soon => sound.save_next stored (compact_fields _).1 soon
      · exact fun failed => by cases failed

theorem Sound.openExchange_unconstrained (sound : db.Sound) {id other : Nat}
    {first second : Bundle} {kind : Kind} {message : Message} {digest : MessageDigest}
    {limits : Limits} {size now : Nat} (shape : message.validateShape = .ok kind)
    (initiator : message.initiatorId.val = min id other)
    (responder : message.responderId.val = max id other)
    (allowed : db.pairAllowed id other = .ok ()) :
    db.openExchange id other first second kind message digest limits size now ≠
      .error .constraint := by
  refine bind_ne_error (require_ne_error (by decide)) fun _ idle => ?_
  have idle := (require_ok.mp idle).2
  refine bind_ne_error (require_ne_error (by decide)) fun _ _ =>
    bind_ne_error (require_ne_error (by decide)) fun _ _ => ?_
  split
  · refine bind_ne_error (pq_unconstrained _) fun _ _ =>
      bind_ne_error (pq_unconstrained _) fun _ _ => bind_ne_error (pq_unconstrained _) fun hash _ =>
      bind_ne_error (require_ne_error (by decide)) fun _ _ => bind_ne_error ?_ fun _ _ => ?_
    · refine save_unconstrained fun soon => ?_
      have present : ∀ p, p = id ∨ p = other → db.peers.lookup p ≠ none := by
        intro p member
        obtain ⟨row, found, -⟩ := pairAllowed_redeemed allowed p member
        rw [found]
        exact Option.some_ne_none row
      simp only [save, bind_ok, require_ok, pure_ok]
      refine ⟨_, ⟨⟩, soon, ⟨⟩, .inr ⟨(shape_cases shape).2.1, ?_, ?_⟩, ⟨⟩, .inr ?_, rfl⟩
      · exact initiator ▸ present _ (min_choice id other)
      · exact responder ▸ present _ (max_choice id other)
      · refine Bool.eq_false_iff.mpr fun another => ?_
        obtain ⟨k, row, found, selected⟩ := (any_iff _ _).mp another
        rw [Bool.and_eq_true, decide_eq_true_eq] at selected
        obtain ⟨active, -, sameInitiator, sameResponder⟩ := selected
        have listed : row.record ∈ db.loadPair id other := mem_loadPair.mpr
          ⟨k, row, found, sameInitiator.trans initiator, sameResponder.trans responder, rfl⟩
        rw [sound.columns k row found, row_active, idle _ listed] at active
        cases active
    · exact fun failed => by cases failed
  · exact fun failed => by cases failed

/-- No request fails for what the table of exchanges would not take. -/
theorem Sound.submitInner_unconstrained (sound : db.Sound) (id : Nat) (key : String) (other : Nat)
    (message : Message) (limits : Limits) (size now : Nat) :
    db.submitInner id key other message limits size now ≠ .error .constraint := by
  have unrefused : db.pairAllowed id other ≠ .error .constraint := by
    intro refused
    rcases pairAllowed_error refused with never | never <;> cases never
  refine bind_ne_error (require_ne_error (by decide)) fun _ _ =>
    bind_ne_error (caller_unconstrained id key) fun _ _ => bind_ne_error unrefused fun _ allowed =>
    bind_ne_error (pq_unconstrained _) fun kind shape =>
    bind_ne_error (require_ne_error (by decide)) fun _ addressed =>
    bind_ne_error (activeBundle_unconstrained _) fun first _ =>
    bind_ne_error (activeBundle_unconstrained _) fun second _ =>
    bind_ne_error (require_ne_error (by decide)) fun _ _ =>
    bind_ne_error (pq_unconstrained _) fun digest _ => ?_
  obtain ⟨-, initiator, responder⟩ := require_ok.mp addressed
  have opens : db.openExchange id other first second kind message digest limits size now ≠
      .error .constraint :=
    sound.openExchange_unconstrained (pq_ok.mp shape) initiator responder allowed
  split
  · exact opens
  · rename_i record found
    obtain ⟨recordKey, stored, -⟩ := sound.find_some found
    refine bind_ne_error (require_ne_error (by decide)) fun _ _ => ?_
    split
    · exact sound.continueExchange_unconstrained (recordKey ▸ stored)
    · exact opens

end Database

end Innernet
