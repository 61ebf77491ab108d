import Innernet.Activation
import Innernet.Server.Guarantees
import Innernet.Server.Rows

/-! Requests of the mailbox that are made again: a refused one leaves only what was due, and an
accepted message is answered from the record it is in. -/
namespace Innernet

open Fallible Tables Runs Exchange Ledger

variable [Native]

/-- The record has taken the message in. -/
structure Exchange.Acknowledges (r : Exchange) (message : Message) : Prop where
  sequence : r.sequence = message.sequence
  exchangeId : r.exchangeId = message.exchangeId
  transcriptHash : r.transcriptHash = message.transcriptHash
  receipt : ∃ digest ∈ r.receipts, MessageDigest.of message = .ok digest

/-- The message is in the record, or in one a newer exchange has overwritten. -/
def Exchange.Passed (message : Message) (r : Exchange) : Prop :=
  message.sequence < r.sequence ∨ r.Acknowledges message

theorem Exchange.Passed.evolves {message : Message} (r r' : Exchange) (passed : r.Passed message)
    (evolved : r.Evolves r') (carries : r.Carries r') : r'.Passed message := by
  rcases passed with above | ⟨sequence, exchangeId, hash, digest, member, digested⟩
  · exact .inl (evolved.sequence ▸ above)
  · exact .inr {
      sequence := evolved.sequence.trans sequence
      exchangeId := evolved.exchangeId.trans exchangeId
      transcriptHash := carries.transcriptHash.trans hash
      receipt := ⟨digest, carries.receipts digest member, digested⟩ }

theorem Exchange.Passed.newer {message : Message} (r r' : Exchange)
    (passed : r.Passed message) (above : r.sequence < r'.sequence) : r'.Passed message := by
  rcases passed with before | acknowledges
  · exact .inl (before.trans above)
  · exact .inl (acknowledges.sequence ▸ above)

/-- A well-formed message of the network from `id` to `other`. -/
structure Message.Addressed (message : Message) (networkId : Binary 16) (id other : Nat) :
    Prop where
  shape : ∃ kind, message.validateShape = .ok kind
  sender : message.senderId.val = id
  initiator : message.initiatorId.val = min id other
  responder : message.responderId.val = max id other
  networkId : message.networkId = networkId

/-- The caller may write to the pair: the server is ready, the two peers are allowed to each other,
and the bundles the message names are their current ones. -/
structure Database.Entitled (db : Database) (id : Nat) (key : String) (other : Nat)
    (message : Message) : Prop where
  ready : db.ready = true
  caller : ∃ row, db.caller id key = .ok row
  allowed : db.pairAllowed id other = .ok ()
  initiator : ∃ b, db.activeBundle (min id other) = .ok b ∧
    b.bundleId = message.initiatorBundleId
  responder : ∃ b, db.activeBundle (max id other) = .ok b ∧
    b.bundleId = message.responderBundleId

namespace Database

variable {db swept : Database} {id other : Nat} {key : String} {message : Message}
  {limits : Limits} {size now : Nat}

/-- The sweep leaves the directory and the bundles as they are. -/
theorem OnlySwept.entitled (only : db.OnlySwept swept)
    (entitled : db.Entitled id key other message) : swept.Entitled id key other message := by
  have allowed : swept.allowedKey ⟨id, other, 0, 0⟩ := only.directory.allowed.mpr entitled.allowed
  have bundles : ∀ p, swept.activeBundle p = db.activeBundle p := by
    intro p
    rw [only]
    rfl
  exact {
    ready := only.serves.1.trans entitled.ready
    caller := by
      rw [only.serves.2.1]
      exact entitled.caller
    allowed
    initiator := by
      rw [bundles]
      exact entitled.initiator
    responder := by
      rw [bundles]
      exact entitled.responder }

theorem submitInner_addressed {r : Exchange} {db' : Database}
    (done : db.submitInner id key other message limits size now = .ok (r, db')) :
    message.Addressed db.network.networkId id other := by
  simp only [submitInner, bind_ok, pq_ok, require_ok] at done
  obtain ⟨_, _, _, _, _, _, kind, shape, _, ⟨sender, initiator, responder⟩, _, _, _, _, _,
    ⟨networkId, -⟩, -⟩ := done
  exact ⟨⟨kind, shape⟩, sender, initiator, responder, networkId⟩

/-- What an accepted message leaves in the record that answers it. -/
theorem submitInner_acknowledges (sound : db.Sound) {r : Exchange} {db' : Database}
    (done : db.submitInner id key other message limits size now = .ok (r, db')) :
    r.Acknowledges message := by
  obtain ⟨-, -, -, -, -, -, -, sequence, known | opened | continued⟩ := submitInner_ok sound done
  · obtain ⟨-, sameId, sameHash, receipt⟩ := known
    exact ⟨sequence, sameId.symm, sameHash.symm, receipt⟩
  · obtain ⟨-, t, opening, -⟩ := opened.opened_cases
    obtain ⟨transcriptHash, digest, _, rfl, hashed, digested, -⟩ := opening.opened
    obtain ⟨-, -, -, -, -, -, sameId, hashed'⟩ := authenticate_cases opening.authentic
    refine ⟨sequence, sameId.symm, ?_, digest, List.mem_singleton_self digest, digested⟩
    exact Except.ok.inj (hashed.symm.trans hashed')
  · obtain ⟨-, before, t, kind, stored, continuing⟩ := continued.continued_cases
    obtain ⟨-, -, exchangeId, -, hash, -, -, -, -, digest, digested, receipts⟩ := continuing.fields
    obtain ⟨u, bodies⟩ := (sound.ledger.formed _ _ stored).live continuing.live
    cases Option.some.inj (continuing.transcript.symm.trans bodies.transcript)
    obtain ⟨-, -, -, -, -, -, sameId, hashed⟩ := authenticate_cases continuing.authentic
    refine ⟨sequence, ?_, ?_, digest, by simp [receipts], digested⟩
    · rw [exchangeId, ← bodies.exchangeId, sameId]
    · rw [hash]
      exact Except.ok.inj (bodies.hashed.symm.trans hashed)

theorem Sound.find (sound : db.Sound) {first second : Bundle} {r : Exchange}
    (stored : db.view.record (pairKey id other first second) = some r) :
    ((db.loadPair id other).find? fun r => r.initiatorBundleId = first.bundleId ∧
      r.responderBundleId = second.bundleId) = some r := by
  cases found : (db.loadPair id other).find? fun r => r.initiatorBundleId = first.bundleId ∧
      r.responderBundleId = second.bundleId with
  | none =>
    rw [sound.find_none found] at stored
    cases stored
  | some r' =>
    rw [(sound.find_some found).2.1] at stored
    exact stored

/-- A message the record has taken in is answered by the record, before anything else about the
record is looked at. -/
theorem Sound.submitInner_again (sound : db.Sound)
    (entitled : db.Entitled id key other message)
    (addressed : message.Addressed db.network.networkId id other) {k : ExchangeKey} {r : Exchange}
    (place : k = ⟨min id other, max id other, message.initiatorBundleId,
      message.responderBundleId⟩)
    (stored : db.view.record k = some r) (acknowledges : r.Acknowledges message) :
    db.submitInner id key other message limits size now = .ok (r, db) := by
  obtain ⟨row, caller⟩ := entitled.caller
  obtain ⟨first, firstActive, firstId⟩ := entitled.initiator
  obtain ⟨second, secondActive, secondId⟩ := entitled.responder
  obtain ⟨kind, shape⟩ := addressed.shape
  obtain ⟨digest, member, digested⟩ := acknowledges.receipt
  rw [place, ← firstId, ← secondId] at stored
  simp only [submitInner, bind_ok, pq_ok, require_ok]
  refine ⟨⟨⟩, entitled.ready, row, caller, ⟨⟩, entitled.allowed, kind, shape, ⟨⟩,
    ⟨addressed.sender, addressed.initiator, addressed.responder⟩, first, firstActive, second,
    secondActive, ⟨⟩, ⟨addressed.networkId, firstId.symm, secondId.symm⟩, digest, digested, ?_⟩
  rw [sound.find stored]
  simp only [bind_ok, require_ok]
  refine ⟨⟨⟩, acknowledges.sequence.le, ?_⟩
  rw [if_pos acknowledges.sequence.symm, continueExchange, bind_ok]
  refine ⟨⟨⟩, require_ok.mpr ⟨acknowledges.exchangeId.symm, acknowledges.transcriptHash.symm⟩, ?_⟩
  rw [if_pos member]
  rfl

omit [Native] in
/-- A refused write leaves what a sweep alone leaves. -/
theorem write_refused {α : Type} {operation : Database → Except ServerError (α × Database)}
    {e : ServerError} (refused : (db.write now operation).1 = .error e) :
    (db.write now operation).2 = (db.sweep now).2 := by
  cases done : db.sweepInner now with
  | error e' =>
    unfold write Database.sweep
    rw [done]
  | ok swept =>
    rw [(write_swept done).1 e refused, Database.sweep, done]

end Database

open Database

/-- No operation gives the network another id. -/
theorem Database.networkId_constant {db db' : Database} {ms : List (Move Database Operation)}
    (sound : db.Sound) (run : Run Operation.Step db ms db') :
    db'.network.networkId = db.network.networkId := by
  have kept : db'.Sound ∧ db'.network.networkId = db.network.networkId := by
    refine run.invariant (P := fun d => d.Sound ∧ d.network.networkId = db.network.networkId)
      ⟨sound, rfl⟩ ?_
    intro a op b held taken
    cases taken
    exact ⟨(op.reaches held.1).sound, (op.rewritten held.1).networkId.trans held.2⟩
  exact kept.2

/-- What the tables hold after an accepted message. -/
theorem Database.Sound.accepted {db : Database} (sound : db.Sound) {id other : Nat} {key : String}
    {message : Message} {limits : Limits} {size now : Nat} {r : Exchange}
    (accepted : (db.submit id key other message limits size now).1 = .ok r) :
    message.Addressed db.network.networkId id other ∧
      r.key = ⟨min id other, max id other, message.initiatorBundleId,
        message.responderBundleId⟩ ∧
      (db.submit id key other message limits size now).2.view.record r.key = some r ∧
      r.Acknowledges message := by
  cases done : db.sweepInner now with
  | error e =>
    rw [Database.submit, write, done] at accepted
    cases accepted
  | ok swept =>
    obtain ⟨-, only, soundSwept, -⟩ := sweepInner_ok sound done
    have inner := (serves done).accepted id key other message limits size r accepted
    obtain ⟨-, -, there, initiator, responder, first, second, -⟩ := submitInner_ok soundSwept inner
    have networkId : swept.network.networkId = db.network.networkId := by rw [only]
    refine ⟨networkId ▸ submitInner_addressed inner, ?_, there,
      submitInner_acknowledges soundSwept inner⟩
    rw [Exchange.key, initiator, responder, first, second]

/-- What a message was accepted into stays with it: later tables answer it from the record of its
exchange, as long as that is there under the same sequence. -/
theorem Database.Sound.retried {db db' : Database} {ms : List (Move Database Operation)}
    (sound : db.Sound) (run : Run Operation.Step db ms db') {id other : Nat} {key : String}
    {message : Message} {limits : Limits} {size now : Nat} {k : ExchangeKey} {row : ExchangeRow}
    (passed : db.view.Keeps message.initiatorBundleId message.responderBundleId
      (Passed message))
    (place : k = ⟨min id other, max id other, message.initiatorBundleId,
      message.responderBundleId⟩)
    (addressed : message.Addressed db.network.networkId id other)
    (found : db'.exchanges.lookup k = some row) (current : row.sequence = message.sequence)
    (entitled : db'.Entitled id key other message) (soon : now < 2 ^ 63) :
    ∃ row', (db'.sweep now).2.exchanges.lookup k = some row' ∧
      db'.submit id key other message limits size now = (.ok row'.record, (db'.sweep now).2) := by
  obtain ⟨moves, steps, -⟩ := (Operation.history sound run).run
  have sound' := (Operation.history sound run).sound
  obtain ⟨swept, done⟩ := sweepInner_succeeds sound' soon
  obtain ⟨-, only, soundSwept, settled, -⟩ := sweepInner_ok sound' done
  have columns := sound'.columns k row found
  have there := sound'.columns.record.mpr (sound'.columns.row found)
  -- the sweep may close the record, its sequence stays
  have kept : ∃ r, swept.view.record k = some r ∧ r.sequence = message.sequence := by
    have same := Operation.settled_sequence settled k
    rw [there, Option.map_some] at same
    obtain ⟨r, after, equal⟩ := Option.map_eq_some_iff.mp same
    refine ⟨r, after, equal.trans ?_⟩
    rw [columns] at current
    exact current
  obtain ⟨r, after, sequence⟩ := kept
  have acknowledges : r.Acknowledges message := by
    have stands := Ledger.Run.keeps sound.ledger (steps.move settled) Passed.evolves Passed.newer
      passed
    rw [place] at after
    rcases stands.here soundSwept.ledger after with above | acknowledges
    · exact absurd sequence above.ne'
    · exact acknowledges
  have networkId : swept.network.networkId = db.network.networkId :=
    (show swept.network.networkId = db'.network.networkId by rw [only]).trans
      (networkId_constant sound run)
  have answered : swept.submitInner id key other message limits size now = .ok (r, swept) :=
    soundSwept.submitInner_again (only.entitled entitled) (networkId ▸ addressed) place after
      acknowledges
  refine ⟨r.row, ?_, ?_⟩
  · rw [Database.sweep, done]
    exact soundSwept.columns.record.mp after
  · simp only [Database.submit, write, Database.sweep, done, answered]
    rfl

/-- A refused write leaves what the sweep alone leaves. A message that was accepted once is answered
with the record of its exchange for as long as that is the current one, and changes nothing. -/
theorem Database.retries_idempotent :
    (∀ (db : Database) (now : Nat),
      (∀ id key other message limits size e,
        (db.submit id key other message limits size now).1 = .error e →
          (db.submit id key other message limits size now).2 = (db.sweep now).2) ∧
      ∀ id key request limits size e,
        (db.register id key request limits size now).1 = .error e →
          (db.register id key request limits size now).2 = (db.sweep now).2) ∧
    ∀ (db₀ db : Database) (ms : List (Move Database Operation)), db₀.Unused →
      Run Operation.Step db₀ ms db → ∀ m ∈ ms, ∀ id key other message limits size now r,
      m.label = .submit id key other message limits size now →
      (m.before.submit id key other message limits size now).1 = .ok r →
      ∀ row, db.exchanges.lookup r.key = some row → row.sequence = message.sequence →
      ∀ key' limits' size' now', db.Entitled id key' other message → now' < 2 ^ 63 →
        ∃ row', (db.sweep now').2.exchanges.lookup r.key = some row' ∧
          db.submit id key' other message limits' size' now' =
            (.ok row'.record, (db.sweep now').2) := by
  refine ⟨fun db now => ⟨?_, ?_⟩, ?_⟩
  · intro id key other message limits size e refused
    exact write_refused refused
  · intro id key request limits size e refused
    exact write_refused refused
  · intro db₀ db ms unused run m member id key other message limits size now r label accepted row
      found current key' limits' size' now' entitled soon
    obtain ⟨taken, past, rest, whole, prior⟩ := run.reached m member
    have sound := Sound.reached unused prior
    have made : (m.before.submit id key other message limits size now).2 = m.after := by
      rw [← show m.label.apply m.before = m.after from taken, label]
      rfl
    obtain ⟨addressed, place, there, acknowledges⟩ := sound.accepted accepted
    rw [made] at there
    have soundAfter : m.after.Sound :=
      (Sound.reached unused (prior.move taken))
    have networkId : m.after.network.networkId = m.before.network.networkId :=
      networkId_constant sound (Run.start.move taken)
    rw [← networkId] at addressed
    refine soundAfter.retried (whole ▸ run).between.2.2 ?_ place addressed found current entitled
      soon
    exact .inr (.inr ⟨r.key, r, there, congrArg ExchangeKey.initiatorBundleId place,
      congrArg ExchangeKey.responderBundleId place, .inr acknowledges⟩)

section Sample

open Arithmetic

/-- The tables once a proposal has been taken. -/
def Arithmetic.sent : List Operation := registrations ++ proposes first 5 20

omit [Native] in
theorem Arithmetic.sent_accepted : ∃ message r row,
    served sent = @Operation.apply native (.submit 2 (key 2) 3 message limits 0 20)
        (served registrations) ∧
      (@submit native (served registrations) 2 (key 2) 3 message limits 0 20).1 = .ok r ∧
      (served sent).exchanges.lookup r.key = some row ∧ row.sequence = message.sequence ∧
      @Entitled native (served sent) 2 (key 2) 3 message ∧ proposal first 5 = some message := by
  have facts : ((proposal first 5).any fun message =>
      ((@submit native (served registrations) 2 (key 2) 3 message limits 0 20).1.toOption.any fun r =>
        ((served sent).exchanges.lookup r.key).any fun row => decide (row.sequence = message.sequence))
      && (served sent).ready && ((served sent).caller 2 (key 2)).toOption.isSome &&
      decide (refusal ((served sent).pairAllowed 2 3) = none) &&
      ((@activeBundle native (served sent) 2).toOption.any fun b =>
        decide (b.bundleId = message.initiatorBundleId)) &&
      ((@activeBundle native (served sent) 3).toOption.any fun b =>
        decide (b.bundleId = message.responderBundleId))) = true := by
    decide +kernel
  obtain ⟨message, made, holds⟩ := (Option.any_eq_true _ _).mp facts
  simp only [Bool.and_eq_true] at holds
  let _ := native
  obtain ⟨⟨⟨⟨⟨taken, ready⟩, caller⟩, allowed⟩, initiator⟩, responder⟩ := holds
  obtain ⟨r, accepted, taken⟩ := (Option.any_eq_true _ _).mp taken
  obtain ⟨row, found, sequence⟩ := (Option.any_eq_true _ _).mp taken
  obtain ⟨caller, known⟩ := Option.isSome_iff_exists.mp caller
  obtain ⟨b, active, same⟩ := (Option.any_eq_true _ _).mp initiator
  obtain ⟨c, active', same'⟩ := (Option.any_eq_true _ _).mp responder
  refine ⟨message, r, row, ?_, toOption_some.mp accepted, found, of_decide_eq_true sequence, ?_,
    made⟩
  · rw [sent, served, List.foldl_append, proposes, made]
    rfl
  · exact {
      ready
      caller := ⟨caller, toOption_some.mp known⟩
      allowed := (unrefused_ok (of_decide_eq_true allowed)).choose_spec
      initiator := ⟨b, toOption_some.mp active, of_decide_eq_true same⟩
      responder := ⟨c, toOption_some.mp active', of_decide_eq_true same'⟩ }

omit [Native] in
/-- The proposal is sent again once it has expired, and answered with the aborted record. -/
theorem Database.retries_idempotent_expired : ∃ (message : Message) (row : ExchangeRow),
    proposal first 5 = some message ∧ row.record.decision.phase = .aborted ∧
      @submit native (served sent) 2 (key 2) 3 message limits 0 700 =
        (.ok row.record, ((served sent).sweep 700).2) := by
  obtain ⟨message, r, row, made, accepted, found, sequence, entitled, proposed⟩ := sent_accepted
  obtain ⟨past, run⟩ := served_run registrations
  generalize served registrations = before at made accepted run
  have step : @Operation.Step native before (.submit 2 (key 2) 3 message limits 0 20)
      (served sent) := made.symm
  have last : (⟨before, .submit 2 (key 2) 3 message limits 0 20, served sent⟩ :
      Move Database Operation) ∈ past ++ [⟨before, .submit 2 (key 2) 3 message limits 0 20,
        served sent⟩] :=
    List.mem_append_right _ (List.mem_singleton_self _)
  obtain ⟨row', there, answered⟩ := (@Database.retries_idempotent native).2 _ _ _ site_unused
    (run.move step) _ last 2 (key 2) 3 message limits 0 20 r rfl accepted row found sequence (key 2)
    limits 0 700 entitled (by decide)
  have aborted : (((served sent).sweep 700).2.exchanges.entries.all fun e =>
      decide (e.2.record.decision.phase = .aborted)) = true := by
    decide +kernel
  refine ⟨message, row', proposed, ?_, answered⟩
  have member := (mem_entries_iff _ ⟨r.key, row'⟩).mpr there
  exact of_decide_eq_true (List.all_eq_true.mp aborted ⟨r.key, row'⟩ member)

omit [Native] in
/-- Sent again at the far end of time, or while the server is not ready, the same message is
refused. -/
theorem Database.retry_refused : ∃ message r row,
    @Operation.apply native (.submit 2 (key 2) 3 message limits 0 20) (served registrations) =
        served sent ∧
      (@submit native (served registrations) 2 (key 2) 3 message limits 0 20).1 = .ok r ∧
      (served sent).exchanges.lookup r.key = some row ∧ row.sequence = message.sequence ∧
      @Entitled native (served sent) 2 (key 2) 3 message ∧
      refusal (@submit native (served sent) 2 (key 2) 3 message limits 0 (2 ^ 63)).1 =
        some .unavailable ∧
      refusal ((served (sent ++ [.setManagementReady false])).pairAllowed 2 3) = none ∧
      refusal (@submit native (served (sent ++ [.setManagementReady false])) 2 (key 2) 3 message
        limits 0 30).1 = some .unavailable := by
  obtain ⟨message, r, row, made, accepted, found, sequence, entitled, proposed⟩ := sent_accepted
  have facts : (refusal ((served (sent ++ [.setManagementReady false])).pairAllowed 2 3) = none) ∧
      ((proposal first 5).all fun message =>
        decide (refusal (@submit native (served sent) 2 (key 2) 3 message limits 0 (2 ^ 63)).1 =
          some .unavailable) &&
        decide (refusal (@submit native (served (sent ++ [.setManagementReady false])) 2 (key 2) 3
          message limits 0 30).1 = some .unavailable)) = true := by
    decide +kernel
  obtain ⟨allowed, refused⟩ := facts
  rw [proposed, Option.all_some, Bool.and_eq_true, decide_eq_true_eq, decide_eq_true_eq] at refused
  exact ⟨message, r, row, made.symm, accepted, found, sequence, entitled, refused.1, allowed,
    refused.2⟩

end Sample

end Innernet
