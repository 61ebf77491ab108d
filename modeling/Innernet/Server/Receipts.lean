import Innernet.Server.History
import Innernet.Server.Laws

/-! What the mailbox has taken down of one exchange: receipts that stay while its record does, the
order the decision machine asks of them, and the messages they stand for. -/
namespace Innernet

open Fallible Runs Exchange

/-- The receipt a decision has to show before it takes another. -/
def Kind.prior : Kind → Bool → Option (Kind × Bool)
  | .commit, true => some (.ready, false)
  | .installed, false => some (.commit, true)
  | .installed, true => some (.installed, false)
  | .confirmed, side => some (.installed, side)
  | _, _ => none

namespace Decision

theorem Valid.prior {d : Decision} (valid : d.Valid) (running : d.phase ≠ .aborted)
    {kind kind' : Kind} {side side' : Bool} (has : d.has kind side = true)
    (prior : kind.prior side = some (kind', side')) : d.has kind' side' = true := by
  have committed : ∀ s, d.installed.get s = true → d.phase = .committed ∨ d.phase = .complete := by
    intro s installed
    have late : ¬ (d.phase = .proposed ∨ d.phase = .ready) := fun early => by
      rw [valid.early early s] at installed
      cases installed
    rcases d with ⟨phase, _, _⟩
    cases phase <;> simp_all
  unfold Kind.prior at prior
  split at prior <;> cases prior
  · simp only [Decision.has, decide_eq_true_eq] at has ⊢
    exact .inr has
  · simp only [Decision.has, decide_eq_true_eq]
    exact committed false has
  · exact valid.responderFirst has
  · exact valid.ordered side has

/-- A decision that shows what comes before a receipt has it, or takes it. -/
theorem Valid.accepts {d : Decision} (valid : d.Valid) (live : d.terminal = false) {kind : Kind}
    {side : Bool} (turn : (kind = .ready ∧ side = false) ∨
      ∃ kind' side', kind.prior side = some (kind', side') ∧ d.has kind' side' = true) :
    d.has kind side = true ∨ ∃ d', d.advance kind side = .ok d' := by
  have committed : ∀ s, d.installed.get s = true → d.phase = .committed := by
    intro s installed
    have late : ¬ (d.phase = .proposed ∨ d.phase = .ready) := fun early => by
      rw [valid.early early s] at installed
      cases installed
    rcases d with ⟨phase, _, _⟩
    cases phase <;> simp_all [Decision.terminal]
  rcases turn with ⟨rfl, rfl⟩ | ⟨kind', side', prior, has⟩
  · rcases d with ⟨phase, _, _⟩
    cases phase <;> simp_all [Decision.terminal, Decision.has, Decision.advance]
  · unfold Kind.prior at prior
    split at prior <;> cases prior
    · rcases d with ⟨phase, _, _⟩
      cases phase <;> simp_all [Decision.terminal, Decision.has, Decision.advance]
    · rcases d with ⟨phase, _, _⟩
      cases phase <;> simp_all [Decision.terminal, Decision.has, Decision.advance]
    · have phase := committed false has
      refine .inr ⟨{ d with installed := d.installed.set true }, ?_⟩
      have first : d.installed.responder = true := has
      simp [Decision.advance, phase, first]
    · have phase := committed side has
      have flag : d.installed.get side = true := has
      refine .inr ⟨{ d with
        confirmed := d.confirmed.set side
        phase := if d.confirmed.set side = ⟨true, true⟩ then .complete else .committed }, ?_⟩
      simp [Decision.advance, phase, flag]

end Decision

/-- What names an exchange at the server. -/
structure ExchangeName where
  initiatorBundleId : Binary 16
  responderBundleId : Binary 16
  sequence : Number
  exchangeId : Binary 16
  deriving DecidableEq

def Transcript.name (t : Transcript) : ExchangeName where
  initiatorBundleId := t.initiator.bundleId
  responderBundleId := t.responder.bundleId
  sequence := t.sequence
  exchangeId := t.exchangeId

def Message.name (m : Message) : ExchangeName where
  initiatorBundleId := m.initiatorBundleId
  responderBundleId := m.responderBundleId
  sequence := m.sequence
  exchangeId := m.exchangeId

def Exchange.name (r : Exchange) : ExchangeName where
  initiatorBundleId := r.initiatorBundleId
  responderBundleId := r.responderBundleId
  sequence := r.sequence
  exchangeId := r.exchangeId

theorem Message.authenticate_name [Native] {m : Message} {t : Transcript}
    (authentic : m.authenticate t = .ok ()) : m.name = t.name := by
  obtain ⟨-, -, -, initiator, responder, sequence, exchangeId, -⟩ := authenticate_cases authentic
  rw [Message.name, Transcript.name, initiator, responder, sequence, exchangeId]

theorem Exchange.WellFormed.accepts [Native] {r : Exchange} (formed : r.WellFormed)
    (live : r.decision.terminal = false) {kind : Kind} {side : Bool}
    (turn : (kind = .ready ∧ side = false) ∨
      ∃ kind' side', kind.prior side = some (kind', side') ∧ r.received kind' side') :
    r.received kind side ∨ ∃ d, r.decision.advance kind side = .ok d := by
  have running : r.decision.phase ≠ .aborted := by
    intro aborted
    simp [Decision.terminal, aborted] at live
  have regular : kind ≠ .propose := by
    rintro rfl
    rcases turn with ⟨none, -⟩ | ⟨_, _, prior, -⟩
    · cases none
    · simp [Kind.prior] at prior
  have later : ∀ kind' side', kind.prior side = some (kind', side') → kind' ≠ .propose := by
    rintro kind' side' prior rfl
    unfold Kind.prior at prior
    split at prior <;> cases prior
  rw [← formed.accounted kind side regular (.inl running)]
  refine formed.valid.accepts live (turn.imp_right ?_)
  rintro ⟨kind', side', prior, received⟩
  exact ⟨kind', side', prior,
    (formed.accounted kind' side' (later kind' side' prior) (.inl running)).mpr received⟩

namespace Ledger

variable [Native] {n : ExchangeName} {P Q : Exchange → Prop} {l l' : Ledger}

omit [Native] in
/-- The record of the exchange has `P`, unless it is terminal, was overwritten by a newer exchange,
or is gone with a retired bundle. -/
def Stands (l : Ledger) (n : ExchangeName) (P : Exchange → Prop) : Prop :=
  l.Keeps n.initiatorBundleId n.responderBundleId fun r => n.sequence < r.sequence ∨
    (r.sequence = n.sequence ∧ r.exchangeId = n.exchangeId ∧ (r.decision.terminal = true ∨ P r))

omit [Native] in
/-- The receipt is recorded for the exchange, or the exchange is over. -/
def Recorded (l : Ledger) (n : ExchangeName) (kind : Kind) (side : Bool) : Prop :=
  l.Stands n fun r => r.received kind side

omit [Native] in
/-- The exchange is over. -/
def Closed (l : Ledger) (n : ExchangeName) : Prop := l.Stands n fun _ => False

theorem Stands.step {event : Event} (inv : l.Inv) (step : Step l event l')
    (grows : ∀ r r' : Exchange, r.Evolves r' → r.Carries r' → P r → P r')
    (stands : l.Stands n P) : l'.Stands n P := by
  refine Keeps.step inv step ?_ ?_ stands
  · rintro r r' (above | ⟨sequence, exchangeId, holds⟩) evolved carries
    · exact .inl (evolved.sequence ▸ above)
    · refine .inr ⟨evolved.sequence.trans sequence, evolved.exchangeId.trans exchangeId, ?_⟩
      rcases holds with ended | holds
      · exact .inl ((evolved.terminal ended).symm ▸ ended)
      · exact .inr (grows r r' evolved carries holds)
  · rintro r r' (above | ⟨sequence, -⟩) newer
    · exact .inl (above.trans newer)
    · exact .inl (sequence ▸ newer)

theorem Stands.mono (inv : l.Inv) (stands : l.Stands n P)
    (implies : ∀ r : Exchange, r.WellFormed → r.decision.terminal = false → P r → Q r) :
    l.Stands n Q := by
  rcases stands with retired | retired | ⟨k, r, found, under, under', holds⟩
  · exact .inl retired
  · exact .inr (.inl retired)
  · refine .inr (.inr ⟨k, r, found, under, under', holds.imp_right ?_⟩)
    rintro ⟨sequence, exchangeId, rest⟩
    refine ⟨sequence, exchangeId, ?_⟩
    cases live : r.decision.terminal with
    | true => exact .inl rfl
    | false =>
      rw [live] at rest
      rcases rest with ended | holds
      · cases ended
      · exact .inr (implies r (inv.formed k r found) live holds)

/-- What stands of an exchange holds of its record while that is there. -/
theorem Stands.here (inv : l.Inv) {k : ExchangeKey} {r : Exchange} (found : l.record k = some r)
    (stands : l.Stands r.name P) : r.decision.terminal = true ∨ P r := by
  have key := inv.key k r found
  subst key
  rcases Keeps.here inv found stands with above | ⟨-, -, rest⟩
  · exact absurd above (lt_irrefl _)
  · exact rest

omit [Native] in
theorem Stands.of {r : Exchange} (found : l.record r.key = some r)
    (holds : r.decision.terminal = true ∨ P r) : l.Stands r.name P :=
  .inr (.inr ⟨r.key, r, found, rfl, rfl, .inr ⟨rfl, rfl, holds⟩⟩)

omit [Native] in
theorem received_grows {kind : Kind} {side : Bool} (r r' : Exchange) (evolved : r.Evolves r')
    (carries : r.Carries r') (received : r.received kind side) :
    r'.received kind side := by
  have initiator := congrArg ExchangeKey.initiatorId evolved.key
  have responder := congrArg ExchangeKey.responderId evolved.key
  obtain ⟨d, member, sender, type⟩ := received
  refine ⟨d, carries.receipts d member, sender.trans ?_, type⟩
  cases side with
  | true => exact Number.ext initiator.symm
  | false => exact Number.ext responder.symm

theorem Recorded.step {event : Event} {kind : Kind} {side : Bool} (inv : l.Inv)
    (step : Step l event l') (recorded : l.Recorded n kind side) : l'.Recorded n kind side :=
  Stands.step inv step received_grows recorded

theorem Closed.step {event : Event} (inv : l.Inv) (step : Step l event l') (closed : l.Closed n) :
    l'.Closed n :=
  Stands.step inv step (fun _ _ _ _ never => never) closed

theorem Closed.recorded (inv : l.Inv) (closed : l.Closed n) (kind : Kind) (side : Bool) :
    l.Recorded n kind side :=
  Stands.mono inv closed fun _ _ _ never => never.elim

/-- With a receipt all that come before it are recorded. -/
theorem Recorded.prior {kind kind' : Kind} {side side' : Bool} (inv : l.Inv)
    (recorded : l.Recorded n kind side) (prior : kind.prior side = some (kind', side')) :
    l.Recorded n kind' side' := by
  refine Stands.mono inv recorded fun r formed live received => ?_
  have running : r.decision.phase ≠ .aborted := by
    intro aborted
    simp [Decision.terminal, aborted] at live
  have regular : kind ≠ .propose := by
    rintro rfl
    simp [Kind.prior] at prior
  have later : kind' ≠ .propose := by
    rintro rfl
    unfold Kind.prior at prior
    split at prior <;> cases prior
  rw [← formed.accounted kind' side' later (.inl running)]
  exact formed.valid.prior running ((formed.accounted kind side regular (.inl running)).mpr received)
    prior

theorem Recorded.proposed {kind : Kind} {side : Bool} (inv : l.Inv)
    (recorded : l.Recorded n kind side) : l.Recorded n .propose true :=
  Stands.mono inv recorded fun _ formed _ _ => formed.proposed

end Ledger

/-- The messages of a record, and those its receipts stand for, were sent for its exchange. -/
structure Exchange.Fed [Native] (mail : List Message) (r : Exchange) : Prop where
  messages : ∀ m ∈ r.messages, m ∈ mail ∧ m.name = r.name
  receipts : ∀ d ∈ r.receipts, ∃ m ∈ mail, m.name = r.name ∧ m.transcriptHash = r.transcriptHash ∧
    MessageDigest.of m = .ok d

namespace Exchange.Fed

variable [Native] {mail : List Message} {r r' : Exchange} {t : Transcript} {message : Message}

theorem mono {mail' : List Message} (fed : r.Fed mail) (more : ∀ m ∈ mail, m ∈ mail') :
    r.Fed mail' where
  messages m member := (fed.messages m member).imp_left (more m)
  receipts d member := (fed.receipts d member).imp fun m => .imp_left (more m)

theorem close (fed : r.Fed mail) (closing : Closing r r') : r'.Fed mail := by
  obtain ⟨-, _, rfl, -⟩ := closing.shape
  exact ⟨fun m member => (nomatch member), fed.receipts⟩

theorem opening (opening : r.Opening t message) (sent : message ∈ mail) : r.Fed mail := by
  obtain ⟨transcriptHash, digest, now, rfl, hashed, digested, -⟩ := opening.opened
  have name := Message.authenticate_name opening.authentic
  have hash := (authenticate_cases opening.authentic).2.2.2.2.2.2.2
  constructor
  · intro m member
    cases List.mem_singleton.mp member
    exact ⟨sent, name⟩
  · intro d member
    cases List.mem_singleton.mp member
    exact ⟨message, sent, name, Except.ok.inj (hash.symm.trans hashed), digested⟩

theorem continuing {kind : Kind} (formed : r.WellFormed) (fed : r.Fed mail)
    (continuing : Continuing r r' t message kind) (sent : message ∈ mail) : r'.Fed mail := by
  obtain ⟨key, sequence, exchangeId, -, transcriptHash, -, -, -, -, digest, digested, receipts⟩ :=
    continuing.fields
  obtain ⟨u, bodies⟩ := formed.live continuing.live
  cases Option.some.inj (continuing.transcript.symm.trans bodies.transcript)
  have name : r'.name = r.name := by
    have initiator := congrArg ExchangeKey.initiatorBundleId key
    have responder := congrArg ExchangeKey.responderBundleId key
    have initiator : r'.initiatorBundleId = r.initiatorBundleId := initiator
    have responder : r'.responderBundleId = r.responderBundleId := responder
    rw [Exchange.name, Exchange.name, initiator, responder, sequence, exchangeId]
  have theirs : message.name = r.name := by
    rw [Message.authenticate_name continuing.authentic, Transcript.name, Exchange.name,
      bodies.initiatorBundleId, bodies.responderBundleId, bodies.sequence, bodies.exchangeId]
  have hash : message.transcriptHash = r.transcriptHash :=
    Except.ok.inj ((authenticate_cases continuing.authentic).2.2.2.2.2.2.2.symm.trans bodies.hashed)
  constructor
  · obtain ⟨decision, digest', -, -, same⟩ := continuing.continued
    intro m member
    have member : m ∈ r.messages ++ [message] := by
      rw [same] at member
      unfold compact at member
      split at member
      · cases member
      · exact member
    rw [name]
    rcases List.mem_append.mp member with old | new
    · exact fed.messages m old
    · cases List.mem_singleton.mp new
      exact ⟨sent, theirs⟩
  · intro d member
    rw [name, transcriptHash]
    rw [receipts] at member
    rcases List.mem_append.mp member with old | new
    · exact fed.receipts d old
    · cases List.mem_singleton.mp new
      exact ⟨message, sent, theirs, hash, digested⟩

end Exchange.Fed

namespace Ledger

variable [Native] {first second : Number} {mail : List Message} {l l' : Ledger}

/-- Every record of the two peers is fed from the mail. -/
def Fed (l : Ledger) (first second : Number) (mail : List Message) : Prop :=
  ∀ k r, l.record k = some r → r.initiatorId = first → r.responderId = second → r.Fed mail

omit [Native] in
/-- What a step writes for the two peers comes from the mail. -/
def Event.From (first second : Number) (mail : List Message) : Event → Prop
  | .opened r m => r.initiatorId = first → r.responderId = second → m ∈ mail
  | .continued r m => r.initiatorId = first → r.responderId = second → m ∈ mail
  | _ => True

theorem Fed.step {event : Event} (inv : l.Inv) (fed : l.Fed first second mail)
    (step : Step l event l') (from_mail : event.From first second mail) :
    l'.Fed first second mail := by
  intro k r' found initiator responder
  cases step with
  | @settle record settled =>
    have row := settled k
    have found : record k = some r' := found
    rw [found] at row
    obtain ⟨r, before, rfl | closing⟩ := row.closed
    · exact fed k r' before initiator responder
    · obtain ⟨-, _, rfl, -⟩ := id closing.shape
      exact (fed k r before initiator responder).close closing
  | @opened new t message opening =>
    rw [record_put] at found
    split at found
    · cases found
      exact .opening opening (from_mail initiator responder)
    · exact fed k r' found initiator responder
  | @continued old new t message kind stored continuing =>
    rw [record_put] at found
    split at found
    · cases found
      obtain ⟨-, -, -, -, -, i, o, -⟩ := continuing.fields
      exact .continuing (inv.formed _ _ stored)
        (fed _ _ stored (i.symm.trans initiator) (o.symm.trans responder)) continuing
        (from_mail initiator responder)
    · exact fed k r' found initiator responder
  | @rebundled id b finished replaces =>
    rw [rebundle] at found
    dsimp only at found
    split at found
    · cases found
    · exact fed k r' found initiator responder
  | dropped gone stay => exact fed k r' found initiator responder

theorem Run.fed {ms : List (Move Ledger Event)} (inv : l.Inv) (run : Run Step l ms l')
    (fed : l.Fed first second mail) (from_mail : ∀ m ∈ ms, m.label.From first second mail) :
    l'.Fed first second mail := by
  have initial : l.Inv ∧ l.Fed first second mail := ⟨inv, fed⟩
  have preserved : ∀ a e b, a.Inv ∧ a.Fed first second mail → Step a e b →
      e.From first second mail → b.Inv ∧ b.Fed first second mail :=
    fun _ _ _ held step allowed => ⟨held.1.step step, held.2.step held.1 step allowed⟩
  exact (run.guarded initial preserved from_mail).2

theorem Run.recorded {ms : List (Move Ledger Event)} {n : ExchangeName} {kind : Kind} {side : Bool}
    (inv : l.Inv) (run : Run Step l ms l') (recorded : l.Recorded n kind side) :
    l'.Recorded n kind side := by
  refine (run.invariant (P := fun l => l.Inv ∧ l.Recorded n kind side) ⟨inv, recorded⟩ ?_).2
  exact fun _ _ _ held step => ⟨held.1.step step, held.2.step held.1 step⟩

theorem Run.closed {ms : List (Move Ledger Event)} {n : ExchangeName} (inv : l.Inv)
    (run : Run Step l ms l') (closed : l.Closed n) : l'.Closed n := by
  refine (run.invariant (P := fun l => l.Inv ∧ l.Closed n) ⟨inv, closed⟩ ?_).2
  exact fun _ _ _ held step => ⟨held.1.step step, held.2.step held.1 step⟩

end Ledger

end Innernet
