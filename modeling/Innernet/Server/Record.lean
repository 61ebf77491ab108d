import Mathlib.Data.List.Forall2
import Innernet.Decision
import Innernet.Server.Mailbox

/-! What a stored record always satisfies, and the three ways a record comes about: opened by a
proposal, continued by a message, closed by time or by decree. -/
namespace Innernet

open Fallible

namespace Exchange

/-- The peer on one side of the exchange. -/
def side (r : Exchange) : Bool → Number
  | true => r.initiatorId
  | false => r.responderId

/-- A receipt of `kind` from the side is stored. -/
def received (r : Exchange) (kind : Kind) (initiator : Bool) : Prop :=
  ∃ d ∈ r.receipts, d.senderId = r.side initiator ∧ d.messageType = kind.code

/-- `Decision::advance` over the messages other than the proposal. -/
def fold (initiatorId : Number) (messages : List Message) : Except Error Decision :=
  (messages.filter fun m => m.messageType ≠ Kind.propose.code).foldlM (fun d m => do
    let kind ← Kind.tryFrom m.messageType
    d.advance kind (m.senderId = initiatorId)) .default

/-- The prepare phase of the record has run out. -/
def Due (r : Exchange) (now : Nat) : Prop :=
  (r.decision.phase = .proposed ∨ r.decision.phase = .ready) ∧ r.prepareExpiresAt ≤ now

instance (r : Exchange) (now : Nat) : Decidable (r.Due now) :=
  inferInstanceAs (Decidable (_ ∧ _))

theorem Due.live {r : Exchange} {now : Nat} (due : r.Due now) : r.decision.terminal = false := by
  rcases due.1 with phase | phase <;> simp [Decision.terminal, phase]

variable [Native]

/-- The bodies a live record still carries agree with its columns. -/
structure Bodies (r : Exchange) (t : Transcript) : Prop where
  transcript : r.transcript = some t
  networkId : t.networkId = r.networkId
  initiatorId : t.initiatorId = r.initiatorId
  responderId : t.responderId = r.responderId
  initiatorBundleId : t.initiator.bundleId = r.initiatorBundleId
  responderBundleId : t.responder.bundleId = r.responderBundleId
  sequence : t.sequence = r.sequence
  exchangeId : t.exchangeId = r.exchangeId
  hashed : Crypto.hash t.encode = .ok r.transcriptHash
  authentic : ∀ m ∈ r.messages, m.authenticate t = .ok ()
  digests : List.Forall₂ (fun m d => MessageDigest.of m = .ok d) r.messages r.receipts
  folded : fold r.initiatorId r.messages = .ok r.decision

structure WellFormed (r : Exchange) : Prop where
  ordered : r.initiatorId < r.responderId
  compacted : r.decision.terminal = true → r.transcript = none ∧ r.messages = []
  live : r.decision.terminal = false → ∃ t, r.Bodies t
  single : (r.receipts.map fun d => (d.senderId, d.messageType)).Nodup
  valid : r.decision.Valid
  proposed : r.received .propose true
  accounted : ∀ kind initiator, kind ≠ .propose →
    r.decision.phase ≠ .aborted ∨ kind = .installed ∨ kind = .confirmed →
      (r.decision.has kind initiator = true ↔ r.received kind initiator)
  expires : r.prepareExpiresAt < 2 ^ 63

omit [Native] in
theorem compact_live {r : Exchange} (live : r.decision.terminal = false) : r.compact = r := by
  simp [compact, live]

omit [Native] in
theorem compact_terminal {r : Exchange} (terminal : r.decision.terminal = true) :
    r.compact = { r with transcript := none, messages := [] } := by
  simp [compact, terminal]

omit [Native] in
theorem compact_idem (r : Exchange) : r.compact.compact = r.compact := by
  unfold compact
  split <;> simp_all

omit [Native] in
/-- Compaction leaves everything but the bodies. -/
theorem compact_fields (r : Exchange) :
    r.compact.key = r.key ∧ r.compact.decision = r.decision ∧ r.compact.sequence = r.sequence ∧
      r.compact.exchangeId = r.exchangeId ∧ r.compact.prepareExpiresAt = r.prepareExpiresAt ∧
      r.compact.receipts = r.receipts ∧ r.compact.termination = r.termination ∧
      r.compact.transcriptHash = r.transcriptHash ∧ r.compact.initiatorId = r.initiatorId ∧
      r.compact.responderId = r.responderId := by
  unfold compact
  split <;> simp [key]

omit [Native] in
@[simp] theorem terminal_aborted (d : Decision) :
    Decision.terminal { d with phase := .aborted } = true := by
  simp [Decision.terminal]

omit [Native] in
theorem terminal_iff (d : Decision) :
    d.terminal = true ↔ d.phase = .complete ∨ d.phase = .aborted := by
  simp [Decision.terminal]

omit [Native] in
theorem expire_early {d : Decision} (early : d.phase = .proposed ∨ d.phase = .ready) :
    d.expire = { d with phase := .aborted } := by
  simp [Decision.expire, early]

/-- Closing is by decree, with a reason, or by expiry before the commit. -/
inductive Closing (r : Exchange) : Exchange → Prop where
  | decree (reason : String) : r.decision.terminal = false →
      Closing r (Database.terminated reason r)
  | expiry : r.decision.phase = .proposed ∨ r.decision.phase = .ready →
      Closing r { r with decision := r.decision.expire }.compact

omit [Native] in
/-- A closed record: the phase is `Aborted`, the bodies are gone, the rest is as it was. -/
theorem Closing.shape {r r' : Exchange} (closing : Closing r r') :
    r.decision.terminal = false ∧ ∃ termination, r' = { r with
      decision := { r.decision with phase := .aborted }
      transcript := none, messages := [], termination } ∧
      (termination = none → r.decision.phase = .proposed ∨ r.decision.phase = .ready) := by
  cases closing with
  | decree reason live =>
    refine ⟨live, some reason, ?_, by simp⟩
    simp [Database.terminated, compact]
  | expiry early =>
    refine ⟨?_, r.termination, ?_, fun _ => early⟩
    · rcases early with phase | phase <;> simp [Decision.terminal, phase]
    · rw [expire_early early]
      simp [compact]

theorem WellFormed.close {r r' : Exchange} (formed : r.WellFormed) (closing : Closing r r') :
    r'.WellFormed := by
  obtain ⟨-, termination, rfl, -⟩ := closing.shape
  refine ⟨formed.ordered, fun _ => ⟨rfl, rfl⟩, ?_, formed.single, formed.valid.aborted,
    formed.proposed, ?_, formed.expires⟩
  · intro live
    rw [terminal_aborted] at live
    cases live
  · intro kind initiator other part
    have flag : kind = .installed ∨ kind = .confirmed := part.resolve_left (by simp)
    have same := formed.accounted kind initiator other (.inr flag)
    rcases flag with rfl | rfl <;> exact same

/-- A record a proposal opens: the bundles are those of the directory. -/
structure Opening (r : Exchange) (t : Transcript) (message : Message) : Prop where
  opened : ∃ transcriptHash digest now, r = opened t transcriptHash message digest now ∧
    Crypto.hash t.encode = .ok transcriptHash ∧ MessageDigest.of message = .ok digest ∧
    now + prepareTtl < 2 ^ 63
  shape : message.validateShape = .ok .propose
  authentic : message.authenticate t = .ok ()
  validated : t.validate = .ok ()
  operatorPskId : message.operatorPskId = some t.operatorPskId
  ciphertext : message.ciphertext = some t.ciphertext

omit [Native] in
theorem shape_cases {m : Message} {kind : Kind} (shape : m.validateShape = .ok kind) :
    m.messageType = kind.code ∧ m.initiatorId < m.responderId ∧
      (m.senderId = m.initiatorId ∨ m.senderId = m.responderId) ∧
      (kind = .ready → m.senderId = m.responderId) ∧
      (kind = .propose ∨ kind = .commit ∨ kind = .abort → m.senderId = m.initiatorId) ∧
      (m.ciphertext.isSome = true ↔ kind = .propose) ∧
      (m.operatorPskId.isSome = true ↔ kind = .propose) := by
  simp only [Message.validateShape, bind_ok, require_ok, pure_ok] at shape
  obtain ⟨k, read, _, version, _, sender, _, bodies, rfl⟩ := shape
  exact ⟨Kind.tryFrom_ok.mp read, version.2, sender.1, sender.2.1, sender.2.2, bodies.1, bodies.2⟩

theorem authenticate_cases {m : Message} {t : Transcript} (authentic : m.authenticate t = .ok ()) :
    m.networkId = t.networkId ∧ m.initiatorId = t.initiatorId ∧ m.responderId = t.responderId ∧
      m.initiatorBundleId = t.initiator.bundleId ∧ m.responderBundleId = t.responder.bundleId ∧
      m.sequence = t.sequence ∧ m.exchangeId = t.exchangeId ∧
      Crypto.hash t.encode = .ok m.transcriptHash := by
  simp only [Message.authenticate, bind_ok, require_ok] at authentic
  obtain ⟨_, _, _, ⟨n, i, r, ib, rb, s, e⟩, h, hashed, _, ⟨same, _⟩, _⟩ := authentic
  exact ⟨n, i, r, ib, rb, s, e, same ▸ hashed⟩

theorem Opening.wellFormed {r : Exchange} {t : Transcript} {message : Message}
    (opening : r.Opening t message) : r.WellFormed := by
  obtain ⟨transcriptHash, digest, now, rfl, hashed, digested, soon⟩ := opening.opened
  obtain ⟨messageType, less, -, -, initiates, -, -⟩ := shape_cases opening.shape
  obtain ⟨-, initiatorId, responderId, -, -, -, -, -⟩ := authenticate_cases opening.authentic
  obtain ⟨sender, type⟩ := MessageDigest.of_ok digested
  have proposes : digest.messageType = Kind.propose.code := type.trans messageType
  refine ⟨?_, ?_, ?_, ?_, Decision.default_valid, ?_, ?_, soon⟩
  · rw [initiatorId, responderId] at less
    exact less
  · intro terminal
    cases terminal
  · refine fun _ => ⟨t, rfl, rfl, rfl, rfl, rfl, rfl, rfl, rfl, hashed, ?_, ?_, ?_⟩
    · intro m member
      cases List.mem_singleton.mp member
      exact opening.authentic
    · exact .cons digested .nil
    · simp [fold, Exchange.opened, messageType, pure, Except.pure]
  · simp [Exchange.opened]
  · refine ⟨digest, by simp [Exchange.opened], ?_, proposes⟩
    rw [sender, initiates (.inl rfl), initiatorId]
    rfl
  · intro kind initiator other _
    rw [show (Exchange.opened t transcriptHash message digest now).decision = .default from rfl,
      Decision.default_has]
    constructor
    · intro never
      cases never
    · rintro ⟨d, member, -, same⟩
      cases List.mem_singleton.mp member
      exact absurd (Kind.code_injective (same.symm.trans proposes)) other

/-- A live record continued by one message of the pair. -/
structure Continuing (r r' : Exchange) (t : Transcript) (message : Message) (kind : Kind) :
    Prop where
  live : r.decision.terminal = false
  transcript : r.transcript = some t
  shape : message.validateShape = .ok kind
  authentic : message.authenticate t = .ok ()
  fresh : ∀ d ∈ r.receipts, ¬ (d.senderId = message.senderId ∧ d.messageType = message.messageType)
  continued : ∃ decision digest,
    r.decision.advance kind (message.senderId = message.initiatorId) = .ok decision ∧
    MessageDigest.of message = .ok digest ∧
    r' = compact { r with
      decision
      messages := r.messages ++ [message]
      receipts := r.receipts ++ [digest] }

/-- The columns of a continued record, and its decision. -/
theorem Continuing.fields {r r' : Exchange} {t : Transcript} {message : Message} {kind : Kind}
    (continuing : Continuing r r' t message kind) :
    r'.key = r.key ∧ r'.sequence = r.sequence ∧ r'.exchangeId = r.exchangeId ∧
      r'.prepareExpiresAt = r.prepareExpiresAt ∧ r'.transcriptHash = r.transcriptHash ∧
      r'.initiatorId = r.initiatorId ∧ r'.responderId = r.responderId ∧
      r'.termination = r.termination ∧
      r.decision.advance kind (message.senderId = message.initiatorId) = .ok r'.decision ∧
      ∃ digest, MessageDigest.of message = .ok digest ∧ r'.receipts = r.receipts ++ [digest] := by
  obtain ⟨decision, digest, advanced, digested, rfl⟩ := continuing.continued
  obtain ⟨key, same, sequence, exchangeId, expires, receipts, termination, hash, i, o⟩ :=
    compact_fields { r with
      decision
      messages := r.messages ++ [message]
      receipts := r.receipts ++ [digest] }
  exact ⟨key, sequence, exchangeId, expires, hash, i, o, termination, same ▸ advanced, digest,
    digested, receipts⟩

omit [Native] in
theorem fold_append {initiatorId : Number} {messages : List Message} {message : Message}
    {kind : Kind} {d d' : Decision} (folded : fold initiatorId messages = .ok d)
    (type : message.messageType = kind.code) (other : kind ≠ .propose)
    (advanced : d.advance kind (message.senderId = initiatorId) = .ok d') :
    fold initiatorId (messages ++ [message]) = .ok d' := by
  have read : Kind.tryFrom message.messageType = .ok kind := Kind.tryFrom_ok.mpr type
  have different : message.messageType ≠ Kind.propose.code :=
    fun same => other (Kind.code_injective (type.symm.trans same))
  rw [fold, List.filter_append, List.foldlM_append, bind_ok]
  refine ⟨d, folded, ?_⟩
  simp only [ne_eq, different, not_false_eq_true, decide_true, List.filter_cons_of_pos,
    List.filter_nil, List.foldlM_cons, List.foldlM_nil, read, bind_ok, Except.ok.injEq,
    exists_eq_left', advanced, pure_ok]

/-- What a message continues is the exchange of its two peers. -/
theorem Continuing.peers {r r' : Exchange} {t : Transcript} {message : Message} {kind : Kind}
    (formed : r.WellFormed) (continuing : Continuing r r' t message kind) :
    message.initiatorId = r.initiatorId ∧ message.responderId = r.responderId := by
  obtain ⟨u, bodies⟩ := formed.live continuing.live
  cases Option.some.inj (continuing.transcript.symm.trans bodies.transcript)
  obtain ⟨-, initiatorId, responderId, -⟩ := authenticate_cases continuing.authentic
  exact ⟨initiatorId.trans bodies.initiatorId, responderId.trans bodies.responderId⟩

/-- The message comes from one side. -/
theorem Continuing.sides {r r' : Exchange} {t : Transcript} {message : Message} {kind : Kind}
    (formed : r.WellFormed) (continuing : Continuing r r' t message kind) (initiator : Bool) :
    message.senderId = r.side initiator ↔
      initiator = decide (message.senderId = message.initiatorId) := by
  obtain ⟨initiates, responds⟩ := continuing.peers formed
  obtain ⟨-, -, senders, -⟩ := shape_cases continuing.shape
  have distinct : r.initiatorId ≠ r.responderId := formed.ordered.ne
  rw [initiates, responds] at senders
  rw [initiates]
  rcases senders with it | it <;> cases initiator <;> simp [side, it, distinct, distinct.symm]

/-- The message adds its own receipt and no other. -/
theorem Continuing.received {r r' : Exchange} {t : Transcript} {message : Message} {kind : Kind}
    (formed : r.WellFormed) (continuing : Continuing r r' t message kind) (k : Kind)
    (initiator : Bool) : r'.received k initiator ↔
      r.received k initiator ∨ (k = kind ∧
        initiator = decide (message.senderId = message.initiatorId)) := by
  obtain ⟨-, -, -, -, -, i, o, -, -, digest, digested, receipts⟩ := continuing.fields
  obtain ⟨messageType, -⟩ := shape_cases continuing.shape
  obtain ⟨sender, type⟩ := MessageDigest.of_ok digested
  have sameSide : r'.side initiator = r.side initiator := by
    cases initiator <;> simp [side, i, o]
  simp only [Exchange.received, receipts, sameSide, List.mem_append, List.mem_singleton,
    or_and_right, exists_or, exists_eq_left, sender, type, messageType,
    continuing.sides formed initiator]
  refine or_congr_right ?_
  rw [and_comm]
  exact and_congr_left fun _ => ⟨fun code => (Kind.code_injective code).symm, fun it => it ▸ rfl⟩

theorem WellFormed.continue {r r' : Exchange} {t : Transcript} {message : Message} {kind : Kind}
    (formed : r.WellFormed) (continuing : Continuing r r' t message kind) : r'.WellFormed := by
  obtain ⟨key, sequence, exchangeId, expires, hash, i, o, -, advanced, digest, digested,
    receipts⟩ := continuing.fields
  obtain ⟨decision, digest', advanced', digested', same⟩ := continuing.continued
  cases Except.ok.inj (digested.symm.trans digested')
  cases Except.ok.inj (advanced.symm.trans advanced')
  obtain ⟨u, bodies⟩ := formed.live continuing.live
  cases Option.some.inj (continuing.transcript.symm.trans bodies.transcript)
  obtain ⟨messageType, -⟩ := shape_cases continuing.shape
  obtain ⟨sender, type⟩ := MessageDigest.of_ok digested
  have initiates : message.initiatorId = r.initiatorId := (continuing.peers formed).1
  have regular : kind ≠ .propose := by
    rintro rfl
    rcases Decision.advance_cases advanced with ⟨k, _⟩ | ⟨k, _⟩ | ⟨k, _⟩ | ⟨k, _⟩ | ⟨k, _⟩ <;>
      cases k
  refine ⟨i ▸ o ▸ formed.ordered, ?_, ?_, ?_, formed.valid.advance advanced, ?_, ?_,
    expires ▸ formed.expires⟩
  · intro terminal
    rw [same, compact_terminal (by rwa [same, (compact_fields _).2.1] at terminal)]
    exact ⟨rfl, rfl⟩
  · intro live
    rw [same, (compact_fields _).2.1] at live
    rw [same, compact_live live]
    refine ⟨t, ?_⟩
    exact {
      transcript := bodies.transcript
      networkId := bodies.networkId
      initiatorId := bodies.initiatorId
      responderId := bodies.responderId
      initiatorBundleId := bodies.initiatorBundleId
      responderBundleId := bodies.responderBundleId
      sequence := bodies.sequence
      exchangeId := bodies.exchangeId
      hashed := bodies.hashed
      authentic := by
        intro m member
        rcases List.mem_append.mp member with old | new
        · exact bodies.authentic m old
        · cases List.mem_singleton.mp new
          exact continuing.authentic
      digests := List.rel_append bodies.digests (.cons digested .nil)
      folded := fold_append bodies.folded messageType regular (initiates ▸ advanced') }
  · rw [receipts, List.map_append, List.nodup_append]
    refine ⟨formed.single, by simp, ?_⟩
    intro pair member last equal
    simp only [List.map_cons, List.map_nil, List.mem_singleton] at equal
    obtain ⟨d, stored, rfl⟩ := List.mem_map.mp member
    intro clash
    rw [equal, Prod.mk.injEq] at clash
    exact continuing.fresh d stored ⟨clash.1.trans sender, clash.2.trans type⟩
  · obtain ⟨d, stored, from_, proposal⟩ := formed.proposed
    exact ⟨d, by simp [receipts, stored], by rw [from_, side, side, i], proposal⟩
  · intro k initiator other part
    have split := continuing.received formed k initiator
    by_cases aborts : kind = .abort
    · subst aborts
      rcases Decision.advance_cases advanced with ⟨k, _⟩ | ⟨k, _⟩ | ⟨-, -, early, closed⟩ |
        ⟨k, _⟩ | ⟨k, _⟩
      · cases k
      · cases k
      · rw [closed] at part ⊢
        have flag := part.resolve_left (by simp)
        have before := formed.accounted k initiator other (.inr flag)
        rw [split]
        rcases flag with rfl | rfl <;> simpa [Decision.has] using before
      · cases k
      · cases k
    · have before := formed.accounted k initiator other (.inl fun it => by
        have terminal : r.decision.terminal = true := (terminal_iff _).mpr (.inr it)
        rw [continuing.live] at terminal
        cases terminal)
      rw [Decision.has_advance advanced aborts, split, ← before, Bool.or_eq_true,
        decide_eq_true_eq]

end Exchange

end Innernet
