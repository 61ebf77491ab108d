import Innernet.Custody

/-! Two endpoints and one exchange: what the responder answers is what the initiator proposed, and
so the keys the two confirm under one exchange id are the same. -/
namespace Innernet

open Fallible Runs

theorem Crypto.derive_ok [Native] {kem : Binary 32} {dh : Binary 56} {operator : Binary 32}
    {transcript : List UInt8} {candidate : Candidate}
    (derived : Crypto.derive kem dh operator transcript = .ok candidate) : ∃ salt,
      Crypto.hash transcript = .ok salt ∧
      Crypto.expand (kem.bytes ++ dh.bytes ++ operator.bytes) salt "innernet pq-psk v1 psk" =
        .ok candidate.psk ∧
      Crypto.expand (kem.bytes ++ dh.bytes ++ operator.bytes) salt "innernet pq-psk v1 confirm i" =
        .ok candidate.initiatorConfirmation ∧
      Crypto.expand (kem.bytes ++ dh.bytes ++ operator.bytes) salt "innernet pq-psk v1 confirm r" =
        .ok candidate.responderConfirmation := by
  simp only [Crypto.derive, bind_ok, pure_ok] at derived
  obtain ⟨salt, hashed, psk, first, initiator, second, responder, third, rfl⟩ := derived
  exact ⟨salt, hashed, first, second, third⟩

/-- An exchange as its initiator opened it, with the proposal it sent. -/
structure Offered [Native] (p : Pending) (m : Message) : Prop where
  made : m.Made p.transcript .propose p.transcript.initiatorId p.candidate
  derived : ∃ drawn shared operator, Native.pqHybridEnc drawn
      ⟨p.transcript.responder.pqKemPublicKey, p.transcript.responder.pqX448PublicKey⟩ =
        some (p.transcript.ciphertext, shared) ∧
    Crypto.derive shared.kem shared.x448 operator p.transcript.encode = .ok p.candidate

/-- One exchange seen from its two ends. -/
structure Pending.Matches [Native] (p q : Pending) : Prop where
  exchangeId : p.transcript.exchangeId = q.transcript.exchangeId
  sequence : p.transcript.sequence = q.transcript.sequence
  transcriptHash : Crypto.hash p.transcript.encode = Crypto.hash q.transcript.encode
  candidate : p.candidate = q.candidate

namespace EndpointState

variable [Native]

theorem openProposal_offered {s : EndpointState} {other : Number} {r : Relationship} {draws : Draws}
    {p : Pending} {m : Message} (opened : s.openProposal other r draws = .ok (p, m)) :
    Offered p m := by
  obtain ⟨t, candidate, rfl, signed, -, -, initiatorId, -, -, responder, -, shared, encapsulated,
    derived⟩ := openProposal_ok opened
  rw [← initiatorId] at signed
  rw [← responder] at encapsulated
  exact ⟨Message.signed_made signed, draws.encapsulation, shared, r.operatorPsk, encapsulated,
    derived⟩

/-- The responder that accepts a proposal has derived the initiator's keys: the tag under its own
confirmation key is the initiator's, so the operator's secrets agree, and with them the rest. -/
theorem openAnswer_matches (sound : Native.Sound) {s : EndpointState} {other : Number}
    {r : Relationship} {e : Exchange} {t : Transcript} {draws : Draws} {p : Pending} {m : Message}
    {P : Pending → Prop} (opened : s.openAnswer other r e t draws = .ok (p, m))
    (genuine : ∀ m ∈ e.messages, m.senderId = other → m.messageType = Kind.propose.code →
      m.authenticate t = .ok () → ∃ q, P q ∧ Offered q m ∧ q.transcript.initiatorId = other ∧
      Crypto.hybridPublic s.identity.hybridSecret = .ok
        ⟨q.transcript.responder.pqKemPublicKey, q.transcript.responder.pqX448PublicKey⟩) :
    ∃ q, P q ∧ p.Matches q := by
  obtain ⟨candidate, propose, d, rfl, member, sender, type, authentic, confirmed, -, -, shared,
    decapsulated, derived⟩ := openAnswer_ok opened
  obtain ⟨q, chosen, offered, initiator, keys⟩ := genuine propose member sender type authentic
  obtain ⟨-, -, -, -, sequence, exchangeId, hashed, ciphertext⟩ :=
    Message.authenticate_ok authentic
  have made := offered.made
  obtain ⟨drawn, shared', operator, encapsulated, derived'⟩ := offered.derived
  have text := ciphertext _ (made.ciphertext rfl)
  -- the ciphertext is the initiator's, so the shared secret is
  rw [Crypto.hybridPublic, invoke_ok] at keys
  rw [Crypto.decapsulate, invoke_ok, ← text] at decapsulated
  have agreed := sound.decapsulates _ _ _ _ _ _ keys encapsulated decapsulated
  subst agreed
  obtain ⟨salt, hashed₁, psk, initiator₁, responder₁⟩ := Crypto.derive_ok derived
  obtain ⟨salt', hashed₂, psk', initiator₂, responder₂⟩ := Crypto.derive_ok derived'
  have salts : salt = salt' := by
    have one := hashed.symm.trans hashed₁
    have two := made.transcriptHash.symm.trans hashed₂
    exact Except.ok.inj (one.symm.trans two)
  subst salts
  -- the tags are equal, so the confirmation keys are
  have tags : candidate.initiatorConfirmation = q.candidate.initiatorConfirmation := by
    simp only [Message.confirm, bind_ok, require_ok] at confirmed
    obtain ⟨_, _, tag, tagged, equal⟩ := confirmed
    rw [equal, sender, ← initiator, made.initiatorId, if_pos rfl, Crypto.tag, invoke_ok] at tagged
    have tagged' := made.tag
    rw [if_pos rfl, Crypto.tag, invoke_ok] at tagged'
    exact sound.hmacInjective _ _ _ _ tagged tagged'
  have operators : r.operatorPsk = operator := by
    rw [Crypto.expand, invoke_ok] at initiator₁ initiator₂
    rw [tags] at initiator₁
    exact sound.hkdfInjective _ _ _ _ _ _ _ initiator₁ initiator₂
  subst operators
  refine ⟨q, chosen, ?_, ?_, ?_, ?_⟩
  · exact exchangeId.symm.trans made.exchangeId
  · exact sequence.symm.trans made.sequence
  · exact hashed.trans made.transcriptHash.symm
  · have equal : Crypto.derive shared.kem shared.x448 r.operatorPsk t.encode =
        Crypto.derive shared.kem shared.x448 r.operatorPsk q.transcript.encode := by
      simp only [Crypto.derive, hashed₁, hashed₂]
    rw [equal, derived'] at derived
    exact (Except.ok.inj derived).symm

end EndpointState

/-- What a relationship holds goes back to exchanges that were offered. -/
structure Backed [Native] (offers : Pending → Prop) (r : Relationship) : Prop where
  pending : ∀ p, r.pending = some p → ∃ q, offers q ∧ p.Matches q
  confirmed : ∀ f, r.confirmed = some f → ∃ q, offers q ∧
    f.exchangeId = q.transcript.exchangeId ∧ f.sequence = q.transcript.sequence ∧
    Crypto.hash q.transcript.encode = .ok f.transcriptHash ∧ f.psk = q.candidate.psk

namespace Backed

variable [Native] {offers : Pending → Prop} {r r' : Relationship}

theorem fresh (bundle : Bundle) : Backed offers (.fresh bundle) :=
  ⟨fun _ pending => (nomatch pending), fun _ confirmed => (nomatch confirmed)⟩

theorem mono {offers' : Pending → Prop} (more : ∀ q, offers q → offers' q)
    (backed : Backed offers r) : Backed offers' r where
  pending p present := (backed.pending p present).imp fun _ => .imp_left (more _)
  confirmed f present := (backed.confirmed f present).imp fun _ => .imp_left (more _)

/-- Nothing is confirmed that was not, and a pending exchange is the one it was. -/
theorem fewer (backed : Backed offers r)
    (confirmed : ∀ f, r'.confirmed = some f → r.confirmed = some f)
    (pending : ∀ p', r'.pending = some p' → ∃ p, r.pending = some p ∧
      p'.transcript = p.transcript ∧ p'.candidate = p.candidate) : Backed offers r' where
  pending p' present := by
    obtain ⟨p, before, transcript, candidate⟩ := pending p' present
    obtain ⟨q, offered, same⟩ := backed.pending p before
    exact ⟨q, offered, transcript ▸ same.exchangeId, transcript ▸ same.sequence,
      transcript ▸ same.transcriptHash, candidate.trans same.candidate⟩
  confirmed f present := backed.confirmed f (confirmed f present)

theorem revised {s : EndpointState} {other : Number} {u : Upkeep} (backed : Backed offers r)
    (revised : Revised s other r u r') : Backed offers r' := by
  have kept : ∀ {r' : Relationship}, r'.confirmed = r.confirmed →
      (r'.pending = r.pending ∨ r'.pending = none) → Backed offers r' := by
    intro r' confirmed pending
    refine backed.fewer (fun f present => confirmed ▸ present) fun p' present => ?_
    rcases pending with same | none
    · exact ⟨p', same ▸ present, rfl, rfl⟩
    · rw [none] at present
      cases present
  cases revised with
  | untouched => exact backed
  | sampled => exact kept rfl (.inl rfl)
  | backedOff pending =>
    refine backed.fewer (fun f present => present) fun p' present => ?_
    cases present
    exact ⟨_, pending, rfl, rfl⟩
  | replaced => exact kept rfl (.inl rfl)
  | disabled => exact kept rfl (.inr rfl)
  | retired => exact backed.fewer (fun f present => nomatch present) fun p' present => nomatch present
  | @observed bundle lifecycle =>
    have confirmed := EndpointState.settle_confirmed (.refresh s.peerId other r bundle) lifecycle
    refine kept confirmed ?_
    rcases EndpointState.settle_pending (.refresh s.peerId other r bundle) lifecycle with
      same | none
    · rcases EndpointState.refresh_pending s.peerId other r bundle with same' | none
      · exact .inl (same.trans same')
      · exact .inr (same.trans none)
    · exact .inr none

/-- A turn adds an offer, or answers one; completing takes over what was pending. -/
theorem turn {σ : Type} {s : EndpointState} {other : Number} {remote : Option Exchange} {now : Nat}
    {installer : Installer σ} {draws : Draws} {world world' : σ} {result : Except Error Action}
    (backed : Backed offers r)
    (turn : EndpointState.Turn s other r remote now installer draws world result r' world')
    (proposing : ∀ p m, r.pending = none → s.peerId < other →
      s.openProposal other r draws = .ok (p, m) → r'.pending = some p → result = .ok (.send m) →
      offers p)
    (answering : ∀ e t p m, r.pending = none → ¬ s.peerId < other → remote = some e →
      e.transcript = some t → s.addressed other r t → s.openAnswer other r e t draws = .ok (p, m) →
      ∃ q, offers q ∧ p.Matches q) : Backed offers r' := by
  constructor
  · intro p' pending
    rcases turn.same pending with ⟨p, before, transcript, candidate⟩ |
      ⟨idle, initiator, m, opened, sent, -⟩ |
      ⟨idle, responder, e, t, m, shown, -, transcript, addressed, opened, -⟩
    · obtain ⟨q, offered, same⟩ := backed.pending p before
      exact ⟨q, offered, transcript ▸ same.exchangeId, transcript ▸ same.sequence,
        transcript ▸ same.transcriptHash, candidate.trans same.candidate⟩
    · exact ⟨p', proposing p' m idle initiator opened pending sent, rfl, rfl, rfl, rfl⟩
    · exact answering e t p' m idle responder shown transcript addressed opened
  · intro f confirmed
    cases turn with
    | rested => exact backed.confirmed f confirmed
    | failed => exact backed.confirmed f confirmed
    | spent => exact backed.confirmed f confirmed
    | proposed => exact backed.confirmed f confirmed
    | answered => exact backed.confirmed f confirmed
    | interrupted => exact backed.confirmed f confirmed
    | resent => exact backed.confirmed f confirmed
    | @acted p d _ _ _ before _ _ act =>
      cases act with
      | completed _ hashed =>
        cases confirmed
        obtain ⟨q, offered, same⟩ := backed.pending p before
        exact ⟨q, offered, same.exchangeId, same.sequence, same.transcriptHash ▸ hashed,
          congrArg Candidate.psk same.candidate⟩
      | abandoned => exact backed.confirmed f confirmed
      | held => exact backed.confirmed f confirmed
      | refused => exact backed.confirmed f confirmed
      | committed => exact backed.confirmed f confirmed
      | installed => exact backed.confirmed f confirmed
      | noted => exact backed.confirmed f confirmed
      | confirmed => exact backed.confirmed f confirmed
      | unsigned => exact backed.confirmed f confirmed

end Backed

/-- The exchange a deed opens with the peer, with the message that is sent for it. -/
def Endpoint.opens [Native] (e : Endpoint) (other : Number) : Deed → Option (Pending × Message)
  | .upkeep _ => none
  | .reconcile c =>
    if c.other = other ∧ (e.state.relationship other).any (fun r => r.pending.isNone) = true then
      match (c.perform e.state).1, ((c.perform e.state).2.1.relationship other).bind
          Relationship.pending with
      | .ok (.send m), some p => some (p, m)
      | _, _ => none
    else none

theorem Endpoint.opens_turned [Native] {e : Endpoint} {c : Call} {r r' : Relationship}
    (known : e.state.relationship c.other = some r)
    (after : (c.perform e.state).2.1.relationship c.other = some r') {p : Pending} {m : Message} :
    e.opens c.other (.reconcile c) = some (p, m) ↔
      r.pending = none ∧ (c.perform e.state).1 = .ok (.send m) ∧ r'.pending = some p := by
  simp only [opens, known, after, Option.any_some, Option.isNone_iff_eq_none, true_and,
    Option.bind_some]
  split
  · rename_i idle
    split
    · rename_i m' p' sent pending
      rw [sent, pending]
      simp only [Option.some.injEq, Prod.mk.injEq, idle, true_and, Except.ok.injEq,
        Action.send.injEq]
      exact and_comm
    · rename_i neither
      constructor
      · intro found
        cases found
      · rintro ⟨-, sent, pending⟩
        exact absurd pending (neither m p sent)
  · rename_i busy
    constructor
    · intro found
      cases found
    · rintro ⟨idle, -⟩
      exact absurd idle busy

/-- An initiator opens nothing with the peer but proposals. -/
theorem Endpoint.opens_proposal [Native] {e : Endpoint} {other : Number} {d : Deed} {p : Pending}
    {m : Message} (initiator : e.state.peerId < other) (opened : e.opens other d = some (p, m)) :
    ∃ c r, d = .reconcile c ∧ c.other = other ∧ e.state.relationship other = some r ∧
      e.state.openProposal other r c.draws = .ok (p, m) := by
  cases d with
  | upkeep u => cases opened
  | reconcile c =>
    by_cases here : c.other = other
    · subst here
      rcases c.turned e.state with ⟨-, -, silent⟩ | ⟨r, r', apart, known, after, -, turn⟩
      · simp only [opens] at opened
        split at opened
        · split at opened
          · rename_i sent _
            cases silent _ sent
          · cases opened
        · cases opened
      · obtain ⟨idle, sent, pending⟩ := (opens_turned known after).mp opened
        rcases turn.same pending with ⟨p', before, -⟩ | ⟨-, -, m', proposal, sent', -⟩ |
          ⟨-, responder, -⟩
        · rw [idle] at before
          cases before
        · rw [sent] at sent'
          cases sent'
          exact ⟨c, r, rfl, rfl, known, proposal⟩
        · exact absurd initiator responder
    · simp [opens, here] at opened

/-- Two endpoints that are peers of each other, the exchanges the first has opened with the second,
and the bundles the second has had. -/
structure Couple where
  initiator : Endpoint
  responder : Endpoint
  proposals : List (Pending × Message)
  published : List Bundle

namespace Couple

section Steps

variable [Native]

/-- A deed of the initiator (`true`) or of the responder. -/
def next (t : Couple) : Bool × Deed → Couple
  | (true, d) => { t with
      initiator := t.initiator.next d
      proposals := t.proposals ++ (t.initiator.opens t.responder.state.peerId d).toList }
  | (false, d) => { t with
      responder := t.responder.next d
      published := t.published ++ [(t.responder.next d).state.identity.bundle] }

def Step (t : Couple) (l : Bool × Deed) (t' : Couple) : Prop := t' = t.next l

end Steps

/-- The proposals a record shows under the initiator's signature are the initiator's. -/
def Authentic [Native] (t : Couple) (c : Call) : Prop :=
  ∀ e ∈ c.remote, ∀ x ∈ e.transcript, ∀ m ∈ e.messages, m.senderId = c.other →
    m.messageType = Kind.propose.code → m.authenticate x = .ok () →
    ∃ q ∈ t.proposals, q.2 = m

/-- Each side sees of the other what the other made, whatever else the directory shows: the bundles
the initiator observes are the responder's, and the proposals the responder is shown are the
initiator's. Exchange ids and bundle ids are drawn fresh. -/
def Genuine [Native] (m : Move Couple (Bool × Deed)) : Prop :=
  match m.label with
  | (true, .upkeep (.observeRemote peer bundle _)) => peer = m.before.responder.state.peerId →
      bundle ∈ m.before.published
  | (true, .reconcile c) => c.other = m.before.responder.state.peerId →
      ∀ q ∈ m.before.proposals, c.draws.exchangeId ≠ .ok q.1.transcript.exchangeId
  | (false, .reconcile c) => c.other = m.before.initiator.state.peerId → m.before.Authentic c
  | (false, .upkeep (.replace identity)) => ∀ b ∈ m.before.published,
      b.bundleId ≠ identity.bundle.bundleId
  | _ => True

/-- The exchange is one the initiator opened. -/
def Proposed (t : Couple) (q : Pending) : Prop := ∃ m, (q, m) ∈ t.proposals

/-- The two sides' relationships with each other. -/
def ours (t : Couple) : Option Relationship :=
  t.initiator.state.relationship t.responder.state.peerId

def theirs (t : Couple) : Option Relationship :=
  t.responder.state.relationship t.initiator.state.peerId

structure Concord [Native] (t : Couple) : Prop where
  ordered : t.initiator.state.peerId < t.responder.state.peerId
  offers : ∀ q m, (q, m) ∈ t.proposals → Offered q m ∧
    q.transcript.initiatorId = t.initiator.state.peerId ∧ q.transcript.responder ∈ t.published
  distinct : ∀ q q', t.Proposed q → t.Proposed q' →
    q.transcript.exchangeId = q'.transcript.exchangeId → q = q'
  observed : ∀ r, t.ours = some r → r.remote ∈ t.published
  current : t.responder.state.identity.bundle ∈ t.published
  keys : Crypto.hybridPublic t.responder.state.identity.hybridSecret = .ok
    ⟨t.responder.state.identity.bundle.pqKemPublicKey,
      t.responder.state.identity.bundle.pqX448PublicKey⟩
  unique : ∀ b ∈ t.published, ∀ b' ∈ t.published, b.bundleId = b'.bundleId → b = b'
  initiator : ∀ r, t.ours = some r → Backed t.Proposed r
  responder : ∀ r, t.theirs = some r → Backed t.Proposed r

namespace Concord

variable [Native] {t : Couple}

theorem initiator_upkeep (concord : t.Concord) (u : Upkeep)
    (genuine : ∀ bundle lifecycle, u = .observeRemote t.responder.state.peerId bundle lifecycle →
      bundle ∈ t.published) : (t.next (true, .upkeep u)).Concord := by
  have same : (t.next (true, .upkeep u)).proposals = t.proposals := List.append_nil _
  have proposed : (t.next (true, .upkeep u)).Proposed = t.Proposed := by
    unfold Proposed
    rw [same]
  have peerId : (t.next (true, .upkeep u)).initiator.state.peerId = t.initiator.state.peerId :=
    EndpointState.upkeep_peerId u t.initiator.state
  have upkept := EndpointState.upkept u t.initiator.state t.responder.state.peerId
  have seen : ∀ r, (t.next (true, .upkeep u)).ours = some r → r.remote ∈ t.published ∧
      Backed t.Proposed r := by
    intro r known
    have known : (u.perform t.initiator.state).relationship t.responder.state.peerId = some r :=
      known
    rw [known] at upkept
    generalize before : t.initiator.state.relationship t.responder.state.peerId = past at upkept
    cases upkept with
    | @met bundle valid observed =>
      exact ⟨genuine bundle _ observed, .fresh bundle⟩
    | @revised r₀ _ revised =>
      refine ⟨?_, (concord.initiator r₀ before).revised revised⟩
      rcases EndpointState.revised_remote revised with same | ⟨bundle, lifecycle, observed, same⟩
      · rw [same]
        exact concord.observed r₀ before
      · rw [same]
        exact genuine bundle lifecycle observed
  constructor
  · rw [peerId]
    exact concord.ordered
  · rw [same, peerId]
    exact concord.offers
  · rw [proposed]
    exact concord.distinct
  · exact fun r known => (seen r known).1
  · exact concord.current
  · exact concord.keys
  · exact concord.unique
  · rw [proposed]
    exact fun r known => (seen r known).2
  · rw [proposed]
    intro r known
    refine concord.responder r ?_
    rw [← known]
    exact congrArg t.responder.state.relationship peerId.symm

theorem initiator_call (concord : t.Concord) (c : Call)
    (genuine : c.other = t.responder.state.peerId → ∀ q ∈ t.proposals,
      c.draws.exchangeId ≠ .ok q.1.transcript.exchangeId) :
    (t.next (true, .reconcile c)).Concord := by
  have peerId : (t.next (true, .reconcile c)).initiator.state.peerId =
      t.initiator.state.peerId := t.initiator.next_peerId (.reconcile c)
  have grown : (t.next (true, .reconcile c)).proposals = t.proposals ++
      (t.initiator.opens t.responder.state.peerId (.reconcile c)).toList := rfl
  have proposed : ∀ q, (t.next (true, .reconcile c)).Proposed q ↔ t.Proposed q ∨
      ∃ m, t.initiator.opens t.responder.state.peerId (.reconcile c) = some (q, m) := by
    intro q
    simp only [Proposed, grown, List.mem_append, Option.mem_toList, exists_or]
  have older : ∀ q, t.Proposed q → (t.next (true, .reconcile c)).Proposed q :=
    fun q old => (proposed q).mpr (.inl old)
  -- what is opened is a fresh proposal to the responder's observed bundle
  have news : ∀ q m, t.initiator.opens t.responder.state.peerId (.reconcile c) = some (q, m) →
      Offered q m ∧ q.transcript.initiatorId = t.initiator.state.peerId ∧
      q.transcript.responder ∈ t.published ∧
      ∀ q', t.Proposed q' → q'.transcript.exchangeId ≠ q.transcript.exchangeId := by
    intro q m opened
    obtain ⟨c', r, same, here, known, proposal⟩ := Endpoint.opens_proposal concord.ordered opened
    cases same
    have offered := EndpointState.openProposal_offered proposal
    obtain ⟨x, candidate, rfl, -, drawn, -, initiatorId, -, -, responder, -⟩ :=
      EndpointState.openProposal_ok proposal
    refine ⟨offered, initiatorId, ?_, ?_⟩
    · change x.responder ∈ _
      rw [responder]
      exact concord.observed r known
    · rintro q' ⟨m', old⟩ same
      exact genuine here (q', m') old (drawn.trans (congrArg Except.ok same.symm))
  constructor
  · rw [peerId]
    exact concord.ordered
  · intro q m member
    rw [peerId]
    rw [grown, List.mem_append, Option.mem_toList] at member
    rcases member with old | new
    · exact concord.offers q m old
    · exact ⟨(news q m new).1, (news q m new).2.1, (news q m new).2.2.1⟩
  · intro q q' first second same
    rcases (proposed q).mp first with old | ⟨m, new⟩
    · rcases (proposed q').mp second with old' | ⟨m', new'⟩
      · exact concord.distinct q q' old old' same
      · exact absurd same ((news q' m' new').2.2.2 q old)
    · rcases (proposed q').mp second with old' | ⟨m', new'⟩
      · exact absurd same.symm ((news q m new).2.2.2 q' old')
      · rw [new] at new'
        cases new'
        rfl
  · intro r' known
    by_cases here : c.other = t.responder.state.peerId
    · have known : (c.perform t.initiator.state).2.1.relationship t.responder.state.peerId =
          some r' := known
      rw [← here] at known
      rcases c.turned t.initiator.state with ⟨same, -⟩ | ⟨r, r'', -, before, after, -, turn⟩
      · rw [same, here] at known
        exact concord.observed r' known
      · rw [known] at after
        cases after
        rw [here] at before
        change r'.remote ∈ t.published
        rw [turn.remote]
        exact concord.observed r before
    · refine concord.observed r' ?_
      rw [← known]
      exact (Call.other_relationship c t.initiator.state (Ne.symm here)).symm
  · exact concord.current
  · exact concord.keys
  · exact concord.unique
  · intro r' known
    by_cases here : c.other = t.responder.state.peerId
    · have known : (c.perform t.initiator.state).2.1.relationship t.responder.state.peerId =
          some r' := known
      rw [← here] at known
      rcases c.turned t.initiator.state with ⟨same, -⟩ | ⟨r, r'', -, before, after, -, turn⟩
      · rw [same, here] at known
        exact (concord.initiator r' known).mono older
      · rw [known] at after
        cases after
        have ours : t.ours = some r := by
          rw [← before, here]
          rfl
        refine ((concord.initiator r ours).mono older).turn turn ?_ ?_
        · intro p m idle _ _ pending sent
          refine (proposed p).mpr (.inr ⟨m, ?_⟩)
          rw [← here]
          exact (Endpoint.opens_turned before known).mpr ⟨idle, sent, pending⟩
        · intro e x p m _ responder
          rw [here] at responder
          exact absurd concord.ordered responder
    · refine (concord.initiator r' ?_).mono older
      rw [← known]
      exact (Call.other_relationship c t.initiator.state (Ne.symm here)).symm
  · intro r known
    refine (concord.responder r ?_).mono older
    rw [← known]
    exact congrArg t.responder.state.relationship peerId.symm

theorem responder_upkeep (concord : t.Concord) (u : Upkeep)
    (genuine : ∀ identity, u = .replace identity →
      ∀ b ∈ t.published, b.bundleId ≠ identity.bundle.bundleId) :
    (t.next (false, .upkeep u)).Concord := by
  have peerId : (t.next (false, .upkeep u)).responder.state.peerId = t.responder.state.peerId :=
    EndpointState.upkeep_peerId u t.responder.state
  have identity := EndpointState.upkeep_identity u t.responder.state
  have grown : (t.next (false, .upkeep u)).published = t.published ++
      [(u.perform t.responder.state).identity.bundle] := rfl
  have older : ∀ b ∈ t.published, b ∈ (t.next (false, .upkeep u)).published :=
    fun b member => grown ▸ List.mem_append_left _ member
  have ours : (t.next (false, .upkeep u)).ours = t.ours :=
    congrArg t.initiator.state.relationship peerId
  constructor
  · rw [peerId]
    exact concord.ordered
  · intro q m member
    obtain ⟨offered, initiatorId, responder⟩ := concord.offers q m member
    exact ⟨offered, initiatorId, older _ responder⟩
  · exact concord.distinct
  · intro r known
    rw [ours] at known
    exact older _ (concord.observed r known)
  · rw [grown]
    exact List.mem_append_right _ (List.mem_singleton.mpr rfl)
  · rcases identity with same | ⟨identity, -, valid, same⟩
    · have same : (t.next (false, .upkeep u)).responder.state.identity =
          t.responder.state.identity := same
      rw [same]
      exact concord.keys
    · have same : (t.next (false, .upkeep u)).responder.state.identity = identity := same
      rw [same]
      exact EndpointState.validate_keys valid
  · intro b member b' member' same
    rw [grown, List.mem_append, List.mem_singleton] at member member'
    rcases identity with kept | ⟨identity, replaced, -, kept⟩
    · rw [kept] at member member'
      have old : b ∈ t.published := member.elim id fun here => here ▸ concord.current
      have old' : b' ∈ t.published := member'.elim id fun here => here ▸ concord.current
      exact concord.unique b old b' old' same
    · rw [kept] at member member'
      have fresh := genuine identity replaced
      rcases member with old | rfl
      · rcases member' with old' | rfl
        · exact concord.unique b old b' old' same
        · exact absurd same (fresh b old)
      · rcases member' with old' | rfl
        · exact absurd same.symm (fresh b' old')
        · rfl
  · intro r known
    rw [ours] at known
    exact concord.initiator r known
  · intro r known
    have known : (u.perform t.responder.state).relationship t.initiator.state.peerId = some r :=
      known
    have upkept := EndpointState.upkept u t.responder.state t.initiator.state.peerId
    rw [known] at upkept
    generalize before : t.responder.state.relationship t.initiator.state.peerId = past at upkept
    cases upkept with
    | met => exact .fresh _
    | revised revised => exact (concord.responder _ before).revised revised

theorem responder_call (concord : t.Concord) (sound : Native.Sound) (c : Call)
    (genuine : c.other = t.initiator.state.peerId → t.Authentic c) : (t.next (false, .reconcile c)).Concord := by
  obtain ⟨relationships, frame⟩ := c.perform_frame t.responder.state
  have peerId : (t.next (false, .reconcile c)).responder.state.peerId =
      t.responder.state.peerId := t.responder.next_peerId (.reconcile c)
  have identity : (t.next (false, .reconcile c)).responder.state.identity =
      t.responder.state.identity := by
    change (c.perform t.responder.state).2.1.identity = _
    rw [frame]
  have grown : (t.next (false, .reconcile c)).published = t.published ++
      [t.responder.state.identity.bundle] := by
    rw [← identity]
    rfl
  have within : ∀ b, b ∈ (t.next (false, .reconcile c)).published ↔ b ∈ t.published := by
    intro b
    rw [grown, List.mem_append, List.mem_singleton]
    exact ⟨fun member => member.elim id fun here => here ▸ concord.current, .inl⟩
  have ours : (t.next (false, .reconcile c)).ours = t.ours :=
    congrArg t.initiator.state.relationship peerId
  constructor
  · rw [peerId]
    exact concord.ordered
  · intro q m member
    rw [within]
    exact concord.offers q m member
  · exact concord.distinct
  · intro r known
    rw [ours] at known
    rw [within]
    exact concord.observed r known
  · rw [within, identity]
    exact concord.current
  · rw [identity]
    exact concord.keys
  · intro b member b' member'
    rw [within] at member member'
    exact concord.unique b member b' member'
  · intro r known
    rw [ours] at known
    exact concord.initiator r known
  · intro r' known
    have known : (c.perform t.responder.state).2.1.relationship t.initiator.state.peerId =
        some r' := known
    by_cases here : c.other = t.initiator.state.peerId
    · rw [← here] at known
      rcases c.turned t.responder.state with ⟨same, -⟩ | ⟨r, r'', -, before, after, -, turn⟩
      · rw [same, here] at known
        exact concord.responder r' known
      · rw [known] at after
        cases after
        have theirs : t.theirs = some r := by
          rw [← before, here]
          rfl
        refine (concord.responder r theirs).turn turn ?_ ?_
        · intro p m _ initiator
          rw [here] at initiator
          exact absurd concord.ordered (lt_asymm initiator)
        · intro e x p m _ _ shown transcript addressed opened
          refine EndpointState.openAnswer_matches sound opened fun sent member sender type
            authentic => ?_
          obtain ⟨⟨q, _⟩, proposal, rfl⟩ := genuine here e shown x transcript sent member sender
            type authentic
          obtain ⟨offered, initiatorId, responder⟩ := concord.offers q _ proposal
          refine ⟨q, ⟨_, proposal⟩, offered, initiatorId.trans here.symm, ?_⟩
          have bundleIds : q.transcript.responder.bundleId = x.responder.bundleId :=
            offered.made.responderBundleId.symm.trans (Message.authenticate_ok authentic).2.2.2.1
          rw [addressed.2.2.2.2] at bundleIds
          rw [concord.unique _ responder _ concord.current bundleIds]
          exact concord.keys
    · rw [c.other_relationship _ (Ne.symm here)] at known
      exact concord.responder r' known

theorem step (concord : t.Concord) (sound : Native.Sound) (l : Bool × Deed)
    (genuine : Genuine ⟨t, l, t.next l⟩) : (t.next l).Concord := by
  rcases l with ⟨_ | _, c | u⟩
  · exact concord.responder_call sound c genuine
  · refine concord.responder_upkeep u fun identity same => ?_
    subst same
    exact genuine
  · exact concord.initiator_call c genuine
  · refine concord.initiator_upkeep u fun bundle lifecycle same => ?_
    subst same
    exact genuine rfl

/-- Agreement: what both sides confirmed under one exchange id is one exchange. -/
theorem agreement (concord : t.Concord) {r r' : Relationship} {f f' : Confirmed}
    (ours : t.ours = some r) (theirs : t.theirs = some r') (confirmed : r.confirmed = some f)
    (confirmed' : r'.confirmed = some f') (same : f.exchangeId = f'.exchangeId) :
    f.psk = f'.psk ∧ f.sequence = f'.sequence ∧ f.transcriptHash = f'.transcriptHash := by
  obtain ⟨q, offered, exchangeId, sequence, hashed, psk⟩ :=
    (concord.initiator r ours).confirmed f confirmed
  obtain ⟨q', offered', exchangeId', sequence', hashed', psk'⟩ :=
    (concord.responder r' theirs).confirmed f' confirmed'
  have one := concord.distinct q q' offered offered'
    (exchangeId.symm.trans (same.trans exchangeId'))
  subst one
  exact ⟨psk.trans psk'.symm, sequence.trans sequence'.symm,
    Except.ok.inj (hashed.symm.trans hashed')⟩

end Concord

/-- Two registered endpoints that have not met. -/
structure Begins [Native] (t : Couple) : Prop where
  ordered : t.initiator.state.peerId < t.responder.state.peerId
  initiator : t.initiator = .start t.initiator.state ∧ t.initiator.state.relationships = ∅
  responder : t.responder = .start t.responder.state ∧ t.responder.state.relationships = ∅
  proposals : t.proposals = []
  published : t.published = [t.responder.state.identity.bundle]
  valid : t.responder.state.identity.validate = .ok ()

/-- Neither side takes away the one copy of a key. -/
def Careful [Native] (m : Move Couple (Bool × Deed)) : Prop :=
  match m.label with
  | (true, d) => Endpoint.Careful ⟨m.before.initiator, d, m.after.initiator⟩
  | (false, d) => Endpoint.Careful ⟨m.before.responder, d, m.after.responder⟩

variable [Native] {t : Couple}

theorem Begins.concord (begins : t.Begins) : t.Concord := by
  have ours : t.ours = none := by
    rw [ours, EndpointState.relationship, begins.initiator.2]
    rfl
  have theirs : t.theirs = none := by
    rw [theirs, EndpointState.relationship, begins.responder.2]
    rfl
  constructor
  · exact begins.ordered
  · rw [begins.proposals]
    exact fun _ _ member => by cases member
  · rintro q q' ⟨m, member⟩
    rw [begins.proposals] at member
    cases member
  · rw [ours]
    exact fun _ known => by cases known
  · rw [begins.published]
    exact List.mem_singleton.mpr rfl
  · exact EndpointState.validate_keys begins.valid
  · rw [begins.published]
    intro b member b' member' _
    rw [List.mem_singleton] at member member'
    exact member.trans member'.symm
  · rw [ours]
    exact fun _ known => by cases known
  · rw [theirs]
    exact fun _ known => by cases known

theorem Begins.keeps (begins : t.Begins) : t.initiator.Keeps ∧ t.responder.Keeps := by
  rw [begins.initiator.1, begins.responder.1]
  exact ⟨Endpoint.keeps_run begins.initiator.2 .start (fun _ member => nomatch member),
    Endpoint.keeps_run begins.responder.2 .start (fun _ member => nomatch member)⟩

theorem reached {t' : Couple} {ms : List (Move Couple (Bool × Deed))} (sound : Native.Sound)
    (begins : t.Begins) (run : Run Step t ms t') (fair : ∀ m ∈ ms, Genuine m ∧ Careful m) :
    t'.Concord ∧ t'.initiator.Keeps ∧ t'.responder.Keeps := by
  refine run.guarded (P := fun t => t.Concord ∧ t.initiator.Keeps ∧ t.responder.Keeps)
    ⟨begins.concord, begins.keeps⟩ ?_ fair
  rintro t l _ ⟨concord, initiator, responder⟩ rfl ⟨genuine, careful⟩
  refine ⟨concord.step sound l genuine, ?_⟩
  rcases l with ⟨_ | _, d⟩
  · exact ⟨initiator, responder.step d careful⟩
  · exact ⟨initiator.step d careful, responder⟩

end Couple

/-- Where no step takes away its one copy, the key last installed is kept by the relationship; and
two endpoints that rest on one exchange have both kernels keyed with its key. -/
theorem Endpoint.last_key_kept [Native] :
    (∀ (s : EndpointState) (ms : List (Move Endpoint Deed)) (e : Endpoint), s.relationships = ∅ →
      Run Step (start s) ms e → (∀ m ∈ ms, Careful m) → ∀ other c, e.keyed other = some c →
      e.state.Holds other c.psk) ∧
    (Native.Sound → ∀ (t t' : Couple) (ms : List (Move Couple (Bool × Deed))), t.Begins →
      Run Couple.Step t ms t' → (∀ m ∈ ms, Couple.Genuine m ∧ Couple.Careful m) →
      ∀ r r' f f', t'.ours = some r → t'.theirs = some r' → r.pending = none → r'.pending = none →
      r.confirmed = some f → r'.confirmed = some f' → f.exchangeId = f'.exchangeId →
      ∃ c c', t'.initiator.keyed t'.responder.state.peerId = some c ∧
        t'.responder.keyed t'.initiator.state.peerId = some c' ∧ c.psk = f.psk ∧
        c'.psk = f.psk) := by
  constructor
  · intro s ms e unmet run careful other c keyed
    exact (keeps_run unmet run careful).holds keyed
  · intro sound t t' ms begins run fair r r' f f' ours theirs idle idle' confirmed confirmed' same
    obtain ⟨concord, initiator, responder⟩ := Couple.reached sound begins run fair
    obtain ⟨c, keyed, key⟩ := initiator.settled ours idle confirmed
    obtain ⟨c', keyed', key'⟩ := responder.settled theirs idle' confirmed'
    have agreed := concord.agreement ours theirs confirmed confirmed' same
    exact ⟨c, c', keyed, keyed', key, key'.trans agreed.1.symm⟩

section Sample

open Arithmetic

attribute [local instance] native

instance (t : Couple) (c : Call) : Decidable (t.Authentic c) :=
  inferInstanceAs (Decidable (∀ e ∈ c.remote, _))

instance : DecidablePred Couple.Genuine := fun ⟨t, l, _⟩ =>
  match l with
  | (true, .reconcile c) => inferInstanceAs (Decidable (c.other = t.responder.state.peerId →
      ∀ q ∈ t.proposals, c.draws.exchangeId ≠ .ok q.1.transcript.exchangeId))
  | (false, .reconcile c) =>
    inferInstanceAs (Decidable (c.other = t.initiator.state.peerId → t.Authentic c))
  | (true, .upkeep (.observeRemote peer bundle _)) =>
    inferInstanceAs (Decidable (peer = t.responder.state.peerId → bundle ∈ t.published))
  | (false, .upkeep (.replace identity)) =>
    inferInstanceAs (Decidable (∀ b ∈ t.published, b.bundleId ≠ identity.bundle.bundleId))
  | (false, .upkeep (.observeRemote ..)) => inferInstanceAs (Decidable True)
  | (true, .upkeep (.replace _)) => inferInstanceAs (Decidable True)
  | (true, .upkeep (.observeActivity ..)) => inferInstanceAs (Decidable True)
  | (true, .upkeep (.noteSendFailure ..)) => inferInstanceAs (Decidable True)
  | (true, .upkeep (.setPolicy _)) => inferInstanceAs (Decidable True)
  | (true, .upkeep (.submitPendingRegistration _)) => inferInstanceAs (Decidable True)
  | (true, .upkeep (.acceptRegistration _)) => inferInstanceAs (Decidable True)
  | (true, .upkeep .disable) => inferInstanceAs (Decidable True)
  | (true, .upkeep .emergencyRetire) => inferInstanceAs (Decidable True)
  | (false, .upkeep (.observeActivity ..)) => inferInstanceAs (Decidable True)
  | (false, .upkeep (.noteSendFailure ..)) => inferInstanceAs (Decidable True)
  | (false, .upkeep (.setPolicy _)) => inferInstanceAs (Decidable True)
  | (false, .upkeep (.submitPendingRegistration _)) => inferInstanceAs (Decidable True)
  | (false, .upkeep (.acceptRegistration _)) => inferInstanceAs (Decidable True)
  | (false, .upkeep .disable) => inferInstanceAs (Decidable True)
  | (false, .upkeep .emergencyRetire) => inferInstanceAs (Decidable True)

instance : DecidablePred Couple.Careful := fun ⟨t, l, t'⟩ =>
  match l with
  | (true, d) => inferInstanceAs (Decidable (Endpoint.Careful ⟨t.initiator, d, t'.initiator⟩))
  | (false, d) => inferInstanceAs (Decidable (Endpoint.Careful ⟨t.responder, d, t'.responder⟩))

/-- Two peers before they meet. -/
def Arithmetic.couple : Couple where
  initiator := .start (endpoint second (identity 2 first) ∅)
  responder := .start (endpoint third (identity 3 first) ∅)
  proposals := []
  published := [(identity 3 first).bundle]

/-- The record after so many messages. -/
def Arithmetic.after (sent : Nat) (phase : Phase) : Option Exchange :=
  shown (transcript first 5) phase <|
    [(.propose, second), (.ready, third), (.commit, second), (.installed, third),
      (.installed, second), (.confirmed, third), (.confirmed, second)].take sent

/-- One whole exchange. -/
def Arithmetic.rotation : List (Bool × Deed) :=
  [(true, .upkeep (.observeRemote third (identity 3 first).bundle .enabled)),
    (false, .upkeep (.observeRemote second (identity 2 first).bundle .enabled)),
    (true, turn third none),
    (false, turn second (after 1 .proposed)),
    (true, turn third (after 2 .ready)),
    (false, turn second (after 3 .committed)),
    (true, turn third (after 4 .committed)),
    (false, turn second (after 5 .committed)),
    (true, turn third (after 6 .committed)),
    (false, turn second (after 7 .complete)),
    (true, turn third (after 7 .complete))]

/-- Both sides rest on the same exchange. -/
def Couple.rested (t : Couple) : Bool :=
  match t.ours, t.theirs with
  | some r, some r' => match r.confirmed, r'.confirmed with
    | some f, some f' => r.pending.isNone && r'.pending.isNone && f.exchangeId == f'.exchangeId
    | _, _ => false
  | _, _ => false

theorem Couple.rested_iff {t : Couple} (rested : t.rested = true) : ∃ r r' f f',
    t.ours = some r ∧ t.theirs = some r' ∧ r.pending = none ∧ r'.pending = none ∧
      r.confirmed = some f ∧ r'.confirmed = some f' ∧ f.exchangeId = f'.exchangeId := by
  unfold Couple.rested at rested
  split at rested
  · rename_i r r' ours theirs
    split at rested
    · rename_i f f' confirmed confirmed'
      simp only [Bool.and_eq_true, Option.isNone_iff_eq_none, beq_iff_eq] at rested
      exact ⟨r, r', f, f', ours, theirs, rested.1.1, rested.1.2, confirmed, confirmed', rested.2⟩
    · cases rested
  · cases rested

theorem Arithmetic.couple_begins : couple.Begins where
  ordered := by decide
  initiator := ⟨rfl, rfl⟩
  responder := ⟨rfl, rfl⟩
  proposals := rfl
  published := rfl
  valid := by decide +kernel

theorem Endpoint.last_key_kept_rotation :
    (∃ (e : Endpoint) (c : Candidate), e.keyed second = some c ∧ e.state.Holds second c.psk) ∧
      ∃ (t : Couple) (c c' : Candidate), t.initiator.keyed t.responder.state.peerId = some c ∧
        t.responder.keyed t.initiator.state.peerId = some c' ∧ c.psk = c'.psk := by
  constructor
  · have checked : (follow Endpoint.next Endpoint.Careful
        (.start (endpoint third (identity 3 first) ∅)) confirming).any
        (fun e => (e.keyed second).isSome) = true := by decide +kernel
    obtain ⟨ms, e, run, careful, keyed⟩ := follow_run checked
    obtain ⟨c, keyed⟩ := Option.isSome_iff_exists.mp keyed
    exact ⟨e, c, keyed, Endpoint.last_key_kept.1 _ ms e rfl run careful second c keyed⟩
  · have checked : (follow Couple.next (fun m => Couple.Genuine m ∧ Couple.Careful m) couple rotation).any
        Couple.rested = true := by decide +kernel
    obtain ⟨ms, t, run, fair, rested⟩ := follow_run checked
    obtain ⟨r, r', f, f', ours, theirs, idle, idle', confirmed, confirmed', same⟩ :=
      Couple.rested_iff rested
    obtain ⟨c, c', keyed, keyed', key, key'⟩ := Endpoint.last_key_kept.2 native_sound _ t ms
      couple_begins run fair r r' f f' ours theirs idle idle' confirmed confirmed' same
    exact ⟨t, c, c', keyed, keyed', key.trans key'.symm⟩

/-- The responder installs the key and then observes the initiator's next bundle: nothing but its
kernel has the key any more. -/
theorem Endpoint.installed_key_dropped : ∃ (s : EndpointState) (ms : List (Move Endpoint Deed))
    (e : Endpoint) (c : Candidate), s.relationships = ∅ ∧ Run Endpoint.Step (.start s) ms e ∧
      e.keyed second = some c ∧ ¬ e.state.Holds second c.psk := by
  let s : EndpointState := endpoint third (identity 3 first) ∅
  let refreshed : Bundle := { (identity 2 first).bundle with bundleId := 9, bundleRevision := second }
  have checked : (follow Endpoint.next (fun _ => True) (.start s)
      (confirming ++ [.upkeep (.observeRemote second refreshed .enabled)])).any
      (fun e => (e.keyed second).isSome && (e.state.relationship second).all fun r =>
        r.pending.isNone && r.confirmed.isNone) = true := by decide +kernel
  obtain ⟨ms, e, run, -, lost⟩ := follow_run checked
  rw [Bool.and_eq_true] at lost
  obtain ⟨c, keyed⟩ := Option.isSome_iff_exists.mp lost.1
  refine ⟨s, ms, e, c, rfl, run, keyed, ?_⟩
  rintro ⟨r, known, held⟩
  have none := (Option.all_eq_true _ _).mp lost.2 r known
  rw [Bool.and_eq_true, Option.isNone_iff_eq_none, Option.isNone_iff_eq_none] at none
  rcases held with ⟨p, pending, -⟩ | ⟨f, confirmed, -⟩
  · rw [none.1] at pending
    cases pending
  · rw [none.2] at confirmed
    cases confirmed

end Sample

end Innernet
