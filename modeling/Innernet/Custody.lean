import Innernet.Retention

/-! The key a kernel was last given is kept in the endpoint's own state, where no step takes the
one copy away. -/
namespace Innernet

open Fallible Runs

/-- The relationship keeps the key, with its pending exchange or its confirmed one. -/
def EndpointState.Holds (s : EndpointState) (other : Number) (psk : Binary 32) : Prop :=
  ∃ r, s.relationship other = some r ∧ ((∃ p, r.pending = some p ∧ p.candidate.psk = psk) ∨
    ∃ f, r.confirmed = some f ∧ f.psk = psk)

/-- `remote_slot`: the peer's bundle in the transcript. -/
def Pending.remoteSlot (p : Pending) (self other : Number) : Bundle :=
  if self < other then p.transcript.responder else p.transcript.initiator

/-- The kernel was last given the key of this exchange. -/
def Pending.Keyed (p : Pending) (key : Option Candidate) : Prop :=
  ∃ c ∈ key, c.psk = p.candidate.psk

instance (p : Pending) (key : Option Candidate) : Decidable (p.Keyed key) :=
  inferInstanceAs (Decidable (∃ c ∈ key, _))

/-- The pending exchange keeps the key last installed, and the confirmed exchange does not. -/
def Relationship.Sole (r : Relationship) (p : Pending) (key : Option Candidate) : Prop :=
  r.pending = some p ∧ p.Keyed key ∧ ∀ f ∈ r.confirmed, f.psk ≠ p.candidate.psk

instance (r : Relationship) (p : Pending) (key : Option Candidate) : Decidable (r.Sole p key) :=
  inferInstanceAs (Decidable (_ ∧ _ ∧ ∀ f ∈ r.confirmed, _))

namespace Endpoint

variable [Native]

/-- The record ends no exchange too early: neither does it abort the one that holds the only copy
of the key last installed, nor complete one whose key was not. -/
def Sparing (e : Endpoint) (c : Call) : Prop :=
  ∀ r ∈ e.state.relationship c.other, e.state.Open r → ∀ p ∈ r.pending, ∀ x ∈ c.remote,
    p.recordedIn x → p.decision.terminal = false →
      (x.decision.phase = .aborted → ¬ r.Sole p (e.keyed c.other)) ∧
        (x.decision.phase = .complete → p.Keyed (e.keyed c.other))

/-- The observation neither retires the peer nor drops an exchange pinned to its old bundle, where
that exchange holds the only copy. -/
def Retaining (e : Endpoint) (peer : Number) (bundle : Bundle) (lifecycle : Lifecycle) : Prop :=
  ∀ r ∈ e.state.relationship peer, ∀ p ∈ r.pending, r.Sole p (e.keyed peer) → r.Follows bundle →
    peer ≠ e.state.peerId ∧ peer ≠ e.state.serverId →
    lifecycle = .enabled ∧ (bundle.bundleId = r.remote.bundleId ∨
      (p.remoteSlot e.state.peerId peer).bundleId ≠ r.remote.bundleId)

/-- The state is not disabled, or no exchange in it holds the only copy. -/
def Shared (e : Endpoint) : Prop :=
  e.state.enrollment = .retiring ∨ e.state.registration.lifecycle = .retired ∨
    ∀ row ∈ e.state.relationships.entries, ∀ p ∈ row.2.pending, ¬ row.2.Sole p (e.keyed row.1)

/-- The step leaves the one copy of the key last installed. -/
def Careful (m : Move Endpoint Deed) : Prop :=
  match m.label with
  | .reconcile c => m.before.Sparing c
  | .upkeep (.observeRemote peer bundle lifecycle) => m.before.Retaining peer bundle lifecycle
  | .upkeep .disable => m.before.Shared
  | .upkeep .emergencyRetire => False
  | .upkeep _ => True

instance (r : Relationship) (bundle : Bundle) : Decidable (r.Follows bundle) :=
  inferInstanceAs (Decidable (_ ∧ _))

instance (s : EndpointState) (r : Relationship) : Decidable (s.Open r) :=
  inferInstanceAs (Decidable (_ ∧ _ ∧ _))

instance (e : Endpoint) (c : Call) : Decidable (e.Sparing c) :=
  inferInstanceAs (Decidable (∀ r ∈ e.state.relationship c.other, _))

instance (e : Endpoint) (peer : Number) (bundle : Bundle) (lifecycle : Lifecycle) :
    Decidable (e.Retaining peer bundle lifecycle) :=
  inferInstanceAs (Decidable (∀ r ∈ e.state.relationship peer, _))

instance (e : Endpoint) : Decidable e.Shared :=
  inferInstanceAs (Decidable (_ ∨ _ ∨ ∀ row ∈ e.state.relationships.entries, _))

instance : DecidablePred Careful := fun ⟨e, d, _⟩ =>
  match d with
  | .reconcile c => inferInstanceAs (Decidable (e.Sparing c))
  | .upkeep (.observeRemote peer bundle lifecycle) =>
    inferInstanceAs (Decidable (e.Retaining peer bundle lifecycle))
  | .upkeep .disable => inferInstanceAs (Decidable e.Shared)
  | .upkeep .emergencyRetire => inferInstanceAs (Decidable False)
  | .upkeep (.observeActivity ..) => inferInstanceAs (Decidable True)
  | .upkeep (.noteSendFailure ..) => inferInstanceAs (Decidable True)
  | .upkeep (.setPolicy _) => inferInstanceAs (Decidable True)
  | .upkeep (.replace _) => inferInstanceAs (Decidable True)
  | .upkeep (.submitPendingRegistration _) => inferInstanceAs (Decidable True)
  | .upkeep (.acceptRegistration _) => inferInstanceAs (Decidable True)

end Endpoint

/-- The side has confirmed, or the exchange is complete without it. -/
def Decision.Past (d : Decision) (side : Bool) : Prop :=
  d.phase = .complete ∨ d.phase ≠ .aborted ∧ d.confirmed.get side = true

/-- No message of the other side takes a side past its own confirmation. -/
theorem Decision.past_advance {d d' : Decision} {kind : Kind} {initiator side : Bool}
    (advanced : d.advance kind initiator = .ok d') (apart : initiator ≠ side)
    (past : d'.Past side) : d.Past side := by
  rcases advance_cases advanced with ⟨-, -, phase, rfl⟩ | ⟨-, -, phase, rfl⟩ | ⟨-, -, -, rfl⟩ |
    ⟨-, phase, -, rfl⟩ | ⟨-, phase, -, rfl⟩
  · rcases past with finished | ⟨-, flag⟩
    · cases finished
    · exact .inr ⟨by simp [phase], flag⟩
  · rcases past with finished | ⟨-, flag⟩
    · cases finished
    · exact .inr ⟨by simp [phase], flag⟩
  · rcases past with finished | ⟨running, -⟩
    · cases finished
    · exact absurd rfl running
  · exact past
  · have flags : (d.confirmed.set initiator).get side = d.confirmed.get side := by
      rw [Flags.get_set, beq_eq_false_iff_ne.mpr apart, Bool.or_false]
    refine .inr ⟨by simp [phase], ?_⟩
    rw [← flags]
    rcases past with finished | ⟨-, flag⟩
    · dsimp only at finished
      split at finished
      · rename_i both
        rw [both]
        cases side <;> rfl
      · cases finished
    · exact flag

theorem Decision.underway_advance {d d' : Decision} {kind : Kind} {initiator : Bool}
    (advanced : d.advance kind initiator = .ok d')
    (underway : d.phase = .committed ∨ d.phase = .complete) :
    d'.phase = .committed ∨ d'.phase = .complete := by
  rcases advance_cases advanced with ⟨-, -, phase, -⟩ | ⟨-, -, phase, -⟩ | ⟨-, -, phase, -⟩ |
    ⟨-, phase, -, rfl⟩ | ⟨-, phase, -, rfl⟩
  · simp [phase] at underway
  · simp [phase] at underway
  · rcases phase with phase | phase
    · simp [phase] at underway
    · simp [phase] at underway
  · exact underway
  · dsimp only
    split
    · exact .inr rfl
    · exact .inl rfl

/-- What holds between a relationship and the key last installed for it. -/
structure Kept (own other : Number) (r : Relationship) (key : Option Candidate) : Prop where
  roles : ∀ p, r.pending = some p → p.transcript.initiatorId = min own other
  held : ∀ c, key = some c → (∃ f, r.confirmed = some f ∧ f.psk = c.psk) ∨
    ∃ p, r.pending = some p ∧ p.candidate.psk = c.psk ∧
      (p.decision.phase = .committed ∨ p.decision.phase = .complete)
  used : ∀ p, r.pending = some p →
    p.installed = true ∨ p.decision.Past (own = p.transcript.initiatorId) → p.Keyed key
  proven : ∀ f, r.confirmed = some f → ∃ c, key = some c

namespace Kept

variable {own other : Number} {r r' : Relationship} {key : Option Candidate}

theorem fresh (bundle : Bundle) : Kept own other (.fresh bundle) none where
  roles _ pending := nomatch pending
  held _ key := nomatch key
  used _ pending := nomatch pending
  proven _ confirmed := nomatch confirmed

/-- The invariant reads the exchanges only, and of the pending one not its schedule. -/
theorem carry (kept : Kept own other r key) (confirmed : r'.confirmed = r.confirmed)
    (forward : ∀ p, r.pending = some p → ∃ p', r'.pending = some p' ∧
      p'.candidate = p.candidate ∧ p'.decision = p.decision)
    (back : ∀ p', r'.pending = some p' → ∃ p, r.pending = some p ∧
      p'.transcript = p.transcript ∧ p'.candidate = p.candidate ∧ p'.decision = p.decision ∧
      p'.installed = p.installed) : Kept own other r' key where
  roles p' pending := by
    obtain ⟨p, before, transcript, -⟩ := back p' pending
    rw [transcript]
    exact kept.roles p before
  held c present := by
    rcases kept.held c present with ⟨f, known, same⟩ | ⟨p, before, same, phase⟩
    · exact .inl ⟨f, confirmed.trans known, same⟩
    · obtain ⟨p', pending, candidate, decision⟩ := forward p before
      rw [← candidate] at same
      rw [← decision] at phase
      exact .inr ⟨p', pending, same, phase⟩
  used p' pending busy := by
    obtain ⟨p, before, transcript, candidate, decision, installed⟩ := back p' pending
    rw [transcript, decision, installed] at busy
    rw [Pending.Keyed, candidate]
    exact kept.used p before busy
  proven f known := kept.proven f (confirmed ▸ known)

theorem unchanged (kept : Kept own other r key) (confirmed : r'.confirmed = r.confirmed)
    (pending : r'.pending = r.pending) : Kept own other r' key :=
  kept.carry confirmed (fun p before => ⟨p, pending.trans before, rfl, rfl⟩)
    fun p after => ⟨p, pending ▸ after, rfl, rfl, rfl, rfl⟩

/-- The pending exchange may go when it is not the only one to hold the key. -/
theorem dropped (kept : Kept own other r key) (confirmed : r'.confirmed = r.confirmed)
    (none : r'.pending = none) (shared : ∀ p, ¬ r.Sole p key) : Kept own other r' key where
  roles p pending := by
    rw [none] at pending
    cases pending
  held c present := by
    rcases kept.held c present with ⟨f, known, same⟩ | ⟨p, before, same, -⟩
    · exact .inl ⟨f, confirmed.trans known, same⟩
    · by_contra lost
      refine shared p ⟨before, ⟨c, present, same.symm⟩, fun f known equal => ?_⟩
      exact lost (.inl ⟨f, confirmed.trans known, equal.trans same⟩)
  used p pending := by
    rw [none] at pending
    cases pending
  proven f known := kept.proven f (confirmed ▸ known)

/-- A new exchange opens where none is pending, before any key of it is used. -/
theorem opened (kept : Kept own other r key) (idle : r.pending = none) {p : Pending}
    (pending : r'.pending = some p) (confirmed : r'.confirmed = r.confirmed)
    (roles : p.transcript.initiatorId = min own other) (unused : p.installed = false)
    (early : ∀ side, ¬ p.decision.Past side) :
    Kept own other r' key where
  roles p' pending' := by
    rw [pending] at pending'
    cases pending'
    exact roles
  held c present := by
    rcases kept.held c present with ⟨f, known, same⟩ | ⟨p, before, -⟩
    · exact .inl ⟨f, confirmed.trans known, same⟩
    · rw [idle] at before
      cases before
  used p' pending' busy := by
    rw [pending] at pending'
    cases pending'
    rw [unused] at busy
    rcases busy with none | past
    · cases none
    · exact absurd past (early _)
  proven f known := kept.proven f (confirmed ▸ known)

section Turns

variable [Native] {s : EndpointState}

/-- Merging a record keeps the invariant of an exchange the record does not end too early. -/
theorem merged {p : Pending} {c : Call} (kept : Kept own c.other r key)
    (pending : r.pending = some p) (apart : c.other ≠ own)
    (careful : ∀ e, c.remote = some e → p.recordedIn e → p.decision.terminal = false →
      (e.decision.phase = .aborted → ¬ r.Sole p key) ∧
        (e.decision.phase = .complete → p.Keyed key)) :
    Kept own c.other
      { r with pending := some { p with decision := (p.mergeRemote c.other c.remote).2 } } key := by
  have sides : decide (c.other = p.transcript.initiatorId) ≠
      decide (own = p.transcript.initiatorId) := by
    rw [kept.roles p pending]
    rcases lt_or_ge own c.other with below | above
    · simp [min_eq_left below.le, apart]
    · simp [min_eq_right above, Ne.symm apart]
  have merging : (r.Sole p key → (p.mergeRemote c.other c.remote).2.phase = .committed ∨
      (p.mergeRemote c.other c.remote).2.phase = .complete) ∧
      ((p.mergeRemote c.other c.remote).2.Past (own = p.transcript.initiatorId) →
        p.Keyed key) := by
    refine Pending.merged (P := fun d => (r.Sole p key → d.phase = .committed ∨ d.phase = .complete) ∧
      (d.Past (own = p.transcript.initiatorId) → p.Keyed key)) ⟨?_, ?_⟩ ?_ ?_
    · rintro ⟨-, ⟨k, present, same⟩, alone⟩
      rcases kept.held k present with ⟨f, known, equal⟩ | ⟨p', before, -, phase⟩
      · exact absurd (equal.trans same) (alone f known)
      · rw [pending] at before
        cases before
        exact phase
    · exact fun past => kept.used p pending (.inr past)
    · intro e shown recorded terminal running
      have spared := careful e shown recorded running
      simp only [Decision.terminal, decide_eq_true_eq] at terminal
      rcases terminal with finished | aborted
      · exact ⟨fun _ => .inr finished, fun _ => spared.2 finished⟩
      · refine ⟨fun sole => absurd sole (spared.1 aborted), ?_⟩
        rintro (finished | ⟨unaborted, -⟩)
        · rw [aborted] at finished
          cases finished
        · exact absurd aborted unaborted
    · intro e shown recorded m member sender kind d d' typed _ _ holds advanced
      exact ⟨fun sole => Decision.underway_advance advanced (holds.1 sole),
        fun past => holds.2 (Decision.past_advance advanced sides past)⟩
  constructor
  · intro p' pending'
    cases pending'
    exact kept.roles p pending
  · intro k present
    rcases kept.held k present with ⟨f, known, same⟩ | ⟨p', before, same, phase⟩
    · exact .inl ⟨f, known, same⟩
    · rw [pending] at before
      cases before
      by_cases sole : r.Sole p key
      · exact .inr ⟨_, rfl, same, merging.1 sole⟩
      · left
        by_contra lost
        refine sole ⟨pending, ⟨k, present, same.symm⟩, fun f known equal => ?_⟩
        exact lost ⟨f, known, equal.trans same⟩
  · intro p' pending' busy
    cases pending'
    rcases busy with installed | past
    · exact kept.used p pending (.inl installed)
    · exact merging.2 past
  · exact kept.proven

/-- Queueing a message leaves whose key is held; it may mark the exchange as confirmed. -/
theorem emitted {p q : Pending} {kind : Kind} {draws : Draws} {m : Message}
    (kept : Kept s.peerId other { r with pending := some p } key)
    (emitted : s.emit p kind (s.initiates p) draws = .ok (q, m))
    (regular : kind ≠ .abort) (keyed : kind = .confirmed → p.Keyed key) :
    Kept s.peerId other { r with pending := some q } key := by
  obtain ⟨-, d, advanced, rfl⟩ := EndpointState.emit_ok emitted
  constructor
  · intro p' pending
    cases pending
    exact kept.roles p rfl
  · intro k present
    rcases kept.held k present with held | ⟨p', before, same, phase⟩
    · exact .inl held
    · cases before
      exact .inr ⟨_, rfl, same, Decision.underway_advance advanced phase⟩
  · intro p' pending busy
    cases pending
    rcases busy with installed | past
    · exact kept.used p rfl (.inl installed)
    · by_cases confirming : kind = .confirmed
      · exact keyed confirming
      · refine kept.used p rfl (.inr ?_)
        rcases Decision.advance_cases advanced with ⟨rfl, -, phase, rfl⟩ | ⟨rfl, -, phase, rfl⟩ |
          ⟨rfl, -⟩ | ⟨rfl, phase, -, rfl⟩ | ⟨rfl, -⟩
        · rcases past with finished | ⟨-, flag⟩
          · cases finished
          · exact .inr ⟨by simp [phase], flag⟩
        · rcases past with finished | ⟨-, flag⟩
          · cases finished
          · exact .inr ⟨by simp [phase], flag⟩
        · exact absurd rfl regular
        · exact past
        · exact absurd rfl confirming
  · exact kept.proven

omit [Native] in
/-- Giving the kernel the key of the pending exchange, once it is committed. -/
theorem given {p q : Pending} (kept : Kept own other { r with pending := some p } key)
    (committed : q.decision.phase = .committed) (transcript : q.transcript = p.transcript)
    (candidate : q.candidate = p.candidate) :
    Kept own other { r with pending := some q } (some p.candidate) where
  roles p' pending := by
    cases pending
    rw [transcript]
    exact kept.roles p rfl
  held k present := by
    cases present
    exact .inr ⟨q, rfl, congrArg Candidate.psk candidate, .inl committed⟩
  used p' pending _ := by
    cases pending
    exact ⟨p.candidate, rfl, (congrArg Candidate.psk candidate).symm⟩
  proven _ _ := ⟨p.candidate, rfl⟩

theorem acted {p : Pending} {now : Nat} {install : Except Error Unit} {fresh : Except Error Bool}
    {draws : Draws} {result : Except Error Action} {calls : List (Bundle × Candidate)}
    (kept : Kept s.peerId other { r with pending := some p } key)
    (act : EndpointState.Act s other r p now (.answering install fresh) draws [] result r' calls) :
    Kept s.peerId other r' ((calls.getLast?.map Prod.snd).or key) := by
  cases act with
  | abandoned aborted =>
    refine kept.dropped rfl rfl ?_
    rintro p' ⟨pending, ⟨k, present, same⟩, alone⟩
    cases pending
    rcases kept.held k present with ⟨f, known, equal⟩ | ⟨p', before, -, phase⟩
    · exact alone f known (equal.trans same)
    · cases before
      simp [aborted] at phase
  | held _ _ asked =>
    rw [asked.calls]
    exact kept
  | refused committed _ called =>
    cases called
    exact kept.given committed rfl rfl
  | committed phase initiator emitted =>
    have side : s.initiates p = true := by
      have roles : p.transcript.initiatorId = min s.peerId other := kept.roles p rfl
      simp [EndpointState.initiates, roles, initiator.le]
    rw [← side] at emitted
    exact kept.emitted emitted (by decide) (by simp)
  | installed phase _ _ called emitted =>
    cases called
    have given := kept.given (q := { p with installed := true }) phase rfl rfl
    exact given.emitted emitted (by decide) (by simp)
  | noted phase _ called =>
    cases called
    exact kept.given phase rfl rfl
  | confirmed _ installed _ called emitted =>
    cases called
    have keyed := kept.used p rfl (.inl installed)
    have same : Kept s.peerId other { r with pending := some { p with confirmed := true } } key :=
      kept.carry rfl (fun p' before => by
        cases before
        exact ⟨_, rfl, rfl, rfl⟩) fun p' pending => by
        cases pending
        exact ⟨_, rfl, rfl, rfl, rfl, rfl⟩
    exact same.emitted emitted (by decide) fun _ => keyed
  | unsigned _ _ called =>
    cases called
    exact kept.carry rfl (fun p' before => by
      cases before
      exact ⟨_, rfl, rfl, rfl⟩) fun p' pending => by
      cases pending
      exact ⟨_, rfl, rfl, rfl, rfl, rfl⟩
  | completed finished =>
    obtain ⟨k, present, same⟩ := kept.used p rfl (.inr (.inl finished))
    refine ⟨fun _ pending => (nomatch pending), ?_, fun _ pending => (nomatch pending), ?_⟩
    · intro k' present'
      have equal : k = k' := Option.some.inj (present.symm.trans present')
      subst equal
      exact .inl ⟨_, rfl, same.symm⟩
    · exact fun _ _ => ⟨k, present⟩

theorem turned {c : Call} {result : Except Error Action} {calls : List (Bundle × Candidate)}
    (kept : Kept s.peerId c.other r key) (apart : c.other ≠ s.peerId)
    (careful : ∀ p e, r.pending = some p → c.remote = some e → p.recordedIn e →
      p.decision.terminal = false →
      (e.decision.phase = .aborted → ¬ r.Sole p key) ∧
        (e.decision.phase = .complete → p.Keyed key))
    (turn : EndpointState.Turn s c.other r c.remote c.now (.answering c.install c.fresh) c.draws []
      result r' calls) :
    Kept s.peerId c.other r' ((calls.getLast?.map Prod.snd).or key) := by
  have merge : ∀ p d, r.pending = some p → (p.mergeRemote c.other c.remote).2 = d →
      Kept s.peerId c.other { r with pending := some { p with decision := d } } key := by
    rintro p d pending rfl
    exact kept.merged pending apart fun e shown => careful p e pending shown
  cases turn with
  | rested => exact kept
  | failed => exact kept
  | spent => exact kept.unchanged rfl rfl
  | proposed idle initiator next opened =>
    obtain ⟨t, candidate, rfl, -, -, -, initiatorId, -⟩ := EndpointState.openProposal_ok opened
    refine kept.opened idle rfl rfl ?_ rfl ?_
    · exact initiatorId.trans (min_eq_left initiator.le).symm
    · intro side past
      rcases past with finished | ⟨-, flag⟩
      · cases finished
      · cases side <;> cases flag
  | answered idle responder shown phase transcript addressed opened =>
    obtain ⟨candidate, propose, d, rfl, -, -, -, -, -, advanced, -⟩ :=
      EndpointState.openAnswer_ok opened
    refine kept.opened idle rfl rfl ?_ rfl ?_
    · exact addressed.2.1.trans (min_eq_right (not_lt.mp responder)).symm
    · cases advanced
      intro side past
      rcases past with finished | ⟨-, flag⟩
      · cases finished
      · cases side <;> cases flag
  | @interrupted p e d pending merged =>
    exact merge p d pending (congrArg Prod.snd merged)
  | @resent p d m pending merged =>
    exact merge p d pending (congrArg Prod.snd merged)
  | @acted p d result r' calls pending merged _ act =>
    exact (merge p d pending (congrArg Prod.snd merged)).acted act

end Turns

theorem revised [Native] {s : EndpointState} {u : Upkeep} (kept : Kept own other r key)
    (revised : Revised s other r u r') (remains : r'.pending = none → ∀ p, ¬ r.Sole p key)
    (retiring : u ≠ .emergencyRetire) : Kept own other r' key := by
  cases revised with
  | untouched => exact kept
  | sampled => exact kept.unchanged rfl rfl
  | @backedOff p _ attempts nextRetryAt _ pending =>
    refine kept.carry rfl (fun p' before => ?_) fun p' after => ?_
    · rw [pending] at before
      cases before
      exact ⟨_, rfl, rfl, rfl⟩
    · cases after
      exact ⟨p, pending, rfl, rfl, rfl, rfl⟩
  | replaced => exact kept.unchanged rfl rfl
  | disabled => exact kept.dropped rfl rfl (remains rfl)
  | retired => exact absurd rfl retiring
  | @observed bundle lifecycle =>
    have confirmed := EndpointState.settle_confirmed (.refresh s.peerId other r bundle) lifecycle
    rcases EndpointState.settle_pending (.refresh s.peerId other r bundle) lifecycle with
      same | none
    · rcases EndpointState.refresh_pending s.peerId other r bundle with same' | none
      · exact kept.unchanged confirmed (same.trans same')
      · exact kept.dropped confirmed (same.trans none) (remains (same.trans none))
    · exact kept.dropped confirmed none (remains none)

end Kept

/-- Every key a kernel was given is kept. -/
structure Endpoint.Keeps (e : Endpoint) : Prop where
  met : ∀ other r, e.state.relationship other = some r →
    Kept e.state.peerId other r (e.keyed other)
  unmet : ∀ other, e.state.relationship other = none → e.keyed other = none

namespace Endpoint

variable [Native]

/-- A careful upkeep that leaves no exchange pending took none that held the only copy. -/
theorem Careful.remains {e : Endpoint} {u : Upkeep} {other : Number} {r r' : Relationship}
    (careful : Careful ⟨e, .upkeep u, e.next (.upkeep u)⟩)
    (known : e.state.relationship other = some r) (revised : Revised e.state other r u r')
    (none : r'.pending = none) (p : Pending) : ¬ r.Sole p (e.keyed other) := by
  intro sole
  have pending := sole.1
  cases revised with
  | untouched =>
    rw [pending] at none
    cases none
  | sampled =>
    have none : r.pending = .none := none
    rw [pending] at none
    cases none
  | backedOff => cases none
  | replaced idle =>
    rw [pending] at idle
    cases idle
  | retired => exact careful
  | disabled unretiring enabled =>
    rcases careful with retiring | retired | shared
    · exact unretiring retiring
    · exact enabled retired
    · exact shared ⟨other, r⟩ ((Tables.mem_entries_iff _ _).mpr known) p pending sole
  | @observed bundle lifecycle apart follows =>
    obtain ⟨rfl, same⟩ := careful r known p pending sole follows apart
    have stays : (Relationship.refresh e.state.peerId other r bundle).pending = some p := by
      unfold Relationship.refresh
      dsimp only
      rw [if_neg, pending]
      rintro ⟨changed, pinned⟩
      rw [pending, Option.any_some, decide_eq_true_eq] at pinned
      rcases same with same | unpinned
      · exact changed same
      · exact unpinned pinned
    have settled : (Relationship.settle (.refresh e.state.peerId other r bundle) .enabled).pending =
        some p := by
      unfold Relationship.settle
      rw [if_neg (by decide)]
      split
      · exact stays
      · exact stays
    rw [settled] at none
    cases none

theorem Keeps.step {e : Endpoint} (keeps : e.Keeps) (d : Deed)
    (careful : Careful ⟨e, d, e.next d⟩) : (e.next d).Keeps := by
  have one : ∀ other, (∀ r, (e.next d).state.relationship other = some r →
      Kept e.state.peerId other r ((e.next d).keyed other)) ∧
      ((e.next d).state.relationship other = none → (e.next d).keyed other = none) := by
    intro other
    have seen := e.seen d other
    have met := keeps.met other
    have unmet := keeps.unmet other
    generalize before : e.state.relationship other = past at seen met unmet
    generalize (e.next d).state.relationship other = now at seen ⊢
    generalize (e.next d).keyed other = keyed at seen ⊢
    generalize (e.next d).vouched other = vouched at seen
    cases seen with
    | untouched => exact ⟨met, unmet⟩
    | upkept upkept =>
      cases upkept with
      | unmet => exact ⟨fun _ known => (nomatch known), unmet⟩
      | met =>
        rw [unmet rfl]
        refine ⟨fun r known => ?_, fun _ => rfl⟩
        cases known
        exact .fresh _
      | @revised r r' revised =>
        refine ⟨fun _ known => ?_, fun known => (nomatch known)⟩
        cases known
        refine (met r rfl).revised revised (Careful.remains careful before revised) ?_
        rintro rfl
        exact careful
    | @turned c r r' result calls here apart shut turn =>
      subst here
      refine ⟨fun _ known => ?_, fun known => (nomatch known)⟩
      cases known
      exact (met r rfl).turned apart (fun p x pending shown recorded running =>
        careful r before shut p pending x shown recorded running) turn
  constructor
  · intro other r known
    rw [e.next_peerId d]
    exact (one other).1 r known
  · exact fun other unknown => (one other).2 unknown

theorem keeps_run {s : EndpointState} {ms : List (Move Endpoint Deed)} {e : Endpoint}
    (unmet : s.relationships = ∅) (run : Run Step (start s) ms e) (careful : ∀ m ∈ ms, Careful m) :
    e.Keeps := by
  have begins : (start s).Keeps := by
    refine ⟨fun other r known => ?_, fun _ _ => rfl⟩
    rw [EndpointState.relationship, start, unmet] at known
    cases known
  refine run.guarded begins (fun a d b holds taken allowed => ?_) careful
  cases taken
  exact holds.step d allowed

omit [Native] in
theorem Keeps.holds {e : Endpoint} (keeps : e.Keeps) {other : Number} {c : Candidate}
    (keyed : e.keyed other = some c) : e.state.Holds other c.psk := by
  cases known : e.state.relationship other with
  | none =>
    rw [keeps.unmet other known] at keyed
    cases keyed
  | some r =>
    refine ⟨r, known, ?_⟩
    rcases (keeps.met other r known).held c keyed with held | ⟨p, pending, same, -⟩
    · exact .inr held
    · exact .inl ⟨p, pending, same⟩

omit [Native] in
/-- With nothing pending, the key in the kernel is the confirmed one. -/
theorem Keeps.settled {e : Endpoint} (keeps : e.Keeps) {other : Number} {r : Relationship}
    {f : Confirmed} (known : e.state.relationship other = some r) (idle : r.pending = none)
    (confirmed : r.confirmed = some f) : ∃ c, e.keyed other = some c ∧ c.psk = f.psk := by
  have kept := keeps.met other r known
  obtain ⟨c, keyed⟩ := kept.proven f confirmed
  rcases kept.held c keyed with ⟨f', confirmed', same⟩ | ⟨p, pending, -⟩
  · rw [confirmed] at confirmed'
    cases confirmed'
    exact ⟨c, keyed, same.symm⟩
  · rw [idle] at pending
    cases pending

end Endpoint

end Innernet
