import Innernet.Preservation
import Innernet.Progress

/-! What a call of `reconcile` that fails leaves behind: the flags of the pending exchange, its
decision and its queue tell one story, unless the step was noted before its message could be
signed. -/
namespace Innernet

open Fallible Tables

namespace Decision

/-- `advance` over a run of receipts, each with the side it is from. -/
def fold : Decision → List (Kind × Bool) → Except Error Decision
  | d, [] => .ok d
  | d, (kind, side) :: rest => d.advance kind side >>= fun d => d.fold rest

/-- The receipts of one side. -/
def receipts (steps : List (Kind × Bool)) (side : Bool) : List Kind :=
  (steps.filter fun step => step.2 = side).map Prod.fst

theorem fold_append {d d' d'' : Decision} {steps more : List (Kind × Bool)}
    (first : d.fold steps = .ok d') (later : d'.fold more = .ok d'') :
    d.fold (steps ++ more) = .ok d'' := by
  induction steps generalizing d with
  | nil =>
    cases first
    exact later
  | cons step steps ih =>
    simp only [fold, bind_ok] at first
    obtain ⟨m, advanced, rest⟩ := first
    simp only [List.cons_append, fold, bind_ok]
    exact ⟨m, advanced, ih rest⟩

theorem fold_valid {d d' : Decision} {steps : List (Kind × Bool)} (valid : d.Valid)
    (folded : d.fold steps = .ok d') : d'.Valid := by
  induction steps generalizing d with
  | nil =>
    cases folded
    exact valid
  | cons step steps ih =>
    simp only [fold, bind_ok] at folded
    obtain ⟨m, advanced, rest⟩ := folded
    exact ih (valid.advance advanced) rest

/-- A flag is set by its own receipt and by nothing else. -/
theorem advance_flags {d d' : Decision} {kind : Kind} {initiator : Bool}
    (advanced : d.advance kind initiator = .ok d') (side : Bool) :
    d'.installed.get side = (d.installed.get side || decide (kind = .installed ∧ initiator = side)) ∧
    d'.confirmed.get side = (d.confirmed.get side || decide (kind = .confirmed ∧ initiator = side)) := by
  rcases advance_cases advanced with ⟨rfl, -, -, rfl⟩ | ⟨rfl, -, -, rfl⟩ | ⟨rfl, -, -, rfl⟩ |
    ⟨rfl, -, -, rfl⟩ | ⟨rfl, -, -, rfl⟩
  · simp
  · simp
  · simp
  · cases initiator <;> cases side <;> simp
  · cases initiator <;> cases side <;> simp

theorem receipts_append (steps more : List (Kind × Bool)) (side : Bool) :
    receipts (steps ++ more) side = receipts steps side ++ receipts more side := by
  simp [receipts]

theorem receipts_map (kinds : List Kind) (other side : Bool) :
    receipts (kinds.map fun kind => (kind, other)) side = if other = side then kinds else [] := by
  induction kinds with
  | nil => simp [receipts]
  | cons kind kinds ih =>
    have split : receipts ((kind :: kinds).map fun kind => (kind, other)) side =
        (if other = side then [kind] else []) ++
          receipts (kinds.map fun kind => (kind, other)) side := by
      by_cases same : other = side
      · simp [receipts, same]
      · simp [receipts, same]
    rw [split, ih]
    split
    · rfl
    · rfl

theorem mem_receipts {steps : List (Kind × Bool)} {kind : Kind} {side : Bool} :
    kind ∈ receipts steps side ↔ (kind, side) ∈ steps := by
  simp [receipts]

theorem fold_flags {d d' : Decision} {steps : List (Kind × Bool)} (folded : d.fold steps = .ok d')
    (side : Bool) :
    (d'.installed.get side = true ↔
      d.installed.get side = true ∨ Kind.installed ∈ receipts steps side) ∧
    (d'.confirmed.get side = true ↔
      d.confirmed.get side = true ∨ Kind.confirmed ∈ receipts steps side) := by
  simp only [mem_receipts]
  induction steps generalizing d with
  | nil =>
    cases folded
    simp
  | cons step steps ih =>
    obtain ⟨kind, initiator⟩ := step
    simp only [fold, bind_ok] at folded
    obtain ⟨m, advanced, rest⟩ := folded
    have flags := advance_flags advanced side
    have later := ih rest
    rw [later.1, later.2, flags.1, flags.2]
    simp only [Bool.or_eq_true, decide_eq_true_eq, List.mem_cons, Prod.mk.injEq]
    constructor
    · rw [or_assoc, eq_comm (a := kind), eq_comm (a := initiator)]
    · rw [or_assoc, eq_comm (a := kind), eq_comm (a := initiator)]

/-- The receipts of the other side leave one's own flags alone. -/
theorem fold_others {d d' : Decision} {kinds : List Kind} {side : Bool}
    (folded : d.fold (kinds.map fun kind => (kind, !side)) = .ok d') :
    d'.installed.get side = d.installed.get side ∧ d'.confirmed.get side = d.confirmed.get side := by
  have none : ∀ kind, kind ∉ receipts (kinds.map fun kind => (kind, !side)) side := by
    intro kind
    simp [mem_receipts]
  have flags := fold_flags folded side
  simp only [none, or_false] at flags
  exact ⟨Bool.eq_iff_iff.mpr flags.1, Bool.eq_iff_iff.mpr flags.2⟩

/-- The decision asks this side for its next step. -/
def Awaits (d : Decision) (side : Bool) : Prop :=
  (d.phase = .ready ∧ side = true) ∨
  (d.phase = .committed ∧ d.installed.get side = false ∧
    (side = false ∨ d.installed.responder = true)) ∨
  (d.phase = .committed ∧ d.installed.get side = true ∧ d.confirmed.get side = false) ∨
  d.phase = .complete

end Decision

namespace Pending

/-- The flags of the exchange: what is noted has been sent and decided. -/
structure Flagged (side : Bool) (p : Pending) : Prop where
  installed : p.installed = true →
    (∃ m ∈ p.outbox, m.messageType = Kind.installed.code) ∧ p.decision.installed.get side = true
  confirmed : p.confirmed = true →
    (∃ m ∈ p.outbox, m.messageType = Kind.confirmed.code) ∧ p.decision.confirmed.get side = true

/-- The decision is the fold over the messages of the queue and those accepted from the peer, in
some order; a proposal advances nothing. -/
def Decided (side : Bool) (heard : List Kind) (p : Pending) : Prop :=
  ∃ steps, Decision.default.fold steps = .ok p.decision ∧
    (Decision.receipts steps side).map Kind.code =
      (p.outbox.map Message.messageType).filter (fun type => type ≠ Kind.propose.code) ∧
    Decision.receipts steps (!side) = heard

theorem Decided.flags {side : Bool} {heard : List Kind} {p : Pending} (decided : p.Decided side heard) :
    (p.decision.installed.get side = true ↔ ∃ m ∈ p.outbox, m.messageType = Kind.installed.code) ∧
    (p.decision.confirmed.get side = true ↔ ∃ m ∈ p.outbox, m.messageType = Kind.confirmed.code) := by
  obtain ⟨steps, folded, own, -⟩ := decided
  have queued : ∀ kind, kind ≠ Kind.propose → (kind ∈ Decision.receipts steps side ↔
      ∃ m ∈ p.outbox, m.messageType = kind.code) := by
    intro kind later
    rw [← List.mem_map_of_injective Kind.code_injective, own, List.mem_filter, List.mem_map]
    have other : decide (kind.code ≠ Kind.propose.code) = true :=
      decide_eq_true fun same => later (Kind.code_injective same)
    rw [other]
    simp
  have flags := Decision.fold_flags folded side
  have blank : Decision.default.installed.get side = false ∧
      Decision.default.confirmed.get side = false := by
    cases side <;> exact ⟨rfl, rfl⟩
  rw [flags.1, flags.2, blank.1, blank.2, queued .installed (by decide),
    queued .confirmed (by decide)]
  simp

/-- The flags look at the own part of the decision. -/
theorem Flagged.decided_iff {side : Bool} {p : Pending} {d : Decision}
    (own : d.installed.get side = p.decision.installed.get side ∧
      d.confirmed.get side = p.decision.confirmed.get side) :
    Flagged side { p with decision := d } ↔ p.Flagged side := by
  constructor
  · intro flagged
    have present := flagged.installed
    have done := flagged.confirmed
    dsimp only at present done
    rw [own.1] at present
    rw [own.2] at done
    exact ⟨present, done⟩
  · intro flagged
    refine ⟨?_, ?_⟩
    · dsimp only
      rw [own.1]
      exact flagged.installed
    · dsimp only
      rw [own.2]
      exact flagged.confirmed

/-- Folding in what was heard keeps the decision accounted for. -/
theorem Decided.hears {side : Bool} {heard more : List Kind} {p : Pending}
    (decided : p.Decided side heard) {d : Decision}
    (folded : p.decision.fold (more.map fun kind => (kind, !side)) = .ok d) :
    Decided side (heard ++ more) { p with decision := d } := by
  obtain ⟨steps, first, own, others⟩ := decided
  refine ⟨steps ++ more.map fun kind => (kind, !side), Decision.fold_append first folded, ?_, ?_⟩
  · rw [Decision.receipts_append, Decision.receipts_map, if_neg (by cases side <;> nofun),
      List.append_nil]
    exact own
  · rw [Decision.receipts_append, Decision.receipts_map, if_pos rfl, others]

/-- The messages there are do not account for a complete decision taken over from a record. -/
theorem Decided.not_adopted {side : Bool} {heard : List Kind} {p : Pending}
    (decided : p.Decided side heard) (running : p.decision.terminal = false) {d : Decision}
    (complete : d.phase = .complete) : ¬ Decided side heard { p with decision := d } := by
  rintro ⟨steps', folded', own', others'⟩
  obtain ⟨steps, folded, own, others⟩ := decided
  have valid := Decision.fold_valid Decision.default_valid folded
  have valid' := Decision.fold_valid Decision.default_valid folded'
  have same : Decision.receipts steps' side = Decision.receipts steps side :=
    List.map_injective_iff.mpr Kind.code_injective (own'.trans own.symm)
  have blank : ∀ side, Decision.default.confirmed.get side = false := by
    intro side
    cases side <;> rfl
  have both : ∀ other, p.decision.confirmed.get other = true := by
    intro other
    have done := valid'.complete complete other
    rw [(Decision.fold_flags folded' other).2, blank] at done
    rw [(Decision.fold_flags folded other).2, blank]
    have done := done.resolve_left nofun
    right
    rcases Bool.eq_or_eq_not other side with rfl | rfl
    · rwa [← same]
    · rwa [others, ← others']
  have pair : p.decision.confirmed = ⟨true, true⟩ := by
    have first := both true
    have second := both false
    cases confirmed : p.decision.confirmed
    rw [confirmed] at first second
    simp only [Flags.get] at first second
    rw [first, second]
  cases phase : p.decision.phase with
  | proposed =>
    have early := valid.early (.inl phase) true
    rw [valid.ordered true (both true)] at early
    cases early
  | ready =>
    have early := valid.early (.inr phase) true
    rw [valid.ordered true (both true)] at early
    cases early
  | committed => exact valid.unfinished phase pair
  | complete => simp [Decision.terminal, phase] at running
  | aborted => simp [Decision.terminal, phase] at running

variable [Native]

/-- The kind of a message that advances the decision. -/
def heeds (p : Pending) (d : Decision) (m : Message) : Option Kind :=
  match m.validateShape with
  | .error _ => none
  | .ok kind =>
    if (d.advance kind (m.senderId = p.transcript.initiatorId)).toOption.isSome then some kind
    else none

/-- The kinds `mergeMessages` accepts, up to the message it fails on. -/
def heeded (p : Pending) : List Message → Decision → List Kind
  | [], _ => []
  | m :: rest, d =>
    match p.mergeMessage d m with
    | .error _ => []
    | .ok d' => (p.heeds d m).toList ++ p.heeded rest d'

/-- The kinds of the peer's messages a call accepts; a terminal decision is taken over whole. -/
def hears (p : Pending) (other : Number) (remote : Option Exchange) : List Kind :=
  match remote with
  | .none => []
  | .some e =>
    if p.recordedIn e then
      if e.decision.terminal = true ∧ p.decision.terminal = false then []
      else p.heeded (e.messages.filter fun m => m.senderId = other) p.decision
    else []

/-- The record's terminal decision replaces the local one. -/
def Adopts (p : Pending) (remote : Option Exchange) (d : Decision) : Prop :=
  ∃ e, remote = some e ∧ p.recordedIn e ∧ e.decision.terminal = true ∧
    p.decision.terminal = false ∧ d = e.decision

theorem mergeMessage_fold {p : Pending} {d d' : Decision} {m : Message}
    (merged : p.mergeMessage d m = .ok d') :
    d.fold ((p.heeds d m).toList.map fun kind => (kind, decide (m.senderId = p.transcript.initiatorId)))
      = .ok d' := by
  simp only [mergeMessage, bind_ok] at merged
  obtain ⟨kind, shape, merged⟩ := merged
  unfold heeds
  rw [shape]
  dsimp only
  split at merged
  · rename_i refused
    rw [refused, ← pure_ok.mp merged]
    rfl
  · rename_i trial advanced
    simp only [bind_ok, pure_ok] at merged
    obtain ⟨_, -, _, -, rfl⟩ := merged
    rw [advanced]
    simp only [Except.toOption, Option.isSome_some, if_true, Option.toList_some, List.map_cons,
      List.map_nil, Decision.fold, bind_ok]
    exact ⟨_, advanced, rfl⟩

theorem mergeMessages_fold {p : Pending} {side : Bool} {messages : List Message}
    (role : ∀ m ∈ messages, decide (m.senderId = p.transcript.initiatorId) = !side) (d : Decision) :
    d.fold ((p.heeded messages d).map fun kind => (kind, !side)) =
      .ok (p.mergeMessages messages d).2 := by
  induction messages generalizing d with
  | nil => rfl
  | cons m rest ih =>
    unfold heeded mergeMessages
    cases merged : p.mergeMessage d m with
    | error e => rfl
    | ok d' =>
      have first := mergeMessage_fold merged
      rw [role m List.mem_cons_self] at first
      dsimp only
      rw [List.map_append]
      exact Decision.fold_append first (ih (fun m' later => role m' (List.mem_cons_of_mem _ later)) d')

/-- A merge takes over a terminal decision, or folds in the messages it accepts. -/
theorem mergeRemote_cases {p : Pending} {other : Number} {side : Bool}
    (role : decide (other = p.transcript.initiatorId) = !side) (remote : Option Exchange) :
    (p.Adopts remote (p.mergeRemote other remote).2 ∧ p.hears other remote = [] ∧
      (p.mergeRemote other remote).1 = .ok ()) ∨
    ((∀ d, ¬ p.Adopts remote d) ∧
      p.decision.fold ((p.hears other remote).map fun kind => (kind, !side)) =
        .ok (p.mergeRemote other remote).2) := by
  unfold mergeRemote hears Adopts
  cases remote with
  | none =>
    refine .inr ⟨?_, rfl⟩
    rintro _ ⟨_, none, -⟩
    cases none
  | some e =>
    dsimp only
    by_cases recorded : p.recordedIn e
    · rw [if_pos recorded, if_pos recorded]
      by_cases taken : e.decision.terminal = true ∧ p.decision.terminal = false
      · rw [if_pos taken, if_pos taken]
        exact .inl ⟨⟨e, rfl, recorded, taken.1, taken.2, rfl⟩, rfl, rfl⟩
      · rw [if_neg taken, if_neg taken]
        refine .inr ⟨?_, mergeMessages_fold ?_ _⟩
        · rintro d ⟨e', same, -, ended, running, -⟩
          cases same
          exact taken ⟨ended, running⟩
        · intro m member
          rw [of_decide_eq_true (List.mem_filter.mp member).2]
          exact role
    · rw [if_neg recorded, if_neg recorded]
      refine .inr ⟨?_, rfl⟩
      rintro d ⟨e', same, here, -⟩
      cases same
      exact recorded here

end Pending

namespace EndpointState

variable [Native] {s : EndpointState} {other : Number} {c : Call} {r : Relationship} {p : Pending}

/-- The exchange is one between this endpoint and the peer, and its decision accounts for the
messages of both. -/
structure InStep (s : EndpointState) (other : Number) (heard : List Kind) (p : Pending) : Prop where
  apart : other ≠ s.peerId ∧ other ≠ s.serverId
  initiatorId : p.transcript.initiatorId = min s.peerId other
  decided : p.Decided (s.initiates p) heard

/-- Nothing fails in the call. -/
structure Faultless (s : EndpointState) (p : Pending) (c : Call) : Prop where
  install : c.install = .ok ()
  fresh : c.fresh = .ok true
  signs : ∀ kind, (kind = .commit ∧ s.initiates p = true) ∨ kind = .installed ∨ kind = .confirmed →
    ∃ m, Message.signed c.draws.signature p.transcript kind s.peerId p.candidate s.identity.signing =
      .ok m
  hashes : ∃ digest, Crypto.hash p.transcript.encode = .ok digest

/-- Whenever the merged decision asks this side for its next step, a call in which nothing fails
sends a message or completes. -/
def Continues (s : EndpointState) (other : Number) (p : Pending) : Prop :=
  ∀ c d, c.other = other → s.Faultless p c → p.mergeRemote other c.remote = (.ok (), d) →
    d.Awaits (s.initiates p) → ∃ action, (c.perform s).1 = .ok action ∧ action ≠ .none

/-- What is pending after the call is consistent, and can go on. -/
def Leaves (s : EndpointState) (c : Call) (heard : List Kind) : Prop :=
  ∀ p', (c.perform s).2.1.pendingWith c.other = some p' → ∃ p, s.pendingWith c.other = some p ∧
    p'.Flagged (s.initiates p) ∧
    p'.Decided (s.initiates p) (heard ++ p.hears c.other c.remote) ∧
    (c.perform s).2.1.Continues c.other p'

def Unsigned (s : EndpointState) (c : Call) (p : Pending) (kind : Kind) : Prop :=
  ∃ e, Message.signed c.draws.signature p.transcript kind s.peerId p.candidate s.identity.signing =
    .error e

/-- The three ways a failure parts the exchange: the install or the handshake is noted and its
receipt cannot be signed, or the record's terminal decision is taken over and the transcript cannot
be hashed. -/
def Slips (s : EndpointState) (c : Call) (p : Pending) (d : Decision) : Prop :=
  (d.phase = .committed ∧ p.installed = false ∧
    (¬ s.peerId < c.other ∨ d.installed.responder = true) ∧ c.install = .ok () ∧
    p.decision.installed.get (s.initiates p) = false ∧ s.Unsigned c p .installed) ∨
  (d.phase = .committed ∧ p.installed = true ∧ p.confirmed = false ∧ c.fresh = .ok true ∧
    p.decision.confirmed.get (s.initiates p) = false ∧ s.Unsigned c p .confirmed) ∨
  (p.Adopts c.remote d ∧ d.phase = .complete ∧ ∃ e, Crypto.hash p.transcript.encode = .error e)

/-- The call reaches one of them. -/
def Falters (s : EndpointState) (c : Call) : Prop :=
  ∃ r p d, s.relationship c.other = some r ∧ s.Open r ∧ r.pending = some p ∧
    p.mergeRemote c.other c.remote = (.ok (), d) ∧
    (s.resends c.remote { p with decision := d } c.now = false ∨ p.outbox.getLast? = none) ∧
    s.Slips c p d

section Going

/-- A call on a pending exchange proceeds with it. -/
theorem perform_pending (apart : c.other ≠ s.peerId ∧ c.other ≠ s.serverId)
    (known : s.relationship c.other = some r) (opened : s.Open r) (found : r.pending = some p) :
    c.perform s =
      ((s.proceed c.other r p c.remote c.now (.answering c.install c.fresh) c.draws []).1,
        s.setRelationship c.other
          (s.proceed c.other r p c.remote c.now (.answering c.install c.fresh) c.draws []).2.1,
        (s.proceed c.other r p c.remote c.now (.answering c.install c.fresh) c.draws []).2.2) := by
  have shut : ¬ (r.gated = true ∨ r.status = .blocked ∨ s.enrollment = .retiring) := by
    rw [not_or, not_or, Bool.not_eq_true]
    exact opened
  unfold Call.perform reconcile reconcileRelationship
  rw [if_neg (not_or.mpr apart), known]
  dsimp only
  rw [if_neg shut, found]

/-- The step the merged decision asks for is taken when nothing fails. -/
theorem act_awaited (side : s.initiates p = decide (s.peerId < c.other))
    (faultless : s.Faultless p c) (awaits : p.decision.Awaits (s.initiates p))
    (installed : p.installed = true → p.decision.phase = .committed →
      p.decision.installed.get (s.initiates p) = true)
    (confirmed : p.confirmed = true → p.decision.phase = .committed →
      p.decision.confirmed.get (s.initiates p) = true)
    (first : p.decision.phase = .committed → p.decision.installed.get true = true →
      p.decision.installed.get false = true) (calls : List (Bundle × Candidate)) :
    ∃ action, (s.act c.other r p c.now (.answering c.install c.fresh) c.draws calls).1 = .ok action ∧
      action ≠ .none := by
  have initiator : s.initiates p = true → s.peerId < c.other := by
    intro initiates
    rw [side] at initiates
    exact of_decide_eq_true initiates
  have responder : s.initiates p = false → ¬ s.peerId < c.other := by
    intro answers
    rw [side] at answers
    exact of_decide_eq_false answers
  have queues : s.Queues c p → ∃ action,
      (s.act c.other r p c.now (.answering c.install c.fresh) c.draws calls).1 = .ok action ∧
        action ≠ .none := by
    intro queues
    obtain ⟨_, m, sent, -⟩ := act_queues (r := r) side queues calls
    exact ⟨_, sent, nofun⟩
  have reinstalls : p.installed = false → p.decision.phase = .committed →
      (s.initiates p = false ∨ p.decision.installed.responder = true) → s.Queues c p := by
    intro fresh phase turn
    refine ⟨.installed, .inr (.inl ⟨rfl, phase, fresh, turn.imp_left responder,
      faultless.install⟩), faultless.signs _ (.inr (.inl rfl)), ?_⟩
    simp only [Decision.advance, phase, if_pos turn]
    exact ⟨_, rfl⟩
  rcases awaits with ⟨phase, initiates⟩ | ⟨phase, fresh, turn⟩ | ⟨phase, present, open_⟩ | phase
  · refine queues ⟨.commit, .inl ⟨rfl, phase, initiator initiates⟩,
      faultless.signs _ (.inl ⟨rfl, initiates⟩), ?_⟩
    simp only [Decision.advance, phase, if_pos initiates]
    exact ⟨_, rfl⟩
  · refine queues (reinstalls ?_ phase turn)
    by_contra noted
    rw [installed (by simpa using noted) phase] at fresh
    cases fresh
  · cases noted : p.installed with
    | false =>
      refine queues (reinstalls noted phase ?_)
      cases initiates : s.initiates p with
      | false => exact .inl rfl
      | true =>
        rw [initiates] at present
        exact .inr (first phase present)
    | true =>
      have waiting : p.confirmed = false := by
        by_contra done
        rw [confirmed (by simpa using done) phase] at open_
        cases open_
      refine queues ⟨.confirmed, .inr (.inr ⟨rfl, phase, noted, waiting, faultless.fresh⟩),
        faultless.signs _ (.inr (.inr rfl)), ?_⟩
      simp only [Decision.advance, phase, if_pos present]
      exact ⟨_, rfl⟩
  · obtain ⟨digest, hashed⟩ := faultless.hashes
    unfold act
    rw [phase]
    dsimp only
    unfold complete
    rw [hashed]
    exact ⟨_, rfl, nofun⟩

omit [Native] in
theorem peer_role (initiatorId : p.transcript.initiatorId = min s.peerId other)
    (apart : other ≠ s.peerId) :
    decide (other = p.transcript.initiatorId) = !s.initiates p := by
  rw [initiates_iff initiatorId apart, initiatorId]
  by_cases initiator : s.peerId < other
  · rw [min_eq_left (le_of_lt initiator)]
    simp [apart, initiator]
  · rw [min_eq_right (not_lt.mp initiator)]
    simp [initiator]

/-- A consistent exchange goes on. -/
theorem continues (known : s.relationship other = some r) (opened : s.Open r)
    (found : r.pending = some p) {heard : List Kind} (inStep : s.InStep other heard p)
    (flagged : p.Flagged (s.initiates p)) : s.Continues other p := by
  rintro c d rfl faultless merged awaits
  have side := initiates_iff inStep.initiatorId inStep.apart.1
  have role := peer_role inStep.initiatorId inStep.apart.1
  have valid : p.decision.Valid := by
    obtain ⟨steps, folded, -⟩ := inStep.decided
    exact Decision.fold_valid Decision.default_valid folded
  rw [perform_pending inStep.apart known opened found]
  dsimp only
  unfold proceed
  rw [merged]
  dsimp only
  split
  · exact ⟨_, rfl, nofun⟩
  · have result : (p.mergeRemote c.other c.remote).2 = d := by rw [merged]
    have going : d.phase = .committed → d.installed.get (s.initiates p) =
          p.decision.installed.get (s.initiates p) ∧
        d.confirmed.get (s.initiates p) = p.decision.confirmed.get (s.initiates p) ∧ d.Valid := by
      intro phase
      rcases Pending.mergeRemote_cases role c.remote with ⟨⟨e, -, -, ended, -, same⟩, -⟩ | ⟨-, folded⟩
      · rw [← same, result] at ended
        simp [Decision.terminal, phase] at ended
      · rw [result] at folded
        have own := Decision.fold_others folded
        exact ⟨own.1, own.2, Decision.fold_valid valid folded⟩
    refine act_awaited (p := { p with decision := d }) side
      ⟨faultless.install, faultless.fresh, faultless.signs, faultless.hashes⟩ awaits ?_ ?_ ?_ _
    · intro noted phase
      exact (going phase).1.trans (flagged.installed noted).2
    · intro noted phase
      exact (going phase).2.1.trans (flagged.confirmed noted).2
    · intro phase
      exact (going phase).2.2.responderFirst

end Going

section Failing

theorem queue_failed {kind : Kind} {side : Bool} {draws : Draws} {e : Error}
    (failed : (s.queue r p kind side draws).1 = .error e) :
    (s.queue r p kind side draws).2 = { r with pending := some p } ∧
      ((∃ e, Message.signed draws.signature p.transcript kind s.peerId p.candidate
        s.identity.signing = .error e) ∨ ∃ e, p.decision.advance kind side = .error e) := by
  unfold queue at failed ⊢
  cases emitted : s.emit p kind side draws with
  | ok done =>
    rw [emitted] at failed
    cases failed
  | error e' =>
    refine ⟨rfl, ?_⟩
    simp only [emit] at emitted
    rcases bind_error.mp emitted with unsigned | ⟨m, -, emitted⟩
    · exact .inl ⟨e', unsigned⟩
    · rcases bind_error.mp emitted with refused | ⟨d, -, done⟩
      · exact .inr ⟨e', refused⟩
      · cases done

/-- How a step on a merged exchange fails. -/
inductive Fails (s : EndpointState) (c : Call) (r : Relationship) (p : Pending) : Relationship → Prop where
  | kept : ¬ (p.decision.phase = .committed ∧ p.installed = false ∧
      (¬ s.peerId < c.other ∨ p.decision.installed.responder = true) ∧ c.install = .ok ()) →
      ¬ (p.decision.phase = .committed ∧ p.installed = true ∧ p.confirmed = false ∧
        c.fresh = .ok true) → p.decision.phase ≠ .aborted →
      (p.decision.phase = .complete → ∃ e, Crypto.hash p.transcript.encode = .error e) →
      Fails s c r p { r with pending := some p }
  | noted : p.decision.phase = .committed → p.installed = false →
      (¬ s.peerId < c.other ∨ p.decision.installed.responder = true) → c.install = .ok () →
      s.Unsigned c p .installed → Fails s c r p { r with pending := some { p with installed := true } }
  | unsigned : p.decision.phase = .committed → p.installed = true → p.confirmed = false →
      c.fresh = .ok true →
      s.Unsigned c p .confirmed ∨ p.decision.installed.get (s.initiates p) = false →
      Fails s c r p { r with pending := some { p with confirmed := true } }

theorem act_failed (side : s.initiates p = decide (s.peerId < c.other)) {e : Error}
    {calls : List (Bundle × Candidate)}
    (failed : (s.act c.other r p c.now (.answering c.install c.fresh) c.draws calls).1 = .error e) :
    Fails s c r p
      (s.act c.other r p c.now (.answering c.install c.fresh) c.draws calls).2.1 := by
  unfold act at failed ⊢
  dsimp only at failed ⊢
  split at failed
  · cases failed
  · cases failed
  · rename_i phase
    split at failed
    · rename_i initiator
      rw [if_pos initiator]
      rw [(queue_failed failed).1]
      exact .kept (by simp [phase]) (by simp [phase]) (by simp [phase]) (by simp [phase])
    · cases failed
  · rename_i phase
    unfold EndpointState.committed at failed ⊢
    dsimp only [Installer.answering] at failed ⊢
    by_cases noted : p.installed = false
    · rw [if_pos noted] at failed ⊢
      split at failed
      · rename_i turn
        rw [if_pos turn]
        cases install : c.install with
        | error e' =>
          exact .kept (by simp [install]) (by simp [noted]) (by simp [phase]) (by simp [phase])
        | ok u =>
          rw [install] at failed
          dsimp only at failed ⊢
          change (s.queue r { p with installed := true } .installed (s.initiates p) c.draws).1 =
            .error e at failed
          change Fails s c r p
            (s.queue r { p with installed := true } .installed (s.initiates p) c.draws).2
          obtain ⟨same, unsigned | ⟨e', refused⟩⟩ := queue_failed failed
          · rw [same]
            exact .noted phase noted turn install unsigned
          · have allowed : s.initiates p = false ∨ p.decision.installed.responder = true := by
              rw [side]
              exact turn.imp_left decide_eq_false
            simp only [Decision.advance, phase, if_pos allowed] at refused
            cases refused
      · cases failed
    · rw [if_neg noted] at failed ⊢
      rw [Bool.not_eq_false] at noted
      split at failed
      · rename_i waiting
        rw [if_pos waiting]
        cases seen : c.fresh with
        | error e' =>
          exact .kept (by simp [noted]) (by simp [seen]) (by simp [phase]) (by simp [phase])
        | ok fresh =>
          rw [seen] at failed
          cases fresh with
          | false => cases failed
          | true =>
            dsimp only at failed ⊢
            change (s.queue r { p with confirmed := true } .confirmed (s.initiates p) c.draws).1 =
              .error e at failed
            change Fails s c r p
              (s.queue r { p with confirmed := true } .confirmed (s.initiates p) c.draws).2
            obtain ⟨same, unsigned | ⟨e', refused⟩⟩ := queue_failed failed
            · rw [same]
              exact .unsigned phase noted waiting seen (.inl unsigned)
            · rw [same]
              refine .unsigned phase noted waiting seen (.inr ?_)
              rw [← Bool.not_eq_true]
              intro present
              simp only [Decision.advance, phase, if_pos present] at refused
              cases refused
      · cases failed
  · rename_i phase
    unfold complete at failed ⊢
    split at failed
    · rename_i e' hashed
      exact .kept (by simp [phase]) (by simp [phase]) (by simp [phase]) fun _ => ⟨e', hashed⟩
    · cases failed

end Failing

section Consistency

/-- With an exchange pending after the call, the call leaves what its flags and its decision say. -/
theorem leaves_iff {heard : List Kind} (known : s.relationship c.other = some r)
    (opened : s.Open r) (found : r.pending = some p) (inStep : s.InStep c.other heard p)
    {p' : Pending}
    (after : (c.perform s).2.1 = s.setRelationship c.other { r with pending := some p' })
    (transcript : p'.transcript = p.transcript) :
    s.Leaves c heard ↔ p'.Flagged (s.initiates p) ∧
      p'.Decided (s.initiates p) (heard ++ p.hears c.other c.remote) := by
  have pending : s.pendingWith c.other = some p := by
    rw [pendingWith, known]
    exact found
  have pending' : (c.perform s).2.1.pendingWith c.other = some p' := by
    rw [after, pendingWith, relationship_setRelationship]
    rfl
  have side : (c.perform s).2.1.initiates p' = s.initiates p := by
    rw [after, initiates, initiates, transcript]
    rfl
  constructor
  · intro leaves
    obtain ⟨q, same, flagged, decided, -⟩ := leaves p' pending'
    rw [pending] at same
    cases same
    exact ⟨flagged, decided⟩
  · rintro ⟨flagged, decided⟩ q same
    rw [pending'] at same
    cases same
    refine ⟨p, pending, flagged, decided, ?_⟩
    have later : (c.perform s).2.1.InStep c.other (heard ++ p.hears c.other c.remote) p' := by
      refine ⟨?_, ?_, by rw [side]; exact decided⟩
      · rw [after]
        exact inStep.apart
      · rw [after, transcript]
        exact inStep.initiatorId
    refine continues (r := { r with pending := some p' }) ?_ ?_ rfl later (by rw [side]; exact flagged)
    · rw [after, relationship_setRelationship]
    · rw [after]
      exact opened

/-- The flags and the decision an error leaves, once the record has been merged. -/
theorem failed_iff {heard : List Kind} {d : Decision} {r' : Relationship}
    (known : s.relationship c.other = some r) (opened : s.Open r) (found : r.pending = some p)
    (inStep : s.InStep c.other heard p)
    (merged : p.mergeRemote c.other c.remote = (.ok (), d))
    (early : s.resends c.remote { p with decision := d } c.now = false ∨ p.outbox.getLast? = none)
    (after : (c.perform s).2.1 = s.setRelationship c.other r')
    (fails : s.Fails c r { p with decision := d } r') :
    s.Leaves c heard ↔ p.Flagged (s.initiates p) ∧ ¬ s.Falters c := by
  have role := peer_role inStep.initiatorId inStep.apart.1
  have result : (p.mergeRemote c.other c.remote).2 = d := by rw [merged]
  have falters : s.Falters c ↔ s.Slips c p d := by
    constructor
    · rintro ⟨r₀, p₀, d₀, known₀, -, found₀, merged₀, -, slips⟩
      rw [known] at known₀
      cases known₀
      rw [found] at found₀
      cases found₀
      rw [merged] at merged₀
      cases merged₀
      exact slips
    · intro slips
      exact ⟨r, p, d, known, opened, found, merged, early, slips⟩
  rw [falters]
  have marks := inStep.decided.flags
  -- either the record's decision was taken over, or the peer's messages left the own flags alone
  rcases Pending.mergeRemote_cases role c.remote with ⟨adopts, silent, -⟩ | ⟨local_, folded⟩
  · rw [result] at adopts
    obtain ⟨e, shown, recorded, ended, running, rfl⟩ := adopts
    have phases : e.decision.phase = .complete ∨ e.decision.phase = .aborted := by
      simpa [Decision.terminal] using ended
    have finished : e.decision.phase ≠ .committed := by
      rcases phases with finished_ | finished_
      · simp [finished_]
      · simp [finished_]
    cases fails with
    | noted phase => exact absurd phase finished
    | unsigned phase => exact absurd phase finished
    | kept _ _ unaborted hashes =>
      have phase := phases.resolve_right unaborted
      rw [leaves_iff known opened found inStep after rfl, silent, List.append_nil]
      constructor
      · rintro ⟨-, decided⟩
        exact absurd decided (inStep.decided.not_adopted running phase)
      · rintro ⟨-, calm⟩
        exact absurd (.inr (.inr ⟨⟨e, shown, recorded, ended, running, rfl⟩, phase, hashes phase⟩)) calm
  · rw [result] at folded
    have own := Decision.fold_others folded
    have decided := inStep.decided.hears folded
    cases fails with
    | kept uninstalled unseen _ _ =>
      rw [leaves_iff known opened found inStep after rfl, Pending.Flagged.decided_iff own]
      refine ⟨fun left => ⟨left.1, ?_⟩, fun left => ⟨left.1, decided⟩⟩
      rintro (⟨phase, fresh, turn, install, -⟩ | ⟨phase, present, waiting, seen, -⟩ | ⟨adopts, -⟩)
      · exact uninstalled ⟨phase, fresh, turn, install⟩
      · exact unseen ⟨phase, present, waiting, seen⟩
      · exact local_ _ adopts
    | noted phase fresh turn install unsigned =>
      rw [leaves_iff known opened found inStep after rfl]
      cases sent : p.decision.installed.get (s.initiates p) with
      | false =>
        constructor
        · rintro ⟨flagged, -⟩
          have set := (flagged.installed rfl).2
          dsimp only at set
          rw [own.1, sent] at set
          cases set
        · rintro ⟨-, calm⟩
          exact absurd (.inl ⟨phase, fresh, turn, install, sent, unsigned⟩) calm
      | true =>
        constructor
        · rintro ⟨flagged, -⟩
          refine ⟨⟨fun noted => ?_, fun noted => ?_⟩, ?_⟩
          · rw [show p.installed = false from fresh] at noted
            cases noted
          · obtain ⟨queued, set⟩ := flagged.confirmed noted
            exact ⟨queued, own.2 ▸ set⟩
          · rintro (⟨-, -, -, -, unsent, -⟩ | ⟨-, present, -⟩ | ⟨adopts, -⟩)
            · rw [sent] at unsent
              cases unsent
            · rw [show p.installed = false from fresh] at present
              cases present
            · exact local_ _ adopts
        · rintro ⟨flagged, -⟩
          refine ⟨⟨fun _ => ⟨marks.1.mp sent, own.1.trans sent⟩, fun noted => ?_⟩, decided⟩
          obtain ⟨queued, set⟩ := flagged.confirmed noted
          exact ⟨queued, own.2.trans set⟩
    | unsigned phase present waiting seen why =>
      rw [leaves_iff known opened found inStep after rfl]
      cases sent : p.decision.confirmed.get (s.initiates p) with
      | false =>
        constructor
        · rintro ⟨flagged, -⟩
          have set := (flagged.confirmed rfl).2
          dsimp only at set
          rw [own.2, sent] at set
          cases set
        · rintro ⟨flagged, calm⟩
          rcases why with unsigned | unset
          · exact absurd (.inr (.inl ⟨phase, present, waiting, seen, sent, unsigned⟩)) calm
          · have set := (flagged.installed present).2
            rw [← own.1] at set
            cases set.symm.trans unset
      | true =>
        constructor
        · rintro ⟨flagged, -⟩
          refine ⟨⟨fun noted => ?_, fun noted => ?_⟩, ?_⟩
          · obtain ⟨queued, set⟩ := flagged.installed noted
            exact ⟨queued, own.1 ▸ set⟩
          · rw [show p.confirmed = false from waiting] at noted
            cases noted
          · rintro (⟨-, fresh, -⟩ | ⟨-, -, -, -, unsent, -⟩ | ⟨adopts, -⟩)
            · rw [show p.installed = true from present] at fresh
              cases fresh
            · rw [sent] at unsent
              cases unsent
            · exact local_ _ adopts
        · rintro ⟨flagged, -⟩
          refine ⟨⟨fun noted => ?_, fun _ => ⟨marks.2.mp sent, own.2.trans sent⟩⟩, decided⟩
          obtain ⟨queued, set⟩ := flagged.installed noted
          exact ⟨queued, own.1.trans set⟩

/-- A call that fails leaves the exchange consistent and able to go on exactly when its flags were
in order before and the failure was none of the three that part them. -/
theorem error_consistent_iff {e : Error} (failed : (c.perform s).1 = .error e) {heard : List Kind}
    (inStep : ∀ p, s.pendingWith c.other = some p → s.InStep c.other heard p) :
    s.Leaves c heard ↔
      (∀ p, s.pendingWith c.other = some p → p.Flagged (s.initiates p)) ∧ ¬ s.Falters c := by
  cases busy : s.pendingWith c.other with
  | none =>
    have calm : ¬ s.Falters c := by
      rintro ⟨r, p, d, known, -, found, -⟩
      rw [pendingWith, known, Option.bind_some, found] at busy
      cases busy
    have idle : (c.perform s).2.1.pendingWith c.other = none := by
      have performed := c.performed s
      rw [failed] at performed
      generalize (c.perform s).2.1 = s' at performed ⊢
      generalize (c.perform s).2.2 = calls at performed
      cases performed with
      | refused => exact busy
      | @turned r r' _ _ apart known opened turn =>
        have none : r.pending = none := by
          rw [pendingWith, known] at busy
          exact busy
        rw [pendingWith, relationship_setRelationship]
        change r'.pending = .none
        cases turn with
        | failed => exact none
        | spent => exact none
        | interrupted found =>
          rw [none] at found
          cases found
        | acted found =>
          rw [none] at found
          cases found
    refine iff_of_true ?_ ⟨fun _ none => (nomatch none), calm⟩
    intro p' pending
    rw [idle] at pending
    cases pending
  | some p =>
    have inStep := inStep p busy
    obtain ⟨r, known, found⟩ := Option.bind_eq_some_iff.mp busy
    have opened : s.Open r := by
      by_contra closed
      unfold Call.perform reconcile at failed
      rw [if_neg (not_or.mpr inStep.apart), known] at failed
      dsimp only at failed
      rw [reconcileRelationship_closed closed] at failed
      cases failed
    have flags : (∀ q, some p = some q → q.Flagged (s.initiates q)) ↔ p.Flagged (s.initiates p) :=
      ⟨fun each => each p rfl, fun flagged q same => Option.some.inj same ▸ flagged⟩
    rw [flags]
    have performed := perform_pending inStep.apart known opened found
    have side := initiates_iff inStep.initiatorId inStep.apart.1
    cases merged : p.mergeRemote c.other c.remote with
    | mk result d =>
      unfold proceed at performed
      rw [merged] at performed
      cases result with
      | error e' =>
        have after := congrArg (fun t => t.2.1) performed
        dsimp only at after
        rw [leaves_iff known opened found inStep after rfl]
        have role := peer_role inStep.initiatorId inStep.apart.1
        rcases Pending.mergeRemote_cases role c.remote with ⟨-, -, fine⟩ | ⟨-, folded⟩
        · rw [merged] at fine
          cases fine
        · rw [merged] at folded
          rw [Pending.Flagged.decided_iff (Decision.fold_others folded)]
          refine ⟨fun left => ⟨left.1, ?_⟩, fun left => ⟨left.1, inStep.decided.hears folded⟩⟩
          rintro ⟨r₀, p₀, d₀, known₀, -, found₀, merged₀, -⟩
          rw [known] at known₀
          cases known₀
          rw [found] at found₀
          cases found₀
          rw [merged] at merged₀
          cases merged₀
      | ok u =>
        dsimp only at performed
        split at performed
        · rw [performed] at failed
          cases failed
        · rename_i resent
          have early : s.resends c.remote { p with decision := d } c.now = false ∨
              p.outbox.getLast? = none := by
            cases due : s.resends c.remote { p with decision := d } c.now with
            | false => exact .inl rfl
            | true =>
              cases last : p.outbox.getLast? with
              | none => exact .inr rfl
              | some m => exact (resent m due last).elim
          rw [performed] at failed
          exact failed_iff known opened found inStep merged early (congrArg (fun t => t.2.1) performed)
            (act_failed (p := { p with decision := d }) side failed)

end Consistency

end EndpointState

section Sample

open Arithmetic

namespace Arithmetic

/-- The sums of `native` with a signer that fails on every draw but zero. -/
@[reducible] def faltering : Native where
  __ := native
  pqSign drawn secret data := if drawn = 0 then native.pqSign drawn secret data else none

attribute [local instance] faltering

/-- The responder after its answer to the first proposal. -/
def replied : EndpointState := (turn second (proposedAs first)).apply answerer

/-- The record once the initiator has committed. -/
def committedRecord : Option Exchange :=
  shown (transcript first 5) .committed [(.propose, second), (.ready, third), (.commit, second)]

/-- A cycle that is shown the commit; the signature is drawn as given. -/
def installing (install : Except Error Unit) (signature : Nat) : Call where
  other := second
  remote := committedRecord
  now := 20
  rotationInterval := 86400
  idleTimeout := 0
  install
  fresh := .ok true
  draws := ⟨.error .random, 0, signature⟩

theorem replied_inStep : ∃ p, replied.pendingWith second = some p ∧ p.installed = false ∧
    p.confirmed = false ∧ replied.initiates p = false ∧
    p.decision.installed = ⟨false, false⟩ ∧ replied.InStep second [] p := by
  have checked : (replied.pendingWith second).any (fun p =>
      p.installed = false ∧ p.confirmed = false ∧ replied.initiates p = false ∧
        p.transcript.initiatorId = second ∧
        p.decision = { Decision.default with phase := .ready } ∧
        (p.outbox.map Message.messageType) = [Kind.ready.code]) = true := by
    decide +kernel
  obtain ⟨p, pending, checked⟩ := (Option.any_eq_true _ _).mp checked
  obtain ⟨fresh, waiting, side, initiatorId, decision, outbox⟩ := of_decide_eq_true checked
  refine ⟨p, pending, fresh, waiting, side, by rw [decision]; rfl, ?_, ?_, ?_⟩
  · decide +kernel
  · rw [initiatorId]
    decide +kernel
  · rw [side]
    refine ⟨[(.ready, false)], by rw [decision]; rfl, by rw [outbox]; rfl, rfl⟩

theorem installing_unadopted {p : Pending} {d : Decision} : ¬ p.Adopts committedRecord d := by
  rintro ⟨e, shown, -, ended, -⟩
  unfold committedRecord Arithmetic.shown at shown
  split at shown
  · cases shown
    cases ended
  · cases shown

/-- How a call ended, without the message it sends. -/
def ending : Except Error Action → Option (Option Error)
  | .error e => some (some e)
  | .ok .none => none
  | .ok _ => some none

end Arithmetic

attribute [local instance] Arithmetic.faltering

/-- The interface refuses the key: the exchange is left as it was, one message of the peer on, and
the next cycle installs it. -/
theorem EndpointState.error_consistent_iff_refused :
    replied.Leaves (installing (.error .installer) 0) [] := by
  obtain ⟨p, pending, fresh, waiting, -, -, inStep⟩ := replied_inStep
  have failed : ∃ e, ((installing (.error .installer) 0).perform replied).1 = .error e := by
    rcases ok_or_error ((installing (.error .installer) 0).perform replied).1 with ⟨a, done⟩ | failed
    · have checked : ((installing (.error .installer) 0).perform replied).1.toOption.isSome = false := by
        decide +kernel
      rw [done] at checked
      cases checked
    · exact failed
  obtain ⟨e, failed⟩ := failed
  have only : ∀ q, replied.pendingWith second = some q → q = p := by
    intro q same
    rw [pending] at same
    exact (Option.some.inj same).symm
  refine (EndpointState.error_consistent_iff failed fun q same => only q same ▸ inStep).mpr ⟨?_, ?_⟩
  · intro q same
    rw [only q same]
    refine ⟨fun noted => ?_, fun noted => ?_⟩
    · rw [fresh] at noted
      cases noted
    · rw [waiting] at noted
      cases noted
  · rintro ⟨r, q, d, known, -, found, -, -, ⟨-, -, -, install, -⟩ | ⟨-, present, -⟩ | ⟨adopts, -⟩⟩
    · cases install
    · rw [only q (by rw [EndpointState.pendingWith]; exact Option.bind_eq_some_iff.mpr ⟨r, known, found⟩),
        fresh] at present
      cases present
    · exact installing_unadopted adopts

/-- A key is installed and its receipt cannot be signed: the exchange says installed, no message
and no decision does, and of two later cycles in which nothing fails the first is in conflict and
the second does nothing. -/
theorem EndpointState.installed_unsent : ∃ (s : EndpointState) (c c' : Call) (p p' : Pending)
    (heard : List Kind), s.pendingWith c.other = some p ∧ s.InStep c.other heard p ∧
      p.Flagged (s.initiates p) ∧ (c.perform s).1 = .error .crypto ∧
      (c.perform s).2.1.pendingWith c.other = some p' ∧ p'.installed = true ∧
      (∀ m ∈ p'.outbox, m.messageType ≠ Kind.installed.code) ∧
      p'.decision.installed.get (s.initiates p) = false ∧
      c'.install = .ok () ∧ c'.fresh = .ok true ∧
      (c'.perform (c.perform s).2.1).1 = .error .conflict ∧
      (c'.perform (c'.perform (c.perform s).2.1).2.1).1 = .ok .none := by
  obtain ⟨p, pending, fresh, waiting, side, -, inStep⟩ := replied_inStep
  have left : (((installing (.ok ()) 1).perform replied).2.1.pendingWith second).any (fun p' =>
      p'.installed = true ∧ (p'.outbox.all fun m => m.messageType ≠ Kind.installed.code) = true ∧
        p'.decision.installed.get false = false) = true := by decide +kernel
  obtain ⟨p', pending', checked⟩ := (Option.any_eq_true _ _).mp left
  obtain ⟨noted, unsent, unset⟩ := of_decide_eq_true checked
  have endings : ending ((installing (.ok ()) 1).perform replied).1 = some (some .crypto) ∧
      ending ((installing (.ok ()) 0).perform ((installing (.ok ()) 1).perform replied).2.1).1 =
        some (some .conflict) ∧
      ending ((installing (.ok ()) 0).perform ((installing (.ok ()) 0).perform
        ((installing (.ok ()) 1).perform replied).2.1).2.1).1 = none := by decide +kernel
  have error : ∀ {x : Except Error Action} {e : Error}, ending x = some (some e) → x = .error e := by
    intro x e same
    rcases x with e' | (_ | _ | _)
    · cases same
      rfl
    · cases same
    · cases same
    · cases same
  have quiet : ∀ {x : Except Error Action}, ending x = none → x = .ok .none := by
    intro x same
    rcases x with e' | (_ | _ | _)
    · cases same
    · cases same
    · cases same
    · rfl
  refine ⟨replied, installing (.ok ()) 1, installing (.ok ()) 0, p, p', [], pending, inStep, ?_,
    error endings.1, pending', noted, ?_, by rw [side]; exact unset, rfl, rfl, error endings.2.1,
    quiet endings.2.2⟩
  · refine ⟨fun noted => ?_, fun noted => ?_⟩
    · rw [fresh] at noted
      cases noted
    · rw [waiting] at noted
      cases noted
  · intro m member
    exact of_decide_eq_true (List.all_eq_true.mp unsent m member)

end Sample

end Innernet
