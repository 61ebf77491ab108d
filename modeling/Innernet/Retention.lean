import Innernet.Arithmetic

/-! What an endpoint must not forget: that post-quantum keys were in use with a peer, and the key
its kernel was last given. -/
namespace Innernet

open Fallible Runs

namespace EndpointState

/-- The relationship has completed an exchange. -/
def Proven (s : EndpointState) (other : Number) : Prop :=
  ∃ r, s.relationship other = some r ∧ r.priorPq = true

variable [Native]

/-- The call finds the tunnel of the pending exchange up, and emits its `Confirmed` message. -/
def Vouches (s : EndpointState) (c : Call) (r : Relationship) (p : Pending) : Prop :=
  s.Open r ∧ r.pending = some p ∧ p.installed = true ∧ p.confirmed = false ∧
    c.fresh = .ok true ∧ ∃ decision, p.mergeRemote c.other c.remote = (.ok (), decision) ∧
      decision.phase = .committed ∧
      (s.resends c.remote { p with decision } c.now = false ∨ p.outbox.getLast? = none)

end EndpointState

section Emission

/-- A `Confirmed` message is queued for the peer. -/
def Pending.Vouching (p : Pending) : Prop :=
  ∃ m ∈ p.outbox, m.messageType = Kind.confirmed.code

theorem Pending.opened_vouching {t : Transcript} {candidate : Candidate} {d : Decision}
    {m : Message} (vouching : (Pending.opened t candidate d m).Vouching) :
    m.messageType = Kind.confirmed.code := by
  obtain ⟨m', member, type⟩ := vouching
  rw [opened, List.mem_singleton] at member
  exact member ▸ type

variable [Native] {σ : Type}

theorem EndpointState.emit_type {s : EndpointState} {p p' : Pending} {kind : Kind}
    {initiator : Bool} {draws : Draws} {m : Message}
    (emitted : s.emit p kind initiator draws = .ok (p', m)) :
    m.messageType = kind.code ∧ p'.outbox = p.outbox ++ [m] := by
  obtain ⟨signed, d, -, rfl⟩ := emit_ok emitted
  exact ⟨(Message.signed_made signed).messageType, rfl⟩

theorem EndpointState.emit_vouching {s : EndpointState} {p p' : Pending} {kind : Kind}
    {initiator : Bool} {draws : Draws} {m : Message}
    (emitted : s.emit p kind initiator draws = .ok (p', m)) (different : kind ≠ .confirmed)
    (vouching : p'.Vouching) : p.Vouching := by
  have made := emit_type emitted
  obtain ⟨m', member, type⟩ := vouching
  rw [made.2, List.mem_append, List.mem_singleton] at member
  rcases member with old | rfl
  · exact ⟨m', old, type⟩
  · exact absurd (Kind.code_injective (made.1.symm.trans type)) different

/-- A `Confirmed` message is queued after a turn only if it was before, or the turn emits it. -/
theorem EndpointState.Turn.vouching {s : EndpointState} {other : Number} {r r' : Relationship}
    {remote : Option Exchange} {now : Nat} {installer : Installer σ} {draws : Draws}
    {world world' : σ} {result : Except Error Action} {p' : Pending}
    (turn : Turn s other r remote now installer draws world result r' world')
    (pending : r'.pending = some p') (vouching : p'.Vouching) :
    (∃ p, r.pending = some p ∧ p.Vouching) ∨ Action.vouches result = true := by
  cases turn with
  | rested => exact .inl ⟨p', pending, vouching⟩
  | failed => exact .inl ⟨p', pending, vouching⟩
  | spent => exact .inl ⟨p', pending, vouching⟩
  | proposed _ _ _ opened =>
    cases pending
    obtain ⟨t, candidate, rfl, signed, -⟩ := openProposal_ok opened
    have type := Pending.opened_vouching vouching
    rw [(Message.signed_made signed).messageType] at type
    cases Kind.code_injective type
  | answered _ _ _ _ _ _ opened =>
    cases pending
    obtain ⟨candidate, propose, d, rfl, -, -, -, -, -, -, signed, -⟩ := openAnswer_ok opened
    have type := Pending.opened_vouching vouching
    rw [(Message.signed_made signed).messageType] at type
    cases Kind.code_injective type
  | @interrupted p _ _ before =>
    cases pending
    exact .inl ⟨p, before, vouching⟩
  | @resent p _ _ before =>
    cases pending
    exact .inl ⟨p, before, vouching⟩
  | @acted p _ _ _ _ before _ _ act =>
    refine (em _).symm.imp_left fun silent => ⟨p, before, ?_⟩
    cases act with
    | abandoned => cases pending
    | held =>
      cases pending
      exact vouching
    | refused =>
      cases pending
      exact vouching
    | committed _ _ emitted =>
      cases pending
      have queued := emit_vouching emitted (by decide) vouching
      exact queued
    | installed _ _ _ _ emitted =>
      cases pending
      have queued := emit_vouching emitted (by decide) vouching
      exact queued
    | noted =>
      cases pending
      exact vouching
    | confirmed _ _ _ _ emitted =>
      have type : decide (_ = _) ≠ true := silent
      rw [(emit_type emitted).1] at type
      exact absurd rfl type
    | unsigned =>
      cases pending
      exact vouching
    | completed => cases pending

/-- A turn emits a `Confirmed` message by sending one again, or by finding the tunnel up. -/
theorem EndpointState.Turn.vouches {s : EndpointState} {r r' : Relationship} {c : Call}
    {calls calls' : List (Bundle × Candidate)} {result : Except Error Action}
    (turn : Turn s c.other r c.remote c.now (.answering c.install c.fresh) c.draws calls result r'
      calls') (shut : s.Open r) (emitted : Action.vouches result = true) :
    ∃ p, r.pending = some p ∧ (p.Vouching ∨ s.Vouches c r p) := by
  have silent : ∀ {t : Transcript} {kind : Kind} {candidate : Candidate} {m : Message},
      kind ≠ .confirmed → m.Made t kind s.peerId candidate →
      Action.vouches (.ok (.send m)) ≠ true := by
    intro t kind candidate m different made type
    rw [Action.vouches, decide_eq_true_eq, made.messageType] at type
    exact different (Kind.code_injective type)
  cases turn with
  | rested => cases emitted
  | failed => cases emitted
  | spent => cases emitted
  | proposed _ _ _ opened =>
    obtain ⟨t, candidate, -, signed, -⟩ := openProposal_ok opened
    exact absurd emitted (silent (by decide) (Message.signed_made signed))
  | answered _ _ _ _ _ _ opened =>
    obtain ⟨candidate, propose, d, -, -, -, -, -, -, -, signed, -⟩ := openAnswer_ok opened
    exact absurd emitted (silent (by decide) (Message.signed_made signed))
  | interrupted => cases emitted
  | @resent p _ m before _ _ last =>
    refine ⟨p, before, .inl ⟨m, List.mem_of_getLast? last, ?_⟩⟩
    exact of_decide_eq_true emitted
  | @acted p d _ _ _ before merged rested act =>
    cases act with
    | abandoned => cases emitted
    | held _ quiet =>
      rcases quiet with rfl | ⟨e, rfl⟩
      · cases emitted
      · cases emitted
    | refused => cases emitted
    | committed _ _ made =>
      exact absurd emitted (silent (by decide) (Message.signed_made (emit_ok made).1))
    | installed _ _ _ _ made =>
      exact absurd emitted (silent (by decide) (Message.signed_made (emit_ok made).1))
    | noted => cases emitted
    | confirmed phase installed unconfirmed fresh =>
      cases fresh_eq : c.fresh with
      | error e =>
        rw [fresh_eq] at fresh
        cases fresh
      | ok up =>
        rw [fresh_eq] at fresh
        cases fresh
        exact ⟨p, before, .inr ⟨shut, before, installed, unconfirmed, fresh_eq, d, merged, phase,
          rested⟩⟩
    | unsigned => cases emitted
    | completed => cases emitted

end Emission

/-- Permissive mode is on only while every peer a tunnel was confirmed with has completed: neither
is a first tunnel confirmed in that mode, nor the mode turned on before its exchange completes. -/
def Endpoint.Cautious [Native] (m : Move Endpoint Deed) : Prop :=
  match m.label with
  | .reconcile c => m.before.state.policy = .permissive → ∀ r p,
      m.before.state.relationship c.other = some r → m.before.state.Vouches c r p →
      r.priorPq = true
  | .upkeep (.setPolicy true) => ∀ other, m.before.vouched other = true →
      m.before.state.Proven other
  | .upkeep _ => True

namespace Endpoint

variable [Native]

/-- What was confirmed is remembered: by the flag, or for a while by the queue. -/
structure Remembers (e : Endpoint) : Prop where
  queued : ∀ other r p, e.state.relationship other = some r → r.pending = some p → p.Vouching →
    e.vouched other = true
  proven : e.state.policy = .permissive → ∀ other, e.vouched other = true → e.state.Proven other

/-- The flag of a completed exchange is never taken back. -/
theorem proven_kept (e : Endpoint) (d : Deed) (other : Number) (proven : e.state.Proven other) :
    (e.next d).state.Proven other := by
  obtain ⟨r, known, prior⟩ := proven
  have seen := e.seen d other
  rw [known] at seen
  generalize after : (e.next d).state.relationship other = now at seen
  generalize (e.next d).keyed other = keyed at seen
  generalize (e.next d).vouched other = vouched at seen
  cases seen with
  | untouched => exact ⟨r, after, prior⟩
  | upkept upkept =>
    cases upkept with
    | revised revised =>
      refine ⟨_, after, ?_⟩
      cases revised with
      | observed =>
        unfold Relationship.settle
        split
        · exact prior
        · split
          · exact prior
          · exact prior
      | _ => exact prior
  | @turned c _ r' result calls _ _ _ turn =>
    refine ⟨r', after, ?_⟩
    cases turn with
    | acted _ _ _ act =>
      cases act with
      | completed => rfl
      | _ => exact prior
    | _ => exact prior

theorem next_peerId (e : Endpoint) (d : Deed) : (e.next d).state.peerId = e.state.peerId := by
  cases d with
  | upkeep u => exact EndpointState.upkeep_peerId u e.state
  | reconcile c =>
    obtain ⟨relationships, same⟩ := c.perform_frame e.state
    change (c.perform e.state).2.1.peerId = e.state.peerId
    rw [same]

theorem vouched_kept (e : Endpoint) (d : Deed) (other : Number) (vouched : e.vouched other = true) :
    (e.next d).vouched other = true := by
  have seen := e.seen d other
  generalize (e.next d).state.relationship other = now at seen
  generalize e.state.relationship other = before at seen
  generalize (e.next d).keyed other = keyed at seen
  generalize (e.next d).vouched other = after at seen ⊢
  cases seen with
  | untouched => exact vouched
  | upkept => exact vouched
  | turned =>
    rw [vouched]
    rfl

theorem Remembers.queue {e : Endpoint} (remembers : e.Remembers) (d : Deed) (other : Number)
    (r : Relationship) (p : Pending) (known : (e.next d).state.relationship other = some r)
    (pending : r.pending = some p) (vouching : p.Vouching) : (e.next d).vouched other = true := by
  have seen := e.seen d other
  rw [known] at seen
  generalize before : e.state.relationship other = past at seen
  generalize (e.next d).keyed other = keyed at seen
  generalize (e.next d).vouched other = vouched at seen ⊢
  have old := remembers.queued other
  cases seen with
  | untouched => exact old r p before pending vouching
  | upkept upkept =>
    cases upkept with
    | met => cases pending
    | @revised r₀ _ revised =>
      cases revised with
      | untouched => exact old r p before pending vouching
      | sampled => exact old r₀ p before pending vouching
      | @backedOff p₀ _ _ _ _ pending₀ =>
        cases pending
        exact old r₀ p₀ before pending₀ vouching
      | replaced => exact old r₀ p before pending vouching
      | disabled => cases pending
      | retired => cases pending
      | observed =>
        rcases EndpointState.settle_pending (.refresh e.state.peerId other r₀ _) _ with
          same | none
        · rcases EndpointState.refresh_pending e.state.peerId other r₀ _ with same' | none
          · rw [same, same'] at pending
            exact old r₀ p before pending vouching
          · rw [same, none] at pending
            cases pending
        · rw [none] at pending
          cases pending
  | turned _ _ _ turn =>
    rw [Bool.or_eq_true]
    rcases turn.vouching pending vouching with ⟨p₀, pending₀, vouching₀⟩ | emitted
    · exact .inl (old _ p₀ before pending₀ vouching₀)
    · exact .inr emitted

theorem Remembers.step {e : Endpoint} (remembers : e.Remembers) (d : Deed)
    (cautious : Cautious ⟨e, d, e.next d⟩) : (e.next d).Remembers := by
  refine ⟨remembers.queue d, fun permissive other vouched => ?_⟩
  by_cases already : e.vouched other = true ∧ e.state.policy = .permissive
  · exact e.proven_kept d other (remembers.proven already.2 other already.1)
  cases d with
  | upkeep u =>
    -- upkeep emits nothing, so the mode is what has changed
    have vouched : e.vouched other = true := vouched
    have strict : e.state.policy ≠ .permissive := fun on => already ⟨vouched, on⟩
    rcases EndpointState.upkeep_policy u e.state with same | ⟨on, rfl, same⟩
    · exact absurd (same ▸ permissive) strict
    · have permissive : (Upkeep.perform e.state (.setPolicy on)).policy = .permissive := permissive
      rw [same] at permissive
      cases on with
      | false => cases permissive
      | true => exact e.proven_kept _ other (cautious other vouched)
  | reconcile c =>
    obtain ⟨relationships, frame⟩ := c.perform_frame e.state
    have permissive : (c.perform e.state).2.1.policy = .permissive := permissive
    rw [frame] at permissive
    have permissive : e.state.policy = .permissive := permissive
    have unvouched : e.vouched other ≠ true := fun before => already ⟨before, permissive⟩
    refine e.proven_kept _ other ?_
    have seen := e.seen (.reconcile c) other
    generalize (e.next (.reconcile c)).state.relationship other = now at seen
    generalize before : e.state.relationship other = past at seen
    generalize (e.next (.reconcile c)).keyed other = keyed at seen
    generalize (e.next (.reconcile c)).vouched other = after at seen vouched
    cases seen with
    | untouched => exact absurd vouched unvouched
    | @turned _ r r' result calls here apart shut turn =>
      subst here
      rw [Bool.or_eq_true] at vouched
      obtain ⟨p, pending, sent | vouches⟩ := turn.vouches shut (vouched.resolve_left unvouched)
      · exact absurd (remembers.queued _ r p before pending sent) unvouched
      · exact ⟨r, before, cautious permissive r p before vouches⟩

end Endpoint

section Sample

open Arithmetic

attribute [local instance] native

/-- A responder's first exchange up to its `Confirmed` message. -/
def Arithmetic.confirming : List Deed :=
  [.upkeep (.observeRemote second (identity 2 first).bundle .enabled),
    turn second (shown (transcript first 5) .proposed [(.propose, second)]),
    turn second (shown (transcript first 5) .committed
      [(.propose, second), (.ready, third), (.commit, second)]),
    turn second (shown (transcript first 5) .committed
      [(.propose, second), (.ready, third), (.commit, second), (.installed, third)])]

end Sample

end Innernet
