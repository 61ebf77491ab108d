import Innernet.Agreement
import Innernet.Progress
import Innernet.Server.Directory
import Innernet.Server.Receipts

/-! Where the messages of an exchange come from: what a call queues goes back to an exchange that was
offered. -/
namespace Innernet

open Fallible Tables Runs Ledger

section Mail

variable [Native]

/-- A message of an exchange that is not its first. -/
def Kind.Later (kind : Kind) : Prop := kind = .commit ∨ kind = .installed ∨ kind = .confirmed

/-- A call leaves an exchange what it is, and queues at most one message for it; what it sends is in the queue. -/
structure Call.Queued (c : Call) (s : EndpointState) (p p' : Pending) (result : Except Error Action) : Prop where
  transcript : p'.transcript = p.transcript
  candidate : p'.candidate = p.candidate
  outbox : p'.outbox = p.outbox ∨ ∃ m kind, kind.Later ∧
    m.Made p.transcript kind s.peerId p.candidate ∧ p'.outbox = p.outbox ++ [m]
  sent : ∀ m, result = .ok (.send m) → m ∈ p'.outbox

theorem Call.Moved.queued {c : Call} {s : EndpointState} {r : Relationship} {p p' : Pending}
    {result : Except Error Action} {calls : List (Bundle × Candidate)}
    (moved : c.Moved s r p result p' calls) : c.Queued s p p' result := by
  have emits : ∀ {q : Pending} {kind : Kind} {side : Bool} {m : Message},
      s.emit q kind side c.draws = .ok (p', m) → kind.Later → q.transcript = p.transcript →
      q.candidate = p.candidate → q.outbox = p.outbox → c.Queued s p p' (.ok (.send m)) := by
    intro q kind side m emitted later transcript candidate outbox
    obtain ⟨signed, d, -, rfl⟩ := EndpointState.emit_ok emitted
    have made := Message.signed_made signed
    rw [transcript, candidate] at made
    refine ⟨transcript, candidate, .inr ⟨m, kind, later, made, ?_⟩, ?_⟩
    · rw [outbox]
    · intro m' same
      cases same
      exact List.mem_append_right _ (List.mem_singleton.mpr rfl)
  cases moved with
  | kept last =>
    refine ⟨rfl, rfl, .inl rfl, ?_⟩
    intro m sent
    exact List.mem_of_getLast? (last m sent)
  | noted => exact ⟨rfl, rfl, .inl rfl, by simp⟩
  | unsigned => exact ⟨rfl, rfl, .inl rfl, by simp⟩
  | committed _ _ emitted => exact emits emitted (.inl rfl) rfl rfl rfl
  | installed _ _ _ emitted => exact emits emitted (.inr (.inl rfl)) rfl rfl rfl
  | confirmed _ _ _ _ _ emitted => exact emits emitted (.inr (.inr rfl)) rfl rfl rfl

/-- Upkeep leaves a pending exchange but for its backoff. -/
theorem EndpointState.revised_backoff {s : EndpointState} {other : Number} {r r' : Relationship}
    {u : Upkeep} (revised : Revised s other r u r') {p' : Pending}
    (pending : r'.pending = some p') : ∃ p, r.pending = some p ∧
      p' = { p with attempts := p'.attempts, nextRetryAt := p'.nextRetryAt } := by
  cases revised with
  | untouched => exact ⟨p', pending, rfl⟩
  | sampled => exact ⟨p', pending, rfl⟩
  | @backedOff p _ _ _ _ before =>
    cases pending
    exact ⟨p, before, rfl⟩
  | replaced => exact ⟨p', pending, rfl⟩
  | disabled => cases pending
  | retired => cases pending
  | @observed bundle lifecycle =>
    rcases settle_pending (.refresh s.peerId other r bundle) lifecycle with same | dropped
    · rcases refresh_pending s.peerId other r bundle with same' | dropped
      · exact ⟨p', by rw [← same', ← same, pending], rfl⟩
      · rw [same, dropped] at pending
        cases pending
    · rw [dropped] at pending
      cases pending

theorem Message.Made.name {t : Transcript} {kind : Kind} {sender : Number} {candidate : Candidate}
    {m : Message} (made : m.Made t kind sender candidate) : m.name = t.name := by
  rw [Message.name, Transcript.name, made.initiatorBundleId, made.responderBundleId, made.sequence,
    made.exchangeId]

/-- What is sent is in the queue of the exchange that is then pending. -/
theorem EndpointState.Turn.queued {σ : Type} {s : EndpointState} {other : Number}
    {r r' : Relationship} {remote : Option Exchange} {now : Nat} {installer : Installer σ}
    {draws : Draws} {world world' : σ} {result : Except Error Action}
    (turn : Turn s other r remote now installer draws world result r' world') {m : Message}
    (sent : result = .ok (.send m)) : ∃ p', r'.pending = some p' ∧ m ∈ p'.outbox := by
  have emits : ∀ {q p' : Pending} {kind : Kind} {side : Bool},
      s.emit q kind side draws = .ok (p', m) → m ∈ p'.outbox := by
    intro q p' kind side emitted
    rw [(emit_type emitted).2]
    exact List.mem_append_right _ (List.mem_singleton.mpr rfl)
  cases turn with
  | rested => cases sent
  | failed => cases sent
  | spent => cases sent
  | proposed _ _ _ opened =>
    cases sent
    obtain ⟨t, candidate, rfl, -⟩ := openProposal_ok opened
    exact ⟨_, rfl, List.mem_singleton.mpr rfl⟩
  | answered _ _ _ _ _ _ opened =>
    cases sent
    obtain ⟨candidate, propose, d, rfl, -⟩ := openAnswer_ok opened
    exact ⟨_, rfl, List.mem_singleton.mpr rfl⟩
  | interrupted => cases sent
  | resent _ _ _ last =>
    cases sent
    exact ⟨_, rfl, List.mem_of_getLast? last⟩
  | acted _ _ _ act =>
    cases act with
    | abandoned => cases sent
    | held _ quiet =>
      rcases quiet with rfl | ⟨e, rfl⟩
      · cases sent
      · cases sent
    | refused => cases sent
    | committed _ _ emitted =>
      cases sent
      exact ⟨_, rfl, emits emitted⟩
    | installed _ _ _ _ emitted =>
      cases sent
      exact ⟨_, rfl, emits emitted⟩
    | noted => cases sent
    | confirmed _ _ _ _ emitted =>
      cases sent
      exact ⟨_, rfl, emits emitted⟩
    | unsigned => cases sent
    | completed => cases sent

/-- What is pending after a deed was pending before it, but for its backoff, or comes of a turn. -/
theorem EndpointState.deed_pending {s : EndpointState} {other : Number} {d : Deed} {p' : Pending}
    (pending : (d.apply s).pendingWith other = some p') :
    (∃ p attempts nextRetryAt, s.pendingWith other = some p ∧
      p' = { p with attempts, nextRetryAt }) ∨
    ∃ c r r', d = .reconcile c ∧ c.other = other ∧ s.relationship other = some r ∧
      (c.perform s).2.1.relationship other = some r' ∧ r'.pending = some p' ∧ s.Open r ∧
      Turn s c.other r c.remote c.now (.answering c.install c.fresh) c.draws [] (c.perform s).1 r'
        (c.perform s).2.2 := by
  obtain ⟨r', after, present⟩ := Option.bind_eq_some_iff.mp pending
  clear pending
  cases d with
  | upkeep u =>
    have upkept := upkept u s other
    rw [show (u.perform s).relationship other = some r' from after] at upkept
    generalize known : s.relationship other = past at upkept
    cases upkept with
    | met => cases present
    | @revised r _ revised =>
      obtain ⟨p, there, same⟩ := revised_backoff revised present
      exact .inl ⟨p, _, _, by rw [pendingWith, known, Option.bind_some, there], same⟩
  | reconcile c =>
    have after : (c.perform s).2.1.relationship other = some r' := after
    by_cases here : c.other = other
    · subst here
      rcases c.turned s with ⟨same, -⟩ | ⟨r, r'', -, known, after', shut, turn⟩
      · rw [same] at after
        exact .inl ⟨p', _, _, by rw [pendingWith, after, Option.bind_some, present], rfl⟩
      · rw [after] at after'
        cases after'
        exact .inr ⟨c, r, r', rfl, rfl, known, after, present, shut, turn⟩
    · rw [c.other_relationship s (Ne.symm here)] at after
      exact .inl ⟨p', _, _, by rw [pendingWith, after, Option.bind_some, present], rfl⟩

end Mail

/-- A message of an exchange by one of its peers; proposals are those that were made. -/
structure Letter (offers : List (Pending × Message)) (sender : Number) (n : ExchangeName)
    (m : Message) : Prop where
  senderId : m.senderId = sender
  name : m.name = n
  kind : ∃ kind, m.messageType = Kind.code kind ∧ kind ≠ .abort
  proposal : m.messageType = Kind.propose.code → ∃ q, (q, m) ∈ offers

/-- A pending exchange goes back to an offer, and its queue to both. -/
structure Traced (offers : List (Pending × Message)) (sender : Number) (p : Pending) : Prop where
  offer : ∃ q m, (q, m) ∈ offers ∧ p.transcript.name = q.transcript.name ∧
    p.transcript.initiatorId = q.transcript.initiatorId ∧ p.candidate = q.candidate
  outbox : ∀ m ∈ p.outbox, Letter offers sender p.transcript.name m

section Tracing

variable {offers offers' : List (Pending × Message)} {sender : Number} {n : ExchangeName}
  {m : Message} {p p' : Pending}

theorem Letter.mono (letter : Letter offers sender n m) (more : ∀ q ∈ offers, q ∈ offers') :
    Letter offers' sender n m where
  senderId := letter.senderId
  name := letter.name
  kind := letter.kind
  proposal typed := (letter.proposal typed).imp fun _ => more _

theorem Traced.mono (traced : Traced offers sender p) (more : ∀ q ∈ offers, q ∈ offers') :
    Traced offers' sender p where
  offer := by
    obtain ⟨q, m, member, same⟩ := traced.offer
    exact ⟨q, m, more _ member, same⟩
  outbox m member := (traced.outbox m member).mono more

theorem Traced.backoff {attempts nextRetryAt : Nat} (traced : Traced offers sender p) :
    Traced offers sender { p with attempts, nextRetryAt } := ⟨traced.offer, traced.outbox⟩

variable [Native]

theorem Message.Made.letter {t : Transcript} {kind : Kind} {candidate : Candidate}
    (made : m.Made t kind sender candidate) (regular : kind ≠ .abort)
    (proposal : kind = .propose → ∃ q, (q, m) ∈ offers) : Letter offers sender t.name m where
  senderId := made.senderId
  name := made.name
  kind := ⟨kind, made.messageType, regular⟩
  proposal typed := proposal (Kind.code_injective (made.messageType.symm.trans typed))

theorem Traced.queued {c : Call} {s : EndpointState} {result : Except Error Action}
    (traced : Traced offers s.peerId p) (queued : c.Queued s p p' result) :
    Traced offers s.peerId p' where
  offer := by
    rw [queued.transcript, queued.candidate]
    exact traced.offer
  outbox m member := by
    rw [queued.transcript]
    rcases queued.outbox with same | ⟨m', kind, later, made, same⟩
    · rw [same] at member
      exact traced.outbox m member
    · rw [same, List.mem_append, List.mem_singleton] at member
      rcases member with old | rfl
      · exact traced.outbox m old
      · refine made.letter ?_ ?_
        · rcases later with rfl | rfl | rfl <;> simp
        · rcases later with rfl | rfl | rfl <;> simp

/-- Whatever is done to an endpoint, what is pending with a peer is what was pending but for its
queue and its backoff, or an exchange the call opens. -/
theorem EndpointState.traced_deed {s : EndpointState} {other : Number} {d : Deed}
    (before : ∀ p, s.pendingWith other = some p → Traced offers s.peerId p)
    (more : ∀ q ∈ offers, q ∈ offers')
    (opens : ∀ c r r' p' m, d = .reconcile c → c.other = other → s.relationship other = some r →
      (d.apply s).relationship other = some r' → r.pending = none → r'.pending = some p' →
      (c.perform s).1 = .ok (.send m) → c.Opened s r r' p' m → Traced offers' s.peerId p')
    (p' : Pending) (pending : (d.apply s).pendingWith other = some p') :
    Traced offers' s.peerId p' := by
  rcases deed_pending pending with ⟨p, attempts, nextRetryAt, there, rfl⟩ |
    ⟨c, r, r', rfl, here, known, after, present, shut, turn⟩
  · exact ((before p there).mono more).backoff
  · rcases turn.moved shut present with ⟨p, there, moved, -⟩ | ⟨idle, -, m, sent, opened⟩
    · have traced := (before p (by rw [pendingWith, known, Option.bind_some, there])).mono more
      have taken : Traced offers' s.peerId (p.takes c.other c.remote) := ⟨traced.offer, traced.outbox⟩
      exact taken.queued moved.queued
    · exact opens c r r' p' m rfl here known after idle present sent opened

end Tracing

theorem Ledger.Fed.mono [Native] {l : Ledger} {first second : Number} {mail mail' : List Message}
    (fed : l.Fed first second mail) (more : ∀ m ∈ mail, m ∈ mail') : l.Fed first second mail' :=
  fun k r found initiator responder => (fed k r found initiator responder).mono more

end Innernet
