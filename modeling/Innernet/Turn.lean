import Innernet.Decision
import Innernet.Engine

/-! Everything one call of `reconcile` can do, read off the code once. -/
namespace Innernet

open Fallible

variable {σ : Type}

/-- The world after a step that may have asked for a handshake, when it has not seen one. -/
inductive Installer.Asked (installer : Installer σ) (b : Bundle) (world : σ) : σ → Prop where
  | unasked : Asked installer b world world
  | waiting {answer : Except Error Bool} {world' : σ} :
      installer.handshakeFresh b world = (answer, world') → Asked installer b world world'

/-- A message as `Message::signed` makes it. -/
structure Message.Made [Native] (t : Transcript) (kind : Kind) (sender : Number)
    (candidate : Candidate) (m : Message) : Prop where
  initiatorId : m.initiatorId = t.initiatorId
  responderId : m.responderId = t.responderId
  initiatorBundleId : m.initiatorBundleId = t.initiator.bundleId
  responderBundleId : m.responderBundleId = t.responder.bundleId
  sequence : m.sequence = t.sequence
  exchangeId : m.exchangeId = t.exchangeId
  transcriptHash : Crypto.hash t.encode = .ok m.transcriptHash
  senderId : m.senderId = sender
  messageType : m.messageType = kind.code
  shape : m.validateShape = .ok kind
  ciphertext : kind = .propose → m.ciphertext = some t.ciphertext
  tag : Crypto.tag (if sender = t.initiatorId then candidate.initiatorConfirmation
    else candidate.responderConfirmation) m.envelope = .ok m.tag

theorem Message.signed_made [Native] {drawn : Nat} {t : Transcript} {kind : Kind} {sender : Number}
    {candidate : Candidate} {key : Binary 66} {m : Message}
    (signed : Message.signed drawn t kind sender candidate key = .ok m) :
    m.Made t kind sender candidate := by
  simp only [Message.signed, bind_ok, pure_ok] at signed
  obtain ⟨hash, hashed, found, shape, tag, tagged, signature, _, rfl⟩ := signed
  have read : found = kind := by
    simp only [validateShape, bind_ok, require_ok, pure_ok] at shape
    obtain ⟨read, typed, _, _, _, _, _, _, rfl⟩ := shape
    exact (Kind.code_injective (Kind.tryFrom_ok.mp typed)).symm
  subst read
  exact ⟨rfl, rfl, rfl, rfl, rfl, rfl, hashed, rfl, rfl, shape, fun propose => if_pos propose,
    tagged⟩

/-- What `authenticate` checks of a message against a transcript. -/
theorem Message.authenticate_ok [Native] {m : Message} {t : Transcript}
    (authentic : m.authenticate t = .ok ()) :
    m.initiatorId = t.initiatorId ∧ m.responderId = t.responderId ∧
      m.initiatorBundleId = t.initiator.bundleId ∧ m.responderBundleId = t.responder.bundleId ∧
      m.sequence = t.sequence ∧ m.exchangeId = t.exchangeId ∧
      Crypto.hash t.encode = .ok m.transcriptHash ∧ ∀ c, m.ciphertext = some c → c = t.ciphertext := by
  simp only [authenticate, bind_ok, require_ok] at authentic
  obtain ⟨_, _, _, ⟨-, initiatorId, responderId, initiator, responder, sequence, exchangeId⟩, hash,
    hashed, _, ⟨same, ciphertext, -⟩, -⟩ := authentic
  refine ⟨initiatorId, responderId, initiator, responder, sequence, exchangeId, same ▸ hashed, ?_⟩
  intro c present
  rw [present] at ciphertext
  exact of_decide_eq_true ciphertext

section Merge

variable [Native]

theorem Pending.mergeMessage_cases {p : Pending} {d d' : Decision} {m : Message}
    (merged : p.mergeMessage d m = .ok d') : d' = d ∨ ∃ kind, m.messageType = Kind.code kind ∧
      m.authenticate p.transcript = .ok () ∧ m.confirm p.candidate = .ok () ∧
      d.advance kind (m.senderId = p.transcript.initiatorId) = .ok d' := by
  simp only [mergeMessage, bind_ok] at merged
  obtain ⟨kind, shape, merged⟩ := merged
  split at merged
  · exact .inl (pure_ok.mp merged).symm
  · rename_i trial advanced
    simp only [bind_ok, pure_ok] at merged
    obtain ⟨_, authentic, _, confirmed, rfl⟩ := merged
    simp only [Message.validateShape, bind_ok, require_ok, pure_ok] at shape
    obtain ⟨read, typed, _, _, _, _, _, _, rfl⟩ := shape
    exact .inr ⟨read, Kind.tryFrom_ok.mp typed, authentic, confirmed, advanced⟩

theorem Pending.mergeMessages_preserves {P : Decision → Prop} (p : Pending)
    (messages : List Message)
    (step : ∀ m ∈ messages, ∀ kind d d', m.messageType = Kind.code kind →
      m.authenticate p.transcript = .ok () → m.confirm p.candidate = .ok () → P d →
      d.advance kind (m.senderId = p.transcript.initiatorId) = .ok d' → P d') :
    ∀ d, P d → P (p.mergeMessages messages d).2 := by
  induction messages with
  | nil => exact fun d holds => holds
  | cons m rest ih =>
    intro d holds
    unfold mergeMessages
    split
    · exact holds
    · rename_i d' merged
      have rest_step := ih fun m' member => step m' (List.mem_cons_of_mem m member)
      rcases mergeMessage_cases merged with rfl | ⟨kind, typed, authentic, confirmed, advanced⟩
      · exact rest_step d' holds
      · exact rest_step d' (step m (by simp) kind d d' typed authentic confirmed holds advanced)

/-- The rule for merging a record: what holds of the local decision holds of the merged one, if it
holds of a terminal decision taken over and is kept by every message of the peer. -/
theorem Pending.merged {P : Decision → Prop} {p : Pending} {other : Number}
    {remote : Option Exchange} (start : P p.decision)
    (copied : ∀ e, remote = some e → p.recordedIn e → e.decision.terminal = true →
      p.decision.terminal = false → P e.decision)
    (advanced : ∀ e, remote = some e → p.recordedIn e → ∀ m ∈ e.messages, m.senderId = other →
      ∀ kind d d', m.messageType = Kind.code kind → m.authenticate p.transcript = .ok () →
      m.confirm p.candidate = .ok () → P d →
      d.advance kind (other = p.transcript.initiatorId) = .ok d' → P d') :
    P (p.mergeRemote other remote).2 := by
  unfold mergeRemote
  split
  · exact start
  · rename_i e
    split
    · rename_i recorded
      split
      · rename_i taken
        exact copied e rfl recorded taken.1 taken.2
      · refine p.mergeMessages_preserves _ ?_ p.decision start
        intro m member kind d d' typed authentic confirmed holds step
        simp only [List.mem_filter, decide_eq_true_eq] at member
        rw [member.2] at step
        exact advanced e rfl recorded m member.1 member.2 kind d d' typed authentic confirmed holds
          step
    · exact start

end Merge

namespace EndpointState

variable [Native]

/-- This endpoint initiated the exchange. -/
def initiates (s : EndpointState) (p : Pending) : Bool := s.peerId = p.transcript.initiatorId

/-- The steps of `act` on a merged pending exchange. -/
inductive Act (s : EndpointState) (other : Number) (r : Relationship) (p : Pending) (now : Nat)
    (installer : Installer σ) (draws : Draws) (world : σ) :
    Except Error Action → Relationship → σ → Prop where
  | abandoned : p.decision.phase = .aborted →
      Act s other r p now installer draws world (.ok .none) { r with pending := none } world
  | held {result : Except Error Action} {world' : σ} : p.decision.phase ≠ .aborted →
      (result = .ok .none ∨ ∃ e, result = .error e) →
      installer.Asked r.remote world world' →
      Act s other r p now installer draws world result { r with pending := some p } world'
  | refused {e : Error} {world' : σ} : p.decision.phase = .committed → p.installed = false →
      installer.install r.remote p.candidate world = (.error e, world') →
      Act s other r p now installer draws world (.error .installer) { r with pending := some p }
        world'
  | committed {p' : Pending} {m : Message} : p.decision.phase = .ready → s.peerId < other →
      s.emit p .commit true draws = .ok (p', m) →
      Act s other r p now installer draws world (.ok (.send m)) { r with pending := some p' } world
  | installed {world' : σ} {p' : Pending} {m : Message} : p.decision.phase = .committed →
      p.installed = false → (¬ s.peerId < other ∨ p.decision.installed.responder = true) →
      installer.install r.remote p.candidate world = (.ok (), world') →
      s.emit { p with installed := true } .installed (s.initiates p) draws = .ok (p', m) →
      Act s other r p now installer draws world (.ok (.send m)) { r with pending := some p' } world'
  | noted {world' : σ} {e : Error} : p.decision.phase = .committed → p.installed = false →
      installer.install r.remote p.candidate world = (.ok (), world') →
      Act s other r p now installer draws world (.error e)
        { r with pending := some { p with installed := true } } world'
  | confirmed {world' : σ} {p' : Pending} {m : Message} : p.decision.phase = .committed →
      p.installed = true → p.confirmed = false →
      installer.handshakeFresh r.remote world = (.ok true, world') →
      s.emit { p with confirmed := true } .confirmed (s.initiates p) draws = .ok (p', m) →
      Act s other r p now installer draws world (.ok (.send m)) { r with pending := some p' } world'
  | unsigned {world' : σ} {e : Error} : p.decision.phase = .committed → p.installed = true →
      installer.handshakeFresh r.remote world = (.ok true, world') →
      Act s other r p now installer draws world (.error e)
        { r with pending := some { p with confirmed := true } } world'
  | completed {transcriptHash : Binary 32} : p.decision.phase = .complete →
      Crypto.hash p.transcript.encode = .ok transcriptHash →
      Act s other r p now installer draws world (.ok .complete)
        { r with
          confirmed := some {
            localBundleId := s.identity.bundle.bundleId
            remoteBundleId := r.remote.bundleId
            sequence := p.transcript.sequence
            exchangeId := p.transcript.exchangeId
            transcriptHash
            psk := p.candidate.psk
            completedAt := now }
          priorPq := true
          status := .confirmed
          pending := none } world

/-- The steps of `reconcile` on one relationship. -/
inductive Turn (s : EndpointState) (other : Number) (r : Relationship) (remote : Option Exchange)
    (now : Nat) (installer : Installer σ) (draws : Draws) (world : σ) :
    Except Error Action → Relationship → σ → Prop where
  | rested : r.gated = true ∨ r.status = .blocked ∨ s.enrollment = .retiring ∨ r.pending = none →
      Turn s other r remote now installer draws world (.ok .none) r world
  | failed {e : Error} : r.pending = none →
      Turn s other r remote now installer draws world (.error e) r world
  | spent {e : Error} {following : Number} : r.pending = none → r.sequence.next = .ok following →
      Turn s other r remote now installer draws world (.error e)
        { r with sequence := following } world
  | proposed {p : Pending} {m : Message} {following : Number} : r.pending = none →
      s.peerId < other → r.sequence.next = .ok following →
      s.openProposal other r draws = .ok (p, m) →
      Turn s other r remote now installer draws world (.ok (.send m))
        { r with sequence := following, pending := some p } world
  | answered {e : Exchange} {t : Transcript} {p : Pending} {m : Message} : r.pending = none →
      ¬ s.peerId < other → remote = some e → e.decision.phase = .proposed →
      e.transcript = some t → s.addressed other r t → s.openAnswer other r e t draws = .ok (p, m) →
      Turn s other r remote now installer draws world (.ok (.send m))
        { r with pending := some p } world
  | interrupted {p : Pending} {e : Error} {d : Decision} : r.pending = some p →
      p.mergeRemote other remote = (.error e, d) →
      Turn s other r remote now installer draws world (.error e)
        { r with pending := some { p with decision := d } } world
  | resent {p : Pending} {d : Decision} {m : Message} : r.pending = some p →
      p.mergeRemote other remote = (.ok (), d) →
      s.resends remote { p with decision := d } now = true → p.outbox.getLast? = some m →
      Turn s other r remote now installer draws world (.ok (.send m))
        { r with pending := some { p with decision := d } } world
  | acted {p : Pending} {d : Decision} {result : Except Error Action} {r' : Relationship}
      {world' : σ} : r.pending = some p → p.mergeRemote other remote = (.ok (), d) →
      (s.resends remote { p with decision := d } now = false ∨ p.outbox.getLast? = none) →
      Act s other r { p with decision := d } now installer draws world result r' world' →
      Turn s other r remote now installer draws world result r' world'

theorem queue_cases (s : EndpointState) (r : Relationship) (p : Pending) (kind : Kind)
    (initiator : Bool) (draws : Draws) :
    (∃ p' m, s.emit p kind initiator draws = .ok (p', m) ∧
      s.queue r p kind initiator draws = (.ok (.send m), { r with pending := some p' })) ∨
    ∃ e, s.queue r p kind initiator draws = (.error e, { r with pending := some p }) := by
  unfold queue
  split
  · exact .inr ⟨_, rfl⟩
  · rename_i p' m emitted
    exact .inl ⟨p', m, emitted, rfl⟩

theorem emit_ok {s : EndpointState} {p p' : Pending} {kind : Kind} {initiator : Bool}
    {draws : Draws} {m : Message} (emitted : s.emit p kind initiator draws = .ok (p', m)) :
    Message.signed draws.signature p.transcript kind s.peerId p.candidate s.identity.signing =
        .ok m ∧
      ∃ d, p.decision.advance kind initiator = .ok d ∧
        p' = { p with decision := d, outbox := p.outbox ++ [m], attempts := 0, nextRetryAt := 0 } := by
  simp only [emit, bind_ok, pure_ok, Prod.mk.injEq] at emitted
  obtain ⟨_, signed, d, advanced, rfl, rfl⟩ := emitted
  exact ⟨signed, d, advanced, rfl⟩

theorem act_cases {s : EndpointState} {other : Number} {r : Relationship} {p : Pending} {now : Nat}
    {installer : Installer σ} {draws : Draws} {world : σ} {result : Except Error Action}
    {r' : Relationship} {world' : σ}
    (acted : s.act other r p now installer draws world = (result, r', world')) :
    Act s other r p now installer draws world result r' world' := by
  unfold act at acted
  dsimp only at acted
  split at acted
  · rename_i phase
    cases acted
    exact .abandoned phase
  · rename_i phase
    cases acted
    exact .held (by simp [phase]) (.inl rfl) .unasked
  · rename_i phase
    split at acted
    · rename_i initiator
      simp only [Prod.mk.injEq] at acted
      obtain ⟨rfl, rfl, rfl⟩ := acted
      rcases s.queue_cases r p .commit true draws with ⟨p', m, emitted, same⟩ | ⟨e, same⟩
      · rw [same]
        exact .committed phase initiator emitted
      · rw [same]
        exact .held (by simp [phase]) (.inr ⟨e, rfl⟩) .unasked
    · cases acted
      exact .held (by simp [phase]) (.inl rfl) .unasked
  · rename_i phase
    have early : p.decision.phase ≠ .aborted := by simp [phase]
    unfold EndpointState.committed at acted
    dsimp only at acted
    split at acted
    · rename_i uninstalled
      split at acted
      · rename_i turn
        split at acted
        · rename_i e w refused
          cases acted
          exact .refused phase uninstalled refused
        · rename_i w installed
          simp only [Prod.mk.injEq] at acted
          obtain ⟨rfl, rfl, rfl⟩ := acted
          change Act s other r p now installer draws world
            (s.queue r { p with installed := true } .installed (s.initiates p) draws).1
            (s.queue r { p with installed := true } .installed (s.initiates p) draws).2 w
          rcases s.queue_cases r { p with installed := true } .installed (s.initiates p) draws with
            ⟨p', m, emitted, same⟩ | ⟨e, same⟩
          · rw [same]
            exact .installed phase uninstalled turn installed emitted
          · rw [same]
            exact .noted phase uninstalled installed
      · cases acted
        exact .held early (.inl rfl) .unasked
    · rename_i present
      rw [Bool.not_eq_false] at present
      split at acted
      · rename_i unconfirmed
        split at acted
        · rename_i e w unanswered
          cases acted
          exact .held early (.inr ⟨_, rfl⟩) (.waiting unanswered)
        · rename_i w stale
          cases acted
          exact .held early (.inl rfl) (.waiting stale)
        · rename_i w fresh
          simp only [Prod.mk.injEq] at acted
          obtain ⟨rfl, rfl, rfl⟩ := acted
          change Act s other r p now installer draws world
            (s.queue r { p with confirmed := true } .confirmed (s.initiates p) draws).1
            (s.queue r { p with confirmed := true } .confirmed (s.initiates p) draws).2 w
          rcases s.queue_cases r { p with confirmed := true } .confirmed (s.initiates p) draws with
            ⟨p', m, emitted, same⟩ | ⟨e, same⟩
          · rw [same]
            exact .confirmed phase present unconfirmed fresh emitted
          · rw [same]
            exact .unsigned phase present fresh
      · cases acted
        exact .held early (.inl rfl) .unasked
  · rename_i phase
    simp only [Prod.mk.injEq] at acted
    obtain ⟨rfl, rfl, rfl⟩ := acted
    unfold EndpointState.complete
    split
    · exact .held (by simp [phase]) (.inr ⟨_, rfl⟩) .unasked
    · rename_i transcriptHash hashed
      exact .completed phase hashed

theorem reconcileRelationship_turn {s : EndpointState} {other : Number} {r : Relationship}
    {remote : Option Exchange} {now rotationInterval idleTimeout : Nat} {installer : Installer σ}
    {draws : Draws} {world : σ} {result : Except Error Action} {r' : Relationship} {world' : σ}
    (done : s.reconcileRelationship other r remote now rotationInterval idleTimeout installer draws
      world = (result, r', world')) :
    Turn s other r remote now installer draws world result r' world' := by
  unfold reconcileRelationship at done
  split at done
  · rename_i closed
    cases done
    exact .rested (closed.imp_right fun rest => rest.imp_right .inl)
  split at done
  · rename_i p pending
    unfold proceed at done
    split at done
    · rename_i e d merged
      cases done
      exact .interrupted pending merged
    · rename_i d merged
      dsimp only at done
      split at done
      · rename_i m resends last
        cases done
        exact .resent pending merged resends last
      · rename_i other_
        refine .acted pending merged ?_ (act_cases done)
        by_contra both
        rw [not_or, Bool.not_eq_false] at both
        obtain ⟨m, last⟩ := Option.ne_none_iff_exists'.mp both.2
        exact other_ m both.1 last
  · rename_i pending
    split at done
    · rename_i initiator
      split at done
      · simp only [Prod.mk.injEq] at done
        obtain ⟨rfl, rfl, rfl⟩ := done
        unfold propose
        split
        · exact .failed pending
        · rename_i following next
          split
          · exact .spent pending next
          · rename_i p m opened
            exact .proposed pending initiator next opened
      · cases done
        exact .rested (.inr (.inr (.inr pending)))
    · rename_i responder
      simp only [Prod.mk.injEq] at done
      obtain ⟨rfl, rfl, rfl⟩ := done
      unfold answer
      split
      · exact .rested (.inr (.inr (.inr pending)))
      · rename_i e
        split
        · exact .rested (.inr (.inr (.inr pending)))
        · rename_i phase
          rw [not_not] at phase
          split
          · exact .rested (.inr (.inr (.inr pending)))
          · rename_i t transcript
            split
            · exact .rested (.inr (.inr (.inr pending)))
            · rename_i addressed
              rw [not_not] at addressed
              split
              · exact .failed pending
              · rename_i p m opened
                exact .answered pending responder rfl phase transcript addressed opened

/-- A call on a known peer is one turn of its relationship; every other relationship is left. -/
theorem reconcile_turn {s : EndpointState} {other : Number} {remote : Option Exchange}
    {now rotationInterval idleTimeout : Nat} {installer : Installer σ} {draws : Draws} {world : σ}
    {r : Relationship} (peer : other ≠ s.peerId ∧ other ≠ s.serverId)
    (known : s.relationship other = some r) : ∃ result r' world',
      s.reconcile other remote now rotationInterval idleTimeout installer draws world =
        (result, s.setRelationship other r', world') ∧
      Turn s other r remote now installer draws world result r' world' := by
  unfold reconcile
  rw [if_neg (not_or.mpr peer), known]
  exact ⟨_, _, _, rfl, reconcileRelationship_turn rfl⟩

end EndpointState

/-- An installer that answers as told and keeps what it was asked to install. -/
def Installer.answering (install : Except Error Unit) (fresh : Except Error Bool) :
    Installer (List (Bundle × Candidate)) where
  install b c calls := (install, calls ++ [(b, c)])
  handshakeFresh _ calls := (fresh, calls)

theorem Installer.Asked.calls {install : Except Error Unit} {fresh : Except Error Bool}
    {b : Bundle} {calls calls' : List (Bundle × Candidate)}
    (asked : (Installer.answering install fresh).Asked b calls calls') : calls' = calls := by
  cases asked with
  | unasked => rfl
  | waiting answered =>
    cases answered
    rfl

namespace EndpointState

variable [Native]

/-- An exchange stays what it is from turn to turn. -/
theorem emit_same {s : EndpointState} {p p' : Pending} {kind : Kind} {initiator : Bool}
    {draws : Draws} {m : Message} (emitted : s.emit p kind initiator draws = .ok (p', m)) :
    p'.transcript = p.transcript ∧ p'.candidate = p.candidate := by
  obtain ⟨-, _, -, rfl⟩ := emit_ok emitted
  exact ⟨rfl, rfl⟩

theorem Act.same {s : EndpointState} {other : Number} {r r' : Relationship} {p p' : Pending}
    {now : Nat} {installer : Installer σ} {draws : Draws} {world world' : σ}
    {result : Except Error Action}
    (act : Act s other r p now installer draws world result r' world')
    (pending : r'.pending = some p') :
    p'.transcript = p.transcript ∧ p'.candidate = p.candidate := by
  cases act with
  | abandoned => cases pending
  | held =>
    cases pending
    exact ⟨rfl, rfl⟩
  | refused =>
    cases pending
    exact ⟨rfl, rfl⟩
  | committed _ _ emitted =>
    cases pending
    exact emit_same emitted
  | installed _ _ _ _ emitted =>
    cases pending
    have same := emit_same emitted
    exact same
  | noted =>
    cases pending
    exact ⟨rfl, rfl⟩
  | confirmed _ _ _ _ emitted =>
    cases pending
    have same := emit_same emitted
    exact same
  | unsigned =>
    cases pending
    exact ⟨rfl, rfl⟩
  | completed => cases pending

/-- After a turn an exchange is the one that was pending, or one the turn has opened. -/
theorem Turn.same {s : EndpointState} {other : Number} {r r' : Relationship}
    {remote : Option Exchange} {now : Nat} {installer : Installer σ} {draws : Draws}
    {world world' : σ} {result : Except Error Action} {p' : Pending}
    (turn : Turn s other r remote now installer draws world result r' world')
    (pending : r'.pending = some p') :
    (∃ p, r.pending = some p ∧ p'.transcript = p.transcript ∧ p'.candidate = p.candidate) ∨
    (r.pending = none ∧ s.peerId < other ∧ ∃ m, s.openProposal other r draws = .ok (p', m) ∧
      result = .ok (.send m) ∧ r.sequence.next = .ok r'.sequence) ∨
    (r.pending = none ∧ ¬ s.peerId < other ∧ ∃ e t m, remote = some e ∧
      e.decision.phase = .proposed ∧ e.transcript = some t ∧ s.addressed other r t ∧
      s.openAnswer other r e t draws = .ok (p', m) ∧ result = .ok (.send m)) := by
  cases turn with
  | rested => exact .inl ⟨p', pending, rfl, rfl⟩
  | failed none =>
    rw [none] at pending
    cases pending
  | spent none =>
    dsimp only at pending
    rw [none] at pending
    cases pending
  | @proposed p m following none initiator next opened =>
    cases pending
    exact .inr (.inl ⟨none, initiator, m, opened, rfl, next⟩)
  | @answered e t p m none responder present phase transcript addressed opened =>
    cases pending
    exact .inr (.inr ⟨none, responder, e, t, m, present, phase, transcript, addressed, opened, rfl⟩)
  | @interrupted p e d before =>
    cases pending
    exact .inl ⟨p, before, rfl, rfl⟩
  | @resent p d m before =>
    cases pending
    exact .inl ⟨p, before, rfl, rfl⟩
  | @acted p d result r' w before _ _ act => exact .inl ⟨p, before, act.same pending⟩

theorem Turn.gated {s : EndpointState} {other : Number} {r r' : Relationship}
    {remote : Option Exchange} {now : Nat} {installer : Installer σ} {draws : Draws}
    {world world' : σ} {result : Except Error Action}
    (turn : Turn s other r remote now installer draws world result r' world') :
    r'.gated = r.gated := by
  cases turn with
  | acted _ _ _ act => cases act <;> rfl
  | _ => rfl

theorem Turn.remote {s : EndpointState} {other : Number} {r r' : Relationship}
    {remote : Option Exchange} {now : Nat} {installer : Installer σ} {draws : Draws}
    {world world' : σ} {result : Except Error Action}
    (turn : Turn s other r remote now installer draws world result r' world') :
    r'.remote = r.remote := by
  cases turn with
  | acted _ _ _ act => cases act <;> rfl
  | _ => rfl

/-- A turn asks for at most one candidate to be installed, that of the pending exchange. -/
theorem Turn.calls {s : EndpointState} {other : Number} {r r' : Relationship}
    {remote : Option Exchange} {now : Nat} {install : Except Error Unit}
    {fresh : Except Error Bool} {draws : Draws} {calls calls' : List (Bundle × Candidate)}
    {result : Except Error Action}
    (turn : Turn s other r remote now (.answering install fresh) draws calls result r' calls') :
    calls' = calls ∨ ∃ p, r.pending = some p ∧ calls' = calls ++ [(r.remote, p.candidate)] := by
  cases turn with
  | rested => exact .inl rfl
  | failed => exact .inl rfl
  | spent => exact .inl rfl
  | proposed => exact .inl rfl
  | answered => exact .inl rfl
  | interrupted => exact .inl rfl
  | resent => exact .inl rfl
  | @acted p d _ _ _ before _ _ act =>
    cases act with
    | abandoned => exact .inl rfl
    | held _ _ asked => exact .inl asked.calls
    | refused _ _ called =>
      cases called
      exact .inr ⟨p, before, rfl⟩
    | committed => exact .inl rfl
    | installed _ _ _ called =>
      cases called
      exact .inr ⟨p, before, rfl⟩
    | noted _ _ called =>
      cases called
      exact .inr ⟨p, before, rfl⟩
    | confirmed _ _ _ answered =>
      cases answered
      exact .inl rfl
    | unsigned _ _ answered =>
      cases answered
      exact .inl rfl
    | completed => exact .inl rfl

/-- What a responder answers is the proposal it is handed. -/
theorem openAnswer_ok {s : EndpointState} {other : Number} {r : Relationship} {e : Exchange}
    {t : Transcript} {draws : Draws} {p : Pending} {m : Message}
    (opened : s.openAnswer other r e t draws = .ok (p, m)) : ∃ candidate propose d,
      p = .opened t candidate d m ∧ propose ∈ e.messages ∧ propose.senderId = other ∧
      propose.messageType = Kind.propose.code ∧ propose.authenticate t = .ok () ∧
      propose.confirm candidate = .ok () ∧ Decision.default.advance .ready false = .ok d ∧
      Message.signed draws.signature t .ready s.peerId candidate s.identity.signing = .ok m ∧
      ∃ shared, Crypto.decapsulate t.ciphertext s.identity.hybridSecret = .ok shared ∧
        Crypto.derive shared.kem shared.x448 r.operatorPsk t.encode = .ok candidate := by
  simp only [openAnswer, bind_ok] at opened
  obtain ⟨shared, decapsulated, candidate, derived, opened⟩ := opened
  split at opened
  · cases opened
  · rename_i propose found
    simp only [bind_ok, pure_ok, Prod.mk.injEq] at opened
    obtain ⟨_, authentic, _, confirmed, d, advanced, _, signed, rfl, rfl⟩ := opened
    have picked := List.find?_some found
    simp only [decide_eq_true_eq] at picked
    exact ⟨candidate, propose, d, rfl, List.mem_of_find?_eq_some found, picked.1, picked.2,
      authentic, confirmed, advanced, signed, shared, decapsulated, derived⟩

theorem openProposal_ok {s : EndpointState} {other : Number} {r : Relationship} {draws : Draws}
    {p : Pending} {m : Message} (opened : s.openProposal other r draws = .ok (p, m)) :
    ∃ t candidate, p = .opened t candidate .default m ∧
      Message.signed draws.signature t .propose s.peerId candidate s.identity.signing = .ok m ∧
      draws.exchangeId = .ok t.exchangeId ∧ t.networkId = s.networkId ∧ t.initiatorId = s.peerId ∧
      t.responderId = other ∧ t.initiator = s.identity.bundle ∧ t.responder = r.remote ∧
      t.sequence = r.sequence ∧ ∃ shared, Native.pqHybridEnc draws.encapsulation
          ⟨r.remote.pqKemPublicKey, r.remote.pqX448PublicKey⟩ = some (t.ciphertext, shared) ∧
        Crypto.derive shared.kem shared.x448 r.operatorPsk t.encode = .ok candidate := by
  simp only [openProposal, bind_ok] at opened
  obtain ⟨exchangeId, drawn, ⟨ciphertext, shared⟩, encapsulated, opened⟩ := opened
  simp only [pure_ok, Prod.mk.injEq] at opened
  generalize made : Transcript.mk s.networkId s.peerId other s.identity.bundle r.remote r.sequence
    exchangeId r.operatorPskId ciphertext = t at opened
  obtain ⟨candidate, derived, _, signed, rfl, rfl⟩ := opened
  simp only [Crypto.encapsulate, bind_ok, invoke_ok] at encapsulated
  obtain ⟨_, _, encapsulated⟩ := encapsulated
  subst made
  exact ⟨_, candidate, rfl, signed, drawn, rfl, rfl, rfl, rfl, rfl, rfl, shared, encapsulated,
    derived⟩

end EndpointState

end Innernet
