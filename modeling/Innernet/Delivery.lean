import Innernet.Pair

/-! What each side of an exchange has done by the time the other goes on: a receipt it acts on is
recorded at the server, and the key was given to the kernel whose side the receipt is. -/
namespace Innernet

open Fallible Tables Runs

namespace Pending.Tracked

variable {heard : Kind → Prop} {gone done evident : Prop} {side : Bool} {p p' : Pending}

/-- An exchange as it is opened, with its first message. -/
theorem opened {t : Transcript} {candidate : Candidate} {d : Decision} {m : Message} {kind : Kind}
    (valid : d.Valid) (typed : m.messageType = kind.code) (first : kind = .propose ∨ kind = .ready)
    (script : d.script side = [kind]) (quiet : ∀ k, d.has k (!side) = false)
    (early : d.phase = .proposed ∨ d.phase = .ready) (evidence : evident) :
    (Pending.opened t candidate d m).Tracked heard gone done evident side where
  valid := valid
  heard k has := by
    have never := quiet k
    rw [show d.has k (!side) = true from has] at never
    cases never
  aborted phase := by
    have phase : d.phase = .aborted := phase
    simp [phase] at early
  shaped _ := by
    refine .inl ?_
    change [m.messageType] = (d.script side).map Kind.code
    rw [script, typed]
    rfl
  evident _ := evidence
  installed m' member late := by
    rw [Pending.opened, List.mem_singleton] at member
    subst member
    rw [typed] at late
    rcases late with same | same
    · rcases first with rfl | rfl <;> cases Kind.code_injective same
    · rcases first with rfl | rfl <;> cases Kind.code_injective same
  confirmed m' member late := by
    rw [Pending.opened, List.mem_singleton] at member
    subst member
    rw [typed] at late
    rcases first with rfl | rfl <;> cases Kind.code_injective late

/-- One's own message, once it is signed and the decision advanced by it. -/
theorem emitted [Native] {s : EndpointState} {kind : Kind} {draws : Draws} {m : Message}
    (tracked : p.Tracked heard gone done evident side) (evidence : evident)
    (emitted : s.emit p kind side draws = .ok (p', m)) (later : kind.Later)
    (running : p.decision.phase ≠ .complete) (new : p.decision.has kind side = false)
    (flagged : kind = .installed ∨ kind = .confirmed → p.installed = true)
    (vouched : kind = .confirmed → p.confirmed = true) :
    p'.Tracked heard gone done evident side := by
  obtain ⟨signed, d, advanced, rfl⟩ := EndpointState.emit_ok emitted
  have typed : m.messageType = kind.code := (Message.signed_made signed).messageType
  have regular : kind ≠ .abort := by
    rcases later with rfl | rfl | rfl <;> simp
  have unready : kind ≠ .ready := by
    rcases later with rfl | rfl | rfl <;> simp
  have code : ∀ {k : Kind}, m.messageType = k.code → kind = k := fun same =>
    Kind.code_injective (typed.symm.trans same)
  have alive : p.decision.phase ≠ .aborted := by
    intro phase
    rcases Decision.advance_cases advanced with ⟨-, -, same, -⟩ | ⟨-, -, same, -⟩ |
      ⟨-, -, same, -⟩ | ⟨-, same, -⟩ | ⟨-, same, -⟩ <;> simp_all
  have unaborted : d.phase ≠ .aborted := by
    rcases Decision.advance_cases advanced with ⟨-, -, -, rfl⟩ | ⟨-, -, -, rfl⟩ | ⟨rfl, -⟩ |
      ⟨-, phase, -, rfl⟩ | ⟨-, phase, -, rfl⟩
    · simp
    · simp
    · exact absurd rfl regular
    · simp [phase]
    · dsimp only
      split <;> simp
  have script : p.outbox.map Message.messageType = (p.decision.script side).map Kind.code := by
    rcases tracked.shaped alive with same | ⟨phase, -⟩
    · exact same
    · exact absurd phase running
  constructor
  · exact tracked.valid.advance advanced
  · intro k has
    have has : d.has k (!side) = true := has
    rw [Decision.has_advance advanced regular, Bool.or_eq_true, decide_eq_true_eq] at has
    rcases has with old | ⟨-, same⟩
    · exact tracked.heard k old
    · cases side <;> cases same
  · exact fun phase => absurd phase unaborted
  · intro _
    refine .inl ?_
    change (p.outbox ++ [m]).map Message.messageType = (d.script side).map Kind.code
    rw [Decision.script_own tracked.valid advanced regular unready new, List.map_append,
      List.map_append, script, List.map_singleton, List.map_singleton, typed]
  · exact fun _ => evidence
  · intro m' member late
    have member : m' ∈ p.outbox ++ [m] := member
    rw [List.mem_append, List.mem_singleton] at member
    rcases member with old | rfl
    · exact tracked.installed m' old late
    · exact flagged (late.imp code code)
  · intro m' member late
    have member : m' ∈ p.outbox ++ [m] := member
    rw [List.mem_append, List.mem_singleton] at member
    rcases member with old | rfl
    · exact tracked.confirmed m' old late
    · exact vouched (code late)

/-- The part of the decision that is one's own stands in the queue. -/
theorem unflagged (tracked : p.Tracked heard gone done evident side)
    (phase : p.decision.phase = .committed) :
    (p.installed = false → p.decision.has .installed side = false) ∧
      (p.confirmed = false → p.decision.has .confirmed side = false) := by
  have alive : p.decision.phase ≠ .aborted := by simp [phase]
  constructor
  · intro uninstalled
    by_contra has
    rw [Bool.not_eq_false] at has
    rcases tracked.queued alive (.inr (.inr (.inl rfl))) has with ⟨m, member, typed⟩ | ⟨ended, -⟩
    · rw [tracked.installed m member (.inl typed)] at uninstalled
      cases uninstalled
    · rw [phase] at ended
      cases ended
  · intro unconfirmed
    by_contra has
    rw [Bool.not_eq_false] at has
    rcases tracked.queued alive (.inr (.inr (.inr rfl))) has with ⟨m, member, typed⟩ | ⟨ended, -⟩
    · rw [tracked.confirmed m member typed] at unconfirmed
      cases unconfirmed
    · rw [phase] at ended
      cases ended

/-- Noting that the key is installed, or the tunnel up. -/
theorem noted (tracked : p.Tracked heard gone done evident side) {installed confirmed : Bool}
    (more : p.installed = true → installed = true) (more' : p.confirmed = true → confirmed = true) :
    ({ p with installed, confirmed } : Pending).Tracked heard gone done evident side where
  valid := tracked.valid
  heard := tracked.heard
  aborted := tracked.aborted
  shaped := tracked.shaped
  evident := tracked.evident
  installed m member late := more (tracked.installed m member late)
  confirmed m member late := more' (tracked.confirmed m member late)

/-- A call keeps track of an exchange that it finds and leaves pending. -/
theorem moved [Native] {c : Call} {s : EndpointState} {r : Relationship}
    {result : Except Error Action} {calls : List (Bundle × Candidate)}
    (tracked : p.Tracked heard gone done evident side) (evidence : evident)
    (moved : c.Moved s r p result p' calls) (initiates : s.initiates p = side)
    (less : s.peerId < c.other → side = true) : p'.Tracked heard gone done evident side := by
  cases moved with
  | kept => exact tracked
  | noted => exact tracked.noted (fun _ => rfl) id
  | unsigned => exact tracked.noted id (fun _ => rfl)
  | committed phase initiator emit =>
    obtain rfl : side = true := less initiator
    refine tracked.emitted evidence emit (.inl rfl) (by simp [phase]) ?_ (by simp) (by simp)
    simp [Decision.has, phase]
  | installed phase uninstalled _ emit =>
    have flagged : ({ p with installed := true } : Pending).Tracked heard gone done evident side :=
      tracked.noted (fun _ => rfl) id
    rw [initiates] at emit
    refine flagged.emitted evidence emit (.inr (.inl rfl)) (by simp [phase]) ?_ (fun _ => rfl) (by simp)
    exact (tracked.unflagged phase).1 uninstalled
  | confirmed phase installed unconfirmed _ _ emit =>
    have flagged : ({ p with confirmed := true } : Pending).Tracked heard gone done evident side :=
      tracked.noted id (fun _ => rfl)
    rw [initiates] at emit
    refine flagged.emitted evidence emit (.inr (.inr rfl)) (by simp [phase]) ?_ (fun _ => installed)
      (fun _ => rfl)
    exact (tracked.unflagged phase).2 unconfirmed

end Pending.Tracked

namespace EndpointState

variable [Native] {c : Call} {s : EndpointState} {r r' : Relationship} {result : Except Error Action}
  {calls : List (Bundle × Candidate)}

/-- The pending exchange is marked installed only once `install` has answered for its key. -/
theorem Turn.flagged
    (turn : Turn s c.other r c.remote c.now (.answering c.install c.fresh) c.draws [] result r' calls)
    {p p' : Pending} (before : r.pending = some p) (pending : r'.pending = some p')
    (installed : p'.installed = true) : p.installed = true ∨
      (c.install.isOk = true ∧ calls = [(r.remote, p.candidate)]) := by
  have answered : ∀ {b : Bundle} {k : Candidate},
      (Installer.answering c.install c.fresh).install b k [] = (.ok (), calls) →
      c.install.isOk = true ∧ calls = [(b, k)] := by
    intro b k called
    obtain ⟨ok, rfl⟩ := Prod.mk.inj called
    exact ⟨by rw [ok]; rfl, rfl⟩
  cases turn with
  | rested =>
    rw [before] at pending
    cases pending
    exact .inl installed
  | failed none => rw [before] at none; cases none
  | spent none => rw [before] at none; cases none
  | proposed none => rw [before] at none; cases none
  | answered none => rw [before] at none; cases none
  | interrupted there =>
    cases pending
    rw [before] at there
    cases there
    exact .inl installed
  | resent there =>
    cases pending
    rw [before] at there
    cases there
    exact .inl installed
  | acted there _ _ act =>
    rw [before] at there
    cases there
    cases act with
    | abandoned => cases pending
    | held =>
      cases pending
      exact .inl installed
    | refused =>
      cases pending
      exact .inl installed
    | committed _ _ emitted =>
      cases pending
      obtain ⟨-, _, -, rfl⟩ := emit_ok emitted
      exact .inl installed
    | installed _ _ _ called =>
      cases pending
      exact .inr (answered called)
    | noted _ _ called =>
      cases pending
      exact .inr (answered called)
    | confirmed _ _ _ _ emitted =>
      cases pending
      obtain ⟨-, _, -, rfl⟩ := emit_ok emitted
      exact .inl installed
    | unsigned =>
      cases pending
      exact .inl installed
    | completed => cases pending

/-- What is confirmed is what was, or the pending exchange once its decision is complete. -/
theorem Turn.settled
    (turn : Turn s c.other r c.remote c.now (.answering c.install c.fresh) c.draws [] result r' calls) :
    r'.confirmed = r.confirmed ∨ ∃ p f, r.pending = some p ∧ r'.confirmed = some f ∧
      (p.takes c.other c.remote).decision.phase = .complete ∧
      f.exchangeId = p.transcript.exchangeId ∧ f.psk = p.candidate.psk := by
  cases turn with
  | @acted p d _ _ _ before merged _ act =>
    have shape : p.takes c.other c.remote = { p with decision := d } := by rw [Pending.takes, merged]
    cases act with
    | completed phase => exact .inr ⟨p, _, before, rfl, by rw [shape]; exact phase, rfl, rfl⟩
    | _ => exact .inl rfl
  | _ => exact .inl rfl

/-- A call that goes on where the retry was due found the last message recorded. -/
theorem rests_sent {other : Number} {remote : Option Exchange} {p : Pending} {now : Nat}
    {last : Message} (rests : s.resends remote (p.takes other remote) now = false ∨
      p.outbox.getLast? = none)
    (running : (p.takes other remote).decision.phase ≠ .aborted) (due : p.nextRetryAt ≤ now)
    (queued : p.outbox.getLast? = some last) : durablySent remote p s.peerId = true := by
  rw [queued] at rests
  by_contra unsent
  rw [Bool.not_eq_true] at unsent
  have unsent : durablySent remote (p.takes other remote) s.peerId = false := unsent
  have due : (p.takes other remote).nextRetryAt ≤ now := due
  simp [resends, running, unsent, due] at rests

/-- A call that completes an exchange has the last message sent. -/
theorem Turn.finished
    (turn : Turn s c.other r c.remote c.now (.answering c.install c.fresh) c.draws [] result r' calls)
    {p : Pending} (before : r.pending = some p) (complete : result = .ok .complete) :
    (p.takes c.other c.remote).decision.phase = .complete ∧
      (s.resends c.remote (p.takes c.other c.remote) c.now = false ∨ p.outbox.getLast? = none) := by
  cases turn with
  | rested => cases complete
  | failed => cases complete
  | spent => cases complete
  | proposed => cases complete
  | answered => cases complete
  | interrupted => cases complete
  | resent => cases complete
  | @acted q d _ _ _ there merged rests act =>
    rw [before] at there
    cases there
    have shape : p.takes c.other c.remote = { p with decision := d } := by rw [Pending.takes, merged]
    rw [shape]
    cases act with
    | completed phase => exact ⟨phase, rests⟩
    | held _ quiet =>
      rcases quiet with rfl | ⟨e, rfl⟩
      · cases complete
      · cases complete
    | _ => cases complete

/-- A message is queued only by a call that does not send the last one again. -/
theorem Turn.extends
    (turn : Turn s c.other r c.remote c.now (.answering c.install c.fresh) c.draws [] result r' calls)
    {p p' : Pending} (before : r.pending = some p) (pending : r'.pending = some p') :
    p'.outbox = p.outbox ∨ ((∃ m, p'.outbox = p.outbox ++ [m]) ∧
      (p.takes c.other c.remote).decision.terminal = false ∧
      (s.resends c.remote (p.takes c.other c.remote) c.now = false ∨ p.outbox.getLast? = none)) := by
  cases turn with
  | rested =>
    rw [before] at pending
    cases pending
    exact .inl rfl
  | failed none => rw [before] at none; cases none
  | spent none => rw [before] at none; cases none
  | proposed none => rw [before] at none; cases none
  | answered none => rw [before] at none; cases none
  | interrupted there =>
    cases pending
    rw [before] at there
    cases there
    exact .inl rfl
  | resent there =>
    cases pending
    rw [before] at there
    cases there
    exact .inl rfl
  | @acted q d _ _ _ there merged rests act =>
    rw [before] at there
    cases there
    have shape : p.takes c.other c.remote = { p with decision := d } := by rw [Pending.takes, merged]
    rw [shape]
    have extended : ∀ {q : Pending} {kind : Kind} {side : Bool} {m : Message},
        s.emit q kind side c.draws = .ok (p', m) → q.outbox = p.outbox →
        ∃ m, p'.outbox = p.outbox ++ [m] := by
      intro q kind side m emitted outbox
      exact ⟨m, outbox ▸ (emit_type emitted).2⟩
    cases act with
    | abandoned => cases pending
    | held => cases pending; exact .inl rfl
    | refused => cases pending; exact .inl rfl
    | committed phase _ emitted =>
      cases pending
      have phase : d.phase = .ready := phase
      exact .inr ⟨extended emitted rfl, by simp [Decision.terminal, phase], rests⟩
    | installed phase _ _ _ emitted =>
      cases pending
      have phase : d.phase = .committed := phase
      exact .inr ⟨extended emitted rfl, by simp [Decision.terminal, phase], rests⟩
    | noted => cases pending; exact .inl rfl
    | confirmed phase _ _ _ emitted =>
      cases pending
      have phase : d.phase = .committed := phase
      exact .inr ⟨extended emitted rfl, by simp [Decision.terminal, phase], rests⟩
    | unsigned => cases pending; exact .inl rfl
    | completed => cases pending

end EndpointState

theorem Revised.confirmed_kept [Native] {s : EndpointState} {other : Number}
    {r r' : Relationship} {u : Upkeep} (revised : Revised s other r u r') {f : Confirmed}
    (confirmed : r'.confirmed = some f) : r.confirmed = some f := by
  cases revised with
  | observed =>
    rw [EndpointState.settle_confirmed] at confirmed
    exact confirmed
  | retired => cases confirmed
  | _ => exact confirmed

/-- A call that leaves an exchange pending adds none of the other side's receipts. -/
theorem Call.Moved.theirs [Native] {c : Call} {s : EndpointState} {r : Relationship} {p p' : Pending}
    {result : Except Error Action} {calls : List (Bundle × Candidate)} {side : Bool}
    (moved : c.Moved s r p result p' calls) (initiates : s.initiates p = side)
    (less : s.peerId < c.other → side = true) {k : Kind} :
    p'.decision.has k (!side) = p.decision.has k (!side) := by
  have emits : ∀ {q : Pending} {kind : Kind} {m : Message},
      s.emit q kind side c.draws = .ok (p', m) → kind.Later → q.decision = p.decision →
      p'.decision.has k (!side) = p.decision.has k (!side) := by
    intro q kind m emitted later same
    obtain ⟨-, d, advanced, rfl⟩ := EndpointState.emit_ok emitted
    have regular : kind ≠ .abort := by
      rcases later with rfl | rfl | rfl <;> simp
    rw [Decision.has_advance advanced regular, same]
    cases side <;> simp
  cases moved with
  | kept => rfl
  | noted => rfl
  | unsigned => rfl
  | committed _ initiator emitted =>
    obtain rfl := less initiator
    exact emits emitted (.inl rfl) rfl
  | installed _ _ _ emitted =>
    rw [initiates] at emitted
    exact emits emitted (.inr (.inl rfl)) rfl
  | confirmed _ _ _ _ _ emitted =>
    rw [initiates] at emitted
    exact emits emitted (.inr (.inr rfl)) rfl

/-- A message of a record is one of its receipts. -/
theorem Exchange.WellFormed.receipt [Native] {e : Exchange} {m : Message} {kind : Kind} {side : Bool}
    (formed : e.WellFormed) (member : m ∈ e.messages) (sender : m.senderId = e.side side)
    (typed : m.messageType = kind.code) : e.received kind side := by
  have live : e.decision.terminal = false := by
    by_contra ended
    rw [Bool.not_eq_false] at ended
    rw [(formed.compacted ended).2] at member
    cases member
  obtain ⟨t, bodies⟩ := formed.live live
  have digests := bodies.digests
  rw [Exchange.received]
  generalize e.messages = messages at member digests
  generalize e.receipts = receipts at digests
  induction digests with
  | nil => cases member
  | @cons m' d rest rest' digested _ ih =>
    rcases List.mem_cons.mp member with rfl | member
    · obtain ⟨sender', typed'⟩ := MessageDigest.of_ok digested
      exact ⟨d, List.mem_cons_self, sender'.trans sender, typed'.trans typed⟩
    · obtain ⟨d', listed, same⟩ := ih member
      exact ⟨d', List.mem_cons_of_mem d listed, same⟩

namespace Ledger

variable [Native] {l : Ledger} {n : ExchangeName}

theorem Stands.both {P Q : Exchange → Prop} (inv : l.Inv) (first : l.Stands n P)
    (second : l.Stands n Q) : l.Stands n fun r => P r ∧ Q r := by
  rcases first with retired | retired | ⟨k, r, found, initiator, responder, holds⟩
  · exact .inl retired
  · exact .inr (.inl retired)
  rcases second with retired | retired | ⟨k', r', found', initiator', responder', holds'⟩
  · exact .inl retired
  · exact .inr (.inl retired)
  obtain rfl := inv.same found found' (initiator.trans initiator'.symm)
    (responder.trans responder'.symm)
  obtain rfl := Option.some.inj (found.symm.trans found')
  refine .inr (.inr ⟨k, r, found, initiator, responder, ?_⟩)
  rcases holds with newer | ⟨sequence, exchangeId, ended | here⟩
  · exact .inl newer
  · exact .inr ⟨sequence, exchangeId, .inl ended⟩
  · rcases holds' with newer | ⟨-, -, ended | there⟩
    · exact .inl newer
    · exact .inr ⟨sequence, exchangeId, .inl ended⟩
    · exact .inr ⟨sequence, exchangeId, .inr ⟨here, there⟩⟩

/-- An exchange that both have confirmed is over. -/
theorem Recorded.closed (inv : l.Inv) (recorded : ∀ side, l.Recorded n .confirmed side) :
    l.Closed n := by
  refine Stands.mono inv (Stands.both inv (recorded true) (recorded false)) ?_
  rintro r formed live ⟨initiator, responder⟩
  have running : r.decision.phase ≠ .aborted := by
    intro aborted
    simp [Decision.terminal, aborted] at live
  have confirmed := fun side received =>
    (formed.accounted .confirmed side (by simp) (.inl running)).mpr received
  have first : r.decision.confirmed.get true = true := confirmed true initiator
  have second : r.decision.confirmed.get false = true := confirmed false responder
  have installed := formed.valid.ordered true first
  rcases shape : r.decision with ⟨phase, confirms, installs⟩
  have early := formed.valid.early
  have unfinished := formed.valid.unfinished
  rw [shape] at live first second installed early unfinished
  cases phase with
  | proposed => simp [early (.inl rfl) true] at installed
  | ready => simp [early (.inr rfl) true] at installed
  | committed =>
    refine absurd ?_ (unfinished rfl)
    rcases installs with ⟨a, b⟩
    simp_all [Flags.get]
  | complete => cases live
  | aborted => cases live

/-- With the last message of a script all that stand before it are recorded. -/
theorem Recorded.script (inv : l.Inv) {d : Decision} {side : Bool} {kind kind' : Kind}
    (last : (d.script side).getLast? = some kind) (recorded : l.Recorded n kind side)
    (listed : kind' ∈ d.script side) : l.Recorded n kind' side := by
  have installed : l.Recorded n .confirmed side → l.Recorded n .installed side :=
    fun recorded => recorded.prior inv rfl
  have committed : l.Recorded n .installed side → l.Recorded n .commit true := by
    intro recorded
    cases side with
    | true =>
      have first : l.Recorded n .installed false := recorded.prior inv rfl
      exact first.prior inv rfl
    | false => exact recorded.prior inv rfl
  have answered : l.Recorded n .commit true → l.Recorded n .ready false :=
    fun recorded => recorded.prior inv rfl
  have proposed := recorded.proposed inv
  cases side with
  | true =>
    have never : d.has .ready true = false := rfl
    cases commit : d.has .commit true <;> cases install : d.has .installed true <;>
      cases confirm : d.has .confirmed true <;>
      simp [Decision.script, never, commit, install, confirm] at last listed <;> grind
  | false =>
    have never : d.has .commit false = false := rfl
    cases ready : d.has .ready false <;> cases install : d.has .installed false <;>
      cases confirm : d.has .confirmed false <;>
      simp [Decision.script, never, ready, install, confirm] at last listed <;> grind

end Ledger

theorem Decision.script_confirmed {d : Decision} {side : Bool} (has : d.has .confirmed side = true) :
    (d.script side).getLast? = some .confirmed := by
  rw [script, List.filter_cons, List.filter_cons, List.filter_cons, List.filter_cons, if_pos has]
  cases side <;> simp <;> grind

namespace Pair

variable [Native] {t t' : Pair} {side : Bool} {s : EndpointState} {p : Pending} {e : Exchange}

/-- A side's kernel was given the key of the exchange of this name. -/
def Keyed (t : Pair) (side : Bool) (n : ExchangeName) : Prop :=
  ∃ q m, (q, m) ∈ t.couple.proposals ∧ q.transcript.name = n ∧ q.candidate ∈ t.installed side

/-- How far a pending exchange is, against what the server holds now and both kernels were given. -/
structure Followed (t : Pair) (side : Bool) (p : Pending) : Prop where
  tracked : p.Tracked (fun kind => t.server.view.Recorded p.transcript.name kind (!side))
    (t.server.view.Closed p.transcript.name)
    (t.server.view.Closed p.transcript.name ∧ t.Keyed side p.transcript.name) True side
  keyed : p.installed = true → t.Keyed side p.transcript.name
  heard : p.decision.has .installed (!side) = true → t.Keyed (!side) p.transcript.name

/-- A side has confirmed an exchange, in its memory or as saved. -/
def Confirms (t : Pair) (side : Bool) (f : Confirmed) : Prop :=
  ∃ s r, t.Current side s ∧ s.relationship (t.other side) = some r ∧ r.confirmed = some f

structure Course (t : Pair) : Prop where
  followed : ∀ side s, t.Current side s → ∀ p, s.pendingWith (t.other side) = some p →
    t.Followed side p
  mailed : ∀ side, ∀ m ∈ t.mail side, m.messageType = Kind.installed.code → t.Keyed side m.name
  confirmed : ∀ side f, t.Confirms side f → ∃ q m, (q, m) ∈ t.couple.proposals ∧
    f.exchangeId = q.transcript.exchangeId ∧ f.psk = q.candidate.psk ∧
    ∀ side', t.Keyed side' q.transcript.name
  recorded : ∀ db ∈ t.served, ∀ n kind side, db.view.Recorded n kind side →
    t.server.view.Recorded n kind side
  closed : ∀ db ∈ t.served, ∀ n, db.view.Closed n → t.server.view.Closed n

omit [Native] in
theorem Keyed.named {n : ExchangeName} (keyed : t.Keyed side n) {q : Pending} {m : Message}
    (distinct : ∀ q q', t.couple.Proposed q → t.couple.Proposed q' →
      q.transcript.exchangeId = q'.transcript.exchangeId → q = q')
    (offered : (q, m) ∈ t.couple.proposals) (name : n.exchangeId = q.transcript.exchangeId) :
    q.candidate ∈ t.installed side := by
  obtain ⟨q', m', offered', rfl, given⟩ := keyed
  rw [← distinct q' q ⟨m', offered'⟩ ⟨m, offered⟩ name]
  exact given

theorem Keyed.kept {side' : Bool} {d : Deed} {n : ExchangeName}
    (kept : Sound.Kept t t' side d) (keyed : t.Keyed side' n) : t'.Keyed side' n := by
  obtain ⟨q, m, offered, name, given⟩ := keyed
  exact ⟨q, m, kept.offers.1 _ offered, name, kept.installed side' _ given⟩

omit [Native] in
theorem Followed.grow (followed : t.Followed side p)
    (server : ∀ kind, t.server.view.Recorded p.transcript.name kind (!side) →
      t'.server.view.Recorded p.transcript.name kind (!side))
    (closed : t.server.view.Closed p.transcript.name → t'.server.view.Closed p.transcript.name)
    (keyed : ∀ side', t.Keyed side' p.transcript.name → t'.Keyed side' p.transcript.name) :
    t'.Followed side p where
  tracked := followed.tracked.mono server closed (.imp closed (keyed side)) id
  keyed installed := keyed side (followed.keyed installed)
  heard has := keyed (!side) (followed.heard has)

theorem Followed.kept {side' : Bool} {d : Deed} (followed : t.Followed side' p)
    (kept : Sound.Kept t t' side d) : t'.Followed side' p := by
  refine followed.grow ?_ ?_ fun _ => Keyed.kept kept
  · rw [kept.server]
    exact fun _ => id
  · rw [kept.server]
    exact id

/-- An exchange that a call opens. -/
theorem Followed.opened {c : Call} {r r' : Relationship} {m : Message} (opened : c.Opened s r r' p m)
    (turn : side = true ↔ s.peerId < c.other) : t.Followed side p := by
  cases opened with
  | proposed initiator _ opened =>
    obtain rfl := turn.mpr initiator
    obtain ⟨x, candidate, rfl, signed, -⟩ := EndpointState.openProposal_ok opened
    have quiet := fun kind => Decision.default_has kind false
    refine ⟨.opened Decision.default_valid (Message.signed_made signed).messageType (.inl rfl) rfl
      quiet (.inl rfl) trivial, fun installed => ?_, fun has => ?_⟩
    · cases installed
    · cases has
  | answered responder _ _ _ _ opened =>
    have last : side = false := by
      rw [← Bool.not_eq_true, turn]
      exact responder
    subst last
    obtain ⟨candidate, propose, d, rfl, -, -, -, -, -, advanced, signed, -⟩ :=
      EndpointState.openAnswer_ok opened
    have valid := Decision.default_valid.advance advanced
    obtain rfl : d = { Decision.default with phase := .ready } := (Except.ok.inj advanced).symm
    refine ⟨.opened valid (Message.signed_made signed).messageType (.inr rfl) rfl
      (fun kind => ?_) (.inr rfl) trivial, fun installed => ?_, fun has => ?_⟩
    · cases kind <;> rfl
    · cases installed
    · cases has

omit [Native] in
/-- A decision is complete only once both kernels have the key. -/
theorem Followed.completed (followed : t.Followed side p) (phase : p.decision.phase = .complete) :
    ∀ side', t.Keyed side' p.transcript.name := by
  have installed : ∀ side', p.decision.has .installed side' = true := fun side' =>
    followed.tracked.valid.ordered side' (followed.tracked.valid.complete phase side')
  have theirs := followed.heard (installed (!side))
  have running : p.decision.phase ≠ .aborted := by simp [phase]
  have ours : t.Keyed side p.transcript.name := by
    rcases followed.tracked.queued running (.inr (.inr (.inl rfl))) (installed side) with
      ⟨m, member, typed⟩ | ⟨-, -, keyed⟩
    · exact followed.keyed (followed.tracked.installed m member (.inl typed))
    · exact keyed
  intro side'
  by_cases here : side' = side
  · exact here ▸ ours
  · have there : side' = !side := by cases side <;> cases side' <;> simp_all
    exact there ▸ theirs

namespace Sound

/-- The two sides of a record that was read. -/
theorem seen (sound : t.Sound) (shown : t.Shown e) (side : Bool) : e.side side = t.self side := by
  obtain ⟨initiator, responder, -⟩ := sound.shown shown
  cases side with
  | true => exact initiator
  | false => exact responder

/-- A receipt was put by the side it is of. -/
theorem sent (sound : t.Sound) (shown : t.Shown e) {kind : Kind} (received : e.received kind side) :
    ∃ m ∈ t.mail side, m.name = e.name ∧ m.messageType = kind.code := by
  obtain ⟨-, -, fed, -⟩ := sound.shown shown
  obtain ⟨d, member, sender, typed⟩ := received
  obtain ⟨m, put, name, -, digested⟩ := fed.receipts d member
  obtain ⟨sender', typed'⟩ := MessageDigest.of_ok digested
  have mine : m.senderId = t.self side := sender'.symm.trans (sender.trans (sound.seen shown side))
  have apart : t.self true ≠ t.self false := by
    have less : t.self true < t.self false := sound.couple.ordered
    exact ne_of_lt less
  have author : ∀ side', m ∈ t.mail side' → t.self side' = t.self side := by
    intro side' member
    obtain ⟨_, _, _, letter⟩ := sound.mail side' m member
    exact letter.senderId.symm.trans mine
  refine ⟨m, ?_, name, typed'.symm.trans typed⟩
  rcases List.mem_append.mp put with there | there
  · have same := author true there
    cases side with
    | true => exact there
    | false => exact absurd same apart
  · have same := author false there
    cases side with
    | true => exact absurd same.symm apart
    | false => exact there

/-- A record with a pending exchange's id and sequence is that exchange's. -/
theorem named (sound : t.Sound) (now : t.Current side s)
    (pending : s.pendingWith (t.other side) = some p) (shown : t.Shown e)
    (recorded : p.recordedIn e) : e.name = p.transcript.name := by
  obtain ⟨-, -, -, formed, -⟩ := sound.shown shown
  obtain ⟨m, put, name, -⟩ := sound.sent shown formed.proposed
  obtain ⟨q, m', offered, letter⟩ := sound.mail true m put
  obtain ⟨q', m'', offered', name', -⟩ := (sound.traced side s now p pending).offer
  have known : q.transcript.name = e.name := letter.name.symm.trans name
  have same : q.transcript.exchangeId = q'.transcript.exchangeId := by
    have first := congrArg ExchangeName.exchangeId known
    have second := congrArg ExchangeName.exchangeId name'
    exact (first.trans recorded.1).trans second
  rw [← known, name', sound.couple.distinct q q' ⟨m', offered⟩ ⟨m'', offered'⟩ same]

/-- Who initiated the pending exchange. -/
theorem role (sound : t.Sound) (now : t.Current side s)
    (pending : s.pendingWith (t.other side) = some p) :
    decide (t.other side = p.transcript.initiatorId) = !side ∧ s.initiates p = side := by
  obtain ⟨q, m, offered, -, initiatorId, -⟩ := (sound.traced side s now p pending).offer
  have initiator : p.transcript.initiatorId = t.self true :=
    initiatorId.trans (sound.couple.offers q m offered).2.1
  have less : t.self true < t.self false := sound.couple.ordered
  have self : s.peerId = t.self side := by
    rcases now with rfl | rfl
    · rfl
    · exact sound.self side
  rw [EndpointState.initiates, initiator, self]
  cases side with
  | true =>
    refine ⟨?_, decide_eq_true rfl⟩
    exact decide_eq_false (ne_of_gt less)
  | false =>
    refine ⟨decide_eq_true rfl, ?_⟩
    exact decide_eq_false (ne_of_gt less)

end Sound

namespace Course

/-- A record with the receipt of an installed key: the kernel on its side has it. -/
theorem received (course : t.Course) (sound : t.Sound) (shown : t.Shown e)
    (received : e.received .installed side) : t.Keyed side e.name := by
  obtain ⟨m, put, name, typed⟩ := sound.sent shown received
  exact name ▸ course.mailed side m put typed

/-- What a record that was read shows holds at the server now. -/
theorem stands (course : t.Course) (sound : t.Sound) (shown : t.Shown e) :
    (e.decision.terminal = true → t.server.view.Closed e.name) ∧
      ∀ kind side, e.received kind side → t.server.view.Recorded e.name kind side := by
  obtain ⟨-, -, -, -, db, member, -, found⟩ := sound.shown shown
  refine ⟨fun ended => ?_, fun kind side received => ?_⟩
  · exact course.closed db member _ (.of found (.inl ended))
  · exact course.recorded db member _ kind side (.of found (.inr received))

/-- `durably_sent`: the exchange is over, or the last message of the queue is recorded. -/
theorem durable (course : t.Course) (sound : t.Sound) (now : t.Current side s)
    (pending : s.pendingWith (t.other side) = some p) {remote : Option Exchange}
    (shown : ∀ e ∈ remote, t.Shown e) (sent : durablySent remote p (t.self side) = true)
    {last : Message} (queued : p.outbox.getLast? = some last) :
    t.server.view.Closed p.transcript.name ∨ ∀ kind, last.messageType = Kind.code kind →
      t.server.view.Recorded p.transcript.name kind side := by
  cases remote with
  | none => cases sent
  | some e =>
    have shown := shown e rfl
    obtain ⟨-, -, -, formed, -⟩ := sound.shown shown
    simp only [durablySent, queued] at sent
    split at sent
    · cases sent
    · rename_i recorded
      rw [not_not] at recorded
      rw [← sound.named now pending shown recorded]
      split at sent
      · rename_i ended
        exact .inl ((course.stands sound shown).1 ended)
      · obtain ⟨m, member, same⟩ := List.any_eq_true.mp sent
        obtain ⟨sender, typed⟩ := of_decide_eq_true same
        refine .inr fun kind code => (course.stands sound shown).2 kind side ?_
        exact formed.receipt member (sender.trans (sound.seen shown side).symm) (typed.trans code)

/-- Merging a record that was read: what it shows of the other side has come about. -/
theorem takes (course : t.Course) (sound : t.Sound) (now : t.Current side s)
    (pending : s.pendingWith (t.other side) = some p) {remote : Option Exchange}
    (shown : ∀ e ∈ remote, t.Shown e) : t.Followed side (p.takes (t.other side) remote) := by
  have followed := course.followed side s now p pending
  have inv := (sound.databases t.server sound.server).1.ledger
  have named : ∀ e, remote = some e → p.recordedIn e → e.name = p.transcript.name :=
    fun e present => sound.named now pending (shown e present)
  have sides : ∀ e, remote = some e → ∀ m ∈ e.messages, m.senderId = t.other side →
      m.senderId = e.side (!side) :=
    fun e present m _ sender => sender.trans (sound.seen (shown e present) (!side)).symm
  have stands : ∀ e, remote = some e → p.recordedIn e →
      (e.decision.terminal = true → t.server.view.Closed p.transcript.name) ∧
      ∀ kind side', e.received kind side' →
        t.server.view.Recorded p.transcript.name kind side' :=
    fun e present recorded => named e present recorded ▸ course.stands sound (shown e present)
  constructor
  · refine followed.tracked.takes (sound.role now pending).1 ?_ ?_ ?_
    · rintro (closed | ⟨closed, -⟩) kind
      · exact closed.recorded inv kind _
      · exact closed.recorded inv kind _
    · intro e present recorded ended
      obtain ⟨-, -, -, formed, -⟩ := sound.shown (shown e present)
      have closed := (stands e present recorded).1 ended
      refine ⟨formed.valid, fun _ => closed, fun complete => ⟨closed, ?_⟩⟩
      rw [← named e present recorded]
      have installed := formed.valid.ordered side (formed.valid.complete complete side)
      refine course.received sound (shown e present) ?_
      exact (formed.accounted .installed side (by simp) (.inr (.inl rfl))).mp installed
    · intro e present recorded m member sender kind typed _
      obtain ⟨-, -, -, formed, -⟩ := sound.shown (shown e present)
      have received := formed.receipt member (sides e present m member sender) typed
      refine ⟨?_, fun _ => ⟨(stands e present recorded).2 kind _ received, trivial⟩⟩
      rintro rfl
      obtain ⟨m', put, -, typed'⟩ := sound.sent (shown e present) received
      obtain ⟨_, _, _, letter⟩ := sound.mail _ m' put
      obtain ⟨kind, typed'', regular⟩ := letter.kind
      exact regular (Kind.code_injective (typed''.symm.trans typed'))
  · exact followed.keyed
  · refine Pending.merged (P := fun d => d.has .installed (!side) = true →
      t.Keyed (!side) p.transcript.name) followed.heard ?_ ?_
    · intro e present recorded ended _ has
      obtain ⟨-, -, -, formed, -⟩ := sound.shown (shown e present)
      rw [← named e present recorded]
      refine course.received sound (shown e present) ?_
      exact (formed.accounted .installed (!side) (by simp) (.inr (.inl rfl))).mp has
    · intro e present recorded m member sender kind d d' typed _ _ before advanced has
      obtain ⟨-, -, -, formed, -⟩ := sound.shown (shown e present)
      have received := formed.receipt member (sides e present m member sender) typed
      by_cases regular : kind = .abort
      · subst regular
        rcases Decision.advance_cases advanced with ⟨k, _⟩ | ⟨k, _⟩ | ⟨-, -, -, rfl⟩ | ⟨k, _⟩ |
          ⟨k, _⟩
        · cases k
        · cases k
        · exact before has
        · cases k
        · cases k
      · rw [Decision.has_advance advanced regular, Bool.or_eq_true, decide_eq_true_eq] at has
        rcases has with old | ⟨rfl, -⟩
        · exact before old
        · rw [← named e present recorded]
          exact course.received sound (shown e present) received

/-- What a deed makes of the exchange that is pending. -/
theorem pending_deed (course : t.Course) (sound : t.Sound) {d : Deed}
    (kept : Sound.Kept t t' side d)
    (shown : ∀ c, d = .reconcile c → c.other = t.other side → ∀ e ∈ c.remote, t.Shown e)
    {p' : Pending} (pending : (t'.memory side).pendingWith (t.other side) = some p') :
    t'.Followed side p' := by
  rw [kept.memory] at pending
  rcases EndpointState.deed_pending pending with ⟨p, attempts, nextRetryAt, there, rfl⟩ |
    ⟨c, r, r', rfl, here, known, after, present, shut, turn⟩
  · have followed := (course.followed side _ (.inl rfl) p there).kept kept
    exact ⟨followed.tracked.congr rfl rfl rfl rfl, followed.keyed, followed.heard⟩
  · have less : t.self true < t.self false := sound.couple.ordered
    have side_iff : side = true ↔ (t.memory side).peerId < c.other := by
      rw [here]
      cases side with
      | true => exact ⟨fun _ => less, fun _ => rfl⟩
      | false =>
        refine ⟨fun never => ?_, fun more => ?_⟩
        · cases never
        · exact absurd more (lt_asymm less)
    rcases turn.moved shut present with ⟨p, there, moved, -⟩ | ⟨-, -, m, -, opened⟩
    · have before : (t.memory side).pendingWith (t.other side) = some p := by
        rw [EndpointState.pendingWith, known, Option.bind_some, there]
      have followed := (course.takes sound (.inl rfl) before (shown c rfl here)).kept kept
      rw [← here] at followed
      have queued := moved.queued
      have transcript : p'.transcript = p.transcript := queued.transcript
      have role := (sound.role (.inl rfl) before).2
      constructor
      · have tracked := followed.tracked.moved trivial moved role side_iff.mpr
        rw [transcript]
        exact tracked
      · intro installed
        rw [transcript]
        rcases turn.flagged there present installed with old | ⟨ok, calls⟩
        · exact followed.keyed old
        · obtain ⟨q, m, offered, name, -, candidate⟩ := (sound.traced side _ (.inl rfl) p before).offer
          refine ⟨q, m, kept.offers.1 _ offered, name.symm, ?_⟩
          rw [← candidate]
          refine kept.called c rfl here ok r.remote p.candidate ?_
          rw [calls]
          exact List.mem_singleton.mpr rfl
      · intro has
        rw [transcript]
        rw [moved.theirs role side_iff.mpr] at has
        exact followed.heard has
    · exact .opened opened side_iff

/-- What a deed makes of the exchange that is confirmed. -/
theorem confirmed_deed (course : t.Course) (sound : t.Sound) {d : Deed}
    (kept : Sound.Kept t t' side d)
    (shown : ∀ c, d = .reconcile c → c.other = t.other side → ∀ e ∈ c.remote, t.Shown e)
    {r' : Relationship} {f : Confirmed} (after : (t'.memory side).relationship (t.other side) = some r')
    (confirmed : r'.confirmed = some f) : t.Confirms side f ∨
      ∃ p, (t.memory side).pendingWith (t.other side) = some p ∧
        f.exchangeId = p.transcript.exchangeId ∧ f.psk = p.candidate.psk ∧
        ∀ side', t.Keyed side' p.transcript.name := by
  rw [kept.memory] at after
  have held : ∀ {r : Relationship}, (t.memory side).relationship (t.other side) = some r →
      r.confirmed = some f → t.Confirms side f := fun known old => ⟨_, _, .inl rfl, known, old⟩
  cases d with
  | upkeep u =>
    have upkept := EndpointState.upkept u (t.memory side) (t.other side)
    have after : (u.perform (t.memory side)).relationship (t.other side) = some r' := after
    rw [after] at upkept
    generalize known : (t.memory side).relationship (t.other side) = past at upkept
    cases upkept with
    | met => cases confirmed
    | revised revised => exact .inl (held known (revised.confirmed_kept confirmed))
  | reconcile c =>
    have after : (c.perform (t.memory side)).2.1.relationship (t.other side) = some r' := after
    by_cases here : c.other = t.other side
    · rw [← here] at after held ⊢
      rcases c.turned (t.memory side) with ⟨same, -⟩ | ⟨r, r'', -, known, after', -, turn⟩
      · rw [same] at after
        exact .inl (held after confirmed)
      · rw [after] at after'
        cases after'
        rcases turn.settled with same | ⟨p, f', there, present, phase, exchangeId, psk⟩
        · exact .inl (held known (same ▸ confirmed))
        · rw [present] at confirmed
          cases confirmed
          have before : (t.memory side).pendingWith c.other = some p := by
            rw [EndpointState.pendingWith, known, Option.bind_some, there]
          have followed := course.takes sound (.inl rfl) (here ▸ before) (shown c rfl here)
          rw [← here] at followed
          exact .inr ⟨p, before, exchangeId, psk, followed.completed phase⟩
    · rw [c.other_relationship _ (Ne.symm here)] at after
      exact .inl (held after confirmed)

theorem deed (course : t.Course) (sound : t.Sound) {d : Deed} (kept : Sound.Kept t t' side d)
    (next : t'.Sound)
    (shown : ∀ c, d = .reconcile c → c.other = t.other side → ∀ e ∈ c.remote, t.Shown e) :
    t'.Course := by
  have other : ∀ side', t'.other side' = t.other side' := fun side' => kept.self (!side')
  have memory : ∀ p, (t'.memory side).pendingWith (t.other side) = some p → t'.Followed side p :=
    fun p pending => course.pending_deed sound kept shown pending
  constructor
  · intro side' s now p pending
    rw [other] at pending
    rcases kept.current side' s now with ⟨rfl, rfl⟩ | before
    · exact memory p pending
    · exact (course.followed side' s before p pending).kept kept
  · intro side' m put typed
    rcases kept.posted side' m put with old | ⟨rfl, p, pending, queued⟩
    · exact (course.mailed side' m old typed).kept kept
    · have letter := (next.traced side' _ (.inl rfl) p (by rw [other]; exact pending)).outbox m queued
      have followed := memory p pending
      rw [letter.name]
      exact followed.keyed (followed.tracked.installed m queued (.inl typed))
  · rintro side' f ⟨s, r, now, known, confirmed⟩
    rw [other] at known
    have done : (t.Confirms side' f ∨ ∃ p, (t.memory side').pendingWith (t.other side') = some p ∧
        f.exchangeId = p.transcript.exchangeId ∧ f.psk = p.candidate.psk ∧
        ∀ side'', t.Keyed side'' p.transcript.name) := by
      rcases kept.current side' s now with ⟨rfl, rfl⟩ | before
      · exact course.confirmed_deed sound kept shown known confirmed
      · exact .inl ⟨s, r, before, known, confirmed⟩
    rcases done with old | ⟨p, pending, exchangeId, psk, keyed⟩
    · obtain ⟨q, m, offered, exchangeId, psk, keyed⟩ := course.confirmed side' f old
      exact ⟨q, m, kept.offers.1 _ offered, exchangeId, psk, fun side'' => (keyed side'').kept kept⟩
    · obtain ⟨q, m, offered, name, -, candidate⟩ :=
        (sound.traced side' _ (.inl rfl) p pending).offer
      rw [name] at keyed
      refine ⟨q, m, kept.offers.1 _ offered, ?_, candidate ▸ psk, fun side'' => (keyed side'').kept kept⟩
      exact exchangeId.trans (congrArg ExchangeName.exchangeId name)
  · rw [kept.served, kept.server]
    exact course.recorded
  · rw [kept.served, kept.server]
    exact course.closed

omit [Native] in
/-- Nothing new is to be shown where no side has done anything. -/
theorem still (course : t.Course) (self : ∀ side, t'.self side = t.self side)
    (current : ∀ side s, t'.Current side s → t.Current side s)
    (proposals : t'.couple.proposals = t.couple.proposals) (installed : t'.installed = t.installed)
    (mail : t'.mail = t.mail) (server : t'.server = t.server) (served : t'.served = t.served) :
    t'.Course := by
  have keyed : ∀ {side n}, t.Keyed side n → t'.Keyed side n := by
    intro side n keyed
    rw [Keyed, proposals, installed]
    exact keyed
  have other : ∀ side, t'.other side = t.other side := fun side => self (!side)
  constructor
  · intro side s now p pending
    rw [other] at pending
    refine (course.followed side s (current side s now) p pending).grow ?_ ?_ fun _ => keyed
    · rw [server]
      exact fun _ => id
    · rw [server]
      exact id
  · rw [mail]
    exact fun side m put typed => keyed (course.mailed side m put typed)
  · rintro side f ⟨s, r, now, known, confirmed⟩
    rw [other] at known
    obtain ⟨q, m, offered, exchangeId, psk, both⟩ :=
      course.confirmed side f ⟨s, r, current side s now, known, confirmed⟩
    exact ⟨q, m, proposals ▸ offered, exchangeId, psk, fun side' => keyed (both side')⟩
  · rw [served, server]
    exact course.recorded
  · rw [served, server]
    exact course.closed

theorem serve (course : t.Course) (sound : t.Sound) (op : Operation) :
    (t.next (.serve op)).Course := by
  have soundDb := (sound.databases t.server sound.server).1
  obtain ⟨ms, run, -⟩ := (op.reaches soundDb).run
  have recorded : ∀ n kind side, t.server.view.Recorded n kind side →
      (op.apply t.server).view.Recorded n kind side :=
    fun n kind side => Ledger.Run.recorded soundDb.ledger run
  have closed : ∀ n, t.server.view.Closed n → (op.apply t.server).view.Closed n :=
    fun n => Ledger.Run.closed soundDb.ledger run
  constructor
  · intro side s now p pending
    exact (course.followed side s now p pending).grow (fun kind => recorded _ kind _) (closed _)
      fun _ => id
  · exact course.mailed
  · exact course.confirmed
  · intro db member n kind side found
    rcases List.mem_append.mp member with old | new
    · exact recorded n kind side (course.recorded db old n kind side found)
    · rw [List.mem_singleton.mp new] at found
      exact found
  · intro db member n found
    rcases List.mem_append.mp member with old | new
    · exact closed n (course.closed db old n found)
    · rw [List.mem_singleton.mp new] at found
      exact found

theorem step (course : t.Course) (sound : t.Sound) {l : Event} (allowed : t.Allows l)
    (next : (t.next l).Sound) : (t.next l).Course := by
  cases l with
  | turn side c stored =>
    refine course.deed sound (Sound.kept_turn t side c stored) next ?_
    rintro c' same
    cases same
    exact allowed
  | upkeep side u =>
    refine course.deed sound (Sound.kept_upkeep t side u) next ?_
    rintro c' same
    cases same
  | save side =>
    exact course.still (fun _ => rfl) (Sound.current_save t side) rfl rfl rfl rfl rfl
  | crash side =>
    refine course.still (sound.self_crash side) (Sound.current_crash t side) ?_ ?_ ?_ ?_ ?_
    all_goals cases side <;> rfl
  | serve op => exact course.serve sound op

theorem start (begins : t.Begins) : t.Course := by
  have unmet : ∀ side s, t.Current side s → ∀ r, s.relationship (t.other side) ≠ some r := by
    intro side s now r known
    have same : s = t.memory side := now.elim id fun same => same.trans (begins.saved side)
    have none : s.relationships = ∅ := by
      rw [same]
      cases side with
      | true => exact begins.couple.initiator.2
      | false => exact begins.couple.responder.2
    rw [EndpointState.relationship, none] at known
    cases known
  constructor
  · intro side s now p pending
    obtain ⟨r, known, -⟩ := Option.bind_eq_some_iff.mp pending
    exact absurd known (unmet side s now r)
  · intro side m put
    rw [begins.mail] at put
    cases put
  · rintro side f ⟨s, r, now, known, -⟩
    exact absurd known (unmet side s now r)
  · intro db member n kind side recorded
    rw [begins.served, List.mem_singleton] at member
    exact member ▸ recorded
  · intro db member n closed
    rw [begins.served, List.mem_singleton] at member
    exact member ▸ closed

theorem reached (native : Native.Sound) {t₀ : Pair} (begins : t₀.Begins) {ms : List (Move Pair Event)}
    (run : Run Step t₀ ms t) (fresh : ∀ m ∈ ms, Fresh m) : t.Sound ∧ t.Course := by
  have initial : t₀.Sound ∧ t₀.Course := ⟨.start begins, .start begins⟩
  refine run.guarded (P := fun t => t.Sound ∧ t.Course) initial ?_ fresh
  rintro t l t' ⟨sound, course⟩ taken allowed
  have next := sound.step native taken allowed
  obtain ⟨permitted, rfl⟩ := taken
  exact ⟨next, course.step sound permitted next⟩

end Course

/-- What a confirmed exchange goes back to. -/
theorem Sound.backed (sound : t.Sound) {f : Confirmed} (confirms : t.Confirms side f) :
    ∃ q, t.couple.Proposed q ∧ f.exchangeId = q.transcript.exchangeId ∧
      f.sequence = q.transcript.sequence ∧
      Crypto.hash q.transcript.encode = .ok f.transcriptHash ∧ f.psk = q.candidate.psk := by
  obtain ⟨s, r, now, known, confirmed⟩ := confirms
  have saved : ∀ side, (t.saved side).peerId = t.self side := sound.self
  cases side with
  | true =>
    rcases now with rfl | rfl
    · exact (sound.couple.initiator r known).confirmed f confirmed
    · refine (sound.resumed.initiator r ?_).confirmed f confirmed
      change (t.saved true).relationship (t.saved false).peerId = some r
      rw [saved]
      exact known
  | false =>
    rcases now with rfl | rfl
    · exact (sound.couple.responder r known).confirmed f confirmed
    · refine (sound.resumed.responder r ?_).confirmed f confirmed
      change (t.saved false).relationship (t.saved true).peerId = some r
      rw [saved]
      exact known

/-- An exchange that one side has confirmed has keyed both kernels, and whoever has confirmed it has
confirmed the same. -/
theorem confirmed_both (native : Native.Sound) {t₀ : Pair} {ms : List (Move Pair Event)}
    (begins : t₀.Begins) (run : Run Step t₀ ms t) (fresh : ∀ m ∈ ms, Fresh m) {f : Confirmed}
    (confirms : t.Confirms side f) :
    (∃ k : Candidate, k.psk = f.psk ∧ ∀ side', k ∈ t.installed side') ∧
      ∀ side' f', t.Confirms side' f' → f'.exchangeId = f.exchangeId →
        f'.psk = f.psk ∧ f'.sequence = f.sequence ∧ f'.transcriptHash = f.transcriptHash := by
  obtain ⟨sound, course⟩ := Course.reached native begins run fresh
  constructor
  · obtain ⟨q, m, offered, -, psk, keyed⟩ := course.confirmed side f confirms
    exact ⟨q.candidate, psk.symm, fun side' =>
      (keyed side').named sound.couple.distinct offered rfl⟩
  · intro side' f' confirms' same
    obtain ⟨q, proposed, exchangeId, sequence, hash, psk⟩ := sound.backed confirms
    obtain ⟨q', proposed', exchangeId', sequence', hash', psk'⟩ := sound.backed confirms'
    have one : q' = q := by
      refine sound.couple.distinct q' q proposed' proposed ?_
      exact exchangeId'.symm.trans (same.trans exchangeId)
    subst one
    exact ⟨psk'.trans psk.symm, sequence'.trans sequence.symm,
      Except.ok.inj (hash'.symm.trans hash)⟩

/-- A call that does not come before the retry is due queues its next message only once all that it
has queued for the exchange is recorded. -/
theorem queued_recorded (native : Native.Sound) {t₀ : Pair} {ms : List (Move Pair Event)}
    (begins : t₀.Begins) (run : Run Step t₀ ms t) (fresh : ∀ m ∈ ms, Fresh m) {c : Call}
    (here : c.other = t.other side) (shown : ∀ e ∈ c.remote, t.Shown e) {p' : Pending}
    (pending : (t.memory side).pendingWith (t.other side) = some p) (due : p.nextRetryAt ≤ c.now)
    (after : (c.perform (t.memory side)).2.1.pendingWith (t.other side) = some p')
    (queued : p'.outbox ≠ p.outbox) {m : Message} (member : m ∈ p.outbox) :
    ∃ kind, m.messageType = Kind.code kind ∧
      t.server.view.Recorded p.transcript.name kind side := by
  obtain ⟨sound, course⟩ := Course.reached native begins run fresh
  have inv := (sound.databases t.server sound.server).1.ledger
  have tracked := (course.takes sound (.inl rfl) pending shown).tracked
  rcases c.turned (t.memory side) with ⟨same, -⟩ | ⟨r, r', -, known, after', -, turn⟩
  · rw [EndpointState.pendingWith, ← here, same, here] at after
    obtain rfl := Option.some.inj (after.symm.trans pending)
    exact absurd rfl queued
  have there : r.pending = some p := by
    rw [EndpointState.pendingWith, ← here, known] at pending
    exact pending
  have there' : r'.pending = some p' := by
    rw [EndpointState.pendingWith, ← here, after'] at after
    exact after
  rcases turn.extends there there' with same | ⟨-, live, rests⟩
  · exact absurd same queued
  rw [here] at live rests
  have running : (p.takes (t.other side) c.remote).decision.phase ≠ .aborted := by
    intro phase
    simp [Decision.terminal, phase] at live
  have script : p.outbox.map Message.messageType =
      ((p.takes (t.other side) c.remote).decision.script side).map Kind.code := by
    rcases tracked.shaped running with script | ⟨phase, -⟩
    · exact script
    · simp [Decision.terminal, phase] at live
  obtain ⟨kind, listed, typed⟩ : ∃ kind ∈ (p.takes (t.other side) c.remote).decision.script side,
      kind.code = m.messageType := by
    rw [← List.mem_map, ← script]
    exact List.mem_map_of_mem member
  refine ⟨kind, typed.symm, ?_⟩
  have final := List.getLast?_eq_some_getLast (List.ne_nil_of_mem member)
  have sent : durablySent c.remote p (t.self side) = true :=
    EndpointState.rests_sent rests running due final
  rcases course.durable sound (.inl rfl) pending shown sent final with closed | recorded
  · exact closed.recorded inv kind side
  · have ends := congrArg List.getLast? script
    rw [List.getLast?_map, List.getLast?_map, final] at ends
    obtain ⟨kind', ends, typed'⟩ := Option.map_eq_some_iff.mp ends.symm
    exact Ledger.Recorded.script inv ends (recorded kind' typed'.symm) listed

/-- A call that does not come before the retry is due completes an exchange only once it is over at
the server. -/
theorem completed_closed (native : Native.Sound) {t₀ : Pair} {ms : List (Move Pair Event)}
    (begins : t₀.Begins) (run : Run Step t₀ ms t) (fresh : ∀ m ∈ ms, Fresh m) {c : Call}
    (here : c.other = t.other side) (shown : ∀ e ∈ c.remote, t.Shown e)
    (pending : (t.memory side).pendingWith (t.other side) = some p) (due : p.nextRetryAt ≤ c.now)
    (complete : (c.perform (t.memory side)).1 = .ok .complete) :
    t.server.view.Closed p.transcript.name := by
  obtain ⟨sound, course⟩ := Course.reached native begins run fresh
  have inv := (sound.databases t.server sound.server).1.ledger
  have tracked := (course.takes sound (.inl rfl) pending shown).tracked
  rcases c.turned (t.memory side) with ⟨-, -, quiet⟩ | ⟨r, r', -, known, -, -, turn⟩
  · cases quiet _ complete
  have there : r.pending = some p := by
    rw [EndpointState.pendingWith, ← here, known] at pending
    exact pending
  obtain ⟨phase, rests⟩ := turn.finished there complete
  rw [here] at phase rests
  have confirmed : ∀ side', (p.takes (t.other side) c.remote).decision.has .confirmed side' = true :=
    tracked.valid.complete phase
  have running : (p.takes (t.other side) c.remote).decision.phase ≠ .aborted := by simp [phase]
  rcases tracked.shaped running with script | ⟨-, closed, -⟩
  · obtain ⟨last, queued, typed⟩ : ∃ last, p.outbox.getLast? = some last ∧
        last.messageType = Kind.confirmed.code := by
      have last := congrArg List.getLast? script
      rw [List.getLast?_map, List.getLast?_map, Decision.script_confirmed (confirmed side)] at last
      exact Option.map_eq_some_iff.mp last
    have sent : durablySent c.remote p (t.self side) = true :=
      EndpointState.rests_sent rests running due queued
    rcases course.durable sound (.inl rfl) pending shown sent queued with closed | recorded
    · exact closed
    · refine Ledger.Recorded.closed inv fun side' => ?_
      by_cases mine : side' = side
      · exact mine ▸ recorded .confirmed typed
      · have theirs : side' = !side := by cases side <;> cases side' <;> simp_all
        exact theirs ▸ tracked.heard .confirmed (confirmed (!side))
  · exact closed

end Pair

section Sample

open Arithmetic

/-- Only the first bytes are hashed, tagged and signed, so that a whole conversation is computed. -/
@[reducible] def Arithmetic.brief : Native := { native with
  pqHash := fun data => native.pqHash (data.take 32)
  pqHmac := fun key data => native.pqHmac key (data.take 32)
  pqHkdf := fun ikm salt info => native.pqHkdf ikm salt (info.take 32)
  pqSign := fun drawn secret data => native.pqSign drawn secret (data.take 32)
  pqVerify := fun found publicKey data => native.pqVerify found publicKey (data.take 32) }

theorem Arithmetic.brief_sound : @Native.Sound brief := by
  obtain ⟨agreed, tagged, derived⟩ := native_sound
  refine @Native.Sound.mk brief agreed ?_ ?_
  · intro key key' data out
    exact tagged key key' (data.take 32) out
  · intro kem dh operator operator' salt info out
    exact derived kem dh operator operator' salt (info.take 32) out

attribute [local instance] brief

variable {t t' : Pair}

/-- The two peers of the site before either has registered. -/
def Arithmetic.strangers : Pair where
  couple := Arithmetic.couple
  saved side := if side then Arithmetic.couple.initiator.state else Arithmetic.couple.responder.state
  installed _ := []
  asked side := [registration (identity (if side then 2 else 3) first)]
  mail _ := []
  server := site
  served := [site]

/-- An event that `Allows` and `Fresh` admit, with what the server holds now. -/
def Pair.permits (t : Pair) : Pair.Event → Bool
  | .turn side c _ =>
    (c.remote.all fun e => decide (e.initiatorId = t.self true) &&
      decide (e.responderId = t.self false) && decide (t.server.view.record e.key = some e)) &&
    (!side || t.couple.proposals.all fun q =>
      decide (c.draws.exchangeId ≠ .ok q.1.transcript.exchangeId))
  | .upkeep _ (.observeRemote peer bundle lifecycle) =>
    (t.server.bundles.lookup peer.val).any fun a =>
      decide (a.bundle = bundle) && decide (a.lifecycle = lifecycle)
  | .serve (.submit id _ other message _ _ _) => [true, false].all fun side =>
    decide (id = (t.self side).val → other = (t.other side).val → message ∈ t.mail side)
  | .serve (.register id _ request _ _ _) => [true, false].all fun side =>
    decide (id = (t.self side).val → request ∈ t.asked side)
  | _ => false

theorem Pair.permits_sound {l : Pair.Event} (current : t.server ∈ t.served) (permitted : t.permits l = true) :
    t.Allows l ∧ Fresh ⟨t, l, t.next l⟩ := by
  cases l with
  | turn side c stored =>
    simp only [permits, Bool.and_eq_true, Option.all_eq_true, decide_eq_true_eq, Bool.or_eq_true,
      Bool.not_eq_true', List.all_eq_true] at permitted
    obtain ⟨shown, fresh⟩ := permitted
    refine ⟨fun _ e present => ?_, ?_⟩
    · obtain ⟨⟨initiator, responder⟩, found⟩ := shown e present
      exact ⟨.inl ⟨initiator, responder⟩, t.server, current, e.key, found⟩
    · cases side with
      | true => exact fun _ => fresh.resolve_left (by simp)
      | false => trivial
  | upkeep side u =>
    cases u with
    | observeRemote peer bundle lifecycle =>
      obtain ⟨a, found, same⟩ := (Option.any_eq_true _ _).mp permitted
      simp only [Bool.and_eq_true, decide_eq_true_eq] at same
      refine ⟨fun _ => ⟨t.server, current, a, found, same.1, same.2⟩, ?_⟩
      cases side <;> trivial
    | _ => cases permitted
  | save => cases permitted
  | crash => cases permitted
  | serve op =>
    cases op with
    | submit id key other message limits size now =>
      simp only [permits, List.all_eq_true, decide_eq_true_eq] at permitted
      exact ⟨fun side => permitted side (by cases side <;> simp), trivial⟩
    | register id key request limits size now =>
      simp only [permits, List.all_eq_true, decide_eq_true_eq] at permitted
      exact ⟨fun side => permitted side (by cases side <;> simp), trivial⟩
    | _ => cases permitted

/-- Events that are chosen by the state they find. -/
def Pair.play (t : Pair) : List (Pair → Pair.Event) → Option Pair
  | [] => some t
  | plan :: rest => if t.permits (plan t) then (t.next (plan t)).play rest else none

theorem Pair.play_run {plans : List (Pair → Pair.Event)} (current : t.server ∈ t.served)
    (played : t.play plans = some t') : ∃ ms, Run Step t ms t' ∧ ∀ m ∈ ms, Fresh m := by
  induction plans generalizing t with
  | nil =>
    cases played
    exact ⟨[], .start, by simp⟩
  | cons plan rest ih =>
    unfold play at played
    split at played
    · rename_i permitted
      obtain ⟨allowed, fresh⟩ := permits_sound current permitted
      have kept : (t.next (plan t)).server ∈ (t.next (plan t)).served := by
        generalize plan t = l
        cases l with
        | serve op => exact List.mem_append_right _ (List.mem_singleton.mpr rfl)
        | crash side => cases side <;> exact current
        | _ => exact current
      obtain ⟨ms, run, all⟩ := ih kept played
      refine ⟨[] ++ [⟨t, plan t, t.next (plan t)⟩] ++ ms,
        (Run.start.move ⟨allowed, rfl⟩).append run, ?_⟩
      intro m member
      rw [List.nil_append, List.singleton_append, List.mem_cons] at member
      rcases member with rfl | later
      · exact fresh
      · exact all m later
    · cases played

/-- A side's call on the record the server holds. -/
def Arithmetic.glance (side : Bool) (t : Pair) : Call where
  other := if side then third else second
  remote := t.server.view.record ⟨2, 3, 2, 3⟩
  now := 20
  rotationInterval := 86400
  idleTimeout := 0
  install := .ok ()
  fresh := .ok true
  draws := ⟨if t.couple.proposals = [] then .ok 5 else .error .random, 0, 0⟩

/-- The server gets to the last message a side has put. -/
def Arithmetic.arrival (side : Bool) (t : Pair) : Pair.Event :=
  match side, (t.mail side).getLast? with
  | true, some m => .serve (.submit 2 (key 2) 3 m limits 0 20)
  | false, some m => .serve (.submit 3 (key 3) 2 m limits 0 20)
  | _, none => .save side

/-- The exchange a side has confirmed. -/
def Pair.confirmedBy (t : Pair) (side : Bool) : Option Confirmed :=
  ((t.memory side).relationship (t.other side)).bind Relationship.confirmed

theorem Pair.confirmedBy_confirms {side : Bool} {f : Confirmed}
    (confirmed : t.confirmedBy side = some f) : t.Confirms side f := by
  obtain ⟨r, known, present⟩ := Option.bind_eq_some_iff.mp confirmed
  exact ⟨_, r, .inl rfl, known, present⟩

/-- Both register and see each other. -/
def Arithmetic.meeting : List (Pair → Pair.Event) :=
  (registrations.map fun op _ => .serve op) ++
    [fun _ => .upkeep true (.observeRemote third (identity 3 first).bundle .enabled),
      fun _ => .upkeep false (.observeRemote second (identity 2 first).bundle .enabled)]

/-- Calls of these sides, each with its message on its way. -/
def Arithmetic.calls (sides : List Bool) : List (Pair → Pair.Event) :=
  sides.flatMap fun side => [fun t => .turn side (glance side t) true, arrival side]

theorem Arithmetic.strangers_begin : strangers.Begins where
  couple := ⟨by decide, ⟨rfl, rfl⟩, ⟨rfl, rfl⟩, rfl, rfl, by decide +kernel⟩
  saved side := by cases side <;> rfl
  installed _ := rfl
  asked side := by cases side <;> rfl
  registration side := by cases side <;> rfl
  mail _ := rfl
  unused := ⟨rfl, rfl, rfl⟩
  served := rfl

/-- A side is about to call on a record of the two, and no retry is pending. -/
def Pair.waits (t : Pair) (side : Bool) : Bool :=
  ((glance side t).remote.all fun e => decide (e.initiatorId = t.self true) &&
    decide (e.responderId = t.self false)) && decide ((glance side t).other = t.other side) &&
  ((t.memory side).pendingWith (t.other side)).any fun p =>
    decide (p.nextRetryAt ≤ 20) && decide (p.outbox ≠ [])

/-- The initiator's second message, the responder's last call, and what that leaves. -/
theorem Arithmetic.conversation : ((strangers.play (meeting ++ calls [true, false])).any fun t =>
    t.waits true && (((glance true t).perform (t.memory true)).2.1.pendingWith (t.other true)).any
      (fun p' => decide (p'.outbox.length = 2)) &&
    ((t.memory true).pendingWith (t.other true)).any (fun p => decide (p.outbox.length = 1)) &&
    (t.play (calls [true, false, true, false, true])).any fun t =>
      t.waits false && decide (((glance false t).perform (t.memory false)).1.toOption =
        some .complete) &&
      (t.play (calls [false])).any fun t => (t.confirmedBy false).isSome) = true := by
  decide +kernel

theorem Pair.play_append {u : Pair} {plans more : List (Pair → Pair.Event)}
    (played : t.play plans = some u) (further : u.play more = some t') :
    t.play (plans ++ more) = some t' := by
  induction plans generalizing t with
  | nil =>
    cases played
    exact further
  | cons plan rest ih =>
    unfold Pair.play at played
    split at played
    · rename_i permitted
      rw [List.cons_append, Pair.play, if_pos permitted]
      exact ih played
    · cases played

theorem Pair.played {plans : List (Pair → Pair.Event)} (played : strangers.play plans = some t) :
    ∃ ms, Run Step strangers ms t ∧ ∀ m ∈ ms, Fresh m :=
  play_run (List.mem_singleton.mpr rfl) played

theorem Pair.waits_call {side : Bool} {plans : List (Pair → Pair.Event)}
    (played : strangers.play plans = some t) (waits : t.waits side = true) :
    (glance side t).other = t.other side ∧ (∀ e ∈ (glance side t).remote, t.Shown e) ∧
      ∃ p, (t.memory side).pendingWith (t.other side) = some p ∧ p.nextRetryAt ≤ 20 ∧
        p.outbox ≠ [] := by
  obtain ⟨ms, run, fresh⟩ := Pair.played played
  have current := (Sound.reached brief_sound strangers_begin run fresh).server
  unfold Pair.waits at waits
  rw [Bool.and_eq_true, Bool.and_eq_true] at waits
  obtain ⟨⟨seen, here⟩, holds⟩ := waits
  obtain ⟨p, pending, holds⟩ := (Option.any_eq_true _ _).mp holds
  rw [Bool.and_eq_true] at holds
  refine ⟨of_decide_eq_true here, fun e present => ?_, p, pending, of_decide_eq_true holds.1,
    of_decide_eq_true holds.2⟩
  simp only [Option.all_eq_true, Bool.and_eq_true, decide_eq_true_eq] at seen
  exact ⟨.inl (seen e present), t.server, current, _, present⟩

/-- The initiator commits once its proposal is recorded. -/
theorem Pair.queued_recorded_commit : ∃ (t : Pair) (p : Pending) (m : Message) (kind : Kind),
    (t.memory true).pendingWith (t.other true) = some p ∧ m ∈ p.outbox ∧
      m.messageType = kind.code ∧ t.server.view.Recorded p.transcript.name kind true := by
  obtain ⟨t, played, holds⟩ := (Option.any_eq_true _ _).mp conversation
  rw [Bool.and_eq_true, Bool.and_eq_true, Bool.and_eq_true] at holds
  obtain ⟨⟨⟨waits, after⟩, before⟩, -⟩ := holds
  obtain ⟨here, shown, p, pending, due, queued⟩ := Pair.waits_call played waits
  obtain ⟨p', after, two⟩ := (Option.any_eq_true _ _).mp after
  rw [pending, Option.any_some] at before
  have more : p'.outbox ≠ p.outbox := by
    intro same
    have one := of_decide_eq_true before
    rw [← same, of_decide_eq_true two] at one
    cases one
  obtain ⟨m, member⟩ := List.exists_mem_of_ne_nil _ queued
  obtain ⟨ms, run, fresh⟩ := Pair.played played
  obtain ⟨kind, typed, recorded⟩ := Pair.queued_recorded brief_sound strangers_begin run fresh here
    shown pending due after more member
  exact ⟨t, p, m, kind, pending, member, typed, recorded⟩

/-- The responder completes the exchange once the server has. -/
theorem Pair.completed_closed_call : ∃ (t : Pair) (p : Pending),
    (t.memory false).pendingWith (t.other false) = some p ∧
      t.server.view.Closed p.transcript.name := by
  obtain ⟨u, started, holds⟩ := (Option.any_eq_true _ _).mp conversation
  rw [Bool.and_eq_true] at holds
  obtain ⟨t, further, holds⟩ := (Option.any_eq_true _ _).mp holds.2
  rw [Bool.and_eq_true, Bool.and_eq_true] at holds
  obtain ⟨⟨waits, complete⟩, -⟩ := holds
  have played := Pair.play_append started further
  obtain ⟨here, shown, p, pending, due, -⟩ := Pair.waits_call played waits
  obtain ⟨ms, run, fresh⟩ := Pair.played played
  exact ⟨t, p, pending, Pair.completed_closed brief_sound strangers_begin run fresh here shown
    pending due (toOption_some.mp (of_decide_eq_true complete))⟩

/-- The responder has confirmed, and both kernels have its key. -/
theorem Pair.confirmed_both_responder : ∃ (t : Pair) (f : Confirmed) (k : Candidate),
    t.Confirms false f ∧ k.psk = f.psk ∧ ∀ side, k ∈ t.installed side := by
  obtain ⟨u, started, holds⟩ := (Option.any_eq_true _ _).mp conversation
  rw [Bool.and_eq_true] at holds
  obtain ⟨v, further, holds⟩ := (Option.any_eq_true _ _).mp holds.2
  rw [Bool.and_eq_true] at holds
  obtain ⟨t, last, confirmed⟩ := (Option.any_eq_true _ _).mp holds.2
  obtain ⟨f, confirmed⟩ := Option.isSome_iff_exists.mp confirmed
  obtain ⟨ms, run, fresh⟩ := Pair.played (Pair.play_append (Pair.play_append started further) last)
  have confirms := Pair.confirmedBy_confirms confirmed
  obtain ⟨k, key, given⟩ := (Pair.confirmed_both brief_sound strangers_begin run fresh confirms).1
  exact ⟨t, f, k, confirms, key, given⟩

end Sample

end Innernet
