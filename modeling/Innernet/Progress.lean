import Innernet.Endpoint

/-! The course of one pending exchange: what a call makes of it, how it ends, and which messages it
has queued by then. -/
namespace Innernet

open Fallible

/-- The exchange with a record merged into it. -/
def Pending.takes [Native] (p : Pending) (other : Number) (remote : Option Exchange) : Pending :=
  { p with decision := (p.mergeRemote other remote).2 }

/-- What a call makes of an exchange that stays pending, once the record is merged into it. -/
inductive Call.Moved [Native] (c : Call) (s : EndpointState) (r : Relationship) (p : Pending) :
    Except Error Action → Pending → List (Bundle × Candidate) → Prop where
  | kept {result : Except Error Action} {calls : List (Bundle × Candidate)} :
      (∀ m, result = .ok (.send m) → p.outbox.getLast? = some m) → result ≠ .ok .complete →
      calls = [] ∨ (p.decision.phase = .committed ∧ calls = [(r.remote, p.candidate)]) →
      Moved c s r p result p calls
  | noted {e : Error} : p.decision.phase = .committed → p.installed = false →
      Moved c s r p (.error e) { p with installed := true } [(r.remote, p.candidate)]
  | unsigned {e : Error} : p.decision.phase = .committed → p.installed = true →
      Moved c s r p (.error e) { p with confirmed := true } []
  | committed {p' : Pending} {m : Message} : p.decision.phase = .ready → s.peerId < c.other →
      s.emit p .commit true c.draws = .ok (p', m) → Moved c s r p (.ok (.send m)) p' []
  | installed {p' : Pending} {m : Message} : p.decision.phase = .committed → p.installed = false →
      (¬ s.peerId < c.other ∨ p.decision.installed.responder = true) →
      s.emit { p with installed := true } .installed (s.initiates p) c.draws = .ok (p', m) →
      Moved c s r p (.ok (.send m)) p' [(r.remote, p.candidate)]
  | confirmed {p' : Pending} {m : Message} : p.decision.phase = .committed →
      p.installed = true → p.confirmed = false → c.fresh = .ok true →
      s.resends c.remote p c.now = false ∨ p.outbox.getLast? = none →
      s.emit { p with confirmed := true } .confirmed (s.initiates p) c.draws = .ok (p', m) →
      Moved c s r p (.ok (.send m)) p' []

/-- How a call opens an exchange. -/
inductive Call.Opened [Native] (c : Call) (s : EndpointState) (r r' : Relationship) (p : Pending)
    (m : Message) : Prop where
  | proposed : s.peerId < c.other → r.sequence.next = .ok r'.sequence →
      s.openProposal c.other r c.draws = .ok (p, m) → Opened c s r r' p m
  | answered {e : Exchange} {t : Transcript} : ¬ s.peerId < c.other → c.remote = some e →
      e.decision.phase = .proposed → e.transcript = some t → s.addressed c.other r t →
      s.openAnswer c.other r e t c.draws = .ok (p, m) → r'.sequence = r.sequence →
      Opened c s r r' p m

namespace EndpointState

variable [Native] {c : Call} {s : EndpointState} {r r' : Relationship} {result : Except Error Action}
  {calls : List (Bundle × Candidate)}

theorem Turn.moved (shut : s.Open r)
    (turn : Turn s c.other r c.remote c.now (.answering c.install c.fresh) c.draws [] result r' calls)
    {p' : Pending} (pending : r'.pending = some p') :
    (∃ p, r.pending = some p ∧ c.Moved s r (p.takes c.other c.remote) result p' calls ∧
      r'.sequence = r.sequence) ∨
    (r.pending = none ∧ calls = [] ∧ ∃ m, result = .ok (.send m) ∧ c.Opened s r r' p' m) := by
  have unasked : ∀ {calls : List (Bundle × Candidate)},
      (Installer.answering c.install c.fresh).Asked r.remote [] calls → calls = [] :=
    fun asked => asked.calls
  cases turn with
  | rested closed =>
    rcases closed with gated | blocked | retiring | none
    · rw [shut.1] at gated
      cases gated
    · exact absurd blocked shut.2.1
    · exact absurd retiring shut.2.2
    · rw [none] at pending
      cases pending
  | failed none =>
    rw [none] at pending
    cases pending
  | spent none =>
    dsimp only at pending
    rw [none] at pending
    cases pending
  | proposed none initiator next opened =>
    cases pending
    exact .inr ⟨none, rfl, _, rfl, .proposed initiator next opened⟩
  | answered none responder shown phase transcript addressed opened =>
    cases pending
    exact .inr ⟨none, rfl, _, rfl, .answered responder shown phase transcript addressed opened rfl⟩
  | @interrupted p e d before merged =>
    cases pending
    refine .inl ⟨p, before, ?_, rfl⟩
    rw [Pending.takes, merged]
    exact .kept (fun _ sent => nomatch sent) (fun done => nomatch done) (.inl rfl)
  | @resent p d m before merged resends last =>
    cases pending
    refine .inl ⟨p, before, ?_, rfl⟩
    rw [Pending.takes, merged]
    refine .kept (fun m' sent => ?_) (fun done => nomatch done) (.inl rfl)
    cases sent
    exact last
  | @acted p d _ _ _ before merged rests act =>
    have shape : p.takes c.other c.remote = { p with decision := d } := by rw [Pending.takes, merged]
    have kept : ∀ {result : Except Error Action}, (result = .ok .none ∨ ∃ e, result = .error e) →
        (∀ m, result = .ok (.send m) → p.outbox.getLast? = some m) ∧ result ≠ .ok .complete := by
      rintro result (rfl | ⟨e, rfl⟩)
      · exact ⟨fun _ sent => (nomatch sent), fun done => (nomatch done)⟩
      · exact ⟨fun _ sent => (nomatch sent), fun done => (nomatch done)⟩
    cases act with
    | abandoned => cases pending
    | held _ quiet asked =>
      cases pending
      refine .inl ⟨p, before, ?_, rfl⟩
      rw [shape]
      exact .kept (kept quiet).1 (kept quiet).2 (.inl (unasked asked))
    | refused phase _ called =>
      cases pending
      obtain rfl : calls = [(r.remote, p.candidate)] := (congrArg Prod.snd called).symm
      refine .inl ⟨p, before, ?_, rfl⟩
      rw [shape]
      exact .kept (fun _ sent => nomatch sent) (fun done => nomatch done) (.inr ⟨phase, rfl⟩)
    | committed phase initiator emitted =>
      cases pending
      refine .inl ⟨p, before, ?_, rfl⟩
      rw [shape]
      exact .committed phase initiator emitted
    | installed phase uninstalled turn called emitted =>
      cases pending
      obtain rfl : calls = [(r.remote, p.candidate)] := (congrArg Prod.snd called).symm
      refine .inl ⟨p, before, ?_, rfl⟩
      rw [shape]
      exact .installed phase uninstalled turn emitted
    | noted phase uninstalled called =>
      cases pending
      obtain rfl : calls = [(r.remote, p.candidate)] := (congrArg Prod.snd called).symm
      refine .inl ⟨p, before, ?_, rfl⟩
      rw [shape]
      exact .noted phase uninstalled
    | confirmed phase installed unconfirmed answered emitted =>
      cases pending
      obtain rfl : calls = [] := (congrArg Prod.snd answered).symm
      refine .inl ⟨p, before, ?_, rfl⟩
      rw [shape]
      exact .confirmed phase installed unconfirmed (congrArg Prod.fst answered) rests emitted
    | unsigned phase installed answered =>
      cases pending
      obtain rfl : calls = [] := (congrArg Prod.snd answered).symm
      refine .inl ⟨p, before, ?_, rfl⟩
      rw [shape]
      exact .unsigned phase installed
    | completed => cases pending

/-- How an exchange ends: with an aborted record, or with a complete decision. -/
theorem Turn.ended
    (turn : Turn s c.other r c.remote c.now (.answering c.install c.fresh) c.draws [] result r' calls)
    {p : Pending} (before : r.pending = some p) (after : r'.pending = none) : calls = [] ∧
      ((∃ d, (p.takes c.other c.remote).decision = d ∧ d.phase = .aborted ∧ result = .ok .none ∧
        r' = { r with pending := none }) ∨
      ∃ d transcriptHash, (p.takes c.other c.remote).decision = d ∧ d.phase = .complete ∧
        result = .ok .complete ∧
        (s.resends c.remote (p.takes c.other c.remote) c.now = false ∨ p.outbox.getLast? = none) ∧
        Crypto.hash p.transcript.encode = .ok transcriptHash ∧ r' = { r with
          confirmed := some {
            localBundleId := s.identity.bundle.bundleId
            remoteBundleId := r.remote.bundleId
            sequence := p.transcript.sequence
            exchangeId := p.transcript.exchangeId
            transcriptHash
            psk := p.candidate.psk
            completedAt := c.now }
          priorPq := true
          status := .confirmed
          pending := none }) := by
  have clash : r.pending ≠ none := by
    rw [before]
    exact Option.some_ne_none p
  cases turn with
  | rested => exact absurd after clash
  | failed none => exact absurd none clash
  | spent none => exact absurd none clash
  | proposed => cases after
  | answered => cases after
  | interrupted => cases after
  | resent => cases after
  | @acted q d _ _ _ same merged rests act =>
    rw [before] at same
    cases same
    have shape : p.takes c.other c.remote = { p with decision := d } := by rw [Pending.takes, merged]
    cases act with
    | abandoned phase => exact ⟨rfl, .inl ⟨d, by rw [shape], phase, rfl, rfl⟩⟩
    | completed phase hashed =>
      exact ⟨rfl, .inr ⟨d, _, by rw [shape], phase, rfl, by rw [shape]; exact rests, hashed, rfl⟩⟩
    | held => cases after
    | refused => cases after
    | committed => cases after
    | installed => cases after
    | noted => cases after
    | confirmed => cases after
    | unsigned => cases after

/-- With nothing pending before and after, a turn at most spends a sequence. -/
theorem Turn.idle
    (turn : Turn s c.other r c.remote c.now (.answering c.install c.fresh) c.draws [] result r' calls)
    (before : r.pending = none) (after : r'.pending = none) : calls = [] ∧
      (∀ action, result = .ok action → action = .none) ∧ r.sequence ≤ r'.sequence ∧
      r'.confirmed = r.confirmed := by
  have clash : ∀ p, r.pending ≠ some p := by
    intro p busy
    rw [before] at busy
    cases busy
  cases turn with
  | rested => exact ⟨rfl, fun _ same => (Except.ok.inj same).symm, le_refl _, rfl⟩
  | failed => exact ⟨rfl, fun _ same => (nomatch same), le_refl _, rfl⟩
  | spent _ next => exact ⟨rfl, fun _ same => (nomatch same), (Number.lt_of_next next).le, rfl⟩
  | proposed => cases after
  | answered => cases after
  | interrupted busy => exact absurd busy (clash _)
  | resent busy => exact absurd busy (clash _)
  | acted busy => exact absurd busy (clash _)

end EndpointState

/-- The messages a side has queued by the time of a decision. -/
def Decision.script (d : Decision) (side : Bool) : List Kind :=
  (if side then [.propose] else []) ++
    [Kind.ready, .commit, .installed, .confirmed].filter fun kind => d.has kind side

namespace Decision

/-- The other side's messages leave the script. -/
theorem script_advance {d d' : Decision} {kind : Kind} {side : Bool}
    (advanced : d.advance kind (!side) = .ok d') (regular : kind ≠ .abort) :
    d'.script side = d.script side := by
  have same : ∀ k, d'.has k side = d.has k side := by
    intro k
    rw [has_advance advanced regular]
    cases side <;> simp
  simp only [script, same]

/-- One's own message comes last in the script. -/
theorem script_own {d d' : Decision} {kind : Kind} {side : Bool} (valid : d.Valid)
    (advanced : d.advance kind side = .ok d') (regular : kind ≠ .abort) (first : kind ≠ .ready)
    (new : d.has kind side = false) : d'.script side = d.script side ++ [kind] := by
  have added : ∀ k, d'.has k side = (d.has k side || decide (k = kind)) := by
    intro k
    rw [has_advance advanced regular]
    simp
  have unordered : d.installed.get side = false → d.confirmed.get side = false := by
    intro never
    rw [← Bool.not_eq_true]
    intro confirmed
    rw [valid.ordered side confirmed] at never
    cases never
  have listed : d'.script side = (if side then [.propose] else []) ++
      [Kind.ready, .commit, .installed, .confirmed].filter fun k =>
        d.has k side || decide (k = kind) := by
    rw [script]
    congr 2
    funext k
    exact added k
  rw [listed, script]
  rcases advance_cases advanced with ⟨rfl, -⟩ | ⟨rfl, rfl, phase, -⟩ | ⟨rfl, -⟩ |
    ⟨rfl, phase, -, -⟩ | ⟨rfl, phase, installed, -⟩
  · exact absurd rfl first
  · have none := valid.early (.inr phase) true
    simp [has, phase, none, unordered none]
  · exact absurd rfl regular
  · have none : d.installed.get side = false := new
    cases side <;> simp [has, phase, none, unordered none]
  · have none : d.confirmed.get side = false := new
    cases side <;> simp [has, phase, none, installed]

end Decision

/-- How far an exchange has come, against what is known of its record: which receipts of the other
side it holds (`heard`), that it is over (`gone`), that it is complete (`done`), and that its first
message was put (`evident`). -/
structure Pending.Tracked (heard : Kind → Prop) (gone done evident : Prop) (side : Bool)
    (p : Pending) : Prop where
  valid : p.decision.Valid
  heard : ∀ kind, p.decision.has kind (!side) = true → heard kind
  aborted : p.decision.phase = .aborted → gone
  shaped : p.decision.phase ≠ .aborted →
    p.outbox.map Message.messageType = (p.decision.script side).map Kind.code ∨
      (p.decision.phase = .complete ∧ done)
  evident : p.decision.phase = .committed ∨ (side = true ∧ p.decision.phase = .ready) → evident
  installed : ∀ m ∈ p.outbox, m.messageType = Kind.installed.code ∨
    m.messageType = Kind.confirmed.code → p.installed = true
  confirmed : ∀ m ∈ p.outbox, m.messageType = Kind.confirmed.code → p.confirmed = true

namespace Pending.Tracked

variable {heard : Kind → Prop} {gone done evident : Prop} {side : Bool} {p p' : Pending}

theorem mono {heard' : Kind → Prop} {gone' done' evident' : Prop}
    (tracked : p.Tracked heard gone done evident side) (hears : ∀ kind, heard kind → heard' kind)
    (overs : gone → gone') (dones : done → done') (shows : evident → evident') :
    p.Tracked heard' gone' done' evident' side where
  valid := tracked.valid
  heard kind has := hears kind (tracked.heard kind has)
  aborted phase := overs (tracked.aborted phase)
  shaped phase := (tracked.shaped phase).imp_right (.imp_right dones)
  evident phase := shows (tracked.evident phase)
  installed := tracked.installed
  confirmed := tracked.confirmed

/-- What is tracked does not see the backoff. -/
theorem congr (tracked : p.Tracked heard gone done evident side)
    (decision : p'.decision = p.decision) (outbox : p'.outbox = p.outbox)
    (installed : p'.installed = p.installed) (confirmed : p'.confirmed = p.confirmed) :
    p'.Tracked heard gone done evident side := by
  constructor
  · rw [decision]
    exact tracked.valid
  · rw [decision]
    exact tracked.heard
  · rw [decision]
    exact tracked.aborted
  · rw [decision, outbox]
    exact tracked.shaped
  · rw [decision]
    exact tracked.evident
  · rw [outbox, installed]
    exact tracked.installed
  · rw [outbox, confirmed]
    exact tracked.confirmed

/-- A message of the kind is queued when the side's part of the decision shows it. -/
theorem queued (tracked : p.Tracked heard gone done evident side)
    (running : p.decision.phase ≠ .aborted) {kind : Kind}
    (later : kind = .ready ∨ kind = .commit ∨ kind = .installed ∨ kind = .confirmed)
    (has : p.decision.has kind side = true) :
    (∃ m ∈ p.outbox, m.messageType = kind.code) ∨ (p.decision.phase = .complete ∧ done) := by
  rcases tracked.shaped running with same | gone
  · have listed : kind.code ∈ p.outbox.map Message.messageType := by
      rw [same, List.mem_map]
      refine ⟨kind, List.mem_append_right _ (List.mem_filter.mpr ⟨?_, has⟩), rfl⟩
      simp only [List.mem_cons, List.not_mem_nil, or_false]
      exact later
    obtain ⟨m, member, type⟩ := List.mem_map.mp listed
    exact .inl ⟨m, member, type⟩
  · exact .inr gone

variable [Native]

/-- Merging a record: a terminal decision is taken over, or messages of the other side advance the
local one. -/
theorem takes {other : Number} {remote : Option Exchange}
    (tracked : p.Tracked heard gone done evident side)
    (role : decide (other = p.transcript.initiatorId) = !side)
    (finished : gone ∨ done → ∀ kind, heard kind)
    (copied : ∀ e, remote = some e → p.recordedIn e → e.decision.terminal = true →
      e.decision.Valid ∧ (e.decision.phase = .aborted → gone) ∧ (e.decision.phase = .complete → done))
    (advanced : ∀ e, remote = some e → p.recordedIn e → ∀ m ∈ e.messages, m.senderId = other →
      ∀ kind, m.messageType = Kind.code kind → m.authenticate p.transcript = .ok () →
      kind ≠ .abort ∧ (kind ≠ .propose → heard kind ∧ evident)) :
    (p.takes other remote).Tracked heard gone done evident side := by
  have all : ({ p with decision := (p.mergeRemote other remote).2 } : Pending).Tracked heard gone done
      evident side := by
    refine Pending.merged (P := fun d => ({ p with decision := d } : Pending).Tracked heard gone done
      evident side) tracked ?_ ?_
    · intro e shown recorded ended _
      obtain ⟨valid, overs, dones⟩ := copied e shown recorded ended
      have phases : e.decision.phase = .complete ∨ e.decision.phase = .aborted := by
        simpa [Decision.terminal] using ended
      refine ⟨valid, ?_, overs, ?_, ?_, tracked.installed, tracked.confirmed⟩
      · intro kind _
        rcases phases with phase | phase
        · exact finished (.inr (dones phase)) kind
        · exact finished (.inl (overs phase)) kind
      · intro running
        rcases phases with phase | phase
        · exact .inr ⟨phase, dones phase⟩
        · exact absurd phase running
      · dsimp only
        rcases phases with phase | phase
        · simp [phase]
        · simp [phase]
    · intro e shown recorded m member sender kind d d' typed authentic confirmed held step
      obtain ⟨regular, rest⟩ := advanced e shown recorded m member sender kind typed authentic
      rw [role] at step
      have later : kind ≠ .propose := by
        rintro rfl
        rcases Decision.advance_cases step with ⟨k, _⟩ | ⟨k, _⟩ | ⟨k, _⟩ | ⟨k, _⟩ | ⟨k, _⟩ <;> cases k
      obtain ⟨hears, shows⟩ := rest later
      have unaborted : d'.phase ≠ .aborted := by
        rcases Decision.advance_cases step with ⟨-, -, -, rfl⟩ | ⟨-, -, -, rfl⟩ | ⟨rfl, -⟩ |
          ⟨-, phase, -, rfl⟩ | ⟨-, phase, -, rfl⟩
        · simp
        · simp
        · exact absurd rfl regular
        · simp [phase]
        · dsimp only
          split <;> simp
      have before : d.phase ≠ .aborted ∧ d.phase ≠ .complete := by
        rcases Decision.advance_cases step with ⟨-, -, phase, -⟩ | ⟨-, -, phase, -⟩ | ⟨rfl, -⟩ |
          ⟨-, phase, -⟩ | ⟨-, phase, -⟩
        · simp [phase]
        · simp [phase]
        · exact absurd rfl regular
        · simp [phase]
        · simp [phase]
      refine ⟨held.valid.advance step, ?_, fun phase => absurd phase unaborted, ?_, fun _ => shows,
        held.installed, held.confirmed⟩
      · intro k has
        dsimp only at has
        rw [Decision.has_advance step regular, Bool.or_eq_true, decide_eq_true_eq] at has
        rcases has with old | ⟨rfl, -⟩
        · exact held.heard k old
        · exact hears
      · intro _
        dsimp only
        rw [Decision.script_advance step regular]
        rcases held.shaped before.1 with same | ⟨phase, -⟩
        · exact .inl same
        · exact absurd phase before.2
  exact all

end Pending.Tracked

end Innernet
