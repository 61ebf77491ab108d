import Innernet.Validity

/-! Which operations keep an endpoint state valid: a bundle renewed under its old id while an
exchange is pending, a proposal with a later sequence, a ninth message and a peer too many are the
four ways out. -/
namespace Innernet

open Fallible Tables

/-- Encapsulation makes an ephemeral key that validates. -/
def Native.Ephemeral [Native] : Prop :=
  ∀ drawn publicKey ciphertext shared, pqHybridEnc drawn publicKey = some (ciphertext, shared) →
    Crypto.validateX448 (ciphertext.setWidth _) = .ok ()

namespace EndpointState

variable [Native] {s : EndpointState} {other : Number} {r : Relationship} {p : Pending}

/-- The proposal passes every check of the responder, and the answer can be signed. -/
def Answerable (s : EndpointState) (c : Call) (r : Relationship) (e : Exchange) (t : Transcript) :
    Prop :=
  ∃ shared candidate propose,
    Crypto.decapsulate t.ciphertext s.identity.hybridSecret = .ok shared ∧
    Crypto.derive shared.kem shared.x448 r.operatorPsk t.encode = .ok candidate ∧
    (e.messages.find? fun m => m.senderId = c.other ∧ m.messageType = Kind.propose.code) =
      some propose ∧
    propose.authenticate t = .ok () ∧ propose.confirm candidate = .ok () ∧
    ∃ m, Message.signed c.draws.signature t .ready s.peerId candidate s.identity.signing = .ok m

/-- The record makes the responder take up a proposal whose sequence is above its own mark. -/
def Overtaken (s : EndpointState) (c : Call) (r : Relationship) : Prop :=
  r.pending = none ∧ ¬ s.peerId < c.other ∧ ∃ e t, c.remote = some e ∧
    e.decision.phase = .proposed ∧ e.transcript = some t ∧ s.addressed c.other r t ∧
    s.Answerable c r e t ∧ r.sequence < t.sequence

/-- The message the merged exchange is ready to send next. -/
def Ready (s : EndpointState) (c : Call) (p : Pending) (kind : Kind) : Prop :=
  (kind = .commit ∧ p.decision.phase = .ready ∧ s.peerId < c.other) ∨
  (kind = .installed ∧ p.decision.phase = .committed ∧ p.installed = false ∧
    (¬ s.peerId < c.other ∨ p.decision.installed.responder = true) ∧ c.install = .ok ()) ∨
  (kind = .confirmed ∧ p.decision.phase = .committed ∧ p.installed = true ∧ p.confirmed = false ∧
    c.fresh = .ok true)

/-- The next message of the merged exchange can be made. -/
def Queues (s : EndpointState) (c : Call) (p : Pending) : Prop :=
  ∃ kind, s.Ready c p kind ∧
    (∃ m, Message.signed c.draws.signature p.transcript kind s.peerId p.candidate
      s.identity.signing = .ok m) ∧
    ∃ d, p.decision.advance kind (s.initiates p) = .ok d

/-- A message is queued after eight others. -/
def Overfull (s : EndpointState) (c : Call) (r : Relationship) : Prop :=
  ∃ p d, r.pending = some p ∧ p.outbox.length = 8 ∧
    p.mergeRemote c.other c.remote = (.ok (), d) ∧
    s.resends c.remote { p with decision := d } c.now = false ∧ s.Queues c { p with decision := d }

/-- The four ways out of the valid states. -/
def Upsets (s : EndpointState) : Deed → Prop
  | .reconcile c => (c.other ≠ s.peerId ∧ c.other ≠ s.serverId) ∧
    ∃ r, s.relationship c.other = some r ∧ s.Open r ∧ (s.Overtaken c r ∨ s.Overfull c r)
  | .upkeep (.observeRemote peer bundle lifecycle) => (peer ≠ s.peerId ∧ peer ≠ s.serverId) ∧
    bundle.validate = .ok () ∧ lifecycle ≠ .retired ∧
    match s.relationship peer with
    | none => s.relationships.entries.length = 10000
    | some r => r.pending.isSome = true ∧ bundle.bundleId = r.remote.bundleId ∧
      r.remote.bundleRevision < bundle.bundleRevision
  | .upkeep _ => False

section Frames

omit [Native] in
theorem initiates_iff {c : Number} (initiatorId : p.transcript.initiatorId = min s.peerId c)
    (apart : c ≠ s.peerId) : s.initiates p = decide (s.peerId < c) := by
  unfold initiates
  rw [initiatorId]
  refine decide_eq_decide.mpr ?_
  rw [eq_comm, min_eq_left_iff]
  exact ⟨fun less => lt_of_le_of_ne less apart.symm, le_of_lt⟩

/-- What is checked of a relationship depends on nothing else of the state but who it is. -/
theorem Kept.moved {s' : EndpointState} (kept : s.Kept other r) (peerId : s'.peerId = s.peerId)
    (serverId : s'.serverId = s.serverId) (networkId : s'.networkId = s.networkId)
    (identity : s'.identity = s.identity) : s'.Kept other r := by
  refine ⟨by rw [peerId, serverId]; exact kept.apart, kept.remote, ?_⟩
  intro p found
  have pinned := kept.pinned p found
  refine ⟨pinned.transcript, by rw [networkId]; exact pinned.networkId,
    by rw [peerId]; exact pinned.initiatorId, by rw [peerId]; exact pinned.responderId,
    pinned.sequence, pinned.room, by rw [peerId, identity]; exact pinned.ours,
    by rw [peerId]; exact pinned.theirs, by rw [peerId]; exact pinned.outbox⟩

/-- Without a pending exchange only the peer's bundle is checked. -/
theorem Kept.cleared (kept : s.Kept other r) {r' : Relationship} (remote : r'.remote = r.remote)
    (idle : r'.pending = none) : s.Kept other r' := by
  refine ⟨kept.apart, by rw [remote]; exact kept.remote, ?_⟩
  intro p found
  rw [idle] at found
  cases found

theorem Kept.with (kept : s.Kept other r) {r' : Relationship} (remote : r'.remote = r.remote)
    (pending : r'.pending = some p) (pinned : s.Pinned other r' p) : s.Kept other r' := by
  refine ⟨kept.apart, by rw [remote]; exact kept.remote, ?_⟩
  intro q found
  rw [pending] at found
  cases found
  exact pinned

/-- The marks kept beside the messages are not checked. -/
theorem Kept.noted (kept : s.Kept other r) (pinned : s.Pinned other r p) {decision : Decision}
    {installed confirmed : Bool} {attempts nextRetryAt : Nat} :
    s.Kept other { r with pending := some { p with
      decision, installed, confirmed, attempts, nextRetryAt } } :=
  kept.with rfl rfl ⟨pinned.transcript, pinned.networkId, pinned.initiatorId, pinned.responderId,
    pinned.sequence, pinned.room, pinned.ours, pinned.theirs, pinned.outbox⟩

/-- What is signed with the endpoint's key for its pending exchange may be queued. -/
theorem Kept.queued (kept : s.Kept other r) (pinned : s.Pinned other r p)
    (verifies : Native.Verifies) (valid : s.Valid) {kind : Kind} {drawn : Nat} {m : Message}
    {decision : Decision} {installed confirmed : Bool} {attempts nextRetryAt : Nat}
    (room : p.outbox.length ≠ 8)
    (signed : Message.signed drawn p.transcript kind s.peerId p.candidate s.identity.signing =
      .ok m) :
    s.Kept other { r with pending := some { p with
      decision, outbox := p.outbox ++ [m], installed, confirmed, attempts, nextRetryAt } } := by
  have matching : Crypto.signingPublic s.identity.signing =
      .ok (p.transcript.bundleOf s.peerId).pqSigPublicKey := by
    rw [pinned.ours]
    exact valid.signing
  have few := pinned.room
  refine kept.with rfl rfl ⟨pinned.transcript, pinned.networkId, pinned.initiatorId,
    pinned.responderId, pinned.sequence, ?_, pinned.ours, pinned.theirs, ?_⟩
  · rw [List.length_append, List.length_singleton]
    omega
  · intro m' member
    rcases List.mem_append.mp member with earlier | last
    · exact pinned.outbox m' earlier
    · rw [List.mem_singleton.mp last]
      exact ⟨(Message.signed_made signed).senderId, Message.signed_authentic verifies matching signed⟩

/-- A row written into a valid state leaves it valid when the row passes and there is room. -/
theorem Valid.set_iff (valid : s.Valid)
    (room : (s.relationship other).isSome = true ∨ s.relationships.entries.length < 10000) :
    (s.setRelationship other r).Valid ↔ s.Kept other r := by
  constructor
  · intro after
    exact (after.kept other r (relationship_setRelationship s other r)).moved rfl rfl rfl rfl
  · intro kept
    refine ⟨valid.apart, ?_, valid.identity, valid.management, valid.registered, ?_⟩
    · change (s.relationships.insert other r).entries.length ≤ 10000
      rw [length_insert]
      have few := valid.few
      rcases room with known | room
      · rw [relationship] at known
        rw [if_pos known]
        exact few
      · split
        · omega
        · omega
    · intro other' r' found
      rw [relationship_insert] at found
      split at found
      · rename_i here
        cases found
        rw [here]
        exact kept.moved rfl rfl rfl rfl
      · exact (valid.kept other' r' found).moved rfl rfl rfl rfl

/-- A change made to every row, and to the identity that goes with it. -/
theorem Valid.mapped (valid : s.Valid) {s' : EndpointState} {f : Relationship → Relationship}
    (identity : s'.identity.validate = .ok ()) (registered : s'.registration.bundle = s'.identity.bundle)
    (peerId : s'.peerId = s.peerId) (serverId : s'.serverId = s.serverId)
    (management : s'.management = s.management)
    (relationships : s'.relationships = s.relationships)
    (remote : ∀ r, (f r).remote = r.remote)
    (idle : ∀ other r, s.relationship other = some r → (f r).pending = none) :
    (s'.mapRelationships f).Valid := by
  have size : (s'.mapRelationships f).relationships.entries.length =
      s.relationships.entries.length := by
    rw [mapRelationships, mapRows, List.length_map, relationships]
  refine ⟨?_, by rw [size]; exact valid.few, identity, ?_, registered, ?_⟩
  · change s'.peerId ≠ s'.serverId
    rw [peerId, serverId]
    exact valid.apart
  · change s'.management.validate = .ok ()
    rw [management]
    exact valid.management
  · intro other r' found
    rw [relationship_mapRelationships, relationship, relationships, Option.map_eq_some_iff] at found
    obtain ⟨r, known, rfl⟩ := found
    have kept := valid.kept other r known
    refine ⟨?_, by rw [remote]; exact kept.remote, ?_⟩
    · change other ≠ s'.peerId ∧ other ≠ s'.serverId
      rw [peerId, serverId]
      exact kept.apart
    · intro p found
      rw [idle other r known] at found
      cases found

end Frames

section Turns

theorem answerable_of_ok {c : Call} {e : Exchange} {t : Transcript} {m : Message}
    (opened : s.openAnswer c.other r e t c.draws = .ok (p, m)) : s.Answerable c r e t := by
  simp only [openAnswer, bind_ok] at opened
  obtain ⟨shared, decapsulated, candidate, derived, opened⟩ := opened
  split at opened
  · cases opened
  · rename_i propose found
    simp only [bind_ok, pure_ok, Prod.mk.injEq] at opened
    obtain ⟨_, authentic, _, confirmed, _, _, _, signed, _⟩ := opened
    exact ⟨shared, candidate, propose, decapsulated, derived, found, authentic, confirmed, _, signed⟩

theorem Answerable.opens {c : Call} {e : Exchange} {t : Transcript} (answerable : s.Answerable c r e t) :
    ∃ p m, s.openAnswer c.other r e t c.draws = .ok (p, m) ∧ p.transcript = t := by
  obtain ⟨shared, candidate, propose, decapsulated, derived, found, authentic, confirmed, m,
    signed⟩ := answerable
  obtain ⟨d, advanced⟩ : ∃ d, Decision.default.advance .ready false = .ok d := ⟨_, rfl⟩
  refine ⟨.opened t candidate d m, m, ?_, rfl⟩
  simp only [openAnswer, bind_ok, found]
  exact ⟨shared, decapsulated, candidate, derived, (), authentic, (), confirmed, d, advanced, m,
    signed, rfl⟩

theorem proposal_pinned (verifies : Native.Verifies) (ephemeral : Native.Ephemeral) (valid : s.Valid)
    (kept : s.Kept other r) (initiator : s.peerId < other) {draws : Draws} {following : Number}
    {m : Message} (next : r.sequence.next = .ok following)
    (opened : s.openProposal other r draws = .ok (p, m)) :
    s.Pinned other { r with sequence := following, pending := some p } p := by
  obtain ⟨t, candidate, rfl, signed, -, networkId, initiatorId, responderId, ours, theirs, sequence,
    shared, encapsulated, -⟩ := openProposal_ok opened
  have bundle : t.bundleOf s.peerId = s.identity.bundle := by
    rw [Transcript.bundleOf, if_pos initiatorId.symm]
    exact ours
  have matching : Crypto.signingPublic s.identity.signing =
      .ok (t.bundleOf s.peerId).pqSigPublicKey := by
    rw [bundle]
    exact valid.signing
  have own : s.identity.bundle.validate = .ok () := by
    have checked := valid.identity
    simp only [Identity.validate, bind_ok] at checked
    exact checked.choose_spec.1
  have sound : t.validate = .ok () := by
    simp only [Transcript.validate, bind_ok, require_ok]
    rw [initiatorId, responderId, ours, theirs]
    exact ⟨(), initiator, (), own, (), kept.remote, ephemeral _ _ _ _ encapsulated⟩
  constructor
  · exact sound
  · exact networkId
  · rw [min_eq_left (le_of_lt initiator)]
    exact initiatorId
  · rw [max_eq_right (le_of_lt initiator)]
    exact responderId
  · change t.sequence ≤ following
    rw [sequence]
    exact le_of_lt (Number.lt_of_next next)
  · exact Nat.le_add_left 1 7
  · exact bundle
  · rw [if_pos initiator]
    exact theirs
  · intro m' member
    rw [List.mem_singleton.mp member]
    exact ⟨(Message.signed_made signed).senderId, Message.signed_authentic verifies matching signed⟩

theorem answer_pinned (verifies : Native.Verifies) (valid : s.Valid) (kept : s.Kept other r)
    (responder : ¬ s.peerId < other) {draws : Draws} {e : Exchange} {t : Transcript} {m : Message}
    (sound : t.validate = .ok ()) (addressed : s.addressed other r t)
    (mark : t.sequence ≤ r.sequence)
    (opened : s.openAnswer other r e t draws = .ok (p, m)) :
    s.Pinned other { r with pending := some p } p := by
  obtain ⟨candidate, _, d, rfl, -, -, -, -, -, -, signed, -⟩ := openAnswer_ok opened
  obtain ⟨networkId, initiatorId, responderId, theirs, ours⟩ := addressed
  have bundle : t.bundleOf s.peerId = s.identity.bundle := by
    rw [Transcript.bundleOf, if_neg]
    · exact ours
    · rw [initiatorId]
      exact kept.apart.1.symm
  have matching : Crypto.signingPublic s.identity.signing =
      .ok (t.bundleOf s.peerId).pqSigPublicKey := by
    rw [bundle]
    exact valid.signing
  constructor
  · exact sound
  · exact networkId
  · rw [min_eq_right (not_lt.mp responder)]
    exact initiatorId
  · rw [max_eq_left (not_lt.mp responder)]
    exact responderId
  · exact mark
  · exact Nat.le_add_left 1 7
  · exact bundle
  · rw [if_neg responder]
    exact theirs
  · intro m' member
    rw [List.mem_singleton.mp member]
    exact ⟨(Message.signed_made signed).senderId, Message.signed_authentic verifies matching signed⟩

/-- A step on a pending exchange keeps it pinned, unless it queues a ninth message. -/
theorem Kept.act (verifies : Native.Verifies) (valid : s.Valid) {c : Call}
    (kept : s.Kept c.other r) (pinned : s.Pinned c.other r p)
    {result : Except Error Action} {r' : Relationship} {calls calls' : List (Bundle × Candidate)}
    (room : s.Queues c p → p.outbox.length ≠ 8)
    (acted : s.Act c.other r p c.now (.answering c.install c.fresh) c.draws calls result r' calls') :
    s.Kept c.other r' := by
  have side := initiates_iff pinned.initiatorId kept.apart.1
  cases acted with
  | abandoned => exact kept.cleared rfl rfl
  | held => exact kept.noted pinned
  | refused => exact kept.noted pinned
  | noted => exact kept.noted pinned
  | unsigned => exact kept.noted pinned
  | completed => exact kept.cleared rfl rfl
  | committed phase initiator emitted =>
    obtain ⟨signed, d, advanced, rfl⟩ := emit_ok emitted
    have free := room ⟨.commit, .inl ⟨rfl, phase, initiator⟩, ⟨_, signed⟩, d, by
      rw [side, decide_eq_true initiator]
      exact advanced⟩
    exact kept.queued pinned verifies valid free signed
  | installed phase fresh turn installed emitted =>
    obtain ⟨signed, d, advanced, rfl⟩ := emit_ok emitted
    have free := room ⟨.installed, .inr (.inl ⟨rfl, phase, fresh, turn,
      congrArg Prod.fst installed⟩), ⟨_, signed⟩, d, advanced⟩
    exact kept.queued pinned verifies valid free signed
  | confirmed phase present unconfirmed fresh emitted =>
    obtain ⟨signed, d, advanced, rfl⟩ := emit_ok emitted
    have free := room ⟨.confirmed, .inr (.inr ⟨rfl, phase, present, unconfirmed,
      congrArg Prod.fst fresh⟩), ⟨_, signed⟩, d, advanced⟩
    exact kept.queued pinned verifies valid free signed

/-- What one turn leaves of a relationship passes the checks, unless it is one of the two ways
out. -/
theorem Kept.turn (verifies : Native.Verifies) (ephemeral : Native.Ephemeral) (valid : s.Valid)
    {c : Call} (kept : s.Kept c.other r)
    (sound : ∀ e t, c.remote = some e → e.transcript = some t → t.validate = .ok ())
    (level : ¬ s.Overtaken c r) (room : ¬ s.Overfull c r) {result : Except Error Action}
    {r' : Relationship} {calls calls' : List (Bundle × Candidate)}
    (turn : s.Turn c.other r c.remote c.now (.answering c.install c.fresh) c.draws calls result r'
      calls') : s.Kept c.other r' := by
  cases turn with
  | rested => exact kept
  | failed => exact kept
  | spent idle => exact kept.cleared rfl idle
  | proposed idle initiator next opened =>
    exact kept.with rfl rfl (proposal_pinned verifies ephemeral valid kept initiator next opened)
  | answered idle responder shown phase transcript addressed opened =>
    have mark := not_lt.mp fun above => level ⟨idle, responder, _, _, shown, phase, transcript,
      addressed, answerable_of_ok opened, above⟩
    exact kept.with rfl rfl (answer_pinned verifies valid kept responder
      (sound _ _ shown transcript) addressed mark opened)
  | interrupted found =>
    exact kept.noted (kept.pinned _ found)
  | resent found =>
    exact kept.noted (kept.pinned _ found)
  | @acted p d _ _ _ found merged due act =>
    have pinned := kept.pinned p found
    have merging : s.Pinned c.other r { p with decision := d } :=
      ⟨pinned.transcript, pinned.networkId, pinned.initiatorId, pinned.responderId,
        pinned.sequence, pinned.room, pinned.ours, pinned.theirs, pinned.outbox⟩
    refine kept.act verifies valid merging ?_ act
    intro queues full
    have full : p.outbox.length = 8 := full
    refine room ⟨p, d, found, full, merged, ?_, queues⟩
    rcases due with early | empty
    · exact early
    · rw [List.getLast?_eq_none_iff.mp empty] at full
      cases full

theorem queue_signed {q : Pending} {kind : Kind} {side : Bool} {draws : Draws} {m : Message}
    {d : Decision}
    (signed : Message.signed draws.signature q.transcript kind s.peerId q.candidate
      s.identity.signing = .ok m) (advanced : q.decision.advance kind side = .ok d) :
    s.queue r q kind side draws = (.ok (.send m), { r with pending := some { q with
      decision := d, outbox := q.outbox ++ [m], attempts := 0, nextRetryAt := 0 } }) := by
  have emitted : s.emit q kind side draws = .ok ({ q with
      decision := d, outbox := q.outbox ++ [m], attempts := 0, nextRetryAt := 0 }, m) := by
    simp only [emit, bind_ok, pure_ok]
    exact ⟨m, signed, d, advanced, rfl⟩
  unfold queue
  rw [emitted]

/-- What is queued stands behind the messages there were. -/
theorem act_queues {c : Call} (side : s.initiates p = decide (s.peerId < c.other))
    (queues : s.Queues c p) (calls : List (Bundle × Candidate)) : ∃ q m,
    (s.act c.other r p c.now (.answering c.install c.fresh) c.draws calls).1 = .ok (.send m) ∧
    (s.act c.other r p c.now (.answering c.install c.fresh) c.draws calls).2.1 =
      { r with pending := some q } ∧ q.outbox = p.outbox ++ [m] := by
  obtain ⟨kind, ready, ⟨m, signed⟩, d, advanced⟩ := queues
  rcases ready with ⟨rfl, phase, initiator⟩ | ⟨rfl, phase, fresh, turn, installs⟩ |
    ⟨rfl, phase, present, unconfirmed, seen⟩
  · rw [side, decide_eq_true initiator] at advanced
    unfold act
    rw [phase]
    dsimp only
    rw [if_pos initiator, queue_signed signed advanced]
    exact ⟨_, m, rfl, rfl, rfl⟩
  · have queued := queue_signed (s := s) (r := r) (q := { p with installed := true }) signed advanced
    unfold act
    rw [phase]
    dsimp only
    unfold EndpointState.committed
    dsimp only
    rw [if_pos fresh, if_pos turn, Installer.answering, installs]
    dsimp only
    rw [← initiates.eq_1, queued]
    exact ⟨_, m, rfl, rfl, rfl⟩
  · have queued := queue_signed (s := s) (r := r) (q := { p with confirmed := true }) signed advanced
    unfold act
    rw [phase]
    dsimp only
    unfold EndpointState.committed
    dsimp only
    rw [if_neg (by rw [present]; nofun), if_pos unconfirmed, Installer.answering, seen]
    dsimp only
    rw [← initiates.eq_1, queued]
    exact ⟨_, m, rfl, rfl, rfl⟩

/-- An open relationship takes its turn. -/
theorem perform_turned {c : Call} (apart : c.other ≠ s.peerId ∧ c.other ≠ s.serverId)
    (known : s.relationship c.other = some r) (opened : s.Open r) : (c.perform s).2.1 =
      s.setRelationship c.other (match r.pending with
        | some p => (s.proceed c.other r p c.remote c.now (.answering c.install c.fresh) c.draws
            []).2.1
        | none => if s.peerId < c.other then
            if r.due c.now c.rotationInterval c.idleTimeout then (s.propose c.other r c.draws).2
            else r
          else (s.answer c.other r c.remote c.draws).2) := by
  have shut : ¬ (r.gated = true ∨ r.status = .blocked ∨ s.enrollment = .retiring) := by
    rw [not_or, not_or, Bool.not_eq_true]
    exact opened
  unfold Call.perform reconcile reconcileRelationship
  rw [if_neg (not_or.mpr apart), known]
  dsimp only
  rw [if_neg shut]
  cases r.pending with
  | some p => rfl
  | none =>
    dsimp only
    split
    · split
      · rfl
      · rfl
    · rfl

theorem overtaken_invalid {c : Call} (apart : c.other ≠ s.peerId ∧ c.other ≠ s.serverId)
    (known : s.relationship c.other = some r) (opened : s.Open r) (overtaken : s.Overtaken c r) :
    ¬ (c.perform s).2.1.Valid := by
  intro valid
  obtain ⟨idle, responder, e, t, shown, phase, transcript, addressed, answerable, above⟩ := overtaken
  obtain ⟨p, m, answered, rfl⟩ := answerable.opens
  rw [perform_turned apart known opened, idle] at valid
  dsimp only at valid
  rw [if_neg responder, shown] at valid
  unfold answer at valid
  dsimp only at valid
  rw [if_neg (not_not.mpr phase), transcript] at valid
  dsimp only at valid
  rw [if_neg (not_not.mpr addressed), answered] at valid
  have kept := valid.kept c.other _ (relationship_setRelationship _ _ _)
  exact absurd (kept.pinned p rfl).sequence (not_le.mpr above)

theorem overfull_invalid {c : Call} (apart : c.other ≠ s.peerId ∧ c.other ≠ s.serverId)
    (known : s.relationship c.other = some r) (opened : s.Open r) (kept : s.Kept c.other r)
    (overfull : s.Overfull c r) : ¬ (c.perform s).2.1.Valid := by
  intro valid
  obtain ⟨p, d, found, full, merged, early, queues⟩ := overfull
  have side := initiates_iff (kept.pinned p found).initiatorId apart.1
  obtain ⟨q, m, -, moved, outbox⟩ := act_queues (r := r) (p := { p with decision := d }) side queues []
  rw [perform_turned apart known opened, found] at valid
  dsimp only at valid
  unfold proceed at valid
  rw [merged] at valid
  dsimp only at valid
  rw [early] at valid
  dsimp only at valid
  rw [moved] at valid
  have kept := valid.kept c.other _ (relationship_setRelationship _ _ _)
  have room := (kept.pinned q rfl).room
  rw [outbox, List.length_append, full, List.length_singleton] at room
  exact absurd room (by decide)

theorem reconcile_valid_iff (verifies : Native.Verifies) (ephemeral : Native.Ephemeral)
    (valid : s.Valid) {c : Call}
    (sound : ∀ e t, c.remote = some e → e.transcript = some t → t.validate = .ok ()) :
    (c.perform s).2.1.Valid ↔ ¬ s.Upsets (.reconcile c) := by
  constructor
  · rintro after ⟨apart, r, known, opened, overtaken | overfull⟩
    · exact overtaken_invalid apart known opened overtaken after
    · exact overfull_invalid apart known opened (valid.kept c.other r known) overfull after
  · intro calm
    have performed := c.performed s
    generalize (c.perform s).1 = result at performed
    generalize (c.perform s).2.1 = s' at performed ⊢
    generalize (c.perform s).2.2 = calls at performed
    cases performed with
    | refused => exact valid
    | @closed r known =>
      exact (valid.set_iff (.inl (by rw [known]; rfl))).mpr (valid.kept c.other r known)
    | @turned r r' _ _ apart known opened turn =>
      refine (valid.set_iff (.inl (by rw [known]; rfl))).mpr ?_
      exact (valid.kept c.other r known).turn verifies ephemeral valid sound
        (fun overtaken => calm ⟨apart, r, known, opened, .inl overtaken⟩)
        (fun overfull => calm ⟨apart, r, known, opened, .inr overfull⟩) turn

end Turns

section Upkeep

omit [Native] in
theorem settle_remote (r : Relationship) (lifecycle : Lifecycle) :
    (r.settle lifecycle).remote = r.remote := by
  unfold Relationship.settle
  split
  · rfl
  · split
    · rfl
    · rfl

/-- What stays pending through an observation: the exchanges of a bundle id that stays. -/
theorem observed_pending (kept : s.Kept other r) {bundle : Bundle} {lifecycle : Lifecycle} :
    (Relationship.settle (.refresh s.peerId other r bundle) lifecycle).pending = some p ↔
      r.pending = some p ∧ lifecycle ≠ .retired ∧ bundle.bundleId = r.remote.bundleId := by
  have refreshed : (Relationship.refresh s.peerId other r bundle).pending = some p ↔
      r.pending = some p ∧ bundle.bundleId = r.remote.bundleId := by
    unfold Relationship.refresh
    dsimp only
    cases found : r.pending with
    | none => simp
    | some q =>
      have theirs := (kept.pinned q found).theirs
      have pinned : (if s.peerId < other then q.transcript.responder
          else q.transcript.initiator).bundleId = r.remote.bundleId := congrArg _ theirs
      by_cases same : bundle.bundleId = r.remote.bundleId
      · simp [same]
      · simp [same, pinned]
  by_cases retired : lifecycle = .retired
  · rw [Relationship.settle, if_pos retired]
    simp [retired]
  · have settled : (Relationship.settle (.refresh s.peerId other r bundle) lifecycle).pending =
        (Relationship.refresh s.peerId other r bundle).pending := by
      unfold Relationship.settle
      rw [if_neg retired]
      split
      · rfl
      · rfl
    rw [settled, refreshed]
    simp [retired]

/-- A bundle renewed under its id leaves the pending exchange pinned to the one before. -/
theorem observed_iff (kept : s.Kept other r) {bundle : Bundle} {lifecycle : Lifecycle}
    (follows : r.Follows bundle) :
    s.Kept other (.settle (.refresh s.peerId other r bundle) lifecycle) ↔
      ¬ (lifecycle ≠ .retired ∧ r.pending.isSome = true ∧
        bundle.bundleId = r.remote.bundleId ∧ r.remote.bundleRevision < bundle.bundleRevision) := by
  have remote : (Relationship.settle (.refresh s.peerId other r bundle) lifecycle).remote = bundle :=
    settle_remote _ _
  have sequence : (Relationship.settle (.refresh s.peerId other r bundle) lifecycle).sequence =
      r.sequence := by
    unfold Relationship.settle
    split
    · rfl
    · split
      · rfl
      · rfl
  constructor
  · rintro after ⟨enabled, busy, same, newer⟩
    obtain ⟨p, found⟩ := Option.isSome_iff_exists.mp busy
    have before := (kept.pinned p found).theirs
    have later := (after.pinned p ((observed_pending kept).mpr ⟨found, enabled, same⟩)).theirs
    rw [remote, before] at later
    rw [later] at newer
    exact absurd newer (lt_irrefl _)
  · intro calm
    refine ⟨kept.apart, by rw [remote]; exact follows.1, ?_⟩
    intro p found
    obtain ⟨before, enabled, same⟩ := (observed_pending kept).mp found
    have unchanged : bundle = r.remote := by
      by_contra changed
      have level := not_or.mp follows.2
      have newer : r.remote.bundleRevision < bundle.bundleRevision := by
        refine lt_of_le_of_ne (not_lt.mp level.1) ?_
        intro equal
        exact level.2 ⟨equal.symm, changed⟩
      exact calm ⟨enabled, by rw [before]; rfl, same, newer⟩
    have pinned := kept.pinned p before
    exact ⟨pinned.transcript, pinned.networkId, pinned.initiatorId, pinned.responderId,
      by rw [sequence]; exact pinned.sequence, pinned.room, pinned.ours,
      by rw [remote, unchanged]; exact pinned.theirs, pinned.outbox⟩

theorem fresh_kept (apart : other ≠ s.peerId ∧ other ≠ s.serverId) {bundle : Bundle}
    (sound : bundle.validate = .ok ()) : s.Kept other (.fresh bundle) :=
  ⟨apart, sound, fun _ found => nomatch found⟩

/-- An observation that is refused changes nothing; one that goes through writes one row. -/
theorem observeRemote_eq (apart : other ≠ s.peerId ∧ other ≠ s.serverId) {bundle : Bundle}
    (lifecycle : Lifecycle) (sound : bundle.validate = .ok ()) :
    s.after (s.observeRemote other bundle lifecycle) = match s.relationship other with
      | none => if lifecycle ≠ .retired then
          s.setRelationship other (.settle (.fresh bundle) lifecycle) else s
      | some r => if bundle.bundleRevision < r.remote.bundleRevision ∨
            (bundle.bundleRevision = r.remote.bundleRevision ∧ bundle ≠ r.remote) then s
          else s.setRelationship other
            (.settle (.refresh s.peerId other r bundle) lifecycle) := by
  unfold observeRemote
  rw [sound]
  cases s.relationship other with
  | none =>
    by_cases enabled : lifecycle ≠ .retired
    · simp [apart, enabled, require, bind, Except.bind, pure, Except.pure, after]
    · simp [apart, enabled, require, bind, Except.bind, after]
  | some r =>
    dsimp only
    by_cases behind : bundle.bundleRevision < r.remote.bundleRevision ∨
        (bundle.bundleRevision = r.remote.bundleRevision ∧ bundle ≠ r.remote)
    · rw [if_pos behind]
      simp only [require, if_neg (not_not.mpr behind), if_pos apart]
      rfl
    · rw [if_neg behind]
      simp only [require, if_pos behind, if_pos apart]
      rfl

theorem observeRemote_valid_iff (valid : s.Valid) {bundle : Bundle} {lifecycle : Lifecycle} :
    (s.after (s.observeRemote other bundle lifecycle)).Valid ↔
      ¬ s.Upsets (.upkeep (.observeRemote other bundle lifecycle)) := by
  unfold Upsets
  dsimp only
  by_cases allowed : (other ≠ s.peerId ∧ other ≠ s.serverId) ∧ bundle.validate = .ok ()
  swap
  · have refused : s.after (s.observeRemote other bundle lifecycle) = s := by
      cases observed : s.observeRemote other bundle lifecycle with
      | error e => rfl
      | ok s' =>
        simp only [observeRemote, bind_ok, require_ok] at observed
        obtain ⟨_, apart, _, sound, -⟩ := observed
        exact absurd ⟨apart, sound⟩ allowed
    rw [refused]
    exact ⟨fun _ upsets => allowed ⟨upsets.1, upsets.2.1⟩, fun _ => valid⟩
  obtain ⟨apart, sound⟩ := allowed
  rw [observeRemote_eq apart lifecycle sound]
  cases known : s.relationship other with
  | none =>
    dsimp only
    by_cases enabled : lifecycle ≠ .retired
    · rw [if_pos enabled]
      have settled : Relationship.settle (.fresh bundle) lifecycle = .fresh bundle := by
        cases lifecycle with
        | enabled => exact settle_fresh bundle
        | retired => exact absurd rfl enabled
      rw [settled]
      constructor
      · rintro after ⟨-, -, -, full⟩
        have few := after.few
        change (s.relationships.insert other _).entries.length ≤ 10000 at few
        rw [relationship] at known
        rw [length_insert, known, full] at few
        exact absurd few (by decide)
      · intro calm
        have few := valid.few
        have room : s.relationships.entries.length ≠ 10000 := fun full =>
          calm ⟨apart, sound, enabled, full⟩
        exact (valid.set_iff (.inr (by omega))).mpr (fresh_kept apart sound)
    · rw [if_neg enabled]
      exact ⟨fun _ upsets => enabled upsets.2.2.1, fun _ => valid⟩
  | some r =>
    dsimp only
    have kept := valid.kept other r known
    have met : (s.relationship other).isSome = true := by rw [known]; rfl
    by_cases behind : bundle.bundleRevision < r.remote.bundleRevision ∨
        (bundle.bundleRevision = r.remote.bundleRevision ∧ bundle ≠ r.remote)
    swap
    · rw [if_neg behind, valid.set_iff (.inl met), observed_iff kept ⟨sound, behind⟩]
      refine not_congr ?_
      constructor
      · rintro ⟨enabled, busy, same, newer⟩
        exact ⟨apart, sound, enabled, busy, same, newer⟩
      · rintro ⟨-, -, enabled, busy, same, newer⟩
        exact ⟨enabled, busy, same, newer⟩
    · rw [if_pos behind]
      refine ⟨?_, fun _ => valid⟩
      rintro - ⟨-, -, -, -, -, newer⟩
      rcases behind with older | ⟨equal, -⟩
      · exact absurd (lt_trans older newer) (lt_irrefl _)
      · rw [equal] at newer
        exact absurd newer (lt_irrefl _)

/-- A backoff that is noted touches no message. -/
theorem noteSendFailure_valid (valid : s.Valid) (now : Nat) (drawn : Except Error UInt8) :
    (s.noteSendFailure other now drawn).2.Valid := by
  unfold noteSendFailure
  split
  · exact valid
  rename_i r known
  split
  · exact valid
  rename_i p found
  have kept := valid.kept other r known
  have met : (s.relationship other).isSome = true := by rw [known]; rfl
  dsimp only
  split
  · exact (valid.set_iff (.inl met)).mpr (kept.noted (kept.pinned p found))
  · exact (valid.set_iff (.inl met)).mpr (kept.noted (kept.pinned p found))

theorem observeActivity_valid (valid : s.Valid) (now rxBytes txBytes : Nat) :
    (s.after (s.observeActivity other now rxBytes txBytes)).Valid := by
  unfold observeActivity
  split
  · exact valid
  rename_i r known
  dsimp only [after]
  split
  · exact valid
  · have kept := valid.kept other r known
    refine (valid.set_iff (.inl (by rw [known]; rfl))).mpr ⟨kept.apart, kept.remote, ?_⟩
    intro p found
    have pinned := kept.pinned p found
    exact ⟨pinned.transcript, pinned.networkId, pinned.initiatorId, pinned.responderId,
      pinned.sequence, pinned.room, pinned.ours, pinned.theirs, pinned.outbox⟩

omit [Native] in
theorem accepted_eq {s' : EndpointState} {advertised : AdvertisedBundle}
    (accepted : s.acceptRegistration advertised = .ok s') : ∃ enrollment,
      s' = { s with enrollment } :=
  ⟨_, (acceptRegistration_ok accepted).2.2⟩

theorem Valid.enrolled (valid : s.Valid) (enrollment : Enrollment) :
    Valid { s with enrollment } :=
  ⟨valid.apart, valid.few, valid.identity, valid.management, valid.registered,
    fun other r known => (valid.kept other r known).moved rfl rfl rfl rfl⟩

theorem upkeep_valid_iff (valid : s.Valid) (u : Upkeep) :
    (u.perform s).Valid ↔ ¬ s.Upsets (.upkeep u) := by
  cases u with
  | observeRemote peer bundle lifecycle => exact observeRemote_valid_iff valid
  | observeActivity peer now rxBytes txBytes =>
    exact iff_of_true (observeActivity_valid valid now rxBytes txBytes) id
  | noteSendFailure peer now drawn => exact iff_of_true (noteSendFailure_valid valid now drawn) id
  | setPolicy permissive =>
    refine iff_of_true ?_ id
    exact ⟨valid.apart, valid.few, valid.identity, valid.management, valid.registered,
      fun other r known => (valid.kept other r known).moved rfl rfl rfl rfl⟩
  | replace identity =>
    refine iff_of_true ?_ id
    change (s.after (s.replace identity)).Valid
    cases replaced : s.replace identity with
    | error e => exact valid
    | ok s' =>
      simp only [replace, bind_ok, require_ok, pure_ok] at replaced
      obtain ⟨_, idle, _, _, _, _, _, _, _, sound, rfl⟩ := replaced
      exact valid.mapped sound rfl rfl rfl rfl rfl (fun _ => rfl)
        fun _ r known => (pending_none_of_any idle known : r.pending = none)
  | submitPendingRegistration reply =>
    refine iff_of_true ?_ id
    change (s.after (s.submitPendingRegistration reply)).Valid
    rcases s.submitPendingRegistration_cases reply with same | ⟨advertised, s', -, accepted, same⟩
    · rw [same]
      exact valid
    · obtain ⟨enrollment, rfl⟩ := accepted_eq accepted
      rw [same]
      exact valid.enrolled enrollment
  | acceptRegistration advertised =>
    refine iff_of_true ?_ id
    change (s.after (s.acceptRegistration advertised)).Valid
    cases accepted : s.acceptRegistration advertised with
    | error e => exact valid
    | ok s' =>
      obtain ⟨enrollment, rfl⟩ := accepted_eq accepted
      exact valid.enrolled enrollment
  | disable =>
    refine iff_of_true ?_ id
    change (s.after s.disable).Valid
    cases disabled : s.disable with
    | error e => exact valid
    | ok s' =>
      simp only [disable, bind_ok, require_ok, pure_ok] at disabled
      obtain ⟨_, _, rfl⟩ := disabled
      exact valid.mapped valid.identity rfl rfl rfl rfl rfl (fun _ => rfl) fun _ _ _ => rfl
  | emergencyRetire =>
    refine iff_of_true ?_ id
    exact valid.mapped valid.identity rfl rfl rfl rfl rfl (fun _ => rfl) fun _ _ _ => rfl

end Upkeep

/-- An operation on a valid state leaves a valid state exactly when it takes none of the four ways
out. -/
theorem validate_kept_iff (verifies : Native.Verifies) (ephemeral : Native.Ephemeral)
    (valid : s.validate = .ok ()) (d : Deed)
    (sound : ∀ c e t, d = .reconcile c → c.remote = some e → e.transcript = some t →
      t.validate = .ok ()) :
    (d.apply s).validate = .ok () ↔ ¬ s.Upsets d := by
  rw [validate_ok]
  cases d with
  | reconcile c =>
    exact reconcile_valid_iff verifies ephemeral (validate_ok.mp valid) fun e t => sound c e t rfl
  | upkeep u => exact upkeep_valid_iff (validate_ok.mp valid) u

end EndpointState

section Sample

open Arithmetic

attribute [local instance] native

namespace Arithmetic

theorem native_ephemeral : Native.Ephemeral := fun _ _ _ _ _ => rfl

/-- A responder that has met its peer. -/
def answerer : EndpointState :=
  { endpoint third (identity 3 first) ((∅ : Table Number Relationship).insert second
      (.fresh (identity 2 first).bundle)) with
    management := ⟨0, 1, true, none, none⟩ }

/-- The record of a proposal with the given sequence. -/
def proposedAs (sequence : Number) : Option Exchange :=
  shown (transcript sequence 5) .proposed [(.propose, second)]

theorem proposedAs_transcript {sequence : Number} {e : Exchange} {t : Transcript}
    (shown : proposedAs sequence = some e) (found : e.transcript = some t) :
    t = transcript sequence 5 := by
  unfold proposedAs Arithmetic.shown at shown
  split at shown
  · cases shown
    cases found
    rfl
  · cases shown

theorem answerer_valid : answerer.validate = .ok () := toOption_some.mp (by decide +kernel)

end Arithmetic

theorem Arithmetic.answerer_met {r : Relationship} (known : answerer.relationship second = some r) :
    r = .fresh (identity 2 first).bundle := by
  have fresh : answerer.relationship second = some (.fresh (identity 2 first).bundle) :=
    AList.lookup_insert _
  rw [fresh] at known
  exact (Option.some.inj known).symm

/-- The first proposal is answered, and the state stays valid. -/
theorem EndpointState.validate_kept_iff_first :
    ((turn second (proposedAs first)).apply answerer).validate = .ok () := by
  refine (EndpointState.validate_kept_iff native_verifies native_ephemeral answerer_valid _ ?_).mpr ?_
  · intro c e t here shown found
    cases here
    rw [proposedAs_transcript shown found]
    exact toOption_some.mp (by decide +kernel)
  · rintro ⟨-, r, known, -, ⟨-, -, e, t, shown, -, found, -, -, above⟩ | ⟨p, -, found, -⟩⟩
    · rw [answerer_met known, proposedAs_transcript shown found] at above
      exact absurd above (lt_irrefl _)
    · rw [answerer_met known] at found
      cases found

/-- The second proposal a responder answers leaves it with a state that does not validate. -/
theorem EndpointState.validate_lost : ∃ (s : EndpointState) (e : Exchange) (c : Call),
    s.validate = .ok () ∧ c.remote = some e ∧
      (∃ t, e.transcript = some t ∧ t.validate = .ok ()) ∧
      (c.perform s).2.1.validate ≠ .ok () := by
  have shown : (proposedAs second).isSome = true := by decide +kernel
  obtain ⟨e, record⟩ := Option.isSome_iff_exists.mp shown
  obtain ⟨c, here⟩ : ∃ c, turn second (proposedAs second) = .reconcile c := ⟨_, rfl⟩
  have remote : c.remote = some e := by
    cases here
    exact record
  have found : ((proposedAs second).bind Exchange.transcript).isSome = true := by decide +kernel
  rw [record] at found
  obtain ⟨t, found⟩ := Option.isSome_iff_exists.mp found
  refine ⟨answerer, e, c, answerer_valid, remote, ⟨t, found, ?_⟩, ?_⟩
  · rw [proposedAs_transcript record found]
    exact toOption_some.mp (by decide +kernel)
  · intro kept
    have lost : ((turn second (proposedAs second)).apply answerer).validate.toOption = none := by
      decide +kernel
    rw [here] at lost
    change (c.perform answerer).2.1.validate.toOption = none at lost
    rw [kept] at lost
    cases lost

end Sample

end Innernet
