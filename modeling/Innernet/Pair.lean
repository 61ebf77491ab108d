import Innernet.Correspondence

/-! Two clients and their server: what `apply` of `client-core/src/pq_sync.rs` does for one peer, with
saves that fail, requests that are lost or late and restarts, beside every operation of the
server. -/
namespace Innernet

open Fallible Tables Runs

/-- The endpoint on one side is in another state. -/
def Couple.resume (t : Couple) : Bool → EndpointState → Couple
  | true, s => { t with initiator := { t.initiator with state := s } }
  | false, s => { t with responder := { t.responder with state := s } }

namespace Couple.Concord

variable [Native] {t u : Couple}

/-- The other couple's responder in this one, where all it knows is known. -/
theorem with_responder (here : t.Concord) (there : u.Concord)
    (initiator : u.initiator.state.peerId = t.initiator.state.peerId)
    (responder : u.responder.state.peerId = t.responder.state.peerId)
    (proposed : ∀ q, u.Proposed q → t.Proposed q)
    (published : ∀ b ∈ u.published, b ∈ t.published) :
    (t.resume false u.responder.state).Concord where
  ordered := by
    change t.initiator.state.peerId < u.responder.state.peerId
    rw [responder]
    exact here.ordered
  offers := here.offers
  distinct := here.distinct
  observed := by
    change ∀ r, t.initiator.state.relationship u.responder.state.peerId = some r → _
    rw [responder]
    exact here.observed
  current := published _ there.current
  keys := there.keys
  unique := here.unique
  initiator := by
    change ∀ r, t.initiator.state.relationship u.responder.state.peerId = some r → _
    rw [responder]
    exact here.initiator
  responder := by
    change ∀ r, u.responder.state.relationship t.initiator.state.peerId = some r → _
    rw [← initiator]
    exact fun r known => (there.responder r known).mono proposed

theorem with_initiator (here : t.Concord) (there : u.Concord)
    (initiator : u.initiator.state.peerId = t.initiator.state.peerId)
    (responder : u.responder.state.peerId = t.responder.state.peerId)
    (proposed : ∀ q, u.Proposed q → t.Proposed q)
    (published : ∀ b ∈ u.published, b ∈ t.published) :
    (t.resume true u.initiator.state).Concord where
  ordered := by
    change u.initiator.state.peerId < t.responder.state.peerId
    rw [initiator]
    exact here.ordered
  offers := by
    change ∀ q m, _ → _ ∧ _ = u.initiator.state.peerId ∧ _
    rw [initiator]
    exact here.offers
  distinct := here.distinct
  observed := by
    change ∀ r, u.initiator.state.relationship t.responder.state.peerId = some r → _
    rw [← responder]
    exact fun r known => published _ (there.observed r known)
  current := here.current
  keys := here.keys
  unique := here.unique
  initiator := by
    change ∀ r, u.initiator.state.relationship t.responder.state.peerId = some r → _
    rw [← responder]
    exact fun r known => (there.initiator r known).mono proposed
  responder := by
    change ∀ r, t.responder.state.relationship u.initiator.state.peerId = some r → _
    rw [initiator]
    exact here.responder

end Couple.Concord

/-- Two clients that are peers of each other (`true` is the initiator) and the server. A client has
its state in memory and as last saved; of each there is also what its kernel was given for the other,
what it has asked the server to register and what it has put. `served` are the databases a client may
have read. -/
structure Pair where
  couple : Couple
  saved : Bool → EndpointState
  installed : Bool → List Candidate
  asked : Bool → List Registration
  mail : Bool → List Message
  server : Database
  served : List Database

namespace Pair

/-- `turn` is one round of the loop of `apply`, with whether the save succeeds. A message is put once
it is saved; the server gets to it later, more than once, or never. -/
inductive Event where
  | turn (side : Bool) (c : Call) (stored : Bool)
  | upkeep (side : Bool) (u : Upkeep)
  | save (side : Bool)
  | crash (side : Bool)
  | serve (op : Operation)

def memory (t : Pair) : Bool → EndpointState
  | true => t.couple.initiator.state
  | false => t.couple.responder.state

def self (t : Pair) (side : Bool) : Number := (t.memory side).peerId

def other (t : Pair) (side : Bool) : Number := t.self (!side)

/-- What `apply` puts. -/
def message : Except Error Action → Option Message
  | .ok (.send m) => some m
  | _ => none

section Steps

variable [Native]

def next (t : Pair) : Event → Pair
  | .turn side c stored =>
    let (result, s, calls) := c.perform (t.memory side)
    let here := decide (c.other = t.other side)
    -- an error ends the round before the save
    let kept := stored && result.isOk
    { t with
      couple := t.couple.next (side, .reconcile c)
      saved := if kept then Function.update t.saved side s else t.saved
      installed := Function.update t.installed side (t.installed side ++
        if here && c.install.isOk then calls.map Prod.snd else [])
      mail := Function.update t.mail side (t.mail side ++
        if here && kept then (message result).toList else []) }
  | .upkeep side u => { t with
      couple := t.couple.next (side, .upkeep u)
      asked := Function.update t.asked side
        (t.asked side ++ [(u.perform (t.memory side)).registration]) }
  | .save side => { t with saved := Function.update t.saved side (t.memory side) }
  | .crash side => { t with couple := t.couple.resume side (t.saved side) }
  | .serve op => { t with
      server := op.apply t.server
      served := t.served ++ [op.apply t.server] }

/-- `exchange_for`: a record of the two, as some fetch has shown it. -/
def Shown (t : Pair) (e : Exchange) : Prop :=
  ((e.initiatorId = t.self true ∧ e.responderId = t.self false) ∨
    (e.initiatorId = t.self false ∧ e.responderId = t.self true)) ∧
    ∃ db ∈ t.served, ∃ k, db.view.record k = some e

/-- What the three give each other: records and bundles that were read from the server, messages that
were put, registrations that were asked for. All other peers do what they like. -/
def Allows (t : Pair) : Event → Prop
  | .turn side c _ => c.other = t.other side → ∀ e ∈ c.remote, t.Shown e
  | .upkeep side (.observeRemote peer bundle lifecycle) => peer = t.other side →
      ∃ db ∈ t.served, ∃ a, db.bundles.lookup peer.val = some a ∧ a.bundle = bundle ∧
        a.lifecycle = lifecycle
  | .serve (.submit id _ other message _ _ _) => ∀ side, id = (t.self side).val →
      other = (t.other side).val → message ∈ t.mail side
  | .serve (.register id _ request _ _ _) => ∀ side, id = (t.self side).val →
      request ∈ t.asked side
  | _ => True

def Step (t : Pair) (l : Event) (t' : Pair) : Prop := t.Allows l ∧ t' = t.next l

end Steps

/-- Exchange ids and bundle ids are drawn fresh. -/
def Fresh (m : Move Pair Event) : Prop :=
  match m.label with
  | .turn true c _ => c.other = m.before.other true → ∀ q ∈ m.before.couple.proposals,
      c.draws.exchangeId ≠ .ok q.1.transcript.exchangeId
  | .upkeep false (.replace identity) => ∀ b ∈ m.before.couple.published,
      b.bundleId ≠ identity.bundle.bundleId
  | _ => True

/-- Two clients that have made their first identities and have not met, and a server that no bundle
is registered at yet. -/
structure Begins [Native] (t : Pair) : Prop where
  couple : t.couple.Begins
  saved : ∀ side, t.saved side = t.memory side
  installed : ∀ side, t.installed side = []
  asked : ∀ side, t.asked side = [(t.memory side).registration]
  registration : ∀ side, (t.memory side).registration.bundle = (t.memory side).identity.bundle
  mail : ∀ side, t.mail side = []
  unused : t.server.Unused
  served : t.served = [t.server]

variable [Native] {t : Pair}

/-- The couple as both go on after a restart. -/
def resumed (t : Pair) : Couple := (t.couple.resume true (t.saved true)).resume false (t.saved false)

/-- A state that a client goes on from, now or after a restart. -/
def Current (t : Pair) (side : Bool) (s : EndpointState) : Prop :=
  s = t.memory side ∨ s = t.saved side

structure Sound (t : Pair) : Prop where
  couple : t.couple.Concord
  resumed : t.resumed.Concord
  self : ∀ side, (t.saved side).peerId = t.self side
  traced : ∀ side s, t.Current side s → ∀ p, s.pendingWith (t.other side) = some p →
    Traced t.couple.proposals (t.self side) p
  mail : ∀ side, ∀ m ∈ t.mail side, ∃ q m', (q, m') ∈ t.couple.proposals ∧
    Letter t.couple.proposals (t.self side) q.transcript.name m
  registration : ∀ s, t.Current false s → s.registration.bundle ∈ t.couple.published
  asked : ∀ request ∈ t.asked false, request.bundle ∈ t.couple.published
  databases : ∀ db ∈ t.served, db.Sound ∧
    db.view.Fed (t.self true) (t.self false) (t.mail true ++ t.mail false) ∧
    ∀ a, db.view.bundle (t.self false).val = some a → a.bundle ∈ t.couple.published
  server : t.server ∈ t.served

namespace Sound

/-- A record that was read is one of the two, fed by what they have put. -/
theorem shown (sound : t.Sound) {e : Exchange} (shown : t.Shown e) :
    e.initiatorId = t.self true ∧ e.responderId = t.self false ∧
      e.Fed (t.mail true ++ t.mail false) ∧ e.WellFormed ∧
      ∃ db ∈ t.served, db.Sound ∧ db.view.record e.key = some e := by
  obtain ⟨pair, db, member, k, found⟩ := shown
  obtain ⟨soundDb, fed, -⟩ := sound.databases db member
  have formed := soundDb.ledger.formed k e found
  have key := soundDb.ledger.key k e found
  have less : t.self true < t.self false := sound.couple.ordered
  have sides : e.initiatorId = t.self true ∧ e.responderId = t.self false := by
    rcases pair with same | ⟨initiator, responder⟩
    · exact same
    · have ordered := formed.ordered
      rw [initiator, responder] at ordered
      exact absurd less (lt_asymm ordered)
  refine ⟨sides.1, sides.2, fed k e found sides.1 sides.2, formed, db, member, soundDb, ?_⟩
  rw [key]
  exact found

/-- What the server has shown under the initiator's id was put by the initiator. -/
theorem authentic (sound : t.Sound) {c : Call} (shown : ∀ e ∈ c.remote, t.Shown e) :
    t.couple.Authentic c := by
  intro e present x _ m member _ typed _
  obtain ⟨-, -, fed, -⟩ := sound.shown (shown e present)
  have put := (fed.messages m member).1
  have letter : ∃ side q m', (q, m') ∈ t.couple.proposals ∧
      Letter t.couple.proposals (t.self side) q.transcript.name m := by
    rcases List.mem_append.mp put with there | there
    · exact ⟨true, sound.mail true m there⟩
    · exact ⟨false, sound.mail false m there⟩
  obtain ⟨_, _, _, _, written⟩ := letter
  obtain ⟨q, proposed⟩ := written.proposal typed
  exact ⟨(q, m), proposed, rfl⟩

/-- What the two are shown of each other is genuine. -/
theorem genuine (sound : t.Sound) {side : Bool} {d : Deed}
    (allowed : ∀ c, d = .reconcile c → c.other = t.other side → ∀ e ∈ c.remote, t.Shown e)
    (observed : ∀ peer bundle lifecycle, d = .upkeep (.observeRemote peer bundle lifecycle) →
      peer = t.other side → ∃ db ∈ t.served, ∃ a, db.bundles.lookup peer.val = some a ∧
        a.bundle = bundle ∧ a.lifecycle = lifecycle)
    (fresh : ∀ c, side = true → d = .reconcile c → c.other = t.other true →
      ∀ q ∈ t.couple.proposals, c.draws.exchangeId ≠ .ok q.1.transcript.exchangeId)
    (renewed : ∀ identity, side = false → d = .upkeep (.replace identity) →
      ∀ b ∈ t.couple.published, b.bundleId ≠ identity.bundle.bundleId) :
    Couple.Genuine ⟨t.couple, (side, d), t.couple.next (side, d)⟩ := by
  cases side with
  | true =>
    cases d with
    | reconcile c => exact fresh c rfl rfl
    | upkeep u =>
      cases u with
      | observeRemote peer bundle lifecycle =>
        intro here
        obtain ⟨db, member, a, found, same, -⟩ := observed peer bundle lifecycle rfl here
        have published := (sound.databases db member).2.2 a
        have here : peer = t.self false := here
        rw [← here] at published
        exact same ▸ published found
      | _ => trivial
  | false =>
    cases d with
    | reconcile c => exact fun here => sound.authentic (allowed c rfl here)
    | upkeep u =>
      cases u with
      | replace identity => exact renewed identity rfl rfl
      | _ => trivial

/-- What the initiator opens is offered. -/
theorem proposed (sound : t.Sound) {c : Call} {r r' : Relationship} {p' : Pending} {m : Message}
    (here : c.other = t.other true) (known : (t.memory true).relationship c.other = some r)
    (after : (c.perform (t.memory true)).2.1.relationship c.other = some r')
    (idle : r.pending = none) (pending : r'.pending = some p')
    (sent : (c.perform (t.memory true)).1 = .ok (.send m))
    (opened : c.Opened (t.memory true) r r' p' m) :
    Traced (t.couple.next (true, .reconcile c)).proposals (t.self true) p' := by
  have offered : (p', m) ∈ (t.couple.next (true, .reconcile c)).proposals := by
    refine List.mem_append_right _ (Option.mem_toList.mpr ?_)
    have here : c.other = t.couple.responder.state.peerId := here
    rw [← here]
    exact (Endpoint.opens_turned known after).mpr ⟨idle, sent, pending⟩
  cases opened with
  | proposed _ _ opened =>
    obtain ⟨x, candidate, rfl, signed, -, -, initiatorId, -⟩ := EndpointState.openProposal_ok opened
    refine ⟨⟨_, m, offered, rfl, rfl, rfl⟩, ?_⟩
    intro m' member
    rw [Pending.opened, List.mem_singleton] at member
    subst member
    exact (Message.signed_made signed).letter (by simp) fun _ => ⟨_, offered⟩
  | answered responder =>
    have less : t.self true < t.self false := sound.couple.ordered
    rw [here] at responder
    exact absurd less responder

/-- What the responder answers was offered. -/
theorem answered (sound : t.Sound) {c : Call} {r r' : Relationship} {p' : Pending} {m : Message}
    (next : (t.couple.next (false, .reconcile c)).Concord)
    (here : c.other = t.other false) (shown : ∀ e ∈ c.remote, t.Shown e)
    (after : (c.perform (t.memory false)).2.1.relationship c.other = some r')
    (pending : r'.pending = some p') (opened : c.Opened (t.memory false) r r' p' m) :
    Traced t.couple.proposals (t.self false) p' := by
  cases opened with
  | proposed initiator =>
    have less : t.self true < t.self false := sound.couple.ordered
    rw [here] at initiator
    exact absurd less (lt_asymm initiator)
  | @answered e x _ present _ transcript addressed opened =>
    obtain ⟨candidate, propose, d, rfl, member, sender, typed, authentic, -, -, signed, -⟩ :=
      EndpointState.openAnswer_ok opened
    obtain ⟨⟨q, _⟩, offered, same⟩ := sound.authentic shown e present x transcript propose member
      sender typed authentic
    have same : _ = propose := same
    subst same
    obtain ⟨made, -⟩ := sound.couple.offers q _ offered
    have name : x.name = q.transcript.name :=
      (Message.authenticate_name authentic).symm.trans made.made.name
    have theirs : (t.couple.next (false, .reconcile c)).theirs = some r' := by
      have peerId : (t.couple.next (false, .reconcile c)).initiator.state.peerId = c.other :=
        here.symm
      rw [Couple.theirs, peerId]
      exact after
    obtain ⟨q', ⟨m', offered'⟩, matched⟩ := (next.responder r' theirs).pending _ pending
    have one : q' = q := by
      refine sound.couple.distinct q' q ⟨m', offered'⟩ ⟨_, offered⟩ ?_
      exact matched.exchangeId.symm.trans (congrArg ExchangeName.exchangeId name)
    subst one
    have initiatorId : x.initiatorId = q'.transcript.initiatorId := by
      rw [addressed.2.1, here, (sound.couple.offers q' _ offered).2.1]
      rfl
    refine ⟨⟨q', _, offered, name, initiatorId, matched.candidate⟩, ?_⟩
    intro m' member
    rw [Pending.opened, List.mem_singleton] at member
    subst member
    exact (Message.signed_made signed).letter (by simp) fun absurd => by cases absurd

/-- What a deed of one side has to keep of the rest. -/
structure Kept (t t' : Pair) (side : Bool) (d : Deed) : Prop where
  couple : t'.couple = t.couple.next (side, d)
  saved : t'.saved (!side) = t.saved (!side)
  stored : t'.saved side = t.saved side ∨ t'.saved side = t'.memory side
  asked : ∀ request ∈ t'.asked false, request ∈ t.asked false ∨
    (side = false ∧ request = (t'.memory false).registration)
  posted : ∀ side', ∀ m ∈ t'.mail side', m ∈ t.mail side' ∨ (side' = side ∧
    ∃ p', (t'.memory side).pendingWith (t.other side) = some p' ∧ m ∈ p'.outbox)
  mail : ∀ side', ∀ m ∈ t.mail side', m ∈ t'.mail side'
  installed : ∀ side', ∀ k ∈ t.installed side', k ∈ t'.installed side'
  called : ∀ c, d = .reconcile c → c.other = t.other side → c.install.isOk = true →
    ∀ b k, (b, k) ∈ (c.perform (t.memory side)).2.2 → k ∈ t'.installed side
  server : t'.server = t.server
  served : t'.served = t.served

variable {t' : Pair} {side : Bool} {d : Deed}

theorem Kept.memory (kept : Kept t t' side d) : t'.memory side = d.apply (t.memory side) := by
  cases side with
  | true =>
    change t'.couple.initiator.state = _
    rw [kept.couple]
    cases d <;> rfl
  | false =>
    change t'.couple.responder.state = _
    rw [kept.couple]
    cases d <;> rfl

theorem Kept.idle (kept : Kept t t' side d) : t'.memory (!side) = t.memory (!side) := by
  cases side with
  | true =>
    change t'.couple.responder.state = _
    rw [kept.couple]
    rfl
  | false =>
    change t'.couple.initiator.state = _
    rw [kept.couple]
    rfl

theorem Kept.self (kept : Kept t t' side d) (side' : Bool) : t'.self side' = t.self side' := by
  by_cases here : side' = side
  · rw [here, Pair.self, kept.memory, EndpointState.apply_peerId, Pair.self]
  · have there : side' = !side := by cases side <;> cases side' <;> simp_all
    rw [there, Pair.self, kept.idle, Pair.self]

theorem Kept.offers (kept : Kept t t' side d) :
    (∀ q ∈ t.couple.proposals, q ∈ t'.couple.proposals) ∧
      ∀ b ∈ t.couple.published, b ∈ t'.couple.published := by
  rw [kept.couple]
  cases side with
  | true => exact ⟨fun q => List.mem_append_left _, fun b => id⟩
  | false => exact ⟨fun q => id, fun b => List.mem_append_left _⟩

/-- Where a side goes on from after a deed. -/
theorem Kept.current (kept : Kept t t' side d) (side' : Bool) (s : EndpointState)
    (now : t'.Current side' s) : s = t'.memory side ∧ side' = side ∨ t.Current side' s := by
  rcases now with rfl | rfl
  · by_cases here : side' = side
    · exact .inl ⟨by rw [here], here⟩
    · have there : side' = !side := by cases side <;> cases side' <;> simp_all
      rw [there, kept.idle]
      exact .inr (.inl rfl)
  · by_cases here : side' = side
    · subst here
      rcases kept.stored with same | same
      · exact .inr (.inr same)
      · exact .inl ⟨same, rfl⟩
    · have there : side' = !side := by cases side <;> cases side' <;> simp_all
      rw [there, kept.saved]
      exact .inr (.inr rfl)

/-- A registration is the one there was, or of the present identity. -/
theorem registration_apply (d : Deed) (s : EndpointState) :
    (d.apply s).registration.bundle = s.registration.bundle ∨
      (d.apply s).registration.bundle = (d.apply s).identity.bundle := by
  cases d with
  | reconcile c =>
    obtain ⟨relationships, frame⟩ := c.perform_frame s
    refine .inl ?_
    change (c.perform s).2.1.registration.bundle = _
    rw [frame]
  | upkeep u =>
    have managed := EndpointState.managed u s
    change (u.perform s).registration.bundle = _ ∨
      (u.perform s).registration.bundle = (u.perform s).identity.bundle
    generalize u.perform s = s' at managed
    cases managed with
    | related => exact .inl rfl
    | permitted => exact .inl rfl
    | replaced replaced =>
      obtain ⟨-, -, registration, identity, -⟩ := EndpointState.replace_ok replaced
      rw [registration, identity]
      exact .inr rfl
    | submitted accepted =>
      rw [(EndpointState.acceptRegistration_ok accepted).2.2]
      exact .inl rfl
    | accepted accepted =>
      rw [(EndpointState.acceptRegistration_ok accepted).2.2]
      exact .inl rfl
    | disabled disabled =>
      simp only [EndpointState.disable, bind_ok, require_ok, pure_ok] at disabled
      obtain ⟨_, _, rfl⟩ := disabled
      exact .inr rfl
    | retired => exact .inr rfl

/-- What is offered, published and known of a couple is known of a larger one. -/
structure Older (u t : Couple) : Prop where
  initiator : u.initiator.state.peerId = t.initiator.state.peerId
  responder : u.responder.state.peerId = t.responder.state.peerId
  proposed : ∀ q, u.Proposed q → t.Proposed q
  published : ∀ b ∈ u.published, b ∈ t.published

omit [Native] in
theorem Older.refl (t : Couple) : Older t t := ⟨rfl, rfl, fun _ => id, fun _ => id⟩

/-- Each side of a couple taken from one that is no younger. -/
theorem concord_resume {t u v : Couple} (concord : t.Concord) (initiator : u.Concord)
    (responder : v.Concord) (older : Older u t) (older' : Older v t) :
    ((t.resume true u.initiator.state).resume false v.responder.state).Concord := by
  have first := concord.with_initiator initiator older.initiator older.responder older.proposed
    older.published
  refine first.with_responder responder ?_ older'.responder older'.proposed older'.published
  exact older'.initiator.trans older.initiator.symm

theorem Kept.older (sound : t.Sound) (kept : Kept t t' side d) : Older t.resumed t'.couple where
  initiator := (sound.self true).trans (kept.self true).symm
  responder := (sound.self false).trans (kept.self false).symm
  proposed q := by
    rintro ⟨m, member⟩
    exact ⟨m, kept.offers.1 _ member⟩
  published := kept.offers.2

/-- A deed of one side, stored or not, keeps the invariant. -/
theorem deed (sound : t.Sound) (native : Native.Sound) (kept : Kept t t' side d)
    (genuine : Couple.Genuine ⟨t.couple, (side, d), t.couple.next (side, d)⟩)
    (shown : ∀ c, d = .reconcile c → c.other = t.other side → ∀ e ∈ c.remote, t.Shown e) :
    t'.Sound := by
  have couple : t'.couple.Concord := kept.couple ▸ sound.couple.step native _ genuine
  have older := kept.older sound
  have memory : ∀ p, (t'.memory side).pendingWith (t.other side) = some p →
      Traced t'.couple.proposals (t.self side) p := by
    rw [kept.memory, kept.couple]
    intro p held
    refine EndpointState.traced_deed (sound.traced side _ (.inl rfl))
      (kept.couple ▸ kept.offers.1) ?_ p held
    rintro c r r' p' m rfl here known after idle pending sent opened
    rw [← here] at known after
    cases side with
    | true => exact sound.proposed here known after idle pending sent opened
    | false =>
      exact sound.answered (kept.couple ▸ couple) here (shown c rfl here) after pending opened
  have current := kept.current
  have other : ∀ side', t'.other side' = t.other side' := fun side' => kept.self (!side')
  have published : ∀ s, t'.Current false s →
      s.registration.bundle ∈ t'.couple.published := by
    intro s now
    rcases current false s now with ⟨rfl, rfl⟩ | before
    · have mine : (t'.memory false).identity.bundle ∈ t'.couple.published := couple.current
      rw [kept.memory] at mine ⊢
      rcases registration_apply d (t.memory false) with same | same
      · rw [same]
        exact kept.offers.2 _ (sound.registration _ (.inl rfl))
      · rw [same]
        exact mine
    · exact kept.offers.2 _ (sound.registration s before)
  constructor
  · exact couple
  · have resumed : ∀ u v : Couple, u.Concord → v.Concord → Older u t'.couple →
        Older v t'.couple → u.initiator.state = t'.saved true → v.responder.state = t'.saved false →
        t'.resumed.Concord := by
      intro u v initiator responder older older' same same'
      rw [Pair.resumed, ← same, ← same']
      exact concord_resume couple initiator responder older older'
    cases side with
    | true =>
      rcases kept.stored with same | same
      · exact resumed _ _ sound.resumed sound.resumed older older same.symm kept.saved.symm
      · exact resumed _ _ couple sound.resumed (.refl _) older same.symm kept.saved.symm
    | false =>
      rcases kept.stored with same | same
      · exact resumed _ _ sound.resumed sound.resumed older older kept.saved.symm same.symm
      · exact resumed _ _ sound.resumed couple older (.refl _) kept.saved.symm same.symm
  · intro side'
    rw [kept.self]
    rcases current side' (t'.saved side') (.inr rfl) with ⟨same, rfl⟩ | before
    · rw [same]
      exact kept.self side'
    · rcases before with same | same
      · rw [same]
        rfl
      · rw [same]
        exact sound.self side'
  · intro side' s now p pending
    rw [kept.self]
    rw [other] at pending
    rcases current side' s now with ⟨rfl, rfl⟩ | before
    · exact memory p pending
    · exact (sound.traced side' s before p pending).mono kept.offers.1
  · intro side' m put
    rw [kept.self]
    rcases kept.posted side' m put with old | ⟨rfl, p', pending, queued⟩
    · obtain ⟨q, m', offered, letter⟩ := sound.mail side' m old
      exact ⟨q, m', kept.offers.1 _ offered, letter.mono kept.offers.1⟩
    · have traced := memory p' pending
      obtain ⟨q, m', offered, name, -⟩ := traced.offer
      exact ⟨q, m', offered, name ▸ traced.outbox m queued⟩
  · exact published
  · intro request member
    rcases kept.asked request member with old | ⟨rfl, rfl⟩
    · exact kept.offers.2 _ (sound.asked request old)
    · exact published _ (.inl rfl)
  · rw [kept.served, kept.self, kept.self]
    intro db member
    obtain ⟨soundDb, fed, bundles⟩ := sound.databases db member
    refine ⟨soundDb, Ledger.Fed.mono fed ?_, fun a found => kept.offers.2 _ (bundles a found)⟩
    intro m put
    exact List.mem_append.mpr ((List.mem_append.mp put).imp (kept.mail true m) (kept.mail false m))
  · rw [kept.server, kept.served]
    exact sound.server

omit [Native] in
theorem message_some {result : Except Error Action} {m : Message}
    (sent : message result = some m) : result = .ok (.send m) := by
  unfold message at sent
  split at sent
  · cases sent
    rfl
  · cases sent

theorem kept_turn (t : Pair) (side : Bool) (c : Call) (stored : Bool) :
    Kept t (t.next (.turn side c stored)) side (.reconcile c) := by
  have memory : (t.next (.turn side c stored)).memory side = (c.perform (t.memory side)).2.1 := by
    cases side <;> rfl
  have mail : ∀ side', (t.next (.turn side c stored)).mail side' = if side' = side then
      t.mail side ++ (if decide (c.other = t.other side) &&
        (stored && (c.perform (t.memory side)).1.isOk) then
          (message (c.perform (t.memory side)).1).toList else []) else t.mail side' := by
    intro side'
    exact Function.update_apply ..
  constructor
  · rfl
  · rw [next]
    dsimp only
    split
    · rw [Function.update_of_ne (by simp)]
    · rfl
  · rw [memory, next]
    dsimp only
    split
    · rw [Function.update_self]
      exact .inr rfl
    · exact .inl rfl
  · exact fun request member => .inl member
  · intro side' m put
    rw [mail] at put
    split at put
    · rename_i here
      rw [List.mem_append] at put
      rcases put with old | new
      · exact .inl (here ▸ old)
      · split at new
        · rename_i allowed
          rw [Bool.and_eq_true, decide_eq_true_eq] at allowed
          have sent := message_some (Option.mem_toList.mp new)
          refine .inr ⟨here, ?_⟩
          rw [memory, ← allowed.1]
          rcases c.turned (t.memory side) with ⟨-, -, silent⟩ | ⟨r, r', -, -, after, -, turn⟩
          · cases silent _ sent
          · obtain ⟨p', pending, queued⟩ := turn.queued sent
            exact ⟨p', by rw [EndpointState.pendingWith, after, Option.bind_some, pending], queued⟩
        · cases new
    · exact .inl put
  · intro side' m put
    rw [mail]
    split
    · rename_i here
      exact List.mem_append_left _ (here ▸ put)
    · exact put
  · intro side' k member
    change k ∈ Function.update t.installed side _ side'
    rw [Function.update_apply]
    split
    · rename_i here
      exact List.mem_append_left _ (here ▸ member)
    · exact member
  · rintro c' same here ok b k called
    cases same
    change k ∈ Function.update t.installed side _ side
    have allowed : (decide (c.other = t.other side) && c.install.isOk) = true := by simp [here, ok]
    rw [Function.update_self, if_pos allowed]
    exact List.mem_append_right _ (List.mem_map.mpr ⟨(b, k), called, rfl⟩)
  · rfl
  · rfl

theorem kept_upkeep (t : Pair) (side : Bool) (u : Upkeep) :
    Kept t (t.next (.upkeep side u)) side (.upkeep u) where
  couple := rfl
  saved := rfl
  stored := .inl rfl
  asked request member := by
    have member : request ∈ Function.update t.asked side (t.asked side ++
      [(u.perform (t.memory side)).registration]) false := member
    cases side with
    | true => exact .inl member
    | false =>
      rw [Function.update_self, List.mem_append, List.mem_singleton] at member
      exact member.imp_right fun same => ⟨rfl, same⟩
  posted side' m put := .inl put
  mail side' m put := put
  installed side' k member := member
  called c same := by cases same
  server := rfl
  served := rfl

theorem current_save (t : Pair) (side side' : Bool) (s : EndpointState)
    (now : (t.next (.save side)).Current side' s) : t.Current side' s := by
  rcases now with same | same
  · exact .inl same
  · have same : s = Function.update t.saved side (t.memory side) side' := same
    rw [Function.update_apply] at same
    split at same
    · rename_i here
      exact .inl (here ▸ same)
    · exact .inr same

theorem save (sound : t.Sound) (side : Bool) : (t.next (.save side)).Sound := by
  have current := current_save t side
  have older : Older t.resumed t.couple := ⟨sound.self true, sound.self false, fun _ => id, fun _ => id⟩
  constructor
  · exact sound.couple
  · cases side with
    | true => exact concord_resume sound.couple sound.couple sound.resumed (.refl _) older
    | false => exact concord_resume sound.couple sound.resumed sound.couple older (.refl _)
  · intro side'
    rcases current side' _ (.inr rfl) with same | same
    · rw [same]
      rfl
    · rw [same]
      exact sound.self side'
  · exact fun side' s now => sound.traced side' s (current side' s now)
  · exact sound.mail
  · exact fun s now => sound.registration s (current false s now)
  · exact sound.asked
  · exact sound.databases
  · exact sound.server

theorem memory_crash (t : Pair) (side side' : Bool) : (t.next (.crash side)).memory side' =
    if side' = side then t.saved side else t.memory side' := by
  cases side <;> cases side' <;> rfl

theorem self_crash (sound : t.Sound) (side side' : Bool) :
    (t.next (.crash side)).self side' = t.self side' := by
  rw [Pair.self, memory_crash]
  split
  · rename_i here
    exact (sound.self side).trans (here ▸ rfl)
  · rfl
theorem current_crash (t : Pair) (side side' : Bool) (s : EndpointState)
    (now : (t.next (.crash side)).Current side' s) : t.Current side' s := by
  rcases now with same | same
  · rw [memory_crash] at same
    split at same
    · rename_i here
      exact .inr (here ▸ same)
    · exact .inl same
  · refine .inr (same.trans ?_)
    cases side <;> rfl

theorem crash (sound : t.Sound) (side : Bool) : (t.next (.crash side)).Sound := by
  have self := sound.self_crash side
  have current := current_crash t side
  have older : Older t.resumed t.couple := ⟨sound.self true, sound.self false, fun _ => id, fun _ => id⟩
  constructor
  · cases side with
    | true => exact concord_resume sound.couple sound.resumed sound.couple older (.refl _)
    | false => exact concord_resume sound.couple sound.couple sound.resumed (.refl _) older
  · cases side with
    | true => exact sound.resumed
    | false => exact sound.resumed
  · intro side'
    rw [self]
    exact sound.self side'
  · intro side' s now p pending
    rw [Pair.other, self] at pending
    rw [self]
    have traced := sound.traced side' s (current side' s now) p pending
    cases side <;> exact traced
  · intro side' m put
    obtain ⟨q, m', offered, letter⟩ := sound.mail side' m put
    rw [self]
    cases side <;> exact ⟨q, m', offered, letter⟩
  · intro s now
    have published := sound.registration s (current false s now)
    cases side <;> exact published
  · cases side <;> exact sound.asked
  · rw [self, self]
    cases side <;> exact sound.databases
  · exact sound.server

/-- An operation of the server, with what the two have put and asked for. -/
theorem serve (sound : t.Sound) (op : Operation) (allowed : t.Allows (.serve op)) :
    (t.next (.serve op)).Sound := by
  obtain ⟨soundDb, fed, bundles⟩ := sound.databases t.server sound.server
  have reaches := op.reaches soundDb
  have served : ∀ db ∈ (t.next (.serve op)).served, db ∈ t.served ∨ db = op.apply t.server := by
    intro db member
    exact (List.mem_append.mp member).imp_right List.mem_singleton.mp
  have less : (t.self true).val < (t.self false).val := sound.couple.ordered
  have feeds : (op.apply t.server).view.Fed (t.self true) (t.self false)
      (t.mail true ++ t.mail false) := by
    obtain ⟨ms, run, -, caused⟩ := reaches.run
    refine Ledger.Run.fed soundDb.ledger run fed ?_
    intro m member
    have cause := caused m member
    have put : ∀ {id other : Nat} {key : String} {message : Message} {limits : Limits}
        {size now : Nat} {r : Exchange}, op = .submit id key other message limits size now →
        r.initiatorId.val = min id other → r.responderId.val = max id other →
        r.initiatorId = t.self true → r.responderId = t.self false →
        message ∈ t.mail true ++ t.mail false := by
      rintro id other key message limits size now r rfl least greatest initiator responder
      rw [initiator] at least
      rw [responder] at greatest
      rw [List.mem_append]
      by_cases first : id = (t.self true).val
      · have last : other = (t.self false).val := by omega
        exact .inl (allowed true first last)
      · have last : id = (t.self false).val := by omega
        have first : other = (t.self true).val := by omega
        exact .inr (allowed false last first)
    generalize m.label = event at cause ⊢
    cases event with
    | settled => trivial
    | rebundled => trivial
    | dropped => trivial
    | opened r m' =>
      cases op with
      | submit id key other message limits size now =>
        obtain ⟨rfl, least, greatest⟩ := cause
        exact put rfl least greatest
      | _ => cases cause
    | continued r m' =>
      cases op with
      | submit id key other message limits size now =>
        obtain ⟨rfl, least, greatest⟩ := cause
        exact put rfl least greatest
      | _ => cases cause
  constructor
  · exact sound.couple
  · exact sound.resumed
  · exact sound.self
  · exact sound.traced
  · exact sound.mail
  · exact sound.registration
  · exact sound.asked
  · intro db member
    rcases served db member with old | rfl
    · exact sound.databases db old
    · refine ⟨reaches.sound, feeds, ?_⟩
      change ∀ a, (op.apply t.server).view.bundle (t.self false).val = some a →
        a.bundle ∈ t.couple.published
      intro a found
      rcases op.bundle_after soundDb found with old | ⟨key, request, limits, size, now, rfl, same⟩
      · exact bundles a old
      · rw [same]
        exact sound.asked request (allowed false rfl)
  · exact List.mem_append_right _ (List.mem_singleton.mpr rfl)

theorem step (native : Native.Sound) (sound : t.Sound) {l : Event} {t' : Pair} (taken : Step t l t')
    (fresh : Fresh ⟨t, l, t'⟩) : t'.Sound := by
  obtain ⟨allowed, rfl⟩ := taken
  cases l with
  | turn side c stored =>
    have shown : ∀ c', Deed.reconcile c = .reconcile c' → c'.other = t.other side →
        ∀ e ∈ c'.remote, t.Shown e := by
      rintro c' same
      cases same
      exact allowed
    refine sound.deed native (kept_turn t side c stored) ?_ shown
    refine sound.genuine shown (fun _ _ _ same => by cases same) ?_ (fun _ _ same => by cases same)
    rintro c' rfl same
    cases same
    exact fresh
  | upkeep side u =>
    refine sound.deed native (kept_upkeep t side u) ?_ (fun _ same => by cases same)
    refine sound.genuine (fun _ same => by cases same) ?_ (fun _ _ same => by cases same) ?_
    · rintro peer bundle lifecycle same
      cases same
      exact allowed
    · rintro identity rfl same
      cases same
      exact fresh
  | save side => exact sound.save side
  | crash side => exact sound.crash side
  | serve op => exact sound.serve op allowed

theorem start (begins : t.Begins) : t.Sound := by
  have concord := begins.couple.concord
  have idle : ∀ side s, t.Current side s → ∀ p, s.pendingWith (t.other side) ≠ some p := by
    intro side s now p pending
    have unmet : s.relationships = ∅ := by
      have same : s = t.memory side := now.elim id fun same => same.trans (begins.saved side)
      rw [same]
      cases side with
      | true => exact begins.couple.initiator.2
      | false => exact begins.couple.responder.2
    rw [EndpointState.pendingWith, EndpointState.relationship, unmet] at pending
    cases pending
  have current : ∀ side s, t.Current side s → s = t.memory side :=
    fun side s now => now.elim id fun same => same.trans (begins.saved side)
  have registered : (t.memory false).registration.bundle ∈ t.couple.published := by
    rw [begins.registration]
    exact concord.current
  constructor
  · exact concord
  · have same : t.resumed = t.couple := by
      rw [Pair.resumed, begins.saved, begins.saved]
      rfl
    rw [same]
    exact concord
  · intro side
    rw [begins.saved]
    rfl
  · exact fun side s now p pending => absurd pending (idle side s now p)
  · intro side m put
    rw [begins.mail] at put
    cases put
  · intro s now
    rw [current false s now]
    exact registered
  · intro request member
    rw [begins.asked, List.mem_singleton] at member
    rw [member]
    exact registered
  · intro db member
    rw [begins.served, List.mem_singleton] at member
    subst member
    have empty : ∀ k, t.server.view.record k = none := by
      intro k
      rw [Database.view_none, begins.unused.exchanges]
      rfl
    refine ⟨begins.unused.sound, ?_, ?_⟩
    · intro k r found
      rw [empty] at found
      cases found
    · intro a found
      have found : t.server.bundles.lookup (t.self false).val = some a := found
      rw [begins.unused.bundles] at found
      cases found
  · rw [begins.served]
    exact List.mem_singleton.mpr rfl

theorem reached (native : Native.Sound) {t₀ : Pair} (begins : t₀.Begins) {ms : List (Move Pair Event)}
    (run : Run Step t₀ ms t) (fresh : ∀ m ∈ ms, Fresh m) : t.Sound :=
  run.guarded (start begins) (fun _ _ _ sound taken allowed => sound.step native taken allowed) fresh

end Sound

end Pair

end Innernet
