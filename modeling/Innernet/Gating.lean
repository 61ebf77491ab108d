import Innernet.Effects
import Innernet.Arithmetic

/-! Blocked relationships and the data-traffic gate. -/
namespace Innernet

open Fallible Tables Runs

/-- Keys and addresses tell the peers of a network apart: the server's `UNIQUE` columns, and its
check that a bundle carries the key of the peer that registers it. -/
structure Registry where
  idOf : Binary 32 → Nat
  keyOf : Nat → Binary 32
  addressOf : Nat → AllowedIp
  keyed : ∀ id, id < 2 ^ 63 → idOf (keyOf id) = id
  apart : ∀ id id', id < 2 ^ 63 → id' < 2 ^ 63 → addressOf id = addressOf id' → id = id'

namespace Registry

def Lists (reg : Registry) (p : Peer) : Prop :=
  reg.idOf p.publicKey = p.id ∧ p.allowedIp = reg.addressOf p.id ∧ p.id < 2 ^ 63

def Shows (reg : Registry) (e : Entry) : Prop :=
  reg.Lists e.peer ∧ ∀ adv ∈ e.pq, adv.bundle.wgPublicKey = reg.keyOf e.peer.id

/-- Every bundle of the state carries its own peer's key. -/
def Knows (reg : Registry) (s : EndpointState) : Prop :=
  ∀ other r, s.relationship other = some r → r.remote.wgPublicKey = reg.keyOf other.val

/-- What the server hands out is registered, and each peer has one entry. -/
structure Serves (reg : Registry) (peers : List Peer) (listing : List Entry) : Prop where
  lists : ∀ p ∈ peers, reg.Lists p
  shows : ∀ e ∈ listing, reg.Shows e
  once : (listing.map fun e => e.peer.id).Nodup

theorem Serves.same {reg : Registry} {peers : List Peer} {listing : List Entry}
    (serves : reg.Serves peers listing) {e e' : Entry} (listed : e ∈ listing) (listed' : e' ∈ listing)
    (same : e.peer.id = e'.peer.id) : e = e' :=
  List.inj_on_of_nodup_map serves.once listed listed' same

/-- The peer found for a relationship has the relationship's own address. -/
theorem Serves.found {reg : Registry} {peers : List Peer} {listing : List Entry}
    (serves : reg.Serves peers listing) {b : Bundle} {id : Number}
    (carries : b.wgPublicKey = reg.keyOf id.val) {p : Peer} (found : findPeer peers b = some p) :
    p.id = id.val ∧ p.allowedIp = reg.addressOf id.val := by
  obtain ⟨listed, key⟩ := findPeer_some found
  obtain ⟨named, address, -⟩ := serves.lists p listed
  have same : p.id = id.val := by rw [← named, key, carries, reg.keyed _ id.bounded]
  exact ⟨same, same ▸ address⟩

/-- Entries with one address are one entry. -/
theorem Serves.located {reg : Registry} {peers : List Peer} {listing : List Entry}
    (serves : reg.Serves peers listing) {e : Entry} (listed : e ∈ listing) {id : Number}
    (address : e.peer.allowedIp = reg.addressOf id.val) : e.peer.id = id.val := by
  obtain ⟨-, own, bounded⟩ := (serves.shows e listed).1
  exact reg.apart _ _ bounded id.bounded (own.symm.trans address)

end Registry

/-- The remote bundle is retired, the local identity was replaced, or there was an emergency. -/
def Relationship.Barred (r : Relationship) : Prop := r.status = .blocked ∨ r.gated = true

instance (r : Relationship) : Decidable r.Barred := inferInstanceAs (Decidable (_ ∨ _))

theorem Entry.dataPeer_some {e : Entry} {s : EndpointState} {other : Number}
    (peer : e.dataPeer s = some other) : e.isServer = false ∧ e.peer.id = other.val := by
  unfold dataPeer at peer
  split at peer
  · cases peer
  rename_i data
  split at peer
  · cases peer
  · rename_i id made
    split at peer
    · cases peer
    · cases peer
      exact ⟨Bool.not_eq_true _ ▸ data, (Number.new_ok.mp made).symm⟩

theorem Entry.gating_gate {e : Entry} {s : EndpointState} {other : Number}
    (peer : e.dataPeer s = some other) : e.gating s = .gate ↔
      s.registration.lifecycle = .retired ∨
        ((∀ r, s.relationship other = some r → r.confirmed = none) ∧
          legacyEligible s other e.pq.isSome = false) := by
  unfold gating
  rw [peer]
  dsimp only
  by_cases retired : s.registration.lifecycle = .retired
  · simp [retired]
  cases known : s.relationship other with
  | none => simp [retired]
  | some r =>
    cases confirmed : r.confirmed with
    | none => simp [retired, confirmed]
    | some c => simp [retired, confirmed]

/-- The pass looks at the lifecycle, the policy, and what the relationship has reached. -/
theorem Entry.gating_same {e : Entry} {s s' : EndpointState} (peerId : s'.peerId = s.peerId)
    (serverId : s'.serverId = s.serverId) (registration : s'.registration = s.registration)
    (policy : s'.policy = s.policy)
    (same : ∀ other, e.dataPeer s = some other →
      ((s'.relationship other).any fun r => r.confirmed.isSome) =
        ((s.relationship other).any fun r => r.confirmed.isSome) ∧
      ((s'.relationship other).any fun r => r.priorPq) =
        ((s.relationship other).any fun r => r.priorPq)) :
    e.dataPeer s' = e.dataPeer s ∧ e.gating s' = e.gating s := by
  have peer : e.dataPeer s' = e.dataPeer s := by
    unfold dataPeer
    rw [peerId, serverId]
  refine ⟨peer, ?_⟩
  unfold gating
  rw [peer]
  cases here : e.dataPeer s with
  | none => rfl
  | some other =>
    obtain ⟨confirmed, priorPq⟩ := same other here
    have legacy : legacyEligible s' other e.pq.isSome = legacyEligible s other e.pq.isSome := by
      unfold legacyEligible
      rw [policy, priorPq]
    dsimp only
    rw [registration, confirmed, legacy]

namespace Client

/-- No barred relationship still has a confirmed record or counts as a legacy peer, unless the
endpoint itself is retiring. -/
def Cleared (v : View) : Prop :=
  ∀ other r, v.memory.relationship other = some r → r.Barred →
    v.memory.registration.lifecycle = .retired ∨ (r.confirmed = none ∧
      ∀ e ∈ v.listing, e.dataPeer v.memory = some other →
        legacyEligible v.memory other e.pq.isSome = false)

instance (v : View) : Decidable (Cleared v) :=
  decidable_of_iff (∀ e ∈ v.memory.relationships.entries, e.2.Barred →
    v.memory.registration.lifecycle = .retired ∨ (e.2.confirmed = none ∧
      ∀ l ∈ v.listing, l.dataPeer v.memory = some e.1 →
        legacyEligible v.memory e.1 l.pq.isSome = false)) <| by
    constructor
    · exact fun all other r known => all ⟨other, r⟩ ((mem_entries_iff _ _).mpr known)
    · exact fun all e member => all e.1 e.2 ((mem_entries_iff _ _).mp member)

end Client

namespace EndpointState

variable [Native] {s : EndpointState} {other : Number} {r r' : Relationship}

/-- A turn of an open relationship never bars it. -/
theorem Turn.unbarred {σ : Type} {remote : Option Exchange} {now : Nat} {installer : Installer σ}
    {draws : Draws} {world world' : σ} {result : Except Error Action}
    (turn : Turn s other r remote now installer draws world result r' world') (shut : s.Open r) :
    ¬ r'.Barred := by
  have status : r'.status = r.status ∨ r'.status = .confirmed := by
    cases turn with
    | acted _ _ _ act =>
      cases act with
      | completed => exact .inr rfl
      | _ => exact .inl rfl
    | _ => exact .inl rfl
  rintro (blocked | gated)
  · rcases status with same | confirmed
    · exact shut.2.1 (same ▸ blocked)
    · rw [confirmed] at blocked
      cases blocked
  · rw [turn.gated, shut.1] at gated
    cases gated

end EndpointState

/-- The address of the entry is to stay blocked: its turn is still to come, or its peer is barred. -/
def Entry.Barred (e : Entry) (s : EndpointState) : Prop :=
  ∃ other r, e.dataPeer s = some other ∧ s.relationship other = some r ∧ r.Barred

instance (e : Entry) (s : EndpointState) : Decidable (e.Barred s) :=
  decidable_of_iff ((e.dataPeer s).any fun other =>
    (s.relationship other).any fun r => decide r.Barred) <| by
      simp [Entry.Barred, Option.any_eq_true]

/-- The proactive pass has been made. -/
def Stage.past : Stage → Bool
  | .fetched _ => false
  | _ => true

namespace Client

/-- What the rest of a fetch relies on. -/
structure Fits (reg : Registry) (tunnel : Tunnel) (v : View) (todo : List Entry) (past : Bool) :
    Prop where
  knows : reg.Knows v.memory
  serves : reg.Serves v.peers v.listing
  within : todo.Sublist v.listing
  shut : past = true → ∀ e ∈ v.listing, e.gating v.memory = .gate →
    e ∈ todo ∨ e.Barred v.memory → e.peer.allowedIp ∈ tunnel.blocked

structure Shut (reg : Registry) (c : Client) : Prop where
  knows : reg.Knows c.disk
  fits : ∀ st v, c.running = some st → st.view = some v →
    Fits reg c.tunnel v st.todo st.past

section Steps

variable [Native] {reg : Registry}

/-- One entry's turn: its own address is released only while its peer is not barred, and the other
addresses stay. -/
theorem Fits.turn {v : View} {e : Entry} {todo : List Entry} {t : Turning} {tunnel tunnel' : Tunnel}
    {done : Option (Number × Action)} {memory : EndpointState}
    (fits : Fits reg tunnel v (e :: todo) true) (turned : v.Turned e t tunnel done memory tunnel') :
    Fits reg tunnel' { v with memory } todo true := by
  have listed : e ∈ v.listing := fits.within.subset (List.mem_cons_self ..)
  have once : (e :: todo).Nodup := by
    have distinct := fits.serves.once
    exact (List.Nodup.of_map _ distinct).sublist fits.within
  cases turned with
  | passed =>
    refine ⟨fits.knows, fits.serves, (List.sublist_cons_self _ _).trans fits.within, ?_⟩
    intro past e' listed' gates still
    refine fits.shut past e' listed' gates ?_
    rcases still with later | barred
    · exact .inl (List.mem_cons_of_mem _ later)
    · exact .inr barred
  | @turned other adv s r r' result _ peer advertised frame others known observes shut turn =>
    obtain ⟨rows, frame⟩ := frame
    obtain ⟨-, id⟩ := Entry.dataPeer_some peer
    have carries : r.remote.wgPublicKey = reg.keyOf other.val := by
      rw [observes.remote, ← id]
      exact (fits.serves.shows e listed).2 adv advertised
    have own : (s.setRelationship other r').relationship other = some r' :=
      EndpointState.relationship_setRelationship _ _ _
    have rest : ∀ o, o ≠ other → (s.setRelationship other r').relationship o =
        v.memory.relationship o := by
      intro o differs
      rw [EndpointState.relationship_insert, if_neg differs, others o differs]
    refine ⟨?_, fits.serves, (List.sublist_cons_self _ _).trans fits.within, ?_⟩
    · intro o row there
      by_cases same : o = other
      · subst same
        rw [own] at there
        cases there
        rw [turn.remote]
        exact carries
      · exact fits.knows o row (rest o same ▸ there)
    · intro past e' listed' gates still
      have peerId : (s.setRelationship other r').peerId = v.memory.peerId := by rw [frame]; rfl
      have serverId : (s.setRelationship other r').serverId = v.memory.serverId := by
        rw [frame]; rfl
      have registration : (s.setRelationship other r').registration = v.memory.registration := by
        rw [frame]; rfl
      have policy : (s.setRelationship other r').policy = v.memory.policy := by rw [frame]; rfl
      by_cases same : e'.peer.id = e.peer.id
      · have here := fits.serves.same listed' listed same
        subst here
        rcases still with later | ⟨o, row, peer', there, barred⟩
        · exact absurd later (List.nodup_cons.mp once).1
        have data : e'.dataPeer (s.setRelationship other r') = e'.dataPeer v.memory := by
          unfold Entry.dataPeer
          rw [peerId, serverId]
        rw [data, peer] at peer'
        cases peer'
        rw [own] at there
        cases there
        have closed : ¬ s.Open r := fun opened => turn.unbarred opened barred
        obtain ⟨rfl, rfl⟩ := shut closed
        have gates : e'.gating v.memory = .gate := by
          rw [← gates]
          refine (Entry.gating_same peerId serverId registration policy fun o peer' => ?_).2.symm
          rw [peer] at peer'
          cases peer'
          rw [own]
          constructor
          · dsimp only [Option.any]
            rw [observes.confirmed]
            cases v.memory.relationship other with
            | none => rfl
            | some r => rfl
          · exact observes.priorPq
        exact fits.shut rfl e' listed gates (.inl (List.mem_cons_self ..))
      · have apart : ∀ o, e'.dataPeer v.memory = some o → o ≠ other := by
          rintro o peer' rfl
          exact same ((Entry.dataPeer_some peer').2.trans id.symm)
        obtain ⟨data, gating⟩ := Entry.gating_same (e := e') peerId serverId registration policy
          (fun o peer' => by rw [rest o (apart o peer')]; exact ⟨rfl, rfl⟩)
        have before : e'.peer.allowedIp ∈ tunnel.blocked := by
          refine fits.shut rfl e' listed' (gating ▸ gates) ?_
          rcases still with later | ⟨o, row, peer', there, barred⟩
          · exact .inl (List.mem_cons_of_mem _ later)
          · rw [data] at peer'
            exact .inr ⟨o, row, peer', rest o (apart o peer') ▸ there, barred⟩
        rcases turn.blocked _ before with still | ⟨p, found, address⟩
        · exact still
        · obtain ⟨-, own⟩ := fits.serves.found carries found
          have ids : e'.peer.id = other.val :=
            fits.serves.located listed' (address.symm.trans own)
          exact absurd (ids.trans id.symm) same

omit [Native] in
/-- The same view with the same blocked addresses, later in the fetch. -/
theorem Fits.later {v : View} {tunnel tunnel' : Tunnel} {todo : List Entry}
    (fits : Fits reg tunnel v todo true) (blocked : tunnel'.blocked = tunnel.blocked) :
    Fits reg tunnel' v todo true :=
  ⟨fits.knows, fits.serves, fits.within, fun past e listed gates still =>
    blocked ▸ fits.shut past e listed gates still⟩

omit [Native] in
theorem Fits.noted {v : View} {tunnel : Tunnel} {todo : List Entry}
    (fits : Fits reg tunnel v todo true) (other : Number) (now : Nat)
    (drawn : Except Error UInt8) :
    Fits reg tunnel { v with memory := (v.memory.noteSendFailure other now drawn).2 } todo true := by
  have frame : ∃ relationships, (v.memory.noteSendFailure other now drawn).2 =
      { v.memory with relationships } := by
    unfold EndpointState.noteSendFailure
    split
    · exact ⟨_, rfl⟩
    split
    · exact ⟨_, rfl⟩
    dsimp only
    split
    · exact ⟨_, rfl⟩
    · exact ⟨_, rfl⟩
  have kept := EndpointState.noteSendFailure_kept v.memory other now drawn
  generalize (v.memory.noteSendFailure other now drawn).2 = memory at frame kept ⊢
  -- only the backoff of what is pending has changed
  have rows : ∀ o r', memory.relationship o = some r' → ∃ r, v.memory.relationship o = some r ∧
      r'.remote = r.remote ∧ (r'.Barred ↔ r.Barred) := by
    intro o r' there
    rcases kept o with same | ⟨-, r, p, _, _, known, -, changed⟩
    · exact ⟨r', same ▸ there, rfl, Iff.rfl⟩
    · rw [changed] at there
      cases there
      exact ⟨r, known, rfl, Iff.rfl⟩
  obtain ⟨relationships, frame⟩ := frame
  refine ⟨fun o r' there => ?_, fits.serves, fits.within, fun past e listed gates still => ?_⟩
  · obtain ⟨r, known, remote, -⟩ := rows o r' there
    rw [remote]
    exact fits.knows o r known
  · have same := @Entry.gating_same e v.memory memory (by rw [frame])
      (by rw [frame]) (by rw [frame]) (by rw [frame]) fun o _ => by
        rcases kept o with same | ⟨-, r, p, _, _, known, -, changed⟩
        · rw [same]
          exact ⟨rfl, rfl⟩
        · rw [changed, known]
          exact ⟨rfl, rfl⟩
    refine fits.shut past e listed (same.2 ▸ gates) ?_
    rcases still with later | ⟨o, row, peer, there, barred⟩
    · exact .inl later
    · obtain ⟨r, known, -, agree⟩ := rows o row there
      exact .inr ⟨o, r, same.1 ▸ peer, known, agree.mp barred⟩

omit [Native] in
/-- The addresses of the entries the pass releases are not those of the entries it gates. -/
theorem Fits.released {v : View} {tunnel : Tunnel} {todo : List Entry}
    (fits : Fits reg tunnel v todo true) :
    Fits reg (tunnel.release (gatedBy .release v.memory v.listing)) v todo true := by
  refine ⟨fits.knows, fits.serves, fits.within, fun past e listed gates still => ?_⟩
  refine (Tunnel.mem_release _ _ _).mpr ⟨fits.shut past e listed gates still, fun released => ?_⟩
  simp only [gatedBy, List.mem_map, List.mem_filter, decide_eq_true_eq] at released
  obtain ⟨e', ⟨listed', releases⟩, address⟩ := released
  have same : e' = e := by
    obtain ⟨-, own', bounded'⟩ := (fits.serves.shows e' listed').1
    obtain ⟨-, own, bounded⟩ := (fits.serves.shows e listed).1
    refine fits.serves.same listed' listed (reg.apart _ _ bounded' bounded ?_)
    rw [← own', ← own, address]
  subst same
  rw [gates] at releases
  cases releases

theorem Shut.step {cfg : Config} {c c' : Client} {effect : Effect} (shut : Shut reg c)
    (does : Does cfg c effect c')
    (serves : ∀ f, effect = .fetch f → reg.Serves f.peers f.listing) : Shut reg c' := by
  cases does with
  | started => exact ⟨shut.knows, fun st v here view => by cases here; cases view⟩
  | restored => exact ⟨shut.knows, fun st v here view => by cases here; cases view⟩
  | raised => exact ⟨shut.knows, fun st v here view => by cases here; cases view⟩
  | @fetched f memory disk here rows _ _ _ saved =>
    have knows : reg.Knows memory := by
      intro o r there
      refine shut.knows o r ?_
      unfold EndpointState.relationship at *
      rw [← rows]
      exact there
    refine ⟨?_, fun st v here view => ?_⟩
    · rcases saved with rfl | rfl
      · exact knows
      · exact shut.knows
    · cases here
      cases view
      exact ⟨knows, serves f rfl, .refl _, fun past => nomatch past⟩
  | offline => exact ⟨shut.knows, fun st v here view => by cases here; cases view⟩
  | @blocked v here =>
    have fits := shut.fits _ v here rfl
    refine ⟨shut.knows, fun st v' here view => ?_⟩
    cases here
    cases view
    refine ⟨fits.knows, fits.serves, fits.within, fun _ e listed gates _ => ?_⟩
    refine (Tunnel.mem_block _ _ _).mpr (.inl ?_)
    simp only [gatedBy, List.mem_map, List.mem_filter, decide_eq_true_eq]
    exact ⟨e, ⟨listed, gates⟩, rfl⟩
  | @released v here =>
    have fits := shut.fits _ v here rfl
    refine ⟨shut.knows, fun st v' here' view => ?_⟩
    cases here'
    cases view
    exact Fits.released fits
  | @updated v now here =>
    have fits := shut.fits _ v here rfl
    refine ⟨shut.knows, fun st v' here' view => ?_⟩
    cases here'
    cases view
    exact Fits.later fits rfl
  | cut => exact ⟨shut.knows, fun st v here => by cases here⟩
  | cached => exact ⟨shut.knows, fun st v here => by cases here⟩
  | @passed v sampled e todo t memory tunnel here turned =>
    refine ⟨shut.knows, fun st v' here' view => ?_⟩
    cases here'
    cases view
    exact Fits.turn (shut.fits _ v here rfl) turned
  | @acted v sampled e todo t memory tunnel other action here turned =>
    refine ⟨shut.knows, fun st v' here' view => ?_⟩
    cases here'
    cases view
    exact Fits.turn (shut.fits _ v here rfl) turned
  | @saved v sampled todo other action stage here next =>
    have fits := shut.fits _ v here rfl
    refine ⟨fits.knows, fun st v' here' view => ?_⟩
    cases here'
    rcases next with rfl | ⟨m, -, rfl⟩
    · cases view
      exact fits
    · cases view
      exact fits
  | @unsaved v sampled todo other action here =>
    have fits := shut.fits _ v here rfl
    refine ⟨shut.knows, fun st v' here' view => ?_⟩
    cases here'
    cases view
    exact fits
  | @sent v sampled todo other m now drawn here =>
    have fits := shut.fits _ v here rfl
    refine ⟨shut.knows, fun st v' here' view => ?_⟩
    cases here'
    cases view
    exact fits
  | @failed v sampled todo other m now drawn stage here next =>
    have fits := Fits.noted (shut.fits _ v here rfl) other now drawn
    refine ⟨shut.knows, fun st v' here' view => ?_⟩
    cases here'
    rcases next with rfl | rfl
    · cases view
      exact fits
    · cases view
      exact fits
  | @noted v sampled todo done disk here saved =>
    have fits := shut.fits _ v here rfl
    refine ⟨?_, fun st v' here' view => ?_⟩
    · rcases saved with rfl | rfl
      · exact fits.knows
      · exact shut.knows
    · cases here'
      cases view
      exact fits
  | finished => exact ⟨shut.knows, fun st v here => by cases here⟩
  | aborted => exact ⟨shut.knows, fun st v here => by cases here⟩
  | rebooted => exact ⟨shut.knows, fun st v here => by cases here⟩
  | lowered => exact ⟨shut.knows, fun st v here => by cases here⟩
  | @shaken publicKey time i there =>
    exact ⟨shut.knows, fun st v here view =>
      ⟨(shut.fits st v here view).knows, (shut.fits st v here view).serves,
        (shut.fits st v here view).within, (shut.fits st v here view).shut⟩⟩
  | @counted publicKey rx tx i there =>
    exact ⟨shut.knows, fun st v here view =>
      ⟨(shut.fits st v here view).knows, (shut.fits st v here view).serves,
        (shut.fits st v here view).within, (shut.fits st v here view).shut⟩⟩
  | @administered u idle administrative =>
    refine ⟨fun o r' there => ?_, fun st v here => ?_⟩
    · have kept := EndpointState.upkept u c.disk o
      rw [there] at kept
      cases known : c.disk.relationship o with
      | none =>
        rw [known] at kept
        cases kept with
        | met _ same =>
          rw [same] at administrative
          cases administrative
      | some r =>
        rw [known] at kept
        cases kept with
        | revised revised =>
          rcases EndpointState.revised_remote revised with same | ⟨b, lifecycle, same, -⟩
          · rw [same]
            exact shut.knows o r known
          · rw [same] at administrative
            cases administrative
    · have here : c.running = some st := here
      rw [idle] at here
      cases here

omit [Native] in
theorem memory_of {c : Client} {st : Stage} {v : View} (here : c.running = some st)
    (view : st.view = some v) : c.memory = v.memory := by
  simp [memory, Client.view, here, view]

/-- A blocked address stays blocked across an effect while its peer is barred. -/
theorem Shut.stays {cfg : Config} {c c' : Client} {effect : Effect} (shut : Shut reg c)
    (does : Does cfg c effect c') (cleared : ∀ v, c.view = some v → Cleared v)
    (up : c.up = true) (live : effect ≠ .reboot) {other : Number} {r r' : Relationship}
    (known : c.memory.relationship other = some r) (barred : r.Barred)
    (known' : c'.memory.relationship other = some r') (barred' : r'.Barred)
    (before : reg.addressOf other.val ∈ c.tunnel.blocked) :
    reg.addressOf other.val ∈ c'.tunnel.blocked := by
  have turn : ∀ {v sampled e todo t done memory tunnel}, c.running = some (.applying v sampled (e :: todo)) →
      v.Turned e t c.tunnel done memory tunnel → c'.memory = memory →
      reg.addressOf other.val ∈ tunnel.blocked := by
    intro v sampled e todo t done memory tunnel here turned same
    have fits := shut.fits _ v here rfl
    rw [same] at known'
    cases turned with
    | passed => exact before
    | @turned o adv s row row' result _ peer advertised frame others own observes closed turn =>
      rcases turn.blocked _ before with still | ⟨p, found, address⟩
      · exact still
      have carries : row.remote.wgPublicKey = reg.keyOf o.val := by
        rw [observes.remote, ← (Entry.dataPeer_some peer).2]
        exact (fits.serves.shows e (fits.within.subset (List.mem_cons_self ..))).2 adv advertised
      have mine : o = other := Number.ext (reg.apart _ _ o.bounded other.bounded
        ((fits.serves.found carries found).2.symm.trans address))
      subst mine
      rw [EndpointState.relationship_setRelationship] at known'
      cases known'
      have shutDown : ¬ s.Open row := fun opened => turn.unbarred opened barred'
      rw [(closed shutDown).2]
      exact before
  cases does with
  | restored _ lowered => 
    rw [lowered] at up
    cases up
  | rebooted => exact absurd rfl live
  | @blocked v here => exact (Tunnel.mem_block _ _ _).mpr (.inr before)
  | @released v here =>
    have fits := shut.fits _ v here rfl
    refine (Tunnel.mem_release _ _ _).mpr ⟨before, fun released => ?_⟩
    simp only [gatedBy, List.mem_map, List.mem_filter, decide_eq_true_eq] at released
    obtain ⟨e, ⟨listed, releases⟩, address⟩ := released
    rw [memory_of here rfl] at known
    have id : e.peer.id = other.val := fits.serves.located listed address
    have view : c.view = some v := by simp [Client.view, here, Stage.view]
    cases peer : e.dataPeer v.memory with
    | none => simp [Entry.gating, peer] at releases
    | some o =>
      have mine : o = other := Number.ext ((Entry.dataPeer_some peer).2.symm.trans id)
      subst mine
      have gates : e.gating v.memory = .gate := by
        rw [Entry.gating_gate peer]
        rcases cleared v view o r known barred with retired | ⟨unconfirmed, legacy⟩
        · exact .inl retired
        · refine .inr ⟨fun row there => ?_, legacy e listed peer⟩
          rw [known] at there
          cases there
          exact unconfirmed
      rw [gates] at releases
      cases releases
  | passed here turned => exact turn here turned rfl
  | acted here turned => exact turn here turned rfl
  | @finished v sampled answers cache here =>
    have fits := shut.fits _ v here rfl
    rw [memory_of here rfl] at known
    have view : c.view = some v := by simp [Client.view, here, Stage.view]
    obtain ⟨-, -, kept⟩ := reconcileGate_cases v.memory v.peers answers c.tunnel
    rcases kept _ before with still | ⟨enabled, o, row, p, i, there, -, confirmed, found, address, -⟩
    · exact still
    have mine : o = other := Number.ext (reg.apart _ _ o.bounded other.bounded
      ((fits.serves.found (fits.knows o row there) found).2.symm.trans address))
    subst mine
    rw [known] at there
    cases there
    rcases cleared v view o _ known barred with retired | ⟨unconfirmed, -⟩
    · exact absurd retired enabled
    · rw [unconfirmed] at confirmed
      cases confirmed
  | _ => exact before

/-- What a finished fetch has blocked, and what no effect releases, whatever confirmed record or
handshake there is, in a run that never works with a barred relationship that kept its record. -/
theorem barred_gated {cfg : Config} {c₀ c : Client} {ms : List (Move Client Effect)}
    (idle : c₀.running = none) (knows : reg.Knows c₀.disk)
    (run : Run (Taken (next cfg)) c₀ ms c)
    (serves : ∀ m ∈ ms, ∀ f, m.label = .fetch f → reg.Serves f.peers f.listing)
    (cleared : ∀ m ∈ ms, ∀ v, m.before.view = some v → Cleared v) :
    (∀ m ∈ ms, ∀ answers v, m.label = .finish answers → m.before.view = some v →
      ∀ e ∈ v.listing, e.Barred v.memory → e.peer.allowedIp ∈ m.after.tunnel.blocked) ∧
    ∀ m ∈ ms, m.before.up = true → m.label ≠ .reboot → ∀ other r r',
      m.before.memory.relationship other = some r → r.Barred →
      m.after.memory.relationship other = some r' → r'.Barred →
      reg.addressOf other.val ∈ m.before.tunnel.blocked →
      reg.addressOf other.val ∈ m.after.tunnel.blocked := by
  have start : Shut reg c₀ := ⟨knows, fun st v here => by rw [idle] at here; cases here⟩
  have held : ∀ m ∈ ms, Shut reg m.before ∧ Does cfg m.before m.label m.after := by
    intro m member
    refine ⟨run.before start (fun a l b shut taken allowed =>
      shut.step (next_does taken) allowed) serves m member, next_does (run.reached m member).1⟩
  refine ⟨fun m member answers v finish view e listed barred => ?_,
    fun m member up live other r r' known barred known' barred' before => ?_⟩
  · obtain ⟨shut, does⟩ := held m member
    obtain ⟨other, r, peer, known, isBarred⟩ := barred
    have clear := cleared m member v view other r known isBarred
    generalize m.label = label at finish does
    generalize m.after = after at does ⊢
    subst finish
    cases does with
    | @finished v' sampled _ cache here =>
      have same : v' = v := by simpa [Client.view, here, Stage.view] using view
      subst same
      have fits := shut.fits _ v' here rfl
      have gates : e.gating v'.memory = .gate := by
        rw [Entry.gating_gate peer]
        rcases clear with retired | ⟨unconfirmed, legacy⟩
        · exact .inl retired
        · refine .inr ⟨fun row there => ?_, legacy e listed peer⟩
          rw [known] at there
          cases there
          exact unconfirmed
      have before := fits.shut rfl e listed gates (.inr ⟨other, r, peer, known, isBarred⟩)
      obtain ⟨-, -, kept⟩ := reconcileGate_cases v'.memory v'.peers answers m.before.tunnel
      rcases kept _ before with still | ⟨enabled, o, row, p, i, there, -, confirmed, found, address, -⟩
      · exact still
      have ids : e.peer.id = o.val := fits.serves.located listed
        (address.symm.trans (fits.serves.found (fits.knows o row there) found).2)
      have mine : o = other := Number.ext (ids.symm.trans (Entry.dataPeer_some peer).2)
      subst mine
      rw [known] at there
      cases there
      rcases clear with retired | ⟨unconfirmed, -⟩
      · exact absurd retired enabled
      · rw [unconfirmed] at confirmed
        cases confirmed
  · obtain ⟨shut, does⟩ := held m member
    exact shut.stays does (cleared m member) up live known barred known' barred' before

end Steps

end Client

section Sample

open Arithmetic Client

namespace Arithmetic

def config : Config where
  publicKey := 2
  serverKey := 1
  serverAddress := ⟨.v6 1, 128⟩
  serverEndpoint := ⟨.v4 1, 51820⟩
  managementPsk := some 9

def listed (n : Nat) : Peer where
  id := n
  publicKey := BitVec.ofNat _ n
  ip := .v6 (BitVec.ofNat _ n)
  isDisabled := false
  endpoint := none
  persistentKeepaliveInterval := some 25
  candidates := []

def registry : Registry where
  idOf key := key.toNat
  keyOf n := BitVec.ofNat _ n
  addressOf n := ⟨.v6 (BitVec.ofNat _ n), 128⟩
  keyed n small := by
    rw [BitVec.toNat_ofNat]
    exact Nat.mod_eq_of_lt (by omega)
  apart m n small small' same := by
    have bits : BitVec.ofNat 128 m = BitVec.ofNat 128 n := by simpa using same
    have values := congrArg BitVec.toNat bits
    rw [BitVec.toNat_ofNat, BitVec.toNat_ofNat, Nat.mod_eq_of_lt (by omega),
      Nat.mod_eq_of_lt (by omega)] at values
    exact values

/-- The third peer, barred, with or without a record of an earlier exchange. -/
def barredPeer (confirmed : Option Confirmed) : Relationship :=
  { Relationship.fresh (identity 3 first).bundle with confirmed, gated := true, status := .blocked }

def record : Confirmed where
  localBundleId := 2
  remoteBundleId := 3
  sequence := first
  exchangeId := 5
  transcriptHash := 0
  psk := 77
  completedAt := 10

/-- The second peer's interface is up, and the third peer is blocked after a handshake. -/
def interface (r : Relationship) : Client where
  disk := endpoint second (identity 2 first) ((∅ : Table Number Relationship).insert third r)
  cache := []
  up := true
  tunnel := {
    device := (∅ : Device).insert 3 { PeerConfigBuilder.blank with
      config := {
        presharedKey := some 77
        allowedIps := [(listed 3).allowedIp]
        persistentKeepaliveInterval := some 25
        endpoint := none }
      lastHandshake := some ⟨15, some 77⟩ }
    blocked := [(listed 3).allowedIp] }
  running := none

def answered : Answers := ⟨true, true, true, true⟩

/-- What the server shows the second peer. -/
def shownThird (exchanges : List Exchange) : Fetched where
  peers := [listed 1, listed 2, listed 3]
  listing := [⟨true, listed 1, none⟩, ⟨false, listed 2, some ⟨1, .enabled, (identity 2 first).bundle⟩⟩,
    ⟨false, listed 3, some ⟨1, .enabled, (identity 3 first).bundle⟩⟩]
  exchanges
  permissive := false
  reply := none
  saves := true

/-- A fetch from its start to its end. -/
def fetching (now : Nat) (exchanges : List Exchange) (closing : List Effect) : List Effect :=
  let turning : Turning := ⟨now, 86400, 0, answered, .error .random, 0, 0⟩
  [.start, .fetch (shownThird exchanges), .block, .release, .update now none, .turn turning,
    .turn turning, .turn turning, .save true] ++ closing ++ [.finish answered]

theorem registry_serves (exchanges : List Exchange) :
    registry.Serves (shownThird exchanges).peers (shownThird exchanges).listing := by
  constructor
  · simp only [shownThird, Registry.Lists]
    decide +kernel
  · simp only [shownThird, Registry.Shows, Registry.Lists]
    decide +kernel
  · simp only [shownThird]
    decide +kernel

/-- The second peer's interface over one fetch. -/
def fetched (r : Relationship) : Option (List (Move Client Effect) × Client) :=
  execute (@Client.next native config) (interface r) (fetching 20 [] [])

theorem fetched_serves {r : Relationship} {ms : List (Move Client Effect)} {c : Client}
    (done : fetched r = some (ms, c)) :
    ∀ m ∈ ms, ∀ f, m.label = .fetch f → registry.Serves f.peers f.listing := by
  intro m member f label
  have listed : m.label ∈ fetching 20 [] [] := by
    rw [← execute_labels done]
    exact List.mem_map_of_mem member
  rw [label] at listed
  have same : f = shownThird [] := by simpa [fetching] using listed
  rw [same]
  exact registry_serves []

end Arithmetic

/-- The moves that finish a fetch with a barred peer listed, and whether it is left blocked. -/
def Arithmetic.finishes (blocked : Bool) (m : Move Client Effect) : Bool :=
  match m.label with
  | .finish _ => m.before.view.any fun v => v.listing.any fun e => decide (e.Barred v.memory) &&
      (decide (e.peer.allowedIp ∈ m.after.tunnel.blocked) == blocked)
  | _ => false

theorem Arithmetic.finishes_some {blocked : Bool} {m : Move Client Effect}
    (found : finishes blocked m = true) : ∃ answers v e, m.label = .finish answers ∧
      m.before.view = some v ∧ e ∈ v.listing ∧ e.Barred v.memory ∧
      decide (e.peer.allowedIp ∈ m.after.tunnel.blocked) = blocked := by
  unfold finishes at found
  split at found
  · rename_i answers label
    obtain ⟨v, view, found⟩ := (Option.any_eq_true _ _).mp found
    obtain ⟨e, listed, found⟩ := List.any_eq_true.mp found
    rw [Bool.and_eq_true, decide_eq_true_eq, beq_iff_eq] at found
    exact ⟨answers, v, e, label, view, listed, found.1, found.2⟩
  · cases found

theorem Client.barred_gated_replaced : ∃ ms c,
    Run (Taken (@Client.next native config)) (interface (barredPeer none)) ms c ∧
    ∃ m ∈ ms, ∃ answers v e, m.label = .finish answers ∧ m.before.view = some v ∧ e ∈ v.listing ∧
      e.Barred v.memory ∧ e.peer.allowedIp ∈ m.after.tunnel.blocked := by
  have facts : (fetched (barredPeer none)).any (fun run =>
      (run.1.all fun m => m.before.view.all fun v => decide (Cleared v)) &&
      run.1.any (finishes true)) = true := by
    decide +kernel
  obtain ⟨⟨ms, c⟩, done, facts⟩ := (Option.any_eq_true _ _).mp facts
  rw [Bool.and_eq_true, List.all_eq_true, List.any_eq_true] at facts
  obtain ⟨all, m, member, found⟩ := facts
  obtain ⟨answers, v, e, label, view, listed, barred, -⟩ := finishes_some found
  have run := execute_run done
  have cleared : ∀ m ∈ ms, ∀ v, m.before.view = some v → Cleared v := by
    intro m member v view
    have holds := all m member
    rw [view] at holds
    simpa using holds
  have knows : registry.Knows (interface (barredPeer none)).disk := by
    intro other r known
    have table : (interface (barredPeer none)).disk.relationship other =
        if other = third then some (barredPeer none) else none := by
      change ((∅ : Table Number Relationship).insert third (barredPeer none)).lookup other = _
      rw [lookup_insert_eq]
      rfl
    rw [table] at known
    split at known
    · rename_i same
      cases known
      rw [same]
      rfl
    · cases known
  obtain ⟨closes, -⟩ := @barred_gated native registry _ _ _ _ rfl knows run (fetched_serves done)
    cleared
  exact ⟨ms, c, run, m, member, answers, v, e, label, view, listed, barred,
    closes m member answers v label view e listed barred⟩

/-- The peer's confirmed record keeps the pass from gating it, and its old handshake releases it. -/
theorem Client.barred_released : ∃ ms c,
    Run (Taken (@Client.next native config)) (interface (barredPeer (some record))) ms c ∧
    (∀ m ∈ ms, ∀ f, m.label = .fetch f → registry.Serves f.peers f.listing) ∧
    ∃ m ∈ ms, ∃ answers v e, m.label = .finish answers ∧ m.before.view = some v ∧ e ∈ v.listing ∧
      e.Barred v.memory ∧ e.peer.allowedIp ∉ m.after.tunnel.blocked := by
  have facts : (fetched (barredPeer (some record))).any (fun run =>
      run.1.any (finishes false)) = true := by
    decide +kernel
  obtain ⟨⟨ms, c⟩, done, facts⟩ := (Option.any_eq_true _ _).mp facts
  obtain ⟨m, member, found⟩ := List.any_eq_true.mp facts
  obtain ⟨answers, v, e, label, view, listed, barred, released⟩ := finishes_some found
  exact ⟨ms, c, execute_run done, fetched_serves done, m, member, answers, v, e, label, view,
    listed, barred, by simpa using released⟩

end Sample

end Innernet
