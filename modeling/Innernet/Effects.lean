import Innernet.Client

/-! What each effect of a fetch can do to the kernel and the gate, read off the code once. -/
namespace Innernet

open Fallible Tables

theorem findPeer_some {peers : List Peer} {b : Bundle} {p : Peer} (found : findPeer peers b = some p) :
    p ∈ peers ∧ p.publicKey = b.wgPublicKey := by
  have listed := List.mem_of_find?_eq_some found
  have same := List.find?_some found
  exact ⟨listed, by simpa using same⟩

namespace Tunnel

@[simp] theorem block_device (t : Tunnel) (ips : List AllowedIp) : (t.block ips).device = t.device :=
  rfl

@[simp] theorem release_device (t : Tunnel) (ips : List AllowedIp) :
    (t.release ips).device = t.device := rfl

@[simp] theorem mem_block (t : Tunnel) (ips : List AllowedIp) (a : AllowedIp) :
    a ∈ (t.block ips).blocked ↔ a ∈ ips ∨ a ∈ t.blocked := by
  simp [block]

@[simp] theorem mem_release (t : Tunnel) (ips : List AllowedIp) (a : AllowedIp) :
    a ∈ (t.release ips).blocked ↔ a ∈ t.blocked ∧ a ∉ ips := by
  simp [release]

end Tunnel

/-- What an installation does. -/
inductive Installs (peers : List Peer) (b : Bundle) (c : Candidate) (t : Tunnel) :
    Except Error Unit → Tunnel → Prop where
  | refused : Installs peers b c t (.error .installer) t
  | gated {p : Peer} : findPeer peers b = some p →
      Installs peers b c t (.error .installer) (t.block [p.allowedIp])
  | removed {p : Peer} : findPeer peers b = some p →
      Installs peers b c t (.error .installer)
        { t.block [p.allowedIp] with device := t.device.erase p.publicKey }
  | recreated {p : Peer} {i : PeerInfo} : findPeer peers b = some p →
      i.config.presharedKey = some c.psk → i.config.allowedIps = [p.allowedIp] →
      i.lastHandshake = none →
      Installs peers b c t (.ok ())
        { t.block [p.allowedIp] with device := (t.device.erase p.publicKey).insert p.publicKey i }

theorem realInstaller_installs {peers : List Peer} {answers : Answers} {b : Bundle} {c : Candidate}
    {t t' : Tunnel} {answer : Except Error Unit}
    (asked : (realInstaller peers answers).install b c t = (answer, t')) :
    Installs peers b c t answer t' := by
  simp only [realInstaller] at asked
  split at asked
  · cases asked
    exact .refused
  rename_i p found
  split at asked
  · cases asked
    exact .refused
  split at asked
  · cases asked
    exact .gated found
  split at asked
  · cases asked
    exact .removed found
  · cases asked
    have absent : (t.device.erase p.publicKey).lookup p.publicKey = none := AList.lookup_erase _ _
    refine .recreated (i := _) found ?_ ?_ ?_
    all_goals
      simp [PeerConfigBuilder.configure, PeerConfigBuilder.new, PeerConfigBuilder.remove,
        PeerConfigBuilder.apply, PeerConfigBuilder.blank, absent]

/-- What looking for a handshake does: nothing, or it releases the peer whose handshake is there. -/
theorem handshakeFresh_cases {peers : List Peer} {answers : Answers} {b : Bundle} {t t' : Tunnel}
    {answer : Except Error Bool}
    (asked : (realInstaller peers answers).handshakeFresh b t = (answer, t')) :
    (t' = t ∧ answer ≠ .ok true) ∨ ∃ p i, findPeer peers b = some p ∧
      t.device.lookup p.publicKey = some i ∧ i.lastHandshake.isSome = true ∧ answer = .ok true ∧
      t' = t.release [p.allowedIp] := by
  simp only [realInstaller] at asked
  split at asked
  · cases asked
    exact .inl ⟨rfl, fun same => nomatch same⟩
  rename_i p found
  split at asked
  · cases asked
    exact .inl ⟨rfl, fun same => nomatch same⟩
  obtain ⟨rfl, rfl⟩ := asked
  cases there : t.device.lookup p.publicKey with
  | none => exact .inl ⟨by simp, by simp⟩
  | some i =>
    by_cases shaken : i.lastHandshake.isSome = true
    · exact .inr ⟨p, i, found, there, shaken, by simp [shaken], by simp [shaken]⟩
    · exact .inl ⟨by simp [shaken], by simp [shaken]⟩

section Turns

variable [Native]

/-- What the directory's entry makes of a relationship before the call. -/
structure Observes (s : EndpointState) (other : Number) (adv : AdvertisedBundle)
    (r : Relationship) : Prop where
  remote : r.remote = adv.bundle
  confirmed : r.confirmed = (s.relationship other).bind Relationship.confirmed
  priorPq : r.priorPq = (s.relationship other).any fun r => r.priorPq
  gated : r.gated = (s.relationship other).any fun r => r.gated
  pending : r.pending = none ∨ r.pending = s.pendingWith other
  kept : adv.lifecycle = .enabled →
    (∀ r₀, s.relationship other = some r₀ → adv.bundle.bundleId = r₀.remote.bundleId) →
    r.pending = s.pendingWith other

omit [Native] in
theorem Relationship.settle_frame (r : Relationship) (lifecycle : Lifecycle) :
    (r.settle lifecycle).remote = r.remote ∧ (r.settle lifecycle).confirmed = r.confirmed ∧
      (r.settle lifecycle).priorPq = r.priorPq ∧ (r.settle lifecycle).gated = r.gated ∧
      (lifecycle = .enabled → (r.settle lifecycle).pending = r.pending) := by
  unfold Relationship.settle
  split
  · rename_i retired
    subst retired
    exact ⟨rfl, rfl, rfl, rfl, fun same => nomatch same⟩
  · split
    · exact ⟨rfl, rfl, rfl, rfl, fun _ => rfl⟩
    · exact ⟨rfl, rfl, rfl, rfl, fun _ => rfl⟩

theorem EndpointState.observeRemote_observes {s s' : EndpointState} {other : Number}
    {adv : AdvertisedBundle} (observed : s.observeRemote other adv.bundle adv.lifecycle = .ok s') :
    (other ≠ s.peerId ∧ other ≠ s.serverId) ∧ (∃ relationships, s' = { s with relationships }) ∧
      (∀ o, o ≠ other → s'.relationship o = s.relationship o) ∧
      ∃ r, s'.relationship other = some r ∧ Observes s other adv r := by
  simp only [observeRemote, bind_ok, require_ok] at observed
  obtain ⟨_, apart, _, -, observed⟩ := observed
  split at observed
  · rename_i unknown
    simp only [bind_ok, require_ok, pure_ok] at observed
    obtain ⟨_, -, rfl⟩ := observed
    obtain ⟨remote, confirmed, priorPq, gated, pending⟩ :=
      Relationship.settle_frame (.fresh adv.bundle) adv.lifecycle
    have unset : s.pendingWith other = none := by rw [pendingWith, unknown]; rfl
    have idle : (Relationship.settle (.fresh adv.bundle) adv.lifecycle).pending = none := by
      rcases settle_pending (.fresh adv.bundle) adv.lifecycle with same | dropped
      · rw [same]
        rfl
      · exact dropped
    refine ⟨apart, ⟨_, rfl⟩, fun o differs => ?_, _, relationship_setRelationship _ _ _, remote, ?_,
      ?_, ?_, .inl idle, fun _ _ => idle.trans unset.symm⟩
    · rw [relationship_insert, if_neg differs]
    · rw [confirmed, unknown]
      rfl
    · rw [priorPq, unknown]
      rfl
    · rw [gated, unknown]
      rfl
  · rename_i r known
    simp only [bind_ok, require_ok, pure_ok] at observed
    obtain ⟨_, -, rfl⟩ := observed
    have before : s.pendingWith other = r.pending := by rw [pendingWith, known]; rfl
    obtain ⟨remote, confirmed, priorPq, gated, pending⟩ :=
      Relationship.settle_frame (.refresh s.peerId other r adv.bundle) adv.lifecycle
    refine ⟨apart, ⟨_, rfl⟩, fun o differs => ?_, _, relationship_setRelationship _ _ _, remote, ?_,
      ?_, ?_, ?_, fun enabled same => ?_⟩
    · rw [relationship_insert, if_neg differs]
    · rw [confirmed, known]
      rfl
    · rw [priorPq, known]
      rfl
    · rw [gated, known]
      rfl
    · rw [before]
      rcases settle_pending (.refresh s.peerId other r adv.bundle) adv.lifecycle with same | dropped
      · rw [same]
        exact (refresh_pending s.peerId other r adv.bundle).symm
      · exact .inl dropped
    · rw [before, pending enabled]
      simp only [Relationship.refresh]
      rw [if_neg (fun changed => changed.1 (same r known))]

/-- One entry's turn passes the entry over, or observes its bundle and takes one turn of the
relationship with it. -/
inductive View.Turned (v : View) (e : Entry) (t : Turning) (tunnel : Tunnel) :
    Option (Number × Action) → EndpointState → Tunnel → Prop where
  | passed : Turned v e t tunnel none v.memory tunnel
  | turned {other : Number} {adv : AdvertisedBundle} {s : EndpointState} {r r' : Relationship}
      {result : Except Error Action} {tunnel' : Tunnel} :
      e.dataPeer v.memory = some other → e.pq = some adv →
      (∃ relationships, s = { v.memory with relationships }) →
      (∀ o, o ≠ other → s.relationship o = v.memory.relationship o) →
      s.relationship other = some r → Observes v.memory other adv r →
      (¬ s.Open r → r' = r ∧ tunnel' = tunnel) →
      EndpointState.Turn s other r (exchangeFor v.exchanges s.peerId other) t.now
        (realInstaller v.peers t.answers) t.draws tunnel result r' tunnel' →
      Turned v e t tunnel (result.toOption.map fun action => (other, action))
        (s.setRelationship other r') tunnel'

omit [Native] in
theorem EndpointState.sample_observes (s : EndpointState) (other : Number) (now : Nat)
    (info : Option PeerInfo) {adv : AdvertisedBundle} {s₀ : EndpointState} {r : Relationship}
    (known : s.relationship other = some r) (observes : Observes s₀ other adv r) :
    (∃ relationships, s.sample other now info = { s with relationships }) ∧
      (∀ o, o ≠ other → (s.sample other now info).relationship o = s.relationship o) ∧
      ∃ r', (s.sample other now info).relationship other = some r' ∧ Observes s₀ other adv r' := by
  unfold sample
  split
  · exact ⟨⟨_, rfl⟩, fun _ _ => rfl, r, known, observes⟩
  unfold observeActivity
  rw [known]
  dsimp only [after]
  split
  · exact ⟨⟨_, rfl⟩, fun _ _ => rfl, r, known, observes⟩
  · refine ⟨⟨_, rfl⟩, fun o differs => ?_, _, relationship_setRelationship _ _ _, ?_⟩
    · rw [relationship_insert, if_neg differs]
    · exact ⟨observes.remote, observes.confirmed, observes.priorPq, observes.gated,
        observes.pending, observes.kept⟩

theorem View.turned (v : View) (sampled : Device) (e : Entry) (t : Turning) (tunnel : Tunnel) :
    v.Turned e t tunnel (v.turn sampled e t tunnel).1 (v.turn sampled e t tunnel).2.1
      (v.turn sampled e t tunnel).2.2 := by
  unfold View.turn
  split
  · rename_i other adv peer advertised
    split
    · exact .passed
    rename_i s₁ observed
    obtain ⟨apart, ⟨rows₁, frame₁⟩, others₁, r₁, known₁, observes₁⟩ :=
      EndpointState.observeRemote_observes observed
    obtain ⟨⟨rows₂, frame₂⟩, others₂, r, known, observes⟩ :=
      EndpointState.sample_observes s₁ other t.now (sampled.lookup e.peer.publicKey) known₁ observes₁
    generalize s₁.sample other t.now (sampled.lookup e.peer.publicKey) = s at *
    have frame : s = { v.memory with relationships := rows₂ } := by rw [frame₂, frame₁]
    have others : ∀ o, o ≠ other → s.relationship o = v.memory.relationship o :=
      fun o differs => by rw [others₂ o differs, others₁ o differs]
    dsimp only
    have peerId : s.peerId = v.memory.peerId := by rw [frame]
    have serverId : s.serverId = v.memory.serverId := by rw [frame]
    have peer' : other ≠ s.peerId ∧ other ≠ s.serverId := by rw [peerId, serverId]; exact apart
    have closed : ¬ s.Open r → s.reconcile other (exchangeFor v.exchanges s.peerId other) t.now
        t.rotationInterval t.idleTimeout (realInstaller v.peers t.answers) t.draws tunnel =
          (.ok .none, s.setRelationship other r, tunnel) := by
      intro shut
      unfold EndpointState.reconcile
      rw [if_neg (not_or.mpr peer'), known]
      dsimp only
      rw [EndpointState.reconcileRelationship_closed shut]
    by_cases shut : s.Open r
    · have turns : ∃ result r' tunnel', s.reconcile other (exchangeFor v.exchanges s.peerId other)
          t.now t.rotationInterval t.idleTimeout (realInstaller v.peers t.answers) t.draws tunnel =
            (result, s.setRelationship other r', tunnel') ∧
          EndpointState.Turn s other r (exchangeFor v.exchanges s.peerId other) t.now
            (realInstaller v.peers t.answers) t.draws tunnel result r' tunnel' :=
        EndpointState.reconcile_turn peer' known
      obtain ⟨result, r', tunnel', done, turn⟩ := turns
      rw [done]
      have taken := View.Turned.turned (t := t) peer advertised ⟨rows₂, frame⟩ others known observes
        (fun closed => absurd shut closed) turn
      cases result with
      | error e => exact taken
      | ok action => exact taken
    · rw [closed shut]
      have rested : EndpointState.Turn s other r (exchangeFor v.exchanges s.peerId other) t.now
          (realInstaller v.peers t.answers) t.draws tunnel (.ok .none) r tunnel := by
        refine .rested ?_
        by_contra never
        rw [not_or, not_or, not_or, Bool.not_eq_true] at never
        exact shut ⟨never.1, never.2.1, never.2.2.1⟩
      exact View.Turned.turned (t := t) peer advertised ⟨rows₂, frame⟩ others known observes
        (fun _ => ⟨rfl, rfl⟩) rested
  · exact .passed

/-- A turn leaves the kernel and the gate, installs the pending candidate, or looks for a
handshake. -/
theorem EndpointState.Turn.world {σ : Type} {s : EndpointState} {other : Number}
    {r r' : Relationship} {remote : Option Exchange} {now : Nat} {installer : Installer σ}
    {draws : Draws} {world world' : σ} {result : Except Error Action}
    (turn : Turn s other r remote now installer draws world result r' world') :
    world' = world ∨ (∃ p answer, r.pending = some p ∧
        installer.install r.remote p.candidate world = (answer, world')) ∨
      ∃ answer, installer.handshakeFresh r.remote world = (answer, world') := by
  cases turn with
  | acted pending _ _ act =>
    cases act with
    | held _ _ asked =>
      cases asked with
      | unasked => exact .inl rfl
      | waiting answered => exact .inr (.inr ⟨_, answered⟩)
    | refused _ _ installed => exact .inr (.inl ⟨_, _, pending, installed⟩)
    | installed _ _ _ installed => exact .inr (.inl ⟨_, _, pending, installed⟩)
    | noted _ _ installed => exact .inr (.inl ⟨_, _, pending, installed⟩)
    | confirmed _ _ _ answered => exact .inr (.inr ⟨_, answered⟩)
    | unsigned _ _ answered => exact .inr (.inr ⟨_, answered⟩)
    | _ => exact .inl rfl
  | _ => exact .inl rfl

/-- The only address a turn can release is that of its own peer. -/
theorem EndpointState.Turn.blocked {s : EndpointState} {other : Number} {r r' : Relationship}
    {remote : Option Exchange} {now : Nat} {peers : List Peer} {answers : Answers} {draws : Draws}
    {t t' : Tunnel} {result : Except Error Action}
    (turn : Turn s other r remote now (realInstaller peers answers) draws t result r' t') :
    ∀ a ∈ t.blocked, a ∈ t'.blocked ∨ ∃ p, findPeer peers r.remote = some p ∧ p.allowedIp = a := by
  intro a there
  rcases turn.world with rfl | ⟨p, answer, -, asked⟩ | ⟨answer, asked⟩
  · exact .inl there
  · refine .inl ?_
    cases realInstaller_installs asked with
    | refused => exact there
    | gated => simp [there]
    | removed => exact List.mem_cons_of_mem _ there
    | recreated => exact List.mem_cons_of_mem _ there
  · rcases handshakeFresh_cases asked with ⟨rfl, -⟩ | ⟨p, i, found, -, -, -, rfl⟩
    · exact .inl there
    · by_cases same : p.allowedIp = a
      · exact .inr ⟨p, found, same⟩
      · exact .inl ((Tunnel.mem_release _ _ _).mpr ⟨there, by simpa using fun h => same h.symm⟩)

end Turns

/-- `reconcile_gate` releases only peers of confirmed relationships whose handshake is there. -/
theorem reconcileGate_cases (s : EndpointState) (peers : List Peer) (answers : Answers)
    (t : Tunnel) : (reconcileGate s peers answers t).device = t.device ∧
      (∀ a ∈ (reconcileGate s peers answers t).blocked, a ∈ t.blocked) ∧
      ∀ a ∈ t.blocked, a ∈ (reconcileGate s peers answers t).blocked ∨
        (s.registration.lifecycle ≠ .retired ∧ ∃ other r p i, s.relationship other = some r ∧
          r.pending = none ∧ r.confirmed.isSome = true ∧ findPeer peers r.remote = some p ∧
          p.allowedIp = a ∧ t.device.lookup p.publicKey = some i ∧
          i.lastHandshake.isSome = true) := by
  unfold reconcileGate
  split
  · exact ⟨rfl, fun _ there => there, fun _ there => .inl there⟩
  rename_i enabled
  suffices general : ∀ (entries : List (Sigma fun _ : Number => Relationship)),
      (∀ e ∈ entries, s.relationship e.1 = some e.2) → ∀ u : Tunnel, u.device = t.device →
      let u' := entries.foldl (fun t e =>
        if e.2.pending.isSome ∨ e.2.confirmed.isNone then t
        else ((realInstaller peers answers).handshakeFresh e.2.remote t).2) u
      u'.device = t.device ∧ (∀ a ∈ u'.blocked, a ∈ u.blocked) ∧
        ∀ a ∈ u.blocked, a ∈ u'.blocked ∨ ∃ other r p i, s.relationship other = some r ∧
          r.pending = none ∧ r.confirmed.isSome = true ∧ findPeer peers r.remote = some p ∧
          p.allowedIp = a ∧ t.device.lookup p.publicKey = some i ∧
          i.lastHandshake.isSome = true by
    obtain ⟨device, shrinks, kept⟩ := general s.relationships.entries
      (fun e member => (mem_entries_iff _ _).mp member) t rfl
    refine ⟨device, shrinks, fun a there => ?_⟩
    rcases kept a there with still | released
    · exact .inl still
    · exact .inr ⟨enabled, released⟩
  intro entries
  induction entries with
  | nil => exact fun _ u device => ⟨device, fun _ there => there, fun _ there => .inl there⟩
  | cons e rest ih =>
    intro known u device
    have tail := ih (fun e' later => known e' (List.mem_cons_of_mem _ later))
    dsimp only [List.foldl_cons]
    split
    · exact tail u device
    rename_i settled
    rw [not_or, Bool.not_eq_true, Bool.not_eq_true] at settled
    generalize asked : (realInstaller peers answers).handshakeFresh e.2.remote u = outcome
    obtain ⟨answer, u'⟩ := outcome
    rcases handshakeFresh_cases asked with ⟨rfl, -⟩ | ⟨p, i, found, there, shaken, -, rfl⟩
    · exact tail _ device
    · obtain ⟨device', shrinks, kept⟩ := tail (u.release [p.allowedIp]) device
      refine ⟨device', fun a still => ((Tunnel.mem_release _ _ _).mp (shrinks a still)).1,
        fun a before => ?_⟩
      by_cases same : a = p.allowedIp
      · refine .inr ⟨e.1, e.2, p, i, known e (by simp), ?_, ?_, found, same.symm, ?_, shaken⟩
        · simpa using settled.1
        · cases confirmed : e.2.confirmed with
          | none => simp [confirmed] at settled
          | some c => rfl
        · rw [← device]
          exact there
      · exact kept a ((Tunnel.mem_release _ _ _).mpr ⟨before, by simpa using same⟩)

/-- What the ordinary update makes of one kernel peer. -/
inductive Updated (peers : List Peer) (k : Binary 32) : Option PeerInfo → Option PeerInfo → Prop where
  | same {old : Option PeerInfo} : Updated peers k old old
  | removed {i : PeerInfo} : (∀ p ∈ peers, p.publicKey ≠ k) → Updated peers k (some i) none
  | changed {i i' : PeerInfo} {p : Peer} : p ∈ peers → p.publicKey = k →
      i'.config.presharedKey = i.config.presharedKey → i'.lastHandshake = i.lastHandshake →
      i'.config.allowedIps = i.config.allowedIps ∨ i'.config.allowedIps = [p.allowedIp] →
      Updated peers k (some i) (some i')
  | added {i' : PeerInfo} {p : Peer} : p ∈ peers → p.publicKey = k → p.isDisabled = false →
      i'.config.presharedKey = none → i'.lastHandshake = none →
      i'.config.allowedIps = [p.allowedIp] → Updated peers k none (some i')

/-- An instruction of the ordinary update for one key, made when the kernel had `old` under it. -/
inductive PeerConfigBuilder.Ordinary (peers : List Peer) (k : Binary 32) (old : Option PeerInfo)
    (b : PeerConfigBuilder) : Prop where
  | elsewhere : b.publicKey ≠ k → Ordinary peers k old b
  | removes : b.publicKey = k → b.removeMe = true → (∀ p ∈ peers, p.publicKey ≠ k) →
      Ordinary peers k old b
  | modifies {p : Peer} : b.publicKey = k → b.removeMe = false → b.presharedKey = none → p ∈ peers →
      p.publicKey = k → p.isDisabled = false →
      (b.replaceAllowedIps = true ∧ b.allowedIps = [p.allowedIp]) ∨
        (b.replaceAllowedIps = false ∧ b.allowedIps = [] ∧ old ≠ none) → Ordinary peers k old b

theorem PeerDiff.peerConfigBuilder_some {now : Nat} {old : Option PeerInfo} {p : Peer}
    {b : PeerConfigBuilder} (made : PeerDiff.peerConfigBuilder now old p = some b) :
    b.publicKey = p.publicKey ∧ b.removeMe = false ∧ b.presharedKey = none ∧
      ((b.replaceAllowedIps = true ∧ b.allowedIps = [p.allowedIp]) ∨
        (b.replaceAllowedIps = false ∧ b.allowedIps = [] ∧ old ≠ none)) := by
  simp only [peerConfigBuilder] at made
  split at made
  · cases made
    cases old with
    | none =>
      split <;> split <;> simp [PeerConfigBuilder.new]
    | some i =>
      by_cases ips : i.config.allowedIps = [p.allowedIp]
      · split <;> split <;> simp [PeerConfigBuilder.new, ips]
      · split <;> split <;> simp [PeerConfigBuilder.new, ips]
  · cases made

theorem Device.diff_ordinary {d : Device} {own : Binary 32} {now : Nat} {peers : List Peer}
    {b : PeerConfigBuilder} (member : b ∈ d.diff own now peers) (k : Binary 32) :
    b.Ordinary peers k (d.lookup k) := by
  by_cases here : b.publicKey = k
  swap
  · exact .elsewhere here
  simp only [diff, List.mem_append, List.mem_filterMap] at member
  rcases member with ⟨p, listed, made⟩ | ⟨e, there, made⟩
  · split at made
    · cases made
    rename_i served
    obtain ⟨key, stays, unset, ips⟩ := PeerDiff.peerConfigBuilder_some made
    rw [key] at here
    subst here
    refine .modifies key stays unset listed rfl ?_ ips
    simpa using fun disabled => served (.inl disabled)
  · split at made
    · cases made
    · rename_i unlisted
      cases made
      refine .removes here rfl fun p listed same => unlisted ?_
      have key : p.publicKey = e.1 := same.trans here.symm
      rw [List.any_eq_true]
      exact ⟨p, listed, by simpa using key⟩

theorem Updated.apply {peers : List Peer} {k : Binary 32} {old : Option PeerInfo} {d : Device}
    (updated : Updated peers k old (d.lookup k)) {b : PeerConfigBuilder}
    (ordinary : b.Ordinary peers k old) : Updated peers k old ((b.apply d).lookup k) := by
  cases ordinary with
  | elsewhere apart =>
    have same : (b.apply d).lookup k = d.lookup k := by
      unfold PeerConfigBuilder.apply
      split
      · exact AList.lookup_erase_ne (Ne.symm apart)
      · exact AList.lookup_insert_ne (Ne.symm apart)
    rw [same]
    exact updated
  | removes here removes unlisted =>
    have gone : (b.apply d).lookup k = none := by
      rw [PeerConfigBuilder.apply, if_pos removes, here]
      exact AList.lookup_erase _ _
    rw [gone]
    cases old with
    | none => exact .same
    | some i => exact .removed unlisted
  | @modifies p here stays unset listed key enabled ips =>
    have made : (b.apply d).lookup k =
        some (b.configure ((d.lookup k).getD PeerConfigBuilder.blank)) := by
      rw [PeerConfigBuilder.apply, if_neg (by simp [stays]), here]
      exact AList.lookup_insert _
    have psk : ∀ i, (b.configure i).config.presharedKey = i.config.presharedKey := by
      intro i
      simp [PeerConfigBuilder.configure, unset]
    have allowed : ∀ i, (b.configure i).config.allowedIps = [p.allowedIp] ∨
        ((b.configure i).config.allowedIps = i.config.allowedIps ∧ old ≠ none) := by
      intro i
      rcases ips with ⟨replaces, ips⟩ | ⟨keeps, ips, there⟩
      · exact .inl (by simp [PeerConfigBuilder.configure, replaces, ips])
      · exact .inr ⟨by simp [PeerConfigBuilder.configure, keeps, ips], there⟩
    rw [made]
    generalize current : d.lookup k = now at updated ⊢
    cases updated with
    | same =>
      cases old with
      | none =>
        refine .added listed key enabled ?_ rfl ?_
        · rw [psk]
          rfl
        · rcases allowed PeerConfigBuilder.blank with ips | ⟨-, never⟩
          · exact ips
          · exact absurd rfl never
      | some i =>
        refine .changed listed key (psk i) rfl ?_
        rcases allowed i with ips | ⟨ips, -⟩
        · exact .inr ips
        · exact .inl ips
    | removed unlisted => exact absurd key (unlisted p listed)
    | @changed i i' p' listed' key' psk' handshake ips' =>
      rcases allowed i' with ips | ⟨ips, -⟩
      · exact .changed listed key ((psk i').trans psk') handshake (.inr ips)
      · exact .changed listed' key' ((psk i').trans psk') handshake (ips ▸ ips')
    | @added i' p' listed' key' enabled' psk' handshake ips' =>
      refine .added listed key enabled ((psk i').trans psk') handshake ?_
      rcases allowed i' with ips | ⟨-, never⟩
      · exact ips
      · exact absurd rfl never

/-- The ordinary update of a data peer's entry, whole or cut short. -/
theorem Config.update_lookup [Native] (cfg : Config) (now : Nat) (through : Option Nat)
    (peers : List Peer) (t : Tunnel) {k : Binary 32} (data : k ≠ cfg.serverKey) :
    Updated peers k (t.device.lookup k) ((cfg.update now through peers t).device.lookup k) := by
  have ordinary : ∀ b ∈ (t.device.diff cfg.publicKey now peers).map (fun b =>
      if b.publicKey = cfg.serverKey ∧ cfg.managementPsk.isSome then
        { b with presharedKey := cfg.managementPsk } else b),
      b.Ordinary peers k (t.device.lookup k) := by
    intro b member
    obtain ⟨b₀, listed, rfl⟩ := List.mem_map.mp member
    split
    · rename_i server
      exact .elsewhere (fun same => data (same.symm.trans server.1))
    · exact Device.diff_ordinary listed k
  have folded : ∀ (bs : List PeerConfigBuilder) (d : Device),
      (∀ b ∈ bs, b.Ordinary peers k (t.device.lookup k)) →
      Updated peers k (t.device.lookup k) (d.lookup k) →
      Updated peers k (t.device.lookup k) ((d.update bs).lookup k) := by
    intro bs
    induction bs with
    | nil => exact fun _ _ updated => updated
    | cons b rest ih =>
      intro d all updated
      exact ih (b.apply d) (fun b' later => all b' (List.mem_cons_of_mem _ later))
        (updated.apply (all b (List.mem_cons_self ..)))
  unfold Config.update
  dsimp only
  cases through with
  | none => exact folded _ _ ordinary .same
  | some n =>
    exact folded _ _ (fun b member => ordinary b (List.mem_of_mem_take member)) .same

/-- What the running fetch has read. -/
def Stage.view : Stage → Option View
  | restored => none
  | waiting => none
  | fetched v => some v
  | blocked v => some v
  | gated v => some v
  | cached => none
  | applying v _ _ => some v
  | acted v _ _ _ _ => some v
  | sending v _ _ _ _ => some v
  | noted v _ _ => some v

/-- The entries `apply` has not come to yet. -/
def Stage.todo : Stage → List Entry
  | restored => []
  | waiting => []
  | fetched v => v.listing
  | blocked v => v.listing
  | gated v => v.listing
  | cached => []
  | applying _ _ todo => todo
  | acted _ _ todo _ _ => todo
  | sending _ _ todo _ _ => todo
  | noted _ _ todo => todo

section Steps

variable [Native]

namespace Client

omit [Native] in
def view (c : Client) : Option View := c.running.bind Stage.view

/-- The state the client works with: that of the running fetch, or the one on disk. -/
def memory (c : Client) : EndpointState :=
  match c.view with
  | none => c.disk
  | some v => v.memory

/-- The effects, case by case. -/
inductive Does (cfg : Config) (c : Client) : Effect → Client → Prop where
  | started : c.running = none → c.up = true →
      Does cfg c .start { c with running := some .waiting }
  | restored : c.running = none → c.up = false →
      Does cfg c .start { c with
        tunnel := { c.tunnel with blocked := blockedAllowedIps c.disk c.cache }
        running := some .restored }
  | raised : c.running = some .restored →
      Does cfg c .raise { c with
        up := true
        tunnel := { c.tunnel with device := cfg.fresh }
        running := some .waiting }
  | fetched {f : Fetched} {memory disk : EndpointState} : c.running = some .waiting →
      memory.relationships = c.disk.relationships → memory.peerId = c.disk.peerId →
      memory.serverId = c.disk.serverId →
      memory.policy = (if f.permissive then .permissive else .strict) →
      disk = memory ∨ disk = c.disk →
      Does cfg c (.fetch f) { c with
        disk
        running := some (.fetched ⟨memory, f.peers, f.listing, f.exchanges⟩) }
  | offline : c.running = some .waiting → c.cache ≠ [] →
      Does cfg c .offline { c with running := some .cached }
  | blocked {v : View} : c.running = some (.fetched v) →
      Does cfg c .block { c with
        tunnel := c.tunnel.block (gatedBy .gate v.memory v.listing)
        running := some (.blocked v) }
  | released {v : View} : c.running = some (.blocked v) →
      Does cfg c .release { c with
        tunnel := c.tunnel.release (gatedBy .release v.memory v.listing)
        running := some (.gated v) }
  | updated {v : View} {now : Nat} : c.running = some (.gated v) →
      Does cfg c (.update now none) { c with
        tunnel := cfg.update now none v.peers c.tunnel
        running := some (.applying v c.tunnel.device v.listing) }
  | cut {v : View} {now n : Nat} : c.running = some (.gated v) →
      Does cfg c (.update now (some n)) { c with
        tunnel := cfg.update now (some n) v.peers c.tunnel
        running := none }
  | cached {now : Nat} {through : Option Nat} {cache : List Peer} : c.running = some .cached →
      cache = c.cache ∨ updatePeers c.cache c.cache = some cache →
      Does cfg c (.update now through) { c with
        tunnel := cfg.update now through c.cache c.tunnel
        cache
        running := none }
  | passed {v : View} {sampled : Device} {e : Entry} {todo : List Entry} {t : Turning}
      {memory : EndpointState} {tunnel : Tunnel} : c.running = some (.applying v sampled (e :: todo)) →
      v.Turned e t c.tunnel none memory tunnel →
      Does cfg c (.turn t) { c with
        tunnel
        running := some (.applying { v with memory } sampled todo) }
  | acted {v : View} {sampled : Device} {e : Entry} {todo : List Entry} {t : Turning}
      {memory : EndpointState} {tunnel : Tunnel} {other : Number} {action : Action} :
      c.running = some (.applying v sampled (e :: todo)) →
      v.Turned e t c.tunnel (some (other, action)) memory tunnel →
      Does cfg c (.turn t) { c with
        tunnel
        running := some (.acted { v with memory } sampled todo other action) }
  | saved {v : View} {sampled : Device} {todo : List Entry} {other : Number} {action : Action}
      {stage : Stage} : c.running = some (.acted v sampled todo other action) →
      stage = .applying v sampled todo ∨
        (∃ m, action = .send m ∧ stage = .sending v sampled todo other m) →
      Does cfg c (.save true) { c with disk := v.memory, running := some stage }
  | unsaved {v : View} {sampled : Device} {todo : List Entry} {other : Number} {action : Action} :
      c.running = some (.acted v sampled todo other action) →
      Does cfg c (.save false) { c with running := some (.applying v sampled todo) }
  | sent {v : View} {sampled : Device} {todo : List Entry} {other : Number} {m : Message}
      {now : Nat} {drawn : Except Error UInt8} :
      c.running = some (.sending v sampled todo other m) →
      Does cfg c (.send true now drawn) { c with running := some (.applying v sampled todo) }
  | failed {v : View} {sampled : Device} {todo : List Entry} {other : Number} {m : Message}
      {now : Nat} {drawn : Except Error UInt8} {stage : Stage} :
      c.running = some (.sending v sampled todo other m) →
      stage = .applying { v with memory := (v.memory.noteSendFailure other now drawn).2 } sampled
          todo ∨
        stage = .noted { v with memory := (v.memory.noteSendFailure other now drawn).2 } sampled
          todo →
      Does cfg c (.send false now drawn) { c with running := some stage }
  | noted {v : View} {sampled : Device} {todo : List Entry} {done : Bool} {disk : EndpointState} :
      c.running = some (.noted v sampled todo) → disk = v.memory ∨ disk = c.disk →
      Does cfg c (.saveNote done) { c with disk, running := some (.applying v sampled todo) }
  | finished {v : View} {sampled : Device} {answers : Answers} {cache : List Peer} :
      c.running = some (.applying v sampled []) →
      cache = c.cache ∨ updatePeers c.cache v.peers = some cache →
      Does cfg c (.finish answers) { c with
        tunnel := reconcileGate v.memory v.peers answers c.tunnel
        cache
        running := none }
  | aborted : Does cfg c .abort { c with running := none }
  | rebooted : Does cfg c .reboot { c with up := false, tunnel := ⟨∅, []⟩, running := none }
  | lowered : Does cfg c .down { c with
      up := false
      tunnel := { c.tunnel with device := ∅ }
      running := none }
  | shaken {publicKey : Binary 32} {time : Nat} {i : PeerInfo} :
      c.tunnel.device.lookup publicKey = some i →
      Does cfg c (.handshake publicKey time) { c with
        tunnel := c.tunnel.setPeer publicKey
          { i with lastHandshake := some ⟨time, i.config.presharedKey⟩ } }
  | counted {publicKey : Binary 32} {rxBytes txBytes : Nat} {i : PeerInfo} :
      c.tunnel.device.lookup publicKey = some i →
      Does cfg c (.traffic publicKey rxBytes txBytes) { c with
        tunnel := c.tunnel.setPeer publicKey { i with rxBytes, txBytes } }
  | administered {u : Upkeep} : c.running = none → u.administrative = true →
      Does cfg c (.administer u) { c with disk := u.perform c.disk }

theorem next_does {cfg : Config} {c c' : Client} {effect : Effect}
    (taken : c.next cfg effect = some c') : Does cfg c effect c' := by
  cases effect with
  | start =>
    simp only [next] at taken
    split at taken
    · cases taken
    rename_i idle
    split at taken
    · rename_i up
      cases taken
      exact .started idle up
    · rename_i lowered
      cases taken
      exact .restored idle (Bool.not_eq_true _ ▸ lowered)
  | raise =>
    simp only [next] at taken
    split at taken
    · rename_i here
      cases taken
      exact .raised here
    · cases taken
  | fetch f =>
    simp only [next] at taken
    split at taken
    · rename_i here
      cases taken
      have kept : ∀ s : EndpointState, (s.after (s.submitPendingRegistration f.reply)).relationships =
          s.relationships ∧
          (s.after (s.submitPendingRegistration f.reply)).peerId = s.peerId ∧
          (s.after (s.submitPendingRegistration f.reply)).serverId = s.serverId ∧
          (s.after (s.submitPendingRegistration f.reply)).policy = s.policy := by
        intro s
        rcases s.submitPendingRegistration_cases f.reply with same | ⟨adv, s', -, accepted, same⟩
        · rw [same]
          exact ⟨rfl, rfl, rfl, rfl⟩
        · rw [same]
          simp only [EndpointState.acceptRegistration, bind_ok, pure_ok] at accepted
          obtain ⟨_, _, rfl⟩ := accepted
          exact ⟨rfl, rfl, rfl, rfl⟩
      obtain ⟨relationships, peerId, serverId, policy⟩ := kept
        { c.disk with policy := if f.permissive then .permissive else .strict }
      exact .fetched here relationships peerId serverId policy (ite_eq_or_eq _ _ _)
    · cases taken
  | offline =>
    simp only [next] at taken
    split at taken
    · rename_i here
      split at taken
      · cases taken
      · rename_i some
        cases taken
        exact .offline here some
    · cases taken
  | block =>
    simp only [next] at taken
    split at taken
    · rename_i here
      cases taken
      exact .blocked here
    · cases taken
  | release =>
    simp only [next] at taken
    split at taken
    · rename_i here
      cases taken
      exact .released here
    · cases taken
  | update now through =>
    simp only [next] at taken
    split at taken
    · rename_i here
      cases through with
      | none =>
        cases taken
        exact .updated here
      | some n =>
        cases taken
        exact .cut here
    · rename_i here
      cases taken
      refine .cached here ?_
      split
      · cases found : updatePeers c.cache c.cache with
        | none => exact .inl rfl
        | some cache => exact .inr rfl
      · exact .inl rfl
    · cases taken
  | turn t =>
    simp only [next] at taken
    split at taken
    · rename_i v sampled e todo here
      have turned := v.turned sampled e t c.tunnel
      split at taken
      · rename_i memory tunnel done
        cases taken
        rw [done] at turned
        exact .passed here turned
      · rename_i other action memory tunnel done
        cases taken
        rw [done] at turned
        exact .acted here turned
    · cases taken
  | save done =>
    simp only [next] at taken
    split at taken
    · rename_i v sampled todo other action here
      cases done with
      | false =>
        cases taken
        exact .unsaved here
      | true =>
        cases taken
        refine .saved here ?_
        cases action with
        | send m => exact .inr ⟨m, rfl, rfl⟩
        | complete => exact .inl rfl
        | none => exact .inl rfl
    · cases taken
  | send done now drawn =>
    simp only [next] at taken
    split at taken
    · rename_i v sampled todo other m here
      cases done with
      | true =>
        cases taken
        exact .sent here
      | false =>
        simp only [Bool.false_eq_true, if_false] at taken
        split at taken
        · rename_i memory noted
          cases taken
          refine .failed here (.inl ?_)
          rw [noted]
        · rename_i memory noted
          cases taken
          refine .failed here (.inr ?_)
          rw [noted]
    · cases taken
  | saveNote done =>
    simp only [next] at taken
    split at taken
    · rename_i here
      cases taken
      refine .noted here ?_
      cases done with
      | true => exact .inl rfl
      | false => exact .inr rfl
    · cases taken
  | finish answers =>
    simp only [next] at taken
    split at taken
    · rename_i v sampled here
      cases taken
      refine .finished here ?_
      cases found : updatePeers c.cache v.peers with
      | none => exact .inl rfl
      | some cache => exact .inr rfl
    · cases taken
  | abort =>
    cases taken
    exact .aborted
  | reboot =>
    cases taken
    exact .rebooted
  | down =>
    cases taken
    exact .lowered
  | handshake publicKey time =>
    simp only [next] at taken
    split at taken
    · cases taken
    · rename_i there
      cases taken
      exact .shaken there
  | traffic publicKey rxBytes txBytes =>
    simp only [next] at taken
    split at taken
    · cases taken
    · rename_i there
      cases taken
      exact .counted there
  | administer u =>
    simp only [next] at taken
    split at taken
    · rename_i allowed
      cases taken
      exact .administered (Option.isNone_iff_eq_none.mp allowed.1) allowed.2
    · cases taken

end Client

end Steps

end Innernet
