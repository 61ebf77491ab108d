import Innernet.Custody
import Innernet.Gating

/-! The kernel's preshared keys against the endpoint's own record of them. -/
namespace Innernet

open Fallible Tables Runs

namespace Device

/-- The kernel has the peer under this preshared key. -/
def Holds (d : Device) (k psk : Binary 32) : Prop :=
  ∃ i ∈ d.lookup k, i.config.presharedKey = some psk

/-- If the kernel has the peer at all, then under this preshared key. -/
def Suits (d : Device) (k psk : Binary 32) : Prop :=
  ∀ i ∈ d.lookup k, i.config.presharedKey = some psk

/-- No handshake of the peer's entry was made under another key. -/
def Shaken (d : Device) (k psk : Binary 32) : Prop :=
  ∀ i ∈ d.lookup k, ∀ h ∈ i.lastHandshake, h.presharedKey = some psk

instance (d : Device) (k psk : Binary 32) : Decidable (d.Holds k psk) :=
  inferInstanceAs (Decidable (∃ i ∈ d.lookup k, _))

instance (d : Device) (k psk : Binary 32) : Decidable (d.Suits k psk) :=
  inferInstanceAs (Decidable (∀ i ∈ d.lookup k, _))

end Device

/-- The relationship counts on its kernel entry: it has installed a candidate, or nothing is
pending beside its confirmed record. -/
def Relationship.Owed (r : Relationship) : Prop :=
  (∃ p ∈ r.pending, p.installed = true) ∨ (r.pending = none ∧ r.confirmed.isSome = true)

instance (r : Relationship) : Decidable r.Owed :=
  inferInstanceAs (Decidable ((∃ p ∈ r.pending, _) ∨ _))

/-- Without its pending exchange the relationship still suits its kernel entry. -/
def Relationship.Expendable (r : Relationship) (d : Device) (k : Binary 32) : Prop :=
  ∀ c ∈ r.confirmed, d.Suits k c.psk

instance (r : Relationship) (d : Device) (k : Binary 32) : Decidable (r.Expendable d k) :=
  inferInstanceAs (Decidable (∀ c ∈ r.confirmed, _))

/-- The record aborts the exchange, or the local decision has. -/
def Pending.Aborts (p : Pending) (remote : Option Exchange) : Prop :=
  p.decision.phase = .aborted ∨ ∃ e ∈ remote, p.recordedIn e ∧
    (e.decision.phase = .aborted ∨ ∃ m ∈ e.messages, m.messageType = Kind.abort.code)

instance (p : Pending) (remote : Option Exchange) : Decidable (p.Aborts remote) :=
  inferInstanceAs (Decidable (_ ∨ ∃ e ∈ remote, _))

/-- The record shows the exchange complete. -/
def Pending.Completes (p : Pending) (remote : Option Exchange) : Prop :=
  ∃ e ∈ remote, p.recordedIn e ∧ e.decision.phase = .complete

instance (p : Pending) (remote : Option Exchange) : Decidable (p.Completes remote) :=
  inferInstanceAs (Decidable (∃ e ∈ remote, _))

/-- The lower peer initiates, and only an installed candidate is confirmed. -/
structure Proper (own other : Number) (r : Relationship) : Prop where
  roles : ∀ p, r.pending = some p → p.transcript.initiatorId = min own other
  certified : ∀ p, r.pending = some p → p.decision.Past (own = p.transcript.initiatorId) →
    p.installed = true

/-- If the kernel has an entry for the relationship, it is the one the relationship accounts for:
that of its installed candidate, with no handshake but under it, or that of its confirmed key. -/
structure Keyed (d : Device) (k : Binary 32) (r : Relationship) : Prop where
  installed : ∀ p, r.pending = some p → p.installed = true →
    d.Suits k p.candidate.psk ∧ d.Shaken k p.candidate.psk
  settled : ∀ c, r.confirmed = some c → r.pending = none → d.Suits k c.psk

namespace Keyed

variable {d d' : Device} {k : Binary 32} {r r' : Relationship}

theorem unowed (unowed : ¬ r.Owed) : Keyed d k r where
  installed p pending done := absurd (.inl ⟨p, pending, done⟩) unowed
  settled c confirmed idle := absurd (.inr ⟨idle, by rw [confirmed]; rfl⟩) unowed

theorem absent (gone : d.lookup k = none) : Keyed d k r where
  installed p _ _ := by
    constructor
    · intro i there
      rw [gone] at there
      cases there
    · intro i there
      rw [gone] at there
      cases there
  settled c _ _ i there := by
    rw [gone] at there
    cases there

/-- It depends on one entry of the kernel, -/
theorem frame (keyed : Keyed d k r) (same : d'.lookup k = d.lookup k) : Keyed d' k r where
  installed p pending done := by
    unfold Device.Suits Device.Shaken
    rw [same]
    exact keyed.installed p pending done
  settled c confirmed idle := by
    unfold Device.Suits
    rw [same]
    exact keyed.settled c confirmed idle

/-- and on what the relationship has installed and confirmed. -/
theorem congr (keyed : Keyed d k r) (confirmed : r'.confirmed = r.confirmed)
    (pending : ∀ p', r'.pending = some p' → ∃ p, r.pending = some p ∧ p'.installed = p.installed ∧
      p'.candidate = p.candidate)
    (idle : r'.pending = none → r.pending = none) : Keyed d k r' where
  installed p' there done := by
    obtain ⟨p, before, installed, candidate⟩ := pending p' there
    rw [candidate]
    exact keyed.installed p before (installed ▸ done)
  settled c there gone := keyed.settled c (confirmed ▸ there) (idle gone)

/-- The pending exchange may go when the entry suits what is left. -/
theorem dropped (expendable : r.Expendable d k) (confirmed : r'.confirmed = r.confirmed)
    (gone : r'.pending = none) : Keyed d k r' where
  installed p pending := by
    rw [gone] at pending
    cases pending
  settled c there _ := expendable c (confirmed ▸ there)

/-- An exchange that has installed nothing accounts for no entry. -/
theorem opening {p : Pending} (pending : r.pending = some p) (uninstalled : p.installed = false) :
    Keyed d k r := by
  refine .unowed ?_
  rw [Relationship.Owed, pending]
  simp [uninstalled]

/-- Nor does it see more of an entry than its key, and a handshake is made under that key. -/
theorem entry (keyed : Keyed d k r) {i i' : PeerInfo} (before : d.lookup k = some i)
    (after : d'.lookup k = some i') (psk : i'.config.presharedKey = i.config.presharedKey)
    (handshake : i'.lastHandshake = i.lastHandshake ∨
      ∃ time, i'.lastHandshake = some ⟨time, i.config.presharedKey⟩) : Keyed d' k r := by
  have suits : ∀ {key}, d.Suits k key → d'.Suits k key := by
    intro key suits j there
    rw [after] at there
    cases there
    exact psk.trans (suits i before)
  refine ⟨fun p pending done => ?_, fun c confirmed idle => suits (keyed.settled c confirmed idle)⟩
  obtain ⟨candidate, under⟩ := keyed.installed p pending done
  refine ⟨suits candidate, fun j there h last => ?_⟩
  rw [after] at there
  cases there
  rcases handshake with same | ⟨time, made⟩
  · exact under i before h (same ▸ last)
  · rw [made] at last
    cases last
    exact candidate i before

/-- The ordinary update keeps the keys of the entries it finds. -/
theorem updated {peers : List Peer} (keyed : Keyed d k r)
    (updated : Updated peers k (d.lookup k) (d'.lookup k))
    (careful : r.Owed → (d.lookup k).isSome = true ∨ ∀ p ∈ peers, p.publicKey ≠ k) :
    Keyed d' k r := by
  by_cases owed : r.Owed
  swap
  · exact unowed owed
  generalize before : d.lookup k = old at updated careful
  generalize after : d'.lookup k = new at updated
  cases updated with
  | same => exact keyed.frame (after.trans before.symm)
  | removed => exact absent after
  | changed _ _ psk handshake => exact keyed.entry before after psk (.inl handshake)
  | added listed key =>
    rcases careful owed with there | unlisted
    · cases there
    · exact absurd key (unlisted _ listed)

/-- What is done to one entry, with its key left alone. -/
theorem set (keyed : Keyed d k r) {publicKey : Binary 32} {i i' : PeerInfo}
    (before : d.lookup publicKey = some i) (psk : i'.config.presharedKey = i.config.presharedKey)
    (handshake : i'.lastHandshake = i.lastHandshake ∨
      ∃ time, i'.lastHandshake = some ⟨time, i.config.presharedKey⟩) :
    Keyed (d.insert publicKey i') k r := by
  by_cases same : k = publicKey
  · subst same
    exact keyed.entry before (AList.lookup_insert d) psk handshake
  · exact keyed.frame (AList.lookup_insert_ne same)

end Keyed

namespace Proper

variable {own other : Number} {r r' : Relationship}

/-- It reads of the pending exchange its role, its decision and whether it is installed. -/
theorem congr (proper : Proper own other r)
    (pending : ∀ p', r'.pending = some p' → ∃ p, r.pending = some p ∧
      p'.transcript = p.transcript ∧ (p'.decision.Past (own = p.transcript.initiatorId) →
        p'.installed = true ∨ (p.decision.Past (own = p.transcript.initiatorId) ∧
          p'.installed = p.installed))) : Proper own other r' where
  roles p' there := by
    obtain ⟨p, before, transcript, -⟩ := pending p' there
    rw [transcript]
    exact proper.roles p before
  certified p' there past := by
    obtain ⟨p, before, transcript, decision⟩ := pending p' there
    rw [transcript] at past
    rcases decision past with installed | ⟨past, installed⟩
    · exact installed
    · exact installed.trans (proper.certified p before past)

theorem idle (gone : r.pending = none) : Proper own other r where
  roles p pending := by
    rw [gone] at pending
    cases pending
  certified p pending := by
    rw [gone] at pending
    cases pending

end Proper

/-- One's own message brings a decision past one's own side only when it confirms. -/
theorem Decision.past_own {d d' : Decision} {kind : Kind} {side : Bool}
    (advanced : d.advance kind side = .ok d') (other : kind ≠ .confirmed) (past : d'.Past side) :
    d.Past side := by
  rcases advance_cases advanced with ⟨-, -, phase, rfl⟩ | ⟨-, -, phase, rfl⟩ | ⟨-, -, -, rfl⟩ |
    ⟨-, phase, -, rfl⟩ | ⟨rfl, -⟩
  · rcases past with finished | ⟨-, flag⟩
    · cases finished
    · exact .inr ⟨by simp [phase], flag⟩
  · rcases past with finished | ⟨-, flag⟩
    · cases finished
    · exact .inr ⟨by simp [phase], flag⟩
  · rcases past with finished | ⟨running, -⟩
    · cases finished
    · exact absurd rfl running
  · exact past
  · exact absurd rfl other

theorem Decision.unpast {d : Decision} (unfinished : d.phase ≠ .complete)
    (none : d.confirmed = ⟨false, false⟩) (side : Bool) : ¬ d.Past side := by
  rintro (finished | ⟨-, flag⟩)
  · exact unfinished finished
  · rw [none] at flag
    cases side <;> cases flag

section Merge

variable [Native] {p : Pending} {other : Number} {remote : Option Exchange}

/-- A merged exchange is aborted only by its record, or was before. -/
theorem Pending.merged_aborted (aborted : (p.mergeRemote other remote).2.phase = .aborted) :
    p.Aborts remote := by
  revert aborted
  refine Pending.merged (P := fun d => d.phase = .aborted → p.Aborts remote) .inl ?_ ?_
  · exact fun e shown recorded _ _ aborted => .inr ⟨e, shown, recorded, .inl aborted⟩
  · intro e shown recorded m member _ kind d d' typed _ _ holds advanced aborted
    rcases Decision.advance_cases advanced with ⟨-, -, -, rfl⟩ | ⟨-, -, -, rfl⟩ | ⟨rfl, -⟩ |
      ⟨-, phase, -, rfl⟩ | ⟨-, phase, -, rfl⟩
    · cases aborted
    · cases aborted
    · exact .inr ⟨e, shown, recorded, .inr ⟨m, member, typed⟩⟩
    · exact holds aborted
    · dsimp only at aborted
      split at aborted
      · cases aborted
      · cases aborted

/-- A merged exchange is past its own side only if it is complete in the record, or was before. -/
theorem Pending.merged_past {own : Number} (apart : other ≠ own)
    (role : p.transcript.initiatorId = min own other)
    (past : (p.mergeRemote other remote).2.Past (own = p.transcript.initiatorId)) :
    p.decision.Past (own = p.transcript.initiatorId) ∨ p.Completes remote := by
  have sides : decide (other = p.transcript.initiatorId) ≠
      decide (own = p.transcript.initiatorId) := by
    rw [role]
    rcases lt_or_ge own other with below | above
    · simp [min_eq_left below.le, apart]
    · simp [min_eq_right above, Ne.symm apart]
  revert past
  refine Pending.merged (P := fun d => d.Past (own = p.transcript.initiatorId) →
    p.decision.Past (own = p.transcript.initiatorId) ∨ p.Completes remote) .inl ?_ ?_
  · intro e shown recorded _ _ past
    rcases past with complete | ⟨unaborted, -⟩
    · exact .inr ⟨e, shown, recorded, complete⟩
    · rename_i ended _
      simp only [Decision.terminal, decide_eq_true_eq] at ended
      exact .inr ⟨e, shown, recorded, ended.resolve_right unaborted⟩
  · exact fun e _ _ m _ _ kind d d' _ _ _ holds advanced past =>
      holds (Decision.past_advance advanced sides past)

end Merge

section Turns

variable [Native] {s : EndpointState} {other : Number} {r r' : Relationship}
  {remote : Option Exchange} {now : Nat} {draws : Draws} {result : Except Error Action}

open EndpointState

/-- The exchange that a message is added to keeps its role and its candidate, and gets past its own
side only by a confirmation. -/
theorem Proper.emitted {p q : Pending} {kind : Kind} {initiator : Bool} {m : Message}
    (proper : Proper s.peerId other { r with pending := some p })
    (emitted : s.emit p kind initiator draws = .ok (q, m))
    (own : initiator = s.initiates p) (careful : kind = .confirmed → p.installed = true) :
    Proper s.peerId other { r with pending := some q } := by
  obtain ⟨-, d, advanced, rfl⟩ := emit_ok emitted
  refine proper.congr fun p' there => ?_
  cases there
  refine ⟨p, rfl, rfl, fun past => ?_⟩
  by_cases confirming : kind = .confirmed
  · exact .inl (careful confirming)
  · rw [own] at advanced
    exact .inr ⟨Decision.past_own advanced confirming past, rfl⟩

theorem EndpointState.Turn.proper {σ : Type} {installer : Installer σ} {world world' : σ}
    (turn : Turn s other r remote now installer draws world result r' world')
    (apart : other ≠ s.peerId) (proper : Proper s.peerId other r)
    (whole : ∀ p, r.pending = some p → p.Completes remote → p.installed = true) :
    Proper s.peerId other r' := by
  have merged : ∀ p d, r.pending = some p → (p.mergeRemote other remote).2 = d →
      Proper s.peerId other { r with pending := some { p with decision := d } } := by
    rintro p d pending rfl
    refine proper.congr fun p' there => ?_
    cases there
    refine ⟨p, pending, rfl, fun past => ?_⟩
    rcases Pending.merged_past apart (proper.roles p pending) past with before | complete
    · exact .inr ⟨before, rfl⟩
    · exact .inl (whole p pending complete)
  cases turn with
  | rested => exact proper
  | failed => exact proper
  | spent idle => exact .idle idle
  | proposed _ initiator _ opened =>
    obtain ⟨t, _, rfl, -, -, -, role, -⟩ := openProposal_ok opened
    refine ⟨fun p there => ?_, fun p there past => ?_⟩
    · cases there
      exact role.trans (min_eq_left initiator.le).symm
    · cases there
      exact absurd past (Decision.unpast (by simp [Pending.opened, Decision.default]) rfl _)
  | answered _ responder _ _ _ addressed opened =>
    obtain ⟨_, _, d, rfl, -, -, -, -, -, advanced, -⟩ := openAnswer_ok opened
    refine ⟨fun p there => ?_, fun p there past => ?_⟩
    · cases there
      exact addressed.2.1.trans (min_eq_right (not_lt.mp responder)).symm
    · cases there
      rcases Decision.advance_cases advanced with ⟨-, -, -, rfl⟩ | ⟨k, -⟩ | ⟨k, -⟩ | ⟨k, -⟩ | ⟨k, -⟩
      · exact absurd past (Decision.unpast (by simp [Pending.opened]) rfl _)
      all_goals cases k
  | @interrupted p e d pending merges => exact merged p d pending (by rw [merges])
  | @resent p d m pending merges => exact merged p d pending (by rw [merges])
  | @acted p d _ _ _ pending merges _ act =>
    have start := merged p d pending (by rw [merges])
    have side : ∀ q : Pending, q.transcript = p.transcript → decide (s.peerId < other) = true →
        s.initiates q = true := by
      intro q transcript initiator
      rw [initiates, transcript, proper.roles p pending, min_eq_left (of_decide_eq_true initiator).le]
      exact decide_eq_true rfl
    cases act with
    | abandoned => exact .idle rfl
    | held => exact start
    | refused => exact start
    | committed _ initiator emitted =>
      exact start.emitted emitted (side _ rfl (decide_eq_true initiator)).symm (fun k => by cases k)
    | installed _ _ _ _ emitted =>
      refine Proper.emitted ?_ emitted rfl (fun k => by cases k)
      exact start.congr fun p' there => by cases there; exact ⟨_, rfl, rfl, fun _ => .inl rfl⟩
    | noted =>
      exact start.congr fun p' there => by cases there; exact ⟨_, rfl, rfl, fun _ => .inl rfl⟩
    | confirmed _ installed _ _ emitted =>
      refine Proper.emitted ?_ emitted rfl fun _ => installed
      exact start.congr fun p' there => by cases there; exact ⟨_, rfl, rfl, fun _ => .inl installed⟩
    | unsigned _ installed =>
      exact start.congr fun p' there => by cases there; exact ⟨_, rfl, rfl, fun _ => .inl installed⟩
    | completed => exact .idle rfl

section Kernel

variable {peers : List Peer} {answers : Answers} {t t' : Tunnel}

/-- A turn touches no kernel entry but its own peer's. -/
theorem EndpointState.Turn.elsewhere
    (turn : Turn s other r remote now (realInstaller peers answers) draws t result r' t')
    {k : Binary 32} (apart : k ≠ r.remote.wgPublicKey) :
    t'.device.lookup k = t.device.lookup k := by
  rcases turn.world with rfl | ⟨p, answer, -, asked⟩ | ⟨answer, asked⟩
  · rfl
  · have differs : ∀ {p}, findPeer peers r.remote = some p → k ≠ p.publicKey :=
      fun found => (findPeer_some found).2 ▸ apart
    cases realInstaller_installs asked with
    | refused => rfl
    | gated => rfl
    | removed found => exact AList.lookup_erase_ne (differs found)
    | recreated found =>
      exact (AList.lookup_insert_ne (differs found)).trans (AList.lookup_erase_ne (differs found))
  · rcases handshakeFresh_cases asked with ⟨rfl, -⟩ | ⟨p, i, -, -, -, -, rfl⟩
    · rfl
    · rfl

omit [Native] in
theorem asked_device {b : Bundle} (asked : (realInstaller peers answers).Asked b t t') :
    t'.device = t.device := by
  cases asked with
  | unasked => rfl
  | waiting answered =>
    rcases handshakeFresh_cases answered with ⟨rfl, -⟩ | ⟨p, i, -, -, -, -, rfl⟩
    · rfl
    · rfl

/-- And that one only to install a candidate. -/
theorem EndpointState.Turn.rekeys
    (turn : Turn s other r remote now (realInstaller peers answers) draws t result r' t') :
    t'.device = t.device ∨ ∃ p, r.pending = some p ∧ p.installed = false := by
  cases turn with
  | acted pending _ _ act =>
    cases act with
    | held _ _ asked => exact .inl (asked_device asked)
    | refused _ uninstalled => exact .inr ⟨_, pending, uninstalled⟩
    | installed _ uninstalled => exact .inr ⟨_, pending, uninstalled⟩
    | noted _ uninstalled => exact .inr ⟨_, pending, uninstalled⟩
    | confirmed _ _ _ asked => exact .inl (asked_device (.waiting asked))
    | unsigned _ _ asked => exact .inl (asked_device (.waiting asked))
    | _ => exact .inl rfl
  | _ => exact .inl rfl

omit [Native] in
/-- The entry an installation leaves is the candidate's, and no handshake is on it. -/
theorem Installs.keyed {p p' : Pending}
    (installs : Installs peers r.remote p.candidate t (.ok ()) t')
    (candidate : p'.candidate = p.candidate) :
    Keyed t'.device r.remote.wgPublicKey { r with pending := some p' } where
  installed q pending _ := by
    cases pending
    cases installs with
    | @recreated peer i found psk _ unshaken =>
      have entry : (t.device.erase peer.publicKey |>.insert peer.publicKey i).lookup
          r.remote.wgPublicKey = some i := by
        rw [← (findPeer_some found).2]
        exact AList.lookup_insert _
      constructor
      · intro j there
        cases entry.symm.trans there
        exact candidate ▸ psk
      · intro j there h last
        cases entry.symm.trans there
        rw [unshaken] at last
        cases last
  settled _ _ idle := nomatch idle

/-- A turn keeps its relationship keyed. -/
theorem EndpointState.Turn.keyed
    (turn : Turn s other r remote now (realInstaller peers answers) draws t result r' t')
    (apart : other ≠ s.peerId) (proper : Proper s.peerId other r)
    (keyed : Keyed t.device r.remote.wgPublicKey r)
    (spares : ∀ p, r.pending = some p → p.Aborts remote →
      r.Expendable t.device r.remote.wgPublicKey)
    (whole : ∀ p, r.pending = some p → p.Completes remote → p.installed = true) :
    Keyed t'.device r.remote.wgPublicKey r' := by
  cases turn with
  | rested => exact keyed
  | failed => exact keyed
  | spent => exact keyed.congr rfl (fun p there => ⟨p, there, rfl, rfl⟩) id
  | proposed _ _ _ opened =>
    obtain ⟨_, _, rfl, -⟩ := openProposal_ok opened
    exact .opening rfl rfl
  | answered _ _ _ _ _ _ opened =>
    obtain ⟨_, _, _, rfl, -⟩ := openAnswer_ok opened
    exact .opening rfl rfl
  | @interrupted p e d pending =>
    refine keyed.congr rfl (fun p' there => ?_) (fun idle => nomatch idle)
    cases there
    exact ⟨p, pending, rfl, rfl⟩
  | @resent p d m pending =>
    refine keyed.congr rfl (fun p' there => ?_) (fun idle => nomatch idle)
    cases there
    exact ⟨p, pending, rfl, rfl⟩
  | @acted p d _ _ _ pending merged _ act =>
    have decided : (p.mergeRemote other remote).2 = d := by rw [merged]
    -- an exchange that keeps its candidate and what it has installed
    have still : ∀ q : Pending, q.candidate = p.candidate → q.installed = p.installed →
        Keyed t.device r.remote.wgPublicKey { r with pending := some q } := by
      intro q candidate installed
      refine keyed.congr rfl (fun p' there => ?_) (fun idle => nomatch idle)
      cases there
      exact ⟨p, pending, installed, candidate⟩
    cases act with
    | abandoned phase =>
      exact .dropped (spares p pending (Pending.merged_aborted (decided ▸ phase))) rfl rfl
    | held _ _ asked =>
      rw [asked_device asked]
      exact still _ rfl rfl
    | refused _ uninstalled => exact .opening rfl uninstalled
    | committed _ _ emitted =>
      obtain ⟨-, _, -, rfl⟩ := emit_ok emitted
      exact still _ rfl rfl
    | installed _ _ _ asked emitted =>
      obtain ⟨-, _, -, rfl⟩ := emit_ok emitted
      exact (realInstaller_installs asked).keyed rfl
    | noted _ _ asked => exact (realInstaller_installs asked).keyed rfl
    | confirmed _ _ _ asked emitted =>
      obtain ⟨-, _, -, rfl⟩ := emit_ok emitted
      rw [asked_device (.waiting asked)]
      exact still _ rfl rfl
    | unsigned _ _ asked =>
      rw [asked_device (.waiting asked)]
      exact still _ rfl rfl
    | completed phase =>
      refine ⟨fun _ there _ => (nomatch there), fun c confirmed _ => ?_⟩
      cases confirmed
      have done : p.installed = true := by
        rcases Pending.merged_past apart (proper.roles p pending) (.inl (decided ▸ phase)) with
          past | complete
        · exact proper.certified p pending past
        · exact whole p pending complete
      exact (keyed.installed p pending done).1

/-- A `Confirmed` message is sent again, or the peer's entry shows a handshake under the candidate
of its exchange. -/
theorem EndpointState.Turn.vouched
    (turn : Turn s other r remote now (realInstaller peers answers) draws t result r' t')
    (keyed : Keyed t.device r.remote.wgPublicKey r) {m : Message} (sent : result = .ok (.send m))
    (type : m.messageType = Kind.confirmed.code) :
    ∃ p, r.pending = some p ∧ (m ∈ p.outbox ∨ ∃ i h,
      t.device.lookup r.remote.wgPublicKey = some i ∧ i.lastHandshake = some h ∧
      i.config.presharedKey = some p.candidate.psk ∧ h.presharedKey = some p.candidate.psk) := by
  have unlike : ∀ {p q : Pending} {kind : Kind} {initiator : Bool},
      s.emit p kind initiator draws = .ok (q, m) → kind = .confirmed :=
    fun emitted => Kind.code_injective ((emit_type emitted).1.symm.trans type)
  cases turn with
  | proposed _ _ _ opened =>
    cases sent
    obtain ⟨_, _, -, signed, -⟩ := openProposal_ok opened
    cases Kind.code_injective ((Message.signed_made signed).messageType.symm.trans type)
  | answered _ _ _ _ _ _ opened =>
    cases sent
    obtain ⟨_, _, _, -, -, -, -, -, -, -, signed, -⟩ := openAnswer_ok opened
    cases Kind.code_injective ((Message.signed_made signed).messageType.symm.trans type)
  | @resent p d _ pending _ _ last =>
    cases sent
    exact ⟨p, pending, .inl (List.mem_of_getLast? last)⟩
  | @acted p d _ _ _ pending _ _ act =>
    cases act with
    | held _ quiet =>
      rcases quiet with silent | ⟨e, failed⟩
      · cases silent.symm.trans sent
      · cases failed.symm.trans sent
    | committed _ _ emitted =>
      cases sent
      cases unlike emitted
    | installed _ _ _ _ emitted =>
      cases sent
      cases unlike emitted
    | confirmed _ installed _ asked _ =>
      refine ⟨p, pending, .inr ?_⟩
      rcases handshakeFresh_cases asked with ⟨-, never⟩ | ⟨peer, i, found, there, shaken, -, -⟩
      · exact absurd rfl never
      · obtain ⟨h, last⟩ := Option.isSome_iff_exists.mp shaken
        rw [(findPeer_some found).2] at there
        obtain ⟨suits, under⟩ := keyed.installed p pending installed
        exact ⟨i, h, there, last, suits i there, under i there h last⟩
    | abandoned => cases sent
    | refused => cases sent
    | noted => cases sent
    | unsigned => cases sent
    | completed => cases sent
  | rested => cases sent
  | failed => cases sent
  | spent => cases sent
  | interrupted => cases sent

end Kernel

end Turns

/-- What is known of a relationship: its peer, its key, its exchange, and its kernel entry. -/
structure Accounted (reg : Registry) (d : Device) (own server other : Number) (r : Relationship) :
    Prop where
  apart : other ≠ own
  data : other ≠ server
  key : r.remote.wgPublicKey = reg.keyOf other.val
  proper : Proper own other r
  keyed : Keyed d (reg.keyOf other.val) r

/-- The kernel suits every relationship of the state. -/
def Registry.Accounts (reg : Registry) (d : Device) (s : EndpointState) : Prop :=
  ∀ other r, s.relationship other = some r → Accounted reg d s.peerId s.serverId other r

/-- The update leaves the entry of the relationship, or does not make one. -/
def Relationship.Left (r : Relationship) (d : Device) (peers : List Peer) : Prop :=
  r.Owed → (d.lookup r.remote.wgPublicKey).isSome = true ∨
    ∀ p ∈ peers, p.publicKey ≠ r.remote.wgPublicKey

/-- The update finds the entry of the relationship, and its peer is listed. -/
def Relationship.Met (r : Relationship) (d : Device) (peers : List Peer) : Prop :=
  r.Owed → (d.lookup r.remote.wgPublicKey).isSome = true ∧
    ∃ p ∈ peers, p.publicKey = r.remote.wgPublicKey

instance (r : Relationship) (d : Device) (peers : List Peer) : Decidable (r.Left d peers) :=
  inferInstanceAs (Decidable (_ → _))

instance (r : Relationship) (d : Device) (peers : List Peer) : Decidable (r.Met d peers) :=
  inferInstanceAs (Decidable (_ → _))

/-- The entry's turn ends no exchange too early: none is given up while the kernel is still under
its candidate, and none is complete that was not installed. -/
def Entry.Spares (e : Entry) (v : View) (d : Device) : Prop :=
  ∀ other ∈ e.dataPeer v.memory, ∀ adv ∈ e.pq, ∀ r ∈ v.memory.relationship other, ∀ p ∈ r.pending,
    (adv.lifecycle = .retired ∨ adv.bundle.bundleId ≠ r.remote.bundleId ∨
        p.Aborts (exchangeFor v.exchanges v.memory.peerId other) →
      r.Expendable d r.remote.wgPublicKey) ∧
    (p.Completes (exchangeFor v.exchanges v.memory.peerId other) → p.installed = true)

instance (e : Entry) (v : View) (d : Device) : Decidable (e.Spares v d) :=
  inferInstanceAs (Decidable (∀ other ∈ e.dataPeer v.memory, ∀ adv ∈ e.pq,
    ∀ r ∈ v.memory.relationship other, ∀ p ∈ r.pending, _))

namespace Client

/-- The effect neither makes a kernel entry that a relationship counts on, nor gives one up. -/
def Careful (c : Client) : Option Stage → Effect → Prop
  | some (.gated v), .update _ none =>
    ∀ row ∈ c.disk.relationships.entries, row.2.Met c.tunnel.device v.peers
  | some (.gated v), .update _ (some _) =>
    ∀ row ∈ c.disk.relationships.entries, row.2.Left c.tunnel.device v.peers
  | some .cached, .update _ _ =>
    ∀ row ∈ c.disk.relationships.entries, row.2.Left c.tunnel.device c.cache
  | some (.applying v _ (e :: _)), .turn _ => e.Spares v c.tunnel.device
  | _, .administer .disable => ∀ row ∈ c.disk.relationships.entries, row.2.pending.isSome = true →
      row.2.Expendable c.tunnel.device row.2.remote.wgPublicKey
  | _, _ => True

instance (c : Client) (st : Option Stage) (effect : Effect) : Decidable (c.Careful st effect) := by
  unfold Careful
  split <;> infer_instance

end Client

namespace Registry

variable {reg : Registry} {d d' : Device} {s : EndpointState}

theorem key_injective {other o : Number} (same : reg.keyOf other.val = reg.keyOf o.val) : other = o :=
  Number.ext (by rw [← reg.keyed _ other.bounded, same, reg.keyed _ o.bounded])

/-- Only the kernel has changed. -/
theorem Accounts.map (accounts : reg.Accounts d s)
    (keyed : ∀ other r, s.relationship other = some r →
      Accounted reg d s.peerId s.serverId other r → Keyed d' (reg.keyOf other.val) r) :
    reg.Accounts d' s := by
  intro other r known
  have row := accounts other r known
  exact ⟨row.apart, row.data, row.key, row.proper, keyed other r known row⟩

/-- The same relationships, in another state. -/
theorem Accounts.rows {s' : EndpointState} (accounts : reg.Accounts d s)
    (rows : s'.relationships = s.relationships) (peerId : s'.peerId = s.peerId)
    (serverId : s'.serverId = s.serverId) : reg.Accounts d s' := by
  intro other r known
  rw [peerId, serverId]
  refine accounts other r ?_
  rw [EndpointState.relationship, ← rows]
  exact known

/-- A kernel with no peer but the server suits everything. -/
theorem Accounts.cleared (accounts : reg.Accounts d s)
    (gone : ∀ k, k ≠ reg.keyOf s.serverId.val → d'.lookup k = none) : reg.Accounts d' s :=
  accounts.map fun _ _ _ row => .absent (gone _ fun same => row.data (key_injective same))

/-- The backoff is not accounted for. -/
theorem Accounts.noted (accounts : reg.Accounts d s) (other : Number) (now : Nat)
    (drawn : Except Error UInt8) : reg.Accounts d (s.noteSendFailure other now drawn).2 := by
  obtain ⟨peerId, serverId⟩ : (s.noteSendFailure other now drawn).2.peerId = s.peerId ∧
      (s.noteSendFailure other now drawn).2.serverId = s.serverId := by
    unfold EndpointState.noteSendFailure
    split
    · exact ⟨rfl, rfl⟩
    split
    · exact ⟨rfl, rfl⟩
    dsimp only
    split
    · exact ⟨rfl, rfl⟩
    · exact ⟨rfl, rfl⟩
  intro o r there
  rw [peerId, serverId]
  rcases EndpointState.noteSendFailure_kept s other now drawn o with
    same | ⟨-, r₀, p, _, _, known, pending, changed⟩
  · exact accounts o r (same ▸ there)
  · rw [changed] at there
    cases there
    have row := accounts o r₀ known
    refine ⟨row.apart, row.data, row.key, row.proper.congr fun p' there => ?_,
      row.keyed.congr rfl (fun p' there => ?_) (fun idle => nomatch idle)⟩
    · cases there
      exact ⟨p, pending, rfl, fun past => .inr ⟨past, rfl⟩⟩
    · cases there
      exact ⟨p, pending, rfl, rfl⟩

end Registry

theorem Entry.dataPeer_apart {e : Entry} {s : EndpointState} {other : Number}
    (peer : e.dataPeer s = some other) : other ≠ s.peerId ∧ other ≠ s.serverId := by
  unfold dataPeer at peer
  split at peer
  · cases peer
  split at peer
  · cases peer
  split at peer
  · cases peer
  · rename_i apart
    cases peer
    exact ⟨fun same => apart (.inr same), fun same => apart (.inl same)⟩

/-- What is still pending after the observation was pending before it. -/
theorem Observes.before {s : EndpointState} {other : Number} {adv : AdvertisedBundle}
    {r : Relationship} (observes : Observes s other adv r) {p : Pending}
    (pending : r.pending = some p) : ∃ r₀, s.relationship other = some r₀ ∧ r₀.pending = some p ∧
      r.confirmed = r₀.confirmed := by
  have same := observes.pending.resolve_left (by rw [pending]; exact Option.some_ne_none p)
  rw [EndpointState.pendingWith, pending] at same
  cases there : s.relationship other with
  | none =>
    rw [there] at same
    cases same
  | some r₀ =>
    rw [there] at same
    exact ⟨r₀, rfl, same.symm, by rw [observes.confirmed, there]; rfl⟩

namespace Client

/-- What the running fetch works with, beside what is on disk. -/
structure Fitted (reg : Registry) (d : Device) (disk : EndpointState) (v : View) (todo : List Entry) :
    Prop where
  accounts : reg.Accounts d v.memory
  serverId : v.memory.serverId = disk.serverId
  serves : reg.Serves v.peers v.listing
  within : todo.Sublist v.listing
  untouched : ∀ e ∈ todo, ∀ other : Number, e.peer.id = other.val →
    (v.memory.pendingWith other).map Pending.installed =
      (disk.pendingWith other).map Pending.installed

section Steps

variable [Native] {reg : Registry} {disk : EndpointState}

omit [Native] in
/-- The observation leaves the relationship keyed. -/
theorem Fitted.observed {d : Device} {v : View} {e : Entry} {todo : List Entry}
    (fitted : Fitted reg d disk v (e :: todo)) (spares : e.Spares v d) {other : Number}
    {adv : AdvertisedBundle} {r : Relationship} (peer : e.dataPeer v.memory = some other)
    (advertised : e.pq = some adv) (observes : Observes v.memory other adv r) :
    r.remote.wgPublicKey = reg.keyOf other.val ∧ Keyed d (reg.keyOf other.val) r := by
  have listed : e ∈ v.listing := fitted.within.subset (List.mem_cons_self ..)
  refine ⟨?_, ?_⟩
  · rw [observes.remote, ← (Entry.dataPeer_some peer).2]
    exact (fitted.serves.shows e listed).2 adv advertised
  cases there : v.memory.relationship other with
  | none =>
    refine .unowed ?_
    rintro (⟨p, pending, -⟩ | ⟨-, confirmed⟩)
    · obtain ⟨r₀, there', -⟩ := observes.before pending
      rw [there] at there'
      cases there'
    · rw [observes.confirmed, there] at confirmed
      cases confirmed
  | some r₀ =>
    have row := fitted.accounts other r₀ there
    have confirmed : r.confirmed = r₀.confirmed := by rw [observes.confirmed, there]; rfl
    have known : v.memory.pendingWith other = r₀.pending := by
      rw [EndpointState.pendingWith, there]
      rfl
    by_cases same : r.pending = r₀.pending
    · exact row.keyed.congr confirmed
        (fun p here => ⟨p, same ▸ here, rfl, rfl⟩) (fun idle => same ▸ idle)
    · have gone : r.pending = none :=
        observes.pending.resolve_right fun kept => same (kept.trans known)
      obtain ⟨p, pending₀⟩ := Option.ne_none_iff_exists'.mp
        (fun none => same (gone.trans none.symm))
      have expendable : r.Expendable d (reg.keyOf other.val) := by
        intro c member
        rw [← row.key]
        refine (spares other peer adv advertised r₀ there p pending₀).1 ?_ c (confirmed ▸ member)
        by_contra kept
        rw [not_or, not_or, not_not] at kept
        refine same ((observes.kept ?_ ?_).trans known)
        · cases lifecycle : adv.lifecycle with
          | enabled => rfl
          | retired => exact absurd lifecycle kept.1
        · intro r₁ there₁
          rw [there] at there₁
          cases there₁
          exact kept.2.1
      exact .dropped expendable rfl gone

theorem Fitted.turn {v : View} {e : Entry} {todo : List Entry} {t : Turning} {tunnel tunnel' : Tunnel}
    {done : Option (Number × Action)} {memory : EndpointState}
    (fitted : Fitted reg tunnel.device disk v (e :: todo)) (accounts : reg.Accounts tunnel.device disk)
    (turned : v.Turned e t tunnel done memory tunnel') (spares : e.Spares v tunnel.device) :
    Fitted reg tunnel'.device disk { v with memory } todo ∧ reg.Accounts tunnel'.device disk := by
  have listed : e ∈ v.listing := fitted.within.subset (List.mem_cons_self ..)
  have within : todo.Sublist v.listing := (List.sublist_cons_self _ _).trans fitted.within
  cases turned with
  | passed =>
    refine ⟨⟨fitted.accounts, fitted.serverId, fitted.serves, within, ?_⟩, accounts⟩
    exact fun e' later => fitted.untouched e' (List.mem_cons_of_mem _ later)
  | @turned other adv s r r' result _ peer advertised frame others known observes _ turn =>
    obtain ⟨rows, frame⟩ := frame
    obtain ⟨-, id⟩ := Entry.dataPeer_some peer
    have peerId : s.peerId = v.memory.peerId := by rw [frame]
    have serverId : s.serverId = v.memory.serverId := by rw [frame]
    obtain ⟨apart, data⟩ := Entry.dataPeer_apart peer
    obtain ⟨key, keyed⟩ := fitted.observed spares peer advertised observes
    have spared : ∀ p, r.pending = some p →
        (p.Aborts (exchangeFor v.exchanges s.peerId other) →
          r.Expendable tunnel.device r.remote.wgPublicKey) ∧
        (p.Completes (exchangeFor v.exchanges s.peerId other) → p.installed = true) := by
      intro p pending
      obtain ⟨r₀, there, pending₀, confirmed⟩ := observes.before pending
      obtain ⟨gives, whole⟩ := spares other peer adv advertised r₀ there p pending₀
      rw [peerId]
      refine ⟨fun aborts c member => ?_, whole⟩
      rw [key, ← (fitted.accounts other r₀ there).key]
      exact gives (.inr (.inr aborts)) c (confirmed ▸ member)
    have proper : Proper s.peerId other r := by
      rw [peerId]
      cases pending : r.pending with
      | none => exact .idle pending
      | some p =>
        obtain ⟨r₀, there, pending₀, -⟩ := observes.before pending
        refine (fitted.accounts other r₀ there).proper.congr fun p' here => ?_
        rw [pending] at here
        cases here
        exact ⟨p, pending₀, rfl, fun past => .inr ⟨past, rfl⟩⟩
    rw [← key] at keyed
    have own : (s.setRelationship other r').relationship other = some r' :=
      EndpointState.relationship_setRelationship _ _ _
    have rest : ∀ o, o ≠ other → (s.setRelationship other r').relationship o =
        v.memory.relationship o := by
      intro o differs
      rw [EndpointState.relationship_insert, if_neg differs, others o differs]
    have elsewhere : ∀ o, o ≠ other →
        tunnel'.device.lookup (reg.keyOf o.val) = tunnel.device.lookup (reg.keyOf o.val) :=
      fun o differs => turn.elsewhere fun same =>
        differs (Registry.key_injective (same.trans key))
    refine ⟨⟨fun o row there => ?_, ?_, fitted.serves, within, fun e' later o id' => ?_⟩,
      accounts.map fun o row there held => ?_⟩
    · change Accounted reg _ s.peerId s.serverId o row
      by_cases same : o = other
      · subst same
        rw [own] at there
        cases there
        refine ⟨peerId ▸ apart, serverId ▸ data, turn.remote.symm ▸ key, ?_, ?_⟩
        · exact turn.proper (peerId ▸ apart) proper fun p pending => (spared p pending).2
        · rw [← key]
          exact turn.keyed (peerId ▸ apart) proper keyed (fun p pending => (spared p pending).1)
            fun p pending => (spared p pending).2
      · have held := fitted.accounts o row (rest o same ▸ there)
        rw [peerId, serverId]
        exact ⟨held.apart, held.data, held.key, held.proper, held.keyed.frame (elsewhere o same)⟩
    · exact serverId.trans fitted.serverId
    · have apart' : o ≠ other := by
        rintro rfl
        have once : (e :: todo).Nodup :=
          (List.Nodup.of_map _ fitted.serves.once).sublist fitted.within
        have same := fitted.serves.same (within.subset later) listed (id'.trans id.symm)
        exact (List.nodup_cons.mp once).1 (same ▸ later)
      rw [EndpointState.pendingWith, rest o apart']
      exact fitted.untouched e' (List.mem_cons_of_mem _ later) o id'
    · by_cases same : o = other
      swap
      · exact held.keyed.frame (elsewhere o same)
      subst same
      rcases turn.rekeys with unchanged | ⟨p, pending, uninstalled⟩
      · rw [unchanged]
        exact held.keyed
      · -- the disk is at most behind in what it knows to be installed
        obtain ⟨r₀, here, pending₀, -⟩ := observes.before pending
        have same := fitted.untouched e (List.mem_cons_self ..) o id
        rw [EndpointState.pendingWith, EndpointState.pendingWith, here, there] at same
        change r₀.pending.map Pending.installed = row.pending.map Pending.installed at same
        rw [pending₀] at same
        obtain ⟨q, opening, flag⟩ := Option.map_eq_some_iff.mp same.symm
        exact .opening opening (flag.trans uninstalled)

/-- What holds of the client, between any two effects. -/
structure Tuned (reg : Registry) (cfg : Config) (c : Client) : Prop where
  server : reg.keyOf c.disk.serverId.val = cfg.serverKey
  accounts : reg.Accounts c.tunnel.device c.disk
  fitted : ∀ st v, c.running = some st → st.view = some v →
    Fitted reg c.tunnel.device c.disk v st.todo
  early : ∀ v, c.running = some (.fetched v) ∨ c.running = some (.blocked v) ∨
    c.running = some (.gated v) → v.memory.relationships = c.disk.relationships

omit [Native] in
/-- A fetch that has read nothing yet, or none. -/
theorem Tuned.unread {cfg : Config} {c : Client} (server : reg.keyOf c.disk.serverId.val = cfg.serverKey)
    (accounts : reg.Accounts c.tunnel.device c.disk) (unread : c.view = none) : Tuned reg cfg c where
  server
  accounts
  fitted st v here view := by
    rw [Client.view, here] at unread
    cases view.symm.trans unread
  early v here := by
    rcases here with here | here | here <;> rw [Client.view, here] at unread <;> cases unread

omit [Native] in
/-- A later stage of the same fetch, over the same kernel. -/
theorem Tuned.later {cfg : Config} (c : Client) (st : Stage) (tunnel : Tunnel) {v : View}
    {disk : EndpointState} (server : reg.keyOf disk.serverId.val = cfg.serverKey)
    (accounts : reg.Accounts c.tunnel.device disk)
    (fitted : Fitted reg c.tunnel.device disk v st.todo) (view : st.view = some v)
    (early : (st = .fetched v ∨ st = .blocked v ∨ st = .gated v) →
      v.memory.relationships = disk.relationships)
    (device : tunnel.device = c.tunnel.device) {cache : List Peer} :
    Tuned reg cfg { c with disk, tunnel, cache, running := some st } where
  server
  accounts := by
    dsimp only
    rw [device]
    exact accounts
  fitted st' v' here view' := by
    cases here
    cases view.symm.trans view'
    dsimp only
    rw [device]
    exact fitted
  early v' here := by
    have same : v' = v := by
      rcases here with here | here | here <;> cases here <;> cases view <;> rfl
    subst same
    refine early ?_
    rcases here with here | here | here <;> cases here
    · exact .inl rfl
    · exact .inr (.inl rfl)
    · exact .inr (.inr rfl)

omit [Native] in
/-- The view and the disk agree once the state is saved. -/
theorem Fitted.saved {d : Device} {v : View} {todo : List Entry} (fitted : Fitted reg d disk v todo) :
    Fitted reg d v.memory v todo :=
  ⟨fitted.accounts, rfl, fitted.serves, fitted.within, fun _ _ _ _ => rfl⟩

omit [Native] in
theorem Fitted.noted {d : Device} {v : View} {todo : List Entry} (fitted : Fitted reg d disk v todo)
    (other : Number) (now : Nat) (drawn : Except Error UInt8) :
    Fitted reg d disk { v with memory := (v.memory.noteSendFailure other now drawn).2 } todo := by
  have serverId : (v.memory.noteSendFailure other now drawn).2.serverId = v.memory.serverId := by
    unfold EndpointState.noteSendFailure
    split
    · rfl
    split
    · rfl
    dsimp only
    split
    · rfl
    · rfl
  refine ⟨fitted.accounts.noted other now drawn, serverId.trans fitted.serverId, fitted.serves,
    fitted.within, fun e later o id => ?_⟩
  rw [← fitted.untouched e later o id]
  unfold EndpointState.pendingWith
  dsimp only
  rcases EndpointState.noteSendFailure_kept v.memory other now drawn o with
    same | ⟨-, r, p, _, _, known, pending, changed⟩
  · rw [same]
  · rw [changed, known]
    dsimp only [Option.bind]
    rw [pending]
    rfl

/-- An update that makes no entry a relationship counts on keeps them all keyed. -/
theorem Accounts.updated {cfg : Config} {s : EndpointState} {t : Tunnel}
    (accounts : reg.Accounts t.device s) (server : reg.keyOf s.serverId.val = cfg.serverKey)
    {now : Nat} {through : Option Nat} {peers : List Peer}
    (left : ∀ row ∈ s.relationships.entries, row.2.Left t.device peers) :
    reg.Accounts (cfg.update now through peers t).device s := by
  refine Registry.Accounts.map accounts fun other r known row => ?_
  have data : reg.keyOf other.val ≠ cfg.serverKey :=
    fun same => row.data (Registry.key_injective (same.trans server.symm))
  refine row.keyed.updated (cfg.update_lookup now through peers t data) fun owed => ?_
  rw [← row.key]
  exact left ⟨other, r⟩ ((mem_entries_iff _ _).mpr known) owed

/-- The commands done on the saved state. -/
theorem Accounts.administered {d : Device} {s : EndpointState} {u : Upkeep}
    (accounts : reg.Accounts d s) (administrative : u.administrative = true)
    (spared : u = .disable → ∀ row ∈ s.relationships.entries, row.2.pending.isSome = true →
      row.2.Expendable d row.2.remote.wgPublicKey) :
    reg.Accounts d (u.perform s) ∧ (u.perform s).serverId = s.serverId := by
  obtain ⟨peerId, serverId⟩ : (u.perform s).peerId = s.peerId ∧
      (u.perform s).serverId = s.serverId := by
    cases u with
    | replace identity =>
      cases replaced : s.replace identity with
      | error e => simp [Upkeep.perform, replaced, EndpointState.after]
      | ok s' =>
        obtain ⟨-, -, -, -, -, peerId, serverId, -⟩ := EndpointState.replace_ok replaced
        simp [Upkeep.perform, replaced, EndpointState.after, peerId, serverId]
    | disable =>
      cases disabled : s.disable with
      | error e => simp [Upkeep.perform, disabled, EndpointState.after]
      | ok s' =>
        obtain ⟨-, -, -, -, -, peerId, serverId, -⟩ := EndpointState.disable_ok disabled
        simp [Upkeep.perform, disabled, EndpointState.after, peerId, serverId]
    | emergencyRetire => exact ⟨rfl, rfl⟩
    | _ => cases administrative
  refine ⟨fun o r' there => ?_, serverId⟩
  rw [peerId, serverId]
  have kept := EndpointState.upkept u s o
  rw [there] at kept
  generalize known : s.relationship o = before at kept
  cases kept with
  | met _ same =>
    rw [same] at administrative
    cases administrative
  | @revised r _ revised =>
    have row := accounts o r known
    cases revised with
    | untouched => exact row
    | observed => cases administrative
    | sampled => cases administrative
    | backedOff => cases administrative
    | replaced idle =>
      exact ⟨row.apart, row.data, row.key, .idle idle,
        row.keyed.congr rfl (fun p there => ⟨p, there, rfl, rfl⟩) id⟩
    | disabled =>
      refine ⟨row.apart, row.data, row.key, .idle rfl, ?_⟩
      cases pending : r.pending with
      | none => exact row.keyed.congr rfl (fun _ there => by cases there) (fun _ => pending)
      | some p =>
        refine .dropped ?_ rfl rfl
        rw [← row.key]
        exact spared rfl ⟨o, r⟩ ((mem_entries_iff _ _).mpr known) (by rw [pending]; rfl)
    | retired =>
      refine ⟨row.apart, row.data, row.key, .idle rfl, .unowed ?_⟩
      rintro (⟨p, pending, -⟩ | ⟨-, confirmed⟩)
      · cases pending
      · cases confirmed

omit [Native] in
/-- What is done to one kernel entry, with its key left alone. -/
theorem Tuned.set {cfg : Config} {c : Client} (tuned : Tuned reg cfg c) {publicKey : Binary 32}
    {i i' : PeerInfo} (there : c.tunnel.device.lookup publicKey = some i)
    (psk : i'.config.presharedKey = i.config.presharedKey)
    (handshake : i'.lastHandshake = i.lastHandshake ∨
      ∃ time, i'.lastHandshake = some ⟨time, i.config.presharedKey⟩) :
    Tuned reg cfg { c with tunnel := c.tunnel.setPeer publicKey i' } where
  server := tuned.server
  accounts := Registry.Accounts.map tuned.accounts fun _ _ _ row => row.keyed.set there psk handshake
  fitted st v here view := by
    have fitted := tuned.fitted st v here view
    exact { fitted with
      accounts := Registry.Accounts.map fitted.accounts fun _ _ _ row =>
        row.keyed.set there psk handshake }
  early := tuned.early

theorem Tuned.step {cfg : Config} {c c' : Client} {effect : Effect} (tuned : Tuned reg cfg c)
    (does : Does cfg c effect c')
    (serves : ∀ f, effect = .fetch f → reg.Serves f.peers f.listing)
    (careful : c.Careful c.running effect) : Tuned reg cfg c' := by
  cases does with
  | started => exact .unread tuned.server tuned.accounts rfl
  | restored => exact .unread tuned.server tuned.accounts rfl
  | raised =>
    refine .unread tuned.server (Registry.Accounts.cleared tuned.accounts fun k data => ?_) rfl
    exact AList.lookup_insert_ne (tuned.server ▸ data)
  | @fetched f memory disk here rows peerId serverId _ saved =>
    have accounts := Registry.Accounts.rows tuned.accounts rows peerId serverId
    have shown := serves f rfl
    have alike : ∀ other, memory.pendingWith other = c.disk.pendingWith other := by
      intro other
      simp only [EndpointState.pendingWith, EndpointState.relationship, rows]
    rcases saved with rfl | rfl
    · refine .later c (.fetched _) c.tunnel (by rw [serverId]; exact tuned.server) accounts
        ⟨accounts, rfl, shown, .refl _, fun _ _ _ _ => rfl⟩ rfl (fun _ => rfl) rfl
    · exact .later c (.fetched _) c.tunnel tuned.server tuned.accounts
        ⟨accounts, serverId, shown, .refl _, fun _ _ o _ => by rw [alike o]⟩ rfl (fun _ => rows) rfl
  | offline => exact .unread tuned.server tuned.accounts rfl
  | @blocked v here =>
    have fitted := tuned.fitted _ v here rfl
    exact .later c (.blocked v) (c.tunnel.block _) tuned.server tuned.accounts fitted rfl (fun _ => tuned.early v (.inl here)) rfl
  | @released v here =>
    have fitted := tuned.fitted _ v here rfl
    exact .later c (.gated v) (c.tunnel.release _) tuned.server tuned.accounts fitted rfl (fun _ => tuned.early v (.inr (.inl here))) rfl
  | @updated v now here =>
    have fitted := tuned.fitted _ v here rfl
    have rows := tuned.early v (.inr (.inr here))
    rw [here] at careful
    have accounts : reg.Accounts (cfg.update now none v.peers c.tunnel).device c.disk :=
      Accounts.updated tuned.accounts tuned.server fun row member owed =>
        .inl (careful row member owed).1
    refine .later { c with tunnel := cfg.update now none v.peers c.tunnel }
      (.applying v c.tunnel.device v.listing) (cfg.update now none v.peers c.tunnel) tuned.server
      accounts
      { fitted with accounts := ?_ } rfl (fun here => ?_) rfl
    · intro other r known
      have row := fitted.accounts other r known
      have same : v.memory.relationship other = c.disk.relationship other := by
        rw [EndpointState.relationship, rows]
        rfl
      exact ⟨row.apart, row.data, row.key, row.proper,
        (accounts other r (same ▸ known)).keyed⟩
    · rcases here with here | here | here <;> cases here
  | @cut v now n here =>
    rw [here] at careful
    exact .unread tuned.server (Accounts.updated tuned.accounts tuned.server careful) rfl
  | @cached now through cache here =>
    rw [here] at careful
    exact .unread tuned.server (Accounts.updated tuned.accounts tuned.server careful) rfl
  | @passed v sampled e todo t memory tunnel here turned =>
    rw [here] at careful
    obtain ⟨fitted, accounts⟩ :=
      Fitted.turn (tuned.fitted _ v here rfl) tuned.accounts turned careful
    exact .later { c with tunnel } _ tunnel tuned.server accounts fitted rfl
      (fun here => by rcases here with here | here | here <;> cases here) rfl
  | @acted v sampled e todo t memory tunnel other action here turned =>
    rw [here] at careful
    obtain ⟨fitted, accounts⟩ :=
      Fitted.turn (tuned.fitted _ v here rfl) tuned.accounts turned careful
    exact .later { c with tunnel } _ tunnel tuned.server accounts fitted rfl
      (fun here => by rcases here with here | here | here <;> cases here) rfl
  | @saved v sampled todo other action stage here next =>
    have fitted := (tuned.fitted _ v here rfl).saved
    have server : reg.keyOf v.memory.serverId.val = cfg.serverKey := by
      rw [(tuned.fitted _ v here rfl).serverId]
      exact tuned.server
    rcases next with rfl | ⟨m, -, rfl⟩
    · exact .later c (.applying v sampled todo) c.tunnel server fitted.accounts fitted rfl
        (fun here => by rcases here with here | here | here <;> cases here) rfl
    · exact .later c (.sending v sampled todo other m) c.tunnel server fitted.accounts fitted rfl
        (fun here => by rcases here with here | here | here <;> cases here) rfl
  | @unsaved v sampled todo other action here =>
    have fitted := tuned.fitted _ v here rfl
    exact .later c (.applying v sampled todo) c.tunnel tuned.server tuned.accounts fitted rfl
      (fun here => by rcases here with here | here | here <;> cases here) rfl
  | @sent v sampled todo other m now drawn here =>
    have fitted := tuned.fitted _ v here rfl
    exact .later c (.applying v sampled todo) c.tunnel tuned.server tuned.accounts fitted rfl
      (fun here => by rcases here with here | here | here <;> cases here) rfl
  | @failed v sampled todo other m now drawn stage here next =>
    have fitted := (tuned.fitted _ v here rfl).noted other now drawn
    rcases next with rfl | rfl
    · exact .later c (.applying { v with memory := _ } sampled todo) c.tunnel tuned.server
        tuned.accounts fitted rfl
        (fun here => by rcases here with here | here | here <;> cases here) rfl
    · exact .later c (.noted { v with memory := _ } sampled todo) c.tunnel tuned.server
        tuned.accounts fitted rfl
        (fun here => by rcases here with here | here | here <;> cases here) rfl
  | @noted v sampled todo done disk here saved =>
    have fitted := tuned.fitted _ v here rfl
    rcases saved with rfl | rfl
    · have server : reg.keyOf v.memory.serverId.val = cfg.serverKey := by
        rw [fitted.serverId]
        exact tuned.server
      exact .later c (.applying v sampled todo) c.tunnel server fitted.accounts fitted.saved rfl
        (fun here => by rcases here with here | here | here <;> cases here) rfl
    · exact .later c (.applying v sampled todo) c.tunnel tuned.server tuned.accounts fitted rfl
        (fun here => by rcases here with here | here | here <;> cases here) rfl
  | finished here =>
    refine .unread tuned.server ?_ rfl
    dsimp only
    rw [(reconcileGate_cases _ _ _ c.tunnel).1]
    exact tuned.accounts
  | aborted => exact .unread tuned.server tuned.accounts rfl
  | rebooted =>
    exact .unread tuned.server (Registry.Accounts.cleared tuned.accounts fun _ _ => rfl) rfl
  | lowered =>
    exact .unread tuned.server (Registry.Accounts.cleared tuned.accounts fun _ _ => rfl) rfl
  | shaken there => exact tuned.set there rfl (.inr ⟨_, rfl⟩)
  | counted there => exact tuned.set there rfl (.inl rfl)
  | @administered u idle administrative =>
    obtain ⟨accounts, serverId⟩ :=
      Accounts.administered tuned.accounts administrative fun disables => by
        subst disables
        rw [idle] at careful
        exact careful
    refine .unread ?_ accounts ?_
    · dsimp only
      rw [serverId]
      exact tuned.server
    · rw [Client.view]
      dsimp only
      rw [idle]
      rfl

/-- After the update of every fetch that reached the server the kernel is under the keys its
relationships count on, and a `Confirmed` message is built only on a handshake under its own
candidate, in a run that makes no kernel entry a relationship counts on and gives none up. -/
theorem keys_recovered {cfg : Config} {c₀ c : Client} {ms : List (Move Client Effect)}
    (idle : c₀.running = none) (server : reg.keyOf c₀.disk.serverId.val = cfg.serverKey)
    (accounts : reg.Accounts c₀.tunnel.device c₀.disk) (run : Run (Taken (next cfg)) c₀ ms c)
    (serves : ∀ m ∈ ms, ∀ f, m.label = .fetch f → reg.Serves f.peers f.listing)
    (careful : ∀ m ∈ ms, m.before.Careful m.before.running m.label) :
    (∀ m ∈ ms, ∀ now v, m.label = .update now none → m.before.running = some (.gated v) →
      ∀ other r, v.memory.relationship other = some r →
      (∀ p, r.pending = some p → p.installed = true →
        m.after.tunnel.device.Holds r.remote.wgPublicKey p.candidate.psk) ∧
      ∀ c, r.confirmed = some c → r.pending = none →
        m.after.tunnel.device.Holds r.remote.wgPublicKey c.psk) ∧
    ∀ m ∈ ms, ∀ t v sampled todo other message, m.label = .turn t →
      m.after.running = some (.acted v sampled todo other (.send message)) →
      message.messageType = Kind.confirmed.code →
      ∃ p, m.before.memory.pendingWith other = some p ∧ (message ∈ p.outbox ∨ ∃ i h,
        m.before.tunnel.device.lookup (reg.keyOf other.val) = some i ∧ i.lastHandshake = some h ∧
        i.config.presharedKey = some p.candidate.psk ∧ h.presharedKey = some p.candidate.psk) := by
  have start : Tuned reg cfg c₀ := .unread server accounts (by rw [Client.view, idle]; rfl)
  have held : ∀ m ∈ ms, Tuned reg cfg m.before ∧ Does cfg m.before m.label m.after := by
    intro m member
    have both : ∀ m ∈ ms, (∀ f, m.label = .fetch f → reg.Serves f.peers f.listing) ∧
        m.before.Careful m.before.running m.label :=
      fun m member => ⟨serves m member, careful m member⟩
    exact ⟨run.before start (fun a l b tuned taken allowed =>
      tuned.step (next_does taken) allowed.1 allowed.2) both m member,
      next_does (run.reached m member).1⟩
  refine ⟨fun m member now v label here other r known => ?_,
    fun m member t v sampled todo other message label here type => ?_⟩
  · obtain ⟨tuned, does⟩ := held m member
    have after := tuned.step does (serves m member) (careful m member)
    have meets := careful m member
    rw [label, here] at meets
    have same : v.memory.relationship other = m.before.disk.relationship other := by
      rw [EndpointState.relationship, tuned.early v (.inr (.inr here))]
      rfl
    have row := (tuned.fitted _ v here rfl).accounts other r known
    have data : reg.keyOf other.val ≠ cfg.serverKey := by
      rw [← tuned.server]
      intro same
      refine row.data ((Registry.key_injective same).trans ?_)
      exact (tuned.fitted _ v here rfl).serverId.symm
    -- an entry that is there and listed stays
    have stays : r.Owed → (m.after.tunnel.device.lookup (reg.keyOf other.val)).isSome = true := by
      intro owed
      obtain ⟨there, p, listed, key⟩ :=
        meets ⟨other, r⟩ ((mem_entries_iff _ _).mpr (same.symm.trans known)) owed
      dsimp only at there key
      rw [row.key] at there key
      generalize m.label = effect at does label
      generalize m.after = after at does ⊢
      subst label
      cases does with
      | @updated v' _ here' =>
        cases here.symm.trans here'
        have kept := cfg.update_lookup now none v.peers m.before.tunnel data
        generalize m.before.tunnel.device.lookup (reg.keyOf other.val) = old at kept there
        dsimp only
        generalize (cfg.update now none v.peers m.before.tunnel).device.lookup
          (reg.keyOf other.val) = new at kept
        cases kept with
        | same => exact there
        | removed unlisted => exact absurd key (unlisted p listed)
        | changed => rfl
        | added => rfl
      | cached here' => cases here.symm.trans here'
    have keyed : Keyed m.after.tunnel.device (reg.keyOf other.val) r := by
      refine (after.accounts other r ?_).keyed
      generalize m.label = effect at does label
      generalize m.after = after at does ⊢
      subst label
      cases does with
      | updated => exact same.symm.trans known
      | cached here' => cases here.symm.trans here'
    rw [row.key]
    constructor
    · intro p pending installed
      obtain ⟨i, there⟩ := Option.isSome_iff_exists.mp (stays (.inl ⟨p, pending, installed⟩))
      exact ⟨i, there, (keyed.installed p pending installed).1 i there⟩
    · intro c confirmed idle
      obtain ⟨i, there⟩ := Option.isSome_iff_exists.mp
        (stays (.inr ⟨idle, by rw [confirmed]; rfl⟩))
      exact ⟨i, there, keyed.settled c confirmed idle i there⟩
  · obtain ⟨tuned, does⟩ := held m member
    have spares := careful m member
    generalize m.label = effect at does label spares
    generalize m.after = after at does here
    subst label
    cases does with
    | passed => cases here
    | @acted v' _ e _ _ memory tunnel _ _ before turned =>
      cases here
      rw [before] at spares
      have fitted := tuned.fitted _ v' before rfl
      rw [memory_of before rfl]
      generalize outcome : some (other, Action.send message) = done at turned
      cases turned with
      | passed => cases outcome
      | @turned o adv s r r' result _ peer advertised frame others known observes _ turn =>
        cases result with
        | error => cases outcome
        | ok action =>
          cases outcome
          obtain ⟨key, keyed⟩ := fitted.observed spares peer advertised observes
          rw [← key] at keyed ⊢
          obtain ⟨p, pending, vouched⟩ := turn.vouched keyed rfl type
          obtain ⟨r₀, there, pending₀, -⟩ := observes.before pending
          exact ⟨p, by rw [EndpointState.pendingWith, there]; exact pending₀, vouched⟩

end Steps

end Client

section Sample

open Arithmetic Client

namespace Arithmetic

/-- The third peer, with a record of an earlier exchange. -/
def settledPeer : Relationship :=
  { Relationship.fresh (identity 3 first).bundle with
    confirmed := some record
    priorPq := true
    status := .confirmed }

/-- A fetch after the machine has been restarted, as far as the update. -/
def rebooting : List Effect :=
  [.reboot, .start, .raise, .fetch (shownThird []), .block, .release, .update 20 none]

theorem interface_accounts :
    registry.Accounts (interface settledPeer).tunnel.device (interface settledPeer).disk := by
  intro other r known
  have table : (interface settledPeer).disk.relationship other =
      if other = third then some settledPeer else none := by
    change ((∅ : Table Number Relationship).insert third settledPeer).lookup other = _
    rw [lookup_insert_eq]
    rfl
  rw [table] at known
  split at known
  · rename_i same
    cases known
    subst same
    refine ⟨by decide, by decide, rfl, .idle rfl, fun p there => (nomatch there), ?_⟩
    intro c confirmed _
    cases confirmed
    decide +kernel
  · cases known

/-- The updates of a fetch that reached the server with a confirmed peer, and whether the kernel
then has its key. -/
def recovers (held : Bool) (m : Move Client Effect) : Bool :=
  match m.label, m.before.running with
  | .update _ none, some (.gated v) => (v.memory.relationship third).any fun r =>
      r.confirmed.any fun c => decide (r.pending = none) &&
        (decide (m.after.tunnel.device.Holds r.remote.wgPublicKey c.psk) == held)
  | _, _ => false

theorem recovers_some {held : Bool} {m : Move Client Effect} (found : recovers held m = true) :
    ∃ now v r c, m.label = .update now none ∧ m.before.running = some (.gated v) ∧
      v.memory.relationship third = some r ∧ r.confirmed = some c ∧ r.pending = none ∧
      decide (m.after.tunnel.device.Holds r.remote.wgPublicKey c.psk) = held := by
  unfold recovers at found
  split at found
  · rename_i now v label here
    obtain ⟨r, known, found⟩ := (Option.any_eq_true _ _).mp found
    obtain ⟨c, confirmed, found⟩ := (Option.any_eq_true _ _).mp found
    rw [Bool.and_eq_true, decide_eq_true_eq, beq_iff_eq] at found
    exact ⟨now, v, r, c, label, here, known, confirmed, found.1, found.2⟩
  · cases found

theorem shown_serves {ls : List Effect} {ms : List (Move Client Effect)} {c : Client}
    {r : Relationship} (done : execute (@Client.next native config) (interface r) ls = some (ms, c))
    (once : ∀ f, Effect.fetch f ∈ ls → f = shownThird []) :
    ∀ m ∈ ms, ∀ f, m.label = .fetch f → registry.Serves f.peers f.listing := by
  intro m member f label
  have listed : m.label ∈ ls := by
    rw [← execute_labels done]
    exact List.mem_map_of_mem member
  rw [once f (label ▸ listed)]
  exact registry_serves []

end Arithmetic

theorem Client.keys_recovered_fetch : ∃ ms c,
    Run (Taken (@Client.next native config)) (interface settledPeer) ms c ∧
    ∃ m ∈ ms, ∃ now v r c, m.label = .update now none ∧ m.before.running = some (.gated v) ∧
      v.memory.relationship third = some r ∧ r.confirmed = some c ∧ r.pending = none ∧
      m.after.tunnel.device.Holds r.remote.wgPublicKey c.psk := by
  have facts : (fetched settledPeer).any (fun run =>
      (run.1.all fun m => decide (m.before.Careful m.before.running m.label)) &&
      run.1.any (recovers true)) = true := by
    decide +kernel
  obtain ⟨⟨ms, c⟩, done, facts⟩ := (Option.any_eq_true _ _).mp facts
  rw [Bool.and_eq_true, List.all_eq_true, List.any_eq_true] at facts
  obtain ⟨all, m, member, found⟩ := facts
  obtain ⟨now, v, r, c', label, here, known, confirmed, idle, -⟩ := recovers_some found
  have run := execute_run done
  obtain ⟨keys, -⟩ := @Client.keys_recovered native registry config _ _ _ rfl rfl interface_accounts
    run (fetched_serves done) fun m member => of_decide_eq_true (all m member)
  exact ⟨ms, c, run, m, member, now, v, r, c', label, here, known, confirmed, idle,
    (keys m member now v label here third r known).2 c' confirmed idle⟩

/-- After a restart the ordinary update adds the peer's entry without its key. -/
theorem Client.keys_lost : ∃ ms c,
    registry.Accounts (interface settledPeer).tunnel.device (interface settledPeer).disk ∧
    Run (Taken (@Client.next native config)) (interface settledPeer) ms c ∧
    (∀ m ∈ ms, ∀ f, m.label = .fetch f → registry.Serves f.peers f.listing) ∧
    ∃ m ∈ ms, ∃ now v r c, m.label = .update now none ∧ m.before.running = some (.gated v) ∧
      v.memory.relationship third = some r ∧ r.confirmed = some c ∧ r.pending = none ∧
      ¬ m.after.tunnel.device.Holds r.remote.wgPublicKey c.psk := by
  have facts : (execute (@Client.next native config) (interface settledPeer) rebooting).any
      (fun run => run.1.any (recovers false)) = true := by
    decide +kernel
  obtain ⟨⟨ms, c⟩, done, facts⟩ := (Option.any_eq_true _ _).mp facts
  obtain ⟨m, member, found⟩ := List.any_eq_true.mp facts
  obtain ⟨now, v, r, c', label, here, known, confirmed, idle, lost⟩ := recovers_some found
  have once : ∀ f, Effect.fetch f ∈ rebooting → f = shownThird [] := by simp [rebooting]
  exact ⟨ms, c, interface_accounts, execute_run done, shown_serves done once, m, member, now, v, r,
    c', label, here, known, confirmed, idle, of_decide_eq_false lost⟩

end Sample

end Innernet
