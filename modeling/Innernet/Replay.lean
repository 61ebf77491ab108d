import Innernet.Retirement

/-! Replay at the responder: what an endpoint has accepted from a peer, kept beside its memory and
its last saved snapshot, and which of the records it is shown can make it accept one again. -/
namespace Innernet

open Fallible Runs Tables

/-- Exchanges proposed by one peer under the same pair of bundle ids. -/
def Transcript.Rivals (t u : Transcript) : Prop :=
  t.initiatorId = u.initiatorId ∧ t.initiator.bundleId = u.initiator.bundleId ∧
    t.responder.bundleId = u.responder.bundleId

namespace EndpointState

variable [Native] {s : EndpointState} {other : Number}

/-- The exchange a deed accepts from its initiator. -/
def accepts (s : EndpointState) : Deed → Option Transcript
  | .upkeep _ => none
  | .reconcile c =>
    if ¬ s.peerId < c.other ∧ (s.pendingWith c.other).isNone = true then
      ((c.perform s).2.1.pendingWith c.other).map Pending.transcript
    else none

/-- After a deed a pending exchange is the one that was pending, or one this call has opened. -/
theorem pending_after {d : Deed} {p' : Pending}
    (pending : (d.apply s).pendingWith other = some p') :
    (∃ p, s.pendingWith other = some p ∧ p'.transcript = p.transcript ∧
      p'.candidate = p.candidate) ∨
    (s.pendingWith other = none ∧ ∃ c r, d = .reconcile c ∧ c.other = other ∧
      s.relationship other = some r ∧ (s.peerId < other ∨ ∃ e, c.remote = some e ∧
        e.decision.phase = .proposed ∧ e.transcript = some p'.transcript ∧
        s.addressed other r p'.transcript)) := by
  simp only [pendingWith, Option.bind_eq_some_iff] at pending ⊢
  obtain ⟨r', after, pending⟩ := pending
  cases d with
  | upkeep u =>
    have upkept := upkept u s other
    rw [show (u.perform s).relationship other = some r' from after] at upkept
    generalize s.relationship other = past at upkept ⊢
    cases upkept with
    | met => cases pending
    | @revised r _ revised =>
      obtain ⟨p, before, same⟩ := revised_pending revised pending
      exact .inl ⟨p, ⟨r, rfl, before⟩, same⟩
  | reconcile c =>
    have after : (c.perform s).2.1.relationship other = some r' := after
    by_cases here : c.other = other
    · subst here
      rcases c.turned s with ⟨same, -⟩ | ⟨r, r'', -, known, after', -, turn⟩
      · rw [same] at after
        exact .inl ⟨p', ⟨r', after, pending⟩, rfl, rfl⟩
      · rw [after'] at after
        cases after
        rcases turn.same pending with ⟨p, before, same⟩ | ⟨idle, initiator, -⟩ |
          ⟨idle, -, e, t, m, shown, phase, transcript, addressed, opened, -⟩
        · exact .inl ⟨p, ⟨r, known, before⟩, same⟩
        · exact .inr ⟨by rw [known, Option.bind_some, idle], c, r, rfl, rfl, known, .inl initiator⟩
        · obtain ⟨candidate, _, d, rfl, -⟩ := openAnswer_ok opened
          exact .inr ⟨by rw [known, Option.bind_some, idle], c, r, rfl, rfl, known,
            .inr ⟨e, shown, phase, transcript, addressed⟩⟩
    · rw [c.other_relationship s (Ne.symm here)] at after
      exact .inl ⟨p', ⟨r', after, pending⟩, rfl, rfl⟩

end EndpointState

/-- An endpoint in memory and as last saved, and every exchange it has accepted from an
initiator. -/
structure Responder where
  memory : EndpointState
  disk : EndpointState
  accepted : List Transcript

inductive Responder.Event where
  | deed (d : Deed)
  | save
  | crash

namespace Responder

variable [Native] {r : Responder}

omit [Native] in
def start (s : EndpointState) : Responder where
  memory := s
  disk := s
  accepted := []

def next (r : Responder) : Event → Responder
  | .deed d => { r with
      memory := d.apply r.memory
      accepted := r.accepted ++ (r.memory.accepts d).toList }
  | .save => { r with disk := r.memory }
  | .crash => { r with memory := r.disk }

def Step (r : Responder) (e : Event) (r' : Responder) : Prop := r' = r.next e

omit [Native] in
/-- No other exchange accepted under the same bundle ids is as high. -/
def Newest (r : Responder) (t : Transcript) : Prop :=
  ∀ a ∈ r.accepted, a.Rivals t → a = t ∨ a.sequence < t.sequence

omit [Native] in
/-- Every exchange accepted under the same bundle ids is lower. -/
def Above (r : Responder) (t : Transcript) : Prop :=
  ∀ a ∈ r.accepted, a.Rivals t → a.sequence < t.sequence

omit [Native] in
/-- What the step brings back is above what was accepted: a proposal shown while nothing is pending,
or an exchange a restart finds pending. -/
def Fresh (m : Move Responder Event) : Prop :=
  match m.label with
  | .deed (.reconcile c) => ¬ m.before.memory.peerId < c.other →
      m.before.memory.pendingWith c.other = none →
      ∀ rel e t, m.before.memory.relationship c.other = some rel → c.remote = some e →
        e.decision.phase = .proposed → e.transcript = some t →
        m.before.memory.addressed c.other rel t → m.before.Above t
  | .crash => ∀ other p, ¬ m.before.disk.peerId < other →
      m.before.disk.pendingWith other = some p → m.before.Newest p.transcript
  | _ => True

/-- A call accepts only above what was accepted, and installs only for the newest exchange it has
accepted, which is the one still pending. -/
def Guarded (m : Move Responder Event) : Prop :=
  ∀ c, m.label = .deed (.reconcile c) → ¬ m.before.memory.peerId < c.other →
    (∀ t, m.before.memory.accepts (.reconcile c) = some t → m.before.Above t) ∧
    ∀ b k, (b, k) ∈ (c.perform m.before.memory).2.2 →
      ∃ p, m.before.memory.pendingWith c.other = some p ∧ p.candidate = k ∧
        p.transcript ∈ m.before.accepted ∧ m.before.Newest p.transcript

omit [Native] in
/-- Whatever is pending was accepted, and in memory it is the newest of its rivals. -/
structure Ordered (r : Responder) : Prop where
  self : r.disk.peerId = r.memory.peerId
  accepted : ∀ other p, ¬ r.memory.peerId < other → r.memory.pendingWith other = some p →
    p.transcript.initiatorId = other ∧ p.transcript ∈ r.accepted ∧ r.Newest p.transcript
  saved : ∀ other p, ¬ r.disk.peerId < other → r.disk.pendingWith other = some p →
    p.transcript.initiatorId = other ∧ p.transcript ∈ r.accepted

/-- What a call accepts is what it was shown. -/
theorem accepts_shown {s : EndpointState} {c : Call} {t : Transcript}
    (accepts : s.accepts (.reconcile c) = some t) : ¬ s.peerId < c.other ∧
      s.pendingWith c.other = none ∧ ∃ rel e, s.relationship c.other = some rel ∧
        c.remote = some e ∧ e.decision.phase = .proposed ∧ e.transcript = some t ∧
        s.addressed c.other rel t := by
  simp only [EndpointState.accepts, Option.isNone_iff_eq_none] at accepts
  split at accepts
  · rename_i role
    obtain ⟨responder, idle⟩ := role
    rw [Option.map_eq_some_iff] at accepts
    obtain ⟨p, pending, rfl⟩ := accepts
    have after : (Deed.apply s (.reconcile c)).pendingWith c.other = some p := pending
    rcases EndpointState.pending_after after with ⟨p', before, -⟩ |
      ⟨-, c', rel, same, -, known, initiator | ⟨e, shown, phase, transcript, addressed⟩⟩
    · rw [idle] at before
      cases before
    · exact absurd initiator responder
    · cases same
      exact ⟨responder, idle, rel, e, known, shown, phase, transcript, addressed⟩
  · cases accepts

theorem Ordered.deed (ordered : r.Ordered) (d : Deed)
    (fresh : Fresh ⟨r, .deed d, r.next (.deed d)⟩) : (r.next (.deed d)).Ordered := by
  have grows : ∀ t ∈ r.accepted, t ∈ r.accepted ++ (r.memory.accepts d).toList :=
    fun t member => List.mem_append_left _ member
  have self : (d.apply r.memory).peerId = r.memory.peerId := EndpointState.apply_peerId d r.memory
  refine ⟨ordered.self.trans self.symm, ?_, fun other p responder pending => ?_⟩
  · intro other p above pending
    have responder : ¬ r.memory.peerId < other := self ▸ above
    clear above
    have pending : (d.apply r.memory).pendingWith other = some p := pending
    rcases EndpointState.pending_after pending with ⟨p₀, before, same, -⟩ |
      ⟨idle, c, rel, rfl, rfl, known, initiator | ⟨e, shown, phase, transcript, addressed⟩⟩
    · obtain ⟨proposer, member, newest⟩ := ordered.accepted other p₀ responder before
      rw [same]
      refine ⟨proposer, grows _ member, ?_⟩
      intro a old rival
      rcases List.mem_append.mp old with earlier | new
      · exact newest a earlier rival
      · -- an exchange accepted by this very call is with another peer
        rw [Option.mem_toList] at new
        cases d with
        | upkeep => cases new
        | reconcile c =>
          obtain ⟨-, quiet, rel, e, -, -, -, -, addressed⟩ := accepts_shown new
          have here : c.other = other := addressed.2.1.symm.trans (rival.1.trans proposer)
          rw [here, before] at quiet
          cases quiet
    · exact absurd initiator responder
    · have accepts : r.memory.accepts (.reconcile c) = some p.transcript := by
        rw [EndpointState.accepts, if_pos ⟨responder, by rw [idle]; rfl⟩]
        exact congrArg (Option.map Pending.transcript) pending
      have higher : r.Above p.transcript :=
        fresh responder idle rel e p.transcript known shown phase transcript addressed
      have member : p.transcript ∈ (r.memory.accepts (.reconcile c)).toList := by
        rw [accepts]
        exact List.mem_singleton.mpr rfl
      refine ⟨addressed.2.1, List.mem_append_right _ member, ?_⟩
      intro a old rival
      rcases List.mem_append.mp old with earlier | new
      · exact .inr (higher a earlier rival)
      · rw [accepts] at new
        exact .inl (List.mem_singleton.mp new)
  · obtain ⟨proposer, member⟩ := ordered.saved other p responder pending
    exact ⟨proposer, grows _ member⟩

theorem Ordered.step (ordered : r.Ordered) (e : Event) (fresh : Fresh ⟨r, e, r.next e⟩) :
    (r.next e).Ordered := by
  cases e with
  | deed d => exact ordered.deed d fresh
  | save =>
    refine ⟨rfl, ordered.accepted, fun other p responder pending => ?_⟩
    obtain ⟨proposer, member, -⟩ := ordered.accepted other p responder pending
    exact ⟨proposer, member⟩
  | crash =>
    refine ⟨rfl, fun other p responder pending => ?_, ordered.saved⟩
    obtain ⟨proposer, member⟩ := ordered.saved other p responder pending
    exact ⟨proposer, member, fresh other p responder pending⟩

theorem Ordered.guarded (ordered : r.Ordered) {e : Event} (fresh : Fresh ⟨r, e, r.next e⟩) :
    Guarded ⟨r, e, r.next e⟩ := by
  intro c label responder
  dsimp only at label
  subst label
  refine ⟨fun t accepts => ?_, fun b k installed => ?_⟩
  · obtain ⟨-, idle, rel, e, known, shown, phase, transcript, addressed⟩ := accepts_shown accepts
    exact fresh responder idle rel e t known shown phase transcript addressed
  · rcases c.turned r.memory with ⟨-, silent, -⟩ | ⟨rel, rel', -, known, -, -, turn⟩
    · rw [silent] at installed
      cases installed
    · rcases turn.calls with silent | ⟨p, pending, called⟩
      · rw [silent] at installed
        cases installed
      · rw [called, List.nil_append, List.mem_singleton] at installed
        cases installed
        have before : r.memory.pendingWith c.other = some p := by
          rw [EndpointState.pendingWith, known, Option.bind_some, pending]
        obtain ⟨-, member, newest⟩ := ordered.accepted c.other p responder before
        exact ⟨p, before, rfl, member, newest⟩

end Responder

section Sample

open Arithmetic

attribute [local instance] native

/-- A responder that has met its peer. -/
def Arithmetic.met : EndpointState :=
  endpoint third (identity 3 first) ((∅ : Table Number Relationship).insert second
    (.fresh (identity 2 first).bundle))

/-- A call before anything was accepted, or one that goes on with what is pending. -/
def Responder.plain (m : Move Responder Responder.Event) : Bool :=
  match m.label with
  | .deed (.reconcile c) => m.before.accepted.isEmpty ||
      (m.before.memory.pendingWith c.other).isSome
  | .deed (.upkeep _) => true
  | .save => true
  | .crash => false

end Sample

end Innernet
