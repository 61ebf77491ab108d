import Innernet.Validity

/-! When an initiator opens the first exchange under a pair of bundles. -/
namespace Innernet

open Fallible Tables

namespace EndpointState

variable [Native] {s : EndpointState} {c : Call} {r : Relationship}

/-- An initiator that holds no record of an exchange under the current pair of bundles and is free
to open one. -/
structure Awaits (s : EndpointState) (c : Call) (r : Relationship) : Prop where
  valid : s.validate = .ok ()
  known : s.relationship c.other = some r
  initiator : s.peerId < c.other
  opened : s.Open r
  idle : r.pending = none
  unpaired : ∀ f, r.confirmed = some f →
    f.localBundleId ≠ s.identity.bundle.bundleId ∨ f.remoteBundleId ≠ r.remote.bundleId
  sequence : r.sequence.val < 2 ^ 63 - 1
  exchangeId : ∃ drawn, c.draws.exchangeId = .ok drawn

/-- The record of an earlier pair, if there is one, is old enough and the tunnel is not idle. -/
def Relationship.Stale (r : Relationship) (c : Call) : Prop :=
  ∀ f, r.confirmed = some f → c.rotationInterval ≤ c.now - f.completedAt ∧
    (c.idleTimeout = 0 ∨ ∀ a, r.activity = some a → c.now - a.lastActiveAt < c.idleTimeout)

omit [Native] in
theorem due_iff (r : Relationship) (c : Call) :
    r.due c.now c.rotationInterval c.idleTimeout = true ↔ Relationship.Stale r c := by
  unfold Relationship.due Relationship.Stale
  cases r.confirmed with
  | none => simp
  | some f => cases r.activity <;> simp

/-- With nothing due an initiator rests. -/
theorem perform_rested (awaits : s.Awaits c r)
    (early : r.due c.now c.rotationInterval c.idleTimeout = false) : (c.perform s).1 = .ok .none := by
  have kept := (validate_ok.mp awaits.valid).kept c.other r awaits.known
  have shut : ¬ (r.gated = true ∨ r.status = .blocked ∨ s.enrollment = .retiring) := by
    rw [not_or, not_or, Bool.not_eq_true]
    exact awaits.opened
  unfold Call.perform reconcile reconcileRelationship
  rw [if_neg (not_or.mpr kept.apart), awaits.known]
  dsimp only
  rw [if_neg shut, awaits.idle]
  dsimp only
  rw [if_pos awaits.initiator, early]
  rfl

/-- The proposal goes out exactly when the record of the earlier pair would let a rotation start. -/
theorem proposes_iff (working : Native.Working) (awaits : s.Awaits c r) :
    (∃ m, (c.perform s).1 = .ok (.send m) ∧ m.messageType = Kind.propose.code) ↔
      Relationship.Stale r c := by
  have valid := validate_ok.mp awaits.valid
  have kept := valid.kept c.other r awaits.known
  rw [← due_iff]
  constructor
  · rintro ⟨m, sent, -⟩
    by_contra early
    rw [Bool.not_eq_true] at early
    rw [perform_rested awaits early] at sent
    cases sent
  · intro due
    have following : ∃ n, r.sequence.next = .ok n := by
      have small := awaits.sequence
      exact ⟨⟨r.sequence.val + 1, by omega, by omega⟩, Number.next_ok.mpr rfl⟩
    have chance : s.Chance c r := by
      rw [Chance, if_pos awaits.initiator]
      exact ⟨due, following, awaits.exchangeId⟩
    have opening : s.opening c.other = .propose := if_pos awaits.initiator
    rw [← opening]
    exact perform_chance working valid.signing kept.apart awaits.known awaits.opened awaits.idle
      kept.remote chance

end EndpointState

section Sample

open Arithmetic

attribute [local instance] native

namespace Arithmetic

/-- The bundle the third peer replaces its first with. -/
def renewedBundle : Bundle := { (identity 3 second).bundle with bundleId := 9 }

/-- An initiator that completed an exchange with the third peer at time ten. -/
def rested : EndpointState :=
  { endpoint second (identity 2 first) ((∅ : Table Number Relationship).insert third
      { Relationship.fresh (identity 3 first).bundle with
        sequence := second
        priorPq := true
        confirmed := some ⟨2, 3, first, 5, 0, 77, 10⟩
        status := .confirmed }) with
    management := ⟨0, 1, true, none, none⟩ }

/-- The same once it has seen the third peer's new bundle. -/
def outpaired : EndpointState :=
  rested.after (rested.observeRemote third renewedBundle .enabled)

theorem outpaired_seen : rested.observeRemote third renewedBundle .enabled = .ok outpaired := by
  have some : (rested.observeRemote third renewedBundle .enabled).toOption.isSome = true := by
    decide +kernel
  obtain ⟨s, seen⟩ := Option.isSome_iff_exists.mp some
  rw [outpaired, toOption_some.mp seen]
  rfl

/-- A cycle at the given time. -/
def cycle (now : Nat) : Call := { proposing with now }

theorem outpaired_awaits (now : Nat) : ∃ r, outpaired.Awaits (cycle now) r ∧
    r.activity = none ∧ ∃ f, r.confirmed = some f ∧ f.completedAt = 10 := by
  have known : (outpaired.relationship third).any (fun r => r.gated = false ∧ r.status = .confirmed ∧
      r.pending = none ∧ r.confirmed = some ⟨2, 3, first, 5, 0, 77, 10⟩ ∧ r.remote.bundleId = 9 ∧
      r.sequence = second ∧ r.activity = none) = true := by decide +kernel
  obtain ⟨r, known, state⟩ := (Option.any_eq_true _ _).mp known
  obtain ⟨ungated, status, idle, confirmed, remote, sequence, activity⟩ := of_decide_eq_true state
  refine ⟨r, ?_, activity, _, confirmed, rfl⟩
  have initiator : outpaired.peerId < third := by decide +kernel
  have enrollment : outpaired.enrollment = .advertised := by decide +kernel
  refine
    { valid := toOption_some.mp (by decide +kernel)
      known
      initiator
      opened := ⟨ungated, by rw [status]; nofun, by rw [enrollment]; nofun⟩
      idle
      unpaired := ?_
      sequence := by rw [sequence]; decide
      exchangeId := ⟨5, rfl⟩ }
  intro f found
  rw [confirmed] at found
  cases found
  right
  rw [remote]
  decide

end Arithmetic

/-- A day after the exchange of the old pair the new pair's first exchange may start. -/
theorem EndpointState.proposes_iff_overdue : ∃ m,
    ((cycle 86410).perform outpaired).1 = .ok (.send m) ∧ m.messageType = Kind.propose.code := by
  obtain ⟨r, awaits, activity, f, confirmed, completedAt⟩ := outpaired_awaits 86410
  refine (EndpointState.proposes_iff native_working awaits).mpr ?_
  intro f' found
  rw [confirmed] at found
  cases found
  rw [completedAt]
  exact ⟨by decide, .inl rfl⟩

/-- Ten seconds after it, an initiator that has seen its peer's new bundle opens nothing under the
new pair. -/
theorem EndpointState.establishment_paused : ∃ (s s' : EndpointState) (bundle : Bundle) (c : Call)
    (r : Relationship), s.observeRemote c.other bundle .enabled = .ok s' ∧ s'.Awaits c r ∧
      (c.perform s').1 = .ok .none := by
  obtain ⟨r, awaits, activity, f, confirmed, completedAt⟩ := outpaired_awaits 20
  refine ⟨rested, outpaired, renewedBundle, cycle 20, r, outpaired_seen, awaits, ?_⟩
  refine EndpointState.perform_rested awaits ?_
  rw [Relationship.due, confirmed]
  dsimp only
  rw [completedAt]
  rfl

end Sample

end Innernet
