import Mathlib.Logic.Basic
import Mathlib.Tactic.Common

/-! Two ends that each switch from one value to the next: a side takes a new value and keeps the
one it replaces until it confirms or rolls back. Neither side sees the other. -/
namespace Switchover

variable {α : Type*}

structure Side (α : Type*) where
  active : α
  previous : Option α

namespace Side

def apply (s : Side α) (new : α) : Side α := ⟨new, some s.active⟩

def confirm (s : Side α) : Side α := ⟨s.active, none⟩

def rollback (s : Side α) : Side α :=
  match s.previous with
  | none => s
  | some old => ⟨old, none⟩

def Holds (s : Side α) (x : α) : Prop := s.active = x ∨ s.previous = some x

theorem rollback_of {s : Side α} {old : α} (kept : s.previous = some old) :
    s.rollback = ⟨old, none⟩ := by
  unfold rollback
  rw [kept]

end Side

/-- The values the two sides could meet on. `nearBound` says that the far side has confirmed the
switch the near side still could take back, and `farBound` the same the other way round. -/
def Balanced (near far : Side α) (nearBound farBound : Prop) : Prop :=
  match near.previous, far.previous with
  | none, none => near.active = far.active
  | none, some old => (farBound ∧ near.active = far.active) ∨ near.active = old
  | some old, none => (nearBound ∧ near.active = far.active) ∨ far.active = old
  | some old, some old' => (farBound ∧ far.active = old) ∨ (nearBound ∧ near.active = old') ∨
      old = old'

namespace Balanced

variable {near far : Side α} {p q : Prop}

theorem of_equal (same : near.active = far.active) (none_near : near.previous = none)
    (none_far : far.previous = none) : Balanced near far p q := by
  unfold Balanced
  rw [none_near, none_far]
  exact same

theorem symm (balanced : Balanced near far p q) : Balanced far near q p := by
  unfold Balanced at *
  cases kept : near.previous with
  | none =>
    cases kept' : far.previous with
    | none =>
      simp only [kept, kept'] at balanced
      exact balanced.symm
    | some old' =>
      simp only [kept, kept'] at balanced
      exact balanced.imp_left fun bound => ⟨bound.1, bound.2.symm⟩
  | some old =>
    cases kept' : far.previous with
    | none =>
      simp only [kept, kept'] at balanced
      exact balanced.imp_left fun bound => ⟨bound.1, bound.2.symm⟩
    | some old' =>
      simp only [kept, kept'] at balanced
      rcases balanced with bound | bound | same
      · exact .inr (.inl bound)
      · exact .inl bound
      · exact .inr (.inr same.symm)

theorem mono {p' q' : Prop} (balanced : Balanced near far p q) (near_bound : p → p')
    (far_bound : q → q') : Balanced near far p' q' := by
  unfold Balanced at *
  cases kept : near.previous with
  | none =>
    cases kept' : far.previous with
    | none => simpa only [kept, kept'] using balanced
    | some old' =>
      simp only [kept, kept'] at balanced
      exact balanced.imp_left (And.imp_left far_bound)
  | some old =>
    cases kept' : far.previous with
    | none =>
      simp only [kept, kept'] at balanced
      exact balanced.imp_left (And.imp_left near_bound)
    | some old' =>
      simp only [kept, kept'] at balanced
      exact balanced.imp (And.imp_left far_bound) (Or.imp_left (And.imp_left near_bound))

/-- A side without an unfinished switch may start one. -/
theorem apply (balanced : Balanced near far p q) (settled : near.previous = none) (new : α)
    (p' : Prop) : Balanced (near.apply new) far p' q := by
  unfold Balanced at *
  cases kept' : far.previous with
  | none =>
    simp only [settled, kept'] at balanced
    exact .inr balanced.symm
  | some old' =>
    simp only [settled, kept'] at balanced
    rcases balanced with bound | same
    · exact .inl ⟨bound.1, bound.2.symm⟩
    · exact .inr (.inr same)

/-- A side may confirm while both sides are on one value; the other side is bound by it. -/
theorem confirm (same : near.active = far.active) (p' : Prop) {q' : Prop} (bound : q') :
    Balanced near.confirm far p' q' := by
  unfold Balanced
  cases kept' : far.previous with
  | none => exact same
  | some old' => exact .inl ⟨bound, same⟩

/-- A side that is not bound may take its switch back. -/
theorem rollback (balanced : Balanced near far p q) (unbound : ¬ p) {old : α}
    (kept : near.previous = some old) (p' : Prop) : Balanced near.rollback far p' q := by
  rw [Side.rollback_of kept]
  unfold Balanced at *
  cases kept' : far.previous with
  | none =>
    simp only [kept, kept'] at balanced
    rcases balanced with bound | same
    · exact absurd bound.1 unbound
    · exact same.symm
  | some old' =>
    simp only [kept, kept'] at balanced
    rcases balanced with bound | bound | same
    · exact .inl ⟨bound.1, bound.2.symm⟩
    · exact absurd bound.1 unbound
    · exact .inr same

/-- Rolling back at most once at each side brings both to one value. -/
theorem mend (balanced : Balanced near far p q) :
    ∃ near' ∈ [near, near.rollback], ∃ far' ∈ [far, far.rollback], near'.active = far'.active := by
  unfold Balanced at balanced
  cases kept : near.previous with
  | none =>
    cases kept' : far.previous with
    | none =>
      simp only [kept, kept'] at balanced
      exact ⟨near, by simp, far, by simp, balanced⟩
    | some old' =>
      simp only [kept, kept'] at balanced
      rcases balanced with bound | same
      · exact ⟨near, by simp, far, by simp, bound.2⟩
      · exact ⟨near, by simp, far.rollback, by simp, by rw [Side.rollback_of kept']; exact same⟩
  | some old =>
    cases kept' : far.previous with
    | none =>
      simp only [kept, kept'] at balanced
      rcases balanced with bound | same
      · exact ⟨near, by simp, far, by simp, bound.2⟩
      · exact ⟨near.rollback, by simp, far, by simp, by rw [Side.rollback_of kept]; exact same.symm⟩
    | some old' =>
      simp only [kept, kept'] at balanced
      rcases balanced with bound | bound | same
      · exact ⟨near.rollback, by simp, far, by simp,
          by rw [Side.rollback_of kept]; exact bound.2.symm⟩
      · exact ⟨near, by simp, far.rollback, by simp, by rw [Side.rollback_of kept']; exact bound.2⟩
      · exact ⟨near.rollback, by simp, far.rollback, by simp,
          by rw [Side.rollback_of kept, Side.rollback_of kept']; exact same⟩

theorem holds_of_rollback {s s' : Side α} (member : s' ∈ [s, s.rollback]) : s.Holds s'.active := by
  simp only [List.mem_cons, List.not_mem_nil, or_false] at member
  rcases member with rfl | rfl
  · exact .inl rfl
  · cases kept : s.previous with
    | none =>
      have same : s.rollback = s := by
        unfold Side.rollback
        rw [kept]
      rw [same]
      exact .inl rfl
    | some old =>
      rw [Side.rollback_of kept]
      exact .inr kept

/-- Balanced sides have a value in common. -/
theorem common (balanced : Balanced near far p q) : ∃ x, near.Holds x ∧ far.Holds x := by
  obtain ⟨near', member, far', member', same⟩ := balanced.mend
  exact ⟨near'.active, holds_of_rollback member, same ▸ holds_of_rollback member'⟩

end Balanced

end Switchover
