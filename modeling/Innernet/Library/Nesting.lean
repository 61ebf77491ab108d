import Innernet.Library.Chains
import Mathlib.Data.Set.Disjoint
import Mathlib.Data.Set.BooleanAlgebra
import Mathlib.Order.CompletePartialOrder

/-! Nested ranges: every node has a range of points, strictly inside the range of its parent, and
nodes with the same parent, or with none, have no point in common. Ranges that meet are then ranges
of nodes above one another, and the leaf that holds a point is the only one. -/
namespace Nesting

open Chains

universe u v
variable {ι : Type u} {α : Type v}

structure Nested (parent : ι → Option ι) (range : ι → Set α) : Prop where
  within : ∀ i p, parent i = some p → range i ⊂ range p
  apart : ∀ i j, parent i = parent j → i ≠ j → Disjoint (range i) (range j)
  grounded : WellFounded fun p i => parent i = some p

variable {parent : ι → Option ι} {range : ι → Set α}

theorem Nested.above (nested : Nested parent range) {i a : ι} {n : Nat}
    (reached : climb parent n i = some a) : range i ⊆ range a := by
  induction n generalizing i with
  | zero =>
    cases reached
    exact le_rfl
  | succ n ih =>
    obtain ⟨p, next, rest⟩ := Option.bind_eq_some_iff.mp reached
    exact (nested.within i p next).subset.trans (ih rest)

theorem Nested.strictly (nested : Nested parent range) {i a : ι} {n : Nat}
    (reached : climb parent (n + 1) i = some a) : range i ⊂ range a := by
  obtain ⟨p, next, rest⟩ := Option.bind_eq_some_iff.mp reached
  exact (nested.within i p next).trans_subset (nested.above rest)

theorem Nested.acyclic (nested : Nested parent range) (i : ι) (n : Nat) :
    climb parent (n + 1) i ≠ some i :=
  fun reached => (nested.strictly reached).ne rfl

theorem Nested.root (nested : Nested parent range) (i : ι) :
    ∃ n r, climb parent n i = some r ∧ parent r = none := by
  induction i using nested.grounded.induction with
  | h i ih =>
    cases next : parent i with
    | none => exact ⟨0, i, rfl, next⟩
    | some p =>
      obtain ⟨n, r, reached, top⟩ := ih p next
      refine ⟨n + 1, r, ?_, top⟩
      rw [climb, next]
      exact reached

/-- Of two nodes with a common point one is above the other. -/
theorem Nested.overlap (nested : Nested parent range) {i j : ι} {x : α} (left : x ∈ range i)
    (right : x ∈ range j) :
    (∃ n, climb parent n j = some i) ∨ ∃ n, climb parent n i = some j := by
  have same : ∀ i j, parent i = parent j → x ∈ range i → x ∈ range j → i = j := by
    intro i j level left right
    by_contra different
    exact Set.disjoint_left.mp (nested.apart i j level different) left right
  induction i using nested.grounded.induction with
  | h i ih =>
    cases next : parent i with
    | none =>
      obtain ⟨n, r, reached, top⟩ := nested.root j
      obtain rfl := same i r (next.trans top.symm) left (nested.above reached right)
      exact .inl ⟨n, reached⟩
    | some p =>
      rcases ih p next ((nested.within i p next).subset left) with ⟨n, reached⟩ | ⟨n, reached⟩
      · cases n with
        | zero =>
          cases reached
          refine .inr ⟨1, ?_⟩
          rw [climb, next]
          rfl
        | succ n =>
          -- the child of `p` on the way to `j` has the point as well, so it is `i`
          rw [climb_last, Option.bind_eq_some_iff] at reached
          obtain ⟨i', reached, next'⟩ := reached
          obtain rfl := same i i' (next.trans next'.symm) left (nested.above reached right)
          exact .inl ⟨n, reached⟩
      · refine .inr ⟨n + 1, ?_⟩
        rw [climb, next]
        exact reached

theorem Nested.range_injective (nested : Nested parent range) {i j : ι}
    (some_point : (range i).Nonempty) (equal : range i = range j) : i = j := by
  obtain ⟨x, left⟩ := some_point
  have level : ∀ {n i j}, range i = range j → climb parent n i = some j → i = j := by
    intro n i j equal reached
    cases n with
    | zero => exact Option.some.inj reached
    | succ n => exact absurd equal (nested.strictly reached).ne
  rcases nested.overlap left (equal ▸ left : x ∈ range j) with ⟨n, reached⟩ | ⟨n, reached⟩
  · exact (level equal.symm reached).symm
  · exact level equal reached

/-- A node without children that holds a point of another leaf is that leaf. -/
theorem Nested.leaf_unique (nested : Nested parent range) {i j : ι} {x : α}
    (bottom : ∀ k, parent k ≠ some i) (bottom' : ∀ k, parent k ≠ some j) (left : x ∈ range i)
    (right : x ∈ range j) : i = j := by
  have level : ∀ {n i j}, (∀ k, parent k ≠ some j) → climb parent n i = some j → i = j := by
    intro n i j bottom reached
    cases n with
    | zero => exact Option.some.inj reached
    | succ n =>
      rw [climb_last, Option.bind_eq_some_iff] at reached
      obtain ⟨k, -, next⟩ := reached
      exact absurd next (bottom k)
  rcases nested.overlap left right with ⟨n, reached⟩ | ⟨n, reached⟩
  · exact (level bottom reached).symm
  · exact level bottom' reached

end Nesting
