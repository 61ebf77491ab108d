import Mathlib.Data.Finset.Card
import Mathlib.Data.Fintype.Basic

/-! Chains of a partial function: the points it passes through, one application after the other.
Where only finitely many points have a successor, a chain need not be longer than there are. -/
namespace Chains

universe u
variable {α : Type u}

/-- The point after `n` applications. -/
def climb (f : α → Option α) : Nat → α → Option α
  | 0, a => some a
  | n + 1, a => (f a).bind (climb f n)

variable {f g : α → Option α} {a b : α} {m n : Nat}

theorem climb_add (f : α → Option α) (m n : Nat) (a : α) :
    climb f (m + n) a = (climb f m a).bind (climb f n) := by
  induction m generalizing a with
  | zero => rw [Nat.zero_add, climb, Option.bind_some]
  | succ m ih =>
    rw [Nat.succ_add, climb, climb, Option.bind_assoc]
    exact Option.bind_congr fun b _ => ih b

theorem climb_last (f : α → Option α) (n : Nat) (a : α) :
    climb f (n + 1) a = (climb f n a).bind f := by
  rw [climb_add]
  refine Option.bind_congr fun b _ => ?_
  change (f b).bind some = f b
  exact Option.bind_fun_some (f b)

/-- A chain passes every point before its end. -/
theorem climb_prefix (reached : climb f (m + n) a = some b) :
    ∃ c, climb f m a = some c ∧ climb f n c = some b := by
  rw [climb_add, Option.bind_eq_some_iff] at reached
  exact reached

/-- A chain runs along another function that agrees on the points it passes. -/
theorem climb_along {P : α → Prop} (agree : ∀ a b, P a → f a = some b → g a = some b ∧ P b)
    (start : P a) (reached : climb f n a = some b) : climb g n a = some b ∧ P b := by
  induction n generalizing a with
  | zero =>
    cases reached
    exact ⟨rfl, start⟩
  | succ n ih =>
    obtain ⟨c, next, rest⟩ := Option.bind_eq_some_iff.mp reached
    obtain ⟨same, passed⟩ := agree a c start next
    obtain ⟨reached, holds⟩ := ih passed rest
    rw [climb, same]
    exact ⟨reached, holds⟩

/-- Every end of a chain is the end of one without a repetition, so of one no longer than the list
of the points with a successor; it is shorter when the end is among them too. -/
theorem climb_short [DecidableEq α] (keys : List α) (within : ∀ a b, f a = some b → a ∈ keys)
    (reached : climb f n a = some b) :
    ∃ m ≤ keys.length, climb f m a = some b ∧ (b ∈ keys → m < keys.length) := by
  have some_chain : ∃ m, climb f m a = some b := ⟨n, reached⟩
  obtain ⟨m, shortest, least⟩ : ∃ m, climb f m a = some b ∧ ∀ i < m, climb f i a ≠ some b :=
    ⟨Nat.find some_chain, Nat.find_spec some_chain, fun i => Nat.find_min some_chain⟩
  have points : ∀ i ≤ m, ∃ c, climb f i a = some c ∧ climb f (m - i) c = some b := by
    intro i before
    rw [← Nat.add_sub_cancel' before] at shortest
    exact climb_prefix shortest
  -- a repeated point would cut the chain short
  have distinct : ∀ i ≤ m, ∀ j ≤ m, climb f i a = climb f j a → i = j := by
    have ascending : ∀ i ≤ m, ∀ j ≤ m, i < j → climb f i a ≠ climb f j a := by
      intro i _ j before earlier same
      obtain ⟨c, there, rest⟩ := points j before
      refine least (i + (m - j)) (by omega) ?_
      rw [climb_add, same, there]
      exact rest
    intro i before j before' same
    rcases Nat.lt_trichotomy i j with less | equal | less
    · exact absurd same (ascending i before j before' less)
    · exact equal
    · exact absurd same.symm (ascending j before' i before less)
  have passes : ∀ i < m, ∃ c ∈ keys, climb f i a = some c := by
    intro i before
    obtain ⟨c, there, rest⟩ := points i before.le
    obtain ⟨d, next, -⟩ : ∃ d, f c = some d ∧ climb f (m - i - 1) d = some b := by
      rw [show m - i = m - i - 1 + 1 by omega] at rest
      exact Option.bind_eq_some_iff.mp rest
    exact ⟨c, within c d next, there⟩
  have bounded : ∀ k, k ≤ m + 1 → (∀ i < k, ∃ c ∈ keys, climb f i a = some c) →
      k ≤ keys.length := by
    intro k limit all
    have mapped : ∀ i ∈ Finset.range k, climb f i a ∈ (keys.map some).toFinset := by
      intro i member
      obtain ⟨c, listed, there⟩ := all i (Finset.mem_range.mp member)
      rw [List.mem_toFinset, there]
      exact List.mem_map_of_mem listed
    have injective : Set.InjOn (fun i => climb f i a) (Finset.range k) := by
      intro i member j member' same
      have before := Finset.mem_range.mp (Finset.mem_coe.mp member)
      have before' := Finset.mem_range.mp (Finset.mem_coe.mp member')
      exact distinct i (by omega) j (by omega) same
    calc k = (Finset.range k).card := (Finset.card_range k).symm
      _ ≤ (keys.map some).toFinset.card := Finset.card_le_card_of_injOn _ mapped injective
      _ ≤ (keys.map some).length := List.toFinset_card_le _
      _ = keys.length := List.length_map _
  refine ⟨m, bounded m (by omega) passes, shortest, fun last => ?_⟩
  refine bounded (m + 1) le_rfl fun i before => ?_
  rcases Nat.lt_succ_iff_lt_or_eq.mp before with earlier | rfl
  · exact passes i earlier
  · exact ⟨b, last, shortest⟩

end Chains
