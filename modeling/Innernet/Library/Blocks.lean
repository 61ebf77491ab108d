import Mathlib.Data.Nat.Bitwise
import Mathlib.Data.Set.Basic
import Mathlib.Data.Set.BooleanAlgebra
import Mathlib.Order.CompletePartialOrder

/-! Blocks of numbers of a fixed width that share their leading bits, given by the number of bits
that are free. Two blocks that meet are nested, the one with more free bits outside. -/
namespace Blocks

/-- The numbers of `width` bits that agree with `x` above the lowest `free` bits. -/
def block (width free x : Nat) : Set Nat := {y | y < 2 ^ width ∧ y >>> free = x >>> free}

variable {width free free' x x' : Nat}

theorem agree_above {y : Nat} (less : free ≤ free') (agree : y >>> free = x >>> free) :
    y >>> free' = x >>> free' := by
  obtain ⟨k, rfl⟩ := Nat.exists_eq_add_of_le less
  rw [Nat.shiftRight_add, Nat.shiftRight_add, agree]

/-- With fewer free bits a block lies in any other it meets. -/
theorem block_subset (less : free ≤ free') {y : Nat} (left : y ∈ block width free x)
    (right : y ∈ block width free' x') : block width free x ⊆ block width free' x' := by
  intro z member
  refine ⟨member.1, ?_⟩
  rw [agree_above less (member.2.trans left.2.symm), right.2]

/-- The number that differs in the first bit that counts. -/
theorem exists_outside (short : free < width) (bound : x < 2 ^ width) :
    ∃ y < 2 ^ width, y >>> free ≠ x >>> free ∧ y >>> (free + 1) = x >>> (free + 1) := by
  refine ⟨x ^^^ 2 ^ free, Nat.xor_lt_two_pow bound (Nat.pow_lt_pow_right Nat.one_lt_two short),
    ?_, ?_⟩
  · rw [Nat.shiftRight_xor_distrib, Nat.shiftRight_eq_div_pow (2 ^ free),
      Nat.div_self (Nat.two_pow_pos free)]
    intro same
    have flipped : x >>> free ^^^ (x >>> free ^^^ 1) = 0 := by rw [same, Nat.xor_self]
    rw [← Nat.xor_assoc, Nat.xor_self, Nat.zero_xor] at flipped
    exact absurd flipped Nat.one_ne_zero
  · rw [Nat.shiftRight_xor_distrib, Nat.shiftRight_eq_div_pow (2 ^ free),
      Nat.div_eq_of_lt (Nat.pow_lt_pow_right Nat.one_lt_two (Nat.lt_succ_self free)), Nat.xor_zero]

theorem block_ssubset (less : free < free') (short : free' ≤ width) {y : Nat}
    (left : y ∈ block width free x) (right : y ∈ block width free' x') :
    block width free x ⊂ block width free' x' := by
  refine (Set.ssubset_iff_of_subset (block_subset less.le left right)).mpr ?_
  obtain ⟨z, bound, differs, agrees⟩ :=
    exists_outside (Nat.lt_of_lt_of_le less short) left.1
  refine ⟨z, ⟨bound, ?_⟩, fun inside => differs (inside.2.trans left.2.symm)⟩
  rw [agree_above less agrees, right.2]

/-- A block that lies in another has no more free bits. -/
theorem free_le_of_subset (short : free ≤ width) {y : Nat} (point : y ∈ block width free x)
    (inside : block width free x ⊆ block width free' x') : free ≤ free' := by
  by_contra more
  exact (block_ssubset (Nat.lt_of_not_le more) short (inside point) point).not_subset inside

end Blocks
