import Mathlib.Algebra.Order.Ring.Nat
import Mathlib.Tactic.Common
import Mathlib.Tactic.Ring

/-! Token buckets that are refilled when they are drawn from. What is drawn in any window of time
stays within the capacity and what the window refills, and of two buckets drawn from together the
larger stays ahead of the smaller. -/
namespace Buckets

/-- What is in a bucket, and when it was last filled. -/
structure Level where
  tokens : Nat
  last : Nat

variable {rate cap price : Nat}

/-- Fill the bucket for the time that has passed; a clock that goes back fills nothing. -/
def refill (rate cap : Nat) (b : Level) (now : Nat) : Level where
  tokens := min (b.tokens + (now - b.last) * rate) cap
  last := max b.last now

/-- Fill the bucket and take the price out of it, if it holds as much. -/
def draw (rate cap price : Nat) (b : Level) (now : Nat) : Option Level :=
  let filled := refill rate cap b now
  if price ≤ filled.tokens then some { filled with tokens := filled.tokens - price } else none

/-- The level after successful draws at these times. -/
inductive Drawn (rate cap price : Nat) (b : Level) : List Nat → Level → Prop where
  | start : Drawn rate cap price b [] b
  | draw {ns : List Nat} {n : Nat} {c d : Level} : Drawn rate cap price b ns c →
      draw rate cap price c n = some d → Drawn rate cap price b (ns ++ [n]) d

theorem draw_eq (rate cap price : Nat) (b : Level) (now : Nat) : draw rate cap price b now =
    if price ≤ min (b.tokens + (now - b.last) * rate) cap then
      some ⟨min (b.tokens + (now - b.last) * rate) cap - price, max b.last now⟩ else none := rfl

theorem draw_some {b d : Level} {now : Nat} (drawn : draw rate cap price b now = some d) :
    d.tokens + price = min (b.tokens + (now - b.last) * rate) cap ∧ d.last = max b.last now := by
  rw [draw_eq] at drawn
  split at drawn
  · rename_i enough
    cases drawn
    exact ⟨Nat.sub_add_cancel enough, rfl⟩
  · cases drawn

theorem draw_isSome {b : Level} {now : Nat} : (draw rate cap price b now).isSome = true ↔
    price ≤ min (b.tokens + (now - b.last) * rate) cap := by
  rw [draw_eq]
  split
  · rename_i enough
    simpa using enough
  · rename_i short
    simpa using short

namespace Drawn

variable {b c : Level} {ns : List Nat}

theorem last_le (drawn : Drawn rate cap price b ns c) {bound : Nat} (before : b.last ≤ bound)
    (all : ∀ n ∈ ns, n ≤ bound) : c.last ≤ bound := by
  induction drawn with
  | start => exact before
  | @draw ns n c d _ last ih =>
    rw [(draw_some last).2]
    exact max_le (ih fun m member => all m (List.mem_append_left _ member)) (all n (by simp))

/-- The draws of a window cost at most a full bucket and what the window refills. -/
theorem window (drawn : Drawn rate cap price b ns c)
    (after : ∀ n ∈ ns, b.last ≤ n) (ordered : ns.Pairwise (· ≤ ·)) (start length : Nat) :
    price * ns.countP (fun n => start ≤ n ∧ n ≤ start + length) ≤ cap + rate * length := by
  -- what the window has cost so far is covered by what it has refilled so far
  suffices covered : ∀ k, k = ns.countP (fun n => start ≤ n ∧ n ≤ start + length) →
      (k = 0 ∨ start ≤ c.last) ∧
      (k ≠ 0 → c.last ≤ start + length → price * k + c.tokens ≤ cap + (c.last - start) * rate) ∧
      price * k ≤ cap + rate * length from (covered _ rfl).2.2
  induction drawn with
  | start =>
    rintro k rfl
    simp
  | @draw ns n c d before last ih =>
    rintro k rfl
    rw [List.pairwise_append] at ordered
    obtain ⟨sorted, -, below⟩ := ordered
    have earlier : c.last ≤ n := before.last_le (after n (by simp)) fun m member =>
      below m member n (List.mem_singleton_self n)
    obtain ⟨reached, within, total⟩ :=
      ih (fun m member => after m (List.mem_append_left _ member)) sorted _ rfl
    obtain ⟨taken, stamp⟩ := draw_some last
    rw [max_eq_right earlier] at stamp
    rw [List.countP_append]
    generalize ns.countP (fun n => start ≤ n ∧ n ≤ start + length) = k at reached within total ⊢
    by_cases inside : start ≤ n ∧ n ≤ start + length
    · have one : [n].countP (fun n => start ≤ n ∧ n ≤ start + length) = 1 := by simp [inside]
      rw [one, stamp]
      have spent : price * (k + 1) + d.tokens ≤ cap + (n - start) * rate := by
        by_cases first : k = 0
        · subst first
          omega
        · have started := reached.resolve_left first
          have before := within first (earlier.trans inside.2)
          have split : (n - start) * rate = (c.last - start) * rate + (n - c.last) * rate := by
            rw [← Nat.add_mul]
            congr 1
            omega
          have price_succ : price * (k + 1) = price * k + price := by ring
          omega
      refine ⟨.inr inside.1, fun _ _ => spent, ?_⟩
      have fills : (n - start) * rate ≤ rate * length := by
        rw [Nat.mul_comm]
        exact Nat.mul_le_mul_left _ (by omega)
      omega
    · have none : [n].countP (fun n => start ≤ n ∧ n ≤ start + length) = 0 := by simp [inside]
      rw [none, stamp, Nat.add_zero]
      refine ⟨?_, fun some late => ?_, total⟩
      · rcases reached with zero | started
        · exact .inl zero
        · exact .inr (started.trans earlier)
      · exact absurd ⟨(reached.resolve_left some).trans earlier, late⟩ inside

/-- A bucket that is drawn from together with a smaller one stays ahead of it. -/
theorem ahead {rate' cap' : Nat} {b' : Level} (drawn : Drawn rate cap price b ns c)
    (slower : rate' ≤ rate) (smaller : cap' ≤ cap) (same : b'.last = b.last)
    (start : b'.tokens + (cap - cap') ≤ b.tokens) {c' : Level}
    (drawn' : Drawn rate' cap' price b' ns c') :
    c'.last = c.last ∧ c'.tokens + (cap - cap') ≤ c.tokens := by
  induction drawn generalizing c' with
  | start =>
    generalize shape : ([] : List Nat) = ns at drawn'
    cases drawn' with
    | start => exact ⟨same, start⟩
    | draw => simp at shape
  | @draw ns n c d _ last ih =>
    generalize shape : ns ++ [n] = all at drawn'
    cases drawn' with
    | start => simp at shape
    | draw before' last' =>
      obtain ⟨rfl, here⟩ := List.append_inj' shape rfl
      cases here
      obtain ⟨stamps, reserve⟩ := ih before'
      obtain ⟨taken, stamp⟩ := draw_some last
      obtain ⟨taken', stamp'⟩ := draw_some last'
      refine ⟨by rw [stamp, stamp', stamps], ?_⟩
      rw [stamps] at taken'
      have fills : (n - c.last) * rate' ≤ (n - c.last) * rate := Nat.mul_le_mul_left _ slower
      omega

/-- So it can be drawn from, whenever the difference of the two capacities covers the price. -/
theorem ahead_draws {rate' cap' : Nat} {b' : Level} (drawn : Drawn rate cap price b ns c)
    (slower : rate' ≤ rate) (smaller : cap' ≤ cap) (same : b'.last = b.last)
    (start : b'.tokens + (cap - cap') ≤ b.tokens) {c' : Level}
    (drawn' : Drawn rate' cap' price b' ns c') (covers : price ≤ cap - cap') (now : Nat) :
    (Buckets.draw rate cap price c now).isSome = true := by
  have reserve := (drawn.ahead slower smaller same start drawn').2
  rw [draw_isSome]
  omega

end Drawn

end Buckets
