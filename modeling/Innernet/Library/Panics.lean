import Innernet.Library.Fallible

/-! Computations that end in a value, in an error or in a panic, and the operations that panic when
they are out of range. -/
namespace Panics

open Fallible

universe u v

/-- What a computation stops with when it has no value. -/
inductive Fault (ε : Type u) where
  | error (e : ε)
  | panic
  deriving DecidableEq

abbrev Outcome (ε : Type u) (α : Type v) := Except (Fault ε) α

variable {ε : Type u} {α : Type v}

/-- `?` on a result that cannot panic. -/
def lift (x : Except ε α) : Outcome ε α := x.mapError .error

@[simp] theorem lift_ok {x : Except ε α} {a : α} : lift x = .ok a ↔ x = .ok a := by
  cases x <;> simp [lift, Except.mapError]

@[simp] theorem lift_panic {x : Except ε α} : lift x ≠ .error .panic := by
  cases x <;> simp [lift, Except.mapError]

theorem lift_bind {α β : Type v} (a : α) (f : α → Outcome ε β) : (lift (.ok a) >>= f) = f a := rfl

section Stateful

variable {σ β : Type u}

theorem stateful_ok {α : Type u} {x : StateT σ (Except ε) α} {f : α → StateT σ (Except ε) β} {s : σ}
    {r : β × σ} : (x >>= f) s = .ok r ↔ ∃ a s', x s = .ok (a, s') ∧ f a s' = .ok r := by
  change (x s >>= fun p => f p.1 p.2) = _ ↔ _
  rw [bind_ok, Prod.exists]

@[simp] theorem stateful_pure {α : Type u} {a : α} {s : σ} {r : α × σ} :
    (pure a : StateT σ (Except ε) α) s = .ok r ↔ r = (a, s) := by
  change Except.ok (a, s) = .ok r ↔ _
  rw [Except.ok.injEq, eq_comm]

theorem stateful_error {α : Type u} {x : StateT σ (Except ε) α} {f : α → StateT σ (Except ε) β}
    {s : σ} {e : ε} :
    (x >>= f) s = .error e ↔ x s = .error e ∨ ∃ a s', x s = .ok (a, s') ∧ f a s' = .error e := by
  change (x s >>= fun p => f p.1 p.2) = _ ↔ _
  rw [bind_error, Prod.exists]

/-- A stop that neither the first computation nor its continuation comes to. -/
theorem stateful_ne_error {α : Type u} {x : StateT σ (Except ε) α}
    {f : α → StateT σ (Except ε) β} {s : σ} {e : ε} (first : x s ≠ .error e)
    (rest : ∀ a s', x s = .ok (a, s') → f a s' ≠ .error e) : (x >>= f) s ≠ .error e := by
  intro stopped
  rcases stateful_error.mp stopped with here | ⟨a, s', done, later⟩
  · exact first here
  · exact rest a s' done later

/-- A computation that panics from no state. -/
def Quiet {α : Type u} (x : StateT σ (Outcome ε) α) : Prop :=
  ∀ s, x s ≠ .error .panic

theorem quiet_pure {α : Type u} {a : α} :
    Quiet (pure a : StateT σ (Outcome ε) α) := by
  intro s panicked
  cases panicked

theorem quiet_bind {α : Type u} {x : StateT σ (Outcome ε) α}
    {f : α → StateT σ (Outcome ε) β} (first : Quiet x) (rest : ∀ a, Quiet (f a)) :
    Quiet (x >>= f) :=
  fun s => stateful_ne_error (first s) fun a s' _ => rest a s'

end Stateful

/-- `&bytes[start..stop]`. -/
def slice (bytes : List α) (start stop : Nat) : Outcome ε (List α) :=
  if start ≤ stop ∧ stop ≤ bytes.length then .ok ((bytes.take stop).drop start) else .error .panic

theorem slice_ok {bytes part : List α} {start stop : Nat} :
    slice (ε := ε) bytes start stop = .ok part ↔
      (start ≤ stop ∧ stop ≤ bytes.length) ∧ (bytes.take stop).drop start = part := by
  unfold slice
  split
  · rename_i inside
    simp [inside]
  · rename_i outside
    constructor
    · intro done
      cases done
    · rintro ⟨inside, -⟩
      exact absurd inside outside

theorem slice_panic {bytes : List α} {start stop : Nat} :
    slice (ε := ε) bytes start stop = .error .panic ↔ ¬ (start ≤ stop ∧ stop ≤ bytes.length) := by
  unfold slice
  split <;> simp_all

end Panics
