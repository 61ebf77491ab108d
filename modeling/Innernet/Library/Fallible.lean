import Mathlib.Tactic.Common

/-! Computations that may fail, read backwards: from a success to the successes it was made of. -/
namespace Fallible

universe u
variable {ε : Type*} {α β : Type u}

/-- Fail with `e` unless the condition holds. -/
def require (p : Prop) [Decidable p] (e : ε) : Except ε PUnit.{u + 1} :=
  if p then .ok ⟨⟩ else .error e

@[simp] theorem bind_ok {x : Except ε α} {f : α → Except ε β} {b : β} :
    (x >>= f) = .ok b ↔ ∃ a, x = .ok a ∧ f a = .ok b := by
  cases x with
  | error e =>
    constructor
    · intro done
      cases done
    · rintro ⟨_, done, _⟩
      cases done
  | ok a =>
    constructor
    · exact fun done => ⟨a, rfl, done⟩
    · rintro ⟨_, same, done⟩
      cases same
      exact done

@[simp] theorem pure_ok {a b : α} : (pure a : Except ε α) = .ok b ↔ a = b :=
  ⟨Except.ok.inj, congrArg Except.ok⟩

@[simp] theorem map_ok {x : Except ε α} {f : α → β} {b : β} :
    (f <$> x) = .ok b ↔ ∃ a, x = .ok a ∧ f a = b := by
  rw [← bind_pure_comp]
  simp only [bind_ok, pure_ok]

@[simp] theorem require_ok {p : Prop} [Decidable p] {e : ε} {u : PUnit.{u + 1}} :
    require p e = .ok u ↔ p := by
  unfold require
  split <;> simp_all

/-- A failure is the failure of the first computation, or of what follows its success. -/
theorem bind_error {x : Except ε α} {f : α → Except ε β} {e : ε} :
    (x >>= f) = .error e ↔ x = .error e ∨ ∃ a, x = .ok a ∧ f a = .error e := by
  cases x with
  | error e' =>
    constructor
    · intro failed
      cases failed
      exact .inl rfl
    · rintro (failed | ⟨_, done, _⟩)
      · cases failed
        rfl
      · cases done
  | ok a =>
    constructor
    · exact fun failed => .inr ⟨a, rfl, failed⟩
    · rintro (failed | ⟨_, same, failed⟩)
      · cases failed
      · cases same
        exact failed

theorem require_error {p : Prop} [Decidable p] {e e' : ε} :
    (require p e : Except ε PUnit.{u + 1}) = .error e' ↔ ¬ p ∧ e = e' := by
  unfold require
  split <;> simp_all

theorem require_ne_error {p : Prop} [Decidable p] {e e' : ε} (other : e ≠ e') :
    (require p e : Except ε PUnit.{u + 1}) ≠ .error e' :=
  fun failed => other (require_error.mp failed).2

/-- A failure neither the first computation nor its continuation has. -/
theorem bind_ne_error {x : Except ε α} {f : α → Except ε β} {e : ε} (first : x ≠ .error e)
    (rest : ∀ a, x = .ok a → f a ≠ .error e) : (x >>= f) ≠ .error e := by
  intro failed
  rcases bind_error.mp failed with here | ⟨a, done, later⟩
  · exact first here
  · exact rest a done later

theorem toOption_some {x : Except ε α} {a : α} : x.toOption = some a ↔ x = .ok a := by
  cases x <;> simp [Except.toOption]

/-- A check made on every element of a list passes when it passes on each. -/
theorem forM_ok {γ : Type*} {f : γ → Except ε PUnit} {xs : List γ} :
    xs.forM f = .ok ⟨⟩ ↔ ∀ x ∈ xs, f x = .ok ⟨⟩ := by
  induction xs with
  | nil => simp [List.forM, pure, Except.pure]
  | cons x xs ih =>
    have split : (x :: xs).forM f = (f x >>= fun _ => xs.forM f) := rfl
    rw [split, bind_ok, List.forall_mem_cons, ih]
    constructor
    · rintro ⟨_, here, rest⟩
      exact ⟨here, rest⟩
    · rintro ⟨here, rest⟩
      exact ⟨_, here, rest⟩

/-- What a mapped list holds is the outcome of one of the elements. -/
theorem mapM_mem {γ : Type*} {f : γ → Except ε α} {xs : List γ} {ys : List α}
    (mapped : xs.mapM f = .ok ys) : ∀ y ∈ ys, ∃ x ∈ xs, f x = .ok y := by
  induction xs generalizing ys with
  | nil =>
    cases mapped
    simp
  | cons x xs ih =>
    rw [List.mapM_cons] at mapped
    simp only [bind_ok, pure_ok] at mapped
    obtain ⟨y, here, ys', rest, rfl⟩ := mapped
    intro z member
    rcases List.mem_cons.mp member with rfl | later
    · exact ⟨x, List.mem_cons_self, here⟩
    · obtain ⟨x', member', done⟩ := ih rest z later
      exact ⟨x', List.mem_cons_of_mem _ member', done⟩

/-- A list is mapped when each of its elements is. -/
theorem mapM_total {γ : Type*} {f : γ → Except ε α} {xs : List γ}
    (each : ∀ x ∈ xs, ∃ y, f x = .ok y) : ∃ ys, xs.mapM f = .ok ys := by
  induction xs with
  | nil => exact ⟨[], rfl⟩
  | cons x xs ih =>
    rw [List.forall_mem_cons] at each
    obtain ⟨y, here⟩ := each.1
    obtain ⟨ys, rest⟩ := ih each.2
    refine ⟨y :: ys, ?_⟩
    rw [List.mapM_cons]
    simp only [bind_ok, pure_ok]
    exact ⟨y, here, ys, rest, rfl⟩

/-- The results of a mapped list have what each result has. -/
theorem mapM_some {γ δ : Type*} {f : γ → Option δ} {P : δ → Prop} {xs : List γ}
    (each : ∀ x ∈ xs, ∃ y, f x = some y ∧ P y) :
    ∃ ys, xs.mapM f = some ys ∧ ∀ y ∈ ys, P y := by
  induction xs with
  | nil => exact ⟨[], rfl, by simp⟩
  | cons x xs ih =>
    rw [List.forall_mem_cons] at each
    obtain ⟨y, here, holds⟩ := each.1
    obtain ⟨ys, rest, all⟩ := ih each.2
    refine ⟨y :: ys, ?_, List.forall_mem_cons.mpr ⟨holds, all⟩⟩
    simp [List.mapM_cons, here, rest]

/-- What defines more maps no less. -/
theorem mapM_weaken {γ δ : Type*} {f g : γ → Option δ} (weaker : ∀ x y, f x = some y → g x = some y)
    {xs : List γ} {ys : List δ} (mapped : xs.mapM f = some ys) : xs.mapM g = some ys := by
  induction xs generalizing ys with
  | nil => exact mapped
  | cons x xs ih =>
    simp only [List.mapM_cons, Option.bind_eq_bind, Option.bind_eq_some_iff, Option.pure_def]
      at mapped ⊢
    obtain ⟨y, here, ys', rest, same⟩ := mapped
    exact ⟨y, weaker x y here, ys', ih rest, same⟩

/-- Every computation succeeds or fails. -/
theorem ok_or_error (x : Except ε α) : (∃ a, x = .ok a) ∨ ∃ e, x = .error e := by
  cases x with
  | ok a => exact .inl ⟨a, rfl⟩
  | error e => exact .inr ⟨e, rfl⟩

end Fallible
