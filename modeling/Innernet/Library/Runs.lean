import Mathlib.Data.List.Induction
import Mathlib.Order.Basic

/-! Runs of a labelled transition system. A run keeps every move it made, so that a law can
speak of the states a run passes through, of the labels it used and of their order. -/
namespace Runs

universe u v

/-- One move: the label taken, between the state before and the state after. -/
structure Move (S : Type u) (L : Type v) where
  before : S
  label : L
  after : S

variable {S : Type u} {L : Type v}

/-- `Run step s ms t`: the moves `ms`, in order, lead from `s` to `t`. -/
inductive Run (step : S → L → S → Prop) (s : S) : List (Move S L) → S → Prop where
  | start : Run step s [] s
  | move {ms : List (Move S L)} {t u : S} {l : L} :
      Run step s ms t → step t l u → Run step s (ms ++ [⟨t, l, u⟩]) u

variable {step : S → L → S → Prop} {s t : S} {ms : List (Move S L)}

/-- What holds at the start and across every allowed move holds at the end. -/
theorem Run.guarded {P : S → Prop} {allowed : Move S L → Prop} (run : Run step s ms t)
    (initial : P s) (preserved : ∀ a l b, P a → step a l b → allowed ⟨a, l, b⟩ → P b)
    (all : ∀ m ∈ ms, allowed m) : P t := by
  induction run with
  | start => exact initial
  | move run taken ih =>
    refine preserved _ _ _ (ih fun m member => all m (by simp [member])) taken (all _ (by simp))

theorem Run.invariant {P : S → Prop} (run : Run step s ms t) (initial : P s)
    (preserved : ∀ a l b, P a → step a l b → P b) : P t :=
  have unguarded : ∀ m ∈ ms, (fun _ : Move S L => True) m := fun _ _ => trivial
  run.guarded initial (fun a l b holds taken _ => preserved a l b holds taken) unguarded

/-- Every move of a run is a step, and the run up to it is a run. -/
theorem Run.reached (run : Run step s ms t) (m : Move S L) (member : m ∈ ms) :
    step m.before m.label m.after ∧
      ∃ past rest, ms = past ++ m :: rest ∧ Run step s past m.before := by
  induction run with
  | start => cases member
  | @move past a b l run taken ih =>
    rcases List.mem_append.mp member with old | new
    · obtain ⟨valid, before, rest, same, prior⟩ := ih old
      exact ⟨valid, before, rest ++ [⟨a, l, b⟩], by simp [same], prior⟩
    · rw [List.mem_singleton] at new
      subst new
      exact ⟨taken, past, [], rfl, run⟩

/-- An invariant along allowed moves holds before every move of the run. -/
theorem Run.before {P : S → Prop} {allowed : Move S L → Prop} (run : Run step s ms t)
    (initial : P s) (preserved : ∀ a l b, P a → step a l b → allowed ⟨a, l, b⟩ → P b)
    (all : ∀ m ∈ ms, allowed m) (m : Move S L) (member : m ∈ ms) : P m.before := by
  obtain ⟨_, past, rest, same, prior⟩ := run.reached m member
  exact prior.guarded initial preserved fun m' earlier => all m' (by simp [same, earlier])

theorem Run.append {ms' : List (Move S L)} {u : S} (first : Run step s ms t)
    (second : Run step t ms' u) : Run step s (ms ++ ms') u := by
  induction second with
  | start => simpa using first
  | move _ taken ih => simpa [List.append_assoc] using ih.move taken

/-- Two moves of a run, the first before the second, with the run between them. -/
theorem Run.between {past rest : List (Move S L)} {m : Move S L}
    (run : Run step s (past ++ m :: rest) t) :
    Run step s past m.before ∧ step m.before m.label m.after ∧ Run step m.after rest t := by
  induction rest using List.reverseRecOn generalizing t with
  | nil =>
    generalize shape : past ++ [m] = all at run
    cases run with
    | start => simp at shape
    | move run taken =>
      obtain ⟨rfl, same⟩ := List.append_inj' shape rfl
      cases same
      exact ⟨run, taken, .start⟩
  | append_singleton rest last ih =>
    generalize shape : past ++ m :: (rest ++ [last]) = all at run
    cases run with
    | start => simp at shape
    | @move all a b l run taken =>
      rw [← List.cons_append, ← List.append_assoc] at shape
      obtain ⟨rfl, same⟩ := List.append_inj' shape rfl
      cases same
      obtain ⟨prior, valid, tail⟩ := ih run
      exact ⟨prior, valid, tail.move taken⟩

/-- Something happened, and nothing that clears it since. -/
def Since (event cleared : Move S L → Prop) (ms : List (Move S L)) : Prop :=
  ∃ past m rest, ms = past ++ m :: rest ∧ event m ∧ ∀ m' ∈ rest, ¬ cleared m'

theorem Since.now {event cleared : Move S L → Prop} {m : Move S L} (happens : event m) :
    Since event cleared (ms ++ [m]) :=
  ⟨ms, m, [], rfl, happens, fun _ member => (nomatch member)⟩

theorem Since.later {event cleared : Move S L → Prop} (since : Since event cleared ms)
    {m : Move S L} (left : ¬ cleared m) : Since event cleared (ms ++ [m]) := by
  obtain ⟨past, m', rest, rfl, happens, quiet⟩ := since
  refine ⟨past, m', rest ++ [m], by simp, happens, ?_⟩
  intro m'' member
  rcases List.mem_append.mp member with earlier | last
  · exact quiet m'' earlier
  · rw [List.mem_singleton] at last
    exact last ▸ left

/-- What happened since, in a run one move longer. -/
theorem Since.last {event cleared : Move S L → Prop} {m : Move S L}
    (since : Since event cleared (ms ++ [m])) :
    event m ∨ (Since event cleared ms ∧ ¬ cleared m) := by
  obtain ⟨past, m', rest, same, happens, quiet⟩ := since
  rcases List.eq_nil_or_concat rest with rfl | ⟨rest', last, rfl⟩
  · obtain ⟨-, here⟩ := List.append_inj' same rfl
    exact .inl (List.singleton_inj.mp here ▸ happens)
  · rw [List.concat_eq_append, ← List.cons_append, ← List.append_assoc] at same
    obtain ⟨earlier, here⟩ := List.append_inj' same rfl
    rw [List.concat_eq_append] at quiet
    refine .inr ⟨⟨past, m', rest', earlier, happens, fun m'' member => ?_⟩, ?_⟩
    · exact quiet m'' (List.mem_append_left _ member)
    · exact quiet m (List.mem_append_right _ (List.mem_singleton.mpr (List.singleton_inj.mp here)))

/-- When an invariant is kept by good moves, and a state is right after a move exactly when the move
was good, then all states of a run are right exactly when all its moves are good. -/
theorem Run.all_iff {P Q : S → Prop} {G : Move S L → Prop} (initial : P s)
    (forward : ∀ a l b, P a → step a l b → G ⟨a, l, b⟩ → P b ∧ Q b)
    (backward : ∀ a l b, P a → step a l b → Q b → G ⟨a, l, b⟩) (run : Run step s ms t) :
    (∀ m ∈ ms, Q m.after) ↔ ∀ m ∈ ms, G m := by
  suffices both : (((∀ m ∈ ms, Q m.after) → P t ∧ ∀ m ∈ ms, G m)) ∧
      ((∀ m ∈ ms, G m) → P t ∧ ∀ m ∈ ms, Q m.after) from
    ⟨fun all => (both.1 all).2, fun all => (both.2 all).2⟩
  induction run with
  | start =>
    exact ⟨fun _ => ⟨initial, fun _ member => (nomatch member)⟩,
      fun _ => ⟨initial, fun _ member => (nomatch member)⟩⟩
  | @move past a b l run taken ih =>
    simp only [List.forall_mem_append, List.forall_mem_singleton]
    constructor
    · rintro ⟨earlier, last⟩
      obtain ⟨holds, all⟩ := ih.1 earlier
      have here := backward a l b holds taken last
      exact ⟨(forward a l b holds taken here).1, all, here⟩
    · rintro ⟨earlier, last⟩
      obtain ⟨holds, all⟩ := ih.2 earlier
      have here := forward a l b holds taken last
      exact ⟨here.1, all, here.2⟩

section Deterministic

/-- A system whose labels carry every choice is a partial function. -/
def Taken (next : S → L → Option S) (s : S) (l : L) (t : S) : Prop := next s l = some t

/-- The moves of the labels `ls` from `s`, when all of them can be taken. -/
def execute (next : S → L → Option S) : S → List L → Option (List (Move S L) × S)
  | s, [] => some ([], s)
  | s, l :: ls =>
    (next s l).bind fun t => (execute next t ls).map fun tail => (⟨s, l, t⟩ :: tail.1, tail.2)

variable {next : S → L → Option S}

theorem execute_run {ls : List L} (executed : execute next s ls = some (ms, t)) :
    Run (Taken next) s ms t := by
  induction ls generalizing s ms with
  | nil =>
    cases executed
    exact .start
  | cons l ls ih =>
    simp only [execute, Option.bind_eq_some_iff, Option.map_eq_some_iff] at executed
    obtain ⟨m, taken, ⟨rest, u⟩, tail, same⟩ := executed
    cases same
    exact (Run.start.move taken).append (ih tail)

theorem execute_labels {ls : List L} (executed : execute next s ls = some (ms, t)) :
    ms.map Move.label = ls := by
  induction ls generalizing s ms with
  | nil =>
    cases executed
    rfl
  | cons l ls ih =>
    simp only [execute, Option.bind_eq_some_iff, Option.map_eq_some_iff] at executed
    obtain ⟨m, -, ⟨rest, u⟩, tail, same⟩ := executed
    cases same
    rw [List.map_cons, ih tail]

theorem execute_reaches {ls : List L} {good : S → Bool}
    (checked : ((execute next s ls).any fun r => good r.2) = true) :
    ∃ ms t, Run (Taken next) s ms t ∧ ms.map Move.label = ls ∧ good t = true := by
  obtain ⟨⟨ms, t⟩, executed, holds⟩ := (Option.any_eq_true _ _).mp checked
  exact ⟨ms, t, execute_run executed, execute_labels executed, holds⟩

/-- A total system moves on every label. -/
def trace (total : S → L → S) : S → List L → List (Move S L)
  | _, [] => []
  | s, l :: ls => ⟨s, l, total s l⟩ :: trace total (total s l) ls

theorem trace_run (total : S → L → S) (s : S) (ls : List L) :
    Run (fun a l b => b = total a l) s (trace total s ls) (ls.foldl total s) := by
  induction ls generalizing s with
  | nil => exact .start
  | cons l ls ih => exact (Run.start.move rfl).append (ih (total s l))

theorem trace_labels (total : S → L → S) (s : S) (ls : List L) :
    (trace total s ls).map Move.label = ls := by
  induction ls generalizing s with
  | nil => rfl
  | cons l ls ih => exact congrArg (l :: ·) (ih (total s l))

/-- Take the labels one after the other, as long as every move is allowed. -/
def follow (total : S → L → S) (allowed : Move S L → Prop) [DecidablePred allowed] :
    S → List L → Option S
  | s, [] => some s
  | s, l :: ls =>
    if allowed ⟨s, l, total s l⟩ then follow total allowed (total s l) ls else none

theorem follow_run {total : S → L → S} {allowed : Move S L → Prop} [DecidablePred allowed]
    {ls : List L} {good : S → Bool} (checked : (follow total allowed s ls).any good = true) :
    ∃ ms t, Run (fun a l b => b = total a l) s ms t ∧ (∀ m ∈ ms, allowed m) ∧ good t = true := by
  induction ls generalizing s with
  | nil => exact ⟨[], s, .start, fun _ member => (nomatch member), checked⟩
  | cons l ls ih =>
    unfold follow at checked
    split at checked
    · rename_i permitted
      obtain ⟨ms, t, run, all, holds⟩ := ih checked
      refine ⟨[] ++ [⟨s, l, total s l⟩] ++ ms, t, (Run.start.move rfl).append run, ?_, holds⟩
      intro m member
      rw [List.nil_append, List.singleton_append, List.mem_cons] at member
      rcases member with rfl | later
      · exact permitted
      · exact all m later
    · cases checked

end Deterministic

/-- Values that stay used up once they are, where every event's value is above all that is used up
before it and used up after it: the events of a run are strictly increasing. -/
theorem Run.increasing {α : Type*} [Preorder α] {P : S → Prop} (event : Move S L → Option α)
    (used : S → α → Prop) (run : Run step s ms t) (initial : P s)
    (preserved : ∀ a l b, P a → step a l b → P b ∧ ∀ v, used a v → used b v)
    (raised : ∀ a l b v, P a → step a l b → event ⟨a, l, b⟩ = some v →
      (∀ w, used a w → w < v) ∧ used b v) :
    (ms.filterMap event).Pairwise (· < ·) := by
  suffices strong : P t ∧ (ms.filterMap event).Pairwise (· < ·) ∧
      ∀ v ∈ ms.filterMap event, used t v from strong.2.1
  induction run with
  | start => exact ⟨initial, by simp, by simp⟩
  | @move past a b l run taken ih =>
    obtain ⟨holds, ordered, all⟩ := ih
    have next := preserved a l b holds taken
    rw [List.filterMap_append]
    cases found : event ⟨a, l, b⟩ with
    | none =>
      simp only [List.filterMap_cons, found, List.filterMap_nil, List.append_nil]
      exact ⟨next.1, ordered, fun v member => next.2 v (all v member)⟩
    | some v =>
      have new := raised a l b v holds taken found
      simp only [List.filterMap_cons, found, List.filterMap_nil]
      refine ⟨next.1, ?_, ?_⟩
      · rw [List.pairwise_append]
        refine ⟨ordered, by simp, ?_⟩
        intro w earlier x last
        rw [List.mem_singleton] at last
        exact last ▸ new.1 w (all w earlier)
      · intro w member
        rcases List.mem_append.mp member with earlier | last
        · exact next.2 w (all w earlier)
        · rw [List.mem_singleton] at last
          exact last ▸ new.2

end Runs
