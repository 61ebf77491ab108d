import Mathlib.Algebra.Order.Ring.Nat
import Mathlib.Data.List.Sort

/-! Reading a list in pages: what is left of an ascending list after a key, pages that take what
fits, and what they weigh. -/
namespace Paging

universe u v w
variable {α : Type u} {κ : Type v} {σ : Type w}

section Keyset

variable [LinearOrder κ] (key : α → κ) {l rest : List α} {a : α} {after : κ}

def Ascending (l : List α) : Prop := l.Pairwise fun a b => key a < key b

/-- `WHERE key > after ORDER BY key`. -/
def remaining (after : κ) (l : List α) : List α :=
  (l.insertionSort fun a b => key a ≤ key b).filter fun a => after < key a

/-- The same with `LIMIT 1`. -/
def next (after : κ) (l : List α) : Option α :=
  (l.insertionSort fun a b => key a ≤ key b).find? fun a => after < key a

variable {key}

theorem next_eq : next key after l = (remaining key after l).head? := (List.head?_filter ..).symm

theorem mem_remaining : a ∈ remaining key after l ↔ a ∈ l ∧ after < key a := by
  rw [remaining, List.mem_filter, List.mem_insertionSort, decide_eq_true_eq]

theorem remaining_length (key : α → κ) (after : κ) (l : List α) :
    (remaining key after l).length ≤ l.length :=
  (List.length_filter_le ..).trans_eq (List.length_insertionSort ..)

/-- Where no key is repeated the rows that remain are in order. -/
theorem remaining_ascending (after : κ) (distinct : (l.map key).Nodup) :
    Ascending key (remaining key after l) := by
  have sorted : (l.insertionSort fun a b => key a ≤ key b).Pairwise fun a b => key a ≤ key b :=
    List.pairwise_insertionSort _ l
  have apart : ((l.insertionSort fun a b => key a ≤ key b).map key).Nodup :=
    ((List.perm_insertionSort _ l).map key).nodup_iff.mpr distinct
  rw [List.Nodup, List.pairwise_map] at apart
  exact ((sorted.and apart).imp fun both => lt_of_le_of_ne both.1 both.2).filter _

/-- What remains after a key that comes later is part of it. -/
theorem remaining_remaining {later : κ} (le : after ≤ later) :
    (remaining key after l).filter (fun a => later < key a) = remaining key later l := by
  rw [remaining, remaining, List.filter_filter]
  refine List.filter_congr fun b _ => ?_
  simp only [Bool.and_eq_left_iff_imp, decide_eq_true_eq]
  exact le.trans_lt

/-- A later key leaves no more rows. -/
theorem remaining_fewer {later : κ} (le : after ≤ later) :
    (remaining key later l).length ≤ (remaining key after l).length := by
  rw [← remaining_remaining le]
  exact List.length_filter_le ..

/-- The key of a row that remains leaves fewer. -/
theorem remaining_less (left : a ∈ remaining key after l) :
    (remaining key (key a) l).length < (remaining key after l).length := by
  rw [← remaining_remaining (mem_remaining.mp left).2.le]
  exact List.length_filter_lt_length_iff_exists.mpr ⟨a, left, by simp⟩

/-- After the first row the others remain. -/
theorem remaining_next (distinct : (l.map key).Nodup) (left : remaining key after l = a :: rest) :
    remaining key (key a) l = rest := by
  have above : after < key a := (mem_remaining.mp (left ▸ List.mem_cons_self)).2
  have tail : ∀ b ∈ rest, key a < key b := by
    have sorted := remaining_ascending after distinct
    rw [left] at sorted
    exact fun b member => List.rel_of_pairwise_cons sorted member
  rw [← remaining_remaining above.le, left, List.filter_cons, if_neg (by simp),
    List.filter_eq_self]
  exact fun b member => decide_eq_true (tail b member)

end Keyset

section Filling

/-- Take items while they fit, at most so many: the page, what is left, and the room that is left. -/
def fill (takes : σ → α → Option σ) : Nat → σ → List α → List α × List α × σ
  | 0, s, l => ([], l, s)
  | _ + 1, s, [] => ([], [], s)
  | n + 1, s, a :: l =>
    match takes s a with
    | none => ([], a :: l, s)
    | some s' => (a :: (fill takes n s' l).1, (fill takes n s' l).2)

variable {takes : σ → α → Option σ} {n : Nat} {s s' : σ} {l : List α}

theorem fill_append : (fill takes n s l).1 ++ (fill takes n s l).2.1 = l := by
  induction n, s, l using fill.induct takes with
  | case1 => rfl
  | case2 => rfl
  | case3 n s a l full => simp [fill, full]
  | case4 n s a l s' fits ih => simp [fill, fits, ih]

theorem fill_length : (fill takes n s l).1.length ≤ n := by
  induction n, s, l using fill.induct takes with
  | case1 => simp [fill]
  | case2 => simp [fill]
  | case3 n s a l full => simp [fill, full]
  | case4 n s a l s' fits ih => simp [fill, fits, ih]

/-- What every item that is taken keeps of the room holds of the room in the end. -/
theorem fill_room {P : σ → Prop} (initial : P s)
    (kept : ∀ s a s', P s → takes s a = some s' → P s') : P (fill takes n s l).2.2 := by
  induction n, s, l using fill.induct takes with
  | case1 => exact initial
  | case2 => exact initial
  | case3 n s a l full => simpa [fill, full] using initial
  | case4 n s a l s' fits ih =>
    rw [fill, fits]
    exact ih (kept s a s' initial fits)

/-- What the items that are taken weigh is what the room has lost. -/
theorem fill_sum {measure : σ → ℕ} {weight : α → ℕ}
    (counted : ∀ s a s', takes s a = some s' → measure s' = measure s + weight a) :
    measure (fill takes n s l).2.2 = measure s + ((fill takes n s l).1.map weight).sum := by
  induction n, s, l using fill.induct takes with
  | case1 => simp [fill]
  | case2 => simp [fill]
  | case3 n s a l full => simp [fill, full]
  | case4 n s a l s' fits ih =>
    simp only [fill, fits, List.map_cons, List.sum_cons]
    rw [ih, counted _ _ _ fits]
    omega

end Filling

end Paging
