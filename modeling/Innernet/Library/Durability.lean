import Mathlib.Data.List.Infix

/-! A place whose contents are read back at once and are safe only once they have been synced. Until
then a loss of power may bring back what was there before. -/
namespace Durability

universe u

/-- `lost` is what a loss of power may bring back in place of what is seen, the latest first. -/
structure Cell (α : Type u) where
  seen : α
  lost : List α
  deriving DecidableEq

namespace Cell

variable {α β : Type u}

def stable (a : α) : Cell α := ⟨a, []⟩

def put (c : Cell α) (a : α) : Cell α := ⟨a, c.seen :: c.lost⟩

def sync (c : Cell α) : Cell α := stable c.seen

/-- A file filled with bytes: any beginning of them may be all that gets there. -/
def write (c : Cell (List β)) (bytes : List β) : Cell (List β) :=
  ⟨bytes, bytes.inits ++ c.seen :: c.lost⟩

/-- The power is lost and with it the last `back` changes that were not synced. -/
def fail (c : Cell α) (back : Nat) : Cell α := stable ((c.seen :: c.lost).getD back c.seen)

/-- What may be found, with or without a loss of power. -/
def Can (c : Cell α) (a : α) : Prop := a ∈ c.seen :: c.lost

variable {c : Cell α} {a b : α}

theorem can_seen : c.Can c.seen := List.mem_cons_self

@[simp] theorem can_stable : (stable a).Can b ↔ b = a := by simp [Can, stable]

@[simp] theorem can_put : (c.put a).Can b ↔ b = a ∨ c.Can b := by simp [Can, put]

@[simp] theorem can_sync : c.sync.Can b ↔ b = c.seen := can_stable

@[simp] theorem seen_put : (c.put a).seen = a := rfl

@[simp] theorem seen_sync : c.sync.seen = c.seen := rfl

theorem seen_fail (c : Cell α) (back : Nat) : c.Can (c.fail back).seen := by
  rw [fail, stable, Can, List.getD_eq_getElem?_getD]
  cases found : (c.seen :: c.lost)[back]? with
  | none => exact List.mem_cons_self
  | some a => exact List.mem_of_getElem? found

@[simp] theorem can_fail {back : Nat} : (c.fail back).Can b ↔ b = (c.fail back).seen := can_stable

/-- Nothing is lost of what is synced. -/
theorem fail_stable (back : Nat) : (stable a).fail back = stable a := by
  have only : (stable a).Can ((stable a).fail back).seen := seen_fail _ _
  rw [can_stable] at only
  rw [fail] at only ⊢
  exact congrArg stable only

end Cell

end Durability
