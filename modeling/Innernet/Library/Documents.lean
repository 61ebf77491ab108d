import Mathlib.Algebra.GroupWithZero.Nat
import Mathlib.Data.List.Perm.Basic

/-! JSON values with the members of an object in order, and their compact text. A number stays as it
is spelled. -/
namespace Documents

inductive Value where
  | null
  | bool (b : Bool)
  | number (literal : List UInt8)
  | string (text : List UInt8)
  | array (items : List Value)
  | object (members : List (List UInt8 × Value))

def hexDigit (n : Nat) : UInt8 := UInt8.ofNat (if n < 10 then n + 48 else n + 87)

def escapeByte (b : UInt8) : List UInt8 :=
  if b = 34 ∨ b = 92 then [92, b]
  else if b = 8 then [92, 98]
  else if b = 9 then [92, 116]
  else if b = 10 then [92, 110]
  else if b = 12 then [92, 102]
  else if b = 13 then [92, 114]
  else if b < 32 then [92, 117, 48, 48, hexDigit (b.toNat / 16), hexDigit (b.toNat % 16)]
  else [b]

def quote (text : List UInt8) : List UInt8 := [34] ++ text.flatMap escapeByte ++ [34]

/-- The bytes that stand for themselves in a string. -/
def Plain (b : UInt8) : Prop := 32 ≤ b ∧ b ≠ 34 ∧ b ≠ 92

instance (b : UInt8) : Decidable (Plain b) := inferInstanceAs (Decidable (_ ∧ _))

mutual

def Value.render : Value → List UInt8
  | .null => [110, 117, 108, 108]
  | .bool true => [116, 114, 117, 101]
  | .bool false => [102, 97, 108, 115, 101]
  | .number literal => literal
  | .string text => quote text
  | .array items => [91] ++ List.intercalate [44] (renderItems items) ++ [93]
  | .object members => [123] ++ List.intercalate [44] (renderMembers members) ++ [125]

def renderItems : List Value → List (List UInt8)
  | [] => []
  | v :: rest => v.render :: renderItems rest

def renderMembers : List (List UInt8 × Value) → List (List UInt8)
  | [] => []
  | m :: rest => renderMember m :: renderMembers rest

def renderMember : List UInt8 × Value → List UInt8
  | (name, v) => quote name ++ [58] ++ v.render

end

theorem renderItems_eq (items : List Value) : renderItems items = items.map Value.render := by
  induction items with
  | nil => rfl
  | cons v rest ih => rw [renderItems, ih, List.map_cons]

theorem renderMembers_eq (members : List (List UInt8 × Value)) :
    renderMembers members = members.map renderMember := by
  induction members with
  | nil => rfl
  | cons m rest ih => rw [renderMembers, ih, List.map_cons]

theorem escapeByte_plain {b : UInt8} (plain : Plain b) : escapeByte b = [b] := by
  obtain ⟨visible, quotation, backslash⟩ := plain
  have low : ∀ c : UInt8, c < 32 → b ≠ c := by
    rintro c below rfl
    exact absurd below (UInt8.not_lt.mpr visible)
  unfold escapeByte
  rw [if_neg (not_or.mpr ⟨quotation, backslash⟩), if_neg (low 8 (by decide)),
    if_neg (low 9 (by decide)), if_neg (low 10 (by decide)), if_neg (low 12 (by decide)),
    if_neg (low 13 (by decide)), if_neg (UInt8.not_lt.mpr visible)]

/-- Plain text is quoted as it is. -/
theorem quote_plain {text : List UInt8} (plain : ∀ b ∈ text, Plain b) :
    quote text = [34] ++ text ++ [34] := by
  have same : text.flatMap escapeByte = text := by
    induction text with
    | nil => rfl
    | cons b rest ih =>
      rw [List.forall_mem_cons] at plain
      rw [List.flatMap_cons, escapeByte_plain plain.1, ih plain.2, List.singleton_append]
  rw [quote, same]

theorem quote_length {text : List UInt8} (plain : ∀ b ∈ text, Plain b) :
    (quote text).length = text.length + 2 := by
  rw [quote_plain plain]
  simp

theorem intercalate_length {α : Type} (c : α) (parts : List (List α)) :
    (List.intercalate [c] parts).length ≤ (parts.map fun p => p.length + 1).sum := by
  induction parts with
  | nil => exact Nat.le_refl 0
  | cons p rest ih =>
    cases rest with
    | nil => simp
    | cons q rest =>
      rw [List.intercalate_cons_cons, List.length_append, List.length_append, List.map_cons,
        List.sum_cons]
      exact Nat.add_le_add (Nat.le_refl _) ih

theorem Value.array_length (items : List Value) :
    (Value.array items).render.length ≤ 2 + (items.map fun v => v.render.length + 1).sum := by
  have parts := intercalate_length (44 : UInt8) (renderItems items)
  rw [renderItems_eq, List.map_map] at parts
  rw [Value.render, renderItems_eq]
  simp only [List.length_append, List.length_singleton]
  change _ ≤ 2 + (items.map ((fun p : List UInt8 => p.length + 1) ∘ Value.render)).sum
  omega

/-- What a member adds to the text of its object. -/
def cost (m : List UInt8 × Value) : Nat := (quote m.1).length + m.2.render.length + 2

theorem Value.object_length (members : List (List UInt8 × Value)) :
    (Value.object members).render.length ≤
      2 + (members.map cost).sum := by
  have parts := intercalate_length (44 : UInt8) (renderMembers members)
  have each : ((fun p : List UInt8 => p.length + 1) ∘ renderMember) = cost := by
    funext m
    obtain ⟨name, v⟩ := m
    simp [renderMember, cost]
    omega
  rw [renderMembers_eq, List.map_map, each] at parts
  rw [Value.render, renderMembers_eq]
  simp only [List.length_append, List.length_singleton]
  omega

theorem costs_le {members : List (List UInt8 × Value)} (most : List Nat)
    (each : List.Forall₂ (fun m n => cost m ≤ n) members most) :
    (members.map cost).sum ≤ most.sum := by
  induction each with
  | nil => exact Nat.le_refl 0
  | cons here _ ih =>
    rw [List.map_cons, List.sum_cons, List.sum_cons]
    exact Nat.add_le_add here ih

/-- Members that each add at most so much. -/
theorem Value.object_length_le {members : List (List UInt8 × Value)} (most : List Nat)
    (each : List.Forall₂ (fun m n => cost m ≤ n) members most) :
    (Value.object members).render.length ≤ 2 + most.sum :=
  Nat.le_trans (Value.object_length members) (Nat.add_le_add_left (costs_le most each) 2)

/-- Items that are all at most so long. -/
theorem Value.array_length_le {items : List Value} (most : Nat)
    (each : ∀ v ∈ items, v.render.length ≤ most) :
    (Value.array items).render.length ≤ 2 + items.length * (most + 1) := by
  have total : (items.map fun v => v.render.length + 1).sum ≤ items.length * (most + 1) := by
    induction items with
    | nil => simp
    | cons v rest ih =>
      rw [List.forall_mem_cons] at each
      rw [List.map_cons, List.sum_cons, List.length_cons, Nat.add_mul, Nat.one_mul, Nat.add_comm]
      exact Nat.add_le_add (ih each.2) (Nat.add_le_add_right each.1 1)
  exact Nat.le_trans (Value.array_length items) (Nat.add_le_add_left total 2)

/-- A natural number as JSON spells it. -/
def Numeral (literal : List UInt8) : Prop :=
  literal = [48] ∨ ∃ d rest, literal = d :: rest ∧ (49 ≤ d ∧ d ≤ 57) ∧ ∀ b ∈ rest, 48 ≤ b ∧ b ≤ 57

theorem Numeral.append {literal : List UInt8} {d : UInt8} (numeral : Numeral literal)
    (positive : literal ≠ [48]) (digit : 48 ≤ d ∧ d ≤ 57) : Numeral (literal ++ [d]) := by
  rcases numeral with zero | ⟨first, rest, rfl, leads, digits⟩
  · exact absurd zero positive
  · refine .inr ⟨first, rest ++ [d], rfl, leads, ?_⟩
    rw [List.forall_mem_append, List.forall_mem_singleton]
    exact ⟨digits, digit⟩

mutual

/-- The text of such a value is JSON whoever reads it: ASCII, and all numbers natural. -/
def Value.Strict : Value → Prop
  | .null => True
  | .bool _ => True
  | .number literal => Numeral literal
  | .string text => ∀ b ∈ text, b < 128
  | .array items => StrictItems items
  | .object members => StrictMembers members

def StrictItems : List Value → Prop
  | [] => True
  | v :: rest => v.Strict ∧ StrictItems rest

def StrictMembers : List (List UInt8 × Value) → Prop
  | [] => True
  | m :: rest => StrictMember m ∧ StrictMembers rest

def StrictMember : List UInt8 × Value → Prop
  | (name, v) => (∀ b ∈ name, b < 128) ∧ v.Strict

end

theorem strictItems_iff {items : List Value} : StrictItems items ↔ ∀ v ∈ items, v.Strict := by
  induction items with
  | nil => exact iff_of_true trivial fun _ member => nomatch member
  | cons v rest ih => rw [StrictItems, ih, List.forall_mem_cons]

theorem strictMembers_iff {members : List (List UInt8 × Value)} :
    StrictMembers members ↔ ∀ m ∈ members, StrictMember m := by
  induction members with
  | nil => exact iff_of_true trivial fun _ member => nomatch member
  | cons m rest ih => rw [StrictMembers, ih, List.forall_mem_cons]

end Documents
