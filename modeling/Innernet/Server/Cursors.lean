import Innernet.Arithmetic
import Innernet.Encoding
import Innernet.Server.Database

/-! The cursors of `server/src/api/pq.rs`: where a walk goes on, for one requester at one revision,
with a tag only the server can make. -/
namespace Innernet

open Fallible

/-- `u64::to_be_bytes`. -/
def bigEndian (n : Nat) : List UInt8 := Binary.digits 8 n

section Cursors

variable [Native]

/-- `encode_cursor`, as the bytes of its text: requester, revision, stage and last id, and their tag. -/
def encodeCursor (cursorKey : Binary 32) (requester revision stage after : Nat) :
    Except ServerError (List UInt8) := do
  let fields := [requester, revision, stage, after].flatMap bigEndian
  let tag ← pq (Crypto.tag cursorKey fields)
  return Base64.encode (fields ++ tag.bytes)

/-- `Binary::<64>::deserialize`. -/
def cursorBytes (value : List UInt8) : Except ServerError (List UInt8) := do
  require (value.length = 88) .invalidQuery
  match Base64.decode value with
  | none => .error .invalidQuery
  | some bytes =>
    require (Base64.encode bytes = value) .invalidQuery
    require (bytes.length = 64) .invalidQuery
    return bytes

/-- The `i`th of the numbers in front of the tag. -/
def cursorField (bytes : List UInt8) (i : Nat) : Nat := Binary.number ((bytes.drop (8 * i)).take 8)

def decodeCursor (cursorKey : Binary 32) (value : List UInt8) (requester revision : Nat) :
    Except ServerError (Nat × Nat) := do
  let bytes ← cursorBytes value
  let tag ← pq (Crypto.tag cursorKey (bytes.take 32))
  require (tag.bytes = bytes.drop 32) .invalidQuery
  require (cursorField bytes 0 = requester ∧ cursorField bytes 1 = revision) .conflict
  require (cursorField bytes 2 ≤ 2 ∧ cursorField bytes 3 < 2 ^ 63) .invalidQuery
  return (cursorField bytes 2, cursorField bytes 3)

omit [Native] in
theorem cursorBytes_ok {value bytes : List UInt8} : cursorBytes value = .ok bytes ↔
    bytes.length = 64 ∧ Base64.encode bytes = value := by
  constructor
  · intro read
    simp only [cursorBytes, bind_ok, require_ok] at read
    obtain ⟨_, -, read⟩ := read
    split at read
    · cases read
    · simp only [bind_ok, require_ok, pure_ok] at read
      obtain ⟨_, canonical, _, length, rfl⟩ := read
      exact ⟨length, canonical⟩
  · rintro ⟨length, rfl⟩
    have size : (Base64.encode bytes).length = 88 := by rw [Base64.encode_length, length]
    simp [cursorBytes, Base64.decode_encode, bind_ok, require_ok, size, length]

omit [Native] in
theorem number_bigEndian (n : Nat) : Binary.number (bigEndian n) = n % 2 ^ 64 := by
  rw [bigEndian, Binary.number, Binary.number_digits, Nat.zero_mul, Nat.zero_add]
  rfl

omit [Native] in
/-- Four numbers of eight bytes, and what the reader makes of them. -/
theorem cursorField_append (requester revision stage after : Nat) (t : List UInt8) :
    let bytes := [requester, revision, stage, after].flatMap bigEndian ++ t
    cursorField bytes 0 = requester % 2 ^ 64 ∧ cursorField bytes 1 = revision % 2 ^ 64 ∧
      cursorField bytes 2 = stage % 2 ^ 64 ∧ cursorField bytes 3 = after % 2 ^ 64 := by
  have length : ∀ n, (bigEndian n).length = 8 := fun n => Binary.digits_length 8 n
  have chunk : ∀ {first second : List UInt8} {k : Nat}, first.length = 8 →
      (first ++ second).drop (8 * (k + 1)) = second.drop (8 * k) := by
    intro first second k eight
    have more : 8 * (k + 1) = first.length + 8 * k := by omega
    rw [more, List.drop_length_add_append]
  have head : ∀ {first second : List UInt8}, first.length = 8 → (first ++ second).take 8 = first :=
    fun eight => List.take_left' eight
  simp only [cursorField, List.flatMap_cons, List.flatMap_nil, List.append_nil, List.append_assoc]
  refine ⟨?_, ?_, ?_, ?_⟩
  · rw [Nat.mul_zero, List.drop_zero, head (length _), number_bigEndian]
  · rw [chunk (length _), Nat.mul_zero, List.drop_zero, head (length _), number_bigEndian]
  · rw [chunk (length _), chunk (length _), Nat.mul_zero, List.drop_zero, head (length _),
      number_bigEndian]
  · rw [chunk (length _), chunk (length _), chunk (length _), Nat.mul_zero, List.drop_zero,
      head (length _), number_bigEndian]

omit [Native] in
/-- The first half of a cursor is its four numbers. -/
theorem take_cursorFields {bytes : List UInt8} (length : bytes.length = 64) :
    bytes.take 32 = [cursorField bytes 0, cursorField bytes 1, cursorField bytes 2,
      cursorField bytes 3].flatMap bigEndian := by
  have spelled : ∀ i < 8, bigEndian (cursorField bytes i) = (bytes.drop (8 * i)).take 8 := by
    intro i less
    have eight : ((bytes.drop (8 * i)).take 8).length = 8 := by
      rw [List.length_take, List.length_drop, length]
      omega
    have same := Binary.digits_number ((bytes.drop (8 * i)).take 8) 0
    rw [eight] at same
    exact same
  have split : ∀ n, bytes.take (n + 8) = bytes.take n ++ (bytes.drop n).take 8 := fun n =>
    List.take_add
  simp only [List.flatMap_cons, List.flatMap_nil, List.append_nil, spelled 0 (by decide),
    spelled 1 (by decide), spelled 2 (by decide), spelled 3 (by decide)]
  rw [split 24, split 16, split 8]
  simp [List.append_assoc]

/-- The cursors a requester may go on from at a revision are exactly those made for both. -/
theorem decodeCursor_ok {cursorKey : Binary 32} {value : List UInt8}
    {requester revision stage after : Nat} (small : requester < 2 ^ 64 ∧ revision < 2 ^ 64) :
    decodeCursor cursorKey value requester revision = .ok (stage, after) ↔ stage ≤ 2 ∧
      after < 2 ^ 63 ∧ encodeCursor cursorKey requester revision stage after = .ok value := by
  simp only [decodeCursor, encodeCursor, bind_ok, require_ok, pure_ok, pq_ok, cursorBytes_ok,
    Prod.mk.injEq]
  constructor
  · rintro ⟨bytes, ⟨length, rfl⟩, tag, tagged, _, same, _, ⟨rfl, rfl⟩, _, ⟨low, bound⟩, rfl, rfl⟩
    rw [take_cursorFields length] at tagged
    refine ⟨low, bound, tag, tagged, ?_⟩
    rw [← take_cursorFields length, same, List.take_append_drop]
  · rintro ⟨low, bound, tag, tagged, rfl⟩
    have four : ([requester, revision, stage, after].flatMap bigEndian).length = 32 := by
      simp [bigEndian, Binary.digits_length]
    obtain ⟨first, second, third, fourth⟩ :=
      cursorField_append requester revision stage after tag.bytes
    rw [Nat.mod_eq_of_lt small.1] at first
    rw [Nat.mod_eq_of_lt small.2] at second
    rw [Nat.mod_eq_of_lt (by omega)] at third fourth
    refine ⟨_, ⟨?_, rfl⟩, tag, ?_, ⟨⟩, ?_, ⟨⟩, ⟨first, second⟩, ⟨⟩, ?_, third, fourth⟩
    · rw [List.length_append, four, Binary.bytes_length]
    · rw [List.take_left' four]
      exact tagged
    · rw [List.drop_left' four]
    · rw [third, fourth]
      exact ⟨low, bound⟩

theorem encodeCursor_succeeds {cursorKey : Binary 32}
    (tagged : ∀ data, ∃ tag, Crypto.tag cursorKey data = .ok tag)
    (requester revision stage after : Nat) :
    ∃ value, encodeCursor cursorKey requester revision stage after = .ok value := by
  obtain ⟨tag, made⟩ := tagged ([requester, revision, stage, after].flatMap bigEndian)
  refine ⟨Base64.encode ([requester, revision, stage, after].flatMap bigEndian ++ tag.bytes), ?_⟩
  simp only [encodeCursor, bind_ok, pq_ok, pure_ok]
  exact ⟨tag, made, rfl⟩

/-- A cursor has one position. -/
theorem encodeCursor_injective {cursorKey : Binary 32} {value : List UInt8}
    {requester revision stage after requester' revision' stage' after' : Nat}
    (made : encodeCursor cursorKey requester revision stage after = .ok value)
    (made' : encodeCursor cursorKey requester' revision' stage' after' = .ok value) :
    requester % 2 ^ 64 = requester' % 2 ^ 64 ∧ revision % 2 ^ 64 = revision' % 2 ^ 64 ∧
      stage % 2 ^ 64 = stage' % 2 ^ 64 ∧ after % 2 ^ 64 = after' % 2 ^ 64 := by
  simp only [encodeCursor, bind_ok, pq_ok, pure_ok] at made made'
  obtain ⟨tag, -, rfl⟩ := made
  obtain ⟨tag', -, same⟩ := made'
  have bytes := Option.some.inj ((Base64.decode_encode _).symm.trans
    ((congrArg Base64.decode same.symm).trans (Base64.decode_encode _)))
  obtain ⟨first, second, third, fourth⟩ :=
    cursorField_append requester revision stage after tag.bytes
  obtain ⟨first', second', third', fourth'⟩ :=
    cursorField_append requester' revision' stage' after' tag'.bytes
  rw [← bytes] at first' second' third' fourth'
  exact ⟨first.symm.trans first', second.symm.trans second', third.symm.trans third',
    fourth.symm.trans fourth'⟩

/-- A cursor of another requester or another revision starts the walk over. -/
theorem decodeCursor_foreign {cursorKey : Binary 32} {value : List UInt8}
    {requester revision stage after requester' revision' : Nat}
    (small : requester < 2 ^ 64 ∧ revision < 2 ^ 64)
    (made : encodeCursor cursorKey requester revision stage after = .ok value)
    (other : requester ≠ requester' ∨ revision ≠ revision') :
    decodeCursor cursorKey value requester' revision' = .error .conflict := by
  simp only [encodeCursor, bind_ok, pq_ok, pure_ok] at made
  obtain ⟨tag, made, rfl⟩ := made
  have four : ([requester, revision, stage, after].flatMap bigEndian).length = 32 := by
    simp [bigEndian, Binary.digits_length]
  have read : cursorBytes (Base64.encode ([requester, revision, stage, after].flatMap bigEndian ++
      tag.bytes)) = .ok ([requester, revision, stage, after].flatMap bigEndian ++ tag.bytes) :=
    cursorBytes_ok.mpr ⟨by rw [List.length_append, four, Binary.bytes_length], rfl⟩
  obtain ⟨first, second, -, -⟩ := cursorField_append requester revision stage after tag.bytes
  rw [Nat.mod_eq_of_lt small.1] at first
  rw [Nat.mod_eq_of_lt small.2] at second
  have apart : ¬ (cursorField ([requester, revision, stage, after].flatMap bigEndian ++ tag.bytes) 0 =
      requester' ∧ cursorField ([requester, revision, stage, after].flatMap bigEndian ++ tag.bytes) 1 =
        revision') := by
    rw [first, second]
    tauto
  simp only [decodeCursor, bind_error, require_error]
  refine .inr ⟨_, read, .inr ⟨tag, ?_, .inr ⟨⟨⟩, ?_, .inl ⟨apart, trivial⟩⟩⟩⟩
  · rw [List.take_left' four, made]
    rfl
  · rw [List.drop_left' four, require_ok]

/-- Where a page begins. -/
def pageStart (cursorKey : Binary 32) (requester revision : Nat) :
    Option (List UInt8) → Except ServerError (Nat × Nat)
  | none => .ok (0, 0)
  | some value => decodeCursor cursorKey value requester revision

/-- The position a cursor stands for. -/
def At (cursorKey : Binary 32) (requester revision : Nat) :
    Option (List UInt8) → Nat × Nat → Prop
  | none, position => position = (0, 0)
  | some value, (stage, after) => stage ≤ 2 ∧ after < 2 ^ 63 ∧
      encodeCursor cursorKey requester revision stage after = .ok value

theorem pageStart_ok {cursorKey : Binary 32} {requester revision : Nat}
    {cursor : Option (List UInt8)} {position : Nat × Nat}
    (small : requester < 2 ^ 64 ∧ revision < 2 ^ 64) :
    pageStart cursorKey requester revision cursor = .ok position ↔
      At cursorKey requester revision cursor position := by
  cases cursor with
  | none => simp [pageStart, At, eq_comm]
  | some value => exact decodeCursor_ok small

theorem pageStart_low {cursorKey : Binary 32} {requester revision : Nat}
    {cursor : Option (List UInt8)} {position : Nat × Nat}
    (began : pageStart cursorKey requester revision cursor = .ok position) : position.1 ≤ 2 := by
  cases cursor with
  | none =>
    cases began
    decide
  | some value =>
    simp only [pageStart, decodeCursor, bind_ok, require_ok, pure_ok] at began
    obtain ⟨bytes, -, tag, -, _, -, _, -, _, ⟨low, -⟩, rfl⟩ := began
    exact low

theorem At.below {cursorKey : Binary 32} {requester revision : Nat}
    {cursor : Option (List UInt8)} {position : Nat × Nat}
    (here : At cursorKey requester revision cursor position) : position.2 < 2 ^ 63 := by
  cases cursor with
  | none =>
    cases here
    decide
  | some value => exact here.2.1

theorem At.low {cursorKey : Binary 32} {requester revision : Nat}
    {cursor : Option (List UInt8)} {position : Nat × Nat}
    (here : At cursorKey requester revision cursor position) : position.1 ≤ 3 := by
  cases cursor with
  | none =>
    cases here
    decide
  | some value => exact Nat.le_succ_of_le here.1

/-- A cursor is accepted exactly where it was made, for the same requester at the same revision, and
stands for the position it was made for; elsewhere it starts the walk over. -/
theorem cursor_exact {cursorKey : Binary 32} {value : List UInt8} {requester revision : Nat}
    (small : requester < 2 ^ 64 ∧ revision < 2 ^ 64) :
    (∀ stage after, decodeCursor cursorKey value requester revision = .ok (stage, after) ↔
      stage ≤ 2 ∧ after < 2 ^ 63 ∧
        encodeCursor cursorKey requester revision stage after = .ok value) ∧
      ∀ requester' revision' stage after, requester' < 2 ^ 64 → revision' < 2 ^ 64 →
        encodeCursor cursorKey requester' revision' stage after = .ok value →
        requester' ≠ requester ∨ revision' ≠ revision →
        decodeCursor cursorKey value requester revision = .error .conflict := by
  constructor
  · intro stage after
    exact decodeCursor_ok small
  · intro requester' revision' stage after low low' made other
    exact decodeCursor_foreign ⟨low, low'⟩ made other

end Cursors

section Sample

attribute [local instance] Arithmetic.native

/-- A cursor of peer 2 at the third revision, and the same cursor at the next revision. -/
theorem cursor_exact_next : ∃ value, encodeCursor 0 2 3 1 5 = .ok value ∧
    decodeCursor 0 value 2 3 = .ok (1, 5) ∧ decodeCursor 0 value 2 4 = .error .conflict := by
  have tagged : ∀ data, ∃ tag, Crypto.tag 0 data = .ok tag := fun data => ⟨_, rfl⟩
  obtain ⟨value, made⟩ := encodeCursor_succeeds tagged 2 3 1 5
  refine ⟨value, made, ?_, ?_⟩
  · exact ((cursor_exact ⟨by decide, by decide⟩).1 1 5).mpr ⟨by decide, by decide, made⟩
  · exact (cursor_exact ⟨by decide, by decide⟩).2 2 3 1 5 (by decide) (by decide) made (by decide)

end Sample

end Innernet
