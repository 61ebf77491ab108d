import Innernet.Library.Panics
import Mathlib

/-! The reply parser of `publicip/src/lib.rs`: where its cursor can get to in a datagram, when its
last slice panics, and when what it returns is the answer of the reply. -/
namespace Innernet.PublicIp

open Fallible Panics

inductive Error where
  | recv
  | unexpectedEof
  | invalidInput (message : String)
  deriving DecidableEq

def classIn : Nat := 0x0001
def typeA : Nat := 0x0001
def typeAaaa : Nat := 0x001C

/-- `Cursor<&[u8]>`. -/
structure Cursor where
  bytes : List UInt8
  position : Nat

/-- What reads from a cursor and moves it. -/
abbrev Reader := StateT Cursor (Outcome Error)

/-- `ensure!`. -/
def ensure (p : Prop) [Decidable p] (message : String) : Reader Unit := fun c => do
  require p (.error (.invalidInput message))
  return ((), c)

def readExact (n : Nat) : Reader (List UInt8) := fun c => do
  require (n ≤ (c.bytes.drop c.position).length) (.error .unexpectedEof)
  return ((c.bytes.drop c.position).take n, { c with position := c.position + n })

def readU8 : Reader Nat := do
  let bytes ← readExact 1
  return (bytes.getD 0 0).toNat

/-- `read_u16`, by `u16::from_be_bytes`. -/
def readU16 : Reader Nat := do
  let bytes ← readExact 2
  return (bytes.getD 0 0).toNat * 256 + (bytes.getD 1 0).toNat

/-- `set_position(position() + n)`. -/
def advance (n : Nat) : Reader Unit := fun c => .ok ((), { c with position := c.position + n })

/-- The loop over the labels of the question. Every round reads a byte, so as many rounds as there
are bytes, and one, are enough. -/
def skipLabels : Nat → Reader Unit
  | 0 => fun _ => .error .panic
  | rounds + 1 => do
    let len ← readU8
    if len = 0 then return ()
    advance len
    skipLabels rounds

/-- The part of `read_response` before the records; the number of questions. -/
def readHeader : Reader Nat := do
  let _id ← readU16
  let flags ← readU16
  ensure (flags &&& 0x8000 ≠ 0) "not a response"
  ensure (flags &&& 0x000f = 0) "non-zero DNS error code"
  let qd ← readU16
  ensure (qd ≤ 1) "unexpected number of questions"
  let answers ← readU16
  ensure (answers = 1) "unexpected number of answers"
  let servers ← readU16
  ensure (servers = 0) "unexpected NS value"
  let additional ← readU16
  ensure (additional = 0) "unexpected AR value"
  return qd

/-- The part that skips the question. -/
def skipQuestion (rounds qd : Nat) : Reader Unit :=
  if qd ≠ 0 then do
    skipLabels rounds
    advance 4
  else return ()

/-- The part that skips the name of the answer, a pointer or a list of labels. -/
def skipName : Reader Unit := do
  let qnameLen ← readU16
  if qnameLen &&& 0xc000 ≠ 0xc000 then advance qnameLen else return ()

/-- The part that reads the record; the length of its data. -/
def readRecord (recordType n : Nat) : Reader Nat := do
  let type ← readU16
  ensure (type = recordType) "answer is not expected type"
  let class_ ← readU16
  ensure (class_ = classIn) "answer is not IN class"
  advance 4
  let dataLen ← readU16
  ensure (dataLen = n) "unexpected record data length"
  return dataLen

/-- `Request`, with what is left in its buffer of the query it sent. -/
structure Request where
  id : List UInt8
  buf : List UInt8
  recordType : Nat

/-- What `read_response` does with its cursor. -/
def Request.read (r : Request) (rounds n : Nat) : Reader Nat := do
  let qd ← readHeader
  skipQuestion rounds qd
  skipName
  readRecord r.recordType n

/-- `read_response` up to the copy: where the data starts and how long it is. -/
def Request.locate (r : Request) (n : Nat) (response : List UInt8) : Outcome Error (Nat × Nat) := do
  let buf := response ++ r.buf.drop response.length
  require (buf.take 2 = r.id) (.error (.invalidInput "question/answer IDs don't match"))
  let (dataLen, c) ← r.read (response.length + 1) n ⟨response, 0⟩
  return (c.position, dataLen)

/-- `read_response`, when `recv` gives these bytes. -/
def Request.readResponse (r : Request) (n : Nat) (received : Option (List UInt8)) :
    Outcome Error (List UInt8) := do
  let response ← lift (received.elim (.error .recv) .ok)
  let (start, dataLen) ← r.locate n response
  slice response start (start + dataLen)

section Reading

variable {d : List UInt8} {p : Nat}

def u16 (d : List UInt8) (p : Nat) : Nat := (d.getD p 0).toNat * 256 + (d.getD (p + 1) 0).toNat

theorem ensure_ok {q : Prop} [Decidable q] {message : String} {c : Cursor} {r : Unit × Cursor} :
    ensure q message c = .ok r ↔ q ∧ r = ((), c) := by
  simp only [ensure, bind_ok, require_ok, pure_ok]
  constructor
  · rintro ⟨_, holds, rfl⟩
    exact ⟨holds, rfl⟩
  · rintro ⟨holds, rfl⟩
    exact ⟨(), holds, rfl⟩

theorem readExact_ok {n : Nat} (some_ : 0 < n) {c : Cursor} {r : List UInt8 × Cursor} :
    readExact n c = .ok r ↔ c.position + n ≤ c.bytes.length ∧
      r = ((c.bytes.drop c.position).take n, ⟨c.bytes, c.position + n⟩) := by
  simp only [readExact, bind_ok, require_ok, pure_ok, List.length_drop]
  constructor
  · rintro ⟨_, left, rfl⟩
    exact ⟨by omega, rfl⟩
  · rintro ⟨left, rfl⟩
    exact ⟨⟨⟩, by omega, rfl⟩

theorem readU8_ok {c : Cursor} {r : Nat × Cursor} :
    readU8 c = .ok r ↔ c.position + 1 ≤ c.bytes.length ∧
      r = ((c.bytes.getD c.position 0).toNat, ⟨c.bytes, c.position + 1⟩) := by
  have first : ((c.bytes.drop c.position).take 1).getD 0 0 = c.bytes.getD c.position 0 := by
    simp [List.getD_eq_getElem?_getD, List.getElem?_drop]
  simp only [readU8, stateful_ok, readExact_ok Nat.one_pos, stateful_pure, Prod.mk.injEq,
    exists_and_left, and_assoc, exists_eq_left, first]

theorem readU16_ok {c : Cursor} {r : Nat × Cursor} :
    readU16 c = .ok r ↔ c.position + 2 ≤ c.bytes.length ∧
      r = (u16 c.bytes c.position, ⟨c.bytes, c.position + 2⟩) := by
  have byte (i : Nat) (inside : i < 2) :
      ((c.bytes.drop c.position).take 2).getD i 0 = c.bytes.getD (c.position + i) 0 := by
    simp [List.getD_eq_getElem?_getD, List.getElem?_drop, inside]
  simp only [readU16, u16, stateful_ok, readExact_ok Nat.two_pos, stateful_pure, Prod.mk.injEq,
    exists_and_left, and_assoc, exists_eq_left, byte 0 Nat.two_pos, byte 1 Nat.one_lt_two,
    Nat.add_zero]

theorem advance_ok {n : Nat} {c : Cursor} {r : Unit × Cursor} :
    advance n c = .ok r ↔ r = ((), ⟨c.bytes, c.position + n⟩) := by
  rw [advance, Except.ok.injEq, eq_comm]

/-- What `read_response` asks of the header. -/
structure Passes (d : List UInt8) : Prop where
  whole : 12 ≤ d.length
  response : u16 d 2 &&& 0x8000 ≠ 0
  success : u16 d 2 &&& 0x000f = 0
  questions : u16 d 4 ≤ 1
  answers : u16 d 6 = 1
  servers : u16 d 8 = 0
  additional : u16 d 10 = 0

theorem readHeader_ok {r : Nat × Cursor} :
    readHeader ⟨d, 0⟩ = .ok r ↔ Passes d ∧ r = (u16 d 4, ⟨d, 12⟩) := by
  simp only [readHeader, stateful_ok, readU16_ok, ensure_ok, stateful_pure, Prod.mk.injEq,
    exists_and_left, and_assoc, exists_eq_left, Nat.zero_add, Nat.reduceAdd, true_and,
    exists_const]
  constructor
  · rintro ⟨-, -, response, success, -, questions, -, answers, -, servers, whole, additional, rfl⟩
    exact ⟨⟨whole, response, success, questions, answers, servers, additional⟩, rfl⟩
  · rintro ⟨passes, rfl⟩
    have whole := passes.whole
    exact ⟨by omega, by omega, passes.response, passes.success, by omega, passes.questions,
      by omega, passes.answers, by omega, passes.servers, whole, passes.additional, rfl⟩

/-- Where the code takes a list of labels that starts at the first place to end: every byte but a
zero is the length of a label. -/
inductive Skipped (d : List UInt8) : Nat → Nat → Prop
  | last {p : Nat} (inside : p < d.length) (zero : d.getD p 0 = 0) : Skipped d p (p + 1)
  | label {p q : Nat} (inside : p < d.length) (some_ : d.getD p 0 ≠ 0)
      (rest : Skipped d (p + 1 + (d.getD p 0).toNat) q) : Skipped d p q

theorem skipLabels_ok {rounds : Nat} {r : Unit × Cursor} (enough : d.length < rounds + p) :
    skipLabels rounds ⟨d, p⟩ = .ok r ↔ ∃ q, Skipped d p q ∧ r = ((), ⟨d, q⟩) := by
  induction rounds generalizing p with
  | zero =>
    constructor
    · intro done
      cases done
    · rintro ⟨q, skipped, -⟩
      cases skipped <;> omega
  | succ rounds ih =>
    have more : d.length < rounds + (p + 1 + (d.getD p 0).toNat) := by omega
    simp only [skipLabels, stateful_ok, readU8_ok, Prod.mk.injEq, exists_and_left, and_assoc,
      exists_eq_left]
    split
    · rename_i zero
      have zero : d.getD p 0 = 0 := UInt8.toNat_inj.mp zero
      rw [stateful_pure]
      constructor
      · rintro ⟨inside, rfl⟩
        exact ⟨p + 1, .last inside zero, rfl⟩
      · rintro ⟨q, skipped, rfl⟩
        cases skipped with
        | last inside => exact ⟨inside, rfl⟩
        | label _ some_ => exact absurd zero some_
    · rename_i some_
      have some_ : d.getD p 0 ≠ 0 := fun zero => some_ (congrArg UInt8.toNat zero)
      simp only [stateful_ok, advance_ok, Prod.mk.injEq, exists_eq_left, true_and, exists_const,
        ih more]
      constructor
      · rintro ⟨inside, q, rest, rfl⟩
        exact ⟨q, .label inside some_ rest, rfl⟩
      · rintro ⟨q, skipped, rfl⟩
        cases skipped with
        | last _ zero => exact absurd zero some_
        | label inside _ rest => exact ⟨inside, q, rest, rfl⟩

theorem skipped_unique {p q q' : Nat} (one : Skipped d p q) (other : Skipped d p q') : q = q' := by
  induction one with
  | last _ zero =>
    cases other with
    | last => rfl
    | label _ some_ => exact absurd zero some_
  | label _ some_ _ ih =>
    cases other with
    | last _ zero => exact absurd zero some_
    | label _ _ rest => exact ih rest

/-- Where the code takes the answer to start. -/
def Answered (d : List UInt8) (p : Nat) : Prop :=
  if u16 d 4 = 0 then p = 12 else ∃ q, Skipped d 12 q ∧ p = q + 4

/-- Where the code takes a name that starts at `p` to end. -/
def nameEnd (d : List UInt8) (p : Nat) : Nat :=
  if u16 d p &&& 0xc000 = 0xc000 then p + 2 else p + 2 + u16 d p

theorem skipQuestion_ok {rounds : Nat} {r : Unit × Cursor} (enough : d.length < rounds + 12) :
    skipQuestion rounds (u16 d 4) ⟨d, 12⟩ = .ok r ↔ ∃ p, Answered d p ∧ r = ((), ⟨d, p⟩) := by
  unfold skipQuestion Answered
  by_cases asked : u16 d 4 = 0
  · simp only [asked, ne_eq, not_true_eq_false, if_false, if_true, stateful_pure, exists_eq_left]
  · simp only [asked, ne_eq, not_false_eq_true, if_true, if_false, stateful_ok,
      skipLabels_ok enough, advance_ok]
    constructor
    · rintro ⟨_, c, ⟨q, skipped, same⟩, rfl⟩
      cases same
      exact ⟨q + 4, ⟨q, skipped, rfl⟩, rfl⟩
    · rintro ⟨_, ⟨q, skipped, rfl⟩, rfl⟩
      exact ⟨(), _, ⟨q, skipped, rfl⟩, rfl⟩

theorem skipName_ok {r : Unit × Cursor} :
    skipName ⟨d, p⟩ = .ok r ↔ p + 2 ≤ d.length ∧ r = ((), ⟨d, nameEnd d p⟩) := by
  simp only [skipName, nameEnd, stateful_ok, readU16_ok, Prod.mk.injEq, and_assoc,
    exists_and_left, exists_eq_left]
  by_cases pointer : u16 d p &&& 0xc000 = 0xc000
  · simp only [pointer, ne_eq, not_true_eq_false, if_false, if_true, stateful_pure]
  · simp only [pointer, ne_eq, not_false_eq_true, if_true, if_false, advance_ok]

theorem readRecord_ok {recordType n : Nat} {r : Nat × Cursor} :
    readRecord recordType n ⟨d, p⟩ = .ok r ↔ (p + 10 ≤ d.length ∧ u16 d p = recordType ∧
      u16 d (p + 2) = classIn ∧ u16 d (p + 8) = n) ∧ r = (n, ⟨d, p + 10⟩) := by
  simp only [readRecord, stateful_ok, readU16_ok, ensure_ok, advance_ok, stateful_pure,
    Prod.mk.injEq, exists_and_left, and_assoc, exists_eq_left, true_and, exists_const,
    Nat.add_assoc, Nat.reduceAdd]
  constructor
  · rintro ⟨-, type, -, class_, whole, rfl, rfl⟩
    exact ⟨whole, type, class_, rfl, rfl⟩
  · rintro ⟨whole, type, class_, rfl, rfl⟩
    exact ⟨by omega, type, by omega, class_, whole, rfl, rfl⟩

/-- The checks of `read_response` pass, with the answer at `p` and its type at `t`. -/
structure Located (r : Request) (n : Nat) (d : List UInt8) (p t : Nat) : Prop where
  passes : Passes d
  answered : Answered d p
  ended : t = nameEnd d p
  inside : t + 10 ≤ d.length
  type : u16 d t = r.recordType
  class_ : u16 d (t + 2) = classIn
  length : u16 d (t + 8) = n

theorem located_name {r : Request} {n t : Nat} (located : Located r n d p t) :
    p + 2 ≤ d.length := by
  have ended := located.ended
  have inside := located.inside
  unfold nameEnd at ended
  split at ended <;> omega

theorem read_ok {r : Request} {rounds n : Nat} {out : Nat × Cursor}
    (enough : d.length < rounds + 12) :
    r.read rounds n ⟨d, 0⟩ = .ok out ↔ ∃ p t, Located r n d p t ∧ out = (n, ⟨d, t + 10⟩) := by
  simp only [Request.read, stateful_ok, readHeader_ok]
  constructor
  · rintro ⟨qd, c, ⟨passes, same⟩, rest⟩
    cases same
    simp only [skipQuestion_ok enough] at rest
    obtain ⟨_, _, ⟨p, answered, same⟩, _, _, named, record⟩ := rest
    cases same
    obtain ⟨-, same⟩ := skipName_ok.mp named
    cases same
    obtain ⟨⟨inside, type, class_, length⟩, rfl⟩ := readRecord_ok.mp record
    exact ⟨p, nameEnd d p, ⟨passes, answered, rfl, inside, type, class_, length⟩, rfl⟩
  · rintro ⟨p, t, located, rfl⟩
    have named := located_name located
    obtain ⟨passes, answered, rfl, inside, type, class_, length⟩ := located
    exact ⟨_, _, ⟨passes, rfl⟩, _, _, (skipQuestion_ok enough).mpr ⟨p, answered, rfl⟩, _, _,
      skipName_ok.mpr ⟨named, rfl⟩, readRecord_ok.mpr ⟨⟨inside, type, class_, length⟩, rfl⟩⟩

theorem locate_ok {r : Request} {n start len : Nat} :
    r.locate n d = .ok (start, len) ↔
      d.take 2 = r.id ∧ ∃ p t, Located r n d p t ∧ start = t + 10 ∧ len = n := by
  have enough : d.length < d.length + 1 + 12 := by omega
  simp only [Request.locate, bind_ok, require_ok, read_ok enough, pure_ok, Prod.mk.injEq]
  constructor
  · rintro ⟨_, matching, _, ⟨p, t, located, rfl⟩, rfl, rfl⟩
    have whole := located.passes.whole
    rw [List.take_append_of_le_length (by omega)] at matching
    exact ⟨matching, p, t, located, rfl, rfl⟩
  · rintro ⟨matching, p, t, located, rfl, rfl⟩
    have whole := located.passes.whole
    have reread : (d ++ r.buf.drop d.length).take 2 = d.take 2 :=
      List.take_append_of_le_length (by omega)
    rw [← reread] at matching
    exact ⟨⟨⟩, matching, _, ⟨p, t, located, rfl⟩, rfl, rfl⟩

theorem ensure_quiet {q : Prop} [Decidable q] {message : String} : Quiet (ensure q message) := by
  intro c
  refine bind_ne_error (require_ne_error (by simp)) fun _ _ => ?_
  simp [pure, Except.pure]

theorem readExact_quiet {n : Nat} : Quiet (readExact n) := by
  intro c
  refine bind_ne_error (require_ne_error (by simp)) fun _ _ => ?_
  simp [pure, Except.pure]

theorem readU8_quiet : Quiet readU8 := quiet_bind readExact_quiet fun _ => quiet_pure

theorem readU16_quiet : Quiet readU16 := quiet_bind readExact_quiet fun _ => quiet_pure

theorem advance_quiet {n : Nat} : Quiet (advance n) := by
  intro c panicked
  cases panicked

theorem readHeader_quiet : Quiet readHeader := by
  unfold readHeader
  refine quiet_bind readU16_quiet fun _ => quiet_bind readU16_quiet fun _ => ?_
  refine quiet_bind ensure_quiet fun _ => quiet_bind ensure_quiet fun _ => ?_
  refine quiet_bind readU16_quiet fun _ => quiet_bind ensure_quiet fun _ => ?_
  refine quiet_bind readU16_quiet fun _ => quiet_bind ensure_quiet fun _ => ?_
  refine quiet_bind readU16_quiet fun _ => quiet_bind ensure_quiet fun _ => ?_
  refine quiet_bind readU16_quiet fun _ => quiet_bind ensure_quiet fun _ => quiet_pure

theorem skipName_quiet : Quiet skipName := by
  refine quiet_bind readU16_quiet fun len => ?_
  split
  · exact advance_quiet
  · exact quiet_pure

theorem readRecord_quiet {recordType n : Nat} : Quiet (readRecord recordType n) := by
  unfold readRecord
  refine quiet_bind readU16_quiet fun _ => quiet_bind ensure_quiet fun _ => ?_
  refine quiet_bind readU16_quiet fun _ => quiet_bind ensure_quiet fun _ => ?_
  refine quiet_bind advance_quiet fun _ => quiet_bind readU16_quiet fun _ => ?_
  exact quiet_bind ensure_quiet fun _ => quiet_pure

theorem skipLabels_ne_panic {rounds : Nat} (some_ : 0 < rounds) (enough : d.length < rounds + p) :
    skipLabels rounds ⟨d, p⟩ ≠ .error .panic := by
  induction rounds generalizing p with
  | zero => omega
  | succ rounds ih =>
    refine stateful_ne_error (readU8_quiet _) fun len c read => ?_
    obtain ⟨inside, same⟩ := readU8_ok.mp read
    cases same
    dsimp only at inside ⊢
    split
    · exact quiet_pure _
    · refine stateful_ne_error (advance_quiet _) fun _ c moved => ?_
      cases advance_ok.mp moved
      exact ih (by omega) (by dsimp only; omega)

/-- `read_response` does not panic before its last line. -/
theorem locate_ne_panic {r : Request} {n : Nat} : r.locate n d ≠ .error .panic := by
  refine bind_ne_error (require_ne_error (by simp)) fun _ _ => ?_
  refine bind_ne_error ?_ fun _ _ => by simp [pure, Except.pure]
  refine stateful_ne_error (readHeader_quiet _) fun qd c read => ?_
  obtain ⟨-, same⟩ := readHeader_ok.mp read
  cases same
  refine stateful_ne_error ?_ fun _ _ _ => quiet_bind skipName_quiet (fun _ => readRecord_quiet) _
  unfold skipQuestion
  split
  · exact stateful_ne_error (skipLabels_ne_panic (by omega) (by omega)) fun _ _ _ =>
      advance_quiet _
  · exact quiet_pure _

/-- A name by the rules of DNS: labels of at most 63 bytes that end in the root or, when there is an
earlier name, in a pointer to it. -/
inductive Chain (earlier : Prop) (d : List UInt8) : Nat → Nat → Prop
  | root {p : Nat} (inside : p < d.length) (zero : d.getD p 0 = 0) : Chain earlier d p (p + 1)
  | pointer {p : Nat} (some_ : earlier) (inside : p + 2 ≤ d.length)
      (marked : 192 ≤ (d.getD p 0).toNat) : Chain earlier d p (p + 2)
  | label {p q : Nat} (inside : p < d.length) (some_ : d.getD p 0 ≠ 0)
      (short : (d.getD p 0).toNat < 64) (rest : Chain earlier d (p + 1 + (d.getD p 0).toNat) q) :
      Chain earlier d p q

/-- A name takes at most 255 bytes. -/
def Name (earlier : Prop) (d : List UInt8) (p q : Nat) : Prop := Chain earlier d p q ∧ q ≤ p + 255

/-- The data of the only answer of a message, of this type, of class `IN` and of this length, starts
here. -/
structure AnswerData (d : List UInt8) (recordType n start : Nat) : Prop where
  single : u16 d 6 = 1
  record : ∃ p t, (u16 d 4 = 0 ∧ p = 12 ∨ u16 d 4 = 1 ∧ ∃ q, Name False d 12 q ∧ p = q + 4) ∧
    Name True d p t ∧ u16 d t = recordType ∧ u16 d (t + 2) = classIn ∧ u16 d (t + 8) = n ∧
    start = t + 10
  complete : start + n ≤ d.length

theorem chain_skipped {q : Nat} (chain : Chain False d p q) : Skipped d p q := by
  induction chain with
  | root inside zero => exact .last inside zero
  | pointer some_ => exact some_.elim
  | label inside some_ _ _ ih => exact .label inside some_ ih

theorem pointer_iff : u16 d p &&& 0xc000 = 0xc000 ↔ 192 ≤ (d.getD p 0).toNat := by
  have hi := (d.getD p 0).toNat_lt
  have lo := (d.getD (p + 1) 0).toNat_lt
  have word : u16 d p = (d.getD p 0).toNat * 256 + (d.getD (p + 1) 0).toNat := rfl
  have top : (u16 d p &&& 0xc000) / 2 ^ 14 = u16 d p / 2 ^ 14 &&& 0xc000 / 2 ^ 14 :=
    Nat.and_div_two_pow
  have bottom : (u16 d p &&& 0xc000) % 2 ^ 14 = u16 d p % 2 ^ 14 &&& 0xc000 % 2 ^ 14 :=
    Nat.and_mod_two_pow
  have quarter : u16 d p / 2 ^ 14 < 4 := by omega
  have zero : (0xc000 : Nat) % 2 ^ 14 = 0 := rfl
  have three : (0xc000 : Nat) / 2 ^ 14 = 3 := rfl
  rw [zero, Nat.and_zero] at bottom
  rw [three] at top
  have kept : ∀ k < 4, k &&& 3 = k := by decide
  rw [kept _ quarter] at top
  omega

/-- The name of the answer, taken for a length and that many bytes, is not skipped as it should. -/
theorem name_marked {t : Nat} (name : Name True d p t) (ended : t = nameEnd d p) :
    192 ≤ (d.getD p 0).toNat := by
  obtain ⟨chain, short⟩ := name
  by_contra plain
  rw [nameEnd, if_neg (mt pointer_iff.mp plain), u16] at ended
  cases chain with
  | root => omega
  | pointer _ _ marked => exact plain marked
  | label _ some_ =>
    have some_ : (d.getD p 0).toNat ≠ 0 := fun zero => some_ (UInt8.toNat_inj.mp zero)
    omega

/-- The code finds the answer where it is when the question has a proper name and the answer is named
by a pointer. -/
theorem located_data {r : Request} {n t : Nat} (located : Located r n d p t)
    (complete : t + 10 + n ≤ d.length) (asked : u16 d 4 ≠ 0 → ∃ q, Name False d 12 q)
    (marked : 192 ≤ (d.getD p 0).toNat) : AnswerData d r.recordType n (t + 10) := by
  have named := located_name located
  obtain ⟨passes, answered, rfl, inside, type, class_, length⟩ := located
  have short : nameEnd d p = p + 2 := if_pos (pointer_iff.mpr marked)
  have name : Name True d p (nameEnd d p) := by
    rw [short]
    exact ⟨.pointer trivial named marked, by omega⟩
  refine ⟨passes.answers, ⟨p, nameEnd d p, ?_, name, type, class_, length, rfl⟩, complete⟩
  unfold Answered at answered
  split at answered
  · rename_i none_
    exact .inl ⟨none_, answered⟩
  · rename_i some_
    obtain ⟨q, skipped, rfl⟩ := answered
    obtain ⟨q', name'⟩ := asked some_
    cases skipped_unique skipped (chain_skipped name'.1)
    have questions := passes.questions
    exact .inr ⟨by omega, q, name', rfl⟩

/-- Only then. -/
theorem data_located {r : Request} {n t : Nat} (located : Located r n d p t)
    (data : AnswerData d r.recordType n (t + 10)) :
    (u16 d 4 ≠ 0 → ∃ q, Name False d 12 q) ∧ 192 ≤ (d.getD p 0).toNat := by
  obtain ⟨-, ⟨p', t', asked, name, -, -, -, same⟩, -⟩ := data
  have same : t = t' := by omega
  subst same
  have answered := located.answered
  unfold Answered at answered
  rcases asked with ⟨none_, rfl⟩ | ⟨one, q, name', rfl⟩
  · rw [if_pos none_] at answered
    cases answered
    exact ⟨fun some_ => absurd none_ some_, name_marked name located.ended⟩
  · rw [if_neg (by omega)] at answered
    obtain ⟨q', skipped, rfl⟩ := answered
    cases skipped_unique skipped (chain_skipped name'.1)
    exact ⟨fun _ => ⟨q, name'⟩, name_marked name located.ended⟩

end Reading

section Answers

variable {r : Request} {n : Nat} {d out : List UInt8}

theorem readResponse_eq :
    r.readResponse n (some d) = (do
      let (start, dataLen) ← r.locate n d
      slice d start (start + dataLen)) := rfl

theorem readResponse_ok : r.readResponse n (some d) = .ok out ↔ d.take 2 = r.id ∧
    ∃ p t, Located r n d p t ∧ t + 10 + n ≤ d.length ∧ (d.drop (t + 10)).take n = out := by
  rw [readResponse_eq]
  simp only [bind_ok, Prod.exists, locate_ok, slice_ok, List.drop_take]
  constructor
  · rintro ⟨_, _, ⟨matching, p, t, located, rfl, rfl⟩, ⟨-, inside⟩, rfl⟩
    exact ⟨matching, p, t, located, inside, by rw [Nat.add_sub_cancel_left]⟩
  · rintro ⟨matching, p, t, located, inside, rfl⟩
    exact ⟨_, _, ⟨matching, p, t, located, rfl, rfl⟩, ⟨by omega, inside⟩,
      by rw [Nat.add_sub_cancel_left]⟩

theorem readResponse_panic : r.readResponse n (some d) = .error .panic ↔ d.take 2 = r.id ∧
    ∃ p t, Located r n d p t ∧ d.length < t + 10 + n := by
  rw [readResponse_eq, bind_error]
  simp only [Prod.exists, locate_ok, slice_panic]
  constructor
  · rintro (panicked | ⟨_, _, ⟨matching, p, t, located, rfl, rfl⟩, outside⟩)
    · exact absurd panicked locate_ne_panic
    · exact ⟨matching, p, t, located, by omega⟩
  · rintro ⟨matching, p, t, located, short⟩
    exact .inr ⟨_, _, ⟨matching, p, t, located, rfl, rfl⟩, by omega⟩

/-- `read_response` does not panic, and what it returns is the data of the answer. -/
def Total (r : Request) (n : Nat) (d : List UInt8) : Prop :=
  r.readResponse n (some d) ≠ .error .panic ∧
  ∀ out, r.readResponse n (some d) = .ok out → out.length = n ∧
    ∃ start, r.locate n d = .ok (start, n) ∧ out = (d.drop start).take n ∧
      AnswerData d r.recordType n start

/-- The parser is total exactly on the datagrams that fail one of its checks and on those that hold
all the data, name the answer by a pointer, and name the question properly. -/
theorem readResponse_total_iff : Total r n d ↔ (d.take 2 = r.id → ∀ p t, Located r n d p t →
    t + 10 + n ≤ d.length ∧ (u16 d 4 ≠ 0 → ∃ q, Name False d 12 q) ∧
      192 ≤ (d.getD p 0).toNat) := by
  constructor
  · rintro ⟨calm, right⟩ matching p t located
    have complete : t + 10 + n ≤ d.length := by
      by_contra short
      exact calm (readResponse_panic.mpr ⟨matching, p, t, located, by omega⟩)
    have done := readResponse_ok.mpr ⟨matching, p, t, located, complete, rfl⟩
    obtain ⟨-, start, found, -, data⟩ := right _ done
    have here := locate_ok.mpr ⟨matching, p, t, located, rfl, rfl⟩
    cases here.symm.trans found
    exact ⟨complete, data_located located data⟩
  · intro fine
    constructor
    · intro panicked
      obtain ⟨matching, p, t, located, short⟩ := readResponse_panic.mp panicked
      have complete := (fine matching p t located).1
      omega
    · intro out done
      obtain ⟨matching, p, t, located, complete, rfl⟩ := readResponse_ok.mp done
      obtain ⟨-, asked, marked⟩ := fine matching p t located
      refine ⟨?_, t + 10, locate_ok.mpr ⟨matching, p, t, located, rfl, rfl⟩, rfl,
        located_data located complete asked marked⟩
      rw [List.length_take, List.length_drop]
      omega

/-- A reply cut short in the data of its answer: its header, a pointer, the type, the class, the time
to live, the length and half of the data. -/
def cutShort : List UInt8 :=
  [7, 7, 0x81, 0x80, 0, 0, 0, 1, 0, 0, 0, 0] ++ [0xc0, 12, 0, 1, 0, 1, 0, 0, 0, 60, 0, 4] ++ [203, 0]

theorem cutShort_located :
    Located ⟨[7, 7], List.replicate 1500 0, typeA⟩ 4 cutShort 12 14 where
  passes := ⟨by decide, by decide, by decide, by decide, by decide, by decide, by decide⟩
  answered := (if_pos (by decide)).mpr rfl
  ended := by decide
  inside := by decide
  type := by decide
  class_ := by decide
  length := by decide

/-- It makes the parser panic. -/
theorem readResponse_not_total : ¬ ∀ (r : Request) (n : Nat) (d : List UInt8), n = 4 ∨ n = 16 →
    d.length ≤ 1500 → Total r n d := by
  intro total
  obtain ⟨calm, -⟩ := total ⟨[7, 7], List.replicate 1500 0, typeA⟩ 4 cutShort (.inl rfl) (by decide)
  exact calm (readResponse_panic.mpr ⟨rfl, 12, 14, cutShort_located, by decide⟩)

end Answers

end Innernet.PublicIp
