import Innernet.Library.Panics
import Innernet.Server.Cidrs
import Innernet.Server.Host
import Mathlib

/-! Time strings of `shared/src/types.rs` and the expiry of an invitation: from the string to the
`invite_expires` of the row and back, with the range of each step. -/
namespace Innernet

open Fallible Panics Tables

/-- `str::split_at`, which panics inside a character. -/
def splitAt {ε : Type} : List Char → Nat → Outcome ε (List Char × List Char)
  | cs, 0 => .ok ([], cs)
  | [], _ + 1 => .error .panic
  | c :: cs, mid + 1 => do
    require (c.utf8Size ≤ mid + 1) .panic
    let (left, right) ← splitAt cs (mid + 1 - c.utf8Size)
    return (c :: left, right)

def digit (c : Char) : Option Nat :=
  if '0' ≤ c ∧ c ≤ '9' then some (c.toNat - '0'.toNat) else none

/-- One round of `u64::from_str`, where both operations are checked. -/
def pushDigit (n : Nat) (c : Char) : Option Nat := do
  let n := n * 10 + (← digit c)
  if n < 2 ^ 64 then some n else none

def unsigned : List Char → List Char
  | '+' :: d :: rest => d :: rest
  | src => src

/-- `u64::from_str`, which allows a leading plus. A sign alone is no number, as it is no digit. -/
def parseU64 (src : List Char) : Option Nat :=
  if unsigned src = [] then none else (unsigned src).foldlM pushDigit 0

/-- Whether the build checks its arithmetic, as a debug build does and a release build does not. -/
inductive Build where
  | checked
  | wrapping

def Build.mul {ε : Type} (build : Build) (a b : Nat) : Outcome ε Nat :=
  match build with
  | .checked => if a * b < 2 ^ 64 then .ok (a * b) else .error .panic
  | .wrapping => .ok (a * b % 2 ^ 64)

structure Timestring where
  timestring : String
  seconds : Nat

namespace Timestring

def multiplier : List Char → Except String Nat
  | ['s'] => .ok 1
  | ['m'] => .ok 60
  | ['h'] => .ok (60 * 60)
  | ['d'] => .ok (60 * 60 * 24)
  | ['w'] => .ok (60 * 60 * 24 * 7)
  | _ => .error "invalid timestring suffix (must be one of 's', 'm', 'h', 'd', or 'w')"

/-- `Timestring::from_str`. -/
def fromStr (build : Build) (timestring : String) : Outcome String Timestring := do
  require (2 ≤ timestring.utf8ByteSize) (.error "timestring isn't long enough!")
  let (n, suffix) ← splitAt timestring.toList (timestring.utf8ByteSize - 1)
  let n ← lift ((parseU64 n).elim
    (.error "invalid timestring (a number followed by a time unit character, eg. '15m')") .ok)
  let multiplier ← lift (multiplier suffix)
  let seconds ← build.mul n multiplier
  return { timestring, seconds }

end Timestring

/-- `SystemTime`, by its distance from the epoch. -/
structure SystemTime where
  secs : Int
  nanos : Nat
  least : -2 ^ 63 ≤ secs
  greatest : secs < 2 ^ 63
  fraction : nanos < 10 ^ 9

namespace SystemTime

/-- `checked_add` of whole seconds. -/
def checkedAdd (t : SystemTime) (seconds : Nat) : Option SystemTime :=
  if fits : t.secs + seconds < 2 ^ 63 then
    some ⟨t.secs + seconds, t.nanos, by have := t.least; omega, fits, t.fraction⟩
  else none

/-- `SystemTime + Duration`. -/
def add {ε : Type} (t : SystemTime) (seconds : Nat) : Outcome ε SystemTime :=
  (t.checkedAdd seconds).elim (.error .panic) .ok

def unixEpoch : SystemTime := ⟨0, 0, by decide, by decide, by decide⟩

/-- `duration_since(UNIX_EPOCH)`, by its `as_secs`. -/
def sinceEpoch (t : SystemTime) : Option Nat := if 0 ≤ t.secs then some t.secs.toNat else none

end SystemTime

/-- `NewPeerInfo`. -/
structure NewPeerInfo extends PlacedPeer where
  inviteExpires : Timestring

/-- `PeerContents`, as `create` takes it. -/
structure PeerContents extends PlacedPeer where
  inviteExpires : Option SystemTime

/-- `into_peer_contents`, at this time. -/
def NewPeerInfo.intoPeerContents {ε : Type} (info : NewPeerInfo) (keypair : Binary 32)
    (now : SystemTime) : Outcome ε PeerContents := do
  let expires ← now.add info.inviteExpires.seconds
  return { row := Host.newPeerContents info.row keypair, ip := info.ip, inviteExpires := some expires }

/-- The column `invite_expires` for this time. -/
def SystemTime.toColumn (t : SystemTime) : Except ServerError Nat := do
  let seconds ← t.sinceEpoch.elim (.error .invalidQuery) .ok
  require (seconds < 2 ^ 63) .invalidQuery
  return seconds

def toColumn : Option SystemTime → Except ServerError (Option Nat)
  | none => .ok none
  | some t => t.toColumn.map some

/-- `rusqlite::Error`, as `from_row` raises it. -/
inductive RowError where
  | queryReturnedNoRows
  | integralValueOutOfRange (column : Nat) (value : Int)

/-- The time of the column `invite_expires`. -/
def SystemTime.ofColumn (unixtime : Int) : Except RowError SystemTime := do
  require (0 ≤ unixtime) (.integralValueOutOfRange 9 unixtime)
  (unixEpoch.checkedAdd unixtime.toNat).elim (.error (.integralValueOutOfRange 9 unixtime)) .ok

def ofColumn : Option Nat → Except RowError (Option SystemTime)
  | none => .ok none
  | some unixtime => (SystemTime.ofColumn unixtime).map some

namespace Allocation

/-- `DatabasePeer::create`: the expiry is converted after the checks and before the row is written. -/
def create [Ipnet] (r : Allocation) (contents : PeerContents) : Except ServerError Allocation := do
  require (isValidName contents.row.name = true) .invalidQuery
  let cidr ← r.getCidr contents.row.cidrId
  require (Ipnet.contains cidr.cidr contents.ip = true) .invalidQuery
  require (cidr.cidr.isAssignable contents.ip = true) .invalidQuery
  let inviteExpires ← toColumn contents.inviteExpires
  r.createPeer ⟨{ contents.row with inviteExpires }, contents.ip⟩

/-- `DatabasePeer::get`, through `from_row`. -/
def get (r : Allocation) (id : Nat) : Except RowError PeerContents := do
  let peer ← (r.peers.lookup id).elim (.error .queryReturnedNoRows) .ok
  let inviteExpires ← ofColumn peer.row.inviteExpires
  return { toPlacedPeer := peer, inviteExpires }

end Allocation

section Splitting

variable {ε : Type} {c : Char} {cs left : List Char} {mid : Nat}

theorem splitAt_cons (inside : c.utf8Size ≤ mid) :
    splitAt (ε := ε) (c :: cs) mid =
      (splitAt cs (mid - c.utf8Size)).map fun halves => (c :: halves.1, halves.2) := by
  cases mid with
  | zero =>
    have := c.utf8Size_pos
    omega
  | succ mid =>
    rw [splitAt, require, if_pos inside]
    cases splitAt (ε := ε) cs (mid + 1 - c.utf8Size) <;> rfl

theorem splitAt_append : splitAt (ε := ε) (left ++ cs) (String.utf8Len left) = .ok (left, cs) := by
  induction left with
  | nil => cases cs <;> rfl
  | cons a left ih =>
    have rest : String.utf8Len (a :: left) - a.utf8Size = String.utf8Len left := by
      rw [String.utf8Len_cons]
      omega
    rw [List.cons_append, splitAt_cons (by rw [String.utf8Len_cons]; omega), rest, ih]
    rfl

theorem splitAt_inside (after : String.utf8Len left < mid)
    (before : mid < String.utf8Len left + c.utf8Size) :
    splitAt (ε := ε) (left ++ c :: cs) mid = .error .panic := by
  induction left generalizing mid with
  | nil =>
    rw [String.utf8Len_nil] at after before
    cases mid with
    | zero => omega
    | succ mid =>
      rw [List.nil_append, splitAt, require, if_neg (by omega)]
      rfl
  | cons a left ih =>
    rw [String.utf8Len_cons] at after before
    rw [List.cons_append, splitAt_cons (by omega), ih (by omega) (by omega)]
    rfl

/-- The split before the last byte is one before the last character or it panics. -/
theorem splitAt_last {left : List Char} {c : Char} :
    splitAt (ε := ε) (left ++ [c]) (String.utf8Len (left ++ [c]) - 1) =
      if c.utf8Size = 1 then .ok (left, [c]) else .error .panic := by
  have size : String.utf8Len (left ++ [c]) = String.utf8Len left + c.utf8Size := by
    simp
  have some_ := c.utf8Size_pos
  split
  · rename_i ascii
    rw [size, ascii, Nat.add_sub_cancel, splitAt_append]
  · rename_i wide
    exact splitAt_inside (by omega) (by omega)

end Splitting

section Numerals

def value (n : Nat) (c : Char) : Nat := n * 10 + (c.toNat - '0'.toNat)

/-- The text, with or without a plus, is that of a number. -/
def Numeral (text : List Char) (n : Nat) : Prop :=
  ∃ digits, digits ≠ [] ∧ (text = digits ∨ text = '+' :: digits) ∧
    (∀ c ∈ digits, '0' ≤ c ∧ c ≤ '9') ∧ n = digits.foldl value 0

variable {text : List Char} {n m : Nat}

theorem pushDigit_some {c : Char} : pushDigit n c = some m ↔
    ('0' ≤ c ∧ c ≤ '9') ∧ m = value n c ∧ m < 2 ^ 64 := by
  unfold pushDigit digit value
  by_cases digit : '0' ≤ c ∧ c ≤ '9'
  · simp only [digit, and_self, if_true, Option.bind_eq_bind, Option.bind_some, true_and]
    split
    · rename_i fits
      constructor
      · intro same
        cases same
        exact ⟨rfl, fits⟩
      · rintro ⟨rfl, -⟩
        rfl
    · rename_i exceeds
      constructor
      · intro none_
        cases none_
      · rintro ⟨rfl, fits⟩
        exact absurd fits exceeds
  · simp [digit]

theorem le_foldl_value (digits : List Char) (n : Nat) : n ≤ digits.foldl value n := by
  induction digits generalizing n with
  | nil => exact le_rfl
  | cons c digits ih => exact le_trans (by unfold value; omega) (ih (value n c))

theorem foldlM_some {digits : List Char} (start : n < 2 ^ 64) :
    digits.foldlM pushDigit n = some m ↔
      (∀ c ∈ digits, '0' ≤ c ∧ c ≤ '9') ∧ m = digits.foldl value n ∧ m < 2 ^ 64 := by
  induction digits generalizing n with
  | nil =>
    rw [List.foldlM_nil, List.foldl_nil]
    constructor
    · intro same
      cases same
      exact ⟨by simp, rfl, start⟩
    · rintro ⟨-, rfl, -⟩
      rfl
  | cons c digits ih =>
    rw [List.foldlM_cons, List.foldl_cons, List.forall_mem_cons]
    simp only [Option.bind_eq_bind, Option.bind_eq_some_iff, pushDigit_some]
    constructor
    · rintro ⟨_, ⟨here, rfl, fits⟩, rest⟩
      obtain ⟨digits, same, small⟩ := (ih fits).mp rest
      exact ⟨⟨here, digits⟩, same, small⟩
    · rintro ⟨⟨here, digits⟩, rfl, small⟩
      have fits := (le_foldl_value _ _).trans_lt small
      exact ⟨_, ⟨here, rfl, fits⟩, (ih fits).mpr ⟨digits, rfl, small⟩⟩

theorem plus_no_digit : ¬ ('0' ≤ '+' ∧ '+' ≤ '9') := by decide

theorem unsigned_cases (text : List Char) :
    (∃ d rest, text = '+' :: d :: rest ∧ unsigned text = d :: rest) ∨
      (∀ d rest, text ≠ '+' :: d :: rest) ∧ unsigned text = text := by
  unfold unsigned
  split
  · exact .inl ⟨_, _, rfl, rfl⟩
  · rename_i plain
    exact .inr ⟨plain, rfl⟩

theorem parseU64_some : parseU64 text = some n ↔ Numeral text n ∧ n < 2 ^ 64 := by
  have bare : parseU64 text = some n ↔ (unsigned text ≠ [] ∧
      (∀ c ∈ unsigned text, '0' ≤ c ∧ c ≤ '9') ∧ n = (unsigned text).foldl value 0) ∧
        n < 2 ^ 64 := by
    unfold parseU64
    by_cases empty : unsigned text = []
    · simp [empty]
    · rw [if_neg empty, foldlM_some (by decide)]
      simp only [ne_eq, empty, not_false_eq_true, true_and, and_assoc]
  rw [bare]
  refine and_congr_left fun _ => ?_
  rcases unsigned_cases text with ⟨d, rest, rfl, same⟩ | ⟨plain, same⟩
  · rw [same]
    constructor
    · rintro ⟨some_, digits, value⟩
      exact ⟨_, some_, .inr rfl, digits, value⟩
    · rintro ⟨_, some_, rfl | same, digits, value⟩
      · exact absurd (digits '+' List.mem_cons_self) plus_no_digit
      · cases same
        exact ⟨some_, digits, value⟩
  · rw [same]
    constructor
    · rintro ⟨some_, digits, value⟩
      exact ⟨_, some_, .inl rfl, digits, value⟩
    · rintro ⟨digits, some_, rfl | rfl, all, value⟩
      · exact ⟨some_, all, value⟩
      · cases digits with
        | nil => exact absurd rfl some_
        | cons d rest => exact absurd rfl (plain d rest)

end Numerals

namespace Timestring

variable {build : Build} {s : String} {t : Timestring} {n u : Nat}

/-- The string is a number and the character of a unit of so many seconds. -/
def Reads (s : String) (n unit : Nat) : Prop :=
  ∃ number c, s.toList = number ++ [c] ∧ Numeral number n ∧ n < 2 ^ 64 ∧
    multiplier [c] = .ok unit

theorem multiplier_ok {c : Char} (known : multiplier [c] = .ok u) :
    c.utf8Size = 1 ∧ u ≤ 604800 := by
  unfold multiplier at known
  split at known
  all_goals cases known
  all_goals simp_all
  all_goals decide

theorem exists_last (long : 2 ≤ s.utf8ByteSize) : ∃ left c, s.toList = left ++ [c] := by
  rcases List.eq_nil_or_concat' s.toList with empty | last
  · rw [← String.utf8Len_toList s, empty, String.utf8Len_nil] at long
    omega
  · exact last

theorem split_last {left : List Char} {c : Char} (same : s.toList = left ++ [c]) :
    splitAt (ε := String) s.toList (s.utf8ByteSize - 1) =
      if c.utf8Size = 1 then .ok (left, [c]) else .error .panic := by
  rw [← String.utf8Len_toList s, same]
  exact splitAt_last

theorem reads_long (reads : Reads s n u) : 2 ≤ s.utf8ByteSize := by
  obtain ⟨number, c, same, ⟨digits, some_, shape, -, -⟩, -, -⟩ := reads
  rw [← String.utf8Len_toList s, same, String.utf8Len_append, String.utf8Len_cons]
  have last := c.utf8Size_pos
  have first : 0 < String.utf8Len number := by
    rw [Nat.pos_iff_ne_zero, ne_eq, String.utf8Len_eq_zero]
    rintro rfl
    rcases shape with rfl | shape
    · exact some_ rfl
    · cases shape
  omega

theorem parsed_some {left : List Char} {message : String} :
    (parseU64 left).elim (.error message) .ok = (.ok n : Except String Nat) ↔
      Numeral left n ∧ n < 2 ^ 64 := by
  rw [← parseU64_some]
  cases parseU64 left <;> simp

theorem fromStr_ok : fromStr build s = .ok t ↔
    ∃ n u, Reads s n u ∧ build.mul (ε := String) n u = .ok t.seconds ∧ t.timestring = s := by
  simp only [fromStr, bind_ok, require_ok, pure_ok, lift_ok, parsed_some]
  constructor
  · rintro ⟨_, long, halves, split, n, ⟨numeral, small⟩, u, known, seconds, product, rfl⟩
    obtain ⟨left, c, same⟩ := exists_last long
    rw [split_last same] at split
    split at split
    · cases split
      exact ⟨n, u, ⟨left, c, same, numeral, small, known⟩, product, rfl⟩
    · cases split
  · rintro ⟨n, u, reads, product, rfl⟩
    have long := reads_long reads
    obtain ⟨number, c, same, numeral, small, known⟩ := reads
    have split := split_last same
    rw [if_pos (multiplier_ok known).1] at split
    exact ⟨⟨⟩, long, _, split, n, ⟨numeral, small⟩, u, known, _, product, rfl⟩

/-- The last character takes more than a byte. -/
def Ragged (s : String) : Prop := ∃ left c, s.toList = left ++ [c] ∧ c.utf8Size ≠ 1

theorem ragged_long (ragged : Ragged s) : 2 ≤ s.utf8ByteSize := by
  obtain ⟨left, c, same, wide⟩ := ragged
  have some_ := c.utf8Size_pos
  rw [← String.utf8Len_toList s, same, String.utf8Len_append, String.utf8Len_cons]
  omega

theorem fromStr_panic : fromStr build s = .error .panic ↔
    Ragged s ∨ ∃ n u, Reads s n u ∧ build.mul (ε := String) n u = .error .panic := by
  simp only [fromStr, bind_error, require_ok, lift_ok, parsed_some]
  constructor
  · rintro (short | ⟨_, long, inside | ⟨halves, split, text | ⟨n, ⟨numeral, small⟩, rest⟩⟩⟩)
    · exact absurd short (require_ne_error (by simp))
    · obtain ⟨left, c, same⟩ := exists_last long
      rw [split_last same] at inside
      split at inside
      · cases inside
      · rename_i wide
        exact .inl ⟨left, c, same, wide⟩
    · exact absurd text lift_panic
    · obtain ⟨left, c, same⟩ := exists_last long
      rw [split_last same] at split
      split at split
      · cases split
        rcases rest with unknown | ⟨u, known, product | ⟨_, _, done⟩⟩
        · exact absurd unknown lift_panic
        · exact .inr ⟨n, u, ⟨left, c, same, numeral, small, known⟩, product⟩
        · cases done
      · cases split
  · rintro (ragged | ⟨n, u, reads, product⟩)
    · have long := ragged_long ragged
      obtain ⟨left, c, same, wide⟩ := ragged
      have split := split_last same
      rw [if_neg wide] at split
      exact .inr ⟨⟨⟩, long, .inl split⟩
    · have long := reads_long reads
      obtain ⟨number, c, same, numeral, small, known⟩ := reads
      have split := split_last same
      rw [if_pos (multiplier_ok known).1] at split
      exact .inr ⟨⟨⟩, long, .inr ⟨_, split, .inr ⟨n, ⟨numeral, small⟩, .inr ⟨u, known, .inl product⟩⟩⟩⟩

theorem reads_unique {n' u' : Nat} (one : Reads s n u) (other : Reads s n' u') :
    n = n' ∧ u = u' := by
  obtain ⟨left, c, same, numeral, small, known⟩ := one
  obtain ⟨left', c', same', numeral', small', known'⟩ := other
  obtain ⟨rfl, rfl⟩ : left = left' ∧ c = c' := by
    simpa using same.symm.trans same'
  have parsed := parseU64_some.mpr ⟨numeral, small⟩
  have parsed' := parseU64_some.mpr ⟨numeral', small'⟩
  exact ⟨Option.some.inj (parsed.symm.trans parsed'), Except.ok.inj (known.symm.trans known')⟩

theorem mul_ok {ε : Type} {a b : Nat} (fits : a * b < 2 ^ 64) :
    build.mul (ε := ε) a b = .ok (a * b) := by
  cases build with
  | checked => exact if_pos fits
  | wrapping => exact congrArg Except.ok (Nat.mod_eq_of_lt fits)

/-- No build gives a product that is out of range. -/
theorem mul_exceeds {ε : Type} {a b : Nat} (exceeds : 2 ^ 64 ≤ a * b) :
    build.mul (ε := ε) a b = .error .panic ∨ ∃ m, build.mul (ε := ε) a b = .ok m ∧ m ≠ a * b := by
  cases build with
  | checked => exact .inl (if_neg (Nat.not_lt.mpr exceeds))
  | wrapping =>
    have below := Nat.mod_lt (a * b) (Nat.two_pow_pos 64)
    exact .inr ⟨_, rfl, by omega⟩

end Timestring

namespace SystemTime

variable {t t' : SystemTime} {n : Nat}

theorem checkedAdd_some : t.checkedAdd n = some t' ↔
    t'.secs = t.secs + n ∧ t'.nanos = t.nanos := by
  unfold checkedAdd
  have bound := t'.greatest
  split
  · rw [Option.some.injEq]
    constructor
    · rintro rfl
      exact ⟨rfl, rfl⟩
    · intro same
      cases t'
      obtain ⟨rfl, rfl⟩ := same
      rfl
  · constructor
    · intro none_
      cases none_
    · rintro ⟨same, -⟩
      omega

theorem add_ok {ε : Type} : t.add (ε := ε) n = .ok t' ↔ t.checkedAdd n = some t' := by
  unfold add
  cases t.checkedAdd n <;> simp

theorem add_panic {ε : Type} : t.add (ε := ε) n = .error .panic ↔ 2 ^ 63 ≤ t.secs + n := by
  unfold add checkedAdd
  split
  · rename_i fits
    simp only [Option.elim_some, reduceCtorEq, false_iff]
    omega
  · rename_i exceeds
    simp only [Option.elim_none, true_iff]
    omega

theorem exists_checkedAdd (fits : t.secs + n < 2 ^ 63) :
    ∃ t', t.checkedAdd n = some t' ∧ t'.secs = t.secs + n := by
  unfold checkedAdd
  rw [dif_pos fits]
  exact ⟨_, rfl, rfl⟩

/-- A column that was written from a time is read back as that time, cut to the second. -/
theorem ofColumn_toColumn (written : t.toColumn = .ok n) : ∃ t', ofColumn n = .ok t' ∧
    t'.secs = t.secs := by
  simp only [toColumn, sinceEpoch, bind_ok, require_ok, pure_ok] at written
  obtain ⟨seconds, since, _, small, rfl⟩ := written
  split at since
  · rename_i later
    cases since
    have zero : unixEpoch.secs = 0 := rfl
    obtain ⟨t', done, same⟩ := exists_checkedAdd (t := unixEpoch) (n := t.secs.toNat) (by omega)
    refine ⟨t', ?_, by omega⟩
    rw [ofColumn, require, if_pos (by omega), Int.toNat_natCast, done]
    rfl
  · cases since

end SystemTime

theorem ofColumn_toColumn {expiry : Option SystemTime} {column : Option Nat}
    (written : toColumn expiry = .ok column) : ∃ expiry', ofColumn column = .ok expiry' ∧
      expiry'.map SystemTime.secs = expiry.map SystemTime.secs := by
  cases expiry with
  | none =>
    cases written
    exact ⟨none, rfl, rfl⟩
  | some t =>
    cases kept : t.toColumn with
    | error e =>
      rw [toColumn, kept] at written
      cases written
    | ok n =>
      rw [toColumn, kept] at written
      cases written
      obtain ⟨t', read, same⟩ := SystemTime.ofColumn_toColumn kept
      refine ⟨some t', ?_, congrArg some same⟩
      rw [ofColumn, read]
      rfl

namespace Allocation

section Expiry

variable [Ipnet] {r r' : Allocation} {contents peer : PeerContents}

omit [Ipnet] in
theorem get_ok {id : Nat} {row : PlacedPeer} {expiry : Option SystemTime}
    (found : r.peers.lookup id = some row) (read : ofColumn row.row.inviteExpires = .ok expiry) :
    r.get id = .ok { toPlacedPeer := row, inviteExpires := expiry } := by
  rw [get, found]
  exact bind_ok.mpr ⟨row, rfl, bind_ok.mpr ⟨expiry, read, rfl⟩⟩

/-- The new peer is found, with the expiry it was created with, cut to the second. -/
theorem create_get (created : r.create contents = .ok r') : ∃ peer, r'.get r'.maxPeerId = .ok peer ∧
    peer.inviteExpires.map SystemTime.secs = contents.inviteExpires.map SystemTime.secs := by
  simp only [create, createPeer, bind_ok, require_ok] at created
  obtain ⟨_, -, _, -, _, -, _, -, column, written, _, -, _, -, _, -, _, -, _, -, stored⟩ := created
  cases stored
  obtain ⟨expiry, read, same⟩ := ofColumn_toColumn written
  exact ⟨_, get_ok (AList.lookup_insert _) read, same⟩

/-- What is asked of a time string, given to a new peer at this time and read back. -/
structure Exact (build : Build) (r : Allocation) (placed : PlacedPeer) (keypair : Binary 32)
    (now : SystemTime) (s : String) : Prop where
  parsed : Timestring.fromStr build s ≠ .error .panic
  seconds : ∀ t, Timestring.fromStr build s = .ok t →
    ∃ n unit, Timestring.Reads s n unit ∧ t.seconds = n * unit
  expires : ∀ t, Timestring.fromStr build s = .ok t →
    NewPeerInfo.intoPeerContents (ε := ServerError) ⟨placed, t⟩ keypair now ≠ .error .panic
  expiry : ∀ t contents r' peer, Timestring.fromStr build s = .ok t →
    NewPeerInfo.intoPeerContents (ε := ServerError) ⟨placed, t⟩ keypair now = .ok contents →
    r.create contents = .ok r' → r'.get r'.maxPeerId = .ok peer →
    peer.inviteExpires.map SystemTime.secs = some (now.secs + t.seconds)

variable {build : Build} {placed : PlacedPeer} {keypair : Binary 32} {now : SystemTime} {s : String}

/-- A time string is exact when its last character is one byte and the time it leads to is in the
range of the clock. -/
theorem expiry_exact_iff : Exact build r placed keypair now s ↔ ¬ Timestring.Ragged s ∧
    ∀ n unit, Timestring.Reads s n unit → now.secs + (n * unit : Nat) < 2 ^ 63 := by
  constructor
  · intro exact_
    refine ⟨fun ragged => exact_.parsed (Timestring.fromStr_panic.mpr (.inl ragged)), ?_⟩
    intro n unit reads
    by_contra late
    by_cases fits : n * unit < 2 ^ 64
    · have done : Timestring.fromStr build s = .ok ⟨s, n * unit⟩ :=
        Timestring.fromStr_ok.mpr ⟨n, unit, reads, Timestring.mul_ok fits, rfl⟩
      refine exact_.expires _ done (bind_error.mpr (.inl (SystemTime.add_panic.mpr ?_)))
      exact Int.not_lt.mp late
    · have exceeds : 2 ^ 64 ≤ n * unit := Nat.not_lt.mp fits
      rcases Timestring.mul_exceeds exceeds with panicked | ⟨m, product, other⟩
      · exact exact_.parsed (Timestring.fromStr_panic.mpr (.inr ⟨n, unit, reads, panicked⟩))
      · have done : Timestring.fromStr build s = .ok ⟨s, m⟩ :=
          Timestring.fromStr_ok.mpr ⟨n, unit, reads, product, rfl⟩
        obtain ⟨n', unit', reads', same⟩ := exact_.seconds _ done
        obtain ⟨rfl, rfl⟩ := Timestring.reads_unique reads reads'
        exact other same
  · rintro ⟨even, early⟩
    have within : ∀ n unit, Timestring.Reads s n unit → n * unit < 2 ^ 64 := by
      intro n unit reads
      have bound := early n unit reads
      have least := now.least
      omega
    have seconds : ∀ t, Timestring.fromStr build s = .ok t →
        ∃ n unit, Timestring.Reads s n unit ∧ t.seconds = n * unit := by
      intro t done
      obtain ⟨n, unit, reads, product, -⟩ := Timestring.fromStr_ok.mp done
      rw [Timestring.mul_ok (within n unit reads)] at product
      exact ⟨n, unit, reads, (Except.ok.inj product).symm⟩
    refine ⟨?_, seconds, ?_, ?_⟩
    · intro panicked
      rcases Timestring.fromStr_panic.mp panicked with ragged | ⟨n, unit, reads, product⟩
      · exact even ragged
      · rw [Timestring.mul_ok (within n unit reads)] at product
        cases product
    · intro t done panicked
      obtain ⟨n, unit, reads, same⟩ := seconds t done
      rcases bind_error.mp panicked with panicked | ⟨_, _, panicked⟩
      · have late := SystemTime.add_panic.mp panicked
        have bound := early n unit reads
        rw [← same] at bound
        exact absurd bound (Int.not_lt.mpr late)
      · cases panicked
    · intro t contents r' peer _ made created found
      simp only [NewPeerInfo.intoPeerContents, bind_ok, pure_ok] at made
      obtain ⟨time, added, rfl⟩ := made
      obtain ⟨peer', found', same⟩ := create_get created
      cases found.symm.trans found'
      rw [same, Option.map_some, (SystemTime.checkedAdd_some.mp (SystemTime.add_ok.mp added)).1]

end Expiry

/-- The last byte of `1é` is inside a character. -/
theorem ragged_sample : Timestring.Ragged "1é" := ⟨['1'], 'é', by decide, by decide⟩

/-- It makes `from_str` panic. -/
theorem expiry_not_exact : ¬ ∀ [Ipnet] (build : Build) (r : Allocation) (placed : PlacedPeer)
    (keypair : Binary 32) (now : SystemTime) (s : String), Exact build r placed keypair now s := by
  intro always
  obtain ⟨parsed, -⟩ := @always arithmetic .wrapping sample (placedPeer "peer" 0x0a000001 1) 0
    SystemTime.unixEpoch "1é"
  exact parsed (Timestring.fromStr_panic.mpr (.inl ragged_sample))

end Allocation

end Innernet
