import Mathlib.Tactic.Ring
import Innernet.Wire

/-! Bytes and their spellings: a value is the number its bytes spell, and base64 reads back what it
writes. -/
namespace Innernet

namespace Base64

theorem value_letter : ∀ n < 64, value (letter n) = some n := by decide

theorem letter_plain : ∀ n < 64, letter n ≠ 61 ∧ (letter n).toNat < 128 := by decide

theorem letter_value {c : UInt8} {n : Nat} (known : value c = some n) : letter n = c ∧ n < 64 := by
  have all : ∀ k < 256, ∀ n ∈ value (UInt8.ofNat k),
      letter n = UInt8.ofNat k ∧ n < 64 := by decide +kernel
  have here := all c.toNat c.toNat_lt n
  rw [UInt8.ofNat_toNat] at here
  exact here known

theorem decode_group {w x y z : UInt8} (plain : z ≠ 61) (rest : List UInt8) :
    decode (w :: x :: y :: z :: rest) = (do
      let word := (← value w) * 262144 + (← value x) * 4096 + (← value y) * 64 + (← value z)
      let tail ← decode rest
      some (UInt8.ofNat (word / 65536) :: UInt8.ofNat (word / 256 % 256) ::
        UInt8.ofNat (word % 256) :: tail)) := by
  rw [decode]
  · rintro rfl rfl
    exact absurd rfl plain
  · rintro rfl
    exact absurd rfl plain

theorem decode_encode (bytes : List UInt8) : decode (encode bytes) = some bytes := by
  induction bytes using encode.induct with
  | case1 a b c rest ih =>
    obtain ⟨word, same⟩ : ∃ w, w = a.toNat * 65536 + b.toNat * 256 + c.toNat := ⟨_, rfl⟩
    have first := a.toNat_lt
    have second := b.toNat_lt
    have third := c.toNat_lt
    have whole : word / 262144 * 262144 + word / 4096 % 64 * 4096 + word / 64 % 64 * 64 +
        word % 64 = word := by omega
    have one : word / 65536 = a.toNat := by omega
    have two : word / 256 % 256 = b.toNat := by omega
    have three : word % 256 = c.toNat := by omega
    rw [encode, ← same, decode_group (letter_plain _ (by omega)).1, ih,
      value_letter _ (by omega), value_letter _ (by omega), value_letter _ (by omega),
      value_letter _ (by omega)]
    simp only [Option.bind_eq_bind, Option.bind_some, whole, one, two, three, UInt8.ofNat_toNat]
  | case2 a b =>
    obtain ⟨word, same⟩ : ∃ w, w = a.toNat * 1024 + b.toNat * 4 := ⟨_, rfl⟩
    have first := a.toNat_lt
    have second := b.toNat_lt
    have whole : word / 4096 * 4096 + word / 64 % 64 * 64 + word % 64 = word := by omega
    have aligned : word % 4 = 0 := by omega
    have one : word / 1024 = a.toNat := by omega
    have two : word / 4 % 256 = b.toNat := by omega
    rw [encode, ← same, decode, value_letter _ (by omega), value_letter _ (by omega),
      value_letter _ (by omega)]
    · simp only [Option.bind_eq_bind, Option.bind_some, whole, aligned, one, two, if_true,
        UInt8.ofNat_toNat]
    · exact (letter_plain _ (by omega)).1
  | case3 a =>
    obtain ⟨word, same⟩ : ∃ w, w = a.toNat * 16 := ⟨_, rfl⟩
    have first := a.toNat_lt
    have whole : word / 64 * 64 + word % 64 = word := by omega
    have aligned : word % 16 = 0 := by omega
    have one : word / 16 = a.toNat := by omega
    rw [encode, ← same, decode, value_letter _ (by omega), value_letter _ (by omega)]
    simp only [Option.bind_eq_bind, Option.bind_some, whole, aligned, one, if_true,
      UInt8.ofNat_toNat]
  | case4 => rfl

theorem encode_decode {text bytes : List UInt8} (decoded : decode text = some bytes) :
    encode bytes = text := by
  have byte : ∀ n < 256, (UInt8.ofNat n).toNat = n := fun n less => UInt8.toNat_ofNat_of_lt' less
  induction text using decode.induct generalizing bytes with
  | case1 =>
    cases decoded
    rfl
  | case2 w x =>
    simp only [decode, Option.bind_eq_bind, Option.bind_eq_some_iff] at decoded
    obtain ⟨m, first, n, second, decoded⟩ := decoded
    obtain ⟨rfl, small⟩ := letter_value first
    obtain ⟨rfl, small'⟩ := letter_value second
    split at decoded
    · rename_i aligned
      cases decoded
      have high : (m * 64 + n) / 16 * 16 / 64 = m := by omega
      have low : (m * 64 + n) / 16 * 16 % 64 = n := by omega
      simp only [encode, byte ((m * 64 + n) / 16) (by omega), high, low]
    · cases decoded
  | case3 w x y other =>
    simp only [decode.eq_3 w x y other, Option.bind_eq_bind, Option.bind_eq_some_iff] at decoded
    obtain ⟨m, first, n, second, k, third, decoded⟩ := decoded
    obtain ⟨rfl, small⟩ := letter_value first
    obtain ⟨rfl, small'⟩ := letter_value second
    obtain ⟨rfl, small''⟩ := letter_value third
    split at decoded
    · rename_i aligned
      cases decoded
      obtain ⟨word, same⟩ : ∃ v, v = m * 4096 + n * 64 + k := ⟨_, rfl⟩
      rw [← same] at aligned ⊢
      have whole : word / 1024 * 1024 + word / 4 % 256 * 4 = word := by omega
      have high : word / 4096 = m := by omega
      have middle : word / 64 % 64 = n := by omega
      have low : word % 64 = k := by omega
      simp only [encode, byte (word / 1024) (by omega), byte (word / 4 % 256) (by omega), whole,
        high, middle, low]
    · cases decoded
  | case4 w x y z rest other other' ih =>
    simp only [decode.eq_4 w x y z rest other other', Option.bind_eq_bind,
      Option.bind_eq_some_iff] at decoded
    obtain ⟨m, first, n, second, k, third, l, fourth, tail, remaining, decoded⟩ := decoded
    obtain ⟨rfl, m_small⟩ := letter_value first
    obtain ⟨rfl, n_small⟩ := letter_value second
    obtain ⟨rfl, k_small⟩ := letter_value third
    obtain ⟨rfl, l_small⟩ := letter_value fourth
    cases decoded
    obtain ⟨word, same⟩ : ∃ v, v = m * 262144 + n * 4096 + k * 64 + l := ⟨_, rfl⟩
    rw [← same]
    have whole : word / 65536 * 65536 + word / 256 % 256 * 256 + word % 256 = word := by omega
    have one : word / 262144 = m := by omega
    have two : word / 4096 % 64 = n := by omega
    have three : word / 64 % 64 = k := by omega
    have four : word % 64 = l := by omega
    simp only [encode, byte (word / 65536) (by omega), byte (word / 256 % 256) (by omega),
      byte (word % 256) (by omega), whole, one, two, three, four, ih remaining]
  | case5 text empty two three four =>
    rw [decode.eq_5 text empty two three four] at decoded
    cases decoded

/-- What holds of every letter and of the padding holds of every encoding. -/
theorem encode_each {P : UInt8 → Prop} (letters : ∀ n < 64, P (letter n)) (padding : P 61)
    (bytes : List UInt8) : ∀ c ∈ encode bytes, P c := by
  have small : ∀ a : UInt8, a.toNat < 256 := UInt8.toNat_lt
  induction bytes using encode.induct with
  | case1 a b c rest ih =>
    have first := small a
    have second := small b
    have third := small c
    simp only [encode, List.forall_mem_cons]
    exact ⟨letters _ (by omega), letters _ (by omega), letters _ (by omega), letters _ (by omega), ih⟩
  | case2 a b =>
    have first := small a
    have second := small b
    simp only [encode, List.forall_mem_cons]
    exact ⟨letters _ (by omega), letters _ (by omega), letters _ (by omega), padding, nofun⟩
  | case3 a =>
    have first := small a
    simp only [encode, List.forall_mem_cons]
    exact ⟨letters _ (by omega), letters _ (by omega), padding, padding, nofun⟩
  | case4 => exact nofun

theorem encode_plain (bytes : List UInt8) : ∀ c ∈ encode bytes, c.toNat < 128 :=
  encode_each (fun n small => (letter_plain n small).2) (by decide) bytes

theorem encode_length (bytes : List UInt8) :
    (encode bytes).length = (bytes.length + 2) / 3 * 4 := by
  induction bytes using encode.induct with
  | case1 a b c rest ih =>
    rw [encode]
    simp only [List.length_cons, ih]
    omega
  | case2 a b => simp only [encode, List.length_cons, List.length_nil]
  | case3 a => simp only [encode, List.length_cons, List.length_nil]
  | case4 => simp only [encode, List.length_nil]

end Base64

theorem Binary.digits_length (n x : Nat) : (Binary.digits n x).length = n := by
  induction n with
  | zero => rfl
  | succ n ih => rw [Binary.digits, List.length_cons, ih]

theorem Binary.bytes_length {n : Nat} (x : Binary n) : x.bytes.length = n :=
  digits_length n x.toNat

def Binary.number (bytes : List UInt8) : Nat := bytes.foldl (fun n b => n * 256 + b.toNat) 0

theorem Binary.number_digits (n x acc : Nat) :
    (digits n x).foldl (fun n b => n * 256 + b.toNat) acc = acc * 256 ^ n + x % 256 ^ n := by
  induction n generalizing acc with
  | zero => simp [digits, Nat.mod_one]
  | succ n ih =>
    have high : x >>> (8 * n) = x / 256 ^ n := by rw [Nat.shiftRight_eq_div_pow, Nat.pow_mul]
    have first : (UInt8.ofNat (x >>> (8 * n) % 256)).toNat = x / 256 ^ n % 256 := by
      simp [high]
    rw [digits, List.foldl_cons, ih, first, Nat.mod_pow_succ]
    ring

/-- The bytes of a value spell it. -/
theorem Binary.number_bytes {n : Nat} (x : Binary n) : number x.bytes = x.toNat := by
  rw [number, bytes, number_digits, Nat.zero_mul, Nat.zero_add]
  refine Nat.mod_eq_of_lt ?_
  have bound := x.isLt
  rwa [Nat.pow_mul] at bound

theorem Binary.number_cons (bytes : List UInt8) (acc : Nat) :
    bytes.foldl (fun n b => n * 256 + b.toNat) acc = acc * 256 ^ bytes.length + number bytes := by
  induction bytes generalizing acc with
  | nil => simp [number]
  | cons b rest ih =>
    rw [number, List.foldl_cons, List.foldl_cons, ih, ih, List.length_cons]
    ring

theorem Binary.number_lt (bytes : List UInt8) : number bytes < 256 ^ bytes.length := by
  induction bytes with
  | nil => simp [number]
  | cons b rest ih =>
    have small := b.toNat_lt
    rw [number, List.foldl_cons, number_cons, List.length_cons, pow_succ]
    calc (0 * 256 + b.toNat) * 256 ^ rest.length + number rest
        < (b.toNat + 1) * 256 ^ rest.length := by
          rw [Nat.zero_mul, Nat.zero_add, Nat.add_mul, Nat.one_mul]
          exact Nat.add_lt_add_left ih _
      _ ≤ 256 * 256 ^ rest.length := Nat.mul_le_mul_right _ (by omega)
      _ = 256 ^ rest.length * 256 := Nat.mul_comm _ _

/-- Every list of bytes spells a value. -/
theorem Binary.digits_number (bytes : List UInt8) (acc : Nat) :
    digits bytes.length (bytes.foldl (fun n b => n * 256 + b.toNat) acc) = bytes := by
  induction bytes generalizing acc with
  | nil => rfl
  | cons b rest ih =>
    have small := b.toNat_lt
    have head : (acc * 256 + b.toNat) * 256 ^ rest.length + number rest < _ :=
      Nat.add_lt_add_left (number_lt rest) _
    rw [List.length_cons, List.foldl_cons, digits, ih, number_cons, Nat.shiftRight_eq_div_pow,
      Nat.pow_mul, Nat.mul_comm (acc * 256 + b.toNat), Nat.mul_add_div (Nat.pow_pos (by decide)),
      Nat.div_eq_of_lt (number_lt rest)]
    have same : (acc * 256 + b.toNat + 0) % 256 = b.toNat := by omega
    rw [same, UInt8.ofNat_toNat]

/-- The value a list of `n` bytes spells. -/
def Binary.ofBytes {n : Nat} (bytes : List UInt8) : Binary n := BitVec.ofNat _ (number bytes)

theorem Binary.bytes_ofBytes {n : Nat} {bytes : List UInt8} (length : bytes.length = n) :
    (ofBytes bytes : Binary n).bytes = bytes := by
  have bound : number bytes < 2 ^ (8 * n) := by
    rw [Nat.pow_mul, ← length]
    exact number_lt bytes
  rw [Binary.bytes, ofBytes, BitVec.toNat_ofNat, Nat.mod_eq_of_lt bound, ← length]
  exact digits_number bytes 0

/-- The bytes of a text spelled in plain characters. -/
theorem bytes_ofList {bytes : List UInt8} (plain : ∀ c ∈ bytes, c.toNat < 128) :
    (String.ofList (bytes.map fun c => Char.ofNat c.toNat)).toByteArray.data.toList = bytes := by
  have single : ∀ k < 128, String.utf8EncodeChar (Char.ofNat k) = [UInt8.ofNat k] := by decide
  have spelled : bytes.flatMap (fun c => String.utf8EncodeChar (Char.ofNat c.toNat)) = bytes := by
    induction bytes with
    | nil => rfl
    | cons c rest ih =>
      rw [List.flatMap_cons, ih fun c' later => plain c' (List.mem_cons_of_mem _ later),
        single c.toNat (plain c List.mem_cons_self), UInt8.ofNat_toNat, List.singleton_append]
  rw [String.toByteArray_ofList]
  unfold List.utf8Encode
  rw [List.toList_data_toByteArray, List.flatMap_map, spelled]

end Innernet
