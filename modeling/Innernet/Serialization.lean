import Innernet.Api
import Innernet.Encoding
import Innernet.Library.Documents

/-! The JSON values `serde` makes of the wire objects and of a stored record. -/
namespace Innernet

open Documents

namespace Serialization

def binary {n : Nat} (x : Binary n) : Value := .string (Base64.encode x.bytes)

def number (n : Number) : Value := .string (Json.decimal n.val)

def integer (n : Nat) : Value := .number (Json.decimal n)

def text (s : String) : Value := .string s.toUTF8.data.toList

def field (name : String) (v : Value) : List UInt8 × Value := (ascii name, v)

def optional {α : Type} (value : α → Value) : Option α → Value
  | none => .null
  | some a => value a

/-- A field left out when there is nothing in it. -/
def skipped {α : Type} (name : String) (value : α → Value) (x : Option α) :
    List (List UInt8 × Value) :=
  (x.map fun a => field name (value a)).toList

end Serialization

open Serialization

def Bundle.value (b : Bundle) : Value := .object
  [field "bundle_id" (binary b.bundleId),
    field "bundle_revision" (number b.bundleRevision),
    field "wg_public_key" (binary b.wgPublicKey),
    field "pq_kem_public_key" (binary b.pqKemPublicKey),
    field "pq_x448_public_key" (binary b.pqX448PublicKey),
    field "pq_sig_public_key" (binary b.pqSigPublicKey)]

def Transcript.value (t : Transcript) : Value := .object
  [field "network_id" (binary t.networkId),
    field "initiator_id" (number t.initiatorId),
    field "responder_id" (number t.responderId),
    field "initiator" t.initiator.value,
    field "responder" t.responder.value,
    field "sequence" (number t.sequence),
    field "exchange_id" (binary t.exchangeId),
    field "operator_psk_id" (binary t.operatorPskId),
    field "ciphertext" (binary t.ciphertext)]

/-- The fields every message has. -/
def Message.required (m : Message) : List (List UInt8 × Value) :=
  [field "version" (integer m.version.toNat),
    field "network_id" (binary m.networkId),
    field "initiator_id" (number m.initiatorId),
    field "responder_id" (number m.responderId),
    field "initiator_bundle_id" (binary m.initiatorBundleId),
    field "responder_bundle_id" (binary m.responderBundleId),
    field "sequence" (number m.sequence),
    field "exchange_id" (binary m.exchangeId),
    field "transcript_hash" (binary m.transcriptHash),
    field "sender_id" (number m.senderId),
    field "message_type" (integer m.messageType.toNat),
    field "tag" (binary m.tag),
    field "signature" (binary m.signature)]

def Message.value (m : Message) : Value := .object <|
  m.required ++ skipped "ciphertext" binary m.ciphertext ++
    skipped "operator_psk_id" binary m.operatorPskId

def Phase.value : Phase → Value
  | .proposed => text "proposed"
  | .ready => text "ready"
  | .committed => text "committed"
  | .complete => text "complete"
  | .aborted => text "aborted"

def Flags.value (flags : Flags) : Value := .array [.bool flags.initiator, .bool flags.responder]

def Decision.value (d : Decision) : Value := .object
  [field "phase" d.phase.value,
    field "installed" d.installed.value,
    field "confirmed" d.confirmed.value]

def MessageDigest.value (d : MessageDigest) : Value := .object
  [field "sender_id" (number d.senderId),
    field "message_type" (integer d.messageType.toNat),
    field "digest" (binary d.digest)]

def Exchange.value (e : Exchange) : Value := .object
  [field "network_id" (binary e.networkId),
    field "initiator_id" (number e.initiatorId),
    field "responder_id" (number e.responderId),
    field "initiator_bundle_id" (binary e.initiatorBundleId),
    field "responder_bundle_id" (binary e.responderBundleId),
    field "sequence" (number e.sequence),
    field "exchange_id" (binary e.exchangeId),
    field "transcript_hash" (binary e.transcriptHash),
    field "decision" e.decision.value,
    field "created_at" (integer e.createdAt),
    field "prepare_expires_at" (integer e.prepareExpiresAt),
    field "transcript" (optional Transcript.value e.transcript),
    field "messages" (.array (e.messages.map Message.value)),
    field "receipts" (.array (e.receipts.map MessageDigest.value)),
    field "termination" (optional text e.termination)]

/-- `serde_json::to_string` of a record. -/
def Exchange.json (e : Exchange) : List UInt8 := e.value.render

namespace Serialization

theorem decimal_length {n k : Nat} (small : n < 10 ^ k) (some_ : 0 < k) :
    (Json.decimal n).length ≤ k := by
  rw [Json.decimal, List.length_map]
  exact (Nat.length_toDigits_le_iff (by decide) some_).mpr small

/-- What a field adds to its object, when its value is at most so long. -/
theorem field_cost {name : String} {v : Value} {n k : Nat} (length : name.length = n)
    (plain : ((ascii name).all fun b => decide (Plain b)) = true) (most : v.render.length ≤ k) :
    cost (field name v) ≤ n + 4 + k := by
  have each : ∀ b ∈ ascii name, Plain b :=
    fun b member => of_decide_eq_true (List.all_eq_true.mp plain b member)
  rw [cost, field, quote_length each, ascii, List.length_map, String.length_toList]
  dsimp only
  omega

theorem binary_length {n : Nat} (x : Binary n) :
    (binary x).render.length = (n + 2) / 3 * 4 + 2 := by
  have plain : ∀ b ∈ Base64.encode x.bytes, Plain b :=
    Base64.encode_each (by decide) (by decide) x.bytes
  rw [binary, Value.render, quote_length plain, Base64.encode_length, Binary.bytes_length]

theorem decimal_plain (n : Nat) : ∀ b ∈ Json.decimal n, Plain b := by
  intro b member
  obtain ⟨c, digit, rfl⟩ := List.mem_map.mp member
  have isDigit := Nat.isDigit_of_mem_toDigits (by decide) (by decide) digit
  obtain ⟨low, high⟩ := Char.isDigit_iff_toNat.mp isDigit
  have digits : ∀ d < 10, Plain (UInt8.ofNat (48 + d)) := by decide
  have low : 48 ≤ c.toNat := low
  have high : c.toNat ≤ 57 := high
  have plain := digits (c.toNat - 48) (by omega)
  rwa [show 48 + (c.toNat - 48) = c.toNat by omega] at plain

theorem number_length (n : Number) : (number n).render.length ≤ 21 := by
  have small : n.val < 10 ^ 19 := n.bounded.trans (by decide)
  rw [number, Value.render, quote_length (decimal_plain n.val)]
  exact Nat.add_le_add_right (decimal_length small (by decide)) 2

theorem byte_length (n : UInt8) : (integer n.toNat).render.length ≤ 3 := by
  have small : n.toNat < 10 ^ 3 := (UInt8.toNat_lt n).trans (by decide)
  rw [integer, Value.render]
  exact decimal_length small (by decide)

/-- A field with a binary value. -/
theorem binary_cost {name : String} {n k : Nat} (length : name.length = k)
    (plain : ((ascii name).all fun b => decide (Plain b)) = true) (x : Binary n) :
    cost (field name (binary x)) ≤ k + 4 + ((n + 2) / 3 * 4 + 2) :=
  field_cost length plain (binary_length x).le

theorem number_cost {name : String} {k : Nat} (length : name.length = k)
    (plain : ((ascii name).all fun b => decide (Plain b)) = true) (n : Number) :
    cost (field name (number n)) ≤ k + 4 + 21 :=
  field_cost length plain (number_length n)

theorem byte_cost {name : String} {k : Nat} (length : name.length = k)
    (plain : ((ascii name).all fun b => decide (Plain b)) = true) (n : UInt8) :
    cost (field name (integer n.toNat)) ≤ k + 4 + 3 :=
  field_cost length plain (byte_length n)

theorem bundle_length (b : Bundle) : b.value.render.length ≤ 2480 := by
  refine le_trans (Value.object_length_le
    [9 + 4 + 26, 15 + 4 + 21, 13 + 4 + 46, 17 + 4 + 2094, 18 + 4 + 78, 17 + 4 + 94] ?_) (by decide)
  exact .cons (binary_cost rfl (by decide) _) <| .cons (number_cost rfl (by decide) _) <|
    .cons (binary_cost rfl (by decide) _) <| .cons (binary_cost rfl (by decide) _) <|
    .cons (binary_cost rfl (by decide) _) <| .cons (binary_cost rfl (by decide) _) .nil

theorem transcript_length (t : Transcript) : t.value.render.length ≤ 7410 := by
  refine le_trans (Value.object_length_le [10 + 4 + 26, 12 + 4 + 21, 12 + 4 + 21, 9 + 4 + 2480,
    9 + 4 + 2480, 8 + 4 + 21, 11 + 4 + 26, 15 + 4 + 26, 10 + 4 + 2170] ?_) (by decide)
  exact .cons (binary_cost rfl (by decide) _) <| .cons (number_cost rfl (by decide) _) <|
    .cons (number_cost rfl (by decide) _) <|
    .cons (field_cost rfl (by decide) (bundle_length t.initiator)) <|
    .cons (field_cost rfl (by decide) (bundle_length t.responder)) <|
    .cons (number_cost rfl (by decide) _) <| .cons (binary_cost rfl (by decide) _) <|
    .cons (binary_cost rfl (by decide) _) <| .cons (binary_cost rfl (by decide) _) .nil

theorem digest_length (d : MessageDigest) : d.value.render.length ≤ 115 := by
  refine le_trans (Value.object_length_le [9 + 4 + 21, 12 + 4 + 3, 6 + 4 + 46] ?_) (by decide)
  exact .cons (number_cost rfl (by decide) _) <| .cons (byte_cost rfl (by decide) _) <|
    .cons (binary_cost rfl (by decide) _) .nil

theorem decision_length (d : Decision) : d.value.render.length ≤ 90 := by
  have phase : d.phase.value.render.length ≤ 11 := by
    cases d.phase <;> decide
  have flags (flags : Flags) : flags.value.render.length ≤ 13 := by
    rcases flags with ⟨_ | _, _ | _⟩ <;> decide
  refine le_trans (Value.object_length_le [5 + 4 + 11, 9 + 4 + 13, 9 + 4 + 13] ?_) (by decide)
  exact .cons (field_cost rfl (by decide) phase) <| .cons (field_cost rfl (by decide) (flags _)) <|
    .cons (field_cost rfl (by decide) (flags _)) .nil

theorem skipped_cost {α : Type} {name : String} {value : α → Value} {k : Nat} (x : Option α)
    (each : ∀ a, cost (field name (value a)) ≤ k) :
    ((skipped name value x).map cost).sum ≤ k := by
  cases x with
  | none => exact Nat.zero_le k
  | some a => exact each a

theorem message_length (m : Message) : m.value.render.length ≤ 2900 := by
  have required : (m.required.map cost).sum ≤ _ := costs_le [7 + 4 + 3, 10 + 4 + 26,
      12 + 4 + 21, 12 + 4 + 21, 19 + 4 + 26, 19 + 4 + 26, 8 + 4 + 21, 11 + 4 + 26, 15 + 4 + 46,
      9 + 4 + 21, 12 + 4 + 3, 3 + 4 + 46, 9 + 4 + 178] <|
    .cons (byte_cost rfl (by decide) _) <| .cons (binary_cost rfl (by decide) _) <|
    .cons (number_cost rfl (by decide) _) <| .cons (number_cost rfl (by decide) _) <|
    .cons (binary_cost rfl (by decide) _) <| .cons (binary_cost rfl (by decide) _) <|
    .cons (number_cost rfl (by decide) _) <| .cons (binary_cost rfl (by decide) _) <|
    .cons (binary_cost rfl (by decide) _) <| .cons (number_cost rfl (by decide) _) <|
    .cons (byte_cost rfl (by decide) _) <| .cons (binary_cost rfl (by decide) _) <|
    .cons (binary_cost rfl (by decide) _) .nil
  have ciphertext : ((skipped "ciphertext" binary m.ciphertext).map cost).sum ≤ 10 + 4 + 2170 :=
    skipped_cost _ fun c => binary_cost rfl (by decide) c
  have operatorPskId :
      ((skipped "operator_psk_id" binary m.operatorPskId).map cost).sum ≤ 15 + 4 + 26 :=
    skipped_cost _ fun i => binary_cost rfl (by decide) i
  refine (Value.object_length _).trans ?_
  rw [List.map_append, List.map_append, List.sum_append, List.sum_append]
  simp only [List.sum_cons, List.sum_nil] at required
  omega

theorem optional_length {α : Type} {value : α → Value} {k : Nat} (x : Option α) (four : 4 ≤ k)
    (each : ∀ a, x = some a → (value a).render.length ≤ k) :
    (optional value x).render.length ≤ k := by
  cases x with
  | none => exact four
  | some a => exact each a rfl

theorem integer_length {n : Nat} (small : n < 10 ^ 20) : (integer n).render.length ≤ 20 :=
  decimal_length small (by decide)

/-- A record with at most seven messages and seven receipts. -/
theorem record_length (e : Exchange) (messages : e.messages.length ≤ 7)
    (receipts : e.receipts.length ≤ 7) (created : e.createdAt < 10 ^ 20)
    (expires : e.prepareExpiresAt < 10 ^ 20)
    (reason : (optional text e.termination).render.length ≤ 100) : e.json.length ≤ 32768 := by
  have all : (Value.array (e.messages.map Message.value)).render.length ≤ 2 + 7 * 2901 := by
    refine (Value.array_length_le 2900 ?_).trans ?_
    · intro v member
      obtain ⟨m, -, rfl⟩ := List.mem_map.mp member
      exact message_length m
    · rw [List.length_map]
      omega
  have digests : (Value.array (e.receipts.map MessageDigest.value)).render.length ≤
      2 + 7 * 116 := by
    refine (Value.array_length_le 115 ?_).trans ?_
    · intro v member
      obtain ⟨d, -, rfl⟩ := List.mem_map.mp member
      exact digest_length d
    · rw [List.length_map]
      omega
  have transcript : (optional Transcript.value e.transcript).render.length ≤ 7410 :=
    optional_length _ (by decide) fun t _ => transcript_length t
  refine le_trans (Value.object_length_le [10 + 4 + 26, 12 + 4 + 21, 12 + 4 + 21, 19 + 4 + 26,
    19 + 4 + 26, 8 + 4 + 21, 11 + 4 + 26, 15 + 4 + 46, 8 + 4 + 90, 10 + 4 + 20, 18 + 4 + 20,
    10 + 4 + 7410, 8 + 4 + (2 + 7 * 2901), 8 + 4 + (2 + 7 * 116), 11 + 4 + 100] ?_) (by decide)
  exact .cons (binary_cost rfl (by decide) _) <| .cons (number_cost rfl (by decide) _) <|
    .cons (number_cost rfl (by decide) _) <| .cons (binary_cost rfl (by decide) _) <|
    .cons (binary_cost rfl (by decide) _) <| .cons (number_cost rfl (by decide) _) <|
    .cons (binary_cost rfl (by decide) _) <| .cons (binary_cost rfl (by decide) _) <|
    .cons (field_cost rfl (by decide) (decision_length e.decision)) <|
    .cons (field_cost rfl (by decide) (integer_length created)) <|
    .cons (field_cost rfl (by decide) (integer_length expires)) <|
    .cons (field_cost rfl (by decide) transcript) <| .cons (field_cost rfl (by decide) all) <|
    .cons (field_cost rfl (by decide) digests) <| .cons (field_cost rfl (by decide) reason) .nil

theorem binary_render {n : Nat} (x : Binary n) : (binary x).render = Json.binary x :=
  quote_plain (Base64.encode_each (by decide) (by decide) x.bytes)

theorem number_render (n : Number) : (number n).render = Json.number n :=
  quote_plain (decimal_plain n.val)

theorem renderMember_field {name : String} {v : Value} {text : List UInt8}
    (plain : ((ascii name).all fun b => decide (Plain b)) = true) (value : v.render = text) :
    renderMember (field name v) = Json.member name text := by
  have each : ∀ b ∈ ascii name, Plain b :=
    fun b member => of_decide_eq_true (List.all_eq_true.mp plain b member)
  rw [field, renderMember, quote_plain each, value]
  rfl

theorem binary_member {name : String} {n : Nat}
    (plain : ((ascii name).all fun b => decide (Plain b)) = true) (x : Binary n) :
    renderMember (field name (binary x)) = Json.member name (Json.binary x) :=
  renderMember_field plain (binary_render x)

theorem number_member {name : String}
    (plain : ((ascii name).all fun b => decide (Plain b)) = true) (n : Number) :
    renderMember (field name (number n)) = Json.member name (Json.number n) :=
  renderMember_field plain (number_render n)

theorem integer_member {name : String}
    (plain : ((ascii name).all fun b => decide (Plain b)) = true) (n : Nat) :
    renderMember (field name (integer n)) = Json.member name (Json.decimal n) :=
  renderMember_field plain rfl

theorem skipped_members {name : String} {n : Nat}
    (plain : ((ascii name).all fun b => decide (Plain b)) = true) (x : Option (Binary n)) :
    (skipped name binary x).map renderMember =
      (x.map fun a => Json.member name (Json.binary a)).toList := by
  cases x with
  | none => rfl
  | some a => exact congrArg (List.cons · []) (binary_member plain a)

/-- The text that is hashed into a receipt is the text of the value. -/
theorem message_json (m : Message) : m.json = m.value.render := by
  rw [Message.value, Value.render, renderMembers_eq, List.map_append, List.map_append,
    skipped_members (by decide), skipped_members (by decide), Message.required]
  simp (disch := decide) only [List.map_cons, List.map_nil, integer_member, binary_member,
    number_member]
  rfl

/-! ### Texts anyone reads as JSON -/

/-- The byte of a digit. -/
def digit (d : Nat) : UInt8 := UInt8.ofNat (Nat.digitChar d).toNat

theorem digit_range : ∀ d < 10, (48 ≤ digit d ∧ digit d ≤ 57) ∧ (0 < d → 49 ≤ digit d) := by decide

theorem decimal_small {n : Nat} (small : n < 10) : Json.decimal n = [digit n] := by
  rw [Json.decimal, Nat.toDigits_of_lt_base small]
  rfl

theorem decimal_large {n : Nat} (large : 10 ≤ n) :
    Json.decimal n = Json.decimal (n / 10) ++ [digit (n % 10)] := by
  rw [Json.decimal, Nat.toDigits_of_base_le (by decide) large, List.map_append]
  rfl

theorem Numeral.ne_nil {literal : List UInt8} (numeral : Numeral literal) : literal ≠ [] := by
  rcases numeral with rfl | ⟨d, rest, rfl, -⟩ <;> exact List.cons_ne_nil _ _

/-- Decimals have no leading zero. -/
theorem decimal_numeral (n : Nat) :
    Numeral (Json.decimal n) ∧ (0 < n → Json.decimal n ≠ [48]) := by
  induction n using Nat.strongRecOn with
  | ind n ih =>
    by_cases small : n < 10
    · obtain ⟨⟨-, high⟩, leads⟩ := digit_range n small
      rw [decimal_small small]
      rcases Nat.eq_zero_or_pos n with rfl | positive
      · exact ⟨.inl rfl, fun never => absurd never (Nat.lt_irrefl 0)⟩
      · have low := leads positive
        refine ⟨.inr ⟨digit n, [], rfl, ⟨low, high⟩, fun _ member => nomatch member⟩, fun _ same => ?_⟩
        rw [List.singleton_inj.mp same] at low
        exact absurd low (by decide)
    · have large : 10 ≤ n := Nat.le_of_not_lt small
      have positive : 0 < n / 10 := Nat.div_pos large (by decide)
      obtain ⟨numeral, leads⟩ := ih (n / 10) (Nat.div_lt_self (by omega) (by decide))
      have range := (digit_range (n % 10) (Nat.mod_lt n (by decide))).1
      rw [decimal_large large]
      refine ⟨numeral.append (leads positive) range, fun _ same => Numeral.ne_nil numeral ?_⟩
      have lengths := congrArg List.length same
      rw [List.length_append, List.length_singleton, List.length_singleton] at lengths
      exact List.eq_nil_of_length_eq_zero (by omega)

theorem binary_strict {n : Nat} (x : Binary n) : (binary x).Strict :=
  Base64.encode_each (by decide) (by decide) x.bytes

theorem number_strict (n : Number) : (number n).Strict := by
  intro b member
  rcases (decimal_numeral n.val).1 with zero | ⟨d, rest, same, ⟨-, high⟩, digits⟩
  · rw [zero, List.mem_singleton] at member
    exact member ▸ by decide
  · rw [same, List.mem_cons] at member
    have most : b ≤ 57 := by
      rcases member with rfl | later
      · exact high
      · exact (digits b later).2
    exact UInt8.lt_of_le_of_lt most (by decide)

theorem integer_strict (n : Nat) : (integer n).Strict := (decimal_numeral n).1

theorem text_strict {s : String}
    (plain : (s.toUTF8.data.toList.all fun b => decide (b < 128)) = true) : (text s).Strict :=
  fun b member => of_decide_eq_true (List.all_eq_true.mp plain b member)

theorem field_strict {name : String} {v : Value}
    (plain : ((ascii name).all fun b => decide (b < 128)) = true) (strict : v.Strict) :
    StrictMember (field name v) :=
  ⟨fun b member => of_decide_eq_true (List.all_eq_true.mp plain b member), strict⟩

theorem optional_strict {α : Type} {value : α → Value} (x : Option α)
    (each : ∀ a, x = some a → (value a).Strict) : (optional value x).Strict := by
  cases x with
  | none => trivial
  | some a => exact each a rfl

theorem bundle_strict (b : Bundle) : b.value.Strict :=
  ⟨field_strict (by decide) (binary_strict _), field_strict (by decide) (number_strict _),
    field_strict (by decide) (binary_strict _), field_strict (by decide) (binary_strict _),
    field_strict (by decide) (binary_strict _), field_strict (by decide) (binary_strict _), trivial⟩

theorem transcript_strict (t : Transcript) : t.value.Strict :=
  ⟨field_strict (by decide) (binary_strict _), field_strict (by decide) (number_strict _),
    field_strict (by decide) (number_strict _), field_strict (by decide) (bundle_strict _),
    field_strict (by decide) (bundle_strict _), field_strict (by decide) (number_strict _),
    field_strict (by decide) (binary_strict _), field_strict (by decide) (binary_strict _),
    field_strict (by decide) (binary_strict _), trivial⟩

theorem decision_strict (d : Decision) : d.value.Strict := by
  have phase : d.phase.value.Strict := by
    cases d.phase <;> exact text_strict (by decide)
  have flags (flags : Flags) : flags.value.Strict := ⟨trivial, trivial, trivial⟩
  exact ⟨field_strict (by decide) phase, field_strict (by decide) (flags _),
    field_strict (by decide) (flags _), trivial⟩

theorem digest_strict (d : MessageDigest) : d.value.Strict :=
  ⟨field_strict (by decide) (number_strict _), field_strict (by decide) (integer_strict _),
    field_strict (by decide) (binary_strict _), trivial⟩

theorem message_strict (m : Message) : m.value.Strict := by
  have required : ∀ f ∈ m.required, StrictMember f := by
    rw [← strictMembers_iff]
    exact ⟨field_strict (by decide) (integer_strict _), field_strict (by decide) (binary_strict _),
      field_strict (by decide) (number_strict _), field_strict (by decide) (number_strict _),
      field_strict (by decide) (binary_strict _), field_strict (by decide) (binary_strict _),
      field_strict (by decide) (number_strict _), field_strict (by decide) (binary_strict _),
      field_strict (by decide) (binary_strict _), field_strict (by decide) (number_strict _),
      field_strict (by decide) (integer_strict _), field_strict (by decide) (binary_strict _),
      field_strict (by decide) (binary_strict _), trivial⟩
  have left_out {name : String} {n : Nat} (x : Option (Binary n))
      (plain : ((ascii name).all fun b => decide (b < 128)) = true) :
      ∀ f ∈ skipped name binary x, StrictMember f := by
    cases x with
    | none => exact fun _ member => nomatch member
    | some a =>
      intro f member
      rw [List.mem_singleton.mp member]
      exact field_strict plain (binary_strict a)
  refine strictMembers_iff.mpr ?_
  rw [List.forall_mem_append, List.forall_mem_append]
  exact ⟨⟨required, left_out _ (by decide)⟩, left_out _ (by decide)⟩

theorem record_strict (e : Exchange)
    (reason : ∀ s, e.termination = some s → (text s).Strict) : e.value.Strict := by
  have messages : (Value.array (e.messages.map Message.value)).Strict := by
    refine strictItems_iff.mpr fun v member => ?_
    obtain ⟨m, -, rfl⟩ := List.mem_map.mp member
    exact message_strict m
  have receipts : (Value.array (e.receipts.map MessageDigest.value)).Strict := by
    refine strictItems_iff.mpr fun v member => ?_
    obtain ⟨d, -, rfl⟩ := List.mem_map.mp member
    exact digest_strict d
  have transcript := optional_strict e.transcript fun t _ => transcript_strict t
  exact ⟨field_strict (by decide) (binary_strict _), field_strict (by decide) (number_strict _),
    field_strict (by decide) (number_strict _), field_strict (by decide) (binary_strict _),
    field_strict (by decide) (binary_strict _), field_strict (by decide) (number_strict _),
    field_strict (by decide) (binary_strict _), field_strict (by decide) (binary_strict _),
    field_strict (by decide) (decision_strict _), field_strict (by decide) (integer_strict _),
    field_strict (by decide) (integer_strict _), field_strict (by decide) transcript,
    field_strict (by decide) messages, field_strict (by decide) receipts,
    field_strict (by decide) (optional_strict _ reason), trivial⟩

end Serialization

end Innernet
