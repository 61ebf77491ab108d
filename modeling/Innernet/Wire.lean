import Innernet.Protocol

/-! Text encodings: standard base64, WireGuard keys in it, and the JSON text of a message. -/
namespace Innernet

namespace Base64

def letter (n : Nat) : UInt8 :=
  UInt8.ofNat <|
    if n < 26 then n + 65
    else if n < 52 then n + 71
    else if n < 62 then n - 4
    else if n = 62 then 43
    else 47

def value (c : UInt8) : Option Nat :=
  let n := c.toNat
  if 65 ≤ n ∧ n ≤ 90 then some (n - 65)
  else if 97 ≤ n ∧ n ≤ 122 then some (n - 71)
  else if 48 ≤ n ∧ n ≤ 57 then some (n + 4)
  else if n = 43 then some 62
  else if n = 47 then some 63
  else none

def encode : List UInt8 → List UInt8
  | a :: b :: c :: rest =>
    let word := a.toNat * 65536 + b.toNat * 256 + c.toNat
    letter (word / 262144) :: letter (word / 4096 % 64) :: letter (word / 64 % 64) ::
      letter (word % 64) :: encode rest
  | [a, b] =>
    let word := a.toNat * 1024 + b.toNat * 4
    [letter (word / 4096), letter (word / 64 % 64), letter (word % 64), 61]
  | [a] =>
    let word := a.toNat * 16
    [letter (word / 64), letter (word % 64), 61, 61]
  | [] => []

/-- The strict decoder: padding is required and the bits it leaves over are zero. -/
def decode : List UInt8 → Option (List UInt8)
  | [] => some []
  | [w, x, 61, 61] => do
    let word := (← value w) * 64 + (← value x)
    if word % 16 = 0 then some [UInt8.ofNat (word / 16)] else none
  | [w, x, y, 61] => do
    let word := (← value w) * 4096 + (← value x) * 64 + (← value y)
    if word % 4 = 0 then some [UInt8.ofNat (word / 1024), UInt8.ofNat (word / 4 % 256)] else none
  | w :: x :: y :: z :: rest => do
    let word := (← value w) * 262144 + (← value x) * 4096 + (← value y) * 64 + (← value z)
    let tail ← decode rest
    some (UInt8.ofNat (word / 65536) :: UInt8.ofNat (word / 256 % 256) ::
      UInt8.ofNat (word % 256) :: tail)
  | _ => none

end Base64

/-- `wireguard_control::Key::from_base64`, as the bytes of the key. -/
def Key.fromBase64 (text : String) : Option (List UInt8) :=
  (Base64.decode text.toByteArray.data.toList).filter fun bytes => bytes.length = 32

namespace Json

def quoted (text : List UInt8) : List UInt8 := [34] ++ text ++ [34]

def decimal (n : Nat) : List UInt8 := (Nat.toDigits 10 n).map fun c => UInt8.ofNat c.toNat

def binary {n : Nat} (x : Binary n) : List UInt8 := quoted (Base64.encode x.bytes)

def number (n : Number) : List UInt8 := quoted (decimal n.val)

def member (name : String) (value : List UInt8) : List UInt8 := quoted (ascii name) ++ [58] ++ value

def object (members : List (List UInt8)) : List UInt8 :=
  [123] ++ List.intercalate [44] members ++ [125]

end Json

open Json in
/-- `serde_json::to_vec` of a message: the fields in order, an absent option left out. -/
def Message.json (m : Message) : List UInt8 :=
  object <|
    [member "version" (decimal m.version.toNat),
      member "network_id" (binary m.networkId),
      member "initiator_id" (number m.initiatorId),
      member "responder_id" (number m.responderId),
      member "initiator_bundle_id" (binary m.initiatorBundleId),
      member "responder_bundle_id" (binary m.responderBundleId),
      member "sequence" (number m.sequence),
      member "exchange_id" (binary m.exchangeId),
      member "transcript_hash" (binary m.transcriptHash),
      member "sender_id" (number m.senderId),
      member "message_type" (decimal m.messageType.toNat),
      member "tag" (binary m.tag),
      member "signature" (binary m.signature)] ++
    (m.ciphertext.map fun c => member "ciphertext" (binary c)).toList ++
    (m.operatorPskId.map fun i => member "operator_psk_id" (binary i)).toList

end Innernet
