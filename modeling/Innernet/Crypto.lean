import Mathlib.Data.BitVec
import Innernet.Library.Fallible

/-! Fixed-width values, secrets and the primitives of `pq/src/crypto.rs`. The C bridge to
leancrypto and OpenSSL is a parameter: a class with one field for each foreign function, which
may report a failure on any input. -/
namespace Innernet

open Fallible

/-- `innernet_pq::Error`. -/
inductive Error where
  | invalid
  | crypto
  | random
  | conflict
  | installer
  deriving DecidableEq, Repr

/-- `[u8; N]`, as the number its bytes spell most significant byte first. The source's `Binary<N>`,
`Secret<N>` and `StoredSecret<N>` differ only in how they are printed and erased. -/
abbrev Binary (n : Nat) := BitVec (8 * n)

/-- The `n` low bytes of a number, the most significant first. -/
def Binary.digits : Nat → Nat → List UInt8
  | 0, _ => []
  | n + 1, x => UInt8.ofNat (x >>> (8 * n) % 256) :: digits n x

def Binary.bytes {n : Nat} (x : Binary n) : List UInt8 := Binary.digits n x.toNat

/-- The bytes of a byte-string literal `b"..."`. -/
def ascii (text : String) : List UInt8 := text.toList.map fun c => UInt8.ofNat c.toNat

structure HybridPublic where
  kem : Binary 1568
  x448 : Binary 56
  deriving DecidableEq

structure HybridSecret where
  kem : Binary 3168
  x448 : Binary 56
  deriving DecidableEq

structure HybridShared where
  kem : Binary 32
  x448 : Binary 56
  deriving DecidableEq

/-- The foreign functions of `native/crypto.c`; `none` is a nonzero status. The two functions that
draw on the library's own random generator take what it draws as their first argument. -/
class Native where
  pqHash : List UInt8 → Option (Binary 32)
  pqHmac : Binary 32 → List UInt8 → Option (Binary 32)
  pqHkdf : (ikm : List UInt8) → (salt : Binary 32) → (info : List UInt8) → Option (Binary 32)
  pqHybridPublic : HybridSecret → Option HybridPublic
  pqHybridEnc : (drawn : Nat) → HybridPublic → Option (Binary 1624 × HybridShared)
  pqHybridDec : Binary 1624 → HybridSecret → Option HybridShared
  pqX448Validate : Binary 56 → Option Unit
  pqSignPublic : Binary 66 → Option (Binary 67)
  pqSignValidate : Binary 67 → Option Unit
  pqSign : (drawn : Nat) → Binary 66 → List UInt8 → Option (Binary 132)
  pqVerify : Binary 132 → Binary 67 → List UInt8 → Option Unit

/-- `invoke`: any nonzero status is `Error::Crypto`. -/
def invoke {α : Type} : Option α → Except Error α
  | some a => .ok a
  | none => .error .crypto

@[simp] theorem invoke_ok {α : Type} {x : Option α} {a : α} : invoke x = .ok a ↔ x = some a := by
  cases x <;> simp [invoke]

namespace Crypto

/-- FIPS 203 modulus check of three bytes: two twelve-bit coefficients below 3329. -/
def reduced : List UInt8 → Bool
  | a :: b :: c :: rest =>
    decide (a.toNat + (b.toNat % 16) * 256 < 3329) &&
      decide (b.toNat / 16 + c.toNat * 16 < 3329) && reduced rest
  | _ => true

def validateKem (publicKey : Binary 1568) : Except Error Unit :=
  require (reduced (publicKey.bytes.take 1536) = true) .invalid

variable [Native]

def validateX448 (publicKey : Binary 56) : Except Error Unit :=
  invoke (Native.pqX448Validate publicKey)

def hash (data : List UInt8) : Except Error (Binary 32) := invoke (Native.pqHash data)

def tag (key : Binary 32) (data : List UInt8) : Except Error (Binary 32) :=
  invoke (Native.pqHmac key data)

def hybridPublic (secret : HybridSecret) : Except Error HybridPublic :=
  invoke (Native.pqHybridPublic secret)

def encapsulate (drawn : Nat) (publicKey : HybridPublic) :
    Except Error (Binary 1624 × HybridShared) := do
  validateKem publicKey.kem
  invoke (Native.pqHybridEnc drawn publicKey)

def decapsulate (ciphertext : Binary 1624) (privateKey : HybridSecret) : Except Error HybridShared :=
  invoke (Native.pqHybridDec ciphertext privateKey)

end Crypto

/-- The keys one exchange derives: the tunnel secret and one confirmation key a side. -/
structure Candidate where
  psk : Binary 32
  initiatorConfirmation : Binary 32
  responderConfirmation : Binary 32
  deriving DecidableEq

namespace Crypto

variable [Native]

def expand (ikm : List UInt8) (salt : Binary 32) (label : String) : Except Error (Binary 32) :=
  invoke (Native.pqHkdf ikm salt (ascii label ++ salt.bytes))

def derive (kem : Binary 32) (dh : Binary 56) (operator : Binary 32) (transcript : List UInt8) :
    Except Error Candidate := do
  let ikm := kem.bytes ++ dh.bytes ++ operator.bytes
  let salt ← hash transcript
  let psk ← expand ikm salt "innernet pq-psk v1 psk"
  let initiatorConfirmation ← expand ikm salt "innernet pq-psk v1 confirm i"
  let responderConfirmation ← expand ikm salt "innernet pq-psk v1 confirm r"
  return { psk, initiatorConfirmation, responderConfirmation }

def signingPublic (privateKey : Binary 66) : Except Error (Binary 67) :=
  invoke (Native.pqSignPublic privateKey)

def validateSigning (publicKey : Binary 67) : Except Error Unit :=
  invoke (Native.pqSignValidate publicKey)

def sign (drawn : Nat) (privateKey : Binary 66) (data : List UInt8) : Except Error (Binary 132) :=
  invoke (Native.pqSign drawn privateKey data)

def verify (publicKey : Binary 67) (signature : Binary 132) (data : List UInt8) : Except Error Unit :=
  invoke (Native.pqVerify signature publicKey data)

end Crypto

/-- What the analysis of an exchange relies on: the libraries compute the functions they are
documented to compute. Decapsulation under the matching secret returns what was encapsulated;
an HMAC tag determines its key; expansion under one shared secret determines the operator's part
of the input key. -/
structure Native.Sound [Native] : Prop where
  decapsulates : ∀ (drawn : Nat) (publicKey : HybridPublic) (secret : HybridSecret)
    (ciphertext : Binary 1624) (shared shared' : HybridShared),
    pqHybridPublic secret = some publicKey → pqHybridEnc drawn publicKey = some (ciphertext, shared) →
      pqHybridDec ciphertext secret = some shared' → shared' = shared
  hmacInjective : ∀ (key key' : Binary 32) (data : List UInt8) (out : Binary 32),
    pqHmac key data = some out → pqHmac key' data = some out → key = key'
  hkdfInjective : ∀ (kem : Binary 32) (dh : Binary 56) (operator operator' salt : Binary 32)
    (info : List UInt8) (out : Binary 32),
    pqHkdf (kem.bytes ++ dh.bytes ++ operator.bytes) salt info = some out →
      pqHkdf (kem.bytes ++ dh.bytes ++ operator'.bytes) salt info = some out → operator = operator'

end Innernet
