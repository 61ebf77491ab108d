import Mathlib.Order.Lattice
import Mathlib.Order.Basic
import Innernet.Crypto

/-! The wire objects and the decision machine of `pq/src/protocol.rs`. -/
namespace Innernet

open Fallible

def prepareTtl : Nat := 600

/-- `Number`: an identifier that is positive and fits a signed 64-bit column. -/
structure Number where
  val : Nat
  positive : 0 < val
  bounded : val < 2 ^ 63
  deriving DecidableEq

namespace Number

theorem one_bounded : 1 < 2 ^ 63 := by decide

theorem three_bounded : 3 < 2 ^ 63 := by decide

@[ext] theorem ext {m n : Number} (same : m.val = n.val) : m = n := by
  cases m
  cases n
  cases same
  rfl

instance : LinearOrder Number := LinearOrder.lift' val fun _ _ => ext

theorem le_def (m n : Number) : m ≤ n ↔ m.val ≤ n.val := Iff.rfl

theorem lt_def (m n : Number) : m < n ↔ m.val < n.val := by
  rw [lt_iff_not_ge, le_def, Nat.not_le]

def new (value : Nat) : Except Error Number :=
  if valid : 0 < value ∧ value < 2 ^ 63 then .ok ⟨value, valid.1, valid.2⟩ else .error .invalid

def next (n : Number) : Except Error Number := new (n.val + 1)

theorem new_ok {value : Nat} {n : Number} : new value = .ok n ↔ n.val = value := by
  unfold new
  split
  · rw [Except.ok.injEq, Number.ext_iff, eq_comm]
  · rename_i invalid
    constructor
    · intro made
      cases made
    · rintro rfl
      exact absurd ⟨n.positive, n.bounded⟩ invalid

theorem next_ok {m n : Number} : m.next = .ok n ↔ n.val = m.val + 1 := new_ok

theorem lt_of_next {m n : Number} (following : m.next = .ok n) : m < n := by
  rw [lt_def, next_ok.mp following]
  exact Nat.lt_succ_self _

/-- `to_be_bytes`. -/
def bytes (n : Number) : List UInt8 := Binary.bytes (BitVec.ofNat (8 * 8) n.val)

end Number

structure Bundle where
  bundleId : Binary 16
  bundleRevision : Number
  wgPublicKey : Binary 32
  pqKemPublicKey : Binary 1568
  pqX448PublicKey : Binary 56
  pqSigPublicKey : Binary 67
  deriving DecidableEq

namespace Bundle

def validate [Native] (b : Bundle) : Except Error Unit := do
  Crypto.validateKem b.pqKemPublicKey
  Crypto.validateX448 b.pqX448PublicKey
  Crypto.validateSigning b.pqSigPublicKey

/-- What `Bundle::encode` writes, part by part; the transcript flattens it in place. -/
def parts (b : Bundle) : List (List UInt8) :=
  [b.bundleId.bytes, b.bundleRevision.bytes, b.wgPublicKey.bytes, b.pqKemPublicKey.bytes,
    b.pqX448PublicKey.bytes, b.pqSigPublicKey.bytes]

end Bundle

structure Transcript where
  networkId : Binary 16
  initiatorId : Number
  responderId : Number
  initiator : Bundle
  responder : Bundle
  sequence : Number
  exchangeId : Binary 16
  operatorPskId : Binary 16
  ciphertext : Binary 1624
  deriving DecidableEq

namespace Transcript

def validate [Native] (t : Transcript) : Except Error Unit := do
  require (t.initiatorId < t.responderId) .invalid
  t.initiator.validate
  t.responder.validate
  -- the last 56 bytes of the ciphertext are the ephemeral X448 key
  Crypto.validateX448 (t.ciphertext.setWidth _)

def encode (t : Transcript) : List UInt8 :=
  List.flatten <|
    [ascii "innernet pq-psk v1 transcript", [1], t.networkId.bytes, t.initiatorId.bytes,
      t.responderId.bytes] ++ t.initiator.parts ++ t.responder.parts ++
    [t.sequence.bytes, t.exchangeId.bytes, t.operatorPskId.bytes, t.ciphertext.bytes]

end Transcript

inductive Kind where
  | propose
  | ready
  | commit
  | installed
  | confirmed
  | abort
  deriving DecidableEq, Repr

namespace Kind

/-- `kind as u8`. -/
def code : Kind → UInt8
  | propose => 1
  | ready => 2
  | commit => 3
  | installed => 4
  | confirmed => 5
  | abort => 6

def tryFrom (value : UInt8) : Except Error Kind :=
  if value = 1 then .ok propose
  else if value = 2 then .ok ready
  else if value = 3 then .ok commit
  else if value = 4 then .ok installed
  else if value = 5 then .ok confirmed
  else if value = 6 then .ok abort
  else .error .invalid

theorem tryFrom_ok {value : UInt8} {kind : Kind} : tryFrom value = .ok kind ↔ value = kind.code := by
  constructor
  · intro read
    unfold tryFrom at read
    split_ifs at read with h h h h h h <;> cases read <;> exact h
  · rintro rfl
    cases kind <;> rfl

theorem code_injective : Function.Injective code := by
  intro k l same
  have read := tryFrom_ok.mpr (rfl : k.code = k.code)
  rw [same, tryFrom_ok.mpr rfl] at read
  exact (Except.ok.inj read).symm

end Kind

structure Message where
  version : UInt8
  networkId : Binary 16
  initiatorId : Number
  responderId : Number
  initiatorBundleId : Binary 16
  responderBundleId : Binary 16
  sequence : Number
  exchangeId : Binary 16
  transcriptHash : Binary 32
  senderId : Number
  messageType : UInt8
  tag : Binary 32
  signature : Binary 132
  ciphertext : Option (Binary 1624)
  operatorPskId : Option (Binary 16)
  deriving DecidableEq

namespace Message

def validateShape (m : Message) : Except Error Kind := do
  let kind ← Kind.tryFrom m.messageType
  require (m.version = 1 ∧ m.initiatorId < m.responderId) .invalid
  let initiator := m.senderId = m.initiatorId
  let responder := m.senderId = m.responderId
  require ((initiator ∨ responder) ∧ (kind = .ready → responder) ∧
    (kind = .propose ∨ kind = .commit ∨ kind = .abort → initiator)) .invalid
  require ((m.ciphertext.isSome = true ↔ kind = .propose) ∧
    (m.operatorPskId.isSome = true ↔ kind = .propose)) .invalid
  return kind

def envelope (m : Message) : List UInt8 :=
  List.flatten [ascii "innernet pq-psk v1 message", [m.version], m.networkId.bytes,
    m.initiatorId.bytes, m.responderId.bytes, m.initiatorBundleId.bytes,
    m.responderBundleId.bytes, m.sequence.bytes, m.exchangeId.bytes, m.transcriptHash.bytes,
    m.senderId.bytes, [m.messageType]]

variable [Native]

def authenticate (m : Message) (t : Transcript) : Except Error Unit := do
  let _ ← m.validateShape
  require (m.networkId = t.networkId ∧ m.initiatorId = t.initiatorId ∧
    m.responderId = t.responderId ∧ m.initiatorBundleId = t.initiator.bundleId ∧
    m.responderBundleId = t.responder.bundleId ∧ m.sequence = t.sequence ∧
    m.exchangeId = t.exchangeId) .invalid
  let transcriptHash ← Crypto.hash t.encode
  require (m.transcriptHash = transcriptHash ∧
    (m.ciphertext.all fun c => c = t.ciphertext) = true ∧
    (m.operatorPskId.all fun i => i = t.operatorPskId) = true) .invalid
  let bundle := if m.senderId = m.initiatorId then t.initiator else t.responder
  Crypto.verify bundle.pqSigPublicKey m.signature (m.envelope ++ m.tag.bytes)

def confirm (m : Message) (candidate : Candidate) : Except Error Unit := do
  let _ ← m.validateShape
  let key := if m.senderId = m.initiatorId then candidate.initiatorConfirmation
    else candidate.responderConfirmation
  let tag ← Crypto.tag key m.envelope
  require (tag = m.tag) .crypto

def signed (drawn : Nat) (t : Transcript) (kind : Kind) (sender : Number) (candidate : Candidate)
    (signingKey : Binary 66) : Except Error Message := do
  let transcriptHash ← Crypto.hash t.encode
  let message : Message := {
    version := 1
    networkId := t.networkId
    initiatorId := t.initiatorId
    responderId := t.responderId
    initiatorBundleId := t.initiator.bundleId
    responderBundleId := t.responder.bundleId
    sequence := t.sequence
    exchangeId := t.exchangeId
    transcriptHash
    senderId := sender
    messageType := kind.code
    tag := 0
    signature := 0
    ciphertext := if kind = .propose then some t.ciphertext else none
    operatorPskId := if kind = .propose then some t.operatorPskId else none }
  let _ ← message.validateShape
  let key := if sender = t.initiatorId then candidate.initiatorConfirmation
    else candidate.responderConfirmation
  let tag ← Crypto.tag key message.envelope
  let message := { message with tag }
  let signature ← Crypto.sign drawn signingKey (message.envelope ++ tag.bytes)
  return { message with signature }

end Message

inductive Phase where
  | proposed
  | ready
  | committed
  | complete
  | aborted
  deriving DecidableEq, Repr

/-- `[bool; 2]`, indexed by side: the initiator's entry, then the responder's. -/
structure Flags where
  initiator : Bool
  responder : Bool
  deriving DecidableEq, Repr

namespace Flags

def get (f : Flags) : Bool → Bool
  | true => f.initiator
  | false => f.responder

/-- `flags[side] = true`. -/
def set (f : Flags) : Bool → Flags
  | true => { f with initiator := true }
  | false => { f with responder := true }

@[simp] theorem get_set (f : Flags) (side other : Bool) :
    (f.set side).get other = (f.get other || side == other) := by
  cases side <;> cases other <;> simp [get, set]

end Flags

structure Decision where
  phase : Phase
  installed : Flags
  confirmed : Flags
  deriving DecidableEq, Repr

namespace Decision

def default : Decision where
  phase := .proposed
  installed := ⟨false, false⟩
  confirmed := ⟨false, false⟩

def advance (d : Decision) (kind : Kind) (initiator : Bool) : Except Error Decision :=
  match d.phase, kind with
  | .proposed, .ready =>
    if initiator = false then .ok { d with phase := .ready } else .error .conflict
  | .ready, .commit =>
    if initiator = true then .ok { d with phase := .committed } else .error .conflict
  | .proposed, .abort | .ready, .abort =>
    if initiator = true then .ok { d with phase := .aborted } else .error .conflict
  | .committed, .installed =>
    if initiator = false ∨ d.installed.responder = true then
      .ok { d with installed := d.installed.set initiator }
    else .error .conflict
  | .committed, .confirmed =>
    if d.installed.get initiator = true then
      let confirmed := d.confirmed.set initiator
      .ok { d with confirmed, phase := if confirmed = ⟨true, true⟩ then .complete else .committed }
    else .error .conflict
  | _, _ => .error .conflict

def expire (d : Decision) : Decision :=
  if d.phase = .proposed ∨ d.phase = .ready then { d with phase := .aborted } else d

def terminal (d : Decision) : Bool := d.phase = .complete ∨ d.phase = .aborted

end Decision

end Innernet
