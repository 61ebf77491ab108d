import Innernet.Wire

/-! The public objects of `pq/src/api.rs`. -/
namespace Innernet

open Fallible

inductive Lifecycle where
  | enabled
  | retired
  deriving DecidableEq, Repr

structure AdvertisedBundle where
  pqVersion : UInt8
  lifecycle : Lifecycle
  bundle : Bundle
  deriving DecidableEq

structure Registration where
  expectedRevision : Option Number
  pqVersion : UInt8
  lifecycle : Lifecycle
  bundle : Bundle
  emergency : Bool
  deriving DecidableEq

structure MessageDigest where
  senderId : Number
  messageType : UInt8
  digest : Binary 32
  deriving DecidableEq

def MessageDigest.of [Native] (m : Message) : Except Error MessageDigest := do
  let digest ← Crypto.hash m.json
  return { senderId := m.senderId, messageType := m.messageType, digest }

theorem MessageDigest.of_ok [Native] {m : Message} {d : MessageDigest}
    (digested : MessageDigest.of m = .ok d) :
    d.senderId = m.senderId ∧ d.messageType = m.messageType := by
  simp only [MessageDigest.of, bind_ok, pure_ok] at digested
  obtain ⟨_, _, rfl⟩ := digested
  exact ⟨rfl, rfl⟩

/-- The directory's record of one exchange. Once the decision is terminal the bodies are dropped;
the decision and the digests of the messages stay. -/
structure Exchange where
  networkId : Binary 16
  initiatorId : Number
  responderId : Number
  initiatorBundleId : Binary 16
  responderBundleId : Binary 16
  sequence : Number
  exchangeId : Binary 16
  transcriptHash : Binary 32
  decision : Decision
  createdAt : Nat
  prepareExpiresAt : Nat
  transcript : Option Transcript
  messages : List Message
  receipts : List MessageDigest
  termination : Option String
  deriving DecidableEq

def Exchange.compact (e : Exchange) : Exchange :=
  if e.decision.terminal then { e with transcript := none, messages := [] } else e

end Innernet
