import Innernet.Encoding
import Innernet.Server.Operations
import Innernet.Endpoint

/-! A stand-in for the foreign libraries that a run can be computed with: sums for hashes and tags,
ciphertexts that carry their coins, signatures that name their key. It keeps what `Native.Sound`
asks of the libraries, so the assumptions of the analysis can be met together. -/
namespace Innernet

namespace Arithmetic

def checksum (bytes : List UInt8) : Nat :=
  bytes.foldl (fun n b => (n * 257 + b.toNat + 1) % 2 ^ 256) 0

def shared (ciphertext : Binary 1624) : HybridShared where
  kem := ciphertext.setWidth _
  x448 := 0

/-- A signature holds the public key and the checksum of what it signs. -/
def signature (publicKey : Binary 67) (data : List UInt8) : Binary 132 :=
  BitVec.ofNat _ (publicKey.toNat * 2 ^ 256 + checksum data)

@[reducible] def native : Native where
  pqHash data := some (BitVec.ofNat _ (checksum data))
  pqHmac key data := some (key + BitVec.ofNat _ (checksum data))
  pqHkdf ikm salt info := some
    (BitVec.ofNat _ (Binary.number (ikm.drop 88)) + salt + BitVec.ofNat _ (checksum info))
  pqHybridPublic secret := some ⟨0, secret.x448⟩
  pqHybridEnc drawn _ := some (BitVec.ofNat _ drawn, shared (BitVec.ofNat _ drawn))
  pqHybridDec ciphertext _ := some (shared ciphertext)
  pqX448Validate _ := some ()
  pqSignPublic secret := some (secret.setWidth _)
  pqSignValidate _ := some ()
  pqSign _ secret data := some (signature (secret.setWidth _) data)
  pqVerify found publicKey data := if found = signature publicKey data then some () else none

theorem native_sound : @Native.Sound native := by
  refine @Native.Sound.mk native ?_ ?_ ?_
  · intro drawn publicKey secret ciphertext sharedSecret sharedSecret' _ enc dec
    cases enc
    cases dec
    rfl
  · intro key key' data out first second
    exact add_right_cancel (Option.some.inj (first.trans second.symm))
  · intro kem dh operator operator' salt info out first second
    have ending : ∀ operator : Binary 32,
        (kem.bytes ++ dh.bytes ++ operator.bytes).drop 88 = operator.bytes := by
      intro operator
      rw [List.drop_left' (by rw [List.length_append, Binary.bytes_length, Binary.bytes_length])]
    have same := Option.some.inj (first.trans second.symm)
    rw [ending, ending, Binary.number_bytes, Binary.number_bytes] at same
    have same := add_right_cancel (add_right_cancel same)
    simpa using same

section Network

open Tables

/-- The identity number `n`, as generated with constant draws. -/
def identity (n : Nat) (revision : Number) : Identity where
  bundle := {
    bundleId := BitVec.ofNat _ n
    bundleRevision := revision
    wgPublicKey := BitVec.ofNat _ n
    pqKemPublicKey := 0
    pqX448PublicKey := 0
    pqSigPublicKey := BitVec.ofNat _ n }
  kem := 0
  x448 := 0
  signing := BitVec.ofNat _ n

def first : Number := ⟨1, Nat.one_pos, Number.one_bounded⟩
def second : Number := ⟨2, by decide, by decide⟩
def third : Number := ⟨3, by decide, by decide⟩

/-- The key of the identity with the same number, in base64. -/
def key : Nat → String
  | 2 => String.ofList (List.replicate 42 'A' ++ ['I', '='])
  | 3 => String.ofList (List.replicate 42 'A' ++ ['M', '='])
  | _ => String.ofList (List.replicate 42 'A' ++ ['E', '='])

def peer (name ip : String) (id : Nat) (isServer : Bool) : PeerRow where
  name
  ip
  publicKey := key id
  cidrId := 1
  isDisabled := false
  isRedeemed := true
  isServer
  inviteExpires := none

/-- A server and two peers in one CIDR, before any bundle is registered. -/
def site : Database where
  peers := (((∅ : Table Nat PeerRow).insert 1 (peer "server" "10.0.0.1" 1 true)).insert 2
    (peer "alice" "10.0.0.2" 2 false)).insert 3 (peer "bob" "10.0.0.3" 3 false)
  cidrs := (∅ : Table Nat (Option Nat)).insert 1 none
  associations := ∅
  network := {
    networkId := 7
    visibilityRevision := 0
    sweptVisibilityRevision := 0
    maxPeerId := 3
    enabled := true
    managementReady := true }
  bundleHistory := ∅
  bundles := ∅
  exchanges := ∅

def limits : Limits where
  peerActive := 8
  globalActive := 64
  peerIds := 64
  bundleIds := 64
  databaseBytes := 2 ^ 30
  recoveryReserveBytes := 0

def registration (i : Identity) : Registration where
  expectedRevision := none
  pqVersion := 1
  lifecycle := .enabled
  bundle := i.bundle
  emergency := false

/-- A peer's state once it has registered the identity, with the peers it has seen. -/
def endpoint (self : Number) (identity : Identity) (relationships : Table Number Relationship) :
    EndpointState where
  networkId := 7
  peerId := self
  serverId := first
  serverPublicKey := 0
  policy := .strict
  identity
  enrollment := .advertised
  registration := registration identity
  management := {
    provisionId := 0
    psk := 0
    verified := true
    staged := none
    previous := none }
  relationships

/-- Both peers register their first identity. -/
def registrations : List Operation :=
  [.register 2 (key 2) (registration (identity 2 first)) limits 0 10,
    .register 3 (key 3) (registration (identity 3 first)) limits 0 10]

/-- The proposal of an exchange, signed by the initiator. -/
def proposal (sequence : Number) (exchangeId : Binary 16) : Option Message :=
  letI := native
  let t : Transcript := {
    networkId := 7
    initiatorId := second
    responderId := third
    initiator := (identity 2 first).bundle
    responder := (identity 3 first).bundle
    sequence
    exchangeId
    operatorPskId := 0
    ciphertext := 0 }
  match Crypto.derive (shared t.ciphertext).kem 0 0 t.encode >>= fun candidate =>
      Message.signed 0 t .propose second candidate (identity 2 first).signing with
  | .ok message => some message
  | .error _ => none

/-- The initiator submits the proposal of an exchange. -/
def proposes (sequence : Number) (exchangeId : Binary 16) (now : Nat) : List Operation :=
  ((proposal sequence exchangeId).map fun message =>
    .submit 2 (key 2) 3 message limits 0 now).toList

section Exchanges

attribute [local instance] native

def transcript (sequence : Number) (exchangeId : Binary 16) : Transcript where
  networkId := 7
  initiatorId := second
  responderId := third
  initiator := (identity 2 first).bundle
  responder := (identity 3 first).bundle
  sequence
  exchangeId
  operatorPskId := 0
  ciphertext := 0

/-- The messages of an exchange, in order, each signed by its sender. -/
def letters (t : Transcript) (sent : List (Kind × Number)) : Except Error (List Message) := do
  let candidate ← Crypto.derive (shared t.ciphertext).kem 0 0 t.encode
  sent.mapM fun (kind, sender) =>
    Message.signed 0 t kind sender candidate (identity sender.val first).signing

/-- A record as a directory could show it. -/
def shown (t : Transcript) (phase : Phase) (sent : List (Kind × Number)) : Option Exchange :=
  match letters t sent, Crypto.hash t.encode with
  | .ok messages, .ok transcriptHash => some {
      networkId := t.networkId
      initiatorId := t.initiatorId
      responderId := t.responderId
      initiatorBundleId := t.initiator.bundleId
      responderBundleId := t.responder.bundleId
      sequence := t.sequence
      exchangeId := t.exchangeId
      transcriptHash
      decision := { Decision.default with phase }
      createdAt := 10
      prepareExpiresAt := 610
      transcript := some t
      messages
      receipts := []
      termination := none }
  | _, _ => none

/-- A cycle of an endpoint that is shown the record; an exchange is opened where there is none. -/
def turn (other : Number) (record : Option Exchange) : Deed :=
  .reconcile {
    other
    remote := record
    now := 20
    rotationInterval := 86400
    idleTimeout := 0
    install := .ok ()
    fresh := .ok true
    draws := ⟨if record.isSome then .error .random else .ok 5, 0, 0⟩ }

end Exchanges

/-- The database after the operations, starting from the site. -/
def served (ops : List Operation) : Database :=
  ops.foldl (fun db op => @Operation.apply native op db) site

def refusal {α : Type} : Except ServerError α → Option ServerError
  | .error e => some e
  | .ok _ => none

/-- Sequence, exchange id and phase of every record. -/
def rows (db : Database) : List (Number × Binary 16 × Phase) :=
  db.exchanges.entries.map fun e =>
    (e.2.record.sequence, e.2.record.exchangeId, e.2.record.decision.phase)

end Network

end Arithmetic

end Innernet
