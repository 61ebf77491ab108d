import Innernet.Encoding
import Innernet.Turn
import Innernet.Arithmetic

/-! What a transcript hash and a message signature cover: two concatenations of fixed-width fields
under different labels, so every field can be read back, and the messages `Message::signed` makes
are the ones `authenticate` and `confirm` accept. -/
namespace Innernet

open Fallible

theorem Binary.bytes_injective {n : Nat} : Function.Injective (Binary.bytes (n := n)) := by
  intro x y same
  have numbers := congrArg Binary.number same
  rw [Binary.number_bytes, Binary.number_bytes] at numbers
  exact BitVec.eq_of_toNat_eq numbers

theorem Number.bytes_injective : Function.Injective Number.bytes := by
  intro m n same
  have words := Binary.bytes_injective same
  have numbers := congrArg BitVec.toNat words
  have small := m.bounded
  have small' := n.bounded
  rw [BitVec.toNat_ofNat, BitVec.toNat_ofNat, Nat.mod_eq_of_lt (by omega),
    Nat.mod_eq_of_lt (by omega)] at numbers
  exact Number.ext numbers

theorem Number.bytes_length (n : Number) : n.bytes.length = 8 := Binary.bytes_length _

/-- Concatenations of parts of the same lengths are equal part by part. -/
theorem parts_eq {α : Type*} {xs ys : List (List α)}
    (lengths : xs.map List.length = ys.map List.length) (same : xs.flatten = ys.flatten) :
    xs = ys :=
  List.eq_iff_flatten_eq.mpr ⟨same, lengths⟩

theorem Transcript.encode_injective : Function.Injective Transcript.encode := by
  intro t u same
  have parts := parts_eq (by simp [Bundle.parts, Binary.bytes_length, Number.bytes_length]) same
  simp only [Bundle.parts, List.cons_append, List.nil_append, List.cons.injEq,
    Binary.bytes_injective.eq_iff, Number.bytes_injective.eq_iff] at parts
  obtain ⟨-, -, networkId, initiatorId, responderId, b₁, b₂, b₃, b₄, b₅, b₆, c₁, c₂, c₃, c₄, c₅,
    c₆, sequence, exchangeId, operatorPskId, ciphertext, -⟩ := parts
  obtain ⟨_, _, _, ⟨_, _, _, _, _, _⟩, ⟨_, _, _, _, _, _⟩, _, _, _, _⟩ := t
  obtain ⟨_, _, _, ⟨_, _, _, _, _, _⟩, ⟨_, _, _, _, _, _⟩, _, _, _, _⟩ := u
  simp_all only

namespace Message

/-- The eleven fields the signature covers besides the tag. -/
def SameEnvelope (m m' : Message) : Prop :=
  m.version = m'.version ∧ m.networkId = m'.networkId ∧ m.initiatorId = m'.initiatorId ∧
    m.responderId = m'.responderId ∧ m.initiatorBundleId = m'.initiatorBundleId ∧
    m.responderBundleId = m'.responderBundleId ∧ m.sequence = m'.sequence ∧
    m.exchangeId = m'.exchangeId ∧ m.transcriptHash = m'.transcriptHash ∧
    m.senderId = m'.senderId ∧ m.messageType = m'.messageType

theorem envelope_injective {m m' : Message} (same : m.envelope = m'.envelope) :
    m.SameEnvelope m' := by
  have parts := parts_eq (by simp [Binary.bytes_length, Number.bytes_length]) same
  simp only [List.cons.injEq, Binary.bytes_injective.eq_iff, Number.bytes_injective.eq_iff,
    and_true, true_and] at parts
  exact parts

/-- The labels part at their twentieth byte. -/
theorem label (t : Transcript) (m : Message) : t.encode[19]? = some 116 ∧ m.envelope[19]? = some 109 :=
  ⟨rfl, rfl⟩

theorem encode_ne_envelope (t : Transcript) (m : Message) : t.encode ≠ m.envelope := by
  intro same
  have parted := label t m
  rw [same, parted.2] at parted
  exact absurd parted.1 (by decide)

end Message

/-- The senders `validate_shape` lets a kind of message have. -/
def Kind.Legal (kind : Kind) (t : Transcript) (sender : Number) : Prop :=
  (sender = t.initiatorId ∨ sender = t.responderId) ∧ (kind = .ready → sender = t.responderId) ∧
    (kind = .propose ∨ kind = .commit ∨ kind = .abort → sender = t.initiatorId)

def Transcript.bundleOf (t : Transcript) (sender : Number) : Bundle :=
  if sender = t.initiatorId then t.initiator else t.responder

/-- Verification accepts what signing produces under the matching public key. -/
def Native.Verifies [Native] : Prop :=
  ∀ drawn key publicKey data signature, pqSignPublic key = some publicKey →
    pqSign drawn key data = some signature → pqVerify signature publicKey data = some ()

/-- No two inputs the hash accepts share a digest. -/
def Native.CollisionFree [Native] : Prop :=
  ∀ data data' digest, pqHash data = some digest → pqHash data' = some digest → data = data'

namespace Message

variable [Native]

/-- The primitives one message needs succeed. -/
structure Signable (t : Transcript) (drawn : Nat) (key : Binary 66) : Prop where
  hashes : ∃ digest, Native.pqHash t.encode = some digest
  tags : ∀ confirmation data, ∃ tag, Native.pqHmac confirmation data = some tag
  signs : ∀ data, ∃ signature, Native.pqSign drawn key data = some signature

theorem signed_some {t : Transcript} {drawn : Nat} {key : Binary 66} (signable : Signable t drawn key)
    (ordered : t.initiatorId < t.responderId) {kind : Kind} {sender : Number}
    (legal : kind.Legal t sender) (candidate : Candidate) :
    ∃ m, signed drawn t kind sender candidate key = .ok m := by
  obtain ⟨transcriptHash, hashed⟩ := signable.hashes
  simp only [signed, bind_ok, pure_ok, Crypto.hash, Crypto.tag, Crypto.sign, invoke_ok]
  generalize made : Message.mk 1 t.networkId t.initiatorId t.responderId t.initiator.bundleId
    t.responder.bundleId t.sequence t.exchangeId transcriptHash sender kind.code 0 0
    (if kind = .propose then some t.ciphertext else none)
    (if kind = .propose then some t.operatorPskId else none) = m
  have shape : m.validateShape = .ok kind := by
    subst made
    simp only [validateShape, bind_ok, require_ok, pure_ok]
    refine ⟨kind, Kind.tryFrom_ok.mpr rfl, (), ⟨trivial, ordered⟩, (), legal, (), ?_, rfl⟩
    by_cases propose : kind = .propose
    · simp [propose]
    · simp [propose]
  obtain ⟨tag, tagged⟩ := signable.tags (if sender = t.initiatorId then
    candidate.initiatorConfirmation else candidate.responderConfirmation) m.envelope
  obtain ⟨signature, signed⟩ := signable.signs (envelope { m with tag } ++ tag.bytes)
  refine ⟨_, transcriptHash, hashed, kind, ?_, tag, ?_, signature, ?_, rfl⟩
  · rw [made]
    exact shape
  · rw [made]
    exact tagged
  · subst made
    exact signed

/-- What is signed with the sender's key passes both checks of the exchange it is signed for. -/
theorem signed_authentic (verifies : Native.Verifies) {t : Transcript} {drawn : Nat}
    {key : Binary 66} {kind : Kind} {sender : Number} {candidate : Candidate} {m : Message}
    (matching : Crypto.signingPublic key = .ok (t.bundleOf sender).pqSigPublicKey)
    (done : signed drawn t kind sender candidate key = .ok m) :
    m.authenticate t = .ok () ∧ m.confirm candidate = .ok () := by
  have made := signed_made done
  simp only [signed, bind_ok, pure_ok, Crypto.sign, invoke_ok] at done
  obtain ⟨hash, hashed, _, _, tag, _, signature, signed, rfl⟩ := done
  constructor
  · simp only [authenticate, bind_ok, require_ok]
    refine ⟨kind, made.shape, (), by simp, hash, hashed, (), ⟨rfl, ?_⟩, ?_⟩
    · by_cases propose : kind = .propose
      · simp [propose]
      · simp [propose]
    · exact invoke_ok.mpr (verifies drawn key _ _ signature (invoke_ok.mp matching) signed)
  · simp only [confirm, bind_ok, require_ok]
    exact ⟨kind, made.shape, _, made.tag, rfl⟩

/-- A message belongs to one transcript. -/
theorem authentic_unique (collisionFree : Native.CollisionFree) {m : Message} {t u : Transcript}
    (authentic : m.authenticate t = .ok ()) (authentic' : m.authenticate u = .ok ()) : u = t := by
  obtain ⟨-, -, -, -, -, -, hashed, -⟩ := authenticate_ok authentic
  obtain ⟨-, -, -, -, -, -, hashed', -⟩ := authenticate_ok authentic'
  exact Transcript.encode_injective
    (collisionFree _ _ _ (invoke_ok.mp hashed') (invoke_ok.mp hashed))

/-- Transcripts and messages are bound together: the encodings lose nothing and are never mistaken
for each other, every message of an exchange that can be signed is accepted in it, and no message
is accepted in two exchanges. -/
theorem binds_transcript :
    Function.Injective Transcript.encode ∧
    (∀ m m' : Message, m.envelope = m'.envelope → m.SameEnvelope m') ∧
    (∀ (t : Transcript) (m : Message), t.encode ≠ m.envelope) ∧
    (Native.Verifies → ∀ (t : Transcript) (kind : Kind) (sender : Number) (candidate : Candidate)
      (drawn : Nat) (key : Binary 66), t.initiatorId < t.responderId → kind.Legal t sender →
      Crypto.signingPublic key = .ok (t.bundleOf sender).pqSigPublicKey → Signable t drawn key →
      ∃ m, signed drawn t kind sender candidate key = .ok m ∧ m.authenticate t = .ok () ∧
        m.confirm candidate = .ok ()) ∧
    (Native.CollisionFree → ∀ (m : Message) (t : Transcript), m.authenticate t = .ok () →
      ∀ u, m.authenticate u = .ok () ↔ u = t) := by
  refine ⟨Transcript.encode_injective, fun _ _ => envelope_injective, encode_ne_envelope, ?_, ?_⟩
  · intro verifies t kind sender candidate drawn key ordered legal matching signable
    obtain ⟨m, done⟩ := signed_some signable ordered legal candidate
    exact ⟨m, done, signed_authentic verifies matching done⟩
  · intro collisionFree m t authentic u
    constructor
    · exact authentic_unique collisionFree authentic
    · rintro rfl
      exact authentic

end Message

namespace Arithmetic

/-- The sums of `native` with a hash that knows two transcripts, told apart by their sequence. -/
@[reducible] def tabled : Native where
  __ := native
  pqHash data :=
    if data = (transcript first 5).encode then some 1
    else if data = (transcript second 5).encode then some 2
    else none

/-- Two texts and two digests. -/
theorem paired_injective {a b data data' : List UInt8} {digest : Binary 32}
    (found : (if data = a then some 1 else if data = b then some 2 else none) = some digest)
    (found' : (if data' = a then some 1 else if data' = b then some 2 else none) = some digest) :
    data = data' := by
  have apart : (1 : Binary 32) ≠ 2 := by decide
  split_ifs at found with h h
  · split_ifs at found' with h' h'
    · rw [h, h']
    · exact absurd (Option.some.inj (found.trans found'.symm)) apart
  · split_ifs at found' with h' h'
    · exact absurd (Option.some.inj (found'.trans found.symm)) apart
    · rw [h, h']

theorem tabled_collisionFree : @Native.CollisionFree tabled :=
  fun _ _ _ found found' => paired_injective found found'

theorem native_verifies : @Native.Verifies native := by
  intro drawn key publicKey data signature matching signed
  cases matching
  cases signed
  exact if_pos rfl

end Arithmetic

/-- The proposal of a first exchange is accepted in it, and refused in the second. -/
theorem Message.binds_transcript_first : letI := Arithmetic.tabled
    ∃ m : Message, m.authenticate (Arithmetic.transcript Arithmetic.first 5) = .ok () ∧
      m.authenticate (Arithmetic.transcript Arithmetic.second 5) ≠ .ok () := by
  let _ := Arithmetic.tabled
  obtain ⟨injective, -, -, accepts, unique⟩ := Message.binds_transcript
  obtain ⟨m, -, authentic, -⟩ := accepts Arithmetic.native_verifies
    (Arithmetic.transcript Arithmetic.first 5) .propose Arithmetic.second ⟨0, 0, 0⟩ 0
    (Arithmetic.identity 2 Arithmetic.first).signing (by decide +kernel)
    ⟨.inl rfl, fun ready => (nomatch ready), fun _ => rfl⟩ (by decide +kernel)
    ⟨⟨1, if_pos rfl⟩, fun _ _ => ⟨_, rfl⟩, fun _ => ⟨_, rfl⟩⟩
  refine ⟨m, authentic, ?_⟩
  intro mistaken
  have same := (unique Arithmetic.tabled_collisionFree m _ authentic _).mp mistaken
  exact absurd (congrArg Transcript.sequence same) (by decide)

end Innernet
