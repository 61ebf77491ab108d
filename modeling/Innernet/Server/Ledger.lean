import Innernet.Library.Runs
import Innernet.Server.Record

/-! What the mailbox is for, apart from its tables: one record a key, each under the bundles now
registered for its two peers, and a registry of bundle ids that only grows. -/
namespace Innernet

open Fallible Exchange

structure Ledger where
  record : ExchangeKey → Option Exchange
  bundle : Nat → Option AdvertisedBundle
  spent : Binary 16 → Prop

namespace Ledger

inductive Event where
  | settled
  | opened (record : Exchange) (message : Message)
  | continued (record : Exchange) (message : Message)
  | rebundled (id : Nat)
  | dropped

def put (l : Ledger) (r : Exchange) : Ledger :=
  { l with record := Function.update l.record r.key (some r) }

/-- Peers that are party to no record leave with their bundles. -/
def without (l : Ledger) (gone : Nat → Bool) : Ledger :=
  { l with bundle := fun p => if gone p then none else l.bundle p }

def rebundle (l : Ledger) (id : Nat) (b : AdvertisedBundle) : Ledger where
  record k := if k.involves id then none else l.record k
  bundle := Function.update l.bundle id (some b)
  spent x := l.spent x ∨ x = b.bundle.bundleId

/-- A row is left alone or closed. -/
def Settled (old new : Option Exchange) : Prop :=
  new = old ∨ ∃ r r', old = some r ∧ new = some r' ∧ Closing r r'

/-- A bundle is enabled under an id never registered before, or the current one is retired. -/
def Replaces (l : Ledger) (id : Nat) (b : AdvertisedBundle) : Prop :=
  (b.lifecycle = .enabled ∧ ¬ l.spent b.bundle.bundleId) ∨
    (b.lifecycle = .retired ∧ ∃ c, l.bundle id = some c ∧ c.bundle.bundleId = b.bundle.bundleId)

/-- The bundle the directory holds for a proposal's side. -/
def Advertises (l : Ledger) (id : Nat) (b : Bundle) : Prop :=
  ∃ a, l.bundle id = some a ∧ a.lifecycle = .enabled ∧ a.bundle = b

variable [Native]

inductive Step : Ledger → Event → Ledger → Prop where
  | settle {l : Ledger} {record : ExchangeKey → Option Exchange} :
      (∀ k, Settled (l.record k) (record k)) → Step l .settled { l with record }
  | opened {l : Ledger} {r : Exchange} {t : Transcript} {message : Message} :
      Opening r t message → l.Advertises r.initiatorId.val t.initiator →
      l.Advertises r.responderId.val t.responder →
      (∀ old, l.record r.key = some old → old.sequence < r.sequence) →
      (∀ k old, l.record k = some old → k.initiatorId = r.initiatorId.val →
        k.responderId = r.responderId.val → old.decision.terminal = true) →
      Step l (.opened r message) (l.put r)
  | continued {l : Ledger} {r r' : Exchange} {t : Transcript} {message : Message} {kind : Kind} :
      l.record r.key = some r → Continuing r r' t message kind →
      Step l (.continued r' message) (l.put r')
  | rebundled {l : Ledger} {id : Nat} {b : AdvertisedBundle} :
      (∀ k r, l.record k = some r → k.involves id → r.decision.terminal = true) →
      l.Replaces id b → b.bundle.validate = .ok () → b.pqVersion = 1 →
      Step l (.rebundled id) (l.rebundle id b)
  | dropped {l : Ledger} (gone : Nat → Bool) :
      (∀ k r, l.record k = some r → gone k.initiatorId = false ∧ gone k.responderId = false) →
      Step l .dropped (l.without gone)

theorem Step.opened_cases {l l' : Ledger} {r : Exchange} {message : Message}
    (step : Step l (.opened r message) l') : l' = l.put r ∧ ∃ t, Opening r t message ∧
      l.Advertises r.initiatorId.val t.initiator ∧ l.Advertises r.responderId.val t.responder ∧
      (∀ old, l.record r.key = some old → old.sequence < r.sequence) ∧
      (∀ k old, l.record k = some old → k.initiatorId = r.initiatorId.val →
        k.responderId = r.responderId.val → old.decision.terminal = true) := by
  cases step with
  | opened opening initiator responder newer idle =>
    exact ⟨rfl, _, opening, initiator, responder, newer, idle⟩

theorem Step.continued_cases {l l' : Ledger} {r' : Exchange} {message : Message}
    (step : Step l (.continued r' message) l') : l' = l.put r' ∧ ∃ r t kind,
      l.record r.key = some r ∧ Continuing r r' t message kind := by
  cases step with
  | continued found continuing => exact ⟨rfl, _, _, _, found, continuing⟩

structure Inv (l : Ledger) : Prop where
  key : ∀ k r, l.record k = some r → r.key = k
  formed : ∀ k r, l.record k = some r → r.WellFormed
  initiator : ∀ k r, l.record k = some r →
    ∃ b, l.Advertises k.initiatorId b ∧ b.bundleId = k.initiatorBundleId
  responder : ∀ k r, l.record k = some r →
    ∃ b, l.Advertises k.responderId b ∧ b.bundleId = k.responderBundleId
  spent : ∀ p b, l.bundle p = some b → l.spent b.bundle.bundleId
  unique : ∀ p q b c, l.bundle p = some b → l.bundle q = some c →
    b.bundle.bundleId = c.bundle.bundleId → p = q
  checked : ∀ p b, l.bundle p = some b → b.bundle.validate = .ok () ∧ b.pqVersion = 1

omit [Native] in
theorem record_put (l : Ledger) (r : Exchange) (k : ExchangeKey) :
    (l.put r).record k = if k = r.key then some r else l.record k := by
  simp [put, Function.update_apply]

omit [Native] in
theorem bundle_rebundle (l : Ledger) (id : Nat) (b : AdvertisedBundle) (p : Nat) :
    (l.rebundle id b).bundle p = if p = id then some b else l.bundle p := by
  simp [rebundle, Function.update_apply]

omit [Native] in
theorem Settled.closed {old : Option Exchange} {r' : Exchange} (settled : Settled old (some r')) :
    ∃ r, old = some r ∧ (r' = r ∨ Closing r r') := by
  rcases settled with same | ⟨r, _, before, after, closing⟩
  · exact ⟨r', same.symm, .inl rfl⟩
  · cases after
    exact ⟨r, before, .inr closing⟩

omit [Native] in
theorem closing_key {r r' : Exchange} (closing : Closing r r') : r'.key = r.key := by
  obtain ⟨_, _, rfl, _⟩ := closing.shape
  rfl

theorem Inv.put {l : Ledger} (inv : l.Inv) {r : Exchange} (formed : r.WellFormed)
    (initiator : ∃ b, l.Advertises r.initiatorId.val b ∧ b.bundleId = r.initiatorBundleId)
    (responder : ∃ b, l.Advertises r.responderId.val b ∧ b.bundleId = r.responderBundleId) :
    (l.put r).Inv := by
  have rows : ∀ k r', (l.put r).record k = some r' → (k = r.key ∧ r' = r) ∨
      l.record k = some r' := by
    intro k r' found
    rw [record_put] at found
    split at found
    · rename_i same
      exact .inl ⟨same, (Option.some.inj found).symm⟩
    · exact .inr found
  constructor
  · intro k r' found
    rcases rows k r' found with ⟨rfl, rfl⟩ | old
    · rfl
    · exact inv.key k r' old
  · intro k r' found
    rcases rows k r' found with ⟨rfl, rfl⟩ | old
    · exact formed
    · exact inv.formed k r' old
  · intro k r' found
    rcases rows k r' found with ⟨rfl, rfl⟩ | old
    · exact initiator
    · exact inv.initiator k r' old
  · intro k r' found
    rcases rows k r' found with ⟨rfl, rfl⟩ | old
    · exact responder
    · exact inv.responder k r' old
  · exact inv.spent
  · exact inv.unique
  · exact inv.checked

theorem Inv.settle {l : Ledger} (inv : l.Inv) {record : ExchangeKey → Option Exchange}
    (settled : ∀ k, Settled (l.record k) (record k)) : Inv { l with record } := by
  have rows : ∀ k r', record k = some r' → ∃ r, l.record k = some r ∧ (r' = r ∨ Closing r r') := by
    intro k r' found
    have row := settled k
    rw [found] at row
    exact row.closed
  constructor
  · intro k r' found
    obtain ⟨r, before, same | closing⟩ := rows k r' found
    · exact same ▸ inv.key k r before
    · rw [closing_key closing]
      exact inv.key k r before
  · intro k r' found
    obtain ⟨r, before, same | closing⟩ := rows k r' found
    · exact same ▸ inv.formed k r before
    · exact (inv.formed k r before).close closing
  · intro k r' found
    obtain ⟨r, before, -⟩ := rows k r' found
    exact inv.initiator k r before
  · intro k r' found
    obtain ⟨r, before, -⟩ := rows k r' found
    exact inv.responder k r before
  · exact inv.spent
  · exact inv.unique
  · exact inv.checked

theorem Inv.without {l : Ledger} (inv : l.Inv) {gone : Nat → Bool}
    (stay : ∀ k r, l.record k = some r → gone k.initiatorId = false ∧ gone k.responderId = false) :
    (l.without gone).Inv := by
  have bundles : ∀ p b, (l.without gone).bundle p = some b → l.bundle p = some b := by
    intro p b found
    simp only [Ledger.without] at found
    split at found
    · cases found
    · exact found
  constructor
  · exact inv.key
  · exact inv.formed
  · intro k r found
    obtain ⟨b, ⟨a, current, enabled, rfl⟩, same⟩ := inv.initiator k r found
    exact ⟨_, ⟨a, by simp [Ledger.without, (stay k r found).1, current], enabled, rfl⟩, same⟩
  · intro k r found
    obtain ⟨b, ⟨a, current, enabled, rfl⟩, same⟩ := inv.responder k r found
    exact ⟨_, ⟨a, by simp [Ledger.without, (stay k r found).2, current], enabled, rfl⟩, same⟩
  · exact fun p b found => inv.spent p b (bundles p b found)
  · exact fun p q b c first second => inv.unique p q b c (bundles p b first) (bundles q c second)
  · exact fun p b found => inv.checked p b (bundles p b found)

theorem Inv.rebundle {l : Ledger} (inv : l.Inv) {id : Nat} {b : AdvertisedBundle}
    (replaces : l.Replaces id b) (checked : b.bundle.validate = .ok () ∧ b.pqVersion = 1) :
    (l.rebundle id b).Inv := by
  have rows : ∀ k r, (l.rebundle id b).record k = some r →
      ¬ k.involves id ∧ l.record k = some r := by
    intro k r found
    simp only [Ledger.rebundle] at found
    split at found
    · cases found
    · rename_i other
      exact ⟨other, found⟩
  -- no other peer holds the new id: an unspent id is nobody's, the current id is this peer's alone
  have alone : ∀ p c, p ≠ id → l.bundle p = some c → c.bundle.bundleId ≠ b.bundle.bundleId := by
    intro p c other found same
    rcases replaces with ⟨-, unspent⟩ | ⟨-, d, current, shared⟩
    · exact unspent (same ▸ inv.spent p c found)
    · exact other (inv.unique p id c d found current (same.trans shared.symm))
  constructor
  · exact fun k r found => inv.key k r (rows k r found).2
  · exact fun k r found => inv.formed k r (rows k r found).2
  · intro k r found
    obtain ⟨other, old⟩ := rows k r found
    obtain ⟨c, ⟨a, current, enabled, rfl⟩, same⟩ := inv.initiator k r old
    refine ⟨_, ⟨a, ?_, enabled, rfl⟩, same⟩
    rw [bundle_rebundle, if_neg fun same => other (.inl same)]
    exact current
  · intro k r found
    obtain ⟨other, old⟩ := rows k r found
    obtain ⟨c, ⟨a, current, enabled, rfl⟩, same⟩ := inv.responder k r old
    refine ⟨_, ⟨a, ?_, enabled, rfl⟩, same⟩
    rw [bundle_rebundle, if_neg fun same => other (.inr same)]
    exact current
  · intro p c found
    rw [bundle_rebundle] at found
    split at found
    · cases found
      exact .inr rfl
    · exact .inl (inv.spent p c found)
  · intro p q c d first second same
    rw [bundle_rebundle] at first second
    split at first <;> split at second
    · rename_i p_ q_
      exact p_.trans q_.symm
    · rename_i other
      cases first
      exact absurd same.symm (alone q d other second)
    · rename_i other _
      cases second
      exact absurd same (alone p c other first)
    · exact inv.unique p q c d first second same
  · intro p c found
    rw [bundle_rebundle] at found
    split at found
    · cases found
      exact checked
    · exact inv.checked p c found

theorem Inv.step {l l' : Ledger} {event : Event} (inv : l.Inv) (step : Step l event l') :
    l'.Inv := by
  cases step with
  | settle settled => exact inv.settle settled
  | opened opening initiator responder fresh idle =>
    obtain ⟨_, _, _, rfl, -⟩ := opening.opened
    exact inv.put opening.wellFormed ⟨_, initiator, rfl⟩ ⟨_, responder, rfl⟩
  | @continued r r' t message kind found continuing =>
    obtain ⟨key, -, -, -, -, i, o, -⟩ := continuing.fields
    have initiator := inv.initiator _ _ found
    have responder := inv.responder _ _ found
    simp only [← key] at initiator responder
    exact inv.put ((inv.formed _ _ found).continue continuing) initiator responder
  | rebundled _ replaces validated version => exact inv.rebundle replaces ⟨validated, version⟩
  | dropped gone stay => exact inv.without stay

omit [Native] in
theorem Advertises.unique {l : Ledger} {p : Nat} {b c : Bundle} (first : l.Advertises p b)
    (second : l.Advertises p c) : b = c := by
  obtain ⟨a, current, -, rfl⟩ := first
  obtain ⟨a', current', -, rfl⟩ := second
  rw [current] at current'
  cases current'
  rfl

/-- At most one record for two peers: both its bundle ids are the current ones. -/
theorem Inv.single {l : Ledger} (inv : l.Inv) {k k' : ExchangeKey} {r r' : Exchange}
    (found : l.record k = some r) (found' : l.record k' = some r')
    (initiator : k.initiatorId = k'.initiatorId) (responder : k.responderId = k'.responderId) :
    k = k' := by
  obtain ⟨b, current, same⟩ := inv.initiator k r found
  obtain ⟨b', current', same'⟩ := inv.initiator k' r' found'
  obtain ⟨c, current2, same2⟩ := inv.responder k r found
  obtain ⟨c', current2', same2'⟩ := inv.responder k' r' found'
  rw [initiator] at current
  rw [responder] at current2
  cases Advertises.unique current current'
  cases Advertises.unique current2 current2'
  cases k
  cases k'
  simp only [ExchangeKey.mk.injEq]
  exact ⟨initiator, responder, same.symm.trans same', same2.symm.trans same2'⟩

end Ledger

end Innernet
