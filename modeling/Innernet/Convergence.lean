import Innernet.Effects
import Innernet.Server.Keys
import Mathlib.Data.List.ReduceOption

/-! Does comparing a device with the directory and applying the outcome settle the device: what each
key of it ends up as, and what a second comparison still asks for. -/
namespace Innernet

open Tables

namespace PeerConfigBuilder

/-- What the update makes of its kernel peer. -/
def result (b : PeerConfigBuilder) (old : Option PeerInfo) : Option PeerInfo :=
  if b.removeMe then none else some (b.configure (old.getD blank))

theorem apply_lookup (b : PeerConfigBuilder) (d : Device) (k : Binary 32) :
    (b.apply d).lookup k = if k = b.publicKey then b.result (d.lookup k) else d.lookup k := by
  unfold apply result
  split
  · split
    · rename_i same
      rw [same, AList.lookup_erase]
    · rename_i other
      exact AList.lookup_erase_ne other
  · split
    · rename_i same
      rw [same, AList.lookup_insert]
    · rename_i other
      exact AList.lookup_insert_ne other

/-- The builder asks for more than an endpoint. -/
def Touches (b : PeerConfigBuilder) : Prop :=
  b.removeMe = true ∨ b.replaceAllowedIps = true ∨ b.allowedIps ≠ [] ∨
    b.persistentKeepaliveInterval ≠ none

instance (b : PeerConfigBuilder) : Decidable b.Touches := inferInstanceAs (Decidable (_ ∨ _))

end PeerConfigBuilder

/-- Builders for different keys do not meet. -/
theorem Device.update_lookup {builders : List PeerConfigBuilder}
    (distinct : (builders.map PeerConfigBuilder.publicKey).Nodup) (d : Device) (k : Binary 32) :
    (∀ b ∈ builders, b.publicKey = k → (d.update builders).lookup k = b.result (d.lookup k)) ∧
      ((∀ b ∈ builders, b.publicKey ≠ k) → (d.update builders).lookup k = d.lookup k) := by
  induction builders generalizing d with
  | nil => exact ⟨fun _ member => (nomatch member), fun _ => rfl⟩
  | cons b rest ih =>
    rw [List.map_cons, List.nodup_cons] at distinct
    obtain ⟨here, there⟩ := ih distinct.2 (b.apply d)
    change (∀ b' ∈ b :: rest, b'.publicKey = k → (Device.update (b.apply d) rest).lookup k = _) ∧
      (_ → (Device.update (b.apply d) rest).lookup k = _)
    constructor
    · intro b' member same
      rcases List.mem_cons.mp member with rfl | later
      · have alone : ∀ c ∈ rest, c.publicKey ≠ k := by
          intro c listed equal
          exact distinct.1 (List.mem_map.mpr ⟨c, listed, equal.trans same.symm⟩)
        rw [there alone, PeerConfigBuilder.apply_lookup, if_pos same.symm]
      · have apart : k ≠ b.publicKey := by
          rintro rfl
          exact distinct.1 (List.mem_map.mpr ⟨b', later, same⟩)
        rw [here b' later same, PeerConfigBuilder.apply_lookup, if_neg apart]
    · intro others
      have apart : k ≠ b.publicKey := (others b List.mem_cons_self).symm
      rw [there fun c listed => others c (List.mem_cons_of_mem _ listed),
        PeerConfigBuilder.apply_lookup, if_neg apart]

/-- A key has one spelling. -/
theorem Key.toBase64_decode {text : String} {key : Binary 32}
    (parsed : Key.decode text = some key) : Key.toBase64 key = text := by
  simp only [Key.decode, Key.fromBase64, Option.map_eq_some_iff, Option.filter_eq_some_iff,
    decide_eq_true_eq] at parsed
  obtain ⟨bytes, ⟨decoded, length⟩, rfl⟩ := parsed
  have spelled : Base64.encode bytes = text.toByteArray.data.toList := Base64.encode_decode decoded
  have same : (Key.toBase64 (Binary.ofBytes bytes)).toByteArray.data.toList =
      text.toByteArray.data.toList := by
    rw [Key.toBase64, bytes_ofList (Base64.encode_plain _), Binary.bytes_ofBytes length, spelled]
  rw [← String.toByteArray_inj]
  exact ByteArray.ext (Array.toList_inj.mp same)

theorem Key.toBase64_iff {text : String} {key k : Binary 32} (parsed : Key.decode text = some key) :
    Key.toBase64 k = text ↔ k = key := by
  constructor
  · intro same
    have again := Key.decode_toBase64 k
    rw [same, parsed] at again
    exact (Option.some.inj again).symm
  · rintro rfl
    exact Key.toBase64_decode parsed

/-- The assumptions on a directory: every key parses, and no two peers share one. -/
structure Spelled (peers : List ListedPeer) : Prop where
  parse : ∀ p ∈ peers, ∃ k, Key.decode p.publicKey = some k
  distinct : (peers.map ListedPeer.publicKey).Nodup

/-- The peer of the directory with the key. -/
def listedAs (peers : List ListedPeer) (k : Binary 32) : Option ListedPeer :=
  peers.find? fun p => Key.decode p.publicKey = some k

/-- `diff` has the peer on the interface: it is neither disabled nor the interface itself. -/
def ListedPeer.Wanted (own : Option (Binary 32)) (p : ListedPeer) (k : Binary 32) : Prop :=
  p.isDisabled = false ∧ Key.decode p.publicKey = some k ∧ own ≠ some k

instance (own : Option (Binary 32)) (p : ListedPeer) (k : Binary 32) : Decidable (p.Wanted own k) :=
  inferInstanceAs (Decidable (_ ∧ _))

theorem Spelled.listedAs {peers : List ListedPeer} (spelled : Spelled peers) {k : Binary 32}
    {p : ListedPeer} : listedAs peers k = some p ↔ p ∈ peers ∧ Key.decode p.publicKey = some k := by
  constructor
  · intro found
    have chosen := List.find?_some found
    exact ⟨List.mem_of_find?_eq_some found, of_decide_eq_true chosen⟩
  · rintro ⟨member, parsed⟩
    cases found : Innernet.listedAs peers k with
    | none =>
      have never := List.find?_eq_none.mp found p member
      exact absurd (decide_eq_true parsed) never
    | some q =>
      have listed := List.mem_of_find?_eq_some found
      have chosen := List.find?_some found
      have parsed' : Key.decode q.publicKey = some k := of_decide_eq_true chosen
      have same : q.publicKey = p.publicKey :=
        (Key.toBase64_decode parsed').symm.trans (Key.toBase64_decode parsed)
      rw [List.inj_on_of_nodup_map spelled.distinct listed member same]

theorem listedAs_none {peers : List ListedPeer} {k : Binary 32} :
    listedAs peers k = none ↔ ∀ p ∈ peers, Key.decode p.publicKey ≠ some k := by
  simp [listedAs]

namespace Device

variable (d : Device) (own : Option (Binary 32)) (now : Nat) (peers : List ListedPeer)

/-- What a comparison asks of the key. -/
def asked (k : Binary 32) : Option PeerConfigBuilder :=
  match listedAs peers k with
  | some p =>
    if p.Wanted own k then PeerDiff.peerConfigBuilder now (d.lookup k) (p.keyed k) else none
  | none => (d.lookup k).map fun _ => (PeerConfigBuilder.new k).remove

/-- The builder for a listed peer. -/
def modified (p : ListedPeer) : Option PeerConfigBuilder :=
  (Key.decode p.publicKey).bind fun k =>
    if p.Wanted own k then PeerDiff.peerConfigBuilder now (d.lookup k) (p.keyed k) else none

/-- The builder for a kernel peer. -/
def unlisted (e : Sigma fun _ : Binary 32 => PeerInfo) : Option PeerConfigBuilder :=
  if peers.any fun p => decide (p.publicKey = Key.toBase64 e.1) then none
  else some (PeerConfigBuilder.new e.1).remove

end Device

theorem mapM_of {α β : Type} {f : α → Option β} {g : α → β} {l : List α}
    (each : ∀ a ∈ l, f a = some (g a)) : l.mapM f = some (l.map g) := by
  induction l with
  | nil => rfl
  | cons a l ih =>
    rw [List.mapM_cons, each a List.mem_cons_self,
      ih fun a' later => each a' (List.mem_cons_of_mem _ later)]
    rfl

theorem Device.interfaceKey_iff {own : Option (Binary 32)} {text : String} {k : Binary 32}
    (parsed : Key.decode text = some k) : text = Device.interfaceKey own ↔ own = some k := by
  cases own with
  | none =>
    have empty : Key.decode "" = none := by decide
    constructor
    · rintro rfl
      rw [show Device.interfaceKey none = "" from rfl, empty] at parsed
      cases parsed
    · intro never
      cases never
  | some o =>
    change text = Key.toBase64 o ↔ _
    rw [eq_comm, Key.toBase64_iff parsed, Option.some.injEq]

/-- The kernel peer of a listed key is the one with the same spelling. -/
theorem Device.find_spelled (d : Device) {text : String} {k : Binary 32}
    (parsed : Key.decode text = some k) :
    (d.entries.find? fun e => Key.toBase64 e.1 = text).map (fun e => (e.1, e.2)) =
      (d.lookup k).map fun i => (k, i) := by
  cases found : d.entries.find? fun e => Key.toBase64 e.1 = text with
  | some e =>
    have member := (mem_entries_iff d e).mp (List.mem_of_find?_eq_some found)
    have chosen := List.find?_some found
    have same : Key.toBase64 e.1 = text := of_decide_eq_true chosen
    rw [Key.toBase64_iff parsed] at same
    rw [same] at member
    rw [member, Option.map_some, Option.map_some, same]
  | none =>
    cases there : d.lookup k with
    | none => rfl
    | some i =>
      have never := List.find?_eq_none.mp found ⟨k, i⟩ ((mem_entries_iff d ⟨k, i⟩).mpr there)
      exact absurd (decide_eq_true (Key.toBase64_decode parsed)) never

/-- The comparison, key by key. -/
theorem Device.compare_eq (d : Device) (own : Option (Binary 32)) (now : Nat)
    {peers : List ListedPeer} (parse : ∀ p ∈ peers, ∃ k, Key.decode p.publicKey = some k) :
    d.compare own now peers = some (peers.filterMap (d.modified own now) ++
      d.entries.filterMap (Device.unlisted peers)) := by
  have modifications : ∀ p ∈ peers, (if p.isDisabled ∨ p.publicKey = Device.interfaceKey own then
      some none else Device.unwrapped now ((d.entries.find? fun e =>
        Key.toBase64 e.1 = p.publicKey).map fun e => (e.1, e.2)) (some p)) =
      some (d.modified own now p) := by
    intro p member
    obtain ⟨k, parsed⟩ := parse p member
    have wanted : p.Wanted own k ↔
        ¬ (p.isDisabled = true ∨ p.publicKey = Device.interfaceKey own) := by
      rw [Device.interfaceKey_iff parsed, ListedPeer.Wanted, not_or, Bool.not_eq_true]
      simp [parsed]
    rw [Device.find_spelled d parsed, Device.modified, parsed, Option.bind_some]
    split
    · rename_i skipped
      rw [if_neg fun w => wanted.mp w skipped]
    · rename_i kept
      have enabled : p.isDisabled = false := (wanted.mpr kept).1
      rw [if_pos (wanted.mpr kept)]
      cases d.lookup k with
      | none =>
        simp [Device.unwrapped, PeerDiff.new, PeerDiff.builder, PeerDiff.listed, parsed, enabled]
      | some i =>
        simp [Device.unwrapped, PeerDiff.new, PeerDiff.builder, PeerDiff.listed, enabled,
          Key.toBase64_decode parsed]
  have removals : ∀ e ∈ d.entries, (if peers.any fun p => decide (p.publicKey = Key.toBase64 e.1)
      then some none else Device.unwrapped now (some (e.1, e.2)) none) =
      some (Device.unlisted peers e) := by
    intro e _
    unfold Device.unlisted
    split <;> rfl
  unfold Device.compare
  rw [mapM_of modifications, Option.bind_eq_bind, Option.bind_some, mapM_of removals]
  simp only [Option.bind_some, List.reduceOption, List.filterMap_map]
  rfl

namespace Device

variable {d : Device} {own : Option (Binary 32)} {now : Nat} {peers : List ListedPeer}

theorem modified_key {p : ListedPeer} {b : PeerConfigBuilder}
    (made : d.modified own now p = some b) : Key.decode p.publicKey = some b.publicKey := by
  unfold modified at made
  cases parsed : Key.decode p.publicKey with
  | none =>
    rw [parsed] at made
    cases made
  | some k =>
    rw [parsed, Option.bind_some] at made
    split at made
    · rw [(PeerDiff.peerConfigBuilder_some made).1]
      rfl
    · cases made

theorem unlisted_key {e : Sigma fun _ : Binary 32 => PeerInfo} {b : PeerConfigBuilder}
    (made : unlisted peers e = some b) :
    b = (PeerConfigBuilder.new e.1).remove ∧ ∀ p ∈ peers, p.publicKey ≠ Key.toBase64 e.1 := by
  unfold unlisted at made
  split at made
  · cases made
  · rename_i absent
    cases made
    refine ⟨rfl, fun p member same => absent ?_⟩
    exact List.any_eq_true.mpr ⟨p, member, decide_eq_true same⟩

/-- Every key is asked for at most once, and exactly as `asked` says. -/
theorem compare_spec (d : Device) (own : Option (Binary 32)) (now : Nat) (spelled : Spelled peers) :
    ∃ builders, d.compare own now peers = some builders ∧
      (builders.map PeerConfigBuilder.publicKey).Nodup ∧
      ∀ b, b ∈ builders ↔ d.asked own now peers b.publicKey = some b := by
  refine ⟨_, d.compare_eq own now spelled.parse, ?_, fun b => ?_⟩
  · rw [List.map_append, List.nodup_append]
    refine ⟨?_, ?_, ?_⟩
    · rw [List.Nodup, List.pairwise_map, List.pairwise_filterMap]
      have apart := List.pairwise_map.mp spelled.distinct
      refine apart.imp fun {p q} other b first c second same => other ?_
      have first := Key.toBase64_decode (modified_key first)
      have second := Key.toBase64_decode (modified_key second)
      rw [← first, ← second, same]
    · rw [List.Nodup, List.pairwise_map, List.pairwise_filterMap]
      refine (List.pairwise_map.mp d.keys_nodup).imp fun {e e'} other b first c second same => ?_
      rw [(unlisted_key first).1, (unlisted_key second).1] at same
      exact other same
    · intro k modified k' removed same
      obtain ⟨b, made, rfl⟩ := List.mem_map.mp modified
      obtain ⟨c, made', rfl⟩ := List.mem_map.mp removed
      obtain ⟨p, member, made⟩ := List.mem_filterMap.mp made
      obtain ⟨e, -, made'⟩ := List.mem_filterMap.mp made'
      obtain ⟨rfl, absent⟩ := unlisted_key made'
      refine absent p member ?_
      rw [← Key.toBase64_decode (modified_key made), same]
      rfl
  · rw [List.mem_append, List.mem_filterMap, List.mem_filterMap, asked]
    cases found : listedAs peers b.publicKey with
    | some p =>
      obtain ⟨member, parsed⟩ := spelled.listedAs.mp found
      have here : d.modified own now p = if p.Wanted own b.publicKey then
            PeerDiff.peerConfigBuilder now (d.lookup b.publicKey) (p.keyed b.publicKey)
          else none := by
        rw [modified, parsed, Option.bind_some]
      dsimp only
      rw [← here]
      constructor
      · rintro (⟨q, listed, made⟩ | ⟨e, -, made⟩)
        · have same := spelled.listedAs.mpr ⟨listed, modified_key made⟩
          rw [found] at same
          rw [Option.some.inj same, made]
        · obtain ⟨rfl, absent⟩ := unlisted_key made
          exact absurd (Key.toBase64_decode parsed).symm (absent p member)
      · exact fun made => .inl ⟨p, member, made⟩
    | none =>
      have absent := listedAs_none.mp found
      dsimp only
      constructor
      · rintro (⟨q, listed, made⟩ | ⟨e, there, made⟩)
        · exact absurd (modified_key made) (absent q listed)
        · obtain ⟨rfl, -⟩ := unlisted_key made
          have held : d.lookup e.1 = some e.2 := (mem_entries_iff d e).mp there
          change (d.lookup e.1).map _ = _
          rw [held]
          rfl
      · intro made
        obtain ⟨i, held, same⟩ := Option.map_eq_some_iff.mp made
        refine .inr ⟨⟨b.publicKey, i⟩, (mem_entries_iff d ⟨b.publicKey, i⟩).mpr held, ?_⟩
        unfold unlisted
        rw [if_neg, ← same]
        · rfl
        · intro listed
          obtain ⟨p, member, equal⟩ := List.any_eq_true.mp listed
          have equal : p.publicKey = Key.toBase64 b.publicKey := of_decide_eq_true equal
          obtain ⟨k, parsed⟩ := spelled.parse p member
          have key : b.publicKey = k := (Key.toBase64_iff parsed).mp equal.symm
          exact absent p member (key ▸ parsed)

/-- What applying the outcome of a comparison leaves under a key. -/
theorem update_compare {builders : List PeerConfigBuilder} (spelled : Spelled peers)
    (compared : d.compare own now peers = some builders) (k : Binary 32) :
    (d.update builders).lookup k = match d.asked own now peers k with
      | some b => b.result (d.lookup k)
      | none => d.lookup k := by
  obtain ⟨builders', compared', distinct, asks⟩ := d.compare_spec own now spelled
  cases Option.some.inj (compared.symm.trans compared')
  obtain ⟨here, there⟩ := update_lookup distinct d k
  cases asked : d.asked own now peers k with
  | some b =>
    have key : b.publicKey = k := by
      unfold Device.asked at asked
      split at asked
      · split at asked
        · exact (PeerDiff.peerConfigBuilder_some asked).1
        · cases asked
      · obtain ⟨i, -, same⟩ := Option.map_eq_some_iff.mp asked
        rw [← same]
        rfl
    exact here b ((asks b).mpr (key.symm ▸ asked)) key
  | none =>
    refine there fun b member same => ?_
    rw [(same ▸ (asks b).mp member : d.asked own now peers k = some b)] at asked
    cases asked

end Device

section Outcome

variable {now : Nat} {old : Option PeerInfo} {q : Peer} {b : PeerConfigBuilder}

/-- A peer that stays is asked for its address and interval where the device differs in them. -/
theorem PeerDiff.asks_exactly (made : peerConfigBuilder now old q = some b) :
    b.replaceAllowedIps = (old.all fun i => decide (i.config.allowedIps ≠ [q.allowedIp])) ∧
      b.persistentKeepaliveInterval =
        if (old.all fun i => decide (i.config.persistentKeepaliveInterval ≠
          q.persistentKeepaliveInterval)) then some (q.persistentKeepaliveInterval.getD 0)
        else none := by
  simp only [peerConfigBuilder] at made
  split at made
  · cases made
    generalize (old.all fun i => decide (i.config.allowedIps ≠ [q.allowedIp])) = ips
    generalize (old.all fun i => decide (i.config.persistentKeepaliveInterval ≠
      q.persistentKeepaliveInterval)) = keepalive
    cases ips <;> cases keepalive <;> simp only [if_true, Bool.false_eq_true, if_false] <;>
      split <;> exact ⟨rfl, rfl⟩
  · cases made

theorem PeerDiff.asks_nothing (unmade : peerConfigBuilder now old q = none) :
    ∃ i, old = some i ∧ i.config.allowedIps = [q.allowedIp] ∧
      i.config.persistentKeepaliveInterval = q.persistentKeepaliveInterval := by
  simp only [peerConfigBuilder] at unmade
  split at unmade
  · cases unmade
  · rename_i quiet
    simp only [not_or, Bool.not_eq_true] at quiet
    cases old with
    | none => exact absurd quiet.1 (by simp)
    | some i =>
      simp only [Option.all_some, decide_eq_false_iff_not, ne_eq, not_not] at quiet
      exact ⟨i, rfl, quiet.1, quiet.2.1⟩

/-- What a comparison and its update make of a peer that stays. -/
def PeerDiff.outcome (now : Nat) (old : Option PeerInfo) (q : Peer) : Option PeerInfo :=
  match peerConfigBuilder now old q with
  | some b => b.result old
  | none => old

/-- The interval it ends up with: its own where the device has it already, else as it was set. -/
def PeerDiff.interval (old : Option PeerInfo) (q : Peer) : Option Nat :=
  if old.any fun i => decide (i.config.persistentKeepaliveInterval = q.persistentKeepaliveInterval)
  then q.persistentKeepaliveInterval else some (q.persistentKeepaliveInterval.getD 0)

theorem PeerDiff.outcome_spec (now : Nat) (old : Option PeerInfo) (q : Peer) :
    ∃ i, outcome now old q = some i ∧ i.config.allowedIps = [q.allowedIp] ∧
      i.config.persistentKeepaliveInterval = interval old q ∧
      ∀ o, old = some o → i.config.presharedKey = o.config.presharedKey := by
  unfold outcome interval
  cases made : peerConfigBuilder now old q with
  | none =>
    obtain ⟨i, rfl, ips, keepalive⟩ := asks_nothing made
    refine ⟨i, rfl, ips, ?_, fun o same => Option.some.inj same ▸ rfl⟩
    simp [keepalive]
  | some b =>
    obtain ⟨-, stays, unset, ips⟩ := peerConfigBuilder_some made
    obtain ⟨replaces, keepalive⟩ := asks_exactly made
    refine ⟨b.configure (old.getD PeerConfigBuilder.blank), ?_, ?_, ?_, ?_⟩
    · simp [PeerConfigBuilder.result, stays]
    · rcases ips with ⟨yes, ips⟩ | ⟨no, ips, there⟩
      · simp [PeerConfigBuilder.configure, yes, ips]
      · obtain ⟨i, rfl⟩ := Option.ne_none_iff_exists'.mp there
        rw [no, Option.all_some, eq_comm, decide_eq_false_iff_not, ne_eq, not_not] at replaces
        simp [PeerConfigBuilder.configure, no, ips, replaces]
    · cases old with
      | none => simp [PeerConfigBuilder.configure, keepalive]
      | some i =>
        by_cases same : i.config.persistentKeepaliveInterval = q.persistentKeepaliveInterval <;>
          simp [PeerConfigBuilder.configure, keepalive, same]
    · rintro o rfl
      simp [PeerConfigBuilder.configure, unset]

/-- With its address settled, a second comparison asks for no more than the interval. -/
theorem PeerDiff.again {i : PeerInfo} (ips : i.config.allowedIps = [q.allowedIp]) :
    (∀ b, peerConfigBuilder now (some i) q = some b → (b.Touches ↔
        i.config.persistentKeepaliveInterval ≠ q.persistentKeepaliveInterval)) ∧
      (i.config.persistentKeepaliveInterval ≠ q.persistentKeepaliveInterval →
        ∃ b, peerConfigBuilder now (some i) q = some b) := by
  constructor
  · intro b made
    obtain ⟨-, stays, -, allowed⟩ := peerConfigBuilder_some made
    obtain ⟨replaces, keepalive⟩ := asks_exactly made
    have kept : b.replaceAllowedIps = false := by simpa [ips] using replaces
    have none : b.allowedIps = [] := by
      rcases allowed with ⟨yes, -⟩ | ⟨-, none, -⟩
      · rw [kept] at yes
        cases yes
      · exact none
    simp only [PeerConfigBuilder.Touches, stays, kept, none, keepalive]
    simp
  · intro differs
    cases made : peerConfigBuilder now (some i) q with
    | some b => exact ⟨b, rfl⟩
    | none =>
      obtain ⟨i', same, -, settled⟩ := asks_nothing made
      cases same
      exact absurd settled differs

end Outcome

namespace Device

/-- The update has settled the device: its keys are the wanted ones, each with its address and
interval (an interval of 0 is none), no preshared key was touched, and a comparison at any time
asks for no peer to be added or removed and for no address or interval to be changed. -/
structure Converges (d : Device) (own : Option (Binary 32)) (peers : List ListedPeer)
    (builders : List PeerConfigBuilder) : Prop where
  keys : ∀ k, ((d.update builders).lookup k).isSome = true ↔ ∃ p ∈ peers, p.Wanted own k
  config : ∀ k i p, (d.update builders).lookup k = some i → p ∈ peers → p.Wanted own k →
    i.config.allowedIps = [(p.keyed k).allowedIp] ∧
      i.config.persistentKeepaliveInterval.filter (· ≠ 0) =
        p.persistentKeepaliveInterval.filter (· ≠ 0)
  presharedKey : ∀ k o i, d.lookup k = some o → (d.update builders).lookup k = some i →
    i.config.presharedKey = o.config.presharedKey
  quiet : ∀ now again, (d.update builders).compare own now peers = some again →
    ∀ b ∈ again, ¬ b.Touches ∧ (d.update builders).lookup b.publicKey ≠ none

/-- No peer is on the device that is listed but not wanted there, and a wanted peer without an
interval is there already, without one. -/
def Settles (d : Device) (own : Option (Binary 32)) (peers : List ListedPeer) : Prop :=
  ∀ p ∈ peers, ∀ k, Key.decode p.publicKey = some k →
    if p.Wanted own k then p.persistentKeepaliveInterval ≠ none ∨
      ∃ o, d.lookup k = some o ∧ o.config.persistentKeepaliveInterval = none
    else d.lookup k = none

variable {d : Device} {own : Option (Binary 32)} {now : Nat} {peers : List ListedPeer}
  {builders : List PeerConfigBuilder}

section Keys

variable (spelled : Spelled peers) (compared : d.compare own now peers = some builders)
  {p : ListedPeer} {k : Binary 32}

include spelled compared

theorem update_wanted (member : p ∈ peers) (wanted : p.Wanted own k) :
    (d.update builders).lookup k = PeerDiff.outcome now (d.lookup k) (p.keyed k) := by
  rw [update_compare spelled compared, asked, spelled.listedAs.mpr ⟨member, wanted.2.1⟩]
  dsimp only
  rw [if_pos wanted]
  rfl

theorem update_unwanted (member : p ∈ peers) (parsed : Key.decode p.publicKey = some k)
    (unwanted : ¬ p.Wanted own k) : (d.update builders).lookup k = d.lookup k := by
  rw [update_compare spelled compared, asked, spelled.listedAs.mpr ⟨member, parsed⟩]
  dsimp only
  rw [if_neg unwanted]

theorem update_unlisted (absent : listedAs peers k = none) :
    (d.update builders).lookup k = none := by
  rw [update_compare spelled compared, asked, absent]
  cases held : d.lookup k <;> rfl

end Keys

theorem Wanted.unique (spelled : Spelled peers) {p q : ListedPeer} {k : Binary 32}
    (member : p ∈ peers) (parsed : Key.decode p.publicKey = some k) (listed : q ∈ peers)
    (wanted : q.Wanted own k) : q = p := by
  have first := spelled.listedAs.mpr ⟨member, parsed⟩
  rw [spelled.listedAs.mpr ⟨listed, wanted.2.1⟩] at first
  exact Option.some.inj first

theorem Converges.settles (spelled : Spelled peers)
    (compared : d.compare own now peers = some builders)
    (converges : d.Converges own peers builders) : d.Settles own peers := by
  intro p member k parsed
  split
  · rename_i wanted
    by_contra unset
    rw [not_or, not_not] at unset
    obtain ⟨absent, held⟩ := unset
    obtain ⟨i, outcome, ips, interval, -⟩ :=
      PeerDiff.outcome_spec now (d.lookup k) (p.keyed k)
    have there := (update_wanted spelled compared member wanted).trans outcome
    have differs : i.config.persistentKeepaliveInterval ≠
        (p.keyed k).persistentKeepaliveInterval := by
      have bare : (p.keyed k).persistentKeepaliveInterval = none := absent
      have fresh : ((d.lookup k).any fun i =>
          decide (i.config.persistentKeepaliveInterval = none)) = false := by
        cases old : d.lookup k with
        | none => rfl
        | some o => simpa using fun none => held ⟨o, old, none⟩
      rw [interval, PeerDiff.interval, bare, fresh]
      simp
    -- the second comparison sets the interval once more
    obtain ⟨again, compared', -, asks⟩ := (d.update builders).compare_spec own 0 spelled
    obtain ⟨touches, ⟨b, made⟩⟩ := And.imp_right (· differs) (PeerDiff.again ips)
    have key : b.publicKey = k := (PeerDiff.peerConfigBuilder_some made).1
    have requested : (d.update builders).asked own 0 peers b.publicKey = some b := by
      rw [key, asked, spelled.listedAs.mpr ⟨member, parsed⟩]
      dsimp only
      rw [if_pos wanted, there]
      exact made
    exact (converges.quiet 0 again compared' b ((asks b).mpr requested)).1
      ((touches b made).mpr differs)
  · rename_i unwanted
    cases held : d.lookup k with
    | none => rfl
    | some o =>
      have stays := update_unwanted spelled compared member parsed unwanted
      obtain ⟨q, listed, wanted⟩ := (converges.keys k).mp (by rw [stays, held]; rfl)
      exact absurd (Wanted.unique spelled member parsed listed wanted ▸ wanted) unwanted

theorem Settles.converges (spelled : Spelled peers)
    (compared : d.compare own now peers = some builders) (settles : d.Settles own peers) :
    d.Converges own peers builders := by
  have wanted_interval : ∀ p ∈ peers, ∀ k, p.Wanted own k →
      PeerDiff.interval (d.lookup k) (p.keyed k) = p.persistentKeepaliveInterval := by
    intro p member k wanted
    have calm := settles p member k wanted.2.1
    rw [if_pos wanted] at calm
    have same : (p.keyed k).persistentKeepaliveInterval = p.persistentKeepaliveInterval := rfl
    rw [PeerDiff.interval, same]
    rcases calm with present | ⟨o, held, bare⟩
    · obtain ⟨n, interval⟩ := Option.ne_none_iff_exists'.mp present
      simp [interval]
    · cases interval : p.persistentKeepaliveInterval <;> simp [held, bare]
  refine ⟨fun k => ?_, fun k i p there member wanted => ?_, fun k o i before after => ?_, ?_⟩
  · cases found : listedAs peers k with
    | none =>
      rw [update_unlisted spelled compared found]
      constructor
      · intro never
        cases never
      · rintro ⟨p, member, wanted⟩
        exact absurd wanted.2.1 (listedAs_none.mp found p member)
    | some p =>
      obtain ⟨member, parsed⟩ := spelled.listedAs.mp found
      by_cases wanted : p.Wanted own k
      · obtain ⟨i, outcome, -⟩ := PeerDiff.outcome_spec now (d.lookup k) (p.keyed k)
        rw [update_wanted spelled compared member wanted, outcome]
        exact ⟨fun _ => ⟨p, member, wanted⟩, fun _ => rfl⟩
      · have calm := settles p member k parsed
        rw [if_neg wanted] at calm
        rw [update_unwanted spelled compared member parsed wanted, calm]
        constructor
        · intro never
          cases never
        · rintro ⟨q, listed, wanted'⟩
          exact absurd (Wanted.unique spelled member parsed listed wanted' ▸ wanted') wanted
  · obtain ⟨i', outcome, ips, interval, -⟩ :=
      PeerDiff.outcome_spec now (d.lookup k) (p.keyed k)
    rw [update_wanted spelled compared member wanted, outcome] at there
    cases there
    rw [interval, wanted_interval p member k wanted]
    exact ⟨ips, rfl⟩
  · cases found : listedAs peers k with
    | none =>
      rw [update_unlisted spelled compared found] at after
      cases after
    | some p =>
      obtain ⟨member, parsed⟩ := spelled.listedAs.mp found
      by_cases wanted : p.Wanted own k
      · obtain ⟨i', outcome, -, -, psk⟩ :=
          PeerDiff.outcome_spec now (d.lookup k) (p.keyed k)
        rw [update_wanted spelled compared member wanted, outcome] at after
        cases after
        exact psk o before
      · rw [update_unwanted spelled compared member parsed wanted, before] at after
        cases after
        rfl
  · intro later again compared' b requested
    obtain ⟨again', compared'', -, asks⟩ := (d.update builders).compare_spec own later spelled
    cases Option.some.inj (compared'.symm.trans compared'')
    have made := (asks b).mp requested
    unfold Device.asked at made
    split at made
    · rename_i p found
      obtain ⟨member, parsed⟩ := spelled.listedAs.mp found
      split at made
      · rename_i wanted
        obtain ⟨i, outcome, ips, interval, -⟩ :=
          PeerDiff.outcome_spec now (d.lookup b.publicKey) (p.keyed b.publicKey)
        have there := (update_wanted spelled compared member wanted).trans outcome
        rw [there] at made ⊢
        refine ⟨fun touches => ?_, Option.some_ne_none i⟩
        refine ((PeerDiff.again ips).1 b made).mp touches ?_
        exact interval.trans (wanted_interval p member _ wanted)
      · cases made
    · rename_i absent
      rw [update_unlisted spelled compared absent] at made
      cases made

/-- The comparison settles the device exactly when nothing on it is listed without being wanted, and
every wanted peer without an interval is there without one. -/
theorem converges_iff (d : Device) (own : Option (Binary 32)) (now : Nat)
    (spelled : Spelled peers) : ∃ builders, d.compare own now peers = some builders ∧
      (d.Converges own peers builders ↔ d.Settles own peers) := by
  obtain ⟨builders, compared, -⟩ := d.compare_spec own now spelled
  exact ⟨builders, compared, Converges.settles spelled compared, Settles.converges spelled compared⟩

end Device

namespace Arithmetic

/-- A peer as the directory lists it. -/
def listing (keepalive : Option Nat) (isDisabled : Bool) : ListedPeer where
  id := 2
  publicKey := Key.toBase64 5
  ip := .v4 0x0a000002#32
  isDisabled
  endpoint := none
  persistentKeepaliveInterval := keepalive
  candidates := []

theorem listing_spelled (keepalive : Option Nat) (isDisabled : Bool) :
    Spelled [listing keepalive isDisabled] where
  parse p member := by
    cases List.mem_singleton.mp member
    exact ⟨5, Key.decode_toBase64 5⟩
  distinct := List.nodup_singleton _

end Arithmetic

open Arithmetic

/-- One new peer with an interval. -/
theorem Device.converges_iff_new : ∃ builders,
    Device.compare ∅ none 0 [listing (some 25) false] = some builders ∧
      Device.Converges ∅ none [listing (some 25) false] builders := by
  obtain ⟨builders, compared, settled⟩ :=
    Device.converges_iff ∅ none 0 (listing_spelled (some 25) false)
  refine ⟨builders, compared, settled.mpr ?_⟩
  intro p member k parsed
  cases List.mem_singleton.mp member
  split
  · exact .inl (by simp [listing])
  · rfl

/-- A new peer without an interval is changed again by every comparison, and a disabled peer stays
on the device. -/
theorem Device.unsettled :
    (∃ builders, Device.compare ∅ none 0 [listing none false] = some builders ∧
      ¬ Device.Converges ∅ none [listing none false] builders) ∧
    ∃ builders, Device.compare ((∅ : Device).insert 5 PeerConfigBuilder.blank) none 0
        [listing none true] = some builders ∧
      ¬ Device.Converges ((∅ : Device).insert 5 PeerConfigBuilder.blank) none [listing none true]
        builders := by
  have parsed : Key.decode (listing none false).publicKey = some 5 := Key.decode_toBase64 5
  have parsed' : Key.decode (listing none true).publicKey = some 5 := Key.decode_toBase64 5
  constructor
  · obtain ⟨builders, compared, -⟩ := Device.compare_spec ∅ none 0 (listing_spelled none false)
    refine ⟨builders, compared, fun converges => ?_⟩
    have settles := converges.settles (listing_spelled none false) compared _
      (List.mem_singleton_self _) 5 parsed
    rw [if_pos ⟨rfl, parsed, by simp⟩] at settles
    rcases settles with present | ⟨o, held, -⟩
    · exact present rfl
    · cases held
  · obtain ⟨builders, compared, -⟩ := Device.compare_spec
      ((∅ : Device).insert 5 PeerConfigBuilder.blank) none 0 (listing_spelled none true)
    refine ⟨builders, compared, fun converges => ?_⟩
    have settles := converges.settles (listing_spelled none true) compared _
      (List.mem_singleton_self _) 5 parsed'
    have unwanted : ¬ (listing none true).Wanted none 5 := fun wanted => nomatch wanted.1
    have held : ((∅ : Device).insert 5 PeerConfigBuilder.blank).lookup 5 =
        some PeerConfigBuilder.blank := AList.lookup_insert _
    rw [if_neg unwanted, held] at settles
    cases settles

end Innernet
