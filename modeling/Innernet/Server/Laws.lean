import Innernet.Server.Ledger

/-! What outlives a step of the ledger: the sequences used up under two bundles, and the course of
one exchange. -/
namespace Innernet

open Fallible Runs Exchange

/-- How a stored record may change while its exchange lasts. -/
structure Exchange.Evolves (r r' : Exchange) : Prop where
  key : r'.key = r.key
  sequence : r'.sequence = r.sequence
  exchangeId : r'.exchangeId = r.exchangeId
  expires : r'.prepareExpiresAt = r.prepareExpiresAt
  terminal : r.decision.terminal = true → r' = r
  committed : r.decision.phase = .committed → r'.decision.phase = .committed ∨
    (r'.decision.phase = .complete ∧ ∀ initiator, r'.received .confirmed initiator) ∨
    (r'.decision.phase = .aborted ∧ r'.termination ≠ none)

/-- What a record keeps under one sequence: the receipts it has, and the transcript they are for. -/
structure Exchange.Carries (r r' : Exchange) : Prop where
  receipts : ∀ d ∈ r.receipts, d ∈ r'.receipts
  transcriptHash : r'.transcriptHash = r.transcriptHash

theorem Exchange.Carries.refl (r : Exchange) : r.Carries r := ⟨fun _ member => member, rfl⟩

namespace Exchange.Evolves

theorem refl (r : Exchange) : r.Evolves r :=
  ⟨rfl, rfl, rfl, rfl, fun _ => rfl, fun committed => .inl committed⟩

theorem trans {r r' r'' : Exchange} (first : r.Evolves r') (second : r'.Evolves r'') :
    r.Evolves r'' := by
  have last : r'.decision.terminal = true → r'' = r' := second.terminal
  refine ⟨second.key.trans first.key, second.sequence.trans first.sequence,
    second.exchangeId.trans first.exchangeId, second.expires.trans first.expires, ?_, ?_⟩
  · intro ended
    have same := first.terminal ended
    rw [last (same.symm ▸ ended), same]
  · intro committed
    rcases first.committed committed with still | ⟨complete, both⟩ | ⟨aborted, reason⟩
    · exact second.committed still
    · have same := last ((terminal_iff _).mpr (.inl complete))
      exact .inr (.inl (same.symm ▸ ⟨complete, both⟩))
    · have same := last ((terminal_iff _).mpr (.inr aborted))
      exact .inr (.inr (same.symm ▸ ⟨aborted, reason⟩))

theorem closing {r r' : Exchange} (closing : Closing r r') : r.Evolves r' := by
  obtain ⟨live, termination, rfl, reason⟩ := closing.shape
  refine ⟨rfl, rfl, rfl, rfl, fun ended => ?_, fun committed => .inr (.inr ⟨rfl, fun none => ?_⟩)⟩
  · rw [live] at ended
    cases ended
  · rcases reason none with phase | phase <;> rw [committed] at phase <;> cases phase

theorem continuing [Native] {r r' : Exchange} {t : Transcript} {message : Message} {kind : Kind}
    (formed : r.WellFormed) (continuing : Continuing r r' t message kind) : r.Evolves r' := by
  obtain ⟨key, sequence, exchangeId, expires, -, -, -, -, advanced, -⟩ := continuing.fields
  refine ⟨key, sequence, exchangeId, expires, fun ended => ?_, fun committed => ?_⟩
  · rw [continuing.live] at ended
    cases ended
  · have formed' := formed.continue continuing
    have phase : r'.decision.phase = .committed ∨ r'.decision.phase = .complete := by
      rcases Decision.advance_cases advanced with ⟨-, -, early, -⟩ | ⟨-, -, early, -⟩ |
        ⟨-, -, early, -⟩ | ⟨-, -, -, after⟩ | ⟨-, -, -, after⟩
      · rw [committed] at early
        cases early
      · rw [committed] at early
        cases early
      · rw [committed] at early
        rcases early with early | early <;> cases early
      · exact .inl (after ▸ committed)
      · rw [after]
        dsimp only
        split
        · exact .inr rfl
        · exact .inl rfl
    rcases phase with still | complete
    · exact .inl still
    · refine .inr (.inl ⟨complete, fun initiator => ?_⟩)
      refine (formed'.accounted .confirmed initiator (by simp) (.inr (.inr rfl))).mp ?_
      exact formed'.valid.complete complete initiator

end Exchange.Evolves

namespace Ledger

variable [Native]

section Course

/-- Across one step a record evolves; it leaves its place only once it is terminal. -/
theorem Step.evolves {l l' : Ledger} {event : Event} (inv : l.Inv) (step : Step l event l')
    {k : ExchangeKey} {r : Exchange} (found : l.record k = some r) :
    (∃ r', l'.record k = some r' ∧ r.Evolves r') ∨ r.decision.terminal = true := by
  have key := inv.key k r found
  cases step with
  | settle settled =>
    refine .inl ?_
    rcases settled k with same | ⟨r₁, r', before, after, closing⟩
    · exact ⟨r, same.trans found, .refl r⟩
    · rw [found] at before
      cases before
      exact ⟨r', after, .closing closing⟩
  | @opened new t message opening initiator responder newer idle =>
    by_cases same : k = new.key
    · exact .inr (idle k r found (congrArg _ same) (congrArg _ same))
    · refine .inl ⟨r, ?_, .refl r⟩
      rw [record_put, if_neg same, found]
  | @continued old r' t message kind stored continuing =>
    refine .inl ?_
    by_cases same : k = r'.key
    · have place : k = old.key := same.trans continuing.fields.1
      rw [place, stored] at found
      cases found
      exact ⟨r', by rw [record_put, if_pos same], .continuing (inv.formed _ _ stored) continuing⟩
    · exact ⟨r, by rw [record_put, if_neg same, found], .refl r⟩
  | @rebundled id b finished replaces =>
    by_cases involved : k.involves id
    · exact .inr (finished k r found involved)
    · refine .inl ⟨r, ?_, .refl r⟩
      rw [rebundle]
      exact (if_neg involved).trans found
  | dropped gone stay => exact .inl ⟨r, found, .refl r⟩

/-- Along a run a record evolves, or it was terminal somewhere on the way. -/
theorem Run.evolves {l l' : Ledger} {ms : List (Move Ledger Event)} (inv : l.Inv)
    (run : Run Step l ms l') {k : ExchangeKey} {r : Exchange} (found : l.record k = some r) :
    (∃ r', l'.record k = some r' ∧ r.Evolves r') ∨
      ∃ m ∈ ms, ∃ r', m.before.record k = some r' ∧ r.Evolves r' ∧ r'.decision.terminal = true := by
  induction run with
  | start => exact .inl ⟨r, found, .refl r⟩
  | @move past a b event run step ih =>
    rcases ih with ⟨r', there, evolved⟩ | ⟨m, member, rest⟩
    · have invariant : a.Inv := run.invariant inv fun _ _ _ held step => held.step step
      rcases step.evolves invariant there with ⟨r'', after, next⟩ | ended
      · exact .inl ⟨r'', after, evolved.trans next⟩
      · exact .inr ⟨⟨a, event, b⟩, by simp, r', there, evolved, ended⟩
    · exact .inr ⟨m, by simp [member], rest⟩

end Course

section Consumption

/-- No peer can advertise the bundle any more. -/
def Retired (l : Ledger) (id : Binary 16) : Prop :=
  l.spent id ∧ ∀ p b, l.Advertises p b → b.bundleId ≠ id

omit [Native] in
theorem rebundle_advertises {l : Ledger} {id p : Nat} {b : AdvertisedBundle} {c : Bundle}
    (advertises : (l.rebundle id b).Advertises p c) :
    (p = id ∧ b.lifecycle = .enabled ∧ b.bundle = c) ∨ (p ≠ id ∧ l.Advertises p c) := by
  obtain ⟨a, current, enabled, same⟩ := advertises
  rw [bundle_rebundle] at current
  split at current
  · cases current
    exact .inl ⟨by assumption, enabled, same⟩
  · exact .inr ⟨by assumption, a, current, enabled, same⟩

/-- Replacing a bundle retires the one that was advertised. -/
theorem Inv.retires {l : Ledger} (inv : l.Inv) {id : Nat} {b : AdvertisedBundle} {c : Bundle}
    (replaces : l.Replaces id b) (advertised : l.Advertises id c) :
    (l.rebundle id b).Retired c.bundleId := by
  obtain ⟨a, current, -, rfl⟩ := advertised
  have spent := inv.spent id a current
  refine ⟨.inl spent, fun p d advertises same => ?_⟩
  rcases rebundle_advertises advertises with ⟨-, enabled, rfl⟩ | ⟨other, a', there, -, rfl⟩
  · rcases replaces with ⟨-, unspent⟩ | ⟨retired, -⟩
    · exact unspent (same ▸ spent)
    · rw [enabled] at retired
      cases retired
  · exact other (inv.unique p id a' a there current same)

theorem Retired.step {l l' : Ledger} {event : Event} (step : Step l event l') {id : Binary 16}
    (retired : l.Retired id) : l'.Retired id := by
  obtain ⟨spent, unused⟩ := retired
  cases step with
  | settle => exact ⟨spent, unused⟩
  | opened => exact ⟨spent, unused⟩
  | continued => exact ⟨spent, unused⟩
  | @rebundled peer b finished replaces =>
    refine ⟨.inl spent, fun p c advertises => ?_⟩
    rcases rebundle_advertises advertises with ⟨-, enabled, rfl⟩ | ⟨-, before⟩
    · rcases replaces with ⟨-, unspent⟩ | ⟨retired, -⟩
      · exact fun same => unspent (same ▸ spent)
      · rw [enabled] at retired
        cases retired
    · exact unused p c before
  | dropped gone =>
    refine ⟨spent, fun p c advertises => ?_⟩
    obtain ⟨a, current, enabled, same⟩ := advertises
    simp only [without] at current
    split at current
    · cases current
    · exact unused p c ⟨a, current, enabled, same⟩

/-- Under the two bundles there is a record with `P`, or there never will be a record again. -/
def Keeps (l : Ledger) (initiator responder : Binary 16) (P : Exchange → Prop) : Prop :=
  l.Retired initiator ∨ l.Retired responder ∨ ∃ k r, l.record k = some r ∧
    k.initiatorBundleId = initiator ∧ k.responderBundleId = responder ∧ P r

variable {initiator responder : Binary 16} {P : Exchange → Prop}

/-- Two records under the same bundles are one. -/
theorem Inv.same {l : Ledger} (inv : l.Inv) {k k' : ExchangeKey} {r r' : Exchange}
    (found : l.record k = some r) (found' : l.record k' = some r')
    (initiator : k.initiatorBundleId = k'.initiatorBundleId)
    (responder : k.responderBundleId = k'.responderBundleId) : k = k' := by
  obtain ⟨_, ⟨a, current, -, rfl⟩, same⟩ := inv.initiator k r found
  obtain ⟨_, ⟨a', current', -, rfl⟩, same'⟩ := inv.initiator k' r' found'
  obtain ⟨_, ⟨b, held, -, rfl⟩, equal⟩ := inv.responder k r found
  obtain ⟨_, ⟨b', held', -, rfl⟩, equal'⟩ := inv.responder k' r' found'
  have first := inv.unique _ _ a a' current current' (same.trans (initiator.trans same'.symm))
  have second := inv.unique _ _ b b' held held' (equal.trans (responder.trans equal'.symm))
  exact inv.single found found' first second

/-- While a record under two bundles is there, neither of them is retired. -/
theorem Inv.inUse {l : Ledger} (inv : l.Inv) {k : ExchangeKey} {r : Exchange}
    (found : l.record k = some r) :
    ¬ l.Retired k.initiatorBundleId ∧ ¬ l.Retired k.responderBundleId := by
  obtain ⟨b, advertised, same⟩ := inv.initiator k r found
  obtain ⟨c, advertised', same'⟩ := inv.responder k r found
  exact ⟨fun retired => retired.2 _ b advertised same, fun retired => retired.2 _ c advertised' same'⟩

theorem Keeps.here {l : Ledger} (inv : l.Inv) {k : ExchangeKey} {r : Exchange}
    (found : l.record k = some r)
    (keeps : l.Keeps k.initiatorBundleId k.responderBundleId P) : P r := by
  obtain ⟨unretired, unretired'⟩ := inv.inUse found
  rcases keeps with retired | retired | ⟨k', r', there, same, same', holds⟩
  · exact absurd retired unretired
  · exact absurd retired unretired'
  · cases inv.same found there same.symm same'.symm
    rw [found] at there
    cases there
    exact holds

/-- A record that keeps its sequence keeps its receipts. -/
theorem Step.carries {l l' : Ledger} {event : Event} (step : Step l event l')
    {k : ExchangeKey} {r r' : Exchange} (found : l.record k = some r)
    (after : l'.record k = some r') (same : r'.sequence = r.sequence) : r.Carries r' := by
  have stays : l'.record k = l.record k → r.Carries r' := by
    intro kept
    rw [kept, found] at after
    cases after
    exact .refl r
  cases step with
  | settle settled =>
    rcases settled k with kept | ⟨r₁, r₂, before, there, closing⟩
    · exact stays kept
    · rw [found] at before
      cases before
      have there : some r' = some r₂ := after.symm.trans there
      cases there
      obtain ⟨-, _, rfl, -⟩ := closing.shape
      exact ⟨fun _ member => member, rfl⟩
  | @opened new t message opening _ _ higher idle =>
    rw [record_put] at after
    split at after
    · rename_i place
      cases after
      exact absurd same (higher r (place ▸ found)).ne'
    · rw [found] at after
      cases after
      exact .refl r
  | @continued old new t message kind stored continuing =>
    rw [record_put] at after
    split at after
    · rename_i place
      cases after
      rw [place, continuing.fields.1, stored] at found
      cases found
      obtain ⟨-, -, -, -, hash, -, -, -, -, digest, -, receipts⟩ := continuing.fields
      refine ⟨fun d member => ?_, hash⟩
      rw [receipts]
      exact List.mem_append_left _ member
    · rw [found] at after
      cases after
      exact .refl r
  | @rebundled id b finished replaces =>
    rw [rebundle] at after
    dsimp only at after
    split at after
    · cases after
    · rw [found] at after
      cases after
      exact .refl r
  | dropped gone stay => exact stays rfl

/-- What every evolution and every newer exchange keeps is kept for good. -/
theorem Keeps.step {l l' : Ledger} {event : Event} (inv : l.Inv) (step : Step l event l')
    (evolves : ∀ r r', P r → r.Evolves r' → r.Carries r' → P r')
    (newer : ∀ r r' : Exchange, P r → r.sequence < r'.sequence → P r')
    (keeps : l.Keeps initiator responder P) : l'.Keeps initiator responder P := by
  rcases keeps with retired | retired | ⟨k, r, found, under, under', holds⟩
  · exact .inl (retired.step step)
  · exact .inr (.inl (retired.step step))
  rcases step.evolves inv found with ⟨r', there, evolved⟩ | ended
  · exact .inr (.inr ⟨k, r', there, under, under', evolves r r' holds evolved
      (step.carries found there evolved.sequence)⟩)
  have carries : ∀ r' : Exchange, l'.record k = some r' → r'.sequence = r.sequence →
      r.Carries r' := fun _ after same => step.carries found after same
  cases step with
  | settle settled =>
    refine .inr (.inr ?_)
    rcases settled k with same | ⟨r₁, r', before, after, closing⟩
    · exact ⟨k, r, same.trans found, under, under', holds⟩
    · rw [found] at before
      cases before
      have evolved := Exchange.Evolves.closing closing
      exact ⟨k, r', after, under, under', evolves r r' holds evolved
        (carries r' after evolved.sequence)⟩
  | @opened new t message opening _ _ higher idle =>
    refine .inr (.inr ?_)
    by_cases same : k = new.key
    · have above := higher r (same ▸ found)
      exact ⟨k, new, by rw [record_put, if_pos same], under, under', newer r new holds above⟩
    · exact ⟨k, r, by rw [record_put, if_neg same, found], under, under', holds⟩
  | @continued old r' t message kind stored continuing =>
    refine .inr (.inr ?_)
    by_cases same : k = r'.key
    · have place : k = old.key := same.trans continuing.fields.1
      rw [place, stored] at found
      cases found
      rw [continuing.live] at ended
      cases ended
    · exact ⟨k, r, by rw [record_put, if_neg same, found], under, under', holds⟩
  | @rebundled id b finished replaces =>
    by_cases involved : k.involves id
    · obtain ⟨c, advertised, same⟩ := inv.initiator k r found
      obtain ⟨d, advertised', same'⟩ := inv.responder k r found
      rcases involved with rfl | rfl
      · exact .inl (under ▸ same ▸ inv.retires replaces advertised)
      · exact .inr (.inl (under' ▸ same' ▸ inv.retires replaces advertised'))
    · refine .inr (.inr ⟨k, r, ?_, under, under', holds⟩)
      rw [rebundle]
      exact (if_neg involved).trans found
  | dropped gone stay => exact .inr (.inr ⟨k, r, found, under, under', holds⟩)

theorem Run.keeps {l l' : Ledger} {ms : List (Move Ledger Event)} (inv : l.Inv)
    (run : Run Step l ms l')
    (evolves : ∀ r r', P r → r.Evolves r' → r.Carries r' → P r')
    (newer : ∀ r r' : Exchange, P r → r.sequence < r'.sequence → P r')
    (keeps : l.Keeps initiator responder P) : l'.Keeps initiator responder P := by
  have preserved : ∀ a event b, a.Inv ∧ a.Keeps initiator responder P → Step a event b →
      b.Inv ∧ b.Keeps initiator responder P :=
    fun _ _ _ held step => ⟨held.1.step step, held.2.step held.1 step evolves newer⟩
  exact (run.invariant ⟨inv, keeps⟩ preserved).2

/-- The exchange opened under a sequence and over. -/
def Over (sequence : Number) (exchangeId : Binary 16) (r : Exchange) : Prop :=
  sequence < r.sequence ∨
    (r.sequence = sequence ∧ r.exchangeId = exchangeId ∧ r.decision.terminal = true)

omit [Native] in
theorem Over.evolves {sequence : Number} {exchangeId : Binary 16} (r r' : Exchange)
    (spent : Over sequence exchangeId r) (evolved : r.Evolves r')
    (_ : r.Carries r') : Over sequence exchangeId r' := by
  rcases spent with above | ⟨same, sameId, ended⟩
  · exact .inl (evolved.sequence ▸ above)
  · exact .inr ⟨evolved.sequence.trans same, evolved.exchangeId.trans sameId,
      (evolved.terminal ended).symm ▸ ended⟩

omit [Native] in
theorem Over.newer {sequence : Number} {exchangeId : Binary 16} (r r' : Exchange)
    (spent : Over sequence exchangeId r) (above : r.sequence < r'.sequence) :
    Over sequence exchangeId r' := by
  rcases spent with before | ⟨same, -⟩
  · exact .inl (before.trans above)
  · exact .inl (same ▸ above)

/-- The sequence of a record opened under the two bundles. -/
def Event.sequence (initiator responder : Binary 16) : Event → Option Number
  | .opened r _ =>
    if r.initiatorBundleId = initiator ∧ r.responderBundleId = responder then some r.sequence
    else none
  | _ => none

/-- Sequences under two bundles only rise. -/
theorem Run.sequences {l l' : Ledger} {ms : List (Move Ledger Event)} (inv : l.Inv)
    (run : Run Step l ms l') (initiator responder : Binary 16) :
    (ms.filterMap fun m => m.label.sequence initiator responder).Pairwise (· < ·) := by
  refine run.increasing _ (fun l v => l.Keeps initiator responder fun r => v ≤ r.sequence) inv ?_ ?_
  · intro a event b held step
    refine ⟨held.step step, fun v keeps => keeps.step held step ?_ ?_⟩
    · exact fun r r' below evolved _ => evolved.sequence ▸ below
    · exact fun r r' below above => below.trans above.le
  · intro a event b v held step found
    cases event with
    | opened r message =>
      obtain ⟨rfl, t, opening, first, second, higher, idle⟩ := step.opened_cases
      simp only [Event.sequence] at found
      split at found
      · rename_i under
        cases found
        obtain ⟨rfl, rfl⟩ := under
        have here : (a.put r).record r.key = some r := by rw [record_put, if_pos rfl]
        have after : (a.put r).Inv := held.step step
        obtain ⟨_, _, _, made, -⟩ := opening.opened
        have initiates : t.initiator.bundleId = r.initiatorBundleId := by rw [made]; rfl
        have responds : t.responder.bundleId = r.responderBundleId := by rw [made]; rfl
        refine ⟨fun w keeps => ?_, .inr (.inr ⟨r.key, r, here, rfl, rfl, le_refl _⟩)⟩
        rcases keeps with retired | retired | ⟨k, old, there, same, same', below⟩
        · exact absurd initiates (retired.2 _ _ first)
        · exact absurd responds (retired.2 _ _ second)
        · have place : k = r.key := by
            by_contra other
            have stays : (a.put r).record k = some old := by rw [record_put, if_neg other, there]
            exact other (after.same stays here same same')
          exact lt_of_le_of_lt below (higher old (place ▸ there))
      · cases found
    | settled => cases found
    | continued r message => cases found
    | rebundled id => cases found
    | dropped => cases found

end Consumption

end Ledger

end Innernet
