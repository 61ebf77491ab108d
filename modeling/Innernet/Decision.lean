import Innernet.Protocol

/-! What the decision machine can do: one inversion lemma, the shape every decision keeps, and the
set of receipts a decision accounts for. -/
namespace Innernet.Decision

/-- Every successful `advance`, with its guard and its effect. -/
theorem advance_cases {d d' : Decision} {kind : Kind} {initiator : Bool}
    (advanced : d.advance kind initiator = .ok d') :
    (kind = .ready ∧ initiator = false ∧ d.phase = .proposed ∧ d' = { d with phase := .ready }) ∨
    (kind = .commit ∧ initiator = true ∧ d.phase = .ready ∧ d' = { d with phase := .committed }) ∨
    (kind = .abort ∧ initiator = true ∧ (d.phase = .proposed ∨ d.phase = .ready) ∧
      d' = { d with phase := .aborted }) ∨
    (kind = .installed ∧ d.phase = .committed ∧
      (initiator = false ∨ d.installed.responder = true) ∧
      d' = { d with installed := d.installed.set initiator }) ∨
    (kind = .confirmed ∧ d.phase = .committed ∧ d.installed.get initiator = true ∧
      d' = { d with
        confirmed := d.confirmed.set initiator
        phase := if d.confirmed.set initiator = ⟨true, true⟩ then .complete else .committed }) := by
  unfold advance at advanced
  split at advanced
  · rename_i phase
    split at advanced <;> cases advanced
    rename_i side
    exact .inl ⟨rfl, side, phase, rfl⟩
  · rename_i phase
    split at advanced <;> cases advanced
    rename_i side
    exact .inr (.inl ⟨rfl, side, phase, rfl⟩)
  · rename_i phase
    split at advanced <;> cases advanced
    rename_i side
    exact .inr (.inr (.inl ⟨rfl, side, .inl phase, rfl⟩))
  · rename_i phase
    split at advanced <;> cases advanced
    rename_i side
    exact .inr (.inr (.inl ⟨rfl, side, .inr phase, rfl⟩))
  · rename_i phase
    split at advanced <;> cases advanced
    rename_i allowed
    exact .inr (.inr (.inr (.inl ⟨rfl, phase, allowed, rfl⟩)))
  · rename_i phase
    split at advanced <;> cases advanced
    rename_i installed
    exact .inr (.inr (.inr (.inr ⟨rfl, phase, installed, rfl⟩)))
  · cases advanced

/-- The shape of every decision the machine reaches. -/
structure Valid (d : Decision) : Prop where
  early : d.phase = .proposed ∨ d.phase = .ready → ∀ side, d.installed.get side = false
  ordered : ∀ side, d.confirmed.get side = true → d.installed.get side = true
  responderFirst : d.installed.get true = true → d.installed.get false = true
  complete : d.phase = .complete → ∀ side, d.confirmed.get side = true
  unfinished : d.phase = .committed → d.confirmed ≠ ⟨true, true⟩

theorem default_valid : default.Valid := by
  constructor <;> simp [default, Flags.get]

theorem Valid.aborted {d : Decision} (valid : d.Valid) : Valid { d with phase := .aborted } := by
  constructor
  · simp
  · exact valid.ordered
  · exact valid.responderFirst
  · simp
  · simp

theorem Valid.expire {d : Decision} (valid : d.Valid) : d.expire.Valid := by
  unfold Decision.expire
  split
  · exact valid.aborted
  · exact valid

theorem Valid.advance {d d' : Decision} {kind : Kind} {initiator : Bool} (valid : d.Valid)
    (advanced : d.advance kind initiator = .ok d') : d'.Valid := by
  rcases advance_cases advanced with ⟨-, -, phase, rfl⟩ | ⟨-, -, phase, rfl⟩ | ⟨-, -, -, rfl⟩ |
    ⟨-, phase, allowed, rfl⟩ | ⟨-, phase, installed, rfl⟩
  · have none := valid.early (.inl phase)
    exact ⟨fun _ => none, valid.ordered, valid.responderFirst, by simp, by simp⟩
  · have none := valid.early (.inr phase)
    refine ⟨by simp, valid.ordered, valid.responderFirst, by simp, ?_⟩
    intro _ both
    have both : d.confirmed = ⟨true, true⟩ := both
    have confirmed := valid.ordered true (by simp [Flags.get, both])
    rw [none true] at confirmed
    cases confirmed
  · exact valid.aborted
  · refine ⟨by simp [phase], ?_, ?_, by simp [phase], fun _ => valid.unfinished phase⟩
    · intro side confirmed
      simp [valid.ordered side confirmed]
    · rcases d with ⟨_, ⟨_, _⟩, _⟩
      cases initiator <;> simp_all [Flags.set, Flags.get]
  · have started := valid.ordered
    refine ⟨?_, ?_, valid.responderFirst, ?_, ?_⟩
    · dsimp only
      split <;> simp
    · intro side confirmed
      rw [Flags.get_set, Bool.or_eq_true, beq_iff_eq] at confirmed
      rcases confirmed with confirmed | rfl
      · exact started side confirmed
      · exact installed
    · dsimp only
      intro finished side
      split at finished
      · rename_i both
        cases side <;> simp [both, Flags.get]
      · cases finished
    · dsimp only
      intro running
      split at running
      · cases running
      · assumption

/-- The receipt of `kind` by the side is part of the decision. -/
def has (d : Decision) : Kind → Bool → Bool
  | .ready, false => d.phase = .ready ∨ d.phase = .committed ∨ d.phase = .complete
  | .commit, true => d.phase = .committed ∨ d.phase = .complete
  | .installed, side => d.installed.get side
  | .confirmed, side => d.confirmed.get side
  | _, _ => false

theorem default_has (kind : Kind) (side : Bool) : default.has kind side = false := by
  cases kind <;> cases side <;> rfl

/-- An advance short of an abort adds its own receipt and no other. -/
theorem has_advance {d d' : Decision} {kind : Kind} {initiator : Bool}
    (advanced : d.advance kind initiator = .ok d') (regular : kind ≠ .abort) (k : Kind)
    (side : Bool) : d'.has k side = (d.has k side || decide (k = kind ∧ side = initiator)) := by
  rcases advance_cases advanced with ⟨rfl, rfl, phase, rfl⟩ | ⟨rfl, rfl, phase, rfl⟩ |
    ⟨rfl, -, -, rfl⟩ | ⟨rfl, phase, allowed, rfl⟩ | ⟨rfl, phase, installed, rfl⟩
  · cases k <;> cases side <;> simp [has, phase]
  · cases k <;> cases side <;> simp [has, phase]
  · exact absurd rfl regular
  · cases k <;> cases side <;> cases initiator <;> simp [has, phase]
  · cases k <;> cases side <;> cases initiator <;> simp [has, phase]

end Innernet.Decision
