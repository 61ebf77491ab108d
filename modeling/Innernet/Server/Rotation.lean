import Innernet.Server.Management
import Innernet.Library.Runs

/-! What one management link keeps over any sequence of rotation operations: where its verified
flag comes from, and how long the secret last seen to work stays within reach. -/
namespace Innernet.ManagementLink

open Fallible Runs

/-- An operation, and whether what it changed was kept. -/
structure Tried where
  rotation : Rotation
  kept : Bool
  deriving DecidableEq

def next (link : ManagementLink) (tried : Tried) : ManagementLink :=
  link.rotated tried.rotation tried.kept

def Rotates (link : ManagementLink) (tried : Tried) (link' : ManagementLink) : Prop :=
  link' = link.next tried

abbrev Moved := Move ManagementLink Tried

/-- The operation succeeded and what it changed was kept. -/
def Took (m : Moved) (r : Rotation) : Prop :=
  m.label = ⟨r, true⟩ ∧ ∃ link, m.before.rotate r = .ok link

theorem Took.rotation {m : Moved} {r : Rotation} (took : Took m r) : m.label.rotation = r :=
  congrArg Tried.rotation took.1

/-- `mark_verified` was called and left the link verified. -/
def Marks (m : Moved) : Prop := m.label.rotation = .verify ∧ m.after.verified = true

def Forces (m : Moved) : Prop := ∃ secret rng, Took m (.force secret rng)

/-- The secret is within reach: active, or one rollback away. -/
def Holds (link : ManagementLink) (secret : Binary 32) : Prop :=
  link.psk = secret ∨ ∃ previous, link.previous = some previous ∧ previous.psk = secret

/-- What every operation can do to a link. -/
inductive Changed (link : ManagementLink) : Rotation → ManagementLink → Prop where
  | same {adopted : Option (Binary 32)} {rng : Entropy} : Changed link (.stage adopted rng) link
  | staged {adopted : Option (Binary 32)} {rng : Entropy} (staged : StagedLink) :
      Changed link (.stage adopted rng) { link with staged := some staged }
  | applied (staged : StagedLink) : link.staged = some staged →
      Changed link .apply ⟨staged.provisionId, staged.psk, false, none,
        some ⟨link.provisionId, link.psk⟩⟩
  | verified : Changed link .verify { link with verified := true }
  | confirmed : link.previous ≠ none → link.verified = true →
      Changed link .confirm { link with previous := none }
  | restored (previous : StagedLink) : link.previous = some previous →
      Changed link .rollback ⟨previous.provisionId, previous.psk, true, none, none⟩
  | forced {secret : Binary 32} {rng : Entropy} (provisionId : Binary 16) :
      Changed link (.force secret rng) ⟨provisionId, secret, false, none, none⟩

theorem rotate_changed {link link' : ManagementLink} {r : Rotation}
    (done : link.rotate r = .ok link') : Changed link r link' := by
  cases r with
  | stage adopted rng =>
    simp only [rotate, stageRotation] at done
    split at done
    · simp only [bind_ok, require_ok, pure_ok] at done
      obtain ⟨_, _, rfl⟩ := done
      exact .same
    · simp only [bind_ok, pure_ok] at done
      obtain ⟨_, _, _, _, rfl⟩ := done
      exact .staged _
  | apply =>
    simp only [rotate, applyRotation] at done
    split at done
    · cases done
    · rename_i staged found
      cases done
      exact .applied staged found
  | verify =>
    cases done
    exact .verified
  | confirm =>
    simp only [rotate, confirmRotation, bind_ok, require_ok, pure_ok] at done
    obtain ⟨_, retained, _, verified, rfl⟩ := done
    exact .confirmed retained verified
  | rollback =>
    simp only [rotate, rollbackRotation] at done
    split at done
    · cases done
    · rename_i previous found
      cases done
      exact .restored previous found
  | force secret rng =>
    simp only [rotate, forceActive, bind_ok, pure_ok] at done
    obtain ⟨forced, _, _, _, rfl⟩ := done
    exact .forced _

/-- A step changes nothing, or is an operation that took. -/
theorem rotates_cases {a b : ManagementLink} {l : Tried} (step : Rotates a l b) :
    b = a ∨ Took ⟨a, l, b⟩ l.rotation ∧ Changed a l.rotation b := by
  obtain ⟨r, kept⟩ := l
  simp only [Rotates, next, rotated] at step
  split at step
  · rename_i changed done
    cases kept with
    | false => exact .inl step
    | true =>
      simp only [if_true] at step
      subst step
      exact .inr ⟨⟨rfl, _, done⟩, rotate_changed done⟩
  · exact .inl step

/-- The secrets that were verified, or put back by a rollback, in the moves made so far. -/
def Marked (ms : List Moved) (secret : Binary 32) : Prop :=
  ∃ m ∈ ms, Marks m ∧ m.before.psk = secret

def Restored (ms : List Moved) (secret : Binary 32) : Prop :=
  ∃ m ∈ ms, Took m .rollback ∧ m.after.psk = secret

theorem Marked.append {ms : List Moved} {secret : Binary 32} (marked : Marked ms secret)
    (more : List Moved) : Marked (ms ++ more) secret := by
  obtain ⟨m, member, marks⟩ := marked
  exact ⟨m, List.mem_append_left _ member, marks⟩

theorem Restored.append {ms : List Moved} {secret : Binary 32} (restored : Restored ms secret)
    (more : List Moved) : Restored (ms ++ more) secret := by
  obtain ⟨m, member, restores⟩ := restored
  exact ⟨m, List.mem_append_left _ member, restores⟩

section Runs

variable {start t : ManagementLink} {ms : List Moved}

theorem flag_earned (fresh : start.Fresh) (run : Run Rotates start ms t)
    (flag : t.verified = true) : Marked ms t.psk ∨ Restored ms t.psk := by
  induction run with
  | start => exact absurd flag (by simp [fresh.unverified])
  | @move ms a b l run step ih =>
    have grow : ∀ secret, Marked ms secret ∨ Restored ms secret →
        Marked (ms ++ [⟨a, l, b⟩]) secret ∨ Restored (ms ++ [⟨a, l, b⟩]) secret :=
      fun secret earned => earned.imp (·.append _) (·.append _)
    have last : (⟨a, l, b⟩ : Moved) ∈ ms ++ [⟨a, l, b⟩] := by simp
    rcases rotates_cases step with rfl | ⟨took, changed⟩
    · exact grow _ (ih flag)
    · obtain ⟨r, kept⟩ := l
      cases changed with
      | same => exact grow _ (ih flag)
      | staged => exact grow _ (ih flag)
      | applied => cases flag
      | verified => exact .inl ⟨_, last, ⟨rfl, rfl⟩, rfl⟩
      | confirmed => exact grow _ (ih flag)
      | restored => exact .inr ⟨_, last, took, rfl⟩
      | forced => cases flag

/-- When every rotation starts from a verified link, what is kept for a rollback was verified. -/
theorem flag_marked (fresh : start.Fresh) (run : Run Rotates start ms t)
    (careful : ∀ m ∈ ms, Took m .apply → m.before.verified = true) :
    (t.verified = true → Marked ms t.psk) ∧
      ∀ previous, t.previous = some previous → Marked ms previous.psk := by
  induction run with
  | start => simp [fresh.unverified, fresh.unapplied]
  | @move ms a b l run step ih =>
    obtain ⟨active, superseded⟩ := ih fun m member => careful m (by simp [member])
    have last : (⟨a, l, b⟩ : Moved) ∈ ms ++ [⟨a, l, b⟩] := by simp
    have now := careful _ last
    rcases rotates_cases step with rfl | ⟨took, changed⟩
    · exact ⟨fun flag => (active flag).append _, fun p held => (superseded p held).append _⟩
    · obtain ⟨r, kept⟩ := l
      cases changed with
      | same =>
        exact ⟨fun flag => (active flag).append _, fun p held => (superseded p held).append _⟩
      | staged =>
        exact ⟨fun flag => (active flag).append _, fun p held => (superseded p held).append _⟩
      | applied =>
        refine ⟨fun flag => (nomatch flag), fun p held => ?_⟩
        cases held
        exact (active (now took)).append _
      | verified =>
        exact ⟨fun _ => ⟨_, last, ⟨rfl, rfl⟩, rfl⟩, fun p held => (superseded p held).append _⟩
      | confirmed =>
        exact ⟨fun flag => (active flag).append _, fun _ held => (nomatch held)⟩
      | restored previous held =>
        exact ⟨fun _ => (superseded previous held).append _, fun _ held => (nomatch held)⟩
      | forced => exact ⟨fun flag => (nomatch flag), fun _ held => (nomatch held)⟩

/-- The secret last verified is active and verified, or kept behind an unverified one. -/
def Kept (link : ManagementLink) (secret : Binary 32) : Prop :=
  (link.verified = true ∧ link.psk = secret) ∨
    (link.verified = false ∧ ∃ previous, link.previous = some previous ∧ previous.psk = secret)

theorem Kept.holds {link : ManagementLink} {secret : Binary 32} (kept : link.Kept secret) :
    link.Holds secret :=
  kept.imp And.right And.right

/-- A move that takes no verified secret out of reach. -/
structure Sparing (m : Moved) : Prop where
  unmarked : ¬ Marks m
  unforced : ¬ Forces m
  restores : Took m .rollback → m.before.verified = false
  applies : Took m .apply → m.before.verified = true ∨ m.before.previous = none

theorem Kept.step {a b : ManagementLink} {l : Tried} {secret : Binary 32} (kept : a.Kept secret)
    (step : Rotates a l b) (sparing : Sparing ⟨a, l, b⟩) : b.Kept secret := by
  rcases rotates_cases step with rfl | ⟨took, changed⟩
  · exact kept
  · obtain ⟨r, saved⟩ := l
    cases changed with
    | same => exact kept
    | staged => exact kept
    | applied =>
      rcases kept with ⟨flag, same⟩ | ⟨flag, previous, held, same⟩
      · exact .inr ⟨rfl, _, rfl, same⟩
      · rcases sparing.applies took with flag' | empty
        · exact absurd (flag.symm.trans flag') (by simp)
        · exact absurd (held.symm.trans empty) (by simp)
    | verified => exact absurd ⟨rfl, rfl⟩ sparing.unmarked
    | confirmed _ flag =>
      rcases kept with kept | ⟨flag', _⟩
      · exact .inl kept
      · exact absurd (flag'.symm.trans flag) (by simp)
    | restored previous held =>
      rcases kept with ⟨flag, _⟩ | ⟨_, previous', held', same⟩
      · exact absurd ((sparing.restores took).symm.trans flag) (by simp)
      · cases held.symm.trans held'
        exact .inl ⟨rfl, same⟩
    | forced => exact absurd ⟨_, _, took⟩ sparing.unforced

theorem marked_holds {past rest : List Moved} {m : Moved}
    (run : Run Rotates start (past ++ m :: rest) t) (marks : Marks m)
    (sparing : ∀ m' ∈ rest, Sparing m') : t.Holds m.before.psk := by
  obtain ⟨_, step, tail⟩ := run.between
  have kept : m.after.Kept m.before.psk := by
    refine .inl ⟨marks.2, ?_⟩
    rcases rotates_cases step with same | ⟨_, changed⟩
    · rw [same]
    · rw [marks.1] at changed
      generalize m.after = after at changed
      cases changed
      rfl
  exact (tail.guarded (P := fun link : ManagementLink => link.Kept m.before.psk) kept
    (fun _ _ _ held => held.step) sparing).holds

/-- A link verifies only what `mark_verified` or a rollback found active, and holds on to the
secret last verified. -/
theorem verified_secret_held (fresh : start.Fresh) (run : Run Rotates start ms t) :
    (t.verified = true → Marked ms t.psk ∨ Restored ms t.psk) ∧
      ((∀ m ∈ ms, Took m .apply → m.before.verified = true) → t.verified = true →
        Marked ms t.psk) ∧
      ∀ past m rest, ms = past ++ m :: rest → Marks m → (∀ m' ∈ rest, ¬ Marks m') →
        (∀ m' ∈ rest, ¬ Forces m') →
        (∀ m' ∈ rest, Took m' .rollback → m'.before.verified = false) →
        (∀ m' ∈ rest, Took m' .apply → m'.before.verified = true ∨ m'.before.previous = none) →
        t.Holds m.before.psk := by
  refine ⟨flag_earned fresh run, fun careful => (flag_marked fresh run careful).1, ?_⟩
  rintro past m rest rfl marks unmarked unforced restores applies
  exact marked_holds run marks fun m' member =>
    ⟨unmarked m' member, unforced m' member, restores m' member, applies m' member⟩

end Runs

section Sample

def sample : ManagementLink := ⟨1, 2, false, none, none⟩

/-- The link after the operations, each kept. -/
def sampled (rotations : List Rotation) : ManagementLink :=
  (rotations.map (Tried.mk · true)).foldl next sample

def sampledMoves (rotations : List Rotation) : List Moved :=
  trace next sample (rotations.map (Tried.mk · true))

theorem sampled_run (rotations : List Rotation) :
    Run Rotates sample (sampledMoves rotations) (sampled rotations) :=
  trace_run next sample _

theorem sample_generated : generated ⟨some 1, some 2⟩ = .ok sample := by decide +kernel

end Sample

/-- A verified link, rotated once: the old secret is kept behind the new one. -/
theorem verified_secret_held_applied :
    (sampled [.verify, .stage none ⟨some 3, some 4⟩, .apply]).psk = 4 ∧
      (sampled [.verify, .stage none ⟨some 3, some 4⟩, .apply]).Holds 2 := by
  refine ⟨by decide +kernel, ?_⟩
  have quiet : ∀ m ∈ (sampledMoves [.verify, .stage none ⟨some 3, some 4⟩, .apply]).tail,
      m.label.rotation = .stage none ⟨some 3, some 4⟩ ∨
        m.label.rotation = .apply ∧ m.before.verified = true := by decide +kernel
  have held := (verified_secret_held (generated_fresh sample_generated)
    (sampled_run [.verify, .stage none ⟨some 3, some 4⟩, .apply])).2.2 [] _ _ rfl
    ⟨rfl, by decide +kernel⟩
  refine held ?_ ?_ ?_ ?_
  · intro m member marks
    rcases quiet m member with here | ⟨here, _⟩ <;> cases here.symm.trans marks.1
  · rintro m member ⟨_, _, took⟩
    rcases quiet m member with here | ⟨here, _⟩ <;> cases here.symm.trans took.rotation
  · intro m member took
    rcases quiet m member with here | ⟨here, _⟩ <;> cases here.symm.trans took.rotation
  · intro m member took
    rcases quiet m member with here | ⟨_, flag⟩
    · cases here.symm.trans took.rotation
    · exact .inl flag

/-- A rollback verifies a secret that never was, and drops the one last verified. -/
theorem rollback_unearned :
    generated ⟨some 1, some 2⟩ = .ok sample ∧
      (∃ ms t, Run Rotates sample ms t ∧ t.verified = true ∧ ¬ Marked ms t.psk) ∧
      ∃ past m rest t, Run Rotates sample (past ++ m :: rest) t ∧ Marks m ∧
        (∀ m' ∈ rest, ¬ Marks m' ∧ ¬ Forces m') ∧ ¬ t.Holds m.before.psk := by
  refine ⟨sample_generated, ?_, ?_⟩
  · refine ⟨_, _, sampled_run [.stage none ⟨some 3, some 4⟩, .apply, .rollback],
      by decide +kernel, ?_⟩
    rintro ⟨m, member, marks, _⟩
    have quiet : ∀ m ∈ sampledMoves [.stage none ⟨some 3, some 4⟩, .apply, .rollback],
        m.label.rotation ≠ .verify := by decide +kernel
    exact quiet m member marks.1
  · let rotations : List Rotation := [.stage none ⟨some 3, some 4⟩, .apply, .verify, .rollback]
    refine ⟨(sampledMoves rotations).take 2, ⟨_, ⟨.verify, true⟩, _⟩,
      (sampledMoves rotations).drop 3, _, sampled_run rotations, ⟨rfl, ?_⟩, ?_, ?_⟩
    · decide +kernel
    · have quiet : ∀ m ∈ (sampledMoves rotations).drop 3, m.label.rotation = .rollback := by
        decide +kernel
      intro m member
      have here := quiet m member
      refine ⟨fun marks => (nomatch here.symm.trans marks.1), ?_⟩
      rintro ⟨_, _, took⟩
      cases here.symm.trans took.rotation
    · have active : (sampled rotations).psk = 2 := by decide +kernel
      have empty : (sampled rotations).previous = none := by decide +kernel
      rintro (same | ⟨previous, held, _⟩)
      · exact absurd (active.symm.trans same) (by decide +kernel)
      · cases empty.symm.trans held

end Innernet.ManagementLink
