import Innernet.Library.Switchover
import Innernet.Server.Rotation

/-! The two ends of a management link: the server's slots and the `ManagementState` of
`client-core/src/management.rs`. Every command reads its store, works on what it read and saves it;
one that fails, or stops before the save, leaves the store as it was. -/
namespace Innernet

open Fallible Runs Switchover

namespace Management

/-- `ManagementState`. -/
structure ManagementState where
  active : Enrollment
  staged : Option Enrollment
  previous : Option Enrollment
  deriving DecidableEq

namespace ManagementState

/-- `validate_state`. -/
def validate (s : ManagementState) : Except String Unit := do
  s.active.validate
  (s.staged.toList ++ s.previous.toList).forM Enrollment.validate

/-- `update_state`, up to the save. -/
def update (s : ManagementState) (f : ManagementState → Except String ManagementState) :
    Except String ManagementState := do
  s.validate
  let updated ← f s
  updated.validate
  return updated

def stage (s : ManagementState) (enrollment : Enrollment) : Except String ManagementState := do
  enrollment.validate
  s.update fun state => return { state with staged := some enrollment }

def applyActive (s : ManagementState) : Except String ManagementState :=
  s.update fun state =>
    match state.staged with
    | none => .error "no rotation is staged"
    | some staged => .ok { active := staged, staged := none, previous := some state.active }

def confirm (s : ManagementState) : Except String ManagementState :=
  s.update fun state => do
    require (state.previous ≠ none) "no rotation to confirm"
    return { state with previous := none }

def rollback (s : ManagementState) : Except String ManagementState :=
  s.update fun state =>
    match state.previous with
    | none => .error "no rotation to roll back"
    | some previous => .ok { active := previous, staged := none, previous := none }

theorem update_ok {s s' : ManagementState} {f : ManagementState → Except String ManagementState}
    (updated : s.update f = .ok s') : f s = .ok s' := by
  simp only [update, bind_ok, pure_ok] at updated
  obtain ⟨_, _, _, done, _, _, rfl⟩ := updated
  exact done

theorem update_valid {s s' : ManagementState}
    {f : ManagementState → Except String ManagementState} (updated : s.update f = .ok s') :
    s'.validate = .ok () := by
  simp only [update, bind_ok, pure_ok] at updated
  obtain ⟨_, _, _, _, _, valid, rfl⟩ := updated
  exact valid

theorem stage_ok {s s' : ManagementState} {enrollment : Enrollment}
    (done : s.stage enrollment = .ok s') :
    s' = { s with staged := some enrollment } ∧ s'.validate = .ok () := by
  simp only [stage, bind_ok] at done
  obtain ⟨_, _, updated⟩ := done
  have same := update_ok updated
  rw [pure_ok] at same
  exact ⟨same.symm, update_valid updated⟩

theorem applyActive_ok {s s' : ManagementState} (done : s.applyActive = .ok s') :
    ∃ staged, s.staged = some staged ∧ s' = ⟨staged, none, some s.active⟩ ∧
      s'.validate = .ok () := by
  have same := update_ok done
  split at same
  · cases same
  · rename_i staged found
    cases same
    exact ⟨staged, found, rfl, update_valid done⟩

theorem confirm_ok {s s' : ManagementState} (done : s.confirm = .ok s') :
    s.previous ≠ none ∧ s' = { s with previous := none } ∧ s'.validate = .ok () := by
  have same := update_ok done
  simp only [bind_ok, require_ok, pure_ok] at same
  obtain ⟨_, kept, rfl⟩ := same
  exact ⟨kept, rfl, update_valid done⟩

theorem rollback_ok {s s' : ManagementState} (done : s.rollback = .ok s') :
    ∃ previous, s.previous = some previous ∧ s' = ⟨previous, none, none⟩ ∧
      s'.validate = .ok () := by
  have same := update_ok done
  split at same
  · cases same
  · rename_i previous found
    cases same
    exact ⟨previous, found, rfl, update_valid done⟩

/-- A state the client can load can be rolled back. -/
theorem rollback_valid {s : ManagementState} (valid : s.validate = .ok ()) {previous : Enrollment}
    (kept : s.previous = some previous) : s.rollback = .ok ⟨previous, none, none⟩ := by
  have whole : previous.validate = .ok () := by
    simp only [validate, bind_ok] at valid
    obtain ⟨_, _, all⟩ := valid
    exact forM_ok.mp all previous (by simp [kept])
  have alone : (⟨previous, none, none⟩ : ManagementState).validate = .ok () := by
    simp only [validate, bind_ok]
    exact ⟨(), whole, rfl⟩
  simp only [rollback, update, bind_ok, pure_ok]
  exact ⟨(), valid, _, by rw [kept], (), alone, rfl⟩

/-- The secrets the client has a copy of. -/
def secrets (s : ManagementState) : List (Binary 32) :=
  (s.active :: (s.staged.toList ++ s.previous.toList)).map fun e => e.psk.bytes

def side (s : ManagementState) : Side (Binary 32) :=
  ⟨s.active.psk.bytes, s.previous.map fun e => e.psk.bytes⟩

end ManagementState

end Management

open Management

def ManagementLink.side (link : ManagementLink) : Side (Binary 32) :=
  ⟨link.psk, link.previous.map StagedLink.psk⟩

/-- One link: the server's slots, the client's, and the candidates the server has exported. -/
structure Ends where
  networkId : Binary 16
  peerId : Number
  serverId : Number
  link : ManagementLink
  client : ManagementState
  exported : List Management.Enrollment
  deriving DecidableEq

/-- The commands of an administrative rotation, at the server and at the client. -/
inductive Command where
  | server (rotation : Rotation)
  | exportStaged
  | stage (enrollment : Management.Enrollment)
  | applyActive
  | confirm
  | rollback
  deriving DecidableEq

/-- A command, and whether its change was saved. -/
structure Issued where
  command : Command
  saved : Bool
  deriving DecidableEq

namespace Ends

/-- The two ends after a command that is saved. -/
def perform (e : Ends) : Command → Option Ends
  | .server rotation =>
    (e.link.rotate rotation).toOption.map fun link => { e with link }
  | .exportStaged =>
    (e.link.stagedEnrollment e.networkId e.serverId.val e.peerId.val).map fun enrollment =>
      { e with exported := enrollment :: e.exported }
  | .stage enrollment => (e.client.stage enrollment).toOption.map fun client => { e with client }
  | .applyActive => e.client.applyActive.toOption.map fun client => { e with client }
  | .confirm => e.client.confirm.toOption.map fun client => { e with client }
  | .rollback => e.client.rollback.toOption.map fun client => { e with client }

/-- The operator verifies a link only when it works, carries over only what was exported, and
repairs nothing by force. -/
def Permitted (e : Ends) : Command → Prop
  | .server .verify => e.link.psk = e.client.active.psk.bytes
  | .server (.force _ _) => False
  | .stage enrollment => enrollment ∈ e.exported
  | _ => True

instance (e : Ends) (c : Command) : Decidable (e.Permitted c) := by
  unfold Permitted
  split <;> infer_instance

def next (e : Ends) (i : Issued) : Option Ends :=
  if e.Permitted i.command then
    some (if i.saved then (e.perform i.command).getD e else e)
  else none

abbrev Moved := Move Ends Issued

/-- The command succeeded and its change was saved. -/
def Took (m : Moved) (c : Command) : Prop :=
  m.label = ⟨c, true⟩ ∧ (m.before.perform c).isSome = true

instance (m : Moved) (c : Command) : Decidable (Took m c) :=
  inferInstanceAs (Decidable (_ ∧ _))

theorem next_cases {a b : Ends} {i : Issued} (step : Taken next a i b) :
    a.Permitted i.command ∧ ((b = a ∧ ∀ c, ¬ Took ⟨a, i, b⟩ c) ∨
      Took ⟨a, i, b⟩ i.command ∧ a.perform i.command = some b) := by
  obtain ⟨c, saved⟩ := i
  simp only [Taken, next] at step
  split at step
  · rename_i permitted
    refine ⟨permitted, ?_⟩
    rw [Option.some.injEq] at step
    cases saved with
    | false => exact .inl ⟨step.symm, fun c took => nomatch congrArg Issued.saved took.1⟩
    | true =>
      cases done : a.perform c with
      | none =>
        rw [done] at step
        refine .inl ⟨step.symm, ?_⟩
        rintro c' ⟨label, performed⟩
        cases label
        rw [done] at performed
        cases performed
      | some e =>
        simp only [done, if_true, Option.getD_some] at step
        subst step
        exact .inr ⟨⟨rfl, by rw [done]; rfl⟩, rfl⟩
  · cases step

theorem Took.command {m : Moved} {c : Command} (took : Took m c) : m.label.command = c :=
  congrArg Issued.command took.1

/-- An end has dropped what it could go back to. -/
def ServerConfirms (m : Moved) : Prop := Took m (.server .confirm)

def ClientConfirms (m : Moved) : Prop := Took m .confirm

/-- An end no longer goes back past the last confirmation of the other. -/
def ServerSettles (m : Moved) : Prop := Took m (.server .confirm) ∨ Took m (.server .apply)

def ClientSettles (m : Moved) : Prop := Took m .confirm ∨ Took m .applyActive

/-- The order of a rotation, as far as it binds the two ends: no second candidate is applied over
a kept secret, a secret is dropped only while both ends are on one, and no end goes back once the
other has dropped what it would go back to. -/
structure Orderly (past : List Moved) (m : Moved) : Prop where
  apply : Took m (.server .apply) → m.before.link.previous = none
  applyActive : Took m .applyActive → m.before.client.previous = none
  confirm : ServerConfirms m ∨ ClientConfirms m →
    m.before.link.psk = m.before.client.active.psk.bytes
  serverRollback : Took m (.server .rollback) → ¬ Since ClientConfirms ServerSettles past
  clientRollback : Took m .rollback → ¬ Since ServerConfirms ClientSettles past

/-- Both ends on one secret, with nothing to go back to and a client that can load its state. -/
structure Settled (e : Ends) : Prop where
  equal : e.link.psk = e.client.active.psk.bytes
  link : e.link.previous = none
  client : e.client.previous = none
  valid : e.client.validate = .ok ()

/-- After the moves `ms` the two ends have a secret to meet on. -/
structure Meets (ms : List Moved) (e : Ends) : Prop where
  balanced : Balanced e.link.side e.client.side (Since ClientConfirms ServerSettles ms)
    (Since ServerConfirms ClientSettles ms)
  valid : e.client.validate = .ok ()

theorem Settled.meets {e : Ends} (settled : e.Settled) : Meets [] e where
  balanced := Balanced.of_equal settled.equal (by simp [ManagementLink.side, settled.link])
    (by simp [ManagementState.side, settled.client])
  valid := settled.valid

section Steps

variable {ms : List Moved} {a b : Ends}

/-- A move that settles neither end keeps what binds them. -/
theorem Meets.still (meets : Meets ms a) {m : Moved} (server : ¬ ServerSettles m)
    (client : ¬ ClientSettles m) (link : b.link.side = a.link.side)
    (side : b.client.side = a.client.side) (valid : b.client.validate = .ok ()) :
    Meets (ms ++ [m]) b where
  balanced := by
    rw [link, side]
    exact meets.balanced.mono (·.later server) (·.later client)
  valid := valid

theorem Meets.server (meets : Meets ms a) {r : Rotation} {link : ManagementLink} {saved : Bool}
    (changed : a.link.Changed r link)
    (took : Took ⟨a, ⟨.server r, saved⟩, { a with link }⟩ (.server r))
    (permitted : a.Permitted (.server r))
    (orderly : Orderly ms ⟨a, ⟨.server r, saved⟩, { a with link }⟩) :
    Meets (ms ++ [⟨a, ⟨.server r, saved⟩, { a with link }⟩]) { a with link } := by
  have client : ¬ ClientSettles ⟨a, ⟨.server r, saved⟩, { a with link }⟩ := by
    rintro (took' | took') <;> cases took'.command
  cases changed with
  | same =>
    refine meets.still ?_ client rfl rfl meets.valid
    rintro (took' | took') <;> cases took'.command
  | staged =>
    refine meets.still ?_ client rfl rfl meets.valid
    rintro (took' | took') <;> cases took'.command
  | verified =>
    refine meets.still ?_ client rfl rfl meets.valid
    rintro (took' | took') <;> cases took'.command
  | applied staged =>
    have empty : a.link.previous = none := orderly.apply took
    have settled : a.link.side.previous = none := by simp [ManagementLink.side, empty]
    exact ⟨(meets.balanced.apply settled staged.psk _).mono id (·.later client), meets.valid⟩
  | confirmed =>
    have same : a.link.side.active = a.client.side.active := orderly.confirm (.inl took)
    exact ⟨Balanced.confirm same _ (.now took), meets.valid⟩
  | restored previous kept =>
    have kept' : a.link.side.previous = some previous.psk := by simp [ManagementLink.side, kept]
    have back := fun p => meets.balanced.rollback (orderly.serverRollback took) kept' p
    simp only [Side.rollback_of kept'] at back
    exact ⟨(back _).mono id (·.later client), meets.valid⟩
  | forced => cases permitted

theorem Meets.step {i : Issued} (meets : Meets ms a) (step : Taken next a i b)
    (orderly : Orderly ms ⟨a, i, b⟩) : Meets (ms ++ [⟨a, i, b⟩]) b := by
  obtain ⟨permitted, ⟨rfl, idle⟩ | ⟨took, performed⟩⟩ := next_cases step
  · exact meets.still (fun settles => settles.elim (idle _) (idle _))
      (fun settles => settles.elim (idle _) (idle _)) rfl rfl meets.valid
  · obtain ⟨c, saved⟩ := i
    have server : (∀ r, c ≠ .server r) → ¬ ServerSettles ⟨a, ⟨c, saved⟩, b⟩ := by
      rintro other (took' | took')
      · exact other _ took'.command
      · exact other _ took'.command
    have client : c ≠ .applyActive → c ≠ .confirm → ¬ ClientSettles ⟨a, ⟨c, saved⟩, b⟩ := by
      rintro here there (took' | took')
      · exact there took'.command
      · exact here took'.command
    cases c with
    | server r =>
      simp only [perform, Option.map_eq_some_iff, toOption_some] at performed
      obtain ⟨link, done, rfl⟩ := performed
      exact meets.server (ManagementLink.rotate_changed done) took permitted orderly
    | exportStaged =>
      simp only [perform, Option.map_eq_some_iff] at performed
      obtain ⟨enrollment, _, rfl⟩ := performed
      exact meets.still (server nofun) (client nofun nofun) rfl rfl meets.valid
    | stage enrollment =>
      simp only [perform, Option.map_eq_some_iff, toOption_some] at performed
      obtain ⟨_, done, rfl⟩ := performed
      obtain ⟨rfl, valid⟩ := ManagementState.stage_ok done
      exact meets.still (server nofun) (client nofun nofun) rfl rfl valid
    | applyActive =>
      simp only [perform, Option.map_eq_some_iff, toOption_some] at performed
      obtain ⟨_, done, rfl⟩ := performed
      obtain ⟨staged, _, rfl, valid⟩ := ManagementState.applyActive_ok done
      have empty : a.client.previous = none := orderly.applyActive took
      have settled : a.client.side.previous = none := by simp [ManagementState.side, empty]
      have applied := fun p => (meets.balanced.symm.apply settled staged.psk.bytes p).symm
      exact ⟨(applied _).mono (·.later (server nofun)) id, valid⟩
    | confirm =>
      simp only [perform, Option.map_eq_some_iff, toOption_some] at performed
      obtain ⟨_, done, rfl⟩ := performed
      obtain ⟨_, rfl, valid⟩ := ManagementState.confirm_ok done
      have same : a.link.side.active = a.client.side.active := orderly.confirm (.inr took)
      exact ⟨(Balanced.confirm same.symm _ (.now took)).symm, valid⟩
    | rollback =>
      simp only [perform, Option.map_eq_some_iff, toOption_some] at performed
      obtain ⟨_, done, rfl⟩ := performed
      obtain ⟨previous, kept, rfl, valid⟩ := ManagementState.rollback_ok done
      have kept' : a.client.side.previous = some previous.psk.bytes := by
        simp [ManagementState.side, kept]
      have back := fun p => (meets.balanced.symm.rollback (orderly.clientRollback took) kept' p).symm
      simp only [Side.rollback_of kept'] at back
      exact ⟨(back _).mono (·.later (server nofun)) id, valid⟩

end Steps

section Runs

variable {start t : Ends} {ms : List Moved}

theorem run_meets (settled : start.Settled) (run : Run (Taken next) start ms t)
    (orderly : ∀ past m rest, ms = past ++ m :: rest → Orderly past m) : Meets ms t := by
  induction run with
  | start => exact settled.meets
  | @move ms a b i run step ih =>
    have prior : Meets ms a := ih fun past m rest same =>
      orderly past m (rest ++ [⟨a, i, b⟩]) (by simp [same])
    exact prior.step step (orderly ms ⟨a, i, b⟩ [] rfl)

theorem link_secret {link : ManagementLink} {secret : Binary 32} (holds : link.side.Holds secret) :
    secret ∈ link.secrets := by
  rcases holds with rfl | kept
  · exact List.mem_cons_self
  · obtain ⟨previous, held, rfl⟩ := Option.map_eq_some_iff.mp kept
    simp [ManagementLink.secrets, held]

theorem client_secret {s : ManagementState} {secret : Binary 32} (holds : s.side.Holds secret) :
    secret ∈ s.secrets := by
  rcases holds with rfl | kept
  · exact List.mem_cons_self
  · obtain ⟨previous, held, rfl⟩ := Option.map_eq_some_iff.mp kept
    simp [ManagementState.secrets, held]

theorem link_back {link : ManagementLink} {side : Side (Binary 32)}
    (member : side ∈ [link.side, link.side.rollback]) :
    ∃ link', (link' = link ∨ link.rollbackRotation = .ok link') ∧ link'.psk = side.active := by
  simp only [List.mem_cons, List.not_mem_nil, or_false] at member
  rcases member with rfl | rfl
  · exact ⟨link, .inl rfl, rfl⟩
  · cases kept : link.previous with
    | none =>
      refine ⟨link, .inl rfl, ?_⟩
      simp [Side.rollback, ManagementLink.side, kept]
    | some previous =>
      refine ⟨_, .inr (by rw [ManagementLink.rollbackRotation, kept]), ?_⟩
      simp [Side.rollback, ManagementLink.side, kept]

theorem client_back {s : ManagementState} (valid : s.validate = .ok ()) {side : Side (Binary 32)}
    (member : side ∈ [s.side, s.side.rollback]) :
    ∃ s', (s' = s ∨ s.rollback = .ok s') ∧ s'.active.psk.bytes = side.active := by
  simp only [List.mem_cons, List.not_mem_nil, or_false] at member
  rcases member with rfl | rfl
  · exact ⟨s, .inl rfl, rfl⟩
  · cases kept : s.previous with
    | none =>
      refine ⟨s, .inl rfl, ?_⟩
      simp [Side.rollback, ManagementState.side, kept]
    | some previous =>
      refine ⟨_, .inr (ManagementState.rollback_valid valid kept), ?_⟩
      simp [Side.rollback, ManagementState.side, kept]

/-- In an orderly rotation the two ends always share a secret, and one rollback at most at each
end brings both to it. -/
theorem link_repairable (settled : start.Settled) (run : Run (Taken next) start ms t)
    (orderly : ∀ past m rest, ms = past ++ m :: rest → Orderly past m) :
    (∃ secret ∈ t.link.secrets, secret ∈ t.client.secrets) ∧
      ∃ link client, (link = t.link ∨ t.link.rollbackRotation = .ok link) ∧
        (client = t.client ∨ t.client.rollback = .ok client) ∧
        link.psk = client.active.psk.bytes := by
  have meets := run_meets settled run orderly
  constructor
  · obtain ⟨secret, near, far⟩ := meets.balanced.common
    exact ⟨secret, link_secret near, client_secret far⟩
  · obtain ⟨near, member, far, member', same⟩ := meets.balanced.mend
    obtain ⟨link, back, active⟩ := link_back member
    obtain ⟨client, back', active'⟩ := client_back meets.valid member'
    exact ⟨link, client, back, back', active.trans (same.trans active'.symm)⟩

end Runs

section Sample

def sampleEnrollment (provisionId : Binary 16) (psk : SecretKey) : Management.Enrollment where
  networkId := 9
  provisionId
  peerId := 3
  serverId := 1
  psk

def first : SecretKey := ⟨2, by decide⟩

def second : SecretKey := ⟨4, by decide⟩

def sample : Ends where
  networkId := 9
  peerId := ⟨3, Nat.succ_pos 2, Number.three_bounded⟩
  serverId := ⟨1, Nat.one_pos, Number.one_bounded⟩
  link := ManagementLink.sample
  client := ⟨sampleEnrollment 1 first, none, none⟩
  exported := []

/-- What each party does first: the candidate is staged, exported and carried over. -/
def carried : List Command :=
  [.server (.stage none ⟨some 3, some 4⟩), .exportStaged, .stage (sampleEnrollment 3 second)]

def issue (commands : List Command) : List Issued := commands.map (Issued.mk · true)

def apart (e : Ends) : Bool := e.link.secrets.all fun secret => secret ∉ e.client.secrets

theorem sample_settled : sample.Settled := ⟨rfl, rfl, rfl, by decide +kernel⟩

end Sample

/-- Three orders of commands after which the ends share nothing: a second candidate applied over
the first, a confirmation while the ends are on different secrets, and a rollback at the client
after the server confirmed. -/
theorem ends_apart : sample.Settled ∧
    (∃ ms t, Run (Taken next) sample ms t ∧ ms.map Move.label = issue
        [.server (.stage none ⟨some 3, some 4⟩), .server .apply,
          .server (.stage none ⟨some 5, some 6⟩), .server .apply] ∧ t.apart = true) ∧
      (∃ ms t, Run (Taken next) sample ms t ∧ ms.map Move.label = issue
        (carried ++ [.applyActive, .confirm, .server .apply, .server .rollback]) ∧
        t.apart = true) ∧
      ∃ ms t, Run (Taken next) sample ms t ∧ ms.map Move.label = issue
        (carried ++ [.server .apply, .applyActive, .server .verify, .server .confirm,
          .rollback]) ∧ t.apart = true :=
  ⟨sample_settled, execute_reaches (by decide +kernel), execute_reaches (by decide +kernel),
    execute_reaches (by decide +kernel)⟩

/-- A candidate carried to the client and applied at the server alone. -/
theorem link_repairable_half :
    ∃ ms t, Run (Taken next) sample ms t ∧ t.link.psk = 4 ∧ t.client.active.psk = first ∧
      (∃ secret ∈ t.link.secrets, secret ∈ t.client.secrets) ∧
      ∃ link client, (link = t.link ∨ t.link.rollbackRotation = .ok link) ∧
        (client = t.client ∨ t.client.rollback = .ok client) ∧
        link.psk = client.active.psk.bytes := by
  have checked : ((execute next sample (issue (carried ++ [.server .apply]))).any fun r =>
      (r.1.all fun m => decide (m.before.link.previous = none)) &&
        decide (r.2.link.psk = 4 ∧ r.2.client.active.psk = first)) = true := by decide +kernel
  obtain ⟨⟨ms, t⟩, executed, holds⟩ := (Option.any_eq_true _ _).mp checked
  rw [Bool.and_eq_true, List.all_eq_true, decide_eq_true_eq] at holds
  obtain ⟨unapplied, active, active'⟩ := holds
  have run := execute_run executed
  refine ⟨ms, t, run, active, active', link_repairable sample_settled run ?_⟩
  intro past m rest same
  have member : m ∈ ms := same ▸ List.mem_append_right past List.mem_cons_self
  have issued : m.label.command ∈ carried ++ [.server .apply] := by
    have label : m.label ∈ issue (carried ++ [.server .apply]) :=
      execute_labels executed ▸ List.mem_map_of_mem member
    obtain ⟨c, member', same'⟩ := List.mem_map.mp label
    exact same' ▸ member'
  have absent : ∀ c, c ∉ carried ++ [.server .apply] → ¬ Took m c :=
    fun c out took => out (took.command ▸ issued)
  exact {
    apply := fun _ => of_decide_eq_true (unapplied m member)
    applyActive := fun took => absurd took (absent _ (by decide))
    confirm := fun took =>
      took.elim (fun h => absurd h (absent _ (by decide))) fun h => absurd h (absent _ (by decide))
    serverRollback := fun took => absurd took (absent _ (by decide))
    clientRollback := fun took => absurd took (absent _ (by decide)) }

end Ends

end Innernet
