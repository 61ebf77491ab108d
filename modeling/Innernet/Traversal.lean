import Innernet.Library.Panics
import Innernet.Server.Keys
import Mathlib

/-! `NatTraverse` of `client-core/src/nat.rs`, and the end of `fetch` of
`client-core/src/interface.rs` that waits before it and runs it. -/
namespace Innernet

open Fallible Panics Tables

/-- `DeviceExt::get_peer`. -/
def Device.getPeer (d : Device) (publicKey : String) : Option PeerInfo :=
  (Key.decode publicKey).bind fun key => d.lookup key

namespace Traversal

/-- `Peer`, with what the traversal reads of it. -/
structure Peer (ε : Type) where
  publicKey : String
  ip : IpAddr
  endpoint : Option ε
  candidates : List ε
  deriving DecidableEq

/-- `Device::get` when it is asked: the device and the time, or no device. -/
structure Snapshot where
  device : Device
  now : Nat

abbrev Look := Option Snapshot

/-- The calls that `?` is on. -/
inductive Failure where
  | get
  | apply
  deriving DecidableEq

/-- What one step meets. The clock of its wait is read as it starts, so the wait looks once or
more often. -/
structure Round (ε : Type) where
  before : Look
  resolve : ε → Option SocketAddr
  applied : Bool
  first : Look
  later : List Look

structure Attempt (ε : Type) where
  publicKey : String
  endpoint : ε
  deriving DecidableEq

/-- A step: the endpoints it tries, what it asks of the device, and the peers it leaves. -/
structure Step (ε : Type) where
  attempts : List (Attempt ε)
  updates : List PeerConfigBuilder
  result : Outcome Failure (List (Peer ε))

/-- `STEP_INTERVAL`, in nanoseconds. -/
def stepInterval : Nat := 5 * 1000000000

variable {ε : Type} [DecidableEq ε]

/-- A peer of the snapshot that has no recent handshake. -/
def unconnected (look : Look) (publicKey : String) : Bool :=
  look.any fun s => (s.device.getPeer publicKey).any fun info => !info.isRecentlyConnected s.now

omit [DecidableEq ε] in
def refreshRemaining (remaining : List (Peer ε)) (look : Look) :
    Except Failure (List (Peer ε)) :=
  match look with
  | none => .error .get
  | some s =>
    let present := remaining.filter fun p =>
      (s.device.getPeer p.publicKey).any fun info => !info.isRecentlyConnected s.now
    .ok (present.filter fun p => !p.candidates.isEmpty)

/-- The peers that the differences leave, less those with an overridden endpoint. -/
def traversed (overrides : Table IpAddr ε) (diffs : List (Option (Peer ε))) : List (Peer ε) :=
  (diffs.filterMap id).filter fun p => p.ip ∉ overrides

/-- Candidates are taken from the end, so the reported endpoint goes to the front. -/
def Peer.prepared (p : Peer ε) : Peer ε :=
  let candidates := (p.candidates.take 10).filter fun addr => some addr ≠ p.endpoint
  { p with candidates := match p.endpoint with
      | some endpoint => endpoint :: candidates
      | none => candidates }

def new (overrides : Table IpAddr ε) (diffs : List (Option (Peer ε))) (look : Look) :
    Except Failure (List (Peer ε)) :=
  refreshRemaining ((traversed overrides diffs).map Peer.prepared) look

omit [DecidableEq ε] in
/-- A key that does not decode panics, once the endpoint has an address. -/
def setEndpoint (resolve : ε → Option SocketAddr) (publicKey : String) (endpoint : Option ε) :
    Outcome Failure (Option PeerConfigBuilder) :=
  match endpoint.bind resolve with
  | none => .ok none
  | some addr =>
    match Key.decode publicKey with
    | none => .error .panic
    | some key => .ok (some { PeerConfigBuilder.new key with endpoint := some addr })

def Peer.pop (p : Peer ε) : Peer ε := { p with candidates := p.candidates.dropLast }

def Peer.attempt (p : Peer ε) : Option (Attempt ε) :=
  p.candidates.getLast?.map fun endpoint => ⟨p.publicKey, endpoint⟩

omit [DecidableEq ε] in
/-- The wait of a step, which ends early when no peer remains. -/
def wait : List (Peer ε) → List Look → Except Failure (List (Peer ε))
  | remaining, [] => .ok remaining
  | remaining, look :: later => do
    let remaining ← refreshRemaining remaining look
    if remaining.isEmpty then pure remaining else wait remaining later

omit [DecidableEq ε] in
def step (round : Round ε) (remaining : List (Peer ε)) : Step ε :=
  match refreshRemaining remaining round.before with
  | .error e => ⟨[], [], .error (.error e)⟩
  | .ok remaining =>
    let attempts := remaining.filterMap Peer.attempt
    let candidateUpdates := remaining.mapM fun p =>
      setEndpoint round.resolve p.publicKey p.candidates.getLast?
    match candidateUpdates with
    | .error fault => ⟨attempts, [], .error fault⟩
    | .ok updates =>
      let updates := updates.filterMap id
      if round.applied then
        ⟨attempts, updates, lift (wait (remaining.map Peer.pop) (round.first :: round.later))⟩
      else ⟨attempts, updates, .error (.error .apply)⟩

omit [DecidableEq ε] in
/-- The loop of `fetch`, as long as the fuel lasts. -/
def loop : (Nat → Round ε) → Nat → List (Peer ε) → Option (List (Step ε))
  | _, _, [] => some []
  | _, 0, _ :: _ => none
  | rounds, fuel + 1, remaining =>
    let taken := step (rounds 0) remaining
    match taken.result with
    | .error _ => some [taken]
    | .ok rest => (loop (fun n => rounds (n + 1)) fuel rest).map fun steps => taken :: steps

/-- The end of `fetch`, `elapsed` nanoseconds after the update of the interface. -/
def traverse (overrides : Table IpAddr ε) (diffs : List (Option (Peer ε))) (look : Look)
    (elapsed : Nat) (rounds : Nat → Round ε) (fuel : Nat) :
    Option (Outcome Failure (List (Step ε))) :=
  match new overrides diffs look with
  | .error e => some (.error (.error e))
  | .ok remaining =>
    -- `STEP_INTERVAL - interface_updated_time.elapsed()` panics below zero
    if !remaining.isEmpty && stepInterval < elapsed then some (.error .panic)
    else (loop rounds fuel remaining).map .ok

/-! ### What is tried, and in which order -/

/-- The endpoints of a peer as they are tried: its first ten candidates from the last one on, without
the reported endpoint, and the reported endpoint. -/
def Peer.order (p : Peer ε) : List ε :=
  ((p.candidates.take 10).filter fun addr => some addr ≠ p.endpoint).reverse ++ p.endpoint.toList

/-- A peer after `k` of its endpoints have been tried. -/
def Peer.after (k : Nat) (p : Peer ε) : Peer ε :=
  { p with candidates := (p.order.drop k).reverse }

/-- The peers that have an endpoint left after `k` of them. -/
def stage (k : Nat) (peers : List (Peer ε)) : List (Peer ε) :=
  (peers.filter fun p => k < p.order.length).map (Peer.after k)

/-- The peers that every look finds on the interface and without a recent handshake. -/
def kept (looks : List Look) (peers : List (Peer ε)) : List (Peer ε) :=
  peers.filter fun p => looks.all fun look => unconnected look p.publicKey

def Round.looks (round : Round ε) : List Look := round.before :: round.first :: round.later

/-- The looks of the first `k` rounds. -/
def past : (Nat → Round ε) → Nat → List Look
  | _, 0 => []
  | rounds, k + 1 => (rounds 0).looks ++ past (fun n => rounds (n + 1)) k

/-- What the step of number `k` tries: of each peer kept to then, the endpoint of that number. -/
def due (peers : List (Peer ε)) (look : Look) (k : Nat) : List (Attempt ε) :=
  (kept [look] peers).filterMap fun p => p.order[k]?.map fun endpoint => ⟨p.publicKey, endpoint⟩

theorem Peer.order_length (p : Peer ε) : p.order.length ≤ 11 := by
  have few : ((p.candidates.take 10).filter fun addr => some addr ≠ p.endpoint).length ≤ 10 :=
    (List.length_filter_le _ _).trans (List.length_take_le _ _)
  cases same : p.endpoint <;> simp_all [Peer.order]
  omega

theorem Peer.order_nil (p : Peer ε) : p.order = [] ↔ p.endpoint = none ∧ p.candidates = [] := by
  cases same : p.endpoint <;> simp [Peer.order, same]

theorem Peer.prepared_eq (p : Peer ε) : p.prepared = p.after 0 := by
  cases same : p.endpoint <;> simp [Peer.prepared, Peer.after, Peer.order, same]

theorem Peer.pop_after (k : Nat) (p : Peer ε) : (p.after k).pop = p.after (k + 1) := by
  simp [Peer.pop, Peer.after]

theorem Peer.attempt_after (k : Nat) (p : Peer ε) :
    (p.after k).attempt = p.order[k]?.map fun endpoint => ⟨p.publicKey, endpoint⟩ := by
  simp [Peer.attempt, Peer.after, List.head?_drop]

theorem stage_nil {k : Nat} {peers : List (Peer ε)} :
    stage k peers = [] ↔ ∀ p ∈ peers, p.order.length ≤ k := by
  simp [stage]

theorem stage_pop (k : Nat) (peers : List (Peer ε)) :
    (stage k peers).map Peer.pop =
      (peers.filter fun p => k < p.order.length).map (Peer.after (k + 1)) := by
  simp [stage, Function.comp_def, Peer.pop_after]

theorem stage_attempts (k : Nat) (peers : List (Peer ε)) :
    (stage k peers).filterMap Peer.attempt =
      peers.filterMap fun p => p.order[k]?.map fun endpoint => ⟨p.publicKey, endpoint⟩ := by
  induction peers with
  | nil => rfl
  | cons p peers ih =>
    by_cases left : k < p.order.length
    · simp_all [stage, Peer.attempt_after]
    · simp_all [stage]

/-- An earlier stage does not show in a later one. -/
theorem stage_filter {j k : Nat} (later : j ≤ k) (looks : List Look) (peers : List (Peer ε)) :
    stage k (kept looks (peers.filter fun p => j < p.order.length)) = stage k (kept looks peers) := by
  unfold stage kept
  simp only [List.filter_filter]
  congr 1
  apply List.filter_congr
  intro p _
  by_cases left : k < p.order.length
  · have before : j < p.order.length := by omega
    simp [left, before]
  · simp [left]

omit [DecidableEq ε] in
@[simp] theorem kept_nil (peers : List (Peer ε)) : kept [] peers = peers := by
  simp [kept]

omit [DecidableEq ε] in
theorem kept_kept (first later : List Look) (peers : List (Peer ε)) :
    kept later (kept first peers) = kept (first ++ later) peers := by
  unfold kept
  simp only [List.filter_filter, List.all_append]
  exact List.filter_congr fun p _ => Bool.and_comm _ _

/-! ### One look, one wait, one step -/

theorem refreshRemaining_after {k : Nat} {peers rest : List (Peer ε)} {look : Look}
    (done : refreshRemaining (peers.map (Peer.after k)) look = .ok rest) :
    rest = stage k (kept [look] peers) := by
  cases look with
  | none => cases done
  | some s =>
    have left : ∀ p : Peer ε,
        (!(p.order.drop k).reverse.isEmpty) = decide (k < p.order.length) := by
      intro p
      by_cases more : k < p.order.length
      · simp [more]
      · simp [more, Nat.not_lt.mp more]
    have same := Except.ok.inj done
    rw [← same]
    simp only [List.filter_map, Function.comp_def, Peer.after, left, stage, kept, unconnected,
      List.all_cons, List.all_nil, Bool.and_true, Option.any_some]

theorem refreshRemaining_stage {j k : Nat} (next : j ≤ k) {peers rest : List (Peer ε)} {look : Look}
    (done : refreshRemaining ((peers.filter fun p => j < p.order.length).map (Peer.after k)) look =
      .ok rest) : rest = stage k (kept [look] peers) := by
  rw [refreshRemaining_after done, stage_filter next]

/-- A wait that ends early has nothing left, whatever it would have seen. -/
theorem wait_after {k : Nat} {peers rest : List (Peer ε)} {look : Look} {later : List Look}
    (done : wait (peers.map (Peer.after k)) (look :: later) = .ok rest) :
    rest = stage k (kept (look :: later) peers) := by
  induction later generalizing look peers with
  | nil =>
    rw [wait, bind_ok] at done
    obtain ⟨remaining, refreshed, done⟩ := done
    have same : remaining = rest := by
      split at done
      · exact pure_ok.mp done
      · exact Except.ok.inj done
    rw [← same, refreshRemaining_after refreshed]
  | cons next later ih =>
    rw [wait, bind_ok] at done
    obtain ⟨remaining, refreshed, done⟩ := done
    have now := refreshRemaining_after refreshed
    split at done
    · rename_i finished
      rw [List.isEmpty_iff, now, stage_nil] at finished
      have none : stage k (kept (look :: next :: later) peers) = [] := by
        rw [stage_nil]
        intro p member
        apply finished
        simp only [kept, List.mem_filter, List.all_cons, Bool.and_eq_true] at member ⊢
        simp [member]
      rw [none, ← pure_ok.mp done, now, stage_nil]
      exact finished
    · rw [now, stage] at done
      rw [ih done, stage_filter le_rfl, kept_kept, List.singleton_append]

omit [DecidableEq ε] in
theorem decoded_of_kept {look : Look} {p : Peer ε} (seen : unconnected look p.publicKey = true) :
    ∃ key, Key.decode p.publicKey = some key := by
  cases look with
  | none => cases seen
  | some s =>
    cases decoded : Key.decode p.publicKey with
    | none => simp [unconnected, Device.getPeer, decoded] at seen
    | some key => exact ⟨key, rfl⟩

omit [DecidableEq ε] in
theorem setEndpoint_total {publicKey : String} {key : Binary 32}
    (decoded : Key.decode publicKey = some key) (resolve : ε → Option SocketAddr)
    (endpoint : Option ε) : ∃ update, setEndpoint resolve publicKey endpoint = .ok update := by
  unfold setEndpoint
  rw [decoded]
  cases endpoint.bind resolve <;> simp

/-- The update that an attempt makes, if its endpoint resolves. -/
def Attempt.update (resolve : ε → Option SocketAddr) (a : Attempt ε) : Option PeerConfigBuilder :=
  (resolve a.endpoint).bind fun addr => (Key.decode a.publicKey).map fun key =>
    { PeerConfigBuilder.new key with endpoint := some addr }

omit [DecidableEq ε] in
theorem setEndpoint_update {resolve : ε → Option SocketAddr} {p : Peer ε}
    {update : Option PeerConfigBuilder}
    (asked : setEndpoint resolve p.publicKey p.candidates.getLast? = .ok update) :
    update = p.attempt.bind (Attempt.update resolve) := by
  unfold setEndpoint at asked
  unfold Peer.attempt
  cases last : p.candidates.getLast? with
  | none =>
    rw [last] at asked
    exact (Except.ok.inj asked).symm
  | some endpoint =>
    rw [last, Option.bind_some] at asked
    cases resolved : resolve endpoint with
    | none =>
      rw [resolved] at asked
      simp [Attempt.update, resolved, ← Except.ok.inj asked]
    | some addr =>
      rw [resolved] at asked
      cases decoded : Key.decode p.publicKey with
      | none => simp [decoded] at asked
      | some key =>
        rw [decoded] at asked
        simp [Attempt.update, resolved, decoded, ← Except.ok.inj asked]

omit [DecidableEq ε] in
theorem updates_eq {resolve : ε → Option SocketAddr} {peers : List (Peer ε)}
    {updates : List (Option PeerConfigBuilder)}
    (asked : peers.mapM (fun p => setEndpoint resolve p.publicKey p.candidates.getLast?) =
      .ok updates) :
    updates.filterMap id = (peers.filterMap Peer.attempt).filterMap (Attempt.update resolve) := by
  induction peers generalizing updates with
  | nil =>
    cases asked
    rfl
  | cons p peers ih =>
    rw [List.mapM_cons] at asked
    simp only [bind_ok, pure_ok] at asked
    obtain ⟨update, here, later, rest, rfl⟩ := asked
    rw [List.filterMap_cons, ih rest, setEndpoint_update here, List.filterMap_cons]
    cases p.attempt with
    | none => simp
    | some a => cases made : Attempt.update resolve a <;> simp [made]

/-- A peer that is asked about was on the interface at the look before, so its key decodes. -/
theorem updates_total (resolve : ε → Option SocketAddr) (look : Look) (k : Nat)
    (peers : List (Peer ε)) :
    ∃ updates, (stage k (kept [look] peers)).mapM (fun p =>
      setEndpoint resolve p.publicKey p.candidates.getLast?) = .ok updates := by
  apply mapM_total
  intro p member
  simp only [stage, kept, List.mem_map, List.mem_filter, List.all_cons, List.all_nil,
    Bool.and_true] at member
  obtain ⟨q, ⟨⟨_, seen⟩, _⟩, rfl⟩ := member
  obtain ⟨key, decoded⟩ := decoded_of_kept seen
  exact setEndpoint_total decoded resolve _

/-- The refresh before the attempts, when the device is there. -/
theorem refreshRemaining_some (k : Nat) (peers : List (Peer ε)) (s : Snapshot) :
    refreshRemaining (stage k peers) (some s) = .ok (stage k (kept [some s] peers)) := by
  cases refreshed : refreshRemaining (stage k peers) (some s) with
  | error e => cases refreshed
  | ok rest => rw [refreshRemaining_stage le_rfl refreshed]

/-- What one step does with the peers that have an endpoint left. -/
theorem step_stage (round : Round ε) (k : Nat) (peers : List (Peer ε)) :
    (step round (stage k peers)).attempts = due peers round.before k ∧
      (step round (stage k peers)).updates =
        (due peers round.before k).filterMap (Attempt.update round.resolve) ∧
      (step round (stage k peers)).result ≠ .error .panic ∧
      ∀ rest, (step round (stage k peers)).result = .ok rest →
        rest = stage (k + 1) (kept round.looks peers) := by
  cases before : round.before with
  | none =>
    have failed : step round (stage k peers) = ⟨[], [], .error (.error .get)⟩ := by
      simp [step, before, refreshRemaining]
    rw [failed]
    simp [due, kept, unconnected]
  | some s =>
    obtain ⟨updates, asked⟩ := updates_total round.resolve (some s) k peers
    have attempts := stage_attempts k (kept [some s] peers)
    have made := updates_eq asked
    rw [attempts] at made
    unfold step
    simp only [before, refreshRemaining_some, asked]
    by_cases applied : round.applied = true
    · rw [if_pos applied]
      refine ⟨attempts, made, lift_panic, ?_⟩
      intro rest done
      rw [lift_ok, stage_pop] at done
      rw [wait_after done, stage_filter (Nat.le_succ k), kept_kept]
      simp [Round.looks, before]
    · rw [if_neg applied]
      exact ⟨attempts, made, by simp, by simp⟩

/-! ### The loop -/

omit [DecidableEq ε] in
@[simp] theorem loop_nil (rounds : Nat → Round ε) (fuel : Nat) : loop rounds fuel [] = some [] := by
  cases fuel <;> rfl

omit [DecidableEq ε] in
theorem loop_failed {rounds : Nat → Round ε} {remaining : List (Peer ε)} {fault : Fault Failure}
    (some_left : remaining ≠ []) (failed : (step (rounds 0) remaining).result = .error fault)
    (fuel : Nat) : loop rounds (fuel + 1) remaining = some [step (rounds 0) remaining] := by
  cases remaining with
  | nil => exact absurd rfl some_left
  | cons p remaining => simp only [loop, failed]

omit [DecidableEq ε] in
theorem loop_next {rounds : Nat → Round ε} {remaining rest : List (Peer ε)}
    (some_left : remaining ≠ []) (done : (step (rounds 0) remaining).result = .ok rest)
    (fuel : Nat) : loop rounds (fuel + 1) remaining =
      (loop (fun n => rounds (n + 1)) fuel rest).map fun steps =>
        step (rounds 0) remaining :: steps := by
  cases remaining with
  | nil => exact absurd rfl some_left
  | cons p remaining => simp only [loop, done]

omit [DecidableEq ε] in
/-- Fuel that is left over changes nothing. -/
theorem loop_fuel {rounds : Nat → Round ε} {fuel more : Nat} {remaining : List (Peer ε)}
    {steps : List (Step ε)} (ran : loop rounds fuel remaining = some steps) (enough : fuel ≤ more) :
    loop rounds more remaining = some steps := by
  induction fuel generalizing rounds more remaining steps with
  | zero =>
    cases remaining with
    | nil => simpa using ran
    | cons p remaining => cases ran
  | succ fuel ih =>
    by_cases finished : remaining = []
    · subst finished
      simpa using ran
    · obtain ⟨more, rfl⟩ := Nat.exists_eq_add_of_le' (Nat.le_of_add_left_le enough)
      rcases ok_or_error (step (rounds 0) remaining).result with ⟨rest, done⟩ | ⟨fault, failed⟩
      · rw [loop_next finished done, Option.map_eq_some_iff] at ran ⊢
        obtain ⟨later, ran, same⟩ := ran
        exact ⟨later, ih ran (by omega), same⟩
      · rw [loop_failed finished failed] at ran ⊢
        exact ran

/-- The steps that a traversal takes from its step of number `k`: no more than are left of eleven,
each trying what is due, until nothing is left to try. -/
structure Orderly (rounds : Nat → Round ε) (k : Nat) (peers : List (Peer ε))
    (steps : List (Step ε)) : Prop where
  short : steps.length ≤ 11 - k
  quiet : ∀ taken : Step ε, taken ∈ steps → taken.result ≠ .error .panic
  tries : ∀ j (taken : Step ε), steps[j]? = some taken →
    taken.attempts = due (kept (past rounds j) peers) (rounds j).before (k + j)
  asks : ∀ j (taken : Step ε), steps[j]? = some taken →
    taken.updates = taken.attempts.filterMap (Attempt.update (rounds j).resolve)
  exhausts : (∀ taken ∈ steps, ∃ rest, taken.result = .ok rest) →
    ∀ p ∈ kept (past rounds steps.length) peers, p.order.length ≤ k + steps.length

namespace Orderly

variable {rounds : Nat → Round ε} {k : Nat} {peers : List (Peer ε)}

theorem finished (none_left : stage k peers = []) : Orderly rounds k peers [] where
  short := by simp
  quiet := by simp
  tries := by simp
  asks := by simp
  exhausts := fun _ p member => stage_nil.mp none_left p (List.mem_of_mem_filter member)

/-- A step that fails is the last. -/
theorem failed (left : k < 11) {fault : Fault Failure}
    (fails : (step (rounds 0) (stage k peers)).result = .error fault) :
    Orderly rounds k peers [step (rounds 0) (stage k peers)] where
  short := by
    simp only [List.length_singleton]
    omega
  quiet := by
    intro taken member
    rw [List.mem_singleton.mp member]
    exact (step_stage (rounds 0) k peers).2.2.1
  tries := by
    intro j taken found
    cases j with
    | zero =>
      cases found
      rw [past, kept_nil]
      exact (step_stage (rounds 0) k peers).1
    | succ j => cases found
  asks := by
    intro j taken found
    obtain ⟨attempts, updates, _⟩ := step_stage (rounds 0) k peers
    cases j with
    | zero =>
      cases found
      rw [attempts, updates]
    | succ j => cases found
  exhausts := by
    intro each
    obtain ⟨rest, done⟩ := each _ (List.mem_singleton_self _)
    rw [fails] at done
    cases done

theorem next (left : k < 11) {steps : List (Step ε)}
    (later : Orderly (fun n => rounds (n + 1)) (k + 1) (kept (rounds 0).looks peers) steps) :
    Orderly rounds k peers (step (rounds 0) (stage k peers) :: steps) where
  short := by
    have short := later.short
    simp only [List.length_cons]
    omega
  quiet := by
    intro taken member
    rcases List.mem_cons.mp member with rfl | inside
    · exact (step_stage (rounds 0) k peers).2.2.1
    · exact later.quiet taken inside
  tries := by
    intro j taken found
    cases j with
    | zero =>
      cases found
      rw [past, kept_nil]
      exact (step_stage (rounds 0) k peers).1
    | succ j =>
      rw [List.getElem?_cons_succ] at found
      rw [past, ← kept_kept, Nat.add_comm j, ← Nat.add_assoc]
      have tried := later.tries j taken found
      rwa [Nat.add_comm j] at tried
  asks := by
    intro j taken found
    obtain ⟨attempts, updates, _⟩ := step_stage (rounds 0) k peers
    cases j with
    | zero =>
      cases found
      rw [attempts, updates]
    | succ j => exact later.asks j taken found
  exhausts := by
    intro each p member
    rw [List.length_cons, past, ← kept_kept] at member
    have exhausted := later.exhausts (fun taken inside => each taken (List.mem_cons_of_mem _ inside))
      p member
    rw [List.length_cons]
    omega

end Orderly

/-- The loop over the peers of a stage ends, since no peer has more than eleven endpoints. -/
theorem loop_stage (rounds : Nat → Round ε) (fuel k : Nat) (peers : List (Peer ε))
    (enough : 11 ≤ fuel + k) :
    ∃ steps, loop rounds fuel (stage k peers) = some steps ∧ Orderly rounds k peers steps := by
  induction fuel generalizing rounds k peers with
  | zero =>
    have none_left : stage k peers = [] := by
      rw [stage_nil]
      exact fun p _ => p.order_length.trans (by omega)
    exact ⟨[], by rw [none_left, loop_nil], .finished none_left⟩
  | succ fuel ih =>
    by_cases none_left : stage k peers = []
    · exact ⟨[], by rw [none_left, loop_nil], .finished none_left⟩
    · have left : k < 11 := by
        rw [stage_nil] at none_left
        push Not at none_left
        obtain ⟨p, _, longer⟩ := none_left
        exact longer.trans_le p.order_length
      rcases ok_or_error (step (rounds 0) (stage k peers)).result with
        ⟨rest, done⟩ | ⟨fault, fails⟩
      · obtain ⟨steps, ran, later⟩ :=
          ih (fun n => rounds (n + 1)) (k + 1) (kept (rounds 0).looks peers) (by omega)
        refine ⟨_, ?_, .next left later⟩
        rw [loop_next none_left done, (step_stage (rounds 0) k peers).2.2.2 rest done, ran,
          Option.map_some]
      · exact ⟨_, loop_failed none_left fails fuel, .failed left fails⟩

/-! ### The traversal after an update -/

/-- The traversal ends without a panic, and its steps are in order. -/
def Ends (overrides : Table IpAddr ε) (diffs : List (Option (Peer ε))) (look : Look)
    (elapsed : Nat) (rounds : Nat → Round ε) : Prop :=
  ∃ outcome, (∀ fuel, 11 ≤ fuel → traverse overrides diffs look elapsed rounds fuel = some outcome) ∧
    outcome ≠ .error .panic ∧
    ∀ steps, outcome = .ok steps → Orderly rounds 0 (kept [look] (traversed overrides diffs)) steps

/-- The update is at most five seconds old, or no peer is left that has an endpoint to try. -/
def Timely (overrides : Table IpAddr ε) (diffs : List (Option (Peer ε))) (look : Look)
    (elapsed : Nat) : Prop :=
  elapsed ≤ stepInterval ∨ ∀ p ∈ traversed overrides diffs,
    unconnected look p.publicKey = true → p.endpoint = none ∧ p.candidates = []

theorem new_ok {overrides : Table IpAddr ε} {diffs : List (Option (Peer ε))} {look : Look}
    {remaining : List (Peer ε)} (made : new overrides diffs look = .ok remaining) :
    remaining = stage 0 (kept [look] (traversed overrides diffs)) := by
  unfold new at made
  rw [List.map_congr_left fun p _ => p.prepared_eq] at made
  exact refreshRemaining_after made

theorem new_nil {overrides : Table IpAddr ε} {diffs : List (Option (Peer ε))} {look : Look} :
    stage 0 (kept [look] (traversed overrides diffs)) = [] ↔ ∀ p ∈ traversed overrides diffs,
      unconnected look p.publicKey = true → p.endpoint = none ∧ p.candidates = [] := by
  simp [stage_nil, kept, ← Peer.order_nil]

/-- Too old an update panics before the first step; otherwise the loop decides. -/
theorem traverse_ok {overrides : Table IpAddr ε} {diffs : List (Option (Peer ε))} {look : Look}
    {elapsed : Nat} (timely : Timely overrides diffs look elapsed) {remaining : List (Peer ε)}
    (made : new overrides diffs look = .ok remaining) (rounds : Nat → Round ε) (fuel : Nat) :
    traverse overrides diffs look elapsed rounds fuel = (loop rounds fuel remaining).map .ok := by
  have calm : (!remaining.isEmpty && decide (stepInterval < elapsed)) = false := by
    rcases timely with soon | idle
    · simp [Nat.not_lt.mpr soon]
    · simp [new_ok made, new_nil.mpr idle]
  simp only [traverse, made, calm]
  rfl

theorem traverse_panic {overrides : Table IpAddr ε} {diffs : List (Option (Peer ε))} {look : Look}
    {elapsed : Nat} (late : ¬ Timely overrides diffs look elapsed) {remaining : List (Peer ε)}
    (made : new overrides diffs look = .ok remaining) (rounds : Nat → Round ε) (fuel : Nat) :
    traverse overrides diffs look elapsed rounds fuel = some (.error .panic) := by
  rw [Timely, not_or, ← new_nil, ← new_ok made, Nat.not_le] at late
  simp [traverse, made, late.1, late.2]

theorem Ends.timely {overrides : Table IpAddr ε} {diffs : List (Option (Peer ε))} {look : Look}
    {elapsed : Nat} {rounds : Nat → Round ε} (ends : Ends overrides diffs look elapsed rounds) :
    Timely overrides diffs look elapsed := by
  obtain ⟨outcome, ends, quiet, _⟩ := ends
  cases made : new overrides diffs look with
  | error e =>
    have absent : look = none := by
      cases look with
      | none => rfl
      | some s => cases made
    right
    intro p _ seen
    simp [absent, unconnected] at seen
  | ok remaining =>
    by_contra late
    have panics := traverse_panic late made rounds 11
    rw [ends 11 le_rfl] at panics
    exact quiet (Option.some.inj panics)

theorem Timely.ends {overrides : Table IpAddr ε} {diffs : List (Option (Peer ε))} {look : Look}
    {elapsed : Nat} (timely : Timely overrides diffs look elapsed) (rounds : Nat → Round ε) :
    Ends overrides diffs look elapsed rounds := by
  cases made : new overrides diffs look with
  | error e =>
    refine ⟨.error (.error e), ?_, by simp, by simp⟩
    intro fuel _
    simp only [traverse, made]
  | ok remaining =>
    obtain ⟨steps, ran, orderly⟩ :=
      loop_stage rounds 11 0 (kept [look] (traversed overrides diffs)) (by simp)
    rw [← new_ok made] at ran
    refine ⟨.ok steps, ?_, by simp, ?_⟩
    · intro fuel enough
      rw [traverse_ok timely made, loop_fuel ran enough, Option.map_some]
    · intro same taken
      rwa [← Except.ok.inj taken]

/-- The traversal ends without a panic, each peer being tried in order, exactly when the update
before it is not older than the wait or nothing is left to try. -/
theorem ends_iff (overrides : Table IpAddr ε) (diffs : List (Option (Peer ε))) (look : Look)
    (elapsed : Nat) (rounds : Nat → Round ε) :
    Ends overrides diffs look elapsed rounds ↔ Timely overrides diffs look elapsed :=
  ⟨Ends.timely, fun timely => timely.ends rounds⟩

/-- A peer with one candidate, which the interface has and which has never been heard of. -/
def lonely : Peer SocketAddr where
  publicKey := Key.toBase64 9
  ip := .v4 0x0a000002
  endpoint := none
  candidates := [⟨.v4 0xcb007107, 51820⟩]

def silent : Snapshot where
  device := AList.singleton 9 PeerConfigBuilder.blank
  now := 1000

theorem lonely_unconnected : unconnected (some silent) lonely.publicKey = true := by
  have found : silent.device.getPeer lonely.publicKey = some PeerConfigBuilder.blank := by
    rw [Device.getPeer, lonely, Key.decode_toBase64]
    rfl
  rw [unconnected, Option.any_some, found]
  rfl

/-- Six seconds after the update the wait underflows. -/
theorem not_ends : ¬ Ends ∅ [some lonely] (some silent) 6000000000
    fun _ => ⟨some silent, some, true, some silent, []⟩ := by
  intro ends
  rcases ends.timely with soon | idle
  · exact absurd soon (by decide)
  · have none_left := idle lonely (by simp [traversed]) lonely_unconnected
    cases none_left.2

end Traversal

end Innernet
