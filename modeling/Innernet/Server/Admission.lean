import Innernet.Library.Buckets
import Innernet.Library.Fallible
import Innernet.Library.Runs
import Innernet.Server.Database

/-! Bounded admission, `server/src/pq.rs`: token buckets and semaphores for all work and for new
work, per caller and for all callers. Arithmetic that leaves its machine type traps. -/
namespace Innernet

open Fallible Tables Runs

/-- The limits an operator sets. -/
structure ServiceLimits extends Limits where
  peerWrites : UInt64
  globalWrites : UInt64
  peerRate : UInt32
  peerBurst : UInt32
  globalRate : UInt32
  globalBurst : UInt32
  narrow : globalActive < 2 ^ 32

/-- `Limits::default`. -/
def ServiceLimits.default : ServiceLimits where
  peerActive := 64
  globalActive := 4096
  peerIds := 10000
  bundleIds := 100000
  databaseBytes := 256 * 1024 * 1024
  recoveryReserveBytes := 32 * 1024 * 1024
  peerWrites := 2
  globalWrites := 64
  peerRate := 8
  peerBurst := 16
  globalRate := 128
  globalBurst := 256
  narrow := by decide

/-- How a request stops: arithmetic has left its type, or it is refused. -/
inductive Halt where
  | trap
  | refused (error : ServerError)
  deriving DecidableEq

namespace Arith

def mul (a b : Nat) : Except Halt Nat :=
  if a * b < 2 ^ 64 then .ok (a * b) else .error .trap

def sub (a b : Nat) : Except Halt Nat :=
  if b ≤ a then .ok (a - b) else .error .trap

def saturatingAdd (a b : Nat) : Nat := min (a + b) (2 ^ 64 - 1)

def saturatingMul (a b : Nat) : Nat := min (a * b) (2 ^ 64 - 1)

theorem mul_ok {a b c : Nat} : mul a b = .ok c ↔ a * b < 2 ^ 64 ∧ c = a * b := by
  unfold mul
  split <;> simp_all [eq_comm]

theorem sub_ok {a b c : Nat} : sub a b = .ok c ↔ b ≤ a ∧ c = a - b := by
  unfold sub
  split <;> simp_all [eq_comm]

end Arith

def ServiceLimits.validate (l : ServiceLimits) : Except Halt Unit := do
  let reserve ← Arith.mul l.globalActive 4096
  require (¬ (l.peerWrites < 2 ∨ l.globalWrites < 2 ∨ l.globalWrites < l.peerWrites ∨
    256 < l.globalWrites ∨ l.peerRate < 2 ∨ l.globalRate < 2 ∨ l.peerBurst < 2 ∨
    l.globalBurst < 2 ∨ l.peerActive = 0 ∨ l.globalActive = 0 ∨ l.peerIds = 0 ∨ l.bundleIds = 0 ∨
    l.databaseBytes ≤ l.recoveryReserveBytes ∨ l.recoveryReserveBytes < reserve))
    (.refused .invalidQuery)

structure Bucket where
  tokens : Nat
  last : Nat
  rate : UInt32
  burst : UInt32
  deriving DecidableEq

namespace Bucket

def new (rate burst : UInt32) (now : UInt64) : Except Halt Bucket := do
  let tokens ← Arith.mul burst.toNat 1000
  return { tokens, last := now.toNat, rate, burst }

def take (b : Bucket) (now : UInt64) : Except Halt (Bool × Bucket) := do
  let elapsed := now.toNat - b.last
  let full ← Arith.mul b.burst.toNat 1000
  let tokens := min (Arith.saturatingAdd b.tokens (Arith.saturatingMul elapsed b.rate.toNat)) full
  let b := { b with tokens, last := max b.last now.toNat }
  if b.tokens < 1000 then return (false, b)
  else
    let tokens ← Arith.sub b.tokens 1000
    return (true, { b with tokens })

/-- A draw that has to succeed. -/
def spend (b : Bucket) (now : UInt64) : Except Halt Bucket := do
  let (taken, b) ← b.take now
  require (taken = true) (.refused .rateLimited)
  return b

end Bucket

/-- A semaphore, by how many permits it has and how many are out. -/
structure Semaphore where
  capacity : Nat
  taken : Nat
  deriving DecidableEq

namespace Semaphore

def new (capacity : Nat) : Semaphore := ⟨capacity, 0⟩

def tryAcquire (s : Semaphore) : Except Halt Semaphore :=
  if s.taken < s.capacity then .ok { s with taken := s.taken + 1 }
  else .error (.refused .rateLimited)

def release (s : Semaphore) : Semaphore := { s with taken := s.taken - 1 }

end Semaphore

structure Caller where
  writes : Semaphore
  newWrites : Semaphore
  all : Bucket
  new : Bucket
  deriving DecidableEq

structure Admission where
  all : Bucket
  new : Bucket
  peers : Table Int64 Caller

structure Service where
  limits : ServiceLimits
  cursorKey : Binary 32
  writes : Semaphore
  newWrites : Semaphore
  reads : Semaphore
  admission : Admission

/-- A permit, by the semaphores its parts came from. -/
structure Permit where
  peer : Int64
  new : Bool
  deriving DecidableEq

/-- The tests of one pair of buckets, on copies of them. -/
def charge (new all : Bucket) (isNew : Bool) (now : UInt64) : Except Halt (Bucket × Bucket) := do
  let new ← if isNew then new.spend now else pure new
  let all ← all.spend now
  return (new, all)

/-- The entry of a caller seen for the first time. -/
def Caller.fresh (limits : ServiceLimits) (now : UInt64) : Except Halt Caller := do
  let reserved ← Arith.sub limits.peerWrites.toNat 1
  let all ← Bucket.new limits.peerRate limits.peerBurst now
  let new ← Bucket.new (limits.peerRate / 2) (limits.peerBurst / 2) now
  return {
    writes := .new limits.peerWrites.toNat
    newWrites := .new reserved
    all
    new }

namespace Service

/-- `with_clock`. -/
def withClock (limits : ServiceLimits) (now : UInt64) (cursorKey : Except Error (Binary 32)) :
    Except Halt Service := do
  limits.validate
  let cursorKey ← cursorKey.mapError fun e => Halt.refused (.pq e)
  let reserved ← Arith.sub limits.globalWrites.toNat (max (limits.globalWrites.toNat / 4) 1)
  let all ← Bucket.new limits.globalRate limits.globalBurst now
  let new ← Bucket.new (limits.globalRate / 2) (limits.globalBurst / 2) now
  return {
    limits
    cursorKey
    writes := .new limits.globalWrites.toNat
    newWrites := .new reserved
    reads := .new 8
    admission := { all, new, peers := ∅ } }

def setCaller (s : Service) (peer : Int64) (caller : Caller) : Service :=
  { s with admission := { s.admission with peers := s.admission.peers.insert peer caller } }

/-- `entry(peer).or_insert_with(..)`. -/
def caller (s : Service) (peer : Int64) (now : UInt64) : Except Halt Caller :=
  match s.admission.peers.lookup peer with
  | some caller => .ok caller
  | none => Caller.fresh s.limits now

/-- The permits of one request; those of a request that is refused go back. -/
def acquire (s : Service) (caller : Caller) (new : Bool) : Except Halt (Service × Caller) := do
  let writes ← s.writes.tryAcquire
  let callerWrites ← caller.writes.tryAcquire
  if new then
    let newWrites ← s.newWrites.tryAcquire
    let callerNewWrites ← caller.newWrites.tryAcquire
    return ({ s with writes, newWrites },
      { caller with writes := callerWrites, newWrites := callerNewWrites })
  else return ({ s with writes }, { caller with writes := callerWrites })

def admit_ (s : Service) (peer : Int64) (new : Bool) (now : UInt64) :
    Except Halt Permit × Service :=
  if (s.admission.peers.lookup peer).isNone ∧ s.limits.peerIds ≤ s.admission.peers.entries.length then
    (.error (.refused .rateLimited), s)
  else match charge s.admission.new s.admission.all new now with
    | .error e => (.error e, s)
    | .ok (globalNew, globalAll) =>
      match s.caller peer now with
      | .error e => (.error e, s)
      | .ok caller =>
        -- the entry stays, whatever becomes of the request
        let inserted := s.setCaller peer caller
        match charge caller.new caller.all new now with
        | .error e => (.error e, inserted)
        | .ok (callerNew, callerAll) =>
          match inserted.acquire caller new with
          | .error e => (.error e, inserted)
          | .ok (s, caller) =>
            let s := s.setCaller peer { caller with new := callerNew, all := callerAll }
            (.ok ⟨peer, new⟩,
              { s with admission := { s.admission with new := globalNew, all := globalAll } })

/-- A permit is dropped. -/
def release (s : Service) (p : Permit) : Service :=
  let s := { s with
    writes := s.writes.release
    newWrites := if p.new then s.newWrites.release else s.newWrites }
  match s.admission.peers.lookup p.peer with
  | none => s
  | some caller => s.setCaller p.peer { caller with
      writes := caller.writes.release
      newWrites := if p.new then caller.newWrites.release else caller.newWrites }

def admitRead (s : Service) : Except Halt Unit × Service :=
  match s.reads.tryAcquire with
  | .error e => (.error e, s)
  | .ok reads => (.ok (), { s with reads })

end Service

/-- A service with the permits that are out. -/
structure Desk where
  service : Service
  held : List Permit

inductive Desk.Event where
  | admit_ (peer : Int64) (new : Bool) (now : UInt64)
  | drop (p : Permit)

namespace Desk

/-- `none` where arithmetic traps, or the permit is not out. -/
def next (d : Desk) : Event → Option Desk
  | .admit_ peer new now =>
    match d.service.admit_ peer new now with
    | (.ok p, service) => some ⟨service, p :: d.held⟩
    | (.error (.refused _), service) => some { d with service }
    | (.error .trap, _) => none
  | .drop p => if p ∈ d.held then some ⟨d.service.release p, d.held.erase p⟩ else none

end Desk

namespace Bucket

open Buckets

def level (b : Bucket) : Level := ⟨b.tokens, b.last⟩

/-- A draw on the bucket, at the exact arithmetic. -/
structure Draws (b : Bucket) (now : UInt64) (b' : Bucket) : Prop where
  rate : b'.rate = b.rate
  burst : b'.burst = b.burst
  level : Buckets.draw b.rate.toNat (b.burst.toNat * 1000) 1000 b.level now.toNat = some b'.level

/-- There is nothing to draw. -/
def Dry (b : Bucket) (now : UInt64) : Prop :=
  Buckets.draw b.rate.toNat (b.burst.toNat * 1000) 1000 b.level now.toNat = none

/-- The arithmetic of a draw neither traps nor, for its saturation, differs from the exact one. -/
theorem spend_cases (b : Bucket) (now : UInt64) :
    (∃ b', b.spend now = .ok b' ∧ b.Draws now b') ∨
    (b.spend now = .error (.refused .rateLimited) ∧ b.Dry now) := by
  have small := b.burst.toNat_lt
  have fits : b.burst.toNat * 1000 < 2 ^ 64 := by omega
  have full : Arith.mul b.burst.toNat 1000 = .ok (b.burst.toNat * 1000) := by
    simp only [Arith.mul, fits, if_true]
  have exact : min (Arith.saturatingAdd b.tokens
      (Arith.saturatingMul (now.toNat - b.last) b.rate.toNat)) (b.burst.toNat * 1000) =
        min (b.tokens + (now.toNat - b.last) * b.rate.toNat) (b.burst.toNat * 1000) := by
    unfold Arith.saturatingAdd Arith.saturatingMul
    generalize (now.toNat - b.last) * b.rate.toNat = gained
    omega
  have drawn := Buckets.draw_eq b.rate.toNat (b.burst.toNat * 1000) 1000 b.level now.toNat
  obtain ⟨filled, held⟩ : ∃ filled, min (b.tokens + (now.toNat - b.last) * b.rate.toNat)
      (b.burst.toNat * 1000) = filled := ⟨_, rfl⟩
  rw [held] at exact
  have level : b.level.tokens = b.tokens ∧ b.level.last = b.last := ⟨rfl, rfl⟩
  simp only [level, held] at drawn
  simp only [spend, take, full, exact, bind, Except.bind, pure, Except.pure]
  by_cases enough : 1000 ≤ filled
  · obtain ⟨rest, paid⟩ : ∃ rest, filled - 1000 = rest := ⟨_, rfl⟩
    refine .inl ⟨⟨rest, max b.last now.toNat, b.rate, b.burst⟩, ?_, rfl, rfl, ?_⟩
    · rw [if_neg (not_lt.mpr enough), Arith.sub, if_pos enough, paid]
      rfl
    · rw [if_pos enough, paid] at drawn
      exact drawn
  · rw [if_neg enough] at drawn
    refine .inr ⟨?_, drawn⟩
    rw [if_pos (not_le.mp enough)]
    rfl

/-- A new bucket is full. -/
theorem new_ok (rate burst : UInt32) (now : UInt64) :
    Bucket.new rate burst now = .ok ⟨burst.toNat * 1000, now.toNat, rate, burst⟩ := by
  have small := burst.toNat_lt
  have fits : burst.toNat * 1000 < 2 ^ 64 := by omega
  simp only [new, Arith.mul, fits, if_true, bind, Except.bind, pure, Except.pure]

end Bucket

theorem charge_cases (new all : Bucket) (isNew : Bool) (now : UInt64) :
    (∃ new' all', charge new all isNew now = .ok (new', all') ∧ all.Draws now all' ∧
      (isNew = true → new.Draws now new') ∧ (isNew = false → new' = new)) ∨
    (charge new all isNew now = .error (.refused .rateLimited) ∧
      ((isNew = true ∧ new.Dry now) ∨ all.Dry now)) := by
  unfold charge
  rcases all.spend_cases now with ⟨all', spent, draws⟩ | ⟨refused, dry⟩
  · cases isNew with
    | false => exact .inl ⟨new, all', by simp [spent], draws, by simp, by simp⟩
    | true =>
      rcases new.spend_cases now with ⟨new', spent', draws'⟩ | ⟨refused, dry⟩
      · exact .inl ⟨new', all', by simp [spent, spent'], draws, fun _ => draws', by simp⟩
      · exact .inr ⟨by rw [if_pos rfl, refused]; rfl, .inl ⟨rfl, dry⟩⟩
  · refine .inr ⟨?_, .inr dry⟩
    cases isNew with
    | false => simp [refused, bind, Except.bind, pure, Except.pure]
    | true =>
      rcases new.spend_cases now with ⟨new', spent', draws'⟩ | ⟨refused', dry⟩
      · simp [refused, spent', bind, Except.bind]
      · simp [refused', bind, Except.bind]

/-- Limits that have passed `validate`. -/
structure ServiceLimits.Valid (l : ServiceLimits) : Prop where
  peerWrites : 2 ≤ l.peerWrites.toNat
  globalWrites : 2 ≤ l.globalWrites.toNat
  peerRate : 2 ≤ l.peerRate.toNat
  globalRate : 2 ≤ l.globalRate.toNat
  peerBurst : 2 ≤ l.peerBurst.toNat
  globalBurst : 2 ≤ l.globalBurst.toNat

theorem ServiceLimits.validate_ok {l : ServiceLimits} (valid : l.validate = .ok ()) : l.Valid := by
  simp only [validate, bind_ok, require_ok, not_or, not_lt] at valid
  obtain ⟨_, _, peerWrites, globalWrites, -, -, peerRate, globalRate, peerBurst, globalBurst, -⟩ :=
    valid
  have wide : ∀ a : UInt64, ¬ a < 2 → 2 ≤ a.toNat :=
    fun a large => Nat.not_lt.mp fun small => large (UInt64.lt_iff_toNat_lt.mpr small)
  have narrow : ∀ a : UInt32, ¬ a < 2 → 2 ≤ a.toNat :=
    fun a large => Nat.not_lt.mp fun small => large (UInt32.lt_iff_toNat_lt.mpr small)
  exact ⟨wide _ peerWrites, wide _ globalWrites, narrow _ peerRate, narrow _ globalRate,
    narrow _ peerBurst, narrow _ globalBurst⟩

/-- The arithmetic of `validate` stays in its type. -/
theorem ServiceLimits.validate_untrapped (l : ServiceLimits) : l.validate ≠ .error .trap := by
  have narrow := l.narrow
  have fits : l.globalActive * 4096 < 2 ^ 64 := by omega
  intro trapped
  simp only [validate, Arith.mul, fits, if_true] at trapped
  rcases bind_error.mp trapped with trapped | ⟨_, _, trapped⟩
  · cases trapped
  · unfold require at trapped
    split at trapped
    · cases trapped
    · cases trapped

/-- A caller's entry as it is first made. -/
def Caller.blank (l : ServiceLimits) (now : UInt64) : Caller where
  writes := .new l.peerWrites.toNat
  newWrites := .new (l.peerWrites.toNat - 1)
  all := ⟨l.peerBurst.toNat * 1000, now.toNat, l.peerRate, l.peerBurst⟩
  new := ⟨(l.peerBurst / 2).toNat * 1000, now.toNat, l.peerRate / 2, l.peerBurst / 2⟩

theorem Caller.fresh_ok {l : ServiceLimits} (valid : l.Valid) (now : UInt64) :
    Caller.fresh l now = .ok (.blank l now) := by
  have some : 1 ≤ l.peerWrites.toNat := Nat.le_of_succ_le valid.peerWrites
  simp only [fresh, Arith.sub, some, if_true, Bucket.new_ok, bind, Except.bind, pure, Except.pure]
  rfl

namespace Semaphore

def Free (s : Semaphore) : Prop := s.taken < s.capacity

instance (s : Semaphore) : Decidable s.Free := inferInstanceAs (Decidable (_ < _))

def acquired (s : Semaphore) : Semaphore := { s with taken := s.taken + 1 }

theorem tryAcquire_free {s : Semaphore} (free : s.Free) : s.tryAcquire = .ok s.acquired := if_pos free

theorem tryAcquire_full {s : Semaphore} (full : ¬ s.Free) :
    s.tryAcquire = .error (.refused .rateLimited) := if_neg full

end Semaphore

namespace Service

/-- The entry `admit` works with. -/
def entry (s : Service) (peer : Int64) (now : UInt64) : Caller :=
  (s.admission.peers.lookup peer).getD (.blank s.limits now)

/-- Every semaphore the request needs has a permit left. -/
def Free (s : Service) (caller : Caller) (new : Bool) : Prop :=
  s.writes.Free ∧ caller.writes.Free ∧ (new = true → s.newWrites.Free ∧ caller.newWrites.Free)

/-- The service after an admitted request. -/
def granted (s : Service) (peer : Int64) (new : Bool) (caller : Caller)
    (globalNew globalAll callerNew callerAll : Bucket) : Service :=
  { s with
    writes := s.writes.acquired
    newWrites := if new then s.newWrites.acquired else s.newWrites
    admission := {
      all := globalAll
      new := globalNew
      peers := s.admission.peers.insert peer {
        writes := caller.writes.acquired
        newWrites := if new then caller.newWrites.acquired else caller.newWrites
        all := callerAll
        new := callerNew } } }

/-- The outcomes of `admit`. -/
inductive Admits (s : Service) (peer : Int64) (new : Bool) (now : UInt64) :
    Except Halt Permit → Service → Prop where
  | crowded : s.admission.peers.lookup peer = none →
      s.limits.peerIds ≤ s.admission.peers.entries.length →
      Admits s peer new now (.error (.refused .rateLimited)) s
  | exhausted : (new = true ∧ s.admission.new.Dry now) ∨ s.admission.all.Dry now →
      Admits s peer new now (.error (.refused .rateLimited)) s
  | drained : (new = true ∧ (s.entry peer now).new.Dry now) ∨ (s.entry peer now).all.Dry now →
      Admits s peer new now (.error (.refused .rateLimited)) (s.setCaller peer (s.entry peer now))
  | busy : ¬ s.Free (s.entry peer now) new →
      Admits s peer new now (.error (.refused .rateLimited)) (s.setCaller peer (s.entry peer now))
  | granted {globalNew globalAll callerNew callerAll : Bucket} :
      ((s.admission.peers.lookup peer).isSome = true ∨
        s.admission.peers.entries.length < s.limits.peerIds) →
      s.Free (s.entry peer now) new → s.admission.all.Draws now globalAll →
      (new = true → s.admission.new.Draws now globalNew) →
      (new = false → globalNew = s.admission.new) → (s.entry peer now).all.Draws now callerAll →
      (new = true → (s.entry peer now).new.Draws now callerNew) →
      (new = false → callerNew = (s.entry peer now).new) →
      Admits s peer new now (.ok ⟨peer, new⟩)
        (s.granted peer new (s.entry peer now) globalNew globalAll callerNew callerAll)

theorem caller_entry {s : Service} (valid : s.limits.Valid) (peer : Int64) (now : UInt64) :
    s.caller peer now = .ok (s.entry peer now) := by
  unfold caller entry
  split
  · rename_i found
    rw [found]
    rfl
  · rename_i absent
    rw [absent]
    exact Caller.fresh_ok valid now

theorem acquire_cases (s : Service) (caller : Caller) (new : Bool) :
    (s.Free caller new ∧ s.acquire caller new = .ok
      ({ s with
          writes := s.writes.acquired
          newWrites := if new then s.newWrites.acquired else s.newWrites },
        { caller with
          writes := caller.writes.acquired
          newWrites := if new then caller.newWrites.acquired else caller.newWrites })) ∨
    (¬ s.Free caller new ∧ s.acquire caller new = .error (.refused .rateLimited)) := by
  unfold acquire Free
  by_cases writes : s.writes.Free
  swap
  · exact .inr ⟨fun free => writes free.1, by rw [Semaphore.tryAcquire_full writes]; rfl⟩
  rw [Semaphore.tryAcquire_free writes]
  by_cases callers : caller.writes.Free
  swap
  · exact .inr ⟨fun free => callers free.2.1, by rw [Semaphore.tryAcquire_full callers]; rfl⟩
  rw [Semaphore.tryAcquire_free callers]
  cases new with
  | false => exact .inl ⟨⟨writes, callers, fun never => nomatch never⟩, rfl⟩
  | true =>
    by_cases newWrites : s.newWrites.Free
    swap
    · exact .inr ⟨fun free => newWrites (free.2.2 rfl).1,
        by rw [Semaphore.tryAcquire_full newWrites]; rfl⟩
    rw [Semaphore.tryAcquire_free newWrites]
    by_cases callerNew : caller.newWrites.Free
    swap
    · exact .inr ⟨fun free => callerNew (free.2.2 rfl).2,
        by rw [Semaphore.tryAcquire_full callerNew]; rfl⟩
    rw [Semaphore.tryAcquire_free callerNew]
    exact .inl ⟨⟨writes, callers, fun _ => ⟨newWrites, callerNew⟩⟩, rfl⟩

theorem admit_admits {s : Service} (valid : s.limits.Valid) (peer : Int64) (new : Bool)
    (now : UInt64) : s.Admits peer new now (s.admit_ peer new now).1 (s.admit_ peer new now).2 := by
  unfold admit_
  split
  · rename_i crowded
    exact .crowded (Option.isNone_iff_eq_none.mp crowded.1) crowded.2
  rename_i room
  have known : (s.admission.peers.lookup peer).isSome = true ∨
      s.admission.peers.entries.length < s.limits.peerIds := by
    rw [not_and_or, Option.isNone_iff_eq_none, not_le] at room
    exact room.imp_left Option.isSome_iff_ne_none.mpr
  rcases charge_cases s.admission.new s.admission.all new now with
    ⟨globalNew, globalAll, charged, all, new', old⟩ | ⟨refused, dry⟩
  swap
  · rw [refused]
    exact .exhausted dry
  rw [charged, caller_entry valid]
  dsimp only
  rcases charge_cases (s.entry peer now).new (s.entry peer now).all new now with
    ⟨callerNew, callerAll, charged', all', new'', old'⟩ | ⟨refused, dry⟩
  swap
  · rw [refused]
    exact .drained dry
  rw [charged']
  dsimp only
  rcases (s.setCaller peer (s.entry peer now)).acquire_cases (s.entry peer now) new with
    ⟨free, acquired⟩ | ⟨full, refused⟩
  · rw [acquired]
    have shape := Admits.granted known free all new' old all' new'' old'
    unfold granted at shape
    rw [← AList.insert_insert] at shape
    exact shape
  · rw [refused]
    exact .busy full

end Service

end Innernet
