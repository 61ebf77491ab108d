import Innernet.Server.Admission

/-! What admission promises over whole runs: no bucket overspends in any window, a refused request
changes nothing that was there, and new work never starves the rest. -/
namespace Innernet

open Fallible Tables Runs Buckets

/-- A request that was admitted, and when. -/
structure Admitted where
  peer : Int64
  new : Bool
  now : Nat

namespace Desk

def admitted (m : Move Desk Event) : Option Admitted :=
  match m.label with
  | .admit_ peer new now =>
    if (m.before.service.admit_ peer new now).1.isOk then some ⟨peer, new, now.toNat⟩ else none
  | .drop _ => none

/-- The clock reading of a call. -/
def reading (m : Move Desk Event) : Option Nat :=
  match m.label with
  | .admit_ _ _ now => some now.toNat
  | .drop _ => none

end Desk

/-- The bucket has been drawn from at these times since it was made full. -/
structure Bucket.Follows (b : Bucket) (rate burst : UInt32) (since : Nat) (ns : List Nat) : Prop where
  rated : b.rate = rate
  sized : b.burst = burst
  drawn : Drawn rate.toNat (burst.toNat * 1000) 1000 ⟨burst.toNat * 1000, since⟩ ns b.level

namespace Bucket.Follows

variable {b b' : Bucket} {rate burst : UInt32} {since : Nat} {ns : List Nat} {now : UInt64}

theorem full (rate burst : UInt32) (since : Nat) :
    Bucket.Follows ⟨burst.toNat * 1000, since, rate, burst⟩ rate burst since [] where
  rated := rfl
  sized := rfl
  drawn := .start

theorem draw (follows : b.Follows rate burst since ns) (draws : b.Draws now b') :
    b'.Follows rate burst since (ns ++ [now.toNat]) where
  rated := draws.rate.trans follows.rated
  sized := draws.burst.trans follows.sized
  drawn := by
    have level := draws.level
    rw [follows.rated, follows.sized] at level
    exact .draw follows.drawn level

/-- A bucket stays within its rate in every window, when the clock never goes back. -/
theorem window (follows : b.Follows rate burst since ns) (ordered : (since :: ns).Pairwise (· ≤ ·))
    (start length : Nat) : 1000 * ns.countP (fun n => start ≤ n ∧ n ≤ start + length) ≤
      burst.toNat * 1000 + rate.toNat * length := by
  obtain ⟨after, sorted⟩ := List.pairwise_cons.mp ordered
  exact follows.drawn.window after sorted start length

/-- The larger of two buckets in step has a token when the smaller is at most half of it. -/
theorem reserve_arith {whole half : Nat} (halved : half = whole / 2) (room : 2 ≤ whole) :
    half * 1000 ≤ whole * 1000 ∧ half * 1000 + (whole * 1000 - half * 1000) ≤ whole * 1000 ∧
      1000 ≤ whole * 1000 - half * 1000 := by
  omega

/-- The bucket for all work has something left when it was drawn from for new work only. -/
theorem reserve (follows : b.Follows rate burst since ns)
    (follows' : b'.Follows (rate / 2) (burst / 2) since ns) (room : 2 ≤ burst.toNat) :
    ¬ b.Dry now := by
  obtain ⟨smaller, start, covers⟩ := reserve_arith (UInt32.toNat_div burst 2) room
  have slower : (rate / 2).toNat ≤ rate.toNat := by
    rw [UInt32.toNat_div]
    exact Nat.div_le_self _ _
  have some := follows.drawn.ahead_draws slower smaller (by rfl) (by exact start) follows'.drawn
    covers now.toNat
  intro dry
  rw [Dry, follows.rated, follows.sized] at dry
  rw [dry] at some
  cases some

end Bucket.Follows

namespace Desk

/-- The buckets hold what the admitted requests `as` have left in them. -/
structure Tracks (l : ServiceLimits) (start : Nat) (as : List Admitted) (rs : List Nat) (d : Desk) :
    Prop where
  limits : d.service.limits = l
  all : d.service.admission.all.Follows l.globalRate l.globalBurst start (as.map Admitted.now)
  new : d.service.admission.new.Follows (l.globalRate / 2) (l.globalBurst / 2) start
    ((as.filter Admitted.new).map Admitted.now)
  callers : ∀ p c, d.service.admission.peers.lookup p = some c → ∃ since ∈ rs,
    c.all.Follows l.peerRate l.peerBurst since ((as.filter (·.peer = p)).map Admitted.now) ∧
    c.new.Follows (l.peerRate / 2) (l.peerBurst / 2) since
      ((as.filter fun a => a.peer = p ∧ a.new = true).map Admitted.now) ∧
    (rs.Pairwise (· ≤ ·) → ∀ a ∈ as, a.peer = p → since ≤ a.now)
  met : ∀ a ∈ as, (d.service.admission.peers.lookup a.peer).isSome = true
  read : (as.map Admitted.now).Sublist rs

/-- The semaphores have given out what the permits `held` hold. -/
structure Balanced (l : ServiceLimits) (as : List Admitted) (d : Desk) : Prop where
  writes : d.service.writes = ⟨l.globalWrites.toNat, d.held.length⟩
  newWrites : d.service.newWrites =
    ⟨l.globalWrites.toNat - max (l.globalWrites.toNat / 4) 1, d.held.countP Permit.new⟩
  callers : ∀ p c, d.service.admission.peers.lookup p = some c →
    c.writes = ⟨l.peerWrites.toNat, d.held.countP (·.peer = p)⟩ ∧
    c.newWrites = ⟨l.peerWrites.toNat - 1, d.held.countP fun q => q.peer = p ∧ q.new = true⟩
  within : d.held.countP Permit.new ≤ l.globalWrites.toNat - max (l.globalWrites.toNat / 4) 1
  callersWithin : ∀ p, d.held.countP (fun q => q.peer = p ∧ q.new = true) ≤ l.peerWrites.toNat - 1
  issued : ∀ q ∈ d.held, ∃ a ∈ as, a.peer = q.peer ∧ a.new = q.new
  met : ∀ q ∈ d.held, (d.service.admission.peers.lookup q.peer).isSome = true

section Steps

variable {l : ServiceLimits} {start : Nat} {as : List Admitted} {rs : List Nat} {d : Desk}

/-- The entry a request works with, found or made for it. -/
theorem Tracks.entry (tracks : d.Tracks l start as rs) (peer : Int64) (now : UInt64) :
    ∃ since ∈ rs ++ [now.toNat],
      (d.service.entry peer now).all.Follows l.peerRate l.peerBurst since
        ((as.filter (·.peer = peer)).map Admitted.now) ∧
      (d.service.entry peer now).new.Follows (l.peerRate / 2) (l.peerBurst / 2) since
        ((as.filter fun a => a.peer = peer ∧ a.new = true).map Admitted.now) ∧
      ((rs ++ [now.toNat]).Pairwise (· ≤ ·) →
        since ≤ now.toNat ∧ ∀ a ∈ as, a.peer = peer → since ≤ a.now) := by
  unfold Service.entry
  cases known : d.service.admission.peers.lookup peer with
  | some c =>
    obtain ⟨since, read, all, new, before⟩ := tracks.callers peer c known
    refine ⟨since, List.mem_append_left _ read, all, new, fun ordered => ?_⟩
    obtain ⟨sorted, -, last⟩ := List.pairwise_append.mp ordered
    exact ⟨last since read _ (List.mem_singleton_self _), before sorted⟩
  | none =>
    have stranger : ∀ a ∈ as, a.peer ≠ peer := by
      rintro a member rfl
      have met := tracks.met a member
      rw [known] at met
      cases met
    have none : as.filter (·.peer = peer) = [] :=
      List.filter_eq_nil_iff.mpr fun a member => by simpa using stranger a member
    have none' : (as.filter fun a => a.peer = peer ∧ a.new = true) = [] :=
      List.filter_eq_nil_iff.mpr fun a member => by simp [stranger a member]
    refine ⟨now.toNat, by simp, ?_, ?_, fun _ => ⟨le_rfl, fun a member same =>
      absurd same (stranger a member)⟩⟩
    · rw [none, tracks.limits]
      exact .full _ _ _
    · rw [none', tracks.limits]
      exact .full _ _ _

/-- A refused request leaves at most a new entry. -/
theorem Tracks.refused (tracks : d.Tracks l start as rs) (peer : Int64) (now : UInt64)
    {held : List Permit} :
    Tracks l start as (rs ++ [now.toNat]) ⟨d.service.setCaller peer (d.service.entry peer now), held⟩ := by
  obtain ⟨since, read, all, new, ordered⟩ := tracks.entry peer now
  refine ⟨tracks.limits, tracks.all, tracks.new, fun p c known => ?_, fun a member => ?_,
    tracks.read.trans (List.sublist_append_left _ _)⟩
  · change (d.service.admission.peers.insert peer _).lookup p = some c at known
    rw [lookup_insert_eq] at known
    split at known
    · rename_i same
      cases known
      subst same
      exact ⟨since, read, all, new, fun sorted => (ordered sorted).2⟩
    · obtain ⟨since', read', all', new', before⟩ := tracks.callers p c known
      exact ⟨since', List.mem_append_left _ read', all', new',
        fun sorted => before (List.pairwise_append.mp sorted).1⟩
  · change ((d.service.admission.peers.insert peer _).lookup a.peer).isSome = true
    rw [lookup_insert_eq]
    split
    · rfl
    · exact tracks.met a member

/-- And one refused before it comes to its caller's entry leaves nothing. -/
theorem Tracks.unmoved (tracks : d.Tracks l start as rs) (now : Nat) {held : List Permit} :
    Tracks l start as (rs ++ [now]) ⟨d.service, held⟩ := by
  refine ⟨tracks.limits, tracks.all, tracks.new, fun p c known => ?_, tracks.met,
    tracks.read.trans (List.sublist_append_left _ _)⟩
  obtain ⟨since', read', all', new', before⟩ := tracks.callers p c known
  exact ⟨since', List.mem_append_left _ read', all', new',
    fun sorted => before (List.pairwise_append.mp sorted).1⟩

theorem Tracks.granted (tracks : d.Tracks l start as rs) {peer : Int64} {new : Bool} {now : UInt64}
    {globalNew globalAll callerNew callerAll : Bucket}
    (all : d.service.admission.all.Draws now globalAll)
    (drawn : new = true → d.service.admission.new.Draws now globalNew)
    (kept : new = false → globalNew = d.service.admission.new)
    (all' : (d.service.entry peer now).all.Draws now callerAll)
    (drawn' : new = true → (d.service.entry peer now).new.Draws now callerNew)
    (kept' : new = false → callerNew = (d.service.entry peer now).new) {held : List Permit} :
    Tracks l start (as ++ [⟨peer, new, now.toNat⟩]) (rs ++ [now.toNat])
      ⟨d.service.granted peer new (d.service.entry peer now) globalNew globalAll callerNew callerAll,
        held⟩ := by
  obtain ⟨since, read, follows, follows', ordered⟩ := tracks.entry peer now
  constructor
  · exact tracks.limits
  · rw [List.map_append]
    exact tracks.all.draw all
  · cases new with
    | false =>
      rw [List.filter_append, kept rfl]
      simpa [Service.granted] using tracks.new
    | true =>
      rw [List.filter_append]
      simpa [Service.granted] using tracks.new.draw (drawn rfl)
  · intro p c known
    change (d.service.admission.peers.insert peer _).lookup p = some c at known
    rw [lookup_insert_eq] at known
    split at known
    · rename_i same
      cases known
      subst same
      refine ⟨since, read, ?_, ?_, fun sorted a member same => ?_⟩
      · rw [List.filter_append]
        simpa using follows.draw all'
      · cases new with
        | false =>
          dsimp only
          rw [List.filter_append, kept' rfl]
          simpa using follows'
        | true =>
          rw [List.filter_append]
          simpa using follows'.draw (drawn' rfl)
      · obtain ⟨last, before⟩ := ordered sorted
        rcases List.mem_append.mp member with old | here
        · exact before a old same
        · rw [List.mem_singleton.mp here]
          exact last
    · rename_i other
      obtain ⟨since', read', all', new', before⟩ := tracks.callers p c known
      have apart : ¬ peer = p := fun same => other same.symm
      refine ⟨since', List.mem_append_left _ read', ?_, ?_, fun sorted a member same => ?_⟩
      · rw [List.filter_append]
        simpa [apart] using all'
      · rw [List.filter_append]
        simpa [apart] using new'
      · rcases List.mem_append.mp member with old | here
        · exact before (List.pairwise_append.mp sorted).1 a old same
        · rw [List.mem_singleton.mp here] at same
          exact absurd same apart
  · intro a member
    change ((d.service.admission.peers.insert peer _).lookup a.peer).isSome = true
    rw [lookup_insert_eq]
    split
    · rfl
    · rename_i other
      rcases List.mem_append.mp member with old | here
      · exact tracks.met a old
      · rw [List.mem_singleton.mp here] at other
        exact absurd rfl other
  · rw [List.map_append]
    exact tracks.read.append (.refl _)

theorem Tracks.released (tracks : d.Tracks l start as rs) (q : Permit) {held : List Permit} :
    Tracks l start as rs ⟨d.service.release q, held⟩ := by
  unfold Service.release
  dsimp only
  split
  · exact ⟨tracks.limits, tracks.all, tracks.new, tracks.callers, tracks.met, tracks.read⟩
  · rename_i c known
    refine ⟨tracks.limits, tracks.all, tracks.new, fun p c' there => ?_, fun a member => ?_,
      tracks.read⟩
    · change (d.service.admission.peers.insert q.peer _).lookup p = some c' at there
      rw [lookup_insert_eq] at there
      split at there
      · rename_i same
        cases there
        rw [same]
        exact tracks.callers q.peer c known
      · exact tracks.callers p c' there
    · change ((d.service.admission.peers.insert q.peer _).lookup a.peer).isSome = true
      rw [lookup_insert_eq]
      split
      · rfl
      · exact tracks.met a member

/-- The permits of the entry a request works with. -/
theorem Balanced.entry (balanced : d.Balanced l as) (limits : d.service.limits = l) (peer : Int64)
    (now : UInt64) :
    (d.service.entry peer now).writes = ⟨l.peerWrites.toNat, d.held.countP (·.peer = peer)⟩ ∧
    (d.service.entry peer now).newWrites =
      ⟨l.peerWrites.toNat - 1, d.held.countP fun q => q.peer = peer ∧ q.new = true⟩ := by
  unfold Service.entry
  cases known : d.service.admission.peers.lookup peer with
  | some c => exact balanced.callers peer c known
  | none =>
    have stranger : ∀ q ∈ d.held, q.peer ≠ peer := by
      rintro q member rfl
      have met := balanced.met q member
      rw [known] at met
      cases met
    have none : d.held.countP (·.peer = peer) = 0 :=
      List.countP_eq_zero.mpr fun q member => by simpa using stranger q member
    have none' : (d.held.countP fun q => q.peer = peer ∧ q.new = true) = 0 :=
      List.countP_eq_zero.mpr fun q member => by simp [stranger q member]
    rw [none, none', limits]
    exact ⟨rfl, rfl⟩

theorem Balanced.refused (balanced : d.Balanced l as) (limits : d.service.limits = l) (peer : Int64)
    (now : UInt64) :
    Balanced l as ⟨d.service.setCaller peer (d.service.entry peer now), d.held⟩ := by
  refine ⟨balanced.writes, balanced.newWrites, fun p c known => ?_, balanced.within,
    balanced.callersWithin, balanced.issued, fun q member => ?_⟩
  · change (d.service.admission.peers.insert peer _).lookup p = some c at known
    rw [lookup_insert_eq] at known
    split at known
    · rename_i same
      cases known
      rw [same]
      exact balanced.entry limits peer now
    · exact balanced.callers p c known
  · change ((d.service.admission.peers.insert peer _).lookup q.peer).isSome = true
    rw [lookup_insert_eq]
    split
    · rfl
    · exact balanced.met q member

theorem Balanced.granted (balanced : d.Balanced l as) (limits : d.service.limits = l) {peer : Int64}
    {new : Bool} {now : UInt64} {globalNew globalAll callerNew callerAll : Bucket}
    (free : d.service.Free (d.service.entry peer now) new) :
    Balanced l (as ++ [⟨peer, new, now.toNat⟩])
      ⟨d.service.granted peer new (d.service.entry peer now) globalNew globalAll callerNew callerAll,
        ⟨peer, new⟩ :: d.held⟩ := by
  obtain ⟨writes, newWrites⟩ := balanced.entry limits peer now
  constructor
  · change d.service.writes.acquired = _
    rw [balanced.writes]
    rfl
  · change (if new = true then d.service.newWrites.acquired else d.service.newWrites) = _
    rw [balanced.newWrites, List.countP_cons]
    cases new with
    | false => rfl
    | true => rfl
  · intro p c known
    change (d.service.admission.peers.insert peer _).lookup p = some c at known
    rw [lookup_insert_eq] at known
    rw [List.countP_cons, List.countP_cons]
    split at known
    · rename_i same
      cases known
      subst same
      dsimp only
      rw [writes, newWrites]
      cases new with
      | false => simp [Semaphore.acquired]
      | true => simp [Semaphore.acquired]
    · rename_i other
      have apart : ¬ peer = p := fun same => other same.symm
      simpa [apart] using balanced.callers p c known
  · dsimp only
    rw [List.countP_cons]
    cases new with
    | false => simpa using balanced.within
    | true =>
      have room := (free.2.2 rfl).1
      rw [Semaphore.Free, balanced.newWrites] at room
      simpa [Nat.succ_le_iff] using room
  · intro p
    dsimp only
    rw [List.countP_cons]
    by_cases mine : peer = p ∧ new = true
    · obtain ⟨rfl, rfl⟩ := mine
      have room := (free.2.2 rfl).2
      rw [Semaphore.Free, newWrites] at room
      simpa [Nat.succ_le_iff] using room
    · simpa [mine] using balanced.callersWithin p
  · intro q member
    rcases List.mem_cons.mp member with rfl | old
    · exact ⟨_, List.mem_append_right _ (List.mem_singleton_self _), rfl, rfl⟩
    · obtain ⟨a, there, same⟩ := balanced.issued q old
      exact ⟨a, List.mem_append_left _ there, same⟩
  · intro q member
    change ((d.service.admission.peers.insert peer _).lookup q.peer).isSome = true
    rw [lookup_insert_eq]
    split
    · rfl
    · rename_i other
      rcases List.mem_cons.mp member with rfl | old
      · exact absurd rfl other
      · exact balanced.met q old

theorem Balanced.released (balanced : d.Balanced l as) {q : Permit} (member : q ∈ d.held) :
    Balanced l as ⟨d.service.release q, d.held.erase q⟩ := by
  obtain ⟨c, known⟩ := Option.isSome_iff_exists.mp (balanced.met q member)
  obtain ⟨writes, newWrites⟩ := balanced.callers q.peer c known
  have shape : d.service.release q = Service.setCaller { d.service with
      writes := d.service.writes.release
      newWrites := if q.new then d.service.newWrites.release else d.service.newWrites } q.peer
      { c with
        writes := c.writes.release
        newWrites := if q.new then c.newWrites.release else c.newWrites } := by
    unfold Service.release
    dsimp only
    rw [known]
  have out : ∀ f : Permit → Bool, (d.held.erase q).countP f =
      d.held.countP f - if f q = true then 1 else 0 := by
    intro f
    rw [List.countP_erase]
    simp [member]
  have fewer : ∀ f : Permit → Bool, (d.held.erase q).countP f ≤ d.held.countP f := by
    intro f
    rw [out]
    exact Nat.sub_le _ _
  constructor
  · rw [shape]
    change d.service.writes.release = _
    rw [balanced.writes]
    dsimp only
    rw [List.length_erase_of_mem member]
    rfl
  · rw [shape]
    change (if q.new = true then d.service.newWrites.release else d.service.newWrites) = _
    rw [balanced.newWrites]
    dsimp only
    rw [out]
    cases q.new with
    | false => rfl
    | true => rfl
  · intro p c' there
    rw [shape] at there
    change (d.service.admission.peers.insert q.peer _).lookup p = some c' at there
    rw [lookup_insert_eq] at there
    dsimp only
    rw [out, out]
    split at there
    · rename_i same
      cases there
      subst same
      dsimp only
      rw [writes, newWrites]
      cases q.new with
      | false => simp [Semaphore.release]
      | true => simp [Semaphore.release]
    · rename_i other
      have apart : ¬ q.peer = p := fun same => other same.symm
      simpa [apart] using balanced.callers p c' there
  · exact (fewer _).trans balanced.within
  · exact fun p => (fewer _).trans (balanced.callersWithin p)
  · exact fun q' old => balanced.issued q' (List.mem_of_mem_erase old)
  · intro q' old
    rw [shape]
    change ((d.service.admission.peers.insert q.peer _).lookup q'.peer).isSome = true
    rw [lookup_insert_eq]
    split
    · rfl
    · exact balanced.met q' (List.mem_of_mem_erase old)

/-- Both invariants along a run. -/
theorem kept {service : Service} {start : UInt64} {key : Except Error (Binary 32)}
    (valid : l.Valid) (opened : Service.withClock l start key = .ok service)
    {ms : List (Move Desk Event)} (run : Run (Taken Desk.next) ⟨service, []⟩ ms d) :
    d.Tracks l start.toNat (ms.filterMap admitted) (ms.filterMap reading) ∧
      d.Balanced l (ms.filterMap admitted) := by
  induction run with
  | start =>
    simp only [Service.withClock, Bucket.new_ok, bind_ok, pure_ok, Except.ok.injEq] at opened
    obtain ⟨_, _, _, _, reserved, less, _, rfl, _, rfl, rfl⟩ := opened
    rw [Arith.sub_ok] at less
    refine ⟨⟨rfl, .full _ _ _, .full _ _ _, fun p c known => ?_, by simp, by simp⟩,
      ⟨rfl, by rw [less.2]; rfl, fun p c known => ?_, by simp, by simp, by simp, by simp⟩⟩
    · cases known
    · cases known
  | @move ms d d' event run taken ih =>
    obtain ⟨tracks, balanced⟩ := ih
    rw [List.filterMap_append, List.filterMap_append]
    cases event with
    | drop q =>
      simp only [Taken, Desk.next] at taken
      split at taken
      · rename_i member
        cases taken
        have quiet : ∀ e, [(⟨d, .drop q, e⟩ : Move Desk Event)].filterMap admitted = [] ∧
            [(⟨d, .drop q, e⟩ : Move Desk Event)].filterMap reading = [] := fun e => ⟨rfl, rfl⟩
        rw [(quiet _).1, (quiet _).2, List.append_nil, List.append_nil]
        exact ⟨tracks.released q, balanced.released member⟩
      · cases taken
    | admit_ peer new now =>
      have valid' : d.service.limits.Valid := tracks.limits ▸ valid
      have admits := Service.admit_admits valid' peer new now
      have none : (d.service.admit_ peer new now).1.isOk = false →
          [(⟨d, .admit_ peer new now, d'⟩ : Move Desk Event)].filterMap admitted = [] := by
        intro refused
        simp [admitted, refused]
      have some : (d.service.admit_ peer new now).1.isOk = true →
          [(⟨d, .admit_ peer new now, d'⟩ : Move Desk Event)].filterMap admitted =
            [⟨peer, new, now.toNat⟩] := by
        intro done
        simp [admitted, done]
      have read : [(⟨d, .admit_ peer new now, d'⟩ : Move Desk Event)].filterMap reading =
          [now.toNat] := rfl
      rw [read]
      simp only [Taken, Desk.next] at taken
      generalize done : d.service.admit_ peer new now = outcome at admits taken none some
      obtain ⟨result, service'⟩ := outcome
      dsimp only at admits
      cases admits with
      | crowded =>
        cases taken
        rw [none rfl, List.append_nil]
        exact ⟨tracks.unmoved _, balanced⟩
      | exhausted =>
        cases taken
        rw [none rfl, List.append_nil]
        exact ⟨tracks.unmoved _, balanced⟩
      | drained =>
        cases taken
        rw [none rfl, List.append_nil]
        exact ⟨tracks.refused _ _, balanced.refused tracks.limits _ _⟩
      | busy =>
        cases taken
        rw [none rfl, List.append_nil]
        exact ⟨tracks.refused _ _, balanced.refused tracks.limits _ _⟩
      | granted known free all drawn kept all' drawn' kept' =>
        cases taken
        rw [some rfl]
        exact ⟨tracks.granted all drawn kept all' drawn' kept', balanced.granted tracks.limits free⟩

end Steps

/-- No call to come traps. -/
def Untrapped (d : Desk) : Prop :=
  ∀ peer new now, (d.service.admit_ peer new now).1 ≠ .error .trap

/-- Every new-work bucket holds a token when it is full, and every semaphore has a permit. -/
def Capacious (s : Service) : Prop :=
  1 ≤ s.admission.new.burst.toNat ∧ 1 ≤ s.writes.capacity ∧ 1 ≤ s.newWrites.capacity ∧
    ∀ p c, s.admission.peers.lookup p = some c →
      1 ≤ c.new.burst.toNat ∧ 1 ≤ c.writes.capacity ∧ 1 ≤ c.newWrites.capacity

/-- The requests so selected keep to the rate in every window of time. -/
def Within (as : List Admitted) (select : Admitted → Bool) (rate burst : Nat) : Prop :=
  ∀ start length, 1000 * as.countP (fun a => select a ∧ start ≤ a.now ∧ a.now ≤ start + length) ≤
    1000 * burst + rate * length

/-- What was there is as it was, and no permit is out that was not. -/
structure Unmoved (s s' : Service) : Prop where
  writes : s'.writes = s.writes
  newWrites : s'.newWrites = s.newWrites
  all : s'.admission.all = s.admission.all
  new : s'.admission.new = s.admission.new
  callers : ∀ p c, s.admission.peers.lookup p = some c → s'.admission.peers.lookup p = some c
  entered : ∀ p c, s'.admission.peers.lookup p = some c → s.admission.peers.lookup p = none →
    c.writes.taken = 0 ∧ c.newWrites.taken = 0

theorem unmoved_entry (s : Service) (peer : Int64) (now : UInt64) :
    Unmoved s (s.setCaller peer (s.entry peer now)) where
  writes := rfl
  newWrites := rfl
  all := rfl
  new := rfl
  callers p c known := by
    change (s.admission.peers.insert peer _).lookup p = some c
    rw [lookup_insert_eq]
    split
    · rename_i same
      rw [Service.entry, ← same, known]
      rfl
    · exact known
  entered p c there absent := by
    change (s.admission.peers.insert peer _).lookup p = some c at there
    rw [lookup_insert_eq] at there
    split at there
    · rename_i same
      cases there
      rw [Service.entry, ← same, absent]
      exact ⟨rfl, rfl⟩
    · rw [absent] at there
      cases there

/-- The window of a bucket, over the requests that drew from it. -/
theorem within_follows {as : List Admitted} {rs : List Nat} {b : Bucket} {rate burst : UInt32}
    {since : Nat} (select : Admitted → Bool)
    (follows : b.Follows rate burst since ((as.filter select).map Admitted.now))
    (read : (as.map Admitted.now).Sublist rs) (sorted : rs.Pairwise (· ≤ ·))
    (before : ∀ a ∈ as, select a = true → since ≤ a.now) : Within as select rate.toNat burst.toNat := by
  intro start length
  have ordered : (since :: (as.filter select).map Admitted.now).Pairwise (· ≤ ·) := by
    refine List.pairwise_cons.mpr ⟨?_, (sorted.sublist read).sublist (List.filter_sublist.map _)⟩
    intro n member
    obtain ⟨a, there, rfl⟩ := List.mem_map.mp member
    exact before a (List.mem_filter.mp there).1 (List.mem_filter.mp there).2
  have window := follows.window ordered start length
  rw [List.countP_map, List.countP_filter] at window
  have same : (as.countP fun a => select a ∧ start ≤ a.now ∧ a.now ≤ start + length) =
      as.countP fun a => ((fun n => decide (start ≤ n ∧ n ≤ start + length)) ∘ Admitted.now) a &&
        select a := by
    congr 1
    funext a
    simp [Bool.and_comm]
  rw [same]
  omega

/-- Opening the service does no arithmetic that traps. -/
theorem withClock_untrapped {limits : ServiceLimits} (valid : limits.validate = .ok ())
    (start : UInt64) (key : Except Error (Binary 32)) :
    Service.withClock limits start key ≠ .error .trap := by
  have sound := (ServiceLimits.validate_ok valid).globalWrites
  have room : max (limits.globalWrites.toNat / 4) 1 ≤ limits.globalWrites.toNat := by omega
  have reserved : Arith.sub limits.globalWrites.toNat (max (limits.globalWrites.toNat / 4) 1) =
      .ok (limits.globalWrites.toNat - max (limits.globalWrites.toNat / 4) 1) := if_pos room
  unfold Service.withClock
  rw [valid, reserved, Bucket.new_ok, Bucket.new_ok]
  cases key with
  | error e => simp [Except.mapError, bind, Except.bind]
  | ok k => simp [Except.mapError, bind, Except.bind, pure, Except.pure]

section Promises

variable {l : ServiceLimits} {start : Nat} {as : List Admitted} {rs : List Nat} {d : Desk}

theorem Tracks.capacious (valid : l.Valid) (tracks : d.Tracks l start as rs)
    (balanced : d.Balanced l as) : Capacious d.service := by
  have writes := valid.globalWrites
  have callerWrites := valid.peerWrites
  have burst := valid.globalBurst
  have callerBurst := valid.peerBurst
  refine ⟨?_, ?_, ?_, fun p c known => ?_⟩
  · rw [tracks.new.sized, UInt32.toNat_div]
    exact Nat.div_pos burst Nat.two_pos
  · rw [balanced.writes]
    exact Nat.le_of_succ_le writes
  · rw [balanced.newWrites]
    dsimp only
    omega
  · obtain ⟨_, _, _, follows, _⟩ := tracks.callers p c known
    obtain ⟨all, new⟩ := balanced.callers p c known
    refine ⟨?_, ?_, ?_⟩
    · rw [follows.sized, UInt32.toNat_div]
      exact Nat.div_pos callerBurst Nat.two_pos
    · rw [all]
      exact Nat.le_of_succ_le callerWrites
    · rw [new]
      dsimp only
      omega

theorem Tracks.within (tracks : d.Tracks l start as rs) (ordered : (start :: rs).Pairwise (· ≤ ·)) :
    Within as (fun _ => true) l.globalRate.toNat l.globalBurst.toNat ∧
    Within as Admitted.new (l.globalRate.toNat / 2) (l.globalBurst.toNat / 2) ∧
    ∀ p : Int64, Within as (fun a => a.peer = p) l.peerRate.toNat l.peerBurst.toNat ∧
      Within as (fun a => a.peer = p ∧ a.new = true) (l.peerRate.toNat / 2)
        (l.peerBurst.toNat / 2) := by
  obtain ⟨early, sorted⟩ := List.pairwise_cons.mp ordered
  have since : ∀ a ∈ as, start ≤ a.now :=
    fun a member => early _ (tracks.read.subset (List.mem_map_of_mem member))
  have halves : ∀ r : UInt32, (r / 2).toNat = r.toNat / 2 := fun r => UInt32.toNat_div r 2
  refine ⟨?_, ?_, fun p => ?_⟩
  · have all := tracks.all
    rw [← List.filter_true as] at all
    exact within_follows _ all tracks.read sorted fun a member _ => since a member
  · rw [← halves, ← halves]
    exact within_follows _ tracks.new tracks.read sorted fun a member _ => since a member
  · cases known : d.service.admission.peers.lookup p with
    | some c =>
      obtain ⟨_, _, all, new, before⟩ := tracks.callers p c known
      rw [← halves, ← halves]
      exact ⟨within_follows _ all tracks.read sorted fun a member mine =>
          before sorted a member (of_decide_eq_true mine),
        within_follows _ new tracks.read sorted fun a member mine =>
          before sorted a member (of_decide_eq_true mine).1⟩
    | none =>
      have stranger : ∀ a ∈ as, a.peer ≠ p := by
        rintro a member rfl
        have met := tracks.met a member
        rw [known] at met
        cases met
      constructor
      · intro start length
        rw [List.countP_eq_zero.mpr fun a member => by simp [stranger a member]]
        omega
      · intro start length
        rw [List.countP_eq_zero.mpr fun a member => by simp [stranger a member]]
        omega

theorem Tracks.rejected (valid : l.Valid) (tracks : d.Tracks l start as rs) {peer : Int64}
    {new : Bool} {now : UInt64} {e : Halt} (refused : (d.service.admit_ peer new now).1 = .error e) :
    Unmoved d.service (d.service.admit_ peer new now).2 := by
  have admits := Service.admit_admits (tracks.limits ▸ valid) peer new now
  have same : Unmoved d.service d.service :=
    ⟨rfl, rfl, rfl, rfl, fun _ _ known => known, fun p c there absent => by
      rw [absent] at there
      cases there⟩
  rw [refused] at admits
  generalize (d.service.admit_ peer new now).2 = s at admits ⊢
  cases admits with
  | crowded => exact same
  | exhausted => exact same
  | drained => exact unmoved_entry _ _ _
  | busy => exact unmoved_entry _ _ _

/-- New work alone never keeps other work out. -/
theorem Tracks.unstarved (valid : l.Valid) (tracks : d.Tracks l start as rs)
    (balanced : d.Balanced l as) (fresh : ∀ a ∈ as, a.new = true) (peer : Int64) (now : UInt64)
    (known : (d.service.admission.peers.lookup peer).isSome = true ∨
      d.service.admission.peers.entries.length < l.peerIds) :
    (d.service.admit_ peer false now).1 = .ok ⟨peer, false⟩ := by
  have admits := Service.admit_admits (tracks.limits ▸ valid) peer false now
  obtain ⟨_, _, all, new, _⟩ := tracks.entry peer now
  have writes := valid.globalWrites
  have callerWrites := valid.peerWrites
  generalize (d.service.admit_ peer false now).1 = result at admits ⊢
  generalize (d.service.admit_ peer false now).2 = s at admits
  cases admits with
  | crowded absent crowd =>
    rw [tracks.limits] at crowd
    rcases known with there | room
    · rw [absent] at there
      cases there
    · omega
  | exhausted dry =>
    rcases dry with ⟨never, -⟩ | dry
    · cases never
    · have follows := tracks.new
      rw [List.filter_eq_self.mpr fresh] at follows
      exact absurd dry (tracks.all.reserve follows valid.globalBurst)
  | drained dry =>
    rcases dry with ⟨never, -⟩ | dry
    · cases never
    · have same : (as.filter fun a => a.peer = peer ∧ a.new = true) =
          as.filter (·.peer = peer) :=
        List.filter_congr fun a member => by simp [fresh a member]
      rw [same] at new
      exact absurd dry (all.reserve new valid.peerBurst)
  | busy full =>
    have issued : ∀ q ∈ d.held, q.new = true := by
      intro q member
      obtain ⟨a, there, -, same⟩ := balanced.issued q member
      exact same ▸ fresh a there
    have out : d.held.length = d.held.countP Permit.new :=
      (List.countP_eq_length.mpr issued).symm
    have mine : d.held.countP (·.peer = peer) =
        d.held.countP fun q => q.peer = peer ∧ q.new = true :=
      List.countP_congr fun q member => by simp [issued q member]
    refine absurd ⟨?_, ?_, fun never => nomatch never⟩ full
    · rw [Semaphore.Free, balanced.writes]
      have within := balanced.within
      dsimp only
      omega
    · rw [Semaphore.Free, (balanced.entry tracks.limits peer now).1]
      have within := balanced.callersWithin peer
      dsimp only
      omega
  | granted => rfl

end Promises

/-- The promises of admission, over every run of a service whose limits have passed `validate`. -/
theorem admission_controlled {limits : ServiceLimits} (valid : limits.validate = .ok ())
    (start : UInt64) (key : Except Error (Binary 32)) :
    Service.withClock limits start key ≠ .error .trap ∧
    ∀ service ms d, Service.withClock limits start key = .ok service →
      Run (Taken Desk.next) ⟨service, []⟩ ms d →
      d.Untrapped ∧ Capacious d.service ∧
      ((start.toNat :: ms.filterMap reading).Pairwise (· ≤ ·) →
        Within (ms.filterMap admitted) (fun _ => true) limits.globalRate.toNat
          limits.globalBurst.toNat ∧
        Within (ms.filterMap admitted) Admitted.new (limits.globalRate.toNat / 2)
          (limits.globalBurst.toNat / 2) ∧
        ∀ p : Int64, Within (ms.filterMap admitted) (fun a => a.peer = p) limits.peerRate.toNat
            limits.peerBurst.toNat ∧
          Within (ms.filterMap admitted) (fun a => a.peer = p ∧ a.new = true)
            (limits.peerRate.toNat / 2) (limits.peerBurst.toNat / 2)) ∧
      (∀ peer new now e, (d.service.admit_ peer new now).1 = .error e →
        Unmoved d.service (d.service.admit_ peer new now).2) ∧
      ((∀ a ∈ ms.filterMap admitted, a.new = true) → ∀ peer now,
        (d.service.admission.peers.lookup peer).isSome = true ∨
          d.service.admission.peers.entries.length < limits.peerIds →
        (d.service.admit_ peer false now).1 = .ok ⟨peer, false⟩) := by
  have sound := ServiceLimits.validate_ok valid
  refine ⟨withClock_untrapped valid start key, fun service ms d opened run => ?_⟩
  obtain ⟨tracks, balanced⟩ := kept sound opened run
  refine ⟨fun peer new now trapped => ?_, tracks.capacious sound balanced, tracks.within,
    fun peer new now e => tracks.rejected sound, fun fresh peer now known => ?_⟩
  · have admits := Service.admit_admits (tracks.limits ▸ sound) peer new now
    rw [trapped] at admits
    cases admits
  · exact tracks.unstarved sound balanced fresh peer now known

/-- After new work of one caller another is let in with other work. -/
theorem admission_controlled_default : ∃ service ms d,
    Service.withClock .default 0 (.ok 0) = .ok service ∧
    Run (Taken Desk.next) ⟨service, []⟩ ms d ∧ (ms.filterMap admitted).length = 1 ∧
    (d.service.admit_ 2 false 6).1 = .ok ⟨2, false⟩ := by
  have facts : (Service.withClock .default 0 (.ok 0)).toOption.any (fun service =>
      (execute Desk.next ⟨service, []⟩ [.admit_ 1 true 5]).any fun run =>
        decide ((run.1.filterMap admitted).length = 1) &&
        (run.1.filterMap admitted).all Admitted.new &&
        decide (run.2.service.admission.peers.entries.length < ServiceLimits.default.peerIds)) =
          true := by
    decide +kernel
  obtain ⟨service, opened, facts⟩ := (Option.any_eq_true _ _).mp facts
  obtain ⟨⟨ms, d⟩, done, facts⟩ := (Option.any_eq_true _ _).mp facts
  rw [Bool.and_eq_true, Bool.and_eq_true, decide_eq_true_eq, List.all_eq_true,
    decide_eq_true_eq] at facts
  have opened : Service.withClock .default 0 (.ok 0) = .ok service := by
    generalize Service.withClock .default 0 (.ok 0) = made at opened ⊢
    cases made with
    | error => cases opened
    | ok s =>
      cases opened
      rfl
  obtain ⟨-, -, -, -, unstarved⟩ := (@admission_controlled .default (by decide) 0 (.ok 0)).2 service ms d opened (execute_run done)
  exact ⟨service, ms, d, opened, execute_run done, facts.1.1, unstarved facts.1.2 2 6 (.inr facts.2)⟩

end Desk

end Innernet
