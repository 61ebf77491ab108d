import Innernet.Library.Paging
import Innernet.Serialization
import Innernet.Server.Cursors
import Innernet.Server.Visibility

/-! The directory and the mailbox in pages, as `server/src/api/pq.rs` serves them: three keyset scans
one after the other, with a limit on the objects of a page and two on its bytes. -/
namespace Innernet

open Fallible Tables Paging Documents Serialization

def Lifecycle.value : Lifecycle → Value
  | .enabled => text "enabled"
  | .retired => text "retired"

def AdvertisedBundle.value (a : AdvertisedBundle) : Value := .object
  [field "pq_version" (integer a.pqVersion.toNat),
    field "lifecycle" a.lifecycle.value,
    field "bundle" a.bundle.value]

theorem advertised_length (a : AdvertisedBundle) : a.value.render.length ≤ 2600 := by
  have lifecycle : a.lifecycle.value.render.length ≤ 10 := by
    cases a.lifecycle <;> decide
  refine le_trans (Value.object_length_le [10 + 4 + 3, 9 + 4 + 10, 6 + 4 + 2480] ?_) (by decide)
  exact .cons (byte_cost rfl (by decide) _) <| .cons (field_cost rfl (by decide) lifecycle) <|
    .cons (field_cost rfl (by decide) (bundle_length a.bundle)) .nil

structure PeerState where
  id : Nat
  peer : PeerRow
  isServer : Bool
  pq : Option AdvertisedBundle
  deriving DecidableEq

/-- `StatePage<Peer, Cidr>`. -/
structure Page where
  pqVersion : UInt8
  networkId : Binary 16
  visibilityRevision : Number
  peers : List PeerState
  cidrs : List (Nat × Option Nat)
  exchanges : List Exchange
  nextCursor : Option (List UInt8)

/-- How long the JSON text of an object gets with the columns that are not kept here, and with the
endpoint that `inject_endpoints` adds. -/
structure JsonLengths where
  peer : PeerState → Nat
  cidr : Nat × Option Nat → Nat

/-- The peer at the other end. -/
def ExchangeKey.other (k : ExchangeKey) (caller : Nat) : Nat :=
  if k.initiatorId = caller then k.responderId else k.initiatorId

def Exchange.other (e : Exchange) (caller : Nat) : Nat := e.key.other caller

/-- An object of a page. -/
inductive Item where
  | peer (state : PeerState)
  | cidr (row : Nat × Option Nat)
  | exchange (other : Nat) (record : Exchange)
  deriving DecidableEq

namespace Item

/-- The key of the scan it comes from. -/
def id : Item → Nat
  | peer state => state.id
  | cidr row => row.1
  | exchange other _ => other

/-- `pq_size`. -/
def pqSize : Item → Nat
  | peer state => (state.pq.map fun a => a.value.render.length).getD 0 + 64
  | cidr _ => 0
  | exchange _ record => record.json.length

/-- `serde_json::to_vec(&value)?.len() + 1`. -/
def size (lengths : JsonLengths) : Item → Nat
  | peer state => lengths.peer state + 1
  | cidr row => lengths.cidr row + 1
  | exchange _ record => record.json.length + 1

def peer? : Item → Option PeerState
  | peer state => some state
  | _ => none

def cidr? : Item → Option (Nat × Option Nat)
  | cidr row => some row
  | _ => none

def exchange? : Item → Option Exchange
  | exchange _ record => some record
  | _ => none

end Item

namespace Page

def push (page : Page) : Item → Page
  | .peer state => { page with peers := page.peers ++ [state] }
  | .cidr row => { page with cidrs := page.cidrs ++ [row] }
  | .exchange _ record => { page with exchanges := page.exchanges ++ [record] }

theorem pushed (page : Page) (items : List Item) : items.foldl push page = { page with
    peers := page.peers ++ items.filterMap Item.peer?
    cidrs := page.cidrs ++ items.filterMap Item.cidr?
    exchanges := page.exchanges ++ items.filterMap Item.exchange? } := by
  induction items generalizing page with
  | nil => simp
  | cons item items ih =>
    rw [List.foldl_cons, ih]
    cases item <;> simp [push, List.filterMap_cons, Item.peer?, Item.cidr?, Item.exchange?]

end Page

/-- The variables of the loop of `page`. -/
structure Filling where
  stage : Nat
  after : Nat
  page : Page
  pqBytes : Nat
  totalBytes : Nat
  count : Nat

namespace Database

/-- The rows of `pq_exchanges` of a peer, with the peer at the other end. -/
def mailbox (db : Database) (id : Nat) : List (Nat × Exchange) :=
  (db.exchanges.entries.filter fun e => decide (e.1.involves id)).map fun e =>
    (e.1.other id, e.2.record)

def cidrRows (db : Database) : List (Nat × Option Nat) := db.cidrs.entries.map fun e => (e.1, e.2)

/-- Rounds enough for every object and every change of stage. -/
def rounds (db : Database) (caller : Nat) (peers : List Nat) : Nat :=
  peers.length + db.cidrs.entries.length + (db.mailbox caller).length + 4

variable [Native]

/-- The object for a peer of the directory. -/
def peerState (db : Database) (id : Nat) : Except ServerError PeerState := do
  let peer ← db.getPeer id
  let advertised ← db.bundle id
  require (∀ a ∈ advertised, Key.fromBase64 peer.publicKey = some a.bundle.wgPublicKey.bytes) .conflict
  let isServer ← db.isServer id
  return { id, peer, isServer, pq := advertised }

/-- What the loop comes to next from a stage and an id: an object, or where it goes on. -/
def advance (db : Database) (caller : Nat) (peers : List Nat) :
    Nat × Nat → Except ServerError (Item ⊕ (Nat × Nat))
  | (0, after) =>
    match next id after peers with
    | none => .ok (.inr (1, 0))
    | some p => do
      let state ← db.peerState p
      return .inl (.peer state)
  | (1, after) =>
    match next Prod.fst after db.cidrRows with
    | none => .ok (.inr (2, 0))
    | some row => .ok (.inl (.cidr row))
  | (stage, after) =>
    match next Prod.fst after (db.mailbox caller) with
    | none => .ok (.inr (3, after))
    | some (other, record) =>
      match db.pairAllowed caller other with
      | .ok () => .ok (.inl (.exchange other record))
      | .error .unauthorized | .error .notFound => .ok (.inr (stage, other))
      | .error e => .error e

/-- The loop; each round takes an object or moves the position on. -/
def fillPage (db : Database) (lengths : JsonLengths) (caller : Nat) (peers : List Nat) :
    Nat → Filling → Except ServerError Filling
  | 0, s => .ok s
  | rounds + 1, s =>
    if s.stage < 3 ∧ s.count < 32 then do
      match ← db.advance caller peers (s.stage, s.after) with
      | .inr (stage, after) => db.fillPage lengths caller peers rounds { s with stage, after }
      | .inl item =>
        if s.pqBytes + item.pqSize > 128 * 1024 ∨
            s.totalBytes + item.size lengths > 1024 * 1024 then
          if s.count = 0 then .error .unavailable else .ok s
        else db.fillPage lengths caller peers rounds {
          stage := s.stage
          after := item.id
          page := s.page.push item
          pqBytes := s.pqBytes + item.pqSize
          totalBytes := s.totalBytes + item.size lengths
          count := s.count + 1 }
    else .ok s

/-- The page a walk begins with. -/
def emptyPage (db : Database) (revision : Number) : Page where
  pqVersion := 1
  networkId := db.network.networkId
  visibilityRevision := revision
  peers := []
  cidrs := []
  exchanges := []
  nextCursor := none

/-- The variables of the loop when it begins. -/
def begun (db : Database) (revision : Number) (position : Nat × Nat) : Filling where
  stage := position.1
  after := position.2
  page := db.emptyPage revision
  pqBytes := 512
  totalBytes := 512
  count := 0

/-- What `page` does between the sweep and the commit. -/
def pageWalk (cursorKey : Binary 32) (lengths : JsonLengths) (id : Nat) (cursor : Option (List UInt8))
    (caller : PeerRow) (db : Database) : Except ServerError Page := do
  let revision := db.network.visibilityRevision
  let position ← pageStart cursorKey id revision cursor
  let visibilityRevision ← pq (Number.new revision)
  let peers := db.allowedPeers caller.cidrId
  let filled ← db.fillPage lengths id peers (db.rounds id peers) (db.begun visibilityRevision position)
  if filled.stage < 3 then
    let next ← encodeCursor cursorKey id revision filled.stage filled.after
    return { filled.page with nextCursor := some next }
  else return filled.page

/-- `GET /user/state`. -/
def statePage (db : Database) (cursorKey : Binary 32) (lengths : JsonLengths) (id : Nat) (key : String)
    (now : Nat) (cursor : Option (List UInt8)) : Except ServerError Page × Database :=
  db.page id key now fun caller swept => pageWalk cursorKey lengths id cursor caller swept

end Database

/-! ### What a page holds -/

/-- An object takes its bytes of the two limits, or does not fit. -/
def JsonLengths.takes (lengths : JsonLengths) (used : Nat × Nat) (item : Item) : Option (Nat × Nat) :=
  if used.1 + item.pqSize > 128 * 1024 ∨ used.2 + item.size lengths > 1024 * 1024 then none
  else some (used.1 + item.pqSize, used.2 + item.size lengths)

namespace Database

variable [Native]

def peersLeft (db : Database) (peers : List Nat) (after : Nat) : List Item :=
  (remaining id after peers).filterMap fun p => (db.peerState p).toOption.map .peer

def cidrsLeft (db : Database) (after : Nat) : List Item :=
  (remaining Prod.fst after db.cidrRows).map .cidr

def exchangesLeft (db : Database) (caller after : Nat) : List Item :=
  ((remaining Prod.fst after (db.mailbox caller)).filter fun e =>
    (db.pairAllowed caller e.1).isOk).map fun e => .exchange e.1 e.2

/-- The objects there are after a position, in the order of the scans. -/
def left (db : Database) (caller : Nat) (peers : List Nat) : Nat × Nat → List Item
  | (0, after) => db.peersLeft peers after ++ (db.cidrsLeft 0 ++ db.exchangesLeft caller 0)
  | (1, after) => db.cidrsLeft after ++ db.exchangesLeft caller 0
  | (2, after) => db.exchangesLeft caller after
  | _ => []

/-- The rounds the loop needs from a position on. -/
def togo (db : Database) (caller : Nat) (peers : List Nat) : Nat × Nat → Nat
  | (0, after) => (remaining id after peers).length +
      (db.cidrRows.length + (db.mailbox caller).length + 3)
  | (1, after) => (remaining Prod.fst after db.cidrRows).length + ((db.mailbox caller).length + 2)
  | (2, after) => (remaining Prod.fst after (db.mailbox caller)).length + 1
  | _ => 0

/-- The most objects there can be from a position on, whatever comes into the mailbox. -/
def most (db : Database) (peers : List Nat) : Nat × Nat → Nat
  | (0, after) => (remaining id after peers).length + (db.cidrRows.length + peers.length)
  | (1, after) => (remaining Prod.fst after db.cidrRows).length + peers.length
  | (2, after) => (remaining id after peers).length
  | _ => 0

/-- Every id a position can hold. -/
def ids (db : Database) (caller : Nat) (peers : List Nat) : List Nat :=
  peers ++ db.cidrRows.map Prod.fst ++ (db.mailbox caller).map Prod.fst

/-- Everything a walk over the directory and the mailbox reads can be read. -/
structure Readable (db : Database) (caller : Nat) (peers : List Nat) : Prop where
  distinct : peers.Nodup
  states : ∀ p ∈ peers, ∃ state, db.peerState p = .ok state
  single : ((db.mailbox caller).map Prod.fst).Nodup
  pairs : ∀ e ∈ db.mailbox caller, ∀ error, db.pairAllowed caller e.1 = .error error →
    error = .unauthorized
  named : ∀ e ∈ db.mailbox caller, e.2.other caller = e.1
  visible : ∀ other, db.pairAllowed caller other = .ok () → other ∈ peers

variable {db : Database} {caller p stage after : Nat} {peers : List Nat} {lengths : JsonLengths}

theorem peerState_id {state : PeerState} (read : db.peerState p = .ok state) : state.id = p := by
  simp only [peerState, bind_ok, require_ok, pure_ok] at read
  obtain ⟨_, _, _, _, _, _, _, _, rfl⟩ := read
  rfl

omit [Native] in
theorem cidrRows_distinct (db : Database) : (db.cidrRows.map Prod.fst).Nodup := by
  rw [cidrRows, List.map_map]
  exact db.cidrs.nodupKeys

/-- A round of the loop: an object is taken, or the same objects are left where it goes on. -/
inductive Comes (db : Database) (caller : Nat) (peers : List Nat) (stage after : Nat) :
    Item ⊕ (Nat × Nat) → Prop where
  | takes {item : Item} : item.id ∈ db.ids caller peers →
      db.left caller peers (stage, after) = item :: db.left caller peers (stage, item.id) →
      db.togo caller peers (stage, item.id) < db.togo caller peers (stage, after) →
      db.most peers (stage, item.id) < db.most peers (stage, after) →
      Comes db caller peers stage after (.inl item)
  | moves {stage' after' : Nat} : stage' ≤ 3 → after' ∈ after :: 0 :: db.ids caller peers →
      db.left caller peers (stage', after') = db.left caller peers (stage, after) →
      db.togo caller peers (stage', after') < db.togo caller peers (stage, after) →
      db.most peers (stage', after') ≤ db.most peers (stage, after) →
      Comes db caller peers stage after (.inr (stage', after'))

theorem Readable.advance_peers (readable : db.Readable caller peers) :
    ∃ r, db.advance caller peers (0, after) = .ok r ∧ Comes db caller peers 0 after r := by
  cases left : remaining id after peers with
  | nil =>
    simp only [Database.advance, next_eq, left, List.head?_nil]
    have fewer := remaining_length Prod.fst 0 db.cidrRows
    refine ⟨_, rfl, .moves (by decide) (by simp) ?_ ?_ ?_⟩
    · simp [Database.left, peersLeft, left]
    · simp only [togo, left, List.length_nil]
      omega
    · simp only [most, left, List.length_nil]
      omega
  | cons p rest =>
    have member : p ∈ peers := (mem_remaining.mp (left ▸ List.mem_cons_self)).1
    obtain ⟨state, read⟩ := readable.states p member
    have tail : remaining id p peers = rest :=
      remaining_next (by simpa using readable.distinct) left
    have here : (Item.peer state).id = p := peerState_id read
    simp only [Database.advance, next_eq, left, List.head?_cons]
    refine ⟨.inl (.peer state), by simp [read], .takes ?_ ?_ ?_ ?_⟩
    · simp [ids, here, member]
    · simp [Database.left, peersLeft, here, left, tail, read, Except.toOption]
    · simp [togo, here, left, tail]
    · simp [most, here, left, tail]

theorem advance_cidrs :
    ∃ r, db.advance caller peers (1, after) = .ok r ∧ Comes db caller peers 1 after r := by
  cases left : remaining Prod.fst after db.cidrRows with
  | nil =>
    simp only [Database.advance, next_eq, left, List.head?_nil]
    have fewer := remaining_length Prod.fst 0 (db.mailbox caller)
    have fewer' := remaining_length id 0 peers
    refine ⟨_, rfl, .moves (by decide) (by simp) ?_ ?_ ?_⟩
    · simp [Database.left, cidrsLeft, left]
    · simp only [togo, left, List.length_nil]
      omega
    · simp only [most, left, List.length_nil]
      omega
  | cons row rest =>
    have member : row ∈ db.cidrRows := (mem_remaining.mp (left ▸ List.mem_cons_self)).1
    have tail := remaining_next db.cidrRows_distinct left
    simp only [Database.advance, next_eq, left, List.head?_cons]
    refine ⟨_, rfl, .takes ?_ ?_ ?_ ?_⟩
    · exact List.mem_append_left _ (List.mem_append_right _ (List.mem_map_of_mem member))
    · simp [Database.left, cidrsLeft, Item.id, left, tail]
    · simp [togo, Item.id, left, tail]
    · simp [most, Item.id, left, tail]

theorem Readable.advance_exchanges (readable : db.Readable caller peers) :
    ∃ r, db.advance caller peers (2, after) = .ok r ∧ Comes db caller peers 2 after r := by
  cases left : remaining Prod.fst after (db.mailbox caller) with
  | nil =>
    simp only [Database.advance, next_eq, left, List.head?_nil]
    refine ⟨_, rfl, .moves (by decide) (by simp) ?_ ?_ ?_⟩
    · simp [Database.left, exchangesLeft, left]
    · simp [togo, left]
    · simp [most]
  | cons e rest =>
    have member : e ∈ db.mailbox caller := (mem_remaining.mp (left ▸ List.mem_cons_self)).1
    have known : e.1 ∈ db.ids caller peers :=
      List.mem_append_right _ (List.mem_map_of_mem member)
    have above : after < e.1 := (mem_remaining.mp (left ▸ List.mem_cons_self)).2
    have tail := remaining_next readable.single left
    simp only [Database.advance, next_eq, left, List.head?_cons]
    cases allowed : db.pairAllowed caller e.1 with
    | ok =>
      refine ⟨.inl (.exchange e.1 e.2), by simp, .takes known ?_ ?_ ?_⟩
      · simp [Database.left, exchangesLeft, Item.id, left, tail, allowed, Except.isOk, Except.toBool]
      · simp [togo, Item.id, left, tail]
      · have left : e.1 ∈ remaining id after peers :=
          mem_remaining.mpr ⟨readable.visible e.1 allowed, above⟩
        exact remaining_less left
    | error error =>
      cases readable.pairs e member error allowed
      refine ⟨.inr (2, e.1), by simp, .moves (by decide) (by simp [known]) ?_ ?_ ?_⟩
      · simp [Database.left, exchangesLeft, left, tail, allowed, Except.isOk, Except.toBool]
      · simp [togo, left, tail]
      · exact remaining_fewer above.le

theorem Readable.comes (readable : db.Readable caller peers) (low : stage < 3) (after : Nat) :
    ∃ r, db.advance caller peers (stage, after) = .ok r ∧ Comes db caller peers stage after r := by
  have cases_ : stage = 0 ∨ stage = 1 ∨ stage = 2 := by omega
  rcases cases_ with rfl | rfl | rfl
  · exact readable.advance_peers
  · exact advance_cidrs
  · exact readable.advance_exchanges

/-- What the loop makes of a page it has begun. -/
structure Filled (db : Database) (lengths : JsonLengths) (caller : Nat) (peers : List Nat)
    (s s' : Filling) (items : List Item) : Prop where
  fill : fill lengths.takes (32 - s.count) (s.pqBytes, s.totalBytes)
    (db.left caller peers (s.stage, s.after)) =
      (items, db.left caller peers (s'.stage, s'.after), (s'.pqBytes, s'.totalBytes))
  page : s'.page = items.foldl Page.push s.page
  count : s'.count = s.count + items.length
  low : s'.stage ≤ 3
  more : s'.stage < 3 → 0 < s'.count
  after : s'.after ∈ s.after :: 0 :: db.ids caller peers
  most : db.most peers (s'.stage, s'.after) + items.length ≤ db.most peers (s.stage, s.after)

/-- The loop takes what fits of what is left, or fails on a first object that fits on no page. -/
theorem Readable.fillPage (readable : db.Readable caller peers) {rounds : Nat} {s : Filling}
    (enough : db.togo caller peers (s.stage, s.after) < rounds) (low : s.stage ≤ 3)
    (short : s.count ≤ 32) :
    (∃ s' items, db.fillPage lengths caller peers rounds s = .ok s' ∧
      Filled db lengths caller peers s s' items) ∨
    (db.fillPage lengths caller peers rounds s = .error .unavailable ∧ s.count = 0 ∧
      ∃ item ∈ (db.left caller peers (s.stage, s.after)).head?,
        lengths.takes (s.pqBytes, s.totalBytes) item = none) := by
  induction rounds generalizing s with
  | zero => omega
  | succ rounds ih =>
    rw [Database.fillPage]
    by_cases goes : s.stage < 3 ∧ s.count < 32
    · rw [if_pos goes]
      obtain ⟨r, read, comes⟩ := readable.comes goes.1 s.after
      rw [read]
      cases comes with
      | @moves stage after low' known same less fewer =>
        have rest := ih (s := { s with stage, after }) (by dsimp only; omega) low' short
        dsimp only at rest
        rw [same] at rest
        rcases rest with ⟨s', items, filled, ends⟩ | stuck
        · have after' := ends.after
          refine .inl ⟨s', items, filled, ⟨?_, ends.page, ends.count, ends.low, ends.more, ?_,
            ends.most.trans fewer⟩⟩
          · rw [← same]
            exact ends.fill
          · simp only [List.mem_cons] at known after' ⊢
            rcases after' with here | later
            · exact here ▸ known
            · exact .inr later
        · exact .inr stuck
      | @takes item known same less fewer =>
        have room : 32 - s.count = (32 - (s.count + 1)) + 1 := by omega
        by_cases full : s.pqBytes + item.pqSize > 128 * 1024 ∨
            s.totalBytes + item.size lengths > 1024 * 1024
        · have refused : lengths.takes (s.pqBytes, s.totalBytes) item = none := if_pos full
          rw [same]
          by_cases fresh : s.count = 0
          · exact .inr ⟨(if_pos full).trans (if_pos fresh), fresh, item, rfl, refused⟩
          · refine .inl ⟨s, [], (if_pos full).trans (if_neg fresh), ⟨?_, rfl, rfl, low,
              fun _ => Nat.pos_of_ne_zero fresh, List.mem_cons_self, le_rfl⟩⟩
            rw [room, same, Paging.fill, refused]
        · have taken : lengths.takes (s.pqBytes, s.totalBytes) item =
              some (s.pqBytes + item.pqSize, s.totalBytes + item.size lengths) := if_neg full
          rcases ih (s := {
            stage := s.stage
            after := item.id
            page := s.page.push item
            pqBytes := s.pqBytes + item.pqSize
            totalBytes := s.totalBytes + item.size lengths
            count := s.count + 1 }) (by dsimp only; omega) low (by dsimp only; omega) with
              ⟨s', items, filled, ends⟩ | ⟨_, never, _⟩
          · refine .inl ⟨s', item :: items, (if_neg full).trans filled, ⟨?_, ends.page, ?_, ends.low,
              ends.more, ?_, ?_⟩⟩
            · rw [room, same, Paging.fill, taken]
              exact congrArg (fun all => (item :: all.1, all.2)) ends.fill
            · have counted : s'.count = s.count + 1 + items.length := ends.count
              rw [counted, List.length_cons]
              omega
            · have after' := ends.after
              simp only [List.mem_cons] at after' ⊢
              rcases after' with later | later
              · exact .inr (.inr (later ▸ known))
              · exact .inr later
            · have rest : db.most peers (s'.stage, s'.after) + items.length ≤
                  db.most peers (s.stage, item.id) := ends.most
              rw [List.length_cons]
              omega
          · exact absurd never (Nat.succ_ne_zero _)
    · rw [if_neg goes]
      refine .inl ⟨s, [], rfl, ⟨?_, rfl, rfl, low, fun _ => by omega, List.mem_cons_self,
        le_rfl⟩⟩
      by_cases full : s.count = 32
      · rw [full]
        rfl
      · have ended : s.stage = 3 := by omega
        have room : 32 - s.count = (31 - s.count) + 1 := by omega
        rw [ended, room]
        rfl

/-- A page: what fits of what is left at its position, and the cursor to what is left then. -/
structure Paged (db : Database) (cursorKey : Binary 32) (lengths : JsonLengths) (id : Nat)
    (allowed : List Nat) (position : Nat × Nat) (page : Page) (items : List Item)
    (next : Nat × Nat) : Prop where
  fill : ∃ used, fill lengths.takes 32 (512, 512) (db.left id allowed position) =
    (items, db.left id allowed next, used)
  peers : page.peers = items.filterMap Item.peer?
  cidrs : page.cidrs = items.filterMap Item.cidr?
  exchanges : page.exchanges = items.filterMap Item.exchange?
  revision : page.visibilityRevision.val = db.network.visibilityRevision
  networkId : page.networkId = db.network.networkId
  after : next.2 ∈ position.2 :: 0 :: db.ids id allowed
  most : db.most allowed next + items.length ≤ db.most allowed position
  ends : page.nextCursor = none → next.1 = 3
  goes : ∀ value ∈ page.nextCursor, next.1 < 3 ∧ items ≠ [] ∧
    encodeCursor cursorKey id db.network.visibilityRevision next.1 next.2 = .ok value

omit [Native] in
theorem togo_rounds (position : Nat × Nat) :
    db.togo caller peers position < db.rounds caller peers := by
  have cidrs : db.cidrRows.length = db.cidrs.entries.length := List.length_map _
  unfold togo rounds
  split
  · rename_i after
    have fewer := remaining_length id after peers
    omega
  · rename_i after
    have fewer := remaining_length Prod.fst after db.cidrRows
    omega
  · rename_i after
    have fewer := remaining_length Prod.fst after (db.mailbox caller)
    omega
  · omega

theorem Readable.pageWalk_ok {cursorKey : Binary 32} {cursor : Option (List UInt8)}
    {row : PeerRow} {page : Page} (readable : db.Readable caller (db.allowedPeers row.cidrId))
    (read : pageWalk cursorKey lengths caller cursor row db = .ok page) :
    ∃ position items next,
      pageStart cursorKey caller db.network.visibilityRevision cursor = .ok position ∧
      Paged db cursorKey lengths caller (db.allowedPeers row.cidrId) position page items next := by
  simp only [pageWalk, bind_ok, pq_ok, Number.new_ok] at read
  obtain ⟨position, began, revision, counted, filled, done, read⟩ := read
  have low : position.1 ≤ 3 := Nat.le_succ_of_le (pageStart_low began)
  rcases readable.fillPage (s := db.begun revision position) (togo_rounds _) low
    (Nat.zero_le _) with ⟨s', items, done', ends⟩ | ⟨stuck, -⟩
  · obtain rfl : filled = s' := Except.ok.inj (done.symm.trans done')
    refine ⟨position, items, (filled.stage, filled.after), began, ?_⟩
    have page_ := ends.page
    rw [Page.pushed] at page_
    have paged : ∀ nextCursor, (nextCursor = none → filled.stage = 3) →
        (∀ value ∈ nextCursor, filled.stage < 3 ∧ items ≠ [] ∧ encodeCursor cursorKey caller
          db.network.visibilityRevision filled.stage filled.after = .ok value) →
        Paged db cursorKey lengths caller (db.allowedPeers row.cidrId) position
          { filled.page with nextCursor } items (filled.stage, filled.after) := by
      intro nextCursor closed open_
      rw [page_]
      exact {
        fill := ⟨_, ends.fill⟩
        peers := List.nil_append _
        cidrs := List.nil_append _
        exchanges := List.nil_append _
        revision := counted
        networkId := rfl
        after := ends.after
        most := ends.most
        ends := closed
        goes := open_ }
    by_cases goes : filled.stage < 3
    · rw [if_pos goes] at read
      simp only [bind_ok, pure_ok] at read
      obtain ⟨value, encoded, rfl⟩ := read
      refine paged (some value) (by simp) fun value' same => ?_
      cases same
      refine ⟨goes, ?_, encoded⟩
      have counted : filled.count = 0 + items.length := ends.count
      have some_ := ends.more goes
      exact List.length_pos_iff.mp (by omega)
    · rw [if_neg goes, pure_ok] at read
      have low := ends.low
      have last := paged none (fun _ => by omega) (by simp)
      rw [← read]
      rw [page_] at last ⊢
      exact last
  · exact absurd (done.symm.trans stuck) (by simp)

/-- A position of this revision can be read from, if what comes there fits an empty page. -/
theorem Readable.pageWalk_succeeds {cursorKey : Binary 32} {cursor : Option (List UInt8)}
    {row : PeerRow} {position : Nat × Nat}
    (readable : db.Readable caller (db.allowedPeers row.cidrId)) (small : caller < 2 ^ 64)
    (revision : Number) (counted : revision.val = db.network.visibilityRevision)
    (here : At cursorKey caller db.network.visibilityRevision cursor position)
    (tagged : ∀ data, ∃ tag, Crypto.tag cursorKey data = .ok tag)
    (fits : ∀ item ∈ (db.left caller (db.allowedPeers row.cidrId) position).head?,
      lengths.takes (512, 512) item ≠ none) :
    ∃ page, pageWalk cursorKey lengths caller cursor row db = .ok page := by
  have small' : db.network.visibilityRevision < 2 ^ 64 := by
    have := revision.bounded
    omega
  have began := (pageStart_ok ⟨small, small'⟩).mpr here
  rcases readable.fillPage (s := db.begun revision position) (togo_rounds _) here.low
    (Nat.zero_le _) with ⟨filled, items, done, -⟩ | ⟨-, -, item, first, refused⟩
  · simp only [pageWalk, bind_ok, pq_ok, Number.new_ok]
    by_cases goes : filled.stage < 3
    · obtain ⟨value, encoded⟩ := encodeCursor_succeeds tagged caller
        db.network.visibilityRevision filled.stage filled.after
      refine ⟨{ filled.page with nextCursor := some value }, position, began, revision, counted,
        filled, done, ?_⟩
      rw [if_pos goes, encoded]
      rfl
    · refine ⟨filled.page, position, began, revision, counted, filled, done, ?_⟩
      rw [if_neg goes]
      rfl
  · exact absurd refused (fits item first)

/-! ### What a page shows -/

/-- An exchange that is left is in the mailbox. -/
theorem mem_left {position : Nat × Nat} {other : Nat} {e : Exchange}
    (member : .exchange other e ∈ db.left caller peers position) :
    (other, e) ∈ db.mailbox caller := by
  have here : ∀ after, .exchange other e ∈ db.exchangesLeft caller after →
      (other, e) ∈ db.mailbox caller := by
    intro after there
    obtain ⟨row, taken, same⟩ := List.mem_map.mp there
    obtain ⟨rfl, rfl⟩ := Item.exchange.inj same
    exact (mem_remaining.mp (List.mem_filter.mp taken).1).1
  have peer : ∀ after, .exchange other e ∉ db.peersLeft peers after := by
    intro after there
    obtain ⟨p, -, shown⟩ := List.mem_filterMap.mp there
    obtain ⟨_, -, same⟩ := Option.map_eq_some_iff.mp shown
    cases same
  have cidr : ∀ after, .exchange other e ∉ db.cidrsLeft after := by
    intro after there
    obtain ⟨_, -, same⟩ := List.mem_map.mp there
    cases same
  unfold left at member
  split at member
  · rcases List.mem_append.mp member with first | rest
    · exact absurd first (peer _)
    · exact (List.mem_append.mp rest).elim (fun first => absurd first (cidr 0)) (here 0)
  · exact (List.mem_append.mp member).elim (fun first => absurd first (cidr _)) (here 0)
  · exact here _ member
  · cases member

/-- The peers there are after a position, as they are shown. -/
def states (db : Database) (caller : Nat) (peers : List Nat) (position : Nat × Nat) :
    List PeerState := (db.left caller peers position).filterMap Item.peer?

/-- The records there are after a position. -/
def records (db : Database) (caller : Nat) (peers : List Nat) (position : Nat × Nat) :
    List Exchange := (db.left caller peers position).filterMap Item.exchange?

/-- The scan of the mailbox still comes to the peer. -/
def Ahead (position : Nat × Nat) (other : Nat) : Prop :=
  position.1 < 2 ∨ (position.1 = 2 ∧ position.2 < other)

omit [Native] in
theorem exchangesLeft_records (db : Database) (caller after : Nat) :
    (db.exchangesLeft caller after).filterMap Item.exchange? =
      ((remaining Prod.fst after (db.mailbox caller)).filter fun e =>
        (db.pairAllowed caller e.1).isOk).map Prod.snd := by
  rw [exchangesLeft, List.filterMap_map, ← List.filterMap_eq_map]
  rfl

theorem peersLeft_states (db : Database) (peers : List Nat) (after : Nat) :
    (db.peersLeft peers after).filterMap Item.peer? =
      (remaining id after peers).filterMap fun p => (db.peerState p).toOption := by
  rw [peersLeft, List.filterMap_filterMap]
  refine List.filterMap_congr fun p _ => ?_
  cases (db.peerState p).toOption <;> rfl

theorem records_eq (stage after : Nat) : db.records caller peers (stage, after) =
    if stage ≤ 2 then ((remaining Prod.fst (if stage = 2 then after else 0)
      (db.mailbox caller)).filter fun e => (db.pairAllowed caller e.1).isOk).map Prod.snd
    else [] := by
  have none_of_peers : ∀ after, (db.peersLeft peers after).filterMap Item.exchange? = [] := by
    intro after
    rw [peersLeft, List.filterMap_filterMap, List.filterMap_eq_nil_iff]
    intro p _
    cases (db.peerState p).toOption <;> rfl
  have none_of_cidrs : ∀ after, (db.cidrsLeft after).filterMap Item.exchange? = [] := by
    intro after
    rw [cidrsLeft, List.filterMap_map, List.filterMap_eq_nil_iff]
    exact fun _ _ => rfl
  unfold records left
  split
  · rename_i same
    cases same
    simp [none_of_peers, none_of_cidrs, exchangesLeft_records]
  · rename_i same
    cases same
    simp [none_of_cidrs, exchangesLeft_records]
  · rename_i same
    cases same
    simp [exchangesLeft_records]
  · rename_i first second third
    have late : ¬ stage ≤ 2 := by
      have := first after
      have := second after
      have := third after
      simp_all
      omega
    rw [if_neg late]
    rfl

theorem states_eq (stage after : Nat) : db.states caller peers (stage, after) =
    if stage = 0 then (remaining id after peers).filterMap fun p => (db.peerState p).toOption
    else [] := by
  have none_of_exchanges : ∀ after, (db.exchangesLeft caller after).filterMap Item.peer? = [] := by
    intro after
    rw [exchangesLeft, List.filterMap_map, List.filterMap_eq_nil_iff]
    exact fun _ _ => rfl
  have none_of_cidrs : ∀ after, (db.cidrsLeft after).filterMap Item.peer? = [] := by
    intro after
    rw [cidrsLeft, List.filterMap_map, List.filterMap_eq_nil_iff]
    exact fun _ _ => rfl
  unfold states left
  split
  · rename_i same
    cases same
    simp [none_of_exchanges, none_of_cidrs, peersLeft_states]
  · rename_i same
    cases same
    simp [none_of_exchanges, none_of_cidrs]
  · rename_i same
    cases same
    simp [none_of_exchanges]
  · rename_i first second third
    have late : stage ≠ 0 := fun same => first after (by rw [same])
    rw [if_neg late]
    rfl

/-- A whole walk shows the peers in order, each once. -/
theorem Readable.states_ids (readable : db.Readable caller peers) :
    (db.states caller peers (0, 0)).map PeerState.id = remaining id 0 peers := by
  rw [states_eq, if_pos rfl, List.map_filterMap]
  refine (List.filterMap_congr fun p member => ?_).trans List.filterMap_some
  obtain ⟨state, read⟩ := readable.states p (mem_remaining.mp member).1
  simp [read, Except.toOption, peerState_id read]

theorem mem_states {position : Nat × Nat} {state : PeerState}
    (member : state ∈ db.states caller peers position) : db.peerState state.id = .ok state := by
  obtain ⟨stage, after⟩ := position
  rw [states_eq] at member
  split at member
  · obtain ⟨p, -, read⟩ := List.mem_filterMap.mp member
    rw [toOption_some] at read
    rw [peerState_id read]
    exact read
  · cases member

omit [Native] in
theorem isOk_iff {x : Except ServerError Unit} : x.isOk = true ↔ x = .ok () := by
  cases x <;> simp [Except.isOk, Except.toBool]

theorem Readable.mem_records (readable : db.Readable caller peers) {position : Nat × Nat}
    {e : Exchange} : e ∈ db.records caller peers position ↔
      (e.other caller, e) ∈ db.mailbox caller ∧ db.pairAllowed caller (e.other caller) = .ok () ∧
        Ahead position (e.other caller) := by
  obtain ⟨stage, after⟩ := position
  rw [records_eq]
  constructor
  · intro member
    split at member
    · rename_i low
      obtain ⟨⟨other, r⟩, taken, rfl⟩ := List.mem_map.mp member
      obtain ⟨taken, allowed⟩ := List.mem_filter.mp taken
      obtain ⟨stored, above⟩ := mem_remaining.mp taken
      have named : r.other caller = other := readable.named _ stored
      subst named
      refine ⟨stored, isOk_iff.mp allowed, ?_⟩
      by_cases last : stage = 2
      · rw [if_pos last] at above
        exact .inr ⟨last, above⟩
      · exact .inl (by dsimp only; omega)
    · cases member
  · rintro ⟨stored, allowed, ahead⟩
    have low : stage ≤ 2 := by
      rcases ahead with less | ⟨last, -⟩
      · exact Nat.le_of_lt less
      · exact last.le
    rw [if_pos low]
    refine List.mem_map.mpr ⟨(e.other caller, e), List.mem_filter.mpr ⟨?_, isOk_iff.mpr allowed⟩,
      rfl⟩
    refine mem_remaining.mpr ⟨stored, ?_⟩
    split
    · rename_i last
      rcases ahead with less | ⟨-, above⟩
      · exact absurd last (Nat.ne_of_lt less)
      · exact above
    · exact (pairAllowed_iff.mp allowed).2.1

theorem Readable.records_ascending (readable : db.Readable caller peers) (position : Nat × Nat) :
    Ascending (fun e => e.other caller) (db.records caller peers position) := by
  obtain ⟨stage, after⟩ := position
  rw [records_eq]
  split
  · rw [Ascending, List.pairwise_map]
    have sorted := (remaining_ascending (if stage = 2 then after else 0) readable.single).filter
      fun e => (db.pairAllowed caller e.1).isOk
    refine sorted.imp_of_mem fun first second less => ?_
    have here := readable.named _ (mem_remaining.mp (List.mem_filter.mp first).1).1
    have there := readable.named _ (mem_remaining.mp (List.mem_filter.mp second).1).1
    rw [here, there]
    exact less
  · exact .nil

/-- What a page shows, and what is left to show. -/
theorem Paged.shares {cursorKey : Binary 32} {position next : Nat × Nat} {page : Page}
    {items : List Item}
    (paged : Paged db cursorKey lengths caller peers position page items next) :
    page.peers ++ db.states caller peers next = db.states caller peers position ∧
      page.exchanges ++ db.records caller peers next = db.records caller peers position := by
  obtain ⟨used, filled⟩ := paged.fill
  have split : (Paging.fill lengths.takes 32 (512, 512) (db.left caller peers position)).1 ++
      (Paging.fill lengths.takes 32 (512, 512) (db.left caller peers position)).2.1 =
        db.left caller peers position := fill_append
  rw [filled] at split
  rw [paged.peers, paged.exchanges, states, states, records, records, ← List.filterMap_append,
    ← List.filterMap_append, split]
  exact ⟨rfl, rfl⟩

omit [Native] in
theorem most_le (position : Nat × Nat) : db.most peers position ≤ db.most peers (0, 0) := by
  have whole : db.most peers (0, 0) =
    (remaining id 0 peers).length + (db.cidrRows.length + peers.length) := rfl
  rw [whole]
  unfold most
  split
  · rename_i after
    have fewer : (remaining id after peers).length ≤ (remaining id 0 peers).length :=
      remaining_fewer (Nat.zero_le after)
    omega
  · rename_i after
    have fewer := remaining_length Prod.fst after db.cidrRows
    omega
  · rename_i after
    have fewer := remaining_length id after peers
    omega
  · omega

end Database

/-! ### How long a page gets -/

/-- What a page weighs against its first limit. -/
def Page.pqBytes (page : Page) : Nat :=
  ((page.peers.map fun state => (Item.peer state).pqSize) ++
    page.exchanges.map fun e : Exchange => e.json.length).sum

/-- What a page weighs against its second limit. -/
def Page.bytes (page : Page) (lengths : JsonLengths) : Nat :=
  ((page.peers.map fun state => lengths.peer state + 1) ++
    (page.cidrs.map fun row => lengths.cidr row + 1) ++
    page.exchanges.map fun e : Exchange => e.json.length + 1).sum

def Page.count (page : Page) : Nat :=
  page.peers.length + page.cidrs.length + page.exchanges.length

theorem JsonLengths.takes_some {lengths : JsonLengths} {used used' : Nat × Nat} {item : Item}
    (taken : lengths.takes used item = some used') :
    used' = (used.1 + item.pqSize, used.2 + item.size lengths) ∧ used'.1 ≤ 128 * 1024 ∧
      used'.2 ≤ 1024 * 1024 := by
  unfold JsonLengths.takes at taken
  split at taken
  · cases taken
  · cases taken
    refine ⟨rfl, ?_⟩
    dsimp only
    omega

/-- A sum over objects, kind by kind. -/
theorem Item.sum_shares (weight : Item → Nat) (record : Exchange → Nat)
    (same : ∀ other e, weight (.exchange other e) = record e) (items : List Item) :
    (items.map weight).sum = ((items.filterMap Item.peer?).map fun state => weight (.peer state)).sum +
      ((items.filterMap Item.cidr?).map fun row => weight (.cidr row)).sum +
      ((items.filterMap Item.exchange?).map record).sum := by
  induction items with
  | nil => rfl
  | cons item items ih =>
    cases item <;> simp [List.filterMap_cons, Item.peer?, Item.cidr?, Item.exchange?, same, ih] <;>
      omega

namespace Database.Paged

variable [Native] {db : Database} {cursorKey : Binary 32} {lengths : JsonLengths} {id : Nat}
  {allowed : List Nat} {position next : Nat × Nat} {page : Page} {items : List Item}

theorem count (paged : Paged db cursorKey lengths id allowed position page items next) :
    page.count = items.length := by
  have shares := Item.sum_shares (fun _ => 1) (fun _ => 1) (fun _ _ => rfl) items
  simp only [List.map_const', List.sum_replicate_nat, Nat.mul_one] at shares
  rw [Page.count, paged.peers, paged.cidrs, paged.exchanges, shares]

/-- A page is within its limits. -/
theorem bounded (paged : Paged db cursorKey lengths id allowed position page items next) :
    page.count ≤ 32 ∧ 512 + page.pqBytes ≤ 128 * 1024 ∧ 512 + page.bytes lengths ≤ 1024 * 1024 := by
  obtain ⟨used, filled⟩ := paged.fill
  have taken := congrArg Prod.fst filled
  have left := congrArg (fun f => f.2.2) filled
  dsimp only at taken left
  have few : (Paging.fill lengths.takes 32 (512, 512) (db.left id allowed position)).1.length ≤ 32 :=
    fill_length
  have room : used.1 ≤ 128 * 1024 ∧ used.2 ≤ 1024 * 1024 := by
    rw [← left]
    refine fill_room (P := fun used => used.1 ≤ 128 * 1024 ∧ used.2 ≤ 1024 * 1024) ?_
      fun _ _ _ _ taken => (JsonLengths.takes_some taken).2
    decide
  have first : used.1 = 512 + (items.map Item.pqSize).sum := by
    rw [← left, ← taken]
    exact fill_sum fun _ _ _ taken => congrArg Prod.fst (JsonLengths.takes_some taken).1
  have second : used.2 = 512 + (items.map (Item.size lengths)).sum := by
    rw [← left, ← taken]
    exact fill_sum fun _ _ _ taken => congrArg Prod.snd (JsonLengths.takes_some taken).1
  have pq := Item.sum_shares Item.pqSize (fun e => e.json.length) (fun _ _ => rfl) items
  have all := Item.sum_shares (Item.size lengths) (fun e => e.json.length + 1) (fun _ _ => rfl) items
  refine ⟨?_, ?_, ?_⟩
  · rw [paged.count, ← taken]
    exact few
  · rw [Page.pqBytes, List.sum_append, paged.peers, paged.exchanges]
    simp only [Item.pqSize, List.map_const', List.sum_replicate_nat, Nat.mul_zero] at pq first ⊢
    omega
  · rw [Page.bytes, List.sum_append, List.sum_append, paged.peers, paged.cidrs, paged.exchanges]
    simp only [Item.size] at all second ⊢
    omega

end Database.Paged

end Innernet
