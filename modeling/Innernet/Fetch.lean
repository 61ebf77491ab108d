import Innernet.Arithmetic
import Innernet.Server.Directory
import Innernet.Server.Fitting

/-! `fetch_state` of `client-core/src/pq_sync.rs`: a client reads the directory and its mailbox page
by page, while the server goes on serving others. -/
namespace Innernet

open Fallible Tables Paging Runs

/-- `From<&ServerError> for StatusCode`. -/
def ServerError.status : ServerError → Nat
  | .unauthorized => 401
  | .notFound | .noRows => 404
  | .gone => 410
  | .conflict | .pq .conflict => 409
  | .rateLimited => 429
  | .unavailable | .pq .random => 503
  | .pq _ | .invalidQuery | .constraint => 400

inductive TransportError where
  | conflict
  | other
  deriving DecidableEq

/-- `rest_error`. -/
def restError (e : ServerError) : TransportError := if e.status = 409 then .conflict else .other

/-- Who fetches, and what the server makes pages with. -/
structure Reader where
  cursorKey : Binary 32
  lengths : JsonLengths
  id : Nat
  key : String

/-- The server, the variables of the loop and what it has returned. -/
structure Fetch where
  server : Database
  peers : List PeerState
  exchanges : List Exchange
  cursor : Option (List UInt8)
  returned : Option (Except TransportError (List PeerState × List Exchange))

namespace Fetch

/-- `round` is one round of the loop, with the server's clock and whether the reply arrives; `serve`
is anything else the server does. -/
inductive Event where
  | serve (op : Operation)
  | round (now : Nat) (arrives : Bool)

def begun (server : Database) : Fetch where
  server
  peers := []
  exchanges := []
  cursor := none
  returned := none

variable [Native]

/-- `get_state`. -/
def getState (t : Fetch) (r : Reader) (now : Nat) (arrives : Bool) :
    Except TransportError Page × Database :=
  match t.server.statePage r.cursorKey r.lengths r.id r.key now t.cursor with
  | (.ok page, server) => (if arrives then .ok page else .error .other, server)
  | (.error e, server) => (.error (if arrives then restError e else .other), server)

def next (t : Fetch) (r : Reader) : Event → Fetch
  | .serve op => { t with server := op.apply t.server }
  | .round now arrives =>
    match t.getState r now arrives with
    | (.ok page, server) =>
      let peers := t.peers ++ page.peers
      let exchanges := t.exchanges ++ page.exchanges
      match page.nextCursor with
      | some value => { t with server, peers, exchanges, cursor := some value }
      | none => { t with server, peers, exchanges, returned := some (.ok (peers, exchanges)) }
    | (.error .conflict, server) => { t with server, peers := [], exchanges := [], cursor := none }
    | (.error .other, server) => { t with server, returned := some (.error .other) }

/-- The loop goes on until it returns. -/
def Step (r : Reader) (t : Fetch) (e : Event) (t' : Fetch) : Prop :=
  t.returned = none ∧ t' = t.next r e

end Fetch

section Serving

variable [Native] {db db' : Database} {r : Reader} {now : Nat} {cursor : Option (List UInt8)}

/-- What a page leaves on the server is what the operation leaves. -/
theorem statePage_apply (db : Database) (r : Reader) (now : Nat) (cursor : Option (List UInt8)) :
    ∃ walk, (db.statePage r.cursorKey r.lengths r.id r.key now cursor).2 =
      (Operation.page r.id r.key now walk).apply db := by
  refine ⟨fun caller swept => (Database.pageWalk r.cursorKey r.lengths r.id cursor caller swept).map
    fun _ => (), ?_⟩
  change (db.page r.id r.key now _).2 = (db.page r.id r.key now _).2
  unfold Database.page
  cases require (db.ready = true) ServerError.unavailable with
  | error => rfl
  | ok =>
    cases db.caller r.id r.key with
    | error => rfl
    | ok row =>
      cases db.sweepInner now with
      | error => rfl
      | ok swept =>
        simp only [bind, Except.bind]
        cases Database.pageWalk r.cursorKey r.lengths r.id cursor row swept <;> rfl

theorem statePage_ok {page : Page}
    (read : db.statePage r.cursorKey r.lengths r.id r.key now cursor = (.ok page, db')) :
    ∃ row, db.peers.lookup r.id = some row ∧ db.sweepInner now = .ok db' ∧
      Database.pageWalk r.cursorKey r.lengths r.id cursor row db' = .ok page := by
  unfold Database.statePage Database.page at read
  dsimp only at read
  split at read
  · cases read
  · rename_i result swept accepted
    cases read
    simp only [Database.caller, bind_ok, pure_ok, Prod.mk.injEq] at accepted
    obtain ⟨_, _, row, ⟨_, found, _, _, rfl⟩, _, sweep, _, walked, rfl, rfl⟩ := accepted
    refine ⟨_, ?_, sweep, walked⟩
    unfold Database.getPeer at found
    split at found <;> cases found
    assumption

/-- A caller that may read gets what its walk comes to. -/
theorem statePage_walk {row : PeerRow} {swept : Database} (ready : db.ready = true)
    (called : db.caller r.id r.key = .ok row) (sweep : db.sweepInner now = .ok swept) :
    db.statePage r.cursorKey r.lengths r.id r.key now cursor =
      match Database.pageWalk r.cursorKey r.lengths r.id cursor row swept with
      | .ok page => (.ok page, swept)
      | .error e => (.error e, db) := by
  unfold Database.statePage Database.page
  rw [require, if_pos ready, called, sweep]
  simp only [bind, Except.bind, pure, Except.pure]
  cases Database.pageWalk r.cursorKey r.lengths r.id cursor row swept <;> rfl

/-- What every run of the server keeps, as far as pages need it. -/
structure Database.Served (db : Database) : Prop where
  sound : db.Sound
  bound : db.Bound
  tallied : db.view.Tallied
  explained : db.Explained

theorem Database.Served.apply (served : db.Served) (op : Operation) : (op.apply db).Served where
  sound := (op.reaches served.sound).sound
  bound := served.bound.apply served.sound op
  tallied := by
    obtain ⟨ms, run, -⟩ := (op.reaches served.sound).run
    exact Ledger.Run.tallied served.sound.ledger served.tallied run
  explained := op.explained served.sound served.explained

theorem Database.Unused.served (unused : db.Unused) : db.Served := by
  have empty : ∀ k, db.view.record k = none := by
    intro k
    rw [Database.view_none, unused.exchanges]
    rfl
  refine ⟨unused.sound, fun p a found => ?_, fun k r found => ?_, fun k r found => ?_⟩
  · change db.bundles.lookup p = some a at found
    rw [unused.bundles] at found
    cases found
  · rw [empty] at found
    cases found
  · rw [empty] at found
    cases found

/-- A page is made of the tables as they are then, at the position its cursor stands for. -/
theorem Database.Served.paged (served : db.Served) {page : Page}
    (read : db.statePage r.cursorKey r.lengths r.id r.key now cursor = (.ok page, db')) :
    ∃ row position items next, db'.Served ∧ db'.peers.lookup r.id = some row ∧ db.Holds db' ∧
      db'.network.visibilityRevision = db.network.visibilityRevision ∧
      pageStart r.cursorKey r.id db'.network.visibilityRevision cursor = .ok position ∧
      Database.Paged db' r.cursorKey r.lengths r.id (db'.allowedPeers row.cidrId) position page
        items next := by
  obtain ⟨row, found, sweep, walk⟩ := statePage_ok read
  obtain ⟨walk', left⟩ := statePage_apply db r now cursor
  have served' : db'.Served := by
    rw [read] at left
    rw [show db' = _ from left]
    exact served.apply _
  obtain ⟨-, only, -⟩ := Database.sweepInner_ok served.sound sweep
  have same : db'.network.visibilityRevision = db.network.visibilityRevision := by rw [only]
  have holds := (Database.sweepInner_steady served.sound sweep).holds same
  have found' : db'.peers.lookup r.id = some row := by
    rw [holds.directory.peers]
    exact found
  obtain ⟨position, items, next, began, paged⟩ :=
    (served'.sound.readable served'.bound found').pageWalk_ok walk
  exact ⟨row, position, items, next, served', found', holds, same, began, paged⟩

theorem run_served {ops : List (Move Database Operation)} (served : db.Served)
    (run : Run Operation.Step db ops db') : db'.Served :=
  run.invariant served fun _ op _ held taken => taken ▸ held.apply op

/-- Whatever the server has done, a page it answers with is within its limits, and only the last
page of a walk can be empty. -/
theorem statePage_bounded {db₀ : Database} {ops : List (Move Database Operation)} {page : Page}
    (unused : db₀.Unused) (run : Run Operation.Step db₀ ops db)
    (read : db.statePage r.cursorKey r.lengths r.id r.key now cursor = (.ok page, db')) :
    page.count ≤ 32 ∧ 512 + page.pqBytes ≤ 128 * 1024 ∧
      512 + page.bytes r.lengths ≤ 1024 * 1024 ∧ (page.count = 0 → page.nextCursor = none) := by
  obtain ⟨row, position, items, next, -, -, -, -, -, paged⟩ := (run_served unused.served run).paged read
  obtain ⟨few, pq, all⟩ := paged.bounded
  refine ⟨few, pq, all, fun empty => ?_⟩
  rw [paged.count] at empty
  cases cursor : page.nextCursor with
  | none => rfl
  | some value => exact absurd (List.length_eq_zero_iff.mp empty) (paged.goes value cursor).2.1

end Serving

namespace Fetch

variable [Native] {t t' : Fetch} {r : Reader}

/-- Whatever happens, the server has done one operation. -/
theorem next_server (t : Fetch) (r : Reader) (e : Event) :
    ∃ op : Operation, (t.next r e).server = op.apply t.server := by
  cases e with
  | serve op => exact ⟨op, rfl⟩
  | round now arrives =>
    obtain ⟨walk, same⟩ := statePage_apply t.server r now t.cursor
    refine ⟨.page r.id r.key now walk, ?_⟩
    rw [← same]
    have left : (t.getState r now arrives).2 =
        (t.server.statePage r.cursorKey r.lengths r.id r.key now t.cursor).2 := by
      unfold getState
      split <;> simp_all
    rw [← left, next]
    split
    · split <;> simp_all
    · simp_all
    · simp_all

/-- The four things a round comes to. -/
inductive Outcome (t : Fetch) (r : Reader) (now : Nat) (arrives : Bool) : Fetch → Prop where
  | more {page : Page} {server : Database} {value : List UInt8} :
      t.server.statePage r.cursorKey r.lengths r.id r.key now t.cursor = (.ok page, server) →
      page.nextCursor = some value → Outcome t r now arrives { t with
        server
        peers := t.peers ++ page.peers
        exchanges := t.exchanges ++ page.exchanges
        cursor := some value }
  | last {page : Page} {server : Database} :
      t.server.statePage r.cursorKey r.lengths r.id r.key now t.cursor = (.ok page, server) →
      page.nextCursor = none → Outcome t r now arrives { t with
        server
        peers := t.peers ++ page.peers
        exchanges := t.exchanges ++ page.exchanges
        returned := some (.ok (t.peers ++ page.peers, t.exchanges ++ page.exchanges)) }
  | restarts {e : ServerError} {server : Database} :
      t.server.statePage r.cursorKey r.lengths r.id r.key now t.cursor = (.error e, server) →
      e.status = 409 →
      Outcome t r now arrives { t with server, peers := [], exchanges := [], cursor := none }
  | fails {server : Database} :
      (arrives = true → ∃ e, t.server.statePage r.cursorKey r.lengths r.id r.key now t.cursor =
        (.error e, server) ∧ e.status ≠ 409) →
      Outcome t r now arrives { t with server, returned := some (.error .other) }

theorem next_round (t : Fetch) (r : Reader) (now : Nat) (arrives : Bool) :
    Outcome t r now arrives (t.next r (.round now arrives)) := by
  generalize got : t.server.statePage r.cursorKey r.lengths r.id r.key now t.cursor = reply
  obtain ⟨reply, server⟩ := reply
  cases arrives with
  | false =>
    have lost : t.getState r now false = (.error .other, server) := by
      unfold getState
      rw [got]
      cases reply <;> rfl
    rw [next, lost]
    exact .fails nofun
  | true =>
    cases reply with
    | ok page =>
      have read : t.getState r now true = (.ok page, server) := by
        unfold getState
        rw [got]
        rfl
      rw [next, read]
      dsimp only
      cases cursor : page.nextCursor with
      | some value => exact .more got cursor
      | none => exact .last got cursor
    | error e =>
      have refused : t.getState r now true = (.error (restError e), server) := by
        unfold getState
        rw [got]
        rfl
      rw [next, refused, restError]
      by_cases conflict : e.status = 409
      · rw [if_pos conflict]
        exact .restarts got conflict
      · rw [if_neg conflict]
        exact .fails fun _ => ⟨e, got, conflict⟩

/-- A round that reads the first page of a walk. -/
def Begins (m : Move Fetch Event) : Prop :=
  m.before.cursor = none ∧ ∃ now arrives, m.label = .round now arrives

/-- The server has been at this revision after the move. -/
def During (server : Database) (m : Move Fetch Event) : Prop :=
  m.after.server.network.visibilityRevision = server.network.visibilityRevision

/-- What has been read of a server when the walk goes on from a position. -/
structure Collected (r : Reader) (ms : List (Move Fetch Event)) (server : Database) (row : PeerRow)
    (position : Nat × Nat) (peers : List PeerState) (exchanges : List Exchange) : Prop where
  found : server.peers.lookup r.id = some row
  shown : peers ++ server.states r.id (server.allowedPeers row.cidrId) position =
    server.states r.id (server.allowedPeers row.cidrId) (0, 0)
  ascending : Ascending (fun e => e.other r.id) exchanges
  passed : ∀ e ∈ exchanges, ¬ Database.Ahead position (e.other r.id)
  stored : ∀ e ∈ exchanges, e.key.involves r.id ∧
    server.pairAllowed r.id (e.other r.id) = .ok () ∧ server.view.record e.key ≠ none ∧
    ∃ m ∈ ms, During server m ∧ m.after.server.view.record e.key = some e
  since : ∃ m ∈ ms, Begins m ∧ During server m ∧
    ∀ k, m.after.server.view.record k ≠ none → server.view.record k ≠ none ∧
      (k.involves r.id → server.pairAllowed r.id (k.other r.id) = .ok () →
        Database.Ahead position (k.other r.id) ∨ ∃ e ∈ exchanges, e.key = k)

section Collecting

variable {ms ms' : List (Move Fetch Event)} {db db' : Database} {row : PeerRow}
  {position next : Nat × Nat} {peers : List PeerState} {exchanges : List Exchange}

/-- A walk begins with what the server holds then. -/
theorem Collected.fresh (found : db.peers.lookup r.id = some row)
    (here : ∃ m ∈ ms, Begins m ∧ m.after.server = db) : Collected r ms db row (0, 0) [] [] where
  found := found
  shown := rfl
  ascending := .nil
  passed _ member := absurd member List.not_mem_nil
  stored _ member := absurd member List.not_mem_nil
  since := by
    obtain ⟨m, member, begins, rfl⟩ := here
    exact ⟨m, member, begins, rfl, fun k stored => ⟨stored, fun _ _ => .inl (.inl (by decide))⟩⟩

/-- What has been read stays right while the revision does. -/
theorem Collected.transfer (collected : Collected r ms db row position peers exchanges)
    (holds : db.Holds db')
    (same : db'.network.visibilityRevision = db.network.visibilityRevision)
    (more : ∀ m ∈ ms, m ∈ ms') : Collected r ms' db' row position peers exchanges where
  found := by
    rw [holds.directory.peers]
    exact collected.found
  shown := by
    rw [holds.allowedPeers, holds.states, holds.states]
    exact collected.shown
  ascending := collected.ascending
  passed := collected.passed
  stored e member := by
    obtain ⟨involved, allowed, there, m, past, revision, seen⟩ := collected.stored e member
    exact ⟨involved, (holds.pairAllowed _ _).mpr allowed, holds.rows _ there, m, more m past,
      revision.trans same.symm, seen⟩
  since := by
    obtain ⟨m, past, begins, revision, kept⟩ := collected.since
    refine ⟨m, more m past, begins, revision.trans same.symm, fun k there => ?_⟩
    obtain ⟨still, comes⟩ := kept k there
    exact ⟨holds.rows k still, fun involved allowed =>
      comes involved ((holds.pairAllowed _ _).mp allowed)⟩

/-- A page takes the walk on. -/
theorem Collected.page {page : Page} {items : List Item} (served : db.Served)
    (collected : Collected r ms db row position peers exchanges)
    (paged : Database.Paged db r.cursorKey r.lengths r.id (db.allowedPeers row.cidrId) position page
      items next) (here : ∃ m ∈ ms, m.after.server = db) :
    Collected r ms db row next (peers ++ page.peers) (exchanges ++ page.exchanges) := by
  obtain ⟨states, records⟩ := paged.shares
  have mem : ∀ {position : Nat × Nat} {e : Exchange},
      e ∈ db.records r.id (db.allowedPeers row.cidrId) position ↔
        db.view.record e.key = some e ∧ e.key.involves r.id ∧
          db.pairAllowed r.id (e.other r.id) = .ok () ∧ Database.Ahead position (e.other r.id) :=
    served.sound.mem_records served.bound collected.found
  have sorted := (served.sound.readable served.bound collected.found).records_ascending position
  rw [← records, Ascending, List.pairwise_append] at sorted
  obtain ⟨within, -, apart⟩ := sorted
  have read : ∀ e ∈ page.exchanges, e ∈ db.records r.id (db.allowedPeers row.cidrId) position :=
    fun e member => records ▸ List.mem_append_left _ member
  have later : ∀ e, e ∈ db.records r.id (db.allowedPeers row.cidrId) next →
      e ∈ db.records r.id (db.allowedPeers row.cidrId) position :=
    fun e member => records ▸ List.mem_append_right _ member
  refine ⟨collected.found, ?_, ?_, ?_, ?_, ?_⟩
  · rw [List.append_assoc, states]
    exact collected.shown
  · rw [Ascending, List.pairwise_append]
    refine ⟨collected.ascending, within, fun e old e' new => ?_⟩
    -- the scan had passed the one and still comes to the other
    have behind := collected.passed e old
    have ahead := (mem.mp (read e' new)).2.2.2
    simp only [Database.Ahead] at behind ahead
    omega
  · intro e member ahead
    rcases List.mem_append.mp member with old | new
    · obtain ⟨involved, allowed, there, -⟩ := collected.stored e old
      obtain ⟨e', record⟩ := Option.ne_none_iff_exists'.mp there
      have key := served.sound.ledger.key _ e' record
      have same : e'.other r.id = e.other r.id := by rw [Exchange.other, key, Exchange.other]
      rw [← same] at allowed ahead
      have again := later e' (mem.mpr ⟨key ▸ record, key ▸ involved, allowed, ahead⟩)
      exact collected.passed e old (same ▸ (mem.mp again).2.2.2)
    · obtain ⟨record, involved, allowed, -⟩ := mem.mp (read e new)
      exact Nat.lt_irrefl _ (apart e new e (mem.mpr ⟨record, involved, allowed, ahead⟩))
  · intro e member
    rcases List.mem_append.mp member with old | new
    · exact collected.stored e old
    · obtain ⟨record, involved, allowed, -⟩ := mem.mp (read e new)
      obtain ⟨m, past, rfl⟩ := here
      exact ⟨involved, allowed, by rw [record]; exact Option.some_ne_none e, m, past, rfl, record⟩
  · obtain ⟨m, past, begins, revision, kept⟩ := collected.since
    refine ⟨m, past, begins, revision, fun k there => ?_⟩
    obtain ⟨still, comes⟩ := kept k there
    refine ⟨still, fun involved allowed => ?_⟩
    rcases comes involved allowed with ahead | ⟨e, old, same⟩
    · obtain ⟨e, record⟩ := Option.ne_none_iff_exists'.mp still
      obtain rfl := served.sound.ledger.key k e record
      have comes := mem.mpr ⟨record, involved, allowed, ahead⟩
      rw [← records, List.mem_append] at comes
      rcases comes with new | left
      · exact .inr ⟨e, List.mem_append_right _ new, rfl⟩
      · exact .inl (mem.mp left).2.2.2
    · exact .inr ⟨e, List.mem_append_left _ old, same⟩

end Collecting

/-- What holds of the loop at every moment. -/
structure Reads (r : Reader) (ms : List (Move Fetch Event)) (t : Fetch) : Prop where
  served : t.server.Served
  fresh : t.returned = none → t.cursor = none → t.peers = [] ∧ t.exchanges = []
  going : t.returned = none → ∀ value, t.cursor = some value → ∃ revision stage after,
    encodeCursor r.cursorKey r.id revision stage after = .ok value ∧ revision < 2 ^ 63 ∧ stage < 3 ∧
    revision ≤ t.server.network.visibilityRevision ∧
    (t.server.network.visibilityRevision = revision → t.server.Small → after < 2 ^ 63 ∧
      ∃ row, Collected r ms t.server row (stage, after) t.peers t.exchanges)
  ends : ∀ peers exchanges, t.returned = some (.ok (peers, exchanges)) → t.server.Small →
    ∃ row after, Collected r ms t.server row (3, after) peers exchanges

section Rounds

variable {ms : List (Move Fetch Event)} {now : Nat} {arrives : Bool}

/-- A page takes what has been read on. -/
theorem Reads.page (reads : Reads r ms t) (open_ : t.returned = none) {page : Page}
    {server : Database}
    (read : t.server.statePage r.cursorKey r.lengths r.id r.key now t.cursor = (.ok page, server)) :
    ∃ row position items next, server.network.visibilityRevision < 2 ^ 63 ∧
      Database.Paged server r.cursorKey r.lengths r.id (server.allowedPeers row.cidrId) position page
        items next ∧
      (server.Small → next.2 < 2 ^ 63 ∧ ∀ t', t'.server = server →
        Collected r (ms ++ [⟨t, .round now arrives, t'⟩]) server row next (t.peers ++ page.peers)
          (t.exchanges ++ page.exchanges)) := by
  obtain ⟨row, position, items, next, served, found, holds, same, began, paged⟩ := reads.served.paged read
  have bounded := paged.revision ▸ page.visibilityRevision.bounded
  refine ⟨row, position, items, next, bounded, paged, fun small => ?_⟩
  have mine : r.id < 2 ^ 63 :=
    small.peers r.id (AList.mem_keys.mpr (AList.lookup_isSome.mp (by rw [found]; rfl)))
  have at_ := (pageStart_ok ⟨by omega, by omega⟩).mp began
  have last : ∀ t', ⟨t, .round now arrives, t'⟩ ∈ ms ++ [(⟨t, .round now arrives, t'⟩ : Move Fetch _)] :=
    fun t' => List.mem_append_right _ (List.mem_singleton_self _)
  have collected : position.2 < 2 ^ 63 ∧ ∀ t', t'.server = server →
      Collected r (ms ++ [⟨t, .round now arrives, t'⟩]) server row position t.peers t.exchanges := by
    cases cursor : t.cursor with
    | none =>
      rw [cursor] at at_
      obtain ⟨noPeers, noExchanges⟩ := reads.fresh open_ cursor
      cases (at_ : position = (0, 0))
      rw [noPeers, noExchanges]
      exact ⟨by decide, fun t' here =>
        .fresh found ⟨_, last t', ⟨cursor, now, arrives, rfl⟩, here⟩⟩
    | some value =>
      rw [cursor] at at_
      obtain ⟨stage', after'⟩ := position
      obtain ⟨low', below, made'⟩ := at_
      obtain ⟨revision, stage, after, made, counted, low, -, collected⟩ :=
        reads.going open_ value cursor
      obtain ⟨-, second, third, fourth⟩ := encodeCursor_injective made made'
      rw [Nat.mod_eq_of_lt (by omega), Nat.mod_eq_of_lt (by omega)] at second third
      obtain ⟨below', row', collected⟩ := collected (same ▸ second.symm) (holds.small.mp small)
      rw [Nat.mod_eq_of_lt (by omega), Nat.mod_eq_of_lt (by omega)] at fourth
      have found' := collected.found
      rw [← holds.directory.peers] at found'
      cases Option.some.inj (found.symm.trans found')
      subst third fourth
      exact ⟨below, fun _ _ => collected.transfer holds same fun m past =>
        List.mem_append_left _ past⟩
  have ids : ∀ id ∈ server.ids r.id (server.allowedPeers row.cidrId), id < 2 ^ 63 :=
    served.sound.small_ids small
  refine ⟨?_, fun t' here => (collected.2 t' here).page served paged ⟨_, last t', here⟩⟩
  have after := paged.after
  simp only [List.mem_cons] at after
  rcases after with same | zero | known
  · exact same ▸ collected.1
  · rw [zero]
    decide
  · exact ids _ known

/-- Whatever else the server does between two calls is noticed, or changes nothing that was read. -/
theorem Reads.serve (reads : Reads r ms t) (open_ : t.returned = none) (op : Operation)
    (more : List (Move Fetch Event)) : Reads r (ms ++ more) { t with server := op.apply t.server } where
  served := reads.served.apply op
  fresh := reads.fresh
  going _ value cursor := by
    obtain ⟨revision, stage, after, made, counted, low, past, collected⟩ :=
      reads.going open_ value cursor
    have steady := op.steady reads.served.sound
    refine ⟨revision, stage, after, made, counted, low, past.trans steady.counted, fun here small => ?_⟩
    have here : (op.apply t.server).network.visibilityRevision = revision := here
    have counts := steady.counted
    have same : t.server.network.visibilityRevision = revision := by omega
    have holds := steady.holds (here.trans same.symm)
    obtain ⟨below, row, collected⟩ := collected same (holds.small.mp small)
    exact ⟨below, row, collected.transfer holds (here.trans same.symm) fun m past =>
      List.mem_append_left _ past⟩
  ends peers exchanges returned := by
    rw [open_] at returned
    cases returned

theorem Reads.step (reads : Reads r ms t) {e : Event} (step : Step r t e t') :
    Reads r (ms ++ [⟨t, e, t'⟩]) t' := by
  obtain ⟨open_, rfl⟩ := step
  cases e with
  | serve op => exact reads.serve open_ op _
  | round now arrives =>
    have served : (t.next r (.round now arrives)).server.Served := by
      obtain ⟨op, same⟩ := t.next_server r (.round now arrives)
      exact same ▸ reads.served.apply op
    have outcome := t.next_round r now arrives
    generalize t.next r (.round now arrives) = t' at served outcome
    cases outcome with
    | @more page server value got cursor =>
      obtain ⟨row, position, items, next, bounded, paged, collected⟩ := reads.page open_ got
      obtain ⟨low, -, made⟩ := paged.goes value cursor
      refine ⟨served, fun _ none_ => ?_, fun _ value' same => ?_, fun _ _ returned => ?_⟩
      · cases none_
      · cases same
        exact ⟨_, next.1, next.2, made, bounded, low, le_rfl, fun _ small =>
          ⟨(collected small).1, row, (collected small).2 _ rfl⟩⟩
      · rw [open_] at returned
        cases returned
    | @last page server got cursor =>
      obtain ⟨row, position, items, next, -, paged, collected⟩ := reads.page open_ got
      refine ⟨served, nofun, nofun, fun peers exchanges returned small => ?_⟩
      obtain ⟨rfl, rfl⟩ := Prod.mk.inj (Except.ok.inj (Option.some.inj returned))
      have ended := paged.ends cursor
      refine ⟨row, next.2, ?_⟩
      rw [← ended]
      exact (collected small).2 _ rfl
    | restarts got conflict =>
      refine ⟨served, fun _ _ => ⟨rfl, rfl⟩, fun _ _ => nofun, fun _ _ returned => ?_⟩
      rw [open_] at returned
      cases returned
    | fails => exact ⟨served, nofun, nofun, fun _ _ => nofun⟩

end Rounds

section Ending

/-- No object is too long for a page, and cursors can be made. -/
structure Fits (r : Reader) : Prop where
  peers : ∀ state, r.lengths.peer state ≤ 1024 * 1024 - 513
  cidrs : ∀ row, r.lengths.cidr row ≤ 1024 * 1024 - 513
  tagged : ∀ data, ∃ tag, Crypto.tag r.cursorKey data = .ok tag

/-- The server answers the reader. -/
structure Answers (r : Reader) (server : Database) : Prop where
  ready : server.ready = true
  caller : ∃ row, server.caller r.id r.key = .ok row
  small : server.Small
  counted : 0 < server.network.visibilityRevision ∧ server.network.visibilityRevision < 2 ^ 63

/-- Whatever there is fits on an empty page. -/
theorem Fits.takes (fits : Fits r) {db : Database} (served : db.Served) {peers : List Nat}
    {position : Nat × Nat} {item : Item} (member : item ∈ db.left r.id peers position) :
    r.lengths.takes (512, 512) item ≠ none := by
  have small : item.pqSize ≤ 128 * 1024 - 512 ∧ item.size r.lengths ≤ 1024 * 1024 - 512 := by
    cases item with
    | peer state =>
      have size := fits.peers state
      refine ⟨?_, show r.lengths.peer state + 1 ≤ _ by omega⟩
      change (state.pq.map fun a => a.value.render.length).getD 0 + 64 ≤ _
      cases state.pq with
      | none => decide
      | some a =>
        have length := advertised_length a
        simp only [Option.map_some, Option.getD_some]
        omega
    | cidr row =>
      have size := fits.cidrs row
      exact ⟨Nat.zero_le _, show r.lengths.cidr row + 1 ≤ _ by omega⟩
    | exchange other e =>
      obtain ⟨k, record, -⟩ := Database.mem_mailbox.mp (Database.mem_left member)
      have length := (Exchange.fits (served.sound.ledger.formed k e record)
        (served.tallied k e record) (served.explained k e record)).1.length
      exact ⟨show e.json.length ≤ _ by omega, show e.json.length + 1 ≤ _ by omega⟩
  unfold JsonLengths.takes
  rw [if_neg (by dsimp only; omega)]
  exact Option.some_ne_none _

/-- What a reader's call starts from. -/
theorem Answers.swept {db : Database} (answers : Answers r db) (served : db.Served) {now : Nat}
    (soon : now < 2 ^ 63) : ∃ row swept, db.caller r.id r.key = .ok row ∧
      db.sweepInner now = .ok swept ∧ swept.Served ∧ swept.peers.lookup r.id = some row ∧
      swept.network.visibilityRevision = db.network.visibilityRevision ∧ r.id < 2 ^ 63 := by
  obtain ⟨row, called⟩ := answers.caller
  obtain ⟨swept, sweep⟩ := Database.sweepInner_succeeds served.sound soon
  obtain ⟨-, only, -⟩ := Database.sweepInner_ok served.sound sweep
  have found : db.peers.lookup r.id = some row := by
    simp only [Database.caller, bind_ok, pure_ok] at called
    obtain ⟨row', read, _, _, rfl⟩ := called
    unfold Database.getPeer at read
    split at read <;> cases read
    assumption
  have after : (Operation.sweep now).apply db = swept := by
    change (db.sweep now).2 = swept
    rw [Database.sweep, sweep]
  refine ⟨row, swept, called, sweep, after ▸ served.apply (.sweep now), ?_, by rw [only], ?_⟩
  · rw [only.directory.peers]
    exact found
  · exact answers.small.peers r.id
      (AList.mem_keys.mpr (AList.lookup_isSome.mp (by rw [found]; rfl)))

/-- The server answers a reader with a page, where its cursor is for the revision there is. -/
theorem Answers.answered {db : Database} (answers : Answers r db) (served : db.Served)
    (fits : Fits r) {now : Nat} (soon : now < 2 ^ 63) {cursor : Option (List UInt8)}
    {position : Nat × Nat}
    (here : Innernet.At r.cursorKey r.id db.network.visibilityRevision cursor position) :
    ∃ page server,
      db.statePage r.cursorKey r.lengths r.id r.key now cursor = (.ok page, server) := by
  obtain ⟨row, swept, called, sweep, servedSwept, found, same, small⟩ := answers.swept served soon
  have counted := answers.counted
  rw [← same] at here counted
  obtain ⟨page, walked⟩ := (servedSwept.sound.readable servedSwept.bound found).pageWalk_succeeds
    (by omega) ⟨_, counted.1, counted.2⟩ rfl here fits.tagged
    fun item first => fits.takes servedSwept (List.mem_of_mem_head? first)
  exact ⟨page, swept, by rw [statePage_walk answers.ready called sweep, walked]⟩

/-- A cursor of another revision is refused. -/
theorem Answers.stale {db : Database} (answers : Answers r db) (served : db.Served) {now : Nat}
    (soon : now < 2 ^ 63) {value : List UInt8} {revision stage after : Nat}
    (made : encodeCursor r.cursorKey r.id revision stage after = .ok value)
    (counted : revision < 2 ^ 63) (other : revision ≠ db.network.visibilityRevision) :
    db.statePage r.cursorKey r.lengths r.id r.key now (some value) = (.error .conflict, db) := by
  obtain ⟨row, swept, called, sweep, -, -, same, small⟩ := answers.swept served soon
  have refused := decodeCursor_foreign ⟨by omega, by omega⟩ made
    (.inr (same ▸ other) : r.id ≠ r.id ∨ revision ≠ swept.network.visibilityRevision)
  rw [statePage_walk answers.ready called sweep, Database.pageWalk, pageStart, refused]
  rfl

/-- The rounds among the moves. -/
def rounds (ms : List (Move Fetch Event)) : Nat := ms.countP fun m =>
  match m.label with
  | .round _ _ => true
  | .serve _ => false

/-- A reply that comes in time. -/
def Timely : Event → Prop
  | .round now arrives => now < 2 ^ 63 ∧ arrives = true
  | .serve _ => True

/-- How far a walk has come after so many rounds at one revision. -/
structure Advanced (r : Reader) (s t : Fetch) (row : PeerRow) (n : Nat) : Prop where
  going : t.returned = none → n = 0 ∨ (t.cursor = none ∧ n ≤ 1) ∨ ∃ stage after,
    Innernet.At r.cursorKey r.id s.server.network.visibilityRevision t.cursor (stage, after) ∧
    n + s.server.most (s.server.allowedPeers row.cidrId) (stage, after) ≤
      s.server.most (s.server.allowedPeers row.cidrId) (0, 0) + 1
  ends : ∀ result, t.returned = some result → (∃ lists, result = .ok lists) ∧
    n ≤ s.server.most (s.server.allowedPeers row.cidrId) (0, 0) + 2

/-- Where a round finds the walk: its cursor is refused, or stands for a position. -/
theorem Advanced.stands {ms : List (Move Fetch Event)} {s : Fetch} {row : PeerRow} {n now : Nat}
    (reads : Reads r ms t) (answers : Answers r t.server) (soon : now < 2 ^ 63)
    (open_ : t.returned = none)
    (same : t.server.network.visibilityRevision = s.server.network.visibilityRevision)
    (advanced : Advanced r s t row n) :
    (n = 0 ∧ t.server.statePage r.cursorKey r.lengths r.id r.key now t.cursor =
      (.error .conflict, t.server)) ∨
    ∃ position, Innernet.At r.cursorKey r.id t.server.network.visibilityRevision t.cursor position ∧
      n + s.server.most (s.server.allowedPeers row.cidrId) position ≤
        s.server.most (s.server.allowedPeers row.cidrId) (0, 0) + 1 := by
  rcases advanced.going open_ with rfl | ⟨none_, early⟩ | ⟨stage, after, here, bound⟩
  · have most : ∀ position, s.server.most (s.server.allowedPeers row.cidrId) position ≤
        s.server.most (s.server.allowedPeers row.cidrId) (0, 0) := s.server.most_le
    cases cursor : t.cursor with
    | none => exact .inr ⟨(0, 0), rfl, by omega⟩
    | some value =>
      obtain ⟨revision, stage, after, made, counted, low, -, collected⟩ :=
        reads.going open_ value cursor
      by_cases current : t.server.network.visibilityRevision = revision
      · have below := (collected current answers.small).1
        have fewer := most (stage, after)
        exact .inr ⟨(stage, after), ⟨Nat.le_of_lt_succ low, below, current ▸ made⟩, by omega⟩
      · exact .inl ⟨rfl, answers.stale reads.served soon made counted (Ne.symm current)⟩
  · rw [none_]
    exact .inr ⟨(0, 0), rfl, by omega⟩
  · exact .inr ⟨(stage, after), same ▸ here, bound⟩

/-- A round at the revision brings the walk on, or is the one a stale cursor is refused in. -/
theorem Advanced.round {ms : List (Move Fetch Event)} {s : Fetch} {row : PeerRow} {n now : Nat}
    (reads : Reads r ms t) (fits : Fits r) (answers : Answers r t.server) (soon : now < 2 ^ 63)
    (open_ : t.returned = none) (holds : s.server.Holds t.server)
    (same : t.server.network.visibilityRevision = s.server.network.visibilityRevision)
    (found : s.server.peers.lookup r.id = some row) (advanced : Advanced r s t row n) :
    Advanced r s (t.next r (.round now true)) row (n + 1) := by
  have outcome := t.next_round r now true
  generalize t.next r (.round now true) = t' at outcome
  rcases advanced.stands reads answers soon open_ same with ⟨rfl, refused⟩ | ⟨position, here, bound⟩
  · cases outcome with
    | more got => cases refused.symm.trans got
    | last got => cases refused.symm.trans got
    | restarts =>
      refine ⟨fun _ => .inr (.inl ⟨rfl, le_rfl⟩), fun result returned => ?_⟩
      rw [open_] at returned
      cases returned
    | fails failed =>
      obtain ⟨e, got, other⟩ := failed rfl
      cases refused.symm.trans got
      exact absurd rfl other
  · obtain ⟨page, server, answered⟩ := answers.answered reads.served fits soon here
    cases outcome with
    | @more page server value got cursor =>
      refine ⟨fun _ => .inr (.inr ?_), fun result returned => ?_⟩
      · obtain ⟨row', position', items, next, served, found', holds', same', began, paged⟩ :=
          reads.served.paged got
        have whole := holds.trans holds'
        rw [whole.directory.peers] at found'
        cases Option.some.inj (found.symm.trans found')
        have mine : r.id < 2 ^ 63 := answers.small.peers r.id (AList.mem_keys.mpr
          (AList.lookup_isSome.mp (by rw [holds.directory.peers, found]; rfl)))
        have counted := answers.counted
        have at_ := (pageStart_ok ⟨by omega, by omega⟩).mpr here
        rw [← same'] at at_
        cases Except.ok.inj (at_.symm.trans began)
        obtain ⟨low, some_, made⟩ := paged.goes value cursor
        have shorter := paged.most
        rw [whole.allowedPeers, whole.most, whole.most] at shorter
        have taken := List.length_pos_iff.mpr some_
        refine ⟨next.1, next.2, ⟨Nat.le_of_lt_succ low, ?_, ?_⟩, ?_⟩
        · have ids : ∀ id ∈ server.ids r.id (server.allowedPeers row.cidrId), id < 2 ^ 63 :=
            served.sound.small_ids (holds'.small.mpr answers.small)
          have after := paged.after
          simp only [List.mem_cons] at after
          rcases after with unmoved | zero | known
          · exact unmoved ▸ here.below
          · rw [zero]
            decide
          · exact ids _ known
        · rw [← same, ← same']
          exact made
        · change n + 1 + s.server.most (s.server.allowedPeers row.cidrId) next ≤ _
          omega
      · rw [open_] at returned
        cases returned
    | last got =>
      refine ⟨nofun, fun result returned => ?_⟩
      cases returned
      exact ⟨⟨_, rfl⟩, by omega⟩
    | restarts got => cases answered.symm.trans got
    | fails failed =>
      obtain ⟨e, got, -⟩ := failed rfl
      cases answered.symm.trans got

end Ending

section Runs

variable {ms past : List (Move Fetch Event)} {s : Fetch}

theorem Reads.begun {server : Database} (served : server.Served) : Reads r [] (begun server) where
  served := served
  fresh _ _ := ⟨rfl, rfl⟩
  going _ _ := nofun
  ends _ _ := nofun

theorem Reads.run (reads : Reads r past s) (run : Run (Step r) s ms t) : Reads r (past ++ ms) t := by
  induction run with
  | start =>
    rw [List.append_nil]
    exact reads
  | move _ step ih =>
    rw [← List.append_assoc]
    exact ih.step step

theorem run_steady (served : s.server.Served) (run : Run (Step r) s ms t) :
    t.server.Served ∧ s.server.Steady t.server := by
  refine run.invariant (P := fun t => t.server.Served ∧ s.server.Steady t.server)
    ⟨served, .refl _⟩ ?_
  rintro a e b ⟨servedA, steady⟩ ⟨-, rfl⟩
  obtain ⟨op, same⟩ := a.next_server r e
  rw [same]
  exact ⟨servedA.apply op, steady.trans (op.steady servedA.sound)⟩

omit [Native] in
theorem rounds_append (ms : List (Move Fetch Event)) (m : Move Fetch Event) :
    rounds (ms ++ [m]) = rounds ms + (match m.label with | .round _ _ => 1 | .serve _ => 0) := by
  unfold rounds
  rw [List.countP_append, List.countP_singleton]
  cases m.label <;> rfl

/-- A stretch of the loop at one revision. -/
theorem Advanced.run {row : PeerRow} (reads : Reads r past s) (open_ : s.returned = none)
    (fits : Fits r) (answers : Answers r s.server) (found : s.server.peers.lookup r.id = some row)
    (run : Run (Step r) s ms t)
    (same : t.server.network.visibilityRevision = s.server.network.visibilityRevision)
    (timely : ∀ m ∈ ms, Timely m.label ∧ m.before.server.ready = true) :
    Advanced r s t row (rounds ms) := by
  induction run with
  | start =>
    refine ⟨fun _ => .inl rfl, fun result returned => ?_⟩
    rw [open_] at returned
    cases returned
  | @move ms a b e run step ih =>
    have counts := (run_steady reads.served run).2
    have readsA := reads.run run
    obtain ⟨openA, rfl⟩ := step
    obtain ⟨op, next⟩ := a.next_server r e
    have later := (op.steady readsA.served.sound).counted
    rw [← next] at later
    have first := counts.counted
    have same' : a.server.network.visibilityRevision = s.server.network.visibilityRevision := by
      omega
    have advanced := ih same' fun m member => timely m (List.mem_append_left _ member)
    obtain ⟨soon, ready⟩ := timely _ (List.mem_append_right _ (List.mem_singleton_self _))
    have holds := counts.holds same'
    rw [rounds_append]
    cases e with
    | serve op =>
      refine ⟨fun _ => advanced.going openA, fun result returned => ?_⟩
      exact advanced.ends result returned
    | round now arrives =>
      obtain ⟨soon, rfl⟩ := soon
      have answersA : Answers r a.server := by
        obtain ⟨row, called⟩ := answers.caller
        refine ⟨ready, ⟨row, ?_⟩, holds.small.mpr answers.small, by rw [same']; exact answers.counted⟩
        unfold Database.caller Database.getPeer at called ⊢
        rw [holds.directory.peers]
        exact called
      exact advanced.round readsA fits answersA soon openA holds same' found

/-- Whatever the server does between the calls, `fetch_state` returns the directory as the server has
it at the last call: every peer the caller may see, once, in order of the ids. Of the exchanges it
returns at most one a peer, each with a peer the caller may speak to, each as it was stored at the
same revision of the directory, and none that was stored when the walk began is missing. -/
theorem fetch_exact {db₀ server : Database} {ops : List (Move Database Operation)}
    {peers : List PeerState} {exchanges : List Exchange} (unused : db₀.Unused)
    (served : Run Operation.Step db₀ ops server) (run : Run (Step r) (begun server) ms t)
    (returned : t.returned = some (.ok (peers, exchanges))) (small : t.server.Small) :
    ∃ row, t.server.peers.lookup r.id = some row ∧
      Ascending PeerState.id peers ∧
      (∀ p, p ∈ peers.map PeerState.id ↔ 0 < p ∧ p ∈ t.server.allowedPeers row.cidrId) ∧
      (∀ state ∈ peers, t.server.peerState state.id = .ok state) ∧
      Ascending (fun e => e.other r.id) exchanges ∧
      (∀ e ∈ exchanges, e.key.involves r.id ∧
        t.server.pairAllowed r.id (e.other r.id) = .ok () ∧ t.server.view.record e.key ≠ none ∧
        ∃ m ∈ ms, During t.server m ∧ m.after.server.view.record e.key = some e) ∧
      ∃ m ∈ ms, Begins m ∧ During t.server m ∧ ∀ k, m.after.server.view.record k ≠ none →
        k.involves r.id → t.server.pairAllowed r.id (k.other r.id) = .ok () →
        ∃ e ∈ exchanges, e.key = k := by
  have start := run_served unused.served served
  have reads := (Reads.begun (r := r) start).run run
  rw [List.nil_append] at reads
  obtain ⟨row, after, collected⟩ := reads.ends peers exchanges returned small
  have readable := reads.served.sound.readable reads.served.bound collected.found
  have shown := collected.shown
  rw [Database.states_eq 3, if_neg (by decide), List.append_nil] at shown
  have ids := readable.states_ids
  rw [← shown] at ids
  refine ⟨row, collected.found, ?_, fun p => ?_, fun state member => ?_, collected.ascending,
    collected.stored, ?_⟩
  · have distinct : ((t.server.allowedPeers row.cidrId).map id).Nodup := by
      simpa using readable.distinct
    have sorted := remaining_ascending 0 distinct
    rw [← ids, Ascending, List.pairwise_map] at sorted
    exact sorted
  · rw [ids, mem_remaining]
    exact and_comm
  · rw [shown] at member
    exact Database.mem_states member
  · obtain ⟨m, past, begins, during, kept⟩ := collected.since
    refine ⟨m, past, begins, during, fun k there involved allowed => ?_⟩
    refine ((kept k there).2 involved allowed).resolve_left fun ahead => ?_
    simp only [Database.Ahead] at ahead
    omega

/-- While the directory stays, `fetch_state` cannot fail and cannot go on for ever: of calls that the
server gets to, twice as many as there are peers to see, as many as there are CIDRs and two more are
enough, whatever comes into the mailbox meanwhile. -/
theorem fetch_ends {db₀ server : Database} {ops : List (Move Database Operation)} {row : PeerRow}
    (unused : db₀.Unused) (served : Run Operation.Step db₀ ops server)
    (before : Run (Step r) (begun server) past s) (run : Run (Step r) s ms t)
    (open_ : s.returned = none) (fits : Fits r) (answers : Answers r s.server)
    (found : s.server.peers.lookup r.id = some row)
    (same : t.server.network.visibilityRevision = s.server.network.visibilityRevision)
    (timely : ∀ m ∈ ms, Timely m.label ∧ m.before.server.ready = true) :
    (∀ result, t.returned = some result → ∃ lists, result = .ok lists) ∧
      rounds ms ≤ 2 * (s.server.allowedPeers row.cidrId).length +
        s.server.cidrs.entries.length + 2 := by
  have reads := (Reads.begun (r := r) (run_served unused.served served)).run before
  have advanced := Advanced.run reads open_ fits answers found run same timely
  have all : s.server.most (s.server.allowedPeers row.cidrId) (0, 0) ≤
      2 * (s.server.allowedPeers row.cidrId).length + s.server.cidrs.entries.length := by
    have length := remaining_length id 0 (s.server.allowedPeers row.cidrId)
    simp only [Database.most, Database.cidrRows, List.length_map]
    omega
  refine ⟨fun result returned => (advanced.ends result returned).1, ?_⟩
  cases returned : t.returned with
  | some result =>
    have few := (advanced.ends result returned).2
    omega
  | none =>
    rcases advanced.going returned with none_ | ⟨-, few⟩ | ⟨stage, after, -, few⟩ <;> omega

end Runs

end Fetch

section Sample

open Arithmetic

attribute [local instance] Arithmetic.native

/-- A reader to whom one peer a page is sent. -/
def Arithmetic.reader : Reader where
  cursorKey := 0
  lengths := ⟨fun _ => 600000, fun _ => 50⟩
  id := 2
  key := Arithmetic.key 2

/-- The server once its CIDR has been updated. -/
def Arithmetic.edited : Database := served [.updateCidr 1]

/-- A first page. -/
theorem statePage_bounded_first : ∃ (page : Page) (db : Database),
    edited.statePage reader.cursorKey reader.lengths reader.id reader.key 30 none = (.ok page, db) ∧
      page.count ≤ 32 ∧ 512 + page.bytes reader.lengths ≤ 1024 * 1024 := by
  have answered : (edited.statePage reader.cursorKey reader.lengths reader.id reader.key 30
    none).1.toBool = true := by decide +kernel
  generalize got : edited.statePage reader.cursorKey reader.lengths reader.id reader.key 30 none =
    reply at answered
  obtain ⟨reply, db⟩ := reply
  cases reply with
  | error => cases answered
  | ok page =>
    obtain ⟨_, run⟩ := served_run [.updateCidr 1]
    obtain ⟨few, -, all, -⟩ := statePage_bounded site_unused run got
    exact ⟨page, db, rfl, few, all⟩

/-- The CIDR is updated again before the second call. -/
def Arithmetic.overtaken : List Fetch.Event :=
  [.round 30 true, .serve (.updateCidr 1), .round 31 true, .round 32 true, .round 33 true,
    .round 34 true]

/-- Nothing that counts happens between the calls. -/
def Arithmetic.undisturbed : List Fetch.Event :=
  [.round 30 true, .serve (.sweep 31), .round 32 true, .round 33 true]

/-- The ids of the peers that are returned. -/
def Fetch.listed (t : Fetch) : Option (List Nat) :=
  match t.returned with
  | some (.ok (peers, _)) => some (peers.map PeerState.id)
  | _ => none

/-- What `Step` and `Timely` admit, with the server ready. -/
def Fetch.Proceeds (m : Move Fetch Fetch.Event) : Prop :=
  m.before.returned.isNone = true ∧ m.before.server.ready = true ∧
    match m.label with
    | .round now arrives => now < 2 ^ 63 ∧ arrives = true
    | .serve _ => True

instance Fetch.decidableProceeds : DecidablePred Fetch.Proceeds
  | ⟨_, .round _ _, _⟩ => inferInstanceAs (Decidable (_ ∧ _ ∧ _ ∧ _))
  | ⟨_, .serve _, _⟩ => inferInstanceAs (Decidable (_ ∧ _ ∧ True))

theorem Fetch.proceeds_run {ms : List (Move Fetch Fetch.Event)} {s t : Fetch}
    (run : Run (fun a e b => b = a.next reader e) s ms t) (proceeds : ∀ m ∈ ms, Fetch.Proceeds m) :
    Run (Fetch.Step reader) s ms t ∧
      ∀ m ∈ ms, Fetch.Timely m.label ∧ m.before.server.ready = true := by
  constructor
  · induction run with
    | start => exact .start
    | move run step ih =>
      have now := proceeds _ (List.mem_append_right _ (List.mem_singleton_self _))
      exact (ih fun m member => proceeds m (List.mem_append_left _ member)).move
        ⟨Option.isNone_iff_eq_none.mp now.1, step⟩
  · intro m member
    obtain ⟨-, ready, timely⟩ := proceeds m member
    refine ⟨?_, ready⟩
    cases label : m.label with
    | serve => trivial
    | round =>
      rw [label] at timely
      exact timely

theorem Fetch.listed_some {t : Fetch} {ids : List Nat} (listed : t.listed = some ids) :
    ∃ peers exchanges, t.returned = some (.ok (peers, exchanges)) ∧ peers.map PeerState.id = ids := by
  unfold Fetch.listed at listed
  split at listed
  · rename_i peers exchanges returned
    exact ⟨peers, exchanges, returned, Option.some.inj listed⟩
  · cases listed

/-- The walk begins again after the update, and then every peer has been sent. -/
theorem Fetch.fetch_exact_overtaken : ∃ (t : Fetch) (row : PeerRow) (peers : List PeerState)
    (exchanges : List Exchange), t.returned = some (.ok (peers, exchanges)) ∧
      t.server.network.visibilityRevision = 2 ∧ peers.map PeerState.id = [1, 2, 3] ∧
      ∀ p, p ∈ peers.map PeerState.id ↔ 0 < p ∧ p ∈ t.server.allowedPeers row.cidrId := by
  have checked : (follow (fun t => t.next reader) Fetch.Proceeds (.begun edited) overtaken).any
      (fun t => decide (t.listed = some [1, 2, 3]) &&
        decide (t.server.network.visibilityRevision = 2) &&
        decide (∀ p ∈ t.server.peers.keys, p < 2 ^ 63) &&
        decide (∀ c ∈ t.server.cidrs.keys, c < 2 ^ 63)) = true := by decide +kernel
  obtain ⟨ms, t, run, proceeds, good⟩ := follow_run checked
  simp only [Bool.and_eq_true, decide_eq_true_eq] at good
  obtain ⟨⟨⟨listed, revision⟩, peersSmall⟩, cidrsSmall⟩ := good
  obtain ⟨peers, exchanges, returned, ids⟩ := Fetch.listed_some listed
  obtain ⟨_, before⟩ := served_run [.updateCidr 1]
  obtain ⟨row, -, -, all, -⟩ := Fetch.fetch_exact site_unused before
    (Fetch.proceeds_run run proceeds).1 returned ⟨peersSmall, cidrsSmall⟩
  exact ⟨t, row, peers, exchanges, returned, revision, ids, all⟩

/-- Three calls are enough for three peers, one CIDR and no more than one peer a page. -/
theorem Fetch.fetch_ends_undisturbed : ∃ (ms : List (Move Fetch Fetch.Event)) (t : Fetch),
    Run (Fetch.Step reader) (.begun edited) ms t ∧ t.returned ≠ none ∧
      (∀ result, t.returned = some result → ∃ lists, result = .ok lists) ∧ Fetch.rounds ms ≤ 9 := by
  have checked : (follow (fun t => t.next reader) Fetch.Proceeds (.begun edited) undisturbed).any
      (fun t => t.returned.isSome && decide (t.server.network.visibilityRevision = 1)) = true := by
    decide +kernel
  obtain ⟨ms, t, run, proceeds, good⟩ := follow_run checked
  simp only [Bool.and_eq_true, decide_eq_true_eq] at good
  obtain ⟨done, revision⟩ := good
  obtain ⟨run, timely⟩ := Fetch.proceeds_run run proceeds
  obtain ⟨_, before⟩ := served_run [.updateCidr 1]
  have fits : Fetch.Fits reader :=
    ⟨fun _ => show 600000 ≤ 1024 * 1024 - 513 by decide,
      fun _ => show 50 ≤ 1024 * 1024 - 513 by decide, fun data => ⟨_, rfl⟩⟩
  have answers : Fetch.Answers reader edited :=
    ⟨by decide +kernel, ⟨peer "alice" "10.0.0.2" 2 false, rfl⟩,
      ⟨by decide +kernel, by decide +kernel⟩, by decide +kernel⟩
  have found : edited.peers.lookup reader.id = some (peer "alice" "10.0.0.2" 2 false) := rfl
  have start : edited.network.visibilityRevision = 1 := by decide +kernel
  obtain ⟨good, few⟩ := Fetch.fetch_ends site_unused before .start run rfl fits answers found
    (revision.trans start.symm) timely
  have peers : (edited.allowedPeers 1).length = 3 := by decide +kernel
  have cidrs : edited.cidrs.entries.length = 1 := by decide +kernel
  refine ⟨ms, t, run, Option.isSome_iff_ne_none.mp done, good, few.trans ?_⟩
  change 2 * (edited.allowedPeers 1).length + edited.cidrs.entries.length + 2 ≤ 9
  omega

end Sample

end Innernet
