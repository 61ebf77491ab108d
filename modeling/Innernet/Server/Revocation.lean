import Innernet.Server.Guarantees

/-! Revocation is for good: an exchange whose peers may not speak to each other is closed by the
operation that parts them, or by the next sweep whatever is allowed by then. -/
namespace Innernet

open Fallible Tables Runs Exchange Ledger

namespace Ledger

variable [Native] {l l' : Ledger}

/-- Only a message makes a live record. -/
theorem Step.live {event : Event} (step : Step l event l') {k : ExchangeKey} {r : Exchange}
    (found : l'.record k = some r) (live : r.decision.terminal = false) :
    l.record k = some r ∨ ∃ m, event = .opened r m ∨ event = .continued r m := by
  cases step with
  | settle settled =>
    obtain ⟨r₀, before, rfl | closing⟩ := (found ▸ settled k : Settled (l.record k) (some r)).closed
    · exact .inl before
    · obtain ⟨-, _, rfl, -⟩ := closing.shape
      rw [terminal_aborted] at live
      cases live
  | @opened new t message =>
    rw [record_put] at found
    split at found
    · cases found
      exact .inr ⟨message, .inl rfl⟩
    · exact .inl found
  | @continued _ new _ message =>
    rw [record_put] at found
    split at found
    · cases found
      exact .inr ⟨message, .inr rfl⟩
    · exact .inl found
  | rebundled =>
    simp only [rebundle] at found
    split at found
    · cases found
    · exact .inl found
  | dropped => exact .inl found

end Ledger

namespace Database

variable {db db' : Database}

/-- A party of the key is the server, which it stays. -/
def Barred (db : Database) (k : ExchangeKey) : Prop :=
  ∃ p row, k.involves p ∧ db.peers.lookup p = some row ∧ row.isServer = true ∧
    row.isRedeemed = true

/-- Every live exchange is between peers that may speak, or is due for the next sweep, which closes
it since one of them is the server. -/
structure Guarded (db : Database) : Prop where
  counted : db.network.sweptVisibilityRevision ≤ db.network.visibilityRevision
  live : ∀ k r, db.view.record k = some r → r.decision.terminal = false →
    db.allowedKey k ∨ (db.Barred k ∧ db.visibilityChanged = true)

/-- What an operation without a sweep does to visibility: what the peers in `P` may do they still
may, a server stays one, and changes are counted. -/
structure Widens (P : Nat → Prop) (db db' : Database) : Prop where
  wider : Wider P db db'
  servers : ∀ p row, db.peers.lookup p = some row → row.isServer = true → row.isRedeemed = true →
    ∃ row', db'.peers.lookup p = some row' ∧ row'.isServer = true ∧ row'.isRedeemed = true
  swept : db'.network.sweptVisibilityRevision = db.network.sweptVisibilityRevision
  counted : db.network.visibilityRevision ≤ db'.network.visibilityRevision

theorem Barred.refuses {k : ExchangeKey} (barred : db.Barred k) : ¬ db.allowedKey k := by
  intro allowed
  obtain ⟨p, row, involved, found, server, -⟩ := barred
  obtain ⟨row', found', admissible⟩ := allowedKey_involved allowed p involved
  rw [found] at found'
  cases found'
  rw [admissible.isServer] at server
  cases server

section Directory

variable {P : Nat → Prop}

theorem Widens.barred (widens : Widens P db db') {k : ExchangeKey} (barred : db.Barred k) :
    db'.Barred k := by
  obtain ⟨p, row, involved, found, server, redeemed⟩ := barred
  obtain ⟨row', found', server', redeemed'⟩ := widens.servers p row found server redeemed
  exact ⟨p, row', involved, found', server', redeemed'⟩

theorem Widens.changed (widens : Widens P db db')
    (counted : db.network.sweptVisibilityRevision ≤ db.network.visibilityRevision)
    (changed : db.visibilityChanged = true) : db'.visibilityChanged = true := by
  simp only [visibilityChanged, ne_eq, decide_eq_true_eq] at changed ⊢
  have := widens.swept
  have := widens.counted
  omega

/-- The live exchanges of peers in `P` stay guarded, and so do those of a server. -/
theorem Guarded.widen (guarded : db.Guarded) (widens : Widens P db db')
    (live : ∀ k r, db'.view.record k = some r → r.decision.terminal = false →
      db.view.record k = some r ∧ ((∀ p, k.involves p → P p) ∨
        (db'.Barred k ∧ db'.visibilityChanged = true))) : db'.Guarded where
  counted := widens.swept ▸ guarded.counted.trans widens.counted
  live k r found alive := by
    obtain ⟨before, within | condemned⟩ := live k r found alive
    · rcases guarded.live k r before alive with allowed | ⟨barred, changed⟩
      · exact .inl (widens.wider.allowed within allowed)
      · exact .inr ⟨widens.barred barred, widens.changed guarded.counted changed⟩
    · exact .inr condemned

theorem SameDirectory.widens (same : SameDirectory db db')
    (swept : db'.network.sweptVisibilityRevision = db.network.sweptVisibilityRevision)
    (counted : db.network.visibilityRevision ≤ db'.network.visibilityRevision) :
    Widens (fun _ => True) db db' where
  wider := same.wider
  servers p row found server redeemed :=
    ⟨row, by rw [same.peers]; exact found, server, redeemed⟩
  swept := swept
  counted := counted

theorem OnlyExchanges.widens (only : db.OnlyExchanges db') : Widens (fun _ => True) db db' := by
  refine only.directory.widens ?_ ?_
  · rw [only]
  · rw [only]

/-- One row of `peers` is written. -/
theorem widens_row {id : Nat} {written : PeerRow} (peers : db'.peers = db.peers.insert id written)
    (cidrs : db'.cidrs = db.cidrs) (associations : db'.associations = db.associations)
    (swept : db'.network.sweptVisibilityRevision = db.network.sweptVisibilityRevision)
    (counted : db.network.visibilityRevision ≤ db'.network.visibilityRevision)
    (admissible : P id → ∀ row, db.peers.lookup id = some row → row.Admissible →
      written.Admissible ∧ written.cidrId = row.cidrId)
    (server : ∀ row, db.peers.lookup id = some row → row.isServer = true → row.isRedeemed = true →
      written.isServer = true ∧ written.isRedeemed = true) : Widens P db db' := by
  have rows : ∀ p, db'.peers.lookup p = if p = id then some written else db.peers.lookup p := by
    intro p
    rw [peers]
    exact lookup_insert_eq _ _ p _
  refine ⟨⟨fun p row within found good => ?_, fun p q a b _ _ sees => ?_⟩,
    fun p row found serves redeemed => ?_, swept, counted⟩
  · rw [rows]
    split
    · rename_i here
      subst here
      obtain ⟨good', same⟩ := admissible within row found good
      exact ⟨written, rfl, good', same⟩
    · exact ⟨row, found, good, rfl⟩
  · refine sees.along (P := fun _ => True) (fun k v _ found => ⟨?_, fun _ _ => trivial⟩) ?_ trivial
      trivial
    · rw [cidrs]
      exact found
    · rintro a top ⟨id, row, stored, ends⟩
      exact ⟨id, row, by rw [associations]; exact stored, ends⟩
  · rw [rows]
    split
    · rename_i here
      subst here
      exact ⟨written, rfl, server row found serves redeemed⟩
    · exact ⟨row, found, serves, redeemed⟩

/-- The directory grows, or loses CIDRs no peer is in or below. -/
theorem widens_directory {R : Nat → Prop} (peers : db'.peers = db.peers)
    (cidrs : ∀ k v, R k → db.cidrs.lookup k = some v → db'.cidrs.lookup k = some v ∧
      ∀ above ∈ v, R above)
    (associations : ∀ a top, db.Associated a top → db'.Associated a top)
    (occupied : ∀ p row, db.peers.lookup p = some row → R row.cidrId)
    (swept : db'.network.sweptVisibilityRevision = db.network.sweptVisibilityRevision)
    (counted : db.network.visibilityRevision ≤ db'.network.visibilityRevision) :
    Widens P db db' := by
  refine ⟨⟨fun p row _ found good => ?_, fun p q a b found found' sees => ?_⟩,
    fun p row found serves redeemed => ?_, swept, counted⟩
  · exact ⟨row, by rw [peers]; exact found, good, rfl⟩
  · exact sees.along cidrs associations (occupied p a found) (occupied q b found')
  · exact ⟨row, by rw [peers]; exact found, serves, redeemed⟩

theorem Widens.weaken {Q : Nat → Prop} (widens : Widens Q db db') (all : ∀ p, P p → Q p) :
    Widens P db db' :=
  ⟨⟨fun p row within => widens.wider.peers p row (all p within), widens.wider.sees⟩, widens.servers,
    widens.swept, widens.counted⟩

theorem Widens.only {db'' : Database} (widens : Widens P db db') (only : db'.OnlyExchanges db'') :
    Widens P db db'' := by
  rw [only]
  exact ⟨⟨widens.wider.peers, widens.wider.sees⟩, widens.servers, widens.swept, widens.counted⟩

end Directory

variable [Native]

/-- After a sweep every live exchange is allowed. -/
theorem Guarded.sweep {now : Nat} (sound : db.Sound) (guarded : db.Guarded)
    (done : db.sweepInner now = .ok db') :
    (∀ k r, db'.view.record k = some r → r.decision.terminal = false → db'.allowedKey k) ∧
      db'.Guarded := by
  obtain ⟨-, only, -, -, -, left, current⟩ := sweepInner_ok sound done
  have allowed : ∀ k r, db'.view.record k = some r → r.decision.terminal = false →
      db'.allowedKey k := by
    intro k r found live
    obtain ⟨before, checked⟩ := left k r found live
    rcases guarded.live k r before live with allowed | ⟨-, changed⟩
    · exact only.directory.allowed.mpr allowed
    · exact checked changed
  refine ⟨allowed, ?_, fun k r found live => .inl (allowed k r found live)⟩
  simp only [visibilityChanged, ne_eq, decide_eq_false_iff_not, not_not] at current
  exact current.ge

/-- A sweep of visibility that is known to have changed needs no guard before it. -/
theorem sweepInner_guarded {now : Nat} (sound : db.Sound) (changed : db.visibilityChanged = true)
    (done : db.sweepInner now = .ok db') : db'.Guarded := by
  obtain ⟨-, only, -, -, -, left, current⟩ := sweepInner_ok sound done
  refine ⟨?_, fun k r found live => .inl ((left k r found live).2 changed)⟩
  simp only [visibilityChanged, ne_eq, decide_eq_false_iff_not, not_not] at current
  exact current.ge

theorem sweepInner_barred {now : Nat} (sound : db.Sound) (done : db.sweepInner now = .ok db')
    {k : ExchangeKey} (barred : db.Barred k) : db'.Barred k := by
  obtain ⟨-, only, -⟩ := sweepInner_ok sound done
  obtain ⟨p, row, involved, found, rest⟩ := barred
  exact ⟨p, row, involved, by rw [only.directory.peers]; exact found, rest⟩

theorem registerInner_directory {id : Nat} {key : String} {request : Registration}
    {limits : Limits} {size : Nat} {a : AdvertisedBundle} (sound : db.Sound)
    (done : db.registerInner id key request limits size = .ok (a, db')) :
    SameDirectory db db' ∧ (db'.network = db.network ∨ db'.network = (db.touch 1).network) := by
  simp only [registerInner, bind_ok, pq_ok, require_ok] at done
  obtain ⟨_, _, _, _, _, _, _, _, current, _, _, _, _, _, next, _, _, _, done⟩ := done
  split at done
  · cases done
    exact ⟨⟨rfl, rfl, rfl⟩, .inl rfl⟩
  · simp only [bind_ok, require_ok, pure_ok, Prod.mk.injEq] at done
    obtain ⟨_, _, _, _, mid, branch, -, rfl⟩ := done
    have same : SameDirectory db mid ∧ mid.network = db.network := by
      unfold changeLifecycle at branch
      split at branch
      · simp only [enroll, bind_ok, require_ok, pure_ok] at branch
        obtain ⟨_, _, _, _, _, _, rfl⟩ := branch
        exact ⟨⟨rfl, rfl, rfl⟩, rfl⟩
      · unfold retire at branch
        split at branch
        · cases branch
        · simp only [bind_ok, require_ok] at branch
          obtain ⟨_, _, branch⟩ := branch
          have only := (terminatePeer_ok sound branch).1
          exact ⟨only.directory, by rw [only]⟩
    refine ⟨⟨same.1.peers, same.1.cidrs, same.1.associations⟩, .inr ?_⟩
    change (mid.touch 1).network = _
    rw [touch, touch, same.2]

theorem registerInner_widens {id : Nat} {key : String} {request : Registration} {limits : Limits}
    {size : Nat} {a : AdvertisedBundle} (sound : db.Sound)
    (done : db.registerInner id key request limits size = .ok (a, db')) :
    Widens (fun _ => True) db db' := by
  obtain ⟨same, left | touched⟩ := registerInner_directory sound done
  · exact same.widens (by rw [left]) (by rw [left])
  · refine same.widens ?_ ?_
    · rw [touched]
      rfl
    · rw [touched]
      exact Nat.le_succ _

/-- Where no message is delivered, live records are old ones. -/
theorem Reaches.live {allowed : Event → Prop} {opened : List Exchange}
    (reaches : Reaches allowed db db' opened)
    (silent : ∀ r m, ¬ allowed (.opened r m) ∧ ¬ allowed (.continued r m)) {k : ExchangeKey}
    {r : Exchange} (found : db'.view.record k = some r) (live : r.decision.terminal = false) :
    db.view.record k = some r := by
  obtain ⟨ms, run, -, all⟩ := reaches.run
  generalize db'.view = last at run found
  induction run with
  | start => exact found
  | @move ms l l' event run step ih =>
    rcases step.live found live with before | ⟨m, rfl | rfl⟩
    · exact ih (fun m member => all m (List.mem_append_left _ member)) before
    · exact absurd (all _ (List.mem_append_right _ (List.mem_singleton_self _))) (silent r m).1
    · exact absurd (all _ (List.mem_append_right _ (List.mem_singleton_self _))) (silent r m).2

theorem writeContents_widens {id : Nat} {name : String} {isDisabled : Bool} (sound : db.Sound)
    (done : db.writeContents id name isDisabled = .ok db') :
    Widens (fun p => isDisabled = false ∨ p ≠ id) db db' ∧ db'.Sound := by
  unfold writeContents at done
  split at done
  · cases done
    exact ⟨(OnlyExchanges.refl db).widens.weaken fun _ _ => trivial, sound⟩
  · rename_i row found
    simp only [bind_ok, pure_ok] at done
    obtain ⟨_, _, rfl⟩ := done
    have reached : Reaches (fun _ => True) db
        ((db.setPeer id { row with name, isDisabled }).touch 1) [] := by
      refine sound.untouched rfl rfl rfl (setPeer_redeemed fun row' present yes => ?_)
      rw [found] at present
      cases present
      exact yes
    refine ⟨widens_row rfl rfl rfl rfl (Nat.le_succ _) ?_ ?_, reached.sound⟩
    · intro enabled row' present good
      rw [found] at present
      cases present
      exact ⟨⟨good.isServer, enabled.resolve_right fun apart => apart rfl, good.isRedeemed⟩, rfl⟩
    · intro row' present serves redeemed
      rw [found] at present
      cases present
      exact ⟨serves, redeemed⟩

theorem terminatePeer_spares {id : Nat} {reason : String} (sound : db.Sound)
    (done : db.terminatePeer id reason = .ok db') {k : ExchangeKey} {r : Exchange}
    (found : db'.view.record k = some r) (live : r.decision.terminal = false) :
    ∀ p, k.involves p → p ≠ id := by
  rintro p involved rfl
  obtain ⟨-, -, -, rows⟩ := terminatePeer_ok sound done
  rw [rows, Option.map_eq_some_iff] at found
  obtain ⟨r₀, -, same⟩ := found
  split at same
  · rw [← same, terminated, (compact_fields _).2.1, terminal_aborted] at live
    cases live
  · rename_i spared
    exact spared ⟨same ▸ live, involved⟩

/-- The guard is kept, and no server is cleared. -/
def Secures (db db' : Database) : Prop := db'.Guarded ∧ ∀ k, db.Barred k → db'.Barred k

omit [Native] in
theorem Guarded.stay (guarded : db.Guarded) : db.Secures db := ⟨guarded, fun _ barred => barred⟩

omit [Native] in
theorem Widens.secures {P : Nat → Prop} (widens : Widens P db db') (guarded : db.Guarded)
    (live : ∀ k r, db'.view.record k = some r → r.decision.terminal = false →
      db.view.record k = some r ∧ ((∀ p, k.involves p → P p) ∨
        (db'.Barred k ∧ db'.visibilityChanged = true))) : db.Secures db' :=
  ⟨guarded.widen widens live, fun _ => widens.barred⟩

omit [Native] in
theorem Secures.trans {db'' : Database} (first : db.Secures db') (second : db'.Secures db'') :
    db.Secures db'' :=
  ⟨second.1, fun k barred => second.2 k (first.2 k barred)⟩

theorem sweepInner_secures {now : Nat} (sound : db.Sound) (guarded : db.Guarded)
    (done : db.sweepInner now = .ok db') : db.Secures db' :=
  ⟨(guarded.sweep sound done).2, fun _ => sweepInner_barred sound done⟩

omit [Native] in
theorem commit_secures (guarded : db.Guarded) {changed : Except ServerError Database}
    (done : ∀ db', changed = .ok db' → db.Secures db') : db.Secures (db.commit changed) := by
  unfold commit
  split
  · exact done _ rfl
  · exact guarded.stay

theorem write_secures {α : Type} (sound : db.Sound) (guarded : db.Guarded) (now : Nat)
    {operation : Database → Except ServerError (α × Database)}
    (done : ∀ swept a db', swept.Sound → swept.Guarded →
      (∀ k r, swept.view.record k = some r → r.decision.terminal = false → swept.allowedKey k) →
      operation swept = .ok (a, db') → swept.Secures db') :
    db.Secures (db.write now operation).2 := by
  unfold write
  split
  · exact guarded.stay
  · rename_i swept sweep
    have first := sweepInner_secures sound guarded sweep
    split
    · exact first
    · rename_i a db' accepted
      exact first.trans (done swept a db' (sweepInner_ok sound sweep).2.2.1 first.1
        (guarded.sweep sound sweep).1 accepted)

/-- An accepted message belongs to peers that may speak. -/
theorem submitInner_secures {id other : Nat} {key : String} {message : Message} {limits : Limits}
    {size now : Nat} {r : Exchange} (sound : db.Sound) (guarded : db.Guarded)
    (done : db.submitInner id key other message limits size now = .ok (r, db')) :
    db.Secures db' := by
  obtain ⟨only, sound', there, initiator, responder, -, -, -, step⟩ := submitInner_ok sound done
  have allowed : db.pairAllowed id other = .ok () := by
    simp only [submitInner, bind_ok, require_ok] at done
    obtain ⟨_, _, _, _, _, allowed, -⟩ := done
    exact allowed
  have here : db'.allowedKey r.key := by
    refine only.directory.allowed.mpr ?_
    change db.pairAllowed r.initiatorId.val r.responderId.val = .ok ()
    rw [initiator, responder]
    rcases le_total id other with less | less
    · rw [min_eq_left less, max_eq_right less]
      exact allowed
    · rw [min_eq_right less, max_eq_left less]
      exact pairAllowed_symm allowed
  have old : ∀ k r', db'.view.record k = some r' → r'.decision.terminal = false →
      db.view.record k = some r' ∨ k = r.key := by
    intro k r' found live
    rcases step with ⟨rfl, -⟩ | opened | continued
    · exact .inl found
    · obtain ⟨same, -⟩ := opened.opened_cases
      rw [same, record_put] at found
      split at found
      · rename_i same
        exact .inr same
      · exact .inl found
    · obtain ⟨same, -⟩ := continued.continued_cases
      rw [same, record_put] at found
      split at found
      · rename_i same
        exact .inr same
      · exact .inl found
  refine ⟨⟨?_, fun k r' found live => ?_⟩, fun _ => only.widens.barred⟩
  · exact only.widens.swept ▸ guarded.counted.trans only.widens.counted
  · rcases old k r' found live with before | rfl
    · rcases guarded.live k r' before live with allowed | ⟨barred, changed⟩
      · exact .inl (only.directory.allowed.mpr allowed)
      · exact .inr ⟨only.widens.barred barred, only.widens.changed guarded.counted changed⟩
    · exact .inl here

end Database

namespace Operation

open Database

variable [Native]

omit [Native] in
theorem causes_silent {op : Operation}
    (other : ∀ id key peer message limits size now, op ≠ submit id key peer message limits size now)
    (r : Exchange) (m : Message) : ¬ op.Causes (.opened r m) ∧ ¬ op.Causes (.continued r m) := by
  cases op with
  | submit id key peer message limits size now => exact absurd rfl (other _ _ _ _ _ _ _)
  | _ => exact ⟨id, id⟩

/-- Every operation keeps the live exchanges guarded. -/
theorem secures (op : Operation) {db : Database} (sound : db.Sound) (guarded : db.Guarded) :
    db.Secures (op.apply db) := by
  have reaches := op.reaches sound
  have old := fun other k r => reaches.live (causes_silent other) (k := k) (r := r)
  -- an operation that parts no peers
  have widened : (∀ id key peer message limits size now,
      op ≠ submit id key peer message limits size now) → Widens (fun _ => True) db (op.apply db) →
      db.Secures (op.apply db) :=
    fun other widens => widens.secures guarded fun k r found live =>
      ⟨old other k r found live, .inl fun _ _ => trivial⟩
  have committed : (∀ id key peer message limits size now,
      op ≠ submit id key peer message limits size now) → ∀ changed, op.apply db = db.commit changed →
      (∀ db', changed = .ok db' → Widens (fun _ => True) db db') → db.Secures (op.apply db) := by
    intro other changed same widens
    refine widened other ?_
    rw [same]
    unfold Database.commit
    split
    · exact widens _ rfl
    · exact (OnlyExchanges.refl db).widens
  cases op with
  | register id key request limits size now =>
    refine write_secures sound guarded now fun swept a db' soundSwept held _ accepted => ?_
    refine (registerInner_widens soundSwept accepted).secures held fun k r found live =>
      ⟨?_, .inl fun _ _ => trivial⟩
    have quiet := (register id key request limits size now).causes_quiet
    exact (registerInner_reaches quiet soundSwept rfl accepted).live
      (causes_silent fun _ _ _ _ _ _ _ same => by cases same) found live
  | submit id key other message limits size now =>
    exact write_secures sound guarded now fun swept a db' soundSwept held _ accepted =>
      submitInner_secures soundSwept held accepted
  | sweep now =>
    change db.Secures (db.sweep now).2
    unfold Database.sweep
    split
    · exact guarded.stay
    · rename_i swept done
      exact sweepInner_secures sound guarded done
  | page id key now walk =>
    change db.Secures (db.page id key now walk).2
    unfold Database.page
    dsimp only
    split
    · exact guarded.stay
    · rename_i result swept read
      simp only [bind_ok, require_ok, pure_ok, Prod.mk.injEq] at read
      obtain ⟨_, _, _, _, _, sweep, _, _, _, rfl⟩ := read
      exact sweepInner_secures sound guarded sweep
  | createPeer contents =>
    refine committed (fun _ _ _ _ _ _ _ same => by cases same) _ rfl fun db' done => ?_
    simp only [Database.createPeer, bind_ok, require_ok, pure_ok] at done
    obtain ⟨_, _, _, ⟨absent, -⟩, rfl⟩ := done
    refine widens_row rfl rfl rfl rfl (Nat.le_succ _) ?_ ?_
    · intro _ row found
      rw [absent] at found
      cases found
    · intro row found
      rw [absent] at found
      cases found
  | updatePeer id name isDisabled =>
    have other : ∀ i key peer message limits size now, updatePeer id name isDisabled ≠
      submit i key peer message limits size now := fun _ _ _ _ _ _ _ same => by cases same
    cases isDisabled with
    | false =>
      refine committed other _ rfl fun db' done => ?_
      simp only [Database.updatePeer, bind_ok, Bool.false_eq_true, if_false, pure_ok] at done
      obtain ⟨updated, changed, rfl⟩ := done
      exact (writeContents_widens sound changed).1.weaken fun _ _ => .inl rfl
    | true =>
      refine commit_secures guarded fun db' done => ?_
      have same : (updatePeer id name true).apply db = db' := congrArg db.commit done
      rw [same] at old
      simp only [Database.updatePeer, bind_ok, if_true] at done
      obtain ⟨updated, changed, done⟩ := done
      obtain ⟨widens, soundUpdated⟩ := writeContents_widens sound changed
      refine (widens.only (terminatePeer_ok soundUpdated done).1).secures guarded
        fun k r found live => ⟨old other k r found live, .inl fun p involved => .inr ?_⟩
      exact terminatePeer_spares soundUpdated done found live p involved
  | disablePeer id =>
    refine commit_secures guarded fun db' done => ?_
    have same : (disablePeer id).apply db = db' := congrArg db.commit done
    rw [same] at old
    unfold Database.disablePeer at done
    split at done
    · cases done
    · rename_i row found
      have reached : Reaches (fun _ => True) db
          ((db.setPeer id { row with isDisabled := true }).touch 1) [] := by
        refine sound.untouched rfl rfl rfl (setPeer_redeemed fun row' present yes => ?_)
        rw [found] at present
        cases present
        exact yes
      have widens : Widens (· ≠ id) db
          ((db.setPeer id { row with isDisabled := true }).touch 1) := by
        refine widens_row rfl rfl rfl rfl (Nat.le_succ _) (fun apart => absurd rfl apart) ?_
        intro row' present serves redeemed
        rw [found] at present
        cases present
        exact ⟨serves, redeemed⟩
      refine (widens.only (terminatePeer_ok reached.sound done).1).secures guarded
        fun k r stored live => ⟨old (fun _ _ _ _ _ _ _ same => by cases same) k r stored live, .inl ?_⟩
      exact terminatePeer_spares reached.sound done stored live
  | redeemPeer id publicKey now =>
    refine committed (fun _ _ _ _ _ _ _ same => by cases same) _ rfl fun db' done => ?_
    simp only [Database.redeemPeer, bind_ok, require_ok, pure_ok] at done
    obtain ⟨row, read, _, unredeemed, _, _, _, _, rfl⟩ := done
    have here : ∀ row', db.peers.lookup id = some row' → row'.isRedeemed = false := by
      intro row' found
      rw [Database.getPeer, found] at read
      cases read
      exact unredeemed
    refine widens_row rfl rfl rfl rfl (Nat.le_succ _) ?_ ?_
    · intro _ row' found good
      have redeemed := good.isRedeemed
      rw [here row' found] at redeemed
      cases redeemed
    · intro row' found _ redeemed
      rw [here row' found] at redeemed
      cases redeemed
  | deleteExpiredInvites now =>
    refine widened (fun _ _ _ _ _ _ _ same => by cases same) ?_
    change Widens _ db (db.deleteExpiredInvites now)
    have stays : ∀ p row, db.peers.lookup p = some row → row.isRedeemed = true →
        (db.deleteExpiredInvites now).peers.lookup p = some row := by
      intro p row found redeemed
      have cascade : (db.deleteExpiredInvites now).peers.lookup p =
          (db.peers.lookup p).filter fun row => !(!row.isRedeemed &&
            row.inviteExpires.any fun expires => decide (expires < now)) := lookup_keep _ _ p
      rw [cascade, found]
      simp [redeemed]
    refine ⟨⟨fun p row _ found good => ⟨row, stays p row found good.isRedeemed, good, rfl⟩, ?_⟩,
      fun p row found serves redeemed => ⟨row, stays p row found redeemed, serves, redeemed⟩, rfl,
      Nat.le_add_right _ _⟩
    intro p q a b _ _ sees
    exact sees.along (P := fun _ => True) (fun k v _ found => ⟨found, fun _ _ => trivial⟩)
      (fun a top linked => linked) trivial trivial
  | identifyServer publicKey ip =>
    refine commit_secures guarded fun db' done => ?_
    have same : (identifyServer publicKey ip).apply db = db' := congrArg db.commit done
    rw [same] at old
    unfold Database.identifyServer at done
    split at done
    · cases done
    rename_i id rest identified
    obtain ⟨row, found, known⟩ := (mem_keysWhere _ _ _).mp
      (identified ▸ List.mem_cons_self : id ∈ keysWhere _ db.peers)
    have redeemed : row.isRedeemed = true := by simp_all
    simp only [bind_ok, require_ok] at done
    obtain ⟨row', read, _, -, done⟩ := done
    obtain rfl : row = row' := by
      rw [Database.getPeer, found] at read
      exact Except.ok.inj read
    split at done <;> cases done
    · exact guarded.stay
    · have there : ((db.setPeer id { row with isServer := true }).touch 1).peers.lookup id =
          some { row with isServer := true } := AList.lookup_insert _
      refine Widens.secures (P := (· ≠ id)) ?_ guarded fun k r stored live =>
        ⟨old (fun _ _ _ _ _ _ _ same => by cases same) k r stored live, ?_⟩
      · refine widens_row rfl rfl rfl rfl (Nat.le_succ _) (fun apart => absurd rfl apart) ?_
        exact fun _ _ _ _ => ⟨rfl, redeemed⟩
      · by_cases involved : k.involves id
        · refine .inr ⟨⟨id, _, involved, there, rfl, redeemed⟩, ?_⟩
          have counted := guarded.counted
          simp only [visibilityChanged, ne_eq, decide_eq_true_eq]
          change ¬ db.network.visibilityRevision + 1 = db.network.sweptVisibilityRevision
          omega
        · exact .inl fun p party => fun same => involved (same ▸ party)
  | createCidr parent =>
    refine committed (fun _ _ _ _ _ _ _ same => by cases same) _ rfl fun db' done => ?_
    simp only [Database.createCidr, bind_ok, require_ok, pure_ok] at done
    obtain ⟨_, _, _, _, rfl⟩ := done
    refine widens_directory (R := fun _ => True) rfl (fun k v _ found => ⟨?_, fun _ _ => trivial⟩)
      (fun a top linked => linked) (fun _ _ _ => trivial) rfl (Nat.le_succ _)
    refine (lookup_insert_eq _ _ k _).trans ?_
    rw [if_neg]
    · exact found
    · rintro rfl
      rw [nextRowid_fresh] at found
      cases found
  | updateCidr id =>
    refine widened (fun _ _ _ _ _ _ _ same => by cases same) ?_
    change Widens _ db (db.updateCidr id)
    unfold Database.updateCidr
    split
    · exact SameDirectory.widens ⟨rfl, rfl, rfl⟩ rfl (Nat.le_succ _)
    · exact (OnlyExchanges.refl db).widens
  | deleteCidr id =>
    refine committed (fun _ _ _ _ _ _ _ same => by cases same) _ rfl fun db' done => ?_
    simp only [Database.deleteCidr, bind_ok, require_ok, pure_ok] at done
    obtain ⟨_, ⟨empty, leaf, -⟩, rfl⟩ := done
    split
    · refine widens_directory (R := fun k => k ≠ id) rfl (fun k v other found => ⟨?_, ?_⟩)
        (fun a top linked => linked) (fun p row found => ?_) rfl (Nat.le_succ _)
      · refine (lookup_keep _ _ k).trans ?_
        rw [found]
        simp [other]
      · rintro above member rfl
        cases member
        rw [Bool.eq_false_iff, ne_eq, any_iff] at leaf
        exact leaf ⟨k, _, found, by simp⟩
      · rintro rfl
        rw [Bool.eq_false_iff, ne_eq, any_iff] at empty
        exact empty ⟨p, row, found, by simp⟩
    · exact (OnlyExchanges.refl db).widens
  | createAssociation contents =>
    refine committed (fun _ _ _ _ _ _ _ same => by cases same) _ rfl fun db' done => ?_
    simp only [Database.createAssociation, bind_ok, require_ok, pure_ok] at done
    obtain ⟨_, _, _, _, rfl⟩ := done
    refine widens_directory (R := fun _ => True) rfl
      (fun k v _ found => ⟨found, fun _ _ => trivial⟩) ?_ (fun _ _ _ => trivial) rfl (Nat.le_succ _)
    rintro a top ⟨id, row, found, ends⟩
    refine ⟨id, row, (lookup_insert_eq _ _ id _).trans ?_, ends⟩
    rw [if_neg]
    · exact found
    · rintro rfl
      rw [nextRowid_fresh] at found
      cases found
  | deleteAssociation id =>
    refine commit_secures guarded fun db' done => ?_
    unfold Database.deleteAssociation at done
    dsimp only at done
    split at done
    · have removed : Reaches (fun _ => True) db { db.touch 1 with
          associations := keep (fun k _ => decide (k ≠ id)) db.associations } [] :=
        sound.samePeers rfl rfl rfl rfl
      refine ⟨sweepInner_guarded removed.sound ?_ done, fun k barred => ?_⟩
      · have counted := guarded.counted
        simp only [visibilityChanged, ne_eq, decide_eq_true_eq]
        change ¬ db.network.visibilityRevision + 1 = db.network.sweptVisibilityRevision
        omega
      · exact sweepInner_barred removed.sound done barred
    · exact sweepInner_secures sound guarded done
  | setManagementReady ready =>
    have widens : Widens (fun _ => True) db (db.setManagementReady ready) :=
      SameDirectory.widens ⟨rfl, rfl, rfl⟩ rfl le_rfl
    exact widened (fun _ _ _ _ _ _ _ same => by cases same) widens
  | enable =>
    refine committed (fun _ _ _ _ _ _ _ same => by cases same) _ rfl fun db' done => ?_
    simp only [Database.enable, bind_ok, require_ok, pure_ok] at done
    obtain ⟨_, _, rfl⟩ := done
    exact SameDirectory.widens ⟨rfl, rfl, rfl⟩ rfl le_rfl

end Operation

/-- Every database a server reaches is guarded. -/
theorem Database.Guarded.reached [Native] {db₀ db : Database} {ms : List (Move Database Operation)}
    (unused : db₀.Unused)
    (counted : db₀.network.sweptVisibilityRevision ≤ db₀.network.visibilityRevision)
    (run : Run Operation.Step db₀ ms db) : db.Sound ∧ db.Guarded := by
  have empty : ∀ k, db₀.view.record k = none := by
    intro k
    rw [view_none, unused.exchanges]
    rfl
  have start : db₀.Guarded := ⟨counted, fun k r found => by simp [empty] at found⟩
  refine run.invariant (P := fun db => db.Sound ∧ db.Guarded) ⟨unused.sound, start⟩ ?_
  intro a op b held taken
  rw [← (taken : op.apply a = b)]
  exact ⟨(op.reaches held.1).sound, (op.secures held.1 held.2).1⟩

theorem Database.Barred.kept [Native] {db db' : Database} {ms : List (Move Database Operation)}
    (sound : db.Sound) (guarded : db.Guarded) (run : Run Operation.Step db ms db')
    {k : ExchangeKey} (barred : db.Barred k) : db'.Barred k := by
  have held : (db'.Sound ∧ db'.Guarded) ∧ db'.Barred k := by
    refine run.invariant (P := fun db => (db.Sound ∧ db.Guarded) ∧ db.Barred k)
      ⟨⟨sound, guarded⟩, barred⟩ ?_
    intro a op b held taken
    have secured := op.secures held.1.1 held.1.2
    rw [← (taken : op.apply a = b)]
    exact ⟨⟨(op.reaches held.1.1).sound, secured.1⟩, secured.2 k held.2⟩
  exact held.2

/-- A request at the time is refused before it reads anything. -/
structure Database.Refuses [Native] (db : Database) (now : Nat) : Prop where
  submit : ∀ id key other message limits size,
    ∃ e, (db.submit id key other message limits size now).1 = .error e
  page : ∀ {α : Type} id key (walk : PeerRow → Database → Except ServerError α),
    ∃ e, (db.page id key now walk).1 = .error e

theorem Database.refuses [Native] {db : Database} {now : Nat} (late : 2 ^ 63 ≤ now) :
    db.Refuses now := by
  have failed : ∃ e, db.sweepInner now = .error e := by
    rcases ok_or_error (db.sweepInner now) with ⟨swept, done⟩ | failed
    · simp only [sweepInner, bind_ok, require_ok] at done
      obtain ⟨_, soon, -⟩ := done
      omega
    · exact failed
  obtain ⟨e, failed⟩ := failed
  constructor
  · intro id key other message limits size
    exact ⟨e, by simp [Database.submit, write, failed]⟩
  · intro α id key walk
    rcases ok_or_error (db.page id key now walk).1 with ⟨a, read⟩ | refused
    · unfold Database.page at read
      dsimp only at read
      split at read
      · cases read
      · rename_i transaction
        simp only [bind_ok, pure_ok, Prod.mk.injEq] at transaction
        obtain ⟨_, _, _, _, _, sweep, -⟩ := transaction
        rw [failed] at sweep
        cases sweep
    · exact refused

/-- Revocation is irrevocable. Once the two peers of an exchange may not speak to each other, every
later submit and page is refused or works on tables in which the exchange is over, whatever has been
allowed again in between. -/
theorem Database.revocation_irrevocable [Native] {db₀ db db' : Database}
    {past ms : List (Move Database Operation)} (unused : db₀.Unused)
    (counted : db₀.network.sweptVisibilityRevision ≤ db₀.network.visibilityRevision)
    (before : Run Operation.Step db₀ past db) (run : Run Operation.Step db ms db')
    {k : ExchangeKey} {row : ExchangeRow} (found : db.exchanges.lookup k = some row)
    (parted : db.pairAllowed k.initiatorId k.responderId ≠ .ok ()) (now : Nat) :
    db'.Refuses now ∨ ∃ swept, db'.sweepInner now = .ok swept ∧ db'.Serves swept now ∧
      ∀ row', swept.exchanges.lookup k = some row' → row'.record.sequence = row.record.sequence →
        row'.record.decision.terminal = true := by
  rcases Nat.lt_or_ge now (2 ^ 63) with soon | late
  · obtain ⟨sound, guarded⟩ := Guarded.reached unused counted before
    obtain ⟨sound', guarded'⟩ := Guarded.reached unused counted (before.append run)
    obtain ⟨swept, done⟩ := sweepInner_succeeds sound' soon
    obtain ⟨-, -, soundSwept, settled, -⟩ := sweepInner_ok sound' done
    refine .inr ⟨swept, done, serves done, fun row' after same => ?_⟩
    have there := sound.columns.record.mpr (sound.columns.row found)
    have after := soundSwept.columns.record.mpr (soundSwept.columns.row after)
    cases ended : row.record.decision.terminal with
    | true =>
      obtain ⟨moves, steps, -⟩ := (Operation.history sound run).run
      have spent : db.view.Keeps k.initiatorBundleId k.responderBundleId
          (Over row.record.sequence row.record.exchangeId) :=
        .inr (.inr ⟨k, row.record, there, rfl, rfl, .inr ⟨rfl, rfl, ended⟩⟩)
      have kept := Ledger.Run.keeps sound.ledger (steps.move settled) Over.evolves Over.newer spent
      rcases kept.here soundSwept.ledger after with above | ⟨-, -, terminal⟩
      · exact absurd same above.ne'
      · exact terminal
    | false =>
      obtain ⟨barred, -⟩ := (guarded.live k row.record there ended).resolve_left parted
      cases live : row'.record.decision.terminal with
      | true => rfl
      | false =>
        have allowed := (guarded'.sweep sound' done).1 k row'.record after live
        exact absurd allowed (sweepInner_barred sound' done (barred.kept sound guarded run)).refuses
  · exact .inl (refuses late)

section Sample

open Arithmetic

/-- A proposal under way when its responder is disabled. -/
def Arithmetic.parting : List Operation :=
  registrations ++ proposes first 5 20 ++ [.disablePeer 3]

/-- The responder is enabled again, and no request comes in between. -/
theorem Database.revocation_irrevocable_restored : ∃ row swept,
    (served parting).exchanges.lookup ⟨2, 3, 2, 3⟩ = some row ∧
      refusal ((served (parting ++ [.updatePeer 3 "bob" false])).pairAllowed 2 3) = none ∧
      (served (parting ++ [.updatePeer 3 "bob" false])).sweepInner 30 = .ok swept ∧
      ∀ row', swept.exchanges.lookup ⟨2, 3, 2, 3⟩ = some row' →
        row'.record.sequence = row.record.sequence → row'.record.decision.terminal = true := by
  obtain ⟨past, before⟩ := served_run parting
  obtain ⟨ms, run⟩ := @Operation.runs native [.updatePeer 3 "bob" false] (served parting)
  have joined : served (parting ++ [.updatePeer 3 "bob" false]) =
      [Operation.updatePeer 3 "bob" false].foldl (fun db op => @Operation.apply native op db)
        (served parting) := List.foldl_append
  rw [← joined] at run
  have facts : ((served parting).exchanges.lookup ⟨2, 3, 2, 3⟩).isSome = true ∧
      refusal ((served parting).pairAllowed 2 3) = some .unauthorized ∧
      refusal ((served (parting ++ [.updatePeer 3 "bob" false])).pairAllowed 2 3) = none ∧
      refusal ((served (parting ++ [.updatePeer 3 "bob" false])).page 2 (key 2) 30
        fun _ _ => .ok ()).1 = none := by
    decide +kernel
  obtain ⟨stored, refused, restored, read⟩ := facts
  obtain ⟨row, found⟩ := Option.isSome_iff_exists.mp stored
  have parted : (served parting).pairAllowed 2 3 ≠ .ok () := by
    intro allowed
    rw [allowed] at refused
    cases refused
  rcases @Database.revocation_irrevocable native _ _ _ _ _ site_unused le_rfl before run _ row found
    parted 30 with never | ⟨swept, done, -, spent⟩
  · obtain ⟨e, failed⟩ := @Database.Refuses.page native _ _ never Unit 2 (key 2) fun _ _ => .ok ()
    rw [failed] at read
    cases read
  · exact ⟨row, swept, found, restored, done, spent⟩

end Sample

end Innernet
