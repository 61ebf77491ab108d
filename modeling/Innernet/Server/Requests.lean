import Innernet.Server.Transactions

/-! The two requests of the mailbox as steps of the ledger. -/
namespace Innernet.Database

open Fallible Tables Exchange Ledger

theorem mem_loadPair {db : Database} {first second : Nat} {r : Exchange} :
    r ∈ db.loadPair first second ↔ ∃ k row, db.exchanges.lookup k = some row ∧
      k.initiatorId = min first second ∧ k.responderId = max first second ∧ row.record = r := by
  simp only [loadPair, List.mem_map, List.mem_filter, decide_eq_true_eq]
  constructor
  · rintro ⟨⟨k, row⟩, ⟨member, initiator, responder⟩, same⟩
    exact ⟨k, row, (mem_entries_iff _ _).mp member, initiator, responder, same⟩
  · rintro ⟨k, row, found, initiator, responder, same⟩
    exact ⟨⟨k, row⟩, ⟨(mem_entries_iff _ _).mpr found, initiator, responder⟩, same⟩

theorem Sound.loadPair [Native] {db : Database} (sound : db.Sound) {first second : Nat}
    {r : Exchange} : r ∈ db.loadPair first second ↔ db.view.record r.key = some r ∧
      r.initiatorId.val = min first second ∧ r.responderId.val = max first second := by
  rw [mem_loadPair]
  constructor
  · rintro ⟨k, row, found, initiator, responder, rfl⟩
    have key := sound.keyed k row found
    have here := sound.columns.record.mpr (sound.columns.row found)
    rw [← key] at initiator responder
    exact ⟨key ▸ here, initiator, responder⟩
  · rintro ⟨found, initiator, responder⟩
    exact ⟨r.key, r.row, sound.columns.record.mp found, initiator, responder, rfl⟩

/-- The key of the one record a pair can have under two bundles. -/
def pairKey (id other : Nat) (first second : Bundle) : ExchangeKey :=
  ⟨min id other, max id other, first.bundleId, second.bundleId⟩

theorem Sound.find_some [Native] {db : Database} (sound : db.Sound) {id other : Nat}
    {first second : Bundle} {r : Exchange}
    (found : ((db.loadPair id other).find? fun r => r.initiatorBundleId = first.bundleId ∧
      r.responderBundleId = second.bundleId) = some r) :
    r.key = pairKey id other first second ∧ db.view.record (pairKey id other first second) = some r ∧
      r.initiatorId.val = min id other ∧ r.responderId.val = max id other := by
  have member := sound.loadPair.mp (List.mem_of_find?_eq_some found)
  have bundles := List.find?_some found
  simp only [decide_eq_true_eq] at bundles
  have key : r.key = pairKey id other first second := by
    rw [Exchange.key, member.2.1, member.2.2, bundles.1, bundles.2, pairKey]
  exact ⟨key, key ▸ member.1, member.2⟩

theorem Sound.find_none [Native] {db : Database} (sound : db.Sound) {id other : Nat}
    {first second : Bundle}
    (absent : ((db.loadPair id other).find? fun r => r.initiatorBundleId = first.bundleId ∧
      r.responderBundleId = second.bundleId) = none) :
    db.view.record (pairKey id other first second) = none := by
  cases found : db.view.record (pairKey id other first second) with
  | none => rfl
  | some r =>
    have key := sound.ledger.key _ r found
    rw [List.find?_eq_none] at absent
    have initiator : r.initiatorId.val = min id other := congrArg ExchangeKey.initiatorId key
    have responder : r.responderId.val = max id other := congrArg ExchangeKey.responderId key
    have bundles : r.initiatorBundleId = first.bundleId ∧ r.responderBundleId = second.bundleId :=
      ⟨congrArg ExchangeKey.initiatorBundleId key, congrArg ExchangeKey.responderBundleId key⟩
    refine absurd ?_ (absent r (sound.loadPair.mpr ⟨key ▸ found, initiator, responder⟩))
    exact decide_eq_true bundles

variable [Native]

theorem bundle_ok {db : Database} {p : Nat} {b : Option AdvertisedBundle}
    (read : db.bundle p = .ok b) : db.view.bundle p = b := by
  unfold bundle at read
  split at read
  · rename_i absent
    cases read
    exact absent
  · rename_i advertised found
    simp only [bind_ok, pure_ok] at read
    obtain ⟨_, _, _, _, rfl⟩ := read
    exact found

/-- A stored bundle always reads back. -/
theorem Sound.bundle {db : Database} (sound : db.Sound) (p : Nat) :
    db.bundle p = .ok (db.view.bundle p) := by
  unfold Database.bundle
  split
  · rename_i absent
    exact congrArg Except.ok absent.symm
  · rename_i advertised found
    obtain ⟨valid, version⟩ := sound.ledger.checked p advertised found
    simp only [bind_ok, pq_ok, require_ok, pure_ok]
    exact ⟨⟨⟩, valid, ⟨⟩, version, found.symm⟩

theorem activeBundle_ok {db : Database} {p : Nat} {b : Bundle}
    (read : db.activeBundle p = .ok b) : db.view.Advertises p b := by
  simp only [activeBundle, bind_ok] at read
  obtain ⟨advertised, found, read⟩ := read
  have current := bundle_ok found
  cases advertised with
  | none => cases read
  | some advertised =>
    simp only [bind_ok, require_ok, pure_ok] at read
    obtain ⟨_, enabled, _, _, _, _, rfl⟩ := read
    exact ⟨advertised, current, enabled, rfl⟩

theorem Sound.put {db db' : Database} (sound : db.Sound) {r : Exchange} {event : Event}
    (saved : db.save r = .ok db') (step : Ledger.Step db.view event (db.view.put r))
    (redeemed : ∀ p, r.key.involves p →
      ∃ row, db.peers.lookup p = some row ∧ row.isRedeemed = true) :
    Ledger.Step db.view event db'.view ∧ db'.Sound ∧ db'.view.record r.key = some r := by
  have peers : db'.peers = db.peers := by rw [save_only saved]
  rw [← save_view saved] at step
  refine ⟨step, ⟨save_columns sound.columns saved, sound.ledger.step step, ?_⟩, ?_⟩
  · intro k r' found
    rw [save_view saved, record_put] at found
    rw [peers]
    split at found
    · rename_i same
      exact same ▸ redeemed
    · exact sound.redeemed k r' found
  · rw [save_view saved, record_put, if_pos rfl]

omit [Native] in
theorem pairAllowed_redeemed {db : Database} {id other : Nat}
    (allowed : db.pairAllowed id other = .ok ()) (p : Nat) (member : p = id ∨ p = other) :
    ∃ row, db.peers.lookup p = some row ∧ row.isRedeemed = true := by
  have present : ∀ {q row}, db.getPeer q = .ok row → db.peers.lookup q = some row := by
    intro q row found
    unfold getPeer at found
    split at found <;> cases found
    assumption
  simp only [pairAllowed, bind_ok, require_ok] at allowed
  obtain ⟨_, _, _, _, _, _, _, _, _, _, a, first, b, second, _, _, redeemed, redeemed', _⟩ := allowed
  rcases member with rfl | rfl
  · exact ⟨a, present first, redeemed⟩
  · exact ⟨b, present second, redeemed'⟩

theorem openExchange_ok {db db' : Database} (sound : db.Sound) {id other : Nat}
    {first second : Bundle} {kind : Kind} {message : Message} {digest : MessageDigest}
    {limits : Limits} {size now : Nat} {r : Exchange}
    (shape : message.validateShape = .ok kind) (digested : MessageDigest.of message = .ok digest)
    (initiator : message.initiatorId.val = min id other)
    (responder : message.responderId.val = max id other)
    (firstActive : db.view.Advertises (min id other) first)
    (secondActive : db.view.Advertises (max id other) second)
    (newer : ∀ old, db.view.record (pairKey id other first second) = some old →
      old.sequence < message.sequence)
    (redeemed : ∀ p, p = id ∨ p = other →
      ∃ row, db.peers.lookup p = some row ∧ row.isRedeemed = true)
    (done : db.openExchange id other first second kind message digest limits size now =
      .ok (r, db')) :
    db.OnlyExchanges db' ∧ r.key = pairKey id other first second ∧
      Ledger.Step db.view (.opened r message) db'.view ∧ db'.Sound ∧
      db'.view.record r.key = some r := by
  simp only [openExchange, bind_ok, require_ok] at done
  obtain ⟨_, ⟨proposal, idle⟩, _, _, _, _, done⟩ := done
  subst proposal
  split at done
  · rename_i operatorPskId ciphertext psk body
    simp only [bind_ok, pq_ok, require_ok, pure_ok, Prod.mk.injEq] at done
    generalize made : Transcript.mk db.network.networkId _ _ _ _ _ _ _ _ = t at done
    obtain ⟨_, validated, _, authentic, transcriptHash, hashed, _, _, written, saved, rfl, rfl⟩ :=
      done
    have key : (Exchange.opened t transcriptHash message digest now).key =
        pairKey id other first second := by
      rw [pairKey, ← initiator, ← responder, ← made]
      rfl
    have opening : Opening (.opened t transcriptHash message digest now) t message := {
      opened := ⟨transcriptHash, digest, now, rfl, hashed, digested, (save_ok saved).1⟩
      shape
      authentic
      validated
      operatorPskId := by rw [psk, ← made]
      ciphertext := by rw [body, ← made] }
    refine ⟨save_only saved, key, sound.put saved (.opened opening ?_ ?_ ?_ ?_) ?_⟩
    · rw [← made]
      exact initiator ▸ firstActive
    · rw [← made]
      exact responder ▸ secondActive
    · intro old found
      have less := newer old (key ▸ found)
      rw [← made]
      exact less
    · intro k old found first' second'
      rw [← made] at first' second'
      have same := sound.ledger.key k old found
      refine idle old (sound.loadPair.mpr ⟨same ▸ found, ?_, ?_⟩)
      · exact (congrArg ExchangeKey.initiatorId same).trans (first'.trans initiator)
      · exact (congrArg ExchangeKey.responderId same).trans (second'.trans responder)
    · rw [key]
      rintro p (rfl | rfl)
      · exact redeemed _ (min_choice id other)
      · exact redeemed _ (max_choice id other)
  · cases done

theorem continueExchange_ok {db db' : Database} (sound : db.Sound) {record r : Exchange}
    {kind : Kind} {message : Message} {digest : MessageDigest}
    (stored : db.view.record record.key = some record)
    (shape : message.validateShape = .ok kind) (digested : MessageDigest.of message = .ok digest)
    (done : db.continueExchange record kind (message.senderId = message.initiatorId) message
      digest = .ok (r, db')) :
    db.OnlyExchanges db' ∧ r.key = record.key ∧ db'.Sound ∧ db'.view.record r.key = some r ∧
      ((r = record ∧ db' = db ∧ digest ∈ record.receipts ∧
          message.exchangeId = record.exchangeId ∧
          message.transcriptHash = record.transcriptHash) ∨
        Ledger.Step db.view (.continued r message) db'.view) := by
  simp only [continueExchange, bind_ok, require_ok] at done
  obtain ⟨_, ⟨sameId, sameHash⟩, done⟩ := done
  split at done
  · rename_i known
    cases done
    exact ⟨.refl db, rfl, sound, stored, .inl ⟨rfl, rfl, known, sameId, sameHash⟩⟩
  · simp only [bind_ok, require_ok] at done
    obtain ⟨_, ⟨live, fresh⟩, done⟩ := done
    split at done
    · cases done
    · rename_i transcript body
      simp only [bind_ok, pq_ok, pure_ok, Prod.mk.injEq] at done
      obtain ⟨_, authentic, decision, advanced, written, saved, same, rfl⟩ := done
      rw [same] at saved
      have continuing : Continuing record r transcript message kind := {
        live
        transcript := body
        shape
        authentic
        fresh
        continued := ⟨decision, digest, advanced, digested, same.symm⟩ }
      obtain ⟨step, sound', there⟩ := sound.put saved (.continued stored continuing)
        (continuing.fields.1 ▸ sound.redeemed _ _ stored)
      exact ⟨save_only saved, continuing.fields.1, sound', there, .inr step⟩

/-- An accepted message: a retry of a stored one, the opening of an exchange, or its next step. -/
theorem submitInner_ok {db db' : Database} (sound : db.Sound) {id other : Nat} {key : String}
    {message : Message} {limits : Limits} {size now : Nat} {r : Exchange}
    (done : db.submitInner id key other message limits size now = .ok (r, db')) :
    db.OnlyExchanges db' ∧ db'.Sound ∧ db'.view.record r.key = some r ∧
      r.initiatorId.val = min id other ∧ r.responderId.val = max id other ∧
      r.initiatorBundleId = message.initiatorBundleId ∧
      r.responderBundleId = message.responderBundleId ∧ r.sequence = message.sequence ∧
      ((db' = db ∧ message.exchangeId = r.exchangeId ∧
          message.transcriptHash = r.transcriptHash ∧
          ∃ digest ∈ r.receipts, MessageDigest.of message = .ok digest) ∨
        Ledger.Step db.view (.opened r message) db'.view ∨
        Ledger.Step db.view (.continued r message) db'.view) := by
  simp only [submitInner, bind_ok, pq_ok, require_ok] at done
  obtain ⟨_, _, _, _, _, allowed, kind, shape, _, ⟨sender, initiator, responder⟩, first,
    firstActive, second, secondActive, _, ⟨_, firstId, secondId⟩, digest, digested, done⟩ := done
  have distinct : id ≠ other := by
    simp only [pairAllowed, bind_ok, require_ok] at allowed
    exact allowed.choose_spec.1.2.2
  have side : (message.senderId = message.initiatorId) = (id < other) := by
    rw [Number.ext_iff, sender, initiator]
    apply propext
    omega
  have columns : ∀ {r : Exchange}, r.key = pairKey id other first second →
      r.initiatorId.val = min id other ∧ r.responderId.val = max id other ∧
        r.initiatorBundleId = message.initiatorBundleId ∧
        r.responderBundleId = message.responderBundleId := by
    intro r key
    refine ⟨congrArg ExchangeKey.initiatorId key, congrArg ExchangeKey.responderId key, ?_, ?_⟩
    · exact (congrArg ExchangeKey.initiatorBundleId key).trans firstId.symm
    · exact (congrArg ExchangeKey.responderBundleId key).trans secondId.symm
  have sequence : ∀ {l : Ledger}, Ledger.Step db.view (.opened r message) l →
      r.sequence = message.sequence := by
    intro l step
    obtain ⟨-, t, opening, -⟩ := step.opened_cases
    obtain ⟨_, _, _, rfl, _⟩ := opening.opened
    exact (authenticate_cases opening.authentic).2.2.2.2.2.1.symm
  have opens : ∀ newer, db.openExchange id other first second kind message digest limits size now =
      .ok (r, db') → _ := fun newer done =>
    openExchange_ok sound shape digested initiator responder (activeBundle_ok firstActive)
      (activeBundle_ok secondActive) newer (pairAllowed_redeemed allowed) done
  split at done
  · rename_i absent
    obtain ⟨only, key, step, sound', there⟩ := opens (by
      intro old found
      rw [sound.find_none absent] at found
      cases found) done
    obtain ⟨i, o, b, c⟩ := columns key
    exact ⟨only, sound', there, i, o, b, c, sequence step, .inr (.inl step)⟩
  · rename_i record found
    obtain ⟨recordKey, stored, -, -⟩ := sound.find_some found
    simp only [bind_ok, require_ok] at done
    obtain ⟨_, notOlder, done⟩ := done
    split at done
    · rename_i sameSequence
      simp only [← side] at done
      obtain ⟨only, key, sound', there, outcome⟩ := continueExchange_ok sound
        (recordKey ▸ stored) shape digested done
      obtain ⟨i, o, b, c⟩ := columns (key.trans recordKey)
      rcases outcome with ⟨rfl, rfl, known, sameId, sameHash⟩ | step
      · exact ⟨only, sound', there, i, o, b, c, sameSequence.symm,
          .inl ⟨rfl, sameId, sameHash, digest, known, digested⟩⟩
      · refine ⟨only, sound', there, i, o, b, c, ?_, .inr (.inr step)⟩
        obtain ⟨-, before, t, kind, there, continuing⟩ := step.continued_cases
        rw [← continuing.fields.1, key, recordKey, stored] at there
        cases there
        exact continuing.fields.2.1.trans sameSequence.symm
    · rename_i different
      obtain ⟨only, key, step, sound', there⟩ := opens (by
        intro old found
        rw [stored] at found
        cases found
        exact lt_of_le_of_ne notOlder (Ne.symm different)) done
      obtain ⟨i, o, b, c⟩ := columns key
      exact ⟨only, sound', there, i, o, b, c, sequence step, .inr (.inl step)⟩

omit [Native] in
theorem activeFor_false {db : Database} (columns : db.Columns) {id : Nat} :
    db.activeFor id = false ↔
      ∀ k r, db.view.record k = some r → k.involves id → r.decision.terminal = true := by
  rw [← Bool.not_eq_true, activeFor, any_iff]
  constructor
  · intro none k r found involved
    by_contra live
    rw [Bool.not_eq_true] at live
    exact none ⟨k, r.row, columns.record.mp found, by simp [row_active, live, involved]⟩
  · rintro finished ⟨k, row, found, selected⟩
    rw [columns k row found, Bool.and_eq_true, row_active, decide_eq_true_eq] at selected
    have ended := finished k row.record (columns.record.mpr (columns.row found)) selected.2
    rw [ended] at selected
    cases selected.1

omit [Native] in
/-- With no active exchange of the peer left, settling its bundle removes all its records. -/
theorem settleBundle_view {db : Database} {l : Ledger} {id : Nat} {desired : AdvertisedBundle}
    (columns : db.Columns) (records : db.view.record = l.record)
    (bundles : db.view.bundle = l.bundle)
    (spent : ∀ x, db.view.spent x ↔ l.spent x ∨ x = desired.bundle.bundleId)
    (finished : ∀ k r, l.record k = some r → k.involves id → r.decision.terminal = true)
    (version : desired.pqVersion = 1) :
    (db.settleBundle id desired).view = l.rebundle id desired ∧
      (db.settleBundle id desired).Columns := by
  have rows : ∀ k, (db.settleBundle id desired).exchanges.lookup k =
      if k.involves id then none else db.exchanges.lookup k := by
    intro k
    refine (lookup_keep _ _ k).trans ?_
    cases found : db.exchanges.lookup k with
    | none => simp
    | some row =>
      have here : l.record k = some row.record :=
        records ▸ columns.record.mpr (columns.row found)
      have inactive : k.involves id → row.active = false := by
        intro involved
        rw [columns k row found, Exchange.row, finished k _ here involved]
        rfl
      by_cases involved : k.involves id
      · simp [involved, inactive involved]
      · simp [involved]
  have whole : { desired with pqVersion := 1 } = desired := by
    rw [← version]
  constructor
  · have record : (db.settleBundle id desired).view.record = (l.rebundle id desired).record := by
      funext k
      change ((db.settleBundle id desired).exchanges.lookup k).map ExchangeRow.record = _
      rw [rows, rebundle]
      dsimp only
      split
      · rfl
      · exact congrFun records k
    have bundle : (db.settleBundle id desired).view.bundle = (l.rebundle id desired).bundle := by
      funext p
      rw [bundle_rebundle, ← bundles]
      refine (lookup_insert_eq db.bundles id p _).trans ?_
      rw [whole]
      rfl
    have spent' : (db.settleBundle id desired).view.spent = (l.rebundle id desired).spent := by
      funext x
      exact propext (spent x)
    calc (db.settleBundle id desired).view
        = ⟨(db.settleBundle id desired).view.record, (db.settleBundle id desired).view.bundle,
            (db.settleBundle id desired).view.spent⟩ := rfl
      _ = l.rebundle id desired := by rw [record, bundle, spent']
  · intro k row found
    rw [rows] at found
    split at found
    · cases found
    · exact columns k row found

omit [Native] in
theorem enroll_ok {db db' : Database} {id : Nat} {request : Registration}
    {current : Option AdvertisedBundle} {limits : Limits} {size : Nat}
    (done : db.enroll id request current limits size = .ok db') :
    ¬ db.view.spent request.bundle.bundleId ∧
      db' = { db with bundleHistory := db.bundleHistory.insert request.bundle.bundleId id } := by
  simp only [enroll, bind_ok, require_ok, pure_ok] at done
  obtain ⟨_, _, _, _, _, unspent, rfl⟩ := done
  exact ⟨fun spent => spent unspent, rfl⟩

/-- A registration repeats the current bundle, or replaces it with all its peer's records gone. -/
theorem registerInner_ok {db db' : Database} (sound : db.Sound) {id : Nat} {key : String}
    {request : Registration} {limits : Limits} {size : Nat} {a : AdvertisedBundle}
    (done : db.registerInner id key request limits size = .ok (a, db')) :
    db'.Sound ∧ a.bundle = request.bundle ∧ db'.view.bundle id = some a ∧ (db' = db ∨
      ∃ mid : Database, mid.Sound ∧
        (mid = db ∨ (db.OnlyExchanges mid ∧ Ledger.Step db.view .settled mid.view)) ∧
        Ledger.Step mid.view (.rebundled id) db'.view) := by
  simp only [registerInner, bind_ok, pq_ok, require_ok] at done
  obtain ⟨_, _, _, _, _, _, _, _, current, read, _, validated, _, ⟨version, _, _⟩, next, _, _, _,
    done⟩ := done
  have here := bundle_ok read
  split at done
  · rename_i same
    cases done
    exact ⟨sound, rfl, here.trans same, .inl rfl⟩
  · simp only [bind_ok, require_ok, pure_ok, Prod.mk.injEq] at done
    obtain ⟨_, _, _, inactive, opened, branch, rfl, rfl⟩ := done
    generalize made : AdvertisedBundle.mk request.pqVersion request.lifecycle request.bundle = b
    have bundle : b.bundle = request.bundle := by rw [← made]
    have lifecycle : b.lifecycle = request.lifecycle := by rw [← made]
    have current_version : b.pqVersion = 1 := by rw [← made]; exact version
    have finish : ∀ {mid : Database}, mid.Sound →
        (mid = db ∨ (db.OnlyExchanges mid ∧ Ledger.Step db.view .settled mid.view)) →
        mid.view.Replaces id b →
        (∀ k r, mid.view.record k = some r → k.involves id → r.decision.terminal = true) →
        opened.Columns → opened.view.record = mid.view.record →
        opened.view.bundle = mid.view.bundle →
        (∀ x, opened.view.spent x ↔ mid.view.spent x ∨ x = b.bundle.bundleId) →
        opened.peers = mid.peers → (opened.settleBundle id b).Sound ∧ b.bundle = request.bundle ∧
          (opened.settleBundle id b).view.bundle id = some b ∧
          (opened.settleBundle id b = db ∨ ∃ mid : Database, mid.Sound ∧
            (mid = db ∨ (db.OnlyExchanges mid ∧ Ledger.Step db.view .settled mid.view)) ∧
            Ledger.Step mid.view (.rebundled id) (opened.settleBundle id b).view) := by
      intro mid soundMid reached replaces finished columns records bundles spent peers
      obtain ⟨view, columns'⟩ := settleBundle_view columns records bundles spent finished
        current_version
      have step : Ledger.Step mid.view (.rebundled id) (opened.settleBundle id b).view := by
        rw [view]
        exact .rebundled finished replaces (bundle ▸ validated) current_version
      have redeemed : (opened.settleBundle id b).Redeemed := by
        intro k r found p involved
        have there : mid.view.record k = some r := by
          rw [view, rebundle] at found
          dsimp only at found
          split at found
          · cases found
          · exact found
        obtain ⟨row, present, yes⟩ := soundMid.redeemed k r there p involved
        exact ⟨row, peers ▸ present, yes⟩
      refine ⟨⟨columns', soundMid.ledger.step step, redeemed⟩, bundle, ?_,
        .inr ⟨mid, soundMid, reached, step⟩⟩
      rw [view, bundle_rebundle, if_pos rfl]
    cases kind : request.lifecycle with
    | enabled =>
      simp only [changeLifecycle, kind] at branch
      obtain ⟨unspent, rfl⟩ := enroll_ok branch
      have idle := inactive.resolve_right fun both => by
        rw [kind] at both
        cases both.2
      refine finish sound (.inl rfl) (.inl ⟨lifecycle.trans kind, ?_⟩)
        ((activeFor_false sound.columns).mp idle) sound.columns rfl rfl ?_ rfl
      · rw [bundle]
        exact unspent
      · intro x
        change (db.bundleHistory.insert request.bundle.bundleId id).lookup x ≠ none ↔ _
        rw [lookup_insert_eq, bundle]
        split
        · rename_i same
          simp [same]
        · rename_i other
          exact ⟨.inl, fun either => either.resolve_right other⟩
    | retired =>
      simp only [changeLifecycle, kind, retire] at branch
      cases current with
      | none => cases branch
      | some held =>
        simp only [bind_ok, require_ok] at branch
        obtain ⟨_, same, ended⟩ := branch
        obtain ⟨only, soundMid, step, rows⟩ := terminatePeer_ok sound ended
        have held' : db.view.bundle id = some held := here
        have sameId : held.bundle.bundleId = b.bundle.bundleId := by rw [bundle, ← same]
        have bundles : opened.view.bundle = db.view.bundle := by rw [only.view]
        have spent : opened.view.spent = db.view.spent := by rw [only.view]
        refine finish soundMid (.inr ⟨only, step⟩) (.inr ⟨lifecycle.trans kind, held, ?_, sameId⟩)
          ?_ soundMid.columns rfl rfl ?_ rfl
        · rw [bundles]
          exact held'
        · intro k r' found involved
          rw [rows k, Option.map_eq_some_iff] at found
          obtain ⟨r, -, rfl⟩ := found
          split
          · exact (congrArg _ (compact_fields _).2.1).trans (terminal_aborted _)
          · rename_i other
            by_contra live
            exact other ⟨Bool.eq_false_iff.mpr live, involved⟩
        · intro x
          constructor
          · exact .inl
          · rintro (old | rfl)
            · exact old
            · rw [spent, ← sameId]
              exact sound.ledger.spent id held held'

end Innernet.Database
