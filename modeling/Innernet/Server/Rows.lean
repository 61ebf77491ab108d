import Innernet.Server.Revocation

/-! What each operation of the server does to the rows of `peers`: the one place where the cases of
an operation are taken for laws about the directory. -/
namespace Innernet

open Fallible Tables

/-- An invitation that `delete_expired_invites` deletes. -/
def PeerRow.expired (row : PeerRow) (now : Nat) : Bool :=
  !row.isRedeemed && row.inviteExpires.any fun expires => decide (expires < now)

/-- What an operation leaves of the rows of `peers`. -/
inductive Rewrites (db : Database) : Operation → Table Nat PeerRow → Prop where
  | same {op : Operation} : Rewrites db op db.peers
  | created {contents : PeerRow} : db.peers.lookup (db.network.maxPeerId + 1) = none →
      (∃ db', db.createPeer contents = .ok db') → Rewrites db (.createPeer contents)
        (db.peers.insert (db.network.maxPeerId + 1) { contents with isServer := false })
  | updated {id : Nat} {name : String} {isDisabled : Bool} {row : PeerRow} :
      db.peers.lookup id = some row → Rewrites db (.updatePeer id name isDisabled)
        (db.peers.insert id { row with name, isDisabled })
  | disabled {id : Nat} {row : PeerRow} : db.peers.lookup id = some row →
      Rewrites db (.disablePeer id) (db.peers.insert id { row with isDisabled := true })
  | redeemed {id now : Nat} {publicKey : String} {row : PeerRow} : db.peers.lookup id = some row →
      row.isRedeemed = false → (∃ db', db.redeemPeer id publicKey now = .ok db') →
      Rewrites db (.redeemPeer id publicKey now)
        (db.peers.insert id { row with isRedeemed := true, publicKey })
  | expired {now : Nat} : Rewrites db (.deleteExpiredInvites now)
      (keep (fun _ row => !row.expired now) db.peers)
  | identified {publicKey ip : String} {id : Nat} {row : PeerRow} :
      db.peers.lookup id = some row →
      any (fun k p => p.isServer && decide (k ≠ id)) db.peers = false →
      Rewrites db (.identifyServer publicKey ip)
        (db.peers.insert id { row with isServer := true })

/-- What an operation leaves of the directory: rewritten rows in the network it was. -/
structure Rewritten (db : Database) (op : Operation) (db' : Database) : Prop where
  rows : Rewrites db op db'.peers
  networkId : db'.network.networkId = db.network.networkId

theorem Rewritten.same {db db' : Database} {op : Operation} (peers : db'.peers = db.peers)
    (networkId : db'.network.networkId = db.network.networkId) : Rewritten db op db' where
  rows := peers ▸ .same
  networkId

namespace Database

variable [Native] {db : Database}

omit [Native] in
theorem OnlySwept.rewritten {op : Operation} {swept : Database} (only : db.OnlySwept swept) :
    Rewritten db op swept := .same only.directory.peers (by rw [only])

theorem write_rewritten {α : Type} (sound : db.Sound) (op : Operation) (now : Nat)
    {operation : Database → Except ServerError (α × Database)}
    (done : ∀ swept a db', swept.Sound → operation swept = .ok (a, db') →
      db'.peers = swept.peers ∧ db'.network.networkId = swept.network.networkId) :
    Rewritten db op (db.write now operation).2 := by
  unfold write
  split
  · exact .same rfl rfl
  · rename_i swept sweep
    obtain ⟨-, only, sound', -⟩ := sweepInner_ok sound sweep
    have first : Rewritten db op swept := only.rewritten
    split
    · exact first
    · rename_i a db' accepted
      obtain ⟨peers, networkId⟩ := done swept a db' sound' accepted
      exact .same (peers.trans only.directory.peers) (networkId.trans first.networkId)

omit [Native] in
theorem commit_rewritten {op : Operation} {changed : Except ServerError Database}
    (done : ∀ db', changed = .ok db' → Rewritten db op db') :
    Rewritten db op (db.commit changed) := by
  unfold commit
  split
  · exact done _ rfl
  · exact .same rfl rfl

end Database

open Database

variable [Native]

/-- Every operation rewrites the rows of `peers` in one of these ways. -/
theorem Operation.rewritten (op : Operation) {db : Database} (sound : db.Sound) :
    Rewritten db op (op.apply db) := by
  cases op with
  | register id key request limits size now =>
    refine write_rewritten sound _ now fun swept a db' sound' accepted => ?_
    obtain ⟨same, network⟩ := registerInner_directory sound' accepted
    refine ⟨same.peers, ?_⟩
    rcases network with network | network <;> rw [network]
    rfl
  | submit id key other message limits size now =>
    refine write_rewritten sound _ now fun swept a db' sound' accepted => ?_
    obtain ⟨only, -⟩ := submitInner_ok sound' accepted
    exact ⟨only.directory.peers, by rw [only]⟩
  | sweep now =>
    change Rewritten db _ (db.sweep now).2
    unfold Database.sweep
    split
    · exact .same rfl rfl
    · rename_i swept done
      exact (sweepInner_ok sound done).2.1.rewritten
  | page id key now walk =>
    change Rewritten db _ (db.page id key now walk).2
    unfold Database.page
    dsimp only
    split
    · exact .same rfl rfl
    · rename_i result swept read
      simp only [bind_ok, require_ok, pure_ok, Prod.mk.injEq] at read
      obtain ⟨_, _, _, _, _, sweep, _, _, _, rfl⟩ := read
      exact (sweepInner_ok sound sweep).2.1.rewritten
  | createPeer contents =>
    refine commit_rewritten fun db' done => ?_
    have accepted := done
    simp only [Database.createPeer, bind_ok, require_ok, pure_ok] at done
    obtain ⟨_, _, _, ⟨absent, -⟩, rfl⟩ := done
    exact ⟨.created absent ⟨_, accepted⟩, rfl⟩
  | updatePeer id name isDisabled =>
    refine commit_rewritten fun db' done => ?_
    simp only [Database.updatePeer, bind_ok] at done
    obtain ⟨updated, written, done⟩ := done
    have row : updated.Sound ∧ Rewritten db (.updatePeer id name isDisabled) updated := by
      refine ⟨(writeContents_widens sound written).2, ?_⟩
      unfold writeContents at written
      split at written
      · cases written
        exact .same rfl rfl
      · rename_i row found
        simp only [bind_ok, pure_ok] at written
        obtain ⟨_, _, rfl⟩ := written
        exact ⟨.updated found, rfl⟩
    split at done
    · obtain ⟨only, -⟩ := terminatePeer_ok row.1 done
      rw [only]
      exact ⟨row.2.rows, row.2.networkId⟩
    · rw [pure_ok] at done
      exact done ▸ row.2
  | disablePeer id =>
    refine commit_rewritten fun db' done => ?_
    unfold Database.disablePeer at done
    split at done
    · cases done
    · rename_i row found
      have written : ((db.setPeer id { row with isDisabled := true }).touch 1).Sound := by
        have reached : Reaches (fun _ => True) db
            ((db.setPeer id { row with isDisabled := true }).touch 1) [] := by
          refine sound.untouched rfl rfl rfl (setPeer_redeemed fun row' present yes => ?_)
          rw [found] at present
          cases present
          exact yes
        exact reached.sound
      obtain ⟨only, -⟩ := terminatePeer_ok written done
      rw [only]
      exact ⟨.disabled found, rfl⟩
  | redeemPeer id publicKey now =>
    refine commit_rewritten fun db' done => ?_
    have accepted := done
    simp only [Database.redeemPeer, bind_ok, require_ok, pure_ok] at done
    obtain ⟨row, read, _, unredeemed, _, _, _, _, rfl⟩ := done
    have found : db.peers.lookup id = some row := by
      unfold getPeer at read
      split at read
      · cases read
        assumption
      · cases read
    exact ⟨.redeemed found unredeemed ⟨_, accepted⟩, rfl⟩
  | deleteExpiredInvites now => exact ⟨.expired, rfl⟩
  | identifyServer publicKey ip =>
    refine commit_rewritten fun db' done => ?_
    unfold Database.identifyServer at done
    split at done
    · cases done
    · rename_i id rest identified
      obtain ⟨row, found, -⟩ := (mem_keysWhere _ _ _).mp
        (identified ▸ List.mem_cons_self : id ∈ keysWhere _ db.peers)
      simp only [bind_ok, require_ok] at done
      obtain ⟨row', read, _, single, done⟩ := done
      obtain rfl : row = row' := by
        rw [Database.getPeer, found] at read
        exact Except.ok.inj read
      split at done <;> cases done
      · exact .same rfl rfl
      · exact ⟨.identified found single, rfl⟩
  | createCidr parent =>
    refine commit_rewritten fun db' done => ?_
    simp only [Database.createCidr, bind_ok, require_ok, pure_ok] at done
    obtain ⟨_, _, _, _, rfl⟩ := done
    exact .same rfl rfl
  | updateCidr id =>
    change Rewritten db _ (db.updateCidr id)
    unfold Database.updateCidr
    split <;> exact .same rfl rfl
  | deleteCidr id =>
    refine commit_rewritten fun db' done => ?_
    simp only [Database.deleteCidr, bind_ok, require_ok, pure_ok] at done
    obtain ⟨_, _, rfl⟩ := done
    split <;> exact .same rfl rfl
  | createAssociation contents =>
    refine commit_rewritten fun db' done => ?_
    simp only [Database.createAssociation, bind_ok, require_ok, pure_ok] at done
    obtain ⟨_, _, _, _, rfl⟩ := done
    exact .same rfl rfl
  | deleteAssociation id =>
    refine commit_rewritten fun db' done => ?_
    unfold Database.deleteAssociation at done
    dsimp only at done
    split at done
    · have removed : Reaches (fun _ => True) db { db.touch 1 with
          associations := keep (fun k _ => decide (k ≠ id)) db.associations } [] :=
        sound.samePeers rfl rfl rfl rfl
      obtain ⟨-, only, -⟩ := sweepInner_ok removed.sound done
      rw [only]
      exact .same rfl rfl
    · exact (sweepInner_ok sound done).2.1.rewritten
  | setManagementReady ready => exact .same rfl rfl
  | enable =>
    refine commit_rewritten fun db' done => ?_
    simp only [Database.enable, bind_ok, require_ok, pure_ok] at done
    obtain ⟨_, _, rfl⟩ := done
    exact .same rfl rfl

end Innernet
