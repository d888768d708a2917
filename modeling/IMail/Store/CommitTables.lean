import IMail.Store.CommitRows

/-!
# The ids of messages under a commit

`messages` has its ids as primary key, and every stage of a commit keeps this.
-/

namespace IMail

open Relational

variable {db db' : Db} {n : Message} {plan : MailboxSyncPlan} {incoming : List Message}
  {completedAt : Time}

theorem upsertSyncMessage_ids (hids : UniqueBy (fun m => some m.id) db.messages)
    (h : db.upsertSyncMessage n = .ok db') :
    UniqueBy (fun m => some m.id) db'.messages ∧
      ∀ id, (∃ m ∈ db'.messages, m.id = id) ↔ id = n.id ∨ ∃ m ∈ db.messages, m.id = id := by
  rcases (upsertSyncMessage_ok h).2 with ⟨⟨there, hthere, hid⟩, hrows⟩ | ⟨hmissing, hrows⟩
  · rw [hrows]
    constructor
    · apply hids.updateWhere
      intro row _ hsel k hk
      simp only [beq_iff_eq] at hsel
      rw [hsel]
      exact hk
    · intro id
      constructor
      · rintro ⟨m, hm, rfl⟩
        rcases mem_updateWhere.mp hm with ⟨old, _, _, rfl⟩ | ⟨hold, _⟩
        · exact Or.inl rfl
        · exact Or.inr ⟨m, hold, rfl⟩
      · intro hcases
        obtain ⟨m, hm, rfl⟩ : ∃ m ∈ db.messages, m.id = id := by
          rcases hcases with rfl | hex
          · exact ⟨there, hthere, hid⟩
          · exact hex
        by_cases hsel : m.id = n.id
        · exact ⟨m.overwrite n, mem_updateWhere.mpr (Or.inl ⟨m, hm, by simpa using hsel, rfl⟩),
            hsel.symm⟩
        · exact ⟨m, mem_updateWhere.mpr (Or.inr ⟨hm, by simpa using hsel⟩), rfl⟩
  · rw [hrows]
    constructor
    · apply hids.append
      intro old hold k hk hn
      cases hk
      exact hmissing old hold (Option.some.inj hn).symm
    · intro id
      simp only [List.mem_append, List.mem_singleton, or_and_right, exists_or, exists_eq_left]
      rw [or_comm, eq_comm]

theorem applyFlags_ids (h : UniqueBy (fun m => some m.id) db.messages) (plan : MailboxSyncPlan) :
    UniqueBy (fun m => some m.id) (db.applyFlags plan).messages := by
  rw [applyFlags_messages]
  apply List.pairwise_map.mpr
  apply h.imp
  intro a b hab k hk
  simp only [flagRow_id] at hk ⊢
  exact hab k hk

theorem removeStale_sublist (db : Db) (plan : MailboxSyncPlan) :
    (db.removeStale plan).messages.Sublist db.messages := by
  unfold Db.removeStale
  split_ifs
  · exact List.filter_sublist
  · generalize (do let uid ← plan.removedUids; pure (uid : ℤ) : List ℤ) = uids
    induction uids generalizing db with
    | nil => exact List.Sublist.refl _
    | cons uid uids ih =>
      rw [List.foldl_cons]
      exact (ih _).trans List.filter_sublist

variable (hids : UniqueBy (fun m => some m.id) db.messages)
include hids

theorem storeAll_ids (h : db.storeAll plan incoming = .ok db') :
    UniqueBy (fun m => some m.id) db'.messages := by
  induction incoming generalizing db with
  | nil =>
    cases h
    exact hids
  | cons n ns ih =>
    obtain ⟨db₁, hone, h⟩ := storeAll_cons h
    obtain ⟨upserted, hup, hmessages, _⟩ := storeIncoming_ok hone
    have hkept := hids.deleteWhere (otherCopy plan n)
    have hone := (upsertSyncMessage_ids hkept hup).1
    exact ih (hmessages ▸ hone) h

theorem writePlan_ids (hwrite : db.writePlan plan incoming completedAt = .ok db') :
    UniqueBy (fun m => some m.id) db'.messages := by
  obtain ⟨stored, hstore, rfl⟩ := writePlan_ok hwrite
  have hstored := storeAll_ids (hids.sublist (removeStale_sublist db plan)) hstore
  exact (applyFlags_ids hstored plan).deleteWhere _

theorem commitMailboxSync_ids [Platform] {runIds : RunIds} {result : MailboxSyncCommitResult}
    (h : commitMailboxSync db runIds plan completedAt = .ok (result, db')) :
    UniqueBy (fun m => some m.id) db'.messages := by
  obtain ⟨_, _, prepared, _, hprepare, hwrite, _⟩ := commitMailboxSync_ok h
  have hmessages : prepared.messages = db.messages := by
    obtain ⟨_, _, _, rfl⟩ := (prepareAll_ok hprepare).2
    rfl
  exact writePlan_ids (hmessages ▸ hids) hwrite

end IMail
