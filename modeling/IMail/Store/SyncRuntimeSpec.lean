import IMail.Store.SyncRuntime

/-!
# What a committed transaction of the sync store has written

One lemma for each function that can fail: what it has checked, and the new database as an
update of the old one, so that every table that is not mentioned is unchanged.
-/

namespace IMail

open Relational

variable {db db' : Db}

variable {job : SyncJob}

theorem requireLease_ok {rerun : Bool} (h : requireLease db job = .ok rerun) :
    ∃ row ∈ db.syncJobs, heldBy job.id job.lockedBy row = true ∧
      db.syncJobs.find? (heldBy job.id job.lockedBy) = some row ∧ row.rerunRequested = rerun := by
  unfold requireLease at h
  split at h
  · rename_i row hrow
    cases h
    exact ⟨row, List.mem_of_find?_eq_some hrow, List.find?_some hrow, hrow, rfl⟩
  · cases h

theorem requireLease_lost (h : ∀ row ∈ db.syncJobs, heldBy job.id job.lockedBy row = false) :
    requireLease db job = .error .leaseLost := by
  have hnone : db.syncJobs.find? (heldBy job.id job.lockedBy) = none := by
    apply List.find?_eq_none.mpr
    intro row hrow
    simp [h row hrow]
  simp [requireLease, hnone]

theorem upsertState_ok {row : MailboxSyncState} {merge : MailboxSyncState → MailboxSyncState}
    (h : db.upsertState row merge = .ok db') :
    db' = { db with mailboxSyncStates := upsertStates row merge db.mailboxSyncStates } := by
  unfold Db.upsertState at h
  split_ifs at h
  cases h
  rfl

variable {now : Time}

theorem insertEvent_ok {payload : SyncEventPayload} (h : db.insertEvent job payload now = .ok db') :
    ∃ events sequence, db' = { db with syncEvents := events, syncEventSequence := sequence } := by
  unfold Db.insertEvent at h
  split_ifs at h
  cases h
  exact ⟨_, _, rfl⟩

variable {finish : SyncJob → SyncJob} {accountId newId workerId mailbox : String} {lease : ℕ}

theorem finishJob_ok (h : db.finishJob job finish = .ok db') :
    db.syncJobs.countP (heldBy job.id job.lockedBy) = 1 ∧
      db' = { db with
        syncJobs := updateWhere (heldBy job.id job.lockedBy) finish db.syncJobs } := by
  unfold Db.finishJob at h
  split_ifs at h with hcount
  cases h
  exact ⟨hcount, rfl⟩

theorem finishJob_lost (h : ∀ row ∈ db.syncJobs, heldBy job.id job.lockedBy row = false) :
    db.finishJob job finish = .error .leaseLost := by
  have hcount : db.syncJobs.countP (heldBy job.id job.lockedBy) = 0 := by
    apply List.countP_eq_zero.mpr
    intro row hrow
    simp [h row hrow]
  simp [Db.finishJob, hcount]

theorem job_isSome {id : String} : (db.job id).isSome = true ↔ ∃ j ∈ db.syncJobs, j.id = id := by
  simp [Db.job, List.find?_isSome]

theorem hasActive_iff {target : String × String × String} :
    db.hasActive target = true ↔ ∃ j ∈ db.syncJobs, j.activeKey = some target := by
  simp [Db.hasActive]

theorem insertJob_ok (h : db.insertJob job = .ok db') :
    (∀ j ∈ db.syncJobs, j.id ≠ job.id) ∧ (∀ j ∈ db.syncJobs, j.activeKey ≠ some job.target) ∧
      db.hasAccount job.accountId = true ∧ db' = { db with syncJobs := db.syncJobs ++ [job] } := by
  unfold Db.insertJob at h
  split_ifs at h with hfree
  cases h
  simp only [Bool.or_eq_true, Bool.not_eq_true', job_isSome, hasActive_iff, not_or, not_exists,
    not_and, Bool.not_eq_false] at hfree
  exact ⟨hfree.1.1, hfree.1.2, hfree.2, rfl⟩

theorem insertJobOrIgnore_ok (h : db.insertJobOrIgnore job = .ok db') :
    db' = db ∨ ((∀ j ∈ db.syncJobs, j.id ≠ job.id) ∧
      (∀ j ∈ db.syncJobs, j.activeKey ≠ some job.target) ∧
      db' = { db with syncJobs := db.syncJobs ++ [job] }) := by
  unfold Db.insertJobOrIgnore at h
  split_ifs at h with hused
  · cases h
    exact Or.inl rfl
  · cases h
    simp only [Bool.or_eq_true, job_isSome, hasActive_iff, not_or, not_exists, not_and] at hused
    exact Or.inr ⟨hused.1, hused.2, rfl⟩

theorem ensurePolicy_ok {userId : String} {policy : SyncPolicy}
    (h : ensurePolicy db accountId userId now = .ok (policy, db')) :
    (db.policy accountId = some policy ∧ db' = db) ∨
      (db.policy accountId = none ∧ policy.accountId = accountId ∧
        db' = { db with syncPolicies := db.syncPolicies ++ [policy] }) := by
  unfold ensurePolicy at h
  split at h
  · rename_i hpolicy
    cases h
    exact Or.inl ⟨hpolicy, rfl⟩
  · rename_i hpolicy
    split_ifs at h
    cases h
    exact Or.inr ⟨hpolicy, rfl, rfl⟩

theorem updatePolicy_ok {settings : SyncPolicySettings}
    (h : updatePolicy db accountId settings now = .ok db') :
    ∃ mode, validatePolicy settings = .ok mode ∧ (db.policy accountId).isSome ∧
      db' = { db with
        syncPolicies := updateWhere (fun p => p.accountId == accountId)
          (setPolicy settings mode now) db.syncPolicies
        syncJobs := policyJobs settings.enabled accountId now db.syncJobs
        mailboxSyncStates := policyStates settings.enabled accountId db.mailboxSyncStates } := by
  unfold updatePolicy at h
  split at h
  · cases h
  · rename_i mode hmode
    split_ifs at h with hpolicy
    cases h
    exact ⟨mode, hmode, hpolicy, rfl⟩

theorem enqueue_ok {input : SyncEnqueue} (h : enqueue db newId input now = .ok (job, db')) :
    (∃ existing ∈ db.syncJobs, existing.activeKey = some input.target ∧
        job = mergeEnqueue input now existing ∧
        db' = { db with
          syncJobs := updateWhere (fun j => j.id == existing.id) (mergeEnqueue input now)
            db.syncJobs }) ∨
      ((∀ j ∈ db.syncJobs, j.id ≠ newId) ∧
        (∀ j ∈ db.syncJobs, j.activeKey ≠ some input.target) ∧
        ∃ reason, job = enqueuedJob newId input reason now ∧
          db' = { db with syncJobs := db.syncJobs ++ [job] }) := by
  unfold enqueue at h
  split at h
  · cases h
  · rename_i reason _
    split at h
    · rename_i existing hfirst
      cases h
      have hmem := firstBy_mem hfirst
      simp only [List.mem_filter, beq_iff_eq] at hmem
      exact Or.inl ⟨existing, hmem.1, hmem.2, rfl, rfl⟩
    · dsimp only at h
      split at h
      · cases h
      · rename_i hinsert
        cases h
        obtain ⟨hid, hfree, _, hdb⟩ := insertJob_ok hinsert
        exact Or.inr ⟨hid, hfree, reason, rfl, hdb⟩

theorem claimNext_ok {job : Option SyncJob} (h : claimNext db workerId lease now = .ok (job, db')) :
    (job = none ∧ db' = { db with syncJobs := requeueExpired now db.syncJobs }) ∨
      ∃ row ∈ requeueExpired now db.syncJobs, row.status = .queued ∧ row.notBefore ≤ now ∧
        job = some (claimJob workerId lease now row) ∧
        db' = { db with
          syncJobs := updateWhere (fun j => j.id == row.id) (claimJob workerId lease now)
            (requeueExpired now db.syncJobs) } := by
  unfold claimNext at h
  split_ifs at h
  dsimp only at h
  split at h
  · cases h
    exact Or.inl ⟨rfl, rfl⟩
  · rename_i row hfirst
    cases h
    have hmem := firstBy_mem hfirst
    simp only [List.mem_filter, Bool.and_eq_true, decide_eq_true_eq] at hmem
    exact Or.inr ⟨row, hmem.1, hmem.2.1, hmem.2.2, rfl, rfl⟩

theorem renewLease_ok {jobId : String} {held : Bool}
    (h : renewLease db jobId workerId lease now = .ok (held, db')) :
    (held = (db.syncJobs.countP (heldBy jobId (some workerId)) == 1)) ∧
      db' = { db with
        syncJobs := updateWhere (heldBy jobId (some workerId))
          (fun j => { j with lockedUntil := some (now + lease) }) db.syncJobs } := by
  unfold renewLease at h
  split_ifs at h
  cases h
  exact ⟨rfl, rfl⟩

theorem markStarted_ok (h : markStarted db job mailbox now = .ok db') :
    (∃ row ∈ db.syncJobs, heldBy job.id job.lockedBy row = true) ∧
      ∃ events sequence, db' = { db with
        mailboxSyncStates := upsertStates (startedRow job mailbox now) (startedMerge job now)
          db.mailboxSyncStates
        syncEvents := events
        syncEventSequence := sequence } := by
  simp only [markStarted, bind_eq_ok] at h
  obtain ⟨rerun, hlease, db₁, hstate, hevent⟩ := h
  obtain ⟨row, hrow, hheld, _, _⟩ := requireLease_ok hlease
  obtain rfl := upsertState_ok hstate
  obtain ⟨events, sequence, rfl⟩ := insertEvent_ok hevent
  exact ⟨⟨row, hrow, hheld⟩, events, sequence, rfl⟩

def completedStates (job : SyncJob) (result : SyncCompletion) (next now : Time)
    (states : List MailboxSyncState) : List MailboxSyncState :=
  deleteWhere
    (fun s => s.accountId == job.accountId && isPlaceholder s.mailbox &&
      s.mailbox != result.mailbox)
    (upsertStates (completedRow job result next now) (completedMerge job result next now) states)

theorem complete_ok {result : SyncCompletion} {reconciliationMinutes : ℤ}
    (h : complete db newId job result reconciliationMinutes now = .ok db') :
    0 < reconciliationMinutes ∧ 0 ≤ result.lastSeenUid ∧
    db.syncJobs.countP (heldBy job.id job.lockedBy) = 1 ∧
    ∃ row ∈ db.syncJobs, heldBy job.id job.lockedBy row = true ∧
      (row.rerunRequested = true →
        (∀ j ∈ updateWhere (heldBy job.id job.lockedBy) (succeedJob result now) db.syncJobs,
          j.id ≠ newId) ∧
        ∀ j ∈ updateWhere (heldBy job.id job.lockedBy) (succeedJob result now) db.syncJobs,
          j.activeKey ≠ some job.target) ∧
      ∃ events sequence authRequired, db' = { db with
        syncJobs := updateWhere (heldBy job.id job.lockedBy) (succeedJob result now) db.syncJobs ++
          if row.rerunRequested then [rerunJob job newId now] else []
        mailboxSyncStates := completedStates job result (now + minutes reconciliationMinutes) now
          db.mailboxSyncStates
        accounts := updateWhere (fun a => a.id == job.accountId) (completedAccount authRequired)
          db.accounts
        syncEvents := events
        syncEventSequence := sequence } := by
  unfold complete at h
  by_cases hinvalid : reconciliationMinutes ≤ 0 ∨ result.lastSeenUid < 0
  · rw [if_pos hinvalid] at h
    cases h
  rw [if_neg hinvalid] at h
  simp only [bind_eq_ok] at h
  obtain ⟨rerun, hlease, db₁, hfinish, db₂, hstate, db₃, hevent, hlast⟩ := h
  obtain ⟨row, hrow, hheld, _, hrerun⟩ := requireLease_ok hlease
  obtain ⟨hcount, rfl⟩ := finishJob_ok hfinish
  obtain rfl := upsertState_ok hstate
  obtain ⟨events, sequence, rfl⟩ := insertEvent_ok hevent
  refine ⟨by omega, by omega, hcount, row, hrow, hheld, ?_⟩
  subst hrerun
  split_ifs at hlast with hflag
  · obtain ⟨hid, hfree, _, rfl⟩ := insertJob_ok hlast
    exact ⟨fun _ => ⟨hid, hfree⟩, events, sequence, _, by rw [if_pos hflag]; rfl⟩
  · cases hlast
    exact ⟨fun hf => absurd hf hflag, events, sequence, _,
      by rw [if_neg hflag, List.append_nil]; rfl⟩

theorem fail_ok {failure : SyncFailure} (h : fail db job failure now = .ok db') :
    db.syncJobs.countP (heldBy job.id job.lockedBy) = 1 ∧
      ∃ events sequence, db' = { db with
        syncJobs := updateWhere (heldBy job.id job.lockedBy) (failJob failure now) db.syncJobs
        mailboxSyncStates := upsertStates (failedRow job failure now) (failedMerge failure now)
          db.mailboxSyncStates
        accounts := updateWhere (fun a => a.id == job.accountId)
          (fun a => { a with status := .error, lastError := some failure.message }) db.accounts
        syncEvents := events
        syncEventSequence := sequence } := by
  simp only [fail, bind_eq_ok] at h
  obtain ⟨db₁, hfinish, db₂, hstate, db₃, hevent, hlast⟩ := h
  obtain ⟨hcount, rfl⟩ := finishJob_ok hfinish
  obtain rfl := upsertState_ok hstate
  obtain ⟨events, sequence, rfl⟩ := insertEvent_ok hevent
  cases hlast
  exact ⟨hcount, events, sequence, rfl⟩

theorem cancel_ok (h : cancel db job mailbox now = .ok db') :
    db.syncJobs.countP (heldBy job.id job.lockedBy) = 1 ∧
      db' = { db with
        syncJobs := updateWhere (heldBy job.id job.lockedBy) (cancelJob now) db.syncJobs
        mailboxSyncStates := upsertStates (cancelledRow job mailbox) cancelledMerge
          db.mailboxSyncStates } := by
  simp only [cancel, bind_eq_ok] at h
  obtain ⟨db₁, hfinish, hstate⟩ := h
  obtain ⟨hcount, rfl⟩ := finishJob_ok hfinish
  obtain rfl := upsertState_ok hstate
  exact ⟨hcount, rfl⟩

section Lost

variable {job : SyncJob} (hlost : ∀ row ∈ db.syncJobs, heldBy job.id job.lockedBy row = false)
include hlost

theorem markStarted_lost (mailbox : String) (now : Time) :
    markStarted db job mailbox now = .error .leaseLost := by
  rw [markStarted, requireLease_lost hlost]
  rfl

theorem complete_lost {newId : String} {result : SyncCompletion} {reconciliationMinutes : ℤ}
    {now : Time} (hminutes : 0 < reconciliationMinutes) (huid : 0 ≤ result.lastSeenUid) :
    complete db newId job result reconciliationMinutes now = .error .leaseLost := by
  have hvalid : ¬ (reconciliationMinutes ≤ 0 ∨ result.lastSeenUid < 0) := by omega
  simp only [complete, if_neg hvalid, requireLease_lost hlost]
  rfl

theorem fail_lost (failure : SyncFailure) (now : Time) :
    fail db job failure now = .error .leaseLost := by
  rw [fail, finishJob_lost hlost]
  rfl

theorem cancel_lost (mailbox : String) (now : Time) :
    cancel db job mailbox now = .error .leaseLost := by
  rw [cancel, finishJob_lost hlost]
  rfl

end Lost

end IMail
