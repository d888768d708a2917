import IMail.Sync.States

/-!
# The embedded executor

How `imail-runtime/src/embedded_executor.rs` reports a failed job, and the calls that
`sync_workers.rs` makes for the job it holds. The delay after a failure is looked up with
the number of times the job has been claimed; a new job is made for the next attempt of
the target, so that this number says nothing about earlier failures of the target.
-/

namespace IMail

open Relational Transition

/-- The row that the state of a job is filed under. -/
def jobMailbox (job : SyncJob) : String := targetMailbox job.mailbox job.mailboxRole

section

variable [Platform]

/-- The failure that `execute` returns for an error text. -/
def executeFailure (job : SyncJob) (detail : String) : SyncFailure :=
  let classified := classifySyncFailure detail
  { mailbox := jobMailbox job
    code := classified.code
    message := classified.message
    authRequired := classified.authRequired
    retryMinutes :=
      if !classified.authRequired && classified.code != "ACCOUNT_NOT_FOUND" then
        some (retryMinutes job.attempts)
      else none }

/-- The counter of a job counts the handles given out for it. -/
structure AttemptInv (w : SyncWorld) : Prop extends HandleInv w where
  rows : ∀ j ∈ w.db.syncJobs, j.attempts = (w.handles.countP fun h => h.id == j.id : ℕ)
  handles : ∀ h ∈ w.handles, 1 ≤ h.attempts ∧
    h.attempts ≤ (w.handles.countP fun g => g.id == h.id : ℕ)

omit [Platform] in
theorem queueWrite_attempts {db : Db} {op : SyncOp} {jobs jobs' : List SyncJob}
    (hwrite : QueueWrite db op jobs jobs') (hissued : op.issued db = none)
    {handles : List SyncJob} (hnamed : ∀ h ∈ handles, ∃ j ∈ jobs, j.id = h.id)
    (h : ∀ j ∈ jobs, j.attempts = (handles.countP fun g => g.id == j.id : ℕ)) :
    ∀ j ∈ jobs', j.attempts = (handles.countP fun g => g.id == j.id : ℕ) := by
  cases hwrite with
  | insert origin fresh newId free =>
    intro j hj
    rcases List.mem_append.mp hj with hj | hj
    · exact h j hj
    · obtain rfl := List.mem_singleton.mp hj
      have hzero : handles.countP (fun g => g.id == j.id) = 0 := by
        apply List.countP_eq_zero.mpr
        intro g hg heq
        obtain ⟨i, hi, hid⟩ := hnamed g hg
        exact newId i hi (hid.trans (beq_iff_eq.mp heq))
      rw [fresh.untried, hzero]
      rfl
  | merge call ok mem key =>
    exact forall_updateWhere (fun j hj _ => h j hj) fun j hj _ => by simpa using h j hj
  | cancel call => exact forall_updateWhere (fun j hj _ => h j hj) fun j hj _ => h j hj
  | requeue call => exact forall_updateWhere (fun j hj _ => h j hj) fun j hj _ => h j hj
  | claim call mem queued issued =>
    rw [hissued] at issued
    cases issued
  | renew call => exact forall_updateWhere (fun j hj _ => h j hj) fun j hj _ => h j hj
  | finish call ends =>
    refine forall_updateWhere (fun j hj _ => h j hj) fun j hj _ => ?_
    rw [ends.attempts_eq, ends.id_eq]
    exact h j hj
  | wake call => exact forall_updateWhere (fun j hj _ => h j hj) fun j hj _ => h j hj

theorem step_attempts_rows {w : SyncWorld} {op : SyncOp} (hop : op.single = true)
    (hissued : op.issued w.db = none) (h : AttemptInv w) :
    ∀ j ∈ (op.apply w.db).syncJobs, j.attempts = (w.handles.countP fun g => g.id == j.id : ℕ) := by
  refine (queue_writes_preserve (fun jobs => QueueInv jobs ∧
      (∀ g ∈ w.handles, HasJob g.id g.place jobs) ∧
      ∀ j ∈ jobs, j.attempts = (w.handles.countP fun g => g.id == j.id : ℕ)) ?_
    (apply_single w.db op hop).queue ⟨h.queue, h.named, h.rows⟩).2.2
  rintro jobs jobs' hwrite ⟨hinv, hnamed, hrows⟩
  refine ⟨queueWrite_inv _ _ _ _ hwrite hinv,
    fun g hg => queueWrite_hasJob hwrite hinv (hnamed g hg), ?_⟩
  refine queueWrite_attempts hwrite hissued (fun g hg => ?_) hrows
  obtain ⟨j, hj, hid, _⟩ := hnamed g hg
  exact ⟨j, hj, hid⟩

theorem step_attemptInv (w : SyncWorld) (op : SyncOp) (hop : op.single = true)
    (h : AttemptInv w) : AttemptInv (w.step op) := by
  have hrequeued : ∀ now, ∀ j ∈ requeueExpired now w.db.syncJobs,
      j.attempts = (w.handles.countP fun g => g.id == j.id : ℕ) :=
    fun _ => forall_updateWhere (fun j hj _ => h.rows j hj) fun j hj _ => h.rows j hj
  refine ⟨step_handleInv w op hop h.toHandleInv, ?_, ?_⟩
  · cases hissued : op.issued w.db with
    | none => simpa [hissued] using step_attempts_rows hop hissued h
    | some new =>
      obtain ⟨workerId, lease, now, db', rfl, hclaim, _⟩ := issued_hasJob hissued
      rcases claimNext_ok hclaim with ⟨hnone, _⟩ | ⟨row, hmem, _, _, hnew, rfl⟩
      · cases hnone
      cases hnew
      simp only [SyncWorld.step_db, SyncWorld.step_handles, hissued, SyncOp.apply, hclaim,
        Except.map, committed_ok, Option.toList_some, List.countP_append]
      refine forall_updateWhere ?_ ?_
      · intro j hj hp
        have hne : (row.id == j.id) = false := by
          rw [beq_eq_false_iff_ne] at hp ⊢
          exact Ne.symm hp
        simp [claimJob, hne, hrequeued now j hj]
      · intro j hj hp
        have heq : (row.id == j.id) = true := beq_iff_eq.mpr (beq_iff_eq.mp hp).symm
        simp [claimJob, heq, hrequeued now j hj]
  · intro g hg
    rcases List.mem_append.mp hg with hg | hg
    · obtain ⟨hlow, hhigh⟩ := h.handles g hg
      refine ⟨hlow, hhigh.trans ?_⟩
      simp [List.countP_append]
    · have hissued := Option.mem_toList.mp hg
      obtain ⟨workerId, lease, now, db', rfl, hclaim, _⟩ := issued_hasJob hissued
      rcases claimNext_ok hclaim with ⟨hnone, _⟩ | ⟨row, hmem, _, _, hnew, rfl⟩
      · cases hnone
      cases hnew
      have hrow := hrequeued now row hmem
      simp only [SyncWorld.step_handles, Option.mem_def.mp hissued, Option.toList_some,
        List.countP_append, List.countP_singleton]
      simp only [claimJob, hrow, beq_self_eq_true, if_true]
      push_cast
      omega

theorem attemptInv_run {db : Db} (hdb : db.syncJobs = []) (ops : List SyncOp) :
    AttemptInv ((SyncWorld.mk db []).run ops) :=
  invariant_run AttemptInv step_attemptInv ops
    { queue := by rw [hdb]; exact QueueInv.nil
      named := by simp
      rows := by simp [hdb]
      handles := by simp }

/-- From an empty queue on, each job has been handed out as often as it counts. -/
theorem attempts_count_handles (db : Db) (ops : List SyncOp) :
    let w := (SyncWorld.mk { db with syncJobs := [] } []).run ops
    w.db.syncJobs.map (·.attempts) =
      w.db.syncJobs.map fun j => (w.handles.countP (·.id == j.id) : ℤ) :=
  List.map_congr_left (attemptInv_run rfl ops).rows

/-- The failures of a target in a row: a failed job counts, a completed one starts again. -/
def failStreak (target : String × String × String) : SyncWorld → List SyncOp → ℕ → ℕ
  | _, [], n => n
  | w, op :: ops, n =>
    failStreak target (w.step op) ops <|
      match op with
      | .fail job failure now =>
        if job.target = target ∧ (fail w.db job failure now).isOk then n + 1 else n
      | .complete newId job result reconciliationMinutes now =>
        if job.target = target ∧ (complete w.db newId job result reconciliationMinutes now).isOk
        then 0 else n
      | _ => n

omit [Platform] in
theorem retryMinutes_eq_one {k : ℕ} (hk : 1 ≤ k) : retryMinutes k = 1 ↔ k = 1 := by
  constructor
  · intro h
    by_contra hne
    have hindex : ((k : ℤ) - 1).toNat = k - 1 := by omega
    simp only [retryMinutes, hindex] at h
    rw [if_neg (by omega)] at h
    obtain hk | hk | hk | hk : k = 2 ∨ k = 3 ∨ k = 4 ∨ 5 ≤ k := by omega
    · subst hk; revert h; decide
    · subst hk; revert h; decide
    · subst hk; revert h; decide
    · rw [min_eq_right (by omega)] at h
      revert h
      decide
  · rintro rfl
    decide

/-- The `k`-th failure in a row of a target, of a job that was claimed once, is retried after
`retry_minutes(k)` minutes exactly if it is the first and the account was found. -/
theorem retry_delay_iff (db : Db) (hdb : db.syncJobs = []) (ops : List SyncOp) (handle : SyncJob)
    (hhandle : handle ∈ ((SyncWorld.mk db []).run ops).handles)
    (hclaimed : ((SyncWorld.mk db []).run ops).handles.countP (fun h => h.id == handle.id) = 1)
    (detail : String) (hauth : (classifySyncFailure detail).authRequired = false) (now : Time)
    (db' : Db)
    (hfail : fail ((SyncWorld.mk db []).run ops).db handle (executeFailure handle detail) now =
      .ok db') (k : ℕ) (hk : k = failStreak handle.target ⟨db, []⟩ ops 0 + 1) :
    ∃ s, db'.mailboxSyncStates.find? (sameMailbox handle.accountId (jobMailbox handle)) = some s ∧
      (s.nextSyncAt = some (now + minutes (retryMinutes k)) ↔
        k = 1 ∧ (classifySyncFailure detail).code ≠ "ACCOUNT_NOT_FOUND") := by
  have hattempts : handle.attempts = 1 := by
    obtain ⟨hlow, hhigh⟩ := (attemptInv_run hdb ops).handles handle hhandle
    rw [hclaimed] at hhigh
    push_cast at hhigh
    omega
  obtain ⟨_, events, sequence, rfl⟩ := fail_ok hfail
  have hkey : ∀ s, (failedMerge (executeFailure handle detail) now s).accountId = s.accountId ∧
      (failedMerge (executeFailure handle detail) now s).mailbox = s.mailbox := fun _ => ⟨rfl, rfl⟩
  obtain ⟨s, hs, hrow⟩ := find?_upsertStates (failedRow handle (executeFailure handle detail) now)
    ((SyncWorld.mk db []).run ops).db.mailboxSyncStates hkey
  refine ⟨s, hs, ?_⟩
  have hnext : s.nextSyncAt = (executeFailure handle detail).nextSyncAt now := by
    rcases hrow with rfl | ⟨old, _, rfl⟩ <;> rfl
  have hone : retryMinutes handle.attempts = 1 := by
    rw [hattempts]
    decide
  rw [hnext]
  by_cases hcode : (classifySyncFailure detail).code = "ACCOUNT_NOT_FOUND"
  · simp [SyncFailure.nextSyncAt, executeFailure, hauth, hcode]
  · have hdelay : (executeFailure handle detail).nextSyncAt now = some (now + minutes 1) := by
      simp [SyncFailure.nextSyncAt, executeFailure, hauth, hcode, hone]
    have hcancel : now + minutes 1 = now + minutes (retryMinutes k) ↔ retryMinutes k = 1 := by
      constructor
      · intro h
        have hsame : (1 : ℤ) * 60000 = retryMinutes k * 60000 := add_left_cancel h
        omega
      · intro h
        rw [h]
    rw [hdelay, Option.some.injEq, hcancel, retryMinutes_eq_one (by omega)]
    simp [hcode]

def inboxFailedOnce : List SyncOp :=
  claimedByP ++
    [.fail handleOfP (executeFailure handleOfP "connection reset") 5,
      .enqueue "k" inboxRequest 60005, .claimNext "P" 10 60005]

end

def secondHandle : SyncJob := claimJob "P" 10 60005 (enqueuedJob "k" inboxRequest .manual 60005)

theorem retry_delay_iff_first :
    let _ := Platform.plain
    ∃ db' s, fail ((SyncWorld.mk singleAccountDb []).run claimedByP).db handleOfP
        (executeFailure handleOfP "connection reset") 5 = .ok db' ∧
      db'.mailboxSyncStates.find? (sameMailbox "a" "@role:inbox") = some s ∧
      s.nextSyncAt = some (5 + minutes 1) := by
  intro _
  obtain ⟨s, hs, hnext⟩ := retry_delay_iff singleAccountDb rfl claimedByP handleOfP (by decide)
    (by decide) "connection reset" (by decide +kernel) 5 _ rfl 1 rfl
  exact ⟨_, s, rfl, hs, hnext.mpr ⟨rfl, by decide +kernel⟩⟩

/-- The second failure in a row is retried after one minute, as the first was, and not after
five. -/
theorem second_failure_not_escalated :
    let _ := Platform.plain
    let w := (SyncWorld.mk singleAccountDb []).run inboxFailedOnce
    secondHandle ∈ w.handles ∧ w.handles.countP (fun h => h.id == secondHandle.id) = 1 ∧
    failStreak secondHandle.target ⟨singleAccountDb, []⟩ inboxFailedOnce 0 + 1 = 2 ∧
    (classifySyncFailure "connection reset").authRequired = false ∧
    ((fail w.db secondHandle (executeFailure secondHandle "connection reset") 60010).toOption.map
        fun db' => db'.mailboxSyncStates.map fun s => (s.mailbox, s.nextSyncAt)) =
      some [("@role:inbox", some (60010 + minutes 1))] ∧
    retryMinutes 2 = 5 := by
  intro _
  refine ⟨by decide +kernel, by decide +kernel, by decide +kernel, by decide +kernel,
    by decide +kernel, by decide⟩

end IMail
