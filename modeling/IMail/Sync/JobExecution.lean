import IMail.Store.RuleActions
import IMail.Sync.Executor

/-!
# The execution of a job

`run_job` of `imail-runtime/src/sync_workers.rs` with `execute_inner` of
`embedded_executor.rs` and `drain_rules` of `rule_executor.rs`, cut into the transactions
that they are made of. What the network answers, the plan included, is an argument of the
step that uses it. Between two steps other workers may take any number of theirs.
-/

namespace IMail

open Relational

/-- What a committed sync leaves for the rest of the execution. -/
structure SyncedBatch where
  plan : MailboxSyncPlan
  commit : MailboxSyncCommitResult
  notification : List Message
  deriving DecidableEq, Repr

/-- How far a worker is with its job. -/
inductive ExecPhase
  | idle
  /-- `claim_next` has returned the job. -/
  | claimed (job : SyncJob)
  /-- In `execute_rules`, before the sync or after it; `work` is the leased action. -/
  | draining (job : SyncJob) (owner : String) (synced : Option SyncedBatch)
      (work : Option RuleWork)
  /-- The batch has been fetched and planned. -/
  | planned (job : SyncJob) (owner : String) (plan : MailboxSyncPlan) (previouslySynced : Bool)
  /-- Only the notifications are left of `execute_inner`. -/
  | notifying (job : SyncJob) (owner : String) (batch : SyncedBatch)
  /-- `execute` has returned. -/
  | finalizing (job : SyncJob) (result : Except SyncFailure SyncCompletion)

def ExecPhase.job : ExecPhase → Option SyncJob
  | idle => none
  | claimed job | draining job .. | planned job .. | notifying job .. | finalizing job _ => some job

/-- `detail` is the text of an error, if there is one. -/
inductive ExecOp
  | claim (lease : ℕ) (now : Time)
  | start (now : Time)
  | cancelStart (now : Time)
  | claimRule (now later : Time)
  | finishRule (result : Except String (Option RemoteMessageMoveResult)) (now later : Time)
  | drained
  | fetch (plan : MailboxSyncPlan)
  | commit (runIds : RunIds) (detail : String) (now : Time)
  | notify (changes : List MailboxMessageChange) (detail : String) (now : Time)
  | abort (detail : String)
  | renew (lease : ℕ) (now : Time)
  | finish (newId : String) (reconciliationMinutes : ℤ) (now : Time)
  | cancelFinish (now : Time)
  | stop

def settle {ε α : Type} (db : Db) (r : Except ε (α × Db)) (done : α → ExecPhase)
    (failed : ExecPhase) : Db × ExecPhase :=
  match r with
  | .ok (a, db') => (db', done a)
  | .error _ => (db, failed)

def unitTx {ε : Type} (r : Except ε Db) : Except ε (Unit × Db) := r.map fun db => ((), db)

/-- `SyncCompletion::from_mailbox_commit` -/
def SyncedBatch.completion (batch : SyncedBatch) (changes : List MailboxMessageChange) :
    SyncCompletion :=
  { mailbox := batch.plan.mailbox
    uidValidity := batch.plan.uidValidity
    highestModseq := batch.plan.highestModseq
    lastSeenUid := batch.plan.lastSeenUid
    synced := batch.plan.synced
    created := batch.commit.createdMessages.length
    updated := batch.plan.updated
    deleted := batch.plan.deleted
    messageChanges := changes }

def recordNotifications (db : Db) (job : SyncJob) (owner : String) (batch : SyncedBatch)
    (now : Time) : Except SyncRuntimeError Db :=
  match db.accounts.find? fun a => a.id == job.accountId && a.userId == owner with
  | none => .error (.invalidInput "account_id")
  | some account =>
    recordMessageCreated job.accountId account.email now
      (batch.notification.filterMap fun m => ruleMessage db owner m.id) db

/-- The batch that a commit of the plan leaves; a first sync of the account notifies nobody. -/
def syncedBatch (plan : MailboxSyncPlan) (previouslySynced : Bool)
    (commit : MailboxSyncCommitResult) : SyncedBatch :=
  { plan, commit, notification := if previouslySynced then commit.createdMessages else [] }

/-- What `execute_inner` goes on to when `drain_rules` returns. -/
def afterRules (job : SyncJob) (owner : String) : Option SyncedBatch → ExecPhase
  | none => .draining job owner none none
  | some batch => .notifying job owner batch

section

variable [Platform]

def aborted (job : SyncJob) (detail : String) : ExecPhase :=
  .finalizing job (.error (executeFailure job detail))

def reportResult (db : Db) (newId : String) (job : SyncJob) (reconciliationMinutes : ℤ)
    (now : Time) : Except SyncFailure SyncCompletion → Except SyncRuntimeError Db
  | .ok completion => complete db newId job completion reconciliationMinutes now
  | .error failure => fail db job failure now

/-- A step of the worker `workerId`; one that its phase does not allow does nothing. -/
def ExecOp.apply (workerId : String) (db : Db) (phase : ExecPhase) : ExecOp → Db × ExecPhase
  | .claim lease now =>
    match phase with
    | .idle =>
      settle db (claimNext db workerId lease now)
        (fun job => match job with | some job => .claimed job | none => .idle) .idle
    | _ => (db, phase)
  | .start now =>
    match phase with
    | .claimed job =>
      match db.account job.accountId with
      | none => (db, phase)
      | some account =>
        settle db (unitTx (markStarted db job (jobMailbox job) now))
          (fun _ => .draining job account.userId none none) phase
    | _ => (db, phase)
  | .cancelStart now =>
    match phase with
    | .claimed job =>
      settle db (unitTx (IMail.cancel db job (jobMailbox job) now)) (fun _ => .idle) .idle
    | _ => (db, phase)
  | .claimRule now later =>
    match phase with
    | .draining job owner synced none =>
      settle db (claimRuleAction db owner job.accountId now later)
        (fun work => match work with
          | some work => .draining job owner synced (some work)
          | none => afterRules job owner synced)
        (aborted job "规则任务读取失败")
    | _ => (db, phase)
  | .finishRule result now later =>
    match phase with
    | .draining job owner synced (some work) =>
      settle db (unitTx (finishRuleAction db owner work result now later))
        (fun _ => .draining job owner synced none) (aborted job "规则执行结果保存失败")
    | _ => (db, phase)
  | .drained =>
    match phase with
    | .draining job owner synced none => (db, afterRules job owner synced)
    | _ => (db, phase)
  | .fetch plan =>
    match phase with
    | .draining job owner none none =>
      (db, .planned job owner { plan with accountId := job.accountId }
        ((db.account job.accountId).any (·.lastSyncAt.isSome)))
    | _ => (db, phase)
  | .commit runIds detail now =>
    match phase with
    | .planned job owner plan previouslySynced =>
      settle db (commitMailboxSync db runIds plan now)
        (fun commit => .draining job owner (some (syncedBatch plan previouslySynced commit)) none)
        (aborted job detail)
    | _ => (db, phase)
  | .notify changes detail now =>
    match phase with
    | .notifying job owner batch =>
      settle db (unitTx (recordNotifications db job owner batch now))
        (fun _ => .finalizing job (.ok (batch.completion changes))) (aborted job detail)
    | _ => (db, phase)
  | .abort detail =>
    match phase with
    | .draining job .. | .planned job .. | .notifying job .. => (db, aborted job detail)
    | _ => (db, phase)
  | .renew lease now =>
    match phase.job with
    | some job => settle db (renewLease db job.id workerId lease now) (fun _ => phase) phase
    | none => (db, phase)
  | .finish newId reconciliationMinutes now =>
    match phase with
    | .finalizing job result =>
      settle db (unitTx (reportResult db newId job reconciliationMinutes now result))
        (fun _ => .idle) phase
    | _ => (db, phase)
  | .cancelFinish now =>
    match phase with
    | .finalizing job _ =>
      settle db (unitTx (IMail.cancel db job (jobMailbox job) now)) (fun _ => .idle) phase
    | _ => (db, phase)
  | .stop => (db, .idle)

/-- The batch that a worker has committed and whose events it has not recorded. -/
def ExecPhase.batch : ExecPhase → Option (SyncJob × SyncedBatch)
  | .draining job _ (some batch) _ | .notifying job _ batch => some (job, batch)
  | .idle | .claimed _ | .draining _ _ none _ | .planned .. | .finalizing .. => none

/-- The step ends the execution without its result: an error, or the worker stops. -/
def ExecOp.fails (db : Db) (phase : ExecPhase) : ExecOp → Bool
  | .abort _ | .stop => true
  | .claimRule now later =>
    match phase with
    | .draining job owner _ none => !(claimRuleAction db owner job.accountId now later).isOk
    | _ => false
  | .finishRule result now later =>
    match phase with
    | .draining _ owner _ (some work) => !(finishRuleAction db owner work result now later).isOk
    | _ => false
  | .notify _ _ now =>
    match phase with
    | .notifying job owner batch => !(recordNotifications db job owner batch now).isOk
    | _ => false
  | .claim .. | .start _ | .cancelStart _ | .drained | .fetch _ | .commit .. | .renew .. |
    .finish .. | .cancelFinish _ => false

/-- What a step of the worker can do: nothing, give up, or one transaction that succeeds. -/
inductive ExecStep (workerId : String) (db : Db) : ExecPhase → ExecOp → Db → ExecPhase → Prop
  | stays {phase op} : ExecStep workerId db phase op db phase
  | leaves {phase op} (h : op.fails db phase = true ∨ phase.batch = none) :
    ExecStep workerId db phase op db .idle
  | aborts {phase op job} {detail : String} (hjob : phase.job = some job)
    (h : op.fails db phase = true ∨ phase.batch = none) :
    ExecStep workerId db phase op db (aborted job detail)
  | claims {lease now job db'} (h : claimNext db workerId lease now = .ok (some job, db')) :
    ExecStep workerId db .idle (.claim lease now) db' (.claimed job)
  | requeues {lease now db'} (h : claimNext db workerId lease now = .ok (none, db')) :
    ExecStep workerId db .idle (.claim lease now) db' .idle
  | starts {job now owner db'} (h : markStarted db job (jobMailbox job) now = .ok db') :
    ExecStep workerId db (.claimed job) (.start now) db' (.draining job owner none none)
  | cancels {phase op job mailbox now db'} (hjob : phase.job = some job)
    (hbatch : phase.batch = none) (h : IMail.cancel db job mailbox now = .ok db') :
    ExecStep workerId db phase op db' .idle
  | claimsRule {job owner synced now later work db'}
    (h : claimRuleAction db owner job.accountId now later = .ok (some work, db')) :
    ExecStep workerId db (.draining job owner synced none) (.claimRule now later) db'
      (.draining job owner synced (some work))
  | claimsNoRule {job owner synced now later db'}
    (h : claimRuleAction db owner job.accountId now later = .ok (none, db')) :
    ExecStep workerId db (.draining job owner synced none) (.claimRule now later) db'
      (afterRules job owner synced)
  | finishesRule {job owner synced work result now later db'}
    (h : finishRuleAction db owner work result now later = .ok db') :
    ExecStep workerId db (.draining job owner synced (some work)) (.finishRule result now later)
      db' (.draining job owner synced none)
  | drains {job owner synced} :
    ExecStep workerId db (.draining job owner synced none) .drained db
      (afterRules job owner synced)
  | fetches {job owner plan previouslySynced} :
    ExecStep workerId db (.draining job owner none none) (.fetch plan) db
      (.planned job owner { plan with accountId := job.accountId } previouslySynced)
  | commits {job owner plan previouslySynced runIds detail now commit db'}
    (h : commitMailboxSync db runIds plan now = .ok (commit, db')) :
    ExecStep workerId db (.planned job owner plan previouslySynced) (.commit runIds detail now)
      db' (.draining job owner (some (syncedBatch plan previouslySynced commit)) none)
  | notifies {job owner batch changes detail now db'}
    (h : recordNotifications db job owner batch now = .ok db') :
    ExecStep workerId db (.notifying job owner batch) (.notify changes detail now) db'
      (.finalizing job (.ok (batch.completion changes)))
  | renews {phase lease now job held db'} (hjob : phase.job = some job)
    (h : renewLease db job.id workerId lease now = .ok (held, db')) :
    ExecStep workerId db phase (.renew lease now) db' phase
  | finishes {job result newId reconciliationMinutes now db'}
    (h : reportResult db newId job reconciliationMinutes now result = .ok db') :
    ExecStep workerId db (.finalizing job result) (.finish newId reconciliationMinutes now) db'
      .idle

theorem ExecOp.apply_step (workerId : String) (db : Db) (phase : ExecPhase) (op : ExecOp) :
    ExecStep workerId db phase op (op.apply workerId db phase).1
      (op.apply workerId db phase).2 := by
  cases op with
  | renew lease now =>
    simp only [ExecOp.apply]
    split
    case h_1 job hjob =>
      cases h : renewLease db job.id workerId lease now with
      | error e => exact .stays
      | ok x => exact .renews hjob h
    case h_2 => exact .stays
  | stop => exact .leaves (Or.inl rfl)
  | claim lease now =>
    cases phase with
    | idle =>
      simp only [ExecOp.apply]
      rcases h : claimNext db workerId lease now with _ | ⟨_ | job, db'⟩
      · exact .stays
      · exact .requeues h
      · exact .claims h
    | _ => exact .stays
  | start now =>
    cases phase with
    | claimed job =>
      simp only [ExecOp.apply]
      split
      · exact .stays
      · rcases h : markStarted db job (jobMailbox job) now with _ | db'
        · exact .stays
        · exact .starts h
    | _ => exact .stays
  | cancelStart now =>
    cases phase with
    | claimed job =>
      simp only [ExecOp.apply]
      rcases h : IMail.cancel db job (jobMailbox job) now with _ | db'
      · exact .leaves (Or.inr rfl)
      · exact .cancels rfl rfl h
    | _ => exact .stays
  | cancelFinish now =>
    cases phase with
    | finalizing job result =>
      simp only [ExecOp.apply]
      rcases h : IMail.cancel db job (jobMailbox job) now with _ | db'
      · exact .stays
      · exact .cancels rfl rfl h
    | _ => exact .stays
  | claimRule now later =>
    cases phase with
    | draining job owner synced work =>
      cases work with
      | some work => exact .stays
      | none =>
        simp only [ExecOp.apply]
        rcases h : claimRuleAction db owner job.accountId now later with _ | ⟨_ | work, db'⟩
        · exact .aborts rfl (Or.inl (by rw [ExecOp.fails, h]; rfl))
        · exact .claimsNoRule h
        · exact .claimsRule h
    | _ => exact .stays
  | finishRule result now later =>
    cases phase with
    | draining job owner synced work =>
      cases work with
      | none => exact .stays
      | some work =>
        simp only [ExecOp.apply]
        rcases h : finishRuleAction db owner work result now later with _ | db'
        · exact .aborts rfl (Or.inl (by rw [ExecOp.fails, h]; rfl))
        · exact .finishesRule h
    | _ => exact .stays
  | drained =>
    simp only [ExecOp.apply]
    split
    · exact .drains
    · exact .stays
  | fetch plan =>
    simp only [ExecOp.apply]
    split
    · exact .fetches
    · exact .stays
  | commit runIds detail now =>
    cases phase with
    | planned job owner plan previouslySynced =>
      simp only [ExecOp.apply]
      rcases h : commitMailboxSync db runIds plan now with _ | ⟨commit, db'⟩
      · exact .aborts rfl (Or.inr rfl)
      · exact .commits h
    | _ => exact .stays
  | notify changes detail now =>
    cases phase with
    | notifying job owner batch =>
      simp only [ExecOp.apply]
      rcases h : recordNotifications db job owner batch now with _ | db'
      · exact .aborts rfl (Or.inl (by rw [ExecOp.fails, h]; rfl))
      · exact .notifies h
    | _ => exact .stays
  | abort detail =>
    simp only [ExecOp.apply]
    split
    case h_4 => exact .stays
    all_goals exact .aborts rfl (Or.inl rfl)
  | finish newId reconciliationMinutes now =>
    cases phase with
    | finalizing job result =>
      simp only [ExecOp.apply]
      rcases h : reportResult db newId job reconciliationMinutes now result with _ | db'
      · exact .stays
      · exact .finishes h
    | _ => exact .stays

end

end IMail
