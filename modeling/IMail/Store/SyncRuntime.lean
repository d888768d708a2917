import IMail.Sync.Targets

/-!
# The sync runtime store

`imail-storage-sqlite/src/sync_runtime.rs`. Each function is one SQLite transaction: it
returns its result with the new database, or an error, after which the database is as it
was. Identifiers drawn from `Uuid::new_v4` and clock readings are arguments. Inserts
check the primary keys, the unique index `sync_jobs_active_target` and the references to
`accounts` as the schema declares them.
-/

namespace IMail

open Relational

inductive SyncRuntimeError
  | leaseLost
  | invalidInput (what : String)
  | constraint
  deriving DecidableEq, Repr

/-- The result of one transaction. -/
abbrev Tx (α : Type) := Except SyncRuntimeError (α × Db)

structure SyncPolicySettings where
  enabled : Bool := true
  folderMode : String := "inbox"
  selectedMailboxes : List String := []
  notifyOnError : Bool := true
  deriving DecidableEq, Repr

/-- `validate_policy`, with the folder mode it accepts. -/
def validatePolicy (settings : SyncPolicySettings) : Except SyncRuntimeError FolderMode :=
  match FolderMode.parse settings.folderMode with
  | none => .error (.invalidInput "policy")
  | some mode =>
    if settings.selectedMailboxes.any fun mailbox => Text.trim mailbox = "" then
      .error (.invalidInput "policy")
    else .ok mode

/-- `policy_settings_from_value`: every field that is missing or ill-typed is the default. -/
def policySettingsFromValue (value : DefaultPolicyValue) : SyncPolicySettings :=
  let defaults : SyncPolicySettings := {}
  { enabled := value.enabled.getD defaults.enabled
    folderMode := (value.folderMode.filter fun mode => (FolderMode.parse mode).isSome).getD
      defaults.folderMode
    selectedMailboxes := (value.selectedMailboxes.map fun values => values.filterMap id).getD []
    notifyOnError := value.notifyOnError.getD defaults.notifyOnError }

def defaultPolicy (db : Db) (userId : String) : SyncPolicySettings :=
  match db.defaultPolicies.find? fun row => row.1 == userId with
  | some (_, some value) => policySettingsFromValue value
  | some (_, none) => {}
  | none => {}

/-- `ensure_policy`; the folder mode of a default always parses. -/
def ensurePolicy (db : Db) (accountId userId : String) (now : Time) : Tx SyncPolicy :=
  match db.policy accountId with
  | some policy => .ok (policy, db)
  | none =>
    if db.hasAccount accountId then
      let defaults := defaultPolicy db userId
      let policy : SyncPolicy :=
        { accountId
          enabled := defaults.enabled
          folderMode := (FolderMode.parse defaults.folderMode).getD .inbox
          selectedMailboxes := defaults.selectedMailboxes
          notifyOnError := defaults.notifyOnError
          updatedAt := now }
      .ok (policy, { db with syncPolicies := db.syncPolicies ++ [policy] })
    else .error .constraint

def policyStates (enabled : Bool) (accountId : String) :
    List MailboxSyncState → List MailboxSyncState :=
  if enabled then
    updateWhere (fun s => s.accountId == accountId) fun s =>
      { s with syncState := if s.syncState = .paused then .idle else s.syncState }
  else
    updateWhere (fun s => s.accountId == accountId) fun s =>
      { s with syncState := .paused, nextSyncAt := none }

def cancelQueued (now : Time) (j : SyncJob) : SyncJob :=
  { j with status := .cancelled, finishedAt := some now }

def policyJobs (enabled : Bool) (accountId : String) (now : Time) : List SyncJob → List SyncJob :=
  if enabled then id
  else
    updateWhere (fun j => j.accountId == accountId && j.status = .queued) (cancelQueued now)

def setPolicy (settings : SyncPolicySettings) (mode : FolderMode) (now : Time) (p : SyncPolicy) :
    SyncPolicy :=
  { p with
    enabled := settings.enabled
    folderMode := mode
    selectedMailboxes := settings.selectedMailboxes
    notifyOnError := settings.notifyOnError
    updatedAt := now }

def updatePolicy (db : Db) (accountId : String) (settings : SyncPolicySettings) (now : Time) :
    Except SyncRuntimeError Db :=
  match validatePolicy settings with
  | .error e => .error e
  | .ok mode =>
    if (db.policy accountId).isSome then
      .ok { db with
        syncPolicies := updateWhere (fun p => p.accountId == accountId)
          (setPolicy settings mode now) db.syncPolicies
        syncJobs := policyJobs settings.enabled accountId now db.syncJobs
        mailboxSyncStates := policyStates settings.enabled accountId db.mailboxSyncStates }
    else .error (.invalidInput "account policy missing")

def resumeAfterAuthorization (db : Db) (accountId : String) (now : Time) : Db :=
  { db with
    mailboxSyncStates := updateWhere
      (fun s => s.accountId == accountId && s.connectionStatus = .authRequired)
      (fun s => { s with
        connectionStatus := .connected
        syncState := .idle
        nextSyncAt := some now
        consecutiveFailures := 0
        lastErrorCode := none
        lastErrorMessage := none }) db.mailboxSyncStates }

/-- The columns of `sync_jobs_active_target`. -/
def SyncJob.target (job : SyncJob) : String × String × String :=
  (job.accountId, job.mailbox.getD "", job.mailboxRole)

def SyncJob.place (job : SyncJob) : String × Option String × String :=
  (job.accountId, job.mailbox, job.mailboxRole)

def SyncJob.activeKey (job : SyncJob) : Option (String × String × String) :=
  if job.status.active then some job.target else none

def Db.hasActive (db : Db) (target : String × String × String) : Bool :=
  db.syncJobs.any fun j => j.activeKey == some target

/-- `INSERT INTO sync_jobs` of an active row. -/
def Db.insertJob (db : Db) (job : SyncJob) : Except SyncRuntimeError Db :=
  if (db.job job.id).isSome || db.hasActive job.target || !db.hasAccount job.accountId then
    .error .constraint
  else .ok { db with syncJobs := db.syncJobs ++ [job] }

/-- `INSERT OR IGNORE INTO sync_jobs`: uniqueness conflicts are ignored, a missing account
is not. -/
def Db.insertJobOrIgnore (db : Db) (job : SyncJob) : Except SyncRuntimeError Db :=
  if (db.job job.id).isSome || db.hasActive job.target then .ok db
  else if db.hasAccount job.accountId then .ok { db with syncJobs := db.syncJobs ++ [job] }
  else .error .constraint

structure SyncEnqueue where
  accountId : String
  mailbox : Option String := none
  mailboxRole : String
  reason : String
  priority : ℤ := 0
  notBefore : Option Time := none
  deriving DecidableEq, Repr

def SyncEnqueue.target (input : SyncEnqueue) : String × String × String :=
  (input.accountId, input.mailbox.getD "", input.mailboxRole)

/-- `validate_enqueue`, with the reason it accepts. -/
def validateEnqueue (input : SyncEnqueue) : Except SyncRuntimeError SyncReason :=
  match SyncReason.parse input.reason with
  | none => .error (.invalidInput "enqueue")
  | some reason =>
    if input.accountId = "" || input.mailboxRole = "" then .error (.invalidInput "enqueue")
    else .ok reason

/-- What `enqueue` writes on the active job that it finds: a running job is asked to run
again, a queued one may become due earlier. -/
def mergeEnqueue (input : SyncEnqueue) (now : Time) (job : SyncJob) : SyncJob :=
  if job.status = .running then
    { job with rerunRequested := true, priority := max job.priority input.priority }
  else
    { job with
      priority := max job.priority input.priority
      notBefore := min job.notBefore (input.notBefore.getD now) }

/-- The row that `enqueue` inserts when the target has no active job. -/
def enqueuedJob (newId : String) (input : SyncEnqueue) (reason : SyncReason) (now : Time) :
    SyncJob :=
  { id := newId
    accountId := input.accountId
    mailbox := input.mailbox
    mailboxRole := input.mailboxRole
    reason
    status := .queued
    priority := input.priority
    notBefore := input.notBefore.getD now
    createdAt := now }

def enqueue (db : Db) (newId : String) (input : SyncEnqueue) (now : Time) : Tx SyncJob :=
  match validateEnqueue input with
  | .error e => .error e
  | .ok reason =>
    match firstBy (fun a b => a.createdAt < b.createdAt)
        (db.syncJobs.filter fun j => j.activeKey == some input.target) with
    | some existing =>
      .ok (mergeEnqueue input now existing,
        { db with
          syncJobs := updateWhere (fun j => j.id == existing.id) (mergeEnqueue input now)
            db.syncJobs })
    | none =>
      let job := enqueuedJob newId input reason now
      match db.insertJob job with
      | .error e => .error e
      | .ok db' => .ok (job, db')

def requeueExpired (now : Time) : List SyncJob → List SyncJob :=
  updateWhere (fun j => j.status = .running && j.lockedUntil.any (· ≤ now)) fun j =>
    { j with status := .queued, lockedBy := none, lockedUntil := none }

/-- `ORDER BY priority DESC, created_at ASC` -/
def claimBefore (a b : SyncJob) : Bool :=
  b.priority < a.priority || (a.priority = b.priority && a.createdAt < b.createdAt)

def claimJob (workerId : String) (lease : ℕ) (now : Time) (job : SyncJob) : SyncJob :=
  { job with
    status := .running
    lockedBy := some workerId
    lockedUntil := some (now + lease)
    attempts := job.attempts + 1
    startedAt := job.startedAt.or (some now) }

/-- `chrono_duration`: a `Duration` counts milliseconds in an `i64`. -/
def leaseInRange (lease : ℕ) : Bool := lease ≤ 9223372036854775807

def claimNext (db : Db) (workerId : String) (lease : ℕ) (now : Time) : Tx (Option SyncJob) :=
  if Text.trim workerId = "" || lease = 0 then .error (.invalidInput "worker_id/lease")
  else if !leaseInRange lease then .error (.invalidInput "lease")
  else
    let jobs := requeueExpired now db.syncJobs
    match firstBy claimBefore (jobs.filter fun j => j.status = .queued && j.notBefore ≤ now) with
    | none => .ok (none, { db with syncJobs := jobs })
    | some job =>
      .ok (some (claimJob workerId lease now job),
        { db with
          syncJobs := updateWhere (fun j => j.id == job.id) (claimJob workerId lease now) jobs })

/-- `WHERE id=? AND status='running' AND locked_by=?`; a null `locked_by` equals nothing. -/
def heldBy (jobId : String) (lockedBy : Option String) (row : SyncJob) : Bool :=
  row.id == jobId && row.status = .running && row.lockedBy.isSome && row.lockedBy == lockedBy

def renewLease (db : Db) (jobId workerId : String) (lease : ℕ) (now : Time) : Tx Bool :=
  if !leaseInRange lease then .error (.invalidInput "lease")
  else
    .ok (db.syncJobs.countP (heldBy jobId (some workerId)) == 1,
      { db with
        syncJobs := updateWhere (heldBy jobId (some workerId))
          (fun j => { j with lockedUntil := some (now + lease) }) db.syncJobs })

/-- `require_lease`: the rerun flag of the row, if the handle still holds its lease. -/
def requireLease (db : Db) (job : SyncJob) : Except SyncRuntimeError Bool :=
  match db.syncJobs.find? (heldBy job.id job.lockedBy) with
  | some row => .ok row.rerunRequested
  | none => .error .leaseLost

def sameMailbox (accountId mailbox : String) (s : MailboxSyncState) : Bool :=
  s.accountId == accountId && s.mailbox == mailbox

/-- `INSERT ... ON CONFLICT(account_id,mailbox) DO UPDATE`. -/
def upsertStates (row : MailboxSyncState) (merge : MailboxSyncState → MailboxSyncState)
    (states : List MailboxSyncState) : List MailboxSyncState :=
  if states.any (sameMailbox row.accountId row.mailbox) then
    updateWhere (sameMailbox row.accountId row.mailbox) merge states
  else states ++ [row]

/-- The upsert under the reference to `accounts`, which only an insert checks. -/
def Db.upsertState (db : Db) (row : MailboxSyncState)
    (merge : MailboxSyncState → MailboxSyncState) : Except SyncRuntimeError Db :=
  if db.mailboxSyncStates.any (sameMailbox row.accountId row.mailbox) ||
      db.hasAccount row.accountId then
    .ok { db with mailboxSyncStates := upsertStates row merge db.mailboxSyncStates }
  else .error .constraint

/-- `insert_event`; both references of the row must resolve. -/
def Db.insertEvent (db : Db) (job : SyncJob) (payload : SyncEventPayload) (now : Time) :
    Except SyncRuntimeError Db :=
  if db.hasAccount job.accountId && (db.job job.id).isSome then
    .ok { db with
      syncEvents := db.syncEvents ++
        [{ id := db.syncEventSequence + 1
           accountId := job.accountId
           jobId := some job.id
           payload
           createdAt := now }]
      syncEventSequence := db.syncEventSequence + 1 }
  else .error .constraint

def Db.updateAccount (db : Db) (accountId : String) (f : Account → Account) : Db :=
  { db with accounts := updateWhere (fun a => a.id == accountId) f db.accounts }

def startedRow (job : SyncJob) (mailbox : String) (now : Time) : MailboxSyncState :=
  { accountId := job.accountId
    mailbox
    mailboxRole := job.mailboxRole
    lastAttemptAt := some now
    syncState := .running }

def startedMerge (job : SyncJob) (now : Time) (s : MailboxSyncState) : MailboxSyncState :=
  { s with
    mailboxRole := job.mailboxRole
    lastAttemptAt := some now
    syncState := .running
    lastErrorCode := none
    lastErrorMessage := none }

def markStarted (db : Db) (job : SyncJob) (mailbox : String) (now : Time) :
    Except SyncRuntimeError Db := do
  let _ ← requireLease db job
  let db ← db.upsertState (startedRow job mailbox now) (startedMerge job now)
  db.insertEvent job (.started mailbox job.mailboxRole job.reason) now

/-- `UPDATE sync_jobs ... WHERE id=? AND status='running' AND locked_by=?`, which must change
one row. -/
def Db.finishJob (db : Db) (job : SyncJob) (finish : SyncJob → SyncJob) :
    Except SyncRuntimeError Db :=
  if db.syncJobs.countP (heldBy job.id job.lockedBy) = 1 then
    .ok { db with syncJobs := updateWhere (heldBy job.id job.lockedBy) finish db.syncJobs }
  else .error .leaseLost

structure SyncCompletion where
  mailbox : String
  uidValidity : Option String := none
  highestModseq : Option String := none
  lastSeenUid : ℤ := 0
  synced : ℤ := 0
  created : ℤ := 0
  updated : ℤ := 0
  deleted : ℤ := 0
  messageChanges : List MailboxMessageChange := []
  deriving DecidableEq, Repr

def succeedJob (result : SyncCompletion) (now : Time) (j : SyncJob) : SyncJob :=
  { j with
    status := .succeeded
    finishedAt := some now
    lockedBy := none
    lockedUntil := none
    syncedCount := some result.synced
    newCount := some result.created
    updatedCount := some result.updated
    deletedCount := some result.deleted
    errorCode := none
    errorMessage := none
    rerunRequested := false }

def completedRow (job : SyncJob) (result : SyncCompletion) (next now : Time) : MailboxSyncState :=
  { accountId := job.accountId
    mailbox := result.mailbox
    mailboxRole := job.mailboxRole
    uidValidity := result.uidValidity
    lastSeenUid := result.lastSeenUid
    highestModseq := result.highestModseq
    lastAttemptAt := some now
    lastSuccessAt := some now
    nextSyncAt := some next }

def completedMerge (job : SyncJob) (result : SyncCompletion) (next now : Time)
    (s : MailboxSyncState) : MailboxSyncState :=
  { s with
    mailboxRole := job.mailboxRole
    uidValidity := result.uidValidity
    lastSeenUid := result.lastSeenUid
    highestModseq := result.highestModseq
    lastAttemptAt := some now
    lastSuccessAt := some now
    nextSyncAt := some next
    consecutiveFailures := 0
    connectionStatus := .connected
    syncState := .idle
    lastErrorCode := none
    lastErrorMessage := none }

def Db.dropPlaceholders (db : Db) (accountId mailbox : String) : Db :=
  { db with
    mailboxSyncStates := deleteWhere
      (fun s => s.accountId == accountId && isPlaceholder s.mailbox && s.mailbox != mailbox)
      db.mailboxSyncStates }

/-- The rows of an account that wait for the user to authorize it again. -/
def Db.authRequiredStates (db : Db) (accountId : String) : List MailboxSyncState :=
  db.mailboxSyncStates.filter fun s =>
    s.accountId == accountId && s.connectionStatus = .authRequired

/-- `a DESC` on a nullable column: nulls are last. -/
def descBefore (a b : Option Time) : Bool :=
  match a, b with
  | some a, some b => b < a
  | some _, none => true
  | none, _ => false

def completedAccount (authRequired : List MailboxSyncState) (a : Account) : Account :=
  { a with
    status := if authRequired.isEmpty then .connected else .error
    lastError := (firstBy (fun s t => descBefore s.lastAttemptAt t.lastAttemptAt)
      authRequired).bind (·.lastErrorMessage) }

/-- The job that `complete` queues when a wake-up arrived in the meantime. -/
def rerunJob (job : SyncJob) (newId : String) (now : Time) : SyncJob :=
  { id := newId
    accountId := job.accountId
    mailbox := job.mailbox
    mailboxRole := job.mailboxRole
    reason := .recovery
    status := .queued
    priority := max job.priority 50
    notBefore := now
    createdAt := now }

def complete (db : Db) (newId : String) (job : SyncJob) (result : SyncCompletion)
    (reconciliationMinutes : ℤ) (now : Time) : Except SyncRuntimeError Db := do
  if reconciliationMinutes ≤ 0 ∨ result.lastSeenUid < 0 then
    throw (.invalidInput "completion")
  let next := now + minutes reconciliationMinutes
  let rerun ← requireLease db job
  let db ← db.finishJob job (succeedJob result now)
  let db ← db.upsertState (completedRow job result next now) (completedMerge job result next now)
  let db := db.dropPlaceholders job.accountId result.mailbox
  let db := db.updateAccount job.accountId (completedAccount (db.authRequiredStates job.accountId))
  let db ← db.insertEvent job (.completed result.mailbox job.mailboxRole result.synced
    result.created result.updated result.deleted result.messageChanges) now
  if rerun then db.insertJob (rerunJob job newId now) else return db

structure SyncFailure where
  mailbox : String
  code : String
  message : String
  authRequired : Bool
  retryMinutes : Option ℤ
  deriving DecidableEq, Repr

def SyncFailure.nextSyncAt (failure : SyncFailure) (now : Time) : Option Time :=
  failure.retryMinutes.map fun m => now + minutes m

def SyncFailure.connectionStatus (failure : SyncFailure) : ConnectionStatus :=
  if failure.authRequired then .authRequired else .unreachable

def SyncFailure.syncState (failure : SyncFailure) : SyncState :=
  if failure.authRequired then .paused else .backoff

def failJob (failure : SyncFailure) (now : Time) (j : SyncJob) : SyncJob :=
  { j with
    status := .failed
    finishedAt := some now
    lockedBy := none
    lockedUntil := none
    errorCode := some failure.code
    errorMessage := some failure.message }

def failedRow (job : SyncJob) (failure : SyncFailure) (now : Time) : MailboxSyncState :=
  { accountId := job.accountId
    mailbox := failure.mailbox
    mailboxRole := job.mailboxRole
    lastAttemptAt := some now
    nextSyncAt := failure.nextSyncAt now
    consecutiveFailures := 1
    connectionStatus := failure.connectionStatus
    syncState := failure.syncState
    lastErrorCode := some failure.code
    lastErrorMessage := some failure.message }

def failedMerge (failure : SyncFailure) (now : Time) (s : MailboxSyncState) : MailboxSyncState :=
  { s with
    lastAttemptAt := some now
    nextSyncAt := failure.nextSyncAt now
    consecutiveFailures := s.consecutiveFailures + 1
    connectionStatus := failure.connectionStatus
    syncState := failure.syncState
    lastErrorCode := some failure.code
    lastErrorMessage := some failure.message }

def fail (db : Db) (job : SyncJob) (failure : SyncFailure) (now : Time) :
    Except SyncRuntimeError Db := do
  let db ← db.finishJob job (failJob failure now)
  let db ← db.upsertState (failedRow job failure now) (failedMerge failure now)
  let db ← db.insertEvent job (.failed failure.mailbox job.mailboxRole failure.code
    failure.message (failure.nextSyncAt now)) now
  return db.updateAccount job.accountId fun a =>
    { a with status := .error, lastError := some failure.message }

def cancelJob (now : Time) (j : SyncJob) : SyncJob :=
  { j with
    status := .cancelled
    finishedAt := some now
    lockedBy := none
    lockedUntil := none
    errorCode := none
    errorMessage := none }

def cancelledRow (job : SyncJob) (mailbox : String) : MailboxSyncState :=
  { accountId := job.accountId
    mailbox
    mailboxRole := job.mailboxRole
    syncState := .paused }

/-- What `cancel` writes on a state row that exists. -/
def cancelledMerge (s : MailboxSyncState) : MailboxSyncState :=
  { s with syncState := .paused, nextSyncAt := none }

def cancel (db : Db) (job : SyncJob) (mailbox : String) (now : Time) :
    Except SyncRuntimeError Db := do
  let db ← db.finishJob job (cancelJob now)
  db.upsertState (cancelledRow job mailbox) cancelledMerge

def forTarget (accountId : String) (mailbox : Option String) (role : String)
    (s : MailboxSyncState) : Bool :=
  s.accountId == accountId &&
    match mailbox with
    | some mailbox => s.mailbox == mailbox
    | none => s.mailboxRole == role

/-- `ORDER BY CASE WHEN mailbox LIKE '@role:%' THEN 1 ELSE 0 END, last_success_at DESC` -/
def stateBefore (a b : MailboxSyncState) : Bool :=
  if isPlaceholder a.mailbox = isPlaceholder b.mailbox then
    descBefore a.lastSuccessAt b.lastSuccessAt
  else isPlaceholder b.mailbox

def mailboxStateForTarget (db : Db) (accountId : String) (mailbox : Option String)
    (role : String) : Option MailboxSyncState :=
  firstBy stateBefore (db.mailboxSyncStates.filter (forTarget accountId mailbox role))

def notDue (state : MailboxSyncState) (now : Time) : Bool :=
  state.connectionStatus = .authRequired || state.syncState = .paused ||
    state.nextSyncAt.any (now < ·)

def dueEnqueue (accountId : String) (target : SyncTarget) (state : Option MailboxSyncState)
    (reason : String) (now : Time) : SyncEnqueue :=
  { accountId
    mailbox := target.requestedMailbox
    mailboxRole := target.mailboxRole
    reason := if state.any (0 < ·.consecutiveFailures) then "recovery" else reason
    priority := if reason = "startup" then 5 else 0
    notBefore := some now }

/-- Sub-transactions of the scan commit one by one: an error ends the scan and keeps what was
committed before it. -/
abbrev Scan (α : Type) := Db × Except SyncRuntimeError α

/-- Identifiers for the jobs that one scan inserts, at most one for each target. -/
abbrev JobIds := String → Option String → String → String

def scanTargets (ids : JobIds) (accountId reason : String) (now : Time) :
    List SyncTarget → Db → Scan (List SyncJob)
  | [], db => (db, .ok [])
  | target :: targets, db =>
    let state := mailboxStateForTarget db accountId target.requestedMailbox target.mailboxRole
    if state.any fun s => notDue s now then scanTargets ids accountId reason now targets db
    else
      match enqueue db (ids accountId target.requestedMailbox target.mailboxRole)
          (dueEnqueue accountId target state reason now) now with
      | .error e => (db, .error e)
      | .ok (job, db') =>
        let rest := scanTargets ids accountId reason now targets db'
        (rest.1, rest.2.map (job :: ·))

section

variable [Platform]

/-- An account that is connected again leaves its authorization failures behind. -/
def resumeIfConnected (account : Account) (now : Time) (db : Db) : Db :=
  if account.status = .connected then resumeAfterAuthorization db account.id now else db

def scanAccount (ids : JobIds) (reason : String) (now : Time) (account : Account) (db : Db) :
    Scan (List SyncJob) :=
  match ensurePolicy db account.id account.userId now with
  | .error e => (db, .error e)
  | .ok (policy, db) =>
    if !policy.enabled then (db, .ok [])
    else
      let db := resumeIfConnected account now db
      if (db.authRequiredStates account.id).isEmpty then
        scanTargets ids account.id reason now (targetsForPolicy account policy) db
      else (db, .ok [])

def scanAccounts (ids : JobIds) (reason : String) (now : Time) :
    List Account → Db → Scan (List SyncJob)
  | [], db => (db, .ok [])
  | account :: accounts, db =>
    match scanAccount ids reason now account db with
    | (db, .error e) => (db, .error e)
    | (db, .ok jobs) =>
      let rest := scanAccounts ids reason now accounts db
      (rest.1, rest.2.map (jobs ++ ·))

end

/-- `sync_accounts`: `ORDER BY created_at, id`. -/
def syncAccounts (db : Db) : List Account :=
  db.accounts.insertionSort fun a b =>
    a.createdAt < b.createdAt ∨ (a.createdAt = b.createdAt ∧ a.id ≤ b.id)

def RuleRunStatus.unfinished : RuleRunStatus → Bool
  | .pending | .running | .failed | .needsReview => true
  | .succeeded | .cancelled => false

def Db.unblocked (db : Db) (run : MailRuleRun) : Bool :=
  !db.mailRuleRuns.any fun earlier =>
    earlier.accountId == run.accountId && earlier.identity == run.identity &&
      decide (earlier.sequence < run.sequence) && earlier.status.unfinished

def ruleRunDue (db : Db) (now : Time) (run : MailRuleRun) : Bool :=
  (db.accounts.any fun a => a.id == run.accountId && a.status = .connected) &&
  (run.status = .pending || run.status = .running) &&
  run.leaseUntil.all (· ≤ now) &&
  db.unblocked run &&
  !(db.syncJobs.any fun j => j.accountId == run.accountId && j.status.active) &&
  !(db.mailboxSyncStates.any fun s => s.accountId == run.accountId &&
    (s.connectionStatus = .authRequired ||
      (s.syncState = .backoff && s.nextSyncAt.any (now < ·))))

/-- `SELECT DISTINCT r.account_id`. -/
def dueRuleAccounts (db : Db) (now : Time) : List String :=
  ((db.mailRuleRuns.filter (ruleRunDue db now)).map (·.accountId)).dedup

def ruleEnqueue (accountId : String) (now : Time) : SyncEnqueue :=
  { accountId, mailboxRole := "inbox", reason := "recovery", priority := 5, notBefore := some now }

def scanRules (ids : JobIds) (now : Time) : List String → Db → Scan (List SyncJob)
  | [], db => (db, .ok [])
  | accountId :: accounts, db =>
    match enqueue db (ids accountId none "inbox") (ruleEnqueue accountId now) now with
    | .error e => (db, .error e)
    | .ok (job, db') =>
      let rest := scanRules ids now accounts db'
      (rest.1, rest.2.map (job :: ·))

def pruneEvents (db : Db) (before : Time) : Db :=
  { db with syncEvents := deleteWhere (fun e => e.createdAt < before) db.syncEvents }

def eventRetention : ℤ := minutes (7 * 24 * 60)

def enqueueDueSyncs [Platform] (db : Db) (ids : JobIds) (reason : String) (now : Time) :
    Scan (List SyncJob) :=
  if reason = "startup" ∨ reason = "scheduled" then
    match scanAccounts ids reason now (syncAccounts db) db with
    | (db, .error e) => (db, .error e)
    | (db, .ok jobs) =>
      match scanRules ids now (dueRuleAccounts db now) db with
      | (db, .error e) => (db, .error e)
      | (db, .ok ruleJobs) => (pruneEvents db (now - eventRetention), .ok (jobs ++ ruleJobs))
  else (db, .error (.invalidInput "scheduler reason"))

end IMail
