import IMail.Store.Commit
import IMail.Transition.Run

/-!
# Histories of the sync store

A history is a list of calls to the store, each with the identifiers and clock readings it
uses. A failed call leaves the database as it was. The world also remembers every handle
that `claim_next` has given out, because that is all a worker holds of its job.

`enqueue_due_syncs` is the one call that is not a single transaction: if nobody interrupts it, it
is the sequence of transactions that `scanOps` lists, each of which is a call of its own.
`Sync.ScanSteps` has scans that other calls interrupt.
-/

namespace IMail

open Relational Transition

inductive SyncOp
  | ensurePolicy (accountId userId : String) (now : Time)
  | updatePolicy (accountId : String) (settings : SyncPolicySettings) (now : Time)
  | resumeAfterAuthorization (accountId : String) (now : Time)
  | enqueue (newId : String) (input : SyncEnqueue) (now : Time)
  | enqueueDueSyncs (ids : JobIds) (reason : String) (now : Time)
  | pruneEvents (before : Time)
  | claimNext (workerId : String) (lease : ℕ) (now : Time)
  | renewLease (jobId workerId : String) (lease : ℕ) (now : Time)
  | markStarted (job : SyncJob) (mailbox : String) (now : Time)
  | complete (newId : String) (job : SyncJob) (result : SyncCompletion)
      (reconciliationMinutes : ℤ) (now : Time)
  | fail (job : SyncJob) (failure : SyncFailure) (now : Time)
  | cancel (job : SyncJob) (mailbox : String) (now : Time)
  | commitMailboxSync (runIds : RunIds) (plan : MailboxSyncPlan) (completedAt : Time)
  | applyMailRulePreview (jobIds runIds : RunIds) (owner token : String) (now : Time)
  | retryMailRuleRun (newId owner id : String) (now : Time)

section

variable [Platform]

def SyncOp.apply (db : Db) : SyncOp → Db
  | .ensurePolicy accountId userId now =>
    committed db ((IMail.ensurePolicy db accountId userId now).map Prod.snd)
  | .updatePolicy accountId settings now =>
    committed db (IMail.updatePolicy db accountId settings now)
  | .resumeAfterAuthorization accountId now => IMail.resumeAfterAuthorization db accountId now
  | .enqueue newId input now => committed db ((IMail.enqueue db newId input now).map Prod.snd)
  | .enqueueDueSyncs ids reason now => (IMail.enqueueDueSyncs db ids reason now).1
  | .pruneEvents before => IMail.pruneEvents db before
  | .claimNext workerId lease now =>
    committed db ((IMail.claimNext db workerId lease now).map Prod.snd)
  | .renewLease jobId workerId lease now =>
    committed db ((IMail.renewLease db jobId workerId lease now).map Prod.snd)
  | .markStarted job mailbox now => committed db (IMail.markStarted db job mailbox now)
  | .complete newId job result reconciliationMinutes now =>
    committed db (IMail.complete db newId job result reconciliationMinutes now)
  | .fail job failure now => committed db (IMail.fail db job failure now)
  | .cancel job mailbox now => committed db (IMail.cancel db job mailbox now)
  | .commitMailboxSync runIds plan completedAt =>
    committed db ((IMail.commitMailboxSync db runIds plan completedAt).map Prod.snd)
  | .applyMailRulePreview jobIds runIds owner token now =>
    committed db ((IMail.applyMailRulePreview db jobIds runIds owner token now).map Prod.snd)
  | .retryMailRuleRun newId owner id now =>
    committed db ((IMail.retryMailRuleRun db newId owner id now).map Prod.snd)

def SyncOp.issued (db : Db) : SyncOp → Option SyncJob
  | .claimNext workerId lease now =>
    match IMail.claimNext db workerId lease now with
    | .ok (job, _) => job
    | .error _ => none
  | _ => none

structure SyncWorld where
  db : Db
  handles : List SyncJob := []

def SyncWorld.step (w : SyncWorld) (op : SyncOp) : SyncWorld :=
  { db := op.apply w.db, handles := w.handles ++ (op.issued w.db).toList }

@[simp] theorem SyncWorld.step_db (w : SyncWorld) (op : SyncOp) :
    (w.step op).db = op.apply w.db := rfl

@[simp] theorem SyncWorld.step_handles (w : SyncWorld) (op : SyncOp) :
    (w.step op).handles = w.handles ++ (op.issued w.db).toList := rfl

/-- The states that histories from `w` reach. -/
abbrev SyncWorld.run (w : SyncWorld) (ops : List SyncOp) : SyncWorld := exec SyncWorld.step w ops

def scanTargetOps (ids : JobIds) (accountId reason : String) (now : Time) :
    List SyncTarget → Db → List SyncOp
  | [], _ => []
  | target :: targets, db =>
    let state := mailboxStateForTarget db accountId target.requestedMailbox target.mailboxRole
    if state.any fun s => notDue s now then scanTargetOps ids accountId reason now targets db
    else
      let newId := ids accountId target.requestedMailbox target.mailboxRole
      let input := dueEnqueue accountId target state reason now
      .enqueue newId input now ::
        match IMail.enqueue db newId input now with
        | .error _ => []
        | .ok (_, db') => scanTargetOps ids accountId reason now targets db'

def resumeOps (account : Account) (now : Time) : List SyncOp :=
  if account.status = .connected then [.resumeAfterAuthorization account.id now] else []

def scanAccountOps (ids : JobIds) (reason : String) (now : Time) (account : Account) (db : Db) :
    List SyncOp :=
  .ensurePolicy account.id account.userId now ::
    match IMail.ensurePolicy db account.id account.userId now with
    | .error _ => []
    | .ok (policy, db) =>
      if !policy.enabled then []
      else
        let db := resumeIfConnected account now db
        resumeOps account now ++
          if (db.authRequiredStates account.id).isEmpty then
            scanTargetOps ids account.id reason now (targetsForPolicy account policy) db
          else []

def scanAccountsOps (ids : JobIds) (reason : String) (now : Time) :
    List Account → Db → List SyncOp
  | [], _ => []
  | account :: accounts, db =>
    scanAccountOps ids reason now account db ++
      match scanAccount ids reason now account db with
      | (_, .error _) => []
      | (db, .ok _) => scanAccountsOps ids reason now accounts db

def scanRulesOps (ids : JobIds) (now : Time) : List String → Db → List SyncOp
  | [], _ => []
  | accountId :: accounts, db =>
    .enqueue (ids accountId none "inbox") (ruleEnqueue accountId now) now ::
      match IMail.enqueue db (ids accountId none "inbox") (ruleEnqueue accountId now) now with
      | .error _ => []
      | .ok (_, db') => scanRulesOps ids now accounts db'

def scanOps (db : Db) (ids : JobIds) (reason : String) (now : Time) : List SyncOp :=
  if reason = "startup" ∨ reason = "scheduled" then
    scanAccountsOps ids reason now (syncAccounts db) db ++
      match scanAccounts ids reason now (syncAccounts db) db with
      | (_, .error _) => []
      | (db, .ok _) =>
        scanRulesOps ids now (dueRuleAccounts db now) db ++
          match scanRules ids now (dueRuleAccounts db now) db with
          | (_, .error _) => []
          | (_, .ok _) => [.pruneEvents (now - eventRetention)]
  else []

def SyncOp.transactions (db : Db) : SyncOp → List SyncOp
  | .enqueueDueSyncs ids reason now => scanOps db ids reason now
  | op => [op]

theorem exec_scanTargetOps (ids : JobIds) (accountId reason : String) (now : Time)
    (targets : List SyncTarget) (db : Db) :
    exec SyncOp.apply db (scanTargetOps ids accountId reason now targets db) =
      (scanTargets ids accountId reason now targets db).1 := by
  induction targets generalizing db with
  | nil => rfl
  | cons target targets ih =>
    simp only [scanTargetOps, scanTargets]
    split_ifs
    · exact ih db
    · split <;> simp_all [SyncOp.apply, Except.map]

theorem exec_resumeOps (account : Account) (now : Time) (db : Db) :
    exec SyncOp.apply db (resumeOps account now) = resumeIfConnected account now db := by
  unfold resumeOps resumeIfConnected
  split_ifs <;> rfl

theorem exec_scanAccountOps (ids : JobIds) (reason : String) (now : Time) (account : Account)
    (db : Db) :
    exec SyncOp.apply db (scanAccountOps ids reason now account db) =
      (scanAccount ids reason now account db).1 := by
  simp only [scanAccountOps, scanAccount, exec_cons]
  split
  · rename_i h
    simp [SyncOp.apply, h, Except.map]
  · rename_i policy db' h
    simp only [SyncOp.apply, h, Except.map, committed_ok]
    split_ifs
    · rfl
    · rw [exec_append, exec_resumeOps, exec_scanTargetOps]
    · rw [List.append_nil, exec_resumeOps]

theorem exec_scanAccountsOps (ids : JobIds) (reason : String) (now : Time)
    (accounts : List Account) (db : Db) :
    exec SyncOp.apply db (scanAccountsOps ids reason now accounts db) =
      (scanAccounts ids reason now accounts db).1 := by
  induction accounts generalizing db with
  | nil => rfl
  | cons account accounts ih =>
    simp only [scanAccountsOps, scanAccounts, exec_append, exec_scanAccountOps]
    split <;> simp_all

theorem exec_scanRulesOps (ids : JobIds) (now : Time) (accounts : List String) (db : Db) :
    exec SyncOp.apply db (scanRulesOps ids now accounts db) =
      (scanRules ids now accounts db).1 := by
  induction accounts generalizing db with
  | nil => rfl
  | cons accountId accounts ih =>
    simp only [scanRulesOps, scanRules, exec_cons]
    split <;> simp_all [SyncOp.apply, Except.map]

theorem exec_scanOps (db : Db) (ids : JobIds) (reason : String) (now : Time) :
    exec SyncOp.apply db (scanOps db ids reason now) =
      (enqueueDueSyncs db ids reason now).1 := by
  simp only [scanOps, enqueueDueSyncs]
  split_ifs
  · rw [exec_append, exec_scanAccountsOps]
    split
    · simp_all
    · rename_i h
      simp only [h, exec_append, exec_scanRulesOps]
      split <;> simp_all [SyncOp.apply]
  · rfl

end

end IMail
