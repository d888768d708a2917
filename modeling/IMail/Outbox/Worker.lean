import IMail.Mail.Sending
import IMail.Transition.Run

/-!
# The outbox workers

The loop of `OutboxRuntime::start` in `imail-http/src/outbox.rs`, cut where it touches the
database or the mail server, so that the steps of any number of workers interleave with one
another and with the calls of users. A worker may stop for good or stall between any two
of its steps; a slot whose worker has stopped may be taken by a new one.
-/

namespace IMail

open Relational Transition

/-- What a worker has done of one turn of its loop. -/
inductive WorkerPhase
  | idle
  /-- `claim_due_outbox` has returned an item. -/
  | claimed (work : OutboxWorkItem)
  /-- Everything before `SmtpPort::send` has succeeded. -/
  | armed (work : OutboxWorkItem) (config : MailConnectionConfig) (message : OutgoingMessage)
  /-- `send_for_blocking` has returned. -/
  | returned (work : OutboxWorkItem) (result : Except MailApplicationError SendMessageResult)
  /-- The server has the message, but `complete_outbox` has not returned `Ok(true)`. -/
  | uncommitted (work : OutboxWorkItem)

def WorkerPhase.item : WorkerPhase → Option String
  | idle => none
  | claimed work | armed work _ _ | returned work _ | uncommitted work => some work.id

structure OutboxWorld where
  db : Db
  workers : ℕ → WorkerPhase := fun _ => .idle
  /-- The items that `SmtpPort::send` has been called for, one entry a call. -/
  sends : List String := []
  /-- The identifiers that items have had. -/
  used : List String := db.outboxItems.map (·.id)

/-- `stored` says whether the transactions of a report go through. -/
inductive OutboxOp
  | schedule (owner : String) (input : OutboxSchedule)
  | cancel (owner id : String) (now : Time)
  | retry (owner id : String) (now : Time)
  | resolve (owner id : String) (wasSent : Bool) (now : Time)
  | prune (before : Time)
  | accounts (rows : List Account)
  | claim (worker : ℕ) (now : Time)
  | prepare (worker : ℕ) (env : SendEnvironment)
  | send (worker : ℕ) (answer : Except String SendMessageResult)
  | report (worker : ℕ) (stored : Bool) (now : Time)
  | crash (worker : ℕ)

/-- Another part of the program writes the accounts; the items of an account go with it. -/
def setAccounts (db : Db) (rows : List Account) : Db :=
  { db with
    accounts := rows
    outboxItems := deleteWhere (fun i => !rows.any fun a => a.id == i.accountId) db.outboxItems }

def sendDetail [Platform] (error : MailApplicationError) : String :=
  if error.uncertain then "SMTP 发送结果不确定，请核对已发送邮件后人工处理。"
  else String.ofList (error.text.toList.take 500)

def localCommitFailed (db : Db) (id : String) (now : Time) : Db :=
  (failOutbox db id "OUTBOX_LOCAL_COMMIT_FAILED"
    "SMTP 已接受邮件，但本地状态提交失败，请核对已发送邮件后人工处理。" true now).2

namespace OutboxWorld

def setWorker (w : OutboxWorld) (worker : ℕ) (phase : WorkerPhase) : OutboxWorld :=
  { w with workers := Function.update w.workers worker phase }

def setDb (w : OutboxWorld) (db : Db) : OutboxWorld := { w with db := db }

section

variable (w : OutboxWorld) (worker : ℕ) (phase : WorkerPhase)

@[simp] theorem setWorker_db : (w.setWorker worker phase).db = w.db := rfl

@[simp] theorem setWorker_sends : (w.setWorker worker phase).sends = w.sends := rfl

@[simp] theorem setWorker_used : (w.setWorker worker phase).used = w.used := rfl

@[simp] theorem setWorker_self : (w.setWorker worker phase).workers worker = phase := by
  simp [setWorker]

end

section

variable (w : OutboxWorld)

theorem setWorker_of_ne {worker other : ℕ} (phase : WorkerPhase)
    (h : other ≠ worker) : (w.setWorker worker phase).workers other = w.workers other := by
  simp [setWorker, h]

@[simp] theorem setDb_db (db : Db) : (w.setDb db).db = db := rfl

@[simp] theorem setDb_workers (db : Db) : (w.setDb db).workers = w.workers := rfl

@[simp] theorem setDb_sends (db : Db) : (w.setDb db).sends = w.sends := rfl

@[simp] theorem setDb_used (db : Db) : (w.setDb db).used = w.used := rfl

end

variable [Platform]

/-- What a worker does with the result of `send_for_blocking`. -/
def report (w : OutboxWorld) (worker : ℕ) (stored : Bool) (now : Time) : OutboxWorld :=
  match w.workers worker with
  | .returned work (.ok sent) =>
    let (completed, db) := completeOutbox w.db work.id sent.messageId now
    (if stored then w.setDb db else w).setWorker worker
      (if stored && completed then .idle else .uncommitted work)
  | .returned work (.error error) =>
    let (_, db) := failOutbox w.db work.id error.code (sendDetail error) error.uncertain now
    (if stored then w.setDb db else w).setWorker worker .idle
  | .uncommitted work =>
    (if stored then w.setDb (localCommitFailed w.db work.id now) else w).setWorker worker .idle
  | .idle | .claimed _ | .armed .. => w

def step (w : OutboxWorld) : OutboxOp → OutboxWorld
  | .schedule owner input =>
    match scheduleOutbox w.db owner input with
    | .ok (_, db) => { w.setDb db with used := input.id :: w.used }
    | .error _ => { w with used := input.id :: w.used }
  | .cancel owner id now => w.setDb (cancelOutbox w.db owner id now).2
  | .retry owner id now => w.setDb (retryOutbox w.db owner id now).2
  | .resolve owner id wasSent now => w.setDb (resolveOutbox w.db owner id wasSent now).2
  | .prune before => w.setDb (pruneOutbox w.db before)
  | .accounts rows => w.setDb (setAccounts w.db rows)
  | .claim worker now =>
    match w.workers worker with
    | .idle =>
      match claimDueOutbox w.db now with
      | (some work, db) => (w.setDb db).setWorker worker (.claimed work)
      | (none, db) => w.setDb db
    | _ => w
  | .prepare worker env =>
    match w.workers worker with
    | .claimed work =>
      match prepareSend w.db env work.ownerId work.message with
      | .error e => w.setWorker worker (.returned work (.error e))
      | .ok (config, message) => w.setWorker worker (.armed work config message)
    | _ => w
  | .send worker answer =>
    match w.workers worker with
    | .armed work _ _ =>
      { w.setWorker worker (.returned work (smtpResult answer)) with sends := work.id :: w.sends }
    | _ => w
  | .report worker stored now => w.report worker stored now
  | .crash worker => w.setWorker worker .idle

abbrev run (w : OutboxWorld) (ops : List OutboxOp) : OutboxWorld := exec step w ops

end OutboxWorld

end IMail
