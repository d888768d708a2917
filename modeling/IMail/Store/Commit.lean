import IMail.Store.Rules

/-!
# Committing a mailbox sync

`commit_mailbox_sync` of `imail-storage-sqlite/src/sync_runtime.rs`: one transaction
brings the cached messages of an account up to date with a plan. It copies labels and
snoozes from the rows it replaces, records rule work for new inbox messages, removes what
the server no longer has, writes the incoming messages and flags, and keeps at most the
5000 newest rows of the account.
-/

namespace IMail

open Relational

structure RemoteFlagUpdate where
  uid : ℕ
  unread : Bool
  flagged : Bool
  deriving DecidableEq, Repr

structure MailboxSyncPlan where
  accountId : String
  mailbox : String
  mailboxRole : String
  uidValidity : Option String := none
  highestModseq : Option String := none
  lastSeenUid : ℤ := 0
  incoming : List Message := []
  rawSources : List (String × List UInt8) := []
  removedUids : List ℕ := []
  uidValidityChanged : Bool := false
  flagUpdates : List RemoteFlagUpdate := []
  folders : List SyncMailboxFolder := []
  synced : ℤ := 0
  updated : ℤ := 0
  deleted : ℤ := 0
  deriving DecidableEq, Repr

structure MailboxSyncCommitResult where
  createdMessages : List Message
  messageChanges : List MailboxMessageChange
  deriving DecidableEq, Repr

/-- The columns of `sync_message_summaries`: everything but the body. -/
def Message.summary (m : Message) : Message := { m with text := "", html := none }

/-- `ORDER BY received_at DESC, id` -/
def summaryOrder (a b : Message) : Prop := b.date < a.date ∨ (a.date = b.date ∧ a.id ≤ b.id)

instance : DecidableRel summaryOrder := fun _ _ => inferInstanceAs (Decidable (_ ∨ _))

def syncMessageSummaries (db : Db) (accountId : String) : List Message :=
  ((db.messages.filter fun m => m.accountId == accountId).insertionSort summaryOrder).map
    Message.summary

/-- The row whose labels and snooze an incoming message takes over: its own, else one with the
same Message-ID. -/
def previousRow (db : Db) (message : Message) : Option Message :=
  firstBy (fun a b => a.id == message.id && b.id != message.id)
    (db.messages.filter fun m => m.accountId == message.accountId &&
      (m.id == message.id || (message.messageId.isSome && m.messageId == message.messageId)))

def previouslySynced (db : Db) (accountId mailbox : String) : Bool :=
  db.mailboxSyncStates.any fun s =>
    s.accountId == accountId && s.mailbox == mailbox && s.lastSuccessAt.isSome

/-- `INSERT OR IGNORE INTO mail_rule_message_state`, and whether it inserted. -/
def Db.markSeen (db : Db) (accountId identity : String) : Bool × Db :=
  if db.ruleMessageStates.any fun s => s.accountId == accountId && s.identity == identity then
    (false, db)
  else
    (true, { db with ruleMessageStates := db.ruleMessageStates ++ [⟨accountId, identity, false⟩] })

section

variable [Platform]

/-- One incoming message: the row to store, whether it is new, and the recorded rule work. -/
def prepareIncoming (runIds : RunIds) (owner : String) (rules : List MailRule) (synced : Bool)
    (plan : MailboxSyncPlan) (now : Time) (db : Db) (message : Message) :
    Except SyncRuntimeError (Message × Bool × Db) :=
  if message.accountId ≠ plan.accountId ∨ message.mailbox ≠ plan.mailbox ∨
      message.mailboxRole ≠ plan.mailboxRole then
    .error (.invalidInput "incoming message target")
  else
    match previousRow db message with
    | some row =>
      .ok ({ message with labels := row.labels, snoozedUntil := row.snoozedUntil }, false, db)
    | none =>
      let (unseen, db) := db.markSeen plan.accountId (messageIdentity message)
      if unseen && synced && message.mailboxRole == "inbox" then
        let (message, _, db) := enqueueMatches runIds owner rules message .automatic now db
        .ok (message, true, db)
      else .ok (message, true, db)

def prepareAll (runIds : RunIds) (owner : String) (rules : List MailRule) (synced : Bool)
    (plan : MailboxSyncPlan) (now : Time) :
    List Message → Db → Except SyncRuntimeError (List Message × List Message × Db)
  | [], db => .ok ([], [], db)
  | message :: messages, db => do
    let (message, created, db) ← prepareIncoming runIds owner rules synced plan now db message
    let (incoming, createdMessages, db) ←
      prepareAll runIds owner rules synced plan now messages db
    return (message :: incoming,
      if created then message :: createdMessages else createdMessages, db)

end

/-- `DELETE FROM messages`, with the cascade to `message_sources`. -/
def Db.deleteMessages (db : Db) (p : Message → Bool) : Db :=
  { db with
    messages := deleteWhere p db.messages
    messageSources := deleteWhere
      (fun s => db.messages.any fun m => p m && m.id == s.messageId) db.messageSources }

/-- What the server no longer has: everything after a change of UIDVALIDITY, else the removed
UIDs. -/
def Db.removeStale (db : Db) (plan : MailboxSyncPlan) : Db :=
  if plan.uidValidityChanged then
    db.deleteMessages fun m => m.accountId == plan.accountId && m.mailbox == plan.mailbox
  else
    plan.removedUids.foldl (fun db uid => db.deleteMessages fun m =>
      m.accountId == plan.accountId && m.mailbox == plan.mailbox && m.uid == uid) db

/-- `ON CONFLICT(id) DO UPDATE`: every column but `id` and `account_id`. -/
def Message.overwrite (old new : Message) : Message := { new with accountId := old.accountId }

/-- The row that `upsert_sync_message` leaves under the id of `message`. -/
def upsertRow (db : Db) (message : Message) : Message :=
  match db.messages.find? fun m => m.id == message.id with
  | some old => old.overwrite message
  | none => message

/-- `upsert_sync_message`, under `UNIQUE(account_id, mailbox, uid)` and the reference to
`accounts`. -/
def Db.upsertSyncMessage (db : Db) (message : Message) : Except SyncRuntimeError Db :=
  let row := upsertRow db message
  if db.messages.any fun m => m.id != row.id && m.accountId == row.accountId &&
      m.mailbox == row.mailbox && m.uid == row.uid then .error .constraint
  else if db.messages.any fun m => m.id == message.id then
    .ok { db with
      messages := updateWhere (fun m => m.id == message.id) (fun old => old.overwrite message)
        db.messages }
  else if db.hasAccount message.accountId then
    .ok { db with messages := db.messages ++ [message] }
  else .error .constraint

def Db.upsertSource (db : Db) (messageId : String) (source : List UInt8) : Db :=
  { db with
    messageSources :=
      if db.messageSources.any fun s => s.messageId == messageId then
        updateWhere (fun s => s.messageId == messageId) (fun s => { s with source })
          db.messageSources
      else db.messageSources ++ [⟨messageId, source⟩] }

/-- Other copies of an incoming message: rows with its Message-ID in the same mailbox for a
custom folder, in any mailbox of the same role otherwise. -/
def otherCopy (plan : MailboxSyncPlan) (message m : Message) : Bool :=
  m.accountId == plan.accountId && m.id != message.id && message.messageId.isSome &&
    m.messageId == message.messageId &&
    if plan.mailboxRole = "custom" then m.mailbox == plan.mailbox
    else m.mailboxRole == plan.mailboxRole

def Db.storeIncoming (plan : MailboxSyncPlan) (db : Db) (message : Message) :
    Except SyncRuntimeError Db :=
  let db := db.deleteMessages (otherCopy plan message)
  (db.upsertSyncMessage message).map fun db =>
    match plan.rawSources.find? fun entry => entry.1 == message.id with
    | some (_, source) => db.upsertSource message.id source
    | none => db

def Db.storeAll (plan : MailboxSyncPlan) : List Message → Db → Except SyncRuntimeError Db
  | [], db => .ok db
  | message :: messages, db =>
    match db.storeIncoming plan message with
    | .error e => .error e
    | .ok db => db.storeAll plan messages

def Db.applyFlags (db : Db) (plan : MailboxSyncPlan) : Db :=
  { db with
    messages := plan.flagUpdates.foldl (fun messages flags => updateWhere
      (fun m => m.accountId == plan.accountId && m.mailbox == plan.mailbox && m.uid == flags.uid)
      (fun m => { m with unread := flags.unread, flagged := flags.flagged }) messages)
      db.messages }

/-- `ORDER BY received_at DESC, id DESC` -/
def newerThan (a b : Message) : Bool := b.date < a.date || (a.date = b.date && b.id < a.id)

def cacheLimit : ℕ := 5000

def Db.evict (db : Db) (accountId : String) : Db :=
  db.deleteMessages fun m => m.accountId == accountId &&
    decide (cacheLimit ≤
      (db.messages.filter fun n => n.accountId == accountId && newerThan n m).length)

def committedAccount (plan : MailboxSyncPlan) (completedAt : Time) (a : Account) : Account :=
  { a with
    status := .connected
    lastSyncAt := some completedAt
    lastError := none
    mailboxes := plan.folders }

def Db.touchAccount (db : Db) (plan : MailboxSyncPlan) (completedAt : Time) : Db :=
  db.updateAccount plan.accountId (committedAccount plan completedAt)

/-- The writes to `messages`, `message_sources` and `accounts`. -/
def Db.writePlan (db : Db) (plan : MailboxSyncPlan) (incoming : List Message)
    (completedAt : Time) : Except SyncRuntimeError Db :=
  ((db.removeStale plan).storeAll plan incoming).map fun db =>
    ((db.applyFlags plan).evict plan.accountId).touchAccount plan completedAt

def findById (messages : List Message) (id : String) : Option Message :=
  messages.find? fun m => m.id == id

def messageChanges (before after : List Message) : List MailboxMessageChange :=
  ((before.filter fun m => (findById after m.id).isNone).map fun m => ⟨some m, none⟩) ++
    after.filterMap fun m =>
      let previous := findById before m.id
      if previous = some m then none else some ⟨previous, some m⟩

def commitMailboxSync [Platform] (db : Db) (runIds : RunIds) (plan : MailboxSyncPlan)
    (completedAt : Time) : Except SyncRuntimeError (MailboxSyncCommitResult × Db) :=
  if plan.accountId = "" ∨ plan.mailbox = "" then .error (.invalidInput "mailbox sync plan")
  else
    match db.account plan.accountId with
    | none => .error (.invalidInput "account_id")
    | some account => do
      let before := syncMessageSummaries db plan.accountId
      let rules := loadRules db account.userId
      let synced := previouslySynced db plan.accountId plan.mailbox
      let (incoming, createdMessages, db) ←
        prepareAll runIds account.userId rules synced plan completedAt plan.incoming db
      let db ← db.writePlan plan incoming completedAt
      let after := syncMessageSummaries db plan.accountId
      return (⟨createdMessages, messageChanges before after⟩, db)

end IMail
