import IMail.Relational.Table
import IMail.Text.Strings

/-!
# Tables of the mail store

One record type for each table of schema v10 with its later migrations, restricted to
the columns that the modelled functions read or write. JSON columns carry the decoded
value, columns with a `CHECK (... IN ...)` constraint are enumerations, and every time
stamp is the number of milliseconds that `timestamp` writes, so that the order of the
stored texts is the order of the numbers. A `Db` is the content of all tables.
-/

namespace IMail

/-- Milliseconds since the epoch. -/
abbrev Time := ℤ

/-- `Duration::minutes`, in milliseconds. -/
def minutes (n : ℤ) : ℤ := n * 60000

inductive SyncReason
  | scheduled | startup | manual | recovery
  deriving DecidableEq, Repr

/-- The four reasons that pass `validate_enqueue`. -/
def SyncReason.parse (s : String) : Option SyncReason :=
  if s = "scheduled" then some .scheduled
  else if s = "startup" then some .startup
  else if s = "manual" then some .manual
  else if s = "recovery" then some .recovery
  else none

inductive JobStatus
  | queued | running | succeeded | failed | cancelled
  deriving DecidableEq, Repr

/-- `status IN ('queued','running')`. -/
def JobStatus.active : JobStatus → Bool
  | .queued | .running => true
  | .succeeded | .failed | .cancelled => false

/-- A row of `sync_jobs`; the same record is the handle that a worker holds. -/
structure SyncJob where
  id : String
  accountId : String
  mailbox : Option String
  mailboxRole : String
  reason : SyncReason
  status : JobStatus
  priority : ℤ
  notBefore : Time
  lockedBy : Option String := none
  lockedUntil : Option Time := none
  attempts : ℤ := 0
  createdAt : Time
  startedAt : Option Time := none
  finishedAt : Option Time := none
  syncedCount : Option ℤ := none
  newCount : Option ℤ := none
  updatedCount : Option ℤ := none
  deletedCount : Option ℤ := none
  errorCode : Option String := none
  errorMessage : Option String := none
  rerunRequested : Bool := false
  deriving DecidableEq, Repr

inductive FolderMode
  | inbox | standard | selected
  deriving DecidableEq, Repr

def FolderMode.parse (s : String) : Option FolderMode :=
  if s = "inbox" then some .inbox
  else if s = "standard" then some .standard
  else if s = "selected" then some .selected
  else none

/-- A row of `sync_policies`. -/
structure SyncPolicy where
  accountId : String
  enabled : Bool
  folderMode : FolderMode
  selectedMailboxes : List String
  notifyOnError : Bool
  updatedAt : Time
  deriving DecidableEq, Repr

inductive ConnectionStatus
  | connected | unreachable | authRequired
  deriving DecidableEq, Repr

inductive SyncState
  | idle | scheduled | running | backoff | paused
  deriving DecidableEq, Repr

/-- A row of `mailbox_sync_states`. -/
structure MailboxSyncState where
  accountId : String
  mailbox : String
  mailboxRole : String
  uidValidity : Option String := none
  lastSeenUid : ℤ := 0
  highestModseq : Option String := none
  lastAttemptAt : Option Time := none
  lastSuccessAt : Option Time := none
  nextSyncAt : Option Time := none
  consecutiveFailures : ℤ := 0
  connectionStatus : ConnectionStatus := .connected
  syncState : SyncState := .idle
  lastErrorCode : Option String := none
  lastErrorMessage : Option String := none
  deriving DecidableEq, Repr

inductive AccountStatus
  | connected | syncing | error
  deriving DecidableEq, Repr

/-- `SyncMailboxFolder`, as `accounts.mailboxes_json` lists them. -/
structure SyncMailboxFolder where
  path : String
  name : String
  delimiter : String
  specialUse : Option String
  selectable : Bool
  subscribed : Bool := true
  total : Option ℕ := none
  unread : Option ℕ := none
  deriving DecidableEq, Repr

/-- The server settings of an account: a field that is missing or of another type is `none`. -/
structure AccountSettings where
  imapHost : Option String := none
  imapPort : Option ℕ := none
  imapSecure : Option Bool := none
  smtpHost : Option String := none
  smtpPort : Option ℕ := none
  smtpSecure : Option Bool := none
  deriving DecidableEq, Repr

structure ProxySettings where
  protocol : Option String := none
  host : Option String := none
  port : Option ℕ := none
  username : Option String := none
  deriving DecidableEq, Repr

/-- A row of `accounts`. The settings are `none`, and the proxy is `some none`, where the column
holds a value that is not an object. -/
structure Account where
  id : String
  userId : String
  email : String
  createdAt : Time
  provider : String := ""
  displayName : String := ""
  group : String := ""
  groupIcon : String := ""
  color : String := ""
  settings : Option AccountSettings := none
  proxy : Option (Option ProxySettings) := none
  encryptedSecret : String := ""
  authMethod : Option String := none
  lastSyncAt : Option Time := none
  status : AccountStatus := .connected
  lastError : Option String := none
  mailboxes : List SyncMailboxFolder := []
  deriving DecidableEq, Repr

structure MailAddressView where
  name : String
  address : String
  deriving DecidableEq, Repr

structure MailHeaders where
  cc : List MailAddressView := []
  replyTo : List MailAddressView := []
  inReplyTo : List String := []
  references : List String := []
  deriving DecidableEq, Repr

structure ParsedAttachmentView where
  filename : String
  contentType : String
  size : ℕ
  index : ℕ
  deriving DecidableEq, Repr

/-- `MessageReadModel`, which is also a row of `messages`; `sender` and `recipients` are
the fields `from` and `to`. -/
structure Message where
  headers : MailHeaders := {}
  id : String
  accountId : String
  mailbox : String
  mailboxRole : String
  uid : ℤ
  messageId : Option String := none
  sender : MailAddressView := ⟨"", ""⟩
  recipients : List MailAddressView := []
  subject : String := ""
  preview : String := ""
  text : String := ""
  html : Option String := none
  date : String := ""
  unread : Bool := true
  flagged : Bool := false
  hasAttachments : Bool := false
  attachments : List ParsedAttachmentView := []
  labels : List String := []
  snoozedUntil : Option String := none
  deriving DecidableEq, Repr

structure MessageSource where
  messageId : String
  source : List UInt8
  deriving DecidableEq, Repr

structure MailboxMessageChange where
  before : Option Message
  after : Option Message
  deriving DecidableEq, Repr

/-- The payloads of `sync_events`, one constructor for each event type. -/
inductive SyncEventPayload
  | started (mailbox mailboxRole : String) (reason : SyncReason)
  | completed (mailbox mailboxRole : String) (synced created updated deleted : ℤ)
      (messageChanges : List MailboxMessageChange)
  | failed (mailbox mailboxRole code message : String) (nextSyncAt : Option Time)
  | messageCreated (accountEmail : String) (message : Message)
  deriving DecidableEq, Repr

structure SyncEvent where
  id : ℕ
  accountId : String
  jobId : Option String
  payload : SyncEventPayload
  createdAt : Time
  deriving DecidableEq, Repr

inductive RuleMatchMode
  | all | any
  deriving DecidableEq, Repr

inductive RuleCondition
  | sender (value : String)
  | senderDomain (value : String)
  | recipient (value : String)
  | subjectContains (value : String)
  | bodyContains (value : String)
  | hasAttachments (value : Bool)
  | unread (value : Bool)
  | flagged (value : Bool)
  | mailboxRole (value : String)
  | label (value : String)
  deriving DecidableEq, Repr

inductive RuleAction
  | addLabel (label : String)
  | removeLabel (label : String)
  | markRead (read : Bool)
  | flag (flagged : Bool)
  | mute (muted : Bool)
  | archive
  deriving DecidableEq, Repr

structure MailRuleInput where
  name : String
  enabled : Bool
  priority : ℕ
  accountIds : List String
  matchMode : RuleMatchMode
  conditions : List RuleCondition
  actions : List RuleAction
  stopProcessing : Bool
  deriving DecidableEq, Repr

/-- A row of `mail_rules`. -/
structure MailRule where
  id : String
  userId : String
  revision : ℕ
  input : MailRuleInput
  createdAt : Time
  updatedAt : Time
  deriving DecidableEq, Repr

inductive RuleRunStatus
  | pending | running | succeeded | failed | needsReview | cancelled
  deriving DecidableEq, Repr

inductive RuleRunSource
  | automatic | manual
  deriving DecidableEq, Repr

/-- A row of `mail_rule_runs`. -/
structure MailRuleRun where
  sequence : ℕ
  id : String
  userId : String
  ruleId : String
  ruleName : String
  revision : ℕ
  accountId : String
  messageId : String
  identity : String
  source : RuleRunSource
  status : RuleRunStatus
  actions : List RuleAction
  completedActions : ℕ := 0
  localActions : ℕ
  attempts : ℕ := 0
  errorCode : Option String := none
  leaseUntil : Option Time := none
  createdAt : Time
  updatedAt : Time
  deriving DecidableEq, Repr

/-- A row of `mail_rule_message_state`. -/
structure RuleMessageState where
  accountId : String
  identity : String
  muted : Bool
  deriving DecidableEq, Repr

structure PreviewMessage where
  id : String
  fingerprint : String
  deriving DecidableEq, Repr

/-- A row of `mail_rule_previews`. -/
structure MailRulePreview where
  id : String
  userId : String
  ruleId : String
  revision : ℕ
  messages : List PreviewMessage
  expiresAt : Time
  deriving DecidableEq, Repr

/-- What `default_policy` finds in the JSON of a `sync_default_policy:` metadata row:
each field if it is there with the right type. -/
structure DefaultPolicyValue where
  enabled : Option Bool := none
  folderMode : Option String := none
  selectedMailboxes : Option (List (Option String)) := none
  notifyOnError : Option Bool := none
  deriving DecidableEq, Repr

structure ComposeEnvelope where
  bcc : List String := []
  inReplyTo : List String := []
  references : List String := []
  deriving DecidableEq, Repr

structure SendAttachmentInput where
  filename : String
  contentType : String
  data : String
  deriving DecidableEq, Repr

structure SendMessageInput where
  envelope : ComposeEnvelope := {}
  accountId : String
  recipients : List String
  cc : Option (List String) := none
  subject : String
  text : String
  html : Option String := none
  attachments : Option (List SendAttachmentInput) := none
  deriving DecidableEq, Repr

structure SendMessageResult where
  messageId : String
  accepted : List String
  deriving DecidableEq, Repr

inductive OutboxStatus
  | scheduled | sending | sent | failed | needsReview | cancelled
  deriving DecidableEq, Repr

/-- A row of `outbox_items`. -/
structure OutboxItem where
  id : String
  userId : String
  accountId : String
  message : SendMessageInput
  draftId : Option String
  idempotencyKey : Option String
  requestFingerprint : Option String
  scheduledAt : Time
  status : OutboxStatus
  attempts : ℕ := 0
  lastErrorCode : Option String := none
  lastErrorMessage : Option String := none
  leaseUntil : Option Time := none
  sentMessageId : Option String := none
  createdAt : Time
  updatedAt : Time
  sentAt : Option Time := none
  deriving DecidableEq, Repr

/-- A row of `drafts`. -/
structure Draft where
  id : String
  accountId : String
  recipients : List String
  cc : List String
  subject : String
  text : String
  html : String := ""
  attachments : List SendAttachmentInput := []
  envelope : ComposeEnvelope := {}
  createdAt : Time
  updatedAt : Time
  deriving DecidableEq, Repr

/-- The content of the database. `defaultPolicies` are the `sync_default_policy:<user>`
rows of `metadata`, with `none` for a text that is not JSON; the two counters are the
`AUTOINCREMENT` sequences. -/
structure Db where
  accounts : List Account := []
  messages : List Message := []
  messageSources : List MessageSource := []
  defaultPolicies : List (String × Option DefaultPolicyValue) := []
  syncPolicies : List SyncPolicy := []
  mailboxSyncStates : List MailboxSyncState := []
  syncJobs : List SyncJob := []
  syncEvents : List SyncEvent := []
  syncEventSequence : ℕ := 0
  mailRules : List MailRule := []
  mailRuleRuns : List MailRuleRun := []
  mailRuleRunSequence : ℕ := 0
  ruleMessageStates : List RuleMessageState := []
  mailRulePreviews : List MailRulePreview := []
  outboxItems : List OutboxItem := []
  drafts : List Draft := []
  deriving DecidableEq, Repr

namespace Db

variable (db : Db)

def account (id : String) : Option Account := db.accounts.find? fun a => a.id == id

/-- The target of every `REFERENCES accounts(id)`. -/
def hasAccount (id : String) : Bool := db.accounts.any fun a => a.id == id

def ownsAccount (owner accountId : String) : Bool :=
  db.accounts.any fun a => a.id == accountId && a.userId == owner

def job (id : String) : Option SyncJob := db.syncJobs.find? fun j => j.id == id

def policy (accountId : String) : Option SyncPolicy :=
  db.syncPolicies.find? fun p => p.accountId == accountId

end Db

end IMail
