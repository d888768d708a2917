import IMail.Store.SyncRuntime
import IMail.Rules.Matching

/-!
# Rule storage

`imail-storage-sqlite/src/rules.rs`: runs of matching rules are recorded in the
transaction that imports a message; local actions are done on the spot, remote ones are
left to the account's next session, one lease for each action. Applying a preview and
retrying a run also wake the sync queue, with statements of their own.
-/

namespace IMail

open Relational

inductive AuthStoreError
  | userNotFound
  | accountOwnershipViolation
  | duplicateAccount
  | invalidContentData
  | accountNotOwned
  | contentOwnershipViolation
  | idempotencyConflict
  | constraint
  deriving DecidableEq, Repr

/-- `message_identity`: a Message-ID survives moves and UID resets, the local id does not. -/
def messageIdentity (message : Message) : String :=
  match message.messageId.filter fun id => !(Text.trim id).isEmpty with
  | some id => "rfc:" ++ id
  | none => "local:" ++ message.id

def loadRules (db : Db) (owner : String) : List MailRule :=
  (db.mailRules.filter fun r => r.userId == owner).insertionSort ruleOrder

/-- Identifiers for the rule runs that one transaction inserts, by rule, account and message
identity: a second run of the same three is ignored. -/
abbrev RunIds := String → String → String → String

def RuleAction.applyLabels (labels : List String) : RuleAction → List String
  | .addLabel label => if labels.contains label then labels else labels ++ [label]
  | .removeLabel label => labels.filter (· ≠ label)
  | .markRead _ | .flag _ | .mute _ | .archive => labels

/-- `INSERT INTO mail_rule_message_state ... ON CONFLICT DO UPDATE SET muted`. -/
def Db.setMuted (db : Db) (accountId identity : String) (muted : Bool) : Db :=
  let same := fun s : RuleMessageState => s.accountId == accountId && s.identity == identity
  { db with
    ruleMessageStates :=
      if db.ruleMessageStates.any same then
        updateWhere same (fun s => { s with muted }) db.ruleMessageStates
      else db.ruleMessageStates ++ [⟨accountId, identity, muted⟩] }

def RuleAction.applyMute (accountId identity : String) (db : Db) : RuleAction → Db
  | .mute muted => db.setMuted accountId identity muted
  | .addLabel _ | .removeLabel _ | .markRead _ | .flag _ | .archive => db

/-- The run that a matching rule leaves behind; without remote actions it is already done. -/
def newRuleRun (db : Db) (id owner : String) (rule : MailRule) (message : Message)
    (source : RuleRunSource) (now : Time) : MailRuleRun :=
  let remote := rule.input.actions.filter RuleAction.isRemote
  { sequence := db.mailRuleRunSequence + 1
    id
    userId := owner
    ruleId := rule.id
    ruleName := rule.input.name
    revision := rule.revision
    accountId := message.accountId
    messageId := message.id
    identity := messageIdentity message
    source
    status := if remote.isEmpty then .succeeded else .pending
    actions := remote
    localActions := rule.input.actions.length - remote.length
    createdAt := now
    updatedAt := now }

/-- `UNIQUE(user_id,rule_id,revision,account_id,identity)` or `id TEXT NOT NULL UNIQUE`. -/
def MailRuleRun.conflicts (run other : MailRuleRun) : Bool :=
  other.id == run.id ||
    (other.userId == run.userId && other.ruleId == run.ruleId && other.revision == run.revision &&
      other.accountId == run.accountId && other.identity == run.identity)

/-- One round of the loop of `enqueue_matches`. -/
def enqueueMatch (runIds : RunIds) (owner : String) (source : RuleRunSource) (now : Time)
    (message : Message) (db : Db) (rule : MailRule) : Message × ℕ × Db :=
  let identity := messageIdentity message
  let run := newRuleRun db (runIds rule.id message.accountId identity) owner rule message source now
  if db.mailRuleRuns.any run.conflicts then (message, 0, db)
  else
    let db :=
      { db with
        mailRuleRuns := db.mailRuleRuns ++ [run]
        mailRuleRunSequence := db.mailRuleRunSequence + 1 }
    ({ message with labels := rule.input.actions.foldl RuleAction.applyLabels message.labels }, 1,
      rule.input.actions.foldl (RuleAction.applyMute message.accountId identity) db)

/-- `enqueue_matches`. The identity of the message does not depend on its labels, so every
round sees the same one. -/
def enqueueRuns (runIds : RunIds) (owner : String) (source : RuleRunSource) (now : Time) :
    List MailRule → Message → Db → Message × ℕ × Db
  | [], message, db => (message, 0, db)
  | rule :: rules, message, db =>
    let first := enqueueMatch runIds owner source now message db rule
    let rest := enqueueRuns runIds owner source now rules first.1 first.2.2
    (rest.1, first.2.1 + rest.2.1, rest.2.2)

section

variable [Platform]

def enqueueMatches (runIds : RunIds) (owner : String) (rules : List MailRule) (message : Message)
    (source : RuleRunSource) (now : Time) (db : Db) : Message × ℕ × Db :=
  enqueueRuns runIds owner source now (matchingRules rules message) message db

/-- `rule_message`: a message of one of the owner's accounts. -/
def ruleMessage (db : Db) (owner id : String) : Option Message :=
  db.messages.find? fun m => m.id == id && db.ownsAccount owner m.accountId

def fingerprint (message : Message) : String := Platform.sha256Hex (Platform.messageJson message)

def ruleJob (id accountId : String) (now : Time) : SyncJob :=
  { id
    accountId
    mailbox := none
    mailboxRole := "inbox"
    reason := .manual
    status := .queued
    priority := 10
    notBefore := now
    createdAt := now }

/-- The two statements by which rule work wakes the queue: a job for the inbox unless there
is one, and a rerun of whatever the account is running. -/
def wakeForRules (db : Db) (jobId accountId : String) (now : Time) :
    Except SyncRuntimeError Db :=
  (db.insertJobOrIgnore (ruleJob jobId accountId now)).map fun db =>
    { db with
      syncJobs := updateWhere (fun j => j.accountId == accountId && j.status = .running)
        (fun j => { j with rerunRequested := true }) db.syncJobs }

/-- One message of a preview, as `apply_mail_rule_preview` treats it. -/
def applyPreviewMessage (jobIds runIds : RunIds) (owner : String) (rule : MailRule) (now : Time)
    (expected : PreviewMessage) (db : Db) : Except AuthStoreError (ℕ × Db) :=
  match ruleMessage db owner expected.id with
  | none => .error .invalidContentData
  | some message =>
    if fingerprint message ≠ expected.fingerprint then .error .invalidContentData
    else
      let (labelled, count, db) := enqueueMatches runIds owner [rule] message .manual now db
      let db := { db with
        messages := updateWhere (fun m => m.id == message.id)
          (fun m => { m with labels := labelled.labels }) db.messages }
      if rule.input.actions.any RuleAction.isRemote then
        match wakeForRules db (jobIds owner message.accountId message.id) message.accountId now with
        | .error _ => .error .constraint
        | .ok db => .ok (count, db)
      else .ok (count, db)

def applyPreviewMessages (jobIds runIds : RunIds) (owner : String) (rule : MailRule)
    (now : Time) : List PreviewMessage → Db → Except AuthStoreError (ℕ × Db)
  | [], db => .ok (0, db)
  | expected :: rest, db =>
    match applyPreviewMessage jobIds runIds owner rule now expected db with
    | .error e => .error e
    | .ok (count, db) =>
      (applyPreviewMessages jobIds runIds owner rule now rest db).map fun result =>
        (count + result.1, result.2)

/-- `apply_mail_rule_preview`. A disabled rule can be run once by its preview. -/
def applyMailRulePreview (db : Db) (jobIds runIds : RunIds) (owner token : String) (now : Time) :
    Except AuthStoreError (ℕ × Db) :=
  match db.mailRulePreviews.find? fun p => p.id == token && p.userId == owner && now < p.expiresAt with
  | none => .error .invalidContentData
  | some preview =>
    match (loadRules db owner).find? fun r => r.id == preview.ruleId && r.revision == preview.revision with
    | none => .error .invalidContentData
    | some rule =>
      let rule := { rule with input := { rule.input with enabled := true } }
      (applyPreviewMessages jobIds runIds owner rule now preview.messages db).map fun result =>
        (result.1, { result.2 with
          mailRulePreviews := deleteWhere (fun p => p.id == token) result.2.mailRulePreviews })

end

/-- `rule.id=r.rule_id AND rule.user_id=r.user_id AND rule.revision=r.revision`: the run is of
the stored revision. -/
def Db.currentRevision (db : Db) (run : MailRuleRun) : Bool :=
  db.mailRules.any fun rule =>
    rule.id == run.ruleId && rule.userId == run.userId && rule.revision == run.revision

def Db.hasRun (db : Db) (owner : String) (rule : MailRule) (message : Message) : Bool :=
  db.mailRuleRuns.any fun run => run.userId == owner && run.ruleId == rule.id &&
    run.revision == rule.revision && run.accountId == message.accountId &&
    run.identity == messageIdentity message

def MailRuleRun.retried (now : Time) (r : MailRuleRun) : MailRuleRun :=
  { r with
    status := .pending, attempts := 0, errorCode := none, leaseUntil := none, updatedAt := now }

def retryMailRuleRun (db : Db) (newId owner id : String) (now : Time) :
    Except AuthStoreError (Bool × Db) :=
  match db.mailRuleRuns.find? fun r =>
      r.id == id && r.userId == owner && r.status = .failed && db.currentRevision r with
  | none => .ok (false, db)
  | some run =>
    let db := { db with
      mailRuleRuns := updateWhere (fun r => r.id == id)
        (MailRuleRun.retried now) db.mailRuleRuns }
    match wakeForRules db newId run.accountId now with
    | .error _ => .error .constraint
    | .ok db => .ok (true, db)

end IMail
