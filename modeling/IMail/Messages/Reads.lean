import IMail.Messages.Queries

/-!
# One message, its source, and lists for a user

The reads of `MessageRepository` that are no pages (`message`, `message_source`, `message_stats`,
`conversation_candidates`), `list_smart_folders` of `search.rs` and `mail_rule_runs` of `rules.rs`.
-/

namespace IMail

open Relational

def message (db : Db) (userId messageId : String) : Option Message :=
  (selectMessages db [fun _ m => m.id == messageId, ownedBy userId]).head?

def Db.ownsMessage (db : Db) (userId messageId : String) : Bool :=
  db.messages.any fun m => m.id == messageId && db.ownsAccount userId m.accountId

def messageSource (db : Db) (userId messageId : String) : Option (List UInt8) :=
  (db.messageSources.find? fun s =>
    s.messageId == messageId && db.ownsMessage userId s.messageId).map (·.source)

def conversationCandidates (db : Db) (userId : String) : List Message :=
  (orderBy (fun m : Message => toLex (m.date, m.id)) (selectMessages db [ownedBy userId])).map
    fun m => { m with text := "", html := none }

structure MessageStatsBucket where
  accountId : Option String := none
  group : Option String := none
  total : ℕ
  unread : ℕ
  deriving DecidableEq, Repr

structure MessageStats where
  total : ℕ
  unread : ℕ
  byAccount : List MessageStatsBucket
  byGroup : List MessageStatsBucket
  deriving DecidableEq, Repr

/-- The joined rows of a `WHERE`, for queries that group by a column of the account. -/
def joinedMessages (db : Db) (clauses : List Clause) : List (Account × Message) :=
  db.messages.filterMap fun m =>
    ((db.account m.accountId).filter fun a => clauses.all fun c => c a m).map (·, m)

/-- `coalesce(sum(m.unread),0)` -/
def unreadCount (rows : List (Account × Message)) : ℕ := rows.countP fun r => r.2.unread

/-- The messages that `message_stats` counts. -/
def statsClauses (userId now : String) : List Clause :=
  [ownedBy userId, fun _ m => m.mailboxRole == "inbox", notSnoozedAt now]

def messageStats (db : Db) (userId now : String) : MessageStats :=
  let rows := joinedMessages db (statsClauses userId now)
  { total := rows.length
    unread := unreadCount rows
    byAccount := (groupBy (fun r => r.2.accountId) rows).map fun (key, rows) =>
      { accountId := some key, total := rows.length, unread := unreadCount rows }
    byGroup := (groupBy (fun r => r.1.group) rows).map fun (key, rows) =>
      { group := some key, total := rows.length, unread := unreadCount rows } }

structure SmartFolder where
  id : String
  name : String
  filters : SearchFilters
  createdAt : String
  updatedAt : String
  deriving DecidableEq, Repr

/-- A row of `smart_folders`, with `none` for a `filters_json` that is not decoded. -/
structure SmartFolderRow where
  userId : String
  id : String
  name : String
  filters : Option SearchFilters
  createdAt : String
  updatedAt : String
  deriving DecidableEq, Repr

def listSmartFolders (rows : List SmartFolderRow) (owner : String) : Option (List SmartFolder) :=
  (orderBy (fun r : SmartFolderRow => toLex (r.createdAt, r.id))
    (rows.filter fun r => r.userId == owner)).mapM fun r =>
      r.filters.map fun filters => ⟨r.id, r.name, filters, r.createdAt, r.updatedAt⟩

structure RuleRun where
  id : String
  ruleId : String
  ruleName : String
  revision : ℕ
  accountId : String
  messageId : String
  source : RuleRunSource
  status : RuleRunStatus
  completedActions : ℕ
  totalActions : ℕ
  errorCode : Option String
  createdAt : Time
  updatedAt : Time
  deriving DecidableEq, Repr

def ruleRunLimit : ℕ := 200

def MailRuleRun.view (r : MailRuleRun) : RuleRun where
  id := r.id
  ruleId := r.ruleId
  ruleName := r.ruleName
  revision := r.revision
  accountId := r.accountId
  messageId := r.messageId
  source := r.source
  status := r.status
  completedActions := r.completedActions + r.localActions
  totalActions := r.localActions + r.actions.length
  errorCode := r.errorCode
  createdAt := r.createdAt
  updatedAt := r.updatedAt

def mailRuleRuns (db : Db) (owner : String) : List RuleRun :=
  ((orderBy (fun r : MailRuleRun => OrderDual.toDual r.sequence)
    (db.mailRuleRuns.filter fun r => r.userId == owner)).take ruleRunLimit).map MailRuleRun.view

end IMail
