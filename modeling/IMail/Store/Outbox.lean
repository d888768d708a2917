import IMail.Store.Rules

/-!
# The outbox

`imail-storage-sqlite/src/outbox.rs`, and `delete_draft` of `content_data.rs`. Each function
is one transaction; those that cannot fail return what they report with the new database.
-/

namespace IMail

open Relational

def outboxLease : ℤ := minutes 10

structure OutboxWorkItem where
  id : String
  ownerId : String
  message : SendMessageInput
  deriving DecidableEq, Repr

structure OutboxSchedule where
  id : String
  message : SendMessageInput
  draftId : Option String := none
  idempotencyKey : String
  scheduledAt : Time
  now : Time
  deriving DecidableEq, Repr

/-- The row that `schedule_outbox` inserts. -/
def scheduledItem (owner fingerprint : String) (input : OutboxSchedule) : OutboxItem :=
  { id := input.id
    userId := owner
    accountId := input.message.accountId
    message := input.message
    draftId := input.draftId
    idempotencyKey := some input.idempotencyKey
    requestFingerprint := some fingerprint
    scheduledAt := input.scheduledAt
    status := .scheduled
    createdAt := input.now
    updatedAt := input.now }

def scheduleFingerprint [Platform] (input : OutboxSchedule) : String :=
  Platform.sha256Hex (Platform.scheduleJson (Platform.sendMessageJson input.message)
    (input.draftId.getD "") input.scheduledAt)

def scheduleOutbox [Platform] (db : Db) (owner : String) (input : OutboxSchedule) :
    Except AuthStoreError (OutboxItem × Db) :=
  if !db.ownsAccount owner input.message.accountId then .error .accountNotOwned
  else
    match db.outboxItems.find? fun i =>
        i.userId == owner && i.idempotencyKey == some input.idempotencyKey with
    | some existing =>
      if existing.requestFingerprint = some (scheduleFingerprint input) then .ok (existing, db)
      else .error .idempotencyConflict
    | none =>
      let item := scheduledItem owner (scheduleFingerprint input) input
      if db.outboxItems.any fun i => i.id == item.id then .error .constraint
      else .ok (item, { db with outboxItems := db.outboxItems ++ [item] })

/-- `json_set(message_json,'$.text','','$.html',NULL,'$.attachments',NULL)` -/
def compactMessage (message : SendMessageInput) : SendMessageInput :=
  { message with text := "", html := none, attachments := none }

/-- An `UPDATE outbox_items`, with whether it has changed exactly one row. -/
def Db.updateItems (db : Db) (p : OutboxItem → Bool) (f : OutboxItem → OutboxItem) : Bool × Db :=
  (db.outboxItems.countP p == 1, { db with outboxItems := updateWhere p f db.outboxItems })

def cancelOutbox (db : Db) (owner id : String) (now : Time) : Bool × Db :=
  db.updateItems
    (fun i => i.userId == owner && i.id == id && (i.status = .scheduled || i.status = .failed))
    fun i => { i with
      status := .cancelled
      updatedAt := now
      leaseUntil := none
      message := compactMessage i.message }

def retryOutbox (db : Db) (owner id : String) (now : Time) : Bool × Db :=
  db.updateItems (fun i => i.userId == owner && i.id == id && i.status = .failed) fun i =>
    { i with
      status := .scheduled
      scheduledAt := now
      updatedAt := now
      lastErrorCode := none
      lastErrorMessage := none
      leaseUntil := none }

/-- `DELETE FROM drafts WHERE id=(SELECT draft_id FROM outbox_items WHERE p)`; a null id deletes
nothing. -/
def Db.deleteDraftOf (db : Db) (p : OutboxItem → Bool) : Db :=
  { db with
    drafts := deleteWhere
      (fun d => ((db.outboxItems.find? p).bind (·.draftId)) == some d.id) db.drafts }

def resolvedItem (wasSent : Bool) (now : Time) (i : OutboxItem) : OutboxItem :=
  { i with
    status := if wasSent then .sent else .cancelled
    sentAt := if wasSent then some now else none
    updatedAt := now
    leaseUntil := none
    lastErrorCode := none
    lastErrorMessage := none
    message := compactMessage i.message }

def resolveOutbox (db : Db) (owner id : String) (wasSent : Bool) (now : Time) : Bool × Db :=
  let (updated, db) := db.updateItems
    (fun i => i.userId == owner && i.id == id && i.status = .needsReview)
    (resolvedItem wasSent now)
  (updated,
    if updated && wasSent then db.deleteDraftOf fun i => i.userId == owner && i.id == id else db)

/-- A worker that has not reported within its lease leaves its item for a user to review. -/
def reviewExpired (now : Time) : List OutboxItem → List OutboxItem :=
  updateWhere (fun i => i.status = .sending && i.leaseUntil.any (· ≤ now)) fun i =>
    { i with
      status := .needsReview
      lastErrorCode := some "OUTBOX_RESULT_UNCERTAIN"
      lastErrorMessage := some "服务在发送过程中中断，请核对已发送邮件后人工处理。"
      leaseUntil := none
      updatedAt := now }

/-- `ORDER BY scheduled_at,created_at,id` -/
def dueBefore (a b : OutboxItem) : Bool :=
  a.scheduledAt < b.scheduledAt || (a.scheduledAt = b.scheduledAt &&
    (a.createdAt < b.createdAt || (a.createdAt = b.createdAt && a.id < b.id)))

def claimItem (now : Time) (i : OutboxItem) : OutboxItem :=
  { i with
    status := .sending
    attempts := i.attempts + 1
    leaseUntil := some (now + outboxLease)
    updatedAt := now }

def claimDueOutbox (db : Db) (now : Time) : Option OutboxWorkItem × Db :=
  let items := reviewExpired now db.outboxItems
  match firstBy dueBefore (items.filter fun i => i.status = .scheduled && i.scheduledAt ≤ now) with
  | none => (none, { db with outboxItems := items })
  | some item =>
    let p : OutboxItem → Bool := fun i => i.id == item.id && i.status = .scheduled
    let db := { db with outboxItems := updateWhere p (claimItem now) items }
    if items.countP p = 1 then (some ⟨item.id, item.userId, item.message⟩, db) else (none, db)

def sentItem (messageId : String) (now : Time) (i : OutboxItem) : OutboxItem :=
  { i with
    status := .sent
    sentMessageId := some messageId
    sentAt := some now
    updatedAt := now
    leaseUntil := none
    lastErrorCode := none
    lastErrorMessage := none
    message := compactMessage i.message }

def completeOutbox (db : Db) (id messageId : String) (now : Time) : Bool × Db :=
  let (updated, db) :=
    db.updateItems (fun i => i.id == id && i.status = .sending) (sentItem messageId now)
  (updated, if updated then db.deleteDraftOf fun i => i.id == id else db)

def failOutbox (db : Db) (id code message : String) (uncertain : Bool) (now : Time) : Bool × Db :=
  db.updateItems (fun i => i.id == id && i.status = .sending) fun i =>
    { i with
      status := if uncertain then .needsReview else .failed
      lastErrorCode := some code
      lastErrorMessage := some message
      updatedAt := now
      leaseUntil := none }

def pruneOutbox (db : Db) (before : Time) : Db :=
  { db with
    outboxItems := deleteWhere
      (fun i => (i.status = .sent || i.status = .cancelled) && i.updatedAt < before)
      db.outboxItems }

/-- `delete_draft` deletes a draft of the user only. -/
def deleteDraft (db : Db) (userId draftId : String) : Bool × Db :=
  let p : Draft → Bool := fun d => d.id == draftId && db.ownsAccount userId d.accountId
  (db.drafts.countP p == 1, { db with drafts := deleteWhere p db.drafts })

end IMail
