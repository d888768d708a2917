import IMail.Relational.Keyset
import IMail.Store.MessageJson
import Mathlib.Data.Prod.Lex
import Mathlib.Data.String.Basic

/-!
# Drafts and the list of the outbox

`list_drafts` and `upsert_draft` of `imail-storage-sqlite/src/content_data.rs`, and `list_outbox`
of `outbox.rs`. A draft that waits in the outbox is not listed.
-/

namespace IMail

open Relational Text

/-- The item still waits for a worker, for the end of one or for the user. -/
def OutboxStatus.isPending : OutboxStatus → Bool
  | .scheduled | .sending | .failed | .needsReview => true
  | .sent | .cancelled => false

/-- `SELECT 1 FROM outbox_items o WHERE o.user_id=?1 AND o.draft_id=d.id AND o.status IN ...` -/
def Db.holdsDraft (db : Db) (userId draftId : String) : Bool :=
  db.outboxItems.any fun i =>
    i.userId == userId && i.draftId == some draftId && i.status.isPending

/-- `ORDER BY d.updated_at DESC, d.id` -/
def Draft.recency (d : Draft) : Timeᵒᵈ ×ₗ String := toLex (OrderDual.toDual d.updatedAt, d.id)

def listDrafts (db : Db) (userId : String) : List Draft :=
  orderBy Draft.recency (db.drafts.filter fun d =>
    db.ownsAccount userId d.accountId && !db.holdsDraft userId d.id)

/-- `SELECT a.user_id FROM drafts d JOIN accounts a ... WHERE d.id=?1` -/
def draftOwner (db : Db) (draftId : String) : Option String :=
  ((db.drafts.find? fun d => d.id == draftId).bind fun d => db.account d.accountId).map (·.userId)

def upsertDraft (db : Db) (userId : String) (draft : Draft) : Except AuthStoreError Db :=
  if !db.ownsAccount userId draft.accountId then .error .accountNotOwned
  else if (draftOwner db draft.id).any fun owner => owner ≠ userId then
    .error .contentOwnershipViolation
  else if db.drafts.any fun d => d.id == draft.id then
    .ok { db with
      drafts := updateWhere (fun d => d.id == draft.id)
        (fun old => { draft with createdAt := old.createdAt }) db.drafts }
  else .ok { db with drafts := db.drafts ++ [draft] }

/-- `OutboxItemReadModel` -/
structure OutboxItemView where
  id : String
  accountId : String
  recipients : List String
  cc : List String
  bcc : List String
  subject : String
  scheduledAt : Time
  status : OutboxStatus
  attempts : ℕ
  lastError : Option String
  createdAt : Time
  updatedAt : Time
  sentAt : Option Time
  deriving DecidableEq, Repr

def outboxView (i : OutboxItem) (message : SendMessageInput) : OutboxItemView where
  id := i.id
  accountId := i.accountId
  recipients := message.recipients
  cc := message.cc.getD []
  bcc := message.envelope.bcc
  subject := message.subject
  scheduledAt := i.scheduledAt
  status := i.status
  attempts := i.attempts
  lastError := i.lastErrorMessage
  createdAt := i.createdAt
  updatedAt := i.updatedAt
  sentAt := i.sentAt

/-- `decode_outbox_row` of a row with the text of its `message_json`. -/
def decodeOutboxRow (i : OutboxItem) (messageJson : JsonObject) : Option OutboxItemView :=
  (SendMessageInput.ofJson messageJson).map (outboxView i)

/-- `TERMINAL_HISTORY_LIMIT` -/
def terminalHistoryLimit : ℕ := 200

/-- `ORDER BY updated_at DESC,id DESC LIMIT ?2` -/
def terminalHistory (db : Db) (owner : String) : List OutboxItem :=
  (orderBy (fun i : OutboxItem => OrderDual.toDual (toLex (i.updatedAt, i.id)))
    (db.outboxItems.filter fun i => i.userId == owner && !i.status.isPending)).take
      terminalHistoryLimit

/-- `CASE status WHEN ...` -/
def OutboxStatus.listRank : OutboxStatus → ℕ
  | .sending => 0
  | .scheduled => 1
  | .needsReview => 2
  | .failed => 3
  | .sent | .cancelled => 4

def OutboxItem.listKey (i : OutboxItem) : ℕ ×ₗ Timeᵒᵈ ×ₗ Timeᵒᵈ :=
  toLex (i.status.listRank,
    toLex (OrderDual.toDual i.scheduledAt, OrderDual.toDual i.createdAt))

/-- The rows that `list_outbox` selects, in its order. -/
def listedItems (db : Db) (owner : String) : List OutboxItem :=
  orderBy OutboxItem.listKey (db.outboxItems.filter fun i => i.userId == owner &&
    (i.status.isPending || (terminalHistory db owner).any fun t => t.id == i.id))

/-- `list_outbox`, where `messageJson` is the column of the rows by their ids. -/
def listOutbox (db : Db) (messageJson : String → JsonObject) (owner : String) :
    Option (List OutboxItemView) :=
  (listedItems db owner).mapM fun i => decodeOutboxRow i (messageJson i.id)

theorem mem_listDrafts {db : Db} {userId : String} {d : Draft} :
    d ∈ listDrafts db userId ↔ d ∈ db.drafts ∧ db.ownsAccount userId d.accountId = true ∧
      db.holdsDraft userId d.id = false := by
  simp [listDrafts, mem_orderBy]

theorem upsertDraft_outboxItems {db db' : Db} {userId : String} {draft : Draft}
    (h : upsertDraft db userId draft = .ok db') : db'.outboxItems = db.outboxItems := by
  unfold upsertDraft at h
  split_ifs at h
  · cases h
    rfl
  · cases h
    rfl

theorem mem_of_listedItems {db : Db} {owner : String} {i : OutboxItem}
    (h : i ∈ listedItems db owner) : i ∈ db.outboxItems ∧ i.userId = owner := by
  obtain ⟨hi, hselect⟩ := List.mem_filter.mp (mem_orderBy.mp h)
  rw [Bool.and_eq_true, beq_iff_eq] at hselect
  exact ⟨hi, hselect.1⟩

end IMail
