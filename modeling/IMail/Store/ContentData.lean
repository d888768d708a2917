import IMail.Store.CommitRows

/-!
# Messages as the user's requests write them

`upsert_message` and `delete_message` of `imail-storage-sqlite/src/content_data.rs`. Both are
for the owner of the account. The upsert writes the columns that `upsert_sync_message` writes.
-/

namespace IMail

open Relational

/-- `SELECT a.user_id FROM messages m JOIN accounts a ...` for the row under the id. -/
def contentOwner (db : Db) (messageId : String) : Option String :=
  ((findById db.messages messageId).bind fun m => db.account m.accountId).map (·.userId)

def upsertMessage (db : Db) (userId : String) (message : Message) : Except AuthStoreError Db :=
  if !db.ownsAccount userId message.accountId then .error .accountNotOwned
  else if (contentOwner db message.id).any fun owner => owner ≠ userId then
    .error .contentOwnershipViolation
  else (db.upsertSyncMessage message).mapError fun _ => .constraint

def deleteMessage (db : Db) (userId messageId : String) : Bool × Db :=
  let selected := fun m : Message => m.id == messageId && db.ownsAccount userId m.accountId
  (decide (db.messages.countP selected = 1), db.deleteMessages selected)

theorem upsertMessage_ok {db db' : Db} {userId : String} {message : Message}
    (h : upsertMessage db userId message = .ok db') :
    db.ownsAccount userId message.accountId = true ∧ db.upsertSyncMessage message = .ok db' := by
  unfold upsertMessage at h
  split_ifs at h with howned
  simp only [Bool.not_eq_true, Bool.not_eq_false'] at howned
  exact ⟨howned, mapError_eq_ok h⟩

end IMail
