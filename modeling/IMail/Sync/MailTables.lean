import IMail.Sync.States

/-!
# Calls of the sync store and the mail tables

Of the calls of the sync store only the commit of a mailbox and the two calls about rule work
write messages, rule runs or what rules have seen. Scans are made of other calls.
-/

namespace IMail

open Relational Transition

section

variable [Platform]

omit [Platform] in
theorem writesMail_of_scanPart {op : SyncOp} (h : op.scanPart = true) : op.writesMail = false := by
  cases op <;> first | rfl | cases h

theorem apply_mailTables (db : Db) (op : SyncOp) (hmail : op.writesMail = false) :
    (op.apply db).mailTables = db.mailTables := by
  by_cases hop : op.single = true
  · exact (apply_single db op hop).mail hmail
  · cases op with
    | enqueueDueSyncs ids reason now =>
      apply scan_preserves (fun d => d.mailTables = db.mailTables) db ids reason now _ rfl
      intro d o ho hd
      rw [(apply_single d o (single_of_scanPart ho)).mail (writesMail_of_scanPart ho), hd]
    | _ => exact absurd rfl hop

end

end IMail
