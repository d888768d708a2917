import IMail.Store.SyncRuntimeSpec
import IMail.Sync.Operations

/-!
# Scans as runs of transactions

A scan that nobody interrupts makes its calls one after the other, and a history with such
scans is the history of their transactions.
-/

namespace IMail

open Relational Transition

def SyncOp.single : SyncOp → Bool
  | .enqueueDueSyncs .. => false
  | _ => true

def SyncOp.scanPart : SyncOp → Bool
  | .ensurePolicy .. | .resumeAfterAuthorization .. | .enqueue .. | .pruneEvents .. => true
  | _ => false

theorem single_of_scanPart {op : SyncOp} (h : op.scanPart = true) : op.single = true := by
  cases op <;> simp_all [SyncOp.scanPart, SyncOp.single]

theorem issued_of_scanPart {op : SyncOp} (h : op.scanPart = true) (db : Db) :
    op.issued db = none := by
  cases op <;> simp_all [SyncOp.scanPart, SyncOp.issued]

section

variable [Platform]

variable {op : SyncOp} {ids : JobIds} {reason : String} {now : Time} {db : Db}

omit [Platform] in
theorem scanTargetOps_scanPart {accountId : String} {targets : List SyncTarget}
    (h : op ∈ scanTargetOps ids accountId reason now targets db) : op.scanPart = true := by
  induction targets generalizing db with
  | nil => cases h
  | cons target targets ih =>
    simp only [scanTargetOps] at h
    split at h
    · exact ih h
    · rcases List.mem_cons.mp h with rfl | h
      · rfl
      · split at h
        · cases h
        · exact ih h

omit [Platform] in
theorem scanRulesOps_scanPart {accounts : List String}
    (h : op ∈ scanRulesOps ids now accounts db) : op.scanPart = true := by
  induction accounts generalizing db with
  | nil => cases h
  | cons accountId accounts ih =>
    simp only [scanRulesOps] at h
    rcases List.mem_cons.mp h with rfl | h
    · rfl
    · split at h
      · cases h
      · exact ih h

theorem scanAccountOps_scanPart {account : Account}
    (h : op ∈ scanAccountOps ids reason now account db) : op.scanPart = true := by
  unfold scanAccountOps at h
  rcases List.mem_cons.mp h with rfl | h
  · rfl
  · split at h
    · cases h
    · split at h
      · cases h
      · rcases List.mem_append.mp h with h | h
        · unfold resumeOps at h
          split_ifs at h
          · rw [List.mem_singleton.mp h]
            rfl
          · cases h
        · split at h
          · exact scanTargetOps_scanPart h
          · cases h

theorem scanAccountsOps_scanPart {accounts : List Account}
    (h : op ∈ scanAccountsOps ids reason now accounts db) : op.scanPart = true := by
  induction accounts generalizing db with
  | nil => cases h
  | cons account accounts ih =>
    simp only [scanAccountsOps] at h
    rcases List.mem_append.mp h with h | h
    · exact scanAccountOps_scanPart h
    · split at h
      · cases h
      · exact ih h

theorem scanOps_scanPart (db : Db) (ids : JobIds) (reason : String) (now : Time) :
    ∀ op ∈ scanOps db ids reason now, op.scanPart = true := by
  intro op h
  unfold scanOps at h
  split_ifs at h
  · rcases List.mem_append.mp h with h | h
    · exact scanAccountsOps_scanPart h
    · split at h
      · cases h
      · rcases List.mem_append.mp h with h | h
        · exact scanRulesOps_scanPart h
        · split at h
          · cases h
          · rw [List.mem_singleton.mp h]
            rfl
  · cases h

theorem scan_preserves (P : Db → Prop) (db : Db) (ids : JobIds) (reason : String) (now : Time)
    (hpart : ∀ d (op : SyncOp), op.scanPart = true → P d → P (op.apply d))
    (hdb : P db) : P ((SyncOp.enqueueDueSyncs ids reason now).apply db) := by
  rw [SyncOp.apply, ← exec_scanOps]
  exact invariant_along P (fun d op hd hop => hpart d op hop hd) hdb
    (along_of_forall (P := fun op : SyncOp => op.scanPart = true) (scanOps_scanPart db ids reason now)
      db)

variable {w : SyncWorld}

theorem exec_step_of_scanPart (w : SyncWorld) (ops : List SyncOp)
    (h : ∀ op ∈ ops, op.scanPart = true) :
    exec SyncWorld.step w ops = ⟨exec SyncOp.apply w.db ops, w.handles⟩ := by
  induction ops generalizing w with
  | nil => rfl
  | cons op ops ih =>
    have hstep : w.step op = ⟨op.apply w.db, w.handles⟩ := by
      simp [SyncWorld.step, issued_of_scanPart (h op List.mem_cons_self)]
    rw [exec_cons, exec_cons, hstep]
    exact ih _ fun o ho => h o (List.mem_cons_of_mem _ ho)

theorem transactions_single (w : SyncWorld) (op : SyncOp) :
    ∀ o ∈ op.transactions w.db, o.single = true := by
  intro o ho
  cases op with
  | enqueueDueSyncs ids reason now => exact single_of_scanPart (scanOps_scanPart _ _ _ _ o ho)
  | _ =>
    rw [List.mem_singleton.mp ho]
    rfl

theorem exec_transactions (w : SyncWorld) (op : SyncOp) :
    exec SyncWorld.step w (op.transactions w.db) = w.step op := by
  cases op with
  | enqueueDueSyncs ids reason now =>
    rw [SyncOp.transactions, exec_step_of_scanPart _ _ (scanOps_scanPart _ _ _ _), exec_scanOps]
    simp [SyncWorld.step, SyncOp.apply, SyncOp.issued]
  | _ => rfl

/-- The transactions of a history. -/
def SyncWorld.transactions (w : SyncWorld) (ops : List SyncOp) : List SyncOp :=
  expand SyncWorld.step (fun w op => op.transactions w.db) w ops

theorem run_transactions (w : SyncWorld) (ops : List SyncOp) :
    w.run (w.transactions ops) = w.run ops :=
  exec_expand exec_transactions w ops

theorem single_of_mem_transactions (w : SyncWorld) (ops : List SyncOp) :
    ∀ op ∈ w.transactions ops, op.single = true :=
  forall_mem_expand _ _ transactions_single w ops

theorem invariant_run (Inv : SyncWorld → Prop)
    (hstep : ∀ w op, op.single = true → Inv w → Inv (w.step op)) (ops : List SyncOp) (hw : Inv w) :
    Inv (w.run ops) :=
  invariant_exec Inv (invariant_split exec_transactions Inv transactions_single hstep) ops hw

end

end IMail
