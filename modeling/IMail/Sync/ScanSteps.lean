import IMail.Sync.Scan

/-!
# Scans beside the other connections

A scan runs on the connection of the scheduler while workers and requests use their own. Each
of its reads and each of its transactions is a step, and other calls may be made before the
next one: what the scan has read may be out of date when it acts on it.
-/

namespace IMail

open Relational Transition

/-- What a scan does next, with what it has read so far. -/
inductive ScanPhase
  | accounts
  | ensure (left : List Account)
  | policy (account : Account) (left : List Account)
  | resume (account : Account) (policy : SyncPolicy) (left : List Account)
  | auth (account : Account) (policy : SyncPolicy) (left : List Account)
  | targets (account : Account) (targets : List SyncTarget) (left : List Account)
  | enqueue (account : Account) (target : SyncTarget) (state : Option MailboxSyncState)
      (targets : List SyncTarget) (left : List Account)
  | rules (left : List String)
  | done

structure SchedulerScan where
  reason : String
  now : Time
  phase : ScanPhase

def SchedulerScan.start (reason : String) (now : Time) : SchedulerScan where
  reason := reason
  now := now
  phase := if reason = "startup" ∨ reason = "scheduled" then .accounts else .done

def SchedulerScan.transaction (scan : SchedulerScan) (newId : String) : Option SyncOp :=
  match scan.phase with
  | .ensure (account :: _) => some (.ensurePolicy account.id account.userId scan.now)
  | .resume account _ _ =>
    if account.status = .connected then some (.resumeAfterAuthorization account.id scan.now)
    else none
  | .enqueue account target state _ _ =>
    some (.enqueue newId (dueEnqueue account.id target state scan.reason scan.now) scan.now)
  | .rules (accountId :: _) => some (.enqueue newId (ruleEnqueue accountId scan.now) scan.now)
  | .rules [] => some (.pruneEvents (scan.now - eventRetention))
  | _ => none

section

variable [Platform]

def SchedulerScan.advance (scan : SchedulerScan) (newId : String) (db : Db) : ScanPhase :=
  match scan.phase with
  | .accounts => .ensure (syncAccounts db)
  | .ensure [] => .rules (dueRuleAccounts db scan.now)
  | .ensure (account :: left) =>
    match ensurePolicy db account.id account.userId scan.now with
    | .error _ => .done
    | .ok _ => .policy account left
  | .policy account left =>
    match db.policy account.id with
    | none => .done
    | some policy => if policy.enabled then .resume account policy left else .ensure left
  | .resume account policy left => .auth account policy left
  | .auth account policy left =>
    if (db.authRequiredStates account.id).isEmpty then
      .targets account (targetsForPolicy account policy) left
    else .ensure left
  | .targets _ [] left => .ensure left
  | .targets account (target :: targets) left =>
    let state := mailboxStateForTarget db account.id target.requestedMailbox target.mailboxRole
    if state.any fun s => notDue s scan.now then .targets account targets left
    else .enqueue account target state targets left
  | .enqueue account target state targets left =>
    match IMail.enqueue db newId (dueEnqueue account.id target state scan.reason scan.now)
        scan.now with
    | .error _ => .done
    | .ok _ => .targets account targets left
  | .rules [] => .done
  | .rules (accountId :: left) =>
    match IMail.enqueue db newId (ruleEnqueue accountId scan.now) scan.now with
    | .error _ => .done
    | .ok _ => .rules left
  | .done => .done

/-- The scans are those that the scheduler has started so far. -/
structure ScanWorld extends SyncWorld where
  scans : List SchedulerScan := []

inductive ScanStep
  /-- A single transaction on another connection. -/
  | call (op : SyncOp)
  | start (reason : String) (now : Time)
  /-- The next step of a scan, with the identifier of the job that it may insert. -/
  | next (k : ℕ) (newId : String)

def ScanWorld.transaction (w : ScanWorld) : ScanStep → Option SyncOp
  | .call op => if op.single then some op else none
  | .start _ _ => none
  | .next k newId => w.scans[k]?.bind fun scan => scan.transaction newId

def ScanWorld.scansAfter (w : ScanWorld) : ScanStep → List SchedulerScan
  | .call _ => w.scans
  | .start reason now => w.scans ++ [.start reason now]
  | .next k newId => w.scans.modify k fun scan => { scan with phase := scan.advance newId w.db }

def ScanWorld.step (w : ScanWorld) (step : ScanStep) : ScanWorld where
  toSyncWorld := (w.transaction step).elim w.toSyncWorld w.toSyncWorld.step
  scans := w.scansAfter step

abbrev ScanWorld.run (w : ScanWorld) (steps : List ScanStep) : ScanWorld :=
  exec ScanWorld.step w steps

def scanFor (steps k : ℕ) (newId : String) (now : Time) : List ScanStep :=
  .start "scheduled" now :: List.replicate steps (.next k newId)

/-- The transactions of a scan, each in its phase. -/
inductive ScanCall (scan : SchedulerScan) (newId : String) : SyncOp → Prop
  | ensure {account : Account} {left : List Account}
      (phase : scan.phase = .ensure (account :: left)) :
      ScanCall scan newId (.ensurePolicy account.id account.userId scan.now)
  | resume {account : Account} {policy : SyncPolicy} {left : List Account}
      (phase : scan.phase = .resume account policy left) (connected : account.status = .connected) :
      ScanCall scan newId (.resumeAfterAuthorization account.id scan.now)
  | target {account : Account} {target : SyncTarget} {state : Option MailboxSyncState}
      {targets : List SyncTarget} {left : List Account}
      (phase : scan.phase = .enqueue account target state targets left) :
      ScanCall scan newId
        (.enqueue newId (dueEnqueue account.id target state scan.reason scan.now) scan.now)
  | rule {accountId : String} {left : List String} (phase : scan.phase = .rules (accountId :: left)) :
      ScanCall scan newId (.enqueue newId (ruleEnqueue accountId scan.now) scan.now)
  | prune : ScanCall scan newId (.pruneEvents (scan.now - eventRetention))

omit [Platform] in
theorem scanCall_of_transaction {scan : SchedulerScan} {newId : String} {op : SyncOp}
    (h : scan.transaction newId = some op) : ScanCall scan newId op := by
  unfold SchedulerScan.transaction at h
  split at h
  · cases h
    exact .ensure (by assumption)
  · split_ifs at h with hconnected
    cases h
    exact .resume (by assumption) hconnected
  · cases h
    exact .target (by assumption)
  · cases h
    exact .rule (by assumption)
  · cases h
    exact .prune
  · cases h

omit [Platform] in
theorem transaction_call {w : ScanWorld} {op op' : SyncOp}
    (h : w.transaction (.call op') = some op) : op'.single = true ∧ op' = op := by
  simpa [ScanWorld.transaction] using h

omit [Platform] in
theorem single_of_transaction {w : ScanWorld} {step : ScanStep} {op : SyncOp}
    (h : w.transaction step = some op) : op.single = true := by
  cases step with
  | call op' =>
    obtain ⟨hsingle, rfl⟩ := transaction_call h
    exact hsingle
  | start => cases h
  | next k newId =>
    obtain ⟨scan, _, hscan⟩ := Option.bind_eq_some_iff.mp h
    cases scanCall_of_transaction hscan <;> rfl

/-- What holds of the store and of every scan is kept if every transaction keeps it of the store
and every scan that starts or goes on has it. -/
theorem ScanWorld.step_keeps {P : SyncWorld → Prop} {Q : SchedulerScan → Prop}
    {w : ScanWorld} {step : ScanStep} (h : P w.toSyncWorld ∧ ∀ scan ∈ w.scans, Q scan)
    (hcall : ∀ op, op.single = true → w.transaction step = some op →
      P (w.toSyncWorld.step op))
    (hstart : ∀ reason now, step = .start reason now → Q (.start reason now))
    (hnext : ∀ k newId scan, step = .next k newId → scan ∈ w.scans[k]? → Q scan →
      Q { scan with phase := scan.advance newId w.db }) :
    P (w.step step).toSyncWorld ∧ ∀ scan ∈ (w.step step).scans, Q scan := by
  constructor
  · cases htransaction : w.transaction step with
    | none => simpa [ScanWorld.step, htransaction] using h.1
    | some op =>
      simpa [ScanWorld.step, htransaction] using
        hcall op (single_of_transaction htransaction) htransaction
  · cases step with
    | call op => exact h.2
    | start reason now =>
      intro scan hscan
      rcases List.mem_append.mp hscan with hold | hnew
      · exact h.2 scan hold
      · rw [List.mem_singleton.mp hnew]
        exact hstart reason now rfl
    | next k newId =>
      intro scan hscan
      obtain ⟨i, hi⟩ := List.mem_iff_getElem?.mp hscan
      have hmodify := List.getElem?_modify
        (fun scan : SchedulerScan => { scan with phase := scan.advance newId w.db }) k w.scans i
      rw [ScanWorld.step, ScanWorld.scansAfter, hmodify] at hi
      obtain ⟨old, hold, hscan⟩ := Option.map_eq_some_iff.mp hi
      have hfine := h.2 old (List.mem_of_getElem? hold)
      split_ifs at hscan with hk
      · subst hk
        rw [← hscan]
        exact hnext k newId old rfl hold hfine
      · rw [← hscan]
        exact hfine

end

end IMail
