import IMail.Sync.ScanSteps
import IMail.Sync.States

/-!
# Authorization failures that stay

A job that fails for its authorization leaves a row with `authRequired`, and scans leave the
account alone until the user has replaced its credentials. Three other calls can take the row
away: a completed job of another target drops the placeholder rows of the account, a later
failure of another kind is recorded over it, and a scan clears it when it has read the account
as connected, before the failure or after a commit for another target.
-/

namespace IMail

open Relational Transition

inductive AuthOp
  | sync (step : ScanStep)
  /-- The user enters new credentials, which are stored with the account. -/
  | replaceCredentials (accountId : String)

def AuthOp.apply [Platform] (w : ScanWorld) : AuthOp → ScanWorld
  | .sync step => w.step step
  | .replaceCredentials accountId =>
    { w with
      db := w.db.updateAccount accountId fun a =>
        { a with status := .connected, lastError := none } }

def AuthRequiredIn (accountId mailbox : String) (states : List MailboxSyncState) : Prop :=
  ∃ s ∈ states, s.accountId = accountId ∧ s.mailbox = mailbox ∧ s.connectionStatus = .authRequired

instance (accountId mailbox : String) (states : List MailboxSyncState) :
    Decidable (AuthRequiredIn accountId mailbox states) :=
  inferInstanceAs (Decidable (∃ s ∈ states, _))

/-- What may end an authorization failure of the job: new credentials of its account, or the
completion of a job of its target. -/
def ReleasesAuth (job : SyncJob) (w : ScanWorld) : AuthOp → Prop
  | .replaceCredentials accountId => accountId = job.accountId
  | .sync (.call (.complete newId done result reconciliationMinutes now)) =>
    done.target = job.target ∧
      (IMail.complete w.db newId done result reconciliationMinutes now).isOk = true
  | .sync _ => False

/-- Calls that leave the failure alone. A completion is for a mailbox under its own name, and a
failure under the same name is one of authorization again. -/
def LeavesAuth (accountId mailbox : String) (db : Db) : SyncOp → Prop
  | .complete newId done result reconciliationMinutes now =>
    (IMail.complete db newId done result reconciliationMinutes now).isOk = true →
      done.accountId = accountId → isPlaceholder mailbox = false ∧ result.mailbox ≠ mailbox
  | .fail failed failure _ =>
    failed.accountId = accountId → failure.mailbox = mailbox → failure.authRequired = true
  | .resumeAfterAuthorization resumed _ => resumed ≠ accountId
  | _ => True

def ScanPhase.toResume : ScanPhase → List Account
  | .ensure left | .auth _ _ left | .targets _ _ left | .enqueue _ _ _ _ left => left
  | .policy account left | .resume account _ left => account :: left
  | .accounts | .rules _ | .done => []

def SchedulerScan.readsAccounts (scan : SchedulerScan) : Bool :=
  match scan.phase with
  | .accounts => true
  | _ => false

def SchedulerScan.Resumes (accountId : String) (scan : SchedulerScan) : Prop :=
  ∃ a ∈ scan.phase.toResume, a.id = accountId ∧ a.status = .connected

def KeepsAuth (accountId mailbox : String) (w : ScanWorld) : AuthOp → Prop
  | .sync (.call op) => LeavesAuth accountId mailbox w.db op
  | .sync (.next k _) => ∀ scan ∈ w.scans[k]?, scan.readsAccounts = true →
    ∀ a ∈ w.db.accounts, a.id = accountId → a.status ≠ .connected
  | .sync (.start _ _) | .replaceCredentials _ => True

instance (job : SyncJob) (w : ScanWorld) (op : AuthOp) : Decidable (ReleasesAuth job w op) := by
  unfold ReleasesAuth
  split <;> infer_instance

instance (accountId mailbox : String) (db : Db) (op : SyncOp) :
    Decidable (LeavesAuth accountId mailbox db op) := by
  unfold LeavesAuth
  split <;> infer_instance

instance (accountId mailbox : String) (w : ScanWorld) (op : AuthOp) :
    Decidable (KeepsAuth accountId mailbox w op) := by
  unfold KeepsAuth
  split <;> infer_instance

section

variable {accountId mailbox : String} {states : List MailboxSyncState}
  (h : AuthRequiredIn accountId mailbox states)

include h

theorem AuthRequiredIn.updateWhere {p : MailboxSyncState → Bool}
    {f : MailboxSyncState → MailboxSyncState}
    (hf : ∀ s, s.accountId = accountId → p s = true → (f s).accountId = s.accountId ∧
      (f s).mailbox = s.mailbox ∧ (f s).connectionStatus = s.connectionStatus) :
    AuthRequiredIn accountId mailbox (updateWhere p f states) := by
  obtain ⟨s, hs, haccount, hmailbox, hstatus⟩ := h
  by_cases hp : p s = true
  · obtain ⟨hfaccount, hfmailbox, hfstatus⟩ := hf s haccount hp
    exact ⟨f s, mem_updateWhere.mpr (Or.inl ⟨s, hs, hp, rfl⟩), hfaccount.trans haccount,
      hfmailbox.trans hmailbox, hfstatus.trans hstatus⟩
  · exact ⟨s, mem_updateWhere.mpr (Or.inr ⟨hs, Bool.eq_false_iff.mpr hp⟩), haccount, hmailbox,
      hstatus⟩

theorem AuthRequiredIn.upsert {row : MailboxSyncState}
    {merge : MailboxSyncState → MailboxSyncState}
    (hmerge : ∀ s, row.accountId = accountId → row.mailbox = mailbox →
      s.connectionStatus = .authRequired → (merge s).accountId = s.accountId ∧
      (merge s).mailbox = s.mailbox ∧ (merge s).connectionStatus = .authRequired) :
    AuthRequiredIn accountId mailbox (upsertStates row merge states) := by
  obtain ⟨s, hs, haccount, hmailbox, hstatus⟩ := h
  by_cases hsame : sameMailbox row.accountId row.mailbox s = true
  · have hkey := hsame
    simp only [sameMailbox, Bool.and_eq_true, beq_iff_eq] at hkey
    obtain ⟨hfaccount, hfmailbox, hfstatus⟩ :=
      hmerge s (hkey.1.symm.trans haccount) (hkey.2.symm.trans hmailbox) hstatus
    exact ⟨merge s, merge_mem_upsertStates hs hsame, hfaccount.trans haccount,
      hfmailbox.trans hmailbox, hfstatus⟩
  · exact ⟨s, mem_upsertStates_of_mem hs (Bool.eq_false_iff.mpr hsame), haccount, hmailbox,
      hstatus⟩

theorem AuthRequiredIn.completed {job : SyncJob} {result : SyncCompletion} (next now : Time)
    (hother : job.accountId = accountId → isPlaceholder mailbox = false ∧
      result.mailbox ≠ mailbox) :
    AuthRequiredIn accountId mailbox (completedStates job result next now states) := by
  have hupsert : AuthRequiredIn accountId mailbox (upsertStates (completedRow job result next now)
      (completedMerge job result next now) states) := by
    apply h.upsert
    intro s haccount hmailbox
    exact absurd hmailbox (hother haccount).2
  obtain ⟨s, hs, haccount, hmailbox, hstatus⟩ := hupsert
  refine ⟨s, mem_deleteWhere.mpr ⟨hs, ?_⟩, haccount, hmailbox, hstatus⟩
  by_cases hjob : job.accountId = accountId
  · rw [hmailbox, (hother hjob).1, Bool.and_false, Bool.false_and]
  · have hne : (s.accountId == job.accountId) = false := by
      rw [haccount]
      exact beq_eq_false_iff_ne.mpr (Ne.symm hjob)
    rw [hne, Bool.false_and, Bool.false_and]

end

section

variable [Platform] {accountId mailbox : String}

theorem apply_authRequired_single {db : Db} {op : SyncOp} (hop : op.single = true)
    (h : AuthRequiredIn accountId mailbox db.mailboxSyncStates)
    (hkeeps : LeavesAuth accountId mailbox db op) :
    AuthRequiredIn accountId mailbox (op.apply db).mailboxSyncStates := by
  have hwrite := (apply_single db op hop).states
  generalize hstates : (op.apply db).mailboxSyncStates = states at hwrite ⊢
  generalize (op.apply db).syncPolicies = policies at hwrite
  cases hwrite with
  | same | ensure => exact h
  | policy _ =>
    unfold policyStates
    split_ifs <;> exact h.updateWhere fun s _ _ => ⟨rfl, rfl, rfl⟩
  | @resume resumed now =>
    apply h.updateWhere
    intro s haccount hsel
    simp only [Bool.and_eq_true, beq_iff_eq] at hsel
    exact absurd (hsel.1.symm.trans haccount) hkeeps
  | start | cancel => exact h.upsert fun s _ _ hstatus => ⟨rfl, rfl, hstatus⟩
  | @fail failed failure now _ =>
    apply h.upsert
    intro s haccount hmailbox _
    refine ⟨rfl, rfl, ?_⟩
    simp [failedMerge, SyncFailure.connectionStatus, hkeeps haccount hmailbox]
  | @complete newId done result reconciliationMinutes now _ =>
    cases hcomplete : IMail.complete db newId done result reconciliationMinutes now with
    | error e =>
      have hsame : (SyncOp.complete newId done result reconciliationMinutes now).apply db = db := by
        simp [SyncOp.apply, hcomplete]
      rw [hsame] at hstates
      rw [← hstates]
      exact h
    | ok db' =>
      apply h.completed
      apply hkeeps
      rw [hcomplete]
      rfl

theorem toResume_advance {scan : SchedulerScan} {newId : String} {db : Db} {a : Account}
    (ha : a ∈ (scan.advance newId db).toResume) :
    a ∈ scan.phase.toResume ∨ (scan.readsAccounts = true ∧ a ∈ db.accounts) := by
  obtain ⟨reason, now, phase⟩ := scan
  rcases phase with _ | (_ | ⟨account, left⟩) | ⟨account, left⟩ | ⟨account, policy, left⟩ |
    ⟨account, policy, left⟩ | ⟨account, _ | ⟨target, targets⟩, left⟩ |
    ⟨account, target, state, targets, left⟩ | (_ | ⟨accountId, left⟩) | _
  case accounts => exact Or.inr ⟨rfl, (List.mem_insertionSort _).mp ha⟩
  all_goals
    left
    simp only [SchedulerScan.advance] at ha
    try split at ha
    all_goals
      try split_ifs at ha
      all_goals first | exact ha | exact List.mem_cons_of_mem _ ha | cases ha

omit [Platform] in
theorem fail_authRequired {db db' : Db} {job : SyncJob} {failure : SyncFailure} {now : Time}
    (h : fail db job failure now = .ok db') (hauth : failure.authRequired = true) :
    AuthRequiredIn job.accountId failure.mailbox db'.mailboxSyncStates := by
  obtain ⟨_, events, sequence, rfl⟩ := fail_ok h
  have hstatus : failure.connectionStatus = .authRequired := by
    simp [SyncFailure.connectionStatus, hauth]
  rcases exists_mem_upsertStates (failedRow job failure now) (failedMerge failure now)
      db.mailboxSyncStates with hrow | ⟨old, _, hsame, hold⟩
  · exact ⟨_, hrow, rfl, rfl, hstatus⟩
  · simp only [sameMailbox, failedRow, Bool.and_eq_true, beq_iff_eq] at hsame
    exact ⟨_, hold, hsame.1, hsame.2, hstatus⟩

omit [Platform] in
theorem leavesAuth_of_transaction {scan : SchedulerScan} {newId : String} {op : SyncOp} {db : Db}
    (h : scan.transaction newId = some op) (hscan : ¬ scan.Resumes accountId) :
    LeavesAuth accountId mailbox db op := by
  cases scanCall_of_transaction h with
  | resume hphase hconnected =>
    intro heq
    exact hscan ⟨_, by simp [hphase, ScanPhase.toResume], heq, hconnected⟩
  | ensure | target | rule | prune => trivial

def AuthWaits (accountId mailbox : String) (w : ScanWorld) : Prop :=
  AuthRequiredIn accountId mailbox w.db.mailboxSyncStates ∧
    ∀ scan ∈ w.scans, ¬ scan.Resumes accountId

theorem apply_authWaits (w : ScanWorld) (op : AuthOp) (h : AuthWaits accountId mailbox w)
    (hkeeps : KeepsAuth accountId mailbox w op) : AuthWaits accountId mailbox (op.apply w) := by
  cases op with
  | replaceCredentials replaced => exact h
  | sync step =>
    refine ScanWorld.step_keeps
      (P := fun w => AuthRequiredIn accountId mailbox w.db.mailboxSyncStates) h ?_ ?_ ?_
    · intro op hsingle htransaction
      refine apply_authRequired_single hsingle h.1 ?_
      cases step with
      | call op' =>
        obtain ⟨_, rfl⟩ := transaction_call htransaction
        exact hkeeps
      | start => cases htransaction
      | next k newId =>
        obtain ⟨scan, hscan, hop⟩ := Option.bind_eq_some_iff.mp htransaction
        exact leavesAuth_of_transaction hop (h.2 scan (List.mem_of_getElem? hscan))
    · rintro reason now rfl ⟨a, ha, _⟩
      unfold SchedulerScan.start at ha
      split_ifs at ha <;> cases ha
    · rintro k newId scan rfl hscan hfine ⟨a, ha, hid, hconnected⟩
      rcases toResume_advance ha with hold | ⟨hreads, hread⟩
      · exact hfine ⟨a, hold, hid, hconnected⟩
      · exact hkeeps scan hscan hreads a hread hid hconnected

/-- The row of an authorization failure stays until its account gets new credentials or a job
of its target completes, as long as the other calls leave it alone and no scan takes the account
as connected, neither one under way at the failure nor a later one. -/
theorem auth_failure_sticky {w : ScanWorld} {db' : Db} {job : SyncJob} {failure : SyncFailure}
    {now : Time} (hfail : fail w.db job failure now = .ok db') (hauth : failure.authRequired = true)
    (hscans : ∀ scan ∈ w.scans, ¬ scan.Resumes job.accountId) {ops : List AuthOp}
    (hops : Along AuthOp.apply (fun w op => ¬ ReleasesAuth job w op ∧
      KeepsAuth job.accountId failure.mailbox w op) { w with db := db' } ops) :
    AuthRequiredIn job.accountId failure.mailbox
      (exec AuthOp.apply { w with db := db' } ops).db.mailboxSyncStates := by
  have hwaits : AuthWaits job.accountId failure.mailbox { w with db := db' } :=
    ⟨fail_authRequired hfail hauth, hscans⟩
  exact (invariant_along (AuthWaits job.accountId failure.mailbox)
    (fun w op h hop => apply_authWaits w op h hop.2) hwaits hops).1

end

def workRequest : SyncEnqueue :=
  { accountId := "a", mailbox := some "Work", mailboxRole := "custom", reason := "manual" }

def workHandle : SyncJob := claimJob "P" 10 0 (enqueuedJob "w" workRequest .manual 0)

def authFailure (mailbox : String) : SyncFailure where
  mailbox := mailbox
  code := "AUTH_REQUIRED"
  message := "invalid credentials"
  authRequired := true
  retryMinutes := none

def takesWork : List AuthOp :=
  [.sync (.call (.enqueue "w" workRequest 0)), .sync (.call (.claimNext "P" 10 0))]

def takesInbox : List AuthOp :=
  [.sync (.call (.enqueue "j" inboxRequest 0)), .sync (.call (.claimNext "P" 10 0))]

def scansFor (steps : ℕ) : List AuthOp := (scanFor steps 0 "s" 3).map .sync

def inboxCompletes : List AuthOp :=
  takesInbox ++ [.sync (.call (.complete "n" handleOfP { mailbox := "INBOX" } 5 2))] ++ scansFor 12

/-- A custom mailbox keeps waiting while the inbox is synchronized. -/
theorem auth_failure_sticky_custom :
    let _ := Platform.plain
    let w := exec AuthOp.apply { db := singleAccountDb } takesWork
    ∃ db', fail w.db workHandle (authFailure "Work") 1 = .ok db' ∧
      AuthRequiredIn "a" "Work"
        (exec AuthOp.apply { w with db := db' } inboxCompletes).db.mailboxSyncStates := by
  intro _ w
  have hops : ∀ d ∈ (fail w.db workHandle (authFailure "Work") 1).toOption,
      Along AuthOp.apply (fun w op => ¬ ReleasesAuth workHandle w op ∧ KeepsAuth "a" "Work" w op)
        { w with db := d } inboxCompletes := by decide +kernel
  have hfacts : ∃ db', fail w.db workHandle (authFailure "Work") 1 = .ok db' :=
    exists_ok_of_isOk (by decide +kernel)
  obtain ⟨db', hfail⟩ := hfacts
  exact ⟨db', hfail, auth_failure_sticky hfail rfl (by intro scan hscan; cases hscan)
    (hops db' (by rw [hfail]; rfl))⟩

def inboxFails : List AuthOp :=
  takesInbox ++ [.sync (.call (.fail handleOfP (authFailure "@role:inbox") 1))]

def workPlan : MailboxSyncPlan where
  accountId := "a"
  mailbox := "Work"
  mailboxRole := "custom"

def workCompletes : List AuthOp :=
  takesWork ++ [.sync (.call (.complete "n" workHandle { mailbox := "Work" } 5 2))]

def scanAfterCommit : List AuthOp :=
  takesWork ++ [.sync (.call (.commitMailboxSync (fun _ _ _ => "r") workPlan 2))] ++ scansFor 4

def scanBeforeFailure : List AuthOp :=
  takesInbox ++ scansFor 3 ++ [.sync (.call (.fail handleOfP (authFailure "@role:inbox") 4))]

/-- Each takes the failure of the inbox away, without new credentials and without a completed
job of the inbox. -/
theorem auth_failure_lost :
    let _ := Platform.plain
    let w := exec AuthOp.apply { db := singleAccountDb } inboxFails
    let w' := exec AuthOp.apply { db := singleAccountDb } scanBeforeFailure
    AuthRequiredIn "a" "@role:inbox" w.db.mailboxSyncStates ∧
    (∀ after ∈ [workCompletes, scanAfterCommit],
      Along AuthOp.apply (fun w op => ¬ ReleasesAuth handleOfP w op) w after ∧
      ¬ AuthRequiredIn "a" "@role:inbox" (exec AuthOp.apply w after).db.mailboxSyncStates) ∧
    AuthRequiredIn "a" "@role:inbox" w'.db.mailboxSyncStates ∧
    ¬ AuthRequiredIn "a" "@role:inbox"
      (w'.step (.next 0 "s")).db.mailboxSyncStates := by
  intro _
  decide +kernel

end IMail
