import IMail.Sync.Backoff

/-!
# Disabled policies

Disabling the policy of an account cancels its queued jobs and pauses its mailboxes. If at that
moment none of its jobs is running and no scan is at work on it, nothing of the account is
synchronized again until somebody asks for it or a scan finds rule work of the account:
interrupted rule actions are resumed even while the normal synchronization is switched off.
-/

namespace IMail

open Relational Transition

def Db.Disabled (db : Db) (accountId : String) : Prop :=
  ∃ p, db.policy accountId = some p ∧ p.enabled = false

theorem disabled_append {db : Db} {accountId : String} (h : db.Disabled accountId)
    (policy : SyncPolicy) :
    Db.Disabled { db with syncPolicies := db.syncPolicies ++ [policy] } accountId := by
  obtain ⟨p, hp, hdisabled⟩ := h
  refine ⟨p, ?_, hdisabled⟩
  simp only [Db.policy] at hp ⊢
  rw [List.find?_append, hp]
  rfl

theorem policy_setPolicy (db : Db) (accountId a : String) (settings : SyncPolicySettings)
    (mode : FolderMode) (now : Time) :
    Db.policy { db with
      syncPolicies := updateWhere (fun p => p.accountId == accountId)
        (setPolicy settings mode now) db.syncPolicies } a =
      (db.policy a).map fun p => if a = accountId then setPolicy settings mode now p else p :=
  find?_updateWhere_key SyncPolicy.accountId (f := setPolicy settings mode now) accountId
    (fun _ h => h) a db.syncPolicies

/-- The account is switched off, no job of it waits or runs, and its mailboxes are paused. -/
structure Stopped (accountId : String) (w : SyncWorld) : Prop extends HandleInv w where
  disabled : w.db.Disabled accountId
  idle : ∀ j ∈ w.db.syncJobs, j.accountId = accountId → j.status.active = false
  paused : ∀ s ∈ w.db.mailboxSyncStates, s.accountId = accountId → s.syncState = .paused

section

variable [Platform]

/-- The calls that do not ask for work of the account: its policy is not enabled, and workers
report on jobs that they were given. -/
def LeftAlone (accountId : String) (w : SyncWorld) : SyncOp → Prop
  | .updatePolicy changed settings now =>
    (updatePolicy w.db changed settings now).isOk = true → changed = accountId →
      settings.enabled = false
  | .enqueue _ input _ => input.accountId ≠ accountId
  | .resumeAfterAuthorization resumed _ => resumed ≠ accountId
  | .markStarted job _ _ | .complete _ job _ _ _ | .fail job _ _ | .cancel job _ _ =>
    job ∈ w.handles
  | .applyMailRulePreview jobIds runIds owner token now =>
    accountId ∉ (SyncOp.applyMailRulePreview jobIds runIds owner token now).ruleAccounts w.db
  | .retryMailRuleRun newId owner id now =>
    accountId ∉ (SyncOp.retryMailRuleRun newId owner id now).ruleAccounts w.db
  | .ensurePolicy .. | .pruneEvents .. | .claimNext .. | .renewLease .. | .commitMailboxSync .. =>
    True
  | .enqueueDueSyncs .. => False

instance (accountId : String) (w : SyncWorld) :
    (op : SyncOp) → Decidable (LeftAlone accountId w op)
  | .updatePolicy .. => inferInstanceAs (Decidable (_ → _ → _))
  | .enqueue .. | .resumeAfterAuthorization .. => inferInstanceAs (Decidable (_ ≠ _))
  | .markStarted .. | .complete .. | .fail .. | .cancel .. => inferInstanceAs (Decidable (_ ∈ _))
  | .applyMailRulePreview .. | .retryMailRuleRun .. => inferInstanceAs (Decidable (_ ∉ _))
  | .ensurePolicy .. | .pruneEvents .. | .claimNext .. | .renewLease .. | .commitMailboxSync .. =>
    inferInstanceAs (Decidable True)
  | .enqueueDueSyncs .. => inferInstanceAs (Decidable False)

/-- The accounts that a scan is at work on: it has read their policy as enabled, or that they
have rule work. -/
def ScanPhase.working : ScanPhase → List String
  | .resume account _ _ | .auth account _ _ | .targets account _ _ | .enqueue account _ _ _ _ =>
    [account.id]
  | .rules left => left
  | .accounts | .ensure _ | .policy _ _ | .done => []

def StepLeftAlone (accountId : String) (w : ScanWorld) : ScanStep → Prop
  | .call op => LeftAlone accountId w.toSyncWorld op
  | .start _ _ => True
  | .next k _ => ∀ scan ∈ w.scans[k]?, scan.readsRules = true →
    accountId ∉ dueRuleAccounts w.db scan.now

instance (accountId : String) (w : ScanWorld) :
    (step : ScanStep) → Decidable (StepLeftAlone accountId w step)
  | .call op => inferInstanceAs (Decidable (LeftAlone accountId w.toSyncWorld op))
  | .start .. => inferInstanceAs (Decidable True)
  | .next k _ => inferInstanceAs (Decidable (∀ scan ∈ w.scans[k]?, _ → _ ∉ _))

variable {accountId : String}

section

variable {w : SyncWorld} (h : Stopped accountId w)

include h

omit [Platform] in
theorem Stopped.held_other {job : SyncJob} (hjob : job ∈ w.handles) (hheld : Held w.db job) :
    job.accountId ≠ accountId := by
  intro haccount
  obtain ⟨row, hrow, hrun, _, hplace⟩ := hheld.active h.toHandleInv hjob
  simp only [SyncJob.place, Prod.mk.injEq] at hplace
  have hidle := h.idle row hrow (hplace.1.trans haccount)
  rw [hrun] at hidle
  cases hidle

variable {op : SyncOp}

theorem Stopped.step_idle (hop : op.single = true) (hleft : LeftAlone accountId w op) :
    ∀ j ∈ (op.apply w.db).syncJobs, j.accountId = accountId → j.status.active = false := by
  intro j' hj' haccount
  by_contra hactive
  obtain ⟨j, hj, _, hplace, hkept⟩ := apply_origin w.db op hop h.queue j' hj'
  simp only [SyncJob.place, Prod.mk.injEq] at hplace
  have hjaccount : j.accountId = accountId := hplace.1.symm.trans haccount
  rcases hj with hinserts | hj
  · cases op with
    | enqueue newId input now =>
      obtain ⟨reason, rfl⟩ := hinserts
      exact hleft hjaccount
    | complete newId job result reconciliationMinutes now =>
      obtain ⟨rfl, hheld⟩ := hinserts
      exact h.held_other hleft hheld hjaccount
    | applyMailRulePreview jobIds runIds owner token now =>
      obtain ⟨id, a, ha, rfl⟩ := hinserts
      obtain rfl : a = accountId := hjaccount
      exact hleft ha
    | retryMailRuleRun newId owner id now =>
      obtain ⟨a, ha, rfl⟩ := hinserts
      obtain rfl : a = accountId := hjaccount
      exact hleft ha
    | _ => exact hinserts.elim
  · rw [h.idle j hj hjaccount] at hkept
    exact absurd (hkept (by simpa using hactive)) (by decide)

omit [Platform] in
theorem Stopped.paused_upsert {job : SyncJob} {mailbox : String} {row : MailboxSyncState}
    {merge : MailboxSyncState → MailboxSyncState} (hrecords : RecordsFor job mailbox row merge)
    (hother : job.accountId ≠ accountId) :
    ∀ s ∈ upsertStates row merge w.db.mailboxSyncStates, s.accountId = accountId →
      s.syncState = .paused := by
  intro s hs haccount
  rcases mem_upsertStates hs with ⟨rfl, _⟩ | ⟨old, _, hsame, rfl⟩ | ⟨hmem, _⟩
  · exact absurd (hrecords.account.symm.trans haccount) hother
  · simp only [sameMailbox, Bool.and_eq_true, beq_iff_eq] at hsame
    rw [hrecords.merge_account, hsame.1, hrecords.account] at haccount
    exact absurd haccount hother
  · exact h.paused s hmem haccount

omit [Platform] in
theorem Stopped.paused_policy {changed : String} {enabled : Bool}
    (hoff : changed = accountId → enabled = false) :
    ∀ s ∈ policyStates enabled changed w.db.mailboxSyncStates, s.accountId = accountId →
      s.syncState = .paused := by
  have hkept : ∀ s ∈ w.db.mailboxSyncStates, (s.accountId == changed) = false →
      s.accountId = accountId → s.syncState = .paused := fun s hs _ => h.paused s hs
  unfold policyStates
  split_ifs with henabled
  · apply forall_updateWhere hkept
    intro s hs hchanged haccount
    have hsame : changed = accountId := (beq_iff_eq.mp hchanged).symm.trans haccount
    rw [hoff hsame] at henabled
    cases henabled
  · apply forall_updateWhere hkept
    intro s _ _ _
    rfl

omit [Platform] in
theorem Stopped.disabled_policy {changed : String} {settings : SyncPolicySettings}
    {mode : FolderMode} {now : Time} (hoff : changed = accountId → settings.enabled = false) :
    Db.Disabled { w.db with
      syncPolicies := updateWhere (fun p => p.accountId == changed)
        (setPolicy settings mode now) w.db.syncPolicies } accountId := by
  obtain ⟨p, hp, hdisabled⟩ := h.disabled
  by_cases hsame : accountId = changed
  · refine ⟨setPolicy settings mode now p, ?_, hoff hsame.symm⟩
    rw [policy_setPolicy, hp, Option.map_some, if_pos hsame]
  · refine ⟨p, ?_, hdisabled⟩
    rw [policy_setPolicy, hp, Option.map_some, if_neg hsame]

theorem Stopped.step_states (hop : op.single = true) (hleft : LeftAlone accountId w op) :
    (op.apply w.db).Disabled accountId ∧
      ∀ s ∈ (op.apply w.db).mailboxSyncStates, s.accountId = accountId →
        s.syncState = .paused := by
  have hdisabled : ∀ policies, Db.Disabled { w.db with syncPolicies := policies } accountId →
      (op.apply w.db).syncPolicies = policies → (op.apply w.db).Disabled accountId := by
    rintro policies hpolicies rfl
    exact hpolicies
  have hwrite := (apply_single w.db op hop).states
  generalize hstates : (op.apply w.db).mailboxSyncStates = states at hwrite
  generalize hpolicies : (op.apply w.db).syncPolicies = policies at hwrite
  cases hwrite with
  | same => exact ⟨hdisabled _ h.disabled hpolicies, h.paused⟩
  | ensure _ _ => exact ⟨hdisabled _ (disabled_append h.disabled _) hpolicies, h.paused⟩
  | @policy changed settings now mode _ =>
    cases hupdate : updatePolicy w.db changed settings now with
    | error e =>
      have hsame : (SyncOp.updatePolicy changed settings now).apply w.db = w.db := by
        simp [SyncOp.apply, hupdate]
      rw [hsame] at hstates ⊢
      rw [← hstates]
      exact ⟨h.disabled, h.paused⟩
    | ok db' =>
      have hoff : changed = accountId → settings.enabled = false := hleft (by rw [hupdate]; rfl)
      exact ⟨hdisabled _ (h.disabled_policy hoff) hpolicies, h.paused_policy hoff⟩
  | @resume resumed now =>
    refine ⟨hdisabled _ h.disabled hpolicies, ?_⟩
    apply forall_updateWhere fun s hs _ => h.paused s hs
    intro s _ hsel haccount
    simp only [Bool.and_eq_true, beq_iff_eq] at hsel
    exact absurd (hsel.1.symm.trans haccount) hleft
  | @start job mailbox now held =>
    exact ⟨hdisabled _ h.disabled hpolicies,
      h.paused_upsert (recordsFor_started job mailbox now) (h.held_other hleft held)⟩
  | @fail job failure now held =>
    exact ⟨hdisabled _ h.disabled hpolicies,
      h.paused_upsert (recordsFor_failed job failure now) (h.held_other hleft held)⟩
  | @cancel job mailbox now held =>
    exact ⟨hdisabled _ h.disabled hpolicies,
      h.paused_upsert (recordsFor_cancelled job mailbox) (h.held_other hleft held)⟩
  | @complete newId job result reconciliationMinutes now held =>
    refine ⟨hdisabled _ h.disabled hpolicies, fun s hs => ?_⟩
    exact h.paused_upsert (recordsFor_completed job result (now + minutes reconciliationMinutes)
      now) (h.held_other hleft held) s (mem_deleteWhere.mp hs).1

theorem Stopped.step_single (hop : op.single = true) (hleft : LeftAlone accountId w op) :
    Stopped accountId (w.step op) := by
  obtain ⟨hdisabled, hpaused⟩ := h.step_states hop hleft
  exact ⟨step_handleInv w op hop h.toHandleInv, hdisabled, h.step_idle hop hleft, hpaused⟩

end

variable {now : Time} {db : Db} {op : SyncOp} {scan : SchedulerScan} {newId : String}

theorem not_working_advance (hdisabled : db.Disabled accountId)
    (hrules : scan.readsRules = true → accountId ∉ dueRuleAccounts db scan.now)
    (hidle : accountId ∉ scan.phase.working) : accountId ∉ (scan.advance newId db).working := by
  intro hworking
  obtain ⟨reason, now, phase⟩ := scan
  rcases phase with _ | (_ | ⟨account, left⟩) | ⟨account, left⟩ | ⟨account, policy, left⟩ |
    ⟨account, policy, left⟩ | ⟨account, _ | ⟨next, targets⟩, left⟩ |
    ⟨account, next, state, targets, left⟩ | (_ | ⟨due, left⟩) | _
  case ensure.nil => exact hrules rfl hworking
  case policy =>
    simp only [SchedulerScan.advance] at hworking
    split at hworking
    · cases hworking
    · rename_i policy hpolicy
      split_ifs at hworking with henabled
      · obtain ⟨p, hp, hoff⟩ := hdisabled
        rw [List.mem_singleton.mp hworking, hpolicy] at hp
        cases hp
        rw [henabled] at hoff
        cases hoff
      · cases hworking
  all_goals
    simp only [SchedulerScan.advance] at hworking
    try split at hworking
    all_goals
      try split_ifs at hworking
      all_goals
        first
        | cases hworking; done
        | exact hidle hworking
        | exact hidle (List.mem_cons_of_mem _ hworking)

omit [Platform] in
theorem leftAlone_of_transaction (hop : scan.transaction newId = some op)
    (hidle : accountId ∉ scan.phase.working) (w : SyncWorld) : LeftAlone accountId w op := by
  cases scanCall_of_transaction hop with
  | resume hphase _ | target hphase | rule hphase =>
    rw [hphase] at hidle
    rintro rfl
    exact hidle List.mem_cons_self
  | ensure | prune => trivial

theorem step_stopped (w : ScanWorld) (step : ScanStep)
    (h : Stopped accountId w.toSyncWorld ∧ ∀ scan ∈ w.scans, accountId ∉ scan.phase.working)
    (hleft : StepLeftAlone accountId w step) :
    Stopped accountId (w.step step).toSyncWorld ∧
      ∀ scan ∈ (w.step step).scans, accountId ∉ scan.phase.working := by
  refine ScanWorld.step_keeps (Q := fun scan => accountId ∉ scan.phase.working) h ?_ ?_ ?_
  · intro op hsingle htransaction
    apply h.1.step_single hsingle
    cases step with
    | call op' =>
      obtain ⟨_, rfl⟩ := transaction_call htransaction
      exact hleft
    | start => cases htransaction
    | next k newId =>
      obtain ⟨scan, hscan, hop⟩ := Option.bind_eq_some_iff.mp htransaction
      exact leftAlone_of_transaction hop (h.2 scan (List.mem_of_getElem? hscan)) w.toSyncWorld
  · rintro reason now rfl
    unfold SchedulerScan.start
    split_ifs <;> simp [ScanPhase.working]
  · rintro k newId scan rfl hscan hidle
    exact not_working_advance h.1.disabled (hleft scan hscan) hidle

theorem handleInv_steps (hdb : db.syncJobs = []) (steps : List ScanStep) :
    HandleInv (ScanWorld.run { db := db } steps).toSyncWorld := by
  refine invariant_exec (fun w : ScanWorld => HandleInv w.toSyncWorld) ?_ steps
    ⟨by rw [hdb]; exact QueueInv.nil, by simp⟩
  intro w step h
  exact (ScanWorld.step_keeps (Q := fun _ => True) ⟨h, fun _ _ => trivial⟩
    (fun op hsingle _ => step_handleInv w.toSyncWorld op hsingle h) (fun _ _ _ => trivial)
    fun _ _ _ _ _ _ => trivial).1

variable {w : SyncWorld}

theorem stopped_of_updatePolicy (hinv : HandleInv w)
    (hidle : ∀ j ∈ w.db.syncJobs, j.accountId = accountId → j.status ≠ .running)
    {settings : SyncPolicySettings} (hoff : settings.enabled = false) {db' : Db}
    (h : updatePolicy w.db accountId settings now = .ok db') :
    Stopped accountId ⟨db', w.handles⟩ := by
  have hstep : w.step (.updatePolicy accountId settings now) = ⟨db', w.handles⟩ := by
    simp [SyncWorld.step, SyncOp.apply, SyncOp.issued, h]
  have hhandles := step_handleInv w (.updatePolicy accountId settings now) rfl hinv
  rw [hstep] at hhandles
  obtain ⟨mode, _, hfound, rfl⟩ := updatePolicy_ok h
  refine ⟨hhandles, ?_, ?_, ?_⟩
  · obtain ⟨p, hp⟩ := Option.isSome_iff_exists.mp hfound
    refine ⟨setPolicy settings mode now p, ?_, hoff⟩
    have hpolicy := policy_setPolicy w.db accountId accountId settings mode now
    rw [hp, Option.map_some, if_pos rfl] at hpolicy
    exact hpolicy
  · rw [hoff]
    apply forall_updateWhere
    · intro j hj hkept haccount
      have hrunning := hidle j hj haccount
      have hqueued : j.status ≠ .queued := by simpa [haccount] using hkept
      cases hstatus : j.status with
      | queued => exact absurd hstatus hqueued
      | running => exact absurd hstatus hrunning
      | _ => rfl
    · intro j _ _ _
      rfl
  · rw [hoff]
    apply forall_updateWhere
    · intro s _ hkept haccount
      exact absurd haccount (beq_eq_false_iff_ne.mp hkept)
    · intro s _ _ _
      rfl

theorem Stopped.claim_other (h : Stopped accountId w) {workerId : String} {lease : ℕ}
    {job : SyncJob} {db' : Db} (hclaim : claimNext w.db workerId lease now = .ok (some job, db')) :
    job.accountId ≠ accountId := by
  intro haccount
  have hnext : ∀ j ∈ ((SyncOp.claimNext workerId lease now).apply w.db).syncJobs,
      j.accountId = accountId → j.status.active = false := h.step_idle rfl trivial
  simp only [SyncOp.apply, hclaim, Except.map, committed_ok] at hnext
  rcases claimNext_ok hclaim with ⟨hnone, _⟩ | ⟨row, hrow, _, _, hjob, rfl⟩
  · cases hnone
  · cases hjob
    have hmem : claimJob workerId lease now row ∈ updateWhere (fun j => j.id == row.id)
        (claimJob workerId lease now) (requeueExpired now w.db.syncJobs) :=
      mem_updateWhere.mpr (Or.inl ⟨row, hrow, by simp, rfl⟩)
    exact absurd (hnext _ hmem haccount) (by simp [claimJob, JobStatus.active])

/-- After the policy of an account was disabled while none of its jobs was running and no scan
at work on it, no job of it is given out and all its mailboxes stay paused, as long as the steps
leave it alone. -/
theorem disabled_policy_stops (db : Db) (hdb : db.syncJobs = []) (before : List ScanStep)
    (w : ScanWorld) (hw : w = ScanWorld.run { db := db } before) (accountId : String)
    (settings : SyncPolicySettings) (hoff : settings.enabled = false) (t : Time) (db₁ : Db)
    (hupdate : updatePolicy w.db accountId settings t = .ok db₁)
    (hidle : ∀ j ∈ w.db.syncJobs, j.accountId = accountId → j.status ≠ .running)
    (hscans : ∀ scan ∈ w.scans, accountId ∉ scan.phase.working) (after : List ScanStep)
    (hafter : Along ScanWorld.step (StepLeftAlone accountId) { w with db := db₁ } after) :
    let w' := ScanWorld.run { w with db := db₁ } after
    (∀ workerId lease now job db', claimNext w'.db workerId lease now = .ok (some job, db') →
      job.accountId ≠ accountId) ∧
    ∀ s ∈ w'.db.mailboxSyncStates, s.accountId = accountId → s.syncState = .paused := by
  have hinv : HandleInv w.toSyncWorld := hw ▸ handleInv_steps hdb before
  have hstart := stopped_of_updatePolicy hinv hidle hoff hupdate
  obtain ⟨hend, _⟩ := invariant_along (s := { w with db := db₁ })
    (fun w : ScanWorld => Stopped accountId w.toSyncWorld ∧
      ∀ scan ∈ w.scans, accountId ∉ scan.phase.working) step_stopped ⟨hstart, hscans⟩ hafter
  exact ⟨fun _ _ _ _ _ hclaim => hend.claim_other hclaim, hend.paused⟩

end

def switchedOff : SyncPolicySettings := { enabled := false }

def inboxClaimed : List ScanStep :=
  [.call (.enqueue "j" inboxRequest 0), .call (.claimNext "P" 10 0)]

def inboxWaits : List ScanStep :=
  [.call (.ensurePolicy "a" "u" 0)] ++ inboxClaimed ++
    [.call (.complete "n" handleOfP { mailbox := "INBOX" } 5 2),
      .call (.enqueue "k" inboxRequest 3)] ++ scanFor 1 0 "s" 3

/-- The request is dropped, and neither this scan nor a later one finds anything to do. -/
theorem disabled_policy_stops_inbox :
    let _ := Platform.plain
    let w := ScanWorld.run { db := singleAccountDb } inboxWaits
    let after := List.replicate 5 (.next 0 "s") ++ scanFor 6 1 "t" 600000
    ∃ db₁, updatePolicy w.db "a" switchedOff 4 = .ok db₁ ∧
      let w' := ScanWorld.run { w with db := db₁ } after
      w'.db.mailboxSyncStates.map (·.syncState) = [.paused] ∧
      ∀ workerId lease now job db', claimNext w'.db workerId lease now = .ok (some job, db') →
        job.accountId ≠ "a" := by
  intro _ w after
  have hafter : ∀ d ∈ (updatePolicy w.db "a" switchedOff 4).toOption,
      Along ScanWorld.step (StepLeftAlone "a") { w with db := d } after := by decide +kernel
  have hrows : ∀ d ∈ (updatePolicy w.db "a" switchedOff 4).toOption,
      (ScanWorld.run { w with db := d } after).db.mailboxSyncStates.map (·.syncState) =
        [.paused] := by decide +kernel
  have hupdates : ∃ db₁, updatePolicy w.db "a" switchedOff 4 = .ok db₁ :=
    exists_ok_of_isOk (by decide +kernel)
  obtain ⟨db₁, hupdate⟩ := hupdates
  rw [hupdate] at hafter hrows
  refine ⟨db₁, hupdate, hrows db₁ rfl, ?_⟩
  exact (disabled_policy_stops singleAccountDb rfl inboxWaits w rfl "a" switchedOff rfl 4 db₁ hupdate
    (by decide +kernel) (by decide +kernel) after (hafter db₁ rfl)).1

def pendingRunDb : Db :=
  { failedRunDb with mailRuleRuns := [{ failedRun with status := .pending }] }

def switchOff (t : Time) : ScanStep := .call (.updatePolicy "a" switchedOff t)

/-- `P` synchronizes the inbox while the policy is disabled. -/
def switchedOffWhileRunning : List ScanStep :=
  [.call (.ensurePolicy "a" "u" 0)] ++ inboxClaimed ++ [switchOff 1]

def givenOut [Platform] (db : Db) (steps : List ScanStep) (now : Time) : Option String :=
  ((SyncOp.claimNext "Q" 10 now).issued (ScanWorld.run { db := db } steps).db).map (·.accountId)

/-- A scan wakes the account for its rule work, or enqueues it because it has read the policy
before. A job that was running goes on: its completion leaves the mailbox idle and its rerun in
the queue, and it is given out again once its lease is over. -/
theorem disabled_policy_works_on :
    let _ := Platform.plain
    givenOut pendingRunDb ([.call (.ensurePolicy "a" "u" 0), switchOff 1] ++ scanFor 5 0 "s" 2) 3 =
      some "a" ∧
    givenOut singleAccountDb (scanFor 3 0 "s" 0 ++ [switchOff 1] ++
      List.replicate 4 (.next 0 "s")) 3 = some "a" ∧
    ((ScanWorld.run { db := singleAccountDb } (switchedOffWhileRunning ++
      [.call (.complete "n" handleOfP { mailbox := "INBOX" } 5 2)])).db.mailboxSyncStates.map
        (·.syncState)) = [.idle] ∧
    givenOut singleAccountDb ([.call (.ensurePolicy "a" "u" 0)] ++ inboxClaimed ++
      [.call (.enqueue "k" inboxRequest 0), switchOff 1,
        .call (.complete "n" handleOfP { mailbox := "INBOX" } 5 2)]) 3 = some "a" ∧
    givenOut singleAccountDb switchedOffWhileRunning 20 = some "a" := by
  intro _
  exact ⟨by decide +kernel, by decide +kernel, by decide +kernel, by decide +kernel,
    by decide +kernel⟩

end IMail
