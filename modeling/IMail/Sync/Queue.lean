import IMail.Store.CommitSpec
import IMail.Sync.Scan
import Mathlib.Logic.Relation

/-!
# What a transaction can do

`QueueWrite` lists the writes to `sync_jobs` that the transactions of the store are made
of, with what each has checked beforehand. Every transaction is a sequence of them, and
every invariant of the queue is proved from this list. `StateWrite` lists the writes to
`sync_policies` and `mailbox_sync_states`.
-/

namespace IMail

open Relational Transition Relation

/-- A row as an `INSERT` leaves it. -/
structure SyncJob.Fresh (job : SyncJob) : Prop where
  queued : job.status = .queued
  unlocked : job.lockedBy = none
  unleased : job.lockedUntil = none
  unasked : job.rerunRequested = false
  untried : job.attempts = 0

/-- What the three ends of a job have in common. -/
structure EndsJob (f : SyncJob → SyncJob) : Prop where
  id_eq : ∀ j, (f j).id = j.id
  place_eq : ∀ j, (f j).place = j.place
  inactive : ∀ j, (f j).status.active = false
  unlocked : ∀ j, (f j).lockedBy = none
  unleased : ∀ j, (f j).lockedUntil = none
  attempts_eq : ∀ j, (f j).attempts = j.attempts

theorem endsJob_succeedJob (result : SyncCompletion) (now : Time) :
    EndsJob (succeedJob result now) := by
  constructor <;> intro j <;> rfl

theorem endsJob_failJob (failure : SyncFailure) (now : Time) : EndsJob (failJob failure now) := by
  constructor <;> intro j <;> rfl

theorem endsJob_cancelJob (now : Time) : EndsJob (cancelJob now) := by
  constructor <;> intro j <;> rfl

/-- The accounts of the messages or the run that a call about rules is for. -/
def SyncOp.ruleAccounts (db : Db) : SyncOp → List String
  | .applyMailRulePreview _ _ owner token now =>
    match db.mailRulePreviews.find? fun p =>
        p.id == token && p.userId == owner && now < p.expiresAt with
    | none => []
    | some preview =>
      preview.messages.filterMap fun expected =>
        (ruleMessage db owner expected.id).map (·.accountId)
  | .retryMailRuleRun _ owner id _ =>
    (db.mailRuleRuns.filter fun r => r.id == id && r.userId == owner).map (·.accountId)
  | _ => []

def SyncOp.madeWith (handle : SyncJob) : SyncOp → Prop
  | .renewLease jobId workerId _ _ => jobId = handle.id ∧ some workerId = handle.lockedBy
  | .markStarted job _ _ => job = handle
  | .complete _ job _ _ _ => job = handle
  | .fail job _ _ => job = handle
  | .cancel job _ _ => job = handle
  | _ => False

def Held (db : Db) (job : SyncJob) : Prop :=
  ∃ row ∈ db.syncJobs, heldBy job.id job.lockedBy row = true

variable {db : Db}

theorem held_of_countP {job : SyncJob} (h : db.syncJobs.countP (heldBy job.id job.lockedBy) = 1) :
    Held db job := by
  have hpos : 0 < db.syncJobs.countP (heldBy job.id job.lockedBy) := by omega
  obtain ⟨row, hmem, hheld⟩ := List.countP_pos_iff.mp hpos
  exact ⟨row, hmem, hheld⟩

def SyncOp.inserts (db : Db) (job : SyncJob) : SyncOp → Prop
  | .enqueue newId input now => ∃ reason, job = enqueuedJob newId input reason now
  | .complete newId handle _ _ now => job = rerunJob handle newId now ∧ Held db handle
  | .applyMailRulePreview jobIds runIds owner token now => ∃ id accountId,
      accountId ∈ (SyncOp.applyMailRulePreview jobIds runIds owner token now).ruleAccounts db ∧
      job = ruleJob id accountId now
  | .retryMailRuleRun newId owner id now => ∃ accountId,
      accountId ∈ (SyncOp.retryMailRuleRun newId owner id now).ruleAccounts db ∧
      job = ruleJob newId accountId now
  | _ => False

/-- The writes to `sync_jobs` by a call `op` made on `db`. -/
inductive QueueWrite (db : Db) (op : SyncOp) : List SyncJob → List SyncJob → Prop
  | insert {jobs : List SyncJob} {job : SyncJob} (origin : op.inserts db job) (fresh : job.Fresh)
      (newId : ∀ j ∈ jobs, j.id ≠ job.id) (free : ∀ j ∈ jobs, j.activeKey ≠ some job.target) :
      QueueWrite db op jobs (jobs ++ [job])
  | merge {newId : String} {input : SyncEnqueue} {now : Time} {existing : SyncJob}
      {result : SyncJob × Db} (call : op = .enqueue newId input now)
      (ok : IMail.enqueue db newId input now = .ok result) (mem : existing ∈ db.syncJobs)
      (key : existing.activeKey = some input.target) :
      QueueWrite db op db.syncJobs
        (updateWhere (fun j => j.id == existing.id) (mergeEnqueue input now) db.syncJobs)
  | cancel {jobs : List SyncJob} {accountId : String} {settings : SyncPolicySettings} {now : Time}
      (call : op = .updatePolicy accountId settings now) :
      QueueWrite db op jobs
        (updateWhere (fun j => j.accountId == accountId && j.status = .queued) (cancelQueued now)
          jobs)
  | requeue {jobs : List SyncJob} {workerId : String} {lease : ℕ} {now : Time}
      (call : op = .claimNext workerId lease now) : QueueWrite db op jobs (requeueExpired now jobs)
  | claim {jobs : List SyncJob} {workerId : String} {lease : ℕ} {now : Time} {job : SyncJob}
      (call : op = .claimNext workerId lease now) (mem : job ∈ jobs)
      (queued : job.status = .queued)
      (issued : op.issued db = some (claimJob workerId lease now job)) :
      QueueWrite db op jobs
        (updateWhere (fun j => j.id == job.id) (claimJob workerId lease now) jobs)
  | renew {jobs : List SyncJob} {jobId workerId : String} {lease : ℕ} {now : Time}
      (call : op = .renewLease jobId workerId lease now) :
      QueueWrite db op jobs
        (updateWhere (heldBy jobId (some workerId))
          (fun j => { j with lockedUntil := some (now + lease) }) jobs)
  | finish {jobs : List SyncJob} {job : SyncJob} {f : SyncJob → SyncJob}
      (call : op.madeWith job) (ends : EndsJob f) :
      QueueWrite db op jobs (updateWhere (heldBy job.id job.lockedBy) f jobs)
  | wake {jobs : List SyncJob} {accountId : String} (call : accountId ∈ op.ruleAccounts db) :
      QueueWrite db op jobs
        (updateWhere (fun j => j.accountId == accountId && j.status = .running)
          (fun j => { j with rerunRequested := true }) jobs)

theorem queue_writes_preserve {op : SyncOp} (Inv : List SyncJob → Prop)
    (hwrite : ∀ jobs jobs', QueueWrite db op jobs jobs' → Inv jobs → Inv jobs')
    {jobs jobs' : List SyncJob} (h : ReflTransGen (QueueWrite db op) jobs jobs') (hinv : Inv jobs) :
    Inv jobs' := by
  induction h with
  | refl => exact hinv
  | tail _ hlast ih => exact hwrite _ _ hlast ih

theorem ruleMessage_accountId (db : Db) (owner id : String) :
    (ruleMessage db owner id).map (·.accountId) =
      ((db.messages.map fun m => (m.id, m.accountId)).find? fun key =>
        key.1 == id && db.ownsAccount owner key.2).map Prod.snd := by
  simp [ruleMessage, List.find?_map, Function.comp_def]

theorem wakeForRules_ok {db' : Db} {jobId accountId : String} {now : Time}
    (h : wakeForRules db jobId accountId now = .ok db') :
    ∃ jobs, db' = { db with syncJobs := jobs } ∧
      ∀ (db₀ : Db) (op : SyncOp), accountId ∈ op.ruleAccounts db₀ →
        op.inserts db₀ (ruleJob jobId accountId now) →
        ReflTransGen (QueueWrite db₀ op) db.syncJobs jobs := by
  obtain ⟨db₁, hinsert, rfl⟩ := map_eq_ok h
  rcases insertJobOrIgnore_ok hinsert with rfl | ⟨hid, hfree, rfl⟩
  · exact ⟨_, rfl, fun db₀ op hcall _ => .single (.wake hcall)⟩
  · refine ⟨_, rfl, fun db₀ op hcall horigin => ?_⟩
    exact .tail (.single (.insert horigin ⟨rfl, rfl, rfl, rfl, rfl⟩ hid hfree)) (.wake hcall)

theorem retryMailRuleRun_ok {db' : Db} {newId owner id : String} {now : Time} {found : Bool}
    (h : retryMailRuleRun db newId owner id now = .ok (found, db')) :
    (∃ runs jobs, db' = { db with mailRuleRuns := runs, syncJobs := jobs }) ∧
      ReflTransGen (QueueWrite db (.retryMailRuleRun newId owner id now))
        db.syncJobs db'.syncJobs := by
  unfold retryMailRuleRun at h
  split at h
  · cases h
    exact ⟨⟨_, _, rfl⟩, .refl⟩
  · rename_i run hrun
    dsimp only at h
    split at h
    · cases h
    · rename_i db₁ hwake
      cases h
      obtain ⟨jobs, rfl, hqueue⟩ := wakeForRules_ok hwake
      have hfound := List.find?_some hrun
      simp only [Bool.and_eq_true, beq_iff_eq] at hfound
      have hmem : run.accountId ∈
          (SyncOp.retryMailRuleRun newId owner id now).ruleAccounts db := by
        simp only [SyncOp.ruleAccounts, List.mem_map, List.mem_filter, Bool.and_eq_true,
          beq_iff_eq]
        exact ⟨run, ⟨List.mem_of_find?_eq_some hrun, hfound.1.1.1, hfound.1.1.2⟩, rfl⟩
      exact ⟨⟨_, _, rfl⟩, hqueue db _ hmem ⟨_, hmem, rfl⟩⟩

theorem policyJobs_queue (db : Db) (accountId : String) (settings : SyncPolicySettings)
    (now : Time) (enabled : Bool) (jobs : List SyncJob) :
    ReflTransGen (QueueWrite db (.updatePolicy accountId settings now)) jobs
      (policyJobs enabled accountId now jobs) := by
  cases enabled with
  | true => exact .refl
  | false => exact .single (.cancel rfl)

section

variable [Platform]

variable {jobIds runIds : RunIds} {owner : String} {now : Time} {db db' : Db} {count : ℕ}

/-- One message of a preview: its labels and the rule tables change, and the queue by writes
for the account of the message. -/
theorem applyPreviewMessage_ok {rule : MailRule} {expected : PreviewMessage}
    (h : applyPreviewMessage jobIds runIds owner rule now expected db = .ok (count, db')) :
    db'.accounts = db.accounts ∧
      (db'.messages.map fun m => (m.id, m.accountId)) =
        (db.messages.map fun m => (m.id, m.accountId)) ∧
      (∃ messages runs sequence states jobs, db' = { db with
        messages := messages
        mailRuleRuns := runs
        mailRuleRunSequence := sequence
        ruleMessageStates := states
        syncJobs := jobs }) ∧
      ∀ (db₀ : Db) (op : SyncOp),
        (∀ a, (ruleMessage db owner expected.id).map (·.accountId) = some a →
          a ∈ op.ruleAccounts db₀ ∧ ∀ id, op.inserts db₀ (ruleJob id a now)) →
        ReflTransGen (QueueWrite db₀ op) db.syncJobs db'.syncJobs := by
  unfold applyPreviewMessage at h
  split at h
  · cases h
  · rename_i message hmessage
    by_cases hchanged : fingerprint message ≠ expected.fingerprint
    · rw [if_pos hchanged] at h
      cases h
    rw [if_neg hchanged] at h
    obtain ⟨runs, sequence, states, hrules⟩ :=
      rulesOnly_enqueueMatches runIds owner [rule] message .manual now db
    dsimp only at h
    rw [hrules] at h
    have hkeys : ∀ labels, ((updateWhere (fun m => m.id == message.id)
        (fun m => { m with labels := labels }) db.messages).map fun m => (m.id, m.accountId)) =
          db.messages.map fun m => (m.id, m.accountId) := by
      intro labels
      exact map_updateWhere (fun m : Message => (m.id, m.accountId)) fun m => rfl
    split_ifs at h
    · split at h
      · cases h
      · rename_i db₁ hwake
        cases h
        obtain ⟨jobs, rfl, hqueue⟩ := wakeForRules_ok hwake
        exact ⟨rfl, hkeys _, ⟨_, _, _, _, _, rfl⟩,
          fun db₀ op hcall => by
            have hrule := hcall message.accountId (by simp [hmessage])
            exact hqueue db₀ op hrule.1 (hrule.2 _)⟩
    · cases h
      exact ⟨rfl, hkeys _, ⟨_, _, _, _, _, rfl⟩, fun _ _ _ => .refl⟩

theorem applyPreviewMessages_ok {rule : MailRule} {expected : List PreviewMessage}
    (h : applyPreviewMessages jobIds runIds owner rule now expected db = .ok (count, db')) :
    (∃ messages runs sequence states jobs, db' = { db with
        messages := messages
        mailRuleRuns := runs
        mailRuleRunSequence := sequence
        ruleMessageStates := states
        syncJobs := jobs }) ∧
      ∀ (db₀ : Db) (op : SyncOp),
        (∀ e ∈ expected, ∀ a, (ruleMessage db owner e.id).map (·.accountId) = some a →
          a ∈ op.ruleAccounts db₀ ∧ ∀ id, op.inserts db₀ (ruleJob id a now)) →
        ReflTransGen (QueueWrite db₀ op) db.syncJobs db'.syncJobs := by
  induction expected generalizing db count with
  | nil =>
    cases h
    exact ⟨⟨_, _, _, _, _, rfl⟩, fun _ _ _ => .refl⟩
  | cons first rest ih =>
    simp only [applyPreviewMessages] at h
    split at h
    · cases h
    · rename_i count₁ db₁ hfirst
      obtain ⟨haccounts, hkeys, ⟨messages, runs, sequence, states, jobs, heq⟩, hqueue⟩ :=
        applyPreviewMessage_ok hfirst
      obtain ⟨⟨count₂, db₂⟩, hrest, hresult⟩ := map_eq_ok h
      cases hresult
      obtain ⟨⟨messages', runs', sequence', states', jobs', hdb'⟩, hqueue'⟩ := ih hrest
      refine ⟨⟨messages', runs', sequence', states', jobs', ?_⟩, fun db₀ op hcall => ?_⟩
      · rw [hdb', heq]
      · refine (hqueue db₀ op (hcall first List.mem_cons_self)).trans (hqueue' db₀ op ?_)
        intro e he a ha
        apply hcall e (List.mem_cons_of_mem _ he) a
        rw [ruleMessage_accountId] at ha ⊢
        unfold Db.ownsAccount at ha ⊢
        rwa [haccounts, hkeys] at ha

theorem applyMailRulePreview_ok {token : String}
    (h : applyMailRulePreview db jobIds runIds owner token now = .ok (count, db')) :
    (∃ messages runs sequence states jobs previews, db' = { db with
        messages := messages
        mailRuleRuns := runs
        mailRuleRunSequence := sequence
        ruleMessageStates := states
        syncJobs := jobs
        mailRulePreviews := previews }) ∧
      ReflTransGen (QueueWrite db (.applyMailRulePreview jobIds runIds owner token now))
        db.syncJobs db'.syncJobs := by
  unfold applyMailRulePreview at h
  split at h
  · cases h
  · rename_i preview hpreview
    split at h
    · cases h
    · rename_i rule hrule
      obtain ⟨⟨total, db₁⟩, hall, hresult⟩ := map_eq_ok h
      cases hresult
      obtain ⟨⟨messages, runs, sequence, states, jobs, heq⟩, hqueue⟩ :=
        applyPreviewMessages_ok hall
      refine ⟨⟨messages, runs, sequence, states, jobs, _, by rw [heq]⟩, ?_⟩
      refine hqueue db _ fun e he a ha => ?_
      have hmem : a ∈
          (SyncOp.applyMailRulePreview jobIds runIds owner token now).ruleAccounts db := by
        simp only [SyncOp.ruleAccounts, hpreview, List.mem_filterMap]
        exact ⟨e, he, ha⟩
      exact ⟨hmem, fun id => ⟨id, a, hmem, rfl⟩⟩

/-- The policies and the mailbox states after a call `op` made on `db`. -/
inductive StateWrite (db : Db) : SyncOp → List SyncPolicy → List MailboxSyncState → Prop
  | same {op : SyncOp} : StateWrite db op db.syncPolicies db.mailboxSyncStates
  | ensure {accountId userId : String} {now : Time} {policy : SyncPolicy}
      (missing : db.policy accountId = none) (account : policy.accountId = accountId) :
      StateWrite db (.ensurePolicy accountId userId now) (db.syncPolicies ++ [policy])
        db.mailboxSyncStates
  | policy {accountId : String} {settings : SyncPolicySettings} {now : Time} {mode : FolderMode}
      (found : (db.policy accountId).isSome = true) :
      StateWrite db (.updatePolicy accountId settings now)
        (updateWhere (fun p => p.accountId == accountId) (setPolicy settings mode now)
          db.syncPolicies)
        (policyStates settings.enabled accountId db.mailboxSyncStates)
  | resume {accountId : String} {now : Time} :
      StateWrite db (.resumeAfterAuthorization accountId now) db.syncPolicies
        (resumeAfterAuthorization db accountId now).mailboxSyncStates
  | start {job : SyncJob} {mailbox : String} {now : Time} (held : Held db job) :
      StateWrite db (.markStarted job mailbox now) db.syncPolicies
        (upsertStates (startedRow job mailbox now) (startedMerge job now) db.mailboxSyncStates)
  | complete {newId : String} {job : SyncJob} {result : SyncCompletion}
      {reconciliationMinutes : ℤ} {now : Time} (held : Held db job) :
      StateWrite db (.complete newId job result reconciliationMinutes now) db.syncPolicies
        (completedStates job result (now + minutes reconciliationMinutes) now
          db.mailboxSyncStates)
  | fail {job : SyncJob} {failure : SyncFailure} {now : Time} (held : Held db job) :
      StateWrite db (.fail job failure now) db.syncPolicies
        (upsertStates (failedRow job failure now) (failedMerge failure now) db.mailboxSyncStates)
  | cancel {job : SyncJob} {mailbox : String} {now : Time} (held : Held db job) :
      StateWrite db (.cancel job mailbox now) db.syncPolicies
        (upsertStates (cancelledRow job mailbox) cancelledMerge db.mailboxSyncStates)

def Db.mailTables (db : Db) : List Message × List MailRuleRun × ℕ × List RuleMessageState :=
  (db.messages, db.mailRuleRuns, db.mailRuleRunSequence, db.ruleMessageStates)

def SyncOp.writesMail : SyncOp → Bool
  | .commitMailboxSync .. | .applyMailRulePreview .. | .retryMailRuleRun .. => true
  | _ => false

/-- What a transaction leaves behind that is no scan. -/
structure SingleWrite (db : Db) (op : SyncOp) (db' : Db) : Prop where
  queue : ReflTransGen (QueueWrite db op) db.syncJobs db'.syncJobs
  states : StateWrite db op db'.syncPolicies db'.mailboxSyncStates
  mail : op.writesMail = false → db'.mailTables = db.mailTables

theorem apply_single (db : Db) (op : SyncOp) (hop : op.single = true) :
    SingleWrite db op (op.apply db) := by
  have hcommitted : ∀ {ε : Type} {op : SyncOp} {r : Except ε Db},
      (∀ db', r = .ok db' → SingleWrite db op db') → SingleWrite db op (committed db r) :=
    fun h => committed_of (P := SingleWrite db _) ⟨.refl, .same, fun _ => rfl⟩ h
  cases op with
  | enqueueDueSyncs ids reason now => simp [SyncOp.single] at hop
  | resumeAfterAuthorization accountId now => exact ⟨.refl, .resume, fun _ => rfl⟩
  | pruneEvents before => exact ⟨.refl, .same, fun _ => rfl⟩
  | ensurePolicy accountId userId now =>
    refine hcommitted fun db' h => ?_
    obtain ⟨policy, h⟩ := map_snd_ok h
    rcases ensurePolicy_ok h with ⟨_, rfl⟩ | ⟨hmissing, haccount, rfl⟩
    · exact ⟨.refl, .same, fun _ => rfl⟩
    · exact ⟨.refl, .ensure hmissing haccount, fun _ => rfl⟩
  | updatePolicy accountId settings now =>
    refine hcommitted fun db' h => ?_
    obtain ⟨mode, _, hfound, rfl⟩ := updatePolicy_ok h
    exact ⟨policyJobs_queue db _ _ _ _ _, .policy hfound, fun _ => rfl⟩
  | enqueue newId input now =>
    refine hcommitted fun db' h => ?_
    obtain ⟨job, h⟩ := map_snd_ok h
    rcases enqueue_ok h with ⟨existing, hmem, hkey, _, rfl⟩ | ⟨hid, hfree, reason, rfl, rfl⟩
    · exact ⟨.single (.merge rfl h hmem hkey), .same, fun _ => rfl⟩
    · exact ⟨.single (.insert ⟨reason, rfl⟩ ⟨rfl, rfl, rfl, rfl, rfl⟩ hid hfree), .same,
        fun _ => rfl⟩
  | claimNext workerId lease now =>
    refine hcommitted fun db' h => ?_
    obtain ⟨job, h⟩ := map_snd_ok h
    rcases claimNext_ok h with ⟨_, rfl⟩ | ⟨row, hmem, hqueued, _, rfl, rfl⟩
    · exact ⟨.single (.requeue rfl), .same, fun _ => rfl⟩
    · refine ⟨.tail (.single (.requeue rfl)) (.claim rfl hmem hqueued ?_), .same, fun _ => rfl⟩
      simp [SyncOp.issued, h]
  | renewLease jobId workerId lease now =>
    refine hcommitted fun db' h => ?_
    obtain ⟨held, h⟩ := map_snd_ok h
    obtain ⟨_, rfl⟩ := renewLease_ok h
    exact ⟨.single (.renew rfl), .same, fun _ => rfl⟩
  | markStarted job mailbox now =>
    refine hcommitted fun db' h => ?_
    obtain ⟨hheld, events, sequence, rfl⟩ := markStarted_ok h
    exact ⟨.refl, .start hheld, fun _ => rfl⟩
  | complete newId job result reconciliationMinutes now =>
    refine hcommitted fun db' h => ?_
    obtain ⟨_, _, hcount, row, _, _, hnew, events, sequence, authRequired, rfl⟩ := complete_ok h
    refine ⟨.trans (.single (.finish rfl (endsJob_succeedJob result now))) ?_,
      .complete (held_of_countP hcount), fun _ => rfl⟩
    dsimp only
    split_ifs with hflag
    · exact .single (.insert ⟨rfl, held_of_countP hcount⟩ ⟨rfl, rfl, rfl, rfl, rfl⟩ (hnew hflag).1
        (hnew hflag).2)
    · rw [List.append_nil]
  | fail job failure now =>
    refine hcommitted fun db' h => ?_
    obtain ⟨hcount, events, sequence, rfl⟩ := fail_ok h
    exact ⟨.single (.finish rfl (endsJob_failJob failure now)), .fail (held_of_countP hcount),
      fun _ => rfl⟩
  | cancel job mailbox now =>
    refine hcommitted fun db' h => ?_
    obtain ⟨hcount, rfl⟩ := cancel_ok h
    exact ⟨.single (.finish rfl (endsJob_cancelJob now)), .cancel (held_of_countP hcount),
      fun _ => rfl⟩
  | commitMailboxSync runIds plan completedAt =>
    refine hcommitted fun db' h => ?_
    obtain ⟨result, h⟩ := map_snd_ok h
    obtain ⟨messages, sources, runs, sequence, states, rfl⟩ := commitMailboxSync_frame h
    exact ⟨.refl, .same, by simp [SyncOp.writesMail]⟩
  | applyMailRulePreview jobIds runIds owner token now =>
    refine hcommitted fun db' h => ?_
    obtain ⟨count, h⟩ := map_snd_ok h
    obtain ⟨⟨messages, runs, sequence, states, jobs, previews, rfl⟩, hqueue⟩ :=
      applyMailRulePreview_ok h
    exact ⟨hqueue, .same, by simp [SyncOp.writesMail]⟩
  | retryMailRuleRun newId owner id now =>
    refine hcommitted fun db' h => ?_
    obtain ⟨found, h⟩ := map_snd_ok h
    obtain ⟨⟨runs, jobs, rfl⟩, hqueue⟩ := retryMailRuleRun_ok h
    exact ⟨hqueue, .same, by simp [SyncOp.writesMail]⟩

theorem queue_invariant_run (Inv : List SyncJob → Prop)
    (hwrite : ∀ db op jobs jobs', QueueWrite db op jobs jobs' → Inv jobs → Inv jobs')
    {w : SyncWorld} (ops : List SyncOp) (hw : Inv w.db.syncJobs) :
    Inv (w.run ops).db.syncJobs := by
  refine invariant_run (fun w => Inv w.db.syncJobs) ?_ ops hw
  intro w op hop hinv
  exact queue_writes_preserve Inv (hwrite w.db op) (apply_single w.db op hop).queue hinv

theorem step_queue_preserves (Inv : List SyncJob → Prop) (w : SyncWorld) (op : SyncOp)
    (hwrite : ∀ db call, (call.scanPart = true ∨ (call = op ∧ db = w.db)) →
      ∀ jobs jobs', QueueWrite db call jobs jobs' → Inv jobs → Inv jobs')
    (hinv : Inv w.db.syncJobs) : Inv (w.step op).db.syncJobs := by
  by_cases hop : op.single = true
  · exact queue_writes_preserve Inv (hwrite w.db op (Or.inr ⟨rfl, rfl⟩))
      (apply_single w.db op hop).queue hinv
  · cases op with
    | enqueueDueSyncs ids reason now =>
      apply scan_preserves (fun d => Inv d.syncJobs) w.db ids reason now _ hinv
      intro db o ho h
      exact queue_writes_preserve Inv (hwrite db o (Or.inl ho))
        (apply_single db o (single_of_scanPart ho)).queue h
    | _ => exact absurd rfl hop

end

end IMail
