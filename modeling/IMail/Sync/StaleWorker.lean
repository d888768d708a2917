import IMail.Sync.EventsApart

/-!
# A worker that has lost its lease

Two workers P and Q at one job: the lease of P is over and Q has claimed the job again. The
ends of a job ask for the lease, so P can no longer report. The commit of a batch and the
results of rule actions do not ask for it. The cache is therefore safe from P exactly when
P is past these when Q claims the job.
-/

namespace IMail

open Relational Transition

def SameStep (x y : Db × ExecPhase) : Prop := SameTables x.1 y.1 ∧ x.2 = y.2

variable {db : Db}

variable {ε α : Type} {db' : Db}

theorem sameStep_settle (h : SameTables db db') {r r' : Except ε (α × Db)}
    (hr : SameOutcome SameResult r r') (done : α → ExecPhase) (failed : ExecPhase) :
    SameStep (settle db r done failed) (settle db' r' done failed) := by
  cases hr with
  | error e => exact ⟨h, rfl⟩
  | ok hab => exact ⟨hab.2, congrArg done hab.1⟩

theorem sameOutcome_unitTx {r r' : Except ε Db} (h : SameOutcome SameTables r r') :
    SameOutcome SameResult (unitTx r) (unitTx r') := by
  apply h.map
  intro a b hab
  exact ⟨rfl, hab⟩

section

variable [Platform]

variable {db' : Db}

omit [Platform] in
theorem sameTables_reportResult (h : SameTables db db') (newId : String) (job : SyncJob)
    (reconciliationMinutes : ℤ) (now : Time) (result : Except SyncFailure SyncCompletion) :
    SameOutcome SameTables (reportResult db newId job reconciliationMinutes now result)
      (reportResult db' newId job reconciliationMinutes now result) := by
  cases result with
  | ok completion => exact sameTables_complete h _ _ _ _ _
  | error failure => exact sameTables_fail h _ _ _

theorem sameStep_apply (h : SameTables db db') (workerId : String) (phase : ExecPhase)
    (op : ExecOp) : SameStep (op.apply workerId db phase) (op.apply workerId db' phase) := by
  have hsame : SameStep (db, phase) (db', phase) := ⟨h, rfl⟩
  have haccount : ∀ id, db'.account id = db.account id := by
    obtain ⟨events, sequence, rfl⟩ := h
    exact fun _ => rfl
  cases op with
  | claim lease now =>
    simp only [ExecOp.apply]
    split
    · exact sameStep_settle h (sameTables_claimNext h _ _ _) _ _
    · exact hsame
  | start now =>
    simp only [ExecOp.apply, haccount]
    split
    · split
      · exact hsame
      · exact sameStep_settle h (sameOutcome_unitTx (sameTables_markStarted h _ _ _)) _ _
    · exact hsame
  | cancelStart now | cancelFinish now =>
    simp only [ExecOp.apply]
    split
    · exact sameStep_settle h (sameOutcome_unitTx (sameTables_cancel h _ _ _)) _ _
    · exact hsame
  | claimRule now later =>
    simp only [ExecOp.apply]
    split
    · exact sameStep_settle h (sameTables_claimRuleAction h _ _ _ _) _ _
    · exact hsame
  | finishRule result now later =>
    simp only [ExecOp.apply]
    split
    · exact sameStep_settle h (sameOutcome_unitTx (sameTables_finishRuleAction h _ _ _ _ _)) _ _
    · exact hsame
  | drained =>
    simp only [ExecOp.apply]
    split
    · exact ⟨h, rfl⟩
    · exact hsame
  | fetch plan =>
    simp only [ExecOp.apply, haccount]
    split
    · exact ⟨h, rfl⟩
    · exact hsame
  | commit runIds detail now =>
    simp only [ExecOp.apply]
    split
    · exact sameStep_settle h (sameTables_commitMailboxSync h _ _ _) _ _
    · exact hsame
  | notify changes detail now =>
    simp only [ExecOp.apply]
    split
    · exact sameStep_settle h (sameOutcome_unitTx (sameTables_recordNotifications h _ _ _ _)) _ _
    · exact hsame
  | abort detail =>
    simp only [ExecOp.apply]
    split
    case h_4 => exact hsame
    all_goals exact ⟨h, rfl⟩
  | renew lease now =>
    simp only [ExecOp.apply]
    split
    · exact sameStep_settle h (sameTables_renewLease h _ _ _ _) _ _
    · exact hsame
  | finish newId reconciliationMinutes now =>
    simp only [ExecOp.apply]
    split
    · exact sameStep_settle h (sameOutcome_unitTx (sameTables_reportResult h _ _ _ _ _)) _ _
    · exact hsame
  | stop => exact ⟨h, rfl⟩

end

inductive Party
  | p | q
  deriving DecidableEq, Repr

structure TwoWorkers where
  db : Db
  p : ExecPhase := .idle
  q : ExecPhase := .idle

/-- The identifiers under which the two workers claim jobs. -/
structure PartyIds where
  p : String
  q : String
  distinct : p ≠ q

def TwoWorkers.step [Platform] (ids : PartyIds) (w : TwoWorkers) : Party × ExecOp → TwoWorkers
  | (.p, op) =>
    let r := op.apply ids.p w.db w.p
    { w with db := r.1, p := r.2 }
  | (.q, op) =>
    let r := op.apply ids.q w.db w.q
    { w with db := r.1, q := r.2 }

def Db.cache (db : Db) : List Message × List MessageSource × List Account :=
  (db.messages, db.messageSources, db.accounts)

theorem SameTables.cache_eq (h : SameTables db db') : db'.cache = db.cache := by
  obtain ⟨events, sequence, rfl⟩ := h
  rfl

/-- Neither the commit nor a rule action is ahead. -/
def ExecPhase.pastCommit : ExecPhase → Bool
  | idle | claimed _ | notifying .. | finalizing .. => true
  | draining .. | planned .. => false

/-- P does not claim a job; it is at work on the one it has. -/
def keepsJob : Party × ExecOp → Bool
  | (.p, .claim _ _) => false
  | _ => true

def Unlocked (worker jobId : String) (jobs : List SyncJob) : Prop :=
  ∀ row ∈ jobs, row.id = jobId → row.lockedBy ≠ some worker

structure StaleInv (ids : PartyIds) (w : TwoWorkers) : Prop where
  phase : w.p.pastCommit = true
  handle : ∀ job, w.p.job = some job → job.lockedBy = some ids.p
  lost : ∀ job, w.p.job = some job → Unlocked ids.p job.id w.db.syncJobs

theorem Unlocked.notHeld {worker : String} {job : SyncJob} {jobs : List SyncJob}
    (h : Unlocked worker job.id jobs) (hlocked : job.lockedBy = some worker) :
    NotHeld job jobs := by
  intro row hrow
  rw [hlocked]
  by_cases hid : row.id = job.id
  · simp [heldBy, h row hrow hid]
  · simp [heldBy, hid]

section

variable [Platform]

variable {db : Db} {job : SyncJob}

omit [Platform] in
theorem reportResult_lost (h : NotHeld job db.syncJobs) (newId : String)
    (reconciliationMinutes : ℤ) (now : Time) (result : Except SyncFailure SyncCompletion)
    (db' : Db) : reportResult db newId job reconciliationMinutes now result ≠ .ok db' := by
  intro hok
  cases result with
  | ok completion =>
    obtain ⟨hminutes, huid, -⟩ := complete_ok hok
    simp only [reportResult, complete_lost h hminutes huid] at hok
    cases hok
  | error failure =>
    simp only [reportResult, fail_lost h] at hok
    cases hok

variable {w : TwoWorkers} {p : SyncJob → Bool} {f : SyncJob → SyncJob} {now : Time}

theorem stale_step (ids : PartyIds) (h : StaleInv ids w) {op : ExecOp}
    (hop : keepsJob (.p, op) = true) :
    SameTables w.db (w.step ids (.p, op)).db ∧ StaleInv ids (w.step ids (.p, op)) := by
  obtain ⟨db, phase, q⟩ := w
  -- every step below ends with the same tables and a phase for the same job, or idle
  have hkeep : ∀ db' phase', SameTables db db' → phase'.pastCommit = true →
      (phase'.job = phase.job ∨ phase'.job = none) →
      SameTables db db' ∧ StaleInv ids ⟨db', phase', q⟩ := by
    intro db' phase' htables hpast hjob
    refine ⟨htables, hpast, ?_, ?_⟩
    all_goals
      intro job hsome
      rcases hjob with hjob | hjob
      · first
          | exact h.handle job (hjob ▸ hsome)
          | (obtain ⟨events, sequence, rfl⟩ := htables
             exact h.lost job (hjob ▸ hsome))
      · rw [hjob] at hsome
        cases hsome
  have hlost : ∀ job, phase.job = some job → NotHeld job db.syncJobs :=
    fun job hjob => (h.lost job hjob).notHeld (h.handle job hjob)
  have hpast := h.phase
  have hsame := hkeep db phase (.refl db) hpast (Or.inl rfl)
  have hstep := op.apply_step ids.p db phase
  simp only [TwoWorkers.step]
  generalize (op.apply ids.p db phase).2 = phase' at hstep ⊢
  generalize (op.apply ids.p db phase).1 = db' at hstep ⊢
  cases hstep with
  | stays => exact hsame
  | leaves => exact hkeep db .idle (.refl db) rfl (Or.inr rfl)
  | aborts hjob => exact hkeep db _ (.refl db) rfl (Or.inl hjob.symm)
  | claims | requeues => cases hop
  | claimsRule | claimsNoRule | finishesRule | drains | fetches | commits => cases hpast
  | starts hok =>
    rw [markStarted_lost (hlost _ rfl)] at hok
    cases hok
  | cancels hjob _ hok =>
    rw [cancel_lost (hlost _ hjob)] at hok
    cases hok
  | notifies hok => exact hkeep db' _ (sameTables_of_recordNotifications hok) rfl (Or.inl rfl)
  | @renews _ _ _ job _ _ hjob hok =>
    have hnone : ∀ row ∈ db.syncJobs, heldBy job.id (some ids.p) row = false :=
      h.handle job hjob ▸ hlost job hjob
    obtain ⟨-, hdb⟩ := renewLease_ok hok
    rw [updateWhere_eq_self hnone] at hdb
    rw [hdb]
    exact hsame
  | finishes hok => exact absurd hok (reportResult_lost (hlost _ rfl) _ _ _ _ _)

variable {worker jobId : String} {jobs : List SyncJob}

section

omit [Platform]

theorem Unlocked.updateWhere (h : Unlocked worker jobId jobs) (hid : ∀ j, (f j).id = j.id)
    (hf : ∀ j, (f j).lockedBy = j.lockedBy ∨ (f j).lockedBy ≠ some worker) :
    Unlocked worker jobId (Relational.updateWhere p f jobs) := by
  apply forall_updateWhere
  · intro row hrow _
    exact h row hrow
  · intro row hrow _ hrowId
    rcases hf row with heq | hne
    · rw [heq]
      exact h row hrow (hid row ▸ hrowId)
    · exact hne

theorem Unlocked.requeueExpired (h : Unlocked worker jobId jobs) (now : Time) :
    Unlocked worker jobId (requeueExpired now jobs) := by
  apply h.updateWhere
  · exact fun _ => rfl
  · exact fun _ => Or.inr (Option.some_ne_none worker).symm

theorem Unlocked.ended (h : Unlocked worker jobId jobs) (ends : EndsJob f) :
    Unlocked worker jobId (Relational.updateWhere p f jobs) := by
  apply h.updateWhere ends.id_eq
  intro j
  rw [ends.unlocked j]
  exact Or.inr (Option.some_ne_none worker).symm

theorem unlocked_reportResult {db' : Db} (h : Unlocked worker jobId db.syncJobs) {newId : String}
    {reconciliationMinutes : ℤ} {result : Except SyncFailure SyncCompletion}
    (hok : reportResult db newId job reconciliationMinutes now result = .ok db') :
    Unlocked worker jobId db'.syncJobs := by
  cases result with
  | ok completion =>
    obtain ⟨_, _, _, row, _, _, _, events, sequence, authRequired, rfl⟩ := complete_ok hok
    intro j hj hid
    rcases List.mem_append.mp hj with hj | hj
    · exact h.ended (endsJob_succeedJob completion now) j hj hid
    · -- the job of a rerun starts unlocked
      split_ifs at hj
      · rw [List.mem_singleton.mp hj]
        exact (Option.some_ne_none worker).symm
      · cases hj
  | error failure =>
    obtain ⟨-, events, sequence, rfl⟩ := fail_ok hok
    exact h.ended (endsJob_failJob failure now)

end

theorem unlocked_step {workerId : String} (hne : worker ≠ workerId)
    (h : Unlocked worker jobId db.syncJobs) {phase phase' : ExecPhase} {op : ExecOp} {db' : Db}
    (hstep : ExecStep workerId db phase op db' phase') : Unlocked worker jobId db'.syncJobs := by
  cases hstep with
  | stays | leaves | aborts | drains | fetches => exact h
  | claims hok | requeues hok =>
    rcases claimNext_ok hok with ⟨-, rfl⟩ | ⟨row, -, -, -, -, rfl⟩
    · exact h.requeueExpired _
    · apply (h.requeueExpired _).updateWhere
      · exact fun _ => rfl
      · exact fun _ => Or.inr fun heq => hne (Option.some.inj heq).symm
  | starts hok =>
    obtain ⟨-, events, sequence, rfl⟩ := markStarted_ok hok
    exact h
  | cancels _ _ hok =>
    obtain ⟨-, rfl⟩ := cancel_ok hok
    exact h.ended (endsJob_cancelJob _)
  | claimsRule hok | claimsNoRule hok =>
    rw [claimRuleAction_frame hok]
    exact h
  | finishesRule hok =>
    rw [finishRuleAction_frame hok]
    exact h
  | commits hok =>
    obtain ⟨_, _, _, _, _, rfl⟩ := commitMailboxSync_frame hok
    exact h
  | notifies hok =>
    obtain ⟨events, sequence, rfl⟩ := sameTables_of_recordNotifications hok
    exact h
  | renews _ hok =>
    obtain ⟨-, rfl⟩ := renewLease_ok hok
    exact h.updateWhere (fun _ => rfl) fun _ => Or.inl rfl
  | finishes hok => exact unlocked_reportResult h hok

theorem staleInv_step (ids : PartyIds) (w : TwoWorkers) (op : Party × ExecOp)
    (h : StaleInv ids w) (hop : keepsJob op = true) : StaleInv ids (w.step ids op) := by
  obtain ⟨_ | _, op⟩ := op
  · exact (stale_step ids h hop).2
  · exact ⟨h.phase, h.handle, fun job hjob =>
      unlocked_step ids.distinct (h.lost job hjob) (op.apply_step _ _ _)⟩

theorem stale_run (ids : PartyIds) {u v : TwoWorkers} (h : StaleInv ids u)
    (htables : SameTables u.db v.db) (hq : u.q = v.q) {ops : List (Party × ExecOp)}
    (hops : ∀ op ∈ ops, keepsJob op = true) :
    SameTables (exec (TwoWorkers.step ids) u ops).db
      (exec (TwoWorkers.step ids) v (ops.filter fun op => op.1 = .q)).db := by
  induction ops generalizing u v with
  | nil => exact htables
  | cons op ops ih =>
    have hfirst := hops op List.mem_cons_self
    have hrest : ∀ op ∈ ops, keepsJob op = true := fun op hop => hops op (List.mem_cons_of_mem _ hop)
    have hnext := staleInv_step ids u op h hfirst
    obtain ⟨_ | _, op⟩ := op
    · -- P changes events at most, and nothing of Q
      exact ih hnext ((stale_step ids h hfirst).1.symm.trans htables) hq hrest
    · obtain ⟨hsame, hphase⟩ := sameStep_apply htables ids.q u.q op
      refine ih hnext ?_ ?_ hrest
      · simpa only [TwoWorkers.step, ← hq] using hsame
      · simpa only [TwoWorkers.step, ← hq] using hphase

theorem staleInv_of_claim (ids : PartyIds) (hjob : w.p.job = some job)
    (hlocked : job.lockedBy = some ids.p) (hpast : w.p.pastCommit = true) {lease : ℕ}
    (hidle : w.q = .idle)
    (hclaim : (w.step ids (.q, .claim lease now)).q.job.map (·.id) = some job.id) :
    StaleInv ids (w.step ids (.q, .claim lease now)) := by
  refine ⟨hpast, fun job' hjob' => ?_, fun job' hjob' => ?_⟩
  all_goals
    have heq : job' = job := Option.some.inj (hjob'.symm.trans hjob)
    subst heq
  · exact hlocked
  · simp only [TwoWorkers.step, ExecOp.apply, hidle] at hclaim ⊢
    cases hnext : claimNext w.db ids.q lease now with
    | error e =>
      rw [hnext] at hclaim
      cases hclaim
    | ok result =>
      obtain ⟨found, db'⟩ := result
      rcases claimNext_ok hnext with ⟨rfl, -⟩ | ⟨row, -, -, -, rfl, rfl⟩
      · rw [hnext] at hclaim
        cases hclaim
      · rw [hnext] at hclaim
        have hid : row.id = job'.id := Option.some.inj hclaim
        rw [hid]
        apply forall_updateWhere
        · intro other _ hother heq
          exact absurd heq (by simpa using hother)
        · intro other _ _ _ heq
          exact ids.distinct (Option.some.inj heq).symm

/-- If P is past its commit and its rule actions when Q claims its job again, no later step of
P changes a message, a source or an account, and the cache is what it would have been had P
stopped there. -/
theorem stale_worker_harmless (ids : PartyIds) {w : TwoWorkers} {job : SyncJob}
    (hjob : w.p.job = some job) (hlocked : job.lockedBy = some ids.p)
    (hpast : w.p.pastCommit = true) {lease : ℕ} {now : Time} (hidle : w.q = .idle)
    (hclaim : (w.step ids (.q, .claim lease now)).q.job.map (·.id) = some job.id)
    {ops : List (Party × ExecOp)} (hops : ∀ op ∈ ops, keepsJob op = true) :
    let reclaimed := w.step ids (.q, .claim lease now)
    Along (TwoWorkers.step ids)
        (fun u op => op.1 = .p → (u.step ids op).db.cache = u.db.cache) reclaimed ops ∧
      (exec (TwoWorkers.step ids) reclaimed ops).db.cache =
        (exec (TwoWorkers.step ids) reclaimed (ops.filter fun op => op.1 = .q)).db.cache := by
  have hstale := staleInv_of_claim ids hjob hlocked hpast hidle hclaim
  constructor
  · apply along_of_invariant (StaleInv ids) (staleInv_step ids) _ hstale
      (along_of_forall (P := fun op => keepsJob op = true) hops _)
    rintro u ⟨_, op⟩ hu hop rfl
    exact (stale_step ids hu hop).1.cache_eq
  · exact (stale_run ids hstale (.refl _) rfl hops).cache_eq.symm

end

def staleDb : Db where
  accounts := [{ id := "a1", userId := "u1", email := "a@x.test", createdAt := 0 }]
  syncJobs :=
    [{ id := "j1"
       accountId := "a1"
       mailbox := none
       mailboxRole := "inbox"
       reason := .manual
       status := .queued
       priority := 0
       notBefore := 0
       createdAt := 0 }]

def staleIds : PartyIds := ⟨"w1", "w2", by decide⟩

def resetPlan : MailboxSyncPlan :=
  { accountId := "a1", mailbox := "INBOX", mailboxRole := "inbox", uidValidityChanged := true }

def freshPlan : MailboxSyncPlan :=
  { accountId := "a1"
    mailbox := "INBOX"
    mailboxRole := "inbox"
    incoming :=
      [{ id := "m1", accountId := "a1", mailbox := "INBOX", mailboxRole := "inbox", uid := 1 }] }

def takesJob (party : Party) (plan : MailboxSyncPlan) (now : Time) : List (Party × ExecOp) :=
  [(party, .claim 60000 now), (party, .start now), (party, .fetch plan)]

def commitsBatch (party : Party) (now : Time) : List (Party × ExecOp) :=
  [(party, .commit (fun _ _ _ => "r1") "" now), (party, .drained)]

def reportsJob (party : Party) (now : Time) : List (Party × ExecOp) :=
  [(party, .notify [] "" now), (party, .finish "j2" 15 now)]

/-- P is at its notifications when Q claims the job, and its report comes in between. -/
theorem stale_worker_harmless_notifying :
    let _ := Platform.plain
    let w := exec (TwoWorkers.step staleIds) { db := staleDb }
      (takesJob .p resetPlan 0 ++ commitsBatch .p 0)
    let reclaimed := w.step staleIds (.q, .claim 60000 (minutes 2))
    let ops := reportsJob .p (minutes 2) ++ [(.q, .start (minutes 2)), (.q, .fetch freshPlan)] ++
      commitsBatch .q (minutes 2) ++ reportsJob .q (minutes 2)
    (exec (TwoWorkers.step staleIds) reclaimed ops).db.messages.map (·.id) = ["m1"] ∧
      (exec (TwoWorkers.step staleIds) reclaimed ops).db.cache =
        (exec (TwoWorkers.step staleIds) reclaimed (ops.filter fun op => op.1 = .q)).db.cache := by
  intro _ w reclaimed ops
  have hjob : w.p.job.map (·.lockedBy) = some (some "w1") ∧ w.p.job.map (·.id) = some "j1" ∧
      w.p.pastCommit = true := by
    decide +kernel
  obtain ⟨hlocked, hid, hpast⟩ := hjob
  obtain ⟨job, hjob, hlocked⟩ := Option.map_eq_some_iff.mp hlocked
  rw [hjob] at hid
  have hclaim : reclaimed.q.job.map (·.id) = some "j1" := by decide +kernel
  have hops : ∀ op ∈ ops, keepsJob op = true := by decide
  refine ⟨by decide +kernel, ?_⟩
  exact (stale_worker_harmless staleIds hjob hlocked hpast rfl (hclaim.trans hid.symm) hops).2

/-- Q has completed the job; P, which had lost it, commits its older batch over it. -/
theorem stale_commit_overwrites :
    let _ := Platform.plain
    let w := exec (TwoWorkers.step staleIds) { db := staleDb }
      (takesJob .p resetPlan 0 ++ takesJob .q freshPlan (minutes 2) ++
        commitsBatch .q (minutes 2) ++ reportsJob .q (minutes 2))
    w.db.syncJobs.map (·.status) = [.succeeded] ∧ w.db.messages.map (·.id) = ["m1"] ∧
      (exec (TwoWorkers.step staleIds) w (commitsBatch .p (minutes 2))).db.messages = [] := by
  decide +kernel

end IMail
