import IMail.Sync.Queue

/-!
# The lease invariant of the job queue

In every reachable state each target has at most one active job, and a job is locked
exactly while it runs. A worker whose job was claimed by another worker holds a handle
that no longer works, for as long as its own name does not get the job back: the worker
name is the token of the lease.
-/

namespace IMail

open Relational Transition

section Rows

variable (input : SyncEnqueue) (now : Time) (j : SyncJob)

@[simp] theorem mergeEnqueue_id : (mergeEnqueue input now j).id = j.id := by
  unfold mergeEnqueue
  split_ifs <;> rfl

@[simp] theorem mergeEnqueue_status : (mergeEnqueue input now j).status = j.status := by
  unfold mergeEnqueue
  split_ifs <;> rfl

@[simp] theorem mergeEnqueue_lockedBy : (mergeEnqueue input now j).lockedBy = j.lockedBy := by
  unfold mergeEnqueue
  split_ifs <;> rfl

@[simp] theorem mergeEnqueue_lockedUntil :
    (mergeEnqueue input now j).lockedUntil = j.lockedUntil := by
  unfold mergeEnqueue
  split_ifs <;> rfl

@[simp] theorem mergeEnqueue_attempts : (mergeEnqueue input now j).attempts = j.attempts := by
  unfold mergeEnqueue
  split_ifs <;> rfl

@[simp] theorem mergeEnqueue_place : (mergeEnqueue input now j).place = j.place := by
  unfold mergeEnqueue
  split_ifs <;> rfl

@[simp] theorem mergeEnqueue_target : (mergeEnqueue input now j).target = j.target := by
  unfold mergeEnqueue
  split_ifs <;> rfl

end Rows

theorem activeKey_eq_some {j : SyncJob} {k : String × String × String} :
    j.activeKey = some k ↔ j.status.active = true ∧ j.target = k := by
  unfold SyncJob.activeKey
  split_ifs with h <;> simp [h]

theorem heldBy_running {jobId : String} {lockedBy : Option String} {row : SyncJob}
    (h : heldBy jobId lockedBy row = true) : row.id = jobId ∧ row.status = .running := by
  simp only [heldBy, Bool.and_eq_true, beq_iff_eq, decide_eq_true_eq] at h
  exact ⟨h.1.1.1, h.1.1.2⟩

def SyncJob.LockOk (j : SyncJob) : Prop :=
  (j.status = .running ↔ j.lockedBy.isSome = true) ∧
    (j.status = .running ↔ j.lockedUntil.isSome = true)

structure QueueInv (jobs : List SyncJob) : Prop where
  ids : UniqueBy (fun j : SyncJob => some j.id) jobs
  targets : UniqueBy SyncJob.activeKey jobs
  locks : ∀ j ∈ jobs, j.LockOk

theorem QueueInv.nil : QueueInv [] :=
  ⟨UniqueBy.nil _, UniqueBy.nil _, by simp⟩

variable {jobs : List SyncJob} {handle : SyncJob} {db : Db}

theorem QueueInv.id_inj (h : QueueInv jobs) {a b : SyncJob} (ha : a ∈ jobs) (hb : b ∈ jobs)
    (hab : a.id = b.id) : a = b :=
  h.ids.eq_of_mem ha hb rfl (by rw [hab])

theorem QueueInv.updateWhere (h : QueueInv jobs) {p : SyncJob → Bool} {f : SyncJob → SyncJob}
    (hid : ∀ j, (f j).id = j.id)
    (hkey : ∀ j ∈ jobs, p j = true → ∀ k, (f j).activeKey = some k → j.activeKey = some k)
    (hlock : ∀ j ∈ jobs, p j = true → (f j).LockOk) : QueueInv (updateWhere p f jobs) where
  ids := h.ids.updateWhere fun j _ _ k hk => by rwa [hid] at hk
  targets := h.targets.updateWhere hkey
  locks := forall_updateWhere (fun j hj _ => h.locks j hj) hlock

theorem QueueInv.append (h : QueueInv jobs) {job : SyncJob} (fresh : job.Fresh)
    (newId : ∀ j ∈ jobs, j.id ≠ job.id) (free : ∀ j ∈ jobs, j.activeKey ≠ some job.target) :
    QueueInv (jobs ++ [job]) where
  ids := h.ids.append fun j hj k hk hjob => by
    have heq : some j.id = some job.id := hk.trans hjob.symm
    exact newId j hj (Option.some.inj heq)
  targets := h.targets.append fun j hj k hk hjob => by
    rw [(activeKey_eq_some.mp hjob).2] at free
    exact free j hj hk
  locks := by
    intro j hj
    rcases List.mem_append.mp hj with hj | hj
    · exact h.locks j hj
    · rw [List.mem_singleton.mp hj]
      simp [SyncJob.LockOk, fresh.queued, fresh.unlocked, fresh.unleased]

theorem queueWrite_inv (db : Db) (op : SyncOp) (jobs jobs' : List SyncJob)
    (hwrite : QueueWrite db op jobs jobs') (h : QueueInv jobs) : QueueInv jobs' := by
  cases hwrite with
  | insert origin fresh newId free => exact h.append fresh newId free
  | merge call ok mem key =>
    refine h.updateWhere (mergeEnqueue_id _ _) ?_ ?_
    · intro j _ _ k hk
      simpa [activeKey_eq_some] using hk
    · intro j hj _
      simpa [SyncJob.LockOk] using h.locks j hj
  | cancel call =>
    refine h.updateWhere (fun _ => rfl) ?_ ?_
    · intro j _ _ k hk
      simp [activeKey_eq_some, cancelQueued, JobStatus.active] at hk
    · intro j hj hp
      have hlock := h.locks j hj
      simp only [Bool.and_eq_true, decide_eq_true_eq] at hp
      simpa [SyncJob.LockOk, cancelQueued, hp.2] using hlock
  | requeue call =>
    refine h.updateWhere (fun _ => rfl) ?_ ?_
    · intro j _ hp k hk
      simp only [Bool.and_eq_true, decide_eq_true_eq] at hp
      rw [activeKey_eq_some] at hk ⊢
      exact ⟨by rw [hp.1]; rfl, hk.2⟩
    · intro j _ _
      simp [SyncJob.LockOk]
  | claim call mem queued issued =>
    refine h.updateWhere (fun _ => rfl) ?_ ?_
    · intro j hj hp k hk
      rw [h.id_inj hj mem (beq_iff_eq.mp hp)] at hk ⊢
      rw [activeKey_eq_some] at hk ⊢
      exact ⟨by rw [queued]; rfl, hk.2⟩
    · intro j _ _
      simp [SyncJob.LockOk, claimJob]
  | renew call =>
    refine h.updateWhere (fun _ => rfl) (fun _ _ _ _ hk => hk) ?_
    intro j hj hp
    have hlock := h.locks j hj
    simpa [SyncJob.LockOk, (heldBy_running hp).2] using hlock.1
  | finish call ends =>
    refine h.updateWhere ends.id_eq ?_ ?_
    · intro j _ _ k hk
      rw [activeKey_eq_some, ends.inactive] at hk
      simp at hk
    · intro j _ _
      have hinactive := ends.inactive j
      have hne : ¬ (_ : SyncJob).status = .running := fun hrun => by
        rw [hrun] at hinactive
        simp [JobStatus.active] at hinactive
      simp [SyncJob.LockOk, ends.unlocked, ends.unleased, hne]
  | wake call =>
    refine h.updateWhere (fun _ => rfl) (fun _ _ _ _ hk => hk) ?_
    intro j hj _
    exact h.locks j hj

def NotHeld (handle : SyncJob) (jobs : List SyncJob) : Prop :=
  ∀ row ∈ jobs, heldBy handle.id handle.lockedBy row = false

theorem queueWrite_notHeld {op : SyncOp} {jobs' : List SyncJob}
    (hwrite : QueueWrite db op jobs jobs')
    (hclaim : ∀ again, op.issued db = some again → again.id = handle.id →
      again.lockedBy ≠ handle.lockedBy) (h : NotHeld handle jobs) : NotHeld handle jobs' := by
  cases hwrite with
  | insert _ fresh _ _ =>
    intro row hrow
    rcases List.mem_append.mp hrow with hrow | hrow
    · exact h row hrow
    · rw [List.mem_singleton.mp hrow]
      simp [heldBy, fresh.queued]
  | merge _ _ _ _ =>
    refine forall_updateWhere (fun row hrow _ => h row hrow) fun row hrow _ => ?_
    have hold := h row hrow
    simpa [heldBy] using hold
  | cancel _ =>
    refine forall_updateWhere (fun row hrow _ => h row hrow) fun row hrow _ => ?_
    simp [heldBy, cancelQueued]
  | requeue _ =>
    refine forall_updateWhere (fun row hrow _ => h row hrow) fun row hrow _ => ?_
    simp [heldBy]
  | claim _ _ _ issued =>
    refine forall_updateWhere (fun row hrow _ => h row hrow) fun row hrow hp => ?_
    have hid := beq_iff_eq.mp hp
    by_contra hheld
    simp only [heldBy, claimJob, Bool.not_eq_false, Bool.and_eq_true, beq_iff_eq] at hheld
    exact hclaim _ issued (hid.symm.trans hheld.1.1.1) hheld.2
  | renew _ | wake _ =>
    refine forall_updateWhere (fun row hrow _ => h row hrow) fun row hrow _ => ?_
    exact h row hrow
  | finish _ ends =>
    refine forall_updateWhere (fun row hrow _ => h row hrow) fun row hrow _ => ?_
    simp [heldBy, ends.unlocked]

/-- Every call with a lost handle leaves the database as it is and says so. -/
structure LeaseLost (db : Db) (handle : SyncJob) : Prop where
  renew : ∀ workerId lease now, handle.lockedBy = some workerId → leaseInRange lease = true →
    renewLease db handle.id workerId lease now = .ok (false, db)
  start : ∀ mailbox now, markStarted db handle mailbox now = .error .leaseLost
  complete : ∀ newId result reconciliationMinutes now, 0 < reconciliationMinutes →
    0 ≤ result.lastSeenUid →
    IMail.complete db newId handle result reconciliationMinutes now = .error .leaseLost
  fail : ∀ failure now, IMail.fail db handle failure now = .error .leaseLost
  cancel : ∀ mailbox now, IMail.cancel db handle mailbox now = .error .leaseLost

variable {workerId : String} {lease : ℕ}

theorem renewLease_lost (h : NotHeld handle db.syncJobs) (hworker : handle.lockedBy = some workerId)
    {now : Time} (hlease : leaseInRange lease = true) :
    renewLease db handle.id workerId lease now = .ok (false, db) := by
  have hrows : ∀ row ∈ db.syncJobs, heldBy handle.id (some workerId) row = false := by
    rw [← hworker]
    exact h
  have hcount : db.syncJobs.countP (heldBy handle.id (some workerId)) = 0 := by
    apply List.countP_eq_zero.mpr
    intro row hrow
    simp [hrows row hrow]
  simp [renewLease, hlease, hcount, updateWhere_eq_self hrows]

theorem leaseLost_of_notHeld (h : NotHeld handle db.syncJobs) :
    LeaseLost db handle where
  renew _ _ _ hworker hlease := renewLease_lost h hworker hlease
  start := markStarted_lost h
  complete _ _ _ _ hminutes huid := complete_lost h hminutes huid
  fail := fail_lost h
  cancel := cancel_lost h

theorem claim_notHeld {now : Time} {new old : SyncJob} (hid : new.id = old.id)
    (hother : old.lockedBy ≠ some workerId) {db' : Db}
    (hclaim : claimNext db workerId lease now = .ok (some new, db')) :
    NotHeld old db'.syncJobs := by
  rcases claimNext_ok hclaim with ⟨hnone, _⟩ | ⟨row, hmem, _, _, hnew, rfl⟩
  · simp at hnone
  · simp only [Option.some.injEq] at hnew
    subst hnew
    refine forall_updateWhere ?_ ?_
    · intro j _ hp
      have hne : (j.id == old.id) = false := by rwa [← hid]
      simp [heldBy, hne]
    · intro j _ _
      simp only [heldBy, claimJob]
      simp [Ne.symm hother]

section

variable [Platform]

theorem notHeld_run {old : SyncJob} (w : SyncWorld) (ops : List SyncOp)
    (hops : Along SyncWorld.step (fun w op => ∀ again, op.issued w.db = some again →
      again.id = old.id → again.lockedBy ≠ old.lockedBy) w ops)
    (h : NotHeld old w.db.syncJobs) : NotHeld old (w.run ops).db.syncJobs := by
  refine invariant_along (fun w => NotHeld old w.db.syncJobs) ?_ h hops
  intro w op hinv hop
  refine step_queue_preserves (NotHeld old) w op ?_ hinv
  rintro db call (hpart | ⟨rfl, rfl⟩) jobs jobs' hwrite
  · exact queueWrite_notHeld hwrite fun again hagain => by
      simp [issued_of_scanPart hpart] at hagain
  · exact queueWrite_notHeld hwrite hop

theorem apply_madeWith_lost (h : NotHeld handle db.syncJobs) {op : SyncOp}
    (hop : op.madeWith handle) : op.apply db = db := by
  have hlost := leaseLost_of_notHeld h
  cases op with
  | renewLease jobId workerId lease now =>
    obtain ⟨rfl, hworker⟩ := hop
    by_cases hlease : leaseInRange lease = true
    · simp [SyncOp.apply, hlost.renew workerId lease now hworker.symm hlease, Except.map]
    · simp [SyncOp.apply, renewLease, hlease, Except.map]
  | markStarted job mailbox now =>
    obtain rfl := hop
    simp [SyncOp.apply, hlost.start]
  | complete newId job result reconciliationMinutes now =>
    obtain rfl := hop
    refine committed_of (P := fun d : Db => d = db) rfl fun db' hok => ?_
    obtain ⟨hminutes, huid, _⟩ := complete_ok hok
    rw [hlost.complete newId result reconciliationMinutes now hminutes huid] at hok
    cases hok
  | fail job failure now =>
    obtain rfl := hop
    simp [SyncOp.apply, hlost.fail]
  | cancel job mailbox now =>
    obtain rfl := hop
    simp [SyncOp.apply, hlost.cancel]
  | _ => exact hop.elim

theorem queueInv_run (hdb : db.syncJobs = []) (ops : List SyncOp) :
    QueueInv ((SyncWorld.mk db []).run ops).db.syncJobs :=
  queue_invariant_run QueueInv queueWrite_inv ops (by rw [hdb]; exact QueueInv.nil)

/-- From an empty queue, every history keeps one active job per target and locks exactly the
running jobs; and once another worker has claimed a job, a handle of its earlier holder does
nothing and reports the lost lease until that holder claims the job again. -/
theorem lease_invariant (db : Db) (hdb : db.syncJobs = []) (ops : List SyncOp) :
    (∀ target, ((SyncWorld.mk db []).run ops).db.syncJobs.countP
      (fun j => j.activeKey == some target) ≤ 1) ∧
    (∀ j ∈ ((SyncWorld.mk db []).run ops).db.syncJobs,
      (j.status = .running ↔ j.lockedBy.isSome = true ∧ j.lockedUntil.isSome = true) ∧
      (j.status ≠ .running → j.lockedBy = none ∧ j.lockedUntil = none)) ∧
    ∀ (old new : SyncJob) (workerId : String) (lease : ℕ) (now : Time) (later : List SyncOp),
      (SyncOp.claimNext workerId lease now).issued ((SyncWorld.mk db []).run ops).db = some new →
      new.id = old.id → old.lockedBy ≠ some workerId →
      Along SyncWorld.step (fun w op => ∀ again, op.issued w.db = some again →
          again.id = old.id → again.lockedBy ≠ old.lockedBy)
        (((SyncWorld.mk db []).run ops).step (.claimNext workerId lease now)) later →
      let db' := ((((SyncWorld.mk db []).run ops).step (.claimNext workerId lease now)).run
        later).db
      LeaseLost db' old ∧ ∀ op : SyncOp, op.madeWith old → op.apply db' = db' := by
  have hinv := queueInv_run hdb ops
  refine ⟨?_, ?_, ?_⟩
  · intro target
    exact hinv.targets.countP_le_one (k := target) fun row _ hrow => beq_iff_eq.mp hrow
  · intro j hj
    obtain ⟨hby, huntil⟩ := hinv.locks j hj
    refine ⟨⟨fun h => ⟨hby.mp h, huntil.mp h⟩, fun h => hby.mpr h.1⟩, fun h => ?_⟩
    rw [Ne, hby, Bool.not_eq_true, Option.isSome_eq_false_iff] at h
    have hby' : j.lockedBy = none := by simpa using h
    refine ⟨hby', ?_⟩
    by_contra hsome
    have hrun := huntil.mpr (Option.isSome_iff_ne_none.mpr hsome)
    simp [hby'] at hby
    exact hby hrun
  · intro old new workerId lease now later hissued hid hother hlater
    set w := (SyncWorld.mk db []).run ops
    have hlost : NotHeld old (w.step (.claimNext workerId lease now)).db.syncJobs := by
      simp only [SyncOp.issued] at hissued
      cases hclaim : claimNext w.db workerId lease now with
      | error e => simp [hclaim] at hissued
      | ok result =>
        obtain ⟨job, db₁⟩ := result
        simp only [hclaim] at hissued
        subst hissued
        have hnot := claim_notHeld hid hother hclaim
        simpa [SyncOp.apply, hclaim, Except.map] using hnot
    have hend := notHeld_run _ later hlater hlost
    exact ⟨leaseLost_of_notHeld hend, fun op hop => apply_madeWith_lost hend hop⟩

end

def singleAccountDb : Db :=
  { accounts := [{ id := "a", userId := "u", email := "a@example.org", createdAt := 0 }] }

def inboxRequest : SyncEnqueue := { accountId := "a", mailboxRole := "inbox", reason := "manual" }

/-- The handle of `P`, and that of `Q` after the lease of `P` is over. -/
def handleOfP : SyncJob := claimJob "P" 10 0 (enqueuedJob "j" inboxRequest .manual 0)

def handleOfQ : SyncJob :=
  claimJob "Q" 10 10 { handleOfP with status := .queued, lockedBy := none, lockedUntil := none }

/-- `P` enqueues and claims. -/
def claimedByP : List SyncOp := [.enqueue "j" inboxRequest 0, .claimNext "P" 10 0]

/-- After `Q` has claimed the job, the handle of `P` is lost. -/
theorem lease_invariant_reclaimed :
    let _ := Platform.plain
    LeaseLost (((SyncWorld.mk singleAccountDb []).run claimedByP).step
      (.claimNext "Q" 10 10)).db handleOfP := by
  intro _
  exact ((lease_invariant singleAccountDb rfl claimedByP).2.2 handleOfP handleOfQ "Q" 10 10 []
    (by decide) rfl (by decide) trivial).1

/-- The handle that `P` got first works again once `P` has claimed the job back from `Q`: the
lease knows its holder by the worker name only. -/
theorem old_handle_revived :
    let _ := Platform.plain
    let w := (SyncWorld.mk singleAccountDb []).run
      (claimedByP ++ [.claimNext "Q" 10 10, .claimNext "P" 10 20])
    w.handles.map (fun h => (h.id, h.lockedBy)) =
      [("j", some "P"), ("j", some "Q"), ("j", some "P")] ∧
    w.handles.head? = some handleOfP ∧
    (SyncOp.renewLease handleOfP.id "P" 10 21).madeWith handleOfP ∧
    (SyncOp.renewLease handleOfP.id "P" 10 21).apply w.db ≠ w.db ∧
    (renewLease w.db handleOfP.id "P" 10 21).map Prod.fst = .ok true := by
  refine ⟨by decide, by decide, ⟨rfl, rfl⟩, by decide, rfl⟩

end IMail
