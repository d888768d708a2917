import IMail.Sync.LeaseInvariant

/-!
# No wake-up is lost

An enqueue that finds its target running only sets the rerun flag of the running row. The
flag survives every later write of the row until the job ends, through expired leases and
new claims, so that `complete` finds it and queues the next job in the same transaction.
Rule work sets the same flag on every running job of its account.
-/

namespace IMail

open Relational Transition Relation

/-- An enqueue for the target commits while the job is running. -/
def EnqueuedWhileRunning (jobId : String) (target : String × String × String) (w : SyncWorld)
    (op : SyncOp) : Prop :=
  (∃ newId input now result, op = .enqueue newId input now ∧ input.target = target ∧
    enqueue w.db newId input now = .ok result) ∧
  ∃ j ∈ w.db.syncJobs, j.id = jobId ∧ j.status = .running

/-- Rule work for the account arrives while the job is running. -/
def RuleWorkWhileRunning (jobId accountId : String) (w : SyncWorld) (op : SyncOp) : Prop :=
  accountId ∈ op.ruleAccounts w.db ∧ ∃ j ∈ w.db.syncJobs, j.id = jobId ∧ j.status = .running

theorem target_of_place {a b : SyncJob} (h : a.place = b.place) : a.target = b.target := by
  simp only [SyncJob.place, Prod.mk.injEq] at h
  simp only [SyncJob.target, h.1, h.2.1, h.2.2]

/-- What a write leaves of a row: same id and place, active only if it was, and then still
asked to run again if it was. -/
structure RowKept (j j' : SyncJob) : Prop where
  id_eq : j'.id = j.id
  place_eq : j'.place = j.place
  active : j'.status.active = true → j.status.active = true
  flag : j'.status.active = true → j.rerunRequested = true → j'.rerunRequested = true

theorem RowKept.refl (j : SyncJob) : RowKept j j := ⟨rfl, rfl, id, fun _ => id⟩

variable {jobs : List SyncJob} {p : SyncJob → Bool} {f : SyncJob → SyncJob}

theorem rowsKept_updateWhere (h : ∀ j ∈ jobs, p j = true → RowKept j (f j)) :
    ∃ g, updateWhere p f jobs = jobs.map g ∧ ∀ j ∈ jobs, RowKept j (g j) := by
  refine ⟨fun j => if p j then f j else j, rfl, fun j hj => ?_⟩
  dsimp only
  split_ifs with hp
  · exact h j hj hp
  · exact RowKept.refl j

variable {db : Db} {op : SyncOp} {jobs' : List SyncJob}

theorem queueWrite_rows (hwrite : QueueWrite db op jobs jobs') (hinv : QueueInv jobs) :
    (∃ job, op.inserts db job ∧ jobs' = jobs ++ [job]) ∨
      ∃ f, jobs' = jobs.map f ∧ ∀ j ∈ jobs, RowKept j (f j) := by
  cases hwrite with
  | @insert _ job origin fresh newId free => exact Or.inl ⟨job, origin, rfl⟩
  | merge call ok mem key =>
    refine Or.inr (rowsKept_updateWhere fun j _ _ => ⟨by simp, by simp, by simp, fun _ hflag => ?_⟩)
    unfold mergeEnqueue
    split_ifs
    · rfl
    · exact hflag
  | cancel call =>
    refine Or.inr (rowsKept_updateWhere fun j _ _ => ⟨rfl, rfl, fun h => ?_, fun h => ?_⟩) <;>
      simp [cancelQueued, JobStatus.active] at h
  | requeue call =>
    refine Or.inr (rowsKept_updateWhere fun j _ hp => ⟨rfl, rfl, fun _ => ?_, fun _ => id⟩)
    simp only [Bool.and_eq_true, decide_eq_true_eq] at hp
    rw [hp.1]
    rfl
  | claim call mem queued issued =>
    refine Or.inr (rowsKept_updateWhere fun j hj hp => ⟨rfl, rfl, fun _ => ?_, fun _ => id⟩)
    rw [hinv.id_inj hj mem (beq_iff_eq.mp hp), queued]
    rfl
  | renew call =>
    exact Or.inr (rowsKept_updateWhere fun j _ _ => ⟨rfl, rfl, id, fun _ => id⟩)
  | finish call ends =>
    refine Or.inr (rowsKept_updateWhere fun j _ _ =>
      ⟨ends.id_eq j, ends.place_eq j, fun h => ?_, fun h => ?_⟩) <;>
      simp [ends.inactive] at h
  | wake call =>
    exact Or.inr (rowsKept_updateWhere fun j _ _ => ⟨rfl, rfl, id, fun _ _ => rfl⟩)

variable {j : SyncJob}

theorem queueWrite_row (hwrite : QueueWrite db op jobs jobs') (hinv : QueueInv jobs)
    (hj : j ∈ jobs) : ∃ j' ∈ jobs', RowKept j j' := by
  rcases queueWrite_rows hwrite hinv with ⟨job, _, rfl⟩ | ⟨f, rfl, hf⟩
  · exact ⟨j, List.mem_append_left _ hj, RowKept.refl j⟩
  · exact ⟨f j, List.mem_map_of_mem hj, hf j hj⟩

theorem apply_origin [Platform] (db : Db) (op : SyncOp) (hop : op.single = true)
    (hinv : QueueInv db.syncJobs) :
    ∀ j' ∈ (op.apply db).syncJobs, ∃ j, (op.inserts db j ∨ j ∈ db.syncJobs) ∧ j'.id = j.id ∧
      j'.place = j.place ∧ (j'.status.active = true → j.status.active = true) := by
  refine (queue_writes_preserve (fun jobs => QueueInv jobs ∧
    ∀ j' ∈ jobs, ∃ j, (op.inserts db j ∨ j ∈ db.syncJobs) ∧ j'.id = j.id ∧
      j'.place = j.place ∧ (j'.status.active = true → j.status.active = true)) ?_
    (apply_single db op hop).queue ⟨hinv, fun j hj => ⟨j, Or.inr hj, rfl, rfl, id⟩⟩).2
  rintro jobs jobs' hwrite ⟨hjobs, horigin⟩
  refine ⟨queueWrite_inv _ _ _ _ hwrite hjobs, fun j' hj' => ?_⟩
  rcases queueWrite_rows hwrite hjobs with ⟨job, hinserts, rfl⟩ | ⟨f, rfl, hf⟩
  · rcases List.mem_append.mp hj' with hj' | hj'
    · exact horigin j' hj'
    · obtain rfl := List.mem_singleton.mp hj'
      exact ⟨j', Or.inl hinserts, rfl, rfl, id⟩
  · obtain ⟨i, hi, rfl⟩ := List.mem_map.mp hj'
    obtain ⟨j, hj, hid, hplace, hactive⟩ := horigin i hi
    have hkept := hf i hi
    exact ⟨j, hj, hkept.id_eq.trans hid, hkept.place_eq.trans hplace,
      fun h => hactive (hkept.active h)⟩

def HasJob (jobId : String) (place : String × Option String × String) (jobs : List SyncJob) :
    Prop :=
  ∃ j ∈ jobs, j.id = jobId ∧ j.place = place

def Flagged (jobId : String) (jobs : List SyncJob) : Prop :=
  ∃ j ∈ jobs, j.id = jobId ∧ (j.status.active = true → j.rerunRequested = true)

variable {jobId : String}

theorem queueWrite_hasJob {place : String × Option String × String}
    (hwrite : QueueWrite db op jobs jobs') (hinv : QueueInv jobs) (h : HasJob jobId place jobs) :
    HasJob jobId place jobs' := by
  obtain ⟨j, hj, hid, hplace⟩ := h
  obtain ⟨j', hj', hkept⟩ := queueWrite_row hwrite hinv hj
  exact ⟨j', hj', hkept.id_eq.trans hid, hkept.place_eq.trans hplace⟩

theorem queueWrite_flagged (hwrite : QueueWrite db op jobs jobs') (hinv : QueueInv jobs)
    (h : Flagged jobId jobs) : Flagged jobId jobs' := by
  obtain ⟨j, hj, hid, hflag⟩ := h
  obtain ⟨j', hj', hkept⟩ := queueWrite_row hwrite hinv hj
  exact ⟨j', hj', hkept.id_eq.trans hid, fun hactive =>
    hkept.flag hactive (hflag (hkept.active hactive))⟩

variable {newId : String} {now : Time}

variable {db' : Db} {input : SyncEnqueue}

theorem flagged_of_enqueue {job : SyncJob} (h : enqueue db newId input now = .ok (job, db'))
    (hinv : QueueInv db.syncJobs) (hj : j ∈ db.syncJobs) (hrun : j.status = .running)
    (htarget : j.target = input.target) : Flagged j.id db'.syncJobs := by
  have hkey : j.activeKey = some input.target :=
    activeKey_eq_some.mpr ⟨by rw [hrun]; rfl, htarget⟩
  rcases enqueue_ok h with ⟨existing, hmem, hexisting, _, rfl⟩ | ⟨_, hfree, _⟩
  · obtain rfl := hinv.targets.eq_of_mem hj hmem hkey hexisting
    refine ⟨mergeEnqueue input now j, mem_updateWhere.mpr (Or.inl ⟨j, hj, by simp, rfl⟩),
      by simp, fun _ => ?_⟩
    simp [mergeEnqueue, hrun]
  · exact absurd hkey (hfree j hj)

def Unflagged (jobId : String) (jobs : List SyncJob) : Prop :=
  ∀ j ∈ jobs, j.id = jobId → j.status.active = true → j.rerunRequested = false

theorem ruleWrite_running (hop : op.ruleAccounts db ≠ [])
    (h : ReflTransGen (QueueWrite db op) db.syncJobs jobs) (hj : j ∈ jobs)
    (hrun : j.status = .running) :
    ∃ j₀ ∈ db.syncJobs, j₀.id = j.id ∧ j₀.accountId = j.accountId ∧ j₀.status = .running := by
  induction h generalizing j with
  | refl => exact ⟨j, hj, rfl, rfl, hrun⟩
  | tail _ hlast ih =>
    cases hlast with
    | insert _ fresh _ _ =>
      rcases List.mem_append.mp hj with hj | hj
      · exact ih hj hrun
      · rw [List.mem_singleton.mp hj, fresh.queued] at hrun
        cases hrun
    | wake call =>
      rcases mem_updateWhere.mp hj with ⟨old, hold, _, rfl⟩ | ⟨hold, _⟩
      · obtain ⟨j₀, hj₀, hid, haccount, hrun₀⟩ := ih hold hrun
        exact ⟨j₀, hj₀, hid, haccount, hrun₀⟩
      · exact ih hold hrun
    | merge call | cancel call | requeue call | claim call | renew call =>
      subst call
      exact absurd rfl hop
    | finish call ends =>
      cases op <;> first | exact absurd rfl hop | exact call.elim

theorem unflagged_of_update (h : Unflagged jobId jobs) (hid : ∀ i, (f i).id = i.id)
    (hf : ∀ i ∈ jobs, p i = true → i.id = jobId → (f i).status.active = true →
      (i.status.active = true → i.rerunRequested = false) → (f i).rerunRequested = false) :
    Unflagged jobId (updateWhere p f jobs) := by
  refine forall_updateWhere (fun i hi _ => h i hi) fun i hi hp hi' hactive => ?_
  rw [hid] at hi'
  exact hf i hi hp hi' hactive (h i hi hi')

variable {w : SyncWorld} {target : String × String × String}

theorem apply_unflagged [Platform] (hop : op.single = true) (hinv : QueueInv w.db.syncJobs)
    (hrow : ∀ j ∈ w.db.syncJobs, j.id = jobId → j.target = target)
    (henqueue : ¬ EnqueuedWhileRunning jobId target w op)
    (hrules : ¬ RuleWorkWhileRunning jobId target.1 w op) (h : Unflagged jobId w.db.syncJobs) :
    Unflagged jobId (op.apply w.db).syncJobs := by
  have hchain := (apply_single w.db op hop).queue
  suffices hall : ∀ jobs, ReflTransGen (QueueWrite w.db op) w.db.syncJobs jobs →
      QueueInv jobs ∧ Unflagged jobId jobs from (hall _ hchain).2
  intro jobs hjobs
  induction hjobs with
  | refl => exact ⟨hinv, h⟩
  | @tail jobs jobs' hbefore hlast ih =>
    obtain ⟨hinv', hun⟩ := ih
    refine ⟨queueWrite_inv _ _ _ _ hlast hinv', ?_⟩
    cases hlast with
    | insert _ fresh _ _ =>
      intro j hj hid hactive
      rcases List.mem_append.mp hj with hj | hj
      · exact hun j hj hid hactive
      · rw [List.mem_singleton.mp hj, fresh.unasked]
    | merge call ok mem key =>
      refine unflagged_of_update hun (mergeEnqueue_id _ _) ?_
      intro i hi hp hid hactive hold
      have hactive' : i.status.active = true := by simpa using hactive
      unfold mergeEnqueue
      split_ifs with hrun
      · -- the merged row is the running one, so this enqueue is a wake-up
        have htarget : i.target = _ := (activeKey_eq_some.mp key).2 ▸
          congrArg SyncJob.target (hinv'.id_inj hi mem (beq_iff_eq.mp hp))
        exact absurd ⟨⟨_, _, _, _, call, htarget.symm.trans (hrow i hi hid), ok⟩, i, hi, hid, hrun⟩
          henqueue
      · exact hold hactive'
    | cancel call =>
      refine unflagged_of_update hun (fun _ => rfl) fun i _ _ _ hactive _ => ?_
      simp [cancelQueued, JobStatus.active] at hactive
    | requeue call =>
      refine unflagged_of_update hun (fun _ => rfl) fun i _ hp _ _ hold => ?_
      simp only [Bool.and_eq_true, decide_eq_true_eq] at hp
      exact hold (by rw [hp.1]; rfl)
    | claim call mem queued issued =>
      refine unflagged_of_update hun (fun _ => rfl) fun i hi hp _ _ hold => ?_
      refine hold ?_
      rw [hinv'.id_inj hi mem (beq_iff_eq.mp hp), queued]
      rfl
    | renew call => exact unflagged_of_update hun (fun _ => rfl) fun i _ _ _ hactive hold => hold hactive
    | finish call ends =>
      refine unflagged_of_update hun ends.id_eq fun i _ _ _ hactive _ => ?_
      rw [ends.inactive] at hactive
      cases hactive
    | wake call =>
      refine unflagged_of_update hun (fun _ => rfl) fun i hi hp hid _ _ => ?_
      simp only [Bool.and_eq_true, beq_iff_eq, decide_eq_true_eq] at hp
      obtain ⟨j₀, hj₀, hid₀, haccount, hrun⟩ :=
        ruleWrite_running (List.ne_nil_of_mem call) hbefore hi hp.2
      have htarget := hrow j₀ hj₀ (hid₀.trans hid)
      refine absurd ⟨?_, j₀, hj₀, hid₀.trans hid, hrun⟩ hrules
      rw [← htarget]
      simpa [SyncJob.target, haccount, hp.1] using call

/-- The handles of the world name jobs of its queue. -/
structure HandleInv (w : SyncWorld) : Prop where
  queue : QueueInv w.db.syncJobs
  named : ∀ h ∈ w.handles, HasJob h.id h.place w.db.syncJobs

theorem issued_hasJob {h : SyncJob} (hissued : op.issued db = some h) :
    ∃ workerId lease now db', op = .claimNext workerId lease now ∧
      claimNext db workerId lease now = .ok (some h, db') ∧ h ∈ db'.syncJobs := by
  cases op with
  | claimNext workerId lease now =>
    simp only [SyncOp.issued] at hissued
    cases hclaim : claimNext db workerId lease now with
    | error e => simp [hclaim] at hissued
    | ok result =>
      obtain ⟨job, db'⟩ := result
      simp only [hclaim] at hissued
      subst hissued
      refine ⟨workerId, lease, now, db', rfl, hclaim, ?_⟩
      rcases claimNext_ok hclaim with ⟨hnone, _⟩ | ⟨row, hmem, _, _, hrow, rfl⟩
      · cases hnone
      · cases hrow
        exact mem_updateWhere.mpr (Or.inl ⟨row, hmem, by simp, rfl⟩)
  | _ => simp [SyncOp.issued] at hissued

section

variable [Platform]

variable {w : SyncWorld} {op : SyncOp} {jobId : String}

variable {place : String × Option String × String}

section

variable (hop : op.single = true) (hinv : QueueInv w.db.syncJobs)
include hop hinv

theorem step_hasJob (h : HasJob jobId place w.db.syncJobs) :
    QueueInv (w.step op).db.syncJobs ∧ HasJob jobId place (w.step op).db.syncJobs :=
  queue_writes_preserve (fun jobs => QueueInv jobs ∧ HasJob jobId place jobs)
    (fun _ _ hwrite hjobs =>
      ⟨queueWrite_inv _ _ _ _ hwrite hjobs.1, queueWrite_hasJob hwrite hjobs.1 hjobs.2⟩)
    (apply_single w.db op hop).queue ⟨hinv, h⟩

theorem step_queueInv : QueueInv (w.step op).db.syncJobs :=
  queue_writes_preserve QueueInv (queueWrite_inv _ _) (apply_single w.db op hop).queue hinv

theorem step_flagged (h : Flagged jobId w.db.syncJobs) :
    QueueInv (w.step op).db.syncJobs ∧ Flagged jobId (w.step op).db.syncJobs :=
  queue_writes_preserve (fun jobs => QueueInv jobs ∧ Flagged jobId jobs)
    (fun _ _ hwrite hjobs =>
      ⟨queueWrite_inv _ _ _ _ hwrite hjobs.1, queueWrite_flagged hwrite hjobs.1 hjobs.2⟩)
    (apply_single w.db op hop).queue ⟨hinv, h⟩

end

theorem step_handleInv (w : SyncWorld) (op : SyncOp) (hop : op.single = true)
    (h : HandleInv w) : HandleInv (w.step op) where
  queue := step_queueInv hop h.queue
  named := by
    intro handle hhandle
    rcases List.mem_append.mp hhandle with hold | hnew
    · exact (step_hasJob hop h.queue (h.named handle hold)).2
    · obtain ⟨workerId, lease, now, db', rfl, hclaim, hmem⟩ :=
        issued_hasJob (Option.mem_toList.mp hnew)
      refine ⟨handle, ?_, rfl, rfl⟩
      simpa [SyncOp.apply, hclaim, Except.map] using hmem

theorem handleInv_run (hdb : db.syncJobs = []) (ops : List SyncOp) :
    HandleInv ((SyncWorld.mk db []).run ops) :=
  invariant_run HandleInv step_handleInv ops
    ⟨by rw [hdb]; exact QueueInv.nil, by simp⟩

variable {ops : List SyncOp}

variable (hops : ∀ op ∈ ops, op.single = true) (hinv : QueueInv w.db.syncJobs)
include hops hinv

theorem hasJob_exec
    (h : HasJob jobId place w.db.syncJobs) : HasJob jobId place (w.run ops).db.syncJobs :=
  (invariant_along
    (fun w => QueueInv w.db.syncJobs ∧ HasJob jobId place w.db.syncJobs)
    (fun _ _ hw hop => step_hasJob hop hw.1 hw.2) ⟨hinv, h⟩
    (along_of_forall (P := fun op : SyncOp => op.single = true) hops w)).2

theorem flagged_exec (h : Flagged jobId w.db.syncJobs) : Flagged jobId (w.run ops).db.syncJobs :=
  (invariant_along (fun w => QueueInv w.db.syncJobs ∧ Flagged jobId w.db.syncJobs)
    (fun _ _ hw hop => step_flagged hop hw.1 hw.2) ⟨hinv, h⟩
    (along_of_forall (P := fun op : SyncOp => op.single = true) hops w)).2

variable (hend : ∀ j ∈ (w.run ops).db.syncJobs, j.id = jobId → j.target = target)
include hend

theorem target_of_end (hj : j ∈ w.db.syncJobs) (hid : j.id = jobId) : j.target = target := by
  obtain ⟨j', hj', hid', hplace⟩ := hasJob_exec hops hinv ⟨j, hj, hid, rfl⟩
  rw [← target_of_place hplace]
  exact hend j' hj' hid'

theorem unflagged_exec
    (henqueue : ¬ Sometime SyncWorld.step (EnqueuedWhileRunning jobId target) w ops)
    (hrules : ¬ Sometime SyncWorld.step (RuleWorkWhileRunning jobId target.1) w ops)
    (h : Unflagged jobId w.db.syncJobs) : Unflagged jobId (w.run ops).db.syncJobs := by
  induction ops generalizing w with
  | nil => exact h
  | cons op ops ih =>
    have hop := hops op List.mem_cons_self
    have hrest : ∀ o ∈ ops, o.single = true := fun o ho => hops o (List.mem_cons_of_mem _ ho)
    simp only [sometime_cons, not_or] at henqueue hrules
    refine ih hrest (step_queueInv hop hinv) hend henqueue.2 hrules.2 ?_
    exact apply_unflagged hop hinv (fun j hj hid => target_of_end hops hinv hend hj hid)
      henqueue.1 hrules.1 h

end

def queuedFor (target : String × String × String) (j : SyncJob) : Bool :=
  j.status = .queued && j.target == target

theorem filter_queuedFor_finished (ends : EndsJob f)
    (hp : ∀ j ∈ jobs, queuedFor target j = true → p j = true) :
    (updateWhere p f jobs).filter (queuedFor target) = [] := by
  apply List.filter_eq_nil_iff.mpr
  refine forall_updateWhere ?_ ?_
  · intro j hj hpj hqueued
    rw [hp j hj hqueued] at hpj
    cases hpj
  · intro j _ _ hqueued
    have hinactive := ends.inactive j
    simp only [queuedFor, Bool.and_eq_true, decide_eq_true_eq] at hqueued
    rw [hqueued.1] at hinactive
    cases hinactive

theorem complete_queued {handle : SyncJob} {result : SyncCompletion} {reconciliationMinutes : ℤ}
    (h : complete db newId handle result reconciliationMinutes now = .ok db')
    (hinv : QueueInv db.syncJobs) (hrow : HasJob handle.id handle.place db.syncJobs) :
    ∃ row ∈ db.syncJobs, row.id = handle.id ∧ row.status = .running ∧
      db'.syncJobs.filter (queuedFor handle.target) =
        if row.rerunRequested then [rerunJob handle newId now] else [] := by
  obtain ⟨_, _, _, row, hmem, hheld, _, events, sequence, authRequired, rfl⟩ := complete_ok h
  obtain ⟨hid, hrun⟩ := heldBy_running hheld
  refine ⟨row, hmem, hid, hrun, ?_⟩
  have htarget : row.target = handle.target := by
    obtain ⟨j, hj, hjid, hjplace⟩ := hrow
    rw [hinv.id_inj hmem hj (hid.trans hjid.symm), target_of_place hjplace]
  have hothers : ∀ j ∈ db.syncJobs, queuedFor handle.target j = true →
      heldBy handle.id handle.lockedBy j = true := by
    intro j hj hqueued
    simp only [queuedFor, Bool.and_eq_true, decide_eq_true_eq, beq_iff_eq] at hqueued
    have hkey : j.activeKey = some handle.target :=
      activeKey_eq_some.mpr ⟨by rw [hqueued.1]; rfl, hqueued.2⟩
    have hkey' : row.activeKey = some handle.target :=
      activeKey_eq_some.mpr ⟨by rw [hrun]; rfl, htarget⟩
    rw [hinv.targets.eq_of_mem hj hmem hkey hkey', hrun] at hqueued
    cases hqueued.1
  rw [List.filter_append, filter_queuedFor_finished (endsJob_succeedJob result now) hothers,
    List.nil_append]
  split_ifs
  · simp [queuedFor, rerunJob, SyncJob.target]
  · rfl

section

variable [Platform] {db : Db} (hdb : db.syncJobs = []) {ops : List SyncOp} {handle : SyncJob}
  (hhandle : handle ∈ ((SyncWorld.mk db []).run ops).handles)
include hdb hhandle

theorem target_of_handle (hj : j ∈ ((SyncWorld.mk db []).run ops).db.syncJobs)
    (hid : j.id = handle.id) : j.target = handle.target := by
  have hlast := handleInv_run hdb ops
  obtain ⟨k, hk, hkid, hkplace⟩ := hlast.named handle hhandle
  rw [hlast.queue.id_inj hj hk (hid.trans hkid.symm), target_of_place hkplace]

theorem queued_after_wakeUp {result : SyncCompletion} {reconciliationMinutes : ℤ} {db' : Db}
    (hend : complete ((SyncWorld.mk db []).run ops).db newId handle result reconciliationMinutes
      now = .ok db')
    (hwake : Sometime SyncWorld.step (EnqueuedWhileRunning handle.id handle.target) ⟨db, []⟩
      ((SyncWorld.mk db []).transactions ops)) :
    db'.syncJobs.filter (queuedFor handle.target) = [rerunJob handle newId now] := by
  have hsingle := single_of_mem_transactions ⟨db, []⟩ ops
  have hinv₀ : QueueInv (SyncWorld.mk db []).db.syncJobs := by
    simpa [hdb] using QueueInv.nil
  have hlast := handleInv_run hdb ops
  obtain ⟨row, hmem, hid, hrun, hqueued⟩ :=
    complete_queued hend hlast.queue (hlast.named handle hhandle)
  have htargets := fun j hj hjid => target_of_handle (j := j) hdb hhandle hj hjid
  rw [← run_transactions] at htargets hmem hlast
  generalize (SyncWorld.mk db []).transactions ops = txs at *
  obtain ⟨before, op, after, rfl, ⟨newId', input, now', ⟨job, db₁⟩, rfl, htarget, hok⟩, j, hj,
    hjid, hjrun⟩ := hwake.split
  have hbefore : ∀ o ∈ before, o.single = true := fun o ho =>
    hsingle o (List.mem_append_left _ ho)
  have hafter : ∀ o ∈ SyncOp.enqueue newId' input now' :: after, o.single = true := fun o ho =>
    hsingle o (List.mem_append_right _ ho)
  set w₁ := exec SyncWorld.step ⟨db, []⟩ before
  have hinv₁ : QueueInv w₁.db.syncJobs :=
    invariant_along (fun w : SyncWorld => QueueInv w.db.syncJobs)
      (fun _ _ hw hop => step_queueInv hop hw) hinv₀
      (along_of_forall (P := fun op : SyncOp => op.single = true) hbefore _)
  rw [SyncWorld.run, exec_append] at htargets hmem hlast
  have hjtarget := target_of_end hafter hinv₁ htargets hj hjid
  have hflag : Flagged handle.id (w₁.step (.enqueue newId' input now')).db.syncJobs := by
    have := flagged_of_enqueue hok hinv₁ hj hjrun (hjtarget.trans htarget.symm)
    simpa [SyncOp.apply, hok, Except.map, hjid] using this
  obtain ⟨k, hk, hkid, hkflag⟩ := flagged_exec
    (fun o ho => hafter o (List.mem_cons_of_mem _ ho))
    (step_queueInv (hafter _ List.mem_cons_self) hinv₁) hflag
  have hrow : row = k := hlast.queue.id_inj hmem hk (hid.trans hkid.symm)
  subst hrow
  rw [hkflag (by rw [hrun]; rfl), if_pos rfl] at hqueued
  exact hqueued

end

/-- If an enqueue for the target of a job committed while the job was running, then the
transaction that completes the job leaves exactly one queued job for the target, due at once;
without such an enqueue, and without rule work for the account in that time, it leaves none. -/
theorem wake_up_kept [Platform] (db : Db) (hdb : db.syncJobs = []) (ops : List SyncOp)
    (handle : SyncJob) (hhandle : handle ∈ ((SyncWorld.mk db []).run ops).handles)
    (newId : String) (result : SyncCompletion) (reconciliationMinutes : ℤ) (now : Time) (db' : Db)
    (hend : complete ((SyncWorld.mk db []).run ops).db newId handle result reconciliationMinutes
      now = .ok db') :
    (Sometime SyncWorld.step (EnqueuedWhileRunning handle.id handle.target) ⟨db, []⟩
        ((SyncWorld.mk db []).transactions ops) →
      ∃ next, db'.syncJobs.filter (queuedFor handle.target) = [next] ∧ next.notBefore = now) ∧
    (¬ Sometime SyncWorld.step (EnqueuedWhileRunning handle.id handle.target) ⟨db, []⟩
        ((SyncWorld.mk db []).transactions ops) →
      ¬ Sometime SyncWorld.step (RuleWorkWhileRunning handle.id handle.accountId) ⟨db, []⟩
        ((SyncWorld.mk db []).transactions ops) →
      db'.syncJobs.filter (queuedFor handle.target) = []) := by
  constructor
  · intro hwake
    exact ⟨_, queued_after_wakeUp hdb hhandle hend hwake, rfl⟩
  · intro henqueue hrules
    have hsingle := single_of_mem_transactions ⟨db, []⟩ ops
    have hinv₀ : QueueInv (SyncWorld.mk db []).db.syncJobs := by
      simpa [hdb] using QueueInv.nil
    have hlast := handleInv_run hdb ops
    obtain ⟨row, hmem, hid, hrun, hqueued⟩ :=
      complete_queued hend hlast.queue (hlast.named handle hhandle)
    have htargets := fun j hj hjid => target_of_handle (j := j) hdb hhandle hj hjid
    rw [← run_transactions] at htargets hmem
    have hun := unflagged_exec hsingle hinv₀ htargets henqueue hrules
      (by simp [Unflagged, hdb])
    rw [hun row hmem hid (by rw [hrun]; rfl)] at hqueued
    simpa using hqueued

/-- An enqueue with the priority commits for the target while the job is running. -/
def EnqueuedWithPriority (jobId : String) (target : String × String × String) (priority : ℤ)
    (w : SyncWorld) (op : SyncOp) : Prop :=
  (∃ newId input now result, op = .enqueue newId input now ∧ input.target = target ∧
    input.priority = priority ∧ enqueue w.db newId input now = .ok result) ∧
  ∃ j ∈ w.db.syncJobs, j.id = jobId ∧ j.status = .running

/-- The priorities of the enqueues that committed for the handle's job while it was running. -/
def wakeUpPriorities [Platform] (db : Db) (ops : List SyncOp) (handle : SyncJob) : Set ℤ :=
  {p | Sometime SyncWorld.step (EnqueuedWithPriority handle.id handle.target p) ⟨db, []⟩
    ((SyncWorld.mk db []).transactions ops)}

theorem sometime_enqueued_of_priority [Platform] {p : ℤ} {ops : List SyncOp}
    (h : Sometime SyncWorld.step (EnqueuedWithPriority jobId target p) w ops) :
    Sometime SyncWorld.step (EnqueuedWhileRunning jobId target) w ops := by
  induction ops generalizing w with
  | nil => exact h
  | cons op ops ih =>
    rcases h with ⟨⟨newId, input, now, result, hop, htarget, _, hok⟩, hrun⟩ | h
    · exact Or.inl ⟨⟨newId, input, now, result, hop, htarget, hok⟩, hrun⟩
    · exact Or.inr (ih h)

theorem enqueuedWithPriority_of
    (hok : (enqueue w.db newId input now).toOption.any (fun _ => true) = true)
    (hrun : ∃ j ∈ w.db.syncJobs, j.id = jobId ∧ j.status = .running) :
    EnqueuedWithPriority jobId input.target input.priority w (.enqueue newId input now) := by
  obtain ⟨result, hresult, _⟩ := exists_ok_of_any hok
  exact ⟨⟨newId, input, now, result, rfl, rfl, rfl, hresult⟩, hrun⟩

/-- `P` works on the inbox when another request for it arrives. -/
def wokenOps (input : SyncEnqueue) : List SyncOp := claimedByP ++ [.enqueue "k" input 5]

theorem transactions_wokenOps [Platform] (input : SyncEnqueue) :
    (SyncWorld.mk singleAccountDb []).transactions (wokenOps input) = wokenOps input := rfl

theorem woken_priority [Platform] (input : SyncEnqueue)
    (h : EnqueuedWithPriority handleOfP.id handleOfP.target input.priority
      ((SyncWorld.mk singleAccountDb []).run claimedByP) (.enqueue "k" input 5)) :
    input.priority ∈ wakeUpPriorities singleAccountDb (wokenOps input) handleOfP := by
  rw [wakeUpPriorities, Set.mem_ofPred_eq, transactions_wokenOps, wokenOps]
  exact (sometime_append _ _ _ _ _).mpr (Or.inr (Or.inl h))

/-- A second request for the inbox arrives while `P` synchronizes it. -/
theorem wake_up_kept_inbox :
    let _ := Platform.plain
    ∃ db', complete ((SyncWorld.mk singleAccountDb []).run
        (claimedByP ++ [.enqueue "k" inboxRequest 5])).db "m" handleOfP { mailbox := "INBOX" } 30 6 =
          .ok db' ∧
      ∃ next, db'.syncJobs.filter (queuedFor handleOfP.target) = [next] ∧ next.notBefore = 6 := by
  intro _
  have hok : (complete ((SyncWorld.mk singleAccountDb []).run
      (claimedByP ++ [.enqueue "k" inboxRequest 5])).db "m" handleOfP
        { mailbox := "INBOX" } 30 6).toOption.any (fun _ => true) = true := by
    decide +kernel
  have hwoken : Sometime SyncWorld.step (EnqueuedWhileRunning handleOfP.id handleOfP.target)
      ⟨singleAccountDb, []⟩ ((SyncWorld.mk singleAccountDb []).transactions
        (claimedByP ++ [.enqueue "k" inboxRequest 5])) := by
    have hasked := woken_priority inboxRequest
      (enqueuedWithPriority_of (by decide +kernel) (by decide +kernel))
    rw [wakeUpPriorities, Set.mem_ofPred_eq] at hasked
    exact sometime_enqueued_of_priority hasked
  have hhandle : handleOfP ∈ ((SyncWorld.mk singleAccountDb []).run
      (claimedByP ++ [.enqueue "k" inboxRequest 5])).handles := by
    decide +kernel
  obtain ⟨db', hend, _⟩ := exists_ok_of_any hok
  exact ⟨db', hend, (wake_up_kept singleAccountDb rfl _ handleOfP hhandle "m" _ 30 6 db' hend).1
    hwoken⟩

/-- The job that follows a completed one has at least the priority of every enqueue in the
meantime, exactly if none asked for more than 50 and more than the worker's handle knows: `enqueue`
raises the priority of the row, and `complete` reads that of the handle. -/
theorem wake_up_priority_iff [Platform] (db : Db) (hdb : db.syncJobs = []) (ops : List SyncOp)
    (handle : SyncJob) (hhandle : handle ∈ ((SyncWorld.mk db []).run ops).handles)
    (newId : String) (result : SyncCompletion) (reconciliationMinutes : ℤ) (now : Time) (db' : Db)
    (hend : complete ((SyncWorld.mk db []).run ops).db newId handle result reconciliationMinutes
      now = .ok db') (hwake : (wakeUpPriorities db ops handle).Nonempty) :
    (∃ next, db'.syncJobs.filter (queuedFor handle.target) = [next] ∧ 50 ≤ next.priority ∧
      ∀ p ∈ wakeUpPriorities db ops handle, p ≤ next.priority) ↔
    ∀ p ∈ wakeUpPriorities db ops handle, p ≤ 50 ∨ p ≤ handle.priority := by
  obtain ⟨p₀, hp₀⟩ := hwake
  have hqueued := queued_after_wakeUp hdb hhandle hend (sometime_enqueued_of_priority hp₀)
  have hpriority : (rerunJob handle newId now).priority = max handle.priority 50 := rfl
  constructor
  · rintro ⟨next, hnext, _, hall⟩ p hp
    have hself : rerunJob handle newId now = next := by simpa using hqueued.symm.trans hnext
    have hle := hall p hp
    rw [← hself, hpriority] at hle
    omega
  · intro hall
    refine ⟨_, hqueued, ?_, ?_⟩
    · rw [hpriority]
      omega
    · intro p hp
      have hle := hall p hp
      rw [hpriority]
      omega

/-- A request of the scheduler for the inbox while `P` synchronizes it. -/
theorem wake_up_priority_scheduled :
    let _ := Platform.plain
    ∃ db', complete ((SyncWorld.mk singleAccountDb []).run (wokenOps inboxRequest)).db "m" handleOfP
        { mailbox := "INBOX" } 30 6 = .ok db' ∧
      ∃ next, db'.syncJobs.filter (queuedFor handleOfP.target) = [next] ∧ 50 ≤ next.priority ∧
        ∀ p ∈ wakeUpPriorities singleAccountDb (wokenOps inboxRequest) handleOfP,
          p ≤ next.priority := by
  intro _
  have hpriorities : ∀ p ∈ wakeUpPriorities singleAccountDb (wokenOps inboxRequest) handleOfP,
      p ≤ 50 ∨ p ≤ handleOfP.priority := by
    intro p hp
    rw [wakeUpPriorities, Set.mem_ofPred_eq, transactions_wokenOps] at hp
    obtain ⟨before, op, after, hops, ⟨newId, input, now, result, rfl, _, rfl, _⟩, _⟩ := hp.split
    have hmem : SyncOp.enqueue newId input now ∈ wokenOps inboxRequest := by
      rw [hops]
      simp
    simp only [wokenOps, claimedByP, List.cons_append, List.nil_append, List.mem_cons,
      SyncOp.enqueue.injEq, reduceCtorEq, List.not_mem_nil, or_false, false_or] at hmem
    left
    rcases hmem with ⟨_, rfl, _⟩ | ⟨_, rfl, _⟩ <;> decide
  have hok : (complete ((SyncWorld.mk singleAccountDb []).run (wokenOps inboxRequest)).db "m"
      handleOfP { mailbox := "INBOX" } 30 6).toOption.any (fun _ => true) = true := by
    decide +kernel
  have hasked := woken_priority inboxRequest
    (enqueuedWithPriority_of (by decide +kernel) (by decide +kernel))
  obtain ⟨db', hend, _⟩ := exists_ok_of_any hok
  exact ⟨db', hend, (wake_up_priority_iff singleAccountDb rfl (wokenOps inboxRequest) handleOfP
    (by decide +kernel) "m" { mailbox := "INBOX" } 30 6 db' hend ⟨_, hasked⟩).mpr hpriorities⟩

def urgentRequest : SyncEnqueue := { inboxRequest with priority := 100 }

/-- The user asks for the inbox with priority 100 while `P` synchronizes it; the job that follows
has priority 50. -/
theorem wake_up_priority_lost :
    let _ := Platform.plain
    handleOfP ∈ ((SyncWorld.mk singleAccountDb []).run (wokenOps urgentRequest)).handles ∧
      100 ∈ wakeUpPriorities singleAccountDb (wokenOps urgentRequest) handleOfP ∧
      ∃ db', complete ((SyncWorld.mk singleAccountDb []).run (wokenOps urgentRequest)).db "m"
          handleOfP { mailbox := "INBOX" } 30 6 = .ok db' ∧
        (db'.syncJobs.filter (queuedFor handleOfP.target)).map (·.priority) = [50] ∧
        ¬ ∃ next, db'.syncJobs.filter (queuedFor handleOfP.target) = [next] ∧ 50 ≤ next.priority ∧
          ∀ p ∈ wakeUpPriorities singleAccountDb (wokenOps urgentRequest) handleOfP,
            p ≤ next.priority := by
  intro _
  have hok : (complete ((SyncWorld.mk singleAccountDb []).run (wokenOps urgentRequest)).db "m"
      handleOfP { mailbox := "INBOX" } 30 6).toOption.any (fun db' =>
        (db'.syncJobs.filter (queuedFor handleOfP.target)).map (·.priority) = [50]) = true := by
    decide +kernel
  have hasked := woken_priority urgentRequest
    (enqueuedWithPriority_of (by decide +kernel) (by decide +kernel))
  obtain ⟨db', hend, hfifty⟩ := exists_ok_of_any hok
  refine ⟨by decide +kernel, hasked, db', hend, of_decide_eq_true hfifty, ?_⟩
  rintro ⟨next, hnext, _, hall⟩
  have hpriority := of_decide_eq_true hfifty
  rw [hnext, List.map_singleton, List.singleton_inj] at hpriority
  have hle := hall 100 hasked
  omega

def readRule : MailRule where
  id := "rule"
  userId := "u"
  revision := 1
  createdAt := 0
  updatedAt := 0
  input :=
    { name := "read"
      enabled := true
      priority := 0
      accountIds := []
      matchMode := .all
      conditions := [.unread true]
      actions := [.markRead true]
      stopProcessing := false }

def failedRun : MailRuleRun where
  sequence := 1
  id := "run"
  userId := "u"
  ruleId := "rule"
  ruleName := "read"
  revision := 1
  accountId := "a"
  messageId := "message"
  identity := "local:message"
  source := .automatic
  status := .failed
  actions := [.markRead true]
  localActions := 0
  createdAt := 0
  updatedAt := 0

def failedRunDb : Db :=
  { singleAccountDb with mailRules := [readRule], mailRuleRuns := [failedRun] }

def projectsRequest : SyncEnqueue :=
  { accountId := "a", mailbox := some "Projects", mailboxRole := "custom", reason := "manual" }

/-- The handle of `P` for the folder `Projects`. -/
def projectsHandle : SyncJob := claimJob "P" 10 0 (enqueuedJob "j" projectsRequest .manual 0)

/-- The user retries the failed run while `P` synchronizes `Projects`. -/
def retriedWhileRunning : List SyncOp :=
  [.enqueue "j" projectsRequest 0, .claimNext "P" 10 0, .retryMailRuleRun "k" "u" "run" 1]

/-- Nothing was enqueued for `Projects` while it was running, and still its completion leaves a
queued job for it. -/
theorem rerun_without_enqueue :
    let _ := Platform.plain
    let w := (SyncWorld.mk failedRunDb []).run retriedWhileRunning
    projectsHandle ∈ w.handles ∧
    ¬ Sometime SyncWorld.step (EnqueuedWhileRunning projectsHandle.id projectsHandle.target)
      ⟨failedRunDb, []⟩ ((SyncWorld.mk failedRunDb []).transactions retriedWhileRunning) ∧
    ∃ db', complete w.db "m" projectsHandle { mailbox := "Projects" } 30 2 = .ok db' ∧
      db'.syncJobs.filter (queuedFor projectsHandle.target) = [rerunJob projectsHandle "m" 2] := by
  intro _
  refine ⟨by decide, ?_, _, rfl, by decide⟩
  rintro (⟨_, j, hj, _⟩ | ⟨⟨_, _, _, _, hop, _⟩, _⟩ | ⟨⟨_, _, _, _, hop, _⟩, _⟩ | h)
  · cases hj
  · cases hop
  · cases hop
  · exact h

end IMail
