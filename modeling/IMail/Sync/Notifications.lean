import IMail.Sync.CreatedMessages
import IMail.Sync.StaleWorker

/-!
# Notifications of new mail

The commit of a batch and the `message.created` events for it are two transactions of
`execute_inner`, with the execution of rules and several reads between them. A message that
has its row is not new for a later commit, so the events of a batch are recorded by the
execution that committed it or not at all.
-/

namespace IMail

open Relational Transition

/-- `event_type = 'message.created'` -/
def SyncEvent.isCreated (e : SyncEvent) : Bool :=
  match e.payload with
  | .messageCreated .. => true
  | .started .. | .completed .. | .failed .. => false

/-- The event tells of the message `id` of the account. -/
def SyncEvent.tellsOf (accountId id : String) (e : SyncEvent) : Bool :=
  match e.payload with
  | .messageCreated _ message => e.accountId == accountId && message.id == id
  | .started .. | .completed .. | .failed .. => false

def Db.createdEvents (db : Db) : List SyncEvent := db.syncEvents.filter SyncEvent.isCreated

variable {db db' : Db} {job : SyncJob} {now : Time}

theorem insertEvent_created {payload : SyncEventPayload}
    (h : db.insertEvent job payload now = .ok db')
    (hpayload : ∀ email message, payload ≠ .messageCreated email message) :
    db'.createdEvents = db.createdEvents := by
  unfold Db.insertEvent at h
  split_ifs at h
  cases h
  unfold Db.createdEvents
  rw [List.filter_append]
  cases payload with
  | messageCreated email message => exact absurd rfl (hpayload email message)
  | started | completed | failed => simp [SyncEvent.isCreated]

theorem markStarted_created {mailbox : String} (h : markStarted db job mailbox now = .ok db') :
    db'.createdEvents = db.createdEvents := by
  simp only [markStarted, bind_eq_ok] at h
  obtain ⟨_, _, db₁, hstate, hevent⟩ := h
  rw [insertEvent_created hevent (by simp), upsertState_ok hstate]
  rfl

theorem complete_created {newId : String} {result : SyncCompletion} {reconciliationMinutes : ℤ}
    (h : complete db newId job result reconciliationMinutes now = .ok db') :
    db'.createdEvents = db.createdEvents := by
  unfold complete at h
  split_ifs at h
  · cases h
  · simp only [bind_eq_ok] at h
    obtain ⟨rerun, _, db₁, hfinish, db₂, hstate, db₃, hevent, hlast⟩ := h
    have hcreated := insertEvent_created hevent (by simp)
    have hsame : db₃.createdEvents = db.createdEvents := by
      rw [hcreated, upsertState_ok hstate, (finishJob_ok hfinish).2]
      rfl
    split_ifs at hlast
    · rw [(insertJob_ok hlast).2.2.2, ← hsame]
      rfl
    · cases hlast
      exact hsame

theorem fail_created {failure : SyncFailure} (h : fail db job failure now = .ok db') :
    db'.createdEvents = db.createdEvents := by
  simp only [fail, bind_eq_ok] at h
  obtain ⟨db₁, hfinish, db₂, hstate, db₃, hevent, hlast⟩ := h
  cases hlast
  have hcreated := insertEvent_created hevent (by simp)
  rw [upsertState_ok hstate, (finishJob_ok hfinish).2] at hcreated
  exact hcreated

variable {accountId accountEmail : String} {messages : List Message}

section

variable (h : recordMessageCreated accountId accountEmail now messages db = .ok db')
include h

theorem recordMessageCreated_own : ∀ m ∈ messages, m.accountId = accountId := by
  induction messages generalizing db with
  | nil => simp
  | cons message messages ih =>
    unfold recordMessageCreated at h
    rw [List.forall_mem_cons]
    split_ifs at h with haccount
    · exact ⟨not_not.mp haccount, ih h⟩
    · exact ⟨not_not.mp haccount, ih h⟩

theorem recordMessageCreated_created :
    ∃ added, db'.createdEvents = db.createdEvents ++ added ∧ ∀ a x,
      added.countP (SyncEvent.tellsOf a x) =
        messages.countP fun m => accountId == a && m.id == x && !isMuted db m := by
  induction messages generalizing db with
  | nil =>
    cases h
    exact ⟨[], by simp, by simp⟩
  | cons message messages ih =>
    unfold recordMessageCreated at h
    split_ifs at h with _ hmuted
    · obtain ⟨added, hadded, hcount⟩ := ih h
      refine ⟨added, hadded, fun a x => ?_⟩
      rw [hcount, List.countP_cons]
      simp [hmuted]
    · obtain ⟨added, hadded, hcount⟩ := ih h
      let event : SyncEvent :=
        { id := db.syncEventSequence + 1
          accountId
          jobId := none
          payload := .messageCreated accountEmail message
          createdAt := now }
      refine ⟨event :: added, ?_, fun a x => ?_⟩
      · rw [hadded]
        unfold Db.createdEvents
        rw [List.filter_append, List.append_assoc]
        rfl
      · have hrest : added.countP (SyncEvent.tellsOf a x) =
            messages.countP fun m => accountId == a && m.id == x && !isMuted db m := hcount a x
        rw [List.countP_cons, hrest, List.countP_cons]
        simp [event, SyncEvent.tellsOf, hmuted]

end

/-- The worker is to tell of the message `id` of the account. -/
def ExecPhase.owes (accountId id : String) (phase : ExecPhase) : Bool :=
  phase.batch.any fun pair =>
    pair.1.accountId == accountId && pair.2.notification.any fun m => m.id == id

section

variable [Platform]

structure Commits (db : Db) (phase : ExecPhase) (op : ExecOp) (job : SyncJob)
    (batch : SyncedBatch) (db' : Db) : Prop where
  step : ∃ runIds detail now owner plan synced commit, op = .commit runIds detail now ∧
    phase = .planned job owner plan synced ∧
    commitMailboxSync db runIds plan now = .ok (commit, db') ∧
    batch = syncedBatch plan synced commit

structure Notifies (db : Db) (phase : ExecPhase) (op : ExecOp) (job : SyncJob)
    (batch : SyncedBatch) (db' : Db) : Prop where
  step : ∃ changes detail now owner, op = .notify changes detail now ∧
    phase = .notifying job owner batch ∧ recordNotifications db job owner batch now = .ok db'

variable {db : Db}

variable {ε α : Type} {failed : ExecPhase} {op : ExecOp} {a : String}

variable {workerId : String} {phase phase' : ExecPhase} {db' : Db}

theorem ExecStep.created (h : ExecStep workerId db phase op db' phase') :
    db'.createdEvents = db.createdEvents ∨ ∃ job batch, Notifies db phase op job batch db' := by
  cases h with
  | notifies hok => exact Or.inr ⟨_, _, ⟨_, _, _, _, rfl, rfl, hok⟩⟩
  | stays | leaves | aborts | drains | fetches => exact Or.inl rfl
  | claims hok | requeues hok =>
    apply Or.inl
    rcases claimNext_ok hok with ⟨_, rfl⟩ | ⟨_, _, _, _, _, rfl⟩ <;> rfl
  | starts hok => exact Or.inl (markStarted_created hok)
  | cancels _ _ hok =>
    rw [(cancel_ok hok).2]
    exact Or.inl rfl
  | claimsRule hok | claimsNoRule hok =>
    rw [claimRuleAction_frame hok]
    exact Or.inl rfl
  | finishesRule hok =>
    rw [finishRuleAction_frame hok]
    exact Or.inl rfl
  | commits hok =>
    obtain ⟨_, _, _, _, _, rfl⟩ := commitMailboxSync_frame hok
    exact Or.inl rfl
  | renews _ hok =>
    rw [(renewLease_ok hok).2]
    exact Or.inl rfl
  | @finishes _ result _ _ _ _ hok =>
    cases result with
    | ok completion => exact Or.inl (complete_created hok)
    | error failure => exact Or.inl (fail_created hok)

omit [Platform] in
@[simp] theorem batch_afterRules (job : SyncJob) (owner : String) (synced : Option SyncedBatch) :
    (afterRules job owner synced).batch = synced.map fun batch => (job, batch) := by
  cases synced <;> rfl

omit [Platform] in
@[simp] theorem batch_draining (job : SyncJob) (owner : String) (synced : Option SyncedBatch)
    (work : Option RuleWork) :
    (ExecPhase.draining job owner synced work).batch = synced.map fun batch => (job, batch) := by
  cases synced <;> rfl

theorem ExecStep.batch (h : ExecStep workerId db phase op db' phase') :
    phase'.batch = phase.batch ∨ phase'.batch = none ∨
      ∃ job batch, phase'.batch = some (job, batch) ∧ Commits db phase op job batch db' := by
  cases h with
  | stays | renews | fetches => exact Or.inl rfl
  | claimsRule | claimsNoRule | finishesRule | drains => exact Or.inl (by simp)
  | commits hok =>
    exact Or.inr (Or.inr ⟨_, _, rfl, ⟨_, _, _, _, _, _, _, rfl, rfl, hok, rfl⟩⟩)
  | leaves | aborts | claims | requeues | starts | cancels | notifies | finishes =>
    exact Or.inr (Or.inl rfl)

variable {job : SyncJob} {batch : SyncedBatch}

theorem ExecStep.proceeds (h : ExecStep workerId db phase op db' phase')
    (hbatch : phase.batch = some (job, batch)) (hop : op.fails db phase = false) :
    phase'.batch = some (job, batch) ∨ Notifies db phase op job batch db' := by
  cases h with
  | stays | renews => exact Or.inl hbatch
  | leaves hgivesUp | aborts _ hgivesUp =>
    rcases hgivesUp with hfails | hnone
    · rw [hfails] at hop
      cases hop
    · rw [hnone] at hbatch
      cases hbatch
  | cancels _ hnone =>
    rw [hnone] at hbatch
    cases hbatch
  | claims | requeues | starts | fetches | commits | finishes => cases hbatch
  | claimsRule | claimsNoRule | finishesRule | drains => exact Or.inl (by simpa using hbatch)
  | notifies hok =>
    cases hbatch
    exact Or.inr ⟨_, _, _, _, rfl, rfl, hok⟩

theorem batch_of_notifies (h : Notifies db phase op job batch db') :
    (op.apply workerId db phase).2.batch = none := by
  obtain ⟨changes, detail, now, owner, rfl, rfl, hrecord⟩ := h.step
  simp only [ExecOp.apply, hrecord]
  rfl

def ExecPhase.OwnPlan : ExecPhase → Prop
  | .planned job _ plan _ => plan.accountId = job.accountId
  | .idle | .claimed _ | .draining .. | .notifying .. | .finalizing .. => True

theorem ExecStep.ownPlan (hstep : ExecStep workerId db phase op db' phase') (h : phase.OwnPlan) :
    phase'.OwnPlan := by
  cases hstep with
  | stays | renews => exact h
  | fetches => rfl
  | @claimsNoRule _ _ synced | @drains _ _ synced => cases synced <;> trivial
  | leaves | aborts | claims | requeues | starts | cancels | claimsRule | finishesRule | commits
  | notifies | finishes => trivial

def Db.shows (db : Db) (accountId id : String) : Bool :=
  (db.messages.any fun m => m.id == id && m.accountId == accountId) &&
    db.messages.all fun m => !(m.id == id && m.accountId == accountId) || !isMuted db m

variable {owner : String}

omit [Platform] in
theorem ruleMessage_some {id : String} {row : Message} (h : ruleMessage db owner id = some row) :
    row ∈ db.messages ∧ row.id = id := by
  have hsel := List.find?_some h
  simp only [Bool.and_eq_true, beq_iff_eq] at hsel
  exact ⟨List.mem_of_find?_eq_some h, hsel.1⟩

omit [Platform] in
theorem recordNotifications_created (h : recordNotifications db job owner batch now = .ok db') :
    ∃ added, db'.createdEvents = db.createdEvents ++ added ∧ ∀ a x,
      added.countP (SyncEvent.tellsOf a x) = batch.notification.countP fun m =>
        job.accountId == a && m.id == x && (ruleMessage db owner x).any fun row => !isMuted db row := by
  unfold recordNotifications at h
  split at h
  · cases h
  · obtain ⟨added, hadded, hcount⟩ := recordMessageCreated_created h
    refine ⟨added, hadded, fun a x => ?_⟩
    rw [hcount, List.countP_filterMap]
    congr 1
    funext m
    by_cases hid : m.id = x
    · subst hid
      cases hrow : ruleMessage db owner m.id with
      | none => simp
      | some row => simp [(ruleMessage_some hrow).2]
    · have hother : (m.id == x) = false := by simpa using hid
      cases hrow : ruleMessage db owner m.id with
      | none => simp [hother]
      | some row => simp [(ruleMessage_some hrow).2, hother]

variable {x : String}

omit [Platform] in
theorem recordNotifications_shown (h : recordNotifications db job owner batch now = .ok db')
    (hshown : db.shows job.accountId x = true) (hids : (batch.notification.map (·.id)).Nodup)
    (hx : x ∈ batch.notification.map (·.id)) :
    ∃ added, db'.createdEvents = db.createdEvents ++ added ∧
      added.countP (SyncEvent.tellsOf job.accountId x) = 1 := by
  obtain ⟨added, hadded, hcount⟩ := recordNotifications_created h
  refine ⟨added, hadded, ?_⟩
  obtain ⟨hthere, hunmuted⟩ := Bool.and_eq_true_iff.mp hshown
  obtain ⟨cached, hcached, hcols⟩ := List.any_eq_true.mp hthere
  simp only [Bool.and_eq_true, beq_iff_eq] at hcols
  have hrow : (ruleMessage db owner x).any (fun row => !isMuted db row) = true := by
    unfold recordNotifications at h
    split at h
    · cases h
    · rename_i account haccount
      have howns : db.ownsAccount owner job.accountId = true := by
        have hsel := List.find?_some haccount
        exact List.any_eq_true.mpr ⟨account, List.mem_of_find?_eq_some haccount, hsel⟩
      cases hfound : ruleMessage db owner x with
      | none =>
        have hnone := List.find?_eq_none.mp hfound cached hcached
        simp [hcols.1, hcols.2, howns] at hnone
      | some row =>
        obtain ⟨m, hm, hmid⟩ := List.mem_map.mp hx
        obtain ⟨hmem, hid⟩ := ruleMessage_some hfound
        have hown : row.accountId = job.accountId := by
          apply recordMessageCreated_own h
          exact List.mem_filterMap.mpr ⟨m, hm, by rw [hmid, hfound]⟩
        have hnot := List.all_eq_true.mp hunmuted row hmem
        simpa [hid, hown] using hnot
  rw [hcount, hrow]
  have hone : batch.notification.countP (fun m => m.id == x) =
      (batch.notification.map (·.id)).count x := by
    rw [List.count, List.countP_map]
    rfl
  simp only [beq_self_eq_true, Bool.true_and, Bool.and_true]
  rw [hone]
  exact List.count_eq_one_of_mem hids hx

omit [Platform] in
theorem owes_of_batch (h : phase.batch = some (job, batch)) (a x : String) :
    phase.owes a x = (job.accountId == a && batch.notification.any fun m => m.id == x) := by
  simp [ExecPhase.owes, h]

theorem owes_apply (hplan : phase.OwnPlan) (howes : phase.owes a x = false)
    (hshown : db.shows a x = true) (op : ExecOp) :
    (op.apply workerId db phase).2.owes a x = false := by
  rcases (op.apply_step workerId db phase).batch with hsame | hnone | ⟨job, batch, hbatch, hcommits⟩
  · unfold ExecPhase.owes at howes ⊢
    rw [hsame]
    exact howes
  · simp [ExecPhase.owes, hnone]
  · obtain ⟨runIds, detail, now, owner, plan, synced, commit, _, rfl, hcommit, rfl⟩ := hcommits.step
    rw [owes_of_batch hbatch]
    by_contra howed
    simp only [Bool.not_eq_false, Bool.and_eq_true, beq_iff_eq, List.any_eq_true] at howed
    obtain ⟨haccount, c, hc, hid⟩ := howed
    have hcreated : c ∈ commit.createdMessages := by
      unfold syncedBatch at hc
      split_ifs at hc
      · exact hc
      · cases hc
    obtain ⟨row, hrow, hcols⟩ := List.any_eq_true.mp (Bool.and_eq_true_iff.mp hshown).1
    simp only [Bool.and_eq_true, beq_iff_eq] at hcols
    have hown : row.accountId = plan.accountId := by rw [hcols.2, ← haccount, hplan]
    exact (created_uncached hcommit hcreated hrow hown).1 (hcols.1.trans hid.symm)

theorem told_apply (howes : phase.owes a x = false) (op : ExecOp) :
    ((op.apply workerId db phase).1.createdEvents.drop db.createdEvents.length).countP
      (SyncEvent.tellsOf a x) = 0 := by
  rcases (op.apply_step workerId db phase).created with hsame | ⟨job, batch, hnotifies⟩
  · rw [hsame, List.drop_length]
    rfl
  · obtain ⟨changes, detail, now, owner, _, rfl, hrecord⟩ := hnotifies.step
    obtain ⟨added, hadded, hcount⟩ := recordNotifications_created hrecord
    rw [hadded, List.drop_left, hcount, List.countP_eq_zero]
    intro m hm htold
    simp only [Bool.and_eq_true, beq_iff_eq] at htold
    rw [owes_of_batch rfl, htold.1.1, beq_self_eq_true, Bool.true_and, List.any_eq_false] at howes
    exact howes m hm (beq_iff_eq.mpr htold.1.2)

/-- Workers on one database. `recorded` has all events of new messages that were ever
recorded, also those that were deleted later as outdated. -/
structure Workers where
  db : Db
  phase : String → ExecPhase := fun _ => .idle
  recorded : List SyncEvent := []

/-- A step of a worker, or any other change of the database, which records no event of a new
message: user requests, the scheduler, the deletion of old events. -/
inductive WorkersOp
  | work (worker : String) (op : ExecOp)
  | outside (db : Db)

namespace Workers

def step (w : Workers) : WorkersOp → Workers
  | .work worker op =>
    let r := op.apply worker w.db (w.phase worker)
    { db := r.1
      phase := Function.update w.phase worker r.2
      recorded := w.recorded ++ r.1.createdEvents.drop w.db.createdEvents.length }
  | .outside db => if ∀ e ∈ db.createdEvents, e ∈ w.db.createdEvents then { w with db } else w

def told (w : Workers) (accountId id : String) : ℕ :=
  w.recorded.countP (SyncEvent.tellsOf accountId id)

def completes (target : String × String × String) (w : Workers) : WorkersOp → Bool
  | .work worker (.finish newId reconciliationMinutes now) =>
    match w.phase worker with
    | .finalizing job (.ok completion) => job.target == target &&
      (complete w.db newId job completion reconciliationMinutes now).isOk
    | _ => false
  | _ => false

/-- While the worker is to tell of the message, it does not fail, and no other worker completes
the target. -/
def Proceeds (worker accountId id : String) (target : String × String × String) (w : Workers)
    (op : WorkersOp) : Prop :=
  (w.phase worker).owes accountId id = true → match op with
    | .work other execOp =>
      if other = worker then execOp.fails w.db (w.phase worker) = false
      else w.completes target op = false
    | .outside _ => True

structure Quiet (a x : String) (w : Workers) : Prop where
  plans : ∀ q, (w.phase q).OwnPlan
  none : ∀ q, (w.phase q).owes a x = false

structure Waiting (worker : String) (job : SyncJob) (batch : SyncedBatch) (x : String)
    (w : Workers) : Prop where
  plans : ∀ q, (w.phase q).OwnPlan
  own : (w.phase worker).batch = some (job, batch)
  others : ∀ q, q ≠ worker → (w.phase q).owes job.accountId x = false

variable {w : Workers}

theorem plans_work (h : ∀ q, (w.phase q).OwnPlan) (worker : String) (op : ExecOp) :
    ∀ q, ((w.step (.work worker op)).phase q).OwnPlan := by
  intro q
  simp only [step, Function.update_apply]
  split_ifs with hq
  · exact (op.apply_step worker w.db _).ownPlan (h worker)
  · exact h q

variable {worker : String}

theorem phase_work_of_ne (w : Workers) {q : String} (h : q ≠ worker) (op : ExecOp) :
    (w.step (.work worker op)).phase q = w.phase q := Function.update_of_ne h ..

theorem told_work (w : Workers) (worker : String) (op : ExecOp) (a x : String) :
    (w.step (.work worker op)).told a x = w.told a x +
      (((op.apply worker w.db (w.phase worker)).1.createdEvents.drop
        w.db.createdEvents.length).countP (SyncEvent.tellsOf a x)) := by
  simp [told, step, List.countP_append]

theorem step_outside (w : Workers) (db : Db) :
    ∃ db', w.step (.outside db) = { w with db := db' } := by
  simp only [step]
  split_ifs
  · exact ⟨db, rfl⟩
  · exact ⟨w.db, rfl⟩

variable {x : String}

variable {a : String} {op : WorkersOp} {ops : List WorkersOp}

theorem Quiet.step (h : Quiet a x w) (hshown : w.db.shows a x = true) (op : WorkersOp) :
    Quiet a x (w.step op) ∧ (w.step op).told a x = w.told a x := by
  cases op with
  | outside db =>
    obtain ⟨db', hstep⟩ := step_outside w db
    rw [hstep]
    exact ⟨⟨h.plans, h.none⟩, rfl⟩
  | work worker op =>
    constructor
    · constructor
      · exact plans_work h.plans worker op
      · intro q
        simp only [Workers.step, Function.update_apply]
        split_ifs with hq
        · exact owes_apply (h.plans worker) (h.none worker) hshown op
        · exact h.none q
    · rw [told_work, told_apply (h.none worker), Nat.add_zero]

variable {job : SyncJob} {batch : SyncedBatch}

section

variable (h : Waiting worker job batch x w) (hx : x ∈ batch.notification.map (·.id))
include h hx

omit [Platform] in
theorem Waiting.owes : (w.phase worker).owes job.accountId x = true := by
  obtain ⟨m, hm, hid⟩ := List.mem_map.mp hx
  rw [owes_of_batch h.own, beq_self_eq_true, Bool.true_and]
  exact List.any_eq_true.mpr ⟨m, hm, beq_iff_eq.mpr hid⟩

omit [Platform] in
theorem Waiting.not_completes (hop : w.Proceeds worker job.accountId x job.target op) :
    w.completes job.target op = false := by
  have hproceeds := hop (h.owes hx)
  cases op with
  | outside db => rfl
  | work q op =>
    by_cases hq : q = worker
    · -- the worker has its batch, so it does not report a result
      have hbatch := h.own
      cases op with
      | finish newId reconciliationMinutes now =>
        simp only [completes, hq]
        split
        · rename_i hphase
          rw [hphase] at hbatch
          cases hbatch
        · rfl
      | _ => rfl
    · simpa only [if_neg hq] using hproceeds

end

theorem Waiting.step (h : Waiting worker job batch x w)
    (hids : (batch.notification.map (·.id)).Nodup) (hx : x ∈ batch.notification.map (·.id))
    (hshown : w.db.shows job.accountId x = true)
    (hop : w.Proceeds worker job.accountId x job.target op) :
    (Waiting worker job batch x (w.step op) ∧
        (w.step op).told job.accountId x = w.told job.accountId x) ∨
      (Quiet job.accountId x (w.step op) ∧
        (w.step op).told job.accountId x = w.told job.accountId x + 1) := by
  have howes := h.owes hx
  cases op with
  | outside db =>
    obtain ⟨db', hstep⟩ := step_outside w db
    rw [hstep]
    exact Or.inl ⟨⟨h.plans, h.own, h.others⟩, rfl⟩
  | work q op =>
    have hplans := plans_work h.plans q op
    have hother : ∀ r, r ≠ worker → r ≠ q →
        ((w.step (.work q op)).phase r).owes job.accountId x = false := by
      intro r hr hrq
      rw [phase_work_of_ne w hrq]
      exact h.others r hr
    have hphase : (w.step (.work q op)).phase q = (op.apply q w.db (w.phase q)).2 :=
      Function.update_self ..
    by_cases hq : q = worker
    · subst hq
      have hfails : op.fails w.db (w.phase q) = false := by simpa using hop howes
      rcases (op.apply_step q w.db _).proceeds h.own hfails with hkeeps | hnotifies
      · apply Or.inl
        constructor
        · exact ⟨hplans, hphase ▸ hkeeps, fun r hr => hother r hr hr⟩
        · have hsame : (op.apply q w.db (w.phase q)).1.createdEvents = w.db.createdEvents := by
            rcases (op.apply_step q w.db (w.phase q)).created with hsame | ⟨_, _, hnotifies⟩
            · exact hsame
            · rw [batch_of_notifies hnotifies] at hkeeps
              cases hkeeps
          rw [told_work, hsame, List.drop_length, List.countP_nil, Nat.add_zero]
      · apply Or.inr
        constructor
        · refine ⟨hplans, fun r => ?_⟩
          by_cases hr : r = q
          · rw [hr, hphase, ExecPhase.owes, batch_of_notifies hnotifies]
            rfl
          · exact hother r hr hr
        · obtain ⟨_, _, _, _, _, _, hrecord⟩ := hnotifies.step
          obtain ⟨added, hadded, hone⟩ := recordNotifications_shown hrecord hshown hids hx
          rw [told_work, hadded, List.drop_left, hone]
    · apply Or.inl
      constructor
      · constructor
        · exact hplans
        · rw [phase_work_of_ne w (Ne.symm hq)]
          exact h.own
        · intro r hr
          by_cases hrq : r = q
          · rw [hrq, hphase]
            exact owes_apply (h.plans q) (h.others q hq) hshown op
          · exact hother r hr hrq
      · rw [told_work, told_apply (h.others q hq), Nat.add_zero]

theorem Quiet.run (h : Quiet a x w)
    (hshown : Along Workers.step (fun u _ => u.db.shows a x = true) w ops) :
    (exec Workers.step w ops).told a x = w.told a x := by
  induction ops generalizing w with
  | nil => rfl
  | cons op ops ih =>
    obtain ⟨hquiet, htold⟩ := h.step hshown.1 op
    rw [exec_cons, ih hquiet hshown.2, htold]

/-- Whatever happens the message is told of at most once, and it has been told of when the
target is completed. -/
theorem Waiting.run (h : Waiting worker job batch x w)
    (hids : (batch.notification.map (·.id)).Nodup) (hx : x ∈ batch.notification.map (·.id))
    (hshown : Along Workers.step (fun u _ => u.db.shows job.accountId x = true) w ops)
    (hops : Along Workers.step (Proceeds worker job.accountId x job.target) w ops) :
    (exec Workers.step w ops).told job.accountId x ≤ w.told job.accountId x + 1 ∧
      (Sometime Workers.step (fun u op => u.completes job.target op = true) w ops →
        (exec Workers.step w ops).told job.accountId x = w.told job.accountId x + 1) := by
  induction ops generalizing w with
  | nil => exact ⟨Nat.le_succ _, fun h => h.elim⟩
  | cons op ops ih =>
    rw [exec_cons]
    rcases h.step hids hx hshown.1 hops.1 with ⟨hwaiting, htold⟩ | ⟨hquiet, htold⟩
    · obtain ⟨hbound, honce⟩ := ih hwaiting hshown.2 hops.2
      rw [htold] at hbound honce
      refine ⟨hbound, ?_⟩
      rintro (hcompletes | hlater)
      · rw [h.not_completes hx hops.1] at hcompletes
        cases hcompletes
      · exact honce hlater
    · rw [hquiet.run hshown.2, htold]
      exact ⟨le_rfl, fun _ => rfl⟩

theorem plans_run (db : Db) (ops : List WorkersOp) :
    ∀ q, ((exec step { db := db } ops).phase q).OwnPlan := by
  apply invariant_exec (fun w : Workers => ∀ q, (w.phase q).OwnPlan)
  · intro w op h
    cases op with
    | work worker op => exact plans_work h worker op
    | outside db =>
      obtain ⟨db', hstep⟩ := step_outside w db
      rw [hstep]
      exact h
  · exact fun _ => trivial

end Workers

open Workers in
/-- A worker commits a batch of an account that was synced before. If the new messages of the
batch have distinct ids and no other worker is to tell of `c`, and from then on, while the
worker is to tell of it, it does not fail and no other worker completes the target: then an
event tells of `c` at most once, and exactly once as soon as the target is completed. -/
theorem created_told_once (db : Db) (before ops : List WorkersOp) {w : Workers}
    (hw : w = exec step { db := db } before) {worker : String} {job : SyncJob} {owner : String}
    {plan : MailboxSyncPlan} (hphase : w.phase worker = .planned job owner plan true)
    {runIds : RunIds} {now : Time} {commit : MailboxSyncCommitResult} {db' : Db}
    (hcommit : commitMailboxSync w.db runIds plan now = .ok (commit, db')) {c : Message}
    (hc : c ∈ commit.createdMessages) (detail : String)
    (hids : ((newMessages w.db plan.incoming).map (·.id)).Nodup)
    (hothers : ∀ q, (w.phase q).owes job.accountId c.id = false)
    (hshown : Along step (fun u _ => u.db.shows job.accountId c.id = true)
      (w.step (.work worker (.commit runIds detail now))) ops)
    (hops : Along step (Proceeds worker job.accountId c.id job.target)
      (w.step (.work worker (.commit runIds detail now))) ops) :
    let u := exec step (w.step (.work worker (.commit runIds detail now))) ops
    u.told job.accountId c.id ≤ w.told job.accountId c.id + 1 ∧
      (Sometime step (fun u op => u.completes job.target op = true)
          (w.step (.work worker (.commit runIds detail now))) ops →
        u.told job.accountId c.id = w.told job.accountId c.id + 1) := by
  have hplans : ∀ q, (w.phase q).OwnPlan := by
    rw [hw]
    exact plans_run db before
  have hresult : (ExecOp.commit runIds detail now).apply worker w.db (w.phase worker) =
      (db', .draining job owner (some (syncedBatch plan true commit)) none) := by
    simp only [ExecOp.apply, hphase, hcommit]
    rfl
  have hwaiting : Waiting worker job (syncedBatch plan true commit) c.id
      (w.step (.work worker (.commit runIds detail now))) := by
    constructor
    · exact plans_work hplans worker _
    · simp [Workers.step, hresult]
    · intro q hq
      rw [phase_work_of_ne w hq]
      exact hothers q
  have htold : (w.step (.work worker (.commit runIds detail now))).told job.accountId c.id =
      w.told job.accountId c.id := by
    rw [told_work, told_apply (hothers worker), Nat.add_zero]
  have hnodup : ((syncedBatch plan true commit).notification.map (·.id)).Nodup := by
    obtain ⟨_, _, _, _, hprepare, _⟩ := commit_stages hcommit
    show (commit.createdMessages.map (·.id)).Nodup
    rw [prepareAll_created_ids hprepare]
    exact hids
  have hrun := hwaiting.run hnodup (List.mem_map_of_mem hc) hshown hops
  rw [htold] at hrun
  exact hrun

end

def ExecPhase.planning : ExecPhase → Option (SyncJob × String × MailboxSyncPlan × Bool)
  | .planned job owner plan synced => some (job, owner, plan, synced)
  | .idle | .claimed _ | .draining .. | .notifying .. | .finalizing .. => none

theorem planned_of_planning {phase : ExecPhase} {owner : String} {plan : MailboxSyncPlan}
    {synced : Bool} (h : phase.planning = some (job, owner, plan, synced)) :
    phase = .planned job owner plan synced := by
  cases phase with
  | planned => cases h; rfl
  | idle | claimed | draining | notifying | finalizing => cases h

def syncedOnceDb : Db :=
  { staleDb with
    accounts :=
      [{ id := "a1", userId := "u1", email := "a@x.test", createdAt := 0, lastSyncAt := some 0 }] }

def fetches (worker : String) (now : Time) : List WorkersOp :=
  [.work worker (.claim 60000 now), .work worker (.start now), .work worker (.fetch freshPlan)]

def commits (worker : String) (now : Time) : WorkersOp :=
  .work worker (.commit (fun _ _ _ => "r1") "" now)

def reports (worker : String) (now : Time) : List WorkersOp :=
  [.work worker .drained, .work worker (.notify [] "" now), .work worker (.finish "j2" 15 now)]

instance (worker accountId id : String) (target : String × String × String) (w : Workers)
    (op : WorkersOp) : Decidable (w.Proceeds worker accountId id target op) := by
  unfold Workers.Proceeds
  cases op <;> infer_instance

def inboxJob : SyncJob :=
  { id := "j1"
    accountId := "a1"
    mailbox := none
    mailboxRole := "inbox"
    reason := .manual
    status := .running
    priority := 0
    notBefore := 0
    createdAt := 0
    attempts := 1
    lockedBy := some "w1"
    lockedUntil := some 60000
    startedAt := some 0 }

open Workers in
/-- The execution goes on to its report, and the message is told of. -/
theorem created_told_once_reported :
    let _ := Platform.plain
    let w := exec step { db := syncedOnceDb } (fetches "w1" 0)
    let u := exec step (w.step (commits "w1" 0)) (reports "w1" 0)
    w.told "a1" "m1" = 0 ∧ u.told "a1" "m1" = 1 := by
  intro _ w u
  have htold : w.told "a1" "m1" = 0 := by decide +kernel
  have hphase : (w.phase "w1").planning = some (inboxJob, "u1", freshPlan, true) := by
    decide +kernel
  obtain ⟨⟨commit, db'⟩, hcommit, hcreated⟩ := exists_ok_of_any (show
    (commitMailboxSync w.db (fun _ _ _ => "r1") freshPlan 0).toOption.any
      (fun pair => pair.1.createdMessages.any (·.id == "m1")) = true by
    decide +kernel)
  obtain ⟨c, hc, hid⟩ := List.any_eq_true.mp hcreated
  have hothers : ∀ q, (w.phase q).owes "a1" "m1" = false := by
    intro q
    by_cases hq : q = "w1"
    · subst hq
      decide +kernel
    · simp only [w, fetches, exec_cons, exec_nil, phase_work_of_ne _ hq]
      rfl
  have hshown : Along step (fun u _ => u.db.shows "a1" "m1" = true) (w.step (commits "w1" 0))
      (reports "w1" 0) := by
    decide +kernel
  have hops : Along step (Proceeds "w1" "a1" "m1" inboxJob.target) (w.step (commits "w1" 0))
      (reports "w1" 0) := by
    decide +kernel
  have hcompletes : Sometime step (fun u op => u.completes inboxJob.target op = true)
      (w.step (commits "w1" 0)) (reports "w1" 0) := by
    refine Or.inr (Or.inr (Or.inl ?_))
    decide +kernel
  have honce := created_told_once syncedOnceDb (fetches "w1" 0) (reports "w1" 0) (w := w) rfl
    (planned_of_planning hphase) hcommit hc ""
  rw [beq_iff_eq.mp hid] at honce
  exact ⟨htold, ((honce (by decide +kernel) hothers hshown hops).2 hcompletes).trans
    (congrArg (· + 1) htold)⟩

open Workers in
/-- A worker commits a batch and stops; the retry after its lease finds the message in the cache
and completes the job. The message is cached and not muted, but no event tells of it. -/
theorem created_never_told :
    let _ := Platform.plain
    let w := exec step { db := syncedOnceDb } (fetches "w1" 0 ++ [commits "w1" 0])
    let retried := fetches "w2" (minutes 2) ++ [commits "w2" (minutes 2)] ++ reports "w2" (minutes 2)
    let u := exec step w (.work "w1" .stop :: retried)
    (w.phase "w1").owes "a1" "m1" = true ∧ u.db.shows "a1" "m1" = true ∧
      u.db.syncJobs.map (·.status) = [.succeeded] ∧ u.told "a1" "m1" = 0 := by
  decide +kernel

end IMail
