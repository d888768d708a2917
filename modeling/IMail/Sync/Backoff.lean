import IMail.Sync.AuthSticky
import IMail.Sync.Executor

/-!
# Back-off after a failure

A failure is recorded under the row of the executor, which for a role is the placeholder
`@role:<role>`. The scan reads another row: the one of the real mailbox if there is one, and
the placeholder otherwise, and every completed job of the account removes the placeholders.
The retry delay is kept as long as every row that the scan may read for the target waits
for it, and no scan has read one of them before the failure and not yet acted on it.
-/

namespace IMail

open Relational Transition

def SyncJob.Canonical (j : SyncJob) : Prop := j.mailbox.isSome = true → j.mailboxRole = "custom"

theorem SyncJob.Canonical.of_place {i j : SyncJob} (hi : i.Canonical) (h : j.place = i.place) :
    j.Canonical := by
  simp only [SyncJob.place, Prod.mk.injEq] at h
  simpa [SyncJob.Canonical, h.2.1, h.2.2] using hi

/-- The calls as the runtime makes them: what it enqueues is canonical, and it completes jobs
that it was given. -/
def RuntimeCall (w : SyncWorld) : SyncOp → Prop
  | .enqueue _ input _ => input.mailbox.isSome = true → input.mailboxRole = "custom"
  | .complete _ job _ _ _ => job ∈ w.handles
  | _ => True

structure CanonicalInv (w : SyncWorld) : Prop extends HandleInv w where
  jobs : ∀ j ∈ w.db.syncJobs, j.Canonical

theorem CanonicalInv.handle {w : SyncWorld} (h : CanonicalInv w) {job : SyncJob}
    (hjob : job ∈ w.handles) : job.Canonical := by
  obtain ⟨j, hj, _, hplace⟩ := h.named job hjob
  exact (h.jobs j hj).of_place hplace.symm

section

variable [Platform]

theorem step_canonicalInv (w : SyncWorld) (op : SyncOp) (h : CanonicalInv w)
    (hop : op.single = true ∧ RuntimeCall w op) : CanonicalInv (w.step op) := by
  refine ⟨step_handleInv w op hop.1 h.toHandleInv, fun j' hj' => ?_⟩
  obtain ⟨j, hj, _, hplace, _⟩ := apply_origin w.db op hop.1 h.queue j' hj'
  refine SyncJob.Canonical.of_place ?_ hplace
  rcases hj with hinserts | hj
  · cases op with
    | enqueue newId input now =>
      obtain ⟨reason, rfl⟩ := hinserts
      exact hop.2
    | complete newId job result reconciliationMinutes now =>
      obtain ⟨rfl, _⟩ := hinserts
      have hjob : job ∈ w.handles := hop.2
      exact SyncJob.Canonical.of_place (h.handle hjob) rfl
    | applyMailRulePreview jobIds runIds owner token now =>
      obtain ⟨id, accountId, _, rfl⟩ := hinserts
      intro hsome
      cases hsome
    | retryMailRuleRun newId owner id now =>
      obtain ⟨accountId, _, rfl⟩ := hinserts
      intro hsome
      cases hsome
    | _ => exact hinserts.elim
  · exact h.jobs j hj

def ScanPhase.openTargets : ScanPhase → List SyncTarget
  | .targets _ rest _ => rest
  | .enqueue _ target _ rest _ => target :: rest
  | _ => []

def SchedulerScan.Canonical (scan : SchedulerScan) : Prop :=
  ∀ target ∈ scan.phase.openTargets, target.Canonical

theorem SchedulerScan.Canonical.advance {scan : SchedulerScan} (h : scan.Canonical)
    (newId : String) (db : Db) :
    SchedulerScan.Canonical { scan with phase := scan.advance newId db } := by
  intro target htarget
  obtain ⟨reason, now, phase⟩ := scan
  rcases phase with _ | (_ | ⟨account, left⟩) | ⟨account, left⟩ | ⟨account, policy, left⟩ |
    ⟨account, policy, left⟩ | ⟨account, _ | ⟨next, targets⟩, left⟩ |
    ⟨account, next, state, targets, left⟩ | (_ | ⟨accountId, left⟩) | _
  case auth =>
    simp only [SchedulerScan.advance] at htarget
    split_ifs at htarget
    · exact targetsForPolicy_canonical account policy target htarget
    · cases htarget
  all_goals
    simp only [SchedulerScan.advance] at htarget
    try split at htarget
    all_goals
      try split_ifs at htarget
      all_goals
        first
        | cases htarget; done
        | exact h target htarget
        | exact h target (List.mem_cons_of_mem _ htarget)

omit [Platform] in
theorem SchedulerScan.Canonical.start (reason : String) (now : Time) :
    (SchedulerScan.start reason now).Canonical := by
  unfold SchedulerScan.start
  intro target htarget
  split_ifs at htarget <;> cases htarget

omit [Platform] in
theorem SchedulerScan.Canonical.runtimeCall {scan : SchedulerScan} (h : scan.Canonical)
    {newId : String} {op : SyncOp} (hop : scan.transaction newId = some op) (w : SyncWorld) :
    RuntimeCall w op := by
  cases scanCall_of_transaction hop with
  | target hphase => exact (h _ (by rw [hphase]; exact List.mem_cons_self)).mp
  | rule hphase =>
    intro hsome
    cases hsome
  | ensure | resume | prune => trivial

def RuntimeStep (w : ScanWorld) : ScanStep → Prop
  | .call op => RuntimeCall w.toSyncWorld op
  | .start _ _ | .next _ _ => True

theorem canonicalInv_run {db : Db} (hdb : db.syncJobs = []) {steps : List ScanStep}
    (hsteps : Along ScanWorld.step RuntimeStep { db := db } steps) :
    CanonicalInv (ScanWorld.run { db := db } steps).toSyncWorld ∧
      ∀ scan ∈ (ScanWorld.run { db := db } steps).scans, scan.Canonical := by
  have hstart : CanonicalInv ⟨db, []⟩ :=
    { queue := by rw [hdb]; exact QueueInv.nil
      named := by simp
      jobs := by simp [hdb] }
  refine invariant_along (fun w : ScanWorld => CanonicalInv w.toSyncWorld ∧
    ∀ scan ∈ w.scans, scan.Canonical) ?_ ⟨hstart, by simp⟩ hsteps
  intro w step h hstep
  refine ScanWorld.step_keeps h ?_ (fun reason now _ => .start reason now)
    (fun k newId scan _ _ hscan => hscan.advance newId w.db)
  intro op hsingle htransaction
  refine step_canonicalInv w.toSyncWorld op h.1 ⟨hsingle, ?_⟩
  cases step with
  | call op' =>
    obtain ⟨_, rfl⟩ := transaction_call htransaction
    exact hstep
  | start => cases htransaction
  | next k newId =>
    obtain ⟨scan, hscan, hop⟩ := Option.bind_eq_some_iff.mp htransaction
    exact (h.2 scan (List.mem_of_getElem? hscan)).runtimeCall hop w.toSyncWorld

end

section Rows

variable {accountId : String} {target : SyncTarget} {states : List MailboxSyncState}

theorem RecordsFor.rows {job : SyncJob} {mailbox : String} {row : MailboxSyncState}
    {merge : MailboxSyncState → MailboxSyncState} (h : RecordsFor job mailbox row merge)
    (htarget : target.Canonical) (hjob : job.Canonical) (hplace : job.place ≠ target.place accountId)
    (hrow : ∃ s ∈ states, target.rowOf accountId s = true)
    (helse : job.accountId = accountId →
      ∀ s ∈ states, target.rowOf accountId s = true → s.mailbox ≠ mailbox)
    {s : MailboxSyncState} (hs : target.rowOf accountId s = true) :
    s ∈ upsertStates row merge states ↔ s ∈ states := by
  obtain ⟨r, hr, hrow⟩ := hrow
  have hrole : target.requestedMailbox = none → job.accountId = accountId →
      job.mailboxRole ≠ target.mailboxRole := by
    intro hnone haccount heq
    have hcustom : target.mailboxRole ≠ "custom" := by
      intro hcustom
      have := htarget.mpr hcustom
      simp [hnone] at this
    have hmailbox : job.mailbox = none := by
      by_contra hsome
      exact hcustom (heq ▸ hjob (Option.isSome_iff_ne_none.mpr hsome))
    exact hplace (by simp [SyncJob.place, SyncTarget.place, hnone, haccount, heq, hmailbox])
  have hother : ∀ s ∈ states, target.rowOf accountId s = true →
      sameMailbox row.accountId row.mailbox s = false := by
    intro s hs hrowOf
    by_contra hsame
    simp only [sameMailbox, h.account, h.mailbox_eq, Bool.not_eq_false, Bool.and_eq_true,
      beq_iff_eq] at hsame
    exact helse (hsame.1.symm.trans (SyncTarget.rowOf_account hrowOf)) s hs hrowOf hsame.2
  refine mem_upsertStates_class ?_ hother ?_ hs
  · by_contra hrowOf
    simp only [Bool.not_eq_false, SyncTarget.rowOf, forTarget, h.account, h.mailbox_eq, h.role,
      Bool.and_eq_true, beq_iff_eq] at hrowOf
    obtain ⟨haccount, hmatch⟩ := hrowOf
    cases hmailbox : target.requestedMailbox with
    | none =>
      simp only [hmailbox, beq_iff_eq] at hmatch
      exact hrole hmailbox haccount hmatch
    | some m =>
      simp only [hmailbox, beq_iff_eq] at hmatch
      have hm : r.mailbox = m := by
        simp only [SyncTarget.rowOf, forTarget, hmailbox, Bool.and_eq_true, beq_iff_eq] at hrow
        exact hrow.2
      exact helse haccount r hr hrow (hm.trans hmatch.symm)
  · intro old hold hsame
    by_contra hrowOf
    have hnot : target.rowOf accountId old = false := by
      by_contra hold'
      rw [hother old hold (by simpa using hold')] at hsame
      cases hsame
    simp only [sameMailbox, h.account, Bool.and_eq_true, beq_iff_eq] at hsame
    simp only [Bool.not_eq_false, SyncTarget.rowOf, forTarget, h.merge_account, h.merge_mailbox,
      Bool.and_eq_true, beq_iff_eq] at hrowOf
    simp only [SyncTarget.rowOf, forTarget, hrowOf.1, beq_self_eq_true, Bool.true_and] at hnot
    cases hmailbox : target.requestedMailbox with
    | none =>
      simp only [hmailbox, beq_iff_eq] at hrowOf hnot
      rcases h.merge_role old with hkeep | hset
      · rw [← hkeep, hrowOf.2] at hnot
        simp at hnot
      · exact hrole hmailbox (hsame.1.symm.trans hrowOf.1) (hset.symm.trans hrowOf.2)
    | some m =>
      simp only [hmailbox, beq_iff_eq] at hrowOf hnot
      rw [hrowOf.2] at hnot
      simp at hnot

end Rows

def Quiet (deadline : Time) (s : MailboxSyncState) : Prop :=
  s.connectionStatus ≠ .authRequired ∧
    (s.syncState = .paused ∨ ∃ next, s.nextSyncAt = some next ∧ deadline ≤ next)

variable {now : Time} {handle : SyncJob}

theorem Quiet.notDue {deadline : Time} {s : MailboxSyncState} (h : Quiet deadline s)
    (hnow : now < deadline) : notDue s now = true := by
  obtain ⟨_, hpaused | ⟨next, hnext, hle⟩⟩ := h
  · simp [IMail.notDue, hpaused]
  · have hlater : now < next := lt_of_lt_of_le hnow hle
    simp [IMail.notDue, hnext, hlater]

/-- No job of the target is active, and every row that the scan may read for it waits for the
deadline. -/
structure BackedOff (accountId : String) (target : SyncTarget) (deadline : Time)
    (w : SyncWorld) : Prop extends CanonicalInv w where
  idle : ∀ j ∈ w.db.syncJobs, j.activeKey ≠ some (target.key accountId)
  row : ∃ s ∈ w.db.mailboxSyncStates, target.rowOf accountId s = true
  quiet : ∀ s ∈ w.db.mailboxSyncStates, target.rowOf accountId s = true → Quiet deadline s

/-- What the job records is not filed under a row of the target, unless it is a job of the
target itself. -/
def Elsewhere (accountId : String) (target : SyncTarget) (db : Db) (job : SyncJob)
    (mailbox : String) : Prop :=
  job.place ≠ target.place accountId → job.accountId = accountId →
    ∀ s ∈ db.mailboxSyncStates, target.rowOf accountId s = true → s.mailbox ≠ mailbox

/-- The calls of workers, and enqueues for other targets: what other jobs of the account record
is under no row of the target, and they complete only while the target has a row that is not a
placeholder. -/
def RetryCall (accountId : String) (target : SyncTarget) (w : SyncWorld) : SyncOp → Prop
  | .ensurePolicy .. | .resumeAfterAuthorization .. | .pruneEvents .. => True
  | .claimNext .. | .renewLease .. | .commitMailboxSync .. => True
  | .enqueue _ input _ => (input.mailbox.isSome = true → input.mailboxRole = "custom") ∧
    input.target ≠ target.key accountId
  | .markStarted job mailbox _ => job ∈ w.handles ∧ Elsewhere accountId target w.db job mailbox
  | .fail job failure _ => job ∈ w.handles ∧ Elsewhere accountId target w.db job failure.mailbox
  | .cancel job mailbox _ => job ∈ w.handles ∧ Elsewhere accountId target w.db job mailbox
  | .complete _ job result _ _ =>
    job ∈ w.handles ∧ Elsewhere accountId target w.db job result.mailbox ∧
      (job.place ≠ target.place accountId → job.accountId = accountId →
        ∃ s ∈ w.db.mailboxSyncStates, target.rowOf accountId s = true ∧
          isPlaceholder s.mailbox = false)
  | _ => False

def inboxTarget : SyncTarget := ⟨"inbox", none⟩

def ScanPhase.decided : ScanPhase → List (String × SyncTarget)
  | .enqueue account target _ _ _ => [(account.id, target)]
  | .rules left => left.map fun accountId => (accountId, inboxTarget)
  | _ => []

def SchedulerScan.readsRules (scan : SchedulerScan) : Bool :=
  match scan.phase with
  | .ensure [] => true
  | _ => false

/-- The scans are made before the deadline, and when one reads the accounts with rule work, the
account is not among them if the target is the inbox. -/
def RetryStep (accountId : String) (target : SyncTarget) (deadline : Time) (w : ScanWorld) :
    ScanStep → Prop
  | .call op => RetryCall accountId target w.toSyncWorld op
  | .start _ now => now < deadline
  | .next k _ => ∀ scan ∈ w.scans[k]?, scan.readsRules = true → target = inboxTarget →
    accountId ∉ dueRuleAccounts w.db scan.now

instance (w : SyncWorld) : (op : SyncOp) → Decidable (RuntimeCall w op)
  | .enqueue .. => inferInstanceAs (Decidable (_ → _))
  | .complete .. => inferInstanceAs (Decidable (_ ∈ _))
  | .ensurePolicy .. | .updatePolicy .. | .resumeAfterAuthorization .. | .enqueueDueSyncs .. |
    .pruneEvents .. | .claimNext .. | .renewLease .. | .markStarted .. | .fail .. | .cancel .. |
    .commitMailboxSync .. | .applyMailRulePreview .. | .retryMailRuleRun .. =>
    inferInstanceAs (Decidable True)

instance (w : ScanWorld) : (step : ScanStep) → Decidable (RuntimeStep w step)
  | .call op => inferInstanceAs (Decidable (RuntimeCall w.toSyncWorld op))
  | .start .. | .next .. => inferInstanceAs (Decidable True)

instance (accountId : String) (target : SyncTarget) (db : Db) (job : SyncJob) (mailbox : String) :
    Decidable (Elsewhere accountId target db job mailbox) :=
  inferInstanceAs (Decidable (_ → _ → ∀ s ∈ db.mailboxSyncStates, _))

instance (accountId : String) (target : SyncTarget) (w : SyncWorld) :
    (op : SyncOp) → Decidable (RetryCall accountId target w op)
  | .ensurePolicy .. | .resumeAfterAuthorization .. | .pruneEvents .. | .claimNext .. |
    .renewLease .. | .commitMailboxSync .. => inferInstanceAs (Decidable True)
  | .enqueue .. => inferInstanceAs (Decidable ((_ → _) ∧ _ ≠ _))
  | .markStarted .. | .fail .. | .cancel .. =>
    inferInstanceAs (Decidable (_ ∈ _ ∧ Elsewhere _ _ _ _ _))
  | .complete .. => inferInstanceAs
    (Decidable (_ ∈ _ ∧ Elsewhere _ _ _ _ _ ∧ (_ → _ → ∃ s ∈ w.db.mailboxSyncStates, _ ∧ _)))
  | .updatePolicy .. | .enqueueDueSyncs .. | .applyMailRulePreview .. | .retryMailRuleRun .. =>
    inferInstanceAs (Decidable False)

instance (accountId : String) (target : SyncTarget) (deadline : Time) (w : ScanWorld) :
    (step : ScanStep) → Decidable (RetryStep accountId target deadline w step)
  | .call op => inferInstanceAs (Decidable (RetryCall accountId target w.toSyncWorld op))
  | .start .. => inferInstanceAs (Decidable (_ < _))
  | .next k _ => inferInstanceAs (Decidable (∀ scan ∈ w.scans[k]?, _ → _ → _ ∉ _))

section

variable {accountId : String} {target : SyncTarget} {deadline : Time} {w : SyncWorld}

variable {job : SyncJob} {op : SyncOp}

section

variable (h : BackedOff accountId target deadline w)
include h

theorem BackedOff.place_ne (hjob : job ∈ w.handles)
    (hheld : Held w.db job) : job.place ≠ target.place accountId := by
  intro hplace
  obtain ⟨row, hrow, hrun, _, hrowplace⟩ := hheld.active h.toHandleInv hjob
  apply h.idle row hrow
  have htarget : row.target = job.target := target_of_place hrowplace
  have hkey : job.target = target.key accountId := by
    simp only [SyncJob.place, SyncTarget.place, Prod.mk.injEq] at hplace
    simp only [SyncJob.target, SyncTarget.key, hplace.1, hplace.2.1, hplace.2.2]
  rw [activeKey_eq_some, hrun]
  exact ⟨rfl, htarget.trans hkey⟩

theorem BackedOff.selected :
    ∃ s, mailboxStateForTarget w.db accountId target.requestedMailbox target.mailboxRole = some s ∧
      Quiet deadline s := by
  cases hstate : mailboxStateForTarget w.db accountId target.requestedMailbox
      target.mailboxRole with
  | none =>
    obtain ⟨s, hs, hrow⟩ := h.row
    have hempty := firstBy_eq_none.mp hstate
    have hmem : s ∈ w.db.mailboxSyncStates.filter
        (forTarget accountId target.requestedMailbox target.mailboxRole) :=
      List.mem_filter.mpr ⟨hs, hrow⟩
    rw [hempty] at hmem
    cases hmem
  | some s =>
    have hmem := List.mem_filter.mp (firstBy_mem hstate)
    exact ⟨s, rfl, h.quiet s hmem.1 hmem.2⟩

theorem BackedOff.not_decided [Platform] {scan : SchedulerScan} (hnow : scan.now < deadline)
    (hrules : scan.readsRules = true → target = inboxTarget →
      accountId ∉ dueRuleAccounts w.db scan.now)
    (hopen : (accountId, target) ∉ scan.phase.decided) (newId : String) :
    (accountId, target) ∉ (scan.advance newId w.db).decided := by
  intro hdecided
  obtain ⟨reason, now, phase⟩ := scan
  rcases phase with _ | (_ | ⟨account, left⟩) | ⟨account, left⟩ | ⟨account, policy, left⟩ |
    ⟨account, policy, left⟩ | ⟨account, _ | ⟨next, targets⟩, left⟩ |
    ⟨account, next, state, targets, left⟩ | (_ | ⟨due, left⟩) | _
  case ensure.nil =>
    simp only [SchedulerScan.advance, ScanPhase.decided, List.mem_map, Prod.mk.injEq] at hdecided
    obtain ⟨a, ha, rfl, hinbox⟩ := hdecided
    exact hrules rfl hinbox.symm ha
  case targets.cons =>
    simp only [SchedulerScan.advance] at hdecided
    split_ifs at hdecided with hdue
    · cases hdecided
    · simp only [ScanPhase.decided, List.mem_singleton, Prod.mk.injEq] at hdecided
      obtain ⟨rfl, rfl⟩ := hdecided
      obtain ⟨s, hs, hquiet⟩ := h.selected
      rw [hs, Option.any_some, hquiet.notDue hnow] at hdue
      exact hdue rfl
  case rules.cons =>
    simp only [SchedulerScan.advance] at hdecided
    split at hdecided
    · cases hdecided
    · exact hopen (List.mem_cons_of_mem _ hdecided)
  all_goals
    simp only [SchedulerScan.advance] at hdecided
    try split at hdecided
    all_goals
      try split_ifs at hdecided
      all_goals cases hdecided

theorem BackedOff.step_idle [Platform] (hsingle : op.single = true)
    (hop : RetryCall accountId target w op) :
    ∀ j ∈ (op.apply w.db).syncJobs, j.activeKey ≠ some (target.key accountId) := by
  intro j' hj' hkey
  obtain ⟨hactive, hj'target⟩ := activeKey_eq_some.mp hkey
  obtain ⟨j, hj, _, hplace, hkept⟩ := apply_origin w.db op hsingle h.queue j' hj'
  have hjtarget : j.target = target.key accountId := (target_of_place hplace).symm.trans hj'target
  rcases hj with hinserts | hj
  · cases op with
    | enqueue newId input now =>
      obtain ⟨reason, rfl⟩ := hinserts
      exact hop.2 hjtarget
    | complete newId job result reconciliationMinutes now =>
      obtain ⟨rfl, hheld⟩ := hinserts
      obtain ⟨row, hrow, hrun, _, hrowplace⟩ := hheld.active h.toHandleInv hop.1
      apply h.idle row hrow
      rw [activeKey_eq_some, hrun]
      exact ⟨rfl, (target_of_place hrowplace).trans hjtarget⟩
    | applyMailRulePreview jobIds runIds owner token now | retryMailRuleRun newId owner id now =>
      exact hop.elim
    | _ => exact hinserts.elim
  · exact h.idle j hj (activeKey_eq_some.mpr ⟨hkept hactive, hjtarget⟩)

theorem BackedOff.rows_recorded (htarget : target.Canonical) {mailbox : String}
    {row : MailboxSyncState}
    {merge : MailboxSyncState → MailboxSyncState} (hrecords : RecordsFor job mailbox row merge)
    (hheld : Held w.db job) (hjob : job ∈ w.handles)
    (helse : Elsewhere accountId target w.db job mailbox) {s : MailboxSyncState}
    (hs : target.rowOf accountId s = true) :
    s ∈ upsertStates row merge w.db.mailboxSyncStates ↔ s ∈ w.db.mailboxSyncStates :=
  have hplace := h.place_ne hjob hheld
  hrecords.rows htarget (h.toCanonicalInv.handle hjob) hplace h.row (helse hplace) hs

theorem BackedOff.rows_same {states : List MailboxSyncState}
    (hsame : ∀ s, target.rowOf accountId s = true → (s ∈ states ↔ s ∈ w.db.mailboxSyncStates)) :
    (∃ s ∈ states, target.rowOf accountId s = true) ∧
      ∀ s ∈ states, target.rowOf accountId s = true → Quiet deadline s := by
  obtain ⟨r, hr, hrow⟩ := h.row
  exact ⟨⟨r, (hsame r hrow).mpr hr, hrow⟩, fun s hs hs' => h.quiet s ((hsame s hs').mp hs) hs'⟩

theorem BackedOff.step_rows [Platform] (htarget : target.Canonical) (hsingle : op.single = true)
    (hop : RetryCall accountId target w op) :
    (∃ s ∈ (op.apply w.db).mailboxSyncStates, target.rowOf accountId s = true) ∧
      ∀ s ∈ (op.apply w.db).mailboxSyncStates, target.rowOf accountId s = true →
        Quiet deadline s := by
  have hwrite := (apply_single w.db op hsingle).states
  generalize (op.apply w.db).mailboxSyncStates = states at hwrite
  generalize (op.apply w.db).syncPolicies = policies at hwrite
  cases hwrite with
  | same => exact ⟨h.row, h.quiet⟩
  | ensure missing account => exact ⟨h.row, h.quiet⟩
  | policy found => exact hop.elim
  | @resume resumed now =>
    apply h.rows_same
    intro s hs
    simp only [resumeAfterAuthorization, mem_updateWhere]
    constructor
    · rintro (⟨old, hold, hauth, rfl⟩ | ⟨hmem, _⟩)
      · have hquiet := h.quiet old hold hs
        simp [hquiet.1] at hauth
      · exact hmem
    · intro hmem
      have hquiet := h.quiet s hmem hs
      exact Or.inr ⟨hmem, by simp [hquiet.1]⟩
  | @start job mailbox now held =>
    obtain ⟨hjob, helse⟩ := hop
    exact h.rows_same fun s hs =>
      h.rows_recorded htarget (recordsFor_started job mailbox now) held hjob helse hs
  | @fail job failure now held =>
    obtain ⟨hjob, helse⟩ := hop
    exact h.rows_same fun s hs =>
      h.rows_recorded htarget (recordsFor_failed job failure now) held hjob helse hs
  | @cancel job mailbox now held =>
    obtain ⟨hjob, helse⟩ := hop
    exact h.rows_same fun s hs =>
      h.rows_recorded htarget (recordsFor_cancelled job mailbox) held hjob helse hs
  | @complete newId job result reconciliationMinutes now held =>
    obtain ⟨hjob, helse, hordinary⟩ := hop
    have hrows : ∀ s, target.rowOf accountId s = true → _ := fun s hs =>
      h.rows_recorded htarget (recordsFor_completed job result
        (now + minutes reconciliationMinutes) now) held hjob helse hs
    constructor
    · by_cases haccount : job.accountId = accountId
      · obtain ⟨s, hs, hrow, hname⟩ := hordinary (h.place_ne hjob held) haccount
        exact ⟨s, mem_deleteWhere.mpr ⟨(hrows s hrow).mpr hs, by simp [hname]⟩, hrow⟩
      · obtain ⟨s, hs, hrow⟩ := h.row
        have hother : s.accountId ≠ job.accountId := by
          rw [SyncTarget.rowOf_account hrow]
          exact Ne.symm haccount
        exact ⟨s, mem_deleteWhere.mpr ⟨(hrows s hrow).mpr hs, by simp [hother]⟩, hrow⟩
    · intro s hs hrow
      exact h.quiet s ((hrows s hrow).mp (mem_deleteWhere.mp hs).1) hrow

end

theorem step_backedOff [Platform] (htarget : target.Canonical) (w : SyncWorld) (op : SyncOp)
    (hsingle : op.single = true) (h : BackedOff accountId target deadline w)
    (hop : RetryCall accountId target w op) : BackedOff accountId target deadline (w.step op) := by
  have hruntime : RuntimeCall w op := by
    cases op with
    | enqueue newId input now => exact hop.1
    | complete newId job result reconciliationMinutes now => exact hop.1
    | _ => trivial
  obtain ⟨hrow, hquiet⟩ := h.step_rows htarget hsingle hop
  exact ⟨step_canonicalInv w op h.toCanonicalInv ⟨hsingle, hruntime⟩, h.step_idle hsingle hop, hrow,
    hquiet⟩

structure SchedulerScan.Passes (accountId : String) (target : SyncTarget) (deadline : Time)
    (scan : SchedulerScan) : Prop where
  canonical : scan.Canonical
  early : scan.now < deadline
  undecided : (accountId, target) ∉ scan.phase.decided

theorem SchedulerScan.Passes.retryCall {scan : SchedulerScan}
    (h : scan.Passes accountId target deadline) (htarget : target.Canonical) {newId : String}
    (hop : scan.transaction newId = some op) (w : SyncWorld) :
    RetryCall accountId target w op := by
  have hruntime := h.canonical.runtimeCall hop w
  cases scanCall_of_transaction hop with
  | @target account next _ _ _ hphase =>
    refine ⟨hruntime, fun hkey => h.undecided ?_⟩
    have hnext : next.Canonical :=
      h.canonical next (by rw [hphase]; exact List.mem_cons_self)
    obtain ⟨haccount, rfl⟩ := hnext.eq_of_key htarget (a := account.id) (b := accountId) hkey
    rw [hphase, ← haccount]
    exact List.mem_singleton_self _
  | @rule due left hphase =>
    refine ⟨hruntime, fun hkey => h.undecided ?_⟩
    have hinbox : inboxTarget.Canonical := by simp [SyncTarget.Canonical, inboxTarget]
    obtain ⟨haccount, rfl⟩ := hinbox.eq_of_key htarget (a := due) (b := accountId) hkey
    rw [hphase, ← haccount]
    exact List.mem_cons_self
  | ensure | resume | prune => trivial

theorem retryCall_of_transaction {w : ScanWorld} (htarget : target.Canonical)
    (hscans : ∀ scan ∈ w.scans, scan.Passes accountId target deadline) {step : ScanStep}
    (hstep : RetryStep accountId target deadline w step) (hop : w.transaction step = some op) :
    RetryCall accountId target w.toSyncWorld op := by
  cases step with
  | call op' =>
    obtain ⟨_, rfl⟩ := transaction_call hop
    exact hstep
  | start => cases hop
  | next k newId =>
    obtain ⟨scan, hscan, hop⟩ := Option.bind_eq_some_iff.mp hop
    exact (hscans scan (List.mem_of_getElem? hscan)).retryCall htarget hop w.toSyncWorld

theorem step_passes [Platform] (htarget : target.Canonical) (w : ScanWorld) (step : ScanStep)
    (h : BackedOff accountId target deadline w.toSyncWorld ∧
      ∀ scan ∈ w.scans, scan.Passes accountId target deadline)
    (hstep : RetryStep accountId target deadline w step) :
    BackedOff accountId target deadline (w.step step).toSyncWorld ∧
      ∀ scan ∈ (w.step step).scans, scan.Passes accountId target deadline := by
  refine ScanWorld.step_keeps h ?_ ?_ ?_
  · intro op hsingle hop
    exact step_backedOff htarget w.toSyncWorld op hsingle h.1
      (retryCall_of_transaction htarget h.2 hstep hop)
  · rintro reason now rfl
    refine ⟨.start reason now, hstep, ?_⟩
    unfold SchedulerScan.start
    split_ifs <;> simp [ScanPhase.decided]
  · rintro k newId scan rfl hscan hpasses
    exact ⟨hpasses.canonical.advance newId w.db, hpasses.early,
      h.1.not_decided hpasses.early (hstep scan hscan) hpasses.undecided newId⟩

end

theorem backedOff_of_fail [Platform] {w : SyncWorld} (hinv : CanonicalInv w) {accountId : String}
    {target : SyncTarget} (hhandle : handle ∈ w.handles)
    (hplace : handle.place = target.place accountId) {failure : SyncFailure} {deadline : Time}
    (hauth : failure.authRequired = false) (hnext : failure.nextSyncAt now = some deadline)
    (hrow : ∀ s ∈ w.db.mailboxSyncStates, sameMailbox accountId failure.mailbox s = true →
      target.rowOf accountId s = true)
    (hnew : target.rowOf accountId (failedRow handle failure now) = true)
    (hquiet : ∀ s ∈ w.db.mailboxSyncStates, target.rowOf accountId s = true →
      s.mailbox ≠ failure.mailbox → Quiet deadline s) {db' : Db}
    (hfail : fail w.db handle failure now = .ok db') :
    BackedOff accountId target deadline ⟨db', w.handles⟩ := by
  have haccount : handle.accountId = accountId := congrArg Prod.fst hplace
  have hstep : w.step (.fail handle failure now) = ⟨db', w.handles⟩ := by
    simp [SyncWorld.step, SyncOp.apply, SyncOp.issued, hfail]
  have hinv' : CanonicalInv ⟨db', w.handles⟩ :=
    hstep ▸ step_canonicalInv w (.fail handle failure now) hinv ⟨rfl, trivial⟩
  obtain ⟨hcount, events, sequence, rfl⟩ := fail_ok hfail
  obtain ⟨row, hmem, hrun, hid, hrowplace⟩ :=
    (held_of_countP hcount).active hinv.toHandleInv hhandle
  have hkey : row.activeKey = some (target.key accountId) := by
    rw [activeKey_eq_some, hrun]
    have hplace' : row.place = target.place accountId := hrowplace.trans hplace
    simp only [SyncJob.place, SyncTarget.place, Prod.mk.injEq] at hplace'
    simp [SyncJob.target, SyncTarget.key, hplace'.1, hplace'.2.1, hplace'.2.2, JobStatus.active]
  refine ⟨hinv', ?_, ?_, ?_⟩
  · -- the failed job was the only active one
    refine forall_updateWhere ?_ ?_
    · intro j hj hheld hjkey
      have heq : j = row := hinv.queue.targets.eq_of_mem hj hmem hjkey hkey
      obtain ⟨held, hheldmem, hheldrow⟩ := held_of_countP hcount
      have hheldid := (heldBy_running hheldrow).1
      have : held = row := hinv.queue.id_inj hheldmem hmem (hheldid.trans hid.symm)
      rw [heq, ← this, hheldrow] at hheld
      cases hheld
    · intro j _ _ hjkey
      have hactive := (activeKey_eq_some.mp hjkey).1
      rw [(endsJob_failJob failure now).inactive] at hactive
      cases hactive
  · rcases exists_mem_upsertStates (failedRow handle failure now) (failedMerge failure now)
        w.db.mailboxSyncStates with hmem' | ⟨old, hold, hsame, hmem'⟩
    · exact ⟨_, hmem', hnew⟩
    · refine ⟨_, hmem', ?_⟩
      exact hrow old hold (haccount ▸ hsame)
  · intro s hs hs'
    rcases mem_upsertStates hs with ⟨rfl, _⟩ | ⟨old, _, _, rfl⟩ | ⟨hold, hother⟩
    · exact ⟨by simp [failedRow, SyncFailure.connectionStatus, hauth],
        Or.inr ⟨deadline, hnext, le_rfl⟩⟩
    · exact ⟨by simp [failedMerge, SyncFailure.connectionStatus, hauth],
        Or.inr ⟨deadline, hnext, le_rfl⟩⟩
    · refine hquiet s hold hs' fun hname => ?_
      have hsame : sameMailbox handle.accountId failure.mailbox s = true := by
        simp [sameMailbox, hname, haccount, SyncTarget.rowOf_account hs']
      rw [show sameMailbox handle.accountId failure.mailbox s = false from hother] at hsame
      cases hsame

theorem executeFailure_retry [Platform] {detail : String} {m : ℤ}
    (h : (executeFailure handle detail).retryMinutes = some m) (now : Time) :
    (executeFailure handle detail).authRequired = false ∧
      (executeFailure handle detail).nextSyncAt now = some (now + minutes m) := by
  constructor
  · by_contra hauth
    have htrue : (classifySyncFailure detail).authRequired = true := Bool.not_eq_false _ ▸ hauth
    simp [executeFailure, htrue] at h
  · simp [SyncFailure.nextSyncAt, h]

/-- After a job of a target has failed, no scan before the end of its retry delay enqueues a
job for the target, if at the failure no scan has already decided to, every other row that the
scan may read for the target waits as long, and until then no other job of the account is
recorded under one of these rows or completes while the target has nothing but its
placeholder. -/
theorem backoff_respected [Platform] (db : Db) (hdb : db.syncJobs = []) (before : List ScanStep)
    (hbefore : Along ScanWorld.step RuntimeStep { db := db } before) (account : Account)
    (policy : SyncPolicy) (target : SyncTarget) (htarget : target ∈ targetsForPolicy account policy)
    (w : ScanWorld) (hw : w = ScanWorld.run { db := db } before) (handle : SyncJob)
    (hhandle : handle ∈ w.handles) (hplace : handle.place = target.place account.id)
    (detail : String) (t : Time) (m : ℤ) (hm : (executeFailure handle detail).retryMinutes = some m)
    (db₁ : Db) (hfail : fail w.db handle (executeFailure handle detail) t = .ok db₁)
    (hrow : ∀ s ∈ w.db.mailboxSyncStates,
      sameMailbox account.id (jobMailbox handle) s = true → target.rowOf account.id s = true)
    (hquiet : ∀ s ∈ w.db.mailboxSyncStates, target.rowOf account.id s = true →
      s.mailbox ≠ jobMailbox handle → Quiet (t + minutes m) s)
    (hscans : ∀ scan ∈ w.scans,
      scan.now < t + minutes m ∧ (account.id, target) ∉ scan.phase.decided)
    (after : List ScanStep)
    (hafter : Along ScanWorld.step (RetryStep account.id target (t + minutes m))
      { w with db := db₁ } after) :
    Along ScanWorld.step
      (fun w step => ∀ newId input now, w.transaction step = some (.enqueue newId input now) →
        input.target ≠ target.key account.id)
      { w with db := db₁ } after := by
  have hcanonical := targetsForPolicy_canonical account policy target htarget
  obtain ⟨hinv, hopen⟩ := canonicalInv_run hdb hbefore
  rw [← hw] at hinv hopen
  obtain ⟨hauth, hnext⟩ := executeFailure_retry hm t
  have hnew : target.rowOf account.id
      (failedRow handle (executeFailure handle detail) t) = true := by
    simp only [SyncJob.place, SyncTarget.place, Prod.mk.injEq] at hplace
    simp only [SyncTarget.rowOf, forTarget, failedRow, executeFailure, jobMailbox, targetMailbox,
      hplace.1, hplace.2.1, hplace.2.2, beq_self_eq_true, Bool.true_and]
    cases target.requestedMailbox <;> simp
  have hstart : BackedOff account.id target (t + minutes m) ⟨db₁, w.handles⟩ :=
    backedOff_of_fail hinv hhandle hplace hauth hnext hrow hnew hquiet hfail
  have hpasses : ∀ scan ∈ w.scans, scan.Passes account.id target (t + minutes m) :=
    fun scan hscan => ⟨hopen scan hscan, (hscans scan hscan).1, (hscans scan hscan).2⟩
  refine along_of_invariant (fun w : ScanWorld =>
    BackedOff account.id target (t + minutes m) w.toSyncWorld ∧
      ∀ scan ∈ w.scans, scan.Passes account.id target (t + minutes m))
    (fun w step => step_passes hcanonical w step) ?_ ⟨hstart, hpasses⟩ hafter
  intro w step h hstep newId input now hop
  exact (retryCall_of_transaction hcanonical h.2 hstep hop).2

/-- The handle for the inbox that a scan at `now` has enqueued. -/
def scannedHandle (id : String) (now : Time) : SyncJob :=
  claimJob "P" 10 now
    (enqueuedJob id (dueEnqueue "a" inboxTarget none "scheduled" now) .scheduled now)

def inboxRuns (steps : ℕ) : List ScanStep :=
  scanFor 10 0 "j" 0 ++ [.call (.claimNext "P" 10 0)] ++ scanFor steps 1 "k" 4

/-- The first job for the inbox fails. A scan that has read the accounts before goes on, and
another one is made within the minute: both pass over the inbox. -/
theorem backoff_respected_first :
    let _ := Platform.plain
    let w := ScanWorld.run { db := singleAccountDb } (inboxRuns 1)
    let after := List.replicate 8 (.next 1 "k") ++ scanFor 9 2 "l" 30005
    ∃ db₁, fail w.db (scannedHandle "j" 0)
        (executeFailure (scannedHandle "j" 0) "connection reset") 5 = .ok db₁ ∧
      Along ScanWorld.step
        (fun w step => ∀ newId input now, w.transaction step = some (.enqueue newId input now) →
          input.target ≠ ("a", "", "inbox"))
        { w with db := db₁ } after := by
  intro _ w after
  have hstates : w.db.mailboxSyncStates = [] := by decide +kernel
  have hafter : ∀ d ∈ (fail w.db (scannedHandle "j" 0)
      (executeFailure (scannedHandle "j" 0) "connection reset") 5).toOption,
      Along ScanWorld.step (RetryStep "a" inboxTarget (5 + minutes 1)) { w with db := d } after := by
    decide +kernel
  have hfails : ∃ db₁, fail w.db (scannedHandle "j" 0)
      (executeFailure (scannedHandle "j" 0) "connection reset") 5 = .ok db₁ :=
    exists_ok_of_isOk (by decide +kernel)
  obtain ⟨db₁, hfail⟩ := hfails
  refine ⟨db₁, hfail, ?_⟩
  exact backoff_respected singleAccountDb rfl (inboxRuns 1) (by decide +kernel)
    { id := "a", userId := "u", email := "", createdAt := 0 }
    { accountId := "a", enabled := true, folderMode := .inbox, selectedMailboxes := []
      notifyOnError := true, updatedAt := 0 } inboxTarget (by decide) w rfl
    (scannedHandle "j" 0) (by decide +kernel) rfl "connection reset" 5 1 (by decide +kernel) db₁
    hfail (by rw [hstates]; simp) (by rw [hstates]; simp) (by decide +kernel) after
    (hafter db₁ (by rw [hfail]; rfl))

def inboxSyncedBefore : List ScanStep :=
  scanFor 10 0 "j" 0 ++
    [.call (.claimNext "P" 10 0),
      .call (.complete "m" (scannedHandle "j" 0) { mailbox := "INBOX" } 5 6)] ++
    scanFor 10 1 "k" 300006 ++ [.call (.claimNext "P" 10 300006)]

/-- The targets of the jobs that wait after `steps`, if the job fails before them. -/
def queuedAfterFailure [Platform] (w : ScanWorld) (handle : SyncJob) (t : Time)
    (steps : List ScanStep) : Option (List (String × String × String)) :=
  (fail w.db handle (executeFailure handle "connection reset") t).toOption.map fun db₁ =>
    ((ScanWorld.run { w with db := db₁ } steps).db.syncJobs.filter (·.status = .queued)).map
      SyncJob.target

/-- Half a minute after the failure the scan enqueues the inbox again, although the retry delay
is one minute: it reads the row of `INBOX`, not the placeholder. So does a scan that has found
the inbox due before the failure. -/
theorem scan_ignores_placeholder :
    let _ := Platform.plain
    let w := ScanWorld.run { db := singleAccountDb } inboxSyncedBefore
    let w' := ScanWorld.run { db := singleAccountDb } (inboxRuns 6)
    (executeFailure (scannedHandle "k" 300006) "connection reset").retryMinutes = some 1 ∧
    scannedHandle "k" 300006 ∈ w.handles ∧
    queuedAfterFailure w (scannedHandle "k" 300006) 300010 (scanFor 7 2 "l" 330010) =
      some [("a", "", "inbox")] ∧
    (330010 : Time) < 300010 + minutes 1 ∧
    scannedHandle "j" 0 ∈ w'.handles ∧
    queuedAfterFailure w' (scannedHandle "j" 0) 5 [.next 1 "k"] = some [("a", "", "inbox")] := by
  intro _ w w'
  refine ⟨by decide +kernel, by decide +kernel, by decide +kernel, by decide, by decide +kernel,
    by decide +kernel⟩

end IMail
