import IMail.Sync.JobExecution

/-!
# Events are write-only

No step of an execution reads `sync_events`. Two databases that agree on everything else
are changed alike, and give the same answers.
-/

namespace IMail

open Relational

def Db.setEvents (db : Db) (events : List SyncEvent) (sequence : ℕ) : Db :=
  { db with syncEvents := events, syncEventSequence := sequence }

def SameTables (db db' : Db) : Prop := ∃ events sequence, db' = db.setEvents events sequence

theorem SameTables.refl (db : Db) : SameTables db db := ⟨_, _, rfl⟩

theorem SameTables.trans {a b c : Db} (hab : SameTables a b) (hbc : SameTables b c) :
    SameTables a c := by
  obtain ⟨_, _, rfl⟩ := hab
  obtain ⟨events, sequence, rfl⟩ := hbc
  exact ⟨events, sequence, rfl⟩

theorem SameTables.symm {a b : Db} (h : SameTables a b) : SameTables b a := by
  obtain ⟨_, _, rfl⟩ := h
  exact ⟨a.syncEvents, a.syncEventSequence, rfl⟩

def SameResult {α : Type} (x y : α × Db) : Prop := x.1 = y.1 ∧ SameTables x.2 y.2

section

variable {db db' : Db}

variable (h : SameTables db db')
include h

theorem sameTables_upsertState (row : MailboxSyncState)
    (merge : MailboxSyncState → MailboxSyncState) :
    SameOutcome SameTables (db.upsertState row merge) (db'.upsertState row merge) := by
  obtain ⟨events, sequence, rfl⟩ := h
  unfold Db.upsertState
  exact rel_ite Iff.rfl (.ok ⟨_, _, rfl⟩) (.error _)

section

variable (job : SyncJob)

theorem sameTables_insertEvent (payload : SyncEventPayload) (now : Time) :
    SameOutcome SameTables (db.insertEvent job payload now) (db'.insertEvent job payload now) := by
  obtain ⟨events, sequence, rfl⟩ := h
  unfold Db.insertEvent
  exact rel_ite Iff.rfl (.ok ⟨_, _, rfl⟩) (.error _)

theorem sameTables_finishJob (finish : SyncJob → SyncJob) :
    SameOutcome SameTables (db.finishJob job finish) (db'.finishJob job finish) := by
  obtain ⟨events, sequence, rfl⟩ := h
  unfold Db.finishJob
  exact rel_ite Iff.rfl (.ok ⟨_, _, rfl⟩) (.error _)

theorem sameTables_insertJob : SameOutcome SameTables (db.insertJob job) (db'.insertJob job) := by
  obtain ⟨events, sequence, rfl⟩ := h
  unfold Db.insertJob
  exact rel_ite Iff.rfl (.error _) (.ok ⟨_, _, rfl⟩)

theorem sameTables_requireLease : requireLease db' job = requireLease db job := by
  obtain ⟨events, sequence, rfl⟩ := h
  rfl

theorem sameTables_markStarted (mailbox : String) (now : Time) :
    SameOutcome SameTables (markStarted db job mailbox now) (markStarted db' job mailbox now) := by
  unfold markStarted
  rw [sameTables_requireLease h]
  cases requireLease db job with
  | error e => exact .error e
  | ok rerun =>
    apply (sameTables_upsertState h _ _).bind
    intro a b hab
    exact sameTables_insertEvent hab _ _ _

end

theorem sameTables_complete (newId : String) (job : SyncJob)
    (result : SyncCompletion) (reconciliationMinutes : ℤ) (now : Time) :
    SameOutcome SameTables (complete db newId job result reconciliationMinutes now)
      (complete db' newId job result reconciliationMinutes now) := by
  unfold complete
  rw [sameTables_requireLease h]
  apply rel_ite Iff.rfl (.error _)
  cases requireLease db job with
  | error e => exact .error e
  | ok rerun =>
    apply (sameTables_finishJob h _ _).bind
    intro a b hab
    apply (sameTables_upsertState hab _ _).bind
    rintro c _ ⟨events, sequence, rfl⟩
    apply (sameTables_insertEvent ⟨events, sequence, rfl⟩ _ _ _).bind
    intro e f hef
    exact rel_ite Iff.rfl (sameTables_insertJob hef _) (.ok hef)

theorem sameTables_fail (job : SyncJob) (failure : SyncFailure) (now : Time) :
    SameOutcome SameTables (fail db job failure now) (fail db' job failure now) := by
  unfold fail
  apply (sameTables_finishJob h _ _).bind
  intro a b hab
  apply (sameTables_upsertState hab _ _).bind
  intro c d hcd
  apply (sameTables_insertEvent hcd _ _ _).bind
  rintro e _ ⟨events, sequence, rfl⟩
  exact .ok ⟨events, sequence, rfl⟩

theorem sameTables_cancel (job : SyncJob) (mailbox : String) (now : Time) :
    SameOutcome SameTables (cancel db job mailbox now) (cancel db' job mailbox now) := by
  unfold cancel
  apply (sameTables_finishJob h _ _).bind
  intro a b hab
  exact sameTables_upsertState hab _ _

theorem sameTables_renewLease (jobId workerId : String) (lease : ℕ) (now : Time) :
    SameOutcome SameResult (renewLease db jobId workerId lease now)
      (renewLease db' jobId workerId lease now) := by
  obtain ⟨events, sequence, rfl⟩ := h
  unfold renewLease
  exact rel_ite Iff.rfl (.error _) (.ok ⟨rfl, _, _, rfl⟩)

theorem sameTables_claimNext (workerId : String) (lease : ℕ) (now : Time) :
    SameOutcome SameResult (claimNext db workerId lease now)
      (claimNext db' workerId lease now) := by
  obtain ⟨events, sequence, rfl⟩ := h
  unfold claimNext
  apply rel_ite Iff.rfl (.error _)
  apply rel_ite Iff.rfl (.error _)
  dsimp only [Db.setEvents]
  split
  · exact .ok ⟨rfl, _, _, rfl⟩
  · exact .ok ⟨rfl, _, _, rfl⟩

end

section

variable {db db' : Db}

section

variable (h : SameTables db db') (accountId identity : String)
include h

theorem sameTables_applyMute (action : RuleAction) :
    SameTables (action.applyMute accountId identity db)
      (action.applyMute accountId identity db') := by
  obtain ⟨events, sequence, rfl⟩ := h
  cases action with
  | mute muted => exact ⟨events, sequence, rfl⟩
  | addLabel _ | removeLabel _ | markRead _ | flag _ | archive => exact ⟨events, sequence, rfl⟩

theorem sameTables_foldl_applyMute (actions : List RuleAction) :
    SameTables (actions.foldl (RuleAction.applyMute accountId identity) db)
      (actions.foldl (RuleAction.applyMute accountId identity) db') := by
  induction actions generalizing db db' with
  | nil => exact h
  | cons action actions ih => exact ih (sameTables_applyMute h _ _ action)

end

def SameMatch (x y : Message × ℕ × Db) : Prop :=
  x.1 = y.1 ∧ x.2.1 = y.2.1 ∧ SameTables x.2.2 y.2.2

section

variable (h : SameTables db db') (runIds : RunIds) (owner : String) (source : RuleRunSource)
  (now : Time)
include h

theorem sameTables_enqueueMatch (message : Message) (rule : MailRule) :
    SameMatch (enqueueMatch runIds owner source now message db rule)
      (enqueueMatch runIds owner source now message db' rule) := by
  have hmuted := fun d d' => @sameTables_foldl_applyMute d d'
  obtain ⟨events, sequence, rfl⟩ := h
  unfold enqueueMatch
  apply rel_ite Iff.rfl
  · exact ⟨rfl, rfl, events, sequence, rfl⟩
  · exact ⟨rfl, rfl, hmuted _ _ ⟨events, sequence, rfl⟩ _ _ _⟩

theorem sameTables_enqueueRuns (rules : List MailRule) (message : Message) :
    SameMatch (enqueueRuns runIds owner source now rules message db)
      (enqueueRuns runIds owner source now rules message db') := by
  induction rules generalizing message db db' with
  | nil => exact ⟨rfl, rfl, h⟩
  | cons rule rules ih =>
    obtain ⟨hmessage, hcount, htables⟩ :=
      sameTables_enqueueMatch h runIds owner source now message rule
    obtain ⟨hmessage', hcount', htables'⟩ := ih htables
      (enqueueMatch runIds owner source now message db rule).1
    simp only [enqueueRuns]
    rw [← hmessage, ← hcount]
    exact ⟨hmessage', by rw [hcount'], htables'⟩

end

theorem sameTables_markSeen (h : SameTables db db') (accountId identity : String) :
    SameResult (db.markSeen accountId identity) (db'.markSeen accountId identity) := by
  obtain ⟨events, sequence, rfl⟩ := h
  unfold Db.markSeen
  apply rel_ite Iff.rfl
  · exact ⟨rfl, events, sequence, rfl⟩
  · exact ⟨rfl, events, sequence, rfl⟩

theorem sameTables_claimRuleAction (h : SameTables db db') (owner account : String)
    (now later : Time) :
    SameOutcome SameResult (claimRuleAction db owner account now later)
      (claimRuleAction db' owner account now later) := by
  obtain ⟨events, sequence, rfl⟩ := h
  have hruns : (db.setEvents events sequence).recoverRuns owner account now =
      db.recoverRuns owner account now := rfl
  have hmessage : ∀ id, ruleMessage (db.setEvents events sequence) owner id =
      ruleMessage db owner id := fun _ => rfl
  unfold claimRuleAction
  rw [hruns]
  simp only [hmessage]
  apply rel_ite Iff.rfl (.error _)
  split
  · exact .ok ⟨rfl, _, _, rfl⟩
  · split
    · exact .error _
    · split
      · exact .ok ⟨rfl, _, _, rfl⟩
      · exact .ok ⟨rfl, _, _, rfl⟩

theorem sameTables_finishRuleAction (h : SameTables db db') (owner : String) (work : RuleWork)
    (result : Except String (Option RemoteMessageMoveResult)) (now later : Time) :
    SameOutcome SameTables (finishRuleAction db owner work result now later)
      (finishRuleAction db' owner work result now later) := by
  obtain ⟨events, sequence, rfl⟩ := h
  unfold finishRuleAction
  apply rel_ite Iff.rfl (.error _)
  cases result with
  | ok moved =>
    dsimp only
    cases work.action.finish moved with
    | error e => exact .error e
    | ok f => exact rel_ite Iff.rfl (.ok ⟨_, _, rfl⟩) (.error _)
  | error code => exact .ok ⟨_, _, rfl⟩

theorem sameTables_of_recordMessageCreated {accountId accountEmail : String} {now : Time}
    {messages : List Message} (h : recordMessageCreated accountId accountEmail now messages db =
      .ok db') : SameTables db db' := by
  induction messages generalizing db with
  | nil =>
    cases h
    exact .refl _
  | cons message messages ih =>
    unfold recordMessageCreated at h
    split_ifs at h
    · exact ih h
    · exact SameTables.trans ⟨_, _, rfl⟩ (ih h)

theorem sameTables_of_recordNotifications {job : SyncJob} {owner : String} {batch : SyncedBatch}
    {now : Time} (h : recordNotifications db job owner batch now = .ok db') :
    SameTables db db' := by
  unfold recordNotifications at h
  split at h
  · cases h
  · exact sameTables_of_recordMessageCreated h

variable (h : SameTables db db')
include h

theorem sameTables_recordMessageCreated (accountId accountEmail : String)
    (now : Time) (messages : List Message) :
    SameOutcome SameTables (recordMessageCreated accountId accountEmail now messages db)
      (recordMessageCreated accountId accountEmail now messages db') := by
  induction messages generalizing db db' with
  | nil => exact .ok h
  | cons message messages ih =>
    unfold recordMessageCreated
    have hmuted : isMuted db message ↔ isMuted db' message := by
      obtain ⟨events, sequence, rfl⟩ := h
      exact Iff.rfl
    have haccount : db.hasAccount accountId ↔ db'.hasAccount accountId := by
      obtain ⟨events, sequence, rfl⟩ := h
      exact Iff.rfl
    refine rel_ite Iff.rfl (.error _) (rel_ite hmuted (ih h) (rel_ite haccount (ih ?_) (.error _)))
    obtain ⟨events, sequence, rfl⟩ := h
    exact ⟨_, _, rfl⟩

theorem sameTables_recordNotifications (job : SyncJob) (owner : String)
    (batch : SyncedBatch) (now : Time) :
    SameOutcome SameTables (recordNotifications db job owner batch now)
      (recordNotifications db' job owner batch now) := by
  have haccounts : db'.accounts = db.accounts := by
    obtain ⟨events, sequence, rfl⟩ := h
    rfl
  have hmessage : ∀ id, ruleMessage db' owner id = ruleMessage db owner id := by
    obtain ⟨events, sequence, rfl⟩ := h
    exact fun _ => rfl
  unfold recordNotifications
  simp only [haccounts, hmessage]
  split
  · exact .error _
  · exact sameTables_recordMessageCreated h _ _ _ _

theorem sameTables_deleteMessages (p : Message → Bool) :
    SameTables (db.deleteMessages p) (db'.deleteMessages p) := by
  obtain ⟨events, sequence, rfl⟩ := h
  exact ⟨events, sequence, rfl⟩

theorem sameTables_removeStale (plan : MailboxSyncPlan) :
    SameTables (db.removeStale plan) (db'.removeStale plan) := by
  unfold Db.removeStale
  apply rel_ite Iff.rfl (sameTables_deleteMessages h _)
  generalize plan.removedUids = uids
  induction uids generalizing db db' with
  | nil => exact h
  | cons uid uids ih => exact ih (sameTables_deleteMessages h _)

theorem sameTables_upsertSyncMessage (message : Message) :
    SameOutcome SameTables (db.upsertSyncMessage message) (db'.upsertSyncMessage message) := by
  obtain ⟨events, sequence, rfl⟩ := h
  unfold Db.upsertSyncMessage
  refine rel_ite Iff.rfl (.error _) (rel_ite Iff.rfl (.ok ⟨events, sequence, rfl⟩)
    (rel_ite Iff.rfl (.ok ⟨events, sequence, rfl⟩) (.error _)))

theorem sameTables_storeAll (plan : MailboxSyncPlan) (messages : List Message) :
    SameOutcome SameTables (db.storeAll plan messages) (db'.storeAll plan messages) := by
  induction messages generalizing db db' with
  | nil => exact .ok h
  | cons message messages ih =>
    have hstore : SameOutcome SameTables (db.storeIncoming plan message)
        (db'.storeIncoming plan message) := by
      apply (sameTables_upsertSyncMessage (sameTables_deleteMessages h _) message).map
      rintro a _ ⟨events, sequence, rfl⟩
      split
      · exact ⟨events, sequence, rfl⟩
      · exact ⟨events, sequence, rfl⟩
    simp only [Db.storeAll]
    generalize db.storeIncoming plan message = r at hstore ⊢
    generalize db'.storeIncoming plan message = r' at hstore ⊢
    cases hstore with
    | error e => exact .error e
    | ok hab => exact ih hab

theorem sameTables_writePlan (plan : MailboxSyncPlan)
    (incoming : List Message) (completedAt : Time) :
    SameOutcome SameTables (db.writePlan plan incoming completedAt)
      (db'.writePlan plan incoming completedAt) := by
  apply (sameTables_storeAll (sameTables_removeStale h plan) plan incoming).map
  rintro a _ ⟨events, sequence, rfl⟩
  exact ⟨events, sequence, rfl⟩

end

section

variable [Platform] {db db' : Db}

section

variable (h : SameTables db db') (runIds : RunIds) (owner : String) (rules : List MailRule)
  (synced : Bool) (plan : MailboxSyncPlan) (now : Time)
include h

theorem sameTables_prepareIncoming (message : Message) :
    SameOutcome (fun x y => x.1 = y.1 ∧ x.2.1 = y.2.1 ∧ SameTables x.2.2 y.2.2)
      (prepareIncoming runIds owner rules synced plan now db message)
      (prepareIncoming runIds owner rules synced plan now db' message) := by
  have hprevious : previousRow db' message = previousRow db message := by
    obtain ⟨events, sequence, rfl⟩ := h
    rfl
  unfold prepareIncoming
  rw [hprevious]
  apply rel_ite Iff.rfl (.error _)
  split
  · exact .ok ⟨rfl, rfl, h⟩
  · obtain ⟨hunseen, htables⟩ := sameTables_markSeen h plan.accountId (messageIdentity message)
    dsimp only
    rw [← hunseen]
    apply rel_ite Iff.rfl
    · obtain ⟨hmessage, -, htables'⟩ := sameTables_enqueueRuns htables runIds owner .automatic now
        (matchingRules rules message) message
      exact .ok ⟨hmessage, rfl, htables'⟩
    · exact .ok ⟨rfl, rfl, htables⟩

theorem sameTables_prepareAll (messages : List Message) :
    SameOutcome (fun x y => x.1 = y.1 ∧ x.2.1 = y.2.1 ∧ SameTables x.2.2 y.2.2)
      (prepareAll runIds owner rules synced plan now messages db)
      (prepareAll runIds owner rules synced plan now messages db') := by
  induction messages generalizing db db' with
  | nil => exact .ok ⟨rfl, rfl, h⟩
  | cons message messages ih =>
    apply (sameTables_prepareIncoming h runIds owner rules synced plan now message).bind
    rintro ⟨first, created, a⟩ ⟨_, _, b⟩ ⟨rfl, rfl, hab⟩
    apply (ih hab).bind
    rintro ⟨rest, restCreated, c⟩ ⟨_, _, d⟩ ⟨rfl, rfl, hcd⟩
    exact .ok ⟨rfl, rfl, hcd⟩

end

theorem sameTables_commitMailboxSync (h : SameTables db db') (runIds : RunIds)
    (plan : MailboxSyncPlan) (completedAt : Time) :
    SameOutcome SameResult (commitMailboxSync db runIds plan completedAt)
      (commitMailboxSync db' runIds plan completedAt) := by
  have haccount : db'.account plan.accountId = db.account plan.accountId := by
    obtain ⟨events, sequence, rfl⟩ := h
    rfl
  have hsummaries : ∀ {a b : Db}, SameTables a b →
      syncMessageSummaries b plan.accountId = syncMessageSummaries a plan.accountId := by
    rintro a _ ⟨events, sequence, rfl⟩
    rfl
  have hrules : ∀ owner, loadRules db' owner = loadRules db owner := by
    obtain ⟨events, sequence, rfl⟩ := h
    exact fun _ => rfl
  have hsynced : previouslySynced db' plan.accountId plan.mailbox =
      previouslySynced db plan.accountId plan.mailbox := by
    obtain ⟨events, sequence, rfl⟩ := h
    rfl
  unfold commitMailboxSync
  rw [haccount, hsynced, hsummaries h]
  simp only [hrules]
  apply rel_ite Iff.rfl (.error _)
  split
  · exact .error _
  · apply (sameTables_prepareAll h _ _ _ _ _ _ _).bind
    rintro ⟨incoming, created, a⟩ ⟨_, _, b⟩ ⟨rfl, rfl, hab⟩
    apply (sameTables_writePlan hab plan incoming completedAt).bind
    intro c d hcd
    exact .ok ⟨by rw [hsummaries hcd], hcd⟩

end

end IMail
