import IMail.Store.Commit
import IMail.Store.SyncRuntimeSpec

/-!
# What rule storage and the mailbox commit leave alone

The rule tables are the only ones that recording rule work writes; a commit writes these,
the messages with their sources, and the row of its account. Neither touches the tables of
the sync runtime, apart from the wake-up of the queue by rule work.
-/

namespace IMail

open Relational

def RulesOnly (db db' : Db) : Prop :=
  ∃ runs sequence states, db' = { db with
    mailRuleRuns := runs
    mailRuleRunSequence := sequence
    ruleMessageStates := states }

theorem RulesOnly.refl (db : Db) : RulesOnly db db := ⟨_, _, _, rfl⟩

variable {a b c : Db} {messages incoming : List Message} {result : MailboxSyncCommitResult}

theorem RulesOnly.trans (hab : RulesOnly a b) (hbc : RulesOnly b c) : RulesOnly a c := by
  obtain ⟨_, _, _, rfl⟩ := hab
  obtain ⟨runs, sequence, states, rfl⟩ := hbc
  exact ⟨runs, sequence, states, rfl⟩

theorem rulesOnly_setMuted (db : Db) (accountId identity : String) (muted : Bool) :
    RulesOnly db (db.setMuted accountId identity muted) := ⟨_, _, _, rfl⟩

theorem rulesOnly_applyMute (accountId identity : String) (db : Db) (action : RuleAction) :
    RulesOnly db (action.applyMute accountId identity db) := by
  cases action with
  | mute muted => exact rulesOnly_setMuted db accountId identity muted
  | addLabel _ | removeLabel _ | markRead _ | flag _ | archive => exact RulesOnly.refl db

theorem rulesOnly_foldl_applyMute (accountId identity : String) (actions : List RuleAction)
    (db : Db) :
    RulesOnly db (actions.foldl (RuleAction.applyMute accountId identity) db) := by
  induction actions generalizing db with
  | nil => exact RulesOnly.refl db
  | cons action actions ih => exact (rulesOnly_applyMute _ _ db action).trans (ih _)

section

variable (runIds : RunIds) (owner : String) (source : RuleRunSource) (now : Time)

theorem rulesOnly_enqueueMatch (message : Message) (db : Db) (rule : MailRule) :
    RulesOnly db (enqueueMatch runIds owner source now message db rule).2.2 := by
  unfold enqueueMatch
  dsimp only
  split_ifs
  · exact RulesOnly.refl db
  · exact RulesOnly.trans ⟨_, _, _, rfl⟩ (rulesOnly_foldl_applyMute _ _ _ _)

theorem rulesOnly_enqueueRuns (rules : List MailRule) (message : Message) (db : Db) :
    RulesOnly db (enqueueRuns runIds owner source now rules message db).2.2 := by
  induction rules generalizing message db with
  | nil => exact RulesOnly.refl db
  | cons rule rules ih => exact (rulesOnly_enqueueMatch _ _ _ _ _ _ _).trans (ih _ _)

end

theorem rulesOnly_markSeen (db : Db) (accountId identity : String) :
    RulesOnly db (db.markSeen accountId identity).2 := by
  unfold Db.markSeen
  split_ifs
  · exact RulesOnly.refl db
  · exact ⟨_, _, _, rfl⟩

theorem enqueueRuns_message (runIds : RunIds) (owner : String) (source : RuleRunSource)
    (now : Time) (rules : List MailRule) (message : Message) (db : Db) :
    ∃ labels, (enqueueRuns runIds owner source now rules message db).1 =
      { message with labels := labels } := by
  induction rules generalizing message db with
  | nil => exact ⟨message.labels, rfl⟩
  | cons rule rules ih =>
    simp only [enqueueRuns]
    obtain ⟨labels, hlabels⟩ := ih (enqueueMatch runIds owner source now message db rule).1
      (enqueueMatch runIds owner source now message db rule).2.2
    rw [hlabels]
    unfold enqueueMatch
    dsimp only
    split_ifs
    · exact ⟨labels, rfl⟩
    · exact ⟨labels, rfl⟩

section

variable [Platform]

section

variable (runIds : RunIds) (owner : String) (rules : List MailRule) (message : Message)
  (source : RuleRunSource) (now : Time) (db : Db)

theorem rulesOnly_enqueueMatches :
    RulesOnly db (enqueueMatches runIds owner rules message source now db).2.2 :=
  rulesOnly_enqueueRuns _ _ _ _ _ _ _

theorem enqueueMatches_message :
    ∃ labels, (enqueueMatches runIds owner rules message source now db).1 =
      { message with labels := labels } :=
  enqueueRuns_message _ _ _ _ _ _ _

end

variable {runIds : RunIds} {owner : String} {rules : List MailRule} {synced : Bool}
  {plan : MailboxSyncPlan} {now : Time} {db db' : Db}

theorem prepareIncoming_ok {message message' : Message} {created : Bool}
    (h : prepareIncoming runIds owner rules synced plan now db message =
      .ok (message', created, db')) :
    message.accountId = plan.accountId ∧ message.mailbox = plan.mailbox ∧
      message.mailboxRole = plan.mailboxRole ∧
      (∃ labels snoozed, message' = { message with labels := labels, snoozedUntil := snoozed }) ∧
      RulesOnly db db' := by
  unfold prepareIncoming at h
  split_ifs at h with htarget
  simp only [not_or, not_not] at htarget
  refine ⟨htarget.1, htarget.2.1, htarget.2.2, ?_⟩
  split at h
  · cases h
    exact ⟨⟨_, _, rfl⟩, RulesOnly.refl db⟩
  · have hseen := rulesOnly_markSeen db plan.accountId (messageIdentity message)
    dsimp only at h
    split_ifs at h
    · cases h
      obtain ⟨labels, hlabels⟩ := enqueueMatches_message runIds owner rules message .automatic now
        (db.markSeen plan.accountId (messageIdentity message)).2
      exact ⟨⟨labels, _, hlabels⟩, hseen.trans (rulesOnly_enqueueMatches _ _ _ _ _ _ _)⟩
    · cases h
      exact ⟨⟨_, _, rfl⟩, hseen⟩

variable {messages incoming created : List Message}

@[elab_as_elim]
theorem prepareAll_induct {motive : List Message → List Message → List Message → Db → Db → Prop}
    (nil : ∀ db, motive [] [] [] db db)
    (cons : ∀ {m m' isNew messages incoming created db db₁ db'},
      prepareIncoming runIds owner rules synced plan now db m = .ok (m', isNew, db₁) →
      motive messages incoming created db₁ db' →
      motive (m :: messages) (m' :: incoming) (if isNew then m' :: created else created) db db')
    (h : prepareAll runIds owner rules synced plan now messages db = .ok (incoming, created, db')) :
    motive messages incoming created db db' := by
  induction messages generalizing incoming created db db' with
  | nil =>
    cases h
    exact nil db
  | cons message messages ih =>
    simp only [prepareAll, bind_eq_ok] at h
    obtain ⟨⟨message', isNew, db₁⟩, hone, ⟨rest, restCreated, db₂⟩, hrest, hlast⟩ := h
    cases hlast
    exact cons hone (ih hrest)

theorem prepareAll_ok
    (h : prepareAll runIds owner rules synced plan now messages db = .ok (incoming, created, db')) :
    List.Forall₂ (fun m m' => m.accountId = plan.accountId ∧ m.mailbox = plan.mailbox ∧
        m.mailboxRole = plan.mailboxRole ∧
        ∃ labels snoozed, m' = { m with labels := labels, snoozedUntil := snoozed })
      messages incoming ∧ RulesOnly db db' := by
  refine prepareAll_induct ?_ ?_ h
  · intro db
    exact ⟨.nil, RulesOnly.refl db⟩
  · intro message message' isNew messages incoming created db db₁ db' hone ih
    obtain ⟨haccount, hmailbox, hrole, hrow, honly⟩ := prepareIncoming_ok hone
    obtain ⟨hforall, honly'⟩ := ih
    exact ⟨.cons ⟨haccount, hmailbox, hrole, hrow⟩ hforall, honly.trans honly'⟩

end

def MessagesOnly (db db' : Db) : Prop :=
  ∃ messages sources, db' = { db with messages := messages, messageSources := sources }

theorem MessagesOnly.refl (db : Db) : MessagesOnly db db := ⟨_, _, rfl⟩

theorem MessagesOnly.trans (hab : MessagesOnly a b) (hbc : MessagesOnly b c) :
    MessagesOnly a c := by
  obtain ⟨_, _, rfl⟩ := hab
  obtain ⟨messages, sources, rfl⟩ := hbc
  exact ⟨messages, sources, rfl⟩

theorem messagesOnly_deleteMessages (db : Db) (p : Message → Bool) :
    MessagesOnly db (db.deleteMessages p) := ⟨_, _, rfl⟩

theorem messagesOnly_removeStale (db : Db) (plan : MailboxSyncPlan) :
    MessagesOnly db (db.removeStale plan) := by
  unfold Db.removeStale
  split_ifs
  · exact messagesOnly_deleteMessages db _
  · generalize plan.removedUids = uids
    induction uids generalizing db with
    | nil => exact MessagesOnly.refl db
    | cons uid uids ih => exact (messagesOnly_deleteMessages db _).trans (ih _)

variable {db db' : Db}

variable {message : Message}

theorem messagesOnly_upsertSyncMessage (h : db.upsertSyncMessage message = .ok db') :
    MessagesOnly db db' := by
  unfold Db.upsertSyncMessage at h
  dsimp only at h
  split_ifs at h
  · cases h
    exact ⟨_, _, rfl⟩
  · cases h
    exact ⟨_, _, rfl⟩

variable {plan : MailboxSyncPlan}

theorem messagesOnly_storeIncoming (h : db.storeIncoming plan message = .ok db') :
    MessagesOnly db db' := by
  obtain ⟨db₁, hup, rfl⟩ := map_eq_ok h
  have honly := (messagesOnly_deleteMessages db _).trans (messagesOnly_upsertSyncMessage hup)
  split
  · exact honly.trans ⟨_, _, rfl⟩
  · exact honly

theorem storeAll_cons (h : db.storeAll plan (message :: messages) = .ok db') :
    ∃ db₁, db.storeIncoming plan message = .ok db₁ ∧ db₁.storeAll plan messages = .ok db' := by
  simp only [Db.storeAll] at h
  split at h
  · cases h
  · rename_i db₁ hone
    exact ⟨db₁, hone, h⟩

theorem messagesOnly_storeAll (h : db.storeAll plan messages = .ok db') : MessagesOnly db db' := by
  induction messages generalizing db with
  | nil =>
    cases h
    exact MessagesOnly.refl _
  | cons message messages ih =>
    obtain ⟨db₁, hone, h⟩ := storeAll_cons h
    exact (messagesOnly_storeIncoming hone).trans (ih h)

variable {completedAt : Time}

theorem writePlan_ok (h : db.writePlan plan incoming completedAt = .ok db') :
    ∃ stored, (db.removeStale plan).storeAll plan incoming = .ok stored ∧
      db' = ((stored.applyFlags plan).evict plan.accountId).touchAccount plan completedAt := by
  obtain ⟨stored, hstore, rfl⟩ := map_eq_ok h
  exact ⟨stored, hstore, rfl⟩

theorem writePlan_frame (h : db.writePlan plan incoming completedAt = .ok db') :
    ∃ messages sources, db' = { db with
      messages := messages
      messageSources := sources
      accounts := updateWhere (fun a => a.id == plan.accountId)
        (committedAccount plan completedAt) db.accounts } := by
  obtain ⟨stored, hstore, rfl⟩ := writePlan_ok h
  obtain ⟨messages, sources, rfl⟩ :=
    (messagesOnly_removeStale db plan).trans (messagesOnly_storeAll hstore)
  exact ⟨_, _, rfl⟩

theorem commitMailboxSync_ok [Platform] {runIds : RunIds}
    (h : commitMailboxSync db runIds plan completedAt = .ok (result, db')) :
    ∃ account incoming prepared, db.account plan.accountId = some account ∧
      prepareAll runIds account.userId (loadRules db account.userId)
        (previouslySynced db plan.accountId plan.mailbox) plan completedAt plan.incoming db =
          .ok (incoming, result.createdMessages, prepared) ∧
      prepared.writePlan plan incoming completedAt = .ok db' ∧
      result.messageChanges = messageChanges (syncMessageSummaries db plan.accountId)
        (syncMessageSummaries db' plan.accountId) := by
  unfold commitMailboxSync at h
  split_ifs at h
  split at h
  · cases h
  · rename_i account haccount
    simp only [bind_eq_ok] at h
    obtain ⟨⟨incoming, created, prepared⟩, hprepare, written, hwrite, hlast⟩ := h
    cases hlast
    exact ⟨account, incoming, prepared, haccount, hprepare, hwrite, rfl⟩

theorem commitMailboxSync_frame [Platform] {runIds : RunIds}
    (h : commitMailboxSync db runIds plan completedAt = .ok (result, db')) :
    ∃ messages sources runs sequence states, db' = { db with
      messages := messages
      messageSources := sources
      accounts := updateWhere (fun a => a.id == plan.accountId)
        (committedAccount plan completedAt) db.accounts
      mailRuleRuns := runs
      mailRuleRunSequence := sequence
      ruleMessageStates := states } := by
  obtain ⟨account, incoming, prepared, _, hprepare, hwrite, _⟩ := commitMailboxSync_ok h
  obtain ⟨runs, sequence, states, rfl⟩ := (prepareAll_ok hprepare).2
  obtain ⟨messages, sources, rfl⟩ := writePlan_frame hwrite
  exact ⟨messages, sources, runs, sequence, states, rfl⟩

end IMail
