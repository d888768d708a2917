import Mathlib.Logic.Relation
import IMail.Rules.SeenMessages

/-!
# Where rule runs come from

Runs are inserted by `enqueue_matches` only: for an incoming message of a mailbox commit, or
for a message of a confirmed preview. Each one has the next sequence number, conflicts with no
row of the table, and belongs to one of the rules that were loaded.
-/

namespace IMail

open Relational Relation

/-- `mail_rule_runs` with its AUTOINCREMENT counter. -/
def Db.runRows (db : Db) : List MailRuleRun × ℕ := (db.mailRuleRuns, db.mailRuleRunSequence)

/-- One inserted row. -/
inductive RunInsert (origin : MailRuleRun → Prop) :
    List MailRuleRun × ℕ → List MailRuleRun × ℕ → Prop
  | mk {runs : List MailRuleRun} {n : ℕ} {run : MailRuleRun} (from_rule : origin run)
      (sequence_eq : run.sequence = n + 1) (free : ∀ r ∈ runs, run.conflicts r = false) :
      RunInsert origin (runs, n) (runs ++ [run], n + 1)

variable {P Q : MailRuleRun → Prop} {t t' : List MailRuleRun × ℕ}

theorem RunInsert.imp (h : ∀ run, P run → Q run) (hinsert : RunInsert P t t') :
    RunInsert Q t t' := by
  cases hinsert with
  | mk from_rule sequence_eq free => exact .mk (h _ from_rule) sequence_eq free

theorem runInserts_imp (h : ∀ run, P run → Q run) (hinserts : ReflTransGen (RunInsert P) t t') :
    ReflTransGen (RunInsert Q) t t' :=
  hinserts.lift id fun _ _ hinsert => hinsert.imp h

theorem mem_of_runInserts {rows rows' : List MailRuleRun × ℕ}
    (h : ReflTransGen (RunInsert P) rows rows') {r : MailRuleRun} (hr : r ∈ rows.1) :
    r ∈ rows'.1 := by
  induction h with
  | refl => exact hr
  | tail _ hinsert ih =>
    cases hinsert with
    | mk _ _ _ => exact List.mem_append_left _ ih

/-- A run of one of the rules for a message. -/
structure NewRun (owner : String) (rules : List MailRule) (message : Message)
    (source : RuleRunSource) (run : MailRuleRun) : Prop where
  rule : ∃ rule ∈ rules, run.ruleId = rule.id ∧ run.revision = rule.revision
  userId_eq : run.userId = owner
  accountId_eq : run.accountId = message.accountId
  identity_eq : run.identity = messageIdentity message
  source_eq : run.source = source
  waiting : run.status = .pending ∨ run.status = .succeeded
  untried : run.attempts = 0

variable {db : Db}

theorem newRun_newRuleRun {id owner : String} {rule : MailRule} {rules : List MailRule}
    {message : Message} {source : RuleRunSource} {now : Time} (hrule : rule ∈ rules) :
    NewRun owner rules message source (newRuleRun db id owner rule message source now) := by
  refine ⟨⟨rule, hrule, rfl, rfl⟩, rfl, rfl, rfl, rfl, ?_, rfl⟩
  unfold newRuleRun
  dsimp only
  split_ifs
  · exact Or.inr rfl
  · exact Or.inl rfl

@[simp] theorem runRows_applyMute (accountId identity : String) (db : Db) (action : RuleAction) :
    (action.applyMute accountId identity db).runRows = db.runRows := by
  cases action <;> rfl

@[simp] theorem runRows_foldl_applyMute (accountId identity : String) (actions : List RuleAction)
    (db : Db) :
    (actions.foldl (RuleAction.applyMute accountId identity) db).runRows = db.runRows := by
  induction actions generalizing db with
  | nil => rfl
  | cons action actions ih => rw [List.foldl_cons, ih, runRows_applyMute]

@[simp] theorem runRows_markSeen (db : Db) (accountId identity : String) :
    (db.markSeen accountId identity).2.runRows = db.runRows := by
  unfold Db.markSeen
  split_ifs <;> rfl

theorem runRows_writePlan {db' : Db} {plan : MailboxSyncPlan} {incoming : List Message}
    {completedAt : Time} (h : db.writePlan plan incoming completedAt = .ok db') :
    db'.runRows = db.runRows := by
  obtain ⟨messages, sources, rfl⟩ := writePlan_frame h
  rfl

theorem runRows_wakeForRules {db' : Db} {jobId accountId : String} {now : Time}
    (h : wakeForRules db jobId accountId now = .ok db') : db'.runRows = db.runRows := by
  obtain ⟨db₁, hinsert, rfl⟩ := map_eq_ok h
  rcases insertJobOrIgnore_ok hinsert with rfl | ⟨_, _, rfl⟩ <;> rfl

theorem retryMailRuleRun_runs {db' : Db} {newId owner id : String} {now : Time} {found : Bool}
    (h : retryMailRuleRun db newId owner id now = .ok (found, db')) :
    (found = false ∧ db' = db) ∨
      found = true ∧ (∃ run ∈ db.mailRuleRuns, run.id = id ∧ run.status = .failed) ∧
        db'.runRows = (updateWhere (fun r => r.id == id) (MailRuleRun.retried now) db.mailRuleRuns,
          db.mailRuleRunSequence) := by
  unfold retryMailRuleRun at h
  split at h
  · cases h
    exact Or.inl ⟨rfl, rfl⟩
  · rename_i run hfind
    dsimp only at h
    split at h
    · cases h
    · rename_i hwake
      cases h
      have hcols := List.find?_some hfind
      simp only [Bool.and_eq_true, beq_iff_eq, decide_eq_true_eq] at hcols
      exact Or.inr ⟨rfl, ⟨run, List.mem_of_find?_eq_some hfind, hcols.1.1.1, hcols.1.2⟩,
        runRows_wakeForRules hwake⟩

section

variable (runIds : RunIds) (owner : String) (source : RuleRunSource) (now : Time)

theorem enqueueMatch_inserts (message : Message) (db : Db) (rule : MailRule) :
    ReflTransGen (RunInsert (NewRun owner [rule] message source)) db.runRows
      (enqueueMatch runIds owner source now message db rule).2.2.runRows := by
  unfold enqueueMatch
  dsimp only
  split_ifs with hconflict
  · exact .refl
  · rw [runRows_foldl_applyMute]
    refine .single (.mk (newRun_newRuleRun List.mem_cons_self) rfl ?_)
    simpa using hconflict

theorem enqueueMatch_message (message : Message) (db : Db) (rule : MailRule) :
    (enqueueMatch runIds owner source now message db rule).1.accountId = message.accountId ∧
      messageIdentity (enqueueMatch runIds owner source now message db rule).1 =
        messageIdentity message := by
  unfold enqueueMatch
  dsimp only
  split_ifs
  · exact ⟨rfl, rfl⟩
  · exact ⟨rfl, rfl⟩

theorem enqueueRuns_inserts (rules : List MailRule) (message : Message) (db : Db) :
    ReflTransGen (RunInsert (NewRun owner rules message source)) db.runRows
      (enqueueRuns runIds owner source now rules message db).2.2.runRows := by
  induction rules generalizing message db with
  | nil => exact .refl
  | cons rule rules ih =>
    simp only [enqueueRuns]
    have hfirst := enqueueMatch_inserts runIds owner source now message db rule
    have hrest := ih (enqueueMatch runIds owner source now message db rule).1
      (enqueueMatch runIds owner source now message db rule).2.2
    obtain ⟨haccount, hidentity⟩ := enqueueMatch_message runIds owner source now message db rule
    refine (runInserts_imp ?_ hfirst).trans (runInserts_imp ?_ hrest)
    · intro run hrun
      obtain ⟨r, hr, hrule⟩ := hrun.rule
      rw [List.mem_singleton.mp hr] at hrule
      exact ⟨⟨rule, List.mem_cons_self, hrule⟩, hrun.userId_eq, hrun.accountId_eq,
        hrun.identity_eq, hrun.source_eq, hrun.waiting, hrun.untried⟩
    · intro run hrun
      obtain ⟨r, hr, hrule⟩ := hrun.rule
      exact ⟨⟨r, List.mem_cons_of_mem _ hr, hrule⟩, hrun.userId_eq,
        hrun.accountId_eq.trans haccount, hrun.identity_eq.trans hidentity, hrun.source_eq,
        hrun.waiting, hrun.untried⟩

end

section

variable [Platform]

variable {message : Message} {rules : List MailRule}

theorem collectMatches_subset : ∀ rule ∈ collectMatches message rules, rule ∈ rules := by
  induction rules with
  | nil => simp [collectMatches]
  | cons first rules ih =>
    intro rule hrule
    simp only [collectMatches] at hrule
    split_ifs at hrule
    · rw [List.mem_singleton.mp hrule]
      exact List.mem_cons_self
    · rcases List.mem_cons.mp hrule with rfl | hrule
      · exact List.mem_cons_self
      · exact List.mem_cons_of_mem _ (ih rule hrule)
    · exact List.mem_cons_of_mem _ (ih rule hrule)

theorem matchingRules_subset : ∀ rule ∈ matchingRules rules message, rule ∈ rules := by
  intro rule hrule
  have hsorted := collectMatches_subset rule hrule
  rw [List.mem_insertionSort] at hsorted
  exact List.mem_of_mem_filter hsorted

theorem enqueueMatches_inserts (runIds : RunIds) (owner : String) (rules : List MailRule)
    (message : Message) (source : RuleRunSource) (now : Time) (db : Db) :
    ReflTransGen (RunInsert (NewRun owner rules message source)) db.runRows
      (enqueueMatches runIds owner rules message source now db).2.2.runRows := by
  refine runInserts_imp ?_ (enqueueRuns_inserts runIds owner source now _ message db)
  intro run hrun
  obtain ⟨rule, hrule, hcols⟩ := hrun.rule
  exact ⟨⟨rule, matchingRules_subset rule hrule, hcols⟩, hrun.userId_eq, hrun.accountId_eq,
    hrun.identity_eq, hrun.source_eq, hrun.waiting, hrun.untried⟩

/-- A run for an incoming message: of an inbox that was synced before, with no cached row for
the message, and not recorded. -/
structure AutomaticRun (db : Db) (owner : String) (rules : List MailRule) (synced : Bool)
    (plan : MailboxSyncPlan) (message : Message) (run : MailRuleRun) : Prop where
  new_run : NewRun owner rules message .automatic run
  synced_eq : synced = true
  inbox : message.mailboxRole = "inbox"
  uncached : previousRow db message = none
  unseen : ¬ db.Seen plan.accountId (messageIdentity message)

variable {runIds : RunIds} {owner : String} {plan : MailboxSyncPlan} {now : Time} {db db' : Db}

variable {synced : Bool} {rule : MailRule}

theorem prepareIncoming_inserts {message' : Message} {created : Bool}
    (h : prepareIncoming runIds owner rules synced plan now db message =
      .ok (message', created, db')) :
    ReflTransGen (RunInsert (AutomaticRun db owner rules synced plan message)) db.runRows
      db'.runRows := by
  unfold prepareIncoming at h
  split_ifs at h
  split at h
  · cases h
    exact .refl
  · rename_i huncached
    dsimp only at h
    split_ifs at h with hrun
    · cases h
      simp only [Bool.and_eq_true, beq_iff_eq] at hrun
      have hunseen : ¬ db.Seen plan.accountId (messageIdentity message) := by
        intro hseen
        rw [markSeen_of_seen hseen] at hrun
        exact Bool.false_ne_true hrun.1.1
      have hinserts := enqueueMatches_inserts runIds owner rules message .automatic now
        (db.markSeen plan.accountId (messageIdentity message)).2
      rw [runRows_markSeen] at hinserts
      apply runInserts_imp _ hinserts
      intro run hnew
      exact ⟨hnew, hrun.1.2, hrun.2, huncached, hunseen⟩
    · cases h
      rw [runRows_markSeen]

theorem prepareAll_inserts {messages incoming created : List Message}
    (h : prepareAll runIds owner rules synced plan now messages db = .ok (incoming, created, db')) :
    ReflTransGen (RunInsert fun run => ∃ m ∈ messages, AutomaticRun db owner rules synced plan m run)
      db.runRows db'.runRows := by
  refine prepareAll_induct ?_ ?_ h
  · intro db
    exact .refl
  · intro message message' isNew messages incoming created db db₁ db' hone ih
    refine (runInserts_imp ?_ (prepareIncoming_inserts hone)).trans (runInserts_imp ?_ ih)
    · exact fun run hrun => ⟨message, List.mem_cons_self, hrun⟩
    · rintro run ⟨m, hm, hrun⟩
      have hsame := (prepareIncoming_ok hone).2.2.2.2.messages_eq
      refine ⟨m, List.mem_cons_of_mem _ hm, hrun.new_run, hrun.synced_eq, hrun.inbox, ?_, ?_⟩
      · rw [← previousRow_congr hsame]
        exact hrun.uncached
      · exact fun hseen => hrun.unseen ((prepareIncoming_seen hone).1 _ _ hseen)

theorem commitMailboxSync_inserts {completedAt : Time} {result : MailboxSyncCommitResult}
    (h : commitMailboxSync db runIds plan completedAt = .ok (result, db')) :
    ∃ account, db.account plan.accountId = some account ∧
      ReflTransGen (RunInsert fun run => ∃ m ∈ plan.incoming,
        AutomaticRun db account.userId (loadRules db account.userId)
          (previouslySynced db plan.accountId plan.mailbox) plan m run)
        db.runRows db'.runRows := by
  obtain ⟨account, incoming, prepared, haccount, hprepare, hwrite, _⟩ := commitMailboxSync_ok h
  refine ⟨account, haccount, ?_⟩
  rw [runRows_writePlan hwrite]
  exact prepareAll_inserts hprepare

variable {jobIds : RunIds} {count : ℕ}

theorem applyPreviewMessage_inserts {expected : PreviewMessage}
    (h : applyPreviewMessage jobIds runIds owner rule now expected db = .ok (count, db')) :
    ReflTransGen (RunInsert fun run => ∃ m, NewRun owner [rule] m .manual run)
      db.runRows db'.runRows := by
  unfold applyPreviewMessage at h
  split at h
  · cases h
  · rename_i message hmessage
    split at h
    · cases h
    · have hinserts := runInserts_imp
        (fun run hrun => (⟨message, hrun⟩ : ∃ m, NewRun owner [rule] m .manual run))
        (enqueueMatches_inserts runIds owner [rule] message .manual now db)
      dsimp only at h
      split at h
      · split at h
        · cases h
        · rename_i db₁ hwake
          cases h
          rwa [runRows_wakeForRules hwake]
      · cases h
        exact hinserts

theorem applyPreviewMessages_inserts {expected : List PreviewMessage}
    (h : applyPreviewMessages jobIds runIds owner rule now expected db = .ok (count, db')) :
    ReflTransGen (RunInsert fun run => ∃ m, NewRun owner [rule] m .manual run)
      db.runRows db'.runRows := by
  induction expected generalizing db count with
  | nil =>
    cases h
    exact .refl
  | cons first rest ih =>
    simp only [applyPreviewMessages] at h
    split at h
    · cases h
    · rename_i count₁ db₁ hfirst
      obtain ⟨⟨count₂, db₂⟩, hrest, heq⟩ := map_eq_ok h
      cases heq
      exact (applyPreviewMessage_inserts hfirst).trans (ih hrest)

theorem applyMailRulePreview_inserts {token : String}
    (h : applyMailRulePreview db jobIds runIds owner token now = .ok (count, db')) :
    ReflTransGen (RunInsert fun run => ∃ m, NewRun owner (loadRules db owner) m .manual run)
      db.runRows db'.runRows := by
  unfold applyMailRulePreview at h
  split at h
  · cases h
  · rename_i preview hpreview
    split at h
    · cases h
    · rename_i rule hrule
      obtain ⟨⟨total, db₁⟩, hall, heq⟩ := map_eq_ok h
      cases heq
      have hinserts := applyPreviewMessages_inserts hall
      refine runInserts_imp ?_ hinserts
      rintro run ⟨m, hrun⟩
      obtain ⟨r, hr, hcols⟩ := hrun.rule
      rw [List.mem_singleton.mp hr] at hcols
      exact ⟨m, ⟨rule, List.mem_of_find?_eq_some hrule, hcols⟩, hrun.userId_eq,
        hrun.accountId_eq, hrun.identity_eq, hrun.source_eq, hrun.waiting, hrun.untried⟩

end

end IMail
