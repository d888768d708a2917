import IMail.Sync.CacheRank
import IMail.Sync.Summaries

/-!
# The messages a commit reports as created

A commit lists the incoming messages without a cached row, with the labels that rules give
them, before it writes anything to `messages`. The list is right about the rows before the
commit. It is right about the rows after the commit exactly if the later stages keep what it
names: the removal of other copies of a Message-ID, the upsert, and the eviction beyond the
5000 newest rows all run after it.
-/

namespace IMail

open Relational

def labelsAfter (done : List MailRule) (labels : List String) : List String :=
  done.foldl (fun ls rule => rule.input.actions.foldl RuleAction.applyLabels ls) labels

/-- The automatic run of a rule for a message. -/
structure RunOf (owner : String) (message : Message) (rule : MailRule) (run : MailRuleRun) :
    Prop where
  userId_eq : run.userId = owner
  ruleId_eq : run.ruleId = rule.id
  revision_eq : run.revision = rule.revision
  automatic : run.source = .automatic
  accountId_eq : run.accountId = message.accountId
  messageId_eq : run.messageId = message.id

theorem runOf_relabelled {owner : String} {message : Message} {labels : List String}
    {rule : MailRule} {run : MailRuleRun} (h : RunOf owner { message with labels := labels } rule run) :
    RunOf owner message rule run :=
  ⟨h.userId_eq, h.ruleId_eq, h.revision_eq, h.automatic, h.accountId_eq, h.messageId_eq⟩

@[simp] theorem mailRuleRuns_foldl_applyMute (accountId identity : String)
    (actions : List RuleAction) (db : Db) :
    (actions.foldl (RuleAction.applyMute accountId identity) db).mailRuleRuns =
      db.mailRuleRuns :=
  congrArg Prod.fst (runRows_foldl_applyMute accountId identity actions db)

/-- The runs `own` for a message, one for each of the `rules` that took effect, in their order,
and the labels that these leave. A later rule has the last word on a label. -/
def Relabels (owner : String) (rules : List MailRule) (message : Message)
    (own : List MailRuleRun) (labels : List String) : Prop :=
  ∃ done, done.Sublist rules ∧ List.Forall₂ (RunOf owner message) done own ∧
    labels = labelsAfter done message.labels

theorem enqueueRuns_runs (runIds : RunIds) (owner : String) (now : Time) (rules : List MailRule)
    (message : Message) (db : Db) :
    ∃ inserted, (enqueueRuns runIds owner .automatic now rules message db).2.2.mailRuleRuns =
        db.mailRuleRuns ++ inserted ∧
      Relabels owner rules message inserted
        (enqueueRuns runIds owner .automatic now rules message db).1.labels := by
  induction rules generalizing message db with
  | nil => exact ⟨[], by simp [enqueueRuns], [], .slnil, .nil, rfl⟩
  | cons rule rules ih =>
    simp only [enqueueRuns]
    obtain ⟨inserted, hrows, done, hdone, hruns, hlabels⟩ :=
      ih (enqueueMatch runIds owner .automatic now message db rule).1
        (enqueueMatch runIds owner .automatic now message db rule).2.2
    rw [hrows, hlabels]
    by_cases hconflict : db.mailRuleRuns.any
        (newRuleRun db (runIds rule.id message.accountId (messageIdentity message)) owner rule
          message .automatic now).conflicts = true
    · have hnothing : enqueueMatch runIds owner .automatic now message db rule =
          (message, 0, db) := by
        simp [enqueueMatch, hconflict]
      rw [hnothing] at hruns ⊢
      exact ⟨inserted, rfl, done, hdone.cons _, hruns, rfl⟩
    · have hmessage : (enqueueMatch runIds owner .automatic now message db rule).1 =
          { message with
            labels := rule.input.actions.foldl RuleAction.applyLabels message.labels } := by
        simp [enqueueMatch, hconflict]
      have hinsert : (enqueueMatch runIds owner .automatic now message db rule).2.2.mailRuleRuns =
          db.mailRuleRuns ++ [newRuleRun db
            (runIds rule.id message.accountId (messageIdentity message)) owner rule message
            .automatic now] := by
        simp [enqueueMatch, hconflict]
      rw [hmessage] at hruns ⊢
      rw [hinsert, List.append_assoc]
      have hfirst : RunOf owner message rule (newRuleRun db
          (runIds rule.id message.accountId (messageIdentity message)) owner rule message
          .automatic now) := ⟨rfl, rfl, rfl, rfl, rfl, rfl⟩
      exact ⟨_, rfl, rule :: done, hdone.cons_cons _,
        .cons hfirst (hruns.imp fun _ _ => runOf_relabelled), rfl⟩

section

variable [Platform]

/-- A run of the batch: it belongs to a new message, which has the labels of the rules that ran
for it. -/
def RunOfNew (db : Db) (owner : String) (rules : List MailRule) (pairs : List (Message × Message))
    (inserted : List MailRuleRun) (run : MailRuleRun) : Prop :=
  ∃ pair ∈ pairs, previousRow db pair.1 = none ∧ ∃ own, run ∈ own ∧ own ⊆ inserted ∧
    Relabels owner (matchingRules rules pair.1) pair.1 own pair.2.labels

variable {runIds : RunIds} {owner : String} {rules : List MailRule} {synced : Bool}
  {plan : MailboxSyncPlan} {now : Time} {db db' : Db}

theorem prepareIncoming_runs {message message' : Message} {created : Bool}
    (h : prepareIncoming runIds owner rules synced plan now db message =
      .ok (message', created, db')) :
    ∃ inserted, db'.mailRuleRuns = db.mailRuleRuns ++ inserted ∧
      ∀ run ∈ inserted, RunOfNew db owner rules [(message, message')] inserted run := by
  unfold prepareIncoming at h
  split_ifs at h
  split at h
  · cases h
    exact ⟨[], by simp, by simp⟩
  · rename_i hnew
    have hseen : ∀ identity, (db.markSeen plan.accountId identity).2.mailRuleRuns =
        db.mailRuleRuns :=
      fun identity => congrArg Prod.fst (runRows_markSeen db plan.accountId identity)
    dsimp only at h
    split_ifs at h
    · cases h
      obtain ⟨inserted, hrows, hlabels⟩ := enqueueRuns_runs runIds owner now
        (matchingRules rules message) message
        (db.markSeen plan.accountId (messageIdentity message)).2
      rw [hseen] at hrows
      refine ⟨inserted, hrows, ?_⟩
      intro run hrun
      exact ⟨_, List.mem_cons_self, hnew, inserted, hrun, List.Subset.refl _, hlabels⟩
    · cases h
      exact ⟨[], by simp [hseen], by simp⟩

variable {messages created : List Message}

theorem prepareAll_runs {incoming : List Message}
    (h : prepareAll runIds owner rules synced plan now messages db = .ok (incoming, created, db')) :
    ∃ inserted, db'.mailRuleRuns = db.mailRuleRuns ++ inserted ∧
      ∀ run ∈ inserted, RunOfNew db owner rules (messages.zip incoming) inserted run := by
  refine prepareAll_induct ?_ ?_ h
  · intro db
    exact ⟨[], by simp, by simp⟩
  · intro message message' isNew messages incoming created db db₁ db' hone ih
    have hsame := (prepareIncoming_ok hone).2.2.2.2.messages_eq
    obtain ⟨first, hfirstRows, hfirst⟩ := prepareIncoming_runs hone
    obtain ⟨later, hlaterRows, hlater⟩ := ih
    refine ⟨first ++ later, by rw [hlaterRows, hfirstRows, List.append_assoc], ?_⟩
    intro run hrun
    rcases List.mem_append.mp hrun with hrun | hrun
    · obtain ⟨pair, hpair, hnew, own, hmem, hown, hlabels⟩ := hfirst run hrun
      rw [List.mem_singleton.mp hpair] at hnew hlabels
      exact ⟨_, List.mem_cons_self, hnew, own, hmem,
        List.subset_append_of_subset_left _ hown, hlabels⟩
    · obtain ⟨pair, hpair, hnew, own, hmem, hown, hlabels⟩ := hlater run hrun
      rw [previousRow_congr hsame] at hnew
      exact ⟨pair, List.mem_cons_of_mem _ hpair, hnew, own, hmem,
        List.subset_append_of_subset_right _ hown, hlabels⟩

def newMessages (db : Db) (messages : List Message) : List Message :=
  messages.filter fun m => (previousRow db m).isNone

theorem prepareAll_created_ids {incoming : List Message}
    (h : prepareAll runIds owner rules synced plan now messages db = .ok (incoming, created, db')) :
    created.map (·.id) = (newMessages db messages).map (·.id) := by
  refine prepareAll_induct ?_ ?_ h
  · intro db
    rfl
  · intro message message' isNew messages incoming created db db₁ db' hone ih
    obtain ⟨htakes, hnew⟩ := prepareIncoming_row hone
    have hsame := (prepareIncoming_ok hone).2.2.2.2.messages_eq
    unfold newMessages at ih ⊢
    simp only [previousRow_congr hsame] at ih
    cases isNew with
    | true => simp [← hnew, htakes.cols.1, ih]
    | false => simp [← hnew, ih]

end

variable {plan : MailboxSyncPlan} {incoming : List Message} {m : Message}

variable {messages : List Message}

section

variable [Platform]

/-- What a commit reports as created: distinct messages that had no row, each with its row and
its labels in the cache now; and every automatic run it inserted is for a cached message with
the labels of the rules that ran for it. -/
structure CreatedSound (db db' : Db) (plan : MailboxSyncPlan) (result : MailboxSyncCommitResult) :
    Prop where
  distinct : (result.createdMessages.map (·.id)).Nodup
  uncached : ∀ c ∈ result.createdMessages, ∀ row ∈ db.messages, row.accountId = plan.accountId →
    row.id ≠ c.id ∧ (c.messageId.isSome = true → row.messageId ≠ c.messageId)
  stored : ∀ c ∈ result.createdMessages, ∃ row ∈ db'.messages, row.accountId = plan.accountId ∧
    row.id = c.id ∧ row.messageId = c.messageId ∧ row.labels = c.labels
  runs : ∃ inserted, db'.mailRuleRuns = db.mailRuleRuns ++ inserted ∧ ∀ run ∈ inserted,
    ∃ row ∈ db'.messages, row.accountId = run.accountId ∧ row.id = run.messageId ∧
      ∃ m ∈ plan.incoming, ∃ own, run ∈ own ∧ own ⊆ inserted ∧
        Relabels run.userId (matchingRules (loadRules db run.userId) m) m own row.labels

/-- The new messages of the plan have ids of their own that no account uses yet, no later
message of the plan replaces one of them, and all are among the newest rows of the account. -/
structure NewKept (db : Db) (plan : MailboxSyncPlan) : Prop where
  ids : ((newMessages db plan.incoming).map (·.id)).Nodup
  unused : ∀ n ∈ newMessages db plan.incoming, ∀ row ∈ db.messages, row.id ≠ n.id
  last : ∀ n ∈ newMessages db plan.incoming, n ∈ survivors plan plan.incoming
  inCache : ∀ n ∈ newMessages db plan.incoming, AmongNewest db.messages plan n

variable {db prepared : Db} {plan : MailboxSyncPlan} {incoming : List Message}

variable {stored : Db} {s : Message}

omit [Platform] in
theorem mem_stored_of_unused (hforall : List.Forall₂ (Prepared plan) plan.incoming incoming)
    (hmessages : prepared.messages = db.messages)
    (hstore : (prepared.removeStale plan).storeAll plan incoming = .ok stored) {x : String}
    (hunused : ∀ row ∈ db.messages, row.id ≠ x) (hid : s.id = x) :
    s ∈ stored.messages ↔ s ∈ survivors plan incoming := by
  have hnone : ∀ row ∈ (prepared.removeStale plan).messages, row.id ≠ x := by
    intro row hrow
    apply hunused row
    rw [← hmessages]
    exact (removeStale_sublist prepared plan).subset hrow
  rw [mem_storeAll_of_id _ hstore hid]
  · constructor
    · rintro (hlast | ⟨hrow, _⟩)
      · exact hlast
      · exact absurd hid (hnone s hrow)
    · exact Or.inl
  · intro n hn _
    obtain ⟨m, hpair⟩ := exists_mem_zip_right hforall hn
    have haccount := ((List.forall₂_iff_zip.mp hforall).2 hpair).cols.2.1
    exact ⟨haccount, fun m hm hmid => absurd hmid (hnone m hm)⟩

theorem mem_created_iff {runIds : RunIds} {owner : String} {rules : List MailRule} {synced : Bool}
    {now : Time} {created : List Message}
    (h : prepareAll runIds owner rules synced plan now plan.incoming db =
      .ok (incoming, created, prepared))
    (c : Message) :
    c ∈ created ↔ ∃ n ∈ newMessages db plan.incoming, (n, c) ∈ plan.incoming.zip incoming := by
  rw [(prepareAll_rows h).2]
  constructor
  · rintro ⟨⟨n, n'⟩, hpair, hnew, rfl⟩
    exact ⟨n, List.mem_filter.mpr ⟨(List.of_mem_zip hpair).1, by simp [hnew]⟩, hpair⟩
  · rintro ⟨n, hn, hpair⟩
    exact ⟨(n, c), hpair, by simpa using (List.mem_filter.mp hn).2, rfl⟩

section

variable {db db' : Db} {runIds : RunIds} {plan : MailboxSyncPlan} {completedAt : Time}
  {result : MailboxSyncCommitResult}

variable {n c row : Message}

omit [Platform] in
theorem newMessages_congr (hm : m ∈ plan.incoming) (hn : n ∈ newMessages db plan.incoming)
    (hid : m.id = n.id) (haccount : m.accountId = n.accountId)
    (hmessageId : m.messageId = n.messageId) : m ∈ newMessages db plan.incoming := by
  apply List.mem_filter.mpr
  constructor
  · exact hm
  · have hnew := (List.mem_filter.mp hn).2
    unfold previousRow at hnew ⊢
    rw [hid, haccount, hmessageId]
    exact hnew

theorem created_stored (h : commitMailboxSync db runIds plan completedAt = .ok (result, db'))
    (hids : UniqueBy (fun m => some m.id) db.messages)
    (hkept : NewKept db plan) (hc : c ∈ result.createdMessages) :
    flagRow plan c ∈ db'.messages := by
  obtain ⟨account, incoming, prepared, stored, hprepare, hforall, _, hmessages, hstore, hbefore,
    hrows⟩ := commit_stages h
  obtain ⟨hlength, hcols⟩ := List.forall₂_iff_zip.mp hforall
  obtain ⟨n, hn, hpair⟩ := (mem_created_iff hprepare c).mp hc
  have hcid : c.id = n.id := (hcols hpair).cols.1
  have hcreated : (result.createdMessages.map (·.id)).Nodup := by
    rw [prepareAll_created_ids hprepare]
    exact hkept.ids
  have hzip : List.Forall₂ (fun m m' => (m, m') ∈ plan.incoming.zip incoming) plan.incoming
      incoming := List.forall₂_iff_zip.mpr ⟨hlength, id⟩
  have hsurvivors := survivors_prepared
    (fun m m' hm => hcols hm) hzip
  obtain ⟨n', hlast⟩ := exists_mem_zip_left hsurvivors (hkept.last n hn)
  have hpair' : (n, n') ∈ plan.incoming.zip incoming :=
    (List.forall₂_iff_zip.mp hsurvivors).2 hlast
  have hsame : n' = c := by
    apply List.inj_on_of_nodup_map hcreated ((mem_created_iff hprepare n').mpr ⟨n, hn, hpair'⟩) hc
    exact (hcols hpair').cols.1.trans hcid.symm
  subst hsame
  have hmem : n' ∈ stored.messages := by
    rw [mem_stored_of_unused hforall hmessages hstore (hkept.unused n hn) hcid]
    exact (List.of_mem_zip hlast).2
  have hrow : flagRow plan n' ∈ stored.messages.map (flagRow plan) := List.mem_map_of_mem hmem
  rw [hrows]
  apply mem_deleteWhere.mpr
  constructor
  · exact hrow
  · have hprepared := hcols hpair
    refine (outdated_eq_false_iff hids hforall hmessages hstore ?_).mpr
      ((hkept.inCache n hn).congr (hprepared.age.symm.trans (age_flagRow plan n').symm))
    rw [flagRow_accountId, hprepared.cols.2.1]

omit [Platform] in
theorem uncached_of_new (hforall : List.Forall₂ (Prepared plan) plan.incoming incoming)
    (hn : n ∈ newMessages db plan.incoming) (hrow : row ∈ db.messages)
    (haccount : row.accountId = plan.accountId) :
    row.id ≠ n.id ∧ (n.messageId.isSome = true → row.messageId ≠ n.messageId) := by
  obtain ⟨hn, hnew⟩ := List.mem_filter.mp hn
  obtain ⟨n', hpair⟩ := exists_mem_zip_left hforall hn
  have hprepared : Prepared plan n n' := (List.forall₂_iff_zip.mp hforall).2 hpair
  exact previousRow_eq_none.mp (by simpa using hnew) row hrow (haccount.trans hprepared.1.symm)

theorem created_uncached (h : commitMailboxSync db runIds plan completedAt = .ok (result, db'))
    (hc : c ∈ result.createdMessages) (hrow : row ∈ db.messages)
    (haccount : row.accountId = plan.accountId) :
    row.id ≠ c.id ∧ (c.messageId.isSome = true → row.messageId ≠ c.messageId) := by
  obtain ⟨_, _, _, _, hprepare, hforall, _⟩ := commit_stages h
  obtain ⟨n, hn, hpair⟩ := (mem_created_iff hprepare c).mp hc
  have hprepared : Prepared plan n c := (List.forall₂_iff_zip.mp hforall).2 hpair
  obtain ⟨hid, _, _, hmessageId⟩ := hprepared.cols
  rw [hid, hmessageId]
  exact uncached_of_new hforall hn hrow haccount

theorem CreatedSound.newKept (hids : UniqueBy (fun m => some m.id) db.messages)
    (h : commitMailboxSync db runIds plan completedAt = .ok (result, db'))
    (hsound : CreatedSound db db' plan result) : NewKept db plan := by
  obtain ⟨account, incoming, prepared, stored, hprepare, hforall, _, hmessages, hstore, hbefore,
    hrows⟩ := commit_stages h
  obtain ⟨hlength, hcols⟩ := List.forall₂_iff_zip.mp hforall
  have hrow : ∀ n ∈ newMessages db plan.incoming, ∃ s ∈ stored.messages,
      s.accountId = plan.accountId ∧ s.id = n.id ∧ s.messageId = n.messageId ∧
        flagRow plan s ∈ db'.messages := by
    intro n hn
    obtain ⟨c, hpair⟩ := exists_mem_zip_left hforall (List.mem_filter.mp hn).1
    obtain ⟨row, hrow, haccount, hid, hmessageId, _⟩ :=
      hsound.stored c ((mem_created_iff hprepare c).mpr ⟨n, hn, hpair⟩)
    have hmem := hrow
    rw [hrows] at hmem
    obtain ⟨s, hs, rfl⟩ := List.mem_map.mp (mem_deleteWhere.mp hmem).1
    rw [flagRow_accountId] at haccount
    rw [flagRow_id, (hcols hpair).cols.1] at hid
    rw [flagRow_messageId, (hcols hpair).cols.2.2.2] at hmessageId
    exact ⟨s, hs, haccount, hid, hmessageId, hrow⟩
  have hunique := storeAll_ids
    ((hmessages.symm ▸ hids).sublist (removeStale_sublist prepared plan)) hstore
  have hunused : ∀ n ∈ newMessages db plan.incoming, ∀ row ∈ db.messages, row.id ≠ n.id := by
    intro n hn row hmem hid
    obtain ⟨s, hs, haccount, hsid, _⟩ := hrow n hn
    have hown := own_of_stored hids hmessages hstore hs haccount row hmem (hid.trans hsid.symm)
    exact (uncached_of_new hforall hn hmem hown).1 hid
  have hnewIds : ((newMessages db plan.incoming).map (·.id)).Nodup := by
    rw [← prepareAll_created_ids hprepare]
    exact hsound.distinct
  have hstored : ∀ n ∈ newMessages db plan.incoming, n ∈ survivors plan plan.incoming ∧
      ∃ s, Prepared plan n s ∧ flagRow plan s ∈ db'.messages := by
    intro n hn
    obtain ⟨s, hs, _, hid, hmessageId, hkept⟩ := hrow n hn
    have hlast := (mem_stored_of_unused hforall hmessages hstore (hunused n hn) hid).mp hs
    obtain ⟨m, hpair⟩ := exists_mem_zip_right (survivors_prepared (fun _ _ hm => hm) hforall) hlast
    have hm : m ∈ survivors plan plan.incoming := (List.of_mem_zip hpair).1
    have hprepared := (List.forall₂_iff_zip.mp
      (survivors_prepared (fun _ _ hm => hm) hforall)).2 hpair
    obtain ⟨n', hn'⟩ := exists_mem_zip_left hforall (List.mem_filter.mp hn).1
    have hmid : m.id = n.id := hprepared.cols.1.symm.trans hid
    have hmnew : m ∈ newMessages db plan.incoming :=
      newMessages_congr (mem_of_mem_survivors hm) hn hmid
        (hprepared.1.trans (hcols hn').1.symm) (hprepared.cols.2.2.2.symm.trans hmessageId)
    obtain rfl := List.inj_on_of_nodup_map hnewIds hmnew hn hmid
    exact ⟨hm, s, hprepared, hkept⟩
  refine ⟨hnewIds, hunused, fun n hn => (hstored n hn).1, fun n hn => ?_⟩
  obtain ⟨-, s, hprepared, hkept⟩ := hstored n hn
  rw [hrows] at hkept
  refine ((outdated_eq_false_iff hids hforall hmessages hstore ?_).mp
    (mem_deleteWhere.mp hkept).2).congr ((age_flagRow plan s).trans hprepared.age)
  rw [flagRow_accountId, hprepared.cols.2.1]

theorem NewKept.createdSound (hids : UniqueBy (fun m => some m.id) db.messages)
    (hkept : NewKept db plan)
    (h : commitMailboxSync db runIds plan completedAt = .ok (result, db')) :
    CreatedSound db db' plan result := by
  obtain ⟨account, incoming, prepared, _, hprepare, hforall, hwrite, _⟩ := commit_stages h
  obtain ⟨-, hcols⟩ := List.forall₂_iff_zip.mp hforall
  have hcreated := mem_created_iff hprepare
  constructor
  · rw [prepareAll_created_ids hprepare]
    exact hkept.ids
  · intro c hc row hrow haccount
    exact created_uncached h hc hrow haccount
  · intro c hc
    obtain ⟨n, _, hpair⟩ := (hcreated c).mp hc
    exact ⟨_, created_stored h hids hkept hc, by rw [flagRow_accountId, (hcols hpair).cols.2.1],
      flagRow_id plan c, flagRow_messageId plan c, flagRow_labels plan c⟩
  · obtain ⟨inserted, hinserted, hruns⟩ := prepareAll_runs hprepare
    refine ⟨inserted, ?_, ?_⟩
    · rw [← hinserted]
      exact congrArg Prod.fst (runRows_writePlan hwrite)
    · intro run hrun
      obtain ⟨⟨n, n'⟩, hpair, hnew, own, hown, hsub, hlabels⟩ := hruns run hrun
      have hn : n ∈ plan.incoming := (List.of_mem_zip hpair).1
      have hc : n' ∈ result.createdMessages :=
        (hcreated n').mpr ⟨n, List.mem_filter.mpr ⟨hn, by simp [hnew]⟩, hpair⟩
      obtain ⟨hid, haccount, _⟩ := (hcols hpair).cols
      obtain ⟨rule, hrule⟩ : ∃ rule, RunOf account.userId n rule run := by
        obtain ⟨done, _, hforall', _⟩ := hlabels
        obtain ⟨rule, hrule⟩ := exists_mem_zip_right hforall' hown
        exact ⟨rule, (List.forall₂_iff_zip.mp hforall').2 hrule⟩
      refine ⟨_, created_stored h hids hkept hc, ?_, ?_, n, hn, own, hown, hsub, ?_⟩
      · rw [flagRow_accountId, haccount, hrule.accountId_eq, (hcols hpair).1]
      · rw [flagRow_id, hid, hrule.messageId_eq]
      · rw [flagRow_labels, hrule.userId_eq]
        exact hlabels

/-- The report about created messages is sound exactly if the plan's new messages have unused
ids of their own, replace none of each other and are among the newest of the account. -/
theorem created_sound_iff (hids : UniqueBy (fun m => some m.id) db.messages)
    (h : commitMailboxSync db runIds plan completedAt = .ok (result, db')) :
    CreatedSound db db' plan result ↔ NewKept db plan := by
  constructor
  · intro hsound
    exact hsound.newKept hids h
  · intro hkept
    exact hkept.createdSound hids h

end

end

def arrivalDb : Db where
  accounts := [{ id := "a", userId := "u", email := "a@example.org", createdAt := 0 }]
  mailboxSyncStates :=
    [{ accountId := "a", mailbox := "INBOX", mailboxRole := "inbox", lastSuccessAt := some 0 }]
  mailRules := [labelRule]

def arrivalPlan (incoming : List Message) : MailboxSyncPlan where
  accountId := "a"
  mailbox := "INBOX"
  mailboxRole := "inbox"
  incoming

/-- Two messages arrive and the rule labels both. -/
theorem created_sound_two :
    let _ := Platform.plain
    ∃ result db', commitMailboxSync arrivalDb (fun rule _ message => rule ++ message)
        (arrivalPlan [inboxMail "a:1" 1 "x", inboxMail "a:2" 2 "y"]) 0 = .ok (result, db') ∧
      result.createdMessages.map (·.labels) = [["new"], ["new"]] ∧
      CreatedSound arrivalDb db'
        (arrivalPlan [inboxMail "a:1" 1 "x", inboxMail "a:2" 2 "y"]) result := by
  intro _
  obtain ⟨⟨result, db'⟩, hcommit, hlabels⟩ := exists_ok_of_any (show
    (commitMailboxSync arrivalDb (fun rule _ message => rule ++ message)
      (arrivalPlan [inboxMail "a:1" 1 "x", inboxMail "a:2" 2 "y"]) 0).toOption.any (fun pair =>
        decide (pair.1.createdMessages.map (·.labels) = [["new"], ["new"]])) = true by
    decide +kernel)
  have hids : UniqueBy (fun m : Message => some m.id) arrivalDb.messages := List.Pairwise.nil
  refine ⟨result, db', hcommit, of_decide_eq_true hlabels, ?_⟩
  apply (created_sound_iff hids hcommit).mpr
  constructor
  · decide +kernel
  · intro n _ row hrow
    cases hrow
  · decide +kernel
  · decide +kernel

/-- Of two copies that arrive together the first is reported and labelled, and the rule has a
run for it; but its row is gone, and the row of the second has no label. -/
theorem created_copy_without_row :
    let _ := Platform.plain
    UniqueBy (fun m : Message => some m.id) arrivalDb.messages ∧
    ∃ result db', commitMailboxSync arrivalDb (fun rule _ message => rule ++ message)
        (arrivalPlan [inboxMail "a:1" 1 "x", inboxMail "a:2" 2 "x"]) 0 = .ok (result, db') ∧
      ¬ CreatedSound arrivalDb db'
        (arrivalPlan [inboxMail "a:1" 1 "x", inboxMail "a:2" 2 "x"]) result ∧
      result.createdMessages.map (fun c => (c.id, c.labels)) = [("a:1", ["new"]), ("a:2", [])] ∧
      db'.messages.map (fun r => (r.id, r.labels)) = [("a:2", [])] ∧
      db'.mailRuleRuns.map (·.messageId) = ["a:1"] := by
  intro _
  obtain ⟨⟨result, db'⟩, hcommit, hfacts⟩ := exists_ok_of_any (show
    (commitMailboxSync arrivalDb (fun rule _ message => rule ++ message)
      (arrivalPlan [inboxMail "a:1" 1 "x", inboxMail "a:2" 2 "x"]) 0).toOption.any (fun pair =>
        decide (pair.1.createdMessages.map (fun c => (c.id, c.labels)) =
            [("a:1", ["new"]), ("a:2", [])] ∧
          pair.2.messages.map (fun r => (r.id, r.labels)) = [("a:2", [])] ∧
          pair.2.mailRuleRuns.map (·.messageId) = ["a:1"])) = true by
    decide +kernel)
  obtain ⟨hcreated, hmessages, hruns⟩ := of_decide_eq_true hfacts
  refine ⟨List.Pairwise.nil, result, db', hcommit, ?_, hcreated, hmessages, hruns⟩
  intro hsound
  have hfirst : ("a:1", ["new"]) ∈ result.createdMessages.map (fun c => (c.id, c.labels)) := by
    rw [hcreated]
    exact List.mem_cons_self
  obtain ⟨c, hc, hcols⟩ := List.mem_map.mp hfirst
  obtain ⟨row, hrow, _, hid, _⟩ := hsound.stored c hc
  have hcid : c.id = "a:1" := congrArg Prod.fst hcols
  have hrowCols := List.mem_map_of_mem (f := fun r : Message => (r.id, r.labels)) hrow
  rw [hmessages, hid, hcid] at hrowCols
  simp at hrowCols

end IMail
