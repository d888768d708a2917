import IMail.Rules.NewRuns
import IMail.Store.RuleActions
import Mathlib.Data.List.Sort
import Mathlib.Data.Prod.Lex
import Mathlib.Data.String.Basic

/-!
# The order of rules

Which rules `matching_rules` lists for a message, and what `enqueue_matches` does with them: the
local actions of the rules whose runs are new are applied one after the other, while the rules
themselves are matched against the message as it was.
-/

namespace IMail

open Relational

section

variable [Platform] {message : Message} {rules : List MailRule} {r s : MailRule}

/-- What `sort_by` compares. -/
def MailRule.rank (rule : MailRule) : ℕ ×ₗ Time ×ₗ String :=
  toLex (rule.input.priority, toLex (rule.createdAt, rule.id))

omit [Platform] in
theorem ruleOrder_iff : ruleOrder r s ↔ r.rank ≤ s.rank := by
  rw [MailRule.rank, MailRule.rank, Prod.Lex.toLex_le_toLex, Prod.Lex.toLex_le_toLex]
  rfl

instance : Std.Total ruleOrder where
  total a b := by
    rw [ruleOrder_iff, ruleOrder_iff]
    exact le_total _ _

instance : IsTrans MailRule ruleOrder where
  trans a b c := by
    rw [ruleOrder_iff, ruleOrder_iff, ruleOrder_iff]
    exact le_trans

omit [Platform] in
theorem ruleOrder_antisymm (hids : (rules.map (·.id)).Nodup) (hr : r ∈ rules) (hs : s ∈ rules)
    (hrs : ruleOrder r s) (hsr : ruleOrder s r) : r = s := by
  have hrank : r.rank = s.rank := le_antisymm (ruleOrder_iff.mp hrs) (ruleOrder_iff.mp hsr)
  apply List.inj_on_of_nodup_map hids hr hs
  exact congrArg (fun k => (ofLex (ofLex k).2).2) hrank

theorem mem_collectMatches (hids : (rules.map (·.id)).Nodup) (hsorted : rules.Pairwise ruleOrder) :
    r ∈ collectMatches message rules ↔ r ∈ rules ∧ r.input.matchesMessage message = true ∧
      ∀ s ∈ rules, s.input.matchesMessage message = true → s.input.stopProcessing = true →
        ruleOrder r s := by
  induction rules with
  | nil => simp [collectMatches]
  | cons a rules ih =>
    obtain ⟨hfirst, hsorted⟩ := List.pairwise_cons.mp hsorted
    have hrest := ih (List.nodup_cons.mp hids).2 hsorted
    have hself : ruleOrder a a := ruleOrder_iff.mpr le_rfl
    rw [collectMatches]
    split_ifs with hmatch hstop
    · rw [List.mem_singleton]
      constructor
      · rintro rfl
        refine ⟨List.mem_cons_self, hmatch, fun s hs _ _ => ?_⟩
        rcases List.mem_cons.mp hs with rfl | hs
        · exact hself
        · exact hfirst s hs
      · rintro ⟨hr, _, hbefore⟩
        rcases List.mem_cons.mp hr with rfl | hmem
        · rfl
        · exact ruleOrder_antisymm hids hr List.mem_cons_self
            (hbefore a List.mem_cons_self hmatch hstop) (hfirst r hmem)
    · rw [List.mem_cons, hrest]
      constructor
      · rintro (rfl | ⟨hr, hmatchr, hbefore⟩)
        · refine ⟨List.mem_cons_self, hmatch, fun s hs _ _ => ?_⟩
          rcases List.mem_cons.mp hs with rfl | hs
          · exact hself
          · exact hfirst s hs
        · refine ⟨List.mem_cons_of_mem _ hr, hmatchr, fun s hs hmatchs hstops => ?_⟩
          rcases List.mem_cons.mp hs with rfl | hs
          · exact absurd hstops hstop
          · exact hbefore s hs hmatchs hstops
      · rintro ⟨hr, hmatchr, hbefore⟩
        rcases List.mem_cons.mp hr with rfl | hr
        · exact Or.inl rfl
        · exact Or.inr ⟨hr, hmatchr, fun s hs => hbefore s (List.mem_cons_of_mem _ hs)⟩
    · rw [hrest]
      constructor
      · rintro ⟨hr, hmatchr, hbefore⟩
        refine ⟨List.mem_cons_of_mem _ hr, hmatchr, fun s hs hmatchs hstops => ?_⟩
        rcases List.mem_cons.mp hs with rfl | hs
        · exact absurd hmatchs hmatch
        · exact hbefore s hs hmatchs hstops
      · rintro ⟨hr, hmatchr, hbefore⟩
        rcases List.mem_cons.mp hr with rfl | hr
        · exact absurd hmatchr hmatch
        · exact ⟨hr, hmatchr, fun s hs => hbefore s (List.mem_cons_of_mem _ hs)⟩

theorem collectMatches_sublist : (collectMatches message rules).Sublist rules := by
  induction rules with
  | nil => exact .slnil
  | cons a rules ih =>
    rw [collectMatches]
    split_ifs
    · exact List.singleton_sublist.mpr List.mem_cons_self
    · exact ih.cons_cons a
    · exact ih.cons a

theorem getLast?_collectMatches (hr : r ∈ collectMatches message rules)
    (hstop : r.input.stopProcessing = true) :
    (collectMatches message rules).getLast? = some r := by
  induction rules with
  | nil => cases hr
  | cons a rules ih =>
    rw [collectMatches] at *
    split_ifs at * with hmatch hstops
    · rw [List.mem_singleton.mp hr]
      rfl
    · rcases List.mem_cons.mp hr with rfl | hr
      · exact absurd hstop hstops
      · rw [List.getLast?_cons, ih hr]
        rfl
    · exact ih hr

def orderedRules (rules : List MailRule) : List MailRule :=
  (rules.filter (·.input.enabled)).insertionSort ruleOrder

omit [Platform]

theorem mem_orderedRules : r ∈ orderedRules rules ↔ r ∈ rules ∧ r.input.enabled = true := by
  rw [orderedRules, List.mem_insertionSort, List.mem_filter]

theorem nodup_orderedRules (hids : (rules.map (·.id)).Nodup) :
    ((orderedRules rules).map (·.id)).Nodup := by
  apply ((List.perm_insertionSort _ _).map _).nodup_iff.mpr
  exact hids.sublist (List.filter_sublist.map _)

theorem orderedRules_perm (hids : (rules.map (·.id)).Nodup) {rules' : List MailRule}
    (h : rules'.Perm rules) : orderedRules rules' = orderedRules rules := by
  have hperm : (orderedRules rules').Perm (orderedRules rules) :=
    (List.perm_insertionSort _ _).trans ((h.filter _).trans (List.perm_insertionSort _ _).symm)
  apply hperm.eq_of_pairwise
  · intro a b ha hb
    exact ruleOrder_antisymm (nodup_orderedRules hids) (hperm.mem_iff.mp ha) hb
  · exact List.pairwise_insertionSort _ _
  · exact List.pairwise_insertionSort _ _

end

/-- The ids of the runs are new, as those of `Uuid::new_v4` are. -/
structure FreshRunIds (runIds : RunIds) (rules : List MailRule) (message : Message) (db : Db) :
    Prop where
  unused : ∀ rule ∈ rules, ∀ run ∈ db.mailRuleRuns,
    run.id ≠ runIds rule.id message.accountId (messageIdentity message)
  distinct : ∀ r ∈ rules, ∀ s ∈ rules, r.id ≠ s.id →
    runIds r.id message.accountId (messageIdentity message) ≠
      runIds s.id message.accountId (messageIdentity message)

def RuleAction.muteAfter (muted : Bool) : RuleAction → Bool
  | .mute value => value
  | .addLabel _ | .removeLabel _ | .markRead _ | .flag _ | .archive => muted

def RuleAction.labelsAfter (labels : List String) : RuleAction → List String
  | .addLabel label => labels ++ [label].removeAll labels
  | .removeLabel label => labels.removeAll [label]
  | .mute _ | .markRead _ | .flag _ | .archive => labels

theorem RuleAction.applyLabels_eq : RuleAction.applyLabels = RuleAction.labelsAfter := by
  funext labels action
  cases action with
  | addLabel label => by_cases h : label ∈ labels <;> simp [applyLabels, labelsAfter, h, List.removeAll]
  | removeLabel label =>
    refine List.filter_congr fun x _ => ?_
    by_cases h : x = label <;> simp [h]
  | markRead | flag | mute | archive => rfl

/-- The rules that have no run for the message yet get one, and their local actions, in order,
decide the labels and whether the message is muted. -/
structure EnqueuesNew (owner : String) (rules : List MailRule) (message : Message) (db : Db)
    (result : Message × ℕ × Db) : Prop where
  runs : ∃ added, result.2.2.mailRuleRuns = db.mailRuleRuns ++ added ∧
    List.Forall₂ (fun rule run => run.userId = owner ∧ run.ruleId = rule.id ∧
        run.revision = rule.revision ∧ run.accountId = message.accountId ∧
        run.identity = messageIdentity message)
      (rules.filter fun rule => !db.hasRun owner rule message) added
  message_eq : result.1 = { message with
    labels := (rules.filter fun rule => !db.hasRun owner rule message).foldl
      (fun labels rule => rule.input.actions.foldl RuleAction.labelsAfter labels) message.labels }
  muted : isMuted result.2.2 message =
    (rules.filter fun rule => !db.hasRun owner rule message).foldl
      (fun muted rule => rule.input.actions.foldl RuleAction.muteAfter muted) (isMuted db message)

section

variable {runIds : RunIds} {owner : String} {message : Message} {db : Db} {rules : List MailRule}
  {source : RuleRunSource} {now : Time}

theorem find?_updateWhere_self {α : Type} {p : α → Bool} {f : α → α}
    (hf : ∀ row, p row = true → p (f row) = true) (rows : List α) :
    (updateWhere p f rows).find? p = (rows.find? p).map f := by
  induction rows with
  | nil => rfl
  | cons row rows ih =>
    rw [updateWhere, List.map_cons, ← updateWhere]
    by_cases hrow : p row = true
    · rw [if_pos hrow, List.find?_cons_of_pos (hf row hrow), List.find?_cons_of_pos hrow]
      rfl
    · rw [if_neg hrow, List.find?_cons_of_neg hrow, List.find?_cons_of_neg hrow, ih]

theorem isMuted_setMuted (db : Db) (message : Message) (muted : Bool) :
    isMuted (db.setMuted message.accountId (messageIdentity message) muted) message = muted := by
  simp only [isMuted, Db.setMuted]
  split_ifs with hany
  · rw [find?_updateWhere_self (by exact fun _ h => h)]
    cases hfound : db.ruleMessageStates.find? fun s =>
        s.accountId == message.accountId && s.identity == messageIdentity message with
    | none =>
      obtain ⟨s, hs, hsame⟩ := List.any_eq_true.mp hany
      exact absurd hsame (List.find?_eq_none.mp hfound s hs)
    | some s => rfl
  · have hnone : (db.ruleMessageStates.find? fun s =>
        s.accountId == message.accountId && s.identity == messageIdentity message) = none :=
      List.find?_eq_none.mpr fun s hs h => hany (List.any_eq_true.mpr ⟨s, hs, h⟩)
    rw [List.find?_append, hnone]
    simp

theorem isMuted_foldl_applyMute (message : Message) (actions : List RuleAction) (db : Db) :
    isMuted (actions.foldl (RuleAction.applyMute message.accountId (messageIdentity message)) db)
      message = actions.foldl RuleAction.muteAfter (isMuted db message) := by
  induction actions generalizing db with
  | nil => rfl
  | cons action actions ih =>
    rw [List.foldl_cons, List.foldl_cons, ih]
    cases action with
    | mute muted => rw [RuleAction.applyMute, isMuted_setMuted]; rfl
    | _ => rfl

theorem FreshRunIds.conflicts (h : FreshRunIds runIds rules message db) {rule : MailRule}
    (hrule : rule ∈ rules) :
    db.mailRuleRuns.any (newRuleRun db (runIds rule.id message.accountId (messageIdentity message))
      owner rule message source now).conflicts = db.hasRun owner rule message := by
  rw [Db.hasRun, Bool.eq_iff_iff, List.any_eq_true, List.any_eq_true]
  apply exists_congr
  intro run
  apply and_congr_right
  intro hrun
  simp only [MailRuleRun.conflicts, newRuleRun,
    beq_eq_false_iff_ne.mpr (h.unused rule hrule run hrun), Bool.false_or]

theorem enqueueRuns_new (hids : (rules.map (·.id)).Nodup)
    (hfresh : FreshRunIds runIds rules message db) :
    EnqueuesNew owner rules message db (enqueueRuns runIds owner source now rules message db) := by
  have hlabels := RuleAction.applyLabels_eq
  induction rules generalizing message db with
  | nil => exact ⟨⟨[], by simp [enqueueRuns], .nil⟩, rfl, rfl⟩
  | cons rule rules ih =>
    obtain ⟨hnew, hids⟩ := List.nodup_cons.mp hids
    have hconflict : db.mailRuleRuns.any (newRuleRun db
        (runIds rule.id message.accountId (messageIdentity message)) owner rule message source
        now).conflicts = db.hasRun owner rule message := hfresh.conflicts List.mem_cons_self
    rw [enqueueRuns]
    cases hrun : db.hasRun owner rule message with
    | true =>
      have hskip : enqueueMatch runIds owner source now message db rule = (message, 0, db) := by
        simp [enqueueMatch, hconflict, hrun]
      obtain ⟨hruns, hmessage, hmuted⟩ := ih hids
        ⟨fun r hr => hfresh.unused r (List.mem_cons_of_mem _ hr), fun r hr s hs =>
          hfresh.distinct r (List.mem_cons_of_mem _ hr) s (List.mem_cons_of_mem _ hs)⟩
      have hfilter : (rule :: rules).filter (fun r => !db.hasRun owner r message) =
          rules.filter fun r => !db.hasRun owner r message := by
        simp [hrun]
      rw [hskip]
      constructor
      · rwa [hfilter]
      · rwa [hfilter]
      · rwa [hfilter]
    | false =>
      obtain ⟨run, hown, hid, relabelled, db₂, hstep, hruns₂, hmessage₁, hmuted₂⟩ :
          ∃ run, (run.userId = owner ∧ run.ruleId = rule.id ∧ run.revision = rule.revision ∧
              run.accountId = message.accountId ∧ run.identity = messageIdentity message) ∧
            run.id = runIds rule.id message.accountId (messageIdentity message) ∧
            ∃ relabelled db₂, enqueueMatch runIds owner source now message db rule =
              (relabelled, 1, db₂) ∧ db₂.mailRuleRuns = db.mailRuleRuns ++ [run] ∧
              relabelled = { message with
                labels := rule.input.actions.foldl RuleAction.labelsAfter message.labels } ∧
              isMuted db₂ message =
                rule.input.actions.foldl RuleAction.muteAfter (isMuted db message) := by
        refine ⟨newRuleRun db (runIds rule.id message.accountId (messageIdentity message)) owner rule
          message source now, ⟨rfl, rfl, rfl, rfl, rfl⟩, rfl, _, _,
          by simp only [enqueueMatch, hconflict, hrun]; rfl, ?_, by rw [hlabels], ?_⟩
        · exact congrArg Prod.fst (runRows_foldl_applyMute _ _ _ _)
        · exact isMuted_foldl_applyMute _ _ _
      subst hmessage₁
      have hother : ∀ s ∈ rules, run.ruleId ≠ s.id := by
        intro s hs heq
        exact hnew (List.mem_map.mpr ⟨s, hs, heq.symm.trans hown.2.1⟩)
      have hfresh₂ : FreshRunIds runIds rules { message with
          labels := rule.input.actions.foldl RuleAction.labelsAfter message.labels } db₂ := by
        constructor
        · intro s hs r hr
          rw [hruns₂] at hr
          rcases List.mem_append.mp hr with hr | hr
          · exact hfresh.unused s (List.mem_cons_of_mem _ hs) r hr
          · rw [List.mem_singleton.mp hr, hid]
            exact hfresh.distinct rule List.mem_cons_self s (List.mem_cons_of_mem _ hs)
              fun heq => hother s hs (hown.2.1.trans heq)
        · intro r hr s hs
          exact hfresh.distinct r (List.mem_cons_of_mem _ hr) s (List.mem_cons_of_mem _ hs)
      have hsame : rules.filter (fun s => !db₂.hasRun owner s { message with
          labels := rule.input.actions.foldl RuleAction.labelsAfter message.labels }) =
          rules.filter fun s => !db.hasRun owner s message := by
        apply List.filter_congr
        intro s hs
        rw [Db.hasRun, hruns₂, List.any_append, List.any_cons,
          beq_eq_false_iff_ne.mpr (hother s hs)]
        simp [Db.hasRun, messageIdentity]
      have hfilter : (rule :: rules).filter (fun s => !db.hasRun owner s message) =
          rule :: rules.filter fun s => !db.hasRun owner s message := by
        simp [hrun]
      obtain ⟨⟨added, hrows, hadded⟩, hmessage, hmuted⟩ := ih hids hfresh₂
      rw [hsame] at hadded hmessage hmuted
      rw [hstep]
      constructor
      · refine ⟨run :: added, ?_, ?_⟩
        · rw [hrows, hruns₂, List.append_assoc]
          rfl
        · rw [hfilter]
          exact .cons hown hadded
      · rw [hfilter]
        exact hmessage
      · rw [hfilter, List.foldl_cons, ← hmuted₂]
        exact hmuted

theorem nodup_labelsAfter {labels : List String} (h : labels.Nodup) (action : RuleAction) :
    (action.labelsAfter labels).Nodup := by
  cases action with
  | addLabel label =>
    refine h.append ((List.nodup_singleton label).filter _) fun x hx hnew => ?_
    simp only [List.removeAll, List.mem_filter, List.elem_eq_mem, Bool.not_eq_true',
      decide_eq_false_iff_not] at hnew
    exact hnew.2 hx
  | removeLabel label => exact h.filter _
  | _ => exact h

theorem nodup_labelsOfRules {labels : List String} (h : labels.Nodup) (rules : List MailRule) :
    (rules.foldl (fun labels rule => rule.input.actions.foldl RuleAction.labelsAfter labels)
      labels).Nodup := by
  induction rules generalizing labels with
  | nil => exact h
  | cons rule rules ih =>
    rw [List.foldl_cons]
    apply ih
    exact List.foldlRecOn rule.input.actions _ h fun _ h _ _ => nodup_labelsAfter h _

end

/-- The rules that are listed for a message. -/
structure ListsMatches [Platform] (rules : List MailRule) (message : Message)
    (listed : List MailRule) : Prop where
  anyOrder : ∀ rules', rules'.Perm rules → matchingRules rules' message = listed
  sorted : listed.Pairwise ruleOrder
  sound : ∀ r ∈ listed, r ∈ rules ∧ r.input.enabled = true ∧ r.input.validate.isOk = true ∧
    r.input.matchesMessage message = true
  last : ∀ r ∈ listed, r.input.stopProcessing = true → listed.getLast? = some r
  /-- A rule that no stopping rule comes before. -/
  complete : ∀ r ∈ rules, r.input.enabled = true → r.input.matchesMessage message = true →
    (∀ s ∈ rules, s.input.enabled = true → s.input.matchesMessage message = true →
      s.input.stopProcessing = true → ruleOrder r s) → r ∈ listed

section

variable [Platform] {rules : List MailRule}

theorem listsMatches_matchingRules (hids : (rules.map (·.id)).Nodup) (message : Message) :
    ListsMatches rules message (matchingRules rules message) := by
  have hmem : ∀ r, r ∈ collectMatches message (orderedRules rules) ↔ _ := fun r =>
    mem_collectMatches (nodup_orderedRules hids) (List.pairwise_insertionSort _ _)
  constructor
  · intro rules' hperm
    exact congrArg (collectMatches message) (orderedRules_perm hids hperm)
  · exact (List.pairwise_insertionSort _ _).sublist collectMatches_sublist
  · intro r hr
    obtain ⟨hordered, hmatch, _⟩ := (hmem r).mp hr
    obtain ⟨hrule, henabled⟩ := mem_orderedRules.mp hordered
    have hvalid := hmatch
    simp only [MailRuleInput.matchesMessage, Bool.and_eq_true] at hvalid
    exact ⟨hrule, henabled, hvalid.1.2, hmatch⟩
  · intro r hr hstop
    exact getLast?_collectMatches hr hstop
  · intro r hr henabled hmatch hbefore
    refine (hmem r).mpr ⟨mem_orderedRules.mpr ⟨hr, henabled⟩, hmatch, fun s hs => ?_⟩
    obtain ⟨hrule, henabled⟩ := mem_orderedRules.mp hs
    exact hbefore s hrule henabled

/-- What is listed for a message, and what `enqueue_matches` makes of it. -/
theorem matching_and_local_actions (hids : (rules.map (·.id)).Nodup) (message : Message) :
    ListsMatches rules message (matchingRules rules message) ∧
      ∀ (runIds : RunIds) (owner : String) (source : RuleRunSource) (now : Time) (db : Db),
        FreshRunIds runIds (matchingRules rules message) message db →
        EnqueuesNew owner (matchingRules rules message) message db
            (enqueueMatches runIds owner rules message source now db) ∧
          (message.labels.Nodup →
            (enqueueMatches runIds owner rules message source now db).1.labels.Nodup) := by
  refine ⟨listsMatches_matchingRules hids message, ?_⟩
  intro runIds owner source now db hfresh
  have hlisted : ((matchingRules rules message).map (·.id)).Nodup :=
    (nodup_orderedRules hids).sublist (collectMatches_sublist.map _)
  have hnew : EnqueuesNew owner (matchingRules rules message) message db
      (enqueueMatches runIds owner rules message source now db) := enqueueRuns_new hlisted hfresh
  refine ⟨hnew, fun hlabels => ?_⟩
  rw [hnew.message_eq]
  exact nodup_labelsOfRules hlabels _

end

def unreadRule (id : String) (priority : ℕ) (stop : Bool) (actions : List RuleAction) : MailRule :=
  ⟨id, "u", 1, ⟨id, true, priority, [], .all, [.unread true], actions, stop⟩, 0, 0⟩

theorem matching_and_local_actions_stopped :
    let _ := Platform.plain
    let rules := [unreadRule "b" 2 true [.removeLabel "x", .mute true],
      unreadRule "a" 1 false [.addLabel "y"], unreadRule "c" 3 false [.addLabel "z"]]
    let message : Message :=
      { id := "m", accountId := "a", mailbox := "INBOX", mailboxRole := "inbox", uid := 1,
        labels := ["x"] }
    let result := enqueueMatches (fun rule _ _ => rule) "u" rules message .automatic 0 {}
    ListsMatches rules message (matchingRules rules message) ∧
      EnqueuesNew "u" (matchingRules rules message) message {} result ∧
      result.1.labels.Nodup ∧ (matchingRules rules message).map (·.id) = ["a", "b"] ∧
      result.1.labels = ["y"] ∧ isMuted result.2.2 message = true := by
  intro platform rules message result
  obtain ⟨hlists, henqueue⟩ := matching_and_local_actions
    (show (rules.map (·.id)).Nodup by decide) message
  obtain ⟨hnew, hlabels⟩ := henqueue (fun rule _ _ => rule) "u" .automatic 0 {}
    ⟨by simp, fun _ _ _ _ h => h⟩
  exact ⟨hlists, hnew, hlabels (by decide), by decide +kernel, by decide +kernel, by decide +kernel⟩

end IMail
