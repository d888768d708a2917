import IMail.Store.CommitSpec

/-!
# Messages that rules have seen

`mail_rule_message_state` has a row for every message that a commit found new, so that rules
are not run on it again when it is imported once more. No transaction takes a row away.
-/

namespace IMail

open Relational

def Db.Seen (db : Db) (accountId identity : String) : Prop :=
  ∃ s ∈ db.ruleMessageStates, s.accountId = accountId ∧ s.identity = identity

variable {db db' : Db} {accountId identity : String} {plan : MailboxSyncPlan} {completedAt : Time}

theorem seen_iff_any :
    (db.ruleMessageStates.any fun s => s.accountId == accountId && s.identity == identity) = true ↔
      db.Seen accountId identity := by
  simp [Db.Seen]

theorem markSeen_of_seen (h : db.Seen accountId identity) :
    db.markSeen accountId identity = (false, db) := by
  unfold Db.markSeen
  rw [if_pos (seen_iff_any.mpr h)]

theorem seen_markSeen (db : Db) (accountId identity : String) :
    (db.markSeen accountId identity).2.Seen accountId identity := by
  unfold Db.markSeen
  split_ifs with hseen
  · exact seen_iff_any.mp hseen
  · exact ⟨_, List.mem_append_right _ List.mem_cons_self, rfl, rfl⟩

def SeenMore (db db' : Db) : Prop :=
  ∀ accountId identity, db.Seen accountId identity → db'.Seen accountId identity

theorem SeenMore.refl (db : Db) : SeenMore db db := fun _ _ h => h

theorem SeenMore.trans {a b c : Db} (hab : SeenMore a b) (hbc : SeenMore b c) : SeenMore a c :=
  fun accountId identity h => hbc accountId identity (hab accountId identity h)

theorem SeenMore.of_states_eq (h : db'.ruleMessageStates = db.ruleMessageStates) :
    SeenMore db db' := by
  rintro a i ⟨s, hs, hcols⟩
  exact ⟨s, h ▸ hs, hcols⟩

theorem seenMore_markSeen (db : Db) (accountId identity : String) :
    SeenMore db (db.markSeen accountId identity).2 := by
  rintro a i ⟨s, hs, hcols⟩
  unfold Db.markSeen
  split_ifs
  · exact ⟨s, hs, hcols⟩
  · exact ⟨s, List.mem_append_left _ hs, hcols⟩

theorem seenMore_setMuted (db : Db) (accountId identity : String) (muted : Bool) :
    SeenMore db (db.setMuted accountId identity muted) := by
  rintro a i ⟨s, hs, hcols⟩
  unfold Db.setMuted Db.Seen
  dsimp only
  split_ifs
  · by_cases hsel : (s.accountId == accountId && s.identity == identity) = true
    · exact ⟨{ s with muted }, mem_updateWhere.mpr (Or.inl ⟨s, hs, hsel, rfl⟩), hcols⟩
    · exact ⟨s, mem_updateWhere.mpr (Or.inr ⟨hs, Bool.eq_false_iff.mpr hsel⟩), hcols⟩
  · exact ⟨s, List.mem_append_left _ hs, hcols⟩

theorem seenMore_applyMute (accountId identity : String) (actions : List RuleAction) (db : Db) :
    SeenMore db (actions.foldl (RuleAction.applyMute accountId identity) db) := by
  induction actions generalizing db with
  | nil => exact SeenMore.refl db
  | cons action actions ih =>
    rw [List.foldl_cons]
    apply SeenMore.trans _ (ih _)
    cases action with
    | mute muted => exact seenMore_setMuted db accountId identity muted
    | addLabel _ | removeLabel _ | markRead _ | flag _ | archive => exact SeenMore.refl db

section

variable (runIds : RunIds) (owner : String) (source : RuleRunSource) (now : Time)

theorem seenMore_enqueueMatch (message : Message) (db : Db) (rule : MailRule) :
    SeenMore db (enqueueMatch runIds owner source now message db rule).2.2 := by
  unfold enqueueMatch
  dsimp only
  split_ifs
  · exact SeenMore.refl db
  · have hmuted := seenMore_applyMute message.accountId (messageIdentity message)
      rule.input.actions { db with
        mailRuleRuns := db.mailRuleRuns ++ [newRuleRun db
          (runIds rule.id message.accountId (messageIdentity message)) owner rule message source now]
        mailRuleRunSequence := db.mailRuleRunSequence + 1 }
    exact SeenMore.trans (.of_states_eq rfl) hmuted

theorem seenMore_enqueueRuns (rules : List MailRule) (message : Message) (db : Db) :
    SeenMore db (enqueueRuns runIds owner source now rules message db).2.2 := by
  induction rules generalizing message db with
  | nil => exact SeenMore.refl db
  | cons rule rules ih => exact (seenMore_enqueueMatch _ _ _ _ _ _ _).trans (ih _ _)

end

theorem previousRow_congr (h : db'.messages = db.messages) (m : Message) :
    previousRow db' m = previousRow db m := by
  unfold previousRow
  rw [h]

theorem RulesOnly.messages_eq (h : RulesOnly db db') : db'.messages = db.messages := by
  obtain ⟨_, _, _, rfl⟩ := h
  rfl

section

variable [Platform]

variable {runIds : RunIds} {owner : String} {rules : List MailRule} {synced : Bool}
  {plan : MailboxSyncPlan} {now : Time} {db db' : Db}

theorem prepareIncoming_seen {message message' : Message} {created : Bool}
    (h : prepareIncoming runIds owner rules synced plan now db message =
      .ok (message', created, db')) :
    SeenMore db db' ∧
      (previousRow db message = none → db'.Seen plan.accountId (messageIdentity message)) := by
  unfold prepareIncoming at h
  split_ifs at h
  split at h
  · rename_i row hrow
    cases h
    exact ⟨SeenMore.refl db, fun hnone => by simp [hrow] at hnone⟩
  · have hmore := seenMore_markSeen db plan.accountId (messageIdentity message)
    have hself := seen_markSeen db plan.accountId (messageIdentity message)
    dsimp only at h
    split_ifs at h
    · cases h
      have hruns := seenMore_enqueueRuns runIds owner .automatic now (matchingRules rules message)
        message (db.markSeen plan.accountId (messageIdentity message)).2
      exact ⟨hmore.trans hruns, fun _ => hruns _ _ hself⟩
    · cases h
      exact ⟨hmore, fun _ => hself⟩

theorem prepareAll_seen {messages incoming created : List Message}
    (h : prepareAll runIds owner rules synced plan now messages db = .ok (incoming, created, db')) :
    SeenMore db db' ∧ ∀ m ∈ messages, previousRow db m = none →
      db'.Seen plan.accountId (messageIdentity m) := by
  refine prepareAll_induct ?_ ?_ h
  · intro db
    exact ⟨SeenMore.refl db, by simp⟩
  · intro message message' isNew messages incoming created db db₁ db' hone ih
    obtain ⟨hmore, hself⟩ := prepareIncoming_seen hone
    obtain ⟨hmore', hall⟩ := ih
    have hsame := (prepareIncoming_ok hone).2.2.2.2.messages_eq
    refine ⟨hmore.trans hmore', fun m hm hnone => ?_⟩
    rcases List.mem_cons.mp hm with rfl | hm
    · exact hmore' _ _ (hself hnone)
    · exact hall m hm ((previousRow_congr hsame m).trans hnone)

end

theorem writePlan_seen {incoming : List Message}
    (h : db.writePlan plan incoming completedAt = .ok db') : SeenMore db db' := by
  obtain ⟨_, _, rfl⟩ := writePlan_frame h
  exact .of_states_eq rfl

theorem commitMailboxSync_seen [Platform] {runIds : RunIds} {result : MailboxSyncCommitResult}
    (h : commitMailboxSync db runIds plan completedAt = .ok (result, db')) :
    SeenMore db db' ∧ ∀ m ∈ plan.incoming, previousRow db m = none →
      db'.Seen plan.accountId (messageIdentity m) := by
  obtain ⟨account, incoming, prepared, _, hprepare, hwrite, _⟩ := commitMailboxSync_ok h
  obtain ⟨hmore, hall⟩ := prepareAll_seen hprepare
  have hkept := writePlan_seen hwrite
  exact ⟨hmore.trans hkept, fun m hm hnone => hkept _ _ (hall m hm hnone)⟩

end IMail
