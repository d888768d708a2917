import IMail.Rules.NewRuns
import IMail.Store.CommitRows

/-!
# Local state of incoming messages

Labels and snooze times live in the cache only. A commit copies them to an incoming message
from the row with its local id, else from a row with its Message-ID, before the rows of a
mailbox whose UIDVALIDITY changed are deleted. The local id is a hash of the account and the
UID, so after such a change it may be that of another message.
-/

namespace IMail

open Relational

/-- Labels that rules leave when they start from `labels`. -/
def RuleLabels (rules : List MailRule) (labels labels' : List String) : Prop :=
  ∃ done : List MailRule, (∀ rule ∈ done, rule ∈ rules) ∧
    labels' = done.foldl (fun ls rule => rule.input.actions.foldl RuleAction.applyLabels ls) labels

theorem RuleLabels.mono {rules rules' : List MailRule} {labels labels' : List String}
    (h : RuleLabels rules labels labels') (hsub : ∀ rule ∈ rules, rule ∈ rules') :
    RuleLabels rules' labels labels' := by
  obtain ⟨done, hdone, hlabels⟩ := h
  exact ⟨done, fun rule hrule => hsub rule (hdone rule hrule), hlabels⟩

theorem enqueueRuns_labels (runIds : RunIds) (owner : String) (source : RuleRunSource)
    (now : Time) (rules : List MailRule) (message : Message) (db : Db) :
    RuleLabels rules message.labels
      (enqueueRuns runIds owner source now rules message db).1.labels := by
  induction rules generalizing message db with
  | nil => exact ⟨[], by simp, rfl⟩
  | cons rule rules ih =>
    simp only [enqueueRuns]
    obtain ⟨done, hdone, hlabels⟩ := ih (enqueueMatch runIds owner source now message db rule).1
      (enqueueMatch runIds owner source now message db rule).2.2
    by_cases hconflict : db.mailRuleRuns.any
        (newRuleRun db (runIds rule.id message.accountId (messageIdentity message)) owner rule
          message source now).conflicts = true
    · have hsame : (enqueueMatch runIds owner source now message db rule).1 = message := by
        simp [enqueueMatch, hconflict]
      rw [hsame] at hlabels
      refine ⟨done, fun r hr => List.mem_cons_of_mem _ (hdone r hr), ?_⟩
      rw [← hlabels, hsame]
    · have hfirst : (enqueueMatch runIds owner source now message db rule).1.labels =
          rule.input.actions.foldl RuleAction.applyLabels message.labels := by
        simp [enqueueMatch, hconflict]
      rw [hfirst] at hlabels
      refine ⟨rule :: done, ?_, hlabels⟩
      intro r hr
      rcases List.mem_cons.mp hr with rfl | hr
      · exact List.mem_cons_self
      · exact List.mem_cons_of_mem _ (hdone r hr)

/-- What a prepared message takes over: labels and snooze time of the previous row, or labels
that rules give to a new message. -/
def TakesOver (db : Db) (rules : List MailRule) (m m' : Message) : Prop :=
  (∃ row, previousRow db m = some row ∧
    m' = { m with labels := row.labels, snoozedUntil := row.snoozedUntil }) ∨
  (previousRow db m = none ∧ ∃ labels, m' = { m with labels := labels } ∧
    RuleLabels rules m.labels labels)

theorem TakesOver.cols {db : Db} {rules : List MailRule} {m m' : Message}
    (h : TakesOver db rules m m') : m'.id = m.id ∧ m'.messageId = m.messageId := by
  rcases h with ⟨row, _, rfl⟩ | ⟨_, labels, rfl, _⟩ <;> exact ⟨rfl, rfl⟩

section

variable [Platform]

variable {rules : List MailRule} {plan : MailboxSyncPlan} {db db' : Db} {m : Message}

variable {runIds : RunIds} {owner : String} {synced : Bool} {now : Time} {incoming : List Message}
  {row : Message}

theorem prepareIncoming_row {message message' : Message} {created : Bool}
    (h : prepareIncoming runIds owner rules synced plan now db message =
      .ok (message', created, db')) :
    TakesOver db rules message message' ∧ created = (previousRow db message).isNone := by
  unfold prepareIncoming at h
  split_ifs at h
  split at h
  · rename_i row hrow
    cases h
    exact ⟨Or.inl ⟨row, hrow, rfl⟩, by simp [hrow]⟩
  · rename_i hnone
    dsimp only at h
    split_ifs at h
    · cases h
      obtain ⟨labels, hlabels⟩ := enqueueMatches_message runIds owner rules message .automatic now
        (db.markSeen plan.accountId (messageIdentity message)).2
      have hrules := enqueueRuns_labels runIds owner .automatic now (matchingRules rules message)
        message (db.markSeen plan.accountId (messageIdentity message)).2
      refine ⟨Or.inr ⟨hnone, labels, hlabels, ?_⟩, by simp [hnone]⟩
      unfold enqueueMatches at hlabels
      rw [hlabels] at hrules
      exact hrules.mono matchingRules_subset
    · cases h
      exact ⟨Or.inr ⟨hnone, message.labels, rfl, [], by simp, rfl⟩, by simp [hnone]⟩

theorem prepareAll_rows {messages created : List Message}
    (h : prepareAll runIds owner rules synced plan now messages db = .ok (incoming, created, db')) :
    List.Forall₂ (TakesOver db rules) messages incoming ∧
      ∀ c, c ∈ created ↔ ∃ pair ∈ messages.zip incoming, previousRow db pair.1 = none ∧
        c = pair.2 := by
  refine prepareAll_induct ?_ ?_ h
  · intro db
    exact ⟨.nil, by simp⟩
  · intro message message' isNew messages incoming created db db₁ db' hone ih
    obtain ⟨htakes, hnew⟩ := prepareIncoming_row hone
    have hsame := (prepareIncoming_ok hone).2.2.2.2.messages_eq
    obtain ⟨hforall, hcreated⟩ := ih
    constructor
    · refine .cons htakes (hforall.imp fun m m' hm => ?_)
      unfold TakesOver at hm ⊢
      rwa [previousRow_congr hsame] at hm
    · intro c
      simp only [previousRow_congr hsame] at hcreated
      simp only [List.zip_cons_cons, List.mem_cons, exists_eq_or_imp]
      cases hrow : previousRow db message with
      | none =>
        simp only [hrow, Option.isNone_none] at hnew
        simp [hnew, hcreated]
      | some row =>
        simp only [hrow, Option.isNone_some] at hnew
        simp [hnew, hcreated]

/-- Local state stays with its message: it is never taken from a row with another Message-ID,
the stored row has that of a row with its Message-ID if there was one, and the message is
reported as new exactly if there was none. -/
structure KeepsLocalState (db db' : Db) (plan : MailboxSyncPlan)
    (result : MailboxSyncCommitResult) (m : Message) (x : String) : Prop where
  source : ∀ row, previousRow db m = some row → row.messageId = some x
  labels : ∀ r ∈ db'.messages, r.id = m.id → r.messageId = some x →
    (∃ o ∈ db.messages, o.accountId = plan.accountId ∧ o.messageId = some x ∧
      r.labels = o.labels ∧ r.snoozedUntil = o.snoozedUntil) ∨
    ((∀ o ∈ db.messages, o.accountId = plan.accountId → o.messageId ≠ some x) ∧
      ∃ n ∈ plan.incoming, n.id = m.id ∧ n.messageId = some x ∧
        r.snoozedUntil = n.snoozedUntil ∧ RuleLabels db.mailRules n.labels r.labels)
  created : (∃ c ∈ result.createdMessages, c.id = m.id ∧ c.messageId = some x) ↔
    ∀ o ∈ db.messages, o.accountId = plan.accountId → o.messageId ≠ some x

section

omit [Platform]

theorem previousRow_some (h : previousRow db m = some row) :
    row ∈ db.messages ∧ row.accountId = m.accountId ∧
      (row.id = m.id ∨ (m.messageId.isSome = true ∧ row.messageId = m.messageId)) := by
  have hmem := firstBy_mem h
  simp only [List.mem_filter, Bool.and_eq_true, Bool.or_eq_true, beq_iff_eq] at hmem
  exact ⟨hmem.1, hmem.2.1, hmem.2.2⟩

theorem previousRow_eq_none :
    previousRow db m = none ↔ ∀ row ∈ db.messages, row.accountId = m.accountId →
      row.id ≠ m.id ∧ (m.messageId.isSome = true → row.messageId ≠ m.messageId) := by
  unfold previousRow
  rw [firstBy_eq_none, List.filter_eq_nil_iff]
  constructor
  · intro h row hrow haccount
    have hnot := h row hrow
    simp only [haccount, beq_self_eq_true, Bool.true_and, Bool.or_eq_true, beq_iff_eq,
      Bool.and_eq_true, not_or, not_and] at hnot
    exact hnot
  · intro h row hrow hsel
    simp only [Bool.and_eq_true, beq_iff_eq, Bool.or_eq_true] at hsel
    obtain ⟨hid, hmessage⟩ := h row hrow hsel.1
    rcases hsel.2 with hsame | ⟨hsome, hsame⟩
    · exact hid hsame
    · exact hmessage hsome hsame

theorem previousRow_id (hrow : row ∈ db.messages) (haccount : row.accountId = m.accountId)
    (hid : row.id = m.id) : ∃ found, previousRow db m = some found ∧ found.id = m.id := by
  cases hfound : previousRow db m with
  | none => exact absurd hid (previousRow_eq_none.mp hfound row hrow haccount).1
  | some found =>
    refine ⟨found, rfl, ?_⟩
    apply firstBy_class (P := fun r : Message => r.id = m.id) _ _ hfound
    · exact ⟨row, by simp [hrow, haccount, hid], hid⟩
    · intro a b ha hb
      simp [ha, hb]
    · intro a b ha _
      simp [ha]

theorem messageId_ne_of_previousRow_eq_none {n o : Message} {x : String}
    (h : previousRow db n = none) (hx : n.messageId = some x) (ho : o ∈ db.messages)
    (haccount : o.accountId = n.accountId) : o.messageId ≠ some x := by
  have hnot := (previousRow_eq_none.mp h o ho haccount).2
  rw [hx] at hnot
  exact hnot rfl

theorem row_of_incoming {prepared : Db} {completedAt : Time}
    (htakes : List.Forall₂ (TakesOver db rules) plan.incoming incoming)
    (hwrite : prepared.writePlan plan incoming completedAt = .ok db') {r : Message}
    (hm : m ∈ plan.incoming) (hr : r ∈ db'.messages) (hid : r.id = m.id) :
    ∃ n n', (n, n') ∈ plan.incoming.zip incoming ∧ n.id = m.id ∧
      n.messageId = r.messageId ∧ r.labels = n'.labels ∧
      r.snoozedUntil = n'.snoozedUntil := by
  have hpairs : ∀ {n n' : Message}, (n, n') ∈ plan.incoming.zip incoming →
      TakesOver db rules n n' := (List.forall₂_iff_zip.mp htakes).2
  obtain ⟨s, rfl, ⟨n', hn', hs⟩ | ⟨_, _, hrest⟩⟩ := mem_of_writePlan hwrite hr
  · obtain ⟨n, hpair⟩ := exists_mem_zip_right htakes hn'
    have hcols := (hpairs hpair).cols
    refine ⟨n, n', hpair, ?_, ?_, ?_, ?_⟩
    · rw [← hcols.1, ← hid, flagRow_id, hs]
    · rw [← hcols.2, flagRow_messageId, hs]
    · rw [flagRow_labels, hs]
    · rw [flagRow_snoozedUntil, hs]
  · -- the other rows keep away from the ids of the plan
    obtain ⟨m', hpair⟩ := exists_mem_zip_left htakes hm
    have hne := id_ne_of_untouched hrest (List.of_mem_zip hpair).2
    rw [(hpairs hpair).cols.1, ← hid, flagRow_id] at hne
    exact absurd rfl hne

end

/-- Exactly if no cached row of the account has the local id of an incoming message and
another Message-ID, local state stays with its message. -/
theorem local_state_kept_iff {db db' : Db} (hids : UniqueBy (fun m => some m.id) db.messages)
    {runIds : RunIds} {plan : MailboxSyncPlan} {completedAt : Time}
    {result : MailboxSyncCommitResult}
    (h : commitMailboxSync db runIds plan completedAt = .ok (result, db')) :
    (∀ m ∈ plan.incoming, ∀ x, m.messageId = some x → KeepsLocalState db db' plan result m x) ↔
      ∀ m ∈ plan.incoming, ∀ x, m.messageId = some x → ∀ row ∈ db.messages,
        row.accountId = plan.accountId → row.id = m.id → row.messageId = some x := by
  obtain ⟨account, incoming, prepared, _, hprepare, hwrite, _⟩ := commitMailboxSync_ok h
  obtain ⟨htargets, honly⟩ := prepareAll_ok hprepare
  obtain ⟨htakes, hcreated⟩ := prepareAll_rows hprepare
  have hpairs : ∀ {n n' : Message}, (n, n') ∈ plan.incoming.zip incoming →
      TakesOver db (loadRules db account.userId) n n' := (List.forall₂_iff_zip.mp htakes).2
  have haccount : ∀ m ∈ plan.incoming, m.accountId = plan.accountId := by
    intro m hm
    obtain ⟨m', hpair⟩ := exists_mem_zip_left htargets hm
    exact ((List.forall₂_iff_zip.mp htargets).2 hpair).1
  constructor
  · intro hkeeps m hm x hx row hrow hrowaccount hid
    obtain ⟨found, hfound, hfoundid⟩ :=
      previousRow_id hrow (hrowaccount.trans (haccount m hm).symm) hid
    have hsame : found = row := hids.eq_of_mem (previousRow_some hfound).1 hrow rfl
      (by rw [hfoundid, hid])
    exact hsame ▸ (hkeeps m hm x hx).source found hfound
  · intro hcond m hm x hx
    have hsource : ∀ n ∈ plan.incoming, n.messageId = some x → ∀ row,
        previousRow db n = some row → row.messageId = some x := by
      intro n hn hnx row hrow
      obtain ⟨hmem, hrowaccount, hid | ⟨_, hsame⟩⟩ := previousRow_some hrow
      · exact hcond n hn x hnx row hmem (hrowaccount.trans (haccount n hn)) hid
      · rw [hsame, hnx]
    have hnone : ∀ n ∈ plan.incoming, n.messageId = some x → previousRow db n = none →
        ∀ o ∈ db.messages, o.accountId = plan.accountId → o.messageId ≠ some x := by
      intro n hn hnx hrow o ho hoaccount
      exact messageId_ne_of_previousRow_eq_none hrow hnx ho (hoaccount.trans (haccount n hn).symm)
    constructor
    · exact hsource m hm hx
    · intro r hr hid hrx
      obtain ⟨n, n', hpair, hnid, hnr, hlabels, hsnooze⟩ :=
        row_of_incoming htakes hwrite hm hr hid
      have hn : n ∈ plan.incoming := (List.of_mem_zip hpair).1
      have hnx : n.messageId = some x := hnr.trans hrx
      rcases hpairs hpair with ⟨row, hrow, rfl⟩ | ⟨hrow, labels, rfl, hrules⟩
      · obtain ⟨hmem, hrowaccount, _⟩ := previousRow_some hrow
        exact Or.inl ⟨row, hmem, hrowaccount.trans (haccount n hn),
          hsource n hn hnx row hrow, hlabels, hsnooze⟩
      · refine Or.inr ⟨hnone n hn hnx hrow, n, hn, hnid, hnx, hsnooze, ?_⟩
        rw [hlabels]
        apply hrules.mono
        intro rule hrule
        simp only [loadRules, List.mem_insertionSort] at hrule
        exact List.mem_of_mem_filter hrule
    · constructor
      · rintro ⟨c, hc, hcid, hcx⟩
        obtain ⟨⟨n, n'⟩, hpair, hrow, rfl⟩ := (hcreated c).mp hc
        have hnx : n.messageId = some x := by rw [← (hpairs hpair).cols.2, hcx]
        exact hnone n (List.of_mem_zip hpair).1 hnx hrow
      · intro hmissing
        obtain ⟨m', hpair⟩ := exists_mem_zip_left htakes hm
        obtain ⟨hid, hmx⟩ := (hpairs hpair).cols
        refine ⟨m', (hcreated m').mpr ⟨(m, m'), hpair, ?_, rfl⟩, hid, hmx.trans hx⟩
        apply previousRow_eq_none.mpr
        intro row hrow hrowaccount
        have hother := hmissing row hrow (hrowaccount.trans (haccount m hm))
        constructor
        · intro hsame
          exact hother (hcond m hm x hx row hrow (hrowaccount.trans (haccount m hm)) hsame)
        · intro _
          rwa [hx]

end

def labelledDb : Db where
  accounts := [{ id := "a", userId := "u", email := "a@example.org", createdAt := 0 }]
  messages :=
    [{ id := "a:1"
       accountId := "a"
       mailbox := "INBOX"
       mailboxRole := "inbox"
       uid := 1
       messageId := some "y"
       labels := ["work"] }]

/-- After the change of UIDVALIDITY the inbox holds `message` alone. -/
def renumberPlan (message : Message) : MailboxSyncPlan where
  accountId := "a"
  mailbox := "INBOX"
  mailboxRole := "inbox"
  incoming := [message]
  uidValidityChanged := true

def renumberedMessage : Message where
  id := "a:2"
  accountId := "a"
  mailbox := "INBOX"
  mailboxRole := "inbox"
  uid := 2
  messageId := some "y"

def otherMessage : Message where
  id := "a:1"
  accountId := "a"
  mailbox := "INBOX"
  mailboxRole := "inbox"
  uid := 1
  messageId := some "x"

/-- The message keeps its label under its new UID. -/
theorem local_state_kept_renumbered :
    let _ := Platform.plain
    ∃ result db', commitMailboxSync labelledDb (fun _ _ _ => "run") (renumberPlan renumberedMessage) 0 =
        .ok (result, db') ∧
      KeepsLocalState labelledDb db' (renumberPlan renumberedMessage) result renumberedMessage "y" := by
  intro _
  have hok : (commitMailboxSync labelledDb (fun _ _ _ => "run") (renumberPlan renumberedMessage)
      0).isOk = true := by decide +kernel
  have hids : UniqueBy (fun m : Message => some m.id) labelledDb.messages :=
    List.pairwise_singleton _ _
  obtain ⟨⟨result, db'⟩, hcommit⟩ := exists_ok_of_isOk hok
  refine ⟨result, db', hcommit, ?_⟩
  apply (local_state_kept_iff hids hcommit).mpr _ renumberedMessage List.mem_cons_self "y" rfl
  intro m hm x hx row hrow _ hid
  rw [List.mem_singleton.mp hm] at hid
  rw [List.mem_singleton.mp hrow] at hid
  exact absurd hid (by decide)

/-- A new message that gets UID 1 takes the label of the message that had it before, and is
not reported as new. -/
theorem reset_inherits_label :
    let _ := Platform.plain
    (commitMailboxSync labelledDb (fun _ _ _ => "run") (renumberPlan otherMessage) 0).toOption.map
        (fun pair => (pair.1.createdMessages, pair.2.messages.map fun m =>
          (m.id, m.messageId, m.labels))) =
      some ([], [("a:1", some "x", ["work"])]) ∧
    ∀ result db', commitMailboxSync labelledDb (fun _ _ _ => "run") (renumberPlan otherMessage) 0 =
        .ok (result, db') →
      ¬ KeepsLocalState labelledDb db' (renumberPlan otherMessage) result otherMessage "x" := by
  intro _
  constructor
  · decide +kernel
  · intro result db' _ hkeeps
    have hsource := hkeeps.source _ rfl
    exact absurd hsource (by decide)

end IMail
