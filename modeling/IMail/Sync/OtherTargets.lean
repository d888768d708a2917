import IMail.Sync.LeaseInvariant

/-!
# Completed jobs and the states of other targets

`complete` writes the row of its mailbox and deletes the placeholder rows of the account. A
target without a mailbox of its own is looked up by its role, so its state is lost with its
placeholder, or when its row is filed under the role of the completed job.
-/

namespace IMail

open Relational Transition

theorem descBefore_asymm (a b : Option Time) (h : descBefore a b = true) :
    descBefore b a = false := by
  cases a with
  | none => cases h
  | some a =>
    cases b with
    | none => rfl
    | some b =>
      simp only [descBefore, decide_eq_true_eq, decide_eq_false_iff_not, not_lt] at h ⊢
      exact h.le

theorem descBefore_cotrans (a b c : Option Time) (h : descBefore a c = true) :
    descBefore a b = true ∨ descBefore b c = true := by
  cases a with
  | none => cases h
  | some a =>
    cases b with
    | none => exact Or.inl rfl
    | some b =>
      cases c with
      | none => exact Or.inr rfl
      | some c =>
        simp only [descBefore, decide_eq_true_eq] at h ⊢
        rcases lt_or_ge b a with hab | hab
        · exact Or.inl hab
        · exact Or.inr (h.trans_le hab)

theorem stateBefore_asymm (a b : MailboxSyncState) (h : stateBefore a b = true) :
    stateBefore b a = false := by
  unfold stateBefore at h ⊢
  split_ifs at h with hsame
  · rw [if_pos hsame.symm]
    exact descBefore_asymm _ _ h
  · rw [if_neg (Ne.symm hsame)]
    cases ha : isPlaceholder a.mailbox with
    | false => rfl
    | true => exact absurd (ha.trans h.symm) hsame

theorem stateBefore_cotrans (a b c : MailboxSyncState) (h : stateBefore a c = true) :
    stateBefore a b = true ∨ stateBefore b c = true := by
  unfold stateBefore at h ⊢
  cases ha : isPlaceholder a.mailbox <;> cases hb : isPlaceholder b.mailbox <;>
    cases hc : isPlaceholder c.mailbox <;> simp_all [descBefore_cotrans]

theorem forTarget_completedStates {job : SyncJob} {result : SyncCompletion} {next now : Time}
    {mailbox : Option String} {role : String} (hrole : role ≠ job.mailboxRole)
    (hmailbox : ∀ m ∈ mailbox, m ≠ result.mailbox) (states : List MailboxSyncState) :
    (completedStates job result next now states).filter (forTarget job.accountId mailbox role) =
      (states.filter (forTarget job.accountId mailbox role)).filter fun s =>
        !isPlaceholder s.mailbox && s.mailbox != result.mailbox := by
  have hout : ∀ s : MailboxSyncState, s.mailbox = result.mailbox → s.mailboxRole = job.mailboxRole →
      forTarget job.accountId mailbox role s = false := by
    intro s hs hsrole
    cases hm : mailbox with
    | none => simp [forTarget, hsrole, Ne.symm hrole]
    | some m => simp [forTarget, hs, Ne.symm (hmailbox m hm)]
  have hupsert : (upsertStates (completedRow job result next now)
      (completedMerge job result next now) states).filter (forTarget job.accountId mailbox role) =
      states.filter fun s => forTarget job.accountId mailbox role s &&
        !sameMailbox job.accountId result.mailbox s := by
    unfold upsertStates
    split_ifs with hany
    · apply filter_updateWhere_out
      intro s hs
      simp only [sameMailbox, completedRow, Bool.and_eq_true, beq_iff_eq] at hs
      exact hout _ hs.2 rfl
    · have hrow : forTarget job.accountId mailbox role (completedRow job result next now) = false :=
        hout _ rfl rfl
      rw [List.filter_append, List.filter_cons_of_neg (by simp [hrow]), List.filter_nil,
        List.append_nil]
      apply List.filter_congr
      intro s hs
      have hne : sameMailbox job.accountId result.mailbox s = false := by
        by_contra hsame
        exact hany (List.any_eq_true.mpr ⟨s, hs, Bool.not_eq_false _ ▸ hsame⟩)
      rw [hne, Bool.not_false, Bool.and_true]
  rw [completedStates, deleteWhere, List.filter_filter, List.filter_filter]
  calc (upsertStates _ _ states).filter _
      = ((upsertStates (completedRow job result next now)
          (completedMerge job result next now) states).filter
            (forTarget job.accountId mailbox role)).filter fun s =>
              !(s.accountId == job.accountId && isPlaceholder s.mailbox &&
                s.mailbox != result.mailbox) := by
        rw [List.filter_filter]
        exact List.filter_congr fun s _ => Bool.and_comm _ _
    _ = _ := by
        rw [hupsert, List.filter_filter]
        apply List.filter_congr
        intro s _
        cases hfor : forTarget job.accountId mailbox role s with
        | false => simp
        | true =>
          have haccount : (s.accountId == job.accountId) = true := (Bool.and_eq_true _ _ ▸ hfor).1
          simp only [sameMailbox, haccount, Bool.true_and, Bool.and_true, bne]
          cases isPlaceholder s.mailbox <;> cases s.mailbox == result.mailbox <;> rfl

/-- The state of another target is the same after a completed job, exactly if it is not kept in a
placeholder row nor in the row of the completed mailbox. -/
theorem complete_other_target_iff {db db' : Db} {newId : String} {job : SyncJob}
    {result : SyncCompletion} {reconciliationMinutes : ℤ} {now : Time}
    (h : complete db newId job result reconciliationMinutes now = .ok db')
    {mailbox : Option String} {role : String} (hrole : role ≠ job.mailboxRole)
    (hmailbox : ∀ m ∈ mailbox, m ≠ result.mailbox) :
    mailboxStateForTarget db' job.accountId mailbox role =
        mailboxStateForTarget db job.accountId mailbox role ↔
      ∀ s ∈ mailboxStateForTarget db job.accountId mailbox role,
        isPlaceholder s.mailbox = false ∧ s.mailbox ≠ result.mailbox := by
  obtain ⟨_, _, _, _, _, _, _, events, sequence, authRequired, rfl⟩ := complete_ok h
  unfold mailboxStateForTarget
  dsimp only
  rw [forTarget_completedStates hrole hmailbox]
  constructor
  · intro hsame s hs
    rw [Option.mem_def.mp hs] at hsame
    have hkept := (List.mem_filter.mp (firstBy_mem hsame)).2
    simpa using hkept
  · intro hkept
    cases hfirst : firstBy stateBefore
        (db.mailboxSyncStates.filter (forTarget job.accountId mailbox role)) with
    | none =>
      rw [firstBy_eq_none.mp hfirst]
      rfl
    | some s =>
      apply firstBy_filter stateBefore_asymm stateBefore_cotrans hfirst
      simpa using hkept s hfirst

def sentRequest : SyncEnqueue := { accountId := "a", mailboxRole := "sent", reason := "manual" }

def sentHandle : SyncJob := claimJob "P" 10 0 (enqueuedJob "s" sentRequest .manual 0)

/-- The folder for sent mail is synchronized, or its server cannot be reached; then `P` works on
the inbox. -/
def afterSent (ended : SyncOp) : List SyncOp :=
  [.enqueue "s" sentRequest 0, .claimNext "P" 10 0, ended, .enqueue "j" inboxRequest 0,
    .claimNext "P" 10 0]

def unreachable : SyncFailure where
  mailbox := rolePlaceholder "sent"
  code := "NETWORK_ERROR"
  message := ""
  authRequired := false
  retryMinutes := some 5

/-- The database in which `P` has the inbox to do. -/
def afterSentDb [Platform] (ended : SyncOp) : Db :=
  ((SyncWorld.mk singleAccountDb []).run (afterSent ended)).db

def sentCompleted : SyncOp := .complete "m" sentHandle { mailbox := "Sent", lastSeenUid := 7 } 30 1

theorem complete_other_target_sent :
    let _ := Platform.plain
    ∃ db', complete (afterSentDb sentCompleted) "n" handleOfP { mailbox := "INBOX" } 30 6 = .ok db' ∧
      (mailboxStateForTarget (afterSentDb sentCompleted) "a" none "sent").map (·.lastSeenUid) =
        some 7 ∧
      mailboxStateForTarget db' "a" none "sent" =
        mailboxStateForTarget (afterSentDb sentCompleted) "a" none "sent" := by
  intro _
  have hok : (complete (afterSentDb sentCompleted) "n" handleOfP
      { mailbox := "INBOX" } 30 6).isOk = true := by
    decide +kernel
  have hstate : ∀ s ∈ mailboxStateForTarget (afterSentDb sentCompleted) "a" none "sent",
      isPlaceholder s.mailbox = false ∧ s.mailbox ≠ "INBOX" := by
    decide +kernel
  cases hend : complete (afterSentDb sentCompleted) "n" handleOfP { mailbox := "INBOX" } 30 6 with
  | error e =>
    rw [hend] at hok
    cases hok
  | ok db' =>
    refine ⟨db', rfl, by decide +kernel, ?_⟩
    have hrole : "sent" ≠ handleOfP.mailboxRole := by decide
    exact (complete_other_target_iff hend hrole (by simp)).mpr hstate

/-- The failure of the folder for sent mail and the time of its next attempt are forgotten when
the inbox is done. -/
theorem complete_forgets_backoff :
    let _ := Platform.plain
    ∃ db', complete (afterSentDb (.fail sentHandle unreachable 1)) "n" handleOfP
        { mailbox := "INBOX" } 30 6 = .ok db' ∧
      handleOfP.mailboxRole ≠ "sent" ∧
      (mailboxStateForTarget (afterSentDb (.fail sentHandle unreachable 1)) "a" none "sent").map
        (fun s => (s.consecutiveFailures, s.nextSyncAt)) = some (1, some (1 + minutes 5)) ∧
      mailboxStateForTarget db' "a" none "sent" = none := by
  intro _
  obtain ⟨db', hend, hnone⟩ := exists_ok_of_any (show
    (complete (afterSentDb (.fail sentHandle unreachable 1)) "n" handleOfP { mailbox := "INBOX" } 30
      6).toOption.any (fun db' => (mailboxStateForTarget db' "a" none "sent").isNone) = true by
    decide +kernel)
  exact ⟨db', hend, by decide, by decide +kernel, Option.isNone_iff_eq_none.mp hnone⟩

end IMail
