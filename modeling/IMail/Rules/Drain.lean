import IMail.Store.RuleActions

/-!
# Draining the rule queue

`drain_rules` of `imail-runtime/src/rule_executor.rs` claims one remote action after the other until
a claim gives none. A claim also gives none when it marks a run as failed because the message of
the run is gone.
-/

namespace IMail

open Relational

/-- What the loop meets in each round, counted from the end: cancellation, the readings of the
clock, and the answers of the mail server. -/
structure DrainEnvironment where
  cancelled : ℕ → Bool
  claimAt : ℕ → Time × Time
  finishAt : ℕ → Time × Time
  updateFlags : ℕ → RuleWork → Bool
  moveMessage : ℕ → RuleWork → Option RemoteMessageMoveResult

/-- The result of an action; none for an action that never enters the queue. -/
def DrainEnvironment.result (env : DrainEnvironment) (round : ℕ) (work : RuleWork) :
    Option (Except String (Option RemoteMessageMoveResult)) :=
  if work.message.uid ≤ 0 ∨ 2 ^ 32 ≤ work.message.uid then some (.error "MESSAGE_NOT_FOUND")
  else
    match work.action with
    | .markRead _ | .flag _ =>
      some (if env.updateFlags round work then .ok none else .error "REMOTE_ACTION_FAILED")
    | .archive =>
      if work.message.mailboxRole = "archive" then
        some (.ok (some ⟨work.message.mailbox, some work.message.uid.toNat⟩))
      else
        match env.moveMessage round work with
        | none => some (.error "REMOTE_ACTION_FAILED")
        | some ⟨_, none⟩ => some (.error "MOVE_UNCONFIRMED")
        | some moved => some (.ok (some moved))
    | .addLabel _ | .removeLabel _ | .mute _ => none

/-- How the loop ends: by cancellation, by a claim that gives none (with the database before that
claim and its time), or after all its rounds. -/
inductive DrainEnd
  | cancelled
  | exhausted (before : Db) (now : Time)
  | bounded

def drainRules (env : DrainEnvironment) (owner account : String) :
    ℕ → Db → Except String (DrainEnd × Db)
  | 0, db => .ok (.bounded, db)
  | round + 1, db =>
    if env.cancelled round then .ok (.cancelled, db)
    else
      match claimRuleAction db owner account (env.claimAt round).1 (env.claimAt round).2 with
      | .error _ => .error "规则任务读取失败"
      | .ok (none, db') => .ok (.exhausted db (env.claimAt round).1, db')
      | .ok (some work, claimed) =>
        match env.result round work with
        | none => .error "only remote actions enter the outbox"
        | some result =>
          match finishRuleAction claimed owner work result (env.finishAt round).1
              (env.finishAt round).2 with
          | .error _ => .error "规则执行结果保存失败"
          | .ok db' => drainRules env owner account round db'

/-- Pending, not leased, and no earlier run of the same message is open. -/
def claimable (runs : List MailRuleRun) (owner account : String) (now : Time)
    (r : MailRuleRun) : Bool :=
  r.userId == owner && r.accountId == account && r.status = .pending &&
    (r.leaseUntil.all (· ≤ now)) && !blockedRun runs r

/-- The ids of the runs are a unique column. -/
def RunIdsUnique (runs : List MailRuleRun) : Prop := UniqueBy (fun r => some r.id) runs

section

variable {db db' before : Db} {owner account : String} {now later : Time}
  {runs : List MailRuleRun} {run r : MailRuleRun}

theorem RunIdsUnique.updateWhere (h : RunIdsUnique runs) {p : MailRuleRun → Bool}
    {f : MailRuleRun → MailRuleRun} (hf : ∀ r, (f r).id = r.id) :
    RunIdsUnique (updateWhere p f runs) := by
  apply UniqueBy.updateWhere h
  intro r _ _ k hk
  rw [← hk, hf]

theorem RunIdsUnique.claim (h : RunIdsUnique db.mailRuleRuns) {work : Option RuleWork}
    (hclaim : claimRuleAction db owner account now later = .ok (work, db')) :
    RunIdsUnique db'.mailRuleRuns := by
  have hrecovered : RunIdsUnique (db.recoverRuns owner account now) :=
    recoverRuns_ids h owner account now
  cases claimRuleAction_ok hclaim with
  | nothing => exact hrecovered
  | lost | handsOut => exact hrecovered.updateWhere fun _ => rfl

theorem RunIdsUnique.finish (h : RunIdsUnique db.mailRuleRuns) {work : RuleWork}
    {result : Except String (Option RemoteMessageMoveResult)}
    (hfinish : finishRuleAction db owner work result now later = .ok db') :
    RunIdsUnique db'.mailRuleRuns := by
  cases finishRuleAction_ok hfinish <;> exact h.updateWhere fun _ => rfl

theorem nextRun_eq_none :
    nextRun runs owner account now = none ↔
      ∀ r ∈ runs, claimable runs owner account now r = false := by
  simp only [nextRun, firstBy_eq_none, List.filter_eq_nil_iff, Bool.not_eq_true]
  rfl

theorem nextRun_claimable (h : nextRun runs owner account now = some run) :
    run ∈ runs ∧ claimable runs owner account now run = true :=
  List.mem_filter.mp (firstBy_mem h)

theorem blockedRun_failed (hunique : RunIdsUnique runs) (hrun : run ∈ runs)
    (hpending : run.status = .pending) (now : Time) (r : MailRuleRun) :
    blockedRun (updateWhere (fun r => r.id == run.id) (messageLost now) runs) r =
      blockedRun runs r := by
  rw [blockedRun, blockedRun, updateWhere, List.any_map, Bool.eq_iff_iff, List.any_eq_true,
    List.any_eq_true]
  apply exists_congr
  intro earlier
  apply and_congr_right
  intro hearlier
  rw [Function.comp_apply]
  split_ifs with hid
  · have hsame : earlier = run :=
      hunique.eq_of_mem hearlier hrun rfl (congrArg some (beq_iff_eq.mp hid).symm)
    rw [hsame, hpending]
    rfl
  · rfl

theorem claimable_after (hunique : RunIdsUnique db.mailRuleRuns)
    (h : claimRuleAction db owner account now later = .ok (none, db')) :
    (∀ r ∈ db'.mailRuleRuns, claimable db'.mailRuleRuns owner account now r = false) ↔
      ∀ r ∈ db.recoverRuns owner account now, ∀ s ∈ db.recoverRuns owner account now,
        claimable (db.recoverRuns owner account now) owner account now r = true →
        claimable (db.recoverRuns owner account now) owner account now s = true → r = s := by
  cases claimRuleAction_ok h with
  | nothing hnone =>
    have hfree := nextRun_eq_none.mp hnone
    refine ⟨fun _ r hr s _ hclaim => ?_, fun _ => hfree⟩
    rw [hfree r hr] at hclaim
    cases hclaim
  | @lost run hrun =>
    obtain ⟨hmem, hclaimrun⟩ := nextRun_claimable hrun
    have hpending : run.status = .pending := by
      simp only [claimable, Bool.and_eq_true, decide_eq_true_eq] at hclaimrun
      exact hclaimrun.1.1.2
    have hunique : RunIdsUnique (db.recoverRuns owner account now) :=
      recoverRuns_ids hunique owner account now
    have hblocked := blockedRun_failed hunique hmem hpending now
    dsimp only
    constructor
    · intro hfree r hr s hs hclaimr hclaims
      have hown : ∀ r ∈ db.recoverRuns owner account now,
          claimable (db.recoverRuns owner account now) owner account now r = true → r = run := by
        intro r hr hclaim
        by_contra hne
        have hid : (r.id == run.id) = false := by
          rw [beq_eq_false_iff_ne]
          intro hid
          exact hne (hunique.eq_of_mem hr hmem (k := run.id) (congrArg some hid) rfl)
        have hfalse := hfree r (mem_updateWhere.mpr (Or.inr ⟨hr, hid⟩))
        rw [claimable, hblocked r, ← claimable, hclaim] at hfalse
        cases hfalse
      rw [hown r hr hclaimr, hown s hs hclaims]
    · intro hone r hr
      rw [claimable, hblocked r, ← claimable]
      rcases mem_updateWhere.mp hr with ⟨old, _, _, rfl⟩ | ⟨hold, hid⟩
      · simp [claimable, messageLost]
      · by_contra hclaim
        rw [Bool.not_eq_false] at hclaim
        rw [hone r hold run hmem hclaim hclaimrun, beq_self_eq_true] at hid
        cases hid

theorem drainRules_exhausted {env : DrainEnvironment} {rounds : ℕ}
    (hunique : RunIdsUnique db.mailRuleRuns)
    (h : drainRules env owner account rounds db = .ok (.exhausted before now, db')) :
    RunIdsUnique before.mailRuleRuns ∧
      ∃ later, claimRuleAction before owner account now later = .ok (none, db') := by
  induction rounds generalizing db with
  | zero => cases h
  | succ round ih =>
    rw [drainRules] at h
    split_ifs at h
    · cases h
    · split at h
      · cases h
      · rename_i hclaim
        cases h
        exact ⟨hunique, _, hclaim⟩
      · rename_i work claimed hclaim
        split at h
        · cases h
        · split at h
          · cases h
          · rename_i hfinish
            exact ih ((hunique.claim hclaim).finish hfinish) h

/-- The loop that ends with a claim of none leaves nothing to claim if and only if at most one run
could be claimed then. -/
theorem drain_leaves_none_iff {env : DrainEnvironment} (hunique : RunIdsUnique db.mailRuleRuns)
    (h : drainRules env owner account 10000 db = .ok (.exhausted before now, db')) :
    (∀ r ∈ db'.mailRuleRuns, claimable db'.mailRuleRuns owner account now r = false) ↔
      ∀ r ∈ before.recoverRuns owner account now, ∀ s ∈ before.recoverRuns owner account now,
        claimable (before.recoverRuns owner account now) owner account now r = true →
        claimable (before.recoverRuns owner account now) owner account now s = true → r = s := by
  obtain ⟨hbefore, later, hclaim⟩ := drainRules_exhausted hunique h
  exact claimable_after hbefore hclaim

end

def markReadRun (sequence : ℕ) (id messageId : String) : MailRuleRun :=
  { sequence, id, userId := "u", ruleId := "r", ruleName := "Read", revision := 1, accountId := "a",
    messageId, identity := "local:" ++ messageId, source := .automatic, status := .pending,
    actions := [.markRead true], localActions := 0, createdAt := 0, updatedAt := 0 }

def drainDb (cached : List String) (runs : List MailRuleRun) : Db where
  accounts := [{ id := "a", userId := "u", email := "a@example.org", createdAt := 0 }]
  messages := cached.mapIdx fun k id =>
    { id, accountId := "a", mailbox := "INBOX", mailboxRole := "inbox", uid := k + 1 }
  mailRules := [⟨"r", "u", 1, ⟨"Read", true, 0, [], .all, [.unread true], [.markRead true], false⟩, 0, 0⟩]
  mailRuleRuns := runs

def calmDrain : DrainEnvironment where
  cancelled := fun _ => false
  claimAt := fun round => (10000 - round, 10000 - round)
  finishAt := fun round => (10000 - round, 10000 - round)
  updateFlags := fun _ _ => true
  moveMessage := fun _ _ => none

def twoRuns : List MailRuleRun := [markReadRun 1 "r1" "m1", markReadRun 2 "r2" "m2"]

theorem drain_leaves_none_two :
    ∃ before now db', drainRules calmDrain "u" "a" 10000 (drainDb ["m1", "m2"] twoRuns) =
        .ok (.exhausted before now, db') ∧
      ∀ r ∈ db'.mailRuleRuns, claimable db'.mailRuleRuns "u" "a" now r = false := by
  refine ⟨_, _, _, rfl, ?_⟩
  apply (@drain_leaves_none_iff (drainDb ["m1", "m2"] twoRuns) _ _ "u" "a" _ calmDrain
    (UniqueBy.of_nodup_map (by decide)) rfl).mpr
  decide +kernel

/-- The first run is marked as failed for its message, and the second one, which is of another
message, is left. -/
theorem vanished_message_ends_drain :
    RunIdsUnique twoRuns ∧ ∃ before now db',
      drainRules calmDrain "u" "a" 10000 (drainDb ["m2"] twoRuns) =
        .ok (.exhausted before now, db') ∧
      ∃ r ∈ db'.mailRuleRuns, claimable db'.mailRuleRuns "u" "a" now r = true := by
  constructor
  · apply UniqueBy.of_nodup_map
    decide
  · exact ⟨_, _, _, rfl, by decide +kernel⟩

end IMail
