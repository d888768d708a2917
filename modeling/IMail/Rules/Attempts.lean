import IMail.Rules.QueueSafety

/-!
# Attempts at a remote action

`claim_rule_action` counts the attempts at the next action of a run, and `finish_rule_action`
gives the action up when a third attempt fails. A worker that is lost reports nothing: its run
goes back to the queue when a later claim finds the lease over, whatever the count is.

The log of a history has the events that begin a new series of attempts, and the attempts.
-/

namespace IMail

open Relational Transition Relation

inductive RunEvent
  | created (id : String)
  | revived (id : String)
  | handedOut (id : String) (index : ℕ)
  | succeeded (id : String) (index : ℕ)
  deriving DecidableEq, Repr

def RunEvent.resets (id : String) (index : ℕ) : RunEvent → Bool
  | .created run | .revived run => run == id
  | .succeeded run done => run == id && done == index
  | .handedOut .. => false

def handedSince (log : List RunEvent) (id : String) (index : ℕ) : ℕ :=
  log.foldl (fun n event =>
    if event.resets id index then 0 else if event = .handedOut id index then n + 1 else n) 0

theorem handedSince_append (log : List RunEvent) (event : RunEvent) (id : String) (index : ℕ) :
    handedSince (log ++ [event]) id index =
      if event.resets id index then 0
      else if event = .handedOut id index then handedSince log id index + 1
      else handedSince log id index := by
  simp [handedSince]

def createdRuns (before after : List MailRuleRun) : List RunEvent :=
  (after.filter fun r => !before.any fun old => old.id == r.id).map fun r => .created r.id

section

variable [Platform]

/-- What a call does to the runs. -/
def RuleWorld.events (w : RuleWorld) (op : RuleOp) : List RunEvent :=
  match op with
  | .claimRuleAction .. => (w.issued op).toList.map fun work => .handedOut work.id work.index
  | .finishRuleAction owner k (.ok moved) now later =>
    match w.works[k]? with
    | none => []
    | some work =>
      if (IMail.finishRuleAction w.db owner work (.ok moved) now later).isOk then
        [.succeeded work.id work.index]
      else []
  | .retryMailRuleRun newId owner id now =>
    if (IMail.retryMailRuleRun w.db newId owner id now).toOption.any Prod.fst then [.revived id]
    else []
  | .commitMailboxSync .. | .applyMailRulePreview .. =>
    createdRuns w.db.mailRuleRuns (w.step op).db.mailRuleRuns
  | .finishRuleAction _ _ (.error _) _ _ | .saveMailRule .. | .deleteMailRule ..
  | .previewMailRule .. => []

structure AttemptWorld where
  rules : RuleWorld
  log : List RunEvent := []

def AttemptWorld.step (w : AttemptWorld) (op : RuleOp) : AttemptWorld :=
  { rules := w.rules.step op, log := w.log ++ w.rules.events op }

end

/-- A claim that finds the lease of a third attempt over leaves the run for review or cancels
it. -/
def ThirdReported (w : AttemptWorld) : RuleOp → Prop
  | .claimRuleAction owner account now _ =>
    ∀ r ∈ w.rules.db.mailRuleRuns, r.userId = owner → r.accountId = account →
      r.status = .running → r.leaseUntil.any (· < now) = true →
      r.attempts < 3 ∨ r.actions[r.completedActions]? = some .archive ∨
        w.rules.db.currentRevision r = false
  | .finishRuleAction .. | .saveMailRule .. | .deleteMailRule .. | .retryMailRuleRun ..
  | .commitMailboxSync .. | .previewMailRule .. | .applyMailRulePreview .. => True

instance (w : AttemptWorld) : (op : RuleOp) → Decidable (ThirdReported w op)
  | .claimRuleAction .. => inferInstanceAs (Decidable (∀ r ∈ w.rules.db.mailRuleRuns, _))
  | .finishRuleAction .. | .saveMailRule .. | .deleteMailRule .. | .retryMailRuleRun ..
  | .commitMailboxSync .. | .previewMailRule .. | .applyMailRulePreview .. => isTrue trivial

/-- The count of a run covers the attempts at its next action, and there were none at the
others. -/
structure Tried (log : List RunEvent) (r : MailRuleRun) : Prop where
  next : handedSince log r.id r.completedActions ≤ r.attempts
  others : ∀ index, index ≠ r.completedActions → handedSince log r.id index = 0
  limit : r.attempts ≤ 3
  waiting : r.status = .pending → r.attempts < 3

section

variable {log : List RunEvent} {r r' : MailRuleRun}

theorem Tried.congr (h : Tried log r) (hid : r'.id = r.id)
    (hindex : r'.completedActions = r.completedActions) (hattempts : r'.attempts = r.attempts)
    (hwaiting : r'.status = .pending → r.status = .pending ∨ r.attempts < 3) : Tried log r' := by
  constructor
  · rw [hid, hindex, hattempts]
    exact h.next
  · rw [hid, hindex]
    exact h.others
  · rw [hattempts]
    exact h.limit
  · intro hpending
    rw [hattempts]
    exact (hwaiting hpending).elim h.waiting id

theorem Tried.append_other (h : Tried log r) {event : RunEvent}
    (hresets : ∀ index, event.resets r.id index = false)
    (hother : ∀ index, event ≠ .handedOut r.id index) : Tried (log ++ [event]) r := by
  have hsame : ∀ index, handedSince (log ++ [event]) r.id index = handedSince log r.id index := by
    intro index
    rw [handedSince_append, hresets, if_neg Bool.false_ne_true, if_neg (hother index)]
  constructor
  · rw [hsame]
    exact h.next
  · intro index hindex
    rw [hsame]
    exact h.others index hindex
  · exact h.limit
  · exact h.waiting

theorem Tried.handedOut (h : Tried log r) (hpending : r.status = .pending) (lease now : Time) :
    Tried (log ++ [.handedOut r.id r.completedActions]) (IMail.handedOut lease now r) := by
  have hlt := h.waiting hpending
  have hnext := h.next
  constructor
  · simp only [IMail.handedOut, handedSince_append, RunEvent.resets, Bool.false_eq_true, if_false,
      if_true]
    omega
  · intro index hindex
    have hne : RunEvent.handedOut r.id r.completedActions ≠ .handedOut r.id index := by
      intro heq
      exact hindex (RunEvent.handedOut.inj heq).2.symm
    simp only [IMail.handedOut, handedSince_append, RunEvent.resets, Bool.false_eq_true, if_false,
      if_neg hne]
    exact h.others index hindex
  · dsimp only [IMail.handedOut]
    omega
  · intro hrunning
    cases hrunning

theorem Tried.succeeded (h : Tried log r) (db : Db) (now : Time) :
    Tried (log ++ [.succeeded r.id r.completedActions]) (db.advanceRun now r) := by
  have hzero : ∀ index,
      handedSince (log ++ [.succeeded r.id r.completedActions]) r.id index = 0 := by
    intro index
    rw [handedSince_append]
    by_cases hindex : index = r.completedActions
    · simp [RunEvent.resets, hindex]
    · simp only [RunEvent.resets, beq_self_eq_true, Bool.true_and, beq_iff_eq,
        if_neg (Ne.symm hindex), reduceCtorEq, if_false]
      exact h.others index hindex
  exact ⟨(hzero _).le, fun index _ => hzero index, Nat.zero_le _, fun _ => Nat.zero_lt_succ _⟩

theorem tried_of_zero (hzero : ∀ index, handedSince log r.id index = 0) (hattempts : r.attempts = 0) :
    Tried log r := by
  refine ⟨(hzero _).le.trans (Nat.zero_le _), fun index _ => hzero index, ?_, ?_⟩
  · omega
  · intro _
    omega

end

/-- In every state: what the counts of the runs cover. -/
structure TriedInv (w : AttemptWorld) : Prop where
  table : w.rules.table.Inv
  tried : ∀ r ∈ w.rules.db.mailRuleRuns, Tried w.log r

variable {db db' : Db} {owner account : String} {now later : Time}

theorem tried_recoverRuns {log : List RunEvent} (h : ∀ r ∈ db.mailRuleRuns, Tried log r)
    (hreported : ∀ r ∈ db.mailRuleRuns, r.userId = owner → r.accountId = account →
      r.status = .running → r.leaseUntil.any (· < now) = true →
      r.attempts < 3 ∨ r.actions[r.completedActions]? = some .archive ∨
        db.currentRevision r = false) : ∀ r ∈ db.recoverRuns owner account now, Tried log r := by
  intro r hr
  rcases mem_updateWhere.mp hr with ⟨mid, hmid, _, rfl⟩ | ⟨hmid, hkept⟩
  · -- The run is of an older revision and is cancelled.
    rcases mem_updateWhere.mp hmid with ⟨old, hold, _, rfl⟩ | ⟨hold, _⟩
    · exact (h old hold).congr rfl rfl rfl fun hpending => by cases hpending
    · exact (h mid hold).congr rfl rfl rfl fun hpending => by cases hpending
  · rcases mem_updateWhere.mp hmid with ⟨old, hold, hsel, rfl⟩ | ⟨hold, _⟩
    · simp only [Bool.and_eq_true, beq_iff_eq, decide_eq_true_eq] at hsel
      obtain ⟨⟨⟨howner, haccount⟩, hrunning⟩, hover⟩ := hsel
      refine (h old hold).congr rfl rfl rfl fun hpending => Or.inr ?_
      rcases hreported old hold howner haccount hrunning hover with hlt | harchive | hrevision
      · exact hlt
      · simp [interruptedRun, harchive] at hpending
      · -- A pending run of an older revision would have been selected.
        have hsame : db.currentRevision (interruptedRun now old) = db.currentRevision old := rfl
        have hfields : (interruptedRun now old).userId = owner ∧
            (interruptedRun now old).accountId = account := ⟨howner, haccount⟩
        simp [hfields, hpending, hsame, hrevision] at hkept
    · exact h r hold

section

variable [Platform] {w : AttemptWorld}

theorem tried_claim (h : TriedInv w) {owner account : String} {now later : Time}
    (hreported : ThirdReported w (.claimRuleAction owner account now later)) :
    ∀ r ∈ (w.step (.claimRuleAction owner account now later)).rules.db.mailRuleRuns,
      Tried (w.step (.claimRuleAction owner account now later)).log r := by
  simp only [AttemptWorld.step, RuleWorld.step, RuleWorld.events, RuleWorld.issued]
  cases hclaim : claimRuleAction w.rules.db owner account now later with
  | error e => simpa using h.tried
  | ok result =>
    obtain ⟨work, db⟩ := result
    have hrecovered := tried_recoverRuns h.tried hreported
    have hids := recoverRuns_ids h.table.ids owner account now
    dsimp only
    cases claimRuleAction_ok hclaim with
    | nothing => simpa using hrecovered
    | lost =>
      simp only [Option.toList_none, List.map_nil, List.append_nil]
      apply forall_updateWhere
      · exact fun r hr _ => hrecovered r hr
      · exact fun r hr _ => (hrecovered r hr).congr rfl rfl rfl fun hfailed => by cases hfailed
    | @handsOut run _ _ next =>
      obtain ⟨hrun, _, _, hpending, _⟩ := nextRun_some next
      simp only [Option.toList_some, List.map_cons, List.map_nil]
      apply forall_updateWhere
      · intro r hr hne
        have hother : run.id ≠ r.id := fun heq => by simp [heq] at hne
        apply (hrecovered r hr).append_other
        · exact fun _ => rfl
        · exact fun _ heq => hother (RunEvent.handedOut.inj heq).1
      · intro r hr hsel
        have hself : r = run := hids.eq_of_mem hr hrun rfl (congrArg some (beq_iff_eq.mp hsel).symm)
        rw [hself]
        exact (hrecovered run hrun).handedOut hpending _ now

theorem tried_finish (h : TriedInv w) (owner : String) (k : ℕ)
    (result : Except String (Option RemoteMessageMoveResult)) (now later : Time) :
    ∀ r ∈ (w.step (.finishRuleAction owner k result now later)).rules.db.mailRuleRuns,
      Tried (w.step (.finishRuleAction owner k result now later)).log r := by
  cases hk : w.rules.works[k]? with
  | none => cases result <;> simpa [AttemptWorld.step, RuleWorld.step, RuleWorld.events, hk]
      using h.tried
  | some work =>
    cases hfinish : finishRuleAction w.rules.db owner work result now later with
    | error e =>
      cases result <;> simpa [AttemptWorld.step, RuleWorld.step, RuleWorld.events, hk, hfinish,
        Except.isOk, Except.toBool] using h.tried
    | ok db =>
      have hresult := finishRuleAction_ok hfinish
      obtain ⟨run, hrun, hid, _, hindex, _⟩ :=
        valid_row h.table (List.mem_of_getElem? hk) hresult.is_valid
      have hself : ∀ r ∈ w.rules.db.mailRuleRuns, (r.id == work.id) = true → r = run :=
        fun r hr hsel => h.table.eq_of_id hr hrun ((beq_iff_eq.mp hsel).trans hid.symm)
      cases hresult with
      | succeeds =>
        simp only [AttemptWorld.step, RuleWorld.step, RuleWorld.events, hk, hfinish, Except.isOk,
          Except.toBool, if_true]
        apply forall_updateWhere
        · intro r hr hne
          have hother : work.id ≠ r.id := fun heq => by simp [heq] at hne
          apply (h.tried r hr).append_other
          · exact fun _ => by simp [RunEvent.resets, hother]
          · exact fun _ heq => by cases heq
        · intro r hr hsel
          rw [hself r hr hsel, ← hid, ← hindex]
          exact (h.tried run hrun).succeeded w.rules.db now
      | fails =>
        simp only [AttemptWorld.step, RuleWorld.step, RuleWorld.events, hk, hfinish,
          List.append_nil]
        apply forall_updateWhere
        · exact fun r hr _ => h.tried r hr
        · intro r hr _
          refine (h.tried r hr).congr rfl rfl rfl fun hpending => Or.inr ?_
          simp only [Db.failRun] at hpending
          split_ifs at hpending with _ _ hlimit
          omega

omit [Platform] in
theorem tried_created_old {log : List RunEvent} {before after : List MailRuleRun} {r : MailRuleRun}
    (hr : r ∈ before) (h : Tried log r) : Tried (log ++ createdRuns before after) r := by
  have hnew : ∀ event ∈ createdRuns before after, ∃ id, event = .created id ∧ id ≠ r.id := by
    intro event hevent
    obtain ⟨new, hmem, rfl⟩ := List.mem_map.mp hevent
    refine ⟨new.id, rfl, fun heq => ?_⟩
    have hnone := (List.mem_filter.mp hmem).2
    simp only [Bool.not_eq_true', List.any_eq_false] at hnone
    exact hnone r hr (by simp [heq])
  generalize createdRuns before after = events at hnew
  induction events generalizing log with
  | nil => simpa using h
  | cons event events ih =>
    obtain ⟨id, rfl, hne⟩ := hnew event List.mem_cons_self
    have hone : Tried (log ++ [.created id]) r := by
      apply h.append_other
      · exact fun _ => by simp [RunEvent.resets, hne]
      · exact fun _ heq => by cases heq
    have hrest := ih hone fun e he => hnew e (List.mem_cons_of_mem _ he)
    simpa using hrest

omit [Platform] in
theorem handedSince_created {log events : List RunEvent} {id : String} {index : ℕ}
    (hevents : ∀ event ∈ events, ∃ run, event = .created run)
    (h : handedSince log id index = 0 ∨ .created id ∈ events) :
    handedSince (log ++ events) id index = 0 := by
  induction events generalizing log with
  | nil => simpa using h
  | cons event events ih =>
    obtain ⟨run, rfl⟩ := hevents event List.mem_cons_self
    have hrest : handedSince ((log ++ [.created run]) ++ events) id index = 0 := by
      apply ih fun e he => hevents e (List.mem_cons_of_mem _ he)
      rw [handedSince_append]
      by_cases hrun : run = id
      · simp [RunEvent.resets, hrun]
      · simp only [RunEvent.resets, beq_iff_eq, hrun, if_false, reduceCtorEq]
        rcases h with h | h
        · exact Or.inl h
        · rcases List.mem_cons.mp h with heq | h
          · exact absurd (RunEvent.created.inj heq).symm hrun
          · exact Or.inr h
    simpa using hrest

omit [Platform] in
theorem tried_inserts {log : List RunEvent} {P : MailRuleRun → Prop}
    (hP : ∀ run, P run → run.attempts = 0) {rows rows' : List MailRuleRun × ℕ}
    (hinserts : ReflTransGen (RunInsert P) rows rows') (h : ∀ r ∈ rows.1, Tried log r) :
    ∀ r ∈ rows'.1, Tried (log ++ createdRuns rows.1 rows'.1) r := by
  have horigin : ∀ r ∈ rows'.1, r ∈ rows.1 ∨ (r.attempts = 0 ∧ ∀ old ∈ rows.1, old.id ≠ r.id) := by
    induction hinserts with
    | refl => exact fun r hr => Or.inl hr
    | @tail mid last hbefore hinsert ih =>
      cases hinsert with
      | @mk runs n run from_rule sequence_eq free =>
        intro r hr
        rcases List.mem_append.mp hr with hr | hr
        · exact ih r hr
        · rw [List.mem_singleton.mp hr]
          refine Or.inr ⟨hP run from_rule, fun old hold heq => ?_⟩
          have hfree := free old (mem_of_runInserts hbefore hold)
          simp [MailRuleRun.conflicts, heq] at hfree
  intro r hr
  rcases horigin r hr with hold | ⟨hattempts, hnew⟩
  · exact tried_created_old hold (h r hold)
  · refine tried_of_zero (fun index => handedSince_created ?_ (Or.inr ?_)) hattempts
    · intro event hevent
      obtain ⟨new, _, rfl⟩ := List.mem_map.mp hevent
      exact ⟨new.id, rfl⟩
    · apply List.mem_map.mpr
      refine ⟨r, List.mem_filter.mpr ⟨hr, ?_⟩, rfl⟩
      simp only [Bool.not_eq_true', List.any_eq_false, beq_iff_eq]
      exact hnew

theorem tried_retry (h : TriedInv w) (newId owner id : String) (now : Time) :
    ∀ r ∈ (w.step (.retryMailRuleRun newId owner id now)).rules.db.mailRuleRuns,
      Tried (w.step (.retryMailRuleRun newId owner id now)).log r := by
  simp only [AttemptWorld.step, RuleWorld.step, RuleWorld.events]
  cases hretry : retryMailRuleRun w.rules.db newId owner id now with
  | error e => simpa [Except.map, Except.toOption] using h.tried
  | ok result =>
    obtain ⟨found, db⟩ := result
    rcases retryMailRuleRun_runs hretry with ⟨rfl, rfl⟩ | ⟨rfl, -, hrows⟩
    · simpa [Except.map, Except.toOption] using h.tried
    · have hruns := congrArg Prod.fst hrows
      simp only [Db.runRows] at hruns
      change ∀ r ∈ _, Tried (w.log ++ [.revived id]) r
      simp only [Except.map, committed_ok, hruns]
      apply forall_updateWhere
      · intro r hr hne
        have hother : id ≠ r.id := fun heq => by simp [heq] at hne
        apply (h.tried r hr).append_other
        · exact fun _ => by simp [RunEvent.resets, hother]
        · exact fun _ heq => by cases heq
      · intro r hr hsel
        apply tried_of_zero _ rfl
        intro index
        rw [handedSince_append,
          if_pos (by simpa [RunEvent.resets, MailRuleRun.retried] using (beq_iff_eq.mp hsel).symm)]

theorem TriedInv.step (h : TriedInv w) (op : RuleOp) (hreported : ThirdReported w op) :
    TriedInv (w.step op) := by
  refine ⟨step_inv op h.table, ?_⟩
  have hcancel : ∀ (db : Db) (owner ruleId : String) (now : Time),
      db.mailRuleRuns = w.rules.db.mailRuleRuns →
      ∀ r ∈ (db.cancelRule owner ruleId now).mailRuleRuns, Tried w.log r := by
    intro db owner ruleId now hdb
    apply forall_updateWhere
    · exact fun r hr _ => h.tried r (hdb ▸ hr)
    · exact fun r hr _ => (h.tried r (hdb ▸ hr)).congr rfl rfl rfl fun hpending => by cases hpending
  cases op with
  | claimRuleAction owner account now later => exact tried_claim h hreported
  | finishRuleAction owner k result now later => exact tried_finish h owner k result now later
  | saveMailRule newId owner id input now =>
    simp only [AttemptWorld.step, RuleWorld.step, RuleWorld.events, List.append_nil]
    cases hsave : saveMailRule w.rules.db newId owner id input now with
    | error e => exact h.tried
    | ok result =>
      obtain ⟨rule, db⟩ := result
      cases rule with
      | none =>
        rw [saveMailRule_none hsave]
        exact h.tried
      | some rule =>
        rw [(saveMailRule_ok hsave).1]
        exact hcancel _ owner rule.id now rfl
  | deleteMailRule owner id now =>
    simp only [AttemptWorld.step, RuleWorld.events, List.append_nil]
    exact hcancel _ owner id now rfl
  | retryMailRuleRun newId owner id now => exact tried_retry h newId owner id now
  | commitMailboxSync runIds plan completedAt =>
    simp only [AttemptWorld.step, RuleWorld.events]
    cases hcommit : commitMailboxSync w.rules.db runIds plan completedAt with
    | error e =>
      simp only [RuleWorld.step, hcommit, Except.map, committed_error]
      exact fun r hr => tried_created_old hr (h.tried r hr)
    | ok result =>
      obtain ⟨account, _, hinserts⟩ := commitMailboxSync_inserts hcommit
      simp only [RuleWorld.step, hcommit, Except.map, committed_ok]
      apply tried_inserts _ hinserts h.tried
      rintro run ⟨m, _, hrun⟩
      exact hrun.new_run.untried
  | previewMailRule newId owner input savedId now =>
    simp only [AttemptWorld.step, RuleWorld.step, RuleWorld.events, List.append_nil]
    cases hpreview : previewMailRule w.rules.db newId owner input savedId now with
    | error e => exact h.tried
    | ok result =>
      obtain ⟨preview, db⟩ := result
      simp only [Except.map, committed_ok]
      rw [previewMailRule_frame hpreview]
      exact h.tried
  | applyMailRulePreview jobIds runIds owner token now =>
    simp only [AttemptWorld.step, RuleWorld.events]
    cases happly : applyMailRulePreview w.rules.db jobIds runIds owner token now with
    | error e =>
      simp only [RuleWorld.step, happly, Except.map, committed_error]
      exact fun r hr => tried_created_old hr (h.tried r hr)
    | ok result =>
      simp only [RuleWorld.step, happly, Except.map, committed_ok]
      apply tried_inserts _ (applyMailRulePreview_inserts happly) h.tried
      rintro run ⟨m, hrun⟩
      exact hrun.untried

/-- In every state of a history from an empty queue in which claims find third attempts reported,
an action has been handed out at most three times in its series; after three times its run waits
for the last result or is failed, left for review, cancelled or done. -/
theorem rule_attempts_bounded {db : Db} (hempty : db.mailRuleRuns = []) {ops : List RuleOp}
    (hreported : Along AttemptWorld.step ThirdReported ⟨{ db }, []⟩ ops) :
    let w := exec AttemptWorld.step ⟨{ db }, []⟩ ops
    ∀ r ∈ w.rules.db.mailRuleRuns, ∀ index, handedSince w.log r.id index ≤ 3 ∧
      (handedSince w.log r.id index = 3 → r.status = .running ∨ r.status = .failed ∨
        r.status = .needsReview ∨ r.status = .cancelled ∨ r.status = .succeeded) := by
  intro w
  have hstart : TriedInv ⟨{ db }, []⟩ := by
    refine ⟨RunTable.Inv.empty hempty, ?_⟩
    simp [hempty]
  have hend : TriedInv w := invariant_along TriedInv (fun _ op h hop => h.step op hop) hstart
    hreported
  intro r hr index
  have htried := hend.tried r hr
  have hle : handedSince w.log r.id index ≤ r.attempts := by
    by_cases hindex : index = r.completedActions
    · rw [hindex]
      exact htried.next
    · rw [htried.others index hindex]
      exact Nat.zero_le _
  refine ⟨hle.trans htried.limit, fun hthree => ?_⟩
  cases hstatus : r.status with
  | pending =>
    have hlt := htried.waiting hstatus
    omega
  | running | failed | needsReview | cancelled | succeeded => simp

end

def refusedOps : List RuleOp :=
  [.commitMailboxSync (fun _ _ _ => "run") inboxPlan 0,
    .claimRuleAction "u" "a" 0 0, .finishRuleAction "u" 0 (.error "") 1 1,
    .claimRuleAction "u" "a" 60001 60001, .finishRuleAction "u" 1 (.error "") 60002 60002,
    .claimRuleAction "u" "a" 120002 120002, .finishRuleAction "u" 2 (.error "") 120003 120003]

theorem rule_attempts_bounded_refused :
    let _ := Platform.plain
    Along AttemptWorld.step ThirdReported ⟨{ db := archiveDb }, []⟩ refusedOps ∧
      (exec AttemptWorld.step ⟨{ db := archiveDb }, []⟩ refusedOps).rules.db.mailRuleRuns.map
        (fun r => (r.id, r.status)) = [("run", .failed)] ∧
      handedSince (exec AttemptWorld.step ⟨{ db := archiveDb }, []⟩ refusedOps).log "run" 0 = 3 ∧
      ∀ r ∈ (exec AttemptWorld.step ⟨{ db := archiveDb }, []⟩ refusedOps).rules.db.mailRuleRuns,
        handedSince (exec AttemptWorld.step ⟨{ db := archiveDb }, []⟩ refusedOps).log r.id 0 ≤ 3 := by
  intro _
  have hreported : Along AttemptWorld.step ThirdReported ⟨{ db := archiveDb }, []⟩ refusedOps := by
    decide +kernel
  refine ⟨hreported, by decide +kernel, by decide +kernel, ?_⟩
  intro r hr
  exact (rule_attempts_bounded rfl hreported r hr 0).1

def lostWorkersOps : List RuleOp :=
  [.commitMailboxSync (fun _ _ _ => "run") inboxPlan 0,
    .claimRuleAction "u" "a" 0 0,
    .claimRuleAction "u" "a" 600001 600001,
    .claimRuleAction "u" "a" 1200002 1200002,
    .claimRuleAction "u" "a" 1800003 1800003]

/-- The fourth worker gets the action as well. -/
theorem rule_attempts_unbounded :
    let _ := Platform.plain
    (exec AttemptWorld.step ⟨{ db := archiveDb }, []⟩ lostWorkersOps).rules.db.mailRuleRuns.map
        (fun r => (r.id, r.status)) = [("run", .running)] ∧
      handedSince (exec AttemptWorld.step ⟨{ db := archiveDb }, []⟩ lostWorkersOps).log "run" 0 =
        4 := by
  intro _
  exact ⟨by decide +kernel, by decide +kernel⟩

end IMail
