import IMail.Rules.NewRuns
import IMail.Rules.RunQueue

/-!
# Safety of the queue of rule runs

Every call is a sequence of writes of `RunWrite`, so the invariant of the queue holds after
every history. From it: one running run for a message, actions in order, no action again
after its success, no effect of a result that comes too late, and no archive twice.
-/

namespace IMail

open Relational Transition Relation

variable {now : Time} {r : MailRuleRun}

theorem interruptedRun_move (h : r.status = .running) : RunMove r (interruptedRun now r) := by
  refine ⟨Or.inr (Or.inl h), rfl, le_rfl, ?_, ?_⟩
  · unfold interruptedRun
    dsimp only
    split_ifs <;> decide
  · intro _ harchive _
    simp [interruptedRun, harchive]

theorem RunMove.of_waiting {r' : MailRuleRun} (h : r.status = .pending ∨ r.status = .failed)
    (hfixed : r'.fixed = r.fixed) (hindex : r'.completedActions = r.completedActions)
    (hstopped : r'.status ≠ .running) : RunMove r r' := by
  refine ⟨?_, hfixed, hindex.ge, hstopped, ?_⟩
  · rcases h with h | h
    · exact Or.inl h
    · exact Or.inr (Or.inr h)
  · intro hrunning
    rcases h with h | h <;> rw [h] at hrunning <;> cases hrunning

theorem recoverRuns_writes {w : RuleWorld} {op : RuleOp} (owner account : String) (now : Time) :
    ReflTransGen (RunWrite w op) w.table
      { w.table with runs := w.db.recoverRuns owner account now } := by
  refine .tail (.single (.move (p := fun r => r.userId == owner && r.accountId == account &&
    r.status = .running && r.leaseUntil.any (· < now)) (f := interruptedRun now) ?_)) (.move ?_)
  · intro r _ hp
    simp only [Bool.and_eq_true, decide_eq_true_eq] at hp
    exact interruptedRun_move hp.1.2
  · intro r _ hp
    simp only [Bool.and_eq_true, decide_eq_true_eq] at hp
    exact .of_waiting (Or.inl hp.1.2) rfl rfl (by simp)

variable {db : Db} {owner : String}

variable {account : String} {work : RuleWork}

theorem nextRun_some {run : MailRuleRun}
    (h : nextRun (db.recoverRuns owner account now) owner account now = some run) :
    run ∈ db.recoverRuns owner account now ∧ run.userId = owner ∧ run.accountId = account ∧
      run.status = .pending ∧ db.currentRevision run = true ∧
      Cleared (db.recoverRuns owner account now) run := by
  have hmem := firstBy_mem h
  simp only [List.mem_filter, Bool.and_eq_true, beq_iff_eq, decide_eq_true_eq,
    Bool.not_eq_true'] at hmem
  obtain ⟨hrun, ⟨⟨⟨howner, haccount⟩, hpending⟩, _⟩, hblocked⟩ := hmem
  refine ⟨hrun, howner, haccount, hpending, ?_, ?_⟩
  · rcases mem_updateWhere.mp hrun with ⟨old, _, _, rfl⟩ | ⟨_, hkept⟩
    · cases hpending
    · simpa [howner, haccount, hpending] using hkept
  · intro e he ha hi hlt
    have hfree := List.any_eq_false.mp hblocked e he
    simp only [ha, hi, hlt, beq_self_eq_true, decide_true, Bool.true_and, Bool.or_eq_true,
      decide_eq_true_eq, not_or] at hfree
    cases hstatus : e.status <;> simp_all [RuleRunStatus.settled]

theorem valid_row {t : RunTable} (h : t.Inv) (hwork : work ∈ t.works)
    (hvalid : (t.runs.any fun r => r.id == work.id && r.userId == owner && r.status = .running &&
      r.completedActions == work.index && r.leaseUntil == some work.lease) = true) :
    ∃ run ∈ t.runs, run.id = work.id ∧ run.status = .running ∧
      run.completedActions = work.index ∧ run.leaseUntil = some work.lease ∧
      run.actions[run.completedActions]? = some work.action := by
  obtain ⟨run, hrun, hcols⟩ := List.any_eq_true.mp hvalid
  simp only [Bool.and_eq_true, beq_iff_eq, decide_eq_true_eq] at hcols
  obtain ⟨⟨⟨⟨hid, _⟩, hrunning⟩, hindex⟩, hlease⟩ := hcols
  obtain ⟨r, hr, hhanded⟩ := h.handed work hwork
  have hrun' : r = run := h.eq_of_id hr hrun (hhanded.id_eq.trans hid.symm)
  subst hrun'
  exact ⟨r, hrun, hid, hrunning, hindex, hlease, by rw [hindex, hhanded.action_eq]⟩

theorem advanceRun_move (h : r.status = .running) : RunMove r (db.advanceRun now r) := by
  refine ⟨Or.inr (Or.inl h), rfl, Nat.le_succ _, ?_, ?_⟩
  · unfold Db.advanceRun
    dsimp only
    split_ifs <;> decide
  · intro _ _ hindex
    simp [Db.advanceRun] at hindex

theorem failRun_move {action : RuleAction} {code : String} {later : Time}
    (h : r.status = .running) (haction : r.actions[r.completedActions]? = some action) :
    RunMove r (db.failRun action code now later r) := by
  refine ⟨Or.inr (Or.inl h), rfl, le_rfl, ?_, ?_⟩
  · unfold Db.failRun
    dsimp only
    split_ifs <;> decide
  · intro _ harchive _
    rw [haction] at harchive
    simp [Db.failRun, Option.some.inj harchive]

section

variable [Platform]

variable {w : RuleWorld}

theorem claim_writes (hids : UniqueBy (fun r => some r.id) w.db.mailRuleRuns)
    (owner account : String) (now later : Time) :
    ReflTransGen (RunWrite w (.claimRuleAction owner account now later)) w.table
      (w.step (.claimRuleAction owner account now later)).table := by
  have hrecover : ReflTransGen (RunWrite w (.claimRuleAction owner account now later)) w.table
      { w.table with runs := w.db.recoverRuns owner account now } :=
    recoverRuns_writes owner account now
  have hids' := recoverRuns_ids hids owner account now
  simp only [RuleWorld.step]
  cases hclaim : IMail.claimRuleAction w.db owner account now later with
  | error e => exact .refl
  | ok result =>
    obtain ⟨work, db⟩ := result
    have hissued : w.issued (.claimRuleAction owner account now later) = work := by
      simp [RuleWorld.issued, hclaim]
    cases claimRuleAction_ok hclaim with
    | nothing => simpa [RuleWorld.table] using hrecover
    | lost next =>
      obtain ⟨hrun, _, _, hpending, _⟩ := nextRun_some next
      simp only [RuleWorld.table, Option.toList_none, List.append_nil]
      refine hrecover.tail (.move fun r hr hp => ?_)
      rw [hids'.eq_of_mem hr hrun rfl (by simpa using (beq_iff_eq.mp hp).symm)]
      exact .of_waiting (Or.inl hpending) rfl rfl (by simp [messageLost])
    | handsOut next haction =>
      obtain ⟨hrun, _, _, hpending, hcurrent, hcleared⟩ := nextRun_some next
      exact hrecover.tail (.handOut hrun hpending hcleared hcurrent rfl rfl haction hissued)

theorem finish_writes (h : w.table.Inv) (owner : String) (k : ℕ)
    (result : Except String (Option RemoteMessageMoveResult)) (now later : Time) :
    ReflTransGen (RunWrite w (.finishRuleAction owner k result now later)) w.table
      (w.step (.finishRuleAction owner k result now later)).table := by
  simp only [RuleWorld.step]
  cases hk : w.works[k]? with
  | none => exact .refl
  | some work =>
    dsimp only
    cases hfinish : IMail.finishRuleAction w.db owner work result now later with
    | error e => exact .refl
    | ok db =>
      have hresult := finishRuleAction_ok hfinish
      obtain ⟨run, hrun, hid, hrunning, hindex, hlease, haction⟩ :=
        valid_row h (List.mem_of_getElem? hk) hresult.is_valid
      have hsel : ∀ r ∈ w.db.mailRuleRuns, (r.id == work.id) = true → r = run := fun r hr hp =>
        h.eq_of_id hr hrun ((beq_iff_eq.mp hp).trans hid.symm)
      cases hresult with
      | @succeeds moved =>
        have hmove : RunWrite w (.finishRuleAction owner k (.ok moved) now later) w.table
            { w.table with
              runs := updateWhere (fun r => r.id == work.id) (w.db.advanceRun now)
                w.db.mailRuleRuns } :=
          .move fun r hr hp => by rw [hsel r hr hp]; exact advanceRun_move hrunning
        have hdone : w.db.advanceRun now run ∈
            updateWhere (fun r => r.id == work.id) (w.db.advanceRun now) w.db.mailRuleRuns :=
          mem_updateWhere.mpr (Or.inl ⟨run, hrun, by simpa using hid, rfl⟩)
        have hlt : work.index < (w.db.advanceRun now run).completedActions := by
          simp [Db.advanceRun, hindex]
        exact .tail (.single hmove) (.record hdone hid hlt)
      | fails =>
        refine .single (.move fun r hr hp => ?_)
        rw [hsel r hr hp]
        exact failRun_move hrunning haction

variable {op : RuleOp}

omit [Platform] in
theorem cancelRule_writes (owner ruleId : String) (now : Time) :
    RunWrite w op w.table
      { w.table with runs := (w.db.cancelRule owner ruleId now).mailRuleRuns } := by
  refine .move fun r _ hp => ?_
  simp only [Bool.and_eq_true, Bool.or_eq_true, decide_eq_true_eq] at hp
  exact .of_waiting hp.2 rfl rfl (by simp)

theorem save_writes (w : RuleWorld) (newId owner : String) (id : Option String)
    (input : MailRuleInput) (now : Time) :
    ReflTransGen (RunWrite w (.saveMailRule newId owner id input now)) w.table
      (w.step (.saveMailRule newId owner id input now)).table := by
  simp only [RuleWorld.step]
  cases hsave : IMail.saveMailRule w.db newId owner id input now with
  | error e => exact .refl
  | ok result =>
    obtain ⟨rule, db⟩ := result
    cases rule with
    | none =>
      rw [saveMailRule_none hsave]
      exact .refl
    | some rule =>
      rw [(saveMailRule_ok hsave).1]
      exact .single (cancelRule_writes owner rule.id now)

theorem retry_writes (hids : UniqueBy (fun r => some r.id) w.db.mailRuleRuns)
    (newId owner id : String) (now : Time) :
    ReflTransGen (RunWrite w (.retryMailRuleRun newId owner id now)) w.table
      (w.step (.retryMailRuleRun newId owner id now)).table := by
  simp only [RuleWorld.step]
  cases hretry : IMail.retryMailRuleRun w.db newId owner id now with
  | error e => exact .refl
  | ok result =>
    rcases retryMailRuleRun_runs hretry with ⟨-, hdb⟩ | ⟨-, ⟨run, hrun, hid, hfailed⟩, hrows⟩
    · simp only [Except.map, committed_ok, hdb]
      exact .refl
    · simp only [Db.runRows, Prod.mk.injEq] at hrows
      simp only [RuleWorld.table, Except.map, committed_ok, hrows]
      refine .single (.move fun r hr hp => ?_)
      rw [hids.eq_of_mem hr hrun rfl (by simp [beq_iff_eq.mp hp, hid])]
      exact .of_waiting (Or.inr hfailed) rfl rfl (by simp [MailRuleRun.retried])

omit [Platform] in
theorem inserts_writes {P : MailRuleRun → Prop}
    (hP : ∀ run, P run → (run.status = .pending ∨ run.status = .succeeded) ∧
      w.db.currentRevision run = true)
    {rows rows' : List MailRuleRun × ℕ} (h : ReflTransGen (RunInsert P) rows rows') :
    ReflTransGen (RunWrite w op) ⟨rows.1, rows.2, w.works, w.recorded⟩
      ⟨rows'.1, rows'.2, w.works, w.recorded⟩ := by
  induction h with
  | refl => exact .refl
  | tail _ hinsert ih =>
    cases hinsert with
    | mk from_rule sequence_eq free =>
      obtain ⟨hwaiting, hcurrent⟩ := hP _ from_rule
      exact ih.tail (.insert sequence_eq hwaiting free hcurrent)

omit [Platform] in
theorem NewRun.current {message : Message} {source : RuleRunSource} {run : MailRuleRun}
    (h : NewRun owner (loadRules db owner) message source run) : db.currentRevision run = true := by
  obtain ⟨rule, hrule, hid, hrevision⟩ := h.rule
  obtain ⟨hmem, howner⟩ := mem_loadRules.mp hrule
  apply List.any_eq_true.mpr
  exact ⟨rule, hmem, by simp [hid, hrevision, howner, h.userId_eq]⟩

theorem step_writes (h : w.table.Inv) (op : RuleOp) :
    ReflTransGen (RunWrite w op) w.table (w.step op).table := by
  have hcommitted : ∀ {ε : Type} {op : RuleOp} {r : Except ε Db}, (∀ db', r = .ok db' →
      ReflTransGen (RunWrite w op) w.table { w with db := db' }.table) →
        ReflTransGen (RunWrite w op) w.table { w with db := committed w.db r }.table :=
    fun h => committed_of (P := fun d : Db => ReflTransGen _ w.table { w with db := d }.table) .refl h
  cases op with
  | claimRuleAction owner account now later => exact claim_writes h.ids owner account now later
  | finishRuleAction owner k result now later => exact finish_writes h owner k result now later
  | saveMailRule newId owner id input now => exact save_writes w newId owner id input now
  | deleteMailRule owner id now => exact .single (cancelRule_writes owner id now)
  | retryMailRuleRun newId owner id now => exact retry_writes h.ids newId owner id now
  | commitMailboxSync runIds plan completedAt =>
    refine hcommitted fun db' h => ?_
    obtain ⟨result, h⟩ := map_snd_ok h
    obtain ⟨account, _, hinserts⟩ := commitMailboxSync_inserts h
    refine inserts_writes ?_ hinserts
    rintro run ⟨m, _, hrun⟩
    exact ⟨hrun.new_run.waiting, hrun.new_run.current⟩
  | previewMailRule newId owner input savedId now =>
    refine hcommitted fun db' h => ?_
    obtain ⟨preview, h⟩ := map_snd_ok h
    rw [previewMailRule_frame h]
    exact .refl
  | applyMailRulePreview jobIds runIds owner token now =>
    refine hcommitted fun db' h => ?_
    obtain ⟨count, h⟩ := map_snd_ok h
    refine inserts_writes ?_ (applyMailRulePreview_inserts h)
    rintro run ⟨m, hrun⟩
    exact ⟨hrun.waiting, hrun.current⟩

theorem step_inv (op : RuleOp) (h : w.table.Inv) : (w.step op).table.Inv := by
  have hwrites := step_writes h op
  generalize (w.step op).table = t at hwrites ⊢
  induction hwrites with
  | refl => exact h
  | tail _ hwrite ih => exact runWrite_inv hwrite ih

theorem inv_run (h : w.table.Inv) (ops : List RuleOp) : (w.run ops).table.Inv :=
  invariant_exec (fun w : RuleWorld => w.table.Inv) (fun _ op => step_inv op) ops h

omit [Platform] in
theorem runWrite_done {t t' : RunTable} (hwrite : RunWrite w op t t') (h : t.Inv) (hr : r ∈ t.runs)
    (hdone : r.status.settled = true ∨ r.status = .needsReview) : r ∈ t'.runs := by
  cases hwrite with
  | move moves =>
    refine mem_updateWhere.mpr (Or.inr ⟨hr, ?_⟩)
    by_contra hp
    have hmove := moves r hr (by simpa using hp)
    rcases hdone with hdone | hdone
    · rw [hmove.not_settled] at hdone
      cases hdone
    · rcases hmove.unsettled with h | h | h <;> rw [h] at hdone <;> cases hdone
  | record mem id_eq done => exact hr
  | handOut mem pending cleared current id_eq index_eq action_eq issued =>
    refine mem_updateWhere.mpr (Or.inr ⟨hr, ?_⟩)
    by_contra hp
    have hrun := h.eq_of_id hr mem (by simpa using hp)
    rw [hrun, pending] at hdone
    rcases hdone with hdone | hdone <;> cases hdone
  | insert sequence_eq waiting free current => exact List.mem_append_left _ hr

theorem step_done (h : w.table.Inv) (op : RuleOp) (hr : r ∈ w.db.mailRuleRuns)
    (hdone : r.status.settled = true ∨ r.status = .needsReview) :
    r ∈ (w.step op).db.mailRuleRuns := by
  have hwrites := step_writes h op
  suffices hall : ∀ t, ReflTransGen (RunWrite w op) w.table t → t.Inv ∧ r ∈ t.runs from
    (hall _ hwrites).2
  intro t ht
  induction ht with
  | refl => exact ⟨h, hr⟩
  | tail _ hwrite ih => exact ⟨runWrite_inv hwrite ih.1, runWrite_done hwrite ih.1 ih.2 hdone⟩

theorem step_works (w : RuleWorld) (op : RuleOp) :
    (w.step op).works = w.works ++ (w.issued op).toList := by
  cases op with
  | claimRuleAction owner account now later =>
    simp only [RuleWorld.step, RuleWorld.issued]
    split <;> simp
  | finishRuleAction owner k result now later =>
    simp only [RuleWorld.step, RuleWorld.issued]
    split
    · simp
    · split <;> simp
  | saveMailRule _ _ _ _ _ | deleteMailRule _ _ _ | retryMailRuleRun _ _ _ _
  | commitMailboxSync _ _ _ | previewMailRule _ _ _ _ _ | applyMailRulePreview _ _ _ _ _ =>
    simp [RuleWorld.step, RuleWorld.issued]

end

theorem issued_run {w : RuleWorld} {op : RuleOp} (h : w.issued op = some work) :
    ∃ owner account now later run, op = .claimRuleAction owner account now later ∧
      run ∈ w.db.recoverRuns owner account now ∧ run.id = work.id ∧
      run.completedActions = work.index ∧ run.userId = owner ∧
      w.db.currentRevision run = true := by
  cases op with
  | claimRuleAction owner account now later =>
    simp only [RuleWorld.issued] at h
    split at h
    · rename_i result db hclaim
      subst h
      cases claimRuleAction_ok hclaim with
      | handsOut next =>
        obtain ⟨hrun, howner, _, _, hcurrent, _⟩ := nextRun_some next
        exact ⟨owner, account, now, later, _, rfl, hrun, rfl, rfl, howner, hcurrent⟩
    · cases h
  | finishRuleAction _ _ _ _ _ | saveMailRule _ _ _ _ _ | deleteMailRule _ _ _
  | retryMailRuleRun _ _ _ _ | commitMailboxSync _ _ _ | previewMailRule _ _ _ _ _
  | applyMailRulePreview _ _ _ _ _ => cases h

theorem recoverRuns_old (h : r ∈ db.recoverRuns owner account now) :
    ∃ old ∈ db.mailRuleRuns, old.fixed = r.fixed ∧ old.completedActions = r.completedActions := by
  unfold Db.recoverRuns at h
  dsimp only at h
  obtain ⟨mid, hmid, hmidcols⟩ :=
    mem_updateWhere_col (fun r : MailRuleRun => (r.fixed, r.completedActions)) (by intro; rfl) h
  obtain ⟨old, hold, holdcols⟩ :=
    mem_updateWhere_col (fun r : MailRuleRun => (r.fixed, r.completedActions)) (by intro; rfl) hmid
  have hcols := holdcols.trans hmidcols
  exact ⟨old, hold, congrArg Prod.fst hcols, congrArg Prod.snd hcols⟩

/-- The lease of a new claim is none that was given out before. -/
def FreshLease (w : RuleWorld) (op : RuleOp) : Prop :=
  ∀ work, w.issued op = some work → ∀ old ∈ w.works, old.lease ≠ work.lease

instance (w : RuleWorld) (op : RuleOp) : Decidable (FreshLease w op) :=
  decidable_of_iff (∀ work ∈ w.issued op, ∀ old ∈ w.works, old.lease ≠ work.lease) Iff.rfl

section

variable [Platform]

theorem leases_run {w : RuleWorld} {ops : List RuleOp}
    (h : w.works.Pairwise fun a b => a.lease ≠ b.lease)
    (hfresh : Along RuleWorld.step FreshLease w ops) :
    (w.run ops).works.Pairwise fun a b => a.lease ≠ b.lease := by
  refine invariant_along (fun w : RuleWorld => w.works.Pairwise fun a b => a.lease ≠ b.lease)
    ?_ h hfresh
  intro w op hw hop
  rw [step_works]
  apply List.pairwise_append.mpr
  refine ⟨hw, ?_, ?_⟩
  · cases w.issued op <;> simp
  · intro old hold work hwork
    exact hop work (by simpa using hwork) old hold

theorem finish_stale {w : RuleWorld} (h : w.table.Inv)
    (hleases : w.works.Pairwise fun a b => a.lease ≠ b.lease) {before after : List RuleWork}
    {work : RuleWork} (hworks : w.works = before ++ work :: after)
    (hstale : (∃ later ∈ after, later.id = work.id) ∨
      ∀ run ∈ w.db.mailRuleRuns, run.id = work.id → run.status ≠ .running)
    (owner : String) (result : Except String (Option RemoteMessageMoveResult)) (now later : Time) :
    w.step (.finishRuleAction owner before.length result now later) = w := by
  have hk : w.works[before.length]? = some work := by simp [hworks]
  have hinvalid : work.valid w.db owner = false := by
    by_contra hvalid
    obtain ⟨run, hrun, hid, hrunning, _, hlease, _⟩ :=
      valid_row h (List.mem_of_getElem? hk) ((Bool.not_eq_false _).mp hvalid)
    rcases hstale with ⟨again, hagain, hagainid⟩ | hstopped
    · obtain ⟨last, hlast, hlastlease, _⟩ := h.latest run hrun hrunning
      have hlater : last ∈ after := by
        have hsome : (after.reverse.find? fun work => work.id == run.id).isSome := by
          rw [List.find?_isSome]
          exact ⟨again, List.mem_reverse.mpr hagain, by simp [hagainid, hid]⟩
        obtain ⟨found, hfound⟩ := Option.isSome_iff_exists.mp hsome
        simp only [RuleWorld.table, lastFor, hworks, List.reverse_append, List.reverse_cons,
          List.append_assoc, List.find?_append, hfound, Option.some_or, Option.some.injEq] at hlast
        rw [← hlast]
        exact List.mem_reverse.mp (List.mem_of_find?_eq_some hfound)
      rw [hworks] at hleases
      obtain ⟨_, hrest, _⟩ := List.pairwise_append.mp hleases
      apply (List.pairwise_cons.mp hrest).1 last hlater
      rw [hlease] at hlastlease
      exact Option.some.inj hlastlease
    · exact hstopped run hrun hid hrunning
  simp [RuleWorld.step, hk, IMail.finishRuleAction, hinvalid]

/-- Safety of the queue, in every state that a history with distinct leases reaches: one
running run for each message; actions in the order of runs and indices; none again after its
recorded success; no effect of a result once its run has been claimed again or has another
status; no archive twice; and a run that is left for review stays so. -/
theorem rule_queue_safety {db : Db} (hempty : db.mailRuleRuns = []) {ops : List RuleOp}
    (hleases : Along RuleWorld.step FreshLease { db } ops) :
    let w := RuleWorld.run { db } ops
    (∀ r ∈ w.db.mailRuleRuns, ∀ s ∈ w.db.mailRuleRuns, r.status = .running →
      s.status = .running → r.accountId = s.accountId → r.identity = s.identity → r = s) ∧
    (∀ work ∈ w.works, ∃ r ∈ w.db.mailRuleRuns, r.id = work.id ∧
      r.actions[work.index]? = some work.action) ∧
    w.works.Pairwise (InOrder w.db.mailRuleRuns) ∧
    (∀ op work, w.issued op = some work → (work.id, work.index) ∉ w.recorded) ∧
    (∀ before work after, w.works = before ++ work :: after →
      (∃ later ∈ after, later.id = work.id) ∨
        (∀ run ∈ w.db.mailRuleRuns, run.id = work.id → run.status ≠ .running) →
      ∀ owner result now later,
        w.step (.finishRuleAction owner before.length result now later) = w) ∧
    (w.works.Pairwise fun a b => b.action = .archive → a.id = b.id → a.index ≠ b.index) ∧
    ∀ op, ∀ r ∈ w.db.mailRuleRuns, r.status = .needsReview → r ∈ (w.step op).db.mailRuleRuns := by
  intro w
  have hinv : w.table.Inv := inv_run (RunTable.Inv.empty hempty) ops
  refine ⟨?_, ?_, hinv.ordered, ?_, ?_, hinv.archives, ?_⟩
  · intro r hr s hs hrunning hsrunning haccount hidentity
    have hno : ∀ e ∈ w.db.mailRuleRuns, ∀ q ∈ w.db.mailRuleRuns, e.status = .running →
        q.status = .running → e.accountId = q.accountId → e.identity = q.identity →
        ¬ e.sequence < q.sequence := by
      intro e he q hq herunning hqrunning ha hi hlt
      have hsettled := hinv.heads q hq hqrunning e he ha hi hlt
      rw [herunning] at hsettled
      cases hsettled
    have h₁ := hno r hr s hs hrunning hsrunning haccount hidentity
    have h₂ := hno s hs r hr hsrunning hrunning haccount.symm hidentity.symm
    exact hinv.eq_of_sequence hr hs (by omega)
  · intro work hwork
    obtain ⟨r, hr, hhanded⟩ := hinv.handed work hwork
    exact ⟨r, hr, hhanded.id_eq, hhanded.action_eq⟩
  · intro op work hissued hrecorded
    obtain ⟨owner, account, now, later, run, _, hrun, hid, hindex, _⟩ := issued_run hissued
    obtain ⟨old, hold, hfixed, hdone⟩ := recoverRuns_old hrun
    obtain ⟨r, hr, hrid, hlt⟩ := hinv.recorded _ hrecorded
    have hsame : r = old := hinv.eq_of_id hr hold
      (by rw [hrid, ← hid, (MailRuleRun.fixed_cols hfixed).1])
    rw [hsame, hdone, hindex] at hlt
    exact lt_irrefl _ hlt
  · intro before work after hworks hstale owner result now later
    exact finish_stale hinv (leases_run List.Pairwise.nil hleases) hworks hstale owner result now
      later
  · exact fun op r hr hreview => step_done hinv op hr (Or.inr hreview)

/-- A running run has its turn: the earlier runs for its message are settled, and its lease is that
of the last action handed out of it. -/
theorem running_has_turn (db : Db) (ops : List RuleOp) :
    let w := RuleWorld.run { db := { db with mailRuleRuns := [] } } ops
    {r | r ∈ w.db.mailRuleRuns ∧ r.status = .running} ⊆
      {r | Cleared w.db.mailRuleRuns r ∧ ∃ work, lastFor w.works r.id = some work ∧
        r.leaseUntil = some work.lease ∧ r.completedActions = work.index} := by
  rintro w r ⟨hr, hrunning⟩
  have hinv : w.table.Inv := inv_run (.empty rfl) ops
  exact ⟨hinv.heads r hr hrunning, hinv.latest r hr hrunning⟩

end

def archiveRule : MailRule where
  id := "rule"
  userId := "u"
  revision := 1
  createdAt := 0
  updatedAt := 0
  input :=
    { name := "archive"
      enabled := true
      priority := 0
      accountIds := []
      matchMode := .all
      conditions := [.unread true]
      actions := [.markRead true, .archive]
      stopProcessing := false }

def archiveDb : Db where
  accounts := [{ id := "a", userId := "u", email := "a@example.org", createdAt := 0 }]
  mailboxSyncStates :=
    [{ accountId := "a", mailbox := "INBOX", mailboxRole := "inbox", lastSuccessAt := some 0 }]
  mailRules := [archiveRule]

def inboxMessage : Message where
  id := "m"
  accountId := "a"
  mailbox := "INBOX"
  mailboxRole := "inbox"
  uid := 1
  messageId := some "x"

def inboxPlan : MailboxSyncPlan where
  accountId := "a"
  mailbox := "INBOX"
  mailboxRole := "inbox"
  incoming := [inboxMessage]

def lateResultOps : List RuleOp :=
  [.commitMailboxSync (fun _ _ _ => "run") inboxPlan 0,
    .claimRuleAction "u" "a" 0 0,
    .claimRuleAction "u" "a" 600001 600001,
    .finishRuleAction "u" 1 (.ok none) 600002 600002,
    .claimRuleAction "u" "a" 600003 600003]

theorem rule_queue_safety_late :
    let _ := Platform.plain
    (RuleWorld.run { db := archiveDb } lateResultOps).works.map
        (fun work => (work.id, work.index, work.action)) =
      [("run", 0, .markRead true), ("run", 0, .markRead true), ("run", 1, .archive)] ∧
    (RuleWorld.run { db := archiveDb } lateResultOps).recorded = [("run", 0)] ∧
    (RuleWorld.run { db := archiveDb } lateResultOps).step
        (.finishRuleAction "u" 0 (.ok none) 600004 600004) =
      RuleWorld.run { db := archiveDb } lateResultOps := by
  intro _
  have hempty : archiveDb.mailRuleRuns = [] := rfl
  have hfresh : Along RuleWorld.step FreshLease { db := archiveDb } lateResultOps := by
    refine ⟨?_, ?_, ?_, ?_, ?_, trivial⟩ <;> decide +kernel
  have hworks : (RuleWorld.run { db := archiveDb } lateResultOps).works.map
      (fun work => (work.id, work.index, work.action)) =
      [("run", 0, .markRead true), ("run", 0, .markRead true), ("run", 1, .archive)] := by
    decide +kernel
  have hrecorded : (RuleWorld.run { db := archiveDb } lateResultOps).recorded = [("run", 0)] := by
    decide +kernel
  have hsafe := rule_queue_safety hempty hfresh
  generalize RuleWorld.run { db := archiveDb } lateResultOps = v at *
  obtain ⟨_, _, _, _, hstale, _⟩ := hsafe
  refine ⟨hworks, hrecorded, ?_⟩
  obtain ⟨first, rest, hsplit⟩ : ∃ first rest, v.works = first :: rest := by
    cases hv : v.works with
    | nil => simp [hv] at hworks
    | cons first rest => exact ⟨first, rest, rfl⟩
  rw [hsplit] at hworks
  simp only [List.map_cons, List.cons.injEq, Prod.mk.injEq, List.map_eq_cons_iff] at hworks
  obtain ⟨⟨hfirst, _⟩, second, _, hrest, ⟨hsecond, _⟩, _⟩ := hworks
  refine hstale [] first rest hsplit (Or.inl ⟨second, ?_, hsecond.trans hfirst.symm⟩) "u"
    (.ok none) 600004 600004
  simp [hrest]

end IMail
