import IMail.Rules.QueueSafety
import IMail.Sync.Queue

/-!
# Superseded revisions

Saving a rule stores its next revision and deleting it removes the row, so the revisions
under one id only grow and a deleted id does not come back. A run of an older revision is
therefore never of the stored one again: it is not claimed and not retried, and if it was
running it ends with the action that had been handed out.
-/

namespace IMail

open Relational Transition Relation

/-- The stored revision of the rule, if there is one, is newer than that of the run. -/
def Superseded (db : Db) (run : MailRuleRun) : Prop :=
  ∀ rule ∈ db.mailRules, rule.id = run.ruleId → run.revision < rule.revision

/-- A new rule gets an id that no rule has, nor any run (`Uuid::new_v4`). -/
def FreshRuleId (w : RuleWorld) : RuleOp → Prop
  | .saveMailRule newId _ _ _ _ =>
    (∀ rule ∈ w.db.mailRules, rule.id ≠ newId) ∧ ∀ run ∈ w.db.mailRuleRuns, run.ruleId ≠ newId
  | .claimRuleAction .. | .finishRuleAction .. | .deleteMailRule .. | .retryMailRuleRun ..
  | .commitMailboxSync .. | .previewMailRule .. | .applyMailRulePreview .. => True

/-- The call stores revision `n + 1` of the rule, or removes the rule at revision `n`. -/
inductive Supersedes (w : RuleWorld) (ruleId : String) (n : ℕ) : RuleOp → Prop
  | save {newId owner : String} {id : Option String} {input : MailRuleInput} {now : Time}
      {rule : MailRule} {db' : Db}
      (saved : saveMailRule w.db newId owner id input now = .ok (some rule, db'))
      (id_eq : rule.id = ruleId) (revision_eq : rule.revision = n + 1) :
      Supersedes w ruleId n (.saveMailRule newId owner id input now)
  | delete {owner : String} {now : Time} {rule : MailRule} (mem : rule ∈ w.db.mailRules)
      (owned : rule.userId = owner) (id_eq : rule.id = ruleId) (revision_eq : rule.revision = n) :
      Supersedes w ruleId n (.deleteMailRule owner ruleId now)

variable {db : Db}

variable {run r' : MailRuleRun} {db' : Db} {owner : String} {now later : Time}

theorem Superseded.not_current (h : Superseded db run) : db.currentRevision run = false := by
  apply List.any_eq_false.mpr
  intro rule hrule hcols
  simp only [Bool.and_eq_true, beq_iff_eq] at hcols
  have hlt := h rule hrule hcols.1.1
  omega

theorem Superseded.congr {run' : MailRuleRun} (h : Superseded db run)
    (hfixed : run'.fixed = run.fixed) : Superseded db run' := by
  have hrule : run'.ruleId = run.ruleId := congrArg (·.ruleId) hfixed
  have hrevision : run'.revision = run.revision := congrArg (·.revision) hfixed
  unfold Superseded
  rw [hrule, hrevision]
  exact h

theorem mem_upsertRule {rule r : MailRule} (h : r ∈ db.upsertRule rule) :
    (r ∈ db.mailRules ∧ r.id ≠ rule.id) ∨ (r.id = rule.id ∧ r.revision = rule.revision) := by
  unfold Db.upsertRule at h
  split_ifs at h with hthere
  · rcases mem_updateWhere.mp h with ⟨old, _, hid, rfl⟩ | ⟨hr, hid⟩
    · exact Or.inr ⟨by simpa using hid, rfl⟩
    · exact Or.inl ⟨hr, by simpa using hid⟩
  · rcases List.mem_append.mp h with hr | hr
    · simp only [List.any_eq_true, beq_iff_eq, not_exists, not_and] at hthere
      exact Or.inl ⟨hr, hthere r hr⟩
    · rw [List.mem_singleton.mp hr]
      exact Or.inr ⟨rfl, rfl⟩

theorem upsertRule_ids (h : UniqueBy (fun r => some r.id) db.mailRules) (rule : MailRule) :
    UniqueBy (fun r => some r.id) (db.upsertRule rule) := by
  unfold Db.upsertRule
  split_ifs with hthere
  · apply h.updateWhere
    exact fun r _ _ k hk => hk
  · apply h.append
    simp only [List.any_eq_true, beq_iff_eq, not_exists, not_and] at hthere
    intro r hr k hk hrule
    simp only [Option.some.injEq] at hk hrule
    exact hthere r hr (hk.trans hrule.symm)

section

variable [Platform]

theorem step_rules (w : RuleWorld) (op : RuleOp) :
    (∃ newId owner id input now rule db', op = .saveMailRule newId owner id input now ∧
      IMail.saveMailRule w.db newId owner id input now = .ok (some rule, db') ∧
      (w.step op).db.mailRules = w.db.upsertRule rule) ∨
    (∃ owner id now, op = .deleteMailRule owner id now ∧
      (w.step op).db.mailRules =
        deleteWhere (fun r => r.userId == owner && r.id == id) w.db.mailRules) ∨
    (w.step op).db.mailRules = w.db.mailRules := by
  have hkept : ∀ {ε : Type} {r : Except ε Db},
      (∀ db', r = .ok db' → db'.mailRules = w.db.mailRules) →
        (committed w.db r).mailRules = w.db.mailRules :=
    fun h => committed_of (P := fun d : Db => d.mailRules = w.db.mailRules) rfl h
  cases op with
  | claimRuleAction owner account now later =>
    right; right
    simp only [RuleWorld.step]
    split
    · rename_i work db hclaim
      rw [claimRuleAction_frame hclaim]
    · rfl
  | finishRuleAction owner k result now later =>
    right; right
    simp only [RuleWorld.step]
    split
    · rfl
    · split
      · rename_i db hfinish
        rw [finishRuleAction_frame hfinish]
      · rfl
  | saveMailRule newId owner id input now =>
    simp only [RuleWorld.step]
    cases hsave : IMail.saveMailRule w.db newId owner id input now with
    | error e => exact Or.inr (Or.inr rfl)
    | ok result =>
      obtain ⟨rule, db'⟩ := result
      cases rule with
      | none =>
        right; right
        rw [saveMailRule_none hsave]
        rfl
      | some rule =>
        left
        refine ⟨newId, owner, id, input, now, rule, db', rfl, hsave, ?_⟩
        rw [(saveMailRule_ok hsave).1]
        rfl
  | deleteMailRule owner id now => exact Or.inr (Or.inl ⟨owner, id, now, rfl, rfl⟩)
  | retryMailRuleRun newId owner id now =>
    refine Or.inr (Or.inr (hkept fun db' h => ?_))
    obtain ⟨found, h⟩ := map_snd_ok h
    obtain ⟨⟨runs, jobs, rfl⟩, _⟩ := retryMailRuleRun_ok h
    rfl
  | commitMailboxSync runIds plan completedAt =>
    refine Or.inr (Or.inr (hkept fun db' h => ?_))
    obtain ⟨result, h⟩ := map_snd_ok h
    obtain ⟨_, _, _, _, _, rfl⟩ := commitMailboxSync_frame h
    rfl
  | previewMailRule newId owner input savedId now =>
    refine Or.inr (Or.inr (hkept fun db' h => ?_))
    obtain ⟨preview, h⟩ := map_snd_ok h
    rw [previewMailRule_frame h]
  | applyMailRulePreview jobIds runIds owner token now =>
    refine Or.inr (Or.inr (hkept fun db' h => ?_))
    obtain ⟨count, h⟩ := map_snd_ok h
    obtain ⟨⟨_, _, _, _, _, _, rfl⟩, _⟩ := applyMailRulePreview_ok h
    rfl

variable {w : RuleWorld}

theorem step_ruleIds (h : UniqueBy (fun r => some r.id) w.db.mailRules) (op : RuleOp) :
    UniqueBy (fun r => some r.id) (w.step op).db.mailRules := by
  rcases step_rules w op with ⟨_, _, _, _, _, rule, _, _, _, hrules⟩ | ⟨_, _, _, _, hrules⟩ | hrules
  · rw [hrules]
    exact upsertRule_ids h rule
  · rw [hrules]
    exact h.deleteWhere _
  · rwa [hrules]

variable {op : RuleOp} {run : MailRuleRun}

theorem superseded_step (hfresh : FreshRuleId w op) (hrun : run ∈ w.db.mailRuleRuns)
    (h : Superseded w.db run) : Superseded (w.step op).db run := by
  intro r hr hid
  rcases step_rules w op with
    ⟨newId, owner, id, input, now, rule, db', rfl, hsave, hrules⟩ | ⟨_, _, _, _, hrules⟩ | hrules
  · rw [hrules] at hr
    rcases mem_upsertRule hr with ⟨hold, _⟩ | ⟨hruleid, hrevision⟩
    · exact h r hold hid
    · rcases (saveMailRule_ok hsave).2.2 with ⟨_, hnew, _⟩ | ⟨previous, hprevious, _, _, hpid, hnext⟩
      · -- a new rule: its id is that of no run
        exact absurd (hid.symm.trans (hruleid.trans hnew)) (hfresh.2 run hrun)
      · have hlt := h previous hprevious (by rw [← hid, hruleid, hpid])
        omega
  · rw [hrules] at hr
    exact h r (mem_deleteWhere.mp hr).1 hid
  · rw [hrules] at hr
    exact h r hr hid

theorem Supersedes.superseded {ruleId : String} {n : ℕ} (h : Supersedes w ruleId n op)
    (hids : UniqueBy (fun r => some r.id) w.db.mailRules) (hrule : run.ruleId = ruleId)
    (hold : run.revision ≤ n) : Superseded (w.step op).db run := by
  intro r hr hid
  cases h with
  | save saved id_eq revision_eq =>
    simp only [RuleWorld.step, saved, Except.map, committed_ok, (saveMailRule_ok saved).1] at hr
    rcases mem_upsertRule hr with ⟨_, hother⟩ | ⟨_, hrevision⟩
    · exact absurd (hid.trans (hrule.trans id_eq.symm)) hother
    · omega
  | delete mem owned id_eq revision_eq =>
    obtain ⟨hstored, hkept⟩ := mem_deleteWhere.mp hr
    have hsame := hids.eq_of_mem hstored mem rfl (by rw [id_eq, hid, hrule])
    rw [hsame, owned, id_eq] at hkept
    simp at hkept

end

def RuleRunStatus.ended : RuleRunStatus → Bool
  | .succeeded | .cancelled | .needsReview => true
  | .pending | .running | .failed => false

/-- What becomes of a running run of an older revision: it is still running the action that
was handed out, or it has ended with that action. -/
def EndsWith (r r' : MailRuleRun) : Prop :=
  r' = r ∨ ((r'.status.settled = true ∨ r'.status = .needsReview) ∧
    r'.completedActions ≤ r.completedActions + 1)

variable {r : MailRuleRun}

theorem recoverRuns_superseded (hr : r ∈ db.mailRuleRuns) (hrunning : r.status = .running)
    (hold : db.currentRevision r = false) (owner account : String) (now : Time) :
    ∃ r' ∈ db.recoverRuns owner account now, r'.fixed = r.fixed ∧ EndsWith r r' ∧
      (r.userId = owner → r.accountId = account → r.leaseUntil.any (· < now) = true →
        r'.status ≠ .running) := by
  unfold Db.recoverRuns
  dsimp only
  obtain ⟨mid, hmid, hfirst⟩ := exists_updated (p := fun r : MailRuleRun => r.userId == owner &&
    r.accountId == account && r.status = .running && r.leaseUntil.any (· < now))
    (f := interruptedRun now) hr
  obtain ⟨r', hr', hsecond⟩ := exists_updated (p := fun r : MailRuleRun => r.userId == owner &&
    r.accountId == account && r.status = .pending && !db.currentRevision r)
    (f := fun r => { r with status := .cancelled, leaseUntil := none, updatedAt := now }) hmid
  refine ⟨r', hr', ?_⟩
  rcases hfirst with ⟨hover, rfl⟩ | ⟨hheld, rfl⟩
  · have hcurrent : db.currentRevision (interruptedRun now r) = false := hold
    simp only [Bool.and_eq_true, beq_iff_eq] at hover
    rcases hsecond with ⟨_, rfl⟩ | ⟨hkept, rfl⟩
    · exact ⟨rfl, Or.inr ⟨Or.inl rfl, Nat.le_succ _⟩, fun _ _ _ => by simp⟩
    · -- not cancelled by the second statement, so not pending after the first
      have howner : (interruptedRun now r).userId = owner := hover.1.1.1
      have haccount : (interruptedRun now r).accountId = account := hover.1.1.2
      simp only [howner, haccount, hcurrent, beq_self_eq_true, Bool.true_and, Bool.not_false,
        Bool.and_true, decide_eq_false_iff_not] at hkept
      have hreview : (interruptedRun now r).status = .needsReview := by
        unfold interruptedRun at hkept ⊢
        dsimp only at hkept ⊢
        split_ifs at hkept ⊢
        · rfl
        · exact absurd rfl hkept
      exact ⟨rfl, Or.inr ⟨Or.inr hreview, Nat.le_succ _⟩, fun _ _ _ => by rw [hreview]; decide⟩
  · rcases hsecond with ⟨hpending, rfl⟩ | ⟨_, rfl⟩
    · simp [hrunning] at hpending
    · refine ⟨rfl, Or.inl rfl, fun howner haccount hover => ?_⟩
      simp [howner, haccount, hrunning, hover] at hheld

theorem EndsWith.ended (h : EndsWith r r') (hstopped : r' ≠ r) : r'.status.ended = true := by
  rcases h with h | ⟨hsettled | hreview, _⟩
  · exact absurd h hstopped
  · cases hstatus : r'.status <;> simp_all [RuleRunStatus.settled, RuleRunStatus.ended]
  · rw [hreview]
    rfl

theorem EndsWith.not_pending (h : EndsWith r r') (hrunning : r.status = .running) :
    r'.status ≠ .pending := by
  rcases h with rfl | ⟨hsettled | hreview, _⟩
  · rw [hrunning]
    decide
  · intro hpending
    rw [hpending] at hsettled
    cases hsettled
  · rw [hreview]
    decide

theorem claim_superseded (hids : UniqueBy (fun r => some r.id) db.mailRuleRuns)
    (hr : r ∈ db.mailRuleRuns) (hrunning : r.status = .running)
    (hold : db.currentRevision r = false) {account : String} {work : Option RuleWork}
    (h : claimRuleAction db owner account now later = .ok (work, db')) :
    ∃ r' ∈ db'.mailRuleRuns, r'.fixed = r.fixed ∧ EndsWith r r' ∧
      (r.userId = owner → r.accountId = account → r.leaseUntil.any (· < now) = true →
        r'.status ≠ .running) := by
  obtain ⟨r', hr', hfixed, hends, hover⟩ :=
    recoverRuns_superseded hr hrunning hold owner account now
  have hother : ∀ run ∈ db.recoverRuns owner account now, run.status = .pending →
      (r'.id == run.id) = false := by
    intro run hrun hpending
    by_contra hsame
    have heq := (recoverRuns_ids hids owner account now).eq_of_mem hr' hrun rfl
      (by simpa using Eq.symm (by simpa using hsame))
    exact hends.not_pending hrunning (by rw [heq]; exact hpending)
  cases claimRuleAction_ok h with
  | nothing => exact ⟨r', hr', hfixed, hends, hover⟩
  | lost next | handsOut next =>
    obtain ⟨hrun, _, _, hpending, _⟩ := nextRun_some next
    exact ⟨r', mem_updateWhere.mpr (Or.inr ⟨hr', hother _ hrun hpending⟩), hfixed, hends, hover⟩

theorem finish_superseded (hr : r ∈ db.mailRuleRuns) (hold : db.currentRevision r = false)
    {work : RuleWork} {result : Except String (Option RemoteMessageMoveResult)}
    (h : finishRuleAction db owner work result now later = .ok db') :
    ∃ r' ∈ db'.mailRuleRuns, r'.fixed = r.fixed ∧ EndsWith r r' ∧
      (r.id = work.id → r'.status ≠ .running) := by
  have hupdated : ∀ f : MailRuleRun → MailRuleRun, (f r).fixed = r.fixed →
      ((f r).status.settled = true ∨ (f r).status = .needsReview) →
      (f r).completedActions ≤ r.completedActions + 1 →
      ∃ r' ∈ updateWhere (fun r => r.id == work.id) f db.mailRuleRuns, r'.fixed = r.fixed ∧
        EndsWith r r' ∧ (r.id = work.id → r'.status ≠ .running) := by
    intro f hfixed hdone hindex
    obtain ⟨r', hr', ⟨_, rfl⟩ | ⟨hsel, rfl⟩⟩ :=
      exists_updated (p := fun r => r.id == work.id) (f := f) hr
    · refine ⟨f r, hr', hfixed, Or.inr ⟨hdone, hindex⟩, fun _ hrunning => ?_⟩
      rw [hrunning] at hdone
      rcases hdone with hdone | hdone <;> cases hdone
    · refine ⟨r', hr', rfl, Or.inl rfl, fun hid => ?_⟩
      simp [hid] at hsel
  cases finishRuleAction_ok h with
  | succeeds =>
    apply hupdated (db.advanceRun now) rfl
    · unfold Db.advanceRun
      dsimp only
      split_ifs with hlast hstored
      · exact Or.inl rfl
      · exact Or.inl rfl
      · simp [hold] at hstored
    · exact le_rfl
  | fails =>
    apply hupdated (db.failRun work.action _ now later) rfl
    · unfold Db.failRun
      dsimp only
      split_ifs with harchive hstored
      · exact Or.inr rfl
      · exact Or.inl rfl
      · simp [hold] at hstored
      · simp [hold] at hstored
    · exact Nat.le_succ _

section

variable [Platform]

variable {w : RuleWorld} {r : MailRuleRun}

theorem step_superseded (h : w.table.Inv) (hr : r ∈ w.db.mailRuleRuns)
    (hrunning : r.status = .running) (hold : w.db.currentRevision r = false) (op : RuleOp) :
    ∃ r' ∈ (w.step op).db.mailRuleRuns, r'.fixed = r.fixed ∧ EndsWith r r' := by
  have hsame : r ∈ (w.step op).db.mailRuleRuns →
      ∃ r' ∈ (w.step op).db.mailRuleRuns, r'.fixed = r.fixed ∧ EndsWith r r' :=
    fun hmem => ⟨r, hmem, rfl, Or.inl rfl⟩
  have hkept : ∀ {ε : Type} {x : Except ε Db},
      (∀ db', x = .ok db' → r ∈ db'.mailRuleRuns) → r ∈ (committed w.db x).mailRuleRuns :=
    fun h => committed_of (P := fun d : Db => r ∈ d.mailRuleRuns) hr h
  have hcancel : ∀ (db : Db) (owner ruleId : String) (now : Time),
      db.mailRuleRuns = w.db.mailRuleRuns → r ∈ (db.cancelRule owner ruleId now).mailRuleRuns := by
    intro db owner ruleId now hdb
    exact mem_updateWhere.mpr (Or.inr ⟨hdb ▸ hr, by simp [hrunning]⟩)
  cases op with
  | claimRuleAction owner account now later =>
    simp only [RuleWorld.step] at hsame ⊢
    split at hsame
    · rename_i work db hclaim
      obtain ⟨r', hr', hfixed, hends, _⟩ := claim_superseded h.ids hr hrunning hold hclaim
      exact ⟨r', hr', hfixed, hends⟩
    · exact hsame hr
  | finishRuleAction owner k result now later =>
    simp only [RuleWorld.step] at hsame ⊢
    split at hsame
    · exact hsame hr
    · rename_i work hk
      split at hsame
      · rename_i db hfinish
        obtain ⟨r', hr', hfixed, hends, _⟩ := finish_superseded hr hold hfinish
        exact ⟨r', hr', hfixed, hends⟩
      · exact hsame hr
  | saveMailRule newId owner id input now =>
    refine hsame (hkept fun db' hsave => ?_)
    obtain ⟨rule, hsave⟩ := map_snd_ok hsave
    cases rule with
    | none => rwa [saveMailRule_none hsave]
    | some rule =>
      rw [(saveMailRule_ok hsave).1]
      exact hcancel _ owner rule.id now rfl
  | deleteMailRule owner id now => exact hsame (hcancel _ owner id now rfl)
  | retryMailRuleRun newId owner id now =>
    refine hsame (hkept fun db' hretry => ?_)
    obtain ⟨found, hretry⟩ := map_snd_ok hretry
    rcases retryMailRuleRun_runs hretry with ⟨-, rfl⟩ | ⟨-, ⟨run, hrun, hid, hfailed⟩, hrows⟩
    · exact hr
    · have hruns := congrArg Prod.fst hrows
      simp only [Db.runRows] at hruns
      rw [hruns]
      refine mem_updateWhere.mpr (Or.inr ⟨hr, ?_⟩)
      by_contra hsel
      rw [← h.eq_of_id hr hrun ((by simpa using hsel : r.id = id).trans hid.symm),
        hrunning] at hfailed
      cases hfailed
  | commitMailboxSync runIds plan completedAt =>
    refine hsame (hkept fun db' hcommit => ?_)
    obtain ⟨result, hcommit⟩ := map_snd_ok hcommit
    obtain ⟨_, _, hinserts⟩ := commitMailboxSync_inserts hcommit
    exact mem_of_runInserts hinserts hr
  | previewMailRule newId owner input savedId now =>
    refine hsame (hkept fun db' hpreview => ?_)
    obtain ⟨preview, hpreview⟩ := map_snd_ok hpreview
    rwa [previewMailRule_frame hpreview]
  | applyMailRulePreview jobIds runIds owner token now =>
    refine hsame (hkept fun db' happly => ?_)
    obtain ⟨count, happly⟩ := map_snd_ok happly
    exact mem_of_runInserts (applyMailRulePreview_inserts happly) hr

theorem step_row (h : w.table.Inv) (op : RuleOp) (hr : r ∈ w.db.mailRuleRuns) :
    ∃ r' ∈ (w.step op).db.mailRuleRuns, r'.fixed = r.fixed := by
  suffices hall : ∀ t, ReflTransGen (RunWrite w op) w.table t → ∃ r' ∈ t.runs, r'.fixed = r.fixed
    from hall _ (step_writes h op)
  intro t ht
  induction ht with
  | refl => exact ⟨r, hr, rfl⟩
  | tail _ hwrite ih =>
    obtain ⟨s, hs, hfixed⟩ := ih
    cases hwrite with
    | @move p f moves =>
      obtain ⟨s', hs', ⟨hsel, rfl⟩ | ⟨_, rfl⟩⟩ := exists_updated (p := p) (f := f) hs
      · exact ⟨f s, hs', (moves s hs hsel).fixed_eq.trans hfixed⟩
      · exact ⟨s', hs', hfixed⟩
    | record mem id_eq done => exact ⟨s, hs, hfixed⟩
    | @handOut run work now mem pending cleared current id_eq index_eq action_eq issued =>
      obtain ⟨s', hs', ⟨_, rfl⟩ | ⟨_, rfl⟩⟩ := exists_updated (p := fun r => r.id == run.id)
        (f := handedOut work.lease now) hs
      · exact ⟨_, hs', hfixed⟩
      · exact ⟨_, hs', hfixed⟩
    | insert sequence_eq waiting free current => exact ⟨s, List.mem_append_left _ hs, hfixed⟩

/-- What is known of an old run from the edit on. -/
structure OldRun (r : MailRuleRun) (w : RuleWorld) : Prop where
  inv : w.table.Inv
  superseded : Superseded w.db r
  row : ∃ r' ∈ w.db.mailRuleRuns, r'.fixed = r.fixed ∧ (r.status = .running → EndsWith r r')

variable {op : RuleOp} {work : RuleWork}

theorem step_oldRun (h : OldRun r w) (hfresh : FreshRuleId w op) : OldRun r (w.step op) := by
  obtain ⟨r', hr', hfixed, hends⟩ := h.row
  have hold : Superseded w.db r' := h.superseded.congr hfixed
  have hkept := superseded_step hfresh hr' hold
  refine ⟨step_inv op h.inv, hkept.congr hfixed.symm, ?_⟩
  by_cases hrunning : r.status = .running
  · rcases hends hrunning with rfl | ⟨hdone, hindex⟩
    · obtain ⟨s, hs, hsfixed, hsends⟩ := step_superseded h.inv hr' hrunning hold.not_current op
      exact ⟨s, hs, hsfixed, fun _ => hsends⟩
    · exact ⟨r', step_done h.inv op hr' hdone, hfixed, fun _ => Or.inr ⟨hdone, hindex⟩⟩
  · obtain ⟨s, hs, hsfixed⟩ := step_row h.inv op hr'
    exact ⟨s, hs, hsfixed.trans hfixed, fun hrun => absurd hrun hrunning⟩

omit [Platform] in
theorem OldRun.not_issued (h : OldRun r w) (hissued : w.issued op = some work) :
    work.id ≠ r.id := by
  intro hid
  obtain ⟨owner, account, now, later, run, _, hrun, hrunid, _, _, hcurrent⟩ := issued_run hissued
  obtain ⟨old, holdmem, holdfixed, _⟩ := recoverRuns_old hrun
  obtain ⟨r', hr', hfixed, _⟩ := h.row
  have hsame : old = r' := h.inv.eq_of_id holdmem hr' (by
    rw [(MailRuleRun.fixed_cols holdfixed).1, hrunid, hid, (MailRuleRun.fixed_cols hfixed).1])
  have hnot := (h.superseded.congr (holdfixed.symm.trans (hsame ▸ hfixed))).not_current
  rw [hcurrent] at hnot
  cases hnot

omit [Platform] in
theorem OldRun.retry (h : OldRun r w) (newId owner : String) (now : Time) :
    retryMailRuleRun w.db newId owner r.id now = .ok (false, w.db) := by
  have hnone : (w.db.mailRuleRuns.find? fun run => run.id == r.id && run.userId == owner &&
      run.status = .failed && w.db.currentRevision run) = none := by
    apply List.find?_eq_none.mpr
    intro run hrun hcols
    simp only [Bool.and_eq_true, beq_iff_eq] at hcols
    obtain ⟨r', hr', hfixed, _⟩ := h.row
    have hsame : run = r' := h.inv.eq_of_id hrun hr'
      (hcols.1.1.1.trans (MailRuleRun.fixed_cols hfixed).1.symm)
    have hnot := (h.superseded.congr hfixed).not_current
    rw [← hsame, hcols.2] at hnot
    cases hnot
  unfold retryMailRuleRun
  rw [hnone]

omit [Platform] in
theorem issued_current {w : RuleWorld} (h : w.issued op = some work) :
    ∃ run ∈ w.db.mailRuleRuns, run.id = work.id ∧ ∃ rule ∈ w.db.mailRules,
      rule.id = run.ruleId ∧ rule.userId = run.userId ∧ rule.revision = run.revision := by
  obtain ⟨owner, account, now, later, run, _, hrun, hid, _, _, hcurrent⟩ := issued_run h
  -- the claim looks at the rows after the recovery of expired leases
  obtain ⟨old, hold, hfixed, _⟩ := recoverRuns_old hrun
  obtain ⟨rule, hmem, hcols⟩ := List.any_eq_true.mp hcurrent
  simp only [Bool.and_eq_true, beq_iff_eq] at hcols
  have hruleid : old.ruleId = run.ruleId := congrArg (·.ruleId) hfixed
  have huser : old.userId = run.userId := congrArg (·.userId) hfixed
  have hrevision : old.revision = run.revision := congrArg (·.revision) hfixed
  exact ⟨old, hold, ((MailRuleRun.fixed_cols hfixed).1).trans hid, rule, hmem,
    by rw [hcols.1.1, hruleid], by rw [huser, hcols.1.2], by rw [hrevision, hcols.2]⟩

/-- Once a save has stored revision `n + 1` of a rule, or a deletion has removed it at
revision `n`: a claim returns actions of the rule from runs of the stored revision only; a
run of revision at most `n` is not retried and nothing more of it is handed out; and if it
was running, it is still busy with the action handed out before or has ended, by the result
of that action or by the first claim after its lease. -/
theorem superseded_never_acts {db : Db} (hempty : db.mailRuleRuns = [])
    (hrules : UniqueBy (fun r => some r.id) db.mailRules) {before after : List RuleOp}
    {edit : RuleOp} {ruleId : String} {n : ℕ}
    (hfresh : Along RuleWorld.step FreshRuleId { db } (before ++ edit :: after))
    (hedit : Supersedes (RuleWorld.run { db } before) ruleId n edit) :
    let w₁ := (RuleWorld.run { db } before).step edit
    let w := w₁.run after
    (∀ op work, w.issued op = some work → ∃ run ∈ w.db.mailRuleRuns, run.id = work.id ∧
      (run.ruleId = ruleId → ∃ rule ∈ w.db.mailRules, rule.id = ruleId ∧
        rule.userId = run.userId ∧ rule.revision = run.revision)) ∧
    ∀ r ∈ w₁.db.mailRuleRuns, r.ruleId = ruleId → r.revision ≤ n →
      (∀ newId owner now, retryMailRuleRun w.db newId owner r.id now = .ok (false, w.db)) ∧
      (∀ op work, w.issued op = some work → work.id ≠ r.id) ∧
      (r.status = .running → ∃ r' ∈ w.db.mailRuleRuns, r'.id = r.id ∧
        (r' = r ∨ (r'.status.ended = true ∧ r'.completedActions ≤ r.completedActions + 1)) ∧
        (r' = r →
          (∀ owner work result now later db',
            finishRuleAction w.db owner work result now later = .ok db' → work.id = r.id →
              ∃ s ∈ db'.mailRuleRuns, s.id = r.id ∧ s.status.ended = true) ∧
          ∀ now later work db', r.leaseUntil.any (· < now) = true →
            claimRuleAction w.db r.userId r.accountId now later = .ok (work, db') →
              ∃ s ∈ db'.mailRuleRuns, s.id = r.id ∧ s.status.ended = true)) := by
  intro w₁ w
  have hbefore := inv_run (RunTable.Inv.empty hempty) before
  have hids : UniqueBy (fun r => some r.id) (RuleWorld.run { db } before).db.mailRules :=
    invariant_exec (fun w : RuleWorld => UniqueBy (fun r => some r.id) w.db.mailRules)
      (fun _ op h => step_ruleIds h op) before hrules
  have hfresh₁ := ((along_append _ _ _ _ _).mp hfresh).2
  have hinv₁ : w₁.table.Inv := step_inv edit hbefore
  have hinv : w.table.Inv := inv_run hinv₁ after
  constructor
  · intro op work hissued
    obtain ⟨run, hrun, hid, rule, hmem, hruleid, huser, hrevision⟩ := issued_current hissued
    exact ⟨run, hrun, hid, fun hrule => ⟨rule, hmem, hruleid.trans hrule, huser, hrevision⟩⟩
  · intro r hr hrule hrevision
    have hold₁ : OldRun r w₁ :=
      ⟨hinv₁, hedit.superseded hids hrule hrevision, r, hr, rfl, fun _ => Or.inl rfl⟩
    have hold : OldRun r w :=
      invariant_along (OldRun r) (fun _ _ h hop => step_oldRun h hop) hold₁ hfresh₁.2
    refine ⟨hold.retry, fun op work => hold.not_issued, fun hrunning => ?_⟩
    obtain ⟨r', hr', hfixed, hends⟩ := hold.row
    have hnot : w.db.currentRevision r' = false := (hold.superseded.congr hfixed).not_current
    refine ⟨r', hr', (MailRuleRun.fixed_cols hfixed).1, ?_, ?_⟩
    · by_cases hsame : r' = r
      · exact Or.inl hsame
      · rcases hends hrunning with h | ⟨_, hindex⟩
        · exact Or.inl h
        · exact Or.inr ⟨(hends hrunning).ended hsame, hindex⟩
    · rintro rfl
      have hmoved : ∀ s : MailRuleRun, s.status ≠ .running → s ≠ r' := by
        rintro s hstopped rfl
        exact hstopped hrunning
      constructor
      · intro owner work result now later db' hfinish hid
        obtain ⟨s, hs, hsfixed, hsends, hstopped⟩ := finish_superseded hr' hnot hfinish
        exact ⟨s, hs, (MailRuleRun.fixed_cols hsfixed).1,
          hsends.ended (hmoved s (hstopped hid.symm))⟩
      · intro now later work db' hover hclaim
        obtain ⟨s, hs, hsfixed, hsends, hstopped⟩ :=
          claim_superseded hinv.ids hr' hrunning hnot hclaim
        exact ⟨s, hs, (MailRuleRun.fixed_cols hsfixed).1,
          hsends.ended (hmoved s (hstopped rfl rfl hover))⟩

end

def startedOps : List RuleOp :=
  [.commitMailboxSync (fun _ _ _ => "run") inboxPlan 0, .claimRuleAction "u" "a" 0 0]

def saveAgain : RuleOp := .saveMailRule "new" "u" (some "rule") archiveRule.input 1

theorem superseded_never_acts_saved :
    let _ := Platform.plain
    (((RuleWorld.run { db := archiveDb } startedOps).step saveAgain).db.mailRuleRuns.map
        fun r => (r.id, r.revision, r.status)) = [("run", 1, .running)] ∧
      retryMailRuleRun ((RuleWorld.run { db := archiveDb } startedOps).step saveAgain).db "k" "u"
          "run" 2 =
        .ok (false, ((RuleWorld.run { db := archiveDb } startedOps).step saveAgain).db) := by
  intro _
  have hempty : archiveDb.mailRuleRuns = [] := rfl
  have hrules : UniqueBy (fun r => some r.id) archiveDb.mailRules := List.pairwise_singleton _ _
  have hfresh : Along RuleWorld.step FreshRuleId { db := archiveDb } (startedOps ++ [saveAgain]) := by
    refine ⟨trivial, trivial, ?_, trivial⟩
    unfold saveAgain FreshRuleId
    decide +kernel
  have hrows : (((RuleWorld.run { db := archiveDb } startedOps).step saveAgain).db.mailRuleRuns.map
      fun r => (r.id, r.revision, r.status, r.ruleId)) = [("run", 1, .running, "rule")] := by
    decide +kernel
  obtain ⟨⟨saved, db'⟩, hsave, hrule⟩ := exists_ok_of_any (show
    (saveMailRule (RuleWorld.run { db := archiveDb } startedOps).db "new" "u" (some "rule")
      archiveRule.input 1).toOption.any
        (fun result => result.1.any fun rule => rule.id == "rule" && rule.revision == 2) = true by
    decide +kernel)
  simp only [Option.any_eq_true, Bool.and_eq_true, beq_iff_eq] at hrule
  obtain ⟨rule, rfl, hid, hrevision⟩ := hrule
  have hold := (superseded_never_acts hempty hrules hfresh (.save hsave hid hrevision)).2
  change ∀ run ∈ ((RuleWorld.run { db := archiveDb } startedOps).step saveAgain).db.mailRuleRuns,
    _ at hold
  generalize (RuleWorld.run { db := archiveDb } startedOps).step saveAgain = v at *
  obtain ⟨run, hruns, hcols⟩ := List.map_eq_singleton_iff.mp hrows
  simp only [Prod.mk.injEq] at hcols
  obtain ⟨hretry, _⟩ := hold run (by simp [hruns]) hcols.2.2.2 (by omega)
  rw [hcols.1] at hretry
  exact ⟨by simp [hruns, hcols], hretry "k" "u" 2⟩

end IMail
