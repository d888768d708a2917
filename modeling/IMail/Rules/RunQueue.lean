import Mathlib.Logic.Relation
import IMail.Store.RuleActions
import IMail.Store.RuleEdits
import IMail.Store.CommitSpec
import IMail.Transition.Run

/-!
# The queue of rule runs

Histories of the calls that write `mail_rules` and `mail_rule_runs`, with every action that
has been handed out and every success that has been recorded. A worker holds nothing but the
`RuleWork` of its claim, so a crash is a `RuleWork` that no later call mentions.

Each call is a sequence of the writes that `RunWrite` lists; the invariants of the queue are
proved for these.
-/

namespace IMail

open Relational Transition Relation

inductive RuleOp
  | claimRuleAction (owner account : String) (now later : Time)
  | finishRuleAction (owner : String) (work : ℕ)
      (result : Except String (Option RemoteMessageMoveResult)) (now later : Time)
  | saveMailRule (newId owner : String) (id : Option String) (input : MailRuleInput) (now : Time)
  | deleteMailRule (owner id : String) (now : Time)
  | retryMailRuleRun (newId owner id : String) (now : Time)
  | commitMailboxSync (runIds : RunIds) (plan : MailboxSyncPlan) (completedAt : Time)
  | previewMailRule (newId owner : String) (input : MailRuleInput) (savedId : Option String)
      (now : Time)
  | applyMailRulePreview (jobIds runIds : RunIds) (owner token : String) (now : Time)

/-- The database, the actions handed out so far and, by run and index, the recorded
successes. -/
structure RuleWorld where
  db : Db
  works : List RuleWork := []
  recorded : List (String × ℕ) := []

section

variable [Platform]

/-- A result is reported for the `work`-th action that was handed out. -/
def RuleWorld.step (w : RuleWorld) : RuleOp → RuleWorld
  | .claimRuleAction owner account now later =>
    match IMail.claimRuleAction w.db owner account now later with
    | .ok (work, db) => { w with db, works := w.works ++ work.toList }
    | .error _ => w
  | .finishRuleAction owner k result now later =>
    match w.works[k]? with
    | none => w
    | some work =>
      match IMail.finishRuleAction w.db owner work result now later with
      | .ok db =>
        { w with
          db
          recorded := if result.isOk then w.recorded ++ [(work.id, work.index)] else w.recorded }
      | .error _ => w
  | .saveMailRule newId owner id input now =>
    { w with db := committed w.db ((IMail.saveMailRule w.db newId owner id input now).map Prod.snd) }
  | .deleteMailRule owner id now => { w with db := (IMail.deleteMailRule w.db owner id now).2 }
  | .retryMailRuleRun newId owner id now =>
    { w with db := committed w.db ((IMail.retryMailRuleRun w.db newId owner id now).map Prod.snd) }
  | .commitMailboxSync runIds plan completedAt =>
    { w with
      db := committed w.db ((IMail.commitMailboxSync w.db runIds plan completedAt).map Prod.snd) }
  | .previewMailRule newId owner input savedId now =>
    { w with
      db := committed w.db ((IMail.previewMailRule w.db newId owner input savedId now).map Prod.snd) }
  | .applyMailRulePreview jobIds runIds owner token now =>
    { w with
      db := committed w.db
        ((IMail.applyMailRulePreview w.db jobIds runIds owner token now).map Prod.snd) }

abbrev RuleWorld.run : RuleWorld → List RuleOp → RuleWorld := exec RuleWorld.step

end

def RuleWorld.issued (w : RuleWorld) : RuleOp → Option RuleWork
  | .claimRuleAction owner account now later =>
    match IMail.claimRuleAction w.db owner account now later with
    | .ok (work, _) => work
    | .error _ => none
  | .finishRuleAction .. | .saveMailRule .. | .deleteMailRule .. | .retryMailRuleRun ..
  | .commitMailboxSync .. | .previewMailRule .. | .applyMailRulePreview .. => none

def RuleRunStatus.settled : RuleRunStatus → Bool
  | .succeeded | .cancelled => true
  | .pending | .running | .failed | .needsReview => false

def MailRuleRun.fixed (r : MailRuleRun) : MailRuleRun :=
  { r with
    status := .pending
    completedActions := 0
    attempts := 0
    errorCode := none
    leaseUntil := none
    updatedAt := 0 }

def Cleared (runs : List MailRuleRun) (r : MailRuleRun) : Prop :=
  ∀ e ∈ runs, e.accountId = r.accountId → e.identity = r.identity → e.sequence < r.sequence →
    e.status.settled = true

/-- What every statement but the claim itself does to a run: it takes a run that is neither
settled nor left for review, and does not start it. -/
structure RunMove (r r' : MailRuleRun) : Prop where
  unsettled : r.status = .pending ∨ r.status = .running ∨ r.status = .failed
  fixed_eq : r'.fixed = r.fixed
  index_le : r.completedActions ≤ r'.completedActions
  stopped : r'.status ≠ .running
  archive : r.status = .running → r.actions[r.completedActions]? = some .archive →
    r'.completedActions = r.completedActions → r'.status = .needsReview

structure RunTable where
  runs : List MailRuleRun
  sequence : ℕ
  works : List RuleWork
  recorded : List (String × ℕ)

def RuleWorld.table (w : RuleWorld) : RunTable :=
  ⟨w.db.mailRuleRuns, w.db.mailRuleRunSequence, w.works, w.recorded⟩

/-- The writes of one call to the runs, with what each of them relies on. -/
inductive RunWrite (w : RuleWorld) (op : RuleOp) : RunTable → RunTable → Prop
  | move {t : RunTable} {p : MailRuleRun → Bool} {f : MailRuleRun → MailRuleRun}
      (moves : ∀ r ∈ t.runs, p r = true → RunMove r (f r)) :
      RunWrite w op t { t with runs := updateWhere p f t.runs }
  | record {t : RunTable} {run : MailRuleRun} {id : String} {index : ℕ} (mem : run ∈ t.runs)
      (id_eq : run.id = id) (done : index < run.completedActions) :
      RunWrite w op t { t with recorded := t.recorded ++ [(id, index)] }
  | handOut {t : RunTable} {run : MailRuleRun} {work : RuleWork} {now : Time}
      (mem : run ∈ t.runs) (pending : run.status = .pending) (cleared : Cleared t.runs run)
      (current : w.db.currentRevision run = true) (id_eq : work.id = run.id)
      (index_eq : work.index = run.completedActions)
      (action_eq : run.actions[run.completedActions]? = some work.action)
      (issued : w.issued op = some work) :
      RunWrite w op t { t with
        runs := updateWhere (fun r => r.id == run.id) (handedOut work.lease now) t.runs
        works := t.works ++ [work] }
  | insert {t : RunTable} {run : MailRuleRun} (sequence_eq : run.sequence = t.sequence + 1)
      (waiting : run.status = .pending ∨ run.status = .succeeded)
      (free : ∀ r ∈ t.runs, run.conflicts r = false)
      (current : w.db.currentRevision run = true) :
      RunWrite w op t { t with runs := t.runs ++ [run], sequence := t.sequence + 1 }

section

variable {runs : List MailRuleRun} {p : MailRuleRun → Bool} {f : MailRuleRun → MailRuleRun}
  {r r' : MailRuleRun}

theorem MailRuleRun.fixed_cols (h : r'.fixed = r.fixed) :
    r'.id = r.id ∧ r'.sequence = r.sequence ∧ r'.accountId = r.accountId ∧
      r'.identity = r.identity ∧ r'.actions = r.actions :=
  ⟨congrArg (·.id) h, congrArg (·.sequence) h, congrArg (·.accountId) h,
    congrArg (·.identity) h, congrArg (·.actions) h⟩

theorem Cleared.congr (h : Cleared runs r) (hfixed : r'.fixed = r.fixed) : Cleared runs r' := by
  obtain ⟨_, hsequence, haccount, hidentity, _⟩ := MailRuleRun.fixed_cols hfixed
  intro e he ha hi hlt
  exact h e he (by rw [ha, haccount]) (by rw [hi, hidentity]) (by rw [← hsequence]; exact hlt)

theorem RunMove.not_settled (h : RunMove r r') : r.status.settled = false := by
  rcases h.unsettled with h | h | h <;> rw [h] <;> rfl

theorem Cleared.update (h : Cleared runs r)
    (hp : ∀ e ∈ runs, p e = true → e.status.settled = false ∧ (f e).fixed = e.fixed) :
    Cleared (updateWhere p f runs) r := by
  intro e he ha hi hlt
  rcases mem_updateWhere.mp he with ⟨old, hold, hsel, rfl⟩ | ⟨hold, _⟩
  · obtain ⟨hopen, hfixed⟩ := hp old hold hsel
    obtain ⟨_, hsequence, haccount, hidentity, _⟩ := MailRuleRun.fixed_cols hfixed
    have hdone := h old hold (by rw [← haccount, ha]) (by rw [← hidentity, hi])
      (by rw [← hsequence]; exact hlt)
    rw [hopen] at hdone
    cases hdone
  · exact h e hold ha hi hlt

theorem Cleared.append (h : Cleared runs r) {run : MailRuleRun}
    (hlater : r.sequence < run.sequence) : Cleared (runs ++ [run]) r := by
  intro e he ha hi hlt
  rcases List.mem_append.mp he with he | he
  · exact h e he ha hi hlt
  · rw [List.mem_singleton.mp he] at hlt
    omega

theorem exists_updated (hr : r ∈ runs) :
    ∃ r' ∈ updateWhere p f runs, (p r = true ∧ r' = f r) ∨ (p r = false ∧ r' = r) := by
  cases hp : p r with
  | true => exact ⟨f r, mem_updateWhere.mpr (Or.inl ⟨r, hr, hp, rfl⟩), Or.inl ⟨rfl, rfl⟩⟩
  | false => exact ⟨r, mem_updateWhere.mpr (Or.inr ⟨hr, hp⟩), Or.inr ⟨rfl, rfl⟩⟩

end

/-- What is known of the run of an action that has been handed out. -/
structure Handed (runs : List MailRuleRun) (work : RuleWork) (r : MailRuleRun) : Prop where
  id_eq : r.id = work.id
  action_eq : r.actions[work.index]? = some work.action
  index_le : work.index ≤ r.completedActions
  cleared : Cleared runs r
  archived : work.action = .archive → r.completedActions = work.index →
    r.status = .running ∨ r.status = .needsReview

def lastFor (works : List RuleWork) (id : String) : Option RuleWork :=
  works.reverse.find? fun work => work.id == id

/-- Two actions for one message, the first handed out before the second. -/
def InOrder (runs : List MailRuleRun) (a b : RuleWork) : Prop :=
  ∀ r ∈ runs, ∀ s ∈ runs, r.id = a.id → s.id = b.id → r.accountId = s.accountId →
    r.identity = s.identity →
      r.sequence < s.sequence ∨ (r.sequence = s.sequence ∧ a.index ≤ b.index)

/-- The invariant of the queue. -/
structure RunTable.Inv (t : RunTable) : Prop where
  ids : UniqueBy (fun r => some r.id) t.runs
  sequences : UniqueBy (fun r => some r.sequence) t.runs
  bound : ∀ r ∈ t.runs, r.sequence ≤ t.sequence
  heads : ∀ r ∈ t.runs, r.status = .running → Cleared t.runs r
  handed : ∀ work ∈ t.works, ∃ r ∈ t.runs, Handed t.runs work r
  latest : ∀ r ∈ t.runs, r.status = .running → ∃ work, lastFor t.works r.id = some work ∧
    r.leaseUntil = some work.lease ∧ r.completedActions = work.index
  ordered : t.works.Pairwise (InOrder t.runs)
  archives : t.works.Pairwise fun a b => b.action = .archive → a.id = b.id → a.index ≠ b.index
  recorded : ∀ entry ∈ t.recorded, ∃ r ∈ t.runs, r.id = entry.1 ∧ entry.2 < r.completedActions

theorem RunTable.Inv.empty {db : Db} (hempty : db.mailRuleRuns = []) :
    (RuleWorld.table { db }).Inv := by
  refine ⟨?_, ?_, ?_, ?_, ?_, ?_, List.Pairwise.nil, List.Pairwise.nil, ?_⟩ <;>
    simp [RuleWorld.table, hempty, UniqueBy]

variable {t : RunTable} {r : MailRuleRun}

variable {s : MailRuleRun} {a b work : RuleWork}

theorem RunTable.Inv.eq_of_id (h : t.Inv) (hr : r ∈ t.runs) (hs : s ∈ t.runs) (hid : r.id = s.id) :
    r = s :=
  h.ids.eq_of_mem hr hs rfl (congrArg some hid.symm)

theorem RunTable.Inv.eq_of_sequence (h : t.Inv) (hr : r ∈ t.runs) (hs : s ∈ t.runs)
    (hseq : r.sequence = s.sequence) : r = s :=
  h.sequences.eq_of_mem hr hs rfl (congrArg some hseq.symm)

variable {p : MailRuleRun → Bool} {f : MailRuleRun → MailRuleRun}

theorem InOrder.update {runs : List MailRuleRun} (h : InOrder runs a b)
    (hf : ∀ r ∈ runs, p r = true → (f r).fixed = r.fixed) : InOrder (updateWhere p f runs) a b := by
  have hold : ∀ r' ∈ updateWhere p f runs, ∃ r ∈ runs, r'.fixed = r.fixed := by
    intro r' hr'
    rcases mem_updateWhere.mp hr' with ⟨r, hr, hsel, rfl⟩ | ⟨hr, _⟩
    · exact ⟨r, hr, hf r hr hsel⟩
    · exact ⟨r', hr, rfl⟩
  intro r' hr' s' hs' hra hsb haccount hidentity
  obtain ⟨r, hr, hrfixed⟩ := hold r' hr'
  obtain ⟨s, hs, hsfixed⟩ := hold s' hs'
  obtain ⟨hrid, hrseq, hracc, hrident, _⟩ := MailRuleRun.fixed_cols hrfixed
  obtain ⟨hsid, hsseq, hsacc, hsident, _⟩ := MailRuleRun.fixed_cols hsfixed
  rw [hrseq, hsseq]
  exact h r hr s hs (by rw [← hrid, hra]) (by rw [← hsid, hsb])
    (by rw [← hracc, haccount, hsacc]) (by rw [← hrident, hidentity, hsident])

theorem Handed.move {runs : List MailRuleRun} {r' : MailRuleRun} (h : Handed runs work r)
    (hmoves : ∀ e ∈ runs, p e = true → e.status.settled = false ∧ (f e).fixed = e.fixed)
    (hr' : r' = r ∨ RunMove r r') : Handed (updateWhere p f runs) work r' := by
  rcases hr' with rfl | hmove
  · exact ⟨h.id_eq, h.action_eq, h.index_le, h.cleared.update hmoves, h.archived⟩
  · obtain ⟨hid, _, _, _, hactions⟩ := MailRuleRun.fixed_cols hmove.fixed_eq
    refine ⟨by rw [hid, h.id_eq], by rw [hactions, h.action_eq],
      le_trans h.index_le hmove.index_le, (h.cleared.update hmoves).congr hmove.fixed_eq, ?_⟩
    intro harchive hindex
    have hsame : r.completedActions = work.index :=
      le_antisymm (hindex ▸ hmove.index_le) h.index_le
    rcases h.archived harchive hsame with hrunning | hreview
    · right
      apply hmove.archive hrunning
      · rw [hsame, h.action_eq, harchive]
      · rw [hindex, hsame]
    · rcases hmove.unsettled with h | h | h <;> rw [h] at hreview <;> cases hreview

theorem inv_move (h : t.Inv) (hmoves : ∀ r ∈ t.runs, p r = true → RunMove r (f r)) :
    RunTable.Inv { t with runs := updateWhere p f t.runs } := by
  have hfixed : ∀ r ∈ t.runs, p r = true → (f r).fixed = r.fixed := fun r hr hp =>
    (hmoves r hr hp).fixed_eq
  have hopen : ∀ e ∈ t.runs, p e = true → e.status.settled = false ∧ (f e).fixed = e.fixed :=
    fun e he hp => ⟨(hmoves e he hp).not_settled, hfixed e he hp⟩
  have hnew : ∀ r ∈ t.runs, ∃ r' ∈ updateWhere p f t.runs, r' = r ∨ RunMove r r' := by
    intro r hr
    obtain ⟨r', hr', ⟨hp, rfl⟩ | ⟨_, rfl⟩⟩ := exists_updated (p := p) (f := f) hr
    · exact ⟨f r, hr', Or.inr (hmoves r hr hp)⟩
    · exact ⟨r', hr', Or.inl rfl⟩
  refine ⟨h.ids.updateWhere ?_, h.sequences.updateWhere ?_, ?_, ?_, ?_, ?_,
    h.ordered.imp fun hab => hab.update hfixed, h.archives, ?_⟩
  · intro r hr hp k hk
    rwa [(MailRuleRun.fixed_cols (hfixed r hr hp)).1] at hk
  · intro r hr hp k hk
    rwa [(MailRuleRun.fixed_cols (hfixed r hr hp)).2.1] at hk
  · apply forall_updateWhere
    · exact fun r hr _ => h.bound r hr
    · intro r hr hp
      rw [(MailRuleRun.fixed_cols (hfixed r hr hp)).2.1]
      exact h.bound r hr
  · apply forall_updateWhere
    · exact fun r hr _ hrunning => (h.heads r hr hrunning).update hopen
    · exact fun r hr hp hrunning => absurd hrunning (hmoves r hr hp).stopped
  · intro work hwork
    obtain ⟨r, hr, hhanded⟩ := h.handed work hwork
    obtain ⟨r', hr', hcase⟩ := hnew r hr
    exact ⟨r', hr', hhanded.move hopen hcase⟩
  · apply forall_updateWhere
    · exact fun r hr _ => h.latest r hr
    · exact fun r hr hp hrunning => absurd hrunning (hmoves r hr hp).stopped
  · intro entry hentry
    obtain ⟨r, hr, hid, hlt⟩ := h.recorded entry hentry
    obtain ⟨r', hr', rfl | hmove⟩ := hnew r hr
    · exact ⟨r', hr', hid, hlt⟩
    · exact ⟨r', hr', by rw [(MailRuleRun.fixed_cols hmove.fixed_eq).1, hid],
        lt_of_lt_of_le hlt hmove.index_le⟩

variable {run : MailRuleRun}

theorem inv_record (h : t.Inv) (hrun : run ∈ t.runs) {id : String} (hid : run.id = id) {index : ℕ}
    (hindex : index < run.completedActions) :
    RunTable.Inv { t with recorded := t.recorded ++ [(id, index)] } := by
  refine ⟨h.ids, h.sequences, h.bound, h.heads, h.handed, h.latest, h.ordered, h.archives, ?_⟩
  intro entry hentry
  rcases List.mem_append.mp hentry with hentry | hentry
  · exact h.recorded entry hentry
  · rw [List.mem_singleton.mp hentry]
    exact ⟨run, hrun, hid, hindex⟩

theorem inv_insert (h : t.Inv) (hsequence : run.sequence = t.sequence + 1)
    (hwaiting : run.status = .pending ∨ run.status = .succeeded)
    (hfree : ∀ r ∈ t.runs, run.conflicts r = false) :
    RunTable.Inv { t with runs := t.runs ++ [run], sequence := t.sequence + 1 } := by
  have hlater : ∀ r ∈ t.runs, r.sequence < run.sequence := by
    intro r hr
    have := h.bound r hr
    omega
  have hstopped : run.status ≠ .running := by
    rcases hwaiting with h | h <;> rw [h] <;> decide
  have hids : ∀ r ∈ t.runs, r.id ≠ run.id := by
    intro r hr hid
    have := hfree r hr
    simp [MailRuleRun.conflicts, hid] at this
  have hmem : ∀ r ∈ t.runs, r ∈ t.runs ++ [run] := fun r hr => List.mem_append_left _ hr
  refine ⟨h.ids.append ?_, h.sequences.append ?_, ?_, ?_, ?_, ?_, ?_, h.archives, ?_⟩
  · intro r hr k hk hrun
    simp only [Option.some.injEq] at hk hrun
    exact hids r hr (hk.trans hrun.symm)
  · intro r hr k hk hrun
    have := hlater r hr
    simp only [Option.some.injEq] at hk hrun
    omega
  · intro r hr
    rcases List.mem_append.mp hr with hr | hr
    · have := hlater r hr
      dsimp only
      omega
    · rw [List.mem_singleton.mp hr, hsequence]
  · intro r hr hrunning
    rcases List.mem_append.mp hr with hr | hr
    · exact (h.heads r hr hrunning).append (hlater r hr)
    · rw [List.mem_singleton.mp hr] at hrunning
      exact absurd hrunning hstopped
  · intro work hwork
    obtain ⟨r, hr, hhanded⟩ := h.handed work hwork
    exact ⟨r, hmem r hr, hhanded.id_eq, hhanded.action_eq, hhanded.index_le,
      hhanded.cleared.append (hlater r hr), hhanded.archived⟩
  · intro r hr hrunning
    rcases List.mem_append.mp hr with hr | hr
    · exact h.latest r hr hrunning
    · rw [List.mem_singleton.mp hr] at hrunning
      exact absurd hrunning hstopped
  · -- the new id belongs to no action that has been handed out
    apply h.ordered.imp_of_mem
    intro a b ha hb hab r hr s hs hra hsb
    have hold : ∀ work ∈ t.works, ∀ r ∈ t.runs ++ [run], r.id = work.id → r ∈ t.runs := by
      intro work hwork r hr hid
      rcases List.mem_append.mp hr with hr | hr
      · exact hr
      · obtain ⟨q, hq, hhanded⟩ := h.handed work hwork
        rw [List.mem_singleton.mp hr] at hid
        exact absurd (hhanded.id_eq.trans hid.symm) (hids q hq)
    exact hab r (hold a ha r hr hra) s (hold b hb s hs hsb) hra hsb
  · intro entry hentry
    obtain ⟨r, hr, hid, hlt⟩ := h.recorded entry hentry
    exact ⟨r, hmem r hr, hid, hlt⟩

theorem lastFor_append (works : List RuleWork) (work : RuleWork) (id : String) :
    lastFor (works ++ [work]) id = if work.id = id then some work else lastFor works id := by
  by_cases hid : work.id = id <;> simp [lastFor, hid]

theorem inOrder_of_cleared (h : t.Inv) (hrun : run ∈ t.runs) (hpending : run.status = .pending)
    (ha : a ∈ t.works) (hid : b.id = run.id) (hindex : b.index = run.completedActions) :
    InOrder t.runs a b := by
  intro r hr s hs hra hsb haccount hidentity
  obtain ⟨q, hq, hhanded⟩ := h.handed a ha
  have hqr : q = r := h.eq_of_id hq hr (hhanded.id_eq.trans hra.symm)
  have hsrun : s = run := h.eq_of_id hs hrun (hsb.trans hid)
  subst hqr hsrun
  rcases Nat.lt_trichotomy q.sequence s.sequence with hlt | heq | hgt
  · exact Or.inl hlt
  · right
    have hsame : q = s := h.eq_of_sequence hr hs heq
    exact ⟨heq, by rw [hindex, ← hsame]; exact hhanded.index_le⟩
  · have hsettled := hhanded.cleared s hs haccount.symm hidentity.symm hgt
    rw [hpending] at hsettled
    cases hsettled

theorem inv_handOut (h : t.Inv) {now : Time} (hrun : run ∈ t.runs)
    (hpending : run.status = .pending) (hcleared : Cleared t.runs run) (hid : work.id = run.id)
    (hindex : work.index = run.completedActions)
    (haction : run.actions[run.completedActions]? = some work.action) :
    RunTable.Inv { t with
      runs := updateWhere (fun r => r.id == run.id) (handedOut work.lease now) t.runs
      works := t.works ++ [work] } := by
  have hsel : ∀ r ∈ t.runs, (r.id == run.id) = true → r = run := fun r hr hp =>
    h.eq_of_id hr hrun (by simpa using hp)
  have hopen : ∀ e ∈ t.runs, (e.id == run.id) = true →
      e.status.settled = false ∧ (handedOut work.lease now e).fixed = e.fixed := by
    intro e he hp
    rw [hsel e he hp, hpending]
    exact ⟨rfl, rfl⟩
  have hnew : handedOut work.lease now run ∈
      updateWhere (fun r => r.id == run.id) (handedOut work.lease now) t.runs :=
    mem_updateWhere.mpr (Or.inl ⟨run, hrun, by simp, rfl⟩)
  refine ⟨h.ids.updateWhere fun r _ _ k hk => hk, h.sequences.updateWhere fun r _ _ k hk => hk,
    forall_updateWhere (fun r hr _ => h.bound r hr) (fun r hr _ => h.bound r hr), ?_, ?_, ?_, ?_,
    ?_, ?_⟩
  · apply forall_updateWhere
    · exact fun r hr _ hrunning => (h.heads r hr hrunning).update hopen
    · intro r hr hp _
      rw [hsel r hr hp]
      exact (hcleared.update hopen).congr rfl
  · intro old hold
    rcases List.mem_append.mp hold with hold | hold
    · obtain ⟨r, hr, hhanded⟩ := h.handed old hold
      obtain ⟨r', hr', ⟨hp, rfl⟩ | ⟨_, rfl⟩⟩ := exists_updated
        (p := fun r => r.id == run.id) (f := handedOut work.lease now) hr
      · exact ⟨_, hr', hhanded.id_eq, hhanded.action_eq, hhanded.index_le,
          (hhanded.cleared.update hopen).congr rfl, fun _ _ => Or.inl rfl⟩
      · exact ⟨_, hr', hhanded.id_eq, hhanded.action_eq, hhanded.index_le,
          hhanded.cleared.update hopen, hhanded.archived⟩
    · rw [List.mem_singleton.mp hold]
      exact ⟨_, hnew, hid.symm, by rw [hindex]; exact haction, hindex.le,
        (hcleared.update hopen).congr rfl, fun _ _ => Or.inl rfl⟩
  · apply forall_updateWhere
    · intro r hr hp hrunning
      have hne : work.id ≠ r.id := by
        intro heq
        rw [beq_eq_false_iff_ne] at hp
        exact hp (heq.symm.trans hid)
      simp only [lastFor_append, if_neg hne]
      exact h.latest r hr hrunning
    · intro r hr hp _
      rw [hsel r hr hp]
      exact ⟨work, by simp [lastFor_append, handedOut, hid], rfl, hindex.symm⟩
  · apply List.pairwise_append.mpr
    refine ⟨h.ordered.imp fun hab => hab.update fun r _ _ => rfl, List.pairwise_singleton _ _, ?_⟩
    intro a ha b hb
    rw [List.mem_singleton.mp hb]
    exact (inOrder_of_cleared h hrun hpending ha hid hindex).update fun r _ _ => rfl
  · apply List.pairwise_append.mpr
    refine ⟨h.archives, List.pairwise_singleton _ _, ?_⟩
    intro a ha b hb harchive hab hindices
    rw [List.mem_singleton.mp hb] at harchive hab hindices
    obtain ⟨r, hr, hhanded⟩ := h.handed a ha
    have hrun' : r = run := h.eq_of_id hr hrun (by rw [hhanded.id_eq, hab, hid])
    subst hrun'
    have hsame : some a.action = some work.action := by
      rw [← hhanded.action_eq, ← haction, hindices, hindex]
    have hstatus := hhanded.archived ((Option.some.inj hsame).trans harchive)
      (by rw [hindices, hindex])
    rw [hpending] at hstatus
    rcases hstatus with hstatus | hstatus <;> cases hstatus
  · intro entry hentry
    obtain ⟨r, hr, hrid, hlt⟩ := h.recorded entry hentry
    obtain ⟨r', hr', ⟨hp, rfl⟩ | ⟨_, rfl⟩⟩ := exists_updated
      (p := fun r => r.id == run.id) (f := handedOut work.lease now) hr
    · exact ⟨_, hr', hrid, hlt⟩
    · exact ⟨_, hr', hrid, hlt⟩

theorem runWrite_inv {w : RuleWorld} {op : RuleOp} {t' : RunTable} (hwrite : RunWrite w op t t')
    (h : t.Inv) : t'.Inv := by
  cases hwrite with
  | move moves => exact inv_move h moves
  | record mem id_eq done => exact inv_record h mem id_eq done
  | handOut mem pending cleared current id_eq index_eq action_eq issued =>
    exact inv_handOut h mem pending cleared id_eq index_eq action_eq
  | insert sequence_eq waiting free current => exact inv_insert h sequence_eq waiting free

end IMail
