import IMail.Store.ContentData
import IMail.Store.RuleEdits
import IMail.Sync.Summaries
import IMail.Sync.MailTables

/-!
# Automatic runs over the life of a message

Histories of commits, other calls of the sync store, rule edits and deletions of messages. An
automatic run for a Message-ID should be recorded in one commit at most: that of an inbox
which was synchronized before, when the Message-ID has never been imported.
-/

namespace IMail

open Relational Relation Transition

def isRfcId (id : String) : Bool := !(Text.trim id).isEmpty

def rfcId (m : Message) : Option String := m.messageId.filter isRfcId

variable {m : Message} {x : String}

theorem rfcId_eq_some : rfcId m = some x ↔ m.messageId = some x ∧ isRfcId x = true := by
  unfold rfcId
  rw [Option.filter_eq_some_iff]

theorem messageIdentity_of_rfcId (h : rfcId m = some x) : messageIdentity m = "rfc:" ++ x := by
  unfold messageIdentity
  unfold rfcId isRfcId at h
  rw [h]

theorem rfcId_of_messageIdentity (h : messageIdentity m = "rfc:" ++ x) : rfcId m = some x := by
  unfold messageIdentity at h
  unfold rfcId isRfcId
  split at h
  · rename_i id hid
    rw [hid]
    have hlist := congrArg String.toList h
    simp only [String.toList_append] at hlist
    rw [String.toList_inj.mp (List.append_cancel_left hlist)]
  · have hlist := congrArg String.toList h
    simp [String.toList_append] at hlist

inductive HistoryOp
  | sync (op : SyncOp)
  | saveMailRule (newId owner : String) (id : Option String) (input : MailRuleInput) (now : Time)
  | deleteMailRule (owner id : String) (now : Time)
  | deleteMessage (userId messageId : String)

/-- The database, and what has happened so far: the Message-IDs that commits have brought to
an account, the mailboxes with a completed sync, and the runs that were recorded. -/
structure HistoryWorld where
  db : Db
  imported : List (String × String) := []
  completed : List (String × String) := []
  created : List MailRuleRun := []

section

variable [Platform]

def HistoryOp.apply (db : Db) : HistoryOp → Db
  | .sync op => op.apply db
  | .saveMailRule newId owner id input now =>
    committed db ((IMail.saveMailRule db newId owner id input now).map Prod.snd)
  | .deleteMailRule owner id now => (IMail.deleteMailRule db owner id now).2
  | .deleteMessage userId messageId => (IMail.deleteMessage db userId messageId).2

def HistoryOp.imports (db : Db) : HistoryOp → List (String × String)
  | .sync (.commitMailboxSync runIds plan completedAt) =>
    if (IMail.commitMailboxSync db runIds plan completedAt).isOk then
      plan.incoming.filterMap fun m => m.messageId.map fun x => (plan.accountId, x)
    else []
  | _ => []

def HistoryOp.completes (db : Db) : HistoryOp → List (String × String)
  | .sync (.complete newId job result reconciliationMinutes now) =>
    if (IMail.complete db newId job result reconciliationMinutes now).isOk then
      [(job.accountId, result.mailbox)]
    else []
  | _ => []

/-- The rows that a call has added to `mail_rule_runs`. -/
def HistoryOp.creates (db : Db) (op : HistoryOp) : List MailRuleRun :=
  (op.apply db).mailRuleRuns.drop db.mailRuleRuns.length

def HistoryWorld.step (w : HistoryWorld) (op : HistoryOp) : HistoryWorld where
  db := op.apply w.db
  imported := w.imported ++ op.imports w.db
  completed := w.completed ++ op.completes w.db
  created := w.created ++ op.creates w.db

abbrev HistoryWorld.run (w : HistoryWorld) (ops : List HistoryOp) : HistoryWorld :=
  exec HistoryWorld.step w ops

end

/-- Local ids of a commit belong to the account, and to the Message-ID they had before. -/
def KeepsIdentity (db : Db) : HistoryOp → Prop
  | .sync (.commitMailboxSync _ plan _) =>
    ∀ m ∈ plan.incoming, ∀ row ∈ db.messages, row.id = m.id →
      row.accountId = plan.accountId ∧ ∀ x, rfcId m = some x → row.messageId = some x
  | _ => True

/-- `UNIQUE(user_id,rule_id,revision,account_id,identity)` -/
def MailRuleRun.key (run : MailRuleRun) : String × String × ℕ × String × String :=
  (run.userId, run.ruleId, run.revision, run.accountId, run.identity)

theorem key_ne_of_conflicts {run other : MailRuleRun} (h : run.conflicts other = false) :
    other.key ≠ run.key := by
  intro hkey
  simp only [MailRuleRun.key, Prod.mk.injEq] at hkey
  simp [MailRuleRun.conflicts, hkey] at h

/-- Rows may be updated under their keys, and new ones of the given origin added. -/
def RunsGrow (origin : MailRuleRun → Prop) (runs runs' : List MailRuleRun) : Prop :=
  ∃ old new, runs' = old ++ new ∧ old.map (·.key) = runs.map (·.key) ∧ (∀ run ∈ new, origin run) ∧
    ((runs.map (·.key)).Nodup → (runs'.map (·.key)).Nodup)

theorem RunsGrow.refl (origin : MailRuleRun → Prop) (runs : List MailRuleRun) :
    RunsGrow origin runs runs :=
  ⟨runs, [], by simp, rfl, by simp, id⟩

theorem runsGrow_updateWhere (origin : MailRuleRun → Prop) {p : MailRuleRun → Bool}
    {f : MailRuleRun → MailRuleRun} (hf : ∀ run, (f run).key = run.key)
    (runs : List MailRuleRun) : RunsGrow origin runs (updateWhere p f runs) := by
  have hkeys : (updateWhere p f runs).map (·.key) = runs.map (·.key) :=
    map_updateWhere MailRuleRun.key hf
  refine ⟨updateWhere p f runs, [], by simp, hkeys, by simp, ?_⟩
  rw [hkeys]
  exact id

theorem runsGrow_inserts {origin : MailRuleRun → Prop} {t t' : List MailRuleRun × ℕ}
    (h : ReflTransGen (RunInsert origin) t t') : RunsGrow origin t.1 t'.1 := by
  induction h with
  | refl => exact RunsGrow.refl _ _
  | tail _ hlast ih =>
    obtain ⟨old, new, hrows, hkeys, horigin, hnodup⟩ := ih
    cases hlast with
    | @mk runs n run from_rule sequence_eq free =>
      refine ⟨old, new ++ [run], ?_, hkeys, ?_, ?_⟩
      · rw [← List.append_assoc, ← hrows]
      · intro r hr
        rcases List.mem_append.mp hr with hr | hr
        · exact horigin r hr
        · rw [List.mem_singleton.mp hr]
          exact from_rule
      · intro hunique
        rw [List.map_append, List.map_singleton]
        apply List.nodup_append.mpr
        refine ⟨hnodup hunique, List.nodup_singleton _, ?_⟩
        intro k hk k' hk' heq
        obtain ⟨r, hr, rfl⟩ := List.mem_map.mp hk
        rw [List.mem_singleton.mp hk'] at heq
        exact key_ne_of_conflicts (free r hr) heq

theorem RunsGrow.drop {origin : MailRuleRun → Prop} {runs runs' : List MailRuleRun}
    (h : RunsGrow origin runs runs') :
    (∀ run ∈ runs'.drop runs.length, origin run) ∧
      runs'.map (·.key) = runs.map (·.key) ++ (runs'.drop runs.length).map (·.key) := by
  obtain ⟨old, new, rfl, hkeys, horigin, _⟩ := h
  have hlength : runs.length = old.length := by
    have := congrArg List.length hkeys
    simpa using this.symm
  rw [hlength, List.drop_left]
  exact ⟨horigin, by rw [List.map_append, hkeys]⟩

theorem runsGrow_cancelRule (origin : MailRuleRun → Prop) (db : Db) (owner ruleId : String)
    (now : Time) : RunsGrow origin db.mailRuleRuns (db.cancelRule owner ruleId now).mailRuleRuns := by
  apply runsGrow_updateWhere
  intro run
  rfl

theorem runsGrow_retry (origin : MailRuleRun → Prop) {db db' : Db} {newId owner id : String}
    {now : Time} {found : Bool} (h : retryMailRuleRun db newId owner id now = .ok (found, db')) :
    RunsGrow origin db.mailRuleRuns db'.mailRuleRuns := by
  rcases retryMailRuleRun_runs h with ⟨-, rfl⟩ | ⟨-, -, hrows⟩
  · exact RunsGrow.refl _ _
  · rw [show db'.mailRuleRuns = _ from congrArg Prod.fst hrows]
    apply runsGrow_updateWhere
    intro run
    rfl

def HistoryOp.origin [Platform] (db : Db) (run : MailRuleRun) : HistoryOp → Prop
  | .sync (.commitMailboxSync _ plan _) => ∃ owner rules, ∃ m ∈ plan.incoming,
      m.accountId = plan.accountId ∧ m.mailboxRole = plan.mailboxRole ∧
      AutomaticRun db owner rules (previouslySynced db plan.accountId plan.mailbox) plan m run
  | .sync (.applyMailRulePreview ..) => run.source = .manual
  | _ => False

section

variable [Platform]

variable {db db' : Db} {runIds : RunIds} {plan : MailboxSyncPlan} {completedAt : Time}
  {result : MailboxSyncCommitResult}

theorem commit_target (h : commitMailboxSync db runIds plan completedAt = .ok (result, db'))
    {m : Message} (hm : m ∈ plan.incoming) :
    m.accountId = plan.accountId ∧ m.mailbox = plan.mailbox ∧
      m.mailboxRole = plan.mailboxRole := by
  obtain ⟨_, _, _, _, hprepare, _⟩ := commitMailboxSync_ok h
  obtain ⟨_, _, hcols⟩ := exists_right_of_mem (prepareAll_ok hprepare).1 hm
  exact ⟨hcols.1, hcols.2.1, hcols.2.2.1⟩

def SameMailIds (db db' : Db) : Prop :=
  ∀ m ∈ db'.messages, ∃ old ∈ db.messages, old.accountId = m.accountId ∧
    old.messageId = m.messageId

def CachedSeen (db : Db) : Prop :=
  ∀ m ∈ db.messages, ∀ x, rfcId m = some x → db.Seen m.accountId ("rfc:" ++ x)

omit [Platform] in
theorem SameMailIds.of_eq (h : db'.messages = db.messages) : SameMailIds db db' := by
  intro m hm
  rw [h] at hm
  exact ⟨m, hm, rfl, rfl⟩

omit [Platform] in
theorem SameMailIds.trans {a b c : Db} (hab : SameMailIds a b) (hbc : SameMailIds b c) :
    SameMailIds a c := by
  intro m hm
  obtain ⟨n, hn, haccount, hid⟩ := hbc m hm
  obtain ⟨o, ho, haccount', hid'⟩ := hab n hn
  exact ⟨o, ho, haccount'.trans haccount, hid'.trans hid⟩

omit [Platform] in
theorem CachedSeen.mono (h : CachedSeen db) (hids : SameMailIds db db') (hmore : SeenMore db db') :
    CachedSeen db' := by
  intro m hm x hx
  obtain ⟨old, hold, haccount, hid⟩ := hids m hm
  have hseen := h old hold x (by
    unfold rfcId at hx ⊢
    rw [hid, hx])
  rw [haccount] at hseen
  exact hmore _ _ hseen

section

variable (hcached : CachedSeen db)
  (hkeeps : KeepsIdentity db (.sync (.commitMailboxSync runIds plan completedAt)))
  (h : commitMailboxSync db runIds plan completedAt = .ok (result, db'))
include hcached hkeeps h

theorem commit_records :
    ∀ m ∈ plan.incoming, ∀ x, rfcId m = some x → db'.Seen plan.accountId ("rfc:" ++ x) := by
  intro m hm x hx
  obtain ⟨hmore, hnew⟩ := commitMailboxSync_seen h
  cases hrow : previousRow db m with
  | none =>
    rw [← messageIdentity_of_rfcId hx]
    exact hnew m hm hrow
  | some row =>
    obtain ⟨hmem, haccount, hid | ⟨_, hsame⟩⟩ := previousRow_some hrow
    · have hrowid := (hkeeps m hm row hmem hid).2 x hx
      have hseen := hcached row hmem x (rfcId_eq_some.mpr ⟨hrowid, (rfcId_eq_some.mp hx).2⟩)
      rw [haccount, (commit_target h hm).1] at hseen
      exact hmore _ _ hseen
    · have hseen := hcached row hmem x (by
        unfold rfcId at hx ⊢
        rw [hsame, hx])
      rw [haccount, (commit_target h hm).1] at hseen
      exact hmore _ _ hseen

theorem commit_cachedSeen : CachedSeen db' := by
  have hrecords := commit_records hcached hkeeps h
  obtain ⟨account, incoming, prepared, _, hprepare, hwrite, _⟩ := commitMailboxSync_ok h
  obtain ⟨htargets, honly⟩ := prepareAll_ok hprepare
  have hown : OwnIds plan.accountId incoming prepared.messages := by
    intro n hn
    obtain ⟨m, hm, haccount, _, _, _, _, rfl⟩ := exists_left_of_mem htargets hn
    rw [honly.messages_eq]
    exact ⟨haccount, fun row hrow hid => (hkeeps m hm row hrow hid).1⟩
  obtain ⟨stored, hstore, hdb'⟩ := writePlan_ok hwrite
  intro r hr x hx
  have hflagged : r ∈ (stored.applyFlags plan).messages := by
    rw [hdb'] at hr
    exact (mem_deleteWhere.mp hr).1
  obtain ⟨s, rfl, hnew | ⟨hold, _, _⟩⟩ := (mem_applyFlags hown hstore r).mp hflagged
  · obtain ⟨m, hm, haccount, _, _, _, _, rfl⟩ :=
      exists_left_of_mem htargets (mem_of_mem_survivors hnew)
    rw [flagRow_accountId]
    have hmx : rfcId m = some x := by
      unfold rfcId at hx ⊢
      rw [flagRow_messageId] at hx
      exact hx
    have hseen := hrecords m hm x hmx
    rw [← haccount] at hseen
    exact hseen
  · rw [honly.messages_eq] at hold
    rw [flagRow_accountId]
    have hsx : rfcId s = some x := by
      unfold rfcId at hx ⊢
      rw [flagRow_messageId] at hx
      exact hx
    exact (commitMailboxSync_seen h).1 _ _ (hcached s hold x hsx)

end

variable {jobIds : RunIds} {owner : String} {now : Time} {count : ℕ}

theorem applyPreviewMessage_mail {rule : MailRule} {expected : PreviewMessage}
    (h : applyPreviewMessage jobIds runIds owner rule now expected db = .ok (count, db')) :
    SameMailIds db db' ∧ SeenMore db db' := by
  unfold applyPreviewMessage at h
  split at h
  · cases h
  · rename_i message _
    split at h
    · cases h
    · have hmore := seenMore_enqueueRuns runIds owner .manual now
        (matchingRules [rule] message) message db
      have hmessages : (enqueueMatches runIds owner [rule] message .manual now db).2.2.messages =
          db.messages := (rulesOnly_enqueueMatches runIds owner [rule] message .manual now
            db).messages_eq
      have hlabels : ∀ m ∈ updateWhere (fun m : Message => m.id == message.id)
          (fun m => { m with
            labels := (enqueueMatches runIds owner [rule] message .manual now db).1.labels })
          (enqueueMatches runIds owner [rule] message .manual now db).2.2.messages,
          ∃ old ∈ db.messages, old.accountId = m.accountId ∧ old.messageId = m.messageId := by
        rw [hmessages]
        intro m hm
        rcases mem_updateWhere.mp hm with ⟨old, hold, _, rfl⟩ | ⟨hold, _⟩
        · exact ⟨old, hold, rfl, rfl⟩
        · exact ⟨m, hold, rfl, rfl⟩
      dsimp only at h
      split at h
      · split at h
        · cases h
        · rename_i db₁ hwake
          cases h
          obtain ⟨jobs, rfl, _⟩ := wakeForRules_ok hwake
          exact ⟨hlabels, hmore.trans (.of_states_eq rfl)⟩
      · cases h
        exact ⟨hlabels, hmore.trans (.of_states_eq rfl)⟩

theorem applyPreviewMessages_mail {rule : MailRule} {expected : List PreviewMessage}
    (h : applyPreviewMessages jobIds runIds owner rule now expected db = .ok (count, db')) :
    SameMailIds db db' ∧ SeenMore db db' := by
  induction expected generalizing db count with
  | nil =>
    cases h
    exact ⟨.of_eq rfl, SeenMore.refl _⟩
  | cons first rest ih =>
    simp only [applyPreviewMessages] at h
    split at h
    · cases h
    · rename_i count₁ db₁ hfirst
      obtain ⟨⟨count₂, db₂⟩, hrest, heq⟩ := map_eq_ok h
      cases heq
      obtain ⟨hids, hmore⟩ := applyPreviewMessage_mail hfirst
      obtain ⟨hids', hmore'⟩ := ih hrest
      exact ⟨hids.trans hids', hmore.trans hmore'⟩

theorem applyMailRulePreview_mail {token : String}
    (h : applyMailRulePreview db jobIds runIds owner token now = .ok (count, db')) :
    SameMailIds db db' ∧ SeenMore db db' := by
  unfold applyMailRulePreview at h
  split at h
  · cases h
  · rename_i preview hpreview
    split at h
    · cases h
    · rename_i rule hrule
      obtain ⟨⟨total, db₁⟩, hall, heq⟩ := map_eq_ok h
      cases heq
      obtain ⟨hids, hmore⟩ := applyPreviewMessages_mail hall
      exact ⟨hids.trans (.of_eq rfl), hmore.trans (.of_states_eq rfl)⟩

/-- What a call does to the runs and to the mail. -/
structure HistoryWrite (db : Db) (op : HistoryOp) (db' : Db) : Prop where
  runs : RunsGrow (fun run => op.origin db run) db.mailRuleRuns db'.mailRuleRuns
  mail : (op.imports db = [] ∧ SameMailIds db db' ∧ SeenMore db db') ∨
    ∃ runIds plan completedAt result, op = .sync (.commitMailboxSync runIds plan completedAt) ∧
      commitMailboxSync db runIds plan completedAt = .ok (result, db')

theorem apply_history (db : Db) (op : HistoryOp) : HistoryWrite db op (op.apply db) := by
  have hsame : ∀ {op : HistoryOp}, op.imports db = [] → HistoryWrite db op db :=
    fun hnone => ⟨RunsGrow.refl _ _, Or.inl ⟨hnone, .of_eq rfl, SeenMore.refl db⟩⟩
  have hcommitted : ∀ {ε : Type} {op : HistoryOp} {r : Except ε Db}, op.imports db = [] →
      (∀ db', r = .ok db' → HistoryWrite db op db') → HistoryWrite db op (committed db r) :=
    fun hnone h => committed_of (P := HistoryWrite db _) (hsame hnone) h
  cases op with
  | sync op =>
    by_cases hmail : op.writesMail = true
    · cases op with
      | commitMailboxSync runIds plan completedAt =>
        simp only [HistoryOp.apply, SyncOp.apply]
        cases hcommit : IMail.commitMailboxSync db runIds plan completedAt with
        | error e => exact hsame (by simp [HistoryOp.imports, hcommit, Except.isOk, Except.toBool])
        | ok pair =>
          refine ⟨?_, Or.inr ⟨runIds, plan, completedAt, pair.1, rfl, hcommit⟩⟩
          obtain ⟨account, _, hinserts⟩ := commitMailboxSync_inserts hcommit
          apply runsGrow_inserts (runInserts_imp _ hinserts)
          rintro run ⟨m, hm, hrun⟩
          obtain ⟨haccount, _, hrole⟩ := commit_target hcommit hm
          exact ⟨account.userId, _, m, hm, haccount, hrole, hrun⟩
      | applyMailRulePreview jobIds runIds owner token now =>
        refine hcommitted rfl fun db' h => ?_
        obtain ⟨count, h⟩ := map_snd_ok h
        refine ⟨?_, Or.inl ⟨rfl, applyMailRulePreview_mail h⟩⟩
        apply runsGrow_inserts (runInserts_imp _ (applyMailRulePreview_inserts h))
        rintro run ⟨m, hrun⟩
        exact hrun.source_eq
      | retryMailRuleRun newId owner id now =>
        refine hcommitted rfl fun db' h => ?_
        obtain ⟨found, h⟩ := map_snd_ok h
        refine ⟨runsGrow_retry _ h, Or.inl ⟨rfl, ?_⟩⟩
        obtain ⟨⟨runs, jobs, rfl⟩, _⟩ := retryMailRuleRun_ok h
        exact ⟨.of_eq rfl, .of_states_eq rfl⟩
      | _ => cases hmail
    · have htables := apply_mailTables db op (Bool.eq_false_iff.mpr hmail)
      simp only [Db.mailTables, Prod.mk.injEq] at htables
      have hnone : (HistoryOp.sync op).imports db = [] := by
        cases op <;> first | rfl | exact absurd rfl hmail
      refine ⟨?_, Or.inl ⟨hnone, .of_eq htables.1, .of_states_eq htables.2.2.2⟩⟩
      simp only [HistoryOp.apply, htables.2.1]
      exact RunsGrow.refl _ _
  | saveMailRule newId owner id input now =>
    refine hcommitted rfl fun db' h => ?_
    obtain ⟨saved, h⟩ := map_snd_ok h
    cases saved with
    | none =>
      rw [saveMailRule_none h]
      exact hsame rfl
    | some rule =>
      rw [(saveMailRule_ok h).1]
      exact ⟨runsGrow_cancelRule _ { db with mailRules := db.upsertRule rule } owner rule.id now,
        Or.inl ⟨rfl, .of_eq rfl, .of_states_eq rfl⟩⟩
  | deleteMailRule owner id now =>
    exact ⟨runsGrow_cancelRule _ { db with
      mailRules := deleteWhere (fun r => r.userId == owner && r.id == id) db.mailRules } owner id now,
      Or.inl ⟨rfl, .of_eq rfl, .of_states_eq rfl⟩⟩
  | deleteMessage userId messageId =>
    refine ⟨RunsGrow.refl _ _, Or.inl ⟨rfl, fun m hm => ?_, .of_states_eq rfl⟩⟩
    exact ⟨m, (mem_deleteWhere.mp hm).1, rfl, rfl⟩

def SyncedIn (mailboxes : List (String × String)) (states : List MailboxSyncState) : Prop :=
  ∀ s ∈ states, s.lastSuccessAt.isSome = true → (s.accountId, s.mailbox) ∈ mailboxes

variable {mailboxes : List (String × String)} {states : List MailboxSyncState}

omit [Platform] in
theorem SyncedIn.updateWhere (h : SyncedIn mailboxes states) {p : MailboxSyncState → Bool}
    {f : MailboxSyncState → MailboxSyncState}
    (hf : ∀ s, (f s).accountId = s.accountId ∧ (f s).mailbox = s.mailbox ∧
      (f s).lastSuccessAt = s.lastSuccessAt) : SyncedIn mailboxes (updateWhere p f states) := by
  intro s hs hsynced
  rcases mem_updateWhere.mp hs with ⟨old, hold, _, rfl⟩ | ⟨hold, _⟩
  · obtain ⟨haccount, hmailbox, hsuccess⟩ := hf old
    rw [haccount, hmailbox]
    exact h old hold (hsuccess ▸ hsynced)
  · exact h s hold hsynced

omit [Platform] in
theorem SyncedIn.upsert (h : SyncedIn mailboxes states) {row : MailboxSyncState}
    {merge : MailboxSyncState → MailboxSyncState} (hrow : row.lastSuccessAt = none)
    (hmerge : ∀ s, (merge s).accountId = s.accountId ∧ (merge s).mailbox = s.mailbox ∧
      (merge s).lastSuccessAt = s.lastSuccessAt) :
    SyncedIn mailboxes (upsertStates row merge states) := by
  intro s hs hsynced
  rcases mem_upsertStates hs with ⟨rfl, _⟩ | ⟨old, hold, _, rfl⟩ | ⟨hold, _⟩
  · rw [hrow] at hsynced
    cases hsynced
  · obtain ⟨haccount, hmailbox, hsuccess⟩ := hmerge old
    rw [haccount, hmailbox]
    exact h old hold (hsuccess ▸ hsynced)
  · exact h s hold hsynced

omit [Platform] in
theorem SyncedIn.completed (h : SyncedIn mailboxes states) (job : SyncJob)
    (result : SyncCompletion) (next now : Time) :
    SyncedIn (mailboxes ++ [(job.accountId, result.mailbox)])
      (completedStates job result next now states) := by
  intro s hs hsynced
  rcases mem_upsertStates (mem_deleteWhere.mp hs).1 with ⟨rfl, _⟩ | ⟨old, _, hsame, rfl⟩ | ⟨hold, _⟩
  · exact List.mem_append_right _ List.mem_cons_self
  · simp only [sameMailbox, completedRow, Bool.and_eq_true, beq_iff_eq] at hsame
    apply List.mem_append_right
    simp [completedMerge, hsame]
  · exact List.mem_append_left _ (h s hold hsynced)

theorem apply_synced_single (op : SyncOp) (hop : op.single = true)
    (h : SyncedIn mailboxes db.mailboxSyncStates) :
    SyncedIn (mailboxes ++ (HistoryOp.sync op).completes db) (op.apply db).mailboxSyncStates := by
  have hmore : SyncedIn (mailboxes ++ (HistoryOp.sync op).completes db) db.mailboxSyncStates :=
    fun s hs hsynced => List.mem_append_left _ (h s hs hsynced)
  have hwrite := (apply_single db op hop).states
  generalize hstates : (op.apply db).mailboxSyncStates = states at hwrite ⊢
  generalize (op.apply db).syncPolicies = policies at hwrite
  cases hwrite with
  | same | ensure => exact hmore
  | @policy accountId settings now mode _ =>
    unfold policyStates
    split_ifs <;> exact hmore.updateWhere fun s => ⟨rfl, rfl, rfl⟩
  | resume => exact hmore.updateWhere fun s => ⟨rfl, rfl, rfl⟩
  | start | fail | cancel => exact hmore.upsert rfl fun s => ⟨rfl, rfl, rfl⟩
  | @complete newId job result reconciliationMinutes now _ =>
    cases hcomplete : IMail.complete db newId job result reconciliationMinutes now with
    | error e =>
      have hsame : (SyncOp.complete newId job result reconciliationMinutes now).apply db = db := by
        simp [SyncOp.apply, hcomplete]
      rw [hsame] at hstates
      rw [← hstates]
      exact hmore
    | ok db' =>
      have hcompletes : (HistoryOp.sync
          (.complete newId job result reconciliationMinutes now)).completes db =
          [(job.accountId, result.mailbox)] := by
        simp [HistoryOp.completes, hcomplete, Except.isOk, Except.toBool]
      rw [hcompletes]
      exact h.completed job result _ now

theorem apply_synced (op : HistoryOp) (h : SyncedIn mailboxes db.mailboxSyncStates) :
    SyncedIn (mailboxes ++ op.completes db) (op.apply db).mailboxSyncStates := by
  have hmore : SyncedIn (mailboxes ++ op.completes db) db.mailboxSyncStates :=
    fun s hs hsynced => List.mem_append_left _ (h s hs hsynced)
  cases op with
  | sync op =>
    by_cases hop : op.single = true
    · exact apply_synced_single op hop h
    · cases op with
      | enqueueDueSyncs ids reason now =>
        apply scan_preserves (fun d => SyncedIn _ d.mailboxSyncStates) db ids reason now _ hmore
        intro d o ho hd
        have hone := apply_synced_single o (single_of_scanPart ho) hd
        have hnone : (HistoryOp.sync o).completes d = [] := by
          cases o <;> first | rfl | cases ho
        rwa [hnone, List.append_nil] at hone
      | _ => exact absurd rfl hop
  | saveMailRule newId owner id input now =>
    apply committed_of (P := fun d : Db => SyncedIn _ d.mailboxSyncStates) hmore
    intro db' h
    obtain ⟨saved, h⟩ := map_snd_ok h
    cases saved with
    | none =>
      rw [saveMailRule_none h]
      exact hmore
    | some rule =>
      rw [(saveMailRule_ok h).1]
      exact hmore
  | deleteMailRule owner id now => exact hmore
  | deleteMessage userId messageId => exact hmore

structure HistoryInv (w : HistoryWorld) : Prop where
  cached : CachedSeen w.db
  imported : ∀ a x, (a, x) ∈ w.imported → isRfcId x = true → w.db.Seen a ("rfc:" ++ x)
  synced : SyncedIn w.completed w.db.mailboxSyncStates
  created : w.created.map (·.key) = w.db.mailRuleRuns.map (·.key)
  unique : (w.db.mailRuleRuns.map (·.key)).Nodup

theorem step_historyInv (w : HistoryWorld) (op : HistoryOp) (h : HistoryInv w)
    (hkeeps : KeepsIdentity w.db op) : HistoryInv (w.step op) := by
  have hruns := (apply_history w.db op).runs
  have hseen : CachedSeen (op.apply w.db) ∧ SeenMore w.db (op.apply w.db) ∧
      ∀ a x, (a, x) ∈ op.imports w.db → isRfcId x = true →
        (op.apply w.db).Seen a ("rfc:" ++ x) := by
    rcases (apply_history w.db op).mail with
      ⟨hnone, hids, hmore⟩ | ⟨runIds, plan, completedAt, result, rfl, hcommit⟩
    · refine ⟨h.cached.mono hids hmore, hmore, ?_⟩
      intro a x hax
      rw [hnone] at hax
      cases hax
    · refine ⟨commit_cachedSeen h.cached hkeeps hcommit, (commitMailboxSync_seen hcommit).1, ?_⟩
      intro a x hax hx
      simp only [HistoryOp.imports, hcommit, Except.isOk, Except.toBool, if_true,
        List.mem_filterMap, Option.map_eq_some_iff, Prod.mk.injEq] at hax
      obtain ⟨m, hm, y, hmy, rfl, rfl⟩ := hax
      exact commit_records h.cached hkeeps hcommit m hm y (rfcId_eq_some.mpr ⟨hmy, hx⟩)
  obtain ⟨hcached, hmore, himports⟩ := hseen
  constructor
  · exact hcached
  · intro a x hax hx
    rcases List.mem_append.mp hax with hold | hnew
    · exact hmore _ _ (h.imported a x hold hx)
    · exact himports a x hnew hx
  · exact apply_synced op h.synced
  · change (w.created ++ op.creates w.db).map (·.key) = _
    rw [List.map_append, h.created]
    exact hruns.drop.2.symm
  · obtain ⟨_, _, _, _, _, hnodup⟩ := hruns
    exact hnodup h.unique

/-- What an automatic run is asked for when it is recorded: the commit of an inbox with a
completed sync, and a Message-ID that no commit has brought to the account and no row has. -/
def AutomaticRunsNew (w : HistoryWorld) (op : HistoryOp) : Prop :=
  ∀ run ∈ op.creates w.db, run.source = .automatic → ∀ x, run.identity = "rfc:" ++ x →
    ∃ runIds plan completedAt, op = .sync (.commitMailboxSync runIds plan completedAt) ∧
      run.accountId = plan.accountId ∧ plan.mailboxRole = "inbox" ∧
      (plan.accountId, plan.mailbox) ∈ w.completed ∧ (plan.accountId, x) ∉ w.imported ∧
      ∀ m ∈ w.db.messages, m.accountId = plan.accountId → m.messageId ≠ some x

theorem automaticRunsNew {w : HistoryWorld} (h : HistoryInv w) (op : HistoryOp) :
    AutomaticRunsNew w op := by
  intro run hrun hautomatic x hx
  have horigin := (apply_history w.db op).runs.drop.1 run hrun
  unfold HistoryOp.origin at horigin
  split at horigin
  · rename_i runIds plan completedAt
    obtain ⟨owner, rules, m, hm, haccount, hrole, hnew⟩ := horigin
    have hmx : rfcId m = some x :=
      rfcId_of_messageIdentity (hnew.new_run.identity_eq.symm.trans hx)
    have hrfc := (rfcId_eq_some.mp hmx).2
    have hunseen := hnew.unseen
    rw [messageIdentity_of_rfcId hmx] at hunseen
    refine ⟨runIds, plan, completedAt, rfl, hnew.new_run.accountId_eq.trans haccount,
      hrole.symm.trans hnew.inbox, ?_, ?_, ?_⟩
    · obtain ⟨s, hs, hsel⟩ := List.any_eq_true.mp hnew.synced_eq
      simp only [Bool.and_eq_true, beq_iff_eq] at hsel
      have hsynced := h.synced s hs hsel.2
      rwa [hsel.1.1, hsel.1.2] at hsynced
    · exact fun himported => hunseen (h.imported _ _ himported hrfc)
    · intro m' hm' hm'account hm'x
      have hseen := h.cached m' hm' x (rfcId_eq_some.mpr ⟨hm'x, hrfc⟩)
      rw [hm'account] at hseen
      exact hunseen hseen
  · rw [horigin] at hautomatic
    cases hautomatic
  · exact horigin.elim

/-- As long as commits keep the Message-IDs of local ids, a rule is run at most once on a
Message-ID, and automatically only when the Message-ID is new to an inbox that was synchronized
before. -/
theorem automatic_runs_once (db : Db) (hmessages : db.messages = [])
    (hruns : db.mailRuleRuns = []) (hstates : db.mailboxSyncStates = []) {ops : List HistoryOp}
    (hkeeps : Along HistoryWorld.step (fun w op => KeepsIdentity w.db op) { db } ops) :
    ((HistoryWorld.run { db } ops).created.map (·.key)).Nodup ∧
      Along HistoryWorld.step AutomaticRunsNew { db } ops := by
  have hstart : HistoryInv { db } := by
    constructor
    · intro m hm
      simp [hmessages] at hm
    · intro a x hax
      cases hax
    · intro s hs
      simp [hstates] at hs
    · simp [hruns]
    · simp [hruns]
  have hend := invariant_along HistoryInv (fun w op h hop => step_historyInv w op h hop) hstart hkeeps
  constructor
  · rw [hend.created]
    exact hend.unique
  · exact along_of_invariant HistoryInv (fun w op h hop => step_historyInv w op h hop)
      (fun w op h _ => automaticRunsNew h op) hstart hkeeps

end

def labellingDb : Db where
  accounts := [{ id := "a", userId := "u", email := "a@example.org", createdAt := 0 }]
  mailRules := [labelRule]

def inboxCommit (reset : Bool) (message : Message) : HistoryOp :=
  .sync (.commitMailboxSync (fun _ _ identity => identity)
    { accountId := "a"
      mailbox := "INBOX"
      mailboxRole := "inbox"
      incoming := [message]
      uidValidityChanged := reset } 0)

def firstSync : List HistoryOp :=
  [inboxCommit false (inboxMail "a:1" 1 "y"), .sync (.enqueue "j" (ruleEnqueue "a" 0) 0),
    .sync (.claimNext "P" 10 0),
    .sync (.complete "k" { ruleJob "j" "a" 0 with lockedBy := some "P" } { mailbox := "INBOX" } 5 1)]

def importedAgain : List HistoryOp :=
  firstSync ++ [inboxCommit false (inboxMail "a:2" 2 "x"), .deleteMessage "u" "a:2",
    inboxCommit false (inboxMail "a:3" 3 "x")]

/-- Its rule is run when it arrives, and not again. -/
theorem automatic_runs_once_imported_again :
    let _ := Platform.plain
    (HistoryWorld.run { db := labellingDb } importedAgain).created.map
        (fun run => (run.source, run.identity)) = [(.automatic, "rfc:x")] ∧
    ((HistoryWorld.run { db := labellingDb } importedAgain).created.map (·.key)).Nodup ∧
    Along HistoryWorld.step AutomaticRunsNew { db := labellingDb } importedAgain := by
  intro _
  have hkeeps : Along HistoryWorld.step (fun w op => KeepsIdentity w.db op) { db := labellingDb }
      importedAgain := by
    refine ⟨?_, trivial, trivial, trivial, ?_, trivial, ?_, trivial⟩
    · intro m _ row hrow
      cases hrow
    · have hids : ∀ row ∈ (HistoryWorld.run { db := labellingDb } firstSync).db.messages,
          row.id ≠ "a:2" := by decide +kernel
      intro m hm row hrow hid
      rw [List.mem_singleton.mp hm] at hid
      exact absurd hid (hids row hrow)
    · have hids : ∀ row ∈ (HistoryWorld.run { db := labellingDb } (firstSync ++
          [inboxCommit false (inboxMail "a:2" 2 "x"), .deleteMessage "u" "a:2"])).db.messages,
          row.id ≠ "a:3" := by decide +kernel
      intro m hm row hrow hid
      rw [List.mem_singleton.mp hm] at hid
      exact absurd hid (hids row hrow)
  exact ⟨by decide +kernel, automatic_runs_once labellingDb rfl rfl rfl hkeeps⟩

def renumbered : List HistoryOp :=
  firstSync ++ [inboxCommit true (inboxMail "a:1" 1 "x"), .deleteMessage "u" "a:1"]

/-- The message is imported as that of the old row, and a rule is run when it is imported
again. -/
theorem automatic_run_on_reimport :
    let _ := Platform.plain
    ("a", "x") ∈ (HistoryWorld.run { db := labellingDb } renumbered).imported ∧
    ((inboxCommit false (inboxMail "a:2" 2 "x")).creates
        (HistoryWorld.run { db := labellingDb } renumbered).db).map
        (fun run => (run.source, run.identity)) = [(.automatic, "rfc:x")] ∧
    ¬ AutomaticRunsNew (HistoryWorld.run { db := labellingDb } renumbered)
      (inboxCommit false (inboxMail "a:2" 2 "x")) := by
  intro _
  have himported : ("a", "x") ∈ (HistoryWorld.run { db := labellingDb } renumbered).imported := by
    decide +kernel
  have hcreates : ((inboxCommit false (inboxMail "a:2" 2 "x")).creates
      (HistoryWorld.run { db := labellingDb } renumbered).db).map
        (fun run => (run.source, run.identity)) = [(.automatic, "rfc:x")] := by decide +kernel
  generalize HistoryWorld.run { db := labellingDb } renumbered = w at *
  refine ⟨himported, hcreates, ?_⟩
  intro hnew
  obtain ⟨run, hrun, hcols⟩ := List.mem_map.mp (hcreates ▸ List.mem_cons_self)
  simp only [Prod.mk.injEq] at hcols
  obtain ⟨runIds, plan, completedAt, hop, _, _, _, hfresh, _⟩ := hnew run hrun hcols.1 "x" hcols.2
  cases hop
  exact hfresh himported

end IMail
