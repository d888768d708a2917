import IMail.Mail.Fetch
import IMail.Mail.RemoteAddress
import IMail.Store.CommitTables
import IMail.Sync.JobExecution

/-!
# Rounds of incremental sync

Histories of one account: completed rounds, each of which reads the cursor and the cached messages
of its target, fetches from the server, commits the plan and completes its job. Between rounds
users move messages, and the server goes on by itself, also while a round runs.
-/

namespace IMail

open Relational Transition Imap

/-- The server at each command of a session, if it is in the states `during` from the second
command on. -/
def moments (server : MailServer) (during : List MailServer) (i : ℕ) : MailServer :=
  (during.take i).getLastD server

variable {server : MailServer} {during : List MailServer}

variable {i : ℕ} {R : MailServer → MailServer → Prop}

theorem moments_of_length_le (h : during.length ≤ i) :
    moments server during i = during.getLastD server := by
  rw [moments, List.take_of_length_le h]

theorem forall_lt_iff {P : ℕ → Prop} {n : ℕ} (hlate : ∀ i, n ≤ i → P i) :
    (∀ i < n, P i) ↔ ∀ i, P i :=
  ⟨fun h i => (lt_or_ge i n).elim (h i) (hlate i), fun h i _ => h i⟩

section

variable (hrefl : ∀ a, R a a) (htrans : ∀ a b c, R a b → R b c → R a c)
  (h : ∀ i, R (moments server during i) (moments server during (i + 1)))
include hrefl htrans h

/-- What holds from each command to the next, and can be chained, holds from each to the later
ones and to the end. -/
theorem moments_chain {j : ℕ} (hij : i ≤ j) :
    R (moments server during i) (moments server during j) := by
  induction j, hij using Nat.le_induction with
  | base => exact hrefl _
  | succ j _ ih => exact htrans _ _ _ ih (h j)

theorem moments_chain_end (i : ℕ) : R (moments server during i) (during.getLastD server) := by
  rw [← moments_of_length_le (le_max_left during.length i)]
  exact moments_chain hrefl htrans h (le_max_right _ _)

end

def MailboxSyncState.cursor (state : MailboxSyncState) : SyncCursor where
  uidValidity := state.uidValidity
  lastSeenUid := state.lastSeenUid
  highestModseq := state.highestModseq

def cursorFor (db : Db) (job : SyncJob) : SyncCursor :=
  ((mailboxStateForTarget db job.accountId job.mailbox job.mailboxRole).map
    MailboxSyncState.cursor).getD {}

def SyncJob.syncTarget (job : SyncJob) : SyncTarget := ⟨job.mailboxRole, job.mailbox⟩

def requestFor (db : Db) (job : SyncJob) : Option RemoteSyncRequest :=
  (db.account job.accountId).bind fun account =>
    (cachedUids ((listMessages db account.userId).filter
      (cachedForTarget job.accountId job.syncTarget))).toOption.map fun uids =>
        ⟨job.syncTarget, cursorFor db job, uids⟩

variable {db : Db} {job : SyncJob} {request : RemoteSyncRequest}

theorem requestFor_some (h : requestFor db job = some request) :
    ∃ account, db.account job.accountId = some account ∧ request.target = job.syncTarget ∧
      request.cursor = cursorFor db job ∧
      cachedUids ((listMessages db account.userId).filter
        (cachedForTarget job.accountId job.syncTarget)) = .ok request.cachedUids := by
  obtain ⟨account, haccount, hrest⟩ := Option.bind_eq_some_iff.mp h
  obtain ⟨uids, huids, rfl⟩ := Option.map_eq_some_iff.mp hrest
  refine ⟨account, haccount, rfl, rfl, ?_⟩
  revert huids
  cases cachedUids ((listMessages db account.userId).filter
      (cachedForTarget job.accountId job.syncTarget)) with
  | error e => simp [Except.toOption]
  | ok found => simp [Except.toOption]

theorem exists_cached_row (h : requestFor db job = some request) {uid : ℕ}
    (huid : uid ∈ request.cachedUids) :
    ∃ r ∈ db.messages, cachedForTarget job.accountId job.syncTarget r = true ∧ r.uid = uid := by
  obtain ⟨account, haccount, _, _, huids⟩ := requestFor_some h
  obtain ⟨r, hr, heq⟩ := exists_left_of_mem (cachedUids_ok huids) huid
  obtain ⟨hlisted, htarget⟩ := List.mem_filter.mp hr
  have hmem := (List.mem_insertionSort _).mp hlisted
  exact ⟨r, List.mem_of_mem_filter hmem, htarget, heq⟩

theorem cursorFor_cases (db : Db) (job : SyncJob) :
    cursorFor db job = {} ∨ ∃ t ∈ db.mailboxSyncStates,
      mailboxStateForTarget db job.accountId job.mailbox job.mailboxRole = some t ∧
      forTarget job.accountId job.mailbox job.mailboxRole t = true ∧
      cursorFor db job = t.cursor := by
  unfold cursorFor
  cases hstate : mailboxStateForTarget db job.accountId job.mailbox job.mailboxRole with
  | none => exact Or.inl rfl
  | some t =>
    obtain ⟨hmem, htarget⟩ := List.mem_filter.mp (firstBy_mem hstate)
    exact Or.inr ⟨t, hmem, rfl, htarget, rfl⟩

/-- What is remembered of a completed round: the mailbox, the UID from which it went on, the UIDs
of the mailbox when it was selected, those that it fetched, returned and left out, and those of
mail that was labelled for elsewhere when it fetched. -/
structure CompletedRound where
  mailbox : String
  start : ℕ
  lastSeenUid : ℤ
  present : List ℕ
  examined : List ℕ
  returned : List ℕ
  filtered : List ℕ
  labelled : List ℕ
  deriving DecidableEq, Repr

/-- What the calls of a round are given besides the job. -/
structure RoundArgs where
  runIds : RunIds
  newId : String
  reconciliationMinutes : ℤ
  fallbackDate : String
  changes : List MailboxMessageChange
  now : Time

/-- The mailbox has a message with the UID that is labelled for elsewhere. -/
def labelledIn (box : UidMailbox ServerMessage) (uid : ℕ) : Bool :=
  (box.fetch uid).any ServerMessage.elsewhereLabelled

/-- The messages that `collect_incoming` leaves out. -/
def Selection.filtered (s : Selection) (box : UidMailbox ServerMessage) : List ℕ :=
  (s.range box).filter fun uid => s.allMailArchive && labelledIn box uid

def Selection.completed (s : Selection) (moment : ℕ → MailServer) (request : RemoteSyncRequest) :
    CompletedRound where
  mailbox := s.folder.path
  start := s.incrementalUid
  lastSeenUid := (s.batch moment request).lastSeenUid
  present := ((moment 1).box s.folder.path).uids
  examined := s.range ((moment 2).box s.folder.path)
  returned := (s.batch moment request).incoming.map (·.uid)
  filtered := s.filtered ((moment 2).box s.folder.path)
  labelled := ((moment 1).box s.folder.path).uids.filter
    (labelledIn ((moment 2).box s.folder.path))

/-- The account of a history, the store, the servers and the rounds so far. -/
structure RoundWorld where
  accountId : String
  db : Db
  servers : MailServers
  rounds : List CompletedRound := []

/-- `other` stands for what else writes the store and leaves the flags of the account's messages
alone: user requests, the queue, the scheduler, other accounts. -/
inductive RoundOp
  | round (job : SyncJob) (args : RoundArgs) (during : List MailServer)
  | move (env : ImapEnvironment) (owner messageId : String)
      (destination : MessageMoveDestination) (skip : ℕ) (cut : Cut)
  | server (endpoint : Endpoint) (server : MailServer)
  | other (db : Db) (ids : UniqueBy (fun m => some m.id) db.messages)

def Message.place (m : Message) : String × String × String × ℤ × Bool × Bool :=
  (m.accountId, m.mailbox, m.mailboxRole, m.uid, m.unread, m.flagged)

def MailboxSyncState.entry (state : MailboxSyncState) : String × String × String × SyncCursor :=
  (state.accountId, state.mailbox, state.mailboxRole, state.cursor)

/-- The store gets no cached message and no cursor of the account, but may lose some. -/
def Db.forgets (db db' : Db) (accountId : String) : Prop :=
  (∀ r ∈ db'.messages, r.accountId = accountId → r.place ∈ db.messages.map Message.place) ∧
    (∀ s ∈ db'.mailboxSyncStates, s.accountId = accountId →
      s.cursor = {} ∨ s.entry ∈ db.mailboxSyncStates.map MailboxSyncState.entry) ∧
    db'.endpointOf accountId = db.endpointOf accountId

instance (db db' : Db) (accountId : String) : Decidable (db.forgets db' accountId) :=
  inferInstanceAs (Decidable (_ ∧ _ ∧ _))

section

variable [Platform] [MailParser]

def runRound (moment : ℕ → MailServer) (db : Db) (email : String) (job : SyncJob)
    (args : RoundArgs) : Option Db :=
  match executeSync (fetchIncremental moment) db args.runIds email job.accountId job.syncTarget
      (cursorFor db job) args.fallbackDate args.now with
  | .error _ => none
  | .ok (plan, commit, db) =>
    (complete db args.newId job ((syncedBatch plan true commit).completion args.changes)
      args.reconciliationMinutes args.now).toOption

omit [MailParser] in
def completedRound (moment : ℕ → MailServer) (db : Db) (job : SyncJob) : Option CompletedRound :=
  (requestFor db job).bind fun request =>
    (selectMailbox moment request).toOption.map fun s => s.completed moment request

/-- A round that is not completed is no part of the history. -/
def RoundWorld.step (w : RoundWorld) : RoundOp → RoundWorld
  | .round job args during =>
    match w.db.endpointOf w.accountId with
    | none => w
    | some endpoint =>
      if job.accountId ≠ w.accountId then w
      else
        let moment := moments (w.servers endpoint) during
        match runRound moment w.db endpoint.email job args with
        | none => w
        | some db =>
          { w with
            db
            servers := Function.update w.servers endpoint (during.getLastD (w.servers endpoint))
            rounds := w.rounds ++ (completedRound moment w.db job).toList }
  | .move env owner messageId destination skip cut =>
    let (_, servers, db) := moveFor env w.db w.servers owner messageId destination skip cut
    { w with db, servers }
  | .server endpoint server => { w with servers := Function.update w.servers endpoint server }
  | .other db _ => if w.db.forgets db w.accountId then { w with db } else w

omit [Platform] [MailParser] in
theorem Selection.returned_or_filtered (s : Selection) (moment : ℕ → MailServer)
    (request : RemoteSyncRequest) {uid : ℕ} (h : uid ∈ (s.completed moment request).examined) :
    uid ∈ (s.completed moment request).returned ∨ uid ∈ (s.completed moment request).filtered := by
  obtain ⟨m, hm⟩ := UidMailbox.exists_fetch (uids_of_range h)
  cases hlabels : s.allMailArchive && m.elsewhereLabelled with
  | false =>
    left
    exact List.mem_map.mpr ⟨⟨uid, m.source, m.internalDate, !m.seen, m.flagged⟩,
      mem_batch_incoming.mpr ⟨m, h, hm, hlabels, rfl⟩, rfl⟩
  | true =>
    right
    apply List.mem_filter.mpr
    rw [labelledIn, hm]
    exact ⟨h, hlabels⟩

/-- A round of the account with the server as `moment` tells: what it asked for, the mailbox that
was selected, the plan it committed and what the store has afterwards. -/
structure RoundEffect (w w' : RoundWorld) (moment : ℕ → MailServer) (job : SyncJob)
    (request : RemoteSyncRequest) (s : Selection) (plan : MailboxSyncPlan) : Prop where
  account : job.accountId = w.accountId
  asked : requestFor w.db job = some request
  selected : selectMailbox moment request = .ok s
  matching : targetMismatch job.syncTarget (s.batch moment request) = false
  planned : ∃ cached incoming sources,
    plan = planOf w.accountId cached (s.batch moment request) incoming sources
  rows : ∀ r ∈ w'.db.messages, ∃ o, r = flagRow plan o ∧
    ((∃ f ∈ (s.batch moment request).incoming, o.mailbox = s.folder.path ∧
        o.mailboxRole = s.role ∧ o.uid = f.uid ∧ o.unread = f.unread ∧ o.flagged = f.flagged) ∨
      (o ∈ w.db.messages ∧ stale plan o = false))
  states : ∀ t ∈ w'.db.mailboxSyncStates,
    (t.mailbox = s.folder.path ∧ t.mailboxRole = job.mailboxRole ∧
      t.cursor = ⟨s.uidValidity, (s.batch moment request).lastSeenUid, s.highestModseq⟩) ∨
    (t ∈ w.db.mailboxSyncStates ∧ (t.accountId = w.accountId → t.mailbox ≠ s.folder.path))
  rounds : w'.rounds = w.rounds ++ [s.completed moment request]

variable {w w' : RoundWorld} {moment : ℕ → MailServer} {job : SyncJob} {request : RemoteSyncRequest}
  {s : Selection} {plan : MailboxSyncPlan}

omit [MailParser] in
theorem RoundEffect.target (h : RoundEffect w w' moment job request s plan) :
    job.mailbox = some s.folder.path ∨ job.mailbox = none ∧ job.mailboxRole = s.role := by
  have hmatch := h.matching
  unfold targetMismatch SyncJob.syncTarget at hmatch
  cases hmailbox : job.mailbox with
  | none =>
    simp only [hmailbox, bne_eq_false_iff_eq] at hmatch
    exact Or.inr ⟨rfl, hmatch.symm⟩
  | some mailbox =>
    simp only [hmailbox, bne_eq_false_iff_eq] at hmatch
    exact Or.inl (congrArg some hmatch)

variable {r : Message} {t : MailboxSyncState} {now : Time}

omit [MailParser] in
theorem RoundEffect.cached_own (h : RoundEffect w w' moment job request s plan)
    (hr : cachedForTarget job.accountId job.syncTarget r = true) :
    r.accountId = w.accountId ∧ (r.mailbox = s.folder.path ∨ r.mailboxRole = s.role) := by
  simp only [cachedForTarget, SyncJob.syncTarget, Bool.and_eq_true, beq_iff_eq] at hr
  constructor
  · exact hr.1.trans h.account
  · rcases h.target with hmailbox | ⟨hnone, hrole⟩
    · simp only [hmailbox, beq_iff_eq] at hr
      exact Or.inl hr.2
    · simp only [hnone, beq_iff_eq] at hr
      exact Or.inr (hr.2.trans hrole)

omit [MailParser] in
theorem RoundEffect.state_own (h : RoundEffect w w' moment job request s plan)
    (ht : forTarget job.accountId job.mailbox job.mailboxRole t = true) :
    t.accountId = w.accountId ∧ (t.mailbox = s.folder.path ∨ t.mailboxRole = s.role) := by
  simp only [forTarget, Bool.and_eq_true, beq_iff_eq] at ht
  constructor
  · exact ht.1.trans h.account
  · rcases h.target with hmailbox | ⟨hnone, hrole⟩
    · simp only [hmailbox, beq_iff_eq] at ht
      exact Or.inl ht.2
    · simp only [hnone, beq_iff_eq] at ht
      exact Or.inr (ht.2.trans hrole)

omit [Platform] [MailParser] in
theorem request_of_plan {account : Account} {uids : List ℕ}
    (haccount : db.account job.accountId = some account)
    (huids : cachedUids ((listMessages db account.userId).filter
      (cachedForTarget job.accountId job.syncTarget)) = .ok uids) :
    requestFor db job = some ⟨job.syncTarget, cursorFor db job, uids⟩ := by
  simp [requestFor, haccount, huids, Except.toOption]

omit [Platform] [MailParser] in
theorem mem_completedStates {result : SyncCompletion} {next : Time} {states : List MailboxSyncState}
    (h : t ∈ completedStates job result next now states) :
    (t.mailbox = result.mailbox ∧ t.mailboxRole = job.mailboxRole ∧
      t.cursor = ⟨result.uidValidity, result.lastSeenUid, result.highestModseq⟩) ∨
    (t ∈ states ∧ (t.accountId = job.accountId → t.mailbox ≠ result.mailbox)) := by
  rcases mem_upsertStates (mem_deleteWhere.mp h).1 with
    ⟨rfl, _⟩ | ⟨old, _, hsame, rfl⟩ | ⟨hkept, hother⟩
  · exact Or.inl ⟨rfl, rfl, rfl⟩
  · simp only [sameMailbox, Bool.and_eq_true, beq_iff_eq] at hsame
    exact Or.inl ⟨hsame.2, rfl, rfl⟩
  · refine Or.inr ⟨hkept, fun haccount hmailbox => ?_⟩
    simp [sameMailbox, completedRow, haccount, hmailbox] at hother

theorem mem_of_commit {db' : Db} {runIds : RunIds} {result : MailboxSyncCommitResult}
    {accountId fallbackDate : String} {cached : List Message} {batch : RemoteSyncBatch}
    {incoming : List Message} {sources : List (String × List UInt8)}
    (hcommit : commitMailboxSync db runIds plan now = .ok (result, db'))
    (hplan : plan = planOf accountId cached batch incoming sources)
    (hcache : cacheIncoming accountId batch fallbackDate batch.incoming [] = .ok (incoming, sources))
    (hr : r ∈ db'.messages) :
    ∃ o, r = flagRow plan o ∧
      ((∃ f ∈ batch.incoming, o.mailbox = batch.mailbox ∧ o.mailboxRole = batch.mailboxRole ∧
          o.uid = f.uid ∧ o.unread = f.unread ∧ o.flagged = f.flagged) ∨
        (o ∈ db.messages ∧ stale plan o = false)) := by
  obtain ⟨_, _, _, _, _, hforall, hwrite, hmessages, _⟩ := commit_stages hcommit
  obtain ⟨o, rfl, hfrom⟩ := mem_of_writePlan hwrite hr
  refine ⟨o, rfl, ?_⟩
  rcases hfrom with ⟨n, hn, hrow⟩ | ⟨hold, hstale, _⟩
  · left
    obtain ⟨m, hm, hprep⟩ := exists_left_of_mem hforall hn
    have hm : m ∈ incoming := by rw [hplan] at hm; exact hm
    obtain ⟨f, hf, hone⟩ := exists_left_of_mem (cacheIncoming_ok hcache) hm
    obtain ⟨_, _, hmailbox, hrole, huid, _⟩ := cacheMessage_ok hone
    obtain ⟨hunread, hflagged⟩ := cacheMessage_flags hone
    obtain ⟨_, _, _, _, _, rfl⟩ := hprep
    rw [hrow]
    exact ⟨f, hf, hmailbox, hrole, huid, hunread, hflagged⟩
  · exact Or.inr ⟨hmessages ▸ hold, hstale⟩

theorem runRound_some {email : String} {args : RoundArgs} (haccount : job.accountId = w.accountId)
    (hrun : runRound moment w.db email job args = some w'.db)
    (hrounds : w'.rounds = w.rounds ++ (completedRound moment w.db job).toList) :
    (∃ request s plan, RoundEffect w w' moment job request s plan) ∧ SameEndpoints w.db w'.db ∧
      (UniqueBy (fun m => some m.id) w.db.messages →
        UniqueBy (fun m => some m.id) w'.db.messages) := by
  unfold runRound at hrun
  split at hrun
  · cases hrun
  rename_i plan commit db₁ hexec
  obtain ⟨account, hfound, hplan, hcommit⟩ := executeSync_ok hexec
  obtain ⟨uids, batch, incoming, sources, huids, hfetch, hmatch, _, hcache, hplanned⟩ :=
    planMailboxSync_ok hplan
  have hasked := request_of_plan hfound huids
  cases hselect : selectMailbox moment ⟨job.syncTarget, cursorFor w.db job, uids⟩ with
  | error failure => simp [fetchIncremental, hselect, Except.map] at hfetch
  | ok s =>
    have hbatch : s.batch moment ⟨job.syncTarget, cursorFor w.db job, uids⟩ = batch := by
      simpa [fetchIncremental, hselect, Except.map] using hfetch
    subst hbatch
    cases hcomplete : complete db₁ args.newId job ((syncedBatch plan true commit).completion
        args.changes) args.reconciliationMinutes args.now with
    | error e => simp [hcomplete, Except.toOption] at hrun
    | ok db₂ =>
      have hdb₂ : db₂ = w'.db := by simpa [hcomplete, Except.toOption] using hrun
      subst hdb₂
      obtain ⟨_, _, _, _, _, _, _, events, sequence, authRequired, hframe⟩ := complete_ok hcomplete
      have hmessages : w'.db.messages = db₁.messages := by rw [hframe]
      have hstates : w'.db.mailboxSyncStates = completedStates job
          ((syncedBatch plan true commit).completion args.changes)
          (args.now + minutes args.reconciliationMinutes) args.now db₁.mailboxSyncStates := by
        rw [hframe]
      have hold : db₁.mailboxSyncStates = w.db.mailboxSyncStates := by
        obtain ⟨_, _, _, _, _, rfl⟩ := commitMailboxSync_frame hcommit
        rfl
      refine ⟨?_, ?_, ?_⟩
      · refine ⟨_, s, plan, haccount, hasked, hselect, hmatch, ?_, ?_, ?_, ?_⟩
        · rw [← haccount]
          exact ⟨_, incoming, sources, hplanned⟩
        · intro r hr
          rw [hmessages] at hr
          exact mem_of_commit hcommit hplanned hcache hr
        · intro t ht
          rw [hstates, hold] at ht
          rcases mem_completedStates ht with hown | ⟨hkept, hother⟩
          · left
            rw [hplanned] at hown
            exact hown
          · right
            refine ⟨hkept, fun hsame => ?_⟩
            rw [hplanned] at hother
            exact hother (hsame.trans haccount.symm)
        · rw [hrounds]
          simp [completedRound, hasked, hselect, Except.toOption]
      · have hcommitted := sameEndpoints_commit hcommit
        have haccounts : w'.db.accounts = updateWhere (fun a => a.id == job.accountId)
            (completedAccount authRequired) db₁.accounts := by rw [hframe]
        have hcompleted : SameEndpoints db₁ w'.db :=
          sameEndpoints_of_accounts haccounts (fun _ => rfl) fun _ => rfl
        exact hcommitted.trans hcompleted
      · intro hids
        rw [hmessages]
        exact commitMailboxSync_ids hids hcommit

namespace RoundWorld

variable {w : RoundWorld}

theorem step_round (w : RoundWorld) (job : SyncJob) (args : RoundArgs) (during : List MailServer) :
    w.step (.round job args during) = w ∨ ∃ endpoint, w.db.endpointOf w.accountId = some endpoint ∧
      (w.step (.round job args during)).servers =
        Function.update w.servers endpoint (during.getLastD (w.servers endpoint)) ∧
      (∃ request s plan, RoundEffect w (w.step (.round job args during))
        (moments (w.servers endpoint) during) job request s plan) ∧
      SameEndpoints w.db (w.step (.round job args during)).db ∧
      (UniqueBy (fun m => some m.id) w.db.messages →
        UniqueBy (fun m => some m.id) (w.step (.round job args during)).db.messages) := by
  cases hendpoint : w.db.endpointOf w.accountId with
  | none =>
    left
    simp [step, hendpoint]
  | some endpoint =>
    by_cases haccount : job.accountId = w.accountId
    · cases hrun : runRound (moments (w.servers endpoint) during) w.db endpoint.email job args with
      | none =>
        left
        simp [step, hendpoint, hrun]
      | some db =>
        right
        have hstep : w.step (.round job args during) =
            { w with
              db
              servers := Function.update w.servers endpoint (during.getLastD (w.servers endpoint))
              rounds := w.rounds ++
                (completedRound (moments (w.servers endpoint) during) w.db job).toList } := by
          simp [step, hendpoint, hrun, haccount]
        refine ⟨endpoint, rfl, ?_, ?_⟩
        · rw [hstep]
        · rw [hstep]
          exact runRound_some haccount hrun rfl
    · left
      simp [step, hendpoint, haccount]

theorem step_move (w : RoundWorld) (hids : UniqueBy (fun m => some m.id) w.db.messages)
    (env : ImapEnvironment) (owner messageId : String) (destination : MessageMoveDestination)
    (skip : ℕ) (cut : Cut) {r : Message}
    (hr : r ∈ (w.step (.move env owner messageId destination skip cut)).db.messages) :
    r ∈ w.db.messages ∨ ∃ m remote target, w.db.ownedMessage owner messageId = some m ∧
      remoteMessage env w.db owner messageId = .ok remote ∧
      moveTarget destination (w.servers remote.1.endpoint).listMailboxes = .ok target ∧
      r.accountId = m.accountId ∧ r.mailbox = target.path ∧ r.mailboxRole = destination.role ∧
      r.uid = m.uid := by
  rcases moveFor_db env w.db w.servers owner messageId destination skip cut with
    hsame | ⟨m, moved, hm, hmoved, hup⟩
  · left
    simp only [step] at hr
    rwa [hsame] at hr
  · obtain ⟨config, found, target, hremote, htarget, _, hmoved, _⟩ := moveRemote_ok _ _ _ _ _ hmoved
    obtain ⟨hmem, _⟩ := ownedMessage_some hm
    rcases (upsertSyncMessage_ok hup).2 with ⟨_, hrows⟩ | ⟨hmissing, _⟩
    · simp only [step, hrows] at hr
      rcases mem_updateWhere.mp hr with ⟨old, hold, hsel, rfl⟩ | ⟨hkept, _⟩
      · right
        have hsame : old = m := hids.eq_of_mem hold hmem rfl
          (congrArg some (beq_iff_eq.mp hsel).symm)
        refine ⟨m, (config, found), target, hm, hremote, htarget, ?_⟩
        rw [hsame, hmoved]
        exact ⟨rfl, rfl, rfl, rfl⟩
      · exact Or.inl hkept
    · exact absurd rfl (hmissing m hmem)

theorem step_move_frame (w : RoundWorld) (env : ImapEnvironment) (owner messageId : String)
    (destination : MessageMoveDestination) (skip : ℕ) (cut : Cut) :
    ∃ messages sources, (w.step (.move env owner messageId destination skip cut)).db =
      { w.db with messages := messages, messageSources := sources } := by
  rcases moveFor_db env w.db w.servers owner messageId destination skip cut with
    hsame | ⟨m, moved, _, _, hup⟩
  · exact ⟨w.db.messages, w.db.messageSources, hsame⟩
  · exact messagesOnly_upsertSyncMessage hup

@[simp] theorem step_accountId (w : RoundWorld) (op : RoundOp) :
    (w.step op).accountId = w.accountId := by
  cases op with
  | round job args during =>
    simp only [step]
    split
    · rfl
    · split_ifs
      · rfl
      · split <;> rfl
  | move env owner messageId destination skip cut => rfl
  | server endpoint server => rfl
  | other db ids =>
    simp only [step]
    split_ifs <;> rfl

theorem step_endpoint (w : RoundWorld) (op : RoundOp) :
    (w.step op).db.endpointOf w.accountId = w.db.endpointOf w.accountId := by
  cases op with
  | round job args during =>
    rcases step_round w job args during with hsame | ⟨_, _, _, _, hends, _⟩
    · rw [hsame]
    · exact hends.endpoints w.accountId
  | move env owner messageId destination skip cut =>
    obtain ⟨messages, sources, hdb⟩ := step_move_frame w env owner messageId destination skip cut
    rw [hdb]
    rfl
  | server endpoint server => rfl
  | other db ids =>
    simp only [step]
    split_ifs with hforgets
    · exact hforgets.2.2
    · rfl

theorem step_ids (hids : UniqueBy (fun m => some m.id) w.db.messages) (op : RoundOp) :
    UniqueBy (fun m => some m.id) (w.step op).db.messages := by
  cases op with
  | round job args during =>
    rcases step_round w job args during with hsame | ⟨_, _, _, _, _, hkept⟩
    · rw [hsame]
      exact hids
    · exact hkept hids
  | move env owner messageId destination skip cut =>
    rcases moveFor_db env w.db w.servers owner messageId destination skip cut with
    hsame | ⟨m, moved, _, _, hup⟩
    · simp only [step, hsame]
      exact hids
    · exact (upsertSyncMessage_ids hids hup).1
  | server endpoint server => exact hids
  | other db ids =>
    simp only [step]
    split_ifs
    · exact ids
    · exact hids

theorem exec_ids (hids : UniqueBy (fun m => some m.id) w.db.messages) (ops : List RoundOp) :
    UniqueBy (fun m => some m.id) (exec RoundWorld.step w ops).db.messages :=
  invariant_exec (fun w : RoundWorld => UniqueBy (fun m => some m.id) w.db.messages)
    (fun _ op h => step_ids h op) ops hids

end RoundWorld

end

end IMail
