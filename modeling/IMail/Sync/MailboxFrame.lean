import IMail.Mail.RemoteCommands
import IMail.Transition.Run

/-!
# What a commit does to the other mailboxes

The cache under syncs and user moves. A commit writes the rows of its own mailbox, drops the
copies of its messages in the mailboxes of its role, and evicts the oldest rows of the account.
The rows of the other mailboxes stay as they are if none of them has the id of an incoming
message; a row that the user has moved keeps the id of the place it came from.
-/

namespace IMail

open Relational Transition

/-- A sync of an account, for what the server answers, or a move of a message. -/
inductive CacheOp
  | sync (runIds : RunIds) (email accountId : String) (target : SyncTarget) (cursor : SyncCursor)
      (batch : RemoteSyncBatch) (fallbackDate : String) (completedAt : Time)
  | move (env : ImapEnvironment) (servers : MailServers) (owner messageId : String)
      (destination : MessageMoveDestination) (skip : ℕ) (cut : Cut)

/-- The strings whose digests a sync uses as ids. -/
def CacheOp.identities : CacheOp → Set String
  | .sync _ _ accountId _ _ batch _ _ => {s | ∃ fetched ∈ batch.incoming,
      s = identityString accountId batch.mailbox batch.mailboxRole fetched.uid}
  | .move .. => ∅

def elsewhere (plan : MailboxSyncPlan) (r : Message) : Bool :=
  !(r.accountId == plan.accountId && r.mailbox == plan.mailbox)

theorem elsewhere_iff {plan : MailboxSyncPlan} {r : Message} : elsewhere plan r = true ↔
    (r.accountId == plan.accountId && r.mailbox == plan.mailbox) = false := by
  simp only [elsewhere, Bool.not_eq_true']

/-- A row of the plan's role with the Message-ID of an incoming message. -/
def sameRoleCopy (plan : MailboxSyncPlan) (r : Message) : Bool :=
  r.accountId == plan.accountId && r.mailboxRole == plan.mailboxRole &&
    plan.incoming.any fun n => n.messageId.isSome && r.messageId == n.messageId

section

variable [Platform]

/-- The rows of `messages` when a commit comes to the eviction. -/
def rowsBeforeEviction (db : Db) (runIds : RunIds) (plan : MailboxSyncPlan) (completedAt : Time) :
    Except SyncRuntimeError (List Message) :=
  match db.account plan.accountId with
  | none => .error (.invalidInput "account_id")
  | some account => do
    let (incoming, _, db) ← prepareAll runIds account.userId (loadRules db account.userId)
      (previouslySynced db plan.accountId plan.mailbox) plan completedAt plan.incoming db
    let stored ← (db.removeStale plan).storeAll plan incoming
    return (stored.applyFlags plan).messages

def Evicted (db : Db) (runIds : RunIds) (plan : MailboxSyncPlan) (completedAt : Time)
    (r : Message) : Prop :=
  ∃ rows, rowsBeforeEviction db runIds plan completedAt = .ok rows ∧ r ∈ rows ∧
    outdated rows plan.accountId r = true

/-- The commit from `db` to `db'` touches no other mailbox than the plan's. -/
structure OwnMailboxOnly (db : Db) (runIds : RunIds) (plan : MailboxSyncPlan)
    (completedAt : Time) (db' : Db) : Prop where
  kept : ∀ r ∈ db.messages, elsewhere plan r = true → sameRoleCopy plan r = true ∨
    r ∈ db'.messages ∨ Evicted db runIds plan completedAt r
  added : ∀ r ∈ db'.messages, elsewhere plan r = true → r ∈ db.messages

/-- No incoming message has the id of a row elsewhere, except of a copy of its role. -/
def IdsApart (messages : List Message) (plan : MailboxSyncPlan) : Prop :=
  ∀ n ∈ plan.incoming, ∀ r ∈ messages, r.id = n.id → elsewhere plan r = true →
    sameRoleCopy plan r = true

def CacheOp.apply [MailParser] (db : Db) : CacheOp → Db
  | .sync runIds email accountId target cursor batch fallbackDate completedAt =>
    match executeSync (fun _ => .ok batch) db runIds email accountId target cursor fallbackDate
        completedAt with
    | .ok (_, _, db') => db'
    | .error _ => db
  | .move env servers owner messageId destination skip cut =>
    (moveFor env db servers owner messageId destination skip cut).2.2

variable {db db' : Db} {runIds : RunIds} {plan : MailboxSyncPlan} {completedAt : Time}
  {result : MailboxSyncCommitResult}

def Prepared (plan : MailboxSyncPlan) (m m' : Message) : Prop :=
  m.accountId = plan.accountId ∧ m.mailbox = plan.mailbox ∧ m.mailboxRole = plan.mailboxRole ∧
    ∃ labels snoozed, m' = { m with labels := labels, snoozedUntil := snoozed }

omit [Platform] in
theorem Prepared.cols {m m' : Message} (h : Prepared plan m m') :
    m'.id = m.id ∧ m'.accountId = plan.accountId ∧ m'.mailbox = plan.mailbox ∧
      m'.messageId = m.messageId := by
  obtain ⟨haccount, hmailbox, _, _, _, rfl⟩ := h
  exact ⟨rfl, haccount, hmailbox, rfl⟩

theorem commit_stages (h : commitMailboxSync db runIds plan completedAt = .ok (result, db')) :
    ∃ (account : Account) (incoming : List Message) (prepared stored : Db),
      prepareAll runIds account.userId (loadRules db account.userId)
        (previouslySynced db plan.accountId plan.mailbox) plan completedAt plan.incoming db =
          .ok (incoming, result.createdMessages, prepared) ∧
      List.Forall₂ (Prepared plan) plan.incoming incoming ∧
      prepared.writePlan plan incoming completedAt = .ok db' ∧
      prepared.messages = db.messages ∧
      (prepared.removeStale plan).storeAll plan incoming = .ok stored ∧
      rowsBeforeEviction db runIds plan completedAt = .ok (stored.messages.map (flagRow plan)) ∧
      db'.messages = deleteWhere (outdated (stored.messages.map (flagRow plan)) plan.accountId)
        (stored.messages.map (flagRow plan)) := by
  obtain ⟨account, incoming, prepared, haccount, hprepare, hwrite, _⟩ := commitMailboxSync_ok h
  obtain ⟨stored, hstore, rfl⟩ := writePlan_ok hwrite
  obtain ⟨hforall, honly⟩ := prepareAll_ok hprepare
  have hmessages : prepared.messages = db.messages := by
    obtain ⟨_, _, _, rfl⟩ := honly
    rfl
  refine ⟨account, incoming, prepared, stored, hprepare, hforall, hwrite, hmessages, hstore, ?_, ?_⟩
  · unfold rowsBeforeEviction
    rw [haccount]
    apply bind_eq_ok.mpr
    refine ⟨_, hprepare, bind_eq_ok.mpr ⟨stored, hstore, ?_⟩⟩
    rw [applyFlags_messages]
    rfl
  · rw [← applyFlags_messages]
    rfl

section

variable {prepared stored : Db} {incoming : List Message}
  (hforall : List.Forall₂ (Prepared plan) plan.incoming incoming)
  (hmessages : prepared.messages = db.messages)
  (hstore : (prepared.removeStale plan).storeAll plan incoming = .ok stored)
include hforall

variable {r : Message}

omit [Platform]

theorem untouched_of_elsewhere (helse : elsewhere plan r = true)
    (hcopy : sameRoleCopy plan r = false) (hids : ∀ n ∈ plan.incoming, n.id ≠ r.id) :
    untouched plan incoming r = true := by
  apply List.all_eq_true.mpr
  intro n' hn'
  obtain ⟨n, hn, hprep⟩ := exists_left_of_mem hforall hn'
  obtain ⟨hid, _, _, hmessage⟩ := hprep.cols
  by_contra hreplaced
  simp only [replaces, Bool.not_eq_true', Bool.not_eq_false, Bool.or_eq_true, beq_iff_eq, otherCopy,
    Bool.and_eq_true, hid, hmessage] at hreplaced
  rcases hreplaced with hsame | ⟨⟨⟨⟨haccount, _⟩, hsome⟩, hequal⟩, hplace⟩
  · exact hids n hn hsame
  · split_ifs at hplace with hcustom
    · simp [elsewhere, haccount, beq_iff_eq.mp hplace] at helse
    · apply Bool.eq_false_iff.mp hcopy
      simp only [sameRoleCopy, haccount, hplace, beq_self_eq_true, Bool.true_and]
      exact List.any_eq_true.mpr ⟨n, hn, by simp [hsome, hequal]⟩

include hmessages hstore

theorem mem_stored_of_elsewhere (hr : r ∈ db.messages) (helse : elsewhere plan r = true)
    (hcopy : sameRoleCopy plan r = false) (hids : ∀ n ∈ plan.incoming, n.id ≠ r.id) :
    r ∈ stored.messages.map (flagRow plan) := by
  have hplace := elsewhere_iff.mp helse
  have hfresh : r ∈ (prepared.removeStale plan).messages := by
    rw [mem_removeStale, hmessages]
    exact ⟨hr, by rw [stale, hplace, Bool.false_and]⟩
  have hstored := mem_storeAll_of_untouched hstore hfresh
    (untouched_of_elsewhere hforall helse hcopy hids)
  exact List.mem_map.mpr ⟨r, hstored, flagRow_of_other hplace⟩

/-- Outside of the plan's mailbox a row after the commit was there before, or has the id of an
incoming message and the account of a row under that id. -/
theorem mem_of_stored_elsewhere (hr : r ∈ stored.messages.map (flagRow plan))
    (helse : elsewhere plan r = true) :
    (r ∈ db.messages ∧ untouched plan incoming r = true) ∨
      (r.accountId ≠ plan.accountId ∧
        ∃ n ∈ plan.incoming, ∃ old ∈ db.messages, old.id = n.id ∧ n.id = r.id ∧
          old.accountId = r.accountId) := by
  obtain ⟨s, hs, rfl⟩ := List.mem_map.mp hr
  have hplace : (s.accountId == plan.accountId && s.mailbox == plan.mailbox) = false := by
    simpa only [flagRow_accountId, flagRow_mailbox] using elsewhere_iff.mp helse
  rw [flagRow_of_other hplace]
  rcases mem_of_storeAll hstore hs with ⟨n', hn', hrow⟩ | ⟨hold, hrest⟩
  · right
    obtain ⟨n, hn, hprep⟩ := exists_left_of_mem hforall hn'
    obtain ⟨hid, _, hmailbox, _⟩ := hprep.cols
    have hsmailbox : s.mailbox = plan.mailbox := by rw [hrow, hmailbox]
    have hsid : s.id = n.id := by rw [hrow, hid]
    have haccount : s.accountId ≠ plan.accountId := by simpa [hsmailbox] using hplace
    obtain ⟨m, hm | hm, hmid, hmaccount⟩ := account_of_storeAll hstore hs
    · obtain ⟨k, _, hkprep⟩ := exists_left_of_mem hforall hm
      exact absurd (hmaccount.symm.trans hkprep.cols.2.1) haccount
    · have hmdb : m ∈ db.messages := hmessages ▸ (mem_removeStale.mp hm).1
      exact ⟨haccount, n, hn, m, hmdb, hmid.trans hsid, hsid.symm, hmaccount⟩
  · exact Or.inl ⟨hmessages ▸ (mem_removeStale.mp hold).1, hrest⟩

end

omit [Platform] in
theorem identityString_account (accountId mailbox mailboxRole : String) (uid : ℕ) :
    ∃ rest, identityString accountId mailbox mailboxRole uid = accountId ++ ":" ++ rest := by
  unfold identityString
  split_ifs
  · exact ⟨_, rfl⟩
  · exact ⟨mailbox ++ ":" ++ toString uid, by simp only [String.append_assoc]⟩
  · exact ⟨mailboxRole ++ ":" ++ toString uid, by simp only [String.append_assoc]⟩

/-- The id is the digest of one of the strings, and the string begins with the account. -/
def KeyedAs (strings : Set String) (accountId id : String) : Prop :=
  ':' ∉ accountId.toList ∧ ∃ rest, accountId ++ ":" ++ rest ∈ strings ∧
    id = digestId (accountId ++ ":" ++ rest)

omit [Platform] in
theorem account_of_append_eq {a b x y : String} (ha : ':' ∉ a.toList) (hb : ':' ∉ b.toList)
    (h : a ++ ":" ++ x = b ++ ":" ++ y) : a = b := by
  have htake : ∀ l r : List Char, ':' ∉ l → (l ++ ':' :: r).takeWhile (· ≠ ':') = l := by
    intro l r hl
    rw [List.takeWhile_append_of_pos]
    · simp
    · intro c hc
      have hne : c ≠ ':' := fun heq => hl (heq ▸ hc)
      simpa using hne
  have hlists := congrArg String.toList h
  simp only [String.toList_append, List.append_assoc] at hlists
  have hsame := congrArg (List.takeWhile (· ≠ ':')) hlists
  apply String.toList_injective
  calc a.toList = (a.toList ++ ':' :: x.toList).takeWhile (· ≠ ':') := (htake _ _ ha).symm
    _ = (b.toList ++ ':' :: y.toList).takeWhile (· ≠ ':') := hsame
    _ = b.toList := htake _ _ hb

theorem KeyedAs.account_eq {strings : Set String} {a b id : String} (ha : KeyedAs strings a id)
    (hb : KeyedAs strings b id) (hinj : Set.InjOn digestId strings) : a = b := by
  obtain ⟨hacolon, x, hx, hidx⟩ := ha
  obtain ⟨hbcolon, y, hy, hidy⟩ := hb
  exact account_of_append_eq hacolon hbcolon (hinj hx hy (hidx.symm.trans hidy))

/-- Every cached row has an id of its account. -/
structure KeyedRows (strings : Set String) (db : Db) : Prop where
  accounts : ∀ a ∈ db.accounts, ':' ∉ a.id.toList
  rows : ∀ r ∈ db.messages, KeyedAs strings r.accountId r.id

theorem ids_of_commit (h : commitMailboxSync db runIds plan completedAt = .ok (result, db'))
    {r : Message} (hr : r ∈ db'.messages) :
    ∃ m, (m ∈ plan.incoming ∨ m ∈ db.messages) ∧ m.id = r.id ∧ m.accountId = r.accountId := by
  obtain ⟨_, _, _, _, _, hforall, _, hmessages, hstore, _, hdb'⟩ := commit_stages h
  rw [hdb'] at hr
  obtain ⟨s, hs, rfl⟩ := List.mem_map.mp (mem_deleteWhere.mp hr).1
  rw [flagRow_id, flagRow_accountId]
  obtain ⟨m, hm | hm, hid, haccount⟩ := account_of_storeAll hstore hs
  · obtain ⟨n, hn, hprep⟩ := exists_left_of_mem hforall hm
    obtain ⟨hnid, hnaccount, _⟩ := hprep.cols
    exact ⟨n, Or.inl hn, hnid.symm.trans hid, (hprep.1.trans hnaccount.symm).trans haccount⟩
  · exact ⟨m, Or.inr (hmessages ▸ (mem_removeStale.mp hm).1), hid, haccount⟩

end

section

variable [Platform] [MailParser]

variable {db db' : Db} {runIds : RunIds} {email accountId fallbackDate : String}
  {target : SyncTarget} {cursor : SyncCursor} {batch : RemoteSyncBatch} {completedAt : Time}
  {plan : MailboxSyncPlan} {result : MailboxSyncCommitResult} {n : Message}

theorem incoming_keyed (haccounts : ∀ a ∈ db.accounts, ':' ∉ a.id.toList)
    (h : executeSync (fun _ => .ok batch) db runIds email accountId target cursor fallbackDate
      completedAt = .ok (plan, result, db'))
    (hn : n ∈ plan.incoming) :
    KeyedAs (CacheOp.sync runIds email accountId target cursor batch fallbackDate
      completedAt).identities n.accountId n.id := by
  obtain ⟨account, haccount, hplan, _⟩ := executeSync_ok h
  obtain ⟨_, remote, incoming, sources, _, hfetch, _, _, hcache, rfl⟩ := planMailboxSync_ok hplan
  cases hfetch
  obtain ⟨fetched, hfetched, hmessage⟩ := exists_left_of_mem (cacheIncoming_ok hcache) hn
  obtain ⟨hid, hnaccount, _⟩ := cacheMessage_ok hmessage
  obtain ⟨rest, hrest⟩ := identityString_account accountId batch.mailbox batch.mailboxRole
    fetched.uid
  have hmem : account ∈ db.accounts := List.mem_of_find?_eq_some haccount
  have hself : account.id = accountId := by simpa using List.find?_some haccount
  rw [hnaccount, hid, hrest]
  exact ⟨hself ▸ haccounts account hmem, rest, ⟨fetched, hfetched, hrest.symm⟩, rfl⟩

variable {strings : Set String}

section

variable (h : KeyedRows strings db)
include h

theorem KeyedRows.sync
    (hexec : executeSync (fun _ => .ok batch) db runIds email accountId target cursor fallbackDate
      completedAt = .ok (plan, result, db'))
    (hop : (CacheOp.sync runIds email accountId target cursor batch fallbackDate
      completedAt).identities ⊆ strings) : KeyedRows strings db' := by
  obtain ⟨_, _, _, hcommit⟩ := executeSync_ok hexec
  constructor
  · obtain ⟨_, _, _, _, _, rfl⟩ := commitMailboxSync_frame hcommit
    exact forall_updateWhere (fun a ha _ => h.accounts a ha) fun a ha _ => h.accounts a ha
  · intro r hr
    obtain ⟨m, hm | hm, hid, haccount⟩ := ids_of_commit hcommit hr
    · obtain ⟨hcolon, rest, hrest, hkey⟩ := incoming_keyed h.accounts hexec hm
      rw [← hid, ← haccount]
      exact ⟨hcolon, rest, hop hrest, hkey⟩
    · rw [← hid, ← haccount]
      exact h.rows m hm

omit [MailParser] in
theorem KeyedRows.upsert {m : Message} (hm : m ∈ db.messages)
    (hid : n.id = m.id) (haccount : n.accountId = m.accountId)
    (hup : db.upsertSyncMessage n = .ok db') : KeyedRows strings db' := by
  constructor
  · obtain ⟨messages, sources, hdb'⟩ := messagesOnly_upsertSyncMessage hup
    rw [hdb']
    exact h.accounts
  · intro r hr
    rcases account_of_upsertSyncMessage hup hr with rfl | ⟨old, hold, hold_id, hold_account⟩
    · rw [hid, haccount]
      exact h.rows m hm
    · rw [← hold_id, ← hold_account]
      exact h.rows old hold

theorem KeyedRows.apply (op : CacheOp) (hop : op.identities ⊆ strings) :
    KeyedRows strings (op.apply db) := by
  cases op with
  | sync runIds email accountId target cursor batch fallbackDate completedAt =>
    simp only [CacheOp.apply]
    split
    · rename_i plan result db' hexec
      exact h.sync hexec hop
    · exact h
  | move env servers owner messageId destination skip cut =>
    simp only [CacheOp.apply]
    rcases moveFor_db env db servers owner messageId destination skip cut with
      hsame | ⟨m, moved, hread, _, hup⟩
    · rw [hsame]
      exact h
    · obtain ⟨hm, _, _⟩ := ownedMessage_some hread
      exact h.upsert (n := movedRow destination moved m) hm rfl rfl hup

theorem KeyedRows.account_eq (hinj : Set.InjOn digestId strings)
    (hexec : executeSync (fun _ => .ok batch) db runIds email accountId target cursor fallbackDate
      completedAt = .ok (plan, result, db'))
    (hop : (CacheOp.sync runIds email accountId target cursor batch fallbackDate
      completedAt).identities ⊆ strings)
    {r : Message} (hn : n ∈ plan.incoming) (hr : r ∈ db.messages) (hid : r.id = n.id) :
    r.accountId = n.accountId := by
  obtain ⟨hcolon, rest, hrest, hkey⟩ := incoming_keyed h.accounts hexec hn
  apply (h.rows r hr).account_eq _ hinj
  rw [hid]
  exact ⟨hcolon, rest, hop hrest, hkey⟩

end

def identities (ops : List CacheOp) : Set String := {s | ∃ op ∈ ops, s ∈ op.identities}

omit [Platform] [MailParser] in
theorem identities_subset {ops : List CacheOp} {op : CacheOp} (h : op ∈ ops) :
    op.identities ⊆ identities ops := fun _ hs => ⟨op, h, hs⟩

theorem keyedRows_run (h : KeyedRows strings db) {ops : List CacheOp}
    (hops : ∀ op ∈ ops, op.identities ⊆ strings) : KeyedRows strings (exec CacheOp.apply db ops) :=
  invariant_along (P := fun _ op => op.identities ⊆ strings) (KeyedRows strings)
    (fun _ op hdb hop => hdb.apply op hop) h (along_of_forall hops db)

/-- After any history of syncs and moves from an empty cache, a commit leaves the other mailboxes
alone exactly if no incoming message has the id of a row there, copies of the role apart. Account
ids have no colon, and digests of the history's strings do not collide. -/
theorem commit_own_mailbox_iff {db₀ : Db} (hempty : db₀.messages = [])
    (haccounts : ∀ a ∈ db₀.accounts, ':' ∉ a.id.toList) (ops : List CacheOp) {runIds : RunIds}
    {email accountId fallbackDate : String} {target : SyncTarget} {cursor : SyncCursor}
    {batch : RemoteSyncBatch} {completedAt : Time} {plan : MailboxSyncPlan}
    {result : MailboxSyncCommitResult} {db' : Db}
    (hsync : executeSync (fun _ => .ok batch) (exec CacheOp.apply db₀ ops) runIds email accountId
      target cursor fallbackDate completedAt = .ok (plan, result, db'))
    (hinj : Set.InjOn digestId (identities (ops ++
      [.sync runIds email accountId target cursor batch fallbackDate completedAt]))) :
    OwnMailboxOnly (exec CacheOp.apply db₀ ops) runIds plan completedAt db' ↔
      IdsApart (exec CacheOp.apply db₀ ops).messages plan := by
  have hkeyed : KeyedRows (identities (ops ++
      [.sync runIds email accountId target cursor batch fallbackDate completedAt]))
      (exec CacheOp.apply db₀ ops) := by
    apply keyedRows_run ⟨haccounts, by simp [hempty]⟩
    intro op hop
    exact identities_subset (List.mem_append_left _ hop)
  generalize exec CacheOp.apply db₀ ops = db at hsync hkeyed ⊢
  have hown : ∀ n ∈ plan.incoming, ∀ r ∈ db.messages, r.id = n.id → r.accountId = n.accountId :=
    fun n hn r hr hid => hkeyed.account_eq hinj hsync (identities_subset (by simp)) hn hr hid
  obtain ⟨_, _, _, hcommit⟩ := executeSync_ok hsync
  obtain ⟨_, incoming, prepared, stored, _, hforall, _, hmessages, hstore, hbefore, hdb'⟩ :=
    commit_stages hcommit
  constructor
  · intro hframe n hn r hr hid helse
    rcases hframe.kept r hr helse with hcopy | hthere
    · exact hcopy
    · -- The row is still there when the eviction begins, so nothing was stored under its id.
      have hrow : r ∈ stored.messages.map (flagRow plan) := by
        rcases hthere with hthere | ⟨rows, hrows, hmem, _⟩
        · rw [hdb'] at hthere
          exact (mem_deleteWhere.mp hthere).1
        · rw [hbefore] at hrows
          cases hrows
          exact hmem
      exfalso
      obtain ⟨n', hn', hprep⟩ := exists_right_of_mem hforall hn
      have haccount : r.accountId = plan.accountId := (hown n hn r hr hid).trans hprep.1
      rcases mem_of_stored_elsewhere hforall hmessages hstore hrow helse with
        ⟨_, hrest⟩ | ⟨hother, _⟩
      · exact id_ne_of_untouched hrest hn' (hprep.cols.1.trans hid.symm)
      · exact hother haccount
  · intro hapart
    constructor
    · intro r hr helse
      by_cases hcopy : sameRoleCopy plan r = true
      · exact Or.inl hcopy
      · right
        have hrow := mem_stored_of_elsewhere hforall hmessages hstore hr helse
          (Bool.eq_false_iff.mpr hcopy) fun n hn hid => hcopy (hapart n hn r hr hid.symm helse)
        by_cases hold : outdated (stored.messages.map (flagRow plan)) plan.accountId r = true
        · exact Or.inr ⟨_, hbefore, hrow, hold⟩
        · rw [hdb']
          exact Or.inl (mem_deleteWhere.mpr ⟨hrow, Bool.eq_false_iff.mpr hold⟩)
    · intro r hr helse
      rw [hdb'] at hr
      rcases mem_of_stored_elsewhere hforall hmessages hstore (mem_deleteWhere.mp hr).1 helse with
        ⟨hold, _⟩ | ⟨hother, n, hn, old, hold, hid, _, haccount⟩
      · exact hold
      · obtain ⟨_, _, hprep⟩ := exists_right_of_mem hforall hn
        exact absurd ((haccount.symm.trans (hown n hn old hold hid)).trans hprep.1) hother

end

def archivingDb : Db where
  accounts :=
    [{ id := "a"
       userId := "u"
       email := "a@example.org"
       createdAt := 0
       settings := some
        { imapHost := some "imap.example.org"
          imapPort := some 993
          imapSecure := some true
          smtpHost := some "smtp.example.org"
          smtpPort := some 465
          smtpSecure := some true } }]

def passwordEnv : ImapEnvironment := { decrypt := fun _ => some { password := some "secret" } }

def archivingServer : MailServer :=
  ({ listed := [{ path := "INBOX" }, { path := "Archive", attributes := [.archive] }] } :
    MailServer).deliver "INBOX" { key := 1, source := [111] } 0

def inboxBatch (uidValidity : String) (changed : Bool) (uid : ℕ) (source : List UInt8) :
    RemoteSyncBatch where
  mailbox := "INBOX"
  mailboxRole := "inbox"
  uidValidity := some uidValidity
  uidValidityChanged := changed
  lastSeenUid := uid
  incoming := [⟨uid, source, none, true, false⟩]

def inboxSync (batch : RemoteSyncBatch) : CacheOp :=
  .sync (fun _ _ _ => "run") "a@example.org" "a" ⟨"inbox", none⟩ {} batch "2026-01-01" 0

def archivedHistory : List CacheOp :=
  [inboxSync (inboxBatch "1" false 1 [111]),
    .move passwordEnv (fun _ => archivingServer) "u" "a:1" .archive 0 none]

theorem identities_archived (uidValidity : String) (changed : Bool) (uid : ℕ)
    (source : List UInt8) :
    ∀ s ∈ identities (archivedHistory ++ [inboxSync (inboxBatch uidValidity changed uid source)]),
      s = identityString "a" "INBOX" "inbox" 1 ∨ s = identityString "a" "INBOX" "inbox" uid := by
  rintro s ⟨op, hop, hs⟩
  simp only [archivedHistory, List.cons_append, List.nil_append, List.mem_cons, List.not_mem_nil,
    or_false] at hop
  rcases hop with rfl | rfl | rfl
  · obtain ⟨fetched, hfetched, rfl⟩ := hs
    rw [List.mem_singleton.mp hfetched]
    exact Or.inl rfl
  · exact hs.elim
  · obtain ⟨fetched, hfetched, rfl⟩ := hs
    rw [List.mem_singleton.mp hfetched]
    exact Or.inr rfl

def syncAfterArchive [Platform] [MailParser] (batch : RemoteSyncBatch) :
    Except SyncExecutionError (MailboxSyncPlan × MailboxSyncCommitResult × Db) :=
  executeSync (fun _ => .ok batch) (exec CacheOp.apply archivingDb archivedHistory)
    (fun _ _ _ => "run") "a@example.org" "a" ⟨"inbox", none⟩ {} "2026-01-01" 0

/-- A second message of the inbox is cached beside the archived one. -/
theorem commit_own_mailbox_second :
    let _ := Platform.plain
    let _ := MailParser.plain
    ∃ plan result db',
      syncAfterArchive (inboxBatch "1" false 2 [116]) = .ok (plan, result, db') ∧
      (exec CacheOp.apply archivingDb archivedHistory).messages.map (·.mailbox) = ["Archive"] ∧
      OwnMailboxOnly (exec CacheOp.apply archivingDb archivedHistory) (fun _ _ _ => "run") plan 0
        db' := by
  intro _ _
  have hplan : (syncAfterArchive (inboxBatch "1" false 2 [116])).toOption.any
      (fun planned => planned.1.incoming.map (·.id) == ["a:2"]) = true := by
    decide +kernel
  have hrows : (exec CacheOp.apply archivingDb archivedHistory).messages.map
      (fun m => (m.id, m.mailbox)) = [("a:1", "Archive")] := by
    decide +kernel
  have hinj : Set.InjOn digestId (identities (archivedHistory ++
      [inboxSync (inboxBatch "1" false 2 [116])])) := by
    have hdiffer : digestId (identityString "a" "INBOX" "inbox" 1) ≠
        digestId (identityString "a" "INBOX" "inbox" 2) := by
      decide +kernel
    intro s hs t ht heq
    rcases identities_archived _ _ _ _ s hs with rfl | rfl <;>
      rcases identities_archived _ _ _ _ t ht with rfl | rfl
    · rfl
    · exact absurd heq hdiffer
    · exact absurd heq.symm hdiffer
    · rfl
  obtain ⟨⟨plan, result, db'⟩, hsync, hplan⟩ := exists_ok_of_any hplan
  refine ⟨plan, result, db', hsync, by simpa using congrArg (List.map Prod.snd) hrows, ?_⟩
  apply (commit_own_mailbox_iff rfl (by decide) archivedHistory hsync hinj).mpr
  intro n hn r hr hid
  have hnid : n.id ∈ ["a:2"] := beq_iff_eq.mp hplan ▸ List.mem_map_of_mem hn
  have hrid : (r.id, r.mailbox) ∈ [("a:1", "Archive")] := hrows ▸ List.mem_map_of_mem hr
  simp only [List.mem_singleton, Prod.mk.injEq] at hnid hrid
  rw [hnid, hrid.1] at hid
  exact absurd hid (by decide)

/-- After the inbox is numbered anew, its first message is stored over the archived one, which has
another Message-ID and another role. -/
theorem commit_overwrites_archived :
    let _ := Platform.plain
    let _ := MailParser.plain
    ∃ plan result db',
      syncAfterArchive (inboxBatch "2" true 1 [116]) = .ok (plan, result, db') ∧
      Set.InjOn digestId (identities (archivedHistory ++
        [inboxSync (inboxBatch "2" true 1 [116])])) ∧
      plan.mailbox = "INBOX" ∧
      (∃ r ∈ (exec CacheOp.apply archivingDb archivedHistory).messages, r.mailbox = "Archive" ∧
        ∃ r' ∈ db'.messages, r'.id = r.id ∧ r'.mailbox = "INBOX") ∧
      ¬ OwnMailboxOnly (exec CacheOp.apply archivingDb archivedHistory) (fun _ _ _ => "run") plan 0
        db' := by
  intro _ _
  have hinj : Set.InjOn digestId (identities (archivedHistory ++
      [inboxSync (inboxBatch "2" true 1 [116])])) := by
    intro s hs t ht _
    rcases identities_archived _ _ _ _ s hs with rfl | rfl <;>
      rcases identities_archived _ _ _ _ t ht with rfl | rfl <;> rfl
  have hfacts : (syncAfterArchive (inboxBatch "2" true 1 [116])).toOption.any
      (fun planned => planned.1.mailbox == "INBOX" &&
        (exec CacheOp.apply archivingDb archivedHistory).messages.any fun r =>
          r.mailbox == "Archive" && elsewhere planned.1 r && !sameRoleCopy planned.1 r &&
          !planned.2.2.messages.contains r &&
          (planned.2.2.messages.any fun r' => r'.id == r.id && r'.mailbox == "INBOX") &&
          (rowsBeforeEviction (exec CacheOp.apply archivingDb archivedHistory)
            (fun _ _ _ => "run") planned.1 0).toOption.all fun rows => !rows.contains r) = true := by
    decide +kernel
  obtain ⟨⟨plan, result, db'⟩, hsync, hfacts⟩ := exists_ok_of_any hfacts
  simp only [Bool.and_eq_true, List.any_eq_true, beq_iff_eq, Bool.not_eq_true'] at hfacts
  obtain ⟨hmailbox, r, hr, ⟨⟨⟨⟨⟨hplace, helse⟩, hcopy⟩, hgone⟩, hnew⟩, hbefore⟩⟩ := hfacts
  refine ⟨plan, result, db', hsync, hinj, hmailbox, ⟨r, hr, hplace, hnew⟩, ?_⟩
  intro hframe
  rcases hframe.kept r hr helse with h | h | ⟨rows, hrows, hmem, _⟩
  · rw [hcopy] at h
    cases h
  · simp [h] at hgone
  · simp [hrows, hmem, Except.toOption] at hbefore

end IMail
