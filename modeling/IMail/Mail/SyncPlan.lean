import IMail.Mail.Parsing
import IMail.Store.RuleEdits

/-!
# Planning a mailbox sync

`MailboxSyncService::plan` of `imail-mail/src/sync.rs`: the request that is made of the cached
messages of a target, the checks on the answer, and the plan that the store commits. A UID is
an unsigned number of 32 bits; a protocol failure is its text.
-/

namespace IMail

open Text

structure SyncCursor where
  uidValidity : Option String := none
  lastSeenUid : ℤ := 0
  highestModseq : Option String := none
  deriving DecidableEq, Repr

structure RemoteSyncRequest where
  target : SyncTarget
  cursor : SyncCursor
  cachedUids : List ℕ
  deriving DecidableEq, Repr

structure RemoteFetchedSyncMessage where
  uid : ℕ
  source : List UInt8
  internalDate : Option String
  unread : Bool
  flagged : Bool
  deriving DecidableEq, Repr

structure RemoteSyncBatch where
  mailbox : String
  mailboxRole : String
  uidValidity : Option String := none
  highestModseq : Option String := none
  uidValidityChanged : Bool := false
  lastSeenUid : ℤ := 0
  incoming : List RemoteFetchedSyncMessage := []
  removedUids : List ℕ := []
  flagUpdates : List RemoteFlagUpdate := []
  folders : List SyncMailboxFolder := []
  deriving DecidableEq, Repr

inductive MailboxSyncError
  | protocol (failure : String)
  | invalidUid
  | duplicateUid
  | invalidTarget
  | parse (error : MailParseError)
  | invalidMessageModel
  deriving DecidableEq, Repr

/-- The cached rows of a target: those of its mailbox, or of its role if it names none. -/
def cachedForTarget (accountId : String) (target : SyncTarget) (m : Message) : Bool :=
  m.accountId == accountId &&
    match target.requestedMailbox with
    | some mailbox => m.mailbox == mailbox
    | none => m.mailboxRole == target.mailboxRole

/-- `u32::try_from` -/
def uidOf (uid : ℤ) : Option ℕ := if 0 ≤ uid ∧ uid < 2 ^ 32 then some uid.toNat else none

def cachedUids : List Message → Except MailboxSyncError (List ℕ)
  | [] => .ok []
  | m :: messages =>
    match uidOf m.uid with
    | none => .error .invalidUid
    | some uid => (cachedUids messages).map (uid :: ·)

def validateRemoteBatch (batch : RemoteSyncBatch) : Except MailboxSyncError Unit :=
  if isBlank batch.mailbox ∨ isBlank batch.mailboxRole ∨ batch.lastSeenUid < 0 then
    .error .invalidTarget
  else if (batch.incoming.map (·.uid)).Nodup then .ok ()
  else .error .duplicateUid

def identityString (accountId mailbox mailboxRole : String) (uid : ℕ) : String :=
  if mailboxRole = "inbox" then accountId ++ ":" ++ toString uid
  else if mailboxRole = "custom" then accountId ++ ":" ++ mailbox ++ ":" ++ toString uid
  else accountId ++ ":" ++ mailboxRole ++ ":" ++ toString uid

def flagsDiffer (updates : List RemoteFlagUpdate) (m : Message) : Bool :=
  ((uidOf m.uid).bind fun uid => updates.reverse.find? fun update => update.uid == uid).any
    fun update => m.unread != update.unread || m.flagged != update.flagged

/-- `BTreeMap::insert` -/
def insertSource (sources : List (String × List UInt8)) (id : String) (source : List UInt8) :
    List (String × List UInt8) :=
  (id, source) :: sources.filter fun entry => entry.1 ≠ id

section

variable [Platform] [MailParser]

omit [MailParser] in
/-- The first 24 digits of the digest. -/
def digestId (identity : String) : String :=
  String.ofList ((Platform.sha256Hex identity).toList.take 24)

def cacheMessage (accountId mailbox mailboxRole : String) (remote : RemoteFetchedSyncMessage)
    (fallbackDate : String) : Except MailboxSyncError Message :=
  match parseRfc822 remote.source with
  | .error e => .error (.parse e)
  | .ok parsed =>
    .ok
      { headers := parsed.headers
        id := digestId (identityString accountId mailbox mailboxRole remote.uid)
        accountId
        mailbox
        mailboxRole
        uid := remote.uid
        messageId := parsed.messageId
        sender := parsed.sender
        recipients := parsed.recipients
        subject := parsed.subject
        preview := parsed.preview
        text := parsed.text
        html := parsed.html
        date := (parsed.date.or remote.internalDate).getD fallbackDate
        unread := remote.unread
        flagged := remote.flagged
        hasAttachments := !parsed.attachments.isEmpty
        attachments := parsed.attachments
        labels := []
        snoozedUntil := none }

/-- The loop over the fetched messages, with the sources collected so far. -/
def cacheIncoming (accountId : String) (remote : RemoteSyncBatch) (fallbackDate : String) :
    List RemoteFetchedSyncMessage → List (String × List UInt8) →
      Except MailboxSyncError (List Message × List (String × List UInt8))
  | [], sources => .ok ([], sources)
  | fetched :: rest, sources =>
    match cacheMessage accountId remote.mailbox remote.mailboxRole fetched fallbackDate with
    | .error e => .error e
    | .ok message =>
      (cacheIncoming accountId remote fallbackDate rest
        (insertSource sources message.id fetched.source)).map
          fun (messages, sources) => (message :: messages, sources)

def planOf (accountId : String) (cached : List Message) (remote : RemoteSyncBatch)
    (incoming : List Message) (rawSources : List (String × List UInt8)) : MailboxSyncPlan where
  accountId := accountId
  mailbox := remote.mailbox
  mailboxRole := remote.mailboxRole
  uidValidity := remote.uidValidity
  highestModseq := remote.highestModseq
  lastSeenUid := remote.lastSeenUid
  incoming := incoming
  rawSources := rawSources
  removedUids := remote.removedUids
  uidValidityChanged := remote.uidValidityChanged
  flagUpdates := remote.flagUpdates
  folders := remote.folders
  synced := incoming.length
  updated := cached.countP (flagsDiffer remote.flagUpdates)
  deleted := if remote.uidValidityChanged then cached.length else remote.removedUids.length

def targetMismatch (target : SyncTarget) (remote : RemoteSyncBatch) : Bool :=
  match target.requestedMailbox with
  | none => remote.mailboxRole != target.mailboxRole
  | some mailbox => mailbox != remote.mailbox

/-- `MailboxSyncService::plan`, where `fetch` is `fetch_incremental` of the port. -/
def planMailboxSync (fetch : RemoteSyncRequest → Except String RemoteSyncBatch)
    (accountId : String) (target : SyncTarget) (cursor : SyncCursor) (cached : List Message)
    (fallbackDate : String) : Except MailboxSyncError MailboxSyncPlan :=
  let cached := cached.filter (cachedForTarget accountId target)
  match cachedUids cached with
  | .error e => .error e
  | .ok cachedUids =>
    match fetch { target, cursor, cachedUids } with
    | .error failure => .error (.protocol failure)
    | .ok remote =>
      if targetMismatch target remote then .error .invalidTarget
      else
        match validateRemoteBatch remote with
        | .error e => .error e
        | .ok () =>
          (cacheIncoming accountId remote fallbackDate remote.incoming []).map
            fun (incoming, rawSources) => planOf accountId cached remote incoming rawSources

variable {accountId mailbox mailboxRole fallbackDate : String} {remote : RemoteFetchedSyncMessage}
  {m : Message} {messages : List Message}
  {fetch : RemoteSyncRequest → Except String RemoteSyncBatch} {target : SyncTarget}
  {cursor : SyncCursor} {plan : MailboxSyncPlan}

section

variable (h : cacheMessage accountId mailbox mailboxRole remote fallbackDate = .ok m)
include h

theorem cacheMessage_ok :
    m.id = digestId (identityString accountId mailbox mailboxRole remote.uid) ∧
      m.accountId = accountId ∧ m.mailbox = mailbox ∧ m.mailboxRole = mailboxRole ∧
      m.uid = remote.uid ∧ m.labels = [] := by
  unfold cacheMessage at h
  split at h
  · cases h
  · cases h
    exact ⟨rfl, rfl, rfl, rfl, rfl, rfl⟩

theorem cacheMessage_flags : m.unread = remote.unread ∧ m.flagged = remote.flagged := by
  unfold cacheMessage at h
  split at h
  · cases h
  · cases h
    exact ⟨rfl, rfl⟩

end

theorem cacheIncoming_ok {remote : RemoteSyncBatch} {fetched : List RemoteFetchedSyncMessage}
    {sources sources' : List (String × List UInt8)}
    (h : cacheIncoming accountId remote fallbackDate fetched sources = .ok (messages, sources')) :
    List.Forall₂ (fun f m => cacheMessage accountId remote.mailbox remote.mailboxRole f
      fallbackDate = .ok m) fetched messages := by
  induction fetched generalizing sources messages with
  | nil =>
    cases h
    exact .nil
  | cons f fetched ih =>
    simp only [cacheIncoming] at h
    split at h
    · cases h
    · rename_i m hone
      obtain ⟨⟨rest, restSources⟩, hrest, heq⟩ := Relational.map_eq_ok h
      cases heq
      exact .cons hone (ih hrest)

omit [Platform] [MailParser] in
theorem cachedUids_ok {uids : List ℕ} (h : cachedUids messages = .ok uids) :
    List.Forall₂ (fun (m : Message) (uid : ℕ) => m.uid = uid) messages uids := by
  induction messages generalizing uids with
  | nil =>
    cases h
    exact .nil
  | cons m messages ih =>
    simp only [cachedUids] at h
    split at h
    · cases h
    · rename_i uid huid
      obtain ⟨rest, hrest, rfl⟩ := Relational.map_eq_ok h
      have hm : m.uid = (uid : ℤ) := by
        unfold uidOf at huid
        split_ifs at huid with hrange
        cases huid
        omega
      exact .cons hm (ih hrest)

theorem planMailboxSync_ok {cached : List Message}
    (h : planMailboxSync fetch accountId target cursor cached fallbackDate = .ok plan) :
    ∃ uids remote incoming sources,
      cachedUids (cached.filter (cachedForTarget accountId target)) = .ok uids ∧
      fetch ⟨target, cursor, uids⟩ = .ok remote ∧ targetMismatch target remote = false ∧
      validateRemoteBatch remote = .ok () ∧
      cacheIncoming accountId remote fallbackDate remote.incoming [] = .ok (incoming, sources) ∧
      plan = planOf accountId (cached.filter (cachedForTarget accountId target)) remote incoming
        sources := by
  unfold planMailboxSync at h
  dsimp only at h
  split at h
  · cases h
  rename_i uids huids
  split at h
  · cases h
  rename_i remote hfetch
  split_ifs at h with hmatch
  split at h
  · cases h
  rename_i hvalid
  obtain ⟨⟨incoming, sources⟩, hcache, rfl⟩ := Relational.map_eq_ok h
  exact ⟨uids, remote, incoming, sources, huids, hfetch, by simpa using hmatch, hvalid, hcache, rfl⟩

inductive SyncExecutionError
  | accountNotFound
  | connectionAccountMismatch
  | plan (error : MailboxSyncError)
  | commit (error : SyncRuntimeError)
  deriving DecidableEq, Repr

/-- `execute_with_config`, for the owner of the account. -/
def executeSync (fetch : RemoteSyncRequest → Except String RemoteSyncBatch) (db : Db)
    (runIds : RunIds) (email accountId : String) (target : SyncTarget) (cursor : SyncCursor)
    (fallbackDate : String) (completedAt : Time) :
    Except SyncExecutionError (MailboxSyncPlan × MailboxSyncCommitResult × Db) :=
  match db.account accountId with
  | none => .error .accountNotFound
  | some account =>
    if !eqIgnoreAsciiCase account.email email then .error .connectionAccountMismatch
    else
      match planMailboxSync fetch accountId target cursor (listMessages db account.userId)
          fallbackDate with
      | .error e => .error (.plan e)
      | .ok plan =>
        match commitMailboxSync db runIds plan completedAt with
        | .error e => .error (.commit e)
        | .ok (result, db) => .ok (plan, result, db)

theorem executeSync_ok {db db' : Db} {runIds : RunIds} {email : String} {completedAt : Time}
    {result : MailboxSyncCommitResult}
    (h : executeSync fetch db runIds email accountId target cursor fallbackDate completedAt =
      .ok (plan, result, db')) :
    ∃ account, db.account accountId = some account ∧
      planMailboxSync fetch accountId target cursor (listMessages db account.userId)
        fallbackDate = .ok plan ∧
      commitMailboxSync db runIds plan completedAt = .ok (result, db') := by
  unfold executeSync at h
  split at h
  · cases h
  rename_i account haccount
  split_ifs at h
  split at h
  · cases h
  rename_i plan' hplan
  split at h
  · cases h
  rename_i hcommit
  cases h
  exact ⟨account, haccount, hplan, hcommit⟩

end

end IMail
