import IMail.Mail.Server
import IMail.Mail.SyncPlan

/-!
# Fetching what is new

`fetch_incremental` of `imail-mail-network/src/sync.rs`: the commands of one session and the
batch that is made of the answers. The server may change between two commands, so the session
has a server for each of them, numbered by the order of the commands: 0 for `CAPABILITY`, `LIST`
and `STATUS`, 1 for `SELECT`, 2 for the messages themselves, and from 3 on for the flags of what
is cached. A connection that breaks off gives no batch.
-/

namespace IMail

open Text Imap

inductive IncrementalCapabilityMode
  | condstore | basic
  deriving DecidableEq, Repr

def incrementalCapabilityMode (qresync condstore : Bool) : IncrementalCapabilityMode :=
  if qresync || condstore then .condstore else .basic

/-- What `LIST` and `STATUS` tell of a mailbox. -/
def MailServer.folder (server : MailServer) (listed : ListedMailbox) : SyncMailboxFolder :=
  let delimiter := listed.delimiter.getD "/"
  let rawName := afterLast delimiter listed.path
  let selectable := NameAttribute.noSelect ∉ listed.attributes
  let box := server.box listed.path
  { path := listed.path
    name := (decodeModifiedUtf7 rawName).getD rawName
    delimiter
    specialUse := listed.specialUse
    selectable
    total := if selectable then some box.uids.length else none
    unread := if selectable then
        some (box.uids.countP fun uid => (box.fetch uid).any fun m => !m.seen)
      else none }

def MailServer.folders (server : MailServer) : List SyncMailboxFolder :=
  server.listed.map server.folder

def inboxFolder : SyncMailboxFolder where
  path := "INBOX"
  name := "INBOX"
  delimiter := "/"
  specialUse := some "\\Inbox"
  selectable := true

/-- `ProtocolFailure::from_provider`, without a status -/
def imapFailure [Platform] (detail : String) : String :=
  "IMAP 验证失败：" ++ redactProtocolDetail detail

section

variable [Platform]

def resolveSyncMailbox (folders : List SyncMailboxFolder) (target : SyncTarget) :
    Except String SyncMailboxFolder :=
  match target.requestedMailbox with
  | some requested =>
    match folders.find? fun folder => folder.path == requested && folder.selectable with
    | some folder => .ok folder
    | none => .error (imapFailure "邮箱文件夹不存在或不可选择")
  | none =>
    if target.mailboxRole = "inbox" then
      .ok ((folders.find? fun folder =>
        eqIgnoreAsciiCase folder.path "INBOX" && folder.selectable).getD inboxFolder)
    else
      match folders.find? fun folder =>
        folder.selectable && mailboxRoleFor folder.path folder.specialUse == target.mailboxRole with
      | some folder => .ok folder
      | none => .error (imapFailure ("服务商没有返回" ++ target.mailboxRole ++ "文件夹"))

/-- The mailbox of a session after `SELECT`, and where the session starts in it. -/
structure Selection where
  folder : SyncMailboxFolder
  role : String
  allMailArchive : Bool
  mode : IncrementalCapabilityMode
  uidValidity : Option String
  highestModseq : Option String
  uidValidityChanged : Bool
  incrementalUid : ℕ
  messages : ℕ
  uidNext : Option ℕ

def changedUidValidity (cursor : SyncCursor) (uidValidity : Option String) : Bool :=
  cursor.uidValidity.isSome && uidValidity.isSome && cursor.uidValidity != uidValidity

/-- `iter().copied().max().unwrap_or(0)` -/
def maxUid (uids : List ℕ) : ℕ := uids.foldl max 0

def selectMailbox (moment : ℕ → MailServer) (request : RemoteSyncRequest) :
    Except String Selection :=
  match resolveSyncMailbox (moment 0).folders request.target with
  | .error failure => .error failure
  | .ok folder =>
    let role := mailboxRoleFor folder.path folder.specialUse
    let selected := (moment 1).mailboxes folder.path
    let uidValidity := selected.uidValidity.map toString
    let changed := changedUidValidity request.cursor uidValidity
    if 2 ^ 32 ≤ request.cursor.lastSeenUid then
      .error (imapFailure "同步游标超出 IMAP UID 范围")
    else
      .ok
        { folder
          role
          allMailArchive := role == "archive" && folder.specialUse == some "\\All" &&
            (moment 0).gmailLabels
          mode := incrementalCapabilityMode (moment 0).qresync (moment 0).condstore
          uidValidity
          highestModseq := selected.highestModseq.map toString
          uidValidityChanged := changed
          incrementalUid :=
            if changed then 0
            else max (maxUid request.cachedUids) (max request.cursor.lastSeenUid 0).toNat
          messages := selected.box.uids.length
          uidNext := if (moment 1).reportsUidNext then some selected.box.uidNext else none }

end

/-- `saturating_add(1)` -/
def nextUid (uid : ℕ) : ℕ := min (uid + 1) (2 ^ 32 - 1)

/-- The identifiers that the session fetches: the last 80 messages if it starts from nothing,
else what is above the ones it knows. -/
def Selection.range (s : Selection) (box : UidMailbox ServerMessage) : List ℕ :=
  if 0 < s.messages ∧ s.incrementalUid = 0 then box.seqFrom (max (s.messages - 79) 1)
  else if 0 < s.incrementalUid ∧ s.uidNext.any (nextUid s.incrementalUid < ·) then
    box.uidFrom (nextUid s.incrementalUid)
  else []

/-- The answers to a `FETCH` of these identifiers. -/
def fetchedMessages (box : UidMailbox ServerMessage) (uids : List ℕ) : List (ℕ × ServerMessage) :=
  uids.filterMap fun uid => (box.fetch uid).map fun m => (uid, m)

def ServerMessage.elsewhereLabelled (m : ServerMessage) : Bool :=
  m.gmailLabels.any fun labels => labels.any fun label =>
    toAsciiLowercase label ∈ ["\\inbox", "\\sent", "\\drafts", "\\trash"]

def flagsFromFetch (uid : ℕ) (m : ServerMessage) : RemoteFlagUpdate :=
  { uid, unread := !m.seen, flagged := m.flagged }

/-- `collect_incoming`, for one answer: the UID counts as seen even if the message is left out. -/
def collectIncoming (allMailArchive : Bool) (lastSeen : ℤ) (incoming : List RemoteFetchedSyncMessage)
    (answer : ℕ × ServerMessage) : ℤ × List RemoteFetchedSyncMessage :=
  let lastSeen := max lastSeen answer.1
  if allMailArchive && answer.2.elsewhereLabelled then (lastSeen, incoming)
  else
    let flags := flagsFromFetch answer.1 answer.2
    (lastSeen, incoming ++
      [{ uid := answer.1
         source := answer.2.source
         internalDate := answer.2.internalDate
         unread := flags.unread
         flagged := flags.flagged }])

def collectAll (allMailArchive : Bool) : ℤ → List RemoteFetchedSyncMessage →
    List (ℕ × ServerMessage) → ℤ × List RemoteFetchedSyncMessage
  | lastSeen, incoming, [] => (lastSeen, incoming)
  | lastSeen, incoming, answer :: answers =>
    let (lastSeen, incoming) := collectIncoming allMailArchive lastSeen incoming answer
    collectAll allMailArchive lastSeen incoming answers

def Selection.changedSince (s : Selection) (cursor : SyncCursor) : Option ℕ :=
  (cursor.highestModseq.filter fun _ => s.highestModseq.isSome && s.mode == .condstore).bind parseU64

/-- The answers to the checks of the cached identifiers, 500 at a time; each check is a command of
its own. -/
def checkedMessages (box : ℕ → UidMailbox ServerMessage) (cachedUids : List ℕ) :
    List (ℕ × ServerMessage) :=
  ((cachedUids.toChunks 500).zipIdx.map fun (chunk, i) =>
    fetchedMessages (box i) ((box i).among chunk)).flatten

def changedMessages (box : UidMailbox ServerMessage) (cachedUids : List ℕ) (since : ℕ) :
    List (ℕ × ServerMessage) :=
  match cachedUids.min? with
  | none => []
  | some least => (fetchedMessages box (box.uidFrom least)).filter fun answer =>
      since < answer.2.modseq

def flagUpdates (answers : List (ℕ × ServerMessage)) : List RemoteFlagUpdate :=
  answers.map fun answer => flagsFromFetch answer.1 answer.2

def Selection.batch (s : Selection) (moment : ℕ → MailServer) (request : RemoteSyncRequest) :
    RemoteSyncBatch :=
  let box := fun i => (moment i).box s.folder.path
  let (lastSeenUid, incoming) := collectAll s.allMailArchive s.incrementalUid []
    (fetchedMessages (box 2) (s.range (box 2)))
  let cachedUids := if s.uidValidityChanged then [] else request.cachedUids
  let checked := checkedMessages (fun i => box (3 + i)) cachedUids
  { mailbox := s.folder.path
    mailboxRole := s.role
    uidValidity := s.uidValidity
    highestModseq := s.highestModseq
    uidValidityChanged := s.uidValidityChanged
    lastSeenUid
    incoming
    removedUids := cachedUids.filter fun uid => uid ∉ checked.map Prod.fst
    flagUpdates :=
      match s.changedSince request.cursor with
      | none => flagUpdates checked
      | some since =>
        flagUpdates (changedMessages (box (3 + (cachedUids.toChunks 500).length)) cachedUids since)
    folders := (moment 0).folders }

def fetchIncremental [Platform] (moment : ℕ → MailServer) (request : RemoteSyncRequest) :
    Except String RemoteSyncBatch :=
  (selectMailbox moment request).map fun s => s.batch moment request

variable {box : UidMailbox ServerMessage} {uids : List ℕ} {uid : ℕ}

theorem mem_fetchedMessages {m : ServerMessage} :
    (uid, m) ∈ fetchedMessages box uids ↔ uid ∈ uids ∧ box.fetch uid = some m := by
  simp only [fetchedMessages, List.mem_filterMap, Option.map_eq_some_iff, Prod.mk.injEq]
  constructor
  · rintro ⟨other, hother, _, hfetch, rfl, rfl⟩
    exact ⟨hother, hfetch⟩
  · rintro ⟨huid, hfetch⟩
    exact ⟨uid, huid, m, hfetch, rfl, rfl⟩

theorem collectAll_lastSeen (allMailArchive : Bool) (lastSeen : ℤ)
    (incoming : List RemoteFetchedSyncMessage) (answers : List (ℕ × ServerMessage)) :
    lastSeen ≤ (collectAll allMailArchive lastSeen incoming answers).1 ∧
      (∀ answer ∈ answers, (answer.1 : ℤ) ≤ (collectAll allMailArchive lastSeen incoming answers).1) ∧
      ((collectAll allMailArchive lastSeen incoming answers).1 = lastSeen ∨
        ∃ answer ∈ answers, (collectAll allMailArchive lastSeen incoming answers).1 = answer.1) := by
  induction answers generalizing lastSeen incoming with
  | nil => simp [collectAll]
  | cons answer answers ih =>
    have hfirst : (collectIncoming allMailArchive lastSeen incoming answer).1 =
        max lastSeen answer.1 := by
      unfold collectIncoming
      split_ifs <;> rfl
    simp only [collectAll]
    obtain ⟨hle, hall, hfrom⟩ := ih (collectIncoming allMailArchive lastSeen incoming answer).1
      (collectIncoming allMailArchive lastSeen incoming answer).2
    rw [hfirst] at hle hall hfrom
    simp only [hfirst]
    refine ⟨by omega, ?_, ?_⟩
    · intro other hother
      rcases List.mem_cons.mp hother with rfl | hrest
      · omega
      · exact hall other hrest
    · rcases hfrom with hmax | ⟨other, hother, heq⟩
      · rcases max_choice lastSeen (answer.1 : ℤ) with hkept | htaken
        · exact Or.inl (hmax.trans hkept)
        · exact Or.inr ⟨answer, List.mem_cons_self, hmax.trans htaken⟩
      · exact Or.inr ⟨other, List.mem_cons_of_mem _ hother, heq⟩

theorem mem_collectAll {allMailArchive : Bool} {lastSeen : ℤ}
    {incoming : List RemoteFetchedSyncMessage} {answers : List (ℕ × ServerMessage)}
    {f : RemoteFetchedSyncMessage} :
    f ∈ (collectAll allMailArchive lastSeen incoming answers).2 ↔ f ∈ incoming ∨
      ∃ answer ∈ answers, (allMailArchive && answer.2.elsewhereLabelled) = false ∧
        f = ⟨answer.1, answer.2.source, answer.2.internalDate, !answer.2.seen, answer.2.flagged⟩ := by
  induction answers generalizing lastSeen incoming with
  | nil => simp [collectAll]
  | cons answer answers ih =>
    simp only [collectAll, ih, collectIncoming, List.exists_mem_cons_iff]
    split_ifs with hlabelled
    · simp [hlabelled]
    · simp [Bool.eq_false_iff.mpr hlabelled, flagsFromFetch, or_assoc]

variable {s : Selection}

theorem uids_of_range (h : uid ∈ s.range box) : uid ∈ box.uids := by
  unfold Selection.range at h
  split_ifs at h
  · exact UidMailbox.uids_of_seqFrom h
  · exact UidMailbox.uids_of_uidFrom h
  · cases h

def Selection.Fetches (s : Selection) : Prop :=
  0 < s.messages ∧ s.incrementalUid = 0 ∨
    0 < s.incrementalUid ∧ s.uidNext.any (nextUid s.incrementalUid < ·) = true

theorem fetches_of_range (h : uid ∈ s.range box) : s.Fetches := by
  unfold Selection.range at h
  split_ifs at h with hall hnew
  · exact Or.inl hall
  · exact Or.inr hnew
  · cases h

theorem mem_range (h : s.Fetches) (hwindow : s.incrementalUid = 0 → s.messages ≤ 80)
    (huid : uid ∈ box.uids) (hstart : s.incrementalUid < uid) : uid ∈ s.range box := by
  unfold Selection.range
  split_ifs with hall hnew
  · have hfirst : max (s.messages - 79) 1 = 1 := by
      have hsmall := hwindow hall.2
      omega
    rw [hfirst, UidMailbox.seqFrom_one]
    exact huid
  · apply UidMailbox.mem_uidFrom huid
    unfold nextUid
    omega
  · exact absurd h (not_or.mpr ⟨hall, hnew⟩)

theorem exists_ge_of_range (h : s.Fetches) (hstart : s.incrementalUid = 0) (huid : uid ∈ box.uids) :
    ∃ last ∈ s.range box, uid ≤ last := by
  rcases h with hall | ⟨hpos, _⟩
  · unfold Selection.range
    rw [if_pos hall]
    exact UidMailbox.exists_ge_of_seqFrom huid
  · omega

/-- What a selection is made of. -/
structure Selected [Platform] (moment : ℕ → MailServer) (request : RemoteSyncRequest)
    (s : Selection) : Prop where
  resolved : resolveSyncMailbox (moment 0).folders request.target = .ok s.folder
  role : s.role = mailboxRoleFor s.folder.path s.folder.specialUse
  archive : s.allMailArchive = (s.role == "archive" && s.folder.specialUse == some "\\All" &&
    (moment 0).gmailLabels)
  mode : s.mode = incrementalCapabilityMode (moment 0).qresync (moment 0).condstore
  highestModseq : s.highestModseq =
    ((moment 1).mailboxes s.folder.path).highestModseq.map toString
  changed : s.uidValidityChanged = changedUidValidity request.cursor
    (((moment 1).mailboxes s.folder.path).uidValidity.map toString)
  start : s.incrementalUid = if s.uidValidityChanged then 0
    else max (maxUid request.cachedUids) (max request.cursor.lastSeenUid 0).toNat
  messages : s.messages = ((moment 1).box s.folder.path).uids.length
  uidNext : s.uidNext =
    if (moment 1).reportsUidNext then some ((moment 1).box s.folder.path).uidNext else none

theorem selectMailbox_ok [Platform] {moment : ℕ → MailServer} {request : RemoteSyncRequest}
    (h : selectMailbox moment request = .ok s) : Selected moment request s := by
  unfold selectMailbox at h
  split at h
  · cases h
  rename_i folder hresolved
  dsimp only at h
  by_cases hcursor : 2 ^ 32 ≤ request.cursor.lastSeenUid
  · rw [if_pos hcursor] at h
    cases h
  · rw [if_neg hcursor] at h
    cases h
    exact ⟨hresolved, rfl, rfl, rfl, rfl, rfl, rfl, rfl, rfl⟩

theorem Selected.fetches [Platform] {moment : ℕ → MailServer} {request : RemoteSyncRequest}
    (h : Selected moment request s) (hnext : (moment 1).reportsUidNext = true)
    (huid : uid ∈ ((moment 1).box s.folder.path).uids) (hstart : s.incrementalUid < uid) :
    s.Fetches := by
  rcases Nat.eq_zero_or_pos s.incrementalUid with hzero | hpos
  · left
    rw [h.messages]
    exact ⟨List.length_pos_of_mem huid, hzero⟩
  · right
    have hlt := UidMailbox.lt_of_mem_uids huid
    constructor
    · exact hpos
    · rw [h.uidNext, if_pos hnext, Option.any_some]
      apply decide_eq_true
      unfold nextUid
      omega

theorem maxUid_le {bound : ℕ} : maxUid uids ≤ bound ↔ ∀ uid ∈ uids, uid ≤ bound := by
  have hfold : ∀ least, uids.foldl max least ≤ bound ↔
      least ≤ bound ∧ ∀ uid ∈ uids, uid ≤ bound := by
    induction uids with
    | nil => simp
    | cons uid uids ih =>
      intro least
      rw [List.foldl_cons, ih, max_le_iff, List.forall_mem_cons, and_assoc]
  simp [maxUid, hfold]

theorem le_maxUid (h : uid ∈ uids) : uid ≤ maxUid uids :=
  maxUid_le.mp le_rfl uid h

section

variable (s : Selection) (moment : ℕ → MailServer) (request : RemoteSyncRequest)

theorem batch_lastSeenUid :
    (s.incrementalUid : ℤ) ≤ (s.batch moment request).lastSeenUid ∧
      (∀ uid ∈ s.range ((moment 2).box s.folder.path),
        (uid : ℤ) ≤ (s.batch moment request).lastSeenUid) ∧
      ((s.batch moment request).lastSeenUid = s.incrementalUid ∨
        ∃ uid ∈ s.range ((moment 2).box s.folder.path),
          (s.batch moment request).lastSeenUid = uid) := by
  obtain ⟨hle, hall, hfrom⟩ := collectAll_lastSeen s.allMailArchive s.incrementalUid []
    (fetchedMessages ((moment 2).box s.folder.path) (s.range ((moment 2).box s.folder.path)))
  refine ⟨hle, ?_, ?_⟩
  · intro uid huid
    obtain ⟨m, hm⟩ := UidMailbox.exists_fetch (uids_of_range huid)
    exact hall (uid, m) (mem_fetchedMessages.mpr ⟨huid, hm⟩)
  · rcases hfrom with hsame | ⟨answer, hanswer, heq⟩
    · exact Or.inl hsame
    · exact Or.inr ⟨answer.1, (mem_fetchedMessages.mp hanswer).1, heq⟩

variable {s moment request}

theorem mem_batch_incoming {f : RemoteFetchedSyncMessage} :
    f ∈ (s.batch moment request).incoming ↔ ∃ m,
      f.uid ∈ s.range ((moment 2).box s.folder.path) ∧
      ((moment 2).box s.folder.path).fetch f.uid = some m ∧
      (s.allMailArchive && m.elsewhereLabelled) = false ∧
      f = ⟨f.uid, m.source, m.internalDate, !m.seen, m.flagged⟩ := by
  have hbatch : (s.batch moment request).incoming = (collectAll s.allMailArchive s.incrementalUid []
    (fetchedMessages ((moment 2).box s.folder.path)
      (s.range ((moment 2).box s.folder.path)))).2 := rfl
  rw [hbatch, mem_collectAll]
  constructor
  · rintro (hnone | ⟨⟨uid, m⟩, hanswer, hlabels, rfl⟩)
    · cases hnone
    · obtain ⟨huid, hm⟩ := mem_fetchedMessages.mp hanswer
      exact ⟨m, huid, hm, hlabels, rfl⟩
  · rintro ⟨m, huid, hm, hlabels, heq⟩
    exact Or.inr ⟨(f.uid, m), mem_fetchedMessages.mpr ⟨huid, hm⟩, hlabels, heq⟩

end

end IMail
