import IMail.Platform
import IMail.Text.Base64

/-!
# Sync targets

`imail-mail/src/sync.rs` and `imail-core/src/sync_runtime.rs`: the role that a folder
plays, the targets that a policy asks to synchronize, and the schedule of retries.
-/

namespace IMail

open Text

/-- One `&...-` section of modified UTF-7, without its delimiters. -/
def decodeSection (encoded : List Char) : Option (List Char) :=
  if encoded.isEmpty then some ['&']
  else
    (base64DecodeNoPad (encoded.map fun c => if c = ',' then '/' else c)).bind fun bytes =>
      (utf16Units bytes).bind utf16Decode

/-- The loop of `decode_modified_utf7`: `encoding` is the section that is open, if one is. -/
def decodeModifiedUtf7List : Option (List Char) → List Char → Option (List Char)
  | none, [] => some []
  | some _, [] => none
  | none, c :: cs =>
    if c = '&' then decodeModifiedUtf7List (some []) cs
    else (decodeModifiedUtf7List none cs).map (c :: ·)
  | some encoding, c :: cs =>
    if c = '-' then
      (decodeSection encoding).bind fun decoded =>
        (decodeModifiedUtf7List none cs).map (decoded ++ ·)
    else decodeModifiedUtf7List (some (encoding ++ [c])) cs

def decodeModifiedUtf7 (value : String) : Option String :=
  (decodeModifiedUtf7List none value.toList).map String.ofList

example : decodeModifiedUtf7 "&gX6Lrw-" = some "腾讯" := by decide +kernel
example : decodeModifiedUtf7 "A&-B" = some "A&B" := by decide +kernel
example : decodeModifiedUtf7 "broken&name" = none := by decide +kernel

def specialUseRole (specialUse : String) : Option String :=
  if specialUse = "\\sent" then some "sent"
  else if specialUse = "\\archive" ∨ specialUse = "\\all" then some "archive"
  else if specialUse = "\\drafts" then some "drafts"
  else if specialUse = "\\trash" then some "trash"
  else if specialUse = "\\junk" then some "junk"
  else none

def leafRole (leaf : String) : String :=
  if leaf ∈ ["inbox", "收件箱"] then "inbox"
  else if leaf ∈ ["sent", "sent items", "sent messages", "sent mail", "已发送", "已发送邮件",
      "发件箱"] then "sent"
  else if leaf ∈ ["archive", "archives", "all mail", "归档", "归档邮件", "所有邮件"] then
    "archive"
  else if leaf ∈ ["draft", "drafts", "草稿", "草稿箱"] then "drafts"
  else if leaf ∈ ["trash", "bin", "deleted", "deleted items", "已删除", "已删除邮件", "废纸篓",
      "回收站", "垃圾箱"] then "trash"
  else if leaf ∈ ["junk", "spam", "junk mail", "junk email", "bulk mail", "垃圾邮件"] then
    "junk"
  else "custom"

structure SyncTarget where
  mailboxRole : String
  requestedMailbox : Option String
  deriving DecidableEq, Repr

/-- Before its first successful sync a role target keeps its state in a row of this name. -/
def rolePlaceholder (role : String) : String := "@role:" ++ role

/-- `mailbox LIKE '@role:%'` -/
def isPlaceholder (mailbox : String) : Bool := likePrefix "@role:" mailbox

/-- The row that the state of a target without a mailbox of its own is filed under. -/
def targetMailbox (mailbox : Option String) (role : String) : String :=
  mailbox.getD (rolePlaceholder role)

def targetKey (target : SyncTarget) : String :=
  targetMailbox target.requestedMailbox target.mailboxRole

section

variable [Platform]

def mailboxRoleFor (path : String) (specialUse : Option String) : String :=
  match (specialUse.map toAsciiLowercase).bind specialUseRole with
  | some role => role
  | none =>
    let decoded := (decodeModifiedUtf7 path).getD path
    leafRole (Platform.toLowercase
      (trim (lastPiece (fun c => c = '/' || c = '.' || c = '\\') decoded)))

/-- The target of one selected folder: a mailbox of its own only for custom folders. -/
def selectedTarget (requested : String) (folder : SyncMailboxFolder) : SyncTarget :=
  let role := mailboxRoleFor requested folder.specialUse
  { mailboxRole := role
    requestedMailbox := if role = "custom" then some requested else none }

/-- The loop over `selected_mailboxes`, with the targets collected so far. -/
def addSelected (mailboxes : List SyncMailboxFolder) :
    List SyncTarget → List String → List SyncTarget
  | targets, [] => targets
  | targets, requested :: rest =>
    match mailboxes.find? fun f => f.path = requested && f.selectable with
    | none => addSelected mailboxes targets rest
    | some folder =>
      let target := selectedTarget requested folder
      if targets.any fun existing => targetKey existing = targetKey target then
        addSelected mailboxes targets rest
      else addSelected mailboxes (targets ++ [target]) rest

def targetsForPolicy (account : Account) (policy : SyncPolicy) : List SyncTarget :=
  match policy.folderMode with
  | .inbox => [⟨"inbox", none⟩]
  | .standard => [⟨"inbox", none⟩, ⟨"sent", none⟩, ⟨"archive", none⟩]
  | .selected => addSelected account.mailboxes [⟨"inbox", none⟩] policy.selectedMailboxes

/-- `redact_protocol_detail` -/
def redactProtocolDetail (value : String) : String :=
  let safe := trim (Platform.redactNamedSecrets
    (Platform.redactBearer (Platform.redactUriCredentials (collapseWhitespace value))))
  if safe = "" then "服务商拒绝了连接请求" else truncateUtf16 safe 500

structure ClassifiedSyncFailure where
  code : String
  message : String
  authRequired : Bool
  deriving DecidableEq, Repr

/-- The texts by which `classify_sync_failure` knows an authorization failure. -/
def authNeedles : List String :=
  ["authenticationfailed", "authentication failed", "authentication failure",
    "authenticate failed", "auth failed", "authorization failed", "invalid credentials",
    "invalid password", "login fail", "username and password not accepted", "invalid_grant",
    "invalid_token", "expired_token", "credentials have been revoked",
    "token has been expired or revoked", "认证失败", "登录失败", "授权已过期", "凭据不可用",
    "凭据格式无效"]

def classifySyncFailure (detail : String) : ClassifiedSyncFailure :=
  let message := redactProtocolDetail detail
  let normalized := Platform.toLowercase message
  let authRequired := authNeedles.any fun needle => contains normalized needle
  let timeout := contains normalized "timeout" || contains normalized "timed out" ||
    contains normalized "超时"
  let accountMissing := contains normalized "account not found" ||
    contains normalized "邮箱账户不存在"
  { code := if accountMissing then "ACCOUNT_NOT_FOUND"
      else if authRequired then "AUTH_REQUIRED"
      else if timeout then "TIMEOUT"
      else "IMAP_UNAVAILABLE"
    message, authRequired }

end

/-- `RETRY_MINUTES` -/
def retryTable : List ℤ := [1, 5, 15, 30, 60]

/-- `retry_minutes`. A number below one becomes a huge index when cast to `usize` and reads
the last entry, as `saturating_sub` keeps its sign. -/
def retryMinutes (consecutiveFailures : ℤ) : ℤ :=
  let index := consecutiveFailures - 1
  if index < 0 then 60 else retryTable.getD (min index.toNat 4) 60

example : (List.range 7).map (fun k => retryMinutes (k + 1)) = [1, 5, 15, 30, 60, 60, 60] := by
  decide

section

variable [Platform]

def SyncTarget.Canonical (target : SyncTarget) : Prop :=
  target.requestedMailbox.isSome = true ↔ target.mailboxRole = "custom"

theorem selectedTarget_canonical (requested : String) (folder : SyncMailboxFolder) :
    (selectedTarget requested folder).Canonical := by
  simp only [SyncTarget.Canonical, selectedTarget]
  split_ifs with hrole <;> simp [hrole]

theorem addSelected_forall {P : SyncTarget → Prop} {mailboxes : List SyncMailboxFolder}
    (hP : ∀ requested folder, P (selectedTarget requested folder))
    (targets : List SyncTarget) (selected : List String) (ht : ∀ t ∈ targets, P t) :
    ∀ t ∈ addSelected mailboxes targets selected, P t := by
  induction selected generalizing targets with
  | nil => simpa [addSelected] using ht
  | cons requested rest ih =>
    simp only [addSelected]
    split
    · exact ih targets ht
    · split_ifs
      · exact ih targets ht
      · apply ih
        intro t hmem
        rcases List.mem_append.mp hmem with hmem | hmem
        · exact ht t hmem
        · rw [List.mem_singleton.mp hmem]
          exact hP _ _

theorem targetsForPolicy_canonical (account : Account) (policy : SyncPolicy) :
    ∀ t ∈ targetsForPolicy account policy, t.Canonical := by
  intro t ht
  simp only [targetsForPolicy] at ht
  split at ht
  · simp only [List.mem_singleton] at ht
    subst ht
    simp [SyncTarget.Canonical]
  · simp only [List.mem_cons, List.not_mem_nil, or_false] at ht
    rcases ht with rfl | rfl | rfl <;> simp [SyncTarget.Canonical]
  · refine addSelected_forall (P := SyncTarget.Canonical) selectedTarget_canonical _ _ ?_ t ht
    simp [SyncTarget.Canonical]

end

end IMail
