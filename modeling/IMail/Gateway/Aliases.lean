import IMail.Messages.Reads
import IMail.Text.JsonValue

/-!
# Aliases in the gateway

`list_messages_inner`, `message_detail` and `download_attachment` of `imail-http/src/gateway.rs`.
A developer token is for some accounts of its user. A mailbox that is asked for is the address of
such an account or a Hide-My-Email alias of one at iCloud. The listing of an alias selects by the
column `to_json` in SQL; the detail of a message looks for an alias in the same value again.
-/

namespace IMail

open Text Relational

structure AppleHmeAddress where
  accountId : String
  userId : String
  anonymousId : String
  email : String
  active : Bool := true
  createdAt : Option String := none
  deriving DecidableEq, Repr

/-- `toJson` is the column `to_json` of a message. -/
structure GatewayDb extends Db where
  bodyIndex : BodyIndex
  toJson : String → Json
  hmeAddresses : List AppleHmeAddress := []

structure DeveloperToken where
  ownerId : String
  accountIds : List String
  deriving DecidableEq, Repr

/-- The text that `json_extract` gives for a number, a boolean, an array or an object. -/
class SqlJson where
  text : Json → String

/-- The rows of `json_each`. -/
def jsonEach : Json → List Json
  | .arr items => items
  | .obj members => members.map Prod.snd
  | value => [value]

section

variable [SqlJson]

/-- `CASE type WHEN 'object' THEN json_extract(value, '$.address') WHEN 'text' THEN value ELSE ''
END`, where none is NULL -/
def recipientText : Json → Option String
  | .obj members =>
    match members.lookup "address" with
    | none | some .null => none
    | some (.str address) => some address
    | some value => some (SqlJson.text value)
  | .str address => some address
  | _ => some ""

/-- The `EXISTS` of `query_gateway_messages` -/
def hasRecipientRow (recipients : Json) (recipient : String) : Bool :=
  (jsonEach recipients).any fun value => (recipientText value).any fun text => sameLower text recipient

end

/-- `matches` in `message_has_recipient` -/
def isRecipient (email : String) : Json → Bool
  | .str address => eqIgnoreAsciiCase address email
  | .obj members =>
    ((members.lookup "address").bind Json.asString).any fun address => eqIgnoreAsciiCase address email
  | _ => false

def messageHasRecipient (recipients : Json) (email : String) : Bool :=
  match recipients with
  | .arr items => items.any (isRecipient email)
  | value => isRecipient email value

namespace GatewayDb

variable (db : GatewayDb)

/-- `WHERE user_id = ?1 ORDER BY created_at, id` -/
def listAccounts (userId : String) : List Account :=
  orderBy (fun a : Account => toLex (a.createdAt, a.id))
    (db.accounts.filter fun a => a.userId == userId)

/-- `ORDER BY active DESC, created_at DESC, email COLLATE NOCASE` -/
def hmeOrder (h : AppleHmeAddress) : Bool ×ₗ Bool ×ₗ Stringᵒᵈ ×ₗ String :=
  toLex (!h.active, toLex (h.createdAt.isNone, toLex (OrderDual.toDual (h.createdAt.getD ""),
    toAsciiLowercase h.email)))

def appleHmeAddresses (userId accountId : String) : List AppleHmeAddress :=
  orderBy hmeOrder
    (db.hmeAddresses.filter fun h => h.accountId == accountId && h.userId == userId)

end GatewayDb

inductive GatewayError
  | invalid
  | storage
  | mailbox
  | message
  | attachment
  deriving DecidableEq, Repr

/-- `valid_email` of the gateway -/
def validMailbox (value : String) : Bool :=
  let value := trim value
  match rsplitOnceList '@' value.toList with
  | none => false
  | some (localPart, domain) =>
    !localPart.isEmpty && !domain.isEmpty && domain.contains '.' && domain.head? != some '.' &&
      domain.getLast? != some '.' && !value.toList.any isWhitespace && value.utf8ByteSize ≤ 320

/-- `ValidatedQuery`, with the mailbox as it is asked for -/
structure GatewayListInput where
  filters : Option SearchFilters := none
  mailbox : Option String := none
  limit : ℕ := 25
  cursor : Option MessageCursor := none
  mailboxRole : Option String := none
  unread : Option Bool := none
  since : Option String := none
  before : Option String := none
  text : Option String := none
  deriving DecidableEq, Repr

/-- The accounts to read, the alias to look for, and the address to report for an account. -/
structure ResolvedMailbox where
  accountIds : List String
  recipient : Option String := none
  publicMailbox : Option (String × String) := none
  deriving DecidableEq, Repr

def GatewayListInput.query (input : GatewayListInput) (resolved : ResolvedMailbox) :
    GatewayMessageQuery where
  filters := input.filters
  accountIds := resolved.accountIds
  recipient := resolved.recipient
  mailboxRole := input.mailboxRole
  unread := input.unread
  since := input.since
  before := input.before
  text := input.text
  cursor := input.cursor
  limit := input.limit

/-- `message_summary` -/
structure GatewaySummary where
  id : String
  accountEmail : String
  folder : String
  mailboxRole : String
  sender : MailAddressView
  recipients : Json
  subject : String
  preview : String
  date : String
  unread : Bool
  flagged : Bool
  hasAttachments : Bool
  attachments : List ParsedAttachmentView
  labels : List String

def isIcloud (account : Account) : Bool := eqIgnoreAsciiCase account.provider "icloud"

namespace GatewayDb

variable (db : GatewayDb)

def resolveAlias (token : DeveloperToken) (mailbox : String) : Option (String × String) :=
  (db.listAccounts token.ownerId).findSome? fun account =>
    if isIcloud account && token.accountIds.contains account.id then
      ((db.appleHmeAddresses token.ownerId account.id).find? fun h =>
        eqIgnoreAsciiCase h.email mailbox).map fun h => (account.id, h.email)
    else none

def resolveMailbox (token : DeveloperToken) : Option String → Except GatewayError ResolvedMailbox
  | none => .ok { accountIds := token.accountIds }
  | some mailbox =>
    match (db.listAccounts token.ownerId).find? fun account =>
      eqIgnoreAsciiCase account.email mailbox && token.accountIds.contains account.id with
    | some account => .ok { accountIds := [account.id] }
    | none =>
      match db.resolveAlias token mailbox with
      | none => .error .mailbox
      | some (accountId, address) =>
        .ok ⟨[accountId], some address, some (accountId, address)⟩

def summary (m : Message) (accountEmail : String) : GatewaySummary where
  id := m.id
  accountEmail := accountEmail
  folder := m.mailbox
  mailboxRole := m.mailboxRole
  sender := m.sender
  recipients := db.toJson m.id
  subject := m.subject
  preview := m.preview
  date := m.date
  unread := m.unread
  flagged := m.flagged
  hasAttachments := m.hasAttachments
  attachments := m.attachments
  labels := m.labels

/-- `email_by_id` -/
def emailById (token : DeveloperToken) (publicMailbox : Option (String × String))
    (accountId : String) : Option String :=
  match publicMailbox.filter fun p => p.1 == accountId with
  | some (_, address) => some address
  | none => ((db.listAccounts token.ownerId).find? fun a => a.id == accountId).map Account.email

theorem emailById_self (token : DeveloperToken) (accountId address : String) :
    db.emailById token (some (accountId, address)) accountId = some address := by
  rw [emailById, Option.filter_some, if_pos (by simp)]

section

variable [Platform] [Sqlite] [SqlJson]

/-- The clauses of a query but for the cursor; the recipient is looked for in the column. -/
def storedClauses (userId : String) (query : GatewayMessageQuery) (now : String) : List Clause :=
  { query with recipient := none }.clauses db.bodyIndex userId now ++
    (nonBlank query.recipient).toList.map fun recipient _ (m : Message) =>
      hasRecipientRow (db.toJson m.id) recipient

def queryMessages (userId : String) (query : GatewayMessageQuery) (now : String) :
    Except AuthStoreError GatewayMessagePage :=
  if query.accountIds.isEmpty then .ok ⟨[], false⟩
  else if query.filters.any fun filters => filters.validate.isOk = false then
    .error .invalidContentData
  else
    let clauses := db.storedClauses userId query now ++ query.cursor.toList.map MessageCursor.clause
    let rows := pageRows (selectMessages db.toDb clauses) (query.limit + 1) 0
    .ok ⟨rows.take query.limit, query.limit < rows.length⟩

/-- The summaries of `list_messages_inner`, and whether there are more. -/
def listMessages (token : DeveloperToken) (input : GatewayListInput) (now : String) :
    Except GatewayError (List GatewaySummary × Bool) :=
  if input.mailbox.any fun mailbox => !validMailbox mailbox then .error .invalid
  else if input.limit < 1 || 100 < input.limit then .error .invalid
  else
    match db.resolveMailbox token input.mailbox with
    | .error e => .error e
    | .ok resolved =>
      match db.queryMessages token.ownerId (input.query resolved) now with
      | .error _ => .error .storage
      | .ok page =>
        .ok (page.messages.filterMap fun m =>
          (db.emailById token resolved.publicMailbox m.accountId).map (db.summary m), page.hasMore)

end

structure GatewayDetail where
  summary : GatewaySummary
  text : String
  html : Option String

def permittedMessage (token : DeveloperToken) (messageId : String) : Option Message :=
  (message db.toDb token.ownerId messageId).filter fun m => token.accountIds.contains m.accountId

/-- `AccountRepository::account` -/
def ownedAccount (userId accountId : String) : Option Account :=
  db.accounts.find? fun a => a.id == accountId && a.userId == userId

/-- The address that the detail of a message reports. -/
def publicMailbox (token : DeveloperToken) (account : Account) (m : Message) : String :=
  if isIcloud account then
    (((db.appleHmeAddresses token.ownerId account.id).find? fun h =>
      messageHasRecipient (db.toJson m.id) h.email).map AppleHmeAddress.email).getD account.email
  else account.email

def messageDetail (token : DeveloperToken) (messageId : String) :
    Except GatewayError GatewayDetail :=
  if messageId.isEmpty || 200 < messageId.length then .error .invalid
  else
    match db.permittedMessage token messageId with
    | none => .error .message
    | some m =>
      match db.ownedAccount token.ownerId m.accountId with
      | none => .error .message
      | some account =>
        .ok ⟨db.summary m (db.publicMailbox token account m), m.text,
          m.html.filter fun html => !html.isEmpty⟩

/-- The attachment of a message, as it is in the cache or on the server (`content`). -/
def downloadAttachment {β : Type} (content : Message → ℕ → Option β) (token : DeveloperToken)
    (messageId : String) (index : ℕ) : Except GatewayError β :=
  match db.permittedMessage token messageId with
  | none => .error .attachment
  | some m =>
    if m.attachments.length ≤ index then .error .attachment
    else
      match (message db.toDb token.ownerId m.id).bind fun found => content found index with
      | none => .error .storage
      | some attachment => .ok attachment

variable {db}

variable {a : Account}

theorem mem_listAccounts {userId : String} :
    a ∈ db.listAccounts userId ↔ a ∈ db.accounts ∧ a.userId = userId := by
  rw [listAccounts, mem_orderBy, List.mem_filter, beq_iff_eq]

variable {token : DeveloperToken}

variable {mailbox : String} {resolved : ResolvedMailbox}

theorem resolveMailbox_alias {accountId address : String}
    (h : db.resolveMailbox token (some mailbox) = .ok resolved)
    (halias : resolved.publicMailbox = some (accountId, address)) :
    resolved = ⟨[accountId], some address, some (accountId, address)⟩ ∧
      accountId ∈ token.accountIds ∧ ∃ a ∈ db.accounts, a.id = accountId ∧
        a.userId = token.ownerId ∧ isIcloud a = true ∧
        ∃ h ∈ db.appleHmeAddresses token.ownerId accountId, h.email = address := by
  simp only [resolveMailbox] at h
  split at h
  · cases h
    cases halias
  · split at h
    · cases h
    · rename_i id found hfound
      cases h
      cases halias
      obtain ⟨a, ha, hsome⟩ := List.exists_of_findSome?_eq_some hfound
      split_ifs at hsome with hpermitted
      obtain ⟨hicloud, htoken⟩ := Bool.and_eq_true_iff.mp hpermitted
      obtain ⟨hme, hhme, heq⟩ := Option.map_eq_some_iff.mp hsome
      cases heq
      obtain ⟨hmem, howner⟩ := mem_listAccounts.mp ha
      exact ⟨rfl, by simpa using htoken, a, hmem, rfl, howner, hicloud, hme,
        List.mem_of_find?_eq_some hhme, rfl⟩

theorem resolveMailbox_permitted {mailbox : Option String}
    (h : db.resolveMailbox token mailbox = .ok resolved) :
    ∀ id ∈ resolved.accountIds, id ∈ token.accountIds := by
  cases mailbox with
  | none =>
    cases h
    exact fun _ hid => hid
  | some mailbox =>
    cases hpublic : resolved.publicMailbox with
    | some found =>
      obtain ⟨rfl, htoken, _⟩ := resolveMailbox_alias h hpublic
      intro id hid
      rw [List.mem_singleton.mp hid]
      exact htoken
    | none =>
      simp only [resolveMailbox] at h
      split at h
      · rename_i account hfound
        cases h
        have hpermitted := List.find?_some hfound
        rw [Bool.and_eq_true] at hpermitted
        intro id hid
        rw [List.mem_singleton.mp hid]
        simpa using hpermitted.2
      · split at h
        · cases h
        · cases h
          cases hpublic

section

variable [Platform] [Sqlite] [SqlJson]

variable {now : String}

variable {userId : String} {query : GatewayMessageQuery} {input : GatewayListInput}
  {summaries : List GatewaySummary} {more : Bool}

omit [Platform] in
theorem mem_storedClauses {m : Message}
    (h : ∀ c ∈ db.storedClauses userId query now, c a m = true) :
    a.userId = userId ∧ m.accountId ∈ query.accountIds ∧
      ∀ recipient ∈ nonBlank query.recipient, hasRecipientRow (db.toJson m.id) recipient = true := by
  refine ⟨?_, ?_, ?_⟩
  · have howned := h (ownedBy userId) (by simp [storedClauses, GatewayMessageQuery.clauses])
    simpa [ownedBy] using howned
  · have hin := h (fun _ m => query.accountIds.contains m.accountId)
      (by simp [storedClauses, GatewayMessageQuery.clauses])
    simpa using hin
  · intro recipient hrecipient
    apply h fun _ m => hasRecipientRow (db.toJson m.id) recipient
    apply List.mem_append_right
    exact List.mem_map.mpr ⟨recipient, Option.mem_toList.mpr hrecipient, rfl⟩

theorem queryMessages_ok {page : GatewayMessagePage}
    (h : db.queryMessages userId query now = .ok page) {m : Message} (hm : m ∈ page.messages) :
    m ∈ db.messages ∧ (∃ a, db.account m.accountId = some a ∧
      a.userId = userId) ∧ m.accountId ∈ query.accountIds ∧
      ∀ recipient ∈ nonBlank query.recipient, hasRecipientRow (db.toJson m.id) recipient = true := by
  unfold queryMessages at h
  split_ifs at h
  · cases h
    cases hm
  · cases h
    have hrows := List.mem_of_mem_take (List.mem_of_mem_take hm)
    rw [List.drop_zero] at hrows
    obtain ⟨hmem, a, ha, hall⟩ := mem_wholeResult.mp hrows
    have hclauses : ∀ c ∈ db.storedClauses userId query now, c a m = true :=
      fun c hc => hall c (List.mem_append_left _ hc)
    obtain ⟨howner, hin, hfound⟩ := mem_storedClauses hclauses
    exact ⟨hmem, ⟨a, ha, howner⟩, hin, hfound⟩

variable (h : db.listMessages token input now = .ok (summaries, more))
include h

theorem listMessages_ok : ∃ resolved page, db.resolveMailbox token input.mailbox = .ok resolved ∧
      db.queryMessages token.ownerId (input.query resolved) now = .ok page ∧
      summaries = page.messages.filterMap fun m =>
        (db.emailById token resolved.publicMailbox m.accountId).map (db.summary m) := by
  unfold listMessages at h
  split_ifs at h
  split at h
  · cases h
  · rename_i resolved hresolved
    split at h
    · cases h
    · rename_i page hpage
      cases h
      exact ⟨resolved, page, hresolved, hpage, rfl⟩

theorem listMessages_permitted {entry : GatewaySummary} (hentry : entry ∈ summaries) :
    ∃ m ∈ db.messages, m.accountId ∈ token.accountIds ∧
      entry = db.summary m entry.accountEmail := by
  obtain ⟨resolved, page, hresolved, hpage, rfl⟩ := listMessages_ok h
  obtain ⟨m, hm, hsome⟩ := List.mem_filterMap.mp hentry
  obtain ⟨email, _, rfl⟩ := Option.map_eq_some_iff.mp hsome
  obtain ⟨hmem, _, hin, _⟩ := queryMessages_ok hpage hm
  refine ⟨m, hmem, ?_, rfl⟩
  exact resolveMailbox_permitted hresolved _ hin

end

theorem permittedMessage_some {messageId : String} {m : Message}
    (h : db.permittedMessage token messageId = some m) :
    m ∈ db.messages ∧ m.id = messageId ∧ m.accountId ∈ token.accountIds ∧
      message db.toDb token.ownerId messageId = some m := by
  obtain ⟨hmessage, hpermitted⟩ := Option.filter_eq_some_iff.mp h
  have hmem := List.mem_of_mem_head? hmessage
  unfold selectMessages at hmem
  obtain ⟨hm, hclauses⟩ := List.mem_filter.mp hmem
  obtain ⟨a, _, hall⟩ := Option.any_eq_true _ _ |>.mp hclauses
  rw [List.all_cons, Bool.and_eq_true] at hall
  have hid : m.id = messageId := by simpa using hall.1
  exact ⟨hm, hid, by simpa using hpermitted, hmessage⟩

section

variable (haccounts : UniqueBy (fun a => some a.id) db.accounts) (ha : a ∈ db.accounts)
include haccounts ha

theorem find?_account {p : Account → Bool} (hp : p a = true)
    (honly : ∀ b, p b = true → b.id = a.id) : db.accounts.find? p = some a := by
  cases hfound : db.accounts.find? p with
  | none => exact absurd hp (List.find?_eq_none.mp hfound a ha)
  | some b =>
    have hb := List.mem_of_find?_eq_some hfound
    have hid := honly b (List.find?_some hfound)
    rw [haccounts.eq_of_mem hb ha (congrArg some hid) rfl]

theorem account_of_id {id : String} (hid : a.id = id) : db.account id = some a := by
  apply find?_account haccounts ha
  · simpa using hid
  · intro b hb
    rw [hid]
    simpa using hb

end

section

variable (hmessages : UniqueBy (fun m => some m.id) db.messages)
  (haccounts : UniqueBy (fun a => some a.id) db.accounts)
variable {m : Message} (hm : m ∈ db.messages)
include hm

include hmessages

theorem permittedMessage_of_mem
    (ha : db.account m.accountId = some a) (howner : a.userId = token.ownerId)
    (htoken : m.accountId ∈ token.accountIds) : db.permittedMessage token m.id = some m := by
  have hselected : m ∈ selectMessages db.toDb
      [fun _ n => n.id == m.id, ownedBy token.ownerId] := by
    apply List.mem_filter.mpr
    refine ⟨hm, ?_⟩
    rw [ha]
    simp [ownedBy, howner]
  have hmessage : message db.toDb token.ownerId m.id = some m := by
    cases hhead : message db.toDb token.ownerId m.id with
    | none =>
      rw [List.head?_eq_none_iff.mp hhead] at hselected
      cases hselected
    | some found =>
      have hfound := List.mem_of_mem_head? hhead
      obtain ⟨hfoundmem, hclauses⟩ := List.mem_filter.mp hfound
      obtain ⟨_, _, hall⟩ := Option.any_eq_true _ _ |>.mp hclauses
      rw [List.all_cons, Bool.and_eq_true] at hall
      have hid : found.id = m.id := by simpa using hall.1
      rw [hmessages.eq_of_mem hfoundmem hm (congrArg some hid) rfl]
  unfold permittedMessage
  rw [hmessage, Option.filter_some, if_pos (by simpa using htoken)]

include haccounts

theorem messageDetail_of_mem (ha : a ∈ db.accounts)
    (haid : a.id = m.accountId) (howner : a.userId = token.ownerId)
    (htoken : m.accountId ∈ token.accountIds) (hid : m.id.isEmpty = false ∧ m.id.length ≤ 200) :
    db.messageDetail token m.id = .ok ⟨db.summary m (db.publicMailbox token a m), m.text,
      m.html.filter fun html => !html.isEmpty⟩ := by
  have howned : db.ownedAccount token.ownerId m.accountId = some a := by
    apply find?_account haccounts ha
    · simp [haid, howner]
    · intro b hb
      rw [Bool.and_eq_true] at hb
      rw [haid]
      simpa using hb.1
  unfold messageDetail
  rw [if_neg (by simp [hid.1, hid.2]), permittedMessage_of_mem hmessages hm (account_of_id haccounts ha haid)
    howner htoken]
  dsimp only
  rw [howned]

end

section

variable [Platform] [Sqlite] [SqlJson]

/-- The address is one of those that the message was sent to, up to ASCII case. -/
def SentTo (m : Message) (address : String) : Prop :=
  ∃ r ∈ m.recipients, r.address.toList.map asciiLower = address.toList.map asciiLower

/-- What is asked of the gateway for a mailbox that is an alias. -/
structure StaysWithinAlias (db : GatewayDb) (token : DeveloperToken) (mailbox : String)
    (account : Account) (address : String) : Prop where
  /-- The messages listed are of the account, sent to the alias and reported under it; the detail
  of one reports an alias that it was sent to, and not the address of the account. -/
  listed : ∀ input now summaries more, input.mailbox = some mailbox →
    db.listMessages token input now = .ok (summaries, more) → ∀ entry ∈ summaries,
      ∃ m ∈ db.messages, m.accountId = account.id ∧ entry = db.summary m address ∧
        SentTo m address ∧ ∃ detail, db.messageDetail token m.id = .ok detail ∧
          (∃ h ∈ db.hmeAddresses, h.accountId = account.id ∧
            h.email = detail.summary.accountEmail) ∧
          SentTo m detail.summary.accountEmail ∧ detail.summary.accountEmail.toList.map asciiLower ≠
            account.email.toList.map asciiLower
  listing : ∀ input now summaries more, db.listMessages token input now = .ok (summaries, more) →
    ∀ entry ∈ summaries, ∃ m ∈ db.messages, m.accountId ∈ token.accountIds ∧
      entry = db.summary m entry.accountEmail
  detail : ∀ messageId detail, db.messageDetail token messageId = .ok detail →
    ∃ m ∈ db.messages, m.accountId ∈ token.accountIds ∧ m.text = detail.text ∧
      detail.summary = db.summary m detail.summary.accountEmail
  attachment : ∀ (content : Message → ℕ → Option (List UInt8)) messageId index found,
    db.downloadAttachment content token messageId index = .ok found →
    ∃ m ∈ db.messages, m.accountId ∈ token.accountIds ∧ content m index = some found

/-- `serde_json::to_value` of the recipients, which every writer stores. -/
def recipientsJson (recipients : List MailAddressView) : Json :=
  .arr (recipients.map fun r => .obj [("name", .str r.name), ("address", .str r.address)])

/-- What the writers store: the recipients as an array of objects, ids that a detail can be asked
for, and aliases without blanks around them, none of which is the address of its account. -/
structure Written (db : GatewayDb) : Prop where
  recipients : ∀ m ∈ db.messages, db.toJson m.id = recipientsJson m.recipients
  ids : ∀ m ∈ db.messages, m.id ≠ "" ∧ m.id.length ≤ 200
  aliases : ∀ h ∈ db.hmeAddresses, h.email ≠ "" ∧ trim h.email = h.email
  own : ∀ h ∈ db.hmeAddresses, ∀ a ∈ db.accounts, a.id = h.accountId →
    h.email.toList.map asciiLower ≠ a.email.toList.map asciiLower

variable {token : DeveloperToken}

variable {messageId address : String} {account : Account}

omit [Platform] [Sqlite] [SqlJson] in
theorem messageDetail_permitted {detail : GatewayDetail}
    (h : db.messageDetail token messageId = .ok detail) :
    ∃ m a, db.permittedMessage token messageId = some m ∧
      db.ownedAccount token.ownerId m.accountId = some a ∧
      detail.summary = db.summary m (db.publicMailbox token a m) ∧ detail.text = m.text ∧
      messageId.isEmpty = false ∧ messageId.length ≤ 200 := by
  unfold messageDetail at h
  split_ifs at h with hid
  split at h
  · cases h
  · rename_i m hm
    split at h
    · cases h
    · rename_i a ha
      cases h
      rw [Bool.or_eq_true, not_or] at hid
      exact ⟨m, a, hm, ha, rfl, rfl, by simpa using hid.1, by simpa using hid.2⟩

omit [Platform] [Sqlite] [SqlJson] in
theorem downloadAttachment_permitted {β : Type} {content : Message → ℕ → Option β} {index : ℕ}
    {found : β} (h : db.downloadAttachment content token messageId index = .ok found) :
    ∃ m ∈ db.messages, m.accountId ∈ token.accountIds ∧ content m index = some found := by
  unfold downloadAttachment at h
  split at h
  · cases h
  · rename_i m hm
    split_ifs at h
    split at h
    · cases h
    · rename_i attachment hattachment
      cases h
      obtain ⟨hmem, hid, htoken, hmessage⟩ := permittedMessage_some hm
      rw [hid, hmessage] at hattachment
      exact ⟨m, hmem, htoken, hattachment⟩

variable {m : Message}

omit [Platform] [Sqlite] [SqlJson] in
theorem publicMailbox_of_recipient (hicloud : isIcloud account = true)
    (halias : ∃ h ∈ db.appleHmeAddresses token.ownerId account.id, h.email = address)
    (hrecipient : messageHasRecipient (db.toJson m.id) address = true) :
    ∃ h, (db.appleHmeAddresses token.ownerId account.id).find? (fun h =>
        messageHasRecipient (db.toJson m.id) h.email) = some h ∧
      db.publicMailbox token account m = h.email := by
  cases hfound : (db.appleHmeAddresses token.ownerId account.id).find? fun h =>
      messageHasRecipient (db.toJson m.id) h.email with
  | none =>
    obtain ⟨h, hmem, rfl⟩ := halias
    exact absurd hrecipient (List.find?_eq_none.mp hfound h hmem)
  | some h =>
    refine ⟨h, rfl, ?_⟩
    rw [publicMailbox, if_pos hicloud, hfound]
    rfl

omit [Platform] [Sqlite] [SqlJson] in
theorem lookup_address (name : Json) (address : String) :
    [("name", name), ("address", .str address)].lookup "address" = some (.str address) := rfl

omit [Platform] [Sqlite] [SqlJson] in
theorem messageHasRecipient_json (address : String) :
    messageHasRecipient (recipientsJson m.recipients) address = true ↔ SentTo m address := by
  simp [messageHasRecipient, recipientsJson, isRecipient, SentTo, eqIgnoreAsciiCase, lookup_address,
    Json.asString]

omit [Platform] [Sqlite] in
theorem hasRecipientRow_json (address : String) :
    hasRecipientRow (recipientsJson m.recipients) address = true ↔ SentTo m address := by
  simp [hasRecipientRow, jsonEach, recipientsJson, recipientText, SentTo, sameLower, lookup_address,
    toAsciiLowercase, ← String.toList_inj]

end

@[reducible] def plainSqlJson : SqlJson where
  text _ := ""

def icloudAccount : Account :=
  { id := "a1", userId := "ann", email := "ann@icloud.com", createdAt := 0, provider := "icloud" }

def icloudDb (hme : String) (recipients : List MailAddressView) (stored : Json) : GatewayDb where
  accounts := [icloudAccount]
  messages := [{ id := "m1", accountId := "a1", mailbox := "INBOX", mailboxRole := "inbox", uid := 1
                 recipients }]
  bodyIndex := ⟨fun _ => 0, []⟩
  toJson := fun _ => stored
  hmeAddresses := [⟨"a1", "ann", "hme1", hme, true, none⟩]

def annToken : DeveloperToken := ⟨"ann", ["a1"]⟩

end GatewayDb

end IMail
