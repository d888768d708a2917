import IMail.Rules.Matching

/-!
# Conditions on messages

The `WHERE` clauses of `query_messages`, `query_gateway_messages` and `append_filters`. A clause
sees a message and its account. The body search goes through the full-text index, which the
messages of all users share.
-/

namespace IMail

open Text

class Sqlite where
  /-- `julianday`, in milliseconds; none for a text that is no date. -/
  julianday : String → Option ℤ
  /-- A text matches an FTS5 expression under the trigram tokenizer. -/
  ftsMatch : String → String → Bool
  /-- The text of `from_json`. -/
  senderJson : MailAddressView → String
  /-- The text of `to_json`, and of `$.cc` in `mail_headers_json`. -/
  addressesJson : List MailAddressView → String

@[reducible] def Sqlite.plain : Sqlite where
  julianday := fun _ => some 0
  ftsMatch := fun phrase text => contains text phrase
  senderJson := fun sender => sender.name ++ sender.address
  addressesJson := fun addresses => String.join (addresses.map (·.address))

/-- `LIKE`: ASCII case does not matter, `%` stands for any text and `_` for a character. -/
def likeList : List Char → List Char → Bool
  | [], s => s.isEmpty
  | '%' :: pattern, s => s.tails.any (likeList pattern)
  | _ :: _, [] => false
  | c :: pattern, d :: s =>
    (c == '_' || asciiLower c == asciiLower d) && likeList pattern s

/-- `column LIKE '%text%'`; the pattern and the column end at a NUL. -/
def likeAround (text column : String) : Bool :=
  likeList (beforeNul ('%' :: (text.toList ++ ['%']))) (beforeNul column.toList)

/-- `lower(a) = lower(b)` -/
def sameLower (a b : String) : Bool := toAsciiLowercase a == toAsciiLowercase b

/-- `instr(lower(column), lower(needle)) > 0` -/
def containsLower (column needle : String) : Bool :=
  contains (toAsciiLowercase column) (toAsciiLowercase needle)

/-- The rows of the full-text index, with the row ids of the messages. -/
structure BodyIndex where
  rowid : String → ℕ
  docs : List (ℕ × String)

/-- `m.rowid IN (SELECT rowid FROM message_body_fts WHERE message_body_fts MATCH ?)` -/
def BodyIndex.hits [Sqlite] (index : BodyIndex) (phrase : String) (m : Message) : Bool :=
  index.docs.any fun (rowid, text) => rowid == index.rowid m.id && Sqlite.ftsMatch phrase text

def quotedPhrase (body : String) : String :=
  String.ofList ('"' :: (body.toList.flatMap fun c => if c = '"' then ['"', '"'] else [c]) ++ ['"'])

structure SearchFilters where
  accountIds : List String := []
  group : Option String := none
  q : Option String := none
  subject : Option String := none
  body : Option String := none
  sender : Option String := none
  recipient : Option String := none
  since : Option String := none
  before : Option String := none
  unread : Option Bool := none
  flagged : Option Bool := none
  hasAttachments : Option Bool := none
  labels : List String := []
  mailboxRole : Option String := none
  mailbox : Option String := none
  mailboxName : Option String := none
  snoozed : Option Bool := none
  deriving DecidableEq, Repr

/-- `valid_mailbox_role` -/
def validMailboxRole (role : String) : Bool :=
  ["inbox", "sent", "archive", "drafts", "trash", "junk", "custom"].contains role

namespace SearchFilters

variable (filters : SearchFilters)

/-- The texts that `validate` bounds, in its order. -/
def boundedTexts : List (Option String × ℕ) :=
  [(filters.group, 200), (filters.q, 200), (filters.subject, 200), (filters.body, 200),
    (filters.sender, 320), (filters.recipient, 320), (filters.mailbox, 500),
    (filters.mailboxName, 500)]

def validate [Platform] : Except String Unit :=
  if filters.boundedTexts.any fun (value, max) => value.any fun v => !validText v max then
    .error "搜索条件为空、过长或包含控制字符"
  else if 100 < filters.accountIds.length || filters.accountIds.any (fun v => !validText v 200) ||
      30 < filters.labels.length || filters.labels.any (fun v => !validText v 80) then
    .error "搜索账户或标签条件无效"
  else if (filters.sender.toList ++ filters.recipient.toList).any fun address =>
      !address.toList.contains '@' || address.toList.any isWhitespace then
    .error "发件人和收件人条件需要完整邮箱地址"
  else if filters.mailboxRole.any fun role => !validMailboxRole role then
    .error "搜索文件夹类型无效"
  else if filters.since.any fun v => (Platform.parseRfc3339 v).isNone then
    .error "开始时间需要 RFC 3339 时间戳"
  else if filters.before.any fun v => (Platform.parseRfc3339 v).isNone then
    .error "结束时间需要 RFC 3339 时间戳"
  else if (filters.since.bind Platform.parseRfc3339).any fun start =>
      (filters.before.bind Platform.parseRfc3339).any fun stop => stop ≤ start then
    .error "结束时间必须晚于开始时间"
  else .ok ()

end SearchFilters

/-- A condition of a `WHERE`, on the joined rows of `accounts` and `messages`. -/
abbrev Clause := Account → Message → Bool

/-- `push_exact` -/
def pushExact (column : Account → Message → String) (value : Option String) : List Clause :=
  value.toList.map fun v a m => column a m == v

/-- The folders of the account give a name to the mailbox of the message. -/
def namesMailbox (name : String) : Clause := fun a m =>
  a.mailboxes.any fun folder => sameLower folder.name name && folder.path == m.mailbox

def snoozedAt (now : String) : Clause := fun _ m => m.snoozedUntil.any (now < ·)

def notSnoozedAt (now : String) : Clause := fun _ m => m.snoozedUntil.all (· ≤ now)

def hasLabel (label : String) : Clause := fun _ m => m.labels.contains label

def sentBy (address : String) : Clause := fun _ m => sameLower m.sender.address address

def sentTo (address : String) : Clause := fun _ m =>
  m.recipients.any fun recipient => sameLower recipient.address address

def comparesDays [Sqlite] (compare : ℤ → ℤ → Bool) (date : String) : Clause := fun _ m =>
  (Sqlite.julianday m.date).any fun received => (Sqlite.julianday date).any (compare received)

/-- `append_filters`, after the filters have been validated. -/
def SearchFilters.clauses [Sqlite] (filters : SearchFilters) (index : BodyIndex) (now : String) :
    List Clause :=
  (if filters.accountIds.isEmpty then [] else
    [fun _ m => filters.accountIds.contains m.accountId]) ++
  pushExact (fun a _ => a.group) filters.group ++
  pushExact (fun _ m => m.mailboxRole) filters.mailboxRole ++
  pushExact (fun _ m => m.mailbox) filters.mailbox ++
  filters.mailboxName.toList.map namesMailbox ++
  (filters.unread.toList.map fun v _ m => m.unread == v) ++
  (filters.flagged.toList.map fun v _ m => m.flagged == v) ++
  (filters.hasAttachments.toList.map fun v _ m => m.hasAttachments == v) ++
  filters.since.toList.map (comparesDays fun received day => day ≤ received) ++
  filters.before.toList.map (comparesDays fun received day => received < day) ++
  (filters.snoozed.toList.map fun v => if v then snoozedAt now else notSnoozedAt now) ++
  filters.labels.map hasLabel ++
  (filters.sender.toList.map fun v => sentBy (trim v)) ++
  (filters.recipient.toList.map fun v _ m =>
    (m.recipients ++ m.headers.cc).any fun r => sameLower r.address (trim v)) ++
  (filters.q.toList.map fun v _ m =>
    -- the JSON of the headers has no `cc` when there is none
    ([m.subject, m.preview, Sqlite.senderJson m.sender, Sqlite.addressesJson m.recipients] ++
      if m.headers.cc.isEmpty then [] else [Sqlite.addressesJson m.headers.cc]).any
        fun column => containsLower column (trim v)) ++
  (filters.subject.toList.map fun v _ m => containsLower m.subject (trim v)) ++
  filters.body.toList.flatMap fun v =>
    (if 3 ≤ (trim v).length then [fun _ m => index.hits (quotedPhrase (trim v)) m] else []) ++
      [fun _ m => containsLower m.text (trim v)]

end IMail
