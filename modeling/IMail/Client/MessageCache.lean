import IMail.Sync.ChangeList

/-!
# The message cache of the client

`message-cache.ts`: which messages a query of the client matches, and how a page and a list of
changes are merged into the messages shown.
-/

namespace IMail

open Text Relational

/-- The function of the browser that depends on its language. -/
class Browser where
  toLocaleLowerCase : String → String

@[reducible] def plainBrowser : Browser := ⟨toAsciiLowercase⟩

/-- `URLSearchParams` -/
abbrev QueryParams := List (String × String)

namespace QueryParams

def get (params : QueryParams) (name : String) : Option String := params.lookup name

/-- A parameter that is there and not the empty text, which counts as false. -/
def given (params : QueryParams) (name : String) : Option String :=
  (params.get name).filter fun value => value ≠ ""

end QueryParams

def isJsWhitespace (c : Char) : Bool :=
  (isWhitespace c && c.toNat != 0x85) || c.toNat == 0xFEFF

/-- `String.prototype.trim` -/
def jsTrim (s : String) : String :=
  String.ofList
    ((s.toList.dropWhile isJsWhitespace).reverse.dropWhile isJsWhitespace).reverse

section

variable [Browser]

def searchable (m : Message) : String :=
  Browser.toLocaleLowerCase ("\n".intercalate ([m.subject, m.preview, m.sender.name,
    m.sender.address] ++ m.recipients.flatMap fun recipient => [recipient.name, recipient.address]))

def snoozedUntilAfter (m : Message) (now : String) : Bool :=
  m.snoozedUntil.any fun deadline => deadline ≠ "" && now < deadline

def messageMatchesQuery (m : Message) (params : QueryParams) (accounts : List Account)
    (now : String) : Bool :=
  let account := accounts.find? fun a => a.id == m.accountId
  let sameAddress (address wanted : String) : Bool :=
    Browser.toLocaleLowerCase (jsTrim address) == Browser.toLocaleLowerCase wanted
  (params.given "accountId").all (fun id => id == m.accountId) &&
  (params.given "group").all (fun group => account.any fun a => a.group == group) &&
  (params.given "mailboxRole").all (fun role => role == m.mailboxRole) &&
  (params.given "mailbox").all (fun mailbox => mailbox == m.mailbox) &&
  (((params.get "mailboxName").map Browser.toLocaleLowerCase).filter fun name => name ≠ "").all
    (fun name => account.any fun a => a.mailboxes.any fun folder =>
      Browser.toLocaleLowerCase folder.name == name && folder.path == m.mailbox) &&
  (params.get "unread" != some "true" || m.unread) &&
  (params.get "flagged" != some "true" || m.flagged) &&
  (params.get "hasAttachments" != some "true" || m.hasAttachments) &&
  (params.given "label").all (fun label => m.labels.contains label) &&
  (if params.get "snoozed" = some "true" then snoozedUntilAfter m now
    else !(m.mailboxRole == "inbox" && snoozedUntilAfter m now)) &&
  (((params.get "q").map fun q => Browser.toLocaleLowerCase (jsTrim q)).filter fun q => q ≠ "").all
    (fun q => contains (searchable m) q) &&
  (((params.get "sender").map jsTrim).filter fun sender => sender ≠ "").all
    (fun sender => sameAddress m.sender.address sender) &&
  (((params.get "recipient").map jsTrim).filter fun recipient => recipient ≠ "").all
    (fun recipient => m.recipients.any fun item => sameAddress item.address recipient)

end

/-- A message of the client, with its text and markup if they are loaded. -/
structure ClientMessage where
  summary : Message
  body : Option (String × Option String) := none
  deriving DecidableEq, Repr

def ClientMessage.id (m : ClientMessage) : String := m.summary.id

def ClientMessage.newness (m : ClientMessage) : Newness := m.summary.newness

def appendMessagePage (current incoming : List ClientMessage) : List ClientMessage :=
  current ++ incoming.filter fun m => !current.any fun old => old.id == m.id

/-- `Map.prototype.set`; an entry that is there keeps its place. -/
def mapSet (next : List ClientMessage) (m : ClientMessage) : List ClientMessage :=
  if next.any fun old => old.id == m.id then
    next.map fun old => if old.id == m.id then m else old
  else next ++ [m]

def changedMessage (current : List ClientMessage) (after : Message) : ClientMessage :=
  { summary := after
    body := (current.find? fun m => m.id == after.id).bind ClientMessage.body }

/-- `if (change.before) next.delete(change.before.id)` -/
def deleteBefore (next : List ClientMessage) (change : MailboxMessageChange) :
    List ClientMessage :=
  match change.before with
  | some before => next.filter fun m => m.id != before.id
  | none => next

/-- The loop of `applyMessageChanges` -/
def applyChange (selects : Message → Bool) (current next : List ClientMessage)
    (change : MailboxMessageChange) : List ClientMessage :=
  match change.after.filter selects with
  | some after => mapSet (deleteBefore next change) (changedMessage current after)
  | none => deleteBefore next change

def applyMessageChanges (selects : Message → Bool) (current : List ClientMessage)
    (changes : List MailboxMessageChange) : List ClientMessage :=
  orderBy ClientMessage.newness (changes.foldl (applyChange selects current) current)

def changeDelta (selects : Message → Bool) (change : MailboxMessageChange) : ℤ :=
  (if change.after.any selects then 1 else 0) - if change.before.any selects then 1 else 0

def messageTotalDelta (selects : Message → Bool) (changes : List MailboxMessageChange) : ℤ :=
  (changes.map (changeDelta selects)).sum

end IMail
