import IMail.Mail.Composition

/-!
# Reading the source of a message

`parse_rfc822` of `imail-mail/src/lib.rs`. The MIME parser is another crate's; what the
function reads of the parsed message is the record `MimeMessage`.
-/

namespace IMail

open Text

structure MimeAddress where
  name : Option String := none
  address : Option String := none
  deriving DecidableEq, Repr

structure MimePart where
  name : Option String := none
  /-- The type and the subtype. -/
  contentType : Option (String × Option String) := none
  length : ℕ
  deriving DecidableEq, Repr

/-- A parsed message; `sender`, `recipients` and `copied` are `from()`, `to()` and `cc()`. -/
structure MimeMessage where
  sender : Option (List MimeAddress) := none
  recipients : Option (List MimeAddress) := none
  copied : Option (List MimeAddress) := none
  replyTo : Option (List MimeAddress) := none
  inReplyTo : Option (List String) := none
  references : Option (List String) := none
  messageId : Option String := none
  subject : Option String := none
  bodyText : Option String := none
  htmlBodyCount : ℕ := 0
  bodyHtml : Option String := none
  /-- The date as `to_rfc3339_opts` writes it, if it is in the range of `from_timestamp`. -/
  date : Option String := none
  attachments : List MimePart := []
  deriving DecidableEq, Repr

class MailParser where
  /-- `MessageParser::default().parse` -/
  parse : List UInt8 → Option MimeMessage

/-- A parser to evaluate closed terms with: the source is the Message-ID. -/
@[reducible] def MailParser.plain : MailParser where
  parse source := some { messageId := some (String.ofList (source.map fun b => .ofNat b.toNat)) }

inductive MailParseError
  | messageTooLarge | invalidMessage | attachmentNotFound
  deriving DecidableEq, Repr

structure ParsedMailView where
  headers : MailHeaders
  messageId : Option String
  sender : MailAddressView
  recipients : List MailAddressView
  subject : String
  text : String
  html : Option String
  date : Option String
  preview : String
  attachments : List ParsedAttachmentView
  deriving DecidableEq, Repr

/-- `MAX_RFC822_BYTES` -/
def maxRfc822Bytes : ℕ := 50 * 1024 * 1024

/-- `address` -/
def MimeAddress.view (value : MimeAddress) : MailAddressView :=
  ⟨value.name.getD "", value.address.getD ""⟩

def emptyAddress : MailAddressView := ⟨"", ""⟩

def addressList (values : Option (List MimeAddress)) : List MailAddressView :=
  (values.getD []).map MimeAddress.view

def nodeMessageId (value : String) : String :=
  if value.toList.head? = some '<' ∧ value.toList.getLast? = some '>' then value
  else "<" ++ value ++ ">"

def replyIds (value : Option (List String)) : List String :=
  ((value.getD []).take 100).filterMap normalizeMessageId

def MimePart.view (index : ℕ) (part : MimePart) : ParsedAttachmentView where
  filename := part.name.getD "attachment"
  contentType := match part.contentType with
    | some (cType, cSubtype) => cType ++ "/" ++ cSubtype.getD "octet-stream"
    | none => "application/octet-stream"
  size := part.length
  index := index

def parseRfc822 [MailParser] (input : List UInt8) : Except MailParseError ParsedMailView :=
  if maxRfc822Bytes < input.length then .error .messageTooLarge
  else
    match MailParser.parse input with
    | none => .error .invalidMessage
    | some message =>
      let text := trim (message.bodyText.getD "")
      .ok
        { headers :=
            { cc := addressList message.copied
              replyTo := addressList message.replyTo
              inReplyTo := replyIds message.inReplyTo
              references := replyIds message.references }
          messageId := message.messageId.map nodeMessageId
          sender := ((message.sender.getD []).head?.map MimeAddress.view).getD emptyAddress
          recipients := addressList message.recipients
          subject := ((message.subject.map trim).filter (· ≠ "")).getD "（无主题）"
          text
          html := if 0 < message.htmlBodyCount then message.bodyHtml else none
          date := message.date
          preview := truncateUtf16 (collapseWhitespace text) 180
          attachments := message.attachments.mapIdx MimePart.view }

example : nodeMessageId "a@b" = "<a@b>" := by decide
example : nodeMessageId "<a@b>" = "<a@b>" := by decide

end IMail
