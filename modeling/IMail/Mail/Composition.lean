import IMail.Platform

/-!
# Outgoing messages

`imail-protocol/src/composition.rs` and the checks of `imail-http/src/messages.rs` on a
message that is to be sent.
-/

namespace IMail

open Text

/-- `valid_mail_address` -/
def validMailAddress (address : String) : Bool :=
  match rsplitOnceList '@' address.toList with
  | none => false
  | some (localPart, domain) =>
    !localPart.isEmpty && !domain.isEmpty && decide (utf8Length address.toList ≤ 320) &&
      !address.toList.any fun c =>
        isControl c || isWhitespace c || c = '<' || c = '>' || c = ',' || c = ';'

/-- `is_ascii_graphic` -/
def isAsciiGraphic (c : Char) : Bool := 33 ≤ c.toNat && c.toNat ≤ 126

/-- The text of a Message-ID without its angle brackets: both or none are there. -/
def messageIdCore (value : List Char) : Option (List Char) :=
  if value.head? = some '<' || value.getLast? = some '>' then
    match value with
    | '<' :: rest => if rest.getLast? = some '>' then some rest.dropLast else none
    | _ => none
  else some value

def normalizeMessageId (value : String) : Option String :=
  (messageIdCore (trimList value.toList)).bind fun id =>
    (rsplitOnceList '@' id).bind fun (localPart, domain) =>
      if localPart.isEmpty || domain.isEmpty || 996 < utf8Length id ||
          !id.all fun c => isAsciiGraphic c && c != '<' && c != '>' && c != '"' && c != '\\' then
        none
      else some (String.ofList ('<' :: id ++ ['>']))

example : normalizeMessageId " parent@example.test" = some "<parent@example.test>" := by decide
example : normalizeMessageId "<a@b> <c@d>" = none := by decide
example : normalizeMessageId "<a@b" = none := by decide

/-- `ReplyHeaders::is_valid` -/
def ComposeEnvelope.replyValid (envelope : ComposeEnvelope) : Bool :=
  [envelope.inReplyTo, envelope.references].all fun ids =>
    ids.length ≤ 100 && ids.all fun id => (normalizeMessageId id).isSome

def ComposeEnvelope.isValid (envelope : ComposeEnvelope) : Bool :=
  envelope.bcc.length ≤ 100 && envelope.bcc.all validMailAddress && envelope.replyValid

def SendMessageInput.everyone (input : SendMessageInput) : List String :=
  input.recipients ++ input.cc.getD [] ++ input.envelope.bcc

/-- `utf16`: the length of a text in UTF-16 code units. -/
def utf16 (s : String) : ℕ := (s.toList.map utf16Length).sum

/-- `valid_email` -/
def validEmail (value : String) : Bool :=
  if value = "" || 320 < utf8Length value.toList || value.toList.any isWhitespace then false
  else
    match rsplitOnceList '@' value.toList with
    | none => false
    | some (localPart, domain) =>
      !localPart.isEmpty && !domain.isEmpty && domain.contains '.' && domain.head? != some '.' &&
        domain.getLast? != some '.'

section

variable [Platform]

def decodedSize (data : String) : Option ℕ := (Platform.base64Decode data).map List.length

def validateSendMessage (message : SendMessageInput) : Bool :=
  let recipients := message.everyone
  let attachments := message.attachments.getD []
  Platform.isUuid message.accountId && message.envelope.isValid && !recipients.isEmpty &&
    recipients.length ≤ 300 && recipients.all validEmail && message.subject != "" &&
    utf16 message.subject ≤ 500 && message.text != "" && utf16 message.text ≤ 2000000 &&
    (message.html.all fun html => utf16 html ≤ 8000000) && attachments.length ≤ 10 &&
    (attachments.all fun attachment =>
      attachment.filename != "" && utf16 attachment.filename ≤ 255 &&
        attachment.contentType != "" && utf16 attachment.contentType ≤ 150 &&
        utf16 attachment.data ≤ 7000000 &&
        (decodedSize attachment.data).any (· ≤ 5 * 1024 * 1024)) &&
    (attachments.filterMap fun attachment => decodedSize attachment.data).sum ≤ 15 * 1024 * 1024

structure HttpSendAttachment where
  id : String
  filename : String
  contentType : String
  size : ℕ
  data : String
  deriving DecidableEq, Repr

structure SendInput where
  envelope : ComposeEnvelope := {}
  accountId : String
  recipients : List String
  cc : Option (List String) := none
  subject : String
  text : String
  html : Option String := none
  attachments : Option (List HttpSendAttachment) := none
  draftId : Option String := none
  deriving DecidableEq, Repr

def SendInput.message (input : SendInput) : SendMessageInput :=
  let attachments := input.attachments.getD []
  { envelope := input.envelope
    accountId := input.accountId
    recipients := input.recipients
    cc := input.cc
    subject := input.subject
    text := input.text
    html := input.html
    attachments := if attachments.isEmpty then none
      else some (attachments.map fun a => ⟨a.filename, a.contentType, a.data⟩) }

/-- `validate_send`, with the message and the draft it is written in. -/
def validateSend (input : SendInput) : Option (SendMessageInput × Option String) :=
  let attachments := input.attachments.getD []
  if !Platform.isUuid input.accountId ||
      (input.recipients.isEmpty && (input.cc.getD []).isEmpty && input.envelope.bcc.isEmpty) ||
      !input.envelope.isValid || !input.recipients.all validEmail ||
      !(input.cc.getD []).all validEmail || input.subject = "" || input.text = "" ||
      input.draftId.any (fun id => !Platform.isUuid id) then none
  else if 10 < attachments.length ||
      (attachments.any fun attachment =>
        attachment.id = "" || 100 < utf16 attachment.id || attachment.filename = "" ||
          255 < utf16 attachment.filename || attachment.contentType = "" ||
          150 < utf16 attachment.contentType || 5 * 1024 * 1024 < attachment.size ||
          7000000 < utf16 attachment.data || decodedSize attachment.data != some attachment.size) ||
      15 * 1024 * 1024 < (attachments.map (·.size)).sum then none
  else if validateSendMessage input.message then some (input.message, input.draftId)
  else none

end

end IMail
