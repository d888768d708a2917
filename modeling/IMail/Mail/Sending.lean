import IMail.Store.Outbox

/-!
# Sending a message

`send_message` of `imail-core/src/mail_operations.rs` and `imail-mail/src/lib.rs`, and
`send_for_blocking` of `imail-http/src/messages.rs`. What the network, the key file and the
credentials answer is an argument. A failure of anything before `SmtpPort::send` is told
from a failure of the send itself by its constructor alone.
-/

namespace IMail

inductive RemoteMailError
  | attachmentNotFound
  | attachmentUnavailable
  | destinationUnavailable (label : String)
  | moveUnconfirmed
  | invalidAttachmentData
  | protocol (message : String)
  | parse (message : String)
  deriving DecidableEq, Repr

inductive MailApplicationError
  | domain (code : String) (status : ℕ) (message : String)
  | repository (error : AuthStoreError)
  | remote (error : RemoteMailError)
  deriving DecidableEq, Repr

namespace MailApplicationError

def code : MailApplicationError → String
  | domain code _ _ => code
  | repository _ => "STORAGE_ERROR"
  | remote .attachmentNotFound => "ATTACHMENT_NOT_FOUND"
  | remote (.destinationUnavailable _) => "MAILBOX_DESTINATION_UNAVAILABLE"
  | remote .moveUnconfirmed => "MESSAGE_MOVE_UNCONFIRMED"
  | remote .invalidAttachmentData => "ATTACHMENT_DATA_INVALID"
  | remote .attachmentUnavailable => "ATTACHMENT_UNAVAILABLE"
  | remote (.protocol _) => "MAIL_PROTOCOL_ERROR"
  | remote (.parse _) => "MAIL_PARSE_ERROR"

/-- The outbox leaves an item for review after an error from the mail server's side. -/
def uncertain : MailApplicationError → Bool
  | remote _ => true
  | domain .. | repository _ => false

end MailApplicationError

def AuthStoreError.text [Platform] : AuthStoreError → String
  | .userNotFound => "应用用户不存在"
  | .accountOwnershipViolation => "邮箱账户属于其他用户"
  | .duplicateAccount => "当前用户已存在相同邮箱账户"
  | .invalidContentData => "内容记录字段组合无效"
  | .accountNotOwned => "引用的邮箱账户不存在或不属于当前用户"
  | .contentOwnershipViolation => "内容记录属于其他用户"
  | .idempotencyConflict => "请求幂等键已用于不同的发件任务"
  | .constraint => Platform.sqliteErrorText

def RemoteMailError.text : RemoteMailError → String
  | .attachmentNotFound => "附件不存在"
  | .attachmentUnavailable => "无法从邮箱服务器读取附件"
  | .destinationUnavailable label => "服务商没有返回" ++ label ++ "文件夹"
  | .moveUnconfirmed => "服务商未确认邮件移动操作"
  | .invalidAttachmentData => "附件数据不是有效的 Base64"
  | .protocol message => message
  | .parse message => message

/-- `to_string` -/
def MailApplicationError.text [Platform] : MailApplicationError → String
  | domain _ _ message => message
  | repository error => error.text
  | remote error => error.text

inductive MailAuthentication
  | oauth (provider accessToken : String)
  | password (password : String)
  deriving DecidableEq, Repr

structure MailProxy where
  protocol : String
  host : String
  port : ℕ
  username : Option String
  password : Option String
  deriving DecidableEq, Repr

structure MailConnectionConfig where
  email : String
  displayName : String
  imapHost : String
  imapPort : ℕ
  imapSecure : Bool
  smtpHost : String
  smtpPort : ℕ
  smtpSecure : Bool
  authentication : MailAuthentication
  proxy : Option MailProxy
  deriving DecidableEq, Repr

/-- The decrypted credentials of an account. -/
structure AccountSecret where
  accessToken : Option String := none
  oauthProvider : Option String := none
  password : Option String := none
  proxyPassword : Option String := none
  deriving DecidableEq, Repr

def settingsInvalid : MailApplicationError :=
  .domain "ACCOUNT_SETTINGS_INVALID" 500 "邮箱服务器配置不可用"

def requiredString (value : Option String) : Except MailApplicationError String :=
  match value.filter (· ≠ "") with
  | some text => .ok text
  | none => .error settingsInvalid

def requiredPort (value : Option ℕ) : Except MailApplicationError ℕ :=
  match value.filter fun port => port < 65536 && 0 < port with
  | some port => .ok port
  | none => .error settingsInvalid

def requiredBool (value : Option Bool) : Except MailApplicationError Bool :=
  match value with
  | some flag => .ok flag
  | none => .error settingsInvalid

def parseProxy (value : Option ProxySettings) (password : Option String) :
    Except MailApplicationError MailProxy :=
  match value with
  | none => .error (.domain "PROXY_INVALID" 500 "代理配置不可用")
  | some proxy => do
    let protocol ← requiredString proxy.protocol
    let host ← requiredString proxy.host
    let port ← requiredPort proxy.port
    return { protocol, host, port, username := proxy.username, password }

def oauthProviderFor (provider : String) : String :=
  if provider = "gmail" then "google"
  else if provider = "outlook" ∨ provider = "hotmail" then "microsoft"
  else provider

def authenticationFor (account : Account) (secret : AccountSecret) :
    Except MailApplicationError MailAuthentication :=
  match secret.accessToken, secret.password with
  | some accessToken, _ =>
    .ok (.oauth (secret.oauthProvider.getD (oauthProviderFor account.provider)) accessToken)
  | none, some password => .ok (.password password)
  | none, none => .error (.domain "ACCOUNT_SECRET_INVALID" 500 "邮箱账户凭据不可用")

/-- `connection_config`, for what the codec makes of the stored secret. -/
def connectionConfig (decrypt : String → Option AccountSecret) (account : Account) :
    Except MailApplicationError MailConnectionConfig :=
  match decrypt account.encryptedSecret with
  | none => .error (.domain "ACCOUNT_SECRET_UNAVAILABLE" 500 "邮箱账户凭据不可用")
  | some secret =>
    match account.settings with
    | none => .error settingsInvalid
    | some settings => do
      let proxy ← match account.proxy with
        | none => .ok none
        | some proxy => (parseProxy proxy secret.proxyPassword).map some
      let authentication ← authenticationFor account secret
      let imapHost ← requiredString settings.imapHost
      let imapPort ← requiredPort settings.imapPort
      let imapSecure ← requiredBool settings.imapSecure
      let smtpHost ← requiredString settings.smtpHost
      let smtpPort ← requiredPort settings.smtpPort
      let smtpSecure ← requiredBool settings.smtpSecure
      return { email := account.email, displayName := account.displayName, imapHost, imapPort
               imapSecure, smtpHost, smtpPort, smtpSecure, authentication, proxy }

/-- What the parts of the program that this development does not model answer to
`send_for_blocking` before it sends. -/
structure SendEnvironment where
  /-- `MasterKey::from_file` succeeds. -/
  masterKey : Bool := true
  /-- `open_database` and the reads of the store succeed. -/
  opened : Option AuthStoreError := none
  /-- `refresh_account` succeeds. -/
  refreshed : Bool := true
  /-- `create_smtp` succeeds. -/
  smtp : Bool := true
  /-- The read of the account succeeds. -/
  read : Option AuthStoreError := none
  decrypt : String → Option AccountSecret := fun _ => none

def accountConfig (db : Db) (env : SendEnvironment) (owner accountId : String) :
    Except MailApplicationError MailConnectionConfig :=
  match env.read with
  | some error => .error (.repository error)
  | none =>
    match db.accounts.find? fun a => a.id == accountId && a.userId == owner with
    | none => .error (.domain "ACCOUNT_NOT_FOUND" 404 "邮箱账户不存在")
    | some account => connectionConfig env.decrypt account

structure OutgoingAttachment where
  filename : String
  contentType : String
  content : List UInt8
  deriving DecidableEq, Repr

structure OutgoingMessage where
  envelope : ComposeEnvelope
  sender : MailAddressView
  recipients : List String
  cc : Option (List String)
  subject : String
  text : String
  html : Option String
  attachments : List OutgoingAttachment
  deriving DecidableEq, Repr

section

variable [Platform]

def decodeAttachments : List SendAttachmentInput → Except RemoteMailError (List OutgoingAttachment)
  | [] => .ok []
  | a :: rest =>
    match Platform.base64Decode a.data with
    | none => .error .invalidAttachmentData
    | some content => (decodeAttachments rest).map (⟨a.filename, a.contentType, content⟩ :: ·)

def outgoingMessage (config : MailConnectionConfig) (input : SendMessageInput) :
    Except RemoteMailError OutgoingMessage :=
  (decodeAttachments (input.attachments.getD [])).map fun attachments =>
    { envelope := input.envelope
      sender := ⟨config.displayName, config.email⟩
      recipients := input.recipients
      cc := input.cc
      subject := input.subject
      text := input.text
      html := input.html
      attachments }

/-- `MailApplicationService::send_message` up to the call of `SmtpPort::send`. -/
def prepareMessage (db : Db) (env : SendEnvironment) (owner : String) (input : SendMessageInput) :
    Except MailApplicationError (MailConnectionConfig × OutgoingMessage) :=
  let recipients := input.everyone
  if !input.envelope.isValid || recipients.isEmpty || 300 < recipients.length ||
      !recipients.all validMailAddress then
    .error (.domain "SEND_INPUT_INVALID" 400 "收件人或回复关联无效")
  else
    match accountConfig db env owner input.accountId with
    | .error e => .error e
    | .ok config =>
      match outgoingMessage config input with
      | .error e => .error (.remote e)
      | .ok message => .ok (config, message)

/-- `send_for_blocking` up to the call of `SmtpPort::send`. -/
def prepareSend (db : Db) (env : SendEnvironment) (owner : String) (input : SendMessageInput) :
    Except MailApplicationError (MailConnectionConfig × OutgoingMessage) :=
  if !env.masterKey then .error (.domain "MASTER_KEY_UNAVAILABLE" 500 "服务暂时无法完成请求")
  else
    match env.opened with
    | some error => .error (.repository error)
    | none =>
      if !env.refreshed then
        .error (.domain "ACCOUNT_CONNECTION_FAILED" 502 "邮箱连接授权不可用")
      else if !env.smtp then
        .error (.domain "MAIL_NETWORK_UNAVAILABLE" 500 "邮箱网络运行时不可用")
      else prepareMessage db env owner input

/-- The result that `send_for_blocking` makes of the answer of `SmtpPort::send`. -/
def smtpResult (answer : Except String SendMessageResult) :
    Except MailApplicationError SendMessageResult :=
  match answer with
  | .ok sent => .ok sent
  | .error failure => .error (.remote (.protocol failure))

/-- `send_for_blocking`: the messages that it hands to `SmtpPort::send`, its result and the
database. `deleted` is the error of the deletion of the draft, if that fails. -/
def sendForBlocking (db : Db) (env : SendEnvironment)
    (smtp : MailConnectionConfig → OutgoingMessage → Except String SendMessageResult)
    (deleted : Option AuthStoreError) (owner : String) (input : SendMessageInput)
    (draftId : Option String) :
    List OutgoingMessage × Except MailApplicationError SendMessageResult × Db :=
  match prepareSend db env owner input with
  | .error e => ([], .error e, db)
  | .ok (config, message) =>
    match smtpResult (smtp config message), draftId with
    | .error e, _ => ([message], .error e, db)
    | .ok sent, none => ([message], .ok sent, db)
    | .ok sent, some draftId =>
      match deleted with
      | some e => ([message], .error (.repository e), db)
      | none => ([message], .ok sent, (deleteDraft db owner draftId).2)

omit [Platform] in
theorem smtpResult_error {answer : Except String SendMessageResult} {e : MailApplicationError}
    (h : smtpResult answer = .error e) : e.uncertain = true := by
  unfold smtpResult at h
  split at h
  · cases h
  · cases h
    rfl

/-- A definite failure of a message without a draft comes before anything is sent. -/
theorem sendForBlocking_definite {db : Db} {env : SendEnvironment}
    {smtp : MailConnectionConfig → OutgoingMessage → Except String SendMessageResult}
    {deleted : Option AuthStoreError} {owner : String} {input : SendMessageInput}
    {e : MailApplicationError}
    (h : (sendForBlocking db env smtp deleted owner input none).2.1 = .error e)
    (hdefinite : e.uncertain = false) :
    (sendForBlocking db env smtp deleted owner input none).1 = [] := by
  unfold sendForBlocking at h ⊢
  rcases hprepare : prepareSend db env owner input with e' | ⟨config, message⟩
  · rfl
  · rw [hprepare] at h
    exfalso
    cases hsmtp : smtpResult (smtp config message) with
    | error e' =>
      simp only [hsmtp] at h
      cases h
      rw [smtpResult_error hsmtp] at hdefinite
      cases hdefinite
    | ok sent => simp [hsmtp] at h

end

theorem sendForBlocking_definite_locked :
    let _ := Platform.plain
    (sendForBlocking {} { masterKey := false } (fun _ _ => .error "") none "u"
      ⟨{}, "a", [], none, "", "", none, none⟩ none).1 = [] :=
  let _ := Platform.plain
  sendForBlocking_definite rfl rfl

end IMail
