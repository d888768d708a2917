import IMail.Mail.Server
import IMail.Mail.SyncPlan
import IMail.Store.ContentData
import IMail.Store.RuleActions

/-!
# Changing a message on the server and in the cache

`update_for` and `move_for` of `imail-http/src/messages.rs`, with the calls of
`imail-core/src/mail_operations.rs` and `imail-mail/src/lib.rs` below them. Each reads the row,
sends its commands to the server and writes the whole row back. The three parts are functions
of their own, because other writers of the store come between them.
-/

namespace IMail

/-- What `update_for` and `move_for` get from the parts that are not modelled. -/
structure ImapEnvironment extends SendEnvironment where
  /-- `create_imap` succeeds. -/
  imap : Bool := true

def Db.ownedMessage (db : Db) (owner messageId : String) : Option Message :=
  db.messages.find? fun m => m.id == messageId && db.ownsAccount owner m.accountId

def getMessage (db : Db) (owner messageId : String) : Except MailApplicationError Message :=
  match db.ownedMessage owner messageId with
  | some message => .ok message
  | none => .error (.domain "MESSAGE_NOT_FOUND" 404 "邮件不存在")

/-- `run_mail`, up to the operation. -/
def openMail (env : SendEnvironment) : Except MailApplicationError Unit :=
  if !env.masterKey then .error (.domain "MASTER_KEY_UNAVAILABLE" 500 "服务暂时无法完成请求")
  else
    match env.opened with
    | some error => .error (.repository error)
    | none => .ok ()

def readMessage (env : ImapEnvironment) (db : Db) (owner messageId : String) :
    Except MailApplicationError Message := do
  openMail env.toSendEnvironment
  getMessage db owner messageId

/-- `refresh_account` and `create_imap` -/
def connectImap (env : ImapEnvironment) : Except MailApplicationError Unit :=
  if !env.refreshed then .error (.domain "ACCOUNT_CONNECTION_FAILED" 502 "邮箱连接授权不可用")
  else if !env.imap then .error (.domain "MAIL_NETWORK_UNAVAILABLE" 500 "邮箱网络运行时不可用")
  else .ok ()

def locator (mailbox : String) (uid : ℤ) (messageId : Option String) :
    Except MailApplicationError RemoteMessageLocator :=
  match (uidOf uid).filter (0 < ·) with
  | some uid => .ok { mailbox, uid, messageId }
  | none => .error (.domain "MESSAGE_UID_INVALID" 500 "邮件远程标识不可用")

/-- The connection and the address that a command for the message uses. The row is read again. -/
def remoteMessage (env : ImapEnvironment) (db : Db) (owner messageId : String) :
    Except MailApplicationError (MailConnectionConfig × RemoteMessageLocator) := do
  connectImap env
  let message ← getMessage db owner messageId
  let config ← accountConfig db env.toSendEnvironment owner message.accountId
  let found ← locator message.mailbox message.uid message.messageId
  return (config, found)

def storeMessage (db : Db) (owner : String) (message : Message) : Except MailApplicationError Db :=
  (upsertMessage db owner message).mapError .repository

structure MessagePatch where
  unread : Option Bool := none
  flagged : Option Bool := none
  labels : Option (List String) := none
  snoozedUntil : Option (Option String) := none
  deriving DecidableEq, Repr

def MessagePatch.flags (patch : MessagePatch) : RemoteMessageFlagPatch :=
  ⟨patch.unread, patch.flagged⟩

def MessagePatch.apply (patch : MessagePatch) (message : Message) : Message :=
  { message with
    unread := patch.unread.getD message.unread
    flagged := patch.flagged.getD message.flagged
    labels := patch.labels.getD message.labels
    snoozedUntil := patch.snoozedUntil.getD message.snoozedUntil }

def updateRemote (env : ImapEnvironment) (db : Db) (servers : MailServers)
    (owner messageId : String) (patch : MessagePatch) (cut : Cut) :
    Except MailApplicationError Unit × MailServers :=
  if patch.unread.isSome || patch.flagged.isSome then
    match remoteMessage env db owner messageId with
    | .error e => (.error e, servers)
    | .ok (config, found) =>
      let (result, server) := (servers config.endpoint).updateFlags found patch.flags cut
      (result.mapError fun failure => .remote (.protocol failure),
        Function.update servers config.endpoint server)
  else (.ok (), servers)

def updateFor (env : ImapEnvironment) (db : Db) (servers : MailServers)
    (owner messageId : String) (patch : MessagePatch) (cut : Cut) :
    Except MailApplicationError Message × MailServers × Db :=
  match readMessage env db owner messageId with
  | .error e => (.error e, servers, db)
  | .ok message =>
    match updateRemote env db servers owner messageId patch cut with
    | (.error e, servers) => (.error e, servers, db)
    | (.ok (), servers) =>
      match storeMessage db owner (patch.apply message) with
      | .error e => (.error e, servers, db)
      | .ok db => (.ok (patch.apply message), servers, db)

inductive MessageMoveDestination
  | archive | trash
  deriving DecidableEq, Repr

namespace MessageMoveDestination

def uses : MessageMoveDestination → List String
  | archive => ["\\Archive", "\\All"]
  | trash => ["\\Trash"]

def label : MessageMoveDestination → String
  | archive => "归档"
  | trash => "垃圾箱"

def role : MessageMoveDestination → String
  | archive => "archive"
  | trash => "trash"

end MessageMoveDestination

def moveTarget (destination : MessageMoveDestination) (mailboxes : List RemoteMailbox) :
    Except RemoteMailError RemoteMailbox :=
  match mailboxes.find? fun mailbox => mailbox.specialUse.any (· ∈ destination.uses) with
  | some target => .ok target
  | none => .error (.destinationUnavailable destination.label)

/-- What `RemoteMailService::move_message` makes of the answer of the port. -/
def moveResult (target : RemoteMailbox) (answer : Except String RemoteMoveConfirmation) :
    Except MailApplicationError RemoteMessageMoveResult :=
  match answer with
  | .error failure => .error (.remote (.protocol failure))
  | .ok moved =>
    if !moved.confirmed then .error (.remote .moveUnconfirmed)
    else .ok { mailbox := target.path, uid := moved.uid }

def moveRemote (env : ImapEnvironment) (db : Db) (servers : MailServers)
    (owner messageId : String) (destination : MessageMoveDestination) (skip : ℕ) (cut : Cut) :
    Except MailApplicationError RemoteMessageMoveResult × MailServers :=
  match remoteMessage env db owner messageId with
  | .error e => (.error e, servers)
  | .ok (config, found) =>
    match moveTarget destination (servers config.endpoint).listMailboxes with
    | .error e => (.error (.remote e), servers)
    | .ok target =>
      let (answer, server) := (servers config.endpoint).moveMessage found target.path skip cut
      (moveResult target answer, Function.update servers config.endpoint server)

def movedRow (destination : MessageMoveDestination) (moved : RemoteMessageMoveResult)
    (message : Message) : Message :=
  { message with
    mailbox := moved.mailbox
    mailboxRole := destination.role
    uid := (moved.uid.map fun uid : ℕ => (uid : ℤ)).getD message.uid
    snoozedUntil := none }

def moveFor (env : ImapEnvironment) (db : Db) (servers : MailServers)
    (owner messageId : String) (destination : MessageMoveDestination) (skip : ℕ) (cut : Cut) :
    Except MailApplicationError (Message × RemoteMessageMoveResult) × MailServers × Db :=
  match readMessage env db owner messageId with
  | .error e => (.error e, servers, db)
  | .ok message =>
    match moveRemote env db servers owner messageId destination skip cut with
    | (.error e, servers) => (.error e, servers, db)
    | (.ok moved, servers) =>
      match storeMessage db owner (movedRow destination moved message) with
      | .error e => (.error e, servers, db)
      | .ok db => (.ok (movedRow destination moved message, moved), servers, db)

variable {db : Db} {owner messageId : String} {m : Message}

theorem ownedMessage_some (h : db.ownedMessage owner messageId = some m) :
    m ∈ db.messages ∧ m.id = messageId ∧ db.ownsAccount owner m.accountId = true := by
  have hsel := List.find?_some h
  simp only [Bool.and_eq_true, beq_iff_eq] at hsel
  exact ⟨List.mem_of_find?_eq_some h, hsel⟩

theorem getMessage_ok :
    getMessage db owner messageId = .ok m ↔ db.ownedMessage owner messageId = some m := by
  unfold getMessage
  split
  · rename_i found hfound
    simp [hfound]
  · rename_i hnone
    simp [hnone]

theorem readMessage_ok {env : ImapEnvironment} (h : readMessage env db owner messageId = .ok m) :
    db.ownedMessage owner messageId = some m := by
  obtain ⟨_, _, hget⟩ := Relational.bind_eq_ok.mp h
  exact getMessage_ok.mp hget

theorem storeMessage_ok {db' : Db} (h : storeMessage db owner m = .ok db') :
    db.upsertSyncMessage m = .ok db' := by
  exact (upsertMessage_ok (Relational.mapError_eq_ok h)).2

theorem locator_ok {mailbox : String} {uid : ℤ} {messageId : Option String}
    {found : RemoteMessageLocator} (h : locator mailbox uid messageId = .ok found) :
    found.mailbox = mailbox ∧ uid = found.uid := by
  unfold locator at h
  split at h
  · rename_i n hn
    cases h
    obtain ⟨huid, _⟩ := Option.filter_eq_some_iff.mp hn
    unfold uidOf at huid
    split_ifs at huid with hrange
    cases huid
    exact ⟨rfl, (Int.toNat_of_nonneg hrange.1).symm⟩
  · cases h

theorem remoteMessage_ok {env : ImapEnvironment} {config : MailConnectionConfig}
    {found : RemoteMessageLocator}
    (h : remoteMessage env db owner messageId = .ok (config, found)) :
    ∃ m, db.ownedMessage owner messageId = some m ∧
      accountConfig db env.toSendEnvironment owner m.accountId = .ok config ∧
      found.mailbox = m.mailbox ∧ m.uid = found.uid := by
  obtain ⟨_, _, h⟩ := Relational.bind_eq_ok.mp h
  obtain ⟨m, hget, h⟩ := Relational.bind_eq_ok.mp h
  obtain ⟨config', hconfig, h⟩ := Relational.bind_eq_ok.mp h
  obtain ⟨found', hfound, h⟩ := Relational.bind_eq_ok.mp h
  cases h
  exact ⟨m, getMessage_ok.mp hget, hconfig, locator_ok hfound⟩

section

variable (env : ImapEnvironment) (db : Db) (servers : MailServers) (owner messageId : String)

theorem later_moveRemote (destination : MessageMoveDestination) (skip : ℕ) (cut : Cut)
    (endpoint : Endpoint) : (servers endpoint).Later
      ((moveRemote env db servers owner messageId destination skip cut).2 endpoint) := by
  unfold moveRemote
  split
  · exact .refl _
  split
  · exact .refl _
  · exact later_update (MailServer.later_moveMessage _ _ _ _) endpoint

theorem later_updateRemote (patch : MessagePatch) (cut : Cut) (endpoint : Endpoint) :
    (servers endpoint).Later
      ((updateRemote env db servers owner messageId patch cut).2 endpoint) := by
  unfold updateRemote
  split_ifs
  · split
    · exact .refl _
    · exact later_update (MailServer.later_updateFlags _ _ _) endpoint
  · exact .refl _

theorem later_moveFor (destination : MessageMoveDestination) (skip : ℕ) (cut : Cut)
    (endpoint : Endpoint) : (servers endpoint).Later
      ((moveFor env db servers owner messageId destination skip cut).2.1 endpoint) := by
  have hlater := later_moveRemote env db servers owner messageId destination skip cut endpoint
  unfold moveFor
  split
  · exact .refl _
  split
  · rename_i hmoved
    rwa [hmoved] at hlater
  · rename_i hmoved
    rw [hmoved] at hlater
    split <;> exact hlater

theorem later_updateFor (patch : MessagePatch) (cut : Cut) (endpoint : Endpoint) :
    (servers endpoint).Later
      ((updateFor env db servers owner messageId patch cut).2.1 endpoint) := by
  have hlater := later_updateRemote env db servers owner messageId patch cut endpoint
  unfold updateFor
  split
  · exact .refl _
  split
  · rename_i htold
    rwa [htold] at hlater
  · rename_i htold
    rw [htold] at hlater
    split <;> exact hlater

theorem moveRemote_ok {destination : MessageMoveDestination} {skip : ℕ} {cut : Cut}
    {moved : RemoteMessageMoveResult} {servers' : MailServers}
    (h : moveRemote env db servers owner messageId destination skip cut = (.ok moved, servers')) :
    ∃ config found target, remoteMessage env db owner messageId = .ok (config, found) ∧
      moveTarget destination (servers config.endpoint).listMailboxes = .ok target ∧ cut = none ∧
      moved = { mailbox := target.path, uid := none } ∧
      servers' = Function.update servers config.endpoint
        ((servers config.endpoint).move found.mailbox found.uid target.path skip) := by
  unfold moveRemote at h
  split at h
  · simp at h
  rename_i config found hremote
  split at h
  · simp at h
  rename_i target htarget
  cases cut with
  | some broken => simp [MailServer.moveMessage, Cut.result, moveResult] at h
  | none =>
    simp only [MailServer.moveMessage, Cut.result, moveResult, Cut.done, Option.map_none,
      Option.getD_none, Nat.one_pos, if_true, Bool.not_true, Bool.false_eq_true, if_false,
      Prod.mk.injEq, Except.ok.injEq] at h
    exact ⟨config, found, target, hremote, htarget, rfl, h.1.symm, h.2.symm⟩

/-- A move leaves the store alone, or the message has left its mailbox and the row it was read
from is written with another place. -/
theorem moveFor_db (destination : MessageMoveDestination) (skip : ℕ) (cut : Cut) :
    (moveFor env db servers owner messageId destination skip cut).2.2 = db ∨
      ∃ m moved, db.ownedMessage owner messageId = some m ∧
        moveRemote env db servers owner messageId destination skip cut =
          (.ok moved, (moveFor env db servers owner messageId destination skip cut).2.1) ∧
        db.upsertSyncMessage (movedRow destination moved m) =
          .ok (moveFor env db servers owner messageId destination skip cut).2.2 := by
  unfold moveFor
  split
  · exact Or.inl rfl
  rename_i m hread
  split
  · exact Or.inl rfl
  rename_i moved servers' hmoved
  split
  · exact Or.inl rfl
  · rename_i db' hstore
    exact Or.inr ⟨m, moved, readMessage_ok hread, hmoved, storeMessage_ok hstore⟩

theorem updateFor_db (patch : MessagePatch) (cut : Cut) :
    (updateFor env db servers owner messageId patch cut).2.2 = db ∨
      ∃ m, db.ownedMessage owner messageId = some m ∧
        db.upsertSyncMessage (patch.apply m) =
          .ok (updateFor env db servers owner messageId patch cut).2.2 := by
  unfold updateFor
  split
  · exact Or.inl rfl
  rename_i m hread
  split
  · exact Or.inl rfl
  split
  · exact Or.inl rfl
  · rename_i hstore
    exact Or.inr ⟨m, readMessage_ok hread, storeMessage_ok hstore⟩

end

end IMail
