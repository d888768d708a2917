import IMail.Imap.UidMailbox
import IMail.Mail.Sending

/-!
# Mail servers and the adapter that talks to them

An IMAP server as the development assumes it: mailboxes under a fixed UIDVALIDITY each, and the
commands that `imail-mail-network/src/imap.rs` sends for a single message. A call of the
adapter can break off: `cut` is the number of its commands that took effect before, and the
text of the failure.
-/

namespace IMail

open Imap

/-- Where a connection goes, and as whom. -/
structure Endpoint where
  host : String
  port : ℕ
  email : String
  deriving DecidableEq, Repr

def MailConnectionConfig.endpoint (config : MailConnectionConfig) : Endpoint :=
  ⟨config.imapHost, config.imapPort, config.email⟩

/-- A message on the server. The key tells which message it is and is not part of the
protocol; a message keeps its key when it is moved. -/
structure ServerMessage where
  key : ℕ
  source : List UInt8
  internalDate : Option String := none
  seen : Bool := false
  flagged : Bool := false
  gmailLabels : Option (List String) := none
  modseq : ℕ := 0
  deriving DecidableEq, Repr

/-- The attributes of `LIST` that the program looks at. -/
inductive NameAttribute
  | noSelect | archive | all | trash | sent | drafts | junk | other
  deriving DecidableEq, Repr

structure ListedMailbox where
  path : String
  delimiter : Option String := some "/"
  attributes : List NameAttribute := []
  deriving DecidableEq, Repr

structure ServerMailbox where
  box : UidMailbox ServerMessage := .empty
  uidValidity : Option ℕ := some 1
  highestModseq : Option ℕ := none

structure MailServer where
  qresync : Bool := false
  condstore : Bool := false
  /-- `X-GM-EXT-1` -/
  gmailLabels : Bool := false
  /-- The answer to `SELECT` has a `UIDNEXT`. -/
  reportsUidNext : Bool := true
  listed : List ListedMailbox := []
  mailboxes : String → ServerMailbox := fun _ => {}

namespace MailServer

variable (server : MailServer)

def box (mailbox : String) : UidMailbox ServerMessage := (server.mailboxes mailbox).box

def setBox (mailbox : String) (box : UidMailbox ServerMessage) : MailServer :=
  { server with
    mailboxes := Function.update server.mailboxes mailbox
      { server.mailboxes mailbox with box := box } }

def deliver (mailbox : String) (message : ServerMessage) (skip : ℕ) : MailServer :=
  server.setBox mailbox ((server.box mailbox).append message skip)

def expunge (mailbox : String) (uid : ℕ) : MailServer :=
  server.setBox mailbox ((server.box mailbox).expunge uid)

/-- `UID STORE` -/
def store (mailbox : String) (uid : ℕ) (f : ServerMessage → ServerMessage) : MailServer :=
  server.setBox mailbox ((server.box mailbox).store uid f)

/-- `UID MOVE`: the message leaves its mailbox and comes to the target under a new UID. -/
def move (mailbox : String) (uid : ℕ) (target : String) (skip : ℕ) : MailServer :=
  match (server.box mailbox).fetch uid with
  | none => server
  | some message => (server.expunge mailbox uid).deliver target message skip

variable {server}

@[simp] theorem box_setBox_self (mailbox : String) (box : UidMailbox ServerMessage) :
    (server.setBox mailbox box).box mailbox = box := by
  simp [MailServer.box, setBox]

theorem box_setBox_of_ne {mailbox other : String} (h : other ≠ mailbox)
    (box : UidMailbox ServerMessage) : (server.setBox mailbox box).box other = server.box other := by
  simp [MailServer.box, setBox, Function.update_of_ne h]

def Later (server server' : MailServer) : Prop :=
  ∀ mailbox, UidMailbox.Later ServerMessage.key (server.box mailbox) (server'.box mailbox)

theorem Later.refl (server : MailServer) : server.Later server := fun _ => .refl _

theorem Later.trans {a b c : MailServer} (hab : a.Later b) (hbc : b.Later c) : a.Later c :=
  fun mailbox => (hab mailbox).trans (hbc mailbox)

theorem later_setBox {mailbox : String} {box : UidMailbox ServerMessage}
    (h : UidMailbox.Later ServerMessage.key (server.box mailbox) box) :
    server.Later (server.setBox mailbox box) := by
  intro other
  by_cases heq : other = mailbox
  · rw [heq, box_setBox_self]
    exact h
  · rw [box_setBox_of_ne heq]
    exact .refl _

theorem later_deliver (mailbox : String) (message : ServerMessage) (skip : ℕ) :
    server.Later (server.deliver mailbox message skip) :=
  later_setBox (UidMailbox.later_append message skip)

theorem later_expunge (mailbox : String) (uid : ℕ) : server.Later (server.expunge mailbox uid) :=
  later_setBox (UidMailbox.later_expunge uid)

theorem later_store (mailbox : String) (uid : ℕ) {f : ServerMessage → ServerMessage}
    (hf : ∀ message, (f message).key = message.key) :
    server.Later (server.store mailbox uid f) :=
  later_setBox (UidMailbox.later_store uid hf)

theorem box_move_target {mailbox target : String} (h : target ≠ mailbox) {uid skip : ℕ}
    {message : ServerMessage} (hfetch : (server.box mailbox).fetch uid = some message) :
    (server.move mailbox uid target skip).box target =
      (server.box target).append message skip := by
  unfold move
  rw [hfetch]
  dsimp only
  rw [deliver, box_setBox_self, expunge, box_setBox_of_ne h]

theorem later_move (mailbox : String) (uid : ℕ) (target : String) (skip : ℕ) :
    server.Later (server.move mailbox uid target skip) := by
  unfold move
  split
  · exact .refl server
  · exact (later_expunge mailbox uid).trans (later_deliver target _ skip)

/-- What other clients and arriving mail do to a server. -/
inductive ServerChange
  | deliver (mailbox : String) (message : ServerMessage) (skip : ℕ)
  | expunge (mailbox : String) (uid : ℕ)
  | move (mailbox : String) (uid : ℕ) (target : String) (skip : ℕ)
  | edit (mailbox : String) (uid : ℕ) (seen flagged : Bool) (gmailLabels : Option (List String))
  deriving DecidableEq, Repr

def change (server : MailServer) : ServerChange → MailServer
  | .deliver mailbox message skip => server.deliver mailbox message skip
  | .expunge mailbox uid => server.expunge mailbox uid
  | .move mailbox uid target skip => server.move mailbox uid target skip
  | .edit mailbox uid seen flagged gmailLabels =>
    server.store mailbox uid fun m => { m with seen, flagged, gmailLabels }

theorem later_change (change : ServerChange) : server.Later (server.change change) := by
  cases change with
  | deliver mailbox message skip => exact later_deliver mailbox message skip
  | expunge mailbox uid => exact later_expunge mailbox uid
  | move mailbox uid target skip => exact later_move mailbox uid target skip
  | edit mailbox uid seen flagged gmailLabels => exact later_store mailbox uid fun _ => rfl

end MailServer

abbrev MailServers := Endpoint → MailServer

theorem later_update {servers : MailServers} {endpoint : Endpoint} {server : MailServer}
    (h : (servers endpoint).Later server) (other : Endpoint) :
    (servers other).Later (Function.update servers endpoint server other) := by
  by_cases heq : other = endpoint
  · rw [heq, Function.update_self]
    exact h
  · rw [Function.update_of_ne heq]
    exact .refl _

structure RemoteMessageLocator where
  mailbox : String
  uid : ℕ
  messageId : Option String
  deriving DecidableEq, Repr

structure RemoteMessageFlagPatch where
  unread : Option Bool
  flagged : Option Bool
  deriving DecidableEq, Repr

structure RemoteMailbox where
  path : String
  specialUse : Option String
  deriving DecidableEq, Repr

structure RemoteMoveConfirmation where
  confirmed : Bool
  uid : Option ℕ
  deriving DecidableEq, Repr

/-- `special_use` -/
def NameAttribute.specialUse : NameAttribute → Option String
  | archive => some "\\Archive"
  | all => some "\\All"
  | trash => some "\\Trash"
  | sent => some "\\Sent"
  | drafts => some "\\Drafts"
  | junk => some "\\Junk"
  | noSelect | other => none

def ListedMailbox.specialUse (mailbox : ListedMailbox) : Option String :=
  mailbox.attributes.findSome? NameAttribute.specialUse

abbrev Cut := Option (ℕ × String)

/-- How many of `n` commands take effect. -/
def Cut.done (cut : Cut) (n : ℕ) : ℕ := (cut.map Prod.fst).getD n

def Cut.result {α : Type} (cut : Cut) (value : α) : Except String α :=
  match cut with
  | none => .ok value
  | some (_, failure) => .error failure

namespace MailServer

variable (server : MailServer)

/-- The `UID STORE` commands of a patch. -/
def flagCommands (patch : RemoteMessageFlagPatch) : List (ServerMessage → ServerMessage) :=
  (patch.unread.map fun unread m => { m with seen := !unread }).toList ++
    (patch.flagged.map fun flagged m => { m with flagged := flagged }).toList

def updateFlags (locator : RemoteMessageLocator) (patch : RemoteMessageFlagPatch) (cut : Cut) :
    Except String Unit × MailServer :=
  let commands := flagCommands patch
  (cut.result (),
    (commands.take (cut.done commands.length)).foldl
      (fun server command => server.store locator.mailbox locator.uid command) server)

def listMailboxes : List RemoteMailbox :=
  server.listed.map fun mailbox => ⟨mailbox.path, mailbox.specialUse⟩

def moveMessage (locator : RemoteMessageLocator) (target : String) (skip : ℕ) (cut : Cut) :
    Except String RemoteMoveConfirmation × MailServer :=
  (cut.result { confirmed := true, uid := none },
    if 0 < cut.done 1 then server.move locator.mailbox locator.uid target skip else server)

variable {server}

theorem later_updateFlags (locator : RemoteMessageLocator) (patch : RemoteMessageFlagPatch)
    (cut : Cut) : server.Later (server.updateFlags locator patch cut).2 := by
  have hkeys : ∀ f ∈ flagCommands patch, ∀ m : ServerMessage, (f m).key = m.key := by
    intro f hf m
    simp only [flagCommands, List.mem_append, Option.mem_toList, Option.map_eq_some_iff] at hf
    rcases hf with ⟨_, _, rfl⟩ | ⟨_, _, rfl⟩ <;> rfl
  unfold updateFlags
  dsimp only
  generalize hcommands : (flagCommands patch).take (cut.done (flagCommands patch).length) = commands
  have hsub : ∀ f ∈ commands, ∀ m : ServerMessage, (f m).key = m.key := by
    intro f hf
    exact hkeys f (List.mem_of_mem_take (hcommands ▸ hf))
  clear hcommands
  induction commands generalizing server with
  | nil => exact .refl server
  | cons f commands ih =>
    rw [List.foldl_cons]
    exact (later_store _ _ (hsub f List.mem_cons_self)).trans
      (ih fun g hg => hsub g (List.mem_cons_of_mem _ hg))

theorem later_moveMessage (locator : RemoteMessageLocator) (target : String) (skip : ℕ)
    (cut : Cut) : server.Later (server.moveMessage locator target skip cut).2 := by
  unfold moveMessage
  dsimp only
  split_ifs
  · exact later_move _ _ _ _
  · exact .refl server

end MailServer

end IMail
