import IMail.Store.Rules

/-!
# Remote actions of rules

`claim_rule_action` and `finish_rule_action` of `imail-storage-sqlite/src/rules.rs`, and
`record_message_created` of `sync_runtime.rs`. A claim leases one action of one run; the
action's result is stored with the columns that it changes.
-/

namespace IMail

open Relational

structure RuleWork where
  id : String
  message : Message
  action : RuleAction
  index : ℕ
  lease : Time
  deriving DecidableEq, Repr

structure RemoteMessageMoveResult where
  mailbox : String
  uid : Option ℕ
  deriving DecidableEq, Repr

/-- A run whose lease is over: an archive that may have happened is left for review. -/
def interruptedRun (now : Time) (run : MailRuleRun) : MailRuleRun :=
  { run with
    status := if run.actions[run.completedActions]? = some .archive then .needsReview else .pending
    errorCode := some "INTERRUPTED"
    updatedAt := now }

/-- The first two statements of a claim: leases that are over, and runs of an older revision
of their rule. -/
def Db.recoverRuns (db : Db) (owner account : String) (now : Time) : List MailRuleRun :=
  let runs := updateWhere (fun r => r.userId == owner && r.accountId == account &&
      r.status = .running && r.leaseUntil.any (· < now)) (interruptedRun now) db.mailRuleRuns
  updateWhere (fun r => r.userId == owner && r.accountId == account && r.status = .pending &&
      !db.currentRevision r)
    (fun r => { r with status := .cancelled, leaseUntil := none, updatedAt := now }) runs

/-- An earlier run for the same message that is not settled comes first. -/
def blockedRun (runs : List MailRuleRun) (run : MailRuleRun) : Bool :=
  runs.any fun earlier => earlier.accountId == run.accountId && earlier.identity == run.identity &&
    earlier.sequence < run.sequence && (earlier.status = .pending || earlier.status = .running ||
      earlier.status = .failed || earlier.status = .needsReview)

def nextRun (runs : List MailRuleRun) (owner account : String) (now : Time) :
    Option MailRuleRun :=
  firstBy (fun a b => a.sequence < b.sequence)
    (runs.filter fun r => r.userId == owner && r.accountId == account && r.status = .pending &&
      (r.leaseUntil.all (· ≤ now)) && !blockedRun runs r)

theorem recoverRuns_ids {db : Db} (h : UniqueBy (fun r => some r.id) db.mailRuleRuns)
    (owner account : String) (now : Time) :
    UniqueBy (fun r => some r.id) (db.recoverRuns owner account now) := by
  unfold Db.recoverRuns
  apply UniqueBy.updateWhere
  · apply h.updateWhere
    exact fun r _ _ k hk => hk
  · exact fun r _ _ k hk => hk

def messageLost (now : Time) (r : MailRuleRun) : MailRuleRun :=
  { r with status := .failed, errorCode := some "MESSAGE_NOT_FOUND", updatedAt := now }

def handedOut (lease now : Time) (r : MailRuleRun) : MailRuleRun :=
  { r with
    status := .running
    leaseUntil := some lease
    attempts := r.attempts + 1
    updatedAt := now }

/-- `claim_rule_action`; `later` is the second reading of the clock. -/
def claimRuleAction (db : Db) (owner account : String) (now later : Time) :
    Except AuthStoreError (Option RuleWork × Db) :=
  if !db.ownsAccount owner account then .error .accountNotOwned
  else
    let runs := db.recoverRuns owner account now
    match nextRun runs owner account now with
    | none => .ok (none, { db with mailRuleRuns := runs })
    | some run =>
      match run.actions[run.completedActions]? with
      | none => .error .invalidContentData
      | some action =>
        match ruleMessage db owner run.messageId with
        | none =>
          .ok (none, { db with
            mailRuleRuns := updateWhere (fun r => r.id == run.id)
              (messageLost now) runs })
        | some message =>
          let lease := later + minutes 10
          .ok (some ⟨run.id, message, action, run.completedActions, lease⟩, { db with
            mailRuleRuns := updateWhere (fun r => r.id == run.id)
              (handedOut lease now) runs })

def RuleAction.finish (action : RuleAction) (moved : Option RemoteMessageMoveResult) :
    Except AuthStoreError (Message → Message) :=
  match action with
  | .markRead read => .ok fun m => { m with unread := !read }
  | .flag flagged => .ok fun m => { m with flagged }
  | .archive =>
    match moved with
    | some ⟨mailbox, some uid⟩ =>
      .ok fun m => { m with mailbox, mailboxRole := "archive", uid, snoozedUntil := none }
    | some ⟨_, none⟩ | none => .error .invalidContentData
  | .addLabel _ | .removeLabel _ | .mute _ => .error .invalidContentData

/-- `UNIQUE(account_id, mailbox, uid)` -/
def uniquePlaces (messages : List Message) : Bool :=
  messages.all fun m => messages.all fun n =>
    m.id == n.id || m.accountId != n.accountId || m.mailbox != n.mailbox || m.uid != n.uid

def Db.advanceRun (db : Db) (now : Time) (run : MailRuleRun) : MailRuleRun :=
  { run with
    completedActions := run.completedActions + 1
    status := if run.completedActions + 1 = run.actions.length then .succeeded
      else if !db.currentRevision run then .cancelled else .pending
    attempts := 0
    errorCode := none
    leaseUntil := none
    updatedAt := now }

def storedCode (code : String) : String :=
  if code = "MESSAGE_NOT_FOUND" ∨ code = "MOVE_UNCONFIRMED" ∨ code = "CANCELLED" then code
  else "REMOTE_ACTION_FAILED"

def Db.failRun (db : Db) (action : RuleAction) (code : String) (now later : Time)
    (run : MailRuleRun) : MailRuleRun :=
  { run with
    status := if action = .archive then .needsReview
      else if !db.currentRevision run then .cancelled
      else if 3 ≤ run.attempts then .failed else .pending
    errorCode := some (storedCode code)
    leaseUntil := some (later + minutes 1)
    updatedAt := now }

def RuleWork.valid (db : Db) (owner : String) (work : RuleWork) : Bool :=
  db.mailRuleRuns.any fun r => r.id == work.id && r.userId == owner && r.status = .running &&
    r.completedActions == work.index && r.leaseUntil == some work.lease

def finishRuleAction (db : Db) (owner : String) (work : RuleWork)
    (result : Except String (Option RemoteMessageMoveResult)) (now later : Time) :
    Except AuthStoreError Db :=
  if !work.valid db owner then .error .invalidContentData
  else
    match result with
    | .ok moved =>
      match work.action.finish moved with
      | .error e => .error e
      | .ok f =>
        let messages := updateWhere
          (fun m => m.id == work.message.id && m.accountId == work.message.accountId) f db.messages
        if uniquePlaces messages then
          .ok { db with
            messages
            mailRuleRuns := updateWhere (fun r => r.id == work.id) (db.advanceRun now)
              db.mailRuleRuns }
        else .error .constraint
    | .error code =>
      .ok { db with
        mailRuleRuns := updateWhere (fun r => r.id == work.id)
          (db.failRun work.action code now later) db.mailRuleRuns }

/-- A claim finds no run, or one whose message is gone, or it hands out an action of one. -/
inductive RuleClaim (db : Db) (owner account : String) (now later : Time) :
    Option RuleWork → Db → Prop
  | nothing (next : nextRun (db.recoverRuns owner account now) owner account now = none) :
    RuleClaim db owner account now later none
      { db with mailRuleRuns := db.recoverRuns owner account now }
  | lost {run : MailRuleRun}
    (next : nextRun (db.recoverRuns owner account now) owner account now = some run) :
    RuleClaim db owner account now later none { db with
      mailRuleRuns := updateWhere (fun r => r.id == run.id) (messageLost now)
        (db.recoverRuns owner account now) }
  | handsOut {run : MailRuleRun} {action : RuleAction} {message : Message}
    (next : nextRun (db.recoverRuns owner account now) owner account now = some run)
    (action_eq : run.actions[run.completedActions]? = some action) :
    RuleClaim db owner account now later
      (some ⟨run.id, message, action, run.completedActions, later + minutes 10⟩) { db with
        mailRuleRuns := updateWhere (fun r => r.id == run.id) (handedOut (later + minutes 10) now)
          (db.recoverRuns owner account now) }

inductive RuleFinish (db : Db) (owner : String) (work : RuleWork) (now later : Time) :
    Except String (Option RemoteMessageMoveResult) → Db → Prop
  | succeeds {moved : Option RemoteMessageMoveResult} {f : Message → Message}
    (valid : work.valid db owner = true) (finish_eq : work.action.finish moved = .ok f) :
    RuleFinish db owner work now later (.ok moved) { db with
      messages := updateWhere
        (fun m => m.id == work.message.id && m.accountId == work.message.accountId) f db.messages
      mailRuleRuns := updateWhere (fun r => r.id == work.id) (db.advanceRun now) db.mailRuleRuns }
  | fails {code : String} (valid : work.valid db owner = true) :
    RuleFinish db owner work now later (.error code) { db with
      mailRuleRuns := updateWhere (fun r => r.id == work.id)
        (db.failRun work.action code now later) db.mailRuleRuns }

section

variable {db db' : Db} {owner account : String} {now later : Time}

section

variable {work : Option RuleWork} (h : claimRuleAction db owner account now later = .ok (work, db'))
include h

theorem claimRuleAction_ok : RuleClaim db owner account now later work db' := by
  unfold claimRuleAction at h
  split_ifs at h
  dsimp only at h
  split at h
  · rename_i hnext
    cases h
    exact .nothing hnext
  · rename_i run hnext
    split at h
    · cases h
    · rename_i action haction
      split at h
      · cases h
        exact .lost hnext
      · cases h
        exact .handsOut hnext haction

theorem claimRuleAction_frame : db' = { db with mailRuleRuns := db'.mailRuleRuns } := by
  cases claimRuleAction_ok h <;> rfl

end

variable {work : RuleWork} {result : Except String (Option RemoteMessageMoveResult)}

theorem finishRuleAction_ok (h : finishRuleAction db owner work result now later = .ok db') :
    RuleFinish db owner work now later result db' := by
  unfold finishRuleAction at h
  split_ifs at h with hvalid
  rw [Bool.not_eq_true, Bool.not_eq_false'] at hvalid
  split at h
  · split at h
    · cases h
    · rename_i f hf
      dsimp only at h
      split_ifs at h
      cases h
      exact .succeeds hvalid hf
  · cases h
    exact .fails hvalid

theorem RuleFinish.is_valid (h : RuleFinish db owner work now later result db') :
    work.valid db owner = true := by
  cases h <;> assumption

theorem finishRuleAction_frame (h : finishRuleAction db owner work result now later = .ok db') :
    db' = { db with messages := db'.messages, mailRuleRuns := db'.mailRuleRuns } := by
  cases finishRuleAction_ok h <;> rfl

end

def isMuted (db : Db) (message : Message) : Bool :=
  ((db.ruleMessageStates.find? fun s =>
    s.accountId == message.accountId && s.identity == messageIdentity message).map
      (·.muted)).getD false

/-- `record_message_created`: one event for each message that is not muted. -/
def recordMessageCreated (accountId accountEmail : String) (now : Time) :
    List Message → Db → Except SyncRuntimeError Db
  | [], db => .ok db
  | message :: messages, db =>
    if message.accountId ≠ accountId then .error (.invalidInput "message owner")
    else if isMuted db message then recordMessageCreated accountId accountEmail now messages db
    else if db.hasAccount accountId then
      recordMessageCreated accountId accountEmail now messages
        { db with
          syncEvents := db.syncEvents ++
            [{ id := db.syncEventSequence + 1
               accountId
               jobId := none
               payload := .messageCreated accountEmail message
               createdAt := now }]
          syncEventSequence := db.syncEventSequence + 1 }
    else .error .constraint

end IMail
