import IMail.Store.OutboxSpec

/-!
# Requests to the outbox

`schedule_message` and the operations of `execute` in `imail-http/src/outbox.rs` that
write. A request comes with the user that the session belongs to, the clock and the
identifier that `Uuid::new_v4` gives a new item.
-/

namespace IMail

structure EmbeddedOperationError where
  status : ℕ
  message : String
  deriving DecidableEq, Repr

structure ScheduleInput where
  sendAt : String
  requestId : String
  message : SendInput
  deriving DecidableEq, Repr

/-- The body of a request: absent, not of the right form, or decoded. -/
inductive RequestBody (α : Type)
  | missing
  | malformed
  | decoded (value : α)
  deriving DecidableEq, Repr

inductive OutboxResolution
  | sent | notSent
  deriving DecidableEq, Repr

inductive OutboxRequest
  | schedule (input : RequestBody ScheduleInput)
  | cancel (id : Option String)
  | retry (id : Option String)
  | resolve (id : Option String) (input : RequestBody OutboxResolution)
  deriving DecidableEq, Repr

inductive OutboxReply
  | scheduled (item : OutboxItem)
  | cancelled
  | queued
  | resolved (status : OutboxStatus)
  deriving DecidableEq, Repr

/-- `safe_error` -/
def safeError : AuthStoreError → EmbeddedOperationError
  | .accountNotOwned => ⟨400, "发件账户不存在或不属于当前用户"⟩
  | .invalidContentData => ⟨400, "待发送邮件内容无效"⟩
  | .idempotencyConflict => ⟨409, "该请求 ID 已用于另一封定时邮件"⟩
  | _ => ⟨500, "发件箱暂时不可用"⟩

def invalidSchedule : EmbeddedOperationError := ⟨400, "待发送邮件参数无效"⟩

section

variable [Platform]

def scheduleTime (value : String) (now : Time) : Except EmbeddedOperationError Time :=
  match Platform.parseRfc3339 value with
  | none => .error ⟨400, "定时发送时间无效"⟩
  | some parsed =>
    if parsed < now - 5000 ∨ now + 365 * 24 * 60 * 60 * 1000 < parsed then
      .error ⟨400, "定时发送时间必须在现在至一年内"⟩
    else .ok parsed

/-- `schedule_message`. The draft is taken as it is named: only the account of the message is
checked against the user. -/
def scheduleMessage (db : Db) (owner newId requestId sendAt : String)
    (message : SendMessageInput) (draftId : Option String) (now : Time) :
    Except EmbeddedOperationError (OutboxItem × Db) :=
  if !Platform.isUuid requestId || !validateSendMessage message then .error invalidSchedule
  else
    match scheduleTime sendAt now with
    | .error e => .error e
    | .ok scheduledAt =>
      (scheduleOutbox db owner
        { id := newId
          message
          draftId
          idempotencyKey := requestId
          scheduledAt
          now }).mapError safeError

def orConflict (message : String) (reply : OutboxReply) :
    Bool × Db → Except EmbeddedOperationError (OutboxReply × Db)
  | (true, db) => .ok (reply, db)
  | (false, _) => .error ⟨409, message⟩

def execute (db : Db) (owner newId : String) (request : OutboxRequest) (now : Time) :
    Except EmbeddedOperationError (OutboxReply × Db) :=
  match request with
  | .schedule .missing => .error ⟨400, "缺少待发送邮件"⟩
  | .schedule .malformed => .error invalidSchedule
  | .schedule (.decoded input) =>
    match validateSend input.message with
    | none => .error invalidSchedule
    | some (message, draftId) =>
      (scheduleMessage db owner newId input.requestId input.sendAt message draftId now).map
        fun (item, db) => (.scheduled item, db)
  | .cancel id =>
    orConflict "该邮件已进入发送阶段，无法取消" .cancelled (cancelOutbox db owner (id.getD "") now)
  | .retry id =>
    orConflict "只有明确失败的邮件可以重试" .queued (retryOutbox db owner (id.getD "") now)
  | .resolve _ .missing => .error ⟨400, "缺少人工核对结果"⟩
  | .resolve _ .malformed => .error ⟨400, "人工核对结果无效"⟩
  | .resolve id (.decoded resolution) =>
    let wasSent := resolution = .sent
    orConflict "只有待人工核对的邮件可以处置"
      (.resolved (if wasSent then .sent else .cancelled))
      (resolveOutbox db owner (id.getD "") wasSent now)

variable {message : SendMessageInput} {draftId : Option String}

theorem validateSend_draftId {input : SendInput}
    (h : validateSend input = some (message, draftId)) : draftId = input.draftId := by
  unfold validateSend at h
  dsimp only at h
  split_ifs at h
  cases h
  rfl

/-- A scheduled message leaves the store as it was, or adds one item of the user, with the
draft that was named. -/
theorem scheduleMessage_ok {db db' : Db} {owner newId requestId sendAt : String} {now : Time}
    {item : OutboxItem}
    (h : scheduleMessage db owner newId requestId sendAt message draftId now = .ok (item, db')) :
    db' = db ∨ item.userId = owner ∧ item.draftId = draftId ∧
      db' = { db with outboxItems := db.outboxItems ++ [item] } := by
  unfold scheduleMessage at h
  split_ifs at h
  split at h
  · cases h
  · cases hschedule : scheduleOutbox db owner _ with
    | error e =>
      rw [hschedule] at h
      cases h
    | ok result =>
      rw [hschedule] at h
      cases h
      rcases scheduleOutbox_ok hschedule with rfl | ⟨rfl, rfl⟩
      · exact Or.inl rfl
      · exact Or.inr ⟨rfl, rfl, rfl⟩

end

end IMail
