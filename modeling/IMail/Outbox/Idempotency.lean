import IMail.Outbox.Requests
import IMail.Outbox.Snapshots

/-!
# Repeated requests

A client that has lost an answer repeats its request. `schedule_message` checks the message and the
send time against the clock before `schedule_outbox` looks the request up by its id.
-/

namespace IMail

open Relational Transition

/-- What a client sends to `schedule_message`. -/
structure ScheduleRequest where
  requestId : String
  sendAt : String
  message : SendMessageInput
  draftId : Option String := none
  deriving DecidableEq, Repr

section

variable [Platform]

def ScheduleRequest.send (r : ScheduleRequest) (db : Db) (owner newId : String) (now : Time) :
    Except EmbeddedOperationError (OutboxItem × Db) :=
  scheduleMessage db owner newId r.requestId r.sendAt r.message r.draftId now

/-- What `schedule_outbox` gets of a request whose time can be read. -/
def ScheduleRequest.input (r : ScheduleRequest) (newId : String) (now : Time) : OutboxSchedule where
  id := newId
  message := r.message
  draftId := r.draftId
  idempotencyKey := r.requestId
  scheduledAt := (Platform.parseRfc3339 r.sendAt).getD 0
  now := now

def ScheduleRequest.SameAs (r r' : ScheduleRequest) : Prop :=
  r'.message = r.message ∧ r'.draftId = r.draftId ∧
    Platform.parseRfc3339 r'.sendAt = Platform.parseRfc3339 r.sendAt

instance (r r' : ScheduleRequest) : Decidable (r.SameAs r') :=
  inferInstanceAs (Decidable (_ ∧ _ ∧ _))

def ScheduleRequest.InTime (r : ScheduleRequest) (now : Time) : Prop :=
  ∃ at_ ∈ Platform.parseRfc3339 r.sendAt, now - 5000 ≤ at_ ∧ at_ ≤ now + 365 * 24 * 60 * 60 * 1000

/-- The request gets as far as the lookup. -/
structure ScheduleRequest.Passes (r : ScheduleRequest) (db : Db) (owner : String) (now : Time) :
    Prop where
  uuid : Platform.isUuid r.requestId = true
  valid : validateSendMessage r.message = true
  inTime : r.InTime now
  owned : db.ownsAccount owner r.message.accountId = true

variable {now : Time}

theorem scheduleTime_ok_iff {value : String} {at_ : Time} :
    scheduleTime value now = .ok at_ ↔ Platform.parseRfc3339 value = some at_ ∧
      now - 5000 ≤ at_ ∧ at_ ≤ now + 365 * 24 * 60 * 60 * 1000 := by
  unfold scheduleTime
  cases Platform.parseRfc3339 value with
  | none => simp
  | some parsed =>
    dsimp only
    split_ifs with hrange
    · simp only [Option.some.injEq, false_iff, not_and]
      rintro rfl hlow
      rcases hrange with hearly | hlate
      · exact absurd hearly (not_lt.mpr hlow)
      · exact not_le.mpr hlate
    · rw [not_or, not_lt, not_lt] at hrange
      simp only [Except.ok.injEq, Option.some.injEq]
      constructor
      · rintro rfl
        exact ⟨rfl, hrange⟩
      · exact fun h => h.1

variable {r : ScheduleRequest}

theorem ScheduleRequest.InTime.scheduleTime (h : r.InTime now) :
    IMail.scheduleTime r.sendAt now = .ok (r.input "" now).scheduledAt := by
  obtain ⟨at_, hparse, hlow, hhigh⟩ := h
  rw [scheduleTime_ok_iff]
  have hat : (r.input "" now).scheduledAt = at_ := by
    rw [ScheduleRequest.input, Option.mem_def.mp hparse]
    rfl
  rw [hat]
  exact ⟨hparse, hlow, hhigh⟩

variable {db : Db} {owner : String}

theorem ScheduleRequest.Passes.send_eq (h : r.Passes db owner now) (newId : String) :
    r.send db owner newId now =
      (scheduleOutbox db owner (r.input newId now)).mapError safeError := by
  unfold ScheduleRequest.send scheduleMessage
  rw [h.uuid, h.valid, if_neg (by decide), h.inTime.scheduleTime]
  rfl

theorem send_of_not_passes (h : ¬ r.Passes db owner now) (newId : String) :
    ∃ e, r.send db owner newId now = .error e ∧ e.status = 400 := by
  unfold ScheduleRequest.send scheduleMessage
  by_cases hparams : (!Platform.isUuid r.requestId || !validateSendMessage r.message) = true
  · rw [if_pos hparams]
    exact ⟨invalidSchedule, rfl, rfl⟩
  · rw [if_neg hparams]
    simp only [Bool.or_eq_true, Bool.not_eq_true', not_or, Bool.not_eq_false] at hparams
    cases htime : IMail.scheduleTime r.sendAt now with
    | error e =>
      refine ⟨e, rfl, ?_⟩
      unfold IMail.scheduleTime at htime
      split at htime
      · cases htime
        rfl
      · split_ifs at htime
        cases htime
        rfl
    | ok at_ =>
      have hinTime : r.InTime now := ⟨at_, scheduleTime_ok_iff.mp htime⟩
      have hforeign : db.ownsAccount owner r.message.accountId = false := by
        by_contra howned
        exact h ⟨hparams.1, hparams.2, hinTime, Bool.not_eq_false _ ▸ howned⟩
      refine ⟨safeError .accountNotOwned, ?_, rfl⟩
      simp [scheduleOutbox, hforeign, Except.mapError]

/-- The fingerprints of two requests are equal only if their content is: SHA-256 has no collision
here, and JSON texts determine what they stand for. -/
def NoCollision (a b : OutboxSchedule) : Prop :=
  scheduleFingerprint a = scheduleFingerprint b →
    a.message = b.message ∧ a.draftId.getD "" = b.draftId.getD "" ∧ a.scheduledAt = b.scheduledAt

instance (a b : OutboxSchedule) : Decidable (NoCollision a b) :=
  inferInstanceAs (Decidable (_ → _))

/-- What the answer to a second request with the id of the first should be. -/
def AnswersAgain (db : Db) (owner itemId newId : String) (r r' : ScheduleRequest) (now : Time) :
    Prop :=
  if r.SameAs r' then ∃ item, r'.send db owner newId now = .ok (item, db) ∧ item.id = itemId
  else r'.send db owner newId now = .error (safeError .idempotencyConflict)

def DraftsApart (r r' : ScheduleRequest) : Prop :=
  r'.message = r.message → Platform.parseRfc3339 r'.sendAt = Platform.parseRfc3339 r.sendAt →
    r'.draftId.getD "" = r.draftId.getD "" → r'.draftId = r.draftId

variable {item : OutboxItem} {r' : ScheduleRequest} {newId : String}

theorem scheduleOutbox_known {items : Db} {input : OutboxSchedule}
    (hkeys : UniqueBy OutboxItem.requestKey items.outboxItems) (hitem : item ∈ items.outboxItems)
    (huser : item.userId = owner) (hkey : item.idempotencyKey = some input.idempotencyKey)
    (howned : items.ownsAccount owner input.message.accountId = true) :
    scheduleOutbox items owner input =
      if item.requestFingerprint = some (scheduleFingerprint input) then .ok (item, items)
      else .error .idempotencyConflict := by
  have hfind : (items.outboxItems.find? fun i =>
      i.userId == owner && i.idempotencyKey == some input.idempotencyKey) = some item := by
    cases hfound : items.outboxItems.find? fun i =>
        i.userId == owner && i.idempotencyKey == some input.idempotencyKey with
    | none => exact absurd (List.find?_eq_none.mp hfound item hitem) (by simp [huser, hkey])
    | some other =>
      have hother := List.find?_some hfound
      rw [Bool.and_eq_true, beq_iff_eq, beq_iff_eq] at hother
      have hsame := hkeys.eq_of_mem (List.mem_of_find?_eq_some hfound) hitem
        (k := (owner, input.idempotencyKey)) (by simp [OutboxItem.requestKey, hother])
        (by simp [OutboxItem.requestKey, huser, hkey])
      rw [hsame]
  unfold scheduleOutbox
  rw [howned, if_neg (by decide), hfind]

theorem scheduleFingerprint_congr {a b : OutboxSchedule} (hmessage : a.message = b.message)
    (hdraft : a.draftId.getD "" = b.draftId.getD "") (htime : a.scheduledAt = b.scheduledAt) :
    scheduleFingerprint a = scheduleFingerprint b := by
  rw [scheduleFingerprint, scheduleFingerprint, hmessage, hdraft, htime]

theorem parse_eq_iff {now' : Time} (h : r.InTime now) (h' : r'.InTime now')
    (newId newId' : String) :
    Platform.parseRfc3339 r'.sendAt = Platform.parseRfc3339 r.sendAt ↔
      (r.input newId now).scheduledAt = (r'.input newId' now').scheduledAt := by
  obtain ⟨at_, hparse, _⟩ := h
  obtain ⟨at', hparse', _⟩ := h'
  simp only [ScheduleRequest.input, Option.mem_def.mp hparse, Option.mem_def.mp hparse',
    Option.getD_some, Option.some.injEq]
  exact eq_comm

/-- A second request with the id of the first, while the item of the first is there, is answered as
it should be exactly if it passes the checks. -/
theorem answersAgain_iff {w : SnapshotWorld} (h : w.Inv) {created : Time}
    (hfirst : r.InTime created) (hgiven : w.given newId = some (owner, r.input newId created))
    (hrow : ∃ item ∈ w.db.outboxItems, item.id = newId) (hid : r'.requestId = r.requestId)
    {newId' : String} (hcollision : NoCollision (r.input newId created) (r'.input newId' now)) :
    AnswersAgain w.db owner newId newId' r r' now ↔
      r'.Passes w.db owner now ∧ DraftsApart r r' := by
  obtain ⟨item, hitem, hitemId⟩ := hrow
  obtain ⟨owner', input, hgiven', hcreated, _⟩ := h.created item hitem
  rw [hitemId, hgiven] at hgiven'
  cases hgiven'
  by_cases hpasses : r'.Passes w.db owner now
  · -- the request is looked up, and the fingerprints decide
    have hsend : r'.send w.db owner newId' now =
        (if scheduleFingerprint (r.input newId created) =
            scheduleFingerprint (r'.input newId' now) then .ok (item, w.db)
          else .error .idempotencyConflict : Except AuthStoreError _).mapError safeError := by
      rw [hpasses.send_eq newId', scheduleOutbox_known h.keys hitem hcreated.userId
        (by rw [hcreated.idempotencyKey]; exact congrArg some hid.symm) hpasses.owned,
        hcreated.requestFingerprint]
      simp only [Option.some.injEq]
    have hparse := parse_eq_iff hfirst hpasses.inTime newId newId'
    by_cases hsame : r.SameAs r'
    · obtain ⟨hmessage, hdraft, htime⟩ := hsame
      have hequal := scheduleFingerprint_congr (a := r.input newId created)
        (b := r'.input newId' now) hmessage.symm (by simp [ScheduleRequest.input, hdraft])
        (hparse.mp htime)
      rw [AnswersAgain, if_pos ⟨hmessage, hdraft, htime⟩, hsend, if_pos hequal]
      constructor
      · intro _
        exact ⟨hpasses, fun _ _ _ => hdraft⟩
      · intro _
        exact ⟨item, rfl, hitemId⟩
    · rw [AnswersAgain, if_neg hsame, hsend]
      constructor
      · intro hconflict
        refine ⟨hpasses, ?_⟩
        intro hmessage htime hdraft
        rw [if_pos (scheduleFingerprint_congr hmessage.symm hdraft.symm (hparse.mp htime))]
          at hconflict
        cases hconflict
      · rintro ⟨_, hapart⟩
        rw [if_neg]
        · rfl
        · intro hequal
          obtain ⟨hmessage, hdraft, htime⟩ := hcollision hequal
          have hsent := hparse.mpr htime
          exact hsame ⟨hmessage.symm, hapart hmessage.symm hsent hdraft.symm, hsent⟩
  · obtain ⟨e, hsend, hstatus⟩ := send_of_not_passes hpasses newId'
    constructor
    · intro hagain
      exfalso
      unfold AnswersAgain at hagain
      split_ifs at hagain
      · obtain ⟨again, hok, _⟩ := hagain
        rw [hsend] at hok
        cases hok
      · rw [hsend] at hagain
        cases hagain
        cases hstatus
    · rintro ⟨hpasses', _⟩
      exact absurd hpasses' hpasses

theorem SnapshotWorld.step_accounts (w : SnapshotWorld) (op : SnapshotOp) :
    (w.step op).db.accounts = w.db.accounts := by
  cases op with
  | schedule owner input =>
    rw [SnapshotWorld.schedule_db]
    cases hcall : scheduleOutbox w.db owner input with
    | error e => rfl
    | ok answer =>
      obtain ⟨item, db⟩ := answer
      rcases scheduleOutbox_ok hcall with rfl | ⟨_, rfl⟩
      · rfl
      · rfl
  | cancel owner id now => rfl
  | retry owner id now => rfl
  | resolve owner id wasSent now =>
    simp only [SnapshotWorld.step, SnapshotWorld.close, resolveOutbox]
    split_ifs <;> rfl
  | claim now =>
    simp only [SnapshotWorld.step, SnapshotWorld.setDb, claimDueOutbox]
    split
    · rfl
    · split_ifs <;> rfl
  | complete id messageId now =>
    simp only [SnapshotWorld.step, SnapshotWorld.close, completeOutbox]
    split_ifs <;> rfl
  | fail id code message uncertain now => rfl
  | prune before => rfl
  | saveDraft userId draft =>
    simp only [SnapshotWorld.step, SnapshotWorld.setDb]
    cases hsave : upsertDraft w.db userId draft with
    | error e => rfl
    | ok db =>
      unfold upsertDraft at hsave
      split_ifs at hsave <;> cases hsave <;> rfl
  | deleteDraft userId draftId => rfl

theorem exec_accounts (w : SnapshotWorld) (ops : List SnapshotOp) :
    (exec SnapshotWorld.step w ops).db.accounts = w.db.accounts :=
  invariant_exec (fun w' : SnapshotWorld => w'.db.accounts = w.db.accounts)
    (fun w' op h => (w'.step_accounts op).trans h) ops rfl

theorem passes_of_send {db' : Db} (h : r.send db owner newId now = .ok (item, db')) :
    r.Passes db owner now ∧ scheduleOutbox db owner (r.input newId now) = .ok (item, db') := by
  have hpasses : r.Passes db owner now := by
    by_contra hnot
    obtain ⟨e, herror, _⟩ := send_of_not_passes hnot newId
    rw [h] at herror
    cases herror
  refine ⟨hpasses, ?_⟩
  rw [hpasses.send_eq newId] at h
  exact mapError_eq_ok h

/-- A request that was accepted at `t` and created an item is repeated at `t'`, when the item is
still there, or its id is used for another one. Such a request is answered as it should be exactly
if it passes the checks at `t'`; the request itself passes them until five seconds after its send
time. -/
theorem schedule_repeated_iff (db : Db) (before after : List SnapshotOp) (owner newId : String)
    (r : ScheduleRequest) (t : Time) {item : OutboxItem} {created : Db}
    (haccepted : r.send (exec SnapshotWorld.step (.start db) before).db owner newId t =
      .ok (item, created)) :
    let first := (exec SnapshotWorld.step (.start db) before).step
      (.schedule owner (r.input newId t))
    let later := exec SnapshotWorld.step first after
    first.db = created ∧
      (later.given newId = some (owner, r.input newId t) →
        (∃ i ∈ later.db.outboxItems, i.id = newId) → ∀ newId' t',
        (∀ r' : ScheduleRequest, r'.requestId = r.requestId →
          NoCollision (r.input newId t) (r'.input newId' t') →
          (AnswersAgain later.db owner newId newId' r r' t' ↔
            r'.Passes later.db owner t' ∧ DraftsApart r r')) ∧
        (t ≤ t' → (AnswersAgain later.db owner newId newId' r r t' ↔
          ∃ sendAt ∈ Platform.parseRfc3339 r.sendAt, t' - 5000 ≤ sendAt))) := by
  intro first later
  obtain ⟨hpasses, hcall⟩ := passes_of_send haccepted
  have hstart := invariant_exec SnapshotWorld.Inv SnapshotWorld.Inv.step before
    (SnapshotWorld.start_inv db)
  have hinv : later.Inv := invariant_exec SnapshotWorld.Inv SnapshotWorld.Inv.step after
    (SnapshotWorld.Inv.step _ _ hstart)
  constructor
  · show ((exec SnapshotWorld.step (.start db) before).step _).db = created
    rw [SnapshotWorld.schedule_db, hcall]
    rfl
  intro hgiven hrow newId' t'
  have hagain : ∀ r' : ScheduleRequest, r'.requestId = r.requestId →
      NoCollision (r.input newId t) (r'.input newId' t') →
      (AnswersAgain later.db owner newId newId' r r' t' ↔
        r'.Passes later.db owner t' ∧ DraftsApart r r') :=
    fun r' hid hcollision => answersAgain_iff hinv hpasses.inTime hgiven hrow hid hcollision
  refine ⟨hagain, ?_⟩
  intro htime
  rw [hagain r rfl fun _ => ⟨rfl, rfl, rfl⟩]
  constructor
  · rintro ⟨hagain', _⟩
    obtain ⟨sendAt, hparse, hlow, _⟩ := hagain'.inTime
    exact ⟨sendAt, hparse, hlow⟩
  · rintro ⟨sendAt, hparse, hlow⟩
    refine ⟨⟨hpasses.uuid, hpasses.valid, ?_, ?_⟩, fun _ _ _ => rfl⟩
    · obtain ⟨sendAt', hparse', _, hhigh⟩ := hpasses.inTime
      have hsame : sendAt' = sendAt := Option.some.inj (hparse'.symm.trans hparse)
      refine ⟨sendAt, hparse, hlow, ?_⟩
      rw [hsame] at hhigh
      exact hhigh.trans (by gcongr)
    · have haccounts : later.db.accounts =
          (exec SnapshotWorld.step (.start db) before).db.accounts := by
        rw [exec_accounts, SnapshotWorld.step_accounts]
      have howned := hpasses.owned
      unfold Db.ownsAccount at howned ⊢
      rw [haccounts]
      exact howned

end

def plainMail : SendMessageInput where
  accountId := "accountA"
  recipients := ["c@x.test"]
  subject := "s"
  text := "t"

def plainRequest : ScheduleRequest where
  requestId := "3f2504e0-4f89-41d3-9a0c-0305e82c3301"
  sendAt := "1970-01-01T00:00:00Z"
  message := plainMail

def oneSender : Db where
  accounts := [{ id := "accountA", userId := "userA", email := "a@x.test", createdAt := 0 }]

/-- The request is accepted at its send time, its message is sent, and it is repeated five seconds
later. -/
theorem schedule_repeated_sent :
    let _ := Platform.plain
    let later := exec SnapshotWorld.step ((SnapshotWorld.start oneSender).step
      (.schedule "userA" (plainRequest.input "item" 0))) [.claim 0, .complete "item" "sent" 1000]
    later.db.outboxItems.map (fun i => (i.id, i.status)) = [("item", .sent)] ∧
      AnswersAgain later.db "userA" "item" "other" plainRequest plainRequest 5000 := by
  intro platform later
  have haccepted : ∃ answer, plainRequest.send (exec SnapshotWorld.step (.start oneSender) []).db
      "userA" "item" 0 = .ok answer := ⟨_, rfl⟩
  obtain ⟨⟨item, created⟩, haccepted⟩ := haccepted
  obtain ⟨_, hagain⟩ := schedule_repeated_iff oneSender [] [.claim 0, .complete "item" "sent" 1000]
    "userA" "item" plainRequest 0 haccepted
  have hitems : later.db.outboxItems.map (fun i => (i.id, i.status)) = [("item", .sent)] := by
    subst later platform
    decide +kernel
  have hrow : ∃ i ∈ later.db.outboxItems, i.id = "item" := by
    have hmem : ("item", OutboxStatus.sent) ∈
        later.db.outboxItems.map fun i => (i.id, i.status) := by simp [hitems]
    obtain ⟨i, hi, heq⟩ := List.mem_map.mp hmem
    exact ⟨i, hi, congrArg Prod.fst heq⟩
  have hgiven : later.given "item" = some ("userA", plainRequest.input "item" 0) := by
    subst later platform
    decide +kernel
  exact ⟨hitems, ((hagain hgiven hrow "other" 5000).2 (by decide)).mpr ⟨0, rfl, by decide⟩⟩

/-- Ten seconds after the send time the same request is turned away, although its item is there. -/
theorem late_repetition_rejected :
    let _ := Platform.plain
    let later := (SnapshotWorld.start oneSender).step
      (.schedule "userA" (plainRequest.input "item" 0))
    later.given "item" = some ("userA", plainRequest.input "item" 0) ∧
      later.db.outboxItems.map (fun i => (i.id, i.status)) = [("item", .scheduled)] ∧
      plainRequest.send later.db "userA" "other" 10000 =
        .error ⟨400, "定时发送时间必须在现在至一年内"⟩ ∧
      ¬ AnswersAgain later.db "userA" "item" "other" plainRequest plainRequest 10000 := by
  intro platform later
  have hsend : plainRequest.send later.db "userA" "other" 10000 =
      .error ⟨400, "定时发送时间必须在现在至一年内"⟩ := by
    subst later platform
    decide +kernel
  refine ⟨?_, ?_, hsend, ?_⟩
  · subst later platform
    decide +kernel
  · subst later platform
    decide +kernel
  · intro hagain
    rw [AnswersAgain, if_pos ⟨rfl, rfl, rfl⟩] at hagain
    obtain ⟨item, hok, _⟩ := hagain
    rw [hsend] at hok
    cases hok

end IMail
