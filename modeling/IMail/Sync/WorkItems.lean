import IMail.Relational.Keyset
import IMail.Sync.CacheRank
import IMail.Sync.LocalState
import Mathlib.Data.Prod.Lex
import Mathlib.Data.String.Basic

/-!
# Work items of cached messages

`mail_work_items` of `imail-storage-sqlite/src/work_queue.rs`: what a user still has to do about
a message. A work item refers to the local id of its message and goes with the row
(`ON DELETE CASCADE`), so it is lost when a commit deletes the row and stores the message again,
although the commit copies labels and snoozes to the new row.
-/

namespace IMail

open Relational

inductive MailWorkStatus
  | needsReply | needsReview | followUp | waiting
  deriving DecidableEq, Repr

structure MailWorkItem where
  id : String
  userId : String
  messageId : String
  accountId : String
  status : MailWorkStatus
  dueAt : Option String := none
  note : String := ""
  draftId : Option String := none
  createdAt : String := ""
  updatedAt : String := ""
  deriving DecidableEq, Repr

structure WorkDb extends Db where
  mailWorkItems : List MailWorkItem := []

namespace WorkDb

def mailWorkItem (w : WorkDb) (owner messageId : String) : Option MailWorkItem :=
  w.mailWorkItems.find? fun i => i.userId == owner && i.messageId == messageId

/-- `ORDER BY due_at IS NULL,due_at,updated_at DESC,id` -/
def dueOrder (i : MailWorkItem) : Bool ×ₗ String ×ₗ Stringᵒᵈ ×ₗ String :=
  toLex (i.dueAt.isNone,
    toLex (i.dueAt.getD "", toLex (OrderDual.toDual i.updatedAt, i.id)))

def listMailWorkItems (w : WorkDb) (owner : String) (status : Option MailWorkStatus) :
    List MailWorkItem :=
  orderBy dueOrder (w.mailWorkItems.filter fun i =>
    i.userId == owner && status.all fun s => i.status == s)

def mergeWorkItem (item old : MailWorkItem) : MailWorkItem :=
  { old with
    status := item.status
    dueAt := item.dueAt
    note := item.note
    draftId := item.draftId.or old.draftId
    updatedAt := item.updatedAt }

/-- `INSERT ... ON CONFLICT(user_id,message_id) DO UPDATE` -/
def upsertWorkItem (w : WorkDb) (item : MailWorkItem) : Except AuthStoreError WorkDb :=
  let same : MailWorkItem → Bool := fun i => i.userId == item.userId && i.messageId == item.messageId
  if w.mailWorkItems.any same then
    .ok { w with mailWorkItems := updateWhere same (mergeWorkItem item) w.mailWorkItems }
  else if w.mailWorkItems.any fun i => i.id == item.id then .error .constraint
  else .ok { w with mailWorkItems := w.mailWorkItems ++ [item] }

def setMailWorkItem (w : WorkDb) (owner id messageId : String) (status : MailWorkStatus)
    (dueAt : Option String) (note : String) (draftId : Option String) (now : String) :
    Except AuthStoreError (MailWorkItem × WorkDb) :=
  if 4000 < (note.toList.map Text.utf16Length).sum then .error .invalidContentData
  else
    match w.ownedMessage owner messageId with
    | none => .error .contentOwnershipViolation
    | some message =>
      if draftId.any fun draft => !w.drafts.any fun d =>
          d.id == draft && w.ownsAccount owner d.accountId then
        .error .contentOwnershipViolation
      else
        match w.upsertWorkItem
            { id, userId := owner, messageId, accountId := message.accountId, status, dueAt, note
              draftId, createdAt := now, updatedAt := now } with
        | .error e => .error e
        | .ok w =>
          match w.mailWorkItem owner messageId with
          | some item => .ok (item, w)
          | none => .error .invalidContentData

/-- `DELETE FROM messages`, with the cascade to the work items. -/
def deleteMessages (w : WorkDb) (p : Message → Bool) : WorkDb where
  toDb := w.toDb.deleteMessages p
  mailWorkItems := deleteWhere
    (fun i => w.messages.any fun m => p m && m.id == i.messageId) w.mailWorkItems

def removeStale (w : WorkDb) (plan : MailboxSyncPlan) : WorkDb :=
  if plan.uidValidityChanged then
    w.deleteMessages fun m => m.accountId == plan.accountId && m.mailbox == plan.mailbox
  else
    plan.removedUids.foldl (fun w (uid : ℕ) => w.deleteMessages fun m =>
      m.accountId == plan.accountId && m.mailbox == plan.mailbox && m.uid == uid) w

def storeIncoming (plan : MailboxSyncPlan) (w : WorkDb) (message : Message) :
    Except SyncRuntimeError WorkDb :=
  (w.toDb.storeIncoming plan message).map fun db =>
    { toDb := db, mailWorkItems := (w.deleteMessages (otherCopy plan message)).mailWorkItems }

def storeAll (plan : MailboxSyncPlan) : List Message → WorkDb → Except SyncRuntimeError WorkDb
  | [], w => .ok w
  | message :: messages, w =>
    match w.storeIncoming plan message with
    | .error e => .error e
    | .ok w => w.storeAll plan messages

def applyFlags (w : WorkDb) (plan : MailboxSyncPlan) : WorkDb :=
  { w with toDb := w.toDb.applyFlags plan }

def evict (w : WorkDb) (accountId : String) : WorkDb :=
  w.deleteMessages (outdated w.messages accountId)

def writePlan (w : WorkDb) (plan : MailboxSyncPlan) (incoming : List Message)
    (completedAt : Time) : Except SyncRuntimeError WorkDb :=
  ((w.removeStale plan).storeAll plan incoming).map fun w =>
    let w := (w.applyFlags plan).evict plan.accountId
    { w with toDb := w.toDb.touchAccount plan completedAt }

/-- `commit_mailbox_sync`, with its effect on the work items. -/
def commitMailboxSync [Platform] (w : WorkDb) (runIds : RunIds) (plan : MailboxSyncPlan)
    (completedAt : Time) : Except SyncRuntimeError (MailboxSyncCommitResult × WorkDb) :=
  if plan.accountId = "" ∨ plan.mailbox = "" then .error (.invalidInput "mailbox sync plan")
  else
    match w.account plan.accountId with
    | none => .error (.invalidInput "account_id")
    | some account => do
      let before := syncMessageSummaries w.toDb plan.accountId
      let (incoming, createdMessages, db) ← prepareAll runIds account.userId
        (loadRules w.toDb account.userId) (previouslySynced w.toDb plan.accountId plan.mailbox)
        plan completedAt plan.incoming w.toDb
      let w ← { w with toDb := db }.writePlan plan incoming completedAt
      let after := syncMessageSummaries w.toDb plan.accountId
      return (⟨createdMessages, messageChanges before after⟩, w)

@[simp] theorem deleteMessages_toDb (w : WorkDb) (p : Message → Bool) :
    (w.deleteMessages p).toDb = w.toDb.deleteMessages p := rfl

@[simp] theorem removeStale_toDb (w : WorkDb) (plan : MailboxSyncPlan) :
    (w.removeStale plan).toDb = w.toDb.removeStale plan := by
  unfold removeStale Db.removeStale
  split_ifs
  · rfl
  · generalize plan.removedUids = uids
    induction uids generalizing w with
    | nil => rfl
    | cons uid uids ih => exact ih _

theorem storeAll_toDb (plan : MailboxSyncPlan) (incoming : List Message) (w : WorkDb) :
    (w.storeAll plan incoming).map (·.toDb) = w.toDb.storeAll plan incoming := by
  induction incoming generalizing w with
  | nil => rfl
  | cons n ns ih =>
    simp only [storeAll, Db.storeAll, storeIncoming]
    cases w.toDb.storeIncoming plan n with
    | error e => rfl
    | ok db => exact ih _

@[simp] theorem applyFlags_toDb (w : WorkDb) (plan : MailboxSyncPlan) :
    (w.applyFlags plan).toDb = w.toDb.applyFlags plan := rfl

variable {w w' : WorkDb} {plan : MailboxSyncPlan}

@[simp] theorem evict_toDb (w : WorkDb) (accountId : String) :
    (w.evict accountId).toDb = w.toDb.evict accountId := rfl

variable {incoming : List Message} {n : Message} {f g : Message → Option Message}
  {item : MailWorkItem}

theorem writePlan_ok {completedAt : Time} (h : w.writePlan plan incoming completedAt = .ok w') :
    ∃ stored, (w.removeStale plan).storeAll plan incoming = .ok stored ∧
      w'.messages = ((stored.applyFlags plan).evict plan.accountId).messages ∧
      w'.mailWorkItems = ((stored.applyFlags plan).evict plan.accountId).mailWorkItems := by
  obtain ⟨stored, hstore, rfl⟩ := map_eq_ok h
  exact ⟨stored, hstore, rfl, rfl⟩

/-- The key of `messages`, and the reference of the work items to it. -/
structure Valid (w : WorkDb) : Prop where
  ids : UniqueBy (fun m => some m.id) w.messages
  refs : ∀ i ∈ w.mailWorkItems, ∃ m ∈ w.messages, m.id = i.messageId

theorem Valid.eq_of_id (h : w.Valid) {m : Message} (hm : m ∈ w.messages) (hn : n ∈ w.messages)
    (hid : m.id = n.id) : m = n :=
  h.ids.eq_of_mem hm hn rfl (congrArg some hid.symm)

/-- A write turns the row `m` into `f m`, or deletes it, and keeps the items of the rows that
it does not delete. -/
structure Carries (f : Message → Option Message) (w w' : WorkDb) : Prop where
  valid : w'.Valid
  row : ∀ m ∈ w.messages, ∀ r, f m = some r → r ∈ w'.messages ∧ r.id = m.id
  items : ∀ i, i ∈ w'.mailWorkItems ↔
    i ∈ w.mailWorkItems ∧ ∃ m ∈ w.messages, m.id = i.messageId ∧ (f m).isSome

theorem Carries.congr (h : Carries f w w') (heq : ∀ m ∈ w.messages, f m = g m) :
    Carries g w w' := by
  constructor
  · exact h.valid
  · intro m hm r hr
    exact h.row m hm r ((heq m hm).trans hr)
  · intro i
    rw [h.items]
    refine and_congr_right fun _ => exists_congr fun m => and_congr_right fun hm => ?_
    rw [heq m hm]

theorem Carries.refl (h : w.Valid) : Carries some w w := by
  constructor
  · exact h
  · rintro m hm r ⟨⟩
    exact ⟨hm, rfl⟩
  · intro i
    constructor
    · intro hi
      obtain ⟨m, hm, hid⟩ := h.refs i hi
      exact ⟨hi, m, hm, hid, rfl⟩
    · exact And.left

theorem Carries.trans {a b c : WorkDb} (hab : Carries f a b) (hbc : Carries g b c) :
    Carries (fun m => (f m).bind g) a c := by
  constructor
  · exact hbc.valid
  · intro m hm r hr
    obtain ⟨k, hk, hr⟩ := Option.bind_eq_some_iff.mp hr
    obtain ⟨hkb, hkid⟩ := hab.row m hm k hk
    obtain ⟨hrc, hrid⟩ := hbc.row k hkb r hr
    exact ⟨hrc, hrid.trans hkid⟩
  · intro i
    rw [hbc.items, hab.items]
    constructor
    · rintro ⟨⟨hi, m, hm, hid, hsome⟩, k, hk, hkid, hksome⟩
      obtain ⟨r, hr⟩ := Option.isSome_iff_exists.mp hsome
      obtain ⟨hrb, hrid⟩ := hab.row m hm r hr
      have hsame : r = k := hab.valid.eq_of_id hrb hk (hrid.trans (hid.trans hkid.symm))
      subst hsame
      exact ⟨hi, m, hm, hid, by simpa [hr] using hksome⟩
    · rintro ⟨hi, m, hm, hid, hsome⟩
      obtain ⟨r, hr⟩ := Option.isSome_iff_exists.mp hsome
      obtain ⟨k, hk, hr⟩ := Option.bind_eq_some_iff.mp hr
      obtain ⟨hkb, hkid⟩ := hab.row m hm k hk
      exact ⟨⟨hi, m, hm, hid, by simp [hk]⟩, k, hkb, hkid.trans hid, by simp [hr]⟩

def rowUnless (p : Message → Bool) (m : Message) : Option Message := if p m then none else some m

theorem rowUnless_bind (p q : Message → Bool) (m : Message) :
    (rowUnless p m).bind (rowUnless q) = rowUnless (fun m => p m || q m) m := by
  unfold rowUnless
  cases hp : p m <;> simp [hp]

theorem carries_deleteMessages (h : w.Valid) (p : Message → Bool) :
    Carries (rowUnless p) w (w.deleteMessages p) := by
  have hitems : ∀ i, i ∈ (w.deleteMessages p).mailWorkItems ↔
      i ∈ w.mailWorkItems ∧ ∃ m ∈ w.messages, m.id = i.messageId ∧ p m = false := by
    intro i
    simp only [deleteMessages, mem_deleteWhere, List.any_eq_false, Bool.and_eq_true, beq_iff_eq,
      not_and]
    constructor
    · rintro ⟨hi, hkept⟩
      obtain ⟨m, hm, hid⟩ := h.refs i hi
      have hp : p m = false := by
        by_contra hp
        exact hkept m hm (by simpa using hp) hid
      exact ⟨hi, m, hm, hid, hp⟩
    · rintro ⟨hi, m, hm, hid, hp⟩
      refine ⟨hi, fun n hn hpn hnid => ?_⟩
      rw [h.eq_of_id hn hm (hnid.trans hid.symm), hp] at hpn
      cases hpn
  constructor
  · constructor
    · exact h.ids.deleteWhere p
    · intro i hi
      obtain ⟨_, m, hm, hid, hp⟩ := (hitems i).mp hi
      exact ⟨m, mem_deleteWhere.mpr ⟨hm, hp⟩, hid⟩
  · intro m hm r hr
    unfold rowUnless at hr
    split_ifs at hr with hp
    cases hr
    exact ⟨mem_deleteWhere.mpr ⟨hm, by simpa using hp⟩, rfl⟩
  · intro i
    rw [hitems]
    simp [rowUnless]

theorem carries_removeStale (h : w.Valid) (plan : MailboxSyncPlan) :
    Carries (rowUnless (stale plan)) w (w.removeStale plan) := by
  unfold removeStale
  split_ifs with hreset
  · apply (carries_deleteMessages h _).congr
    intro m _
    simp [rowUnless, stale, hreset]
  · have hfold : ∀ (uids : List ℕ) (w : WorkDb), w.Valid →
        Carries (rowUnless fun m => m.accountId == plan.accountId && m.mailbox == plan.mailbox &&
          uids.any fun uid : ℕ => m.uid == (uid : ℤ)) w
        (uids.foldl (fun w (uid : ℕ) => w.deleteMessages fun m =>
          m.accountId == plan.accountId && m.mailbox == plan.mailbox && m.uid == uid) w) := by
      intro uids
      induction uids with
      | nil =>
        intro w h
        apply (Carries.refl h).congr
        intro m _
        simp [rowUnless]
      | cons uid uids ih =>
        intro w h
        have hone := carries_deleteMessages h fun m =>
          m.accountId == plan.accountId && m.mailbox == plan.mailbox && m.uid == uid
        apply (hone.trans (ih _ hone.valid)).congr
        intro m _
        rw [rowUnless_bind]
        simp only [rowUnless, List.any_cons, Bool.and_or_distrib_left]
    apply (hfold plan.removedUids w h).congr
    intro m _
    simp [rowUnless, stale, Bool.eq_false_iff.mpr hreset]

theorem carries_of_forall (h : w.Valid) (f : Message → Message)
    (hids : UniqueBy (fun m => some m.id) w'.messages)
    (hrow : ∀ m ∈ w.messages, f m ∈ w'.messages ∧ (f m).id = m.id)
    (hitems : w'.mailWorkItems = w.mailWorkItems) : Carries (fun m => some (f m)) w w' := by
  constructor
  · constructor
    · exact hids
    · intro i hi
      obtain ⟨m, hm, hid⟩ := h.refs i (hitems ▸ hi)
      obtain ⟨hmem, hsame⟩ := hrow m hm
      exact ⟨f m, hmem, hsame.trans hid⟩
  · rintro m hm r ⟨⟩
    exact hrow m hm
  · intro i
    rw [hitems]
    constructor
    · intro hi
      obtain ⟨m, hm, hid⟩ := h.refs i hi
      exact ⟨hi, m, hm, hid, rfl⟩
    · exact And.left

/-- What storing `n` makes of a row. -/
def rowAfterOne (plan : MailboxSyncPlan) (n m : Message) : Option Message :=
  if otherCopy plan n m then none else some (if n.id == m.id then m.overwrite n else m)

def rowAfter (plan : MailboxSyncPlan) : List Message → Message → Option Message
  | [], m => some m
  | n :: ns, m => (rowAfterOne plan n m).bind (rowAfter plan ns)

theorem carries_storeIncoming (hw : w.Valid) (h : w.storeIncoming plan n = .ok w') :
    Carries (rowAfterOne plan n) w w' := by
  obtain ⟨db, hone, rfl⟩ := map_eq_ok h
  obtain ⟨upserted, hup, hmessages, _⟩ := storeIncoming_ok hone
  have hdelete := carries_deleteMessages hw (otherCopy plan n)
  have hrows : ∀ m ∈ (w.deleteMessages (otherCopy plan n)).messages,
      (if n.id == m.id then m.overwrite n else m) ∈ db.messages ∧
        (if n.id == m.id then m.overwrite n else m).id = m.id := by
    intro m hm
    rw [hmessages]
    by_cases hid : n.id = m.id
    · simp only [hid, beq_self_eq_true, if_true]
      refine ⟨?_, hid⟩
      rcases (upsertSyncMessage_ok hup).2 with ⟨_, hrows⟩ | ⟨hmissing, _⟩
      · rw [hrows]
        exact mem_updateWhere.mpr (Or.inl ⟨m, hm, by simpa using hid.symm, rfl⟩)
      · exact absurd hid.symm (hmissing m hm)
    · simp only [beq_iff_eq, hid, if_false, and_true]
      rcases (upsertSyncMessage_ok hup).2 with ⟨_, hrows⟩ | ⟨_, hrows⟩
      · rw [hrows]
        exact mem_updateWhere.mpr (Or.inr ⟨hm, by simpa using Ne.symm hid⟩)
      · rw [hrows]
        exact List.mem_append_left _ hm
  have hids : UniqueBy (fun m : Message => some m.id) db.messages :=
    hmessages ▸ (upsertSyncMessage_ids hdelete.valid.ids hup).1
  have hupsert : Carries (fun m => some (if n.id == m.id then m.overwrite n else m))
      (w.deleteMessages (otherCopy plan n))
      ⟨db, (w.deleteMessages (otherCopy plan n)).mailWorkItems⟩ :=
    carries_of_forall hdelete.valid _ hids hrows rfl
  apply (hdelete.trans hupsert).congr
  intro m _
  unfold rowUnless rowAfterOne
  cases otherCopy plan n m <;> rfl

theorem carries_storeAll (hw : w.Valid) (h : w.storeAll plan incoming = .ok w') :
    Carries (rowAfter plan incoming) w w' := by
  induction incoming generalizing w with
  | nil =>
    cases h
    exact Carries.refl hw
  | cons n ns ih =>
    simp only [storeAll] at h
    split at h
    · cases h
    · rename_i w₁ hone
      have hfirst := carries_storeIncoming hw hone
      exact hfirst.trans (ih hfirst.valid h)

theorem carries_applyFlags (h : w.Valid) (plan : MailboxSyncPlan) :
    Carries (fun m => some (flagRow plan m)) w (w.applyFlags plan) := by
  apply carries_of_forall h
  · exact applyFlags_ids h.ids plan
  · intro m hm
    rw [applyFlags_toDb, applyFlags_messages]
    exact ⟨List.mem_map_of_mem hm, flagRow_id plan m⟩
  · rfl

section

variable [Platform] {w w' : WorkDb} {runIds : RunIds} {plan : MailboxSyncPlan}
  {completedAt : Time} {result : MailboxSyncCommitResult}

theorem commit_carries (hw : w.Valid)
    (h : w.commitMailboxSync runIds plan completedAt = .ok (result, w')) :
    ∃ (incoming : List Message) (flagged : WorkDb),
      List.Forall₂ (Prepared plan) plan.incoming incoming ∧
      (∀ r, r.accountId = plan.accountId →
        (outdated flagged.messages plan.accountId r = false ↔ AmongNewest w.messages plan r)) ∧
      Carries (fun m => ((rowUnless (stale plan) m).bind (rowAfter plan incoming)).map
        (flagRow plan)) w flagged ∧
      Carries (rowUnless (outdated flagged.messages plan.accountId)) flagged w' := by
  unfold commitMailboxSync at h
  split_ifs at h
  split at h
  · cases h
  rename_i account haccount
  obtain ⟨⟨incoming, created, db⟩, hprepare, h⟩ := bind_eq_ok.mp h
  obtain ⟨written, hwrite, h⟩ := bind_eq_ok.mp h
  cases h
  obtain ⟨hforall, honly⟩ := prepareAll_ok hprepare
  have hmessages : db.messages = w.messages := by
    obtain ⟨_, _, _, rfl⟩ := honly
    rfl
  obtain ⟨stored, hstore, hrows, hitems⟩ := writePlan_ok hwrite
  have hprepared : Carries some w { w with toDb := db } := by
    apply carries_of_forall hw id
    · exact hmessages ▸ hw.ids
    · intro m hm
      exact ⟨hmessages ▸ hm, rfl⟩
    · rfl
  have hstale := carries_removeStale hprepared.valid plan
  have hstored := carries_storeAll hstale.valid hstore
  have hflags := carries_applyFlags hstored.valid plan
  have hevict := carries_deleteMessages hflags.valid
    (outdated (stored.applyFlags plan).messages plan.accountId)
  have htouched : Carries some ((stored.applyFlags plan).evict plan.accountId) w' := by
    apply carries_of_forall hevict.valid id
    · exact hrows ▸ hevict.valid.ids
    · intro m hm
      exact ⟨hrows ▸ hm, rfl⟩
    · exact hitems
  refine ⟨incoming, stored.applyFlags plan, hforall, ?_, ?_, ?_⟩
  · intro r hr
    have hdb := storeAll_toDb plan incoming ({ w with toDb := db }.removeStale plan)
    rw [hstore, removeStale_toDb] at hdb
    rw [applyFlags_toDb, applyFlags_messages]
    exact outdated_eq_false_iff hw.ids hforall hmessages hdb.symm hr
  · apply (((hprepared.trans hstale).trans hstored).trans hflags).congr
    intro m _
    rw [Option.map_eq_bind]
    rfl
  · apply (hevict.trans htouched).congr
    intro m _
    exact Option.bind_fun_some _

end

theorem Valid.upsert (hw : w.Valid) (hmessage : ∃ m ∈ w.messages, m.id = item.messageId)
    (h : w.upsertWorkItem item = .ok w') : w'.Valid := by
  unfold upsertWorkItem at h
  dsimp only at h
  split_ifs at h
  · cases h
    constructor
    · exact hw.ids
    · intro i hi
      rcases mem_updateWhere.mp hi with ⟨old, hold, _, rfl⟩ | ⟨hold, _⟩
      · exact hw.refs old hold
      · exact hw.refs i hold
  · cases h
    constructor
    · exact hw.ids
    · intro i hi
      rcases List.mem_append.mp hi with hold | hnew
      · exact hw.refs i hold
      · rw [List.mem_singleton.mp hnew]
        exact hmessage

theorem Valid.set (hw : w.Valid) {owner id messageId note now : String} {status : MailWorkStatus}
    {dueAt draftId : Option String}
    (h : w.setMailWorkItem owner id messageId status dueAt note draftId now = .ok (item, w')) :
    w'.Valid := by
  unfold setMailWorkItem at h
  split at h
  · cases h
  split at h
  · cases h
  rename_i message howned
  split at h
  · cases h
  split at h
  · cases h
  rename_i written hupsert
  have hmem := List.mem_of_find?_eq_some howned
  have hid : message.id = messageId := by
    have hfound := List.find?_some howned
    simp only [Bool.and_eq_true, beq_iff_eq] at hfound
    exact hfound.1
  have hvalid := hw.upsert ⟨message, hmem, hid⟩ hupsert
  split at h
  · cases h
    exact hvalid
  · cases h

end WorkDb

def SameWork (i j : MailWorkItem) : Prop :=
  j.userId = i.userId ∧ j.status = i.status ∧ j.dueAt = i.dueAt ∧ j.note = i.note ∧
    j.draftId = i.draftId

/-- The user has the work of `i` for a cached message with the Message-ID `x`. -/
def HasWork (w : WorkDb) (i : MailWorkItem) (x : String) : Prop :=
  ∃ j ∈ w.mailWorkItems, SameWork i j ∧
    ∃ r ∈ w.messages, r.id = j.messageId ∧ r.messageId = some x

/-- The commit leaves a row under the id of `m`, with the Message-ID `x`, and never deletes it
in between: the server still has it under its UID, no copy of it comes under another id, and it
is among the newest rows of the account, if it is the plan's. -/
structure KeepsRow (w : WorkDb) (plan : MailboxSyncPlan) (x : String) (m : Message) : Prop where
  fresh : stale plan m = false
  stored : ∃ r, WorkDb.rowAfter plan plan.incoming m = some r ∧ r.messageId = some x ∧
    (r.accountId = plan.accountId → AmongNewest w.messages plan r)

def SameRow (a b : Message) : Prop :=
  b.id = a.id ∧ b.accountId = a.accountId ∧ b.mailbox = a.mailbox ∧
    b.mailboxRole = a.mailboxRole ∧ b.messageId = a.messageId ∧ b.date = a.date

namespace WorkDb

variable {plan : MailboxSyncPlan}

variable {m m' : Message} {incoming : List Message}

theorem rowAfterOne_prepared {n n' : Message} (hn : Prepared plan n n') (hm : SameRow m m') :
    Option.Rel SameRow (rowAfterOne plan n m) (rowAfterOne plan n' m') := by
  obtain ⟨_, _, _, labels, snoozed, rfl⟩ := hn
  have hcopy : otherCopy plan { n with labels := labels, snoozedUntil := snoozed } m' =
      otherCopy plan n m := by
    obtain ⟨hid, haccount, hmailbox, hrole, hmessageId, -⟩ := hm
    simp only [otherCopy, hid, haccount, hmailbox, hrole, hmessageId]
  unfold rowAfterOne
  rw [hcopy, hm.1]
  split_ifs
  · exact .none
  · exact .some ⟨rfl, hm.2.1, rfl, rfl, rfl, rfl⟩
  · exact .some hm

theorem rowAfter_prepared {incoming' : List Message}
    (h : List.Forall₂ (Prepared plan) incoming incoming') (hm : SameRow m m') :
    Option.Rel SameRow (rowAfter plan incoming m) (rowAfter plan incoming' m') := by
  induction h generalizing m m' with
  | nil => exact .some hm
  | cons hn _ ih =>
    have hone := rowAfterOne_prepared hn hm
    simp only [rowAfter]
    generalize rowAfterOne plan _ m = r at hone ⊢
    generalize rowAfterOne plan _ m' = r' at hone ⊢
    cases hone with
    | none => exact .none
    | some hrow => exact ih hrow

theorem rowAfter_kept (h : List.Forall₂ (Prepared plan) plan.incoming incoming) (m : Message)
    (x : String) (messages : List Message) :
    (∃ r, rowAfter plan incoming m = some r ∧ r.messageId = some x ∧
      (r.accountId = plan.accountId → AmongNewest messages plan r)) ↔
      ∃ r, rowAfter plan plan.incoming m = some r ∧ r.messageId = some x ∧
        (r.accountId = plan.accountId → AmongNewest messages plan r) := by
  have hrel := rowAfter_prepared h (⟨rfl, rfl, rfl, rfl, rfl, rfl⟩ : SameRow m m)
  generalize rowAfter plan plan.incoming m = r at hrel ⊢
  generalize rowAfter plan incoming m = r' at hrel ⊢
  cases hrel with
  | none => rfl
  | @some a b hsame =>
    obtain ⟨hid, haccount, -, -, hmessageId, hdate⟩ := hsame
    have hage : b.age = a.age := Prod.ext hdate hid
    have hnewest : AmongNewest messages plan b ↔ AmongNewest messages plan a :=
      ⟨fun hb => hb.congr hage, fun ha => ha.congr hage.symm⟩
    simp [hmessageId, haccount, hnewest]

end WorkDb

section

variable [Platform] {w w' : WorkDb} {runIds : RunIds} {plan : MailboxSyncPlan}
  {completedAt : Time} {result : MailboxSyncCommitResult}

/-- After a commit the user has the work of `i` for the message `x` if, and only if, the commit
keeps the row that an item with this work refers to. -/
theorem work_item_kept_iff (hw : w.Valid)
    (h : w.commitMailboxSync runIds plan completedAt = .ok (result, w')) (i : MailWorkItem)
    (x : String) :
    HasWork w' i x ↔ ∃ j ∈ w.mailWorkItems, SameWork i j ∧
      ∃ m ∈ w.messages, m.id = j.messageId ∧ KeepsRow w plan x m := by
  obtain ⟨incoming, flagged, hforall, hrows, hwritten, hevict⟩ := WorkDb.commit_carries hw h
  constructor
  · rintro ⟨j, hj, hsame, r, hr, hrid, hx⟩
    obtain ⟨hjf, k, hk, hkid, hin⟩ := (hevict.items j).mp hj
    obtain ⟨hjw, m, hm, hmid, hsome⟩ := (hwritten.items j).mp hjf
    obtain ⟨k', hk'⟩ := Option.isSome_iff_exists.mp hsome
    obtain ⟨hk'mem, hk'id⟩ := hwritten.row m hm k' hk'
    have hkk : k' = k :=
      hwritten.valid.eq_of_id hk'mem hk (hk'id.trans (hmid.trans hkid.symm))
    have hkeep : outdated flagged.messages plan.accountId k = false := by
      simpa [WorkDb.rowUnless] using hin
    have hkr : k = r := by
      have hkw := (hevict.row k hk k (by simp [WorkDb.rowUnless, hkeep])).1
      exact hevict.valid.eq_of_id hkw hr (hkid.trans hrid.symm)
    obtain ⟨a, ha, haf⟩ := Option.map_eq_some_iff.mp hk'
    obtain ⟨b, hb, hab⟩ := Option.bind_eq_some_iff.mp ha
    have hstale : stale plan m = false ∧ m = b := by
      simpa [WorkDb.rowUnless] using hb
    obtain ⟨hstale, rfl⟩ := hstale
    refine ⟨j, hjw, hsame, m, hm, hmid, hstale, (WorkDb.rowAfter_kept hforall m x _).mp
      ⟨a, hab, by rw [← flagRow_messageId plan a, haf, hkk, hkr, hx], fun haccount => ?_⟩⟩
    have hage : k.age = a.age := by rw [← hkk, ← haf, age_flagRow]
    exact ((hrows k (by rw [← hkk, ← haf, flagRow_accountId, haccount])).mp hkeep).congr hage
  · rintro ⟨j, hj, hsame, m, hm, hmid, hkeeps⟩
    obtain ⟨a, hab, hx, hnewest⟩ := (WorkDb.rowAfter_kept hforall m x _).mpr hkeeps.stored
    have hrow : ((WorkDb.rowUnless (stale plan) m).bind (WorkDb.rowAfter plan incoming)).map
        (flagRow plan) = some (flagRow plan a) := by
      simp [WorkDb.rowUnless, hkeeps.fresh, hab]
    obtain ⟨hmem, hid⟩ := hwritten.row m hm _ hrow
    have hin : outdated flagged.messages plan.accountId (flagRow plan a) = false := by
      by_cases haccount : a.accountId = plan.accountId
      · exact (hrows _ (by rw [flagRow_accountId, haccount])).mpr
          ((hnewest haccount).congr (age_flagRow plan a).symm)
      · simp [outdated, haccount]
    have hkept : WorkDb.rowUnless (outdated flagged.messages plan.accountId) (flagRow plan a) =
        some (flagRow plan a) := by
      simp [WorkDb.rowUnless, hin]
    have hjf : j ∈ flagged.mailWorkItems :=
      (hwritten.items j).mpr ⟨hj, m, hm, hmid, by rw [hrow]; rfl⟩
    refine ⟨j, ?_, hsame, flagRow plan a, (hevict.row _ hmem _ hkept).1, hid.trans hmid, ?_⟩
    · exact (hevict.items j).mpr ⟨hjf, _, hmem, hid.trans hmid, by rw [hkept]; rfl⟩
    · rw [flagRow_messageId, hx]

end

def workDb : Except AuthStoreError (MailWorkItem × WorkDb) :=
  (WorkDb.mk labelledDb []).setMailWorkItem "u" "i" "a:1" .needsReply (some "2026-09-02T08:00:00Z")
    "call back" none "2026-09-01T08:00:00Z"

theorem valid_workDb {item : MailWorkItem} {w : WorkDb} (h : workDb = .ok (item, w)) : w.Valid := by
  have hstart : (WorkDb.mk labelledDb []).Valid := by
    constructor
    · exact List.pairwise_singleton _ _
    · intro i hi
      cases hi
  exact hstart.set h

def refetchPlan : MailboxSyncPlan where
  accountId := "a"
  mailbox := "INBOX"
  mailboxRole := "inbox"
  incoming := [{ renumberedMessage with id := "a:1", uid := 1 }]

theorem work_item_kept_refetched :
    let _ := Platform.plain
    ∃ item w, workDb = .ok (item, w) ∧
      ∃ result w', w.commitMailboxSync (fun _ _ _ => "run") refetchPlan 0 = .ok (result, w') ∧
        HasWork w' item "y" := by
  intro _
  have hfacts : workDb.toOption.any (fun pair =>
      pair.2.mailWorkItems.contains pair.1 &&
      (pair.2.commitMailboxSync (fun _ _ _ => "run") refetchPlan 0).toOption.any (fun _ => true) &&
      pair.2.messages.any fun m => m.id == pair.1.messageId && !stale refetchPlan m &&
        (WorkDb.rowAfter refetchPlan refetchPlan.incoming m).any fun r =>
          r.messageId == some "y" && decide (AmongNewest pair.2.messages refetchPlan r)) = true := by
    decide +kernel
  obtain ⟨⟨item, w⟩, hset, hfacts⟩ := exists_ok_of_any hfacts
  simp only [Bool.and_eq_true, List.any_eq_true, beq_iff_eq, Bool.not_eq_true',
    List.contains_iff_mem] at hfacts
  obtain ⟨⟨hitem, hok⟩, m, hm, ⟨⟨hid, hstale⟩, hrow⟩⟩ := hfacts
  obtain ⟨⟨result, w'⟩, hcommit, -⟩ := exists_ok_of_any hok
  refine ⟨item, w, hset, result, w', hcommit, ?_⟩
  apply (work_item_kept_iff (valid_workDb hset) hcommit item "y").mpr
  refine ⟨item, hitem, ⟨rfl, rfl, rfl, rfl, rfl⟩, m, hm, hid, hstale, ?_⟩
  obtain ⟨r, hafter, hrow⟩ := Option.any_eq_true _ _ |>.mp hrow
  rw [Bool.and_eq_true, beq_iff_eq, decide_eq_true_eq] at hrow
  exact ⟨r, hafter, hrow.1, fun _ => hrow.2⟩

/-- After a change of UIDVALIDITY the message is cached again, with its label, and the work item
is gone. -/
theorem work_item_lost_renumbered :
    let _ := Platform.plain
    ∃ item w, workDb = .ok (item, w) ∧ item ∈ w.mailWorkItems ∧ HasWork w item "y" ∧
      ∃ result w', w.commitMailboxSync (fun _ _ _ => "run") (renumberPlan renumberedMessage) 0 =
          .ok (result, w') ∧
        (∃ r ∈ w'.messages, r.messageId = some "y" ∧ r.labels = ["work"]) ∧
        ¬ HasWork w' item "y" := by
  intro _
  have hfacts : workDb.toOption.any (fun pair =>
      pair.2.mailWorkItems.contains pair.1 &&
      (pair.2.messages.any fun m => m.id == pair.1.messageId && m.messageId == some "y") &&
      (pair.2.commitMailboxSync (fun _ _ _ => "run") (renumberPlan renumberedMessage) 0).toOption.any
        fun done => done.2.mailWorkItems.isEmpty &&
          done.2.messages.any fun r => r.messageId == some "y" && r.labels == ["work"]) = true := by
    decide +kernel
  obtain ⟨⟨item, w⟩, hset, hfacts⟩ := exists_ok_of_any hfacts
  simp only [Bool.and_eq_true, List.any_eq_true, beq_iff_eq, List.contains_iff_mem] at hfacts
  obtain ⟨⟨hitem, m, hm, hid, hx⟩, hcommitted⟩ := hfacts
  obtain ⟨⟨result, w'⟩, hcommit, hafter⟩ := exists_ok_of_any hcommitted
  simp only [Bool.and_eq_true, List.any_eq_true, beq_iff_eq, List.isEmpty_iff] at hafter
  obtain ⟨hnone, hrow⟩ := hafter
  refine ⟨item, w, hset, hitem, ⟨item, hitem, ⟨rfl, rfl, rfl, rfl, rfl⟩, m, hm, hid, hx⟩, result,
    w', hcommit, hrow, ?_⟩
  rintro ⟨j, hj, _⟩
  rw [hnone] at hj
  cases hj

end IMail
