import IMail.Store.Drafts
import IMail.Store.OutboxSpec
import IMail.Transition.Run
import Mathlib.Logic.Function.Basic

/-!
# Snapshots of messages in the outbox

`schedule_outbox` stores a message as JSON, a claim decodes it, and the calls that end an item take
the content out of it. The world keeps the column next to the decoded rows, and the call that each
item was created by.
-/

namespace IMail

open Relational Transition Text

structure SnapshotWorld where
  db : Db
  /-- The column `message_json` of `outbox_items`, by the id of the row. -/
  messageJson : String → JsonObject
  /-- The owner and the input of the call of `schedule_outbox` that created an item. -/
  given : String → Option (String × OutboxSchedule)

inductive SnapshotOp
  | schedule (owner : String) (input : OutboxSchedule)
  | cancel (owner id : String) (now : Time)
  | retry (owner id : String) (now : Time)
  | resolve (owner id : String) (wasSent : Bool) (now : Time)
  | claim (now : Time)
  | complete (id messageId : String) (now : Time)
  | fail (id code message : String) (uncertain : Bool) (now : Time)
  | prune (before : Time)
  | saveDraft (userId : String) (draft : Draft)
  | deleteDraft (userId draftId : String)

def SnapshotOp.isOutbox : SnapshotOp → Bool
  | .saveDraft .. | .deleteDraft .. => false
  | _ => true

/-- The column after a statement that redacts the rows where `p` holds. -/
def redactWhere (p : OutboxItem → Bool) (items : List OutboxItem)
    (messageJson : String → JsonObject) (id : String) : JsonObject :=
  if items.any fun i => i.id == id && p i then redactJson (messageJson id) else messageJson id

def SnapshotWorld.setDb (w : SnapshotWorld) (db : Db) : SnapshotWorld := { w with db }

/-- A statement that ends the items where `p` holds. -/
def SnapshotWorld.close (w : SnapshotWorld) (p : OutboxItem → Bool) (db : Db) : SnapshotWorld :=
  { w with db, messageJson := redactWhere p w.db.outboxItems w.messageJson }

section

variable [Platform]

def SnapshotWorld.step (w : SnapshotWorld) : SnapshotOp → SnapshotWorld
  | .schedule owner input =>
    match scheduleOutbox w.db owner input with
    | .error _ => w
    | .ok (_, db) =>
      -- a request that was known inserts nothing
      if db.outboxItems.length = w.db.outboxItems.length then w.setDb db
      else
        { db
          messageJson := Function.update w.messageJson input.id input.message.toJson
          given := Function.update w.given input.id (some (owner, input)) }
  | .cancel owner id now =>
    w.close (fun i => i.userId == owner && i.id == id &&
      (i.status = .scheduled || i.status = .failed)) (cancelOutbox w.db owner id now).2
  | .retry owner id now => w.setDb (retryOutbox w.db owner id now).2
  | .resolve owner id wasSent now =>
    w.close (fun i => i.userId == owner && i.id == id && i.status = .needsReview)
      (resolveOutbox w.db owner id wasSent now).2
  | .claim now => w.setDb (claimDueOutbox w.db now).2
  | .complete id messageId now =>
    w.close (fun i => i.id == id && i.status = .sending) (completeOutbox w.db id messageId now).2
  | .fail id code message uncertain now =>
    w.setDb (failOutbox w.db id code message uncertain now).2
  | .prune before => w.setDb (pruneOutbox w.db before)
  | .saveDraft userId draft => w.setDb (committed w.db (upsertDraft w.db userId draft))
  | .deleteDraft userId draftId => w.setDb (IMail.deleteDraft w.db userId draftId).2

end

def SnapshotWorld.start (db : Db) : SnapshotWorld where
  db := { db with outboxItems := [] }
  messageJson _ := []
  given _ := none

/-- What identifies the request of an item. No call writes it. -/
structure OutboxItem.SameRequest (i i' : OutboxItem) : Prop where
  id : i'.id = i.id
  userId : i'.userId = i.userId
  accountId : i'.accountId = i.accountId
  idempotencyKey : i'.idempotencyKey = i.idempotencyKey
  requestFingerprint : i'.requestFingerprint = i.requestFingerprint

/-- The partial unique index `outbox_owner_idempotency`. -/
def OutboxItem.requestKey (i : OutboxItem) : Option (String × String) :=
  i.idempotencyKey.map fun key => (i.userId, key)

theorem OutboxItem.SameRequest.requestKey {i i' : OutboxItem} (h : i.SameRequest i') :
    i'.requestKey = i.requestKey := by
  rw [OutboxItem.requestKey, OutboxItem.requestKey, h.idempotencyKey, h.userId]

section

variable [Platform]

/-- The item is the one that a call has created. -/
structure OutboxItem.CreatedBy (i : OutboxItem) (owner : String) (input : OutboxSchedule) :
    Prop where
  userId : i.userId = owner
  accountId : i.accountId = input.message.accountId
  idempotencyKey : i.idempotencyKey = some input.idempotencyKey
  requestFingerprint : i.requestFingerprint = some (scheduleFingerprint input)

theorem OutboxItem.CreatedBy.of_same {i i' : OutboxItem} {owner : String}
    {input : OutboxSchedule} (h : i.CreatedBy owner input) (hsame : i.SameRequest i') :
    i'.CreatedBy owner input where
  userId := hsame.userId.trans h.userId
  accountId := hsame.accountId.trans h.accountId
  idempotencyKey := hsame.idempotencyKey.trans h.idempotencyKey
  requestFingerprint := hsame.requestFingerprint.trans h.requestFingerprint

/-- The rows of the outbox with their column and the calls they were created by. -/
structure Snapshots (items : List OutboxItem) (messageJson : String → JsonObject)
    (given : String → Option (String × OutboxSchedule)) : Prop where
  ids : UniqueIds items
  keys : UniqueBy OutboxItem.requestKey items
  decodes : ∀ i ∈ items, SendMessageInput.ofJson (messageJson i.id) = some i.message
  redacted : ∀ i ∈ items, i.status.isPending = false → Redacted (messageJson i.id)
  created : ∀ i ∈ items, ∃ owner input, given i.id = some (owner, input) ∧
    i.CreatedBy owner input ∧
    i.message = if i.status.isPending then input.message else compactMessage input.message

namespace Snapshots

variable {items : List OutboxItem} {messageJson : String → JsonObject}
  {given : String → Option (String × OutboxSchedule)}

variable {f : OutboxItem → OutboxItem}

variable (h : Snapshots items messageJson given)
include h

theorem update {p : OutboxItem → Bool} {column : String → JsonObject}
    (hsame : ∀ i : OutboxItem, i.SameRequest (f i))
    (hother : ∀ i ∈ items, p i = false → column i.id = messageJson i.id)
    (hrow : ∀ i ∈ items, p i = true → SendMessageInput.ofJson (column i.id) = some (f i).message ∧
      ((f i).status.isPending = false → Redacted (column i.id)) ∧
      ∀ m, i.message = (if i.status.isPending then m else compactMessage m) →
        (f i).message = if (f i).status.isPending then m else compactMessage m) :
    Snapshots (updateWhere p f items) column given := by
  constructor
  · refine h.ids.updateWhere fun i _ _ k hk => ?_
    rwa [(hsame i).id] at hk
  · refine h.keys.updateWhere fun i _ _ k hk => ?_
    rwa [(hsame i).requestKey] at hk
  all_goals
    intro i hi
    rcases mem_updateWhere.mp hi with ⟨old, hold, hp, rfl⟩ | ⟨hold, hp⟩
  · rw [(hsame old).id]
    exact (hrow old hold hp).1
  · rw [hother i hold hp]
    exact h.decodes i hold
  · rw [(hsame old).id]
    exact (hrow old hold hp).2.1
  · rw [hother i hold hp]
    exact h.redacted i hold
  · obtain ⟨owner, input, hgiven, hcreated, hm⟩ := h.created old hold
    exact ⟨owner, input, by rw [(hsame old).id, hgiven], hcreated.of_same (hsame old),
      (hrow old hold hp).2.2 _ hm⟩
  · exact h.created i hold

theorem rewrite {p : OutboxItem → Bool}
    (hpending : ∀ i, p i = true → i.status.isPending = true ∧ (f i).status.isPending = true)
    (hsame : ∀ i : OutboxItem, i.SameRequest (f i) := by exact fun i => ⟨rfl, rfl, rfl, rfl, rfl⟩)
    (hmessage : ∀ i, (f i).message = i.message := by exact fun i => rfl) :
    Snapshots (updateWhere p f items) messageJson given := by
  refine h.update hsame (fun _ _ _ => rfl) fun i hi hp => ?_
  rw [hmessage, (hpending i hp).1, (hpending i hp).2]
  exact ⟨h.decodes i hi, nofun, fun _ => id⟩

theorem close {p : OutboxItem → Bool}
    (hpending : ∀ i, p i = true → i.status.isPending = true ∧ (f i).status.isPending = false)
    (hsame : ∀ i : OutboxItem, i.SameRequest (f i) := by exact fun i => ⟨rfl, rfl, rfl, rfl, rfl⟩)
    (hmessage : ∀ i, (f i).message = compactMessage i.message := by exact fun i => rfl) :
    Snapshots (updateWhere p f items) (redactWhere p items messageJson) given := by
  refine h.update hsame (fun i hi hp => if_neg fun hany => ?_) fun i hi hp => ?_
  · obtain ⟨j, hj, hboth⟩ := List.any_eq_true.mp hany
    rw [Bool.and_eq_true, beq_iff_eq] at hboth
    have heq := h.ids.eq_of_mem hj hi (k := i.id) (by rw [hboth.1]) rfl
    rw [heq, hp] at hboth
    cases hboth.2
  · have hselected : redactWhere p items messageJson i.id = redactJson (messageJson i.id) :=
      if_pos (List.any_eq_true.mpr ⟨i, hi, by simp [hp]⟩)
    rw [hselected, hmessage, (hpending i hp).1, (hpending i hp).2]
    exact ⟨SendMessageInput.ofJson_redactJson (h.decodes i hi), fun _ => redacted_redactJson _,
      fun _ => congrArg compactMessage⟩

theorem delete (p : OutboxItem → Bool) : Snapshots (deleteWhere p items) messageJson given where
  ids := h.ids.deleteWhere p
  keys := h.keys.deleteWhere p
  decodes i hi := h.decodes i (mem_deleteWhere.mp hi).1
  redacted i hi := h.redacted i (mem_deleteWhere.mp hi).1
  created i hi := h.created i (mem_deleteWhere.mp hi).1

theorem insert {owner : String} {input : OutboxSchedule} (hnew : ∀ i ∈ items, i.id ≠ input.id)
    (hkey : ∀ i ∈ items, ¬ (i.userId = owner ∧ i.idempotencyKey = some input.idempotencyKey)) :
    Snapshots (items ++ [scheduledItem owner (scheduleFingerprint input) input])
      (Function.update messageJson input.id input.message.toJson)
      (Function.update given input.id (some (owner, input))) := by
  have hold : ∀ i ∈ items, Function.update messageJson input.id input.message.toJson i.id =
      messageJson i.id ∧
      Function.update given input.id (some (owner, input)) i.id = given i.id := by
    intro i hi
    exact ⟨Function.update_of_ne (hnew i hi) _ _, Function.update_of_ne (hnew i hi) _ _⟩
  constructor
  · apply h.ids.append
    intro i hi k hk hk'
    exact hnew i hi (Option.some.inj (hk.trans hk'.symm))
  · apply h.keys.append
    intro i hi k hk hk'
    cases hk'
    obtain ⟨key, hkeyi, heq⟩ := Option.map_eq_some_iff.mp hk
    cases heq
    exact hkey i hi ⟨rfl, hkeyi⟩
  · intro i hi
    rcases List.mem_append.mp hi with hi | hi
    · rw [(hold i hi).1]
      exact h.decodes i hi
    · rw [List.mem_singleton.mp hi]
      show SendMessageInput.ofJson
        (Function.update messageJson input.id input.message.toJson input.id) = some input.message
      rw [Function.update_self]
      exact SendMessageInput.ofJson_toJson input.message
  · intro i hi hclosed
    rcases List.mem_append.mp hi with hi | hi
    · rw [(hold i hi).1]
      exact h.redacted i hi hclosed
    · rw [List.mem_singleton.mp hi] at hclosed
      cases hclosed
  · intro i hi
    rcases List.mem_append.mp hi with hi | hi
    · rw [(hold i hi).2]
      exact h.created i hi
    · rw [List.mem_singleton.mp hi]
      exact ⟨owner, input, Function.update_self .., ⟨rfl, rfl, rfl, rfl⟩, rfl⟩

end Snapshots

def SnapshotWorld.Inv (w : SnapshotWorld) : Prop :=
  Snapshots w.db.outboxItems w.messageJson w.given

theorem SnapshotWorld.start_inv (db : Db) : (SnapshotWorld.start db).Inv where
  ids := List.Pairwise.nil
  keys := List.Pairwise.nil
  decodes i hi := by cases hi
  redacted i hi := by cases hi
  created i hi := by cases hi

theorem SnapshotWorld.Inv.claim {w : SnapshotWorld} (h : w.Inv) (now : Time) :
    (w.setDb (claimDueOutbox w.db now).2).Inv := by
  have hreview : Snapshots (reviewExpired now w.db.outboxItems) w.messageJson w.given := by
    refine Snapshots.rewrite h fun i hp => ?_
    simp only [Bool.and_eq_true, decide_eq_true_eq] at hp
    rw [hp.1]
    exact ⟨rfl, rfl⟩
  have hclaim : ∀ id, Snapshots (updateWhere (fun i => i.id == id && i.status = .scheduled)
      (claimItem now) (reviewExpired now w.db.outboxItems)) w.messageJson w.given := by
    intro id
    refine hreview.rewrite fun i hp => ?_
    simp only [Bool.and_eq_true, decide_eq_true_eq] at hp
    rw [hp.2]
    exact ⟨rfl, rfl⟩
  unfold SnapshotWorld.Inv SnapshotWorld.setDb claimDueOutbox
  dsimp only
  split
  · exact hreview
  · split_ifs
    · exact hclaim _
    · exact hclaim _

theorem SnapshotWorld.Inv.step (w : SnapshotWorld) (op : SnapshotOp) (h : w.Inv) :
    (w.step op).Inv := by
  cases op with
  | schedule owner input =>
    simp only [SnapshotWorld.step]
    cases hcall : scheduleOutbox w.db owner input with
    | error e => exact h
    | ok answer =>
      obtain ⟨item, db⟩ := answer
      rcases scheduleOutbox_cases hcall with rfl | ⟨rfl, rfl, hnew, hkey⟩
      · simp only [if_true]
        exact h
      · have hlength : (w.db.outboxItems ++
            [scheduledItem owner (scheduleFingerprint input) input]).length ≠
            w.db.outboxItems.length := by simp
        simp only [if_neg hlength]
        exact Snapshots.insert h hnew hkey
  | cancel owner id now =>
    refine Snapshots.close h fun i hp => ?_
    simp only [Bool.and_eq_true, Bool.or_eq_true, decide_eq_true_eq] at hp
    rcases hp.2 with hstatus | hstatus
    · rw [hstatus]
      exact ⟨rfl, rfl⟩
    · rw [hstatus]
      exact ⟨rfl, rfl⟩
  | retry owner id now =>
    refine Snapshots.rewrite h fun i hp => ?_
    simp only [Bool.and_eq_true, decide_eq_true_eq] at hp
    rw [hp.2]
    exact ⟨rfl, rfl⟩
  | resolve owner id wasSent now =>
    unfold SnapshotWorld.Inv
    simp only [SnapshotWorld.step, SnapshotWorld.close, resolveOutbox_outboxItems]
    refine Snapshots.close h fun i hp => ?_
    simp only [Bool.and_eq_true, decide_eq_true_eq] at hp
    rw [hp.2]
    cases wasSent with
    | true => exact ⟨rfl, rfl⟩
    | false => exact ⟨rfl, rfl⟩
  | claim now => exact h.claim now
  | complete id messageId now =>
    unfold SnapshotWorld.Inv
    simp only [SnapshotWorld.step, SnapshotWorld.close, completeOutbox_outboxItems]
    refine Snapshots.close h fun i hp => ?_
    simp only [Bool.and_eq_true, decide_eq_true_eq] at hp
    rw [hp.2]
    exact ⟨rfl, rfl⟩
  | fail id code message uncertain now =>
    refine Snapshots.rewrite h fun i hp => ?_
    simp only [Bool.and_eq_true, decide_eq_true_eq] at hp
    rw [hp.2]
    cases uncertain with
    | true => exact ⟨rfl, rfl⟩
    | false => exact ⟨rfl, rfl⟩
  | prune before => exact Snapshots.delete h _
  | saveDraft userId draft =>
    have hitems : (committed w.db (upsertDraft w.db userId draft)).outboxItems =
        w.db.outboxItems := by
      cases hsave : upsertDraft w.db userId draft with
      | error e => rfl
      | ok db' => exact upsertDraft_outboxItems hsave
    unfold SnapshotWorld.Inv
    simp only [SnapshotWorld.step, SnapshotWorld.setDb, hitems]
    exact h
  | deleteDraft userId draftId => exact h

end

def BecomesSent (items items' : List OutboxItem) (draftId : String) : Prop :=
  ∃ i ∈ items, ∃ i' ∈ items', i'.id = i.id ∧ i.draftId = some draftId ∧
    i.status ≠ .sent ∧ i'.status = .sent

def SendsNone (items items' : List OutboxItem) : Prop :=
  ∀ i ∈ items', i.status = .sent → i ∈ items

theorem SendsNone.not_becomesSent {items items' : List OutboxItem} (hunique : UniqueIds items)
    (h : SendsNone items items') (draftId : String) : ¬ BecomesSent items items' draftId := by
  rintro ⟨i, hi, i', hi', hid, _, hnot, hsent⟩
  have heq := hunique.eq_of_mem (h i' hi' hsent) hi (k := i.id) (by rw [hid]) rfl
  rw [heq] at hsent
  exact hnot hsent

theorem sendsNone_updateWhere {items : List OutboxItem} {p : OutboxItem → Bool}
    {f : OutboxItem → OutboxItem} (h : ∀ i, p i = true → (f i).status ≠ .sent) :
    SendsNone items (updateWhere p f items) := by
  intro i hi hsent
  rcases mem_updateWhere.mp hi with ⟨old, _, hp, rfl⟩ | ⟨hold, _⟩
  · exact absurd hsent (h old hp)
  · exact hold

theorem sendsNone_claim (db : Db) (now : Time) :
    SendsNone db.outboxItems (claimDueOutbox db now).2.outboxItems := by
  have hreview : SendsNone db.outboxItems (reviewExpired now db.outboxItems) :=
    sendsNone_updateWhere fun i _ => by simp
  have hclaim : ∀ p, SendsNone db.outboxItems
      (updateWhere p (claimItem now) (reviewExpired now db.outboxItems)) := by
    intro p i hi hsent
    exact hreview i (sendsNone_updateWhere (fun i _ => by simp [claimItem]) i hi hsent) hsent
  unfold claimDueOutbox
  dsimp only
  split
  · exact hreview
  · split_ifs
    · exact hclaim _
    · exact hclaim _

/-- The statement of `complete_outbox` and `resolve_outbox` that marks an item as sent, followed by
the deletion of its draft: the drafts that go are those of an item that becomes sent. -/
theorem draft_deleted_iff (id : String) {db : Db} (hunique : UniqueIds db.outboxItems)
    {p q : OutboxItem → Bool} {f : OutboxItem → OutboxItem}
    (hp : ∀ i, p i = true → i.id = id ∧ i.status ≠ .sent ∧ q (f i) = true)
    (hf : ∀ i, (f i).id = i.id ∧ (f i).draftId = i.draftId ∧ (f i).status = .sent)
    (hq : ∀ i, q i = true → i.id = id) {d : Draft} (hd : d ∈ db.drafts) :
    d ∉ (if (db.updateItems p f).1 then (db.updateItems p f).2.deleteDraftOf q
        else (db.updateItems p f).2).drafts ↔
      BecomesSent db.outboxItems (updateWhere p f db.outboxItems) d.id := by
  have hunique' : UniqueIds (updateWhere p f db.outboxItems) := by
    apply hunique.updateWhere
    intro i _ _ k hk
    rwa [(hf i).1] at hk
  by_cases hany : ∃ i ∈ db.outboxItems, p i = true
  · obtain ⟨i, hi, hpi⟩ := hany
    obtain ⟨hid, hnot, hqi⟩ := hp i hpi
    have hmem : f i ∈ updateWhere p f db.outboxItems := mem_updateWhere.mpr (Or.inl ⟨i, hi, hpi, rfl⟩)
    have hcount : db.outboxItems.countP p = 1 := by
      have hle := hunique.countP_le_one (p := p) (k := id) fun j _ hj => by rw [(hp j hj).1]
      have hpos := List.countP_pos_iff.mpr ⟨i, hi, hpi⟩
      omega
    have hfind : (updateWhere p f db.outboxItems).find? q = some (f i) := by
      cases hfound : (updateWhere p f db.outboxItems).find? q with
      | none => exact absurd hqi (by simpa using List.find?_eq_none.mp hfound (f i) hmem)
      | some j =>
        have hj := hq j (List.find?_some hfound)
        have hfi : (f i).id = id := by rw [(hf i).1, hid]
        exact congrArg some (hunique'.eq_of_mem (List.mem_of_find?_eq_some hfound) hmem
          (k := id) (by rw [hj]) (by rw [hfi]))
    have hdrafts : (if (db.updateItems p f).1 then (db.updateItems p f).2.deleteDraftOf q
        else (db.updateItems p f).2).drafts =
        deleteWhere (fun d => i.draftId == some d.id) db.drafts := by
      simp [Db.updateItems, hcount, Db.deleteDraftOf, hfind, (hf i).2.1]
    rw [hdrafts, mem_deleteWhere]
    constructor
    · intro hgone
      have hdraft : i.draftId = some d.id := by
        by_contra hother
        exact hgone ⟨hd, beq_eq_false_iff_ne.mpr hother⟩
      exact ⟨i, hi, f i, hmem, (hf i).1, hdraft, hnot, (hf i).2.2⟩
    · rintro ⟨j, hj, j', hj', hjid, hdraft, hjnot, hjsent⟩ ⟨_, hkept⟩
      rcases mem_updateWhere.mp hj' with ⟨old, hold, hpold, rfl⟩ | ⟨hold, _⟩
      · have hsame := hunique.eq_of_mem hold hi (k := id) (by rw [(hp old hpold).1]) (by rw [hid])
        have hsame' := hunique.eq_of_mem hj hold (k := j.id) rfl (by rw [← hjid, (hf old).1])
        rw [← hsame, ← hsame', hdraft] at hkept
        simp at hkept
      · have hsame := hunique.eq_of_mem hj hold (k := j.id) rfl (by rw [hjid])
        rw [← hsame] at hjsent
        exact hjnot hjsent
  · have hnone : ∀ i ∈ db.outboxItems, p i = false := by
      intro i hi
      by_contra hpi
      exact hany ⟨i, hi, Bool.not_eq_false _ ▸ hpi⟩
    have hcount : db.outboxItems.countP p = 0 := by
      apply List.countP_eq_zero.mpr
      intro i hi hpi
      exact hany ⟨i, hi, hpi⟩
    rw [updateWhere_eq_self hnone]
    simp only [Db.updateItems, hcount]
    constructor
    · intro hgone
      exact absurd hd hgone
    · intro hbecomes
      exact absurd hbecomes (SendsNone.not_becomesSent hunique (fun i hi _ => hi) d.id)

section

variable [Platform]

theorem SnapshotWorld.schedule_db (w : SnapshotWorld) (owner : String) (input : OutboxSchedule) :
    (w.step (.schedule owner input)).db =
      committed w.db ((scheduleOutbox w.db owner input).map Prod.snd) := by
  simp only [SnapshotWorld.step]
  cases scheduleOutbox w.db owner input with
  | error e => rfl
  | ok answer =>
    dsimp only
    split_ifs <;> rfl

variable {w : SnapshotWorld}

theorem draft_kept_iff (h : w.Inv) {drafts : List Draft} {items : List OutboxItem}
    (hdrafts : drafts = w.db.drafts) (hnone : SendsNone w.db.outboxItems items) {d : Draft}
    (hd : d ∈ w.db.drafts) : d ∉ drafts ↔ BecomesSent w.db.outboxItems items d.id := by
  constructor
  · intro hgone
    rw [hdrafts] at hgone
    exact absurd hd hgone
  · intro hbecomes
    exact absurd hbecomes (hnone.not_becomesSent h.ids d.id)

theorem SnapshotWorld.Inv.step_drafts (h : w.Inv) {op : SnapshotOp} (hop : op.isOutbox = true)
    {d : Draft} (hd : d ∈ w.db.drafts) :
    d ∉ (w.step op).db.drafts ↔
      BecomesSent w.db.outboxItems (w.step op).db.outboxItems d.id := by
  cases op with
  | schedule owner input =>
    rw [SnapshotWorld.schedule_db]
    cases hcall : scheduleOutbox w.db owner input with
    | error e =>
      apply draft_kept_iff h _ _ hd
      · rfl
      · intro i hi _
        exact hi
    | ok answer =>
      obtain ⟨item, db⟩ := answer
      apply draft_kept_iff h _ _ hd
      · rcases scheduleOutbox_ok hcall with rfl | ⟨_, rfl⟩ <;> rfl
      · intro i hi hsent
        rcases scheduleOutbox_ok hcall with rfl | ⟨rfl, rfl⟩
        · exact hi
        · rcases List.mem_append.mp hi with hi | hi
          · exact hi
          · rw [List.mem_singleton.mp hi] at hsent
            cases hsent
  | cancel owner id now | retry owner id now =>
    apply draft_kept_iff h _ _ hd
    · rfl
    · exact sendsNone_updateWhere fun i _ => by simp
  | resolve owner id wasSent now =>
    simp only [SnapshotWorld.step, SnapshotWorld.close, resolveOutbox_outboxItems]
    cases wasSent with
    | false =>
      apply draft_kept_iff h _ _ hd
      · simp [resolveOutbox, Db.updateItems]
      · exact sendsNone_updateWhere fun i _ => by simp [resolvedItem]
    | true =>
      have hdelete := draft_deleted_iff id h.ids
        (p := fun i => i.userId == owner && i.id == id && i.status = .needsReview)
        (q := fun i => i.userId == owner && i.id == id) (f := resolvedItem true now)
        (by
          intro i hp
          simp only [Bool.and_eq_true, beq_iff_eq, decide_eq_true_eq] at hp
          refine ⟨hp.1.2, by rw [hp.2]; decide, ?_⟩
          simp [resolvedItem, hp.1.1, hp.1.2])
        (fun i => ⟨rfl, rfl, rfl⟩)
        (by
          intro i hq
          rw [Bool.and_eq_true, beq_iff_eq, beq_iff_eq] at hq
          exact hq.2) hd
      rw [← hdelete]
      simp [resolveOutbox]
  | claim now =>
    apply draft_kept_iff h _ (sendsNone_claim w.db now) hd
    simp only [SnapshotWorld.step, SnapshotWorld.setDb, claimDueOutbox]
    split
    · rfl
    · split_ifs <;> rfl
  | complete id messageId now =>
    simp only [SnapshotWorld.step, SnapshotWorld.close, completeOutbox_outboxItems]
    exact draft_deleted_iff id h.ids
      (p := fun i => i.id == id && i.status = .sending) (q := fun i => i.id == id)
      (f := sentItem messageId now)
      (by
        intro i hp
        simp only [Bool.and_eq_true, beq_iff_eq, decide_eq_true_eq] at hp
        exact ⟨hp.1, by rw [hp.2]; decide, beq_iff_eq.mpr hp.1⟩)
      (fun i => ⟨rfl, rfl, rfl⟩) (fun i hq => beq_iff_eq.mp hq) hd
  | fail id code message uncertain now =>
    apply draft_kept_iff h _ _ hd
    · rfl
    · apply sendsNone_updateWhere
      intro i _
      cases uncertain <;> simp
  | prune before =>
    apply draft_kept_iff h _ _ hd
    · rfl
    · intro i hi _
      exact (mem_deleteWhere.mp hi).1
  | saveDraft userId draft => cases hop
  | deleteDraft userId draftId => cases hop

/-- What the outbox promises about the messages it holds. -/
structure SnapshotContract (w : SnapshotWorld) : Prop where
  /-- A claim decodes the message that the item was created with. -/
  claimed : ∀ now work db, claimDueOutbox w.db now = (some work, db) →
    SendMessageInput.ofJson (w.messageJson work.id) = some work.message ∧
    ∃ input, w.given work.id = some (work.ownerId, input) ∧ work.message = input.message
  /-- Nothing of the content of a message is left after its end, and the rest decodes. -/
  ended : ∀ i ∈ w.db.outboxItems, i.status = .sent ∨ i.status = .cancelled →
    Redacted (w.messageJson i.id) ∧
    ∃ owner input view, w.given i.id = some (owner, input) ∧
      decodeOutboxRow i (w.messageJson i.id) = some view ∧
      view.accountId = input.message.accountId ∧ view.recipients = input.message.recipients ∧
      view.cc = input.message.cc.getD [] ∧ view.bcc = input.message.envelope.bcc ∧
      view.subject = input.message.subject
  /-- The list of the outbox decodes all the rows that it selects. -/
  listed : ∀ owner, listOutbox w.db w.messageJson owner =
    some ((listedItems w.db owner).map fun i => outboxView i i.message)
  /-- A call of the outbox deletes a draft when an item that names it becomes sent. -/
  deleted : ∀ op : SnapshotOp, op.isOutbox = true → ∀ d ∈ w.db.drafts,
    d ∉ (w.step op).db.drafts ↔ BecomesSent w.db.outboxItems (w.step op).db.outboxItems d.id
  /-- A draft is hidden from its owner while an item that names it waits. -/
  hidden : ∀ owner, ∀ d ∈ w.db.drafts, w.db.ownsAccount owner d.accountId = true →
    (d ∉ listDrafts w.db owner ↔ ∃ i ∈ w.db.outboxItems, i.userId = owner ∧
      i.draftId = some d.id ∧
      (i.status = .scheduled ∨ i.status = .sending ∨ i.status = .failed ∨ i.status = .needsReview))

omit [Platform] in
theorem OutboxStatus.isPending_iff (s : OutboxStatus) :
    s.isPending = true ↔ s = .scheduled ∨ s = .sending ∨ s = .failed ∨ s = .needsReview := by
  cases s <;> decide

theorem SnapshotWorld.Inv.contract (h : w.Inv) : SnapshotContract w where
  claimed now work db hclaim := by
    obtain ⟨i, hi, hscheduled, rfl, _⟩ := claimDueOutbox_item hclaim
    obtain ⟨owner, input, hgiven, hcreated, hmessage⟩ := h.created i hi
    rw [hscheduled] at hmessage
    refine ⟨h.decodes i hi, input, ?_, hmessage⟩
    rw [hgiven, hcreated.userId]
  ended i hi hstatus := by
    have hpending : i.status.isPending = false := by
      rcases hstatus with hstatus | hstatus
      · rw [hstatus]
        rfl
      · rw [hstatus]
        rfl
    obtain ⟨owner, input, hgiven, hcreated, hmessage⟩ := h.created i hi
    rw [hpending] at hmessage
    refine ⟨h.redacted i hi hpending, owner, input, outboxView i i.message, hgiven, ?_,
      hcreated.accountId, ?_⟩
    · rw [decodeOutboxRow, h.decodes i hi]
      rfl
    · rw [hmessage]
      exact ⟨rfl, rfl, rfl, rfl⟩
  listed owner := by
    have hrows : ∀ i ∈ listedItems w.db owner,
        decodeOutboxRow i (w.messageJson i.id) = some (outboxView i i.message) := by
      intro i hi
      rw [decodeOutboxRow, h.decodes i (mem_of_listedItems hi).1]
      rfl
    exact mapM_eq_some hrows
  deleted op hop d hd := h.step_drafts hop hd
  hidden owner d hd howned := by
    rw [mem_listDrafts, not_and, not_and]
    constructor
    · intro hnot
      have hholds := Bool.not_eq_false _ ▸ hnot hd howned
      obtain ⟨i, hi, hboth⟩ := List.any_eq_true.mp hholds
      simp only [Bool.and_eq_true, beq_iff_eq] at hboth
      exact ⟨i, hi, hboth.1.1, hboth.1.2, (OutboxStatus.isPending_iff _).mp hboth.2⟩
    · rintro ⟨i, hi, huser, hdraft, hstatus⟩ _ _ hnone
      have hpending := (OutboxStatus.isPending_iff _).mpr hstatus
      have hholds : w.db.holdsDraft owner d.id = true :=
        List.any_eq_true.mpr ⟨i, hi, by simp [huser, hdraft, hpending]⟩
      rw [hholds] at hnone
      cases hnone

/-- In every run from an empty outbox the outbox keeps what it promises about its messages, and so
do the drafts that they were written in. -/
theorem outbox_snapshots (db : Db) (ops : List SnapshotOp) :
    SnapshotContract (exec SnapshotWorld.step (SnapshotWorld.start db) ops) :=
  (invariant_exec SnapshotWorld.Inv SnapshotWorld.Inv.step ops
    (SnapshotWorld.start_inv db)).contract

end

end IMail
