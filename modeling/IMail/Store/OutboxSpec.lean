import IMail.Store.Outbox

/-!
# What the calls of the outbox write

Every call rewrites items in place or deletes some. `ItemsWrite` says what a rewrite keeps:
the identity of an item, and that an item which is closed stays so. Only a definite failure
opens an item for another claim.
-/

namespace IMail

open Relational

namespace OutboxStatus

def isOpen : OutboxStatus → Bool
  | scheduled | failed => true
  | sending | sent | needsReview | cancelled => false

/-- No worker has the item or can get it. -/
def isClosed : OutboxStatus → Bool
  | sent | needsReview | cancelled => true
  | scheduled | sending | failed => false

end OutboxStatus

/-- What no call writes. -/
structure OutboxItem.SameItem (i i' : OutboxItem) : Prop where
  id : i'.id = i.id
  userId : i'.userId = i.userId
  draftId : i'.draftId = i.draftId

theorem OutboxItem.SameItem.trans {i i' i'' : OutboxItem} (h : i.SameItem i')
    (h' : i'.SameItem i'') : i.SameItem i'' :=
  ⟨h'.id.trans h.id, h'.userId.trans h.userId, h'.draftId.trans h.draftId⟩

abbrev UniqueIds (items : List OutboxItem) : Prop := UniqueBy (fun i => some i.id) items

/-- A change of the items, after which at most the item `reopened` is open that was not. -/
inductive ItemsWrite (reopened : Option String) : List OutboxItem → List OutboxItem → Prop
  | update (p : OutboxItem → Bool) (f : OutboxItem → OutboxItem) {items : List OutboxItem}
      (hsame : ∀ i : OutboxItem, i.SameItem (f i))
      (hclosed : ∀ i, p i = true → i.status.isClosed = true → (f i).status.isClosed = true)
      (hopen : ∀ i, p i = true → (f i).status.isOpen = true →
        i.status.isOpen = true ∨ some i.id = reopened) :
      ItemsWrite reopened items (updateWhere p f items)
  | delete (p : OutboxItem → Bool) {items : List OutboxItem} :
      ItemsWrite reopened items (deleteWhere p items)
  | refl (items : List OutboxItem) : ItemsWrite reopened items items
  | trans {items items' items'' : List OutboxItem} (h : ItemsWrite reopened items items')
      (h' : ItemsWrite reopened items' items'') : ItemsWrite reopened items items''

namespace ItemsWrite

variable {reopened : Option String} {items items' : List OutboxItem}

variable (h : ItemsWrite reopened items items')
include h

theorem uniqueIds (hunique : UniqueIds items) : UniqueIds items' := by
  induction h with
  | update p f hsame hclosed hopen =>
    apply hunique.updateWhere
    intro i _ _ k hk
    rw [(hsame i).id] at hk
    exact hk
  | delete p => exact hunique.deleteWhere p
  | refl items => exact hunique
  | trans h h' ih ih' => exact ih' (ih hunique)

theorem origin {i' : OutboxItem} (hi : i' ∈ items') : ∃ i ∈ items, i.SameItem i' ∧
      (i.status.isClosed = true → i'.status.isClosed = true) ∧
      (i'.status.isOpen = true → i.status.isOpen = true ∨ some i.id = reopened) := by
  induction h generalizing i' with
  | update p f hsame hclosed hopen =>
    rcases mem_updateWhere.mp hi with ⟨old, hold, hp, rfl⟩ | ⟨hold, -⟩
    · exact ⟨old, hold, hsame old, hclosed old hp, hopen old hp⟩
    · exact ⟨i', hold, ⟨rfl, rfl, rfl⟩, id, Or.inl⟩
  | delete p => exact ⟨i', (mem_deleteWhere.mp hi).1, ⟨rfl, rfl, rfl⟩, id, Or.inl⟩
  | refl items => exact ⟨i', hi, ⟨rfl, rfl, rfl⟩, id, Or.inl⟩
  | trans h h' ih ih' =>
    obtain ⟨j, hj, hsame', hclosed', hopen'⟩ := ih' hi
    obtain ⟨i, hi, hsame, hclosed, hopen⟩ := ih hj
    refine ⟨i, hi, hsame.trans hsame', fun h => hclosed' (hclosed h), ?_⟩
    intro ho
    rcases hopen' ho with ho | ho
    · exact hopen ho
    · exact Or.inr (hsame.id ▸ ho)

end ItemsWrite

section

variable (db : Db)

section

variable (owner id : String)

theorem cancelOutbox_write (now : Time) :
    ItemsWrite none db.outboxItems (cancelOutbox db owner id now).2.outboxItems := by
  apply ItemsWrite.update
  · intro i
    exact ⟨rfl, rfl, rfl⟩
  · intro i _ _
    rfl
  · intro i _ ho
    cases ho

theorem retryOutbox_write (now : Time) :
    ItemsWrite none db.outboxItems (retryOutbox db owner id now).2.outboxItems := by
  apply ItemsWrite.update
  · intro i
    exact ⟨rfl, rfl, rfl⟩
  · intro i hp hclosed
    simp only [Bool.and_eq_true, decide_eq_true_eq] at hp
    rw [hp.2] at hclosed
    cases hclosed
  · intro i hp _
    simp only [Bool.and_eq_true, decide_eq_true_eq] at hp
    exact Or.inl (by rw [hp.2]; rfl)

theorem resolveOutbox_outboxItems (wasSent : Bool) (now : Time) :
    (resolveOutbox db owner id wasSent now).2.outboxItems =
      updateWhere (fun i => i.userId == owner && i.id == id && i.status = .needsReview)
        (resolvedItem wasSent now) db.outboxItems := by
  unfold resolveOutbox
  dsimp only
  split_ifs <;> rfl

theorem resolveOutbox_write (wasSent : Bool) (now : Time) :
    ItemsWrite none db.outboxItems (resolveOutbox db owner id wasSent now).2.outboxItems := by
  rw [resolveOutbox_outboxItems]
  apply ItemsWrite.update
  · intro i
    exact ⟨rfl, rfl, rfl⟩
  · intro i _ _
    cases wasSent <;> rfl
  · intro i _ ho
    cases wasSent <;> cases ho

end

theorem completeOutbox_outboxItems (id messageId : String) (now : Time) :
    (completeOutbox db id messageId now).2.outboxItems =
      updateWhere (fun i => i.id == id && i.status = .sending) (sentItem messageId now)
        db.outboxItems := by
  unfold completeOutbox
  dsimp only
  split_ifs <;> rfl

theorem completeOutbox_write (id messageId : String) (now : Time) :
    ItemsWrite none db.outboxItems (completeOutbox db id messageId now).2.outboxItems := by
  rw [completeOutbox_outboxItems]
  apply ItemsWrite.update
  · intro i
    exact ⟨rfl, rfl, rfl⟩
  · intro i _ _
    rfl
  · intro i _ ho
    cases ho

theorem failOutbox_write (id code message : String) (uncertain : Bool) (now : Time) :
    ItemsWrite (if uncertain then none else some id) db.outboxItems
      (failOutbox db id code message uncertain now).2.outboxItems := by
  apply ItemsWrite.update
  · intro i
    exact ⟨rfl, rfl, rfl⟩
  · intro i hp hclosed
    simp only [Bool.and_eq_true, decide_eq_true_eq] at hp
    rw [hp.2] at hclosed
    cases hclosed
  · intro i hp ho
    simp only [Bool.and_eq_true, beq_iff_eq] at hp
    cases uncertain with
    | true => cases ho
    | false => exact Or.inr (by simp [hp.1])

theorem pruneOutbox_write (before : Time) :
    ItemsWrite none db.outboxItems (pruneOutbox db before).outboxItems :=
  .delete _

theorem reviewExpired_write (now : Time) (items : List OutboxItem) :
    ItemsWrite none items (reviewExpired now items) := by
  apply ItemsWrite.update
  · intro i
    exact ⟨rfl, rfl, rfl⟩
  · intro i _ _
    rfl
  · intro i _ ho
    cases ho

theorem claim_write (now : Time) (id : String) (items : List OutboxItem) :
    ItemsWrite none items
      (updateWhere (fun i => i.id == id && i.status = .scheduled) (claimItem now) items) := by
  apply ItemsWrite.update
  · intro i
    exact ⟨rfl, rfl, rfl⟩
  · intro i hp hclosed
    simp only [Bool.and_eq_true, decide_eq_true_eq] at hp
    rw [hp.2] at hclosed
    cases hclosed
  · intro i _ ho
    cases ho

theorem claimDueOutbox_write (now : Time) :
    ItemsWrite none db.outboxItems (claimDueOutbox db now).2.outboxItems := by
  unfold claimDueOutbox
  dsimp only
  split
  · exact reviewExpired_write now _
  · split_ifs <;> exact (reviewExpired_write now _).trans (claim_write now _ _)

variable {db' : Db} {owner id : String} {input : OutboxSchedule} {item : OutboxItem} {now : Time}
  {work : OutboxWorkItem}

theorem scheduleOutbox_cases [Platform] {db : Db}
    (h : scheduleOutbox db owner input = .ok (item, db')) :
    db' = db ∨ item = scheduledItem owner (scheduleFingerprint input) input ∧
      db' = { db with outboxItems := db.outboxItems ++ [item] } ∧
      (∀ i ∈ db.outboxItems, i.id ≠ input.id) ∧
      ∀ i ∈ db.outboxItems,
        ¬ (i.userId = owner ∧ i.idempotencyKey = some input.idempotencyKey) := by
  unfold scheduleOutbox at h
  split at h
  · cases h
  · split at h
    · split at h
      · cases h
        exact Or.inl rfl
      · cases h
    · dsimp only at h
      split at h
      · cases h
      · rename_i _ hnone hnew
        cases h
        refine Or.inr ⟨rfl, rfl, ?_, ?_⟩
        · intro i hi hid
          exact hnew (List.any_eq_true.mpr ⟨i, hi, beq_iff_eq.mpr hid⟩)
        · intro i hi hkey
          simpa [hkey.1, hkey.2] using List.find?_eq_none.mp hnone i hi

theorem scheduleOutbox_ok [Platform] {db : Db}
    (h : scheduleOutbox db owner input = .ok (item, db')) :
    db' = db ∨ item = scheduledItem owner (scheduleFingerprint input) input ∧
      db' = { db with outboxItems := db.outboxItems ++ [item] } := by
  rcases scheduleOutbox_cases h with hsame | ⟨hitem, hdb, _, _⟩
  · exact Or.inl hsame
  · exact Or.inr ⟨hitem, hdb⟩

theorem claimDueOutbox_item {db : Db} (h : claimDueOutbox db now = (some work, db')) :
    ∃ i ∈ db.outboxItems, i.status = .scheduled ∧ work = ⟨i.id, i.userId, i.message⟩ ∧
      i ∈ reviewExpired now db.outboxItems ∧
      db'.outboxItems = updateWhere (fun j => j.id == i.id && j.status = .scheduled)
        (claimItem now) (reviewExpired now db.outboxItems) := by
  unfold claimDueOutbox at h
  dsimp only at h
  split at h
  · cases h
  · rename_i item hfirst
    split_ifs at h
    case neg => cases h
    cases h
    obtain ⟨hitem, hdue⟩ := List.mem_filter.mp (firstBy_mem hfirst)
    simp only [Bool.and_eq_true, decide_eq_true_eq] at hdue
    rcases mem_updateWhere.mp hitem with ⟨old, _, _, rfl⟩ | ⟨hold, _⟩
    · cases hdue.1
    · exact ⟨item, hold, hdue.1, rfl, hitem, rfl⟩

theorem claimDueOutbox_some {db : Db} (hunique : UniqueIds db.outboxItems)
    (h : claimDueOutbox db now = (some work, db')) :
    (∃ i ∈ db.outboxItems, i.id = work.id ∧ i.userId = work.ownerId ∧ i.status = .scheduled) ∧
      ∀ i ∈ db'.outboxItems, i.id = work.id → i.status.isOpen = false := by
  obtain ⟨item, hitem, hscheduled, rfl, hreview, hitems⟩ := claimDueOutbox_item h
  have hreviewed : UniqueIds (reviewExpired now db.outboxItems) :=
    (reviewExpired_write now _).uniqueIds hunique
  refine ⟨⟨item, hitem, rfl, rfl, hscheduled⟩, ?_⟩
  intro i hi hid
  rw [hitems] at hi
  rcases mem_updateWhere.mp hi with ⟨old, _, _, rfl⟩ | ⟨hold, hnot⟩
  · rfl
  · have heq := hreviewed.eq_of_mem hold hreview (k := item.id) (by rw [hid]) rfl
    subst heq
    simp [hscheduled] at hnot

theorem unselected_of_not_sending {items : List OutboxItem}
    (h : ∀ i ∈ items, i.id = id → i.status ≠ .sending) :
    ∀ i ∈ items, (i.id == id && decide (i.status = .sending)) = false := by
  intro i hi
  by_cases hid : i.id = id
  · simp [h i hi hid]
  · simp [hid]

theorem completeOutbox_of_not_sending {db : Db}
    (h : ∀ i ∈ db.outboxItems, i.id = id → i.status ≠ .sending) (messageId : String) (now : Time) :
    completeOutbox db id messageId now = (false, db) := by
  have hnone := unselected_of_not_sending h
  have hzero : db.outboxItems.countP
      (fun i => i.id == id && decide (i.status = .sending)) = 0 := by
    apply List.countP_eq_zero.mpr
    intro i hi hp
    rw [hnone i hi] at hp
    cases hp
  simp [completeOutbox, Db.updateItems, updateWhere_eq_self hnone, hzero]

theorem failOutbox_of_not_sending {db : Db}
    (h : ∀ i ∈ db.outboxItems, i.id = id → i.status ≠ .sending) (code message : String)
    (uncertain : Bool) (now : Time) : (failOutbox db id code message uncertain now).2 = db := by
  have hnone := unselected_of_not_sending h
  simp [failOutbox, Db.updateItems, updateWhere_eq_self hnone]

end

end IMail
