import IMail.Store.OutboxSpec
import IMail.Outbox.Worker

/-!
# The outbox sends at most once

The argument rests on three facts. An item that a claim can still reach has no worker and
has not been sent. At most one worker is at an item. A worker that will report a definite
failure has not sent, because every error after the call of `SmtpPort::send` is an error of
the mail server.
-/

namespace IMail

open Relational Transition

/-- The worker is before `SmtpPort::send`, or is about to report a definite failure. -/
def WorkerPhase.unsent : WorkerPhase → Bool
  | claimed _ | armed .. => true
  | returned _ (.error e) => !e.uncertain
  | idle | returned _ (.ok _) | uncommitted _ => false

structure DeliveryInv (w : OutboxWorld) : Prop where
  ids : UniqueIds w.db.outboxItems
  holder : ∀ k k' id, (w.workers k).item = some id → (w.workers k').item = some id → k = k'
  free : ∀ i ∈ w.db.outboxItems, i.status.isOpen = true →
    i.id ∉ w.sends ∧ ∀ k, (w.workers k).item ≠ some i.id
  unsent : ∀ k id, (w.workers k).item = some id → (w.workers k).unsent = true → id ∉ w.sends
  once : w.sends.Nodup
  usedItems : ∀ i ∈ w.db.outboxItems, i.id ∈ w.used
  usedSends : ∀ id ∈ w.sends, id ∈ w.used
  usedWorkers : ∀ k id, (w.workers k).item = some id → id ∈ w.used

/-- `Uuid::new_v4` gives an item an identifier that no item has had. -/
def FreshItem (w : OutboxWorld) : OutboxOp → Prop
  | .schedule _ input => input.id ∉ w.used
  | _ => True

/-- The states from which calls are counted: nobody is at work and nothing has been sent. -/
structure OutboxWorld.Start (w : OutboxWorld) : Prop where
  ids : UniqueIds w.db.outboxItems
  idle : ∀ k, w.workers k = .idle
  sends : w.sends = []
  used : w.used = w.db.outboxItems.map (·.id)

theorem OutboxWorld.Start.deliveryInv {w : OutboxWorld} (h : w.Start) : DeliveryInv w where
  ids := h.ids
  holder k k' id hk := by simp [h.idle, WorkerPhase.item] at hk
  free i _ _ := by simp [h.sends, h.idle, WorkerPhase.item]
  unsent k id hk := by simp [h.idle, WorkerPhase.item] at hk
  once := by simp [h.sends]
  usedItems i hi := by
    rw [h.used]
    exact List.mem_map_of_mem hi
  usedSends id hid := by simp [h.sends] at hid
  usedWorkers k id hk := by simp [h.idle, WorkerPhase.item] at hk

namespace DeliveryInv

variable {w : OutboxWorld}

theorem write (h : DeliveryInv w) {reopened : Option String} {db : Db}
    (hwrite : ItemsWrite reopened w.db.outboxItems db.outboxItems)
    (hreopened : ∀ id, reopened = some id →
      id ∉ w.sends ∧ ∀ k, (w.workers k).item ≠ some id) : DeliveryInv (w.setDb db) where
  ids := hwrite.uniqueIds h.ids
  holder := h.holder
  free i' hi' hopen' := by
    obtain ⟨i, hi, hsame, -, hopen⟩ := hwrite.origin hi'
    rw [hsame.id]
    rcases hopen hopen' with hopen | hid
    · exact h.free i hi hopen
    · exact hreopened i.id hid.symm
  unsent := h.unsent
  once := h.once
  usedItems i' hi' := by
    obtain ⟨i, hi, hsame, -⟩ := hwrite.origin hi'
    rw [hsame.id]
    exact h.usedItems i hi
  usedSends := h.usedSends
  usedWorkers := h.usedWorkers

theorem write_none (h : DeliveryInv w) {db : Db}
    (hwrite : ItemsWrite none w.db.outboxItems db.outboxItems) : DeliveryInv (w.setDb db) :=
  h.write hwrite (by simp)

variable {worker : ℕ}

variable (h : DeliveryInv w)
include h

theorem setWorker {phase : WorkerPhase}
    (hitem : ∀ id, phase.item = some id → (w.workers worker).item = some id)
    (hunsent : phase.unsent = true → (w.workers worker).unsent = true) :
    DeliveryInv (w.setWorker worker phase) := by
  have hold : ∀ k id, ((w.setWorker worker phase).workers k).item = some id →
      (w.workers k).item = some id := by
    intro k id hk
    by_cases hkw : k = worker
    · subst hkw
      rw [OutboxWorld.setWorker_self] at hk
      exact hitem id hk
    · rwa [w.setWorker_of_ne phase hkw] at hk
  constructor
  · exact h.ids
  · intro k k' id hk hk'
    exact h.holder k k' id (hold k id hk) (hold k' id hk')
  · intro i hi hopen
    exact ⟨(h.free i hi hopen).1, fun k hk => (h.free i hi hopen).2 k (hold k i.id hk)⟩
  · intro k id hk hun
    apply h.unsent k id (hold k id hk)
    by_cases hkw : k = worker
    · subst hkw
      rw [OutboxWorld.setWorker_self] at hun
      exact hunsent hun
    · rwa [w.setWorker_of_ne phase hkw] at hun
  · exact h.once
  · exact h.usedItems
  · exact h.usedSends
  · intro k id hk
    exact h.usedWorkers k id (hold k id hk)

theorem drop (worker : ℕ) : DeliveryInv (w.setWorker worker .idle) := by
  apply h.setWorker
  · intro id hid
    cases hid
  · intro hun
    cases hun

theorem item_ne_of_drop {id : String} (hid : (w.workers worker).item = some id)
    (k : ℕ) : ((w.setWorker worker .idle).workers k).item ≠ some id := by
  intro hk
  by_cases hkw : k = worker
  · subst hkw
    rw [OutboxWorld.setWorker_self] at hk
    cases hk
  · rw [w.setWorker_of_ne _ hkw] at hk
    exact hkw (h.holder k worker id hk hid)

theorem take {work : OutboxWorkItem} (hsends : work.id ∉ w.sends)
    (hfree : ∀ k, (w.workers k).item ≠ some work.id)
    (hclosed : ∀ i ∈ w.db.outboxItems, i.id = work.id → i.status.isOpen = false)
    (hused : work.id ∈ w.used) : DeliveryInv (w.setWorker worker (.claimed work)) := by
  have hold : ∀ k id, ((w.setWorker worker (.claimed work)).workers k).item = some id →
      (k = worker ∧ id = work.id) ∨ (k ≠ worker ∧ (w.workers k).item = some id) := by
    intro k id hk
    by_cases hkw : k = worker
    · subst hkw
      rw [OutboxWorld.setWorker_self] at hk
      exact Or.inl ⟨rfl, (Option.some.inj hk).symm⟩
    · rw [w.setWorker_of_ne _ hkw] at hk
      exact Or.inr ⟨hkw, hk⟩
  constructor
  · exact h.ids
  · intro k k' id hk hk'
    rcases hold k id hk with ⟨hkw, hid⟩ | ⟨-, hother⟩
    · rcases hold k' id hk' with ⟨hkw', -⟩ | ⟨-, hother'⟩
      · rw [hkw, hkw']
      · exact absurd (hid ▸ hother') (hfree k')
    · rcases hold k' id hk' with ⟨-, hid⟩ | ⟨-, hother'⟩
      · exact absurd (hid ▸ hother) (hfree k)
      · exact h.holder k k' id hother hother'
  · intro i hi hopen
    refine ⟨(h.free i hi hopen).1, ?_⟩
    intro k hk
    rcases hold k i.id hk with ⟨-, hid⟩ | ⟨-, hk⟩
    · rw [hclosed i hi hid] at hopen
      cases hopen
    · exact (h.free i hi hopen).2 k hk
  · intro k id hk hun
    rcases hold k id hk with ⟨-, rfl⟩ | ⟨hkw, hk⟩
    · exact hsends
    · rw [w.setWorker_of_ne _ hkw] at hun
      exact h.unsent k id hk hun
  · exact h.once
  · exact h.usedItems
  · exact h.usedSends
  · intro k id hk
    rcases hold k id hk with ⟨-, rfl⟩ | ⟨-, hk⟩
    · exact hused
    · exact h.usedWorkers k id hk

theorem send {work : OutboxWorkItem} {config : MailConnectionConfig}
    {message : OutgoingMessage} (harmed : w.workers worker = .armed work config message)
    (answer : Except String SendMessageResult) :
    DeliveryInv { w.setWorker worker (.returned work (smtpResult answer)) with
      sends := work.id :: w.sends } := by
  have hitem : (w.workers worker).item = some work.id := by rw [harmed]; rfl
  have hunsent : (WorkerPhase.returned work (smtpResult answer)).unsent = false := by
    cases hresult : smtpResult answer with
    | ok sent => rfl
    | error e => simp [WorkerPhase.unsent, smtpResult_error hresult]
  have hmoved : DeliveryInv (w.setWorker worker (.returned work (smtpResult answer))) := by
    apply h.setWorker
    · intro id hid
      rw [hitem]
      exact hid
    · intro hun
      rw [hunsent] at hun
      cases hun
  constructor
  · exact hmoved.ids
  · exact hmoved.holder
  · intro i hi hopen
    have hne : i.id ≠ work.id := by
      intro heq
      exact (h.free i hi hopen).2 worker (heq ▸ hitem)
    exact ⟨by simp [hne, (h.free i hi hopen).1], (hmoved.free i hi hopen).2⟩
  · intro k id hk hun
    have hkw : k ≠ worker := by
      rintro rfl
      rw [OutboxWorld.setWorker_self, hunsent] at hun
      cases hun
    have hne : id ≠ work.id := by
      rintro rfl
      rw [w.setWorker_of_ne _ hkw] at hk
      exact hkw (h.holder k worker work.id hk hitem)
    simpa [hne] using hmoved.unsent k id hk hun
  · exact List.nodup_cons.mpr ⟨h.unsent worker work.id hitem (by rw [harmed]; rfl), h.once⟩
  · exact hmoved.usedItems
  · intro id hid
    rcases List.mem_cons.mp hid with rfl | hid
    · exact h.usedWorkers worker work.id hitem
    · exact h.usedSends id hid
  · exact hmoved.usedWorkers

theorem use (id : String) : DeliveryInv { w with used := id :: w.used } where
  ids := h.ids
  holder := h.holder
  free := h.free
  unsent := h.unsent
  once := h.once
  usedItems i hi := List.mem_cons_of_mem _ (h.usedItems i hi)
  usedSends i hi := List.mem_cons_of_mem _ (h.usedSends i hi)
  usedWorkers k i hi := List.mem_cons_of_mem _ (h.usedWorkers k i hi)

theorem insert {item : OutboxItem} (hfresh : item.id ∉ w.used) :
    DeliveryInv { w.setDb { w.db with outboxItems := w.db.outboxItems ++ [item] } with
      used := item.id :: w.used } where
  ids := by
    apply h.ids.append
    intro old hold k hk hk'
    have hid : old.id = item.id := Option.some.inj (hk.trans hk'.symm)
    exact hfresh (hid ▸ h.usedItems old hold)
  holder := h.holder
  free i hi hopen := by
    rcases List.mem_append.mp hi with hi | hi
    · exact h.free i hi hopen
    · rw [List.mem_singleton.mp hi]
      exact ⟨fun hs => hfresh (h.usedSends _ hs), fun k hk => hfresh (h.usedWorkers k _ hk)⟩
  unsent := h.unsent
  once := h.once
  usedItems i hi := by
    rcases List.mem_append.mp hi with hi | hi
    · exact List.mem_cons_of_mem _ (h.usedItems i hi)
    · rw [List.mem_singleton.mp hi]
      exact List.mem_cons_self
  usedSends i hi := List.mem_cons_of_mem _ (h.usedSends i hi)
  usedWorkers k i hi := List.mem_cons_of_mem _ (h.usedWorkers k i hi)

end DeliveryInv

section

variable [Platform]

variable {w : OutboxWorld} {id : String}

theorem DeliveryInv.report (h : DeliveryInv w) (worker : ℕ) (stored : Bool) (now : Time) :
    DeliveryInv (w.report worker stored now) := by
  unfold OutboxWorld.report
  cases hphase : w.workers worker with
  | idle | claimed work | armed work config message => exact h
  | returned work result =>
    have hitem : (w.workers worker).item = some work.id := by rw [hphase]; rfl
    cases result with
    | ok sent =>
      have hmoved : DeliveryInv (w.setWorker worker
          (if stored && (completeOutbox w.db work.id sent.messageId now).1 then .idle
            else .uncommitted work)) := by
        split_ifs
        · exact h.drop worker
        · apply h.setWorker
          · intro id hid
            rw [hitem]
            exact hid
          · intro hun
            cases hun
      cases stored with
      | true => exact hmoved.write_none (completeOutbox_write _ _ _ _)
      | false => exact hmoved
    | error e =>
      cases stored with
      | true =>
        apply (h.drop worker).write (failOutbox_write _ _ _ _ _ _)
        intro id hid
        split_ifs at hid with huncertain
        cases hid
        constructor
        · apply h.unsent worker work.id hitem
          simpa [hphase, WorkerPhase.unsent] using huncertain
        · exact h.item_ne_of_drop hitem
      | false => exact h.drop worker
  | uncommitted work =>
    cases stored with
    | true => exact (h.drop worker).write_none (failOutbox_write w.db work.id _ _ true now)
    | false => exact h.drop worker

theorem DeliveryInv.claim (h : DeliveryInv w) (worker : ℕ) (now : Time) :
    DeliveryInv (w.step (.claim worker now)) := by
  simp only [OutboxWorld.step]
  split
  · have hwrite := claimDueOutbox_write w.db now
    split
    · rename_i work db hclaim
      rw [hclaim] at hwrite
      obtain ⟨⟨i, hi, hid, -, hscheduled⟩, hclosed⟩ := claimDueOutbox_some h.ids hclaim
      have hfree := h.free i hi (by rw [hscheduled]; rfl)
      rw [hid] at hfree
      apply (h.write_none hwrite).take hfree.1 hfree.2 hclosed
      exact hid ▸ h.usedItems i hi
    · rename_i db hclaim
      rw [hclaim] at hwrite
      exact h.write_none hwrite
  · exact h

theorem step_deliveryInv (w : OutboxWorld) (op : OutboxOp) (h : DeliveryInv w)
    (hfresh : FreshItem w op) : DeliveryInv (w.step op) := by
  cases op with
  | schedule owner input =>
    simp only [OutboxWorld.step]
    split
    · rename_i item db hschedule
      rcases scheduleOutbox_ok hschedule with rfl | ⟨rfl, rfl⟩
      · exact h.use input.id
      · exact h.insert hfresh
    · exact h.use input.id
  | cancel owner id now => exact h.write_none (cancelOutbox_write _ _ _ _)
  | retry owner id now => exact h.write_none (retryOutbox_write _ _ _ _)
  | resolve owner id wasSent now => exact h.write_none (resolveOutbox_write _ _ _ _ _)
  | prune before => exact h.write_none (pruneOutbox_write _ _)
  | accounts rows => exact h.write_none (.delete _)
  | claim worker now => exact h.claim worker now
  | prepare worker env =>
    simp only [OutboxWorld.step]
    split
    · rename_i work hclaimed
      split
      all_goals
        apply h.setWorker
        · intro id hid
          rw [hclaimed]
          exact hid
        · intro _
          rw [hclaimed]
          rfl
    · exact h
  | send worker answer =>
    simp only [OutboxWorld.step]
    split
    · rename_i harmed
      exact h.send harmed answer
    · exact h
  | report worker stored now => exact h.report worker stored now
  | crash worker => exact h.drop worker

theorem deliveryInv_run {ops : List OutboxOp} (h : DeliveryInv w)
    (hfresh : Along OutboxWorld.step FreshItem w ops) : DeliveryInv (w.run ops) :=
  invariant_along DeliveryInv step_deliveryInv h hfresh

theorem step_items (w : OutboxWorld) (op : OutboxOp) :
    (∃ reopened, ItemsWrite reopened w.db.outboxItems (w.step op).db.outboxItems) ∨
      ∃ owner input item, op = .schedule owner input ∧ item.id = input.id ∧
        (w.step op).db.outboxItems = w.db.outboxItems ++ [item] := by
  have hself : ∃ reopened, ItemsWrite reopened w.db.outboxItems w.db.outboxItems :=
    ⟨none, .refl _⟩
  cases op with
  | schedule owner input =>
    simp only [OutboxWorld.step]
    split
    · rename_i item db hschedule
      rcases scheduleOutbox_ok hschedule with rfl | ⟨rfl, rfl⟩
      · exact Or.inl hself
      · exact Or.inr ⟨owner, input, _, rfl, rfl, rfl⟩
    · exact Or.inl hself
  | cancel owner id now => exact Or.inl ⟨_, cancelOutbox_write _ _ _ _⟩
  | retry owner id now => exact Or.inl ⟨_, retryOutbox_write _ _ _ _⟩
  | resolve owner id wasSent now => exact Or.inl ⟨_, resolveOutbox_write _ _ _ _ _⟩
  | prune before => exact Or.inl ⟨_, pruneOutbox_write _ _⟩
  | accounts rows => exact Or.inl ⟨none, .delete _⟩
  | claim worker now =>
    have hwrite := claimDueOutbox_write w.db now
    simp only [OutboxWorld.step]
    split
    · split
      all_goals
        rename_i hclaim
        rw [hclaim] at hwrite
        exact Or.inl ⟨none, hwrite⟩
    · exact Or.inl hself
  | prepare worker env =>
    simp only [OutboxWorld.step]
    split
    · split <;> exact Or.inl hself
    · exact Or.inl hself
  | send worker answer =>
    simp only [OutboxWorld.step]
    split <;> exact Or.inl hself
  | report worker stored now =>
    simp only [OutboxWorld.step, OutboxWorld.report]
    split
    · cases stored
      · exact Or.inl hself
      · exact Or.inl ⟨_, completeOutbox_write _ _ _ _⟩
    · cases stored
      · exact Or.inl hself
      · exact Or.inl ⟨_, failOutbox_write _ _ _ _ _ _⟩
    · cases stored
      · exact Or.inl hself
      · exact Or.inl ⟨_, failOutbox_write _ _ _ _ _ _⟩
    all_goals exact Or.inl hself
  | crash worker => exact Or.inl hself

/-- The item has been given up for good, or pruned since. -/
structure OutboxWorld.Closed (id : String) (w : OutboxWorld) : Prop where
  used : id ∈ w.used
  status : ∀ i ∈ w.db.outboxItems, i.id = id → i.status.isClosed = true

theorem mem_used_step (h : id ∈ w.used) (op : OutboxOp) : id ∈ (w.step op).used := by
  cases op with
  | schedule owner input =>
    simp only [OutboxWorld.step]
    split <;> exact List.mem_cons_of_mem _ h
  | claim worker now | prepare worker env =>
    simp only [OutboxWorld.step]
    split
    · split <;> exact h
    · exact h
  | send worker answer =>
    simp only [OutboxWorld.step]
    split <;> exact h
  | report worker stored now =>
    simp only [OutboxWorld.step, OutboxWorld.report]
    cases stored <;> split <;> exact h
  | cancel owner id now | retry owner id now | resolve owner id wasSent now | prune before
  | accounts rows | crash worker => exact h

theorem step_closed (id : String) (w : OutboxWorld) (op : OutboxOp) (h : w.Closed id)
    (hfresh : FreshItem w op) : (w.step op).Closed id := by
  refine ⟨mem_used_step h.used op, ?_⟩
  intro i' hi' hid
  rcases step_items w op with ⟨reopened, hwrite⟩ | ⟨owner, input, item, rfl, hitem, heq⟩
  · obtain ⟨i, hi, hsame, hclosed, -⟩ := hwrite.origin hi'
    exact hclosed (h.status i hi (hsame.id ▸ hid))
  · rw [heq] at hi'
    rcases List.mem_append.mp hi' with hi' | hi'
    · exact h.status i' hi' hid
    · rw [List.mem_singleton.mp hi', hitem] at hid
      exact absurd (hid ▸ h.used) hfresh

/-- The step claims the item. -/
def Claims (id : String) (w : OutboxWorld) : OutboxOp → Prop
  | .claim _ now => ∃ work, (claimDueOutbox w.db now).1 = some work ∧ work.id = id
  | _ => False

omit [Platform] in
theorem OutboxWorld.Closed.not_claims (h : w.Closed id) (hunique : UniqueIds w.db.outboxItems)
    (op : OutboxOp) : ¬ Claims id w op := by
  cases op with
  | claim worker now =>
    rintro ⟨work, hwork, rfl⟩
    obtain ⟨⟨i, hi, hid, -, hscheduled⟩, -⟩ :=
      claimDueOutbox_some hunique (Prod.ext hwork rfl : claimDueOutbox w.db now = (_, _))
    have hclosed := h.status i hi hid
    rw [hscheduled] at hclosed
    cases hclosed
  | _ => exact not_false

theorem OutboxWorld.Closed.report_db (h : w.Closed id) {worker : ℕ}
    (hitem : (w.workers worker).item = some id) (stored : Bool) (now : Time) :
    (w.report worker stored now).db = w.db := by
  have hsending : ∀ i ∈ w.db.outboxItems, i.id = id → i.status ≠ .sending := by
    intro i hi hid hs
    have hclosed := h.status i hi hid
    rw [hs] at hclosed
    cases hclosed
  unfold OutboxWorld.report
  split
  · rename_i work sent hphase
    rw [hphase] at hitem
    cases hitem
    simp only [completeOutbox_of_not_sending hsending]
    cases stored <;> rfl
  · rename_i work e hphase
    rw [hphase] at hitem
    cases hitem
    cases stored
    · rfl
    · exact failOutbox_of_not_sending hsending _ _ _ _
  · rename_i work hphase
    rw [hphase] at hitem
    cases hitem
    cases stored
    · rfl
    · exact failOutbox_of_not_sending hsending _ _ _ _
  all_goals rfl

/-- Over every history, `SmtpPort::send` is called at most once for an item. An item that
needs review, or is sent or cancelled, is never claimed again, and what its worker still
reports changes nothing. -/
theorem outbox_at_most_once {w : OutboxWorld} (hstart : w.Start) {ops : List OutboxOp}
    (hfresh : Along OutboxWorld.step FreshItem w ops) :
    (∀ id, (w.run ops).sends.count id ≤ 1) ∧
      ∀ i ∈ (w.run ops).db.outboxItems, i.status.isClosed = true →
        ∀ more, Along OutboxWorld.step FreshItem (w.run ops) more →
          Along OutboxWorld.step (fun v op => ¬ Claims i.id v op) (w.run ops) more ∧
          ∀ worker stored now, (((w.run ops).run more).workers worker).item = some i.id →
            (((w.run ops).run more).step (.report worker stored now)).db =
              ((w.run ops).run more).db := by
  have hinv := deliveryInv_run hstart.deliveryInv hfresh
  refine ⟨List.nodup_iff_count_le_one.mp hinv.once, ?_⟩
  intro i hi hclosed more hmore
  have hboth : DeliveryInv (w.run ops) ∧ (w.run ops).Closed i.id := by
    refine ⟨hinv, hinv.usedItems i hi, ?_⟩
    intro j hj hid
    have heq := hinv.ids.eq_of_mem hj hi (k := i.id) (by rw [hid]) rfl
    rw [heq]
    exact hclosed
  have hstep : ∀ v op, DeliveryInv v ∧ v.Closed i.id → FreshItem v op →
      DeliveryInv (v.step op) ∧ (v.step op).Closed i.id := by
    intro v op hv hop
    exact ⟨step_deliveryInv v op hv.1 hop, step_closed i.id v op hv.2 hop⟩
  constructor
  · apply along_of_invariant _ hstep _ hboth hmore
    intro v op hv _
    exact hv.2.not_claims hv.1.ids op
  · intro worker stored now hitem
    exact (invariant_along _ hstep hboth hmore).2.report_db hitem stored now

/-- An open item was never sent and no worker has it, and no item is with two workers. -/
theorem open_item_unsent {ops : List OutboxOp} (hstart : w.Start)
    (hfresh : Along OutboxWorld.step FreshItem w ops) :
    let v := w.run ops
    (∀ i ∈ v.db.outboxItems, i.status.isOpen = true →
      i.id ∉ v.sends ∧ ∀ k, (v.workers k).item ≠ some i.id) ∧
    ∀ k k' id, (v.workers k).item = some id → (v.workers k').item = some id → k = k' := by
  have hinv := deliveryInv_run hstart.deliveryInv hfresh
  exact ⟨hinv.free, hinv.holder⟩

end

def senderAccount : Account :=
  { id := "a1"
    userId := "u1"
    email := "a@x.test"
    createdAt := 0
    settings := some
      { imapHost := some "imap.x.test"
        imapPort := some 993
        imapSecure := some true
        smtpHost := some "smtp.x.test"
        smtpPort := some 465
        smtpSecure := some true } }

def stalledWorld : OutboxWorld := { db := { accounts := [senderAccount] } }

def stalledSchedule : OutboxSchedule :=
  { id := "i1"
    message := { accountId := "a1", recipients := ["b@x.test"], subject := "", text := "" }
    idempotencyKey := "k1"
    scheduledAt := 0
    now := 0 }

def stalledOps : List OutboxOp :=
  [.schedule "u1" stalledSchedule, .claim 0 0,
    .prepare 0 { decrypt := fun _ => some { password := some "p" } },
    .send 0 (.ok ⟨"m1", ["b@x.test"]⟩), .claim 1 (minutes 11)]

theorem outbox_at_most_once_stalled :
    let _ := Platform.plain
    (stalledWorld.run stalledOps).sends = ["i1"] ∧
      (stalledWorld.run stalledOps).db.outboxItems.map (·.status) = [.needsReview] ∧
      (stalledWorld.run stalledOps).sends.count "i1" ≤ 1 ∧
      ∀ stored now, ((stalledWorld.run stalledOps).step (.report 0 stored now)).db =
        (stalledWorld.run stalledOps).db := by
  intro _
  have hstart : stalledWorld.Start := ⟨.nil _, fun _ => rfl, rfl, rfl⟩
  have hfresh : Along OutboxWorld.step FreshItem stalledWorld stalledOps :=
    ⟨by simp [FreshItem, stalledWorld], trivial, trivial, trivial, trivial, trivial⟩
  have hstatus : (stalledWorld.run stalledOps).db.outboxItems.map (·.status) = [.needsReview] := by
    decide +kernel
  have hids : (stalledWorld.run stalledOps).db.outboxItems.map (·.id) = ["i1"] := by
    decide +kernel
  have hworker : ((stalledWorld.run stalledOps).workers 0).item = some "i1" := by decide +kernel
  have hsends : (stalledWorld.run stalledOps).sends = ["i1"] := by decide +kernel
  obtain ⟨honce, hclosed⟩ := outbox_at_most_once hstart hfresh
  generalize stalledWorld.run stalledOps = v at *
  refine ⟨hsends, hstatus, honce "i1", ?_⟩
  obtain ⟨item, hitems, hitem⟩ := List.map_eq_singleton_iff.mp hstatus
  rw [hitems] at hids hclosed
  have hid : item.id = "i1" := by simpa using hids
  intro stored now
  exact (hclosed item (by simp) (by rw [hitem]; rfl) [] trivial).2 0 stored now (hid ▸ hworker)

theorem open_item_unsent_scheduled :
    let _ := Platform.plain
    let v := stalledWorld.run [.schedule "u1" stalledSchedule]
    ∃ i ∈ v.db.outboxItems, i.status.isOpen = true ∧ i.id ∉ v.sends := by
  intro _ v
  obtain ⟨i, hi, hopen⟩ : ∃ i ∈ v.db.outboxItems, i.status.isOpen = true := by decide +kernel
  have hfresh : Along OutboxWorld.step FreshItem stalledWorld [.schedule "u1" stalledSchedule] :=
    ⟨by simp [FreshItem, stalledWorld], trivial⟩
  exact ⟨i, hi, hopen, ((open_item_unsent ⟨.nil _, fun _ => rfl, rfl, rfl⟩ hfresh).1 i hi hopen).1⟩

end IMail
