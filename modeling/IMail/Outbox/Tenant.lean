import IMail.Outbox.Requests
import IMail.Transition.Run

/-!
# Drafts of other users

The outbox works for one user here: the requests of that user, and the workers at the items
of that user. `complete_outbox` and `resolve_outbox` delete the draft that an item names,
whoever it belongs to, so the drafts of another user are safe exactly as long as no item
names one of them.
-/

namespace IMail

open Relational Transition

inductive TenantOp
  | request (newId : String) (input : OutboxRequest) (now : Time)
  | scheduleMessage (newId requestId sendAt : String) (message : SendMessageInput)
      (draftId : Option String) (now : Time)
  | claim (now : Time)
  | complete (id messageId : String) (now : Time)
  | fail (id code message : String) (uncertain : Bool) (now : Time)

def TenantOp.apply [Platform] (user : String) (db : Db) : TenantOp → Db
  | .request newId input now => committed db ((execute db user newId input now).map Prod.snd)
  | .scheduleMessage newId requestId sendAt message draftId now =>
    committed db
      ((IMail.scheduleMessage db user newId requestId sendAt message draftId now).map Prod.snd)
  | .claim now => (claimDueOutbox db now).2
  | .complete id messageId now => (completeOutbox db id messageId now).2
  | .fail id code message uncertain now => (failOutbox db id code message uncertain now).2

/-- The reports are about items of the user. -/
def OnBehalf (user : String) (db : Db) : TenantOp → Prop
  | .complete id _ _ | .fail id _ _ _ _ => ∀ i ∈ db.outboxItems, i.id = id → i.userId = user
  | .request .. | .scheduleMessage .. | .claim _ => True

/-- The rows of `drafts` that belong to accounts of a user. -/
def draftsOf (user : String) (db : Db) : List Draft :=
  db.drafts.filter fun d => db.ownsAccount user d.accountId

def NamesNone (drafts : List Draft) (draftId : Option String) : Prop :=
  ∀ d ∈ drafts, draftId ≠ some d.id

/-- What the step schedules is not written in a draft of `other`. -/
def SchedulesOwn (other : String) (db : Db) : TenantOp → Prop
  | .request _ (.schedule (.decoded input)) _ => NamesNone (draftsOf other db) input.message.draftId
  | .scheduleMessage _ _ _ _ draftId _ => NamesNone (draftsOf other db) draftId
  | .request .. | .claim _ | .complete .. | .fail .. => True

/-- The drafts of `other` are those at the start, and no item of `user` names one of them. -/
structure TenantInv (user other : String) (drafts : List Draft) (db : Db) : Prop where
  kept : draftsOf other db = drafts
  items : ∀ i ∈ db.outboxItems, i.userId = user → NamesNone drafts i.draftId

namespace TenantInv

variable {user other : String} {drafts : List Draft} {db : Db}

section

variable (h : TenantInv user other drafts db)
include h

theorem write {reopened : Option String}
    {items : List OutboxItem} (hwrite : ItemsWrite reopened db.outboxItems items) :
    TenantInv user other drafts { db with outboxItems := items } := by
  refine ⟨h.kept, ?_⟩
  intro i' hi' huser
  obtain ⟨i, hi, hsame, -⟩ := hwrite.origin hi'
  rw [hsame.draftId]
  exact h.items i hi (hsame.userId ▸ huser)

theorem insert {item : OutboxItem} (hitem : NamesNone drafts item.draftId) :
    TenantInv user other drafts { db with outboxItems := db.outboxItems ++ [item] } := by
  refine ⟨h.kept, ?_⟩
  intro i hi huser
  rcases List.mem_append.mp hi with hi | hi
  · exact h.items i hi huser
  · rw [List.mem_singleton.mp hi]
    exact hitem

theorem deleteDraftOf {p : OutboxItem → Bool}
    (hp : ∀ i ∈ db.outboxItems, p i = true → i.userId = user) :
    TenantInv user other drafts (db.deleteDraftOf p) := by
  refine ⟨?_, h.items⟩
  rw [← h.kept]
  apply filter_deleteWhere
  intro d hd howned
  cases hfind : db.outboxItems.find? p with
  | none => rfl
  | some item =>
    have hitem := List.mem_of_find?_eq_some hfind
    have hnames := h.items item hitem (hp item hitem (List.find?_some hfind))
    rw [← h.kept] at hnames
    simpa using hnames d (List.mem_filter.mpr ⟨hd, howned⟩)

theorem complete {id : String}
    (hbehalf : ∀ i ∈ db.outboxItems, i.id = id → i.userId = user) (messageId : String)
    (now : Time) : TenantInv user other drafts (completeOutbox db id messageId now).2 := by
  have hwrite := completeOutbox_write db id messageId now
  rw [completeOutbox_outboxItems] at hwrite
  unfold completeOutbox
  dsimp only
  split_ifs
  · apply (h.write hwrite).deleteDraftOf
    intro i' hi' hid
    obtain ⟨i, hi, hsame, -⟩ := hwrite.origin hi'
    rw [hsame.userId]
    exact hbehalf i hi (hsame.id ▸ beq_iff_eq.mp hid)
  · exact h.write hwrite

theorem resolve (id : String) (wasSent : Bool)
    (now : Time) : TenantInv user other drafts (resolveOutbox db user id wasSent now).2 := by
  have hwrite := resolveOutbox_write db user id wasSent now
  rw [resolveOutbox_outboxItems] at hwrite
  unfold resolveOutbox
  dsimp only
  split_ifs
  · apply (h.write hwrite).deleteDraftOf
    intro i _ hi
    simp only [Bool.and_eq_true, beq_iff_eq] at hi
    exact hi.1
  · exact h.write hwrite

theorem claim (now : Time) : TenantInv user other drafts (claimDueOutbox db now).2 := by
  have hwrite := claimDueOutbox_write db now
  unfold claimDueOutbox at hwrite ⊢
  dsimp only at hwrite ⊢
  split at hwrite
  · exact h.write hwrite
  · split_ifs at hwrite ⊢ <;> exact h.write hwrite

end

section

variable [Platform]

theorem schedule (h : TenantInv user other drafts db) {db' : Db}
    {newId requestId sendAt : String} {message : SendMessageInput} {draftId : Option String}
    {now : Time} {item : OutboxItem} (hnames : NamesNone drafts draftId)
    (hok : scheduleMessage db user newId requestId sendAt message draftId now =
      .ok (item, db')) : TenantInv user other drafts db' := by
  rcases scheduleMessage_ok hok with rfl | ⟨-, hdraft, rfl⟩
  · exact h
  · exact h.insert (hdraft ▸ hnames)

theorem request (h : TenantInv user other drafts db) {newId : String} {request : OutboxRequest}
    {now : Time} (hown : SchedulesOwn other db (.request newId request now)) {reply : OutboxReply}
    {db' : Db} (hok : execute db user newId request now = .ok (reply, db')) :
    TenantInv user other drafts db' := by
  have hconflict : ∀ {message reply'} {r : Bool × Db}, TenantInv user other drafts r.2 →
      orConflict message reply' r = .ok (reply, db') → TenantInv user other drafts db' := by
    rintro message reply' ⟨_ | _, db''⟩ hr heq
    · cases heq
    · cases heq
      exact hr
  cases request with
  | schedule body =>
    cases body with
    | missing | malformed => cases hok
    | decoded input =>
      simp only [execute] at hok
      split at hok
      · cases hok
      · rename_i message draftId hvalid
        cases hschedule : scheduleMessage db user newId input.requestId input.sendAt message
            draftId now with
        | error e =>
          rw [hschedule] at hok
          cases hok
        | ok result =>
          rw [hschedule] at hok
          cases hok
          apply h.schedule _ hschedule
          rw [validateSend_draftId hvalid, ← h.kept]
          exact hown
  | cancel id => exact hconflict (h.write (cancelOutbox_write db user _ now)) hok
  | retry id => exact hconflict (h.write (retryOutbox_write db user _ now)) hok
  | resolve id body =>
    cases body with
    | missing | malformed => cases hok
    | decoded resolution => exact hconflict (h.resolve _ _ now) hok

end

end TenantInv

section

variable [Platform]

theorem step_tenantInv {user other : String} {drafts : List Draft} (db : Db) (op : TenantOp)
    (h : TenantInv user other drafts db) (hop : OnBehalf user db op ∧ SchedulesOwn other db op) :
    TenantInv user other drafts (op.apply user db) := by
  cases op with
  | request newId request now =>
    apply committed_of h
    intro db' hok
    cases hexecute : execute db user newId request now with
    | error e =>
      rw [hexecute] at hok
      cases hok
    | ok result =>
      rw [hexecute] at hok
      cases hok
      exact h.request hop.2 hexecute
  | scheduleMessage newId requestId sendAt message draftId now =>
    apply committed_of h
    intro db' hok
    cases hschedule : scheduleMessage db user newId requestId sendAt message draftId now with
    | error e =>
      rw [hschedule] at hok
      cases hok
    | ok result =>
      rw [hschedule] at hok
      cases hok
      apply h.schedule _ hschedule
      rw [← h.kept]
      exact hop.2
  | claim now => exact h.claim now
  | complete id messageId now => exact h.complete hop.1 messageId now
  | fail id code message uncertain now => exact h.write (failOutbox_write db _ _ _ _ now)

/-- As long as nothing that a user has in the outbox names a draft of another user, and the
user schedules nothing that does, the drafts of the other user stay what they are. -/
theorem outbox_keeps_drafts (user other : String) {db : Db} {ops : List TenantOp}
    (hitems : ∀ i ∈ db.outboxItems, i.userId = user → NamesNone (draftsOf other db) i.draftId)
    (hops : Along (TenantOp.apply user)
      (fun db op => OnBehalf user db op ∧ SchedulesOwn other db op) db ops) :
    draftsOf other (exec (TenantOp.apply user) db ops) = draftsOf other db :=
  (invariant_along (TenantInv user other (draftsOf other db)) step_tenantInv
    ⟨rfl, hitems⟩ hops).kept

end

def emptyDraft (id accountId : String) : Draft :=
  { id, accountId, recipients := [], cc := [], subject := "", text := "", createdAt := 0
    updatedAt := 0 }

def twoTenants : Db where
  accounts :=
    [{ id := "accountA", userId := "userA", email := "a@x.test", createdAt := 0 },
      { id := "accountB", userId := "userB", email := "b@x.test", createdAt := 0 }]
  drafts := [emptyDraft "draftA" "accountA", emptyDraft "draftB" "accountB"]

def sendsDraft (draftId : String) : List TenantOp :=
  [.request "item" (.schedule (.decoded
      { sendAt := "1970-01-01T00:00:00Z"
        requestId := "3f2504e0-4f89-41d3-9a0c-0305e82c3301"
        message :=
          { accountId := "accountA"
            recipients := ["c@x.test"]
            subject := "s"
            text := "t"
            draftId := some draftId } })) 0,
    .claim 0, .complete "item" "sent" 0]

/-- The message is in a draft of A, which goes with it. -/
theorem outbox_keeps_drafts_own :
    let _ := Platform.plain
    (exec (TenantOp.apply "userA") twoTenants (sendsDraft "draftA")).drafts.map (·.id) =
        ["draftB"] ∧
      draftsOf "userB" (exec (TenantOp.apply "userA") twoTenants (sendsDraft "draftA")) =
        draftsOf "userB" twoTenants := by
  intro _
  refine ⟨by decide +kernel, outbox_keeps_drafts "userA" "userB" ?_ ?_⟩
  · intro i hi
    cases hi
  · refine ⟨⟨trivial, ?_⟩, ⟨trivial, trivial⟩, ⟨?_, trivial⟩, trivial⟩
    · intro d hd
      have hid : d.id ∈ (draftsOf "userB" twoTenants).map (·.id) := List.mem_map_of_mem hd
      have hdrafts : (draftsOf "userB" twoTenants).map (·.id) = ["draftB"] := by decide
      rw [hdrafts, List.mem_singleton] at hid
      simp [hid]
    · intro i hi _
      have huser : i.userId ∈ (exec (TenantOp.apply "userA") twoTenants
          ((sendsDraft "draftA").take 2)).outboxItems.map (·.userId) := List.mem_map_of_mem hi
      have husers : (exec (TenantOp.apply "userA") twoTenants
          ((sendsDraft "draftA").take 2)).outboxItems.map (·.userId) = ["userA"] := by
        decide +kernel
      rw [husers, List.mem_singleton] at huser
      exact huser

/-- The message names the draft of B, which is deleted when it is sent. -/
theorem outbox_deletes_foreign_draft :
    let _ := Platform.plain
    (draftsOf "userB" twoTenants).map (·.id) = ["draftB"] ∧
      draftsOf "userB" (exec (TenantOp.apply "userA") twoTenants (sendsDraft "draftB")) = [] := by
  decide +kernel

end IMail
