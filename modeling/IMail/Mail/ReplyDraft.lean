import IMail.Outbox.Requests
import IMail.Store.Drafts
import IMail.Sync.WorkItems

/-!
# Drafts of replies

`create_reply_draft` of `imail-http/src/work_queue.rs`. One set of addresses is threaded through
the recipients, so that nobody is addressed twice and no account of the owner is addressed at all.
The draft and the work item are written by two transactions, and a synchronisation that runs
between them can take the message away.
-/

namespace IMail

open Text Relational

inductive ReplyMode
  | reply
  | replyAll
deriving DecidableEq

structure ReplyDraftInput where
  mode : ReplyMode
  text : String
  html : Option String := none
  subject : Option String := none
  bcc : List String := []

def ReplyDraftInput.acceptable (input : ReplyDraftInput) : Bool :=
  !isBlank input.text && utf16 input.text ≤ 2000000 &&
    (input.html.all fun value => utf16 value ≤ 8000000) &&
    input.subject.all fun value => utf16 value ≤ 500

def addressOf (value : MailAddressView) : String := trim value.address

/-- `take`: the valid addresses whose key is not among those seen, and the keys seen then. -/
def takeAddresses : List String → List MailAddressView → List String × List String
  | seen, [] => ([], seen)
  | seen, value :: values =>
    let address := addressOf value
    let key := toAsciiLowercase address
    if validMailAddress address && !seen.contains key then
      let (taken, seen) := takeAddresses (key :: seen) values
      (address :: taken, seen)
    else takeAddresses seen values

def ownKeys (db : Db) (owner : String) : List String :=
  (db.accounts.filter fun a => a.userId == owner).map fun a => toAsciiLowercase (trim a.email)

def replyTargets (original : Message) : List MailAddressView :=
  if original.headers.replyTo.isEmpty then [original.sender] else original.headers.replyTo

def replyRecipients (own : List String) (original : Message) (mode : ReplyMode) :
    List String × List String :=
  let (recipients, seen) := takeAddresses own (replyTargets original)
  match mode with
  | .reply => (recipients, [])
  | .replyAll =>
    let (more, seen) := takeAddresses seen original.recipients
    (recipients ++ more, (takeAddresses seen original.headers.cc).1)

def replyParent (original : Message) : Option String := original.messageId.bind normalizeMessageId

def normalizedReferences (original : Message) : List String :=
  original.headers.references.filterMap normalizeMessageId

def withParent (original : Message) : List String :=
  match replyParent original with
  | some parent =>
    if (normalizedReferences original).contains parent then normalizedReferences original
    else normalizedReferences original ++ [parent]
  | none => normalizedReferences original

def replyReferences (original : Message) : List String :=
  let references := withParent original
  if 100 < references.length then references.drop (references.length - 100) else references

def replySubject (input : ReplyDraftInput) (original : Message) : String :=
  input.subject.getD <|
    if "re:".toList.isPrefixOf ((original.subject.toList.dropWhile isWhitespace).map asciiLower)
    then original.subject
    else "Re: " ++ original.subject

def replyDraft (db : Db) (owner messageId : String) (input : ReplyDraftInput) (draftId : String)
    (now : Time) : Except EmbeddedOperationError Draft :=
  if !input.acceptable then .error ⟨400, "回复正文或主题无效"⟩
  else
    match db.ownedMessage owner messageId with
    | none => .error ⟨404, "邮件不存在"⟩
    | some original =>
      let (recipients, cc) := replyRecipients (ownKeys db owner) original input.mode
      let envelope : ComposeEnvelope :=
        { bcc := input.bcc
          inReplyTo := (replyParent original).toList
          references := replyReferences original }
      if recipients.isEmpty && cc.isEmpty then .error ⟨400, "原邮件没有可回复的外部收件人"⟩
      else if !envelope.isValid then .error ⟨400, "回复关联或密送地址无效"⟩
      else
        .ok
          { id := draftId
            accountId := original.accountId
            recipients
            cc
            subject := replySubject input original
            text := input.text
            html := input.html.getD ""
            envelope
            createdAt := now
            updatedAt := now }

/-- `DraftService::create` -/
def createDraft (w : WorkDb) (owner : String) (draft : Draft) :
    Except EmbeddedOperationError (Draft × WorkDb) :=
  let known := (listDrafts w.toDb owner).find? fun d => d.id == draft.id
  let draft := { draft with createdAt := (known.map (·.createdAt)).getD draft.createdAt }
  if !draft.envelope.isValid || !w.ownsAccount owner draft.accountId then
    .error ⟨500, "回复草稿保存失败"⟩
  else
    match upsertDraft w.toDb owner draft with
    | .error _ => .error ⟨500, "回复草稿保存失败"⟩
    | .ok db => .ok (draft, { w with toDb := db })

def storageError : AuthStoreError → EmbeddedOperationError
  | .contentOwnershipViolation => ⟨404, "邮件不存在"⟩
  | .invalidContentData => ⟨400, "处理队列参数无效"⟩
  | _ => ⟨500, "邮件处理队列暂时不可用"⟩

/-- `create_reply_draft`, where a synchronisation removes messages between the transactions. -/
def createReplyDraft (w : WorkDb) (removed : Message → Bool) (owner messageId : String)
    (input : ReplyDraftInput) (draftId itemId : String) (now : Time) (nowText : String) :
    Except EmbeddedOperationError (Draft × MailWorkItem) × WorkDb :=
  match replyDraft w.toDb owner messageId input draftId now with
  | .error e => (.error e, w)
  | .ok draft =>
    match createDraft w owner draft with
    | .error e => (.error e, w)
    | .ok (draft, w) =>
      let w := w.deleteMessages removed
      match w.setMailWorkItem owner itemId messageId .needsReview none
          "Agent 已创建回复草稿，等待确认" (some draftId) nowText with
      | .error e => (.error (storageError e), w)
      | .ok (item, w) => (.ok (draft, item), w)

structure Taken (seen : List String) (values : List MailAddressView) (taken after : List String) :
    Prop where
  order : taken.Sublist (values.map addressOf)
  valid : ∀ a ∈ taken, validMailAddress a = true
  nodup : (taken.map toAsciiLowercase).Nodup
  fresh : ∀ key ∈ taken.map toAsciiLowercase, key ∉ seen
  members : ∀ key, key ∈ after ↔ key ∈ seen ∨ key ∈ taken.map toAsciiLowercase
  covers : ∀ v ∈ values, validMailAddress (addressOf v) = true →
    toAsciiLowercase (addressOf v) ∈ after

theorem takeAddresses_taken (values : List MailAddressView) : ∀ seen : List String,
    Taken seen values (takeAddresses seen values).1 (takeAddresses seen values).2 := by
  induction values with
  | nil => intro seen; constructor <;> simp [takeAddresses]
  | cons value values ih =>
    intro seen
    by_cases htake :
        (validMailAddress (addressOf value) && !seen.contains (toAsciiLowercase (addressOf value))) =
          true
    · have hrec := ih (toAsciiLowercase (addressOf value) :: seen)
      simp only [takeAddresses, htake, if_true]
      simp only [Bool.and_eq_true, Bool.not_eq_true', List.contains_eq_mem,
        decide_eq_false_iff_not] at htake
      have hmembers := hrec.members
      simp only [List.mem_cons] at hmembers
      constructor
      · exact hrec.order.cons_cons _
      · exact List.forall_mem_cons.mpr ⟨htake.1, hrec.valid⟩
      · refine List.nodup_cons.mpr ⟨fun hmem => ?_, hrec.nodup⟩
        exact hrec.fresh _ hmem List.mem_cons_self
      · refine List.forall_mem_cons.mpr ⟨htake.2, fun key hkey hseen => ?_⟩
        exact hrec.fresh key hkey (List.mem_cons_of_mem _ hseen)
      · intro key
        rw [hmembers, List.map_cons, List.mem_cons, or_assoc, or_left_comm]
      · intro v hv hvalid
        rcases List.mem_cons.mp hv with rfl | hv
        · exact (hmembers _).mpr (.inl (.inl rfl))
        · exact hrec.covers v hv hvalid
    · have hrec := ih seen
      simp only [takeAddresses, if_neg htake]
      refine { hrec with order := hrec.order.cons _, covers := ?_ }
      intro v hv hvalid
      rcases List.mem_cons.mp hv with rfl | hv
      · exact (hrec.members _).mpr (.inl (by simpa [hvalid] using htake))
      · exact hrec.covers v hv hvalid

theorem Taken.append {seen middle after taken taken' : List String}
    {values values' : List MailAddressView} (h : Taken seen values taken middle)
    (h' : Taken middle values' taken' after) :
    Taken seen (values ++ values') (taken ++ taken') after := by
  constructor
  · rw [List.map_append]
    exact h.order.append h'.order
  · exact List.forall_mem_append.mpr ⟨h.valid, h'.valid⟩
  · rw [List.map_append, List.nodup_append']
    exact ⟨h.nodup, h'.nodup, fun key hkey hkey' =>
      h'.fresh key hkey' ((h.members key).mpr (.inr hkey))⟩
  · rw [List.map_append]
    refine List.forall_mem_append.mpr ⟨h.fresh, fun key hkey hseen => ?_⟩
    exact h'.fresh key hkey ((h.members key).mpr (.inl hseen))
  · intro key
    rw [h'.members, h.members, List.map_append, List.mem_append, or_assoc]
  · refine List.forall_mem_append.mpr ⟨fun v hv hvalid => ?_, h'.covers⟩
    exact (h'.members _).mpr (.inl (h.covers v hv hvalid))

def Eligible (own : List String) (address : String) : Prop :=
  validMailAddress address = true ∧ toAsciiLowercase address ∉ own

/-- The originals of `to` and of `cc`. -/
def replySources (original : Message) : ReplyMode → List MailAddressView × List MailAddressView
  | .reply => (replyTargets original, [])
  | .replyAll => (replyTargets original ++ original.recipients, original.headers.cc)

structure Addressed (own : List String) (original : Message) (mode : ReplyMode)
    (recipients cc : List String) : Prop where
  order : recipients.Sublist ((replySources original mode).1.map addressOf)
  orderCc : cc.Sublist ((replySources original mode).2.map addressOf)
  nodup : ((recipients ++ cc).map toAsciiLowercase).Nodup
  eligible : ∀ a ∈ recipients ++ cc, Eligible own a
  covers : ∀ v ∈ (replySources original mode).1, Eligible own (addressOf v) →
    toAsciiLowercase (addressOf v) ∈ recipients.map toAsciiLowercase
  coversCc : ∀ v ∈ (replySources original mode).2, Eligible own (addressOf v) →
    toAsciiLowercase (addressOf v) ∈ (recipients ++ cc).map toAsciiLowercase

theorem Addressed.of_taken {own middle after recipients cc : List String} {original : Message}
    {mode : ReplyMode} (h : Taken own (replySources original mode).1 recipients middle)
    (hcc : Taken middle (replySources original mode).2 cc after) :
    Addressed own original mode recipients cc := by
  have hall := h.append hcc
  refine ⟨h.order, hcc.order, hall.nodup, fun a ha => ?_, fun v hv helig => ?_, fun v hv helig => ?_⟩
  · exact ⟨hall.valid a ha, hall.fresh _ (List.mem_map_of_mem ha)⟩
  · exact ((h.members _).mp (h.covers v hv helig.1)).resolve_left helig.2
  · have hcovered := hall.covers v (List.mem_append_right _ hv) helig.1
    exact ((hall.members _).mp hcovered).resolve_left helig.2

theorem replyRecipients_addressed (own : List String) (original : Message) (mode : ReplyMode) :
    Addressed own original mode (replyRecipients own original mode).1
      (replyRecipients own original mode).2 := by
  have htargets := takeAddresses_taken (replyTargets original) own
  cases mode with
  | reply => exact .of_taken htargets (takeAddresses_taken [] _)
  | replyAll => exact .of_taken (htargets.append (takeAddresses_taken _ _)) (takeAddresses_taken _ _)

def Threaded (original : Message) (references : List String) : Prop :=
  references.length ≤ 100 ∧ references.Sublist (withParent original) ∧
    ∀ parent, replyParent original = some parent → parent ∈ references

theorem replyReferences_eq (original : Message) :
    replyReferences original = (withParent original).drop ((withParent original).length - 100) := by
  simp only [replyReferences]
  split_ifs with hlong
  · rfl
  · rw [Nat.sub_eq_zero_of_le (by omega), List.drop_zero]

theorem threaded_replyReferences {original : Message}
    (hstored : original.headers.references.length ≤ 100) :
    Threaded original (replyReferences original) := by
  have hshort : (normalizedReferences original).length ≤ 100 :=
    (List.length_filterMap_le _ _).trans hstored
  rw [replyReferences_eq]
  refine ⟨by rw [List.length_drop]; omega, List.drop_sublist _ _, fun parent hparent => ?_⟩
  simp only [withParent, hparent, List.contains_eq_mem, decide_eq_true_eq]
  split_ifs with hmem
  · rw [Nat.sub_eq_zero_of_le hshort, List.drop_zero]
    exact hmem
  · rw [List.drop_append_of_le_length (by simp)]
    simp

variable {owner messageId draftId : String} {d : Draft} {w : WorkDb}

theorem replyDraft_ok {db : Db} {input : ReplyDraftInput} {now : Time}
    (h : replyDraft db owner messageId input draftId now = .ok d) :
    ∃ original, db.ownedMessage owner messageId = some original ∧ d.id = draftId ∧
      d.accountId = original.accountId ∧ d.envelope.isValid = true ∧
      Addressed (ownKeys db owner) original input.mode d.recipients d.cc ∧
      d.envelope.inReplyTo = (replyParent original).toList ∧
      d.envelope.references = replyReferences original := by
  unfold replyDraft at h
  split_ifs at h
  cases horiginal : db.ownedMessage owner messageId with
  | none => simp [horiginal] at h
  | some original =>
    simp only [horiginal] at h
    split_ifs at h with _ hvalid
    cases h
    exact ⟨original, rfl, rfl, rfl, by simpa using hvalid,
      replyRecipients_addressed _ original input.mode, rfl, rfl⟩

theorem createDraft_fresh (hfresh : ∀ old ∈ w.drafts, old.id ≠ d.id)
    (hvalid : d.envelope.isValid = true) (howned : w.ownsAccount owner d.accountId = true) :
    createDraft w owner d =
      .ok (d, { w with toDb := { w.toDb with drafts := w.drafts ++ [d] } }) := by
  have hknown : ((listDrafts w.toDb owner).find? fun old => old.id == d.id) = none := by
    refine List.find?_eq_none.mpr fun old hold => ?_
    simpa using hfresh old (mem_listDrafts.mp hold).1
  have hfind : (w.drafts.find? fun old => old.id == d.id) = none :=
    List.find?_eq_none.mpr fun old hold => by simpa using hfresh old hold
  have hany : (w.drafts.any fun old => old.id == d.id) = false :=
    List.any_eq_false.mpr fun old hold => by simpa using hfresh old hold
  simp [createDraft, hknown, hvalid, howned, upsertDraft, draftOwner, hfind, hany]

theorem upsertWorkItem_fresh {item : MailWorkItem}
    (hfresh : ∀ old ∈ w.mailWorkItems, old.id ≠ item.id) :
    ∃ w' stored, w.upsertWorkItem item = .ok w' ∧ w'.toDb = w.toDb ∧
      w'.mailWorkItem item.userId item.messageId = some stored := by
  have hfound : ∀ w' : WorkDb, (∃ i ∈ w'.mailWorkItems,
      i.userId = item.userId ∧ i.messageId = item.messageId) →
      ∃ stored, w'.mailWorkItem item.userId item.messageId = some stored := by
    rintro w' ⟨i, hi, huser, hmessage⟩
    refine Option.isSome_iff_exists.mp (List.find?_isSome.mpr ⟨i, hi, ?_⟩)
    simp [huser, hmessage]
  simp only [WorkDb.upsertWorkItem]
  split_ifs with hsame hid
  · obtain ⟨i, hi, hkey⟩ := List.any_eq_true.mp hsame
    obtain ⟨stored, hstored⟩ := hfound
      { w with mailWorkItems := updateWhere (fun i => i.userId == item.userId &&
        i.messageId == item.messageId) (WorkDb.mergeWorkItem item) w.mailWorkItems }
      ⟨WorkDb.mergeWorkItem item i, List.mem_map.mpr ⟨i, hi, if_pos hkey⟩,
        by simpa [WorkDb.mergeWorkItem] using hkey⟩
    exact ⟨_, stored, rfl, rfl, hstored⟩
  · obtain ⟨i, hi, hkey⟩ := List.any_eq_true.mp hid
    exact absurd (by simpa using hkey) (hfresh i hi)
  · obtain ⟨stored, hstored⟩ := hfound { w with mailWorkItems := w.mailWorkItems ++ [item] }
      ⟨item, by simp, rfl, rfl⟩
    exact ⟨_, stored, rfl, rfl, hstored⟩

theorem setMailWorkItem_cases {itemId nowText : String} (hdraft : d ∈ w.drafts)
    (hid : d.id = draftId) (howned : w.ownsAccount owner d.accountId = true)
    (hfresh : ∀ old ∈ w.mailWorkItems, old.id ≠ itemId) :
    (w.ownedMessage owner messageId = none ∧
      w.setMailWorkItem owner itemId messageId .needsReview none "Agent 已创建回复草稿，等待确认"
        (some draftId) nowText = .error .contentOwnershipViolation) ∨
      (w.ownedMessage owner messageId).isSome ∧ ∃ item w', w'.toDb = w.toDb ∧
        w.setMailWorkItem owner itemId messageId .needsReview none "Agent 已创建回复草稿，等待确认"
          (some draftId) nowText = .ok (item, w') := by
  have hnote : ¬ 4000 < ("Agent 已创建回复草稿，等待确认".toList.map utf16Length).sum := by
    decide +kernel
  have hany : (w.drafts.any fun d => d.id == draftId && w.ownsAccount owner d.accountId) = true :=
    List.any_eq_true.mpr ⟨d, hdraft, by simp [hid, howned]⟩
  cases hmessage : w.ownedMessage owner messageId with
  | none =>
    refine .inl ⟨rfl, ?_⟩
    simp only [WorkDb.setMailWorkItem, if_neg hnote, hmessage]
  | some message =>
    refine .inr ⟨rfl, ?_⟩
    obtain ⟨w', stored, hupsert, hdb, hstored⟩ := @upsertWorkItem_fresh w
      { id := itemId, userId := owner, messageId, accountId := message.accountId,
        status := .needsReview, note := "Agent 已创建回复草稿，等待确认", draftId := some draftId,
        createdAt := nowText, updatedAt := nowText } hfresh
    refine ⟨stored, w', hdb, ?_⟩
    simp only [WorkDb.setMailWorkItem, if_neg hnote, hmessage, Option.any_some, hany, hupsert]
    simp only at hstored
    simp [hstored]

/-- A successful call stores a draft of the original's account that addresses the right people and
continues the thread; a failed one stores nothing. -/
def ReplyKept (w w' : WorkDb) (owner messageId : String) (mode : ReplyMode)
    (result : Except EmbeddedOperationError (Draft × MailWorkItem)) : Prop :=
  (∀ d item, result = .ok (d, item) →
    ∃ original, w.ownedMessage owner messageId = some original ∧ d ∈ w'.drafts ∧
      d.accountId = original.accountId ∧
      Addressed (ownKeys w.toDb owner) original mode d.recipients d.cc ∧
      d.envelope.inReplyTo = (replyParent original).toList ∧
      Threaded original d.envelope.references) ∧
    ∀ e, result = .error e → w'.drafts = w.drafts ∧ w'.mailWorkItems = w.mailWorkItems

theorem createReplyDraft_cases {removed : Message → Bool} {itemId nowText : String}
    {input : ReplyDraftInput} {now : Time} (hdraft : ∀ d ∈ w.drafts, d.id ≠ draftId)
    (hitem : ∀ i ∈ w.mailWorkItems, i.id ≠ itemId)
    (hreply : replyDraft w.toDb owner messageId input draftId now = .ok d) :
    d ∈ (createReplyDraft w removed owner messageId input draftId itemId now nowText).2.drafts ∧
      (((w.deleteMessages removed).ownedMessage owner messageId = none ∧ ∃ e,
          (createReplyDraft w removed owner messageId input draftId itemId now nowText).1 =
            .error e) ∨
        ((w.deleteMessages removed).ownedMessage owner messageId).isSome ∧ ∃ item,
          (createReplyDraft w removed owner messageId input draftId itemId now nowText).1 =
            .ok (d, item)) := by
  obtain ⟨original, horiginal, hid, haccount, hvalid, -⟩ := replyDraft_ok hreply
  have howned : w.ownsAccount owner d.accountId = true := by
    have hsome := List.find?_some horiginal
    rw [Bool.and_eq_true] at hsome
    rw [haccount]
    exact hsome.2
  have hcreate := createDraft_fresh (fun old hold => hid ▸ hdraft old hold) hvalid howned
  -- the database that the second transaction sees
  let w₂ : WorkDb := WorkDb.deleteMessages
    { w with toDb := { w.toDb with drafts := w.drafts ++ [d] } } removed
  have hmem : d ∈ w₂.drafts := List.mem_append_right _ (List.mem_singleton_self d)
  have hitem₂ : ∀ i ∈ w₂.mailWorkItems, i.id ≠ itemId := fun i hi =>
    hitem i (mem_deleteWhere.mp hi).1
  simp only [createReplyDraft, hreply, hcreate]
  rcases @setMailWorkItem_cases owner messageId draftId d w₂ itemId nowText hmem hid howned hitem₂
    with ⟨hgone, herror⟩ | ⟨hthere, item, w', hdb, hok⟩
  · rw [show WorkDb.setMailWorkItem _ _ _ _ _ _ _ _ _ = _ from herror]
    exact ⟨hmem, .inl ⟨hgone, _, rfl⟩⟩
  · rw [show WorkDb.setMailWorkItem _ _ _ _ _ _ _ _ _ = _ from hok]
    exact ⟨by rw [hdb]; exact hmem, .inr ⟨hthere, item, rfl⟩⟩

def replyWorld : WorkDb where
  accounts := [{ id := "a", userId := "u", email := "Me@x.org", createdAt := 0 }]
  messages := [{ id := "m", accountId := "a", mailbox := "INBOX", mailboxRole := "inbox", uid := 1
                 messageId := some "<p@x.org>", sender := ⟨"A", "a@b.org"⟩
                 recipients := [⟨"", "me@x.org"⟩, ⟨"B", "b@b.org"⟩]
                 headers := { cc := [⟨"A", "A@b.org"⟩, ⟨"C", "c@b.org"⟩]
                              references := ["<r@x.org>", "no id", "<q@x.org>"] } }]

end IMail
