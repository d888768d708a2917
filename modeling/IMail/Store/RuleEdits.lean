import IMail.Store.Commit

/-!
# Editing and previewing rules

`save_mail_rule`, `delete_mail_rule` and `preview_mail_rule` of
`imail-storage-sqlite/src/rules.rs`. Saving stores the next revision of a rule; both edits
cancel what older revisions have not started yet and drop the previews of the rule.
-/

namespace IMail

open Relational

def ruleLimit : ℕ := 100

/-- `INSERT INTO mail_rules ... ON CONFLICT(id) DO UPDATE`: the owner and the creation time of
a row that is there are kept. -/
def Db.upsertRule (db : Db) (rule : MailRule) : List MailRule :=
  if db.mailRules.any fun r => r.id == rule.id then
    updateWhere (fun r => r.id == rule.id)
      (fun r => { r with
        revision := rule.revision
        input := rule.input
        updatedAt := rule.updatedAt }) db.mailRules
  else db.mailRules ++ [rule]

/-- The two statements after the rule itself: work that has not started is cancelled, and
previews of the rule are gone. -/
def Db.cancelRule (db : Db) (owner ruleId : String) (now : Time) : Db :=
  { db with
    mailRuleRuns := updateWhere (fun r => r.userId == owner && r.ruleId == ruleId &&
        (r.status = .pending || r.status = .failed))
      (fun r => { r with status := .cancelled, updatedAt := now }) db.mailRuleRuns
    mailRulePreviews := deleteWhere (fun p => p.userId == owner && p.ruleId == ruleId)
      db.mailRulePreviews }

/-- The row that a save stores: the next revision of `previous`, or the first one of a rule
with a new id. -/
def savedRule (previous : Option MailRule) (newId owner : String) (id : Option String)
    (input : MailRuleInput) (now : Time) : MailRule :=
  { id := id.getD newId
    userId := owner
    revision := previous.elim 1 fun r => r.revision + 1
    input
    createdAt := previous.elim now fun r => r.createdAt
    updatedAt := now }

/-- `save_mail_rule`; `newId` is the identifier that a new rule gets. -/
def saveMailRule (db : Db) (newId owner : String) (id : Option String) (input : MailRuleInput)
    (now : Time) : Except AuthStoreError (Option MailRule × Db) :=
  if !input.validate.isOk then .error .invalidContentData
  else if !input.accountIds.all fun account => db.ownsAccount owner account then
    .error .accountNotOwned
  else
    let existing := loadRules db owner
    let previous := id.bind fun id => existing.find? fun r => r.id == id
    if id.isSome && previous.isNone then .ok (none, db)
    else if previous.isNone && decide (ruleLimit ≤ existing.length) then
      .error .invalidContentData
    else
      let rule := savedRule previous newId owner id input now
      .ok (some rule, { db with mailRules := db.upsertRule rule }.cancelRule owner rule.id now)

def deleteMailRule (db : Db) (owner id : String) (now : Time) : Bool × Db :=
  (db.mailRules.any fun r => r.userId == owner && r.id == id,
    { db with
      mailRules := deleteWhere (fun r => r.userId == owner && r.id == id) db.mailRules }.cancelRule
        owner id now)

/-- The columns that a preview shows of a message. -/
structure PreviewSample where
  id : String
  accountId : String
  subject : String
  sender : MailAddressView
  date : String
  deriving DecidableEq, Repr

structure RulePreview where
  token : Option String
  total : ℕ
  eligible : ℕ
  messages : List PreviewSample
  expiresAt : Option Time
  deriving DecidableEq, Repr

def listMessages (db : Db) (owner : String) : List Message :=
  (db.messages.filter fun m => db.ownsAccount owner m.accountId).insertionSort summaryOrder

def previewMailRule [Platform] (db : Db) (newId owner : String) (input : MailRuleInput)
    (savedId : Option String) (now : Time) : Except AuthStoreError (RulePreview × Db) :=
  if !input.validate.isOk then .error .invalidContentData
  else if !input.accountIds.all fun account => db.ownsAccount owner account then
    .error .accountNotOwned
  else
    let saved := savedId.bind fun id => (loadRules db owner).find? fun r => r.id == id
    if savedId.isSome && saved.all fun r => r.input ≠ input then .error .invalidContentData
    else
      let matching := (listMessages db owner).filter input.matchesMessage
      let eligible := matching.filter fun m => !saved.any fun rule => db.hasRun owner rule m
      let preview : RulePreview :=
        { token := none
          total := matching.length
          eligible := eligible.length
          messages := (eligible.take 50).map fun m =>
            ⟨m.id, m.accountId, m.subject, m.sender, m.date⟩
          expiresAt := none }
      match saved with
      | none => .ok (preview, db)
      | some rule =>
        let expiry := now + minutes 10
        let kept := deleteWhere (fun p => p.expiresAt < now || p.userId == owner)
          db.mailRulePreviews
        if kept.any fun p => p.id == newId then .error .constraint
        else
          .ok ({ preview with token := some newId, expiresAt := some expiry }, { db with
            mailRulePreviews := kept ++
              [{ id := newId
                 userId := owner
                 ruleId := rule.id
                 revision := rule.revision
                 messages := eligible.map fun m => ⟨m.id, fingerprint m⟩
                 expiresAt := expiry }] })

variable {db db' : Db} {newId owner : String} {input : MailRuleInput} {now : Time}

theorem previewMailRule_frame [Platform] {savedId : Option String} {preview : RulePreview}
    (h : previewMailRule db newId owner input savedId now = .ok (preview, db')) :
    db' = { db with mailRulePreviews := db'.mailRulePreviews } := by
  unfold previewMailRule at h
  split_ifs at h
  dsimp only at h
  split at h
  · cases h
  split at h
  · cases h
    rfl
  · split at h <;> cases h
    rfl

theorem mem_loadRules {rule : MailRule} :
    rule ∈ loadRules db owner ↔ rule ∈ db.mailRules ∧ rule.userId = owner := by
  simp [loadRules]

theorem saveMailRule_ok {id : Option String} {rule : MailRule}
    (h : saveMailRule db newId owner id input now = .ok (some rule, db')) :
    db' = { db with mailRules := db.upsertRule rule }.cancelRule owner rule.id now ∧
      rule.userId = owner ∧
      ((id = none ∧ rule.id = newId ∧ rule.revision = 1) ∨
        ∃ previous ∈ db.mailRules, previous.userId = owner ∧ id = some previous.id ∧
          rule.id = previous.id ∧ rule.revision = previous.revision + 1) := by
  unfold saveMailRule at h
  split_ifs at h
  dsimp only at h
  split_ifs at h with hmissing hlimit
  case pos => cases h
  cases h
  refine ⟨rfl, rfl, ?_⟩
  cases id with
  | none => exact Or.inl ⟨rfl, rfl, rfl⟩
  | some id =>
    right
    cases hfind : (loadRules db owner).find? fun r => r.id == id with
    | none => simp [hfind] at hmissing
    | some previous =>
      obtain ⟨hmem, howner⟩ := mem_loadRules.mp (List.mem_of_find?_eq_some hfind)
      have hid : previous.id = id := by simpa using List.find?_some hfind
      refine ⟨previous, hmem, howner, by rw [hid], by rw [hid]; rfl, ?_⟩
      simp [savedRule, hfind]

theorem saveMailRule_none {id : Option String}
    (h : saveMailRule db newId owner id input now = .ok (none, db')) : db' = db := by
  unfold saveMailRule at h
  split_ifs at h
  dsimp only at h
  split_ifs at h
  · cases h
    rfl
  · cases h

end IMail
