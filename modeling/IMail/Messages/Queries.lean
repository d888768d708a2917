import IMail.Messages.Filters
import IMail.Relational.Keyset
import IMail.Store.Rules
import Mathlib.Data.Prod.Lex
import Mathlib.Data.String.Basic

/-!
# Pages of messages

`query_messages` and `query_gateway_messages`: the newest first, one row more than the page to see
whether there are more, and a cursor by date and id.
-/

namespace IMail

open Text Relational

/-- `GatewayMessageCursor` -/
structure MessageCursor where
  date : String
  id : String
  deriving DecidableEq, Repr

/-- `ORDER BY m.received_at DESC, m.id DESC` -/
abbrev Newness := (String ×ₗ String)ᵒᵈ

def MessageCursor.newness (cursor : MessageCursor) : Newness :=
  OrderDual.toDual (toLex (cursor.date, cursor.id))

def Message.cursor (m : Message) : MessageCursor := ⟨m.date, m.id⟩

def Message.newness (m : Message) : Newness := m.cursor.newness

/-- `FROM messages m JOIN accounts a ON a.id=m.account_id WHERE ...` -/
def selectMessages (db : Db) (clauses : List Clause) : List Message :=
  db.messages.filter fun m => (db.account m.accountId).any fun a => clauses.all fun c => c a m

def ownedBy (userId : String) : Clause := fun a _ => a.userId == userId

/-- `(m.received_at < ? OR (m.received_at = ? AND m.id < ?))` -/
def MessageCursor.clause (cursor : MessageCursor) : Clause := fun _ m =>
  m.date < cursor.date || (m.date == cursor.date && m.id < cursor.id)

/-- `ORDER BY ... LIMIT ? OFFSET ?` -/
def pageRows (rows : List Message) (limit offset : ℕ) : List Message :=
  ((orderBy Message.newness rows).drop offset).take limit

def nonBlank (value : Option String) : Option String := (value.map trim).filter fun v => !v.isEmpty

structure MessageQuery where
  filters : Option SearchFilters := none
  accountId : Option String := none
  group : Option String := none
  text : Option String := none
  sender : Option String := none
  recipient : Option String := none
  unread : Bool := false
  flagged : Bool := false
  hasAttachments : Bool := false
  mailboxRole : Option String := none
  mailbox : Option String := none
  mailboxName : Option String := none
  snoozed : Bool := false
  label : Option String := none
  limit : ℕ
  offset : ℕ := 0
  cursor : Option MessageCursor := none
  deriving DecidableEq, Repr

structure MessagePage where
  messages : List Message
  total : ℕ
  hasMore : Bool
  deriving DecidableEq, Repr

section

variable [Platform] [Sqlite]

/-- The clauses of `query_messages` but for the cursor. -/
def MessageQuery.clauses (query : MessageQuery) (index : BodyIndex) (userId now : String) :
    List Clause :=
  [ownedBy userId] ++
  pushExact (fun _ m => m.accountId) query.accountId ++
  pushExact (fun a _ => a.group) query.group ++
  (if query.unread then [fun _ m => m.unread] else []) ++
  (if query.flagged then [fun _ m => m.flagged] else []) ++
  (if query.hasAttachments then [fun _ m => m.hasAttachments] else []) ++
  pushExact (fun _ m => m.mailboxRole) query.mailboxRole ++
  pushExact (fun _ m => m.mailbox) query.mailbox ++
  query.mailboxName.toList.map namesMailbox ++
  (if query.snoozed then [snoozedAt now]
    else if query.mailboxRole = some "inbox" then [notSnoozedAt now] else []) ++
  query.label.toList.map hasLabel ++
  ((nonBlank query.text).toList.map fun text _ m =>
    [m.subject, m.preview, Sqlite.senderJson m.sender, Sqlite.addressesJson m.recipients].any
      (likeAround text)) ++
  (nonBlank query.sender).toList.map sentBy ++
  (nonBlank query.recipient).toList.map sentTo ++
  query.filters.toList.flatMap fun filters => filters.clauses index now

def queryMessages (db : Db) (index : BodyIndex) (userId : String) (query : MessageQuery)
    (now : String) : Except AuthStoreError MessagePage :=
  if query.filters.any fun filters => filters.validate.isOk = false then
    .error .invalidContentData
  else
    let clauses := query.clauses index userId now
    -- the total is of the whole query, not of the rows after the cursor
    let total := (selectMessages db clauses).length
    let rows := pageRows
      (selectMessages db (clauses ++ query.cursor.toList.map MessageCursor.clause))
      (query.limit + 1) query.offset
    .ok
      { messages := rows.take query.limit
        total
        hasMore := query.limit < rows.length }

structure GatewayMessageQuery where
  filters : Option SearchFilters := none
  accountIds : List String
  recipient : Option String := none
  mailboxRole : Option String := none
  unread : Option Bool := none
  since : Option String := none
  before : Option String := none
  text : Option String := none
  cursor : Option MessageCursor := none
  limit : ℕ
  deriving DecidableEq, Repr

structure GatewayMessagePage where
  messages : List Message
  hasMore : Bool
  deriving DecidableEq, Repr

/-- The clauses of `query_gateway_messages` but for the cursor. -/
def GatewayMessageQuery.clauses (query : GatewayMessageQuery) (index : BodyIndex)
    (userId now : String) : List Clause :=
  [ownedBy userId, fun _ m => query.accountIds.contains m.accountId] ++
  (nonBlank query.recipient).toList.map sentTo ++
  pushExact (fun _ m => m.mailboxRole) query.mailboxRole ++
  (query.unread.toList.map fun v _ m => m.unread == v) ++
  (query.since.toList.map fun since _ (m : Message) => decide (since ≤ m.date)) ++
  (query.before.toList.map fun before _ (m : Message) => decide (m.date < before)) ++
  ((nonBlank query.text).toList.map fun text _ m =>
    [m.subject, m.preview, Sqlite.senderJson m.sender].any (likeAround text)) ++
  query.filters.toList.flatMap fun filters => filters.clauses index now

def queryGatewayMessages (db : Db) (index : BodyIndex) (userId : String)
    (query : GatewayMessageQuery) (now : String) : Except AuthStoreError GatewayMessagePage :=
  if query.accountIds.isEmpty then .ok ⟨[], false⟩
  else if query.filters.any fun filters => filters.validate.isOk = false then
    .error .invalidContentData
  else
    let rows := pageRows
      (selectMessages db
        (query.clauses index userId now ++ query.cursor.toList.map MessageCursor.clause))
      (query.limit + 1) 0
    .ok ⟨rows.take query.limit, query.limit < rows.length⟩

end

theorem cursor_clause_iff (cursor : MessageCursor) (a : Account) (m : Message) :
    cursor.clause a m = true ↔ cursor.newness < m.newness := by
  simp [MessageCursor.clause, MessageCursor.newness, Message.newness, Message.cursor,
    Prod.Lex.toLex_lt_toLex]

variable {rows : List Message} {db : Db} {clauses : List Clause} {m : Message}

theorem nodup_newness (h : UniqueBy (fun m => some m.id) rows) :
    (rows.map Message.newness).Nodup := by
  have hids : ((rows.map Message.newness).map fun k => (ofLex (OrderDual.ofDual k)).2).Nodup := by
    rw [List.map_map]
    exact h.nodup_map
  exact List.Nodup.of_map _ hids

section

variable (h : UniqueBy (fun m => some m.id) db.messages)
include h

theorem uniqueBy_selectMessages (clauses : List Clause) :
    UniqueBy (fun m => some m.id) (selectMessages db clauses) :=
  List.Pairwise.filter _ h

/-- The whole result of a query, newest first. -/
def wholeResult (db : Db) (clauses : List Clause) : List Message :=
  orderBy Message.newness (selectMessages db clauses)

theorem ascending_wholeResult (clauses : List Clause) :
    Ascending Message.newness (wholeResult db clauses) :=
  ascending_orderBy (nodup_newness (uniqueBy_selectMessages h clauses))

def behind (cursor : Option MessageCursor) (rows : List Message) : List Message :=
  match cursor with
  | none => rows
  | some c => rowsAfter Message.newness c.newness rows

theorem wholeResult_cursor (clauses : List Clause) (cursor : Option MessageCursor) :
    wholeResult db (clauses ++ cursor.toList.map MessageCursor.clause) =
      behind cursor (wholeResult db clauses) := by
  cases cursor with
  | none => rw [Option.toList_none, List.map_nil, List.append_nil, behind]
  | some c =>
    have hselect : selectMessages db (clauses ++ [c.clause]) =
        rowsAfter Message.newness c.newness (selectMessages db clauses) := by
      unfold selectMessages rowsAfter
      rw [List.filter_filter]
      apply List.filter_congr
      intro m _
      cases db.account m.accountId with
      | none => simp
      | some a =>
        have hclause : c.clause a m = decide (c.newness < m.newness) := by
          rw [Bool.eq_iff_iff, cursor_clause_iff, decide_eq_true_iff]
        simp [List.all_append, hclause, Bool.and_comm]
    show orderBy _ (selectMessages db (clauses ++ [c.clause])) = _
    rw [hselect]
    exact orderBy_filter (nodup_newness (uniqueBy_selectMessages h clauses)) _

end

theorem mem_wholeResult :
    m ∈ wholeResult db clauses ↔ m ∈ db.messages ∧
      ∃ a, db.account m.accountId = some a ∧ ∀ c ∈ clauses, c a m = true := by
  rw [wholeResult, mem_orderBy, selectMessages, List.mem_filter]
  cases db.account m.accountId with
  | none => simp
  | some a => simp

theorem mem_of_behind {cursor : Option MessageCursor} (h : m ∈ behind cursor rows) : m ∈ rows := by
  cases cursor with
  | none => exact h
  | some c => exact (mem_rowsAfter.mp h).1

theorem ownsAccount_of_wholeResult {owner : String} (howned : ownedBy owner ∈ clauses)
    (h : m ∈ wholeResult db clauses) : db.ownsAccount owner m.accountId = true := by
  obtain ⟨_, a, haccount, hclauses⟩ := mem_wholeResult.mp h
  have hid := List.find?_some haccount
  exact List.any_eq_true.mpr ⟨a, List.mem_of_find?_eq_some haccount, by
    rw [hid, Bool.true_and]
    exact hclauses _ howned⟩

theorem pageRows_take (rows : List Message) (limit : ℕ) :
    (pageRows rows (limit + 1) 0).take limit = (orderBy Message.newness rows).take limit ∧
      (limit < (pageRows rows (limit + 1) 0).length ↔
        limit < (orderBy Message.newness rows).length) := by
  unfold pageRows
  rw [List.drop_zero, List.take_take, List.length_take]
  constructor
  · congr 1
    omega
  · omega

section

variable [Platform] [Sqlite]

/-- The filters of a query are ones that `validate` accepts. -/
def ValidFilters (filters : Option SearchFilters) : Prop :=
  ∀ f ∈ filters, f.validate.isOk = true

instance (filters : Option SearchFilters) : Decidable (ValidFilters filters) :=
  inferInstanceAs (Decidable (∀ f ∈ filters, _))

omit [Sqlite] in
theorem ValidFilters.any_eq_false {filters : Option SearchFilters} (h : ValidFilters filters) :
    (filters.any fun f => decide (f.validate.isOk = false)) = false := by
  cases filters with
  | none => rfl
  | some f =>
    have hf := h f rfl
    simp [hf]

variable {db : Db}

variable (h : UniqueBy (fun m => some m.id) db.messages) (index : BodyIndex) (userId now : String)
include h

theorem queryMessages_eq {query : MessageQuery} (hvalid : ValidFilters query.filters)
    (hoffset : query.offset = 0) :
    queryMessages db index userId query now = .ok
      { messages := (behind query.cursor
          (wholeResult db (query.clauses index userId now))).take query.limit
        total := (wholeResult db (query.clauses index userId now)).length
        hasMore := query.limit < (behind query.cursor
          (wholeResult db (query.clauses index userId now))).length } := by
  have hpage := pageRows_take (selectMessages db
    (query.clauses index userId now ++ query.cursor.toList.map MessageCursor.clause)) query.limit
  rw [← wholeResult, wholeResult_cursor h] at hpage
  unfold queryMessages
  rw [hvalid.any_eq_false, if_neg (by decide), hoffset]
  have htotal : (wholeResult db (query.clauses index userId now)).length =
      (selectMessages db (query.clauses index userId now)).length := length_orderBy _
  simp only [hpage.1, hpage.2, ← htotal]

theorem queryGatewayMessages_eq {query : GatewayMessageQuery} (hvalid : ValidFilters query.filters) :
    queryGatewayMessages db index userId query now = .ok
      { messages := (behind query.cursor
          (wholeResult db (query.clauses index userId now))).take query.limit
        hasMore := query.limit < (behind query.cursor
          (wholeResult db (query.clauses index userId now))).length } := by
  have hpage := pageRows_take (selectMessages db
    (query.clauses index userId now ++ query.cursor.toList.map MessageCursor.clause)) query.limit
  rw [← wholeResult, wholeResult_cursor h] at hpage
  unfold queryGatewayMessages
  by_cases hnone : query.accountIds.isEmpty = true
  · -- without accounts the list of the clause is empty too
    have hselect : selectMessages db (query.clauses index userId now) = [] := by
      apply List.filter_eq_nil_iff.mpr
      intro m _
      cases db.account m.accountId with
      | none => simp
      | some a => simp [GatewayMessageQuery.clauses, List.isEmpty_iff.mp hnone]
    have hempty : wholeResult db (query.clauses index userId now) = [] := by
      rw [wholeResult, hselect]
      rfl
    rw [if_pos hnone, hempty]
    cases query.cursor <;> simp [behind, rowsAfter]
  · rw [if_neg hnone, hvalid.any_eq_false, if_neg (by decide)]
    simp only [hpage.1, hpage.2]

end

end IMail
