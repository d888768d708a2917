import IMail.Messages.BodySearch
import IMail.Messages.Reads
import IMail.Store.Drafts
import IMail.Sync.WorkItems

/-!
# What one user reads of a database of many

All users share the tables and the full-text index over the bodies. Every read joins the rows with
the accounts of one user or compares a `user_id`, so its answer is a function of that user's rows.
The row ids of the index come from the whole table: they differ between two databases that have
the same rows of the user, and a search does not show it.
-/

namespace IMail

open Relational Text

/-- The database with what the lists of a user need besides the mail tables: the index over the
bodies, the smart folders and the column `message_json` of the outbox. -/
structure ContentDb extends WorkDb, IndexedDb where
  smartFolders : List SmartFolderRow
  messageJson : String → JsonObject
  accountIds : UniqueBy (fun a : Account => some a.id) accounts
  holdsBodies : toIndexedDb.HoldsBodies

structure TenantRows where
  accounts : List Account
  messages : List Message
  messageSources : List MessageSource
  drafts : List Draft
  outboxItems : List (OutboxItem × JsonObject)
  mailWorkItems : List MailWorkItem
  mailRuleRuns : List MailRuleRun
  smartFolders : List SmartFolderRow

namespace ContentDb

def rowsOf (d : ContentDb) (owner : String) : TenantRows where
  accounts := d.accounts.filter fun a => a.userId == owner
  messages := d.messages.filter fun m => d.ownsAccount owner m.accountId
  messageSources := d.messageSources.filter fun s => d.ownsMessage owner s.messageId
  drafts := d.drafts.filter fun r => d.ownsAccount owner r.accountId
  outboxItems := (d.outboxItems.filter fun i => i.userId == owner).map fun i =>
    (i, d.messageJson i.id)
  mailWorkItems := d.mailWorkItems.filter fun i => i.userId == owner
  mailRuleRuns := d.mailRuleRuns.filter fun r => r.userId == owner
  smartFolders := d.smartFolders.filter fun r => r.userId == owner

structure SameReads [Platform] [Sqlite] (owner : String) (d e : ContentDb) : Prop where
  queryMessages : ∀ query now, queryMessages d.toDb d.index owner query now =
    queryMessages e.toDb e.index owner query now
  queryGatewayMessages : ∀ query now, queryGatewayMessages d.toDb d.index owner query now =
    queryGatewayMessages e.toDb e.index owner query now
  message : ∀ id, message d.toDb owner id = message e.toDb owner id
  messageSource : ∀ id, messageSource d.toDb owner id = messageSource e.toDb owner id
  messageStats : ∀ now, messageStats d.toDb owner now = messageStats e.toDb owner now
  conversationCandidates :
    conversationCandidates d.toDb owner = conversationCandidates e.toDb owner
  listDrafts : listDrafts d.toDb owner = listDrafts e.toDb owner
  listOutbox : listOutbox d.toDb d.messageJson owner = listOutbox e.toDb e.messageJson owner
  listMailWorkItems : ∀ status, d.listMailWorkItems owner status = e.listMailWorkItems owner status
  listSmartFolders : listSmartFolders d.smartFolders owner = listSmartFolders e.smartFolders owner
  mailRuleRuns : mailRuleRuns d.toDb owner = mailRuleRuns e.toDb owner

variable {d e : ContentDb} {owner : String}

theorem ownsAccount_eq_any (db : Db) (owner id : String) : db.ownsAccount owner id =
    (db.accounts.filter fun a => a.userId == owner).any fun a => a.id == id := by
  rw [List.any_filter, Db.ownsAccount]
  congr 1
  funext a
  exact Bool.and_comm _ _

variable {id : String} {forD forE : List Clause}

theorem account_of_owned {a : Account} (ha : a ∈ (d.rowsOf owner).accounts) (hid : a.id = id) :
    d.account id = some a := by
  have hmem : a ∈ d.accounts := (List.mem_filter.mp ha).1
  cases hfound : d.account id with
  | none =>
    have hnone := List.find?_eq_none.mp hfound a hmem
    rw [beq_iff_eq] at hnone
    exact absurd hid hnone
  | some b =>
    have hb : b.id = id := by simpa using List.find?_some hfound
    rw [d.accountIds.eq_of_mem (List.mem_of_find?_eq_some hfound) hmem (congrArg some hb)
      (congrArg some hid)]

theorem account_agree (h : d.rowsOf owner = e.rowsOf owner)
    (howned : d.ownsAccount owner id = true) : d.account id = e.account id := by
  rw [ownsAccount_eq_any, List.any_eq_true] at howned
  obtain ⟨a, ha, hid⟩ := howned
  have ha' : a ∈ (e.rowsOf owner).accounts := h ▸ ha
  rw [account_of_owned ha (beq_iff_eq.mp hid), account_of_owned ha' (beq_iff_eq.mp hid)]

theorem joinedMessages_owned (c : ContentDb) {clauses : List Clause}
    (howned : ownedBy owner ∈ clauses) : joinedMessages c.toDb clauses =
      (c.rowsOf owner).messages.filterMap fun m =>
        ((c.account m.accountId).filter fun a => clauses.all fun f => f a m).map (·, m) := by
  rw [joinedMessages, rowsOf, List.filterMap_filter]
  apply List.filterMap_congr
  intro m _
  by_cases howns : c.ownsAccount owner m.accountId = true
  · rw [if_pos howns]
  · rw [if_neg howns, Option.map_eq_none_iff, Option.filter_eq_none_iff]
    intro a haccount hclauses
    apply howns
    have hid := List.find?_some haccount
    have huser := List.all_eq_true.mp hclauses _ howned
    exact List.any_eq_true.mpr ⟨a, List.mem_of_find?_eq_some haccount, by
      rw [hid, Bool.true_and]
      exact huser⟩

theorem joinedMessages_agree (h : d.rowsOf owner = e.rowsOf owner) (hd : ownedBy owner ∈ forD)
    (he : ownedBy owner ∈ forE)
    (hclauses : ∀ m ∈ d.messages, m ∈ e.messages → ∀ a,
      (forD.all fun f => f a m) = forE.all fun f => f a m) :
    joinedMessages d.toDb forD = joinedMessages e.toDb forE := by
  have hmessages : (d.rowsOf owner).messages = (e.rowsOf owner).messages := by rw [h]
  rw [joinedMessages_owned d hd, joinedMessages_owned e he, ← hmessages]
  apply List.filterMap_congr
  intro m hm
  obtain ⟨hmd, howns⟩ := List.mem_filter.mp hm
  have hme : m ∈ e.messages := (List.mem_filter.mp (hmessages ▸ hm)).1
  rw [account_agree h howns]
  simp only [hclauses m hmd hme]

theorem selectMessages_eq (db : Db) (clauses : List Clause) :
    selectMessages db clauses = (joinedMessages db clauses).map Prod.snd := by
  rw [selectMessages, joinedMessages, List.map_filterMap, ← List.filterMap_eq_filter]
  apply List.filterMap_congr
  intro m _
  cases haccount : db.account m.accountId with
  | none => simp [Option.guard, haccount]
  | some a =>
    by_cases hall : (clauses.all fun c => c a m) = true <;>
      simp [Option.guard, Option.filter, haccount, hall]

theorem selectMessages_agree (h : d.rowsOf owner = e.rowsOf owner) (hd : ownedBy owner ∈ forD)
    (he : ownedBy owner ∈ forE)
    (hclauses : ∀ m ∈ d.messages, m ∈ e.messages → ∀ a,
      (forD.all fun f => f a m) = forE.all fun f => f a m) :
    selectMessages d.toDb forD = selectMessages e.toDb forE := by
  rw [selectMessages_eq, selectMessages_eq, joinedMessages_agree h hd he hclauses]

section

variable [Sqlite]

variable {m : Message} {i j : BodyIndex}

omit [Sqlite] in
theorem all_append_congr {front back other : List Clause} {a : Account}
    (h : (back.all fun f => f a m) = other.all fun f => f a m) :
    ((front ++ back).all fun f => f a m) = (front ++ other).all fun f => f a m := by
  rw [List.all_append, List.all_append, h]

theorem all_clauses (h : ∀ phrase, i.hits phrase m = j.hits phrase m) (filters : SearchFilters)
    (now : String) (a : Account) : ((filters.clauses i now).all fun f => f a m) =
      (filters.clauses j now).all fun f => f a m := by
  apply all_append_congr
  cases filters.body with
  | none => rw [Option.toList_none, List.flatMap_nil, List.flatMap_nil]
  | some v =>
    rw [Option.toList_some, List.flatMap_singleton, List.flatMap_singleton]
    by_cases hlong : 3 ≤ (trim v).length
    · rw [if_pos hlong, if_pos hlong]
      simp only [List.cons_append, List.nil_append, List.all_cons, h]
    · rw [if_neg hlong, if_neg hlong]

theorem all_filters (h : ∀ phrase, i.hits phrase m = j.hits phrase m)
    (filters : Option SearchFilters) (now : String) (a : Account) :
    ((filters.toList.flatMap fun f => f.clauses i now).all fun f => f a m) =
      (filters.toList.flatMap fun f => f.clauses j now).all fun f => f a m := by
  cases filters with
  | none => rw [Option.toList_none, List.flatMap_nil, List.flatMap_nil]
  | some filters =>
    rw [Option.toList_some, List.flatMap_singleton, List.flatMap_singleton]
    exact all_clauses h filters now a

variable (h : d.rowsOf owner = e.rowsOf owner)
include h

theorem selectMessages_filters {base : List Clause}
    (hbase : ownedBy owner ∈ base) (filters : Option SearchFilters) (now : String)
    (more : List Clause) :
    selectMessages d.toDb ((base ++ filters.toList.flatMap fun f => f.clauses d.index now) ++ more) =
      selectMessages e.toDb
        ((base ++ filters.toList.flatMap fun f => f.clauses e.index now) ++ more) := by
  apply selectMessages_agree h
  · exact List.mem_append_left _ (List.mem_append_left _ hbase)
  · exact List.mem_append_left _ (List.mem_append_left _ hbase)
  · intro m hd he a
    have hhits : ∀ phrase, d.index.hits phrase m = e.index.hits phrase m := by
      intro phrase
      rw [d.holdsBodies.hits_eq phrase hd, e.holdsBodies.hits_eq phrase he]
    simp only [List.all_append, all_filters hhits filters now a]

theorem selectMessages_query (query : MessageQuery) (now : String) (more : List Clause) :
    selectMessages d.toDb (query.clauses d.index owner now ++ more) =
      selectMessages e.toDb (query.clauses e.index owner now ++ more) :=
  selectMessages_filters h (by simp) query.filters now more

theorem selectMessages_gateway (query : GatewayMessageQuery) (now : String) (more : List Clause) :
    selectMessages d.toDb (query.clauses d.index owner now ++ more) =
      selectMessages e.toDb (query.clauses e.index owner now ++ more) :=
  selectMessages_filters h (by simp) query.filters now more

end

section

variable (h : d.rowsOf owner = e.rowsOf owner)
include h

theorem outboxItems_agree : (d.outboxItems.filter fun i => i.userId == owner) =
      e.outboxItems.filter fun i => i.userId == owner := by
  have hpairs : (d.rowsOf owner).outboxItems = (e.rowsOf owner).outboxItems := by rw [h]
  have hitems := congrArg (List.map Prod.fst) hpairs
  simpa [rowsOf, List.map_map, Function.comp_def] using hitems

theorem messageJson_agree {i : OutboxItem} (hi : i ∈ d.outboxItems) (howner : i.userId = owner) :
    d.messageJson i.id = e.messageJson i.id := by
  have hpairs : (d.rowsOf owner).outboxItems = (e.rowsOf owner).outboxItems := by rw [h]
  simp only [rowsOf, ← outboxItems_agree h] at hpairs
  have hmem : i ∈ d.outboxItems.filter fun i => i.userId == owner :=
    List.mem_filter.mpr ⟨hi, by simpa using howner⟩
  exact (Prod.ext_iff.mp (List.map_inj_left.mp hpairs i hmem)).2

theorem holdsDraft_agree (draftId : String) :
    d.holdsDraft owner draftId = e.holdsDraft owner draftId := by
  have hany : ∀ db : Db, db.holdsDraft owner draftId =
      (db.outboxItems.filter fun i => i.userId == owner).any fun i =>
        i.draftId == some draftId && i.status.isPending := by
    intro db
    rw [List.any_filter, Db.holdsDraft]
    congr 1
    funext i
    exact Bool.and_assoc _ _ _
  rw [hany, hany, outboxItems_agree h]

theorem listDrafts_agree : listDrafts d.toDb owner = listDrafts e.toDb owner := by
  have hdrafts : (d.rowsOf owner).drafts = (e.rowsOf owner).drafts := by rw [h]
  have hfilter : ∀ c : ContentDb, listDrafts c.toDb owner =
      orderBy Draft.recency ((c.rowsOf owner).drafts.filter fun r => !c.holdsDraft owner r.id) := by
    intro c
    rw [listDrafts, rowsOf, List.filter_filter]
    simp only [Bool.and_comm]
  rw [hfilter d, hfilter e, hdrafts]
  simp only [holdsDraft_agree h]

theorem terminalHistory_agree : terminalHistory d.toDb owner = terminalHistory e.toDb owner := by
  have hfilter : ∀ db : Db, (db.outboxItems.filter fun i => i.userId == owner && !i.status.isPending) =
      (db.outboxItems.filter fun i => i.userId == owner).filter fun i => !i.status.isPending := by
    intro db
    rw [List.filter_filter]
    simp only [Bool.and_comm]
  rw [terminalHistory, terminalHistory, hfilter, hfilter, outboxItems_agree h]

theorem listedItems_agree : listedItems d.toDb owner = listedItems e.toDb owner := by
  have hfilter : ∀ db : Db, listedItems db owner = orderBy OutboxItem.listKey
      ((db.outboxItems.filter fun i => i.userId == owner).filter fun i =>
        i.status.isPending || (terminalHistory db owner).any fun t => t.id == i.id) := by
    intro db
    rw [listedItems, List.filter_filter]
    simp only [Bool.and_comm]
  rw [hfilter, hfilter, outboxItems_agree h, terminalHistory_agree h]

theorem listOutbox_agree :
    listOutbox d.toDb d.messageJson owner = listOutbox e.toDb e.messageJson owner := by
  have hsame : ∀ i ∈ listedItems d.toDb owner, decodeOutboxRow i (d.messageJson i.id) =
      decodeOutboxRow i (e.messageJson i.id) := by
    intro i hi
    obtain ⟨hmem, howner⟩ := mem_of_listedItems hi
    rw [messageJson_agree h hmem howner]
  rw [listOutbox, listOutbox, ← listedItems_agree h]
  exact mapM_congr hsame

theorem queryMessages_agree [Platform] [Sqlite] (query : MessageQuery) (now : String) :
    queryMessages d.toDb d.index owner query now = queryMessages e.toDb e.index owner query now := by
  have htotal := selectMessages_query h query now []
  rw [List.append_nil, List.append_nil] at htotal
  unfold queryMessages
  simp only [htotal, selectMessages_query h query now]

theorem queryGatewayMessages_agree [Platform] [Sqlite] (query : GatewayMessageQuery) (now : String) :
    queryGatewayMessages d.toDb d.index owner query now =
      queryGatewayMessages e.toDb e.index owner query now := by
  unfold queryGatewayMessages
  simp only [selectMessages_gateway h query now]

theorem messageSource_agree (id : String) :
    messageSource d.toDb owner id = messageSource e.toDb owner id := by
  have hsources : (d.rowsOf owner).messageSources = (e.rowsOf owner).messageSources := by rw [h]
  have hfind : ∀ c : ContentDb, messageSource c.toDb owner id =
      ((c.rowsOf owner).messageSources.find? fun s => s.messageId == id).map (·.source) := by
    intro c
    rw [messageSource, rowsOf, List.find?_filter]
    congr 2
    funext s
    rw [Bool.eq_iff_iff]
    simp [and_comm]
  rw [hfind d, hfind e, hsources]

theorem listMailWorkItems_agree (status : Option MailWorkStatus) :
    d.listMailWorkItems owner status = e.listMailWorkItems owner status := by
  have hitems : (d.rowsOf owner).mailWorkItems = (e.rowsOf owner).mailWorkItems := by rw [h]
  have hfilter : ∀ c : ContentDb, c.listMailWorkItems owner status =
      orderBy WorkDb.dueOrder ((c.rowsOf owner).mailWorkItems.filter fun i =>
        status.all fun s => i.status == s) := by
    intro c
    rw [WorkDb.listMailWorkItems, rowsOf, List.filter_filter]
    simp only [Bool.and_comm]
  rw [hfilter d, hfilter e, hitems]

end

/-- Every read of a user is a function of the user's rows, whatever the others have. -/
theorem tenant_reads [Platform] [Sqlite] (owner : String) (d e : ContentDb)
    (h : d.rowsOf owner = e.rowsOf owner) : SameReads owner d e where
  queryMessages := queryMessages_agree h
  queryGatewayMessages := queryGatewayMessages_agree h
  message := by
    intro id
    unfold message
    rw [selectMessages_agree h (by simp) (by simp) (fun _ _ _ _ => rfl)]
  messageSource := messageSource_agree h
  messageStats := by
    intro now
    unfold messageStats
    rw [joinedMessages_agree h (by simp [statsClauses]) (by simp [statsClauses])
      (fun _ _ _ _ => rfl)]
  conversationCandidates := by
    unfold conversationCandidates
    rw [selectMessages_agree h (by simp) (by simp) (fun _ _ _ _ => rfl)]
  listDrafts := listDrafts_agree h
  listOutbox := listOutbox_agree h
  listMailWorkItems := listMailWorkItems_agree h
  listSmartFolders := by
    have hfolders : (d.rowsOf owner).smartFolders = (e.rowsOf owner).smartFolders := by rw [h]
    unfold listSmartFolders
    rw [show (d.smartFolders.filter fun r => r.userId == owner) =
      e.smartFolders.filter fun r => r.userId == owner from hfolders]
  mailRuleRuns := by
    have hruns : (d.rowsOf owner).mailRuleRuns = (e.rowsOf owner).mailRuleRuns := by rw [h]
    unfold mailRuleRuns
    rw [show (d.mailRuleRuns.filter fun r => r.userId == owner) =
      e.mailRuleRuns.filter fun r => r.userId == owner from hruns]

def annMessage : Message :=
  { id := "m1", accountId := "a1", mailbox := "INBOX", mailboxRole := "inbox", uid := 1,
    text := "quarterly report", date := "2025-01-02T00:00:00.000Z" }

def benMessage : Message :=
  { id := "m2", accountId := "a2", mailbox := "INBOX", mailboxRole := "inbox", uid := 1,
    text := "quarterly report", date := "2025-01-03T00:00:00.000Z" }

def annAccount : Account :=
  { id := "a1", userId := "ann", email := "ann@example.com", createdAt := 0 }

def benAccount : Account :=
  { id := "a2", userId := "ben", email := "ben@example.com", createdAt := 0 }

def annAlone : ContentDb where
  accounts := [annAccount]
  messages := [annMessage]
  bodies := ({} : IndexedTable Message).insert Message.text annMessage
  smartFolders := []
  messageJson := fun _ => []
  accountIds := UniqueBy.of_nodup_map (by decide)
  holdsBodies := ⟨rfl, IndexedTable.synced_empty.insert _, UniqueBy.of_nodup_map (by decide)⟩

def annAndBen : ContentDb where
  accounts := [benAccount, annAccount]
  messages := [benMessage, annMessage]
  bodies :=
    (({} : IndexedTable Message).insert Message.text benMessage).insert Message.text annMessage
  smartFolders := []
  messageJson := fun _ => []
  accountIds := UniqueBy.of_nodup_map (by decide)
  holdsBodies :=
    ⟨rfl, (IndexedTable.synced_empty.insert _).insert _, UniqueBy.of_nodup_map (by decide)⟩

/-- The row ids of the two databases differ. -/
theorem tenant_reads_two_users :
    let _ := Platform.plain
    let _ := Sqlite.plain
    annAlone.index.rowid "m1" ≠ annAndBen.index.rowid "m1" ∧ SameReads "ann" annAlone annAndBen := by
  intro _ _
  refine ⟨by decide, tenant_reads "ann" annAlone annAndBen rfl⟩

end ContentDb

end IMail
