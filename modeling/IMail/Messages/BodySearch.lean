import IMail.Messages.Queries
import IMail.Relational.FullText
import IMail.Store.CommitTables
import IMail.Text.Trigram
import IMail.Transition.Run

/-!
# Searching the bodies

`message_body_fts` of `migration-v13-search.sql` is an index over `text_body` of all messages, kept
by three triggers. A search for a body of at least three characters asks the index first and then
compares the text; the comparison decides, because the index finds every text without a NUL that it
accepts. What follows a NUL is not indexed.
-/

namespace IMail

open Relational Text Transition

/-- The database and the full-text index over the bodies. -/
structure IndexedDb extends Db where
  bodies : IndexedTable Message

namespace IndexedDb

def index (s : IndexedDb) : BodyIndex where
  rowid := fun id => ((s.bodies.rows.find? fun r => r.2.id == id).map Prod.fst).getD 0
  docs := s.bodies.docs

/-- What SQLite checks of a new content of `messages`: the primary key, the unique target on the
server and the reference to `accounts`. -/
def admits (s : IndexedDb) (messages : List Message) : Bool :=
  decide (messages.map (·.id)).Nodup &&
    decide (messages.map fun m => (m.accountId, m.mailbox, m.uid)).Nodup &&
    messages.all fun m => s.hasAccount m.accountId

/-- Statements that write messages; one that breaks a constraint does nothing. -/
inductive Write
  | insert (m : Message)
  | upsert (m : Message)
  | update (p : Message → Bool) (f : Message → Message)
  | delete (p : Message → Bool)
  | deleteAccounts (p : Account → Bool)

/-- The triggers run with each statement, also with a delete by `ON DELETE CASCADE`. -/
def step (s : IndexedDb) : Write → IndexedDb
  | .insert m =>
    if s.admits (s.messages ++ [m]) then
      { toDb := { s.toDb with messages := s.messages ++ [m] }
        bodies := s.bodies.insert Message.text m }
    else s
  | .upsert m =>
    match s.toDb.upsertSyncMessage m with
    | .error _ => s
    | .ok db =>
      { toDb := db
        bodies :=
          if s.messages.any fun old => old.id == m.id then
            s.bodies.update Message.text (fun old => old.id == m.id) fun old => old.overwrite m
          else s.bodies.insert Message.text m }
  | .update p f =>
    if s.admits (updateWhere p f s.messages) then
      { toDb := { s.toDb with messages := updateWhere p f s.messages }
        bodies := s.bodies.update Message.text p f }
    else s
  | .delete p =>
    { toDb := s.toDb.deleteMessages p
      bodies := s.bodies.delete Message.text p }
  | .deleteAccounts p =>
    let gone := fun m : Message => s.accounts.any fun a => p a && a.id == m.accountId
    { toDb := { s.toDb.deleteMessages gone with accounts := deleteWhere p s.accounts }
      bodies := s.bodies.delete Message.text gone }

/-- The index has the body of every message and nothing else. -/
structure HoldsBodies (s : IndexedDb) : Prop where
  messages : s.messages = s.bodies.table
  synced : s.bodies.Synced Message.text
  ids : UniqueBy (fun m => some m.id) s.messages

/-- A database after the migration, which builds the index of the messages that are there. -/
structure Migrated (s : IndexedDb) : Prop where
  messages : s.messages = s.bodies.table
  rowids : (s.bodies.rows.map Prod.fst).Nodup
  ids : UniqueBy (fun m => some m.id) s.messages
  rebuilt : s.bodies = s.bodies.rebuild Message.text

variable {s : IndexedDb}

theorem Migrated.holdsBodies (h : s.Migrated) : s.HoldsBodies where
  messages := h.messages
  synced := h.rebuilt ▸ IndexedTable.synced_rebuild h.rowids
  ids := h.ids

theorem uniqueBy_of_admits {messages : List Message} (h : s.admits messages = true) :
    UniqueBy (fun m => some m.id) messages := by
  rw [admits, Bool.and_eq_true, Bool.and_eq_true, decide_eq_true_iff] at h
  exact UniqueBy.of_nodup_map h.1.1

theorem HoldsBodies.upsert (h : s.HoldsBodies) (m : Message) :
    (s.step (.upsert m)).HoldsBodies := by
  cases hup : s.toDb.upsertSyncMessage m with
  | error e =>
    simp only [step, hup]
    exact h
  | ok db =>
    simp only [step, hup]
    have hids := (upsertSyncMessage_ids h.ids hup).1
    rcases (upsertSyncMessage_ok hup).2 with ⟨⟨old, hold, hid⟩, hrows⟩ | ⟨hmissing, hrows⟩
    · have hany : (s.messages.any fun old => old.id == m.id) = true :=
        List.any_eq_true.mpr ⟨old, hold, by simpa using hid⟩
      rw [if_pos hany]
      constructor
      · show db.messages = _
        rw [IndexedTable.table_update, ← h.messages]
        exact hrows
      · exact h.synced.update (fun old => old.id == m.id) fun old => old.overwrite m
      · exact hids
    · have hany : ¬(s.messages.any fun old => old.id == m.id) = true := by
        rw [List.any_eq_true]
        rintro ⟨old, hold, hid⟩
        exact hmissing old hold (by simpa using hid)
      rw [if_neg hany]
      constructor
      · show db.messages = _
        rw [IndexedTable.table_insert, ← h.messages]
        exact hrows
      · exact h.synced.insert m
      · exact hids

theorem HoldsBodies.delete (h : s.HoldsBodies) (p : Message → Bool) (accounts : List Account) :
    HoldsBodies
      { toDb := { s.toDb.deleteMessages p with accounts }
        bodies := s.bodies.delete Message.text p } where
  messages := by
    rw [IndexedTable.table_delete, ← h.messages]
    rfl
  synced := h.synced.delete p
  ids := h.ids.deleteWhere p

theorem HoldsBodies.step (h : s.HoldsBodies) (w : Write) : (s.step w).HoldsBodies := by
  cases w with
  | insert m =>
    unfold IndexedDb.step
    dsimp only
    split_ifs with hadmits
    · constructor
      · show s.messages ++ [m] = _
        rw [IndexedTable.table_insert, ← h.messages]
      · exact h.synced.insert m
      · exact uniqueBy_of_admits hadmits
    · exact h
  | upsert m => exact h.upsert m
  | update p f =>
    unfold IndexedDb.step
    dsimp only
    split_ifs with hadmits
    · constructor
      · show updateWhere p f s.messages = _
        rw [IndexedTable.table_update, ← h.messages]
      · exact h.synced.update p f
      · exact uniqueBy_of_admits hadmits
    · exact h
  | delete p => exact h.delete p s.accounts
  | deleteAccounts p => exact h.delete _ _

theorem holdsBodies_exec (h : s.HoldsBodies) (writes : List Write) :
    (exec IndexedDb.step s writes).HoldsBodies :=
  invariant_exec HoldsBodies (fun _ w h => h.step w) writes h

section

variable [Sqlite]

theorem HoldsBodies.hits_eq {s : IndexedDb} (h : s.HoldsBodies) (phrase : String) {m : Message}
    (hm : m ∈ s.messages) : s.index.hits phrase m = Sqlite.ftsMatch phrase m.text := by
  have htable := hm
  rw [h.messages, IndexedTable.table, List.mem_map] at htable
  obtain ⟨r, hr, hrm⟩ := htable
  cases hfound : s.bodies.rows.find? fun r => r.2.id == m.id with
  | none =>
    have hnone := List.find?_eq_none.mp hfound r hr
    simp [hrm] at hnone
  | some row =>
    have hrow : row ∈ s.bodies.rows := List.mem_of_find?_eq_some hfound
    have hid : row.2.id = m.id := by simpa using List.find?_some hfound
    have hmem : row.2 ∈ s.messages := by
      rw [h.messages]
      exact List.mem_map_of_mem hrow
    have hsame : row.2 = m := h.ids.eq_of_mem hmem hm (congrArg some hid) rfl
    have hrowid : s.index.rowid m.id = row.1 := by
      simp only [index, hfound, Option.map_some, Option.getD_some]
    have hhits := h.synced.hits_eq (Sqlite.ftsMatch phrase) hrow
    rw [hsame] at hhits
    rw [← hhits, BodyIndex.hits, hrowid]
    rfl

/-- What FTS5 documents of a quoted phrase under the trigram tokenizer: it is found where its
trigrams are, and the folding of the tokenizer covers that of ASCII letters. -/
structure TrigramSearch (fold : Char → Char) : Prop where
  ascii : ∀ c, fold (asciiLower c) = fold c
  phrase : ∀ expr phrase text, unquote (String.toList expr) = some phrase →
    Sqlite.ftsMatch expr text = phraseMatch fold phrase text.toList

theorem TrigramSearch.match_of_contains {fold : Char → Char} (hfts : TrigramSearch fold)
    {body text : String} (hlong : 3 ≤ body.length) (hnul : ∀ c ∈ body.toList, c.toNat ≠ 0)
    (htext : ∀ c ∈ text.toList, c.toNat ≠ 0) (h : containsLower text body = true) : Sqlite.ftsMatch (quotedPhrase body) text = true := by
  have hquoted : unquote (quotedPhrase body).toList = some body.toList := by
    rw [quotedPhrase, String.toList_ofList]
    exact unquote_quoted body.toList
  rw [hfts.phrase _ _ _ hquoted]
  apply phraseMatch_of_contains hfts.ascii _ hnul htext
  · simpa [containsLower, contains, toAsciiLowercase] using h
  · rwa [String.length_toList]

end

section

variable [Platform]

variable {filters : SearchFilters} {body : String} {m : Message}

theorem nul_of_validate (hbody : filters.body = some body) (hvalid : filters.validate.isOk = true) :
    ∀ c ∈ (trim body).toList, c.toNat ≠ 0 := by
  have htext : validText body 200 = true := by
    by_contra hbad
    rw [SearchFilters.validate, if_pos] at hvalid
    · cases hvalid
    · simp only [SearchFilters.boundedTexts, hbody, List.any_cons, Option.any_some,
        Bool.not_eq_true _ ▸ hbad, Bool.not_false, Bool.true_or, Bool.or_true]
  intro c hc hzero
  rw [trim, String.toList_ofList] at hc
  have hcontrol : (body.toList.any isControl) = true :=
    List.any_eq_true.mpr ⟨c, mem_of_mem_trimList hc, by simp [isControl, hzero]⟩
  simp [validText, hcontrol] at htext

variable [Sqlite]

omit [Platform] [Sqlite] in
theorem all_append_of_all {front back without : List Clause} {a : Account} {v : Bool}
    (hwithout : without = []) (h : (back.all fun c => c a m) = v) :
    ((front ++ back).all fun c => c a m) = ((front ++ without).all (fun c => c a m) && v) := by
  rw [List.all_append, hwithout, List.append_nil, h]

theorem HoldsBodies.all_clauses {s : IndexedDb} (h : s.HoldsBodies) {fold : Char → Char}
    (hfts : TrigramSearch fold) (hbody : filters.body = some body)
    (hvalid : filters.validate.isOk = true) (now : String) (a : Account) (hm : m ∈ s.messages)
    (htext : 3 ≤ (trim body).length → ∀ c ∈ m.text.toList, c.toNat ≠ 0) :
    ((filters.clauses s.index now).all fun c => c a m) =
      (({ filters with body := none }.clauses s.index now).all (fun c => c a m) &&
        containsLower m.text (trim body)) := by
  have hsearch : (((if 3 ≤ (trim body).length then
      [fun _ m => s.index.hits (quotedPhrase (trim body)) m] else []) ++
        [fun _ m => containsLower m.text (trim body)] : List Clause).all fun c => c a m) =
      containsLower m.text (trim body) := by
    by_cases hlong : 3 ≤ (trim body).length
    · rw [if_pos hlong, List.cons_append, List.nil_append, List.all_cons, List.all_cons,
        List.all_nil, Bool.and_true]
      dsimp only
      rw [h.hits_eq _ hm]
      cases hcontains : containsLower m.text (trim body) with
      | false => rw [Bool.and_false]
      | true =>
        rw [hfts.match_of_contains hlong (nul_of_validate hbody hvalid) (htext hlong) hcontains,
          Bool.and_true]
    · rw [if_neg hlong, List.nil_append, List.all_cons, List.all_nil, Bool.and_true]
  unfold SearchFilters.clauses
  apply all_append_of_all
  · rw [Option.toList_none, List.flatMap_nil]
  · rw [hbody, Option.toList_some, List.flatMap_singleton]
    exact hsearch

/-- After any writes the index has exactly the bodies, and a search for a body selects, of the
messages that the other filters select, exactly those that contain it up to ASCII case. For a body
of three characters or more this is said of the messages without a NUL. -/
theorem body_search (fold : Char → Char) (hfts : TrigramSearch fold) (start : IndexedDb)
    (hstart : start.Migrated) (writes : List Write) :
    (exec step start writes).HoldsBodies ∧
      ∀ (filters : SearchFilters) (body now : String), filters.body = some body →
        filters.validate.isOk = true → ∀ m,
        (3 ≤ (trim body).length → ∀ c ∈ m.text.toList, c.toNat ≠ 0) →
        (m ∈ selectMessages (exec step start writes).toDb
            (filters.clauses (exec step start writes).index now) ↔
          m ∈ selectMessages (exec step start writes).toDb
            ({ filters with body := none }.clauses (exec step start writes).index now) ∧
          containsLower m.text (trim body) = true) := by
  have hholds := holdsBodies_exec hstart.holdsBodies writes
  refine ⟨hholds, ?_⟩
  intro filters body now hbody hvalid m htext
  simp only [selectMessages, List.mem_filter, and_assoc]
  refine and_congr_right fun hm => ?_
  cases (exec step start writes).account m.accountId with
  | none => simp
  | some a => simp [hholds.all_clauses hfts hbody hvalid now a hm htext]

end

theorem asciiLower_asciiLower (c : Char) : asciiLower (asciiLower c) = asciiLower c := by
  by_cases hc : ('A'.toNat ≤ c.toNat && c.toNat ≤ 'Z'.toNat) = true
  · rw [Bool.and_eq_true, decide_eq_true_iff, decide_eq_true_iff] at hc
    have hhigh : c.toNat ≤ 90 := hc.2
    have hvalid : (c.toNat + 32).isValidChar := .inl (by omega)
    have hlow : (asciiLower c).toNat = c.toNat + 32 := by
      rw [asciiLower, if_pos (by simpa using hc), Char.ofNat, dif_pos hvalid]
      rfl
    have hlower : 65 ≤ c.toNat := hc.1
    have hout : ¬('A'.toNat ≤ (asciiLower c).toNat && (asciiLower c).toNat ≤ 'Z'.toNat) = true := by
      rw [hlow]
      simp only [Bool.and_eq_true, decide_eq_true_iff, not_and, not_le]
      intro _
      show 90 < c.toNat + 32
      omega
    conv_lhs => rw [asciiLower, if_neg hout]
  · have hsame : asciiLower c = c := by rw [asciiLower, if_neg hc]
    rw [hsame, hsame]

@[reducible] def trigramSqlite : Sqlite :=
  { Sqlite.plain with
    ftsMatch := fun expr text => (unquote expr.toList).any fun phrase =>
      phraseMatch asciiLower phrase text.toList }

theorem trigramSearch_trigramSqlite : @TrigramSearch trigramSqlite asciiLower :=
  let _ := trigramSqlite
  { ascii := asciiLower_asciiLower
    phrase := by
      intro expr phrase text h
      show ((unquote expr.toList).any fun phrase => phraseMatch asciiLower phrase text.toList) = _
      rw [h, Option.any_some] }

def searchedAccount : Account :=
  { id := "a1", userId := "ann", email := "ann@example.com", createdAt := 0 }

def searchedMessage (text : String) : Message :=
  { id := "m1", accountId := "a1", mailbox := "INBOX", mailboxRole := "inbox", uid := 1, text }

def searchedStart : IndexedDb where
  accounts := [searchedAccount]
  bodies := {}

def searchedWrites : List Write :=
  [.insert (searchedMessage "draft"), .upsert (searchedMessage "the \"Annual\" REPORT")]

theorem searchedStart_migrated : searchedStart.Migrated :=
  ⟨rfl, List.nodup_nil, UniqueBy.nil _, rfl⟩

/-- A body with quotes in it is found in other letter case. -/
theorem body_search_quoted :
    let _ := Platform.plain
    let _ := trigramSqlite
    searchedMessage "the \"Annual\" REPORT" ∈
      selectMessages (exec step searchedStart searchedWrites).toDb
        (({ body := some " \"annual\" r " } : SearchFilters).clauses
          (exec step searchedStart searchedWrites).index "") := by
  intro platform sqlite
  have hfree : ("the \"Annual\" REPORT".toList.all (·.toNat != 0)) = true := by decide
  refine ((body_search asciiLower trigramSearch_trigramSqlite searchedStart searchedStart_migrated
    searchedWrites).2 { body := some " \"annual\" r " } _ "" rfl
    (by subst platform; decide +kernel) _
    (fun _ c hc => by simpa using List.all_eq_true.mp hfree c hc)).mpr ⟨?_, by decide +kernel⟩
  subst platform sqlite
  decide +kernel

/-- What follows a NUL is found by a search for two characters and not by one for more. -/
theorem body_after_nul_missed :
    let _ := Platform.plain
    let _ := trigramSqlite
    let text := String.ofList ("abc".toList ++ Char.ofNat 0 :: "searchable".toList)
    let s := exec step searchedStart [.insert (searchedMessage text)]
    let select (body : String) :=
      selectMessages s.toDb (({ body := some body } : SearchFilters).clauses s.index "")
    s.HoldsBodies ∧ ({ body := some "searchable" } : SearchFilters).validate.isOk = true ∧
      containsLower text "searchable" = true ∧ select "searchable" = [] ∧
      select "se" = [searchedMessage text] := by
  intro platform sqlite text s select
  refine ⟨holdsBodies_exec searchedStart_migrated.holdsBodies _, ?_⟩
  subst platform sqlite
  decide +kernel

end IndexedDb

end IMail
