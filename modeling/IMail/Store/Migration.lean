import IMail.Mail.Fetch
import IMail.Sync.Operations

/-!
# Opening a database

`migrate_database` of `imail-storage-sqlite/src/migration.rs`, which every start of the service
runs. It creates the tables that are missing, applies the scripts of the versions the database
has not seen, decodes the display names of cached folders and checks the result. The display names
that a sync has stored are decoded already. The pass over them at the next start decodes them
again, so a name such as `A&-B`, which the server lists as `A&--B`, turns into `A&B`.
-/

namespace IMail

open Text Transition

variable {decoded cs : List Char}

theorem decodeSection_length {encoded : List Char} (h : decodeSection encoded = some decoded) :
    decoded.length ≤ encoded.length + 1 := by
  unfold decodeSection at h
  split at h
  · cases h
    simp
  · obtain ⟨bytes, hbytes, h⟩ := Option.bind_eq_some_iff.mp h
    obtain ⟨units, hunits, hchars⟩ := Option.bind_eq_some_iff.mp h
    have hb := base64DecodeNoPad_length hbytes
    have hu := utf16Units_length hunits
    have hc := utf16Decode_length hchars
    rw [List.length_map] at hb
    omega

/-- The characters of an open section, its `&` included, that have been read already. -/
def openLength : Option (List Char) → ℕ
  | none => 0
  | some encoding => encoding.length + 1

theorem decodeModifiedUtf7List_length {encoding : Option (List Char)}
    (h : decodeModifiedUtf7List encoding cs = some decoded) :
    decoded.length ≤ openLength encoding + cs.length ∧
      ((encoding.isSome ∨ '&' ∈ cs) → decoded.length < openLength encoding + cs.length) := by
  induction encoding, cs using decodeModifiedUtf7List.induct generalizing decoded with
  | case1 =>
    cases h
    simp [openLength]
  | case2 => cases h
  | case3 cs ih =>
    rw [decodeModifiedUtf7List, if_pos rfl] at h
    have hshorter := (ih h).2 (Or.inl rfl)
    simp only [openLength, List.length_nil, List.length_cons] at hshorter ⊢
    omega
  | case4 c cs hc ih =>
    rw [decodeModifiedUtf7List, if_neg hc] at h
    obtain ⟨rest, hrest, rfl⟩ := Option.map_eq_some_iff.mp h
    obtain ⟨hle, hlt⟩ := ih hrest
    simp only [openLength, List.length_cons, Option.isSome_none, Bool.false_eq_true, false_or,
      List.mem_cons] at hle hlt ⊢
    refine ⟨by omega, fun hmem => ?_⟩
    have := hlt (hmem.resolve_left fun heq => hc heq.symm)
    omega
  | case5 encoding cs ih =>
    rw [decodeModifiedUtf7List, if_pos rfl] at h
    obtain ⟨front, hfront, h⟩ := Option.bind_eq_some_iff.mp h
    obtain ⟨rest, hrest, rfl⟩ := Option.map_eq_some_iff.mp h
    have hsection := decodeSection_length hfront
    have hle := (ih hrest).1
    simp only [openLength, List.length_append, List.length_cons] at hle ⊢
    omega
  | case6 encoding c cs hc ih =>
    rw [decodeModifiedUtf7List, if_neg hc] at h
    have hshorter := (ih h).2 (Or.inl rfl)
    simp only [openLength, List.length_append, List.length_cons, List.length_nil] at hshorter ⊢
    omega

def SettledName (name : String) : Prop := decodeModifiedUtf7 name = none ∨ '&' ∉ name.toList

instance (name : String) : Decidable (SettledName name) :=
  inferInstanceAs (Decidable (_ ∨ _))

theorem decodeModifiedUtf7List_of_free (h : '&' ∉ cs) :
    decodeModifiedUtf7List none cs = some cs := by
  induction cs with
  | nil => rfl
  | cons c cs ih =>
    obtain ⟨hc, hcs⟩ := not_or.mp (mt List.mem_cons.mpr h)
    rw [decodeModifiedUtf7List, if_neg fun heq => hc heq.symm, ih hcs]
    rfl

def repairedName (name : String) : String := (decodeModifiedUtf7 name).getD name

theorem repairedName_eq_iff (name : String) : repairedName name = name ↔ SettledName name := by
  unfold repairedName SettledName
  cases hdecoded : decodeModifiedUtf7 name with
  | none => simp
  | some decoded =>
    simp only [Option.getD_some, reduceCtorEq, false_or]
    unfold decodeModifiedUtf7 at hdecoded
    obtain ⟨cs, hcs, rfl⟩ := Option.map_eq_some_iff.mp hdecoded
    constructor
    · intro hsame hmem
      have hshorter := (decodeModifiedUtf7List_length hcs).2 (Or.inr hmem)
      have hlength := congrArg (fun s => s.toList.length) hsame
      simp only [String.toList_ofList, openLength] at hlength hshorter
      omega
    · intro hfree
      rw [decodeModifiedUtf7List_of_free hfree] at hcs
      cases hcs
      exact String.ofList_toList

def currentSchemaVersion : ℕ := 17

inductive MigrationError
  | missingDatabase
  | invalidSchema
  | futureSchema (actual supported : ℕ)
  | integrity (detail : String)
  | sqlite (detail : String)
  | json (detail : String)
  deriving DecidableEq, Repr

structure MigrationReport where
  fromVersion : ℕ
  toVersion : ℕ
  appliedVersions : List ℕ
  quickCheck : Bool
  foreignKeysVerified : Bool
  deriving DecidableEq, Repr

/-- The file: the rows, the tables that exist, and the row `schema_version` of `metadata`. -/
structure StoredDb extends Db where
  tables : List String := []
  schemaVersion : Option String := none
  deriving DecidableEq

/-- The tables of `schema-v10.sql`. -/
def schemaTables : List String :=
  ["metadata", "accounts", "messages", "contacts", "logo_fetch_attempts", "drafts",
    "developer_tokens", "developer_token_scopes", "developer_token_accounts", "sync_policies",
    "mailbox_sync_states", "sync_jobs", "sync_events", "sync_worker_heartbeats",
    "apple_hme_sessions", "apple_hme_addresses", "apple_hme_sync_state",
    "translation_provider_profiles", "message_translation_cache"]

def scriptTables : ℕ → List String
  | 11 => ["message_sources"]
  | 13 => ["smart_folders", "message_body_fts"]
  | 14 => ["mail_rules", "mail_rule_runs", "mail_rule_message_state", "mail_rule_previews"]
  | 15 => ["outbox_items"]
  | 17 => ["mail_work_items"]
  | _ => []

/-- `CREATE TABLE IF NOT EXISTS` for each of the names -/
def createTables (names tables : List String) : List String :=
  names.foldl (fun tables name => if name ∈ tables then tables else tables ++ [name]) tables

/-- What the migration takes from elsewhere: the reading of the version as an `f64` that is
finite, whole and in the range of a `u32`, and what the scripts of older versions do to rows. -/
class MigrationLibrary where
  wholeNumber : String → Option ℕ
  wholeNumber_toString : ∀ n, n < 2 ^ 32 → wholeNumber (toString n) = some n
  scriptRows : ℕ → Db → Except MigrationError Db

/-- The answers to `PRAGMA quick_check` and `PRAGMA foreign_key_check`. -/
structure IntegrityChecks where
  quick : List String := ["ok"]
  foreignKeyErrors : ℕ := 0

section

variable [MigrationLibrary]

def readSchemaVersion (db : StoredDb) : Except MigrationError ℕ :=
  match db.schemaVersion with
  | none => .ok 0
  | some raw =>
    match MigrationLibrary.wholeNumber (trim raw) with
    | none => .error .invalidSchema
    | some version => .ok version

def applyScripts : List ℕ → StoredDb → Except MigrationError StoredDb
  | [], db => .ok db
  | version :: versions, db =>
    match MigrationLibrary.scriptRows version db.toDb with
    | .error e => .error e
    | .ok rows =>
      applyScripts versions
        { db with toDb := rows, tables := createTables (scriptTables version) db.tables }

def pendingVersions (fromVersion : ℕ) : List ℕ :=
  (List.range' 1 currentSchemaVersion).filter fun version => fromVersion < version

def repairFolder (folder : SyncMailboxFolder) : SyncMailboxFolder :=
  { folder with name := repairedName folder.name }

/-- Each row of `accounts` is rewritten under its own id, if one of its names changes. -/
def repairMailboxDisplayNames (db : Db) : Db :=
  { db with accounts := db.accounts.map fun a => { a with mailboxes := a.mailboxes.map repairFolder } }

def integrityError (checks : IntegrityChecks) : Option MigrationError :=
  if checks.quick ≠ ["ok"] then some (.integrity ("; ".intercalate checks.quick))
  else if checks.foreignKeyErrors ≠ 0 then
    some (.integrity ("foreign_key_check 发现 " ++ toString checks.foreignKeyErrors ++ " 项异常"))
  else none

def migrateLocked (checks : IntegrityChecks) (db : StoredDb) :
    Except MigrationError (MigrationReport × StoredDb) :=
  let db := { db with tables := createTables schemaTables db.tables }
  match readSchemaVersion db with
  | .error e => .error e
  | .ok fromVersion =>
    if currentSchemaVersion < fromVersion then
      .error (.futureSchema fromVersion currentSchemaVersion)
    else
      match applyScripts (pendingVersions fromVersion) db with
      | .error e => .error e
      | .ok db =>
        let db := { db with toDb := repairMailboxDisplayNames db.toDb }
        let db :=
          if fromVersion < currentSchemaVersion then
            { db with schemaVersion := some (toString currentSchemaVersion) }
          else db
        match integrityError checks with
        | some e => .error e
        | none =>
          .ok (⟨fromVersion, currentSchemaVersion, pendingVersions fromVersion, true, true⟩, db)

def migrateDatabase (checks : IntegrityChecks) (file : Option StoredDb) :
    Except MigrationError (MigrationReport × StoredDb) :=
  match file with
  | none => .error .missingDatabase
  | some db => migrateLocked checks db

def StoredDb.reopen (db : StoredDb) (checks : IntegrityChecks) : StoredDb :=
  match migrateDatabase checks (some db) with
  | .ok (_, db') => db'
  | .error _ => db

/-- A successful migration leaves such a file, and no later call but a migration changes more
than its rows. -/
structure StoredDb.UpToDate (db : StoredDb) : Prop where
  tables : ∀ name ∈ schemaTables, name ∈ db.tables
  version : readSchemaVersion db = .ok currentSchemaVersion

variable {tables : List String} {db db' : StoredDb}

omit [MigrationLibrary] in
theorem mem_createTables (names : List String) (name : String) :
    name ∈ createTables names tables ↔ name ∈ names ∨ name ∈ tables := by
  induction names generalizing tables with
  | nil => simp [createTables]
  | cons first names ih =>
    have hrest : createTables (first :: names) tables =
        createTables names (if first ∈ tables then tables else tables ++ [first]) := rfl
    rw [hrest, ih]
    split_ifs with hfirst
    · constructor
      · rintro (hname | hname)
        · exact Or.inl (List.mem_cons_of_mem _ hname)
        · exact Or.inr hname
      · rintro (hname | hname)
        · rcases List.mem_cons.mp hname with rfl | hname
          · exact Or.inr hfirst
          · exact Or.inl hname
        · exact Or.inr hname
    · rw [List.mem_append, List.mem_singleton, List.mem_cons]
      tauto

omit [MigrationLibrary] in
theorem createTables_of_mem {names : List String} (h : ∀ name ∈ names, name ∈ tables) :
    createTables names tables = tables := by
  induction names with
  | nil => rfl
  | cons first names ih =>
    have hrest : createTables (first :: names) tables =
        createTables names (if first ∈ tables then tables else tables ++ [first]) := rfl
    rw [hrest, if_pos (h first List.mem_cons_self)]
    exact ih fun name hname => h name (List.mem_cons_of_mem _ hname)

theorem applyScripts_keeps {versions : List ℕ} (h : applyScripts versions db = .ok db') :
    (∀ name ∈ db.tables, name ∈ db'.tables) ∧ db'.schemaVersion = db.schemaVersion := by
  induction versions generalizing db with
  | nil =>
    cases h
    exact ⟨fun _ hname => hname, rfl⟩
  | cons version versions ih =>
    rw [applyScripts] at h
    split at h
    · cases h
    · obtain ⟨htables, hversion⟩ := ih h
      refine ⟨fun name hname => htables name ?_, hversion⟩
      exact (mem_createTables _ _).mpr (Or.inr hname)

theorem migrateLocked_upToDate {checks : IntegrityChecks} {report : MigrationReport}
    (h : migrateLocked checks db = .ok (report, db')) : db'.UpToDate := by
  unfold migrateLocked at h
  dsimp only at h
  have hcreated : ∀ name ∈ schemaTables, name ∈ createTables schemaTables db.tables :=
    fun name hname => (mem_createTables schemaTables name).mpr (Or.inl hname)
  generalize createTables schemaTables db.tables = tables at h hcreated
  split at h
  · cases h
  · rename_i fromVersion hversion
    by_cases hfuture : currentSchemaVersion < fromVersion
    · rw [if_pos hfuture] at h
      cases h
    rw [if_neg hfuture] at h
    split at h
    · cases h
    · rename_i scripted hscripts
      obtain ⟨htables, hkept⟩ := applyScripts_keeps hscripts
      split at h
      · cases h
      · by_cases hold : fromVersion < currentSchemaVersion
        · rw [if_pos hold] at h
          cases h
          refine ⟨fun name hname => htables name (hcreated name hname), ?_⟩
          have htrim : trim (toString currentSchemaVersion) = toString currentSchemaVersion := by
            decide +kernel
          simp only [readSchemaVersion, htrim,
            MigrationLibrary.wholeNumber_toString currentSchemaVersion (by decide)]
        · rw [if_neg hold] at h
          cases h
          refine ⟨fun name hname => htables name (hcreated name hname), ?_⟩
          have hcurrent : fromVersion = currentSchemaVersion := by omega
          unfold readSchemaVersion at hversion ⊢
          dsimp only at hkept hversion ⊢
          rw [hkept, hversion, hcurrent]

theorem StoredDb.UpToDate.reopen (h : db.UpToDate) (checks : IntegrityChecks) :
    db.reopen checks = db ∧ integrityError checks ≠ none ∨
      db.reopen checks = { db with toDb := repairMailboxDisplayNames db.toDb } ∧
        integrityError checks = none := by
  have htables : createTables schemaTables db.tables = db.tables := createTables_of_mem h.tables
  have hpending : pendingVersions currentSchemaVersion = [] := by decide
  unfold StoredDb.reopen migrateDatabase migrateLocked
  dsimp only
  rw [htables, h.version]
  dsimp only
  rw [if_neg (lt_irrefl _), hpending, applyScripts]
  dsimp only
  rw [if_neg (lt_irrefl _)]
  cases hchecks : integrityError checks with
  | none => exact Or.inr ⟨rfl, rfl⟩
  | some e => exact Or.inl ⟨rfl, by simp⟩

theorem StoredDb.UpToDate.reopen_upToDate (h : db.UpToDate) (checks : IntegrityChecks) :
    (db.reopen checks).UpToDate := by
  rcases h.reopen checks with ⟨hsame, _⟩ | ⟨hrepaired, _⟩
  · rw [hsame]
    exact h
  · rw [hrepaired]
    exact ⟨h.tables, h.version⟩

variable [Platform]

inductive ServiceOp
  | sync (op : SyncOp)
  | restart (checks : IntegrityChecks)

def ServiceOp.apply (db : StoredDb) : ServiceOp → StoredDb
  | .sync op => { db with toDb := op.apply db.toDb }
  | .restart checks => db.reopen checks

theorem upToDate_run (h : db.UpToDate) (ops : List ServiceOp) :
    (exec ServiceOp.apply db ops).UpToDate := by
  apply invariant_exec StoredDb.UpToDate _ ops h
  intro db op h
  cases op with
  | sync op => exact ⟨h.tables, h.version⟩
  | restart checks => exact h.reopen_upToDate checks

def SyncMailboxFolder.rawName (folder : SyncMailboxFolder) : String :=
  afterLast folder.delimiter folder.path

/-- Starting again changes nothing, and a folder whose name is the decoding of its path has that
name after any number of starts. -/
structure StoredDb.OpensUnchanged (db : StoredDb) : Prop where
  tables : ∀ checks, db.reopen checks = db
  names : ∀ (starts : List IntegrityChecks), ∀ a ∈ db.accounts, ∀ folder ∈ a.mailboxes,
    decodeModifiedUtf7 folder.rawName = some folder.name →
    ∃ a' ∈ (exec StoredDb.reopen db starts).accounts, a'.id = a.id ∧
      ∃ folder' ∈ a'.mailboxes, folder'.path = folder.path ∧
        decodeModifiedUtf7 folder.rawName = some folder'.name

/-- No folder is stored under a name that could be decoded once more. -/
def StoredDb.SettledNames (db : StoredDb) : Prop :=
  ∀ a ∈ db.accounts, ∀ folder ∈ a.mailboxes, SettledName folder.name

instance (db : StoredDb) : Decidable db.SettledNames :=
  inferInstanceAs (Decidable (∀ a ∈ db.accounts, ∀ folder ∈ a.mailboxes, SettledName folder.name))

omit [MigrationLibrary] [Platform] in
theorem map_eq_self_iff {α : Type} {f : α → α} {rows : List α} :
    rows.map f = rows ↔ ∀ row ∈ rows, f row = row := by
  constructor
  · intro h
    exact List.map_inj_left.mp (h.trans (List.map_id rows).symm)
  · intro h
    exact (List.map_congr_left h).trans (List.map_id rows)

omit [MigrationLibrary] [Platform] in
theorem repairFolder_eq_iff (folder : SyncMailboxFolder) :
    repairFolder folder = folder ↔ SettledName folder.name := by
  rw [← repairedName_eq_iff]
  constructor
  · intro h
    exact congrArg SyncMailboxFolder.name h
  · intro h
    unfold repairFolder
    rw [h]

omit [MigrationLibrary] [Platform] in
theorem repairMailboxDisplayNames_eq_iff (db : Db) : repairMailboxDisplayNames db = db ↔
    ∀ a ∈ db.accounts, ∀ folder ∈ a.mailboxes, SettledName folder.name := by
  have hlist : ∀ folders : List SyncMailboxFolder, folders.map repairFolder = folders ↔
      ∀ folder ∈ folders, SettledName folder.name := by
    intro folders
    rw [map_eq_self_iff]
    simp only [repairFolder_eq_iff]
  have hrow : ∀ a : Account, { a with mailboxes := a.mailboxes.map repairFolder } = a ↔
      ∀ folder ∈ a.mailboxes, SettledName folder.name := by
    intro a
    rw [← hlist]
    constructor
    · intro h
      exact congrArg Account.mailboxes h
    · intro h
      rw [h]
  constructor
  · intro h
    have haccounts := congrArg Db.accounts h
    intro a ha
    exact (hrow a).mp (map_eq_self_iff.mp haccounts a ha)
  · intro h
    unfold repairMailboxDisplayNames
    rw [map_eq_self_iff.mpr fun a ha => (hrow a).mpr (h a ha)]

/-- After a successful migration and any syncs and starts, the next starts change nothing exactly
if no folder is stored under a name that could be decoded once more. -/
theorem opensUnchanged_iff {checks : IntegrityChecks} {file : Option StoredDb}
    {report : MigrationReport} {db : StoredDb}
    (h : migrateDatabase checks file = .ok (report, db)) (ops : List ServiceOp) :
    (exec ServiceOp.apply db ops).OpensUnchanged ↔
      (exec ServiceOp.apply db ops).SettledNames := by
  have hmigrated : db.UpToDate := by
    unfold migrateDatabase at h
    split at h
    · cases h
    · exact migrateLocked_upToDate h
  have hstored := upToDate_run hmigrated ops
  generalize exec ServiceOp.apply db ops = stored at hstored
  constructor
  · intro hopens
    have hsame := hopens.tables {}
    rcases hstored.reopen {} with ⟨_, hfailed⟩ | ⟨hrepaired, _⟩
    · exact absurd rfl hfailed
    · rw [hrepaired] at hsame
      exact (repairMailboxDisplayNames_eq_iff _).mp (congrArg StoredDb.toDb hsame)
  · intro hsettled
    have hopen : ∀ checks, stored.reopen checks = stored := by
      intro checks
      rcases hstored.reopen checks with ⟨hsame, _⟩ | ⟨hrepaired, _⟩
      · exact hsame
      · rw [hrepaired, (repairMailboxDisplayNames_eq_iff _).mpr hsettled]
    refine ⟨hopen, fun starts a ha folder hfolder hname => ?_⟩
    have hstarts : exec StoredDb.reopen stored starts = stored := by
      induction starts with
      | nil => rfl
      | cons checks starts ih => rw [exec_cons, hopen, ih]
    rw [hstarts]
    exact ⟨a, ha, rfl, folder, hfolder, rfl, hname⟩

end

@[reducible] def plainMigrations : MigrationLibrary where
  wholeNumber := fun s => (parseU64 s).filter fun n => n < 2 ^ 32
  wholeNumber_toString := by
    intro n hn
    have hu64 : n < 2 ^ 64 := by omega
    rw [parseU64_toString_filter, Option.filter_some, if_pos (decide_eq_true hu64),
      Option.filter_some, if_pos (decide_eq_true hn)]
  scriptRows := fun _ db => .ok db

def exampleFolder (path name : String) : SyncMailboxFolder where
  path := path
  name := name
  delimiter := "/"
  specialUse := none
  selectable := true

def exampleStored (folders : List SyncMailboxFolder) : StoredDb where
  accounts := [{ id := "a", userId := "u", email := "a@example.org", createdAt := 0
                 mailboxes := folders }]

/-- The decoded name of a folder is settled if its `&` starts no section. -/
theorem opensUnchanged_research :
    let _ := Platform.plain
    let _ := plainMigrations
    let file := exampleStored [exampleFolder "Work/R&-D" "R&D", exampleFolder "&gX6Lrw-" "腾讯"]
    ∃ report db, migrateDatabase {} (some file) = .ok (report, db) ∧ db.OpensUnchanged := by
  intro platform library file
  have hok : (migrateDatabase {} (some file)).isOk = true := by
    subst file library
    decide +kernel
  cases hmigrated : migrateDatabase {} (some file) with
  | error e =>
    rw [hmigrated] at hok
    cases hok
  | ok result =>
    obtain ⟨report, db⟩ := result
    refine ⟨report, db, rfl, ?_⟩
    have hsettled : ∀ db' ∈ ((migrateDatabase {} (some file)).map Prod.snd).toOption,
        db'.SettledNames := by
      subst file library
      decide +kernel
    apply (opensUnchanged_iff hmigrated []).mpr
    apply hsettled
    rw [hmigrated]
    rfl

def storedNames (db : StoredDb) : List String :=
  db.accounts.flatMap fun a => a.mailboxes.map SyncMailboxFolder.name

/-- A server lists `A&--B`, which is the name `A&-B`. A sync stores it, and the next start makes
it `A&B`, which is not the decoding of the path. -/
theorem reopen_decodes_again :
    let _ := Platform.plain
    let _ := plainMigrations
    let server : MailServer := { listed := [{ path := "A&--B" }] }
    let migrated := (exampleStored []).reopen {}
    let synced := ServiceOp.apply migrated (.sync (.commitMailboxSync (fun _ _ _ => "r")
      { accountId := "a", mailbox := "INBOX", mailboxRole := "inbox", folders := server.folders } 0))
    (migrateDatabase {} (some (exampleStored []))).isOk = true ∧
      decodeModifiedUtf7 "A&--B" = some "A&-B" ∧ storedNames synced = ["A&-B"] ∧
      storedNames (synced.reopen {}) = ["A&B"] ∧ synced.reopen {} ≠ synced := by
  intro platform library server migrated synced
  subst synced migrated server platform library
  decide +kernel

end IMail
