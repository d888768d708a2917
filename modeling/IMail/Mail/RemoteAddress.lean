import IMail.Sync.MailboxFrame

/-!
# The messages that commands reach

Cached rows and the servers under syncs, moves and flag changes. A row keeps the UID under which
its message was fetched; the server gives a moved message another one in the target mailbox.
The history remembers of which message each row was made, and which message each command found
under the address it was sent to.
-/

namespace IMail

open Relational Transition Imap

/-- Where the connections of an account go, if its settings are complete. -/
def Account.endpoint (account : Account) : Option Endpoint := do
  let settings ← account.settings
  let host ← settings.imapHost.filter (· ≠ "")
  let port ← settings.imapPort.filter fun port => port < 65536 && 0 < port
  return ⟨host, port, account.email⟩

def Db.endpointOf (db : Db) (accountId : String) : Option Endpoint :=
  (db.account accountId).bind Account.endpoint

theorem requiredString_ok {value : Option String} {text : String}
    (h : requiredString value = .ok text) : value.filter (· ≠ "") = some text := by
  unfold requiredString at h
  split at h
  · rename_i found hfound
    cases h
    exact hfound
  · cases h

theorem requiredPort_ok {value : Option ℕ} {port : ℕ} (h : requiredPort value = .ok port) :
    (value.filter fun port => port < 65536 && 0 < port) = some port := by
  unfold requiredPort at h
  split at h
  · rename_i found hfound
    cases h
    exact hfound
  · cases h

variable {config : MailConnectionConfig} {db db' : Db} {accountId : String}

theorem connectionConfig_endpoint {decrypt : String → Option AccountSecret} {account : Account}
    (h : connectionConfig decrypt account = .ok config) :
    account.endpoint = some config.endpoint := by
  unfold connectionConfig at h
  split at h
  · cases h
  split at h
  · cases h
  rename_i settings hsettings
  dsimp only at h
  split at h
  all_goals
    obtain ⟨_, _, h⟩ := bind_eq_ok.mp h
    obtain ⟨_, _, h⟩ := bind_eq_ok.mp h
    obtain ⟨host, hhost, h⟩ := bind_eq_ok.mp h
    obtain ⟨port, hport, h⟩ := bind_eq_ok.mp h
    obtain ⟨_, _, h⟩ := bind_eq_ok.mp h
    obtain ⟨_, _, h⟩ := bind_eq_ok.mp h
    obtain ⟨_, _, h⟩ := bind_eq_ok.mp h
    obtain ⟨_, _, h⟩ := bind_eq_ok.mp h
    cases h
    simp only [Account.endpoint, hsettings, requiredString_ok hhost, requiredPort_ok hport,
      Option.bind_eq_bind, Option.bind_some, Option.pure_def, MailConnectionConfig.endpoint]

theorem accountConfig_endpoint (hids : UniqueBy (fun a => some a.id) db.accounts)
    {env : SendEnvironment} {owner : String}
    (h : accountConfig db env owner accountId = .ok config) :
    db.endpointOf accountId = some config.endpoint := by
  unfold accountConfig at h
  split at h
  · cases h
  split at h
  · cases h
  rename_i account hfind
  have hmem : account ∈ db.accounts := List.mem_of_find?_eq_some hfind
  have hsel := List.find?_some hfind
  simp only [Bool.and_eq_true, beq_iff_eq] at hsel
  have hfirst : db.account accountId = some account := by
    cases hother : db.account accountId with
    | none =>
      have hnone := List.find?_eq_none.mp hother account hmem
      simp [hsel.1] at hnone
    | some other =>
      have hid : other.id = accountId := by simpa using List.find?_some hother
      have hsame : other = account := hids.eq_of_mem (List.mem_of_find?_eq_some hother) hmem rfl
        (congrArg some (hsel.1.trans hid.symm))
      rw [hsame]
  rw [Db.endpointOf, hfirst]
  exact connectionConfig_endpoint h

/-- The accounts still have their servers. -/
structure SameEndpoints (db db' : Db) : Prop where
  ids : UniqueBy (fun a => some a.id) db.accounts → UniqueBy (fun a => some a.id) db'.accounts
  endpoints : ∀ accountId, db'.endpointOf accountId = db.endpointOf accountId

theorem SameEndpoints.trans {a b c : Db} (hab : SameEndpoints a b) (hbc : SameEndpoints b c) :
    SameEndpoints a c :=
  ⟨fun h => hbc.ids (hab.ids h), fun id => (hbc.endpoints id).trans (hab.endpoints id)⟩

theorem sameEndpoints_upsert {n : Message} (h : db.upsertSyncMessage n = .ok db') :
    SameEndpoints db db' := by
  obtain ⟨messages, sources, rfl⟩ := messagesOnly_upsertSyncMessage h
  exact ⟨id, fun _ => rfl⟩

theorem sameEndpoints_of_accounts {f : Account → Account}
    (h : db'.accounts = updateWhere (fun a => a.id == accountId) f db.accounts)
    (hid : ∀ a, (f a).id = a.id) (hendpoint : ∀ a, (f a).endpoint = a.endpoint) :
    SameEndpoints db db' := by
  constructor
  · intro hids
    rw [h]
    exact hids.updateWhere fun _ _ _ _ hk => by rwa [hid] at hk
  · intro other
    simp only [Db.endpointOf, Db.account, h]
    rw [find?_updateWhere_key (f := f) (fun a : Account => a.id) accountId
      fun a ha => (hid a).trans ha]
    rw [Option.bind_map]
    congr 1
    funext a
    dsimp only [Function.comp]
    split_ifs
    · exact hendpoint a
    · rfl

theorem sameEndpoints_commit [Platform] {runIds : RunIds} {plan : MailboxSyncPlan}
    {completedAt : Time} {result : MailboxSyncCommitResult}
    (h : commitMailboxSync db runIds plan completedAt = .ok (result, db')) :
    SameEndpoints db db' := by
  obtain ⟨_, _, _, _, _, rfl⟩ := commitMailboxSync_frame h
  exact sameEndpoints_of_accounts rfl (fun _ => rfl) fun _ => rfl

structure MailWorld where
  db : Db
  servers : MailServers
  /-- The key of the message that the row with an id was made of. -/
  origin : String → Option ℕ := fun _ => none
  /-- What each command found under its address, and what its row was made of. -/
  commands : List (Option ℕ × Option ℕ) := []

inductive MailOp
  | server (endpoint : Endpoint) (change : MailServer.ServerChange)
  | sync (runIds : RunIds) (email accountId : String) (target : SyncTarget) (cursor : SyncCursor)
      (batch : RemoteSyncBatch) (fallbackDate : String) (completedAt : Time)
  | move (env : ImapEnvironment) (owner messageId : String)
      (destination : MessageMoveDestination) (skip : ℕ) (cut : Cut)
  | update (env : ImapEnvironment) (owner messageId : String) (patch : MessagePatch) (cut : Cut)

/-- What the server tells of a mailbox is so. -/
@[mk_iff]
structure TruthfulBatch (box : UidMailbox ServerMessage) (batch : RemoteSyncBatch) : Prop where
  uidValidity : batch.uidValidityChanged = false
  incoming : ∀ fetched ∈ batch.incoming, ∃ m ∈ box.fetch fetched.uid,
    fetched = ⟨fetched.uid, m.source, m.internalDate, !m.seen, m.flagged⟩
  removed : ∀ uid ∈ batch.removedUids, box.fetch uid = none
  flags : ∀ update ∈ batch.flagUpdates, ∃ m ∈ box.fetch update.uid,
    update = ⟨update.uid, !m.seen, m.flagged⟩

instance (box : UidMailbox ServerMessage) (batch : RemoteSyncBatch) :
    Decidable (TruthfulBatch box batch) := decidable_of_iff' _ (truthfulBatch_iff box batch)

namespace MailWorld

variable (w : MailWorld)

def boxOf (accountId mailbox : String) : Option (UidMailbox ServerMessage) :=
  (w.db.endpointOf accountId).map fun endpoint => (w.servers endpoint).box mailbox

def found (env : ImapEnvironment) (owner messageId : String) : List (Option ℕ × Option ℕ) :=
  match remoteMessage env w.db owner messageId with
  | .error _ => []
  | .ok (config, found) =>
    [((((w.servers config.endpoint).box found.mailbox).fetch found.uid).map (·.key),
      w.origin messageId)]

section

variable [Platform]

def stores (accountId : String) (batch : RemoteSyncBatch) (id : String) :
    Option RemoteFetchedSyncMessage :=
  batch.incoming.reverse.find? fun fetched =>
    digestId (identityString accountId batch.mailbox batch.mailboxRole fetched.uid) == id

def originAfter (accountId : String) (batch : RemoteSyncBatch) (id : String) : Option ℕ :=
  match stores accountId batch id with
  | some fetched =>
    ((w.boxOf accountId batch.mailbox).bind fun box => box.fetch fetched.uid).map (·.key)
  | none => w.origin id

end

end MailWorld

def MailWorld.step [Platform] [MailParser] (w : MailWorld) : MailOp → MailWorld
  | .server endpoint change =>
    { w with
      servers := Function.update w.servers endpoint ((w.servers endpoint).change change) }
  | .sync runIds email accountId target cursor batch fallbackDate completedAt =>
    match executeSync (fun _ => .ok batch) w.db runIds email accountId target cursor fallbackDate
        completedAt with
    | .ok (_, _, db) => { w with db := db, origin := w.originAfter accountId batch }
    | .error _ => w
  | .move env owner messageId destination skip cut =>
    let (_, servers, db) := moveFor env w.db w.servers owner messageId destination skip cut
    { w with
      db := db
      servers := servers
      commands := w.commands ++ w.found env owner messageId }
  | .update env owner messageId patch cut =>
    let (_, servers, db) := updateFor env w.db w.servers owner messageId patch cut
    { w with
      db := db
      servers := servers
      commands := w.commands ++
        if patch.unread.isSome || patch.flagged.isSome then w.found env owner messageId else [] }

/-- The batches of syncs are truthful. -/
def Truthful (w : MailWorld) : MailOp → Prop
  | .sync _ _ accountId _ _ batch _ _ =>
    ∀ box ∈ w.boxOf accountId batch.mailbox, TruthfulBatch box batch
  | _ => True

instance (w : MailWorld) : (op : MailOp) → Decidable (Truthful w op)
  | .sync .. => inferInstanceAs (Decidable (∀ box ∈ (_ : Option _), TruthfulBatch box _))
  | .server .. | .move .. | .update .. => isTrue trivial

/-- The UID of a message of `source` means that message or none in `target` after a move. -/
def SafeUid (source target : UidMailbox ServerMessage) (uid skip : ℕ) : Prop :=
  if (source.fetch uid).isSome then
    uid = target.uidNext + skip ∨ uid < target.uidNext + skip ∧ target.fetch uid = none
  else uid < target.uidNext ∧ target.fetch uid = none

instance (source target : UidMailbox ServerMessage) (uid skip : ℕ) :
    Decidable (SafeUid source target uid skip) :=
  inferInstanceAs (Decidable (if (source.fetch uid).isSome then _ else _))

/-- A move that reaches the server takes the row to a mailbox where its UID stands for nothing
else, now or later. -/
def HarmlessMove (w : MailWorld) : MailOp → Prop
  | .move env owner messageId destination skip none =>
    ∀ remote ∈ (remoteMessage env w.db owner messageId).toOption,
      ∀ target ∈ (moveTarget destination
          (w.servers remote.1.endpoint).listMailboxes).toOption,
        remote.2.mailbox = target.path ∨
          SafeUid ((w.servers remote.1.endpoint).box remote.2.mailbox)
            ((w.servers remote.1.endpoint).box target.path) remote.2.uid skip
  | _ => True

instance (w : MailWorld) : (op : MailOp) → Decidable (HarmlessMove w op)
  | .move _ _ _ _ _ none => inferInstanceAs (Decidable (∀ remote ∈ (_ : Option _),
      ∀ target ∈ (_ : Option _), _ ∨ SafeUid _ _ _ _))
  | .move _ _ _ _ _ (some _) | .server .. | .sync .. | .update .. => isTrue trivial

namespace MailWorld

/-- The UID of the row was given out, and its message is the one the row was made of. -/
def Placed (w : MailWorld) (r : Message) : Prop :=
  ∀ box ∈ w.boxOf r.accountId r.mailbox, ∃ uid : ℕ, r.uid = uid ∧ uid < box.uidNext ∧
    ∀ m ∈ box.fetch uid, w.origin r.id = some m.key

theorem mem_boxOf {w : MailWorld} {accountId mailbox : String} {box : UidMailbox ServerMessage} :
    box ∈ w.boxOf accountId mailbox ↔
      ∃ endpoint ∈ w.db.endpointOf accountId, (w.servers endpoint).box mailbox = box := by
  simp only [boxOf, Option.mem_def, Option.map_eq_some_iff]

/-- If the server has a message under the address of the row, the row was made of it. -/
def OwnMessage (w : MailWorld) (r : Message) : Prop :=
  ∀ box ∈ w.boxOf r.accountId r.mailbox, ∀ uid : ℕ, r.uid = uid →
    ∀ m ∈ box.fetch uid, w.origin r.id = some m.key

variable {r : Message}

theorem Placed.ownMessage {w : MailWorld} (h : w.Placed r) : w.OwnMessage r := by
  intro box hbox uid huid m hm
  obtain ⟨uid', huid', _, hkey⟩ := h box hbox
  have heq : uid' = uid := by omega
  exact hkey m (heq ▸ hm)

theorem Placed.later {w w' : MailWorld} {r' : Message} (h : w.Placed r)
    (hendpoints : ∀ accountId, w'.db.endpointOf accountId = w.db.endpointOf accountId)
    (hlater : ∀ endpoint, (w.servers endpoint).Later (w'.servers endpoint))
    (hrow : r'.accountId = r.accountId ∧ r'.mailbox = r.mailbox ∧ r'.uid = r.uid)
    (horigin : w'.origin r'.id = w.origin r.id) : w'.Placed r' := by
  intro box hbox
  obtain ⟨endpoint, hendpoint, rfl⟩ := mem_boxOf.mp hbox
  rw [hendpoints, hrow.1] at hendpoint
  rw [hrow.2.1, hrow.2.2, horigin]
  obtain ⟨uid, huid, hlt, hkey⟩ := h _ (mem_boxOf.mpr ⟨endpoint, hendpoint, rfl⟩)
  have hbox := hlater endpoint r.mailbox
  refine ⟨uid, huid, hlt.trans_le hbox.uidNext_le, ?_⟩
  intro m' hm'
  obtain ⟨m, hm, hsame⟩ := hbox.same uid m' hlt hm'
  rw [← hsame]
  exact hkey m hm

end MailWorld

/-- What holds in every state of a history whose moves are harmless. -/
structure AddressInv [Platform] (strings : Set String) (w : MailWorld) : Prop where
  keyed : KeyedRows strings w.db
  accounts : UniqueBy (fun a => some a.id) w.db.accounts
  placed : ∀ r ∈ w.db.messages, w.Placed r
  right : ∀ c ∈ w.commands, c.1 = none ∨ c.1 = c.2

section

variable [Platform] {strings : Set String} {w : MailWorld}

section

variable (h : AddressInv strings w)
include h

theorem AddressInv.found (env : ImapEnvironment)
    (owner messageId : String) : ∀ c ∈ w.found env owner messageId, c.1 = none ∨ c.1 = c.2 := by
  intro c hc
  unfold MailWorld.found at hc
  split at hc
  · cases hc
  · rename_i config found hremote
    obtain ⟨m, hread, hconfig, hmailbox, huid⟩ := remoteMessage_ok hremote
    obtain ⟨hm, hid, _⟩ := ownedMessage_some hread
    have hbox : (w.servers config.endpoint).box found.mailbox ∈ w.boxOf m.accountId m.mailbox :=
      MailWorld.mem_boxOf.mpr
        ⟨config.endpoint, accountConfig_endpoint h.accounts hconfig, by rw [hmailbox]⟩
    obtain ⟨uid, huid', _, hkey⟩ := h.placed m hm _ hbox
    have heq : found.uid = uid := by omega
    rw [List.mem_singleton.mp hc]
    cases hfetch : ((w.servers config.endpoint).box found.mailbox).fetch found.uid with
    | none => exact Or.inl rfl
    | some message =>
      right
      rw [heq] at hfetch
      rw [Option.map_some, ← hid, hkey message hfetch]

theorem AddressInv.mem_of_upsert (hinj : Set.InjOn digestId strings)
    {m n : Message} (hm : m ∈ w.db.messages) (hid : n.id = m.id) {db' : Db}
    (hup : w.db.upsertSyncMessage n = .ok db') {r : Message} (hr : r ∈ db'.messages) :
    r ∈ w.db.messages ∨
      r.id = m.id ∧ r.accountId = m.accountId ∧ r.mailbox = n.mailbox ∧ r.uid = n.uid := by
  rcases (upsertSyncMessage_ok hup).2 with ⟨_, hrows⟩ | ⟨hmissing, _⟩
  · rw [hrows] at hr
    rcases mem_updateWhere.mp hr with ⟨old, hold, hsel, rfl⟩ | ⟨hmem, _⟩
    · right
      have hold_id : old.id = m.id := (beq_iff_eq.mp hsel).trans hid
      have hkeyed := h.keyed.rows old hold
      rw [hold_id] at hkeyed
      exact ⟨hid, hkeyed.account_eq (h.keyed.rows m hm) hinj, rfl, rfl⟩
    · exact Or.inl hmem
  · exact absurd hid.symm (hmissing m hm)

theorem AddressInv.server (endpoint : Endpoint)
    (change : MailServer.ServerChange) : AddressInv strings { w with
      servers := Function.update w.servers endpoint ((w.servers endpoint).change change) } where
  keyed := h.keyed
  accounts := h.accounts
  placed r hr := (h.placed r hr).later (fun _ => rfl)
    (later_update (MailServer.later_change change)) ⟨rfl, rfl, rfl⟩ rfl
  right := h.right

theorem AddressInv.update (hinj : Set.InjOn digestId strings)
    (env : ImapEnvironment) (owner messageId : String) (patch : MessagePatch) (cut : Cut) :
    AddressInv strings { w with
      db := (updateFor env w.db w.servers owner messageId patch cut).2.2
      servers := (updateFor env w.db w.servers owner messageId patch cut).2.1
      commands := w.commands ++
        if patch.unread.isSome || patch.flagged.isSome then w.found env owner messageId
        else [] } := by
  have hlater := later_updateFor env w.db w.servers owner messageId patch cut
  have hright : ∀ c ∈ w.commands ++ (if patch.unread.isSome || patch.flagged.isSome then
      w.found env owner messageId else []), c.1 = none ∨ c.1 = c.2 := by
    intro c hc
    rcases List.mem_append.mp hc with hc | hc
    · exact h.right c hc
    · split_ifs at hc
      · exact h.found env owner messageId c hc
      · cases hc
  rcases updateFor_db env w.db w.servers owner messageId patch cut with hsame | ⟨m, hread, hup⟩
  · rw [hsame]
    exact ⟨h.keyed, h.accounts, fun r hr => (h.placed r hr).later (fun _ => rfl) hlater
      ⟨rfl, rfl, rfl⟩ rfl, hright⟩
  · obtain ⟨hm, _, _⟩ := ownedMessage_some hread
    have hsame := sameEndpoints_upsert hup
    refine ⟨h.keyed.upsert (n := patch.apply m) hm rfl rfl hup, hsame.ids h.accounts, ?_, hright⟩
    intro r hr
    rcases h.mem_of_upsert hinj (n := patch.apply m) hm rfl hup hr with
      hold | ⟨hid, haccount, hmailbox, huid⟩
    · exact (h.placed r hold).later hsame.endpoints hlater ⟨rfl, rfl, rfl⟩ rfl
    · exact (h.placed m hm).later hsame.endpoints hlater ⟨haccount, hmailbox, huid⟩
        (congrArg w.origin hid)

end

omit [Platform] in
theorem fetch_move_of_safe {server : MailServer} {mailbox target : String} {uid skip : ℕ}
    (hne : target ≠ mailbox) (hsafe : SafeUid (server.box mailbox) (server.box target) uid skip) :
    uid < ((server.move mailbox uid target skip).box target).uidNext ∧
      ∀ m ∈ ((server.move mailbox uid target skip).box target).fetch uid,
        m ∈ (server.box mailbox).fetch uid := by
  unfold SafeUid at hsafe
  cases hfetch : (server.box mailbox).fetch uid with
  | none =>
    rw [hfetch, Option.isSome_none, if_neg Bool.false_ne_true] at hsafe
    have hsame : server.move mailbox uid target skip = server := by
      rw [MailServer.move, hfetch]
    rw [hsame, hsafe.2]
    exact ⟨hsafe.1, fun _ hm => by cases hm⟩
  | some message =>
    rw [hfetch, Option.isSome_some, if_pos rfl] at hsafe
    rw [MailServer.box_move_target hne hfetch, UidMailbox.uidNext_append, UidMailbox.fetch_append]
    constructor
    · omega
    · intro m hm
      split_ifs at hm with heq
      · exact hm
      · rw [(hsafe.resolve_left heq).2] at hm
        cases hm

theorem AddressInv.move (h : AddressInv strings w) (hinj : Set.InjOn digestId strings)
    (env : ImapEnvironment) (owner messageId : String) (destination : MessageMoveDestination)
    (skip : ℕ) (cut : Cut)
    (hharmless : HarmlessMove w (.move env owner messageId destination skip cut)) :
    AddressInv strings { w with
      db := (moveFor env w.db w.servers owner messageId destination skip cut).2.2
      servers := (moveFor env w.db w.servers owner messageId destination skip cut).2.1
      commands := w.commands ++ w.found env owner messageId } := by
  have hlater := later_moveFor env w.db w.servers owner messageId destination skip cut
  have hright : ∀ c ∈ w.commands ++ w.found env owner messageId, c.1 = none ∨ c.1 = c.2 := by
    intro c hc
    rcases List.mem_append.mp hc with hc | hc
    · exact h.right c hc
    · exact h.found env owner messageId c hc
  rcases moveFor_db env w.db w.servers owner messageId destination skip cut with
    hsame | ⟨m, moved, hread, hremote, hup⟩
  · rw [hsame]
    exact ⟨h.keyed, h.accounts, fun r hr => (h.placed r hr).later (fun _ => rfl) hlater
      ⟨rfl, rfl, rfl⟩ rfl, hright⟩
  · obtain ⟨hm, _, _⟩ := ownedMessage_some hread
    have hsame := sameEndpoints_upsert hup
    refine ⟨h.keyed.upsert (n := movedRow destination moved m) hm rfl rfl hup,
      hsame.ids h.accounts, ?_, hright⟩
    intro r hr
    rcases h.mem_of_upsert hinj (n := movedRow destination moved m) hm rfl hup hr with
      hold | ⟨hid, haccount, hmailbox, huid⟩
    · exact (h.placed r hold).later hsame.endpoints hlater ⟨rfl, rfl, rfl⟩ rfl
    obtain ⟨config, found, target, hfound, htarget, rfl, rfl, hservers⟩ :=
      moveRemote_ok env w.db w.servers owner messageId hremote
    obtain ⟨m', hread', hconfig, hfmailbox, hfuid⟩ := remoteMessage_ok hfound
    have hself : m' = m := Option.some.inj (hread'.symm.trans hread)
    subst hself
    by_cases hstay : target.path = m'.mailbox
    · exact (h.placed m' hm).later hsame.endpoints hlater ⟨haccount, hmailbox.trans hstay, huid⟩
        (congrArg w.origin hid)
    · have hsafe : SafeUid ((w.servers config.endpoint).box found.mailbox)
          ((w.servers config.endpoint).box target.path) found.uid skip := by
        have hsafe := hharmless (config, found) (by rw [hfound]; rfl) target (by rw [htarget]; rfl)
        exact hsafe.resolve_left fun heq => hstay (heq.symm.trans hfmailbox)
      have hendpoint := accountConfig_endpoint h.accounts hconfig
      obtain ⟨hlt, hfetch⟩ := fetch_move_of_safe (hfmailbox ▸ hstay) hsafe
      intro box hbox
      obtain ⟨endpoint, hmem, rfl⟩ := MailWorld.mem_boxOf.mp hbox
      dsimp only at hmem
      rw [hsame.endpoints, haccount, hendpoint] at hmem
      cases hmem
      dsimp only
      rw [hservers, Function.update_self, hmailbox]
      refine ⟨found.uid, huid.trans hfuid, hlt, ?_⟩
      intro message hmessage
      obtain ⟨uid, huid', _, hkey⟩ := h.placed m' hm _
        (MailWorld.mem_boxOf.mpr ⟨config.endpoint, hendpoint, rfl⟩)
      have heq : uid = found.uid := by omega
      rw [hid]
      apply hkey message
      rw [heq, ← hfmailbox]
      exact hfetch message hmessage

end

section

variable [Platform] [MailParser] {strings : Set String} {w : MailWorld}

/-- The strings whose digests a step uses as ids. -/
def MailOp.identities : MailOp → Set String
  | .sync _ _ accountId _ _ batch _ _ => {s | ∃ fetched ∈ batch.incoming,
      s = identityString accountId batch.mailbox batch.mailboxRole fetched.uid}
  | .server .. | .move .. | .update .. => ∅

variable {accountId fallbackDate : String} {batch : RemoteSyncBatch} {plan : MailboxSyncPlan}

theorem stores_of_prepared {sources : List (String × List UInt8)} {messages incoming : List Message}
    (hcache : cacheIncoming accountId batch fallbackDate batch.incoming [] = .ok (messages, sources))
    (hforall : List.Forall₂ (Prepared plan) messages incoming) {s : Message}
    (hs : s ∈ survivors plan incoming) :
    ∃ fetched ∈ batch.incoming, MailWorld.stores accountId batch s.id = some fetched ∧
      s.mailbox = batch.mailbox ∧ s.uid = fetched.uid := by
  obtain ⟨m, hm, hprep⟩ := find?_of_forall₂ (List.rel_reverse hforall)
    (p := fun m => m.id == s.id) (q := fun m => m.id == s.id)
    (fun m m' hprep => by rw [hprep.cols.1]) (find?_of_mem_survivors hs)
  obtain ⟨fetched, hfetched, hcached⟩ := find?_of_forall₂ (List.rel_reverse (cacheIncoming_ok hcache))
    (p := fun f => digestId (identityString accountId batch.mailbox batch.mailboxRole f.uid) == s.id)
    (fun f m' hf => by rw [(cacheMessage_ok hf).1]) hm
  obtain ⟨_, _, hmailbox, _, huid, _⟩ := cacheMessage_ok hcached
  obtain ⟨_, _, _, labels, snoozed, hrow⟩ := hprep
  refine ⟨fetched, List.mem_reverse.mp (List.mem_of_find?_eq_some hfetched), hfetched, ?_, ?_⟩
  · rw [hrow]
    exact hmailbox
  · rw [hrow]
    exact huid

theorem AddressInv.sync (h : AddressInv strings w) (hinj : Set.InjOn digestId strings)
    {runIds : RunIds} {email : String} {target : SyncTarget} {cursor : SyncCursor}
    {completedAt : Time} {result : MailboxSyncCommitResult} {db' : Db}
    (hexec : executeSync (fun _ => .ok batch) w.db runIds email accountId target cursor fallbackDate
      completedAt = .ok (plan, result, db'))
    (hstrings : (MailOp.sync runIds email accountId target cursor batch fallbackDate
      completedAt).identities ⊆ strings)
    (htrue : Truthful w (.sync runIds email accountId target cursor batch fallbackDate
      completedAt)) :
    AddressInv strings { w with db := db', origin := w.originAfter accountId batch } := by
  obtain ⟨account, _, hplan, hcommit⟩ := executeSync_ok hexec
  have hsame := sameEndpoints_commit hcommit
  refine ⟨h.keyed.sync hexec hstrings, hsame.ids h.accounts, ?_, h.right⟩
  obtain ⟨_, incoming, prepared, stored, _, hforall, _, hmessages, hstore, _, hdb'⟩ :=
    commit_stages hcommit
  obtain ⟨_, remote, messages, sources, _, hfetch, _, _, hcache, hplan_eq⟩ :=
    planMailboxSync_ok hplan
  cases hfetch
  have haccount : plan.accountId = accountId := by rw [hplan_eq]; rfl
  have hincoming : plan.incoming = messages := by rw [hplan_eq]; rfl
  have hown : OwnIds plan.accountId incoming prepared.messages := by
    intro n' hn'
    obtain ⟨n, hn, hprep⟩ := exists_left_of_mem hforall hn'
    obtain ⟨hid, hnaccount, _⟩ := hprep.cols
    refine ⟨hnaccount, fun m hm hmid => ?_⟩
    rw [← hprep.1]
    exact h.keyed.account_eq hinj hexec hstrings hn (hmessages ▸ hm) (hmid.trans hid)
  intro r hr
  rw [hdb'] at hr
  obtain ⟨s, hs, rfl⟩ := List.mem_map.mp (mem_deleteWhere.mp hr).1
  rcases (mem_storeAll hown.removeStale hstore s).mp hs with hsurvivor | ⟨hold, huntouched⟩
  · -- A stored message is addressed as it was fetched.
    obtain ⟨fetched, hfetched, hstores, hmailbox, huid⟩ :=
      stores_of_prepared hcache (hincoming ▸ hforall) hsurvivor
    have hsaccount : s.accountId = accountId := by
      rw [(hown s (mem_of_mem_survivors hsurvivor)).1, haccount]
    intro box hbox
    obtain ⟨endpoint, hendpoint, rfl⟩ := MailWorld.mem_boxOf.mp hbox
    simp only [flagRow_accountId, flagRow_mailbox, flagRow_uid, flagRow_id] at hendpoint ⊢
    rw [hsame.endpoints, hsaccount] at hendpoint
    rw [hmailbox, huid]
    have hbox : (w.servers endpoint).box batch.mailbox ∈ w.boxOf accountId batch.mailbox :=
      MailWorld.mem_boxOf.mpr ⟨endpoint, hendpoint, rfl⟩
    obtain ⟨m, hm, _⟩ := (htrue _ hbox).incoming fetched hfetched
    refine ⟨fetched.uid, rfl, UidMailbox.lt_uidNext (UidMailbox.assigned_of_fetch hm), ?_⟩
    intro m' hm'
    have hboth : m' = m := Option.some.inj (hm'.symm.trans hm)
    rw [MailWorld.originAfter, hstores, hboth]
    simp only [Option.mem_def.mp hbox, Option.bind_some, Option.mem_def.mp hm, Option.map_some]
  · -- The other rows keep their addresses and their messages.
    have hrow : s ∈ w.db.messages := hmessages ▸ (mem_removeStale.mp hold).1
    have hnone : MailWorld.stores accountId batch s.id = none := by
      apply List.find?_eq_none.mpr
      intro fetched hfetched
      obtain ⟨m, hm, hcached⟩ := exists_right_of_mem (cacheIncoming_ok hcache)
        (List.mem_reverse.mp hfetched)
      obtain ⟨n', hn', hprep⟩ := exists_right_of_mem hforall (hincoming ▸ hm)
      have hne := id_ne_of_untouched huntouched hn'
      rw [hprep.cols.1, (cacheMessage_ok hcached).1] at hne
      simpa using hne
    have horigin : w.originAfter accountId batch (flagRow plan s).id = w.origin s.id := by
      simp only [flagRow_id, MailWorld.originAfter, hnone]
    exact (h.placed s hrow).later hsame.endpoints (fun _ => .refl _)
      ⟨flagRow_accountId _ _, flagRow_mailbox _ _, flagRow_uid _ _⟩ horigin

theorem AddressInv.step (h : AddressInv strings w) (hinj : Set.InjOn digestId strings)
    (op : MailOp) (hstrings : op.identities ⊆ strings) (htrue : Truthful w op)
    (hharmless : HarmlessMove w op) : AddressInv strings (w.step op) := by
  cases op with
  | server endpoint change => exact h.server endpoint change
  | sync runIds email accountId target cursor batch fallbackDate completedAt =>
    simp only [MailWorld.step]
    split
    · rename_i plan result db' hexec
      exact h.sync hinj hexec hstrings htrue
    · exact h
  | move env owner messageId destination skip cut =>
    exact h.move hinj env owner messageId destination skip cut hharmless
  | update env owner messageId patch cut => exact h.update hinj env owner messageId patch cut

/-- From an empty cache, if the batches are truthful and no move takes a row to a mailbox where its
UID is another message's or will be: commands reach the message of their row or none. Account ids
have no colon and are unique, and digests of the history's strings do not collide. -/
theorem commands_reach_own_message {w₀ : MailWorld} (hempty : w₀.db.messages = [])
    (hcommands : w₀.commands = []) (haccounts : ∀ a ∈ w₀.db.accounts, ':' ∉ a.id.toList)
    (hids : UniqueBy (fun a => some a.id) w₀.db.accounts) {ops : List MailOp}
    (hinj : Set.InjOn digestId {s | ∃ op ∈ ops, s ∈ op.identities})
    (htrue : Along MailWorld.step Truthful w₀ ops)
    (hmoves : Along MailWorld.step HarmlessMove w₀ ops) :
    (∀ r ∈ (exec MailWorld.step w₀ ops).db.messages,
      (exec MailWorld.step w₀ ops).OwnMessage r) ∧
      ∀ c ∈ (exec MailWorld.step w₀ ops).commands, c.1 = none ∨ c.1 = c.2 := by
  have hstart : AddressInv {s | ∃ op ∈ ops, s ∈ op.identities} w₀ :=
    ⟨⟨haccounts, by simp [hempty]⟩, hids, by simp [hempty], by simp [hcommands]⟩
  have hstrings : Along MailWorld.step
      (fun _ op => op.identities ⊆ {s | ∃ op ∈ ops, s ∈ op.identities}) w₀ ops :=
    along_of_forall (fun op hop _ hs => ⟨op, hop, hs⟩) w₀
  have hend := invariant_along (AddressInv {s | ∃ op ∈ ops, s ∈ op.identities})
    (fun w op h hop => h.step hinj op hop.1 hop.2.1 hop.2.2) hstart
    (hstrings.and (htrue.and hmoves))
  exact ⟨fun r hr => (hend.placed r hr).ownMessage, hend.right⟩

end

def archivingEndpoint : Endpoint := ⟨"imap.example.org", 993, "a@example.org"⟩

def archivingWorld : MailWorld where
  db := archivingDb
  servers _ := { listed := [{ path := "INBOX" }, { path := "Archive", attributes := [.archive] }] }

def delivered (mailbox : String) (key : ℕ) : MailOp :=
  .server archivingEndpoint (.deliver mailbox { key := key, source := [UInt8.ofNat key] } 0)

def fetchedFromInbox (uid key : ℕ) : MailOp :=
  .sync (fun _ _ _ => "run") "a@example.org" "a" ⟨"inbox", none⟩ {}
    (inboxBatch "1" false uid [UInt8.ofNat key]) "2026-01-01" 0

def archiveMessage (id : String) : MailOp := .move passwordEnv "u" id .archive 0 none

def flagMessage (id : String) : MailOp := .update passwordEnv "u" id { flagged := some true } none

theorem injOn_of_one [Platform] (ops : List MailOp) {s : String}
    (h : ∀ t ∈ {t | ∃ op ∈ ops, t ∈ op.identities}, t = s) :
    Set.InjOn digestId {t | ∃ op ∈ ops, t ∈ op.identities} :=
  fun _ ha _ hb _ => (h _ ha).trans (h _ hb).symm

theorem identities_fetchedFromInbox {before after : List MailOp} {uid key : ℕ}
    (hbefore : ∀ op ∈ before, op.identities = ∅) (hafter : ∀ op ∈ after, op.identities = ∅) :
    ∀ t ∈ {t | ∃ op ∈ before ++ fetchedFromInbox uid key :: after, t ∈ op.identities},
      t = identityString "a" "INBOX" "inbox" uid := by
  rintro t ⟨op, hop, ht⟩
  rcases List.mem_append.mp hop with hop | hop
  · rw [hbefore op hop] at ht
    exact ht.elim
  rcases List.mem_cons.mp hop with rfl | hop
  · obtain ⟨fetched, hfetched, rfl⟩ := ht
    rw [List.mem_singleton.mp hfetched]
    rfl
  · rw [hafter op hop] at ht
    exact ht.elim

def harmlessHistory : List MailOp :=
  [delivered "INBOX" 1, delivered "Archive" 2, .server archivingEndpoint (.expunge "Archive" 1)] ++
    fetchedFromInbox 1 1 :: [flagMessage "a:1", archiveMessage "a:1", flagMessage "a:1"]

theorem commands_reach_own_message_archive :
    let _ := Platform.plain
    let _ := MailParser.plain
    Along MailWorld.step Truthful archivingWorld harmlessHistory ∧
      Along MailWorld.step HarmlessMove archivingWorld harmlessHistory ∧
      (exec MailWorld.step archivingWorld harmlessHistory).db.messages.map
        (fun r => (r.id, r.mailbox, r.uid)) = [("a:1", "Archive", 1)] ∧
      (exec MailWorld.step archivingWorld harmlessHistory).commands =
        [(some 1, some 1), (some 1, some 1), (none, some 1)] ∧
      (∀ r ∈ (exec MailWorld.step archivingWorld harmlessHistory).db.messages,
        (exec MailWorld.step archivingWorld harmlessHistory).OwnMessage r) := by
  intro _ _
  have htrue : Along MailWorld.step Truthful archivingWorld harmlessHistory := by decide +kernel
  have hmoves : Along MailWorld.step HarmlessMove archivingWorld harmlessHistory := by
    decide +kernel
  have hinj := injOn_of_one harmlessHistory (identities_fetchedFromInbox
    (by simp [delivered, MailOp.identities])
    (by simp [flagMessage, archiveMessage, MailOp.identities]))
  refine ⟨htrue, hmoves, by decide +kernel, by decide +kernel, ?_⟩
  have hids : UniqueBy (fun a => some a.id) archivingWorld.db.accounts :=
    List.pairwise_singleton _ _
  exact (commands_reach_own_message rfl rfl (by decide) hids hinj htrue hmoves).1

def misdirectedHistory : List MailOp :=
  [delivered "INBOX" 1, delivered "Archive" 2] ++
    fetchedFromInbox 1 1 :: [archiveMessage "a:1", flagMessage "a:1"]

/-- A message is archived and then flagged; the flag goes to another message of the archive. -/
theorem command_reaches_other_message :
    let _ := Platform.plain
    let _ := MailParser.plain
    Along MailWorld.step Truthful archivingWorld misdirectedHistory ∧
      Set.InjOn digestId {s | ∃ op ∈ misdirectedHistory, s ∈ op.identities} ∧
      (∃ r ∈ (exec MailWorld.step archivingWorld misdirectedHistory).db.messages,
        ¬ (exec MailWorld.step archivingWorld misdirectedHistory).OwnMessage r) ∧
      (some 2, some 1) ∈ (exec MailWorld.step archivingWorld misdirectedHistory).commands ∧
      (((exec MailWorld.step archivingWorld misdirectedHistory).servers archivingEndpoint).box
        "Archive").fetch 1 = some { key := 2, source := [2], flagged := true } := by
  intro _ _
  have hinj := injOn_of_one misdirectedHistory (identities_fetchedFromInbox
    (by simp [delivered, MailOp.identities])
    (by simp [flagMessage, archiveMessage, MailOp.identities]))
  have hrow : (exec MailWorld.step archivingWorld misdirectedHistory).db.messages.any (fun r =>
      r.uid == 1 && ((exec MailWorld.step archivingWorld misdirectedHistory).boxOf r.accountId
        r.mailbox).any fun box => (box.fetch 1).any fun m =>
          (exec MailWorld.step archivingWorld misdirectedHistory).origin r.id != some m.key) =
        true := by
    decide +kernel
  refine ⟨by decide +kernel, hinj, ?_, by decide +kernel, by decide +kernel⟩
  obtain ⟨r, hr, hfacts⟩ := List.any_eq_true.mp hrow
  simp only [Bool.and_eq_true, beq_iff_eq, Option.any_eq_true, bne_iff_ne] at hfacts
  obtain ⟨huid, box, hbox, m, hm, hne⟩ := hfacts
  exact ⟨r, hr, fun hown => hne (hown box hbox 1 huid m hm)⟩

end IMail
