import IMail.Mail.RemoteCommands
import IMail.Store.CommitTables
import IMail.Sync.LocalState
import IMail.Transition.FieldLog
import IMail.Transition.Run
import Mathlib.Data.List.ReduceOption

/-!
# Concurrent changes of one message

Any number of `update_for` calls, with the commits of syncs and the results of rule actions
between their steps. A call writes back the whole row that it has read, so whatever came in
between is undone unless the row is still the one it read. The log notes the fields that each
writer sets: the flags that a sync brings, and all fields of a row that it inserts.
-/

namespace IMail

open Relational Transition FieldLog

inductive MessageField
  | unread | flagged | labels | snoozedUntil
  deriving DecidableEq, Repr

inductive MessageValue
  | flag (value : Bool)
  | labels (value : List String)
  | snoozedUntil (value : Option String)
  deriving DecidableEq, Repr

def MessageField.get : MessageField → Message → MessageValue
  | unread, m => .flag m.unread
  | flagged, m => .flag m.flagged
  | labels, m => .labels m.labels
  | snoozedUntil, m => .snoozedUntil m.snoozedUntil

abbrev MessageLog := Log String MessageField MessageValue

/-- The function sets the given values of a message and keeps its account. -/
abbrev SetsMessage (values : List (MessageField × MessageValue)) (g : Message → Message) : Prop :=
  Sets (fun m : Message => m.id) MessageField.get values g

def MessagePatch.values (patch : MessagePatch) : List (MessageField × MessageValue) :=
  List.reduceOption
    [patch.unread.map fun x => (.unread, .flag x),
      patch.flagged.map fun x => (.flagged, .flag x),
      patch.labels.map fun x => (.labels, .labels x),
      patch.snoozedUntil.map fun x => (.snoozedUntil, .snoozedUntil x)]

theorem MessagePatch.sets (patch : MessagePatch) : SetsMessage patch.values patch.apply where
  key_eq _ := rfl
  value := by
    intro f v hv m
    simp only [values, List.reduceOption_mem_iff, List.mem_cons, List.not_mem_nil, or_false] at hv
    rcases hv with hv | hv | hv | hv <;> obtain ⟨x, hx, heq⟩ := Option.map_eq_some_iff.mp hv.symm <;>
      cases heq <;> simp [MessageField.get, apply, hx]
  rest := by
    intro f
    cases f with
    | unread =>
      cases hset : patch.unread with
      | none => exact Or.inr fun m => by simp [MessageField.get, apply, hset]
      | some x => exact Or.inl ⟨.flag x, List.reduceOption_mem_iff.mpr (by simp [hset])⟩
    | flagged =>
      cases hset : patch.flagged with
      | none => exact Or.inr fun m => by simp [MessageField.get, apply, hset]
      | some x => exact Or.inl ⟨.flag x, List.reduceOption_mem_iff.mpr (by simp [hset])⟩
    | labels =>
      cases hset : patch.labels with
      | none => exact Or.inr fun m => by simp [MessageField.get, apply, hset]
      | some x => exact Or.inl ⟨.labels x, List.reduceOption_mem_iff.mpr (by simp [hset])⟩
    | snoozedUntil =>
      cases hset : patch.snoozedUntil with
      | none => exact Or.inr fun m => by simp [MessageField.get, apply, hset]
      | some x => exact Or.inl ⟨.snoozedUntil x, List.reduceOption_mem_iff.mpr (by simp [hset])⟩

def RuleAction.values : RuleAction → List (MessageField × MessageValue)
  | .markRead read => [(.unread, .flag !read)]
  | .flag flagged => [(.flagged, .flag flagged)]
  | .archive => [(.snoozedUntil, .snoozedUntil none)]
  | .addLabel _ | .removeLabel _ | .mute _ => []

theorem RuleAction.finish_sets {action : RuleAction} {moved : Option RemoteMessageMoveResult}
    {f : Message → Message} (h : action.finish moved = .ok f) :
    SetsMessage action.values f ∧ ∀ m, (f m).accountId = m.accountId := by
  cases action with
  | markRead value | flag value =>
    cases h
    refine ⟨⟨fun _ => rfl, by simp [values, MessageField.get], ?_⟩, fun _ => rfl⟩
    intro field
    cases field <;> simp [values, MessageField.get]
  | archive =>
    simp only [finish] at h
    split at h
    · cases h
      refine ⟨⟨fun _ => rfl, by simp [values, MessageField.get], ?_⟩, fun _ => rfl⟩
      intro field
      cases field <;> simp [values, MessageField.get]
    · cases h
    · cases h
  | addLabel _ | removeLabel _ | mute _ => cases h

def names (plan : MailboxSyncPlan) (m : Message) : Bool :=
  (plan.incoming.any fun n => n.id == m.id) ||
    plan.flagUpdates.any fun flags => m.accountId == plan.accountId && m.mailbox == plan.mailbox &&
      m.uid == flags.uid

def flagValues (m : Message) : List (MessageField × MessageValue) :=
  [(.unread, .flag m.unread), (.flagged, .flag m.flagged)]

def allValues (m : Message) : List (MessageField × MessageValue) :=
  flagValues m ++ [(.labels, .labels m.labels), (.snoozedUntil, .snoozedUntil m.snoozedUntil)]

/-- The values of one row that a commit sets: all of a new row, else the flags it brings. -/
def committedValues (plan : MailboxSyncPlan) (before : List Message) (m : Message) :
    List (MessageField × MessageValue) :=
  if before.any fun old => old.id == m.id && old.accountId == m.accountId then
    if names plan m then flagValues m else []
  else allValues m

def commitEntries (plan : MailboxSyncPlan) (before after : List Message) : MessageLog :=
  after.flatMap fun m => FieldLog.entries m.id (committedValues plan before m)

section

variable [Platform]

variable {db db' : Db} {runIds : RunIds} {plan : MailboxSyncPlan} {completedAt : Time}
  {result : MailboxSyncCommitResult}

/-- A row of the account that was there before keeps its labels and snooze time, and its flags
too unless the plan names it. -/
theorem commit_keeps_fields (hids : UniqueBy (fun m => some m.id) db.messages)
    (h : commitMailboxSync db runIds plan completedAt = .ok (result, db')) {r old : Message}
    (hr : r ∈ db'.messages) (haccount : r.accountId = plan.accountId) (hold : old ∈ db.messages)
    (hid : old.id = r.id) (hsame : old.accountId = r.accountId) :
    r.labels = old.labels ∧ r.snoozedUntil = old.snoozedUntil ∧
      (names plan r = false → r.unread = old.unread ∧ r.flagged = old.flagged) := by
  obtain ⟨account, incoming, prepared, _, hprepare, hwrite, _⟩ := commitMailboxSync_ok h
  obtain ⟨htargets, honly⟩ := prepareAll_ok hprepare
  obtain ⟨htakes, _⟩ := prepareAll_rows hprepare
  obtain ⟨s, rfl, ⟨n', hn', hs⟩ | ⟨hmem, _, _⟩⟩ := mem_of_writePlan hwrite hr
  · -- The row is stored anew, with what `previous_row` found under its own id.
    obtain ⟨n, hpair⟩ := exists_mem_zip_right htakes hn'
    have hn : n ∈ plan.incoming := (List.of_mem_zip hpair).1
    have htake := (List.forall₂_iff_zip.mp htakes).2 hpair
    have hnid : n.id = old.id := by rw [hid, flagRow_id, hs, htake.cols.1]
    have hnaccount : n.accountId = plan.accountId := by
      obtain ⟨_, _, htarget⟩ := exists_right_of_mem htargets hn
      exact htarget.1
    obtain ⟨found, hfound, hfoundid⟩ :=
      previousRow_id hold ((hsame.trans haccount).trans hnaccount.symm) hnid.symm
    have hself : found = old := hids.eq_of_mem (previousRow_some hfound).1 hold rfl
      (by rw [hfoundid, hnid])
    have hlabels : (flagRow plan s).labels = n'.labels := by rw [flagRow_labels, hs]
    have hsnooze : (flagRow plan s).snoozedUntil = n'.snoozedUntil := by
      rw [flagRow_snoozedUntil, hs]
    have hnamed : names plan (flagRow plan s) = true := by
      simp only [names, Bool.or_eq_true, List.any_eq_true, beq_iff_eq]
      exact Or.inl ⟨n, hn, hnid.trans hid⟩
    rw [hlabels, hsnooze]
    rcases htake with ⟨row, hrow, rfl⟩ | ⟨hnone, _⟩
    · rw [hfound] at hrow
      cases hrow
      rw [hself]
      exact ⟨rfl, rfl, fun hnames => absurd hnamed (Bool.eq_false_iff.mp hnames)⟩
    · rw [hfound] at hnone
      cases hnone
  · -- The row stays, but for the flag updates.
    obtain ⟨_, _, _, rfl⟩ := honly
    rw [flagRow_id] at hid
    have hself : s = old := hids.eq_of_mem hmem hold rfl (by rw [hid])
    rw [flagRow_labels, flagRow_snoozedUntil, hself]
    refine ⟨rfl, rfl, fun hnames => ?_⟩
    rw [flagRow_of_unnamed]
    · exact ⟨rfl, rfl⟩
    · intro flags hflags
      simp only [names, Bool.or_eq_false_iff, List.any_eq_false, Bool.not_eq_true,
        flagRow_accountId, flagRow_mailbox, flagRow_uid] at hnames
      exact hnames.2 flags hflags

def accountRows (accountId : String) (messages : List Message) : Set Message :=
  {m | m ∈ messages ∧ m.accountId = accountId}

theorem commit_lastWriter (hids : UniqueBy (fun m => some m.id) db.messages)
    (hids' : UniqueBy (fun m => some m.id) db'.messages)
    (h : commitMailboxSync db runIds plan completedAt = .ok (result, db')) {log : MessageLog}
    (hlast : LastWriter (fun m : Message => m.id) MessageField.get
      (accountRows plan.accountId db.messages) log) :
    LastWriter (fun m : Message => m.id) MessageField.get
      (accountRows plan.accountId db'.messages)
      (log ++ commitEntries plan db.messages db'.messages) := by
  have htrue : ∀ (m : Message) (f : MessageField) (v : MessageValue),
      (f, v) ∈ committedValues plan db.messages m → f.get m = v := by
    intro m f v hmem
    unfold committedValues at hmem
    split_ifs at hmem
    · simp only [flagValues, List.mem_cons, Prod.mk.injEq, List.not_mem_nil, or_false] at hmem
      rcases hmem with ⟨rfl, rfl⟩ | ⟨rfl, rfl⟩ <;> rfl
    · cases hmem
    · simp only [allValues, flagValues, List.cons_append, List.nil_append, List.mem_cons,
        Prod.mk.injEq, List.not_mem_nil, or_false] at hmem
      rcases hmem with ⟨rfl, rfl⟩ | ⟨rfl, rfl⟩ | ⟨rfl, rfl⟩ | ⟨rfl, rfl⟩ <;> rfl
  apply hlast.append
  · intro id f v hentry r hr hid
    obtain ⟨m, hm, hentries⟩ := List.mem_flatMap.mp hentry
    obtain ⟨value, hvalue, heq⟩ := List.mem_map.mp hentries
    cases heq
    have hself : m = r := hids'.eq_of_mem hm hr.1 rfl (by rw [hid])
    exact hself ▸ htrue m f v hvalue
  · rintro r ⟨hr, haccount⟩ f
    have hlogged : ∀ v, (f, v) ∈ committedValues plan db.messages r →
        (r.id, f, v) ∈ commitEntries plan db.messages db'.messages := by
      intro v hv
      exact List.mem_flatMap.mpr ⟨r, hr, List.mem_map.mpr ⟨(f, v), hv, rfl⟩⟩
    by_cases hthere : (db.messages.any fun old => old.id == r.id && old.accountId == r.accountId) =
        true
    · obtain ⟨old, hold, hsel⟩ := List.any_eq_true.mp hthere
      simp only [Bool.and_eq_true, beq_iff_eq] at hsel
      obtain ⟨hlabels, hsnooze, hflags⟩ :=
        commit_keeps_fields hids h hr haccount hold hsel.1 hsel.2
      have hkept : f.get old = f.get r → (∃ v, (r.id, f, v) ∈ commitEntries plan db.messages
          db'.messages) ∨ ∃ old ∈ accountRows plan.accountId db.messages, old.id = r.id ∧
            f.get old = f.get r :=
        fun hget => Or.inr ⟨old, ⟨hold, hsel.2.trans haccount⟩, hsel.1, hget⟩
      by_cases hnames : names plan r = true
      · have hvalues : committedValues plan db.messages r = flagValues r := by
          rw [committedValues, if_pos hthere, if_pos hnames]
        cases f with
        | unread => exact Or.inl ⟨_, hlogged (.flag r.unread) (by simp [hvalues, flagValues])⟩
        | flagged => exact Or.inl ⟨_, hlogged (.flag r.flagged) (by simp [hvalues, flagValues])⟩
        | labels => exact hkept (by simp [MessageField.get, hlabels])
        | snoozedUntil => exact hkept (by simp [MessageField.get, hsnooze])
      · obtain ⟨hunread, hflagged⟩ := hflags (Bool.eq_false_iff.mpr hnames)
        apply hkept
        cases f <;> simp [MessageField.get, hunread, hflagged, hlabels, hsnooze]
    · have hvalues : committedValues plan db.messages r = allValues r := by
        rw [committedValues, if_neg hthere]
      refine Or.inl ⟨_, hlogged (f.get r) ?_⟩
      cases f <;> simp [hvalues, allValues, flagValues, MessageField.get]

end

/-- A call of `update_for` between its first read and its write. -/
structure PatchCall where
  owner : String
  patch : MessagePatch
  /-- The row as the call has read it. -/
  message : Message
  /-- The server knows the flags. -/
  told : Bool
  deriving DecidableEq, Repr

structure PatchWorld where
  db : Db
  calls : ℕ → Option PatchCall := fun _ => none
  log : MessageLog := []

inductive PatchOp
  | read (i : ℕ) (env : ImapEnvironment) (owner messageId : String) (patch : MessagePatch)
  | tell (i : ℕ) (env : ImapEnvironment) (servers : MailServers) (cut : Cut)
  | write (i : ℕ)
  | commit (runIds : RunIds) (plan : MailboxSyncPlan) (completedAt : Time)
  | finish (owner : String) (work : RuleWork)
      (result : Except String (Option RemoteMessageMoveResult)) (now later : Time)

namespace PatchWorld

def setCall (w : PatchWorld) (i : ℕ) (call : Option PatchCall) : PatchWorld :=
  { w with calls := Function.update w.calls i call }

def finishEntries (w : PatchWorld) (work : RuleWork)
    (result : Except String (Option RemoteMessageMoveResult)) : MessageLog :=
  match result with
  | .error _ => []
  | .ok _ =>
    if w.db.messages.any fun m => m.id == work.message.id && m.accountId == work.message.accountId
    then FieldLog.entries work.message.id work.action.values else []

/-- `update_for` in its steps; a call that fails is gone. -/
def step [Platform] (w : PatchWorld) : PatchOp → PatchWorld
  | .read i env owner messageId patch =>
    match w.calls i, readMessage env w.db owner messageId with
    | none, .ok message =>
      w.setCall i (some ⟨owner, patch, message, !(patch.unread.isSome || patch.flagged.isSome)⟩)
    | _, _ => w
  | .tell i env servers cut =>
    match w.calls i with
    | none => w
    | some call =>
      match (updateRemote env w.db servers call.owner call.message.id call.patch cut).1 with
      | .ok () => w.setCall i (some { call with told := true })
      | .error _ => w.setCall i none
  | .write i =>
    match w.calls i with
    | none => w
    | some call =>
      if !call.told then w
      else
        match storeMessage w.db call.owner (call.patch.apply call.message) with
        | .error _ => w.setCall i none
        | .ok db =>
          { w.setCall i none with
            db := db
            log := w.log ++ FieldLog.entries call.message.id call.patch.values }
  | .commit runIds plan completedAt =>
    match commitMailboxSync w.db runIds plan completedAt with
    | .error _ => w
    | .ok (_, db) =>
      { w with db := db, log := w.log ++ commitEntries plan w.db.messages db.messages }
  | .finish owner work result now later =>
    match finishRuleAction w.db owner work result now later with
    | .error _ => w
    | .ok db => { w with db := db, log := w.log ++ w.finishEntries work result }

end PatchWorld

/-- A commit of the step is one of the account. -/
def PatchOp.ofAccount (accountId : String) : PatchOp → Prop
  | .commit _ plan _ => plan.accountId = accountId
  | _ => True

/-- The row that a call writes back is still as the call has read it. -/
def AsRead (w : PatchWorld) : PatchOp → Prop
  | .write i => ∀ call ∈ w.calls i, call.message ∈ w.db.messages
  | _ => True

instance (w : PatchWorld) : (op : PatchOp) → Decidable (AsRead w op)
  | .write i => inferInstanceAs (Decidable (∀ call ∈ w.calls i, call.message ∈ w.db.messages))
  | .read .. | .tell .. | .commit .. | .finish .. => isTrue trivial

/-- The step of a call inserts no row. -/
def NoInsertion [Platform] (w : PatchWorld) : PatchOp → Prop
  | .write i => ∀ m ∈ (w.step (.write i)).db.messages, ∃ old ∈ w.db.messages, old.id = m.id
  | _ => True

/-- Ids are unique and no update of the account's messages is lost. -/
structure PatchInv (accountId : String) (w : PatchWorld) : Prop where
  ids : UniqueBy (fun m => some m.id) w.db.messages
  last : LastWriter (fun m : Message => m.id) MessageField.get
    (accountRows accountId w.db.messages) w.log

variable {db db' : Db} {owner : String} {messages : List Message} {g : Message → Message}

theorem storeMessage_patches (hids : UniqueBy (fun m => some m.id) db.messages)
    {patch : MessagePatch} {message : Message} (hmem : message ∈ db.messages)
    (h : storeMessage db owner (patch.apply message) = .ok db') :
    db'.messages = updateWhere (fun m => m.id == message.id) patch.apply db.messages := by
  rcases (upsertSyncMessage_ok (storeMessage_ok h)).2 with ⟨_, hrows⟩ | ⟨hmissing, _⟩
  · rw [hrows]
    apply updateWhere_congr
    intro old hold hsel
    have hid : old.id = message.id := beq_iff_eq.mp hsel
    have hself : old = message := hids.eq_of_mem hold hmem rfl (congrArg some hid.symm)
    rw [hself]
    rfl
  · exact absurd rfl (hmissing message hmem)

theorem lastWriter_updateWhere {accountId id : String} {log : MessageLog}
    {values : List (MessageField × MessageValue)}
    (hlast : LastWriter (fun m : Message => m.id) MessageField.get
      (accountRows accountId messages) log) (hsets : SetsMessage values g)
    (haccount : ∀ m, (g m).accountId = m.accountId) :
    LastWriter (fun m : Message => m.id) MessageField.get
      (accountRows accountId (updateWhere (fun m => m.id == id) g messages))
      (log ++ FieldLog.entries id values) := by
  apply hlast.update hsets
  rintro r ⟨hr, hraccount⟩
  rcases mem_updateWhere.mp hr with ⟨old, hold, hsel, rfl⟩ | ⟨hold, hsel⟩
  · exact Or.inl ⟨old, ⟨hold, (haccount old).symm.trans hraccount⟩, by simpa using hsel, rfl⟩
  · exact Or.inr ⟨⟨hold, hraccount⟩, by simpa using hsel⟩

theorem uniqueIds_updateWhere {p : Message → Bool} (hids : UniqueBy (fun m => some m.id) messages)
    (hid : ∀ m, (g m).id = m.id) : UniqueBy (fun m => some m.id) (updateWhere p g messages) := by
  apply hids.updateWhere
  intro row _ _ k hk
  rw [hid] at hk
  exact hk

section

variable [Platform] {accountId : String} {w : PatchWorld}

section

variable (h : PatchInv accountId w)
include h

theorem PatchInv.write (i : ℕ) (hread : AsRead w (.write i)) :
    PatchInv accountId (w.step (.write i)) ∧ NoInsertion w (.write i) := by
  simp only [NoInsertion, PatchWorld.step]
  split
  · exact ⟨h, fun m hm => ⟨m, hm, rfl⟩⟩
  rename_i call hcall
  split_ifs
  · exact ⟨h, fun m hm => ⟨m, hm, rfl⟩⟩
  split
  · exact ⟨⟨h.ids, h.last⟩, fun m hm => ⟨m, hm, rfl⟩⟩
  · rename_i db hstore
    have hrows := storeMessage_patches h.ids (hread call hcall) hstore
    refine ⟨⟨?_, ?_⟩, ?_⟩
    · dsimp only
      rw [hrows]
      exact uniqueIds_updateWhere h.ids fun _ => rfl
    · dsimp only
      rw [hrows]
      exact lastWriter_updateWhere h.last call.patch.sets fun _ => rfl
    · intro m hm
      dsimp only at hm
      rw [hrows] at hm
      rcases mem_updateWhere.mp hm with ⟨old, hold, _, rfl⟩ | ⟨hold, _⟩
      · exact ⟨old, hold, rfl⟩
      · exact ⟨m, hold, rfl⟩

theorem PatchInv.commit {runIds : RunIds} {plan : MailboxSyncPlan}
    {completedAt : Time} (hplan : plan.accountId = accountId) :
    PatchInv accountId (w.step (.commit runIds plan completedAt)) := by
  simp only [PatchWorld.step]
  split
  · exact h
  · rename_i result db hcommit
    subst hplan
    have hids := commitMailboxSync_ids h.ids hcommit
    exact ⟨hids, commit_lastWriter h.ids hids hcommit h.last⟩

theorem PatchInv.finish (owner : String) (work : RuleWork)
    (result : Except String (Option RemoteMessageMoveResult)) (now later : Time) :
    PatchInv accountId (w.step (.finish owner work result now later)) := by
  simp only [PatchWorld.step]
  split
  · exact h
  rename_i db hfinish
  cases finishRuleAction_ok hfinish with
  | fails =>
    refine ⟨h.ids, ?_⟩
    dsimp only
    rw [PatchWorld.finishEntries, List.append_nil]
    exact h.last
  | @succeeds moved f _ hf =>
    obtain ⟨hsets, haccount⟩ := RuleAction.finish_sets hf
    constructor
    · exact uniqueIds_updateWhere h.ids hsets.key_eq
    · simp only [PatchWorld.finishEntries]
      split_ifs with hthere
      · -- The row is there, so the id selects it alone.
        obtain ⟨m, hm, hsel⟩ := List.any_eq_true.mp hthere
        simp only [Bool.and_eq_true, beq_iff_eq] at hsel
        have hsame : updateWhere (fun m => m.id == work.message.id &&
            m.accountId == work.message.accountId) f w.db.messages =
            updateWhere (fun m => m.id == work.message.id) f w.db.messages := by
          apply List.map_congr_left
          intro row hrow
          by_cases hid : row.id = work.message.id
          · have hself : row = m := h.ids.eq_of_mem hrow hm rfl
              (congrArg some (hsel.1.trans hid.symm))
            simp [hself, hsel.1, hsel.2]
          · simp [hid]
        rw [hsame]
        exact lastWriter_updateWhere h.last hsets haccount
      · rw [List.append_nil, updateWhere_eq_self]
        · exact h.last
        · intro row hrow
          apply Bool.eq_false_iff.mpr
          exact fun hsel => hthere (List.any_eq_true.mpr ⟨row, hrow, hsel⟩)

theorem PatchInv.step {op : PatchOp} (haccount : op.ofAccount accountId)
    (hread : AsRead w op) : PatchInv accountId (w.step op) := by
  cases op with
  | read i env owner messageId patch =>
    simp only [PatchWorld.step]
    split
    · exact ⟨h.ids, h.last⟩
    · exact h
  | tell i env servers cut =>
    simp only [PatchWorld.step]
    split
    · exact h
    · split <;> exact ⟨h.ids, h.last⟩
  | write i => exact (h.write i hread).1
  | commit runIds plan completedAt => exact h.commit haccount
  | finish owner work result now later => exact h.finish owner work result now later

end

/-- In every interleaving in which each call of `update_for` finds the row it writes as it has
read it, every message of the account has in each field the value of the last writer that set
it, and no call inserts a row. -/
theorem patches_not_lost (accountId : String) {db : Db}
    (hids : UniqueBy (fun m => some m.id) db.messages) {ops : List PatchOp}
    (haccount : ∀ op ∈ ops, op.ofAccount accountId)
    (hread : Along PatchWorld.step AsRead { db } ops) :
    LastWriter (fun m : Message => m.id) MessageField.get
        (accountRows accountId (exec PatchWorld.step { db } ops).db.messages)
        (exec PatchWorld.step { db } ops).log ∧
      Along PatchWorld.step NoInsertion { db } ops := by
  have hstart : PatchInv accountId { db } := ⟨hids, LastWriter.nil _⟩
  have hboth := (along_of_forall haccount ({ db } : PatchWorld)).and hread
  constructor
  · exact (invariant_along (PatchInv accountId)
      (fun _ _ hinv hop => hinv.step hop.1 hop.2) hstart hboth).last
  · apply along_of_invariant (PatchInv accountId) (fun _ _ hinv hop => hinv.step hop.1 hop.2) _
      hstart hboth
    intro w op hinv hop
    cases op with
    | write i => exact (hinv.write i hop.2).2
    | read _ _ _ _ _ | tell _ _ _ _ | commit _ _ _ | finish _ _ _ _ _ => trivial

end

def patchedMessage : Message where
  id := "a:1"
  accountId := "a"
  mailbox := "INBOX"
  mailboxRole := "inbox"
  uid := 1

def patchedDb : Db where
  accounts :=
    [{ id := "a"
       userId := "u"
       email := "a@example.org"
       createdAt := 0
       settings := some
        { imapHost := some "imap.example.org"
          imapPort := some 993
          imapSecure := some true
          smtpHost := some "smtp.example.org"
          smtpPort := some 465
          smtpSecure := some true } }]
  messages := [patchedMessage]

def patchEnv : ImapEnvironment := { decrypt := fun _ => some { password := some "secret" } }

def markRead : PatchOp := .read 0 patchEnv "u" "a:1" { unread := some false }

def label : PatchOp := .read 1 patchEnv "u" "a:1" { labels := some ["work"] }

def tellRead : PatchOp := .tell 0 patchEnv (fun _ => {}) none

def flagsCommit (removed : List ℕ) : PatchOp :=
  .commit (fun _ _ _ => "run")
    { accountId := "a"
      mailbox := "INBOX"
      mailboxRole := "inbox"
      removedUids := removed
      flagUpdates := [⟨1, false, true⟩] } 0

/-- One call after the other, with a sync between them. -/
theorem patches_not_lost_in_turn :
    let _ := Platform.plain
    let w := exec PatchWorld.step { db := patchedDb }
      [markRead, tellRead, .write 0, flagsCommit [], label, .write 1]
    (w.db.messages.map fun m => (m.unread, m.flagged, m.labels)) = [(false, true, ["work"])] ∧
      LastWriter (fun m : Message => m.id) MessageField.get (accountRows "a" w.db.messages)
        w.log := by
  intro _
  constructor
  · decide +kernel
  · have hread : Along PatchWorld.step AsRead { db := patchedDb }
        [markRead, tellRead, .write 0, flagsCommit [], label, .write 1] := by
      decide +kernel
    have hids : UniqueBy (fun m => some m.id) patchedDb.messages := List.pairwise_singleton _ _
    exact (patches_not_lost "a" hids
      (by simp [markRead, tellRead, flagsCommit, label, PatchOp.ofAccount]) hread).1

/-- Two calls with different fields: the second one undoes what the first one has set, and it
brings back a row that a commit has deleted. -/
theorem patches_lost :
    let _ := Platform.plain
    let w := exec PatchWorld.step { db := patchedDb } [label, markRead, tellRead, .write 0, .write 1]
    ¬ LastWriter (fun m : Message => m.id) MessageField.get (accountRows "a" w.db.messages) w.log ∧
      ¬ Along PatchWorld.step NoInsertion { db := patchedDb } [label, flagsCommit [1], .write 1] := by
  intro _
  constructor
  · have hlog : FieldLog.last (exec PatchWorld.step { db := patchedDb }
        [label, markRead, tellRead, .write 0, .write 1]).log "a:1" .unread = some (.flag false) := by
      decide +kernel
    have hrows : (exec PatchWorld.step { db := patchedDb }
        [label, markRead, tellRead, .write 0, .write 1]).db.messages =
        [{ patchedMessage with labels := ["work"] }] := by
      decide +kernel
    intro hlast
    have hunread := hlast { patchedMessage with labels := ["work"] } ⟨by rw [hrows]; simp, rfl⟩
      .unread (.flag false) hlog
    cases hunread
  · have hgone : (exec PatchWorld.step { db := patchedDb } [label, flagsCommit [1]]).db.messages =
        [] := by
      decide +kernel
    have hback : { patchedMessage with labels := ["work"] } ∈
        (exec PatchWorld.step { db := patchedDb } [label, flagsCommit [1], .write 1]).db.messages := by
      decide +kernel
    rintro ⟨_, _, hinsert, _⟩
    obtain ⟨old, hold, _⟩ := hinsert _ hback
    have hnone : old ∈ (exec PatchWorld.step { db := patchedDb }
      [label, flagsCommit [1]]).db.messages := hold
    rw [hgone] at hnone
    cases hnone

end IMail
