import IMail.Store.CommitSpec

/-!
# The rows after a mailbox commit

Membership in `messages` after each stage of a commit: what is stored of the incoming
messages and which rows stay. An incoming message replaces the row under its id and the other
copies that its Message-ID has in the mailbox or role of the plan; the last of several
incoming copies is the one that is kept.
-/

namespace IMail

open Relational

/-- Storing `n` takes `r` out of the table. -/
def replaces (plan : MailboxSyncPlan) (n r : Message) : Bool :=
  n.id == r.id || otherCopy plan n r

def untouched (plan : MailboxSyncPlan) (incoming : List Message) (r : Message) : Bool :=
  incoming.all fun n => !replaces plan n r

def survivors (plan : MailboxSyncPlan) : List Message → List Message
  | [] => []
  | n :: ns => if untouched plan ns n then n :: survivors plan ns else survivors plan ns

@[simp] theorem untouched_nil (plan : MailboxSyncPlan) (r : Message) :
    untouched plan [] r = true := rfl

@[simp] theorem untouched_cons (plan : MailboxSyncPlan) (n r : Message) (ns : List Message) :
    untouched plan (n :: ns) r = (!replaces plan n r && untouched plan ns r) := rfl

variable {plan : MailboxSyncPlan} {incoming : List Message} {r : Message}

theorem mem_of_mem_survivors (h : r ∈ survivors plan incoming) : r ∈ incoming := by
  induction incoming with
  | nil => simp [survivors] at h
  | cons n ns ih =>
    rw [survivors] at h
    split_ifs at h
    · rcases List.mem_cons.mp h with rfl | h
      · exact List.mem_cons_self
      · exact List.mem_cons_of_mem _ (ih h)
    · exact List.mem_cons_of_mem _ (ih h)

variable {n : Message}

theorem id_ne_of_untouched (h : untouched plan incoming r = true) (hn : n ∈ incoming) :
    n.id ≠ r.id := by
  have hone := List.all_eq_true.mp h n hn
  simp only [replaces, Bool.not_or, Bool.and_eq_true, Bool.not_eq_true', beq_eq_false_iff_ne]
    at hone
  exact hone.1

theorem find?_of_mem_survivors (h : r ∈ survivors plan incoming) :
    (incoming.reverse.find? fun n => n.id == r.id) = some r := by
  induction incoming with
  | nil => simp [survivors] at h
  | cons n ns ih =>
    rw [List.reverse_cons, List.find?_append]
    rw [survivors] at h
    split_ifs at h with hlast
    · rcases List.mem_cons.mp h with rfl | h
      · have hnone : (ns.reverse.find? fun n => n.id == r.id) = none := by
          apply List.find?_eq_none.mpr
          intro n hn
          simpa using id_ne_of_untouched hlast (List.mem_reverse.mp hn)
        rw [hnone]
        simp
      · rw [ih h]
        rfl
    · rw [ih h]
      rfl

variable {db db' : Db}

theorem upsertSyncMessage_ok (h : db.upsertSyncMessage n = .ok db') :
    (∀ m ∈ db.messages, m.id ≠ n.id → m.accountId = (upsertRow db n).accountId →
      m.mailbox = n.mailbox → m.uid ≠ n.uid) ∧
    (((∃ m ∈ db.messages, m.id = n.id) ∧
        db'.messages = updateWhere (fun m => m.id == n.id) (fun old => old.overwrite n)
          db.messages) ∨
      ((∀ m ∈ db.messages, m.id ≠ n.id) ∧ db'.messages = db.messages ++ [n])) := by
  have hcols : (upsertRow db n).id = n.id ∧ (upsertRow db n).mailbox = n.mailbox ∧
      (upsertRow db n).uid = n.uid := by
    unfold upsertRow
    split <;> exact ⟨rfl, rfl, rfl⟩
  unfold Db.upsertSyncMessage at h
  dsimp only at h
  split at h
  · cases h
  rename_i hfree
  have hplace : ∀ m ∈ db.messages, m.id ≠ n.id → m.accountId = (upsertRow db n).accountId →
      m.mailbox = n.mailbox → m.uid ≠ n.uid := by
    intro m hm hid haccount hmailbox huid
    apply hfree
    apply List.any_eq_true.mpr
    exact ⟨m, hm, by simp [hcols, hid, haccount, hmailbox, huid]⟩
  split at h
  · rename_i hthere
    cases h
    simp only [List.any_eq_true, beq_iff_eq] at hthere
    exact ⟨hplace, Or.inl ⟨hthere, rfl⟩⟩
  · rename_i hmissing
    simp only [List.any_eq_true, beq_iff_eq, not_exists, not_and] at hmissing
    split at h
    · cases h
      exact ⟨hplace, Or.inr ⟨hmissing, rfl⟩⟩
    · cases h

section

variable (h : db.storeIncoming plan n = .ok db')
include h

theorem storeIncoming_ok :
    ∃ upserted, (db.deleteMessages (otherCopy plan n)).upsertSyncMessage n = .ok upserted ∧
      db'.messages = upserted.messages ∧
      db'.messageSources = (match plan.rawSources.find? fun entry => entry.1 == n.id with 
        | some (_, source) => (upserted.upsertSource n.id source).messageSources
        | none => upserted.messageSources) := by
  obtain ⟨upserted, hup, rfl⟩ := map_eq_ok h
  refine ⟨upserted, hup, ?_, ?_⟩
  · split <;> rfl
  · cases hsource : plan.rawSources.find? fun entry => entry.1 == n.id <;> simp

theorem mem_of_storeIncoming (hr : r ∈ db'.messages) :
    r = { n with accountId := r.accountId } ∨ (r ∈ db.messages ∧ replaces plan n r = false) := by
  obtain ⟨upserted, hup, hmessages, _⟩ := storeIncoming_ok h
  rw [hmessages] at hr
  have hkept : r ∈ (db.deleteMessages (otherCopy plan n)).messages → r.id ≠ n.id →
      r ∈ db.messages ∧ replaces plan n r = false := by
    intro hmem hid
    obtain ⟨hold, hcopy⟩ := mem_deleteWhere.mp hmem
    exact ⟨hold, by simp [replaces, hcopy, Ne.symm hid]⟩
  rcases (upsertSyncMessage_ok hup).2 with ⟨_, hrows⟩ | ⟨hmissing, hrows⟩
  · rw [hrows] at hr
    rcases mem_updateWhere.mp hr with ⟨old, _, _, rfl⟩ | ⟨hmem, hid⟩
    · exact Or.inl rfl
    · exact Or.inr (hkept hmem (by simpa using hid))
  · rw [hrows] at hr
    rcases List.mem_append.mp hr with hmem | hmem
    · exact Or.inr (hkept hmem (hmissing r hmem))
    · rw [List.mem_singleton.mp hmem]
      exact Or.inl rfl

theorem mem_storeIncoming_of_kept (hr : r ∈ db.messages)
    (hkept : replaces plan n r = false) : r ∈ db'.messages := by
  obtain ⟨upserted, hup, hmessages, _⟩ := storeIncoming_ok h
  simp only [replaces, Bool.or_eq_false_iff, beq_eq_false_iff_ne] at hkept
  have hmem : r ∈ (db.deleteMessages (otherCopy plan n)).messages :=
    mem_deleteWhere.mpr ⟨hr, hkept.2⟩
  rw [hmessages]
  rcases (upsertSyncMessage_ok hup).2 with ⟨_, hrows⟩ | ⟨_, hrows⟩
  · rw [hrows]
    exact mem_updateWhere.mpr (Or.inr ⟨hmem, by simpa using Ne.symm hkept.1⟩)
  · rw [hrows]
    exact List.mem_append_left _ hmem

end

theorem account_of_upsertSyncMessage (h : db.upsertSyncMessage n = .ok db')
    (hr : r ∈ db'.messages) :
    r = n ∨ ∃ old ∈ db.messages, old.id = r.id ∧ old.accountId = r.accountId := by
  rcases (upsertSyncMessage_ok h).2 with ⟨_, hrows⟩ | ⟨_, hrows⟩
  · rw [hrows] at hr
    rcases mem_updateWhere.mp hr with ⟨old, hold, hid, rfl⟩ | ⟨hmem, _⟩
    · exact Or.inr ⟨old, hold, by simpa [Message.overwrite] using hid, rfl⟩
    · exact Or.inr ⟨r, hmem, rfl, rfl⟩
  · rw [hrows] at hr
    rcases List.mem_append.mp hr with hmem | hmem
    · exact Or.inr ⟨r, hmem, rfl, rfl⟩
    · exact Or.inl (List.mem_singleton.mp hmem)

theorem account_of_storeIncoming (h : db.storeIncoming plan n = .ok db') (hr : r ∈ db'.messages) :
    r = n ∨ ∃ old ∈ db.messages, old.id = r.id ∧ old.accountId = r.accountId := by
  obtain ⟨upserted, hup, hmessages, _⟩ := storeIncoming_ok h
  rw [hmessages] at hr
  rcases account_of_upsertSyncMessage hup hr with rfl | ⟨old, hold, hcols⟩
  · exact Or.inl rfl
  · exact Or.inr ⟨old, (mem_deleteWhere.mp hold).1, hcols⟩

theorem mem_storeIncoming (hown : ∀ m ∈ db.messages, m.id = n.id → m.accountId = n.accountId)
    (h : db.storeIncoming plan n = .ok db') :
    r ∈ db'.messages ↔ r = n ∨ (r ∈ db.messages ∧ replaces plan n r = false) := by
  obtain ⟨upserted, hup, hmessages, _⟩ := storeIncoming_ok h
  have hoverwrite : ∀ old ∈ (db.deleteMessages (otherCopy plan n)).messages, old.id = n.id →
      old.overwrite n = n := by
    intro old hold hid
    have haccount := hown old (mem_deleteWhere.mp hold).1 hid
    unfold Message.overwrite
    rw [haccount]
  have hkept : ∀ m, m ∈ (db.deleteMessages (otherCopy plan n)).messages ∧ m.id ≠ n.id ↔
      m ∈ db.messages ∧ replaces plan n m = false := by
    intro m
    simp only [Db.deleteMessages, mem_deleteWhere, replaces, Bool.or_eq_false_iff,
      beq_eq_false_iff_ne, ne_comm (a := n.id)]
    tauto
  rw [hmessages, ← hkept]
  rcases (upsertSyncMessage_ok hup).2 with ⟨⟨there, hthere, hid⟩, hrows⟩ | ⟨hmissing, hrows⟩
  · rw [hrows, mem_updateWhere]
    constructor
    · rintro (⟨old, hold, hsel, rfl⟩ | ⟨hmem, hsel⟩)
      · exact Or.inl (hoverwrite old hold (by simpa using hsel))
      · exact Or.inr ⟨hmem, by simpa using hsel⟩
    · rintro (rfl | ⟨hmem, hne⟩)
      · exact Or.inl ⟨there, hthere, by simpa using hid, (hoverwrite there hthere hid).symm⟩
      · exact Or.inr ⟨hmem, by simpa using hne⟩
  · rw [hrows, List.mem_append, List.mem_singleton]
    constructor
    · rintro (hmem | rfl)
      · exact Or.inr ⟨hmem, hmissing r hmem⟩
      · exact Or.inl rfl
    · rintro (rfl | ⟨hmem, _⟩)
      · exact Or.inr rfl
      · exact Or.inl hmem

section

variable (h : db.storeAll plan incoming = .ok db')
include h

theorem mem_of_storeAll (hr : r ∈ db'.messages) :
    (∃ n ∈ incoming, r = { n with accountId := r.accountId }) ∨
      (r ∈ db.messages ∧ untouched plan incoming r = true) := by
  induction incoming generalizing db with
  | nil =>
    cases h
    exact Or.inr ⟨hr, rfl⟩
  | cons n ns ih =>
    obtain ⟨db₁, hone, h⟩ := storeAll_cons h
    rcases ih h with ⟨m, hm, hrow⟩ | ⟨hmem, hrest⟩
    · exact Or.inl ⟨m, List.mem_cons_of_mem _ hm, hrow⟩
    · rcases mem_of_storeIncoming hone hmem with hrow | ⟨hold, hfirst⟩
      · exact Or.inl ⟨n, List.mem_cons_self, hrow⟩
      · exact Or.inr ⟨hold, by simp [hfirst, hrest]⟩

theorem mem_storeAll_of_untouched (hr : r ∈ db.messages)
    (hrest : untouched plan incoming r = true) : r ∈ db'.messages := by
  induction incoming generalizing db with
  | nil =>
    cases h
    exact hr
  | cons n ns ih =>
    obtain ⟨db₁, hone, h⟩ := storeAll_cons h
    simp only [untouched_cons, Bool.and_eq_true, Bool.not_eq_true'] at hrest
    exact ih h (mem_storeIncoming_of_kept hone hr hrest.1) hrest.2

theorem account_of_storeAll (hr : r ∈ db'.messages) :
    ∃ m, (m ∈ incoming ∨ m ∈ db.messages) ∧ m.id = r.id ∧ m.accountId = r.accountId := by
  induction incoming generalizing db with
  | nil =>
    cases h
    exact ⟨r, Or.inr hr, rfl, rfl⟩
  | cons n ns ih =>
    obtain ⟨db₁, hone, h⟩ := storeAll_cons h
    obtain ⟨m, hm | hm, hid, haccount⟩ := ih h
    · exact ⟨m, Or.inl (List.mem_cons_of_mem _ hm), hid, haccount⟩
    · rcases account_of_storeIncoming hone hm with rfl | ⟨old, hold, hid', haccount'⟩
      · exact ⟨m, Or.inl List.mem_cons_self, hid, haccount⟩
      · exact ⟨old, Or.inr hold, hid'.trans hid, haccount'.trans haccount⟩

end

def OwnIds (accountId : String) (incoming messages : List Message) : Prop :=
  ∀ n ∈ incoming, n.accountId = accountId ∧ ∀ m ∈ messages, m.id = n.id → m.accountId = accountId

theorem mem_storeAll_of_id {x : String}
    (hown : ∀ n ∈ incoming, n.id = x → n.accountId = plan.accountId ∧
      ∀ m ∈ db.messages, m.id = x → m.accountId = plan.accountId)
    (h : db.storeAll plan incoming = .ok db') (hid : r.id = x) :
    r ∈ db'.messages ↔ r ∈ survivors plan incoming ∨
      (r ∈ db.messages ∧ untouched plan incoming r = true) := by
  induction incoming generalizing db with
  | nil =>
    cases h
    simp [survivors]
  | cons n ns ih =>
    obtain ⟨db₁, hone, h⟩ := storeAll_cons h
    have hrows : ∀ m, m.id = x →
        (m ∈ db₁.messages ↔ m = n ∨ (m ∈ db.messages ∧ replaces plan n m = false)) := by
      intro m hm
      by_cases hn : n.id = x
      · obtain ⟨haccount, hids⟩ := hown n List.mem_cons_self hn
        apply mem_storeIncoming _ hone
        intro k hk hkid
        rw [hids k hk (hkid.trans hn), haccount]
      · constructor
        · intro hmem
          rcases mem_of_storeIncoming hone hmem with hrow | hkept
          · rw [hrow] at hm
            exact absurd hm hn
          · exact Or.inr hkept
        · rintro (rfl | ⟨hmem, hkept⟩)
          · exact absurd hm hn
          · exact mem_storeIncoming_of_kept hone hmem hkept
    have hown₁ : ∀ k ∈ ns, k.id = x → k.accountId = plan.accountId ∧
        ∀ m ∈ db₁.messages, m.id = x → m.accountId = plan.accountId := by
      intro k hk hkid
      obtain ⟨haccount, hids⟩ := hown k (List.mem_cons_of_mem _ hk) hkid
      constructor
      · exact haccount
      · intro m hm hmid
        rcases (hrows m hmid).mp hm with rfl | ⟨hold, _⟩
        · exact (hown m List.mem_cons_self hmid).1
        · exact hids m hold hmid
    rw [ih hown₁ h, survivors, hrows r hid, untouched_cons]
    by_cases hlast : untouched plan ns n = true
    · rw [if_pos hlast, List.mem_cons]
      constructor
      · rintro (hs | ⟨rfl | ⟨hold, hfirst⟩, hrest⟩)
        · exact Or.inl (Or.inr hs)
        · exact Or.inl (Or.inl rfl)
        · exact Or.inr ⟨hold, by simp [hfirst, hrest]⟩
      · rintro ((rfl | hs) | ⟨hold, hboth⟩)
        · exact Or.inr ⟨Or.inl rfl, hlast⟩
        · exact Or.inl hs
        · simp only [Bool.and_eq_true, Bool.not_eq_true'] at hboth
          exact Or.inr ⟨Or.inr ⟨hold, hboth.1⟩, hboth.2⟩
    · rw [if_neg hlast]
      constructor
      · rintro (hs | ⟨rfl | ⟨hold, hfirst⟩, hrest⟩)
        · exact Or.inl hs
        · exact absurd hrest hlast
        · exact Or.inr ⟨hold, by simp [hfirst, hrest]⟩
      · rintro (hs | ⟨hold, hboth⟩)
        · exact Or.inl hs
        · simp only [Bool.and_eq_true, Bool.not_eq_true'] at hboth
          exact Or.inr ⟨Or.inr ⟨hold, hboth.1⟩, hboth.2⟩

theorem mem_storeAll (hown : OwnIds plan.accountId incoming db.messages)
    (h : db.storeAll plan incoming = .ok db') (r : Message) :
    r ∈ db'.messages ↔ r ∈ survivors plan incoming ∨
      (r ∈ db.messages ∧ untouched plan incoming r = true) := by
  apply mem_storeAll_of_id _ h rfl
  intro n hn hid
  obtain ⟨haccount, hids⟩ := hown n hn
  exact ⟨haccount, fun m hm hmid => hids m hm (hmid.trans hid.symm)⟩

def stale (plan : MailboxSyncPlan) (m : Message) : Bool :=
  m.accountId == plan.accountId && m.mailbox == plan.mailbox &&
    (plan.uidValidityChanged || plan.removedUids.any fun uid : ℕ => m.uid == (uid : ℤ))

variable {m : Message}

theorem mem_removeStale :
    m ∈ (db.removeStale plan).messages ↔ m ∈ db.messages ∧ stale plan m = false := by
  unfold Db.removeStale
  split_ifs with hreset
  · simp [Db.deleteMessages, stale, hreset]
  · have hfold : ∀ (uids : List ℤ) (db : Db),
        m ∈ (uids.foldl (fun db uid => db.deleteMessages fun m => m.accountId == plan.accountId &&
          m.mailbox == plan.mailbox && m.uid == uid) db).messages ↔
        m ∈ db.messages ∧ (m.accountId == plan.accountId && m.mailbox == plan.mailbox &&
          uids.any fun uid => m.uid == uid) = false := by
      intro uids
      induction uids with
      | nil => simp
      | cons uid uids ih =>
        intro db
        rw [List.foldl_cons, ih]
        simp only [Db.deleteMessages, mem_deleteWhere, List.any_cons]
        cases m.accountId == plan.accountId <;> cases m.mailbox == plan.mailbox <;>
          cases m.uid == uid <;> simp
    rw [hfold]
    simp [stale, Bool.eq_false_iff.mpr hreset]

def flagRow (plan : MailboxSyncPlan) (m : Message) : Message :=
  plan.flagUpdates.foldl (fun m flags =>
    if m.accountId == plan.accountId && m.mailbox == plan.mailbox && m.uid == flags.uid then
      { m with unread := flags.unread, flagged := flags.flagged }
    else m) m

theorem applyFlags_messages (db : Db) (plan : MailboxSyncPlan) :
    (db.applyFlags plan).messages = db.messages.map (flagRow plan) := by
  unfold Db.applyFlags flagRow
  dsimp only
  generalize plan.flagUpdates = updates
  generalize db.messages = messages
  induction updates generalizing messages with
  | nil => simp
  | cons flags updates ih =>
    rw [List.foldl_cons, ih, updateWhere, List.map_map]
    rfl

theorem flagRow_eq (plan : MailboxSyncPlan) (m : Message) :
    ∃ unread flagged, flagRow plan m = { m with unread := unread, flagged := flagged } := by
  unfold flagRow
  generalize plan.flagUpdates = updates
  induction updates generalizing m with
  | nil => exact ⟨m.unread, m.flagged, rfl⟩
  | cons flags updates ih =>
    rw [List.foldl_cons]
    obtain ⟨unread, flagged, heq⟩ := ih (if m.accountId == plan.accountId &&
      m.mailbox == plan.mailbox && m.uid == flags.uid then
        { m with unread := flags.unread, flagged := flags.flagged } else m)
    refine ⟨unread, flagged, heq.trans ?_⟩
    split_ifs <;> rfl

section

variable (plan : MailboxSyncPlan) (m : Message)

@[simp] theorem flagRow_id : (flagRow plan m).id = m.id := by
  obtain ⟨_, _, h⟩ := flagRow_eq plan m
  rw [h]

@[simp] theorem flagRow_accountId : (flagRow plan m).accountId = m.accountId := by
  obtain ⟨_, _, h⟩ := flagRow_eq plan m
  rw [h]

@[simp] theorem flagRow_mailbox : (flagRow plan m).mailbox = m.mailbox := by
  obtain ⟨_, _, h⟩ := flagRow_eq plan m
  rw [h]

@[simp] theorem flagRow_mailboxRole : (flagRow plan m).mailboxRole = m.mailboxRole := by
  obtain ⟨_, _, h⟩ := flagRow_eq plan m
  rw [h]

@[simp] theorem flagRow_uid : (flagRow plan m).uid = m.uid := by
  obtain ⟨_, _, h⟩ := flagRow_eq plan m
  rw [h]

@[simp] theorem flagRow_messageId : (flagRow plan m).messageId = m.messageId := by
  obtain ⟨_, _, h⟩ := flagRow_eq plan m
  rw [h]

@[simp] theorem flagRow_labels : (flagRow plan m).labels = m.labels := by
  obtain ⟨_, _, h⟩ := flagRow_eq plan m
  rw [h]

@[simp] theorem flagRow_snoozedUntil : (flagRow plan m).snoozedUntil = m.snoozedUntil := by
  obtain ⟨_, _, h⟩ := flagRow_eq plan m
  rw [h]

end

theorem flagRow_of_unnamed
    (h : ∀ flags ∈ plan.flagUpdates, (m.accountId == plan.accountId && m.mailbox == plan.mailbox &&
      m.uid == flags.uid) = false) : flagRow plan m = m := by
  unfold flagRow
  generalize plan.flagUpdates = updates at h
  induction updates with
  | nil => rfl
  | cons flags updates ih =>
    rw [List.foldl_cons, h flags List.mem_cons_self, if_neg Bool.false_ne_true]
    exact ih fun other hother => h other (List.mem_cons_of_mem _ hother)

theorem flagRow_of_other
    (h : (m.accountId == plan.accountId && m.mailbox == plan.mailbox) = false) :
    flagRow plan m = m := by
  apply flagRow_of_unnamed
  intro flags _
  rw [h, Bool.false_and]

def outdated (messages : List Message) (accountId : String) (m : Message) : Bool :=
  m.accountId == accountId && decide (cacheLimit ≤
    (messages.filter fun n => n.accountId == accountId && newerThan n m).length)

theorem mem_of_writePlan {completedAt : Time}
    (h : db.writePlan plan incoming completedAt = .ok db') (hr : r ∈ db'.messages) :
    ∃ s, r = flagRow plan s ∧ ((∃ n ∈ incoming, s = { n with accountId := s.accountId }) ∨
      (s ∈ db.messages ∧ stale plan s = false ∧ untouched plan incoming s = true)) := by
  obtain ⟨stored, hstore, rfl⟩ := writePlan_ok h
  obtain ⟨hkept, _⟩ := mem_deleteWhere.mp hr
  rw [applyFlags_messages] at hkept
  obtain ⟨s, hs, rfl⟩ := List.mem_map.mp hkept
  refine ⟨s, rfl, ?_⟩
  rcases mem_of_storeAll hstore hs with hnew | ⟨hold, hrest⟩
  · exact Or.inl hnew
  · obtain ⟨hmem, hstale⟩ := mem_removeStale.mp hold
    exact Or.inr ⟨hmem, hstale, hrest⟩

def storedRow (plan : MailboxSyncPlan) (messages incoming : List Message) (r : Message) : Prop :=
  ∃ s, r = flagRow plan s ∧ (s ∈ survivors plan incoming ∨
    (s ∈ messages ∧ stale plan s = false ∧ untouched plan incoming s = true))

theorem OwnIds.removeStale (hown : OwnIds plan.accountId incoming db.messages) :
    OwnIds plan.accountId incoming (db.removeStale plan).messages := by
  intro n hn
  obtain ⟨haccount, hids⟩ := hown n hn
  exact ⟨haccount, fun m hm hid => hids m (mem_removeStale.mp hm).1 hid⟩

theorem mem_applyFlags {stored : Db} (hown : OwnIds plan.accountId incoming db.messages)
    (hstore : (db.removeStale plan).storeAll plan incoming = .ok stored) (r : Message) :
    r ∈ (stored.applyFlags plan).messages ↔ storedRow plan db.messages incoming r := by
  rw [applyFlags_messages, List.mem_map]
  constructor
  · rintro ⟨s, hs, rfl⟩
    refine ⟨s, rfl, ?_⟩
    rcases (mem_storeAll hown.removeStale hstore s).mp hs with hnew | ⟨hold, hrest⟩
    · exact Or.inl hnew
    · obtain ⟨hmem, hstale⟩ := mem_removeStale.mp hold
      exact Or.inr ⟨hmem, hstale, hrest⟩
  · rintro ⟨s, rfl, hs⟩
    refine ⟨s, (mem_storeAll hown.removeStale hstore s).mpr ?_, rfl⟩
    rcases hs with hnew | ⟨hmem, hstale, hrest⟩
    · exact Or.inl hnew
    · exact Or.inr ⟨mem_removeStale.mpr ⟨hmem, hstale⟩, hrest⟩

end IMail
