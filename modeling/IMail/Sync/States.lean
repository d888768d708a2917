import IMail.Sync.WakeUp

/-!
# The mailbox states

The calls of a worker go through if the job of its handle is still running, and all of them
write the row of one mailbox.
-/

namespace IMail

open Relational Transition

section Upsert

variable {row s : MailboxSyncState} {merge : MailboxSyncState → MailboxSyncState}
  {states : List MailboxSyncState}

theorem mem_upsertStates (h : s ∈ upsertStates row merge states) :
    (s = row ∧ ∀ old ∈ states, sameMailbox row.accountId row.mailbox old = false) ∨
      (∃ old ∈ states, sameMailbox row.accountId row.mailbox old = true ∧ s = merge old) ∨
      (s ∈ states ∧ sameMailbox row.accountId row.mailbox s = false) := by
  unfold upsertStates at h
  split_ifs at h with hany
  · rcases mem_updateWhere.mp h with ⟨old, hold, hsame, rfl⟩ | hkept
    · exact Or.inr (Or.inl ⟨old, hold, hsame, rfl⟩)
    · exact Or.inr (Or.inr hkept)
  · have hfree : ∀ old ∈ states, sameMailbox row.accountId row.mailbox old = false := by
      intro old hold
      by_contra hne
      exact hany (List.any_eq_true.mpr ⟨old, hold, Bool.not_eq_false _ ▸ hne⟩)
    rcases List.mem_append.mp h with hmem | hmem
    · exact Or.inr (Or.inr ⟨hmem, hfree s hmem⟩)
    · exact Or.inl ⟨List.mem_singleton.mp hmem, hfree⟩

theorem mem_upsertStates_of_mem (hmem : s ∈ states)
    (hother : sameMailbox row.accountId row.mailbox s = false) :
    s ∈ upsertStates row merge states := by
  unfold upsertStates
  split_ifs
  · exact mem_updateWhere.mpr (Or.inr ⟨hmem, hother⟩)
  · exact List.mem_append_left _ hmem

theorem merge_mem_upsertStates (hmem : s ∈ states)
    (hsame : sameMailbox row.accountId row.mailbox s = true) :
    merge s ∈ upsertStates row merge states := by
  unfold upsertStates
  rw [if_pos (List.any_eq_true.mpr ⟨s, hmem, hsame⟩)]
  exact mem_updateWhere.mpr (Or.inl ⟨s, hmem, hsame, rfl⟩)

theorem exists_mem_upsertStates (row : MailboxSyncState)
    (merge : MailboxSyncState → MailboxSyncState) (states : List MailboxSyncState) :
    row ∈ upsertStates row merge states ∨
      ∃ old ∈ states, sameMailbox row.accountId row.mailbox old = true ∧
        merge old ∈ upsertStates row merge states := by
  unfold upsertStates
  split_ifs with hany
  · obtain ⟨old, hold, hsame⟩ := List.any_eq_true.mp hany
    exact Or.inr ⟨old, hold, hsame, mem_updateWhere.mpr (Or.inl ⟨old, hold, hsame, rfl⟩)⟩
  · exact Or.inl (List.mem_append_right _ List.mem_cons_self)

theorem mem_upsertStates_class {p : MailboxSyncState → Bool} (hrow : p row = false)
    (hhit : ∀ s ∈ states, p s = true → sameMailbox row.accountId row.mailbox s = false)
    (hmerge : ∀ s ∈ states, sameMailbox row.accountId row.mailbox s = true → p (merge s) = false)
    (hp : p s = true) : s ∈ upsertStates row merge states ↔ s ∈ states := by
  constructor
  · intro h
    rcases mem_upsertStates h with ⟨rfl, _⟩ | ⟨old, hold, hsame, rfl⟩ | ⟨hmem, _⟩
    · rw [hrow] at hp
      cases hp
    · rw [hmerge old hold hsame] at hp
      cases hp
    · exact hmem
  · intro h
    exact mem_upsertStates_of_mem h (hhit s h hp)

theorem find?_upsertStates (row : MailboxSyncState) (states : List MailboxSyncState)
    (hkey : ∀ s, (merge s).accountId = s.accountId ∧ (merge s).mailbox = s.mailbox) :
    ∃ s, (upsertStates row merge states).find? (sameMailbox row.accountId row.mailbox) = some s ∧
      (s = row ∨ ∃ old ∈ states, s = merge old) := by
  have hhit : ∃ s ∈ upsertStates row merge states,
      sameMailbox row.accountId row.mailbox s = true := by
    rcases exists_mem_upsertStates row merge states with
      hrow | ⟨old, _, hsame, hold⟩
    · exact ⟨row, hrow, by simp [sameMailbox]⟩
    · exact ⟨merge old, hold, by simpa [sameMailbox, hkey old] using hsame⟩
  obtain ⟨s, hs⟩ := Option.isSome_iff_exists.mp (List.find?_isSome.mpr hhit)
  refine ⟨s, hs, ?_⟩
  rcases mem_upsertStates (List.mem_of_find?_eq_some hs) with
    ⟨hrow, _⟩ | ⟨old, hold, _, heq⟩ | ⟨_, hnot⟩
  · exact Or.inl hrow
  · exact Or.inr ⟨old, hold, heq⟩
  · rw [List.find?_some hs] at hnot
    cases hnot

end Upsert

theorem Held.active {w : SyncWorld} {job : SyncJob} (h : Held w.db job) (hinv : HandleInv w)
    (hjob : job ∈ w.handles) :
    ∃ row ∈ w.db.syncJobs, row.status = .running ∧ row.id = job.id ∧ row.place = job.place := by
  obtain ⟨row, hmem, hheld⟩ := h
  obtain ⟨j, hj, hid, hplace⟩ := hinv.named job hjob
  obtain ⟨hrowid, hrun⟩ := heldBy_running hheld
  have heq : row = j := hinv.queue.id_inj hmem hj (hrowid.trans hid.symm)
  exact ⟨row, hmem, hrun, hrowid, heq ▸ hplace⟩

/-- A row with its update, as a call for a job of its account records them. -/
structure RecordsFor (job : SyncJob) (mailbox : String) (row : MailboxSyncState)
    (merge : MailboxSyncState → MailboxSyncState) : Prop where
  account : row.accountId = job.accountId
  mailbox_eq : row.mailbox = mailbox
  role : row.mailboxRole = job.mailboxRole
  merge_account : ∀ s, (merge s).accountId = s.accountId
  merge_mailbox : ∀ s, (merge s).mailbox = s.mailbox
  merge_role : ∀ s, (merge s).mailboxRole = s.mailboxRole ∨
    (merge s).mailboxRole = job.mailboxRole

theorem recordsFor_started (job : SyncJob) (mailbox : String) (now : Time) :
    RecordsFor job mailbox (startedRow job mailbox now) (startedMerge job now) :=
  ⟨rfl, rfl, rfl, fun _ => rfl, fun _ => rfl, fun _ => Or.inr rfl⟩

theorem recordsFor_completed (job : SyncJob) (result : SyncCompletion) (next now : Time) :
    RecordsFor job result.mailbox (completedRow job result next now)
      (completedMerge job result next now) :=
  ⟨rfl, rfl, rfl, fun _ => rfl, fun _ => rfl, fun _ => Or.inr rfl⟩

theorem recordsFor_failed (job : SyncJob) (failure : SyncFailure) (now : Time) :
    RecordsFor job failure.mailbox (failedRow job failure now) (failedMerge failure now) :=
  ⟨rfl, rfl, rfl, fun _ => rfl, fun _ => rfl, fun _ => Or.inl rfl⟩

theorem recordsFor_cancelled (job : SyncJob) (mailbox : String) :
    RecordsFor job mailbox (cancelledRow job mailbox) cancelledMerge :=
  ⟨rfl, rfl, rfl, fun _ => rfl, fun _ => rfl, fun _ => Or.inl rfl⟩

def SyncTarget.place (accountId : String) (target : SyncTarget) :
    String × Option String × String :=
  (accountId, target.requestedMailbox, target.mailboxRole)

/-- The index entry of the jobs of a target. -/
def SyncTarget.key (accountId : String) (target : SyncTarget) : String × String × String :=
  (accountId, target.requestedMailbox.getD "", target.mailboxRole)

def SyncTarget.rowOf (accountId : String) (target : SyncTarget) (s : MailboxSyncState) : Bool :=
  forTarget accountId target.requestedMailbox target.mailboxRole s

theorem SyncTarget.rowOf_account {accountId : String} {target : SyncTarget}
    {s : MailboxSyncState} (h : target.rowOf accountId s = true) : s.accountId = accountId := by
  simp only [SyncTarget.rowOf, forTarget, Bool.and_eq_true, beq_iff_eq] at h
  exact h.1

theorem SyncTarget.Canonical.eq_of_key {t u : SyncTarget} (ht : t.Canonical) (hu : u.Canonical)
    {a b : String} (h : t.key a = u.key b) : a = b ∧ t = u := by
  obtain ⟨role, mailbox⟩ := t
  obtain ⟨role', mailbox'⟩ := u
  simp only [SyncTarget.key, Prod.mk.injEq] at h
  obtain ⟨rfl, hmailbox, rfl⟩ := h
  have hsome : mailbox.isSome = mailbox'.isSome := Bool.eq_iff_iff.mpr (ht.trans hu.symm)
  cases mailbox <;> cases mailbox' <;> simp_all

end IMail
