import IMail.Sync.Rounds

/-!
# No gap in incremental sync

A round goes on after the largest UID that it knows of its mailbox. If what it takes for such a
UID is one, no message that came after the first round is passed over. UIDs of other mailboxes
get among them with messages that users move, which keep their old UID, and with the messages and
cursors of another mailbox of the same role.
-/

namespace IMail

open Relational Transition Imap

def roundsOf (mailbox : String) (rounds : List CompletedRound) : List CompletedRound :=
  rounds.filter fun r => r.mailbox == mailbox

def examinedIn (mailbox : String) (rounds : List CompletedRound) : List ℕ :=
  (roundsOf mailbox rounds).flatMap (·.examined)

/-- What the mailbox had when the round selected it, above the cursor that its first round
recorded, has been returned or deliberately left out; and the round went on from no UID above
those that earlier rounds looked at. -/
structure Covered (mailbox : String) (earlier : List CompletedRound) (r : CompletedRound) : Prop where
  returned : ∀ first, (roundsOf mailbox (earlier ++ [r])).head? = some first →
    ∀ uid ∈ r.present, first.lastSeenUid < (uid : ℤ) →
      ∃ r' ∈ roundsOf mailbox (earlier ++ [r]), uid ∈ r'.returned ∨ uid ∈ r'.filtered
  start : r.start ≤ maxUid (examinedIn mailbox earlier)

def AtEachRound (P : List CompletedRound → CompletedRound → Prop) (rounds : List CompletedRound) :
    Prop :=
  ∀ earlier r later, rounds = earlier ++ r :: later → P earlier r

section

variable {P : List CompletedRound → CompletedRound → Prop}

theorem atEachRound_nil : AtEachRound P [] := by
  intro earlier r later heq
  simp at heq

theorem atEachRound_append {rounds : List CompletedRound} {r : CompletedRound}
    (h : AtEachRound P rounds) (hr : P rounds r) : AtEachRound P (rounds ++ [r]) := by
  intro earlier r' later heq
  rcases List.eq_nil_or_concat later with rfl | ⟨init, last, rfl⟩
  · obtain ⟨rfl, hlast⟩ := List.append_inj' heq rfl
    cases hlast
    exact hr
  · rw [List.concat_eq_append, ← List.cons_append, ← List.append_assoc] at heq
    obtain ⟨heq, _⟩ := List.append_inj' heq rfl
    exact h earlier r' init heq

end

def NoGap (mailbox : String) (rounds : List CompletedRound) : Prop :=
  AtEachRound (fun earlier r => r.mailbox = mailbox → Covered mailbox earlier r) rounds

variable {mailbox : String} {rounds : List CompletedRound} {r : CompletedRound}

theorem roundsOf_append_other (h : r.mailbox ≠ mailbox) :
    roundsOf mailbox (rounds ++ [r]) = roundsOf mailbox rounds := by
  simp [roundsOf, List.filter_append, h]

theorem roundsOf_append_self (h : r.mailbox = mailbox) :
    roundsOf mailbox (rounds ++ [r]) = roundsOf mailbox rounds ++ [r] := by
  simp [roundsOf, List.filter_append, h]

theorem examinedIn_append (h : r.mailbox = mailbox) :
    examinedIn mailbox (rounds ++ [r]) = examinedIn mailbox rounds ++ r.examined := by
  simp [examinedIn, roundsOf_append_self h]

section

variable [Platform] [MailParser]

/-- Messages are only added to the mailbox, also while a round runs. -/
def OnlyGrows (endpoint : Endpoint) (mailbox : String) (w : RoundWorld) : RoundOp → Prop
  | .round _ _ during => ∀ i,
    ((moments (w.servers endpoint) during i).box mailbox).Grows
      ((moments (w.servers endpoint) during (i + 1)).box mailbox)
  | op => ((w.servers endpoint).box mailbox).Grows (((w.step op).servers endpoint).box mailbox)

omit [Platform] [MailParser] in
instance {_ : Platform} {_ : MailParser} (endpoint : Endpoint) (mailbox : String)
    (w : RoundWorld) : (op : RoundOp) → Decidable (OnlyGrows endpoint mailbox w op)
  | .round _ _ during => decidable_of_iff _ (forall_lt_iff (n := during.length) fun i hi => by
    rw [moments_of_length_le hi, moments_of_length_le (Nat.le_succ_of_le hi)]
    exact .refl _)
  | .move .. | .server .. | .other .. => inferInstanceAs (Decidable (UidMailbox.Grows _ _))

def StartsAfresh (server : ServerMailbox) (request : RemoteSyncRequest) : Prop :=
  changedUidValidity request.cursor (server.uidValidity.map toString) = true ∨
    request.cursor.lastSeenUid ≤ 0 ∧ ∀ uid ∈ request.cachedUids, uid = 0

instance (server : ServerMailbox) (request : RemoteSyncRequest) :
    Decidable (StartsAfresh server request) := inferInstanceAs (Decidable (_ ∨ _ ∧ _))

/-- A round of the mailbox: it has its role, the server tells its next UID, and if the round has
nothing to go on from though there were rounds before, there are at most 80 messages. -/
def OwnRoundSafe (mailbox role : String) (w : RoundWorld) (job : SyncJob) (selected : MailServer)
    (folder : SyncMailboxFolder) : Prop :=
  mailboxRoleFor folder.path folder.specialUse = role ∧ selected.reportsUidNext = true ∧
    (roundsOf mailbox w.rounds ≠ [] → ∀ request ∈ requestFor w.db job,
      StartsAfresh (selected.mailboxes mailbox) request → (selected.box mailbox).uids.length ≤ 80)

instance (mailbox role : String) (w : RoundWorld) (job : SyncJob) (selected : MailServer)
    (folder : SyncMailboxFolder) : Decidable (OwnRoundSafe mailbox role w job selected folder) :=
  inferInstanceAs (Decidable (_ ∧ _ ∧ (_ → ∀ request ∈ requestFor w.db job, _)))

def PassedUid (mailbox : String) (w : RoundWorld) (uid : ℤ) : Prop :=
  ∃ t ∈ w.db.mailboxSyncStates, (t.accountId = w.accountId ∧ t.mailbox = mailbox) ∧
    uid ≤ t.lastSeenUid

instance (mailbox : String) (w : RoundWorld) (uid : ℤ) : Decidable (PassedUid mailbox w uid) :=
  inferInstanceAs (Decidable (∃ t ∈ w.db.mailboxSyncStates, _))

/-- UIDs of other mailboxes do not get among those of the mailbox: a round of another mailbox is
of another role, and a message of the account that is moved to the mailbox or its role has a UID
that the cursor of the mailbox has passed. -/
def KeepsApart (endpoint : Endpoint) (mailbox role : String) (w : RoundWorld) : RoundOp → Prop
  | .round job _ during =>
    ∀ folder ∈ (resolveSyncMailbox (w.servers endpoint).folders job.syncTarget).toOption,
      if folder.path = mailbox then
        OwnRoundSafe mailbox role w job (moments (w.servers endpoint) during 1) folder
      else mailboxRoleFor folder.path folder.specialUse ≠ role ∧ job.mailboxRole ≠ role
  | .move env owner messageId destination _ _ =>
    ∀ m ∈ w.db.ownedMessage owner messageId,
      ∀ remote ∈ (remoteMessage env w.db owner messageId).toOption,
        ∀ target ∈ (moveTarget destination (w.servers remote.1.endpoint).listMailboxes).toOption,
          m.accountId = w.accountId ∧ (target.path = mailbox ∨ destination.role = role) →
            PassedUid mailbox w m.uid
  | .server .. | .other .. => True

omit [Platform] [MailParser] in
instance {_ : Platform} (endpoint : Endpoint) (mailbox role : String) (w : RoundWorld) :
    (op : RoundOp) → Decidable (KeepsApart endpoint mailbox role w op)
  | .round .. => inferInstanceAs (Decidable (∀ folder ∈ (_ : Option SyncMailboxFolder),
      if folder.path = mailbox then _ else _))
  | .move .. => inferInstanceAs (Decidable (∀ m ∈ (_ : Option _), ∀ remote ∈ (_ : Option _),
      ∀ target ∈ (_ : Option _), _ → PassedUid _ _ _))
  | .server .. | .other .. => isTrue trivial

/-- What is cached for the mailbox and its cursors are below what rounds have looked at, and all
that is below has been dealt with. -/
structure Tracked (endpoint : Endpoint) (mailbox role : String) (w : RoundWorld) : Prop where
  ids : UniqueBy (fun m => some m.id) w.db.messages
  connects : w.db.endpointOf w.accountId = some endpoint
  rows : ∀ r ∈ w.db.messages, r.accountId = w.accountId →
    r.mailbox = mailbox ∨ r.mailboxRole = role → r.uid ≤ maxUid (examinedIn mailbox w.rounds)
  cursors : ∀ t ∈ w.db.mailboxSyncStates, t.accountId = w.accountId →
    t.mailbox = mailbox ∨ t.mailboxRole = role →
      t.lastSeenUid ≤ maxUid (examinedIn mailbox w.rounds)
  seen : ∀ first, (roundsOf mailbox w.rounds).head? = some first →
    ∀ uid ∈ ((w.servers endpoint).box mailbox).uids, first.lastSeenUid < (uid : ℤ) →
      uid ≤ maxUid (examinedIn mailbox w.rounds) →
        ∃ r ∈ roundsOf mailbox w.rounds, uid ∈ r.returned ∨ uid ∈ r.filtered
  old : ∀ uid ∈ examinedIn mailbox w.rounds, uid < ((w.servers endpoint).box mailbox).uidNext
  noGap : NoGap mailbox w.rounds

variable {endpoint : Endpoint} {mailbox role : String} {w w' : RoundWorld}

section

variable (h : Tracked endpoint mailbox role w)
include h

omit [Platform] [MailParser] in
theorem Tracked.lt_uidNext {uid : ℕ} (huid : uid ≤ maxUid (examinedIn mailbox w.rounds)) :
    uid < ((w.servers endpoint).box mailbox).uidNext := by
  have hpos := ((w.servers endpoint).box mailbox).positive
  have hmax : maxUid (examinedIn mailbox w.rounds) ≤
      ((w.servers endpoint).box mailbox).uidNext - 1 := by
    apply maxUid_le.mpr
    intro other hother
    have hlt := h.old other hother
    omega
  omega

omit [Platform] [MailParser] in
theorem Tracked.seen_later {box : UidMailbox ServerMessage}
    (hgrows : ((w.servers endpoint).box mailbox).Grows box)
    {first : CompletedRound} (hfirst : (roundsOf mailbox w.rounds).head? = some first) {uid : ℕ}
    (huid : uid ∈ box.uids) (habove : first.lastSeenUid < (uid : ℤ))
    (hbelow : uid ≤ maxUid (examinedIn mailbox w.rounds)) :
    ∃ r ∈ roundsOf mailbox w.rounds, uid ∈ r.returned ∨ uid ∈ r.filtered := by
  have hlive := hgrows.old uid (h.lt_uidNext hbelow) (UidMailbox.mem_uids.mp huid)
  exact h.seen first hfirst uid (UidMailbox.mem_uids.mpr hlive) habove hbelow

omit [Platform] [MailParser] in
theorem Tracked.of_same_rounds (hids : UniqueBy (fun m => some m.id) w'.db.messages)
    (hconnects : w'.db.endpointOf w'.accountId = some endpoint)
    (hrounds : roundsOf mailbox w'.rounds = roundsOf mailbox w.rounds)
    (hnoGap : NoGap mailbox w'.rounds)
    (hgrows : ((w.servers endpoint).box mailbox).Grows ((w'.servers endpoint).box mailbox))
    (hrows : ∀ r ∈ w'.db.messages, r.accountId = w'.accountId →
      r.mailbox = mailbox ∨ r.mailboxRole = role → r.uid ≤ maxUid (examinedIn mailbox w.rounds))
    (hcursors : ∀ t ∈ w'.db.mailboxSyncStates, t.accountId = w'.accountId →
      t.mailbox = mailbox ∨ t.mailboxRole = role →
        t.lastSeenUid ≤ maxUid (examinedIn mailbox w.rounds)) :
    Tracked endpoint mailbox role w' := by
  have hexamined : examinedIn mailbox w'.rounds = examinedIn mailbox w.rounds := by
    rw [examinedIn, hrounds, examinedIn]
  constructor
  · exact hids
  · exact hconnects
  · rw [hexamined]
    exact hrows
  · rw [hexamined]
    exact hcursors
  · rw [hrounds, hexamined]
    intro first hfirst uid huid habove hbelow
    exact h.seen_later hgrows hfirst huid habove hbelow
  · rw [hexamined]
    intro uid huid
    exact (h.old uid huid).trans_le hgrows.uidNext_le
  · exact hnoGap

variable {moment : ℕ → MailServer} {job : SyncJob} {request : RemoteSyncRequest} {s : Selection}
  {plan : MailboxSyncPlan} (heffect : RoundEffect w w' moment job request s plan)
include heffect

omit [MailParser] in
theorem Tracked.start_le (hmailbox : s.folder.path = mailbox)
    (hrole : s.role = role) : s.incrementalUid ≤ maxUid (examinedIn mailbox w.rounds) := by
  obtain ⟨_, _, _, hcursor, _⟩ := requestFor_some heffect.asked
  have hcached : maxUid request.cachedUids ≤ maxUid (examinedIn mailbox w.rounds) := by
    apply maxUid_le.mpr
    intro uid huid
    obtain ⟨r, hr, htarget, heq⟩ := exists_cached_row heffect.asked huid
    obtain ⟨haccount, hplace⟩ := heffect.cached_own htarget
    rw [hmailbox, hrole] at hplace
    have hle := h.rows r hr haccount hplace
    omega
  have hlast : (max request.cursor.lastSeenUid 0).toNat ≤ maxUid (examinedIn mailbox w.rounds) := by
    rw [hcursor]
    rcases cursorFor_cases w.db job with hnone | ⟨t, ht, _, htarget, hstate⟩
    · rw [hnone]
      exact Nat.zero_le _
    · obtain ⟨haccount, hplace⟩ := heffect.state_own htarget
      rw [hmailbox, hrole] at hplace
      have hle := h.cursors t ht haccount hplace
      rw [hstate]
      change (max t.lastSeenUid 0).toNat ≤ _
      omega
  rw [(selectMailbox_ok heffect.selected).start]
  split_ifs
  · exact Nat.zero_le _
  · exact max_le hcached hlast

omit [MailParser] in
theorem Tracked.round_other (hmailbox : s.folder.path ≠ mailbox)
    (hrole : s.role ≠ role) (hjob : job.mailboxRole ≠ role)
    (hids : UniqueBy (fun m => some m.id) w'.db.messages)
    (haccount : w'.accountId = w.accountId)
    (hconnects : w'.db.endpointOf w'.accountId = some endpoint)
    (hgrows : ((w.servers endpoint).box mailbox).Grows ((w'.servers endpoint).box mailbox)) :
    Tracked endpoint mailbox role w' := by
  apply h.of_same_rounds hids hconnects _ _ hgrows
  · intro r hr hown hplace
    rw [haccount] at hown
    obtain ⟨o, rfl, hfrom⟩ := heffect.rows r hr
    simp only [flagRow_accountId, flagRow_mailbox, flagRow_mailboxRole, flagRow_uid]
      at hown hplace ⊢
    rcases hfrom with ⟨f, _, hpath, hfrole, _⟩ | ⟨hold, _⟩
    · rcases hplace with hsame | hsame
      · exact absurd (hpath.symm.trans hsame) hmailbox
      · exact absurd (hfrole.symm.trans hsame) hrole
    · exact h.rows o hold hown hplace
  · intro t ht hown hplace
    rw [haccount] at hown
    rcases heffect.states t ht with ⟨hpath, htrole, _⟩ | ⟨hold, _⟩
    · rcases hplace with hsame | hsame
      · exact absurd (hpath.symm.trans hsame) hmailbox
      · exact absurd (htrole.symm.trans hsame) hjob
    · exact h.cursors t hold hown hplace
  · rw [heffect.rounds]
    exact roundsOf_append_other hmailbox
  · rw [heffect.rounds]
    exact atEachRound_append h.noGap fun hsame => absurd hsame hmailbox

end

section

variable {moment : ℕ → MailServer} {job : SyncJob} {request : RemoteSyncRequest} {s : Selection}
  {plan : MailboxSyncPlan}

/-- A round of the mailbox, with the server as it is assumed to be. -/
structure OwnRound (endpoint : Endpoint) (mailbox role : String) (w w' : RoundWorld)
    (moment : ℕ → MailServer) (job : SyncJob) (request : RemoteSyncRequest) (s : Selection)
    (plan : MailboxSyncPlan) : Prop where
  effect : RoundEffect w w' moment job request s plan
  path : s.folder.path = mailbox
  role : s.role = role
  before : moment 0 = w.servers endpoint
  grows : ∀ i j, i ≤ j → ((moment i).box mailbox).Grows ((moment j).box mailbox)
  after : ∀ i, ((moment i).box mailbox).Grows ((w'.servers endpoint).box mailbox)
  uidNext : (moment 1).reportsUidNext = true
  window : roundsOf mailbox w.rounds ≠ [] → s.incrementalUid = 0 → s.messages ≤ 80

omit [MailParser]

variable {uid : ℕ} (hround : OwnRound endpoint mailbox role w w' moment job request s plan)
include hround

theorem OwnRound.present : (s.completed moment request).present = ((moment 1).box mailbox).uids := by
  rw [← hround.path]
  rfl

theorem OwnRound.examined :
    (s.completed moment request).examined = s.range ((moment 2).box mailbox) := by
  rw [← hround.path]
  rfl

theorem OwnRound.fetches (huid : uid ∈ ((moment 1).box mailbox).uids)
    (hstart : s.incrementalUid < uid) : s.Fetches := by
  apply (selectMailbox_ok hround.effect.selected).fetches hround.uidNext _ hstart
  rw [hround.path]
  exact huid

variable (h : Tracked endpoint mailbox role w)
include h

theorem OwnRound.first (hfirst : roundsOf mailbox w.rounds = [])
    (hfetches : s.Fetches) (huid : uid ∈ ((moment 2).box mailbox).uids) :
    (uid : ℤ) ≤ (s.completed moment request).lastSeenUid := by
  have hstart : s.incrementalUid = 0 := by
    have hle := h.start_le hround.effect hround.path hround.role
    simp only [examinedIn, hfirst, List.flatMap_nil] at hle
    exact Nat.le_zero.mp hle
  rw [← hround.path] at huid
  obtain ⟨last, hlast, hle⟩ := exists_ge_of_range hfetches hstart huid
  have hseen := (batch_lastSeenUid s moment request).2.1 last hlast
  change (uid : ℤ) ≤ (s.batch moment request).lastSeenUid
  omega

theorem OwnRound.later (hlater : roundsOf mailbox w.rounds ≠ [])
    (hfetches : s.Fetches) (huid : uid ∈ ((moment 2).box mailbox).uids)
    (habove : maxUid (examinedIn mailbox w.rounds) < uid) :
    uid ∈ (s.completed moment request).returned ∨ uid ∈ (s.completed moment request).filtered := by
  apply s.returned_or_filtered
  rw [hround.examined]
  have hstart := h.start_le hround.effect hround.path hround.role
  exact mem_range hfetches (hround.window hlater) huid (by omega)

theorem OwnRound.covered : Covered mailbox w.rounds (s.completed moment request) := by
  have hown : (s.completed moment request).mailbox = mailbox := hround.path
  constructor
  · rw [roundsOf_append_self hown, hround.present]
    intro first hfirst uid huid habove
    have hfetched := UidMailbox.mem_uids.mpr
      ((hround.grows 1 2 (by omega)).kept uid (UidMailbox.mem_uids.mp huid))
    by_cases hnone : roundsOf mailbox w.rounds = []
    · -- The first round leaves nothing above its cursor.
      rw [hnone] at hfirst
      cases hfirst
      have hstart := h.start_le hround.effect hround.path hround.role
      have hpos := UidMailbox.pos_of_mem_uids huid
      simp only [examinedIn, hnone, List.flatMap_nil, maxUid, List.foldl_nil] at hstart
      have hfetches := hround.fetches huid (by omega)
      have hle := hround.first h hnone hfetches hfetched
      omega
    · rw [List.head?_append_of_ne_nil _ hnone] at hfirst
      by_cases hbelow : uid ≤ maxUid (examinedIn mailbox w.rounds)
      · have hgrows := hround.grows 0 1 (by omega)
        rw [hround.before] at hgrows
        obtain ⟨r, hr, hseen⟩ := h.seen_later hgrows hfirst huid habove hbelow
        exact ⟨r, List.mem_append_left _ hr, hseen⟩
      · have hstart := h.start_le hround.effect hround.path hround.role
        have hfetches := hround.fetches huid (by omega)
        refine ⟨_, List.mem_append_right _ (List.mem_singleton_self _), ?_⟩
        exact hround.later h hnone hfetches hfetched (by omega)
  · exact h.start_le hround.effect hround.path hround.role

theorem OwnRound.seen {first : CompletedRound}
    (hfirst : (roundsOf mailbox w.rounds ++ [s.completed moment request]).head? = some first)
    (huid : uid ∈ ((w'.servers endpoint).box mailbox).uids)
    (habove : first.lastSeenUid < (uid : ℤ))
    (hbelow : uid ≤ maxUid (examinedIn mailbox w.rounds ++ (s.completed moment request).examined)) :
    ∃ r ∈ roundsOf mailbox w.rounds ++ [s.completed moment request],
      uid ∈ r.returned ∨ uid ∈ r.filtered := by
  by_cases hold : uid ≤ maxUid (examinedIn mailbox w.rounds)
  · by_cases hnone : roundsOf mailbox w.rounds = []
    · have hpos := UidMailbox.pos_of_mem_uids huid
      simp only [examinedIn, hnone, List.flatMap_nil, maxUid, List.foldl_nil] at hold
      omega
    · rw [List.head?_append_of_ne_nil _ hnone] at hfirst
      have hgrows := hround.after 0
      rw [hround.before] at hgrows
      obtain ⟨r, hr, hseen⟩ := h.seen_later hgrows hfirst huid habove hold
      exact ⟨r, List.mem_append_left _ hr, hseen⟩
  · -- This round has looked at a UID that is not below.
    obtain ⟨top, htop, hle⟩ : ∃ top ∈ (s.completed moment request).examined, uid ≤ top := by
      by_contra hall
      push Not at hall
      have hless : maxUid (examinedIn mailbox w.rounds ++ (s.completed moment request).examined) ≤
          uid - 1 := by
        apply maxUid_le.mpr
        intro other hother
        rcases List.mem_append.mp hother with hearlier | hnow
        · have hmax := le_maxUid hearlier
          omega
        · have hlt := hall other hnow
          omega
      have hpos := UidMailbox.pos_of_mem_uids huid
      omega
    rw [hround.examined] at htop
    have hlt := UidMailbox.lt_of_mem_uids (uids_of_range htop)
    have hlive := (hround.after 2).old uid (by omega) (UidMailbox.mem_uids.mp huid)
    have hfetched := UidMailbox.mem_uids.mpr hlive
    have hfetches := fetches_of_range htop
    by_cases hnone : roundsOf mailbox w.rounds = []
    · rw [hnone] at hfirst
      cases hfirst
      have hseen := hround.first h hnone hfetches hfetched
      omega
    · refine ⟨_, List.mem_append_right _ (List.mem_singleton_self _), ?_⟩
      exact hround.later h hnone hfetches hfetched (by omega)

theorem OwnRound.tracked
    (hids : UniqueBy (fun m => some m.id) w'.db.messages) (haccount : w'.accountId = w.accountId)
    (hconnects : w'.db.endpointOf w'.accountId = some endpoint) :
    Tracked endpoint mailbox role w' := by
  have hown : (s.completed moment request).mailbox = mailbox := hround.path
  have hgrown : maxUid (examinedIn mailbox w.rounds) ≤
      maxUid (examinedIn mailbox w.rounds ++ (s.completed moment request).examined) := by
    apply maxUid_le.mpr
    intro uid huid
    exact le_maxUid (List.mem_append_left _ huid)
  have hrange : ∀ uid ∈ s.range ((moment 2).box s.folder.path),
      uid ≤ maxUid (examinedIn mailbox w.rounds ++ (s.completed moment request).examined) := by
    intro uid huid
    exact le_maxUid (List.mem_append_right _ huid)
  constructor
  · exact hids
  · exact hconnects
  · rw [hround.effect.rounds, examinedIn_append hown]
    intro r hr hraccount hplace
    rw [haccount] at hraccount
    obtain ⟨o, rfl, hfrom⟩ := hround.effect.rows r hr
    simp only [flagRow_accountId, flagRow_mailbox, flagRow_mailboxRole, flagRow_uid]
      at hraccount hplace ⊢
    rcases hfrom with ⟨f, hf, _, _, huid, _⟩ | ⟨hold, _⟩
    · obtain ⟨_, hfetched, _⟩ := mem_batch_incoming.mp hf
      have hle := hrange f.uid hfetched
      omega
    · have hle := h.rows o hold hraccount hplace
      omega
  · rw [hround.effect.rounds, examinedIn_append hown]
    intro t ht htaccount hplace
    rw [haccount] at htaccount
    rcases hround.effect.states t ht with ⟨_, _, hcursor⟩ | ⟨hold, _⟩
    · have hlast : t.lastSeenUid = (s.batch moment request).lastSeenUid :=
        congrArg SyncCursor.lastSeenUid hcursor
      have hstart := h.start_le hround.effect hround.path hround.role
      rcases (batch_lastSeenUid s moment request).2.2 with hsame | ⟨uid, huid, hsame⟩
      · omega
      · have hle := hrange uid huid
        omega
    · have hle := h.cursors t hold htaccount hplace
      omega
  · rw [hround.effect.rounds, roundsOf_append_self hown, examinedIn_append hown]
    intro first hfirst uid huid habove hbelow
    exact hround.seen h hfirst huid habove hbelow
  · rw [hround.effect.rounds, examinedIn_append hown]
    intro uid huid
    rcases List.mem_append.mp huid with hold | hnew
    · have hgrows := (hround.after 0).uidNext_le
      rw [hround.before] at hgrows
      exact (h.old uid hold).trans_le hgrows
    · rw [hround.examined] at hnew
      exact (UidMailbox.lt_of_mem_uids (uids_of_range hnew)).trans_le (hround.after 2).uidNext_le
  · rw [hround.effect.rounds]
    exact atEachRound_append h.noGap fun _ => hround.covered h

end

section

variable (h : Tracked endpoint mailbox role w)
include h

theorem Tracked.round (job : SyncJob) (args : RoundArgs)
    (during : List MailServer) (hgrows : OnlyGrows endpoint mailbox w (.round job args during))
    (hapart : KeepsApart endpoint mailbox role w (.round job args during)) :
    Tracked endpoint mailbox role (w.step (.round job args during)) := by
  rcases w.step_round job args during with
    hsame | ⟨other, hother, hservers, ⟨request, s, plan, heffect⟩, hends, hkept⟩
  · rw [hsame]
    exact h
  obtain rfl : other = endpoint := Option.some.inj (hother.symm.trans h.connects)
  have hids := hkept h.ids
  have hconnects : (w.step (.round job args during)).db.endpointOf
      (w.step (.round job args during)).accountId = some other := by
    rw [w.step_accountId, hends.endpoints]
    exact h.connects
  have hall : ∀ i j, i ≤ j → ((moments (w.servers other) during i).box mailbox).Grows
      ((moments (w.servers other) during j).box mailbox) := fun i j hij =>
    moments_chain (R := fun a b => (a.box mailbox).Grows (b.box mailbox)) (fun _ => .refl _)
      (fun _ _ _ hab hbc => hab.trans hbc) hgrows hij
  have hend : ∀ i, ((moments (w.servers other) during i).box mailbox).Grows
      (((w.step (.round job args during)).servers other).box mailbox) := by
    intro i
    rw [hservers, Function.update_self]
    exact moments_chain_end (R := fun a b => (a.box mailbox).Grows (b.box mailbox))
      (fun _ => .refl _) (fun _ _ _ hab hbc => hab.trans hbc) hgrows i
  have hselected := selectMailbox_ok heffect.selected
  have htarget := (requestFor_some heffect.asked).choose_spec.2.1
  have hresolved := hselected.resolved
  rw [htarget] at hresolved
  have hfolder := hapart s.folder (by
    rw [show resolveSyncMailbox (w.servers other).folders job.syncTarget = .ok s.folder
      from hresolved]
    rfl)
  by_cases hpath : s.folder.path = mailbox
  · rw [if_pos hpath] at hfolder
    obtain ⟨hrole, hnext, hwindow⟩ := hfolder
    rw [← hselected.role] at hrole
    have hround : OwnRound other mailbox role w (w.step (.round job args during))
        (moments (w.servers other) during) job request s plan := by
      refine ⟨heffect, hpath, hrole, rfl, hall, hend, hnext, ?_⟩
      intro hlater hstart
      rw [hselected.messages, hpath]
      apply hwindow hlater request heffect.asked
      rw [hselected.start, hselected.changed, hpath] at hstart
      split_ifs at hstart with hchanged
      · exact Or.inl hchanged
      · right
        constructor
        · omega
        · intro uid huid
          have hle := le_maxUid huid
          omega
    exact hround.tracked h hids (w.step_accountId _) hconnects
  · rw [if_neg hpath, ← hselected.role] at hfolder
    exact h.round_other heffect hpath hfolder.1 hfolder.2 hids (w.step_accountId _) hconnects
      (hend 0)

theorem Tracked.move (env : ImapEnvironment)
    (owner messageId : String) (destination : MessageMoveDestination) (skip : ℕ) (cut : Cut)
    (hgrows : OnlyGrows endpoint mailbox w (.move env owner messageId destination skip cut))
    (hapart : KeepsApart endpoint mailbox role w (.move env owner messageId destination skip cut)) :
    Tracked endpoint mailbox role (w.step (.move env owner messageId destination skip cut)) := by
  have hids := RoundWorld.step_ids h.ids (.move env owner messageId destination skip cut)
  have hends := w.step_endpoint (.move env owner messageId destination skip cut)
  obtain ⟨messages, sources, hdb⟩ := w.step_move_frame env owner messageId destination skip cut
  apply h.of_same_rounds hids (hends.trans h.connects) rfl h.noGap hgrows
  · intro r hr haccount hplace
    rcases w.step_move h.ids env owner messageId destination skip cut hr with
      hold | ⟨m, remote, target, hm, hremote, htarget, hown, hpath, hrole, huid⟩
    · exact h.rows r hold haccount hplace
    · rw [hpath, hrole] at hplace
      obtain ⟨t, ht, ⟨htaccount, htmailbox⟩, hle⟩ := hapart m hm remote (by rw [hremote]; rfl)
        target (by rw [htarget]; rfl) ⟨hown.symm.trans haccount, hplace⟩
      have hcursor := h.cursors t ht htaccount (Or.inl htmailbox)
      omega
  · rw [hdb]
    exact h.cursors

theorem Tracked.step (op : RoundOp)
    (hgrows : OnlyGrows endpoint mailbox w op) (hapart : KeepsApart endpoint mailbox role w op) :
    Tracked endpoint mailbox role (w.step op) := by
  cases op with
  | round job args during => exact h.round job args during hgrows hapart
  | move env owner messageId destination skip cut =>
    exact h.move env owner messageId destination skip cut hgrows hapart
  | server other server =>
    exact h.of_same_rounds h.ids h.connects rfl h.noGap hgrows h.rows h.cursors
  | other db ids =>
    simp only [RoundWorld.step]
    split_ifs with hforgets
    · obtain ⟨hrows, hstates, hends⟩ := hforgets
      refine h.of_same_rounds ids (hends.trans h.connects) rfl h.noGap (.refl _) ?_ ?_
      · intro r hr haccount hplace
        obtain ⟨o, ho, heq⟩ := List.mem_map.mp (hrows r hr haccount)
        simp only [Message.place, Prod.mk.injEq] at heq
        obtain ⟨hoaccount, homailbox, horole, houid, _⟩ := heq
        rw [← houid]
        rw [← homailbox, ← horole] at hplace
        exact h.rows o ho (hoaccount.trans haccount) hplace
      · intro t ht haccount hplace
        rcases hstates t ht haccount with hblank | hentry
        · have hzero : t.lastSeenUid = 0 := congrArg SyncCursor.lastSeenUid hblank
          omega
        · obtain ⟨o, ho, heq⟩ := List.mem_map.mp hentry
          simp only [MailboxSyncState.entry, Prod.mk.injEq] at heq
          obtain ⟨hoaccount, homailbox, horole, hcursor⟩ := heq
          have hlast : o.lastSeenUid = t.lastSeenUid := congrArg SyncCursor.lastSeenUid hcursor
          rw [← hlast]
          rw [← homailbox, ← horole] at hplace
          exact h.cursors o ho (hoaccount.trans haccount) hplace
    · exact h

end

omit [Platform] [MailParser] in
theorem tracked_start {w₀ : RoundWorld} (hids : UniqueBy (fun m => some m.id) w₀.db.messages)
    (hconnects : w₀.db.endpointOf w₀.accountId = some endpoint)
    (hempty : ∀ r ∈ w₀.db.messages, r.accountId ≠ w₀.accountId)
    (hfresh : ∀ t ∈ w₀.db.mailboxSyncStates, t.accountId = w₀.accountId → t.cursor = {})
    (hrounds : w₀.rounds = []) : Tracked endpoint mailbox role w₀ := by
  constructor
  · exact hids
  · exact hconnects
  · intro r hr haccount
    exact absurd haccount (hempty r hr)
  · intro t ht haccount _
    have hzero : t.lastSeenUid = 0 := congrArg SyncCursor.lastSeenUid (hfresh t ht haccount)
    omega
  · simp [hrounds, roundsOf]
  · simp [hrounds, roundsOf, examinedIn]
  · rw [hrounds]
    exact atEachRound_nil

/-- From an account without cached messages and cursors, in every history in which messages are
only added to the mailbox and UIDs of other mailboxes are kept apart from its own: no round of the
mailbox leaves out a message above the cursor of the first one, unless it is meant to, and none
goes on from above what rounds before it looked at. -/
theorem rounds_leave_no_gap {endpoint : Endpoint} {mailbox role : String} {w₀ : RoundWorld}
    (hids : UniqueBy (fun m => some m.id) w₀.db.messages)
    (hconnects : w₀.db.endpointOf w₀.accountId = some endpoint)
    (hempty : ∀ r ∈ w₀.db.messages, r.accountId ≠ w₀.accountId)
    (hfresh : ∀ t ∈ w₀.db.mailboxSyncStates, t.accountId = w₀.accountId → t.cursor = {})
    (hrounds : w₀.rounds = []) {ops : List RoundOp}
    (hgrows : Along RoundWorld.step (OnlyGrows endpoint mailbox) w₀ ops)
    (hapart : Along RoundWorld.step (KeepsApart endpoint mailbox role) w₀ ops) :
    NoGap mailbox (exec RoundWorld.step w₀ ops).rounds := by
  have hstart : Tracked endpoint mailbox role w₀ :=
    tracked_start hids hconnects hempty hfresh hrounds
  have hend := invariant_along (Tracked endpoint mailbox role)
    (fun w op h hop => h.step op hop.1 hop.2) hstart (hgrows.and hapart)
  exact hend.noGap

end

def claimedJob (id : String) (mailbox : Option String) (mailboxRole : String) : SyncJob where
  id := id
  accountId := "a"
  mailbox := mailbox
  mailboxRole := mailboxRole
  reason := .manual
  status := .running
  priority := 0
  notBefore := 0
  lockedBy := some "P"
  lockedUntil := some 100
  createdAt := 0

def archiveJob (id : String) : SyncJob := claimedJob id none "archive"

def inboxRoundJob : SyncJob := claimedJob "inbox" none "inbox"

def emptyArchive : MailServer :=
  { listed := [{ path := "INBOX" }, { path := "Archive", attributes := [.archive] }] }

def roundsWorld : RoundWorld where
  accountId := "a"
  db := { archivingDb with syncJobs := [archiveJob "archive", inboxRoundJob] }
  servers _ := emptyArchive

theorem roundsWorld_ids : UniqueBy (fun m => some m.id) roundsWorld.db.messages := List.Pairwise.nil

def roundAt (job : SyncJob) (now : Time) : RoundOp :=
  .round job ⟨fun _ _ _ => "run", "next", 30, "2026-01-01", [], now⟩ []

def twoMailboxes (inboxUid archiveUid : ℕ) : MailServer :=
  (emptyArchive.deliver "INBOX" { key := 1, source := [1] } (inboxUid - 1)).deliver "Archive"
    { key := 2, source := [2] } (archiveUid - 1)

section

variable [Platform] [MailParser]

def claims {w₀ : RoundWorld} (hids : UniqueBy (fun m => some m.id) w₀.db.messages)
    (ops : List RoundOp) (job : SyncJob) : List RoundOp :=
  ops ++ [.other { (exec RoundWorld.step w₀ ops).db with syncJobs := [job] }
    (RoundWorld.exec_ids hids ops)]

def archiveRounds (inboxUid archiveUid : ℕ) : List RoundOp :=
  claims roundsWorld_ids
    [.server archivingEndpoint (twoMailboxes inboxUid archiveUid), roundAt (archiveJob "archive") 1,
      roundAt inboxRoundJob 2,
      .move passwordEnv "u" ("a:" ++ toString inboxUid) .archive 0 none,
      .server archivingEndpoint
        (((twoMailboxes inboxUid archiveUid).move "INBOX" inboxUid "Archive" 0).deliver "Archive"
          { key := 3, source := [3] } 0)]
    (archiveJob "again") ++ [roundAt (archiveJob "again") 3]

end

theorem rounds_leave_no_gap_archive :
    let _ := Platform.plain
    let _ := MailParser.plain
    Along RoundWorld.step (KeepsApart archivingEndpoint "Archive" "archive") roundsWorld
        (archiveRounds 1 5) ∧
      (exec RoundWorld.step roundsWorld (archiveRounds 1 5)).rounds.map
        (fun r => (r.mailbox, r.start, r.present, r.returned)) =
          [("Archive", 0, [5], [5]), ("INBOX", 0, [1], [1]), ("Archive", 5, [5, 6, 7], [6, 7])] ∧
      NoGap "Archive" (exec RoundWorld.step roundsWorld (archiveRounds 1 5)).rounds := by
  intro platform parser
  have hgrows : Along RoundWorld.step (OnlyGrows archivingEndpoint "Archive") roundsWorld
      (archiveRounds 1 5) := by
    subst platform parser
    decide +kernel
  have hapart : Along RoundWorld.step (KeepsApart archivingEndpoint "Archive" "archive") roundsWorld
      (archiveRounds 1 5) := by
    subst platform parser
    decide +kernel
  refine ⟨hapart, by decide +kernel, ?_⟩
  exact rounds_leave_no_gap roundsWorld_ids (by decide +kernel) (by decide) (by decide) rfl hgrows
    hapart

/-- The archived message keeps the UID that it had in the inbox. The next round of the archive goes
on from there and fetches nothing. -/
theorem archived_mail_hides_new :
    let _ := Platform.plain
    let _ := MailParser.plain
    Along RoundWorld.step (OnlyGrows archivingEndpoint "Archive") roundsWorld
        (archiveRounds 9 1) ∧
      (exec RoundWorld.step roundsWorld (archiveRounds 9 1)).rounds.map
        (fun r => (r.mailbox, r.start, r.present, r.returned)) =
          [("Archive", 0, [1], [1]), ("INBOX", 0, [9], [9]), ("Archive", 9, [1, 2, 3], [])] ∧
      ¬ NoGap "Archive" (exec RoundWorld.step roundsWorld (archiveRounds 9 1)).rounds := by
  intro platform parser
  refine ⟨?_, by decide +kernel, fun h => ?_⟩
  · subst platform parser
    decide +kernel
  have hlog : (exec RoundWorld.step roundsWorld (archiveRounds 9 1)).rounds =
      [⟨"Archive", 0, 1, [1], [1], [1], [], []⟩, ⟨"INBOX", 0, 9, [9], [9], [9], [], []⟩] ++
        ⟨"Archive", 9, 9, [1, 2, 3], [], [], [], []⟩ :: [] := by decide +kernel
  obtain ⟨r, hr, hseen⟩ := (h _ _ _ hlog rfl).returned ⟨"Archive", 0, 1, [1], [1], [1], [], []⟩
    (by decide +kernel) 3 (by decide) (by decide)
  have hnone : ∀ r ∈ roundsOf "Archive"
      ([⟨"Archive", 0, 1, [1], [1], [1], [], []⟩, ⟨"INBOX", 0, 9, [9], [9], [9], [], []⟩] ++
        [⟨"Archive", 9, 9, [1, 2, 3], [], [], [], []⟩]), ¬ (3 ∈ r.returned ∨ 3 ∈ r.filtered) := by
    decide +kernel
  exact hnone r hr hseen

end IMail
