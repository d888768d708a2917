import IMail.Sync.NoGap

/-!
# Archived mail of Gmail

The archive of a Gmail account is the mailbox of all mail, without what carries the label of
another mailbox. A round leaves such a message out and its cursor passes it all the same, so what
is archived later, by taking the label away, stays out.
-/

namespace IMail

open Relational Transition Imap

/-- What the mailbox had above the cursor of its first round, and no label kept out when the round
fetched, has been returned by a round. -/
def ReturnsArchived (mailbox : String) (earlier : List CompletedRound) (r : CompletedRound) : Prop :=
  ∀ first, (roundsOf mailbox (earlier ++ [r])).head? = some first →
    ∀ uid ∈ r.present, first.lastSeenUid < (uid : ℤ) → uid ∉ r.labelled →
      ∃ r' ∈ roundsOf mailbox (earlier ++ [r]), uid ∈ r'.returned

def ArchivedReturned (mailbox : String) (rounds : List CompletedRound) : Prop :=
  AtEachRound (fun earlier r => r.mailbox = mailbox → ReturnsArchived mailbox earlier r) rounds

theorem uids_of_labelledIn {box : UidMailbox ServerMessage} {uid : ℕ}
    (h : labelledIn box uid = true) : uid ∈ box.uids := by
  unfold labelledIn at h
  cases hm : box.fetch uid with
  | none => simp [hm] at h
  | some m => exact UidMailbox.mem_uids.mpr (UidMailbox.fetch_eq_some.mp hm).1

section

variable [Platform] [MailParser]

/-- No message that a round of the mailbox has looked at loses all labels that kept it out; while a
round runs this goes for every message from the fetch on. -/
def LabelsStay (endpoint : Endpoint) (mailbox : String) (w : RoundWorld) : RoundOp → Prop
  | .round _ _ during => ∀ i,
    ∀ uid ∈ ((moments (w.servers endpoint) during i).box mailbox).uids,
      uid ∈ examinedIn mailbox w.rounds ∨ 2 ≤ i →
        labelledIn ((moments (w.servers endpoint) during i).box mailbox) uid = true →
          labelledIn ((moments (w.servers endpoint) during (i + 1)).box mailbox) uid = true
  | op => ∀ uid ∈ examinedIn mailbox w.rounds,
    labelledIn ((w.servers endpoint).box mailbox) uid = true →
      labelledIn (((w.step op).servers endpoint).box mailbox) uid = true

omit [Platform] [MailParser] in
instance {_ : Platform} {_ : MailParser} (endpoint : Endpoint) (mailbox : String)
    (w : RoundWorld) : (op : RoundOp) → Decidable (LabelsStay endpoint mailbox w op)
  | .round _ _ during =>
    decidable_of_iff (∀ i < during.length,
      ∀ uid ∈ ((moments (w.servers endpoint) during i).box mailbox).uids,
        uid ∈ examinedIn mailbox w.rounds ∨ 2 ≤ i →
          labelledIn ((moments (w.servers endpoint) during i).box mailbox) uid = true →
            labelledIn ((moments (w.servers endpoint) during (i + 1)).box mailbox) uid = true) (by
      constructor
      · intro h i
        by_cases hi : i < during.length
        · exact h i hi
        · rw [moments_of_length_le (by omega), moments_of_length_le (by omega)]
          intro _ _ _ hlabelled
          exact hlabelled
      · intro h i _
        exact h i)
  | .move env owner messageId destination skip cut =>
    inferInstanceAs (Decidable (∀ uid ∈ examinedIn mailbox w.rounds, _ → labelledIn
      (((w.step (.move env owner messageId destination skip cut)).servers endpoint).box mailbox) uid =
        true))
  | .server other server =>
    inferInstanceAs (Decidable (∀ uid ∈ examinedIn mailbox w.rounds, _ → labelledIn
      (((w.step (.server other server)).servers endpoint).box mailbox) uid = true))
  | .other db ids =>
    inferInstanceAs (Decidable (∀ uid ∈ examinedIn mailbox w.rounds, _ → labelledIn
      (((w.step (.other db ids)).servers endpoint).box mailbox) uid = true))

structure ArchiveTracked (endpoint : Endpoint) (mailbox role : String) (w : RoundWorld) : Prop where
  tracked : Tracked endpoint mailbox role w
  kept : ∀ r ∈ roundsOf mailbox w.rounds, ∀ uid ∈ r.filtered,
    labelledIn ((w.servers endpoint).box mailbox) uid = true
  examined : ∀ r ∈ roundsOf mailbox w.rounds, ∀ uid ∈ r.filtered, uid ∈ r.examined
  returned : ArchivedReturned mailbox w.rounds

variable {endpoint : Endpoint} {mailbox role : String} {w w' : RoundWorld}

omit [Platform] [MailParser] in
theorem ArchiveTracked.mem_examinedIn (h : ArchiveTracked endpoint mailbox role w)
    {r : CompletedRound} (hr : r ∈ roundsOf mailbox w.rounds) {uid : ℕ} (huid : uid ∈ r.filtered) :
    uid ∈ examinedIn mailbox w.rounds :=
  List.mem_flatMap.mpr ⟨r, hr, h.examined r hr uid huid⟩

omit [Platform] [MailParser] in
theorem ArchiveTracked.of_same_rounds (h : ArchiveTracked endpoint mailbox role w)
    (htracked : Tracked endpoint mailbox role w') (hrounds : w'.rounds = w.rounds)
    (hlabels : ∀ uid ∈ examinedIn mailbox w.rounds,
      labelledIn ((w.servers endpoint).box mailbox) uid = true →
        labelledIn ((w'.servers endpoint).box mailbox) uid = true) :
    ArchiveTracked endpoint mailbox role w' := by
  constructor
  · exact htracked
  · rw [hrounds]
    intro r hr uid huid
    exact hlabels uid (h.mem_examinedIn hr huid) (h.kept r hr uid huid)
  · rw [hrounds]
    exact h.examined
  · rw [hrounds]
    exact h.returned

omit [Platform] [MailParser] in
theorem Selection.labelledIn_of_filtered {s : Selection} {moment : ℕ → MailServer}
    {request : RemoteSyncRequest} {uid : ℕ} (h : uid ∈ (s.completed moment request).filtered) :
    uid ∈ (s.completed moment request).examined ∧
      labelledIn ((moment 2).box s.folder.path) uid = true := by
  obtain ⟨hrange, hlabelled⟩ := List.mem_filter.mp h
  exact ⟨hrange, (Bool.and_eq_true_iff.mp hlabelled).2⟩

omit [Platform] [MailParser] in
theorem labels_chain {server : MailServer} {during : List MailServer} {uid i : ℕ}
    (h : ∀ k ≥ i, labelledIn ((moments server during k).box mailbox) uid = true →
      labelledIn ((moments server during (k + 1)).box mailbox) uid = true)
    (hi : labelledIn ((moments server during i).box mailbox) uid = true) {j : ℕ} (hij : i ≤ j) :
    labelledIn ((moments server during j).box mailbox) uid = true := by
  induction j, hij using Nat.le_induction with
  | base => exact hi
  | succ j hle ih => exact h j hle ih

theorem ArchiveTracked.round (h : ArchiveTracked endpoint mailbox role w) (job : SyncJob)
    (args : RoundArgs) (during : List MailServer)
    (htracked : Tracked endpoint mailbox role (w.step (.round job args during)))
    (hlabels : LabelsStay endpoint mailbox w (.round job args during)) :
    ArchiveTracked endpoint mailbox role (w.step (.round job args during)) := by
  rcases w.step_round job args during with
    hsame | ⟨other, hother, hservers, ⟨request, s, plan, heffect⟩, _, _⟩
  · rw [hsame]
    exact h
  obtain rfl : other = endpoint := Option.some.inj (hother.symm.trans h.tracked.connects)
  have hend : (w.step (.round job args during)).servers other =
      moments (w.servers other) during (during.length + 2) := by
    rw [hservers, Function.update_self, moments_of_length_le (by omega)]
  have hold : ∀ r ∈ roundsOf mailbox w.rounds, ∀ uid ∈ r.filtered, ∀ j,
      labelledIn ((moments (w.servers other) during j).box mailbox) uid = true := by
    intro r hr uid huid j
    apply labels_chain (i := 0) _ (h.kept r hr uid huid) (Nat.zero_le j)
    intro k _ hk
    exact hlabels k uid (uids_of_labelledIn hk) (Or.inl (h.mem_examinedIn hr huid)) hk
  by_cases hpath : s.folder.path = mailbox
  · have hown : (s.completed (moments (w.servers other) during) request).mailbox = mailbox := hpath
    constructor
    · exact htracked
    · rw [heffect.rounds, roundsOf_append_self hown, hend]
      intro r hr uid huid
      rcases List.mem_append.mp hr with hearlier | hlast
      · exact hold r hearlier uid huid _
      · rw [List.mem_singleton.mp hlast] at huid
        have hlabelled := (Selection.labelledIn_of_filtered huid).2
        rw [hpath] at hlabelled
        apply labels_chain (i := 2) _ hlabelled (by omega)
        intro k hk hlabelled
        exact hlabels k uid (uids_of_labelledIn hlabelled) (Or.inr hk) hlabelled
    · rw [heffect.rounds, roundsOf_append_self hown]
      intro r hr uid huid
      rcases List.mem_append.mp hr with hearlier | hlast
      · exact h.examined r hearlier uid huid
      · rw [List.mem_singleton.mp hlast] at huid ⊢
        exact (Selection.labelledIn_of_filtered huid).1
    · rw [heffect.rounds]
      apply atEachRound_append h.returned
      intro _ first hfirst uid huid habove hunlabelled
      have hcovered := htracked.noGap w.rounds _ [] heffect.rounds hown
      obtain ⟨r, hr, hseen⟩ := hcovered.returned first hfirst uid huid habove
      refine ⟨r, hr, ?_⟩
      rcases hseen with hreturned | hfiltered
      · exact hreturned
      · -- What was left out is labelled when this round fetches.
        have hlabelled : labelledIn ((moments (w.servers other) during 2).box mailbox) uid = true := by
          rw [roundsOf_append_self hown] at hr
          rcases List.mem_append.mp hr with hearlier | hlast
          · exact hold r hearlier uid hfiltered 2
          · rw [List.mem_singleton.mp hlast] at hfiltered
            rw [← hpath]
            exact (Selection.labelledIn_of_filtered hfiltered).2
        rw [← hpath] at hlabelled
        exact absurd (List.mem_filter.mpr ⟨huid, hlabelled⟩) hunlabelled
  · have hother : roundsOf mailbox (w.rounds ++
        [s.completed (moments (w.servers other) during) request]) = roundsOf mailbox w.rounds :=
      roundsOf_append_other hpath
    constructor
    · exact htracked
    · rw [heffect.rounds, hother, hend]
      intro r hr uid huid
      exact hold r hr uid huid _
    · rw [heffect.rounds, hother]
      exact h.examined
    · rw [heffect.rounds]
      exact atEachRound_append h.returned fun hsame => absurd hsame hpath

theorem ArchiveTracked.step (h : ArchiveTracked endpoint mailbox role w) (op : RoundOp)
    (hgrows : OnlyGrows endpoint mailbox w op) (hapart : KeepsApart endpoint mailbox role w op)
    (hlabels : LabelsStay endpoint mailbox w op) :
    ArchiveTracked endpoint mailbox role (w.step op) := by
  have htracked := h.tracked.step op hgrows hapart
  cases op with
  | round job args during => exact h.round job args during htracked hlabels
  | move | server => exact h.of_same_rounds htracked rfl hlabels
  | other db ids =>
    apply h.of_same_rounds htracked _ hlabels
    simp only [RoundWorld.step]
    split_ifs <;> rfl

/-- From an account without cached messages and cursors, if messages are only added to the mailbox,
UIDs of other mailboxes are kept apart from its own and mail that a round has left out stays
labelled: after every round of the mailbox, what was above the cursor of the first one and not
labelled for elsewhere has been returned. -/
theorem archived_mail_is_returned {endpoint : Endpoint} {mailbox role : String} {w₀ : RoundWorld}
    (hids : UniqueBy (fun m => some m.id) w₀.db.messages)
    (hconnects : w₀.db.endpointOf w₀.accountId = some endpoint)
    (hempty : ∀ r ∈ w₀.db.messages, r.accountId ≠ w₀.accountId)
    (hfresh : ∀ t ∈ w₀.db.mailboxSyncStates, t.accountId = w₀.accountId → t.cursor = {})
    (hrounds : w₀.rounds = []) {ops : List RoundOp}
    (hgrows : Along RoundWorld.step (OnlyGrows endpoint mailbox) w₀ ops)
    (hapart : Along RoundWorld.step (KeepsApart endpoint mailbox role) w₀ ops)
    (hlabels : Along RoundWorld.step (LabelsStay endpoint mailbox) w₀ ops) :
    ArchivedReturned mailbox (exec RoundWorld.step w₀ ops).rounds := by
  have hstart : ArchiveTracked endpoint mailbox role w₀ := by
    constructor
    · exact tracked_start hids hconnects hempty hfresh hrounds
    · simp [hrounds, roundsOf]
    · simp [hrounds, roundsOf]
    · rw [hrounds]
      exact atEachRound_nil
  have hend := invariant_along (ArchiveTracked endpoint mailbox role)
    (fun w op h hop => h.step op hop.1 hop.2.1 hop.2.2) hstart (hgrows.and (hapart.and hlabels))
  exact hend.returned

end

def allMail : String := "[Gmail]/All Mail"

def gmailServer (messages : List ServerMessage) : MailServer :=
  messages.foldl (fun server m => server.deliver allMail m 0)
    { gmailLabels := true
      listed := [{ path := "INBOX" }, { path := allMail, attributes := [.all] }] }

def gmailMessage (key : ℕ) (labels : List String) : ServerMessage :=
  { key := key, source := [UInt8.ofNat key], gmailLabels := some labels }

def gmailWorld : RoundWorld where
  accountId := "a"
  db := { archivingDb with syncJobs := [archiveJob "first"] }
  servers _ := gmailServer [gmailMessage 1 []]

theorem gmailWorld_ids : UniqueBy (fun m => some m.id) gmailWorld.db.messages := List.Pairwise.nil

section

variable [Platform] [MailParser]

def syncsAllMail (ops : List RoundOp) (id : String) (messages : List ServerMessage) :
    List RoundOp :=
  claims gmailWorld_ids ops (archiveJob id) ++
    [.server archivingEndpoint (gmailServer messages), roundAt (archiveJob id) 1]

def allMailRounds (second third : List ServerMessage) : List RoundOp :=
  syncsAllMail (syncsAllMail [roundAt (archiveJob "first") 1] "second" second) "third" third

end

theorem archived_mail_is_returned_twice :
    let _ := Platform.plain
    let _ := MailParser.plain
    let ops := allMailRounds [gmailMessage 1 [], gmailMessage 2 ["\\Inbox"]]
      [gmailMessage 1 [], gmailMessage 2 ["\\Inbox", "\\Starred"], gmailMessage 3 []]
    Along RoundWorld.step (KeepsApart archivingEndpoint allMail "archive") gmailWorld ops ∧
      Along RoundWorld.step (LabelsStay archivingEndpoint allMail) gmailWorld ops ∧
      (exec RoundWorld.step gmailWorld ops).rounds.map
        (fun r => (r.start, r.returned, r.filtered)) = [(0, [1], []), (1, [], [2]), (2, [3], [])] ∧
      ArchivedReturned allMail (exec RoundWorld.step gmailWorld ops).rounds := by
  intro platform parser ops
  have hgrows : Along RoundWorld.step (OnlyGrows archivingEndpoint allMail) gmailWorld ops := by
    subst ops platform parser
    decide +kernel
  have hapart : Along RoundWorld.step (KeepsApart archivingEndpoint allMail "archive") gmailWorld
      ops := by
    subst ops platform parser
    decide +kernel
  have hlabels : Along RoundWorld.step (LabelsStay archivingEndpoint allMail) gmailWorld ops := by
    subst ops platform parser
    decide +kernel
  refine ⟨hapart, hlabels, by subst ops platform parser; decide +kernel, ?_⟩
  exact archived_mail_is_returned gmailWorld_ids (by decide +kernel) (by decide) (by decide) rfl
    hgrows hapart hlabels

/-- A message is in the inbox when a round looks at it, and is archived afterwards. -/
theorem archived_later_never_returned :
    let _ := Platform.plain
    let _ := MailParser.plain
    let ops := allMailRounds [gmailMessage 1 [], gmailMessage 2 ["\\Inbox"]]
      [gmailMessage 1 [], gmailMessage 2 []]
    Along RoundWorld.step (OnlyGrows archivingEndpoint allMail) gmailWorld ops ∧
      Along RoundWorld.step (KeepsApart archivingEndpoint allMail "archive") gmailWorld ops ∧
      (exec RoundWorld.step gmailWorld ops).rounds.map
        (fun r => (r.lastSeenUid, r.present, r.returned, r.labelled)) =
          [(1, [1], [1], []), (2, [1, 2], [], [2]), (2, [1, 2], [], [])] ∧
      ¬ ArchivedReturned allMail (exec RoundWorld.step gmailWorld ops).rounds := by
  intro platform parser ops
  have hlog : (exec RoundWorld.step gmailWorld ops).rounds =
      [⟨allMail, 0, 1, [1], [1], [1], [], []⟩, ⟨allMail, 1, 2, [1, 2], [2], [], [2], [2]⟩] ++
        ⟨allMail, 2, 2, [1, 2], [], [], [], []⟩ :: [] := by
    subst ops platform parser
    decide +kernel
  refine ⟨?_, ?_, by rw [hlog]; rfl, fun h => ?_⟩
  · subst ops platform parser
    decide +kernel
  · subst ops platform parser
    decide +kernel
  · obtain ⟨r, hr, hreturned⟩ := h _ _ _ hlog rfl ⟨allMail, 0, 1, [1], [1], [1], [], []⟩
      (by decide +kernel) 2 (by decide) (by decide) (by decide)
    revert r
    decide +kernel

end IMail
