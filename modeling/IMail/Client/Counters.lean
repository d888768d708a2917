import IMail.Client.MessageList

/-!
# Counters of the inbox in the client

`applyMessageStatsChanges` of `message-cache.ts`: the counters of the inbox are moved by the
changes of an event and are not read again. No counter falls below zero on the way, because the
changes made so far are an exact patch themselves, so the counters are numbers of messages after
every one of them.
-/

namespace IMail

open Relational

/-- A bucket of `byAccount` or `byGroup`, under the account or the group. -/
structure ClientBucket where
  key : String
  total : ℤ
  unread : ℤ
  deriving DecidableEq, Repr

/-- The buckets are the values of a `Map`, one for each key. -/
structure ClientStats where
  total : ℤ := 0
  unread : ℤ := 0
  byAccount : List ClientBucket := []
  byGroup : List ClientBucket := []
  deriving DecidableEq, Repr

def bucketOf (buckets : List ClientBucket) (key : String) : ℤ × ℤ :=
  ((buckets.find? fun b => b.key = key).map fun b => (b.total, b.unread)).getD (0, 0)

/-- `Map.prototype.set`; an entry that is there keeps its place. -/
def setBucket : List ClientBucket → ClientBucket → List ClientBucket
  | [], b => [b]
  | old :: buckets, b => if old.key = b.key then b :: buckets else old :: setBucket buckets b

def inInbox (now : String) (m : Message) : Bool :=
  m.mailboxRole == "inbox" && !snoozedUntilAfter m now

def inboxContribution (message : Option Message) (now : String) : ℤ × ℤ :=
  (if message.any (inInbox now) then 1 else 0,
    if message.any fun m => inInbox now m && m.unread then 1 else 0)

def groupOf (accounts : List Account) (accountId : String) : Option String :=
  ((accounts.find? fun a => a.id == accountId).map (·.group)).filter fun group => group ≠ ""

/-- `byAccount.set` and `byGroup.set`; `clamp` is `Math.max(0, ·)`. -/
def addToBucket (clamp : ℤ → ℤ) (key : String) (delta : ℤ × ℤ) (buckets : List ClientBucket) :
    List ClientBucket :=
  let sum := bucketOf buckets key + delta
  setBucket buckets { key, total := clamp sum.1, unread := clamp sum.2 }

/-- The loop of `applyMessageStatsChanges`. -/
def applyStatsChange (clamp : ℤ → ℤ) (accounts : List Account) (now : String) (stats : ClientStats)
    (change : MailboxMessageChange) : ClientStats :=
  let delta := inboxContribution change.after now - inboxContribution change.before now
  if delta = 0 then stats
  else
    match ((change.after.or change.before).map (·.accountId)).filter fun id => id ≠ "" with
    | none => stats
    | some accountId =>
      { total := clamp (stats.total + delta.1)
        unread := clamp (stats.unread + delta.2)
        byAccount := addToBucket clamp accountId delta stats.byAccount
        byGroup :=
          match groupOf accounts accountId with
          | some group => addToBucket clamp group delta stats.byGroup
          | none => stats.byGroup }

def applyMessageStatsChanges (accounts : List Account) (now : String) (stats : ClientStats)
    (changes : List MailboxMessageChange) : ClientStats :=
  changes.foldl (applyStatsChange (max 0) accounts now) stats

def messageCount (p : Message → Bool) (messages : List Message) : ℤ := (messages.filter p).length

def inboxCount (now : String) (messages : List Message) (p : Message → Bool) : ℤ × ℤ :=
  (messageCount (fun m => inInbox now m && p m) messages,
    messageCount (fun m => inInbox now m && m.unread && p m) messages)

structure StatsOf (accounts : List Account) (now : String) (messages : List Message)
    (stats : ClientStats) : Prop where
  total : (stats.total, stats.unread) = inboxCount now messages fun _ => true
  byAccount : ∀ id, bucketOf stats.byAccount id = inboxCount now messages fun m => m.accountId == id
  byGroup : ∀ group, bucketOf stats.byGroup group =
    inboxCount now messages fun m => groupOf accounts m.accountId == some group

theorem bucketOf_setBucket (buckets : List ClientBucket) (b : ClientBucket) (key : String) :
    bucketOf (setBucket buckets b) key =
      if b.key = key then (b.total, b.unread) else bucketOf buckets key := by
  induction buckets with
  | nil => by_cases hkey : b.key = key <;> simp [bucketOf, setBucket, hkey]
  | cons old buckets ih =>
    unfold bucketOf at ih ⊢
    rw [setBucket]
    by_cases hold : old.key = b.key <;> by_cases hkey : b.key = key <;>
      by_cases hother : old.key = key <;> simp_all

section

variable {accounts : List Account} {now accountId : String} {c : MailboxMessageChange}
  {messages messages' : List Message} {stats : ClientStats} {p : Message → Bool}

theorem changeDelta_and (haccount : ∀ m, c.before = some m ∨ c.after = some m →
    m.accountId = accountId) (p : Message → Bool) (r : String → Bool) :
    changeDelta (fun m => p m && r m.accountId) c = if r accountId then changeDelta p c else 0 := by
  have hside : ∀ side : Option Message, (∀ m, side = some m → m.accountId = accountId) →
      side.any (fun m => p m && r m.accountId) = (side.any p && r accountId) := by
    rintro (_ | m) h
    · rfl
    · simp [h m rfl]
  unfold changeDelta
  rw [hside _ fun m hm => haccount m (Or.inr hm), hside _ fun m hm => haccount m (Or.inl hm)]
  cases r accountId <;> simp

theorem inboxCount_nonneg (now : String) (messages : List Message) (p : Message → Bool) :
    0 ≤ (inboxCount now messages p).1 ∧ 0 ≤ (inboxCount now messages p).2 :=
  ⟨Int.natCast_nonneg _, Int.natCast_nonneg _⟩

theorem addToBucket_eq {buckets : List ClientBucket} {q : String → Message → Bool}
    (h : ∀ key, bucketOf buckets key = inboxCount now messages (q key)) {clamp : ℤ → ℤ}
    (hclamp : ∀ x, 0 ≤ x → clamp x = x) {key : String} {delta : ℤ × ℤ}
    (hdelta : ∀ k, inboxCount now messages' (q k) =
      inboxCount now messages (q k) + if key = k then delta else 0) :
    addToBucket clamp key delta buckets = addToBucket id key delta buckets ∧
      ∀ k, bucketOf (addToBucket clamp key delta buckets) k = inboxCount now messages' (q k) := by
  have hnew := hdelta key
  rw [if_pos rfl, ← h key] at hnew
  obtain ⟨htotal, hunread⟩ := inboxCount_nonneg now messages' (q key)
  rw [hnew] at htotal hunread
  have hsame : addToBucket clamp key delta buckets = addToBucket id key delta buckets := by
    simp only [addToBucket, hclamp _ htotal, hclamp _ hunread, id]
  refine ⟨hsame, fun k => ?_⟩
  rw [hsame, addToBucket, bucketOf_setBucket]
  split_ifs with hkey
  · rw [← hkey]
    exact hnew.symm
  · rw [hdelta, h, if_neg hkey, add_zero]

theorem StatsOf.change (h : StatsOf accounts now messages stats)
    (hmoves : ∀ p, messageCount p messages' = messageCount p messages + changeDelta p c)
    (haccount : ∀ m, c.before = some m ∨ c.after = some m → m.accountId = accountId)
    (hid : accountId ≠ "") {clamp : ℤ → ℤ} (hclamp : ∀ x, 0 ≤ x → clamp x = x) :
    applyStatsChange clamp accounts now stats c = applyStatsChange id accounts now stats c ∧
      StatsOf accounts now messages' (applyStatsChange clamp accounts now stats c) := by
  obtain ⟨delta, hdelta⟩ :
      ∃ d, d = inboxContribution c.after now - inboxContribution c.before now := ⟨_, rfl⟩
  have hcounts : ∀ r : String → Bool, inboxCount now messages' (fun m => r m.accountId) =
      inboxCount now messages (fun m => r m.accountId) + if r accountId then delta else 0 := by
    intro r
    unfold inboxCount
    rw [hmoves, hmoves, changeDelta_and haccount, changeDelta_and haccount, hdelta]
    cases r accountId <;> rfl
  unfold applyStatsChange
  rw [← hdelta]
  by_cases hzero : delta = 0
  · rw [if_pos hzero, if_pos hzero]
    subst hzero
    simp only [ite_self, add_zero] at hcounts
    exact ⟨rfl, h.total.trans (hcounts fun _ => true).symm,
      fun id => (h.byAccount id).trans (hcounts (· == id)).symm,
      fun group => (h.byGroup group).trans (hcounts fun a => groupOf accounts a == some group).symm⟩
  have hfound : ((c.after.or c.before).map (·.accountId)).filter (fun id => id ≠ "") =
      some accountId := by
    cases hafter : c.after with
    | some m => simp [haccount m (Or.inr hafter), hid]
    | none =>
      cases hbefore : c.before with
      | some m => simp [haccount m (Or.inl hbefore), hid]
      | none =>
        rw [hafter, hbefore, sub_self] at hdelta
        exact absurd hdelta hzero
  have htotal := hcounts fun _ => true
  rw [← h.total, if_pos rfl] at htotal
  obtain ⟨hnonneg, hnonneg'⟩ := inboxCount_nonneg now messages' fun _ => true
  rw [htotal] at hnonneg hnonneg'
  have hclamp1 : clamp (stats.total + delta.1) = stats.total + delta.1 := hclamp _ hnonneg
  have hclamp2 : clamp (stats.unread + delta.2) = stats.unread + delta.2 := hclamp _ hnonneg'
  obtain ⟨haccounts, hbyAccount⟩ :=
    addToBucket_eq h.byAccount hclamp fun k => by simpa using hcounts (· == k)
  rw [haccounts] at hbyAccount
  have hgroups := fun k => hcounts fun a => groupOf accounts a == some k
  simp only [if_neg hzero, hfound, hclamp1, hclamp2, haccounts, id]
  cases hgroup : groupOf accounts accountId with
  | none =>
    refine ⟨rfl, htotal.symm, hbyAccount, fun k => ?_⟩
    rw [hgroups, hgroup, if_neg (by simp), add_zero]
    exact h.byGroup k
  | some g =>
    obtain ⟨hgroup', hbyGroup⟩ :=
      addToBucket_eq h.byGroup hclamp fun k => by simpa [hgroup] using hgroups k
    rw [hgroup'] at hbyGroup
    simp only [hgroup', true_and]
    exact ⟨htotal.symm, hbyAccount, hbyGroup⟩

/-- The changes of an event as a patch: each message is in one change at most, and a change is
about one message of one account. -/
structure AccountPatch (messages : List Message) (changes : List MailboxMessageChange) : Prop where
  unique : UniqueBy (fun m => some m.id) messages
  found : ∀ c ∈ changes, ∀ m, c.before = some m → m ∈ messages
  once : changes.Pairwise fun c d => ∀ id, c.mentions id = true → d.mentions id = false
  same : ∀ c ∈ changes, ∀ b a, c.before = some b → c.after = some a →
    b.id = a.id ∧ b.accountId = a.accountId

variable {changes : List MailboxMessageChange}

theorem AccountPatch.counted_eq (h : AccountPatch messages changes) (p : Message → Bool) :
    messageCount p (applyChanges changes messages) =
      messageCount p messages + messageTotalDelta p changes :=
  length_filter_applyChanges h.found h.once h.unique

theorem AccountPatch.sublist {done : List MailboxMessageChange} (h : AccountPatch messages changes)
    (hdone : done.Sublist changes) : AccountPatch messages done :=
  ⟨h.unique, fun c hc => h.found c (hdone.subset hc), h.once.sublist hdone,
    fun c hc => h.same c (hdone.subset hc)⟩

theorem StatsOf.run (h : StatsOf accounts now messages stats)
    (hpatch : AccountPatch messages changes)
    (hids : ∀ c ∈ changes, ∀ m, c.before = some m ∨ c.after = some m → m.accountId ≠ "")
    {clamp : ℤ → ℤ} (hclamp : ∀ x, 0 ≤ x → clamp x = x) :
    changes.foldl (applyStatsChange clamp accounts now) stats =
        changes.foldl (applyStatsChange id accounts now) stats ∧
      StatsOf accounts now (applyChanges changes messages)
        (changes.foldl (applyStatsChange clamp accounts now) stats) := by
  induction changes using List.reverseRecOn with
  | nil => exact ⟨rfl, by simpa [applyChanges] using h⟩
  | append_singleton done c ih =>
    have hdone := hpatch.sublist (List.sublist_append_left done [c])
    obtain ⟨hsame, hstats⟩ := ih hdone fun d hd => hids d (List.mem_append_left _ hd)
    have hc : c ∈ done ++ [c] := by simp
    have hmoves : ∀ p, messageCount p (applyChanges (done ++ [c]) messages) =
        messageCount p (applyChanges done messages) + changeDelta p c := by
      intro p
      rw [hpatch.counted_eq, hdone.counted_eq]
      simp [messageTotalDelta, changeDelta, add_assoc]
    simp only [List.foldl_append, List.foldl_cons, List.foldl_nil]
    rw [← hsame]
    obtain ⟨accountId, hid, haccount⟩ : ∃ id, id ≠ "" ∧
        ∀ m, c.before = some m ∨ c.after = some m → m.accountId = id := by
      cases hafter : c.after with
      | some a =>
        refine ⟨a.accountId, hids c hc a (Or.inr hafter), ?_⟩
        rintro m (hm | hm)
        · exact (hpatch.same c hc m a hm hafter).2
        · rw [Option.some.inj hm]
      | none =>
        cases hbefore : c.before with
        | some b => exact ⟨b.accountId, hids c hc b (Or.inl hbefore), by simp⟩
        | none => exact ⟨"a", by simp⟩
    exact hstats.change hmoves haccount hid hclamp

/-- If no changed message has the empty account, the counters moved by the changes are those of
the patched messages, and no counter is cut off at zero after any number of the changes. -/
theorem statsOf_applyMessageStatsChanges [Browser] {accounts : List Account} {now : String}
    {messages : List Message} {stats : ClientStats} {changes : List MailboxMessageChange}
    (h : StatsOf accounts now messages stats) (hpatch : AccountPatch messages changes)
    (hids : ∀ c ∈ changes, ∀ m, c.before = some m ∨ c.after = some m → m.accountId ≠ "") :
    StatsOf accounts now (applyChanges changes messages)
        (applyMessageStatsChanges accounts now stats changes) ∧
      (∀ n, applyMessageStatsChanges accounts now stats (changes.take n) =
        (changes.take n).foldl (applyStatsChange id accounts now) stats) ∧
      ∀ params, messageTotalDelta (messageMatchesQuery · params accounts now) changes =
        messageCount (messageMatchesQuery · params accounts now) (applyChanges changes messages) -
          messageCount (messageMatchesQuery · params accounts now) messages := by
  have hmax : ∀ x : ℤ, 0 ≤ x → max 0 x = x := fun x => max_eq_right
  refine ⟨(h.run hpatch hids hmax).2, fun n => ?_, fun params => ?_⟩
  · exact (h.run (hpatch.sublist (List.take_sublist n changes))
      (fun c hc => hids c (List.mem_of_mem_take hc)) hmax).1
  · rw [hpatch.counted_eq]
    ring

def countedMail (id accountId : String) (uid : ℕ) (unread : Bool) : Message :=
  { id, accountId, mailbox := "INBOX", mailboxRole := "inbox", uid, unread,
    date := "2025-01-01T00:00:00.000Z" }

def groupedAccounts : List Account :=
  [{ id := "a1", userId := "u1", email := "a@x.org", createdAt := 0, group := "work" },
    { id := "a2", userId := "u1", email := "b@x.org", createdAt := 0, group := "home" }]

def groupedStats (work home : ℤ × ℤ) : ClientStats :=
  { total := work.1 + home.1, unread := work.2 + home.2
    byAccount := [⟨"a1", work.1, work.2⟩, ⟨"a2", home.1, home.2⟩]
    byGroup := [⟨"work", work.1, work.2⟩, ⟨"home", home.1, home.2⟩] }

/-- One message is read, one is deleted and one arrives in another account. -/
theorem statsOf_applyMessageStatsChanges_mixed :
    let messages := [countedMail "a1:1" "a1" 1 true, countedMail "a1:2" "a1" 2 false,
      countedMail "a2:1" "a2" 1 true]
    let changes : List MailboxMessageChange :=
      [⟨some (countedMail "a1:1" "a1" 1 true), some (countedMail "a1:1" "a1" 1 false)⟩,
        ⟨some (countedMail "a1:2" "a1" 2 false), none⟩, ⟨none, some (countedMail "a2:2" "a2" 2 true)⟩]
    let now := "2025-01-02T00:00:00.000Z"
    applyMessageStatsChanges groupedAccounts now (groupedStats (2, 1) (1, 1)) changes =
        groupedStats (1, 0) (2, 2) ∧
      StatsOf groupedAccounts now (applyChanges changes messages) (groupedStats (1, 0) (2, 2)) := by
  intro messages changes now
  let _ := plainBrowser
  have hbefore : StatsOf groupedAccounts now messages (groupedStats (2, 1) (1, 1)) := by
    refine ⟨by decide +kernel, fun id => ?_, fun group => ?_⟩
    · by_cases h1 : "a1" = id
      · subst h1
        decide +kernel
      by_cases h2 : "a2" = id
      · subst h2
        decide +kernel
      simp [bucketOf, groupedStats, inboxCount, messageCount, messages, countedMail, h1, h2]
    · by_cases h1 : "work" = group
      · subst h1
        decide +kernel
      by_cases h2 : "home" = group
      · subst h2
        decide +kernel
      simp [bucketOf, groupedStats, inboxCount, messageCount, messages, countedMail, groupOf,
        groupedAccounts, h1, h2]
  have hpatch : AccountPatch messages changes := by
    constructor
    · simp [UniqueBy, messages, countedMail]
    · simp [messages, changes]
    · simp +contextual [changes, MailboxMessageChange.mentions, countedMail]
    · simp [changes, countedMail]
  have heq : applyMessageStatsChanges groupedAccounts now (groupedStats (2, 1) (1, 1)) changes =
    groupedStats (1, 0) (2, 2) := by decide +kernel
  have hids : ∀ c ∈ changes, ∀ m, c.before = some m ∨ c.after = some m → m.accountId ≠ "" := by
    simp only [changes, countedMail, List.forall_mem_cons, Option.some.injEq, or_imp, forall_and,
      forall_eq']
    simp
  exact ⟨heq, heq ▸ (statsOf_applyMessageStatsChanges hbefore hpatch hids).1⟩

end

end IMail
