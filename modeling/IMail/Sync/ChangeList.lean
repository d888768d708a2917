import IMail.Messages.Reads
import IMail.Relational.Patch
import IMail.Sync.Summaries

/-!
# The list of changed messages

A commit reports what it changed in the messages of its account, and clients apply that to what
they show. When rules ran around the commit, `execute_inner` replaces the list by one that
`rule_executor::message_changes` makes of the messages before and after all of it. Both are the
difference of two tables with the message id as key.
-/

namespace IMail

open Relational

/-- `BTreeMap::insert`, in the order of the ids -/
def insertById (message : Message) : List Message → List Message
  | [] => [message]
  | m :: rest =>
    if message.id < m.id then message :: m :: rest
    else if m.id < message.id then m :: insertById message rest
    else message :: rest

/-- The loop of `rule_executor::message_changes`; what is left of the map was deleted. -/
def changesByRemoval (before : List Message) : List Message → List MailboxMessageChange
  | [] => before.map fun m => ⟨some m, none⟩
  | message :: after =>
    let previous := findById before message.id
    let rest := changesByRemoval (before.filter fun m => m.id != message.id) after
    if previous = some message then rest else ⟨previous, some message⟩ :: rest

/-- `rule_executor::message_changes` -/
def netMessageChanges (before after : List Message) : List MailboxMessageChange :=
  changesByRemoval (before.foldl (fun map m => insertById m map) []) after

/-- `before_rules` and `after_rules` of `execute_inner` -/
def trackedMessages (db : Db) (owner accountId : String) : List Message :=
  (conversationCandidates db owner).filter fun m => m.accountId == accountId

def MailboxMessageChange.mentions (c : MailboxMessageChange) (id : String) : Bool :=
  c.before.any (fun m => m.id == id) || c.after.any fun m => m.id == id

/-- Every `before` removed from the messages, every `after` added. -/
def applyChanges (changes : List MailboxMessageChange) (messages : List Message) : List Message :=
  (messages.filter fun m => !changes.any fun c => c.before == some m) ++
    changes.filterMap MailboxMessageChange.after

structure ExactPatch (before after : List Message) (changes : List MailboxMessageChange) :
    Prop where
  found : ∀ c ∈ changes, ∀ m, c.before = some m → m ∈ before
  patched : (applyChanges changes before).Perm after
  once : changes.Pairwise fun c d => ∀ id, c.mentions id = true → d.mentions id = false
  proper : ∀ c ∈ changes, c.before ≠ c.after

def entries (changes : List MailboxMessageChange) : Set (Change Message) :=
  {c | ⟨c.1, c.2⟩ ∈ changes}

variable {c : MailboxMessageChange} {map : List Message} {db : Db} {owner accountId : String}
  {account : Account}

theorem mem_entries {changes : List MailboxMessageChange} :
    c ∈ changes ↔ (c.before, c.after) ∈ entries changes := Iff.rfl

theorem applyChanges_eq_patch (changes : List MailboxMessageChange) (messages : List Message) :
    {m | m ∈ applyChanges changes messages} = patch (entries changes) {m | m ∈ messages} := by
  ext m
  constructor
  · intro hm
    rcases List.mem_append.mp hm with hkept | hadded
    · obtain ⟨hmem, hnone⟩ := List.mem_filter.mp hkept
      refine Or.inl ⟨hmem, fun c hc hbefore => ?_⟩
      rw [Bool.not_eq_true', List.any_eq_false] at hnone
      exact hnone _ hc (by simpa using hbefore)
    · obtain ⟨c, hc, hafter⟩ := List.mem_filterMap.mp hadded
      exact Or.inr ⟨(c.before, c.after), hc, hafter⟩
  · rintro (⟨hmem, hkept⟩ | ⟨c, hc, hafter⟩)
    · apply List.mem_append_left
      apply List.mem_filter.mpr
      refine ⟨hmem, ?_⟩
      rw [Bool.not_eq_true', List.any_eq_false]
      intro c hc hbefore
      exact hkept (c.before, c.after) hc (by simpa using hbefore)
    · apply List.mem_append_right
      exact List.mem_filterMap.mpr ⟨_, hc, hafter⟩

theorem mentions_iff {id : String} :
    c.mentions id = true ↔ Change.Touches Message.id id (c.before, c.after) := by
  simp [MailboxMessageChange.mentions, Change.Touches, Option.any_eq_true]

section

variable {messages : List Message}

theorem keyed_findById (messages : List Message) : Keyed Message.id (findById messages) := by
  intro id m hfound
  simpa using List.find?_some hfound

variable (hunique : UniqueBy (fun m => some m.id) messages)
include hunique

theorem findById_eq_some {id : String} {m : Message} :
    findById messages id = some m ↔ m ∈ messages ∧ m.id = id := by
  constructor
  · intro hfound
    exact ⟨List.mem_of_find?_eq_some hfound, keyed_findById messages id m hfound⟩
  · rintro ⟨hm, rfl⟩
    exact findById_of_mem hunique hm

theorem rowsOf_findById : rowsOf (findById messages) = {m | m ∈ messages} := by
  ext m
  constructor
  · rintro ⟨id, hfound⟩
    exact ((findById_eq_some hunique).mp hfound).1
  · intro hm
    exact ⟨m.id, (findById_eq_some hunique).mpr ⟨hm, rfl⟩⟩

theorem findById_erase (id : String) : findById (messages.filter fun m => m.id != id) =
    Function.update (findById messages) id none := by
  funext other
  apply Option.ext
  intro m
  rw [findById_eq_some (hunique.filter _), List.mem_filter]
  by_cases hid : other = id
  · subst hid
    simp
  · rw [Function.update_of_ne hid, findById_eq_some hunique]
    constructor
    · rintro ⟨⟨hm, _⟩, hmid⟩
      exact ⟨hm, hmid⟩
    · rintro ⟨hm, rfl⟩
      exact ⟨⟨hm, by simpa using hid⟩, rfl⟩

theorem findById_congr {others : List Message} (hothers : UniqueBy (fun m => some m.id) others)
    (hsame : ∀ m, m ∈ others ↔ m ∈ messages) : findById others = findById messages := by
  funext id
  apply Option.ext
  intro m
  rw [findById_eq_some hothers, findById_eq_some hunique, hsame]

end

section

variable {before after : List Message} {changes : List MailboxMessageChange}
  (hbefore : UniqueBy (fun m => some m.id) before) (hafter : UniqueBy (fun m => some m.id) after)
  (hentries : entries changes = difference (findById before) (findById after))
  (hnodup : changes.Nodup)

include hentries in
theorem eq_of_mentions {c : MailboxMessageChange} {id : String} (hc : c ∈ changes)
    (hid : c.mentions id = true) : c = ⟨findById before id, findById after id⟩ := by
  rw [mem_entries, hentries] at hc
  have heq := eq_of_touches (keyed_findById before) (keyed_findById after) hc (mentions_iff.mp hid)
  cases c
  cases heq
  rfl

include hbefore hafter hentries in
theorem mem_applyChanges {m : Message} : m ∈ applyChanges changes before ↔ m ∈ after := by
  have hpatch := patch_difference (keyed_findById before) (keyed_findById after)
  rw [rowsOf_findById hbefore, rowsOf_findById hafter, ← hentries, ← applyChanges_eq_patch]
    at hpatch
  exact Set.ext_iff.mp hpatch m

include hentries hnodup in
theorem once_of_entries :
    changes.Pairwise fun c d => ∀ id, c.mentions id = true → d.mentions id = false := by
  apply hnodup.imp_of_mem
  intro c d hc hd hne id hid
  by_contra hother
  apply hne
  rw [eq_of_mentions hentries hc hid, eq_of_mentions hentries hd (by simpa using hother)]

include hentries in
theorem proper_of_entries : ∀ c ∈ changes, c.before ≠ c.after := by
  intro c hc
  rw [mem_entries, hentries] at hc
  obtain ⟨id, heq, hne⟩ := hc
  rw [(Prod.mk.inj heq).1, (Prod.mk.inj heq).2]
  exact hne

include hbefore hafter hentries hnodup in
theorem exactPatch_of_entries : ExactPatch before after changes := by
  have honce := once_of_entries hentries hnodup
  have hproper := proper_of_entries hentries
  refine ⟨?_, ?_, honce, hproper⟩
  · intro c hc m hm
    rw [mem_entries, hentries] at hc
    obtain ⟨id, heq, _⟩ := hc
    exact List.mem_of_find?_eq_some ((Prod.mk.inj heq).1.symm.trans hm)
  apply (List.perm_ext_iff_of_nodup ?_ hafter.nodup_map.of_map).mpr
  · exact fun m => mem_applyChanges hbefore hafter hentries
  · apply List.nodup_append.mpr
    refine ⟨hbefore.nodup_map.of_map.filter _, ?_, ?_⟩
    · apply List.pairwise_filterMap.mpr
      apply honce.imp
      intro c d hcd m hm n hn hmn
      have hmentions := hcd m.id (by simp [MailboxMessageChange.mentions, hm])
      simp [MailboxMessageChange.mentions, hn, hmn] at hmentions
    · -- a message that is added was not there before
      rintro m hm n hn rfl
      obtain ⟨c, hc, hadded⟩ := List.mem_filterMap.mp hn
      have hmentions : c.mentions m.id = true := by simp [MailboxMessageChange.mentions, hadded]
      have heq := eq_of_mentions hentries hc hmentions
      rw [findById_of_mem hbefore (List.mem_filter.mp hm).1] at heq
      apply hproper c hc
      rw [hadded, heq]

end

section

variable {before after : List Message}
  (hbefore : UniqueBy (fun m => some m.id) before) (hafter : UniqueBy (fun m => some m.id) after)
include hbefore hafter

theorem entries_messageChanges :
    entries (messageChanges before after) = difference (findById before) (findById after) := by
  ext ⟨x, y⟩
  constructor
  · intro hc
    rcases List.mem_append.mp hc with hdeleted | hwritten
    · obtain ⟨m, hm, heq⟩ := List.mem_map.mp hdeleted
      cases heq
      obtain ⟨hmem, hgone⟩ := List.mem_filter.mp hm
      rw [Option.isNone_iff_eq_none] at hgone
      have hold := findById_of_mem hbefore hmem
      exact ⟨m.id, by rw [hold, hgone], by simp [hold, hgone]⟩
    · obtain ⟨m, hm, hsome⟩ := List.mem_filterMap.mp hwritten
      have hnew := findById_of_mem hafter hm
      dsimp only at hsome
      split_ifs at hsome with hsame
      cases hsome
      exact ⟨m.id, by rw [hnew], by rw [hnew]; exact hsame⟩
  · rintro ⟨id, heq, hne⟩
    cases heq
    cases hnew : findById after id with
    | none =>
      obtain ⟨m, hold⟩ := Option.ne_none_iff_exists'.mp (hnew ▸ hne)
      obtain ⟨hm, rfl⟩ := (findById_eq_some hbefore).mp hold
      apply List.mem_append_left
      rw [hold]
      exact List.mem_map.mpr ⟨m, List.mem_filter.mpr ⟨hm, by simp [hnew]⟩, rfl⟩
    | some m =>
      obtain ⟨hm, rfl⟩ := (findById_eq_some hafter).mp hnew
      apply List.mem_append_right
      apply List.mem_filterMap.mpr
      refine ⟨m, hm, ?_⟩
      dsimp only
      rw [if_neg (hnew ▸ hne)]

theorem nodup_messageChanges : (messageChanges before after).Nodup := by
  apply List.nodup_append.mpr
  refine ⟨?_, ?_, ?_⟩
  · apply (hbefore.nodup_map.of_map.filter _).map
    intro m n hmn
    cases hmn
    rfl
  · apply hafter.nodup_map.of_map.filterMap
    intro m n c hm hn
    rw [Option.mem_def] at hm hn
    dsimp only at hm hn
    split_ifs at hm hn
    cases hm
    exact (Option.some.inj (congrArg MailboxMessageChange.after (Option.some.inj hn))).symm
  · intro c hc d hd hcd
    obtain ⟨m, _, rfl⟩ := List.mem_map.mp hc
    obtain ⟨n, _, hn⟩ := List.mem_filterMap.mp hd
    dsimp only at hn
    split_ifs at hn
    rw [← Option.some.inj hn] at hcd
    cases congrArg MailboxMessageChange.after hcd

end

theorem uniqueBy_of_perm {messages others : List Message} (hperm : messages.Perm others)
    (h : UniqueBy (fun m => some m.id) messages) : UniqueBy (fun m => some m.id) others :=
  UniqueBy.of_nodup_map ((hperm.map Message.id).nodup_iff.mp h.nodup_map)

theorem insertById_perm {message : Message} (hnew : ∀ m ∈ map, m.id ≠ message.id) :
    (insertById message map).Perm (message :: map) := by
  induction map with
  | nil => exact List.Perm.refl _
  | cons m rest ih =>
    have hrest := ih fun n hn => hnew n (List.mem_cons_of_mem _ hn)
    simp only [insertById]
    split_ifs with hless hgreater
    · exact List.Perm.refl _
    · exact (hrest.cons m).trans (List.Perm.swap message m rest)
    · exact absurd (le_antisymm (not_lt.mp hless) (not_lt.mp hgreater)) (hnew m List.mem_cons_self)

theorem foldl_insertById_perm {messages : List Message}
    (hunique : UniqueBy (fun m => some m.id) (messages ++ map)) :
    (messages.foldl (fun map m => insertById m map) map).Perm (messages ++ map) := by
  induction messages generalizing map with
  | nil => exact List.Perm.refl _
  | cons m messages ih =>
    have hmoved : (m :: messages ++ map).Perm (messages ++ m :: map) := List.perm_middle.symm
    obtain ⟨hfirst, _⟩ := List.pairwise_cons.mp hunique
    have hinsert : (insertById m map).Perm (m :: map) := by
      apply insertById_perm
      intro n hn hid
      exact hfirst n (List.mem_append_right _ hn) m.id rfl (congrArg some hid)
    have hboth := (hinsert.append_left messages).trans hmoved.symm
    exact (ih (uniqueBy_of_perm hboth.symm hunique)).trans hboth

section

variable {before after : List Message} (hbefore : UniqueBy (fun m => some m.id) before)
  (hafter : UniqueBy (fun m => some m.id) after)
include hbefore hafter

theorem entries_changesByRemoval :
    entries (changesByRemoval before after) = difference (findById before) (findById after) := by
  induction after generalizing before with
  | nil =>
    ext ⟨x, y⟩
    constructor
    · intro hc
      obtain ⟨m, hm, heq⟩ := List.mem_map.mp hc
      cases heq
      have hold := findById_of_mem hbefore hm
      exact ⟨m.id, by rw [hold]; rfl, by rw [hold]; exact Option.some_ne_none m⟩
    · rintro ⟨id, heq, hne⟩
      cases heq
      obtain ⟨m, hold⟩ := Option.ne_none_iff_exists'.mp hne
      rw [hold]
      exact List.mem_map.mpr ⟨m, ((findById_eq_some hbefore).mp hold).1, rfl⟩
  | cons message after ih =>
    obtain ⟨hfirst, hrest⟩ := List.pairwise_cons.mp hafter
    have hothers : (message :: after).filter (fun m => m.id != message.id) = after := by
      rw [List.filter_cons_of_neg (by simp), List.filter_eq_self]
      intro m hm
      have hne : m.id ≠ message.id := fun hid => hfirst m hm message.id rfl (congrArg some hid)
      simpa using hne
    have hloop := ih (hbefore.filter fun m => m.id != message.id) hrest
    have hright := findById_erase hafter message.id
    rw [hothers] at hright
    rw [findById_erase hbefore, hright] at hloop
    rw [difference_erase message.id, ← hloop, findById_of_mem hafter List.mem_cons_self]
    ext c
    simp only [changesByRemoval, entries]
    split_ifs with hsame
    · simp [hsame]
    · simp [hsame, Prod.ext_iff]

theorem nodup_changesByRemoval : (changesByRemoval before after).Nodup := by
  induction after generalizing before with
  | nil =>
    apply hbefore.nodup_map.of_map.map
    intro m n hmn
    cases hmn
    rfl
  | cons message after ih =>
    obtain ⟨hfirst, hrest⟩ := List.pairwise_cons.mp hafter
    have hkept := hbefore.filter fun m => m.id != message.id
    simp only [changesByRemoval]
    split_ifs
    · exact ih hkept hrest
    · apply List.nodup_cons.mpr
      refine ⟨fun hagain => ?_, ih hkept hrest⟩
      rw [mem_entries, entries_changesByRemoval hkept hrest] at hagain
      obtain ⟨id, heq, _⟩ := hagain
      have hmem := List.mem_of_find?_eq_some (Prod.mk.inj heq).2.symm
      exact hfirst message hmem message.id rfl rfl

end

section

variable {before after : List Message}
  (hbefore : UniqueBy (fun m => some m.id) before) (hafter : UniqueBy (fun m => some m.id) after)
include hbefore

theorem collected_perm : (before.foldl (fun map m => insertById m map) []).Perm before := by
  have hunique : UniqueBy (fun m => some m.id) (before ++ []) := by rwa [List.append_nil]
  have hperm := foldl_insertById_perm hunique
  rwa [List.append_nil] at hperm

include hafter

theorem entries_netMessageChanges :
    entries (netMessageChanges before after) = difference (findById before) (findById after) := by
  have hperm := collected_perm hbefore
  have hmap := uniqueBy_of_perm hperm.symm hbefore
  rw [netMessageChanges, entries_changesByRemoval hmap hafter,
    findById_congr hbefore hmap fun m => hperm.mem_iff]

theorem nodup_netMessageChanges : (netMessageChanges before after).Nodup :=
  nodup_changesByRemoval (uniqueBy_of_perm (collected_perm hbefore).symm hbefore) hafter

theorem netMessageChanges_perm :
    (netMessageChanges before after).Perm (messageChanges before after) := by
  apply (List.perm_ext_iff_of_nodup (nodup_netMessageChanges hbefore hafter)
    (nodup_messageChanges hbefore hafter)).mpr
  intro c
  rw [mem_entries, mem_entries, entries_netMessageChanges hbefore hafter,
    entries_messageChanges hbefore hafter]

end

theorem mem_trackedMessages (haccount : db.account accountId = some account)
    (howner : account.userId = owner) {m : Message} : m ∈ trackedMessages db owner accountId ↔
      m ∈ syncMessageSummaries db accountId := by
  rw [mem_syncMessageSummaries, trackedMessages, conversationCandidates, List.mem_filter,
    List.mem_map, beq_iff_eq]
  constructor
  · rintro ⟨⟨row, hrow, rfl⟩, haccountId⟩
    rw [mem_orderBy] at hrow
    exact ⟨row, (List.mem_filter.mp hrow).1, haccountId, rfl⟩
  · rintro ⟨row, hrow, rfl, rfl⟩
    refine ⟨⟨row, ?_, rfl⟩, rfl⟩
    rw [mem_orderBy]
    apply List.mem_filter.mpr
    refine ⟨hrow, ?_⟩
    rw [haccount]
    simp [ownedBy, howner]

theorem uniqueBy_trackedMessages (hids : UniqueBy (fun m => some m.id) db.messages)
    (owner accountId : String) :
    UniqueBy (fun m => some m.id) (trackedMessages db owner accountId) := by
  apply List.Pairwise.filter
  apply List.pairwise_map.mpr
  exact uniqueBy_of_perm (orderBy_perm _ _).symm (hids.filter _)

theorem findById_trackedMessages (hids : UniqueBy (fun m => some m.id) db.messages)
    (haccount : db.account accountId = some account) (howner : account.userId = owner) :
    findById (trackedMessages db owner accountId) =
      findById (syncMessageSummaries db accountId) :=
  findById_congr (uniqueBy_syncMessageSummaries hids accountId)
    (uniqueBy_trackedMessages hids owner accountId) fun _ => mem_trackedMessages haccount howner

/-- The list of a commit is an exact patch; the other computation has the same entries; and what
`execute_inner` reports composes the changes before the commit, those of the commit and those
after it. -/
theorem messageChanges_exact [Platform] :
    (∀ db runIds plan completedAt result db', UniqueBy (fun m => some m.id) db.messages →
      commitMailboxSync db runIds plan completedAt = .ok (result, db') →
      ExactPatch (syncMessageSummaries db plan.accountId) (syncMessageSummaries db' plan.accountId)
        result.messageChanges) ∧
    (∀ before after : List Message, UniqueBy (fun m => some m.id) before →
      UniqueBy (fun m => some m.id) after →
      (netMessageChanges before after).Perm (messageChanges before after)) ∧
    ∀ db runIds plan completedAt result db', UniqueBy (fun m => some m.id) db.messages →
      commitMailboxSync db runIds plan completedAt = .ok (result, db') →
      ∀ start last : Db, UniqueBy (fun m => some m.id) start.messages →
      UniqueBy (fun m => some m.id) last.messages →
      ∀ account account' : Account, start.account plan.accountId = some account →
      last.account plan.accountId = some account' → account'.userId = account.userId →
      entries (netMessageChanges (trackedMessages start account.userId plan.accountId)
          (trackedMessages last account.userId plan.accountId)) =
        compose Message.id
          (compose Message.id
            (entries (messageChanges (syncMessageSummaries start plan.accountId)
              (syncMessageSummaries db plan.accountId)))
            (entries result.messageChanges))
          (entries (messageChanges (syncMessageSummaries db' plan.accountId)
            (syncMessageSummaries last plan.accountId))) := by
  have hlist : ∀ db runIds plan completedAt result db',
      UniqueBy (fun m => some m.id) db.messages →
      commitMailboxSync db runIds plan completedAt = .ok (result, db') →
      UniqueBy (fun m => some m.id) (syncMessageSummaries db' plan.accountId) ∧
      result.messageChanges = messageChanges (syncMessageSummaries db plan.accountId)
        (syncMessageSummaries db' plan.accountId) := by
    intro db runIds plan completedAt result db' hids hcommit
    obtain ⟨_, _, _, _, _, _, hchanges⟩ := commitMailboxSync_ok hcommit
    exact ⟨uniqueBy_syncMessageSummaries (commitMailboxSync_ids hids hcommit) _, hchanges⟩
  refine ⟨?_, fun _ _ => netMessageChanges_perm, ?_⟩
  · intro db runIds plan completedAt result db' hids hcommit
    obtain ⟨hafter, hchanges⟩ := hlist db runIds plan completedAt result db' hids hcommit
    have hbefore := uniqueBy_syncMessageSummaries hids plan.accountId
    rw [hchanges]
    exact exactPatch_of_entries hbefore hafter (entries_messageChanges hbefore hafter)
      (nodup_messageChanges hbefore hafter)
  · intro db runIds plan completedAt result db' hids hcommit start last hstart hlast account
      account' haccount haccount' howner
    obtain ⟨hafter, hchanges⟩ := hlist db runIds plan completedAt result db' hids hcommit
    have hsummaries : ∀ d : Db, UniqueBy (fun m => some m.id) d.messages →
        UniqueBy (fun m => some m.id) (syncMessageSummaries d plan.accountId) :=
      fun d hd => uniqueBy_syncMessageSummaries hd _
    rw [hchanges, entries_netMessageChanges (uniqueBy_trackedMessages hstart _ _)
      (uniqueBy_trackedMessages hlast _ _), findById_trackedMessages hstart haccount rfl,
      findById_trackedMessages hlast haccount' howner,
      entries_messageChanges (hsummaries start hstart) (hsummaries db hids),
      entries_messageChanges (hsummaries db hids) hafter,
      entries_messageChanges hafter (hsummaries last hlast),
      compose_difference (keyed_findById _) (keyed_findById _) (keyed_findById _),
      compose_difference (keyed_findById _) (keyed_findById _) (keyed_findById _)]

/-- A mail is moved back before the commit, and the two copies that it stores are gone after it. -/
theorem messageChanges_exact_copies :
    let _ := Platform.plain
    ∃ result db', commitMailboxSync labelledDb (fun _ _ _ => "run") copiesPlan 0 = .ok (result, db') ∧
      ExactPatch (syncMessageSummaries labelledDb "a") (syncMessageSummaries db' "a")
        result.messageChanges ∧
      (netMessageChanges movedDb.messages labelledDb.messages).Perm
        (messageChanges movedDb.messages labelledDb.messages) ∧
      entries (netMessageChanges (trackedMessages movedDb "u" "a")
          (trackedMessages labelledDb "u" "a")) =
        compose Message.id
          (compose Message.id
            (entries (messageChanges (syncMessageSummaries movedDb "a")
              (syncMessageSummaries labelledDb "a")))
            (entries result.messageChanges))
          (entries (messageChanges (syncMessageSummaries db' "a")
            (syncMessageSummaries labelledDb "a"))) := by
  intro platform
  have hok : (commitMailboxSync labelledDb (fun _ _ _ => "run") copiesPlan 0).isOk = true := by
    subst platform
    decide +kernel
  have hlabelled : UniqueBy (fun m => some m.id) labelledDb.messages :=
    UniqueBy.of_nodup_map (by decide)
  have hmoved : UniqueBy (fun m => some m.id) movedDb.messages := UniqueBy.of_nodup_map (by decide)
  obtain ⟨⟨result, db'⟩, hcommit⟩ := exists_ok_of_isOk hok
  obtain ⟨hexact, hsame, hnet⟩ := messageChanges_exact
  exact ⟨result, db', hcommit, hexact labelledDb _ copiesPlan 0 result db' hlabelled hcommit,
    hsame _ _ hmoved hlabelled,
    hnet labelledDb _ copiesPlan 0 result db' hlabelled hcommit movedDb labelledDb hmoved
      hlabelled _ _ rfl rfl rfl⟩

end IMail
