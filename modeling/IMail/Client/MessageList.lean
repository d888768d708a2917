import IMail.Client.MessageCache
import IMail.Transition.Run

/-!
# The list of the client and the list of the server

`useMessageCollection`: a first page, more pages behind its cursor, and `sync.completed` events
whose changes are applied to what is shown. The list of the server are the messages that the query
matches, newest first, served in pages by cursor.
-/

namespace IMail

open Relational Transition

def messagePageSize : ℕ := 60

structure MessageCollection where
  messages : List ClientMessage := []
  messageTotal : ℤ := 0
  hasMore : Bool := false
  nextCursor : Option MessageCursor := none
  deriving DecidableEq, Repr

/-- The messages of the server next to the state of the client. -/
structure ListView where
  server : List Message
  client : MessageCollection := {}
  deriving DecidableEq, Repr

/-- A step with the time it is taken at. An event comes with the messages of the server after
it. -/
inductive ListStep
  | load (now : String)
  | loadMore (now : String)
  | synced (changes : List MailboxMessageChange) (after : List Message) (now : String)
  deriving DecidableEq, Repr

section

variable [Browser] (params : QueryParams) (accounts : List Account)

def selectsAt (now : String) (m : Message) : Bool := messageMatchesQuery m params accounts now

def serverList (now : String) (messages : List Message) : List Message :=
  orderBy Message.newness (messages.filter (selectsAt params accounts now))

/-- The answer to `GET /api/messages` -/
def serverPage (now : String) (cursor : Option MessageCursor) (messages : List Message) :
    Page Message MessageCursor ℕ :=
  let whole := serverList params accounts now messages
  pageOf Message.cursor whole.length messagePageSize (behind cursor whole)

def MessageCollection.showing (client : MessageCollection) (messages : List ClientMessage)
    (page : Page Message MessageCursor ℕ) : MessageCollection :=
  { client with
    messages
    messageTotal := page.info
    hasMore := page.hasMore
    nextCursor := page.next }

def ListView.step (s : ListView) : ListStep → ListView
  | .load now =>
    let page := serverPage params accounts now none s.server
    { s with client := s.client.showing (page.rows.map fun m => { summary := m }) page }
  | .loadMore now =>
    if s.client.hasMore then
      let page := serverPage params accounts now s.client.nextCursor s.server
      { s with
        client := s.client.showing (appendMessagePage s.client.messages
          (page.rows.map fun m => { summary := m })) page }
    else s
  | .synced changes after now =>
    let selects := selectsAt params accounts now
    { server := after
      client :=
        -- with advanced filters the event only asks for the first page again
        if (params.get "filters").isSome || changes.isEmpty then s.client
        else
          { s.client with
            messages := applyMessageChanges selects s.client.messages changes
            messageTotal := max 0 (s.client.messageTotal + messageTotalDelta selects changes) } }

/-- The client shows the first messages of the server's list, and all of them if there are no
more. -/
structure ShowsFirst (now : String) (s : ListView) : Prop where
  distinct : (s.client.messages.map ClientMessage.id).Nodup
  sorted : Ascending ClientMessage.newness s.client.messages
  first : s.client.messages.map ClientMessage.summary <+: serverList params accounts now s.server
  total : s.client.messageTotal = (serverList params accounts now s.server).length
  whole : s.client.hasMore = false →
    s.client.messages.map ClientMessage.summary = serverList params accounts now s.server

def SameSelection (start now : String) (messages : List Message) : Prop :=
  ∀ m ∈ messages, selectsAt params accounts now m = selectsAt params accounts start m

/-- The changes of an event are an exact patch of the messages. -/
def PatchesExactly (start : String) (s : ListView) : ListStep → Prop
  | .load now => SameSelection params accounts start now s.server
  | .loadMore now => SameSelection params accounts start now s.server
  | .synced changes after now =>
    ExactPatch s.server after changes ∧ UniqueBy (fun m => some m.id) after ∧
      SameSelection params accounts start now (s.server ++ after)

/-- While there is more to load, no changed message that matches lies behind what is loaded. -/
def WithinLoaded (s : ListView) : ListStep → Prop
  | .synced changes _ now => ∀ cursor ∈ s.client.nextCursor, ∀ change ∈ changes,
      ∀ m ∈ change.after, selectsAt params accounts now m = true →
        m.newness ≤ cursor.newness
  | _ => True

def loadedPart (cursor : Option MessageCursor) (rows : List Message) : List Message :=
  match cursor with
  | none => rows
  | some c => rows.filter fun m => m.newness ≤ c.newness

/-- The client shows what is up to its cursor. -/
structure Loaded (start : String) (s : ListView) : Prop where
  unique : UniqueBy (fun m => some m.id) s.server
  rows : s.client.messages.map ClientMessage.summary =
    loadedPart s.client.nextCursor (serverList params accounts start s.server)
  more : s.client.hasMore = s.client.nextCursor.isSome
  total : s.client.messageTotal = (serverList params accounts start s.server).length

variable {rows : List Message}

omit [Browser] in
theorem Ascending.loadedPart_append (h : Ascending Message.newness rows) (c : MessageCursor) :
    loadedPart (some c) rows ++ rowsAfter Message.newness c.newness rows = rows := by
  have hnot : rowsAfter Message.newness c.newness rows =
      rows.filter fun m => !decide (m.newness ≤ c.newness) := by
    apply List.filter_congr
    intro m _
    rw [← decide_not, decide_eq_decide, not_le]
  apply Ascending.eq_of_perm _ h
  · rw [hnot]
    exact List.filter_append_perm _ rows
  · apply List.pairwise_append.mpr
    refine ⟨h.filter _, h.filter _, ?_⟩
    intro a ha b hb
    have hle : a.newness ≤ c.newness := by simpa using (List.mem_filter.mp ha).2
    exact hle.trans_lt (mem_rowsAfter.mp hb).2

omit [Browser] in
theorem loadedPart_front (h : Ascending Message.newness rows) (cursor : Option MessageCursor) :
    loadedPart cursor rows <+: rows := by
  cases cursor with
  | none => exact List.prefix_rfl
  | some c => exact ⟨_, Ascending.loadedPart_append h c⟩

variable {front : List Message} {cursor : Option MessageCursor}

omit [Browser] in
theorem loadedPart_page {rest : List Message} (h : Ascending Message.newness (front ++ rest))
    (total : ℕ) :
    front ++ rest.take messagePageSize =
      loadedPart (pageOf Message.cursor total messagePageSize rest).next (front ++ rest) := by
  unfold pageOf
  dsimp only
  split_ifs with hmore
  · rcases List.eq_nil_or_concat (rest.take messagePageSize) with hnil | ⟨init, r, hpage⟩
    · have hempty := (List.take_eq_nil_iff.mp hnil).resolve_left (by decide)
      simp [hempty] at hmore
    · rw [List.concat_eq_append] at hpage
      have hrest : rest = init ++ r :: rest.drop messagePageSize := by
        conv_lhs => rw [← List.take_append_drop messagePageSize rest, hpage]
        simp
      have hsplit : front ++ rest = (front ++ init) ++ r :: rest.drop messagePageSize := by
        conv_lhs => rw [hrest]
        simp
      rw [hpage, List.getLast?_concat, Option.map_some, hsplit]
      rw [hsplit] at h
      exact (h.filter_le_append.trans (List.append_assoc _ _ _)).symm
  · rw [List.take_of_length_le (not_lt.mp hmore)]
    rfl

omit [Browser] in
theorem pageOf_hasMore (total : ℕ) (rest : List Message) (token : Message → MessageCursor) :
    (pageOf token total messagePageSize rest).hasMore =
      (pageOf token total messagePageSize rest).next.isSome := by
  unfold pageOf
  dsimp only
  split_ifs with hmore
  · have hne : rest.take messagePageSize ≠ [] := by
      intro hnil
      have hempty := (List.take_eq_nil_iff.mp hnil).resolve_left (by decide)
      simp [hempty] at hmore
    simp [hmore, List.getLast?_isSome, hne]
  · simpa using hmore

variable {start now : String} {messages : List Message}

theorem serverList_congr (h : SameSelection params accounts start now messages) :
    serverList params accounts now messages = serverList params accounts start messages := by
  unfold serverList
  rw [List.filter_congr h]

theorem ascending_serverList (h : UniqueBy (fun m => some m.id) messages) (now : String) :
    Ascending Message.newness (serverList params accounts now messages) :=
  ascending_orderBy (nodup_newness (h.filter _))

theorem mem_serverList {m : Message} :
    m ∈ serverList params accounts now messages ↔
      m ∈ messages ∧ selectsAt params accounts now m = true := by
  rw [serverList, mem_orderBy, List.mem_filter]

variable {s : ListView}

theorem Loaded.showsFirst (h : Loaded params accounts start s) :
    ShowsFirst params accounts start s := by
  have hascending := ascending_serverList params accounts h.unique start
  have hfirst : s.client.messages.map ClientMessage.summary <+:
      serverList params accounts start s.server := by
    rw [h.rows]
    exact loadedPart_front hascending _
  have hsorted := List.pairwise_map.mp (hascending.sublist hfirst.sublist)
  refine ⟨?_, hsorted, hfirst, h.total, ?_⟩
  · have hids : ((serverList params accounts start s.server).map Message.id).Nodup :=
      ((orderBy_perm _ _).map Message.id).nodup_iff.mpr (UniqueBy.nodup_map (h.unique.filter _))
    have hshown := hids.sublist (hfirst.sublist.map Message.id)
    rwa [List.map_map] at hshown
  · intro hnone
    have hcursor : s.client.nextCursor = none := by
      rw [← Option.not_isSome_iff_eq_none, ← h.more, hnone]
      decide
    rw [h.rows, hcursor]
    rfl

theorem loaded_showing {messages : List ClientMessage}
    (hunique : UniqueBy (fun m => some m.id) s.server)
    (hsame : SameSelection params accounts start now s.server)
    (hfront : front ++ behind cursor (serverList params accounts start s.server) =
      serverList params accounts start s.server)
    (hmessages : messages.map ClientMessage.summary =
      front ++ (serverPage params accounts now cursor s.server).rows) :
    Loaded params accounts start { s with
      client := s.client.showing messages (serverPage params accounts now cursor s.server) } := by
  have hlist := serverList_congr params accounts hsame
  have hascending := ascending_serverList params accounts hunique start
  refine ⟨hunique, ?_, ?_, ?_⟩
  · show messages.map ClientMessage.summary =
      loadedPart (serverPage params accounts now cursor s.server).next _
    rw [hmessages]
    simp only [serverPage, hlist]
    have hpage := loadedPart_page (hfront.symm ▸ hascending)
      (serverList params accounts start s.server).length
    rw [hfront] at hpage
    exact hpage
  · show (serverPage params accounts now cursor s.server).hasMore =
      (serverPage params accounts now cursor s.server).next.isSome
    exact pageOf_hasMore _ _ _
  · show (((serverPage params accounts now cursor s.server).info : ℕ) : ℤ) = _
    simp only [serverPage, hlist, pageOf]

omit [Browser] in
theorem appendMessagePage_of_new {current : List ClientMessage} {incoming : List Message}
    (hnew : ∀ m ∈ incoming, ∀ old ∈ current, old.id ≠ m.id) :
    (appendMessagePage current (incoming.map fun m => { summary := m })).map
      ClientMessage.summary = current.map ClientMessage.summary ++ incoming := by
  unfold appendMessagePage
  rw [List.filter_eq_self.mpr]
  · rw [List.map_append, List.map_map]
    congr 1
    exact List.map_id _
  · intro entry hentry
    obtain ⟨m, hm, rfl⟩ := List.mem_map.mp hentry
    rw [Bool.not_eq_true', List.any_eq_false]
    intro old hold hid
    exact hnew m hm old hold (beq_iff_eq.mp hid)

theorem Loaded.loadMore (h : Loaded params accounts start s)
    (hsame : SameSelection params accounts start now s.server) :
    Loaded params accounts start (s.step params accounts (.loadMore now)) := by
  simp only [ListView.step]
  split_ifs with hmore
  · have hascending := ascending_serverList params accounts h.unique start
    obtain ⟨c, hc⟩ := Option.isSome_iff_exists.mp (h.more.symm.trans hmore)
    have hrows := h.rows
    rw [hc] at hrows ⊢
    apply loaded_showing params accounts h.unique hsame (Ascending.loadedPart_append hascending c)
    rw [appendMessagePage_of_new, hrows]
    intro m hm old hold hid
    have hbehind : m ∈ rowsAfter Message.newness c.newness
        (serverList params accounts start s.server) := by
      rw [← serverList_congr params accounts hsame]
      exact List.mem_of_mem_take hm
    have hshown : old.summary ∈ loadedPart (some c) (serverList params accounts start s.server) := by
      rw [← hrows]
      exact List.mem_map_of_mem hold
    obtain ⟨hserver, hnewer⟩ := List.mem_filter.mp hshown
    obtain ⟨hmem, hlater⟩ := mem_rowsAfter.mp hbehind
    have heq := h.unique.eq_of_mem ((mem_serverList params accounts).mp hserver).1
      ((mem_serverList params accounts).mp hmem).1 (congrArg some hid) rfl
    rw [heq] at hnewer
    exact absurd hlater (not_lt.mpr (by simpa using hnewer))
  · exact h

theorem loaded_load (hunique : UniqueBy (fun m => some m.id) s.server)
    (hsame : SameSelection params accounts start now s.server) :
    Loaded params accounts start (s.step params accounts (.load now)) := by
  apply loaded_showing params accounts hunique hsame (List.nil_append _)
  rw [List.map_map]
  exact List.map_id _

section

omit [Browser]

def Displaces (selects : Message → Bool) (c : MailboxMessageChange) (id : String) : Prop :=
  (∃ m, c.before = some m ∧ m.id = id) ∨
    ∃ m, c.after = some m ∧ selects m = true ∧ m.id = id

theorem mentions_of_displaces {selects : Message → Bool} {c : MailboxMessageChange} {id : String}
    (h : Displaces selects c id) : c.mentions id = true := by
  rcases h with ⟨m, hm, rfl⟩ | ⟨m, hm, _, rfl⟩
  · simp [MailboxMessageChange.mentions, hm]
  · simp [MailboxMessageChange.mentions, hm]

theorem mem_mapSet {next : List ClientMessage} {m x : ClientMessage} :
    x ∈ mapSet next m ↔ (x ∈ next ∧ x.id ≠ m.id) ∨ x = m := by
  unfold mapSet
  split_ifs with hthere
  · rw [List.mem_map]
    constructor
    · rintro ⟨old, hold, rfl⟩
      split_ifs with hid
      · exact Or.inr rfl
      · exact Or.inl ⟨hold, by simpa using hid⟩
    · rintro (⟨hx, hid⟩ | rfl)
      · exact ⟨x, hx, if_neg (by simpa using hid)⟩
      · obtain ⟨old, hold, hid⟩ := List.any_eq_true.mp hthere
        exact ⟨old, hold, if_pos hid⟩
  · rw [Bool.not_eq_true, List.any_eq_false] at hthere
    rw [List.mem_append, List.mem_singleton]
    constructor
    · rintro (hx | rfl)
      · exact Or.inl ⟨hx, by simpa using hthere x hx⟩
      · exact Or.inr rfl
    · rintro (⟨hx, _⟩ | rfl)
      · exact Or.inl hx
      · exact Or.inr rfl

theorem nodup_mapSet {next : List ClientMessage} (m : ClientMessage)
    (hunique : (next.map ClientMessage.id).Nodup) :
    ((mapSet next m).map ClientMessage.id).Nodup := by
  unfold mapSet
  split_ifs with hthere
  · have hids : (next.map fun old => if old.id == m.id then m else old).map ClientMessage.id =
        next.map ClientMessage.id := by
      rw [List.map_map]
      apply List.map_congr_left
      intro old _
      rw [Function.comp_apply]
      split_ifs with hid
      · exact (beq_iff_eq.mp hid).symm
      · rfl
    rwa [hids]
  · rw [Bool.not_eq_true, List.any_eq_false] at hthere
    rw [List.map_append, List.map_singleton]
    apply List.nodup_append.mpr
    refine ⟨hunique, List.nodup_singleton _, ?_⟩
    intro id hid other hother heq
    obtain ⟨old, hold, rfl⟩ := List.mem_map.mp hid
    rw [List.mem_singleton.mp hother] at heq
    exact hthere old hold (by simpa using heq)

variable {selects : Message → Bool} {current : List ClientMessage}

variable {next : List ClientMessage}

variable {c : MailboxMessageChange} {before after : List Message}

theorem mem_deleteBefore {x : ClientMessage} :
    x ∈ deleteBefore next c ↔ x ∈ next ∧ ¬∃ b, c.before = some b ∧ b.id = x.id := by
  unfold deleteBefore
  split
  · rename_i b hb
    rw [List.mem_filter, bne_iff_ne]
    apply and_congr_right
    intro _
    constructor
    · rintro hne ⟨other, hother, hid⟩
      rw [hb] at hother
      cases hother
      exact hne hid.symm
    · intro hno hid
      exact hno ⟨b, hb, hid.symm⟩
  · rename_i hnone
    simp [hnone]

theorem nodup_applyChange (c : MailboxMessageChange) (hunique : (next.map ClientMessage.id).Nodup) :
    ((applyChange selects current next c).map ClientMessage.id).Nodup := by
  have hkept : ((deleteBefore next c).map ClientMessage.id).Nodup := by
    unfold deleteBefore
    split
    · exact hunique.sublist (List.filter_sublist.map _)
    · exact hunique
  unfold applyChange
  split
  · exact nodup_mapSet _ hkept
  · exact hkept

variable {m : Message}

theorem mem_applyChange :
    m ∈ (applyChange selects current next c).map ClientMessage.summary ↔
      (m ∈ next.map ClientMessage.summary ∧ ¬Displaces selects c m.id) ∨
        (c.after = some m ∧ selects m = true) := by
  unfold applyChange
  split
  · rename_i a hafter
    obtain ⟨hsome, hselects⟩ := Option.filter_eq_some_iff.mp hafter
    constructor
    · intro hm
      obtain ⟨x, hx, rfl⟩ := List.mem_map.mp hm
      rcases mem_mapSet.mp hx with ⟨hx, hother⟩ | rfl
      · obtain ⟨hx, hbefore⟩ := mem_deleteBefore.mp hx
        refine Or.inl ⟨List.mem_map_of_mem hx, ?_⟩
        rintro (hb | ⟨a', ha', _, hsame⟩)
        · exact hbefore hb
        · rw [hsome] at ha'
          cases ha'
          exact hother hsame.symm
      · exact Or.inr ⟨hsome, hselects⟩
    · rintro (⟨hm, hnot⟩ | ⟨ha, _⟩)
      · obtain ⟨x, hx, rfl⟩ := List.mem_map.mp hm
        apply List.mem_map_of_mem
        apply mem_mapSet.mpr
        refine Or.inl ⟨mem_deleteBefore.mpr ⟨hx, fun hb => hnot (Or.inl hb)⟩, ?_⟩
        intro hsame
        exact hnot (Or.inr ⟨a, hsome, hselects, hsame.symm⟩)
      · rw [hsome] at ha
        cases ha
        exact List.mem_map.mpr ⟨_, mem_mapSet.mpr (Or.inr rfl), rfl⟩
  · rename_i hafter
    have hnone : ∀ a, c.after = some a → ¬selects a = true := by
      intro a ha hselects
      rw [ha, Option.filter_some, if_pos hselects] at hafter
      cases hafter
    constructor
    · intro hm
      obtain ⟨x, hx, rfl⟩ := List.mem_map.mp hm
      obtain ⟨hx, hbefore⟩ := mem_deleteBefore.mp hx
      refine Or.inl ⟨List.mem_map_of_mem hx, ?_⟩
      rintro (hb | ⟨a, ha, hselects, _⟩)
      · exact hbefore hb
      · exact hnone a ha hselects
    · rintro (⟨hm, hnot⟩ | ⟨ha, hselects⟩)
      · obtain ⟨x, hx, rfl⟩ := List.mem_map.mp hm
        apply List.mem_map_of_mem
        exact mem_deleteBefore.mpr ⟨hx, fun hb => hnot (Or.inl hb)⟩
      · exact absurd hselects (hnone m ha)

variable {changes : List MailboxMessageChange}

/-- What is shown after the changes: what was shown and is not displaced, and the changed messages
that match. -/
theorem mem_foldl_applyChange
    (honce : changes.Pairwise fun c d => ∀ id, c.mentions id = true → d.mentions id = false) :
    m ∈ (changes.foldl (applyChange selects current) next).map ClientMessage.summary ↔
      (m ∈ next.map ClientMessage.summary ∧ ∀ c ∈ changes, ¬Displaces selects c m.id) ∨
        ∃ c ∈ changes, c.after = some m ∧ selects m = true := by
  induction changes generalizing next with
  | nil => simp
  | cons c changes ih =>
    obtain ⟨hfirst, hrest⟩ := List.pairwise_cons.mp honce
    rw [List.foldl_cons, ih hrest, mem_applyChange]
    constructor
    · rintro (⟨⟨hm, hc⟩ | hafter, hothers⟩ | ⟨d, hd, hafter⟩)
      · exact Or.inl ⟨hm, List.forall_mem_cons.mpr ⟨hc, hothers⟩⟩
      · exact Or.inr ⟨c, List.mem_cons_self, hafter⟩
      · exact Or.inr ⟨d, List.mem_cons_of_mem _ hd, hafter⟩
    · rintro (⟨hm, hall⟩ | ⟨d, hd, hafter⟩)
      · obtain ⟨hc, hothers⟩ := List.forall_mem_cons.mp hall
        exact Or.inl ⟨Or.inl ⟨hm, hc⟩, hothers⟩
      · rcases List.mem_cons.mp hd with rfl | hd
        · -- no later change is about this message
          left
          refine ⟨Or.inr hafter, fun e he hdisplaces => ?_⟩
          have hmentions : d.mentions m.id = true := by
            simp [MailboxMessageChange.mentions, hafter.1]
          have hnot := hfirst e he m.id hmentions
          rw [mentions_of_displaces hdisplaces] at hnot
          cases hnot
        · exact Or.inr ⟨d, hd, hafter⟩

theorem nodup_foldl_applyChange (changes : List MailboxMessageChange)
    (hunique : (next.map ClientMessage.id).Nodup) :
    ((changes.foldl (applyChange selects current) next).map ClientMessage.id).Nodup := by
  induction changes generalizing next with
  | nil => exact hunique
  | cons c changes ih => exact ih (nodup_applyChange c hunique)

theorem messageTotalDelta_eq_sub (changes : List MailboxMessageChange) :
    messageTotalDelta selects changes =
      (((changes.filterMap MailboxMessageChange.after).filter selects).length : ℤ) -
        ((changes.filterMap MailboxMessageChange.before).filter selects).length := by
  induction changes with
  | nil => rfl
  | cons c changes ih =>
    have hcons : messageTotalDelta selects (c :: changes) =
        ((if c.after.any selects then 1 else 0) - if c.before.any selects then 1 else 0) +
          messageTotalDelta selects changes := by
      rw [messageTotalDelta, List.map_cons, List.sum_cons]
      rfl
    have hcount : ∀ (f : MailboxMessageChange → Option Message),
        ((((c :: changes).filterMap f).filter selects).length : ℤ) =
          (if (f c).any selects then 1 else 0) + ((changes.filterMap f).filter selects).length := by
      intro f
      cases hf : f c with
      | none => simp [hf]
      | some m => by_cases hm : selects m = true <;> simp [hf, hm, add_comm]
    rw [hcons, ih, hcount, hcount]
    ring

theorem length_filter_applyChanges
    (hfound : ∀ c ∈ changes, ∀ m, c.before = some m → m ∈ before)
    (honce : changes.Pairwise fun c d => ∀ id, c.mentions id = true → d.mentions id = false)
    (hbefore : UniqueBy (fun m => some m.id) before) :
    (((applyChanges changes before).filter selects).length : ℤ) =
      (before.filter selects).length + messageTotalDelta selects changes := by
  have hnodup : (changes.filterMap MailboxMessageChange.before).Nodup := by
    apply List.pairwise_filterMap.mpr
    apply honce.imp
    rintro c d hcd m hm n hn rfl
    have hmentions := hcd m.id (by simp [MailboxMessageChange.mentions, hm])
    simp [MailboxMessageChange.mentions, hn] at hmentions
  have hreplaced : (changes.filterMap MailboxMessageChange.before).Perm
      (before.filter fun m => !!changes.any fun c => c.before == some m) := by
    apply (List.perm_ext_iff_of_nodup hnodup (hbefore.nodup_map.of_map.filter _)).mpr
    intro m
    rw [List.mem_filterMap, List.mem_filter, Bool.not_not, List.any_eq_true]
    constructor
    · rintro ⟨c, hc, hm⟩
      exact ⟨hfound c hc m hm, c, hc, by simpa using hm⟩
    · rintro ⟨_, c, hc, hm⟩
      exact ⟨c, hc, by simpa using hm⟩
  have hsplit := (hreplaced.append_left _).trans (List.filter_append_perm
    (fun m => !changes.any fun c => c.before == some m) before)
  have hlengthBefore := (hsplit.filter selects).length_eq
  rw [List.filter_append, List.length_append] at hlengthBefore
  rw [applyChanges, List.filter_append, List.length_append]
  rw [messageTotalDelta_eq_sub]
  omega

theorem mem_foldl_patched (hpatch : ExactPatch before after changes)
    (hbefore : UniqueBy (fun m => some m.id) before) (hafter : UniqueBy (fun m => some m.id) after)
    {shown : Message → Prop}
    (hcurrent : ∀ m, m ∈ current.map ClientMessage.summary ↔
      (m ∈ before ∧ selects m = true) ∧ shown m)
    (hshown : ∀ c ∈ changes, ∀ m, c.after = some m → selects m = true → shown m) :
    m ∈ (changes.foldl (applyChange selects current) current).map ClientMessage.summary ↔
      (m ∈ after ∧ selects m = true) ∧ shown m := by
  have hpatched : ∀ m, m ∈ after ↔ (m ∈ before ∧ ¬∃ c ∈ changes, c.before = some m) ∨
      ∃ c ∈ changes, c.after = some m := by
    intro m
    rw [← hpatch.patched.mem_iff, applyChanges, List.mem_append, List.mem_filter,
      List.mem_filterMap]
    simp
  rw [mem_foldl_applyChange hpatch.once, hcurrent]
  constructor
  · rintro (⟨⟨⟨hm, hselects⟩, hshow⟩, hnot⟩ | ⟨c, hc, hm, hselects⟩)
    · refine ⟨⟨(hpatched m).mpr (Or.inl ⟨hm, ?_⟩), hselects⟩, hshow⟩
      rintro ⟨c, hc, hb⟩
      exact hnot c hc (Or.inl ⟨m, hb, rfl⟩)
    · exact ⟨⟨(hpatched m).mpr (Or.inr ⟨c, hc, hm⟩), hselects⟩, hshown c hc m hm hselects⟩
  · rintro ⟨⟨hm, hselects⟩, hshow⟩
    by_cases hchanged : ∃ c ∈ changes, c.after = some m
    · obtain ⟨c, hc, hc'⟩ := hchanged
      exact Or.inr ⟨c, hc, hc', hselects⟩
    · obtain ⟨hold, hkept⟩ := ((hpatched m).mp hm).resolve_right hchanged
      refine Or.inl ⟨⟨⟨hold, hselects⟩, hshow⟩, fun c hc => ?_⟩
      rintro (⟨b, hb, hid⟩ | ⟨a, ha, _, hid⟩)
      · rw [hbefore.eq_of_mem (hpatch.found c hc b hb) hold (congrArg some hid) rfl] at hb
        exact hkept ⟨c, hc, hb⟩
      · have hmem := (hpatched a).mpr (Or.inr ⟨c, hc, ha⟩)
        rw [hafter.eq_of_mem hmem hm (congrArg some hid) rfl] at ha
        exact hchanged ⟨c, hc, ha⟩

end

omit [Browser] in
theorem mem_loadedPart {m : Message} :
    m ∈ loadedPart cursor rows ↔ m ∈ rows ∧ ∀ c ∈ cursor, m.newness ≤ c.newness := by
  cases cursor with
  | none => simp [loadedPart]
  | some c => simp [loadedPart]

omit [Browser] in
theorem ascending_map_summary {messages : List ClientMessage}
    (hids : (messages.map ClientMessage.id).Nodup) :
    Ascending Message.newness
      ((orderBy ClientMessage.newness messages).map ClientMessage.summary) := by
  have hunique : UniqueBy (fun m => some m.id) (messages.map ClientMessage.summary) :=
    UniqueBy.of_nodup_map (by rw [List.map_map]; exact hids)
  have hnewness := nodup_newness hunique
  rw [List.map_map] at hnewness
  have hsorted : Ascending ClientMessage.newness (orderBy ClientMessage.newness messages) :=
    ascending_orderBy hnewness
  exact List.pairwise_map.mpr hsorted

omit [Browser] in
theorem Ascending.eq_of_mem_iff {xs ys : List Message} (hxs : Ascending Message.newness xs)
    (hys : Ascending Message.newness ys) (hmem : ∀ m, m ∈ xs ↔ m ∈ ys) : xs = ys := by
  have hnodup : ∀ zs, Ascending Message.newness zs → zs.Nodup := by
    intro zs hzs
    apply hzs.imp
    rintro a b hab rfl
    exact lt_irrefl _ hab
  exact hxs.eq_of_perm hys
    ((List.perm_ext_iff_of_nodup (hnodup xs hxs) (hnodup ys hys)).mpr hmem)

theorem Loaded.synced {changes : List MailboxMessageChange} {after : List Message}
    (hfilters : params.get "filters" = none) (h : Loaded params accounts start s)
    (hpatch : ExactPatch s.server after changes) (hafter : UniqueBy (fun m => some m.id) after)
    (hsame : SameSelection params accounts start now (s.server ++ after))
    (hwithin : WithinLoaded params accounts s (.synced changes after now)) :
    Loaded params accounts start (s.step params accounts (.synced changes after now)) := by
  have hold : SameSelection params accounts start now s.server :=
    fun m hm => hsame m (List.mem_append_left _ hm)
  have hnew : SameSelection params accounts start now after :=
    fun m hm => hsame m (List.mem_append_right _ hm)
  have hfirst := h.showsFirst
  have htotal : s.client.messageTotal + messageTotalDelta (selectsAt params accounts now) changes =
      (serverList params accounts start after).length := by
    rw [h.total, ← serverList_congr params accounts hold, ← serverList_congr params accounts hnew,
      serverList, serverList, length_orderBy, length_orderBy,
      ← (hpatch.patched.filter _).length_eq,
      length_filter_applyChanges hpatch.found hpatch.once h.unique]
  have hrows : (applyMessageChanges (selectsAt params accounts now) s.client.messages changes).map
      ClientMessage.summary =
        loadedPart s.client.nextCursor (serverList params accounts start after) := by
    apply Ascending.eq_of_mem_iff
    · exact ascending_map_summary (nodup_foldl_applyChange changes hfirst.distinct)
    · have hascending := ascending_serverList params accounts hafter start
      exact hascending.sublist (loadedPart_front hascending _).sublist
    · intro m
      have hcurrent : ∀ m, m ∈ s.client.messages.map ClientMessage.summary ↔
          (m ∈ s.server ∧ selectsAt params accounts now m = true) ∧
            ∀ c ∈ s.client.nextCursor, m.newness ≤ c.newness := by
        intro m
        rw [h.rows, mem_loadedPart, ← serverList_congr params accounts hold, mem_serverList]
      have hshown := mem_foldl_patched hpatch h.unique hafter hcurrent
        (fun c hc m hm hselects cursor hcursor => hwithin cursor hcursor c hc m hm hselects)
        (m := m)
      rw [mem_loadedPart, ← serverList_congr params accounts hnew, mem_serverList, ← hshown,
        applyMessageChanges]
      simp only [List.mem_map, mem_orderBy]
  have hclient : (if (params.get "filters").isSome || changes.isEmpty then s.client
      else { s.client with
        messages := applyMessageChanges (selectsAt params accounts now) s.client.messages changes
        messageTotal := max 0 (s.client.messageTotal +
          messageTotalDelta (selectsAt params accounts now) changes) }) =
      { s.client with
        messages := applyMessageChanges (selectsAt params accounts now) s.client.messages changes
        messageTotal := (serverList params accounts start after).length } := by
    rw [htotal, max_eq_right (Int.natCast_nonneg _), hfilters, Option.isSome_none, Bool.false_or]
    split_ifs with hempty
    · rw [List.isEmpty_iff.mp hempty] at htotal ⊢
      have hsorted : orderBy ClientMessage.newness s.client.messages = s.client.messages :=
        hfirst.sorted.orderBy_eq
      rw [← htotal, applyMessageChanges, List.foldl_nil, hsorted, messageTotalDelta, List.map_nil,
        List.sum_nil, add_zero]
    · rfl
  simp only [ListView.step, hclient]
  exact ⟨hafter, hrows, h.more, rfl⟩

/-- If no event changes a message behind what is loaded while there is more to load, then after
every step the client shows the first messages of the server's list. -/
theorem showsFirst_run {start : String} {s : ListView} (hfilters : params.get "filters" = none)
    (hunique : UniqueBy (fun m => some m.id) s.server) {now : String} {ops : List ListStep}
    (hexact : Along (ListView.step params accounts) (PatchesExactly params accounts start) s
      (.load now :: ops))
    (hwithin : Along (ListView.step params accounts) (WithinLoaded params accounts) s
      (.load now :: ops)) :
    ShowsFirst params accounts start
      (exec (ListView.step params accounts) s (.load now :: ops)) := by
  have hload : Loaded params accounts start (s.step params accounts (.load now)) :=
    loaded_load params accounts hunique hexact.1
  have hstep : ∀ s op, Loaded params accounts start s →
      (PatchesExactly params accounts start s op ∧ WithinLoaded params accounts s op) →
      Loaded params accounts start (s.step params accounts op) := by
    intro s op hs hop
    cases op with
    | load now => exact loaded_load params accounts hs.unique hop.1
    | loadMore now => exact hs.loadMore params accounts hop.1
    | synced changes after now =>
      obtain ⟨⟨hpatch, hafter, hsame⟩, hinside⟩ := hop
      exact Loaded.synced params accounts hfilters hs hpatch hafter hsame hinside
  exact (invariant_along (Loaded params accounts start) hstep hload
    (hexact.2.and hwithin.2)).showsFirst

end

def listedMessage (place : ℕ) (flagged : Bool) : Message :=
  { id := String.singleton (Char.ofNat (126 - place)), accountId := "a1", mailbox := "INBOX",
    mailboxRole := "inbox", uid := place, date := "2025-01-01T00:00:00.000Z", flagged }

def listedMessages (flagged : Option ℕ) : List Message :=
  (List.range 62).map fun place => listedMessage place (flagged = some place)

def inboxParams : QueryParams := [("mailboxRole", "inbox")]

def flagEvent (place : ℕ) : ListStep :=
  .synced [⟨some (listedMessage place false), some (listedMessage place true)⟩]
    (listedMessages (some place)) "2025-01-02T00:00:00.000Z"

theorem newness_listedMessage {first second : ℕ} (hless : first < second) (hsecond : second < 62)
    (flagged flagged' : Bool) :
    (listedMessage first flagged).newness < (listedMessage second flagged').newness := by
  have htoNat : ∀ n < 128, (Char.ofNat n).toNat = n := by decide +kernel
  have hchar : Char.ofNat (126 - second) < Char.ofNat (126 - first) := by
    rw [Char.lt_def, UInt32.lt_iff_toNat_lt]
    show (Char.ofNat (126 - second)).toNat < (Char.ofNat (126 - first)).toNat
    rw [htoNat _ (by omega), htoNat _ (by omega)]
    omega
  have hid : (listedMessage second flagged').id < (listedMessage first flagged).id := by
    rw [listedMessage, listedMessage, String.lt_iff_toList_lt, String.toList_singleton,
      String.toList_singleton, List.cons_lt_cons_iff]
    exact Or.inl hchar
  simp only [Message.newness, MessageCursor.newness, Message.cursor, OrderDual.toDual_lt_toDual,
    Prod.Lex.toLex_lt_toLex]
  exact Or.inr ⟨rfl, hid⟩

theorem ascending_listedMessages (flagged : Option ℕ) :
    Ascending Message.newness (listedMessages flagged) := by
  apply List.pairwise_map.mpr
  apply List.pairwise_lt_range.imp_of_mem
  intro first second _ hsecond hless
  exact newness_listedMessage hless (List.mem_range.mp hsecond) _ _

theorem selectsAt_listedMessage [Browser] (now : String) (place : ℕ) (flagged : Bool) :
    selectsAt inboxParams [] now (listedMessage place flagged) = true := by
  simp [selectsAt, messageMatchesQuery, inboxParams, QueryParams.given, QueryParams.get,
    listedMessage, snoozedUntilAfter]

theorem serverList_listedMessages [Browser] (now : String) (flagged : Option ℕ) :
    serverList inboxParams [] now (listedMessages flagged) = listedMessages flagged := by
  have hall : (listedMessages flagged).filter (selectsAt inboxParams [] now) =
      listedMessages flagged := by
    apply List.filter_eq_self.mpr
    intro m hm
    obtain ⟨place, _, rfl⟩ := List.mem_map.mp hm
    exact selectsAt_listedMessage now place _
  rw [serverList, hall, (ascending_listedMessages flagged).orderBy_eq]

theorem uniqueBy_listedMessages (flagged : Option ℕ) :
    UniqueBy (fun m => some m.id) (listedMessages flagged) := by
  apply UniqueBy.of_nodup_map
  have hids : (listedMessages flagged).map Message.id =
      (List.range 62).map fun place => String.singleton (Char.ofNat (126 - place)) := by
    rw [listedMessages, List.map_map]
    rfl
  rw [hids]
  decide +kernel

theorem exactPatch_listedMessages {place : ℕ} (hchanges : messageChanges (listedMessages none)
      (listedMessages (some place)) =
        [⟨some (listedMessage place false), some (listedMessage place true)⟩]) :
    ExactPatch (listedMessages none) (listedMessages (some place))
      [⟨some (listedMessage place false), some (listedMessage place true)⟩] := by
  rw [← hchanges]
  exact exactPatch_of_entries (uniqueBy_listedMessages _) (uniqueBy_listedMessages _)
    (entries_messageChanges (uniqueBy_listedMessages _) (uniqueBy_listedMessages _))
    (nodup_messageChanges (uniqueBy_listedMessages _) (uniqueBy_listedMessages _))

theorem serverPage_listedMessages [Browser] (now : String) :
    serverPage inboxParams [] now none (listedMessages none) =
      ⟨(listedMessages none).take 60, true, some (listedMessage 59 false).cursor, 62⟩ := by
  rw [serverPage, serverList_listedMessages]
  rfl

/-- The first message is flagged before the second page is loaded. -/
theorem showsFirst_two_pages :
    let _ := plainBrowser
    ShowsFirst inboxParams [] "2025-01-02T00:00:00.000Z"
      (exec (ListView.step inboxParams []) ⟨listedMessages none, {}⟩
        [.load "2025-01-02T00:00:00.000Z", flagEvent 0, .loadMore "2025-01-02T00:00:00.000Z"]) := by
  intro browser
  apply showsFirst_run inboxParams [] rfl (uniqueBy_listedMessages none)
  · exact ⟨fun _ _ => rfl, ⟨exactPatch_listedMessages (by decide +kernel),
      uniqueBy_listedMessages _, fun _ _ => rfl⟩, fun _ _ => rfl, trivial⟩
  · refine ⟨trivial, ?_, trivial, trivial⟩
    intro cursor hcursor change hchange m hm _
    simp only [ListView.step, serverPage_listedMessages, MessageCollection.showing,
      Option.mem_some] at hcursor
    subst hcursor
    rw [List.mem_singleton.mp hchange] at hm
    cases hm
    exact (newness_listedMessage (by omega) (by omega) true false).le

theorem mem_applyMessageChanges_after {selects : Message → Bool} {current : List ClientMessage}
    {c : MailboxMessageChange} {m : Message} (hafter : c.after = some m)
    (hm : selects m = true) :
    m ∈ (applyMessageChanges selects current [c]).map ClientMessage.summary := by
  have hadded : m ∈ (applyChange selects current current c).map ClientMessage.summary :=
    mem_applyChange.mpr (Or.inr ⟨hafter, hm⟩)
  obtain ⟨shown, hshown, hsummary⟩ := List.mem_map.mp hadded
  exact List.mem_map.mpr ⟨shown, mem_orderBy.mpr hshown, hsummary⟩

/-- A message beyond the first page is flagged, and is shown after the page. -/
theorem changed_message_shown_early :
    let _ := plainBrowser
    Along (ListView.step inboxParams []) (PatchesExactly inboxParams [] "2025-01-02T00:00:00.000Z")
        ⟨listedMessages none, {}⟩ [.load "2025-01-02T00:00:00.000Z", flagEvent 61] ∧
      ¬ShowsFirst inboxParams [] "2025-01-02T00:00:00.000Z"
        (exec (ListView.step inboxParams []) ⟨listedMessages none, {}⟩
          [.load "2025-01-02T00:00:00.000Z", flagEvent 61]) := by
  intro browser
  refine ⟨⟨fun _ _ => rfl, ⟨exactPatch_listedMessages (by decide +kernel),
    uniqueBy_listedMessages _, fun _ _ => rfl⟩, trivial⟩, ?_⟩
  intro hshows
  have hfirst := hshows.first
  simp only [exec, flagEvent, ListView.step, serverPage_listedMessages, serverList_listedMessages,
    MessageCollection.showing] at hfirst
  rw [if_neg (by decide)] at hfirst
  generalize hnow : selectsAt inboxParams [] "2025-01-02T00:00:00.000Z" = selects at hfirst
  have hselects : selects (listedMessage 61 true) = true := by
    rw [← hnow]
    exact selectsAt_listedMessage _ _ _
  have hlength : (applyMessageChanges selects
      (((listedMessages none).take 60).map fun m => { summary := m })
      [⟨some (listedMessage 61 false), some (listedMessage 61 true)⟩]).length = 61 := by
    rw [applyMessageChanges, length_orderBy, List.foldl_cons, List.foldl_nil, applyChange,
      Option.filter_some, if_pos hselects]
    decide +kernel
  have hshown := List.prefix_iff_eq_take.mp hfirst
  rw [List.length_map, hlength] at hshown
  have hmem : listedMessage 61 true ∈ (listedMessages (some 61)).take 61 := by
    rw [← hshown]
    exact mem_applyMessageChanges_after rfl hselects
  revert hmem
  decide +kernel

end IMail
