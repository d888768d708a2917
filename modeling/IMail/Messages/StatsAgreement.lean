import IMail.Messages.Reads

/-!
# Statistics against listings

`message_stats` counts the messages of the inbox by `GROUP BY`; `query_messages` counts the rows
of a `WHERE` that it assembles from the query. Both see the same rows: the groups split the rows
of the inbox, and a query for an account or a group selects one part.
-/

namespace IMail

open Relational

theorem length_selectMessages (db : Db) {clauses base : List Clause}
    {p : Account × Message → Bool}
    (h : ∀ a m, (clauses.all fun c => c a m) = ((base.all fun c => c a m) && p (a, m))) :
    (selectMessages db clauses).length = (joinedMessages db base).countP p := by
  rw [selectMessages, joinedMessages, List.countP_filterMap, ← List.countP_eq_length_filter]
  refine List.countP_congr fun m _ => ?_
  cases db.account m.accountId with
  | none => simp
  | some a => cases hbase : base.all fun c => c a m <;> simp [h, hbase, Option.filter]

section

variable [Platform] [Sqlite] (db : Db) (index : BodyIndex) (userId now : String) (limit offset : ℕ)
  (cursor : Option MessageCursor)

/-- What `query_messages` reports as the total for the inbox. -/
def inboxTotal (unread : Bool) (accountId group : Option String) : Except AuthStoreError ℕ :=
  (queryMessages db index userId
    { unread, accountId, group, mailboxRole := some "inbox", limit, offset, cursor } now).map
    (·.total)

def selects (unread : Bool) (accountId group : Option String) (r : Account × Message) : Bool :=
  accountId.all (r.2.accountId == ·) && group.all (r.1.group == ·) && (!unread || r.2.unread)

theorem inboxTotal_eq (unread : Bool) (accountId group : Option String) :
    inboxTotal db index userId now limit offset cursor unread accountId group =
      .ok ((joinedMessages db (statsClauses userId now)).countP
        (selects unread accountId group)) := by
  refine congrArg Except.ok (length_selectMessages db fun a m => ?_)
  cases accountId <;> cases group <;> cases unread <;>
    simp [MessageQuery.clauses, statsClauses, pushExact, nonBlank, selects] <;> grind

/-- Every bucket has the totals of the query for its name, a name without a bucket has the total 0,
and the buckets sum up to the overall numbers. -/
def BucketsAgree (name : MessageStatsBucket → Option String)
    (query : Bool → String → Except AuthStoreError ℕ) (stats : MessageStats)
    (buckets : List MessageStatsBucket) : Prop :=
  (∀ b ∈ buckets, ∃ k, name b = some k ∧ query false k = .ok b.total ∧
    query true k = .ok b.unread) ∧
    (∀ k, (∀ b ∈ buckets, name b ≠ some k) → query false k = .ok 0) ∧
    (buckets.map (·.total)).sum = stats.total ∧ (buckets.map (·.unread)).sum = stats.unread

omit [Platform] [Sqlite] in
theorem bucketsAgree_groupBy {key : Account × Message → String}
    {name : MessageStatsBucket → Option String} {query : Bool → String → Except AuthStoreError ℕ}
    {stats : MessageStats} {rows : List (Account × Message)}
    {bucket : String → List (Account × Message) → MessageStatsBucket}
    (hbucket : ∀ k rows, name (bucket k rows) = some k ∧ (bucket k rows).total = rows.length ∧
      (bucket k rows).unread = unreadCount rows)
    (hquery : ∀ unread k,
      query unread k = .ok (rows.countP fun r => key r = k && (!unread || r.2.unread)))
    (hstats : stats.total = rows.length ∧ stats.unread = unreadCount rows) :
    BucketsAgree name query stats ((groupBy key rows).map fun g => bucket g.1 g.2) := by
  refine ⟨?_, ?_, ?_, ?_⟩
  · intro b hb
    obtain ⟨g, hg, rfl⟩ := List.mem_map.mp hb
    obtain ⟨k, -, rfl⟩ := List.mem_map.mp hg
    obtain ⟨hname, htotal, hunread⟩ := hbucket k (rows.filter fun r => key r = k)
    refine ⟨k, hname, ?_, ?_⟩
    · rw [htotal, hquery, ← List.countP_eq_length_filter]
      simp
    · rw [hunread, hquery, unreadCount, List.countP_filter]
      simp [Bool.and_comm]
  · intro k hnone
    rw [hquery, List.countP_eq_zero.mpr]
    intro r hr hkey
    simp only [Bool.not_false, Bool.true_or, Bool.and_true, decide_eq_true_eq] at hkey
    refine hnone (bucket k (rows.filter fun r => key r = k)) ?_ (hbucket k _).1
    refine List.mem_map.mpr ⟨(k, _), List.mem_map.mpr ⟨k, ?_, rfl⟩, rfl⟩
    rw [mem_orderBy, List.mem_dedup, ← hkey]
    exact List.mem_map_of_mem hr
  · have hsum := sum_countP_groupBy key (fun _ => true) rows
    simpa [List.map_map, Function.comp_def, hbucket, hstats.1] using hsum
  · have hsum := sum_countP_groupBy key (fun r => r.2.unread) rows
    simpa [List.map_map, Function.comp_def, hbucket, hstats.2, unreadCount] using hsum

end

/-- The statistics are the totals that the listings of the inbox report: overall, for every account
and for every group, whatever the page. -/
theorem stats_agree_with_listings [Platform] [Sqlite] (db : Db) (index : BodyIndex)
    (userId now : String) (limit offset : ℕ) (cursor : Option MessageCursor) :
    let stats := messageStats db userId now
    let total := inboxTotal db index userId now limit offset cursor
    total false none none = .ok stats.total ∧ total true none none = .ok stats.unread ∧
      BucketsAgree (·.accountId) (fun unread id => total unread (some id) none) stats
        stats.byAccount ∧
      BucketsAgree (·.group) (fun unread group => total unread none (some group)) stats
        stats.byGroup := by
  intro stats total
  have htotal : ∀ (unread : Bool) (accountId group : Option String) (p : Account × Message → Bool),
      (∀ r, selects unread accountId group r = p r) → total unread accountId group =
        .ok ((joinedMessages db (statsClauses userId now)).countP p) := by
    intro unread accountId group p hp
    rw [← funext hp]
    exact inboxTotal_eq db index userId now limit offset cursor unread accountId group
  refine ⟨?_, ?_, ?_, ?_⟩
  · rw [htotal false none none (fun _ => true) (by simp [selects])]
    simp [stats, messageStats]
  · exact htotal true none none (fun r => r.2.unread) (by simp [selects])
  · refine @bucketsAgree_groupBy (fun r => r.2.accountId) _ _ stats _
      (fun k rows => { accountId := some k, total := rows.length, unread := unreadCount rows })
      (fun k rows => ⟨rfl, rfl, rfl⟩) (fun unread k => htotal _ _ _ _ fun r => ?_) ⟨rfl, rfl⟩
    cases unread <;> simp [selects, beq_eq_decide]
  · refine @bucketsAgree_groupBy (fun r => r.1.group) _ _ stats _
      (fun k rows => { group := some k, total := rows.length, unread := unreadCount rows })
      (fun k rows => ⟨rfl, rfl, rfl⟩) (fun unread k => htotal _ _ _ _ fun r => ?_) ⟨rfl, rfl⟩
    cases unread <;> simp [selects, beq_eq_decide]

end IMail
