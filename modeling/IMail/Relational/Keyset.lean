import IMail.Relational.Table
import Mathlib.Data.List.Dedup
import Mathlib.Data.List.Sort

/-!
# Rows in key order

`SELECT ... WHERE key > cursor ORDER BY key LIMIT n`: what lies after a cursor, and that the last
row of a page is the cursor of the rest. A descending order is the same with a dual key.
-/

namespace Relational

universe u v

variable {α : Type u} {κ : Type v} [LinearOrder κ] {key : α → κ}

def Ascending (key : α → κ) (rows : List α) : Prop := rows.Pairwise fun a b => key a < key b

/-- `WHERE key > cursor` -/
def rowsAfter (key : α → κ) (cursor : κ) (rows : List α) : List α :=
  rows.filter fun r => cursor < key r

variable {rows front rest : List α} {r : α} {limit : ℕ}

@[simp] theorem mem_rowsAfter {cursor : κ} :
    r ∈ rowsAfter key cursor rows ↔ r ∈ rows ∧ cursor < key r := by
  simp [rowsAfter]

section

variable (h : Ascending key rows)
include h

theorem Ascending.filter (p : α → Bool) : Ascending key (rows.filter p) := List.Pairwise.filter p h

theorem Ascending.sublist {part : List α} (hpart : part.Sublist rows) :
    Ascending key part := List.Pairwise.sublist hpart h

theorem Ascending.insertionSort_eq : rows.insertionSort (fun a b => key a ≤ key b) = rows :=
  List.Pairwise.insertionSort_eq (h.imp le_of_lt)

theorem Ascending.append (hr : ∀ a ∈ rows, key a < key r) : Ascending key (rows ++ [r]) := by
  apply List.pairwise_append.mpr
  refine ⟨h, List.pairwise_singleton _ _, ?_⟩
  intro a ha b hb
  obtain rfl := List.mem_singleton.mp hb
  exact hr a ha

end

variable {back xs ys : List α} {low high : κ}

theorem Ascending.rowsAfter_append (h : Ascending key (front ++ r :: back)) :
    rowsAfter key (key r) (front ++ r :: back) = back := by
  obtain ⟨_, hback, hfront⟩ := List.pairwise_append.mp h
  have hnone : rowsAfter key (key r) front = [] := by
    apply List.filter_eq_nil_iff.mpr
    intro a ha
    simpa using (hfront a ha r List.mem_cons_self).le
  have hall : rowsAfter key (key r) back = back := by
    apply List.filter_eq_self.mpr
    intro a ha
    simpa using List.rel_of_pairwise_cons hback ha
  unfold rowsAfter at hnone hall ⊢
  rw [List.filter_append, hnone, List.filter_cons_of_neg (by simp), hall, List.nil_append]

theorem Ascending.filter_le_append (h : Ascending key (front ++ r :: back)) :
    (front ++ r :: back).filter (fun a => key a ≤ key r) = front ++ [r] := by
  obtain ⟨_, hback, hfront⟩ := List.pairwise_append.mp h
  have hall : front.filter (fun a => key a ≤ key r) = front := by
    apply List.filter_eq_self.mpr
    intro a ha
    simpa using (hfront a ha r List.mem_cons_self).le
  have hnone : back.filter (fun a => key a ≤ key r) = [] := by
    apply List.filter_eq_nil_iff.mpr
    intro a ha
    simpa using List.rel_of_pairwise_cons hback ha
  rw [List.filter_append, hall, List.filter_cons_of_pos (by simp), hnone]

theorem Ascending.filter_le_split (h : Ascending key rows) (hle : low ≤ high) :
    rows.filter (fun r => key r ≤ high) =
      rows.filter (fun r => key r ≤ low) ++ rows.filter fun r => low < key r ∧ key r ≤ high := by
  induction rows with
  | nil => rfl
  | cons r rows ih =>
    obtain ⟨hfirst, hrest⟩ := List.pairwise_cons.mp h
    by_cases hlow : key r ≤ low
    · rw [List.filter_cons_of_pos (by simpa using hlow.trans hle),
        List.filter_cons_of_pos (by simpa using hlow), List.filter_cons_of_neg (by simp [hlow]),
        ih hrest, List.cons_append]
    · -- everything from here on lies above the smaller key
      have hnone : (r :: rows).filter (fun r => key r ≤ low) = [] := by
        apply List.filter_eq_nil_iff.mpr
        intro a ha
        rcases List.mem_cons.mp ha with rfl | ha
        · simpa using hlow
        · simpa using (not_le.mp hlow).trans (hfirst a ha)
      rw [hnone, List.nil_append]
      apply List.filter_congr
      intro a ha
      have habove : low < key a := by
        rcases List.mem_cons.mp ha with rfl | ha
        · exact not_le.mp hlow
        · exact (not_le.mp hlow).trans (hfirst a ha)
      simp [habove]

theorem mapM_congr {β : Type v} {f g : α → Option β} (h : ∀ r ∈ rows, f r = g r) :
    rows.mapM f = rows.mapM g := by
  induction rows with
  | nil => rfl
  | cons r rows ih =>
    rw [List.mapM_cons, List.mapM_cons, h r List.mem_cons_self,
      ih fun s hs => h s (List.mem_cons_of_mem _ hs)]

/-- `ORDER BY key` -/
def orderBy (key : α → κ) (rows : List α) : List α := rows.insertionSort fun a b => key a ≤ key b

/-- `GROUP BY key ORDER BY key`: every key with its rows. -/
def groupBy (key : α → κ) (rows : List α) : List (κ × List α) :=
  (orderBy id (rows.map key).dedup).map fun k => (k, rows.filter fun r => key r = k)

@[simp] theorem mem_orderBy : r ∈ orderBy key rows ↔ r ∈ rows :=
  List.mem_insertionSort _

theorem orderBy_perm (key : α → κ) (rows : List α) : (orderBy key rows).Perm rows :=
  List.perm_insertionSort _ rows

@[simp] theorem length_orderBy (rows : List α) : (orderBy key rows).length = rows.length :=
  List.length_insertionSort _ rows

theorem sum_countP_filter {keys : List κ} (hnodup : keys.Nodup) (p : α → Bool)
    (hkeys : ∀ r ∈ rows, key r ∈ keys) :
    (keys.map fun k => (rows.filter fun r => key r = k).countP p).sum = rows.countP p := by
  induction rows with
  | nil => simp
  | cons r rows ih =>
    have hrest := ih fun r' hr' => hkeys r' (List.mem_cons_of_mem _ hr')
    have hone : keys.count (key r) = 1 := List.count_eq_one_of_mem hnodup (hkeys r (by simp))
    have hstep : ∀ k, ((r :: rows).filter fun r => key r = k).countP p =
        (rows.filter fun r => key r = k).countP p + if key r = k ∧ p r then 1 else 0 := by
      intro k
      by_cases hk : key r = k <;> by_cases hp : p r <;> simp [hk, hp]
    simp only [hstep, List.sum_map_add, hrest, List.countP_cons]
    by_cases hp : p r
    · simp only [hp, and_true, if_true]
      rw [List.sum_map_eq_nsmul_single (key r) _ fun k hk _ => if_neg (Ne.symm hk), hone]
      simp
    · simp [hp]

theorem sum_countP_groupBy (key : α → κ) (p : α → Bool) (rows : List α) :
    ((groupBy key rows).map fun g => g.2.countP p).sum = rows.countP p := by
  have hperm := orderBy_perm id (rows.map key).dedup
  rw [groupBy, List.map_map]
  refine sum_countP_filter (hperm.nodup_iff.mpr (List.nodup_dedup _)) p fun r hr => ?_
  rw [mem_orderBy, List.mem_dedup]
  exact List.mem_map_of_mem hr

theorem pairwise_orderBy (key : α → κ) (rows : List α) :
    (orderBy key rows).Pairwise fun a b => key a ≤ key b := by
  have : IsTrans α fun a b => key a ≤ key b := ⟨fun _ _ _ => le_trans⟩
  have : Std.Total fun a b : α => key a ≤ key b := ⟨fun a b => le_total (key a) (key b)⟩
  exact List.pairwise_insertionSort _ rows

theorem ascending_orderBy (h : (rows.map key).Nodup) : Ascending key (orderBy key rows) := by
  have hsorted := pairwise_orderBy key rows
  have hdistinct : (orderBy key rows).Pairwise fun a b => key a ≠ key b := by
    have hnodup := ((orderBy_perm key rows).map key).nodup_iff.mpr h
    exact List.pairwise_map.mp hnodup
  exact (hsorted.and hdistinct).imp fun hab => lt_of_le_of_ne hab.1 hab.2

theorem Ascending.orderBy_eq (h : Ascending key rows) : orderBy key rows = rows :=
  h.insertionSort_eq

theorem Ascending.eq_of_perm (hxs : Ascending key xs) (hys : Ascending key ys)
    (hperm : xs.Perm ys) : xs = ys := by
  apply List.Perm.eq_of_pairwise _ hxs hys hperm
  intro a b _ _ hab hba
  exact absurd hab hba.not_gt

theorem Ascending.ext (hxs : Ascending key xs) (hys : Ascending key ys) (h : ∀ r, r ∈ xs ↔ r ∈ ys) :
    xs = ys := by
  have hnodup {zs : List α} (hzs : Ascending key zs) : zs.Nodup :=
    hzs.imp fun hlt heq => hlt.ne (congrArg key heq)
  exact hxs.eq_of_perm hys ((List.perm_ext_iff_of_nodup (hnodup hxs) (hnodup hys)).mpr h)

theorem orderBy_filter (h : (rows.map key).Nodup) (p : α → Bool) :
    orderBy key (rows.filter p) = (orderBy key rows).filter p := by
  have hpart : ((rows.filter p).map key).Nodup := h.sublist (List.filter_sublist.map key)
  apply (ascending_orderBy hpart).eq_of_perm ((ascending_orderBy h).filter p)
  exact (orderBy_perm key _).trans ((orderBy_perm key rows).filter p).symm

def pageAfter (key : α → κ) (cursor : κ) (limit : ℕ) (rows : List α) : List α :=
  (orderBy key (rowsAfter key cursor rows)).take limit

theorem Ascending.after (h : Ascending key rows) (cursor : κ) :
    Ascending key (rowsAfter key cursor rows) := h.filter _

theorem Ascending.pageAfter_eq (h : Ascending key rows) (cursor : κ) (limit : ℕ) :
    pageAfter key cursor limit rows = (rowsAfter key cursor rows).take limit := by
  unfold pageAfter
  rw [(h.after cursor).orderBy_eq]

def lastKey (key : α → κ) (cursor : κ) (rows : List α) : κ := (rows.map key).getLastD cursor

omit [LinearOrder κ] in
@[simp] theorem lastKey_nil (cursor : κ) : lastKey key cursor [] = cursor := rfl

omit [LinearOrder κ] in
@[simp] theorem lastKey_append (cursor : κ) (rows : List α) (r : α) :
    lastKey key cursor (rows ++ [r]) = key r := by
  simp [lastKey]

theorem rowsAfter_rowsAfter (hle : low ≤ high) (rows : List α) :
    rowsAfter key high (rowsAfter key low rows) = rowsAfter key high rows := by
  unfold rowsAfter
  rw [List.filter_filter]
  apply List.filter_congr
  intro r _
  by_cases h : high < key r
  · simp [h, hle.trans_lt h]
  · simp [h]

section

variable (h : Ascending key rows) (cursor : κ) (hlimit : 0 < limit)
include h hlimit

theorem Ascending.page_cases :
    (rowsAfter key cursor rows = [] ∧ pageAfter key cursor limit rows = []) ∨
      ∃ front r, pageAfter key cursor limit rows = front ++ [r] ∧ cursor < key r ∧
        rowsAfter key cursor rows =
          front ++ r :: (rowsAfter key cursor rows).drop limit := by
  rw [h.pageAfter_eq]
  rcases List.eq_nil_or_concat ((rowsAfter key cursor rows).take limit) with
    hnil | ⟨front, r, hpage⟩
  · left
    have hrest : rowsAfter key cursor rows = [] :=
      (List.take_eq_nil_iff.mp hnil).resolve_left (by omega)
    exact ⟨hrest, hnil⟩
  · right
    rw [List.concat_eq_append] at hpage
    refine ⟨front, r, hpage, ?_, ?_⟩
    · have hr : r ∈ (rowsAfter key cursor rows).take limit := by simp [hpage]
      exact (mem_rowsAfter.mp (List.mem_of_mem_take hr)).2
    · conv_lhs => rw [← List.take_append_drop limit (rowsAfter key cursor rows), hpage]
      rw [List.append_assoc, List.singleton_append]

theorem Ascending.le_lastKey : cursor ≤ lastKey key cursor (pageAfter key cursor limit rows) := by
  rcases h.page_cases cursor hlimit with ⟨_, hpage⟩ | ⟨front, r, hpage, hlt, _⟩
  · rw [hpage, lastKey_nil]
  · rw [hpage, lastKey_append]
    exact hlt.le

theorem Ascending.rowsAfter_lastKey :
    rowsAfter key (lastKey key cursor (pageAfter key cursor limit rows)) rows =
      (rowsAfter key cursor rows).drop limit := by
  rcases h.page_cases cursor hlimit with ⟨hnone, hpage⟩ | ⟨front, r, hpage, hlt, hrows⟩
  · rw [hpage, lastKey_nil, hnone, List.drop_nil]
  · rw [hpage, lastKey_append, ← rowsAfter_rowsAfter hlt.le]
    have hascending := h.after cursor
    rw [hrows] at hascending
    conv_lhs => rw [hrows]
    exact hascending.rowsAfter_append

theorem Ascending.pageAfter_eq_filter : pageAfter key cursor limit rows = rows.filter fun r =>
      cursor < key r ∧ key r ≤ lastKey key cursor (pageAfter key cursor limit rows) := by
  rcases h.page_cases cursor hlimit with ⟨hnone, hpage⟩ | ⟨front, r, hpage, _, hrows⟩
  · rw [hpage, lastKey_nil]
    symm
    apply List.filter_eq_nil_iff.mpr
    intro r _
    simp
  · rw [hpage, lastKey_append]
    have hascending := h.after cursor
    rw [hrows] at hascending
    rw [← hascending.filter_le_append, ← hrows, rowsAfter, List.filter_filter]
    apply List.filter_congr
    intro a _
    rw [Bool.and_comm, Bool.decide_and]

end

/-- An answer to a request for a page, with a token for the next request. -/
structure Page (α τ ι : Type*) where
  rows : List α
  hasMore : Bool
  next : Option τ
  info : ι
  deriving DecidableEq

variable {τ ι : Type*} {info : ι}

def follow (request : Option τ → Option (Page α τ ι)) : ℕ → Option τ → Option (List (Page α τ ι))
  | 0, _ => none
  | fuel + 1, cursor =>
    (request cursor).bind fun page =>
      if page.hasMore then (follow request fuel page.next).map (page :: ·) else some [page]

def pageOf (token : α → τ) (info : ι) (limit : ℕ) (rest : List α) : Page α τ ι where
  rows := rest.take limit
  hasMore := limit < rest.length
  next := if limit < rest.length then (rest.take limit).getLast?.map token else none
  info := info

/-- The pages are the rows cut in pieces, and only the last piece may be shorter. -/
structure Partition (limit : ℕ) (info : ι) (rows : List α) (pages : List (Page α τ ι)) : Prop where
  nonempty : pages ≠ []
  rows_eq : pages.flatMap (·.rows) = rows
  length_eq : ∀ page ∈ pages.dropLast, page.rows.length = limit
  info_eq : ∀ page ∈ pages, page.info = info

omit [LinearOrder κ] in
theorem Partition.cons (hmore : limit < rest.length) (token : α → τ) {pages : List (Page α τ ι)}
    (h : Partition limit info (rest.drop limit) pages) :
    Partition limit info rest (pageOf token info limit rest :: pages) := by
  constructor
  · exact List.cons_ne_nil _ _
  · rw [List.flatMap_cons, h.rows_eq]
    exact List.take_append_drop limit rest
  · intro page hpage
    rw [List.dropLast_cons_of_ne_nil h.nonempty] at hpage
    rcases List.mem_cons.mp hpage with rfl | hpage
    · exact List.length_take_of_le hmore.le
    · exact h.length_eq page hpage
  · intro page hpage
    rcases List.mem_cons.mp hpage with rfl | hpage
    · rfl
    · exact h.info_eq page hpage

omit [LinearOrder κ] in
theorem Partition.single (hlast : ¬ limit < rest.length) (token : α → τ) :
    Partition limit info rest [pageOf token info limit rest] := by
  constructor
  · exact List.cons_ne_nil _ _
  · rw [List.flatMap_singleton]
    exact List.take_of_length_le (not_lt.mp hlast)
  · intro page hpage
    cases hpage
  · intro page hpage
    obtain rfl := List.mem_singleton.mp hpage
    rfl

/-- If a request with the token of a row is answered with the first page behind that row, then
following the tokens from anywhere ends, and gives all that is left in pages. -/
theorem Ascending.follow_from {full : List α} (h : Ascending key full) (hlimit : 0 < limit)
    {token : α → τ} {request : Option τ → Option (Page α τ ι)}
    (hnext : ∀ r ∈ full,
      request (some (token r)) = some (pageOf token info limit (rowsAfter key (key r) full)))
    (hfull : full = front ++ rest) {cursor : Option τ}
    (hrequest : request cursor = some (pageOf token info limit rest)) :
    ∃ pages, Partition limit info rest pages ∧
      ∀ fuel, rest.length < fuel → follow request fuel cursor = some pages := by
  induction hn : rest.length using Nat.strong_induction_on generalizing front rest cursor with
  | _ n ih =>
    by_cases hmore : limit < rest.length
    · -- the last row of the page is the cursor of what the page left
      obtain ⟨init, r, hpage⟩ : ∃ init r, rest.take limit = init ++ [r] := by
        rcases List.eq_nil_or_concat (rest.take limit) with hnil | ⟨init, r, hpage⟩
        · have hempty := (List.take_eq_nil_iff.mp hnil).resolve_left (by omega)
          rw [hempty] at hmore
          simp at hmore
        · exact ⟨init, r, by rw [hpage, List.concat_eq_append]⟩
      have hsplit : full = (front ++ init) ++ r :: rest.drop limit := by
        rw [hfull, List.append_assoc]
        congr 1
        conv_lhs => rw [← List.take_append_drop limit rest, hpage]
        rw [List.append_assoc, List.singleton_append]
      have hbehind : rowsAfter key (key r) full = rest.drop limit := by
        rw [hsplit] at h ⊢
        exact h.rowsAfter_append
      have hanswer := hnext r (by rw [hsplit]; simp)
      rw [hbehind] at hanswer
      have hshorter : (rest.drop limit).length < n := by
        rw [List.length_drop]
        omega
      obtain ⟨pages, hpages, hfollow⟩ := ih _ hshorter
        (show full = (front ++ init ++ [r]) ++ rest.drop limit by rw [hsplit]; simp) hanswer rfl
      refine ⟨_, hpages.cons hmore token, ?_⟩
      intro fuel hfuel
      obtain ⟨fuel, rfl⟩ : ∃ k, fuel = k + 1 := ⟨fuel - 1, by omega⟩
      have hmore' : (pageOf token info limit rest).hasMore = true := decide_eq_true hmore
      have htoken : (pageOf token info limit rest).next = some (token r) := by
        simp [pageOf, hmore, hpage]
      rw [follow, hrequest, Option.bind_some, if_pos hmore', htoken, hfollow fuel (by omega)]
      rfl
    · refine ⟨_, Partition.single hmore token, ?_⟩
      intro fuel hfuel
      obtain ⟨fuel, rfl⟩ : ∃ k, fuel = k + 1 := ⟨fuel - 1, by omega⟩
      have hdone : (pageOf token info limit rest).hasMore = false := decide_eq_false hmore
      rw [follow, hrequest, Option.bind_some, if_neg (by simp [hdone])]

end Relational
