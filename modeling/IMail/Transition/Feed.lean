import IMail.Relational.Keyset

/-!
# Reading a growing table by a cursor

Rows get the next key when they are inserted, and can be pruned later. A reader goes from page to
page with the key of the last row it saw, emits something for some of the rows, and may start again
from the last key that arrived. It emits what the rows give in key order, each once, apart from
rows that were pruned before it came to them.
-/

namespace Feed

open Relational

universe u

variable {α β : Type u} [DecidableEq α]

/-- A numbered table, with what was ever in it and what was pruned. -/
structure Journal (α : Type u) where
  sequence : ℕ
  rows : List α
  inserted : List α
  pruned : List α := []

variable (key : α → ℕ)

/-- The rows are what is left of the insertions, which got ascending keys. -/
structure Journal.Valid (j : Journal α) : Prop where
  ascending : Ascending key j.inserted
  bound : ∀ r ∈ j.inserted, key r ≤ j.sequence
  gone : ∀ r ∈ j.pruned, r ∈ j.inserted
  left : j.rows = j.inserted.filter fun r => r ∉ j.pruned

def Journal.insert (j : Journal α) (r : α) : Journal α :=
  { j with sequence := j.sequence + 1, rows := j.rows ++ [r], inserted := j.inserted ++ [r] }

def Journal.prune (j : Journal α) (p : α → Bool) : Journal α :=
  { j with rows := deleteWhere p j.rows, pruned := j.pruned ++ j.rows.filter p }

variable {key}

variable {j : Journal α} {r : α} {rows : List α} {limit : ℕ}

theorem Journal.Valid.rows_ascending (h : j.Valid key) : Ascending key j.rows := by
  rw [h.left]
  exact h.ascending.filter _

theorem Journal.Valid.insert (h : j.Valid key) (hr : key r = j.sequence + 1) :
    (j.insert r).Valid key := by
  have hnew : r ∉ j.pruned := by
    intro hgone
    have hle := h.bound r (h.gone r hgone)
    omega
  constructor
  · apply h.ascending.append
    intro a ha
    have hle := h.bound a ha
    omega
  · intro a ha
    rcases List.mem_append.mp ha with ha | ha
    · exact (h.bound a ha).trans (Nat.le_succ _)
    · obtain rfl := List.mem_singleton.mp ha
      exact hr.le
  · intro a ha
    exact List.mem_append_left _ (h.gone a ha)
  · show j.rows ++ [r] = (j.inserted ++ [r]).filter fun r => r ∉ j.pruned
    rw [List.filter_append, ← h.left]
    simp [hnew]

theorem Journal.Valid.prune (h : j.Valid key) (p : α → Bool) : (j.prune p).Valid key := by
  constructor
  · exact h.ascending
  · exact h.bound
  · intro a ha
    rcases List.mem_append.mp ha with ha | ha
    · exact h.gone a ha
    · have hrow := (List.mem_filter.mp ha).1
      rw [h.left] at hrow
      exact (List.mem_filter.mp hrow).1
  · show deleteWhere p j.rows = j.inserted.filter fun r => r ∉ j.pruned ++ j.rows.filter p
    have hrows : ∀ a ∈ j.inserted, a ∈ j.rows ↔ a ∉ j.pruned := by
      intro a ha
      rw [h.left]
      simp [ha]
    conv_lhs => rw [h.left, deleteWhere, List.filter_filter]
    apply List.filter_congr
    intro a ha
    by_cases hgone : a ∈ j.pruned
    · simp [hgone]
    · simp [hgone, (hrows a ha).mpr hgone]

variable (key) in
def Numbered : ℕ → List α → Prop
  | _, [] => True
  | n, r :: rows => key r = n + 1 ∧ Numbered (n + 1) rows

def Journal.insertAll (j : Journal α) (rows : List α) : Journal α := rows.foldl Journal.insert j

omit [DecidableEq α] in
theorem Journal.insertAll_eq (j : Journal α) (rows : List α) :
    j.insertAll rows =
      ⟨j.sequence + rows.length, j.rows ++ rows, j.inserted ++ rows, j.pruned⟩ := by
  induction rows generalizing j with
  | nil => simp [Journal.insertAll]
  | cons r rows ih =>
    rw [Journal.insertAll, List.foldl_cons, ← Journal.insertAll, ih]
    simp only [Journal.insert, List.length_cons, List.append_assoc, List.singleton_append]
    congr 1
    omega

omit [DecidableEq α] in
theorem Journal.insertAll_induction {P : Journal α → Prop}
    (hinsert : ∀ j r, P j → key r = j.sequence + 1 → P (j.insert r)) (h : P j)
    (hrows : Numbered key j.sequence rows) : P (j.insertAll rows) := by
  induction rows generalizing j with
  | nil => exact h
  | cons r rows ih => exact ih (hinsert j r h hrows.1) hrows.2

theorem Journal.Valid.insertAll (h : j.Valid key) (hrows : Numbered key j.sequence rows) :
    (j.insertAll rows).Valid key :=
  Journal.insertAll_induction (P := Journal.Valid key) (fun _ _ hj => hj.insert) h hrows

/-- A reader: where it is, what it has emitted that has not arrived, and what has. The rows that it
passed over because they had been pruned before are kept for the record. -/
structure Reader (α β : Type u) where
  cursor : ℕ
  sent : List β := []
  received : List β := []
  lost : List α := []

variable (key)

def Reader.advance (c : Reader α β) (cursor : ℕ) (emitted : List β) (pruned : List α) :
    Reader α β :=
  { c with
    cursor
    sent := c.sent ++ emitted
    lost := c.lost ++ pruned.filter fun r => c.cursor < key r ∧ key r ≤ cursor }

def Reader.receive (c : Reader α β) (n : ℕ) : Reader α β :=
  { c with sent := c.sent.drop n, received := c.received ++ c.sent.take n }

/-- What is under way is dropped, and the reader begins again from a key. -/
def Reader.restart (c : Reader α β) (cursor : ℕ) : Reader α β :=
  { c with cursor, sent := [], lost := c.lost.filter fun r => key r ≤ cursor }

def passed (start cursor : ℕ) (lost inserted : List α) : List α :=
  (inserted.filter fun r => start < key r ∧ r ∉ lost).filter fun r => key r ≤ cursor

variable (emit : α → Option β)

/-- Everything that the reader emitted is from the rows between its start and its cursor, in their
order and each once, without those that were pruned before it came to them. -/
structure Reader.Exact (j : Journal α) (start : ℕ) (c : Reader α β) : Prop where
  log : c.received ++ c.sent = (passed key start c.cursor c.lost j.inserted).filterMap emit
  start_le : start ≤ c.cursor
  cursor_le : c.cursor ≤ j.sequence
  lost : ∀ r ∈ c.lost, r ∈ j.pruned ∧ key r ≤ c.cursor

variable {key emit} {j : Journal α} {start : ℕ} {c : Reader α β}

theorem passed_self (start : ℕ) (lost inserted : List α) :
    passed key start start lost inserted = [] := by
  apply List.filter_eq_nil_iff.mpr
  intro r hr
  have hlt := (of_decide_eq_true (List.mem_filter.mp hr).2).1
  simpa using hlt

theorem Reader.exact_start (hstart : start ≤ j.sequence) :
    ({ cursor := start } : Reader α β).Exact key emit j start := by
  constructor
  · rw [passed_self]
    rfl
  · exact le_rfl
  · exact hstart
  · intro r hr
    cases hr

section

variable (h : c.Exact key emit j start)
include h

theorem Reader.Exact.insert (hr : key r = j.sequence + 1) : c.Exact key emit (j.insert r) start := by
  refine ⟨?_, h.start_le, h.cursor_le.trans (Nat.le_succ _), h.lost⟩
  have hout : ¬ key r ≤ c.cursor := by
    have hle := h.cursor_le
    omega
  have hsame : passed key start c.cursor c.lost (j.insert r).inserted =
      passed key start c.cursor c.lost j.inserted := by
    simp only [passed, Journal.insert, List.filter_append, List.filter_filter]
    rw [List.append_right_eq_self]
    simp [hout]
  rw [hsame]
  exact h.log

theorem Reader.Exact.insertAll (hrows : Numbered key j.sequence rows) :
    c.Exact key emit (j.insertAll rows) start :=
  Journal.insertAll_induction (P := fun j => c.Exact key emit j start) (fun _ _ hj => hj.insert) h
    hrows

theorem Reader.Exact.prune (p : α → Bool) : c.Exact key emit (j.prune p) start := by
  refine ⟨h.log, h.start_le, h.cursor_le, ?_⟩
  intro r hr
  exact ⟨List.mem_append_left _ (h.lost r hr).1, (h.lost r hr).2⟩

theorem Reader.Exact.receive (n : ℕ) : (c.receive n).Exact key emit j start := by
  refine ⟨?_, h.start_le, h.cursor_le, h.lost⟩
  show c.received ++ c.sent.take n ++ c.sent.drop n = _
  rw [List.append_assoc, List.take_append_drop]
  exact h.log

theorem Reader.Exact.passed_advance (hj : j.Valid key) (hlimit : 0 < limit) {cursor : ℕ}
    (hcursor : cursor = lastKey key c.cursor (pageAfter key c.cursor limit j.rows)) :
    passed key start cursor
        (c.lost ++ j.pruned.filter fun r => c.cursor < key r ∧ key r ≤ cursor) j.inserted =
      passed key start c.cursor c.lost j.inserted ++ pageAfter key c.cursor limit j.rows := by
  have hle : c.cursor ≤ cursor := by
    rw [hcursor]
    exact hj.rows_ascending.le_lastKey c.cursor hlimit
  unfold passed
  rw [(hj.ascending.filter _).filter_le_split hle]
  congr 1
  · rw [List.filter_filter, List.filter_filter]
    apply List.filter_congr
    intro r _
    by_cases hr : key r ≤ c.cursor
    · simp [hr, not_lt.mpr hr]
    · simp [hr]
  · rw [hj.rows_ascending.pageAfter_eq_filter c.cursor hlimit, ← hcursor, hj.left,
      List.filter_filter, List.filter_filter]
    apply List.filter_congr
    intro r _
    by_cases hbetween : c.cursor < key r ∧ key r ≤ cursor
    · have hnew : r ∉ c.lost := by
        intro hlost
        have hold := (h.lost r hlost).2
        omega
      have hstart : start < key r := h.start_le.trans_lt hbetween.1
      simp [hbetween, hnew, hstart]
    · simp [hbetween]

theorem Reader.Exact.advance (hj : j.Valid key) (hlimit : 0 < limit) :
    (c.advance key (lastKey key c.cursor (pageAfter key c.cursor limit j.rows))
      ((pageAfter key c.cursor limit j.rows).filterMap emit) j.pruned).Exact key emit j start := by
  have hle := hj.rows_ascending.le_lastKey c.cursor hlimit
  constructor
  · show c.received ++ (c.sent ++ _) = _
    rw [← List.append_assoc, h.log]
    simp only [Reader.advance]
    rw [h.passed_advance hj hlimit rfl, List.filterMap_append]
  · exact h.start_le.trans hle
  · rcases hj.rows_ascending.page_cases c.cursor hlimit with ⟨_, hpage⟩ | ⟨front, r, hpage, _, hrows⟩
    · simp only [Reader.advance, hpage, lastKey_nil]
      exact h.cursor_le
    · simp only [Reader.advance, hpage, lastKey_append]
      have hr : r ∈ rowsAfter key c.cursor j.rows := by
        rw [hrows]
        exact List.mem_append_right _ List.mem_cons_self
      rw [hj.left] at hr
      exact hj.bound r (List.mem_filter.mp (mem_rowsAfter.mp hr).1).1
  · intro r hr
    rcases List.mem_append.mp hr with hr | hr
    · exact ⟨(h.lost r hr).1, (h.lost r hr).2.trans hle⟩
    · obtain ⟨hpruned, hbetween⟩ := List.mem_filter.mp hr
      exact ⟨hpruned, (of_decide_eq_true hbetween).2⟩

end

omit [DecidableEq α] in
theorem exists_last_passed (hrows : Ascending key rows) {front rest : List β} {b : β}
    (h : front ++ b :: rest = rows.filterMap emit) :
    ∃ a ∈ rows, emit a = some b ∧
      (rows.filter fun r => key r ≤ key a).filterMap emit = front ++ [b] := by
  obtain ⟨before, behind, rfl, hfront, hbehind⟩ := List.filterMap_eq_append_iff.mp h.symm
  obtain ⟨silent, a, after, rfl, hsilent, ha, _⟩ := List.filterMap_eq_cons_iff.mp hbehind
  rw [← List.append_assoc] at hrows ⊢
  refine ⟨a, by simp, ha, ?_⟩
  rw [hrows.filter_le_append, List.filterMap_append, List.filterMap_append, hfront,
    List.filterMap_eq_nil_iff.mpr hsilent, List.append_nil]
  simp [ha]

theorem passed_restart {cursor : ℕ} (hle : cursor ≤ c.cursor) (inserted : List α) :
    passed key start cursor (c.lost.filter fun r => key r ≤ cursor) inserted =
      (passed key start c.cursor c.lost inserted).filter fun r => key r ≤ cursor := by
  unfold passed
  rw [List.filter_filter, List.filter_filter, List.filter_filter]
  apply List.filter_congr
  intro r _
  by_cases hr : key r ≤ cursor
  · simp [hr, hr.trans hle]
  · simp [hr]

theorem Reader.Exact.restart (h : c.Exact key emit j start) (hj : j.Valid key) {outKey : β → ℕ}
    (hout : ∀ a b, emit a = some b → outKey b = key a) :
    (c.restart key (lastKey outKey start c.received)).Exact key emit j start := by
  rcases List.eq_nil_or_concat c.received with hnone | ⟨front, b, hreceived⟩
  · rw [hnone, lastKey_nil]
    refine ⟨?_, le_rfl, h.start_le.trans h.cursor_le, ?_⟩
    · simp only [Reader.restart, passed_self, hnone]
      rfl
    · intro r hr
      obtain ⟨hlost, hle⟩ := List.mem_filter.mp hr
      exact ⟨(h.lost r hlost).1, of_decide_eq_true hle⟩
  · rw [List.concat_eq_append] at hreceived
    have hlog := h.log
    rw [hreceived, List.append_assoc, List.singleton_append] at hlog
    have hascending : Ascending key (passed key start c.cursor c.lost j.inserted) :=
      (hj.ascending.filter _).filter _
    obtain ⟨a, ha, hemit, hfront⟩ := exists_last_passed hascending hlog
    obtain ⟨hstart, hle⟩ := List.mem_filter.mp ha
    have hle : key a ≤ c.cursor := of_decide_eq_true hle
    have hstart := (of_decide_eq_true (List.mem_filter.mp hstart).2).1
    rw [hreceived, lastKey_append, hout a b hemit]
    refine ⟨?_, hstart.le, hle.trans h.cursor_le, ?_⟩
    · simp only [Reader.restart]
      rw [passed_restart hle, hfront, hreceived, List.append_nil]
    · intro r hr
      obtain ⟨hlost, hle'⟩ := List.mem_filter.mp hr
      exact ⟨(h.lost r hlost).1, of_decide_eq_true hle'⟩

theorem Reader.Exact.emitted (h : c.Exact key emit j start) (hj : j.Valid key) {b : β}
    (hr : r ∈ j.rows) (hstart : start < key r) (hcursor : key r ≤ c.cursor)
    (hemit : emit r = some b) : b ∈ c.received ++ c.sent := by
  rw [hj.left] at hr
  obtain ⟨hinserted, hleft⟩ := List.mem_filter.mp hr
  have hkept : r ∉ c.lost := fun hlost => of_decide_eq_true hleft (h.lost r hlost).1
  rw [h.log]
  apply List.mem_filterMap.mpr
  exact ⟨r, List.mem_filter.mpr ⟨List.mem_filter.mpr ⟨hinserted, by simp [hstart, hkept]⟩,
    by simpa using hcursor⟩, hemit⟩

omit [DecidableEq α] in
theorem rowsAfter_of_pages (hrows : Ascending key rows) (hlimit : 0 < limit) (cursors : ℕ → ℕ)
    (hnext : ∀ i, cursors (i + 1) = lastKey key (cursors i) (pageAfter key (cursors i) limit rows))
    (n : ℕ) :
    rowsAfter key (cursors n) rows = (rowsAfter key (cursors 0) rows).drop (limit * n) := by
  induction n with
  | zero => simp
  | succ n ih =>
    rw [hnext, hrows.rowsAfter_lastKey _ hlimit, ih, List.drop_drop, Nat.mul_succ]

end Feed
