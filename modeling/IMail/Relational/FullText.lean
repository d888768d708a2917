import IMail.Relational.Table

/-!
# A full-text index over the content of a table

An external-content index keeps no rows of its own: it has the text of a column under the row id.
Triggers after `INSERT`, `UPDATE` and `DELETE` keep the two in step, where the entry to drop is
named by its row id and its old text. Row ids come from the whole table and mean nothing outside
of it.
-/

namespace Relational

universe u

/-- The rows of a table by their row ids, and the texts of its index. -/
structure IndexedTable (α : Type u) where
  rows : List (ℕ × α) := []
  docs : List (ℕ × String) := []

namespace IndexedTable

variable {α : Type u} (body : α → String) (t : IndexedTable α)

def table : List α := t.rows.map Prod.snd

def nextRowid : ℕ := (t.rows.map Prod.fst).foldr max 0 + 1

def insert (a : α) : IndexedTable α where
  rows := t.rows ++ [(t.nextRowid, a)]
  docs := t.docs ++ [(t.nextRowid, body a)]

/-- `DELETE ... WHERE p`: the trigger names the entry of every row that goes. -/
def delete (p : α → Bool) : IndexedTable α where
  rows := t.rows.filter fun r => !p r.2
  docs := t.docs.filter fun d => !t.rows.any fun r => p r.2 && d == (r.1, body r.2)

def changed (p : α → Bool) (f : α → α) : List (ℕ × α) :=
  t.rows.filter fun r => p r.2 && body (f r.2) != body r.2

/-- `UPDATE ... SET f WHERE p`: the trigger replaces the entries of the rows whose text changes. -/
def update (p : α → Bool) (f : α → α) : IndexedTable α where
  rows := t.rows.map fun r => if p r.2 then (r.1, f r.2) else r
  docs := (t.docs.filter fun d => !(t.changed body p f).any fun r => d == (r.1, body r.2)) ++
    (t.changed body p f).map fun r => (r.1, body (f r.2))

/-- `INSERT INTO index(index) VALUES('rebuild')` -/
def rebuild : IndexedTable α where
  rows := t.rows
  docs := t.rows.map fun r => (r.1, body r.2)

@[simp] theorem table_insert (a : α) : (t.insert body a).table = t.table ++ [a] := by
  simp [table, insert]

@[simp] theorem table_delete (p : α → Bool) :
    (t.delete body p).table = deleteWhere p t.table := by
  simp only [table, delete, deleteWhere, List.filter_map]
  rfl

@[simp] theorem table_update (p : α → Bool) (f : α → α) :
    (t.update body p f).table = updateWhere p f t.table := by
  simp only [table, update, updateWhere, List.map_map]
  apply List.map_congr_left
  intro r _
  by_cases hp : p r.2 = true <;> simp [hp]

/-- The index has the text of every row under its id, once, and nothing else. -/
structure Synced : Prop where
  rowids : (t.rows.map Prod.fst).Nodup
  docids : (t.docs.map Prod.fst).Nodup
  docs : ∀ d, d ∈ t.docs ↔ ∃ r ∈ t.rows, d = (r.1, body r.2)

variable {body t}

variable {r : ℕ × α} {p : α → Bool} {f : α → α}

theorem Synced.row_eq (h : t.Synced body) {s : ℕ × α} (hr : r ∈ t.rows) (hs : s ∈ t.rows)
    (hid : r.1 = s.1) : r = s :=
  List.inj_on_of_nodup_map h.rowids hr hs hid

theorem lt_nextRowid (h : r ∈ t.rows) : r.1 < t.nextRowid := by
  have hmem : r.1 ∈ t.rows.map Prod.fst := List.mem_map_of_mem h
  have hle : ∀ ids : List ℕ, r.1 ∈ ids → r.1 ≤ ids.foldr max 0 := by
    intro ids hids
    induction ids with
    | nil => simp at hids
    | cons i ids ih =>
      rw [List.foldr_cons]
      rcases List.mem_cons.mp hids with heq | hids
      · exact heq ▸ le_max_left _ _
      · exact (ih hids).trans (le_max_right _ _)
  exact Nat.lt_succ_of_le (hle _ hmem)

theorem nodup_append_nextRowid {ids : List ℕ} (h : ids.Nodup)
    (hids : ∀ i ∈ ids, ∃ r ∈ t.rows, r.1 = i) : (ids ++ [t.nextRowid]).Nodup := by
  apply List.nodup_append.mpr
  refine ⟨h, List.nodup_singleton _, ?_⟩
  intro i hi j hj
  obtain ⟨r, hr, rfl⟩ := hids i hi
  obtain rfl := List.mem_singleton.mp hj
  exact (lt_nextRowid hr).ne

theorem synced_empty : ({} : IndexedTable α).Synced body where
  rowids := List.nodup_nil
  docids := List.nodup_nil
  docs := by simp

theorem synced_rebuild (h : (t.rows.map Prod.fst).Nodup) : (t.rebuild body).Synced body where
  rowids := h
  docids := by
    simpa [rebuild, List.map_map, Function.comp_def] using h
  docs := by
    intro d
    simp [rebuild, eq_comm]

theorem Synced.doc_row (h : t.Synced body) {i : ℕ} (hi : i ∈ t.docs.map Prod.fst) :
    ∃ r ∈ t.rows, r.1 = i := by
  obtain ⟨d, hd, rfl⟩ := List.mem_map.mp hi
  obtain ⟨r, hr, rfl⟩ := (h.docs d).mp hd
  exact ⟨r, hr, rfl⟩

theorem Synced.insert (h : t.Synced body) (a : α) : (t.insert body a).Synced body where
  rowids := by
    simp only [IndexedTable.insert, List.map_append, List.map_singleton]
    apply nodup_append_nextRowid h.rowids
    intro i hi
    obtain ⟨r, hr, rfl⟩ := List.mem_map.mp hi
    exact ⟨r, hr, rfl⟩
  docids := by
    simp only [IndexedTable.insert, List.map_append, List.map_singleton]
    exact nodup_append_nextRowid h.docids fun i hi => h.doc_row hi
  docs := by
    intro d
    simp only [IndexedTable.insert]
    rw [List.mem_append, List.mem_singleton, h.docs]
    constructor
    · rintro (⟨r, hr, rfl⟩ | rfl)
      · exact ⟨r, List.mem_append_left _ hr, rfl⟩
      · exact ⟨_, List.mem_append_right _ (List.mem_singleton_self _), rfl⟩
    · rintro ⟨r, hr, rfl⟩
      rcases List.mem_append.mp hr with hr | hr
      · exact .inl ⟨r, hr, rfl⟩
      · obtain rfl := List.mem_singleton.mp hr
        exact .inr rfl

theorem Synced.delete (h : t.Synced body) (p : α → Bool) : (t.delete body p).Synced body where
  rowids := h.rowids.sublist (List.filter_sublist.map _)
  docids := h.docids.sublist (List.filter_sublist.map _)
  docs := by
    intro d
    simp only [IndexedTable.delete]
    rw [List.mem_filter, h.docs]
    constructor
    · rintro ⟨⟨r, hr, rfl⟩, hkept⟩
      simp only [Bool.not_eq_true', List.any_eq_false, Bool.and_eq_true, beq_iff_eq,
        not_and] at hkept
      refine ⟨r, List.mem_filter.mpr ⟨hr, ?_⟩, rfl⟩
      by_contra hp
      exact hkept r hr (by simpa using hp) rfl
    · rintro ⟨r, hr, rfl⟩
      obtain ⟨hr, hp⟩ := List.mem_filter.mp hr
      refine ⟨⟨r, hr, rfl⟩, ?_⟩
      simp only [Bool.not_eq_true', List.any_eq_false, Bool.and_eq_true, beq_iff_eq, not_and]
      intro s hs hps heq
      obtain rfl := h.row_eq hr hs (Prod.ext_iff.mp heq).1
      simp [hps] at hp

theorem mem_changed :
    r ∈ t.changed body p f ↔ r ∈ t.rows ∧ p r.2 = true ∧ body (f r.2) ≠ body r.2 := by
  simp [changed]

theorem doc_of_unchanged (hr : r ∈ t.rows) (hsame : r ∉ t.changed body p f) :
    ((if p r.2 then (r.1, f r.2) else r).1, body (if p r.2 then (r.1, f r.2) else r).2) =
      (r.1, body r.2) := by
  by_cases hp : p r.2 = true
  · have htext : body (f r.2) = body r.2 := by
      by_contra hne
      exact hsame (mem_changed.mpr ⟨hr, hp, hne⟩)
    rw [if_pos hp, htext]
  · rw [if_neg hp]

theorem Synced.kept_iff (h : t.Synced body) {d : ℕ × String} :
    (d ∈ t.docs.filter fun d => !(t.changed body p f).any fun r => d == (r.1, body r.2)) ↔
      ∃ r ∈ t.rows, r ∉ t.changed body p f ∧ d = (r.1, body r.2) := by
  rw [List.mem_filter, h.docs, Bool.not_eq_true', List.any_eq_false]
  constructor
  · rintro ⟨⟨r, hr, rfl⟩, hkept⟩
    refine ⟨r, hr, ?_, rfl⟩
    intro hchanged
    exact hkept r hchanged (by simp)
  · rintro ⟨r, hr, hsame, rfl⟩
    refine ⟨⟨r, hr, rfl⟩, ?_⟩
    intro s hs heq
    rw [beq_iff_eq] at heq
    obtain rfl := h.row_eq hr (mem_changed.mp hs).1 (Prod.ext_iff.mp heq).1
    exact hsame hs

theorem Synced.update (h : t.Synced body) (p : α → Bool) (f : α → α) :
    (t.update body p f).Synced body where
  rowids := by
    have hids : (Prod.fst ∘ fun r : ℕ × α => if p r.2 then (r.1, f r.2) else r) = Prod.fst := by
      funext r
      by_cases hp : p r.2 <;> simp [hp]
    simp only [IndexedTable.update, List.map_map, hids]
    exact h.rowids
  docids := by
    simp only [IndexedTable.update, List.map_append, List.map_map]
    apply List.nodup_append.mpr
    refine ⟨h.docids.sublist (List.filter_sublist.map _),
      h.rowids.sublist (List.filter_sublist.map _), ?_⟩
    intro i hi j hj heq
    obtain ⟨d, hd, rfl⟩ := List.mem_map.mp hi
    obtain ⟨s, hs, rfl⟩ := List.mem_map.mp hj
    obtain ⟨r, hr, hsame, rfl⟩ := h.kept_iff.mp hd
    obtain rfl := h.row_eq hr (mem_changed.mp hs).1 heq
    exact hsame hs
  docs := by
    intro d
    simp only [IndexedTable.update]
    rw [List.mem_append, h.kept_iff, List.mem_map]
    constructor
    · rintro (⟨r, hr, hsame, rfl⟩ | ⟨r, hr, rfl⟩)
      · exact ⟨_, List.mem_map_of_mem hr, (doc_of_unchanged hr hsame).symm⟩
      · obtain ⟨hr, hp, _⟩ := mem_changed.mp hr
        refine ⟨_, List.mem_map_of_mem hr, ?_⟩
        rw [if_pos hp]
    · rintro ⟨s, hs, rfl⟩
      obtain ⟨r, hr, rfl⟩ := List.mem_map.mp hs
      by_cases hchanged : r ∈ t.changed body p f
      · exact .inr ⟨r, hchanged, by rw [if_pos (mem_changed.mp hchanged).2.1]⟩
      · exact .inl ⟨r, hr, hchanged, doc_of_unchanged hr hchanged⟩

/-- `rowid IN (SELECT rowid FROM index WHERE text MATCH ...)` -/
def hits (t : IndexedTable α) (found : String → Bool) (rowid : ℕ) : Bool :=
  t.docs.any fun d => d.1 == rowid && found d.2

theorem Synced.hits_eq (h : t.Synced body) (found : String → Bool) (hr : r ∈ t.rows) :
    t.hits found r.1 = found (body r.2) := by
  rw [Bool.eq_iff_iff, hits, List.any_eq_true]
  constructor
  · rintro ⟨d, hd, hmatch⟩
    rw [Bool.and_eq_true, beq_iff_eq] at hmatch
    obtain ⟨s, hs, rfl⟩ := (h.docs d).mp hd
    obtain rfl := h.row_eq hs hr hmatch.1
    exact hmatch.2
  · intro hfound
    exact ⟨(r.1, body r.2), (h.docs _).mpr ⟨r, hr, rfl⟩, by simp [hfound]⟩

end IndexedTable

end Relational
