import Mathlib.Data.List.Basic
import Mathlib.Data.List.Count
import Mathlib.Order.Basic
import Mathlib.Tactic

/-!
# Tables as lists of rows

A table is the list of its rows in insertion order. `UPDATE ... WHERE`,
`DELETE ... WHERE` and `SELECT ... ORDER BY ... LIMIT 1` are the three functions
below. A (partial) unique index is a key function into `Option`: a row whose key is
`none` is outside the index. Transactions return in `Except`, so that a failed one
has no new table at all.
-/

namespace Relational

universe u

variable {α β κ ε : Type u}

variable {x : Except ε α} {p : α → Bool} {a row : α} {P : α → Prop} {R : α → α → Prop} {f : α → α}
  {rows : List α} {before : α → α → Bool} {key : α → Option κ}

variable {b : β} {S : β → β → Prop} {q : α → Bool} {k : κ}

theorem bind_eq_ok {f : α → Except ε β} : (x >>= f) = .ok b ↔ ∃ a, x = .ok a ∧ f a = .ok b := by
  cases x with
  | error e => simp [bind, Except.bind]
  | ok a => simp [bind, Except.bind]

theorem exists_ok_of_any (h : x.toOption.any p = true) : ∃ a, x = .ok a ∧ p a = true := by
  cases x with
  | error e => cases h
  | ok a => exact ⟨a, rfl, h⟩

theorem exists_ok_of_isOk (h : x.isOk = true) : ∃ a, x = .ok a := by
  cases x with
  | error e => cases h
  | ok a => exact ⟨a, rfl⟩

theorem map_eq_ok {f : α → β} (h : x.map f = .ok b) : ∃ a, x = .ok a ∧ f a = b := by
  cases x with
  | error e => cases h
  | ok a => exact ⟨a, rfl, Except.ok.inj h⟩

theorem mapError_eq_ok {ε' : Type*} {f : ε → ε'} (h : x.mapError f = .ok a) : x = .ok a := by
  cases x with
  | error e => cases h
  | ok b => exact congrArg Except.ok (Except.ok.inj h)

@[simp] theorem error_ne_ok {e : ε} : (Except.error e : Except ε α) ≠ .ok a := by
  simp

def committed (s : α) : Except ε α → α
  | .ok s' => s'
  | .error _ => s

@[simp] theorem committed_ok (s s' : α) : committed s (.ok s' : Except ε α) = s' := rfl

@[simp] theorem committed_error (s : α) (e : ε) : committed s (.error e) = s := rfl

theorem committed_of {s : α} {r : Except ε α} (hs : P s) (hok : ∀ s', r = .ok s' → P s') :
    P (committed s r) := by
  cases r with
  | error e => exact hs
  | ok s' => exact hok s' rfl

theorem map_snd_ok {r : Except ε (α × β)} {b : β} (h : r.map Prod.snd = .ok b) :
    ∃ a, r = .ok (a, b) := by
  cases r with
  | error e => cases h
  | ok p =>
    cases h
    exact ⟨p.1, rfl⟩

/-- Two transactions that fail alike, or succeed with related results. -/
inductive SameOutcome (R : α → α → Prop) : Except ε α → Except ε α → Prop
  | error (e : ε) : SameOutcome R (.error e) (.error e)
  | ok {a b : α} (h : R a b) : SameOutcome R (.ok a) (.ok b)

theorem SameOutcome.bind {y : Except ε α} {f g : α → Except ε β} (h : SameOutcome R x y)
    (hfg : ∀ a b, R a b → SameOutcome S (f a) (g b)) : SameOutcome S (x >>= f) (y >>= g) := by
  cases h with
  | error e => exact .error e
  | ok hab => exact hfg _ _ hab

theorem SameOutcome.map {y : Except ε α} {f g : α → β} (h : SameOutcome R x y)
    (hfg : ∀ a b, R a b → S (f a) (g b)) : SameOutcome S (x.map f) (y.map g) := by
  cases h with
  | error e => exact .error e
  | ok hab => exact .ok (hfg _ _ hab)

theorem rel_ite {c d : Prop} [Decidable c] [Decidable d] {x x' y y' : α} (hcd : c ↔ d)
    (hpos : R x y) (hneg : R x' y') : R (if c then x else x') (if d then y else y') := by
  by_cases hc : c
  · rwa [if_pos hc, if_pos (hcd.mp hc)]
  · rwa [if_neg hc, if_neg fun hd => hc (hcd.mpr hd)]

/-- `UPDATE rows SET f WHERE p`. -/
def updateWhere (p : α → Bool) (f : α → α) (rows : List α) : List α :=
  rows.map fun row => if p row then f row else row

/-- `DELETE FROM rows WHERE p`. -/
def deleteWhere (p : α → Bool) (rows : List α) : List α :=
  rows.filter fun row => !p row

@[simp] theorem updateWhere_nil (p : α → Bool) (f : α → α) : updateWhere p f [] = [] := rfl

theorem mem_updateWhere :
    row ∈ updateWhere p f rows ↔
      (∃ old ∈ rows, p old = true ∧ row = f old) ∨ (row ∈ rows ∧ p row = false) := by
  simp only [updateWhere, List.mem_map]
  constructor
  · rintro ⟨old, hold, rfl⟩
    by_cases h : p old = true
    · exact Or.inl ⟨old, hold, h, by simp [h]⟩
    · exact Or.inr ⟨by simpa [h] using hold, by simp [h]⟩
  · rintro (⟨old, hold, h, rfl⟩ | ⟨hrow, h⟩)
    · exact ⟨old, hold, by simp [h]⟩
    · exact ⟨row, hrow, by simp [h]⟩

@[simp] theorem mem_deleteWhere :
    row ∈ deleteWhere p rows ↔ row ∈ rows ∧ p row = false := by
  simp [deleteWhere]

theorem updateWhere_eq_self (h : ∀ row ∈ rows, p row = false) : updateWhere p f rows = rows := by
  rw [updateWhere, List.map_congr_left (g := id)]
  · simp
  · intro row hrow
    simp [h row hrow]

theorem updateWhere_congr {g : α → α} (h : ∀ row ∈ rows, p row = true → f row = g row) :
    updateWhere p f rows = updateWhere p g rows := by
  apply List.map_congr_left
  intro row hrow
  by_cases hp : p row = true
  · rw [if_pos hp, if_pos hp, h row hrow hp]
  · rw [if_neg hp, if_neg hp]

theorem forall_updateWhere (hkeep : ∀ row ∈ rows, p row = false → P row)
    (hset : ∀ row ∈ rows, p row = true → P (f row)) : ∀ row ∈ updateWhere p f rows, P row := by
  intro row hrow
  rcases mem_updateWhere.mp hrow with ⟨old, hold, h, rfl⟩ | ⟨hold, h⟩
  · exact hset old hold h
  · exact hkeep row hold h

theorem map_updateWhere_of_mem (col : α → β)
    (h : ∀ row ∈ rows, p row = true → col (f row) = col row) :
    (updateWhere p f rows).map col = rows.map col := by
  rw [updateWhere, List.map_map]
  apply List.map_congr_left
  intro row hrow
  by_cases hp : p row = true
  · simp [hp, h row hrow hp]
  · simp [hp]

theorem map_updateWhere (col : α → β) (h : ∀ row, col (f row) = col row) :
    (updateWhere p f rows).map col = rows.map col :=
  map_updateWhere_of_mem col fun row _ _ => h row

theorem filter_updateWhere_out (hout : ∀ row, p row = true → q (f row) = false) :
    (updateWhere p f rows).filter q = rows.filter fun row => q row && !p row := by
  induction rows with
  | nil => rfl
  | cons row rows ih =>
    simp only [updateWhere, List.map_cons] at ih ⊢
    rw [List.filter_cons, List.filter_cons, ih]
    by_cases hp : p row = true
    · simp [hp, hout row hp]
    · simp [hp]

theorem filter_deleteWhere (hother : ∀ row ∈ rows, q row = true → p row = false) :
    (deleteWhere p rows).filter q = rows.filter q := by
  rw [deleteWhere, List.filter_filter]
  apply List.filter_congr
  intro row hrow
  by_cases hq : q row = true
  · simp [hq, hother row hrow hq]
  · simp [hq]

theorem find?_updateWhere_key [DecidableEq β] (key : α → β) (k : β)
    (hf : ∀ row, key row = k → key (f row) = k) (k' : β) (rows : List α) :
    (updateWhere (fun row => key row == k) f rows).find? (fun row => key row == k') =
      (rows.find? fun row => key row == k').map fun row => if k' = k then f row else row := by
  induction rows with
  | nil => rfl
  | cons row rows ih =>
    simp only [updateWhere, List.map_cons, List.find?_cons] at ih ⊢
    have hkey : key (if (key row == k) = true then f row else row) = key row := by
      split_ifs with hk
      · rw [hf row (beq_iff_eq.mp hk), beq_iff_eq.mp hk]
      · rfl
    rw [hkey]
    by_cases hrow : key row = k'
    · simp [hrow]
    · simp only [beq_eq_false_iff_ne.mpr hrow]
      exact ih

theorem mem_updateWhere_col (col : α → β) (h : ∀ row, col (f row) = col row)
    (hrow : row ∈ updateWhere p f rows) : ∃ old ∈ rows, col old = col row := by
  rcases mem_updateWhere.mp hrow with ⟨old, hold, _, rfl⟩ | ⟨hold, _⟩
  · exact ⟨old, hold, (h old).symm⟩
  · exact ⟨row, hold, rfl⟩

/-- `SELECT ... ORDER BY ... LIMIT 1`: the first row that no other row sorts
strictly before; rows that tie keep their insertion order. -/
def firstBy (before : α → α → Bool) : List α → Option α
  | [] => none
  | row :: rows =>
    match firstBy before rows with
    | none => some row
    | some best => if before best row then some best else some row

theorem firstBy_mem (h : firstBy before rows = some row) : row ∈ rows := by
  induction rows generalizing row with
  | nil => simp [firstBy] at h
  | cons r rows ih =>
    simp only [firstBy] at h
    cases hb : firstBy before rows with
    | none =>
      simp only [hb, Option.some.injEq] at h
      simp [h]
    | some best =>
      simp only [hb] at h
      split_ifs at h with hlt
      · cases h
        exact List.mem_cons_of_mem _ (ih hb)
      · cases h
        exact List.mem_cons_self

@[simp] theorem firstBy_eq_none :
    firstBy before rows = none ↔ rows = [] := by
  cases rows with
  | nil => simp [firstBy]
  | cons r rows =>
    simp only [firstBy]
    cases firstBy before rows with
    | none => simp
    | some best => simp only [reduceCtorEq, iff_false]; split_ifs <;> simp

theorem firstBy_class (hbefore : ∀ a b, P a → ¬ P b → before a b = true)
    (hafter : ∀ a b, ¬ P a → P b → before a b = false) (h : firstBy before rows = some row)
    (hex : ∃ r ∈ rows, P r) : P row := by
  induction rows generalizing row with
  | nil => simp at hex
  | cons r rows ih =>
    simp only [firstBy] at h
    cases hb : firstBy before rows with
    | none =>
      have hnil := firstBy_eq_none.mp hb
      subst hnil
      simp only [hb, Option.some.injEq] at h
      simpa [h] using hex
    | some best =>
      simp only [hb] at h
      by_cases hbest : P best
      · by_cases hr : P r
        · split_ifs at h <;> cases h <;> assumption
        · rw [if_pos (hbefore best r hbest hr)] at h
          cases h
          exact hbest
      · obtain ⟨x, hx, hxP⟩ := hex
        rcases List.mem_cons.mp hx with rfl | hx
        · rw [if_neg (by simp [hafter best x hbest hxP])] at h
          cases h
          exact hxP
        · exact absurd (ih hb ⟨x, hx, hxP⟩) hbest

section

variable {before : α → α → Bool} (hasymm : ∀ a b, before a b = true → before b a = false)
  (hcotrans : ∀ a b c, before a c = true → before a b = true ∨ before b c = true)
variable {best : α}

variable (h : firstBy before rows = some best)
include h

include hasymm hcotrans

theorem firstBy_minimal : ∀ row ∈ rows, before row best = false := by
  induction rows generalizing best with
  | nil => simp
  | cons r rows ih =>
    have hirrefl : ∀ a, before a a = false := by
      intro a
      cases ha : before a a with
      | false => rfl
      | true => exact ha.symm.trans (hasymm a a ha)
    simp only [firstBy] at h
    cases hb : firstBy before rows with
    | none =>
      simp only [hb, Option.some.injEq] at h
      have hnil := firstBy_eq_none.mp hb
      subst hnil
      simp [h, hirrefl]
    | some b =>
      simp only [hb] at h
      have hrest := ih hb
      intro row hrow
      split_ifs at h with hlt
      · cases h
        rcases List.mem_cons.mp hrow with rfl | hrow
        · exact hasymm _ _ hlt
        · exact hrest row hrow
      · cases h
        rcases List.mem_cons.mp hrow with rfl | hrow
        · exact hirrefl _
        · by_contra hbefore
          rcases hcotrans row b _ (by simpa using hbefore) with hleft | hright
          · rw [hrest row hrow] at hleft
            cases hleft
          · exact hlt hright

theorem firstBy_filter (hp : p best = true) : firstBy before (rows.filter p) = some best := by
  induction rows generalizing best with
  | nil => simp [firstBy] at h
  | cons r rows ih =>
    have hminimal := firstBy_minimal hasymm hcotrans h
    simp only [firstBy] at h
    have hcases : best = r ∨ firstBy before rows = some best ∧ before best r = true := by
      cases hb : firstBy before rows with
      | none =>
        simp only [hb, Option.some.injEq] at h
        exact Or.inl h.symm
      | some b =>
        simp only [hb] at h
        split_ifs at h with hlt
        · cases h
          exact Or.inr ⟨rfl, hlt⟩
        · exact Or.inl (Option.some.inj h).symm
    rcases hcases with rfl | ⟨hrest, hlt⟩
    · rw [List.filter_cons_of_pos hp, firstBy]
      cases hb : firstBy before (rows.filter p) with
      | none => rfl
      | some b =>
        have hmem := List.mem_of_mem_filter (firstBy_mem hb)
        simp [hminimal b (List.mem_cons_of_mem _ hmem)]
    · have htail := ih hrest hp
      rw [List.filter_cons]
      split_ifs
      · simp only [firstBy, htail, hlt, if_true]
      · exact htail

end

def UniqueBy (key : α → Option κ) (rows : List α) : Prop :=
  rows.Pairwise fun a b => ∀ k, key a = some k → key b ≠ some k

theorem UniqueBy.nil (key : α → Option κ) : UniqueBy key [] := List.Pairwise.nil

theorem UniqueBy.eq_of_mem (h : UniqueBy key rows) {b : α} (ha : a ∈ rows) (hb : b ∈ rows)
    (hak : key a = some k) (hbk : key b = some k) : a = b := by
  induction rows with
  | nil => simp at ha
  | cons r rows ih =>
    obtain ⟨hr, hrest⟩ := List.pairwise_cons.mp h
    rcases List.mem_cons.mp ha with rfl | ha
    · rcases List.mem_cons.mp hb with rfl | hb
      · rfl
      · exact absurd hbk (hr b hb k hak)
    · rcases List.mem_cons.mp hb with rfl | hb
      · exact absurd hak (hr a ‹_› k hbk)
      · exact ih hrest ha hb

theorem UniqueBy.nodup_map {key : α → κ} (h : UniqueBy (fun row => some (key row)) rows) :
    (rows.map key).Nodup := by
  apply List.pairwise_map.mpr
  apply h.imp
  intro a b hab heq
  exact hab _ rfl (congrArg some heq.symm)

theorem UniqueBy.of_nodup_map {key : α → κ} (h : (rows.map key).Nodup) :
    UniqueBy (fun row => some (key row)) rows := by
  apply (List.pairwise_map.mp h).imp
  intro a b hab k ha hb
  exact hab (Option.some.inj (ha.trans hb.symm))

section

variable (h : UniqueBy key rows)
include h

theorem UniqueBy.deleteWhere (p : α → Bool) : UniqueBy key (deleteWhere p rows) :=
  h.sublist List.filter_sublist

theorem UniqueBy.append (hfree : ∀ old ∈ rows, ∀ k, key old = some k → key row ≠ some k) :
    UniqueBy key (rows ++ [row]) := by
  apply List.pairwise_append.mpr
  refine ⟨h, List.pairwise_singleton _ _, ?_⟩
  intro a ha b hb
  rw [List.mem_singleton.mp hb]
  exact hfree a ha

theorem UniqueBy.updateWhere
    (hf : ∀ row ∈ rows, p row = true → ∀ k, key (f row) = some k → key row = some k) :
    UniqueBy key (updateWhere p f rows) := by
  induction rows with
  | nil => exact UniqueBy.nil key
  | cons r rows ih =>
    obtain ⟨hr, hrest⟩ := List.pairwise_cons.mp h
    have hold : ∀ row ∈ r :: rows, ∀ k, key (if p row then f row else row) = some k →
        key row = some k := by
      intro row hrow k hk
      by_cases hp : p row = true
      · exact hf row hrow hp k (by simpa [hp] using hk)
      · simpa [hp] using hk
    apply List.pairwise_cons.mpr
    refine ⟨?_, ih hrest fun row hrow => hf row (List.mem_cons_of_mem _ hrow)⟩
    intro b hb k hk hbk
    obtain ⟨row, hrow, rfl⟩ := List.mem_map.mp hb
    exact hr row hrow k (hold r List.mem_cons_self k hk)
      (hold row (List.mem_cons_of_mem _ hrow) k hbk)

theorem UniqueBy.countP_le_one (hp : ∀ row ∈ rows, p row = true → key row = some k) :
    rows.countP p ≤ 1 := by
  induction rows with
  | nil => simp
  | cons r rows ih =>
    obtain ⟨hr, hrest⟩ := List.pairwise_cons.mp h
    have hrest' := ih hrest fun row hrow => hp row (List.mem_cons_of_mem _ hrow)
    by_cases hpr : p r = true
    · have hzero : rows.countP p = 0 := by
        apply List.countP_eq_zero.mpr
        intro b hb hpb
        exact hr b hb k (hp r List.mem_cons_self hpr) (hp b (List.mem_cons_of_mem _ hb) hpb)
      simp [hpr, hzero]
    · simpa [List.countP_cons, hpr] using hrest'

end

section

variable {before : κ → κ → Bool}

variable (hirrefl : ∀ k, before k k = false)
  (htrans : ∀ j k l, before j k = true → before k l = true → before j l = true)

include hirrefl htrans

end

section

variable {R : α → β → Prop} {xs : List α} {ys : List β}

theorem exists_mem_zip_left (h : List.Forall₂ R xs ys) {x : α} (hx : x ∈ xs) :
    ∃ y, (x, y) ∈ xs.zip ys := by
  induction h with
  | nil => simp at hx
  | @cons a b _ _ _ _ ih =>
    rcases List.mem_cons.mp hx with rfl | hx
    · exact ⟨b, by simp⟩
    · obtain ⟨y, hy⟩ := ih hx
      exact ⟨y, List.mem_cons_of_mem _ hy⟩

variable {y : β}

variable (h : List.Forall₂ R xs ys)
include h

theorem exists_mem_zip_right (hy : y ∈ ys) : ∃ x, (x, y) ∈ xs.zip ys := by
  induction h with
  | nil => simp at hy
  | @cons a b _ _ _ _ ih =>
    rcases List.mem_cons.mp hy with rfl | hy
    · exact ⟨a, by simp⟩
    · obtain ⟨x, hx⟩ := ih hy
      exact ⟨x, List.mem_cons_of_mem _ hx⟩

theorem exists_right_of_mem {x : α} (hx : x ∈ xs) : ∃ y ∈ ys, R x y := by
  obtain ⟨y, hy⟩ := exists_mem_zip_left h hx
  exact ⟨y, (List.of_mem_zip hy).2, (List.forall₂_iff_zip.mp h).2 hy⟩

theorem exists_left_of_mem (hy : y ∈ ys) : ∃ x ∈ xs, R x y := by
  obtain ⟨x, hx⟩ := exists_mem_zip_right h hy
  exact ⟨x, (List.of_mem_zip hx).1, (List.forall₂_iff_zip.mp h).2 hx⟩

theorem find?_of_forall₂ {q : β → Bool} (hpq : ∀ x y, R x y → p x = q y)
    (hy : ys.find? q = some y) : ∃ x, xs.find? p = some x ∧ R x y := by
  induction h with
  | nil => simp at hy
  | @cons a b _ _ hab _ ih =>
    rw [List.find?_cons] at hy ⊢
    rw [hpq a b hab]
    cases hq : q b with
    | true =>
      rw [hq] at hy
      cases hy
      exact ⟨a, rfl, hab⟩
    | false =>
      rw [hq] at hy
      exact ih hy

end

end Relational
