import Mathlib.Data.Set.Basic

/-!
# Changes between two keyed tables

A table with a primary key is a partial function from keys to rows. The difference of two tables
has one change for each key under which they do not agree: what was there and what is there. It
takes the rows of one table to those of the other, and two differences in a row compose to the
difference from the first table to the last.
-/

namespace Relational

variable {α κ : Type*}

def Keyed (key : α → κ) (table : κ → Option α) : Prop :=
  ∀ k row, table k = some row → key row = k

def rowsOf (table : κ → Option α) : Set α := {row | ∃ k, table k = some row}

/-- The row before and after a change. -/
abbrev Change (α : Type*) := Option α × Option α

def Change.Touches (key : α → κ) (k : κ) (c : Change α) : Prop :=
  (∃ row, c.1 = some row ∧ key row = k) ∨ ∃ row, c.2 = some row ∧ key row = k

def difference (before after : κ → Option α) : Set (Change α) :=
  {c | ∃ k, c = (before k, after k) ∧ before k ≠ after k}

def patch (changes : Set (Change α)) (rows : Set α) : Set α :=
  {row | row ∈ rows ∧ ∀ c ∈ changes, c.1 ≠ some row} ∪ {row | ∃ c ∈ changes, c.2 = some row}

/-- Two lists of changes in a row as one: changes of one key are joined, and left out if nothing
is changed by both. -/
def compose (key : α → κ) (first second : Set (Change α)) : Set (Change α) :=
  {c | c.1 ≠ c.2 ∧ ∃ k,
    (∃ d ∈ first, ∃ e ∈ second, d.Touches key k ∧ e.Touches key k ∧ c = (d.1, e.2)) ∨
    (c ∈ first ∧ c.Touches key k ∧ ∀ e ∈ second, ¬e.Touches key k) ∨
    (c ∈ second ∧ c.Touches key k ∧ ∀ d ∈ first, ¬d.Touches key k)}

variable {key : α → κ} {f g h : κ → Option α}

theorem difference_touches_self {k : κ} (hf : Keyed key f) (hg : Keyed key g) (hne : f k ≠ g k) :
    Change.Touches key k (f k, g k) := by
  cases hrow : f k with
  | some row => exact Or.inl ⟨row, rfl, hf k row hrow⟩
  | none =>
    cases hrow' : g k with
    | some row => exact Or.inr ⟨row, rfl, hg k row hrow'⟩
    | none => exact absurd (hrow.trans hrow'.symm) hne

theorem eq_of_touches {c : Change α} {k : κ} (hf : Keyed key f) (hg : Keyed key g)
    (hc : c ∈ difference f g) (htouches : c.Touches key k) : c = (f k, g k) := by
  obtain ⟨k', rfl, _⟩ := hc
  rcases htouches with ⟨row, hrow, rfl⟩ | ⟨row, hrow, rfl⟩
  · rw [hf k' row hrow]
  · rw [hg k' row hrow]

theorem exists_touches_iff {k : κ} (hf : Keyed key f) (hg : Keyed key g) :
    (∃ c ∈ difference f g, c.Touches key k) ↔ f k ≠ g k := by
  constructor
  · rintro ⟨c, hc, htouches⟩
    obtain rfl := eq_of_touches hf hg hc htouches
    obtain ⟨k', heq, hne⟩ := hc
    rw [(Prod.mk.inj heq).1, (Prod.mk.inj heq).2]
    exact hne
  · intro hne
    exact ⟨_, ⟨k, rfl, hne⟩, difference_touches_self hf hg hne⟩

theorem difference_erase [DecidableEq κ] (k : κ) :
    difference f g = {c | c = (f k, g k) ∧ f k ≠ g k} ∪
      difference (Function.update f k none) (Function.update g k none) := by
  ext c
  constructor
  · rintro ⟨k', rfl, hne⟩
    by_cases hk : k' = k
    · subst hk
      exact Or.inl ⟨rfl, hne⟩
    · refine Or.inr ⟨k', ?_, ?_⟩ <;>
        rw [Function.update_of_ne hk, Function.update_of_ne hk]
      exact hne
  · rintro (⟨rfl, hne⟩ | ⟨k', rfl, hne⟩)
    · exact ⟨k, rfl, hne⟩
    · by_cases hk : k' = k
      · subst hk
        simp at hne
      · rw [Function.update_of_ne hk, Function.update_of_ne hk] at hne ⊢
        exact ⟨k', rfl, hne⟩

theorem patch_difference (hf : Keyed key f) (hg : Keyed key g) :
    patch (difference f g) (rowsOf f) = rowsOf g := by
  ext row
  constructor
  · rintro (⟨⟨k, hrow⟩, hkept⟩ | ⟨_, ⟨k, rfl, _⟩, hrow⟩)
    · by_cases hsame : f k = g k
      · exact ⟨k, hsame ▸ hrow⟩
      · exact absurd hrow (hkept _ ⟨k, rfl, hsame⟩)
    · exact ⟨k, hrow⟩
  · rintro ⟨k, hrow⟩
    by_cases hsame : f k = g k
    · refine Or.inl ⟨⟨k, hsame.trans hrow⟩, ?_⟩
      rintro _ ⟨k', rfl, hne⟩ hbefore
      obtain rfl : k' = k := (hf k' row hbefore).symm.trans (hg k row hrow)
      exact hne hsame
    · exact Or.inr ⟨_, ⟨k, rfl, hsame⟩, hrow⟩

theorem compose_difference (hf : Keyed key f) (hg : Keyed key g) (hh : Keyed key h) :
    compose key (difference f g) (difference g h) = difference f h := by
  ext c
  constructor
  · rintro ⟨hne, k, ⟨d, hd, e, he, hdk, hek, rfl⟩ | ⟨hc, hck, hother⟩ | ⟨hc, hck, hother⟩⟩
    · obtain rfl := eq_of_touches hf hg hd hdk
      obtain rfl := eq_of_touches hg hh he hek
      exact ⟨k, rfl, hne⟩
    · -- the second table change leaves the key alone
      obtain rfl := eq_of_touches hf hg hc hck
      have hsame : g k = h k := by
        by_contra hdiffer
        obtain ⟨e, he, hek⟩ := (exists_touches_iff hg hh).mpr hdiffer
        exact hother e he hek
      exact ⟨k, by rw [hsame], hsame ▸ hne⟩
    · obtain rfl := eq_of_touches hg hh hc hck
      have hsame : f k = g k := by
        by_contra hdiffer
        obtain ⟨d, hd, hdk⟩ := (exists_touches_iff hf hg).mpr hdiffer
        exact hother d hd hdk
      exact ⟨k, by rw [hsame], hsame ▸ hne⟩
  · rintro ⟨k, rfl, hne⟩
    refine ⟨hne, k, ?_⟩
    by_cases hfirst : f k = g k
    · have hsecond : g k ≠ h k := fun hsame => hne (hfirst.trans hsame)
      refine Or.inr (Or.inr ⟨⟨k, by rw [hfirst], hsecond⟩, ?_, ?_⟩)
      · exact difference_touches_self hf hh hne
      · intro d hd hdk
        exact (exists_touches_iff hf hg).mp ⟨d, hd, hdk⟩ hfirst
    · by_cases hsecond : g k = h k
      · refine Or.inr (Or.inl ⟨⟨k, by rw [hsecond], hfirst⟩, ?_, ?_⟩)
        · exact difference_touches_self hf hh hne
        · intro e he hek
          exact (exists_touches_iff hg hh).mp ⟨e, he, hek⟩ hsecond
      · exact Or.inl ⟨_, ⟨k, rfl, hfirst⟩, _, ⟨k, rfl, hsecond⟩,
          difference_touches_self hf hg hfirst, difference_touches_self hg hh hsecond, rfl⟩

end Relational
