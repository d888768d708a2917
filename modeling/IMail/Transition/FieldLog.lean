import Mathlib.Data.List.Basic
import Mathlib.Data.Set.Basic
import Mathlib.Tactic

/-!
# Last writers of fields

Rows with a key and with fields, under writers that each set some of the fields. The log
has every value that a writer set on purpose, the latest last. No update is lost if each row
has, in each field, the value of the last entry for it. A writer that sets what it logs and
leaves the other fields alone keeps this law.
-/

namespace FieldLog

variable {ρ κ φ υ : Type*} [DecidableEq κ] [DecidableEq φ]

abbrev Log (κ φ υ : Type*) := List (κ × φ × υ)

def last (log : Log κ φ υ) (k : κ) (f : φ) : Option υ :=
  (log.reverse.find? fun entry => decide (entry.1 = k ∧ entry.2.1 = f)).map fun entry => entry.2.2

theorem last_append (log new : Log κ φ υ) (k : κ) (f : φ) :
    last (log ++ new) k f = (last new k f).or (last log k f) := by
  unfold last
  rw [List.reverse_append, List.find?_append]
  cases new.reverse.find? fun entry => decide (entry.1 = k ∧ entry.2.1 = f) <;> simp

variable {log : Log κ φ υ} {k : κ} {f : φ} {v : υ} {before after : Set ρ}

theorem mem_of_last (h : last log k f = some v) : (k, f, v) ∈ log := by
  obtain ⟨⟨found, field, value⟩, hfind, rfl⟩ := Option.map_eq_some_iff.mp h
  have hsel := List.find?_some hfind
  simp only [decide_eq_true_eq] at hsel
  obtain ⟨rfl, rfl⟩ := hsel
  exact List.mem_reverse.mp (List.mem_of_find?_eq_some hfind)

theorem last_isSome (h : (k, f, v) ∈ log) : (last log k f).isSome = true := by
  rw [last, Option.isSome_map, List.find?_isSome]
  exact ⟨(k, f, v), List.mem_reverse.mpr h, by simp⟩

variable (key : ρ → κ) (get : φ → ρ → υ)

/-- The rows have the values that the last writers of their fields set. -/
def LastWriter (rows : Set ρ) (log : Log κ φ υ) : Prop :=
  ∀ r ∈ rows, ∀ f v, last log (key r) f = some v → get f r = v

/-- The function sets the given values and leaves the other fields alone. -/
structure Sets (values : List (φ × υ)) (g : ρ → ρ) : Prop where
  key_eq : ∀ r, key (g r) = key r
  value : ∀ f v, (f, v) ∈ values → ∀ r, get f (g r) = v
  rest : ∀ f, (∃ v, (f, v) ∈ values) ∨ ∀ r, get f (g r) = get f r

variable {key get}

theorem LastWriter.nil (rows : Set ρ) : LastWriter key get rows [] := by
  intro r _ f v h
  simp [last] at h

/-- What is logged is true of the rows after the step, and the other fields are as they were in
a row with the same key. -/
theorem LastWriter.append {new : Log κ φ υ} (h : LastWriter key get before log)
    (hnew : ∀ k f v, (k, f, v) ∈ new → ∀ r ∈ after, key r = k → get f r = v)
    (hrest : ∀ r ∈ after, ∀ f, (∃ v, (key r, f, v) ∈ new) ∨
      ∃ old ∈ before, key old = key r ∧ get f old = get f r) :
    LastWriter key get after (log ++ new) := by
  intro r hr f v hlast
  rw [last_append] at hlast
  cases hfound : last new (key r) f with
  | some value =>
    rw [hfound, Option.some_or] at hlast
    cases hlast
    exact hnew _ f _ (mem_of_last hfound) r hr rfl
  | none =>
    rw [hfound, Option.none_or] at hlast
    rcases hrest r hr f with ⟨value, hmem⟩ | ⟨old, hold, hkey, hget⟩
    · have hsome := last_isSome hmem
      rw [hfound] at hsome
      cases hsome
    · rw [← hget]
      exact h old hold f v (hkey ▸ hlast)

def entries (k : κ) (values : List (φ × υ)) : Log κ φ υ := values.map fun value => (k, value)

theorem LastWriter.update {values : List (φ × υ)} {g : ρ → ρ} (h : LastWriter key get before log)
    (hsets : Sets key get values g)
    (hafter : ∀ r ∈ after, (∃ old ∈ before, key old = k ∧ r = g old) ∨ (r ∈ before ∧ key r ≠ k)) :
    LastWriter key get after (log ++ entries k values) := by
  apply h.append
  · intro k' f v hentry r hr hkey
    obtain ⟨value, hvalue, heq⟩ := List.mem_map.mp hentry
    cases heq
    rcases hafter r hr with ⟨old, _, _, rfl⟩ | ⟨_, hother⟩
    · exact hsets.value f v hvalue old
    · exact absurd hkey hother
  · intro r hr f
    rcases hafter r hr with ⟨old, hold, hkey, rfl⟩ | ⟨hold, _⟩
    · rcases hsets.rest f with ⟨v, hv⟩ | hsame
      · left
        rw [hsets.key_eq, hkey]
        exact ⟨v, List.mem_map.mpr ⟨(f, v), hv, rfl⟩⟩
      · exact Or.inr ⟨old, hold, (hsets.key_eq old).symm, (hsame old).symm⟩
    · exact Or.inr ⟨r, hold, rfl, rfl⟩

end FieldLog
