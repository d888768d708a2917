import Mathlib.Data.List.Nodup
import Mathlib.Tactic

/-!
# Files

A directory tree as a list of files, each under a path of its own. A write replaces what is under
its path, a rename takes a file to another path in one step with its time of modification.
-/

namespace Files

/-- A file with its data and its time of modification. -/
structure File (P D : Type*) where
  path : P
  data : D
  modified : ℤ

variable {P D : Type*} [DecidableEq P]

def remove (p : P) (d : List (File P D)) : List (File P D) := d.filter fun f => f.path ≠ p

def put (f : File P D) (d : List (File P D)) : List (File P D) := remove f.path d ++ [f]

def lookup (p : P) (d : List (File P D)) : Option (File P D) := d.find? fun f => f.path = p

/-- `fs::rename`, which does nothing if the source is not there. -/
def rename (p q : P) (d : List (File P D)) : List (File P D) :=
  match lookup p d with
  | none => d
  | some f => put { f with path := q } (remove p d)

inductive Op (P D : Type*)
  | write (f : File P D)
  | rename (p q : P)
  | remove (p : P)

def step (d : List (File P D)) : Op P D → List (File P D)
  | .write f => put f d
  | .rename p q => rename p q d
  | .remove p => remove p d

def exec (d : List (File P D)) (ops : List (Op P D)) : List (File P D) := ops.foldl step d

def Distinct (d : List (File P D)) : Prop := (d.map (·.path)).Nodup

variable {p q : P} {d : List (File P D)} {f : File P D}

theorem mem_remove :
    f ∈ remove p d ↔ f ∈ d ∧ f.path ≠ p := by
  simp [remove]

theorem mem_put {g : File P D} : g ∈ put f d ↔ g ∈ remove f.path d ∨ g = f := by
  simp [put]

theorem mem_of_lookup (h : lookup p d = some f) : f ∈ d ∧ f.path = p :=
  ⟨List.mem_of_find?_eq_some h, by simpa using List.find?_some h⟩

theorem lookup_remove_of_ne (h : p ≠ q) (d : List (File P D)) :
    lookup q (remove p d) = lookup q d := by
  induction d with
  | nil => rfl
  | cons f d ih =>
    by_cases hp : f.path = p
    · have hq : f.path ≠ q := hp ▸ h
      simpa [remove, lookup, hp, hq, h] using ih
    · by_cases hq : f.path = q
      · simp [remove, lookup, hq, h.symm]
      · simpa [remove, lookup, hp, hq] using ih

theorem lookup_put_self (h : f.path = q) (d : List (File P D)) : lookup q (put f d) = some f := by
  subst h
  have hnone : (remove f.path d).find? (fun g => decide (g.path = f.path)) = none :=
    List.find?_eq_none.mpr fun g hg => by simpa using (mem_remove.mp hg).2
  simp [lookup, put, List.find?_append, hnone]

theorem lookup_put_of_ne (h : f.path ≠ q) (d : List (File P D)) :
    lookup q (put f d) = lookup q d := by
  rw [← lookup_remove_of_ne h d]
  simp [lookup, put, List.find?_append, h]

theorem Distinct.remove (h : Distinct d) (p : P) : Distinct (remove p d) :=
  List.Nodup.sublist (List.Sublist.map _ List.filter_sublist) h

theorem Distinct.put (h : Distinct d) (f : File P D) : Distinct (put f d) := by
  rw [Distinct, Files.put, List.map_append, List.nodup_append']
  refine ⟨h.remove f.path, by simp, ?_⟩
  simp only [List.map_cons, List.map_nil, List.disjoint_singleton, List.mem_map, not_exists,
    not_and]
  exact fun g hg => (mem_remove.mp hg).2

theorem Distinct.step (h : Distinct d) (op : Op P D) : Distinct (step d op) := by
  cases op with
  | write f => exact h.put f
  | remove p => exact h.remove p
  | rename p q =>
    simp only [Files.step, Files.rename]
    cases lookup p d with
    | none => exact h
    | some f => exact (h.remove p).put _

theorem Distinct.exec (h : Distinct d) (ops : List (Op P D)) : Distinct (exec d ops) := by
  induction ops generalizing d with
  | nil => exact h
  | cons op ops ih => exact ih (h.step op)

end Files
