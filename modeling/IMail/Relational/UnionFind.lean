import Mathlib.Data.Fintype.Card
import Mathlib.Logic.Function.Basic
import Mathlib.Logic.Relation

/-!
# Union-find

A forest given by the parents of its nodes, where a root is its own parent. Looking up a root halves
the path to it, and two trees are joined by a link from one root to the other. What the operations
keep is which nodes have one root.
-/

namespace UnionFind

variable {n : ℕ}

/-- From a node it takes so many steps to a root. -/
inductive Climbs (p : Fin n → Fin n) : ℕ → Fin n → Fin n → Prop
  | root {i : Fin n} (h : p i = i) : Climbs p 0 i i
  | step {k : ℕ} {i r : Fin n} (h : p i ≠ i) (climb : Climbs p k (p i) r) : Climbs p (k + 1) i r

namespace Climbs

variable {p : Fin n → Fin n} {k k' : ℕ} {i j r r' : Fin n}

theorem unique (h : Climbs p k i r) (h' : Climbs p k' i r') : k = k' ∧ r = r' := by
  induction h generalizing k' with
  | root hroot =>
    cases h' with
    | root => exact ⟨rfl, rfl⟩
    | step hne => exact absurd hroot hne
  | step hne _ ih =>
    cases h' with
    | root hroot => exact absurd hroot hne
    | step _ climb =>
      obtain ⟨rfl, rfl⟩ := ih climb
      exact ⟨rfl, rfl⟩

theorem isRoot (h : Climbs p k i r) : p r = r := by
  induction h with
  | root hroot => exact hroot
  | step _ _ ih => exact ih

theorem grandparent (h : Climbs p (k + 1) i r) : ∃ k' ≤ k, Climbs p k' (p (p i)) r := by
  cases h with
  | step _ climb =>
    cases climb with
    | root hroot => exact ⟨0, le_rfl, by rw [hroot]; exact .root hroot⟩
    | step _ climb => exact ⟨_, Nat.le_succ _, climb⟩

theorem lt_card (h : Climbs p k i r) : k < n := by
  have hpath : ∃ path : List (Fin n), path.length = k + 1 ∧ path.Nodup ∧
      ∀ x ∈ path, ∃ d ≤ k, Climbs p d x r := by
    induction h with
    | root hroot => exact ⟨[_], rfl, List.nodup_singleton _, fun x hx =>
        ⟨0, le_rfl, by rw [List.mem_singleton.mp hx]; exact .root hroot⟩⟩
    | @step k i r hne climb ih =>
      obtain ⟨path, hlength, hnodup, hdistance⟩ := ih
      refine ⟨i :: path, by rw [List.length_cons, hlength], List.nodup_cons.mpr ⟨?_, hnodup⟩, ?_⟩
      · intro hi
        obtain ⟨d, hd, hclimb⟩ := hdistance i hi
        have := (hclimb.unique (.step hne climb)).1
        omega
      · intro x hx
        rcases List.mem_cons.mp hx with rfl | hx
        · exact ⟨k + 1, le_rfl, .step hne climb⟩
        · obtain ⟨d, hd, hclimb⟩ := hdistance x hx
          exact ⟨d, hd.trans (Nat.le_succ k), hclimb⟩
  obtain ⟨path, hlength, hnodup, _⟩ := hpath
  have hcard := hnodup.length_le_card
  rw [Fintype.card_fin, hlength] at hcard
  exact hcard

theorem halve (i : Fin n) (h : Climbs p k j r) :
    ∃ k' ≤ k, Climbs (Function.update p i (p (p i))) k' j r := by
  induction h with
  | @root j hroot =>
    refine ⟨0, le_rfl, .root ?_⟩
    by_cases hij : j = i
    · rw [← hij, Function.update_self, hroot, hroot]
    · rw [Function.update_of_ne hij, hroot]
  | @step k j r hne climb ih =>
    obtain ⟨k', hk, hclimb⟩ := ih
    by_cases hij : j = i
    · subst hij
      have hparent : Function.update p j (p (p j)) (p j) = p (p j) := Function.update_of_ne hne _ _
      have hself : Function.update p j (p (p j)) j = p (p j) := Function.update_self ..
      have hback : p (p j) ≠ j := by
        intro hback
        obtain ⟨d, hd, hgrand⟩ := (step hne climb).grandparent
        rw [hback] at hgrand
        have := (hgrand.unique (.step hne climb)).1
        omega
      cases hclimb with
      | root hroot =>
        rw [hparent] at hroot
        refine ⟨1, by omega, .step (by rw [hself]; exact hback) ?_⟩
        rw [hself.trans hroot]
        exact .root (hparent.trans hroot)
      | @step d _ _ _ hclimb =>
        rw [hparent] at hclimb
        refine ⟨d + 1, by omega, .step (by rw [hself]; exact hback) ?_⟩
        rw [hself]
        exact hclimb
    · refine ⟨k' + 1, by omega, .step ?_ ?_⟩
      · rwa [Function.update_of_ne hij]
      · rwa [Function.update_of_ne hij]

theorem link {a b : Fin n} (ha : p a = a) (hb : p b = b) (hne : a ≠ b) (h : Climbs p k j r) :
    ∃ k', Climbs (Function.update p a b) k' j (if r = a then b else r) := by
  have hbroot : Function.update p a b b = b := by rw [Function.update_of_ne hne.symm, hb]
  induction h with
  | @root j hroot =>
    by_cases hj : j = a
    · rw [if_pos hj, hj]
      have hself : Function.update p a b a = b := Function.update_self ..
      exact ⟨1, .step (by rw [hself]; exact hne.symm) (by rw [hself]; exact .root hbroot)⟩
    · rw [if_neg hj]
      exact ⟨0, .root (by rw [Function.update_of_ne hj, hroot])⟩
  | @step k j r hstep climb ih =>
    obtain ⟨k', hclimb⟩ := ih
    have hj : j ≠ a := fun h => hstep (h ▸ ha)
    refine ⟨k' + 1, .step ?_ ?_⟩
    · rwa [Function.update_of_ne hj]
    · rwa [Function.update_of_ne hj]

end Climbs

/-- Parents such that every node has a root. -/
structure Forest (n : ℕ) where
  parent : Fin n → Fin n
  rooted : ∀ i, ∃ r k, Climbs parent k i r

namespace Forest

def singletons (n : ℕ) : Forest n := ⟨id, fun i => ⟨i, 0, .root rfl⟩⟩

def halve (f : Forest n) (i : Fin n) : Forest n where
  parent := Function.update f.parent i (f.parent (f.parent i))
  rooted := by
    intro j
    obtain ⟨r, k, h⟩ := f.rooted j
    obtain ⟨k', _, h'⟩ := h.halve i
    exact ⟨r, k', h'⟩

def climb : ℕ → Forest n → Fin n → Fin n × Forest n
  | 0, f, i => (i, f)
  | fuel + 1, f, i =>
    if f.parent i = i then (i, f) else climb fuel (f.halve i) ((f.halve i).parent i)

def root (f : Forest n) (i : Fin n) : Fin n × Forest n := climb n f i

/-- `r` is the root of `i`. -/
def RootOf (f : Forest n) (i r : Fin n) : Prop := ∃ k, Climbs f.parent k i r

variable {f : Forest n} {i j r r' : Fin n}

theorem RootOf.unique (h : f.RootOf i r) (h' : f.RootOf i r') : r = r' := by
  obtain ⟨_, h⟩ := h
  obtain ⟨_, h'⟩ := h'
  exact (h.unique h').2

theorem climb_spec {fuel k : ℕ} (h : Climbs f.parent k i r) (hfuel : k ≤ fuel) :
    (climb fuel f i).1 = r ∧ ∀ j s, f.RootOf j s → (climb fuel f i).2.RootOf j s := by
  induction fuel generalizing f i k with
  | zero =>
    obtain rfl : k = 0 := by omega
    cases h with
    | root hroot => exact ⟨rfl, fun _ _ hs => hs⟩
  | succ fuel ih =>
    rw [climb]
    cases h with
    | root hroot =>
      rw [if_pos hroot]
      exact ⟨rfl, fun _ _ hs => hs⟩
    | @step k _ _ hne hclimb =>
      rw [if_neg hne]
      have hself : (f.halve i).parent i = f.parent (f.parent i) := Function.update_self ..
      obtain ⟨d, hd, hgrand⟩ := (Climbs.step hne hclimb).grandparent
      obtain ⟨d', hd', hhalved⟩ := hgrand.halve i
      have hnext : Climbs (f.halve i).parent d' ((f.halve i).parent i) r := by
        rw [hself]
        exact hhalved
      obtain ⟨hroot, hkeep⟩ := ih hnext (by omega)
      refine ⟨hroot, fun j s hs => hkeep j s ?_⟩
      obtain ⟨e, hs⟩ := hs
      obtain ⟨e', _, hs⟩ := hs.halve i
      exact ⟨e', hs⟩

theorem root_spec (f : Forest n) (i : Fin n) :
    f.RootOf i (f.root i).1 ∧ ∀ j s, (f.root i).2.RootOf j s ↔ f.RootOf j s := by
  obtain ⟨r, k, h⟩ := f.rooted i
  obtain ⟨hroot, hkeep⟩ := climb_spec h h.lt_card.le
  refine ⟨hroot ▸ ⟨k, h⟩, fun j s => ⟨fun hs => ?_, hkeep j s⟩⟩
  obtain ⟨s', k', hs'⟩ := f.rooted j
  rw [hs.unique (hkeep j s' ⟨k', hs'⟩)]
  exact ⟨k', hs'⟩

def rep (f : Forest n) (i : Fin n) : Fin n := (f.root i).1

theorem rootOf_iff : f.RootOf i r ↔ f.rep i = r := by
  constructor
  · exact fun h => (f.root_spec i).1.unique h
  · rintro rfl
    exact (f.root_spec i).1

@[simp] theorem rep_root (f : Forest n) (i j : Fin n) : (f.root i).2.rep j = f.rep j := by
  rw [← rootOf_iff, (f.root_spec i).2, rootOf_iff]

theorem parent_rep (f : Forest n) (i : Fin n) : f.parent (f.rep i) = f.rep i := by
  obtain ⟨_, h⟩ := rootOf_iff.mpr (rfl : f.rep i = f.rep i)
  exact h.isRoot

def link (f : Forest n) (a b : Fin n) (ha : f.parent a = a) (hb : f.parent b = b) (hne : a ≠ b) :
    Forest n where
  parent := Function.update f.parent a b
  rooted := by
    intro i
    obtain ⟨r, k, h⟩ := f.rooted i
    exact ⟨_, h.link ha hb hne⟩

theorem rep_link (f : Forest n) (a b : Fin n) (ha : f.parent a = a) (hb : f.parent b = b)
    (hne : a ≠ b) (i : Fin n) :
    (f.link a b ha hb hne).rep i = if f.rep i = a then b else f.rep i := by
  obtain ⟨k, h⟩ := rootOf_iff.mpr (rfl : f.rep i = f.rep i)
  exact rootOf_iff.mp (h.link ha hb hne)

def union (f : Forest n) (i j : Fin n) : Forest n :=
  let f₁ := (f.root i).2
  let f₂ := (f₁.root j).2
  if h : f.rep i = f₁.rep j then f₂
  else f₂.link (f.rep i) (f₁.rep j)
    (by rw [← rep_root f i i, ← rep_root f₁ j i]; exact f₂.parent_rep i)
    (by rw [← rep_root f₁ j j]; exact f₂.parent_rep j) h

theorem rep_union (f : Forest n) (i j x : Fin n) :
    (f.union i j).rep x = if f.rep x = f.rep i then f.rep j else f.rep x := by
  by_cases h : f.rep i = (f.root i).2.rep j
  · rw [union, dif_pos h, rep_root, rep_root]
    rw [rep_root] at h
    split_ifs with hx
    · rw [hx, h]
    · rfl
  · rw [union, dif_neg h]
    simp only [rep_link, rep_root]

def Represents (f : Forest n) (R : Fin n → Fin n → Prop) : Prop :=
  ∀ i j, f.rep i = f.rep j ↔ Relation.EqvGen R i j

theorem represents_singletons : (singletons n).Represents fun _ _ => False := by
  have hrep (i : Fin n) : (singletons n).rep i = i := rootOf_iff.mp ⟨0, .root rfl⟩
  intro i j
  rw [hrep, hrep]
  constructor
  · rintro rfl
    exact .refl i
  · intro h
    induction h with
    | rel _ _ h => cases h
    | refl => rfl
    | symm _ _ _ ih => exact ih.symm
    | trans _ _ _ _ _ ih ih' => exact ih.trans ih'

theorem Represents.congr {R R' : Fin n → Fin n → Prop} (h : f.Represents R)
    (hle : ∀ i j, R i j → Relation.EqvGen R' i j) (hge : ∀ i j, R' i j → Relation.EqvGen R i j) :
    f.Represents R' := by
  have hlift {R R' : Fin n → Fin n → Prop} (hle : ∀ i j, R i j → Relation.EqvGen R' i j)
      {i j : Fin n} (h : Relation.EqvGen R i j) : Relation.EqvGen R' i j := by
    induction h with
    | rel i j h => exact hle i j h
    | refl i => exact .refl i
    | symm _ _ _ ih => exact .symm _ _ ih
    | trans _ _ _ _ _ ih ih' => exact .trans _ _ _ ih ih'
  exact fun i j => (h i j).trans ⟨hlift hle, hlift hge⟩

theorem Represents.union {R : Fin n → Fin n → Prop} (h : f.Represents R) (x y : Fin n) :
    (f.union x y).Represents fun i j => R i j ∨ (i = x ∧ j = y) := by
  have hold {i j : Fin n} (hij : f.rep i = f.rep j) :
      Relation.EqvGen (fun i j => R i j ∨ (i = x ∧ j = y)) i j :=
    Relation.EqvGen.mono (fun _ _ => Or.inl) _ _ ((h i j).mp hij)
  have hnew : Relation.EqvGen (fun i j => R i j ∨ (i = x ∧ j = y)) x y :=
    .rel _ _ (Or.inr ⟨rfl, rfl⟩)
  intro i j
  constructor
  · rw [rep_union, rep_union]
    split_ifs with hi hj hj
    · exact fun _ => hold (hi.trans hj.symm)
    · exact fun hy => (hold hi).trans _ _ _ (hnew.trans _ _ _ (hold hy))
    · exact fun hy => (hold hy).trans _ _ _ ((hnew.symm _ _).trans _ _ _ ((hold hj).symm _ _))
    · exact hold
  · intro hij
    induction hij with
    | rel i j hij =>
      rcases hij with hij | ⟨rfl, rfl⟩
      · rw [rep_union, rep_union, (h i j).mpr (.rel _ _ hij)]
      · rw [rep_union, rep_union, if_pos rfl]
        split_ifs with hj
        · rfl
        · rfl
    | refl => rfl
    | symm _ _ _ ih => exact ih.symm
    | trans _ _ _ _ _ ih ih' => exact ih.trans ih'

end Forest

end UnionFind
