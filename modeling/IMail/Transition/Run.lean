import Mathlib.Data.List.Basic
import Mathlib.Tactic

/-!
# Runs of labelled transition functions

A system is a total step function on states and labels; an operation that fails is a
step that leaves the state as it was. A run is the list of its labels. `Along` says
that every step of a run is taken in a state that permits it, `Sometime` that one of
them is, and the two induction rules turn step lemmas into run lemmas.
-/

namespace Transition

variable {σ ι : Type*} (step : σ → ι → σ)

def exec : σ → List ι → σ
  | s, [] => s
  | s, i :: is => exec (step s i) is

/-- `P` holds of every step of the run, in the state the step is taken from. -/
def Along (P : σ → ι → Prop) : σ → List ι → Prop
  | _, [] => True
  | s, i :: is => P s i ∧ Along P (step s i) is

instance decidableAlong (P : σ → ι → Prop) [∀ s i, Decidable (P s i)] :
    (s : σ) → (is : List ι) → Decidable (Along step P s is)
  | _, [] => isTrue trivial
  | s, i :: is =>
    have := decidableAlong P (step s i) is
    inferInstanceAs (Decidable (P s i ∧ Along step P (step s i) is))

/-- `P` holds of some step of the run, in the state the step is taken from. -/
def Sometime (P : σ → ι → Prop) : σ → List ι → Prop
  | _, [] => False
  | s, i :: is => P s i ∨ Sometime P (step s i) is

@[simp] theorem exec_nil (s : σ) : exec step s [] = s := rfl

@[simp] theorem exec_cons (s : σ) (i : ι) (is : List ι) :
    exec step s (i :: is) = exec step (step s i) is := rfl

theorem exec_append (s : σ) (is js : List ι) :
    exec step s (is ++ js) = exec step (exec step s is) js := by
  induction is generalizing s with
  | nil => rfl
  | cons i is ih => exact ih (step s i)

section

variable (P : σ → ι → Prop) (s : σ)

@[simp] theorem along_nil : Along step P s [] := trivial

@[simp] theorem along_cons (i : ι) (is : List ι) :
    Along step P s (i :: is) ↔ P s i ∧ Along step P (step s i) is := Iff.rfl

@[simp] theorem sometime_nil : ¬ Sometime step P s [] := id

@[simp] theorem sometime_cons (i : ι) (is : List ι) :
    Sometime step P s (i :: is) ↔ P s i ∨ Sometime step P (step s i) is := Iff.rfl

theorem along_append (is js : List ι) :
    Along step P s (is ++ js) ↔ Along step P s is ∧ Along step P (exec step s is) js := by
  induction is generalizing s with
  | nil => simp
  | cons i is ih => simp [ih, and_assoc]

theorem sometime_append (is js : List ι) :
    Sometime step P s (is ++ js) ↔ Sometime step P s is ∨ Sometime step P (exec step s is) js := by
  induction is generalizing s with
  | nil => simp
  | cons i is ih => simp [ih, or_assoc]

end

variable {step}

variable {P Q : σ → ι → Prop} {s : σ} {is : List ι}

theorem invariant_along (Inv : σ → Prop) (hstep : ∀ s i, Inv s → P s i → Inv (step s i))
    (hs : Inv s) (hP : Along step P s is) : Inv (exec step s is) := by
  induction is generalizing s with
  | nil => exact hs
  | cons i is ih => exact ih (hstep s i hs hP.1) hP.2

theorem invariant_exec (Inv : σ → Prop) (hstep : ∀ s i, Inv s → Inv (step s i)) (is : List ι)
    (hs : Inv s) : Inv (exec step s is) := by
  induction is generalizing s with
  | nil => exact hs
  | cons i is ih => exact ih (hstep s i hs)

theorem along_of_invariant (Inv : σ → Prop) (hstep : ∀ s i, Inv s → P s i → Inv (step s i))
    (hQ : ∀ s i, Inv s → P s i → Q s i) (hs : Inv s) (hP : Along step P s is) :
    Along step Q s is := by
  induction is generalizing s with
  | nil => trivial
  | cons i is ih => exact ⟨hQ s i hs hP.1, ih (hstep s i hs hP.1) hP.2⟩

theorem Sometime.split (h : Sometime step P s is) :
    ∃ before i after, is = before ++ i :: after ∧ P (exec step s before) i := by
  induction is generalizing s with
  | nil => exact h.elim
  | cons i is ih =>
    rcases h with h | h
    · exact ⟨[], i, is, rfl, h⟩
    · obtain ⟨before, j, after, rfl, hj⟩ := ih h
      exact ⟨i :: before, j, after, rfl, hj⟩

theorem Along.and (hP : Along step P s is) (hQ : Along step Q s is) :
    Along step (fun s i => P s i ∧ Q s i) s is := by
  induction is generalizing s with
  | nil => trivial
  | cons i is ih => exact ⟨⟨hP.1, hQ.1⟩, ih hP.2 hQ.2⟩

theorem along_of_forall {P : ι → Prop} (h : ∀ i ∈ is, P i) (s : σ) :
    Along step (fun _ i => P i) s is := by
  induction is generalizing s with
  | nil => trivial
  | cons i is ih =>
    exact ⟨h i List.mem_cons_self, ih (fun j hj => h j (List.mem_cons_of_mem _ hj)) _⟩

section Expand

variable (step) (split : σ → ι → List ι)

def expand : σ → List ι → List ι
  | _, [] => []
  | s, i :: is => split s i ++ expand (step s i) is

theorem forall_mem_expand {P : ι → Prop} (hP : ∀ s i, ∀ j ∈ split s i, P j) (s : σ)
    (is : List ι) : ∀ j ∈ expand step split s is, P j := by
  induction is generalizing s with
  | nil => simp [expand]
  | cons i is ih =>
    intro j hj
    rcases List.mem_append.mp hj with hj | hj
    · exact hP s i j hj
    · exact ih _ j hj

variable {step split} (hsplit : ∀ s i, exec step s (split s i) = step s i)
include hsplit

theorem exec_expand (s : σ) (is : List ι) :
    exec step s (expand step split s is) = exec step s is := by
  induction is generalizing s with
  | nil => rfl
  | cons i is ih => rw [expand, exec_append, hsplit, ih, exec_cons]

theorem invariant_split (Inv : σ → Prop) {P : ι → Prop}
    (hP : ∀ s i, ∀ j ∈ split s i, P j) (hstep : ∀ s i, P i → Inv s → Inv (step s i))
    (s : σ) (i : ι) (hs : Inv s) : Inv (step s i) := by
  rw [← hsplit]
  exact invariant_along Inv (fun s i hs hi => hstep s i hi hs) hs (along_of_forall (hP s i) s)

end Expand

end Transition
