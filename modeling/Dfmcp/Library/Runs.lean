import Mathlib

/-!
# Runs of a transition system

A transition system is a relation between a state, a label and a next state. `Run Step s is t`
says that the labels `is`, taken in order, lead from `s` to `t`.

* `Run.preserves` — what every step keeps, every run keeps;
* `Run.preserves_of_mem` — the same, when only the steps of this run keep it;
* `Run.preserves_fold` — the same, of a state and a record of the labels;
* `Run.preserves_history` — the same, of a state and the labels that led to it;
* `Run.exists_step` — what a run brings about, one of its steps brings about.
-/

namespace Runs

universe u v w

variable {σ : Type u} {ι : Type v}

/-- The labels lead from the first state to the last. -/
inductive Run (Step : σ → ι → σ → Prop) : σ → List ι → σ → Prop
  | nil (s : σ) : Run Step s [] s
  | cons {s t u : σ} {i : ι} {is : List ι} (head : Step s i t) (tail : Run Step t is u) :
      Run Step s (i :: is) u

namespace Run

variable {Step : σ → ι → σ → Prop} {s t u : σ} {is js : List ι}

theorem append (h : Run Step s is t) (h' : Run Step t js u) : Run Step s (is ++ js) u := by
  induction h with
  | nil s => exact h'
  | cons head tail ih => exact .cons head (ih h')

/-- A run of one system is a run of any that allows its steps. -/
theorem mono {Step' : σ → ι → σ → Prop} (h : Run Step s is t)
    (hstep : ∀ a i b, Step a i b → Step' a i b) : Run Step' s is t := by
  induction h with
  | nil s => exact .nil s
  | cons head tail ih => exact .cons (hstep _ _ _ head) ih

/-- A run over a first and a second list of labels stops in between. -/
theorem of_append (h : Run Step s (is ++ js) u) : ∃ t, Run Step s is t ∧ Run Step t js u := by
  induction is generalizing s with
  | nil => exact ⟨s, .nil s, h⟩
  | cons i is ih =>
      cases h with
      | cons head tail =>
          obtain ⟨t, hfirst, hsecond⟩ := ih tail
          exact ⟨t, .cons head hfirst, hsecond⟩

/-- What each step of the run keeps, the run keeps. -/
theorem preserves_of_mem {P : σ → Prop} (h : Run Step s is t)
    (hstep : ∀ a i b, i ∈ is → P a → Step a i b → P b) (hs : P s) : P t := by
  induction h with
  | nil s => exact hs
  | cons head tail ih =>
      exact ih (fun a j b hj => hstep a j b (List.mem_cons_of_mem _ hj))
        (hstep _ _ _ List.mem_cons_self hs head)

/-- **Invariants of steps are invariants of runs.** -/
theorem preserves {P : σ → Prop} (h : Run Step s is t)
    (hstep : ∀ a i b, P a → Step a i b → P b) (hs : P s) : P t :=
  h.preserves_of_mem (fun a i b _ => hstep a i b) hs

/-- What every step keeps of a state and a record of the labels so far, every run keeps. -/
theorem preserves_fold {γ : Type w} {f : γ → ι → γ} {P : γ → σ → Prop} {c : γ}
    (h : Run Step s is t) (hstep : ∀ c a i b, P c a → Step a i b → P (f c i) b) (hs : P c s) :
    P (is.foldl f c) t := by
  induction h generalizing c with
  | nil s => exact hs
  | cons head tail ih => exact ih (hstep _ _ _ _ hs head)

/-- What every step keeps of a state and the labels that led to it, every run keeps. -/
theorem preserves_history {P : List ι → σ → Prop} {before : List ι} (h : Run Step s is t)
    (hstep : ∀ before a i b, P before a → Step a i b → P (before ++ [i]) b) (hs : P before s) :
    P (before ++ is) t := by
  induction h generalizing before with
  | nil s => rwa [List.append_nil]
  | cons head tail ih =>
      have := ih (hstep _ _ _ _ hs head)
      rwa [List.append_assoc] at this

/-- **What a run brings about, one of its steps brings about**, and the rest of the run starts
from there. -/
theorem exists_step {P : σ → Prop} (h : Run Step s is t) (hs : ¬ P s) (ht : P t) :
    ∃ before i after a b, is = before ++ i :: after ∧ Run Step s before a ∧ ¬ P a ∧ Step a i b ∧
      P b ∧ Run Step b after t := by
  induction h with
  | nil s => exact absurd ht hs
  | @cons s m t i is head tail ih =>
      by_cases hm : P m
      · exact ⟨[], i, is, s, m, rfl, .nil s, hs, head, hm, tail⟩
      · obtain ⟨before, j, after, a, b, rfl, hbefore, ha, hstep, hb, hafter⟩ := ih hm ht
        exact ⟨i :: before, j, after, a, b, rfl, .cons head hbefore, ha, hstep, hb, hafter⟩

end Run

end Runs
