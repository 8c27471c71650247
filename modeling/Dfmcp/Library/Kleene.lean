import Mathlib

/-!
# Three-valued logic

Strong Kleene truth: a statement holds, fails, or is not known to do either. Conjunction and
disjunction are loops that stop at the first deciding value and otherwise remember whether
anything was unknown.

`a ≤ b` is the information order: `a` is unknown, or `a` and `b` agree. An evaluator that
combines its leaves by `not`, `all` and `any` is monotone in them, so answers at the leaves that
are only ever sharpened sharpen the whole:

* `not_mono`, `all_map_mono`, `any_map_mono` — the connectives are monotone;
* `eq_of_le` — a definite value has nothing above it but itself.
-/

namespace Kleene

inductive Truth where
  | true
  | false
  | unknown
deriving DecidableEq

namespace Truth

def ofBool (value : Bool) : Truth := if value then .true else .false

def isTrue : Truth → Bool
  | .true => Bool.true
  | _ => Bool.false

def not : Truth → Truth
  | .true => .false
  | .false => .true
  | .unknown => .unknown

/-- Conjunction: stop at the first `false`, remember an `unknown`. -/
def allFrom (result : Truth) : List Truth → Truth
  | [] => result
  | .false :: _ => .false
  | .unknown :: rest => allFrom .unknown rest
  | .true :: rest => allFrom result rest

def all (values : List Truth) : Truth := allFrom .true values

/-- Disjunction: stop at the first `true`, remember an `unknown`. -/
def anyFrom (result : Truth) : List Truth → Truth
  | [] => result
  | .true :: _ => .true
  | .unknown :: rest => anyFrom .unknown rest
  | .false :: rest => anyFrom result rest

def any (values : List Truth) : Truth := anyFrom .false values

/-! ## When the connectives are definite -/

theorem allFrom_eq_false_iff {result : Truth} (h : result ≠ .false) (values : List Truth) :
    allFrom result values = .false ↔ .false ∈ values := by
  induction values generalizing result with
  | nil => simp [allFrom, h]
  | cons value rest ih =>
      cases value with
      | true => simp [allFrom, ih h]
      | false => simp [allFrom]
      | unknown => simp [allFrom, ih (show Truth.unknown ≠ .false from nofun)]

theorem allFrom_eq_true_iff (result : Truth) (values : List Truth) :
    allFrom result values = .true ↔ result = .true ∧ ∀ value ∈ values, value = .true := by
  induction values generalizing result with
  | nil => simp [allFrom]
  | cons value rest ih => cases value <;> simp [allFrom, ih]

theorem all_eq_false_iff (values : List Truth) : all values = .false ↔ .false ∈ values :=
  allFrom_eq_false_iff (show Truth.true ≠ .false from nofun) values

theorem all_eq_true_iff (values : List Truth) :
    all values = .true ↔ ∀ value ∈ values, value = .true := by
  simp [all, allFrom_eq_true_iff]

/-- Disjunction is conjunction seen from the other side. -/
theorem anyFrom_eq (result : Truth) (values : List Truth) :
    anyFrom result values = (allFrom result.not (values.map not)).not := by
  induction values generalizing result with
  | nil => cases result <;> rfl
  | cons value rest ih => cases value <;> simp [anyFrom, allFrom, not, ih]

theorem any_eq (values : List Truth) : any values = (all (values.map not)).not :=
  anyFrom_eq .false values

/-- Two values that are definite together are one. -/
theorem eq_of_iff {a b : Truth} (htrue : a = .true ↔ b = .true)
    (hfalse : a = .false ↔ b = .false) : a = b := by
  cases a with
  | true => exact (htrue.1 rfl).symm
  | false => exact (hfalse.1 rfl).symm
  | unknown =>
      cases b with
      | true => exact htrue.2 rfl
      | false => exact hfalse.2 rfl
      | unknown => rfl

/-- A conjunction depends on nothing but which values are among its members. -/
theorem all_congr {values others : List Truth} (h : ∀ t, t ∈ values ↔ t ∈ others) :
    all values = all others := by
  apply eq_of_iff
  · rw [all_eq_true_iff, all_eq_true_iff]
    exact ⟨fun hall t ht => hall t ((h t).2 ht), fun hall t ht => hall t ((h t).1 ht)⟩
  · rw [all_eq_false_iff, all_eq_false_iff, h]

theorem any_congr {values others : List Truth} (h : ∀ t, t ∈ values ↔ t ∈ others) :
    any values = any others := by
  rw [any_eq, any_eq]
  apply congrArg not
  apply all_congr
  intro t
  simp only [List.mem_map, h]

theorem all_append (values others : List Truth) :
    all (values ++ others) = all [all values, all others] := by
  apply eq_of_iff
  · simp [all_eq_true_iff, or_imp, forall_and]
  · rw [all_eq_false_iff, all_eq_false_iff, List.mem_append, List.mem_pair, eq_comm,
      all_eq_false_iff, eq_comm, all_eq_false_iff]

theorem any_append (values others : List Truth) :
    any (values ++ others) = any [any values, any others] := by
  simp only [any_eq, List.map_append, all_append]
  generalize all (values.map not) = a
  generalize all (others.map not) = b
  cases a <;> cases b <;> rfl

/-! ## The information order -/

/-- `a` says no more than `b`. -/
instance : LE Truth := ⟨fun a b => a = .unknown ∨ a = b⟩

theorem le_of_eq {a b : Truth} (h : a = b) : a ≤ b := .inr h

theorem unknown_le (a : Truth) : .unknown ≤ a := .inl rfl

/-- A definite value has nothing above it but itself. -/
theorem eq_of_le {a b : Truth} (h : a ≤ b) (ha : a ≠ .unknown) : b = a := by
  rcases h with hunknown | heq
  · exact absurd hunknown ha
  · exact heq.symm

/-- To say no more is to agree wherever definite. -/
theorem le_of_imp {a b : Truth} (h : a ≠ .unknown → b = a) : a ≤ b := by
  by_cases ha : a = .unknown
  · exact .inl ha
  · exact .inr (h ha).symm

theorem not_mono {a b : Truth} (h : a ≤ b) : a.not ≤ b.not := by
  rcases h with hunknown | heq
  · subst hunknown
    exact unknown_le _
  · exact le_of_eq (congrArg not heq)

variable {α : Type*} {f g : α → Truth} {l : List α}

/-- Conjunction is monotone in its members. -/
theorem all_map_mono (h : ∀ x ∈ l, f x ≤ g x) : all (l.map f) ≤ all (l.map g) := by
  apply le_of_imp
  intro hdefinite
  cases hall : all (l.map f) with
  | unknown => exact absurd hall hdefinite
  | false =>
      obtain ⟨x, hx, hfx⟩ := List.mem_map.1 ((all_eq_false_iff _).1 hall)
      have hgx : g x = .false := by
        rw [← hfx]
        exact eq_of_le (h x hx) (by simp [hfx])
      exact (all_eq_false_iff _).2 (List.mem_map.2 ⟨x, hx, hgx⟩)
  | true =>
      apply (all_eq_true_iff _).2
      intro value hvalue
      obtain ⟨x, hx, rfl⟩ := List.mem_map.1 hvalue
      have hfx := (all_eq_true_iff _).1 hall (f x) (List.mem_map_of_mem hx)
      rw [← hfx]
      exact eq_of_le (h x hx) (by simp [hfx])

/-- Disjunction is monotone in its members. -/
theorem any_map_mono (h : ∀ x ∈ l, f x ≤ g x) : any (l.map f) ≤ any (l.map g) := by
  rw [any_eq, any_eq, List.map_map, List.map_map]
  apply not_mono
  apply all_map_mono
  intro x hx
  exact not_mono (h x hx)

end Truth

end Kleene
