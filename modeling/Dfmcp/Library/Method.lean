import Mathlib

/-!
# Methods of a stateful object

A method returns an outcome and the state it leaves behind, failed or not. `Meets P x Q E` says that
from any state where `P` holds the method ends with its result and state in `Q`, or fails with an
error and state in `E`. The failure condition is the same along a method, so a method that checks
and then acts is followed step by step (`Meets.bind`), and every early return is one use of `E`.

* `Meets.bind`, `Meets.pure`, `Meets.fails` — the rules of sequencing;
* `Meets.of`, `Meets.get`, `Meets.set` — results and state;
* `Meets.zoom` — a method of a part of the state;
* `Gives` — the same for results and errors alone, whatever the state, with its rules.
-/

/-- A method of an object whose state is `σ`. -/
abbrev Method (ε σ : Type) := ExceptT ε (StateM σ)

namespace Method

variable {ε σ α β : Type}

/-- Run a method. -/
def exec (x : Method ε σ α) (s : σ) : Except ε α × σ := (ExceptT.run x).run s

/-- A result that does not touch the state. -/
def of (result : Except ε α) : Method ε σ α := ExceptT.mk (pure result)

/-- Every failure of a method is reported as the given one. -/
def mapError (e : ε) (x : Method ε σ α) : Method ε σ α := fun s =>
  match exec x s with
  | (.ok a, t) => (.ok a, t)
  | (.error _, t) => (.error e, t)

/-- A method of a part of the state. -/
def zoom {τ : Type} (part : σ → τ) (put : τ → σ → σ) (x : Method ε τ α) : Method ε σ α := fun s =>
  match exec x (part s) with
  | (result, t) => (result, put t s)

/-- Stop with an error when a check fails. -/
def rejectIf {σ : Type} (bad : Prop) [Decidable bad] (e : ε) : Method ε σ PUnit :=
  if bad then throw e else pure ⟨⟩

/-- Do something under a condition. -/
def whenever {σ : Type} (c : Prop) [Decidable c] (x : Method ε σ PUnit) : Method ε σ PUnit :=
  if c then x else pure ⟨⟩

theorem exec_bind (x : Method ε σ α) (f : α → Method ε σ β) (s : σ) :
    exec (x >>= f) s = match exec x s with
      | (.ok a, t) => exec (f a) t
      | (.error e, t) => (.error e, t) := by
  cases hout : exec x s with
  | mk result t =>
      cases result with
      | ok a =>
          simp only [exec, ExceptT.run_bind, StateT.run_bind] at hout ⊢
          simp [hout, bind]
      | error e =>
          simp only [exec, ExceptT.run_bind, StateT.run_bind] at hout ⊢
          simp only [bind, hout]
          rfl

/-- Wherever `P` holds, the method ends in `Q` or fails in `E`. -/
def Meets (P : σ → Prop) (x : Method ε σ α) (Q : α → σ → Prop) (E : ε → σ → Prop) : Prop :=
  ∀ s, P s → match exec x s with
    | (.ok a, t) => Q a t
    | (.error e, t) => E e t

section Rules

variable {P P' : σ → Prop} {E : ε → σ → Prop} {Q Q' : α → σ → Prop} {R : β → σ → Prop}
  {x y : Method ε σ α} {f : α → Method ε σ β} {s t : σ}

theorem Meets.ok {a : α} (h : Meets P x Q E) (hs : P s) (hexec : exec x s = (.ok a, t)) :
    Q a t := by
  have := h s hs
  rwa [hexec] at this

theorem Meets.error {e : ε} (h : Meets P x Q E) (hs : P s) (hexec : exec x s = (.error e, t)) :
    E e t := by
  have := h s hs
  rwa [hexec] at this

/-- Steps follow one another. -/
theorem Meets.bind (hx : Meets P x Q E) (hf : ∀ a, Meets (Q a) (f a) R E) :
    Meets P (x >>= f) R E := by
  intro s hs
  rw [exec_bind]
  cases hout : exec x s with
  | mk result t =>
      cases result with
      | ok a => exact hf a t (hx.ok hs hout)
      | error e => exact hx.error hs hout

theorem Meets.pure {a : α} (h : ∀ s, P s → Q a s) :
    Meets P (Pure.pure a : Method ε σ α) Q E := fun s hs => h s hs

theorem Meets.fails {e : ε} (h : ∀ s, P s → E e s) :
    Meets P (throw e : Method ε σ α) Q E := fun s hs => h s hs

/-- A result is passed on, and its failure is one of the method. -/
theorem Meets.of {result : Except ε α} (h : ∀ s a, P s → result = .ok a → Q a s)
    (hE : ∀ s e, P s → result = .error e → E e s) : Meets P (Method.of result : Method ε σ α) Q E := by
  intro s hs
  cases result with
  | ok a => exact h s a hs rfl
  | error e => exact hE s e hs rfl

theorem Meets.get {Q : σ → σ → Prop} (h : ∀ s, P s → Q s s) :
    Meets P (MonadState.get : Method ε σ σ) Q E := fun s hs => h s hs

theorem Meets.set {Q : PUnit → σ → Prop} {s' : σ} (h : ∀ s, P s → Q ⟨⟩ s') :
    Meets P (MonadStateOf.set s' : Method ε σ PUnit) Q E := fun s hs => h s hs

theorem Meets.conseq {E' : ε → σ → Prop} (h : Meets P x Q E) (hP : ∀ s, P' s → P s)
    (hQ : ∀ a s, Q a s → Q' a s) (hE : ∀ e s, E e s → E' e s) : Meets P' x Q' E' := by
  intro s hs
  cases hout : exec x s with
  | mk result t =>
      cases result with
      | ok a => exact hQ a t (h.ok (hP s hs) hout)
      | error e => exact hE e t (h.error (hP s hs) hout)

theorem Meets.ite {c : Prop} [Decidable c] (hx : c → Meets P x Q E) (hy : ¬ c → Meets P y Q E) :
    Meets P (if c then x else y) Q E := by
  by_cases hc : c
  · rw [if_pos hc]
    exact hx hc
  · rw [if_neg hc]
    exact hy hc

/-- A check that is passed leaves the state as it is. -/
theorem Meets.rejectIf {bad : Prop} [Decidable bad] {e : ε} (hE : ∀ s, P s → bad → E e s) :
    Meets P (Method.rejectIf bad e : Method ε σ PUnit) (fun _ s => ¬ bad ∧ P s) E := by
  unfold Method.rejectIf
  exact .ite (fun h => .fails fun s hs => hE s hs h) fun h => .pure fun _ hs => ⟨h, hs⟩

/-- A fact that does not speak of the state. -/
theorem Meets.given {c : Prop} (h : c → Meets P x Q E) : Meets (fun s => c ∧ P s) x Q E :=
  fun s hs => h hs.1 s hs.2

theorem Meets.zoom {τ : Type} {part : σ → τ} {put : τ → σ → σ} {x : Method ε τ α}
    {P' : τ → Prop} {Q' : α → τ → Prop} {E' : ε → τ → Prop} (h : Meets P' x Q' E')
    (hP : ∀ s, P s → P' (part s)) (hQ : ∀ s a t, P s → Q' a t → Q a (put t s))
    (hE : ∀ s e t, P s → E' e t → E e (put t s)) : Meets P (Method.zoom part put x) Q E := by
  intro s hs
  change match (match exec x (part s) with
      | (result, t) => (result, put t s) : Except ε α × σ) with
    | (.ok a, t) => Q a t
    | (.error e, t) => E e t
  cases hout : exec x (part s) with
  | mk result t =>
      cases result with
      | ok a => exact hQ s a t hs (h.ok (hP s hs) hout)
      | error e => exact hE s e t hs (h.error (hP s hs) hout)

end Rules

/-! ## Results alone -/

/-- From any state the method ends with a result in `Q`, or fails with an error in `E`. -/
def Gives (x : Method ε σ α) (Q : α → Prop) (E : ε → Prop) : Prop :=
  Meets (fun _ => True) x (fun a _ => Q a) fun e _ => E e

section Gives

variable {Q Q' : α → Prop} {R : β → Prop} {E E' : ε → Prop} {x y : Method ε σ α}
  {f : α → Method ε σ β} {s t : σ}

theorem Gives.ok {a : α} (h : Gives x Q E) (hexec : exec x s = (.ok a, t)) : Q a :=
  Meets.ok h trivial hexec

theorem Gives.error {e : ε} (h : Gives x Q E) (hexec : exec x s = (.error e, t)) : E e :=
  Meets.error h trivial hexec

theorem Gives.bind (hx : Gives x Q E) (hf : ∀ a, Q a → Gives (f a) R E) :
    Gives (x >>= f) R E :=
  Meets.bind hx fun a _ ha => hf a ha _ trivial

theorem Gives.pure {a : α} (h : Q a) : Gives (Pure.pure a : Method ε σ α) Q E :=
  Meets.pure fun _ _ => h

theorem Gives.fails {e : ε} (h : E e) : Gives (throw e : Method ε σ α) Q E :=
  Meets.fails fun _ _ => h

theorem Gives.of {result : Except ε α} (h : ∀ a, result = .ok a → Q a)
    (hE : ∀ e, result = .error e → E e) : Gives (Method.of result : Method ε σ α) Q E :=
  Meets.of (fun _ a _ => h a) fun _ e _ => hE e

theorem Gives.ite {c : Prop} [Decidable c] (hx : c → Gives x Q E) (hy : ¬ c → Gives y Q E) :
    Gives (if c then x else y) Q E :=
  Meets.ite hx hy

theorem Gives.rejectIf {bad : Prop} [Decidable bad] {e : ε} (hE : bad → E e) :
    Gives (Method.rejectIf bad e : Method ε σ PUnit) (fun _ => ¬ bad) E := by
  unfold Method.rejectIf
  exact .ite (fun h => .fails (hE h)) fun h => .pure h

theorem Gives.conseq (h : Gives x Q E) (hQ : ∀ a, Q a → Q' a) (hE : ∀ e, E e → E' e) :
    Gives x Q' E' :=
  Meets.conseq h (fun _ h => h) (fun a _ => hQ a) fun e _ => hE e

theorem Gives.and (h : Gives x Q E) (h' : Gives x Q' E') :
    Gives x (fun a => Q a ∧ Q' a) fun e => E e ∧ E' e := by
  intro s hs
  have hQ := h s hs
  have hQ' := h' s hs
  cases hout : exec x s with
  | mk result t =>
      cases result with
      | ok a =>
          rw [hout] at hQ hQ'
          exact ⟨hQ, hQ'⟩
      | error e =>
          rw [hout] at hQ hQ'
          exact ⟨hQ, hQ'⟩

end Gives

end Method
