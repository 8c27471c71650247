import Dfmcp.Library.Method

/-!
# Methods from one state

`Ends Q E x s` says how the method `x` ends when it is run from the state `s`: with its result and state
in `Q`, or with an error and state in `E`. A method is followed from the exact state it is in: what was
read of the state and which results were passed are hypotheses of the rest.

* `Ends.of`, `Ends.get`, `Ends.set`, `Ends.ite`, `Ends.mapError` — one rule for each way to go on;
* `Ends.bind` — after a method whose ends are known;
* `Ends.leaves` — what holds of the state in both cases.
-/

namespace Method

variable {ε σ α β : Type}

/-- How a method ends from a state. -/
def Ends (Q : α → σ → Prop) (E : ε → σ → Prop) (x : Method ε σ α) (s : σ) : Prop :=
  match exec x s with
  | (.ok a, t) => Q a t
  | (.error e, t) => E e t

namespace Ends

variable {Q Q' : α → σ → Prop} {R : β → σ → Prop} {E E' : ε → σ → Prop} {x y : Method ε σ α} {s : σ}

theorem pure {a : α} (h : Q a s) : Ends Q E (Pure.pure a : Method ε σ α) s := h

theorem fails {e : ε} (h : E e s) : Ends Q E (throw e : Method ε σ α) s := h

theorem conseq (h : Ends Q E x s) (hQ : ∀ a t, Q a t → Q' a t) (hE : ∀ e t, E e t → E' e t) :
    Ends Q' E' x s := by
  unfold Ends at h ⊢
  cases hout : exec x s with
  | mk result t =>
      rw [hout] at h
      cases result with
      | ok a => exact hQ a t h
      | error e => exact hE e t h

/-- A method goes on after a success, and ends with a failure. -/
theorem bind {f : α → Method ε σ β} (h : Ends Q E x s) (hok : ∀ a t, Q a t → Ends R E' (f a) t)
    (herror : ∀ e t, E e t → E' e t) : Ends R E' (x >>= f) s := by
  unfold Ends at h ⊢
  rw [exec_bind]
  cases hout : exec x s with
  | mk result t =>
      rw [hout] at h
      cases result with
      | ok a => exact hok a t h
      | error e => exact herror e t h

/-- A result that is passed on leaves the state as it is. -/
theorem of {result : Except ε α} {f : α → Method ε σ β} (hE : ∀ e, E e s)
    (h : ∀ a, result = .ok a → Ends R E (f a) s) : Ends R E (Method.of result >>= f) s := by
  cases result with
  | ok a => exact h a rfl
  | error e => exact hE e

theorem get {f : σ → Method ε σ β} (h : Ends R E (f s) s) : Ends R E (MonadState.get >>= f) s := h

theorem set {t : σ} {f : PUnit → Method ε σ β} (h : Ends R E (f ⟨⟩) t) :
    Ends R E (MonadStateOf.set t >>= f) s := h

theorem ite {c : Prop} [Decidable c] (hx : c → Ends Q E x s) (hy : ¬ c → Ends Q E y s) :
    Ends Q E (if c then x else y) s := by
  by_cases h : c
  · rw [if_pos h]
    exact hx h
  · rw [if_neg h]
    exact hy h

/-- Another error, the same state. -/
theorem mapError {e : ε} (h : Ends Q (fun _ => E' e) x s) : Ends Q E' (Method.mapError e x) s := by
  unfold Ends at h ⊢
  change match (match exec x s with
    | (.ok a, t) => ((.ok a, t) : Except ε α × σ)
    | (.error _, t) => (.error e, t)) with
    | (.ok a, t) => Q a t
    | (.error e, t) => E' e t
  cases hout : exec x s with
  | mk result t =>
      rw [hout] at h
      cases result with
      | ok a => exact h
      | error e => exact h

/-- What holds of the state after a success and after a failure. -/
theorem leaves {P : σ → Prop} (h : Ends (fun _ => P) (fun _ => P) x s) : P (exec x s).2 := by
  unfold Ends at h
  cases hout : exec x s with
  | mk result t =>
      rw [hout] at h
      cases result with
      | ok a => exact h
      | error e => exact h

end Ends

end Method
