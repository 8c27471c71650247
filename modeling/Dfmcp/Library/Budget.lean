import Dfmcp.Library.Method

/-!
# Work budgets

A computation that pays for its steps as it goes, and stops when it has spent more than it was
given. `Delivers limit x Q E` speaks of its results and errors alone. `Frugal x` says that nothing
else about the account matters: a run that succeeds does so from every account that has spent no
more, with the same result and at the same cost.

* `Costs` — when a check passes, and what it costs;
* `Delivers` — the result and the errors of a computation that starts solvent, with its rules;
* `Frugal.bind` and its companions — frugality is closed under the ways methods are built.
-/

/-- What was spent, and what may be. -/
structure Work where
  used : Nat
  maximum : Nat
deriving DecidableEq

namespace Method

variable {ε α β : Type}

/-- Pay for `n` units of work. -/
def charge (overflow exceeded : ε) (n : Nat) : Method ε Work PUnit := fun w =>
  if 2 ^ 64 ≤ w.used + n then (.error overflow, w)
  else if w.maximum < w.used + n then (.error exceeded, { w with used := w.used + n })
  else (.ok ⟨⟩, { w with used := w.used + n })

/-! ## What a paid computation delivers -/

/-- Nothing of `maximum` was overspent. -/
def Solvent (maximum : Nat) (w : Work) : Prop := w.used ≤ w.maximum ∧ w.maximum = maximum

/-- From a solvent account of at most `limit` the method delivers a result in `Q`, or fails with an
error in `E`. -/
def Delivers (limit : Nat) (x : Method ε Work α) (Q : α → Prop) (E : ε → Prop) : Prop :=
  ∀ maximum ≤ limit, Meets (Solvent maximum) x (fun a w => Solvent maximum w ∧ Q a) fun e _ => E e

section Rules

variable {limit : Nat} {Q Q' : α → Prop} {R : β → Prop} {E : ε → Prop} {x y : Method ε Work α}
  {f : α → Method ε Work β}

theorem Delivers.bind (hx : Delivers limit x Q E) (hf : ∀ a, Q a → Delivers limit (f a) R E) :
    Delivers limit (x >>= f) R E :=
  fun m hm => Meets.bind (hx m hm) fun a w hw => hf a hw.2 m hm w hw.1

theorem Delivers.pure {a : α} (h : Q a) : Delivers limit (Pure.pure a) Q E :=
  fun _ _ => Meets.pure fun _ hw => ⟨hw, h⟩

theorem Delivers.fails {e : ε} (h : E e) : Delivers limit (throw e : Method ε Work α) Q E :=
  fun _ _ => Meets.fails fun _ _ => h

theorem Delivers.of {result : Except ε α} (h : ∀ a, result = .ok a → Q a)
    (hE : ∀ e, result = .error e → E e) : Delivers limit (Method.of result) Q E :=
  fun _ _ => Meets.of (fun _ a hw heq => ⟨hw, h a heq⟩) fun _ e _ heq => hE e heq

theorem Delivers.ite {c : Prop} [Decidable c] (hx : c → Delivers limit x Q E)
    (hy : ¬ c → Delivers limit y Q E) : Delivers limit (if c then x else y) Q E :=
  fun m hm => Meets.ite (fun hc => hx hc m hm) fun hc => hy hc m hm

theorem Delivers.rejectIf {bad : Prop} [Decidable bad] {e : ε} (hE : bad → E e) :
    Delivers limit (Method.rejectIf bad e) (fun _ => ¬ bad) E := by
  unfold Method.rejectIf
  exact .ite (fun h => .fails (hE h)) fun h => .pure h

/-- A limit below `2⁶⁴` is exceeded before the account overflows. -/
theorem Delivers.charge {overflow exceeded : ε} {n : Nat} (hn : limit + n < 2 ^ 64)
    (hE : E exceeded) :
    Delivers limit (Method.charge overflow exceeded n) (fun _ => True) E := by
  intro m hm w hw
  obtain ⟨hused, rfl⟩ := hw
  have hover : ¬ 2 ^ 64 ≤ w.used + n := by omega
  unfold Method.charge exec
  by_cases hmax : w.maximum < w.used + n
  · simp only [ExceptT.run, StateT.run, if_neg hover, if_pos hmax]
    exact hE
  · simp only [ExceptT.run, StateT.run, if_neg hover, if_neg hmax]
    exact ⟨⟨Nat.le_of_not_lt hmax, rfl⟩, trivial⟩

theorem Delivers.conseq {E' : ε → Prop} (h : Delivers limit x Q E) (hQ : ∀ a, Q a → Q' a)
    (hE : ∀ e, E e → E' e) : Delivers limit x Q' E' :=
  fun m hm => Meets.conseq (h m hm) (fun _ hw => hw) (fun a _ hw => ⟨hw.1, hQ a hw.2⟩)
    fun e _ he => hE e he

theorem Delivers.whenever {c : Prop} [Decidable c] {x : Method ε Work PUnit} {C : Prop}
    (hx : c → Delivers limit x (fun _ => C) E) :
    Delivers limit (Method.whenever c x) (fun _ => c → C) E := by
  unfold Method.whenever
  exact .ite (fun hc => (hx hc).conseq (fun _ h _ => h) fun _ he => he)
    fun hc => .pure fun h => absurd h hc

theorem Delivers.ok {a : α} {w t : Work} (h : Delivers limit x Q E) (hused : w.used ≤ w.maximum)
    (hlimit : w.maximum ≤ limit) (hexec : exec x w = (.ok a, t)) :
    Q a ∧ t.used ≤ t.maximum ∧ t.maximum = w.maximum := by
  obtain ⟨⟨hle, hmax⟩, hQ⟩ := Meets.ok (h w.maximum hlimit) ⟨hused, rfl⟩ hexec
  exact ⟨hQ, hle, hmax⟩

theorem Delivers.error {e : ε} {w t : Work} (h : Delivers limit x Q E)
    (hused : w.used ≤ w.maximum) (hlimit : w.maximum ≤ limit)
    (hexec : exec x w = (.error e, t)) : E e :=
  Meets.error (h w.maximum hlimit) ⟨hused, rfl⟩ hexec

end Rules

/-! ## Frugality -/

/-- A successful run costs the same whatever was spent before. -/
def Frugal (x : Method ε Work α) : Prop :=
  ∀ u m a t, exec x ⟨u, m⟩ = (.ok a, t) →
    ∃ c, t = ⟨u + c, m⟩ ∧ ∀ v ≤ u, exec x ⟨v, m⟩ = (.ok a, ⟨v + c, m⟩)

theorem Frugal.pure (a : α) : Frugal (Pure.pure a : Method ε Work α) := by
  intro u m b t h
  obtain ⟨hb, rfl⟩ := Prod.mk.inj h
  cases hb
  exact ⟨0, rfl, fun v _ => rfl⟩

theorem Frugal.fails (e : ε) : Frugal (throw e : Method ε Work α) := by
  intro u m b t h
  cases (Prod.mk.inj h).1

theorem Frugal.of (result : Except ε α) : Frugal (Method.of result : Method ε Work α) := by
  cases result with
  | ok a => exact Frugal.pure a
  | error e => exact Frugal.fails e

theorem Frugal.charge (overflow exceeded : ε) (n : Nat) :
    Frugal (Method.charge overflow exceeded n) := by
  intro u m b t h
  unfold Method.charge exec at h
  simp only [ExceptT.run, StateT.run] at h
  by_cases hover : 2 ^ 64 ≤ u + n
  · rw [if_pos hover] at h
    cases (Prod.mk.inj h).1
  · by_cases hmax : m < u + n
    · rw [if_neg hover, if_pos hmax] at h
      cases (Prod.mk.inj h).1
    · rw [if_neg hover, if_neg hmax] at h
      refine ⟨n, (Prod.mk.inj h).2.symm, fun v hv => ?_⟩
      have hover' : ¬ 2 ^ 64 ≤ v + n := by omega
      have hmax' : ¬ m < v + n := by omega
      unfold Method.charge exec
      simp only [ExceptT.run, StateT.run]
      rw [if_neg hover', if_neg hmax']

theorem Frugal.bind {x : Method ε Work α} {f : α → Method ε Work β} (hx : Frugal x)
    (hf : ∀ a, Frugal (f a)) : Frugal (x >>= f) := by
  intro u m b t h
  rw [exec_bind] at h
  cases hout : exec x ⟨u, m⟩ with
  | mk result s =>
      cases result with
      | error e =>
          rw [hout] at h
          cases (Prod.mk.inj h).1
      | ok a =>
          rw [hout] at h
          obtain ⟨c, rfl, hagain⟩ := hx u m a s hout
          obtain ⟨d, rfl, hmore⟩ := hf a (u + c) m b t h
          refine ⟨c + d, by rw [Nat.add_assoc], fun v hv => ?_⟩
          rw [exec_bind, hagain v hv]
          show exec (f a) ⟨v + c, m⟩ = _
          rw [hmore (v + c) (Nat.add_le_add_right hv c), Nat.add_assoc]

theorem Frugal.ite {c : Prop} [Decidable c] {x y : Method ε Work α} (hx : Frugal x)
    (hy : Frugal y) : Frugal (if c then x else y) := by
  by_cases hc : c
  · rwa [if_pos hc]
  · rwa [if_neg hc]

theorem Frugal.whenever (c : Prop) [Decidable c] {x : Method ε Work PUnit} (hx : Frugal x) :
    Frugal (Method.whenever c x) :=
  Frugal.ite hx (Frugal.pure PUnit.unit)

theorem Frugal.rejectIf (bad : Prop) [Decidable bad] (e : ε) :
    Frugal (Method.rejectIf bad e : Method ε Work PUnit) :=
  Frugal.ite (Frugal.fails e) (Frugal.pure PUnit.unit)

/-! ## Checks and their costs -/

/-- From a solvent account a check passes exactly where `P` holds and its cost can be paid. -/
def Costs (x : Method ε Work PUnit) (cost : Nat) (P : Prop) : Prop :=
  ∀ w w', w.used ≤ w.maximum → w.maximum < 2 ^ 64 →
    (exec x w = (.ok ⟨⟩, w') ↔ P ∧ w.used + cost ≤ w.maximum ∧ w' = ⟨w.used + cost, w.maximum⟩)

section Costs

variable {x y : Method ε Work PUnit} {c d : Nat} {P Q : Prop}

theorem Costs.pure : Costs (Pure.pure ⟨⟩ : Method ε Work PUnit) 0 True := by
  intro w w' hw _
  show ((Except.ok PUnit.unit, w) : Except ε PUnit × Work) = _ ↔ _
  rw [Prod.mk.injEq]
  exact ⟨fun h => ⟨trivial, hw, h.2.symm⟩, fun h => ⟨rfl, h.2.2.symm⟩⟩

theorem Costs.bind (hx : Costs x c P) (hy : Costs y d Q) :
    Costs (x >>= fun _ => y) (c + d) (P ∧ Q) := by
  intro w w' hw hmax
  rw [exec_bind]
  cases hout : exec x w with
  | mk result t =>
      cases result with
      | error e =>
          refine iff_of_false (by rintro ⟨⟩) ?_
          rintro ⟨⟨hP, _⟩, hle, _⟩
          have hok := (hx w _ hw hmax).2 ⟨hP, by omega, rfl⟩
          rw [hout] at hok
          cases hok
      | ok a =>
          obtain ⟨hP, hle, rfl⟩ := (hx w t hw hmax).1 hout
          dsimp only
          rw [hy ⟨w.used + c, w.maximum⟩ w' hle hmax]
          simp only [hP, true_and, Nat.add_assoc]

theorem Costs.iff (h : Costs x c P) (hPQ : P ↔ Q) : Costs x c Q := fun w w' hw hmax => by
  rw [h w w' hw hmax, hPQ]

theorem Costs.rejectIf (bad : Prop) [Decidable bad] (e : ε) :
    Costs (Method.rejectIf bad e : Method ε Work PUnit) 0 (¬ bad) := by
  unfold Method.rejectIf
  by_cases hbad : bad
  · rw [if_pos hbad]
    intro w w' _ _
    refine iff_of_false (by rintro ⟨⟩) fun h => h.1 hbad
  · rw [if_neg hbad]
    exact Costs.pure.iff (by simp [hbad])

/-- A check that is not passed. -/
theorem Costs.rejected {bad : Prop} [Decidable bad] (hbad : bad) (e : ε) :
    Costs (Method.rejectIf bad e >>= fun _ => y) 0 False := by
  unfold Method.rejectIf
  rw [if_pos hbad]
  intro w w' _ _
  exact iff_of_false (by rintro ⟨⟩) And.left

/-- What never passes costs anything. -/
theorem Costs.never (h : Costs x c P) (hP : ¬ P) (hQ : ¬ Q) : Costs x d Q := by
  intro w w' hw hmax
  rw [h w w' hw hmax]
  exact iff_of_false (fun h => hP h.1) fun h => hQ h.1

theorem Costs.of {result : Except ε PUnit} : Costs (Method.of result) 0 (result = .ok ⟨⟩) := by
  cases result with
  | error e =>
      intro w w' _ _
      refine iff_of_false (by rintro ⟨⟩) fun h => by cases h.1
  | ok a => exact Costs.pure.iff (by simp)

theorem Costs.charge {overflow exceeded : ε} {n : Nat} :
    Costs (Method.charge overflow exceeded n) n True := by
  intro w w' _ hmax
  unfold Method.charge exec
  simp only [ExceptT.run, StateT.run]
  by_cases hover : 2 ^ 64 ≤ w.used + n
  · rw [if_pos hover]
    refine iff_of_false (by rintro ⟨⟩) fun h => ?_
    have := h.2.1
    omega
  · rw [if_neg hover]
    by_cases hexceeded : w.maximum < w.used + n
    · rw [if_pos hexceeded]
      refine iff_of_false (by rintro ⟨⟩) fun h => ?_
      have := h.2.1
      omega
    · rw [if_neg hexceeded, Prod.mk.injEq]
      exact ⟨fun h => ⟨trivial, Nat.le_of_not_lt hexceeded, h.2.symm⟩, fun h => ⟨rfl, h.2.2.symm⟩⟩

/-- A bound and a check before a result that depends on neither. -/
theorem Costs.yields (h : Costs x c P) (bad : Prop) [Decidable bad] (e : ε) (a b : α) {w : Work}
    (w' : Work) (hw : w.used ≤ w.maximum) (hmax : w.maximum < 2 ^ 64) :
    exec (Method.rejectIf bad e >>= fun _ => x >>= fun _ => Pure.pure a) w = (.ok b, w') ↔
      ¬ bad ∧ P ∧ w.used + c ≤ w.maximum ∧ b = a ∧ w' = ⟨w.used + c, w.maximum⟩ := by
  unfold Method.rejectIf
  by_cases hbad : bad
  · rw [if_pos hbad]
    exact iff_of_false (by rintro ⟨⟩) fun h => h.1 hbad
  · rw [if_neg hbad]
    show exec (x >>= fun _ => Pure.pure a) w = _ ↔ _
    rw [exec_bind]
    cases hout : exec x w with
    | mk result t =>
        cases result with
        | error e' =>
            refine iff_of_false (by rintro ⟨⟩) ?_
            rintro ⟨_, hP, hle, _, _⟩
            have hok := (h w _ hw hmax).2 ⟨hP, hle, rfl⟩
            rw [hout] at hok
            cases hok
        | ok u =>
            obtain ⟨hP, hle, rfl⟩ := (h w t hw hmax).1 hout
            show ((Except.ok a, _) : Except ε α × Work) = _ ↔ _
            rw [Prod.mk.injEq, Except.ok.injEq]
            exact ⟨fun heq => ⟨hbad, hP, hle, heq.1.symm, heq.2.symm⟩,
              fun hall => ⟨hall.2.2.2.1.symm, hall.2.2.2.2.symm⟩⟩

end Costs

end Method
