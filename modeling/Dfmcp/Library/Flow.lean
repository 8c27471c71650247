import Mathlib

/-!
# Flows on a network

A network is a list of arcs between numbered nodes, and a flow an amount on every pair of nodes,
read at the arcs. `Carries A f s t k` says that `f` keeps every capacity and moves `k` units from
`s` to `t`, losing nothing in between. Costs live in an ordered group, so one theory serves numbers
and lexicographic vectors alike.

* `Carries.potential` — along any potential, a flow of value `k` earns `k` times the drop from
  source to sink;
* `Carries.le_cut`, `Carries.eq_cut` — a cut bounds every flow, and a cut that no residual arc
  leaves is met exactly;
* `Carries.cost_le` — a potential under which no residual arc has negative reduced cost certifies
  minimum cost among the flows of the same value;
* `Pushed` — moving an amount along a residual arc, and what it leaves as it was.
-/

namespace Flow

/-- A directed arc. -/
structure Arc (Γ : Type) where
  tail : ℕ
  head : ℕ
  capacity : ℕ
  cost : Γ

section Network

variable {Γ : Type} {A B : List (Arc Γ)} {f x : ℕ → ℕ → ℕ} {s t u v w : ℕ} {k l : ℤ}

/-- What a flow puts on an arc. -/
def on (f : ℕ → ℕ → ℕ) (a : Arc Γ) : ℕ := f a.tail a.head

/-- One at a node. -/
def point (v u : ℕ) : ℤ := if v = u then 1 else 0

/-- What leaves a node less what enters it, through one arc. -/
def through (a : Arc Γ) (u : ℕ) : ℤ := point a.tail u - point a.head u

/-- What leaves a node less what enters it. -/
def net (A : List (Arc Γ)) (f : ℕ → ℕ → ℕ) (u : ℕ) : ℤ := (A.map fun a => on f a * through a u).sum

/-- The demand a value `k` makes on a node. -/
def excess (s t : ℕ) (k : ℤ) (u : ℕ) : ℤ := k * (point s u - point t u)

/-- A flow of value `k`. -/
structure Carries (A : List (Arc Γ)) (f : ℕ → ℕ → ℕ) (s t : ℕ) (k : ℤ) : Prop where
  capacity : ∀ a ∈ A, on f a ≤ a.capacity
  conserved : ∀ u, net A f u = excess s t k u

/-! ## Potentials -/

section Group

variable {M : Type} [AddCommGroup M]

theorem sum_point (π : ℕ → M) (N : Finset ℕ) (hv : v ∈ N) : ∑ u ∈ N, point v u • π u = π v := by
  simp only [point, ite_smul, one_smul, zero_smul]
  rw [Finset.sum_ite_eq N v π, if_pos hv]

theorem through_smul (a : Arc Γ) (π : ℕ → M) (N : Finset ℕ) (ht : a.tail ∈ N) (hh : a.head ∈ N) :
    ∑ u ∈ N, through a u • π u = π a.tail - π a.head := by
  simp only [through, sub_smul, Finset.sum_sub_distrib]
  rw [sum_point π N ht, sum_point π N hh]

theorem sum_net (f : ℕ → ℕ → ℕ) (π : ℕ → M) (N : Finset ℕ)
    (hN : ∀ a ∈ A, a.tail ∈ N ∧ a.head ∈ N) :
    ∑ u ∈ N, net A f u • π u = (A.map fun a => on f a • (π a.tail - π a.head)).sum := by
  induction A with
  | nil => simp [net]
  | cons a A ih =>
      have ha := hN a (List.mem_cons_self ..)
      have hrest := ih fun b hb => hN b (List.mem_cons_of_mem _ hb)
      have hcons : ∀ u, net (a :: A) f u = on f a * through a u + net A f u := fun u => by
        simp [net]
      simp only [hcons, add_smul, Finset.sum_add_distrib, hrest, List.map_cons, List.sum_cons]
      congr 1
      simp only [mul_smul, ← Finset.smul_sum, through_smul a π N ha.1 ha.2, natCast_zsmul]

theorem sum_excess (π : ℕ → M) (N : Finset ℕ) (hs : s ∈ N) (ht : t ∈ N) :
    ∑ u ∈ N, excess s t k u • π u = k • (π s - π t) := by
  simp only [excess, mul_smul, sub_smul, ← Finset.smul_sum, Finset.sum_sub_distrib]
  rw [sum_point π N hs, sum_point π N ht]

/-- **A flow earns its value times the drop of the potential.** -/
theorem Carries.potential (h : Carries A f s t k) (π : ℕ → M) :
    (A.map fun a => on f a • (π a.tail - π a.head)).sum = k • (π s - π t) := by
  let N : Finset ℕ := insert s (insert t ((A.map Arc.tail).toFinset ∪ (A.map Arc.head).toFinset))
  have hN : ∀ a ∈ A, a.tail ∈ N ∧ a.head ∈ N := by
    intro a ha
    constructor
    · simp only [N, Finset.mem_insert, Finset.mem_union, List.mem_toFinset]
      exact .inr (.inr (.inl (List.mem_map_of_mem ha)))
    · simp only [N, Finset.mem_insert, Finset.mem_union, List.mem_toFinset]
      exact .inr (.inr (.inr (List.mem_map_of_mem ha)))
  rw [← sum_net f π N hN, ← sum_excess π N (by simp [N]) (by simp [N])]
  exact Finset.sum_congr rfl fun u _ => by rw [h.conserved u]

end Group

/-! ## Cuts -/

/-- The capacity of the arcs that leave a set of nodes. -/
def cut (A : List (Arc Γ)) (S : ℕ → Bool) : ℕ :=
  (A.map fun a => if S a.tail && !S a.head then a.capacity else 0).sum

/-- No residual arc leaves the set. -/
def Closed (A : List (Arc Γ)) (f : ℕ → ℕ → ℕ) (S : ℕ → Bool) : Prop :=
  ∀ a ∈ A, (on f a < a.capacity → S a.tail → S a.head) ∧ (0 < on f a → S a.head → S a.tail)

/-- One on the set, zero outside. -/
def side (S : ℕ → Bool) (u : ℕ) : ℤ := if S u then 1 else 0

theorem Carries.across (h : Carries A f s t k) (S : ℕ → Bool) (hs : S s) (ht : S t = false) :
    (A.map fun a => on f a • (side S a.tail - side S a.head)).sum = k := by
  rw [h.potential (side S)]
  simp [side, hs, ht]

/-- **A cut bounds every flow.** -/
theorem Carries.le_cut (h : Carries A f s t k) (S : ℕ → Bool) (hs : S s) (ht : S t = false) :
    k ≤ cut A S := by
  rw [← h.across S hs ht, cut, Nat.cast_list_sum, List.map_map]
  apply List.sum_le_sum
  intro a ha
  have := h.capacity a ha
  cases htail : S a.tail <;> cases hhead : S a.head <;> simp [side, htail, hhead, this]

/-- **A cut that no residual arc leaves is met exactly.** -/
theorem Carries.eq_cut (h : Carries A f s t k) (S : ℕ → Bool) (hs : S s) (ht : S t = false)
    (hclosed : Closed A f S) : k = cut A S := by
  rw [← h.across S hs ht, cut, Nat.cast_list_sum, List.map_map]
  congr 1
  apply List.map_congr_left
  intro a ha
  have hcap := h.capacity a ha
  obtain ⟨hout, hin⟩ := hclosed a ha
  cases htail : S a.tail <;> cases hhead : S a.head
  · simp [side, htail, hhead]
  · have : on f a = 0 := by
      by_contra hne
      simp [htail, hhead, Nat.pos_of_ne_zero hne] at hin
    simp [this, htail]
  · have : on f a = a.capacity := by
      by_contra hne
      simp [htail, hhead, lt_of_le_of_ne hcap hne] at hout
    simp [side, htail, hhead, this]
  · simp [side, htail, hhead]

/-- No flow moves more than one whose cut is closed. -/
theorem Carries.maximum (h : Carries A f s t k) (S : ℕ → Bool) (hs : S s) (ht : S t = false)
    (hclosed : Closed A f S) (hx : Carries A x s t l) : l ≤ k := by
  rw [h.eq_cut S hs ht hclosed]
  exact hx.le_cut S hs ht

/-! ## Costs -/

section Ordered

variable [AddCommGroup Γ] [LinearOrder Γ] [IsOrderedAddMonoid Γ]

/-- What a flow costs. -/
def price (A : List (Arc Γ)) (f : ℕ → ℕ → ℕ) : Γ := (A.map fun a => on f a • a.cost).sum

/-- The cost of an arc as a potential sees it. -/
def reduced (π : ℕ → Γ) (a : Arc Γ) : Γ := a.cost + π a.tail - π a.head

/-- No residual arc has negative reduced cost. -/
def Slack (A : List (Arc Γ)) (f : ℕ → ℕ → ℕ) (π : ℕ → Γ) : Prop :=
  ∀ a ∈ A, (on f a < a.capacity → 0 ≤ reduced π a) ∧ (0 < on f a → reduced π a ≤ 0)

omit [LinearOrder Γ] [IsOrderedAddMonoid Γ] in
theorem Carries.price_eq (h : Carries A f s t k) (π : ℕ → Γ) :
    (A.map fun a => on f a • reduced π a).sum = price A f + k • (π s - π t) := by
  rw [← h.potential π, price, ← List.sum_map_add]
  congr 1
  apply List.map_congr_left
  intro a _
  rw [← smul_add, reduced, add_sub_assoc]

theorem smul_reduced_le {n m c : ℕ} {r : Γ} (hm : m ≤ c) (hlow : n < c → 0 ≤ r)
    (hhigh : 0 < n → r ≤ 0) : n • r ≤ m • r := by
  rcases lt_trichotomy n m with hlt | heq | hgt
  · exact nsmul_le_nsmul_left (hlow (by omega)) hlt.le
  · rw [heq]
  · obtain ⟨d, rfl⟩ := Nat.exists_eq_add_of_lt hgt
    have hr := hhigh (by omega)
    have hd : (d + 1) • r ≤ 0 := nsmul_nonpos hr (d + 1)
    calc (m + d + 1) • r = m • r + (d + 1) • r := by rw [add_assoc, add_nsmul]
      _ ≤ m • r := add_le_of_nonpos_right hd

/-- **A potential without negative residual arcs certifies minimum cost.** -/
theorem Carries.cost_le {π : ℕ → Γ} (h : Carries A f s t k) (hslack : Slack A f π)
    (hx : Carries A x s t k) : price A f ≤ price A x := by
  have hsum : (A.map fun a => on f a • reduced π a).sum ≤
      (A.map fun a => on x a • reduced π a).sum := by
    apply List.sum_le_sum
    intro a ha
    exact smul_reduced_le (hx.capacity a ha) (hslack a ha).1 (hslack a ha).2
  rw [h.price_eq π, hx.price_eq π] at hsum
  exact le_of_add_le_add_right hsum

end Ordered

/-! ## Pushing along a residual arc -/

/-- The flow with another amount on one arc. -/
def setOn (f : ℕ → ℕ → ℕ) (a : Arc Γ) (n : ℕ) : ℕ → ℕ → ℕ :=
  fun u v => if u = a.tail ∧ v = a.head then n else f u v

/-- The arcs of a list join different nodes, and no two the same ones. -/
structure Simple (A : List (Arc Γ)) : Prop where
  proper : ∀ a ∈ A, a.tail ≠ a.head
  distinct : (A.map fun a => (a.tail, a.head)).Nodup

@[simp] theorem on_setOn (f : ℕ → ℕ → ℕ) (a : Arc Γ) (n : ℕ) : on (setOn f a n) a = n := by
  simp [on, setOn]

theorem on_setOn_of_ne {a b : Arc Γ} {n : ℕ} (h : (b.tail, b.head) ≠ (a.tail, a.head)) :
    on (setOn f a n) b = on f b := by
  have : ¬ (b.tail = a.tail ∧ b.head = a.head) := fun hab => h (by rw [hab.1, hab.2])
  simp [on, setOn, this]

theorem Simple.ne {P Q : List (Arc Γ)} {a b : Arc Γ} (h : Simple (P ++ a :: Q))
    (hb : b ∈ P ∨ b ∈ Q) : (b.tail, b.head) ≠ (a.tail, a.head) := by
  have hd := h.distinct
  rw [List.map_append, List.map_cons, List.nodup_middle, List.nodup_cons, List.mem_append] at hd
  intro heq
  rcases hb with hP | hQ
  · exact hd.1 (.inl (heq ▸ List.mem_map_of_mem (f := fun a => (a.tail, a.head)) hP))
  · exact hd.1 (.inr (heq ▸ List.mem_map_of_mem (f := fun a => (a.tail, a.head)) hQ))

theorem Simple.eq_or_ne {a b : Arc Γ} (h : Simple A) (ha : a ∈ A) (hb : b ∈ A) :
    b = a ∨ (b.tail, b.head) ≠ (a.tail, a.head) := by
  by_cases heq : (b.tail, b.head) = (a.tail, a.head)
  · exact .inl (List.inj_on_of_nodup_map h.distinct hb ha heq)
  · exact .inr heq

theorem net_setOn {a : Arc Γ} (h : Simple A) (ha : a ∈ A) (n : ℕ) (u : ℕ) :
    net A (setOn f a n) u = net A f u + ((n : ℤ) - on f a) * through a u := by
  obtain ⟨P, Q, rfl⟩ := List.append_of_mem ha
  have hoff : ∀ L : List (Arc Γ), (∀ b ∈ L, b ∈ P ∨ b ∈ Q) →
      (L.map fun b => (on (setOn f a n) b : ℤ) * through b u) =
        L.map fun b => (on f b : ℤ) * through b u := by
    intro L hL
    apply List.map_congr_left
    intro b hb
    rw [on_setOn_of_ne (h.ne (hL b hb))]
  simp only [net, List.map_append, List.map_cons, List.sum_append, List.sum_cons, on_setOn,
    hoff P fun b hb => .inl hb, hoff Q fun b hb => .inr hb]
  ring

/-- `f'` is `f` after `amount` was moved from `u` to `v` along a residual side of the arc `a`. -/
inductive Pushed (A : List (Arc Γ)) (f : ℕ → ℕ → ℕ) (u v amount : ℕ) (a : Arc Γ) :
    (ℕ → ℕ → ℕ) → Prop
  | forward (ha : a ∈ A) (htail : a.tail = u) (hhead : a.head = v)
      (hroom : amount ≤ a.capacity - on f a) (hcap : on f a ≤ a.capacity) :
      Pushed A f u v amount a (setOn f a (on f a + amount))
  | backward (ha : a ∈ A) (htail : a.tail = v) (hhead : a.head = u) (hroom : amount ≤ on f a) :
      Pushed A f u v amount a (setOn f a (on f a - amount))

section Pushing

variable {a : Arc Γ} {amount : ℕ} {f' : ℕ → ℕ → ℕ}

/-- A push takes the amount out of one node and brings it to the other. -/
theorem Pushed.net (hsimple : Simple A) (h : Pushed A f u v amount a f') (w : ℕ) :
    net A f' w = net A f w + excess u v amount w := by
  cases h with
  | forward ha htail hhead hroom hcap =>
      rw [net_setOn hsimple ha, through, htail, hhead, excess]
      push_cast
      ring
  | backward ha htail hhead hroom =>
      rw [net_setOn hsimple ha, through, htail, hhead, excess]
      push_cast [Nat.cast_sub hroom]
      ring

/-- Only the arc of the push changes. -/
theorem Pushed.elsewhere (hsimple : Simple A) (h : Pushed A f u v amount a f') {b : Arc Γ}
    (hb : b ∈ A) (hne : b ≠ a) : on f' b = on f b := by
  cases h with
  | forward ha _ _ _ _ => exact on_setOn_of_ne ((hsimple.eq_or_ne ha hb).resolve_left hne)
  | backward ha _ _ _ => exact on_setOn_of_ne ((hsimple.eq_or_ne ha hb).resolve_left hne)

theorem Pushed.capacity (hsimple : Simple A) (h : Pushed A f u v amount a f')
    (hcap : ∀ a ∈ A, on f a ≤ a.capacity) : ∀ a ∈ A, on f' a ≤ a.capacity := by
  intro b hb
  have hle := hcap b hb
  by_cases hne : b = a
  · subst hne
    cases h with
    | forward ha htail hhead hroom hle' =>
        rw [on_setOn]
        omega
    | backward ha htail hhead hroom =>
        rw [on_setOn]
        omega
  · rwa [h.elsewhere hsimple hb hne]

/-- A push inside a closed set leaves it closed. -/
theorem Pushed.closed {S : ℕ → Bool} (hsimple : Simple A) (h : Pushed A f u v amount a f')
    (hclosed : Closed A f S) (hu : S u) (hv : S v) : Closed A f' S := by
  intro b hb
  by_cases hne : b = a
  · subst hne
    cases h with
    | forward ha htail hhead hroom hle => exact ⟨fun _ _ => hhead ▸ hv, fun _ _ => htail ▸ hu⟩
    | backward ha htail hhead hroom => exact ⟨fun _ _ => hhead ▸ hu, fun _ _ => htail ▸ hv⟩
  · rw [h.elsewhere hsimple hb hne]
    exact hclosed b hb

/-- A push along an arc without reduced cost leaves every residual arc with none below zero. -/
theorem Pushed.slack [AddCommGroup Γ] [LinearOrder Γ] {π : ℕ → Γ} (hsimple : Simple A)
    (h : Pushed A f u v amount a f') (hslack : Slack A f π) (htight : reduced π a = 0) :
    Slack A f' π := by
  intro b hb
  by_cases hne : b = a
  · subst hne
    exact ⟨fun _ => htight.ge, fun _ => htight.le⟩
  · rw [h.elsewhere hsimple hb hne]
    exact hslack b hb

end Pushing

end Network

end Flow
