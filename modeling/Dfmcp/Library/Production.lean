import Mathlib

/-!
# Production with shared intermediate goods

A shop has stocks, goals for its final stocks, and for every good what a batch of it yields and what
goods that batch takes. Demand is propagated backward, from a good to what its batches take, and
batches are run forward. `order` lists consumers before what they consume.

* `Planned.le_of_meets` — batches that are rounded up once from all demand are the least that meet
  the goals;
* `run_eq` — levels after some batches, by counting;
* `Planned.taken_nonneg` — in the reverse of the order no good runs short;
* `Planned.goal_le` — and every goal is met at the end.
-/

namespace Production

variable {V : Type}

/-- Goods and how they are made. A good that is not made yields nothing. -/
structure Shop (V : Type) where
  stock : V → ℕ
  goal : V → ℕ
  yields : V → ℕ
  /-- What a batch of the first good takes of the second. -/
  takes : V → V → ℕ

variable {shop : Shop V} {order earlier later : List V} {batches counts : V → ℕ} {u v : V}

/-- What the batches of the goods in a list take. -/
def Shop.consumed (shop : Shop V) (order : List V) (batches : V → ℕ) (v : V) : ℕ :=
  (order.map fun u => batches u * shop.takes u v).sum

/-- What is needed of a good, for its goal and for the batches. -/
def Shop.required (shop : Shop V) (order : List V) (batches : V → ℕ) (v : V) : ℕ :=
  shop.goal v + shop.consumed order batches v

/-- Batch counts give a good its due. -/
def Shop.Meets (shop : Shop V) (order : List V) (batches : V → ℕ) (v : V) : Prop :=
  shop.required order batches v ≤ shop.stock v + batches v * shop.yields v

theorem consumed_append (shop : Shop V) (earlier later : List V) (batches : V → ℕ) (v : V) :
    shop.consumed (earlier ++ later) batches v =
      shop.consumed earlier batches v + shop.consumed later batches v := by
  rw [Shop.consumed, List.map_append, List.sum_append]
  rfl

theorem consumed_cons (shop : Shop V) (u : V) (later : List V) (batches : V → ℕ) (v : V) :
    shop.consumed (u :: later) batches v =
      batches u * shop.takes u v + shop.consumed later batches v := by
  rw [Shop.consumed, List.map_cons, List.sum_cons]
  rfl

theorem consumed_eq_zero (h : ∀ u ∈ order, shop.takes u v = 0) :
    shop.consumed order batches v = 0 := by
  refine List.sum_eq_zero fun x hx => ?_
  obtain ⟨u, hu, rfl⟩ := List.mem_map.1 hx
  rw [h u hu, Nat.mul_zero]

theorem consumed_mono (h : ∀ u ∈ order, batches u ≤ counts u) :
    shop.consumed order batches v ≤ shop.consumed order counts v :=
  List.sum_le_sum fun u hu => Nat.mul_le_mul_right _ (h u hu)

theorem consumed_congr (h : ∀ u ∈ order, batches u = counts u) :
    shop.consumed order batches v = shop.consumed order counts v :=
  le_antisymm (consumed_mono fun u hu => (h u hu).le) (consumed_mono fun u hu => (h u hu).ge)

theorem consumed_reverse (shop : Shop V) (order : List V) (batches : V → ℕ) (v : V) :
    shop.consumed order.reverse batches v = shop.consumed order batches v := by
  rw [Shop.consumed, List.map_reverse, List.sum_reverse]
  rfl

/-- Demand that was rounded up to whole batches, consumers before what they consume. -/
structure Planned (shop : Shop V) (order : List V) (batches : V → ℕ) : Prop where
  nodup : order.Nodup
  later : order.Pairwise fun u v => shop.takes v u = 0
  itself : ∀ v ∈ order, shop.takes v v = 0
  /-- Batches are run only for a good that is needed, and then as few as give it its due. -/
  rounded : ∀ v ∈ order, batches v ≠ 0 → shop.Meets order batches v ∧
    ∀ n < batches v, shop.stock v + n * shop.yields v < shop.required order batches v

/-- Only what comes before a good in the order consumes it. -/
theorem Planned.consumed_eq (h : Planned shop order batches) (hsplit : order = earlier ++ v :: later)
    (counts : V → ℕ) : shop.consumed order counts v = shop.consumed earlier counts v := by
  have hpair := List.pairwise_cons.1 (List.pairwise_append.1 (hsplit ▸ h.later)).2.1
  have hself : shop.takes v v = 0 := h.itself v (hsplit ▸ by simp)
  rw [hsplit, consumed_append, consumed_cons, hself, Nat.mul_zero, Nat.zero_add,
    consumed_eq_zero hpair.1, Nat.add_zero]

/-- **The batches are the least** that give every good made its due. -/
theorem Planned.le_of_meets (h : Planned shop order batches)
    (hmeets : ∀ v ∈ order, batches v ≠ 0 → shop.Meets order counts v) :
    ∀ v ∈ order, batches v ≤ counts v := by
  have hpre : ∀ earlier later, order = earlier ++ later → ∀ v ∈ earlier,
      batches v ≤ counts v := by
    intro earlier
    induction earlier using List.reverseRecOn with
    | nil => exact fun _ _ => nofun
    | append_singleton earlier v ih =>
        intro later hsplit
        have hsplit' : order = earlier ++ v :: later := by simpa using hsplit
        have hearlier := ih _ hsplit'
        intro u hu
        rcases List.mem_append.1 hu with hu | hu
        · exact hearlier u hu
        · obtain rfl := List.mem_singleton.1 hu
          have hmem : u ∈ order := hsplit' ▸ by simp
          by_cases hzero : batches u = 0
          · omega
          · obtain ⟨_, hleast⟩ := h.rounded u hmem hzero
            by_contra hmore
            have hless := hleast (counts u) (not_le.1 hmore)
            have hdue := hmeets u hmem hzero
            unfold Shop.Meets at hdue
            unfold Shop.required at hdue hless
            rw [h.consumed_eq hsplit'] at hdue hless
            have hmono : shop.consumed earlier batches u ≤ shop.consumed earlier counts u :=
              consumed_mono hearlier
            omega
  exact fun v hv => hpre order [] (List.append_nil order).symm v hv

/-! ## Running the batches -/

variable [DecidableEq V]

/-- The levels after one batch of a good. -/
def Shop.batch (shop : Shop V) (u : V) (levels : V → ℤ) (v : V) : ℤ :=
  levels v - shop.takes u v + if v = u then (shop.yields u : ℤ) else 0

/-- The levels after some batches of each of some goods, one good after another. -/
def Shop.run (shop : Shop V) (batches : V → ℕ) (levels : V → ℤ) : List V → V → ℤ
  | [] => levels
  | u :: rest => shop.run batches ((shop.batch u)^[batches u] levels) rest

theorem iterate_batch (shop : Shop V) (u : V) (n : ℕ) (levels : V → ℤ) (v : V) :
    ((shop.batch u)^[n] levels) v =
      levels v - n * shop.takes u v + if v = u then (n * shop.yields u : ℤ) else 0 := by
  induction n generalizing levels with
  | zero => simp
  | succ n ih =>
      rw [Function.iterate_succ_apply, ih, Shop.batch]
      split_ifs
      · push_cast
        ring
      · push_cast
        ring

/-- What the batches of the goods in a list yield of a good. -/
def Shop.produced (shop : Shop V) (order : List V) (batches : V → ℕ) (v : V) : ℕ :=
  if v ∈ order then batches v * shop.yields v else 0

theorem produced_reverse (shop : Shop V) (order : List V) (batches : V → ℕ) (v : V) :
    shop.produced order.reverse batches v = shop.produced order batches v := by
  unfold Shop.produced
  simp only [List.mem_reverse]

/-- **Levels, by counting.** -/
theorem run_eq (shop : Shop V) (batches : V → ℕ) (levels : V → ℤ) {goods : List V}
    (hnodup : goods.Nodup) (v : V) :
    shop.run batches levels goods v =
      levels v - shop.consumed goods batches v + shop.produced goods batches v := by
  induction goods generalizing levels with
  | nil => simp [Shop.run, Shop.consumed, Shop.produced]
  | cons u rest ih =>
      obtain ⟨hu, hrest⟩ := List.nodup_cons.1 hnodup
      rw [Shop.run, ih _ hrest, iterate_batch, consumed_cons]
      unfold Shop.produced
      by_cases hv : v = u
      · subst hv
        rw [if_pos rfl, if_neg hu, if_pos List.mem_cons_self]
        push_cast
        ring
      · rw [if_neg hv]
        have hmem : v ∈ u :: rest ↔ v ∈ rest := by simp [hv]
        simp only [hmem]
        push_cast
        ring

/-- The levels when the goods after `u` in the order are made, and `n` batches of `u`. -/
def Shop.during (shop : Shop V) (batches : V → ℕ) (later : List V) (u : V) (n : ℕ) : V → ℤ :=
  (shop.batch u)^[n] (shop.run batches (fun v => shop.stock v) later.reverse)

theorem during_eq (shop : Shop V) (batches : V → ℕ) (hnodup : later.Nodup) (n : ℕ) :
    shop.during batches later u n v = shop.stock v - shop.consumed later batches v +
      shop.produced later batches v - n * shop.takes u v +
        if v = u then (n * shop.yields u : ℤ) else 0 := by
  rw [Shop.during, iterate_batch, run_eq shop batches _ (List.nodup_reverse.2 hnodup),
    consumed_reverse, produced_reverse]

/-- Nothing is missing. -/
def Shop.Feasible (shop : Shop V) (order : List V) (batches : V → ℕ) : Prop :=
  ∀ v, shop.required order batches v ≤ shop.stock v + shop.produced order batches v

/-- **What remains of a good** while the order is run backward: its goal, or all that was there. -/
theorem Planned.remains (h : Planned shop order batches) (hfeasible : shop.Feasible order batches)
    (hsplit : order = earlier ++ u :: later) {n : ℕ} (hn : n ≤ batches u) (v : V) :
    ((batches u - n : ℕ) : ℤ) * shop.takes u v ≤ shop.during batches later u n v := by
  obtain ⟨_, hunodup, hcross⟩ := List.nodup_append.1 (hsplit ▸ h.nodup)
  obtain ⟨hu, hnodup⟩ := List.nodup_cons.1 hunodup
  rw [during_eq shop batches hnodup]
  push_cast [hn]
  by_cases hvu : v = u
  · -- Nothing made so far takes of the good being made.
    subst hvu
    have hself : shop.takes v v = 0 := h.itself v (hsplit ▸ by simp)
    have hpair := List.pairwise_cons.1 (List.pairwise_append.1 (hsplit ▸ h.later)).2.1
    rw [consumed_eq_zero hpair.1, hself, if_pos rfl]
    have hproduced : shop.produced later batches v = 0 := if_neg hu
    rw [hproduced]
    simp only [Nat.cast_zero, mul_zero, sub_zero, add_zero]
    positivity
  · rw [if_neg hvu]
    by_cases hv : v ∈ later
    · -- All of the good was made, and less was taken than all batches take.
      have hall := hfeasible v
      have hproduced : shop.produced order batches v = shop.produced later batches v := by
        rw [Shop.produced, Shop.produced, if_pos hv, if_pos (hsplit ▸ by simp [hv])]
      unfold Shop.required at hall
      rw [hproduced, hsplit, consumed_append, consumed_cons] at hall
      have hall' : (shop.goal v : ℤ) + (shop.consumed earlier batches v +
          (batches u * shop.takes u v + shop.consumed later batches v)) ≤
          shop.stock v + shop.produced later batches v := by exact_mod_cast hall
      have hgoal : (0 : ℤ) ≤ shop.goal v := Int.natCast_nonneg _
      have hearlier : (0 : ℤ) ≤ shop.consumed earlier batches v := Int.natCast_nonneg _
      linarith
    · have hproduced : shop.produced later batches v = 0 := if_neg hv
      rw [hproduced]
      by_cases hmem : v ∈ order
      · -- The good is made later, and is only taken after that.
        have hearlier : v ∈ earlier := by
          rw [hsplit, List.mem_append, List.mem_cons] at hmem
          rcases hmem with hmem | rfl | hmem
          · exact hmem
          · exact absurd rfl hvu
          · exact absurd hmem hv
        have hnone := (List.pairwise_append.1 (hsplit ▸ h.later)).2.2 v hearlier
        rw [consumed_eq_zero fun w hw => hnone w (List.mem_cons_of_mem _ hw),
          hnone u List.mem_cons_self]
        simp
      · have hall := hfeasible v
        unfold Shop.required Shop.produced at hall
        rw [if_neg hmem, hsplit, consumed_append, consumed_cons] at hall
        have hall' : (shop.goal v : ℤ) + (shop.consumed earlier batches v +
            (batches u * shop.takes u v + shop.consumed later batches v)) ≤ shop.stock v := by
          exact_mod_cast hall
        have hgoal : (0 : ℤ) ≤ shop.goal v := Int.natCast_nonneg _
        have hearlier : (0 : ℤ) ≤ shop.consumed earlier batches v := Int.natCast_nonneg _
        push_cast
        linarith

/-- **No good runs short** while the order is run backward: before each batch there is what it
takes. -/
theorem Planned.taken_nonneg (h : Planned shop order batches)
    (hfeasible : shop.Feasible order batches) (hsplit : order = earlier ++ u :: later) {n : ℕ}
    (hn : n < batches u) (v : V) : (shop.takes u v : ℤ) ≤ shop.during batches later u n v := by
  refine le_trans ?_ (h.remains hfeasible hsplit hn.le v)
  have hone : (1 : ℤ) ≤ ((batches u - n : ℕ) : ℤ) := by omega
  exact le_mul_of_one_le_left (Int.natCast_nonneg _) hone

/-- Before each batch of a good there is less of it than is needed. -/
theorem Planned.below (h : Planned shop order batches) (hsplit : order = earlier ++ u :: later)
    {n : ℕ} (hn : n < batches u) :
    shop.during batches later u n u < shop.required order batches u := by
  obtain ⟨_, hunodup, _⟩ := List.nodup_append.1 (hsplit ▸ h.nodup)
  obtain ⟨hu, hnodup⟩ := List.nodup_cons.1 hunodup
  have hmem : u ∈ order := hsplit ▸ by simp
  have hpair := List.pairwise_cons.1 (List.pairwise_append.1 (hsplit ▸ h.later)).2.1
  have hproduced : shop.produced later batches u = 0 := if_neg hu
  rw [during_eq shop batches hnodup, consumed_eq_zero hpair.1, h.itself u hmem, if_pos rfl,
    hproduced]
  have hless := (h.rounded u hmem (by omega)).2 n hn
  have hless' : (shop.stock u : ℤ) + n * shop.yields u < shop.required order batches u := by
    exact_mod_cast hless
  simpa using hless'

/-- **Every goal is met at the end.** -/
theorem Planned.goal_le (h : Planned shop order batches)
    (hfeasible : shop.Feasible order batches) (v : V) :
    (shop.goal v : ℤ) ≤ shop.run batches (fun v => shop.stock v) order.reverse v := by
  rw [run_eq shop batches _ (List.nodup_reverse.2 h.nodup), consumed_reverse, produced_reverse]
  have hall : (shop.goal v : ℤ) + shop.consumed order batches v ≤
      shop.stock v + shop.produced order batches v := by exact_mod_cast hfeasible v
  linarith

end Production
