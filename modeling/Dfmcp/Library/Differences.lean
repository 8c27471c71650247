import Mathlib

/-!
# Difference arrays

An interval is counted by two jumps, one up at its start and one down at its end; the sums of the jumps
up to a place are then how many intervals cover it. A box is counted by the products of the jumps of its
sides, which are summed along one axis after the other.

Counters are 64-bit words. `addAt?` and `scan?` fail (`none`) where an array is left or a counter
overflows.

* `inside_succ` — summing jumps gives the indicator of the interval;
* `scan?_eq` — what a pass along an axis leaves, if every value it leaves fits a counter;
* `sum_bounded` — sums of jumps and indicators are bounded by the number of summands.
-/

namespace Differences

/-- A value of a 64-bit counter. -/
def FitsCounter (value : Int) : Prop := -2 ^ 63 ≤ value ∧ value < 2 ^ 63

instance (value : Int) : Decidable (FitsCounter value) := inferInstanceAs (Decidable (_ ∧ _))

/-- Add to a cell. -/
def addAt? (cells : List Int) (index : Nat) (amount : Int) : Option (List Int) := do
  let value ← cells[index]?
  if FitsCounter (value + amount) then some (cells.set index (value + amount)) else none

/-- Add to several cells. -/
def addAll? (updates : List (Nat × Int)) (cells : List Int) : Option (List Int) :=
  updates.foldlM (fun cells update => addAt? cells update.1 update.2) cells

/-- The cell `step` before one. -/
def before? (step : Nat) (cells : List Int) (index : Nat) : Option Int :=
  if step ≤ index then cells[index - step]? else none

/-- Add to each cell, in turn, the one `step` before it. -/
def scan? (step : Nat) (indices : List Nat) (cells : List Int) : Option (List Int) :=
  indices.foldlM (fun cells index => do
    let before ← before? step cells index
    addAt? cells index before) cells

/-! ## Jumps -/

/-- One up where the interval starts, one down where it ends. -/
def jump (start stop x : Nat) : Int := (if x = start then 1 else 0) - if x = stop then 1 else 0

/-- Whether the interval covers a place. -/
def inside (start stop x : Nat) : Int := if start ≤ x ∧ x < stop then 1 else 0

variable {start stop x : Nat}

theorem inside_zero (h : start < stop) : inside start stop 0 = jump start stop 0 := by
  unfold inside jump
  split <;> split <;> split <;> omega

/-- **Summing jumps gives the indicator.** -/
theorem inside_succ (h : start < stop) (x : Nat) :
    inside start stop (x + 1) = jump start stop (x + 1) + inside start stop x := by
  unfold inside jump
  split <;> split <;> split <;> split <;> omega

theorem jump_ne_zero (h : jump start stop x ≠ 0) : x = start ∨ x = stop := by
  by_contra hno
  rw [not_or] at hno
  unfold jump at h
  rw [if_neg hno.1, if_neg hno.2] at h
  exact h rfl

theorem jump_bounded (h : start < stop) (x : Nat) :
    -1 ≤ jump start stop x ∧ jump start stop x ≤ 1 := by
  unfold jump
  split <;> split <;> omega

theorem inside_bounded (start stop x : Nat) :
    -1 ≤ inside start stop x ∧ inside start stop x ≤ 1 := by
  unfold inside
  split <;> omega

theorem mul_bounded {a b : Int} (ha : -1 ≤ a ∧ a ≤ 1) (hb : -1 ≤ b ∧ b ≤ 1) :
    -1 ≤ a * b ∧ a * b ≤ 1 := by
  have hcases : a = -1 ∨ a = 0 ∨ a = 1 := by omega
  rcases hcases with rfl | rfl | rfl
  · omega
  · omega
  · omega

/-- **Sums of small numbers are bounded by how many they are.** -/
theorem sum_bounded {α : Type} {l : List α} {f : α → Int} (h : ∀ a ∈ l, -1 ≤ f a ∧ f a ≤ 1) :
    -(l.length : Int) ≤ (l.map f).sum ∧ (l.map f).sum ≤ l.length := by
  induction l with
  | nil => simp
  | cons a l ih =>
      have ha := h a List.mem_cons_self
      have hl := ih fun b hb => h b (List.mem_cons_of_mem a hb)
      rw [List.map_cons, List.sum_cons, List.length_cons]
      push_cast
      omega

theorem sum_fits {α : Type} {l : List α} {f : α → Int} (h : ∀ a ∈ l, -1 ≤ f a ∧ f a ≤ 1)
    (hlen : l.length < 2 ^ 63) : FitsCounter (l.map f).sum := by
  have hsum := sum_bounded h
  unfold FitsCounter
  omega

/-! ## Cells -/

/-- An addition that fits, at a cell of the array. -/
theorem addAt?_eq {cells : List Int} {index : Nat} {amount : Int} (hindex : index < cells.length)
    (hfits : FitsCounter (cells.getD index 0 + amount)) :
    addAt? cells index amount = some (cells.set index (cells.getD index 0 + amount)) := by
  have hget : cells[index]? = some (cells.getD index 0) := by
    rw [List.getD_eq_getElem?_getD, List.getElem?_eq_getElem hindex]
    rfl
  unfold addAt?
  rw [hget]
  exact if_pos hfits

theorem getD_set {cells : List Int} {index : Nat} {value : Int} (hindex : index < cells.length)
    (i : Nat) : (cells.set index value).getD i 0 = if i = index then value else cells.getD i 0 := by
  rw [List.getD_eq_getElem?_getD, List.getD_eq_getElem?_getD, List.getElem?_set]
  by_cases h : index = i
  · subst h
    simp [hindex]
  · rw [if_neg h, if_neg (Ne.symm h)]

/-- **Additions to different cells.** -/
theorem addAll?_eq {updates : List (Nat × Int)} {cells : List Int}
    (hnodup : (updates.map Prod.fst).Nodup) (hrange : ∀ u ∈ updates, u.1 < cells.length)
    (hfits : ∀ u ∈ updates, FitsCounter (cells.getD u.1 0 + u.2)) :
    ∃ cells', addAll? updates cells = some cells' ∧ cells'.length = cells.length ∧
      (∀ u ∈ updates, cells'.getD u.1 0 = cells.getD u.1 0 + u.2) ∧
      ∀ i, i ∉ updates.map Prod.fst → cells'.getD i 0 = cells.getD i 0 := by
  induction updates generalizing cells with
  | nil => exact ⟨cells, rfl, rfl, fun u hu => absurd hu List.not_mem_nil, fun i _ => rfl⟩
  | cons update updates ih =>
      rw [List.map_cons, List.nodup_cons] at hnodup
      have hindex := hrange update List.mem_cons_self
      have hother : ∀ u ∈ updates, u.1 ≠ update.1 := fun u hu heq =>
        hnodup.1 (heq ▸ List.mem_map_of_mem hu)
      have hadd := addAt?_eq hindex (hfits update List.mem_cons_self)
      obtain ⟨cells', hall, hlen, hnew, hold⟩ :=
        @ih (cells.set update.1 (cells.getD update.1 0 + update.2)) hnodup.2
          (fun u hu => by
            rw [List.length_set]
            exact hrange u (List.mem_cons_of_mem _ hu))
          (fun u hu => by
            rw [getD_set hindex, if_neg (hother u hu)]
            exact hfits u (List.mem_cons_of_mem _ hu))
      rw [List.length_set] at hlen
      refine ⟨cells', ?_, hlen, fun u hu => ?_, fun i hi => ?_⟩
      · rw [← hall]
        unfold addAll?
        rw [List.foldlM_cons, hadd]
        rfl
      · rcases List.mem_cons.1 hu with rfl | hu
        · rw [hold _ hnodup.1, getD_set hindex, if_pos rfl]
        · rw [hnew u hu, getD_set hindex, if_neg (hother u hu)]
      · rw [List.map_cons, List.mem_cons, not_or] at hi
        rw [hold i hi.2, getD_set hindex, if_neg hi.1]

/-- **A pass along an axis.** `after` is what the pass should leave: at the cells it does not visit
what was there, and at the others that and the cell before. -/
theorem scan?_eq {step : Nat} {indices : List Nat} {cells : List Int} {after : Nat → Int}
    (hstep : 0 < step) (hsorted : indices.Pairwise (· < ·))
    (hrange : ∀ i ∈ indices, step ≤ i ∧ i < cells.length)
    (hout : ∀ i < cells.length, i ∉ indices → cells.getD i 0 = after i)
    (hin : ∀ i ∈ indices, after i = cells.getD i 0 + after (i - step))
    (hfits : ∀ i ∈ indices, FitsCounter (after i)) :
    ∃ cells', scan? step indices cells = some cells' ∧ cells'.length = cells.length ∧
      ∀ i < cells.length, cells'.getD i 0 = after i := by
  induction indices generalizing cells with
  | nil => exact ⟨cells, rfl, rfl, fun i hi => hout i hi (List.not_mem_nil)⟩
  | cons index indices ih =>
      obtain ⟨hfirst, hsorted⟩ := List.pairwise_cons.1 hsorted
      obtain ⟨hle, hindex⟩ := hrange index List.mem_cons_self
      -- the cell before was settled, for the indices ascend
      have hbefore : cells.getD (index - step) 0 = after (index - step) := by
        refine hout _ (by omega) fun hmem => ?_
        rcases List.mem_cons.1 hmem with heq | hmem
        · omega
        · have := hfirst _ hmem
          omega
      have hvalue : cells.getD index 0 + after (index - step) = after index :=
        (hin index List.mem_cons_self).symm
      have hnotMem : index ∉ indices := fun hmem => Nat.lt_irrefl _ (hfirst index hmem)
      have hadd : addAt? cells index (after (index - step)) = some (cells.set index (after index)) := by
        rw [addAt?_eq hindex (by rw [hvalue]; exact hfits index List.mem_cons_self), hvalue]
      have hread : before? step cells index = some (after (index - step)) := by
        rw [before?, if_pos hle, ← hbefore, List.getD_eq_getElem?_getD, List.getElem?_eq_getElem (by omega)]
        rfl
      obtain ⟨cells', hscan, hlen, hvalues⟩ := @ih (cells.set index (after index)) hsorted
        (fun i hi => by
          rw [List.length_set]
          exact hrange i (List.mem_cons_of_mem _ hi))
        (fun i hi hmem => by
          rw [List.length_set] at hi
          rw [getD_set hindex]
          by_cases h : i = index
          · rw [if_pos h, h]
          · rw [if_neg h]
            exact hout i hi fun hcons => (List.mem_cons.1 hcons).elim h hmem)
        (fun i hi => by
          rw [getD_set hindex, if_neg fun h : i = index => hnotMem (h ▸ hi)]
          exact hin i (List.mem_cons_of_mem _ hi))
        (fun i hi => hfits i (List.mem_cons_of_mem _ hi))
      rw [List.length_set] at hlen hvalues
      refine ⟨cells', ?_, hlen, hvalues⟩
      rw [← hscan]
      unfold scan?
      rw [List.foldlM_cons, hread]
      change (addAt? cells index (after (index - step)) >>= _) = _
      rw [hadd]
      rfl

/-! ## Arrays over a box -/

/-- The cell of a place, row by row and level by level, in an array one wider and higher than the
box. -/
def flat (width height x y z : Nat) : Nat := z * ((width + 1) * (height + 1)) + y * (width + 1) + x

section Flat

variable {width height depth x y z : Nat}

theorem flat_eq (width height x y z : Nat) :
    flat width height x y z = x + (width + 1) * (y + (height + 1) * z) := by
  unfold flat
  ring

theorem flat_mod (hx : x ≤ width) : flat width height x y z % (width + 1) = x := by
  rw [flat_eq, Nat.add_mul_mod_self_left, Nat.mod_eq_of_lt (by omega)]

theorem flat_div (hx : x ≤ width) : flat width height x y z / (width + 1) =
    y + (height + 1) * z := by
  rw [flat_eq, Nat.add_mul_div_left _ _ (Nat.succ_pos _), Nat.div_eq_of_lt (by omega), Nat.zero_add]

theorem flat_y (hx : x ≤ width) (hy : y ≤ height) :
    flat width height x y z / (width + 1) % (height + 1) = y := by
  rw [flat_div hx, Nat.add_mul_mod_self_left, Nat.mod_eq_of_lt (by omega)]

theorem flat_z (hx : x ≤ width) (hy : y ≤ height) :
    flat width height x y z / (width + 1) / (height + 1) = z := by
  rw [flat_div hx, Nat.add_mul_div_left _ _ (Nat.succ_pos _), Nat.div_eq_of_lt (by omega),
    Nat.zero_add]

theorem flat_lt (hx : x ≤ width) (hy : y ≤ height) (hz : z ≤ depth) :
    flat width height x y z < (width + 1) * (height + 1) * (depth + 1) := by
  have hrow : y + (height + 1) * z + 1 ≤ (height + 1) * (depth + 1) := by
    have hlevel := Nat.mul_le_mul_left (height + 1) hz
    rw [Nat.mul_add_one (height + 1) depth]
    omega
  have hcell := Nat.mul_le_mul_left (width + 1) hrow
  rw [Nat.mul_add_one (width + 1)] at hcell
  rw [flat_eq, Nat.mul_assoc]
  omega

/-- Every cell is that of a place. -/
theorem exists_flat {i : Nat} (hi : i < (width + 1) * (height + 1) * (depth + 1)) :
    ∃ x y z, x ≤ width ∧ y ≤ height ∧ z ≤ depth ∧ i = flat width height x y z := by
  refine ⟨i % (width + 1), i / (width + 1) % (height + 1), i / (width + 1) / (height + 1), ?_, ?_, ?_,
    ?_⟩
  · exact Nat.le_of_lt_succ (Nat.mod_lt _ (Nat.succ_pos _))
  · exact Nat.le_of_lt_succ (Nat.mod_lt _ (Nat.succ_pos _))
  · refine Nat.le_of_lt_succ (Nat.div_lt_of_lt_mul (Nat.div_lt_of_lt_mul ?_))
    rwa [← Nat.mul_assoc]
  · rw [flat_eq, Nat.mod_add_div, Nat.mod_add_div]

end Flat

/-- The array holds these values, at every place of a box. -/
structure Holds (width height depth : Nat) (cells : List Int) (value : Nat → Nat → Nat → Int) :
    Prop where
  length : cells.length = (width + 1) * (height + 1) * (depth + 1)
  values : ∀ x y z, x ≤ width → y ≤ height → z ≤ depth →
    cells.getD (flat width height x y z) 0 = value x y z

namespace Holds

variable {width height depth : Nat} {cells : List Int} {value : Nat → Nat → Nat → Int}

/-- **Additions to different places.** -/
theorem add (h : Holds width height depth cells value) {updates : List (Nat × Int)}
    {amount : Nat → Nat → Nat → Int} (hnodup : (updates.map Prod.fst).Nodup)
    (hsound : ∀ u ∈ updates, ∃ x y z, (x ≤ width ∧ y ≤ height ∧ z ≤ depth) ∧
      u = (flat width height x y z, amount x y z))
    (hcomplete : ∀ x y z, amount x y z ≠ 0 → flat width height x y z ∈ updates.map Prod.fst)
    (hfits : ∀ x y z, FitsCounter (value x y z + amount x y z)) :
    ∃ cells', addAll? updates cells = some cells' ∧
      Holds width height depth cells' fun x y z => value x y z + amount x y z := by
  have hrange : ∀ u ∈ updates, u.1 < cells.length := by
    intro u hu
    obtain ⟨x, y, z, ⟨hx, hy, hz⟩, rfl⟩ := hsound u hu
    rw [h.length]
    exact flat_lt hx hy hz
  obtain ⟨cells', hall, hlen, hnew, hold⟩ := addAll?_eq hnodup hrange fun u hu => by
    obtain ⟨x, y, z, ⟨hx, hy, hz⟩, rfl⟩ := hsound u hu
    rw [h.values x y z hx hy hz]
    exact hfits x y z
  refine ⟨cells', hall, ⟨hlen.trans h.length, fun x y z hx hy hz => ?_⟩⟩
  by_cases hmem : flat width height x y z ∈ updates.map Prod.fst
  · obtain ⟨u, hu, heq⟩ := List.mem_map.1 hmem
    obtain ⟨x', y', z', ⟨hx', hy', hz'⟩, rfl⟩ := hsound u hu
    dsimp only at heq
    obtain rfl : x' = x := by
      rw [← @flat_mod _ height _ y' z' hx', heq, flat_mod hx]
    obtain rfl : y' = y := by
      rw [← flat_y (z := z') hx' hy', heq, flat_y hx hy]
    obtain rfl : z' = z := by
      rw [← flat_z (z := z') hx' hy', heq, flat_z hx hy]
    rw [← h.values x' y' z' hx hy hz]
    exact hnew _ hu
  · rw [hold _ hmem, h.values x y z hx hy hz]
    have hzero : amount x y z = 0 := by
      by_contra hne
      exact hmem (hcomplete x y z hne)
    rw [hzero, Int.add_zero]

/-- One place is given another value. -/
theorem set (h : Holds width height depth cells value) {x y z : Nat} (hx : x ≤ width)
    (hy : y ≤ height) (hz : z ≤ depth) (new : Int) {after : Nat → Nat → Nat → Int}
    (hnew : after x y z = new)
    (hold : ∀ x' y' z', z' ≤ depth → ¬ (x' = x ∧ y' = y ∧ z' = z) →
      after x' y' z' = value x' y' z') :
    Holds width height depth (cells.set (flat width height x y z) new) after := by
  refine ⟨by rw [List.length_set, h.length], fun x' y' z' hx' hy' hz' => ?_⟩
  rw [getD_set (by rw [h.length]; exact flat_lt hx hy hz)]
  by_cases hsame : x' = x ∧ y' = y ∧ z' = z
  · obtain ⟨rfl, rfl, rfl⟩ := hsame
    rw [if_pos rfl, hnew]
  · rw [if_neg, h.values x' y' z' hx' hy' hz', hold x' y' z' hz' hsame]
    intro heq
    refine hsame ⟨?_, ?_, ?_⟩
    · rw [← @flat_mod _ height _ y' z' hx', heq, flat_mod hx]
    · rw [← flat_y (z := z') hx' hy', heq, flat_y hx hy]
    · rw [← flat_z (z := z') hx' hy', heq, flat_z hx hy]

end Holds

/-- A loop over a range, step by step. -/
theorem foldlM_range {σ : Type} {step : σ → Nat → Option σ} {P : Nat → σ → Prop} {n : Nat} {s : σ}
    (hstart : P 0 s) (hstep : ∀ k < n, ∀ s, P k s → ∃ s', step s k = some s' ∧ P (k + 1) s') :
    ∃ s', (List.range n).foldlM step s = some s' ∧ P n s' := by
  induction n with
  | zero => exact ⟨s, rfl, hstart⟩
  | succ n ih =>
      obtain ⟨s', hfold, hs'⟩ := ih fun k hk => hstep k (Nat.lt_succ_of_lt hk)
      obtain ⟨s'', hlast, hs''⟩ := hstep n (Nat.lt_succ_self n) s' hs'
      refine ⟨s'', ?_, hs''⟩
      rw [List.range_succ, List.foldlM_append, hfold]
      change List.foldlM step s' [n] = _
      rw [List.foldlM_cons, hlast]
      rfl

/-- A loop whose steps fail at times does, if it does not fail, what the loop without failures
does. -/
theorem foldl_of_foldlM {σ α : Type} {step? : σ → α → Option σ} {step : σ → α → σ}
    (hstep : ∀ s a t, step? s a = some t → step s a = t) {l : List α} {s t : σ}
    (h : l.foldlM step? s = some t) : l.foldl step s = t := by
  induction l generalizing s with
  | nil => exact Option.some.inj h
  | cons a l ih =>
      rw [List.foldlM_cons] at h
      cases hhead : step? s a with
      | none =>
          rw [hhead] at h
          cases h
      | some u =>
          rw [hhead] at h
          rw [List.foldl_cons, hstep s a u hhead]
          exact ih h

theorem addAt?_some {cells cells' : List Int} {index : Nat} {amount : Int}
    (h : addAt? cells index amount = some cells') : cells.modify index (· + amount) = cells' := by
  unfold addAt? at h
  cases hget : cells[index]? with
  | none =>
      rw [hget] at h
      cases h
  | some value =>
      rw [hget] at h
      change (if FitsCounter (value + amount) then some (cells.set index (value + amount)) else none) =
        some cells' at h
      by_cases hfits : FitsCounter (value + amount)
      · rw [if_pos hfits] at h
        rw [List.modify_eq_set_getElem?, hget]
        exact Option.some.inj h
      · rw [if_neg hfits] at h
        cases h

/-- The cells of some places, by level, row and column. -/
def boxCells (width height : Nat) (xs ys zs : List Nat) : List Nat :=
  zs.flatMap fun z => ys.flatMap fun y => xs.map fun x => flat width height x y z

section Places

variable {width height depth : Nat} {xs ys zs : List Nat}

theorem mem_boxCells {i : Nat} : i ∈ boxCells width height xs ys zs ↔
    ∃ x ∈ xs, ∃ y ∈ ys, ∃ z ∈ zs, flat width height x y z = i := by
  unfold boxCells
  simp only [List.mem_flatMap, List.mem_map]
  constructor
  · rintro ⟨z, hz, y, hy, x, hx, rfl⟩
    exact ⟨x, hx, y, hy, z, hz, rfl⟩
  · rintro ⟨x, hx, y, hy, z, hz, rfl⟩
    exact ⟨z, hz, y, hy, x, hx, rfl⟩

/-- The cells ascend. -/
theorem boxCells_sorted (hxs : xs.Pairwise (· < ·)) (hys : ys.Pairwise (· < ·))
    (hzs : zs.Pairwise (· < ·)) (hx : ∀ x ∈ xs, x ≤ width) (hy : ∀ y ∈ ys, y ≤ height) :
    (boxCells width height xs ys zs).Pairwise (· < ·) := by
  unfold boxCells
  refine List.pairwise_flatMap.2 ⟨fun z _ => List.pairwise_flatMap.2 ⟨fun y _ => ?_, ?_⟩, ?_⟩
  · refine List.pairwise_map.2 (hxs.imp fun hlt => ?_)
    unfold flat
    omega
  · refine hys.imp fun {y y'} hlt i hi j hj => ?_
    obtain ⟨x, hxmem, rfl⟩ := List.mem_map.1 hi
    obtain ⟨x', -, rfl⟩ := List.mem_map.1 hj
    have hrow := Nat.mul_le_mul_right (width + 1) (Nat.succ_le_of_lt hlt)
    have hle := hx x hxmem
    rw [Nat.succ_mul] at hrow
    unfold flat
    omega
  · refine hzs.imp fun {z z'} hlt i hi j hj => ?_
    obtain ⟨y, hymem, hi⟩ := List.mem_flatMap.1 hi
    obtain ⟨y', -, hj⟩ := List.mem_flatMap.1 hj
    obtain ⟨x, hxmem, rfl⟩ := List.mem_map.1 hi
    obtain ⟨x', -, rfl⟩ := List.mem_map.1 hj
    have hlevel := Nat.mul_le_mul_right ((width + 1) * (height + 1)) (Nat.succ_le_of_lt hlt)
    have hcell := flat_lt (z := 0) (hx x hxmem) (hy y hymem) (le_refl 0)
    rw [Nat.succ_mul] at hlevel
    unfold flat at hcell ⊢
    omega

theorem range_sorted (n : Nat) : (List.range n).Pairwise (· < ·) := List.pairwise_lt_range

theorem from1_sorted (n : Nat) : ((List.range n).map (· + 1)).Pairwise (· < ·) :=
  List.pairwise_map.2 ((range_sorted n).imp fun hlt => Nat.succ_lt_succ hlt)

theorem mem_from1 {n x : Nat} : x ∈ (List.range n).map (· + 1) ↔ 1 ≤ x ∧ x ≤ n := by
  rw [List.mem_map]
  constructor
  · rintro ⟨y, hy, rfl⟩
    rw [List.mem_range] at hy
    omega
  · intro h
    exact ⟨x - 1, List.mem_range.2 (by omega), by omega⟩

end Places

namespace Holds

variable {width height depth : Nat} {cells : List Int} {value after : Nat → Nat → Nat → Int}
  {xs ys zs : List Nat} {step : Nat}

/-- **A pass over the places of a box.** -/
theorem scan (h : Holds width height depth cells value) (hstep : 0 < step)
    (hxs : xs.Pairwise (· < ·)) (hys : ys.Pairwise (· < ·)) (hzs : zs.Pairwise (· < ·))
    (hx : ∀ x ∈ xs, x ≤ width) (hy : ∀ y ∈ ys, y ≤ height) (hz : ∀ z ∈ zs, z ≤ depth)
    (hback : ∀ x ∈ xs, ∀ y ∈ ys, ∀ z ∈ zs, ∃ x' y' z',
      (x' ≤ width ∧ y' ≤ height ∧ z' ≤ depth) ∧
        flat width height x y z = flat width height x' y' z' + step ∧
          after x y z = value x y z + after x' y' z')
    (hstay : ∀ x y z, x ≤ width → y ≤ height → z ≤ depth → ¬ (x ∈ xs ∧ y ∈ ys ∧ z ∈ zs) →
      value x y z = after x y z)
    (hfits : ∀ x y z, FitsCounter (after x y z)) :
    ∃ cells', scan? step (boxCells width height xs ys zs) cells = some cells' ∧
      Holds width height depth cells' after := by
  let spread (i : Nat) : Int :=
    after (i % (width + 1)) (i / (width + 1) % (height + 1)) (i / (width + 1) / (height + 1))
  have hspread : ∀ x y z, x ≤ width → y ≤ height →
      spread (flat width height x y z) = after x y z := by
    intro x y z hx hy
    simp only [spread, flat_mod hx, flat_y hx hy, flat_z hx hy]
  have hrange : ∀ i ∈ boxCells width height xs ys zs, step ≤ i ∧ i < cells.length := by
    intro i hi
    obtain ⟨x, hxm, y, hym, z, hzm, rfl⟩ := mem_boxCells.1 hi
    obtain ⟨x', y', z', -, hflat, -⟩ := hback x hxm y hym z hzm
    rw [h.length]
    exact ⟨by omega, flat_lt (hx x hxm) (hy y hym) (hz z hzm)⟩
  have hout : ∀ i < cells.length, i ∉ boxCells width height xs ys zs →
      cells.getD i 0 = spread i := by
    intro i hi hmem
    rw [h.length] at hi
    obtain ⟨x, y, z, hxle, hyle, hzle, rfl⟩ := exists_flat hi
    rw [h.values x y z hxle hyle hzle, hspread x y z hxle hyle]
    refine hstay x y z hxle hyle hzle fun ⟨hxm, hym, hzm⟩ => hmem ?_
    exact mem_boxCells.2 ⟨x, hxm, y, hym, z, hzm, rfl⟩
  have hin : ∀ i ∈ boxCells width height xs ys zs,
      spread i = cells.getD i 0 + spread (i - step) := by
    intro i hi
    obtain ⟨x, hxm, y, hym, z, hzm, rfl⟩ := mem_boxCells.1 hi
    obtain ⟨x', y', z', ⟨hx', hy', -⟩, hflat, hafter⟩ := hback x hxm y hym z hzm
    rw [hspread x y z (hx x hxm) (hy y hym), h.values x y z (hx x hxm) (hy y hym) (hz z hzm), hafter,
      hflat, Nat.add_sub_cancel, hspread x' y' z' hx' hy']
  obtain ⟨cells', hscan, hlen, hvalues⟩ := scan?_eq hstep (boxCells_sorted hxs hys hzs hx hy) hrange
    hout hin fun i _ => hfits _ _ _
  refine ⟨cells', hscan, hlen.trans h.length, fun x y z hx hy hz => ?_⟩
  rw [hvalues _ (by rw [h.length]; exact flat_lt hx hy hz), hspread x y z hx hy]

end Holds

/-! ## Boxes in an array -/

/-- The two jumps of an interval. -/
def ends (start stop : Nat) : List (Nat × Int) := [(start, 1), (stop, -1)]

theorem mem_ends {start stop : Nat} (h : start < stop) {p : Nat × Int} :
    p ∈ ends start stop ↔ p.2 = jump start stop p.1 ∧ p.2 ≠ 0 := by
  obtain ⟨x, sign⟩ := p
  simp only [ends, List.mem_cons, Prod.mk.injEq, List.not_mem_nil, or_false, jump]
  by_cases hstart : x = start
  · subst hstart
    rw [if_pos rfl, if_neg (Nat.ne_of_lt h)]
    omega
  · by_cases hstop : x = stop
    · subst hstop
      rw [if_neg hstart, if_pos rfl]
      omega
    · rw [if_neg hstart, if_neg hstop]
      omega

theorem le_of_mem_ends {start stop : Nat} (h : start < stop) {p : Nat × Int}
    (hp : p ∈ ends start stop) : p.1 ≤ stop := by
  simp only [ends, List.mem_cons, List.not_mem_nil, or_false] at hp
  rcases hp with rfl | rfl
  · exact h.le
  · exact le_rfl

theorem ends_nodup {start stop : Nat} (h : start < stop) : (ends start stop).Nodup := by
  simp [ends, h.ne]

/-- The corners of a box, with the products of their jumps. -/
def corners (width height x₀ x₁ y₀ y₁ z₀ z₁ : Nat) : List (Nat × Int) :=
  ((ends x₀ x₁).product ((ends y₀ y₁).product (ends z₀ z₁))).map fun c =>
    (flat width height c.1.1 c.2.1.1 c.2.2.1, c.1.2 * c.2.1.2 * c.2.2.2)

namespace Holds

variable {width height depth x₀ x₁ y₀ y₁ z₀ z₁ : Nat} {cells : List Int}
  {value : Nat → Nat → Nat → Int}

/-- **A box is added by its corners.** -/
theorem addBox (h : Holds width height depth cells value) (hx : x₀ < x₁ ∧ x₁ ≤ width)
    (hy : y₀ < y₁ ∧ y₁ ≤ height) (hz : z₀ < z₁ ∧ z₁ ≤ depth)
    (hfits : ∀ x y z, FitsCounter (value x y z + jump x₀ x₁ x * jump y₀ y₁ y * jump z₀ z₁ z)) :
    ∃ cells', addAll? (corners width height x₀ x₁ y₀ y₁ z₀ z₁) cells = some cells' ∧
      Holds width height depth cells' fun x y z =>
        value x y z + jump x₀ x₁ x * jump y₀ y₁ y * jump z₀ z₁ z := by
  refine h.add ?_ ?_ ?_ hfits
  · rw [corners, List.map_map]
    refine List.Nodup.map_on ?_ ((ends_nodup hx.1).product ((ends_nodup hy.1).product
      (ends_nodup hz.1)))
    rintro ⟨a, b, c⟩ habc ⟨a', b', c'⟩ habc' heq
    simp only [List.pair_mem_product] at habc habc'
    have hxle := (le_of_mem_ends hx.1 habc.1).trans hx.2
    have hxle' := (le_of_mem_ends hx.1 habc'.1).trans hx.2
    have hyle := (le_of_mem_ends hy.1 habc.2.1).trans hy.2
    have hyle' := (le_of_mem_ends hy.1 habc'.2.1).trans hy.2
    simp only [Function.comp_apply] at heq
    have hxeq := congrArg (· % (width + 1)) heq
    have hyeq := congrArg (· / (width + 1) % (height + 1)) heq
    have hzeq := congrArg (· / (width + 1) / (height + 1)) heq
    simp only [flat_mod hxle, flat_mod hxle'] at hxeq
    simp only [flat_y hxle hyle, flat_y hxle' hyle'] at hyeq
    simp only [flat_z hxle hyle, flat_z hxle' hyle'] at hzeq
    have hsign : a.2 = a'.2 := by
      rw [((mem_ends hx.1).1 habc.1).1, ((mem_ends hx.1).1 habc'.1).1, hxeq]
    have hsign' : b.2 = b'.2 := by
      rw [((mem_ends hy.1).1 habc.2.1).1, ((mem_ends hy.1).1 habc'.2.1).1, hyeq]
    have hsign'' : c.2 = c'.2 := by
      rw [((mem_ends hz.1).1 habc.2.2).1, ((mem_ends hz.1).1 habc'.2.2).1, hzeq]
    rw [Prod.ext hxeq hsign, Prod.ext hyeq hsign', Prod.ext hzeq hsign'']
  · intro u hu
    obtain ⟨⟨a, b, c⟩, habc, rfl⟩ := List.mem_map.1 hu
    simp only [List.pair_mem_product] at habc
    refine ⟨a.1, b.1, c.1, ⟨(le_of_mem_ends hx.1 habc.1).trans hx.2,
      (le_of_mem_ends hy.1 habc.2.1).trans hy.2, (le_of_mem_ends hz.1 habc.2.2).trans hz.2⟩, ?_⟩
    rw [((mem_ends hx.1).1 habc.1).1, ((mem_ends hy.1).1 habc.2.1).1,
      ((mem_ends hz.1).1 habc.2.2).1]
  · intro x y z hne
    have hne' := left_ne_zero_of_mul hne
    refine List.mem_map.2 ⟨_, List.mem_map.2 ⟨((x, jump x₀ x₁ x), (y, jump y₀ y₁ y),
      (z, jump z₀ z₁ z)), ?_, rfl⟩, rfl⟩
    rw [List.pair_mem_product, List.pair_mem_product]
    exact ⟨(mem_ends hx.1).2 ⟨rfl, left_ne_zero_of_mul hne'⟩,
      (mem_ends hy.1).2 ⟨rfl, right_ne_zero_of_mul hne'⟩,
      (mem_ends hz.1).2 ⟨rfl, right_ne_zero_of_mul hne⟩⟩

end Holds

end Differences
