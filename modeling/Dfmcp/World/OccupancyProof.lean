import Dfmcp.World.AccessProof
import Dfmcp.World.Occupancy

/-!
# Difference arrays count footprints

A footprint is stamped by its corners, clipped to the area, and the sums of the stamps are how many
footprints cover a tile. No array is left and no counter overflows on the way.

* `PairedStairsGrid.occupied?_eq` — the three-dimensional version;
* `Grid.occupied?_eq` — the version of one level;
* `occupancy_exact` — both flags are "some footprint covers this tile".
-/

namespace Dfmcp

open Machine Differences

namespace LaboratoryAccess

/-! ## One axis -/

section Axis

variable {lo hi flo fhi t : S 32}

/-- Where a footprint starts in an area, counted from its corner. -/
def clipStart (lo flo : S 32) : Nat := ((max flo lo).val - lo.val).toNat

/-- Where it stops. -/
def clipStop (lo hi fhi : S 32) : Nat := ((min fhi hi).val - lo.val).toNat + 1

theorem max_val (a b : S 32) : (max a b).val = max a.val b.val := by
  rcases le_total a b with h | h
  · rw [max_eq_right h, max_eq_right (show a.val ≤ b.val from h)]
  · rw [max_eq_left h, max_eq_left (show b.val ≤ a.val from h)]

theorem min_val (a b : S 32) : (min a b).val = min a.val b.val := by
  rcases le_total a b with h | h
  · rw [min_eq_left h, min_eq_left (show a.val ≤ b.val from h)]
  · rw [min_eq_right h, min_eq_right (show b.val ≤ a.val from h)]

/-- A clipped side is not empty, and in the area. -/
theorem clip_lt (h : max flo lo ≤ min fhi hi) :
    clipStart lo flo < clipStop lo hi fhi ∧ clipStop lo hi fhi ≤ extent lo hi := by
  have hle : (max flo lo).val ≤ (min fhi hi).val := h
  rw [max_val, min_val] at hle
  unfold clipStart clipStop extent
  rw [max_val, min_val]
  omega

/-- A clipped side covers what the footprint covers of the area. -/
theorem inside_clip (h : max flo lo ≤ min fhi hi) (ht : lo.val ≤ t.val ∧ t.val ≤ hi.val) :
    inside (clipStart lo flo) (clipStop lo hi fhi) (t.val - lo.val).toNat =
      if flo.val ≤ t.val ∧ t.val ≤ fhi.val then 1 else 0 := by
  have hle : (max flo lo).val ≤ (min fhi hi).val := h
  rw [max_val, min_val] at hle
  unfold inside clipStart clipStop
  rw [max_val, min_val]
  by_cases hcover : flo.val ≤ t.val ∧ t.val ≤ fhi.val
  · rw [if_pos hcover, if_pos (by omega)]
  · rw [if_neg hcover, if_neg (by omega)]

end Axis

/-- Some footprint, if the indicators of all add up to more than nothing. -/
theorem sum_indicators_pos {α : Type} {l : List α} {p : α → Bool} :
    0 < (l.map fun a => if p a then (1 : Int) else 0).sum ↔ ∃ a ∈ l, p a = true := by
  have hnonneg : ∀ l : List α, 0 ≤ (l.map fun a => if p a then (1 : Int) else 0).sum := by
    intro l
    refine List.sum_nonneg fun x hx => ?_
    obtain ⟨a, -, rfl⟩ := List.mem_map.1 hx
    split <;> omega
  induction l with
  | nil => simp
  | cons a l ih =>
      have hl := hnonneg l
      rw [List.map_cons, List.sum_cons]
      cases ha : p a with
      | true => simp [ha]; omega
      | false => simp [ha, ih]

namespace PairedStairsGrid

section Paired

variable {area : MapCuboid} {cells : List Int} {value : Nat → Nat → Nat → Int} {f : MapCuboid}

/-- A footprint has tiles in the area. -/
def Meets (area f : MapCuboid) : Prop :=
  max f.min.x area.min.x ≤ min f.max.x area.max.x ∧
    max f.min.y area.min.y ≤ min f.max.y area.max.y ∧
      max f.min.z area.min.z ≤ min f.max.z area.max.z

instance (area f : MapCuboid) : Decidable (Meets area f) := inferInstanceAs (Decidable (_ ∧ _))

/-- What a footprint adds to a place while the jumps of its sides are given by these functions. -/
def share (area : MapCuboid) (alongX alongY alongZ : Nat → Nat → Nat → Int) (x y z : Nat)
    (f : MapCuboid) : Int :=
  if Meets area f then
    alongX (clipStart area.min.x f.min.x) (clipStop area.min.x area.max.x f.max.x) x *
      alongY (clipStart area.min.y f.min.y) (clipStop area.min.y area.max.y f.max.y) y *
        alongZ (clipStart area.min.z f.min.z) (clipStop area.min.z area.max.z f.max.z) z
  else 0

/-- What all footprints add to a place. -/
def total (area : MapCuboid) (alongX alongY alongZ : Nat → Nat → Nat → Int)
    (footprints : List MapCuboid) (x y z : Nat) : Int :=
  (footprints.map (share area alongX alongY alongZ x y z)).sum

theorem index_of_meets (h : Meets area f) :
    (pairedGridOf area).index ⟨max f.min.x area.min.x, max f.min.y area.min.y,
        max f.min.z area.min.z⟩ =
      some ((clipStart area.min.z f.min.z * (pairedGridOf area).height +
        clipStart area.min.y f.min.y) * (pairedGridOf area).width +
          clipStart area.min.x f.min.x) ∧
    (pairedGridOf area).index ⟨min f.max.x area.max.x, min f.max.y area.max.y,
        min f.max.z area.max.z⟩ =
      some (((clipStop area.min.z area.max.z f.max.z - 1) * (pairedGridOf area).height +
        (clipStop area.min.y area.max.y f.max.y - 1)) * (pairedGridOf area).width +
          (clipStop area.min.x area.max.x f.max.x - 1)) := by
  obtain ⟨hx, hy, hz⟩ := h
  have hcontains : area.contains ⟨max f.min.x area.min.x, max f.min.y area.min.y,
      max f.min.z area.min.z⟩ = true := by
    simp only [MapCuboid.contains, Bool.and_eq_true, decide_eq_true_eq, ge_iff_le]
    exact ⟨⟨⟨⟨⟨le_max_right _ _, hx.trans (min_le_right _ _)⟩, le_max_right _ _⟩,
      hy.trans (min_le_right _ _)⟩, le_max_right _ _⟩, hz.trans (min_le_right _ _)⟩
  have hcontains' : area.contains ⟨min f.max.x area.max.x, min f.max.y area.max.y,
      min f.max.z area.max.z⟩ = true := by
    simp only [MapCuboid.contains, Bool.and_eq_true, decide_eq_true_eq, ge_iff_le]
    exact ⟨⟨⟨⟨⟨(le_max_right _ _).trans hx, min_le_right _ _⟩, (le_max_right _ _).trans hy⟩,
      min_le_right _ _⟩, (le_max_right _ _).trans hz⟩, min_le_right _ _⟩
  constructor
  · unfold PairedStairsGrid.index pairedGridOf
    dsimp only
    rw [hcontains, Bool.not_true, if_neg Bool.false_ne_true]
    rfl
  · unfold PairedStairsGrid.index pairedGridOf
    dsimp only
    rw [hcontains', Bool.not_true, if_neg Bool.false_ne_true]
    simp only [clipStop, Nat.add_sub_cancel]

/-- The parts of a cell number. -/
theorem parts {x y z width height : Nat} (hx : x < width) (hy : y < height) :
    ((z * height + y) * width + x) % width = x ∧
      ((z * height + y) * width + x) / width % height = y ∧
        ((z * height + y) * width + x) / (width * height) = z := by
  have hdiv : ((z * height + y) * width + x) / width = z * height + y := by
    rw [Nat.add_comm, Nat.add_mul_div_right _ _ (by omega), Nat.div_eq_of_lt hx, Nat.zero_add]
  refine ⟨?_, ?_, ?_⟩
  · rw [Nat.add_comm, Nat.add_mul_mod_self_right, Nat.mod_eq_of_lt hx]
  · rw [hdiv, Nat.add_comm, Nat.add_mul_mod_self_right, Nat.mod_eq_of_lt hy]
  · rw [← Nat.div_div_eq_div_mul, hdiv, Nat.add_comm, Nat.add_mul_div_right _ _ (by omega),
      Nat.div_eq_of_lt hy, Nat.zero_add]

/-- **A stamp adds the share of its footprint.** -/
theorem stamp?_eq (h : Holds (pairedGridOf area).width (pairedGridOf area).height
      (pairedGridOf area).depth cells value)
    (hfits : ∀ x y z, FitsCounter (value x y z + share area jump jump jump x y z f)) :
    ∃ cells', (pairedGridOf area).stamp? cells f = some cells' ∧
      Holds (pairedGridOf area).width (pairedGridOf area).height (pairedGridOf area).depth cells'
        fun x y z => value x y z + share area jump jump jump x y z f := by
  by_cases hmeets : Meets area f
  · obtain ⟨hstart, hstop⟩ := index_of_meets hmeets
    have hx : clipStart area.min.x f.min.x < clipStop area.min.x area.max.x f.max.x ∧
      clipStop area.min.x area.max.x f.max.x ≤ (pairedGridOf area).width := clip_lt hmeets.1
    have hy : clipStart area.min.y f.min.y < clipStop area.min.y area.max.y f.max.y ∧
      clipStop area.min.y area.max.y f.max.y ≤ (pairedGridOf area).height := clip_lt hmeets.2.1
    have hz : clipStart area.min.z f.min.z < clipStop area.min.z area.max.z f.max.z ∧
      clipStop area.min.z area.max.z f.max.z ≤ (pairedGridOf area).depth := clip_lt hmeets.2.2
    simp only [share, if_pos hmeets] at hfits ⊢
    obtain ⟨cells', hadd, hholds⟩ := h.addBox hx hy hz hfits
    refine ⟨cells', ?_, hholds⟩
    rw [← hadd]
    have hguard : ¬ ((max f.min.x area.min.x) > (min f.max.x area.max.x) ∨
        (max f.min.y area.min.y) > (min f.max.y area.max.y) ∨
          (max f.min.z area.min.z) > (min f.max.z area.max.z)) := by
      simp only [gt_iff_lt, not_or, not_lt]
      exact hmeets
    unfold stamp?
    dsimp only
    rw [show (pairedGridOf area).area = area from rfl, if_neg hguard, hstart, hstop]
    obtain ⟨hx₀, hy₀, hz₀⟩ := parts (z := clipStart area.min.z f.min.z) (hx.1.trans_le hx.2)
      (hy.1.trans_le hy.2)
    obtain ⟨hx₁, hy₁, hz₁⟩ := parts (x := clipStop area.min.x area.max.x f.max.x - 1)
      (y := clipStop area.min.y area.max.y f.max.y - 1)
      (z := clipStop area.min.z area.max.z f.max.z - 1) (by omega : _ < (pairedGridOf area).width)
      (by omega : _ < (pairedGridOf area).height)
    dsimp only
    rw [hx₀, hy₀, hz₀, hx₁, hy₁, hz₁, Nat.sub_add_cancel (by omega), Nat.sub_add_cancel (by omega),
      Nat.sub_add_cancel (by omega)]
    rfl
  · simp only [share, if_neg hmeets, Int.add_zero]
    refine ⟨cells, ?_, h⟩
    unfold stamp?
    dsimp only
    rw [if_pos]
    by_contra hno
    simp only [gt_iff_lt, not_or, not_lt] at hno
    exact hmeets hno

/-! ### Totals -/

/-- Functions of an interval whose values are small. -/
def Small (F : Nat → Nat → Nat → Int) : Prop :=
  ∀ start stop x, start < stop → -1 ≤ F start stop x ∧ F start stop x ≤ 1

theorem small_jump : Small jump := fun _ _ x h => jump_bounded h x

theorem small_inside : Small inside := fun start stop x _ => inside_bounded start stop x

section Totals

variable {F G H F' : Nat → Nat → Nat → Int} {footprints : List MapCuboid} {x y z : Nat}

theorem share_bounded (hF : Small F) (hG : Small G) (hH : Small H) (f : MapCuboid) :
    -1 ≤ share area F G H x y z f ∧ share area F G H x y z f ≤ 1 := by
  unfold share
  by_cases hmeets : Meets area f
  · rw [if_pos hmeets]
    exact mul_bounded (mul_bounded (hF _ _ x (clip_lt hmeets.1).1) (hG _ _ y (clip_lt hmeets.2.1).1))
      (hH _ _ z (clip_lt hmeets.2.2).1)
  · rw [if_neg hmeets]
    omega

theorem total_fits (hF : Small F) (hG : Small G) (hH : Small H)
    (hlen : footprints.length < 2 ^ 63) : FitsCounter (total area F G H footprints x y z) :=
  sum_fits (fun f _ => share_bounded hF hG hH f) hlen

theorem total_append (f : MapCuboid) : total area F G H (footprints ++ [f]) x y z =
    total area F G H footprints x y z + share area F G H x y z f := by
  unfold total
  rw [List.map_append, List.sum_append, List.map_singleton, List.sum_singleton]

/-- Equal shares make equal totals. -/
theorem total_congr {x' y' z' : Nat} {F' G' H' : Nat → Nat → Nat → Int}
    (h : ∀ f, Meets area f → share area F G H x y z f = share area F' G' H' x' y' z' f) :
    total area F G H footprints x y z = total area F' G' H' footprints x' y' z' := by
  unfold total
  refine congrArg List.sum (List.map_congr_left fun f _ => ?_)
  by_cases hmeets : Meets area f
  · exact h f hmeets
  · rw [share, share, if_neg hmeets, if_neg hmeets]

/-- Shares that add up make totals that add up. -/
theorem total_add {x' y' z' : Nat} {F' G' H' F'' G'' H'' : Nat → Nat → Nat → Int} {x'' y'' z'' : Nat}
    (h : ∀ f, Meets area f → share area F G H x y z f =
      share area F' G' H' x' y' z' f + share area F'' G'' H'' x'' y'' z'' f) :
    total area F G H footprints x y z = total area F' G' H' footprints x' y' z' +
      total area F'' G'' H'' footprints x'' y'' z'' := by
  unfold total
  rw [← List.sum_map_add]
  refine congrArg List.sum (List.map_congr_left fun f _ => ?_)
  by_cases hmeets : Meets area f
  · exact h f hmeets
  · simp only [share, if_neg hmeets]
    rfl

end Totals

variable (area) in
/-- The array of a grid holds the totals of these functions. -/
abbrev Counts (cells : List Int) (F G H : Nat → Nat → Nat → Int) (footprints : List MapCuboid) :
    Prop :=
  Holds (pairedGridOf area).width (pairedGridOf area).height (pairedGridOf area).depth cells
    (total area F G H footprints)

/-- **All stamps.** -/
theorem stamps_eq {done rest : List MapCuboid} (h : Counts area cells jump jump jump done)
    (hlen : (done ++ rest).length < 2 ^ 63) :
    ∃ cells', rest.foldlM (pairedGridOf area).stamp? cells = some cells' ∧
      Counts area cells' jump jump jump (done ++ rest) := by
  induction rest generalizing done cells with
  | nil => exact ⟨cells, rfl, by rwa [List.append_nil]⟩
  | cons f rest ih =>
      rw [List.append_cons] at hlen ⊢
      have hdone : (done ++ [f]).length < 2 ^ 63 := by
        rw [List.length_append] at hlen
        omega
      obtain ⟨stamped, hstamp, hholds⟩ := stamp?_eq (f := f) h fun x y z => by
        rw [← total_append]
        exact total_fits small_jump small_jump small_jump hdone
      have hcounts : Counts area stamped jump jump jump (done ++ [f]) :=
        ⟨hholds.length, fun x y z hx hy hz => by rw [hholds.values x y z hx hy hz, total_append]⟩
      obtain ⟨cells', hrest, hcells'⟩ := ih hcounts hlen
      refine ⟨cells', ?_, hcells'⟩
      rw [List.foldlM_cons, hstamp]
      exact hrest

theorem counts_nil : Counts area
    (List.replicate (((pairedGridOf area).width + 1) * ((pairedGridOf area).height + 1) *
      ((pairedGridOf area).depth + 1)) 0) jump jump jump [] := by
  refine ⟨List.length_replicate, fun x y z _ _ _ => ?_⟩
  rw [List.getD_eq_getElem?_getD, List.getElem?_replicate]
  split <;> rfl

/-- The sums along the first axis. -/
theorem scan_x {footprints : List MapCuboid} (h : Counts area cells jump jump jump footprints)
    (hlen : footprints.length < 2 ^ 63) :
    ∃ cells', scan? 1 (boxCells (pairedGridOf area).width (pairedGridOf area).height
        ((List.range (pairedGridOf area).width).map (· + 1))
        (List.range ((pairedGridOf area).height + 1)) (List.range ((pairedGridOf area).depth + 1)))
        cells = some cells' ∧ Counts area cells' inside jump jump footprints := by
  refine h.scan Nat.one_pos (from1_sorted _) (range_sorted _) (range_sorted _)
    (fun x hx => (mem_from1.1 hx).2) (fun y hy => Nat.le_of_lt_succ (List.mem_range.1 hy))
    (fun z hz => Nat.le_of_lt_succ (List.mem_range.1 hz)) ?_ ?_
    fun x y z => total_fits small_inside small_jump small_jump hlen
  · intro x hx y hy z hz
    have hx := mem_from1.1 hx
    have hy := List.mem_range.1 hy
    have hz := List.mem_range.1 hz
    obtain ⟨k, rfl⟩ : ∃ k, x = k + 1 := ⟨x - 1, by omega⟩
    refine ⟨k, y, z, ⟨by omega, by omega, by omega⟩, rfl, total_add fun f hmeets => ?_⟩
    simp only [share, if_pos hmeets, inside_succ (clip_lt hmeets.1).1]
    ring
  · intro x y z hx hy hz hno
    have hzero : x = 0 := by
      by_contra hpos
      exact hno ⟨mem_from1.2 ⟨Nat.pos_of_ne_zero hpos, hx⟩, List.mem_range.2 (Nat.lt_succ_of_le hy),
        List.mem_range.2 (Nat.lt_succ_of_le hz)⟩
    subst hzero
    refine total_congr fun f hmeets => ?_
    simp only [share, if_pos hmeets, inside_zero (clip_lt hmeets.1).1]

/-- The sums along the second axis. -/
theorem scan_y {footprints : List MapCuboid} (h : Counts area cells inside jump jump footprints)
    (hlen : footprints.length < 2 ^ 63) :
    ∃ cells', scan? ((pairedGridOf area).width + 1)
        (boxCells (pairedGridOf area).width (pairedGridOf area).height
        (List.range ((pairedGridOf area).width + 1))
        ((List.range (pairedGridOf area).height).map (· + 1))
        (List.range ((pairedGridOf area).depth + 1)))
        cells = some cells' ∧ Counts area cells' inside inside jump footprints := by
  refine h.scan (Nat.succ_pos _) (range_sorted _) (from1_sorted _) (range_sorted _)
    (fun x hx => Nat.le_of_lt_succ (List.mem_range.1 hx)) (fun y hy => (mem_from1.1 hy).2)
    (fun z hz => Nat.le_of_lt_succ (List.mem_range.1 hz)) ?_ ?_
    fun x y z => total_fits small_inside small_inside small_jump hlen
  · intro x hx y hy z hz
    have hx := List.mem_range.1 hx
    have hy := mem_from1.1 hy
    have hz := List.mem_range.1 hz
    obtain ⟨k, rfl⟩ : ∃ k, y = k + 1 := ⟨y - 1, by omega⟩
    refine ⟨x, k, z, ⟨by omega, by omega, by omega⟩, ?_, total_add fun f hmeets => ?_⟩
    · unfold flat
      ring
    · simp only [share, if_pos hmeets, inside_succ (clip_lt hmeets.2.1).1]
      ring
  · intro x y z hx hy hz hno
    have hzero : y = 0 := by
      by_contra hpos
      exact hno ⟨List.mem_range.2 (Nat.lt_succ_of_le hx), mem_from1.2 ⟨Nat.pos_of_ne_zero hpos, hy⟩,
        List.mem_range.2 (Nat.lt_succ_of_le hz)⟩
    subst hzero
    refine total_congr fun f hmeets => ?_
    simp only [share, if_pos hmeets, inside_zero (clip_lt hmeets.2.1).1]

/-- The sums along the third axis. -/
theorem scan_z {footprints : List MapCuboid} (h : Counts area cells inside inside jump footprints)
    (hlen : footprints.length < 2 ^ 63) :
    ∃ cells', scan? (((pairedGridOf area).width + 1) * ((pairedGridOf area).height + 1))
        (boxCells (pairedGridOf area).width (pairedGridOf area).height
        (List.range ((pairedGridOf area).width + 1))
        (List.range ((pairedGridOf area).height + 1))
        ((List.range (pairedGridOf area).depth).map (· + 1)))
        cells = some cells' ∧ Counts area cells' inside inside inside footprints := by
  refine h.scan (Nat.mul_pos (Nat.succ_pos _) (Nat.succ_pos _)) (range_sorted _) (range_sorted _)
    (from1_sorted _) (fun x hx => Nat.le_of_lt_succ (List.mem_range.1 hx))
    (fun y hy => Nat.le_of_lt_succ (List.mem_range.1 hy)) (fun z hz => (mem_from1.1 hz).2) ?_ ?_
    fun x y z => total_fits small_inside small_inside small_inside hlen
  · intro x hx y hy z hz
    have hx := List.mem_range.1 hx
    have hy := List.mem_range.1 hy
    have hz := mem_from1.1 hz
    obtain ⟨k, rfl⟩ : ∃ k, z = k + 1 := ⟨z - 1, by omega⟩
    refine ⟨x, y, k, ⟨by omega, by omega, by omega⟩, ?_, total_add fun f hmeets => ?_⟩
    · unfold flat
      ring
    · simp only [share, if_pos hmeets, inside_succ (clip_lt hmeets.2.2).1]
      ring
  · intro x y z hx hy hz hno
    have hzero : z = 0 := by
      by_contra hpos
      exact hno ⟨List.mem_range.2 (Nat.lt_succ_of_le hx), List.mem_range.2 (Nat.lt_succ_of_le hy),
        mem_from1.2 ⟨Nat.pos_of_ne_zero hpos, hz⟩⟩
    subst hzero
    refine total_congr fun f hmeets => ?_
    simp only [share, if_pos hmeets, inside_zero (clip_lt hmeets.2.2).1]

/-! ### The flags -/

/-- **A footprint counts once for each tile it covers.** -/
theorem share_tile {tile : MapCoord} (htile : area.contains tile = true) (f : MapCuboid) :
    share area inside inside inside (tile.x.val - area.min.x.val).toNat
      (tile.y.val - area.min.y.val).toNat (tile.z.val - area.min.z.val).toNat f =
        if f.contains tile then 1 else 0 := by
  obtain ⟨hx, hy, hz⟩ := contains_bounds htile
  unfold share
  by_cases hmeets : Meets area f
  · rw [if_pos hmeets, inside_clip hmeets.1 hx, inside_clip hmeets.2.1 hy, inside_clip hmeets.2.2 hz]
    by_cases hcontains : f.contains tile = true
    · obtain ⟨hx', hy', hz'⟩ := contains_bounds hcontains
      rw [if_pos hx', if_pos hy', if_pos hz', if_pos hcontains]
      rfl
    · rw [if_neg hcontains]
      simp only [MapCuboid.contains, Bool.and_eq_true, decide_eq_true_eq, ge_iff_le] at hcontains
      by_cases hx' : f.min.x.val ≤ tile.x.val ∧ tile.x.val ≤ f.max.x.val
      · by_cases hy' : f.min.y.val ≤ tile.y.val ∧ tile.y.val ≤ f.max.y.val
        · have hz' : ¬ (f.min.z.val ≤ tile.z.val ∧ tile.z.val ≤ f.max.z.val) := fun hz' =>
            hcontains ⟨⟨⟨⟨⟨hx'.1, hx'.2⟩, hy'.1⟩, hy'.2⟩, hz'.1⟩, hz'.2⟩
          rw [if_neg hz', Int.mul_zero]
        · rw [if_neg hy', Int.mul_zero, Int.zero_mul]
      · rw [if_neg hx', Int.zero_mul, Int.zero_mul]
  · rw [if_neg hmeets, if_neg]
    intro hcontains
    obtain ⟨hx', hy', hz'⟩ := contains_bounds hcontains
    refine hmeets ⟨?_, ?_, ?_⟩
    · exact le_min (max_le (hx'.1.trans hx'.2) (hx.1.trans hx'.2)) (max_le (hx'.1.trans hx.2)
        (hx.1.trans hx.2))
    · exact le_min (max_le (hy'.1.trans hy'.2) (hy.1.trans hy'.2)) (max_le (hy'.1.trans hy.2)
        (hy.1.trans hy.2))
    · exact le_min (max_le (hz'.1.trans hz'.2) (hz.1.trans hz'.2)) (max_le (hz'.1.trans hz.2)
        (hz.1.trans hz.2))

theorem total_tile {tile : MapCoord} (htile : area.contains tile = true)
    (footprints : List MapCuboid) :
    decide (0 < total area inside inside inside footprints (tile.x.val - area.min.x.val).toNat
      (tile.y.val - area.min.y.val).toNat (tile.z.val - area.min.z.val).toNat) =
        footprints.any fun f => f.contains tile := by
  have htotal : total area inside inside inside footprints (tile.x.val - area.min.x.val).toNat
      (tile.y.val - area.min.y.val).toNat (tile.z.val - area.min.z.val).toNat =
        (footprints.map fun f => if f.contains tile then (1 : Int) else 0).sum :=
    congrArg List.sum (List.map_congr_left fun f _ => share_tile htile f)
  rw [htotal, Bool.eq_iff_iff, decide_eq_true_eq, sum_indicators_pos, List.any_eq_true]

/-- The parts of a list that is made of parts of one length. -/
theorem getElem?_flatMap_range {α : Type} {part : Nat → List α} {n m i j : Nat}
    (hlen : ∀ k < n, (part k).length = m) (hi : i < n) (hj : j < m) :
    ((List.range n).flatMap part)[i * m + j]? = (part i)[j]? := by
  induction n with
  | zero => omega
  | succ n ih =>
      have hfirst : ((List.range n).flatMap part).length = n * m := by
        rw [List.length_flatMap, List.map_congr_left fun k hk =>
          hlen k (Nat.lt_succ_of_lt (List.mem_range.1 hk))]
        simp
      rw [List.range_succ, List.flatMap_append, List.flatMap_singleton]
      rcases Nat.lt_or_eq_of_le (Nat.le_of_lt_succ hi) with hlt | rfl
      · have hle := Nat.mul_le_mul_right m (Nat.succ_le_of_lt hlt)
        rw [Nat.succ_mul] at hle
        rw [List.getElem?_append_left (by omega)]
        exact ih (fun k hk => hlen k (Nat.lt_succ_of_lt hk)) hlt
      · rw [List.getElem?_append_right (by omega), hfirst, Nat.add_sub_cancel_left]

/-- The cells of a box, read in the order of its tiles. -/
theorem getElem?_boxCells {w h width height depth x y z : Nat} (hx : x < width) (hy : y < height)
    (hz : z < depth) :
    (boxCells w h (List.range width) (List.range height) (List.range depth))[
      (z * height + y) * width + x]? = some (flat w h x y z) := by
  have hrow : ∀ y z, ((List.range width).map fun x => flat w h x y z).length = width := by
    intro y z
    rw [List.length_map, List.length_range]
  have hlevel : ∀ z, ((List.range height).flatMap fun y =>
      (List.range width).map fun x => flat w h x y z).length = height * width := by
    intro z
    rw [List.length_flatMap, List.map_congr_left fun y _ => hrow y z]
    simp
  have hcell : y * width + x < height * width := by
    have hle := Nat.mul_le_mul_right width (Nat.succ_le_of_lt hy)
    rw [Nat.succ_mul] at hle
    omega
  have hindex : (z * height + y) * width + x = z * (height * width) + (y * width + x) := by
    rw [Nat.add_mul, Nat.mul_assoc, Nat.add_assoc]
  unfold boxCells
  rw [hindex, getElem?_flatMap_range (fun k _ => hlevel k) hz hcell,
    getElem?_flatMap_range (fun k _ => hrow k z) hy hx, List.getElem?_map,
    List.getElem?_range hx]
  rfl

theorem mapM_eq_map {α β : Type} {l : List α} {f : α → Option β} {g : α → β}
    (h : ∀ a ∈ l, f a = some (g a)) : l.mapM f = some (l.map g) := by
  induction l with
  | nil => rfl
  | cons a l ih =>
      rw [List.mapM_cons, h a List.mem_cons_self, ih fun b hb => h b (List.mem_cons_of_mem a hb)]
      rfl

/-- **The three-dimensional version fails nowhere, and its flags are exact.** -/
theorem occupied?_eq (area : MapCuboid) {footprints : List MapCuboid}
    (hlen : footprints.length < 2 ^ 63) :
    ∃ flags, (pairedGridOf area).occupied? footprints = some flags ∧
      ∀ tile, area.contains tile = true → ∃ i, (pairedGridOf area).index tile = some i ∧
        flags[i]? = some (footprints.any fun f => f.contains tile) := by
  obtain ⟨stamped, hstamped, hstamps⟩ := @stamps_eq area _ _ footprints counts_nil
    hlen
  rw [List.nil_append] at hstamps
  obtain ⟨alongX, hx, hcountsX⟩ := scan_x hstamps hlen
  obtain ⟨alongY, hy, hcountsY⟩ := scan_y hcountsX hlen
  obtain ⟨alongZ, hz, hcountsZ⟩ := scan_z hcountsY hlen
  have hread : ∀ i ∈ (pairedGridOf area).cells (List.range (pairedGridOf area).width)
      (List.range (pairedGridOf area).height) (List.range (pairedGridOf area).depth),
      (do
        let value ← alongZ[i]?
        some (decide (value > 0))) = some (decide (alongZ.getD i 0 > 0)) := by
    intro i hi
    obtain ⟨x, hxm, y, hym, z, hzm, rfl⟩ := mem_boxCells.1 hi
    rw [List.mem_range] at hxm hym hzm
    rw [List.getD_eq_getElem?_getD, List.getElem?_eq_getElem]
    · rfl
    · rw [hcountsZ.length]
      exact flat_lt hxm.le hym.le hzm.le
  refine ⟨((pairedGridOf area).cells (List.range (pairedGridOf area).width)
      (List.range (pairedGridOf area).height) (List.range (pairedGridOf area).depth)).map
        fun i => decide (alongZ.getD i 0 > 0), ?_, fun tile htile => ?_⟩
  · unfold occupied?
    dsimp only
    rw [hstamped]
    change (scan? 1 (boxCells _ _ _ _ _) stamped >>= _) = _
    rw [hx]
    change (scan? ((pairedGridOf area).width + 1) (boxCells _ _ _ _ _) alongX >>= _) = _
    rw [hy]
    change (scan? _ (boxCells _ _ _ _ _) alongY >>= _) = _
    rw [hz]
    exact mapM_eq_map hread
  · obtain ⟨⟨hx, hx'⟩, ⟨hy, hy'⟩, ⟨hz, hz'⟩⟩ := contains_bounds htile
    have hwidth : (tile.x.val - area.min.x.val).toNat < (pairedGridOf area).width := by
      show _ < (area.max.x.val - area.min.x.val + 1).toNat
      omega
    have hheight : (tile.y.val - area.min.y.val).toNat < (pairedGridOf area).height := by
      show _ < (area.max.y.val - area.min.y.val + 1).toNat
      omega
    have hdepth : (tile.z.val - area.min.z.val).toNat < (pairedGridOf area).depth := by
      show _ < (area.max.z.val - area.min.z.val + 1).toNat
      omega
    refine ⟨((tile.z.val - area.min.z.val).toNat * (pairedGridOf area).height +
      (tile.y.val - area.min.y.val).toNat) * (pairedGridOf area).width +
        (tile.x.val - area.min.x.val).toNat, ?_, ?_⟩
    · unfold PairedStairsGrid.index
      rw [show (pairedGridOf area).area = area from rfl, htile, Bool.not_true,
        if_neg Bool.false_ne_true]
    · rw [List.getElem?_map]
      change ((boxCells _ _ _ _ _)[_]?).map _ = _
      rw [getElem?_boxCells hwidth hheight hdepth, Option.map_some,
        hcountsZ.values _ _ _ hwidth.le hheight.le hdepth.le]
      exact congrArg some (total_tile htile footprints)

end Paired

end PairedStairsGrid

/-! ## One level -/

namespace Grid

section Single

variable {area : MapCuboid} {cells : List Int} {f : MapCuboid} {F G : Nat → Nat → Nat → Int}
  {footprints : List MapCuboid} {x y : Nat}

/-- A footprint has tiles in the level of the area. -/
def Meets (area f : MapCuboid) : Prop :=
  (f.min.z ≤ area.min.z ∧ area.min.z ≤ f.max.z) ∧
    max f.min.x area.min.x ≤ min f.max.x area.max.x ∧
      max f.min.y area.min.y ≤ min f.max.y area.max.y

instance (area f : MapCuboid) : Decidable (Meets area f) := inferInstanceAs (Decidable (_ ∧ _))

/-- What a footprint adds to a place. -/
def share (area : MapCuboid) (alongX alongY : Nat → Nat → Nat → Int) (x y : Nat) (f : MapCuboid) :
    Int :=
  if Meets area f then
    alongX (clipStart area.min.x f.min.x) (clipStop area.min.x area.max.x f.max.x) x *
      alongY (clipStart area.min.y f.min.y) (clipStop area.min.y area.max.y f.max.y) y
  else 0

/-- What all footprints add to a place. -/
def total (area : MapCuboid) (alongX alongY : Nat → Nat → Nat → Int)
    (footprints : List MapCuboid) (x y : Nat) : Int :=
  (footprints.map (share area alongX alongY x y)).sum

theorem share_bounded (hF : PairedStairsGrid.Small F) (hG : PairedStairsGrid.Small G)
    (f : MapCuboid) : -1 ≤ share area F G x y f ∧ share area F G x y f ≤ 1 := by
  unfold share
  by_cases hmeets : Meets area f
  · rw [if_pos hmeets]
    exact mul_bounded (hF _ _ x (clip_lt hmeets.2.1).1) (hG _ _ y (clip_lt hmeets.2.2).1)
  · rw [if_neg hmeets]
    omega

theorem total_fits (hF : PairedStairsGrid.Small F) (hG : PairedStairsGrid.Small G)
    (hlen : footprints.length < 2 ^ 63) : FitsCounter (total area F G footprints x y) :=
  sum_fits (fun f _ => share_bounded hF hG f) hlen

theorem total_append (f : MapCuboid) : total area F G (footprints ++ [f]) x y =
    total area F G footprints x y + share area F G x y f := by
  unfold total
  rw [List.map_append, List.sum_append, List.map_singleton, List.sum_singleton]

theorem total_congr {x' y' : Nat} {F' G' : Nat → Nat → Nat → Int}
    (h : ∀ f, Meets area f → share area F G x y f = share area F' G' x' y' f) :
    total area F G footprints x y = total area F' G' footprints x' y' := by
  unfold total
  refine congrArg List.sum (List.map_congr_left fun f _ => ?_)
  by_cases hmeets : Meets area f
  · exact h f hmeets
  · rw [share, share, if_neg hmeets, if_neg hmeets]

theorem total_add {x' y' x'' y'' : Nat} {F' G' F'' G'' : Nat → Nat → Nat → Int}
    (h : ∀ f, Meets area f → share area F G x y f =
      share area F' G' x' y' f + share area F'' G'' x'' y'' f) :
    total area F G footprints x y = total area F' G' footprints x' y' +
      total area F'' G'' footprints x'' y'' := by
  unfold total
  rw [← List.sum_map_add]
  refine congrArg List.sum (List.map_congr_left fun f _ => ?_)
  by_cases hmeets : Meets area f
  · exact h f hmeets
  · simp only [share, if_neg hmeets]
    rfl

theorem index_of_meets (h : Meets area f) (harea : area.min.z ≤ area.max.z) :
    (gridOf area).index ⟨max f.min.x area.min.x, max f.min.y area.min.y, area.min.z⟩ =
      some (clipStart area.min.y f.min.y * (gridOf area).width + clipStart area.min.x f.min.x) ∧
    (gridOf area).index ⟨min f.max.x area.max.x, min f.max.y area.max.y, area.min.z⟩ =
      some ((clipStop area.min.y area.max.y f.max.y - 1) * (gridOf area).width +
        (clipStop area.min.x area.max.x f.max.x - 1)) := by
  obtain ⟨-, hx, hy⟩ := h
  have hcontains : area.contains ⟨max f.min.x area.min.x, max f.min.y area.min.y,
      area.min.z⟩ = true := by
    simp only [MapCuboid.contains, Bool.and_eq_true, decide_eq_true_eq, ge_iff_le]
    exact ⟨⟨⟨⟨⟨le_max_right _ _, hx.trans (min_le_right _ _)⟩, le_max_right _ _⟩,
      hy.trans (min_le_right _ _)⟩, le_rfl⟩, harea⟩
  have hcontains' : area.contains ⟨min f.max.x area.max.x, min f.max.y area.max.y,
      area.min.z⟩ = true := by
    simp only [MapCuboid.contains, Bool.and_eq_true, decide_eq_true_eq, ge_iff_le]
    exact ⟨⟨⟨⟨⟨(le_max_right _ _).trans hx, min_le_right _ _⟩, (le_max_right _ _).trans hy⟩,
      min_le_right _ _⟩, le_rfl⟩, harea⟩
  constructor
  · unfold Grid.index gridOf
    dsimp only
    rw [hcontains, Bool.not_true, if_neg Bool.false_ne_true]
    rfl
  · unfold Grid.index gridOf
    dsimp only
    rw [hcontains', Bool.not_true, if_neg Bool.false_ne_true]
    simp only [clipStop, Nat.add_sub_cancel]

variable (area) in
/-- The array of a grid holds these values. -/
abbrev Counts (cells : List Int) (value : Nat → Nat → Int) : Prop :=
  Holds (gridOf area).width (gridOf area).height 0 cells fun x y _ => value x y

/-- The four corners of a rectangle, in the order in which they are stamped. -/
theorem add_corners {w h x₀ x₁ y₀ y₁ : Nat} {value : Nat → Nat → Int}
    (hholds : Holds w h 0 cells fun x y _ => value x y) (hx : x₀ < x₁ ∧ x₁ ≤ w)
    (hy : y₀ < y₁ ∧ y₁ ≤ h)
    (hfits : ∀ x y, FitsCounter (value x y + jump x₀ x₁ x * jump y₀ y₁ y))
    (hvalue : ∀ x y, FitsCounter (value x y)) :
    ∃ cells', addAll? [(flat w h x₀ y₀ 0, 1), (flat w h x₁ y₀ 0, -1), (flat w h x₀ y₁ 0, -1),
        (flat w h x₁ y₁ 0, 1)] cells = some cells' ∧
      Holds w h 0 cells' fun x y _ => value x y + jump x₀ x₁ x * jump y₀ y₁ y := by
  have hends : jump x₀ x₁ x₀ = 1 ∧ jump x₀ x₁ x₁ = -1 ∧ jump y₀ y₁ y₀ = 1 ∧ jump y₀ y₁ y₁ = -1 := by
    refine ⟨?_, ?_, ?_, ?_⟩ <;> unfold jump <;> split <;> split <;> omega
  obtain ⟨hx₀, hx₁, hy₀, hy₁⟩ := hends
  let updates : List (Nat × Int) := [(flat w h x₀ y₀ 0, 1), (flat w h x₁ y₀ 0, -1),
    (flat w h x₀ y₁ 0, -1), (flat w h x₁ y₁ 0, 1)]
  let amount (x y z : Nat) : Int := if z = 0 then jump x₀ x₁ x * jump y₀ y₁ y else 0
  have hnodup : (updates.map Prod.fst).Nodup := by
    have hrow := Nat.mul_le_mul_right (w + 1) (Nat.succ_le_of_lt hy.1)
    rw [Nat.succ_mul] at hrow
    refine List.Pairwise.imp (R := (· < ·)) Nat.ne_of_lt ?_
    simp only [updates, List.map_cons, List.map_nil, List.pairwise_cons, List.mem_cons,
      List.not_mem_nil, or_false, forall_eq_or_imp, forall_eq, false_implies, implies_true, and_true,
      List.Pairwise.nil, flat]
    omega
  have hsound : ∀ u ∈ updates, ∃ x y z, (x ≤ w ∧ y ≤ h ∧ z ≤ 0) ∧ u = (flat w h x y z, amount x y z) := by
    intro u hu
    simp only [updates, List.mem_cons, List.not_mem_nil, or_false] at hu
    rcases hu with rfl | rfl | rfl | rfl
    · exact ⟨x₀, y₀, 0, ⟨by omega, by omega, le_rfl⟩, by simp [amount, hx₀, hy₀]⟩
    · exact ⟨x₁, y₀, 0, ⟨by omega, by omega, le_rfl⟩, by simp [amount, hx₁, hy₀]⟩
    · exact ⟨x₀, y₁, 0, ⟨by omega, by omega, le_rfl⟩, by simp [amount, hx₀, hy₁]⟩
    · exact ⟨x₁, y₁, 0, ⟨by omega, by omega, le_rfl⟩, by simp [amount, hx₁, hy₁]⟩
  have hcomplete : ∀ x y z, amount x y z ≠ 0 → flat w h x y z ∈ updates.map Prod.fst := by
    intro x y z hne
    by_cases hz : z = 0
    · simp only [amount, if_pos hz] at hne
      have hxs := jump_ne_zero (left_ne_zero_of_mul hne)
      have hys := jump_ne_zero (right_ne_zero_of_mul hne)
      subst hz
      rcases hxs with rfl | rfl <;> rcases hys with rfl | rfl <;> simp [updates]
    · simp only [amount, if_neg hz] at hne
      exact absurd rfl hne
  have hamount : ∀ x y z, FitsCounter (value x y + amount x y z) := by
    intro x y z
    by_cases hz : z = 0
    · simp only [amount, if_pos hz]
      exact hfits x y
    · simp only [amount, if_neg hz, Int.add_zero]
      exact hvalue x y
  obtain ⟨cells', hadd, hcells⟩ := hholds.add hnodup hsound hcomplete hamount
  refine ⟨cells', hadd, hcells.length, fun x y z hx hy hz => ?_⟩
  rw [hcells.values x y z hx hy hz]
  simp only [amount, if_pos (Nat.le_zero.1 hz)]

/-- The parts of a cell number. -/
theorem parts {x y width : Nat} (hx : x < width) :
    (y * width + x) % width = x ∧ (y * width + x) / width = y := by
  constructor
  · rw [Nat.add_comm, Nat.add_mul_mod_self_right, Nat.mod_eq_of_lt hx]
  · rw [Nat.add_comm, Nat.add_mul_div_right _ _ (by omega), Nat.div_eq_of_lt hx, Nat.zero_add]

theorem flat_zero (w h x y : Nat) : flat w h x y 0 = y * (w + 1) + x := by
  rw [flat, Nat.zero_mul, Nat.zero_add]

/-- A footprint that misses the area is not stamped. -/
theorem stamp?_skip (h : ¬ Meets area f) : (gridOf area).stamp? cells f = some cells := by
  unfold stamp?
  dsimp only
  by_cases hlevel : f.min.z > (gridOf area).area.min.z ∨ f.max.z < (gridOf area).area.min.z
  · rw [if_pos hlevel]
  · rw [if_neg hlevel]
    cases (gridOf area).index ⟨max f.min.x (gridOf area).area.min.x,
      max f.min.y (gridOf area).area.min.y, (gridOf area).area.min.z⟩ with
    | none => rfl
    | some start =>
        cases (gridOf area).index ⟨min f.max.x (gridOf area).area.max.x,
          min f.max.y (gridOf area).area.max.y, (gridOf area).area.min.z⟩ with
        | none => rfl
        | some stop =>
            refine if_pos ?_
            by_contra hno
            simp only [gt_iff_lt, not_or, not_lt] at hno hlevel
            exact h ⟨hlevel, hno⟩

/-- **A stamp adds the share of its footprint.** -/
theorem stamp?_eq (harea : area.min.z ≤ area.max.z) {value : Nat → Nat → Int}
    (h : Counts area cells value) (hvalue : ∀ x y, FitsCounter (value x y))
    (hfits : ∀ x y, FitsCounter (value x y + share area jump jump x y f)) :
    ∃ cells', (gridOf area).stamp? cells f = some cells' ∧
      Counts area cells' fun x y => value x y + share area jump jump x y f := by
  by_cases hmeets : Meets area f
  · obtain ⟨hstart, hstop⟩ := index_of_meets hmeets harea
    have hx : clipStart area.min.x f.min.x < clipStop area.min.x area.max.x f.max.x ∧
      clipStop area.min.x area.max.x f.max.x ≤ (gridOf area).width := clip_lt hmeets.2.1
    have hy : clipStart area.min.y f.min.y < clipStop area.min.y area.max.y f.max.y ∧
      clipStop area.min.y area.max.y f.max.y ≤ (gridOf area).height := clip_lt hmeets.2.2
    simp only [share, if_pos hmeets] at hfits ⊢
    obtain ⟨cells', hadd, hholds⟩ := add_corners h hx hy hfits hvalue
    refine ⟨cells', ?_, hholds⟩
    rw [← hadd]
    have hlevel : ¬ (f.min.z > area.min.z ∨ f.max.z < area.min.z) := by
      simp only [gt_iff_lt, not_or, not_lt]
      exact hmeets.1
    have hguard : ¬ ((max f.min.x area.min.x) > (min f.max.x area.max.x) ∨
        (max f.min.y area.min.y) > (min f.max.y area.max.y)) := by
      simp only [gt_iff_lt, not_or, not_lt]
      exact hmeets.2
    unfold stamp?
    dsimp only
    rw [show (gridOf area).area = area from rfl, if_neg hlevel, hstart, hstop]
    dsimp only
    obtain ⟨hx₀, hy₀⟩ := parts (y := clipStart area.min.y f.min.y) (hx.1.trans_le hx.2)
    obtain ⟨hx₁, hy₁⟩ := parts (x := clipStop area.min.x area.max.x f.max.x - 1)
      (y := clipStop area.min.y area.max.y f.max.y - 1) (by omega : _ < (gridOf area).width)
    rw [if_neg hguard, hx₀, hy₀, hx₁, hy₁, Nat.sub_add_cancel (by omega),
      Nat.sub_add_cancel (by omega)]
    simp only [flat_zero, addAll?, List.foldlM_cons, List.foldlM_nil, bind_pure]
  · simp only [share, if_neg hmeets, Int.add_zero]
    exact ⟨cells, stamp?_skip hmeets, h⟩

/-- **All stamps.** -/
theorem stamps_eq (harea : area.min.z ≤ area.max.z) {done rest : List MapCuboid}
    (h : Counts area cells (total area jump jump done)) (hlen : (done ++ rest).length < 2 ^ 63) :
    ∃ cells', rest.foldlM (gridOf area).stamp? cells = some cells' ∧
      Counts area cells' (total area jump jump (done ++ rest)) := by
  induction rest generalizing done cells with
  | nil => exact ⟨cells, rfl, by rwa [List.append_nil]⟩
  | cons f rest ih =>
      rw [List.append_cons] at hlen ⊢
      have hnext : (done ++ [f]).length < 2 ^ 63 := by
        rw [List.length_append] at hlen
        omega
      have hdone : done.length < 2 ^ 63 := by
        rw [List.length_append] at hnext
        omega
      obtain ⟨stamped, hstamp, hholds⟩ := stamp?_eq (f := f) harea h
        (fun x y => total_fits PairedStairsGrid.small_jump PairedStairsGrid.small_jump hdone)
        fun x y => by
          rw [← total_append]
          exact total_fits PairedStairsGrid.small_jump PairedStairsGrid.small_jump hnext
      have hcounts : Counts area stamped (total area jump jump (done ++ [f])) :=
        ⟨hholds.length, fun x y z hx hy hz => by rw [hholds.values x y z hx hy hz, total_append]⟩
      obtain ⟨cells', hrest, hcells'⟩ := ih hcounts hlen
      refine ⟨cells', ?_, hcells'⟩
      rw [List.foldlM_cons, hstamp]
      exact hrest

/-! ### Rows -/

/-- The sum of a row before a place. -/
def before (area : MapCuboid) (footprints : List MapCuboid) (y : Nat) : Nat → Int
  | 0 => 0
  | x + 1 => total area inside jump footprints x y

/-- The summation has passed a place. -/
def Passed (area : MapCuboid) (y k x' y' : Nat) : Prop :=
  x' < (gridOf area).width ∧ (y' < y ∨ y' = y ∧ x' < k)

instance (area : MapCuboid) (y k x' y' : Nat) : Decidable (Passed area y k x' y') :=
  inferInstanceAs (Decidable (_ ∧ _))

/-- The state of the summation, at a place of a row. -/
structure Summed (area : MapCuboid) (footprints : List MapCuboid) (y k : Nat)
    (state : Int × List Int × List Bool) : Prop where
  row : state.1 = before area footprints y k
  counts : Counts area state.2.1 fun x' y' =>
    if Passed area y k x' y' then total area inside inside footprints x' y'
    else total area jump jump footprints x' y'
  length : state.2.2.length = (gridOf area).width * (gridOf area).height
  flags : ∀ x' y', x' < (gridOf area).width → y' < (gridOf area).height → Passed area y k x' y' →
    state.2.2[y' * (gridOf area).width + x']? =
      some (decide (0 < total area inside inside footprints x' y'))

theorem before_succ : before area footprints y (x + 1) =
    before area footprints y x + total area jump jump footprints x y := by
  cases x with
  | zero =>
      rw [before, before, Int.zero_add]
      refine total_congr fun f hmeets => ?_
      simp only [share, if_pos hmeets, inside_zero (clip_lt hmeets.2.1).1]
  | succ x =>
      rw [before, before]
      refine total_add fun f hmeets => ?_
      simp only [share, if_pos hmeets, inside_succ (clip_lt hmeets.2.1).1]
      ring

/-- A total is the sum of its row, and the total above. -/
theorem total_row : total area inside inside footprints x y =
    total area inside jump footprints x y +
      if y = 0 then 0 else total area inside inside footprints x (y - 1) := by
  cases y with
  | zero =>
      rw [if_pos rfl, Int.add_zero]
      refine total_congr fun f hmeets => ?_
      simp only [share, if_pos hmeets, inside_zero (clip_lt hmeets.2.2).1]
  | succ y =>
      rw [if_neg (Nat.succ_ne_zero y), Nat.add_sub_cancel]
      refine total_add fun f hmeets => ?_
      simp only [share, if_pos hmeets, inside_succ (clip_lt hmeets.2.2).1]
      ring

theorem cell_lt {w h x y : Nat} (hx : x < w) (hy : y < h) : y * w + x < w * h := by
  have hle := Nat.mul_le_mul_right w (Nat.succ_le_of_lt hy)
  rw [Nat.succ_mul] at hle
  rw [Nat.mul_comm w h]
  omega

theorem cell_inj {w x y x' y' : Nat} (hx : x < w) (hx' : x' < w)
    (h : y' * w + x' = y * w + x) : x' = x ∧ y' = y := by
  have hmod := congrArg (· % w) h
  have hdiv := congrArg (· / w) h
  simp only [(parts hx).1, (parts hx').1, (parts hx).2, (parts hx').2] at hmod hdiv
  exact ⟨hmod, hdiv⟩

/-- **One cell of the summation.** -/
theorem sumCell?_eq (hlen : footprints.length < 2 ^ 63) (hx : x < (gridOf area).width)
    (hy : y < (gridOf area).height) {state : Int × List Int × List Bool}
    (h : Summed area footprints y x state) :
    ∃ state', (gridOf area).sumCell? y state x = some state' ∧
      Summed area footprints y (x + 1) state' := by
  obtain ⟨row, cells, flags⟩ := state
  have hinside := PairedStairsGrid.small_inside
  have hjump := PairedStairsGrid.small_jump
  have hget : ∀ x' y', x' ≤ (gridOf area).width → y' ≤ (gridOf area).height →
      cells[y' * ((gridOf area).width + 1) + x']? =
        some (if Passed area y x x' y' then total area inside inside footprints x' y'
          else total area jump jump footprints x' y') := by
    intro x' y' hx' hy'
    have hvalue := h.counts.values x' y' 0 hx' hy' le_rfl
    have hindex := @flat_lt _ _ 0 _ _ 0 hx' hy' le_rfl
    rw [← h.counts.length, flat_zero] at hindex
    rw [flat_zero, List.getD_eq_getElem?_getD, List.getElem?_eq_getElem hindex] at hvalue
    rw [List.getElem?_eq_getElem hindex]
    exact congrArg some hvalue
  have hvalue : cells[y * ((gridOf area).width + 1) + x]? =
      some (total area jump jump footprints x y) := by
    rw [hget x y hx.le hy.le, if_neg]
    intro hpassed
    have := hpassed.2
    omega
  have habove : (gridOf area).above? y cells (y * ((gridOf area).width + 1) + x) =
      some (if y = 0 then 0 else total area inside inside footprints x (y - 1)) := by
    unfold above?
    by_cases hzero : y = 0
    · rw [if_pos hzero, if_pos hzero]
    · obtain ⟨k, rfl⟩ : ∃ k, y = k + 1 := ⟨y - 1, by omega⟩
      have hindex : (k + 1) * ((gridOf area).width + 1) + x - ((gridOf area).width + 1) =
          k * ((gridOf area).width + 1) + x := by
        rw [Nat.add_one_mul]
        omega
      rw [if_neg hzero, if_neg hzero, hindex, hget x k hx.le (by omega),
        if_pos ⟨hx, .inl (Nat.lt_succ_self k)⟩, Nat.add_sub_cancel]
  have hrow : row + total area jump jump footprints x y = total area inside jump footprints x y := by
    have hbefore := @before_succ area footprints x y
    rw [before] at hbefore
    rw [hbefore, show row = before area footprints y x from h.row]
  have hcell := cell_lt hx hy
  rw [← h.length] at hcell
  refine ⟨(total area inside jump footprints x y,
    cells.set (y * ((gridOf area).width + 1) + x) (total area inside inside footprints x y),
    flags.set (y * (gridOf area).width + x) (total area inside inside footprints x y > 0)), ?_, ?_⟩
  · unfold sumCell?
    dsimp only
    rw [hvalue]
    change (counted (row + total area jump jump footprints x y) >>= _) = _
    rw [hrow, counted, if_pos (total_fits hinside hjump hlen)]
    change ((gridOf area).above? y cells (y * ((gridOf area).width + 1) + x) >>= _) = _
    rw [habove]
    change (counted (total area inside jump footprints x y + _) >>= _) = _
    rw [← total_row, counted, if_pos (total_fits hinside hinside hlen)]
    exact if_pos hcell
  · refine ⟨rfl, ?_, ?_, ?_⟩
    · rw [← flat_zero (gridOf area).width (gridOf area).height]
      refine h.counts.set hx.le hy.le le_rfl _ ?_ ?_
      · exact if_pos ⟨hx, .inr ⟨rfl, Nat.lt_succ_self x⟩⟩
      · intro x' y' z' hz' hne
        have hother : ¬ (x' = x ∧ y' = y) := fun hsame => hne ⟨hsame.1, hsame.2, Nat.le_zero.1 hz'⟩
        have hiff : Passed area y (x + 1) x' y' ↔ Passed area y x x' y' := by
          unfold Passed
          omega
        simp only [hiff]
    · rw [List.length_set, h.length]
    · intro x' y' hx' hy' hpassed
      rw [List.getElem?_set]
      by_cases hsame : y * (gridOf area).width + x = y' * (gridOf area).width + x'
      · obtain ⟨rfl, rfl⟩ := cell_inj hx hx' hsame.symm
        rw [if_pos hsame, if_pos hcell]
      · rw [if_neg hsame]
        refine h.flags x' y' hx' hy' ⟨hx', ?_⟩
        rcases hpassed.2 with hlt | ⟨rfl, hlt⟩
        · exact .inl hlt
        · refine .inr ⟨rfl, lt_of_le_of_ne (Nat.le_of_lt_succ hlt) ?_⟩
          rintro rfl
          exact hsame rfl

/-- **The version of one level fails nowhere, and its flags are exact.** -/
theorem occupied?_eq (harea : area.min.z ≤ area.max.z) (hlen : footprints.length < 2 ^ 63) :
    ∃ flags, (gridOf area).occupied? footprints = some flags ∧
      ∀ x y, x < (gridOf area).width → y < (gridOf area).height →
        flags[y * (gridOf area).width + x]? =
          some (decide (0 < total area inside inside footprints x y)) := by
  have hnil : Counts area
      (List.replicate (((gridOf area).width + 1) * ((gridOf area).height + 1)) 0)
      (total area jump jump []) := by
    refine ⟨by rw [List.length_replicate, Nat.zero_add, Nat.mul_one], fun x y z _ _ _ => ?_⟩
    rw [List.getD_eq_getElem?_getD, List.getElem?_replicate]
    split <;> rfl
  obtain ⟨stamped, hstamped, hcounts⟩ := @stamps_eq _ _ harea _ footprints hnil hlen
  rw [List.nil_append] at hcounts
  have hstart : Summed area footprints 0 0
      (0, stamped, List.replicate ((gridOf area).width * (gridOf area).height) false) := by
    have hnone : ∀ x' y', ¬ Passed area 0 0 x' y' := by
      unfold Passed
      omega
    refine ⟨rfl, ⟨hcounts.length, fun x y z hx hy hz => ?_⟩, List.length_replicate,
      fun x' y' _ _ hpassed => absurd hpassed (hnone x' y')⟩
    simp only [if_neg (hnone x y)]
    exact hcounts.values x y z hx hy hz
  obtain ⟨state, hrows, hsummed⟩ := @foldlM_range _ (gridOf area).sumRow?
    (fun y state => Summed area footprints y 0 (0, state)) (gridOf area).height _ hstart
    fun y hy state hstate => by
      obtain ⟨last, hcells, hlast⟩ := @foldlM_range _ ((gridOf area).sumCell? y)
        (fun x state => Summed area footprints y x state) (gridOf area).width _ hstate
        fun x hx state hstate => sumCell?_eq hlen hx hy hstate
      have hiff : ∀ x' y', Passed area (y + 1) 0 x' y' ↔
          Passed area y (gridOf area).width x' y' := by
        intro x' y'
        unfold Passed
        omega
      refine ⟨last.2, ?_, rfl, ?_, hlast.length, fun x' y' hx' hy' hpassed =>
        hlast.flags x' y' hx' hy' ((hiff x' y').1 hpassed)⟩
      · unfold sumRow?
        rw [hcells]
        rfl
      · simp only [hiff]
        exact hlast.counts
  refine ⟨state.2, ?_, fun x y hx hy => hsummed.flags x y hx hy ⟨hx, .inl hy⟩⟩
  unfold occupied?
  rw [hstamped]
  change ((List.range (gridOf area).height).foldlM (gridOf area).sumRow? _ >>= _) = _
  rw [hrows]
  rfl

/-- A footprint counts once for each tile of the level that it covers. -/
theorem share_tile {tile : MapCoord} (htile : area.contains tile = true)
    (hlevel : tile.z = area.min.z) (f : MapCuboid) :
    share area inside inside (tile.x.val - area.min.x.val).toNat
      (tile.y.val - area.min.y.val).toNat f = if f.contains tile then 1 else 0 := by
  obtain ⟨hx, hy, -⟩ := contains_bounds htile
  unfold share
  by_cases hmeets : Meets area f
  · rw [if_pos hmeets, inside_clip hmeets.2.1 hx, inside_clip hmeets.2.2 hy]
    have hz := hmeets.1
    rw [← hlevel] at hz
    by_cases hcontains : f.contains tile = true
    · obtain ⟨hx', hy', -⟩ := contains_bounds hcontains
      rw [if_pos hx', if_pos hy', if_pos hcontains]
      rfl
    · rw [if_neg hcontains]
      simp only [MapCuboid.contains, Bool.and_eq_true, decide_eq_true_eq, ge_iff_le] at hcontains
      by_cases hx' : f.min.x.val ≤ tile.x.val ∧ tile.x.val ≤ f.max.x.val
      · have hy' : ¬ (f.min.y.val ≤ tile.y.val ∧ tile.y.val ≤ f.max.y.val) := fun hy' =>
          hcontains ⟨⟨⟨⟨⟨hx'.1, hx'.2⟩, hy'.1⟩, hy'.2⟩, hz.1⟩, hz.2⟩
        rw [if_neg hy', Int.mul_zero]
      · rw [if_neg hx', Int.zero_mul]
  · rw [if_neg hmeets, if_neg]
    intro hcontains
    obtain ⟨hx', hy', hz'⟩ := contains_bounds hcontains
    rw [hlevel] at hz'
    refine hmeets ⟨hz', ?_, ?_⟩
    · exact le_min (max_le (hx'.1.trans hx'.2) (hx.1.trans hx'.2)) (max_le (hx'.1.trans hx.2)
        (hx.1.trans hx.2))
    · exact le_min (max_le (hy'.1.trans hy'.2) (hy.1.trans hy'.2)) (max_le (hy'.1.trans hy.2)
        (hy.1.trans hy.2))

theorem total_tile {tile : MapCoord} (htile : area.contains tile = true)
    (hlevel : tile.z = area.min.z) (footprints : List MapCuboid) :
    decide (0 < total area inside inside footprints (tile.x.val - area.min.x.val).toNat
      (tile.y.val - area.min.y.val).toNat) = footprints.any fun f => f.contains tile := by
  have htotal : total area inside inside footprints (tile.x.val - area.min.x.val).toNat
      (tile.y.val - area.min.y.val).toNat =
        (footprints.map fun f => if f.contains tile then (1 : Int) else 0).sum :=
    congrArg List.sum (List.map_congr_left fun f _ => share_tile htile hlevel f)
  rw [htotal, Bool.eq_iff_iff, decide_eq_true_eq, sum_indicators_pos, List.any_eq_true]

end Single

end Grid

/-! ## The flags of the requests -/

section Erasure

variable {area : MapCuboid} {footprints : BTreeMap EntityId MapCuboid} {flags : List Bool}

theorem counted_some {value total : Int} (h : counted value = some total) : value = total := by
  unfold counted at h
  split at h
  · exact Option.some.inj h
  · cases h

theorem Grid.stamp_of_stamp? {grid : Grid} (cells : List Int) (f : MapCuboid) (cells' : List Int)
    (h : grid.stamp? cells f = some cells') : grid.stamp cells f = cells' := by
  unfold Grid.stamp? at h
  unfold Grid.stamp
  dsimp only at h ⊢
  split at h
  · rename_i hlevel
    rw [if_pos hlevel]
    exact Option.some.inj h
  · rename_i hlevel
    rw [if_neg hlevel]
    generalize grid.index ⟨max f.min.x grid.area.min.x, max f.min.y grid.area.min.y,
      grid.area.min.z⟩ = start at h ⊢
    generalize grid.index ⟨min f.max.x grid.area.max.x, min f.max.y grid.area.max.y,
      grid.area.min.z⟩ = stop at h ⊢
    cases start with
    | none => exact Option.some.inj h
    | some start =>
        cases stop with
        | none => exact Option.some.inj h
        | some stop =>
            dsimp only at h ⊢
            split at h
            · rename_i hempty
              rw [if_pos hempty]
              exact Option.some.inj h
            · rename_i hempty
              rw [if_neg hempty]
              simp only [Option.bind_eq_bind, Option.bind_eq_some_iff] at h
              obtain ⟨c₁, h₁, c₂, h₂, c₃, h₃, h₄⟩ := h
              unfold addAt
              rw [addAt?_some h₁, addAt?_some h₂, addAt?_some h₃, addAt?_some h₄]

theorem Grid.sumCell_of_sumCell? {grid : Grid} {y : Nat} (state : Int × List Int × List Bool)
    (x : Nat) (state' : Int × List Int × List Bool) (h : grid.sumCell? y state x = some state') :
    grid.sumCell y state x = state' := by
  obtain ⟨row, cells, occupied⟩ := state
  unfold Grid.sumCell? at h
  simp only [Option.bind_eq_bind, Option.bind_eq_some_iff] at h
  obtain ⟨value, hvalue, sum, hsum, above, habove, total, htotal, h⟩ := h
  have hread : cells.getD (y * (grid.width + 1) + x) 0 = value := by
    rw [List.getD_eq_getElem?_getD, hvalue]
    rfl
  have hover : (if y = 0 then 0
      else cells.getD (y * (grid.width + 1) + x - (grid.width + 1)) 0) = above := by
    unfold Grid.above? at habove
    by_cases hy : y = 0
    · rw [if_pos hy] at habove ⊢
      exact Option.some.inj habove
    · rw [if_neg hy] at habove ⊢
      rw [List.getD_eq_getElem?_getD, habove]
      rfl
  split at h
  · rw [← Option.some.inj h]
    unfold Grid.sumCell
    dsimp only
    rw [hread, hover, counted_some hsum, counted_some htotal]
  · cases h

/-- Where the version of one level does not fail, it is the one without failures. -/
theorem Grid.occupied_of_occupied? {grid : Grid} (h : grid.occupied? footprints.values = some flags) :
    grid.occupied footprints = flags := by
  unfold Grid.occupied? at h
  simp only [Option.bind_eq_bind, Option.bind_eq_some_iff] at h
  obtain ⟨stamped, hstamped, state, hstate, h⟩ := h
  have hrow : ∀ (state : List Int × List Bool) (y : Nat) (state' : List Int × List Bool),
      grid.sumRow? state y = some state' → grid.sumRow state y = state' := by
    intro state y state' hsum
    unfold Grid.sumRow? at hsum
    simp only [Option.bind_eq_bind, Option.bind_eq_some_iff] at hsum
    obtain ⟨last, hlast, hsum⟩ := hsum
    unfold Grid.sumRow
    rw [foldl_of_foldlM Grid.sumCell_of_sumCell? hlast]
    exact Option.some.inj hsum
  unfold Grid.occupied
  dsimp only
  rw [foldl_of_foldlM Grid.stamp_of_stamp? hstamped, foldl_of_foldlM hrow hstate]
  exact Option.some.inj h

theorem PairedStairsGrid.stamp_of_stamp? {grid : PairedStairsGrid} (cells : List Int)
    (f : MapCuboid) (cells' : List Int) (h : grid.stamp? cells f = some cells') :
    grid.stamp cells f = cells' := by
  unfold PairedStairsGrid.stamp? at h
  unfold PairedStairsGrid.stamp
  dsimp only at h ⊢
  split at h
  · rename_i hempty
    rw [if_pos hempty]
    exact Option.some.inj h
  · rename_i hempty
    rw [if_neg hempty]
    generalize grid.index ⟨max f.min.x grid.area.min.x, max f.min.y grid.area.min.y,
      max f.min.z grid.area.min.z⟩ = start at h ⊢
    generalize grid.index ⟨min f.max.x grid.area.max.x, min f.max.y grid.area.max.y,
      min f.max.z grid.area.max.z⟩ = stop at h ⊢
    cases start with
    | none => exact Option.some.inj h
    | some start =>
        cases stop with
        | none => exact Option.some.inj h
        | some stop => exact foldl_of_foldlM (fun s a t hadd => addAt?_some hadd) h

theorem sumAxis_of_scan? {step : Nat} {indices : List Nat} {cells cells' : List Int}
    (h : scan? step indices cells = some cells') :
    PairedStairsGrid.sumAxis step indices cells = cells' := by
  refine foldl_of_foldlM (fun s i t hstep => ?_) h
  simp only [Option.bind_eq_bind, Option.bind_eq_some_iff] at hstep
  obtain ⟨value, hvalue, hadd⟩ := hstep
  have hread : s.getD (i - step) 0 = value := by
    unfold before? at hvalue
    split at hvalue
    · rw [List.getD_eq_getElem?_getD, hvalue]
      rfl
    · cases hvalue
  rw [hread]
  exact addAt?_some hadd

/-- Where the three-dimensional version does not fail, it is the one without failures. -/
theorem PairedStairsGrid.occupied_of_occupied? {grid : PairedStairsGrid}
    (h : grid.occupied? footprints.values = some flags) : grid.occupied footprints = flags := by
  unfold PairedStairsGrid.occupied? at h
  simp only [Option.bind_eq_bind, Option.bind_eq_some_iff] at h
  obtain ⟨stamped, hstamped, alongX, hx, alongY, hy, alongZ, hz, h⟩ := h
  unfold PairedStairsGrid.occupied
  dsimp only
  rw [foldl_of_foldlM PairedStairsGrid.stamp_of_stamp? hstamped, sumAxis_of_scan? hx,
    sumAxis_of_scan? hy, sumAxis_of_scan? hz]
  have hflags : ∀ (l : List Nat) (flags : List Bool),
      (l.mapM fun i => do
        let value ← alongZ[i]?
        some (decide (value > 0))) = some flags →
      (l.map fun i => decide (alongZ.getD i 0 > 0)) = flags := by
    intro l
    induction l with
    | nil =>
        intro flags hmap
        exact Option.some.inj hmap
    | cons i l ih =>
        intro flags hmap
        rw [List.mapM_cons] at hmap
        simp only [Option.bind_eq_bind, Option.pure_def, Option.bind_eq_some_iff] at hmap
        obtain ⟨flag, ⟨value, hvalue, hflag⟩, rest, hrest, hmap⟩ := hmap
        rw [List.map_cons, ih rest hrest, List.getD_eq_getElem?_getD, hvalue]
        rw [← Option.some.inj hmap, ← Option.some.inj hflag]
        rfl
  exact hflags _ flags h

end Erasure

/-- **Difference arrays count footprints.** On one level and in three dimensions, nothing is read or
written outside an array, no counter overflows, and a tile is flagged exactly when some footprint covers
it. -/
theorem occupancy_exact (area : MapCuboid) (footprints : BTreeMap EntityId MapCuboid)
    (hlen : footprints.values.length < 2 ^ 63) {tile : MapCoord}
    (htile : area.contains tile = true) :
    (tile.z = area.min.z → ∃ flags i,
      (gridOf area).occupied? footprints.values = some flags ∧
        (gridOf area).occupied footprints = flags ∧ (gridOf area).index tile = some i ∧
          flags[i]? = some (footprints.values.any fun f => f.contains tile)) ∧
    ∃ flags i, (pairedGridOf area).occupied? footprints.values = some flags ∧
      (pairedGridOf area).occupied footprints = flags ∧
        (pairedGridOf area).index tile = some i ∧
          flags[i]? = some (footprints.values.any fun f => f.contains tile) := by
  constructor
  · intro hlevel
    obtain ⟨⟨hx, hx'⟩, ⟨hy, hy'⟩, ⟨hz, hz'⟩⟩ := contains_bounds htile
    obtain ⟨flags, hflags, hvalues⟩ := Grid.occupied?_eq (hz.trans hz') hlen
    have hwidth : (tile.x.val - area.min.x.val).toNat < (gridOf area).width := by
      show _ < (area.max.x.val - area.min.x.val + 1).toNat
      omega
    have hheight : (tile.y.val - area.min.y.val).toNat < (gridOf area).height := by
      show _ < (area.max.y.val - area.min.y.val + 1).toNat
      omega
    refine ⟨flags, (tile.y.val - area.min.y.val).toNat * (gridOf area).width +
      (tile.x.val - area.min.x.val).toNat, hflags, Grid.occupied_of_occupied? hflags, ?_, ?_⟩
    · unfold Grid.index
      rw [show (gridOf area).area = area from rfl, htile, Bool.not_true, if_neg Bool.false_ne_true]
    · rw [hvalues _ _ hwidth hheight, Grid.total_tile htile hlevel]
  · obtain ⟨flags, hflags, hvalues⟩ := PairedStairsGrid.occupied?_eq area hlen
    obtain ⟨i, hindex, hvalue⟩ := hvalues tile htile
    exact ⟨flags, i, hflags, PairedStairsGrid.occupied_of_occupied? hflags, hindex, hvalue⟩

namespace Storey

/-- A tile near the origin. -/
def tile (x y z : Fin 9) : MapCoord :=
  ⟨⟨x - 3, by omega⟩, ⟨y - 3, by omega⟩, ⟨z - 3, by omega⟩⟩

/-- Three tiles by two, on two levels. -/
def area : MapCuboid := ⟨tile 3 3 3, tile 5 4 4⟩

/-- A building that sticks out of the area at a corner, below and beside it. -/
def footprints : BTreeMap EntityId MapCuboid := OMap.nil.insert 7 ⟨tile 5 4 0, tile 8 8 3⟩

end Storey

theorem occupancy_exact_corner :
    (∃ flags i, (gridOf Storey.area).occupied? Storey.footprints.values = some flags ∧
      (gridOf Storey.area).occupied Storey.footprints = flags ∧
        (gridOf Storey.area).index (Storey.tile 5 4 3) = some i ∧ flags[i]? = some true) ∧
    ∃ flags i, (pairedGridOf Storey.area).occupied? Storey.footprints.values = some flags ∧
      (pairedGridOf Storey.area).occupied Storey.footprints = flags ∧
        (pairedGridOf Storey.area).index (Storey.tile 5 4 3) = some i ∧ flags[i]? = some true := by
  have htile : Storey.area.contains (Storey.tile 5 4 3) = true := by decide
  have h := occupancy_exact Storey.area Storey.footprints (by decide) htile
  exact ⟨h.1 rfl, h.2⟩

end LaboratoryAccess

end Dfmcp
