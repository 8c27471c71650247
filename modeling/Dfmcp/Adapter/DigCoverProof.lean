import Dfmcp.Adapter.DigBlueprint
import Dfmcp.Adapter.DigPredictionProof

/-!
# The rectangles of a blueprint cover its cells exactly

Abstractly, pieces cover a set exactly (`Covers`) when they are pairwise disjoint and make up the set;
a piece of a set and an exact cover of what it leaves are an exact cover (`Covers.cons`). The greedy
decomposition of the source makes such pieces: the rectangle that grew from the first cell left consists
of cells that are left (`rectangle_subset`), and its bounds are those that a region must have
(`new_region`). So its only failure is the number of rectangles.

* `cover_covers` — a cover that is returned is exact;
* `cover_total` — the decomposition returns a cover or reports too many rectangles.
-/

namespace Dfmcp

open Machine DigDesignation

namespace DigBlueprint

/-! ## Exact covers -/

section Covers

universe u

variable {α : Type u} {pieces : List (Set α)} {piece s : Set α}

/-- The pieces are pairwise disjoint, and their union is the set. -/
structure Covers (pieces : List (Set α)) (s : Set α) : Prop where
  disjoint : pieces.Pairwise Disjoint
  union : ∀ p, p ∈ s ↔ ∃ piece ∈ pieces, p ∈ piece

theorem Covers.nil (h : ∀ p, p ∉ s) : Covers [] s :=
  ⟨List.Pairwise.nil, fun p => ⟨fun hp => absurd hp (h p), fun ⟨_, hmem, _⟩ => absurd hmem List.not_mem_nil⟩⟩

/-- A piece, and an exact cover of what it leaves. -/
theorem Covers.cons (hsub : piece ⊆ s) (h : Covers pieces (s \ piece)) :
    Covers (piece :: pieces) s := by
  refine ⟨List.pairwise_cons.2 ⟨fun other hother => ?_, h.disjoint⟩, fun p => ⟨fun hp => ?_, ?_⟩⟩
  · rw [Set.disjoint_left]
    intro p hp hpOther
    exact ((h.union p).2 ⟨other, hother, hpOther⟩).2 hp
  · by_cases hpiece : p ∈ piece
    · exact ⟨piece, List.mem_cons_self, hpiece⟩
    · obtain ⟨other, hother, hpOther⟩ := (h.union p).1 ⟨hp, hpiece⟩
      exact ⟨other, List.mem_cons_of_mem _ hother, hpOther⟩
  · rintro ⟨other, hother, hpOther⟩
    rcases List.mem_cons.1 hother with rfl | hother
    · exact hsub hpOther
    · exact ((h.union p).2 ⟨other, hother, hpOther⟩).1

end Covers

/-! ## Cells and positions -/

theorem cell_inj {z y x z' y' x' : Nat} :
    cell z y x = cell z' y' x' ↔ z = z' ∧ y = y' ∧ x = x' := by
  constructor
  · intro h
    have hz : (cell z y x).z = (cell z' y' x').z := by rw [h]
    have hy : (cell z y x).y = (cell z' y' x').y := by rw [h]
    have hx : (cell z y x).x = (cell z' y' x').x := by rw [h]
    exact ⟨hz, hy, hx⟩
  · rintro ⟨rfl, rfl, rfl⟩
    rfl

/-- The cell at a position. -/
def cellAt (p : Position) : Cell := cell p.2.2 p.2.1 p.1

/-- The positions of a set of cells. -/
def positions (cells : BTreeSet Cell) : Set Position := {p | cells.contains (cellAt p) = true}

/-- The positions of a part. -/
def BlueprintPart.positions (part : BlueprintPart) : Set Position :=
  {p | (part.origin.1 ≤ p.1 ∧ p.1 < part.origin.1 + part.size.1) ∧
    (part.origin.2.1 ≤ p.2.1 ∧ p.2.1 < part.origin.2.1 + part.size.2.1) ∧
    (part.origin.2.2 ≤ p.2.2 ∧ p.2.2 < part.origin.2.2 + part.size.2.2)}

theorem mem_offsets {n low k : Nat} : (∃ i, i < n ∧ low + i = k) ↔ low ≤ k ∧ k < low + n := by
  constructor
  · rintro ⟨i, hi, rfl⟩
    omega
  · intro h
    exact ⟨k - low, by omega, by omega⟩

theorem BlueprintPart.mem_cells {part : BlueprintPart} {p : Position} :
    cellAt p ∈ part.cells ↔ p ∈ part.positions := by
  simp only [cells, cellAt, List.mem_flatMap, List.mem_map, List.mem_range, cell_inj]
  constructor
  · rintro ⟨k, hk, j, hj, i, hi, hz, hy, hx⟩
    exact ⟨mem_offsets.1 ⟨i, hi, hx⟩, mem_offsets.1 ⟨j, hj, hy⟩, mem_offsets.1 ⟨k, hk, hz⟩⟩
  · rintro ⟨hx, hy, hz⟩
    obtain ⟨i, hi, hx⟩ := mem_offsets.2 hx
    obtain ⟨j, hj, hy⟩ := mem_offsets.2 hy
    obtain ⟨k, hk, hz⟩ := mem_offsets.2 hz
    exact ⟨k, hk, j, hj, i, hi, hz, hy, hx⟩

theorem mem_rectangle {c : Cell} {width height : Nat} {p : Position} :
    cellAt p ∈ rectangle c width height ↔
      p.2.2 = c.z ∧ (c.x ≤ p.1 ∧ p.1 < c.x + width) ∧ (c.y ≤ p.2.1 ∧ p.2.1 < c.y + height) := by
  simp only [rectangle, cellAt, List.mem_flatMap, List.mem_map, List.mem_range, cell_inj]
  constructor
  · rintro ⟨j, hj, i, hi, hz, hy, hx⟩
    exact ⟨hz.symm, mem_offsets.1 ⟨i, hi, hx⟩, mem_offsets.1 ⟨j, hj, hy⟩⟩
  · rintro ⟨hz, hx, hy⟩
    obtain ⟨i, hi, hx⟩ := mem_offsets.2 hx
    obtain ⟨j, hj, hy⟩ := mem_offsets.2 hy
    exact ⟨j, hj, i, hi, hz.symm, hy, hx⟩

theorem contains_takeAway (cells : List Cell) (remaining : BTreeSet Cell) (c : Cell) :
    (takeAway remaining cells).contains c = true ↔ remaining.contains c = true ∧ c ∉ cells := by
  induction cells generalizing remaining with
  | nil => simp [takeAway]
  | cons d cells ih =>
      have h := ih (remaining.erase d)
      rw [takeAway] at h ⊢
      rw [List.foldl_cons, h, OMap.contains_erase, Bool.and_eq_true, decide_eq_true_eq,
        List.mem_cons, not_or]
      exact ⟨fun ⟨⟨hne, hmem⟩, hcells⟩ => ⟨hmem, hne, hcells⟩,
        fun ⟨hmem, hne, hcells⟩ => ⟨⟨hne, hmem⟩, hcells⟩⟩

/-! ## Growing -/

theorem grow_spec (present : Nat → Bool) (left n : Nat) :
    (n ≤ grow present left n ∧ grow present left n ≤ n + left) ∧
      ∀ k, n ≤ k → k < grow present left n → present k = true := by
  induction left generalizing n with
  | zero => exact ⟨⟨le_refl n, le_refl n⟩, fun k hle hlt => absurd hlt (not_lt.2 hle)⟩
  | succ left ih =>
      obtain ⟨⟨hlow, hhigh⟩, hpresent⟩ := ih (n + 1)
      rw [grow]
      by_cases hn : present n = true
      · rw [if_pos hn]
        refine ⟨⟨by omega, by omega⟩, fun k hle hlt => ?_⟩
        rcases Nat.eq_or_lt_of_le hle with rfl | hlater
        · exact hn
        · exact hpresent k hlater hlt
      · rw [if_neg hn]
        exact ⟨⟨le_refl n, by omega⟩, fun k hle hlt => absurd hlt (not_lt.2 hle)⟩

section Step

variable {remaining : BTreeSet Cell} {c : Cell}

theorem width_spec (hc : remaining.contains c = true) :
    (1 ≤ widthAt remaining c ∧ widthAt remaining c ≤ 8) ∧
      ∀ i, i < widthAt remaining c → remaining.contains (cell c.z c.y (c.x + i)) = true := by
  obtain ⟨⟨hlow, hhigh⟩, hpresent⟩ :=
    grow_spec (fun n => remaining.contains (cell c.z c.y (c.x + n))) 7 1
  refine ⟨⟨hlow, hhigh⟩, fun i hi => ?_⟩
  rcases Nat.eq_zero_or_pos i with rfl | hpos
  · exact hc
  · exact hpresent i hpos hi

theorem height_spec (hc : remaining.contains c = true) :
    (1 ≤ heightAt remaining c (widthAt remaining c) ∧
      heightAt remaining c (widthAt remaining c) ≤ 8) ∧
      ∀ j, j < heightAt remaining c (widthAt remaining c) → ∀ i, i < widthAt remaining c →
        remaining.contains (cell c.z (c.y + j) (c.x + i)) = true := by
  obtain ⟨⟨hlow, hhigh⟩, hpresent⟩ := grow_spec (fun n => (List.range (widthAt remaining c)).all
    fun i => remaining.contains (cell c.z (c.y + n) (c.x + i))) 7 1
  refine ⟨⟨hlow, hhigh⟩, fun j hj i hi => ?_⟩
  rcases Nat.eq_zero_or_pos j with rfl | hpos
  · exact (width_spec hc).2 i hi
  · exact List.all_eq_true.1 (hpresent j hpos hj) i (List.mem_range.2 hi)

/-- The rectangle that grows from a cell that is left. -/
def grown (remaining : BTreeSet Cell) (c : Cell) : List Cell :=
  rectangle c (widthAt remaining c) (heightAt remaining c (widthAt remaining c))

theorem rectangle_subset (hc : remaining.contains c = true) {p : Position}
    (hp : cellAt p ∈ grown remaining c) : p ∈ positions remaining := by
  obtain ⟨hz, hx, hy⟩ := mem_rectangle.1 hp
  obtain ⟨i, hi, hx⟩ := mem_offsets.2 hx
  obtain ⟨j, hj, hy⟩ := mem_offsets.2 hy
  have h := (height_spec hc).2 j hj i hi
  rwa [hy, hx, ← hz] at h

/-- Every cell has a complete halo within the coordinates. -/
def Halo (remaining : BTreeSet Cell) : Prop :=
  ∀ p ∈ positions remaining, (1 ≤ p.1 ∧ p.1 ≤ 32766) ∧ (1 ≤ p.2.1 ∧ p.2.1 ≤ 32766) ∧
    (1 ≤ p.2.2 ∧ p.2.2 ≤ 32766)

/-- **A region is never refused**, and its cells are those of the rectangle. -/
theorem new_region (hhalo : Halo remaining) (hc : remaining.contains c = true) :
    ∃ region, DigRegion.new c.x c.y c.z (widthAt remaining c)
        (heightAt remaining c (widthAt remaining c)) = .ok region ∧
      ∀ p, p ∈ region.cells ↔ cellAt p ∈ grown remaining c := by
  obtain ⟨hwidth, hrow⟩ := width_spec hc
  obtain ⟨hheight, hrows⟩ := height_spec hc
  have hcorner := hhalo (c.x + (widthAt remaining c - 1),
    c.y + (heightAt remaining c (widthAt remaining c) - 1), c.z)
    (hrows _ (by omega) _ (by omega))
  have hfirst := hhalo (c.x, c.y, c.z) hc
  simp only at hcorner hfirst
  have hbounded : ((1 ≤ widthAt remaining c ∧ widthAt remaining c ≤ 8) ∧
      (1 ≤ heightAt remaining c (widthAt remaining c) ∧
        heightAt remaining c (widthAt remaining c) ≤ 8)) ∧ (1 ≤ c.z ∧ c.z ≤ 32766) ∧
      (c.x ≠ 0 ∧ c.y ≠ 0) ∧ c.x ≤ 32767 - widthAt remaining c ∧
      c.y ≤ 32767 - heightAt remaining c (widthAt remaining c) := by omega
  refine ⟨⟨c.x, c.y, c.z, _, _, hbounded⟩, dif_pos hbounded, fun p => ?_⟩
  exact mem_rectangle.symm

theorem positions_takeAway {region : DigRegion} {cells : List Cell}
    (h : ∀ p, p ∈ region.cells ↔ cellAt p ∈ cells) :
    positions (takeAway remaining cells) = positions remaining \ region.cells := by
  ext p
  rw [Set.mem_sdiff, h p]
  exact contains_takeAway cells remaining (cellAt p)

theorem positions_of_head_none (h : remaining.keys.head? = none) : ∀ p, p ∉ positions remaining := by
  intro p hp
  have hmem := (OMap.mem_keys_iff remaining (cellAt p)).2 hp
  rw [List.head?_eq_none_iff.1 h] at hmem
  exact absurd hmem List.not_mem_nil

theorem contains_of_head (h : remaining.keys.head? = some c) : remaining.contains c = true :=
  (OMap.mem_keys_iff remaining c).1 (List.mem_of_mem_head? h)

theorem Halo.takeAway (h : Halo remaining) (cells : List Cell) : Halo (takeAway remaining cells) :=
  fun p hp => h p ((contains_takeAway cells remaining (cellAt p)).1 hp).1

end Step

/-! ## The decomposition -/

/-- **A decomposition is an exact cover, or there are too many rectangles.** The induction is on the
rectangles that may still be made. -/
theorem cover_total (left : Nat) (remaining : BTreeSet Cell) (hhalo : Halo remaining) :
    (∃ regions, cover left remaining = .ok regions ∧
        Covers (regions.map DigRegion.cells) (positions remaining)) ∨
      cover left remaining = .error (invalid "blueprint exceeds 128 native regions") := by
  induction left generalizing remaining with
  | zero =>
      rw [cover]
      cases hhead : remaining.keys.head? with
      | none => exact .inl ⟨[], rfl, Covers.nil (positions_of_head_none hhead)⟩
      | some c => exact .inr rfl
  | succ left ih =>
      rw [cover]
      cases hhead : remaining.keys.head? with
      | none => exact .inl ⟨[], rfl, Covers.nil (positions_of_head_none hhead)⟩
      | some c =>
          have hc := contains_of_head hhead
          obtain ⟨region, hnew, hcells⟩ := new_region hhalo hc
          have hleft := @positions_takeAway remaining _ _ hcells
          simp only [hnew]
          rcases ih (takeAway remaining (grown remaining c)) (hhalo.takeAway _) with
            ⟨regions, hregions, hcovers⟩ | herror
          · refine .inl ⟨region :: regions, ?_, ?_⟩
            · show (cover left (takeAway remaining (grown remaining c)) >>= _) = _
              rw [hregions]
              rfl
            · rw [hleft] at hcovers
              exact Covers.cons (fun p hp => rectangle_subset hc ((hcells p).1 hp)) hcovers
          · right
            show (cover left (takeAway remaining (grown remaining c)) >>= _) = _
            rw [herror]
            rfl

theorem cover_covers {left : Nat} {remaining : BTreeSet Cell} {regions : List DigRegion}
    (hhalo : Halo remaining) (h : cover left remaining = .ok regions) :
    Covers (regions.map DigRegion.cells) (positions remaining) := by
  rcases cover_total left remaining hhalo with ⟨found, hfound, hcovers⟩ | herror
  · rw [h, Except.ok.injEq] at hfound
    rwa [hfound]
  · rw [h] at herror
    cases herror

end DigBlueprint

end Dfmcp
