import Dfmcp.World.NormalProof
import Dfmcp.Library.Layers

/-!
# Laboratory access under partial observation

The access predicates flood a region twice: over tiles that certainly can be walked on, and over
those that perhaps can. A target next to the first flood is accessible, one next to neither is not,
and otherwise nothing is known. A definite answer should survive every observation still to be made.

The paired-stairs version reads a tile with the unknown code as unobserved; the single-level version
reads it as a wall, so its negative answers need not survive.

* `floodFrom_iff` — a flood reaches exactly the cells that are connected to the entry;
* `Reveals` — unobserved tiles have become observed, and nothing else has changed;
* `pairedStairs_stable` — the paired-stairs version never changes a definite answer;
* `access_stable_iff` — both versions keep theirs exactly when no target is cut off by tiles of
  unknown code alone.
-/

namespace Dfmcp

open Machine Kleene Layers

namespace LaboratoryAccess

/-! ## Floods -/

section Flooding

variable {passable : Nat → Bool} {neighbors : Nat → List Nat} {cells entry : Nat}

/-- The cells a flood goes on to. -/
def nextCells (passable : Nat → Bool) (neighbors : Nat → List Nat) (u : Nat) : List Nat :=
  (neighbors u).filter passable

/-- A cell is connected to the entry. -/
def Connected (passable : Nat → Bool) (neighbors : Nat → List Nat) (entry v : Nat) : Prop :=
  passable entry = true ∧
    ∃ n, Reach (· ∈ [entry]) (fun u (_ : Unit) v => v ∈ nextCells passable neighbors u) n v

/-- The flags of a flood: which cells have a parent. -/
def Marks (cells : Nat) (reached : List Bool) (s : Flood ℕ) : Prop :=
  reached.length = cells ∧ ∀ v, reached.getD v false = (s.parent v).isSome

theorem marks_visit {u v : Nat} {reached : List Bool} {s : Flood ℕ}
    (hmarks : Marks cells reached s) (hv : passable v = true → v < cells) :
    Marks cells (visit passable (reached, s.queue) v).1
        (([v].filter passable).foldl (Flood.offer u) s) ∧
      (visit passable (reached, s.queue) v).2 =
        (([v].filter passable).foldl (Flood.offer u) s).queue := by
  obtain ⟨hlength, hflags⟩ := hmarks
  cases hpass : passable v with
  | false =>
      have hfilter : [v].filter passable = [] := by simp [hpass]
      rw [hfilter, visit, hpass, Bool.false_and, if_neg Bool.false_ne_true]
      exact ⟨⟨hlength, hflags⟩, rfl⟩
  | true =>
      have hfilter : [v].filter passable = [v] := by simp [hpass]
      have hflag := hflags v
      rw [hfilter, visit, hpass, Bool.true_and]
      by_cases hnew : s.parent v = none
      · rw [hnew, Option.isSome_none] at hflag
        have hset : ∀ w, (reached.set v true).getD w false =
            (Function.update s.parent v (some u) w).isSome := by
          intro w
          by_cases hw : w = v
          · subst hw
            simp [hlength, hv hpass]
          · rw [Function.update_of_ne hw, ← hflags w]
            simp [List.getD_eq_getElem?_getD, List.getElem?_set_ne (Ne.symm hw)]
        rw [hflag, Bool.not_false, if_pos rfl, List.foldl_cons, List.foldl_nil, Flood.offer,
          if_pos hnew]
        exact ⟨⟨by rw [List.length_set, hlength], hset⟩, rfl⟩
      · obtain ⟨w, hw⟩ := Option.ne_none_iff_exists'.1 hnew
        rw [hw, Option.isSome_some] at hflag
        rw [hflag, Bool.not_true, if_neg Bool.false_ne_true, List.foldl_cons, List.foldl_nil,
          Flood.offer, if_neg hnew]
        exact ⟨⟨hlength, hflags⟩, rfl⟩

theorem marks_visits {u : Nat} {reached : List Bool} {s : Flood ℕ} (rest : List Nat)
    (hmarks : Marks cells reached s) (hrest : ∀ v ∈ rest, passable v = true → v < cells) :
    Marks cells (rest.foldl (visit passable) (reached, s.queue)).1
        ((rest.filter passable).foldl (Flood.offer u) s) ∧
      (rest.foldl (visit passable) (reached, s.queue)).2 =
        ((rest.filter passable).foldl (Flood.offer u) s).queue := by
  induction rest generalizing reached s with
  | nil => exact ⟨hmarks, rfl⟩
  | cons v rest ih =>
      obtain ⟨hv, hrest⟩ := List.forall_mem_cons.1 hrest
      obtain ⟨hmarks, hqueue⟩ := marks_visit (u := u) hmarks hv
      have hsplit : ((v :: rest).filter passable).foldl (Flood.offer u) s =
          (rest.filter passable).foldl (Flood.offer u)
            (([v].filter passable).foldl (Flood.offer u) s) := by
        rw [← List.foldl_append, ← List.filter_append, List.singleton_append]
      have hpair : visit passable (reached, s.queue) v =
          ((visit passable (reached, s.queue) v).1,
            (([v].filter passable).foldl (Flood.offer u) s).queue) := Prod.ext rfl hqueue
      rw [List.foldl_cons, hsplit, hpair]
      exact ih hmarks hrest

theorem mem_nextCells_bound
    (hbound : ∀ u < cells, ∀ v ∈ neighbors u, passable v = true → v < cells) :
    ∀ u ∈ List.range cells, ∀ v ∈ nextCells passable neighbors u, v ∈ List.range cells := by
  intro u hu v hv
  obtain ⟨hmem, hpass⟩ := List.mem_filter.1 hv
  exact List.mem_range.2 (hbound u (List.mem_range.1 hu) v hmem hpass)

/-- The loop is a flood. -/
theorem marks_flood (hbound : ∀ u < cells, ∀ v ∈ neighbors u, passable v = true → v < cells)
    (rounds : Nat) {reached : List Bool} {s : Flood ℕ} (hmarks : Marks cells reached s)
    (hsound : s.Sound [entry] (List.range cells) (nextCells passable neighbors) s.queue
      (waiting s.queue)) :
    Marks cells (flood passable neighbors rounds reached s.queue)
      ((Flood.turn (nextCells passable neighbors))^[rounds] s) := by
  induction rounds generalizing reached s with
  | zero => exact hmarks
  | succ rounds ih =>
      rw [Function.iterate_succ_apply]
      cases hline : s.queue with
      | nil =>
          rw [flood, Flood.turn_of_nil hline, Flood.run_of_nil hline]
          exact hmarks
      | cons u queue =>
          have hu : u < cells := by
            apply List.mem_range.1
            apply hsound.known
            apply (hsound.found u).2
            rw [hline]
            exact List.mem_append_right _ List.mem_cons_self
          have hpopped : Marks cells reached
              { s with queue := queue, visited := s.visited ++ [u] } := hmarks
          obtain ⟨hdone, hrest⟩ := marks_visits (u := u) (neighbors u) hpopped (hbound u hu)
          have hturn : s.turn (nextCells passable neighbors) =
              ((neighbors u).filter passable).foldl (Flood.offer u)
                { s with queue := queue, visited := s.visited ++ [u] } := by
            rw [Flood.turn, hline]
            rfl
          have hnext := hsound.turn (mem_nextCells_bound hbound)
          rw [hturn] at hnext
          rw [flood, hturn]
          dsimp only at hdone hrest ⊢
          rw [hrest]
          exact ih hdone hnext

/-- **A flood reaches exactly the cells connected to the entry.** -/
theorem floodFrom_iff (hentry : entry < cells)
    (hbound : ∀ u < cells, ∀ v ∈ neighbors u, passable v = true → v < cells) (v : Nat) :
    (floodFrom passable neighbors cells entry).getD v false = true ↔
      Connected passable neighbors entry v := by
  have hblank : ∀ w, (List.replicate cells false).getD w false = false := by
    intro w
    rw [List.getD_eq_getElem?_getD, List.getElem?_replicate]
    split <;> rfl
  rw [floodFrom, Connected]
  cases hpass : passable entry with
  | false =>
      rw [if_neg Bool.false_ne_true, hblank]
      simp
  | true =>
      have hroot : ∀ w ∈ [entry], w ∈ List.range cells := by
        intro w hw
        rw [List.mem_singleton.1 hw]
        exact List.mem_range.2 hentry
      have hstart : Marks cells ((List.replicate cells false).set entry true)
          (Flood.start [entry]) := by
        refine ⟨by simp, fun w => ?_⟩
        by_cases hw : w = entry
        · subst hw
          simp [Flood.start, hentry]
        · have hkeep : ((List.replicate cells false).set entry true).getD w false =
              (List.replicate cells false).getD w false := by
            simp [List.getD_eq_getElem?_getD, List.getElem?_set_ne (Ne.symm hw)]
          rw [hkeep, hblank]
          simp [Flood.start, hw]
      have hmarks := marks_flood hbound cells hstart
        (.start (List.nodup_singleton entry) hroot)
      have hreach := Flood.parent_run_iff (v := v) (mem_nextCells_bound hbound)
        (List.nodup_singleton entry) hroot
      rw [List.length_range] at hreach
      have hflag : (flood passable neighbors cells ((List.replicate cells false).set entry true)
          [entry]).getD v false = _ := hmarks.2 v
      rw [if_pos rfl, ← hreach, hflag, Option.isSome_iff_ne_none]
      exact (and_iff_right rfl).symm

theorem Connected.mono {passable' : Nat → Bool} {neighbors' : Nat → List Nat} {v : Nat}
    (hpass : ∀ u, passable u = true → passable' u = true)
    (hnext : ∀ u, ∀ w ∈ neighbors u, passable w = true → w ∈ neighbors' u)
    (h : Connected passable neighbors entry v) : Connected passable' neighbors' entry v := by
  obtain ⟨hentry, n, hn⟩ := h
  refine ⟨hpass entry hentry, n, hn.mono fun u _ w hw => ?_⟩
  obtain ⟨hmem, hw⟩ := List.mem_filter.1 hw
  exact List.mem_filter.2 ⟨hnext u w hmem hw, hpass w hw⟩

end Flooding

/-! ## Judging the targets -/

section Judging

variable {approaches : Nat → List Nat} {clear potential : List Bool} {indices : List Nat}

/-- No approach of the cell is reached. -/
def CutOff (approaches : Nat → List Nat) (reached : List Bool) (index : Nat) : Prop :=
  ∀ v ∈ approaches index, reached.getD v false = false

theorem cutOff_iff {reached : List Bool} {index : Nat} :
    CutOff approaches reached index ↔ (approaches index).any (reached.getD · false) = false := by
  rw [List.any_eq_false]
  simp only [CutOff, Bool.not_eq_true]

theorem judgeTargets_true_iff :
    judgeTargets approaches clear potential .true indices = .true ↔
      ∀ i ∈ indices, ¬ CutOff approaches clear i := by
  rw [judgeTargets_eq]
  refine (Truth.all_eq_true_iff _).trans ?_
  rw [List.forall_mem_map]
  refine forall₂_congr fun i _ => ?_
  rw [cutOff_iff, approach]
  cases (approaches i).any (clear.getD · false) with
  | true => simp
  | false =>
      cases (approaches i).any (potential.getD · false) <;> simp

theorem judgeTargets_false_iff (hsub : ∀ v, clear.getD v false = true → potential.getD v false = true) :
    judgeTargets approaches clear potential .true indices = .false ↔
      ∃ i ∈ indices, CutOff approaches potential i := by
  rw [judgeTargets_eq]
  refine (Truth.all_eq_false_iff _).trans ?_
  rw [List.mem_map]
  refine exists_congr fun i => and_congr_right fun _ => ?_
  rw [cutOff_iff, approach]
  cases hclear : (approaches i).any (clear.getD · false) with
  | true =>
      obtain ⟨v, hv, hreached⟩ := List.any_eq_true.1 hclear
      have hpotential : (approaches i).any (potential.getD · false) = true :=
        List.any_eq_true.2 ⟨v, hv, hsub v hreached⟩
      rw [hpotential, if_pos rfl]
      exact ⟨fun h => (by cases h), fun h => (by cases h)⟩
  | false =>
      cases (approaches i).any (potential.getD · false) <;> simp

end Judging

/-! ## The cells of a region -/

theorem length_rangeInclusive (lo hi : S 32) :
    (S.rangeInclusive lo hi).length = (hi.val - lo.val + 1).toNat := by
  have hsome : ∀ i ∈ (List.range (hi.val - lo.val + 1).toNat).map Int.ofNat,
      (S.ofInt? (lo.val + i) : Option (S 32)).isSome := by
    intro i hi'
    obtain ⟨k, hk, rfl⟩ := List.mem_map.1 hi'
    rw [List.mem_range] at hk
    have hlo := lo.property
    have hhi := hi.property
    rw [S.ofInt?, dif_pos]
    · rfl
    · simp only [Int.ofNat_eq_natCast]
      omega
  have hmap : S.rangeInclusive lo hi =
      ((List.range (hi.val - lo.val + 1).toNat).map Int.ofNat).filterMap
        fun i => S.ofInt? (lo.val + i) := by
    rw [S.rangeInclusive, ← List.flatMap_pure_eq_map]
    rfl
  rw [hmap, List.filterMap_length_eq_length.2 hsome, List.length_map, List.length_range]

theorem length_regionTiles (area : MapCuboid) :
    (regionTiles area).length = (area.max.z.val - area.min.z.val + 1).toNat *
      ((area.max.y.val - area.min.y.val + 1).toNat *
        (area.max.x.val - area.min.x.val + 1).toNat) := by
  simp only [regionTiles, List.length_flatMap, List.length_map, length_rangeInclusive,
    List.map_const', List.sum_replicate, nsmul_eq_mul, Nat.cast_id]

theorem mem_rowNeighbors {i v : Nat} {c₁ c₂ c₃ c₄ : Prop} [Decidable c₁] [Decidable c₂]
    [Decidable c₃] [Decidable c₄] {width : Nat} :
    v ∈ [if c₁ then some (i - 1) else none, if c₂ then some (i + 1) else none,
        if c₃ then some (i - width) else none,
        if c₄ then some (i + width) else none].reduceOption ↔
      c₁ ∧ v = i - 1 ∨ c₂ ∧ v = i + 1 ∨ c₃ ∧ v = i - width ∨ c₄ ∧ v = i + width := by
  rw [List.reduceOption_mem_iff]
  simp only [List.mem_cons, List.not_mem_nil, or_false, eq_comm (a := some v)]
  split_ifs <;> simp_all [eq_comm]

/-- A neighbour in a grid of rows of `width`. -/
theorem Grid.neighbors_lt {grid : Grid} {u v : Nat} (hu : u < grid.width * grid.height)
    (hv : v ∈ grid.neighbors u) : v < grid.width * grid.height := by
  rw [Grid.neighbors, mem_rowNeighbors] at hv
  have hrow := Nat.div_add_mod u grid.width
  have hy : u / grid.width < grid.height := Nat.div_lt_of_lt_mul hu
  rcases hv with ⟨_, rfl⟩ | ⟨hx, rfl⟩ | ⟨_, rfl⟩ | ⟨hdown, rfl⟩
  · omega
  · have hle : grid.width * (u / grid.width + 1) ≤ grid.width * grid.height :=
      Nat.mul_le_mul_left _ hy
    rw [Nat.mul_add, Nat.mul_one] at hle
    omega
  · omega
  · have hle : grid.width * (u / grid.width + 1 + 1) ≤ grid.width * grid.height :=
      Nat.mul_le_mul_left _ hdown
    have hmod : u % grid.width < grid.width := by
      apply Nat.mod_lt
      exact Nat.pos_of_ne_zero fun h0 => by simp [h0] at hu
    rw [Nat.mul_add, Nat.mul_add, Nat.mul_one] at hle
    omega

theorem PairedStairsGrid.horizontalNeighbors_lt {grid : PairedStairsGrid} {u v : Nat}
    (hu : u < grid.width * (grid.height * grid.depth)) (hv : v ∈ grid.horizontalNeighbors u) :
    v < grid.width * (grid.height * grid.depth) := by
  apply @Grid.neighbors_lt ⟨grid.area, grid.width, grid.height * grid.depth⟩ _ _ hu
  rw [PairedStairsGrid.horizontalNeighbors, mem_rowNeighbors] at hv
  rw [Grid.neighbors, mem_rowNeighbors]
  dsimp only
  have hrow : u / grid.width < grid.height * grid.depth := Nat.div_lt_of_lt_mul hu
  have hlevel := Nat.div_add_mod (u / grid.width) grid.height
  have hz : u / grid.width / grid.height < grid.depth := Nat.div_lt_of_lt_mul hrow
  rcases hv with ⟨hx, rfl⟩ | ⟨hx, rfl⟩ | ⟨hy, rfl⟩ | ⟨hy, rfl⟩
  · exact .inl ⟨hx, rfl⟩
  · exact .inr (.inl ⟨hx, rfl⟩)
  · refine .inr (.inr (.inl ⟨?_, rfl⟩))
    have hle := Nat.mod_le (u / grid.width) grid.height
    omega
  · refine .inr (.inr (.inr ⟨?_, rfl⟩))
    have hle : grid.height * (u / grid.width / grid.height + 1) ≤ grid.height * grid.depth :=
      Nat.mul_le_mul_left _ hz
    rw [Nat.mul_add, Nat.mul_one] at hle
    omega

theorem PairedStairsGrid.verticalNeighbors_lt {grid : PairedStairsGrid} {u v : Nat}
    (hu : u < grid.width * (grid.height * grid.depth)) (hv : v ∈ grid.verticalNeighbors u) :
    v < grid.width * (grid.height * grid.depth) := by
  rw [PairedStairsGrid.verticalNeighbors, List.reduceOption_mem_iff] at hv
  simp only [List.mem_cons, List.not_mem_nil, or_false] at hv
  rw [← Nat.mul_assoc] at hu ⊢
  have hlevel := Nat.div_add_mod u (grid.width * grid.height)
  rcases hv with hv | hv
  · split_ifs at hv
    cases hv
    omega
  · split_ifs at hv with hz
    cases hv
    have hle : grid.width * grid.height * (u / (grid.width * grid.height) + 1 + 1) ≤
        grid.width * grid.height * grid.depth := Nat.mul_le_mul_left _ hz
    have hmod : u % (grid.width * grid.height) < grid.width * grid.height := by
      apply Nat.mod_lt
      exact Nat.pos_of_ne_zero fun h0 => by simp [h0] at hu
    rw [Nat.mul_add, Nat.mul_add, Nat.mul_one] at hle
    omega

/-! ## The answer of a request -/

/-- The side of an area along one axis. -/
def extent (lo hi : S 32) : Nat := (hi.val - lo.val + 1).toNat

theorem dimension_eq {message : String} {lo hi : S 32} (h : lo ≤ hi) :
    dimension message lo hi = .ok (extent lo hi) := by
  have hle : lo.val ≤ hi.val := h
  rw [dimension, if_neg (by omega)]
  rfl

theorem validRegion_of_ok {area : MapCuboid} {tiles : U 64} (h : validateRegion area = .ok tiles) :
    area.min.x ≤ area.max.x ∧ area.min.y ≤ area.max.y ∧ area.min.z ≤ area.max.z := by
  unfold validateRegion at h
  split at h
  · cases h
  · simp only [not_or, not_lt] at *
    assumption

/-- The corners of an area are in order. -/
theorem contains_bounds {area : MapCuboid} {c : MapCoord} (h : area.contains c = true) :
    (area.min.x.val ≤ c.x.val ∧ c.x.val ≤ area.max.x.val) ∧
      (area.min.y.val ≤ c.y.val ∧ c.y.val ≤ area.max.y.val) ∧
      (area.min.z.val ≤ c.z.val ∧ c.z.val ≤ area.max.z.val) := by
  simp only [MapCuboid.contains, Bool.and_eq_true, decide_eq_true_eq] at h
  obtain ⟨⟨⟨⟨⟨h₁, h₂⟩, h₃⟩, h₄⟩, h₅⟩, h₆⟩ := h
  exact ⟨⟨h₁, h₂⟩, ⟨h₃, h₄⟩, ⟨h₅, h₆⟩⟩

section Single

variable {s t : WorldSnapshot} {area : MapCuboid} {entry : MapCoord} {targets : List MapCoord}
  {footprints : BTreeMap EntityId MapCuboid}

def gridOf (area : MapCuboid) : Grid :=
  ⟨area, extent area.min.x area.max.x, extent area.min.y area.max.y⟩

/-- The cells of a list of tiles. -/
def places (index : MapCoord → Option Nat) (tiles : List MapCoord) : List Nat :=
  tiles.map fun tile => (index tile).getD 0

/-- The cells that footprints and targets occupy. -/
def occupancy (area : MapCuboid) (footprints : BTreeMap EntityId MapCuboid)
    (targets : List MapCoord) : List Bool :=
  (places (gridOf area).index targets).foldl (fun cells index => cells.set index true)
    ((gridOf area).occupied footprints)

/-- The cells that are free and whose terrain reads so. -/
def walkable (occupied : List Bool) (terrain : List (Option (U 32)))
    (reading : Option (U 32) → Bool) (cell : Nat) : Bool :=
  !occupied.getD cell false && reading (terrain.getD cell none)

def isFloor (code : Option (U 32)) : Bool := code = some TileCodes.floor

/-- How the single-level version reads a tile that perhaps is floor. -/
def mayBeFloor (code : Option (U 32)) : Bool := code.all (· = TileCodes.floor)

/-- A tile that is floor, or not observed. -/
def mayBecomeFloor (code : Option (U 32)) : Bool :=
  (code.filter (· ≠ TileCodes.unknown)).all (· = TileCodes.floor)

theorem valid_of_ok {tiles : U 64} (h : validateRequest area entry targets = .ok tiles) :
    (area.min.x ≤ area.max.x ∧ area.min.y ≤ area.max.y ∧ area.min.z = area.max.z) ∧
      area.contains entry = true ∧ ∀ c ∈ targets, area.contains c = true := by
  simp only [validateRequest, bind_ok_iff, guard_ok_iff, pure_ok_iff] at h
  obtain ⟨_, hregion, hlevel, _, hinside, _⟩ := h
  obtain ⟨hx, hy, _⟩ := validRegion_of_ok hregion
  simp only [not_not] at hlevel
  simp only [Bool.or_eq_true, Bool.not_eq_true', not_or, Bool.not_eq_false, List.any_eq_true,
    not_exists, not_and] at hinside
  exact ⟨⟨hx, hy, hlevel⟩, hinside.1, fun c hc => by simpa using hinside.2 c hc⟩

theorem index_of_contains {c : MapCoord} (h : area.contains c = true) :
    ∃ i, (gridOf area).index c = some i ∧ i < (gridOf area).width * (gridOf area).height := by
  obtain ⟨⟨hx, hx'⟩, ⟨hy, hy'⟩, _⟩ := contains_bounds h
  have hindex : (gridOf area).index c = some ((c.y.val - area.min.y.val).toNat *
      (gridOf area).width + (c.x.val - area.min.x.val).toNat) := by
    rw [Grid.index, gridOf]
    dsimp only
    rw [h, Bool.not_true, if_neg Bool.false_ne_true]
  refine ⟨_, hindex, ?_⟩
  have hwidth : (c.x.val - area.min.x.val).toNat < (gridOf area).width := by
    show _ < (area.max.x.val - area.min.x.val + 1).toNat
    omega
  have hheight : (c.y.val - area.min.y.val).toNat + 1 ≤ (gridOf area).height := by
    show _ ≤ (area.max.y.val - area.min.y.val + 1).toNat
    omega
  have hle := Nat.mul_le_mul_left (gridOf area).width hheight
  rw [Nat.mul_add, Nat.mul_one, Nat.mul_comm] at hle
  omega

/-- The terrain of an area, tile by tile. -/
def terrainOf (s : WorldSnapshot) (area : MapCuboid) : List (Option (U 32)) :=
  (regionTiles area).map (boundedTileCode s)

theorem access_eq {tiles : U 64} {e : Nat} (hvalid : validateRequest area entry targets = .ok tiles)
    (hfootprints : laboratoryBuildingFootprints s = .ok footprints)
    (he : (gridOf area).index entry = some e) :
    laboratoryRoomAccessTruth s area entry targets = .ok (judgeTargets (gridOf area).neighbors
      (floodFrom (walkable (occupancy area footprints targets) (terrainOf s area) isFloor)
        (gridOf area).neighbors (terrainOf s area).length e)
      (floodFrom (walkable (occupancy area footprints targets) (terrainOf s area) mayBeFloor)
        (gridOf area).neighbors (terrainOf s area).length e)
      .true (places (gridOf area).index targets)) := by
  obtain ⟨⟨hx, hy, _⟩, _, htargets⟩ := valid_of_ok hvalid
  have hplaced : placeTargets (gridOf area).index "access target left its area" targets =
      .ok (places (gridOf area).index targets) := by
    rw [placeTargets_eq, if_pos]
    · rfl
    · intro c hc
      obtain ⟨i, hi, _⟩ := index_of_contains (htargets c hc)
      rw [hi]
      rfl
  unfold laboratoryRoomAccessTruth
  rw [hvalid, hfootprints, dimension_eq hx, dimension_eq hy]
  simp only [bind, Except.bind]
  rw [← gridOf, hplaced]
  dsimp only
  rw [he]
  rfl

/-- A request that is not answered on the terrain is not answered definitely. -/
theorem access_refused {truth : Truth} (htruth : truth ≠ .unknown)
    (h : laboratoryRoomAccessTruth s area entry targets = .ok truth) :
    ∃ tiles footprints e, validateRequest area entry targets = .ok tiles ∧
      laboratoryBuildingFootprints s = .ok footprints ∧ (gridOf area).index entry = some e ∧
      e < (gridOf area).width * (gridOf area).height := by
  cases hvalid : validateRequest area entry targets with
  | error error =>
      rw [laboratoryRoomAccessTruth, hvalid] at h
      cases h
  | ok tiles =>
      obtain ⟨e, he, hlt⟩ := index_of_contains (valid_of_ok hvalid).2.1
      cases hfootprints : laboratoryBuildingFootprints s with
      | error error =>
          rw [laboratoryRoomAccessTruth, hvalid, hfootprints] at h
          simp only [bind, Except.bind] at h
          split at h
          · cases h
          · cases h
            exact absurd rfl htruth
      | ok footprints => exact ⟨tiles, footprints, e, rfl, rfl, he, hlt⟩

theorem length_terrainOf (s : WorldSnapshot) {tiles : U 64}
    (hvalid : validateRequest area entry targets = .ok tiles) :
    (terrainOf s area).length = (gridOf area).width * (gridOf area).height := by
  obtain ⟨⟨_, _, hz⟩, _⟩ := valid_of_ok hvalid
  rw [terrainOf, List.length_map, length_regionTiles, hz, sub_self, Nat.mul_comm]
  exact Nat.mul_one _ ▸ Nat.mul_comm _ _

/-- Cells connected to the entry over free tiles that read so. -/
def Walks (s : WorldSnapshot) (area : MapCuboid) (footprints : BTreeMap EntityId MapCuboid)
    (targets : List MapCoord) (reading : Option (U 32) → Bool) (e v : Nat) : Prop :=
  Connected (walkable (occupancy area footprints targets) (terrainOf s area) reading)
    (gridOf area).neighbors e v

/-- The cells beside a tile. -/
def beside (area : MapCuboid) (tile : MapCoord) : List Nat :=
  (gridOf area).neighbors (((gridOf area).index tile).getD 0)

/-- A target without an approach that is connected to the entry. -/
def Stranded (s : WorldSnapshot) (area : MapCuboid) (entry : MapCoord) (targets : List MapCoord)
    (reading : Option (U 32) → Bool) : Prop :=
  (∃ tiles, validateRequest area entry targets = .ok tiles) ∧
    ∃ footprints, laboratoryBuildingFootprints s = .ok footprints ∧
      ∃ e, (gridOf area).index entry = some e ∧ ∃ target ∈ targets,
        ∀ v ∈ beside area target, ¬ Walks s area footprints targets reading e v

theorem floodFrom_walkable {tiles : U 64} {e : Nat}
    (hvalid : validateRequest area entry targets = .ok tiles)
    (he : e < (gridOf area).width * (gridOf area).height) (reading : Option (U 32) → Bool)
    (v : Nat) :
    (floodFrom (walkable (occupancy area footprints targets) (terrainOf s area) reading)
      (gridOf area).neighbors (terrainOf s area).length e).getD v false = true ↔
      Walks s area footprints targets reading e v := by
  rw [length_terrainOf s hvalid]
  exact floodFrom_iff he (fun u hu w hw _ => Grid.neighbors_lt hu hw) v

theorem Walks.mono {reading reading' : Option (U 32) → Bool} {e v : Nat}
    (hreading : ∀ cell, reading ((terrainOf s area).getD cell none) = true →
      reading' ((terrainOf t area).getD cell none) = true)
    (h : Walks s area footprints targets reading e v) :
    Walks t area footprints targets reading' e v := by
  refine Connected.mono (fun u hu => ?_) (fun u w hw _ => hw) h
  simp only [walkable, Bool.and_eq_true] at hu ⊢
  exact ⟨hu.1, hreading u hu.2⟩

theorem access_iff {tiles : U 64} {e : Nat}
    (hvalid : validateRequest area entry targets = .ok tiles)
    (hfootprints : laboratoryBuildingFootprints s = .ok footprints)
    (he : (gridOf area).index entry = some e) (hlt : e < (gridOf area).width * (gridOf area).height) :
    (laboratoryRoomAccessTruth s area entry targets = .ok .true ↔
      ∀ target ∈ targets, ∃ v ∈ beside area target,
        Walks s area footprints targets isFloor e v) ∧
    (laboratoryRoomAccessTruth s area entry targets = .ok .false ↔
      ∃ target ∈ targets, ∀ v ∈ beside area target,
        ¬ Walks s area footprints targets mayBeFloor e v) := by
  have hwalks := @floodFrom_walkable s _ _ _ footprints _ _ hvalid hlt
  have hsub : ∀ v, Walks s area footprints targets isFloor e v →
      Walks s area footprints targets mayBeFloor e v := fun v =>
    Walks.mono fun cell hcell => by
      rw [isFloor, decide_eq_true_eq] at hcell
      rw [hcell]
      rfl
  have hcut : ∀ reading i, CutOff (gridOf area).neighbors
      (floodFrom (walkable (occupancy area footprints targets) (terrainOf s area) reading)
        (gridOf area).neighbors (terrainOf s area).length e) i ↔
      ∀ v ∈ (gridOf area).neighbors i, ¬ Walks s area footprints targets reading e v := by
    intro reading i
    refine forall₂_congr fun v _ => ?_
    rw [← hwalks reading v, Bool.not_eq_true]
  rw [access_eq hvalid hfootprints he, Except.ok.injEq, Except.ok.injEq, judgeTargets_true_iff,
    judgeTargets_false_iff fun v hv => (hwalks _ v).2 (hsub v ((hwalks _ v).1 hv))]
  simp only [hcut, places, List.mem_map, forall_exists_index, and_imp, forall_apply_eq_imp_iff₂,
    exists_exists_and_eq_and, not_forall, not_not, exists_prop, beside, and_self]

/-- **The answer is negative exactly when a target is cut off.** -/
theorem access_false_iff :
    laboratoryRoomAccessTruth s area entry targets = .ok .false ↔
      Stranded s area entry targets mayBeFloor := by
  constructor
  · intro h
    obtain ⟨tiles, footprints, e, hvalid, hfootprints, he, hlt⟩ :=
      access_refused (show Truth.false ≠ .unknown by decide) h
    exact ⟨⟨tiles, hvalid⟩, footprints, hfootprints, e, he,
      (access_iff hvalid hfootprints he hlt).2.1 h⟩
  · intro ⟨⟨tiles, hvalid⟩, footprints, hfootprints, e, he, hstranded⟩
    obtain ⟨e', he', hlt⟩ := index_of_contains (valid_of_ok hvalid).2.1
    rw [he'] at he
    cases he
    exact (access_iff hvalid hfootprints he' hlt).2.2 hstranded

end Single

/-! ## Observations still to be made -/

/-- Unobserved tiles have become observed, and nothing else has changed but the hash. -/
structure Reveals (s t : WorldSnapshot) : Prop where
  rest : ∃ chunks stateHash, t = { s with graph := { s.graph with chunks }, stateHash }
  tiles : ∀ tile, boundedTileCode t tile = boundedTileCode s tile ∨
    (boundedTileCode s tile).filter (· ≠ TileCodes.unknown) = none ∧
      ∃ code, code ≠ TileCodes.unknown ∧ boundedTileCode t tile = some code

/-- A definite answer that every observation still to be made leaves alone. -/
def Stable (answer : WorldSnapshot → Result PredicateTruth) (s : WorldSnapshot) : Prop :=
  ∀ truth, truth ≠ .unknown → answer s = .ok truth → ∀ t, Reveals s t → answer t = .ok truth

section Revealing

variable {s t : WorldSnapshot} (h : Reveals s t)
include h

/-- The building census does not look at the terrain. -/
theorem Reveals.footprints : laboratoryBuildingFootprints t = laboratoryBuildingFootprints s := by
  obtain ⟨chunks, stateHash, rfl⟩ := h.rest
  rfl

/-- What was observed stays, and unobserved tiles are now known or as before. -/
theorem Reveals.observed {tile : MapCoord} {code : U 32} (hcode : code ≠ TileCodes.unknown)
    (hs : boundedTileCode s tile = some code) : boundedTileCode t tile = some code := by
  rcases h.tiles tile with heq | ⟨hunobserved, _⟩
  · rw [heq, hs]
  · rw [hs, Option.filter_some, if_pos (by simpa using hcode)] at hunobserved
    cases hunobserved

theorem Reveals.unrevealed {tile : MapCoord} :
    boundedTileCode t tile = boundedTileCode s tile ∨
      (boundedTileCode s tile).filter (· ≠ TileCodes.unknown) = none := by
  rcases h.tiles tile with heq | ⟨hunobserved, _⟩
  · exact .inl heq
  · exact .inr hunobserved

omit h in
/-- What holds of the codes of each tile holds cell by cell. -/
theorem getD_tiles {P : Option (U 32) → Option (U 32) → Prop} (hnone : P none none)
    {f g : MapCoord → Option (U 32)} (htiles : ∀ tile, P (f tile) (g tile)) (area : MapCuboid)
    (cell : Nat) :
    P (((regionTiles area).map f).getD cell none) (((regionTiles area).map g).getD cell none) := by
  rw [List.getD_eq_getElem?_getD, List.getD_eq_getElem?_getD, List.getElem?_map, List.getElem?_map]
  cases (regionTiles area)[cell]? with
  | none => exact hnone
  | some tile => exact htiles tile

/-- A positive answer of the single-level version stays. -/
theorem Reveals.access_true {area : MapCuboid} {entry : MapCoord} {targets : List MapCoord}
    (hs : laboratoryRoomAccessTruth s area entry targets = .ok .true) :
    laboratoryRoomAccessTruth t area entry targets = .ok .true := by
  obtain ⟨tiles, footprints, e, hvalid, hfootprints, he, hlt⟩ :=
    access_refused (show Truth.true ≠ .unknown by decide) hs
  have hfootprints' := h.footprints.trans hfootprints
  apply (access_iff hvalid hfootprints' he hlt).1.2
  intro target htarget
  obtain ⟨v, hv, hwalks⟩ := (access_iff hvalid hfootprints he hlt).1.1 hs target htarget
  refine ⟨v, hv, hwalks.mono fun cell => ?_⟩
  apply getD_tiles (P := fun a b => isFloor a = true → isFloor b = true) id
  intro tile hfloor
  simp only [isFloor, decide_eq_true_eq] at hfloor ⊢
  exact h.observed (by decide) hfloor

/-- A target that stays cut off whatever the unobserved tiles are. -/
theorem Reveals.stranded {area : MapCuboid} {entry : MapCoord} {targets : List MapCoord}
    (hs : Stranded s area entry targets mayBecomeFloor) :
    Stranded t area entry targets mayBeFloor := by
  obtain ⟨hvalid, footprints, hfootprints, e, he, target, htarget, hcut⟩ := hs
  refine ⟨hvalid, footprints, h.footprints.trans hfootprints, e, he, target, htarget,
    fun v hv hwalks => hcut v hv (hwalks.mono fun cell => ?_)⟩
  apply getD_tiles (P := fun a b => mayBeFloor a = true → mayBecomeFloor b = true) (fun _ => rfl)
  intro tile hfloor
  rcases @Reveals.unrevealed _ _ h tile with heq | hunobserved
  · rw [heq] at hfloor
    cases hcode : boundedTileCode s tile with
    | none => rfl
    | some code =>
        rw [hcode] at hfloor
        have heq' : code = TileCodes.floor := by simpa [mayBeFloor] using hfloor
        subst heq'
        decide
  · rw [mayBecomeFloor, hunobserved]
    rfl

end Revealing

/-! ## The most favourable observation -/

section Clearing

/-- The code of one offset of a chunk. -/
def codeAt (s : WorldSnapshot) (slot : TileSlot) : Option (U 32) :=
  (s.graph.chunks.get? slot.chunk).bind fun chunk =>
    if chunk.coord ≠ slot.chunk ∨ chunk.width.val ≠ terrainChunkEdge ∨
        chunk.height.val ≠ terrainChunkEdge ∨ chunk.terrainRuns.length > terrainChunkTiles.val then
      none
    else boundedRuns slot.offset 0 none chunk.terrainRuns

theorem boundedTileCode_eq (s : WorldSnapshot) (tile : MapCoord) :
    boundedTileCode s tile = codeAt s (tileSlot tile) := rfl

/-- What a tile turns out to be: what it was seen to be, or floor. -/
def clearedCode (s : WorldSnapshot) (slot : TileSlot) : U 32 :=
  ((codeAt s slot).filter (· ≠ TileCodes.unknown)).getD TileCodes.floor

/-- A chunk with every unobserved tile turned into floor. -/
def clearedChunk (s : WorldSnapshot) (coord : ChunkCoord) : MapChunk where
  coord
  revision := 0
  width := 16
  height := 16
  terrainRuns := (List.range 256).map fun offset => ⟨clearedCode s ⟨coord, U.wrap offset⟩, 1⟩
  sparseOverlays := .nil

/-- A snapshot with the chunks of some tiles cleared. -/
def cleared (s : WorldSnapshot) (tiles : List MapCoord) : WorldSnapshot :=
  { s with graph := { s.graph with
      chunks := tiles.foldl (fun chunks tile =>
        chunks.insert (tileSlot tile).chunk (clearedChunk s (tileSlot tile).chunk))
        s.graph.chunks } }

theorem get?_cleared (s : WorldSnapshot) (tiles : List MapCoord) (coord : ChunkCoord) :
    (cleared s tiles).graph.chunks.get? coord =
      if coord ∈ tiles.map fun tile => (tileSlot tile).chunk then some (clearedChunk s coord)
      else s.graph.chunks.get? coord := by
  have hfold : ∀ chunks : BTreeMap ChunkCoord MapChunk,
      (tiles.foldl (fun chunks tile => chunks.insert (tileSlot tile).chunk
        (clearedChunk s (tileSlot tile).chunk)) chunks).get? coord =
        if coord ∈ tiles.map fun tile => (tileSlot tile).chunk then some (clearedChunk s coord)
        else chunks.get? coord := by
    induction tiles with
    | nil => exact fun _ => rfl
    | cons tile rest ih =>
        intro chunks
        rw [List.foldl_cons, ih, List.map_cons]
        by_cases hrest : coord ∈ rest.map fun tile => (tileSlot tile).chunk
        · rw [if_pos hrest, if_pos (List.mem_cons_of_mem _ hrest)]
        · rw [if_neg hrest]
          rw [OMap.get?_insert]
          by_cases htile : coord = (tileSlot tile).chunk
          · rw [if_pos htile, if_pos (List.mem_cons.2 (.inl htile)), htile]
          · rw [if_neg htile, if_neg fun hmem => (List.mem_cons.1 hmem).elim htile hrest]
  exact hfold _

/-- The runs of one tile each read as the codes they were made from. -/
theorem boundedRuns_map (f : Nat → U 32) (offset : U 32) (hoffset : offset.val < 256)
    (n : Nat) (hn : n ≤ 256) (code : Option (U 32)) :
    boundedRuns offset (U.wrap (256 - n)) code
        ((List.range' (256 - n) n).map fun i => ⟨f i, 1⟩) =
      if 256 - n ≤ offset.val then some (f offset.val) else code := by
  induction n generalizing code with
  | zero =>
      rw [if_neg (by omega)]
      rfl
  | succ n ih =>
      have hstart : (U.wrap (256 - (n + 1)) : U 32).val = 256 - (n + 1) := U.wrap_val (by omega)
      have hstop : (U.wrap (256 - n) : U 32).val = 256 - n := U.wrap_val (by omega)
      have hnext : 256 - (n + 1) + 1 = 256 - n := by omega
      have hadd : (U.wrap (256 - (n + 1)) : U 32).checkedAdd 1 = some (U.wrap (256 - n)) := by
        rw [U.checkedAdd_eq_some, hstart, hstop]
        exact hnext
      have hfits : ¬ ((1 : U 32) = 0 ∨ (U.wrap (256 - n) : U 32) > terrainChunkTiles) := by
        rw [not_or, not_lt, Fin.le_def, hstop]
        exact ⟨by decide, Nat.sub_le 256 n⟩
      rw [List.range'_succ, List.map_cons, boundedRuns]
      dsimp only
      rw [hadd]
      dsimp only
      rw [if_neg hfits, hnext, ih (by omega)]
      by_cases hlater : 256 - n ≤ offset.val
      · rw [if_pos hlater, if_pos (by omega)]
      · rw [if_neg hlater]
        by_cases hhere : 256 - (n + 1) ≤ offset.val
        · have hoffset' : offset.val = 256 - (n + 1) := by omega
          rw [if_pos hhere, if_pos, hoffset']
          rw [Fin.le_def, Fin.lt_def, hstart, hstop]
          omega
        · rw [if_neg hhere, if_neg]
          rw [Fin.le_def, hstart]
          omega

theorem codeAt_cleared (s : WorldSnapshot) (tiles : List MapCoord) (slot : TileSlot)
    (hoffset : slot.offset.val < 256) :
    codeAt (cleared s tiles) slot =
      if slot.chunk ∈ tiles.map fun tile => (tileSlot tile).chunk then some (clearedCode s slot)
      else codeAt s slot := by
  rw [codeAt, get?_cleared]
  by_cases hmem : slot.chunk ∈ tiles.map fun tile => (tileSlot tile).chunk
  · have hruns := boundedRuns_map (fun i => clearedCode s ⟨slot.chunk, U.wrap i⟩) slot.offset
      hoffset 256 le_rfl none
    have hself : (U.wrap slot.offset.val : U 32) = slot.offset := by
      apply Fin.ext
      exact U.wrap_val slot.offset.isLt
    rw [if_pos hmem, if_pos hmem, Option.bind_some, if_neg]
    · rw [if_pos (Nat.zero_le _), hself] at hruns
      rw [clearedChunk, List.range_eq_range']
      exact hruns
    · simp only [clearedChunk, List.length_map, List.length_range, not_or, not_not, not_lt]
      exact ⟨trivial, rfl, rfl, by decide⟩
  · rw [if_neg hmem, if_neg hmem]
    rfl

/-- Clearing is an observation. -/
theorem reveals_cleared (s : WorldSnapshot) (tiles : List MapCoord) :
    Reveals s (cleared s tiles) := by
  refine ⟨⟨_, s.stateHash, rfl⟩, fun tile => ?_⟩
  rw [boundedTileCode_eq, boundedTileCode_eq, codeAt_cleared s tiles _ (tileSlot_offset_lt tile)]
  split
  · cases hcode : (codeAt s (tileSlot tile)).filter (· ≠ TileCodes.unknown) with
    | none =>
        refine .inr ⟨rfl, TileCodes.floor, by decide, ?_⟩
        rw [clearedCode, hcode]
        rfl
    | some code =>
        obtain ⟨hsome, _⟩ := Option.filter_eq_some_iff.1 hcode
        refine .inl ?_
        rw [clearedCode, hcode, hsome]
        rfl
  · exact .inl rfl

/-- In a cleared area every tile that may become floor is floor. -/
theorem mayBeFloor_cleared (s : WorldSnapshot) (area : MapCuboid) (cell : Nat)
    (h : mayBecomeFloor ((terrainOf s area).getD cell none) = true) :
    mayBeFloor ((terrainOf (cleared s (regionTiles area)) area).getD cell none) = true := by
  rw [terrainOf, List.getD_eq_getElem?_getD, List.getElem?_map] at h ⊢
  cases htile : (regionTiles area)[cell]? with
  | none => rfl
  | some tile =>
      rw [htile] at h
      have hmem : (tileSlot tile).chunk ∈
          (regionTiles area).map fun tile => (tileSlot tile).chunk :=
        List.mem_map_of_mem (List.mem_of_getElem? htile)
      have hcode : boundedTileCode (cleared s (regionTiles area)) tile =
          some (clearedCode s (tileSlot tile)) := by
        rw [boundedTileCode_eq, codeAt_cleared _ _ _ (tileSlot_offset_lt tile), if_pos hmem]
      rw [Option.map_some, Option.getD_some, hcode]
      simp only [Option.map_some, Option.getD_some, boundedTileCode_eq, mayBecomeFloor] at h
      rw [clearedCode]
      cases hobserved : (codeAt s (tileSlot tile)).filter (· ≠ TileCodes.unknown) with
      | none => rfl
      | some code =>
          rw [hobserved] at h
          exact h

end Clearing

/-- **The single-level version keeps its definite answers exactly when no target is cut off by
tiles of unknown code alone.** -/
theorem access_stable (s : WorldSnapshot) (area : MapCuboid) (entry : MapCoord)
    (targets : List MapCoord) :
    Stable (laboratoryRoomAccessTruth · area entry targets) s ↔
      (Stranded s area entry targets mayBeFloor → Stranded s area entry targets mayBecomeFloor) := by
  constructor
  · intro hstable hstranded
    have hcleared := hstable .false (by decide) (access_false_iff.2 hstranded) _
      (reveals_cleared s (regionTiles area))
    obtain ⟨hvalid, footprints, hfootprints, e, he, target, htarget, hcut⟩ :=
      access_false_iff.1 hcleared
    exact ⟨hvalid, footprints, hfootprints, e, he, target, htarget, fun v hv hwalks =>
      hcut v hv (hwalks.mono fun cell => mayBeFloor_cleared s area cell)⟩
  · intro himp truth htruth hs t ht
    cases truth with
    | true => exact ht.access_true hs
    | false => exact access_false_iff.2 (ht.stranded (himp (access_false_iff.1 hs)))
    | unknown => exact absurd rfl htruth

/-! ## Paired stairs -/

section Paired

variable {s t : WorldSnapshot} {area : MapCuboid} {entry : MapCoord} {targets : List MapCoord}
  {footprints : BTreeMap EntityId MapCuboid}

def pairedGridOf (area : MapCuboid) : PairedStairsGrid :=
  ⟨area, extent area.min.x area.max.x, extent area.min.y area.max.y, extent area.min.z area.max.z⟩

theorem valid_of_paired_ok {tiles : U 64}
    (h : validatePairedStairsRequest area entry targets = .ok tiles) :
    (area.min.x ≤ area.max.x ∧ area.min.y ≤ area.max.y ∧ area.min.z ≤ area.max.z) ∧
      area.contains entry = true ∧ ∀ c ∈ targets, area.contains c = true := by
  simp only [validatePairedStairsRequest, bind_ok_iff, guard_ok_iff, pure_ok_iff] at h
  obtain ⟨_, hregion, _, hinside, _⟩ := h
  simp only [Bool.or_eq_true, Bool.not_eq_true', not_or, Bool.not_eq_false, List.any_eq_true,
    not_exists, not_and] at hinside
  exact ⟨validRegion_of_ok hregion, hinside.1, fun c hc => by simpa using hinside.2 c hc⟩

/-- The cells of a paired-stairs grid. -/
def volumeOf (area : MapCuboid) : Nat :=
  (pairedGridOf area).width * ((pairedGridOf area).height * (pairedGridOf area).depth)

theorem paired_index_of_contains {c : MapCoord} (h : area.contains c = true) :
    ∃ i, (pairedGridOf area).index c = some i ∧ i < volumeOf area := by
  obtain ⟨⟨hx, hx'⟩, ⟨hy, hy'⟩, ⟨hz, hz'⟩⟩ := contains_bounds h
  have hindex : (pairedGridOf area).index c = some (((c.z.val - area.min.z.val).toNat *
      (pairedGridOf area).height + (c.y.val - area.min.y.val).toNat) * (pairedGridOf area).width +
        (c.x.val - area.min.x.val).toNat) := by
    rw [PairedStairsGrid.index, pairedGridOf]
    dsimp only
    rw [h, Bool.not_true, if_neg Bool.false_ne_true]
  refine ⟨_, hindex, ?_⟩
  have hwidth : (c.x.val - area.min.x.val).toNat < (pairedGridOf area).width := by
    show _ < (area.max.x.val - area.min.x.val + 1).toNat
    omega
  have hheight : (c.y.val - area.min.y.val).toNat + 1 ≤ (pairedGridOf area).height := by
    show _ ≤ (area.max.y.val - area.min.y.val + 1).toNat
    omega
  have hdepth : (c.z.val - area.min.z.val).toNat + 1 ≤ (pairedGridOf area).depth := by
    show _ ≤ (area.max.z.val - area.min.z.val + 1).toNat
    omega
  have hlevels := Nat.mul_le_mul_left (pairedGridOf area).height hdepth
  have hrow : (c.z.val - area.min.z.val).toNat * (pairedGridOf area).height +
      (c.y.val - area.min.y.val).toNat + 1 ≤
        (pairedGridOf area).height * (pairedGridOf area).depth := by
    rw [Nat.mul_add, Nat.mul_one, Nat.mul_comm] at hlevels
    omega
  have hle := Nat.mul_le_mul_left (pairedGridOf area).width hrow
  rw [Nat.mul_add, Nat.mul_one, Nat.mul_comm] at hle
  rw [volumeOf]
  omega

def pairedOccupancy (area : MapCuboid) (footprints : BTreeMap EntityId MapCuboid)
    (targets : List MapCoord) : List Bool :=
  (places (pairedGridOf area).index targets).foldl (fun cells index => cells.set index true)
    ((pairedGridOf area).occupied footprints)

/-- The code of a tile, if it was observed. -/
def observedCode (s : WorldSnapshot) (tile : MapCoord) : Option (U 32) :=
  (boundedTileCode s tile).filter (· ≠ TileCodes.unknown)

def observedTerrain (s : WorldSnapshot) (area : MapCuboid) : List (Option (U 32)) :=
  (regionTiles area).map (observedCode s)

/-- A tile that can be stepped on. -/
def steps (potential : Bool) : Option (U 32) → Bool
  | some code => code = TileCodes.floor || code = TileCodes.stair
  | none => potential

/-- A tile that can be climbed. -/
def climbs (potential : Bool) (code : Option (U 32)) : Bool :=
  code = some TileCodes.stair || (potential && code.isNone)

/-- Where one can go from a cell. -/
def moves (grid : PairedStairsGrid) (terrain : List (Option (U 32))) (potential : Bool)
    (cell : Nat) : List Nat :=
  grid.horizontalNeighbors cell ++ (grid.verticalNeighbors cell).filter fun next =>
    climbs potential (terrain.getD cell none) && climbs potential (terrain.getD next none)

theorem reached_eq (grid : PairedStairsGrid) (terrain : List (Option (U 32)))
    (occupied : List Bool) (entry : Nat) (potential : Bool) :
    grid.reached terrain occupied entry potential =
      floodFrom (walkable occupied terrain (steps potential)) (moves grid terrain potential)
        terrain.length entry := by
  have hpass : (fun index => !occupied.getD index false &&
      match terrain.getD index none with
      | some code => code = TileCodes.floor || code = TileCodes.stair
      | none => potential) = walkable occupied terrain (steps potential) := by
    funext index
    rw [walkable]
    cases terrain.getD index none <;> rfl
  rw [← hpass]
  rfl

/-- Cells connected to the entry over free tiles that can be stepped on, and paired stairs. -/
def Climbs (s : WorldSnapshot) (area : MapCuboid) (footprints : BTreeMap EntityId MapCuboid)
    (targets : List MapCoord) (potential : Bool) (e v : Nat) : Prop :=
  Connected (walkable (pairedOccupancy area footprints targets) (observedTerrain s area)
    (steps potential)) (moves (pairedGridOf area) (observedTerrain s area) potential) e v

theorem paired_eq {tiles : U 64} {e : Nat}
    (hvalid : validatePairedStairsRequest area entry targets = .ok tiles)
    (hfootprints : laboratoryBuildingFootprints s = .ok footprints)
    (he : (pairedGridOf area).index entry = some e) :
    laboratoryRoomAccessPairedStairsTruth s area entry targets =
      .ok (judgeTargets (pairedGridOf area).horizontalNeighbors
        ((pairedGridOf area).reached (observedTerrain s area)
          (pairedOccupancy area footprints targets) e false)
        ((pairedGridOf area).reached (observedTerrain s area)
          (pairedOccupancy area footprints targets) e true)
        .true (places (pairedGridOf area).index targets)) := by
  obtain ⟨⟨hx, hy, hz⟩, _, htargets⟩ := valid_of_paired_ok hvalid
  have hplaced : placeTargets (pairedGridOf area).index
      "paired-stair access target left its area" targets =
      .ok (places (pairedGridOf area).index targets) := by
    rw [placeTargets_eq, if_pos]
    · rfl
    · intro c hc
      obtain ⟨i, hi, _⟩ := paired_index_of_contains (htargets c hc)
      rw [hi]
      rfl
  have hgrid : PairedStairsGrid.new area = .ok (pairedGridOf area) := by
    simp only [PairedStairsGrid.new, dimension_eq hx, dimension_eq hy, dimension_eq hz, bind,
      Except.bind]
    rfl
  unfold laboratoryRoomAccessPairedStairsTruth
  rw [hvalid, hfootprints]
  simp only [bind, Except.bind]
  rw [hgrid]
  dsimp only
  rw [hplaced]
  dsimp only
  rw [he]
  rfl

theorem paired_refused {truth : Truth} (htruth : truth ≠ .unknown)
    (h : laboratoryRoomAccessPairedStairsTruth s area entry targets = .ok truth) :
    ∃ tiles footprints e, validatePairedStairsRequest area entry targets = .ok tiles ∧
      laboratoryBuildingFootprints s = .ok footprints ∧
      (pairedGridOf area).index entry = some e ∧ e < volumeOf area := by
  cases hvalid : validatePairedStairsRequest area entry targets with
  | error error =>
      rw [laboratoryRoomAccessPairedStairsTruth, hvalid] at h
      cases h
  | ok tiles =>
      obtain ⟨e, he, hlt⟩ := paired_index_of_contains (valid_of_paired_ok hvalid).2.1
      cases hfootprints : laboratoryBuildingFootprints s with
      | error error =>
          rw [laboratoryRoomAccessPairedStairsTruth, hvalid, hfootprints] at h
          simp only [bind, Except.bind] at h
          split at h
          · cases h
          · cases h
            exact absurd rfl htruth
      | ok footprints => exact ⟨tiles, footprints, e, rfl, rfl, he, hlt⟩

theorem reached_iff {e : Nat} (he : e < volumeOf area) (potential : Bool) (v : Nat) :
    ((pairedGridOf area).reached (observedTerrain s area)
      (pairedOccupancy area footprints targets) e potential).getD v false = true ↔
      Climbs s area footprints targets potential e v := by
  have hlength : (observedTerrain s area).length = volumeOf area := by
    rw [observedTerrain, List.length_map, length_regionTiles, volumeOf]
    simp only [pairedGridOf, extent]
    ring
  rw [reached_eq, hlength]
  apply floodFrom_iff he
  intro u hu w hw _
  rcases List.mem_append.1 hw with hw | hw
  · exact PairedStairsGrid.horizontalNeighbors_lt hu hw
  · exact PairedStairsGrid.verticalNeighbors_lt hu (List.mem_filter.1 hw).1

theorem Climbs.mono {potential potential' : Bool} {e v : Nat}
    (hsteps : ∀ cell, steps potential ((observedTerrain s area).getD cell none) = true →
      steps potential' ((observedTerrain t area).getD cell none) = true)
    (hclimbs : ∀ cell, climbs potential ((observedTerrain s area).getD cell none) = true →
      climbs potential' ((observedTerrain t area).getD cell none) = true)
    (h : Climbs s area footprints targets potential e v) :
    Climbs t area footprints targets potential' e v := by
  refine Connected.mono (fun u hu => ?_) (fun u w hw _ => ?_) h
  · simp only [walkable, Bool.and_eq_true] at hu ⊢
    exact ⟨hu.1, hsteps u hu.2⟩
  · rcases List.mem_append.1 hw with hw | hw
    · exact List.mem_append_left _ hw
    · obtain ⟨hw, hboth⟩ := List.mem_filter.1 hw
      rw [Bool.and_eq_true] at hboth
      refine List.mem_append_right _ (List.mem_filter.2 ⟨hw, ?_⟩)
      rw [Bool.and_eq_true]
      exact ⟨hclimbs u hboth.1, hclimbs w hboth.2⟩

theorem paired_iff {tiles : U 64} {e : Nat}
    (hvalid : validatePairedStairsRequest area entry targets = .ok tiles)
    (hfootprints : laboratoryBuildingFootprints s = .ok footprints)
    (he : (pairedGridOf area).index entry = some e) (hlt : e < volumeOf area) :
    (laboratoryRoomAccessPairedStairsTruth s area entry targets = .ok .true ↔
      ∀ i ∈ places (pairedGridOf area).index targets,
        ∃ v ∈ (pairedGridOf area).horizontalNeighbors i,
          Climbs s area footprints targets false e v) ∧
    (laboratoryRoomAccessPairedStairsTruth s area entry targets = .ok .false ↔
      ∃ i ∈ places (pairedGridOf area).index targets,
        ∀ v ∈ (pairedGridOf area).horizontalNeighbors i,
          ¬ Climbs s area footprints targets true e v) := by
  have hreached := @reached_iff s _ targets footprints _ hlt
  have hsub : ∀ v, Climbs s area footprints targets false e v →
      Climbs s area footprints targets true e v := fun v =>
    Climbs.mono (fun cell => by cases (observedTerrain s area).getD cell none <;> simp [steps])
      (fun cell => by cases (observedTerrain s area).getD cell none <;> simp [climbs])
  have hcut : ∀ potential i, CutOff (pairedGridOf area).horizontalNeighbors
      ((pairedGridOf area).reached (observedTerrain s area)
        (pairedOccupancy area footprints targets) e potential) i ↔
      ∀ v ∈ (pairedGridOf area).horizontalNeighbors i,
        ¬ Climbs s area footprints targets potential e v := by
    intro potential i
    refine forall₂_congr fun v _ => ?_
    rw [← hreached potential v, Bool.not_eq_true]
  rw [paired_eq hvalid hfootprints he, Except.ok.injEq, Except.ok.injEq, judgeTargets_true_iff,
    judgeTargets_false_iff fun v hv => (hreached _ v).2 (hsub v ((hreached _ v).1 hv))]
  simp only [hcut, not_forall, not_not, exists_prop, and_self]

/-- An observed code stays. -/
theorem Reveals.observedCode (h : Reveals s t) {tile : MapCoord} {code : U 32}
    (hs : observedCode s tile = some code) : LaboratoryAccess.observedCode t tile = some code := by
  rw [LaboratoryAccess.observedCode, Option.filter_eq_some_iff] at hs ⊢
  exact ⟨h.observed (by simpa using hs.2) hs.1, hs.2⟩

/-- **The paired-stairs version never changes a definite answer.** -/
theorem pairedStairs_stable (s : WorldSnapshot) (area : MapCuboid) (entry : MapCoord)
    (targets : List MapCoord) :
    Stable (laboratoryRoomAccessPairedStairsTruth · area entry targets) s := by
  intro truth htruth hs t ht
  obtain ⟨tiles, footprints, e, hvalid, hfootprints, he, hlt⟩ := paired_refused htruth hs
  have hfootprints' := ht.footprints.trans hfootprints
  have hcell : ∀ P : Option (U 32) → Option (U 32) → Prop, P none none →
      (∀ a b, (∀ code, a = some code → b = some code) → P a b) → ∀ cell,
      P ((observedTerrain s area).getD cell none) ((observedTerrain t area).getD cell none) :=
    fun P hnone hP cell => getD_tiles hnone (fun tile => hP _ _ fun _ => ht.observedCode) area cell
  cases truth with
  | true =>
      apply (paired_iff hvalid hfootprints' he hlt).1.2
      intro i hi
      obtain ⟨v, hv, hclimbs⟩ := (paired_iff hvalid hfootprints he hlt).1.1 hs i hi
      refine ⟨v, hv, hclimbs.mono ?_ ?_⟩
      · apply hcell fun a b => steps false a = true → steps false b = true
        · exact id
        · intro a b hab
          cases a with
          | none => exact nofun
          | some code =>
              rw [hab code rfl]
              exact id
      · apply hcell fun a b => climbs false a = true → climbs false b = true
        · exact id
        · intro a b hab
          cases a with
          | none => exact nofun
          | some code =>
              rw [hab code rfl]
              exact id
  | false =>
      obtain ⟨i, hi, hcut⟩ := (paired_iff hvalid hfootprints he hlt).2.1 hs
      apply (paired_iff hvalid hfootprints' he hlt).2.2
      refine ⟨i, hi, fun v hv hclimbs => hcut v hv (hclimbs.mono ?_ ?_)⟩
      · apply hcell fun a b => steps true b = true → steps true a = true
        · exact id
        · intro a b hab
          cases a with
          | none => exact fun _ => rfl
          | some code =>
              rw [hab code rfl]
              exact id
      · apply hcell fun a b => climbs true b = true → climbs true a = true
        · exact id
        · intro a b hab
          cases a with
          | none => exact fun _ => rfl
          | some code =>
              rw [hab code rfl]
              exact id
  | unknown => exact absurd rfl htruth

end Paired

/-- **Both versions keep their definite answers exactly when no target is cut off by tiles of
unknown code alone.** -/
theorem access_stable_iff (s : WorldSnapshot) (area : MapCuboid) (entry : MapCoord)
    (targets : List MapCoord) :
    Stable (laboratoryRoomAccessTruth · area entry targets) s ∧
        Stable (laboratoryRoomAccessPairedStairsTruth · area entry targets) s ↔
      (Stranded s area entry targets mayBeFloor →
        Stranded s area entry targets mayBecomeFloor) := by
  rw [access_stable]
  exact and_iff_left (pairedStairs_stable s area entry targets)

end LaboratoryAccess

namespace Sample

/-- A tile on the ground level. -/
def tile (x : Fin 3) : MapCoord := ⟨⟨x, by omega⟩, ⟨0, S.fits_zero⟩, ⟨0, S.fits_zero⟩⟩

/-- A corridor of three tiles between floors; the code of the middle one. -/
def corridor (code : U 32) : WorldSnapshot :=
  snapshot 0 (terrain ⟨(tileSlot (tile 0)).chunk, 0, 16, 16,
    [⟨TileCodes.floor, 1⟩, ⟨code, 1⟩, ⟨TileCodes.floor, 254⟩], .nil⟩)

end Sample

/-- The middle of a corridor has the unknown code, so the far end is said to be out of reach; should
it turn out to be floor, the far end is accessible. -/
theorem access_unstable_corridor :
    ¬ LaboratoryAccess.Stable (LaboratoryAccess.laboratoryRoomAccessTruth ·
      ⟨Sample.tile 0, Sample.tile 2⟩ (Sample.tile 0) [Sample.tile 2])
      (Sample.corridor TileCodes.unknown) := by
  intro hstable
  have hcleared := hstable .false (by decide) (by decide +kernel) _
    (LaboratoryAccess.reveals_cleared _ [Sample.tile 1])
  exact absurd hcleared (by decide +kernel)

end Dfmcp
