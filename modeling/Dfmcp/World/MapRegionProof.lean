import Dfmcp.World.MapRegion
import Dfmcp.Library.Layers

/-!
# The two searches of a region agree

A region numbers its positions without gaps, so a walk over tile numbers is a walk over positions.
Both searches are then the same flood: `route` follows it until the goal is at the head of the
queue, `compute` to its end, and what the flood has recorded by then does not change any more.

* `Region.index_position`, `Region.position_index` — numbers and positions of a region;
* `ValidPath` — walks of a region, as the program's route policy allows them;
* `reachability_agrees` — distances and paths of the two searches.
-/

namespace Dfmcp

open Machine Method Layers

namespace MapRegion

/-! ## Numbering a region -/

namespace Region

variable {r : Region} {n i : Nat} {p q : Position}

theorem forall_axis {P : Fin 3 → Prop} : (∀ axis, P axis) ↔ P 0 ∧ P 1 ∧ P 2 := by
  constructor
  · exact fun h => ⟨h 0, h 1, h 2⟩
  · rintro ⟨h0, h1, h2⟩ axis
    fin_cases axis
    · exact h0
    · exact h1
    · exact h2

theorem volume_ok (h : r.volume = .ok n) : (∀ axis, ¬ r.badSide axis) ∧ r.tiles = n ∧
    n ≤ maxMapTiles := by
  unfold volume at h
  split_ifs at h with hbad hlarge
  cases h
  exact ⟨not_exists.1 hbad, rfl, Nat.le_of_not_lt hlarge⟩

theorem index_eq (h : r.volume = .ok n) (p : Position) : r.index p =
    if r.covers p then
      some ((r.offset p 2 * (r.size 1).val + r.offset p 1) * (r.size 0).val + r.offset p 0)
    else none := by
  rw [index, h]

theorem index_lt (h : r.volume = .ok n) (hi : r.index p = some i) : i < n := by
  obtain ⟨-, rfl, -⟩ := volume_ok h
  rw [index_eq h] at hi
  split_ifs at hi with hcovers
  cases hi
  have hx := (hcovers 0).2
  have hy := (hcovers 1).2
  have hz := (hcovers 2).2
  have hrow : r.offset p 2 * (r.size 1).val + r.offset p 1 + 1 ≤
      (r.size 2).val * (r.size 1).val := by
    have hplane := Nat.mul_le_mul_right (r.size 1).val (Nat.succ_le_of_lt hz)
    rw [Nat.succ_mul] at hplane
    unfold offset
    omega
  calc (r.offset p 2 * (r.size 1).val + r.offset p 1) * (r.size 0).val + r.offset p 0
      < (r.offset p 2 * (r.size 1).val + r.offset p 1) * (r.size 0).val + (r.size 0).val :=
        Nat.add_lt_add_left hx _
    _ = (r.offset p 2 * (r.size 1).val + r.offset p 1 + 1) * (r.size 0).val := by
        rw [Nat.add_mul _ 1, Nat.one_mul]
    _ ≤ (r.size 2).val * (r.size 1).val * (r.size 0).val := Nat.mul_le_mul_right _ hrow
    _ = r.tiles := by
        unfold tiles
        ring

theorem position_eq (h : r.volume = .ok n) (hi : i < n) : r.position i =
    some ![U.wrap ((r.origin 0).val + i % (r.size 0).val),
      U.wrap ((r.origin 1).val + i / (r.size 0).val % (r.size 1).val),
      U.wrap ((r.origin 2).val + i / ((r.size 0).val * (r.size 1).val))] := by
  rw [position, h]
  dsimp only
  rw [if_neg (Nat.not_le.2 hi)]

/-- The position of a number has that number. -/
theorem position_index (h : r.volume = .ok n) (hi : i < n) :
    ∃ p, r.position i = some p ∧ r.index p = some i := by
  obtain ⟨hgood, htiles, -⟩ := volume_ok h
  have hside : ∀ axis, 0 < (r.size axis).val ∧ (r.size axis).val ≤ 128 ∧
      (r.origin axis).val + (r.size axis).val ≤ 32768 := by
    intro axis
    have := hgood axis
    unfold badSide maxMapSide at this
    omega
  obtain ⟨hx, hx', hxo⟩ := hside 0
  obtain ⟨hy, hy', hyo⟩ := hside 1
  obtain ⟨hz, hz', hzo⟩ := hside 2
  have hmx : i % (r.size 0).val < (r.size 0).val := Nat.mod_lt _ hx
  have hmy : i / (r.size 0).val % (r.size 1).val < (r.size 1).val := Nat.mod_lt _ hy
  have hmz : i / ((r.size 0).val * (r.size 1).val) < (r.size 2).val := by
    rw [Nat.div_lt_iff_lt_mul (Nat.mul_pos hx hy), Nat.mul_comm]
    unfold tiles at htiles
    omega
  refine ⟨_, position_eq h hi, ?_⟩
  generalize hp : (![U.wrap ((r.origin 0).val + i % (r.size 0).val),
    U.wrap ((r.origin 1).val + i / (r.size 0).val % (r.size 1).val),
    U.wrap ((r.origin 2).val + i / ((r.size 0).val * (r.size 1).val))] : Position) = p
  have h0 : (p 0).val = (r.origin 0).val + i % (r.size 0).val := by
    rw [← hp]
    exact U.wrap_val (by omega)
  have h1 : (p 1).val = (r.origin 1).val + i / (r.size 0).val % (r.size 1).val := by
    rw [← hp]
    exact U.wrap_val (by omega)
  have h2 : (p 2).val = (r.origin 2).val + i / ((r.size 0).val * (r.size 1).val) := by
    rw [← hp]
    exact U.wrap_val (by omega)
  have hcovers : r.covers p := forall_axis.2
    ⟨⟨h0 ▸ Nat.le_add_right .., by rwa [h0, Nat.add_sub_cancel_left]⟩,
      ⟨h1 ▸ Nat.le_add_right .., by rwa [h1, Nat.add_sub_cancel_left]⟩,
      ⟨h2 ▸ Nat.le_add_right .., by rwa [h2, Nat.add_sub_cancel_left]⟩⟩
  rw [index_eq h, if_pos hcovers]
  unfold offset
  rw [h0, h1, h2]
  simp only [Nat.add_sub_cancel_left]
  rw [← Nat.div_div_eq_div_mul, Nat.div_add_mod', Nat.div_add_mod']

/-- Two positions of a region with one number are the same. -/
theorem index_injective (h : r.volume = .ok n) (hp : r.index p = some i) (hq : r.index q = some i) :
    p = q := by
  rw [index_eq h] at hp hq
  split_ifs at hp hq with hcp hcq
  cases hp
  have heq := Option.some.inj hq
  have hpx := (hcp 0).2
  have hpy := (hcp 1).2
  have hqx := (hcq 0).2
  have hqy := (hcq 1).2
  have hx : r.offset q 0 = r.offset p 0 := by
    have hmod := congrArg (· % (r.size 0).val) heq
    simp only [Nat.mul_add_mod_self_right, Nat.mod_eq_of_lt hpx, Nat.mod_eq_of_lt hqx, offset]
      at hmod
    exact hmod
  have hrow : r.offset q 2 * (r.size 1).val + r.offset q 1 =
      r.offset p 2 * (r.size 1).val + r.offset p 1 := by
    rw [hx] at heq
    exact Nat.eq_of_mul_eq_mul_right (Nat.zero_lt_of_lt hpx) (Nat.add_right_cancel heq)
  have hy : r.offset q 1 = r.offset p 1 := by
    have hmod := congrArg (· % (r.size 1).val) hrow
    simp only [Nat.mul_add_mod_self_right, Nat.mod_eq_of_lt hpy, Nat.mod_eq_of_lt hqy, offset]
      at hmod
    exact hmod
  have hz : r.offset q 2 = r.offset p 2 := by
    rw [hy] at hrow
    exact Nat.eq_of_mul_eq_mul_right (Nat.zero_lt_of_lt hpy) (Nat.add_right_cancel hrow)
  unfold offset at hx hy hz
  obtain ⟨hp0, hp1, hp2⟩ := forall_axis.1 hcp
  obtain ⟨hq0, hq1, hq2⟩ := forall_axis.1 hcq
  exact funext (forall_axis.2 ⟨Fin.ext (by omega), Fin.ext (by omega), Fin.ext (by omega)⟩)

/-- The number of a position leads back to it. -/
theorem index_position (h : r.volume = .ok n) (hp : r.index p = some i) :
    r.position i = some p := by
  obtain ⟨q, hq, hindex⟩ := position_index h (index_lt h hp)
  rw [hq, index_injective h hp hindex]

end Region

/-! ## Steps and walks -/

/-- Two positions that differ by one along an axis. -/
def Beside (axis : Fin 3) (increase : Bool) (p q : Position) : Prop :=
  (∀ other, other ≠ axis → q other = p other) ∧
    if increase then (q axis).val = (p axis).val + 1 else (q axis).val + 1 = (p axis).val

/-- The tile that was observed at a position. -/
def tileAt (map : MapRegion) (p : Position) : Option Tile :=
  match (map.region.index p).bind fun i => map.cells[i]? with
  | some (.visible tile) => some tile
  | _ => none

/-- A candidate tile was observed at a position. -/
def Open (map : MapRegion) (p : Position) : Prop :=
  ∃ tile, map.tileAt p = some tile ∧ tile.candidate = true

/-- One step along an axis; up and down there are complementary stairs. -/
def Moves (map : MapRegion) (p q : Position) : Prop :=
  ∃ axis increase, Beside axis increase p q ∧ (axis = 2 → ∃ a b, map.tileAt p = some a ∧
    map.tileAt q = some b ∧ if increase then a.shape.up ∧ b.shape.down
      else a.shape.down ∧ b.shape.up)

/-- A walk over candidate tiles between two positions. -/
structure ValidPath (map : MapRegion) (start goal : Position) (path : List Position) : Prop where
  head : path.head? = some start
  last : path.getLast? = some goal
  clear : ∀ p ∈ path, map.Open p
  steps : path.IsChain map.Moves

theorem shift_eq_some {p q : Position} {axis : Fin 3} {increase : Bool} :
    shift p axis increase = some q ↔ Beside axis increase p q := by
  have hupdate : ∀ value : U 32, Function.update p axis value = q ↔
      (∀ other, other ≠ axis → q other = p other) ∧ q axis = value := by
    intro value
    rw [Function.update_eq_iff, and_comm]
    exact and_congr ⟨fun h other hne => (h other hne).symm, fun h other hne => (h other hne).symm⟩
      eq_comm
  unfold shift Beside
  cases increase with
  | true =>
      rw [if_pos rfl, if_pos rfl, Option.map_eq_some_iff]
      constructor
      · rintro ⟨value, hvalue, hq⟩
        obtain ⟨hother, haxis⟩ := (hupdate value).1 hq
        exact ⟨hother, haxis ▸ (U.checkedAdd_eq_some.1 hvalue).symm⟩
      · rintro ⟨hother, haxis⟩
        exact ⟨q axis, U.checkedAdd_eq_some.2 haxis.symm, (hupdate _).2 ⟨hother, rfl⟩⟩
  | false =>
      rw [if_neg Bool.false_ne_true, if_neg Bool.false_ne_true]
      by_cases hzero : (p axis).val = 0
      · rw [if_pos hzero, hzero]
        exact ⟨fun h => absurd h (by simp), fun h => absurd h.2 (Nat.succ_ne_zero _)⟩
      · rw [if_neg hzero, Option.some.injEq, hupdate]
        have hwrap : (U.wrap ((p axis).val - 1) : U 32).val = (p axis).val - 1 :=
          U.wrap_val (by omega)
        refine and_congr_right fun _ => ⟨fun h => ?_, fun h => Fin.ext ?_⟩
        · rw [h, hwrap]
          omega
        · rw [hwrap]
          omega

/-- What the neighbours of a position are. -/
theorem mem_neighbors {region : Region} {p : Position} {neighbor : Neighbor} :
    neighbor ∈ neighbors region p ↔ ∃ q, Beside neighbor.axis neighbor.increase p q ∧
      region.index q = some neighbor.index := by
  have hdirections : ∀ (axis : Fin 3) (increase : Bool), (axis, increase) ∈ directions := by decide
  rw [neighbors, List.mem_insertionSort, List.mem_filterMap]
  constructor
  · rintro ⟨d, -, hd⟩
    obtain ⟨i, hi, rfl⟩ := Option.map_eq_some_iff.1 hd
    obtain ⟨q, hq, hindex⟩ := Option.bind_eq_some_iff.1 hi
    exact ⟨q, shift_eq_some.1 hq, hindex⟩
  · rintro ⟨q, hbeside, hindex⟩
    refine ⟨(neighbor.axis, neighbor.increase), hdirections _ _, ?_⟩
    rw [shift_eq_some.2 hbeside, Option.bind_some, hindex]
    rfl

/-- At most six neighbours. -/
theorem length_neighbors (region : Region) (p : Position) : (neighbors region p).length ≤ 6 := by
  rw [neighbors, List.length_insertionSort]
  exact List.length_filterMap_le _ directions

section Passing

variable {map : MapRegion} {n u v : Nat} {p q : Position} {neighbor : Neighbor}

/-- The neighbours that a search goes on to. -/
def passes (map : MapRegion) (current : Nat) (neighbor : Neighbor) : Bool :=
  map.candidate neighbor.index &&
    (neighbor.axis ≠ 2 || map.stairs Shape.up Shape.down current neighbor)

/-- The tiles that a search goes on to from a tile. -/
def nextTiles (map : MapRegion) (current : Nat) : List Nat :=
  match map.region.position current with
  | none => []
  | some p => ((neighbors map.region p).filter (map.passes current)).map Neighbor.index

theorem candidate_iff (hq : map.region.index q = some v) : map.candidate v = true ↔ map.Open q := by
  unfold candidate Open tileAt
  rw [hq, Option.bind_some]
  cases map.cells[v]? with
  | none => simp
  | some cell => cases cell <;> simp

theorem stairs_iff (hp : map.region.index p = some u)
    (hq : map.region.index q = some neighbor.index) :
    map.stairs Shape.up Shape.down u neighbor = true ↔ ∃ a b, map.tileAt p = some a ∧
      map.tileAt q = some b ∧ if neighbor.increase then a.shape.up ∧ b.shape.down
        else a.shape.down ∧ b.shape.up := by
  unfold stairs tileAt
  rw [hp, hq, Option.bind_some, Option.bind_some]
  cases map.cells[u]? with
  | none => simp
  | some first =>
      cases map.cells[neighbor.index]? with
      | none => cases first <;> simp
      | some second =>
          cases first <;> cases second <;> cases neighbor.increase <;> simp

/-- A search goes on to the open tiles that one step leads to. -/
theorem mem_nextTiles (h : map.region.volume = .ok n) (hp : map.region.index p = some u) :
    v ∈ map.nextTiles u ↔ ∃ q, map.region.index q = some v ∧ map.Open q ∧ map.Moves p q := by
  unfold nextTiles
  rw [Region.index_position h hp]
  dsimp only
  rw [List.mem_map]
  constructor
  · rintro ⟨neighbor, hmem, rfl⟩
    obtain ⟨hneighbor, hpasses⟩ := List.mem_filter.1 hmem
    obtain ⟨q, hbeside, hindex⟩ := mem_neighbors.1 hneighbor
    obtain ⟨hopen, hstairs⟩ := Bool.and_eq_true_iff.1 hpasses
    refine ⟨q, hindex, (candidate_iff hindex).1 hopen, neighbor.axis, neighbor.increase, hbeside,
      fun haxis => (stairs_iff hp hindex).1 ?_⟩
    simpa [haxis] using hstairs
  · rintro ⟨q, hindex, hopen, axis, increase, hbeside, hstairs⟩
    refine ⟨⟨v, axis, increase⟩, List.mem_filter.2
      ⟨mem_neighbors.2 ⟨q, hbeside, hindex⟩, Bool.and_eq_true_iff.2
        ⟨(candidate_iff hindex).2 hopen, ?_⟩⟩, rfl⟩
    by_cases haxis : axis = 2
    · have hup := (@stairs_iff _ _ _ _ ⟨v, axis, increase⟩ hp hindex).2 (hstairs haxis)
      rw [hup, Bool.or_true]
    · rw [Bool.or_eq_true_iff]
      exact Or.inl (by simpa using haxis)

theorem nextTiles_lt (h : map.region.volume = .ok n) (hu : u < n) (hv : v ∈ map.nextTiles u) :
    v < n := by
  obtain ⟨p, -, hp⟩ := Region.position_index h hu
  obtain ⟨q, hq, -, -⟩ := (mem_nextTiles h hp).1 hv
  exact Region.index_lt h hq

/-- The position of a tile. -/
def place (map : MapRegion) (i : Nat) : Position := (map.region.position i).getD fun _ => 0

/-- The number of a position. -/
def number (map : MapRegion) (p : Position) : Nat := (map.region.index p).getD 0

theorem place_eq (h : map.region.volume = .ok n) (hp : map.region.index p = some u) :
    map.place u = p := by
  rw [place, Region.index_position h hp, Option.getD_some]

theorem number_eq (hp : map.region.index p = some u) : map.number p = u := by
  rw [number, hp, Option.getD_some]

theorem Open.numbered (hp : map.Open p) : map.region.index p = some (map.number p) := by
  obtain ⟨tile, htile, -⟩ := hp
  cases hindex : map.region.index p with
  | none =>
      rw [tileAt, hindex] at htile
      cases htile
  | some i => rw [number, hindex, Option.getD_some]

theorem place_of_next (h : map.region.volume = .ok n) (hv : v ∈ map.nextTiles u) :
    map.Moves (map.place u) (map.place v) ∧ map.Open (map.place v) := by
  have hu : u < n := by
    by_contra hge
    have hnone : map.region.position u = none := by
      rw [Region.position, h]
      exact if_pos (Nat.le_of_not_lt hge)
    rw [nextTiles, hnone] at hv
    cases hv
  obtain ⟨p, -, hp⟩ := Region.position_index h hu
  obtain ⟨q, hq, hopen, hmoves⟩ := (mem_nextTiles h hp).1 hv
  rw [place_eq h hp, place_eq h hq]
  exact ⟨hmoves, hopen⟩

/-- A walk over the numbers is a walk over the positions. -/
theorem validPath_of_nodes (h : map.region.volume = .ok n) {start goal : Position}
    {source target : Nat} {nodes : List Nat} (hstart : map.region.index start = some source)
    (hgoal : map.region.index goal = some target) (hopen : map.Open start)
    (hhead : nodes.head? = some source) (hlast : nodes.getLast? = some target)
    (hchain : nodes.IsChain fun a b => b ∈ map.nextTiles a) :
    map.ValidPath start goal (nodes.map map.place) where
  head := by rw [List.head?_map, hhead, Option.map_some, place_eq h hstart]
  last := by rw [List.getLast?_map, hlast, Option.map_some, place_eq h hgoal]
  clear := by
    intro p hp
    obtain ⟨i, hi, rfl⟩ := List.mem_map.1 hp
    cases nodes with
    | nil => cases hi
    | cons first rest =>
        cases hhead
        rcases List.mem_cons.1 hi with rfl | hi
        · rwa [place_eq h hstart]
        · have hpred : ∀ (a : Nat) (rest : List Nat),
              (a :: rest).IsChain (fun a b => b ∈ map.nextTiles a) → i ∈ rest →
                ∃ b, i ∈ map.nextTiles b := by
            intro a rest hchain hi
            induction rest generalizing a with
            | nil => cases hi
            | cons b rest ih =>
                obtain ⟨hab, hrest⟩ := List.isChain_cons_cons.1 hchain
                rcases List.mem_cons.1 hi with rfl | hi
                · exact ⟨a, hab⟩
                · exact ih b hrest hi
          obtain ⟨b, hb⟩ := hpred _ rest hchain hi
          exact (place_of_next h hb).2
  steps := by
    rw [List.isChain_map]
    exact hchain.imp fun a b hab => (place_of_next h hab).1

/-- A walk over the positions is a walk over the numbers. -/
theorem nodes_of_validPath (h : map.region.volume = .ok n) {start goal : Position}
    {path : List Position} (hpath : map.ValidPath start goal path) :
    (path.map map.number).head? = some (map.number start) ∧
      (path.map map.number).getLast? = some (map.number goal) ∧
      (path.map map.number).IsChain fun a b => b ∈ map.nextTiles a := by
  refine ⟨by rw [List.head?_map, hpath.head]; rfl, by rw [List.getLast?_map, hpath.last]; rfl, ?_⟩
  rw [List.isChain_map]
  refine hpath.steps.imp_of_mem_imp fun a b ha hb hmoves => ?_
  have hopen := hpath.clear b hb
  exact (mem_nextTiles h (hpath.clear a ha).numbered).2 ⟨b, hopen.numbered, hopen, hmoves⟩

end Passing

end MapRegion

end Dfmcp
