import Dfmcp.Library.Machine
import Dfmcp.Library.Method

/-!
# Observed map regions

`map_region.rs` and `map_reachability.rs`: a bounded box of observed tiles, numbered in the order of
`(z, y, x)`, and the two searches over it. A step leads to one of the six neighbours; both tiles are
dry, unoccupied and walkable, and up or down only between complementary stairs.

* `MapRegion.route` — a shortest path between two tiles, searched until the goal is reached;
* `Reachability.compute` — distances from a set of roots to every tile, in one search.

A position is three coordinates under the axes `0`, `1` and `2`, as in the source. The vectors of
parents and distances are partial functions; `usize::MAX` is `none`. Tile attributes that neither
search reads are left out.
-/

namespace Dfmcp

open Machine

namespace MapRegion

def maxMapTiles : Nat := 16384
def maxMapSide : Nat := 128
def maxRouteWork : Nat := 1000000

inductive MapError where
  | invalidRegion
  | invalidTile
  | outsideRegion
  | budgetExceeded
deriving DecidableEq

abbrev Position := Fin 3 → U 32

structure Region where
  origin : Position
  size : Position

namespace Region

/-- A side that is empty, too long, or past the end of the world. -/
def badSide (r : Region) (axis : Fin 3) : Prop :=
  (r.size axis).val = 0 ∨ (r.size axis).val > maxMapSide ∨
    (r.origin axis).val + (r.size axis).val > 32768

instance (r : Region) (axis : Fin 3) : Decidable (r.badSide axis) :=
  inferInstanceAs (Decidable (_ ∨ _))

def tiles (r : Region) : Nat := (r.size 0).val * (r.size 1).val * (r.size 2).val

def volume (r : Region) : Except MapError Nat :=
  if ∃ axis, r.badSide axis then .error .invalidRegion
  else if r.tiles > maxMapTiles then .error .budgetExceeded
  else .ok r.tiles

/-- A position is in the box. -/
def covers (r : Region) (p : Position) : Prop :=
  ∀ axis, (r.origin axis).val ≤ (p axis).val ∧
    (p axis).val - (r.origin axis).val < (r.size axis).val

instance (r : Region) (p : Position) : Decidable (r.covers p) :=
  inferInstanceAs (Decidable (∀ _, _))

def offset (r : Region) (p : Position) (axis : Fin 3) : Nat := (p axis).val - (r.origin axis).val

def index (r : Region) (p : Position) : Option Nat :=
  match r.volume with
  | .error _ => none
  | .ok _ =>
      if r.covers p then
        some ((r.offset p 2 * (r.size 1).val + r.offset p 1) * (r.size 0).val + r.offset p 0)
      else none

def position (r : Region) (index : Nat) : Option Position :=
  match r.volume with
  | .error _ => none
  | .ok volume =>
      if index ≥ volume then none
      else
        let x := (r.size 0).val
        let y := (r.size 1).val
        some ![U.wrap ((r.origin 0).val + index % x), U.wrap ((r.origin 1).val + index / x % y),
          U.wrap ((r.origin 2).val + index / (x * y))]

end Region

inductive Shape where
  | other
  | empty
  | wall
  | floor
  | ramp
  | rampTop
  | stairUp
  | stairDown
  | stairUpDown
deriving DecidableEq

namespace Shape

def supported : Shape → Bool
  | .floor | .stairUp | .stairDown | .stairUpDown => true
  | _ => false

def up : Shape → Bool
  | .stairUp | .stairUpDown => true
  | _ => false

def down : Shape → Bool
  | .stairDown | .stairUpDown => true
  | _ => false

end Shape

structure Tile where
  nativeTiletype : U 32
  shape : Shape
  liquidDepth : U 8
  traffic : U 8
  digDesignation : U 8
  buildingOccupancy : U 8
  unitOccupancy : U 8
  walkableRegion : U 32
deriving DecidableEq

namespace Tile

def validate (tile : Tile) : Except MapError Unit :=
  if tile.nativeTiletype.val > 2 ^ 31 - 1 ∨ tile.liquidDepth.val > 7 ∨ tile.traffic.val > 3 ∨
      tile.digDesignation.val > 7 ∨ tile.buildingOccupancy.val > 7 ∨ tile.unitOccupancy.val > 3 then
    .error .invalidTile
  else .ok ()

def candidate (tile : Tile) : Bool :=
  tile.shape.supported && tile.liquidDepth = 0 && tile.buildingOccupancy = 0 &&
    tile.unitOccupancy = 0 && tile.walkableRegion ≠ 0

end Tile

inductive Cell where
  | unallocated
  | hidden
  | visible (tile : Tile)
deriving DecidableEq

end MapRegion

structure MapRegion where
  region : MapRegion.Region
  cells : List MapRegion.Cell

namespace MapRegion

open Method

def validateCells : List Cell → Except MapError Unit
  | [] => .ok ()
  | .visible tile :: rest =>
      match tile.validate with
      | .error e => .error e
      | .ok () => validateCells rest
  | _ :: rest => validateCells rest

def validate (map : MapRegion) : Except MapError Unit :=
  match map.region.volume with
  | .error e => .error e
  | .ok volume =>
      if map.cells.length ≠ volume then .error .invalidRegion else validateCells map.cells

def candidate (map : MapRegion) (index : Nat) : Bool :=
  match map.cells[index]? with
  | some (.visible tile) => tile.candidate
  | _ => false

/-! ## Neighbours -/

/-- One coordinate moved by one. -/
def shift (p : Position) (axis : Fin 3) (increase : Bool) : Option Position :=
  if increase then (U.checkedAdd (p axis) 1).map fun value => Function.update p axis value
  else if (p axis).val = 0 then none
  else some (Function.update p axis (U.wrap ((p axis).val - 1)))

/-- A neighbour of a tile, and the way to it. -/
structure Neighbor where
  index : Nat
  axis : Fin 3
  increase : Bool
deriving DecidableEq

def directions : List (Fin 3 × Bool) :=
  [(0, false), (0, true), (1, false), (1, true), (2, false), (2, true)]

/-- The neighbours in the region, in the order of their index. -/
def neighbors (region : Region) (p : Position) : List Neighbor :=
  (directions.filterMap fun d =>
    ((shift p d.1 d.2).bind region.index).map fun index => Neighbor.mk index d.1 d.2).insertionSort
      fun a b => a.index ≤ b.index

/-- Whether stairs lead from one tile to another; `fits` tells stairs up from stairs down. -/
def stairs (map : MapRegion) (up down : Shape → Bool) (current : Nat) (neighbor : Neighbor) :
    Bool :=
  match map.cells[current]?, map.cells[neighbor.index]? with
  | some (.visible a), some (.visible b) =>
      if neighbor.increase then up a.shape && down b.shape else down a.shape && up b.shape
  | _, _ => false

/-- A position at the side of the region. -/
def onBoundary (region : Region) (p : Position) : Prop :=
  ∃ axis, region.offset p axis = 0 ∨ region.offset p axis + 1 = (region.size axis).val

instance (region : Region) (p : Position) : Decidable (onBoundary region p) :=
  inferInstanceAs (Decidable (∃ _, _))

/-! ## A single route -/

/-- What a search counts. -/
structure Tally where
  workUnits : Nat
  visitedTiles : Nat
  touchedRegionBoundary : Bool

abbrev Flooding := Method MapError Tally

structure Route where
  path : List Position
  visitedTiles : Nat
  workUnits : Nat
  touchedRegionBoundary : Bool
  endpointExcluded : Bool

/-- Pay for so many units. -/
def charge (amount maximum : Nat) : Flooding PUnit := do
  let tally ← get
  rejectIf (2 ^ 64 ≤ tally.workUnits + amount) .budgetExceeded
  set { tally with workUnits := tally.workUnits + amount }
  rejectIf (tally.workUnits + amount > maximum) .budgetExceeded

/-- A tile is looked at. -/
def visit (region : Region) (p : Position) : Flooding PUnit :=
  modify fun tally => { tally with
    visitedTiles := tally.visitedTiles + 1
    touchedRegionBoundary := tally.touchedRegionBoundary || decide (onBoundary region p) }

/-- The parents of the tiles found, and the tiles to look at. -/
structure Frontier where
  parents : Nat → Option Nat
  queue : List Nat

/-- Offer the neighbours of a tile. -/
def offer (map : MapRegion) (maximum current : Nat) :
    List Neighbor → Frontier → Flooding Frontier
  | [], s => pure s
  | neighbor :: rest, s => do
      charge 1 maximum
      if s.parents neighbor.index ≠ none ∨ map.candidate neighbor.index = false then
        offer map maximum current rest s
      else if neighbor.axis = 2 ∧ map.stairs Shape.up Shape.down current neighbor = false then
        offer map maximum current rest s
      else
        offer map maximum current rest
          { parents := Function.update s.parents neighbor.index (some current)
            queue := s.queue ++ [neighbor.index] }

/-- Read the path back from `node`, for at most so many tiles. -/
def backtrack (map : MapRegion) (parents : Nat → Option Nat) (source : Nat) :
    Nat → Nat → List Position → Except MapError (List Position)
  | 0, _, _ => .error .invalidRegion
  | bound + 1, node, path =>
      match map.region.position node with
      | none => .error .invalidRegion
      | some p =>
          if node = source then .ok (p :: path)
          else
            match parents node with
            | none => .error .invalidRegion
            | some parent => backtrack map parents source bound parent (p :: path)

/-- Search until the goal is at the head of the queue. Every turn pays, so `bound` turns are enough
when they are more than may be paid for. -/
def search (map : MapRegion) (maximum source target : Nat) :
    Nat → Frontier → Flooding (List Position)
  | bound, s =>
      match s.queue with
      | [] => pure []
      | current :: queue =>
          match bound with
          | 0 => throw .budgetExceeded
          | bound + 1 => do
              charge 1 maximum
              match map.region.position current with
              | none => throw .invalidRegion
              | some p => do
                  visit map.region p
                  if current = target then
                    of (backtrack map s.parents source map.cells.length target [])
                  else do
                    let s ← offer map maximum current (neighbors map.region p)
                      { s with queue := queue }
                    search map maximum source target bound s

/-- The body of `route`, from an empty tally. -/
def routeFrom (map : MapRegion) (start goal : Position) (maximum : Nat) : Flooding Route := do
  of map.validate
  rejectIf (maximum = 0 ∨ maximum > maxRouteWork) .budgetExceeded
  match map.region.index start, map.region.index goal with
  | some source, some target =>
      if map.candidate source = false ∨ map.candidate target = false then
        pure ⟨[], 0, 0, false, true⟩
      else do
        let path ← search map maximum source target (maximum + 1)
          ⟨Function.update (fun _ => none) source (some source), [source]⟩
        let tally ← get
        pure ⟨path, tally.visitedTiles, tally.workUnits, tally.touchedRegionBoundary, false⟩
  | _, _ => throw .outsideRegion

def route (map : MapRegion) (start goal : Position) (maximum : Nat) : Except MapError Route :=
  (exec (routeFrom map start goal maximum) ⟨0, 0, false⟩).1

end MapRegion

/-! ## One flood for many targets -/

structure Reachability where
  region : MapRegion.Region
  distance : Nat → Option Nat
  parent : Nat → Option Nat
  tiles : Nat
  visitedTiles : Nat
  workUnits : Nat
  touchedRegionBoundary : Bool

namespace Reachability

open MapRegion Method

def ascends : Shape → Bool
  | .stairUp | .stairUpDown => true
  | _ => false

def descends : Shape → Bool
  | .stairDown | .stairUpDown => true
  | _ => false

/-- Distances and parents of the tiles found, and the tiles to look at. -/
structure Wave where
  distance : Nat → Option Nat
  parent : Nat → Option Nat
  queue : List Nat

/-- The index of every root, if each is a candidate tile. -/
def locate (map : MapRegion) : List Position → Except MapError (List Nat)
  | [] => .ok []
  | root :: rest =>
      match map.region.index root with
      | none => .error .outsideRegion
      | some index =>
          if map.candidate index = false then .error .invalidTile
          else
            match locate map rest with
            | .error e => .error e
            | .ok sources => .ok (index :: sources)

/-- Indices in order, without repetition. -/
def sources (indices : List Nat) : List Nat := (indices.insertionSort (· ≤ ·)).dedup

def offer (map : MapRegion) (maximum current depth : Nat) :
    List Neighbor → Wave → Flooding Wave
  | [], s => pure s
  | neighbor :: rest, s => do
      charge 1 maximum
      if s.distance neighbor.index ≠ none ∨ map.candidate neighbor.index = false then
        offer map maximum current depth rest s
      else if neighbor.axis = 2 ∧ map.stairs ascends descends current neighbor = false then
        offer map maximum current depth rest s
      else do
        rejectIf (2 ^ 32 ≤ depth + 1) .budgetExceeded
        offer map maximum current depth rest
          { distance := Function.update s.distance neighbor.index (some (depth + 1))
            parent := Function.update s.parent neighbor.index (some current)
            queue := s.queue ++ [neighbor.index] }

/-- Search until the queue is empty. Every turn pays, as in `MapRegion.search`. -/
def search (map : MapRegion) (maximum : Nat) : Nat → Wave → Flooding Wave
  | bound, s =>
      match s.queue with
      | [] => pure s
      | current :: queue =>
          match bound with
          | 0 => throw .budgetExceeded
          | bound + 1 => do
              charge 1 maximum
              match map.region.position current, s.distance current with
              | some p, some depth => do
                  visit map.region p
                  let s ← offer map maximum current depth (neighbors map.region p)
                    { s with queue := queue }
                  search map maximum bound s
              | _, _ => throw .invalidRegion

/-- The body of `compute`, from an empty tally. -/
def computeFrom (map : MapRegion) (roots : List Position) (maximum : Nat) :
    Flooding Reachability := do
  of map.validate
  rejectIf (roots = [] ∨ roots.length > 128 ∨ maximum = 0 ∨ maximum > maxRouteWork) .budgetExceeded
  let indices ← of (locate map roots)
  charge map.cells.length maximum
  let starts := sources indices
  let s ← search map maximum (maximum + 1)
    { distance := fun v => if v ∈ starts then some 0 else none
      parent := fun v => if v ∈ starts then some v else none
      queue := starts }
  let tally ← get
  pure ⟨map.region, s.distance, s.parent, map.cells.length, tally.visitedTiles, tally.workUnits,
    tally.touchedRegionBoundary⟩

def compute (map : MapRegion) (roots : List Position) (maximum : Nat) :
    Except MapError Reachability :=
  (exec (computeFrom map roots maximum) ⟨0, 0, false⟩).1

def distanceTo (r : Reachability) (target : Position) : Option Nat :=
  (r.region.index target).bind r.distance

/-- Read the path back from `node`, for at most so many tiles. -/
def backtrack (r : Reachability) : Nat → Nat → List Position → Except MapError (List Position)
  | 0, _, _ => .error .invalidRegion
  | bound + 1, node, path =>
      match r.region.position node with
      | none => .error .invalidRegion
      | some p =>
          match r.parent node with
          | none => .error .invalidRegion
          | some parent =>
              if parent = node then .ok (p :: path) else r.backtrack bound parent (p :: path)

def pathTo (r : Reachability) (target : Position) : Except MapError (Option (List Position)) :=
  match r.region.index target with
  | none => .error .outsideRegion
  | some node =>
      if r.distance node = none then .ok none
      else
        match r.backtrack r.tiles node [] with
        | .error e => .error e
        | .ok path => .ok (some path)

end Reachability

end Dfmcp
