import Dfmcp.Library.Differences
import Dfmcp.World.Laboratory

/-!
# Occupancy with its failures

`laboratory_access.rs`: the two versions of `occupied`, with every access to an array and every counter
checked. The source stops with a panic where these give `none`.
-/

namespace Dfmcp

open Machine Differences

namespace LaboratoryAccess

/-- A 64-bit sum. -/
def counted (value : Int) : Option Int := if FitsCounter value then some value else none

namespace Grid

/-- Stamp the four corners of a footprint, clipped to the area. -/
def stamp? (grid : Grid) (difference : List Int) (footprint : MapCuboid) : Option (List Int) :=
  let stride := grid.width + 1
  let z := grid.area.min.z
  if footprint.min.z > z ∨ footprint.max.z < z then some difference
  else
    let min : MapCoord :=
      ⟨max footprint.min.x grid.area.min.x, max footprint.min.y grid.area.min.y, z⟩
    let max : MapCoord :=
      ⟨Min.min footprint.max.x grid.area.max.x, Min.min footprint.max.y grid.area.max.y, z⟩
    match grid.index min, grid.index max with
    | some start, some stop =>
        if min.x > max.x ∨ min.y > max.y then some difference
        else do
          let left := start % grid.width
          let top := start / grid.width
          let right := stop % grid.width + 1
          let bottom := stop / grid.width + 1
          let difference ← addAt? difference (top * stride + left) 1
          let difference ← addAt? difference (top * stride + right) (-1)
          let difference ← addAt? difference (bottom * stride + left) (-1)
          addAt? difference (bottom * stride + right) 1
    | _, _ => some difference

/-- The total of the cell above. -/
def above? (grid : Grid) (y : Nat) (difference : List Int) (index : Nat) : Option Int :=
  if y = 0 then some 0 else difference[index - (grid.width + 1)]?

/-- One cell of the summation, row by row. -/
def sumCell? (grid : Grid) (y : Nat) (state : Int × List Int × List Bool) (x : Nat) :
    Option (Int × List Int × List Bool) := do
  let (row, difference, occupied) := state
  let stride := grid.width + 1
  let index := y * stride + x
  let value ← difference[index]?
  let row ← counted (row + value)
  let above ← grid.above? y difference index
  let total ← counted (row + above)
  let cell := y * grid.width + x
  if cell < occupied.length then
    some (row, difference.set index total, occupied.set cell (total > 0))
  else none

def sumRow? (grid : Grid) (state : List Int × List Bool) (y : Nat) :
    Option (List Int × List Bool) := do
  let (_, state) ← (List.range grid.width).foldlM (grid.sumCell? y) (0, state)
  some state

def occupied? (grid : Grid) (footprints : List MapCuboid) : Option (List Bool) := do
  let difference ← footprints.foldlM grid.stamp?
    (List.replicate ((grid.width + 1) * (grid.height + 1)) 0)
  let (_, occupied) ← (List.range grid.height).foldlM grid.sumRow?
    (difference, List.replicate (grid.width * grid.height) false)
  some occupied

end Grid

namespace PairedStairsGrid

/-- Stamp the eight corners of a footprint, clipped to the area. -/
def stamp? (grid : PairedStairsGrid) (difference : List Int) (footprint : MapCuboid) :
    Option (List Int) :=
  let stride := grid.width + 1
  let plane := stride * (grid.height + 1)
  let layer := grid.width * grid.height
  let min : MapCoord := ⟨max footprint.min.x grid.area.min.x,
    max footprint.min.y grid.area.min.y, max footprint.min.z grid.area.min.z⟩
  let max : MapCoord := ⟨Min.min footprint.max.x grid.area.max.x,
    Min.min footprint.max.y grid.area.max.y, Min.min footprint.max.z grid.area.max.z⟩
  if min.x > max.x ∨ min.y > max.y ∨ min.z > max.z then some difference
  else match grid.index min, grid.index max with
    | some start, some stop =>
        let xs : List (Nat × Int) := [(start % grid.width, 1), (stop % grid.width + 1, -1)]
        let ys : List (Nat × Int) :=
          [(start / grid.width % grid.height, 1), (stop / grid.width % grid.height + 1, -1)]
        let zs : List (Nat × Int) := [(start / layer, 1), (stop / layer + 1, -1)]
        let corners := xs.flatMap fun x => ys.flatMap fun y => zs.map fun z => (x, y, z)
        corners.foldlM (fun difference (x, y, z) =>
          addAt? difference (z.1 * plane + y.1 * stride + x.1) (x.2 * y.2 * z.2)) difference
    | _, _ => some difference

def occupied? (grid : PairedStairsGrid) (footprints : List MapCuboid) : Option (List Bool) := do
  let stride := grid.width + 1
  let plane := stride * (grid.height + 1)
  let upTo (n : Nat) := List.range (n + 1)
  let from1 (n : Nat) := (List.range n).map (· + 1)
  let stamped ← footprints.foldlM grid.stamp? (List.replicate (plane * (grid.depth + 1)) 0)
  let alongX ← scan? 1 (grid.cells (from1 grid.width) (upTo grid.height) (upTo grid.depth)) stamped
  let alongY ←
    scan? stride (grid.cells (upTo grid.width) (from1 grid.height) (upTo grid.depth)) alongX
  let alongZ ←
    scan? plane (grid.cells (upTo grid.width) (upTo grid.height) (from1 grid.depth)) alongY
  (grid.cells (List.range grid.width) (List.range grid.height) (List.range grid.depth)).mapM
    fun index => do
      let value ← alongZ[index]?
      some (decide (value > 0))

end PairedStairsGrid

end LaboratoryAccess

end Dfmcp
