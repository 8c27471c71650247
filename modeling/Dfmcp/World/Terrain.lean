import Dfmcp.World.Model
import Dfmcp.Library.Kleene

/-!
# Tiles and regions

`terrain.rs`: where a tile lives in the chunked terrain, the code stored for it, and the scan of
a bounded region. A tile whose chunk is absent, malformed or not sixteen by sixteen has no code,
and a region with such a tile never matches.
-/

namespace Dfmcp

open Machine Kleene

/-- Edge length of a canonical terrain chunk. -/
def terrainChunkEdge : Nat := 16

/-- Tiles in one canonical terrain chunk. -/
def terrainChunkTiles : U 32 := 256

/-- Largest region a single terrain predicate may cover. -/
def maxRegionTerrainTiles : U 64 := 65536

namespace TileCodes

/-- No observed terrain at this cell. -/
def unknown : U 32 := U.max 32

def floor : U 32 := 1
def stair : U 32 := 3

end TileCodes

/-- Location of one tile inside chunk storage. -/
structure TileSlot where
  chunk : ChunkCoord
  offset : U 32
deriving DecidableEq

def tileSlot (coord : MapCoord) : TileSlot :=
  let localX := coord.x.val % terrainChunkEdge
  let localY := coord.y.val % terrainChunkEdge
  ⟨⟨coord.x.divEuclid terrainChunkEdge (by decide), coord.y.divEuclid terrainChunkEdge (by decide),
    coord.z⟩, U.wrap (localY * terrainChunkEdge + localX).natAbs⟩

def chunkIsCanonical (chunk : MapChunk) : Bool :=
  chunk.width.val = terrainChunkEdge && chunk.height.val = terrainChunkEdge &&
    chunk.encodedTileCount = some terrainChunkTiles

/-- The code of the run that covers an offset; the runs begin at `start`. -/
def codeInRuns (offset : U 32) : U 32 → List TerrainRun → Option (U 32)
  | _, [] => none
  | start, run :: runs =>
      match start.checkedAdd run.length with
      | none => none
      | some stop => if offset < stop then some run.tileCode else codeInRuns offset stop runs

def codeInChunk (chunk : MapChunk) (offset : U 32) : Option (U 32) :=
  if !chunkIsCanonical chunk then none else codeInRuns offset 0 chunk.terrainRuns

/-- Three-valued result of comparing a region against an expected tile code. -/
inductive RegionTruth where
  | matches
  | differs
  | unknown
deriving DecidableEq

/-- A region must not be inverted or too large; its number of tiles. -/
def validateRegion (area : MapCuboid) : Result (U 64) :=
  if area.min.x > area.max.x ∨ area.min.y > area.max.y ∨ area.min.z > area.max.z then
    .error (.new .invalidRequest "terrain region minimum must not exceed maximum")
  else match area.tileCount with
    | none => .error (.new .budgetExceeded "terrain region size overflows")
    | some tiles =>
        if tiles > maxRegionTerrainTiles then
          .error (.new .budgetExceeded s!"terrain region exceeds {maxRegionTerrainTiles} tiles")
        else .ok tiles

/-- The tiles of a region: by `z`, then `y`, then `x`. -/
def regionTiles (area : MapCuboid) : List MapCoord :=
  (S.rangeInclusive area.min.z area.max.z).flatMap fun z =>
    (S.rangeInclusive area.min.y area.max.y).flatMap fun y =>
      (S.rangeInclusive area.min.x area.max.x).map fun x => ⟨x, y, z⟩

/-- The scan shared by every region comparison: a known mismatch ends it, an unknown tile is
remembered. -/
def scanRegion (codeAt : MapCoord → Option (U 32)) (expected : U 32) (unknown : Bool) :
    List MapCoord → RegionTruth
  | [] => if unknown then .unknown else .matches
  | coord :: rest =>
      match codeAt coord with
      | some code => if code = expected then scanRegion codeAt expected unknown rest else .differs
      | none => scanRegion codeAt expected true rest

namespace WorldSnapshot

/-- The tile code at a coordinate, where the terrain is observed in a canonical chunk. -/
def tileCodeAt (s : WorldSnapshot) (coord : MapCoord) : Option (U 32) :=
  let slot := tileSlot coord
  ((s.graph.chunks.get? slot.chunk).bind fun chunk => codeInChunk chunk slot.offset).filter
    (· ≠ TileCodes.unknown)

/-- Compare every tile of a region with an expected code. -/
def regionTerrainTruth (s : WorldSnapshot) (area : MapCuboid) (expected : U 32) : RegionTruth :=
  if (validateRegion area).isOk then scanRegion s.tileCodeAt expected false (regionTiles area)
  else .unknown

end WorldSnapshot

/-! ## Slots -/

theorem tileSlot_offset_val (coord : MapCoord) : ((tileSlot coord).offset.val : Int) =
    coord.y.val % 16 * 16 + coord.x.val % 16 := by
  have hx := Int.emod_nonneg coord.x.val (show (16 : Int) ≠ 0 by decide)
  have hx' := Int.emod_lt_of_pos coord.x.val (show (0 : Int) < 16 by decide)
  have hy := Int.emod_nonneg coord.y.val (show (16 : Int) ≠ 0 by decide)
  have hy' := Int.emod_lt_of_pos coord.y.val (show (0 : Int) < 16 by decide)
  show ((U.wrap (coord.y.val % 16 * 16 + coord.x.val % 16).natAbs : U 32).val : Int) = _
  rw [U.wrap_val (by omega)]
  omega

theorem tileSlot_offset_lt (coord : MapCoord) : (tileSlot coord).offset.val < 256 := by
  have hval := tileSlot_offset_val coord
  omega

/-- **No two coordinates share a slot.** -/
theorem tileSlot_injective {coord other : MapCoord} (h : tileSlot coord = tileSlot other) :
    coord = other := by
  have hchunk := congrArg TileSlot.chunk h
  have hoffset : ((tileSlot coord).offset.val : Int) = (tileSlot other).offset.val := by rw [h]
  have hx : coord.x.val / 16 = other.x.val / 16 :=
    congrArg (fun c : ChunkCoord => c.x.val) hchunk
  have hy : coord.y.val / 16 = other.y.val / 16 :=
    congrArg (fun c : ChunkCoord => c.y.val) hchunk
  have hz : coord.z = other.z := congrArg ChunkCoord.z hchunk
  rw [tileSlot_offset_val, tileSlot_offset_val] at hoffset
  have hxval : coord.x.val = other.x.val := by omega
  have hyval : coord.y.val = other.y.val := by omega
  cases coord
  cases other
  rw [MapCoord.mk.injEq]
  exact ⟨Subtype.ext hxval, Subtype.ext hyval, hz⟩

/-! ## The scan is a conjunction -/

/-- The answer of a region scan as a truth value. -/
def RegionTruth.toTruth : RegionTruth → Truth
  | .matches => .true
  | .differs => .false
  | .unknown => .unknown

/-- What one tile says about an expected code. -/
def tileTruth (expected : U 32) : Option (U 32) → Truth
  | some code => Truth.ofBool (code = expected)
  | none => .unknown

theorem toTruth_scanRegion (codeAt : MapCoord → Option (U 32)) (expected : U 32) (unknown : Bool)
    (tiles : List MapCoord) :
    (scanRegion codeAt expected unknown tiles).toTruth =
      Truth.allFrom (if unknown then .unknown else .true)
        (tiles.map fun coord => tileTruth expected (codeAt coord)) := by
  induction tiles generalizing unknown with
  | nil => cases unknown <;> rfl
  | cons coord rest ih =>
      cases hcode : codeAt coord with
      | none =>
          have htail := ih true
          simpa [scanRegion, hcode, tileTruth, Truth.allFrom] using htail
      | some code =>
          by_cases heq : code = expected
          · simpa [scanRegion, hcode, heq, tileTruth, Truth.ofBool, Truth.allFrom] using ih unknown
          · simp [scanRegion, hcode, heq, tileTruth, Truth.ofBool, Truth.allFrom,
              RegionTruth.toTruth]

/-- **A region matches as the conjunction of its tiles.** -/
theorem toTruth_scanRegion_eq_all (codeAt : MapCoord → Option (U 32)) (expected : U 32)
    (tiles : List MapCoord) :
    (scanRegion codeAt expected false tiles).toTruth =
      Truth.all (tiles.map fun coord => tileTruth expected (codeAt coord)) :=
  toTruth_scanRegion codeAt expected false tiles

/-- The region of one tile. -/
theorem regionTiles_single (coord : MapCoord) : regionTiles ⟨coord, coord⟩ = [coord] := by
  simp [regionTiles, S.rangeInclusive_self]

theorem validateRegion_single (coord : MapCoord) : validateRegion ⟨coord, coord⟩ = .ok 1 := by
  simp [validateRegion, MapCuboid.tileCount, U.wrap, U.checkedMul, maxRegionTerrainTiles]

/-- Asking for one tile reads its code. -/
theorem regionTerrainTruth_single (s : WorldSnapshot) (coord : MapCoord) (expected : U 32) :
    (s.regionTerrainTruth ⟨coord, coord⟩ expected).toTruth =
      tileTruth expected (s.tileCodeAt coord) := by
  have hok : (validateRegion ⟨coord, coord⟩).isOk = true := by
    rw [validateRegion_single]
    rfl
  rw [WorldSnapshot.regionTerrainTruth, if_pos hok, toTruth_scanRegion_eq_all, regionTiles_single,
    List.map_singleton]
  generalize tileTruth expected (s.tileCodeAt coord) = t
  cases t <;> rfl

end Dfmcp
