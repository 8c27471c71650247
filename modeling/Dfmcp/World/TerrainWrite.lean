import Dfmcp.World.Terrain
import Dfmcp.Library.Method

/-!
# Writing tiles and the spatial index

The rest of `terrain.rs`: a chunk's runs are decoded into one code for each tile, one code is
replaced, and the codes are encoded again. And `spatial_index.rs`: every chunk as an array of tile
properties, with the index `lab_world.rs` builds from a snapshot.
-/

namespace Dfmcp

open Machine Method

/-! ## Runs and codes -/

/-- One step of `encode_runs`: a code extends the last run, or begins a run. -/
def pushCode (runs : List TerrainRun) (code : U 32) : List TerrainRun :=
  match runs.getLast? with
  | some run =>
      if run.tileCode = code then runs.dropLast ++ [{ run with length := run.length + 1 }]
      else runs ++ [⟨code, 1⟩]
  | none => runs ++ [⟨code, 1⟩]

/-- Run-length encode tile codes, merging equal neighbours. -/
def encodeRuns (codes : List (U 32)) : List TerrainRun := codes.foldl pushCode []

/-- Every run, written out. -/
def expandRuns (runs : List TerrainRun) : List (U 32) :=
  runs.flatMap fun run => List.replicate run.length.val run.tileCode

def decodeRuns (chunk : MapChunk) : Option (List (U 32)) :=
  if !chunkIsCanonical chunk then none else some (expandRuns chunk.terrainRuns)

/-! ## One tile replaced -/

/-- The derived `Debug` text. -/
def MapCoord.debug (c : MapCoord) : String :=
  "MapCoord \x7b x: " ++ toString c.x.val ++ ", y: " ++ toString c.y.val ++ ", z: " ++
    toString c.z.val ++ " \x7d"

/-- `set_tile_code` inside the chunk it found. -/
def MapChunk.setTileCode (coord : MapCoord) (offset code : U 32) :
    Method DfmcpError MapChunk Bool := do
  let chunk ← get
  let codes ← Method.of <| (decodeRuns chunk).elim
    (.error (.new .preconditionsFailed ("terrain chunk containing " ++ coord.debug ++
      " is not a canonical 16x16 chunk"))) .ok
  match codes[offset.val]? with
  | none =>
      throw (.new .internalInvariantViolation "terrain tile offset is outside its chunk")
  | some current =>
      rejectIf (current = TileCodes.unknown)
        (.new .preconditionsFailed ("terrain at " ++ coord.debug ++ " has not been observed"))
      if current = code then pure false
      else do
        let revision ← Method.of <| (chunk.revision.checkedAdd 1).elim
          (.error (.new .budgetExceeded "terrain chunk revision is exhausted")) .ok
        set { chunk with revision, terrainRuns := encodeRuns (codes.set offset.val code) }
        pure true

/-- Put a chunk back where it was found. -/
def WorldSnapshot.putChunk (coord : ChunkCoord) (chunk : MapChunk) (s : WorldSnapshot) :
    WorldSnapshot :=
  { s with graph := { s.graph with chunks := s.graph.chunks.insert coord chunk } }

/-- Replace the tile code at a coordinate inside an existing canonical chunk. Answers whether the
tile changed. -/
def WorldSnapshot.setTileCode (coord : MapCoord) (code : U 32) :
    Method DfmcpError WorldSnapshot Bool := do
  let slot := tileSlot coord
  let s ← get
  match s.graph.chunks.get? slot.chunk with
  | none =>
      throw (.new .preconditionsFailed ("terrain at " ++ coord.debug ++ " is not observed"))
  | some chunk =>
      zoom (fun _ => chunk) (WorldSnapshot.putChunk slot.chunk)
        (MapChunk.setTileCode coord slot.offset code)

/-- A complete canonical chunk of one tile code. -/
def uniformChunk (coord : ChunkCoord) (tileCode : U 32) : MapChunk where
  coord
  revision := 1
  width := 16
  height := 16
  terrainRuns := [⟨tileCode, terrainChunkTiles⟩]
  sparseOverlays := .nil

/-! ## Tile properties -/

/-- Tile classification for spatial indexing. -/
inductive TileType where
  | openSpace
  | pillar
  | floor
  | stair
  | ramp
  | fortification
  | tree
  | solidWall
  | magmaWall
  | chasm
deriving DecidableEq

def TileType.fromTileCode (code : U 32) : TileType :=
  match code.val with
  | 0 => .openSpace
  | 1 => .floor
  | 2 => .solidWall
  | 3 => .stair
  | 4 => .ramp
  | 5 => .fortification
  | 6 => .tree
  | 7 => .magmaWall
  | 8 => .chasm
  | _ => .pillar

inductive LiquidType where
  | water
  | magma
deriving DecidableEq

inductive TemperatureBand where
  | freezing
  | cold
  | temperate
  | hot
  | magmaHot
deriving DecidableEq

/-- Computed spatial properties for a single map tile. -/
structure TileProperties where
  tileType : TileType
  walkable : Bool
  liquid : Option (LiquidType × U 8)
  temperature : TemperatureBand
deriving DecidableEq

def TileProperties.fromTileType (tileType : TileType) : TileProperties :=
  let (walkable, temperature) := match tileType with
    | .openSpace | .pillar => (false, TemperatureBand.temperate)
    | .floor | .stair | .ramp | .fortification | .tree => (true, .temperate)
    | .solidWall => (false, .temperate)
    | .magmaWall => (false, .magmaHot)
    | .chasm => (false, .cold)
  ⟨tileType, walkable, none, temperature⟩

/-! ## The spatial index -/

/-- The tile array of a chunk. -/
abbrev Tiles := Fin 256 → TileProperties

structure SpatialChunkNode where
  coord : ChunkCoord
  tiles : Tiles

namespace SpatialChunkNode

/-- The inner loop: `count` tiles from `idx` on get the same properties. -/
def fillRun (props : TileProperties) (idx count : Nat) (tiles : Tiles) : Tiles :=
  (List.range count).foldl
    (fun tiles i => fun cell => if cell.val = idx + i then props else tiles cell) tiles

/-- The loop over the runs, with the first tile not yet filled. -/
def fillTiles : List TerrainRun → Nat → Tiles → Tiles
  | [], _, tiles => tiles
  | run :: runs, idx, tiles =>
      let props := TileProperties.fromTileType (.fromTileCode run.tileCode)
      let count := min run.length.val (256 - idx)
      let filled := fillRun props idx count tiles
      if idx + count ≥ 256 then filled else fillTiles runs (idx + count) filled

def fromMapChunk (chunk : MapChunk) : Result SpatialChunkNode :=
  if chunk.width ≠ 16 ∨ chunk.height ≠ 16 ∨ chunk.encodedTileCount ≠ some 256 ∨
      (chunk.sparseOverlays.keys.any fun offset => offset ≥ 256) ∨
      (chunk.terrainRuns.any fun run => run.tileCode = TileCodes.unknown) then
    .error (.new .invalidRequest
      "spatial index currently accepts only fully observed complete 16x16 chunks")
  else
    .ok ⟨chunk.coord, fillTiles chunk.terrainRuns 0 fun _ => .fromTileType .solidWall⟩

def getTile (node : SpatialChunkNode) (localX localY : U 8) : Option TileProperties :=
  if h : localX.val < 16 ∧ localY.val < 16 then
    some (node.tiles ⟨localY.val * 16 + localX.val, by omega⟩)
  else none

end SpatialChunkNode

/-- Fast spatial index storing mapped chunks. -/
structure ChunkSpatialIndex where
  chunks : BTreeMap ChunkCoord SpatialChunkNode

namespace ChunkSpatialIndex

def new : ChunkSpatialIndex := ⟨.nil⟩

/-- Index or update a map chunk. -/
def insertOrUpdateChunk (index : ChunkSpatialIndex) (chunk : MapChunk) :
    Result ChunkSpatialIndex := do
  let node ← SpatialChunkNode.fromMapChunk chunk
  pure ⟨index.chunks.insert chunk.coord node⟩

/-- The tile properties at exact coordinates. -/
def getTile (index : ChunkSpatialIndex) (coord : MapCoord) : Option TileProperties :=
  let chunkCoord : ChunkCoord :=
    ⟨coord.x.divEuclid 16 (by decide), coord.y.divEuclid 16 (by decide), coord.z⟩
  (index.chunks.get? chunkCoord).bind fun node =>
    node.getTile (U.wrap (coord.x.val % 16).toNat) (U.wrap (coord.y.val % 16).toNat)

end ChunkSpatialIndex

/-- The spatial index of a snapshot: every chunk in key order. -/
def spatialIndex (s : WorldSnapshot) : Result ChunkSpatialIndex :=
  s.graph.chunks.values.foldlM ChunkSpatialIndex.insertOrUpdateChunk .new

end Dfmcp
