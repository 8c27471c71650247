import Dfmcp.World.Terrain

/-!
# The reference laboratory

The three laboratory predicates over a complete reference world: room access on one level and
across paired stairs (`laboratory_access.rs`) and the civilian release census
(`laboratory_civilian.rs`), with the qualification of facts they share
(`laboratory_fact_value` of `evidence.rs`).

Access is decided twice over a grid of tiles: once over tiles known to be clear and once over
tiles that may be. A flood over the grid visits every tile at most once, so the number of tiles
bounds its rounds. Both models and the census read kinds by name.
-/

namespace Dfmcp

open Machine Kleene

/-- Truth within a supplied snapshot. -/
abbrev PredicateTruth := Truth

def labScenario : String := "dfmcp.lab-scenario/1"
def labEffects : String := "dfmcp.reference-effects/1"

/-- A known fact that the registered laboratory simulation may consume. -/
def laboratoryFactValue (fact : Fact) (snapshotTick : GameTick) : Option Value :=
  if fact.observedAt > snapshotTick ∨ fact.sourceDigest ≠ Digest32.zero ∨
      ¬ (fact.source = .derived labScenario ∨ fact.source = .derived labEffects) then none
  else fact.knownValue

namespace Laboratory

def unavailable (message : String) : DfmcpError := .new .preconditionsFailed message
def invalid (message : String) : DfmcpError := .new .invalidRequest message
def bounded (message : String) : DfmcpError := .new .budgetExceeded message

def field (record : EntityRecord) (name : String) (tick : GameTick) : Option Value :=
  (record.fields.get? name).bind fun fact => laboratoryFactValue fact tick

def text (record : EntityRecord) (name : String) (tick : GameTick) : Option String :=
  match field record name tick with
  | some (.text value) => some value
  | _ => none

def coord (record : EntityRecord) (name : String) (tick : GameTick) : Option MapCoord :=
  match field record name tick with
  | some (.coord value) => some value
  | _ => none

def entity (record : EntityRecord) (name : String) (tick : GameTick) : Option EntityId :=
  match field record name tick with
  | some (.entity value) => some value
  | _ => none

end Laboratory

/-! ## Occupancy -/

namespace LaboratoryAccess

open Laboratory

def maxTiles : U 64 := 1024
def maxTargets : Nat := 16
def maxEntities : Nat := 65536

/-- The combined work bound of the access predicates of one tree. -/
def maxPredicateWork : U 64 := 16 * (32 * 65536 + 320 * maxTiles + 64 * 16)

def validateRequest (area : MapCuboid) (entry : MapCoord) (targets : List MapCoord) :
    Result (U 64) := do
  let tiles ← validateRegion area
  if area.min.z ≠ area.max.z then
    throw (invalid "laboratory room access requires a single-level area")
  if tiles > maxTiles ∨ targets = [] ∨ targets.length > maxTargets then
    throw (bounded "laboratory room access requires at most 1024 tiles and 1..=16 targets")
  if !area.contains entry || targets.any (!area.contains ·) then
    throw (invalid "laboratory room access entry and targets must lie inside its area")
  if ¬ targets.Nodup then
    throw (invalid "laboratory room access targets must be distinct")
  pure tiles

def validatePairedStairsRequest (area : MapCuboid) (entry : MapCoord) (targets : List MapCoord) :
    Result (U 64) := do
  let tiles ← validateRegion area
  if tiles > maxTiles ∨ targets = [] ∨ targets.length > maxTargets then
    throw (bounded
      "laboratory paired-stair room access requires at most 1024 tiles and 1..=16 targets")
  if !area.contains entry || targets.any (!area.contains ·) then
    throw (invalid
      "laboratory paired-stair room access entry and targets must lie inside its area")
  if ¬ targets.Nodup then
    throw (invalid "laboratory paired-stair room access targets must be distinct")
  pure tiles

def workBound (area : MapCuboid) (targets entities : Nat) : U 64 :=
  (((U.wrap entities : U 64).saturatingMul 32).saturatingAdd
    ((area.tileCount.getD (U.max 64)).saturatingMul 320)).saturatingAdd
      ((U.wrap targets : U 64).saturatingMul 64)

/-- A released placement may no longer own its item, but its original building identity and
lifecycle must still be established before its occupancy is ignored. -/
def validatePlacement (record : EntityRecord) (tick : GameTick) : Result Unit :=
  match coord record "position" tick with
  | none => .error (unavailable "furniture occupancy has no qualified position")
  | some position =>
      match field record "progress_ticks" tick with
      | some (.u64 progress) =>
          let stage := text record "construction_stage" tick
          let validStage : Bool := match stage with
            | some "planned" => progress = 0
            | some "under_construction" | some "cancelled" =>
                progress < 500 && (stage ≠ some "under_construction" || progress > 0)
            | some "complete" => progress = 500
            | _ => false
          let kinds := ["furniture:Bed", "furniture:Door", "furniture:Table", "furniture:Chair"]
          if record.generation ≠ 1 ∨ text record "placement_model" tick ≠ some "furniture/1" ∨
              text record "building_kind" tick ∉ kinds.map some ∨
              entity record "source_item" tick = none ∨
              field record "source_item_generation" tick ≠ some (.u64 1) ∨
              coord record "footprint_min" tick ≠ some position ∨
              coord record "footprint_max" tick ≠ some position ∨
              field record "required_ticks" tick ≠ some (.u64 500) ∨ validStage = false ∨
              text record "attachment_state" tick ≠
                some (if stage = some "cancelled" then "released" else "attached") then
            .error (unavailable "furniture occupancy has no qualified original placement identity")
          else .ok ()
      | _ => .error (unavailable "furniture occupancy has no qualified progress")

/-- One record of the building census. -/
def addFootprint (tick : GameTick) (footprints : BTreeMap EntityId MapCuboid)
    (entry : EntityId × EntityRecord) : Result (BTreeMap EntityId MapCuboid) := do
  let (id, record) := entry
  if id ≠ record.id then
    throw (unavailable "laboratory occupancy has mismatched canonical entity identities")
  if record.kind.asStr ≠ EntityKind.building.asStr then
    return footprints
  if ["placement_model", "source_item", "source_item_generation", "attachment_state"].any
      record.fields.contains then
    validatePlacement record tick
  match text record "construction_stage" tick with
  | some "cancelled" => return footprints
  | some "planned" | some "under_construction" | some "complete" =>
      match coord record "footprint_min" tick, coord record "footprint_max" tick with
      | some min, some max =>
          match MapCuboid.new min max with
          | .ok area => return footprints.insert id area
          | .error _ => throw (unavailable "building occupancy has an invalid footprint")
      | _, _ => throw (unavailable "building occupancy has no qualified complete footprint")
  | _ => throw (unavailable "building occupancy has no qualified lifecycle")

/-- The complete qualified building census. A malformed or unqualified record anywhere refuses
it; cancelled buildings occupy nothing. -/
def laboratoryBuildingFootprints (s : WorldSnapshot) : Result (BTreeMap EntityId MapCuboid) :=
  if s.graph.entities.size > maxEntities then
    .error (bounded "laboratory occupancy exceeds its 65536-entity inspection bound")
  else s.graph.entities.toList.foldlM (addFootprint s.tick) .nil

/-! ## Flooding a grid -/

/-- Visit one neighbour: mark and queue it when it can be entered and has not been reached. -/
def visit (passable : Nat → Bool) (state : List Bool × List Nat) (next : Nat) :
    List Bool × List Nat :=
  if passable next && !state.1.getD next false then (state.1.set next true, state.2 ++ [next])
  else state

/-- The breadth-first loop. -/
def flood (passable : Nat → Bool) (neighbors : Nat → List Nat) :
    Nat → List Bool → List Nat → List Bool
  | 0, reached, _ => reached
  | _ + 1, reached, [] => reached
  | rounds + 1, reached, current :: pending =>
      let (reached, pending) := (neighbors current).foldl (visit passable) (reached, pending)
      flood passable neighbors rounds reached pending

/-- The cells reached from an entry, among `cells`. -/
def floodFrom (passable : Nat → Bool) (neighbors : Nat → List Nat) (cells entry : Nat) :
    List Bool :=
  let unreached := List.replicate cells false
  if passable entry then flood passable neighbors cells (unreached.set entry true) [entry]
  else unreached

/-- Every target needs an approach that is reached for sure; one that no approach may reach
decides the whole request. -/
def judgeTargets (approaches : Nat → List Nat) (clear potential : List Bool)
    (result : PredicateTruth) : List Nat → PredicateTruth
  | [] => result
  | index :: rest =>
      if (approaches index).any (clear.getD · false) then
        judgeTargets approaches clear potential result rest
      else if !(approaches index).any (potential.getD · false) then .false
      else judgeTargets approaches clear potential .unknown rest

/-- A side of the grid, which a region with ordered corners always has. -/
def dimension (message : String) (min max : S 32) : Result Nat :=
  if max.val - min.val + 1 < 0 then .error (bounded message)
  else .ok (max.val - min.val + 1).toNat

def addAt (difference : List Int) (index : Nat) (amount : Int) : List Int :=
  difference.modify index (· + amount)

/-! ## One level -/

structure Grid where
  area : MapCuboid
  width : Nat
  height : Nat

namespace Grid

def index (grid : Grid) (tile : MapCoord) : Option Nat :=
  if !grid.area.contains tile then none
  else
    let x := (tile.x.val - grid.area.min.x.val).toNat
    let y := (tile.y.val - grid.area.min.y.val).toNat
    some (y * grid.width + x)

def neighbors (grid : Grid) (index : Nat) : List Nat :=
  let x := index % grid.width
  let y := index / grid.width
  [if x > 0 then some (index - 1) else none,
    if x + 1 < grid.width then some (index + 1) else none,
    if y > 0 then some (index - grid.width) else none,
    if y + 1 < grid.height then some (index + grid.width) else none].reduceOption

/-- Stamp the four corners of a footprint, clipped to the area. -/
def stamp (grid : Grid) (difference : List Int) (footprint : MapCuboid) : List Int :=
  let stride := grid.width + 1
  let z := grid.area.min.z
  if footprint.min.z > z ∨ footprint.max.z < z then difference
  else
    let min : MapCoord :=
      ⟨max footprint.min.x grid.area.min.x, max footprint.min.y grid.area.min.y, z⟩
    let max : MapCoord :=
      ⟨Min.min footprint.max.x grid.area.max.x, Min.min footprint.max.y grid.area.max.y, z⟩
    match grid.index min, grid.index max with
    | some start, some stop =>
        if min.x > max.x ∨ min.y > max.y then difference
        else
          let left := start % grid.width
          let top := start / grid.width
          let right := stop % grid.width + 1
          let bottom := stop / grid.width + 1
          addAt (addAt (addAt (addAt difference (top * stride + left) 1)
            (top * stride + right) (-1)) (bottom * stride + left) (-1)) (bottom * stride + right) 1
    | _, _ => difference

/-- One cell of the summation, row by row. -/
def sumCell (grid : Grid) (y : Nat) (state : Int × List Int × List Bool) (x : Nat) :
    Int × List Int × List Bool :=
  let (row, difference, occupied) := state
  let stride := grid.width + 1
  let index := y * stride + x
  let row := row + difference.getD index 0
  let total := row + if y = 0 then 0 else difference.getD (index - stride) 0
  (row, difference.set index total, occupied.set (y * grid.width + x) (total > 0))

def sumRow (grid : Grid) (state : List Int × List Bool) (y : Nat) : List Int × List Bool :=
  ((List.range grid.width).foldl (grid.sumCell y) (0, state)).2

/-- Difference rectangles avoid a buildings-times-area scan. -/
def occupied (grid : Grid) (footprints : BTreeMap EntityId MapCuboid) : List Bool :=
  let difference := footprints.values.foldl grid.stamp
    (List.replicate ((grid.width + 1) * (grid.height + 1)) 0)
  ((List.range grid.height).foldl grid.sumRow
    (difference, List.replicate (grid.width * grid.height) false)).2

end Grid

/-- The code of the run that covers an offset, once every run has been found well formed. -/
def boundedRuns (offset : U 32) : U 32 → Option (U 32) → List TerrainRun → Option (U 32)
  | total, code, [] => if total = terrainChunkTiles then code else none
  | total, code, run :: runs =>
      match total.checkedAdd run.length with
      | none => none
      | some stop =>
          if run.length = 0 ∨ stop > terrainChunkTiles then none
          else boundedRuns offset stop
            (if total ≤ offset ∧ offset < stop then some run.tileCode else code) runs

def boundedTileCode (s : WorldSnapshot) (tile : MapCoord) : Option (U 32) :=
  let slot := tileSlot tile
  (s.graph.chunks.get? slot.chunk).bind fun chunk =>
    if chunk.coord ≠ slot.chunk ∨ chunk.width.val ≠ terrainChunkEdge ∨
        chunk.height.val ≠ terrainChunkEdge ∨ chunk.terrainRuns.length > terrainChunkTiles.val then
      none
    else boundedRuns slot.offset 0 none chunk.terrainRuns

/-- Mark the targets as occupied and find their cells. -/
def placeTargets (index : MapCoord → Option Nat) (message : String) (targets : List MapCoord) :
    Result (List Nat) :=
  targets.mapM fun target =>
    match index target with
    | some index => .ok index
    | none => .error (invalid message)

/-- Every furnishing needs a reachable cardinal approach from the entry, over FLOOR tiles of one
level. -/
def laboratoryRoomAccessTruth (s : WorldSnapshot) (area : MapCuboid) (entry : MapCoord)
    (targets : List MapCoord) : Result PredicateTruth := do
  let _ ← validateRequest area entry targets
  match laboratoryBuildingFootprints s with
  | .error error => if error.code = .budgetExceeded then throw error else return .unknown
  | .ok footprints =>
      let width ← dimension "laboratory access width cannot be represented" area.min.x area.max.x
      let height ← dimension "laboratory access height cannot be represented" area.min.y area.max.y
      let grid : Grid := ⟨area, width, height⟩
      let indices ← placeTargets grid.index "access target left its area" targets
      let occupied := indices.foldl (fun cells index => cells.set index true)
        (grid.occupied footprints)
      let terrain := (regionTiles area).map (boundedTileCode s)
      let clear := fun index =>
        !occupied.getD index false && terrain.getD index none = some TileCodes.floor
      let potential := fun index =>
        !occupied.getD index false && (terrain.getD index none).all (· = TileCodes.floor)
      match grid.index entry with
      | none => throw (invalid "access entry left its area")
      | some entry =>
          let clear := floodFrom clear grid.neighbors terrain.length entry
          let potential := floodFrom potential grid.neighbors terrain.length entry
          return judgeTargets grid.neighbors clear potential .true indices

/-! ## Paired stairs -/

structure PairedStairsGrid where
  area : MapCuboid
  width : Nat
  height : Nat
  depth : Nat

namespace PairedStairsGrid

def new (area : MapCuboid) : Result PairedStairsGrid := do
  let dimension := dimension "paired-stair access dimension cannot be represented"
  let width ← dimension area.min.x area.max.x
  let height ← dimension area.min.y area.max.y
  let depth ← dimension area.min.z area.max.z
  pure ⟨area, width, height, depth⟩

def index (grid : PairedStairsGrid) (tile : MapCoord) : Option Nat :=
  if !grid.area.contains tile then none
  else
    let x := (tile.x.val - grid.area.min.x.val).toNat
    let y := (tile.y.val - grid.area.min.y.val).toNat
    let z := (tile.z.val - grid.area.min.z.val).toNat
    some ((z * grid.height + y) * grid.width + x)

def horizontalNeighbors (grid : PairedStairsGrid) (index : Nat) : List Nat :=
  let x := index % grid.width
  let y := index / grid.width % grid.height
  [if x > 0 then some (index - 1) else none,
    if x + 1 < grid.width then some (index + 1) else none,
    if y > 0 then some (index - grid.width) else none,
    if y + 1 < grid.height then some (index + grid.width) else none].reduceOption

def verticalNeighbors (grid : PairedStairsGrid) (index : Nat) : List Nat :=
  let layer := grid.width * grid.height
  let z := index / layer
  [if z > 0 then some (index - layer) else none,
    if z + 1 < grid.depth then some (index + layer) else none].reduceOption

/-- FLOOR and STAIR permit horizontal movement; changing levels needs STAIR at both ends. -/
def reached (grid : PairedStairsGrid) (terrain : List (Option (U 32))) (occupied : List Bool)
    (entry : Nat) (potential : Bool) : List Bool :=
  let passable := fun index =>
    !occupied.getD index false &&
      match terrain.getD index none with
      | some code => code = TileCodes.floor || code = TileCodes.stair
      | none => potential
  let stairs := fun index =>
    terrain.getD index none = some TileCodes.stair || (potential && (terrain.getD index none).isNone)
  let neighbors := fun current =>
    grid.horizontalNeighbors current ++
      (grid.verticalNeighbors current).filter fun next => stairs current && stairs next
  floodFrom passable neighbors terrain.length entry

/-- Stamp the eight corners of a footprint, clipped to the area. -/
def stamp (grid : PairedStairsGrid) (difference : List Int) (footprint : MapCuboid) : List Int :=
  let stride := grid.width + 1
  let plane := stride * (grid.height + 1)
  let layer := grid.width * grid.height
  let min : MapCoord := ⟨max footprint.min.x grid.area.min.x,
    max footprint.min.y grid.area.min.y, max footprint.min.z grid.area.min.z⟩
  let max : MapCoord := ⟨Min.min footprint.max.x grid.area.max.x,
    Min.min footprint.max.y grid.area.max.y, Min.min footprint.max.z grid.area.max.z⟩
  if min.x > max.x ∨ min.y > max.y ∨ min.z > max.z then difference
  else match grid.index min, grid.index max with
    | some start, some stop =>
        let xs : List (Nat × Int) := [(start % grid.width, 1), (stop % grid.width + 1, -1)]
        let ys : List (Nat × Int) :=
          [(start / grid.width % grid.height, 1), (stop / grid.width % grid.height + 1, -1)]
        let zs : List (Nat × Int) := [(start / layer, 1), (stop / layer + 1, -1)]
        let corners := xs.flatMap fun x => ys.flatMap fun y => zs.map fun z => (x, y, z)
        corners.foldl (fun difference (x, y, z) =>
          addAt difference (z.1 * plane + y.1 * stride + x.1) (x.2 * y.2 * z.2)) difference
    | _, _ => difference

/-- Sum the difference array along one axis: add to each cell the one `step` before it. -/
def sumAxis (step : Nat) (cells : List Nat) (difference : List Int) : List Int :=
  cells.foldl (fun difference index => addAt difference index (difference.getD (index - step) 0))
    difference

/-- The cells `(x, y, z)` of the difference array, by `z`, then `y`, then `x`. -/
def cells (grid : PairedStairsGrid) (xs ys zs : List Nat) : List Nat :=
  let stride := grid.width + 1
  let plane := stride * (grid.height + 1)
  zs.flatMap fun z => ys.flatMap fun y => xs.map fun x => z * plane + y * stride + x

/-- A three-dimensional difference array clips each footprint once. -/
def occupied (grid : PairedStairsGrid) (footprints : BTreeMap EntityId MapCuboid) : List Bool :=
  let stride := grid.width + 1
  let plane := stride * (grid.height + 1)
  let upTo (n : Nat) := List.range (n + 1)
  let from1 (n : Nat) := (List.range n).map (· + 1)
  let stamped := footprints.values.foldl grid.stamp (List.replicate (plane * (grid.depth + 1)) 0)
  let alongX := sumAxis 1 (grid.cells (from1 grid.width) (upTo grid.height) (upTo grid.depth)) stamped
  let alongY :=
    sumAxis stride (grid.cells (upTo grid.width) (from1 grid.height) (upTo grid.depth)) alongX
  let alongZ :=
    sumAxis plane (grid.cells (upTo grid.width) (upTo grid.height) (from1 grid.depth)) alongY
  (grid.cells (List.range grid.width) (List.range grid.height) (List.range grid.depth)).map
    fun index => alongZ.getD index 0 > 0

end PairedStairsGrid

/-- Access under the paired bidirectional stair model. -/
def laboratoryRoomAccessPairedStairsTruth (s : WorldSnapshot) (area : MapCuboid)
    (entry : MapCoord) (targets : List MapCoord) : Result PredicateTruth := do
  let _ ← validatePairedStairsRequest area entry targets
  match laboratoryBuildingFootprints s with
  | .error error => if error.code = .budgetExceeded then throw error else return .unknown
  | .ok footprints =>
      let grid ← PairedStairsGrid.new area
      let indices ← placeTargets grid.index "paired-stair access target left its area" targets
      let occupied := indices.foldl (fun cells index => cells.set index true)
        (grid.occupied footprints)
      let terrain := (regionTiles area).map fun tile =>
        (boundedTileCode s tile).filter (· ≠ TileCodes.unknown)
      match grid.index entry with
      | none => throw (invalid "paired-stair access entry left its area")
      | some entry =>
          let clear := grid.reached terrain occupied entry false
          let potential := grid.reached terrain occupied entry true
          return judgeTargets grid.horizontalNeighbors clear potential .true indices

end LaboratoryAccess

/-! ## The civilian census -/

/-- An exact entity incarnation. -/
structure LaboratoryEntityIdentity where
  id : EntityId
  generation : U 32
deriving DecidableEq

/-- Identities are ordered by identifier, then generation. -/
def LaboratoryEntityIdentity.key (identity : LaboratoryEntityIdentity) : U 64 ×ₗ U 32 :=
  toLex (identity.id, identity.generation)

inductive LaboratoryThreatAssessment where
  | present
  | clear
  | unknown
deriving DecidableEq

structure LaboratoryCivilianCensus where
  anchor : StateAnchor
  burrow : Option LaboratoryEntityIdentity
  civilians : List LaboratoryEntityIdentity
  completeCivilianRoster : Bool
  threat : LaboratoryThreatAssessment
  isProtected : PredicateTruth
  protectionComplete : PredicateTruth
  released : PredicateTruth
  sourceScope : Digest32
  inspectedEntities : Nat

namespace LaboratoryCivilian

open Laboratory

def releasePolicy : String := "dfmcp.laboratory-civilian-release/1"
def maxCivilians : Nat := 64
def maxEntities : Nat := 65536
def maxPredicateWork : U 64 := 16 * 32 * 65536

def workBound (entities : Nat) : U 64 := (U.wrap entities : U 64).saturatingMul 32

def validateRequest (burrow : LaboratoryEntityIdentity)
    (civilians : List LaboratoryEntityIdentity) : Result Unit :=
  if civilians = [] ∨ civilians.length > maxCivilians then
    .error (bounded "laboratory civilian release requires 1..=64 civilians")
  else if burrow.id = 0 ∨ burrow.generation = 0 then
    .error (invalid "civilian release requires an exact nonzero burrow incarnation")
  else if civilians.any (fun c => c.id = 0 || c.id = burrow.id || c.generation = 0) ∨
      ¬ (civilians.map (·.id)).Nodup then
    .error (invalid
      "civilian release requires distinct nonzero civilian identities and generations")
  else .ok ()

/-- The reference standing-order identity. -/
def laboratoryFortressSettingsEntityId (fortress : FortressId) : EntityId :=
  let digest := Digest32.ofBytes (utf8 "dfmcp-fortress-settings-v1\x00" ++ putU64 fortress)
  U.wrap (0x7E00000000000000 ||| (ofBe (digest.bytes.take 8) &&& 0x00FFFFFFFFFFFFFF))

def identity (record : EntityRecord) : Option LaboratoryEntityIdentity :=
  if record.id ≠ 0 ∧ record.generation ≠ 0 then some ⟨record.id, record.generation⟩ else none

def scopeIdentity (record : EntityRecord) : Bytes :=
  putU64 record.id ++ putU32 record.generation

def scopeSource (record : EntityRecord) (name : String) (tick : GameTick) : Bytes :=
  match record.fields.get? name with
  | none => [0]
  | some fact => if (laboratoryFactValue fact tick).isSome then [1] else [2]

/-- The accumulators of the census loop. -/
structure Scan where
  scope : Bytes
  civilians : List LaboratoryEntityIdentity
  complete : Bool
  anyAssignment : Bool
  allUnassigned : Bool
  allAssigned : Bool
  anyUnassigned : Bool
  present : Bool
  unknownThreat : Bool

def Scan.push (scan : Scan) (bytes : Bytes) : Scan := { scan with scope := scan.scope ++ bytes }

/-- The generation of an identity in the scope, zero for none. -/
def scopeGeneration (identity : Option LaboratoryEntityIdentity) : Bytes :=
  putU32 (identity.elim 0 (·.generation))

/-- The record of a kind, by name, as an identity. -/
def identityOf (s : WorldSnapshot) (kind : String) (id : EntityId) :
    Option LaboratoryEntityIdentity :=
  ((s.graph.entities.get? id).filter fun record => record.kind.asStr = kind).bind identity

/-- Whether a living unit is a civilian: no squad, or a known null one. -/
def scanSquad (s : WorldSnapshot) (record : EntityRecord) (scan : Scan) : Bool × Scan :=
  match record.fields.get? "squad", field record "squad" s.tick with
  | none, _ | some _, some .null => (true, scan.push [0])
  | some _, some (.entity squadId) =>
      let squad := identityOf s "squad" squadId
      let scan := scan.push ([1] ++ putU64 squadId ++ scopeGeneration squad)
      (false, if squad.isNone then { scan with complete := false } else scan)
  | some _, _ => (false, { scan.push [2] with complete := false })

/-- A civilian joins the roster while there is room, and its membership is noted. -/
def scanMember (membership : Option Value) (unit : LaboratoryEntityIdentity) (scan : Scan) : Scan :=
  let scan := if scan.civilians.length < maxCivilians then
      { scan with civilians := scan.civilians ++ [unit] }
    else { scan with complete := false }
  match membership with
  | some (.bool true) => { scan with anyAssignment := true, allUnassigned := false }
  | some (.bool false) => { scan with allAssigned := false, anyUnassigned := true }
  | _ => { scan with allAssigned := false, allUnassigned := false }

def scanUnit (s : WorldSnapshot) (membership : String) (record : EntityRecord) (scan : Scan) :
    Scan :=
  let alive := field record "alive" s.tick
  let tag : UInt8 := match alive with
    | some (.bool false) => 0
    | some (.bool true) => 1
    | _ => 2
  let scan := scan.push ([0] ++ scopeIdentity record ++ scopeSource record "alive" s.tick ++ [tag])
  match identity record, alive with
  | none, _ => { scan with complete := false }
  | some _, some (.bool false) => scan
  | some unit, some (.bool true) =>
      let (civilian, scan) := scanSquad s record (scan.push (scopeSource record "squad" s.tick))
      if civilian then scanMember (field record membership s.tick) unit scan else scan
  | some _, _ => { scan with complete := false }

def scanCreature (s : WorldSnapshot) (record : EntityRecord) (scan : Scan) : Scan :=
  let scan := scan.push ([1] ++ scopeIdentity record ++ scopeSource record "hostile" s.tick)
  let scan := if (identity record).isNone then { scan with unknownThreat := true } else scan
  match field record "hostile" s.tick with
  | some (.bool false) => scan.push [0]
  | some (.bool true) =>
      let scan := scan.push ([1] ++ scopeSource record "threat_status" s.tick)
      match field record "threat_status" s.tick with
      | some (.text "approaching") => { scan.push [0] with present := true }
      | some (.text "attacking") => { scan.push [1] with present := true }
      | some (.text "slain") => scan.push [2]
      | _ => { scan.push [3] with unknownThreat := true }
  | _ => { scan.push [2] with unknownThreat := true }

/-- One record of the census. -/
def scanRecord (s : WorldSnapshot) (membership : String) (scan : Scan)
    (entry : EntityId × EntityRecord) : Result Scan :=
  if entry.1 ≠ entry.2.id then
    .error (invalid "civilian census entity lookup keys must match anchored identities")
  else match entry.2.kind.asStr with
    | "unit" => .ok (scanUnit s membership entry.2 scan)
    | "creature" => .ok (scanCreature s entry.2 scan)
    | _ => .ok scan

/-- Classify one selected burrow against the entire bounded entity domain. -/
def laboratoryCivilianCensus (s : WorldSnapshot) (selectedBurrow : EntityId) :
    Result LaboratoryCivilianCensus := do
  if selectedBurrow = 0 ∨ s.fortressId = 0 then
    throw (invalid "civilian census requires a nonzero fortress and selected burrow")
  if s.graph.entities.size > maxEntities then
    throw (bounded "laboratory civilian census exceeds its complete entity-domain bound")
  let burrow := identityOf s "burrow" selectedBurrow
  let scope := utf8 releasePolicy ++ [0] ++ putU64 s.fortressId ++ putU64 selectedBurrow ++
    scopeGeneration burrow
  let scan ← s.graph.entities.toList.foldlM (scanRecord s s!"burrow.{selectedBurrow}")
    ⟨scope, [], true, false, true, true, false, false, false⟩
  let settings := laboratoryFortressSettingsEntityId s.fortressId
  let restriction :=
    ((s.graph.entities.get? settings).filter fun record =>
      record.kind.asStr = "fortress_settings" && (identity record).isSome).bind fun record =>
        field record "standing_order.CIVILIAN_BURROW_RESTRICTION" s.tick
  let active := restriction = some (.text "ACTIVE")
  let inactive := restriction = some (.text "INACTIVE")
  let retained := active ∨ scan.anyAssignment
  let released := burrow.isSome ∧ scan.complete ∧ scan.allUnassigned ∧ inactive
  pure {
    anchor := s.anchor
    burrow
    civilians := scan.civilians
    completeCivilianRoster := scan.complete
    threat := if scan.present then .present else if scan.unknownThreat then .unknown else .clear
    isProtected := if retained then .true else if released then .false else .unknown
    protectionComplete :=
      if inactive ∨ scan.anyUnassigned then .false
      else if burrow.isSome ∧ scan.complete ∧ scan.allAssigned ∧ active then .true
      else .unknown
    released := if retained then .false else if released then .true else .unknown
    sourceScope := Digest32.ofBytes scan.scope
    inspectedEntities := s.graph.entities.size }

/-- Current safety for one sealed release roster. -/
def laboratoryCivilianReleaseSafetyTruth (s : WorldSnapshot) (burrow : LaboratoryEntityIdentity)
    (civilians : List LaboratoryEntityIdentity) : Result PredicateTruth := do
  validateRequest burrow civilians
  let census ← laboratoryCivilianCensus s burrow.id
  if census.threat = .present then
    return .false
  if census.burrow ≠ some burrow then
    return match s.graph.entities.get? burrow.id with
      | some record => if record.generation = 0 then .unknown else .false
      | none => .false
  if !census.completeCivilianRoster || census.threat = .unknown then
    return .unknown
  let expected := civilians.insertionSort fun a b => a.key ≤ b.key
  return if census.civilians = expected then .true else .false

end LaboratoryCivilian

end Dfmcp
