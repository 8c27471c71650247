import Dfmcp.World.TerrainWrite
import Dfmcp.World.Evidence

/-!
# What changed between two snapshots

`world_changes.rs`: the differences between the records of two observed snapshots, for entities,
relations, terrain and retained events, each domain with its own bound and a count of what it leaves
out. The changes are values here: a subject holds what the source writes into its JSON object, so that
two subjects are equal when their objects are; a field change holds the two facts that the source
renders.

The coordinate of a tile is computed in 32 bits. Where that overflows, the description is `none`.
-/

namespace Dfmcp

open Machine

namespace WorldChanges

def maxEntityChanges : Nat := 24
def maxRelationChanges : Nat := 24
def maxEventChanges : Nat := 24
def maxTerrainChanges : Nat := 24
def maxFieldsPerEntity : Nat := 8

/-! ## Changes -/

structure EntitySubject where
  entityId : EntityId
  kind : String
  label : String
  generation : U 32
  revision : U 64
deriving DecidableEq

/-- A relation and the generations of its ends at one side; a dangling end has none. -/
structure RelationSubject where
  edgeId : EdgeId
  kind : String
  revision : U 64
  fromId : EntityId
  toId : EntityId
  fromGeneration : Option (U 32)
  toGeneration : Option (U 32)
deriving DecidableEq

structure EventSubject where
  eventId : EventId
  kind : String
  tick : GameTick
  entityId : Option EntityId
  summary : String
deriving DecidableEq

/-- A field on both sides. -/
structure FieldChange (α : Type) where
  field : String
  before : Option α
  after : Option α
deriving DecidableEq

/-- The source of a fact changed, or when it was observed. -/
def FieldChange.provenanceChanged (change : FieldChange Fact) : Bool :=
  match change.before, change.after with
  | some a, some b =>
      a.observedAt ≠ b.observedAt || a.source ≠ b.source || a.sourceDigest ≠ b.sourceDigest
  | _, _ => false

/-- The listed fields of a record, and how many changed. -/
structure Fields (α : Type) where
  listed : List (FieldChange α)
  changed : Nat
deriving DecidableEq

def Fields.omitted {α : Type} (fields : Fields α) : Nat := fields.changed - fields.listed.length

/-- What changed on one level. -/
structure LevelChange where
  tiles : Nat
  low : S 32 × S 32
  high : S 32 × S 32
  transitions : BTreeMap String Nat
deriving DecidableEq

inductive Domain where
  | entity
  | relation
  | terrain
  | event
deriving DecidableEq

inductive Change where
  | reset (fortress : Bool)
  | gap
  | timePassed (fromTick toTick : GameTick)
  | pauseChanged (paused : Bool)
  | entityCreated (subject : EntitySubject)
  | entityRemoved (subject : EntitySubject)
  | entityChanged (before after : EntitySubject) (fields : Fields Fact)
  | relation (before after : Option RelationSubject) (fields : Fields Fact)
  | terrain (z : S 32) (level : LevelChange)
  | event (before after : Option EventSubject) (fields : Fields Value)
  | omitted (domain : Domain) (count : Nat)
deriving DecidableEq

/-- What a record is called that is on one side or on both. -/
def sideKind {α : Type} (before after : Option α) (created removed changed : String) : String :=
  match before, after with
  | none, some _ => created
  | some _, none => removed
  | _, _ => changed

def Change.kind : Change → String
  | reset _ => "world_observation_reset"
  | gap => "world_history_gap"
  | timePassed _ _ => "game_time_passed"
  | pauseChanged paused => if paused then "fortress_paused" else "fortress_unpaused"
  | entityCreated _ => "entity_created"
  | entityRemoved _ => "entity_removed"
  | entityChanged _ _ _ => "entity_changed"
  | relation before after _ =>
      sideKind before after "relation_created" "relation_removed" "relation_changed"
  | terrain _ _ => "terrain_changed"
  | event before after _ =>
      sideKind before after "event_observed" "event_no_longer_retained" "retained_event_changed"
  | omitted .entity _ => "entity_changes_omitted"
  | omitted .relation _ => "relation_changes_omitted"
  | omitted .terrain _ => "terrain_changes_omitted"
  | omitted .event _ => "event_changes_omitted"

/-- The changes of a domain with a bound, and the count of those beyond it. -/
def withOmitted (domain : Domain) (listed : List Change × Nat) : List Change :=
  listed.1 ++ if listed.2 > 0 then [.omitted domain listed.2] else []

/-! ## Loops over both sides -/

section Loops

variable {K V α : Type} [LinearOrder K]

/-- The keys of either map, in order. -/
def bothKeys (before after : BTreeMap K V) : List K :=
  (OMap.ofList ((before.keys ++ after.keys).map fun k => (k, ()))).keys

/-- One step of a loop that lists at most `cap` changes and counts the others. -/
def list (cap : Nat) (change : K → Option α) (out : List α × Nat) (key : K) : List α × Nat :=
  match change key with
  | none => out
  | some c => if out.1.length < cap then (out.1 ++ [c], out.2) else (out.1, out.2 + 1)

def listAll (cap : Nat) (change : K → Option α) (keys : List K) : List α × Nat :=
  keys.foldl (list cap change) ([], 0)

end Loops

/-- One step of the loop over the names of fields. -/
def listField {α : Type} [DecidableEq α] (before after : BTreeMap String α) (fields : Fields α)
    (name : String) : Fields α :=
  if before.get? name = after.get? name then fields
  else if fields.listed.length < maxFieldsPerEntity then
    ⟨fields.listed ++ [⟨name, before.get? name, after.get? name⟩], fields.changed + 1⟩
  else ⟨fields.listed, fields.changed + 1⟩

/-- `fact_field_changes` and `event_field_changes`. -/
def fieldChanges {α : Type} [DecidableEq α] (before after : BTreeMap String α) : Fields α :=
  (bothKeys before after).foldl (listField before after) ⟨[], 0⟩

/-! ## Entities -/

def entitySubject (entity : EntityRecord) : EntitySubject :=
  ⟨entity.id, entity.kind.asStr, entity.label, entity.generation, entity.revision⟩

def entityChange (base target : WorldSnapshot) (id : EntityId) : Option Change :=
  match base.graph.entities.get? id, target.graph.entities.get? id with
  | none, some created => some (.entityCreated (entitySubject created))
  | some removed, none => some (.entityRemoved (entitySubject removed))
  | some before, some after =>
      if before ≠ after then
        if (fieldChanges before.fields after.fields).changed > 0 ∨
            entitySubject before ≠ entitySubject after then
          some (.entityChanged (entitySubject before) (entitySubject after)
            (fieldChanges before.fields after.fields))
        else none
      else none
  | none, none => none

def entityChanges (base target : WorldSnapshot) : List Change :=
  withOmitted .entity (listAll maxEntityChanges (entityChange base target)
    (bothKeys base.graph.entities target.graph.entities))

/-! ## Relations -/

def relationSubject (snapshot : WorldSnapshot) (edge : EdgeRecord) : RelationSubject where
  edgeId := edge.id
  kind := edge.kind.asStr
  revision := edge.revision
  fromId := edge.fromId
  toId := edge.toId
  fromGeneration := (snapshot.graph.entities.get? edge.fromId).map (·.generation)
  toGeneration := (snapshot.graph.entities.get? edge.toId).map (·.generation)

/-- The fields of a record, none without one. -/
def fieldsOr {α β : Type} (fields : α → BTreeMap String β) (record : Option α) : BTreeMap String β :=
  record.elim .nil fields

def relationChange (base target : WorldSnapshot) (id : EdgeId) : Option Change :=
  let before := base.graph.edges.get? id
  let after := target.graph.edges.get? id
  if before.map (relationSubject base) = after.map (relationSubject target) ∧
      before.map (·.fields) = after.map (·.fields) then none
  else some (.relation (before.map (relationSubject base)) (after.map (relationSubject target))
    (fieldChanges (fieldsOr (·.fields) before) (fieldsOr (·.fields) after)))

def relationChanges (base target : WorldSnapshot) : List Change :=
  withOmitted .relation (listAll maxRelationChanges (relationChange base target)
    (bothKeys base.graph.edges target.graph.edges))

/-! ## Retained events -/

def eventSubject (event : WorldEvent) : EventSubject :=
  ⟨event.id, event.kind.asStr, event.tick, event.subject, event.summary⟩

def eventChange (base target : WorldSnapshot) (id : EventId) : Option Change :=
  let before := base.graph.events.get? id
  let after := target.graph.events.get? id
  if before.map eventSubject = after.map eventSubject ∧
      before.map (·.fields) = after.map (·.fields) then none
  else some (.event (before.map eventSubject) (after.map eventSubject)
    (fieldChanges (fieldsOr (·.fields) before) (fieldsOr (·.fields) after)))

def eventChanges (base target : WorldSnapshot) : List Change :=
  withOmitted .event (listAll maxEventChanges (eventChange base target)
    (bothKeys base.graph.events target.graph.events))

/-! ## Terrain -/

/-- The codes of a chunk that is as wide as a canonical one, and has as many as its sides say. -/
def expand (chunk : Option MapChunk) : Option (List (U 32)) :=
  match chunk with
  | none => none
  | some chunk =>
      if (expandRuns chunk.terrainRuns).length = chunk.width.val * chunk.height.val ∧
          chunk.width.val = terrainChunkEdge then
        some (expandRuns chunk.terrainRuns)
      else none

def tileName (code : U 32) : String :=
  match code.val with
  | 0 => "open_space"
  | 1 => "floor"
  | 2 => "wall"
  | 3 => "stair"
  | 4 => "ramp"
  | 5 => "fortification"
  | 6 => "tree"
  | 7 => "magma"
  | 8 => "chasm"
  | _ => "other"

def transition (a b : U 32) : String := tileName a ++ "->" ++ tileName b

abbrev Levels := BTreeMap (S 32) LevelChange

namespace LevelChange

def default : LevelChange := ⟨0, (⟨0, S.fits_zero⟩, ⟨0, S.fits_zero⟩), (⟨0, S.fits_zero⟩, ⟨0, S.fits_zero⟩), .nil⟩

/-- A tile of the level changed. -/
def note (level : LevelChange) (x y : S 32) (key : String) : LevelChange where
  tiles := level.tiles + 1
  low := if level.tiles = 0 then (x, y) else (min level.low.1 x, min level.low.2 y)
  high := if level.tiles = 0 then (x, y) else (max level.high.1 x, max level.high.2 y)
  transitions := level.transitions.insert key ((level.transitions.get? key).getD 0 + 1)

/-- A chunk of the level cannot be compared by tiles. -/
def lose (level : LevelChange) : LevelChange :=
  { level with transitions := level.transitions.insert "chunk_observed_or_lost" 1 }

end LevelChange

/-- `levels.entry(z).or_default()`, changed. -/
def atLevel (levels : Levels) (z : S 32) (f : LevelChange → LevelChange) : Levels :=
  levels.insert z (f ((levels.get? z).getD .default))

/-- A coordinate of a tile, from that of its chunk. -/
def coordinate? (chunk : S 32) (offset : Nat) : Option (S 32) := do
  let base ← (S.ofInt? (chunk.val * terrainChunkEdge) : Option (S 32))
  S.ofInt? (base.val + offset)

/-- Compare the codes at one offset of a chunk. -/
def compareTile (coord : ChunkCoord) (levels : Levels) (entry : (U 32 × U 32) × Nat) :
    Option Levels :=
  if entry.1.1 = entry.1.2 then some levels
  else do
    let x ← coordinate? coord.x (entry.2 % terrainChunkEdge)
    let y ← coordinate? coord.y (entry.2 / terrainChunkEdge)
    pure (atLevel levels coord.z fun level => level.note x y (transition entry.1.1 entry.1.2))

def compareChunk (base target : WorldSnapshot) (levels : Levels) (coord : ChunkCoord) :
    Option Levels :=
  let before := base.graph.chunks.get? coord
  let after := target.graph.chunks.get? coord
  if before = after then some levels
  else match expand before, expand after with
    | some old, some new => (old.zip new).zipIdx.foldlM (compareTile coord) levels
    | _, _ => some (atLevel levels coord.z LevelChange.lose)

def levelChanges (base target : WorldSnapshot) : Option Levels :=
  (bothKeys base.graph.chunks target.graph.chunks).foldlM (compareChunk base target) .nil

def terrainChanges (base target : WorldSnapshot) : Option (List Change) := do
  let levels ← levelChanges base target
  pure (withOmitted .terrain ((levels.toList.take maxTerrainChanges).map fun e => .terrain e.1 e.2,
    levels.size - maxTerrainChanges))

/-! ## The description -/

def clockChanges (base target : WorldSnapshot) : List Change :=
  (if base.tick ≠ target.tick then [.timePassed base.tick target.tick] else []) ++
    if base.paused ≠ target.paused then [.pauseChanged target.paused] else []

def changes (base target : WorldSnapshot) : Option (List Change) :=
  if base.fortressId ≠ target.fortressId ∨ base.cursor.epoch ≠ target.cursor.epoch then
    some [.reset (base.fortressId ≠ target.fortressId)]
  else if target.cursor.sequence < base.cursor.sequence ∨ target.tick < base.tick then some [.gap]
  else if base.stateHash = target.stateHash then some []
  else do
    let terrain ← terrainChanges base target
    pure (clockChanges base target ++ entityChanges base target ++ relationChanges base target ++
      terrain ++ eventChanges base target)

/-- A change between the anchors of two snapshots. -/
structure Entry where
  basis : StateAnchor × StateAnchor
  change : Change
deriving DecidableEq

/-- Observed world changes from one snapshot to another, most structural first. -/
def describe (base target : WorldSnapshot) : Option (List Entry) :=
  (changes base target).map fun listed => listed.map fun change => ⟨(base.anchor, target.anchor), change⟩

end WorldChanges

end Dfmcp
