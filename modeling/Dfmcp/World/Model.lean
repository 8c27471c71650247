import Dfmcp.Core.Basic
import Dfmcp.Library.OrderedMap

/-!
# World records and their canonical bytes

The data model of `model.rs`: typed values, facts, entities, edges, map chunks and events, the
graph that holds them under their identifiers, and the anchored snapshot. Every record has
canonical bytes, length-delimited and in a fixed field order; a snapshot's state hash is the
digest of its bytes.

A `BTreeMap` of the source is an `OMap`, so equality of records is equality of values, as in
Rust. As in Rust, too, nothing ties a map key to the identifier inside the record stored under
it: the bytes list the records only. `WorldGraph.KeysMatch` names the snapshots where the two
agree.
-/

namespace Dfmcp

open Machine

/-! ## Canonical primitives -/

def putBool (value : Bool) : Bytes := [if value then 1 else 0]
def putU16 (value : U 16) : Bytes := beBytes 2 value.val
def putU32 (value : U 32) : Bytes := beBytes 4 value.val
def putI32 (value : S 32) : Bytes := beBytes 4 value.toBits
def putU64 (value : U 64) : Bytes := beBytes 8 value.val
def putI64 (value : S 64) : Bytes := beBytes 8 value.toBits
def putU128 (value : U 128) : Bytes := beBytes 16 value.val

/-- `len() as u64`. -/
def putLen (n : Nat) : Bytes := putU64 (U.wrap n)

def putBytes (value : Bytes) : Bytes := putLen value.length ++ value
def putStr (value : String) : Bytes := putBytes (utf8 value)

def putAnchor (anchor : StateAnchor) : Bytes :=
  putU64 anchor.fortressId ++ putU64 anchor.cursor.epoch ++ putU64 anchor.cursor.sequence ++
    putU64 anchor.tick ++ putBytes anchor.stateHash.bytes

/-- `match value { Some(v) => { push(1); … } None => push(0) }`. -/
def putOption {α : Type} (put : α → Bytes) : Option α → Bytes
  | some a => 1 :: put a
  | none => [0]

/-! ## Kinds -/

inductive EntityKind where
  | fortress
  | unit
  | item
  | building
  | job
  | workOrder
  | stockpile
  | zone
  | burrow
  | squad
  | militaryOrder
  | tileFeature
  | plant
  | creature
  | historicalFigure
  | civilization
  | announcement
  | syndrome
  | other (name : String)
deriving DecidableEq

def EntityKind.asStr : EntityKind → String
  | .fortress => "fortress"
  | .unit => "unit"
  | .item => "item"
  | .building => "building"
  | .job => "job"
  | .workOrder => "work_order"
  | .stockpile => "stockpile"
  | .zone => "zone"
  | .burrow => "burrow"
  | .squad => "squad"
  | .militaryOrder => "military_order"
  | .tileFeature => "tile_feature"
  | .plant => "plant"
  | .creature => "creature"
  | .historicalFigure => "historical_figure"
  | .civilization => "civilization"
  | .announcement => "announcement"
  | .syndrome => "syndrome"
  | .other name => name

def EntityKind.encode (kind : EntityKind) : Bytes := putStr kind.asStr

inductive EdgeKind where
  | locatedAt
  | containedIn
  | assignedTo
  | memberOf
  | performs
  | requires
  | produces
  | uses
  | supports
  | threatens
  | orderedBy
  | parentOf
  | custom (name : String)
deriving DecidableEq

def EdgeKind.asStr : EdgeKind → String
  | .locatedAt => "located_at"
  | .containedIn => "contained_in"
  | .assignedTo => "assigned_to"
  | .memberOf => "member_of"
  | .performs => "performs"
  | .requires => "requires"
  | .produces => "produces"
  | .uses => "uses"
  | .supports => "supports"
  | .threatens => "threatens"
  | .orderedBy => "ordered_by"
  | .parentOf => "parent_of"
  | .custom name => name

def EdgeKind.encode (kind : EdgeKind) : Bytes := putStr kind.asStr

inductive WorldEventKind where
  | announcement
  | jobChanged
  | unitChanged
  | constructionChanged
  | threatDetected
  | seasonChanged
  | adapterNotice
  | other (name : String)
deriving DecidableEq

def WorldEventKind.asStr : WorldEventKind → String
  | .announcement => "announcement"
  | .jobChanged => "job_changed"
  | .unitChanged => "unit_changed"
  | .constructionChanged => "construction_changed"
  | .threatDetected => "threat_detected"
  | .seasonChanged => "season_changed"
  | .adapterNotice => "adapter_notice"
  | .other name => name

/-! ## Values -/

inductive Value where
  | null
  | bool (value : Bool)
  | i64 (value : S 64)
  | u64 (value : U 64)
  | fixed (units : S 64) (scale : U 32)
  | text (value : String)
  | entity (value : EntityId)
  | coord (value : MapCoord)
  | bytes (value : Bytes)
  | list (values : List Value)
  | object (fields : OMap String Value none)

namespace Value

mutual

/-- Equality of values is decided constructor by constructor. -/
def decEq : (a b : Value) → Decidable (a = b)
  | .null, b => by cases b with | null => exact isTrue rfl | _ => exact isFalse nofun
  | .bool x, b => by
      cases b with
      | bool y => exact decidable_of_iff (x = y) (by simp)
      | _ => exact isFalse nofun
  | .i64 x, b => by
      cases b with
      | i64 y => exact decidable_of_iff (x = y) (by simp)
      | _ => exact isFalse nofun
  | .u64 x, b => by
      cases b with
      | u64 y => exact decidable_of_iff (x = y) (by simp)
      | _ => exact isFalse nofun
  | .fixed u s, b => by
      cases b with
      | fixed u' s' => exact decidable_of_iff (u = u' ∧ s = s') (by simp)
      | _ => exact isFalse nofun
  | .text x, b => by
      cases b with
      | text y => exact decidable_of_iff (x = y) (by simp)
      | _ => exact isFalse nofun
  | .entity x, b => by
      cases b with
      | entity y => exact decidable_of_iff (x = y) (by simp)
      | _ => exact isFalse nofun
  | .coord x, b => by
      cases b with
      | coord y => exact decidable_of_iff (x = y) (by simp)
      | _ => exact isFalse nofun
  | .bytes x, b => by
      cases b with
      | bytes y => exact decidable_of_iff (x = y) (by simp)
      | _ => exact isFalse nofun
  | .list xs, b => by
      cases b with
      | list ys => exact @decidable_of_iff _ (xs = ys) (by simp) (decEqList xs ys)
      | _ => exact isFalse nofun
  | .object m, b => by
      cases b with
      | object m' => exact @decidable_of_iff _ (m = m') (by simp) (decEqFields m m')
      | _ => exact isFalse nofun

def decEqList : (a b : List Value) → Decidable (a = b)
  | [], [] => isTrue rfl
  | [], _ :: _ => isFalse nofun
  | _ :: _, [] => isFalse nofun
  | x :: xs, y :: ys =>
      match decEq x y, decEqList xs ys with
      | isTrue h, isTrue h' => isTrue (by rw [h, h'])
      | isFalse h, _ => isFalse (by simp [h])
      | _, isFalse h => isFalse (by simp [h])

def decEqFields : {lo : Option String} → (a b : OMap String Value lo) → Decidable (a = b)
  | _, .nil, .nil => isTrue rfl
  | _, .nil, .cons .. => isFalse nofun
  | _, .cons .., .nil => isFalse nofun
  | _, .cons k _ v rest, .cons k' _ v' rest' =>
      if hk : k = k' then by
        subst hk
        exact match decEq v v', decEqFields rest rest' with
          | isTrue h, isTrue h' => isTrue (by rw [h, h'])
          | isFalse h, _ => isFalse (by simp [h])
          | _, isFalse h => isFalse (by simp [h])
      else isFalse (by simp [hk])

end

instance : DecidableEq Value := decEq

mutual

def encode : Value → Bytes
  | .null => [0]
  | .bool value => 1 :: putBool value
  | .i64 value => 2 :: putI64 value
  | .u64 value => 3 :: putU64 value
  | .fixed units scale => 4 :: (putI64 units ++ putU32 scale)
  | .text value => 5 :: putStr value
  | .entity value => 6 :: putU64 value
  | .coord value => 7 :: (putI32 value.x ++ putI32 value.y ++ putI32 value.z)
  | .bytes value => 8 :: putBytes value
  | .list values => 9 :: (putLen values.length ++ encodeList values)
  | .object fields => 10 :: (putLen fields.size ++ encodeFields fields)

/-- The elements of a list, one after the other. -/
def encodeList : List Value → Bytes
  | [] => []
  | v :: vs => v.encode ++ encodeList vs

/-- The entries of an object, in key order. -/
def encodeFields : {lo : Option String} → OMap String Value lo → Bytes
  | _, .nil => []
  | _, .cons k _ v rest => putStr k ++ v.encode ++ encodeFields rest

end

end Value

/-- The canonical bytes of a map of values: its length, then its entries in key order. -/
def putValueMap (fields : BTreeMap String Value) : Bytes :=
  putLen fields.size ++ Value.encodeFields fields

/-! ## Facts -/

inductive FactPresence where
  | known (value : Value)
  | absent
  | unknown (reason : String)
  | unsupported (reason : String)
  | omitted (reason : String)
  | redacted (reason : String)
  | stale (anchor : StateAnchor)
deriving DecidableEq

def FactPresence.encode : FactPresence → Bytes
  | .known value => 0 :: value.encode
  | .absent => [1]
  | .unknown reason => 2 :: putStr reason
  | .unsupported reason => 3 :: putStr reason
  | .omitted reason => 4 :: putStr reason
  | .redacted reason => 5 :: putStr reason
  | .stale anchor => 6 :: putAnchor anchor

inductive FactSource where
  | dfhackField (field : String)
  | derived (derivation : String)
  | agentAssertion (agent : String)
  | replay
deriving DecidableEq

def FactSource.encode : FactSource → Bytes
  | .dfhackField value => 0 :: putStr value
  | .derived value => 1 :: putStr value
  | .agentAssertion value => 2 :: putStr value
  | .replay => [3]

structure Fact where
  value : Value
  observedAt : GameTick
  source : FactSource
  sourceDigest : Digest32
  presence : Option FactPresence
deriving DecidableEq

namespace Fact

/-- The value a fact establishes. A presence marker that is unavailable, or that disagrees with
the stored value, establishes nothing. -/
def knownValue (fact : Fact) : Option Value :=
  match fact.presence with
  | none => some fact.value
  | some (.known value) => if value = fact.value then some value else none
  | some _ => none

def encode (fact : Fact) : Bytes :=
  fact.value.encode ++ putU64 fact.observedAt ++ fact.source.encode ++
    putBytes fact.sourceDigest.bytes ++ putOption FactPresence.encode fact.presence

end Fact

/-- One entry of a map of facts. -/
def putFactEntry (entry : String × Fact) : Bytes := putStr entry.1 ++ entry.2.encode

def putFactMap (fields : BTreeMap String Fact) : Bytes :=
  putLen fields.size ++ fields.toList.flatMap putFactEntry

/-! ## Records -/

structure EntityRecord where
  id : EntityId
  generation : U 32
  revision : U 64
  kind : EntityKind
  label : String
  fields : BTreeMap String Fact
deriving DecidableEq

def EntityRecord.encode (record : EntityRecord) : Bytes :=
  putU64 record.id ++ putU32 record.generation ++ putU64 record.revision ++
    record.kind.encode ++ putStr record.label ++ putFactMap record.fields

structure EdgeRecord where
  id : EdgeId
  revision : U 64
  kind : EdgeKind
  fromId : EntityId
  toId : EntityId
  fields : BTreeMap String Fact
deriving DecidableEq

def EdgeRecord.encode (record : EdgeRecord) : Bytes :=
  putU128 record.id ++ putU64 record.revision ++ record.kind.encode ++
    putU64 record.fromId ++ putU64 record.toId ++ putFactMap record.fields

structure ChunkCoord where
  x : S 32
  y : S 32
  z : S 32
deriving DecidableEq

namespace ChunkCoord

/-- Chunk coordinates are ordered by `x`, then `y`, then `z`. -/
def key (c : ChunkCoord) : S 32 ×ₗ S 32 ×ₗ S 32 := toLex (c.x, toLex (c.y, c.z))

theorem key_injective : Function.Injective key := by
  rintro ⟨x, y, z⟩ ⟨x', y', z'⟩ h
  simpa [key] using h

instance : LinearOrder ChunkCoord := LinearOrder.lift' key key_injective

def encode (c : ChunkCoord) : Bytes := putI32 c.x ++ putI32 c.y ++ putI32 c.z

/-- The derived `Debug` text. -/
def debug (c : ChunkCoord) : String :=
  "ChunkCoord \x7b x: " ++ toString c.x.val ++ ", y: " ++ toString c.y.val ++ ", z: " ++
    toString c.z.val ++ " \x7d"

end ChunkCoord

structure TerrainRun where
  tileCode : U 32
  length : U 32
deriving DecidableEq

def TerrainRun.encode (run : TerrainRun) : Bytes := putU32 run.tileCode ++ putU32 run.length

structure MapChunk where
  coord : ChunkCoord
  revision : U 64
  width : U 16
  height : U 16
  terrainRuns : List TerrainRun
  sparseOverlays : BTreeMap (U 32) (BTreeMap String Value)
deriving DecidableEq

namespace MapChunk

/-- Two 16-bit sides have a product in range of `u32`. -/
def tileCount (chunk : MapChunk) : U 32 :=
  ⟨chunk.width.val * chunk.height.val, by
    have hw : chunk.width.val < 2 ^ 16 := chunk.width.isLt
    have hh : chunk.height.val < 2 ^ 16 := chunk.height.isLt
    calc chunk.width.val * chunk.height.val < 2 ^ 16 * 2 ^ 16 := Nat.mul_lt_mul'' hw hh
      _ = 2 ^ 32 := by norm_num⟩

/-- The sum of the run lengths, unless it overflows. -/
def encodedTileCount (chunk : MapChunk) : Option (U 32) :=
  chunk.terrainRuns.foldlM (fun total run => U.checkedAdd total run.length) 0

/-- One sparse overlay entry. -/
def putOverlay (entry : U 32 × BTreeMap String Value) : Bytes :=
  putU32 entry.1 ++ putValueMap entry.2

def encode (chunk : MapChunk) : Bytes :=
  chunk.coord.encode ++ putU64 chunk.revision ++ putU16 chunk.width ++ putU16 chunk.height ++
    (putLen chunk.terrainRuns.length ++ chunk.terrainRuns.flatMap TerrainRun.encode) ++
    (putLen chunk.sparseOverlays.size ++ chunk.sparseOverlays.toList.flatMap putOverlay)

end MapChunk

structure WorldEvent where
  id : EventId
  tick : GameTick
  kind : WorldEventKind
  subject : Option EntityId
  summary : String
  fields : BTreeMap String Value
deriving DecidableEq

def WorldEvent.encode (event : WorldEvent) : Bytes :=
  putU128 event.id ++ putU64 event.tick ++ putStr event.kind.asStr ++
    putOption putU64 event.subject ++ putStr event.summary ++ putValueMap event.fields

/-! ## Graphs and snapshots -/

structure WorldGraph where
  entities : BTreeMap EntityId EntityRecord
  edges : BTreeMap EdgeId EdgeRecord
  chunks : BTreeMap ChunkCoord MapChunk
  events : BTreeMap EventId WorldEvent
deriving DecidableEq

namespace WorldGraph

def empty : WorldGraph := ⟨.nil, .nil, .nil, .nil⟩

def encode (graph : WorldGraph) : Bytes :=
  (putLen graph.entities.size ++ graph.entities.values.flatMap EntityRecord.encode) ++
    (putLen graph.edges.size ++ graph.edges.values.flatMap EdgeRecord.encode) ++
    (putLen graph.chunks.size ++ graph.chunks.values.flatMap MapChunk.encode) ++
    (putLen graph.events.size ++ graph.events.values.flatMap WorldEvent.encode)

/-- Every record is stored under its own identifier. -/
structure KeysMatch (graph : WorldGraph) : Prop where
  entities : ∀ k e, graph.entities.get? k = some e → e.id = k
  edges : ∀ k e, graph.edges.get? k = some e → e.id = k
  chunks : ∀ k c, graph.chunks.get? k = some c → c.coord = k
  events : ∀ k e, graph.events.get? k = some e → e.id = k

instance (graph : WorldGraph) : Decidable graph.KeysMatch :=
  decidable_of_iff
    ((∀ x ∈ graph.entities.toList, x.2.id = x.1) ∧ (∀ x ∈ graph.edges.toList, x.2.id = x.1) ∧
      (∀ x ∈ graph.chunks.toList, x.2.coord = x.1) ∧ ∀ x ∈ graph.events.toList, x.2.id = x.1)
    (by
      rw [← OMap.forall_get?_iff graph.entities (p := fun k e => e.id = k),
        ← OMap.forall_get?_iff graph.edges (p := fun k e => e.id = k),
        ← OMap.forall_get?_iff graph.chunks (p := fun k c => c.coord = k),
        ← OMap.forall_get?_iff graph.events (p := fun k e => e.id = k)]
      exact ⟨fun ⟨h₁, h₂, h₃, h₄⟩ => ⟨h₁, h₂, h₃, h₄⟩, fun ⟨h₁, h₂, h₃, h₄⟩ => ⟨h₁, h₂, h₃, h₄⟩⟩)

end WorldGraph

structure WorldSnapshot where
  fortressId : FortressId
  tick : GameTick
  cursor : ObservationCursor
  paused : Bool
  graph : WorldGraph
  stateHash : Digest32
deriving DecidableEq

namespace WorldSnapshot

def anchor (s : WorldSnapshot) : StateAnchor :=
  ⟨s.fortressId, s.cursor, s.tick, s.stateHash⟩

/-- The bytes covered by the state hash. -/
def canonicalBytes (s : WorldSnapshot) : Bytes :=
  putStr "dfmcp-world-snapshot-v1" ++ putU64 s.fortressId ++ putU64 s.tick ++
    putU64 s.cursor.epoch ++ putU64 s.cursor.sequence ++ putBool s.paused ++ s.graph.encode

def computeHash (s : WorldSnapshot) : Digest32 := Digest32.ofBytes s.canonicalBytes

def refreshHash (s : WorldSnapshot) : WorldSnapshot := { s with stateHash := s.computeHash }

def hashIsValid (s : WorldSnapshot) : Bool := s.stateHash = s.computeHash

def new (fortressId : FortressId) (tick : GameTick) (cursor : ObservationCursor) (paused : Bool)
    (graph : WorldGraph) : WorldSnapshot :=
  refreshHash ⟨fortressId, tick, cursor, paused, graph, Digest32.zero⟩

/-- The bytes do not cover the stored hash. -/
@[simp] theorem canonicalBytes_refreshHash (s : WorldSnapshot) :
    s.refreshHash.canonicalBytes = s.canonicalBytes := rfl

@[simp] theorem hashIsValid_refreshHash (s : WorldSnapshot) : s.refreshHash.hashIsValid = true := by
  simp [hashIsValid, refreshHash, computeHash, canonicalBytes]

theorem hashIsValid_iff (s : WorldSnapshot) :
    s.hashIsValid = true ↔ s.stateHash = s.computeHash := by
  simp [hashIsValid]

/-- A hash-valid snapshot is its own refresh. -/
theorem refreshHash_eq_self {s : WorldSnapshot} (h : s.hashIsValid = true) : s.refreshHash = s := by
  rw [refreshHash, ← (hashIsValid_iff s).1 h]

end WorldSnapshot

/-! ## A small world

Snapshots small enough to evaluate, for the concrete cases in the modules below. -/

namespace Sample

/-- An entity with no facts. -/
def entity (id : EntityId) (revision : U 64) : EntityRecord :=
  ⟨id, 0, revision, .unit, "urist", .nil⟩

/-- An edge between two entities. -/
def edge (id : EdgeId) (fromId toId : EntityId) : EdgeRecord :=
  ⟨id, 0, .memberOf, fromId, toId, .nil⟩

/-- A chunk of one tile. -/
def chunk (revision : U 64) : MapChunk :=
  ⟨⟨⟨0, S.fits_zero⟩, ⟨0, S.fits_zero⟩, ⟨0, S.fits_zero⟩⟩, revision, 1, 1, [⟨7, 1⟩], .nil⟩

/-- A graph of entities alone, each under its identifier. -/
def entities (records : List EntityRecord) : WorldGraph :=
  { WorldGraph.empty with entities := .ofList (records.map fun e => (e.id, e)) }

/-- A graph of one chunk. -/
def terrain (chunk : MapChunk) : WorldGraph :=
  { WorldGraph.empty with chunks := .ofList [(chunk.coord, chunk)] }

/-- The snapshot of a graph at a sequence number of the first epoch. -/
def snapshot (sequence : U 64) (graph : WorldGraph) : WorldSnapshot :=
  .new 1 0 ⟨0, sequence⟩ false graph

@[simp] theorem snapshot_hashIsValid (sequence : U 64) (graph : WorldGraph) :
    (snapshot sequence graph).hashIsValid = true :=
  WorldSnapshot.hashIsValid_refreshHash _

@[simp] theorem snapshot_graph (sequence : U 64) (graph : WorldGraph) :
    (snapshot sequence graph).graph = graph := rfl

end Sample

end Dfmcp
