import Dfmcp.Library.Wire
import Dfmcp.World.Delta

/-!
# The canonical decoder

`canonical_decode.rs` and `canonical_decode/delta.rs`: the strict decoder of the canonical bytes
of snapshots and deltas. A reader of the source holds the input and an offset; here it holds
what is left of the input. `usize` is 64 bits wide.

Values nest, and the source bounds their depth: `value left` reads a value that may nest `left`
levels deep, itself included, so `value 0` is the call past the bound.
-/

namespace Dfmcp

open Machine Wire

/-- Largest canonical snapshot the decoder accepts. -/
def maxCanonicalSnapshotBytes : Nat := 256 * 1024 * 1024

/-- Deepest `Value` nesting the decoder accepts. -/
def maxValueDepth : Nat := 64

def snapshotDomain : String := "dfmcp-world-snapshot-v1"
def deltaDomain : String := "dfmcp-state-delta-v1"

def corrupt (message : String) : DfmcpError :=
  (DfmcpError.new .corruptLedger message).setRetryable false

/-! ## Kinds by name -/

def EntityKind.fromName (name : String) : EntityKind :=
  match name with
  | "fortress" => .fortress
  | "unit" => .unit
  | "item" => .item
  | "building" => .building
  | "job" => .job
  | "work_order" => .workOrder
  | "stockpile" => .stockpile
  | "zone" => .zone
  | "burrow" => .burrow
  | "squad" => .squad
  | "military_order" => .militaryOrder
  | "tile_feature" => .tileFeature
  | "plant" => .plant
  | "creature" => .creature
  | "historical_figure" => .historicalFigure
  | "civilization" => .civilization
  | "announcement" => .announcement
  | "syndrome" => .syndrome
  | _ => .other name

def edgeKind (name : String) : EdgeKind :=
  match name with
  | "located_at" => .locatedAt
  | "contained_in" => .containedIn
  | "assigned_to" => .assignedTo
  | "member_of" => .memberOf
  | "performs" => .performs
  | "requires" => .requires
  | "produces" => .produces
  | "uses" => .uses
  | "supports" => .supports
  | "threatens" => .threatens
  | "ordered_by" => .orderedBy
  | "parent_of" => .parentOf
  | _ => .custom name

def eventKind (name : String) : WorldEventKind :=
  match name with
  | "announcement" => .announcement
  | "job_changed" => .jobChanged
  | "unit_changed" => .unitChanged
  | "construction_changed" => .constructionChanged
  | "threat_detected" => .threatDetected
  | "season_changed" => .seasonChanged
  | "adapter_notice" => .adapterNotice
  | _ => .other name

namespace Decode

abbrev Decoder := Wire.Reader DfmcpError

/-! ## Primitives -/

def array (n : Nat) : Decoder Bytes := take (corrupt "canonical snapshot is truncated") n

def u8 : Decoder UInt8 := do
  let bytes ← array 1
  pure (bytes.headD 0)

def bool : Decoder Bool := do
  let byte ← u8
  match byte.toNat with
  | 0 => pure false
  | 1 => pure true
  | other => fail (corrupt ("invalid canonical boolean " ++ toString other))

/-- An unsigned integer of `n` bytes. -/
def uint (n : Nat) : Decoder (U (8 * n)) := do
  let bytes ← array n
  pure (U.wrap (ofBe bytes))

/-- A signed integer of `n` bytes. -/
def int (n : Nat) (h : 0 < 8 * n) : Decoder (S (8 * n)) := do
  let bytes ← array n
  pure (S.ofBits h (ofBe bytes))

def u16 : Decoder (U 16) := uint 2
def u32 : Decoder (U 32) := uint 4
def i32 : Decoder (S 32) := int 4 (by decide)
def u64 : Decoder (U 64) := uint 8
def i64 : Decoder (S 64) := int 8 (by decide)
def u128 : Decoder (U 128) := uint 16

/-- A collection length, bounded by the bytes left: every element takes at least
`minElementBytes`. -/
def count (minElementBytes : Nat) : Decoder Nat := do
  let raw ← u64
  if raw.val * max minElementBytes 1 ≥ 2 ^ 64 then
    fail (corrupt "collection length overflows")
  else
    let left ← remaining
    if raw.val * max minElementBytes 1 > left then
      fail (corrupt "collection length exceeds the remaining bytes")
    else pure raw.val

def bytes : Decoder Bytes := do
  let len ← count 1
  array len

def string : Decoder String := do
  let text ← bytes
  match fromUtf8 text with
  | none => fail (corrupt "canonical text is not UTF-8")
  | some s => pure s

def digest : Decoder Digest32 := do
  let len ← u64
  if len ≠ 32 then fail (corrupt "canonical digest is not 32 bytes")
  else
    let bytes ← array 32
    pure (.fromBytes bytes)

def anchor : Decoder StateAnchor := do
  let fortressId ← u64
  let epoch ← u64
  let sequence ← u64
  let tick ← u64
  let stateHash ← digest
  pure ⟨fortressId, ⟨epoch, sequence⟩, tick, stateHash⟩

/-- `if reader.bool()? { Some(…) } else { None }`. -/
def option {α : Type} (item : Decoder α) : Decoder (Option α) := do
  if ← bool then
    let a ← item
    pure (some a)
  else pure none

/-- A counted list. -/
def list {α : Type} (minElementBytes : Nat) (item : Decoder α) : Decoder (List α) := do
  let n ← count minElementBytes
  replicate item n

def outOfOrder (what : String) : DfmcpError :=
  corrupt (what ++ " keys are not in strictly ascending canonical order")

/-- A counted map, filled through `insert_ascending`. -/
def map {K V : Type} [LinearOrder K] (what : String) (minElementBytes : Nat)
    (entry : Decoder (K × V)) : Decoder (BTreeMap K V) := do
  let n ← count minElementBytes
  ascending (outOfOrder what) entry n none

/-! ## Values and facts -/

/-- One entry of an object. -/
def field {α : Type} (item : Decoder α) : Decoder (String × α) := do
  let key ← string
  let value ← item
  pure (key, value)

def mapCoord : Decoder MapCoord := do
  let x ← i32
  let y ← i32
  let z ← i32
  pure ⟨x, y, z⟩

def value : Nat → Decoder Value
  | 0 => fail (corrupt "canonical value nesting exceeds the bound")
  | left + 1 => do
      let tag ← u8
      match tag.toNat with
      | 0 => pure .null
      | 1 => Value.bool <$> bool
      | 2 => Value.i64 <$> i64
      | 3 => Value.u64 <$> u64
      | 4 => do
          let units ← i64
          let scale ← u32
          pure (.fixed units scale)
      | 5 => Value.text <$> string
      | 6 => Value.entity <$> u64
      | 7 => Value.coord <$> mapCoord
      | 8 => Value.bytes <$> bytes
      | 9 => Value.list <$> list 1 (value left)
      | 10 => Value.object <$> map "object" 9 (field (value left))
      | other => fail (corrupt ("unknown canonical value tag " ++ toString other))

/-- `value(reader, depth)`. -/
def valueAt (depth : Nat) : Decoder Value := value (maxValueDepth + 1 - depth)

/-- `value_map(reader, depth)`. -/
def valueMap (depth : Nat) : Decoder (BTreeMap String Value) :=
  map "object" 9 (field (valueAt depth))

def presence : Decoder FactPresence := do
  let tag ← u8
  match tag.toNat with
  | 0 => FactPresence.known <$> valueAt 0
  | 1 => pure .absent
  | 2 => FactPresence.unknown <$> string
  | 3 => FactPresence.unsupported <$> string
  | 4 => FactPresence.omitted <$> string
  | 5 => FactPresence.redacted <$> string
  | 6 => FactPresence.stale <$> anchor
  | other => fail (corrupt ("unknown fact presence tag " ++ toString other))

def source : Decoder FactSource := do
  let tag ← u8
  match tag.toNat with
  | 0 => FactSource.dfhackField <$> string
  | 1 => FactSource.derived <$> string
  | 2 => FactSource.agentAssertion <$> string
  | 3 => pure .replay
  | other => fail (corrupt ("unknown fact source tag " ++ toString other))

def fact : Decoder Fact := do
  let value ← valueAt 0
  let observedAt ← u64
  let source ← source
  let sourceDigest ← digest
  let presence ← option presence
  pure ⟨value, observedAt, source, sourceDigest, presence⟩

def factMap : Decoder (BTreeMap String Fact) := map "fact field" 9 (field fact)

/-! ## Records -/

def entityRecord : Decoder EntityRecord := do
  let id ← u64
  let generation ← u32
  let revision ← u64
  let kind ← EntityKind.fromName <$> string
  let label ← string
  let fields ← factMap
  pure ⟨id, generation, revision, kind, label, fields⟩

def edgeRecord : Decoder EdgeRecord := do
  let id ← u128
  let revision ← u64
  let kind ← edgeKind <$> string
  let fromId ← u64
  let toId ← u64
  let fields ← factMap
  pure ⟨id, revision, kind, fromId, toId, fields⟩

def chunkCoord : Decoder ChunkCoord := do
  let x ← i32
  let y ← i32
  let z ← i32
  pure ⟨x, y, z⟩

def terrainRun : Decoder TerrainRun := do
  let tileCode ← u32
  let length ← u32
  pure ⟨tileCode, length⟩

def overlay : Decoder (U 32 × BTreeMap String Value) := do
  let offset ← u32
  let fields ← valueMap 1
  pure (offset, fields)

/-- A chunk. `overlays` names its sparse overlays in an error. -/
def mapChunk (overlays : String) : Decoder MapChunk := do
  let coord ← chunkCoord
  let revision ← u64
  let width ← u16
  let height ← u16
  let terrainRuns ← list 8 terrainRun
  let sparseOverlays ← map overlays 12 overlay
  pure ⟨coord, revision, width, height, terrainRuns, sparseOverlays⟩

def worldEvent : Decoder WorldEvent := do
  let id ← u128
  let tick ← u64
  let kind ← eventKind <$> string
  let subject ← option u64
  let summary ← string
  let fields ← valueMap 1
  pure ⟨id, tick, kind, subject, summary, fields⟩

/-- A record under the key that is part of it. -/
def keyed {K V : Type} (key : V → K) (record : Decoder V) : Decoder (K × V) :=
  (fun r => (key r, r)) <$> record

def graph : Decoder WorldGraph := do
  let entities ← map "entity" 8 (keyed EntityRecord.id entityRecord)
  let edges ← map "edge" 16 (keyed EdgeRecord.id edgeRecord)
  let chunks ← map "chunk" 12 (keyed MapChunk.coord (mapChunk "overlay"))
  let events ← map "event" 16 (keyed WorldEvent.id worldEvent)
  pure ⟨entities, edges, chunks, events⟩

def worldChange : Decoder WorldChange := do
  let tag ← u8
  match tag.toNat with
  | 0 => WorldChange.upsertEntity <$> entityRecord
  | 1 => do
      let id ← u64
      let expectedGeneration ← u32
      let expectedRevision ← u64
      pure (.removeEntity id expectedGeneration expectedRevision)
  | 2 => WorldChange.upsertEdge <$> edgeRecord
  | 3 => do
      let id ← u128
      let expectedRevision ← u64
      pure (.removeEdge id expectedRevision)
  | 4 => WorldChange.upsertMapChunk <$> mapChunk "delta overlay"
  | 5 => do
      let coord ← chunkCoord
      let expectedRevision ← u64
      pure (.removeMapChunk coord expectedRevision)
  | 6 => WorldChange.appendEvent <$> worldEvent
  | other => fail (corrupt ("unknown canonical delta change tag " ++ toString other))

/-! ## Whole inputs -/

/-- The domain tag an input opens with. -/
def domain (tag message : String) : Decoder Unit := do
  let found ← string
  if found ≠ tag then fail (corrupt message) else pure ()

/-- Refuse what is left over. -/
def done (message : String) : Decoder Unit := do
  let left ← remaining
  if left ≠ 0 then fail (corrupt message) else pure ()

/-- The fields of a snapshot; its hash is that of the input. -/
def snapshot (hash : Digest32) : Decoder WorldSnapshot := do
  domain snapshotDomain "canonical snapshot domain tag is not recognized"
  let fortressId ← u64
  let tick ← u64
  let epoch ← u64
  let sequence ← u64
  let paused ← bool
  let graph ← graph
  done "canonical snapshot has trailing bytes"
  pure ⟨fortressId, tick, ⟨epoch, sequence⟩, paused, graph, hash⟩

/-- The changes of a delta, counted and bounded. -/
def changes : Decoder (List WorldChange) := do
  let n ← count 21
  if n > maxStateDeltaChanges then
    fail (corrupt "canonical delta exceeds its change-count bound")
  else replicate worldChange n

def delta : Decoder StateDelta := do
  domain deltaDomain "canonical delta domain tag is not recognized"
  let fortressId ← u64
  let baseEpoch ← u64
  let baseSequence ← u64
  let targetEpoch ← u64
  let targetSequence ← u64
  let baseHash ← digest
  let targetHash ← digest
  let targetTick ← u64
  let changes ← changes
  let truncated ← bool
  let continuation ← option string
  done "canonical delta has trailing bytes"
  pure ⟨fortressId, ⟨baseEpoch, baseSequence⟩, ⟨targetEpoch, targetSequence⟩, baseHash, targetHash,
    targetTick, changes, truncated, continuation⟩

end Decode

def WorldSnapshot.fromCanonicalBytes (bytes : Bytes) : Result WorldSnapshot :=
  if bytes.length > maxCanonicalSnapshotBytes then
    .error (corrupt "canonical snapshot exceeds the decoder bound")
  else match Decode.snapshot (Digest32.ofBytes bytes) bytes with
    | .error error => .error error
    | .ok (snapshot, _) =>
        if snapshot.canonicalBytes ≠ bytes then
          .error (corrupt "canonical snapshot does not re-encode to its stored bytes")
        else .ok snapshot

def StateDelta.fromCanonicalBytes (bytes : Bytes) : Result StateDelta :=
  if bytes.length > maxCanonicalSnapshotBytes then
    .error (corrupt "canonical delta exceeds the decoder bound")
  else match Decode.delta bytes with
    | .error error => .error error
    | .ok (delta, _) =>
        if delta.canonicalBytes ≠ bytes then
          .error (corrupt "canonical delta does not re-encode to its stored bytes")
        else .ok delta

end Dfmcp
