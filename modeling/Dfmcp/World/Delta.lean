import Dfmcp.World.Model

/-!
# State deltas

`delta.rs`: the change algebra, building a delta against a base, diffing two snapshots, and
applying a delta. A change list is applied one change at a time, each checked against the state
the earlier ones left, and the graph that comes out is checked once at the end
(`applyChanges`). A delta carries the hashes of both its ends, and `applyDelta` refuses a
result whose hash is not the declared one.
-/

namespace Dfmcp

open Machine

/-- The change-count safety bound. -/
def maxStateDeltaChanges : Nat := 1000000

inductive WorldChange where
  | upsertEntity (record : EntityRecord)
  | removeEntity (id : EntityId) (expectedGeneration : U 32) (expectedRevision : U 64)
  | upsertEdge (record : EdgeRecord)
  | removeEdge (id : EdgeId) (expectedRevision : U 64)
  | upsertMapChunk (chunk : MapChunk)
  | removeMapChunk (coord : ChunkCoord) (expectedRevision : U 64)
  | appendEvent (event : WorldEvent)
deriving DecidableEq

def WorldChange.encode : WorldChange → Bytes
  | .upsertEntity record => 0 :: record.encode
  | .removeEntity id generation revision => 1 :: (putU64 id ++ putU32 generation ++ putU64 revision)
  | .upsertEdge record => 2 :: record.encode
  | .removeEdge id revision => 3 :: (putU128 id ++ putU64 revision)
  | .upsertMapChunk chunk => 4 :: chunk.encode
  | .removeMapChunk coord revision => 5 :: (coord.encode ++ putU64 revision)
  | .appendEvent event => 6 :: event.encode

structure StateDelta where
  fortressId : FortressId
  baseCursor : ObservationCursor
  targetCursor : ObservationCursor
  baseHash : Digest32
  targetHash : Digest32
  targetTick : GameTick
  changes : List WorldChange
  truncated : Bool
  continuation : Option String
deriving DecidableEq

def StateDelta.canonicalBytes (d : StateDelta) : Bytes :=
  putStr "dfmcp-state-delta-v1" ++ putU64 d.fortressId ++
    putU64 d.baseCursor.epoch ++ putU64 d.baseCursor.sequence ++
    putU64 d.targetCursor.epoch ++ putU64 d.targetCursor.sequence ++
    putBytes d.baseHash.bytes ++ putBytes d.targetHash.bytes ++ putU64 d.targetTick ++
    (putLen d.changes.length ++ d.changes.flatMap WorldChange.encode) ++
    putBool d.truncated ++ putOption putStr d.continuation

/-! ## Applying changes -/

def validateEntityUpsert (s : WorldSnapshot) (incoming : EntityRecord) : Result Unit :=
  if incoming.id = 0 then .error (.new .invalidRequest "entity identifier zero is reserved")
  else match s.graph.entities.get? incoming.id with
    | none => .ok ()
    | some existing =>
        if incoming.generation < existing.generation then
          .error (.new .staleAnchor s!"entity {incoming.id} generation regressed")
        else if incoming.generation = existing.generation ∧
            incoming.revision < existing.revision then
          .error (.new .staleAnchor s!"entity {incoming.id} revision regressed")
        else if incoming.generation = existing.generation ∧
            incoming.revision = existing.revision ∧ incoming ≠ existing then
          .error (.new .conflict
            s!"entity {incoming.id} has different content at the same generation and revision")
        else .ok ()

def validateEdgeUpsert (s : WorldSnapshot) (incoming : EdgeRecord) : Result Unit :=
  if incoming.id = 0 then .error (.new .invalidRequest "edge identifier zero is reserved")
  else match s.graph.edges.get? incoming.id with
    | none => .ok ()
    | some existing =>
        if incoming.revision < existing.revision then
          .error (.new .staleAnchor ("edge " ++ hex32 incoming.id ++ " revision regressed"))
        else if incoming.revision = existing.revision ∧ incoming ≠ existing then
          .error (.new .conflict
            ("edge " ++ hex32 incoming.id ++ " changed without a revision advance"))
        else .ok ()

def validateChunk (chunk : MapChunk) : Result Unit :=
  if chunk.width = 0 ∨ chunk.height = 0 then
    .error (.new .invalidRequest "map chunk dimensions must be nonzero")
  else if chunk.encodedTileCount ≠ some chunk.tileCount then
    .error (.new .invalidRequest
      "map chunk terrain runs do not cover exactly the declared tile count")
  else if chunk.sparseOverlays.keys.any (fun offset => chunk.tileCount ≤ offset) then
    .error (.new .invalidRequest "map chunk sparse overlay offset is out of bounds")
  else .ok ()

/-- One iteration of the loop in `apply_changes`. -/
def applyChange (s : WorldSnapshot) : WorldChange → Result WorldSnapshot
  | .upsertEntity incoming => do
      validateEntityUpsert s incoming
      pure { s with graph.entities := s.graph.entities.insert incoming.id incoming }
  | .removeEntity id expectedGeneration expectedRevision =>
      match s.graph.entities.get? id with
      | none => .error (.new .staleAnchor s!"entity {id} does not exist for removal")
      | some existing =>
          if existing.generation ≠ expectedGeneration ∨ existing.revision ≠ expectedRevision then
            .error (.new .staleAnchor s!"entity {id} revision changed before removal")
          else .ok { s with graph.entities := s.graph.entities.erase id }
  | .upsertEdge incoming => do
      validateEdgeUpsert s incoming
      pure { s with graph.edges := s.graph.edges.insert incoming.id incoming }
  | .removeEdge id expectedRevision =>
      match s.graph.edges.get? id with
      | none => .error (.new .staleAnchor ("edge " ++ hex32 id ++ " does not exist for removal"))
      | some existing =>
          if existing.revision ≠ expectedRevision then
            .error (.new .staleAnchor ("edge " ++ hex32 id ++ " revision changed before removal"))
          else .ok { s with graph.edges := s.graph.edges.erase id }
  | .upsertMapChunk incoming => do
      validateChunk incoming
      match s.graph.chunks.get? incoming.coord with
      | some existing =>
          if incoming.revision < existing.revision then
            .error (.new .staleAnchor "map chunk revision regressed")
          else if incoming.revision = existing.revision ∧ incoming ≠ existing then
            .error (.new .conflict "same map chunk revision carries different content")
          else .ok { s with graph.chunks := s.graph.chunks.insert incoming.coord incoming }
      | none => .ok { s with graph.chunks := s.graph.chunks.insert incoming.coord incoming }
  | .removeMapChunk coord expectedRevision =>
      match s.graph.chunks.get? coord with
      | none => .error (.new .staleAnchor "map chunk does not exist for removal")
      | some existing =>
          if existing.revision ≠ expectedRevision then
            .error (.new .staleAnchor "map chunk revision changed before removal")
          else .ok { s with graph.chunks := s.graph.chunks.erase coord }
  | .appendEvent incoming =>
      match s.graph.events.get? incoming.id with
      | some existing =>
          if existing ≠ incoming then
            .error (.new .conflict "event identifier was reused with different content")
          else .ok s
      | none => .ok { s with graph.events := s.graph.events.insert incoming.id incoming }

/-- Both endpoints of every edge exist. -/
def validateEdges (s : WorldSnapshot) : List EdgeRecord → Result Unit
  | [] => .ok ()
  | edge :: rest =>
      if ¬ s.graph.entities.contains edge.fromId ∨ ¬ s.graph.entities.contains edge.toId then
        .error (.new .internalInvariantViolation
          ("edge " ++ hex32 edge.id ++ " refers to a missing endpoint"))
      else validateEdges s rest

/-- Every event is stored under its own nonzero identifier. -/
def validateEvents : List (EventId × WorldEvent) → Result Unit
  | [] => .ok ()
  | (id, event) :: rest =>
      if id = 0 then
        .error (.new .internalInvariantViolation "event identifier zero is reserved")
      else if event.id ≠ id then
        .error (.new .internalInvariantViolation "event map key does not match event identifier")
      else validateEvents rest

def validateGraph (s : WorldSnapshot) : Result Unit := do
  validateEdges s s.graph.edges.values
  validateEvents s.graph.events.toList

/-- The loop of `apply_changes`: each change against the state the earlier ones left. -/
def applyEach : WorldSnapshot → List WorldChange → Result WorldSnapshot
  | s, [] => .ok s
  | s, change :: rest => do applyEach (← applyChange s change) rest

def applyChanges (s : WorldSnapshot) (changes : List WorldChange) : Result WorldSnapshot := do
  let s' ← applyEach s changes
  validateGraph s'
  pure s'

/-! ## Building and applying deltas -/

def validateCursorTransition (base target : ObservationCursor) : Result Unit :=
  match base.checkedNext with
  | none => .error ((DfmcpError.new .cursorGap
      "delta base sequence is exhausted; a new epoch snapshot is required").setRetryable true)
  | some expected =>
      if target.epoch ≠ base.epoch then
        .error ((DfmcpError.new .cursorGap
          ("a delta cannot span observation epoch changes (" ++ toString base.epoch ++ " -> " ++
            toString target.epoch ++ "); bootstrap a new epoch snapshot")).setRetryable true)
      else if target ≠ expected then
        .error ((DfmcpError.new .cursorGap
          ("delta target cursor must be the exact successor " ++ expected.debug ++ ", got " ++
            target.debug)).setRetryable true)
      else .ok ()

def buildDelta (base : WorldSnapshot) (targetCursor : ObservationCursor) (targetTick : GameTick)
    (changes : List WorldChange) : Result StateDelta := do
  if changes.length > maxStateDeltaChanges then
    throw (.new .budgetExceeded "state delta exceeds the implementation change-count safety bound")
  validateCursorTransition base.cursor targetCursor
  if targetTick < base.tick then
    throw (.new .invalidRequest "delta target tick must not precede the base tick")
  if ¬ base.hashIsValid then
    throw (.new .internalInvariantViolation "base snapshot state hash is invalid")
  let candidate ← applyChanges { base with cursor := targetCursor, tick := targetTick } changes
  pure {
    fortressId := base.fortressId
    baseCursor := base.cursor
    targetCursor
    baseHash := base.stateHash
    targetHash := candidate.refreshHash.stateHash
    targetTick
    changes
    truncated := false
    continuation := none }

def applyDelta (base : WorldSnapshot) (delta : StateDelta) : Result WorldSnapshot := do
  if ¬ base.hashIsValid then
    throw (.new .internalInvariantViolation "base snapshot state hash is invalid")
  if delta.truncated ∨ delta.continuation.isSome then
    throw ((DfmcpError.new .cursorGap
      "a partial delta cannot be applied as a complete state transition").setRetryable true)
  if delta.changes.length > maxStateDeltaChanges then
    throw (.new .budgetExceeded "state delta exceeds the implementation change-count safety bound")
  if delta.fortressId ≠ base.fortressId then
    throw (.new .staleAnchor "delta belongs to a different fortress")
  if delta.baseCursor ≠ base.cursor ∨ delta.baseHash ≠ base.stateHash then
    throw ((((DfmcpError.new .cursorGap "delta base anchor does not match snapshot").setRetryable
      true).withDetail "expected_cursor" base.cursor.debug).withDetail "received_cursor"
      delta.baseCursor.debug)
  validateCursorTransition base.cursor delta.targetCursor
  if delta.targetTick < base.tick then
    throw (.new .invalidRequest "delta target tick must not precede the base tick")
  let applied ← applyChanges { base with cursor := delta.targetCursor, tick := delta.targetTick }
    delta.changes
  let candidate := applied.refreshHash
  if candidate.stateHash ≠ delta.targetHash then
    throw (((DfmcpError.new .internalInvariantViolation
      "delta target hash does not match the reconstructed state").withDetail "computed"
      candidate.stateHash.toHex).withDetail "declared" delta.targetHash.toHex)
  pure candidate

/-! ## Diffing snapshots -/

/-- A record of the base with no counterpart in `target` is removed. -/
def removal {K V : Type} [LinearOrder K] (target : BTreeMap K V) (remove : K → V → WorldChange)
    (entry : K × V) : Option WorldChange :=
  if target.contains entry.1 then none else some (remove entry.1 entry.2)

def removals {K V : Type} [LinearOrder K] (base target : BTreeMap K V)
    (remove : K → V → WorldChange) : List WorldChange :=
  base.toList.filterMap (removal target remove)

/-- A record of the target that is new or differs from `base` is upserted. -/
def upsertion {K V : Type} [LinearOrder K] [DecidableEq V] (base : BTreeMap K V)
    (upsert : V → WorldChange) (entry : K × V) : Option WorldChange :=
  match base.get? entry.1 with
  | some old => if old ≠ entry.2 then some (upsert entry.2) else none
  | none => some (upsert entry.2)

def upserts {K V : Type} [LinearOrder K] [DecidableEq V] (base target : BTreeMap K V)
    (upsert : V → WorldChange) : List WorldChange :=
  target.toList.filterMap (upsertion base upsert)

/-- Published events are immutable: each is still there, unchanged. -/
def checkEvents (target : BTreeMap EventId WorldEvent) : List (EventId × WorldEvent) → Result Unit
  | [] => .ok ()
  | (id, baseEvent) :: rest =>
      match target.get? id with
      | some targetEvent =>
          if targetEvent = baseEvent then checkEvents target rest
          else .error (.new .conflict ("event " ++ hex32 id ++ " changed after publication"))
      | none => .error (.new .conflict ("event " ++ hex32 id ++ " disappeared after publication"))

/-- Events that only `target` has. -/
def newEvents (base target : BTreeMap EventId WorldEvent) : List WorldChange :=
  target.toList.filterMap fun entry =>
    if base.contains entry.1 then none else some (.appendEvent entry.2)

/-- The changes a diff lists, in the order it lists them. -/
def diffChanges (base target : WorldGraph) : List WorldChange :=
  removals base.entities target.entities
      (fun id entity => .removeEntity id entity.generation entity.revision) ++
    upserts base.entities target.entities .upsertEntity ++
    removals base.edges target.edges (fun id edge => .removeEdge id edge.revision) ++
    upserts base.edges target.edges .upsertEdge ++
    removals base.chunks target.chunks (fun coord chunk => .removeMapChunk coord chunk.revision) ++
    upserts base.chunks target.chunks .upsertMapChunk ++
    newEvents base.events target.events

def computeSnapshotDiff (base target : WorldSnapshot) : Result (List WorldChange) := do
  if ¬ base.hashIsValid ∨ ¬ target.hashIsValid then
    throw (.new .internalInvariantViolation
      "cannot diff a snapshot whose canonical state hash is invalid")
  if target.fortressId ≠ base.fortressId then
    throw (.new .invalidRequest "cannot diff snapshots of different fortresses")
  checkEvents target.graph.events base.graph.events.toList
  pure (diffChanges base.graph target.graph)

def diffSnapshots (base target : WorldSnapshot) : Result StateDelta := do
  let changes ← computeSnapshotDiff base target
  let delta ← buildDelta base target.cursor target.tick changes
  if delta.targetHash ≠ target.stateHash then
    throw (((DfmcpError.new .internalInvariantViolation
      "snapshot diff did not reconstruct the declared target state").withDetail "computed"
      delta.targetHash.toHex).withDetail "declared" target.stateHash.toHex)
  pure delta

/-! ## Continuation tokens -/

structure ContinuationToken where
  fortressId : FortressId
  cursor : ObservationCursor
  offset : U 32
deriving DecidableEq

def maxContinuationTokenBytes : Nat := 128

/-- Rust's `str::parse` for an unsigned integer: an optional plus sign, then decimal digits. -/
def parseUnsigned (w : Nat) (text : List Char) : Option (U w) :=
  let digits := match text with
    | '+' :: rest => rest
    | _ => text
  if digits = [] ∨ ¬ digits.all Char.isDigit then none
  else
    let n := digits.foldl (fun acc c => acc * 10 + (c.toNat - '0'.toNat)) 0
    if h : n < 2 ^ w then some ⟨n, h⟩ else none

namespace ContinuationToken

def encode (t : ContinuationToken) : String :=
  "cont:" ++ toString t.fortressId ++ ":" ++ toString t.cursor.epoch ++ ":" ++
    toString t.cursor.sequence ++ ":" ++ toString t.offset

def decode (token : String) : Result ContinuationToken :=
  if strLen token > maxContinuationTokenBytes then
    .error (.new .budgetExceeded "continuation token exceeds its explicit byte bound")
  else match token.toList.splitOn ':' with
    | [tag, fid, epoch, seq, offset] =>
        if tag ≠ "cont".toList then
          .error (.new .invalidRequest "invalid continuation token format")
        else match parseUnsigned 64 fid with
          | none => .error (.new .invalidRequest "invalid fortress ID in token")
          | some fid =>
              if fid = 0 then
                .error (.new .invalidRequest
                  "continuation token fortress identity zero is reserved")
              else match parseUnsigned 64 epoch with
                | none => .error (.new .invalidRequest "invalid epoch in token")
                | some epoch => match parseUnsigned 64 seq with
                  | none => .error (.new .invalidRequest "invalid sequence in token")
                  | some sequence => match parseUnsigned 32 offset with
                    | none => .error (.new .invalidRequest "invalid offset in token")
                    | some offset => .ok ⟨fid, ⟨epoch, sequence⟩, offset⟩
    | _ => .error (.new .invalidRequest "invalid continuation token format")

end ContinuationToken

end Dfmcp
