import Dfmcp.World.Delta
import Dfmcp.Library.Method

/-!
# Continuous delta streaming

`delta_scanner.rs`: the dirty-chunk set, the entity tracker and the event buffer of a bridge, and the
streamer that assembles them into one delta after another. The streamer works on copies of its three
trackers; they replace its own only with the snapshot that the delta leads to.
-/

namespace Dfmcp

open Machine Method

/-- The capacity of the event buffer, after which the oldest events are shed. -/
def maxEventBufferCapacity : Nat := 10000

/-! ## Dirty chunks -/

structure DirtyChunkTracker where
  dirtyChunks : BTreeSet ChunkCoord
deriving DecidableEq

namespace DirtyChunkTracker

def new : DirtyChunkTracker := ⟨.nil⟩

def markDirty (tracker : DirtyChunkTracker) (coord : ChunkCoord) : DirtyChunkTracker :=
  ⟨tracker.dirtyChunks.insert coord ()⟩

def isDirty (tracker : DirtyChunkTracker) (coord : ChunkCoord) : Bool :=
  tracker.dirtyChunks.contains coord

/-- All dirty coordinates, and the tracker without them. -/
def drainDirty (tracker : DirtyChunkTracker) : List ChunkCoord × DirtyChunkTracker :=
  (tracker.dirtyChunks.keys, new)

end DirtyChunkTracker

/-! ## Entities -/

/-- The generation and revision last seen of each entity. -/
structure EntityDeltaTracker where
  knownEntities : BTreeMap EntityId (U 32 × U 64)
deriving DecidableEq

namespace EntityDeltaTracker

/-- The tracker of a graph. -/
def seedFromGraph (graph : WorldGraph) : EntityDeltaTracker :=
  ⟨graph.entities.mapValues fun _ entity => (entity.generation, entity.revision)⟩

def learn (tracker : EntityDeltaTracker) (entity : EntityRecord) : EntityDeltaTracker :=
  ⟨tracker.knownEntities.insert entity.id (entity.generation, entity.revision)⟩

def forget (tracker : EntityDeltaTracker) (id : EntityId) : EntityDeltaTracker :=
  ⟨tracker.knownEntities.erase id⟩

/-- The active entities, one after the other; `seen` are those so far. -/
def processActive : List EntityRecord → BTreeSet EntityId → List WorldChange →
    Method DfmcpError EntityDeltaTracker (BTreeSet EntityId × List WorldChange)
  | [], seen, changes => pure (seen, changes)
  | entity :: rest, seen, changes => do
      rejectIf (entity.id = 0 ∨ seen.contains entity.id = true)
        (.new .invalidRequest "active entity set contains a nil or duplicate entity identifier")
      let tracker ← get
      match tracker.knownEntities.get? entity.id with
      | some (generation, revision) => do
          rejectIf (entity.generation < generation ∨
              entity.generation = generation ∧ entity.revision < revision)
            (.new .staleAnchor
              ("entity " ++ toString entity.id ++ " generation or revision regressed"))
          if entity.generation ≠ generation ∨ revision < entity.revision then do
            set (tracker.learn entity)
            processActive rest (seen.insert entity.id ()) (changes ++ [.upsertEntity entity])
          else processActive rest (seen.insert entity.id ()) changes
      | none => do
          set (tracker.learn entity)
          processActive rest (seen.insert entity.id ()) (changes ++ [.upsertEntity entity])

/-- The entities that are no longer active. -/
def processRemoved : List EntityId → List WorldChange →
    Method DfmcpError EntityDeltaTracker (List WorldChange)
  | [], changes => pure changes
  | id :: rest, changes => do
      let tracker ← get
      match tracker.knownEntities.get? id with
      | some (generation, revision) => do
          set (tracker.forget id)
          processRemoved rest (changes ++ [.removeEntity id generation revision])
      | none => processRemoved rest changes

/-- Compare the active entities with what is known, and list what changed. -/
def processEntities (active : List EntityRecord) :
    Method DfmcpError EntityDeltaTracker (List WorldChange) := do
  let processed ← processActive active .nil []
  let tracker ← get
  processRemoved (tracker.knownEntities.keys.filter fun id => !processed.1.contains id) processed.2

end EntityDeltaTracker

/-! ## Events -/

structure EventRingBuffer where
  events : List WorldEvent
  capacity : Nat
  shedEventsCount : U 64
deriving DecidableEq

namespace EventRingBuffer

def new (capacity : Nat) : EventRingBuffer :=
  ⟨[], max 1 (min capacity maxEventBufferCapacity), 0⟩

/-- The oldest event makes room for the new one. -/
def pushEvent (buffer : EventRingBuffer) (event : WorldEvent) : EventRingBuffer :=
  if buffer.capacity ≤ buffer.events.length then
    { buffer with
      events := buffer.events.drop 1 ++ [event]
      shedEventsCount := U.saturatingAdd buffer.shedEventsCount 1 }
  else { buffer with events := buffer.events ++ [event] }

/-- All pending events, and the buffer without them. -/
def drainEvents (buffer : EventRingBuffer) : List WorldEvent × EventRingBuffer :=
  (buffer.events, { buffer with events := [] })

end EventRingBuffer

/-! ## The streamer -/

structure ContinuousDeltaStreamer where
  currentSnapshot : WorldSnapshot
  chunkTracker : DirtyChunkTracker
  entityTracker : EntityDeltaTracker
  eventBuffer : EventRingBuffer
deriving DecidableEq

namespace ContinuousDeltaStreamer

def new (base : WorldSnapshot) : ContinuousDeltaStreamer :=
  ⟨base, .new, .seedFromGraph base.graph, .new maxEventBufferCapacity⟩

def markChunkDirty (streamer : ContinuousDeltaStreamer) (coord : ChunkCoord) :
    ContinuousDeltaStreamer :=
  { streamer with chunkTracker := streamer.chunkTracker.markDirty coord }

def recordEvent (streamer : ContinuousDeltaStreamer) (event : WorldEvent) :
    ContinuousDeltaStreamer :=
  { streamer with eventBuffer := streamer.eventBuffer.pushEvent event }

/-- The supplied chunks under their coordinates. -/
def chunkMap : List MapChunk → BTreeMap ChunkCoord MapChunk → Result (BTreeMap ChunkCoord MapChunk)
  | [], chunks => .ok chunks
  | chunk :: rest, chunks =>
      if chunks.contains chunk.coord = true then
        .error (.new .invalidRequest "modified chunk set contains duplicate coordinates")
      else chunkMap rest (chunks.insert chunk.coord chunk)

/-- The dirty chunks, each of them supplied, and the supplied chunks that are left. -/
def takeDirty : List ChunkCoord → BTreeMap ChunkCoord MapChunk →
    Result (List MapChunk × BTreeMap ChunkCoord MapChunk)
  | [], chunks => .ok ([], chunks)
  | coord :: rest, chunks =>
      match chunks.get? coord with
      | none => .error (.new .cursorGap
          ("dirty chunk " ++ coord.debug ++ " was not supplied for delta emission"))
      | some chunk => do
          let taken ← takeDirty rest (chunks.erase coord)
          pure (chunk :: taken.1, taken.2)

def nextCursor (base : ObservationCursor) : Result ObservationCursor :=
  match U.checkedAdd base.sequence 1 with
  | some sequence => .ok ⟨base.epoch, sequence⟩
  | none => .error (.new .cursorGap "cursor sequence overflow")

/-- Produce the next delta, which advances the cursor sequence by one. -/
def emitNextDelta (targetTick : GameTick) (active : List EntityRecord) (modified : List MapChunk)
    (targetHash : Digest32) : Method DfmcpError ContinuousDeltaStreamer StateDelta := do
  let streamer ← get
  rejectIf (targetTick < streamer.currentSnapshot.tick ∨ targetHash = Digest32.zero)
    (.new .staleAnchor "delta target tick regressed or target hash is zero")
  let targetCursor ← Method.of (nextCursor streamer.currentSnapshot.cursor)
  -- the entity tracker is staged: only a copy learns from the active entities
  let staged := exec (EntityDeltaTracker.processEntities active) streamer.entityTracker
  let entityChanges ← Method.of staged.1
  let dirty := streamer.chunkTracker.drainDirty
  let supplied ← Method.of (chunkMap modified .nil)
  let taken ← Method.of (takeDirty dirty.1 supplied)
  let events := streamer.eventBuffer.drainEvents
  let changes := entityChanges ++ taken.1.map .upsertMapChunk ++
    taken.2.values.map .upsertMapChunk ++ events.1.map .appendEvent
  let delta ← Method.of (buildDelta streamer.currentSnapshot targetCursor targetTick changes)
  rejectIf (delta.targetHash ≠ targetHash)
    (.new .conflict "declared target hash does not match the canonical emitted changes")
  let next ← Method.of (applyDelta streamer.currentSnapshot delta)
  set (⟨next, dirty.2, staged.2, events.2⟩ : ContinuousDeltaStreamer)
  pure delta

end ContinuousDeltaStreamer

end Dfmcp
