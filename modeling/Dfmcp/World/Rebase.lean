import Dfmcp.World.Ledger

/-!
# Rebase and three-way merge

`rebase.rs`: replaying a change list on a later snapshot, the same under a witness set, and the
record-wise three-way merge. Each change of a rebase is classified against the fixed base and
target, never against the state the earlier changes left.
-/

namespace Dfmcp

open Machine

/-! ## Conflict certificates -/

inductive ConflictKind where
  | anchorDivergence
  | preconditionViolated (description : String)
  | spatialOverlap
  | entityUnavailable
  | resourceDepleted
deriving DecidableEq

def ConflictKind.encode : ConflictKind → Bytes
  | .anchorDivergence => [0]
  | .preconditionViolated description => 1 :: putStr description
  | .spatialOverlap => [2]
  | .entityUnavailable => [3]
  | .resourceDepleted => [4]

structure ConflictCertificate where
  planId : PlanId
  baseAnchor : StateAnchor
  targetAnchor : StateAnchor
  conflictKind : ConflictKind
  diagnosis : String
  certificateDigest : Digest32
deriving DecidableEq

def ConflictCertificate.new (planId : PlanId) (baseAnchor targetAnchor : StateAnchor)
    (conflictKind : ConflictKind) (diagnosis : String) : ConflictCertificate where
  planId := planId
  baseAnchor := baseAnchor
  targetAnchor := targetAnchor
  conflictKind := conflictKind
  diagnosis := diagnosis
  certificateDigest := Digest32.ofBytes
    (putStr "dfmcp-conflict-certificate-v1" ++ putU128 planId ++ putAnchor baseAnchor ++
      putAnchor targetAnchor ++ conflictKind.encode ++ putStr diagnosis)

inductive RebaseOutcome where
  | clean (rebasedAnchor : StateAnchor) (rebasedChanges : List WorldChange)
  | conflicted (certificate : ConflictCertificate)
deriving DecidableEq

/-! ## Classifying one change -/

inductive StableDecision where
  | apply
  | alreadyApplied
  | conflict
deriving DecidableEq

def stableUpsert {T : Type} [DecidableEq T] (base target : Option T) (incoming : T) :
    StableDecision :=
  if target = some incoming then .alreadyApplied
  else if target = base then .apply
  else .conflict

def stableRemove {T : Type} [DecidableEq T] (base target : Option T) (expected : T → Bool) :
    StableDecision :=
  match base with
  | none => .conflict
  | some baseRecord =>
      if ¬ expected baseRecord then .conflict
      else match target with
        | none => .alreadyApplied
        | some targetRecord => if targetRecord = baseRecord then .apply else .conflict

/-- The decision on a change, from its slot in the base and in the target. -/
def stableDecision (base target : WorldGraph) : WorldChange → StableDecision
  | .upsertEntity incoming =>
      stableUpsert (base.entities.get? incoming.id) (target.entities.get? incoming.id) incoming
  | .removeEntity id expectedGeneration expectedRevision =>
      stableRemove (base.entities.get? id) (target.entities.get? id) fun record =>
        record.generation = expectedGeneration ∧ record.revision = expectedRevision
  | .upsertEdge incoming =>
      stableUpsert (base.edges.get? incoming.id) (target.edges.get? incoming.id) incoming
  | .removeEdge id expectedRevision =>
      stableRemove (base.edges.get? id) (target.edges.get? id) fun record =>
        record.revision = expectedRevision
  | .upsertMapChunk incoming =>
      stableUpsert (base.chunks.get? incoming.coord) (target.chunks.get? incoming.coord) incoming
  | .removeMapChunk coord expectedRevision =>
      stableRemove (base.chunks.get? coord) (target.chunks.get? coord) fun record =>
        record.revision = expectedRevision
  | .appendEvent incoming =>
      stableUpsert (base.events.get? incoming.id) (target.events.get? incoming.id) incoming

/-- Why a change conflicts. -/
def conflictOf (target : WorldGraph) : WorldChange → ConflictKind × String
  | .upsertEntity incoming =>
      if (target.entities.get? incoming.id).any fun record =>
          record.generation > incoming.generation then
        (.entityUnavailable, s!"ABA generation mismatch for entity {incoming.id}")
      else changedConcurrently
  | _ => changedConcurrently
where
  changedConcurrently : ConflictKind × String :=
    (.preconditionViolated "stable-key record changed concurrently",
      "stable-key record changed concurrently; semantic replay is required")

/-- The classification loop: the changes to apply, or the first conflict. -/
def classify (base target : WorldGraph) :
    List WorldChange → Except (ConflictKind × String) (List WorldChange)
  | [] => .ok []
  | change :: rest =>
      match stableDecision base target change with
      | .apply => do return change :: (← classify base target rest)
      | .alreadyApplied => classify base target rest
      | .conflict => .error (conflictOf target change)

/-! ## Branches -/

def transitionIsValid (base target : WorldSnapshot) : Bool :=
  match base.cursor.checkedNext with
  | none => false
  | some successor =>
      let probe : WorldSnapshot := { target with cursor := successor }
      (diffSnapshots base probe.refreshHash).isOk

/-- A branch may be several observations ahead of its base, so its record changes are replayed
as if they were the base's next observation. -/
def branchIsValid (base branch : WorldSnapshot) : Bool :=
  if base.anchor = branch.anchor then base = branch else transitionIsValid base branch

/-! ## Rebase -/

def rebaseChanges (base target : WorldSnapshot) (changes : List WorldChange) (planId : PlanId) :
    RebaseOutcome :=
  let conflicted (kind : ConflictKind) (diagnosis : String) : RebaseOutcome :=
    .conflicted (.new planId base.anchor target.anchor kind diagnosis)
  if ¬ base.hashIsValid ∨ ¬ target.hashIsValid ∨ base.fortressId ≠ target.fortressId ∨
      base.cursor.epoch ≠ target.cursor.epoch ∨ target.cursor.sequence < base.cursor.sequence ∨
      target.tick < base.tick ∨ ¬ branchIsValid base target then
    conflicted .anchorDivergence "rebase snapshots have invalid hashes, fortresses, or epochs"
  else match base.cursor.checkedNext with
    | none => conflicted .anchorDivergence "base observation cursor is exhausted"
    | some validationCursor =>
        if ¬ (buildDelta base validationCursor base.tick changes).isOk then
          conflicted (.preconditionViolated "change set is invalid against its declared base")
            "change set could not be applied to the base snapshot"
        else match classify base.graph target.graph changes with
          | .error (kind, diagnosis) => conflicted kind diagnosis
          | .ok rebased =>
              if rebased ≠ [] then
                match target.cursor.checkedNext with
                | none => conflicted .anchorDivergence "target observation cursor is exhausted"
                | some rebasedCursor =>
                    if ¬ (buildDelta target rebasedCursor target.tick rebased).isOk then
                      conflicted (.preconditionViolated "rebased writes violate target invariants")
                        "rebased changes cannot be applied safely to the target snapshot"
                    else .clean target.anchor rebased
              else .clean target.anchor rebased

/-! ## Rebase under a witness set -/

/-- A snapshot has the witnessed entity at the witnessed generation and revision. -/
def EntityWitness.matches (w : EntityWitness) (s : WorldSnapshot) : Bool :=
  (s.graph.entities.get? w.id).any fun record =>
    record.generation = w.generation ∧ record.revision = w.revision

/-- A snapshot has the witnessed chunk at the witnessed revision. -/
def chunkMatches (witness : ChunkCoord × U 64) (s : WorldSnapshot) : Bool :=
  (s.graph.chunks.get? witness.1).any fun chunk => chunk.revision = witness.2

/-- The witness check of `rebase_with_witness`: the first witnessed read that no longer holds,
in the base or in the target. -/
def WitnessSet.violation (w : WitnessSet) (base target : WorldSnapshot) :
    Option (ConflictKind × String) :=
  match w.positiveEntities.keys.find? fun p => ¬ p.matches base ∨ ¬ p.matches target with
  | some p => some (.entityUnavailable,
      "witnessed positive entity " ++ toString p.id ++ " changed or disappeared")
  | none =>
      match w.negativeEntities.keys.find? fun id =>
          base.graph.entities.contains id ∨ target.graph.entities.contains id with
      | some id => some (.preconditionViolated s!"phantom entity {id} appeared",
          s!"witnessed absent entity {id} was created in target snapshot")
      | none =>
          match w.witnessedChunks.toList.find? fun c =>
              ¬ chunkMatches c base ∨ ¬ chunkMatches c target with
          | some c => some (.spatialOverlap,
              "witnessed map chunk " ++ c.1.debug ++ " changed or disappeared")
          | none => none

def rebaseWithWitness (base target : WorldSnapshot) (witness : WitnessSet)
    (changes : List WorldChange) (planId : PlanId) : RebaseOutcome :=
  match witness.violation base target with
  | some (kind, diagnosis) =>
      .conflicted (.new planId base.anchor target.anchor kind diagnosis)
  | none => rebaseChanges base target changes planId

/-! ## Three-way merge -/

/-- The record-wise choice: the side that changed, or the common value. -/
def mergeChoice {V : Type} [DecidableEq V] (base ours theirs : V) : Option V :=
  if ours = base then some theirs
  else if theirs = base ∨ ours = theirs then some ours
  else none

/-- The loop of `merge_map`, over the union of the keys in ascending order. -/
def mergeKeys {K V : Type} [LinearOrder K] [DecidableEq V] (base ours theirs : BTreeMap K V) :
    List K → BTreeMap K V → Except K (BTreeMap K V)
  | [], merged => .ok merged
  | key :: rest, merged =>
      match mergeChoice (base.get? key) (ours.get? key) (theirs.get? key) with
      | none => .error key
      | some none => mergeKeys base ours theirs rest merged
      | some (some value) => mergeKeys base ours theirs rest (merged.insert key value)

def mergeMap {K V : Type} [LinearOrder K] [DecidableEq V] (base ours theirs : BTreeMap K V) :
    Except K (BTreeMap K V) :=
  let keys : BTreeSet K := .ofList ((base.keys ++ ours.keys ++ theirs.keys).map fun k => (k, ()))
  mergeKeys base ours theirs keys.keys .nil

def mergeScalar {V : Type} [DecidableEq V] (base ours theirs : V) : Option V :=
  mergeChoice base ours theirs

def mergeConflict (planId : PlanId) (baseAnchor targetAnchor : StateAnchor) (recordKind : String)
    (key : String) : ConflictCertificate :=
  .new planId baseAnchor targetAnchor
    (.preconditionViolated ("concurrent " ++ recordKind ++ " edit"))
    ("concurrent " ++ recordKind ++ " edit at stable key " ++ key)

/-- The derived `Debug` texts of the map keys. -/
def debugEntityId (id : EntityId) : String := "EntityId(" ++ toString id ++ ")"
def debugEdgeId (id : EdgeId) : String := "EdgeId(" ++ hex32 id ++ ")"
def debugEventId (id : EventId) : String := "EventId(" ++ hex32 id ++ ")"

def threeWayMerge (base ours theirs : WorldSnapshot) (planId : PlanId) :
    Except ConflictCertificate WorldSnapshot := do
  let conflict := mergeConflict planId base.anchor theirs.anchor
  if ¬ base.hashIsValid ∨ ¬ ours.hashIsValid ∨ ¬ theirs.hashIsValid ∨
      base.fortressId ≠ ours.fortressId ∨ base.fortressId ≠ theirs.fortressId ∨
      base.cursor.epoch ≠ ours.cursor.epoch ∨ base.cursor.epoch ≠ theirs.cursor.epoch ∨
      ours.cursor.sequence < base.cursor.sequence ∨
      theirs.cursor.sequence < base.cursor.sequence ∨ ours.tick < base.tick ∨
      theirs.tick < base.tick ∨ ¬ branchIsValid base ours ∨ ¬ branchIsValid base theirs then
    throw (.new planId base.anchor theirs.anchor .anchorDivergence
      "three-way merge snapshots have invalid hashes, fortresses, or epochs")
  let entities ← (mergeMap base.graph.entities ours.graph.entities theirs.graph.entities).mapError
    fun key => conflict "entity" (debugEntityId key)
  let edges ← (mergeMap base.graph.edges ours.graph.edges theirs.graph.edges).mapError
    fun key => conflict "edge" (debugEdgeId key)
  let chunks ← (mergeMap base.graph.chunks ours.graph.chunks theirs.graph.chunks).mapError
    fun key => conflict "chunk" key.debug
  let events ← (mergeMap base.graph.events ours.graph.events theirs.graph.events).mapError
    fun key => conflict "event" (debugEventId key)
  let some paused := mergeScalar base.paused ours.paused theirs.paused
    | throw (conflict "pause state" "\"paused\"")
  let some sequence := U.checkedAdd (max ours.cursor.sequence theirs.cursor.sequence) 1
    | throw (.new planId base.anchor theirs.anchor .anchorDivergence
        "merged observation cursor would overflow")
  let merged := WorldSnapshot.new base.fortressId (max ours.tick theirs.tick)
    ⟨base.cursor.epoch, sequence⟩ paused ⟨entities, edges, chunks, events⟩
  if ¬ transitionIsValid base merged then
    throw (.new planId base.anchor theirs.anchor
      (.preconditionViolated "merged graph violates canonical state invariants")
      "independent record merges do not form a valid world snapshot")
  return merged

end Dfmcp
