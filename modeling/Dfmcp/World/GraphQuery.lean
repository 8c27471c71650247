import Dfmcp.World.QueryPage
import Dfmcp.Library.Method

/-!
# Graph queries

`graph_query.rs`: bounded searches of the observed relation graph. An `Index` numbers the entities
of a snapshot in the order of their identifiers and keeps, for each, the arcs of the selected edges
that leave it and that enter it, sorted. A search pays for its steps from a budget; running out is
an error, never a partial answer.

* `Index.build` — the projection of a snapshot to the selected edge kinds;
* `traverseGraph` — breadth-first traversal from a set of roots, up to a depth;
* `GraphTraversal.observedPathTo` — the path recorded for a visited entity.

The source counts work in the index; here it is the state of the methods. The vectors of marks are
functions, and the queue holds a visit instead of its place in the list of visits, which only grows.
-/

namespace Dfmcp

open Machine

namespace EdgeKind

/-- The position of a kind in its declaration. -/
def ordinal : EdgeKind → Nat
  | .locatedAt => 0
  | .containedIn => 1
  | .assignedTo => 2
  | .memberOf => 3
  | .performs => 4
  | .requires => 5
  | .produces => 6
  | .uses => 7
  | .supports => 8
  | .threatens => 9
  | .orderedBy => 10
  | .parentOf => 11
  | .custom _ => 12

/-- Kinds are ordered as they are declared, and custom ones by name. -/
def key (kind : EdgeKind) : Nat ×ₗ String := toLex (kind.ordinal, kind.asStr)

end EdgeKind

namespace GraphQuery

open Method

def maxVertices : Nat := 100000
def maxEdges : Nat := 1000000
def maxWork : Nat := 10000000
def maxDepth : Nat := 1024
def maxKinds : Nat := 64

structure GraphBudget where
  maxVertices : Nat
  maxEdges : Nat
  maxFrontier : Nat
  maxWork : U 64
deriving DecidableEq

def budgetError (message : String) : DfmcpError := .new .budgetExceeded message
def invariant (message : String) : DfmcpError := .new .internalInvariantViolation message

def GraphBudget.validate (budget : GraphBudget) : Result Unit :=
  if budget.maxVertices = 0 ∨ budget.maxVertices > GraphQuery.maxVertices ∨
      budget.maxEdges > GraphQuery.maxEdges ∨ budget.maxFrontier = 0 ∨
      budget.maxFrontier > GraphQuery.maxVertices ∨ budget.maxWork.val = 0 ∨
      budget.maxWork.val > GraphQuery.maxWork then
    .error (budgetError "graph budget is outside the implementation bounds")
  else .ok ()

/-! ## Counting work -/

/-- What an analysis may spend, and what it has. -/
structure Meter where
  budget : GraphBudget
  work : Nat
  examinedArcs : Nat

/-- An analysis counts its work as it goes. -/
abbrev Analysis := Method DfmcpError Meter

def exhausted : DfmcpError := budgetError "graph traversal exhausted its operation budget"

def charge (units : Nat) : Analysis PUnit := do
  let meter ← get
  rejectIf (2 ^ 64 ≤ meter.work + units) (budgetError "graph work counter overflow")
  set { meter with work := meter.work + units }
  rejectIf (meter.work + units > meter.budget.maxWork.val) exhausted

/-- Pay for looking at an arc. -/
def examine : Analysis PUnit := do
  charge 1
  modify fun meter => { meter with examinedArcs := meter.examinedArcs + 1 }

def frontier (size : Nat) : Analysis PUnit := do
  let meter ← get
  rejectIf (size > meter.budget.maxFrontier)
    (budgetError "graph traversal exhausted its frontier budget")

/-! ## The index -/

structure Arc where
  target : Nat
  edge : EdgeId
  revision : U 64
deriving DecidableEq

def Arc.key (arc : Arc) : Nat ×ₗ EdgeId := toLex (arc.target, arc.edge)

structure Index where
  ids : List EntityId
  versions : List (U 32 × U 64)
  ordinals : BTreeMap EntityId Nat
  outgoing : List (List Arc)
  incoming : List (List Arc)
  projectionDigest : Digest32
  scannedEdges : Nat

namespace Index

def empty : Index := ⟨[], [], .nil, [], [], Digest32.zero, 0⟩

def addVertex (index : Index) (id : EntityId) (entity : EntityRecord) : Index :=
  { index with
    ids := index.ids ++ [id]
    versions := index.versions ++ [(entity.generation, entity.revision)]
    ordinals := index.ordinals.insert id index.ids.length
    outgoing := index.outgoing ++ [[]]
    incoming := index.incoming ++ [[]] }

def addVertices : List (EntityId × EntityRecord) → Index → Analysis Index
  | [], index => pure index
  | (id, entity) :: rest, index => do
      charge 1
      rejectIf (id = 0 ∨ entity.id ≠ id)
        (invariant "graph vertex key is inconsistent with its stable identity")
      addVertices rest (index.addVertex id entity)

/-- An edge that was looked at. -/
def scanned (index : Index) : Index := { index with scannedEdges := index.scannedEdges + 1 }

def connect (index : Index) (source target : Nat) (edge : EdgeId) (revision : U 64) : Index :=
  { index with
    outgoing := index.outgoing.modify source (· ++ [⟨target, edge, revision⟩])
    incoming := index.incoming.modify target (· ++ [⟨source, edge, revision⟩]) }

/-- Whether an edge kind is selected; nothing selects everything. -/
def selects (selected : List EdgeKind) (kind : EdgeKind) : Prop := selected = [] ∨ kind ∈ selected

instance (selected : List EdgeKind) (kind : EdgeKind) : Decidable (selects selected kind) :=
  inferInstanceAs (Decidable (_ ∨ _))

def addEdges (selected : List EdgeKind) : List (EdgeId × EdgeRecord) → Index → Analysis Index
  | [], index => pure index
  | (id, edge) :: rest, index => do
      charge 1
      if ¬ selects selected edge.kind then
        addEdges selected rest index.scanned
      else do
        rejectIf (strLen edge.kind.asStr > 128)
          (budgetError "selected graph edge kind exceeds its byte bound")
        rejectIf (id ≠ edge.id ∨ edge.id = 0)
          (invariant "graph edge key is inconsistent with its stable identity")
        match index.ordinals.get? edge.fromId, index.ordinals.get? edge.toId with
        | some source, some target =>
            addEdges selected rest (index.scanned.connect source target id edge.revision)
        | _, _ => throw (invariant "selected graph edge has an unobserved endpoint")

/-- Arcs in the order of `(target, edge)`. -/
def sortArcs (arcs : List Arc) : List Arc := arcs.insertionSort fun a b => a.key ≤ b.key

/-- The kinds, sorted and without repetition. -/
def selectKinds (kinds : List EdgeKind) : List EdgeKind :=
  dedup (kinds.insertionSort fun a b => a.key ≤ b.key)

def vertexBytes (entry : EntityId × EntityRecord) : Bytes :=
  putU64 entry.1 ++ putU32 entry.2.generation ++ putU64 entry.2.revision

def edgeBytes (entry : EdgeId × EdgeRecord) : Bytes :=
  putU128 entry.1 ++ putU64 entry.2.revision ++ putBool entry.2.kind.isCustom ++
    putStr entry.2.kind.asStr ++ putU64 entry.2.fromId ++ putU64 entry.2.toId

/-- What the digest of a projection covers. -/
def projectionBytes (snapshot : WorldSnapshot) (selected : List EdgeKind) : Bytes :=
  putStr "dfmcp-authorized-graph-projection-v1" ++ putLen selected.length ++
    selected.flatMap (fun kind => putBool kind.isCustom ++ putStr kind.asStr) ++
    putLen snapshot.graph.entities.size ++ snapshot.graph.entities.toList.flatMap vertexBytes ++
    (snapshot.graph.edges.toList.filter fun entry =>
      decide (selects selected entry.2.kind)).flatMap edgeBytes

/-- The arcs in order, and the digest. -/
def finish (index : Index) (digest : Digest32) : Index :=
  { index with
    outgoing := index.outgoing.map sortArcs
    incoming := index.incoming.map sortArcs
    projectionDigest := digest }

def build (snapshot : WorldSnapshot) (kinds : List EdgeKind) (budget : GraphBudget) :
    Analysis Index := do
  of budget.validate
  rejectIf (snapshot.graph.entities.size > budget.maxVertices ∨
    snapshot.graph.edges.size > budget.maxEdges ∨ kinds.length > maxKinds ∨
    ∃ kind ∈ kinds, strLen kind.asStr > 128)
    (budgetError "graph projection exceeds its input bounds")
  rejectIf (snapshot.hashIsValid = false)
    (invariant "graph source snapshot has an invalid state hash")
  let selected := selectKinds kinds
  let index ← addVertices snapshot.graph.entities.toList empty
  let index ← addEdges selected snapshot.graph.edges.toList index
  pure (index.finish (.ofBytes (projectionBytes snapshot selected)))

/-- The identifier of a vertex. -/
def id (index : Index) (node : Nat) : EntityId := index.ids.getD node 0

def version (index : Index) (node : Nat) : U 32 × U 64 := index.versions.getD node (0, 0)

def arcsFrom (index : Index) (node : Nat) : List Arc := index.outgoing.getD node []
def arcsInto (index : Index) (node : Nat) : List Arc := index.incoming.getD node []

end Index

/-! ## Witnesses -/

structure GraphWitness where
  sourceAnchor : StateAnchor
  authorizationScopeDigest : Digest32
  projectionDigest : Digest32
  decisionDigest : Digest32
  scannedVertices : Nat
  scannedEdges : Nat
  examinedArcs : Nat
  workUnits : Nat
deriving DecidableEq

def Index.witness (index : Index) (snapshot : WorldSnapshot) (scope : Digest32)
    (decisions : Bytes) : Analysis GraphWitness := do
  let meter ← get
  let bytes := putStr "dfmcp-graph-decision-v1" ++ putBytes index.projectionDigest.bytes ++
    putBytes scope.bytes ++ putBytes decisions ++ putLen meter.work ++ putLen meter.examinedArcs
  pure {
    sourceAnchor := snapshot.anchor
    authorizationScopeDigest := scope
    projectionDigest := index.projectionDigest
    decisionDigest := .ofBytes bytes
    scannedVertices := index.ids.length
    scannedEdges := index.scannedEdges
    examinedArcs := meter.examinedArcs
    workUnits := meter.work }

/-! ## Traversal -/

inductive GraphDirection where
  | outgoing
  | incoming
  | undirected
deriving DecidableEq

def GraphDirection.tag : GraphDirection → UInt8
  | .outgoing => 0
  | .incoming => 1
  | .undirected => 2

structure GraphTraversalQuery where
  roots : List EntityId
  edgeKinds : List EdgeKind
  direction : GraphDirection
  maxDepth : U 32

structure GraphVisit where
  entityId : EntityId
  generation : U 32
  revision : U 64
  root : EntityId
  depth : U 32
  parent : Option EntityId
  viaEdge : Option EdgeId
  viaEdgeRevision : Option (U 64)
deriving DecidableEq

structure GraphTraversal where
  /-- In the order of discovery. -/
  visits : List GraphVisit
  /-- Entities at the depth limit with a neighbour outside the visited set. -/
  depthFrontier : List EntityId
  witness : GraphWitness

structure ObservedGraphPath where
  vertices : List EntityId
  edges : List (EdgeId × U 64)
deriving DecidableEq

/-- Rust's `dedup_by_key`: drop an arc with the key of the one that was kept before it. -/
def dedupArcs : List Arc → List Arc
  | [] => []
  | a :: rest => a :: go a rest
where
  go (kept : Arc) : List Arc → List Arc
    | [] => []
    | b :: rest => if b.key = kept.key then go kept rest else b :: go b rest

def neighbors (index : Index) (node : Nat) : GraphDirection → List Arc
  | .outgoing => index.arcsFrom node
  | .incoming => index.arcsInto node
  | .undirected => dedupArcs (Index.sortArcs (index.arcsFrom node ++ index.arcsInto node))

/-- The state of a traversal. -/
structure Search where
  visits : List GraphVisit
  seen : Nat → Bool
  queue : List (Nat × GraphVisit)
  boundary : List Nat

namespace Search

def start : Search := ⟨[], fun _ => false, [], []⟩

def discover (s : Search) (node : Nat) (visit : GraphVisit) : Search :=
  { s with
    visits := s.visits ++ [visit]
    seen := Function.update s.seen node true
    queue := s.queue ++ [(node, visit)] }

end Search

def rootVisit (index : Index) (root : EntityId) (node : Nat) : GraphVisit :=
  ⟨root, (index.version node).1, (index.version node).2, root, 0, none, none, none⟩

def arcVisit (index : Index) (current : Nat) (visit : GraphVisit) (arc : Arc) : GraphVisit :=
  ⟨index.id arc.target, (index.version arc.target).1, (index.version arc.target).2, visit.root,
    U.wrap (visit.depth.val + 1), some (index.id current), some arc.edge, some arc.revision⟩

def plantRoots (index : Index) : List EntityId → Search → Analysis Search
  | [], s => pure s
  | root :: rest, s =>
      match index.ordinals.get? root with
      | none => throw (.new .invalidRequest
          "graph root is not present in the authorized projection")
      | some node => do
          charge 1
          frontier (s.queue.length + 1)
          plantRoots index rest (s.discover node (rootVisit index root node))

/-- Look at the arcs of a visited vertex. -/
def scan (index : Index) (current : Nat) (visit : GraphVisit) :
    List Arc → Search → Analysis Search
  | [], s => pure s
  | arc :: rest, s => do
      examine
      if s.seen arc.target then
        scan index current visit rest s
      else do
        frontier (s.queue.length + 1)
        scan index current visit rest (s.discover arc.target (arcVisit index current visit arc))

/-- `bound` turns; each pays for itself, so more than the budget allows are never taken. -/
def search (index : Index) (query : GraphTraversalQuery) : Nat → Search → Analysis Search
  | bound, s =>
      match s.queue with
      | [] => pure s
      | (current, visit) :: queue =>
          match bound with
          | 0 => throw exhausted
          | bound + 1 => do
              charge 1
              if visit.depth = query.maxDepth then
                search index query bound
                  { s with queue := queue, boundary := s.boundary ++ [current] }
              else do
                let s ← scan index current visit (neighbors index current query.direction)
                  { s with queue := queue }
                search index query bound s

/-- Whether some arc leads outside the visited set; the first one ends the search. -/
def leavesSeen (seen : Nat → Bool) : List Arc → Analysis Bool
  | [] => pure false
  | arc :: rest => do
      examine
      if seen arc.target then leavesSeen seen rest else pure true

def openEnds (index : Index) (direction : GraphDirection) (seen : Nat → Bool) :
    List Nat → Analysis (List EntityId)
  | [] => pure []
  | current :: rest => do
      let leaves ← leavesSeen seen (neighbors index current direction)
      let ends ← openEnds index direction seen rest
      pure (if leaves then index.id current :: ends else ends)

def sortIds (ids : List EntityId) : List EntityId := ids.insertionSort (· ≤ ·)

def visitBytes (visit : GraphVisit) : Bytes :=
  putU64 visit.entityId ++ putU64 visit.root ++ putU32 visit.depth ++
    putU64 (visit.parent.getD 0) ++ putU128 (visit.viaEdge.getD 0)

def traversalBytes (query : GraphTraversalQuery) (visits : List GraphVisit)
    (depthFrontier : List EntityId) : Bytes :=
  putStr "multi-source-bfs-stable-id-v1" ++ [query.direction.tag] ++ putU32 query.maxDepth ++
    putLen visits.length ++ visits.flatMap visitBytes ++
    putLen depthFrontier.length ++ depthFrontier.flatMap putU64

/-- The body of `traverse_graph`, from an empty meter. -/
def traverse (snapshot : WorldSnapshot) (scope : Digest32) (query : GraphTraversalQuery)
    (budget : GraphBudget) : Analysis GraphTraversal := do
  rejectIf (query.roots = [] ∨ query.roots.length > budget.maxVertices ∨
    query.maxDepth.val > maxDepth)
    (budgetError "graph roots or depth exceed the traversal bounds")
  let index ← Index.build snapshot query.edgeKinds budget
  let s ← plantRoots index (dedup (sortIds query.roots)) .start
  let s ← search index query (budget.maxWork.val + 1) s
  let ends ← openEnds index query.direction s.seen s.boundary
  let depthFrontier := sortIds ends
  let witness ← index.witness snapshot scope (traversalBytes query s.visits depthFrontier)
  pure ⟨s.visits, depthFrontier, witness⟩

def traverseGraph (snapshot : WorldSnapshot) (scope : Digest32) (query : GraphTraversalQuery)
    (budget : GraphBudget) : Result GraphTraversal :=
  (exec (traverse snapshot scope query budget) ⟨budget, 0, 0⟩).1

/-! ## Reading a path -/

/-- Walk back from `current`, whose successors are already in the lists. -/
def climb (records : BTreeMap EntityId GraphVisit) :
    Nat → GraphVisit → List EntityId → List (EdgeId × U 64) → Result ObservedGraphPath
  | 0, _, _, _ => .error (invariant "path witness contains a parent cycle")
  | bound + 1, current, vertices, edges =>
      match current.parent, current.viaEdge, current.viaEdgeRevision with
      | none, none, none =>
          if current.depth = 0 ∧ current.root = current.entityId then
            .ok ⟨current.entityId :: vertices, edges⟩
          else .error (invariant "path witness has inconsistent parent/edge fields")
      | some parent, some edge, some revision =>
          match records.get? parent with
          | none => .error (invariant "path witness references an unvisited parent")
          | some visit =>
              if U.checkedAdd visit.depth 1 ≠ some current.depth ∨ visit.root ≠ current.root then
                .error (invariant "path witness parent depth or source is inconsistent")
              else climb records bound visit (current.entityId :: vertices)
                ((edge, revision) :: edges)
      | _, _, _ => .error (invariant "path witness has inconsistent parent/edge fields")

def GraphTraversal.observedPathTo (t : GraphTraversal) (target : EntityId) :
    Result (Option ObservedGraphPath) :=
  if t.visits.length > maxVertices then
    .error (budgetError "path reconstruction exceeds the vertex bound")
  else
    let records : BTreeMap EntityId GraphVisit :=
      .ofList (t.visits.map fun visit => (visit.entityId, visit))
    if records.size ≠ t.visits.length then
      .error (invariant "path witness contains duplicate vertices")
    else
      match records.get? target with
      | none => .ok none
      | some current => do
          let path ← climb records t.visits.length current [] []
          .ok (some path)

end GraphQuery

end Dfmcp
