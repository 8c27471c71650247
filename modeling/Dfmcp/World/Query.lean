import Dfmcp.World.Delta
import Dfmcp.World.Laboratory

/-!
# Predicates and queries

`query.rs`: the predicate language, its bounded shape, its three-valued evaluation within a
snapshot, and the bounded, ordered and paginated entity query built on it.

Leaves compare kinds in two ways. `entityKind`, `edgeExists` and the kind filter of a query
compare the enumeration values; quantities compare the canonical names.

Where the source walks a predicate with a stack of pending nodes, the stack is a list whose head
is popped next. The node budget of a walk is also what bounds it: `validatePending left` may
visit `left` more nodes.
-/

namespace Dfmcp

open Machine Kleene

def maxQueryKinds : Nat := 64
def maxQueryPredicateDepth : Nat := 64
def maxQueryPredicateNodes : Nat := 4096
def maxQueryFieldBytes : Nat := 256
def maxQueryKindBytes : Nat := 128
def maxQueryValueDepth : Nat := 64
def maxQueryValueNodes : Nat := 4096
def maxQueryValueBytes : Nat := 64 * 1024
def maxQueryScanEntities : Nat := 1000000
def maxQueryAccessScanWork : U 64 := 4000000
def maxPredicateQuantityWork : U 64 := 4000000
def maxPredicateRegionTiles : U 64 := 262144

inductive CompareOp where
  | eq
  | ne
  | lt
  | le
  | gt
  | ge
deriving DecidableEq

inductive Predicate where
  | true
  | false
  | entityExists (entityId : EntityId)
  | entityKind (entityId : EntityId) (kind : EntityKind)
  | fieldCompare (entityId : EntityId) (field : String) (op : CompareOp) (value : Value)
  | edgeExists (edgeId : EdgeId) (kind : Option EdgeKind)
  | paused (expected : Bool)
  | regionTerrain (area : MapCuboid) (tileCode : U 32)
  | all (predicates : List Predicate)
  | any (predicates : List Predicate)
  | not (predicate : Predicate)
  | laboratoryRoomAccess (area : MapCuboid) (entry : MapCoord) (targets : List MapCoord)
  | entityQuantity (kind : EntityKind) (filterField : String) (filterValue : Value)
      (quantityField : Option String) (op : CompareOp) (value : U 64)
  | laboratoryRoomAccessPairedStairs (area : MapCuboid) (entry : MapCoord)
      (targets : List MapCoord)
  | laboratoryCivilianReleaseSafety (burrow : LaboratoryEntityIdentity)
      (civilians : List LaboratoryEntityIdentity)
  | entityQuantityIncrease (kind : EntityKind) (filterField : String) (filterValue : Value)
      (quantityField : Option String) (baseline increase : U 64) (baselineAnchor : StateAnchor)
      (baselineSourceDigest : Digest32) (sourceGeneration : U 64)
      (baselineSourceCounters : U 64 × U 64 × U 64)

/-! ## Work -/

namespace Predicate

mutual

/-- The predicates under the connectives, in order. -/
def leaves : Predicate → List Predicate
  | .all predicates | .any predicates => leavesList predicates
  | .not predicate => predicate.leaves
  | leaf => [leaf]

def leavesList : List Predicate → List Predicate
  | [] => []
  | predicate :: rest => predicate.leaves ++ leavesList rest

end

mutual

def complexity : Predicate → U 64
  | .all predicates | .any predicates => complexityFrom 1 predicates
  | .not predicate => U.saturatingAdd 1 predicate.complexity
  | _ => 1

def complexityFrom (total : U 64) : List Predicate → U 64
  | [] => total
  | predicate :: rest => complexityFrom (total.saturatingAdd predicate.complexity) rest

end

/-- The aggregate or occupancy work of one leaf. -/
def scanWork (entities : Nat) : Predicate → U 64
  | .laboratoryRoomAccess area _ targets | .laboratoryRoomAccessPairedStairs area _ targets =>
      LaboratoryAccess.workBound area targets.length entities
  | .entityQuantity .. | .entityQuantityIncrease .. =>
      (U.wrap entities : U 64).saturatingMul 3
  | .laboratoryCivilianReleaseSafety .. => LaboratoryCivilian.workBound entities
  | _ => 0

/-- Work beyond ordinary node visits. The stack pops the last leaf first. -/
def additionalScanWork (predicate : Predicate) (entities : Nat) : U 64 :=
  predicate.leaves.foldr (fun leaf work => work.saturatingAdd (leaf.scanWork entities)) 0

def chargeQuantity (entities : Nat) (leaf : Predicate) (work : U 64) : Result (U 64) :=
  match leaf with
  | .entityQuantity .. | .entityQuantityIncrease .. =>
      let work := work.saturatingAdd ((U.wrap entities : U 64).saturatingMul 3)
      if work > maxPredicateQuantityWork then
        .error (.new .budgetExceeded
          "entity quantity predicates exceed their combined scan work bound")
      else .ok work
  | _ => .ok work

/-- Bound every aggregate before any short circuit. -/
def validateQuantityWork (predicate : Predicate) (entities : Nat) : Result Unit := do
  let _ ← predicate.leaves.reverse.foldlM (fun work leaf => chargeQuantity entities leaf work) 0

end Predicate

/-! ## Shape -/

/-- Rust's `char::is_control`. -/
def isControl (c : Char) : Bool := c.toNat ≤ 0x1F || (0x7F ≤ c.toNat && c.toNat ≤ 0x9F)

def addQueryValueBytes (total additional : Nat) : Result Nat :=
  if total + additional ≥ 2 ^ 64 then
    .error (.new .budgetExceeded "query predicate value byte count overflowed")
  else if total + additional > maxQueryValueBytes then
    .error (.new .budgetExceeded "query predicate value exceeds its explicit byte bound")
  else .ok (total + additional)

/-- The pending values, with `left` nodes of the budget left. -/
def validateQueryValues : Nat → Nat → List (Value × Nat) → Result Unit
  | _, _, [] => .ok ()
  | 0, _, _ :: _ =>
      .error (.new .budgetExceeded
        "query predicate value exceeds its explicit depth or node bound")
  | left + 1, bytes, (value, depth) :: pending =>
      if depth > maxQueryValueDepth then
        .error (.new .budgetExceeded
          "query predicate value exceeds its explicit depth or node bound")
      else match value with
        | .text value => do
            validateQueryValues left (← addQueryValueBytes bytes (strLen value)) pending
        | .bytes value => do
            validateQueryValues left (← addQueryValueBytes bytes value.length) pending
        | .list values =>
            if values.length > left then
              .error (.new .budgetExceeded "query predicate value exceeds its explicit node bound")
            else validateQueryValues left bytes
              ((values.map (·, depth + 1)).reverse ++ pending)
        | .object fields =>
            if fields.size > left then
              .error (.new .budgetExceeded "query predicate value exceeds its explicit node bound")
            else do
              let bytes ← fields.keys.foldlM
                (fun bytes key => addQueryValueBytes bytes (strLen key)) bytes
              validateQueryValues left bytes ((fields.values.map (·, depth + 1)).reverse ++ pending)
        | .null | .bool _ | .i64 _ | .u64 _ | .fixed .. | .entity _ | .coord _ =>
            validateQueryValues left bytes pending

def validateQueryValue (value : Value) : Result Unit :=
  validateQueryValues maxQueryValueNodes 0 [(value, 1)]

/-- One name of a quantity and its byte bound. -/
def validateQuantityName (name : String) (bound : Nat) : Result Unit :=
  if strLen name > bound then
    .error (.new .budgetExceeded "entity quantity kind or field exceeds its explicit byte bound")
  else if name = "" ∨ name.toList.any isControl then
    .error (.new .invalidRequest
      "entity quantity kind and fields require nonempty non-control names")
  else .ok ()

def validateEntityQuantityFields (kind : EntityKind) (filterField : String) (filterValue : Value)
    (quantityField : Option String) : Result Unit := do
  validateQuantityName kind.asStr maxQueryKindBytes
  validateQuantityName filterField maxQueryFieldBytes
  match quantityField with
  | some field => validateQuantityName field maxQueryFieldBytes
  | none => pure ()
  validateQueryValue filterValue

/-- What the leaves seen so far have used of the combined bounds. -/
structure ShapeWork where
  regionTiles : U 64
  accessWork : U 64
  civilianWork : U 64

def chargeAccess (work : ShapeWork) (area : MapCuboid) (targets : List MapCoord) :
    Result ShapeWork :=
  let accessWork := work.accessWork.saturatingAdd
    (LaboratoryAccess.workBound area targets.length LaboratoryAccess.maxEntities)
  if accessWork > LaboratoryAccess.maxPredicateWork then
    .error (.new .budgetExceeded "laboratory access predicates exceed their combined work bound")
  else .ok { work with accessWork }

/-- The checks of one leaf. -/
def validateLeaf (work : ShapeWork) : Predicate → Result ShapeWork
  | .fieldCompare _ field _ value =>
      if strLen field > maxQueryFieldBytes then
        .error (.new .budgetExceeded "query field name exceeds its explicit byte bound")
      else do
        validateQueryValue value
        pure work
  | .entityQuantity kind filterField filterValue quantityField _ _ => do
      validateEntityQuantityFields kind filterField filterValue quantityField
      pure work
  | .entityQuantityIncrease kind filterField filterValue quantityField baseline increase
      baselineAnchor baselineSourceDigest sourceGeneration _ => do
      validateEntityQuantityFields kind filterField filterValue quantityField
      if increase = 0 ∨ baseline.checkedAdd increase = none ∨ baselineAnchor.fortressId = 0 ∨
          baselineAnchor.stateHash = Digest32.zero ∨ baselineSourceDigest = Digest32.zero ∨
          sourceGeneration = 0 then
        throw (.new .invalidRequest ("entity quantity increase requires a positive bounded " ++
          "target and an identified original baseline"))
      pure work
  | .regionTerrain area _ => do
      let tiles ← validateRegion area
      let regionTiles := work.regionTiles.saturatingAdd tiles
      if regionTiles > maxPredicateRegionTiles then
        throw (.new .budgetExceeded "predicate terrain regions exceed their combined tile bound")
      pure { work with regionTiles }
  | .laboratoryRoomAccess area entry targets => do
      let _ ← LaboratoryAccess.validateRequest area entry targets
      chargeAccess work area targets
  | .laboratoryRoomAccessPairedStairs area entry targets => do
      let _ ← LaboratoryAccess.validatePairedStairsRequest area entry targets
      chargeAccess work area targets
  | .laboratoryCivilianReleaseSafety burrow civilians => do
      LaboratoryCivilian.validateRequest burrow civilians
      let civilianWork := work.civilianWork.saturatingAdd
        (LaboratoryCivilian.workBound LaboratoryCivilian.maxEntities)
      if civilianWork > LaboratoryCivilian.maxPredicateWork then
        throw (.new .budgetExceeded
          "laboratory civilian predicates exceed their combined census work bound")
      pure { work with civilianWork }
  | _ => .ok work

/-- The pending predicates, with `left` nodes of the budget left. -/
def validatePending : Nat → ShapeWork → List (Predicate × Nat) → Result Unit
  | _, _, [] => .ok ()
  | 0, _, _ :: _ =>
      .error (.new .budgetExceeded "query predicate exceeds its explicit depth or node bound")
  | left + 1, work, (predicate, depth) :: pending =>
      if depth > maxQueryPredicateDepth then
        .error (.new .budgetExceeded "query predicate exceeds its explicit depth or node bound")
      else match predicate with
        | .all children | .any children =>
            if children.length > left then
              .error (.new .budgetExceeded "query predicate exceeds its explicit node bound")
            else validatePending left work ((children.map (·, depth + 1)).reverse ++ pending)
        | .not child => validatePending left work ((child, depth + 1) :: pending)
        | leaf => do validatePending left (← validateLeaf work leaf) pending

/-- The bounded shape required before a predicate is evaluated. -/
def Predicate.validateShape (predicate : Predicate) : Result Unit :=
  validatePending maxQueryPredicateNodes ⟨0, 0, 0⟩ [(predicate, 1)]

/-! ## Evaluation -/

/-- The order of two values of one ordered kind. -/
def Value.ordering : Value → Value → Option Ordering
  | .i64 left, .i64 right => some (cmp left right)
  | .u64 left, .u64 right => some (cmp left right)
  | .fixed left leftScale, .fixed right rightScale =>
      if leftScale = rightScale then some (cmp left right) else none
  | .text left, .text right => some (cmp left right)
  | .bool left, .bool right => some (cmp left right)
  | .entity left, .entity right => some (cmp left right)
  | .coord left, .coord right => some (cmp left right)
  | _, _ => none

def Value.compare (left : Value) (op : CompareOp) (right : Value) : PredicateTruth :=
  let ordered (test : Ordering → Bool) : PredicateTruth :=
    (left.ordering right).elim .unknown fun ordering => Truth.ofBool (test ordering)
  match op with
  | .eq => Truth.ofBool (left = right)
  | .ne => Truth.ofBool (left ≠ right)
  | .lt => ordered Ordering.isLT
  | .le => ordered Ordering.isLE
  | .gt => ordered Ordering.isGT
  | .ge => ordered Ordering.isGE

/-- A reference to no entity stands for the candidate. -/
def targetEntity (entityId : EntityId) (candidate : Option EntityId) : EntityId :=
  if entityId = 0 then candidate.getD 0 else entityId

/-- One record of a quantity scan. -/
def addQuantity (kind : EntityKind) (filterField : String) (filterValue : Value)
    (quantityField : Option String) (factValue : Fact → Option Value) (total : U 64)
    (entity : EntityRecord) : Option (U 64) :=
  if entity.kind.asStr ≠ kind.asStr then some total
  else if entity.id = 0 then none
  else match (entity.fields.get? filterField).bind factValue with
    | none => none
    | some selector =>
        if selector ≠ filterValue then some total
        else match quantityField with
          | none => total.checkedAdd 1
          | some field =>
              match (entity.fields.get? field).bind factValue with
              | some (.u64 quantity) => total.checkedAdd quantity
              | _ => none

/-- One complete scan. A missing selector anywhere in the domain makes the total unknown; only
matching rows need a known, unsigned quantity. -/
def entityQuantityTotal (s : WorldSnapshot) (kind : EntityKind) (filterField : String)
    (filterValue : Value) (quantityField : Option String) (factValue : Fact → Option Value) :
    Option (U 64) :=
  s.graph.entities.values.foldlM
    (addQuantity kind filterField filterValue quantityField factValue) 0

/-- The total compared with a bound. -/
def quantityTruth (total : Option (U 64)) (op : CompareOp) (value : U 64) : PredicateTruth :=
  total.elim .unknown fun total => (Value.u64 total).compare op (.u64 value)

def entityQuantityTruth (s : WorldSnapshot) (predicate : Predicate)
    (factValue : Fact → Option Value) : PredicateTruth :=
  match predicate with
  | .entityQuantity kind filterField filterValue quantityField op value =>
      quantityTruth
        (entityQuantityTotal s kind filterField filterValue quantityField factValue) op value
  | .entityQuantityIncrease kind filterField filterValue quantityField baseline increase
      baselineAnchor _ _ _ =>
      let current := s.anchor
      if current.fortressId ≠ baselineAnchor.fortressId ∨
          current.cursor.epoch ≠ baselineAnchor.cursor.epoch ∨
          current.cursor.sequence < baselineAnchor.cursor.sequence ∨
          current.tick < baselineAnchor.tick ∨
          current.cursor = baselineAnchor.cursor ∧ current ≠ baselineAnchor then .unknown
      else match baseline.checkedAdd increase with
        | none => .unknown
        | some target =>
            quantityTruth
              (entityQuantityTotal s kind filterField filterValue quantityField factValue)
              .ge target
  | _ => .unknown

/-- A refused request establishes nothing. -/
def truthOrUnknown (truth : Result PredicateTruth) : PredicateTruth :=
  match truth with
  | .ok truth => truth
  | .error _ => .unknown

mutual

def evaluateTruth (s : WorldSnapshot) (candidate : Option EntityId) :
    Predicate → PredicateTruth
  | .true => .true
  | .false => .false
  | .entityExists entityId =>
      Truth.ofBool (s.graph.entities.contains (targetEntity entityId candidate))
  | .entityKind entityId kind =>
      Truth.ofBool ((s.graph.entities.get? (targetEntity entityId candidate)).any (·.kind = kind))
  | .fieldCompare entityId field op value =>
      (((s.graph.entities.get? (targetEntity entityId candidate)).bind
        (·.fields.get? field)).bind Fact.knownValue).elim .unknown (·.compare op value)
  | .edgeExists edgeId kind =>
      Truth.ofBool ((s.graph.edges.get? edgeId).any fun edge =>
        match kind with
        | some expected => edge.kind = expected
        | none => Bool.true)
  | .paused expected => Truth.ofBool (s.paused = expected)
  | .regionTerrain area tileCode => (s.regionTerrainTruth area tileCode).toTruth
  | .laboratoryRoomAccess area entry targets =>
      truthOrUnknown (LaboratoryAccess.laboratoryRoomAccessTruth s area entry targets)
  | .laboratoryRoomAccessPairedStairs area entry targets =>
      truthOrUnknown (LaboratoryAccess.laboratoryRoomAccessPairedStairsTruth s area entry targets)
  | .laboratoryCivilianReleaseSafety burrow civilians =>
      truthOrUnknown (LaboratoryCivilian.laboratoryCivilianReleaseSafetyTruth s burrow civilians)
  | .entityQuantity kind filterField filterValue quantityField op value =>
      entityQuantityTruth s (.entityQuantity kind filterField filterValue quantityField op value)
        Fact.knownValue
  | .entityQuantityIncrease kind filterField filterValue quantityField baseline increase anchor
      digest generation counters =>
      entityQuantityTruth s (.entityQuantityIncrease kind filterField filterValue quantityField
        baseline increase anchor digest generation counters) Fact.knownValue
  | .all predicates => Truth.all (evaluateEach s candidate predicates)
  | .any predicates => Truth.any (evaluateEach s candidate predicates)
  | .not predicate => (evaluateTruth s candidate predicate).not

def evaluateEach (s : WorldSnapshot) (candidate : Option EntityId) :
    List Predicate → List PredicateTruth
  | [] => []
  | predicate :: rest => evaluateTruth s candidate predicate :: evaluateEach s candidate rest

end

/-- Whether a predicate is established of a snapshot. -/
def evaluate (s : WorldSnapshot) (predicate : Predicate) : Bool :=
  predicate.validateShape.isOk && (predicate.validateQuantityWork s.graph.entities.size).isOk &&
    (evaluateTruth s none predicate).isTrue

/-- A row predicate, without erasing what is unavailable. -/
def evaluateTruthFor (s : WorldSnapshot) (candidate : EntityId) (predicate : Predicate) :
    PredicateTruth :=
  if predicate.validateShape.isOk && (predicate.validateQuantityWork s.graph.entities.size).isOk
  then evaluateTruth s (some candidate) predicate
  else .unknown

/-! ## Queries -/

inductive QueryOrder where
  | entityIdAscending
  | entityIdDescending
  | revisionDescending
  | labelAscending
deriving DecidableEq

structure WorldQuery where
  kinds : List EntityKind
  predicate : Option Predicate
  order : QueryOrder
  limit : U 32
  continuation : Option String

def WorldQuery.validate (query : WorldQuery) (hardLimit : U 32) : Result Unit := do
  if query.limit = 0 ∨ query.limit > hardLimit then
    throw (.new .invalidRequest
      s!"query limit must be between 1 and the negotiated hard limit {hardLimit}")
  if query.kinds.length > maxQueryKinds ∨
      query.kinds.any (fun kind => strLen kind.asStr > maxQueryKindBytes) then
    throw (.new .budgetExceeded "query kind selector exceeds its explicit bound")
  if query.continuation.any (fun token => strLen token > maxContinuationTokenBytes) then
    throw (.new .budgetExceeded "query continuation token exceeds its explicit byte bound")
  match query.predicate with
  | some predicate => predicate.validateShape
  | none => pure ()

structure QueryResult where
  entities : List EntityRecord
  matched : U 64
  truncated : Bool
  continuation : Option String
deriving DecidableEq

/-- The deterministic order of the matches. The sorts of the source are stable. -/
def QueryOrder.sort (order : QueryOrder) (entities : List EntityRecord) : List EntityRecord :=
  match order with
  | .entityIdAscending => entities.insertionSort fun left right => left.id ≤ right.id
  | .entityIdDescending => entities.insertionSort fun left right => right.id ≤ left.id
  | .revisionDescending => entities.insertionSort fun left right =>
      right.revision < left.revision ∨ right.revision = left.revision ∧ left.id ≤ right.id
  | .labelAscending => entities.insertionSort fun left right =>
      left.label < right.label ∨ left.label = right.label ∧ left.id ≤ right.id

/-- The rows of one page, and whether the page was cut short. -/
def selectRows (limit : Nat) (byteLimit : Option Nat) :
    List EntityRecord → Nat → List EntityRecord → Result (List EntityRecord × Bool)
  | selected, _, [] => .ok (selected, false)
  | selected, currentBytes, entity :: rest =>
      if selected.length ≥ limit then .ok (selected, true)
      else
        let nextBytes := currentBytes + entity.encode.length
        if nextBytes ≥ 2 ^ 64 then
          .error (.new .budgetExceeded "query output byte count overflowed")
        else if byteLimit.any (nextBytes > ·) then
          if selected = [] then
            .error (.new .budgetExceeded "one query row exceeds the negotiated output byte bound")
          else .ok (selected, true)
        else selectRows limit byteLimit (selected ++ [entity]) nextBytes rest

/-- The aggregate and access work a query would repeat for every candidate. -/
def WorldQuery.checkWork (query : WorldQuery) (entities : Nat) : Result Unit :=
  match query.predicate with
  | none => .ok ()
  | some predicate =>
      let accessWork := predicate.additionalScanWork entities
      let rowWork := ((U.wrap (max query.kinds.length 1) : U 64).saturatingAdd
        predicate.complexity).saturatingAdd accessWork
      if accessWork > 0 ∧
          (U.wrap entities : U 64).saturatingMul rowWork > maxQueryAccessScanWork then
        .error (.new .budgetExceeded
          "query aggregate/access work exceeds the conservative operation budget")
      else .ok ()

/-- Where a page begins: at the offset of a token issued at this anchor. -/
def WorldQuery.offset (query : WorldQuery) (s : WorldSnapshot) : Result Nat :=
  match query.continuation with
  | none => .ok 0
  | some continuation => do
      let token ← ContinuationToken.decode continuation
      if token.fortressId ≠ s.fortressId ∨ token.cursor ≠ s.cursor then
        throw (.new .staleAnchor "continuation token anchor does not match target snapshot")
      pure token.offset.val

/-- The matches of a query. -/
def WorldQuery.matches (query : WorldQuery) (s : WorldSnapshot) : List EntityRecord :=
  (s.graph.entities.values.filter fun entity =>
    query.kinds = [] || query.kinds.contains entity.kind).filter fun entity =>
      match query.predicate with
      | some predicate => (evaluateTruth s (some entity.id) predicate).isTrue
      | none => true

def executeBoundedQuery (s : WorldSnapshot) (query : WorldQuery) (hardLimit : U 32)
    (byteLimit : Option Nat) : Result QueryResult := do
  query.validate hardLimit
  if s.graph.entities.size > maxQueryScanEntities then
    throw (.new .budgetExceeded "query snapshot exceeds the implementation scan safety bound")
  query.checkWork s.graph.entities.size
  let offset ← query.offset s
  let found := query.matches s
  let matched ← match U.tryFrom found.length with
    | some matched => pure matched
    | none => throw (.new .internalInvariantViolation "query match count cannot be represented")
  let entities := query.order.sort found
  if query.continuation.isSome ∧ offset ≥ entities.length then
    throw (.new .cursorGap
      "query continuation offset is at or beyond the deterministic result horizon")
  let (selected, cut) ← selectRows query.limit.val byteLimit [] 0 (entities.drop offset)
  let consumed := offset + selected.length
  if consumed ≥ 2 ^ 64 then
    throw (.new .budgetExceeded "query continuation offset overflowed")
  if cut ∨ consumed < entities.length then
    match U.tryFrom consumed with
    | some nextOffset =>
        let token : ContinuationToken := ⟨s.fortressId, s.cursor, nextOffset⟩
        pure ⟨selected, matched, true, some token.encode⟩
    | none =>
        throw (.new .budgetExceeded
          "query continuation offset exceeds the wire representation")
  else pure ⟨selected, matched, false, none⟩

def executeQuery (s : WorldSnapshot) (query : WorldQuery) (hardLimit : U 32) : Result QueryResult :=
  executeBoundedQuery s query hardLimit none

end Dfmcp
