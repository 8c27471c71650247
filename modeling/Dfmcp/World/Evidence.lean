import Dfmcp.World.Query

/-!
# Predicate evidence

`evidence.rs`: predicate evaluation under a policy that says which facts, domains and regions the
observing shell vouches for. What the policy does not cover is unknown. The evaluator follows
canonical kind names throughout.
-/

namespace Dfmcp

open Machine Kleene

def maxEvidenceSources : Nat := 256
def maxEvidenceKinds : Nat := 64
def maxEvidenceSourceBytes : Nat := 256
def maxEvidenceKindBytes : Nat := 128
def maxEvidenceTerrainRegions : Nat := 64
def maxEvidenceTerrainTiles : U 64 := 262144

/-! ## Policies -/

/-- Positive observation and complete-domain absence are distinct permissions. -/
inductive EvidenceCoverage where
  | unknown
  | observed
  | complete
deriving DecidableEq

namespace EvidenceCoverage

def observesMembers : EvidenceCoverage → Bool
  | .observed | .complete => true
  | .unknown => false

def provesAbsence : EvidenceCoverage → Bool
  | .complete => true
  | _ => false

end EvidenceCoverage

/-- An exact source authorization. -/
inductive EvidenceSource where
  | observed (field : String) (sourceDigest : Digest32)
  | certifiedDerived (derivation : String) (sourceDigest : Digest32)
deriving DecidableEq

def validateName (value : String) (maximum : Nat) (field : String) : Result Unit :=
  if value = "" ∨ strLen value > maximum ∨ value.toList.any isControl then
    .error (.new .invalidRequest
      (field ++ " must contain 1..=" ++ toString maximum ++ " non-control UTF-8 bytes"))
  else .ok ()

namespace EvidenceSource

def name : EvidenceSource → String
  | .observed field _ => field
  | .certifiedDerived derivation _ => derivation

def sourceDigest : EvidenceSource → Digest32
  | .observed _ digest | .certifiedDerived _ digest => digest

def validate (source : EvidenceSource) : Result Unit := do
  validateName source.name maxEvidenceSourceBytes "evidence source"
  if source.sourceDigest = Digest32.zero then
    throw (.new .invalidRequest
      "observed and certified-derived source grants require a nonzero exact digest")

def admits (source : EvidenceSource) (fact : Fact) : Bool :=
  match source, fact.source with
  | .observed field digest, .dfhackField actual => field = actual && digest = fact.sourceDigest
  | .certifiedDerived derivation digest, .derived actual =>
      derivation = actual && digest = fact.sourceDigest
  | _, _ => false

end EvidenceSource

/-- Observation authority for one exact source anchor. The sets and maps of the source are lists
here: nothing depends on their order but which of two grants for one name is found, and a policy
with two is refused. -/
structure EvidencePolicy where
  anchor : Option StateAnchor
  sources : List EvidenceSource
  allEntities : EvidenceCoverage
  entityKinds : List (EntityKind × EvidenceCoverage)
  allEdges : EvidenceCoverage
  edgeKinds : List (EdgeKind × EvidenceCoverage)
  paused : Bool
  terrainRegions : List MapCuboid

namespace EvidencePolicy

/-- A scope that grants nothing. -/
def grantsAt (anchor : StateAnchor) : EvidencePolicy :=
  ⟨some anchor, [], .unknown, [], .unknown, [], false, []⟩

/-- The names of kind grants are valid and distinct. -/
def validateKinds (what duplicate : String) (names : List String) : Result Unit := do
  let _ ← names.foldlM (fun seen name => do
    validateName name maxEvidenceKindBytes what
    if name ∈ seen then throw (.new .invalidRequest duplicate)
    pure (name :: seen)) ([] : List String)

/-- The regions are valid and not too large together. -/
def addTiles (total : U 64) (area : MapCuboid) : Result (U 64) := do
  let tiles ← validateRegion area
  match total.checkedAdd tiles with
  | none => throw (.new .budgetExceeded "evidence terrain count overflowed")
  | some total =>
      if total > maxEvidenceTerrainTiles then
        throw (.new .budgetExceeded
          "predicate evidence terrain coverage exceeds its explicit tile bound")
      pure total

def validate (policy : EvidencePolicy) : Result Unit := do
  if policy.sources.length > maxEvidenceSources ∨ policy.entityKinds.length > maxEvidenceKinds ∨
      policy.edgeKinds.length > maxEvidenceKinds ∨
      policy.terrainRegions.length > maxEvidenceTerrainRegions then
    throw (.new .budgetExceeded
      "predicate evidence source or coverage collections exceed their explicit bounds")
  policy.sources.forM EvidenceSource.validate
  validateKinds "evidence entity kind"
    "predicate evidence has duplicate canonical entity-kind grants"
    (policy.entityKinds.map (·.1.asStr))
  validateKinds "evidence relation kind"
    "predicate evidence has duplicate canonical relation-kind grants"
    (policy.edgeKinds.map (·.1.asStr))
  let _ ← policy.terrainRegions.foldlM addTiles 0

end EvidencePolicy

/-! ## Evidence -/

/-- Predicate evidence bound to a single world version. -/
structure PredicateEvidence where
  snapshot : WorldSnapshot
  policy : EvidencePolicy
  laboratory : Bool

namespace PredicateEvidence

/-- Bind grants to this exact snapshot. -/
def scopedTo (s : WorldSnapshot) (policy : EvidencePolicy) : Result PredicateEvidence := do
  policy.validate
  if policy.anchor ≠ some s.anchor then
    throw (.new .staleAnchor
      "predicate evidence policy must name the exact supplied state anchor")
  if ¬ s.graph.KeysMatch then
    throw (.new .internalInvariantViolation
      "predicate evidence requires canonical lookup keys matching record identities")
  if !s.hashIsValid then
    throw (.new .checksumMismatch "predicate evidence requires a hash-valid canonical snapshot")
  pure ⟨s, policy, false⟩

/-- Preserve a snapshot for inspection without granting any authority. -/
def untrusted (s : WorldSnapshot) : Result PredicateEvidence :=
  scopedTo s (.grantsAt s.anchor)

/-- Trust the complete reference model owned by a laboratory adapter. -/
def ofLaboratory (s : WorldSnapshot) : Result PredicateEvidence := do
  let policy : EvidencePolicy :=
    { EvidencePolicy.grantsAt s.anchor with
      allEntities := .complete, allEdges := .complete, paused := true }
  let evidence ← scopedTo s policy
  pure { evidence with laboratory := true }

variable (evidence : PredicateEvidence)

def entityKindCoverage (kind : EntityKind) : EvidenceCoverage :=
  ((evidence.policy.entityKinds.find? fun grant => grant.1.asStr = kind.asStr).map (·.2)).getD
    .unknown

def edgeKindCoverage (kind : EdgeKind) : EvidenceCoverage :=
  ((evidence.policy.edgeKinds.find? fun grant => grant.1.asStr = kind.asStr).map (·.2)).getD
    .unknown

def entityObserved (id : EntityId) : Bool :=
  id ≠ 0 && (evidence.snapshot.graph.entities.get? id).any fun entity =>
    evidence.policy.allEntities.observesMembers ||
      (evidence.entityKindCoverage entity.kind).observesMembers

def entityAbsenceComplete (kind : Option EntityKind) : Bool :=
  evidence.policy.allEntities.provesAbsence ||
    kind.any fun kind => (evidence.entityKindCoverage kind).provesAbsence

def edgeAbsenceComplete (kind : Option EdgeKind) : Bool :=
  evidence.policy.allEdges.provesAbsence ||
    kind.any fun kind => (evidence.edgeKindCoverage kind).provesAbsence

def factValue (fact : Fact) : Option Value :=
  if evidence.laboratory then laboratoryFactValue fact evidence.snapshot.tick
  else if fact.observedAt > evidence.snapshot.tick ∨
      ¬ evidence.policy.sources.any (·.admits fact) then none
  else fact.knownValue

def terrainObserved (coord : MapCoord) : Bool :=
  evidence.laboratory || evidence.policy.terrainRegions.any (·.contains coord)

/-- A tile code, where the terrain there is observed. -/
def observedTileCode (coord : MapCoord) : Option (U 32) :=
  if evidence.terrainObserved coord then evidence.snapshot.tileCodeAt coord else none

/-- Laboratory predicates are answered by a laboratory only. -/
def laboratoryTruth (truth : Result PredicateTruth) : PredicateTruth :=
  if !evidence.laboratory then .unknown else truthOrUnknown truth

mutual

def evaluateValidated : Predicate → PredicateTruth
  | .true => .true
  | .false => .false
  | .entityExists id =>
      if id = 0 then .unknown
      else if evidence.snapshot.graph.entities.contains id then
        if evidence.entityObserved id then .true else .unknown
      else if evidence.entityAbsenceComplete none then .false
      else .unknown
  | .entityKind entityId kind =>
      if entityId = 0 then .unknown
      else match evidence.snapshot.graph.entities.get? entityId with
        | some entity =>
            if !evidence.entityObserved entityId then .unknown
            else if entity.kind.asStr = kind.asStr then .true
            else .false
        | none => if evidence.entityAbsenceComplete (some kind) then .false else .unknown
  | .fieldCompare entityId field op value =>
      if !evidence.entityObserved entityId then .unknown
      else (((evidence.snapshot.graph.entities.get? entityId).bind (·.fields.get? field)).bind
        evidence.factValue).elim .unknown (·.compare op value)
  | .entityQuantity kind filterField filterValue quantityField op value =>
      if !evidence.entityAbsenceComplete (some kind) then .unknown
      else entityQuantityTruth evidence.snapshot
        (.entityQuantity kind filterField filterValue quantityField op value) evidence.factValue
  | .entityQuantityIncrease kind filterField filterValue quantityField baseline increase anchor
      digest generation counters =>
      if !evidence.entityAbsenceComplete (some kind) then .unknown
      else entityQuantityTruth evidence.snapshot
        (.entityQuantityIncrease kind filterField filterValue quantityField baseline increase
          anchor digest generation counters) evidence.factValue
  | .edgeExists edgeId kind =>
      if edgeId = 0 then .unknown
      else match evidence.snapshot.graph.edges.get? edgeId with
        | some edge =>
            let observed := evidence.policy.allEdges.observesMembers ||
              (evidence.edgeKindCoverage edge.kind).observesMembers
            if !observed || !evidence.entityObserved edge.fromId ||
                !evidence.entityObserved edge.toId then .unknown
            else if kind.all fun kind => kind.asStr = edge.kind.asStr then .true
            else .false
        | none => if evidence.edgeAbsenceComplete kind then .false else .unknown
  | .paused expected =>
      if !evidence.policy.paused then .unknown
      else if evidence.snapshot.paused = expected then .true
      else .false
  | .regionTerrain area tileCode =>
      (scanRegion evidence.observedTileCode tileCode Bool.false (regionTiles area)).toTruth
  | .laboratoryRoomAccess area entry targets =>
      evidence.laboratoryTruth
        (LaboratoryAccess.laboratoryRoomAccessTruth evidence.snapshot area entry targets)
  | .laboratoryRoomAccessPairedStairs area entry targets =>
      evidence.laboratoryTruth
        (LaboratoryAccess.laboratoryRoomAccessPairedStairsTruth evidence.snapshot area entry targets)
  | .laboratoryCivilianReleaseSafety burrow civilians =>
      evidence.laboratoryTruth
        (LaboratoryCivilian.laboratoryCivilianReleaseSafetyTruth evidence.snapshot burrow civilians)
  | .all children => Truth.all (evaluateEach children)
  | .any children => Truth.any (evaluateEach children)
  | .not child => (evaluateValidated child).not

def evaluateEach : List Predicate → List PredicateTruth
  | [] => []
  | child :: rest => evaluateValidated child :: evaluateEach rest

end

/-- Evaluate all leaves under this scope. Bounds are checked across the entire tree first. -/
def evaluate (predicate : Predicate) : Result PredicateTruth := do
  predicate.validateShape
  predicate.validateQuantityWork evidence.snapshot.graph.entities.size
  pure (evidence.evaluateValidated predicate)

end PredicateEvidence

end Dfmcp
