import Dfmcp.Intent.Obligation

/-!
# Reference effects

`effects.rs`: what an action means in canonical state. `defaultPostconditions` prove that an
action took effect, `defaultObligation` bounds the temporal ones, `defaultCompensation` undoes the
actions that say enough about what they change, and `applyEffect` is the immediate part of an
action.

The three economy models of a laboratory (workforce, construction materials, provisions) decide
only whether an immediate action is refused. They and the dispatch of the temporal actions are a
parameter, `Models`, with no assumption on it.
-/

namespace Dfmcp

open Machine

namespace TileCodes

def openSpace : U 32 := 0
def ramp : U 32 := 4

end TileCodes

namespace FurnitureKind

def asStr : FurnitureKind → String
  | .bed => "Bed"
  | .door => "Door"
  | .table => "Table"
  | .chair => "Chair"

def itemToken : FurnitureKind → String
  | .bed => "BED"
  | .door => "DOOR"
  | .table => "TABLE"
  | .chair => "CHAIR"

end FurnitureKind

/-- The actions whose work takes game time. -/
def Action.naturallyTemporal : Action → Bool
  | .designateDig .. | .build .. | .placeFurniture .. | .createWorkOrder .. => true
  | _ => false

namespace Effects

/-! ## Vocabulary -/

def laborFieldPrefix : String := "labor."
def burrowFieldPrefix : String := "burrow."
def squadField : String := "squad"
def standingOrderFieldPrefix : String := "standing_order."
def stockpileAcceptsField : String := "accepts"
def stockpileMaxBinsField : String := "max_bins"
def stockpileMaxBarrelsField : String := "max_barrels"
def stockpileMaxWheelbarrowsField : String := "max_wheelbarrows"
def statusField : String := "status"
def statusComplete : String := "complete"
def constructionStageField : String := "construction_stage"
def stageComplete : String := "complete"
def amountRemainingField : String := "amount_remaining"
def workOrderNameField : String := "order_name"
def workOrderConditionsField : String := "conditions"
def workOrderProductionModelField : String := "production_model"
def carpentryProductionModel : String := "carpentry/1"
def fortressSettingsKind : String := "fortress_settings"

def maxWorkOrderConditions : Nat := 64
def maxWorkOrderConditionBytes : Nat := 256
def digTicksPerTile : U 64 := 10
def buildTicks : U 64 := 500
def workOrderTicksPerUnit : U 64 := 50
def maxDefaultObligationTicks : U 64 := 403200
def defaultPollIntervalTicks : U 64 := 10

/-- The source every effect writes under. -/
def source : String := labEffects

def precondition (message : String) : DfmcpError := .new .preconditionsFailed message

def notObserved (id : EntityId) : DfmcpError :=
  precondition ("entity " ++ toString id ++ " is not observed")

def namespaced (domain payload : Bytes) : EntityId :=
  let digest := Digest32.ofBytes (domain ++ [0] ++ payload)
  U.wrap (0x7E00000000000000 ||| (ofBe (digest.bytes.take 8) &&& 0x00FFFFFFFFFFFFFF))

/-- Identity of an entity created by the step with this idempotency key. -/
def createdEntityId (idempotencyKey : String) (ordinal : U 32) : EntityId :=
  namespaced (utf8 "dfmcp-created-entity-v1") (utf8 idempotencyKey ++ putU32 ordinal)

/-- Identity of the settings entity that holds standing orders. -/
def fortressSettingsEntityId (fortress : FortressId) : EntityId :=
  LaboratoryCivilian.laboratoryFortressSettingsEntityId fortress

def digTargetTileCode : DigMode → U 32
  | .mine | .removeConstruction => TileCodes.floor
  | .channel => TileCodes.openSpace
  | .upStair | .downStair | .upDownStair => TileCodes.stair
  | .ramp => TileCodes.ramp

def fieldEq (entityId : EntityId) (field : String) (value : Value) : Predicate :=
  .fieldCompare entityId field .eq value

def acceptsValue (accepts : BTreeSet String) : Value := .list (accepts.keys.map .text)

/-! ## Work-order conditions -/

def validateConditionText (value : String) : Result Unit :=
  if value = "" ∨ strLen value > maxWorkOrderConditionBytes ∨ value.toList.any isControl then
    .error (.new .invalidRequest
      "work-order condition names and tokens require 1..=256 non-control bytes")
  else .ok ()

def conditionKey : WorkOrderCondition → Nat × String × U 32
  | .itemCountBelow itemToken threshold => (0, itemToken, threshold)
  | .materialAvailable materialToken minimum => (1, materialToken, minimum)
  | .completedOrder orderName => (2, orderName, 0)

/-- The order of the keys of two conditions. -/
def conditionLe (a b : WorkOrderCondition) : Bool :=
  let left := conditionKey a
  let right := conditionKey b
  decide (toLex (left.1, toLex (left.2.1, left.2.2)) ≤
    toLex (right.1, toLex (right.2.1, right.2.2)))

def canonicalConditions (conditions : List WorkOrderCondition) :
    Result (List WorkOrderCondition) := do
  if conditions.length > maxWorkOrderConditions then
    throw (.new .budgetExceeded "work order exceeds the 64-condition reference bound")
  conditions.forM fun condition => validateConditionText (conditionKey condition).2.1
  pure ((conditions.insertionSort fun a b => conditionLe a b).destutter (· ≠ ·))

def conditionValue : WorkOrderCondition → Value
  | .itemCountBelow itemToken threshold => .object (.ofList
      [("kind", .text "item_count_below"), ("item_token", .text itemToken),
        ("threshold", .u64 (U.wrap threshold.val))])
  | .materialAvailable materialToken minimum => .object (.ofList
      [("kind", .text "material_available"), ("material_token", .text materialToken),
        ("minimum", .u64 (U.wrap minimum.val))])
  | .completedOrder orderName => .object (.ofList
      [("kind", .text "completed_order"), ("order_name", .text orderName)])

def workOrderConditionsValue (conditions : List WorkOrderCondition) : Result Value := do
  pure (.list ((← canonicalConditions conditions).map conditionValue))

/-! ## Default semantics -/

/-- The completion proof of an installed piece of furniture. -/
def furnitureCompletionPredicates (building : EntityId) (kind : FurnitureKind) (item : EntityId)
    (location : MapCoord) : List Predicate :=
  [.entityKind building .building, .entityKind item .item,
    fieldEq building "building_kind" (.text ("furniture:" ++ kind.asStr)),
    fieldEq building "position" (.coord location),
    fieldEq building "footprint_min" (.coord location),
    fieldEq building "footprint_max" (.coord location),
    fieldEq building constructionStageField (.text stageComplete),
    fieldEq building "placement_model" (.text "furniture/1"),
    fieldEq building "source_item" (.entity item),
    fieldEq building "source_item_generation" (.u64 1),
    fieldEq building "attachment_state" (.text "attached"),
    fieldEq item "inventory_state" (.text "installed"),
    fieldEq item "allocated_to" (.entity building),
    fieldEq item "position" (.coord location),
    fieldEq item "item_token" (.text kind.itemToken),
    fieldEq item "material_token" (.text "WOOD"),
    fieldEq item "material_tokens" (.list [.text "WOOD"]),
    fieldEq item "stack_size" (.u64 1),
    fieldEq item workOrderProductionModelField (.text carpentryProductionModel)]

/-- Postconditions that prove an action took effect; none for an extension. -/
def defaultPostconditions (action : Action) (idempotencyKey : String) (fortress : FortressId) :
    List Predicate :=
  match action with
  | .pause paused => [.paused paused]
  | .designateDig area mode => [.regionTerrain area (digTargetTileCode mode)]
  | .build .. =>
      [fieldEq (createdEntityId idempotencyKey 0) constructionStageField (.text stageComplete)]
  | .placeFurniture kind item location =>
      furnitureCompletionPredicates (createdEntityId idempotencyKey 0) kind item location
  | .createWorkOrder name jobToken _ conditions =>
      if !(validateConditionText name).isOk || !(validateConditionText jobToken).isOk then [.false]
      else match workOrderConditionsValue conditions with
        -- A refused condition shape must not become an unconditional completion claim.
        | .error _ => [.false]
        | .ok conditions =>
            let id := createdEntityId idempotencyKey 0
            [fieldEq id amountRemainingField (.u64 0),
              fieldEq id statusField (.text statusComplete),
              fieldEq id workOrderNameField (.text name),
              fieldEq id "job_token" (.text jobToken),
              fieldEq id workOrderConditionsField conditions]
  | .setLabor units labor enabled =>
      units.map fun unit => fieldEq unit (laborFieldPrefix ++ labor) (.bool enabled)
  | .setBurrowMembership units burrow assigned =>
      units.map fun unit => fieldEq unit (burrowFieldPrefix ++ toString burrow) (.bool assigned)
  | .assignSquad units squad => units.map fun unit => fieldEq unit squadField (.entity squad)
  | .configureStockpile stockpile accepts _ _ _ =>
      [fieldEq stockpile stockpileAcceptsField (acceptsValue accepts)]
  | .setStandingOrder key value =>
      [fieldEq (fortressSettingsEntityId fortress) (standingOrderFieldPrefix ++ key) (.text value)]
  | .extension .. => []

/-- The horizon of a temporal action, before its cap of one year. -/
def obligationHorizon : Action → Result (Option (U 64))
  | .designateDig area _ => do
      let tiles ← validateRegion area
      pure (some (((digTicksPerTile.saturatingMul tiles).saturatingMul 2).saturatingAdd 100))
  | .build .. | .placeFurniture .. => .ok (some (buildTicks.saturatingMul 4))
  | .createWorkOrder _ _ amount _ =>
      .ok (some (((workOrderTicksPerUnit.saturatingMul (U.wrap amount.val)).saturatingMul
        2).saturatingAdd 100))
  | _ => .ok none

/-- One postcondition stands for itself, several for their conjunction. -/
def joinPostconditions : List Predicate → Predicate
  | [postcondition] => postcondition
  | postconditions => .all postconditions

/-- The default bounded obligation of a naturally temporal action. -/
def defaultObligation (action : Action) (idempotencyKey : String) (fortress : FortressId)
    (now : GameTick) : Result (Option ObligationSpec) := do
  match ← obligationHorizon action with
  | none => pure none
  | some horizon =>
      let terminal := joinPostconditions (defaultPostconditions action idempotencyKey fortress)
      match now.checkedAdd (min horizon maxDefaultObligationTicks) with
      | none => throw (.new .budgetExceeded
          "default obligation deadline exceeds the game-tick horizon")
      | some deadlineTick =>
          pure (some ⟨terminal, none, deadlineTick, defaultPollIntervalTicks, 1⟩)

/-- The inverse of an action whose prior state is taken to be determined by the action. -/
def defaultCompensation : Action → Option Action
  | .pause paused => some (.pause !paused)
  | .setLabor units labor enabled => some (.setLabor units labor !enabled)
  | .setBurrowMembership units burrow assigned => some (.setBurrowMembership units burrow !assigned)
  | _ => none

/-! ## Writing to a snapshot -/

def known (value : Value) (tick : GameTick) : Fact :=
  ⟨value, tick, .derived source, Digest32.zero, none⟩

def fieldValue (entity : EntityRecord) (field : String) (tick : GameTick) : Option Value :=
  (entity.fields.get? field).bind fun fact => laboratoryFactValue fact tick

/-- File a record under an identifier. -/
def putEntity (s : WorldSnapshot) (id : EntityId) (record : EntityRecord) : WorldSnapshot :=
  { s with graph := { s.graph with entities := s.graph.entities.insert id record } }

/-- One field. A value that agrees but has an untrusted provenance is written again. -/
def writeField (tick : GameTick) (written : EntityRecord × Bool) (field : String × Value) :
    EntityRecord × Bool :=
  if fieldValue written.1 field.1 tick ≠ some field.2 then
    ({ written.1 with fields := written.1.fields.insert field.1 (known field.2 tick) }, true)
  else written

/-- Write fields onto one entity, advancing its revision once if anything changed. -/
def writeFields (s : WorldSnapshot) (entityId : EntityId) (fields : List (String × Value)) :
    Result (WorldSnapshot × Bool) :=
  match s.graph.entities.get? entityId with
  | none => .error (notObserved entityId)
  | some entity =>
      let written := fields.foldl (writeField s.tick) (entity, false)
      if written.2 then
        match written.1.revision.checkedAdd 1 with
        | none => .error (.new .budgetExceeded "entity revision is exhausted")
        | some revision => .ok (putEntity s entityId { written.1 with revision }, true)
      else .ok (s, false)

def requireKind (s : WorldSnapshot) (entityId : EntityId) (kind : EntityKind) : Result Unit :=
  match s.graph.entities.get? entityId with
  | some entity =>
      if entity.kind = kind then .ok ()
      else .error (precondition ("entity " ++ toString entityId ++ " is a " ++
        entity.kind.asStr ++ ", not a " ++ kind.asStr))
  | none => .error (notObserved entityId)

def requireUnits (s : WorldSnapshot) (units : List EntityId) : Result Unit :=
  if units = [] then .error (.new .invalidRequest "action names no units")
  else units.forM fun unit => requireKind s unit .unit

def createEntity (s : WorldSnapshot) (id : EntityId) (kind : EntityKind) (label : String)
    (fields : List (String × Value)) : Result WorldSnapshot :=
  if s.graph.entities.contains id then
    .error (.new .conflict
      "the step's created entity already exists; an effect is dispatched once")
  else .ok (putEntity s id
    ⟨id, 1, 1, kind, label, .ofList (fields.map fun field => (field.1, known field.2 s.tick))⟩)

/-- The same field of every unit. -/
def writeUnits (s : WorldSnapshot) (units : List EntityId) (field : String) (value : Value) :
    Result (WorldSnapshot × Bool) :=
  units.foldlM (fun written unit => do
    let next ← writeFields written.1 unit [(field, value)]
    pure (next.1, written.2 || next.2)) (s, false)

/-! ## Effects -/

/-- What an action reads beyond the record of the world it changes. -/
structure Models where
  laboratoryWorkforceModel : WorldSnapshot → Result (Option String)
  constructionMaterialModel : WorldSnapshot → Result (Option String)
  provisionsModel : WorldSnapshot → Result (Option String)
  /-- The tracking entity of a temporal action. -/
  dispatch : WorldSnapshot → Action → String → Result (WorldSnapshot × Bool)
  /-- Whether a work order of this job is registered work. -/
  orderRegistered : String → Bool
  /-- Mark a created entity as registered work. -/
  stamp : WorldSnapshot → EntityId → Result (WorldSnapshot × Bool)

variable (models : Models)

/-- The maximums of a stockpile that an action states. -/
def stockpileMaximums (maxBins maxBarrels maxWheelbarrows : Option (U 32)) :
    List (String × Value) :=
  [(stockpileMaxBinsField, maxBins), (stockpileMaxBarrelsField, maxBarrels),
    (stockpileMaxWheelbarrowsField, maxWheelbarrows)].filterMap fun limit =>
      limit.2.map fun value => (limit.1, .u64 (U.wrap value.val))

def applyEffectInner (s : WorldSnapshot) (action : Action) (idempotencyKey : String) :
    Result (WorldSnapshot × Bool) :=
  match action with
  | .pause paused => .ok ({ s with paused }, decide (s.paused ≠ paused))
  | .setLabor units labor enabled => do
      requireUnits s units
      writeUnits s units (laborFieldPrefix ++ labor) (.bool enabled)
  | .setBurrowMembership units burrow assigned => do
      requireUnits s units
      requireKind s burrow .burrow
      writeUnits s units (burrowFieldPrefix ++ toString burrow) (.bool assigned)
  | .assignSquad units squad => do
      requireUnits s units
      requireKind s squad .squad
      writeUnits s units squadField (.entity squad)
  | .configureStockpile stockpile accepts maxBins maxBarrels maxWheelbarrows => do
      requireKind s stockpile .stockpile
      writeFields s stockpile ((stockpileAcceptsField, acceptsValue accepts) ::
        stockpileMaximums maxBins maxBarrels maxWheelbarrows)
  | .setStandingOrder key value =>
      let settings := fortressSettingsEntityId s.fortressId
      let field := (standingOrderFieldPrefix ++ key, Value.text value)
      if s.graph.entities.contains settings then do
        requireKind s settings (.other fortressSettingsKind)
        writeFields s settings [field]
      else do
        let next ← createEntity s settings (.other fortressSettingsKind) "fortress settings" [field]
        pure (next, true)
  | .extension namespaceName name _ => .error (.new .adapterRejected
      ("extension action " ++ namespaceName ++ "." ++ name ++ " has no reference semantics"))
  | temporal => models.dispatch s temporal idempotencyKey

def registeredAction : Action → Bool
  | .designateDig .. | .build .. | .placeFurniture .. => true
  | .createWorkOrder _ jobToken _ _ => models.orderRegistered jobToken
  | _ => false

/-- Apply the immediate part of an action; whether canonical state changed. The caller owns the
cursor and the state hash, and drops the shadow it works on when an action is refused. -/
def applyEffect (s : WorldSnapshot) (action : Action) (idempotencyKey : String) :
    Result (WorldSnapshot × Bool) := do
  let staffed := (← models.laboratoryWorkforceModel s).isSome
  let _ ← models.constructionMaterialModel s
  let _ ← models.provisionsModel s
  let applied ← applyEffectInner models s action idempotencyKey
  if staffed && registeredAction models action then
    let stamped ← models.stamp applied.1 (createdEntityId idempotencyKey 0)
    pure (stamped.1, applied.2 || stamped.2)
  else
    pure applied

/-- What the caller publishes: the state under a cursor of its own and a fresh hash. -/
def published (s : WorldSnapshot) (cursor : ObservationCursor) : WorldSnapshot :=
  { s with cursor }.refreshHash

end Effects

end Dfmcp
