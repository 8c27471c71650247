import Dfmcp.Intent.Plan
import Dfmcp.Library.Budget
import Dfmcp.World.Query

/-!
# Production planning

`dfmcp-intent/src/logistics.rs` and `logistics_planning.rs`: bounded, demand-driven planning over a
declared single-output recipe model. `planQuotas` expands the recipes that a shortage asks for, one
round at a time, and propagates all demand afresh in every round; `intoRequestedActions` turns a
feasible plan into gated work orders.

The loops carry a bound on their turns, and fail with an internal error when it is used up.
-/

namespace Dfmcp.Logistics

open Machine Method

def maxQuotas : Nat := 64
def maxInputs : Nat := 64
def maxTokenBytes : Nat := 256
def maxWorkOrderConditions : Nat := 64

/-! ## The declared model -/

structure ProductionRecipe where
  outputToken : String
  outputBatchSize : U 32
  inputTokens : List (String × U 32)
  workshop : BuildingKind
  jobToken : String
deriving DecidableEq

/-- Declared initial stock. A missing token means zero. -/
structure InventoryStockpile where
  itemCounts : BTreeMap String (U 32)

def InventoryStockpile.getStock (inventory : InventoryStockpile) (token : String) : U 32 :=
  (inventory.itemCounts.get? token).getD 0

/-- The recipes, each under the token of what it makes. -/
structure ProductionLogisticsCompiler where
  recipes : BTreeMap String ProductionRecipe
  keyed : ∀ token recipe, recipes.get? token = some recipe → recipe.outputToken = token

namespace ProductionLogisticsCompiler

def withoutRecipes : ProductionLogisticsCompiler := ⟨.nil, fun _ _ h => nomatch h⟩

def registerRecipe (compiler : ProductionLogisticsCompiler) (recipe : ProductionRecipe) :
    ProductionLogisticsCompiler where
  recipes := compiler.recipes.insert recipe.outputToken recipe
  keyed := fun token other h => by
    rw [OMap.get?_insert] at h
    split_ifs at h with heq
    · cases h
      exact heq.symm
    · exact compiler.keyed token other h

end ProductionLogisticsCompiler

/-- One minimum final stock. -/
structure ProductionQuota where
  itemToken : String
  minimumStock : U 32
deriving DecidableEq

/-- Limits on the reachable model. -/
structure ProductionPlanningLimits where
  maxOrders : Nat
  maxResources : Nat
  maxEdges : Nat
  maxWork : U 64
deriving DecidableEq

/-- One material balance. -/
structure ProductionRequirement where
  itemToken : String
  minimumStock : U 32
  consumedUnits : U 32
  stockUnits : U 32
  plannedUnits : U 32
  missingUnits : U 32
  surplusUnits : U 64
deriving DecidableEq

/-- A raw-resource deficit. -/
structure ProductionShortage where
  itemToken : String
  requiredUnits : U 32
  stockUnits : U 32
  missingUnits : U 32
deriving DecidableEq

/-- A recipe step. Dependencies are indices of earlier steps. -/
structure ProductionStep where
  outputToken : String
  jobToken : String
  workshop : BuildingKind
  batches : U 32
  outputUnits : U 32
  inputUnits : List (String × U 32)
  dependsOn : List Nat
  inventoryThreshold : U 32
deriving DecidableEq

structure ProductionPlan where
  requirements : List ProductionRequirement
  shortages : List ProductionShortage
  steps : List ProductionStep
  workUsed : Nat
  expansionRounds : Nat
deriving DecidableEq

/-! ## Errors and work -/

def workExhausted : DfmcpError := .new .budgetExceeded "production planning work exhausted"

def invalid (message : String) : DfmcpError := .new .invalidRequest message

def overflow (token : String) : DfmcpError :=
  .new .budgetExceeded ("production quantity overflow for '" ++ token ++ "'")

def exceeded (what : String) : DfmcpError :=
  .new .budgetExceeded ("production " ++ what ++ " limit exceeded")

def internal (message : String) : DfmcpError := .new .internalInvariantViolation message

/-- What a loop that used up its bound would report. -/
def unfinished : DfmcpError := internal "production planning loop did not finish"

def cyclic : DfmcpError :=
  .new .conflict
    "cyclic active production dependency; cyclic bootstrap schedules are not modeled"

/-- A computation that pays for its steps. -/
abbrev Paid := Method DfmcpError Work

def charge : Paid PUnit := Method.charge workExhausted workExhausted 1

/-- A value that is there, or an error. -/
def orElse {α : Type} (value : Option α) (e : DfmcpError) : Paid α :=
  Method.of (value.elim (.error e) .ok)

/-! ## Validation -/

def validateToken (token : String) : Result PUnit :=
  if token = "" ∨ strLen token > maxTokenBytes ∨ token.toList.any (·.toNat = 0) then
    .error (invalid "production strings must contain 1..256 UTF-8 bytes without NUL")
  else .ok ⟨⟩

def validateConditionToken (token : String) : Result PUnit := do
  validateToken token
  if token.toList.any isControl then
    .error (invalid "production condition tokens cannot contain control characters")
  else .ok ⟨⟩

def validateLimits (limits : ProductionPlanningLimits) : Result Unit :=
  if limits.maxOrders = 0 ∨ limits.maxOrders > 250 ∨ limits.maxResources = 0 ∨
      limits.maxResources > 4096 ∨ limits.maxEdges = 0 ∨ limits.maxEdges > 8192 ∨
      limits.maxWork.val > 10000000 then
    .error (invalid "production planning limits exceed the fixed model bounds")
  else .ok ()

def checkWorkshop : BuildingKind → Result PUnit
  | .workshop name | .furnace name | .furniture name | .construction name | .trap name
  | .custom name => validateToken name
  | .farmPlot | .bridge | .well => .ok ⟨⟩

/-- The inputs by token, repeated ones added up. -/
def mergeInputs : List (String × U 32) → BTreeMap String (U 32) → Paid (BTreeMap String (U 32))
  | [], inputs => pure inputs
  | (token, amount) :: rest, inputs => do
      charge
      Method.of (validateToken token)
      rejectIf (amount = 0) (invalid "production input quantities must be positive")
      let total ← orElse (U.checkedAdd ((inputs.get? token).getD 0) amount) (overflow token)
      mergeInputs rest (inputs.insert token total)

/-- A job token leaves room for `Auto-JIT: ` before it. -/
def normalizedRecipe (recipe : ProductionRecipe) : Paid ProductionRecipe := do
  charge
  Method.of (validateToken recipe.outputToken)
  Method.of (validateToken recipe.jobToken)
  rejectIf (strLen recipe.jobToken > maxTokenBytes - 10)
    (invalid "production job token exceeds the work-order name budget")
  Method.of (checkWorkshop recipe.workshop)
  rejectIf (recipe.outputBatchSize = 0 ∨ recipe.inputTokens.length > maxInputs)
    (invalid "production recipe requires a positive yield and at most 64 inputs")
  let inputs ← mergeInputs recipe.inputTokens .nil
  pure { recipe with inputTokens := inputs.toList }

/-! ## The dependency order -/

def lostInput : DfmcpError := internal "production graph lost an input"

def countNodes : List String → BTreeMap String Nat → Paid (BTreeMap String Nat)
  | [], incoming => pure incoming
  | token :: rest, incoming => do
      charge
      countNodes rest (incoming.insert token 0)

def countInputs : List (String × U 32) → BTreeMap String Nat → Paid (BTreeMap String Nat)
  | [], incoming => pure incoming
  | (input, _) :: rest, incoming => do
      charge
      let count ← orElse (incoming.get? input) lostInput
      countInputs rest (incoming.insert input (count + 1))

def countRecipes : List ProductionRecipe → BTreeMap String Nat → Paid (BTreeMap String Nat)
  | [], incoming => pure incoming
  | recipe :: rest, incoming => do
      let incoming ← countInputs recipe.inputTokens incoming
      countRecipes rest incoming

/-- What the loop of the order carries along. -/
structure Ordering where
  incoming : BTreeMap String Nat
  ready : BTreeSet String
  ordered : List String

def releaseInputs : List (String × U 32) → Ordering → Paid Ordering
  | [], o => pure o
  | (input, _) :: rest, o => do
      charge
      let count ← orElse (o.incoming.get? input) lostInput
      rejectIf (count = 0) (internal "production indegree underflow")
      releaseInputs rest
        { o with
          incoming := o.incoming.insert input (count - 1)
          ready := if count - 1 = 0 then o.ready.insert input () else o.ready }

/-- List the first token that is ready, until none is. -/
def drain (active : BTreeMap String ProductionRecipe) : Nat → Ordering → Paid (List String)
  | bound, o =>
      match o.ready.keys, bound with
      | [], _ => pure o.ordered
      | _ :: _, 0 => throw unfinished
      | token :: _, bound + 1 => do
          charge
          let released ← releaseInputs (((active.get? token).map (·.inputTokens)).getD [])
            { o with ready := o.ready.erase token }
          drain active bound { released with ordered := released.ordered ++ [token] }

/-- Consumers before suppliers. Only recipes that require production contribute edges. -/
def topologicalOrder (nodes : BTreeSet String) (active : BTreeMap String ProductionRecipe) :
    Paid (List String) := do
  let incoming ← countNodes nodes.keys .nil
  let incoming ← countRecipes active.values incoming
  let ordered ← drain active nodes.size
    ⟨incoming, (incoming.filter fun _ count => count = 0).mapValues fun _ _ => (), []⟩
  rejectIf (ordered.length ≠ nodes.size) cyclic
  pure ordered

/-! ## Demand -/

/-- Rust's `u32::div_ceil`, for a positive divisor. -/
def divCeil (a b : U 32) : U 32 := U.wrap ((a.val + b.val - 1) / b.val)

/-- What the demand of a round carries along. -/
structure Demand where
  required : BTreeMap String (U 32)
  batches : BTreeMap String (U 32)
  pending : List String

def addDemand (count : U 32) :
    List (String × U 32) → BTreeMap String (U 32) → Paid (BTreeMap String (U 32))
  | [], required => pure required
  | (input, amount) :: rest, required => do
      charge
      let additional ← orElse (amount.checkedMul count) (overflow input)
      let total ← orElse (U.checkedAdd ((required.get? input).getD 0) additional) (overflow input)
      addDemand count rest (required.insert input total)

/-- The demand of a token that has a recipe of its own. -/
def produce (token : String) (shortage : U 32) (recipe : ProductionRecipe) (demand : Demand) :
    Paid Demand := do
  let count := divCeil shortage recipe.outputBatchSize
  let _ ← orElse (count.checkedMul recipe.outputBatchSize) (overflow token)
  let required ← addDemand count recipe.inputTokens demand.required
  pure { demand with required := required, batches := demand.batches.insert token count }

def propagate (compiler : ProductionLogisticsCompiler) (inventory : InventoryStockpile)
    (active : BTreeMap String ProductionRecipe) : List String → Demand → Paid Demand
  | [], demand => pure demand
  | token :: rest, demand => do
      charge
      let shortage := U.saturatingSub ((demand.required.get? token).getD 0)
        (inventory.getStock token)
      if shortage = 0 then propagate compiler inventory active rest demand
      else
        match active.get? token with
        | none =>
            propagate compiler inventory active rest
              (if compiler.recipes.contains token then
                { demand with pending := demand.pending ++ [token] }
              else demand)
        | some recipe => do
            let demand ← produce token shortage recipe demand
            propagate compiler inventory active rest demand

/-! ## The plan -/

/-- The model that was expanded so far. -/
structure Expansion where
  nodes : BTreeSet String
  active : BTreeMap String ProductionRecipe
  edgeCount : Nat

/-- A model that needs no further recipe. -/
structure ExpandedModel where
  order : List String
  required : BTreeMap String (U 32)
  batches : BTreeMap String (U 32)
  goals : BTreeMap String (U 32)
  active : BTreeMap String ProductionRecipe
  rounds : Nat

/-- The number of batches of a token and its recipe. -/
def ExpandedModel.made (model : ExpandedModel) (token : String) :
    Option (U 32 × ProductionRecipe) :=
  (model.batches.get? token).bind fun count => (model.active.get? token).map fun recipe =>
    (count, recipe)

def ExpandedModel.planned (model : ExpandedModel) (token : String) : Paid (U 32) :=
  match model.made token with
  | some (count, recipe) => orElse (count.checkedMul recipe.outputBatchSize) (overflow token)
  | none => pure 0

def ExpandedModel.requirements (model : ExpandedModel) (inventory : InventoryStockpile) :
    List (String × U 32) → Paid (List ProductionRequirement)
  | [] => pure []
  | (token, total) :: rest => do
      charge
      let minimum := (model.goals.get? token).getD 0
      let stock := inventory.getStock token
      let planned ← model.planned token
      let available := stock.val + planned.val
      let missing ← orElse (U.tryFrom (total.val - available)) (overflow token)
      let more ← model.requirements inventory rest
      pure ({
        itemToken := token
        minimumStock := minimum
        consumedUnits := total.saturatingSub minimum
        stockUnits := stock
        plannedUnits := planned
        missingUnits := missing
        surplusUnits := U.wrap (available - total.val) } :: more)

/-- The shortage of a requirement that is not covered. -/
def shortageOf (required : BTreeMap String (U 32)) (requirement : ProductionRequirement) :
    Option ProductionShortage :=
  if requirement.missingUnits.val > 0 then
    some {
      itemToken := requirement.itemToken
      requiredUnits := (required.get? requirement.itemToken).getD 0
      stockUnits := requirement.stockUnits
      missingUnits := requirement.missingUnits }
  else none

/-- What the steps so far have built. -/
structure Schedule where
  indices : BTreeMap String Nat
  steps : List ProductionStep

def stepInputs (count : U 32) (indices : BTreeMap String Nat) :
    List (String × U 32) → Paid (List (String × U 32) × List Nat)
  | [] => pure ([], [])
  | (input, amount) :: rest => do
      charge
      let units ← orElse (amount.checkedMul count) (overflow input)
      let more ← stepInputs count indices rest
      pure ((input, units) :: more.1, (indices.get? input).toList ++ more.2)

def ExpandedModel.step (model : ExpandedModel) (token : String) (count : U 32)
    (schedule : Schedule) : Paid ProductionStep := do
  let recipe ← orElse (model.active.get? token) (internal "production recipe disappeared")
  let inputs ← stepInputs count schedule.indices recipe.inputTokens
  let threshold ← orElse (model.required.get? token) (internal "production requirement disappeared")
  let units ← orElse (count.checkedMul recipe.outputBatchSize) workExhausted
  pure {
    outputToken := token
    jobToken := recipe.jobToken
    workshop := recipe.workshop
    batches := count
    outputUnits := units
    inputUnits := inputs.1
    dependsOn := inputs.2.insertionSort (· ≤ ·)
    inventoryThreshold := threshold }

def ExpandedModel.schedule (model : ExpandedModel) : List String → Schedule → Paid Schedule
  | [], schedule => pure schedule
  | token :: rest, schedule => do
      charge
      match model.batches.get? token with
      | none => model.schedule rest schedule
      | some count => do
          let step ← model.step token count schedule
          model.schedule rest
            ⟨schedule.indices.insert token schedule.steps.length, schedule.steps ++ [step]⟩

def ExpandedModel.finish (model : ExpandedModel) (inventory : InventoryStockpile) :
    Paid ProductionPlan := do
  let requirements ← model.requirements inventory model.required.toList
  let schedule ← model.schedule model.order.reverse ⟨.nil, []⟩
  let work ← get
  pure {
    requirements := requirements
    shortages := requirements.filterMap (shortageOf model.required)
    steps := schedule.steps
    workUsed := work.used
    expansionRounds := model.rounds }

/-! ## Rounds -/

def addInputs (limits : ProductionPlanningLimits) :
    List (String × U 32) → BTreeSet String → Paid (BTreeSet String)
  | [], nodes => pure nodes
  | (input, _) :: rest, nodes => do
      charge
      rejectIf (nodes.contains input = false ∧ nodes.size ≥ limits.maxResources)
        (exceeded "resource")
      addInputs limits rest (nodes.insert input ())

def activate (compiler : ProductionLogisticsCompiler) (limits : ProductionPlanningLimits) :
    List String → Expansion → Paid Expansion
  | [], e => pure e
  | token :: rest, e => do
      charge
      rejectIf (e.active.size ≥ limits.maxOrders) (exceeded "order")
      let recipe ← orElse (compiler.recipes.get? token) (internal "production recipe disappeared")
      let recipe ← normalizedRecipe recipe
      rejectIf (e.edgeCount + recipe.inputTokens.length > limits.maxEdges) (exceeded "edge")
      let nodes ← addInputs limits recipe.inputTokens e.nodes
      activate compiler limits rest
        ⟨nodes, e.active.insert token recipe, e.edgeCount + recipe.inputTokens.length⟩

/-- The demand of a round over the recipes that are active, in the order of their tokens. -/
def roundDemand (compiler : ProductionLogisticsCompiler) (inventory : InventoryStockpile)
    (goals : BTreeMap String (U 32)) (e : Expansion) : Paid (List String × Demand) := do
  charge
  let order ← topologicalOrder e.nodes e.active
  let demand ← propagate compiler inventory e.active order ⟨goals, .nil, []⟩
  pure (order, demand)

/-- Rounds, until no recipe is pending. -/
def expand (compiler : ProductionLogisticsCompiler) (inventory : InventoryStockpile)
    (limits : ProductionPlanningLimits) (goals : BTreeMap String (U 32)) :
    Nat → Nat → Expansion → Paid ProductionPlan
  | 0, _, _ => throw unfinished
  | bound + 1, rounds, e => do
      let found ← roundDemand compiler inventory goals e
      if found.2.pending = [] then
        ExpandedModel.finish
          ⟨found.1, found.2.required, found.2.batches, goals, e.active, rounds + 1⟩ inventory
      else do
        let e ← activate compiler limits found.2.pending e
        expand compiler inventory limits goals bound (rounds + 1) e

def gatherGoals : List ProductionQuota → BTreeMap String (U 32) → Paid (BTreeMap String (U 32))
  | [], goals => pure goals
  | quota :: rest, goals => do
      charge
      Method.of (validateToken quota.itemToken)
      gatherGoals rest (goals.insert quota.itemToken
        (max ((goals.get? quota.itemToken).getD 0) quota.minimumStock))

/-- The planning of a request whose limits are valid. -/
def plan (compiler : ProductionLogisticsCompiler) (quotas : List ProductionQuota)
    (inventory : InventoryStockpile) (limits : ProductionPlanningLimits) : Paid ProductionPlan := do
  rejectIf (quotas = [] ∨ quotas.length > maxQuotas)
    (invalid "production planning requires 1..64 quotas")
  let goals ← gatherGoals quotas .nil
  rejectIf (goals.size > limits.maxResources) (exceeded "resource")
  expand compiler inventory limits goals (limits.maxOrders + 1) 0
    ⟨goals.mapValues fun _ _ => (), .nil, 0⟩

/-- Plan simultaneous minimum final stocks with complete material balances. -/
def planQuotas (compiler : ProductionLogisticsCompiler) (quotas : List ProductionQuota)
    (inventory : InventoryStockpile) (limits : ProductionPlanningLimits) : Result ProductionPlan :=
  match validateLimits limits with
  | .error e => .error e
  | .ok _ => (exec (plan compiler quotas inventory limits) ⟨0, limits.maxWork.val⟩).1

end Dfmcp.Logistics
