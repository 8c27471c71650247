import Dfmcp.Intent.Logistics

/-!
# Production proposals

`logistics_planning.rs`: a feasible plan becomes work orders, each with the conditions under which
one more batch of it may be run. The names of the orders carry a digest of the whole plan.
-/

namespace Dfmcp.Logistics

open Machine

def proposalInvariant : DfmcpError :=
  internal "production proposal no longer matches its validated normalized model"

/-- A value that is there, or an error. -/
def demanded {α : Type} (value : Option α) (e : DfmcpError) : Result α := value.elim (.error e) .ok

def putProposalText (text : String) : Bytes := beBytes 8 (strLen text) ++ utf8 text

def putProposalWorkshop : BuildingKind → Bytes
  | .workshop name => 0 :: putProposalText name
  | .furnace name => 1 :: putProposalText name
  | .furniture name => 2 :: putProposalText name
  | .construction name => 3 :: putProposalText name
  | .trap name => 4 :: putProposalText name
  | .farmPlot => [5]
  | .bridge => [6]
  | .well => [7]
  | .custom name => 8 :: putProposalText name

def ProductionRequirement.encode (requirement : ProductionRequirement) : Bytes :=
  putProposalText requirement.itemToken ++
    ([requirement.minimumStock, requirement.consumedUnits, requirement.stockUnits,
      requirement.plannedUnits, requirement.missingUnits].flatMap fun quantity =>
        beBytes 4 quantity.val) ++
    beBytes 8 requirement.surplusUnits.val

def ProductionPlan.requireFeasible (plan : ProductionPlan) : Result Unit :=
  match plan.shortages with
  | [] => .ok ()
  | shortage :: _ => .error (.new .preconditionsFailed
      (toString plan.shortages.length ++ " production resources are short; '" ++
        shortage.itemToken ++ "' requires " ++ toString shortage.missingUnits.val ++
        " additional modeled units"))

/-- The inputs of a step, each with its material, and which resource each material stands for. -/
def digestInputs (bindings : BTreeMap String String) (batches : U 32) :
    List (String × U 32) → BTreeMap String String → Result (Bytes × BTreeMap String String)
  | [], owners => .ok ([], owners)
  | (resource, units) :: rest, owners => do
      if units = 0 ∨ units.val % batches.val ≠ 0 then .error proposalInvariant
      else do
        let material ← demanded (bindings.get? resource)
          (invalid "production input requires an explicit material-token binding")
        if ∃ prior ∈ owners.get? material, prior ≠ resource then
          .error (invalid
            "distinct production resources cannot share one material-token binding")
        else do
          let more ← digestInputs bindings batches rest (owners.insert material resource)
          .ok (putProposalText resource ++ putProposalText material ++ beBytes 4 units.val ++
            more.1, more.2)

def digestSteps (bindings : BTreeMap String String) :
    Nat → List ProductionStep → BTreeMap String String → Result Bytes
  | _, [], _ => .ok []
  | index, step :: rest, owners => do
      if 1 + step.inputUnits.length + step.dependsOn.length > maxWorkOrderConditions then
        .error (.new .budgetExceeded
          "production proposal exceeds the 64-condition bound; no input or dependency may be omitted")
      else do
        validateConditionToken step.outputToken
        if step.batches = 0 then .error proposalInvariant
        else do
          let inputs ← digestInputs bindings step.batches step.inputUnits owners
          if step.dependsOn.any (· ≥ index) then .error proposalInvariant
          else do
            let more ← digestSteps bindings (index + 1) rest inputs.2
            .ok (putProposalText step.outputToken ++ putProposalText step.jobToken ++
              putProposalWorkshop step.workshop ++ beBytes 4 step.batches.val ++
              beBytes 4 step.outputUnits.val ++ beBytes 4 step.inventoryThreshold.val ++
              beBytes 8 step.inputUnits.length ++ inputs.1 ++ beBytes 8 step.dependsOn.length ++
              (step.dependsOn.flatMap fun dependency => beBytes 8 dependency) ++ more)

/-- The domain of the digest, with its final NUL. -/
def proposalDomain : Bytes := utf8 "dfmcp-production-order-proposals/1" ++ [0]

def ProductionPlan.proposalDigest (plan : ProductionPlan) (namespaceDigest : Digest32)
    (bindings : BTreeMap String String) : Result Digest32 := do
  let steps ← digestSteps bindings 0 plan.steps .nil
  .ok (Digest32.ofBytes (proposalDomain ++ namespaceDigest.bytes ++
    beBytes 8 plan.requirements.length ++
    plan.requirements.flatMap ProductionRequirement.encode ++ beBytes 8 plan.steps.length ++ steps))

def validateBindings : List (String × String) → Result Unit
  | [] => .ok ()
  | (resource, material) :: rest => do
      validateConditionToken resource
      validateConditionToken material
      validateBindings rest

/-- The name of the order of a step. -/
def orderName (digest : Digest32) (index : Nat) : String :=
  "Auto-JIT/1:" ++ digest.toHex ++ ":" ++ toString index

/-- One batch's input of each material must be there. -/
def inputConditions (bindings : BTreeMap String String) (batches : U 32) :
    List (String × U 32) → Result (List WorkOrderCondition)
  | [] => .ok []
  | (input, units) :: rest => do
      let material ← demanded (bindings.get? input) proposalInvariant
      let more ← inputConditions bindings batches rest
      .ok (.materialAvailable material (U.wrap (units.val / batches.val)) :: more)

/-- The dependencies of a step among `count` steps. -/
def dependencyConditions (digest : Digest32) (count : Nat) :
    List Nat → Result (List WorkOrderCondition × List (U 32))
  | [] => .ok ([], [])
  | dependency :: rest => do
      if count ≤ dependency then .error proposalInvariant
      else do
        let index ← demanded (U.tryFrom dependency) proposalInvariant
        let more ← dependencyConditions digest count rest
        .ok (.completedOrder (orderName digest dependency) :: more.1, index :: more.2)

def requestStep (bindings : BTreeMap String String) (digest : Digest32) (count index : Nat)
    (step : ProductionStep) : Result RequestedAction := do
  let inputs ← inputConditions bindings step.batches step.inputUnits
  let dependencies ← dependencyConditions digest count step.dependsOn
  .ok {
    action := (Action.createWorkOrder (orderName digest index) step.jobToken step.batches
      (.itemCountBelow step.outputToken step.inventoryThreshold :: inputs ++
        dependencies.1)).normalized
    preconditions := []
    postconditions := []
    compensation := none
    obligation := none
    dependsOn := dependencies.2 }

def requestSteps (bindings : BTreeMap String String) (digest : Digest32) (count : Nat) :
    Nat → List ProductionStep → Result (List RequestedAction)
  | _, [] => .ok []
  | index, step :: rest => do
      let action ← requestStep bindings digest count index step
      let more ← requestSteps bindings digest count (index + 1) rest
      .ok (action :: more)

/-- Lower a feasible plan to gated work orders. -/
def ProductionPlan.intoRequestedActions (plan : ProductionPlan) (namespaceDigest : Digest32)
    (bindings : BTreeMap String String) : Result (List RequestedAction) := do
  plan.requireFeasible
  if namespaceDigest = .zero then
    .error (invalid "production proposal requires a nonzero source namespace")
  else if bindings.size > 4096 then
    .error (.new .budgetExceeded
      "production material bindings exceed the 4096-resource bound")
  else do
    validateBindings bindings.toList
    let digest ← plan.proposalDigest namespaceDigest bindings
    requestSteps bindings digest plan.steps.length 0 plan.steps

/-- The proposals without the dependency graph and the input gates. -/
def ProductionPlan.intoWorkOrders (plan : ProductionPlan) : Result (List Action) := do
  plan.requireFeasible
  .ok (plan.steps.map fun step => .createWorkOrder ("Auto-JIT: " ++ step.jobToken) step.jobToken
    step.batches [.itemCountBelow step.outputToken step.inventoryThreshold])

end Dfmcp.Logistics
