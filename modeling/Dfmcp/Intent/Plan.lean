import Dfmcp.Intent.Action
import Dfmcp.Core.Roles
import Dfmcp.World.Normal

/-!
# Prepared plans

`plan.rs`: the steps of a prepared plan, with the obligations that its temporal steps carry.
-/

namespace Dfmcp

open Machine

abbrev IntentId := U 128
abbrev ActionId := U 128
abbrev StepId := U 32

/-- `capability_code`, the order of declaration. -/
def capabilityCode : Capability → UInt8
  | .observe => 0
  | .query => 1
  | .plan => 2
  | .designate => 3
  | .construct => 4
  | .configureLabor => 5
  | .configureProduction => 6
  | .configureLogistics => 7
  | .configureMilitary => 8
  | .controlClock => 9
  | .checkpoint => 10
  | .restore => 11
  | .extension => 12
  | .diagnosticRaw => 13
  | .doctor => 14
  | .repairPlan => 15
  | .repairApply => 16
  | .admin => 17

theorem capabilityCode_injective : Function.Injective capabilityCode := by
  intro a b h
  cases a <;> cases b <;> first | rfl | exact absurd h (by decide)

/-- Capabilities are ordered as they are declared. -/
instance : LinearOrder Capability :=
  LinearOrder.lift' (fun c => (capabilityCode c).toNat) fun _ _ h =>
    capabilityCode_injective (UInt8.toNat_inj.1 h)

structure ObligationSpec where
  terminal : Predicate
  failure : Option Predicate
  deadlineTick : GameTick
  pollIntervalTicks : U 64
  stableForObservations : U 32
deriving DecidableEq

/-- An action that is proposed, and what it depends on among its companions. -/
structure RequestedAction where
  action : Action
  preconditions : List Predicate
  postconditions : List Predicate
  compensation : Option Action
  obligation : Option ObligationSpec
  dependsOn : List (U 32)
deriving DecidableEq

structure PlanStep where
  id : StepId
  action : Action
  preconditions : List Predicate
  postconditions : List Predicate
  compensation : Option Action
  obligation : Option ObligationSpec
  dependsOn : List StepId
  risk : RiskTier
  requiredCapability : Capability
  idempotencyKey : String
deriving DecidableEq

structure PreparedPlan where
  id : PlanId
  intentId : IntentId
  anchor : StateAnchor
  summary : String
  terminalCondition : Predicate
  steps : List PlanStep
  maxRisk : RiskTier
  requiredCapabilities : BTreeSet Capability
  requiresCheckpoint : Bool
  expiresAtTick : GameTick
  digest : Digest32
deriving DecidableEq

end Dfmcp
