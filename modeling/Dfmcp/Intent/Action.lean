import Dfmcp.Core.Basic
import Dfmcp.Library.OrderedMap

/-!
# Actions

`action.rs`: what a plan can propose to do to the fortress. The encodings of an action that the
plans of the repository need are with the modules that use them; this module has the data.
-/

namespace Dfmcp

open Machine

inductive DigMode where
  | mine
  | channel
  | upStair
  | downStair
  | upDownStair
  | ramp
  | removeConstruction
deriving DecidableEq

inductive BuildingKind where
  | workshop (name : String)
  | furnace (name : String)
  | furniture (name : String)
  | construction (name : String)
  | trap (name : String)
  | farmPlot
  | bridge
  | well
  | custom (name : String)
deriving DecidableEq

/-- The item-backed furniture of the reference laboratory. -/
inductive FurnitureKind where
  | bed
  | door
  | table
  | chair
deriving DecidableEq

structure MaterialSelector where
  requiredTokens : BTreeSet String
  forbiddenTokens : BTreeSet String
  preferNearest : Bool
  reserveCount : U 32
deriving DecidableEq

inductive WorkOrderCondition where
  | itemCountBelow (itemToken : String) (threshold : U 32)
  | materialAvailable (materialToken : String) (minimum : U 32)
  | completedOrder (orderName : String)
deriving DecidableEq

inductive Action where
  | pause (paused : Bool)
  | designateDig (area : MapCuboid) (mode : DigMode)
  | build (kind : BuildingKind) (location : MapCoord) (footprint : MapCuboid)
      (material : MaterialSelector)
  | setLabor (units : List EntityId) (labor : String) (enabled : Bool)
  | createWorkOrder (name jobToken : String) (amount : U 32) (conditions : List WorkOrderCondition)
  | configureStockpile (stockpile : EntityId) (accepts : BTreeSet String)
      (maxBins maxBarrels maxWheelbarrows : Option (U 32))
  | assignSquad (units : List EntityId) (squad : EntityId)
  | setBurrowMembership (units : List EntityId) (burrow : EntityId) (assigned : Bool)
  | setStandingOrder (key value : String)
  | extension (namespaceName name : String) (parameters : BTreeMap String String)
  /-- Allocate one item to one tile. -/
  | placeFurniture (kind : FurnitureKind) (item : EntityId) (location : MapCoord)
deriving DecidableEq

/-! ## Normal forms -/

def normalizedIds (ids : List EntityId) : List EntityId :=
  (ids.insertionSort (· ≤ ·)).destutter (· ≠ ·)

/-- `format!("{n:010}")`: ten decimal digits, which every `u32` has room in. -/
def digits10 (n : U 32) : String :=
  String.ofList ((List.range 10).map fun i => Nat.digitChar (n.val / 10 ^ (9 - i) % 10))

def conditionKey : WorkOrderCondition → String
  | .itemCountBelow itemToken threshold => "0:" ++ itemToken ++ ":" ++ digits10 threshold
  | .materialAvailable materialToken minimum => "1:" ++ materialToken ++ ":" ++ digits10 minimum
  | .completedOrder orderName => "2:" ++ orderName

/-- Conditions are conjunctive: neither their order nor a repetition matters. -/
def normalizedConditions (conditions : List WorkOrderCondition) : List WorkOrderCondition :=
  (conditions.insertionSort fun a b => conditionKey a ≤ conditionKey b).destutter (· ≠ ·)

def Action.normalized : Action → Action
  | .setLabor units labor enabled => .setLabor (normalizedIds units) labor enabled
  | .assignSquad units squad => .assignSquad (normalizedIds units) squad
  | .setBurrowMembership units burrow assigned =>
      .setBurrowMembership (normalizedIds units) burrow assigned
  | .createWorkOrder name jobToken amount conditions =>
      .createWorkOrder name jobToken amount (normalizedConditions conditions)
  | other => other

end Dfmcp
