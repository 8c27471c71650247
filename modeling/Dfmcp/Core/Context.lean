import Dfmcp.Core.Roles

/-!
# Operation contexts

`WorkBudget` and `OperationContext` of `model.rs`: who asks, under which grants, and whether a
capability is theirs to use. A grant with a limited number of uses never authorizes an operation
that does not consume a use. A method of the source that changes its object returns the object here.
-/

namespace Dfmcp

open Machine

abbrev RequestId := U 128

/-! ## Durations, in nanoseconds -/

def millis (n : Nat) : Nat := n * 1000000
def seconds (n : Nat) : Nat := n * 1000000000

/-! ## Budgets -/

structure WorkBudget where
  maxWallMillis : U 64
  maxGameTicks : U 64
  maxEntities : U 32
  maxBytes : U 64
  maxOutputTokens : U 32
  maxActions : U 32
deriving DecidableEq

namespace WorkBudget

def conservativeDefault : WorkBudget := ⟨2000, 10000, 2000, 4 * 1024 * 1024, 1500, 64⟩

def validate (budget : WorkBudget) : Result Unit :=
  if budget.maxWallMillis = 0 ∨ budget.maxEntities = 0 ∨ budget.maxBytes = 0 ∨
      budget.maxOutputTokens = 0 ∨ budget.maxActions = 0 then
    .error (.new .invalidRequest
      "wall-time, entity, byte, output-token, and action budget dimensions must be nonzero")
  else .ok ()

end WorkBudget

structure OperationContext where
  sessionId : SessionId
  requestId : RequestId
  anchor : StateAnchor
  budget : WorkBudget
  grants : List CapabilityGrant
  cancellationRequested : Bool
deriving DecidableEq

namespace CapabilityGrant

def isLimited (grant : CapabilityGrant) : Bool := grant.remainingUses.isSome

/-- The outcome, and the grant afterwards. -/
def consumeOneUse (grant : CapabilityGrant) : Result Unit × CapabilityGrant :=
  match grant.remainingUses with
  | none => (.ok (), grant)
  | some remaining =>
      match U.checkedSub remaining 1 with
      | none => (.error (.new .capabilityDenied
          "limited capability grant has no remaining uses"), grant)
      | some next => (.ok (), { grant with remainingUses := some next })

end CapabilityGrant

namespace OperationContext

def validateAuthorizationRequest (context : OperationContext) : Result Unit :=
  if context.cancellationRequested then
    .error ((DfmcpError.new .cancellationRequested "operation is cancelled").setRetryable false)
  else context.budget.validate

/-- An unlimited grant that allows the request decides it; a limited one only changes the text of
the refusal. -/
def authorize (context : OperationContext) (capability : Capability) (risk : RiskTier)
    (entityIds : List EntityId) (mapArea : Option MapCuboid) : Result Unit := do
  context.validateAuthorizationRequest
  let allowing := context.grants.filter fun grant =>
    grant.allows capability risk context.anchor.tick context.anchor.fortressId entityIds mapArea
  if allowing.any fun grant => !grant.isLimited then pure ()
  else if allowing.any CapabilityGrant.isLimited then
    throw (.new .capabilityDenied ("capability " ++ capability.asStr ++ " is represented only " ++
      "by a limited-use grant; call authorize_and_consume so the use cannot be replayed"))
  else
    throw (.new .capabilityDenied ("capability " ++ capability.asStr ++
      " is not granted for risk tier " ++ risk.asStr ++ " and requested scope"))

/-- Charge the first grant that allows the request. -/
def chargeFirst (allows : CapabilityGrant → Bool) (refusal : DfmcpError) :
    List CapabilityGrant → Result Unit × List CapabilityGrant
  | [] => (.error refusal, [])
  | grant :: rest =>
      if allows grant then (grant.consumeOneUse.1, grant.consumeOneUse.2 :: rest)
      else ((chargeFirst allows refusal rest).1, grant :: (chargeFirst allows refusal rest).2)

/-- The outcome, and the context afterwards. -/
def authorizeAndConsume (context : OperationContext) (capability : Capability) (risk : RiskTier)
    (entityIds : List EntityId) (mapArea : Option MapCuboid) : Result Unit × OperationContext :=
  match context.validateAuthorizationRequest with
  | .error e => (.error e, context)
  | .ok () =>
      let refusal : DfmcpError := .new .capabilityDenied ("capability " ++ capability.asStr ++
        " is not granted for risk tier " ++ risk.asStr ++ " and requested scope")
      let outcome := chargeFirst (fun grant => grant.allows capability risk context.anchor.tick
        context.anchor.fortressId entityIds mapArea) refusal context.grants
      (outcome.1, { context with grants := outcome.2 })

end OperationContext

end Dfmcp
