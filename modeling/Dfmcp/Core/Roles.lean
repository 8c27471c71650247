import Dfmcp.Core.Basic
import Dfmcp.Library.OrderedMap

/-!
# Roles and delegation

`roles.rs`, with the capability grants of `model.rs`: what a grant allows, what a role grants, and
the manager that issues delegation tokens and validates them. A token is authentic when the
manager's registry holds exactly it; the digest it carries is an integrity check over its fields.
-/

namespace Dfmcp

open Machine

/-! ## Grants -/

inductive RiskTier where
  | readOnly
  | reversible
  | guarded
  | irreversible
deriving DecidableEq

namespace RiskTier

def asStr : RiskTier → String
  | .readOnly => "read_only"
  | .reversible => "reversible"
  | .guarded => "guarded"
  | .irreversible => "irreversible"

/-- Tiers are ordered as they are declared. -/
def rank : RiskTier → Nat
  | .readOnly => 0
  | .reversible => 1
  | .guarded => 2
  | .irreversible => 3

instance : LE RiskTier := ⟨fun a b => a.rank ≤ b.rank⟩

instance (a b : RiskTier) : Decidable (a ≤ b) := inferInstanceAs (Decidable (a.rank ≤ b.rank))

end RiskTier

inductive Capability where
  | observe
  | query
  | plan
  | designate
  | construct
  | configureLabor
  | configureProduction
  | configureLogistics
  | configureMilitary
  | controlClock
  | checkpoint
  | restore
  | extension
  | diagnosticRaw
  | doctor
  | repairPlan
  | repairApply
  | admin
deriving DecidableEq

def Capability.asStr : Capability → String
  | .observe => "observe"
  | .query => "query"
  | .plan => "plan"
  | .designate => "designate"
  | .construct => "construct"
  | .configureLabor => "configure_labor"
  | .configureProduction => "configure_production"
  | .configureLogistics => "configure_logistics"
  | .configureMilitary => "configure_military"
  | .controlClock => "control_clock"
  | .checkpoint => "checkpoint"
  | .restore => "restore"
  | .extension => "extension"
  | .diagnosticRaw => "diagnostic_raw"
  | .doctor => "doctor"
  | .repairPlan => "repair_plan"
  | .repairApply => "repair_apply"
  | .admin => "admin"

/-- A scope; an absent restriction, or an empty set of entities, permits everything. The number of
entities is a machine word, as the length of any collection is. -/
structure CapabilityScope where
  fortressId : Option FortressId
  entityIds : BTreeSet EntityId
  mapArea : Option MapCuboid
  fits : entityIds.size < 2 ^ 64
deriving DecidableEq

namespace CapabilityScope

theorem nil_fits : (.nil : BTreeSet EntityId).size < 2 ^ 64 := by decide

/-- `CapabilityScope::default()`: no restriction. -/
def unrestricted : CapabilityScope := ⟨none, .nil, none, nil_fits⟩

def permits (scope : CapabilityScope) (fortressId : FortressId) (entityIds : List EntityId)
    (mapArea : Option MapCuboid) : Bool :=
  if scope.fortressId.any (· ≠ fortressId) then false
  else if scope.entityIds.size ≠ 0 ∧
      (entityIds = [] ∨ entityIds.any fun entityId => !scope.entityIds.contains entityId) then false
  else match scope.mapArea, mapArea with
    | some allowed, some requested => allowed.containsCuboid requested
    | some _, none => false
    | none, _ => true

end CapabilityScope

structure CapabilityGrant where
  capability : Capability
  scope : CapabilityScope
  maxRisk : RiskTier
  expiresAtTick : Option GameTick
  remainingUses : Option (U 32)
deriving DecidableEq

def CapabilityGrant.allows (grant : CapabilityGrant) (capability : Capability) (risk : RiskTier)
    (tick : GameTick) (fortressId : FortressId) (entityIds : List EntityId)
    (mapArea : Option MapCuboid) : Bool :=
  let kindMatches := grant.capability = capability || grant.capability = .admin
  let notExpired := match grant.expiresAtTick with
    | some expiresAt => decide (tick ≤ expiresAt)
    | none => true
  let usesAvailable := match grant.remainingUses with
    | some remaining => decide (remaining > 0)
    | none => true
  kindMatches && risk ≤ grant.maxRisk && notExpired && usesAvailable &&
    grant.scope.permits fortressId entityIds mapArea

/-! ## Roles -/

inductive SwarmRole where
  | expeditionLeader
  | miningOverseer
  | productionManager
  | militiaCommander
  | chiefMedicalDwarf
  | timeKeeper
  | custom (name : String)
deriving DecidableEq

/-- A grant of a capability with no restriction but its risk. -/
def standingGrant (capability : Capability) (maxRisk : RiskTier) : CapabilityGrant :=
  ⟨capability, .unrestricted, maxRisk, none, none⟩

def SwarmRole.defaultGrants (role : SwarmRole) : List CapabilityGrant :=
  [standingGrant .observe .reversible, standingGrant .query .reversible] ++
    match role with
    | .expeditionLeader =>
        [standingGrant .controlClock .reversible, standingGrant .designate .guarded,
          standingGrant .construct .guarded, standingGrant .configureLabor .reversible,
          standingGrant .configureProduction .reversible,
          standingGrant .configureMilitary .guarded]
    | .miningOverseer => [standingGrant .designate .guarded]
    | .productionManager =>
        [standingGrant .configureProduction .reversible,
          standingGrant .configureLogistics .reversible]
    | .militiaCommander => [standingGrant .configureMilitary .guarded]
    | .chiefMedicalDwarf => [standingGrant .configureLabor .reversible]
    | .timeKeeper => [standingGrant .controlClock .reversible]
    | .custom _ => []

def scopeCovers (owned requested : CapabilityScope) : Bool :=
  let fortressCovers := match owned.fortressId, requested.fortressId with
    | none, _ => true
    | some _, none => false
    | some ownedId, some requestedId => decide (ownedId = requestedId)
  let entitiesCover := owned.entityIds.size = 0 || (requested.entityIds.size ≠ 0 &&
    requested.entityIds.keys.all fun entityId => owned.entityIds.contains entityId)
  let areaCovers := match owned.mapArea, requested.mapArea with
    | none, _ => true
    | some _, none => false
    | some ownedArea, some requestedArea => ownedArea.containsCuboid requestedArea
  fortressCovers && entitiesCover && areaCovers

def grantCovers (owned requested : CapabilityGrant) : Bool :=
  let capabilityCovers := owned.capability = .admin || owned.capability = requested.capability
  let expiryCovers := match owned.expiresAtTick, requested.expiresAtTick with
    | none, _ => true
    | some _, none => false
    | some ownedExpiry, some requestedExpiry => decide (requestedExpiry ≤ ownedExpiry)
  let usesCover := match owned.remainingUses, requested.remainingUses with
    | none, _ => true
    | some _, none => false
    | some ownedUses, some requestedUses => decide (requestedUses ≤ ownedUses)
  capabilityCovers && requested.maxRisk ≤ owned.maxRisk && expiryCovers && usesCover &&
    scopeCovers owned.scope requested.scope

/-! ## Tokens -/

def putLenPrefixed (value : Bytes) : Bytes := beBytes 8 value.length ++ value

def putOptionalU64 : Option (U 64) → Bytes
  | some value => 1 :: beBytes 8 value.val
  | none => [0]

def putCoordinate (c : MapCoord) : Bytes :=
  beBytes 4 c.x.toBits ++ (beBytes 4 c.y.toBits ++ beBytes 4 c.z.toBits)

def putArea : Option MapCuboid → Bytes
  | some area => 1 :: (putCoordinate area.min ++ putCoordinate area.max)
  | none => [0]

def putUses : Option (U 32) → Bytes
  | some uses => 1 :: beBytes 4 uses.val
  | none => [0]

/-- The part of the digest's input that a grant contributes. -/
def putGrant (grant : CapabilityGrant) : Bytes :=
  putLenPrefixed (utf8 grant.capability.asStr) ++ (putLenPrefixed (utf8 grant.maxRisk.asStr) ++
  (putOptionalU64 grant.scope.fortressId ++
  (beBytes 8 grant.scope.entityIds.size ++
  (grant.scope.entityIds.keys.flatMap (fun entityId => beBytes 8 entityId.val) ++
  (putArea grant.scope.mapArea ++ (putOptionalU64 grant.expiresAtTick ++
  putUses grant.remainingUses))))))

/-- The bytes that the delegation digest covers. -/
def delegationPreimage (tokenId : U 64) (issuer delegatee : SessionId)
    (grants : List CapabilityGrant) (expires : Option GameTick) : Bytes :=
  beBytes 8 tokenId.val ++ (beBytes 16 issuer.val ++ (beBytes 16 delegatee.val ++
  (beBytes 8 grants.length ++ (grants.flatMap putGrant ++ putOptionalU64 expires))))

def computeDelegationDigest (tokenId : U 64) (issuer delegatee : SessionId)
    (grants : List CapabilityGrant) (expires : Option GameTick) : Digest32 :=
  .ofBytes (delegationPreimage tokenId issuer delegatee grants expires)

structure DelegationToken where
  tokenId : U 64
  issuerSession : SessionId
  delegateeSession : SessionId
  grants : List CapabilityGrant
  expiresAtTick : Option GameTick
  delegationDigest : Digest32
deriving DecidableEq

/-- The bytes that a token's digest covers. -/
def DelegationToken.preimage (token : DelegationToken) : Bytes :=
  delegationPreimage token.tokenId token.issuerSession token.delegateeSession token.grants
    token.expiresAtTick

/-! ## The manager -/

structure RoleManager where
  nextTokenSeq : U 64
  sessionRoles : BTreeMap SessionId SwarmRole
  delegations : BTreeMap (U 64) DelegationToken
deriving DecidableEq

namespace RoleManager

def new : RoleManager := ⟨1, .nil, .nil⟩

def assignRole (m : RoleManager) (sessionId : SessionId) (role : SwarmRole) :
    List CapabilityGrant × RoleManager :=
  (role.defaultGrants, { m with sessionRoles := m.sessionRoles.insert sessionId role })

/-- The loop over the requested grants. -/
def checkGrants (issuerGrants : List CapabilityGrant) (expiresAtTick : Option GameTick) :
    List CapabilityGrant → Result Unit
  | [] => .ok ()
  | requested :: rest =>
      if ¬ issuerGrants.any fun owned => grantCovers owned requested then
        .error (.new .capabilityDenied ("issuer role cannot delegate capability " ++
          requested.capability.asStr ++ " at the requested risk or scope"))
      else if expiresAtTick.any fun outer => requested.expiresAtTick.any fun inner => inner > outer
        then .error (.new .invalidRequest "grant expiry cannot exceed delegation expiry")
      else checkGrants issuerGrants expiresAtTick rest

def issueDelegation (m : RoleManager) (issuer delegatee : SessionId)
    (grants : List CapabilityGrant) (expiresAtTick : Option GameTick) :
    Result DelegationToken × RoleManager :=
  if grants = [] then
    (.error (.new .invalidRequest "delegation must contain at least one capability grant"), m)
  else match m.sessionRoles.get? issuer with
    | none => (.error (.new .capabilityDenied "delegation issuer has no assigned role"), m)
    | some issuerRole =>
        match checkGrants issuerRole.defaultGrants expiresAtTick grants with
        | .error error => (.error error, m)
        | .ok () =>
            match U.checkedAdd m.nextTokenSeq 1 with
            | none => (.error (.new .internalInvariantViolation
                "delegation token identifier space exhausted"), m)
            | some nextTokenSeq =>
                let tokenId := m.nextTokenSeq
                let token : DelegationToken := ⟨tokenId, issuer, delegatee, grants, expiresAtTick,
                  computeDelegationDigest tokenId issuer delegatee grants expiresAtTick⟩
                let inserted := { m with delegations := m.delegations.insert tokenId token }
                if m.delegations.contains tokenId then
                  (.error (.new .internalInvariantViolation
                    "delegation token identifier collision"), inserted)
                else (.ok token, { inserted with nextTokenSeq })

def validateToken (m : RoleManager) (token : DelegationToken) (currentTick : GameTick) :
    Result Unit :=
  match m.delegations.get? token.tokenId with
  | none =>
      .error (.new .capabilityDenied "delegation token was not issued by this role manager")
  | some stored =>
      if stored ≠ token then
        .error (.new .capabilityDenied "delegation token does not match the manager-issued record")
      else if token.delegationDigest ≠ computeDelegationDigest token.tokenId token.issuerSession
          token.delegateeSession token.grants token.expiresAtTick then
        .error (.new .capabilityDenied "delegation token integrity digest mismatch")
      else if token.expiresAtTick.any (currentTick > ·) then
        .error (.new .staleAnchor "delegation token has expired")
      else if token.grants.any fun grant => grant.expiresAtTick.any (currentTick > ·) then
        .error (.new .staleAnchor "a delegated capability grant has expired")
      else .ok ()

end RoleManager

end Dfmcp
