import Dfmcp.Core.Basic
import Dfmcp.Library.OrderedMap

/-!
# Leases

`lease.rs`: the manager of spatial and entity leases. Every method that takes `&mut self`
returns its result together with the manager it leaves.
-/

namespace Dfmcp

open Machine

inductive LeaseKind where
  | spatialExclusive (cuboid : MapCuboid)
  | spatialShared (cuboid : MapCuboid)
  | entityExclusive (entity : EntityId)
  | entityShared (entity : EntityId)
deriving DecidableEq

structure LeaseRecord where
  leaseId : LeaseId
  holderSession : SessionId
  kind : LeaseKind
  acquiredTick : GameTick
  expiresAtTick : GameTick
deriving DecidableEq

/-- Whether two cuboids overlap, whichever way round their corners are given. -/
def cuboidsIntersect (a b : MapCuboid) : Bool :=
  min a.min.x a.max.x ≤ max b.min.x b.max.x && max a.min.x a.max.x ≥ min b.min.x b.max.x &&
    min a.min.y a.max.y ≤ max b.min.y b.max.y && max a.min.y a.max.y ≥ min b.min.y b.max.y &&
    min a.min.z a.max.z ≤ max b.min.z b.max.z && max a.min.z a.max.z ≥ min b.min.z b.max.z

structure LeaseManager where
  nextLeaseSeq : U 64
  leases : BTreeMap LeaseId LeaseRecord
deriving DecidableEq

def checkedExpiry (currentTick : GameTick) (ttlTicks : U 64) : Result GameTick :=
  if ttlTicks = 0 then .error (.new .invalidRequest "lease TTL must be nonzero")
  else match U.checkedAdd currentTick ttlTicks with
    | some tick => .ok tick
    | none => .error (.new .budgetExceeded "lease expiry tick overflow")

namespace LeaseManager

def new : LeaseManager := ⟨1, .nil⟩

def nextLeaseId (m : LeaseManager) : Result (LeaseId × U 64) :=
  match U.checkedAdd m.nextLeaseSeq 1 with
  | none => .error (.new .internalInvariantViolation "lease identifier space exhausted")
  | some nextSequence => .ok (m.nextLeaseSeq.castLE (by decide), nextSequence)

/-- Grant a lease under the next identifier. -/
def grant (m : LeaseManager) (sessionId : SessionId) (kind : LeaseKind) (currentTick : GameTick)
    (expiresAtTick : GameTick) : Result LeaseId × LeaseManager :=
  match m.nextLeaseId with
  | .error error => (.error error, m)
  | .ok (leaseId, nextSequence) =>
      let record : LeaseRecord := ⟨leaseId, sessionId, kind, currentTick, expiresAtTick⟩
      let inserted := { m with leases := m.leases.insert leaseId record }
      if (m.leases.get? leaseId).isSome then
        (.error (.new .internalInvariantViolation "lease identifier collision"), inserted)
      else (.ok leaseId, { inserted with nextLeaseSeq := nextSequence })

/-- The conflict loop of `acquire_spatial_lease`. -/
def checkSpatial (sessionId : SessionId) (cuboid : MapCuboid) (exclusive : Bool)
    (currentTick : GameTick) : List LeaseRecord → Result Unit
  | [] => .ok ()
  | existing :: rest =>
      if existing.expiresAtTick ≤ currentTick then
        checkSpatial sessionId cuboid exclusive currentTick rest
      else match existing.kind with
        | .spatialExclusive existingCuboid =>
            if cuboidsIntersect cuboid existingCuboid ∧ existing.holderSession ≠ sessionId then
              .error (.new .conflict
                ("spatial region overlaps with exclusive lease held by session " ++
                  toString existing.holderSession))
            else checkSpatial sessionId cuboid exclusive currentTick rest
        | .spatialShared existingCuboid =>
            if exclusive ∧ cuboidsIntersect cuboid existingCuboid ∧
                existing.holderSession ≠ sessionId then
              .error (.new .conflict
                ("exclusive spatial lease conflicts with shared lease held by session " ++
                  toString existing.holderSession))
            else checkSpatial sessionId cuboid exclusive currentTick rest
        | _ => checkSpatial sessionId cuboid exclusive currentTick rest

def acquireSpatialLease (m : LeaseManager) (sessionId : SessionId) (cuboid : MapCuboid)
    (exclusive : Bool) (currentTick : GameTick) (ttlTicks : U 64) :
    Result LeaseId × LeaseManager :=
  match checkedExpiry currentTick ttlTicks with
  | .error error => (.error error, m)
  | .ok expiresAtTick =>
      match checkSpatial sessionId cuboid exclusive currentTick m.leases.values with
      | .error error => (.error error, m)
      | .ok () =>
          m.grant sessionId (if exclusive then .spatialExclusive cuboid else .spatialShared cuboid)
            currentTick expiresAtTick

/-- The conflict loop of `acquire_entity_lease`. -/
def checkEntity (sessionId : SessionId) (entityId : EntityId) (exclusive : Bool)
    (currentTick : GameTick) : List LeaseRecord → Result Unit
  | [] => .ok ()
  | existing :: rest =>
      if existing.expiresAtTick ≤ currentTick then
        checkEntity sessionId entityId exclusive currentTick rest
      else match existing.kind with
        | .entityExclusive target =>
            if target = entityId ∧ existing.holderSession ≠ sessionId then
              .error (.new .conflict ("entity " ++ toString entityId ++
                " is exclusively leased by session " ++ toString existing.holderSession))
            else checkEntity sessionId entityId exclusive currentTick rest
        | .entityShared target =>
            if exclusive ∧ target = entityId ∧ existing.holderSession ≠ sessionId then
              .error (.new .conflict ("exclusive entity lease on " ++ toString entityId ++
                " conflicts with shared lease held by session " ++
                toString existing.holderSession))
            else checkEntity sessionId entityId exclusive currentTick rest
        | _ => checkEntity sessionId entityId exclusive currentTick rest

def acquireEntityLease (m : LeaseManager) (sessionId : SessionId) (entityId : EntityId)
    (exclusive : Bool) (currentTick : GameTick) (ttlTicks : U 64) :
    Result LeaseId × LeaseManager :=
  match checkedExpiry currentTick ttlTicks with
  | .error error => (.error error, m)
  | .ok expiresAtTick =>
      match checkEntity sessionId entityId exclusive currentTick m.leases.values with
      | .error error => (.error error, m)
      | .ok () =>
          m.grant sessionId
            (if exclusive then .entityExclusive entityId else .entityShared entityId)
            currentTick expiresAtTick

def verifyExclusiveSpatial (m : LeaseManager) (leaseId : LeaseId) (holder : SessionId)
    (area : MapCuboid) (currentTick : GameTick) : Result Unit := do
  let _ ← MapCuboid.new area.min area.max
  match m.leases.get? leaseId with
  | none => throw (.new .leaseDenied "spatial lease is no longer retained")
  | some record =>
      if record.holderSession ≠ holder ∨ currentTick < record.acquiredTick ∨
          currentTick ≥ record.expiresAtTick then
        throw (.new .leaseDenied "spatial lease holder or validity interval does not match")
      if let .spatialExclusive held := record.kind then
        let _ ← MapCuboid.new held.min held.max
        if held.containsCuboid area then
          return ()
      throw (.new .leaseDenied
        "an exclusive spatial lease covering every affected block is required")

def renewLease (m : LeaseManager) (leaseId : LeaseId) (currentTick : GameTick)
    (extensionTicks : U 64) : Result Unit × LeaseManager :=
  match m.leases.get? leaseId with
  | none =>
      (.error (.new .leaseDenied ("lease LeaseId(" ++ hex32 leaseId ++ ") not found")), m)
  | some record =>
      if record.expiresAtTick ≤ currentTick then
        (.error (.new .staleAnchor "cannot renew expired lease"), m)
      else if extensionTicks = 0 then
        (.error (.new .invalidRequest "lease renewal extension must be nonzero"), m)
      else match U.checkedAdd record.expiresAtTick extensionTicks with
        | none => (.error (.new .budgetExceeded "lease expiry tick overflow"), m)
        | some expiresAtTick =>
            (.ok (), { m with leases := m.leases.insert leaseId { record with expiresAtTick } })

def releaseLease (m : LeaseManager) (leaseId : LeaseId) (sessionId : SessionId) :
    Result Unit × LeaseManager :=
  match m.leases.get? leaseId with
  | none => (.error (.new .leaseDenied ("lease " ++ hex32 leaseId ++ " not found")), m)
  | some record =>
      if record.holderSession ≠ sessionId then
        (.error (.new .capabilityDenied "cannot release lease owned by another session"), m)
      else (.ok (), { m with leases := m.leases.erase leaseId })

/-- Release everything a session holds. -/
def releaseSessionLeases (m : LeaseManager) (sessionId : SessionId) : LeaseManager :=
  { m with leases := m.leases.filter fun _ record => record.holderSession ≠ sessionId }

/-- Prune expired leases, and count them. -/
def cleanupExpiredLeases (m : LeaseManager) (currentTick : GameTick) : Nat × LeaseManager :=
  ((m.leases.values.filter fun record => record.expiresAtTick ≤ currentTick).length,
    { m with leases := m.leases.filter fun _ record => ¬ record.expiresAtTick ≤ currentTick })

def activeLeaseCount (m : LeaseManager) : Nat := m.leases.size

end LeaseManager

end Dfmcp
