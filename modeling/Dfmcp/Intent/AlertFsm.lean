import Dfmcp.Intent.Action

/-!
# The civilian alert monitor

`alert_fsm.rs`: from a stream of threat assessments the monitor proposes to confine the civilians
to a burrow, and to let them go again once a stable clear interval has been observed. Every
refusal of `acceptObservation` comes before its first assignment, so it returns the monitor it
leaves only with a decision; `planObservation` resets the clear interval on a refusal.
-/

namespace Dfmcp

open Machine

def maxAlertUnits : Nat := 512

inductive ThreatLevel where
  | peace
  | cautious
  | emergencyLockdown
  | recovering
deriving DecidableEq

/-- `matches!(level, EmergencyLockdown | Recovering)`. -/
def ThreatLevel.isProtected : ThreatLevel → Bool
  | .emergencyLockdown => true
  | .recovering => true
  | .peace => false
  | .cautious => false

inductive ThreatAssessment where
  | present
  | clear
  | unknown
deriving DecidableEq

structure AlertObservation where
  anchor : StateAnchor
  sourceScope : Digest32
  threat : ThreatAssessment
  completeCivilianRoster : Bool
deriving DecidableEq

structure AlertRecoveryPolicy where
  minimumClearTicks : U 64
  minimumClearSamples : U 32
  maximumSampleGapTicks : U 64
deriving DecidableEq

namespace AlertRecoveryPolicy

def default : AlertRecoveryPolicy := ⟨100, 2, 100⟩

end AlertRecoveryPolicy

structure AlertDecision where
  anchor : StateAnchor
  sourceScope : Digest32
  targetLevel : ThreatLevel
  actions : List Action
  clearSince : Option GameTick
  clearSamples : U 32
  releaseReady : Bool
deriving DecidableEq

structure CivilianAlertFsm where
  currentLevel : ThreatLevel
  safeBurrowId : EntityId
  militarySquadIds : List EntityId
  recoveryPolicy : AlertRecoveryPolicy
  lastObservation : Option (AlertObservation × List EntityId)
  clearSince : Option GameTick
  clearSamples : U 32
  /-- A threat was recognised and no release has been observed since. -/
  emergencySeen : Bool
deriving DecidableEq

namespace CivilianAlertFsm

def invalid (message : String) : DfmcpError := .new .invalidRequest message

/-- The roster in ascending order, unless it is too long or repeats or holds the nil identity. -/
def canonicalUnits (units : List EntityId) : Result (List EntityId) := do
  if units.length > maxAlertUnits then
    throw (.new .budgetExceeded "alert roster exceeds 512 units")
  let unique : BTreeSet EntityId := OMap.ofList (units.map fun unit => (unit, ()))
  if unique.size ≠ units.length ∨ unique.contains 0 then
    throw (invalid "alert roster requires unique nonzero unit identities")
  return unique.keys

def withRecoveryPolicy (safeBurrowId : EntityId) (militarySquadIds : List EntityId)
    (recoveryPolicy : AlertRecoveryPolicy) : Result CivilianAlertFsm := do
  if safeBurrowId = 0 then
    throw (invalid "alert FSM requires a nonzero safe burrow")
  let militarySquadIds ← canonicalUnits militarySquadIds
  if ¬ (2 ≤ recoveryPolicy.minimumClearSamples ∧ recoveryPolicy.minimumClearSamples ≤ 1024) ∨
      ¬ (1 ≤ recoveryPolicy.minimumClearTicks ∧ recoveryPolicy.minimumClearTicks ≤ 1000000) ∨
      ¬ (1 ≤ recoveryPolicy.maximumSampleGapTicks ∧
        recoveryPolicy.maximumSampleGapTicks ≤ 1000000) then
    throw (invalid "alert recovery policy exceeds fixed positive bounds")
  return ⟨.peace, safeBurrowId, militarySquadIds, recoveryPolicy, none, none, 0, false⟩

def new (safeBurrowId : EntityId) (militarySquadIds : List EntityId) : Result CivilianAlertFsm :=
  withRecoveryPolicy safeBurrowId militarySquadIds .default

def resetClearance (fsm : CivilianAlertFsm) : CivilianAlertFsm :=
  { fsm with clearSince := none, clearSamples := 0 }

def protectionActions (fsm : CivilianAlertFsm) (civilians : List EntityId) (assigned : Bool) :
    List Action :=
  (if civilians = [] then []
    else [.setBurrowMembership civilians fsm.safeBurrowId assigned]) ++
  [.setStandingOrder "CIVILIAN_BURROW_RESTRICTION" (if assigned then "ACTIVE" else "INACTIVE")]

/-- An explicit caller-requested transition. It reads the monitor and does not change it. -/
def transitionTo (fsm : CivilianAlertFsm) (newLevel : ThreatLevel) (civilianIds : List EntityId) :
    Result (List Action) := do
  let civilians ← canonicalUnits civilianIds
  if fsm.currentLevel = newLevel then return []
  if civilians = [] then throw (invalid "explicit alert transitions require civilians")
  match fsm.currentLevel, newLevel with
  | _, .emergencyLockdown => return fsm.protectionActions civilians true
  | .emergencyLockdown, .recovering => return fsm.protectionActions civilians true
  | .emergencyLockdown, .peace => return fsm.protectionActions civilians false
  | .recovering, .peace => return fsm.protectionActions civilians false
  | _, _ => return []

def isProtected (fsm : CivilianAlertFsm) : Bool := fsm.emergencySeen || fsm.currentLevel.isProtected

def releaseReady (fsm : CivilianAlertFsm) (observation : AlertObservation) : Bool :=
  decide (observation.threat = .clear) && observation.completeCivilianRoster &&
    decide (fsm.recoveryPolicy.minimumClearSamples ≤ fsm.clearSamples) &&
    match fsm.clearSince with
    | none => false
    | some since => fsm.recoveryPolicy.minimumClearTicks ≤
        U.saturatingSub observation.anchor.tick since

def targetLevel (fsm : CivilianAlertFsm) (observation : AlertObservation) : ThreatLevel :=
  match observation.threat with
  | .present => .emergencyLockdown
  | .unknown => if fsm.isProtected then .emergencyLockdown else .cautious
  | .clear => if fsm.isProtected && !fsm.releaseReady observation then .recovering else .peace

def decision (fsm : CivilianAlertFsm) (observation : AlertObservation)
    (civilians : List EntityId) : AlertDecision where
  anchor := observation.anchor
  sourceScope := observation.sourceScope
  targetLevel := fsm.targetLevel observation
  actions :=
    match fsm.targetLevel observation with
    | .emergencyLockdown => fsm.protectionActions civilians true
    | .recovering => fsm.protectionActions civilians true
    | .peace =>
        if fsm.isProtected && fsm.releaseReady observation then
          fsm.protectionActions civilians false
        else []
    | .cautious => []
  clearSince := fsm.clearSince
  clearSamples := fsm.clearSamples
  releaseReady := fsm.releaseReady observation

/-- The accepted sample is the next one of the window of the previous. -/
def continuous (fsm : CivilianAlertFsm) (previous : AlertObservation)
    (previousCivilians : List EntityId) (observation : AlertObservation)
    (civilians : List EntityId) : Bool :=
  decide (previous.anchor.cursor.checkedNext = some observation.anchor.cursor) &&
    decide (previous.anchor.tick < observation.anchor.tick) &&
    decide (observation.anchor.tick.val - previous.anchor.tick.val ≤
      fsm.recoveryPolicy.maximumSampleGapTicks.val) &&
    decide (observation.sourceScope = previous.sourceScope) &&
    decide (civilians = previousCivilians) && previous.completeCivilianRoster

/-- The monitor after its clear interval has taken an assessment in. -/
def assess (fsm : CivilianAlertFsm) (observation : AlertObservation) : CivilianAlertFsm :=
  match observation.threat with
  | .present => resetClearance { fsm with emergencySeen := true }
  | .clear =>
      if observation.completeCivilianRoster then
        { fsm with
          clearSince := fsm.clearSince.or (some observation.anchor.tick)
          clearSamples := U.saturatingAdd fsm.clearSamples 1 }
      else fsm.resetClearance
  | .unknown => fsm.resetClearance

/-- Take in a sample that advances the source. -/
def advance (fsm : CivilianAlertFsm) (observation : AlertObservation) (civilians : List EntityId)
    (isContinuous : Bool) : AlertDecision × CivilianAlertFsm :=
  let fsm := (if isContinuous then fsm else fsm.resetClearance).assess observation
  (fsm.decision observation civilians,
    { fsm with lastObservation := some (observation, civilians) })

def acceptObservation (fsm : CivilianAlertFsm) (observation : AlertObservation)
    (civilianIds : List EntityId) : Result (AlertDecision × CivilianAlertFsm) := do
  let civilians ← canonicalUnits civilianIds
  if observation.anchor.fortressId = 0 ∨ observation.anchor.stateHash = .zero ∨
      observation.sourceScope = .zero then
    throw (invalid "alert observation requires nonzero source and anchor identity")
  match fsm.lastObservation with
  | none => return fsm.advance observation civilians false
  | some (previous, previousCivilians) =>
      if observation.anchor.fortressId ≠ previous.anchor.fortressId then
        throw (invalid "alert monitor cannot switch fortress identity")
      if observation = previous ∧ civilians = previousCivilians then
        -- a replay adds no sample
        let fsm := if observation.threat = .present then { fsm with emergencySeen := true } else fsm
        return (fsm.decision observation civilians, fsm)
      if observation.anchor.cursor ≤ previous.anchor.cursor ∨
          (observation.anchor.cursor.epoch = previous.anchor.cursor.epoch ∧
            observation.anchor.tick < previous.anchor.tick) then
        throw (invalid "stale or conflicting alert observation")
      return fsm.advance observation civilians
        (fsm.continuous previous previousCivilians observation civilians)

def planObservation (fsm : CivilianAlertFsm) (observation : AlertObservation)
    (civilianIds : List EntityId) : Result AlertDecision × CivilianAlertFsm :=
  match fsm.acceptObservation observation civilianIds with
  | .ok (decision, fsm) => (.ok decision, fsm)
  | .error e => (.error e, fsm.resetClearance)

def confirmObservedLevel (fsm : CivilianAlertFsm) (observedLevel : ThreatLevel) :
    CivilianAlertFsm :=
  let wasProtected := fsm.currentLevel.isProtected
  let fsm :=
    if observedLevel.isProtected then
      let fsm := { fsm with emergencySeen := true }
      if ¬ wasProtected then fsm.resetClearance else fsm
    else fsm
  let fsm := { fsm with currentLevel := observedLevel }
  if observedLevel = .peace then resetClearance { fsm with emergencySeen := false } else fsm

/-! ## Runs -/

/-- A call that may change the monitor. -/
inductive Call where
  | planObservation (observation : AlertObservation) (civilianIds : List EntityId)
  | confirmObservedLevel (observedLevel : ThreatLevel)

/-- What a call came to: an accepted sample with its canonical roster, a refusal, or a level
confirmed at another. -/
inductive Event where
  | accepted (sample : AlertObservation × List EntityId)
  | refused
  | confirmed (before observed : ThreatLevel)
deriving DecidableEq

def perform (fsm : CivilianAlertFsm) : Call → CivilianAlertFsm
  | .planObservation observation civilianIds => (fsm.planObservation observation civilianIds).2
  | .confirmObservedLevel observedLevel => fsm.confirmObservedLevel observedLevel

def event (fsm : CivilianAlertFsm) : Call → Event
  | .planObservation observation civilianIds =>
      match fsm.acceptObservation observation civilianIds, canonicalUnits civilianIds with
      | .ok _, .ok civilians => .accepted (observation, civilians)
      | _, _ => .refused
  | .confirmObservedLevel observedLevel => .confirmed fsm.currentLevel observedLevel

/-- One call, with what it came to. -/
inductive Step : CivilianAlertFsm → Event → CivilianAlertFsm → Prop
  | call (fsm : CivilianAlertFsm) (call : Call) : Step fsm (fsm.event call) (fsm.perform call)

end CivilianAlertFsm

end Dfmcp
