import Dfmcp.Intent.Plan
import Dfmcp.World.Evidence

/-!
# Bounded obligations

`obligation.rs`, `obligation/drain.rs` and `obligation/recovery.rs`: goals with a deadline that are
sampled as the game advances, cancelled through a drain, and recovered after a discontinuity. A
method that takes `&mut self` returns its result together with the runtime it leaves.
-/

namespace Dfmcp

open Machine

def maxTrackedObligations : Nat := 65536
def maxDrainSteps : Nat := 65536

inductive EvidenceKind where
  | observation
  | adapterReceipt
  | postcondition
  | checkpoint
  | replay
  | diagnostic
  | humanConfirmation
deriving DecidableEq

structure Evidence where
  id : U 128
  kind : EvidenceKind
  subject : Option EntityId
  anchor : StateAnchor
  digest : Digest32
  summary : String
deriving DecidableEq

/-- Quantitative progress of a cancellation. -/
structure DrainProgressCertificate where
  actionId : ActionId
  drainStartedTick : GameTick
  currentTick : GameTick
  stepsCompensated : U 64
  stepsRemaining : U 64
  isQuiescent : Bool
deriving DecidableEq

inductive ObligationStatus where
  | pending
  | active (ticksElapsed : U 64) (consecutiveStableObservations : U 32)
  | fulfilled (fulfilledAtTick : GameTick) (evidence : List Evidence)
  | failed (failedAtTick : GameTick) (reason : String)
  | draining (drainStartedTick : GameTick)
  | cancelled (cancelledAtTick : GameTick)
deriving DecidableEq

namespace ObligationStatus

/-- `matches!(status, Active { .. })`. -/
def isActive : ObligationStatus → Bool
  | .active _ _ => true
  | _ => false

/-- The outcome of an obligation. -/
def isTerminal : ObligationStatus → Bool
  | .fulfilled _ _ => true
  | .failed _ _ => true
  | .cancelled _ => true
  | _ => false

end ObligationStatus

structure BoundedObligation where
  actionId : ActionId
  spec : ObligationSpec
  status : ObligationStatus
  registeredTick : GameTick
  lastEvaluatedTick : Option GameTick
deriving DecidableEq

structure ObligationRuntime where
  obligations : BTreeMap ActionId BoundedObligation
  observationAnchors : BTreeMap ActionId StateAnchor
  drainProgress : BTreeMap ActionId DrainProgressCertificate

namespace PredicateEvidence

/-- The predicate is established, not merely not refuted. -/
def establishes (evidence : PredicateEvidence) (predicate : Predicate) : Result Bool := do
  let truth ← evidence.evaluate predicate
  return decide (truth = .true)

end PredicateEvidence

namespace ObligationRuntime

def new : ObligationRuntime := ⟨.nil, .nil, .nil⟩

/-! ## Registration -/

def unknownObligation : DfmcpError := .new .invalidRequest "unknown obligation"

/-- `matches!(predicate, True | False)`. -/
def isTrivial : Predicate → Bool
  | .true => true
  | .false => true
  | _ => false

/-- The failure predicate in normal form, when there is one. -/
def normalizeFailure (terminal : Predicate) : Option Predicate → Result (Option Predicate)
  | none => return none
  | some failure => do
      failure.validateShape
      let failure := failure.normalized
      if isTrivial failure then
        throw (.new .invalidRequest "obligation failure predicate must be nontrivial")
      if failure = terminal then
        throw (.new .invalidRequest "obligation terminal and failure predicates must differ")
      return some failure

/-- The specification that is registered, with its predicates in normal form. -/
def normalizeSpec (spec : ObligationSpec) : Result ObligationSpec := do
  spec.terminal.validateShape
  let terminal := spec.terminal.normalized
  if isTrivial terminal then
    throw (.new .invalidRequest "obligation terminal predicate must be nontrivial")
  let failure ← normalizeFailure terminal spec.failure
  return { spec with terminal := terminal, failure := failure }

/-- The obligation that `register_obligation` inserts. -/
def admitSpec (runtime : ObligationRuntime) (actionId : ActionId) (spec : ObligationSpec)
    (currentTick : GameTick) : Result BoundedObligation := do
  if actionId = 0 then
    throw (.new .invalidRequest "obligation action identifier zero is reserved")
  let spec ← normalizeSpec spec
  if spec.deadlineTick ≤ currentTick ∨ spec.pollIntervalTicks = 0 ∨
      spec.stableForObservations = 0 then
    throw (.new .invalidRequest
      "obligation requires a future deadline and nonzero polling/stability bounds")
  if runtime.obligations.contains actionId then
    throw (.new .conflict "action already has a registered obligation")
  if runtime.obligations.size ≥ maxTrackedObligations then
    throw (.new .budgetExceeded "obligation runtime reached its explicit tracked-action bound")
  return ⟨actionId, spec, .active 0 0, currentTick, none⟩

def registerObligation (runtime : ObligationRuntime) (actionId : ActionId) (spec : ObligationSpec)
    (currentTick : GameTick) : Result Unit × ObligationRuntime :=
  match runtime.admitSpec actionId spec currentTick with
  | .error e => (.error e, runtime)
  | .ok obligation =>
      (.ok (), { runtime with obligations := runtime.obligations.insert actionId obligation })

def registerObligationAt (runtime : ObligationRuntime) (actionId : ActionId)
    (spec : ObligationSpec) (snapshot : WorldSnapshot) : Result Unit × ObligationRuntime :=
  if !snapshot.hashIsValid then
    (.error (.new .checksumMismatch "obligation registration requires a valid world snapshot"),
      runtime)
  else match runtime.registerObligation actionId spec snapshot.tick with
    | (.error e, runtime) => (.error e, runtime)
    | (.ok _, runtime) =>
        (.ok (), { runtime with
          observationAnchors := runtime.observationAnchors.insert actionId snapshot.anchor })

/-! ## Observation -/

/-- Forget the unfinished stability streak. -/
def observationInterrupted (runtime : ObligationRuntime) (actionId : ActionId) :
    Result Unit × ObligationRuntime :=
  match runtime.obligations.get? actionId with
  | none => (.error unknownObligation, runtime)
  | some obligation =>
      match obligation.status with
      | .active ticksElapsed _ =>
          (.ok (), { runtime with
            obligations := runtime.obligations.insert actionId
              { obligation with status := .active ticksElapsed 0 } })
      | _ => (.ok (), runtime)

/-- The incoming anchor leaves the lineage of the previous one. -/
def regresses (incoming previous : StateAnchor) : Bool :=
  decide (incoming.fortressId ≠ previous.fortressId) ||
    decide (incoming.cursor.epoch ≠ previous.cursor.epoch) ||
    decide (incoming.cursor.sequence < previous.cursor.sequence) ||
    decide (incoming.tick < previous.tick) ||
    (decide (incoming.cursor = previous.cursor) && decide (incoming ≠ previous))

/-- The truth of an obligation's failure predicate. Without one it cannot fail. -/
def failureTruth (evidence : PredicateEvidence) (spec : ObligationSpec) : Result PredicateTruth :=
  match spec.failure with
  | some predicate => evidence.evaluate predicate
  | none => .ok .false

/-- That truth, and whether this observation satisfies the obligation. -/
def assess (evidence : PredicateEvidence) (spec : ObligationSpec) :
    Result (PredicateTruth × Bool) := do
  let failure ← failureTruth evidence spec
  let established ← evidence.establishes spec.terminal
  return (failure, established && decide (failure = .false))

abbrev Assessments := BTreeMap ActionId (PredicateTruth × Bool)

/-- The checks of one obligation, before any transition is published. -/
def check (runtime : ObligationRuntime) (evidence : PredicateEvidence)
    (predicates : Assessments) (obligation : BoundedObligation) : Result Assessments := do
  if !obligation.status.isActive then return predicates
  if evidence.snapshot.tick < obligation.registeredTick ∨
      obligation.lastEvaluatedTick.any (evidence.snapshot.tick < ·) then
    throw (.new .staleAnchor "obligation observation tick regressed")
  if (runtime.observationAnchors.get? obligation.actionId).any
      (regresses evidence.snapshot.anchor) then
    throw (.new .staleAnchor
      "obligation observation changed lineage, regressed, or forked a cursor")
  let assessment ← assess evidence obligation.spec
  return predicates.insert obligation.actionId assessment

/-- The basis of the poll cadence. -/
def cadenceBasis (obligation : BoundedObligation) : GameTick :=
  obligation.lastEvaluatedTick.getD obligation.registeredTick

def sampleDue (obligation : BoundedObligation) (tick : GameTick) : Bool :=
  decide (obligation.lastEvaluatedTick ≠ some tick) &&
    (decide (obligation.spec.pollIntervalTicks ≤
        U.saturatingSub tick (cadenceBasis obligation)) ||
      decide (tick = obligation.spec.deadlineTick))

def nextStable (obligation : BoundedObligation) (previousStable : U 32) (tick : GameTick)
    (satisfied : Bool) : U 32 :=
  if !satisfied then 0
  else if sampleDue obligation tick then previousStable.saturatingAdd 1
  else previousStable

/-- The receipt of a fulfilled obligation. -/
def receipt (actionId : ActionId) (snapshot : WorldSnapshot) : Evidence where
  id := actionId
  kind := .postcondition
  subject := none
  anchor := snapshot.anchor
  digest := snapshot.stateHash
  summary := "obligation terminal predicate stability window satisfied"

/-- The transition of one active obligation. -/
def settle (snapshot : WorldSnapshot) (obligation : BoundedObligation) (previousStable : U 32)
    (assessment : PredicateTruth × Bool) : BoundedObligation :=
  let tick := snapshot.tick
  let deadline := obligation.spec.deadlineTick
  let newElapsed := U.saturatingSub tick obligation.registeredTick
  if assessment.1 = .true then
    { obligation with status := .failed tick "obligation failure predicate triggered" }
  else if tick > deadline then
    { obligation with
      status := .failed tick
        ("obligation deadline tick " ++ toString deadline.val ++ " was missed") }
  else
    let due := sampleDue obligation tick
    let stable := nextStable obligation previousStable tick assessment.2
    let lastEvaluatedTick := if due then some tick else obligation.lastEvaluatedTick
    if due ∧ assessment.2 ∧ stable ≥ obligation.spec.stableForObservations then
      { obligation with
        lastEvaluatedTick := lastEvaluatedTick
        status := .fulfilled tick [receipt obligation.actionId snapshot] }
    else if tick ≥ deadline then
      { obligation with
        lastEvaluatedTick := lastEvaluatedTick
        status := .failed tick ("obligation deadline tick " ++ toString deadline.val ++
          " reached without fulfilling terminal predicate stability") }
    else
      { obligation with
        lastEvaluatedTick := lastEvaluatedTick
        status := .active newElapsed stable }

def publish (snapshot : WorldSnapshot) (predicates : Assessments)
    (obligation : BoundedObligation) : BoundedObligation :=
  match obligation.status with
  | .active _ previousStable =>
      settle snapshot obligation previousStable
        ((predicates.get? obligation.actionId).getD (.unknown, false))
  | _ => obligation

/-- The anchors after an accepted read of every active obligation. -/
def anchored (runtime : ObligationRuntime) (incoming : StateAnchor) :
    BTreeMap ActionId StateAnchor :=
  runtime.obligations.values.foldl (fun anchors obligation =>
    if obligation.status.isActive then anchors.insert obligation.actionId incoming else anchors)
    runtime.observationAnchors

/-- Evaluate supplied evidence across all active obligations. The whole batch is checked before
any transition is published. -/
def stepTickWithEvidence (runtime : ObligationRuntime) (evidence : PredicateEvidence) :
    Result Unit × ObligationRuntime :=
  if !evidence.snapshot.hashIsValid then
    (.error (.new .checksumMismatch
      "obligations cannot be evaluated against an invalid world snapshot"), runtime)
  else match runtime.obligations.values.foldlM (runtime.check evidence) .nil with
    | .error e => (.error e, runtime)
    | .ok predicates =>
        (.ok (), { runtime with
          obligations := runtime.obligations.mapValues fun _ obligation =>
            publish evidence.snapshot predicates obligation
          observationAnchors := runtime.anchored evidence.snapshot.anchor })

/-- Bind the evidence first, then evaluate it. -/
def stepTickUnder (runtime : ObligationRuntime) (evidence : Result PredicateEvidence) :
    Result Unit × ObligationRuntime :=
  match evidence with
  | .error e => (.error e, runtime)
  | .ok evidence => runtime.stepTickWithEvidence evidence

def stepTick (runtime : ObligationRuntime) (snapshot : WorldSnapshot) :
    Result Unit × ObligationRuntime :=
  runtime.stepTickUnder (PredicateEvidence.untrusted snapshot)

def stepTickLaboratory (runtime : ObligationRuntime) (snapshot : WorldSnapshot) :
    Result Unit × ObligationRuntime :=
  runtime.stepTickUnder (PredicateEvidence.ofLaboratory snapshot)

/-! ## Cancellation -/

def incomplete (message : String) : DfmcpError := .new .cancellationIncomplete message

/-- All the steps of a certificate, unless they exceed their bound. -/
def totalSteps (certificate : DrainProgressCertificate) : Result (U 64) :=
  match (U.checkedAdd certificate.stepsCompensated certificate.stepsRemaining).filter
      fun total => total.val ≤ maxDrainSteps with
  | some total => .ok total
  | none => .error (incomplete "drain step count overflowed or exceeded its bound")

/-- The refusals of a cancellation request that precede its transition. -/
def checkCancel (runtime : ObligationRuntime) (actionId : ActionId) (currentTick : GameTick)
    (stepsToCompensate : U 64) : Result BoundedObligation := do
  if stepsToCompensate.val > maxDrainSteps then
    throw (.new .budgetExceeded "cancellation exceeds the bounded compensation-step inventory")
  match runtime.obligations.get? actionId with
  | none => throw unknownObligation
  | some obligation =>
      if currentTick < obligation.registeredTick ∨
          obligation.lastEvaluatedTick.any (currentTick < ·) ∨
          (runtime.observationAnchors.get? actionId).any (currentTick < ·.tick) then
        throw (.new .staleAnchor
          "cancellation tick precedes obligation registration or observation")
      match runtime.drainProgress.get? actionId with
      | none => pure ()
      | some previous => do
          let total ← totalSteps previous
          if total ≠ stepsToCompensate then
            throw (.new .conflict
              "repeated cancellation cannot change its compensation inventory")
          if currentTick < previous.currentTick then
            throw (.new .staleAnchor "cancellation request predates retained drain progress")
      return obligation

def requestCancelWithSteps (runtime : ObligationRuntime) (actionId : ActionId)
    (currentTick : GameTick) (stepsToCompensate : U 64) : Result Unit × ObligationRuntime :=
  match runtime.checkCancel actionId currentTick stepsToCompensate with
  | .error e => (.error e, runtime)
  | .ok obligation =>
      match obligation.status with
      | .active _ _ =>
          (.ok (), { runtime with
            drainProgress := runtime.drainProgress.insert actionId
              ⟨actionId, currentTick, currentTick, 0, stepsToCompensate, false⟩
            obligations := runtime.obligations.insert actionId
              { obligation with status := .draining currentTick } })
      | .draining _ => (.ok (), runtime)
      | .cancelled _ => (.ok (), runtime)
      | .fulfilled _ _ =>
          (.error (.new .invalidRequest "cannot cancel an already fulfilled or failed obligation"),
            runtime)
      | .failed _ _ =>
          (.error (.new .invalidRequest "cannot cancel an already fulfilled or failed obligation"),
            runtime)
      | .pending =>
          (.error (.new .conflict "cannot cancel an obligation that has not become active"),
            runtime)

/-- The inventory of a request without one: that of the running drain, or none. -/
def retainedSteps (runtime : ObligationRuntime) (actionId : ActionId) : Result (U 64) :=
  match runtime.drainProgress.get? actionId with
  | some progress => totalSteps progress
  | none => .ok 0

def requestCancel (runtime : ObligationRuntime) (actionId : ActionId) (currentTick : GameTick) :
    Result Unit × ObligationRuntime :=
  match runtime.retainedSteps actionId with
  | .error e => (.error e, runtime)
  | .ok steps => runtime.requestCancelWithSteps actionId currentTick steps

/-- The bounds that a progress report must keep. -/
def checkProgress (previous certificate : DrainProgressCertificate) (drainStartedTick : GameTick) :
    Result Unit := do
  let refused := incomplete "drain progress changed its identity, inventory or monotone bounds"
  if certificate.drainStartedTick ≠ drainStartedTick ∨
      certificate.currentTick < drainStartedTick ∨
      certificate.currentTick < previous.currentTick then
    throw refused
  let total ← totalSteps certificate
  let previousTotal ← totalSteps previous
  if total ≠ previousTotal ∨
      certificate.stepsCompensated < previous.stepsCompensated ∨
      certificate.stepsRemaining > previous.stepsRemaining ∨
      (certificate.isQuiescent ∧ certificate.stepsRemaining ≠ 0) ∨
      (previous.isQuiescent ∧ ¬ certificate.isQuiescent) then
    throw refused

def recordDrainProgress (runtime : ObligationRuntime) (certificate : DrainProgressCertificate) :
    Result Unit × ObligationRuntime :=
  match runtime.obligations.get? certificate.actionId with
  | none => (.error unknownObligation, runtime)
  | some obligation =>
      match runtime.drainProgress.get? certificate.actionId with
      | none =>
          (.error (.new .conflict "obligation has no registered cancellation drain"), runtime)
      | some previous =>
          let refused : DfmcpError :=
            .new .conflict "progress can only advance an active cancellation drain"
          match obligation.status with
          | .draining drainStartedTick =>
              match checkProgress previous certificate drainStartedTick with
              | .error e => (.error e, runtime)
              | .ok _ => (.ok (), { runtime with
                  drainProgress := runtime.drainProgress.insert certificate.actionId certificate })
          | .cancelled _ =>
              if previous = certificate then (.ok (), runtime) else (.error refused, runtime)
          | _ => (.error refused, runtime)

/-- Finalize only the exact latest registered certificate, at its reported tick. -/
def finalizeCancel (runtime : ObligationRuntime) (actionId : ActionId) (currentTick : GameTick)
    (certificate : DrainProgressCertificate) : Result Unit × ObligationRuntime :=
  match runtime.obligations.get? actionId with
  | none => (.error unknownObligation, runtime)
  | some obligation =>
      let identityMatches : Prop := certificate.actionId = actionId ∧
        certificate.currentTick = currentTick ∧
        runtime.drainProgress.get? actionId = some certificate
      let refused := incomplete "cancellation requires its exact recorded quiescent certificate"
      match obligation.status with
      | .draining drainStartedTick =>
          if identityMatches ∧ certificate.drainStartedTick = drainStartedTick ∧
              currentTick ≥ drainStartedTick ∧ certificate.isQuiescent ∧
              certificate.stepsRemaining = 0 then
            (.ok (), { runtime with
              obligations := runtime.obligations.insert actionId
                { obligation with status := .cancelled currentTick } })
          else (.error refused, runtime)
      | .cancelled cancelledAtTick =>
          if identityMatches ∧ currentTick = cancelledAtTick then (.ok (), runtime)
          else (.error refused, runtime)
      | _ =>
          (.error (.new .conflict "cancellation can be finalized only from the draining state"),
            runtime)

end ObligationRuntime

/-! ## Recovery -/

structure RecoveredObligation where
  runtime : ObligationRuntime
  actionId : ActionId
  recoveryAnchor : StateAnchor

namespace RecoveredObligation

open ObligationRuntime

/-- A registered runtime whose only obligation starts a fresh cadence at the frontier. -/
def rebased (runtime : ObligationRuntime) (actionId : ActionId) (registeredTick : GameTick)
    (frontier : WorldSnapshot) : ObligationRuntime :=
  let runtime := { runtime with
    observationAnchors := runtime.observationAnchors.insert actionId frontier.anchor }
  match runtime.obligations.get? actionId with
  | none => runtime
  | some obligation =>
      { runtime with
        obligations := runtime.obligations.insert actionId
          { obligation with
            lastEvaluatedTick := some frontier.tick
            status := .active (U.saturatingSub frontier.tick registeredTick) 0 } }

/-- Recover against the evidence scope chosen by the observing shell. -/
def newWithEvidence (actionId : ActionId) (spec : ObligationSpec) (registeredTick : GameTick)
    (evidence : PredicateEvidence) : Result RecoveredObligation := do
  let frontier := evidence.snapshot
  if !frontier.hashIsValid then
    throw (.new .checksumMismatch "recovered obligation requires a valid durable frontier")
  if frontier.tick < registeredTick then
    throw (.new .staleAnchor
      "recovered frontier precedes the obligation's original registration")
  let (registered, runtime) := ObligationRuntime.new.registerObligation actionId spec registeredTick
  registered
  let (stepped, runtime) :=
    (rebased runtime actionId registeredTick frontier).stepTickWithEvidence evidence
  stepped
  return ⟨runtime, actionId, frontier.anchor⟩

def new (actionId : ActionId) (spec : ObligationSpec) (registeredTick : GameTick)
    (frontier : WorldSnapshot) : Result RecoveredObligation := do
  newWithEvidence actionId spec registeredTick (← PredicateEvidence.untrusted frontier)

def newLaboratory (actionId : ActionId) (spec : ObligationSpec) (registeredTick : GameTick)
    (frontier : WorldSnapshot) : Result RecoveredObligation := do
  newWithEvidence actionId spec registeredTick (← PredicateEvidence.ofLaboratory frontier)

def observeWithEvidence (monitor : RecoveredObligation) (evidence : PredicateEvidence) :
    Result Unit × RecoveredObligation :=
  let (result, runtime) := monitor.runtime.stepTickWithEvidence evidence
  (result, { monitor with runtime := runtime })

def observe (monitor : RecoveredObligation) (snapshot : WorldSnapshot) :
    Result Unit × RecoveredObligation :=
  let (result, runtime) := monitor.runtime.stepTick snapshot
  (result, { monitor with runtime := runtime })

def observeLaboratory (monitor : RecoveredObligation) (snapshot : WorldSnapshot) :
    Result Unit × RecoveredObligation :=
  let (result, runtime) := monitor.runtime.stepTickLaboratory snapshot
  (result, { monitor with runtime := runtime })

def observationInterrupted (monitor : RecoveredObligation) : Result Unit × RecoveredObligation :=
  let (result, runtime) := monitor.runtime.observationInterrupted monitor.actionId
  (result, { monitor with runtime := runtime })

def lastObservationAnchor (monitor : RecoveredObligation) : Option StateAnchor :=
  monitor.runtime.observationAnchors.get? monitor.actionId

/-- The frontier of a restart precedes or forks the last accepted observation. -/
def restartRegresses (incoming previous : StateAnchor) : Bool :=
  decide (incoming.fortressId ≠ previous.fortressId) || decide (incoming.tick < previous.tick) ||
    decide (incoming.cursor.epoch < previous.cursor.epoch) ||
    (decide (incoming.cursor.epoch = previous.cursor.epoch) &&
      (decide (incoming.cursor.sequence < previous.cursor.sequence) ||
        (decide (incoming.cursor = previous.cursor) && decide (incoming ≠ previous))))

/-- Another restart: a settled obligation is kept, an active one starts over at the frontier. -/
def afterRestartWithEvidence (monitor : RecoveredObligation) (evidence : PredicateEvidence) :
    Result RecoveredObligation := do
  let frontier := evidence.snapshot
  if !frontier.hashIsValid then
    throw (.new .checksumMismatch "recovered obligation requires a valid durable frontier")
  if monitor.lastObservationAnchor.any (restartRegresses frontier.anchor) then
    throw (.new .staleAnchor
      "restart frontier regressed or forked the last accepted observation")
  match monitor.runtime.obligations.get? monitor.actionId with
  | none => throw (.new .internalInvariantViolation "recovery monitor lost its obligation")
  | some obligation =>
      if !obligation.status.isActive then return monitor
      if frontier.fortressId ≠ monitor.recoveryAnchor.fortressId then
        throw (.new .staleAnchor "recovery cannot move an obligation to another fortress")
      newWithEvidence monitor.actionId obligation.spec obligation.registeredTick evidence

def afterRestart (monitor : RecoveredObligation) (frontier : WorldSnapshot) :
    Result RecoveredObligation := do
  monitor.afterRestartWithEvidence (← PredicateEvidence.untrusted frontier)

def afterRestartLaboratory (monitor : RecoveredObligation) (frontier : WorldSnapshot) :
    Result RecoveredObligation := do
  monitor.afterRestartWithEvidence (← PredicateEvidence.ofLaboratory frontier)

end RecoveredObligation

/-! ## Runs -/

namespace ObligationRuntime

/-- The calls that may change a runtime. The three ways to step it differ in the evidence that
they bind: `stepTick` and `stepTickLaboratory` bind their snapshot, which may fail. -/
inductive Operation where
  | registerObligation (actionId : ActionId) (spec : ObligationSpec) (currentTick : GameTick)
  | registerObligationAt (actionId : ActionId) (spec : ObligationSpec) (snapshot : WorldSnapshot)
  | observationInterrupted (actionId : ActionId)
  | stepTickUnder (evidence : Result PredicateEvidence)
  | requestCancel (actionId : ActionId) (currentTick : GameTick)
  | requestCancelWithSteps (actionId : ActionId) (currentTick : GameTick) (steps : U 64)
  | recordDrainProgress (certificate : DrainProgressCertificate)
  | finalizeCancel (actionId : ActionId) (currentTick : GameTick)
      (certificate : DrainProgressCertificate)

def perform (runtime : ObligationRuntime) : Operation → Result Unit × ObligationRuntime
  | .registerObligation actionId spec tick => runtime.registerObligation actionId spec tick
  | .registerObligationAt actionId spec snapshot =>
      runtime.registerObligationAt actionId spec snapshot
  | .observationInterrupted actionId => runtime.observationInterrupted actionId
  | .stepTickUnder evidence => runtime.stepTickUnder evidence
  | .requestCancel actionId tick => runtime.requestCancel actionId tick
  | .requestCancelWithSteps actionId tick steps =>
      runtime.requestCancelWithSteps actionId tick steps
  | .recordDrainProgress certificate => runtime.recordDrainProgress certificate
  | .finalizeCancel actionId tick certificate => runtime.finalizeCancel actionId tick certificate

end ObligationRuntime

/-- The two owners of obligations: the runtime, and the monitor of a single obligation after a
discontinuity, which observes and restarts only. -/
inductive ObligationMonitor where
  | runtime (runtime : ObligationRuntime)
  | recovered (monitor : RecoveredObligation)

namespace ObligationMonitor

/-- What a call came to: an operation and whether it was accepted, an active obligation that
starts over at a frontier, or a restart that changed nothing. -/
inductive Event where
  | call (operation : ObligationRuntime.Operation) (accepted : Bool)
  | recovered (actionId : ActionId) (frontier : GameTick)
  | unchanged

/-- The obligations of either owner. -/
def tracked : ObligationMonitor → ObligationRuntime
  | .runtime owner => owner
  | .recovered monitor => monitor.runtime

/-- The restart of an active obligation starts it over. -/
def restartEvent (monitor : RecoveredObligation) (frontier : GameTick) : Event :=
  if (monitor.runtime.obligations.get? monitor.actionId).any (·.status.isActive) then
    .recovered monitor.actionId frontier
  else .unchanged

inductive Step : ObligationMonitor → Event → ObligationMonitor → Prop
  | call (runtime : ObligationRuntime) (operation : ObligationRuntime.Operation) :
      Step (.runtime runtime) (.call operation (runtime.perform operation).1.isOk)
        (.runtime (runtime.perform operation).2)
  | observe (monitor : RecoveredObligation) (evidence : Result PredicateEvidence) :
      Step (.recovered monitor)
        (.call (.stepTickUnder evidence) (monitor.runtime.stepTickUnder evidence).1.isOk)
        (.recovered { monitor with runtime := (monitor.runtime.stepTickUnder evidence).2 })
  | interrupted (monitor : RecoveredObligation) :
      Step (.recovered monitor)
        (.call (.observationInterrupted monitor.actionId) monitor.observationInterrupted.1.isOk)
        (.recovered monitor.observationInterrupted.2)
  | restarted {monitor monitor' : RecoveredObligation} {evidence : PredicateEvidence}
      (h : monitor.afterRestartWithEvidence evidence = .ok monitor') :
      Step (.recovered monitor) (restartEvent monitor evidence.snapshot.tick) (.recovered monitor')
  | refused (monitor : RecoveredObligation) : Step (.recovered monitor) .unchanged
      (.recovered monitor)

/-- A runtime starts empty, and a recovered monitor at its first recovery. -/
inductive Started : List Event → ObligationMonitor → Prop
  | new : Started [] (.runtime .new)
  | recovered {actionId : ActionId} {spec : ObligationSpec} {registeredTick : GameTick}
      {evidence : PredicateEvidence} {monitor : RecoveredObligation}
      (h : RecoveredObligation.newWithEvidence actionId spec registeredTick evidence =
        .ok monitor) :
      Started [.recovered actionId evidence.snapshot.tick] (.recovered monitor)

end ObligationMonitor

end Dfmcp
