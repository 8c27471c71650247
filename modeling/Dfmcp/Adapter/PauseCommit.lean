import Dfmcp.Adapter.EffectJournal

/-!
# One-shot pause commits

`pause_commit.rs` and `pause_reconciliation.rs`: a prepared pause effect is dispatched once, after the
start of its commit is durable, and what the bridge answers is recorded when it proves an outcome.

The source of commits is a parameter: what its preflight answers, and what its one call answers. The
clock is read up to three times. The journal is written up to twice, once to start the commit and
once to record what came of it, and either write may fail (`CommitFaults`). Whether the source is
fenced afterwards is not observed here.
-/

namespace Dfmcp

open Machine

/-- What the bridge reports of an effect. -/
structure PauseEffect where
  bridgeGeneration : U 64
  known : Bool
  applied : Bool
  paused : Bool
  observedTick : U 64
  prepareToken : Bytes
  receiptDigest : Bytes
deriving DecidableEq

namespace DurablePauseRecord

def safeToDispatch (record : DurablePauseRecord) (bridgeGeneration : U 64) : Bool :=
  record.state = .prepared ∧ record.bridgeGeneration = bridgeGeneration

end DurablePauseRecord

namespace PauseCommit

open EffectJournal ControlEffectJournal

def rejected (message : String) : DfmcpError := .new .adapterRejected message

/-! ## Evidence -/

def identityBytes (domain : Bytes) (key : String) (plan : Digest32) (generation : U 64) : Bytes :=
  domain ++ beBytes 8 generation.val ++ utf8 key ++ [0] ++ plan.bytes

def receiptDigest (record : DurablePauseRecord) (tick : U 64) : Digest32 :=
  .ofBytes (identityBytes (utf8 "dfmcp-control-receipt-v2" ++ [0]) record.idempotencyKey
    record.planDigest record.bridgeGeneration ++ [EffectJournal.putBool record.desiredPaused] ++
    beBytes 8 tick.val)

/-- The receipt of a proven outcome. Missing evidence, or that of another generation, is none. -/
def verifiedReceipt (record : DurablePauseRecord) (effect : PauseEffect) :
    Result (Option Digest32) :=
  if effect.bridgeGeneration ≠ record.bridgeGeneration ∨ !effect.known then .ok none
  else if effect.prepareToken ≠ [] ∧ effect.prepareToken ≠ record.prepareToken.bytes then
    .error (rejected "pause reconciliation token names another prepared effect")
  else if effect.receiptDigest = [] then
    if effect.applied then .error (rejected "applied pause effect has no terminal receipt")
    else .ok none
  else if h : effect.receiptDigest.length = 32 then
    let digest : Digest32 := ⟨effect.receiptDigest, h⟩
    if effect.observedTick < record.expectedGameTick ∨
        effect.applied ≠ decide (effect.paused = record.desiredPaused) ∨
        digest ≠ receiptDigest record effect.observedTick then
      .error (rejected
        "pause terminal receipt or observed outcome disagrees with durable identity")
    else .ok (some digest)
  else .error (rejected "pause terminal receipt must contain exactly 32 bytes")

/-- Record what a reply proves, or that it proves nothing. -/
def reconcileReply (key : String) (plan : Digest32) (effect : PauseEffect)
    (context : OperationContext) : ControlEffectJournal.Action DurablePauseRecord := do
  .of (authorize context)
  if (← get).readOnly then
    throw (.new .capabilityDenied "offline recovery cannot reconcile or write evidence")
  ensureHealthy context
  match (← get).records.get? key with
  | none => throw (invalid "unknown durable pause effect")
  | some record =>
    if record.planDigest ≠ plan then throw (conflict "pause effect plan digest disagrees")
    if !record.state.reconciliationRequired then
      throw (conflict "only unresolved commit attempts may be reconciled")
    match verifiedReceipt record effect with
    | .error e => throw e
    | .ok none => markIndeterminate key plan context
    | .ok (some receipt) =>
      recordReconciliation key plan effect.bridgeGeneration true effect.applied effect.paused
        effect.observedTick (some receipt) context

/-! ## The commit -/

/-- What a source answers. -/
structure PauseCommitSource where
  preflight : Nat → OperationContext → Result (U 64)
  commitPrepared : DurablePauseRecord → Nat → OperationContext → Result PauseEffect

structure PauseCommitOutcome where
  record : DurablePauseRecord
  dispatchAttempted : Bool
  replayedTerminal : Bool
deriving DecidableEq

/-- The time since the start of the call, before the preflight, after it and after the start of the
commit is durable. -/
structure CommitClock where
  beforePreflight : Nat
  afterPreflight : Nat
  afterStart : Nat

/-- Where the two writes of a commit fail, if they do. -/
structure CommitFaults where
  start : Option Nat
  evidence : Option Nat

def remaining (context : OperationContext) (elapsed : Nat) : Result Nat := do
  authorize context
  let wall := millis context.budget.maxWallMillis.val
  if elapsed ≤ wall ∧ wall - elapsed ≥ millis 1 then pure (wall - elapsed)
  else throw (exhausted "pause commit deadline exhausted")

/-- The record of the prepared effect, when the call names it; of a retained outcome, that outcome. -/
def admitKey (key : String) (plan : Digest32) (token : PrepareToken) (context : OperationContext) :
    ControlEffectJournal.Action DurablePauseRecord := do
  .of (authorize context)
  if (← get).readOnly then
    throw (.new .capabilityDenied "offline evidence recovery cannot commit effects")
  if key = "" ∨ strLen key > 512 ∨ key.toList.any isControl then
    throw (invalid "invalid pause idempotency key")
  ensureHealthy context
  match (← get).records.get? key with
  | none => throw (invalid "pause effect must be durably prepared before commit")
  | some record =>
    if record.planDigest ≠ plan ∨ record.prepareToken ≠ token then
      throw (conflict "commit differs from the durable preparation")
    if record.state = .cancelledBeforeDispatch then
      throw (conflict "cancelled pause key remains permanently retired")
    pure record

/-- Everything up to the durable start of the commit: a retained outcome, or the started record. -/
def start (source : PauseCommitSource) (key : String) (plan : Digest32) (token : PrepareToken)
    (context : OperationContext) (clock : CommitClock) :
    ControlEffectJournal.Action (PauseCommitOutcome ⊕ DurablePauseRecord) := do
  let record ← admitKey key plan token context
  if record.state.terminal then pure (.inl ⟨record, false, true⟩)
  else if record.state.reconciliationRequired then
    throw (.new .effectIndeterminate
      "a previous commit attempt is unresolved; reconcile without retrying the mutation")
  else
    let allowance ← .of (remaining context clock.beforePreflight)
    let generation ← .of (source.preflight allowance context)
    if !record.safeToDispatch generation then
      throw (.new .effectIndeterminate
        "preparation belongs to another bridge generation; no dispatch was attempted")
    let _ ← .of (remaining context clock.afterPreflight)
    let started ← beginCommit key plan generation context
    pure (.inr started)

/-- The refusal of an attempt whose outcome is unknown. The annotation is best-effort. -/
def ambiguous {α : Type} (record : DurablePauseRecord) (context : OperationContext)
    (message : String) (journal : ControlEffectJournal) : Result α × ControlEffectJournal :=
  let (_, journal) :=
    (markIndeterminate record.idempotencyKey record.planDigest context).exec journal
  (.error (.new .effectIndeterminate message), journal)

/-- What a reply to the one dispatch comes to. -/
def conclude (key : String) (plan : Digest32) (context : OperationContext)
    (started : DurablePauseRecord) (reply : Result PauseEffect) (journal : ControlEffectJournal) :
    Result PauseCommitOutcome × ControlEffectJournal :=
  match reply with
  | .error _ =>
      ambiguous started context
        "pause dispatch outcome is ambiguous; recover and reconcile rather than retry" journal
  | .ok effect =>
      match (reconcileReply key plan effect context).exec journal with
      | (.ok record, journal) => (.ok ⟨record, true, false⟩, journal)
      | (.error _, journal) =>
          ambiguous started context ("pause reply lacks durably acknowledged verified evidence; " ++
            "reopen and reconcile") journal

/-- A commit: what it returns, the journal it leaves, and the dispatch it made: the record it passed
to `commit_prepared`, and the journal as it was then. -/
structure Committed where
  result : Result PauseCommitOutcome
  journal : ControlEffectJournal
  dispatch : Option (DurablePauseRecord × ControlEffectJournal)

def commitWithClock (source : PauseCommitSource) (key : String) (plan : Digest32)
    (token : PrepareToken) (context : OperationContext) (clock : CommitClock)
    (faults : CommitFaults) (journal : ControlEffectJournal) : Committed :=
  match (start source key plan token context clock).exec (journal.withFault faults.start) with
  | (.error e, journal) => ⟨.error e, journal, none⟩
  | (.ok (.inl outcome), journal) => ⟨.ok outcome, journal, none⟩
  | (.ok (.inr started), journal) =>
      let journal := journal.withFault faults.evidence
      match remaining context clock.afterStart with
      | .error _ =>
          let (result, journal) := ambiguous started context ("deadline or authority ended after " ++
            "durable commit intent; no same-effect retry is allowed") journal
          ⟨result, journal, none⟩
      | .ok allowance =>
          let (result, after) := conclude key plan context started
            (source.commitPrepared started allowance context) journal
          ⟨result, after, some (started, journal)⟩

end PauseCommit

end Dfmcp
