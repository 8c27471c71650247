import Dfmcp.World.Delta

/-!
# The durable ledger

`ledger.rs`: observation capsules (a delta sealed between two anchors), witness sets for
optimistic concurrency, and the ledger that stages and publishes capsules and journals effects.

A method that takes `&mut self` is a function from a ledger to its result *and* the ledger it
leaves, so that what a failing call leaves behind is part of the model.
-/

namespace Dfmcp

open Machine

def maxLedgerCapsules : Nat := 65536
def maxLedgerEffects : Nat := 65536
def maxEffectIdBytes : Nat := 256
def maxEffectErrorBytes : Nat := 4096

/-! ## Capsules -/

structure ObservationCapsule where
  basisAnchor : StateAnchor
  successorAnchor : StateAnchor
  delta : StateDelta
  capsuleDigest : Digest32
  publishedAtTick : GameTick
deriving DecidableEq

def computeCapsuleDigest (basis successor : StateAnchor) (delta : StateDelta)
    (publishedAtTick : GameTick) : Digest32 :=
  Digest32.ofBytes (putStr "dfmcp-observation-capsule-v1" ++ putAnchor basis ++
    putAnchor successor ++ putBytes delta.canonicalBytes ++ putU64 publishedAtTick)

namespace ObservationCapsule

def new (basis successor : StateAnchor) (delta : StateDelta) (publishedAtTick : GameTick) :
    Result ObservationCapsule := do
  if basis.fortressId ≠ successor.fortressId then
    throw (.new .staleAnchor
      "observation capsule basis and successor must belong to the same fortress")
  if delta.fortressId ≠ basis.fortressId then
    throw (.new .staleAnchor "delta belongs to a different fortress than the basis anchor")
  if delta.baseCursor ≠ basis.cursor then
    throw (.new .cursorGap "delta base_cursor does not match basis anchor cursor")
  if delta.targetCursor ≠ successor.cursor then
    throw (.new .cursorGap "delta target_cursor does not match successor anchor cursor")
  if delta.baseHash ≠ basis.stateHash then
    throw (.new .staleAnchor ("delta base_hash does not match basis anchor state_hash; " ++
      "refusing to capsule a tampered chain"))
  if delta.targetHash ≠ successor.stateHash then
    throw (.new .staleAnchor ("delta target_hash does not match successor anchor state_hash; " ++
      "refusing to capsule an unverified transition"))
  if delta.targetTick ≠ successor.tick ∨ successor.tick < basis.tick then
    throw (.new .staleAnchor "delta target tick does not match a monotonic successor anchor")
  if delta.changes.length > maxStateDeltaChanges ∨ delta.truncated ∨ delta.continuation.isSome ∨
      delta.targetCursor.epoch ≠ delta.baseCursor.epoch ∨
      delta.targetCursor.sequence ≤ delta.baseCursor.sequence then
    throw (.new .cursorGap ("partial, unbounded, or non-advancing deltas cannot be sealed as " ++
      "complete observation capsules"))
  if publishedAtTick < successor.tick then
    throw (.new .invalidRequest
      "observation capsule publication tick precedes its successor state")
  pure {
    basisAnchor := basis
    successorAnchor := successor
    delta
    capsuleDigest := computeCapsuleDigest basis successor delta publishedAtTick
    publishedAtTick }

/-- The capsule's digest and internal anchor continuity. -/
def integrityIsValid (c : ObservationCapsule) : Bool :=
  c.basisAnchor.fortressId = c.successorAnchor.fortressId ∧
    c.delta.fortressId = c.basisAnchor.fortressId ∧
    c.delta.baseCursor = c.basisAnchor.cursor ∧
    c.delta.targetCursor = c.successorAnchor.cursor ∧
    c.delta.baseHash = c.basisAnchor.stateHash ∧
    c.delta.targetHash = c.successorAnchor.stateHash ∧
    c.delta.targetTick = c.successorAnchor.tick ∧
    c.successorAnchor.tick ≥ c.basisAnchor.tick ∧
    c.delta.changes.length ≤ maxStateDeltaChanges ∧
    c.delta.targetCursor.epoch = c.delta.baseCursor.epoch ∧
    c.delta.targetCursor.sequence > c.delta.baseCursor.sequence ∧
    ¬ c.delta.truncated ∧
    c.delta.continuation.isNone ∧
    c.publishedAtTick ≥ c.successorAnchor.tick ∧
    c.capsuleDigest =
      computeCapsuleDigest c.basisAnchor c.successorAnchor c.delta c.publishedAtTick

end ObservationCapsule

/-! ## Witness sets -/

/-- A witnessed entity: its identifier, generation and revision. -/
abbrev EntityWitness := EntityId ×ₗ U 32 ×ₗ U 64

namespace EntityWitness

def id (w : EntityWitness) : EntityId := (ofLex w).1
def generation (w : EntityWitness) : U 32 := (ofLex (ofLex w).2).1
def revision (w : EntityWitness) : U 64 := (ofLex (ofLex w).2).2

end EntityWitness

structure WitnessSet where
  positiveEntities : BTreeSet EntityWitness
  negativeEntities : BTreeSet EntityId
  witnessedChunks : BTreeMap ChunkCoord (U 64)

namespace WitnessSet

def new : WitnessSet := ⟨.nil, .nil, .nil⟩

def addPositiveEntity (w : WitnessSet) (id : EntityId) (generation : U 32) (revision : U 64) :
    WitnessSet :=
  { w with positiveEntities := w.positiveEntities.insert (toLex (id, toLex (generation, revision))) () }

def addNegativeEntity (w : WitnessSet) (id : EntityId) : WitnessSet :=
  { w with negativeEntities := w.negativeEntities.insert id () }

def addChunk (w : WitnessSet) (coord : ChunkCoord) (revision : U 64) : WitnessSet :=
  { w with witnessedChunks := w.witnessedChunks.insert coord revision }

/-- The loop over the witnessed entities, for one upserted record. -/
def checkPositive (record : EntityRecord) : List EntityWitness → Result Unit
  | [] => .ok ()
  | w :: rest =>
      if record.id = w.id then
        if record.generation ≠ w.generation then
          .error (.new .conflict ("ABA generation conflict: entity " ++ toString w.id ++
            " generation changed from " ++ toString w.generation ++ " to " ++
            toString record.generation))
        else if record.revision ≠ w.revision then
          .error (.new .conflict ("revision conflict: entity " ++ toString w.id ++
            " revision changed from " ++ toString w.revision ++ " to " ++
            toString record.revision))
        else checkPositive record rest
      else checkPositive record rest

/-- What one change of a delta does to the witnessed reads. Changes other than to entities are
not looked at. -/
def checkChange (w : WitnessSet) : WorldChange → Result Unit
  | .upsertEntity record =>
      if w.negativeEntities.contains record.id then
        .error (.new .conflict ("negative-read phantom conflict: entity " ++ toString record.id ++
          " was asserted absent but was inserted"))
      else checkPositive record w.positiveEntities.keys
  | .removeEntity deletedId _ _ =>
      if w.positiveEntities.keys.any fun p => p.id = deletedId then
        .error (.new .conflict ("conflict: witnessed positive entity " ++ toString deletedId ++
          " was deleted"))
      else .ok ()
  | _ => .ok ()

/-- The loop of `validate_against_delta`. -/
def checkChanges (w : WitnessSet) : List WorldChange → Result Unit
  | [] => .ok ()
  | change :: rest => do
      w.checkChange change
      w.checkChanges rest

def validateAgainstDelta (w : WitnessSet) (delta : StateDelta) : Result Unit :=
  w.checkChanges delta.changes

end WitnessSet

/-! ## The ledger -/

structure EffectJournalRecord where
  effectId : String
  idempotencyKey : String
  planDigest : Digest32
  state : CommitState
  dispatchAttemptedTick : Option GameTick
  receiptDigest : Option Digest32
  observedStateHash : Option Digest32
  errorMessage : Option String
deriving DecidableEq

structure DurableLedger where
  fortressId : FortressId
  epoch : U 64
  rootSnapshot : WorldSnapshot
  headSnapshot : WorldSnapshot
  capsules : List ObservationCapsule
  effects : BTreeMap String EffectJournalRecord
  unpublishedCapsule : Option ObservationCapsule
deriving DecidableEq

namespace DurableLedger

def new (rootSnapshot : WorldSnapshot) : DurableLedger where
  fortressId := rootSnapshot.fortressId
  epoch := rootSnapshot.cursor.epoch
  rootSnapshot := rootSnapshot
  headSnapshot := rootSnapshot
  capsules := []
  effects := .nil
  unpublishedCapsule := none

def headAnchor (l : DurableLedger) : StateAnchor := l.headSnapshot.anchor

def capsuleCount (l : DurableLedger) : Nat := l.capsules.length

def hasStagedCapsule (l : DurableLedger) : Bool := l.unpublishedCapsule.isSome

def effect (l : DurableLedger) (idempotencyKey : String) : Option EffectJournalRecord :=
  l.effects.get? idempotencyKey

/-! ### Capsules -/

/-- The checks of `stage_capsule`, up to the one on what is staged already. -/
def stageChecks (l : DurableLedger) (capsule : ObservationCapsule) : Result Unit := do
  if ¬ capsule.integrityIsValid then
    throw (.new .corruptLedger "staged observation capsule failed integrity validation")
  if capsule.basisAnchor.fortressId ≠ l.fortressId then
    throw (.new .staleAnchor "staged capsule belongs to a different fortress than the ledger root")
  if capsule.basisAnchor.cursor ≠ l.headAnchor.cursor then
    throw (.new .cursorGap "staged capsule basis does not match ledger head anchor cursor")
  if capsule.basisAnchor.stateHash ≠ l.headAnchor.stateHash then
    throw (.new .cursorGap "staged capsule basis state_hash does not match ledger head state_hash")
  if capsule.basisAnchor.tick ≠ l.headAnchor.tick then
    throw (.new .staleAnchor "staged capsule basis tick does not match ledger head tick")
  let reconstructed ← (applyDelta l.headSnapshot capsule.delta).mapError fun error =>
    .new .corruptLedger
      ("staged capsule delta does not reconstruct its successor: " ++ error.display)
  if reconstructed.anchor ≠ capsule.successorAnchor then
    throw (.new .corruptLedger
      "staged capsule successor anchor does not match its reconstructed state")

def stageCapsule (l : DurableLedger) (capsule : ObservationCapsule) :
    Result Unit × DurableLedger :=
  match l.stageChecks capsule with
  | .error error => (.error error, l)
  | .ok () =>
      match l.unpublishedCapsule with
      | some existing =>
          if existing = capsule then (.ok (), l)
          else (.error (.new .conflict "a different observation capsule is already staged"), l)
      | none => (.ok (), { l with unpublishedCapsule := some capsule })

/-- The capsule is taken out at once, and put back on every path that does not publish it. -/
def publishStaged (l : DurableLedger) : Result StateAnchor × DurableLedger :=
  match l.unpublishedCapsule with
  | none => (.error (.new .invalidRequest "no staged capsule available to publish"), l)
  | some capsule =>
      let taken := { l with unpublishedCapsule := none }
      let restored := { taken with unpublishedCapsule := some capsule }
      if ¬ capsule.integrityIsValid then
        (.error (.new .corruptLedger
          "staged observation capsule failed publication-time integrity validation"), restored)
      else if taken.capsules.length ≥ maxLedgerCapsules then
        (.error (.new .budgetExceeded
          "observation capsule ledger reached its explicit bound"), restored)
      else if capsule.basisAnchor ≠ taken.headAnchor then
        (.error (.new .cursorGap ("ledger head moved between stage_capsule and publish_staged; " ++
          "refusing to publish a stale capsule")), restored)
      else match applyDelta taken.headSnapshot capsule.delta with
        | .ok snapshot =>
            if snapshot.anchor = capsule.successorAnchor then
              (.ok capsule.successorAnchor,
                { taken with capsules := taken.capsules ++ [capsule], headSnapshot := snapshot })
            else
              (.error (.new .corruptLedger
                "staged capsule successor changed before publication"), restored)
        | .error error =>
            (.error (.new .corruptLedger
              ("staged capsule failed publication-time reconstruction: " ++ error.display)),
              restored)

def abortStaged (l : DurableLedger) : DurableLedger := { l with unpublishedCapsule := none }

/-! ### The effect journal -/

/-- Store a record under a key. -/
def putEffect (l : DurableLedger) (key : String) (effect : EffectJournalRecord) : DurableLedger :=
  { l with effects := l.effects.insert key effect }

def unknownKey (idempotencyKey : String) : DfmcpError :=
  .new .invalidRequest ("unknown idempotency key '" ++ idempotencyKey ++ "'")

def recordDispatchAttempt (l : DurableLedger) (effectId idempotencyKey : String)
    (planDigest : Digest32) (tick : GameTick) : Result Unit × DurableLedger :=
  if strLen effectId = 0 ∨ strLen idempotencyKey = 0 ∨ strLen effectId > maxEffectIdBytes ∨
      strLen idempotencyKey > maxEffectIdBytes then
    (.error (.new .invalidRequest
      "effect and idempotency identifiers must be nonempty and bounded"), l)
  else match l.effects.get? idempotencyKey with
    | some existing =>
        if existing.effectId = effectId ∧ existing.planDigest = planDigest then (.ok (), l)
        else (.error (.new .conflict
          "idempotency key is already bound to a different effect or plan"), l)
    | none =>
        if l.effects.size ≥ maxLedgerEffects then
          (.error (.new .budgetExceeded "effect journal reached its explicit record bound"), l)
        else
          (.ok (), l.putEffect idempotencyKey
            { effectId
              idempotencyKey
              planDigest
              state := .committing
              dispatchAttemptedTick := some tick
              receiptDigest := none
              observedStateHash := none
              errorMessage := none })

def recordCommitReceipt (l : DurableLedger) (idempotencyKey : String) (receiptDigest : Digest32) :
    Result Unit × DurableLedger :=
  match l.effects.get? idempotencyKey with
  | none => (.error (unknownKey idempotencyKey), l)
  | some effect =>
      if (effect.state = .appliedAwaitingVerification ∨ effect.state = .verified) ∧
          effect.receiptDigest = some receiptDigest then (.ok (), l)
      else if effect.state ≠ .committing then
        (.error (.new .conflict "commit receipt is invalid for the effect's current state"), l)
      else
        (.ok (), l.putEffect idempotencyKey
          { effect with
            state := .appliedAwaitingVerification
            receiptDigest := some receiptDigest })

def recordVerified (l : DurableLedger) (idempotencyKey : String) (observedStateHash : Digest32) :
    Result Unit × DurableLedger :=
  if observedStateHash = Digest32.zero then
    (.error (.new .invalidRequest "verified effect requires a nonzero observed state hash"), l)
  else match l.effects.get? idempotencyKey with
    | none => (.error (unknownKey idempotencyKey), l)
    | some effect =>
        if effect.state = .verified ∧ effect.observedStateHash = some observedStateHash then
          (.ok (), l)
        else if effect.state ≠ .appliedAwaitingVerification ∨ effect.receiptDigest.isNone then
          (.error (.new .conflict "effect cannot be verified before its commit receipt"), l)
        else
          (.ok (), l.putEffect idempotencyKey
            { effect with
              observedStateHash := some observedStateHash
              state := .verified })

def recordIndeterminate (l : DurableLedger) (idempotencyKey message : String) :
    Result Unit × DurableLedger :=
  if strLen message > maxEffectErrorBytes then
    (.error (.new .budgetExceeded "effect error message exceeds its explicit byte bound"), l)
  else match l.effects.get? idempotencyKey with
    | none => (.error (unknownKey idempotencyKey), l)
    | some effect =>
        if effect.state = .indeterminate ∧ effect.errorMessage = some message then (.ok (), l)
        else if ¬ (effect.state = .committing ∨ effect.state = .appliedAwaitingVerification) then
          (.error (.new .conflict "only an unresolved in-flight effect can become indeterminate"),
            l)
        else
          (.ok (), l.putEffect idempotencyKey
            { effect with
              state := .indeterminate
              errorMessage := some message })

/-- What recovery does to one record. -/
def recoverEffect (effect : EffectJournalRecord) : EffectJournalRecord :=
  if effect.state = .committing ∧ effect.dispatchAttemptedTick.isSome ∧
      effect.receiptDigest.isNone then
    { effect with
      state := .indeterminate
      errorMessage := some
        "Recovery: dispatch outcome unknown prior to crash; reconciliation required" }
  else effect

def recoverFromCrash (l : DurableLedger) : DurableLedger :=
  { l with
    unpublishedCapsule := none
    effects := l.effects.mapValues fun _ effect => recoverEffect effect }

end DurableLedger

end Dfmcp
