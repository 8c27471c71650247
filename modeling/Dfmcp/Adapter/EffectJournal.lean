import Dfmcp.Library.FrameLog
import Dfmcp.Core.Context
import Dfmcp.World.CanonicalDecode
import Dfmcp.World.Query

/-!
# The control effect journal

`control_effect_journal.rs` and `control_effect_cancellation.rs`: the durable coordinator state of
pause effects. Every change of a record is one frame appended to a file and synced; reopening the
file replays the frames. A frame carries the digest of its own bytes and of the frame before it.

A storage is its bytes and the point where its next write fails, if it does (`Storage`): a failing
write leaves some of the bytes it was given, and the journal is fenced until it is reopened. File
system custody (`validate_identity`) is left out: it refuses a storage before anything is read or
written. `usize` is 64 bits wide.
-/

namespace Dfmcp

open Machine Wire

/-! ## Records -/

inductive EffectTailRecovery where
  | refuse
  | truncateIncomplete
deriving DecidableEq

inductive DurablePauseState where
  | prepared
  | commitStarted
  | verifiedApplied
  | verifiedNotApplied
  | indeterminate
  | cancelledBeforeDispatch
deriving DecidableEq

namespace DurablePauseState

/-- The discriminant of the enumeration. -/
def tag : DurablePauseState → UInt8
  | .prepared => 1
  | .commitStarted => 2
  | .verifiedApplied => 3
  | .verifiedNotApplied => 4
  | .indeterminate => 5
  | .cancelledBeforeDispatch => 6

def terminal : DurablePauseState → Bool
  | .verifiedApplied | .verifiedNotApplied | .cancelledBeforeDispatch => true
  | _ => false

def reconciliationRequired : DurablePauseState → Bool
  | .commitStarted | .indeterminate => true
  | _ => false

/-- The changes of state a journal may record. -/
def allows : DurablePauseState → DurablePauseState → Bool
  | .prepared, .commitStarted | .prepared, .cancelledBeforeDispatch => true
  | .commitStarted, .indeterminate | .commitStarted, .verifiedApplied
  | .commitStarted, .verifiedNotApplied => true
  | .indeterminate, .verifiedApplied | .indeterminate, .verifiedNotApplied => true
  | _, _ => false

end DurablePauseState

/-- Sixteen bytes. -/
structure PrepareToken where
  bytes : Bytes
  length_eq : bytes.length = 16
deriving DecidableEq

def PrepareToken.zero : PrepareToken := ⟨List.replicate 16 0, rfl⟩

/-- The token with the given sixteen bytes. -/
def PrepareToken.fromBytes (bytes : Bytes) : PrepareToken :=
  if h : bytes.length = 16 then ⟨bytes, h⟩ else .zero

structure DurablePauseRecord where
  idempotencyKey : String
  planDigest : Digest32
  desiredPaused : Bool
  expectedGameTick : U 64
  bridgeGeneration : U 64
  prepareToken : PrepareToken
  state : DurablePauseState
  effectKnown : Bool
  effectApplied : Bool
  observedPaused : Option Bool
  observedGameTick : Option (U 64)
  receiptDigest : Option Digest32
  revision : U 64
  transitionNumber : U 64
  previousDigest : Digest32
  recordDigest : Digest32
deriving DecidableEq

namespace EffectJournal

def magic : Bytes := utf8 "DFMCEJ01"
def record : Bytes := utf8 "DFMCREC1"
def footer : Bytes := utf8 "DFMCEND1"
def headerBytes : Nat := 72
def frameHeaderBytes : Nat := 44
def maxKeyBytes : Nat := 512
def minBodyBytes : Nat := 120
def maxBodyBytes : Nat := 768
def maxLedgerBytes : Nat := 64 * 1024 * 1024
def maxTransitions : Nat := 16384
def maxEffects : Nat := 4096

def corrupt (message : String) : DfmcpError := .new .corruptLedger message
def invalid (message : String) : DfmcpError := .new .invalidRequest message
def conflict (message : String) : DfmcpError := .new .conflict message
def exhausted (message : String) : DfmcpError := .new .budgetExceeded message

def storageError : DfmcpError :=
  corrupt "control effect journal I/O failed; reopen for verified recovery"

def authorize (context : OperationContext) : Result Unit :=
  context.authorize .controlClock .reversible [] none

def validateKey (key : String) : Result Unit :=
  if key = "" ∨ strLen key > maxKeyBytes ∨ key.toList.any isControl then
    .error (invalid "idempotency key must contain 1..=512 non-control bytes")
  else .ok ()

/-! ## Transitions -/

/-- What the first record of a key must be. -/
def validateFirst (next : DurablePauseRecord) : Result Unit :=
  if next.revision ≠ 1 ∨ next.state ≠ .prepared ∨ next.effectKnown ∨ next.effectApplied ∨
      next.observedPaused.isSome ∨ next.observedGameTick.isSome ∨ next.receiptDigest.isSome then
    .error (corrupt "first durable pause record must be a clean prepared state")
  else .ok ()

/-- What may follow a record of the same key. -/
def validateSuccessor (previous next : DurablePauseRecord) : Result Unit :=
  match U.checkedAdd previous.revision 1 with
  | none => .error (corrupt "pause revision overflow")
  | some revision =>
    if next.revision ≠ revision ∨ next.idempotencyKey ≠ previous.idempotencyKey ∨
        next.planDigest ≠ previous.planDigest ∨ next.desiredPaused ≠ previous.desiredPaused ∨
        next.expectedGameTick ≠ previous.expectedGameTick ∨
        next.bridgeGeneration ≠ previous.bridgeGeneration ∨
        next.prepareToken ≠ previous.prepareToken then
      .error (corrupt "durable pause transition changed immutable effect identity")
    else if !previous.state.allows next.state then
      .error (corrupt "invalid durable pause-effect state transition")
    else .ok ()

/-- The evidence a record carries fits its state. -/
def validateOutcome (next : DurablePauseRecord) : Result Unit :=
  if next.state = .verifiedApplied ∨ next.state = .verifiedNotApplied then
    if !next.effectKnown ∨ next.observedPaused.isNone ∨ next.observedGameTick.isNone ∨
        next.effectApplied ≠ decide (next.state = .verifiedApplied) then
      .error (corrupt "terminal pause-effect record lacks a complete reconciled outcome")
    else if next.effectApplied ∧
        (next.receiptDigest.isNone ∨ next.observedPaused ≠ some next.desiredPaused) then
      .error (corrupt "verified applied pause effect lacks matching pause-state receipt evidence")
    else .ok ()
  else if next.effectKnown ∨ next.effectApplied ∨ next.observedPaused.isSome ∨
      next.observedGameTick.isSome ∨ next.receiptDigest.isSome then
    .error (corrupt "undispatched or unresolved pause-effect record carried terminal evidence")
  else .ok ()

def validateTransition (previous : Option DurablePauseRecord) (next : DurablePauseRecord) :
    Result Unit := do
  validateKey next.idempotencyKey
  if next.bridgeGeneration = 0 ∨ next.bridgeGeneration = U.max 64 ∨ next.prepareToken = .zero ∨
      next.transitionNumber = 0 ∨ next.previousDigest = .zero then
    throw (corrupt "invalid durable pause record identity")
  match previous with
  | none => validateFirst next
  | some previous => validateSuccessor previous next
  validateOutcome next

/-! ## Frames -/

def headerHash (bytes : Bytes) : Digest32 :=
  .ofBytes (utf8 "dfmcp-control-effect-journal-header/1" ++ [0] ++ bytes)

def frameHeaderHash (id : Digest32) (bytes : Bytes) : Digest32 :=
  .ofBytes (utf8 "dfmcp-control-effect-journal-frame-header/1" ++ [0] ++ id.bytes ++ bytes)

def frameHash (id : Digest32) (bytes : Bytes) : Digest32 :=
  .ofBytes (utf8 "dfmcp-control-effect-journal-record/1" ++ [0] ++ id.bytes ++ bytes)

/-- The journal's identifier and the digest of its header. -/
def decodeHeader (bytes : Bytes) : Result (Digest32 × Digest32) :=
  let id := Digest32.fromBytes ((bytes.drop 8).take 32)
  let digest := Digest32.fromBytes ((bytes.drop 40).take 32)
  if bytes.take 8 ≠ magic then .error (corrupt "unsupported control effect journal schema")
  else if id = .zero ∨ digest ≠ headerHash (bytes.take 40) then
    .error (corrupt "control effect journal header checksum failed")
  else .ok (id, digest)

/-- The length of the body that a frame header announces. -/
def decodeFrameHeader (header : Bytes) (id : Digest32) : Result Nat :=
  let length := ofBe ((header.drop 8).take 4)
  if header.length ≠ frameHeaderBytes ∨ header.take 8 ≠ record then
    .error (corrupt "invalid control record marker")
  else if ¬ (minBodyBytes ≤ length ∧ length ≤ maxBodyBytes) ∨
      (header.drop 12).take 32 ≠ (frameHeaderHash id (header.take 12)).bytes then
    .error (corrupt "control record header checksum failed")
  else .ok length

def putBool (value : Bool) : UInt8 := if value then 1 else 0

def putObservedPaused : Option Bool → UInt8
  | none => 0
  | some false => 1
  | some true => 2

/-- The body of a record's frame. An absent receipt is written as the zero digest. -/
def body (record : DurablePauseRecord) : Bytes :=
  beBytes 8 record.transitionNumber.val ++
  (record.previousDigest.bytes ++
  (beBytes 8 record.revision.val ++
  (beBytes 2 (strLen record.idempotencyKey) ++
  (utf8 record.idempotencyKey ++
  (record.planDigest.bytes ++
  ([putBool record.desiredPaused] ++
  (beBytes 8 record.expectedGameTick.val ++
  (beBytes 8 record.bridgeGeneration.val ++
  ([record.state.tag] ++
  (record.prepareToken.bytes ++
  ([putBool record.effectKnown] ++
  ([putBool record.effectApplied] ++
  ([putObservedPaused record.observedPaused] ++
  (beBytes 8 (record.observedGameTick.getD 0).val ++
  (record.receiptDigest.getD .zero).bytes))))))))))))))

def encodeFrame (id : Digest32) (next : DurablePauseRecord) : Result Bytes :=
  if (body next).length > maxBodyBytes then
    .error (exhausted "control record body exceeds its bound")
  else
    let marker := record ++ beBytes 4 (body next).length
    let header := marker ++ (frameHeaderHash id marker).bytes
    let frame := header ++ body next
    .ok (frame ++ (frameHash id frame).bytes ++ footer)

namespace Read

abbrev Decoder := Wire.Reader DfmcpError

def take (count : Nat) : Decoder Bytes :=
  Wire.take (corrupt "truncated control effect record") count

def byte : Decoder UInt8 := do
  let bytes ← take 1
  pure (bytes.headD 0)

def boolean : Decoder Bool := do
  let byte ← byte
  if byte = 0 then pure false
  else if byte = 1 then pure true
  else fail (corrupt "noncanonical control Boolean")

def u64 : Decoder (U 64) := do
  let bytes ← take 8
  pure (U.wrap (ofBe bytes))

def digest : Decoder Digest32 := do
  let bytes ← take 32
  pure (.fromBytes bytes)

def text (maximum : Nat) : Decoder String := do
  let bytes ← take 2
  let count := ofBe bytes
  if count = 0 ∨ count > maximum then fail (corrupt "control text exceeds its bound")
  else
    let raw ← take count
    match fromUtf8 raw with
    | none => fail (corrupt "control text is not UTF-8")
    | some text =>
      if text.toList.any isControl then
        fail (corrupt "control text contains a control character")
      else pure text

def state : Decoder DurablePauseState := do
  let tag ← byte
  if tag = 1 then pure .prepared
  else if tag = 2 then pure .commitStarted
  else if tag = 3 then pure .verifiedApplied
  else if tag = 4 then pure .verifiedNotApplied
  else if tag = 5 then pure .indeterminate
  else if tag = 6 then pure .cancelledBeforeDispatch
  else fail (corrupt "control effect journal contains an unknown state")

def prepareToken : Decoder PrepareToken := do
  let bytes ← take 16
  pure (.fromBytes bytes)

def observedPaused : Decoder (Option Bool) := do
  let tag ← byte
  if tag = 0 then pure none
  else if tag = 1 then pure (some false)
  else if tag = 2 then pure (some true)
  else fail (corrupt "invalid observed pause tag")

/-- The record of a body, with the digest of its frame. -/
def record (recordDigest : Digest32) : Decoder DurablePauseRecord := do
  let transitionNumber ← u64
  let previousDigest ← digest
  let revision ← u64
  let idempotencyKey ← text maxKeyBytes
  let planDigest ← digest
  let desiredPaused ← boolean
  let expectedGameTick ← u64
  let bridgeGeneration ← u64
  let state ← state
  let prepareToken ← prepareToken
  let effectKnown ← boolean
  let effectApplied ← boolean
  let observedPaused ← observedPaused
  let observedRaw ← u64
  let receiptRaw ← digest
  if observedPaused.isNone ∧ observedRaw ≠ 0 then
    fail (corrupt "absent pause observation carried a noncanonical game tick")
  else
    let left ← remaining
    if left ≠ 0 then fail (corrupt "trailing control record bytes")
    else pure {
      idempotencyKey, planDigest, desiredPaused, expectedGameTick, bridgeGeneration, prepareToken
      state, effectKnown, effectApplied, observedPaused
      observedGameTick := observedPaused.map fun _ => observedRaw
      receiptDigest := if receiptRaw ≠ .zero then some receiptRaw else none
      revision, transitionNumber, previousDigest, recordDigest }

end Read

def frameLength (bodyLength : Nat) : Nat := frameHeaderBytes + bodyLength + 32 + footer.length

def decodeFrame (frame : Bytes) (id : Digest32) : Result DurablePauseRecord := do
  let (header, rest) ← Read.take frameHeaderBytes frame
  let bodyLength ← decodeFrameHeader header id
  if frame.length ≠ frameLength bodyLength then throw (corrupt "control record length mismatch")
  let (bodyBytes, rest) ← Read.take bodyLength rest
  let (digest, rest) ← Read.digest rest
  let (last, _) ← Read.take footer.length rest
  if last ≠ footer ∨ digest ≠ frameHash id (frame.take (frameHeaderBytes + bodyLength)) then
    throw (corrupt "control record checksum or commit footer failed")
  let (decoded, _) ← Read.record digest bodyBytes
  pure decoded

end EffectJournal

/-! ## Storage and the journal -/

/-- A file: its bytes, and how many more bytes it takes before a write fails. -/
structure Storage where
  bytes : Bytes
  fault : Option Nat
deriving DecidableEq

namespace Storage

/-- Write at the end and sync. A write that fails leaves the bytes it got to. -/
def append (storage : Storage) (bytes : Bytes) : Bool × Storage :=
  match storage.fault with
  | none => (true, { storage with bytes := storage.bytes ++ bytes })
  | some room => (false, ⟨storage.bytes ++ bytes.take room, some 0⟩)

/-- Truncate and sync. -/
def truncate (storage : Storage) (length : Nat) : Result Storage :=
  if storage.fault.isSome then .error EffectJournal.storageError
  else .ok { storage with bytes := storage.bytes.take length }

/-- The file as a new process finds it. -/
def restarted (storage : Storage) : Storage := ⟨storage.bytes, none⟩

end Storage

/-- What replaying the frames of a journal computes. -/
structure JournalState where
  id : Digest32
  head : Digest32
  length : Nat
  transitions : Nat
  records : BTreeMap String DurablePauseRecord
deriving DecidableEq

structure ControlEffectJournal extends JournalState where
  storage : Storage
  fenced : Bool
  readOnly : Bool
  repairedTailBytes : Nat
deriving DecidableEq

namespace JournalState

open EffectJournal FrameLog

/-- A revision, one above that of the key's record. -/
def nextRevision (prior : Option DurablePauseRecord) : U 64 :=
  prior.elim 1 fun prior => prior.revision.saturatingAdd 1

def acceptReplay (journal : JournalState) (record : DurablePauseRecord) : Result JournalState := do
  let prior := journal.records.get? record.idempotencyKey
  if !journal.records.contains record.idempotencyKey ∧ journal.records.size ≥ maxEffects then
    throw (exhausted "control effect journal effect limit reached during replay")
  if record.recordDigest = .zero ∨ record.transitionNumber ≠ U.wrap (journal.transitions + 1) ∨
      record.previousDigest ≠ journal.head then
    throw (corrupt "control effect journal sequence or predecessor chain disagrees")
  if record.revision ≠ nextRevision prior then
    throw (corrupt "control effect revision is not contiguous")
  validateTransition prior record
  pure { journal with
    head := record.recordDigest
    transitions := journal.transitions + 1
    records := journal.records.insert record.idempotencyKey record }

/-- One turn of the replay loop, on the bytes that are left. -/
def readFrame (journal : JournalState) (rest : Bytes) : Result (Reading JournalState) := do
  if journal.transitions ≥ maxTransitions then
    throw (exhausted "control effect journal transition limit reached")
  if rest.length < frameHeaderBytes then
    let comparable := min rest.length record.length
    if rest.take comparable ≠ record.take comparable then
      throw (corrupt "control journal trailing bytes are not an incomplete record")
    pure .torn
  else
    let bodyLength ← decodeFrameHeader (rest.take frameHeaderBytes) journal.id
    if rest.length < frameLength bodyLength then pure .torn
    else
      let record ← decodeFrame (rest.take (frameLength bodyLength)) journal.id
      let journal ← journal.acceptReplay record
      pure (.frame { journal with length := journal.length + frameLength bodyLength }
        (frameLength bodyLength))

/-- A journal with no frames. -/
def empty (id headerDigest : Digest32) : JournalState := ⟨id, headerDigest, headerBytes, 0, .nil⟩

end JournalState

namespace ControlEffectJournal

open EffectJournal FrameLog

/-- The identifier of a new journal. -/
def freshId (context : OperationContext) (bridgeGeneration : U 64) : Digest32 :=
  .ofBytes (utf8 "dfmcp-control-effect-journal-incarnation/1" ++ [0] ++
    beBytes 16 context.sessionId.val ++ beBytes 16 context.requestId.val ++
    beBytes 8 bridgeGeneration.val)

/-- The header of a new journal. -/
def freshHeader (context : OperationContext) (bridgeGeneration : U 64) : Bytes :=
  let header := magic ++ (freshId context bridgeGeneration).bytes
  header ++ (headerHash header).bytes

/-- An empty file is given a header when the caller asks for it. -/
def writeHeader (storage : Storage) (context : OperationContext) (initializeEmpty : Bool)
    (bridgeGeneration : U 64) : Result Storage :=
  if storage.bytes.length = 0 ∧ initializeEmpty then
    match storage.append (freshHeader context bridgeGeneration) with
    | (true, storage) => .ok storage
    | (false, _) => .error storageError
  else .ok storage

def openInner (storage : Storage) (context : OperationContext) (initializeEmpty : Bool)
    (bridgeGeneration : U 64) (recovery : EffectTailRecovery) (readOnly : Bool) :
    Result ControlEffectJournal := do
  if storage.bytes.length > maxLedgerBytes then
    throw (exhausted "control effect journal exceeds 64 MiB")
  let storage ← writeHeader storage context initializeEmpty bridgeGeneration
  let fileLength := storage.bytes.length
  if fileLength < headerBytes then
    throw (corrupt "control effect journal header is incomplete; original bytes are unchanged")
  let (id, headerDigest) ← decodeHeader (storage.bytes.take headerBytes)
  let (state, _) ← replay JournalState.readFrame (.empty id headerDigest)
    (storage.bytes.drop headerBytes)
  if state.length = fileLength then pure ⟨state, storage, false, readOnly, 0⟩
  else if recovery ≠ .truncateIncomplete then
    throw (corrupt
      "incomplete control effect journal tail; explicit operator repair is required")
  else
    authorize context
    let storage ← storage.truncate state.length
    pure ⟨state, storage, false, readOnly, fileLength - state.length⟩

/-- The source's `open`. -/
def openJournal (storage : Storage) (context : OperationContext) (initializeEmpty : Bool)
    (bridgeGeneration : U 64) (recovery : EffectTailRecovery) : Result ControlEffectJournal := do
  authorize context
  if bridgeGeneration = 0 ∨ bridgeGeneration = U.max 64 then
    throw (invalid "control bridge generation is invalid")
  openInner storage context initializeEmpty bridgeGeneration recovery false

/-- Replay existing evidence without authority to change it. -/
def openReadOnly (storage : Storage) (context : OperationContext) : Result ControlEffectJournal := do
  context.authorize .query .readOnly [] none
  openInner storage context false 0 .refuse true

/-! ## Operations -/

/-- A method of the journal: an outcome, and the journal it leaves behind, failed or not. -/
abbrev Action := ExceptT DfmcpError (StateM ControlEffectJournal)

/-- A check that does not touch the journal. -/
def Action.of {α : Type} (result : Result α) : Action α := ExceptT.mk (pure result)

/-- Run a method. -/
def Action.exec {α : Type} (action : Action α) (journal : ControlEffectJournal) :
    Result α × ControlEffectJournal :=
  (ExceptT.run action).run journal

/-- The authority a health check asks for. -/
def authorizeHealth (journal : ControlEffectJournal) (context : OperationContext) : Result Unit :=
  if journal.readOnly then context.authorize .query .readOnly [] none else authorize context

def ensureHealthy (context : OperationContext) : Action Unit := do
  let journal ← get
  .of (journal.authorizeHealth context)
  if journal.fenced then
    throw (corrupt "control effect journal is fenced; reopen for verified recovery")
  else if journal.storage.bytes.length ≠ journal.length then
    set { journal with fenced := true }
    throw (corrupt "control effect journal identity or length changed")

def authorizeWrite (context : OperationContext) : Action Unit := do
  .of (authorize context)
  if (← get).readOnly then
    throw (.new .capabilityDenied ("recovery-only control journals cannot prepare, commit, " ++
      "cancel, repair or reconcile effects"))

/-- Write a frame, unless the file has grown behind the journal's back. -/
def writeFrame (journal : ControlEffectJournal) (frame : Bytes) : Bool × Storage :=
  if journal.storage.bytes.length ≠ journal.length then (false, journal.storage)
  else journal.storage.append frame

/-- The first half of `append_with`, which writes nothing: the frame of the record, the record it
will be read as, and what is rendered of it. -/
def proposeFrame {T : Type} (journal : JournalState) (next : DurablePauseRecord)
    (publish : DurablePauseRecord → Nat → Result T) : Result (Bytes × DurablePauseRecord × T) := do
  if journal.transitions ≥ maxTransitions then
    throw (exhausted "control effect journal transition limit reached")
  if !journal.records.contains next.idempotencyKey ∧ journal.records.size ≥ maxEffects then
    throw (exhausted "control effect journal effect limit reached")
  let prior := journal.records.get? next.idempotencyKey
  let next := { next with
    revision := JournalState.nextRevision prior
    transitionNumber := U.wrap (journal.transitions + 1)
    previousDigest := journal.head }
  validateTransition prior next
  let frame ← encodeFrame journal.id next
  let nextLength := journal.length + frame.length
  if nextLength ≥ 2 ^ 64 then throw (exhausted "control journal length overflow")
  if nextLength > maxLedgerBytes then
    throw (exhausted "control effect journal byte limit reached")
  let decoded ← decodeFrame frame journal.id
  let rendered ← publish decoded nextLength
  pure (frame, decoded, rendered)

/-- The second half: write the frame, and only then publish the record in memory. -/
def commitFrame (frame : Bytes) (decoded : DurablePauseRecord) : Action Unit := do
  let journal ← get
  match writeFrame journal frame with
  | (false, storage) =>
    set { journal with storage, fenced := true }
    throw (corrupt ("control journal append outcome is uncertain; reopen and reconcile before " ++
      "any effect retry"))
  | (true, storage) =>
    set { journal with
      storage
      length := journal.length + frame.length
      head := decoded.recordDigest
      transitions := journal.transitions + 1
      records := journal.records.insert decoded.idempotencyKey decoded }

def appendWith {T : Type} (next : DurablePauseRecord) (context : OperationContext)
    (publish : DurablePauseRecord → Nat → Result T) : Action (DurablePauseRecord × T) := do
  authorizeWrite context
  ensureHealthy context
  let (frame, decoded, rendered) ← .of (proposeFrame (← get).toJournalState next publish)
  authorizeWrite context
  ensureHealthy context
  commitFrame frame decoded
  pure (decoded, rendered)

def append (next : DurablePauseRecord) (context : OperationContext) :
    Action DurablePauseRecord := do
  let (record, _) ← appendWith next context fun _ _ => .ok ()
  pure record

def recordPrepared (key : String) (planDigest : Digest32) (desiredPaused : Bool)
    (expectedGameTick bridgeGeneration : U 64) (prepareToken : PrepareToken)
    (context : OperationContext) : Action DurablePauseRecord := do
  authorizeWrite context
  ensureHealthy context
  .of (validateKey key)
  if bridgeGeneration = 0 ∨ bridgeGeneration = U.max 64 ∨ prepareToken = .zero then
    throw (invalid "invalid prepared pause effect identity")
  match (← get).records.get? key with
  | some existing =>
    if existing.planDigest = planDigest ∧ existing.desiredPaused = desiredPaused ∧
        existing.expectedGameTick = expectedGameTick ∧
        existing.bridgeGeneration = bridgeGeneration ∧ existing.prepareToken = prepareToken then
      pure existing
    else
      throw (conflict "idempotency key already names different durable pause-effect content")
  | none =>
    append {
      idempotencyKey := key
      planDigest, desiredPaused, expectedGameTick, bridgeGeneration, prepareToken
      state := .prepared
      effectKnown := false
      effectApplied := false
      observedPaused := none
      observedGameTick := none
      receiptDigest := none
      revision := 0
      transitionNumber := 0
      previousDigest := .zero
      recordDigest := .zero } context

def require (key : String) (digest : Digest32) : Action DurablePauseRecord := do
  .of (validateKey key)
  match (← get).records.get? key with
  | none => throw (invalid "pause effect is not present in the durable control journal")
  | some record =>
    if record.planDigest ≠ digest then
      throw (conflict "idempotency key belongs to another plan digest")
    else pure record

def beginCommit (key : String) (planDigest : Digest32) (bridgeGeneration : U 64)
    (context : OperationContext) : Action DurablePauseRecord := do
  authorizeWrite context
  ensureHealthy context
  let current ← require key planDigest
  if current.state = .cancelledBeforeDispatch then
    throw (conflict ("cancelled pause effect cannot be dispatched; its idempotency key remains " ++
      "retired"))
  if current.bridgeGeneration ≠ bridgeGeneration then
    throw (.new .effectIndeterminate ("prepared pause effect belongs to another bridge " ++
      "generation; replan with a new idempotency key"))
  match current.state with
  | .prepared => append { current with state := .commitStarted } context
  | .commitStarted | .indeterminate =>
    throw (.new .effectIndeterminate
      "pause effect has an unresolved commit attempt; reconcile before any retry")
  | _ => pure current

def markIndeterminate (key : String) (planDigest : Digest32) (context : OperationContext) :
    Action DurablePauseRecord := do
  authorizeWrite context
  ensureHealthy context
  let current ← require key planDigest
  if current.state = .indeterminate then pure current
  else if current.state ≠ .commitStarted then
    throw (conflict "only a started pause commit can become indeterminate")
  else append { current with state := .indeterminate } context

def recordReconciliation (key : String) (planDigest : Digest32) (bridgeGeneration : U 64)
    (effectKnown effectApplied observedPaused : Bool) (observedGameTick : U 64)
    (receiptDigest : Option Digest32) (context : OperationContext) :
    Action DurablePauseRecord := do
  authorizeWrite context
  ensureHealthy context
  let current ← require key planDigest
  if current.state = .cancelledBeforeDispatch then
    throw (conflict "cancelled-before-dispatch effect has no coordinator attempt to reconcile")
  else if current.state.terminal then pure current
  else if current.state = .prepared then
    throw (conflict ("pause effect has not begun commit and cannot be reconciled as an effect " ++
      "attempt"))
  else if bridgeGeneration ≠ current.bridgeGeneration ∨ !effectKnown then
    markIndeterminate key planDigest context
  else if effectApplied ∧ observedPaused ≠ current.desiredPaused then
    throw (corrupt
      "bridge claimed a pause effect applied but observed the opposite pause state")
  else if effectApplied ∧ receiptDigest.isNone then
    throw (corrupt "applied pause effect lacks a receipt digest")
  else
    append { current with
      state := if effectApplied then .verifiedApplied else .verifiedNotApplied
      effectKnown := true
      effectApplied
      observedPaused := some observedPaused
      observedGameTick := some observedGameTick
      receiptDigest } context

/-! ## Cancellation -/

def cancelPreparedWith {T : Type} (key : String) (planDigest : Digest32)
    (context : OperationContext) (publish : DurablePauseRecord → Nat → Bool → Result T) :
    Action T := do
  authorizeWrite context
  ensureHealthy context
  let current ← require key planDigest
  match current.state with
  | .prepared =>
    let (_, rendered) ← appendWith { current with state := .cancelledBeforeDispatch } context
      fun record length => publish record length false
    pure rendered
  | .cancelledBeforeDispatch => .of (publish current (← get).length true)
  | .commitStarted | .indeterminate =>
    throw (.new .effectIndeterminate ("pause commit already started; cancellation cannot erase " ++
      "uncertainty or make the effect safe to retry"))
  | .verifiedApplied | .verifiedNotApplied =>
    throw (conflict
      "a verified native outcome cannot be replaced by pre-dispatch cancellation")

def cancelPrepared (key : String) (planDigest : Digest32) (context : OperationContext) :
    Action DurablePauseRecord :=
  cancelPreparedWith key planDigest context fun record _ _ => .ok record

/-! ## Runs -/

/-- A call of one of the journal's methods. -/
inductive Operation (T : Type) where
  | prepare (key : String) (planDigest : Digest32) (desiredPaused : Bool)
      (expectedGameTick bridgeGeneration : U 64) (prepareToken : PrepareToken)
      (context : OperationContext)
  | beginCommit (key : String) (planDigest : Digest32) (bridgeGeneration : U 64)
      (context : OperationContext)
  | markIndeterminate (key : String) (planDigest : Digest32) (context : OperationContext)
  | reconcile (key : String) (planDigest : Digest32) (bridgeGeneration : U 64)
      (effectKnown effectApplied observedPaused : Bool) (observedGameTick : U 64)
      (receiptDigest : Option Digest32) (context : OperationContext)
  | cancel (key : String) (planDigest : Digest32) (context : OperationContext)
      (publish : DurablePauseRecord → Nat → Bool → Result T)

/-- What a call returns. -/
inductive Outcome (T : Type) where
  | record (record : DurablePauseRecord)
  | rendered (value : T)

def Operation.run {T : Type} : Operation T → Action (Outcome T)
  | .prepare key planDigest desiredPaused expectedGameTick bridgeGeneration prepareToken context => do
      let record ← recordPrepared key planDigest desiredPaused expectedGameTick bridgeGeneration
        prepareToken context
      pure (.record record)
  | .beginCommit key planDigest bridgeGeneration context => do
      let record ← ControlEffectJournal.beginCommit key planDigest bridgeGeneration context
      pure (.record record)
  | .markIndeterminate key planDigest context => do
      let record ← ControlEffectJournal.markIndeterminate key planDigest context
      pure (.record record)
  | .reconcile key planDigest bridgeGeneration effectKnown effectApplied observedPaused
      observedGameTick receiptDigest context => do
      let record ← recordReconciliation key planDigest bridgeGeneration effectKnown effectApplied
        observedPaused observedGameTick receiptDigest context
      pure (.record record)
  | .cancel key planDigest context publish => do
      let value ← cancelPreparedWith key planDigest context publish
      pure (.rendered value)

/-- The journal on a storage that fails where `fault` says. -/
def withFault (j : ControlEffectJournal) (fault : Option Nat) : ControlEffectJournal :=
  { j with storage := { j.storage with fault } }

/-- A step of a run: a call that returns, or one that is interrupted after `room` bytes of its
write, followed by reopening the file. -/
inductive Event (T : Type) where
  | call (operation : Operation T) (out : Result (Outcome T))
  | crash (operation : Operation T) (room : Nat) (context : OperationContext)
      (initializeEmpty : Bool) (bridgeGeneration : U 64)

def Event.operation {T : Type} : Event T → Operation T
  | .call operation _ => operation
  | .crash operation _ _ _ _ => operation

inductive Step {T : Type} : ControlEffectJournal → Event T → ControlEffectJournal → Prop
  | call {before after : ControlEffectJournal} {operation : Operation T}
      {out : Result (Outcome T)} (returns : operation.run.exec before = (out, after)) :
      Step before (.call operation out) after
  | crash {before after : ControlEffectJournal} {operation : Operation T} {room : Nat}
      {context : OperationContext} {initializeEmpty : Bool} {bridgeGeneration : U 64}
      (reopens : openJournal (operation.run.exec (before.withFault (some room))).2.storage.restarted
        context initializeEmpty bridgeGeneration .truncateIncomplete = .ok after) :
      Step before (.crash operation room context initializeEmpty bridgeGeneration) after

/-- The key whose commit a call reports as newly started. -/
def Event.started {T : Type} : Event T → Option String
  | .call (.beginCommit key _ _ _) (.ok (.record record)) =>
    if record.state = .commitStarted then some key else none
  | _ => none

end ControlEffectJournal

end Dfmcp
