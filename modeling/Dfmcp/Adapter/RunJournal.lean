import Dfmcp.Adapter.BoundedRun
import Dfmcp.Library.Method

/-!
# The journal of bounded runs

`bounded_run/journal.rs`: the append-only record of what was intended, dispatched and observed of each
run, and the four operations that extend it. Everything outside the journal (authority, allowances of
time and bytes, the storage, the native source, external guards) answers an operation through one
record, `Outside`; its checks are numbered in the order in which the operation makes them.

A socket address is its text. Which texts are addresses is decided by the standard library of the
source, and is the parameter `Endpoints` of opening a journal.
-/

namespace Dfmcp

open Machine Method Wire

namespace BoundedRun

def maxJournalBytes : Nat := 2 * 1024 * 1024
def maxRuns : Nat := 256
def maxTransitions : Nat := 4096
def rpcReserveBytes : Nat := 270336
def maxBody : Nat := 452
def frameOverhead : Nat := 92

def corrupt (message : String) : DfmcpError := .new .corruptLedger message

def uncertain : DfmcpError :=
  .new .effectIndeterminate
    "run outcome requires query/cancel reconciliation; never repeat unpause"

inductive RunMode where
  | control
  | recover
  | offline
deriving DecidableEq

/-! ## The source of a journal -/

structure RunManifest where
  generation : U 64
  dfVersion : String
  dfhackVersion : String
deriving DecidableEq

/-- Rust's `char::is_control`. -/
def isControl (c : Char) : Bool := c.toNat < 32 || (127 ≤ c.toNat && c.toNat < 160)

namespace RunManifest

def softwareIsValid (value : String) : Bool :=
  value ≠ "" && strLen value ≤ 128 && !value.toList.any isControl

def validate (manifest : RunManifest) : Result Unit := do
  demand (manifest.generation > 0 ∧ manifest.generation < U.max 64)
    "invalid run manifest generation"
  demand (softwareIsValid manifest.dfVersion) "invalid run software identity"
  demand (softwareIsValid manifest.dfhackVersion) "invalid run software identity"

end RunManifest

/-- The texts of socket addresses: which of them parse, which are written back as they were, and which
are loopback addresses with a port. -/
structure Endpoints where
  parses : String → Bool
  canonical : String → Bool
  loopback : String → Bool
  address : ∀ text, loopback text = true → parses text = true ∧ canonical text = true
  bounded : ∀ text, loopback text = true → (1 ≤ strLen text ∧ strLen text ≤ 128) ∧
    text.toList.any isControl = false

structure RunBinding where
  endpoint : String
  manifest : RunManifest
deriving DecidableEq

def putText (text : String) : Bytes := beBytes 2 (strLen text) ++ utf8 text

def readText : Read.Decoder String := do
  let n ← Read.u16
  Read.check (demand (1 ≤ n ∧ n ≤ 128) "invalid journal text bound")
  let raw ← Read.take n
  match fromUtf8 raw with
  | none => fail (corrupt "invalid journal UTF-8")
  | some value => do
      Read.check (demand (!value.toList.any isControl) "control character in journal identity")
      pure value

namespace RunBinding

variable (endpoints : Endpoints)

def new (endpoint : String) (manifest : RunManifest) : Result RunBinding := do
  manifest.validate
  demand (endpoints.loopback endpoint) "run binding must be numeric loopback"
  pure ⟨endpoint, manifest⟩

def encode (binding : RunBinding) : Bytes :=
  putText binding.endpoint ++ (beBytes 8 binding.manifest.generation.val ++
    (putText binding.manifest.dfVersion ++ putText binding.manifest.dfhackVersion))

def reader : Read.Decoder RunBinding := do
  let endpoint ← readText
  Read.check (if endpoints.parses endpoint then .ok () else .error (corrupt "invalid run endpoint"))
  Read.check (demand (endpoints.canonical endpoint) "noncanonical run endpoint")
  let generation ← Read.u64
  let dfVersion ← readText
  let dfhackVersion ← readText
  Read.finish
  match new endpoints endpoint ⟨generation, dfVersion, dfhackVersion⟩ with
  | .error e => fail e
  | .ok binding => pure binding

def decode (bytes : Bytes) : Result RunBinding := Read.run (reader endpoints) bytes

/-- The bytes of a new journal before its identity, and that identity. -/
def initialHeader (binding : RunBinding) (session : SessionId) (request : U 128) :
    Bytes × Digest32 :=
  let bytes := utf8 "DFMRJ001" ++ (beBytes 2 binding.encode.length ++ (binding.encode ++
    (beBytes 16 session.val ++ beBytes 16 request.val)))
  (bytes ++ (hash "dfmcp-run-journal/1" bytes).bytes, hash "dfmcp-run-journal/1" bytes)

end RunBinding

/-! ## What is kept of a run -/

inductive RunState where
  | intent
  | prepared
  | dispatchStarted
  | tracking
  | terminal
  | cancelRequested
  | cancelledBeforeDispatch
deriving DecidableEq

namespace RunState

def tag : RunState → UInt8
  | .intent => 0
  | .prepared => 1
  | .dispatchStarted => 2
  | .tracking => 3
  | .terminal => 4
  | .cancelRequested => 5
  | .cancelledBeforeDispatch => 6

def fromTag? (b : UInt8) : Option RunState :=
  match b.toNat with
  | 0 => some .intent
  | 1 => some .prepared
  | 2 => some .dispatchStarted
  | 3 => some .tracking
  | 4 => some .terminal
  | 5 => some .cancelRequested
  | 6 => some .cancelledBeforeDispatch
  | _ => none

end RunState

structure DurableRun where
  plan : RunPlan
  state : RunState
  native : Option RunRecord
deriving DecidableEq

namespace DurableRun

/-- A dispatched run whose outcome is open, or whose source was lost. -/
def unresolved (run : DurableRun) : Bool :=
  run.state ∈ [RunState.dispatchStarted, .tracking, .cancelRequested] ||
    run.native.any fun record => record.phase = .sourceLost

def terminal (run : DurableRun) : Bool :=
  run.state ∈ [RunState.terminal, .cancelledBeforeDispatch]

/-- The bytes of the native record, none without one. -/
def nativeBytes (run : DurableRun) : Bytes := run.native.elim [] fun record => record.bytes

def encode (run : DurableRun) : Bytes :=
  run.state.tag :: (beBytes 2 run.plan.canonicalBytes.length ++ (run.plan.canonicalBytes ++
    (beBytes 2 run.nativeBytes.length ++ run.nativeBytes)))

/-- Whether the state has the native evidence that it needs. -/
def evident (run : DurableRun) : Bool :=
  match run.state with
  | .intent | .cancelledBeforeDispatch => run.native.isNone
  | .prepared | .dispatchStarted => run.native.any fun record => record.phase = .prepared
  | .tracking => run.native.any fun record => !record.phase.terminal
  | .terminal => run.native.any fun record => record.phase.terminal
  | .cancelRequested => true

def validate (run : DurableRun) : Result Unit := do
  demand (run.native.all fun record => record.plan = run.plan)
    "durable/native run identities disagree"
  demand run.evident "durable run state lacks corresponding native evidence"

/-- The native record, if there is one. -/
def readNative (n : Nat) : Read.Decoder (Option RunRecord) :=
  if n = 0 then pure none
  else do
    let raw ← Read.take n
    match RunRecord.decode raw with
    | .error e => fail e
    | .ok record => pure (some record)

def reader : Read.Decoder DurableRun := do
  let tag ← Read.byte
  match RunState.fromTag? tag with
  | none => fail (corrupt "unknown durable run state")
  | some state => do
      let n ← Read.u16
      let raw ← Read.take n
      match RunPlan.decode raw with
      | .error e => fail e
      | .ok plan => do
          let n ← Read.u16
          let native ← readNative n
          Read.finish
          Read.check (validate ⟨plan, state, native⟩)
          pure ⟨plan, state, native⟩

def decode (bytes : Bytes) : Result DurableRun := do
  demand (bytes.length ≤ maxBody) "run journal record exceeds bound"
  Read.run reader bytes

end DurableRun

/-! ## Transitions -/

/-- The states that a state may follow. -/
def allowed (old : RunState) : RunState → Bool
  | .intent => false
  | .prepared => old ∈ [RunState.intent, .prepared]
  | .dispatchStarted => old = .prepared
  | .tracking | .terminal => true
  | .cancelRequested => old ∉ [RunState.intent, .prepared]
  | .cancelledBeforeDispatch => old ∈ [RunState.intent, .prepared]

/-- The native evidence that evidence may be followed by. -/
def advances (before after : RunRecord) : Bool :=
  match before.phase with
  | .prepared => true
  | .running => after.phase ∈ [RunPhase.running, .stopping, .stopped, .sourceLost]
  | .stopping => after.phase ∈ [RunPhase.stopping, .stopped, .sourceLost]
  | _ => before = after

/-- Native evidence does not regress. -/
def nativeAdvances : Option RunRecord → Option RunRecord → Bool
  | some before, some after => advances before after
  | _, _ => true

def transition (old : Option DurableRun) (next : DurableRun) : Result Unit := do
  next.validate
  match old with
  | none => demand (next.state = .intent) "first run transition must retain intent"
  | some old => do
      demand (old.plan = next.plan) "run key cannot change intent"
      demand (!old.terminal) "terminal run evidence is immutable"
      demand (allowed old.state next.state) "illegal durable run transition or dispatch replay"
      demand (nativeAdvances old.native next.native) "native run evidence regressed"

/-! ## The journal -/

structure RunJournal where
  binding : RunBinding
  id : Digest32
  head : Digest32
  frames : Nat
  bytes : Bytes
  records : BTreeMap String DurableRun
  owner : SessionId
  mode : RunMode
  fenced : Bool
  initializedHere : Bool
deriving DecidableEq

/-- How a frame reached the storage: synced, or lost after this many of its bytes. -/
inductive Published where
  | synced
  | lost (kept : Nat)

/-- What an operation meets outside the journal. -/
structure Outside where
  session : SessionId
  request : U 128
  anchor : StateAnchor
  check : Nat → Result Unit
  custody : Nat → Result Unit
  published : Nat → Published
  observed : Result RunObservation
  reply : Result RunRecord
  queried : Result (Option RunRecord)

/-- A journal, its storage, and the keys of the native commits that were called. -/
structure RunSystem where
  journal : RunJournal
  disk : Bytes
  commits : List String

/-- An operation of the journal. -/
abbrev Act := Method DfmcpError RunSystem

namespace RunJournal

/-- Slots that a state keeps for what must still be recorded of its run. -/
def ownReserve : RunState → Nat
  | .intent | .prepared => 2
  | .dispatchStarted | .tracking => 3
  | .cancelRequested => 1
  | .terminal | .cancelledBeforeDispatch => 0

/-- The runs under other keys that are not over. -/
def otherPending (journal : RunJournal) (key : String) : Nat :=
  (journal.records.values.filter fun run => run.plan.key ≠ key && !run.terminal).length

/-- Monitoring cannot consume the last cancellation and terminal slots. -/
def reserve (journal : RunJournal) (next : DurableRun) : Nat :=
  journal.otherPending next.plan.key * 2 + ownReserve next.state

/-- Whether the retention bounds leave room for a record and its reserve. -/
def HasRoom (journal : RunJournal) (next : DurableRun) : Prop :=
  journal.frames + 1 + journal.reserve next ≤ maxTransitions ∧
    journal.bytes.length + (frameOverhead + next.encode.length) +
      journal.reserve next * (maxBody + frameOverhead) ≤ maxJournalBytes

instance (journal : RunJournal) (next : DurableRun) : Decidable (journal.HasRoom next) :=
  inferInstanceAs (Decidable (_ ∧ _))

/-- A frame up to its digest. -/
def frameBody (journal : RunJournal) (next : DurableRun) : Bytes :=
  utf8 "DFMRF001" ++ (beBytes 4 next.encode.length ++ (beBytes 8 (journal.frames + 1) ++
    (journal.head.bytes ++ next.encode)))

def frameDigest (journal : RunJournal) (next : DurableRun) : Digest32 :=
  hash "dfmcp-run-frame/1" (journal.frameBody next)

def frame (journal : RunJournal) (next : DurableRun) : Bytes :=
  journal.frameBody next ++ ((journal.frameDigest next).bytes ++ utf8 "DFMREND1")

/-- The journal with one more record. -/
def extended (journal : RunJournal) (next : DurableRun) : RunJournal :=
  { journal with
    bytes := journal.bytes ++ journal.frame next
    records := journal.records.insert next.plan.key next
    frames := journal.frames + 1
    head := journal.frameDigest next }

variable (o : Outside)

/-- Authority, owner, fence, mode, and the identity of the storage: two outside checks. -/
def access (journal : RunJournal) (n : Nat) (write control : Bool) : Result Unit := do
  o.check n
  if o.session ≠ journal.owner then
    throw (.new .capabilityDenied "run journal belongs to another session")
  if journal.fenced then
    throw (corrupt "run journal fenced; reopen for verified recovery")
  if (write && journal.mode = .offline) || (control && journal.mode ≠ .control) then
    throw (.new .capabilityDenied "run recovery mode cannot widen its authority")
  o.check (n + 1)

/-- No more is written until the journal is opened again. -/
def fence (s : RunSystem) : RunSystem := { s with journal := { s.journal with fenced := true } }

/-- What the storage holds, if it can be read, is what the journal wrote. -/
def retained (s : RunSystem) (n : Nat) : Result Unit := do
  o.custody n
  demand (s.disk.length = s.journal.bytes.length)
    "run journal length changed outside coordinator"
  demand (s.disk = s.journal.bytes) "run journal bytes changed outside coordinator"

/-- The storage still holds exactly the bytes of the journal, or the journal is fenced: three outside
checks, and a comparison with the storage. -/
def verify (n : Nat) : Act PUnit := do
  let s ← get
  Method.of (s.journal.access o n false false)
  Method.of (o.check (n + 2))
  match retained o s n with
  | .ok _ => pure ⟨⟩
  | .error e => do
      set (fence s)
      throw e

/-- Append a record: four outside checks, and a publication. -/
def append (n : Nat) (next : DurableRun) : Act DurableRun := do
  let s ← get
  Method.of (o.check n)
  Method.of (s.journal.access o (n + 1) true false)
  Method.of (transition (s.journal.records.get? next.plan.key) next)
  Method.of (demand (next.plan.before.generation = s.journal.binding.manifest.generation)
    "run intent crosses journal source")
  Method.of (demand (s.journal.records.contains next.plan.key = true ∨
    s.journal.records.size < maxRuns) "run key retention exhausted")
  Method.of (demand (s.journal.HasRoom next) "run journal retention exhausted")
  Method.of (o.check (n + 3))
  match o.published n with
  | .synced => do
      set { s with
        journal := s.journal.extended next
        disk := s.journal.bytes ++ s.journal.frame next }
      pure next
  | .lost kept => do
      set { fence s with disk := s.journal.bytes ++ (s.journal.frame next).take kept }
      throw (corrupt "run journal I/O/custody failed; reopen without dispatch replay")

/-- Room for the dispatch marker, cancellation intent and receipts, and an outside check of the
allowance. -/
def reserveEffect (journal : RunJournal) (n : Nat) : Result Unit := do
  demand (journal.frames + 8 ≤ maxTransitions ∧
      journal.bytes.length + 8 * (maxBody + frameOverhead) ≤ maxJournalBytes)
    "no durable capacity for run dispatch and reconciliation"
  o.check n

def lookup (journal : RunJournal) (key : String) (digest : Digest32) : Result DurableRun := do
  validateKey key
  match journal.records.get? key with
  | none => .error (.new .invalidRequest "no durable run has this key")
  | some record => do
      demand (record.plan.digest = digest) "run key and plan digest disagree"
      pure record

def anyUnresolved (journal : RunJournal) : Bool :=
  journal.records.values.any DurableRun.unresolved

/-- The state of a run with this native record. -/
def nativeState (native : RunRecord) (started : Bool) : RunState :=
  if native.phase.terminal then .terminal
  else if native.phase = .prepared && !started then .prepared
  else .tracking

def acceptNative (n : Nat) (plan : RunPlan) (native : RunRecord) (started : Bool) :
    Act DurableRun := do
  let native ← Method.of (RunRecord.decode native.bytes)
  Method.of (demand (native.plan = plan) "native run receipt does not match intent")
  let next : DurableRun := ⟨plan, nativeState native started, some native⟩
  let s ← get
  if s.journal.records.get? plan.key = some next then pure next
  else append o n next

/-- The anchor of the context is that of the observation a plan was made from. -/
def anchored (plan : RunPlan) : Bool :=
  o.anchor.stateHash = plan.before.witness && o.anchor.tick = plan.before.tick.getD 0 &&
    o.anchor.cursor.epoch = plan.before.generation &&
    o.anchor.cursor.sequence = plan.before.sequence

/-- Native preparation of an intent that was recorded. -/
def prepareNative (plan : RunPlan) : Act DurableRun := do
  Method.of (o.check 18)
  verify o 19
  let s ← get
  Method.of (s.journal.access o 22 true true)
  Method.of (o.check 24)
  let native ← Method.of o.reply
  Method.of (o.check 25)
  acceptNative o 26 plan native false

def prepareNew (plan : RunPlan) : Act DurableRun := do
  let s ← get
  if s.journal.anyUnresolved then throw uncertain
  else do
    Method.of (s.journal.reserveEffect o 9)
    Method.of (o.check 10)
    Method.of (demand (anchored o plan) "run plan anchor differs from selected observation")
    Method.of (o.check 11)
    let observed ← Method.of o.observed
    Method.of (o.check 12)
    Method.of (demand (observed = plan.before) "run preparation witness became stale")
    let _ ← append o 13 ⟨plan, .intent, none⟩
    prepareNative o plan

/-- `prepare_guarded`: retain an intent, then ask the source to prepare it. -/
def prepare (plan : RunPlan) : Act DurableRun := do
  Method.of (o.check 0)
  verify o 1
  let s ← get
  Method.of (s.journal.access o 4 true true)
  Method.of (o.check 6)
  Method.of (o.check 7)
  if s.journal.records.contains plan.key = true then do
    let old ← Method.of (s.journal.lookup plan.key plan.digest)
    Method.of (demand (old.plan = plan) "run intent differs")
    pure old
  else prepareNew o plan

/-- The native commit is called. -/
def callCommit (plan : RunPlan) : Act RunRecord := do
  modify fun s => { s with commits := s.commits ++ [plan.key] }
  Method.of o.reply

/-- The one native call, after the dispatch marker. -/
def commitNative (plan : RunPlan) : Act DurableRun := do
  Method.of (o.check 18)
  verify o 19
  let s ← get
  Method.of (s.journal.access o 22 true true)
  Method.of (o.check 24)
  let native ← callCommit o plan
  Method.of (o.check 25)
  Method.of (demand (native.phase ≠ .prepared) "commit reply cannot remain prepared")
  acceptNative o 26 plan native true

def commitPrepared (record : DurableRun) : Act DurableRun := do
  let s ← get
  Method.of (s.journal.reserveEffect o 7)
  Method.of (o.check 8)
  let observed ← Method.of o.observed
  Method.of (o.check 9)
  Method.of (demand (observed = record.plan.before) "run commit observation is stale")
  Method.of (o.check 10)
  let _ ← append o 11 { record with state := .dispatchStarted }
  mapError uncertain (commitNative o record.plan)

/-- `commit_guarded`: record the dispatch, then call the native commit. -/
def commit (key : String) (digest : Digest32) : Act DurableRun := do
  Method.of (o.check 0)
  verify o 1
  let s ← get
  Method.of (s.journal.access o 4 true true)
  let record ← Method.of (s.journal.lookup key digest)
  Method.of (o.check 6)
  if record.terminal then pure record
  else if record.state ≠ .prepared || s.journal.anyUnresolved then throw uncertain
  else commitPrepared o record

def reconcile (key : String) (digest : Digest32) : Act DurableRun := do
  Method.of (o.check 0)
  verify o 1
  let s ← get
  Method.of (s.journal.access o 4 true false)
  let record ← Method.of (s.journal.lookup key digest)
  if record.terminal then pure record
  else do
    Method.of (o.check 6)
    let queried ← Method.of o.queried
    match queried with
    | none => throw uncertain
    | some native => do
        Method.of (o.check 7)
        acceptNative o 8 record.plan native
          (decide (record.state ∉ [RunState.intent, .prepared]))

/-- Ask the source to stop a run whose cancellation was recorded. -/
def cancelNative (plan : RunPlan) : Act DurableRun := do
  Method.of (o.check 11)
  let native ← Method.of o.reply
  Method.of (demand (native.phase ∉ [RunPhase.prepared, .running])
    "cancellation reply did not enter a stop state")
  acceptNative o 12 plan native true

def cancelDispatched (record : DurableRun) : Act DurableRun := do
  Method.of (o.check 6)
  if record.state ≠ .cancelRequested then do
    let _ ← append o 7 { record with state := .cancelRequested }
    mapError uncertain (cancelNative o record.plan)
  else mapError uncertain (cancelNative o record.plan)

def cancel (key : String) (digest : Digest32) : Act DurableRun := do
  Method.of (o.check 0)
  verify o 1
  let s ← get
  Method.of (s.journal.access o 4 true true)
  let record ← Method.of (s.journal.lookup key digest)
  if record.terminal then pure record
  else if record.state ∈ [RunState.intent, .prepared] then
    append o 6 ⟨record.plan, .cancelledBeforeDispatch, none⟩
  else cancelDispatched o record

/-! ## Opening a journal -/

variable (endpoints : Endpoints)

/-- What the frames of a journal say. -/
structure Root where
  head : Digest32
  frames : Nat
  records : BTreeMap String DurableRun

/-- The header: the binding of the journal and its identity. -/
def readHeader (bytes : Bytes) : Read.Decoder (RunBinding × Digest32) := do
  let magic ← Read.take 8
  Read.check (demand (magic = utf8 "DFMRJ001") "wrong run journal format")
  let n ← Read.u16
  Read.check (demand (n ≤ 400) "run binding exceeds bound")
  let raw ← Read.take n
  match RunBinding.decode endpoints raw with
  | .error e => fail e
  | .ok stored => do
      let _ ← Read.take 32
      let left ← remaining
      let id ← Read.digest
      Read.check (demand (id = hash "dfmcp-run-journal/1" (bytes.take (bytes.length - left)))
        "run journal header checksum mismatch")
      pure (stored, id)

/-- Keep a record that was read. -/
def Root.accept (generation : U 64) (root : Root) (record : DurableRun) (digest : Digest32) :
    Result Root := do
  demand (record.plan.before.generation = generation) "run record crosses source generation"
  transition (root.records.get? record.plan.key) record
  demand (root.records.contains record.plan.key = true ∨ root.records.size < maxRuns)
    "run journal key capacity exceeded"
  pure ⟨digest, root.frames + 1, root.records.insert record.plan.key record⟩

/-- One frame after a root. The bytes from its start on are read again for its digest. -/
def frameReader (generation : U 64) (root : Root) (start : Bytes) : Read.Decoder Root := do
  let magic ← Read.take 8
  Read.check (demand (magic = utf8 "DFMRF001") "bad run journal frame")
  let n ← Read.u32
  Read.check (demand (n.val ≤ maxBody) "oversized run journal body")
  let sequence ← Read.u64
  Read.check (demand (root.frames + 1 ≤ maxTransitions ∧ sequence.val = root.frames + 1)
    "run journal sequence gap")
  let previous ← Read.take 32
  Read.check (demand (previous = root.head.bytes) "run journal digest-chain fork")
  let raw ← Read.take n.val
  match DurableRun.decode raw with
  | .error e => fail e
  | .ok record => do
      let digest ← Read.digest
      let tail ← Read.take 8
      Read.check (demand (tail = utf8 "DFMREND1" ∧
        digest = hash "dfmcp-run-frame/1" (start.take (52 + n.val)))
        "incomplete/corrupt run journal frame")
      match root.accept generation record digest with
      | .error e => fail e
      | .ok next => pure next

/-- All frames, with an outside check before each. A frame is not empty, so `fuel` is not spent before
the bytes are. -/
def readFrames (generation : U 64) : Nat → Root → Bytes → Result Root
  | _, root, [] => .ok root
  | 0, _, _ => .error (corrupt "unread run journal frames")
  | fuel + 1, root, bytes => do
      o.check (3 + root.frames)
      let (next, rest) ← frameReader generation root bytes bytes
      readFrames generation fuel next rest

/-- Open what is stored. -/
def openStored (mode : RunMode) (expected : Option RunBinding) (disk : Bytes) :
    Result RunJournal := do
  o.check 0
  if maxJournalBytes < disk.length then throw (corrupt "run journal exceeds retention bound")
  demand (74 ≤ disk.length) "existing run journal is empty or incomplete"
  o.check 1
  let ((stored, id), rest) ← readHeader endpoints disk disk
  demand (expected.all fun binding => stored = binding)
    "run journal belongs to another endpoint/source generation"
  let root ← readFrames o stored.manifest.generation rest.length ⟨id, 0, .nil⟩ rest
  o.check 2
  pure ⟨stored, id, root.head, root.frames, disk, root.records, o.session, mode, false, false⟩

/-- A journal on new storage. -/
def create (binding : RunBinding) : RunJournal :=
  let header := binding.initialHeader o.session o.request
  ⟨binding, header.2, header.2, 0, header.1, .nil, o.session, .control, false, true⟩

/-! ## Runs of a journal -/

/-- What is asked of a journal. To reopen it is to drop it, and to open its storage. -/
inductive Op where
  | prepare (plan : RunPlan)
  | commit (key : String) (digest : Digest32)
  | reconcile (key : String) (digest : Digest32)
  | cancel (key : String) (digest : Digest32)
  | reopen (mode : RunMode) (expected : Option RunBinding)

/-- The journal of the storage takes the place of the one in memory. -/
def reopen (mode : RunMode) (expected : Option RunBinding) : Act PUnit := do
  let s ← get
  let journal ← Method.of (openStored o endpoints mode expected s.disk)
  set { s with journal := journal }

/-- The state after an operation, successful or not. -/
def after (s : RunSystem) : Op → RunSystem
  | .prepare plan => (exec (prepare o plan) s).2
  | .commit key digest => (exec (commit o key digest) s).2
  | .reconcile key digest => (exec (reconcile o key digest) s).2
  | .cancel key digest => (exec (cancel o key digest) s).2
  | .reopen mode expected => (exec (reopen o endpoints mode expected) s).2

/-- An operation, with what it meets outside the journal. -/
def Step (s : RunSystem) (label : Op × Outside) (t : RunSystem) : Prop :=
  t = after label.2 endpoints s label.1

/-- A new journal, and its storage. -/
def initial (binding : RunBinding) : RunSystem :=
  ⟨create o binding, (create o binding).bytes, []⟩

end RunJournal

end BoundedRun

end Dfmcp
