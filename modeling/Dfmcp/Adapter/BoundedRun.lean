import Dfmcp.Core.Context
import Dfmcp.World.CanonicalDecode
import Dfmcp.World.Query

/-!
# Evidence of bounded runs

`bounded_run/mod.rs`: observations of the game clock, plans of runs that stop by themselves, and the
records the bridge keeps of them. In the source the fields of these types are private, so that a value
comes out of its decoder or constructor only; here a value carries the proof that it does. A plan's
digest and token are fields of the source that its constructor computes from the others.
-/

namespace Dfmcp

open Machine Wire

namespace BoundedRun

def maxGameTicks : Nat := 1200
def maxWallMs : Nat := 60000
def maxRecordBytes : Nat := 274
def maxNativeTick : Nat := (2 ^ 32 - 1) * 403200 + 403199

def rejected (message : String) : DfmcpError := .new .adapterRejected message

/-- The source's `require`. -/
def demand (condition : Prop) [Decidable condition] (message : String) : Result Unit :=
  if condition then .ok () else .error (rejected message)

/-- A byte that a run key may have. -/
def isKeyByte (b : UInt8) : Bool :=
  (48 ≤ b && b ≤ 57) || (65 ≤ b && b ≤ 90) || (97 ≤ b && b ≤ 122) || b = 46 || b = 95 || b = 45

def validateKey (key : String) : Result Unit :=
  if key = "" ∨ strLen key > 128 ∨ !(utf8 key).all isKeyByte then
    .error (.new .invalidRequest "run key must be 1..128 ASCII letters, digits, '.', '_' or '-'")
  else .ok ()

def hash (domain : String) (bytes : Bytes) : Digest32 := .ofBytes (utf8 domain ++ [0] ++ bytes)

/-! ## Reading -/

namespace Read

abbrev Decoder := Wire.Reader DfmcpError

def take (n : Nat) : Decoder Bytes := Wire.take (rejected "truncated bounded-run evidence") n

def byte : Decoder UInt8 := do
  let bytes ← take 1
  pure (bytes.headD 0)

def boolean : Decoder Bool := do
  let byte ← byte
  if byte = 0 then pure false
  else if byte = 1 then pure true
  else fail (rejected "noncanonical boolean")

def u16 : Decoder Nat := do
  let bytes ← take 2
  pure (ofBe bytes)

def u32 : Decoder (U 32) := do
  let bytes ← take 4
  pure (U.wrap (ofBe bytes))

def u64 : Decoder (U 64) := do
  let bytes ← take 8
  pure (U.wrap (ofBe bytes))

def digest : Decoder Digest32 := do
  let bytes ← take 32
  pure (.fromBytes bytes)

/-- A check of what was read. -/
def check (result : Result Unit) : Decoder Unit := fun rest =>
  match result with
  | .ok _ => .ok ((), rest)
  | .error e => .error e

/-- The end of what was to be read. -/
def finish : Decoder Unit := do
  let left ← remaining
  check (demand (left = 0) "trailing bounded-run evidence")

/-- Run a decoder. -/
def run {α : Type} (decoder : Decoder α) (bytes : Bytes) : Result α :=
  match decoder bytes with
  | .ok (a, _) => .ok a
  | .error e => .error e

end Read

/-! ## Plans -/

/-- How long a run may last: in game ticks, and in milliseconds. -/
structure RunSpec where
  ticks : U 32
  wallMs : U 32
  bounded : (1 ≤ ticks.val ∧ ticks.val ≤ maxGameTicks) ∧ 1 ≤ wallMs.val ∧ wallMs.val ≤ maxWallMs
deriving DecidableEq

namespace RunSpec

def new (ticks wallMs : U 32) : Result RunSpec :=
  if h : (1 ≤ ticks.val ∧ ticks.val ≤ maxGameTicks) ∧ 1 ≤ wallMs.val ∧ wallMs.val ≤ maxWallMs then
    .ok ⟨ticks, wallMs, h⟩
  else .error (.new .invalidRequest "run requires 1..1200 ticks and 1..60000 milliseconds")

def bytes (spec : RunSpec) : Bytes := beBytes 4 spec.ticks.val ++ beBytes 4 spec.wallMs.val

end RunSpec

/-- What an observation says. -/
structure ObservationFields where
  generation : U 64
  sequence : U 64
  tick : Option (U 64)
  loaded : Bool
  paused : Bool
deriving DecidableEq

namespace ObservationFields

def reader : Read.Decoder ObservationFields := do
  let magic ← Read.take 8
  Read.check (demand (magic = utf8 "DFMRO013") "not a run/1.13 observation")
  let generation ← Read.u64
  let sequence ← Read.u64
  let tick ← Read.u64
  let loaded ← Read.boolean
  let valid ← Read.boolean
  let paused ← Read.boolean
  Read.finish
  Read.check (demand (generation > 0 ∧ generation < U.max 64) "invalid run source generation")
  Read.check (demand (loaded ∨ (!valid ∧ !paused)) "unloaded source contains live clock fields")
  Read.check (demand (if valid then tick.val ≤ maxNativeTick else tick = 0)
    "invalid or fabricated game tick")
  pure ⟨generation, sequence, if valid then some tick else none, loaded, paused⟩

def decode (bytes : Bytes) : Result ObservationFields := do
  demand (bytes.length = 35) "run observation must contain exactly 35 bytes"
  Read.run reader bytes

end ObservationFields

structure RunObservation extends ObservationFields where
  bytes : Bytes
  decoded : ObservationFields.decode bytes = .ok toObservationFields
deriving DecidableEq

namespace RunObservation

def decode (bytes : Bytes) : Result RunObservation :=
  match h : ObservationFields.decode bytes with
  | .ok fields => .ok ⟨fields, bytes, h⟩
  | .error e => .error e

def witness (observation : RunObservation) : Digest32 := .ofBytes observation.bytes

def eligible (observation : RunObservation) : Bool :=
  observation.loaded && observation.tick.isSome && observation.paused &&
    observation.sequence ≠ U.max 64

end RunObservation

structure RunPlan where
  key : String
  spec : RunSpec
  before : RunObservation
  keyed : validateKey key = .ok ()
  eligible : before.eligible = true
deriving DecidableEq

namespace RunPlan

def new (key : String) (spec : RunSpec) (before : RunObservation) : Result RunPlan :=
  match h : validateKey key with
  | .error e => .error e
  | .ok _ =>
      if he : before.eligible = true then .ok ⟨key, spec, before, h, he⟩
      else .error (.new .staleAnchor "run requires an eligible paused observation")

def digest (plan : RunPlan) : Digest32 :=
  hash "dfmcp-bounded-run-plan/1" (plan.spec.bytes ++ plan.before.bytes)

def token (plan : RunPlan) : Bytes :=
  (hash "dfmcp-bounded-run-token/1"
    (beBytes 2 (strLen plan.key) ++ utf8 plan.key ++ plan.digest.bytes)).bytes.take 16

def canonicalBytes (plan : RunPlan) : Bytes :=
  beBytes 2 (strLen plan.key) ++ (utf8 plan.key ++
    (beBytes 4 plan.spec.ticks.val ++ (beBytes 4 plan.spec.wallMs.val ++ plan.before.bytes)))

/-- A key, a specification and an observation. -/
def identity (width : String) : Read.Decoder (Result RunPlan) := do
  let n ← Read.u16
  Read.check (demand (1 ≤ n ∧ n ≤ 128) width)
  let raw ← Read.take n
  match fromUtf8 raw with
  | none => fail (rejected "invalid run key UTF-8")
  | some key =>
      let ticks ← Read.u32
      let wallMs ← Read.u32
      match RunSpec.new ticks wallMs with
      | .error e => fail e
      | .ok spec =>
          let observed ← Read.take 35
          match RunObservation.decode observed with
          | .error e => fail e
          | .ok before => pure (RunPlan.new key spec before)

def reader : Read.Decoder RunPlan := do
  let plan ← identity "invalid run key width"
  Read.finish
  match plan with
  | .error e => fail e
  | .ok plan => pure plan

def decode (bytes : Bytes) : Result RunPlan := do
  demand (bytes.length ≤ 173) "run intent exceeds its byte bound"
  Read.run reader bytes

end RunPlan

/-! ## Records -/

inductive RunPhase where
  | prepared
  | running
  | stopping
  | stopped
  | refused
  | sourceLost
deriving DecidableEq

def RunPhase.terminal : RunPhase → Bool
  | .stopped | .refused | .sourceLost => true
  | _ => false

inductive RunReason where
  | none
  | tickLimit
  | wallLimit
  | cancelled
  | externalPause
  | nativeFailure
  | clockRegression
  | sourceChanged
  | shutdown
  | stale
deriving DecidableEq

/-- What a record says. -/
structure RecordFields where
  plan : RunPlan
  phase : RunPhase
  reason : RunReason
  attempted : Bool
  verified : Bool
  observedTick : Option (U 64)
  receipt : Digest32
deriving DecidableEq

namespace RecordFields

def phase? (b : UInt8) : Option RunPhase :=
  match b.toNat with
  | 0 => some .prepared
  | 1 => some .running
  | 2 => some .stopping
  | 3 => some .stopped
  | 4 => some .refused
  | 5 => some .sourceLost
  | _ => Option.none

def reason? (b : UInt8) : Option RunReason :=
  match b.toNat with
  | 0 => some .none
  | 1 => some .tickLimit
  | 2 => some .wallLimit
  | 3 => some .cancelled
  | 4 => some .externalPause
  | 5 => some .nativeFailure
  | 6 => some .clockRegression
  | 7 => some .sourceChanged
  | 8 => some .shutdown
  | 9 => some .stale
  | _ => Option.none

/-- The phases in which the game may have been unpaused. -/
def attempts : RunPhase → Bool
  | .running | .stopping | .stopped | .sourceLost => true
  | _ => false

/-- The reasons for which a run stops. -/
def stops : RunReason → Bool
  | .tickLimit | .wallLimit | .cancelled | .nativeFailure | .clockRegression | .shutdown => true
  | _ => false

/-- The reasons for which a run is refused. -/
def refuses : RunReason → Bool
  | .cancelled | .sourceChanged | .stale => true
  | _ => false

/-- The combinations of phase, reason and observation that occur. -/
def possible (plan : RunPlan) (phase : RunPhase) (reason : RunReason) (known : Bool)
    (tick : U 64) : Bool :=
  match phase with
  | .prepared => reason = .none && !known
  | .running => reason = .none && known && plan.before.tick.any fun t => t ≤ tick
  | .stopping => stops reason
  | .stopped => stops reason || reason = .externalPause
  | .refused => refuses reason && !known
  | .sourceLost => reason = .sourceChanged && !known

def reader (bytes : Bytes) : Read.Decoder RecordFields := do
  let magic ← Read.take 8
  Read.check (demand (magic = utf8 "DFMRE013") "not a run/1.13 record")
  let plan ← RunPlan.identity "invalid record key width"
  match plan with
  | .error e => fail e
  | .ok plan =>
      let digest ← Read.take 32
      Read.check (demand (digest = plan.digest.bytes) "run record plan/token mismatch")
      let token ← Read.take 16
      Read.check (demand (token = plan.token) "run record plan/token mismatch")
      let phase ← Read.byte
      match phase? phase with
      | Option.none => fail (rejected "unknown run phase")
      | some phase =>
          let reason ← Read.byte
          match reason? reason with
          | Option.none => fail (rejected "unknown run reason")
          | some reason =>
              let attempted ← Read.boolean
              let verified ← Read.boolean
              let known ← Read.boolean
              let tick ← Read.u64
              let receipt ← Read.digest
              Read.finish
              Read.check (demand (receipt = hash "dfmcp-bounded-run-receipt/1"
                (bytes.take (bytes.length - 32))) "run receipt checksum mismatch")
              Read.check (demand (if known then tick.val ≤ maxNativeTick else tick = 0)
                "fabricated run observation tick")
              Read.check (demand (attempted = attempts phase ∧
                verified = decide (phase = .stopped)) "run phase and effect flags disagree")
              Read.check (demand (possible plan phase reason known tick)
                "impossible run phase/reason/observation combination")
              pure ⟨plan, phase, reason, attempted, verified,
                if known then some tick else Option.none, receipt⟩

def decode (bytes : Bytes) : Result RecordFields := do
  demand (147 ≤ bytes.length ∧ bytes.length ≤ maxRecordBytes) "invalid run record size"
  Read.run (reader bytes) bytes

end RecordFields

structure RunRecord extends RecordFields where
  bytes : Bytes
  decoded : RecordFields.decode bytes = .ok toRecordFields
deriving DecidableEq

namespace RunRecord

def decode (bytes : Bytes) : Result RunRecord :=
  match h : RecordFields.decode bytes with
  | .ok fields => .ok ⟨fields, bytes, h⟩
  | .error e => .error e

end RunRecord

end BoundedRun

end Dfmcp
