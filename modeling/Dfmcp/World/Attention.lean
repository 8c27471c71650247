import Dfmcp.World.Model

/-!
# The attention ledger

`attention.rs`: the signals an operator should look at, ranked by severity, cut to a number of
signals and bound by a digest. The one signal the engine raises is a unit whose stress is high.
-/

namespace Dfmcp

open Machine

inductive AttentionSignalKind where
  | militaryThreat
  | starvationRisk
  | stressAnomaly
  | resourceBottleneck
  | blockedJob
  | idleWorkshop
  | mandateRisk
  | planRegression
deriving DecidableEq

namespace AttentionSignalKind

def name : AttentionSignalKind → String
  | .militaryThreat => "military_threat"
  | .starvationRisk => "starvation_risk"
  | .stressAnomaly => "stress_anomaly"
  | .resourceBottleneck => "resource_bottleneck"
  | .blockedJob => "blocked_job"
  | .idleWorkshop => "idle_workshop"
  | .mandateRisk => "mandate_risk"
  | .planRegression => "plan_regression"

/-- The derived order is the order of the constructors. -/
def rank : AttentionSignalKind → Nat
  | .militaryThreat => 0
  | .starvationRisk => 1
  | .stressAnomaly => 2
  | .resourceBottleneck => 3
  | .blockedJob => 4
  | .idleWorkshop => 5
  | .mandateRisk => 6
  | .planRegression => 7

end AttentionSignalKind

structure AttentionSignal where
  kind : AttentionSignalKind
  subject : Option EntityId
  severityScore : U 32
  summary : String
  contributingFactors : List String
  evidenceDigest : Digest32
deriving DecidableEq

namespace AttentionSignal

/-- No subject comes before every subject. -/
def subjectLe : Option EntityId → Option EntityId → Bool
  | none, _ => true
  | some _, none => false
  | some a, some b => a ≤ b

/-- The ranking: higher severity, then kind, then subject. -/
def rankLe (a b : AttentionSignal) : Bool :=
  if a.severityScore = b.severityScore then
    if a.kind = b.kind then subjectLe a.subject b.subject else a.kind.rank ≤ b.kind.rank
  else b.severityScore ≤ a.severityScore

def encode (signal : AttentionSignal) : Bytes :=
  putStr signal.kind.name ++ putU32 signal.severityScore ++ putOption putU64 signal.subject ++
    putStr signal.summary ++
    (putLen signal.contributingFactors.length ++ signal.contributingFactors.flatMap putStr) ++
    putBytes signal.evidenceDigest.bytes

end AttentionSignal

inductive CompletenessStatus where
  | complete
  | budgetTruncated
deriving DecidableEq

def CompletenessStatus.tag : CompletenessStatus → UInt8
  | .complete => 0
  | .budgetTruncated => 1

structure AttentionLedger where
  generation : U 64
  anchor : StateAnchor
  signals : List AttentionSignal
  completeness : CompletenessStatus
  ledgerDigest : Digest32

/-- A ledger sorts its signals and binds them by a digest. -/
def AttentionLedger.new (generation : U 64) (anchor : StateAnchor) (signals : List AttentionSignal)
    (completeness : CompletenessStatus) : AttentionLedger :=
  let signals := signals.mergeSort AttentionSignal.rankLe
  { generation
    anchor
    signals
    completeness
    ledgerDigest := .ofBytes (putStr "dfmcp-attention-ledger-v1" ++ putU64 generation ++
      putAnchor anchor ++ [completeness.tag] ++ putLen signals.length ++
      signals.flatMap AttentionSignal.encode) }

namespace AttentionEngine

/-- The stored stress of a unit, with its fact, where it is an integer above fifty. -/
def stressAlarm (entity : EntityRecord) : Option (Fact × S 64) :=
  if entity.kind = .unit then
    (entity.fields.get? "stress").bind fun fact =>
      match fact.value with
      | .i64 stressVal => if stressVal.val > 50 then some (fact, stressVal) else none
      | _ => none
  else none

/-- `u32::try_from(stress)`, at most a thousand. -/
def severity (stressVal : S 64) : U 32 :=
  if 0 ≤ stressVal.val ∧ stressVal.val < 2 ^ 32 then U.wrap (min stressVal.val.toNat 1000) else 1000

def stressSignal (id : EntityId) (entity : EntityRecord) : Option AttentionSignal :=
  (stressAlarm entity).map fun (fact, stressVal) =>
    { kind := .stressAnomaly
      subject := some id
      severityScore := severity stressVal
      summary := "High stress detected on unit " ++ entity.label ++ ": " ++ toString stressVal.val
      contributingFactors := ["stress=" ++ toString stressVal.val]
      evidenceDigest := fact.sourceDigest }

/-- Every signal of a snapshot, by entity. -/
def allSignals (snapshot : WorldSnapshot) : List AttentionSignal :=
  snapshot.graph.entities.toList.filterMap fun (id, entity) => stressSignal id entity

def rankAttention (snapshot : WorldSnapshot) (generation : U 64) (maxSignals : Nat) :
    AttentionLedger :=
  let signals := (allSignals snapshot).mergeSort AttentionSignal.rankLe
  if signals.length > maxSignals then
    .new generation snapshot.anchor (signals.take maxSignals) .budgetTruncated
  else .new generation snapshot.anchor signals .complete

end AttentionEngine

end Dfmcp
