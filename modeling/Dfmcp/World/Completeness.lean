import Dfmcp.World.CanonicalDecode
import Dfmcp.World.Ledger

/-!
# Completeness profiles

`completeness.rs`: a profile decides which parts of an observation are delivered. All identities
stay; fields outside the profile are marked as omitted, and whole domains may be left out. A
projection is sealed in an envelope with its source's anchor, and two projections of one profile
are linked by a capsule that carries the delta between them.

The encoding budget is a counter that every record is charged against before anything is
encoded. An addition that overflows is beyond the bound as well, so one comparison covers both.
-/

namespace Dfmcp

open Machine Wire

def maxProfileBytes : Nat := 16 * 1024 * 1024
def maxExtensions : Nat := 64
def maxExtensionBytes : Nat := 128 * 1024

inductive CompletenessProfile where
  | controlMinimum
  | operations
  | spatial
  | historical
  | researchFull
deriving DecidableEq

namespace CompletenessProfile

def asStr : CompletenessProfile → String
  | .controlMinimum => "control-minimum"
  | .operations => "operations"
  | .spatial => "spatial"
  | .historical => "historical"
  | .researchFull => "research-full"

/-- The kinds whose fields every profile delivers. -/
def alwaysIncluded : List String :=
  ["fortress", "plan", "action", "obligation", "lease", "checkpoint", "evidence"]

/-- Whether the fields of a kind are delivered. Reserved aliases follow their canonical name. -/
def includesEntityFields (profile : CompletenessProfile) (kind : EntityKind) : Bool :=
  alwaysIncluded.contains kind.asStr || match profile with
    | .controlMinimum | .researchFull => true
    | .operations =>
        ["unit", "item", "building", "job", "work_order", "stockpile", "zone", "burrow", "squad",
          "military_order", "announcement", "syndrome", "stock_ledger", "dig_designation"].contains
            kind.asStr
    | .spatial =>
        ["unit", "item", "building", "stockpile", "zone", "burrow", "tile_feature", "plant",
          "creature", "dig_designation"].contains kind.asStr
    | .historical => ["historical_figure", "civilization", "announcement"].contains kind.asStr

def includesMapChunks : CompletenessProfile → Bool
  | .controlMinimum | .spatial | .researchFull => true
  | .operations | .historical => false

def includesEvents : CompletenessProfile → Bool
  | .operations | .historical | .researchFull => true
  | .controlMinimum | .spatial => false

/-- The fields of a relation are delivered when those of both its endpoints are. -/
def includesEdgeFields (profile : CompletenessProfile)
    (entities : BTreeMap EntityId EntityRecord) (edge : EdgeRecord) : Bool :=
  [edge.fromId, edge.toId].all fun id =>
    (entities.get? id).any fun entity => profile.includesEntityFields entity.kind

/-- A fact that reports its own omission. -/
def omitFact (profile : CompletenessProfile) (fact : Fact) : Fact :=
  { fact with value := .null, presence := some (.omitted profile.asStr) }

def omitFields (profile : CompletenessProfile) (fields : BTreeMap String Fact) :
    BTreeMap String Fact :=
  fields.mapValues fun _ fact => profile.omitFact fact

def projectEntity (profile : CompletenessProfile) (entity : EntityRecord) : EntityRecord :=
  if profile.includesEntityFields entity.kind then entity
  else { entity with fields := profile.omitFields entity.fields }

def projectEdge (profile : CompletenessProfile) (entities : BTreeMap EntityId EntityRecord)
    (edge : EdgeRecord) : EdgeRecord :=
  if profile.includesEdgeFields entities edge then edge
  else { edge with fields := profile.omitFields edge.fields }

/-- Entities first: the kinds of the endpoints are read from the projected entities. -/
def projectGraph (profile : CompletenessProfile) (graph : WorldGraph) : WorldGraph :=
  let entities := graph.entities.mapValues fun _ entity => profile.projectEntity entity
  { entities
    edges := graph.edges.mapValues fun _ edge => profile.projectEdge entities edge
    chunks := if profile.includesMapChunks then graph.chunks else .nil
    events := if profile.includesEvents then graph.events else .nil }

end CompletenessProfile

def profileInvalid (message : String) : DfmcpError := .new .invalidRequest message
def profileStale (message : String) : DfmcpError := .new .staleAnchor message
def profileBound : DfmcpError :=
  .new .budgetExceeded "profiled observation exceeds its explicit encoding bound"

/-! ## The encoding budget -/

namespace EncodingBudget

def limit : Nat := maxProfileBytes - maxExtensionBytes - 4096

def add (budget bytes : Nat) : Result Nat :=
  if budget + bytes > limit then .error profileBound else .ok (budget + bytes)

def text (budget : Nat) (text : String) : Result Nat := add budget (8 + strLen text)

/-- Every value, at its depth. -/
def node (depth budget : Nat) : Result Nat :=
  if depth > maxValueDepth then .error profileBound else add budget 17

mutual

def value (depth budget : Nat) : Value → Result Nat
  | .text content => do
      let budget ← node depth budget
      text budget content
  | .bytes content => do
      let budget ← node depth budget
      add budget content.length
  | .list values => do
      let budget ← node depth budget
      valueList (depth + 1) budget values
  | .object fields => do
      let budget ← node depth budget
      valueFields (depth + 1) budget fields
  | _ => node depth budget

def valueList (depth budget : Nat) : List Value → Result Nat
  | [] => .ok budget
  | v :: rest => do
      let budget ← value depth budget v
      valueList depth budget rest

def valueFields (depth budget : Nat) : {lo : Option String} → OMap String Value lo → Result Nat
  | _, .nil => .ok budget
  | _, .cons key _ v rest => do
      let budget ← text budget key
      let budget ← value depth budget v
      valueFields depth budget rest

end

def source (budget : Nat) : FactSource → Result Nat
  | .dfhackField name | .derived name | .agentAssertion name => text budget name
  | .replay => .ok budget

/-- The text or anchor of a presence that is not a value. -/
def reason (fortress : FortressId) (tick : GameTick) (budget : Nat) :
    FactPresence → Result Nat
  | .unknown reason | .unsupported reason | .omitted reason | .redacted reason =>
      text budget reason
  | .stale anchor =>
      if anchor.fortressId ≠ fortress ∨ anchor.tick > tick ∨ anchor.stateHash = Digest32.zero then
        .error (profileInvalid ("stale fact names a different fortress, future observation, or " ++
          "missing anchor hash"))
      else .ok budget
  | .known _ | .absent => .ok budget

def presence (fortress : FortressId) (tick : GameTick) (budget : Nat) (stored : Value) :
    Option FactPresence → Result Nat
  | none => .ok budget
  | some (.known known) => do
      let budget ← value 0 budget known
      if known ≠ stored then
        throw (profileInvalid "known presence disagrees with the fact value")
      pure budget
  | some presence =>
      if stored ≠ .null then
        .error (profileInvalid "nonknown presence retains a contradictory value")
      else reason fortress tick budget presence

def fact (fortress : FortressId) (tick : GameTick) (budget : Nat) (fact : Fact) : Result Nat := do
  let budget ← add budget 128
  let budget ← value 0 budget fact.value
  if fact.observedAt > tick then
    throw (profileInvalid "fact observation tick is ahead of its snapshot")
  let budget ← source budget fact.source
  presence fortress tick budget fact.value fact.presence

def facts (fortress : FortressId) (tick : GameTick) (budget : Nat)
    (fields : BTreeMap String Fact) : Result Nat :=
  fields.toList.foldlM (fun budget entry => do
    let budget ← text budget entry.1
    fact fortress tick budget entry.2) budget

def entity (fortress : FortressId) (tick : GameTick) (budget : Nat) (entity : EntityRecord) :
    Result Nat := do
  let budget ← add budget 64
  let budget ← text budget entity.kind.asStr
  let budget ← text budget entity.label
  facts fortress tick budget entity.fields

def edge (fortress : FortressId) (tick : GameTick) (budget : Nat) (edge : EdgeRecord) :
    Result Nat := do
  let budget ← add budget 64
  let budget ← text budget edge.kind.asStr
  facts fortress tick budget edge.fields

def chunk (budget : Nat) (chunk : MapChunk) : Result Nat := do
  let budget ← add budget 64
  let budget ← add budget (chunk.terrainRuns.length * 8)
  chunk.sparseOverlays.values.foldlM (fun budget fields => do
    let budget ← add budget 12
    valueFields 1 budget fields) budget

def event (budget : Nat) (event : WorldEvent) : Result Nat := do
  let budget ← add budget 64
  let budget ← text budget event.kind.asStr
  let budget ← text budget event.summary
  valueFields 1 budget event.fields

end EncodingBudget

/-! ## Validation -/

namespace EncodingBudget

def entityEntry (s : WorldSnapshot) (budget : Nat) (entry : EntityId × EntityRecord) :
    Result Nat := do
  let budget ← entity s.fortressId s.tick budget entry.2
  if entry.1 = 0 ∨ entry.1 ≠ entry.2.id then
    throw (profileInvalid "entity map identity is invalid")
  pure budget

def edgeEntry (s : WorldSnapshot) (budget : Nat) (entry : EdgeId × EdgeRecord) : Result Nat := do
  let budget ← edge s.fortressId s.tick budget entry.2
  if entry.1 = 0 ∨ entry.1 ≠ entry.2.id ∨ ¬ s.graph.entities.contains entry.2.fromId ∨
      ¬ s.graph.entities.contains entry.2.toId then
    throw (profileInvalid "relation identity or endpoint is invalid")
  pure budget

def chunkEntry (budget : Nat) (entry : ChunkCoord × MapChunk) : Result Nat := do
  let budget ← chunk budget entry.2
  if entry.1 ≠ entry.2.coord ∨ entry.2.width = 0 ∨ entry.2.height = 0 ∨
      entry.2.encodedTileCount ≠ some entry.2.tileCount then
    throw (profileInvalid "spatial chunk identity or coverage is invalid")
  if entry.2.sparseOverlays.keys.any (fun offset => entry.2.tileCount ≤ offset) then
    throw (profileInvalid "spatial overlay lies outside its chunk")
  pure budget

def eventEntry (s : WorldSnapshot) (budget : Nat) (entry : EventId × WorldEvent) :
    Result Nat := do
  let budget ← event budget entry.2
  if entry.1 = 0 ∨ entry.1 ≠ entry.2.id ∨ entry.2.tick > s.tick then
    throw (profileInvalid "event identity or tick is invalid")
  pure budget

/-- The records of a snapshot, each charged and then checked. -/
def snapshot (s : WorldSnapshot) : Result Nat := do
  let budget ← s.graph.entities.toList.foldlM (entityEntry s) 256
  let budget ← s.graph.edges.toList.foldlM (edgeEntry s) budget
  let budget ← s.graph.chunks.toList.foldlM chunkEntry budget
  s.graph.events.toList.foldlM (eventEntry s) budget

def change (delta : StateDelta) (budget : Nat) (change : WorldChange) : Result Nat := do
  let budget ← add budget 32
  match change with
  | .upsertEntity record => entity delta.fortressId delta.targetTick budget record
  | .upsertEdge record => edge delta.fortressId delta.targetTick budget record
  | .upsertMapChunk record => chunk budget record
  | .appendEvent record => event budget record
  | .removeEntity .. | .removeEdge .. | .removeMapChunk .. => pure budget

/-- The changes of a delta and its continuation. -/
def delta (d : StateDelta) : Result Nat := do
  let budget ← d.changes.foldlM (change d) 512
  match d.continuation with
  | some continuation => text budget continuation
  | none => pure budget

end EncodingBudget

def WorldSnapshot.validateProfiled (s : WorldSnapshot) : Result Unit := do
  if s.fortressId = 0 then
    throw (profileInvalid "snapshot fortress identifier is reserved")
  let _ ← EncodingBudget.snapshot s
  if ¬ s.hashIsValid then
    throw (profileInvalid "snapshot canonical hash is invalid")

def validateDeltaEncoding (delta : StateDelta) : Result Unit := do
  if delta.changes.length > maxStateDeltaChanges then
    throw profileBound
  let _ ← EncodingBudget.delta delta

structure ProjectionProvenance where
  sourceSchema : String
  sourceManifest : Digest32
deriving DecidableEq

/-- One extension against what the earlier ones have used. -/
def validateExtension (bytes : Nat) (entry : String × Bytes) : Result Nat :=
  if entry.1 = "" ∨ strLen entry.1 > 128 ∨ entry.1.toList.contains (Char.ofNat 0) then
    .error (profileInvalid "invalid optional projection extension name")
  else if bytes + strLen entry.1 + entry.2.length > maxExtensionBytes then .error profileBound
  else .ok (bytes + strLen entry.1 + entry.2.length)

def validateProvenance (provenance : ProjectionProvenance) (extensions : BTreeMap String Bytes) :
    Result Unit := do
  if provenance.sourceSchema = "" ∨ strLen provenance.sourceSchema > 256 ∨
      provenance.sourceSchema.toList.contains (Char.ofNat 0) ∨
      provenance.sourceManifest = Digest32.zero then
    throw (profileInvalid
      "projection requires an explicit bounded source schema and nonzero manifest digest")
  if extensions.size > maxExtensions then
    throw profileBound
  let _ ← extensions.toList.foldlM validateExtension 0

/-- A fact that says it was omitted by the profile, and no more. -/
def CompletenessProfile.isOmitted (profile : CompletenessProfile) (fact : Fact) : Bool :=
  fact.value = .null ∧ fact.presence = some (.omitted profile.asStr)

def validateProjection (s : WorldSnapshot) (profile : CompletenessProfile) : Result Unit := do
  if s.graph.entities.values.any fun entity =>
      ¬ profile.includesEntityFields entity.kind ∧
        ¬ entity.fields.values.all profile.isOmitted then
    throw (profileInvalid "excluded entity fields must explicitly report profile omission")
  if s.graph.edges.values.any fun edge =>
      ¬ profile.includesEdgeFields s.graph.entities edge ∧
        ¬ edge.fields.values.all profile.isOmitted then
    throw (profileInvalid "excluded relation fields must explicitly report profile omission")
  if (¬ profile.includesMapChunks ∧ s.graph.chunks.size ≠ 0) ∨
      (¬ profile.includesEvents ∧ s.graph.events.size ≠ 0) then
    throw (profileInvalid "projection includes a domain excluded by its profile")

/-! ## Envelopes -/

def putExtension (entry : String × Bytes) : Bytes := putStr entry.1 ++ putBytes entry.2

def encodeIdentity (profile : CompletenessProfile) (provenance : ProjectionProvenance)
    (extensions : BTreeMap String Bytes) : Bytes :=
  putStr profile.asStr ++ putStr provenance.sourceSchema ++
    putBytes provenance.sourceManifest.bytes ++
    (putLen extensions.size ++ extensions.toList.flatMap putExtension)

def finishBytes (bytes : Bytes) : Result Bytes :=
  if bytes.length > maxProfileBytes then .error profileBound else .ok bytes

/-- A projection in its envelope. Extensions are kept byte for byte. -/
structure ProfiledSnapshot where
  profile : CompletenessProfile
  sourceAnchor : StateAnchor
  provenance : ProjectionProvenance
  snapshot : WorldSnapshot
  extensions : BTreeMap String Bytes
  digest : Digest32

namespace ProfiledSnapshot

/-- The bytes that the digest of an envelope covers. -/
def canonicalBytes (p : ProfiledSnapshot) : Result Bytes := do
  validateProvenance p.provenance p.extensions
  p.snapshot.validateProfiled
  finishBytes (putStr "dfmcp-profiled-snapshot-v1" ++
    encodeIdentity p.profile p.provenance p.extensions ++ putAnchor p.sourceAnchor ++
    putBytes p.snapshot.canonicalBytes)

def sealEnvelope (profile : CompletenessProfile) (sourceAnchor : StateAnchor)
    (provenance : ProjectionProvenance) (snapshot : WorldSnapshot)
    (extensions : BTreeMap String Bytes) : Result ProfiledSnapshot := do
  validateProvenance provenance extensions
  snapshot.validateProfiled
  if sourceAnchor.fortressId = 0 ∨ sourceAnchor.stateHash = Digest32.zero ∨
      sourceAnchor.fortressId ≠ snapshot.fortressId ∨ sourceAnchor.cursor ≠ snapshot.cursor ∨
      sourceAnchor.tick ≠ snapshot.tick then
    throw (profileInvalid "projection source anchor does not match its observation identity")
  if profile = .researchFull ∧ sourceAnchor.stateHash ≠ snapshot.stateHash then
    throw (profileInvalid "research-full must retain the complete canonical source bytes")
  validateProjection snapshot profile
  let result : ProfiledSnapshot :=
    ⟨profile, sourceAnchor, provenance, snapshot, extensions, Digest32.zero⟩
  let bytes ← result.canonicalBytes
  pure { result with digest := .ofBytes bytes }

/-- The source is decoded from its own bytes, then projected. -/
def project (source : WorldSnapshot) (profile : CompletenessProfile)
    (provenance : ProjectionProvenance) (extensions : BTreeMap String Bytes) :
    Result ProfiledSnapshot := do
  validateProvenance provenance extensions
  source.validateProfiled
  let decoded ← WorldSnapshot.fromCanonicalBytes source.canonicalBytes
  let snapshot := { decoded with graph := profile.projectGraph decoded.graph }
  sealEnvelope profile source.anchor provenance snapshot.refreshHash extensions

end ProfiledSnapshot

namespace Envelope

abbrev Decoder := Wire.Reader DfmcpError

def take (count : Nat) : Decoder Bytes :=
  Wire.take (profileInvalid "profile envelope is truncated") count

def u64 : Decoder (U 64) := do
  let raw ← take 8
  pure (U.wrap (ofBe raw))

def bytes : Decoder Bytes := do
  let count ← u64
  take count.val

def text : Decoder String := do
  let raw ← bytes
  match fromUtf8 raw with
  | none => fail (profileInvalid "profile envelope text is not UTF-8")
  | some text => pure text

def digest : Decoder Digest32 := do
  let raw ← bytes
  if raw.length ≠ 32 then fail (profileInvalid "profile digest has the wrong length")
  else pure (.fromBytes raw)

def anchor : Decoder StateAnchor := do
  let fortressId ← u64
  let epoch ← u64
  let sequence ← u64
  let tick ← u64
  let stateHash ← digest
  pure ⟨fortressId, ⟨epoch, sequence⟩, tick, stateHash⟩

def domain (expected : String) : Decoder Unit := do
  let found ← text
  if found = expected then pure () else fail (profileInvalid "unknown profile envelope version")

def finish : Decoder Unit := do
  let left ← remaining
  if left = 0 then pure () else fail (profileInvalid "profile envelope has trailing bytes")

end Envelope

/-! ## Capsules between projections -/

/-- A delta of one projection identity, with the anchors of the sources. -/
structure ProfiledObservationCapsule where
  basisDigest : Digest32
  successorSource : StateAnchor
  successorDigest : Digest32
  capsule : ObservationCapsule
  digest : Digest32

namespace ProfiledObservationCapsule

def canonicalBytes (c : ProfiledObservationCapsule) : Result Bytes := do
  validateDeltaEncoding c.capsule.delta
  finishBytes (putStr "dfmcp-profiled-capsule-v1" ++ putBytes c.basisDigest.bytes ++
    putAnchor c.successorSource ++ putBytes c.successorDigest.bytes ++
    putAnchor c.capsule.basisAnchor ++ putAnchor c.capsule.successorAnchor ++
    putU64 c.capsule.publishedAtTick ++ putBytes c.capsule.delta.canonicalBytes)

def between (base target : ProfiledSnapshot) (publishedAtTick : GameTick) :
    Result ProfiledObservationCapsule := do
  if base.profile ≠ target.profile ∨ base.provenance ≠ target.provenance ∨
      base.extensions ≠ target.extensions then
    throw (profileStale ("profile, source manifest/schema, or optional extensions changed; " ++
      "a full projection is required"))
  let delta ← diffSnapshots base.snapshot target.snapshot
  validateDeltaEncoding delta
  let capsule ← ObservationCapsule.new base.snapshot.anchor target.snapshot.anchor delta
    publishedAtTick
  let result : ProfiledObservationCapsule :=
    ⟨base.digest, target.sourceAnchor, target.digest, capsule, Digest32.zero⟩
  let bytes ← result.canonicalBytes
  pure { result with digest := .ofBytes bytes }

def apply (c : ProfiledObservationCapsule) (base : ProfiledSnapshot) :
    Result ProfiledSnapshot := do
  validateDeltaEncoding c.capsule.delta
  if base.digest ≠ c.basisDigest ∨ base.snapshot.anchor ≠ c.capsule.basisAnchor ∨
      ¬ c.capsule.integrityIsValid then
    throw (profileStale "profiled capsule does not match its exact base")
  let snapshot ← applyDelta base.snapshot c.capsule.delta
  let target ← ProfiledSnapshot.sealEnvelope base.profile c.successorSource base.provenance
    snapshot base.extensions
  if target.digest ≠ c.successorDigest then
    throw (profileInvalid "profiled capsule did not reconstruct its declared envelope")
  pure target

/-- The parts of a capsule, in the order they are read. -/
def read : Envelope.Decoder
    (Digest32 × StateAnchor × Digest32 × StateAnchor × StateAnchor × GameTick × StateDelta) := do
  Envelope.domain "dfmcp-profiled-capsule-v1"
  let basisDigest ← Envelope.digest
  let successorSource ← Envelope.anchor
  let successorDigest ← Envelope.digest
  let basisAnchor ← Envelope.anchor
  let successorAnchor ← Envelope.anchor
  let publishedAtTick ← Envelope.u64
  let raw ← Envelope.bytes
  let delta ← (StateDelta.fromCanonicalBytes raw : Result StateDelta)
  Envelope.finish
  pure (basisDigest, successorSource, successorDigest, basisAnchor, successorAnchor,
    publishedAtTick, delta)

/-- Decoding needs the base, so that the delta can be replayed before the capsule is used. -/
def fromCanonicalBytes (bytes : Bytes) (base : ProfiledSnapshot) :
    Result ProfiledObservationCapsule := do
  if bytes.length > maxProfileBytes then
    throw profileBound
  let ((basisDigest, successorSource, successorDigest, basisAnchor, successorAnchor,
    publishedAtTick, delta), _) ← read bytes
  validateDeltaEncoding delta
  let capsule ← ObservationCapsule.new basisAnchor successorAnchor delta publishedAtTick
  let result : ProfiledObservationCapsule :=
    ⟨basisDigest, successorSource, successorDigest, capsule, .ofBytes bytes⟩
  let _ ← result.apply base
  let encoded ← result.canonicalBytes
  if encoded ≠ bytes then
    throw (profileInvalid "profiled capsule is not canonically encoded")
  pure result

end ProfiledObservationCapsule

end Dfmcp
