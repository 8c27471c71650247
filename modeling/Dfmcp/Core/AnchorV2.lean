import Dfmcp.Core.Basic
import Dfmcp.Library.Wire

/-!
# State anchors, version 2

`anchor_v2.rs`: an anchor names one world version together with every epoch that changes what a
handle bound to it means. It has a canonical encoding, a strict decoder, and a relation that decides
whether handles of an older anchor may still be revalidated.

Anchors are compared by their canonical bytes.
-/

namespace Dfmcp

open Machine Wire

/-- Largest bridge-protocol label an anchor carries. -/
def maxProtocolBytes : Nat := 32

/-- The epochs a version 1 anchor does not carry. -/
structure AnchorEpochs where
  fortressLineage : Digest32
  bridgeGeneration : U 64
  bridgeProtocol : String
  adapterEpoch : U 64
  schemaEpoch : U 64
  policyEpoch : U 64
deriving DecidableEq

structure StateAnchorV2 where
  fortressLineage : Digest32
  observationEpoch : U 64
  snapshotSequence : U 64
  gameTick : Option GameTick
  bridgeGeneration : U 64
  bridgeProtocol : String
  adapterEpoch : U 64
  schemaEpoch : U 64
  policyEpoch : U 64
  semanticWorldRoot : Digest32
deriving DecidableEq

/-- How a newer anchor relates to an older one a handle was bound to. -/
inductive AnchorContinuity where
  | same
  | advanced
  | newEpoch
  | incompatible (reason : String)
deriving DecidableEq

/-- Whether a handle bound to the older anchor may still be revalidated. -/
def AnchorContinuity.admitsOlderHandles : AnchorContinuity → Bool
  | .same => true
  | .advanced => true
  | .newEpoch => false
  | .incompatible _ => false

def invalidAnchor (message : String) : DfmcpError := .new .invalidRequest message

/-- Rust's `is_ascii_alphanumeric`, of a byte. -/
def isAsciiAlphanumeric (b : UInt8) : Bool :=
  (48 ≤ b && b ≤ 57) || (65 ≤ b && b ≤ 90) || (97 ≤ b && b ≤ 122)

namespace StateAnchorV2

def domain : Bytes := utf8 "dfmcp-state-anchor/2" ++ [0]

/-- Whether a byte may stand in a protocol label. -/
def isLabelByte (b : UInt8) : Bool := isAsciiAlphanumeric b || b == 46 || b == 45 || b == 95

def validate (anchor : StateAnchorV2) : Result Unit :=
  if anchor.bridgeProtocol = "" ∨ strLen anchor.bridgeProtocol > maxProtocolBytes ∨
      ¬ (utf8 anchor.bridgeProtocol).all isLabelByte then
    .error (invalidAnchor "bridge protocol label must be 1..=32 bytes of [A-Za-z0-9._-]")
  else .ok ()

/-- Lift a version 1 anchor with the epochs it does not carry. -/
def fromV1 (anchor : StateAnchor) (epochs : AnchorEpochs) : Result StateAnchorV2 := do
  let lifted : StateAnchorV2 := {
    fortressLineage := epochs.fortressLineage
    observationEpoch := anchor.cursor.epoch
    snapshotSequence := anchor.cursor.sequence
    gameTick := some anchor.tick
    bridgeGeneration := epochs.bridgeGeneration
    bridgeProtocol := epochs.bridgeProtocol
    adapterEpoch := epochs.adapterEpoch
    schemaEpoch := epochs.schemaEpoch
    policyEpoch := epochs.policyEpoch
    semanticWorldRoot := anchor.stateHash }
  lifted.validate
  pure lifted

def u64Bytes (value : U 64) : Bytes := beBytes 8 value.val

/-- The tag of a tick, and its value. -/
def tickBytes : Option GameTick → Bytes
  | some tick => 1 :: u64Bytes tick
  | none => 0 :: u64Bytes 0

/-- `len() as u8`, then the bytes. -/
def labelBytes (label : String) : Bytes := UInt8.ofNat (strLen label) :: utf8 label

def canonicalBytes (anchor : StateAnchorV2) : Bytes :=
  domain ++ (anchor.fortressLineage.bytes ++ (u64Bytes anchor.observationEpoch ++
    (u64Bytes anchor.snapshotSequence ++ (tickBytes anchor.gameTick ++
    (u64Bytes anchor.bridgeGeneration ++ (labelBytes anchor.bridgeProtocol ++
    (u64Bytes anchor.adapterEpoch ++ (u64Bytes anchor.schemaEpoch ++
    (u64Bytes anchor.policyEpoch ++ anchor.semanticWorldRoot.bytes)))))))))

/-! ## Decoding -/

abbrev Decoder := Wire.Reader DfmcpError

/-- The next bytes of the input. -/
def takeBytes (n : Nat) : Decoder Bytes := Wire.take (invalidAnchor "v2 state anchor is truncated") n

def takeDigest : Decoder Digest32 := do
  let raw ← takeBytes 32
  pure (Digest32.fromBytes raw)

def takeU64 : Decoder (U 64) := do
  let raw ← takeBytes 8
  pure (U.wrap (ofBe raw))

def takeByte : Decoder UInt8 := do
  let raw ← takeBytes 1
  pure (raw.headD 0)

def takeTick : Decoder (Option GameTick) := do
  let tag ← takeByte
  let tick ← takeU64
  if tag = 1 then pure (some tick)
  else if tag = 0 ∧ tick = 0 then pure none
  else Wire.fail (invalidAnchor "v2 state anchor tick tag is not canonical")

def takeLabel : Decoder String := do
  let length ← takeByte
  let raw ← takeBytes length.toNat
  match fromUtf8 raw with
  | none => Wire.fail (invalidAnchor "v2 state anchor protocol is not UTF-8")
  | some label => pure label

/-- The fields after the domain, in order. -/
def takeAnchor : Decoder StateAnchorV2 := do
  let fortressLineage ← takeDigest
  let observationEpoch ← takeU64
  let snapshotSequence ← takeU64
  let gameTick ← takeTick
  let bridgeGeneration ← takeU64
  let bridgeProtocol ← takeLabel
  let adapterEpoch ← takeU64
  let schemaEpoch ← takeU64
  let policyEpoch ← takeU64
  let semanticWorldRoot ← takeDigest
  pure { fortressLineage, observationEpoch, snapshotSequence, gameTick, bridgeGeneration,
         bridgeProtocol, adapterEpoch, schemaEpoch, policyEpoch, semanticWorldRoot }

def fromCanonicalBytes (bytes : Bytes) : Result StateAnchorV2 :=
  if bytes.take domain.length ≠ domain then .error (invalidAnchor "not a v2 state anchor")
  else do
    let (anchor, rest) ← takeAnchor (bytes.drop domain.length)
    if rest ≠ [] then throw (invalidAnchor "v2 state anchor has trailing bytes")
    anchor.validate
    pure anchor

/-! ## Continuity -/

/-- How this anchor relates to `older`, the anchor a handle was bound to. -/
def continuityFrom (self older : StateAnchorV2) : AnchorContinuity :=
  if self.fortressLineage ≠ older.fortressLineage then
    .incompatible "a different fortress lineage"
  else if self.bridgeProtocol ≠ older.bridgeProtocol then
    .incompatible "a different bridge protocol"
  else if (self.adapterEpoch, self.schemaEpoch, self.policyEpoch) ≠
      (older.adapterEpoch, older.schemaEpoch, older.policyEpoch) then
    .incompatible "an adapter, schema or policy epoch changed"
  else match compare self.observationEpoch older.observationEpoch with
    | .lt => .incompatible "the observation epoch regressed"
    | .gt => .newEpoch
    | .eq =>
        if self.bridgeGeneration ≠ older.bridgeGeneration then
          .incompatible "the bridge restarted within one observation epoch"
        else match compare self.snapshotSequence older.snapshotSequence with
          | .lt => .incompatible "the snapshot sequence regressed"
          | .gt => .advanced
          | .eq =>
              if self = older then .same
              else .incompatible "one sequence names two different versions"

/-- `admits_older_handles` of the continuity. -/
def admits (self older : StateAnchorV2) : Bool := (self.continuityFrom older).admitsOlderHandles

/-- The order of anchors is that of their canonical bytes. -/
def cmp (a b : StateAnchorV2) : Ordering := compareLex a.canonicalBytes b.canonicalBytes
where
  /-- The order of byte strings. -/
  compareLex : Bytes → Bytes → Ordering
    | [], [] => .eq
    | [], _ :: _ => .lt
    | _ :: _, [] => .gt
    | a :: as, b :: bs => (compare a b).then (compareLex as bs)

end StateAnchorV2

end Dfmcp
