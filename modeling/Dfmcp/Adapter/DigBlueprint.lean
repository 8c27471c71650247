import Dfmcp.Adapter.DigDesignation
import Dfmcp.Adapter.RunJournal

/-!
# Mining blueprints

`dig_blueprint.rs`: a list of floor cuboids becomes a list of rectangles that the designation takes one
at a time. The selected cells are a set ordered by level, row and column; from the first cell left a
rectangle grows to the right and then downwards, at most eight cells each way, and is taken away. A
blueprint is identified by a text of its cells, and a batch by the bytes of its parts, of the source it
was made for and of the first capture.

The source's loop ends when no cell is left or when there are already 128 rectangles, so that its
iterations are counted by the rectangles that may still be made.
-/

namespace Dfmcp

open Machine Wire BoundedRun DigDesignation

namespace DigBlueprint

def schema : String := "dfmcp.excavation-blueprint/1"
def maxParts : Nat := 32
def maxTargets : Nat := 512
def maxVolume : Nat := 1024
def maxSteps : Nat := 128
def maxBlueprintBytes : Nat := 16 * 1024
def maxDefinitionBytes : Nat := 32 * 1024

def invalid (message : String) : DfmcpError := .new .invalidRequest message

/-- The `require` of this part of the source. -/
def ensure (condition : Prop) [Decidable condition] (message : String) : Result Unit :=
  if condition then .ok () else .error (invalid message)

/-! ## Parts -/

/-- A cuboid of floors: its first cell, and how many columns, rows and levels it has. -/
structure BlueprintPart where
  origin : Position
  size : Position
deriving DecidableEq

/-- A selected cell: its level, then its row, then its column. -/
abbrev Cell := Nat ×ₗ Nat ×ₗ Nat

def cell (z y x : Nat) : Cell := toLex (z, toLex (y, x))

namespace Cell

def z (c : Cell) : Nat := (ofLex c).1
def y (c : Cell) : Nat := (ofLex (ofLex c).2).1
def x (c : Cell) : Nat := (ofLex (ofLex c).2).2

end Cell

namespace BlueprintPart

def volume (part : BlueprintPart) : Nat := part.size.1 * part.size.2.1 * part.size.2.2

/-- An axis is within the coordinates, and leaves room for the halo. -/
def axisFits (origin size : Nat) : Prop :=
  (1 ≤ origin ∧ origin ≤ 32766) ∧ (1 ≤ size ∧ size ≤ 128) ∧ origin + size ≤ 32767

instance (origin size : Nat) : Decidable (axisFits origin size) := by
  unfold axisFits
  infer_instance

def fits (part : BlueprintPart) : Prop :=
  axisFits part.origin.1 part.size.1 ∧ axisFits part.origin.2.1 part.size.2.1 ∧
    axisFits part.origin.2.2 part.size.2.2

instance (part : BlueprintPart) : Decidable part.fits := by
  unfold fits
  infer_instance

/-- The cells of a part, by level, row and column. -/
def cells (part : BlueprintPart) : List Cell :=
  (List.range part.size.2.2).flatMap fun k => (List.range part.size.2.1).flatMap fun j =>
    (List.range part.size.1).map fun i =>
      cell (part.origin.2.2 + k) (part.origin.2.1 + j) (part.origin.1 + i)

/-- The key by which parts are ordered. -/
def key (part : BlueprintPart) : Nat ×ₗ Nat ×ₗ Nat ×ₗ Nat ×ₗ Nat ×ₗ Nat :=
  toLex (part.origin.2.2, toLex (part.origin.2.1, toLex (part.origin.1,
    toLex (part.size.2.2, toLex (part.size.2.1, part.size.1)))))

def text (part : BlueprintPart) : String :=
  "\x7b\"region\":\x7b\"origin\":[" ++ toString part.origin.1 ++ "," ++ toString part.origin.2.1 ++
    "," ++ toString part.origin.2.2 ++ "],\"size\":[" ++ toString part.size.1 ++ "," ++
    toString part.size.2.1 ++ "," ++ toString part.size.2.2 ++ "]\x7d,\"shape\":\"floor\"\x7d"

def encode (part : BlueprintPart) : Bytes :=
  beBytes 4 part.origin.1 ++ (beBytes 4 part.origin.2.1 ++ (beBytes 4 part.origin.2.2 ++
    (beBytes 4 part.size.1 ++ (beBytes 4 part.size.2.1 ++ beBytes 4 part.size.2.2))))

end BlueprintPart

/-! ## The extent of a blueprint -/

/-- How many cells were seen, and the box around them. -/
structure Extent where
  count : Nat
  low : Position
  high : Position
deriving DecidableEq

namespace Extent

def empty : Extent := ⟨0, (2 ^ 32 - 1, 2 ^ 32 - 1, 2 ^ 32 - 1), (0, 0, 0)⟩

def widen (extent : Extent) (part : BlueprintPart) : Extent where
  count := extent.count + part.volume
  low := (min extent.low.1 part.origin.1, min extent.low.2.1 part.origin.2.1,
    min extent.low.2.2 part.origin.2.2)
  high := (max extent.high.1 (part.origin.1 + part.size.1),
    max extent.high.2.1 (part.origin.2.1 + part.size.2.1),
    max extent.high.2.2 (part.origin.2.2 + part.size.2.2))

def admitPart (extent : Extent) (part : BlueprintPart) : Result Extent := do
  ensure part.fits "blueprint part exceeds bounded coordinates or complete native halo"
  ensure ((extent.widen part).count ≤ maxTargets) "blueprint exceeds 512 targets"
  pure (extent.widen part)

def size (extent : Extent) : Position :=
  (extent.high.1 - extent.low.1, extent.high.2.1 - extent.low.2.1,
    extent.high.2.2 - extent.low.2.2)

def coherent (extent : Extent) : Prop :=
  (extent.size.1 ≤ 128 ∧ extent.size.2.1 ≤ 128 ∧ extent.size.2.2 ≤ 128) ∧
    extent.size.1 * extent.size.2.1 * extent.size.2.2 ≤ maxVolume

instance (extent : Extent) : Decidable extent.coherent := by
  unfold coherent
  infer_instance

end Extent

/-! ## The selected cells -/

def insertCell (selected : BTreeSet Cell) (c : Cell) : Result (BTreeSet Cell) := do
  ensure (!selected.contains c) "mining blueprint parts overlap"
  pure (selected.insert c ())

def select (parts : List BlueprintPart) : Result (BTreeSet Cell) :=
  parts.foldlM (fun selected part => part.cells.foldlM insertCell selected) .nil

def targetsOf (selected : BTreeSet Cell) : List Position :=
  selected.keys.map fun c => (c.x, c.y, c.z)

/-! ## The cover by rectangles -/

/-- Count further while the next one is there, at most so many times. -/
def grow (present : Nat → Bool) : Nat → Nat → Nat
  | 0, n => n
  | left + 1, n => if present n then grow present left (n + 1) else n

def widthAt (remaining : BTreeSet Cell) (c : Cell) : Nat :=
  grow (fun n => remaining.contains (cell c.z c.y (c.x + n))) 7 1

def heightAt (remaining : BTreeSet Cell) (c : Cell) (width : Nat) : Nat :=
  grow (fun n => (List.range width).all fun i => remaining.contains (cell c.z (c.y + n) (c.x + i))) 7 1

/-- The cells of a rectangle, by row and column. -/
def rectangle (c : Cell) (width height : Nat) : List Cell :=
  (List.range height).flatMap fun j => (List.range width).map fun i => cell c.z (c.y + j) (c.x + i)

def takeAway (remaining : BTreeSet Cell) (cells : List Cell) : BTreeSet Cell :=
  cells.foldl (fun left c => left.erase c) remaining

/-- Cover what remains by at most `left` more rectangles. -/
def cover : Nat → BTreeSet Cell → Result (List DigRegion)
  | 0, remaining =>
      match remaining.keys.head? with
      | none => .ok []
      | some _ => .error (invalid "blueprint exceeds 128 native regions")
  | left + 1, remaining =>
      match remaining.keys.head? with
      | none => .ok []
      | some c => do
          let width := widthAt remaining c
          let height := heightAt remaining c width
          let region ← DigRegion.new c.x c.y c.z width height
          let regions ← cover left (takeAway remaining (rectangle c width height))
          pure (region :: regions)

/-! ## Texts -/

/-- Texts with commas between them. -/
def commas : List String → String
  | [] => ""
  | [text] => text
  | text :: texts => text ++ "," ++ commas texts

def canonical (parts : List BlueprintPart) : String :=
  "\x7b\"parts\":[" ++ commas (parts.map BlueprintPart.text) ++ "],\"schema\":\"" ++ schema ++ "\"\x7d"

/-- The number of a cell in the box of the blueprint. -/
def cellNumber (low size p : Position) : Nat :=
  ((p.2.2 - low.2.2) * size.2.1 + p.2.1 - low.2.1) * size.1 + p.1 - low.1

/-- The text by which the cells of a blueprint are identified. -/
def mask (low size : Position) (targets : List Position) : String :=
  "\x7b\"region\":\x7b\"origin\":[" ++ toString low.1 ++ "," ++ toString low.2.1 ++ "," ++
    toString low.2.2 ++ "],\"size\":[" ++ toString size.1 ++ "," ++ toString size.2.1 ++ "," ++
    toString size.2.2 ++ "]\x7d,\"targets\":[" ++
    commas (targets.map fun p => "[" ++ toString (cellNumber low size p) ++ ",3]") ++ "]\x7d"

def regionText (region : DigRegion) : String :=
  "[" ++ toString region.x ++ "," ++ toString region.y ++ "," ++ toString region.z ++ "," ++
    toString region.width ++ "," ++ toString region.height ++ "]"

def layoutText (blueprintDigest : Digest32) (regions : List DigRegion) : String :=
  "\x7b\"blueprint_digest\":\"" ++ blueprintDigest.toHex ++
    "\",\"dig_mode\":\"normal\",\"native_profile\":\"dig/1.16\",\"rectangles\":[" ++
    commas (regions.map regionText) ++ "]\x7d"

def sortParts (parts : List BlueprintPart) : List BlueprintPart :=
  parts.insertionSort fun a b => a.key ≤ b.key

/-! ## Layouts -/

structure Layout where
  parts : List BlueprintPart
  targets : List Position
  regions : List DigRegion
  bytes : Bytes
  blueprintDigest : Digest32
  digest : Digest32
deriving DecidableEq

namespace Layout

/-- The layout of parts with these cells and regions. -/
def assemble (parts : List BlueprintPart) (extent : Extent) (targets : List Position)
    (regions : List DigRegion) : Layout where
  parts := sortParts parts
  targets := targets
  regions := regions
  bytes := utf8 (canonical (sortParts parts))
  blueprintDigest := hash "dfmcp-excavation-blueprint/1" (utf8 (mask extent.low extent.size targets))
  digest := hash "dfmcp-dig-blueprint-layout/1" (utf8 (layoutText
    (hash "dfmcp-excavation-blueprint/1" (utf8 (mask extent.low extent.size targets))) regions))

def new (parts : List BlueprintPart) : Result Layout := do
  ensure (1 ≤ parts.length ∧ parts.length ≤ maxParts) "mining blueprint requires 1..32 floor parts"
  let extent ← parts.foldlM Extent.admitPart .empty
  ensure extent.coherent "blueprint exceeds its coherent 1024-cell capture domain"
  let selected ← select parts
  let regions ← cover maxSteps selected
  ensure (strLen (canonical (sortParts parts)) ≤ maxBlueprintBytes)
    "normalized blueprint exceeds 16 KiB"
  pure (assemble parts extent (targetsOf selected) regions)

def validateScope (layout : Layout) (scope : MapCuboid) : Result Unit :=
  ensure (layout.regions.all fun region =>
      scope.containsCuboid region.halo && scope.containsCuboid region.writeArea)
    "blueprint halo or shared scheduling block exceeds the original scope"

def validateDimensions (layout : Layout) (dimensions : U 32 × U 32 × U 32) : Result Unit :=
  ensure (layout.regions.all fun region =>
      region.x + region.width < dimensions.1.val && region.y + region.height < dimensions.2.1.val &&
        region.z + 1 < dimensions.2.2.val)
    "a future blueprint region or complete halo lies outside the original map"

end Layout

/-! ## The source that a blueprint is bound to -/

def maxBindingBytes : Nat := 940

/-- The `check` of the coordinator's records. -/
def sound (condition : Prop) [Decidable condition] : Result Unit :=
  if condition then .ok () else .error (corrupt "invalid dig coordinator history")

/-- What a journal of the dig coordinator is bound to. -/
structure DigBinding where
  endpoint : String
  manifest : RunManifest
  folder : String
  site : U 32
  scope : MapCuboid
deriving DecidableEq

namespace DigBinding

def textFits (value : String) (limit : Nat) : Prop :=
  value ≠ "" ∧ strLen value ≤ limit ∧ value.toList.contains (Char.ofNat 0) = false

instance (value : String) (limit : Nat) : Decidable (textFits value limit) := by
  unfold textFits
  infer_instance

def onMap (scope : MapCuboid) : Prop :=
  (0 ≤ scope.min.x.val ∧ 0 ≤ scope.min.y.val ∧ 0 ≤ scope.min.z.val) ∧
    scope.max.x.val ≤ 32767 ∧ scope.max.y.val ≤ 32767 ∧ scope.max.z.val ≤ 32767

instance (scope : MapCuboid) : Decidable (onMap scope) := by
  unfold onMap
  infer_instance

variable (endpoints : Endpoints)

def validate (binding : DigBinding) : Result Unit := do
  demand (endpoints.loopback binding.endpoint) "dig journal requires numeric loopback"
  demand (binding.manifest.generation > 0 ∧ binding.manifest.generation < U.max 64 ∧
    binding.site.val ≤ 2 ^ 31 - 1) "invalid dig journal source identity"
  demand (textFits binding.folder 512) "invalid dig journal source text"
  demand (textFits binding.manifest.dfVersion 128) "invalid dig journal source text"
  demand (textFits binding.manifest.dfhackVersion 128) "invalid dig journal source text"
  sound (onMap binding.scope)
  match MapCuboid.new binding.scope.min binding.scope.max with
  | .error e => .error e
  | .ok _ => .ok ()

def encodeCoord (c : MapCoord) : Bytes :=
  beBytes 4 c.x.toBits ++ (beBytes 4 c.y.toBits ++ beBytes 4 c.z.toBits)

def encode (binding : DigBinding) : Bytes :=
  appendText binding.endpoint ++ (beBytes 8 binding.manifest.generation.val ++
    (appendText binding.manifest.dfVersion ++ (appendText binding.manifest.dfhackVersion ++
      (appendText binding.folder ++ (beBytes 4 binding.site.val ++
        (encodeCoord binding.scope.min ++ encodeCoord binding.scope.max))))))

def readCoord : Read.Decoder MapCoord := do
  let x ← Read.u32
  let y ← Read.u32
  let z ← Read.u32
  pure ⟨S.ofBits S.pos32 x.val, S.ofBits S.pos32 y.val, S.ofBits S.pos32 z.val⟩

def reader : Read.Decoder DigBinding := do
  let address ← text 128
  Read.check (if endpoints.parses address then .ok () else
    .error (corrupt "invalid dig journal endpoint"))
  Read.check (sound (endpoints.canonical address))
  let generation ← Read.u64
  let dfVersion ← text 128
  let dfhackVersion ← text 128
  let folder ← text 512
  let site ← Read.u32
  let low ← readCoord
  let high ← readCoord
  match MapCuboid.new low high with
  | .error e => fail e
  | .ok scope => do
      Read.finish
      let binding := ⟨address, ⟨generation, dfVersion, dfhackVersion⟩, folder, site, scope⟩
      Read.check (validate endpoints binding)
      pure binding

def decode (raw : Bytes) : Result DigBinding := do
  sound (raw.length ≤ maxBindingBytes)
  Read.run (reader endpoints) raw

def fromCanonicalBytes (raw : Bytes) : Result DigBinding := do
  let binding ← decode endpoints raw
  demand (binding.encode = raw) "noncanonical dig journal binding"
  pure binding

end DigBinding

/-! ## Batches -/

structure BatchDefinition where
  layout : Layout
  binding : DigBinding
  journalId : Digest32
  bootstrap : DigObservation
  id : Digest32
deriving DecidableEq

/-- The bytes of a batch before its identity. -/
def batchBytes (layout : Layout) (binding : DigBinding) (journalId : Digest32)
    (bootstrap : DigObservation) : Bytes :=
  utf8 "DFMDBD01" ++ (beBytes 2 layout.parts.length ++
    (layout.parts.flatMap BlueprintPart.encode ++
      (beBytes 4 binding.encode.length ++ (binding.encode ++
        (beBytes 4 bootstrap.bytes.length ++ (bootstrap.bytes ++ journalId.bytes))))))

namespace BatchDefinition

def canonicalBytes (batch : BatchDefinition) : Bytes :=
  batchBytes batch.layout batch.binding batch.journalId batch.bootstrap

/-- The first region was captured, paused, at the source of the binding. -/
def captured (layout : Layout) (binding : DigBinding) (bootstrap : DigObservation) : Prop :=
  bootstrap.paused = true ∧ layout.regions.head? = some bootstrap.region ∧
    bootstrap.generation = binding.manifest.generation ∧ bootstrap.folder = binding.folder ∧
    bootstrap.site = binding.site

instance (layout : Layout) (binding : DigBinding) (bootstrap : DigObservation) :
    Decidable (captured layout binding bootstrap) := by
  unfold captured
  infer_instance

def new (layout : Layout) (binding : DigBinding) (journalId : Digest32)
    (bootstrap : DigObservation) : Result BatchDefinition := do
  layout.validateScope binding.scope
  layout.validateDimensions bootstrap.dimensions
  ensure (journalId ≠ Digest32.zero) "blueprint requires an original native journal identity"
  ensure (captured layout binding bootstrap)
    "blueprint bootstrap must capture the first region at its exact paused source"
  let bytes := batchBytes layout binding journalId bootstrap
  ensure (bytes.length ≤ maxDefinitionBytes) "blueprint definition exceeds bound"
  pure ⟨layout, binding, journalId, bootstrap, hash "dfmcp-dig-blueprint-batch-rust/1" bytes⟩

/-! The readers of the source's `Bytes`. -/

def take (n : Nat) : Read.Decoder Bytes :=
  Wire.take (invalid "truncated blueprint parent bytes") n

def u32 : Read.Decoder Nat := do
  let bytes ← take 4
  pure (ofBe bytes)

def field (maximum : Nat) : Read.Decoder Bytes := do
  let length ← u32
  Read.check (ensure (length ≤ maximum) "blueprint parent field exceeds bound")
  take length

def readPart : Read.Decoder BlueprintPart := do
  let x ← u32
  let y ← u32
  let z ← u32
  let width ← u32
  let height ← u32
  let levels ← u32
  pure ⟨(x, y, z), (width, height, levels)⟩

/-- The result of a decoder of a part. -/
def lift {α : Type} (result : Result α) : Read.Decoder α :=
  match result with
  | .ok a => pure a
  | .error e => fail e

variable (endpoints : Endpoints)

def reader : Read.Decoder BatchDefinition := do
  let magic ← take 8
  Read.check (ensure (magic = utf8 "DFMDBD01") "invalid blueprint parent format")
  let counted ← take 2
  Read.check (ensure (1 ≤ ofBe counted ∧ ofBe counted ≤ maxParts)
    "invalid original blueprint part count")
  let parts ← Wire.replicate readPart (ofBe counted)
  let layout ← lift (Layout.new parts)
  let bound ← field 1024
  let binding ← lift (DigBinding.fromCanonicalBytes endpoints bound)
  let capture ← field maxCaptureBytes
  let bootstrap ← lift (DigObservation.decode capture)
  let journalId ← take 32
  let left ← remaining
  Read.check (ensure (left = 0) "trailing blueprint parent bytes")
  lift (new layout binding (.fromBytes journalId) bootstrap)

def decode (raw : Bytes) : Result BatchDefinition := do
  ensure (raw.length ≤ maxDefinitionBytes) "blueprint definition exceeds bound"
  let batch ← Read.run (reader endpoints) raw
  ensure (batch.canonicalBytes = raw) "noncanonical blueprint parent bytes"
  pure batch

end BatchDefinition

end DigBlueprint

end Dfmcp
