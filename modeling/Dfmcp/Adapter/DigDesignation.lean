import Dfmcp.Adapter.BoundedRun
import Dfmcp.Library.Splice

/-!
# Captures of a digging site

`dig_designation/mod.rs`: a rectangle of one level to be designated, the capture of its tiles and of the
tiles around them, and the capture that is expected after the designation. In the source the fields of a
region and of a visible tile are private and bounded by their constructor and decoder; here they carry
the bounds. Coordinates are below `2 ^ 15`, so that no sum of them wraps around.

The expected capture is the observed one with some of its bytes overwritten. An index beyond the capture
would be a panic of the source, and is `none` here.
-/

namespace Dfmcp

open Machine Wire BoundedRun Splice

namespace DigDesignation

def maxCaptureBytes : Nat := 16 * 1024
def maxCells : Nat := 300

/-- A text of at most so many bytes. -/
def text (maximum : Nat) : Read.Decoder String := do
  let size ← Read.u16
  Read.check (demand (1 ≤ size ∧ size ≤ maximum) "invalid dig text length")
  let raw ← Read.take size
  match fromUtf8 raw with
  | none => fail (rejected "invalid dig UTF-8")
  | some value => do
      Read.check (demand (!value.toList.contains (Char.ofNat 0)) "NUL in dig text")
      pure value

def appendText (value : String) : Bytes := beBytes 2 (strLen value) ++ utf8 value

/-! ## Regions -/

/-- A rectangle of one level with a complete halo. -/
structure DigRegion where
  x : Nat
  y : Nat
  z : Nat
  width : Nat
  height : Nat
  bounded : ((1 ≤ width ∧ width ≤ 8) ∧ (1 ≤ height ∧ height ≤ 8)) ∧ (1 ≤ z ∧ z ≤ 32766) ∧
    (x ≠ 0 ∧ y ≠ 0) ∧ x ≤ 32767 - width ∧ y ≤ 32767 - height
deriving DecidableEq

/-- The three coordinates of a cell. -/
abbrev Position := Nat × Nat × Nat

namespace DigRegion

def new (x y z width height : Nat) : Result DigRegion :=
  if h : ((1 ≤ width ∧ width ≤ 8) ∧ (1 ≤ height ∧ height ≤ 8)) ∧ (1 ≤ z ∧ z ≤ 32766) ∧
      (x ≠ 0 ∧ y ≠ 0) ∧ x ≤ 32767 - width ∧ y ≤ 32767 - height then
    .ok ⟨x, y, z, width, height, h⟩
  else
    .error (.new .invalidRequest
      "dig requires a bounded single-level rectangle and complete halo")

def targetCount (region : DigRegion) : Nat := region.width * region.height

def haloCount (region : DigRegion) : Nat := (region.width + 2) * (region.height + 2) * 3

/-- A coordinate of a region, which is far below `2 ^ 31`. -/
def coordinate (n : Nat) : S 32 := S.ofBits S.pos32 n

def halo (region : DigRegion) : MapCuboid where
  min := ⟨coordinate (region.x - 1), coordinate (region.y - 1), coordinate (region.z - 1)⟩
  max := ⟨coordinate (region.x + region.width), coordinate (region.y + region.height),
    coordinate (region.z + 1)⟩

/-- The complete map blocks to which scheduling writes. -/
def writeArea (region : DigRegion) : MapCuboid where
  min := ⟨coordinate (region.x >>> 4 <<< 4), coordinate (region.y >>> 4 <<< 4),
    coordinate region.z⟩
  max := ⟨coordinate ((region.x + region.width - 1) >>> 4 * 16 + 15),
    coordinate ((region.y + region.height - 1) >>> 4 * 16 + 15), coordinate region.z⟩

def append (region : DigRegion) : Bytes :=
  beBytes 4 region.x ++ (beBytes 4 region.y ++ (beBytes 4 region.z ++
    (beBytes 4 region.width ++ beBytes 4 region.height)))

def reader : Read.Decoder DigRegion := do
  let x ← Read.u32
  let y ← Read.u32
  let z ← Read.u32
  let width ← Read.u32
  let height ← Read.u32
  match new x.val y.val z.val width.val height.val with
  | .error e => fail e
  | .ok region => pure region

/-- The cell of an index of the halo: along x, then along y, then by level. -/
def position (region : DigRegion) (index : Nat) : Position :=
  let width := region.width + 2
  let layer := width * (region.height + 2)
  (region.x - 1 + index % width, region.y - 1 + index % layer / width,
    region.z - 1 + index / layer)

def target (region : DigRegion) (p : Position) : Bool :=
  p.2.2 = region.z && p.1 ≥ region.x && p.1 < region.x + region.width && p.2.1 ≥ region.y &&
    p.2.1 < region.y + region.height

/-- Whether a cell lies in a map block that the designation writes to. -/
def targetBlock (region : DigRegion) (p : Position) : Bool :=
  p.2.2 = region.z &&
    (region.x >>> 4 ≤ p.1 >>> 4 && p.1 >>> 4 ≤ (region.x + region.width - 1) >>> 4) &&
    (region.y >>> 4 ≤ p.2.1 >>> 4 && p.2.1 >>> 4 ≤ (region.y + region.height - 1) >>> 4)

end DigRegion

/-! ## Tiles -/

structure VisibleTile where
  tiletype : U 32
  designationOther : U 32
  occupancy : U 32
  priority : U 32
  cooldown : U 32
  blockOther : U 32
  temperatures : U 16 × U 16
  dig : UInt8
  hazards : UInt8
  flags : UInt8
  bounded : priority.val ≤ 7000 ∧ dig ≤ 7 ∧ hazards ≤ 15 ∧ flags ≤ 31
deriving DecidableEq

inductive DigTile where
  | missing
  | hidden
  | visible (tile : VisibleTile)
deriving DecidableEq

namespace DigTile

def temperature : Read.Decoder (U 16) := do
  let bytes ← Read.take 2
  pure (U.wrap (ofBe bytes))

def visibleReader : Read.Decoder DigTile := do
  let tiletype ← Read.u32
  let designationOther ← Read.u32
  let occupancy ← Read.u32
  let priority ← Read.u32
  let cooldown ← Read.u32
  let blockOther ← Read.u32
  let first ← temperature
  let second ← temperature
  let dig ← Read.byte
  let hazards ← Read.byte
  let flags ← Read.byte
  if h : priority.val ≤ 7000 ∧ dig ≤ 7 ∧ hazards ≤ 15 ∧ flags ≤ 31 then
    pure (.visible ⟨tiletype, designationOther, occupancy, priority, cooldown, blockOther,
      (first, second), dig, hazards, flags, h⟩)
  else fail (rejected "invalid visible dig tile attributes")

def reader : Read.Decoder DigTile := do
  let presence ← Read.byte
  match presence.toNat with
  | 0 => pure .missing
  | 1 => pure .hidden
  | 2 => visibleReader
  | _ => fail (rejected "unknown dig tile presence")

end DigTile

/-! ## Captures -/

structure DigObservation where
  bytes : Bytes
  generation : U 64
  sequence : U 64
  tick : U 64
  site : U 32
  dimensions : U 32 × U 32 × U 32
  region : DigRegion
  paused : Bool
  folder : String
  tiles : List DigTile
  offsets : List Nat
deriving DecidableEq

namespace DigObservation

/-- So many tiles, each with the offset at which it starts in a capture of `total` bytes. -/
def readTiles (total : Nat) : Nat → Read.Decoder (List DigTile × List Nat)
  | 0 => pure ([], [])
  | count + 1 => do
      let left ← remaining
      let tile ← DigTile.reader
      let (tiles, offsets) ← readTiles total count
      pure (tile :: tiles, (total - left) :: offsets)

/-- The halo lies on the map. -/
def onMap (dimensions : U 32 × U 32 × U 32) (region : DigRegion) : Prop :=
  (dimensions.1.val > region.x + region.width ∧ dimensions.1.val ≤ 32768) ∧
    (dimensions.2.1.val > region.y + region.height ∧ dimensions.2.1.val ≤ 32768) ∧
    dimensions.2.2.val > region.z + 1 ∧ dimensions.2.2.val ≤ 32768

instance (dimensions : U 32 × U 32 × U 32) (region : DigRegion) :
    Decidable (onMap dimensions region) := by
  unfold onMap
  infer_instance

/-- The source and the clock of a capture. -/
def clocked (generation sequence tick : U 64) (site : U 32) : Prop :=
  (generation > 0 ∧ generation < U.max 64) ∧ sequence < U.max 64 ∧ tick.val ≤ maxNativeTick ∧
    site.val ≤ 2 ^ 31 - 1

instance (generation sequence tick : U 64) (site : U 32) :
    Decidable (clocked generation sequence tick site) := by
  unfold clocked
  infer_instance

def reader (bytes : Bytes) : Read.Decoder DigObservation := do
  let magic ← Read.take 8
  Read.check (demand (magic = utf8 "DFMDG016") "not a dig/1.16 capture")
  let generation ← Read.u64
  let sequence ← Read.u64
  let tick ← Read.u64
  let site ← Read.u32
  Read.check (demand (clocked generation sequence tick site) "invalid dig source or clock")
  let across ← Read.u32
  let down ← Read.u32
  let levels ← Read.u32
  let region ← DigRegion.reader
  Read.check (demand (onMap (across, down, levels) region) "dig halo is outside the map")
  let paused ← Read.boolean
  let folder ← text 512
  let count ← Read.u16
  Read.check (demand (count = region.haloCount ∧ count ≤ maxCells) "incomplete dig halo")
  let (tiles, offsets) ← readTiles bytes.length count
  Read.finish
  pure ⟨bytes, generation, sequence, tick, site, (across, down, levels), region, paused, folder,
    tiles, offsets⟩

def decode (bytes : Bytes) : Result DigObservation := do
  demand (bytes.length ≤ maxCaptureBytes) "dig capture exceeds 16 KiB"
  Read.run (reader bytes) bytes

def witness (o : DigObservation) : Digest32 := .ofBytes o.bytes

/-! ## The capture expected after the designation -/

/-- A target is designated for digging with the default priority. -/
def designate? (out : Bytes) (offset : Nat) : Option Bytes := do
  let out ← overwrite? out (offset + 13) (beBytes 4 4000)
  overwrite? out (offset + 29) [1]

/-- The block of a target is scheduled at once. -/
def schedule? (out : Bytes) (offset : Nat) : Option Bytes := do
  let out ← overwrite? out (offset + 17) (List.replicate 4 0)
  modify? (fun flags => flags ||| 16) out (offset + 31)

/-- The patch of a visible tile that starts at an offset. -/
def patchVisible? (region : DigRegion) (position : Position) (offset : Nat) (out : Bytes) :
    Option Bytes := do
  let out ← (if region.target position then designate? out offset else some out)
  (if region.targetBlock position then schedule? out offset else some out)

/-- The patch of the tile at an index. -/
def patchTile? (o : DigObservation) (out : Bytes) (entry : DigTile × Nat) : Option Bytes :=
  match entry.1 with
  | .missing | .hidden => some out
  | .visible _ => do
      let offset ← o.offsets[entry.2]?
      patchVisible? o.region (o.region.position entry.2) offset out

/-- The bytes that are hashed for the expected witness. -/
def patched? (o : DigObservation) : Option Bytes := do
  let out ← overwrite? o.bytes 16 (beBytes 8 (o.sequence.val + 1))
  o.tiles.zipIdx.foldlM o.patchTile? out

def expectedWitness (o : DigObservation) : Option (Result Digest32) :=
  if o.sequence.val < (U.max 64).val - 1 then o.patched?.map fun out => .ok (.ofBytes out)
  else some (.error (rejected "dig intervention sequence exhausted"))

end DigObservation

end DigDesignation

end Dfmcp
