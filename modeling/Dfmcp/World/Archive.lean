import Dfmcp.World.Model
import Dfmcp.Library.Method

/-!
# The savegame archive

`franken_fs.rs`: an in-memory archive of snapshots. The canonical bytes of a snapshot are cut into
blocks, every block is kept once, under its digest, and a snapshot is the list of the digests of its
blocks. Storing stages the new blocks first and commits them only when they fit.
-/

namespace Dfmcp

open Machine Method

/-- Size of the blocks of a snapshot. -/
def blockChunkSize : Nat := 64 * 1024
def maxArchiveSnapshots : Nat := 4096
def maxArchiveStoredBytes : Nat := 64 * 1024 * 1024
def maxArchivePayloadBytes : Nat := 64 * 1024 * 1024

structure ArchiveBlock where
  digest : Digest32
  data : Bytes
deriving DecidableEq

structure SavegameArchive where
  blocks : BTreeMap Digest32 ArchiveBlock
  /-- The digests of the blocks of a snapshot, by its state hash. -/
  snapshots : BTreeMap Digest32 (List Digest32)
  storedBytes : Nat

/-- Rust's `chunks`, at most `fuel` of them. -/
def chunksOf (size : Nat) : Nat → Bytes → List Bytes
  | 0, _ => []
  | fuel + 1, bytes =>
      if bytes = [] then [] else bytes.take size :: chunksOf size fuel (bytes.drop size)

/-- The blocks of a payload. Every block has a byte, so there are no more blocks than bytes. -/
def blockChunks (bytes : Bytes) : List Bytes := chunksOf blockChunkSize bytes.length bytes

/-- The derived `Debug` text of a digest. -/
def Digest32.debug (d : Digest32) : String := "Digest32(\"" ++ d.toHex ++ "\")"

namespace SavegameArchive

def new : SavegameArchive := ⟨.nil, .nil, 0⟩

def corruptArchive (message : String) : DfmcpError := .new .corruptLedger message
def archiveBound (message : String) : DfmcpError := .new .budgetExceeded message

/-! ## Reading -/

/-- Check the blocks of a snapshot and count their bytes. -/
def checkBlocks (archive : SavegameArchive) : Nat → List Digest32 → Result Nat
  | payloadBytes, [] => .ok payloadBytes
  | payloadBytes, digest :: rest =>
      match archive.blocks.get? digest with
      | none => .error (.new .internalInvariantViolation
          ("missing block in archive with digest " ++ digest.debug))
      | some block =>
          if Digest32.ofBytes block.data ≠ digest ∨ block.digest ≠ digest then
            .error (corruptArchive
              ("corrupt archive block detected while reading " ++ digest.toHex))
          else if 2 ^ 64 ≤ payloadBytes + block.data.length then
            .error (archiveBound "archive payload byte count overflowed")
          else if payloadBytes + block.data.length > maxArchivePayloadBytes then
            .error (archiveBound "archive payload exceeds its explicit read bound")
          else checkBlocks archive (payloadBytes + block.data.length) rest

/-- Put the blocks of a snapshot together. -/
def joinBlocks (archive : SavegameArchive) : List Digest32 → Result Bytes
  | [] => .ok []
  | digest :: rest =>
      match archive.blocks.get? digest with
      | none => .error (.new .internalInvariantViolation
          ("missing block in archive with digest " ++ digest.toHex))
      | some block => do
          let payload ← joinBlocks archive rest
          .ok (block.data ++ payload)

def readSnapshotPayload (archive : SavegameArchive) (snapshotHash : Digest32) : Result Bytes :=
  match archive.snapshots.get? snapshotHash with
  | none => .error (.new .invalidRequest "snapshot not found in archive")
  | some blockDigests => do
      let _ ← archive.checkBlocks 0 blockDigests
      archive.joinBlocks blockDigests

/-! ## Storing -/

/-- What a snapshot will add. -/
structure Staged where
  blockDigests : List Digest32
  newBlocks : List (Digest32 × Bytes)
  additionalBytes : Nat

/-- A block that is there already, in the archive or among the new ones, is not stored again. -/
def stage (archive : SavegameArchive) (staged : Staged) (chunk : Bytes) : Result Staged :=
  let digest := Digest32.ofBytes chunk
  let blockDigests := staged.blockDigests ++ [digest]
  match archive.blocks.get? digest with
  | some existing =>
      if existing.digest ≠ digest ∨ existing.data ≠ chunk then
        .error (corruptArchive "content-addressed archive block conflicts with existing bytes")
      else .ok { staged with blockDigests }
  | none =>
      match staged.newBlocks.find? fun entry => entry.1 = digest with
      | some pending =>
          if pending.2 ≠ chunk then
            .error (corruptArchive
              "two archive blocks produced the same digest for different bytes")
          else .ok { staged with blockDigests }
      | none =>
          if 2 ^ 64 ≤ staged.additionalBytes + chunk.length then
            .error (archiveBound "archive stored-byte count overflowed")
          else .ok {
            blockDigests
            newBlocks := staged.newBlocks ++ [(digest, chunk)]
            additionalBytes := staged.additionalBytes + chunk.length }

def insertBlocks (blocks : BTreeMap Digest32 ArchiveBlock) (newBlocks : List (Digest32 × Bytes)) :
    BTreeMap Digest32 ArchiveBlock :=
  newBlocks.foldl (fun blocks entry => blocks.insert entry.1 ⟨entry.1, entry.2⟩) blocks

/-- The archive with the staged snapshot in it. -/
def commit (archive : SavegameArchive) (stateHash : Digest32) (staged : Staged) :
    SavegameArchive where
  blocks := insertBlocks archive.blocks staged.newBlocks
  snapshots := archive.snapshots.insert stateHash staged.blockDigests
  storedBytes := archive.storedBytes + staged.additionalBytes

/-- Store a snapshot that is not in the archive. -/
def storeNew (stateHash : Digest32) (serializedBytes : Bytes) :
    Method DfmcpError SavegameArchive (List Digest32) := do
  let archive ← get
  rejectIf (archive.snapshots.size ≥ maxArchiveSnapshots)
    (archiveBound "in-memory archive reached its explicit snapshot bound")
  let staged ← of ((blockChunks serializedBytes).foldlM archive.stage ⟨[], [], 0⟩)
  rejectIf (2 ^ 64 ≤ archive.storedBytes + staged.additionalBytes)
    (archiveBound "archive stored-byte count overflowed")
  rejectIf (archive.storedBytes + staged.additionalBytes > maxArchiveStoredBytes)
    (archiveBound "in-memory archive reached its explicit stored-byte bound")
  set (archive.commit stateHash staged)
  pure staged.blockDigests

/-- Store the bytes of a snapshot, unless they are there already. -/
def storePayload (stateHash : Digest32) (serializedBytes : Bytes) :
    Method DfmcpError SavegameArchive (List Digest32) := do
  rejectIf (serializedBytes.length > maxArchivePayloadBytes)
    (archiveBound "snapshot exceeds the in-memory archive payload bound")
  let archive ← get
  match archive.snapshots.get? stateHash with
  | some existing => do
      let payload ← of (archive.readSnapshotPayload stateHash)
      rejectIf (payload ≠ serializedBytes)
        (corruptArchive "archived snapshot digest is bound to different canonical bytes")
      pure existing
  | none => storeNew stateHash serializedBytes

def storeSnapshot (snapshot : WorldSnapshot) :
    Method DfmcpError SavegameArchive (List Digest32) := do
  rejectIf (snapshot.hashIsValid = false) (.new .internalInvariantViolation
    "cannot archive a snapshot with an invalid canonical state hash")
  storePayload snapshot.stateHash snapshot.canonicalBytes

end SavegameArchive

end Dfmcp
