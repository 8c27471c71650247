import Dfmcp.World.Model
import Dfmcp.Library.HashTree

/-!
# Merkle trees over snapshots

`merkle.rs`: the four sections of a snapshot (entities, edges, chunks, events) have a root each,
over the hashes of their records' canonical bytes, and the four roots an overall one. An inclusion
proof is the path of siblings from a leaf to the overall root.
-/

namespace Dfmcp

open Machine HashTree

def emptyDomain : Bytes := utf8 "dfmcp-merkle-empty-v1"
def leafDomain : Bytes := utf8 "dfmcp-merkle-leaf-v1"
def pairDomain : Bytes := utf8 "dfmcp-merkle-pair-v1"

/-- The bytes hashed for a leaf. -/
def leafInput (bytes : Bytes) : Bytes := leafDomain ++ (beBytes 8 bytes.length ++ bytes)

/-- The bytes hashed for a pair. -/
def pairInput (left right : Digest32) : Bytes := pairDomain ++ (left.bytes ++ right.bytes)

def hashLeaf (bytes : Bytes) : Digest32 := .ofBytes (leafInput bytes)
def hashPair (left right : Digest32) : Digest32 := .ofBytes (pairInput left right)

/-- The root of a level of digests. -/
def merkleRoot (level : List Digest32) : Digest32 := rootOf hashPair (.ofBytes emptyDomain) level

/-- The siblings from a leaf up. -/
def merklePath (level : List Digest32) (index : Nat) : Option (List (Digest32 × Bool)) :=
  if index ≥ level.length then none else pathFrom hashPair level.length level index

structure MerkleInclusionProof where
  leafDigest : Digest32
  siblingHashes : List Digest32
  siblingIsLeft : List Bool
deriving DecidableEq

def MerkleInclusionProof.verifyRoot (p : MerkleInclusionProof) (expectedRoot : Digest32) : Bool :=
  if p.siblingHashes.length ≠ p.siblingIsLeft.length then false
  else climb hashPair p.leafDigest (p.siblingHashes.zip p.siblingIsLeft) = expectedRoot

structure MerkleStateTree where
  entitiesRoot : Digest32
  edgesRoot : Digest32
  chunksRoot : Digest32
  eventsRoot : Digest32
  overallRoot : Digest32
  entityLeafHashes : BTreeMap EntityId Digest32
deriving DecidableEq

namespace MerkleStateTree

def fromSnapshot (snapshot : WorldSnapshot) : MerkleStateTree :=
  let entityLeafHashes := snapshot.graph.entities.mapValues fun _ entity => hashLeaf entity.encode
  let entitiesRoot := merkleRoot entityLeafHashes.values
  let edgesRoot := merkleRoot (snapshot.graph.edges.values.map fun edge => hashLeaf edge.encode)
  let chunksRoot := merkleRoot (snapshot.graph.chunks.values.map fun chunk => hashLeaf chunk.encode)
  let eventsRoot := merkleRoot (snapshot.graph.events.values.map fun event => hashLeaf event.encode)
  { entitiesRoot, edgesRoot, chunksRoot, eventsRoot, entityLeafHashes
    overallRoot := merkleRoot [entitiesRoot, edgesRoot, chunksRoot, eventsRoot] }

/-- The overall tree is laid out as `[(entities, edges), (chunks, events)]`. -/
def generateEntityProof (tree : MerkleStateTree) (id : EntityId) : Option MerkleInclusionProof := do
  let index ← tree.entityLeafHashes.keys.findIdx? (· = id)
  let leaves := tree.entityLeafHashes.values
  let leafDigest ← leaves[index]?
  let path ← merklePath leaves index
  let siblings := path ++ [(tree.edgesRoot, false), (hashPair tree.chunksRoot tree.eventsRoot, false)]
  return { leafDigest, siblingHashes := siblings.map Prod.fst, siblingIsLeft := siblings.map Prod.snd }

end MerkleStateTree

end Dfmcp
