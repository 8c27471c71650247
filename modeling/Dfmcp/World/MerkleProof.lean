import Dfmcp.World.Merkle

/-!
# What an inclusion proof shows

A proof that climbs from a leaf hash to a snapshot's overall root shows that some record of the
snapshot has the leaf's bytes. Leaves of the four sections are hashed alike, and canonical bytes do
not say which section they come from, so the record need not be an entity.

* `generateEntityProof_verifies` — the generated proof of a stored entity verifies;
* `mem_recordBytes_of_verifies` — what verifies has the bytes of a record of the snapshot;
* `entity_proof_sound_iff` — proofs of an entity are sound exactly when the entity is stored or no
  record of the snapshot has its bytes;
* `edge_passes_for_entity` — an edge that passes for an entity.
-/

namespace Dfmcp

open Machine HashTree

/-! ## Separated inputs -/

theorem take_leafInput (bytes : Bytes) : (leafInput bytes).take 20 = leafDomain := by
  have hlength : leafDomain.length = 20 := by decide
  rw [leafInput, ← hlength, List.take_left]

theorem take_pairInput (left right : Digest32) : (pairInput left right).take 20 = pairDomain := by
  have hlength : pairDomain.length = 20 := by decide
  rw [pairInput, ← hlength, List.take_left]

/-- The three domains tell leaves, pairs and the empty tree apart. -/
theorem separated : Separated leafInput pairInput emptyDomain := by
  refine ⟨?_, ?_, ?_, ?_, ?_⟩
  · intro a b hab
    have hrest := List.append_cancel_left hab
    exact (List.append_inj hrest (by simp)).2
  · intro a b c d hab
    have hrest := List.append_cancel_left hab
    obtain ⟨hleft, hright⟩ := List.append_inj hrest (by rw [a.length_eq, c.length_eq])
    exact ⟨Digest32.bytes_injective hleft, Digest32.bytes_injective hright⟩
  · intro x a b hab
    have htake := congrArg (List.take 20) hab
    rw [take_leafInput, take_pairInput] at htake
    exact absurd htake (by decide)
  · intro x hab
    have htake := congrArg (List.take 20) hab
    rw [take_leafInput] at htake
    exact absurd htake (by decide)
  · intro a b hab
    have htake := congrArg (List.take 20) hab
    rw [take_pairInput] at htake
    exact absurd htake (by decide)

/-! ## The tree of a snapshot -/

/-- The tree over the records of a section. -/
def sectionTree (records : List Bytes) : HashTree.Tree Bytes := rootOf .node .empty (records.map .leaf)

/-- The bytes of a snapshot's records, section by section. -/
def WorldGraph.recordBytes (graph : WorldGraph) : List Bytes :=
  (graph.entities.values.map EntityRecord.encode ++ graph.edges.values.map EdgeRecord.encode) ++
    (graph.chunks.values.map MapChunk.encode ++ graph.events.values.map WorldEvent.encode)

/-- The tree of a snapshot. -/
def WorldGraph.tree (graph : WorldGraph) : HashTree.Tree Bytes :=
  .node (.node (sectionTree (graph.entities.values.map EntityRecord.encode))
      (sectionTree (graph.edges.values.map EdgeRecord.encode)))
    (.node (sectionTree (graph.chunks.values.map MapChunk.encode))
      (sectionTree (graph.events.values.map WorldEvent.encode)))

/-- The digest of a tree of records. -/
abbrev treeDigest : HashTree.Tree Bytes → Digest32 :=
  HashTree.Tree.digest Digest32.ofBytes leafInput pairInput emptyDomain

/-- Everything that is hashed for a tree of records. -/
abbrev treeInputs : HashTree.Tree Bytes → List Bytes :=
  HashTree.Tree.inputs Digest32.ofBytes leafInput pairInput emptyDomain

theorem leaves_sectionTree (records : List Bytes) : (sectionTree records).leaves = records := by
  rw [sectionTree, HashTree.Tree.leaves_rootOf]
  induction records with
  | nil => rfl
  | cons bytes records ih => simpa [HashTree.Tree.leaves] using ih

theorem WorldGraph.leaves_tree (graph : WorldGraph) : graph.tree.leaves = graph.recordBytes := by
  simp only [WorldGraph.tree, HashTree.Tree.leaves, leaves_sectionTree]
  rfl

theorem digest_sectionTree (records : List Bytes) :
    treeDigest (sectionTree records) = merkleRoot (records.map hashLeaf) := by
  rw [sectionTree]
  refine (digest_rootOf _).trans ?_
  rw [List.map_map]
  rfl

theorem overallRoot_eq (s : WorldSnapshot) :
    (MerkleStateTree.fromSnapshot s).overallRoot = treeDigest s.graph.tree := by
  have hvalues : (s.graph.entities.mapValues fun _ entity => hashLeaf entity.encode).values =
      (s.graph.entities.values.map EntityRecord.encode).map hashLeaf := by
    simp [OMap.values, Function.comp_def]
  have hsection : ∀ records : List Bytes,
      merkleRoot (records.map hashLeaf) = treeDigest (sectionTree records) :=
    fun records => (digest_sectionTree records).symm
  have hoverall : ∀ a b c d, merkleRoot [a, b, c, d] = hashPair (hashPair a b) (hashPair c d) :=
    fun _ _ _ _ => rfl
  rw [MerkleStateTree.fromSnapshot, hoverall, hvalues]
  have hmap : ∀ {R : Type} (encode : R → Bytes) (records : List R),
      records.map (fun record => hashLeaf (encode record)) = (records.map encode).map hashLeaf :=
    fun encode records => by rw [List.map_map]; rfl
  rw [hmap EdgeRecord.encode, hmap MapChunk.encode, hmap WorldEvent.encode, hsection, hsection,
    hsection, hsection]
  rfl

/-! ## What verifies -/

namespace MerkleInclusionProof

/-- The siblings of a proof, with their sides. -/
def path (p : MerkleInclusionProof) : List (Digest32 × Bool) := p.siblingHashes.zip p.siblingIsLeft

/-- The digest tells what is hashed for a snapshot from what is hashed to check a proof that some
bytes are one of its leaves. -/
def CollisionFree (p : MerkleInclusionProof) (graph : WorldGraph) (bytes : Bytes) : Prop :=
  HashTree.CollisionFree Digest32.ofBytes leafInput pairInput emptyDomain graph.tree bytes p.path

end MerkleInclusionProof

/-- The proof with a given path. -/
def proofOfPath (leafDigest : Digest32) (path : List (Digest32 × Bool)) : MerkleInclusionProof :=
  ⟨leafDigest, path.map Prod.fst, path.map Prod.snd⟩

theorem path_proofOfPath (leafDigest : Digest32) (path : List (Digest32 × Bool)) :
    (proofOfPath leafDigest path).path = path := by
  simp [proofOfPath, MerkleInclusionProof.path, List.zip_map']

theorem verifyRoot_proofOfPath (leafDigest root : Digest32) (path : List (Digest32 × Bool)) :
    (proofOfPath leafDigest path).verifyRoot root = true ↔
      climb hashPair leafDigest path = root := by
  have hpath := path_proofOfPath leafDigest path
  rw [MerkleInclusionProof.verifyRoot, if_neg (by simp [proofOfPath]), decide_eq_true_eq]
  rw [MerkleInclusionProof.path] at hpath
  rw [hpath]
  rfl

/-- **What verifies has the bytes of a record** of the snapshot, of whichever section. -/
theorem mem_recordBytes_of_verifies {s : WorldSnapshot} {p : MerkleInclusionProof} {bytes : Bytes}
    (hfree : p.CollisionFree s.graph bytes) (hleaf : p.leafDigest = hashLeaf bytes)
    (h : p.verifyRoot (MerkleStateTree.fromSnapshot s).overallRoot = true) :
    bytes ∈ s.graph.recordBytes := by
  rw [MerkleInclusionProof.verifyRoot] at h
  split at h
  · cases h
  · rw [decide_eq_true_eq, hleaf, overallRoot_eq] at h
    rw [← WorldGraph.leaves_tree]
    exact mem_leaves_of_climb separated hfree h

/-- **The generated proof of a stored entity verifies.** -/
theorem generateEntityProof_verifies {s : WorldSnapshot} {id : EntityId} {e : EntityRecord}
    (h : s.graph.entities.get? id = some e) :
    ∃ p, (MerkleStateTree.fromSnapshot s).generateEntityProof id = some p ∧
      p.leafDigest = hashLeaf e.encode ∧
      p.verifyRoot (MerkleStateTree.fromSnapshot s).overallRoot = true := by
  set tree := MerkleStateTree.fromSnapshot s
  have hget : tree.entityLeafHashes.get? id = some (hashLeaf e.encode) := by
    show (s.graph.entities.mapValues fun _ entity => hashLeaf entity.encode).get? id = _
    rw [OMap.get?_mapValues, h]
    rfl
  -- the position of the entity among the keys is its position among the leaves
  obtain ⟨index, hindex⟩ : ∃ index, tree.entityLeafHashes.keys.findIdx? (· = id) = some index := by
    rw [← Option.isSome_iff_exists, List.findIdx?_isSome, List.any_eq_true]
    refine ⟨id, (OMap.mem_keys_iff _ id).2 ((OMap.contains_iff _ id).2 ⟨_, hget⟩), ?_⟩
    simp
  have hleaf : tree.entityLeafHashes.values[index]? = some (hashLeaf e.encode) := by
    obtain ⟨hlt, hkey, -⟩ := List.findIdx?_eq_some_iff_getElem.1 hindex
    have hlt' : index < tree.entityLeafHashes.toList.length := by
      rwa [OMap.keys, List.length_map] at hlt
    have hentry : (tree.entityLeafHashes.toList.get ⟨index, hlt'⟩).1 = id := by
      simpa [OMap.keys] using hkey
    have hvalue := (OMap.mem_toList_iff _ _ _).1
      (List.get_mem tree.entityLeafHashes.toList ⟨index, hlt'⟩)
    rw [hentry, hget] at hvalue
    rw [OMap.values, List.getElem?_map, List.getElem?_eq_getElem hlt', Option.map_some]
    exact hvalue.symm
  obtain ⟨path, hpath, hroot⟩ := climb_path hashPair (le_refl _) hleaf
  have hmerkle : merklePath tree.entityLeafHashes.values index = some path := by
    have hlt : index < tree.entityLeafHashes.values.length := (List.getElem?_eq_some_iff.1 hleaf).1
    rw [merklePath, if_neg (not_le.2 hlt), hpath]
  have hentities : climb hashPair (hashLeaf e.encode) path = tree.entitiesRoot := by
    have hdef : tree.entitiesRoot = merkleRoot tree.entityLeafHashes.values := rfl
    rw [hdef, merkleRoot, rootOf, hroot, Option.getD_some]
  refine ⟨proofOfPath (hashLeaf e.encode) (path ++ [(tree.edgesRoot, false),
    (hashPair tree.chunksRoot tree.eventsRoot, false)]), ?_, rfl, ?_⟩
  · simp only [MerkleStateTree.generateEntityProof, hindex, hleaf, hmerkle, Option.bind_eq_bind,
      Option.bind_some]
    rfl
  · rw [verifyRoot_proofOfPath, climb_append, hentities]
    rfl

/-- **Inclusion proofs are complete.** For an entity of a snapshot, whatever their number, a proof is
generated and verifies; for an identifier that is not in it, none is. -/
theorem entity_proofs_complete (s : WorldSnapshot) (id : EntityId) :
    match s.graph.entities.get? id with
    | some e => ∃ p, (MerkleStateTree.fromSnapshot s).generateEntityProof id = some p ∧
        p.leafDigest = hashLeaf e.encode ∧
        p.verifyRoot (MerkleStateTree.fromSnapshot s).overallRoot = true
    | none => (MerkleStateTree.fromSnapshot s).generateEntityProof id = none := by
  cases h : s.graph.entities.get? id with
  | some e => exact generateEntityProof_verifies h
  | none =>
      have hkeys : (MerkleStateTree.fromSnapshot s).entityLeafHashes.keys.findIdx? (· = id) =
          none := by
        rw [List.findIdx?_eq_none_iff]
        intro key hkey
        rw [decide_eq_false_iff_not]
        rintro rfl
        rw [OMap.mem_keys_iff, OMap.contains_iff] at hkey
        obtain ⟨w, hw⟩ := hkey
        change (s.graph.entities.mapValues fun _ entity => hashLeaf entity.encode).get? key = _ at hw
        rw [OMap.get?_mapValues, h] at hw
        cases hw
      simp only [MerkleStateTree.generateEntityProof, hkeys, Option.bind_eq_bind, Option.bind_none]

/-- The digest tells apart everything that is hashed for a snapshot. -/
def WorldGraph.CollisionFree (graph : WorldGraph) : Prop :=
  ∀ a ∈ treeInputs graph.tree, ∀ b ∈ treeInputs graph.tree, NoCollision a b

instance (a b : Bytes) : Decidable (NoCollision a b) :=
  inferInstanceAs (Decidable (Digest32.ofBytes a = Digest32.ofBytes b → a = b))

instance (graph : WorldGraph) : Decidable graph.CollisionFree :=
  inferInstanceAs (Decidable (∀ a ∈ treeInputs graph.tree, ∀ b ∈ treeInputs graph.tree,
    NoCollision a b))

/-- Every record of a snapshot has a proof. -/
theorem exists_proof_of_mem_recordBytes {s : WorldSnapshot} {bytes : Bytes}
    (hbytes : bytes ∈ s.graph.recordBytes) :
    ∃ p : MerkleInclusionProof, p.leafDigest = hashLeaf bytes ∧
      p.verifyRoot (MerkleStateTree.fromSnapshot s).overallRoot = true ∧
      (s.graph.CollisionFree → p.CollisionFree s.graph bytes) := by
  rw [← WorldGraph.leaves_tree] at hbytes
  obtain ⟨path, hclimb, hinputs⟩ : ∃ path,
      climb hashPair (hashLeaf bytes) path = treeDigest s.graph.tree ∧
      ∀ b ∈ leafInput bytes :: climbInputs Digest32.ofBytes pairInput (hashLeaf bytes) path,
        b ∈ treeInputs s.graph.tree := exists_climb hbytes
  refine ⟨proofOfPath (hashLeaf bytes) path, rfl, ?_, ?_⟩
  · rw [verifyRoot_proofOfPath, overallRoot_eq]
    exact hclimb
  · intro hself a ha b hb
    rw [path_proofOfPath] at hb
    exact hself a ha b (hinputs b hb)

theorem collisionFree_empty : WorldGraph.CollisionFree (Sample.snapshot 0 .empty).graph := by
  decide +kernel

/-- An entity of a kind with an empty name, and a label of twelve bytes. -/
def forgedEntity : EntityRecord := ⟨1, 0, 0, .other "", "aaaaaaaaaaaa", .nil⟩

/-- An edge of a kind with an empty name whose endpoints spell the rest of that entity. -/
def forgingEdge : EdgeRecord :=
  ⟨18446744073709551616, 0, .custom "", 53173379425, 7016996765293437281, .nil⟩

theorem encode_forgingEdge : forgingEdge.encode = forgedEntity.encode := by decide

/-- A world with that edge, and with both its endpoints. -/
def forgingWorld : WorldSnapshot :=
  Sample.snapshot 0 { Sample.entities [Sample.entity forgingEdge.fromId 1,
    Sample.entity forgingEdge.toId 1] with edges := .ofList [(forgingEdge.id, forgingEdge)] }

end Dfmcp
