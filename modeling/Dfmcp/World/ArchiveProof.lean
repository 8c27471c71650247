import Dfmcp.World.Archive

/-!
# The accounting of the archive

The archive keeps one copy of every block, and its byte count is that of the copies. The code tells
two blocks with one digest apart by their bytes and refuses the second, so nothing here rests on the
digest being injective.

* `Sound` — what holds of an archive: every block has its digest, and the bytes are counted;
* `Staging.stage` — one block is staged; `staging_blockChunks` — all of them;
* `meets_storeSnapshot` — what a store does, and that a failed one does nothing;
* `archive_accounting` — every run of stores.
-/

namespace Dfmcp

open Machine Method

/-! ## Cutting into blocks -/

theorem flatten_chunksOf {size : Nat} (hsize : 0 < size) {fuel : Nat} {bytes : Bytes}
    (h : bytes.length ≤ fuel) : (chunksOf size fuel bytes).flatten = bytes := by
  induction fuel generalizing bytes with
  | zero => exact (List.eq_nil_of_length_eq_zero (Nat.le_zero.1 h)).symm
  | succ fuel ih =>
      rw [chunksOf]
      by_cases hnil : bytes = []
      · rw [if_pos hnil, hnil]
        rfl
      · have hpos := List.length_pos_of_ne_nil hnil
        rw [if_neg hnil, List.flatten_cons, ih (by rw [List.length_drop]; omega),
          List.take_append_drop]

/-- The blocks of a payload make up the payload. -/
theorem flatten_blockChunks (bytes : Bytes) : (blockChunks bytes).flatten = bytes :=
  flatten_chunksOf (by decide) le_rfl

namespace SavegameArchive

/-- The bytes of the blocks of an archive. -/
def blockBytes (blocks : BTreeMap Digest32 ArchiveBlock) : Nat :=
  (blocks.values.map fun block => block.data.length).sum

/-- The block of some bytes is in the archive. -/
def Stores (archive : SavegameArchive) (chunk : Bytes) : Prop :=
  archive.blocks.get? (Digest32.ofBytes chunk) = some ⟨Digest32.ofBytes chunk, chunk⟩

/-- A payload is in the archive under a state hash. -/
def Holds (archive : SavegameArchive) (stateHash : Digest32) (payload : Bytes) : Prop :=
  archive.snapshots.get? stateHash = some ((blockChunks payload).map Digest32.ofBytes) ∧
    (∀ chunk ∈ blockChunks payload, archive.Stores chunk) ∧
    payload.length ≤ maxArchivePayloadBytes

/-- What holds of an archive in which some snapshots have been stored: a block is under the digest
of its bytes, the bytes of the blocks are counted and within their bound, and the snapshots of the
archive are those that were stored. -/
structure Sound (archive : SavegameArchive) (stored : List WorldSnapshot) : Prop where
  addressed : ∀ digest block, archive.blocks.get? digest = some block →
    block.digest = digest ∧ Digest32.ofBytes block.data = digest
  counted : archive.storedBytes = blockBytes archive.blocks
  bounded : archive.storedBytes ≤ maxArchiveStoredBytes
  holds : ∀ s ∈ stored, archive.Holds s.stateHash s.canonicalBytes
  only : ∀ stateHash digests, archive.snapshots.get? stateHash = some digests →
    ∃ s ∈ stored, s.stateHash = stateHash

theorem sound_new : new.Sound [] where
  addressed := by
    intro digest block h
    cases h
  counted := rfl
  bounded := Nat.zero_le _
  holds := fun _ h => absurd h List.not_mem_nil
  only := by
    intro stateHash digests h
    cases h

/-! ## Reading -/

section Reading

variable {archive : SavegameArchive}

theorem checkBlocks_eq {chunks : List Bytes} {payloadBytes : Nat}
    (hstores : ∀ chunk ∈ chunks, archive.Stores chunk)
    (hfits : payloadBytes + chunks.flatten.length ≤ maxArchivePayloadBytes) :
    archive.checkBlocks payloadBytes (chunks.map Digest32.ofBytes) =
      .ok (payloadBytes + chunks.flatten.length) := by
  induction chunks generalizing payloadBytes with
  | nil => rfl
  | cons chunk rest ih =>
      rw [List.flatten_cons, List.length_append, ← Nat.add_assoc] at hfits ⊢
      have hstored : archive.blocks.get? (Digest32.ofBytes chunk) = _ :=
        hstores chunk List.mem_cons_self
      have hbound : maxArchivePayloadBytes < 2 ^ 64 := by decide
      have hrest := @ih (payloadBytes + chunk.length)
        (fun c hc => hstores c (List.mem_cons_of_mem chunk hc)) hfits
      rw [List.map_cons, checkBlocks, hstored]
      dsimp only
      rw [if_neg (by simp), if_neg (by omega), if_neg (by omega), hrest]

theorem joinBlocks_eq {chunks : List Bytes} (hstores : ∀ chunk ∈ chunks, archive.Stores chunk) :
    archive.joinBlocks (chunks.map Digest32.ofBytes) = .ok chunks.flatten := by
  induction chunks with
  | nil => rfl
  | cons chunk rest ih =>
      have hstored : archive.blocks.get? (Digest32.ofBytes chunk) = _ :=
        hstores chunk List.mem_cons_self
      rw [List.map_cons, joinBlocks, hstored]
      dsimp only
      rw [ih fun c hc => hstores c (List.mem_cons_of_mem chunk hc)]
      rfl

/-- **What is held is read back.** -/
theorem Holds.read {stateHash : Digest32} {payload : Bytes} (h : archive.Holds stateHash payload) :
    archive.readSnapshotPayload stateHash = .ok payload := by
  obtain ⟨hget, hstores, hfits⟩ := h
  have hcheck := @checkBlocks_eq _ _ 0 hstores
    (by rw [flatten_blockChunks]; omega)
  unfold readSnapshotPayload
  rw [hget]
  dsimp only
  rw [hcheck, joinBlocks_eq hstores, flatten_blockChunks]
  rfl

end Reading

/-! ## Staging -/

/-- What has been staged of some blocks. -/
structure Staging (archive : SavegameArchive) (chunks : List Bytes) (staged : Staged) : Prop where
  digests : staged.blockDigests = chunks.map Digest32.ofBytes
  covered : ∀ chunk ∈ chunks, archive.Stores chunk ∨
    (Digest32.ofBytes chunk, chunk) ∈ staged.newBlocks
  fresh : ∀ entry ∈ staged.newBlocks, archive.blocks.get? entry.1 = none ∧
    entry.1 = Digest32.ofBytes entry.2
  nodup : (staged.newBlocks.map Prod.fst).Nodup
  counted : staged.additionalBytes = (staged.newBlocks.map fun entry => entry.2.length).sum

section Staging

variable {archive : SavegameArchive} {chunks : List Bytes} {staged next : Staged} {chunk : Bytes}

/-- One more block, which is there already. -/
theorem Staging.again (h : archive.Staging chunks staged)
    (hcovered : archive.Stores chunk ∨ (Digest32.ofBytes chunk, chunk) ∈ staged.newBlocks) :
    archive.Staging (chunks ++ [chunk])
      { staged with blockDigests := staged.blockDigests ++ [Digest32.ofBytes chunk] } where
  digests := by simp [h.digests]
  covered := by
    intro c hc
    rcases List.mem_append.1 hc with hc | hc
    · exact h.covered c hc
    · rw [List.mem_singleton.1 hc]
      exact hcovered
  fresh := h.fresh
  nodup := h.nodup
  counted := h.counted

/-- One more block, which is new. -/
theorem Staging.add (h : archive.Staging chunks staged)
    (hget : archive.blocks.get? (Digest32.ofBytes chunk) = none)
    (hnew : Digest32.ofBytes chunk ∉ staged.newBlocks.map Prod.fst) :
    archive.Staging (chunks ++ [chunk]) {
      blockDigests := staged.blockDigests ++ [Digest32.ofBytes chunk]
      newBlocks := staged.newBlocks ++ [(Digest32.ofBytes chunk, chunk)]
      additionalBytes := staged.additionalBytes + chunk.length } where
  digests := by simp [h.digests]
  covered := by
    intro c hc
    rcases List.mem_append.1 hc with hc | hc
    · exact (h.covered c hc).imp_right (List.mem_append_left _)
    · rw [List.mem_singleton.1 hc]
      exact Or.inr (List.mem_append_right _ (List.mem_singleton_self _))
  fresh := by
    intro entry hentry
    rcases List.mem_append.1 hentry with hentry | hentry
    · exact h.fresh entry hentry
    · rw [List.mem_singleton.1 hentry]
      exact ⟨hget, rfl⟩
  nodup := by
    rw [List.map_append]
    refine h.nodup.append (List.nodup_singleton _) ?_
    exact List.disjoint_singleton.2 hnew
  counted := by simp [h.counted]

/-- **One block is staged.** -/
theorem Staging.stage (h : archive.Staging chunks staged)
    (hok : archive.stage staged chunk = .ok next) : archive.Staging (chunks ++ [chunk]) next := by
  unfold SavegameArchive.stage at hok
  dsimp only at hok
  cases hget : archive.blocks.get? (Digest32.ofBytes chunk) with
  | some existing =>
      rw [hget] at hok
      dsimp only at hok
      split_ifs at hok with hconflict
      obtain rfl := Except.ok.inj hok
      obtain ⟨hdigest, hdata⟩ := not_or.1 hconflict
      refine h.again (Or.inl ?_)
      rw [Stores, hget, ← not_not.1 hdigest]
      rw [← not_not.1 hdata]
  | none =>
      rw [hget] at hok
      dsimp only at hok
      cases hfind : staged.newBlocks.find? fun entry => entry.1 = Digest32.ofBytes chunk with
      | some pending =>
          rw [hfind] at hok
          dsimp only at hok
          split_ifs at hok with hconflict
          obtain rfl := Except.ok.inj hok
          have hkey : pending.1 = Digest32.ofBytes chunk := by
            simpa using List.find?_some hfind
          have hmem := List.mem_of_find?_eq_some hfind
          refine h.again (Or.inr ?_)
          rwa [← hkey, ← not_not.1 hconflict]
      | none =>
          rw [hfind] at hok
          dsimp only at hok
          split_ifs at hok with hoverflow
          obtain rfl := Except.ok.inj hok
          refine h.add hget ?_
          intro hmem
          obtain ⟨entry, hentry, hkey⟩ := List.mem_map.1 hmem
          have := List.find?_eq_none.1 hfind entry hentry
          simp [hkey] at this

/-- **All blocks of a payload are staged.** -/
theorem staging_foldlM (rest : List Bytes) (h : archive.Staging chunks staged) (hok : rest.foldlM archive.stage staged = .ok next) :
    archive.Staging (chunks ++ rest) next := by
  induction rest generalizing chunks staged with
  | nil =>
      obtain rfl := Except.ok.inj hok
      rwa [List.append_nil]
  | cons chunk rest ih =>
      rw [List.foldlM_cons] at hok
      obtain ⟨middle, hstage, hrest⟩ := bind_ok_iff.1 hok
      have hall := ih (h.stage hstage) hrest
      rwa [List.append_assoc] at hall

theorem staging_nil : archive.Staging [] ⟨[], [], 0⟩ where
  digests := rfl
  covered := fun _ h => absurd h List.not_mem_nil
  fresh := fun _ h => absurd h List.not_mem_nil
  nodup := List.nodup_nil
  counted := rfl

end Staging

/-! ## Committing -/

/-- The blocks that are inserted, and those that were there. -/
theorem get?_insertBlocks {blocks : BTreeMap Digest32 ArchiveBlock}
    {newBlocks : List (Digest32 × Bytes)} (hnodup : (newBlocks.map Prod.fst).Nodup)
    (digest : Digest32) :
    (∀ data, (digest, data) ∈ newBlocks →
      (insertBlocks blocks newBlocks).get? digest = some ⟨digest, data⟩) ∧
    (digest ∉ newBlocks.map Prod.fst →
      (insertBlocks blocks newBlocks).get? digest = blocks.get? digest) := by
  induction newBlocks generalizing blocks with
  | nil => exact ⟨fun _ h => absurd h List.not_mem_nil, fun _ => rfl⟩
  | cons entry rest ih =>
      rw [List.map_cons, List.nodup_cons] at hnodup
      obtain ⟨hin, hout⟩ := @ih (blocks.insert entry.1 ⟨entry.1, entry.2⟩) hnodup.2
      constructor
      · intro data hmem
        rcases List.mem_cons.1 hmem with rfl | hmem
        · refine (hout hnodup.1).trans ?_
          rw [OMap.get?_insert, if_pos rfl]
        · exact hin data hmem
      · intro hmem
        rw [List.map_cons, List.mem_cons, not_or] at hmem
        refine (hout hmem.2).trans ?_
        rw [OMap.get?_insert, if_neg hmem.1]

/-- The new blocks add their bytes. -/
theorem blockBytes_insertBlocks {blocks : BTreeMap Digest32 ArchiveBlock}
    {newBlocks : List (Digest32 × Bytes)} (hnodup : (newBlocks.map Prod.fst).Nodup)
    (hfresh : ∀ entry ∈ newBlocks, blocks.get? entry.1 = none) :
    blockBytes (insertBlocks blocks newBlocks) =
      blockBytes blocks + (newBlocks.map fun entry => entry.2.length).sum := by
  induction newBlocks generalizing blocks with
  | nil => rfl
  | cons entry rest ih =>
      rw [List.map_cons, List.nodup_cons] at hnodup
      have hstep : blockBytes (blocks.insert entry.1 ⟨entry.1, entry.2⟩) =
          entry.2.length + blockBytes blocks := by
        have hperm := OMap.toList_insert_perm blocks (hfresh entry List.mem_cons_self)
          ⟨entry.1, entry.2⟩
        have hsum := ((hperm.map Prod.snd).map fun block => block.data.length).sum_nat
        simpa [blockBytes, OMap.values] using hsum
      have hrest := @ih (blocks.insert entry.1 ⟨entry.1, entry.2⟩) hnodup.2 (by
        intro other hother
        have hne : other.1 ≠ entry.1 := by
          intro heq
          exact hnodup.1 (heq ▸ List.mem_map_of_mem hother)
        rw [OMap.get?_insert, if_neg hne]
        exact hfresh other (List.mem_cons_of_mem entry hother))
      show blockBytes (insertBlocks (blocks.insert entry.1 ⟨entry.1, entry.2⟩) rest) = _
      rw [hrest, hstep, List.map_cons, List.sum_cons]
      omega

section Committing

variable {archive : SavegameArchive} {stateHash : Digest32} {payload : Bytes} {staged : Staged}

/-- A block that is in the archive stays as it is. -/
theorem Stores.commit {chunk : Bytes} (h : archive.Stores chunk) {chunks : List Bytes}
    (hstaging : archive.Staging chunks staged) : (archive.commit stateHash staged).Stores chunk := by
  refine ((get?_insertBlocks hstaging.nodup _).2 ?_).trans h
  intro hmem
  obtain ⟨entry, hentry, hkey⟩ := List.mem_map.1 hmem
  have hnone := (hstaging.fresh entry hentry).1
  rw [hkey, h] at hnone
  cases hnone

/-- What an archive holds it keeps. -/
theorem Holds.commit {other : Digest32} {content : Bytes} (h : archive.Holds other content)
    (hnew : archive.snapshots.get? stateHash = none) {chunks : List Bytes}
    (hstaging : archive.Staging chunks staged) :
    (archive.commit stateHash staged).Holds other content := by
  obtain ⟨hget, hstores, hfits⟩ := h
  refine ⟨?_, fun chunk hchunk => (hstores chunk hchunk).commit hstaging, hfits⟩
  have hne : other ≠ stateHash := by
    rintro rfl
    rw [hget] at hnew
    cases hnew
  show (archive.snapshots.insert stateHash staged.blockDigests).get? other = _
  rw [OMap.get?_insert, if_neg hne, hget]

/-- **The staged snapshot is held.** -/
theorem holds_commit (hstaging : archive.Staging (blockChunks payload) staged)
    (hfits : payload.length ≤ maxArchivePayloadBytes) :
    (archive.commit stateHash staged).Holds stateHash payload := by
  refine ⟨?_, fun chunk hchunk => ?_, hfits⟩
  · show (archive.snapshots.insert stateHash staged.blockDigests).get? stateHash = _
    rw [OMap.get?_insert, if_pos rfl, hstaging.digests]
  · rcases hstaging.covered chunk hchunk with hstored | hnew
    · exact hstored.commit hstaging
    · exact (get?_insertBlocks hstaging.nodup _).1 chunk hnew

/-- **The accounts stay right.** -/
theorem Sound.commit {stored : List WorldSnapshot} {snapshot : WorldSnapshot}
    (h : archive.Sound stored)
    (hstaging : archive.Staging (blockChunks snapshot.canonicalBytes) staged)
    (hnew : archive.snapshots.get? snapshot.stateHash = none)
    (hfits : snapshot.canonicalBytes.length ≤ maxArchivePayloadBytes)
    (hbound : archive.storedBytes + staged.additionalBytes ≤ maxArchiveStoredBytes) :
    (archive.commit snapshot.stateHash staged).Sound (stored ++ [snapshot]) where
  addressed := by
    intro digest block hget
    change (insertBlocks archive.blocks staged.newBlocks).get? digest = some block at hget
    by_cases hmem : digest ∈ staged.newBlocks.map Prod.fst
    · obtain ⟨⟨key, data⟩, hentry, hkey⟩ := List.mem_map.1 hmem
      obtain rfl : key = digest := hkey
      rw [(get?_insertBlocks hstaging.nodup key).1 data hentry] at hget
      obtain rfl := Option.some.inj hget
      exact ⟨rfl, (hstaging.fresh _ hentry).2.symm⟩
    · rw [(get?_insertBlocks hstaging.nodup digest).2 hmem] at hget
      exact h.addressed digest block hget
  counted := by
    show archive.storedBytes + staged.additionalBytes = _
    rw [h.counted, hstaging.counted]
    exact (blockBytes_insertBlocks hstaging.nodup fun entry hentry =>
      (hstaging.fresh entry hentry).1).symm
  bounded := hbound
  holds := by
    intro s hs
    rcases List.mem_append.1 hs with hs | hs
    · exact (h.holds s hs).commit hnew hstaging
    · rw [List.mem_singleton.1 hs]
      exact holds_commit hstaging hfits
  only := by
    intro stateHash digests hget
    change (archive.snapshots.insert snapshot.stateHash staged.blockDigests).get? stateHash = _ at hget
    rw [OMap.get?_insert] at hget
    by_cases heq : stateHash = snapshot.stateHash
    · exact ⟨snapshot, List.mem_append_right _ (List.mem_singleton_self _), heq.symm⟩
    · rw [if_neg heq] at hget
      obtain ⟨s, hs, hhash⟩ := h.only stateHash digests hget
      exact ⟨s, List.mem_append_left _ hs, hhash⟩

end Committing

/-! ## Storing -/

section Storing

variable {archive : SavegameArchive} {stored : List WorldSnapshot}

/-- What is read from a sound archive was stored in it. -/
theorem Sound.read_iff (h : archive.Sound stored) (stateHash : Digest32) (payload : Bytes) :
    archive.readSnapshotPayload stateHash = .ok payload ↔
      ∃ s ∈ stored, s.stateHash = stateHash ∧ s.canonicalBytes = payload := by
  constructor
  · intro hread
    cases hget : archive.snapshots.get? stateHash with
    | none =>
        rw [readSnapshotPayload, hget] at hread
        cases hread
    | some digests =>
        obtain ⟨s, hs, rfl⟩ := h.only stateHash digests hget
        exact ⟨s, hs, rfl, Except.ok.inj ((h.holds s hs).read.symm.trans hread)⟩
  · intro hstored
    obtain ⟨s, hs, rfl, rfl⟩ := hstored
    exact (h.holds s hs).read

/-- A new payload is committed, or nothing is. -/
theorem meets_storeNew (h : archive.Sound stored) {snapshot : WorldSnapshot}
    (hfits : snapshot.canonicalBytes.length ≤ maxArchivePayloadBytes)
    (hnew : archive.snapshots.get? snapshot.stateHash = none) :
    Meets (fun current => current = archive)
      (storeNew snapshot.stateHash snapshot.canonicalBytes)
      (fun _ next => next.Sound (stored ++ [snapshot])) fun _ next => next = archive := by
  unfold storeNew
  refine Meets.bind (Q := fun current next => current = archive ∧ next = archive)
    (.get fun s hs => ⟨hs, hs⟩) fun current => Meets.given fun hcurrent => ?_
  subst hcurrent
  refine .bind (.rejectIf fun _ hs _ => hs) fun _ => Meets.given fun _ => ?_
  refine Meets.bind (Q := fun staged next =>
    (blockChunks snapshot.canonicalBytes).foldlM current.stage ⟨[], [], 0⟩ = .ok staged ∧
      next = current) (.of (fun _ _ hs hok => ⟨hok, hs⟩) fun _ _ hs _ => hs)
    fun staged => Meets.given fun hstaged => ?_
  have hstaging := staging_foldlM _ staging_nil hstaged
  refine .bind (.rejectIf fun _ hs _ => hs) fun _ => Meets.given fun _ => ?_
  refine .bind (.rejectIf fun _ hs _ => hs) fun _ => Meets.given fun hbound => ?_
  refine Meets.bind (Q := fun _ next => next.Sound (stored ++ [snapshot]))
    (.set fun _ _ => ?_) fun _ => .pure fun _ hs => hs
  exact h.commit hstaging hnew hfits (not_lt.1 hbound)

/-- A snapshot that is there already is held. -/
theorem Sound.again (h : archive.Sound stored) {snapshot : WorldSnapshot}
    (hget : archive.snapshots.get? snapshot.stateHash ≠ none)
    (hread : archive.readSnapshotPayload snapshot.stateHash = .ok snapshot.canonicalBytes) :
    archive.Sound (stored ++ [snapshot]) where
  addressed := h.addressed
  counted := h.counted
  bounded := h.bounded
  holds := by
    intro s hs
    rcases List.mem_append.1 hs with hs | hs
    · exact h.holds s hs
    · obtain rfl := List.mem_singleton.1 hs
      obtain ⟨other, hother, hhash, hbytes⟩ := (h.read_iff _ _).1 hread
      rw [← hhash, ← hbytes]
      exact h.holds other hother
  only := by
    intro stateHash digests hdigests
    obtain ⟨s, hs, hhash⟩ := h.only stateHash digests hdigests
    exact ⟨s, List.mem_append_left _ hs, hhash⟩

/-- The bytes of a snapshot are stored, or they are there already. -/
theorem meets_storePayload (h : archive.Sound stored) {snapshot : WorldSnapshot} {payload : Bytes}
    (hpayload : snapshot.canonicalBytes = payload) :
    Meets (fun current => current = archive) (storePayload snapshot.stateHash payload)
      (fun _ next => next.Sound (stored ++ [snapshot])) fun _ next => next = archive := by
  unfold storePayload
  refine .bind (.rejectIf fun _ hs _ => hs) fun _ => Meets.given fun hfits => ?_
  refine Meets.bind (Q := fun current next => current = archive ∧ next = archive)
    (.get fun s hs => ⟨hs, hs⟩) fun current => Meets.given fun hcurrent => ?_
  subst hcurrent
  cases hget : current.snapshots.get? snapshot.stateHash with
  | none =>
      rw [← hpayload] at hfits ⊢
      exact meets_storeNew h (not_lt.1 hfits) hget
  | some existing =>
      refine Meets.bind (Q := fun content next =>
        current.readSnapshotPayload snapshot.stateHash = .ok content ∧ next = current)
        (.of (fun _ _ hs hok => ⟨hok, hs⟩) fun _ _ hs _ => hs)
        fun content => Meets.given fun hread => ?_
      refine .bind (.rejectIf fun _ hs _ => hs) fun _ => Meets.given fun hsame => ?_
      refine .pure fun next hs => ?_
      subst hs
      rw [not_not.1 hsame, ← hpayload] at hread
      exact h.again (by rw [hget]; exact Option.some_ne_none existing) hread

/-- **A store succeeds with the snapshot in the archive, or leaves it as it was.** -/
theorem meets_storeSnapshot (h : archive.Sound stored) (snapshot : WorldSnapshot) :
    Meets (fun current => current = archive) (storeSnapshot snapshot)
      (fun _ next => next.Sound (stored ++ [snapshot])) fun _ next => next = archive := by
  unfold storeSnapshot
  refine Meets.bind (Q := fun _ next => next = archive) ?_ fun _ => meets_storePayload h rfl
  exact (Meets.rejectIf fun _ hs _ => hs).conseq (fun _ hs => hs) (fun _ _ hs => hs.2)
    fun _ _ hs => hs

end Storing

/-! ## Runs -/

/-- The archive after a run of stores. -/
def afterStores (archive : SavegameArchive) (run : List WorldSnapshot) : SavegameArchive :=
  run.foldl (fun archive snapshot => (exec (storeSnapshot snapshot) archive).2) archive

/-- The snapshots that a run of stores has stored. -/
def storedIn (archive : SavegameArchive) : List WorldSnapshot → List WorldSnapshot
  | [] => []
  | snapshot :: rest =>
      let answer := exec (storeSnapshot snapshot) archive
      if answer.1.isOk then snapshot :: storedIn answer.2 rest else storedIn answer.2 rest

/-- **Every run keeps the accounts.** -/
theorem Sound.afterStores {archive : SavegameArchive} {stored : List WorldSnapshot}
    (h : archive.Sound stored) (run : List WorldSnapshot) :
    (archive.afterStores run).Sound (stored ++ archive.storedIn run) := by
  -- on the run: a store that succeeds adds its snapshot, one that fails changes nothing
  induction run generalizing archive stored with
  | nil =>
      rw [storedIn, List.append_nil]
      exact h
  | cons snapshot rest ih =>
      have hmeets := meets_storeSnapshot h snapshot archive rfl
      show (SavegameArchive.afterStores (exec (storeSnapshot snapshot) archive).2 rest).Sound _
      rw [storedIn]
      cases hexec : exec (storeSnapshot snapshot) archive with
      | mk result next =>
          rw [hexec] at hmeets
          cases result with
          | ok digests =>
              have hrest := @ih next _ hmeets
              rw [List.append_assoc] at hrest
              exact hrest
          | error e =>
              obtain rfl : next = archive := hmeets
              exact ih h

end SavegameArchive

/-- **The accounting of the archive.** After every run of stores, what can be read is exactly the
canonical bytes of the snapshots that were stored; the byte count is the sum over the blocks, no two
of which are alike, and within its bound; and a store that fails then leaves the archive as it is. -/
theorem archive_accounting (run : List WorldSnapshot) :
    let archive := SavegameArchive.new.afterStores run
    (∀ stateHash payload, archive.readSnapshotPayload stateHash = .ok payload ↔
      ∃ s ∈ SavegameArchive.new.storedIn run, s.stateHash = stateHash ∧
        s.canonicalBytes = payload) ∧
    archive.storedBytes = (archive.blocks.values.map fun block => block.data.length).sum ∧
    (archive.blocks.values.map ArchiveBlock.data).Nodup ∧
    archive.storedBytes ≤ maxArchiveStoredBytes ∧
    ∀ s e next, exec (SavegameArchive.storeSnapshot s) archive = (.error e, next) →
      next = archive := by
  intro archive
  have hsound : archive.Sound (SavegameArchive.new.storedIn run) :=
    SavegameArchive.sound_new.afterStores run
  refine ⟨hsound.read_iff, hsound.counted, ?_, hsound.bounded, ?_⟩
  · -- blocks with the same bytes have the same digest, which is their key
    rw [OMap.values, List.map_map]
    refine List.Nodup.map_on ?_ archive.blocks.toList_nodup
    intro x hx y hy hdata
    have hx' := (OMap.mem_toList_iff archive.blocks x.1 x.2).1 hx
    have hy' := (OMap.mem_toList_iff archive.blocks y.1 y.2).1 hy
    have hkey : x.1 = y.1 := by
      rw [← (hsound.addressed _ _ hx').2, ← (hsound.addressed _ _ hy').2]
      exact congrArg Digest32.ofBytes hdata
    rw [hkey, hy'] at hx'
    exact Prod.ext hkey (Option.some.inj hx').symm
  · intro s e next hexec
    exact (SavegameArchive.meets_storeSnapshot hsound s).error rfl hexec

/-- A snapshot without its hash is refused. -/
theorem SavegameArchive.storeSnapshot_unsealed {snapshot : WorldSnapshot}
    (h : snapshot.hashIsValid = false) (archive : SavegameArchive) :
    exec (storeSnapshot snapshot) archive = (.error (.new .internalInvariantViolation
      "cannot archive a snapshot with an invalid canonical state hash"), archive) := by
  unfold storeSnapshot rejectIf
  rw [if_pos h]
  rfl

namespace Sample

def unsealed : WorldSnapshot := { snapshot 0 .empty with stateHash := Digest32.zero }

theorem unsealed_hash : unsealed.hashIsValid = false := by decide +kernel

end Sample

/-- A snapshot without its hash, after another has been stored. -/
theorem archive_accounting_unsealed :
    (exec (SavegameArchive.storeSnapshot Sample.unsealed)
      (SavegameArchive.new.afterStores [Sample.snapshot 0 .empty])).2 =
      SavegameArchive.new.afterStores [Sample.snapshot 0 .empty] := by
  have hrefused := SavegameArchive.storeSnapshot_unsealed Sample.unsealed_hash
    (SavegameArchive.new.afterStores [Sample.snapshot 0 .empty])
  have hsame :=
    (archive_accounting [Sample.snapshot 0 .empty]).2.2.2.2 Sample.unsealed _ _ hrefused
  exact (congrArg Prod.snd hrefused).trans hsame

end Dfmcp
