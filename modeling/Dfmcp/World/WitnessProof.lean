import Dfmcp.World.Rebase
import Dfmcp.World.Records

/-!
# What a witness scan proves

Two checks decide whether the reads behind a plan still hold: the scan of a delta
(`WitnessSet.validateAgainstDelta`) and the comparison with a state
(`WitnessSet.violation`, as `rebaseWithWitness` makes it). The scan looks at entities only. So
a delta that passes it keeps every witnessed entity as it was (`Holds.entities_of_validate`),
but a witnessed chunk only when the delta itself leaves that chunk at the witnessed revision:
`validateAgainstDelta_sound_iff`.
-/

namespace Dfmcp

open Machine Replay

namespace WitnessSet

/-- Every witnessed read is what the snapshot has. -/
structure Holds (w : WitnessSet) (s : WorldSnapshot) : Prop where
  positive : ∀ p ∈ w.positiveEntities.keys, p.matches s = true
  negative : ∀ id ∈ w.negativeEntities.keys, s.graph.entities.contains id = false
  chunks : ∀ c ∈ w.witnessedChunks.toList, chunkMatches c s = true

/-- The state check accepts exactly when the reads hold on both sides. -/
theorem violation_eq_none_iff (w : WitnessSet) (base target : WorldSnapshot) :
    w.violation base target = none ↔ w.Holds base ∧ w.Holds target := by
  unfold violation
  split
  · rename_i p hp
    obtain ⟨hbad, hmem⟩ := And.intro (List.find?_some hp) (List.mem_of_find?_eq_some hp)
    refine iff_of_false (by simp) ?_
    rintro ⟨hb, ht⟩
    simp [hb.positive p hmem, ht.positive p hmem] at hbad
  · rename_i hpos
    split
    · rename_i id hid
      obtain ⟨hbad, hmem⟩ := And.intro (List.find?_some hid) (List.mem_of_find?_eq_some hid)
      refine iff_of_false (by simp) ?_
      rintro ⟨hb, ht⟩
      simp [hb.negative id hmem, ht.negative id hmem] at hbad
    · rename_i hneg
      split
      · rename_i c hc
        obtain ⟨hbad, hmem⟩ := And.intro (List.find?_some hc) (List.mem_of_find?_eq_some hc)
        refine iff_of_false (by simp) ?_
        rintro ⟨hb, ht⟩
        simp [hb.chunks c hmem, ht.chunks c hmem] at hbad
      · rename_i hchunk
        simp only [List.find?_eq_none, Bool.not_eq_true, decide_eq_true_eq, not_or,
          Bool.not_eq_false] at hpos hneg hchunk
        exact iff_of_true rfl
          ⟨⟨fun p hp => (hpos p hp).1, fun id hid => (hneg id hid).1, fun c hc => (hchunk c hc).1⟩,
            ⟨fun p hp => (hpos p hp).2, fun id hid => (hneg id hid).2,
              fun c hc => (hchunk c hc).2⟩⟩

/-! ## The scan -/

theorem checkPositive_ok_iff (record : EntityRecord) (ps : List EntityWitness) :
    checkPositive record ps = .ok () ↔
      ∀ p ∈ ps, record.id = p.id → record.generation = p.generation ∧
        record.revision = p.revision := by
  induction ps with
  | nil => simp [checkPositive]
  | cons p ps ih =>
      rw [checkPositive, List.forall_mem_cons]
      by_cases hid : record.id = p.id
      · by_cases hgen : record.generation = p.generation
        · by_cases hrev : record.revision = p.revision <;> simp [hid, hgen, hrev, ih]
        · simp [hid, hgen]
      · simp [hid, ih]

theorem checkChanges_ok_iff (w : WitnessSet) (cs : List WorldChange) :
    w.checkChanges cs = .ok () ↔ ∀ c ∈ cs, w.checkChange c = .ok () := by
  induction cs with
  | nil => simp [checkChanges]
  | cons c cs ih => rw [checkChanges, check_ok_iff, ih, List.forall_mem_cons]

/-- An upsert that passes touches no absent entity, and leaves a witnessed one where it was. -/
theorem checkChange_upsertEntity {w : WitnessSet} {record : EntityRecord}
    (h : w.checkChange (.upsertEntity record) = .ok ()) :
    record.id ∉ w.negativeEntities.keys ∧
      ∀ p ∈ w.positiveEntities.keys, record.id = p.id →
        record.generation = p.generation ∧ record.revision = p.revision := by
  rw [checkChange] at h
  split at h
  · cases h
  · rename_i hneg
    exact ⟨fun hmem => hneg ((OMap.mem_keys_iff _ _).1 hmem), (checkPositive_ok_iff _ _).1 h⟩

theorem checkChange_removeEntity {w : WitnessSet} {id : EntityId} {generation : U 32}
    {revision : U 64} (h : w.checkChange (.removeEntity id generation revision) = .ok ()) :
    ∀ p ∈ w.positiveEntities.keys, p.id ≠ id := by
  intro p hp hid
  rw [checkChange, if_pos (List.any_eq_true.2 ⟨p, hp, by simpa using hid⟩)] at h
  cases h

end WitnessSet

/-! ## After the delta -/

/-- The last write to an entity's slot comes from an upsert or a removal of that entity. -/
theorem last_entity_cases {cs : List WorldChange} {id : EntityId} {v : Option WorldRecord}
    (h : last (writes cs) (.entity id) = some v) :
    (∃ record, .upsertEntity record ∈ cs ∧ record.id = id ∧ v = some (.entity record)) ∨
      ∃ generation revision, .removeEntity id generation revision ∈ cs ∧ v = none := by
  obtain ⟨c, hmem, hc⟩ := List.mem_map.1 (mem_of_last h)
  obtain ⟨hkey, hwritten⟩ := Prod.mk.inj hc
  cases c with
  | upsertEntity record => exact .inl ⟨record, hmem, RecordKey.entity.inj hkey, hwritten.symm⟩
  | removeEntity id' generation revision =>
      cases hkey
      exact .inr ⟨generation, revision, hmem, hwritten.symm⟩
  | _ => cases hkey

namespace WitnessSet

variable {w : WitnessSet} {base succ : WorldSnapshot} {delta : StateDelta}

theorem lookup_of_applyDelta (h : applyDelta base delta = .ok succ) (k : RecordKey) :
    succ.graph.lookup k = (last (writes delta.changes) k).getD (base.graph.lookup k) := by
  obtain ⟨-, rfl, -⟩ := (applyDelta_ok_iff _ _ _).1 h
  exact lookup_runAll_eq_last base.graph delta.changes k

/-- A witnessed entity is where it was. -/
theorem positive_of_validate (happly : applyDelta base delta = .ok succ)
    (hval : w.validateAgainstDelta delta = .ok ()) {p : EntityWitness}
    (hp : p ∈ w.positiveEntities.keys) (hbase : p.matches base = true) :
    p.matches succ = true := by
  have hcheck := (checkChanges_ok_iff w delta.changes).1 hval
  have hlookup := lookup_of_applyDelta happly (.entity p.id)
  cases hlast : last (writes delta.changes) (.entity p.id) with
  | none =>
      rw [hlast, Option.getD_none, WorldGraph.lookup_entity, WorldGraph.lookup_entity,
        WorldGraph.map_entity_inj] at hlookup
      rwa [EntityWitness.matches, hlookup]
  | some v =>
      rw [hlast, Option.getD_some] at hlookup
      rcases last_entity_cases hlast with ⟨record, hmem, hid, rfl⟩ | ⟨gen, rev, hmem, rfl⟩
      · obtain ⟨hgen, hrev⟩ := (checkChange_upsertEntity (hcheck _ hmem)).2 p hp hid
        have hget : succ.graph.entities.get? p.id = some record :=
          WorldGraph.map_entity_inj.1 hlookup
        simp [EntityWitness.matches, hget, hgen, hrev]
      · exact absurd rfl (checkChange_removeEntity (hcheck _ hmem) p hp)

/-- An entity witnessed absent is still absent. -/
theorem negative_of_validate (happly : applyDelta base delta = .ok succ)
    (hval : w.validateAgainstDelta delta = .ok ()) {id : EntityId}
    (hid : id ∈ w.negativeEntities.keys) (hbase : base.graph.entities.contains id = false) :
    succ.graph.entities.contains id = false := by
  have hcheck := (checkChanges_ok_iff w delta.changes).1 hval
  have hlookup := lookup_of_applyDelta happly (.entity id)
  rw [OMap.contains_eq_false_iff] at hbase ⊢
  cases hlast : last (writes delta.changes) (.entity id) with
  | none =>
      rw [hlast, Option.getD_none, WorldGraph.lookup_entity, WorldGraph.lookup_entity,
        WorldGraph.map_entity_inj] at hlookup
      rw [hlookup, hbase]
  | some v =>
      rw [hlast, Option.getD_some] at hlookup
      rcases last_entity_cases hlast with ⟨record, hmem, rfl, rfl⟩ | ⟨gen, rev, hmem, rfl⟩
      · exact absurd hid (checkChange_upsertEntity (hcheck _ hmem)).1
      · exact Option.map_eq_none_iff.1 hlookup

/-- The delta leaves every witnessed chunk it writes at the witnessed revision. -/
def ChunksKept (w : WitnessSet) (changes : List WorldChange) : Prop :=
  ∀ c ∈ w.witnessedChunks.toList, ∀ v, last (writes changes) (.chunk c.1) = some v →
    ∃ chunk, v = some (.chunk chunk) ∧ chunk.revision = c.2

theorem chunkMatches_iff (c : ChunkCoord × U 64) (s : WorldSnapshot) :
    chunkMatches c s = true ↔
      ∃ chunk, s.graph.lookup (.chunk c.1) = some (.chunk chunk) ∧ chunk.revision = c.2 := by
  rw [chunkMatches, WorldGraph.lookup_chunk]
  cases s.graph.chunks.get? c.1 with
  | none => simp
  | some chunk => simp

/-- **What passing the scan proves.** The reads still hold on the successor exactly when the
delta leaves every witnessed chunk at its witnessed revision. -/
theorem validateAgainstDelta_sound_iff (hbase : w.Holds base)
    (happly : applyDelta base delta = .ok succ) (hval : w.validateAgainstDelta delta = .ok ()) :
    (w.Holds succ ∧ w.violation base succ = none) ↔ w.ChunksKept delta.changes := by
  rw [violation_eq_none_iff]
  constructor
  · rintro ⟨hsucc, -⟩ c hc v hv
    obtain ⟨chunk, hchunk, hrev⟩ := (chunkMatches_iff c succ).1 (hsucc.chunks c hc)
    rw [lookup_of_applyDelta happly, hv, Option.getD_some] at hchunk
    exact ⟨chunk, hchunk, hrev⟩
  · intro hkept
    have hsucc : w.Holds succ := by
      refine ⟨fun p hp => positive_of_validate happly hval hp (hbase.positive p hp),
        fun id hid => negative_of_validate happly hval hid (hbase.negative id hid),
        fun c hc => (chunkMatches_iff c succ).2 ?_⟩
      rw [lookup_of_applyDelta happly]
      cases hlast : last (writes delta.changes) (.chunk c.1) with
      | none => exact (chunkMatches_iff c base).1 (hbase.chunks c hc)
      | some v =>
          obtain ⟨chunk, rfl, hrev⟩ := hkept c hc v hlast
          exact ⟨chunk, rfl, hrev⟩
    exact ⟨hsucc, hbase, hsucc⟩

/-- A delta about one entity, checked against reads of another, of an absence and of terrain. -/
theorem validateAgainstDelta_keeps_reads :
    let base := Sample.snapshot 0 { Sample.entities [Sample.entity 1 1] with
      chunks := (Sample.terrain (Sample.chunk 0)).chunks }
    let w := ((WitnessSet.new.addPositiveEntity 1 0 1).addNegativeEntity 2).addChunk
      (Sample.chunk 0).coord 0
    ∃ delta succ, delta.changes = [.upsertEntity (Sample.entity 3 0)] ∧
      applyDelta base delta = .ok succ ∧ w.validateAgainstDelta delta = .ok () ∧ w.Holds succ := by
  intro base w
  obtain ⟨delta, hdelta⟩ := (exists_buildDelta_iff base ⟨0, 1⟩ 0
    [.upsertEntity (Sample.entity 3 0)]).2
    ⟨Sample.snapshot_hashIsValid _ _, by decide, by decide, le_rfl, by decide⟩
  obtain ⟨-, -, -, hchanges, -⟩ := (buildDelta_ok_iff _ _ _ _ _).1 hdelta
  have habsent : ∀ id ∈ w.negativeEntities.keys, base.graph.entities.contains id = false := by
    intro id hid
    cases List.mem_singleton.1 hid
    decide
  have hbase : w.Holds base := ⟨by decide +kernel, habsent, by decide +kernel⟩
  have happly := applyDelta_of_buildDelta hdelta
  have hval : w.validateAgainstDelta delta = .ok () := by
    rw [validateAgainstDelta, hchanges]
    decide
  refine ⟨delta, _, hchanges, happly, hval,
    ((validateAgainstDelta_sound_iff hbase happly hval).2 ?_).1⟩
  intro c hc v hv
  rw [hchanges] at hv
  cases hv

/-- A delta that moves a witnessed chunk on passes the scan. -/
theorem validateAgainstDelta_misses_chunks :
    let base := Sample.snapshot 0 (Sample.terrain (Sample.chunk 0))
    let w := WitnessSet.new.addChunk (Sample.chunk 0).coord 0
    ∃ delta succ, delta.changes = [.upsertMapChunk (Sample.chunk 1)] ∧ w.Holds base ∧
      applyDelta base delta = .ok succ ∧ w.validateAgainstDelta delta = .ok () ∧
      ¬ w.Holds succ ∧ w.violation base succ ≠ none := by
  intro base w
  obtain ⟨delta, hdelta⟩ := (exists_buildDelta_iff base ⟨0, 1⟩ 0
    [.upsertMapChunk (Sample.chunk 1)]).2
    ⟨Sample.snapshot_hashIsValid _ _, by decide, by decide, le_rfl, by decide⟩
  obtain ⟨-, -, -, hchanges, -⟩ := (buildDelta_ok_iff _ _ _ _ _).1 hdelta
  have hval : w.validateAgainstDelta delta = .ok () := by
    rw [validateAgainstDelta, hchanges]
    rfl
  have hmoved : ¬ w.Holds (base.advancedBy delta).refreshHash := by
    intro h
    obtain ⟨chunk, hlookup, hrev⟩ :=
      (chunkMatches_iff _ _).1 (h.chunks ((Sample.chunk 0).coord, 0) (by decide))
    rw [lookup_of_applyDelta (applyDelta_of_buildDelta hdelta), hchanges] at hlookup
    change some (WorldRecord.chunk (Sample.chunk 1)) = some (.chunk chunk) at hlookup
    rw [← WorldRecord.chunk.inj (Option.some.inj hlookup)] at hrev
    revert hrev
    decide
  have hbase : w.Holds base :=
    ⟨nofun, fun _ hid => absurd hid List.not_mem_nil, by decide +kernel⟩
  exact ⟨delta, _, hchanges, hbase, applyDelta_of_buildDelta hdelta, hval, hmoved, fun h => hmoved ((violation_eq_none_iff _ _ _).1 h).2⟩

end WitnessSet

end Dfmcp
