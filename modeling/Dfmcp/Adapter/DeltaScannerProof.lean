import Dfmcp.Adapter.DeltaScanner
import Dfmcp.World.Records
import Dfmcp.World.EntityBytesProof

/-!
# Continuous streaming is faithful

An emit is one pure computation of a delta and of the streamer after it (`emitted`), so an emit that
fails leaves the streamer as it was. What it does to the graph is read off the changes it lists: no
two of them write different records to one entity or chunk.

* `Tracks` — the entity tracker is the generation and revision of every entity of the snapshot; what
  every call keeps;
* `Emission` — what one delta says and what it leads to;
* `continuous_streaming_faithful` — for every run, the deltas replay to the snapshot, no dirty chunk
  and no event is lost, and every further delta is an emission.

The entities of a snapshot are those of the true target world only as far as a hash can tell: a kind
that borrows a reserved name has the bytes of the kind it borrows from.
-/

namespace Dfmcp

open Machine Method Replay

/-! ## One emit as one computation -/

namespace ContinuousDeltaStreamer

variable {streamer after : ContinuousDeltaStreamer} {targetTick : GameTick}
  {active : List EntityRecord} {modified : List MapChunk} {targetHash : Digest32}
  {delta : StateDelta}

/-- The delta of an emit that succeeds, and the streamer that it leaves. -/
structure Emits (streamer : ContinuousDeltaStreamer) (targetTick : GameTick)
    (active : List EntityRecord) (modified : List MapChunk) (targetHash : Digest32)
    (delta : StateDelta) (after : ContinuousDeltaStreamer) : Prop where
  tick : streamer.currentSnapshot.tick ≤ targetTick
  hash : targetHash ≠ Digest32.zero
  parts : ∃ cursor entityChanges supplied taken,
    nextCursor streamer.currentSnapshot.cursor = .ok cursor ∧
    exec (EntityDeltaTracker.processEntities active) streamer.entityTracker =
      (.ok entityChanges, after.entityTracker) ∧
    chunkMap modified .nil = .ok supplied ∧
    takeDirty streamer.chunkTracker.dirtyChunks.keys supplied = .ok taken ∧
    buildDelta streamer.currentSnapshot cursor targetTick
      (entityChanges ++ taken.1.map .upsertMapChunk ++ taken.2.values.map .upsertMapChunk ++
        streamer.eventBuffer.events.map .appendEvent) = .ok delta
  declared : delta.targetHash = targetHash
  applies : applyDelta streamer.currentSnapshot delta = .ok after.currentSnapshot
  drained : after.chunkTracker = .new
  emptied : after.eventBuffer = { streamer.eventBuffer with events := [] }

/-- **An emit that fails changes nothing.** -/
theorem meets_emitNextDelta (streamer : ContinuousDeltaStreamer) (targetTick : GameTick)
    (active : List EntityRecord) (modified : List MapChunk) (targetHash : Digest32) :
    Meets (· = streamer) (emitNextDelta targetTick active modified targetHash)
      (Emits streamer targetTick active modified targetHash) fun _ after => after = streamer := by
  refine Meets.bind (Q := fun s after => s = streamer ∧ after = streamer)
    (.get fun _ h => ⟨h, h⟩) fun s => Meets.given fun hs => ?_
  rw [hs]
  refine Meets.bind (.rejectIf fun _ h _ => h) fun _ => Meets.given fun hopen => ?_
  simp only [not_or, not_lt] at hopen
  refine Meets.bind (Q := fun cursor after =>
    nextCursor streamer.currentSnapshot.cursor = .ok cursor ∧ after = streamer)
    (.of (fun _ _ h hcursor => ⟨hcursor, h⟩) fun _ _ h _ => h) fun cursor => Meets.given fun hcursor => ?_
  dsimp only
  cases hstaged : exec (EntityDeltaTracker.processEntities active) streamer.entityTracker with
  | mk result tracker =>
  refine Meets.bind (Q := fun changes after => result = .ok changes ∧ after = streamer)
    (.of (fun _ _ h hchanges => ⟨hchanges, h⟩) fun _ _ h _ => h) fun changes =>
      Meets.given fun hchanges => ?_
  refine Meets.bind (Q := fun supplied after => chunkMap modified .nil = .ok supplied ∧
    after = streamer) (.of (fun _ _ h hsupplied => ⟨hsupplied, h⟩) fun _ _ h _ => h)
    fun supplied => Meets.given fun hsupplied => ?_
  refine Meets.bind (Q := fun taken after =>
    takeDirty streamer.chunkTracker.dirtyChunks.keys supplied = .ok taken ∧ after = streamer)
    (.of (fun _ _ h htaken => ⟨htaken, h⟩) fun _ _ h _ => h) fun taken => Meets.given fun htaken => ?_
  refine Meets.bind (Q := fun delta after => buildDelta streamer.currentSnapshot cursor targetTick _ =
    .ok delta ∧ after = streamer) (.of (fun _ _ h hdelta => ⟨hdelta, h⟩) fun _ _ h _ => h)
    fun delta => Meets.given fun hdelta => ?_
  refine Meets.bind (.rejectIf fun _ h _ => h) fun _ => Meets.given fun hdeclared => ?_
  refine Meets.bind (Q := fun next after => applyDelta streamer.currentSnapshot delta = .ok next ∧
    after = streamer) (.of (fun _ _ h happly => ⟨happly, h⟩) fun _ _ h _ => h)
    fun next => Meets.given fun happly => ?_
  refine Meets.bind (Q := fun _ after => after = ⟨next, .new, tracker,
    { streamer.eventBuffer with events := [] }⟩) (.set fun _ _ => rfl) fun _ => .pure fun after hafter => ?_
  rw [hafter]
  exact
    { tick := hopen.1
      hash := hopen.2
      parts := ⟨cursor, changes, supplied, taken, hcursor, by rw [hstaged, hchanges], hsupplied, htaken,
        hdelta⟩
      declared := not_not.1 hdeclared
      applies := happly
      drained := rfl
      emptied := rfl }

end ContinuousDeltaStreamer

/-! ## What the entity tracker lists -/

namespace EntityDeltaTracker

variable {known : BTreeMap EntityId (U 32 × U 64)} {done : List EntityRecord}
  {seen : BTreeSet EntityId} {changes : List WorldChange} {tracker : EntityDeltaTracker}

/-- An entity at the generation and revision that are known of it. -/
def Held (known : BTreeMap EntityId (U 32 × U 64)) (entity : EntityRecord) : Prop :=
  known.get? entity.id = some (entity.generation, entity.revision)

instance (known : BTreeMap EntityId (U 32 × U 64)) (entity : EntityRecord) :
    Decidable (Held known entity) :=
  inferInstanceAs (Decidable (_ = _))

/-- The upserts of the entities that are not held. -/
def upsertsOf (known : BTreeMap EntityId (U 32 × U 64)) (active : List EntityRecord) :
    List WorldChange :=
  (active.filter fun entity => ¬ Held known entity).map .upsertEntity

/-- After these active entities, the tracker knows them beside what was known of the others. -/
structure Learnt (known : BTreeMap EntityId (U 32 × U 64)) (done : List EntityRecord)
    (seen : BTreeSet EntityId) (changes : List WorldChange) (tracker : EntityDeltaTracker) :
    Prop where
  nodup : (done.map EntityRecord.id).Nodup
  nonzero : ∀ entity ∈ done, entity.id ≠ 0
  seen : ∀ id, seen.contains id = true ↔ id ∈ done.map EntityRecord.id
  changes : changes = upsertsOf known done
  active : ∀ entity ∈ done, Held tracker.knownEntities entity
  others : ∀ id, id ∉ done.map EntityRecord.id → tracker.knownEntities.get? id = known.get? id

theorem learnt_nil (tracker : EntityDeltaTracker) :
    Learnt tracker.knownEntities [] .nil [] tracker where
  nodup := List.nodup_nil
  nonzero := nofun
  seen := fun _ => by simp [OMap.contains]
  changes := rfl
  active := nofun
  others := fun _ _ => rfl

theorem nodup_concat {entity : EntityRecord} (h : (done.map EntityRecord.id).Nodup)
    (hnew : entity.id ∉ done.map EntityRecord.id) :
    ((done ++ [entity]).map EntityRecord.id).Nodup := by
  rw [List.map_append, List.map_singleton]
  exact List.nodup_append.2 ⟨h, List.nodup_singleton _, fun a ha b hb heq =>
    hnew (List.mem_singleton.1 hb ▸ heq ▸ ha)⟩

/-- An entity that is already held teaches nothing. -/
theorem Learnt.hold {entity : EntityRecord} (h : Learnt known done seen changes tracker)
    (hid : entity.id ≠ 0) (hnew : entity.id ∉ done.map EntityRecord.id)
    (hheld : Held tracker.knownEntities entity) :
    Learnt known (done ++ [entity]) (seen.insert entity.id ()) changes tracker where
  nodup := nodup_concat h.nodup hnew
  nonzero := List.forall_mem_append.2 ⟨h.nonzero, by simpa using hid⟩
  seen := fun id => by
    rw [OMap.contains_insert, Bool.or_eq_true, decide_eq_true_eq, h.seen, List.map_append,
      List.mem_append, or_comm]
    simp
  changes := by
    have hsame : Held known entity := (h.others entity.id hnew).symm.trans hheld
    rw [h.changes, upsertsOf, upsertsOf, List.filter_append, List.map_append]
    simp [hsame]
  active := List.forall_mem_append.2 ⟨h.active, by simpa using hheld⟩
  others := fun id hout => h.others id fun hmem => hout <| by
    rw [List.map_append]
    exact List.mem_append_left _ hmem

/-- An entity that is not held is learnt and listed. -/
theorem Learnt.learn {entity : EntityRecord} (h : Learnt known done seen changes tracker)
    (hid : entity.id ≠ 0) (hnew : entity.id ∉ done.map EntityRecord.id)
    (hfresh : ¬ Held tracker.knownEntities entity) :
    Learnt known (done ++ [entity]) (seen.insert entity.id ()) (changes ++ [.upsertEntity entity])
      (tracker.learn entity) where
  nodup := nodup_concat h.nodup hnew
  nonzero := List.forall_mem_append.2 ⟨h.nonzero, by simpa using hid⟩
  seen := fun id => by
    rw [OMap.contains_insert, Bool.or_eq_true, decide_eq_true_eq, h.seen, List.map_append,
      List.mem_append, or_comm]
    simp
  changes := by
    have hsame : ¬ Held known entity := fun hheld =>
      hfresh ((h.others entity.id hnew).trans hheld)
    rw [h.changes, upsertsOf, upsertsOf, List.filter_append, List.map_append]
    simp [hsame]
  active := List.forall_mem_append.2 ⟨fun other hother => by
      have hne : other.id ≠ entity.id := fun heq =>
        hnew (heq ▸ List.mem_map_of_mem (f := EntityRecord.id) hother)
      rw [Held, EntityDeltaTracker.learn, OMap.get?_insert, if_neg hne]
      exact h.active other hother, by simp [Held, EntityDeltaTracker.learn]⟩
  others := fun id hout => by
    rw [List.map_append, List.mem_append, not_or] at hout
    rw [EntityDeltaTracker.learn, OMap.get?_insert, if_neg (by simpa using hout.2)]
    exact h.others id hout.1

/-- **The active entities** are learnt one after the other. -/
theorem meets_processActive (rest : List EntityRecord) :
    Meets (Learnt known done seen changes) (processActive rest seen changes)
      (fun processed => Learnt known (done ++ rest) processed.1 processed.2) fun _ _ => True := by
  induction rest generalizing done seen changes with
  | nil => exact .pure fun _ h => by rwa [List.append_nil]
  | cons entity rest ih =>
      rw [← List.singleton_append, ← List.append_assoc]
      refine Meets.bind (.rejectIf fun _ _ _ => trivial) fun _ => Meets.given fun hok => ?_
      rw [not_or] at hok
      refine Meets.bind (Q := fun tracker t => t = tracker ∧ Learnt known done seen changes tracker)
        (.get fun t h => ⟨rfl, h⟩) fun tracker => ?_
      intro t ht
      obtain ⟨rfl, h⟩ := ht
      have hnew : entity.id ∉ done.map EntityRecord.id := fun hmem =>
        hok.2 ((h.seen entity.id).2 hmem)
      have hlearn : ¬ Held t.knownEntities entity → Meets (fun t' => t' = t)
          (do
            set (t.learn entity)
            processActive rest (seen.insert entity.id ()) (changes ++ [.upsertEntity entity]))
          (fun processed => Learnt known (done ++ [entity] ++ rest) processed.1 processed.2)
          fun _ _ => True := fun hfresh =>
        Meets.bind (.set fun _ _ => h.learn hok.1 hnew hfresh) fun _ => ih
      cases hget : t.knownEntities.get? entity.id with
      | none =>
          exact hlearn (fun hheld => by rw [Held, hget] at hheld; cases hheld) t rfl
      | some held =>
          obtain ⟨generation, revision⟩ := held
          dsimp only
          refine (Meets.bind (P := fun t' => t' = t) (.rejectIf fun _ _ _ => trivial)
            fun _ => Meets.given fun hregress => ?_) t rfl
          rw [not_or, not_lt, not_and, not_lt] at hregress
          refine .ite (fun hchanged => hlearn fun hheld => ?_) fun hsame => ?_
          · rw [Held, hget, Option.some.injEq, Prod.mk.injEq] at hheld
            rcases hchanged with hne | hlt
            · exact hne hheld.1.symm
            · exact hlt.ne hheld.2
          · rw [not_or, not_not, not_lt] at hsame
            have hheld : Held t.knownEntities entity := by
              rw [Held, hget, hsame.1, le_antisymm hsame.2 (hregress.2 hsame.1)]
            exact fun t' ht' => ih t' (ht' ▸ h.hold hok.1 hnew hheld)

/-- The removals of these entities, as they are known. -/
def removalsOf (known : BTreeMap EntityId (U 32 × U 64)) (ids : List EntityId) : List WorldChange :=
  ids.filterMap fun id => (known.get? id).map fun held => .removeEntity id held.1 held.2

theorem removalsOf_congr {known' : BTreeMap EntityId (U 32 × U 64)} {ids : List EntityId}
    (h : ∀ id ∈ ids, known'.get? id = known.get? id) : removalsOf known' ids = removalsOf known ids :=
  List.filterMap_congr fun id hid => by rw [h id hid]

/-- **The entities that are gone** are listed as they were known, and forgotten. -/
theorem meets_processRemoved {ids : List EntityId} (hnodup : ids.Nodup) :
    Meets (· = tracker) (processRemoved ids changes)
      (fun listed after => listed = changes ++ removalsOf tracker.knownEntities ids ∧
        ∀ id, after.knownEntities.get? id =
          if id ∈ ids then none else tracker.knownEntities.get? id) fun _ _ => True := by
  induction ids generalizing tracker changes with
  | nil => exact .pure fun after h => ⟨(List.append_nil _).symm, fun id => by rw [h]; simp⟩
  | cons id rest ih =>
      obtain ⟨hnew, hnodup⟩ := List.nodup_cons.1 hnodup
      refine Meets.bind (Q := fun t after => t = tracker ∧ after = tracker)
        (.get fun t h => ⟨h, h⟩) fun t => Meets.given fun ht => ?_
      rw [ht]
      cases hget : tracker.knownEntities.get? id with
      | none =>
          refine (ih hnodup).conseq (fun _ h => h) (fun listed after h => ?_) fun _ _ h => h
          refine ⟨h.1.trans (by simp [removalsOf, hget]), fun q => (h.2 q).trans ?_⟩
          by_cases hq : q = id
          · simp [hq, hget]
          · simp [hq]
      | some held =>
          refine Meets.bind (Q := fun _ after => after = tracker.forget id)
            (.set fun _ _ => rfl) fun _ => ?_
          refine (ih hnodup).conseq (fun _ h => h) (fun listed after h => ?_) fun _ _ h => h
          have hrest : removalsOf (tracker.forget id).knownEntities rest =
              removalsOf tracker.knownEntities rest := removalsOf_congr fun other hother => by
            rw [EntityDeltaTracker.forget, OMap.get?_erase,
              if_neg fun heq : other = id => hnew (heq ▸ hother)]
          refine ⟨h.1.trans ?_, fun q => (h.2 q).trans ?_⟩
          · rw [hrest]
            simp [removalsOf, hget]
          · rw [EntityDeltaTracker.forget, OMap.get?_erase]
            by_cases hq : q = id
            · simp [hq]
            · simp [hq]

/-- What a comparison with the active entities lists, and what is known after it. -/
structure Compared (known : BTreeMap EntityId (U 32 × U 64)) (active : List EntityRecord)
    (changes : List WorldChange) (tracker : EntityDeltaTracker) : Prop where
  nodup : (active.map EntityRecord.id).Nodup
  nonzero : ∀ entity ∈ active, entity.id ≠ 0
  changes : ∃ gone : List EntityId,
    (∀ id, id ∈ gone ↔ known.contains id = true ∧ id ∉ active.map EntityRecord.id) ∧
    changes = upsertsOf known active ++ removalsOf known gone
  held : ∀ entity ∈ active, Held tracker.knownEntities entity
  others : ∀ id, id ∉ active.map EntityRecord.id → tracker.knownEntities.get? id = none

theorem meets_processEntities (tracker : EntityDeltaTracker) (active : List EntityRecord) :
    Meets (· = tracker) (processEntities active) (Compared tracker.knownEntities active)
      fun _ _ => True := by
  have hactive : Meets (Learnt tracker.knownEntities [] .nil []) (processActive active .nil [])
      (fun processed => Learnt tracker.knownEntities active processed.1 processed.2)
      fun _ _ => True := meets_processActive active
  refine Meets.bind (hactive.conseq (fun t h => h ▸ learnt_nil tracker) (fun _ _ h => h)
    fun _ _ h => h) fun processed => ?_
  refine Meets.bind (Q := fun t after => after = t ∧
      Learnt tracker.knownEntities active processed.1 processed.2 t)
    (.get fun t h => ⟨rfl, h⟩) fun t after hafter => ?_
  obtain ⟨rfl, h⟩ := hafter
  have hgone : ∀ id, id ∈ after.knownEntities.keys.filter (fun id => !processed.1.contains id) ↔
      tracker.knownEntities.contains id = true ∧ id ∉ active.map EntityRecord.id := by
    intro id
    have hseen : (!processed.1.contains id) = true ↔ id ∉ active.map EntityRecord.id := by
      rw [Bool.not_eq_true', Bool.eq_false_iff, ne_eq, h.seen]
    rw [List.mem_filter, hseen, OMap.mem_keys_iff]
    refine and_congr_left fun hout => ?_
    rw [OMap.contains, OMap.contains, h.others id hout]
  refine ((meets_processRemoved (after.knownEntities.keys_nodup.filter _)).conseq
    (fun _ h => h) (fun changes final hfinal => ?_) fun _ _ h => h) after rfl
  have hsame : removalsOf after.knownEntities (after.knownEntities.keys.filter
      fun id => !processed.1.contains id) = removalsOf tracker.knownEntities
        (after.knownEntities.keys.filter fun id => !processed.1.contains id) :=
    removalsOf_congr fun id hid => h.others id ((hgone id).1 hid).2
  refine ⟨h.nodup, h.nonzero, ⟨_, hgone, ?_⟩, fun entity hentity => ?_, fun id hid => ?_⟩
  · rw [hfinal.1, hsame, h.changes]
  · have hin : entity.id ∈ active.map EntityRecord.id := List.mem_map_of_mem hentity
    rw [Held, hfinal.2, if_neg fun hmem => ((hgone _).1 hmem).2 hin]
    exact h.active entity hentity
  · rw [hfinal.2]
    by_cases hmem : id ∈ after.knownEntities.keys.filter fun id => !processed.1.contains id
    · rw [if_pos hmem]
    · rw [if_neg hmem, h.others id hid]
      by_contra hsome
      exact hmem ((hgone id).2 ⟨Option.isSome_iff_ne_none.2 hsome, hid⟩)

end EntityDeltaTracker

/-! ## What the chunks list -/

namespace ContinuousDeltaStreamer

variable {modified : List MapChunk} {chunks supplied : BTreeMap ChunkCoord MapChunk}

/-- The supplied chunks are apart from each other and from those before. -/
theorem chunkMap_fresh (h : chunkMap modified chunks = .ok supplied) :
    (modified.map MapChunk.coord).Nodup ∧
      ∀ coord ∈ modified.map MapChunk.coord, chunks.contains coord = false := by
  induction modified generalizing chunks with
  | nil => exact ⟨List.nodup_nil, List.forall_mem_nil _⟩
  | cons chunk rest ih =>
      rw [chunkMap] at h
      by_cases hdup : chunks.contains chunk.coord = true
      · rw [if_pos hdup] at h
        cases h
      · rw [if_neg hdup] at h
        obtain ⟨hnodup, hfresh⟩ := ih h
        have hrest : ∀ coord ∈ rest.map MapChunk.coord,
            coord ≠ chunk.coord ∧ chunks.contains coord = false := by
          intro coord hcoord
          have hnot := hfresh coord hcoord
          rw [OMap.contains_insert, Bool.or_eq_false_iff, decide_eq_false_iff_not] at hnot
          exact hnot
        rw [List.map_cons]
        refine ⟨List.nodup_cons.2 ⟨fun hmem => (hrest _ hmem).1 rfl, hnodup⟩, fun coord hcoord => ?_⟩
        rcases List.mem_cons.1 hcoord with rfl | hcoord
        · exact Bool.eq_false_iff.2 hdup
        · exact (hrest coord hcoord).2

/-- The supplied chunks, each under its coordinate. -/
theorem chunkMap_ok (h : chunkMap modified chunks = .ok supplied) :
    (∀ chunk ∈ modified, supplied.get? chunk.coord = some chunk) ∧
      ∀ coord, coord ∉ modified.map MapChunk.coord → supplied.get? coord = chunks.get? coord := by
  have hnodup := (chunkMap_fresh h).1
  induction modified generalizing chunks with
  | nil =>
      rw [chunkMap, Except.ok.injEq] at h
      exact ⟨List.forall_mem_nil _, fun _ _ => by rw [h]⟩
  | cons chunk rest ih =>
      rw [chunkMap] at h
      by_cases hdup : chunks.contains chunk.coord = true
      · rw [if_pos hdup] at h
        cases h
      · rw [if_neg hdup] at h
        obtain ⟨hnew, hnodup⟩ := List.nodup_cons.1 hnodup
        obtain ⟨hin, hout⟩ := ih h hnodup
        refine ⟨fun other hother => ?_, fun coord hcoord => ?_⟩
        · rcases List.mem_cons.1 hother with rfl | hother
          · rw [hout _ hnew, OMap.get?_insert, if_pos rfl]
          · exact hin other hother
        · rw [List.map_cons, List.mem_cons, not_or] at hcoord
          rw [hout coord hcoord.2, OMap.get?_insert, if_neg hcoord.1]

/-- The chunks of a map are exactly the supplied ones. -/
theorem mem_supplied_iff (h : chunkMap modified .nil = .ok supplied) (chunk : MapChunk) :
    chunk ∈ supplied.values ↔ chunk ∈ modified := by
  obtain ⟨hin, hout⟩ := chunkMap_ok h
  rw [OMap.mem_values_iff]
  constructor
  · intro hmem
    obtain ⟨coord, hget⟩ := hmem
    by_cases hcoord : coord ∈ modified.map MapChunk.coord
    · obtain ⟨other, hother, rfl⟩ := List.mem_map.1 hcoord
      rw [hin other hother] at hget
      exact Option.some.inj hget ▸ hother
    · rw [hout coord hcoord] at hget
      cases hget
  · exact fun hmem => ⟨chunk.coord, hin chunk hmem⟩

/-- Taking the dirty chunks leaves the other ones. -/
theorem takeDirty_ok {coords : List ChunkCoord} {taken : List MapChunk × BTreeMap ChunkCoord MapChunk}
    (h : takeDirty coords chunks = .ok taken) :
    (∀ coord ∈ coords, ∃ chunk ∈ taken.1, chunks.get? coord = some chunk) ∧
      ∀ chunk, chunk ∈ taken.1 ∨ chunk ∈ taken.2.values ↔ chunk ∈ chunks.values := by
  induction coords generalizing chunks taken with
  | nil =>
      rw [takeDirty, Except.ok.injEq] at h
      rw [← h]
      exact ⟨List.forall_mem_nil _, fun _ => by simp⟩
  | cons coord rest ih =>
      unfold takeDirty at h
      cases hget : chunks.get? coord with
      | none =>
          rw [hget] at h
          cases h
      | some chunk =>
          rw [hget] at h
          obtain ⟨left, hleft, h⟩ := bind_ok_iff.1 h
          rw [pure_ok_iff] at h
          obtain ⟨hin, hsplit⟩ := ih hleft
          rw [← h]
          refine ⟨fun other hother => ?_, fun other => ?_⟩
          · rcases List.mem_cons.1 hother with rfl | hother
            · exact ⟨chunk, List.mem_cons_self, hget⟩
            · obtain ⟨found, hfound, hother⟩ := hin other hother
              rw [OMap.get?_erase] at hother
              by_cases heq : other = coord
              · rw [if_pos heq] at hother
                cases hother
              · rw [if_neg heq] at hother
                exact ⟨found, List.mem_cons_of_mem _ hfound, hother⟩
          · dsimp only
            rw [List.mem_cons, or_assoc, hsplit, OMap.mem_values_iff, OMap.mem_values_iff]
            constructor
            · intro hmem
              rcases hmem with rfl | ⟨q, hq⟩
              · exact ⟨coord, hget⟩
              · rw [OMap.get?_erase] at hq
                by_cases heq : q = coord
                · rw [if_pos heq] at hq
                  cases hq
                · rw [if_neg heq] at hq
                  exact ⟨q, hq⟩
            · intro hmem
              obtain ⟨q, hq⟩ := hmem
              by_cases heq : q = coord
              · rw [heq, hget] at hq
                exact .inl (Option.some.inj hq).symm
              · refine .inr ⟨q, ?_⟩
                rw [OMap.get?_erase, if_neg heq]
                exact hq

end ContinuousDeltaStreamer

/-! ## What a delta does to the graph -/

/-- A change that no other one contradicts is what its slot holds in the end. -/
theorem lookup_runAll_of_mem {g : WorldGraph} {changes : List WorldChange} {change : WorldChange}
    (hmem : change ∈ changes) (halone : ∀ other ∈ changes, other.key = change.key → other = change) :
    (runAll g changes).lookup change.key = change.written := by
  rw [lookup_runAll_eq_last]
  cases hlast : last (writes changes) change.key with
  | none =>
      rw [last_eq_none_iff] at hlast
      exact absurd ⟨change.toWrite, List.mem_map_of_mem hmem, rfl⟩ hlast
  | some written =>
      obtain ⟨other, hother, heq⟩ := List.mem_map.1 (mem_of_last hlast)
      obtain ⟨hkey, hwritten⟩ := Prod.mk.inj heq
      rw [← halone other hother hkey]
      exact hwritten.symm

/-- A slot that no change writes holds what it held. -/
theorem lookup_runAll_of_forall (g : WorldGraph) (changes : List WorldChange) (key : RecordKey)
    (h : ∀ change ∈ changes, change.key ≠ key) : (runAll g changes).lookup key = g.lookup key := by
  have hnone : last (writes changes) key = none := by
    rw [last_eq_none_iff]
    intro htouch
    obtain ⟨write, hwrite, hkey⟩ := htouch
    obtain ⟨change, hchange, rfl⟩ := List.mem_map.1 hwrite
    exact h change hchange hkey
  rw [lookup_runAll_eq_last, hnone, Option.getD_none]

namespace ContinuousDeltaStreamer

open EntityDeltaTracker

/-- The entity tracker is the generation and revision of every entity of the snapshot. -/
def Tracks (streamer : ContinuousDeltaStreamer) : Prop :=
  ∀ id, streamer.entityTracker.knownEntities.get? id =
    (streamer.currentSnapshot.graph.entities.get? id).map fun entity =>
      (entity.generation, entity.revision)

theorem tracks_new (base : WorldSnapshot) : (new base).Tracks := fun id => by
  simp [new, seedFromGraph]

section Emission

variable {streamer after : ContinuousDeltaStreamer} {targetTick : GameTick}
  {active : List EntityRecord} {modified : List MapChunk} {targetHash : Digest32}
  {delta : StateDelta}

theorem Emits.compared
    (h : Emits streamer targetTick active modified targetHash delta after) :
    ∃ changes, Compared streamer.entityTracker.knownEntities active changes after.entityTracker := by
  obtain ⟨_, changes, _, _, _, hexec, _⟩ := h.parts
  exact ⟨changes, (meets_processEntities streamer.entityTracker active).ok rfl hexec⟩

/-- **What a delta lists**: the entities that are not held, the entities that are gone, the supplied
chunks, and the pending events. -/
theorem Emits.mem_changes_iff
    (h : Emits streamer targetTick active modified targetHash delta after) (change : WorldChange) :
    change ∈ delta.changes ↔
      (∃ entity ∈ active, ¬ Held streamer.entityTracker.knownEntities entity ∧
        .upsertEntity entity = change) ∨
      (∃ id held, streamer.entityTracker.knownEntities.get? id = some held ∧
        id ∉ active.map EntityRecord.id ∧ .removeEntity id held.1 held.2 = change) ∨
      (∃ chunk ∈ modified, .upsertMapChunk chunk = change) ∨
      ∃ event ∈ streamer.eventBuffer.events, .appendEvent event = change := by
  obtain ⟨cursor, changes, supplied, taken, _, hexec, hsupplied, htaken, hbuild⟩ := h.parts
  have hcompared := (meets_processEntities streamer.entityTracker active).ok rfl hexec
  obtain ⟨gone, hgone, hchanges⟩ := hcompared.changes
  obtain ⟨_, _, _, hlisted, _⟩ := (buildDelta_ok_iff _ _ _ _ _).1 hbuild
  have hupserts : change ∈ upsertsOf streamer.entityTracker.knownEntities active ↔
      ∃ entity ∈ active, ¬ Held streamer.entityTracker.knownEntities entity ∧
        .upsertEntity entity = change := by
    simp [upsertsOf, and_assoc]
  have hremovals : change ∈ removalsOf streamer.entityTracker.knownEntities gone ↔
      ∃ id held, streamer.entityTracker.knownEntities.get? id = some held ∧
        id ∉ active.map EntityRecord.id ∧ .removeEntity id held.1 held.2 = change := by
    simp only [removalsOf, List.mem_filterMap, Option.map_eq_some_iff]
    refine exists_congr fun id => ⟨?_, ?_⟩
    · intro hlist
      obtain ⟨hid, held, hget, hchange⟩ := hlist
      exact ⟨held, hget, ((hgone id).1 hid).2, hchange⟩
    · intro hlist
      obtain ⟨held, hget, hout, hchange⟩ := hlist
      exact ⟨(hgone id).2 ⟨(OMap.contains_iff _ _).2 ⟨held, hget⟩, hout⟩, held, hget, hchange⟩
  have hchunks : change ∈ taken.1.map WorldChange.upsertMapChunk ∨
      change ∈ taken.2.values.map WorldChange.upsertMapChunk ↔
        ∃ chunk ∈ modified, .upsertMapChunk chunk = change := by
    rw [List.mem_map, List.mem_map, ← exists_or]
    refine exists_congr fun chunk => ?_
    rw [← or_and_right, (takeDirty_ok htaken).2, mem_supplied_iff hsupplied]
  rw [hlisted, hchanges, List.mem_append, List.mem_append, List.mem_append, List.mem_append,
    List.mem_map (l := streamer.eventBuffer.events), hupserts, hremovals, or_assoc, or_assoc, or_assoc,
    ← or_assoc (a := change ∈ taken.1.map WorldChange.upsertMapChunk), hchunks]

theorem Emits.graph
    (h : Emits streamer targetTick active modified targetHash delta after) :
    after.currentSnapshot.graph = runAll streamer.currentSnapshot.graph delta.changes := by
  obtain ⟨_, hafter, _⟩ := (applyDelta_ok_iff _ _ _).1 h.applies
  rw [hafter]
  rfl

/-- Every supplied entity that was not held is in the snapshot as it was supplied. -/
theorem Emits.entity_of_not_held
    (h : Emits streamer targetTick active modified targetHash delta after) {entity : EntityRecord}
    (hactive : entity ∈ active) (hfresh : ¬ Held streamer.entityTracker.knownEntities entity) :
    after.currentSnapshot.graph.entities.get? entity.id = some entity := by
  obtain ⟨_, hcompared⟩ := h.compared
  have hmem : WorldChange.upsertEntity entity ∈ delta.changes :=
    (h.mem_changes_iff _).2 (.inl ⟨entity, hactive, hfresh, rfl⟩)
  have hwritten := lookup_runAll_of_mem (g := streamer.currentSnapshot.graph) hmem
    fun other hother hkey => by
      rcases (h.mem_changes_iff other).1 hother with ⟨found, hfound, _, rfl⟩ |
        ⟨id, held, _, hout, rfl⟩ | ⟨chunk, _, rfl⟩ | ⟨event, _, rfl⟩
      · rw [List.inj_on_of_nodup_map hcompared.nodup hfound hactive (RecordKey.entity.inj hkey)]
      · exact absurd (List.mem_map_of_mem hactive) (RecordKey.entity.inj hkey ▸ hout)
      · cases hkey
      · cases hkey
  rw [← h.graph] at hwritten
  exact WorldGraph.map_entity_inj.1 hwritten

/-- Every supplied entity that was held is in the snapshot as it was held. -/
theorem Emits.entity_of_held
    (h : Emits streamer targetTick active modified targetHash delta after) {entity : EntityRecord}
    (hactive : entity ∈ active) (hheld : Held streamer.entityTracker.knownEntities entity) :
    after.currentSnapshot.graph.entities.get? entity.id =
      streamer.currentSnapshot.graph.entities.get? entity.id := by
  obtain ⟨_, hcompared⟩ := h.compared
  have hkept := lookup_runAll_of_forall streamer.currentSnapshot.graph delta.changes
    (.entity entity.id) fun other hother hkey => by
      rcases (h.mem_changes_iff other).1 hother with ⟨found, hfound, hfresh, rfl⟩ |
        ⟨id, held, _, hout, rfl⟩ | ⟨chunk, _, rfl⟩ | ⟨event, _, rfl⟩
      · rw [List.inj_on_of_nodup_map hcompared.nodup hfound hactive
          (RecordKey.entity.inj hkey)] at hfresh
        exact hfresh hheld
      · exact absurd (List.mem_map_of_mem hactive) (RecordKey.entity.inj hkey ▸ hout)
      · cases hkey
      · cases hkey
  rw [← h.graph] at hkept
  exact WorldGraph.map_entity_inj.1 hkept

/-- No other entity is in the snapshot. -/
theorem Emits.entity_of_not_mem
    (h : Emits streamer targetTick active modified targetHash delta after) (htracks : streamer.Tracks)
    {id : EntityId} (hout : id ∉ active.map EntityRecord.id) :
    after.currentSnapshot.graph.entities.get? id = none := by
  have hnone : after.currentSnapshot.graph.lookup (.entity id) = none := by
    cases hget : streamer.entityTracker.knownEntities.get? id with
    | none =>
        have hkept := lookup_runAll_of_forall streamer.currentSnapshot.graph delta.changes
          (.entity id) fun other hother hkey => by
            rcases (h.mem_changes_iff other).1 hother with ⟨found, hfound, _, rfl⟩ |
              ⟨gone, held, hgone, _, rfl⟩ | ⟨chunk, _, rfl⟩ | ⟨event, _, rfl⟩
            · exact hout (RecordKey.entity.inj hkey ▸ List.mem_map_of_mem hfound)
            · rw [RecordKey.entity.inj hkey, hget] at hgone
              cases hgone
            · cases hkey
            · cases hkey
        rw [h.graph, hkept, WorldGraph.lookup_entity]
        rw [htracks id, Option.map_eq_none_iff] at hget
        rw [hget]
        rfl
    | some held =>
        have hmem : WorldChange.removeEntity id held.1 held.2 ∈ delta.changes :=
          (h.mem_changes_iff _).2 (.inr (.inl ⟨id, held, hget, hout, rfl⟩))
        rw [h.graph]
        refine lookup_runAll_of_mem hmem fun other hother hkey => ?_
        rcases (h.mem_changes_iff other).1 hother with ⟨found, hfound, _, rfl⟩ |
          ⟨gone, held', hgone, _, rfl⟩ | ⟨chunk, _, rfl⟩ | ⟨event, _, rfl⟩
        · exact absurd (RecordKey.entity.inj hkey ▸ List.mem_map_of_mem hfound) hout
        · obtain rfl := RecordKey.entity.inj hkey
          rw [Option.some.inj (hgone.symm.trans hget)]
        · cases hkey
        · cases hkey
  rw [WorldGraph.lookup_entity, Option.map_eq_none_iff] at hnone
  exact hnone

/-- **What every emit keeps**: the tracker is that of the next snapshot. -/
theorem Emits.tracks
    (h : Emits streamer targetTick active modified targetHash delta after)
    (htracks : streamer.Tracks) : after.Tracks := by
  intro id
  obtain ⟨_, hcompared⟩ := h.compared
  by_cases hid : id ∈ active.map EntityRecord.id
  · obtain ⟨entity, hactive, rfl⟩ := List.mem_map.1 hid
    rw [hcompared.held entity hactive]
    by_cases hheld : Held streamer.entityTracker.knownEntities entity
    · rw [h.entity_of_held hactive hheld, ← htracks entity.id, hheld]
    · rw [h.entity_of_not_held hactive hheld]
      rfl
  · rw [hcompared.others id hid, h.entity_of_not_mem htracks hid]
    rfl

/-- Every supplied chunk is in the snapshot as it was supplied. -/
theorem Emits.chunk_of_mem
    (h : Emits streamer targetTick active modified targetHash delta after) {chunk : MapChunk}
    (hmodified : chunk ∈ modified) :
    after.currentSnapshot.graph.chunks.get? chunk.coord = some chunk := by
  obtain ⟨_, _, _, _, _, _, hsupplied, _⟩ := h.parts
  have hmem : WorldChange.upsertMapChunk chunk ∈ delta.changes :=
    (h.mem_changes_iff _).2 (.inr (.inr (.inl ⟨chunk, hmodified, rfl⟩)))
  have hwritten := lookup_runAll_of_mem (g := streamer.currentSnapshot.graph) hmem
    fun other hother hkey => by
      rcases (h.mem_changes_iff other).1 hother with ⟨found, _, _, rfl⟩ | ⟨id, held, _, _, rfl⟩ |
        ⟨found, hfound, rfl⟩ | ⟨event, _, rfl⟩
      · cases hkey
      · cases hkey
      · rw [List.inj_on_of_nodup_map (chunkMap_fresh hsupplied).1 hfound hmodified
          (RecordKey.chunk.inj hkey)]
      · cases hkey
  rw [← h.graph] at hwritten
  exact WorldGraph.map_chunk_inj.1 hwritten

/-- Every other chunk is as it was. -/
theorem Emits.chunk_of_not_mem
    (h : Emits streamer targetTick active modified targetHash delta after) {coord : ChunkCoord}
    (hout : coord ∉ modified.map MapChunk.coord) :
    after.currentSnapshot.graph.chunks.get? coord =
      streamer.currentSnapshot.graph.chunks.get? coord := by
  have hkept := lookup_runAll_of_forall streamer.currentSnapshot.graph delta.changes
    (.chunk coord) fun other hother hkey => by
      rcases (h.mem_changes_iff other).1 hother with ⟨found, _, _, rfl⟩ | ⟨id, held, _, _, rfl⟩ |
        ⟨found, hfound, rfl⟩ | ⟨event, _, rfl⟩
      · cases hkey
      · cases hkey
      · exact hout (RecordKey.chunk.inj hkey ▸ List.mem_map_of_mem hfound)
      · cases hkey
  rw [← h.graph] at hkept
  exact WorldGraph.map_chunk_inj.1 hkept

/-- Every dirty chunk is in the delta. -/
theorem Emits.dirty
    (h : Emits streamer targetTick active modified targetHash delta after) {coord : ChunkCoord}
    (hdirty : streamer.chunkTracker.isDirty coord = true) :
    ∃ chunk, WorldChange.upsertMapChunk chunk ∈ delta.changes ∧ chunk.coord = coord := by
  obtain ⟨_, _, supplied, taken, _, _, hsupplied, htaken, _⟩ := h.parts
  obtain ⟨chunk, _, hget⟩ := (takeDirty_ok htaken).1 coord ((OMap.mem_keys_iff _ _).2 hdirty)
  obtain ⟨hin, hout⟩ := chunkMap_ok hsupplied
  by_cases hcoord : coord ∈ modified.map MapChunk.coord
  · obtain ⟨other, hother, rfl⟩ := List.mem_map.1 hcoord
    exact ⟨other, (h.mem_changes_iff _).2 (.inr (.inr (.inl ⟨other, hother, rfl⟩))), rfl⟩
  · rw [hout coord hcoord] at hget
    cases hget

/-! ### The true target world -/

/-- A world whose entities are the active ones, under this hash. -/
structure TargetWorld (active : List EntityRecord) (targetHash : Digest32) (truth : WorldSnapshot) :
    Prop where
  entities : ∀ id entity,
    truth.graph.entities.get? id = some entity ↔ entity ∈ active ∧ entity.id = id
  hash : targetHash = truth.computeHash

/-- The entities of the snapshot are the active ones. -/
theorem Emits.contains_iff
    (h : Emits streamer targetTick active modified targetHash delta after)
    (htracks : streamer.Tracks) (id : EntityId) :
    after.currentSnapshot.graph.entities.contains id = true ↔ id ∈ active.map EntityRecord.id := by
  obtain ⟨_, hcompared⟩ := h.compared
  have hknown := h.tracks htracks id
  rw [OMap.contains]
  by_cases hid : id ∈ active.map EntityRecord.id
  · obtain ⟨entity, hactive, rfl⟩ := List.mem_map.1 hid
    rw [hcompared.held entity hactive] at hknown
    refine iff_of_true ?_ hid
    rw [← Option.isSome_map, ← hknown]
    rfl
  · rw [hcompared.others id hid] at hknown
    refine iff_of_false ?_ hid
    rw [← Option.isSome_map, ← hknown]
    exact Bool.false_ne_true

theorem TargetWorld.contains_iff {truth : WorldSnapshot} (h : TargetWorld active targetHash truth)
    (id : EntityId) :
    truth.graph.entities.contains id = true ↔ id ∈ active.map EntityRecord.id := by
  rw [OMap.contains_iff, List.mem_map]
  exact exists_congr (h.entities id)

/-- Lists of pairs with the same first components and the same images of the second ones. -/
theorem map_pair_eq {K V W : Type} {f : V → W} {l m : List (K × V)}
    (hfst : l.map Prod.fst = m.map Prod.fst)
    (hsnd : (l.map Prod.snd).map f = (m.map Prod.snd).map f) :
    l.map (fun e => (e.1, f e.2)) = m.map fun e => (e.1, f e.2) := by
  rw [List.map_map, List.map_map] at hsnd
  have hzip := congrArg₂ List.zip hfst hsnd
  rw [List.zip_map', List.zip_map'] at hzip
  exact hzip

/-- **A true hash gives the true entities**, as far as their bytes tell them apart. -/
theorem Emits.canonical_of_truth
    (h : Emits streamer targetTick active modified targetHash delta after)
    (htracks : streamer.Tracks) {truth : WorldSnapshot}
    (htruth : TargetWorld active targetHash truth)
    (hfree : NoCollision after.currentSnapshot.canonicalBytes truth.canonicalBytes)
    (hlen : after.currentSnapshot.canonicalBytes.length < 2 ^ 64) (id : EntityId) :
    (after.currentSnapshot.graph.entities.get? id).map EntityRecord.canonical =
      (truth.graph.entities.get? id).map EntityRecord.canonical := by
  obtain ⟨_, hafter, hhash⟩ := (applyDelta_ok_iff _ _ _).1 h.applies
  have hself : after.currentSnapshot.stateHash = after.currentSnapshot.computeHash := by
    rw [hafter]
    rfl
  have hbytes : after.currentSnapshot.canonicalBytes = truth.canonicalBytes := by
    refine hfree (hself.symm.trans (hhash.trans (h.declared.trans htruth.hash)))
  have hvalues := WorldSnapshot.entities_of_canonicalBytes hbytes hlen
  have hkeys : after.currentSnapshot.graph.entities.keys = truth.graph.entities.keys :=
    OMap.keys_eq_of_contains fun id => by
      rw [Bool.eq_iff_iff, h.contains_iff htracks, htruth.contains_iff]
  have hsame : after.currentSnapshot.graph.entities.mapValues (fun _ e => e.canonical) =
      truth.graph.entities.mapValues fun _ e => e.canonical := by
    refine OMap.toList_injective _ _ ?_
    rw [OMap.toList_mapValues, OMap.toList_mapValues]
    exact map_pair_eq hkeys hvalues
  have hget := congrArg (fun m => m.get? id) hsame
  rwa [OMap.get?_mapValues, OMap.get?_mapValues] at hget

theorem canonical_of_unaliased {entity : EntityRecord} (h : entity.kind.Unaliased) :
    entity.canonical = entity := by
  rw [EntityRecord.canonical, (EntityKind.canonical_eq_self_iff _).2 h]

/-- Where no kind is borrowed, a true hash gives exactly the true entities. -/
theorem Emits.eq_of_truth
    (h : Emits streamer targetTick active modified targetHash delta after)
    (htracks : streamer.Tracks) {truth : WorldSnapshot}
    (htruth : TargetWorld active targetHash truth)
    (hfree : NoCollision after.currentSnapshot.canonicalBytes truth.canonicalBytes)
    (hlen : after.currentSnapshot.canonicalBytes.length < 2 ^ 64)
    (hactive : ∀ entity ∈ active, entity.kind.Unaliased)
    (hheld : ∀ entity ∈ streamer.currentSnapshot.graph.entities.values, entity.kind.Unaliased) :
    after.currentSnapshot.graph.entities = truth.graph.entities := by
  refine OMap.ext_get? fun id => ?_
  have hsame := h.canonical_of_truth htracks htruth hfree hlen id
  have hafter : ∀ entity, after.currentSnapshot.graph.entities.get? id = some entity →
      entity.kind.Unaliased := by
    intro entity hget
    have hid : id ∈ active.map EntityRecord.id :=
      (h.contains_iff htracks id).1 ((OMap.contains_iff _ _).2 ⟨entity, hget⟩)
    obtain ⟨supplied, hsupplied, rfl⟩ := List.mem_map.1 hid
    by_cases hknown : Held streamer.entityTracker.knownEntities supplied
    · rw [h.entity_of_held hsupplied hknown] at hget
      exact hheld entity ((OMap.mem_values_iff _ _).2 ⟨_, hget⟩)
    · rw [h.entity_of_not_held hsupplied hknown] at hget
      exact Option.some.inj hget ▸ hactive supplied hsupplied
  cases hget : after.currentSnapshot.graph.entities.get? id with
  | none =>
      rw [hget, Option.map_none, eq_comm, Option.map_eq_none_iff] at hsame
      exact hsame.symm
  | some entity =>
      rw [hget, Option.map_some, eq_comm, Option.map_eq_some_iff] at hsame
      obtain ⟨found, hfound, hcanonical⟩ := hsame
      have hmem := ((htruth.entities id found).1 hfound).1
      rw [canonical_of_unaliased (hactive found hmem),
        canonical_of_unaliased (hafter entity hget)] at hcanonical
      rw [hfound, hcanonical]

/-- **What an emit that succeeds says**: its delta applies to the snapshot before it and leads to the
one after it, which has exactly the active identifiers at the active generations and revisions, every
supplied record whose version is new, and every supplied chunk. Its entities are the active ones when
the hash is that of a true target world, up to kinds that borrow a reserved name. -/
structure Emission (streamer : ContinuousDeltaStreamer) (active : List EntityRecord)
    (modified : List MapChunk) (targetHash : Digest32) (delta : StateDelta)
    (after : ContinuousDeltaStreamer) : Prop where
  applies : applyDelta streamer.currentSnapshot delta = .ok after.currentSnapshot
  present : ∀ id, after.currentSnapshot.graph.entities.contains id = true ↔
    id ∈ active.map EntityRecord.id
  versions : ∀ entity ∈ active, ∃ stored,
    after.currentSnapshot.graph.entities.get? entity.id = some stored ∧
      stored.generation = entity.generation ∧ stored.revision = entity.revision
  changed : ∀ entity ∈ active,
    (∀ old, streamer.currentSnapshot.graph.entities.get? entity.id = some old →
      old.generation = entity.generation → old.revision ≠ entity.revision) →
    after.currentSnapshot.graph.entities.get? entity.id = some entity
  canonical : ∀ truth, TargetWorld active targetHash truth →
    NoCollision after.currentSnapshot.canonicalBytes truth.canonicalBytes →
    after.currentSnapshot.canonicalBytes.length < 2 ^ 64 →
    ∀ id, (after.currentSnapshot.graph.entities.get? id).map EntityRecord.canonical =
      (truth.graph.entities.get? id).map EntityRecord.canonical
  exactly : ∀ truth, TargetWorld active targetHash truth →
    NoCollision after.currentSnapshot.canonicalBytes truth.canonicalBytes →
    after.currentSnapshot.canonicalBytes.length < 2 ^ 64 →
    (∀ entity ∈ active, entity.kind.Unaliased) →
    (∀ entity ∈ streamer.currentSnapshot.graph.entities.values, entity.kind.Unaliased) →
    after.currentSnapshot.graph.entities = truth.graph.entities
  supplied : ∀ chunk ∈ modified,
    after.currentSnapshot.graph.chunks.get? chunk.coord = some chunk
  kept : ∀ coord, coord ∉ modified.map MapChunk.coord →
    after.currentSnapshot.graph.chunks.get? coord =
      streamer.currentSnapshot.graph.chunks.get? coord

theorem Emits.emission
    (h : Emits streamer targetTick active modified targetHash delta after)
    (htracks : streamer.Tracks) : Emission streamer active modified targetHash delta after where
  applies := h.applies
  present := h.contains_iff htracks
  versions := fun entity hactive => by
    obtain ⟨_, hcompared⟩ := h.compared
    have hheld : after.entityTracker.knownEntities.get? entity.id = _ :=
      hcompared.held entity hactive
    rw [h.tracks htracks entity.id, Option.map_eq_some_iff] at hheld
    obtain ⟨stored, hget, hversion⟩ := hheld
    exact ⟨stored, hget, Prod.mk.inj hversion⟩
  changed := fun entity hactive hnew => h.entity_of_not_held hactive fun hheld => by
    rw [Held, htracks entity.id, Option.map_eq_some_iff] at hheld
    obtain ⟨old, hget, hversion⟩ := hheld
    obtain ⟨hgeneration, hrevision⟩ := Prod.mk.inj hversion
    exact hnew old hget hgeneration hrevision
  canonical := fun _ => h.canonical_of_truth htracks
  exactly := fun _ => h.eq_of_truth htracks
  supplied := fun _ => h.chunk_of_mem
  kept := fun _ => h.chunk_of_not_mem

end Emission

/-! ## Runs -/

/-- One call of the streamer. -/
inductive Call where
  | markChunkDirty (coord : ChunkCoord)
  | recordEvent (event : WorldEvent)
  | emitNextDelta (targetTick : GameTick) (active : List EntityRecord) (modified : List MapChunk)
      (targetHash : Digest32)

/-- A streamer and the deltas that it emitted. -/
structure Stream where
  streamer : ContinuousDeltaStreamer
  deltas : List StateDelta

def Stream.call (stream : Stream) : Call → Stream
  | .markChunkDirty coord => { stream with streamer := stream.streamer.markChunkDirty coord }
  | .recordEvent event => { stream with streamer := stream.streamer.recordEvent event }
  | .emitNextDelta targetTick active modified targetHash =>
      match exec (emitNextDelta targetTick active modified targetHash) stream.streamer with
      | (.ok delta, after) => ⟨after, stream.deltas ++ [delta]⟩
      | (.error _, after) => ⟨after, stream.deltas⟩

def run (base : WorldSnapshot) (calls : List Call) : Stream :=
  calls.foldl Stream.call ⟨new base, []⟩

/-- The events that were recorded. -/
def Call.event? : Call → Option WorldEvent
  | .recordEvent event => some event
  | _ => none

/-- The events that a delta carries. -/
def eventOf : WorldChange → Option WorldEvent
  | .appendEvent event => some event
  | _ => none

def emittedEvents (deltas : List StateDelta) : List WorldEvent :=
  deltas.flatMap fun delta => delta.changes.filterMap eventOf

/-- An emit either leaves the stream alone or goes on with an emission. -/
theorem Stream.call_emit (stream : Stream) (targetTick : GameTick) (active : List EntityRecord)
    (modified : List MapChunk) (targetHash : Digest32) :
    stream.call (.emitNextDelta targetTick active modified targetHash) = stream ∨
      ∃ delta after, Emits stream.streamer targetTick active modified targetHash delta after ∧
        stream.call (.emitNextDelta targetTick active modified targetHash) =
          ⟨after, stream.deltas ++ [delta]⟩ := by
  have hmeets := meets_emitNextDelta stream.streamer targetTick active modified targetHash
    stream.streamer rfl
  have hcall : stream.call (.emitNextDelta targetTick active modified targetHash) =
      match exec (emitNextDelta targetTick active modified targetHash) stream.streamer with
      | (.ok delta, after) => ⟨after, stream.deltas ++ [delta]⟩
      | (.error _, after) => ⟨after, stream.deltas⟩ := rfl
  rw [hcall]
  cases hexec : exec (emitNextDelta targetTick active modified targetHash) stream.streamer with
  | mk result after =>
      rw [hexec] at hmeets
      cases result with
      | error e =>
          have hsame : after = stream.streamer := hmeets
          rw [hsame]
          exact .inl rfl
      | ok delta => exact .inr ⟨delta, after, hmeets, rfl⟩

/-- The pending events are the events of a delta. -/
theorem Emits.events {streamer after : ContinuousDeltaStreamer} {targetTick : GameTick}
    {active : List EntityRecord} {modified : List MapChunk} {targetHash : Digest32}
    {delta : StateDelta} (h : Emits streamer targetTick active modified targetHash delta after) :
    delta.changes.filterMap eventOf = streamer.eventBuffer.events := by
  obtain ⟨_, changes, _, taken, _, hexec, _, _, hbuild⟩ := h.parts
  obtain ⟨gone, _, hchanges⟩ :=
    ((meets_processEntities streamer.entityTracker active).ok rfl hexec).changes
  obtain ⟨_, _, _, hlisted, _⟩ := (buildDelta_ok_iff _ _ _ _ _).1 hbuild
  have hremovals : (removalsOf streamer.entityTracker.knownEntities gone).filterMap eventOf = [] := by
    rw [List.filterMap_eq_nil_iff]
    intro change hchange
    obtain ⟨id, _, hchange⟩ := List.mem_filterMap.1 hchange
    obtain ⟨held, _, rfl⟩ := Option.map_eq_some_iff.1 hchange
    rfl
  have hnone : ∀ chunks : List MapChunk,
      (chunks.map WorldChange.upsertMapChunk).filterMap eventOf = [] := by
    intro chunks
    rw [List.filterMap_map, List.filterMap_eq_nil_iff]
    exact fun _ _ => rfl
  have hupserts : (upsertsOf streamer.entityTracker.knownEntities active).filterMap eventOf = [] := by
    rw [upsertsOf, List.filterMap_map, List.filterMap_eq_nil_iff]
    exact fun _ _ => rfl
  have hevents : (streamer.eventBuffer.events.map WorldChange.appendEvent).filterMap eventOf =
      streamer.eventBuffer.events := by
    rw [List.filterMap_map]
    exact List.filterMap_some
  rw [hlisted, hchanges, List.filterMap_append, List.filterMap_append, List.filterMap_append,
    List.filterMap_append, hupserts, hremovals, hnone, hnone, hevents]
  rfl

/-- What a run keeps: its deltas replay to the snapshot, which the tracker tracks, and every recorded
event was shed, was emitted, or is pending. -/
structure Stream.Kept (base : WorldSnapshot) (recorded : List WorldEvent) (stream : Stream) : Prop where
  replayed : stream.deltas.foldlM applyDelta base = .ok stream.streamer.currentSnapshot
  tracks : stream.streamer.Tracks
  room : 0 < stream.streamer.eventBuffer.capacity
  events : ∃ shed : List WorldEvent,
    stream.streamer.eventBuffer.shedEventsCount.val = min shed.length (2 ^ 64 - 1) ∧
      (shed ++ emittedEvents stream.deltas ++ stream.streamer.eventBuffer.events).Perm recorded

theorem kept_new (base : WorldSnapshot) : Stream.Kept base [] ⟨new base, []⟩ where
  replayed := rfl
  tracks := tracks_new base
  room := by
    show 0 < (EventRingBuffer.new maxEventBufferCapacity).capacity
    decide
  events := ⟨[], rfl, .refl _⟩

/-- A full buffer sheds its oldest event. -/
theorem Stream.Kept.record {base : WorldSnapshot} {recorded : List WorldEvent} {stream : Stream}
    (h : stream.Kept base recorded) (event : WorldEvent) :
    (stream.call (.recordEvent event)).Kept base (recorded ++ [event]) := by
  obtain ⟨shed, hcount, hperm⟩ := h.events
  have hpushed : ∃ shed' : List WorldEvent,
      (stream.streamer.eventBuffer.pushEvent event).shedEventsCount.val =
        min shed'.length (2 ^ 64 - 1) ∧
      (shed' ++ emittedEvents stream.deltas ++
        (stream.streamer.eventBuffer.pushEvent event).events).Perm (recorded ++ [event]) := by
    unfold EventRingBuffer.pushEvent
    by_cases hfull : stream.streamer.eventBuffer.capacity ≤ stream.streamer.eventBuffer.events.length
    · rw [if_pos hfull]
      cases hevents : stream.streamer.eventBuffer.events with
      | nil =>
          rw [hevents] at hfull
          exact absurd hfull (Nat.not_le.2 h.room)
      | cons oldest rest =>
          refine ⟨shed ++ [oldest], ?_, ?_⟩
          · dsimp only
            rw [U.saturatingAdd_val, hcount, List.length_append, List.length_singleton]
            have hone : (1 : U 64).val = 1 := rfl
            rw [hone]
            omega
          · rw [hevents] at hperm
            have hmoved : (shed ++ [oldest] ++ emittedEvents stream.deltas ++ rest).Perm recorded := by
              refine List.Perm.trans ?_ hperm
              simp only [List.append_assoc, List.singleton_append]
              exact .append_left shed List.perm_middle.symm
            rw [List.drop_one, List.tail_cons, ← List.append_assoc]
            exact hmoved.append_right [event]
    · rw [if_neg hfull]
      refine ⟨shed, hcount, ?_⟩
      rw [← List.append_assoc]
      exact hperm.append_right [event]
  exact
    { replayed := h.replayed
      tracks := h.tracks
      room := by
        have hroom := h.room
        show 0 < (stream.streamer.eventBuffer.pushEvent event).capacity
        unfold EventRingBuffer.pushEvent
        split <;> exact hroom
      events := hpushed }

theorem Stream.Kept.emit {base : WorldSnapshot} {recorded : List WorldEvent} {stream : Stream}
    (h : stream.Kept base recorded) {targetTick : GameTick} {active : List EntityRecord}
    {modified : List MapChunk} {targetHash : Digest32} {delta : StateDelta}
    {after : ContinuousDeltaStreamer}
    (hemits : Emits stream.streamer targetTick active modified targetHash delta after) :
    Stream.Kept base recorded ⟨after, stream.deltas ++ [delta]⟩ where
  replayed := by
    rw [List.foldlM_append, h.replayed]
    show (applyDelta stream.streamer.currentSnapshot delta >>= fun s => pure s) = _
    rw [hemits.applies]
    rfl
  tracks := hemits.tracks h.tracks
  room := by
    rw [hemits.emptied]
    exact h.room
  events := by
    obtain ⟨shed, hcount, hperm⟩ := h.events
    refine ⟨shed, ?_, ?_⟩
    · rw [hemits.emptied]
      exact hcount
    · rw [hemits.emptied, emittedEvents, List.flatMap_append, List.flatMap_singleton, hemits.events,
        List.append_nil, ← List.append_assoc]
      exact hperm

theorem Stream.Kept.call {base : WorldSnapshot} {recorded : List WorldEvent} {stream : Stream}
    (h : stream.Kept base recorded) (call : Call) :
    (stream.call call).Kept base (recorded ++ call.event?.toList) := by
  cases call with
  | markChunkDirty coord =>
      show Stream.Kept base (recorded ++ []) _
      rw [List.append_nil]
      exact ⟨h.replayed, h.tracks, h.room, h.events⟩
  | recordEvent event => exact h.record event
  | emitNextDelta targetTick active modified targetHash =>
      show Stream.Kept base (recorded ++ []) _
      rw [List.append_nil]
      rcases stream.call_emit targetTick active modified targetHash with hsame | ⟨delta, after, hemits, heq⟩
      · rw [hsame]
        exact h
      · rw [heq]
        exact h.emit hemits

theorem kept_run (base : WorldSnapshot) (calls : List Call) :
    (run base calls).Kept base (calls.filterMap Call.event?) := by
  induction calls using List.reverseRecOn with
  | nil => exact kept_new base
  | append_singleton calls call ih =>
      have hlast : [call].filterMap Call.event? = call.event?.toList := by
        cases hevent : call.event? <;> simp [hevent]
      rw [run, List.foldl_concat, List.filterMap_append, hlast]
      exact ih.call call

/-- **A dirty chunk stays dirty until a delta carries it.** -/
theorem dirty_or_emitted (stream : Stream) {coord : ChunkCoord}
    (hdirty : stream.streamer.chunkTracker.isDirty coord = true) (calls : List Call) :
    ∃ fresh, (calls.foldl Stream.call stream).deltas = stream.deltas ++ fresh ∧
      ((calls.foldl Stream.call stream).streamer.chunkTracker.isDirty coord = true ∨
        ∃ delta ∈ fresh, ∃ chunk, WorldChange.upsertMapChunk chunk ∈ delta.changes ∧
          chunk.coord = coord) := by
  induction calls using List.reverseRecOn with
  | nil => exact ⟨[], (List.append_nil _).symm, .inl hdirty⟩
  | append_singleton calls call ih =>
      obtain ⟨fresh, hdeltas, hkept⟩ := ih
      rw [List.foldl_concat]
      cases call with
      | markChunkDirty other =>
          refine ⟨fresh, hdeltas, hkept.imp_left fun hold => ?_⟩
          rw [DirtyChunkTracker.isDirty] at hold
          simp [Stream.call, markChunkDirty, DirtyChunkTracker.markDirty, DirtyChunkTracker.isDirty,
            hold]
      | recordEvent event => exact ⟨fresh, hdeltas, hkept⟩
      | emitNextDelta targetTick active modified targetHash =>
          rcases (calls.foldl Stream.call stream).call_emit targetTick active modified targetHash with
            hsame | ⟨delta, after, hemits, heq⟩
          · rw [hsame]
            exact ⟨fresh, hdeltas, hkept⟩
          · rw [heq]
            refine ⟨fresh ++ [delta], ?_, .inr ?_⟩
            · dsimp only
              rw [hdeltas, List.append_assoc]
            · rcases hkept with hold | ⟨earlier, hearlier, hcarried⟩
              · exact ⟨delta, List.mem_append_right _ (List.mem_singleton_self _), hemits.dirty hold⟩
              · exact ⟨earlier, List.mem_append_left _ hearlier, hcarried⟩

end ContinuousDeltaStreamer

/-! ## The theorem -/

open ContinuousDeltaStreamer

/-- **Continuous delta streaming is faithful.** After every run, the deltas replay from the base to
the snapshot, whose versions are what the entity tracker knows; a chunk that was marked dirty is still
dirty or is in a delta emitted since; every recorded event was shed and counted, was emitted, or is
pending; and the next emit either succeeds with an emission or leaves the streamer as it is. -/
theorem continuous_streaming_faithful (base : WorldSnapshot) (calls : List Call) :
    (run base calls).deltas.foldlM applyDelta base = .ok (run base calls).streamer.currentSnapshot ∧
    (run base calls).streamer.Tracks ∧
    (∀ before coord later, calls = before ++ .markChunkDirty coord :: later →
      (run base calls).streamer.chunkTracker.isDirty coord = true ∨
        ∃ delta ∈ (run base calls).deltas.drop (run base before).deltas.length,
          ∃ chunk, WorldChange.upsertMapChunk chunk ∈ delta.changes ∧ chunk.coord = coord) ∧
    (∃ shed : List WorldEvent,
      (run base calls).streamer.eventBuffer.shedEventsCount.val = min shed.length (2 ^ 64 - 1) ∧
        (shed ++ emittedEvents (run base calls).deltas ++
          (run base calls).streamer.eventBuffer.events).Perm (calls.filterMap Call.event?)) ∧
    ∀ targetTick active modified targetHash,
      Meets (· = (run base calls).streamer) (emitNextDelta targetTick active modified targetHash)
        (fun delta after =>
          Emission (run base calls).streamer active modified targetHash delta after)
        fun _ after => after = (run base calls).streamer := by
  have hkept := kept_run base calls
  refine ⟨hkept.replayed, hkept.tracks, fun before coord later hcalls => ?_, hkept.events,
    fun targetTick active modified targetHash => ?_⟩
  · have hrun : run base calls =
        later.foldl Stream.call ((run base before).call (.markChunkDirty coord)) := by
      rw [run, hcalls, List.foldl_append, List.foldl_cons]
      rfl
    have hdirty : ((run base before).call
        (.markChunkDirty coord)).streamer.chunkTracker.isDirty coord = true := by
      simp [Stream.call, markChunkDirty, DirtyChunkTracker.markDirty, DirtyChunkTracker.isDirty]
    obtain ⟨fresh, hdeltas, hemitted⟩ := dirty_or_emitted _ hdirty later
    rw [← hrun] at hdeltas hemitted
    have hold : ((run base before).call (.markChunkDirty coord)).deltas =
        (run base before).deltas := rfl
    rw [hdeltas, hold, List.drop_left]
    exact hemitted
  · exact (meets_emitNextDelta _ targetTick active modified targetHash).conseq (fun _ h => h)
      (fun _ _ hemits => hemits.emission hkept.tracks) fun _ _ h => h

/-! ## A borrowed kind -/

/-- An emit whose parts are known. -/
theorem ContinuousDeltaStreamer.Emits.exec {streamer after : ContinuousDeltaStreamer}
    {targetTick : GameTick} {active : List EntityRecord} {modified : List MapChunk}
    {targetHash : Digest32} {delta : StateDelta}
    (h : Emits streamer targetTick active modified targetHash delta after) :
    exec (emitNextDelta targetTick active modified targetHash) streamer = (.ok delta, after) := by
  obtain ⟨cursor, changes, supplied, taken, hcursor, hexec, hsupplied, htaken, hbuild⟩ := h.parts
  have hget : ∀ f : ContinuousDeltaStreamer → Method DfmcpError ContinuousDeltaStreamer StateDelta,
      Method.exec (get >>= f) streamer = Method.exec (f streamer) streamer := fun _ => rfl
  have hof : ∀ {α : Type} {x : Result α} {a : α} (_ : x = .ok a)
      (f : α → Method DfmcpError ContinuousDeltaStreamer StateDelta),
      Method.exec (Method.of x >>= f) streamer = Method.exec (f a) streamer := by
    intro α x a hx f
    rw [hx]
    rfl
  have hpass : ∀ {bad : Prop} [Decidable bad] {e : DfmcpError} (_ : ¬ bad)
      (f : PUnit → Method DfmcpError ContinuousDeltaStreamer StateDelta),
      Method.exec (rejectIf bad e >>= f) streamer = Method.exec (f ⟨⟩) streamer := by
    intro bad _ e hbad f
    rw [rejectIf, if_neg hbad]
    rfl
  have hopen : ¬ (targetTick < streamer.currentSnapshot.tick ∨ targetHash = Digest32.zero) :=
    not_or.2 ⟨not_lt.2 h.tick, h.hash⟩
  have hdrained : takeDirty streamer.chunkTracker.drainDirty.1 supplied = .ok taken := htaken
  unfold emitNextDelta
  rw [hget, hpass hopen, hof hcursor]
  dsimp only
  rw [hexec, hof rfl, hof hsupplied, hof hdrained]
  rw [show streamer.eventBuffer.drainEvents.1 = streamer.eventBuffer.events from rfl, hof hbuild,
    hpass (not_not.2 h.declared), hof h.applies]
  have hafter : after = ⟨after.currentSnapshot, .new, after.entityTracker,
      { streamer.eventBuffer with events := [] }⟩ := by
    rw [← h.drained, ← h.emptied]
  exact congrArg (Prod.mk (Except.ok delta)) hafter.symm

namespace Streaming

/-- The unit of the small world, under a kind that borrows the name of units. -/
def borrowed : EntityRecord := { Sample.entity 1 1 with kind := .other "unit" }

/-- A world with the unit, and the true world when it is supplied under the borrowed kind. -/
def base : WorldSnapshot := Sample.snapshot 0 (Sample.entities [Sample.entity 1 1])

def truth : WorldSnapshot := Sample.snapshot 1 (Sample.entities [borrowed])

/-- The world that is kept. -/
def kept : WorldSnapshot := Sample.snapshot 1 (Sample.entities [Sample.entity 1 1])

/-- A delta that lists nothing, under the hash of the true world. -/
def silence : StateDelta :=
  ⟨1, ⟨0, 0⟩, ⟨0, 1⟩, base.stateHash, truth.stateHash, 0, [], false, none⟩

theorem canonicalBytes_silence :
    (base.advancedBy silence).canonicalBytes = truth.canonicalBytes := by decide

theorem stateHash_truth : truth.stateHash = truth.computeHash :=
  (WorldSnapshot.hashIsValid_iff truth).1 (Sample.snapshot_hashIsValid 1 _)

theorem fits_silence : silence.Fits base where
  hash := Sample.snapshot_hashIsValid 0 _
  complete := rfl
  closed := rfl
  bounded := Nat.zero_le _
  fortress := rfl
  baseCursor := rfl
  baseHash := rfl
  cursor := rfl
  tick := le_refl _
  changes := by decide

theorem buildDelta_silence : buildDelta base ⟨0, 1⟩ 0 [] = .ok silence := by
  refine (buildDelta_ok_iff _ _ _ _ _).2 ⟨fits_silence, rfl, rfl, rfl, ?_⟩
  rw [WorldSnapshot.computeHash, canonicalBytes_silence]
  exact stateHash_truth

theorem hash_ne_zero : truth.stateHash ≠ Digest32.zero := by decide +kernel

theorem emits_silence :
    Emits (new base) 0 [borrowed] [] truth.stateHash silence { new base with currentSnapshot := kept }
    where
  tick := le_refl _
  hash := hash_ne_zero
  parts := ⟨⟨0, 1⟩, [], .nil, ([], .nil), rfl, rfl, rfl, rfl, buildDelta_silence⟩
  declared := rfl
  applies := applyDelta_of_buildDelta buildDelta_silence
  drained := rfl
  emptied := rfl

/-- **A borrowed kind is not stored**: under the hash of a true target world an emit succeeds, and
the snapshot holds another record than the one supplied. -/
theorem borrowed_kind_kept :
    TargetWorld [borrowed] truth.stateHash truth ∧
      ∃ delta after,
        exec (emitNextDelta 0 [borrowed] [] truth.stateHash) (new base) = (.ok delta, after) ∧
        after.currentSnapshot.graph.entities.get? borrowed.id ≠ some borrowed := by
  refine ⟨⟨fun id entity => ?_, rfl⟩, silence, _, emits_silence.exec, by decide⟩
  have hget : truth.graph.entities.get? id = if id = 1 then some borrowed else none :=
    OMap.get?_insert .nil 1 borrowed id
  rw [hget, List.mem_singleton]
  by_cases hid : id = 1
  · rw [if_pos hid, hid]
    constructor
    · intro h
      obtain rfl := Option.some.inj h
      exact ⟨rfl, rfl⟩
    · intro h
      rw [h.1]
  · rw [if_neg hid]
    constructor
    · intro h
      cases h
    · intro h
      obtain ⟨rfl, h⟩ := h
      exact absurd h.symm hid

end Streaming

end Dfmcp
