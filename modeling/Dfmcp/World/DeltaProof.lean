import Dfmcp.World.Records

/-!
# Diff and apply are inverse

A diff lists one change for every slot where the two snapshots disagree, so its changes do not
see each other and each is admitted or refused on the base record alone. That settles both
directions at once: when `diffSnapshots` succeeds (`diffSnapshots_ok_iff`), and that applying
what it returns gives back the target (`applyDelta_diff`).

The one thing a diff cannot express is the `paused` flag: the reconstruction keeps the base's,
and only the closing comparison of hashes notices. So `paused` enters through
`NoCollision`, on the target's bytes with either flag.
-/

namespace Dfmcp

open Machine Replay

/-! ## What it takes -/

/-- The dimensions are nonzero, the runs cover the tiles and the overlays lie inside. -/
structure MapChunk.Valid (chunk : MapChunk) : Prop where
  width : chunk.width ≠ 0
  height : chunk.height ≠ 0
  covered : chunk.encodedTileCount = some chunk.tileCount
  overlays : ∀ offset ∈ chunk.sparseOverlays.keys, offset < chunk.tileCount

theorem validateChunk_ok_iff (chunk : MapChunk) : validateChunk chunk = .ok () ↔ chunk.Valid := by
  unfold validateChunk
  by_cases hdim : chunk.width = 0 ∨ chunk.height = 0
  · rw [if_pos hdim]
    refine iff_of_false (by simp) ?_
    rintro ⟨hw, hh, -, -⟩
    exact hdim.elim hw hh
  · rw [if_neg hdim]
    by_cases hcov : chunk.encodedTileCount = some chunk.tileCount
    · rw [if_neg (not_not.2 hcov)]
      by_cases hover : chunk.sparseOverlays.keys.any fun offset => chunk.tileCount ≤ offset
      · rw [if_pos hover]
        refine iff_of_false (by simp) fun hv => ?_
        obtain ⟨offset, hmem, hle⟩ := List.any_eq_true.1 hover
        exact absurd (hv.overlays offset hmem) (not_lt.2 (of_decide_eq_true hle))
      · rw [if_neg hover]
        refine iff_of_true rfl ⟨fun h => hdim (.inl h), fun h => hdim (.inr h), hcov, ?_⟩
        intro offset hmem
        by_contra hlt
        exact hover (List.any_eq_true.2 ⟨offset, hmem, by simpa using hlt⟩)
    · rw [if_pos hcov]
      exact iff_of_false (by simp) fun hv => hcov hv.covered

instance (chunk : MapChunk) : Decidable chunk.Valid :=
  decidable_of_iff _ (validateChunk_ok_iff chunk)

/-- The slots where two graphs disagree. -/
def changedKeys (base target : WorldGraph) : Set RecordKey :=
  {k | base.lookup k ≠ target.lookup k}

/-- Every record of `t` that is new or changed is acceptable, and advances the one it replaces. -/
def Advance {K V : Type} [LinearOrder K] (b t : BTreeMap K V) (acceptable : K → V → Prop)
    (advances : V → V → Prop) : Prop :=
  ∀ k new, t.get? k = some new → b.get? k ≠ some new →
    acceptable k new ∧ ∀ old, b.get? k = some old → advances new old

instance {K V : Type} [LinearOrder K] [DecidableEq V] (b t : BTreeMap K V)
    (acceptable : K → V → Prop) (advances : V → V → Prop) [∀ k v, Decidable (acceptable k v)]
    [∀ v w, Decidable (advances v w)] : Decidable (Advance b t acceptable advances) :=
  decidable_of_iff _ (OMap.forall_get?_iff t (p := fun k new => b.get? k ≠ some new →
    acceptable k new ∧ ∀ old, b.get? k = some old → advances new old)).symm

/-- Published events stay as they are. -/
def EventsPersist (base target : WorldGraph) : Prop :=
  ∀ id event, base.events.get? id = some event → target.events.get? id = some event

instance (base target : WorldGraph) : Decidable (EventsPersist base target) :=
  decidable_of_iff _ (OMap.forall_get?_iff base.events).symm

/-- The changes of a graph that a delta can describe. -/
structure LegalChange (base target : WorldGraph) : Prop where
  events : EventsPersist base target
  eventIds : ∀ id event, target.events.get? id = some event → id ≠ 0
  entities : Advance base.entities target.entities (fun id _ => id ≠ 0) EntityRecord.Advances
  edges : Advance base.edges target.edges (fun id _ => id ≠ 0)
    fun new old => old.revision < new.revision
  chunks : Advance base.chunks target.chunks (fun _ chunk => chunk.Valid)
    fun new old => old.revision < new.revision
  endpoints : target.EndpointsExist
  count : (changedKeys base target).ncard ≤ maxStateDeltaChanges

/-- The transitions a delta can describe. -/
structure Diffable (base target : WorldSnapshot) : Prop where
  fortress : target.fortressId = base.fortressId
  cursor : base.cursor.checkedNext = some target.cursor
  tick : base.tick ≤ target.tick
  paused : target.paused = base.paused
  graph : LegalChange base.graph target.graph

/-! ## The changes of a diff -/

section OneMap

variable {K V : Type} [LinearOrder K] {b t : BTreeMap K V} {c : WorldChange}

theorem removal_eq_some_iff {remove : K → V → WorldChange} {e : K × V} :
    removal t remove e = some c ↔ t.get? e.1 = none ∧ c = remove e.1 e.2 := by
  unfold removal
  cases ht : t.get? e.1 <;> simp [OMap.contains, ht, eq_comm]

theorem upsertion_eq_some_iff [DecidableEq V] {upsert : V → WorldChange} {e : K × V} :
    upsertion b upsert e = some c ↔ b.get? e.1 ≠ some e.2 ∧ c = upsert e.2 := by
  unfold upsertion
  cases hb : b.get? e.1 with
  | none => simp [eq_comm]
  | some old => by_cases hold : old = e.2 <;> simp [hold, eq_comm]

theorem mem_removals_iff {remove : K → V → WorldChange} :
    c ∈ removals b t remove ↔
      ∃ k v, b.get? k = some v ∧ t.get? k = none ∧ c = remove k v := by
  simp only [removals, List.mem_filterMap, removal_eq_some_iff, Prod.exists, OMap.mem_toList_iff]

theorem mem_upserts_iff [DecidableEq V] {upsert : V → WorldChange} :
    c ∈ upserts b t upsert ↔
      ∃ k v, t.get? k = some v ∧ b.get? k ≠ some v ∧ c = upsert v := by
  simp only [upserts, List.mem_filterMap, upsertion_eq_some_iff, Prod.exists, OMap.mem_toList_iff]

/-- The part of a diff that is about one map. -/
def mapChanges [DecidableEq V] (b t : BTreeMap K V) (remove : K → V → WorldChange)
    (upsert : V → WorldChange) : List WorldChange :=
  removals b t remove ++ upserts b t upsert

theorem mem_mapChanges_iff [DecidableEq V] {remove : K → V → WorldChange}
    {upsert : V → WorldChange} :
    c ∈ mapChanges b t remove upsert ↔
      (∃ k v, b.get? k = some v ∧ t.get? k = none ∧ c = remove k v) ∨
      ∃ k v, t.get? k = some v ∧ b.get? k ≠ some v ∧ c = upsert v := by
  rw [mapChanges, List.mem_append, mem_removals_iff, mem_upserts_iff]

/-- How one of the graph's maps sits among the slots, and how its changes are keyed. -/
structure Keyed (t : BTreeMap K V) (tag : K → RecordKey) (remove : K → V → WorldChange)
    (upsert : V → WorldChange) : Prop where
  injective : Function.Injective tag
  remove : ∀ k v, (remove k v).key = tag k
  upsert : ∀ k v, t.get? k = some v → (upsert v).key = tag k

variable [DecidableEq V] {tag : K → RecordKey} {remove : K → V → WorldChange}
  {upsert : V → WorldChange}

/-- Removals and upserts name exactly the keys where the maps disagree. -/
theorem Keyed.mem_keys_iff (hk : Keyed t tag remove upsert) (key : RecordKey) :
    key ∈ (mapChanges b t remove upsert).map WorldChange.key ↔
      ∃ k, key = tag k ∧ b.get? k ≠ t.get? k := by
  simp only [List.mem_map, mem_mapChanges_iff]
  constructor
  · rintro ⟨c, ⟨k, v, hb, ht, rfl⟩ | ⟨k, v, ht, hb, rfl⟩, rfl⟩
    · exact ⟨k, hk.remove k v, by rw [hb, ht]; simp⟩
    · exact ⟨k, hk.upsert k v ht, by rw [ht]; exact hb⟩
  · rintro ⟨k, rfl, hne⟩
    cases ht : t.get? k with
    | some v => exact ⟨upsert v, .inr ⟨k, v, ht, fun hb => hne (hb.trans ht.symm), rfl⟩,
        hk.upsert k v ht⟩
    | none =>
        cases hb : b.get? k with
        | none => exact absurd (hb.trans ht.symm) hne
        | some v => exact ⟨remove k v, .inl ⟨k, v, hb, ht, rfl⟩, hk.remove k v⟩

theorem Keyed.nodup (hk : Keyed t tag remove upsert) :
    ((mapChanges b t remove upsert).map WorldChange.key).Nodup := by
  rw [mapChanges, List.map_append, List.nodup_append]
  refine ⟨?_, ?_, ?_⟩
  · rw [List.Nodup, List.pairwise_map, removals]
    refine b.toList_sorted.filterMap _ fun x y hlt c hc c' hc' hkey => ?_
    rw [(removal_eq_some_iff.1 hc).2, (removal_eq_some_iff.1 hc').2, hk.remove, hk.remove] at hkey
    exact hlt.ne (hk.injective hkey)
  · rw [List.Nodup, List.pairwise_map, upserts]
    have hsorted : t.toList.Pairwise fun x y => x ∈ t.toList ∧ y ∈ t.toList ∧ x.1 < y.1 :=
      t.toList_sorted.imp_of_mem fun hx hy hxy => ⟨hx, hy, hxy⟩
    refine hsorted.filterMap _ fun x y hxy c hc c' hc' hkey => ?_
    obtain ⟨hx, hy, hlt⟩ := hxy
    rw [(upsertion_eq_some_iff.1 hc).2, (upsertion_eq_some_iff.1 hc').2,
      hk.upsert x.1 x.2 ((OMap.mem_toList_iff t _ _).1 hx),
      hk.upsert y.1 y.2 ((OMap.mem_toList_iff t _ _).1 hy)] at hkey
    exact hlt.ne (hk.injective hkey)
  · intro x hx y hy hxy
    obtain ⟨c, hc, rfl⟩ := List.mem_map.1 hx
    obtain ⟨c', hc', rfl⟩ := List.mem_map.1 hy
    obtain ⟨k, v, -, hnone, rfl⟩ := mem_removals_iff.1 hc
    obtain ⟨k', v', hsome, -, rfl⟩ := mem_upserts_iff.1 hc'
    rw [hk.remove, hk.upsert k' v' hsome] at hxy
    rw [hk.injective hxy, hsome] at hnone
    cases hnone

/-- Removals are always admitted; an upsert is when it advances the record it replaces. -/
theorem Keyed.admits_iff (hk : Keyed t tag remove upsert) {g : WorldGraph}
    {acceptable : K → V → Prop} {advances : V → V → Prop}
    (hremove : ∀ k v, b.get? k = some v → (remove k v).Admits (g.lookup (tag k)))
    (hupsert : ∀ k v, t.get? k = some v → ((upsert v).Admits (g.lookup (tag k)) ↔
      acceptable k v ∧ ∀ old, b.get? k = some old → advances v old ∨ v = old)) :
    (∀ c ∈ mapChanges b t remove upsert, c.Admits (g.lookup c.key)) ↔
      Advance b t acceptable advances := by
  constructor
  · intro h k new hnew hne
    have hadm := h _ (mem_mapChanges_iff.2 (.inr ⟨k, new, hnew, hne, rfl⟩))
    rw [hk.upsert k new hnew, hupsert k new hnew] at hadm
    refine ⟨hadm.1, fun old hold => (hadm.2 old hold).resolve_right ?_⟩
    rintro rfl
    exact hne hold
  · intro h c hc
    rcases mem_mapChanges_iff.1 hc with ⟨k, old, hold, -, rfl⟩ | ⟨k, new, hnew, hne, rfl⟩
    · rw [hk.remove]
      exact hremove k old hold
    · obtain ⟨hacc, hadv⟩ := h k new hnew hne
      rw [hk.upsert k new hnew, hupsert k new hnew]
      exact ⟨hacc, fun old hold => .inl (hadv old hold)⟩

end OneMap

theorem mem_newEvents_iff {b t : BTreeMap EventId WorldEvent} {c : WorldChange} :
    c ∈ newEvents b t ↔
      ∃ k v, t.get? k = some v ∧ b.get? k = none ∧ c = .appendEvent v := by
  rw [newEvents, List.mem_filterMap]
  constructor
  · rintro ⟨⟨k, v⟩, hmem, hc⟩
    cases hb : b.get? k with
    | some old => simp [OMap.contains, hb] at hc
    | none =>
        simp only [OMap.contains, hb, Option.isSome_none, Bool.false_eq_true, if_false,
          Option.some.injEq] at hc
        exact ⟨k, v, (OMap.mem_toList_iff t k v).1 hmem, hb, hc.symm⟩
  · rintro ⟨k, v, ht, hb, rfl⟩
    exact ⟨(k, v), (OMap.mem_toList_iff t k v).2 ht, by simp [OMap.contains, hb]⟩

theorem checkEvents_ok_iff (t : BTreeMap EventId WorldEvent) (es : List (EventId × WorldEvent)) :
    checkEvents t es = .ok () ↔ ∀ x ∈ es, t.get? x.1 = some x.2 := by
  induction es with
  | nil => simp [checkEvents]
  | cons x es ih =>
      rw [checkEvents, List.forall_mem_cons]
      cases ht : t.get? x.1 with
      | none => simp
      | some e => by_cases he : e = x.2 <;> simp [he, ih]

section WholeGraph

variable {b t : WorldGraph}

theorem keyed_entities (ht : t.KeysMatch) : Keyed t.entities .entity
    (fun id entity => .removeEntity id entity.generation entity.revision) .upsertEntity where
  injective _ _ h := RecordKey.entity.inj h
  remove _ _ := rfl
  upsert k v h := congrArg RecordKey.entity (ht.entities k v h)

theorem keyed_edges (ht : t.KeysMatch) : Keyed t.edges .edge
    (fun id edge => .removeEdge id edge.revision) .upsertEdge where
  injective _ _ h := RecordKey.edge.inj h
  remove _ _ := rfl
  upsert k v h := congrArg RecordKey.edge (ht.edges k v h)

theorem keyed_chunks (ht : t.KeysMatch) : Keyed t.chunks .chunk
    (fun coord chunk => .removeMapChunk coord chunk.revision) .upsertMapChunk where
  injective _ _ h := RecordKey.chunk.inj h
  remove _ _ := rfl
  upsert k v h := congrArg RecordKey.chunk (ht.chunks k v h)

/-- The diff, map by map. -/
theorem diffChanges_eq (b t : WorldGraph) : diffChanges b t =
    mapChanges b.entities t.entities
        (fun id entity => .removeEntity id entity.generation entity.revision) .upsertEntity ++
      (mapChanges b.edges t.edges (fun id edge => .removeEdge id edge.revision) .upsertEdge ++
        (mapChanges b.chunks t.chunks (fun coord chunk => .removeMapChunk coord chunk.revision)
            .upsertMapChunk ++
          newEvents b.events t.events)) := by
  simp only [diffChanges, mapChanges, List.append_assoc]

theorem mem_newEvents_keys_iff (ht : t.KeysMatch) (key : RecordKey) :
    key ∈ (newEvents b.events t.events).map WorldChange.key ↔
      ∃ id, key = .event id ∧ b.events.get? id = none ∧ ∃ e, t.events.get? id = some e := by
  simp only [List.mem_map, mem_newEvents_iff]
  constructor
  · rintro ⟨c, ⟨id, e, hte, hbe, rfl⟩, rfl⟩
    exact ⟨id, congrArg RecordKey.event (ht.events id e hte), hbe, e, hte⟩
  · rintro ⟨id, rfl, hbe, e, hte⟩
    exact ⟨_, ⟨id, e, hte, hbe, rfl⟩, congrArg RecordKey.event (ht.events id e hte)⟩

/-- A diff names exactly the slots where the graphs disagree. -/
theorem mem_diffChanges_keys_iff (ht : t.KeysMatch) (hev : EventsPersist b t) (k : RecordKey) :
    k ∈ (diffChanges b t).map WorldChange.key ↔ k ∈ changedKeys b t := by
  rw [diffChanges_eq, List.map_append, List.map_append, List.map_append, List.mem_append,
    List.mem_append, List.mem_append, (keyed_entities ht).mem_keys_iff,
    (keyed_edges ht).mem_keys_iff, (keyed_chunks ht).mem_keys_iff, mem_newEvents_keys_iff ht,
    changedKeys, Set.mem_ofPred_eq]
  cases k with
  | entity id => simp [WorldGraph.map_entity_inj]
  | edge id => simp [WorldGraph.map_edge_inj]
  | chunk coord => simp [WorldGraph.map_chunk_inj]
  | event id =>
      simp only [reduceCtorEq, false_and, exists_false, RecordKey.event.injEq, false_or,
        WorldGraph.lookup_event, ne_eq, WorldGraph.map_event_inj, exists_eq_left']
      constructor
      · rintro ⟨hb, e, hte⟩
        simp [hb, hte]
      · intro hne
        cases hb : b.events.get? id with
        | some e => exact absurd (hb.trans (hev id e hb).symm) hne
        | none =>
            rw [hb] at hne
            exact ⟨rfl, Option.ne_none_iff_exists'.1 (Ne.symm hne)⟩

theorem newEvents_nodup (ht : t.KeysMatch) :
    ((newEvents b.events t.events).map WorldChange.key).Nodup := by
  rw [List.Nodup, List.pairwise_map, newEvents]
  have hsorted : t.events.toList.Pairwise fun x y =>
      x ∈ t.events.toList ∧ y ∈ t.events.toList ∧ x.1 < y.1 :=
    t.events.toList_sorted.imp_of_mem fun hx hy hxy => ⟨hx, hy, hxy⟩
  refine hsorted.filterMap _ fun x y hxy c hc c' hc' hkey => ?_
  obtain ⟨hx, hy, hlt⟩ := hxy
  simp only [Option.ite_none_left_eq_some, Option.some.injEq] at hc hc'
  rw [← hc.2, ← hc'.2] at hkey
  have hid : x.2.id = y.2.id := RecordKey.event.inj hkey
  rw [ht.events x.1 x.2 ((OMap.mem_toList_iff _ _ _).1 hx),
    ht.events y.1 y.2 ((OMap.mem_toList_iff _ _ _).1 hy)] at hid
  exact hlt.ne hid

/-- A diff changes each slot at most once. -/
theorem diffChanges_nodup (ht : t.KeysMatch) :
    ((diffChanges b t).map WorldChange.key).Nodup := by
  have hentity := keyed_entities ht
  have hedge := keyed_edges ht
  have hchunk := keyed_chunks ht
  simp only [diffChanges_eq, List.map_append, List.nodup_append, List.mem_append,
    hentity.mem_keys_iff, hedge.mem_keys_iff, hchunk.mem_keys_iff, mem_newEvents_keys_iff ht]
  refine ⟨hentity.nodup, ⟨hedge.nodup, ⟨hchunk.nodup, newEvents_nodup ht, ?_⟩, ?_⟩, ?_⟩
  · rintro _ ⟨k, rfl, -⟩ _ ⟨k', rfl, -⟩
    simp
  · rintro _ ⟨k, rfl, -⟩ _ (⟨k', rfl, -⟩ | ⟨k', rfl, -⟩) <;> simp
  · rintro _ ⟨k, rfl, -⟩ _ (⟨k', rfl, -⟩ | ⟨k', rfl, -⟩ | ⟨k', rfl, -⟩) <;> simp

/-- One change for every slot where the graphs disagree. -/
theorem length_diffChanges (ht : t.KeysMatch) (hev : EventsPersist b t) :
    (diffChanges b t).length = (changedKeys b t).ncard := by
  have hset : changedKeys b t = ((diffChanges b t).map WorldChange.key).toFinset := by
    ext k
    rw [List.coe_toFinset, Set.mem_ofPred_eq, mem_diffChanges_keys_iff ht hev]
  rw [hset, Set.ncard_coe_finset, List.toFinset_card_of_nodup (diffChanges_nodup ht),
    List.length_map]

/-- Each change of a diff writes what the target has. -/
theorem diffChanges_written (ht : t.KeysMatch) {c : WorldChange} (hc : c ∈ diffChanges b t) :
    c.written = t.lookup c.key := by
  simp only [diffChanges_eq, List.mem_append, mem_mapChanges_iff, mem_newEvents_iff] at hc
  rcases hc with (⟨k, v, -, hk, rfl⟩ | ⟨k, v, hk, -, rfl⟩) |
    (⟨k, v, -, hk, rfl⟩ | ⟨k, v, hk, -, rfl⟩) | (⟨k, v, -, hk, rfl⟩ | ⟨k, v, hk, -, rfl⟩) |
    ⟨k, v, hk, -, rfl⟩
  · simp [WorldChange.written, WorldChange.key, hk]
  · simp [WorldChange.written, WorldChange.key, ht.entities k v hk, hk]
  · simp [WorldChange.written, WorldChange.key, hk]
  · simp [WorldChange.written, WorldChange.key, ht.edges k v hk, hk]
  · simp [WorldChange.written, WorldChange.key, hk]
  · simp [WorldChange.written, WorldChange.key, ht.chunks k v hk, hk]
  · simp [WorldChange.written, WorldChange.key, ht.events k v hk, hk]

/-- **Running a diff reconstructs the target.** -/
theorem runAll_diffChanges (ht : t.KeysMatch) (hev : EventsPersist b t) :
    runAll b (diffChanges b t) = t := by
  apply WorldGraph.ext_lookup
  intro k
  rw [lookup_runAll, replay_eq_last]
  by_cases hk : k ∈ changedKeys b t
  · obtain ⟨c, hc, rfl⟩ := List.mem_map.1 ((mem_diffChanges_keys_iff ht hev k).2 hk)
    have hnd : ((writes (diffChanges b t)).map Prod.fst).Nodup := by
      rw [writes, List.map_map]
      exact diffChanges_nodup ht
    rw [last_of_nodup hnd (List.mem_map.2 ⟨c, hc, rfl⟩), Option.getD_some,
      diffChanges_written ht hc]
  · have hnone : last (writes (diffChanges b t)) k = none := by
      rw [last_eq_none_iff]
      rintro ⟨w, hw, rfl⟩
      obtain ⟨c, hc, rfl⟩ := List.mem_map.1 hw
      exact hk ((mem_diffChanges_keys_iff ht hev _).1 (List.mem_map.2 ⟨c, hc, rfl⟩))
    rw [hnone, Option.getD_none]
    exact not_not.1 hk

theorem newEvents_admits (ht : t.KeysMatch) {c : WorldChange}
    (hc : c ∈ newEvents b.events t.events) : c.Admits (b.lookup c.key) := by
  obtain ⟨id, e, hte, hbe, rfl⟩ := mem_newEvents_iff.1 hc
  intro old hold
  rw [WorldChange.key, ht.events id e hte, WorldGraph.lookup_event, hbe] at hold
  cases hold

/-- Which diffs are admitted. -/
theorem admitted_diffChanges_iff (ht : t.KeysMatch) :
    Admitted b (diffChanges b t) ↔
      Advance b.entities t.entities (fun id _ => id ≠ 0) EntityRecord.Advances ∧
      Advance b.edges t.edges (fun id _ => id ≠ 0) (fun new old => old.revision < new.revision) ∧
      Advance b.chunks t.chunks (fun _ chunk => chunk.Valid)
        (fun new old => old.revision < new.revision) := by
  rw [admitted_iff_of_nodup (diffChanges_nodup ht), diffChanges_eq, List.forall_mem_append,
    List.forall_mem_append, List.forall_mem_append]
  have hevents : ∀ c ∈ newEvents b.events t.events, c.Admits (b.lookup c.key) :=
    fun c hc => newEvents_admits ht hc
  rw [iff_true_intro hevents, and_true]
  refine and_congr ((keyed_entities ht).admits_iff ?_ ?_)
    (and_congr ((keyed_edges ht).admits_iff ?_ ?_) ((keyed_chunks ht).admits_iff ?_ ?_))
  · exact fun id old hold => ⟨old, by simp [hold], rfl, rfl⟩
  · intro id new hnew
    simp [WorldChange.Admits, ht.entities id new hnew]
  · exact fun id old hold => ⟨old, by simp [hold], rfl⟩
  · intro id new hnew
    simp [WorldChange.Admits, ht.edges id new hnew]
  · exact fun coord old hold => ⟨old, by simp [hold], rfl⟩
  · intro coord new hnew
    simp [WorldChange.Admits, validateChunk_ok_iff]

end WholeGraph

/-! ## Diffing and applying -/

/-- What a diff of the two snapshots looks like, when there is one. -/
def deltaBetween (base target : WorldSnapshot) : StateDelta where
  fortressId := base.fortressId
  baseCursor := base.cursor
  targetCursor := target.cursor
  baseHash := base.stateHash
  targetHash := target.stateHash
  targetTick := target.tick
  changes := diffChanges base.graph target.graph
  truncated := false
  continuation := none

/-- The same state with another flag. -/
def WorldSnapshot.withPaused (s : WorldSnapshot) (paused : Bool) : WorldSnapshot :=
  { s with paused }

/-- The flag is one byte at a fixed place. -/
theorem canonicalBytes_paused_inj (s : WorldSnapshot) (p q : Bool) :
    (s.withPaused p).canonicalBytes = (s.withPaused q).canonicalBytes ↔ p = q := by
  simp only [WorldSnapshot.withPaused, WorldSnapshot.canonicalBytes, List.append_cancel_left_eq,
    List.append_cancel_right_eq, putBool]
  cases p <;> cases q <;> simp

section Diff

variable {base target : WorldSnapshot}

/-- What a diff reconstructs: the target under the base's flag. -/
theorem refreshHash_advancedBy_deltaBetween (ht : target.graph.KeysMatch)
    (hev : EventsPersist base.graph target.graph) (hfort : target.fortressId = base.fortressId) :
    (base.advancedBy (deltaBetween base target)).refreshHash =
      (target.withPaused base.paused).refreshHash := by
  simp only [WorldSnapshot.advancedBy, WorldSnapshot.withPaused, deltaBetween,
    runAll_diffChanges ht hev, WorldSnapshot.refreshHash, WorldSnapshot.computeHash, WorldSnapshot.canonicalBytes, hfort]

/-- **Which diffs are accepted as a whole.** -/
theorem applicable_diffChanges_iff {b t : WorldGraph} (ht : t.KeysMatch) (hev : EventsPersist b t) :
    Applicable b (diffChanges b t) ∧ (diffChanges b t).length ≤ maxStateDeltaChanges ↔
      LegalChange b t := by
  rw [length_diffChanges ht hev]
  constructor
  · rintro ⟨⟨hadm, hend, hkeyed⟩, hcount⟩
    rw [runAll_diffChanges ht hev] at hend hkeyed
    obtain ⟨hent, hedge, hchunk⟩ := (admitted_diffChanges_iff ht).1 hadm
    exact ⟨hev, fun id event he => (hkeyed id event he).1, hent, hedge, hchunk, hend, hcount⟩
  · intro h
    refine ⟨⟨(admitted_diffChanges_iff ht).2 ⟨h.entities, h.edges, h.chunks⟩, ?_, ?_⟩, h.count⟩
    · rw [runAll_diffChanges ht hev]
      exact h.endpoints
    · rw [runAll_diffChanges ht hev]
      exact fun id event he => ⟨h.eventIds id event he, ht.events id event he⟩

/-- Two hash-valid snapshots that differ at most in the flag have the same hash only if the
flags agree. -/
theorem stateHash_eq_iff_paused (htarget : target.hashIsValid = true) {p : Bool}
    (hfree : NoCollision (target.withPaused p).canonicalBytes
      target.canonicalBytes) :
    (target.withPaused p).computeHash = target.stateHash ↔
      target.paused = p := by
  rw [(WorldSnapshot.hashIsValid_iff target).1 htarget]
  constructor
  · intro h
    exact ((canonicalBytes_paused_inj target p target.paused).1 (hfree h)).symm
  · rintro rfl
    rfl

/-- The delta between two snapshots fits the first. -/
theorem Diffable.fits (h : Diffable base target) (hbase : base.hashIsValid = true)
    (ht : target.graph.KeysMatch) : (deltaBetween base target).Fits base := by
  obtain ⟨happ, hcount⟩ := (applicable_diffChanges_iff ht h.graph.events).2 h.graph
  exact ⟨hbase, rfl, rfl, hcount, rfl, rfl, rfl, h.cursor, h.tick, happ⟩

theorem Diffable.refreshHash_advancedBy (h : Diffable base target)
    (htarget : target.hashIsValid = true) (ht : target.graph.KeysMatch) :
    (base.advancedBy (deltaBetween base target)).refreshHash = target := by
  rw [refreshHash_advancedBy_deltaBetween ht h.graph.events h.fortress, ← h.paused]
  exact WorldSnapshot.refreshHash_eq_self htarget

/-- What a diff has checked when it succeeds, read off its code. -/
theorem diffSnapshots_eq_ok {d : StateDelta} :
    diffSnapshots base target = .ok d ↔
      base.hashIsValid = true ∧ target.hashIsValid = true ∧
      target.fortressId = base.fortressId ∧ EventsPersist base.graph target.graph ∧
      buildDelta base target.cursor target.tick (diffChanges base.graph target.graph) = .ok d ∧
      d.targetHash = target.stateHash := by
  have hevents : checkEvents target.graph.events base.graph.events.toList = .ok () ↔
      EventsPersist base.graph target.graph := by
    rw [checkEvents_ok_iff, EventsPersist, OMap.forall_get?_iff]
  simp only [diffSnapshots, computeSnapshotDiff, guard_ok_iff, bind_ok_iff, pure_ok_iff,
    Unique.exists_iff, hevents, not_or, not_not]
  constructor
  · rintro ⟨cs, ⟨⟨hb, ht⟩, hfort, hev, rfl⟩, d', hd, hhash, rfl⟩
    exact ⟨hb, ht, hfort, hev, hd, hhash⟩
  · rintro ⟨hb, ht, hfort, hev, hd, hhash⟩
    exact ⟨_, ⟨⟨hb, ht⟩, hfort, hev, rfl⟩, d, hd, hhash, rfl⟩

/-- **When a diff succeeds**, and the delta it returns. -/
theorem diffSnapshots_ok_iff (hbase : base.hashIsValid = true) (htarget : target.hashIsValid = true)
    (ht : target.graph.KeysMatch)
    (hfree : NoCollision
      (target.withPaused base.paused).canonicalBytes target.canonicalBytes)
    (d : StateDelta) :
    diffSnapshots base target = .ok d ↔ Diffable base target ∧ d = deltaBetween base target := by
  rw [diffSnapshots_eq_ok]
  constructor
  · rintro ⟨-, -, hfort, hev, hd, hhash⟩
    obtain ⟨hfits, hcursor, htick, hchanges, htargetHash⟩ := (buildDelta_ok_iff _ _ _ _ _).1 hd
    have hd' : d = deltaBetween base target := by
      obtain ⟨fortressId, baseCursor, targetCursor, baseHash, targetHash, targetTick, changes,
        truncated, continuation⟩ := d
      simp only [deltaBetween, StateDelta.mk.injEq]
      exact ⟨hfits.fortress, hfits.baseCursor, hcursor, hfits.baseHash, hhash, htick, hchanges,
        hfits.complete, hfits.closed⟩
    subst hd'
    have hpaused : target.paused = base.paused := by
      refine (stateHash_eq_iff_paused htarget hfree).1 ?_
      rw [← hhash, htargetHash]
      exact congrArg WorldSnapshot.stateHash
        (refreshHash_advancedBy_deltaBetween ht hev hfort).symm
    exact ⟨⟨hfort, hfits.cursor, hfits.tick, hpaused,
      (applicable_diffChanges_iff ht hev).1 ⟨hfits.changes, hfits.bounded⟩⟩, rfl⟩
  · rintro ⟨h, rfl⟩
    have hhash := congrArg WorldSnapshot.stateHash (h.refreshHash_advancedBy htarget ht)
    exact ⟨hbase, htarget, h.fortress, h.graph.events, (buildDelta_ok_iff _ _ _ _ _).2
      ⟨h.fits hbase ht, rfl, rfl, rfl, hhash.symm⟩, rfl⟩

/-- **Applying the delta between two snapshots gives the second.** -/
theorem applyDelta_deltaBetween (hbase : base.hashIsValid = true)
    (htarget : target.hashIsValid = true) (ht : target.graph.KeysMatch)
    (h : Diffable base target) : applyDelta base (deltaBetween base target) = .ok target :=
  (applyDelta_ok_iff _ _ _).2
    ⟨h.fits hbase ht, (h.refreshHash_advancedBy htarget ht).symm, rfl⟩

/-- **Diff and apply are inverse, and diff is complete.** Between hash-valid snapshots whose
records sit under their own identifiers, a diff exists exactly for the transitions of
`Diffable`, and applying it gives the target. -/
theorem diffSnapshots_complete (hbase : base.hashIsValid = true)
    (htarget : target.hashIsValid = true) (ht : target.graph.KeysMatch)
    (hfree : NoCollision
      (target.withPaused base.paused).canonicalBytes
      target.canonicalBytes) :
    ((∃ d, diffSnapshots base target = .ok d) ↔ Diffable base target) ∧
      ∀ d, diffSnapshots base target = .ok d → applyDelta base d = .ok target := by
  simp only [diffSnapshots_ok_iff hbase htarget ht hfree]
  refine ⟨by simp, ?_⟩
  rintro d ⟨h, rfl⟩
  exact applyDelta_deltaBetween hbase htarget ht h

end Diff

/-- Between small graphs, whether a change is legal is decided field by field. -/
theorem LegalChange.of_decide {base target : WorldGraph} (hkeys : target.KeysMatch)
    (hevents : EventsPersist base target) (hids : ∀ e ∈ target.events.toList, e.1 ≠ 0)
    (hentities : Advance base.entities target.entities (fun id _ => id ≠ 0) EntityRecord.Advances)
    (hedges : Advance base.edges target.edges (fun id _ => id ≠ 0)
      fun new old => old.revision < new.revision)
    (hchunks : Advance base.chunks target.chunks (fun _ chunk => chunk.Valid)
      fun new old => old.revision < new.revision)
    (hendpoints : target.EndpointsExist)
    (hcount : (diffChanges base target).length ≤ maxStateDeltaChanges) :
    LegalChange base target :=
  ⟨hevents, (OMap.forall_get?_iff _).2 hids, hentities, hedges, hchunks, hendpoints,
    length_diffChanges hkeys hevents ▸ hcount⟩

/-- One entity advances and one is new. -/
theorem diffSnapshots_complete_advance :
    let base := Sample.snapshot 0 (Sample.entities [Sample.entity 1 1])
    let target := Sample.snapshot 1 (Sample.entities [Sample.entity 1 2, Sample.entity 2 0])
    ∃ d, diffSnapshots base target = .ok d ∧ applyDelta base d = .ok target := by
  intro base target
  have hkeys : target.graph.KeysMatch := by decide
  have hlegal : LegalChange base.graph target.graph := .of_decide hkeys (by decide) (by decide)
    (by decide) (by decide) (by decide) (by decide) (by decide)
  have hbase : base.hashIsValid = true := Sample.snapshot_hashIsValid _ _
  have htarget : target.hashIsValid = true := Sample.snapshot_hashIsValid _ _
  obtain ⟨hiff, happly⟩ := diffSnapshots_complete hbase htarget hkeys (NoCollision.of_eq rfl)
  obtain ⟨d, hd⟩ := hiff.2 ⟨rfl, by decide, le_rfl, rfl, hlegal⟩
  exact ⟨d, hd, happly d hd⟩

/-- A record that does not change is not checked: here an entity under the nil identifier. -/
theorem diffSnapshots_keeps_nil :
    let base := Sample.snapshot 0 (Sample.entities [Sample.entity 0 0])
    let target := Sample.snapshot 1 (Sample.entities [Sample.entity 0 0])
    base.hashIsValid = true ∧ target.hashIsValid = true ∧ base.graph.KeysMatch ∧
      target.graph.KeysMatch ∧ (∃ d, diffSnapshots base target = .ok d) ∧
      target.graph.entities.contains 0 = true := by
  intro base target
  have hkeys : target.graph.KeysMatch := by decide
  have hlegal : LegalChange base.graph target.graph := .of_decide hkeys (by decide) (by decide)
    (by decide) (by decide) (by decide) (by decide) (by decide)
  have hdiff : Diffable base target := ⟨rfl, by decide, le_rfl, rfl, hlegal⟩
  exact ⟨Sample.snapshot_hashIsValid _ _, Sample.snapshot_hashIsValid _ _, by decide, hkeys,
    ⟨_, (diffSnapshots_ok_iff (Sample.snapshot_hashIsValid _ _) (Sample.snapshot_hashIsValid _ _)
      hkeys (NoCollision.of_eq rfl) _).2 ⟨hdiff, rfl⟩⟩, by decide⟩

end Dfmcp
