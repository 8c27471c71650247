import Dfmcp.World.Delta
import Dfmcp.Library.Replay

/-!
# Change lists as logs of keyed writes

The four maps of a graph are one store: a `RecordKey` names a slot of any of them and
`WorldGraph.lookup` reads it. Seen this way every `WorldChange` is one write to one slot, and
whether it is accepted depends on nothing but the record in that slot (`WorldChange.Admits`).

* `applyChange_ok_iff` — a change is applied exactly when it is admitted, and then performs its
  write;
* `applyEach_ok_iff` — a change list is applied exactly when each change is admitted in turn;
* `lookup_runAll_eq_last` — afterwards every slot holds its last write, or what it had.

Everything about diffs, rebases and witnesses is proved from these, never from the seven arms
of `applyChange`.
-/

namespace Dfmcp

open Machine Replay

/-! ## One store for the four maps -/

inductive RecordKey where
  | entity (id : EntityId)
  | edge (id : EdgeId)
  | chunk (coord : ChunkCoord)
  | event (id : EventId)
deriving DecidableEq

inductive WorldRecord where
  | entity (record : EntityRecord)
  | edge (record : EdgeRecord)
  | chunk (chunk : MapChunk)
  | event (event : WorldEvent)
deriving DecidableEq

/-- The record in a slot. -/
def WorldGraph.lookup (g : WorldGraph) : RecordKey → Option WorldRecord
  | .entity id => (g.entities.get? id).map .entity
  | .edge id => (g.edges.get? id).map .edge
  | .chunk coord => (g.chunks.get? coord).map .chunk
  | .event id => (g.events.get? id).map .event

namespace WorldGraph

variable {g h : WorldGraph}

@[simp] theorem lookup_entity (g : WorldGraph) (id : EntityId) :
    g.lookup (.entity id) = (g.entities.get? id).map .entity := rfl
@[simp] theorem lookup_edge (g : WorldGraph) (id : EdgeId) :
    g.lookup (.edge id) = (g.edges.get? id).map .edge := rfl
@[simp] theorem lookup_chunk (g : WorldGraph) (coord : ChunkCoord) :
    g.lookup (.chunk coord) = (g.chunks.get? coord).map .chunk := rfl
@[simp] theorem lookup_event (g : WorldGraph) (id : EventId) :
    g.lookup (.event id) = (g.events.get? id).map .event := rfl

/-- The constructors of `WorldRecord` tell records apart, so lookups agree on one map exactly
when the map's own lookups do. -/
theorem map_entity_inj {a b : Option EntityRecord} :
    a.map WorldRecord.entity = b.map WorldRecord.entity ↔ a = b :=
  (Option.map_injective fun _ _ h => WorldRecord.entity.inj h).eq_iff
theorem map_edge_inj {a b : Option EdgeRecord} :
    a.map WorldRecord.edge = b.map WorldRecord.edge ↔ a = b :=
  (Option.map_injective fun _ _ h => WorldRecord.edge.inj h).eq_iff
theorem map_chunk_inj {a b : Option MapChunk} :
    a.map WorldRecord.chunk = b.map WorldRecord.chunk ↔ a = b :=
  (Option.map_injective fun _ _ h => WorldRecord.chunk.inj h).eq_iff
theorem map_event_inj {a b : Option WorldEvent} :
    a.map WorldRecord.event = b.map WorldRecord.event ↔ a = b :=
  (Option.map_injective fun _ _ h => WorldRecord.event.inj h).eq_iff

/-- **A graph is its lookups.** -/
theorem ext_lookup (hgh : ∀ k, g.lookup k = h.lookup k) : g = h := by
  have hentities : g.entities = h.entities :=
    OMap.ext_get? fun id => map_entity_inj.1 (hgh (.entity id))
  have hedges : g.edges = h.edges := OMap.ext_get? fun id => map_edge_inj.1 (hgh (.edge id))
  have hchunks : g.chunks = h.chunks :=
    OMap.ext_get? fun coord => map_chunk_inj.1 (hgh (.chunk coord))
  have hevents : g.events = h.events := OMap.ext_get? fun id => map_event_inj.1 (hgh (.event id))
  cases g
  cases h
  simp_all

end WorldGraph

/-! ## A change is one write -/

namespace WorldChange

/-- The slot a change writes. -/
def key : WorldChange → RecordKey
  | .upsertEntity record => .entity record.id
  | .removeEntity id _ _ => .entity id
  | .upsertEdge record => .edge record.id
  | .removeEdge id _ => .edge id
  | .upsertMapChunk chunk => .chunk chunk.coord
  | .removeMapChunk coord _ => .chunk coord
  | .appendEvent event => .event event.id

/-- What the slot holds afterwards. -/
def written : WorldChange → Option WorldRecord
  | .upsertEntity record => some (.entity record)
  | .removeEntity _ _ _ => none
  | .upsertEdge record => some (.edge record)
  | .removeEdge _ _ => none
  | .upsertMapChunk chunk => some (.chunk chunk)
  | .removeMapChunk _ _ => none
  | .appendEvent event => some (.event event)

/-- A change as an entry of a log. -/
def toWrite (c : WorldChange) : RecordKey × Option WorldRecord := (c.key, c.written)

/-- The graph with the change's write performed. -/
def run (c : WorldChange) (g : WorldGraph) : WorldGraph :=
  match c with
  | .upsertEntity record => { g with entities := g.entities.insert record.id record }
  | .removeEntity id _ _ => { g with entities := g.entities.erase id }
  | .upsertEdge record => { g with edges := g.edges.insert record.id record }
  | .removeEdge id _ => { g with edges := g.edges.erase id }
  | .upsertMapChunk chunk => { g with chunks := g.chunks.insert chunk.coord chunk }
  | .removeMapChunk coord _ => { g with chunks := g.chunks.erase coord }
  | .appendEvent event => { g with events := g.events.insert event.id event }

end WorldChange

/-- `(generation, revision)` advances lexicographically. -/
def EntityRecord.Advances (new old : EntityRecord) : Prop :=
  old.generation < new.generation ∨ old.generation = new.generation ∧ old.revision < new.revision

instance (new old : EntityRecord) : Decidable (new.Advances old) :=
  inferInstanceAs (Decidable (_ ∨ _))

/-- The test a change makes on the record in its slot. -/
def WorldChange.Admits : WorldChange → Option WorldRecord → Prop
  | .upsertEntity record, slot =>
      record.id ≠ 0 ∧ ∀ old, slot = some (.entity old) → record.Advances old ∨ record = old
  | .removeEntity _ generation revision, slot =>
      ∃ old, slot = some (.entity old) ∧ old.generation = generation ∧ old.revision = revision
  | .upsertEdge record, slot =>
      record.id ≠ 0 ∧ ∀ old, slot = some (.edge old) → old.revision < record.revision ∨ record = old
  | .removeEdge _ revision, slot => ∃ old, slot = some (.edge old) ∧ old.revision = revision
  | .upsertMapChunk chunk, slot =>
      validateChunk chunk = .ok () ∧
        ∀ old, slot = some (.chunk old) → old.revision < chunk.revision ∨ chunk = old
  | .removeMapChunk _ revision, slot => ∃ old, slot = some (.chunk old) ∧ old.revision = revision
  | .appendEvent event, slot => ∀ old, slot = some (.event old) → old = event

theorem lookup_run (c : WorldChange) (g : WorldGraph) (k : RecordKey) :
    (c.run g).lookup k = if k = c.key then c.written else g.lookup k := by
  cases c <;> cases k <;>
    simp only [WorldChange.run, WorldChange.key, WorldChange.written, WorldGraph.lookup_entity,
      WorldGraph.lookup_edge, WorldGraph.lookup_chunk, WorldGraph.lookup_event, OMap.get?_insert,
      OMap.get?_erase, RecordKey.entity.injEq, RecordKey.edge.injEq, RecordKey.chunk.injEq,
      RecordKey.event.injEq, reduceCtorEq, if_false] <;>
    split <;> rfl

/-- Writing what is there already changes nothing. -/
theorem run_eq_self {c : WorldChange} {g : WorldGraph} (h : g.lookup c.key = c.written) :
    c.run g = g := by
  apply WorldGraph.ext_lookup
  intro k
  rw [lookup_run]
  split
  · rename_i hk
    rw [hk, h]
  · rfl

/-! ## When a change is accepted -/

theorem validateEntityUpsert_ok_iff (s : WorldSnapshot) (record : EntityRecord) :
    validateEntityUpsert s record = .ok () ↔
      (WorldChange.upsertEntity record).Admits (s.graph.lookup (.entity record.id)) := by
  unfold validateEntityUpsert
  simp only [WorldChange.Admits, EntityRecord.Advances, WorldGraph.lookup_entity]
  by_cases hid : record.id = 0
  · simp [hid]
  · cases hold : s.graph.entities.get? record.id with
    | none => simp [hid]
    | some old =>
        simp only [hid, if_false, Option.map_some, Option.some.injEq, WorldRecord.entity.injEq,
          forall_eq', ne_eq, not_false_eq_true, true_and]
        rcases lt_trichotomy record.generation old.generation with hg | hg | hg
        · simp only [hg, if_true, reduceCtorEq, false_iff, not_or, not_and, not_lt]
          exact ⟨⟨hg.le, fun h => absurd h hg.ne'⟩, fun h => hg.ne (by rw [h])⟩
        · rcases lt_trichotomy record.revision old.revision with hr | hr | hr
          · have hne : record ≠ old := fun h => hr.ne (by rw [h])
            simp [hg, hr, hr.le, hne]
          · by_cases hro : record = old
            · simp [hro]
            · simp [hg, hr, hro]
          · simp [hg, hr, hr.not_gt, hr.ne']
        · simp [hg, hg.not_gt, hg.ne']

theorem validateEdgeUpsert_ok_iff (s : WorldSnapshot) (record : EdgeRecord) :
    validateEdgeUpsert s record = .ok () ↔
      (WorldChange.upsertEdge record).Admits (s.graph.lookup (.edge record.id)) := by
  unfold validateEdgeUpsert
  simp only [WorldChange.Admits, WorldGraph.lookup_edge]
  by_cases hid : record.id = 0
  · simp [hid]
  · cases hold : s.graph.edges.get? record.id with
    | none => simp [hid]
    | some old =>
        simp only [hid, if_false, Option.map_some, Option.some.injEq, WorldRecord.edge.injEq,
          forall_eq', ne_eq, not_false_eq_true, true_and]
        rcases lt_trichotomy record.revision old.revision with hr | hr | hr
        · have hne : record ≠ old := fun h => hr.ne (by rw [h])
          simp [hr, hr.le, hne]
        · by_cases hro : record = old
          · simp [hro]
          · simp [hr, hro]
        · simp [hr, hr.not_gt, hr.ne']

/-- **A change is applied exactly when its slot admits it, and then performs its write.** -/
theorem applyChange_ok_iff (s s' : WorldSnapshot) (c : WorldChange) :
    applyChange s c = .ok s' ↔
      c.Admits (s.graph.lookup c.key) ∧ s' = { s with graph := c.run s.graph } := by
  cases c with
  | upsertEntity record =>
      simp only [applyChange, check_ok_iff, WorldChange.key, ← validateEntityUpsert_ok_iff]
      simp [WorldChange.run, pure, Except.pure, eq_comm]
  | removeEntity id generation revision =>
      simp only [applyChange, WorldChange.key, WorldChange.Admits, WorldGraph.lookup_entity]
      cases hold : s.graph.entities.get? id with
      | none => simp
      | some old =>
          by_cases hx : old.generation = generation ∧ old.revision = revision
          · simp [hx, WorldChange.run, eq_comm]
          · have hx' : old.generation ≠ generation ∨ old.revision ≠ revision := by tauto
            simp [hx, hx']
  | upsertEdge record =>
      simp only [applyChange, check_ok_iff, WorldChange.key, ← validateEdgeUpsert_ok_iff]
      simp [WorldChange.run, pure, Except.pure, eq_comm]
  | removeEdge id revision =>
      simp only [applyChange, WorldChange.key, WorldChange.Admits, WorldGraph.lookup_edge]
      cases hold : s.graph.edges.get? id with
      | none => simp
      | some old =>
          by_cases hx : old.revision = revision
          · simp [hx, WorldChange.run, eq_comm]
          · simp [hx]
  | upsertMapChunk chunk =>
      simp only [applyChange, check_ok_iff, WorldChange.key, WorldChange.Admits,
        WorldGraph.lookup_chunk]
      cases hold : s.graph.chunks.get? chunk.coord with
      | none => simp [WorldChange.run, eq_comm]
      | some old =>
          rcases lt_trichotomy chunk.revision old.revision with hr | hr | hr
          · have hne : chunk ≠ old := fun h => hr.ne (by rw [h])
            simp [hr, hr.le, hne]
          · by_cases hco : chunk = old
            · simp [hco, WorldChange.run, eq_comm]
            · simp [hr, hco]
          · simp [hr, hr.not_gt, hr.ne', WorldChange.run, eq_comm]
  | removeMapChunk coord revision =>
      simp only [applyChange, WorldChange.key, WorldChange.Admits, WorldGraph.lookup_chunk]
      cases hold : s.graph.chunks.get? coord with
      | none => simp
      | some old =>
          by_cases hx : old.revision = revision
          · simp [hx, WorldChange.run, eq_comm]
          · simp [hx]
  | appendEvent event =>
      simp only [applyChange, WorldChange.key, WorldChange.Admits, WorldGraph.lookup_event]
      cases hold : s.graph.events.get? event.id with
      | none => simp [WorldChange.run, eq_comm]
      | some old =>
          by_cases hx : old = event
          · have hself : (WorldChange.appendEvent event).run s.graph = s.graph :=
              run_eq_self (by simp [WorldChange.key, WorldChange.written, hold, hx])
            simp [hx, hself]
            exact eq_comm
          · simp [hx]

/-! ## Change lists -/

/-- Perform every write of a change list. -/
def runAll (g : WorldGraph) (cs : List WorldChange) : WorldGraph := cs.foldl (fun g c => c.run g) g

/-- Each change is admitted by the state the earlier ones left. -/
def Admitted : WorldGraph → List WorldChange → Prop
  | _, [] => True
  | g, c :: cs => c.Admits (g.lookup c.key) ∧ Admitted (c.run g) cs

/-- The writes of a change list. -/
def writes (cs : List WorldChange) : List (RecordKey × Option WorldRecord) :=
  cs.map WorldChange.toWrite

/-- **A change list is applied exactly when each change is admitted in turn.** -/
theorem applyEach_ok_iff (s s' : WorldSnapshot) (cs : List WorldChange) :
    applyEach s cs = .ok s' ↔
      Admitted s.graph cs ∧ s' = { s with graph := runAll s.graph cs } := by
  induction cs generalizing s with
  | nil => simp [applyEach, Admitted, runAll, eq_comm]
  | cons c cs ih =>
      rw [applyEach, bind_ok_iff]
      constructor
      · rintro ⟨t, hc, hcs⟩
        obtain ⟨hadm, rfl⟩ := (applyChange_ok_iff s t c).1 hc
        obtain ⟨hadms, rfl⟩ := (ih _).1 hcs
        exact ⟨⟨hadm, hadms⟩, rfl⟩
      · rintro ⟨⟨hadm, hadms⟩, rfl⟩
        exact ⟨_, (applyChange_ok_iff s _ c).2 ⟨hadm, rfl⟩, (ih _).2 ⟨hadms, rfl⟩⟩

theorem lookup_runAll (g : WorldGraph) (cs : List WorldChange) :
    (runAll g cs).lookup = replay g.lookup (writes cs) := by
  induction cs generalizing g with
  | nil => rfl
  | cons c cs ih =>
      have hrun : (c.run g).lookup = Function.update g.lookup c.key c.written := by
        funext k
        rw [lookup_run, Function.update_apply]
      change (runAll (c.run g) cs).lookup = _
      rw [ih, hrun]
      rfl

/-- **Every slot holds its last write, or what it had.** -/
theorem lookup_runAll_eq_last (g : WorldGraph) (cs : List WorldChange) (k : RecordKey) :
    (runAll g cs).lookup k = (last (writes cs) k).getD (g.lookup k) := by
  rw [lookup_runAll, replay_eq_last]

/-- Changes to distinct slots do not see each other. -/
theorem admitted_iff_of_nodup {g : WorldGraph} {cs : List WorldChange}
    (hnd : (cs.map WorldChange.key).Nodup) :
    Admitted g cs ↔ ∀ c ∈ cs, c.Admits (g.lookup c.key) := by
  induction cs generalizing g with
  | nil => simp [Admitted]
  | cons c cs ih =>
      rw [List.map_cons, List.nodup_cons] at hnd
      rw [Admitted, ih hnd.2, List.forall_mem_cons]
      refine and_congr_right fun _ => forall₂_congr fun d hd => ?_
      have hne : d.key ≠ c.key := fun h => hnd.1 (h ▸ List.mem_map.2 ⟨d, hd, rfl⟩)
      rw [lookup_run, if_neg hne]

/-! ## The closing check -/

/-- Both endpoints of every edge are entities of the graph. -/
def WorldGraph.EndpointsExist (g : WorldGraph) : Prop :=
  ∀ k e, g.edges.get? k = some e →
    g.entities.contains e.fromId = true ∧ g.entities.contains e.toId = true

instance (g : WorldGraph) : Decidable g.EndpointsExist :=
  decidable_of_iff _ (OMap.forall_get?_iff g.edges).symm

/-- Every event is stored under its own nonzero identifier. -/
def WorldGraph.EventsKeyed (g : WorldGraph) : Prop :=
  ∀ k e, g.events.get? k = some e → k ≠ 0 ∧ e.id = k

theorem validateEdges_ok_iff (s : WorldSnapshot) (es : List EdgeRecord) :
    validateEdges s es = .ok () ↔
      ∀ e ∈ es, s.graph.entities.contains e.fromId = true ∧
        s.graph.entities.contains e.toId = true := by
  induction es with
  | nil => simp [validateEdges]
  | cons e es ih =>
      rw [validateEdges, List.forall_mem_cons]
      by_cases he : s.graph.entities.contains e.fromId = true ∧
          s.graph.entities.contains e.toId = true
      · simp [he, ih]
      · have he' : ¬ s.graph.entities.contains e.fromId = true ∨
            ¬ s.graph.entities.contains e.toId = true := by tauto
        rw [if_pos he']
        simp [he]

theorem validateEvents_ok_iff (es : List (EventId × WorldEvent)) :
    validateEvents es = .ok () ↔ ∀ x ∈ es, x.1 ≠ 0 ∧ x.2.id = x.1 := by
  induction es with
  | nil => simp [validateEvents]
  | cons x es ih =>
      obtain ⟨id, event⟩ := x
      rw [validateEvents, List.forall_mem_cons]
      by_cases hid : id = 0
      · simp [hid]
      · by_cases hev : event.id = id
        · simp [hid, hev, ih]
        · simp [hid, hev]

theorem validateGraph_ok_iff (s : WorldSnapshot) :
    validateGraph s = .ok () ↔ s.graph.EndpointsExist ∧ s.graph.EventsKeyed := by
  rw [validateGraph, check_ok_iff]
  simp only [validateEdges_ok_iff, validateEvents_ok_iff, WorldGraph.EndpointsExist,
    WorldGraph.EventsKeyed, OMap.mem_values_iff]
  refine and_congr ?_ ?_
  · exact ⟨fun h k e he => h e ⟨k, he⟩, fun h e ⟨k, he⟩ => h k e he⟩
  · exact ⟨fun h k e he => h (k, e) ((OMap.mem_toList_iff _ k e).2 he),
      fun h x hx => h x.1 x.2 ((OMap.mem_toList_iff _ x.1 x.2).1 hx)⟩

/-- A change list that a graph accepts as a whole. -/
structure Applicable (g : WorldGraph) (cs : List WorldChange) : Prop where
  admitted : Admitted g cs
  endpoints : (runAll g cs).EndpointsExist
  events : (runAll g cs).EventsKeyed

/-- **`applyChanges` sees only the graph.** -/
theorem applyChanges_ok_iff (s s' : WorldSnapshot) (cs : List WorldChange) :
    applyChanges s cs = .ok s' ↔
      Applicable s.graph cs ∧ s' = { s with graph := runAll s.graph cs } := by
  rw [applyChanges, bind_ok_iff]
  constructor
  · rintro ⟨t, ht, hv⟩
    obtain ⟨hgraph, hpure⟩ := check_ok_iff.1 hv
    obtain ⟨hadm, rfl⟩ := (applyEach_ok_iff s t cs).1 ht
    obtain ⟨hend, hev⟩ := (validateGraph_ok_iff _).1 hgraph
    exact ⟨⟨hadm, hend, hev⟩, (pure_ok_iff.1 hpure).symm⟩
  · rintro ⟨⟨hadm, hend, hev⟩, rfl⟩
    exact ⟨_, (applyEach_ok_iff s _ cs).2 ⟨hadm, rfl⟩,
      check_ok_iff.2 ⟨(validateGraph_ok_iff _).2 ⟨hend, hev⟩, rfl⟩⟩

/-- Whether a list is accepted is decided by applying it. -/
instance (g : WorldGraph) (cs : List WorldChange) : Decidable (Applicable g cs) :=
  decidable_of_iff ((applyChanges ⟨0, 0, ⟨0, 0⟩, false, g, Digest32.zero⟩ cs).isOk = true)
    (by simp only [isOk_iff, applyChanges_ok_iff, exists_and_left, exists_eq, and_true])

/-! ## Applying a delta -/

theorem validateCursorTransition_ok_iff (base target : ObservationCursor) :
    validateCursorTransition base target = .ok () ↔ base.checkedNext = some target := by
  unfold validateCursorTransition
  cases hnext : base.checkedNext with
  | none => simp
  | some expected =>
      by_cases hepoch : target.epoch = base.epoch
      · by_cases htarget : target = expected
        · simp [htarget, ObservationCursor.checkedNext_epoch hnext]
        · simp [hepoch, htarget, Ne.symm htarget]
      · have hne : expected ≠ target := by
          rintro rfl
          exact hepoch (ObservationCursor.checkedNext_epoch hnext)
        simp [hepoch, hne]

/-- The state a delta describes, under the base's hash. -/
def WorldSnapshot.advancedBy (base : WorldSnapshot) (delta : StateDelta) : WorldSnapshot where
  fortressId := base.fortressId
  tick := delta.targetTick
  cursor := delta.targetCursor
  paused := base.paused
  graph := runAll base.graph delta.changes
  stateHash := base.stateHash

/-- The tests a delta passes against its base, all but the closing comparison of hashes. -/
structure StateDelta.Fits (delta : StateDelta) (base : WorldSnapshot) : Prop where
  hash : base.hashIsValid = true
  complete : delta.truncated = false
  closed : delta.continuation = none
  bounded : delta.changes.length ≤ maxStateDeltaChanges
  fortress : delta.fortressId = base.fortressId
  baseCursor : delta.baseCursor = base.cursor
  baseHash : delta.baseHash = base.stateHash
  cursor : base.cursor.checkedNext = some delta.targetCursor
  tick : base.tick ≤ delta.targetTick
  changes : Applicable base.graph delta.changes

/-- **When a delta is applied**, and the snapshot that comes out. -/
theorem applyDelta_ok_iff (base : WorldSnapshot) (delta : StateDelta) (s : WorldSnapshot) :
    applyDelta base delta = .ok s ↔
      delta.Fits base ∧ s = (base.advancedBy delta).refreshHash ∧
        s.stateHash = delta.targetHash := by
  simp only [applyDelta, guard_ok_iff, bind_ok_iff, pure_ok_iff, Unique.exists_iff,
    PUnit.default_eq_unit, validateCursorTransition_ok_iff, applyChanges_ok_iff, not_not, not_or,
    not_lt, gt_iff_lt, Bool.not_eq_true, Bool.not_eq_false, Option.isSome_eq_false_iff,
    Option.isNone_iff_eq_none, ne_eq, and_assoc]
  constructor
  · rintro ⟨h₁, h₂, h₃, h₄, h₅, h₆, h₇, h₈, h₉, a, happ, rfl, hhash, rfl⟩
    exact ⟨⟨h₁, h₂, h₃, h₄, h₅, h₆, h₇, h₈, h₉, happ⟩, rfl, hhash⟩
  · rintro ⟨⟨h₁, h₂, h₃, h₄, h₅, h₆, h₇, h₈, h₉, happ⟩, rfl, hhash⟩
    exact ⟨h₁, h₂, h₃, h₄, h₅, h₆, h₇, h₈, h₉, _, happ, rfl, hhash, rfl⟩

/-- **When a delta is built.** -/
theorem buildDelta_ok_iff (base : WorldSnapshot) (cursor : ObservationCursor) (tick : GameTick)
    (cs : List WorldChange) (d : StateDelta) :
    buildDelta base cursor tick cs = .ok d ↔
      d.Fits base ∧ d.targetCursor = cursor ∧ d.targetTick = tick ∧ d.changes = cs ∧
        d.targetHash = (base.advancedBy d).computeHash := by
  simp only [buildDelta, guard_ok_iff, bind_ok_iff, pure_ok_iff, Unique.exists_iff,
    PUnit.default_eq_unit, validateCursorTransition_ok_iff, applyChanges_ok_iff, not_lt,
    gt_iff_lt, Bool.not_eq_true, Bool.not_eq_false, and_assoc]
  constructor
  · rintro ⟨hlen, hcursor, htick, hhash, a, happ, rfl, rfl⟩
    exact ⟨⟨hhash, rfl, rfl, hlen, rfl, rfl, rfl, hcursor, htick, happ⟩, rfl, rfl, rfl, rfl⟩
  · rintro ⟨⟨hhash, h₂, h₃, hlen, h₅, h₆, h₇, hcursor, htick, happ⟩, rfl, rfl, rfl, hth⟩
    refine ⟨hlen, hcursor, htick, hhash, _, happ, rfl, ?_⟩
    obtain ⟨fortressId, baseCursor, targetCursor, baseHash, targetHash, targetTick, changes,
      truncated, continuation⟩ := d
    simp only [StateDelta.mk.injEq]
    exact ⟨h₅.symm, h₆.symm, trivial, h₇.symm, hth.symm, trivial, trivial, h₂.symm, h₃.symm⟩

theorem exists_buildDelta_iff (base : WorldSnapshot) (cursor : ObservationCursor)
    (tick : GameTick) (cs : List WorldChange) :
    (∃ d, buildDelta base cursor tick cs = .ok d) ↔
      base.hashIsValid = true ∧ cs.length ≤ maxStateDeltaChanges ∧
      base.cursor.checkedNext = some cursor ∧ base.tick ≤ tick ∧ Applicable base.graph cs := by
  simp only [buildDelta_ok_iff]
  constructor
  · rintro ⟨d, hfits, rfl, rfl, rfl, -⟩
    exact ⟨hfits.hash, hfits.bounded, hfits.cursor, hfits.tick, hfits.changes⟩
  · rintro ⟨hhash, hlen, hcursor, htick, happ⟩
    let s : WorldSnapshot := ⟨base.fortressId, tick, cursor, base.paused, runAll base.graph cs,
      base.stateHash⟩
    exact ⟨⟨base.fortressId, base.cursor, cursor, base.stateHash, s.computeHash, tick, cs, false,
      none⟩, ⟨hhash, rfl, rfl, hlen, rfl, rfl, rfl, hcursor, htick, happ⟩, rfl, rfl, rfl, rfl⟩

/-- A delta that was built can be applied. -/
theorem applyDelta_of_buildDelta {base : WorldSnapshot} {cursor : ObservationCursor}
    {tick : GameTick} {cs : List WorldChange} {d : StateDelta}
    (h : buildDelta base cursor tick cs = .ok d) :
    applyDelta base d = .ok (base.advancedBy d).refreshHash := by
  obtain ⟨hfits, -, -, -, hhash⟩ := (buildDelta_ok_iff _ _ _ _ _).1 h
  exact (applyDelta_ok_iff _ _ _).2 ⟨hfits, rfl, hhash.symm⟩

end Dfmcp
