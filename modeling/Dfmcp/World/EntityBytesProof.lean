import Dfmcp.World.CanonicalDecodeProof

/-!
# The entities of a snapshot are read off its bytes

The decoder refuses values that nest too deep, but their bytes tell them apart all the same: a reader
with enough levels left reads any entity back. Two snapshots with the same canonical bytes therefore
have the same entities in the same order, as far as the bytes of a kind say which kind it is
(`entities_of_canonicalBytes`).
-/

namespace Dfmcp

open Machine Wire

namespace Decode

/-! ## Readers with levels to spare -/

/-- `presence`, with this many levels of nesting. -/
def presenceWithin (left : Nat) : Decoder FactPresence := do
  let tag ← u8
  match tag.toNat with
  | 0 => FactPresence.known <$> value left
  | 1 => pure .absent
  | 2 => FactPresence.unknown <$> string
  | 3 => FactPresence.unsupported <$> string
  | 4 => FactPresence.omitted <$> string
  | 5 => FactPresence.redacted <$> string
  | 6 => FactPresence.stale <$> anchor
  | other => fail (corrupt ("unknown fact presence tag " ++ toString other))

/-- `fact`, with this many levels of nesting. -/
def factWithin (left : Nat) : Decoder Fact := do
  let value ← value left
  let observedAt ← u64
  let source ← source
  let sourceDigest ← digest
  let presence ← option (presenceWithin left)
  pure ⟨value, observedAt, source, sourceDigest, presence⟩

/-- `entityRecord`, with this many levels of nesting. -/
def entityRecordWithin (left : Nat) : Decoder EntityRecord := do
  let id ← u64
  let generation ← u32
  let revision ← u64
  let kind ← EntityKind.fromName <$> string
  let label ← string
  let fields ← map "fact field" 9 (field (factWithin left))
  pure ⟨id, generation, revision, kind, label, fields⟩

end Decode

/-- How deep the values of a fact nest. -/
def Fact.depth (fact : Fact) : Nat :=
  max fact.value.height (fact.presence.elim 0 FactPresence.height)

namespace Decode

variable {left : Nat}

theorem parses_presenceWithin (p : FactPresence) :
    Parses (p.height < left) (presenceWithin left) p.encode p := by
  cases p with
  | known value => exact parses_tagged 0 ((parses_value left value).map _)
  | absent => exact parses_tagged 1 (Parses.pure _)
  | unknown reason => exact parses_tagged 2 ((parses_string reason).map _)
  | unsupported reason => exact parses_tagged 3 ((parses_string reason).map _)
  | omitted reason => exact parses_tagged 4 ((parses_string reason).map _)
  | redacted reason => exact parses_tagged 5 ((parses_string reason).map _)
  | stale anchor => exact parses_tagged 6 ((parses_anchor anchor).map _)

theorem parses_factWithin (f : Fact) :
    Parses (f.depth < left) (factWithin left) f.encode f := by
  have hvalue : Parses (f.depth < left) (value left) f.value.encode f.value :=
    (parses_value left f.value).mono fun h => (le_max_left _ _).trans_lt h
  have hpresence : Parses (f.depth < left) (option (presenceWithin left))
      (putOption FactPresence.encode f.presence) (f.presence.map id) :=
    parses_option fun p hp => (parses_presenceWithin p).mono fun h => by
      rw [Fact.depth, Option.mem_def.1 hp] at h
      exact (le_max_right _ _).trans_lt h
  rw [Option.map_id_fun, id] at hpresence
  simp only [Fact.encode, List.append_assoc]
  exact hvalue.bind ((parses_u64 _).bind ((parses_source _).bind ((parses_digest _).bind
    hpresence.bind_pure)))

theorem parses_entityRecordWithin (e : EntityRecord) :
    Parses (∀ x ∈ e.fields.toList, x.2.depth < left) (entityRecordWithin left) e.encode
      e.canonical := by
  have hfields : Parses (∀ x ∈ e.fields.toList, x.2.depth < left)
      (map "fact field" 9 (field (factWithin left))) (putFactMap e.fields) e.fields :=
    parses_map (g := id) (by simp) (fun x _ => length_putFactEntry x)
      fun x hx => parses_field x.1 ((parses_factWithin x.2).mono fun h => h x hx)
  simp only [EntityRecord.encode, List.append_assoc]
  exact (parses_u64 _).bind ((parses_u32 _).bind ((parses_u64 _).bind
    (((parses_string _).map EntityKind.fromName).bind ((parses_string _).bind
      hfields.bind_pure))))

/-- The entities of a graph, in their order. -/
theorem parses_entities (entities : BTreeMap EntityId EntityRecord) :
    Parses (∀ e ∈ entities.values, ∀ x ∈ e.fields.toList, x.2.depth < left)
      (list 8 (entityRecordWithin left))
      (putLen entities.size ++ entities.values.flatMap EntityRecord.encode)
      (entities.values.map EntityRecord.canonical) := by
  have hsize : entities.values.length = entities.size := by simp [OMap.values, OMap.size]
  rw [← hsize]
  exact parses_list (fun e _ => length_encode_entityRecord e)
    fun e he => (parses_entityRecordWithin e).mono fun h => h e he

end Decode

/-- Finitely many numbers have a bound. -/
theorem exists_bound {α : Type} (l : List α) (f : α → Nat) : ∃ n, ∀ a ∈ l, f a < n := by
  induction l with
  | nil => exact ⟨0, List.forall_mem_nil _⟩
  | cons a l ih =>
      obtain ⟨n, hn⟩ := ih
      refine ⟨max (f a + 1) n, List.forall_mem_cons.2 ⟨?_, fun b hb => ?_⟩⟩
      · exact (Nat.lt_succ_self _).trans_le (le_max_left _ _)
      · exact (hn b hb).trans_le (le_max_right _ _)

/-- Some number of levels is enough for all entities of a map. -/
theorem exists_depth (entities : BTreeMap EntityId EntityRecord) :
    ∃ n, ∀ e ∈ entities.values, ∀ x ∈ e.fields.toList, x.2.depth < n := by
  obtain ⟨n, hn⟩ := exists_bound
    (entities.values.flatMap fun e => e.fields.toList.map Prod.snd) Fact.depth
  exact ⟨n, fun e he x hx => hn x.2 (List.mem_flatMap.2 ⟨e, he, List.mem_map_of_mem hx⟩)⟩

/-- **Snapshots with the same bytes have the same entities**, up to borrowed kinds. -/
theorem WorldSnapshot.entities_of_canonicalBytes {s t : WorldSnapshot}
    (h : s.canonicalBytes = t.canonicalBytes) (hlen : s.canonicalBytes.length < 2 ^ 64) :
    s.graph.entities.values.map EntityRecord.canonical =
      t.graph.entities.values.map EntityRecord.canonical := by
  obtain ⟨m, hm⟩ := exists_depth s.graph.entities
  obtain ⟨n, hn⟩ := exists_depth t.graph.entities
  let header (u : WorldSnapshot) : Bytes :=
    putStr "dfmcp-world-snapshot-v1" ++ putU64 u.fortressId ++ putU64 u.tick ++
      putU64 u.cursor.epoch ++ putU64 u.cursor.sequence ++ putBool u.paused
  let rest (u : WorldSnapshot) : Bytes :=
    (putLen u.graph.edges.size ++ u.graph.edges.values.flatMap EdgeRecord.encode) ++
      (putLen u.graph.chunks.size ++ u.graph.chunks.values.flatMap MapChunk.encode) ++
      (putLen u.graph.events.size ++ u.graph.events.values.flatMap WorldEvent.encode)
  have hsplit : ∀ u : WorldSnapshot, u.canonicalBytes = header u ++
      ((putLen u.graph.entities.size ++ u.graph.entities.values.flatMap EntityRecord.encode) ++
        rest u) := by
    intro u
    simp only [WorldSnapshot.canonicalBytes, WorldGraph.encode, header, rest, List.append_assoc]
  have hheader : ∀ u : WorldSnapshot, (header u).length = (header s).length := by
    intro u
    cases hu : u.paused <;> cases hs : s.paused <;>
      simp [header, putU64, putBool, hu, hs]
  rw [hsplit s] at hlen
  rw [hsplit s, hsplit t] at h
  have htail := (List.append_inj h (hheader t).symm).2
  have hs : Parses True (Decode.list 8 (Decode.entityRecordWithin (max m n)))
      (putLen s.graph.entities.size ++ s.graph.entities.values.flatMap EntityRecord.encode)
      (s.graph.entities.values.map EntityRecord.canonical) :=
    (Decode.parses_entities s.graph.entities).mono fun _ e he x hx =>
      (hm e he x hx).trans_le (le_max_left m n)
  have ht : Parses True (Decode.list 8 (Decode.entityRecordWithin (max m n)))
      (putLen t.graph.entities.size ++ t.graph.entities.values.flatMap EntityRecord.encode)
      (t.graph.entities.values.map EntityRecord.canonical) :=
    (Decode.parses_entities t.graph.entities).mono fun _ e he x hx =>
      (hn e he x hx).trans_le (le_max_right m n)
  rw [List.length_append] at hlen
  exact (hs.inj ht trivial (by omega) htail).1

end Dfmcp
