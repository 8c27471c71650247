import Dfmcp.World.CanonicalDecodeProof
import Dfmcp.World.Completeness
import Dfmcp.World.DeltaProof

/-!
# Projections and deltas

When the delta between two snapshots exists, the delta between their projections exists as well
unless a relation that did not change itself gains or loses its fields: whether the fields of a
relation are delivered depends on the kinds of its endpoints, and these may change.

* `EncodingBudget.snapshot_charged`, `EncodingBudget.delta_charged` — the budget is conservative;
* `diffable_project_iff` — when the projections of a legal transition are one;
* `apply_link`, `fromCanonicalBytes_link` — what the capsule between two projections is good for;
* `projection_commutes_iff` — when projecting commutes with deltas;
* `preflight_sound` — what passes the preflight has its bytes, and never too many.
-/

namespace Dfmcp

open Machine Wire

/-! ## The encoding budget is conservative -/

/-- What went into the budget covers `length`, and a budget within the limit stays there. -/
structure Charged (budget after length : Nat) : Prop where
  covers : budget + length ≤ after
  within : budget ≤ EncodingBudget.limit → after ≤ EncodingBudget.limit

namespace Charged

theorem refl (budget : Nat) : Charged budget budget 0 := ⟨le_rfl, id⟩

theorem trans {a b c m n : Nat} (h : Charged a b m) (h' : Charged b c n) :
    Charged a c (m + n) :=
  ⟨by have := h.covers; have := h'.covers; omega, fun hle => h'.within (h.within hle)⟩

theorem mono {a b m n : Nat} (h : Charged a b m) (hle : n ≤ m) : Charged a b n :=
  ⟨by have := h.covers; omega, h.within⟩

end Charged

namespace EncodingBudget

theorem add_charged {budget bytes after : Nat} (h : add budget bytes = .ok after) :
    Charged budget after bytes := by
  unfold add at h
  split at h
  · cases h
  · rename_i hle
    obtain rfl := Except.ok.inj h
    exact ⟨le_rfl, fun _ => not_lt.1 hle⟩

theorem text_charged {budget after : Nat} {content : String}
    (h : text budget content = .ok after) : Charged budget after (putStr content).length := by
  refine (add_charged h).mono (Nat.le_of_eq ?_)
  simp [putStr, putBytes, putLen, putU64, strLen]

theorem node_charged {depth budget after : Nat} (h : node depth budget = .ok after) :
    Charged budget after 17 ∧ depth ≤ maxValueDepth := by
  unfold node at h
  split at h
  · cases h
  · rename_i hdepth
    exact ⟨add_charged h, not_lt.1 hdepth⟩

theorem scalar_charged {v : Value} {depth budget after : Nat} (hsize : v.encode.length ≤ 17)
    (hheight : v.height = 0) (h : node depth budget = .ok after) :
    Charged budget after v.encode.length ∧ depth + v.height ≤ maxValueDepth := by
  obtain ⟨hnode, hdepth⟩ := node_charged h
  exact ⟨hnode.mono hsize, by rwa [hheight]⟩

mutual

theorem value_charged : ∀ (v : Value) {depth budget after : Nat},
    value depth budget v = .ok after →
      Charged budget after v.encode.length ∧ depth + v.height ≤ maxValueDepth
  | .text content, depth, budget, after, h => by
      rw [value, bind_ok_iff] at h
      obtain ⟨next, hnode, htext⟩ := h
      obtain ⟨hnode, hdepth⟩ := node_charged hnode
      refine ⟨(hnode.trans (text_charged htext)).mono ?_, by simpa [Value.height] using hdepth⟩
      simp [Value.encode]
  | .bytes content, depth, budget, after, h => by
      rw [value, bind_ok_iff] at h
      obtain ⟨next, hnode, hadd⟩ := h
      obtain ⟨hnode, hdepth⟩ := node_charged hnode
      refine ⟨(hnode.trans (add_charged hadd)).mono ?_, by simpa [Value.height] using hdepth⟩
      simp [Value.encode, putBytes, putLen, putU64]
  | .list values, depth, budget, after, h => by
      rw [value, bind_ok_iff] at h
      obtain ⟨next, hnode, hrest⟩ := h
      obtain ⟨hnode, hdepth⟩ := node_charged hnode
      obtain ⟨hrest, hheight⟩ := valueList_charged values hrest
      refine ⟨(hnode.trans hrest).mono ?_, by rw [Value.height]; exact hheight hdepth⟩
      simp [Value.encode, putLen, putU64]
  | .object fields, depth, budget, after, h => by
      rw [value, bind_ok_iff] at h
      obtain ⟨next, hnode, hrest⟩ := h
      obtain ⟨hnode, hdepth⟩ := node_charged hnode
      obtain ⟨hrest, hheight⟩ := valueFields_charged fields hrest
      refine ⟨(hnode.trans hrest).mono ?_, by rw [Value.height]; exact hheight hdepth⟩
      simp [Value.encode, putLen, putU64]
  | .null, _, _, _, h => scalar_charged (by simp [Value.encode]) (by simp [Value.height]) h
  | .bool content, _, _, _, h =>
      scalar_charged (by cases content <;> simp [Value.encode, putBool]) (by simp [Value.height]) h
  | .i64 _, _, _, _, h => scalar_charged (by simp [Value.encode, putI64]) (by simp [Value.height]) h
  | .u64 _, _, _, _, h => scalar_charged (by simp [Value.encode, putU64]) (by simp [Value.height]) h
  | .fixed .., _, _, _, h =>
      scalar_charged (by simp [Value.encode, putI64, putU32]) (by simp [Value.height]) h
  | .entity _, _, _, _, h =>
      scalar_charged (by simp [Value.encode, putU64]) (by simp [Value.height]) h
  | .coord _, _, _, _, h =>
      scalar_charged (by simp [Value.encode, putI32]) (by simp [Value.height]) h

theorem valueList_charged : ∀ (vs : List Value) {depth budget after : Nat},
    valueList (depth + 1) budget vs = .ok after →
      Charged budget after (Value.encodeList vs).length ∧
        (depth ≤ maxValueDepth → depth + Value.heightList vs ≤ maxValueDepth)
  | [], depth, budget, after, h => by
      obtain rfl := Except.ok.inj h
      exact ⟨.refl _, id⟩
  | v :: vs, depth, budget, after, h => by
      rw [valueList, bind_ok_iff] at h
      obtain ⟨next, hvalue, hrest⟩ := h
      obtain ⟨hvalue, hheight⟩ := value_charged v hvalue
      obtain ⟨hrest, hheights⟩ := valueList_charged vs hrest
      refine ⟨by rw [Value.encodeList, List.length_append]; exact hvalue.trans hrest, fun hle => ?_⟩
      have := hheights hle
      rw [Value.heightList]
      omega

theorem valueFields_charged : ∀ {lo : Option String} (fields : OMap String Value lo)
    {depth budget after : Nat}, valueFields (depth + 1) budget fields = .ok after →
      Charged budget after (Value.encodeFields fields).length ∧
        (depth ≤ maxValueDepth → depth + Value.heightFields fields ≤ maxValueDepth)
  | _, .nil, depth, budget, after, h => by
      obtain rfl := Except.ok.inj h
      exact ⟨.refl _, id⟩
  | _, .cons key hk v rest, depth, budget, after, h => by
      rw [valueFields, bind_ok_iff] at h
      obtain ⟨named, htext, h⟩ := h
      obtain ⟨next, hvalue, hrest⟩ := bind_ok_iff.1 h
      obtain ⟨hvalue, hheight⟩ := value_charged v hvalue
      obtain ⟨hrest, hheights⟩ := valueFields_charged rest hrest
      refine ⟨?_, fun hle => ?_⟩
      · rw [Value.encodeFields, List.length_append, List.length_append]
        exact ((text_charged htext).trans hvalue).trans hrest
      · have := hheights hle
        rw [Value.heightFields]
        omega

end

/-- A loop of charges. -/
theorem foldlM_charged {α : Type} {charge : Nat → α → Result Nat} {enc : α → Bytes}
    {P : α → Prop} {l : List α} {budget after : Nat}
    (hcharge : ∀ a ∈ l, ∀ b b', charge b a = .ok b' → Charged b b' (enc a).length ∧ P a)
    (h : l.foldlM charge budget = .ok after) :
    Charged budget after (l.flatMap enc).length ∧ ∀ a ∈ l, P a := by
  induction l generalizing budget with
  | nil =>
      obtain rfl := Except.ok.inj h
      exact ⟨.refl _, List.forall_mem_nil _⟩
  | cons a l ih =>
      rw [List.foldlM_cons] at h
      obtain ⟨next, hfirst, hrest⟩ := bind_ok_iff.1 h
      obtain ⟨hfirst, ha⟩ := hcharge a List.mem_cons_self _ _ hfirst
      obtain ⟨hrest, hl⟩ := ih (fun a ha => hcharge a (List.mem_cons_of_mem _ ha)) hrest
      rw [List.flatMap_cons, List.length_append]
      exact ⟨hfirst.trans hrest, List.forall_mem_cons.2 ⟨ha, hl⟩⟩

/-- The fixed part of a fact pays for the tag of its source. -/
theorem source_charged {budget after : Nat} {origin : FactSource}
    (h : source budget origin = .ok after) :
    Charged budget after (origin.encode.length - 1) := by
  cases origin with
  | replay =>
      obtain rfl := Except.ok.inj h
      exact .refl _
  | dfhackField name => exact text_charged h
  | derived name => exact text_charged h
  | agentAssertion name => exact text_charged h

theorem reason_charged {fortress : FortressId} {tick : GameTick} {budget after : Nat}
    {p : FactPresence} (hp : ∀ v, p ≠ .known v) (h : reason fortress tick budget p = .ok after) :
    Charged budget after (p.encode.length - 73) := by
  have htagged : ∀ (tag : UInt8) (bytes : Bytes), (tag :: bytes).length - 73 ≤ bytes.length := by
    intro tag bytes
    rw [List.length_cons]
    omega
  cases p with
  | known v => exact absurd rfl (hp v)
  | absent =>
      obtain rfl := Except.ok.inj h
      exact .refl _
  | stale anchor =>
      rw [reason] at h
      split at h
      · cases h
      · obtain rfl := Except.ok.inj h
        refine (Charged.refl _).mono (Nat.le_of_eq ?_)
        simp [FactPresence.encode, putAnchor, putU64, putBytes, putLen, anchor.stateHash.length_eq]
  | unknown text => exact (text_charged h).mono (htagged _ _)
  | unsupported text => exact (text_charged h).mono (htagged _ _)
  | omitted text => exact (text_charged h).mono (htagged _ _)
  | redacted text => exact (text_charged h).mono (htagged _ _)

/-- The fixed part of a fact pays for the tags of its presence and for a stale anchor. -/
theorem presence_charged {fortress : FortressId} {tick : GameTick} {budget after : Nat}
    {stored : Value} {p : Option FactPresence}
    (h : presence fortress tick budget stored p = .ok after) :
    Charged budget after ((putOption FactPresence.encode p).length - 74) ∧
      ∀ q ∈ p, q.height ≤ maxValueDepth := by
  cases p with
  | none =>
      obtain rfl := Except.ok.inj h
      exact ⟨.refl _, fun q hq => nomatch hq⟩
  | some p =>
      have hother : (∀ v, p ≠ .known v) → (if stored ≠ .null then
          .error (profileInvalid "nonknown presence retains a contradictory value")
          else reason fortress tick budget p) = .ok after →
          Charged budget after ((putOption FactPresence.encode (some p)).length - 74) := by
        intro hp hreason
        split at hreason
        · cases hreason
        · exact (reason_charged hp hreason).mono (by simp [putOption])
      cases p with
      | known v =>
          rw [presence] at h
          obtain ⟨next, hvalue, hrest⟩ := bind_ok_iff.1 h
          obtain ⟨-, hafter⟩ := guard_ok_iff.1 hrest
          obtain rfl := Except.ok.inj hafter
          obtain ⟨hvalue, hheight⟩ := value_charged v hvalue
          refine ⟨hvalue.mono ?_, ?_⟩
          · simp [putOption, FactPresence.encode]
          · intro q hq
            obtain rfl := Option.some.inj hq
            rwa [Nat.zero_add] at hheight
      | _ =>
          refine ⟨hother (fun v => nofun) h, fun q hq => ?_⟩
          obtain rfl := Option.some.inj hq
          exact Nat.zero_le _

theorem fact_charged {fortress : FortressId} {tick : GameTick} {budget after : Nat} {x : Fact}
    (h : fact fortress tick budget x = .ok after) :
    Charged budget after x.encode.length ∧ x.Shallow := by
  obtain ⟨fixed, hfixed, h⟩ := bind_ok_iff.1 h
  obtain ⟨valued, hvalue, h⟩ := bind_ok_iff.1 h
  obtain ⟨-, h⟩ := guard_ok_iff.1 h
  obtain ⟨sourced, hsource, hpresence⟩ := bind_ok_iff.1 h
  obtain ⟨hvalue, hheight⟩ := value_charged _ hvalue
  obtain ⟨hpresence, hheights⟩ := presence_charged hpresence
  rw [Nat.zero_add] at hheight
  refine ⟨((((add_charged hfixed).trans hvalue).trans (source_charged hsource)).trans
    hpresence).mono ?_, hheight, hheights⟩
  simp only [Fact.encode, List.length_append, putU64, putBytes, putLen, length_beBytes,
    x.sourceDigest.length_eq]
  omega

theorem facts_charged {fortress : FortressId} {tick : GameTick} {budget after : Nat}
    {fields : BTreeMap String Fact} (h : facts fortress tick budget fields = .ok after) :
    Charged budget after (fields.toList.flatMap putFactEntry).length ∧
      ∀ x ∈ fields.toList, x.2.Shallow := by
  refine foldlM_charged (fun x _ b b' hentry => ?_) h
  obtain ⟨named, htext, hfact⟩ := bind_ok_iff.1 hentry
  obtain ⟨hfact, hshallow⟩ := fact_charged hfact
  rw [putFactEntry, List.length_append]
  exact ⟨(text_charged htext).trans hfact, hshallow⟩

theorem entity_charged {fortress : FortressId} {tick : GameTick} {budget after : Nat}
    {record : EntityRecord} (h : entity fortress tick budget record = .ok after) :
    Charged budget after record.encode.length ∧ record.Shallow := by
  obtain ⟨fixed, hfixed, h⟩ := bind_ok_iff.1 h
  obtain ⟨kinded, hkind, h⟩ := bind_ok_iff.1 h
  obtain ⟨labelled, hlabel, hfacts⟩ := bind_ok_iff.1 h
  obtain ⟨hfacts, hshallow⟩ := facts_charged hfacts
  refine ⟨((((add_charged hfixed).trans (text_charged hkind)).trans (text_charged hlabel)).trans
    hfacts).mono ?_, hshallow⟩
  simp only [EntityRecord.encode, EntityKind.encode, putFactMap, List.length_append, putU64,
    putU32, putLen, length_beBytes]
  omega

theorem edge_charged {fortress : FortressId} {tick : GameTick} {budget after : Nat}
    {record : EdgeRecord} (h : edge fortress tick budget record = .ok after) :
    Charged budget after record.encode.length ∧ record.Shallow := by
  obtain ⟨fixed, hfixed, h⟩ := bind_ok_iff.1 h
  obtain ⟨kinded, hkind, hfacts⟩ := bind_ok_iff.1 h
  obtain ⟨hfacts, hshallow⟩ := facts_charged hfacts
  refine ⟨(((add_charged hfixed).trans (text_charged hkind)).trans hfacts).mono ?_, hshallow⟩
  simp only [EdgeRecord.encode, EdgeKind.encode, putFactMap, List.length_append, putU64, putU128,
    putLen, length_beBytes]
  omega

theorem overlays_charged {budget after : Nat} {overlays : BTreeMap (U 32) (BTreeMap String Value)}
    (h : overlays.values.foldlM (fun budget fields => do
      let budget ← add budget 12
      valueFields 1 budget fields) budget = .ok after) :
    Charged budget after (overlays.toList.flatMap MapChunk.putOverlay).length ∧
      ∀ x ∈ overlays.toList, Value.heightFields x.2 ≤ maxValueDepth := by
  rw [OMap.values, List.foldlM_map] at h
  refine foldlM_charged (fun x _ b b' hentry => ?_) h
  obtain ⟨fixed, hfixed, hfields⟩ := bind_ok_iff.1 hentry
  obtain ⟨hfields, hheight⟩ := @valueFields_charged _ _ 0 _ _ hfields
  refine ⟨((add_charged hfixed).trans hfields).mono ?_, ?_⟩
  · simp only [MapChunk.putOverlay, putValueMap, List.length_append, putU32, putLen, putU64,
      length_beBytes]
    omega
  · have hle := hheight (Nat.zero_le _)
    rwa [Nat.zero_add] at hle

theorem chunk_charged {budget after : Nat} {record : MapChunk}
    (h : chunk budget record = .ok after) :
    Charged budget after record.encode.length ∧ record.Shallow := by
  obtain ⟨fixed, hfixed, h⟩ := bind_ok_iff.1 h
  obtain ⟨covered, hruns, hoverlays⟩ := bind_ok_iff.1 h
  obtain ⟨hoverlays, hshallow⟩ := overlays_charged hoverlays
  have hlength : (record.terrainRuns.flatMap TerrainRun.encode).length =
      record.terrainRuns.length * 8 := by
    rw [List.length_flatMap]
    simp [TerrainRun.encode, putU32]
  refine ⟨(((add_charged hfixed).trans (add_charged hruns)).trans hoverlays).mono ?_, hshallow⟩
  simp only [MapChunk.encode, ChunkCoord.encode, List.length_append, putU64, putU16, putI32,
    putLen, length_beBytes, hlength]
  omega

theorem event_charged {budget after : Nat} {record : WorldEvent}
    (h : event budget record = .ok after) :
    Charged budget after record.encode.length ∧ record.Shallow := by
  obtain ⟨fixed, hfixed, h⟩ := bind_ok_iff.1 h
  obtain ⟨kinded, hkind, h⟩ := bind_ok_iff.1 h
  obtain ⟨labelled, hsummary, hfields⟩ := bind_ok_iff.1 h
  obtain ⟨hfields, hheight⟩ := @valueFields_charged _ _ 0 _ _ hfields
  have hsubject : (putOption putU64 record.subject).length ≤ 9 := by
    cases record.subject <;> simp [putOption, putU64]
  refine ⟨((((add_charged hfixed).trans (text_charged hkind)).trans (text_charged hsummary)).trans
    hfields).mono ?_, ?_⟩
  · simp only [WorldEvent.encode, putValueMap, List.length_append, putU64, putU128, putLen,
      length_beBytes]
    omega
  · have hle := hheight (Nat.zero_le _)
    rwa [Nat.zero_add] at hle

theorem change_charged {d : StateDelta} {budget after : Nat} {c : WorldChange}
    (h : change d budget c = .ok after) :
    Charged budget after c.encode.length ∧ c.Shallow := by
  obtain ⟨fixed, hfixed, h⟩ := bind_ok_iff.1 h
  have htagged : ∀ {bytes : Bytes} (tag : UInt8), Charged fixed after bytes.length →
      Charged budget after (tag :: bytes).length := by
    intro bytes tag hrest
    refine ((add_charged hfixed).trans hrest).mono ?_
    rw [List.length_cons]
    omega
  have hremoval : ∀ bytes : Bytes, bytes.length ≤ 32 → fixed = after →
      Charged budget after bytes.length := by
    intro bytes hlength hafter
    rw [← hafter]
    exact (add_charged hfixed).mono hlength
  cases c with
  | upsertEntity record => exact ⟨htagged 0 (entity_charged h).1, (entity_charged h).2⟩
  | upsertEdge record => exact ⟨htagged 2 (edge_charged h).1, (edge_charged h).2⟩
  | upsertMapChunk record => exact ⟨htagged 4 (chunk_charged h).1, (chunk_charged h).2⟩
  | appendEvent record => exact ⟨htagged 6 (event_charged h).1, (event_charged h).2⟩
  | removeEntity id generation revision =>
      exact ⟨hremoval _ (by simp [WorldChange.encode, putU64, putU32]) (Except.ok.inj h), trivial⟩
  | removeEdge id revision =>
      exact ⟨hremoval _ (by simp [WorldChange.encode, putU64, putU128]) (Except.ok.inj h), trivial⟩
  | removeMapChunk coord revision =>
      exact ⟨hremoval _ (by simp [WorldChange.encode, ChunkCoord.encode, putU64, putI32])
        (Except.ok.inj h), trivial⟩

/-- **A delta within the budget encodes within it**, and nests no deeper than the decoder
allows. -/
theorem delta_charged {d : StateDelta} {after : Nat} (h : delta d = .ok after) :
    d.canonicalBytes.length ≤ after ∧ after ≤ limit ∧ ∀ c ∈ d.changes, c.Shallow := by
  obtain ⟨changed, hchanges, h⟩ := bind_ok_iff.1 h
  have hcharges : Charged 512 changed (d.changes.flatMap WorldChange.encode).length ∧
      ∀ c ∈ d.changes, c.Shallow :=
    foldlM_charged (fun c _ b b' hc => change_charged hc) hchanges
  obtain ⟨hcharged, hshallow⟩ := hcharges
  -- the tag of the continuation comes out of the first 512 bytes
  have hcontinuation : ∃ n, Charged changed after n ∧
      (putOption putStr d.continuation).length ≤ n + 1 := by
    cases hd : d.continuation with
    | none =>
        rw [hd] at h
        obtain rfl : changed = after := Except.ok.inj h
        exact ⟨0, .refl changed, le_rfl⟩
    | some continuation =>
        rw [hd] at h
        exact ⟨_, text_charged h, le_rfl⟩
  obtain ⟨n, htext, hlength⟩ := hcontinuation
  have hall := hcharged.trans htext
  refine ⟨?_, hall.within (by decide), hshallow⟩
  have hcovers := hall.covers
  have hdomain : (putStr "dfmcp-state-delta-v1").length = 28 := by decide
  have htruncated : (putBool d.truncated).length = 1 := by cases d.truncated <;> rfl
  simp only [StateDelta.canonicalBytes, List.length_append, hdomain, htruncated, putU64, putBytes,
    putLen, length_beBytes, d.baseHash.length_eq, d.targetHash.length_eq]
  omega

end EncodingBudget

namespace EncodingBudget

theorem entityEntry_charged {s : WorldSnapshot} {budget after : Nat}
    {entry : EntityId × EntityRecord} (h : entityEntry s budget entry = .ok after) :
    Charged budget after entry.2.encode.length ∧ entry.2.id = entry.1 ∧ entry.2.Shallow := by
  obtain ⟨charged, hcharged, h⟩ := bind_ok_iff.1 h
  obtain ⟨hkey, h⟩ := guard_ok_iff.1 h
  obtain rfl : charged = after := Except.ok.inj h
  obtain ⟨hcharged, hshallow⟩ := entity_charged hcharged
  exact ⟨hcharged, (not_not.1 (not_or.1 hkey).2).symm, hshallow⟩

theorem edgeEntry_charged {s : WorldSnapshot} {budget after : Nat} {entry : EdgeId × EdgeRecord}
    (h : edgeEntry s budget entry = .ok after) :
    Charged budget after entry.2.encode.length ∧ entry.2.id = entry.1 ∧ entry.2.Shallow := by
  obtain ⟨charged, hcharged, h⟩ := bind_ok_iff.1 h
  obtain ⟨hkey, h⟩ := guard_ok_iff.1 h
  obtain rfl : charged = after := Except.ok.inj h
  obtain ⟨hcharged, hshallow⟩ := edge_charged hcharged
  exact ⟨hcharged, (not_not.1 (not_or.1 (not_or.1 hkey).2).1).symm, hshallow⟩

theorem chunkEntry_charged {budget after : Nat} {entry : ChunkCoord × MapChunk}
    (h : chunkEntry budget entry = .ok after) :
    Charged budget after entry.2.encode.length ∧ entry.2.coord = entry.1 ∧ entry.2.Shallow := by
  obtain ⟨charged, hcharged, h⟩ := bind_ok_iff.1 h
  obtain ⟨hkey, h⟩ := guard_ok_iff.1 h
  obtain ⟨-, h⟩ := guard_ok_iff.1 h
  obtain rfl : charged = after := Except.ok.inj h
  obtain ⟨hcharged, hshallow⟩ := chunk_charged hcharged
  exact ⟨hcharged, (not_not.1 (not_or.1 hkey).1).symm, hshallow⟩

theorem eventEntry_charged {s : WorldSnapshot} {budget after : Nat} {entry : EventId × WorldEvent}
    (h : eventEntry s budget entry = .ok after) :
    Charged budget after entry.2.encode.length ∧ entry.2.id = entry.1 ∧ entry.2.Shallow := by
  obtain ⟨charged, hcharged, h⟩ := bind_ok_iff.1 h
  obtain ⟨hkey, h⟩ := guard_ok_iff.1 h
  obtain rfl : charged = after := Except.ok.inj h
  obtain ⟨hcharged, hshallow⟩ := event_charged hcharged
  exact ⟨hcharged, (not_not.1 (not_or.1 (not_or.1 hkey).2).1).symm, hshallow⟩

/-- One domain of a snapshot. -/
theorem domain_charged {K V : Type} [LinearOrder K] {m : BTreeMap K V}
    {charge : Nat → K × V → Result Nat} {budget after : Nat} (enc : V → Bytes) (key : V → K)
    (shallow : V → Prop)
    (hcharge : ∀ entry b b', charge b entry = .ok b' →
      Charged b b' (enc entry.2).length ∧ key entry.2 = entry.1 ∧ shallow entry.2)
    (h : m.toList.foldlM charge budget = .ok after) :
    Charged budget after (m.values.flatMap enc).length ∧
      (∀ k v, m.get? k = some v → key v = k) ∧ ∀ v ∈ m.values, shallow v := by
  have hall : Charged budget after (m.toList.flatMap fun entry => enc entry.2).length ∧
      ∀ entry ∈ m.toList, key entry.2 = entry.1 ∧ shallow entry.2 :=
    foldlM_charged (fun entry _ b b' hentry => hcharge entry b b' hentry) h
  obtain ⟨hcharged, hentries⟩ := hall
  refine ⟨by rwa [OMap.values, List.flatMap_map], fun k v hv => ?_, fun v hv => ?_⟩
  · exact (hentries (k, v) ((OMap.mem_toList_iff m k v).2 hv)).1
  · obtain ⟨entry, hentry, rfl⟩ := List.mem_map.1 hv
    exact (hentries entry hentry).2

/-- **A snapshot within the budget encodes within it**, its records sit under their own
identifiers, and it nests no deeper than the decoder allows. -/
theorem snapshot_charged {s : WorldSnapshot} {after : Nat} (h : snapshot s = .ok after) :
    s.canonicalBytes.length ≤ after ∧ after ≤ limit ∧ s.graph.KeysMatch ∧ s.graph.Shallow := by
  obtain ⟨first, hentities, h⟩ := bind_ok_iff.1 h
  obtain ⟨second, hedges, h⟩ := bind_ok_iff.1 h
  obtain ⟨third, hchunks, hevents⟩ := bind_ok_iff.1 h
  obtain ⟨hentities, hentityKeys, hentityDepth⟩ := domain_charged EntityRecord.encode
    EntityRecord.id EntityRecord.Shallow (fun _ _ _ => entityEntry_charged) hentities
  obtain ⟨hedges, hedgeKeys, hedgeDepth⟩ := domain_charged EdgeRecord.encode EdgeRecord.id
    EdgeRecord.Shallow (fun _ _ _ => edgeEntry_charged) hedges
  obtain ⟨hchunks, hchunkKeys, hchunkDepth⟩ := domain_charged MapChunk.encode MapChunk.coord
    MapChunk.Shallow (fun _ _ _ => chunkEntry_charged) hchunks
  obtain ⟨hevents, heventKeys, heventDepth⟩ := domain_charged WorldEvent.encode WorldEvent.id
    WorldEvent.Shallow (fun _ _ _ => eventEntry_charged) hevents
  have hcharged := ((hentities.trans hedges).trans hchunks).trans hevents
  refine ⟨?_, hcharged.within (by decide), ⟨hentityKeys, hedgeKeys, hchunkKeys, heventKeys⟩,
    hentityDepth, hedgeDepth, hchunkDepth, heventDepth⟩
  have hcovers := hcharged.covers
  have hdomain : (putStr "dfmcp-world-snapshot-v1").length = 31 := by decide
  have hpaused : (putBool s.paused).length = 1 := by cases s.paused <;> rfl
  simp only [WorldSnapshot.canonicalBytes, WorldGraph.encode, List.length_append, hdomain, hpaused,
    putU64, putLen, length_beBytes]
  omega

end EncodingBudget

/-! ## Projecting a transition -/

/-- Records that advance still do when their other parts are rewritten, as long as a record that
did not change is rewritten to the same on both sides. -/
theorem Advance.mapValues {K V : Type} [LinearOrder K] {b t : BTreeMap K V}
    {acceptable : K → V → Prop} {advances : V → V → Prop} {f g : V → V}
    (h : Advance b t acceptable advances)
    (hsame : ∀ k v, b.get? k = some v → t.get? k = some v → f v = g v)
    (hacceptable : ∀ k v, acceptable k v → acceptable k (g v))
    (hadvances : ∀ new old, advances new old → advances (g new) (f old)) :
    Advance (b.mapValues fun _ => f) (t.mapValues fun _ => g) acceptable advances := by
  intro k new hnew hchanged
  rw [OMap.get?_mapValues, Option.map_eq_some_iff] at hnew
  obtain ⟨source, hsource, rfl⟩ := hnew
  rw [OMap.get?_mapValues] at hchanged
  have hdiffers : b.get? k ≠ some source := by
    intro hold
    rw [hold, Option.map_some, hsame k source hold hsource] at hchanged
    exact hchanged rfl
  obtain ⟨hok, hadvance⟩ := h k source hsource hdiffers
  refine ⟨hacceptable k source hok, fun old hold => ?_⟩
  rw [OMap.get?_mapValues, Option.map_eq_some_iff] at hold
  obtain ⟨before, hbefore, rfl⟩ := hold
  exact hadvances source before (hadvance before hbefore)

/-- A record that did not change is rewritten to the same on both sides, if rewriting it advances
nothing. -/
theorem Advance.same_of_mapValues {K V : Type} [LinearOrder K] {b t : BTreeMap K V}
    {acceptable : K → V → Prop} {advances : V → V → Prop} {f g : V → V}
    (h : Advance (b.mapValues fun _ => f) (t.mapValues fun _ => g) acceptable advances)
    (hnever : ∀ v, ¬ advances (g v) (f v)) {k : K} {v : V} (hb : b.get? k = some v)
    (ht : t.get? k = some v) : f v = g v := by
  by_contra hne
  have hnew : (t.mapValues fun _ => g).get? k = some (g v) := by
    rw [OMap.get?_mapValues, ht, Option.map_some]
  have hold : (b.mapValues fun _ => f).get? k = some (f v) := by
    rw [OMap.get?_mapValues, hb, Option.map_some]
  refine hnever v ((h k (g v) hnew fun hsame => hne ?_).2 (f v) hold)
  exact Option.some.inj (hold.symm.trans hsame)

namespace CompletenessProfile

variable (profile : CompletenessProfile)

theorem includesEntityFields_congr {kind other : EntityKind} (h : kind.asStr = other.asStr) :
    profile.includesEntityFields kind = profile.includesEntityFields other := by
  simp only [includesEntityFields, h]

/-- Whether a relation is included depends on the names of its endpoints' kinds. -/
theorem includesEdgeFields_mapValues (entities : BTreeMap EntityId EntityRecord)
    {f : EntityRecord → EntityRecord} (hf : ∀ e, (f e).kind.asStr = e.kind.asStr)
    (edge : EdgeRecord) :
    profile.includesEdgeFields (entities.mapValues fun _ => f) edge =
      profile.includesEdgeFields entities edge := by
  have hany : ∀ id, ((entities.mapValues fun _ => f).get? id).any
      (fun entity => profile.includesEntityFields entity.kind) =
      (entities.get? id).any fun entity => profile.includesEntityFields entity.kind := by
    intro id
    rw [OMap.get?_mapValues]
    cases entities.get? id with
    | none => rfl
    | some entity => exact profile.includesEntityFields_congr (hf entity)
  simp only [includesEdgeFields, hany]

theorem kind_projectEntity (entity : EntityRecord) :
    (profile.projectEntity entity).kind = entity.kind := by
  unfold projectEntity
  split <;> rfl

/-- What the decoder and the projection make of an entity. -/
def deliverEntity (entity : EntityRecord) : EntityRecord := profile.projectEntity entity.canonical

/-- What they make of a relation. -/
def deliverEdge (graph : WorldGraph) (edge : EdgeRecord) : EdgeRecord :=
  profile.projectEdge graph.entities edge.canonical

theorem asStr_deliverEntity (entity : EntityRecord) :
    (profile.deliverEntity entity).kind.asStr = entity.kind.asStr := by
  rw [deliverEntity, kind_projectEntity]
  exact EntityKind.asStr_canonical entity.kind

theorem advances_deliverEntity {new old : EntityRecord} (h : new.Advances old) :
    (profile.deliverEntity new).Advances (profile.deliverEntity old) := by
  have hstamp : ∀ e, (profile.deliverEntity e).generation = e.generation ∧
      (profile.deliverEntity e).revision = e.revision := by
    intro e
    unfold deliverEntity projectEntity
    split <;> exact ⟨rfl, rfl⟩
  simp only [EntityRecord.Advances, hstamp]
  exact h

theorem deliverEdge_stamp (graph : WorldGraph) (edge : EdgeRecord) :
    (profile.deliverEdge graph edge).revision = edge.revision ∧
      (profile.deliverEdge graph edge).fromId = edge.fromId ∧
      (profile.deliverEdge graph edge).toId = edge.toId := by
  unfold deliverEdge projectEdge
  split <;> exact ⟨rfl, rfl, rfl⟩

/-- Two states deliver the same of a relation when both include its fields, neither does, or it
makes no difference. -/
theorem deliverEdge_eq_iff (graph other : WorldGraph) (edge : EdgeRecord) :
    profile.deliverEdge graph edge = profile.deliverEdge other edge ↔
      profile.includesEdgeFields graph.entities edge =
        profile.includesEdgeFields other.entities edge ∨
      profile.omitFields edge.fields = edge.fields := by
  have hcanonical : ∀ g : WorldGraph, profile.includesEdgeFields g.entities edge.canonical =
      profile.includesEdgeFields g.entities edge := fun _ => rfl
  have hfields : edge.canonical = { edge.canonical with
      fields := profile.omitFields edge.canonical.fields } ↔
      profile.omitFields edge.fields = edge.fields :=
    ⟨fun h => (congrArg EdgeRecord.fields h).symm, fun h => by
      rw [show edge.canonical.fields = edge.fields from rfl, h]
      rfl⟩
  unfold deliverEdge projectEdge
  rw [hcanonical, hcanonical]
  cases profile.includesEdgeFields graph.entities edge <;>
    cases profile.includesEdgeFields other.entities edge
  · simp
  · simp only [if_pos, Bool.false_eq_true, false_or]
    exact eq_comm.trans hfields
  · simp only [if_pos, Bool.false_eq_true, Bool.true_eq_false, false_or]
    exact hfields
  · simp

theorem projectGraph_canonical (graph : WorldGraph) :
    profile.projectGraph graph.canonical =
      { entities := graph.entities.mapValues fun _ => profile.deliverEntity
        edges := graph.edges.mapValues fun _ => profile.deliverEdge graph
        chunks := if profile.includesMapChunks then graph.chunks else .nil
        events := if profile.includesEvents then graph.canonical.events else .nil } := by
  have hentities : (graph.canonical.entities.mapValues fun _ => profile.projectEntity) =
      graph.entities.mapValues fun _ => profile.deliverEntity := by
    apply OMap.ext_get?
    intro id
    simp only [WorldGraph.canonical, OMap.get?_mapValues, Option.map_map]
    rfl
  have hedge : ∀ edge, profile.projectEdge
      (graph.entities.mapValues fun _ => profile.deliverEntity) edge =
      profile.projectEdge graph.entities edge := by
    intro edge
    simp only [projectEdge, profile.includesEdgeFields_mapValues graph.entities
      profile.asStr_deliverEntity edge]
  unfold projectGraph
  dsimp only
  rw [hentities]
  simp only [hedge]
  congr 1
  apply OMap.ext_get?
  intro id
  simp only [WorldGraph.canonical, OMap.get?_mapValues, Option.map_map]
  rfl

end CompletenessProfile

/-- No relation that stays the same record gains or loses its fields in the projection. -/
def EdgesSteady (profile : CompletenessProfile) (base target : WorldGraph) : Prop :=
  ∀ id edge, base.edges.get? id = some edge → target.edges.get? id = some edge →
    profile.includesEdgeFields base.entities edge =
      profile.includesEdgeFields target.entities edge ∨
    profile.omitFields edge.fields = edge.fields

theorem finite_changedKeys {b t : WorldGraph} (ht : t.KeysMatch) (hev : EventsPersist b t) :
    (changedKeys b t).Finite := by
  have hset : changedKeys b t = ((diffChanges b t).map WorldChange.key).toFinset := by
    ext k
    rw [List.coe_toFinset, Set.mem_ofPred_eq, mem_diffChanges_keys_iff ht hev]
  rw [hset]
  exact Finset.finite_toSet _

/-- A domain that the profile leaves out has no records. -/
theorem get?_delivered {K V : Type} [LinearOrder K] {included : Bool} {m : BTreeMap K V} {k : K}
    {v : V} : (if included then m else .nil : BTreeMap K V).get? k = some v ↔
      included = true ∧ m.get? k = some v := by
  cases included with
  | false => simp
  | true => simp

section Transition

variable {profile : CompletenessProfile} {base target : WorldGraph}

/-- A slot that does not change in the source does not change in the projection. -/
theorem changedKeys_project_subset (hsteady : EdgesSteady profile base target) :
    changedKeys (profile.projectGraph base.canonical) (profile.projectGraph target.canonical) ⊆
      changedKeys base target := by
  intro key hkey hsame
  apply hkey
  rw [profile.projectGraph_canonical, profile.projectGraph_canonical]
  cases key with
  | entity id =>
      have hget : base.entities.get? id = target.entities.get? id :=
        WorldGraph.map_entity_inj.1 hsame
      simp only [WorldGraph.lookup_entity, OMap.get?_mapValues, hget]
  | edge id =>
      have hget : base.edges.get? id = target.edges.get? id := WorldGraph.map_edge_inj.1 hsame
      simp only [WorldGraph.lookup_edge, OMap.get?_mapValues, hget]
      cases hedge : target.edges.get? id with
      | none => rfl
      | some edge =>
          have hequal := (profile.deliverEdge_eq_iff base target edge).2
            (hsteady id edge (hget.trans hedge) hedge)
          simp only [Option.map_some, hequal]
  | chunk coord =>
      have hget : base.chunks.get? coord = target.chunks.get? coord :=
        WorldGraph.map_chunk_inj.1 hsame
      simp only [WorldGraph.lookup_chunk]
      cases profile.includesMapChunks with
      | false => rfl
      | true => simp only [if_true, hget]
  | event id =>
      have hget : base.events.get? id = target.events.get? id := WorldGraph.map_event_inj.1 hsame
      simp only [WorldGraph.lookup_event]
      cases profile.includesEvents with
      | false => rfl
      | true => simp only [if_true, WorldGraph.canonical, OMap.get?_mapValues, hget]

/-- **When the projection of a legal change is legal**: exactly when no relation that stays the
same gains or loses its fields. -/
theorem legalChange_project_iff (hlegal : LegalChange base target) (ht : target.KeysMatch) :
    LegalChange (profile.projectGraph base.canonical) (profile.projectGraph target.canonical) ↔
      EdgesSteady profile base target := by
  constructor
  · intro hprojected id edge hbase htarget
    have hedges := hprojected.edges
    rw [profile.projectGraph_canonical, profile.projectGraph_canonical] at hedges
    refine (profile.deliverEdge_eq_iff base target edge).1 ?_
    refine hedges.same_of_mapValues (fun v hlt => ?_) hbase htarget
    rw [(profile.deliverEdge_stamp base v).1, (profile.deliverEdge_stamp target v).1] at hlt
    exact absurd hlt (lt_irrefl _)
  · intro hsteady
    have hcount := (Set.ncard_le_ncard (changedKeys_project_subset hsteady)
      (finite_changedKeys ht hlegal.events)).trans hlegal.count
    rw [profile.projectGraph_canonical, profile.projectGraph_canonical] at hcount ⊢
    refine ⟨?_, ?_, ?_, ?_, ?_, ?_, hcount⟩
    · intro id event hevent
      obtain ⟨hincluded, hevent⟩ := get?_delivered.1 hevent
      rw [WorldGraph.canonical, OMap.get?_mapValues, Option.map_eq_some_iff] at hevent
      obtain ⟨source, hsource, rfl⟩ := hevent
      refine get?_delivered.2 ⟨hincluded, ?_⟩
      rw [WorldGraph.canonical, OMap.get?_mapValues, hlegal.events id source hsource,
        Option.map_some]
    · intro id event hevent
      obtain ⟨-, hevent⟩ := get?_delivered.1 hevent
      rw [WorldGraph.canonical, OMap.get?_mapValues, Option.map_eq_some_iff] at hevent
      obtain ⟨source, hsource, rfl⟩ := hevent
      exact hlegal.eventIds id source hsource
    · exact hlegal.entities.mapValues (fun _ _ _ _ => rfl) (fun _ _ h => h)
        fun _ _ => profile.advances_deliverEntity
    · refine hlegal.edges.mapValues (fun id edge hb ht => ?_) (fun _ _ h => h) fun new old h => ?_
      · exact (profile.deliverEdge_eq_iff base target edge).2 (hsteady id edge hb ht)
      · rw [(profile.deliverEdge_stamp base old).1, (profile.deliverEdge_stamp target new).1]
        exact h
    · intro coord chunk hchunk hchanged
      obtain ⟨hincluded, hchunk⟩ := get?_delivered.1 hchunk
      obtain ⟨hvalid, hadvances⟩ := hlegal.chunks coord chunk hchunk fun hold =>
        hchanged (get?_delivered.2 ⟨hincluded, hold⟩)
      exact ⟨hvalid, fun old hold => hadvances old (get?_delivered.1 hold).2⟩
    · intro id edge hedge
      rw [OMap.get?_mapValues, Option.map_eq_some_iff] at hedge
      obtain ⟨source, hsource, rfl⟩ := hedge
      obtain ⟨-, hfrom, hto⟩ := profile.deliverEdge_stamp target source
      rw [hfrom, hto, OMap.contains_mapValues, OMap.contains_mapValues]
      exact hlegal.endpoints id source hsource

theorem keysMatch_project (h : target.KeysMatch) :
    (profile.projectGraph target.canonical).KeysMatch := by
  have hentity : ∀ e, (profile.deliverEntity e).id = e.id := by
    intro e
    unfold CompletenessProfile.deliverEntity CompletenessProfile.projectEntity
    split <;> rfl
  have hedge : ∀ e, (profile.deliverEdge target e).id = e.id := by
    intro e
    unfold CompletenessProfile.deliverEdge CompletenessProfile.projectEdge
    split <;> rfl
  rw [profile.projectGraph_canonical]
  refine ⟨?_, ?_, ?_, ?_⟩
  · intro id e he
    rw [OMap.get?_mapValues, Option.map_eq_some_iff] at he
    obtain ⟨source, hsource, rfl⟩ := he
    rw [hentity, h.entities id source hsource]
  · intro id e he
    rw [OMap.get?_mapValues, Option.map_eq_some_iff] at he
    obtain ⟨source, hsource, rfl⟩ := he
    rw [hedge, h.edges id source hsource]
  · intro coord c hc
    exact h.chunks coord c (get?_delivered.1 hc).2
  · intro id e he
    have hevent := (get?_delivered.1 he).2
    rw [WorldGraph.canonical, OMap.get?_mapValues, Option.map_eq_some_iff] at hevent
    obtain ⟨source, hsource, rfl⟩ := hevent
    exact h.events id source hsource

end Transition

/-- The projection of a snapshot. -/
def WorldSnapshot.projected (s : WorldSnapshot) (profile : CompletenessProfile) : WorldSnapshot :=
  refreshHash { s with graph := profile.projectGraph s.graph.canonical }

theorem hashIsValid_projected (s : WorldSnapshot) (profile : CompletenessProfile) :
    (s.projected profile).hashIsValid = true :=
  WorldSnapshot.hashIsValid_refreshHash _

/-- **When the projections of a transition are one.** -/
theorem diffable_project_iff {base target : WorldSnapshot} {profile : CompletenessProfile}
    (h : Diffable base target) (ht : target.graph.KeysMatch) :
    Diffable (base.projected profile) (target.projected profile) ↔
      EdgesSteady profile base.graph target.graph := by
  rw [← legalChange_project_iff h.graph ht]
  exact ⟨fun hprojected => hprojected.graph,
    fun hlegal => ⟨h.fortress, h.cursor, h.tick, h.paused, hlegal⟩⟩

/-! ## Envelopes -/

theorem validateProfiled_ok {s : WorldSnapshot} (h : s.validateProfiled = .ok ()) :
    s.hashIsValid = true ∧ s.canonicalBytes.length ≤ EncodingBudget.limit ∧
      s.graph.KeysMatch ∧ s.graph.Shallow := by
  obtain ⟨-, h⟩ := guard_ok_iff.1 h
  obtain ⟨after, hcharged, h⟩ := bind_ok_iff.1 h
  obtain ⟨hlength, hlimit, hkeys, hshallow⟩ := EncodingBudget.snapshot_charged hcharged
  have hhash : s.hashIsValid = true := by
    by_contra hinvalid
    rw [if_pos hinvalid] at h
    cases h
  exact ⟨hhash, hlength.trans hlimit, hkeys, hshallow⟩

namespace ProfiledSnapshot

theorem sealEnvelope_ok {profile : CompletenessProfile} {anchor : StateAnchor}
    {provenance : ProjectionProvenance} {snapshot : WorldSnapshot}
    {extensions : BTreeMap String Bytes} {p : ProfiledSnapshot}
    (h : sealEnvelope profile anchor provenance snapshot extensions = .ok p) :
    p.profile = profile ∧ p.sourceAnchor = anchor ∧ p.provenance = provenance ∧
      p.snapshot = snapshot ∧ p.extensions = extensions := by
  obtain ⟨-, h⟩ := check_ok_iff.1 h
  obtain ⟨-, h⟩ := check_ok_iff.1 h
  obtain ⟨-, h⟩ := guard_ok_iff.1 h
  obtain ⟨-, h⟩ := guard_ok_iff.1 h
  obtain ⟨-, h⟩ := check_ok_iff.1 h
  obtain ⟨bytes, -, h⟩ := bind_ok_iff.1 h
  obtain rfl := Except.ok.inj h
  exact ⟨rfl, rfl, rfl, rfl, rfl⟩

/-- A projection is the sealed projection of a snapshot that passed its checks. -/
theorem project_ok {s : WorldSnapshot} {profile : CompletenessProfile}
    {provenance : ProjectionProvenance} {extensions : BTreeMap String Bytes} {p : ProfiledSnapshot}
    (h : project s profile provenance extensions = .ok p) :
    s.validateProfiled = .ok () ∧
      sealEnvelope profile s.anchor provenance (s.projected profile) extensions = .ok p := by
  obtain ⟨-, h⟩ := check_ok_iff.1 h
  obtain ⟨hvalid, h⟩ := check_ok_iff.1 h
  obtain ⟨decoded, hdecoded, hsealed⟩ := bind_ok_iff.1 h
  obtain ⟨-, hlength, hkeys, -⟩ := validateProfiled_ok hvalid
  refine ⟨hvalid, ?_⟩
  rcases WorldSnapshot.fromCanonicalBytes_canonicalBytes hkeys
      (hlength.trans (by decide)) with hok | ⟨-, e, herr⟩
  · obtain rfl : s.canonical = decoded := Except.ok.inj (hok.symm.trans hdecoded)
    exact hsealed
  · rw [herr] at hdecoded
    cases hdecoded

end ProfiledSnapshot

/-- The extensions take what they were charged, and the framing of each. -/
theorem extensions_length {l : List (String × Bytes)} {bytes after : Nat}
    (h : l.foldlM validateExtension bytes = .ok after) :
    bytes + (l.flatMap putExtension).length = after + 16 * l.length ∧
      (bytes ≤ maxExtensionBytes → after ≤ maxExtensionBytes) := by
  induction l generalizing bytes with
  | nil =>
      obtain rfl := Except.ok.inj h
      exact ⟨rfl, id⟩
  | cons entry rest ih =>
      rw [List.foldlM_cons] at h
      obtain ⟨next, hentry, hrest⟩ := bind_ok_iff.1 h
      unfold validateExtension at hentry
      split at hentry
      · cases hentry
      · split at hentry
        · cases hentry
        · rename_i hle
          obtain rfl := Except.ok.inj hentry
          obtain ⟨hlength, hwithin⟩ := ih hrest
          refine ⟨?_, fun _ => hwithin (not_lt.1 hle)⟩
          simp only [List.flatMap_cons, List.length_append, putExtension, putStr, putBytes, putLen,
            putU64, length_beBytes, List.length_cons] at hlength ⊢
          simp only [strLen] at hlength
          omega

theorem identity_length {profile : CompletenessProfile} {provenance : ProjectionProvenance}
    {extensions : BTreeMap String Bytes} (h : validateProvenance provenance extensions = .ok ()) :
    (encodeIdentity profile provenance extensions).length ≤ maxExtensionBytes + 2048 := by
  obtain ⟨hschema, h⟩ := guard_ok_iff.1 h
  obtain ⟨hcount, h⟩ := guard_ok_iff.1 h
  obtain ⟨after, hextensions, -⟩ := bind_ok_iff.1 h
  obtain ⟨hlength, hwithin⟩ := extensions_length hextensions
  have hafter := hwithin (Nat.zero_le _)
  have hshort : strLen provenance.sourceSchema ≤ 256 :=
    not_lt.1 fun hlong => hschema (.inr (.inl hlong))
  have hfew : extensions.toList.length ≤ 64 := not_lt.1 hcount
  have hname : strLen profile.asStr ≤ 15 := by cases profile <;> decide
  simp only [strLen] at hshort hname
  simp only [encodeIdentity, List.length_append, putStr, putBytes, putLen, putU64, length_beBytes,
    provenance.sourceManifest.length_eq]
  omega

namespace ProfiledSnapshot

/-- An envelope that passes its checks has its bytes, within their bound. -/
theorem canonicalBytes_eq {p : ProfiledSnapshot}
    (hprovenance : validateProvenance p.provenance p.extensions = .ok ())
    (hsnapshot : p.snapshot.validateProfiled = .ok ()) :
    ∃ bytes, p.canonicalBytes = .ok bytes ∧ bytes.length ≤ maxProfileBytes := by
  have hidentity := @identity_length p.profile _ _ hprovenance
  have hcontent := (validateProfiled_ok hsnapshot).2.1
  have hdomain : (putStr "dfmcp-profiled-snapshot-v1").length = 34 := by decide
  have hanchor : (putAnchor p.sourceAnchor).length = 72 := by
    simp [putAnchor, putU64, putBytes, putLen, p.sourceAnchor.stateHash.length_eq]
  have hlimit : EncodingBudget.limit + maxExtensionBytes + 4096 = maxProfileBytes := by decide
  have hlength : (putStr "dfmcp-profiled-snapshot-v1" ++
      encodeIdentity p.profile p.provenance p.extensions ++ putAnchor p.sourceAnchor ++
      putBytes p.snapshot.canonicalBytes).length ≤ maxProfileBytes := by
    simp only [List.length_append, hdomain, hanchor, putBytes, putLen, putU64, length_beBytes]
    omega
  unfold canonicalBytes
  exact ⟨_, check_ok_iff.2 ⟨hprovenance, check_ok_iff.2 ⟨hsnapshot, if_neg (not_lt.2 hlength)⟩⟩,
    hlength⟩

/-- What it takes to project a snapshot. -/
theorem exists_project {s : WorldSnapshot} {profile : CompletenessProfile}
    {provenance : ProjectionProvenance} {extensions : BTreeMap String Bytes}
    (hprovenance : validateProvenance provenance extensions = .ok ())
    (hsource : s.validateProfiled = .ok ())
    (hprojected : (s.projected profile).validateProfiled = .ok ()) (hfortress : s.fortressId ≠ 0)
    (hhash : s.stateHash ≠ Digest32.zero) (hpart : profile ≠ .researchFull)
    (hprojection : validateProjection (s.projected profile) profile = .ok ()) :
    ∃ p, project s profile provenance extensions = .ok p := by
  obtain ⟨-, hlength, hkeys, hshallow⟩ := validateProfiled_ok hsource
  have hdecoded : WorldSnapshot.fromCanonicalBytes s.canonicalBytes = .ok s.canonical :=
    (WorldSnapshot.fromCanonicalBytes_canonicalBytes hkeys (hlength.trans (by decide))).resolve_right
      fun hno => hno.1 hshallow
  obtain ⟨bytes, hbytes, -⟩ := canonicalBytes_eq
    (p := ⟨profile, s.anchor, provenance, s.projected profile, extensions, Digest32.zero⟩)
    hprovenance hprojected
  unfold project
  refine ⟨_, check_ok_iff.2 ⟨hprovenance, check_ok_iff.2 ⟨hsource, bind_ok_iff.2 ⟨_, hdecoded,
    check_ok_iff.2 ⟨hprovenance, check_ok_iff.2 ⟨hprojected, guard_ok_iff.2 ⟨?_,
    guard_ok_iff.2 ⟨fun hfull => hpart hfull.1, check_ok_iff.2 ⟨hprojection,
    bind_ok_iff.2 ⟨bytes, hbytes, rfl⟩⟩⟩⟩⟩⟩⟩⟩⟩⟩
  exact not_or.2 ⟨hfortress, not_or.2 ⟨hhash, not_or.2 ⟨not_not.2 rfl,
    not_or.2 ⟨not_not.2 rfl, not_not.2 rfl⟩⟩⟩⟩

end ProfiledSnapshot

/-! ## Reading envelopes -/

namespace Envelope

variable {c : Prop}

theorem parses_take (bs : Bytes) : Parses c (take bs.length) bs bs := Parses.take _ bs

theorem parses_u64 (x : U 64) : Parses c u64 (putU64 x) x := by
  have hlength : (putU64 x).length = 8 := length_beBytes 8 _
  have htake := parses_take (c := c) (putU64 x)
  rw [hlength] at htake
  have hread := htake.bind_pure (f := fun raw => (U.wrap (ofBe raw) : U 64))
  have hvalue : (U.wrap (ofBe (putU64 x)) : U 64) = x := by
    rw [putU64, ofBe_beBytes]
    apply Fin.ext
    simp only [U.wrap]
    omega
  rwa [hvalue] at hread

theorem parses_bytes {bs : Bytes} (h : bs.length < 2 ^ 64) : Parses c bytes (putBytes bs) bs := by
  have hcount : (U.wrap bs.length : U 64).val = bs.length := Nat.mod_eq_of_lt h
  refine (parses_u64 (U.wrap bs.length)).bind ?_
  rw [hcount]
  exact parses_take bs

theorem parses_text {text : String} (h : strLen text < 2 ^ 64) :
    Parses c Envelope.text (putStr text) text := by
  refine (parses_bytes (c := c) h).bind_nil ?_
  rw [fromUtf8_utf8]
  exact .pure text

theorem parses_digest (d : Digest32) : Parses c digest (putBytes d.bytes) d := by
  have hlength := d.length_eq
  have hshort : d.bytes.length < 2 ^ 64 := by
    rw [hlength]
    decide
  refine (parses_bytes (c := c) hshort).bind_nil (b := d)
    (f := fun raw => if raw.length ≠ 32 then
      fail (profileInvalid "profile digest has the wrong length") else pure (.fromBytes raw)) ?_
  rw [if_neg (not_not.2 hlength), show Digest32.fromBytes d.bytes = d from dif_pos hlength]
  exact .pure d

theorem parses_anchor (a : StateAnchor) : Parses c anchor (putAnchor a) a := by
  simp only [putAnchor, List.append_assoc]
  exact (parses_u64 _).bind ((parses_u64 _).bind ((parses_u64 _).bind ((parses_u64 _).bind
    (parses_digest _).bind_pure)))

theorem parses_domain {tag : String} (h : strLen tag < 2 ^ 64) :
    Parses c (domain tag) (putStr tag) () := by
  refine (parses_text (c := c) h).bind_nil (b := ())
    (f := fun found => if found = tag then pure () else
      fail (profileInvalid "unknown profile envelope version")) ?_
  rw [if_pos rfl]
  exact .pure ()

end Envelope

/-! ## Capsules -/

/-- The capsule of the delta between two snapshots. -/
def capsuleBetween (base target : WorldSnapshot) (publishedAtTick : GameTick) :
    ObservationCapsule where
  basisAnchor := base.anchor
  successorAnchor := target.anchor
  delta := deltaBetween base target
  capsuleDigest :=
    computeCapsuleDigest base.anchor target.anchor (deltaBetween base target) publishedAtTick
  publishedAtTick

section Capsule

variable {base target : WorldSnapshot} {publishedAtTick : GameTick}

theorem sequence_lt (h : Diffable base target) : base.cursor.sequence < target.cursor.sequence := by
  have hsequence := ObservationCursor.checkedNext_sequence h.cursor
  change base.cursor.sequence.val < target.cursor.sequence.val
  omega

theorem length_changes_le (h : Diffable base target) (ht : target.graph.KeysMatch) :
    (deltaBetween base target).changes.length ≤ maxStateDeltaChanges :=
  ((applicable_diffChanges_iff ht h.graph.events).2 h.graph).2

theorem integrityIsValid_capsuleBetween (h : Diffable base target) (ht : target.graph.KeysMatch)
    (htick : target.tick ≤ publishedAtTick) :
    (capsuleBetween base target publishedAtTick).integrityIsValid = true :=
  decide_eq_true ⟨h.fortress.symm, rfl, rfl, rfl, rfl, rfl, rfl, h.tick, length_changes_le h ht,
    ObservationCursor.checkedNext_epoch h.cursor, sequence_lt h, Bool.false_ne_true, rfl, htick, rfl⟩

theorem new_capsuleBetween (h : Diffable base target) (ht : target.graph.KeysMatch)
    (htick : target.tick ≤ publishedAtTick) :
    ObservationCapsule.new base.anchor target.anchor (deltaBetween base target) publishedAtTick =
      .ok (capsuleBetween base target publishedAtTick) := by
  have hcount := length_changes_le h ht
  have hepoch := ObservationCursor.checkedNext_epoch h.cursor
  have hsequence := sequence_lt h
  have hadvancing : ¬ ((deltaBetween base target).changes.length > maxStateDeltaChanges ∨
      (deltaBetween base target).truncated = true ∨
      (deltaBetween base target).continuation.isSome = true ∨
      (deltaBetween base target).targetCursor.epoch ≠ (deltaBetween base target).baseCursor.epoch ∨
      (deltaBetween base target).targetCursor.sequence ≤
        (deltaBetween base target).baseCursor.sequence) := by
    rintro (hlong | htruncated | hopen | hspan | hstale)
    · exact absurd hcount (not_le.2 hlong)
    · cases htruncated
    · cases hopen
    · exact hspan hepoch
    · exact absurd hsequence (not_lt.2 hstale)
  unfold ObservationCapsule.new
  refine guard_ok_iff.2 ⟨not_not.2 h.fortress.symm, guard_ok_iff.2 ⟨not_not.2 rfl,
    guard_ok_iff.2 ⟨not_not.2 rfl, guard_ok_iff.2 ⟨not_not.2 rfl, guard_ok_iff.2 ⟨not_not.2 rfl,
    guard_ok_iff.2 ⟨not_not.2 rfl, guard_ok_iff.2 ⟨?_, guard_ok_iff.2 ⟨hadvancing,
    guard_ok_iff.2 ⟨not_lt.2 htick, rfl⟩⟩⟩⟩⟩⟩⟩⟩⟩
  exact not_or.2 ⟨not_not.2 rfl, not_lt.2 h.tick⟩

theorem tick_le_of_new {basis successor : StateAnchor} {delta : StateDelta}
    {capsule : ObservationCapsule}
    (h : ObservationCapsule.new basis successor delta publishedAtTick = .ok capsule) :
    successor.tick ≤ publishedAtTick := by
  unfold ObservationCapsule.new at h
  iterate 8 obtain ⟨-, h⟩ := guard_ok_iff.1 h
  exact not_lt.1 (guard_ok_iff.1 h).1

end Capsule

/-! ## Kinds -/

theorem EntityKind.unaliased_canonical (kind : EntityKind) : kind.canonical.Unaliased := by
  refine (EntityKind.canonical_eq_self_iff _).1 ?_
  rw [EntityKind.canonical, EntityKind.asStr_canonical]
  rfl

theorem EdgeKind.unaliased_canonical (kind : EdgeKind) : kind.canonical.Unaliased := by
  refine (EdgeKind.canonical_eq_self_iff _).1 ?_
  rw [EdgeKind.canonical, EdgeKind.asStr_canonical]
  rfl

theorem WorldEventKind.unaliased_canonical (kind : WorldEventKind) :
    kind.canonical.Unaliased := by
  refine (WorldEventKind.canonical_eq_self_iff _).1 ?_
  rw [WorldEventKind.canonical, WorldEventKind.asStr_canonical]
  rfl

/-- The projection was decoded, so its kinds borrow no reserved names. -/
theorem unaliased_project (profile : CompletenessProfile) (graph : WorldGraph) :
    (profile.projectGraph graph.canonical).Unaliased := by
  have hedge : ∀ e, (profile.deliverEdge graph e).kind = e.kind.canonical := by
    intro e
    unfold CompletenessProfile.deliverEdge CompletenessProfile.projectEdge
    split <;> rfl
  rw [profile.projectGraph_canonical]
  refine ⟨fun e he => ?_, fun e he => ?_, fun e he => ?_⟩
  · obtain ⟨id, hget⟩ := (OMap.mem_values_iff _ _).1 he
    rw [OMap.get?_mapValues, Option.map_eq_some_iff] at hget
    obtain ⟨source, -, rfl⟩ := hget
    rw [CompletenessProfile.deliverEntity, profile.kind_projectEntity]
    exact EntityKind.unaliased_canonical source.kind
  · obtain ⟨id, hget⟩ := (OMap.mem_values_iff _ _).1 he
    rw [OMap.get?_mapValues, Option.map_eq_some_iff] at hget
    obtain ⟨source, -, rfl⟩ := hget
    rw [hedge]
    exact EdgeKind.unaliased_canonical source.kind
  · obtain ⟨id, hget⟩ := (OMap.mem_values_iff _ _).1 he
    have hevent := (get?_delivered.1 hget).2
    rw [WorldGraph.canonical, OMap.get?_mapValues, Option.map_eq_some_iff] at hevent
    obtain ⟨source, -, rfl⟩ := hevent
    exact WorldEventKind.unaliased_canonical source.kind

theorem unaliased_diffChanges {b t : WorldGraph} (h : t.Unaliased) :
    ∀ c ∈ diffChanges b t, c.Unaliased := by
  intro c hc
  simp only [diffChanges_eq, List.mem_append, mem_mapChanges_iff, mem_newEvents_iff] at hc
  rcases hc with (⟨k, v, -, -, rfl⟩ | ⟨k, v, hk, -, rfl⟩) |
    (⟨k, v, -, -, rfl⟩ | ⟨k, v, hk, -, rfl⟩) | (⟨k, v, -, -, rfl⟩ | ⟨k, v, -, -, rfl⟩) |
    ⟨k, v, hk, -, rfl⟩
  · trivial
  · exact h.entities v ((OMap.mem_values_iff _ _).2 ⟨k, hk⟩)
  · trivial
  · exact h.edges v ((OMap.mem_values_iff _ _).2 ⟨k, hk⟩)
  · trivial
  · trivial
  · exact h.events v ((OMap.mem_values_iff _ _).2 ⟨k, hk⟩)

/-! ## The capsule of a transition -/

theorem validateDeltaEncoding_ok {d : StateDelta} (h : validateDeltaEncoding d = .ok ()) :
    d.canonicalBytes.length ≤ EncodingBudget.limit ∧ d.Decodable := by
  obtain ⟨hcount, h⟩ := guard_ok_iff.1 h
  obtain ⟨after, hcharged, -⟩ := bind_ok_iff.1 h
  obtain ⟨hlength, hlimit, hshallow⟩ := EncodingBudget.delta_charged hcharged
  exact ⟨hlength.trans hlimit, hshallow, not_lt.1 hcount⟩

namespace ProfiledObservationCapsule

/-- The bytes of a capsule, without the check of their number. -/
def envelope (c : ProfiledObservationCapsule) : Bytes :=
  putStr "dfmcp-profiled-capsule-v1" ++ (putBytes c.basisDigest.bytes ++
    (putAnchor c.successorSource ++ (putBytes c.successorDigest.bytes ++
    (putAnchor c.capsule.basisAnchor ++ (putAnchor c.capsule.successorAnchor ++
    (putU64 c.capsule.publishedAtTick ++ putBytes c.capsule.delta.canonicalBytes))))))

/-- A capsule within the budget has its bytes. -/
theorem canonicalBytes_eq {c : ProfiledObservationCapsule}
    (h : validateDeltaEncoding c.capsule.delta = .ok ()) :
    c.canonicalBytes = .ok c.envelope ∧ c.envelope.length ≤ maxProfileBytes := by
  have hdelta := (validateDeltaEncoding_ok h).1
  have hdomain : (putStr "dfmcp-profiled-capsule-v1").length = 33 := by decide
  have hanchor : ∀ a : StateAnchor, (putAnchor a).length = 72 := by
    intro a
    simp [putAnchor, putU64, putBytes, putLen, a.stateHash.length_eq]
  have hlimit : EncodingBudget.limit + 345 ≤ maxProfileBytes := by decide
  have hlength : c.envelope.length ≤ maxProfileBytes := by
    simp only [envelope, List.length_append, hdomain, hanchor, putBytes, putLen, putU64,
      length_beBytes, c.basisDigest.length_eq, c.successorDigest.length_eq]
    omega
  refine ⟨?_, hlength⟩
  unfold canonicalBytes
  refine check_ok_iff.2 ⟨h, ?_⟩
  simp only [List.append_assoc]
  exact if_neg (not_lt.2 hlength)

/-- The capsule between two projections. -/
def link (base target : ProfiledSnapshot) (publishedAtTick : GameTick) :
    ProfiledObservationCapsule :=
  let c : ProfiledObservationCapsule := ⟨base.digest, target.sourceAnchor, target.digest,
    capsuleBetween base.snapshot target.snapshot publishedAtTick, Digest32.zero⟩
  { c with digest := .ofBytes c.envelope }

section Link

variable {base target : ProfiledSnapshot} {publishedAtTick : GameTick}

theorem between_eq (hprofile : base.profile = target.profile)
    (hprovenance : base.provenance = target.provenance)
    (hextensions : base.extensions = target.extensions)
    (hbase : base.snapshot.hashIsValid = true) (htarget : target.snapshot.hashIsValid = true)
    (hkeys : target.snapshot.graph.KeysMatch)
    (hpaused : target.snapshot.paused = base.snapshot.paused)
    {c : ProfiledObservationCapsule} :
    between base target publishedAtTick = .ok c ↔
      Diffable base.snapshot target.snapshot ∧
      validateDeltaEncoding (deltaBetween base.snapshot target.snapshot) = .ok () ∧
      target.snapshot.tick ≤ publishedAtTick ∧ c = link base target publishedAtTick := by
  have hfree : NoCollision (target.snapshot.withPaused base.snapshot.paused).canonicalBytes
      target.snapshot.canonicalBytes := .of_eq (by rw [← hpaused]; rfl)
  unfold between
  rw [guard_ok_iff, bind_ok_iff]
  constructor
  · intro h
    obtain ⟨-, d, hd, h⟩ := h
    obtain ⟨hdiff, rfl⟩ := (diffSnapshots_ok_iff hbase htarget hkeys hfree d).1 hd
    obtain ⟨hbudget, h⟩ := check_ok_iff.1 h
    obtain ⟨capsule, hnew, h⟩ := bind_ok_iff.1 h
    have htick : target.snapshot.tick ≤ publishedAtTick := tick_le_of_new hnew
    obtain rfl := Except.ok.inj (hnew.symm.trans (new_capsuleBetween hdiff hkeys htick))
    obtain ⟨bytes, hbytes, h⟩ := bind_ok_iff.1 h
    obtain rfl := Except.ok.inj (hbytes.symm.trans (canonicalBytes_eq (c := link base target publishedAtTick) hbudget).1)
    exact ⟨hdiff, hbudget, htick, (Except.ok.inj h).symm⟩
  · intro h
    obtain ⟨hdiff, hbudget, htick, rfl⟩ := h
    refine ⟨by simp [hprofile, hprovenance, hextensions], _,
      (diffSnapshots_ok_iff hbase htarget hkeys hfree _).2 ⟨hdiff, rfl⟩, ?_⟩
    refine check_ok_iff.2 ⟨hbudget, bind_ok_iff.2 ⟨_, new_capsuleBetween hdiff hkeys htick, ?_⟩⟩
    exact bind_ok_iff.2 ⟨_, (canonicalBytes_eq (c := link base target publishedAtTick) hbudget).1, rfl⟩

/-- **Applying the capsule gives the second projection.** -/
theorem apply_link (hbase : base.snapshot.hashIsValid = true)
    (htarget : target.snapshot.hashIsValid = true) (hkeys : target.snapshot.graph.KeysMatch)
    (hsealed : ProfiledSnapshot.sealEnvelope base.profile target.sourceAnchor base.provenance
      target.snapshot base.extensions = .ok target)
    (hdiff : Diffable base.snapshot target.snapshot)
    (hbudget : validateDeltaEncoding (deltaBetween base.snapshot target.snapshot) = .ok ())
    (htick : target.snapshot.tick ≤ publishedAtTick) :
    (link base target publishedAtTick).apply base = .ok target := by
  have hintegrity := integrityIsValid_capsuleBetween hdiff hkeys htick
  unfold apply
  refine check_ok_iff.2 ⟨hbudget, guard_ok_iff.2 ⟨?_, bind_ok_iff.2 ⟨target.snapshot,
    applyDelta_deltaBetween hbase htarget hkeys hdiff, bind_ok_iff.2 ⟨target, hsealed, ?_⟩⟩⟩⟩
  · exact not_or.2 ⟨not_not.2 rfl, not_or.2 ⟨not_not.2 rfl, not_not.2 hintegrity⟩⟩
  · exact guard_ok_iff.2 ⟨not_not.2 rfl, rfl⟩

theorem read_envelope {c : ProfiledObservationCapsule} (hlength : c.envelope.length < 2 ^ 64)
    (hdelta : StateDelta.fromCanonicalBytes c.capsule.delta.canonicalBytes =
      .ok c.capsule.delta) :
    read c.envelope = .ok ((c.basisDigest, c.successorSource, c.successorDigest,
      c.capsule.basisAnchor, c.capsule.successorAnchor, c.capsule.publishedAtTick,
      c.capsule.delta), []) := by
  have hraw : c.capsule.delta.canonicalBytes.length < 2 ^ 64 := by
    simp only [envelope, List.length_append, putBytes] at hlength
    omega
  have hlast : ParsesAll True (do
      let raw ← Envelope.bytes
      let delta ← (StateDelta.fromCanonicalBytes raw : Result StateDelta)
      Envelope.finish
      pure (c.basisDigest, c.successorSource, c.successorDigest, c.capsule.basisAnchor,
        c.capsule.successorAnchor, c.capsule.publishedAtTick, delta))
      (putBytes c.capsule.delta.canonicalBytes ++ []) (c.basisDigest, c.successorSource,
        c.successorDigest, c.capsule.basisAnchor, c.capsule.successorAnchor,
        c.capsule.publishedAtTick, c.capsule.delta) := by
    refine (Envelope.parses_bytes hraw).bind_all fun _ => .inl ?_
    rw [hdelta]
    rfl
  rw [List.append_nil] at hlast
  have htag : strLen "dfmcp-profiled-capsule-v1" < 2 ^ 64 := by
    have hcount : strLen "dfmcp-profiled-capsule-v1" = 25 := by decide
    omega
  have hall : ParsesAll True read c.envelope (c.basisDigest, c.successorSource, c.successorDigest,
      c.capsule.basisAnchor, c.capsule.successorAnchor, c.capsule.publishedAtTick,
      c.capsule.delta) :=
    (Envelope.parses_domain htag).bind_all ((Envelope.parses_digest _).bind_all
      ((Envelope.parses_anchor _).bind_all ((Envelope.parses_digest _).bind_all
        ((Envelope.parses_anchor _).bind_all ((Envelope.parses_anchor _).bind_all
          ((Envelope.parses_u64 _).bind_all hlast))))))
  exact (hall hlength).resolve_right fun hno => hno.1 trivial

/-- **Decoding gives the capsule back.** -/
theorem fromCanonicalBytes_link {c : ProfiledObservationCapsule} {after : ProfiledSnapshot}
    (hbudget : validateDeltaEncoding c.capsule.delta = .ok ())
    (hkinds : ∀ change ∈ c.capsule.delta.changes, change.Unaliased)
    (hnew : ObservationCapsule.new c.capsule.basisAnchor c.capsule.successorAnchor c.capsule.delta
      c.capsule.publishedAtTick = .ok c.capsule)
    (hdigest : c.digest = .ofBytes c.envelope) (happly : c.apply base = .ok after) :
    fromCanonicalBytes c.envelope base = .ok c := by
  obtain ⟨hbytes, hlength⟩ := canonicalBytes_eq hbudget
  obtain ⟨hdelta, hdecodable⟩ := validateDeltaEncoding_ok hbudget
  have hcanonical : c.capsule.delta.canonical = c.capsule.delta := by
    rw [StateDelta.canonical, List.map_congr_left fun change hc =>
      WorldChange.canonical_eq_self (hkinds change hc), List.map_id']
  have hdecoded := StateDelta.fromCanonicalBytes_canonicalBytes hdecodable
    (hdelta.trans (by decide))
  rw [hcanonical] at hdecoded
  have hread := read_envelope (hlength.trans_lt (by decide)) hdecoded
  unfold fromCanonicalBytes
  refine guard_ok_iff.2 ⟨not_lt.2 hlength, bind_ok_iff.2 ⟨_, hread, ?_⟩⟩
  refine check_ok_iff.2 ⟨hbudget, bind_ok_iff.2 ⟨_, hnew, ?_⟩⟩
  have hresult : (⟨c.basisDigest, c.successorSource, c.successorDigest, c.capsule,
      Digest32.ofBytes c.envelope⟩ : ProfiledObservationCapsule) = c := by
    rw [← hdigest]
  dsimp only
  rw [hresult]
  exact bind_ok_iff.2 ⟨after, happly, bind_ok_iff.2 ⟨_, hbytes, if_neg (not_not.2 rfl)⟩⟩

end Link

end ProfiledObservationCapsule

open ProfiledSnapshot ProfiledObservationCapsule

section Commute

variable {s t : WorldSnapshot} {profile : CompletenessProfile} {provenance : ProjectionProvenance}
  {extensions : BTreeMap String Bytes} {d : StateDelta} {base target : ProfiledSnapshot}
  {publishedAtTick : GameTick}

/-- What the projections of a transition are known to be. -/
structure Projections (s t : WorldSnapshot) (profile : CompletenessProfile)
    (base target : ProfiledSnapshot) : Prop where
  diffable : Diffable s t
  keys : t.graph.KeysMatch
  profiles : base.profile = target.profile
  provenances : base.provenance = target.provenance
  sameExtensions : base.extensions = target.extensions
  projectedBase : base.snapshot = s.projected profile
  projectedTarget : target.snapshot = t.projected profile
  resealed : sealEnvelope base.profile target.sourceAnchor base.provenance target.snapshot
    base.extensions = .ok target

theorem projections_of_project (hdiff : diffSnapshots s t = .ok d)
    (hbase : project s profile provenance extensions = .ok base)
    (htarget : project t profile provenance extensions = .ok target)
    (hfree : NoCollision (t.withPaused s.paused).canonicalBytes t.canonicalBytes) :
    Projections s t profile base target := by
  obtain ⟨hsvalid, hssealed⟩ := project_ok hbase
  obtain ⟨htvalid, htsealed⟩ := project_ok htarget
  obtain ⟨hshash, -, -, -⟩ := validateProfiled_ok hsvalid
  obtain ⟨hthash, -, hkeys, -⟩ := validateProfiled_ok htvalid
  obtain ⟨hlegal, -⟩ := (diffSnapshots_ok_iff hshash hthash hkeys hfree d).1 hdiff
  obtain ⟨hprofile, -, hprovenance, hsnapshot, hextensions⟩ := sealEnvelope_ok hssealed
  obtain ⟨hprofile', hanchor', hprovenance', hsnapshot', hextensions'⟩ := sealEnvelope_ok htsealed
  refine ⟨hlegal, hkeys, hprofile.trans hprofile'.symm, hprovenance.trans hprovenance'.symm,
    hextensions.trans hextensions'.symm, hsnapshot, hsnapshot', ?_⟩
  rw [hprofile, hanchor', hprovenance, hsnapshot', hextensions]
  exact htsealed

/-- When two projections are linked. -/
theorem between_projections_iff (h : Projections s t profile base target)
    {c : ProfiledObservationCapsule} :
    between base target publishedAtTick = .ok c ↔
      EdgesSteady profile s.graph t.graph ∧
      validateDeltaEncoding (deltaBetween (s.projected profile) (t.projected profile)) = .ok () ∧
      t.tick ≤ publishedAtTick ∧ c = link base target publishedAtTick := by
  have hbase : base.snapshot.hashIsValid = true := by
    rw [h.projectedBase]
    exact hashIsValid_projected s profile
  have htarget : target.snapshot.hashIsValid = true := by
    rw [h.projectedTarget]
    exact hashIsValid_projected t profile
  have hkeys : target.snapshot.graph.KeysMatch := by
    rw [h.projectedTarget]
    exact keysMatch_project h.keys
  have hpaused : target.snapshot.paused = base.snapshot.paused := by
    rw [h.projectedBase, h.projectedTarget]
    exact h.diffable.paused
  rw [between_eq h.profiles h.provenances h.sameExtensions hbase htarget hkeys hpaused, h.projectedBase,
    h.projectedTarget, diffable_project_iff h.diffable h.keys]
  rfl

/-- **When projecting commutes with deltas.** Where a delta leads from one snapshot to another,
the capsule between their projections exists, leads from one to the other and is decoded from its
bytes, exactly when no relation that stays the same gains or loses its fields, the projected
delta is within the encoding budget, and it is published no earlier than its target. -/
theorem projection_commutes_iff (publishedAtTick : GameTick) (hdiff : diffSnapshots s t = .ok d)
    (hbase : project s profile provenance extensions = .ok base)
    (htarget : project t profile provenance extensions = .ok target)
    (hfree : NoCollision (t.withPaused s.paused).canonicalBytes t.canonicalBytes) :
    (∃ c, between base target publishedAtTick = .ok c ∧ c.apply base = .ok target ∧
      ∃ bytes, c.canonicalBytes = .ok bytes ∧ fromCanonicalBytes bytes base = .ok c) ↔
    EdgesSteady profile s.graph t.graph ∧
      validateDeltaEncoding (deltaBetween (s.projected profile) (t.projected profile)) = .ok () ∧
      t.tick ≤ publishedAtTick := by
  have h := projections_of_project hdiff hbase htarget hfree
  constructor
  · intro hcapsule
    obtain ⟨c, hc, -, -⟩ := hcapsule
    obtain ⟨hsteady, hbudget, htick, -⟩ := (between_projections_iff h).1 hc
    exact ⟨hsteady, hbudget, htick⟩
  · intro hcondition
    obtain ⟨hsteady, hbudget, htick⟩ := hcondition
    have hdiffable := (diffable_project_iff h.diffable h.keys).2 hsteady
    have hkeys : (t.projected profile).graph.KeysMatch := keysMatch_project h.keys
    have hbetween := @between_projections_iff _ _ _ _ _ publishedAtTick h
      (link base target publishedAtTick) |>.2 ⟨hsteady, hbudget, htick, rfl⟩
    have hkinds := unaliased_diffChanges (b := (s.projected profile).graph)
      (unaliased_project profile t.graph)
    rw [← h.projectedBase, ← h.projectedTarget] at hdiffable hbudget
    rw [← h.projectedTarget] at hkeys
    have happly : (link base target publishedAtTick).apply base = .ok target :=
      apply_link (by rw [h.projectedBase]; exact hashIsValid_projected s profile)
        (by rw [h.projectedTarget]; exact hashIsValid_projected t profile) hkeys h.resealed hdiffable hbudget
        (by rw [h.projectedTarget]; exact htick)
    refine ⟨_, hbetween, happly, _, (canonicalBytes_eq (c := link base target publishedAtTick) hbudget).1, ?_⟩
    refine fromCanonicalBytes_link (c := link base target publishedAtTick) hbudget ?_
      (new_capsuleBetween hdiffable hkeys (by rw [h.projectedTarget]; exact htick)) rfl happly
    rw [← h.projectedBase] at hkinds
    change ∀ change ∈ diffChanges base.snapshot.graph target.snapshot.graph, change.Unaliased
    rw [h.projectedTarget]
    exact hkinds

end Commute

/-! ## The preflight -/

/-- **The preflight of an encoding is sound.** A snapshot or a delta that is charged within the
budget encodes in no more bytes than it was charged, and the charge stays within the limit; so an
envelope or a capsule that passes its validation has its bytes, and never too many. -/
theorem preflight_sound :
    (∀ s charged, EncodingBudget.snapshot s = .ok charged →
      s.canonicalBytes.length ≤ charged ∧ charged ≤ EncodingBudget.limit) ∧
    (∀ d charged, EncodingBudget.delta d = .ok charged →
      d.canonicalBytes.length ≤ charged ∧ charged ≤ EncodingBudget.limit) ∧
    (∀ p : ProfiledSnapshot, validateProvenance p.provenance p.extensions = .ok () →
      p.snapshot.validateProfiled = .ok () →
      ∃ bytes, p.canonicalBytes = .ok bytes ∧ bytes.length ≤ maxProfileBytes) ∧
    ∀ c : ProfiledObservationCapsule, validateDeltaEncoding c.capsule.delta = .ok () →
      ∃ bytes, c.canonicalBytes = .ok bytes ∧ bytes.length ≤ maxProfileBytes := by
  refine ⟨fun s charged h => ?_, fun d charged h => ?_, fun p hprovenance hsnapshot => ?_,
    fun c h => ?_⟩
  · obtain ⟨hlength, hlimit, -⟩ := EncodingBudget.snapshot_charged h
    exact ⟨hlength, hlimit⟩
  · obtain ⟨hlength, hlimit, -⟩ := EncodingBudget.delta_charged h
    exact ⟨hlength, hlimit⟩
  · exact ProfiledSnapshot.canonicalBytes_eq hprovenance hsnapshot
  · obtain ⟨hbytes, hlength⟩ := ProfiledObservationCapsule.canonicalBytes_eq h
    exact ⟨_, hbytes, hlength⟩

/-! ## A relation whose endpoint changes its kind -/

instance (profile : CompletenessProfile) (base target : WorldGraph) :
    Decidable (EdgesSteady profile base target) :=
  decidable_of_iff _ (OMap.forall_get?_iff base.edges (p := fun id edge =>
    target.edges.get? id = some edge → profile.includesEdgeFields base.entities edge =
      profile.includesEdgeFields target.entities edge ∨
    profile.omitFields edge.fields = edge.fields)).symm

namespace Sample

/-- A relation with one field. -/
def bond : EdgeRecord :=
  { edge 1 1 2 with fields := .ofList [("strength", ⟨.u64 3, 0, .replay, Digest32.zero, none⟩)] }

/-- Two entities and the relation between them; the first is of the given kind. -/
def bondedGraph (kind : EntityKind) (revision : U 64) : WorldGraph :=
  { entities [{ entity 1 revision with kind }, entity 2 1] with edges := .ofList [(1, bond)] }

/-- The first entity is a unit, and then a plant. -/
def bonded : WorldSnapshot := snapshot 0 (bondedGraph .unit 1)
def rooted : WorldSnapshot := snapshot 1 (bondedGraph .plant 2)

def manifest : ProjectionProvenance := ⟨"dfhack", ⟨List.replicate 32 1, rfl⟩⟩

theorem bonded_hash : bonded.stateHash ≠ Digest32.zero := by decide +kernel
theorem rooted_hash : rooted.stateHash ≠ Digest32.zero := by decide +kernel

theorem rooted_keys : rooted.graph.KeysMatch := by decide

theorem bonded_diffable : Diffable bonded rooted :=
  ⟨rfl, by decide, le_rfl, rfl, .of_decide rooted_keys (by decide) (by decide) (by decide)
    (by decide) (by decide) (by decide) (by decide)⟩

theorem bonded_diff : diffSnapshots bonded rooted = .ok (deltaBetween bonded rooted) :=
  (diffSnapshots_ok_iff (snapshot_hashIsValid _ _) (snapshot_hashIsValid _ _) rooted_keys
    (.of_eq rfl) _).2 ⟨bonded_diffable, rfl⟩

theorem validateProfiled_of_budget {s : WorldSnapshot} (hfortress : s.fortressId ≠ 0)
    (hbudget : (EncodingBudget.snapshot s).isOk = true) (hhash : s.hashIsValid = true) :
    s.validateProfiled = .ok () := by
  obtain ⟨after, hafter⟩ := (isOk_iff _).1 hbudget
  exact guard_ok_iff.2 ⟨hfortress, bind_ok_iff.2 ⟨after, hafter, if_neg (not_not.2 hhash)⟩⟩

/-- A small world within its budget is projected. -/
theorem exists_projection {s : WorldSnapshot} {profile : CompletenessProfile}
    (hhash : s.hashIsValid = true) (hstate : s.stateHash ≠ Digest32.zero)
    (hfortress : s.fortressId ≠ 0) (hsource : (EncodingBudget.snapshot s).isOk = true)
    (hbudget : (EncodingBudget.snapshot (s.projected profile)).isOk = true)
    (hpart : profile ≠ .researchFull)
    (hprojection : validateProjection (s.projected profile) profile = .ok ()) :
    ∃ p, ProfiledSnapshot.project s profile manifest .nil = .ok p :=
  ProfiledSnapshot.exists_project rfl (validateProfiled_of_budget hfortress hsource hhash)
    (validateProfiled_of_budget hfortress hbudget (hashIsValid_projected s profile)) hfortress
    hstate hpart hprojection

theorem bonded_projection : ∀ profile ∈ [CompletenessProfile.controlMinimum, .operations],
    ∃ p, ProfiledSnapshot.project bonded profile manifest .nil = .ok p := by
  intro profile hprofile
  simp only [List.mem_cons, List.not_mem_nil, or_false] at hprofile
  rcases hprofile with rfl | rfl <;>
    exact exists_projection (snapshot_hashIsValid _ _) bonded_hash (by decide) (by decide)
      (by decide) (by decide) (by decide)

theorem rooted_projection : ∀ profile ∈ [CompletenessProfile.controlMinimum, .operations],
    ∃ p, ProfiledSnapshot.project rooted profile manifest .nil = .ok p := by
  intro profile hprofile
  simp only [List.mem_cons, List.not_mem_nil, or_false] at hprofile
  rcases hprofile with rfl | rfl <;>
    exact exists_projection (snapshot_hashIsValid _ _) rooted_hash (by decide) (by decide)
      (by decide) (by decide) (by decide)

end Sample

/-- Two entities and a relation with a field, and the delta to the next state, fit their charge;
so do the envelope of the one and the capsule of the other. -/
theorem preflight_sound_bonded :
    (∃ charged, EncodingBudget.snapshot Sample.bonded = .ok charged ∧
      Sample.bonded.canonicalBytes.length ≤ charged ∧ charged ≤ EncodingBudget.limit) ∧
    (∃ charged, EncodingBudget.delta (deltaBetween Sample.bonded Sample.rooted) = .ok charged ∧
      (deltaBetween Sample.bonded Sample.rooted).canonicalBytes.length ≤ charged ∧
      charged ≤ EncodingBudget.limit) ∧
    (∃ bytes, (ProfiledSnapshot.mk .operations Sample.bonded.anchor Sample.manifest Sample.bonded
      .nil Digest32.zero).canonicalBytes = .ok bytes ∧ bytes.length ≤ maxProfileBytes) ∧
    ∃ bytes, (ProfiledObservationCapsule.mk Digest32.zero Sample.rooted.anchor Digest32.zero
      (capsuleBetween Sample.bonded Sample.rooted 0) Digest32.zero).canonicalBytes = .ok bytes ∧
      bytes.length ≤ maxProfileBytes := by
  obtain ⟨snapshots, deltas, envelopes, capsules⟩ := preflight_sound
  refine ⟨?_, ?_, ?_, ?_⟩
  · obtain ⟨charged, hcharged⟩ :=
      (isOk_iff (EncodingBudget.snapshot Sample.bonded)).1 (by decide)
    exact ⟨charged, hcharged, snapshots _ _ hcharged⟩
  · obtain ⟨charged, hcharged⟩ :=
      (isOk_iff (EncodingBudget.delta (deltaBetween Sample.bonded Sample.rooted))).1 (by decide)
    exact ⟨charged, hcharged, deltas _ _ hcharged⟩
  · exact envelopes _ rfl (Sample.validateProfiled_of_budget (by decide) (by decide)
      (Sample.snapshot_hashIsValid _ _))
  · exact capsules _ (by decide)

/-- Under a profile that delivers both kinds, the relation stays as it is. -/
theorem projection_commutes_bonded :
    ∃ base target c, project Sample.bonded .controlMinimum Sample.manifest .nil = .ok base ∧
      project Sample.rooted .controlMinimum Sample.manifest .nil = .ok target ∧
      between base target 0 = .ok c ∧ c.apply base = .ok target ∧
      ∃ bytes, c.canonicalBytes = .ok bytes ∧ fromCanonicalBytes bytes base = .ok c := by
  obtain ⟨base, hbase⟩ := Sample.bonded_projection .controlMinimum (by decide)
  obtain ⟨target, htarget⟩ := Sample.rooted_projection .controlMinimum (by decide)
  obtain ⟨c, hc⟩ := (projection_commutes_iff 0 Sample.bonded_diff hbase htarget
    (.of_eq rfl)).2 ⟨by decide, by decide, by decide⟩
  exact ⟨base, target, c, hbase, htarget, hc⟩

/-- Under a profile that delivers only one of the kinds, the relation loses its field without a
new revision, and no capsule links the projections of a legal transition. -/
theorem projection_breaks_delta :
    ∃ (s t : WorldSnapshot) (d : StateDelta) (profile : CompletenessProfile)
      (provenance : ProjectionProvenance) (extensions : BTreeMap String Bytes)
      (base target : ProfiledSnapshot), diffSnapshots s t = .ok d ∧
      project s profile provenance extensions = .ok base ∧
      project t profile provenance extensions = .ok target ∧
      ∀ publishedAtTick c, between base target publishedAtTick ≠ .ok c := by
  obtain ⟨base, hbase⟩ := Sample.bonded_projection .operations (by decide)
  obtain ⟨target, htarget⟩ := Sample.rooted_projection .operations (by decide)
  refine ⟨_, _, _, _, _, _, base, target, Sample.bonded_diff, hbase, htarget, ?_⟩
  intro publishedAtTick c hc
  have h := projections_of_project Sample.bonded_diff hbase htarget (.of_eq rfl)
  exact absurd ((between_projections_iff h).1 hc).1 (by decide)

end Dfmcp
