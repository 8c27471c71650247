import Dfmcp.World.CanonicalDecodeProof
import Dfmcp.World.Query

/-!
# Queries after a reload

A snapshot is stored as its canonical bytes, which spell kinds by name and list records without
the keys they stand under. This module compares the answers given before and after.

* `evaluateTruth_withUnread`, `executeBoundedQuery_withUnread` — no answer reads the events or,
  in a world without a fortress, the hash;
* `sameAnswers_of_reloadable` — a reloadable snapshot answers as what is read back does;
* `entityKeys_of_sameAnswers` and its companions — every other snapshot gives itself away to some
  predicate of one leaf;
* `reload_answers` — the two directions together.
-/

namespace Dfmcp

open Machine Kleene

/-! ## The shape of a predicate -/

namespace Predicate

/-- A predicate without a connective at its head. -/
def IsLeaf : Predicate → Prop
  | .all _ | .any _ | .not _ => False
  | _ => True

/-- Induction over a predicate: the connectives, and every leaf. -/
theorem induct {P : Predicate → Prop} (hall : ∀ ps, (∀ p ∈ ps, P p) → P (.all ps))
    (hany : ∀ ps, (∀ p ∈ ps, P p) → P (.any ps)) (hnot : ∀ p, P p → P (.not p))
    (hleaf : ∀ p, p.IsLeaf → P p) (p : Predicate) : P p := by
  refine Predicate.rec (motive_1 := P) (motive_2 := fun ps => ∀ p ∈ ps, P p)
    (hleaf _ trivial) (hleaf _ trivial) (fun _ => hleaf _ trivial) (fun _ _ => hleaf _ trivial)
    (fun _ _ _ _ => hleaf _ trivial) (fun _ _ => hleaf _ trivial) (fun _ => hleaf _ trivial)
    (fun _ _ => hleaf _ trivial) hall hany hnot (fun _ _ _ => hleaf _ trivial)
    (fun _ _ _ _ _ _ => hleaf _ trivial) (fun _ _ _ => hleaf _ trivial)
    (fun _ _ => hleaf _ trivial) (fun _ _ _ _ _ _ _ _ _ _ => hleaf _ trivial)
    (List.forall_mem_nil _) (fun _ _ hhead htail => List.forall_mem_cons.2 ⟨hhead, htail⟩) p

theorem leaves_of_isLeaf {p : Predicate} (h : p.IsLeaf) : p.leaves = [p] := by
  cases p with
  | all ps => exact h.elim
  | any ps => exact h.elim
  | not p => exact h.elim
  | _ => rfl

theorem leavesList_eq (ps : List Predicate) : leavesList ps = ps.flatMap leaves := by
  induction ps with
  | nil => rfl
  | cons p ps ih => rw [leavesList, ih, List.flatMap_cons]

end Predicate

theorem evaluateEach_eq (s : WorldSnapshot) (candidate : Option EntityId) (ps : List Predicate) :
    evaluateEach s candidate ps = ps.map (evaluateTruth s candidate) := by
  induction ps with
  | nil => rfl
  | cons p ps ih => rw [evaluateEach, ih, List.map_cons]

/-- One step of the shape walk. -/
theorem validatePending_cases {left : Nat} {work : ShapeWork} {p : Predicate} {depth : Nat}
    {pending : List (Predicate × Nat)}
    (h : validatePending (left + 1) work ((p, depth) :: pending) = .ok ()) :
    (∃ children, (p = .all children ∨ p = .any children) ∧
      validatePending left work ((children.map (·, depth + 1)).reverse ++ pending) = .ok ()) ∨
    (∃ child, p = .not child ∧
      validatePending left work ((child, depth + 1) :: pending) = .ok ()) ∨
    p.IsLeaf ∧ ∃ after, validateLeaf work p = .ok after ∧
      validatePending left after pending = .ok () := by
  unfold validatePending at h
  split at h
  · cases h
  · cases p with
    | all children =>
        dsimp only at h
        split at h
        · cases h
        · exact .inl ⟨children, .inl rfl, h⟩
    | any children =>
        dsimp only at h
        split at h
        · cases h
        · exact .inl ⟨children, .inr rfl, h⟩
    | not child => exact .inr (.inl ⟨child, rfl, h⟩)
    | _ => exact .inr (.inr ⟨trivial, bind_ok_iff.1 h⟩)

/-- A shape that passed has passed the checks of each of its leaves. -/
theorem validatePending_leaf {left : Nat} {work : ShapeWork} {pending : List (Predicate × Nat)}
    (h : validatePending left work pending = .ok ()) :
    ∀ x ∈ pending, ∀ leaf ∈ x.1.leaves,
      ∃ before after, validateLeaf before leaf = .ok after := by
  induction left generalizing work pending with
  | zero =>
      cases pending with
      | nil => exact List.forall_mem_nil _
      | cons x pending => cases h
  | succ left ih =>
      cases pending with
      | nil => exact List.forall_mem_nil _
      | cons x pending =>
          obtain ⟨p, depth⟩ := x
          rw [List.forall_mem_cons]
          rcases validatePending_cases h with
            ⟨children, hp, hrest⟩ | ⟨child, rfl, hrest⟩ | ⟨hp, after, hleaf, hrest⟩
          · have hall := ih hrest
            refine ⟨fun leaf hmem => ?_, fun y hy => hall y (List.mem_append_right _ hy)⟩
            have hleaves : leaf ∈ children.flatMap Predicate.leaves := by
              rcases hp with rfl | rfl <;> rwa [← Predicate.leavesList_eq]
            obtain ⟨child, hchild, hmem⟩ := List.mem_flatMap.1 hleaves
            refine hall (child, depth + 1) (List.mem_append_left _ ?_) leaf hmem
            exact List.mem_reverse.2 (List.mem_map_of_mem hchild)
          · have hall := List.forall_mem_cons.1 (ih hrest)
            exact ⟨hall.1, hall.2⟩
          · refine ⟨fun leaf hmem => ?_, ih hrest⟩
            rw [Predicate.leaves_of_isLeaf hp, List.mem_singleton] at hmem
            exact ⟨work, after, hmem ▸ hleaf⟩

theorem Predicate.leaf_of_validateShape {p : Predicate} (h : p.validateShape = .ok ()) :
    ∀ leaf ∈ p.leaves, ∃ before after, validateLeaf before leaf = .ok after :=
  validatePending_leaf h (p, 1) List.mem_cons_self

/-- The baseline of a quantity increase belongs to a fortress. -/
theorem baseline_of_validateLeaf {work after : ShapeWork} {kind : EntityKind} {field : String}
    {value : Value} {quantity : Option String} {baseline increase generation : U 64}
    {anchor : StateAnchor} {digest : Digest32} {counters : U 64 × U 64 × U 64}
    (h : validateLeaf work (.entityQuantityIncrease kind field value quantity baseline increase
      anchor digest generation counters) = .ok after) : anchor.fortressId ≠ 0 := by
  rw [validateLeaf, check_ok_iff] at h
  have hguard := (guard_ok_iff.1 h.2).1
  intro hzero
  exact hguard (.inr (.inr (.inl hzero)))

/-- A valid query has a valid predicate. -/
theorem WorldQuery.validateShape_of_validate {query : WorldQuery} {hardLimit : U 32} {p : Predicate}
    (h : query.validate hardLimit = .ok ()) (hp : query.predicate = some p) :
    p.validateShape = .ok () := by
  unfold WorldQuery.validate at h
  have hrest := (guard_ok_iff.1 (guard_ok_iff.1 (guard_ok_iff.1 h).2).2).2
  rwa [hp] at hrest

/-! ## What no answer reads

Neither the events of a snapshot nor, in a world without a fortress, its hash. -/

namespace WorldSnapshot

/-- The snapshot with other events and another hash. -/
def withUnread (s : WorldSnapshot) (events : BTreeMap EventId WorldEvent) (hash : Digest32) :
    WorldSnapshot :=
  { s with graph := { s.graph with events }, stateHash := hash }

end WorldSnapshot

section Unread

variable {s : WorldSnapshot} {events : BTreeMap EventId WorldEvent} {hash : Digest32}
variable (hhash : s.fortressId = 0 ∨ hash = s.stateHash)

include hhash in
theorem release_withUnread (burrow : LaboratoryEntityIdentity)
    (civilians : List LaboratoryEntityIdentity) :
    LaboratoryCivilian.laboratoryCivilianReleaseSafetyTruth (s.withUnread events hash) burrow
        civilians =
      LaboratoryCivilian.laboratoryCivilianReleaseSafetyTruth s burrow civilians := by
  rcases hhash with hnil | rfl
  · -- Without a fortress the census refuses before it reads the anchor.
    have hrefused : ∀ t : WorldSnapshot, t.fortressId = 0 →
        LaboratoryCivilian.laboratoryCivilianCensus t burrow.id = .error (Laboratory.invalid
          "civilian census requires a nonzero fortress and selected burrow") := by
      intro t ht
      rw [LaboratoryCivilian.laboratoryCivilianCensus, if_pos (.inr ht)]
      rfl
    simp only [LaboratoryCivilian.laboratoryCivilianReleaseSafetyTruth, hrefused s hnil,
      hrefused (s.withUnread events hash) hnil]
    rfl
  · rfl

include hhash in
theorem quantity_withUnread {p : Predicate}
    (hp : ∀ leaf ∈ p.leaves, ∃ before after, validateLeaf before leaf = .ok after)
    (factValue : Fact → Option Value) :
    entityQuantityTruth (s.withUnread events hash) p factValue =
      entityQuantityTruth s p factValue := by
  cases p with
  | entityQuantityIncrease kind field value quantity baseline increase anchor digest generation
      counters =>
      rcases hhash with hnil | rfl
      · obtain ⟨_, _, hleaf⟩ := hp _ (List.mem_singleton.2 rfl)
        -- The baseline names a fortress, so it is foreign to this world.
        have hforeign : ∀ t : WorldSnapshot, t.fortressId = 0 →
            entityQuantityTruth t (.entityQuantityIncrease kind field value quantity baseline
              increase anchor digest generation counters) factValue = .unknown := by
          intro t ht
          have hne : t.anchor.fortressId ≠ anchor.fortressId := by
            rw [WorldSnapshot.anchor, ht]
            exact (baseline_of_validateLeaf hleaf).symm
          rw [entityQuantityTruth, if_pos (.inl hne)]
        rw [hforeign s hnil, hforeign (s.withUnread events hash) hnil]
      · rfl
  | _ => rfl

include hhash in
/-- Truth reads neither. -/
theorem evaluateTruth_withUnread (candidate : Option EntityId) (p : Predicate)
    (hp : ∀ leaf ∈ p.leaves, ∃ before after, validateLeaf before leaf = .ok after) :
    evaluateTruth (s.withUnread events hash) candidate p = evaluateTruth s candidate p := by
  have heach : ∀ ps : List Predicate,
      (∀ leaf ∈ ps.flatMap Predicate.leaves, ∃ before after, validateLeaf before leaf = .ok after) →
      (∀ p ∈ ps, (∀ leaf ∈ p.leaves, ∃ before after, validateLeaf before leaf = .ok after) →
        evaluateTruth (s.withUnread events hash) candidate p = evaluateTruth s candidate p) →
      evaluateEach (s.withUnread events hash) candidate ps = evaluateEach s candidate ps := by
    intro ps hleaves ih
    rw [evaluateEach_eq, evaluateEach_eq]
    apply List.map_congr_left
    intro q hq
    exact ih q hq fun leaf hleaf => hleaves leaf (List.mem_flatMap.2 ⟨q, hq, hleaf⟩)
  induction p using Predicate.induct with
  | hall ps ih =>
      rw [evaluateTruth, evaluateTruth, heach ps (Predicate.leavesList_eq ps ▸ hp) ih]
  | hany ps ih =>
      rw [evaluateTruth, evaluateTruth, heach ps (Predicate.leavesList_eq ps ▸ hp) ih]
  | hnot p ih => rw [evaluateTruth, evaluateTruth, ih hp]
  | hleaf p hleaf =>
      cases p with
      | all ps => exact hleaf.elim
      | any ps => exact hleaf.elim
      | not p => exact hleaf.elim
      | laboratoryCivilianReleaseSafety burrow civilians =>
          exact congrArg truthOrUnknown (release_withUnread hhash burrow civilians)
      | entityQuantityIncrease => exact quantity_withUnread hhash hp Fact.knownValue
      | _ => rfl

include hhash in
theorem matches_withUnread {query : WorldQuery} {hardLimit : U 32}
    (hvalid : query.validate hardLimit = .ok ()) :
    query.matches (s.withUnread events hash) = query.matches s := by
  unfold WorldQuery.matches
  cases hpredicate : query.predicate with
  | none => rfl
  | some p =>
      apply List.filter_congr
      intro entity _
      have hleaves := Predicate.leaf_of_validateShape (query.validateShape_of_validate hvalid hpredicate)
      exact congrArg Truth.isTrue (evaluateTruth_withUnread hhash (some entity.id) p hleaves)

include hhash in
/-- Nor does a query. -/
theorem executeBoundedQuery_withUnread (query : WorldQuery) (hardLimit : U 32)
    (byteLimit : Option Nat) :
    executeBoundedQuery (s.withUnread events hash) query hardLimit byteLimit =
      executeBoundedQuery s query hardLimit byteLimit := by
  have hentities : (s.withUnread events hash).graph.entities = s.graph.entities := rfl
  have hfortress : (s.withUnread events hash).fortressId = s.fortressId := rfl
  have hcursor : (s.withUnread events hash).cursor = s.cursor := rfl
  have hoffset : query.offset (s.withUnread events hash) = query.offset s := rfl
  unfold executeBoundedQuery
  cases hvalid : query.validate hardLimit with
  | error e =>
      have hrefused : ∀ f : Unit → Result QueryResult, (Except.error e >>= f) = .error e :=
        fun _ => rfl
      rw [hrefused, hrefused]
  | ok u => rw [matches_withUnread hhash hvalid, hentities, hfortress, hcursor, hoffset]

end Unread

/-! ## Answers before and after a reload -/

/-- No shape-valid predicate and no query tells two snapshots apart. -/
structure SameAnswers (s t : WorldSnapshot) : Prop where
  truth : ∀ p : Predicate, p.validateShape = .ok () →
    ∀ candidate, evaluateTruth s candidate p = evaluateTruth t candidate p
  query : ∀ query hardLimit byteLimit,
    executeBoundedQuery s query hardLimit byteLimit =
      executeBoundedQuery t query hardLimit byteLimit

namespace WorldSnapshot

/-- Entities and edges stand under their own identifiers, their kinds borrow no reserved name,
and the hash of a fortress is that of its content. -/
structure Reloadable (s : WorldSnapshot) : Prop where
  entityKeys : ∀ x ∈ s.graph.entities.toList, x.2.id = x.1
  edgeKeys : ∀ x ∈ s.graph.edges.toList, x.2.id = x.1
  entityKinds : ∀ e ∈ s.graph.entities.values, e.kind.Unaliased
  edgeKinds : ∀ e ∈ s.graph.edges.values, e.kind.Unaliased
  hash : s.fortressId = 0 ∨ s.hashIsValid = true

/-- Every chunk is stored under its own coordinate. -/
def ChunksInPlace (s : WorldSnapshot) : Prop := ∀ x ∈ s.graph.chunks.toList, x.2.coord = x.1

end WorldSnapshot

section Reload

variable {s t : WorldSnapshot}

/-- What comes back, part by part. -/
theorem reload_parts (h : WorldSnapshot.fromCanonicalBytes s.canonicalBytes = .ok t) :
    ∃ rekeyed : WorldGraph, rekeyed.Rekeys s.graph ∧
      t = { s with graph := rekeyed.canonical, stateHash := s.computeHash } := by
  obtain ⟨rekeyed, hrekeys, heq⟩ := WorldSnapshot.rekeys_of_fromCanonicalBytes h
  refine ⟨rekeyed, hrekeys, ?_⟩
  rw [heq, WorldSnapshot.canonical_eq]
  simp only [WorldSnapshot.computeHash, WorldSnapshot.canonicalBytes, hrekeys.encode_eq]

/-- Records that stood under their own identifiers stay where they were. -/
theorem eq_of_rekeyed {K V : Type} [LinearOrder K] {m rekeyed : BTreeMap K V} {key : V → K}
    (h : rekeyed.toList = m.values.map fun v => (key v, v))
    (hkeys : ∀ x ∈ m.toList, key x.2 = x.1) : rekeyed = m := by
  apply OMap.toList_injective
  rw [h, OMap.values, List.map_map]
  refine (List.map_congr_left fun x hx => ?_).trans (List.map_id _)
  rw [Function.comp_apply, hkeys x hx]
  rfl

/-- A reloadable snapshot differs from what comes back in what no answer reads. -/
theorem sameAnswers_of_reloadable
    (h : WorldSnapshot.fromCanonicalBytes s.canonicalBytes = .ok t) (hs : s.Reloadable)
    (hchunks : s.ChunksInPlace) : SameAnswers s t := by
  obtain ⟨rekeyed, hrekeys, rfl⟩ := reload_parts h
  have hentities : rekeyed.canonical.entities = s.graph.entities := by
    rw [WorldGraph.canonical, eq_of_rekeyed hrekeys.entities hs.entityKeys]
    apply OMap.mapValues_eq_self
    intro e he
    rw [EntityRecord.canonical, (EntityKind.canonical_eq_self_iff _).2 (hs.entityKinds e he)]
  have hedges : rekeyed.canonical.edges = s.graph.edges := by
    rw [WorldGraph.canonical, eq_of_rekeyed hrekeys.edges hs.edgeKeys]
    apply OMap.mapValues_eq_self
    intro e he
    rw [EdgeRecord.canonical, (EdgeKind.canonical_eq_self_iff _).2 (hs.edgeKinds e he)]
  have hplaces : rekeyed.canonical.chunks = s.graph.chunks := eq_of_rekeyed hrekeys.chunks hchunks
  have hgraph : rekeyed.canonical =
      ⟨s.graph.entities, s.graph.edges, s.graph.chunks, rekeyed.canonical.events⟩ := by
    rw [← hentities, ← hedges, ← hplaces]
  have hhash : s.fortressId = 0 ∨ s.computeHash = s.stateHash := by
    rcases hs.hash with hnil | hvalid
    · exact .inl hnil
    · exact .inr ((WorldSnapshot.hashIsValid_iff s).1 hvalid).symm
  rw [hgraph]
  refine ⟨fun p hp candidate => ?_, fun query hardLimit byteLimit => ?_⟩
  · exact (evaluateTruth_withUnread hhash candidate p
      (Predicate.leaf_of_validateShape hp)).symm
  · exact (executeBoundedQuery_withUnread hhash query hardLimit byteLimit).symm

/-! ### What the answers reveal -/

theorem validatePending_nil (left : Nat) (work : ShapeWork) :
    validatePending left work [] = .ok () := by
  cases left <;> rfl

theorem validatePending_leaf_cons {left depth : Nat} {work after : ShapeWork} {p : Predicate}
    (hp : p.IsLeaf) (hdepth : depth ≤ maxQueryPredicateDepth)
    (h : validateLeaf work p = .ok after) :
    validatePending (left + 1) work [(p, depth)] = .ok () := by
  have hrest : (validateLeaf work p >>= fun work => validatePending left work []) = .ok () := by
    rw [h]
    exact validatePending_nil left after
  unfold validatePending
  rw [if_neg (not_lt.2 hdepth)]
  cases p with
  | all ps => exact hp.elim
  | any ps => exact hp.elim
  | not p => exact hp.elim
  | _ => exact hrest

/-- A leaf that passes its own checks is a valid predicate. -/
theorem Predicate.validateShape_of_leaf {p : Predicate} {after : ShapeWork} (hp : p.IsLeaf)
    (h : validateLeaf ⟨0, 0, 0⟩ p = .ok after) : p.validateShape = .ok () := by
  unfold Predicate.validateShape
  exact validatePending_leaf_cons hp (by decide) h

theorem targetEntity_self (id : EntityId) : targetEntity id (some id) = id := by
  simp [targetEntity]

theorem ofBool_injective {a b : Bool} (h : Truth.ofBool a = Truth.ofBool b) : a = b := by
  cases a <;> cases b <;> first | rfl | cases h

/-- Keys that look the same after records are filed anew were the identifiers already. -/
theorem keys_of_contains {K V : Type} [LinearOrder K] {m rekeyed : BTreeMap K V} {key : V → K}
    (h : rekeyed.toList = m.values.map fun v => (key v, v))
    (hcontains : ∀ k, m.contains k = rekeyed.contains k) : ∀ x ∈ m.toList, key x.2 = x.1 := by
  have hkeys := OMap.keys_eq_of_contains hcontains
  rw [OMap.keys, OMap.keys, h, List.map_map, OMap.values, List.map_map] at hkeys
  intro x hx
  exact (List.map_inj_left.1 hkeys x hx).symm

theorem tileTruth_injective {a b : Option (U 32)} (h : ∀ code, tileTruth code a = tileTruth code b) :
    a = b := by
  cases a with
  | none =>
      cases b with
      | none => rfl
      | some code => simpa [tileTruth, Truth.ofBool] using h code
  | some code =>
      have hcode := h code
      cases b with
      | none => simp [tileTruth, Truth.ofBool] at hcode
      | some code' =>
          by_cases heq : code' = code
          · rw [heq]
          · simp [tileTruth, Truth.ofBool, heq] at hcode

theorem entityKeys_of_sameAnswers {rekeyed : WorldGraph} (hrekeys : rekeyed.Rekeys s.graph)
    (ht : t.graph = rekeyed.canonical) (hsame : SameAnswers s t) :
    ∀ x ∈ s.graph.entities.toList, x.2.id = x.1 := by
  apply keys_of_contains hrekeys.entities
  intro k
  have htruth := hsame.truth (.entityExists k) (Predicate.validateShape_of_leaf trivial rfl) (some k)
  simp only [evaluateTruth, targetEntity_self, ht, WorldGraph.canonical,
    OMap.contains_mapValues] at htruth
  exact ofBool_injective htruth

theorem edgeKeys_of_sameAnswers {rekeyed : WorldGraph} (hrekeys : rekeyed.Rekeys s.graph)
    (ht : t.graph = rekeyed.canonical) (hsame : SameAnswers s t) :
    ∀ x ∈ s.graph.edges.toList, x.2.id = x.1 := by
  apply keys_of_contains hrekeys.edges
  intro k
  have htruth := ofBool_injective
    (hsame.truth (.edgeExists k none) (Predicate.validateShape_of_leaf trivial rfl) none)
  rw [ht] at htruth
  simpa [WorldGraph.canonical, OMap.contains, Option.any_true] using htruth

theorem entityKinds_of_sameAnswers {rekeyed : WorldGraph} (hrekeys : rekeyed.Rekeys s.graph)
    (ht : t.graph = rekeyed.canonical) (hsame : SameAnswers s t) :
    ∀ e ∈ s.graph.entities.values, e.kind.Unaliased := by
  have hfiled := eq_of_rekeyed hrekeys.entities (entityKeys_of_sameAnswers hrekeys ht hsame)
  intro e he
  obtain ⟨k, hk⟩ := (OMap.mem_values_iff _ _).1 he
  have htruth := hsame.truth (.entityKind k e.kind.canonical)
    (Predicate.validateShape_of_leaf trivial rfl) (some k)
  simp only [evaluateTruth, targetEntity_self, ht, WorldGraph.canonical, hfiled,
    OMap.get?_mapValues, hk] at htruth
  have hkind := ofBool_injective htruth
  simp only [Option.any_some, Option.map_some, EntityRecord.canonical, decide_true,
    decide_eq_true_eq] at hkind
  exact (EntityKind.canonical_eq_self_iff _).1 hkind.symm

theorem edgeKinds_of_sameAnswers {rekeyed : WorldGraph} (hrekeys : rekeyed.Rekeys s.graph)
    (ht : t.graph = rekeyed.canonical) (hsame : SameAnswers s t) :
    ∀ e ∈ s.graph.edges.values, e.kind.Unaliased := by
  have hfiled := eq_of_rekeyed hrekeys.edges (edgeKeys_of_sameAnswers hrekeys ht hsame)
  intro e he
  obtain ⟨k, hk⟩ := (OMap.mem_values_iff _ _).1 he
  have htruth := hsame.truth (.edgeExists k (some e.kind.canonical))
    (Predicate.validateShape_of_leaf trivial rfl) none
  simp only [evaluateTruth, ht, WorldGraph.canonical, hfiled, OMap.get?_mapValues, hk] at htruth
  have hkind := ofBool_injective htruth
  simp only [Option.any_some, Option.map_some, EdgeRecord.canonical, decide_true,
    decide_eq_true_eq] at hkind
  exact (EdgeKind.canonical_eq_self_iff _).1 hkind.symm

theorem tiles_of_sameAnswers (hsame : SameAnswers s t) (tile : MapCoord) :
    s.tileCodeAt tile = t.tileCodeAt tile := by
  apply tileTruth_injective
  intro code
  have hleaf : validateLeaf ⟨0, 0, 0⟩ (.regionTerrain ⟨tile, tile⟩ code) = .ok ⟨1, 0, 0⟩ := by
    rw [validateLeaf, validateRegion_single]
    rfl
  have htruth := hsame.truth (.regionTerrain ⟨tile, tile⟩ code)
    (Predicate.validateShape_of_leaf trivial hleaf) none
  simpa only [evaluateTruth, regionTerrainTruth_single] using htruth

/-! ### The hash

A quantity increase is asked against the anchor of its baseline: at the same cursor the hashes
must agree. On a kind that no entity has, the question is answered whenever it is heard. -/

/-- The name that spells thirty bits of a number. -/
def bitName (n : Nat) : String :=
  String.ofList ((List.range 30).map fun i => if n.testBit i then 'b' else 'a')

theorem bitName_injOn {m n : Nat} (hm : m < 2 ^ 30) (hn : n < 2 ^ 30)
    (h : bitName m = bitName n) : m = n := by
  have hbits := List.map_inj_left.1 (String.ofList_injective h)
  apply Nat.eq_of_testBit_eq
  intro i
  by_cases hi : i < 30
  · have hbit := hbits i (List.mem_range.2 hi)
    cases hmi : m.testBit i <;> cases hni : n.testBit i <;> simp [hmi, hni] at hbit ⊢
  · have hpow : 2 ^ 30 ≤ 2 ^ i := Nat.pow_le_pow_right (by decide) (not_lt.1 hi)
    rw [Nat.testBit_lt_two_pow (hm.trans_le hpow), Nat.testBit_lt_two_pow (hn.trans_le hpow)]

theorem strLen_ofList_le (l : List Char) : strLen (String.ofList l) ≤ l.length * 4 := by
  have hbytes : strLen (String.ofList l) = (l.flatMap String.utf8EncodeChar).length := by
    simp [strLen, utf8, List.utf8Encode]
  rw [hbytes]
  clear hbytes
  induction l with
  | nil => simp
  | cons c l ih =>
      have hc := c.utf8Size_le_four
      simp only [List.flatMap_cons, List.length_append, String.length_utf8EncodeChar,
        List.length_cons]
      omega

theorem validateQuantityName_bitName (n : Nat) :
    validateQuantityName (bitName n) maxQueryKindBytes = .ok () := by
  have hlen : strLen (bitName n) ≤ 30 * 4 := by
    have hle := strLen_ofList_le ((List.range 30).map fun i => if n.testBit i then 'b' else 'a')
    simpa [bitName] using hle
  have hne : bitName n ≠ "" := by
    intro h
    have hlength := congrArg String.length h
    simp [bitName] at hlength
  have hcontrol : (bitName n).toList.any isControl = false := by
    simp only [bitName, String.toList_ofList, List.any_map, List.any_eq_false]
    intro i _
    cases h : n.testBit i <;> simp [h, isControl]
  have hbound : ¬ strLen (bitName n) > maxQueryKindBytes := not_lt.2 (hlen.trans (by decide))
  rw [validateQuantityName, if_neg hbound, if_neg (by simp [hne, hcontrol])]

/-- A valid kind name that a short list does not use. -/
theorem exists_fresh_kind (names : List String) (h : names.length < 2 ^ 30) :
    ∃ name ∉ names, validateQuantityName name maxQueryKindBytes = .ok () := by
  by_contra hall
  have hused : ∀ n, bitName n ∈ names := by
    intro n
    by_contra hn
    exact hall ⟨bitName n, hn, validateQuantityName_bitName n⟩
  have hnodup : ((List.range (names.length + 1)).map bitName).Nodup := by
    refine List.Nodup.map_on ?_ List.nodup_range
    intro m hm n hn heq
    rw [List.mem_range] at hm hn
    exact bitName_injOn (by omega) (by omega) heq
  have hsub : (List.range (names.length + 1)).map bitName ⊆ names := by
    intro name hname
    obtain ⟨n, -, rfl⟩ := List.mem_map.1 hname
    exact hused n
  have hle := (hnodup.subperm hsub).length_le
  simp at hle

/-- The total over a kind that no entity has. -/
theorem entityQuantityTotal_fresh {name : String}
    (hfresh : name ∉ s.graph.entities.values.map (·.kind.asStr)) (field : String) (value : Value)
    (quantity : Option String) (factValue : Fact → Option Value) :
    entityQuantityTotal s (.other name) field value quantity factValue = some 0 := by
  unfold entityQuantityTotal
  generalize s.graph.entities.values = records at hfresh ⊢
  induction records with
  | nil => rfl
  | cons e es ih =>
      rw [List.map_cons, List.mem_cons, not_or] at hfresh
      have hskip : addQuantity (.other name) field value quantity factValue 0 e = some 0 := by
        unfold addQuantity
        rw [if_pos]
        exact fun h => hfresh.1 h.symm
      rw [List.foldlM_cons, hskip]
      exact ih hfresh.2

/-- The increase of a kind by one, against an anchor. -/
def increaseSince (name : String) (anchor : StateAnchor) : Predicate :=
  .entityQuantityIncrease (.other name) "f" .null none 0 1 anchor anchor.stateHash 1 (0, 0, 0)

theorem increaseSince_of_eq {name : String}
    (hfresh : name ∉ s.graph.entities.values.map (·.kind.asStr)) (candidate : Option EntityId) :
    evaluateTruth s candidate (increaseSince name s.anchor) = .false := by
  have hsum : U.checkedAdd (0 : U 64) 1 = some 1 := by decide
  simp only [increaseSince, evaluateTruth, entityQuantityTruth]
  rw [if_neg (by simp), hsum, entityQuantityTotal_fresh hfresh]
  decide

theorem increaseSince_of_ne {name : String} {anchor : StateAnchor}
    (hcursor : s.cursor = anchor.cursor) (hanchor : s.anchor ≠ anchor)
    (candidate : Option EntityId) :
    evaluateTruth s candidate (increaseSince name anchor) = .unknown := by
  simp only [increaseSince, evaluateTruth, entityQuantityTruth]
  rw [if_pos]
  exact .inr (.inr (.inr (.inr ⟨hcursor, hanchor⟩)))

theorem increaseSince_valid {name : String} {anchor : StateAnchor}
    (hname : validateQuantityName name maxQueryKindBytes = .ok ()) (hfortress : anchor.fortressId ≠ 0)
    (hhash : anchor.stateHash ≠ Digest32.zero) : (increaseSince name anchor).validateShape = .ok () := by
  have hfields : validateEntityQuantityFields (.other name) "f" .null none = .ok () := by
    rw [validateEntityQuantityFields, EntityKind.asStr, hname]
    decide
  have hsum : U.checkedAdd (0 : U 64) 1 = some 1 := by decide
  refine @Predicate.validateShape_of_leaf _ ⟨0, 0, 0⟩ trivial ?_
  rw [increaseSince, validateLeaf, hfields]
  simp [hsum, hfortress, hhash, bind, Except.bind, pure, Except.pure]

/-- A snapshot that was read has few enough entities to leave kinds unused. -/
theorem entities_lt_of_reload (h : WorldSnapshot.fromCanonicalBytes s.canonicalBytes = .ok t) :
    s.graph.entities.values.length < 2 ^ 30 := by
  have hsize : s.canonicalBytes.length ≤ maxCanonicalSnapshotBytes := by
    by_contra hsize
    rw [WorldSnapshot.fromCanonicalBytes, if_pos (not_le.1 hsize)] at h
    cases h
  have hentities := Decode.length_mul_le (l := s.graph.entities.values)
    fun e _ => Decode.length_encode_entityRecord e
  have hbytes : (s.graph.entities.values.flatMap EntityRecord.encode).length ≤
      s.canonicalBytes.length := by
    simp only [WorldSnapshot.canonicalBytes, WorldGraph.encode, List.length_append]
    omega
  have height : max 8 1 = 8 := rfl
  rw [height] at hentities
  simp only [maxCanonicalSnapshotBytes] at hsize
  omega

/-- Names of kinds survive a reload. -/
theorem kindNames_of_rekeys {rekeyed graph : WorldGraph} (h : rekeyed.Rekeys graph) :
    rekeyed.canonical.entities.values.map (·.kind.asStr) =
      graph.entities.values.map (·.kind.asStr) := by
  rw [← Decode.values_of_rekeyed h.entities]
  simp only [WorldGraph.canonical, OMap.values, OMap.toList_mapValues, List.map_map]
  apply List.map_congr_left
  intro x _
  exact EntityKind.asStr_canonical x.2.kind

theorem hash_of_sameAnswers (h : WorldSnapshot.fromCanonicalBytes s.canonicalBytes = .ok t)
    (hsame : SameAnswers s t) : s.fortressId = 0 ∨ s.hashIsValid = true := by
  by_cases hfortress : s.fortressId = 0
  · exact .inl hfortress
  · right
    rw [WorldSnapshot.hashIsValid_iff]
    by_contra hstale
    obtain ⟨name, hfresh, hname⟩ := exists_fresh_kind (s.graph.entities.values.map (·.kind.asStr))
      (by rw [List.length_map]; exact entities_lt_of_reload h)
    obtain ⟨rekeyed, hrekeys, rfl⟩ := reload_parts h
    by_cases hzero : s.stateHash = Digest32.zero
    · -- The hash that comes back is not zero: ask against the anchor of what was read.
      let anchor : StateAnchor := ⟨s.fortressId, s.cursor, s.tick, s.computeHash⟩
      have hvalid : (increaseSince name anchor).validateShape = .ok () :=
        increaseSince_valid hname hfortress fun hcomputed => hstale (hzero.trans hcomputed.symm)
      have hother : s.anchor ≠ anchor := fun heq => hstale (congrArg StateAnchor.stateHash heq)
      have hasked := hsame.truth (increaseSince name anchor) hvalid none
      rw [increaseSince_of_ne rfl hother] at hasked
      rw [← kindNames_of_rekeys hrekeys] at hfresh
      exact absurd (hasked.trans (increaseSince_of_eq hfresh none)) (by decide)
    · have hasked := hsame.truth (increaseSince name s.anchor)
        (increaseSince_valid hname hfortress hzero) none
      rw [increaseSince_of_eq hfresh] at hasked
      refine absurd (hasked.trans (increaseSince_of_ne rfl ?_ none)) (by decide)
      exact fun heq => hstale (congrArg StateAnchor.stateHash heq).symm

end Reload

/-! ## The law -/

/-- **What a reload does to answers.** Let `t` be what comes back from the bytes of `s`.

* With chunks in their places, no shape-valid predicate and no query tells `s` and `t` apart
  exactly when `s` is reloadable.
* In any case answers that agree force `s` to be reloadable, and every tile to read the same.
* Reloadable snapshots of the same bytes give the same answers. -/
theorem reload_answers {s t : WorldSnapshot}
    (h : WorldSnapshot.fromCanonicalBytes s.canonicalBytes = .ok t) :
    (s.ChunksInPlace → (SameAnswers s t ↔ s.Reloadable)) ∧
    (SameAnswers s t → s.Reloadable ∧ ∀ tile, s.tileCodeAt tile = t.tileCodeAt tile) ∧
    ∀ u : WorldSnapshot, u.canonicalBytes = s.canonicalBytes →
      s.Reloadable → s.ChunksInPlace → u.Reloadable → u.ChunksInPlace → SameAnswers s u := by
  have hneeded : SameAnswers s t → s.Reloadable := by
    intro hsame
    obtain ⟨rekeyed, hrekeys, heq⟩ := reload_parts h
    have hgraph : t.graph = rekeyed.canonical := congrArg WorldSnapshot.graph heq
    exact ⟨entityKeys_of_sameAnswers hrekeys hgraph hsame,
      edgeKeys_of_sameAnswers hrekeys hgraph hsame,
      entityKinds_of_sameAnswers hrekeys hgraph hsame,
      edgeKinds_of_sameAnswers hrekeys hgraph hsame, hash_of_sameAnswers h hsame⟩
  refine ⟨fun hchunks => ⟨hneeded, fun hs => sameAnswers_of_reloadable h hs hchunks⟩,
    fun hsame => ⟨hneeded hsame, tiles_of_sameAnswers hsame⟩, ?_⟩
  intro u hbytes hs hchunks hu huchunks
  rw [← hbytes] at h
  have hother := sameAnswers_of_reloadable h hu huchunks
  rw [hbytes] at h
  have hown := sameAnswers_of_reloadable h hs hchunks
  exact ⟨fun p hp candidate => (hown.truth p hp candidate).trans (hother.truth p hp candidate).symm,
    fun query hardLimit byteLimit => (hown.query query hardLimit byteLimit).trans
      (hother.query query hardLimit byteLimit).symm⟩

namespace Sample

/-- An event whose kind borrows a reserved name. -/
def event : WorldEvent := ⟨1, 0, .other "announcement", none, "A migrant has arrived.", .nil⟩

/-- One entity of the given kind and one event. -/
def kindedGraph (kind : EntityKind) : WorldGraph :=
  ⟨.ofList [(1, { entity 1 1 with kind })], .nil, .nil, .ofList [(1, event)]⟩

def kinded (kind : EntityKind) : WorldSnapshot := snapshot 0 (kindedGraph kind)

theorem kinded_entities (kind : EntityKind) :
    (kindedGraph kind).entities.toList = [(1, { entity 1 1 with kind })] := rfl

theorem kinded_events (kind : EntityKind) : (kindedGraph kind).events.toList = [(1, event)] := rfl

theorem kinded_keysMatch (kind : EntityKind) : (kindedGraph kind).KeysMatch := by
  refine ⟨?_, fun k e h => (nomatch h), fun k c h => (nomatch h), ?_⟩
  · rw [OMap.forall_get?_iff, kinded_entities]
    simp [entity]
  · rw [OMap.forall_get?_iff, kinded_events]
    simp [event]

theorem kinded_shallow (kind : EntityKind) : (kindedGraph kind).Shallow := by
  refine ⟨?_, List.forall_mem_nil _, List.forall_mem_nil _, ?_⟩
  · rw [OMap.values, kinded_entities]
    simp [entity, EntityRecord.Shallow]
  · rw [OMap.values, kinded_events]
    simp [event, WorldEvent.Shallow, Value.heightFields, maxValueDepth]

/-- What the decoder makes of such a world. -/
theorem kinded_reads {kind : EntityKind}
    (hsize : (kinded kind).canonicalBytes.length ≤ maxCanonicalSnapshotBytes) :
    WorldSnapshot.fromCanonicalBytes (kinded kind).canonicalBytes = .ok (kinded kind).canonical :=
  (WorldSnapshot.fromCanonicalBytes_canonicalBytes (kinded_keysMatch kind) hsize).resolve_right
    fun hdeep => hdeep.1 (kinded_shallow kind)

end Sample

/-- A world of one unit is read back with its event renamed, and answers as before. -/
theorem reload_answers_unit :
    ∃ s t : WorldSnapshot, WorldSnapshot.fromCanonicalBytes s.canonicalBytes = .ok t ∧ s ≠ t ∧
      SameAnswers s t := by
  have hreads := @Sample.kinded_reads .unit (by decide +kernel)
  have hrenamed : Sample.kinded .unit ≠ (Sample.kinded .unit).canonical := fun heq =>
    absurd (congrArg (fun s : WorldSnapshot => s.graph.events.values.map (·.kind)) heq) (by decide)
  refine ⟨Sample.kinded .unit, _, hreads, hrenamed, ?_⟩
  have hchunks : (Sample.kinded .unit).ChunksInPlace := List.forall_mem_nil _
  refine ((reload_answers hreads).1 hchunks).2
    ⟨?_, List.forall_mem_nil _, ?_, List.forall_mem_nil _, .inr (by simp [Sample.kinded])⟩
  · rw [Sample.kinded, Sample.snapshot_graph, Sample.kinded_entities]
    simp [Sample.entity]
  · rw [Sample.kinded, Sample.snapshot_graph, OMap.values, Sample.kinded_entities]
    simp [EntityKind.Unaliased]

/-- A unit whose kind is spelt as a custom one is no unit; read back from its bytes, it is. -/
theorem reload_changes_truth :
    ∃ (s t : WorldSnapshot) (p : Predicate), s.graph.KeysMatch ∧ s.hashIsValid = true ∧
      WorldSnapshot.fromCanonicalBytes s.canonicalBytes = .ok t ∧ p.validateShape = .ok () ∧
      evaluateTruth s none p = .false ∧ evaluateTruth t none p = .true :=
  ⟨Sample.kinded (.other "unit"), _, .entityKind 1 .unit, Sample.kinded_keysMatch _,
    by simp [Sample.kinded], Sample.kinded_reads (by decide +kernel),
    Predicate.validateShape_of_leaf trivial rfl, by decide, by decide⟩

end Dfmcp
