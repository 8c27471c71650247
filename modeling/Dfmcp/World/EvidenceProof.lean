import Dfmcp.World.Evidence
import Dfmcp.World.QueryProof

/-!
# Evidence refines plain evaluation

The evidence evaluator and the plain one share their connectives and differ in their leaves. Both
are monotone in the information order, so what holds between their leaves holds between them.

* `compositional_mono` — leaves that say no more make a whole that says no more;
* `leaf_le` — a leaf under evidence says no more than the plain leaf, unless it names the kind of
  an observed record in another spelling;
* `leaf_mono` — a larger policy says no less;
* `evidence_refines` — the two together, for whole predicates.
-/

namespace Dfmcp

open Machine Kleene

/-! ## Evaluators -/

/-- An evaluator that treats the connectives as strong Kleene ones. -/
structure Compositional (f : Predicate → PredicateTruth) : Prop where
  all : ∀ ps, f (.all ps) = Truth.all (ps.map f)
  any : ∀ ps, f (.any ps) = Truth.any (ps.map f)
  not : ∀ p, f (.not p) = (f p).not

/-- Leaves that say no more make a whole that says no more. -/
theorem compositional_mono {f g : Predicate → PredicateTruth} (hf : Compositional f)
    (hg : Compositional g) (p : Predicate) (hleaves : ∀ leaf ∈ p.leaves, f leaf ≤ g leaf) :
    f p ≤ g p := by
  have hmembers : ∀ ps : List Predicate, (∀ leaf ∈ ps.flatMap Predicate.leaves, f leaf ≤ g leaf) →
      (∀ p ∈ ps, (∀ leaf ∈ p.leaves, f leaf ≤ g leaf) → f p ≤ g p) → ∀ p ∈ ps, f p ≤ g p := by
    intro ps hps ih p hp
    exact ih p hp fun leaf hleaf => hps leaf (List.mem_flatMap.2 ⟨p, hp, hleaf⟩)
  induction p using Predicate.induct with
  | hall ps ih =>
      rw [hf.all, hg.all]
      exact Truth.all_map_mono (hmembers ps (Predicate.leavesList_eq ps ▸ hleaves) ih)
  | hany ps ih =>
      rw [hf.any, hg.any]
      exact Truth.any_map_mono (hmembers ps (Predicate.leavesList_eq ps ▸ hleaves) ih)
  | hnot p ih =>
      rw [hf.not, hg.not]
      exact Truth.not_mono (ih hleaves)
  | hleaf p hleaf =>
      apply hleaves
      rw [Predicate.leaves_of_isLeaf hleaf]
      exact List.mem_singleton.2 rfl

theorem compositional_evaluateTruth (s : WorldSnapshot) (candidate : Option EntityId) :
    Compositional (evaluateTruth s candidate) where
  all := fun ps => by rw [evaluateTruth, evaluateEach_eq]
  any := fun ps => by rw [evaluateTruth, evaluateEach_eq]
  not := fun p => by rw [evaluateTruth]

namespace PredicateEvidence

theorem evaluateEach_eq_map (evidence : PredicateEvidence) (ps : List Predicate) :
    evidence.evaluateEach ps = ps.map evidence.evaluateValidated := by
  induction ps with
  | nil => rfl
  | cons p ps ih => rw [evaluateEach, ih, List.map_cons]

theorem compositional_evaluateValidated (evidence : PredicateEvidence) :
    Compositional evidence.evaluateValidated where
  all := fun ps => by rw [evaluateValidated, evaluateEach_eq_map]
  any := fun ps => by rw [evaluateValidated, evaluateEach_eq_map]
  not := fun p => by rw [evaluateValidated]

end PredicateEvidence

/-! ## Quantities -/

section Quantities

variable {f g : Fact → Option Value} (hfg : ∀ fact value, f fact = some value → g fact = some value)

include hfg

theorem bind_mono {fact : Option Fact} {value : Value} (h : fact.bind f = some value) :
    fact.bind g = some value := by
  obtain ⟨x, rfl, hx⟩ := Option.bind_eq_some_iff.1 h
  exact hfg x value hx

/-- A row that counts under fewer facts counts the same under more. -/
theorem addQuantity_mono {kind : EntityKind} {filterField : String} {filterValue : Value}
    {quantityField : Option String} {total total' : U 64} {entity : EntityRecord}
    (h : addQuantity kind filterField filterValue quantityField f total entity = some total') :
    addQuantity kind filterField filterValue quantityField g total entity = some total' := by
  unfold addQuantity at h ⊢
  by_cases hkind : entity.kind.asStr ≠ kind.asStr
  · rw [if_pos hkind] at h ⊢
    exact h
  · rw [if_neg hkind] at h ⊢
    by_cases hid : entity.id = 0
    · rw [if_pos hid] at h
      cases h
    · rw [if_neg hid] at h ⊢
      cases hselector : (entity.fields.get? filterField).bind f with
      | none =>
          rw [hselector] at h
          cases h
      | some selector =>
          rw [hselector] at h
          rw [bind_mono hfg hselector]
          dsimp only at h ⊢
          by_cases hfilter : selector ≠ filterValue
          · rw [if_pos hfilter] at h ⊢
            exact h
          · rw [if_neg hfilter] at h ⊢
            cases quantityField with
            | none => exact h
            | some field =>
                dsimp only at h ⊢
                cases hquantity : (entity.fields.get? field).bind f with
                | none =>
                    rw [hquantity] at h
                    cases h
                | some quantity =>
                    rw [hquantity] at h
                    rw [bind_mono hfg hquantity]
                    exact h

theorem foldlM_addQuantity_mono {kind : EntityKind} {filterField : String} {filterValue : Value}
    {quantityField : Option String} {total result : U 64} {records : List EntityRecord}
    (h : records.foldlM (addQuantity kind filterField filterValue quantityField f) total =
      some result) :
    records.foldlM (addQuantity kind filterField filterValue quantityField g) total =
      some result := by
  induction records generalizing total with
  | nil => exact h
  | cons entity records ih =>
      rw [List.foldlM_cons] at h ⊢
      obtain ⟨next, hnext, hrest⟩ := Option.bind_eq_some_iff.1 h
      rw [addQuantity_mono hfg hnext]
      exact ih hrest

theorem quantityTruth_mono (s : WorldSnapshot) (kind : EntityKind) (filterField : String)
    (filterValue : Value) (quantityField : Option String) (op : CompareOp) (value : U 64) :
    quantityTruth (entityQuantityTotal s kind filterField filterValue quantityField f) op value ≤
      quantityTruth (entityQuantityTotal s kind filterField filterValue quantityField g) op
        value := by
  cases htotal : entityQuantityTotal s kind filterField filterValue quantityField f with
  | none => exact Truth.unknown_le _
  | some total =>
      have hmore : entityQuantityTotal s kind filterField filterValue quantityField g = some total :=
        foldlM_addQuantity_mono hfg htotal
      rw [hmore]
      exact Truth.le_of_eq rfl

/-- A quantity answered from fewer facts is answered the same from more. -/
theorem entityQuantityTruth_mono (s : WorldSnapshot) (p : Predicate) :
    entityQuantityTruth s p f ≤ entityQuantityTruth s p g := by
  cases p with
  | entityQuantity kind filterField filterValue quantityField op value =>
      exact quantityTruth_mono hfg s kind filterField filterValue quantityField op value
  | entityQuantityIncrease kind filterField filterValue quantityField baseline increase anchor
      digest generation counters =>
      unfold entityQuantityTruth
      dsimp only
      split
      · exact Truth.unknown_le _
      · split
        · exact Truth.unknown_le _
        · exact quantityTruth_mono hfg s kind filterField filterValue quantityField _ _
  | _ => exact Truth.unknown_le _

end Quantities

/-! ## Leaves -/

namespace PredicateEvidence

/-- Every fact that counts as evidence is a known one. -/
theorem knownValue_of_factValue {evidence : PredicateEvidence} {fact : Fact} {value : Value}
    (h : evidence.factValue fact = some value) : fact.knownValue = some value := by
  unfold factValue laboratoryFactValue at h
  split at h
  · split at h
    · cases h
    · exact h
  · split at h
    · cases h
    · exact h

theorem ne_zero_of_entityObserved {evidence : PredicateEvidence} {id : EntityId}
    (h : evidence.entityObserved id = true) : id ≠ 0 := by
  unfold entityObserved at h
  simp only [Bool.and_eq_true, decide_eq_true_eq] at h
  exact h.1

/-- A leaf that names the kind of an observed record spells it as the record does. -/
def SpeltAlike (evidence : PredicateEvidence) : Predicate → Prop
  | .entityKind id kind => evidence.entityObserved id = true →
      ∀ entity, evidence.snapshot.graph.entities.get? id = some entity →
        entity.kind.asStr = kind.asStr → entity.kind = kind
  | .edgeExists id (some kind) => id ≠ 0 →
      ∀ edge, evidence.snapshot.graph.edges.get? id = some edge →
        (evidence.policy.allEdges.observesMembers ||
          (evidence.edgeKindCoverage edge.kind).observesMembers) = true →
        evidence.entityObserved edge.fromId = true → evidence.entityObserved edge.toId = true →
        edge.kind.asStr = kind.asStr → edge.kind = kind
  | _ => True

theorem targetEntity_of_ne {id : EntityId} (h : id ≠ 0) (candidate : Option EntityId) :
    targetEntity id candidate = id := if_neg h

section Plain

variable (evidence : PredicateEvidence) (candidate : Option EntityId)

theorem entityExists_le (id : EntityId) :
    evidence.evaluateValidated (.entityExists id) ≤
      evaluateTruth evidence.snapshot candidate (.entityExists id) := by
  unfold evaluateValidated evaluateTruth
  by_cases hid : id = 0
  · rw [if_pos hid]
    exact Truth.unknown_le _
  · rw [if_neg hid, targetEntity_of_ne hid]
    by_cases hpresent : evidence.snapshot.graph.entities.contains id = true
    · rw [if_pos hpresent, hpresent]
      split
      · exact Truth.le_of_eq rfl
      · exact Truth.unknown_le _
    · rw [if_neg hpresent, Bool.eq_false_iff.2 hpresent]
      split
      · exact Truth.le_of_eq rfl
      · exact Truth.unknown_le _

theorem entityKind_le {id : EntityId} {kind : EntityKind}
    (h : evidence.SpeltAlike (.entityKind id kind)) :
    evidence.evaluateValidated (.entityKind id kind) ≤
      evaluateTruth evidence.snapshot candidate (.entityKind id kind) := by
  unfold evaluateValidated evaluateTruth
  by_cases hid : id = 0
  · rw [if_pos hid]
    exact Truth.unknown_le _
  · rw [if_neg hid, targetEntity_of_ne hid]
    cases hget : evidence.snapshot.graph.entities.get? id with
    | none =>
        dsimp only
        split
        · exact Truth.le_of_eq rfl
        · exact Truth.unknown_le _
    | some entity =>
        dsimp only
        by_cases hobserved : evidence.entityObserved id = true
        · rw [hobserved, if_neg (by simp)]
          by_cases hname : entity.kind.asStr = kind.asStr
          · have hkind : entity.kind = kind := h hobserved entity hget hname
            rw [if_pos hname]
            exact Truth.le_of_eq (by simp [Truth.ofBool, hkind])
          · have hkind : entity.kind ≠ kind := fun heq => hname (congrArg EntityKind.asStr heq)
            rw [if_neg hname]
            exact Truth.le_of_eq (by simp [Truth.ofBool, hkind])
        · rw [if_pos (by simpa using hobserved)]
          exact Truth.unknown_le _

theorem edgeExists_le {id : EdgeId} {kind : Option EdgeKind}
    (h : evidence.SpeltAlike (.edgeExists id kind)) :
    evidence.evaluateValidated (.edgeExists id kind) ≤
      evaluateTruth evidence.snapshot candidate (.edgeExists id kind) := by
  unfold evaluateValidated evaluateTruth
  by_cases hid : id = 0
  · rw [if_pos hid]
    exact Truth.unknown_le _
  · rw [if_neg hid]
    cases hget : evidence.snapshot.graph.edges.get? id with
    | none =>
        dsimp only
        split
        · exact Truth.le_of_eq rfl
        · exact Truth.unknown_le _
    | some edge =>
        dsimp only
        split
        · exact Truth.unknown_le _
        · rename_i hobserved
          simp only [Bool.or_eq_true, Bool.not_eq_true', not_or, Bool.not_eq_false] at hobserved
          obtain ⟨⟨hedge, hfrom⟩, hto⟩ := hobserved
          cases kind with
          | none => exact Truth.le_of_eq rfl
          | some kind =>
              by_cases hname : kind.asStr = edge.kind.asStr
              · have hkind := h hid edge hget (by simpa using hedge) hfrom hto hname.symm
                rw [if_pos (by simpa using hname)]
                exact Truth.le_of_eq (by simp [Truth.ofBool, hkind])
              · have hkind : edge.kind ≠ kind :=
                  fun heq => hname (congrArg EdgeKind.asStr heq).symm
                rw [if_neg (by simpa using hname)]
                exact Truth.le_of_eq (by simp [Truth.ofBool, hkind])

theorem fieldCompare_le (id : EntityId) (field : String) (op : CompareOp) (value : Value) :
    evidence.evaluateValidated (.fieldCompare id field op value) ≤
      evaluateTruth evidence.snapshot candidate (.fieldCompare id field op value) := by
  unfold evaluateValidated evaluateTruth
  split
  · exact Truth.unknown_le _
  · rename_i hobserved
    rw [targetEntity_of_ne (ne_zero_of_entityObserved (by simpa using hobserved))]
    cases hknown : ((evidence.snapshot.graph.entities.get? id).bind
        (·.fields.get? field)).bind evidence.factValue with
    | none => exact Truth.unknown_le _
    | some known =>
        rw [bind_mono (fun _ _ => knownValue_of_factValue) hknown]
        exact Truth.le_of_eq rfl

/-- What an observed tile says, the stored tile says. -/
theorem tileTruth_observed_le (expected : U 32) (coord : MapCoord) :
    tileTruth expected (evidence.observedTileCode coord) ≤
      tileTruth expected (evidence.snapshot.tileCodeAt coord) := by
  unfold observedTileCode
  split
  · exact Truth.le_of_eq rfl
  · exact Truth.unknown_le _

theorem regionTerrain_le {area : MapCuboid} (tileCode : U 32)
    (harea : (validateRegion area).isOk = true) :
    evidence.evaluateValidated (.regionTerrain area tileCode) ≤
      evaluateTruth evidence.snapshot candidate (.regionTerrain area tileCode) := by
  rw [evaluateValidated, evaluateTruth, WorldSnapshot.regionTerrainTruth, if_pos harea,
    toTruth_scanRegion_eq_all, toTruth_scanRegion_eq_all]
  apply Truth.all_map_mono
  intro coord _
  exact evidence.tileTruth_observed_le tileCode coord

theorem laboratoryTruth_le (truth : Result PredicateTruth) :
    evidence.laboratoryTruth truth ≤ truthOrUnknown truth := by
  unfold laboratoryTruth
  split
  · exact Truth.unknown_le _
  · exact Truth.le_of_eq rfl

end Plain

theorem validateRegion_of_validateLeaf {work after : ShapeWork} {area : MapCuboid} {tileCode : U 32}
    (h : validateLeaf work (.regionTerrain area tileCode) = .ok after) :
    (validateRegion area).isOk = true := by
  unfold validateLeaf at h
  obtain ⟨tiles, htiles, -⟩ := bind_ok_iff.1 h
  rw [htiles]
  rfl

/-- **A leaf under evidence says no more than the plain leaf**, unless it names the kind of an
observed record in another spelling. -/
theorem leaf_le (evidence : PredicateEvidence) (candidate : Option EntityId) {p : Predicate}
    (hp : p.IsLeaf) (hvalid : ∃ before after, validateLeaf before p = .ok after)
    (hspelt : evidence.SpeltAlike p) :
    evidence.evaluateValidated p ≤ evaluateTruth evidence.snapshot candidate p := by
  cases p with
  | all ps => exact hp.elim
  | any ps => exact hp.elim
  | not p => exact hp.elim
  | true => exact Truth.le_of_eq rfl
  | false => exact Truth.le_of_eq rfl
  | entityExists id => exact evidence.entityExists_le candidate id
  | entityKind id kind => exact evidence.entityKind_le candidate hspelt
  | fieldCompare id field op value => exact evidence.fieldCompare_le candidate id field op value
  | edgeExists id kind => exact evidence.edgeExists_le candidate hspelt
  | paused expected =>
      unfold evaluateValidated evaluateTruth
      split
      · exact Truth.unknown_le _
      · by_cases hpaused : evidence.snapshot.paused = expected
        · exact Truth.le_of_eq (by simp [Truth.ofBool, hpaused])
        · exact Truth.le_of_eq (by simp [Truth.ofBool, hpaused])
  | regionTerrain area tileCode =>
      obtain ⟨before, after, hleaf⟩ := hvalid
      exact evidence.regionTerrain_le candidate tileCode (validateRegion_of_validateLeaf hleaf)
  | laboratoryRoomAccess area entry targets => exact evidence.laboratoryTruth_le _
  | laboratoryRoomAccessPairedStairs area entry targets => exact evidence.laboratoryTruth_le _
  | laboratoryCivilianReleaseSafety burrow civilians => exact evidence.laboratoryTruth_le _
  | entityQuantity kind filterField filterValue quantityField op value =>
      unfold evaluateValidated evaluateTruth
      split
      · exact Truth.unknown_le _
      · exact entityQuantityTruth_mono (fun _ _ => knownValue_of_factValue) _ _
  | entityQuantityIncrease =>
      unfold evaluateValidated evaluateTruth
      split
      · exact Truth.unknown_le _
      · exact entityQuantityTruth_mono (fun _ _ => knownValue_of_factValue) _ _

end PredicateEvidence

/-! ## Larger policies -/

namespace EvidenceCoverage

/-- More coverage: nothing, members, all members. -/
def rank : EvidenceCoverage → Nat
  | .unknown => 0
  | .observed => 1
  | .complete => 2

theorem observesMembers_mono {a b : EvidenceCoverage} (h : a.rank ≤ b.rank)
    (ha : a.observesMembers = true) : b.observesMembers = true := by
  cases a <;> cases b <;> simp_all [rank, observesMembers]

theorem provesAbsence_mono {a b : EvidenceCoverage} (h : a.rank ≤ b.rank)
    (ha : a.provesAbsence = true) : b.provesAbsence = true := by
  cases a <;> cases b <;> simp_all [rank, provesAbsence]

end EvidenceCoverage

namespace EvidencePolicy

/-- More admitted sources, more coverage, more regions. -/
structure Enlarges (larger policy : EvidencePolicy) : Prop where
  sources : ∀ source ∈ policy.sources, source ∈ larger.sources
  allEntities : policy.allEntities.rank ≤ larger.allEntities.rank
  entityKinds : ∀ grant ∈ policy.entityKinds,
    ∃ coverage, (grant.1, coverage) ∈ larger.entityKinds ∧ grant.2.rank ≤ coverage.rank
  allEdges : policy.allEdges.rank ≤ larger.allEdges.rank
  edgeKinds : ∀ grant ∈ policy.edgeKinds,
    ∃ coverage, (grant.1, coverage) ∈ larger.edgeKinds ∧ grant.2.rank ≤ coverage.rank
  paused : policy.paused = true → larger.paused = true
  terrainRegions : ∀ area ∈ policy.terrainRegions, ∀ coord, area.contains coord = true →
    ∃ area' ∈ larger.terrainRegions, area'.contains coord = true

theorem validateKinds_nodup {what duplicate : String} {names : List String}
    (h : validateKinds what duplicate names = .ok ()) : names.Nodup := by
  have hfold : ∀ (names seen : List String) (all : List String), seen.Nodup →
      names.foldlM (fun seen name => do
        validateName name maxEvidenceKindBytes what
        if name ∈ seen then throw (.new .invalidRequest duplicate)
        pure (name :: seen)) seen = (.ok all : Result (List String)) →
      names.Nodup ∧ ∀ name ∈ names, name ∉ seen := by
    intro names
    induction names with
    | nil => exact fun seen all _ _ => ⟨List.nodup_nil, List.forall_mem_nil _⟩
    | cons name names ih =>
        intro seen all hseen hrun
        rw [List.foldlM_cons] at hrun
        obtain ⟨next, hnext, hrest⟩ := bind_ok_iff.1 hrun
        obtain ⟨-, hguard⟩ := check_ok_iff.1 hnext
        obtain ⟨hnew, hpure⟩ := guard_ok_iff.1 hguard
        obtain rfl := pure_ok_iff.1 hpure
        obtain ⟨hnodup, hfresh⟩ := ih (name :: seen) all (List.nodup_cons.2 ⟨hnew, hseen⟩) hrest
        refine ⟨List.nodup_cons.2 ⟨fun hmem => ?_, hnodup⟩, List.forall_mem_cons.2 ⟨hnew, ?_⟩⟩
        · exact hfresh name hmem List.mem_cons_self
        · exact fun other hmem hold => hfresh other hmem (List.mem_cons_of_mem _ hold)
  unfold validateKinds at h
  obtain ⟨all, hall, -⟩ := bind_ok_iff.1 h
  exact (hfold names [] all List.nodup_nil hall).1

/-- In a valid policy no two grants share a name. -/
theorem names_nodup {policy : EvidencePolicy} (h : policy.validate = .ok ()) :
    (policy.entityKinds.map (·.1.asStr)).Nodup ∧ (policy.edgeKinds.map (·.1.asStr)).Nodup := by
  unfold validate at h
  obtain ⟨-, hrest⟩ := guard_ok_iff.1 h
  obtain ⟨-, hrest⟩ := check_ok_iff.1 hrest
  obtain ⟨hentities, hrest⟩ := check_ok_iff.1 hrest
  obtain ⟨hedges, -⟩ := check_ok_iff.1 hrest
  exact ⟨validateKinds_nodup hentities, validateKinds_nodup hedges⟩

/-- The coverage granted to a name is found, and is larger in a larger policy. -/
theorem coverage_mono {K : Type} {name : K → String} {grants grants' : List (K × EvidenceCoverage)}
    (hnodup : (grants'.map fun grant => name grant.1).Nodup)
    (hlarger : ∀ grant ∈ grants,
      ∃ coverage, (grant.1, coverage) ∈ grants' ∧ grant.2.rank ≤ coverage.rank) (kind : String) :
    EvidenceCoverage.rank
        (((grants.find? fun grant => name grant.1 = kind).map (·.2)).getD .unknown) ≤
      EvidenceCoverage.rank
        (((grants'.find? fun grant => name grant.1 = kind).map (·.2)).getD .unknown) := by
  cases hfind : grants.find? fun grant => name grant.1 = kind with
  | none => exact Nat.zero_le _
  | some grant =>
      have hname : name grant.1 = kind := by simpa using List.find?_some hfind
      obtain ⟨coverage, hmem, hrank⟩ := hlarger grant (List.mem_of_find?_eq_some hfind)
      cases hfind' : grants'.find? fun grant => name grant.1 = kind with
      | none =>
          have hnone := List.find?_eq_none.1 hfind' _ hmem
          exact absurd hname (by simpa using hnone)
      | some grant' =>
          have hname' : name grant'.1 = kind := by simpa using List.find?_some hfind'
          have hsame : grant' = (grant.1, coverage) :=
            List.inj_on_of_nodup_map hnodup (List.mem_of_find?_eq_some hfind') hmem
              (hname'.trans hname.symm)
          rw [hsame]
          exact hrank

end EvidencePolicy

namespace PredicateEvidence

/-- The same snapshot under a larger valid policy. -/
structure Enlarges (larger evidence : PredicateEvidence) : Prop where
  snapshot : larger.snapshot = evidence.snapshot
  laboratory : larger.laboratory = evidence.laboratory
  valid : larger.policy.validate = .ok ()
  policy : larger.policy.Enlarges evidence.policy

section Larger

variable {larger evidence : PredicateEvidence} (h : larger.Enlarges evidence)

include h

theorem entityKindCoverage_mono (kind : EntityKind) :
    (evidence.entityKindCoverage kind).rank ≤ (larger.entityKindCoverage kind).rank :=
  EvidencePolicy.coverage_mono (EvidencePolicy.names_nodup h.valid).1 h.policy.entityKinds kind.asStr

theorem edgeKindCoverage_mono (kind : EdgeKind) :
    (evidence.edgeKindCoverage kind).rank ≤ (larger.edgeKindCoverage kind).rank :=
  EvidencePolicy.coverage_mono (EvidencePolicy.names_nodup h.valid).2 h.policy.edgeKinds kind.asStr

theorem entityObserved_mono {id : EntityId} (hid : evidence.entityObserved id = true) :
    larger.entityObserved id = true := by
  unfold entityObserved at hid ⊢
  simp only [Bool.and_eq_true, Option.any_eq_true, Bool.or_eq_true] at hid ⊢
  obtain ⟨hne, entity, hget, hobserved⟩ := hid
  refine ⟨hne, entity, h.snapshot ▸ hget, ?_⟩
  rcases hobserved with hall | hkind
  · exact .inl (EvidenceCoverage.observesMembers_mono h.policy.allEntities hall)
  · exact .inr (EvidenceCoverage.observesMembers_mono (entityKindCoverage_mono h _) hkind)

theorem entityAbsenceComplete_mono {kind : Option EntityKind}
    (hkind : evidence.entityAbsenceComplete kind = true) :
    larger.entityAbsenceComplete kind = true := by
  unfold entityAbsenceComplete at hkind ⊢
  simp only [Bool.or_eq_true, Option.any_eq_true] at hkind ⊢
  rcases hkind with hall | ⟨kind', rfl, hkind'⟩
  · exact .inl (EvidenceCoverage.provesAbsence_mono h.policy.allEntities hall)
  · exact .inr ⟨kind', rfl,
      EvidenceCoverage.provesAbsence_mono (entityKindCoverage_mono h kind') hkind'⟩

theorem edgeAbsenceComplete_mono {kind : Option EdgeKind}
    (hkind : evidence.edgeAbsenceComplete kind = true) :
    larger.edgeAbsenceComplete kind = true := by
  unfold edgeAbsenceComplete at hkind ⊢
  simp only [Bool.or_eq_true, Option.any_eq_true] at hkind ⊢
  rcases hkind with hall | ⟨kind', rfl, hkind'⟩
  · exact .inl (EvidenceCoverage.provesAbsence_mono h.policy.allEdges hall)
  · exact .inr ⟨kind', rfl,
      EvidenceCoverage.provesAbsence_mono (edgeKindCoverage_mono h kind') hkind'⟩

theorem edgeObserved_mono {kind : EdgeKind}
    (hkind : (evidence.policy.allEdges.observesMembers ||
      (evidence.edgeKindCoverage kind).observesMembers) = true) :
    (larger.policy.allEdges.observesMembers ||
      (larger.edgeKindCoverage kind).observesMembers) = true := by
  rw [Bool.or_eq_true] at hkind ⊢
  rcases hkind with hall | hkind
  · exact .inl (EvidenceCoverage.observesMembers_mono h.policy.allEdges hall)
  · exact .inr (EvidenceCoverage.observesMembers_mono (edgeKindCoverage_mono h kind) hkind)

theorem factValue_mono {fact : Fact} {value : Value} (hvalue : evidence.factValue fact = some value) :
    larger.factValue fact = some value := by
  unfold factValue at hvalue ⊢
  rw [h.laboratory, h.snapshot]
  split at hvalue
  · rename_i hlaboratory
    rw [if_pos hlaboratory]
    exact hvalue
  · rename_i hscoped
    rw [if_neg hscoped]
    split at hvalue
    · cases hvalue
    · rename_i hadmitted
      obtain ⟨hcurrent, hsource⟩ := not_or.1 hadmitted
      obtain ⟨source, hmem, hadmits⟩ := List.any_eq_true.1 (not_not.1 hsource)
      have hany : larger.policy.sources.any (·.admits fact) = true :=
        List.any_eq_true.2 ⟨source, h.policy.sources source hmem, hadmits⟩
      rw [if_neg (not_or.2 ⟨hcurrent, not_not.2 hany⟩)]
      exact hvalue

theorem terrainObserved_mono {coord : MapCoord} (hcoord : evidence.terrainObserved coord = true) :
    larger.terrainObserved coord = true := by
  unfold terrainObserved at hcoord ⊢
  rw [Bool.or_eq_true, List.any_eq_true] at hcoord ⊢
  rcases hcoord with hlaboratory | ⟨area, hmem, hcontains⟩
  · exact .inl (h.laboratory ▸ hlaboratory)
  · exact .inr (h.policy.terrainRegions area hmem coord hcontains)

omit h in
/-- An answer withheld more often says no more. -/
theorem withheld_mono {b b' : Bool} {x y : PredicateTruth} (hb : b = true → b' = true)
    (hxy : x ≤ y) : (if !b then .unknown else x) ≤ (if !b' then .unknown else y) := by
  cases b with
  | false => exact Truth.unknown_le _
  | true =>
      rw [hb rfl]
      exact hxy

omit h in
theorem granted_mono {b b' : Bool} {x : PredicateTruth} (hb : b = true → b' = true) :
    (if b then x else .unknown) ≤ (if b' then x else .unknown) := by
  cases b with
  | false => exact Truth.unknown_le _
  | true =>
      rw [hb rfl]
      exact Truth.le_of_eq rfl

theorem entityExists_mono (id : EntityId) :
    evidence.evaluateValidated (.entityExists id) ≤ larger.evaluateValidated (.entityExists id) := by
  unfold evaluateValidated
  rw [h.snapshot]
  split
  · exact Truth.unknown_le _
  · split
    · exact granted_mono (entityObserved_mono h)
    · exact granted_mono (entityAbsenceComplete_mono h)

theorem entityKind_mono (id : EntityId) (kind : EntityKind) :
    evidence.evaluateValidated (.entityKind id kind) ≤
      larger.evaluateValidated (.entityKind id kind) := by
  unfold evaluateValidated
  rw [h.snapshot]
  split
  · exact Truth.unknown_le _
  · split
    · exact withheld_mono (entityObserved_mono h) (Truth.le_of_eq rfl)
    · exact granted_mono (entityAbsenceComplete_mono h)

theorem edgeExists_mono (id : EdgeId) (kind : Option EdgeKind) :
    evidence.evaluateValidated (.edgeExists id kind) ≤
      larger.evaluateValidated (.edgeExists id kind) := by
  unfold evaluateValidated
  rw [h.snapshot]
  split
  · exact Truth.unknown_le _
  · split
    · rename_i edge _
      dsimp only
      simp only [← Bool.not_and]
      refine withheld_mono (fun hobserved => ?_) (Truth.le_of_eq rfl)
      rw [Bool.and_eq_true, Bool.and_eq_true] at hobserved ⊢
      exact ⟨⟨edgeObserved_mono h hobserved.1.1, entityObserved_mono h hobserved.1.2⟩,
        entityObserved_mono h hobserved.2⟩
    · exact granted_mono (edgeAbsenceComplete_mono h)

theorem fieldCompare_mono (id : EntityId) (field : String) (op : CompareOp) (value : Value) :
    evidence.evaluateValidated (.fieldCompare id field op value) ≤
      larger.evaluateValidated (.fieldCompare id field op value) := by
  unfold evaluateValidated
  rw [h.snapshot]
  refine withheld_mono (entityObserved_mono h) ?_
  cases hknown : ((evidence.snapshot.graph.entities.get? id).bind
      (·.fields.get? field)).bind evidence.factValue with
  | none => exact Truth.unknown_le _
  | some known =>
      rw [bind_mono (fun _ _ => factValue_mono h) hknown]
      exact Truth.le_of_eq rfl

theorem regionTerrain_mono (area : MapCuboid) (tileCode : U 32) :
    evidence.evaluateValidated (.regionTerrain area tileCode) ≤
      larger.evaluateValidated (.regionTerrain area tileCode) := by
  rw [evaluateValidated, evaluateValidated, toTruth_scanRegion_eq_all, toTruth_scanRegion_eq_all]
  apply Truth.all_map_mono
  intro coord _
  unfold observedTileCode
  rw [h.snapshot]
  by_cases hobserved : evidence.terrainObserved coord = true
  · rw [if_pos hobserved, if_pos (terrainObserved_mono h hobserved)]
    exact Truth.le_of_eq rfl
  · rw [if_neg hobserved]
    exact Truth.unknown_le _

theorem laboratoryTruth_mono (truth : WorldSnapshot → Result PredicateTruth) :
    evidence.laboratoryTruth (truth evidence.snapshot) ≤
      larger.laboratoryTruth (truth larger.snapshot) := by
  unfold laboratoryTruth
  rw [h.snapshot, h.laboratory]
  exact Truth.le_of_eq rfl

/-- **A larger policy says no less.** -/
theorem leaf_mono {p : Predicate} (hp : p.IsLeaf) :
    evidence.evaluateValidated p ≤ larger.evaluateValidated p := by
  cases p with
  | all ps => exact hp.elim
  | any ps => exact hp.elim
  | not p => exact hp.elim
  | true => exact Truth.le_of_eq rfl
  | false => exact Truth.le_of_eq rfl
  | entityExists id => exact entityExists_mono h id
  | entityKind id kind => exact entityKind_mono h id kind
  | fieldCompare id field op value => exact fieldCompare_mono h id field op value
  | edgeExists id kind => exact edgeExists_mono h id kind
  | paused expected =>
      unfold evaluateValidated
      rw [h.snapshot]
      exact withheld_mono h.policy.paused (Truth.le_of_eq rfl)
  | regionTerrain area tileCode => exact regionTerrain_mono h area tileCode
  | laboratoryRoomAccess area entry targets =>
      exact laboratoryTruth_mono h fun s =>
        LaboratoryAccess.laboratoryRoomAccessTruth s area entry targets
  | laboratoryRoomAccessPairedStairs area entry targets =>
      exact laboratoryTruth_mono h fun s =>
        LaboratoryAccess.laboratoryRoomAccessPairedStairsTruth s area entry targets
  | laboratoryCivilianReleaseSafety burrow civilians =>
      exact laboratoryTruth_mono h fun s =>
        LaboratoryCivilian.laboratoryCivilianReleaseSafetyTruth s burrow civilians
  | entityQuantity kind filterField filterValue quantityField op value =>
      unfold evaluateValidated
      rw [h.snapshot]
      exact withheld_mono (entityAbsenceComplete_mono h)
        (entityQuantityTruth_mono (fun _ _ => factValue_mono h) _ _)
  | entityQuantityIncrease =>
      unfold evaluateValidated
      rw [h.snapshot]
      exact withheld_mono (entityAbsenceComplete_mono h)
        (entityQuantityTruth_mono (fun _ _ => factValue_mono h) _ _)

end Larger

/-! ## Whole predicates -/

theorem evaluate_ok_iff {evidence : PredicateEvidence} {p : Predicate} {truth : PredicateTruth} :
    evidence.evaluate p = .ok truth ↔ p.validateShape = .ok () ∧
      p.validateQuantityWork evidence.snapshot.graph.entities.size = .ok () ∧
      evidence.evaluateValidated p = truth := by
  unfold evaluate
  rw [check_ok_iff, check_ok_iff, pure_ok_iff]

theorem isLeaf_of_mem_leaves (p : Predicate) : ∀ leaf ∈ p.leaves, leaf.IsLeaf := by
  have hmembers : ∀ ps : List Predicate, (∀ p ∈ ps, ∀ leaf ∈ p.leaves, leaf.IsLeaf) →
      ∀ leaf ∈ Predicate.leavesList ps, leaf.IsLeaf := by
    intro ps ih leaf hleaf
    rw [Predicate.leavesList_eq] at hleaf
    obtain ⟨p, hp, hmem⟩ := List.mem_flatMap.1 hleaf
    exact ih p hp leaf hmem
  induction p using Predicate.induct with
  | hall ps ih => exact hmembers ps ih
  | hany ps ih => exact hmembers ps ih
  | hnot p ih => exact ih
  | hleaf p hleaf =>
      intro leaf hmem
      rw [Predicate.leaves_of_isLeaf hleaf, List.mem_singleton] at hmem
      exact hmem ▸ hleaf

/-- A definite answer of a predicate whose leaves are spelt alike is the plain answer. -/
theorem evaluateTruth_of_evaluate {evidence : PredicateEvidence} {p : Predicate}
    (hspelt : ∀ leaf ∈ p.leaves, evidence.SpeltAlike leaf) (candidate : Option EntityId)
    {truth : PredicateTruth} (heval : evidence.evaluate p = .ok truth) (hdefinite : truth ≠ .unknown) :
    evaluateTruth evidence.snapshot candidate p = truth := by
  obtain ⟨hshape, -, rfl⟩ := evaluate_ok_iff.1 heval
  have hvalid := Predicate.leaf_of_validateShape hshape
  have hle : evidence.evaluateValidated p ≤ evaluateTruth evidence.snapshot candidate p := by
    apply compositional_mono evidence.compositional_evaluateValidated
      (compositional_evaluateTruth evidence.snapshot candidate)
    intro leaf hleaf
    exact evidence.leaf_le candidate (isLeaf_of_mem_leaves p leaf hleaf) (hvalid leaf hleaf)
      (hspelt leaf hleaf)
  exact Truth.eq_of_le hle hdefinite

/-- A leaf spelt in another way is answered twice. -/
theorem speltAlike_of_agrees {evidence : PredicateEvidence} {p : Predicate}
    (h : ∀ truth, evidence.evaluate p = .ok truth → truth ≠ .unknown →
      evaluateTruth evidence.snapshot none p = truth) : evidence.SpeltAlike p := by
  cases p with
  | entityKind id kind =>
      intro hobserved entity hget hname
      have hid := ne_zero_of_entityObserved hobserved
      have htrue : evidence.evaluate (.entityKind id kind) = .ok .true := by
        refine evaluate_ok_iff.2 ⟨Predicate.validateShape_of_leaf trivial rfl, rfl, ?_⟩
        rw [evaluateValidated, if_neg hid, hget]
        simp [hobserved, hname]
      have hplain := h .true htrue nofun
      rw [evaluateTruth, targetEntity_of_ne hid, hget] at hplain
      by_contra hkind
      simp [Truth.ofBool, hkind] at hplain
  | edgeExists id kind =>
      cases kind with
      | none => trivial
      | some kind =>
          intro hid edge hget hedge hfrom hto hname
          have htrue : evidence.evaluate (.edgeExists id (some kind)) = .ok .true := by
            refine evaluate_ok_iff.2 ⟨Predicate.validateShape_of_leaf trivial rfl, rfl, ?_⟩
            rw [evaluateValidated, if_neg hid, hget]
            simp [hedge, hfrom, hto, hname]
          have hplain := h .true htrue nofun
          rw [evaluateTruth, hget] at hplain
          by_contra hkind
          simp [Truth.ofBool, hkind] at hplain
  | _ => trivial

end PredicateEvidence

namespace Sample

/-- A world of one unit. -/
def unitWorld : WorldSnapshot := snapshot 0 (entities [entity 1 1])

/-- Grants for the members of one kind. -/
def unitsObserved : EvidencePolicy :=
  { EvidencePolicy.grantsAt unitWorld.anchor with entityKinds := [(.unit, .observed)] }

/-- A valid policy for the world binds to it. -/
theorem unitWorld_scopedTo {policy : EvidencePolicy} (hvalid : policy.validate = .ok ())
    (hanchor : policy.anchor = some unitWorld.anchor) :
    PredicateEvidence.scopedTo unitWorld policy = .ok ⟨unitWorld, policy, false⟩ := by
  have hkeys : unitWorld.graph.KeysMatch := by decide
  have hhash : unitWorld.hashIsValid = true := snapshot_hashIsValid 0 _
  rw [PredicateEvidence.scopedTo, hvalid]
  simp [hanchor, hkeys, hhash, bind, Except.bind, pure, Except.pure]

end Sample

end Dfmcp
