import Dfmcp.World.Rebase
import Dfmcp.World.DeltaProof

/-!
# What a clean rebase does

A clean rebase keeps the changes that would write something new to the target and drops the
rest as already applied: on the logs of writes it is `Replay.prune` (`classify_eq_prune`).
Dropping one no-op write is harmless; dropping it from a *list* is not, when an earlier change
of the same list moved the record away and the dropped one was to put it back.

`rebaseChanges_effect_iff` says exactly when a clean rebase has the effect of the original
list: no slot is written away from the target's record and finally written back to it.
-/

namespace Dfmcp

open Machine Replay

/-! ## The classification -/

section Decisions

variable {T : Type} [DecidableEq T] {base target : Option T}

theorem stableUpsert_apply {incoming : T} (h : stableUpsert base target incoming = .apply) :
    target ≠ some incoming := by
  rintro rfl
  simp [stableUpsert] at h

theorem stableUpsert_alreadyApplied {incoming : T}
    (h : stableUpsert base target incoming = .alreadyApplied) : target = some incoming := by
  by_contra hne
  rw [stableUpsert, if_neg hne] at h
  split at h <;> cases h

theorem stableRemove_apply {expected : T → Bool} (h : stableRemove base target expected = .apply) :
    target ≠ none := by
  rintro rfl
  cases base with
  | none => cases h
  | some record => cases hex : expected record <;> simp [stableRemove, hex] at h

theorem stableRemove_alreadyApplied {expected : T → Bool}
    (h : stableRemove base target expected = .alreadyApplied) : target = none := by
  cases base with
  | none => cases h
  | some record =>
      cases target with
      | none => rfl
      | some targetRecord =>
          cases hex : expected record <;> by_cases heq : targetRecord = record <;>
            simp [stableRemove, hex, heq] at h

end Decisions

variable {b t : WorldGraph} {c : WorldChange}

/-- A change is kept when it writes something new. -/
theorem stableDecision_apply (h : stableDecision b t c = .apply) :
    c.written ≠ t.lookup c.key := by
  intro hw
  cases c with
  | upsertEntity record => exact stableUpsert_apply h (WorldGraph.map_entity_inj.1 hw.symm)
  | removeEntity id generation revision =>
      exact stableRemove_apply h (WorldGraph.map_entity_inj.1 hw.symm)
  | upsertEdge record => exact stableUpsert_apply h (WorldGraph.map_edge_inj.1 hw.symm)
  | removeEdge id revision => exact stableRemove_apply h (WorldGraph.map_edge_inj.1 hw.symm)
  | upsertMapChunk chunk => exact stableUpsert_apply h (WorldGraph.map_chunk_inj.1 hw.symm)
  | removeMapChunk coord revision =>
      exact stableRemove_apply h (WorldGraph.map_chunk_inj.1 hw.symm)
  | appendEvent event => exact stableUpsert_apply h (WorldGraph.map_event_inj.1 hw.symm)

/-- A change is dropped when the target's slot already holds what it writes. -/
theorem stableDecision_alreadyApplied (h : stableDecision b t c = .alreadyApplied) :
    c.written = t.lookup c.key := by
  cases c with
  | upsertEntity record =>
      exact (WorldGraph.map_entity_inj.2 (stableUpsert_alreadyApplied h)).symm
  | removeEntity id generation revision =>
      exact (WorldGraph.map_entity_inj.2 (stableRemove_alreadyApplied h)).symm
  | upsertEdge record => exact (WorldGraph.map_edge_inj.2 (stableUpsert_alreadyApplied h)).symm
  | removeEdge id revision =>
      exact (WorldGraph.map_edge_inj.2 (stableRemove_alreadyApplied h)).symm
  | upsertMapChunk chunk =>
      exact (WorldGraph.map_chunk_inj.2 (stableUpsert_alreadyApplied h)).symm
  | removeMapChunk coord revision =>
      exact (WorldGraph.map_chunk_inj.2 (stableRemove_alreadyApplied h)).symm
  | appendEvent event =>
      exact (WorldGraph.map_event_inj.2 (stableUpsert_alreadyApplied h)).symm

/-- **Classification prunes the log** of what the target already has. -/
theorem classify_eq_prune {cs rebased : List WorldChange} (h : classify b t cs = .ok rebased) :
    writes rebased = prune t.lookup (writes cs) := by
  induction cs generalizing rebased with
  | nil =>
      cases h
      rfl
  | cons c cs ih =>
      rw [classify] at h
      cases hd : stableDecision b t c with
      | apply =>
          simp only [hd] at h
          cases hcs : classify b t cs with
          | error e => simp [hcs, bind, Except.bind] at h
          | ok kept =>
              simp only [hcs, bind, Except.bind, pure, Except.pure, Except.ok.injEq] at h
              subst h
              change c.toWrite :: writes kept = prune t.lookup (c.toWrite :: writes cs)
              rw [prune_cons_of_ne _ (stableDecision_apply hd), ih hcs]
      | alreadyApplied =>
          simp only [hd] at h
          change writes rebased = prune t.lookup (c.toWrite :: writes cs)
          rw [prune_cons_of_eq _ (stableDecision_alreadyApplied hd), ih h]
      | conflict =>
          simp only [hd] at h
          cases h

/-! ## The effect of a clean rebase -/

/-- What a rebase has checked when it is clean. -/
theorem rebaseChanges_clean_iff {base target : WorldSnapshot} {changes rebased : List WorldChange}
    {planId : PlanId} {anchor : StateAnchor} :
    rebaseChanges base target changes planId = .clean anchor rebased ↔
      (base.hashIsValid = true ∧ target.hashIsValid = true ∧ base.fortressId = target.fortressId ∧
        base.cursor.epoch = target.cursor.epoch ∧ base.cursor.sequence ≤ target.cursor.sequence ∧
        base.tick ≤ target.tick ∧ branchIsValid base target = true) ∧
      (∃ cursor, base.cursor.checkedNext = some cursor ∧
        ∃ d, buildDelta base cursor base.tick changes = .ok d) ∧
      classify base.graph target.graph changes = .ok rebased ∧
      (rebased ≠ [] → ∃ cursor, target.cursor.checkedNext = some cursor ∧
        ∃ d, buildDelta target cursor target.tick rebased = .ok d) ∧
      anchor = target.anchor := by
  simp only [rebaseChanges]
  rw [apply_ite (· = RebaseOutcome.clean anchor rebased)]
  simp only [reduceCtorEq, if_false_left, not_or, not_not, not_lt, ne_eq]
  refine and_congr_right fun _ => ?_
  cases hnext : base.cursor.checkedNext with
  | none => simp
  | some cursor =>
      by_cases hb : (buildDelta base cursor base.tick changes).isOk = true
      · cases hc : classify base.graph target.graph changes with
        | error e => simp [hb]
        | ok r =>
            by_cases hr : r = []
            · simp [hb, ← isOk_iff, hr]
              grind
            · cases hn : target.cursor.checkedNext with
              | none => 
                simp [hb, ← isOk_iff, hr]
                grind
              | some rc => 
                by_cases ht : (buildDelta target rc target.tick r).isOk = true
                · simp [hb, ← isOk_iff, hr, ht]
                  grind
                · simp [hb, ← isOk_iff, hr, ht]
                  grind
      · simp [hb, ← isOk_iff]

/-- The slots a change list touches. -/
def TouchedBy (changes : List WorldChange) (k : RecordKey) : Prop := ∃ c ∈ changes, c.key = k

/-- Applied to `target`, the rebased list has the effect that `changes` has on `base`: the same
records in the slots the list touches, the target's everywhere else. -/
def EffectPreserved (base target : WorldSnapshot) (changes rebased : List WorldChange) : Prop :=
  ∃ sb st, applyChanges base changes = .ok sb ∧ applyEach target rebased = .ok st ∧
    (rebased ≠ [] ∨ target.graph.KeysMatch → applyChanges target rebased = .ok st) ∧
    (∀ k, TouchedBy changes k → st.graph.lookup k = sb.graph.lookup k) ∧
    (∀ k, ¬ TouchedBy changes k → st.graph.lookup k = target.graph.lookup k) ∧
    (target.graph = base.graph → st.graph = sb.graph)

/-- No slot is written away from the target's record and finally written back to it. -/
def NothingPutBack (target : WorldSnapshot) (changes : List WorldChange) : Prop :=
  ∀ k, last (writes changes) k = some (target.graph.lookup k) →
    ∀ c ∈ changes, c.key = k → c.written = target.graph.lookup k

section Effect

variable {base target : WorldSnapshot} {changes rebased : List WorldChange} {planId : PlanId}
  {anchor : StateAnchor}

/-- A valid branch whose records sit under their own identifiers is a sound graph, or it is the
base itself. -/
theorem branchIsValid_sound (h : branchIsValid base target = true) (ht : target.graph.KeysMatch) :
    base = target ∨ target.graph.EndpointsExist ∧ target.graph.EventsKeyed := by
  unfold branchIsValid at h
  split at h
  · exact .inl (of_decide_eq_true h)
  · right
    unfold transitionIsValid at h
    split at h
    · cases h
    · obtain ⟨d, hd⟩ := (isOk_iff _).1 h
      obtain ⟨-, -, -, hev, hbuild, -⟩ := diffSnapshots_eq_ok.1 hd
      obtain ⟨hfits, -, -, hchanges, -⟩ := (buildDelta_ok_iff _ _ _ _ _).1 hbuild
      have happ := hfits.changes
      rw [hchanges] at happ
      have hrun := runAll_diffChanges ht hev
      exact ⟨hrun ▸ happ.endpoints, hrun ▸ happ.events⟩

theorem touchedBy_iff (k : RecordKey) :
    TouchedBy changes k ↔ ∃ v, last (writes changes) k = some v := by
  rw [← Option.ne_none_iff_exists', ne_eq, last_eq_none_iff, not_not, Touches, writes]
  simp [TouchedBy, WorldChange.toWrite]

/-- When everything was dropped, the base with the changes is no different from the target. -/
theorem runAll_of_prune_nil (hp : prune target.graph.lookup (writes changes) = [])
    (hbase : base = target) : runAll base.graph changes = target.graph := by
  apply WorldGraph.ext_lookup
  intro k
  rw [lookup_runAll_eq_last, hbase]
  cases hlast : last (writes changes) k with
  | none => rfl
  | some v =>
      have hmem := List.filter_eq_nil_iff.1 hp _ (mem_of_last hlast)
      simpa using hmem

/-- **When a clean rebase preserves the effect of the changes.** -/
theorem rebaseChanges_effect_iff
    (h : rebaseChanges base target changes planId = .clean anchor rebased) :
    EffectPreserved base target changes rebased ↔ NothingPutBack target changes := by
  obtain ⟨⟨-, -, -, -, -, -, hbranch⟩, ⟨cursor, -, d, hbuild⟩, hclass, hrebased, -⟩ :=
    rebaseChanges_clean_iff.1 h
  have hprune := classify_eq_prune hclass
  have hbase : Applicable base.graph changes := by
    obtain ⟨hfits, -, -, hchanges, -⟩ := (buildDelta_ok_iff _ _ _ _ _).1 hbuild
    exact hchanges ▸ hfits.changes
  have htarget : rebased ≠ [] → Applicable target.graph rebased := by
    intro hne
    obtain ⟨cursor, -, d, hbuild⟩ := hrebased hne
    obtain ⟨hfits, -, -, hchanges, -⟩ := (buildDelta_ok_iff _ _ _ _ _).1 hbuild
    exact hchanges ▸ hfits.changes
  have hempty : rebased = [] → target.graph.KeysMatch → Applicable target.graph rebased := by
    rintro rfl hkeys
    rcases branchIsValid_sound hbranch hkeys with heq | ⟨hend, hev⟩
    · have hrun := runAll_of_prune_nil hprune.symm heq
      exact ⟨trivial, hrun ▸ hbase.endpoints, hrun ▸ hbase.events⟩
    · exact ⟨trivial, hend, hev⟩
  have hadmitted : Admitted target.graph rebased := by
    by_cases hne : rebased = []
    · rw [hne]
      trivial
    · exact (htarget hne).admitted
  have hst : ∀ k, (runAll target.graph rebased).lookup k =
      replay target.graph.lookup (prune target.graph.lookup (writes changes)) k := by
    intro k
    rw [lookup_runAll, hprune]
  have heffect : NothingPutBack target changes ↔ ∀ k,
      (runAll target.graph rebased).lookup k =
        (last (writes changes) k).getD (target.graph.lookup k) := by
    simp only [hst, replay_prune_iff, NothingPutBack, writes, WorldChange.toWrite, List.mem_map,
      forall_exists_index, and_imp, forall_apply_eq_imp_iff₂]
  rw [heffect]
  constructor
  · rintro ⟨sb, st, hsb, hst, -, htouched, huntouched, -⟩ k
    obtain ⟨-, rfl⟩ := (applyChanges_ok_iff _ _ _).1 hsb
    obtain ⟨-, rfl⟩ := (applyEach_ok_iff _ _ _).1 hst
    cases hlast : last (writes changes) k with
    | none =>
        refine huntouched k fun hk => ?_
        obtain ⟨v, hv⟩ := (touchedBy_iff k).1 hk
        rw [hlast] at hv
        cases hv
    | some v =>
        refine (htouched k ((touchedBy_iff k).2 ⟨v, hlast⟩)).trans ?_
        simp only [lookup_runAll_eq_last, hlast, Option.getD_some]
  · intro heq
    refine ⟨_, _, (applyChanges_ok_iff _ _ _).2 ⟨hbase, rfl⟩,
      (applyEach_ok_iff _ _ _).2 ⟨hadmitted, rfl⟩, fun hor => (applyChanges_ok_iff _ _ _).2
        ⟨?_, rfl⟩, fun k hk => ?_, fun k hk => ?_, fun hgraph => ?_⟩
    · by_cases hne : rebased = []
      · exact hempty hne (hor.resolve_left (not_not.2 hne))
      · exact htarget hne
    · obtain ⟨v, hv⟩ := (touchedBy_iff k).1 hk
      simp only [heq k, lookup_runAll_eq_last, hv, Option.getD_some]
    · have hnone : last (writes changes) k = none :=
        Option.eq_none_iff_forall_ne_some.2 fun v hv => hk ((touchedBy_iff k).2 ⟨v, hv⟩)
      simp only [heq k, hnone, Option.getD_none]
    · apply WorldGraph.ext_lookup
      intro k
      refine (heq k).trans ?_
      rw [hgraph, ← lookup_runAll_eq_last]

end Effect

/-- One record moves on, on a target that has gained another. -/
theorem rebaseChanges_effect_advance :
    let base := Sample.snapshot 0 (Sample.entities [Sample.entity 1 1])
    let target := Sample.snapshot 1 (Sample.entities [Sample.entity 1 1, Sample.entity 2 0])
    let changes := [WorldChange.upsertEntity (Sample.entity 1 2)]
    rebaseChanges base target changes 0 = .clean target.anchor changes ∧
      EffectPreserved base target changes changes := by
  intro base target changes
  have hbranch : branchIsValid base target = true := by
    have hkeys : target.graph.KeysMatch := by decide
    have hlegal : LegalChange base.graph target.graph := .of_decide hkeys (by decide) (by decide)
      (by decide) (by decide) (by decide) (by decide) (by decide)
    have hdiff := (diffSnapshots_ok_iff (Sample.snapshot_hashIsValid 0 _)
      (Sample.snapshot_hashIsValid 1 _) hkeys (NoCollision.of_eq rfl) _).2
      ⟨⟨rfl, by decide, le_rfl, rfl, hlegal⟩, rfl⟩
    have hne : base.anchor ≠ target.anchor := fun h => by
      have hcursor := congrArg StateAnchor.cursor h
      revert hcursor
      decide
    rw [branchIsValid, if_neg hne]
    exact (isOk_iff _).2 ⟨_, hdiff⟩
  have h : rebaseChanges base target changes 0 = .clean target.anchor changes :=
    rebaseChanges_clean_iff.2 ⟨⟨Sample.snapshot_hashIsValid _ _, Sample.snapshot_hashIsValid _ _,
      rfl, rfl, by decide, le_rfl, hbranch⟩,
      ⟨⟨0, 1⟩, by decide, (exists_buildDelta_iff _ _ _ _).2
        ⟨Sample.snapshot_hashIsValid _ _, by decide, by decide, le_rfl, by decide⟩⟩,
      by decide, fun _ => ⟨⟨0, 2⟩, by decide, (exists_buildDelta_iff _ _ _ _).2
        ⟨Sample.snapshot_hashIsValid _ _, by decide, by decide, le_rfl, by decide⟩⟩, rfl⟩
  refine ⟨h, (rebaseChanges_effect_iff h).2 fun k hlast => ?_⟩
  cases (touchedBy_iff k).2 ⟨_, hlast⟩ with
  | intro c hc =>
      obtain ⟨hmem, rfl⟩ := hc
      cases List.mem_singleton.1 hmem
      revert hlast
      decide

/-- A record is removed and put back: the rebase drops the second change as already applied,
and the record is gone. -/
theorem rebaseChanges_loses_readded :
    let base := Sample.snapshot 0 (Sample.entities [Sample.entity 1 1])
    let changes := [WorldChange.removeEntity 1 0 1, .upsertEntity (Sample.entity 1 1)]
    (∃ s, applyChanges base changes = .ok s) ∧
      rebaseChanges base base changes 0 = .clean base.anchor [.removeEntity 1 0 1] ∧
      ¬ EffectPreserved base base changes [.removeEntity 1 0 1] := by
  intro base changes
  refine ⟨⟨_, (applyChanges_ok_iff _ _ _).2 ⟨by decide, rfl⟩⟩, ?_, ?_⟩
  · exact rebaseChanges_clean_iff.2 ⟨⟨Sample.snapshot_hashIsValid _ _,
      Sample.snapshot_hashIsValid _ _, rfl, rfl, le_rfl, le_rfl, by simp [branchIsValid]⟩,
      ⟨⟨0, 1⟩, by decide, (exists_buildDelta_iff _ _ _ _).2
        ⟨Sample.snapshot_hashIsValid _ _, by decide, by decide, le_rfl, by decide⟩⟩,
      by decide, fun _ => ⟨⟨0, 1⟩, by decide, (exists_buildDelta_iff _ _ _ _).2
        ⟨Sample.snapshot_hashIsValid _ _, by decide, by decide, le_rfl, by decide⟩⟩, rfl⟩
  · rintro ⟨sb, st, hsb, hst, -, htouched, -, -⟩
    obtain ⟨-, rfl⟩ := (applyChanges_ok_iff _ _ _).1 hsb
    obtain ⟨-, rfl⟩ := (applyEach_ok_iff _ _ _).1 hst
    have hgone := htouched (.entity 1) ⟨.removeEntity 1 0 1, by decide, rfl⟩
    revert hgone
    decide

end Dfmcp
