import Dfmcp.World.Rebase
import Dfmcp.World.DeltaProof

/-!
# The law of the three-way merge

Record by record, a merge takes the side that changed, or the value both sides agree on
(`IsMerge`). `threeWayMerge_ok_iff` reads a successful merge off the code in those terms, and
from it come the record-wise law, the symmetry in the two branches and the soundness of the
merged graph.

The scalar merge of `paused` is never exercised: a branch is first validated by diffing it
against the base, and a diff cannot express a flipped flag. So a legal branch merges with an
unchanged one exactly when it leaves the flag alone (`threeWayMerge_unchanged_iff`).
-/

namespace Dfmcp

open Machine Replay

/-! ## One value -/

/-- The merge of one value: the side that changed, or the common value. -/
structure IsMerge {V : Type} (base ours theirs merged : V) : Prop where
  takeTheirs : ours = base → merged = theirs
  takeOurs : theirs = base → merged = ours
  takeCommon : ours = theirs → merged = ours
  agree : ours = base ∨ theirs = base ∨ ours = theirs

namespace IsMerge

variable {V W : Type} {base ours theirs merged : V}

theorem symm (h : IsMerge base ours theirs merged) : IsMerge base theirs ours merged where
  takeTheirs := h.takeOurs
  takeOurs := h.takeTheirs
  takeCommon heq := (h.takeCommon heq.symm).trans heq.symm
  agree := by
    rcases h.agree with h | h | h
    · exact .inr (.inl h)
    · exact .inl h
    · exact .inr (.inr h.symm)

theorem eq_or (h : IsMerge base ours theirs merged) : merged = ours ∨ merged = theirs := by
  rcases h.agree with hb | hb | hb
  · exact .inr (h.takeTheirs hb)
  · exact .inl (h.takeOurs hb)
  · exact .inl (h.takeCommon hb)

/-- An injective view of the values does not change the merge. -/
theorem map_iff {f : V → W} (hf : Function.Injective f) :
    IsMerge (f base) (f ours) (f theirs) (f merged) ↔ IsMerge base ours theirs merged := by
  constructor
  · intro h
    exact ⟨fun heq => hf (h.takeTheirs (by rw [heq])), fun heq => hf (h.takeOurs (by rw [heq])),
      fun heq => hf (h.takeCommon (by rw [heq])), by simpa only [hf.eq_iff] using h.agree⟩
  · intro h
    exact ⟨fun heq => by rw [h.takeTheirs (hf heq)], fun heq => by rw [h.takeOurs (hf heq)],
      fun heq => by rw [h.takeCommon (hf heq)], by simpa only [hf.eq_iff] using h.agree⟩

end IsMerge

theorem isMerge_unchanged_iff {V : Type} {base ours merged : V} :
    IsMerge base ours base merged ↔ merged = ours :=
  ⟨fun h => h.takeOurs rfl, fun h => ⟨fun heq => h.trans heq, fun _ => h, fun _ => h, .inr (.inl rfl)⟩⟩

theorem mergeChoice_eq_some_iff {V : Type} [DecidableEq V] {base ours theirs merged : V} :
    mergeChoice base ours theirs = some merged ↔ IsMerge base ours theirs merged := by
  unfold mergeChoice
  by_cases ho : ours = base
  · rw [if_pos ho, Option.some.injEq]
    constructor
    · rintro rfl
      exact ⟨fun _ => rfl, fun ht => ht.trans ho.symm, Eq.symm, .inl ho⟩
    · exact fun h => (h.takeTheirs ho).symm
  · rw [if_neg ho]
    by_cases ht : theirs = base ∨ ours = theirs
    · rw [if_pos ht, Option.some.injEq]
      constructor
      · rintro rfl
        exact ⟨fun h => absurd h ho, fun _ => rfl, fun _ => rfl, .inr ht⟩
      · intro h
        rcases ht with ht | ht
        · exact (h.takeOurs ht).symm
        · exact (h.takeCommon ht).symm
    · rw [if_neg ht]
      refine iff_of_false (by simp) fun h => ?_
      rcases h.agree with hb | hb
      · exact ho hb
      · exact ht hb

/-! ## One map -/

section Maps

variable {K V : Type} [LinearOrder K] [DecidableEq V] {base ours theirs merged : BTreeMap K V}

/-- The loop of `mergeMap` decides the keys it visits and leaves the others. -/
theorem mergeKeys_ok_iff {ks : List K} {acc : BTreeMap K V} (hnd : ks.Nodup)
    (hfresh : ∀ k ∈ ks, acc.get? k = none) :
    mergeKeys base ours theirs ks acc = .ok merged ↔
      (∀ k ∈ ks, IsMerge (base.get? k) (ours.get? k) (theirs.get? k) (merged.get? k)) ∧
        ∀ k, k ∉ ks → merged.get? k = acc.get? k := by
  induction ks generalizing acc with
  | nil =>
      simp only [mergeKeys, Except.ok.injEq, List.not_mem_nil, false_implies, implies_true,
        true_and, not_false_eq_true, true_implies]
      exact ⟨fun h k => by rw [h], fun h => OMap.ext_get? fun k => (h k).symm⟩
  | cons key rest ih =>
      obtain ⟨hnotin, hnd⟩ := List.nodup_cons.1 hnd
      obtain ⟨hkey, hrest⟩ := List.forall_mem_cons.1 hfresh
      rw [mergeKeys, List.forall_mem_cons, ← mergeChoice_eq_some_iff]
      -- the key is settled here, so `rest` finds it outside its list
      cases hchoice : mergeChoice (base.get? key) (ours.get? key) (theirs.get? key) with
      | none => simp
      | some choice =>
          have hacc : ∀ acc' : BTreeMap K V, acc'.get? key = choice →
              (∀ k, k ≠ key → acc'.get? k = acc.get? k) →
              ((∀ k, k ∉ rest → merged.get? k = acc'.get? k) ↔
                choice = merged.get? key ∧ ∀ k, k ∉ key :: rest → merged.get? k = acc.get? k) := by
            intro acc' hk hne
            constructor
            · intro h
              refine ⟨by rw [h key hnotin, hk], fun k hk => ?_⟩
              obtain ⟨hkne, hkrest⟩ := not_or.1 (mt List.mem_cons.2 hk)
              rw [h k hkrest, hne k hkne]
            · rintro ⟨hm, h⟩ k hkrest
              by_cases hkk : k = key
              · rw [hkk, hk, hm]
              · rw [hne k hkk, h k (mt List.mem_cons.1 (not_or.2 ⟨hkk, hkrest⟩))]
          rw [Option.some.injEq]
          cases choice with
          | none =>
              rw [ih hnd hrest, hacc acc hkey fun _ _ => rfl]
              tauto
          | some value =>
              have hins : ∀ k, k ≠ key → (acc.insert key value).get? k = acc.get? k :=
                fun k hk => by rw [OMap.get?_insert, if_neg hk]
              rw [ih hnd fun k hk => by
                  rw [hins k fun h => hnotin (h ▸ hk), hrest k hk],
                hacc _ (by simp) hins]
              tauto

/-- **A map is merged key by key.** -/
theorem mergeMap_ok_iff :
    mergeMap base ours theirs = .ok merged ↔
      ∀ k, IsMerge (base.get? k) (ours.get? k) (theirs.get? k) (merged.get? k) := by
  unfold mergeMap
  rw [mergeKeys_ok_iff ((OMap.keys_sorted _).imp fun h => h.ne) (by simp)]
  have hmem : ∀ k, k ∉ (OMap.ofList
      ((base.keys ++ ours.keys ++ theirs.keys).map fun k => (k, ())) : BTreeSet K).keys →
      base.get? k = none ∧ ours.get? k = none ∧ theirs.get? k = none := by
    intro k hk
    simpa [OMap.mem_keys_iff, OMap.contains_ofList, OMap.contains_eq_false_iff] using hk
  constructor
  · rintro ⟨hin, hout⟩ k
    by_cases hk : k ∈ (OMap.ofList
      ((base.keys ++ ours.keys ++ theirs.keys).map fun k => (k, ())) : BTreeSet K).keys
    · exact hin k hk
    · obtain ⟨hb, ho, ht⟩ := hmem k hk
      rw [hb, ho, ht, hout k hk]
      exact isMerge_unchanged_iff.2 rfl
  · intro h
    refine ⟨fun k _ => h k, fun k hk => ?_⟩
    obtain ⟨hb, ho, ht⟩ := hmem k hk
    rw [(h k).takeOurs (ht.trans hb.symm), ho]
    rfl

end Maps

/-! ## Whole snapshots -/

/-- The tests a branch passes against the base, before anything is merged. -/
structure Branch (base branch : WorldSnapshot) : Prop where
  hash : branch.hashIsValid = true
  fortress : base.fortressId = branch.fortressId
  epoch : base.cursor.epoch = branch.cursor.epoch
  sequence : base.cursor.sequence ≤ branch.cursor.sequence
  tick : base.tick ≤ branch.tick
  valid : branchIsValid base branch = true

/-- What a merged snapshot is. -/
structure Merged (base ours theirs merged : WorldSnapshot) : Prop where
  hash : base.hashIsValid = true
  left : Branch base ours
  right : Branch base theirs
  records : ∀ k, IsMerge (base.graph.lookup k) (ours.graph.lookup k) (theirs.graph.lookup k)
    (merged.graph.lookup k)
  paused : IsMerge base.paused ours.paused theirs.paused merged.paused
  sequence : U.checkedAdd (max ours.cursor.sequence theirs.cursor.sequence) 1 =
    some merged.cursor.sequence
  header : merged = .new base.fortressId (max ours.tick theirs.tick)
    ⟨base.cursor.epoch, merged.cursor.sequence⟩ merged.paused merged.graph
  valid : transitionIsValid base merged = true

theorem Merged.symm {base ours theirs merged : WorldSnapshot}
    (h : Merged base ours theirs merged) : Merged base theirs ours merged where
  hash := h.hash
  left := h.right
  right := h.left
  records k := (h.records k).symm
  paused := h.paused.symm
  sequence := max_comm ours.cursor.sequence theirs.cursor.sequence ▸ h.sequence
  header := max_comm ours.tick theirs.tick ▸ h.header
  valid := h.valid

/-- The four maps merge key by key exactly when the graph does slot by slot. -/
theorem isMerge_lookup_iff {base ours theirs merged : WorldGraph} :
    (∀ k, IsMerge (base.lookup k) (ours.lookup k) (theirs.lookup k) (merged.lookup k)) ↔
      (∀ k, IsMerge (base.entities.get? k) (ours.entities.get? k) (theirs.entities.get? k)
        (merged.entities.get? k)) ∧
      (∀ k, IsMerge (base.edges.get? k) (ours.edges.get? k) (theirs.edges.get? k)
        (merged.edges.get? k)) ∧
      (∀ k, IsMerge (base.chunks.get? k) (ours.chunks.get? k) (theirs.chunks.get? k)
        (merged.chunks.get? k)) ∧
      ∀ k, IsMerge (base.events.get? k) (ours.events.get? k) (theirs.events.get? k)
        (merged.events.get? k) := by
  have hentity := Option.map_injective fun _ _ h => WorldRecord.entity.inj h
  have hedge := Option.map_injective fun _ _ h => WorldRecord.edge.inj h
  have hchunk := Option.map_injective fun _ _ h => WorldRecord.chunk.inj h
  have hevent := Option.map_injective fun _ _ h => WorldRecord.event.inj h
  constructor
  · intro h
    exact ⟨fun k => (IsMerge.map_iff hentity).1 (h (.entity k)),
      fun k => (IsMerge.map_iff hedge).1 (h (.edge k)),
      fun k => (IsMerge.map_iff hchunk).1 (h (.chunk k)),
      fun k => (IsMerge.map_iff hevent).1 (h (.event k))⟩
  · rintro ⟨hen, hed, hch, hev⟩ (k | k | k | k)
    · exact (IsMerge.map_iff hentity).2 (hen k)
    · exact (IsMerge.map_iff hedge).2 (hed k)
    · exact (IsMerge.map_iff hchunk).2 (hch k)
    · exact (IsMerge.map_iff hevent).2 (hev k)

/-- **When a merge succeeds**, and the snapshot it returns. -/
theorem threeWayMerge_ok_iff {base ours theirs merged : WorldSnapshot} {planId : PlanId} :
    threeWayMerge base ours theirs planId = .ok merged ↔ Merged base ours theirs merged := by
  simp only [threeWayMerge, guard_ok_iff, bind_ok_iff, mapError_ok_iff, mergeMap_ok_iff, not_or,
    not_not, not_lt, ne_eq]
  constructor
  · rintro ⟨⟨hb, ho, ht, hof, htf, hoe, hte, hos, hts, hot, htt, hov, htv⟩, entities, hentities,
      edges, hedges, chunks, hchunks, events, hevents, h⟩
    cases hp : mergeScalar base.paused ours.paused theirs.paused with
    | none => simp [hp, throw, throwThe, MonadExceptOf.throw] at h
    | some paused =>
        cases hs : U.checkedAdd (max ours.cursor.sequence theirs.cursor.sequence) 1 with
        | none => simp [hp, hs, throw, throwThe, MonadExceptOf.throw] at h
        | some sequence =>
            simp only [hp, hs, guard_ok_iff, not_not, pure_ok_iff] at h
            obtain ⟨hvalid, rfl⟩ := h
            exact ⟨hb, ⟨ho, hof, hoe, hos, hot, hov⟩, ⟨ht, htf, hte, hts, htt, htv⟩,
              isMerge_lookup_iff.2 ⟨hentities, hedges, hchunks, hevents⟩,
              mergeChoice_eq_some_iff.1 hp, hs, rfl, hvalid⟩
  · intro h
    obtain ⟨hentities, hedges, hchunks, hevents⟩ := isMerge_lookup_iff.1 h.records
    have hp : mergeScalar base.paused ours.paused theirs.paused = some merged.paused :=
      mergeChoice_eq_some_iff.2 h.paused
    refine ⟨⟨h.hash, h.left.hash, h.right.hash, h.left.fortress, h.right.fortress, h.left.epoch,
      h.right.epoch, h.left.sequence, h.right.sequence, h.left.tick, h.right.tick, h.left.valid,
      h.right.valid⟩, merged.graph.entities, hentities, merged.graph.edges, hedges,
      merged.graph.chunks, hchunks, merged.graph.events, hevents, ?_⟩
    simp only [hp, h.sequence, guard_ok_iff, not_not, pure_ok_iff]
    exact ⟨h.header ▸ h.valid, h.header.symm⟩

/-! ## Soundness of the merged graph -/

/-- Every merged record comes from one of the branches, under the same key. -/
theorem Merged.keysMatch {base ours theirs merged : WorldSnapshot}
    (h : Merged base ours theirs merged) (ho : ours.graph.KeysMatch)
    (ht : theirs.graph.KeysMatch) : merged.graph.KeysMatch := by
  obtain ⟨hentities, hedges, hchunks, hevents⟩ := isMerge_lookup_iff.1 h.records
  refine ⟨fun k e he => ?_, fun k e he => ?_, fun k c hc => ?_, fun k e he => ?_⟩
  · rcases (hentities k).eq_or with hk | hk
    · exact ho.entities k e (hk ▸ he)
    · exact ht.entities k e (hk ▸ he)
  · rcases (hedges k).eq_or with hk | hk
    · exact ho.edges k e (hk ▸ he)
    · exact ht.edges k e (hk ▸ he)
  · rcases (hchunks k).eq_or with hk | hk
    · exact ho.chunks k c (hk ▸ hc)
    · exact ht.chunks k c (hk ▸ hc)
  · rcases (hevents k).eq_or with hk | hk
    · exact ho.events k e (hk ▸ he)
    · exact ht.events k e (hk ▸ he)

/-- The snapshot a transition check diffs: the target moved to the base's next cursor. -/
def probeAt (cursor : ObservationCursor) (target : WorldSnapshot) : WorldSnapshot :=
  ({ target with cursor } : WorldSnapshot).refreshHash

theorem transitionIsValid_iff {base target : WorldSnapshot} :
    transitionIsValid base target = true ↔
      ∃ cursor d, base.cursor.checkedNext = some cursor ∧
        diffSnapshots base (probeAt cursor target) = .ok d := by
  unfold transitionIsValid
  cases hnext : base.cursor.checkedNext with
  | none => simp
  | some cursor => simp [isOk_iff, probeAt]

/-- A valid transition ends in a graph without dangling edges. -/
theorem endpointsExist_of_transitionIsValid {base target : WorldSnapshot}
    (h : transitionIsValid base target = true) (ht : target.graph.KeysMatch) :
    target.graph.EndpointsExist := by
  obtain ⟨cursor, d, -, hd⟩ := transitionIsValid_iff.1 h
  obtain ⟨-, -, -, hev, hbuild, -⟩ := diffSnapshots_eq_ok.1 hd
  obtain ⟨hfits, -, -, hchanges, -⟩ := (buildDelta_ok_iff _ _ _ _ _).1 hbuild
  have happ := hfits.changes
  rw [hchanges] at happ
  have hrun : runAll base.graph (diffChanges base.graph target.graph) = target.graph :=
    runAll_diffChanges ht hev
  exact hrun ▸ happ.endpoints

/-! ## Merging with an unchanged branch -/

/-- A branch that differs from the base by legal changes of its graph, and perhaps in the flag. -/
structure LegalBranch (base branch : WorldSnapshot) : Prop where
  baseHash : base.hashIsValid = true
  hash : branch.hashIsValid = true
  fortress : branch.fortressId = base.fortressId
  epoch : branch.cursor.epoch = base.cursor.epoch
  sequence : base.cursor.sequence ≤ branch.cursor.sequence
  tick : base.tick ≤ branch.tick
  anchor : base.anchor = branch.anchor → base = branch
  graph : LegalChange base.graph branch.graph

/-- Digests tell a branch, at the base's next cursor, from itself with the base's flag. -/
def FlagHashed (base branch : WorldSnapshot) : Prop :=
  ∀ cursor, base.cursor.checkedNext = some cursor →
    NoCollision ((probeAt cursor branch).withPaused base.paused).canonicalBytes
      (probeAt cursor branch).canonicalBytes

section Unchanged

variable {base ours : WorldSnapshot} {planId : PlanId}

/-- A legal branch, at whatever cursor, is a valid transition exactly when it leaves the flag
alone. -/
theorem LegalBranch.transitionIsValid_iff (h : LegalBranch base ours)
    (hkeys : ours.graph.KeysMatch) (hfree : FlagHashed base ours) {cursor : ObservationCursor}
    (hnext : base.cursor.checkedNext = some cursor) {target : WorldSnapshot}
    (htarget : probeAt cursor target = probeAt cursor ours) :
    transitionIsValid base target = true ↔ ours.paused = base.paused := by
  have hprobe : (probeAt cursor ours).hashIsValid = true :=
    WorldSnapshot.hashIsValid_refreshHash _
  have hdiff := diffSnapshots_ok_iff h.baseHash hprobe hkeys (hfree cursor hnext)
  simp only [Dfmcp.transitionIsValid_iff, hnext, Option.some.injEq]
  constructor
  · rintro ⟨_, d, rfl, hd⟩
    rw [htarget] at hd
    exact ((hdiff d).1 hd).1.paused
  · intro hpaused
    refine ⟨cursor, deltaBetween base (probeAt cursor ours), rfl, ?_⟩
    rw [htarget]
    exact (hdiff _).2 ⟨⟨h.fortress, hnext, h.tick, hpaused, h.graph⟩, rfl⟩

/-- A cursor at or after the base's that can advance leaves room after the base's. -/
theorem LegalBranch.checkedNext_base (h : LegalBranch base ours) {next : ObservationCursor}
    (hnext : ours.cursor.checkedNext = some next) :
    ∃ cursor, base.cursor.checkedNext = some cursor := by
  rw [← Option.ne_none_iff_exists']
  intro hnone
  have hfull := U.checkedAdd_eq_none.1 (Option.map_eq_none_iff.1 hnone)
  have hseq := ObservationCursor.checkedNext_sequence hnext
  have hle : base.cursor.sequence.val ≤ ours.cursor.sequence.val := h.sequence
  have hlt := next.sequence.isLt
  simp at hfull
  omega

theorem branchIsValid_self (s : WorldSnapshot) : branchIsValid s s = true := by
  simp [branchIsValid]

/-- A legal branch that leaves the flag alone passes the tests of a merge. -/
theorem LegalBranch.branch (h : LegalBranch base ours) (hkeys : ours.graph.KeysMatch)
    (hfree : FlagHashed base ours) {cursor : ObservationCursor}
    (hnext : base.cursor.checkedNext = some cursor) (hpaused : ours.paused = base.paused) :
    Branch base ours := by
  refine ⟨h.hash, h.fortress.symm, h.epoch.symm, h.sequence, h.tick, ?_⟩
  unfold branchIsValid
  split
  · rename_i hanchor
    exact decide_eq_true (h.anchor hanchor)
  · exact (h.transitionIsValid_iff hkeys hfree hnext rfl).2 hpaused

/-- A legal branch merged with the base is the branch, at its next cursor, exactly when it
leaves the flag alone. -/
theorem LegalBranch.merge_unchanged_iff (h : LegalBranch base ours)
    (hkeys : ours.graph.KeysMatch) (hfree : FlagHashed base ours) :
    (∃ next, ours.cursor.checkedNext = some next ∧
        threeWayMerge base ours base planId = .ok (probeAt next ours)) ↔
      ours.paused = base.paused ∧ ours.cursor.checkedNext ≠ none := by
  constructor
  · rintro ⟨next, hnext, hmerge⟩
    obtain ⟨cursor, hcursor⟩ := h.checkedNext_base hnext
    have hvalid := (threeWayMerge_ok_iff.1 hmerge).valid
    exact ⟨(h.transitionIsValid_iff hkeys hfree hcursor rfl).1 hvalid, by simp [hnext]⟩
  · rintro ⟨hpaused, hne⟩
    obtain ⟨next, hnext⟩ := Option.ne_none_iff_exists'.1 hne
    obtain ⟨cursor, hcursor⟩ := h.checkedNext_base hnext
    have hmax : max ours.cursor.sequence base.cursor.sequence = ours.cursor.sequence :=
      max_eq_left h.sequence
    obtain ⟨sequence, hsequence, rfl⟩ := Option.map_eq_some_iff.1 hnext
    refine ⟨_, hnext, threeWayMerge_ok_iff.2 ⟨h.baseHash, h.branch hkeys hfree hcursor hpaused,
      ⟨h.baseHash, rfl, rfl, le_rfl, le_rfl, branchIsValid_self base⟩,
      fun k => isMerge_unchanged_iff.2 rfl, isMerge_unchanged_iff.2 rfl, ?_, ?_, ?_⟩⟩
    · rw [hmax]
      exact hsequence
    · rw [max_eq_left h.tick, ← h.fortress, ← h.epoch]
      rfl
    · exact (h.transitionIsValid_iff hkeys hfree hcursor rfl).2 hpaused

end Unchanged

/-- **The three-way merge law.** A merge is record-wise, and symmetric in its branches. Over
snapshots that keep their records under their own identifiers, no merged edge dangles, and a
legal branch merges with an unchanged one to itself exactly when it does not flip the flag and
its cursor can advance. -/
theorem threeWayMerge_law (base ours theirs : WorldSnapshot) (planId : PlanId) :
    (∀ merged, threeWayMerge base ours theirs planId = .ok merged →
      (∀ k, IsMerge (base.graph.lookup k) (ours.graph.lookup k) (theirs.graph.lookup k)
        (merged.graph.lookup k)) ∧
      IsMerge base.paused ours.paused theirs.paused merged.paused ∧
      (ours.graph.KeysMatch → theirs.graph.KeysMatch → merged.graph.EndpointsExist)) ∧
    (∀ merged, threeWayMerge base ours theirs planId = .ok merged ↔
      threeWayMerge base theirs ours planId = .ok merged) ∧
    (LegalBranch base ours → ours.graph.KeysMatch → FlagHashed base ours →
      ((∃ next, ours.cursor.checkedNext = some next ∧
          threeWayMerge base ours base planId = .ok (probeAt next ours)) ↔
        ours.paused = base.paused ∧ ours.cursor.checkedNext ≠ none)) := by
  refine ⟨fun merged hm => ?_, fun merged => ?_, fun h hkeys hfree =>
    h.merge_unchanged_iff hkeys hfree⟩
  · have h := threeWayMerge_ok_iff.1 hm
    exact ⟨h.records, h.paused, fun ho ht =>
      endpointsExist_of_transitionIsValid h.valid (h.keysMatch ho ht)⟩
  · rw [threeWayMerge_ok_iff, threeWayMerge_ok_iff]
    exact ⟨Merged.symm, Merged.symm⟩

/-- A branch with one entity moved on merges with the base to itself. -/
theorem threeWayMerge_law_advance :
    let base := Sample.snapshot 0 (Sample.entities [Sample.entity 1 1])
    let ours := Sample.snapshot 1 (Sample.entities [Sample.entity 1 2])
    ∃ merged, threeWayMerge base ours base 0 = .ok merged ∧ merged.graph = ours.graph := by
  intro base ours
  have hkeys : ours.graph.KeysMatch := by decide
  have hlegal : LegalBranch base ours := by
    refine ⟨Sample.snapshot_hashIsValid _ _, Sample.snapshot_hashIsValid _ _, rfl, rfl, by decide,
      le_rfl, fun h => ?_, .of_decide hkeys (by decide) (by decide) (by decide) (by decide)
        (by decide) (by decide) (by decide)⟩
    have hcursor := congrArg StateAnchor.cursor h
    revert hcursor
    decide
  obtain ⟨next, -, hmerge⟩ := ((threeWayMerge_law base ours base 0).2.2 hlegal hkeys
    fun _ _ => NoCollision.of_eq rfl).2 ⟨rfl, by decide⟩
  exact ⟨_, hmerge, rfl⟩

/-- A branch that only flips the flag does not merge with the base at all. -/
theorem threeWayMerge_rejects_flip :
    let base := Sample.snapshot 0 .empty
    let ours := WorldSnapshot.new 1 0 ⟨0, 1⟩ true .empty
    LegalBranch base ours ∧ ours.graph.KeysMatch ∧ ours.cursor.checkedNext ≠ none ∧
      ∀ merged, threeWayMerge base ours base 0 ≠ .ok merged := by
  intro base ours
  have hkeys : ours.graph.KeysMatch := by decide
  have hcursor : base.anchor ≠ ours.anchor := fun h => by
    have hcursor := congrArg StateAnchor.cursor h
    revert hcursor
    decide
  have hlegal : LegalBranch base ours :=
    ⟨Sample.snapshot_hashIsValid _ _, WorldSnapshot.hashIsValid_refreshHash _, rfl, rfl, by decide,
      le_rfl, fun h => absurd h hcursor, .of_decide hkeys (by decide) (by decide) (by decide)
        (by decide) (by decide) (by decide) (by decide)⟩
  have hfree : FlagHashed base ours := by
    rintro _ ⟨⟩
    have hne : Digest32.ofBytes ((probeAt ⟨0, 1⟩ ours).withPaused base.paused).canonicalBytes ≠
        Digest32.ofBytes (probeAt ⟨0, 1⟩ ours).canonicalBytes := by decide +kernel
    exact fun h => absurd h hne
  refine ⟨hlegal, hkeys, by decide, fun merged hm => ?_⟩
  have hnext : base.cursor.checkedNext = some ⟨0, 1⟩ := by decide
  have hvalid := (threeWayMerge_ok_iff.1 hm).left.valid
  rw [branchIsValid, if_neg hcursor, hlegal.transitionIsValid_iff hkeys hfree hnext rfl] at hvalid
  revert hvalid
  decide

end Dfmcp
