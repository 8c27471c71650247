import Dfmcp.World.Normal
import Dfmcp.World.QueryProof

/-!
# The normal form of a predicate

Normalizing flattens each connective, puts its children in the order of their encodings, drops
adjacent repeats and folds constants and double negations. Under three-valued logic a connective
depends on nothing but the set of its children's truth values, so none of this can be seen from
outside.

* `evaluateTruth_normalized` — a predicate and its normal form have one truth value;
* `normal_normalized`, `Normal.normalized_eq` — what normalizing returns is in normal form, and a
  normal form is left alone;
* `validatePending_iff` — the shape walk accepts exactly when the nodes, the depth, each leaf and
  the sums of the leaves' work are within their bounds, whatever the order of the walk;
* `total_normalized_le`, `height_normalized_le` — normalizing adds to none of these.
-/

namespace Dfmcp

open Machine Kleene QueryPage

/-! ## Repeats -/

theorem eraseReps_eq_dedup {α : Type} [DecidableEq α] (l : List α) : l.eraseReps = dedup l := by
  have hloop : ∀ (rest : List α) (a : α) (kept : List α),
      List.eraseRepsBy.loop (· == ·) a rest kept = kept.reverse ++ dedup (a :: rest) := by
    intro rest
    induction rest with
    | nil =>
        intro a kept
        rw [List.eraseRepsBy.loop, List.reverse_cons, dedup]
        exact nofun
    | cons b rest ih =>
        intro a kept
        rw [List.eraseRepsBy.loop]
        by_cases hab : a = b
        · simp [hab, ih, dedup]
        · simp [beq_false_of_ne hab, ih, dedup, if_neg hab]
  cases l with
  | nil => rfl
  | cons a rest => exact hloop rest a []

theorem dedup_sublist {α : Type} [DecidableEq α] (l : List α) : (dedup l).Sublist l := by
  fun_induction dedup l with
  | case1 b rest ih => exact ih.cons b
  | case2 a b rest _ ih => exact ih.cons_cons a
  | case3 l _ => exact List.Sublist.refl l

/-- The first of a run stays in front. -/
theorem head?_dedup {α : Type} [DecidableEq α] (l : List α) : (dedup l).head? = l.head? := by
  fun_induction dedup l with
  | case1 b rest ih => rw [ih]; rfl
  | case2 a b rest _ ih => rfl
  | case3 l _ => rfl

theorem isChain_dedup {α : Type} [DecidableEq α] (l : List α) : (dedup l).IsChain (· ≠ ·) := by
  fun_induction dedup l with
  | case1 b rest ih => exact ih
  | case2 a b rest hne ih =>
      apply List.isChain_cons.2 ⟨fun c hc => ?_, ih⟩
      rw [head?_dedup] at hc
      rwa [← Option.some.inj hc]
  | case3 l hshort =>
      rcases l with - | ⟨a, - | ⟨b, rest⟩⟩
      · exact List.IsChain.nil
      · exact List.IsChain.singleton a
      · exact absurd rfl (hshort a b rest)

theorem dedup_of_isChain {α : Type} [DecidableEq α] {l : List α} (h : l.IsChain (· ≠ ·)) :
    dedup l = l := by
  fun_induction dedup l with
  | case1 b rest ih => exact absurd rfl (List.isChain_cons_cons.1 h).1
  | case2 a b rest _ ih => rw [ih (List.isChain_cons_cons.1 h).2]
  | case3 l _ => rfl

/-! ## Targets and civilians in any order -/

namespace LaboratoryAccess

/-- What the approaches of one target say. -/
def approach (approaches : Nat → List Nat) (clear potential : List Bool) (index : Nat) : Truth :=
  if (approaches index).any (clear.getD · false) then .true
  else if !(approaches index).any (potential.getD · false) then .false
  else .unknown

/-- The targets are judged as a conjunction. -/
theorem judgeTargets_eq (approaches : Nat → List Nat) (clear potential : List Bool)
    (result : Truth) (indices : List Nat) :
    judgeTargets approaches clear potential result indices =
      Truth.allFrom result (indices.map (approach approaches clear potential)) := by
  induction indices generalizing result with
  | nil => rfl
  | cons index rest ih =>
      rw [judgeTargets, List.map_cons, approach]
      by_cases hclear : (approaches index).any (clear.getD · false) = true
      · rw [if_pos hclear, if_pos hclear, ih, Truth.allFrom]
      · rw [if_neg hclear, if_neg hclear]
        by_cases hpotential : (!(approaches index).any (potential.getD · false)) = true
        · rw [if_pos hpotential, if_pos hpotential, Truth.allFrom]
        · rw [if_neg hpotential, if_neg hpotential, ih, Truth.allFrom]

theorem placeTargets_eq (index : MapCoord → Option Nat) (message : String)
    (targets : List MapCoord) :
    placeTargets index message targets =
      if ∀ t ∈ targets, (index t).isSome then .ok (targets.map fun t => (index t).getD 0)
      else .error (Laboratory.invalid message) := by
  induction targets with
  | nil => rfl
  | cons t rest ih =>
      rw [placeTargets, List.mapM_cons, ← placeTargets, ih]
      cases ht : index t with
      | none =>
          have hnot : ¬ ∀ u ∈ t :: rest, (index u).isSome := fun hall => by
            simpa [ht] using hall t List.mem_cons_self
          rw [if_neg hnot]
          rfl
      | some i =>
          by_cases hrest : ∀ u ∈ rest, (index u).isSome
          · have hall : ∀ u ∈ t :: rest, (index u).isSome :=
              List.forall_mem_cons.2 ⟨by rw [ht]; rfl, hrest⟩
            rw [if_pos hrest, if_pos hall, List.map_cons, ht]
            rfl
          · have hnot : ¬ ∀ u ∈ t :: rest, (index u).isSome := fun hall =>
              hrest (List.forall_mem_cons.1 hall).2
            rw [if_neg hrest, if_neg hnot]
            rfl

variable {targets others : List MapCoord} (h : targets.Perm others)
include h

theorem validateRequest_perm (area : MapCuboid) (entry : MapCoord) :
    validateRequest area entry targets = validateRequest area entry others := by
  have hnil : targets = [] ↔ others = [] := by
    rw [← List.length_eq_zero_iff, ← List.length_eq_zero_iff, h.length_eq]
  unfold validateRequest
  simp only [hnil, h.length_eq, h.any_eq, h.nodup_iff]

theorem validatePairedStairsRequest_perm (area : MapCuboid) (entry : MapCoord) :
    validatePairedStairsRequest area entry targets =
      validatePairedStairsRequest area entry others := by
  have hnil : targets = [] ↔ others = [] := by
    rw [← List.length_eq_zero_iff, ← List.length_eq_zero_iff, h.length_eq]
  unfold validatePairedStairsRequest
  simp only [hnil, h.length_eq, h.any_eq, h.nodup_iff]

/-- What follows the placing of targets, and does not depend on their order, does not show it. -/
theorem placeTargets_bind_perm {α : Type} (index : MapCoord → Option Nat) (message : String)
    {follow : List Nat → Result α}
    (hfollow : ∀ indices places, indices.Perm places → follow indices = follow places) :
    placeTargets index message targets >>= follow =
      placeTargets index message others >>= follow := by
  rw [placeTargets_eq, placeTargets_eq]
  by_cases hall : ∀ t ∈ targets, (index t).isSome
  · have hothers : ∀ t ∈ others, (index t).isSome := fun t ht => hall t (h.mem_iff.2 ht)
    rw [if_pos hall, if_pos hothers]
    exact hfollow _ _ (h.map _)
  · have hothers : ¬ ∀ t ∈ others, (index t).isSome := fun hall' =>
      hall fun t ht => hall' t (h.mem_iff.1 ht)
    rw [if_neg hall, if_neg hothers]

omit h in
/-- Placing the same cells occupies the same cells. -/
theorem occupy_perm {indices places : List Nat} (hperm : indices.Perm places)
    (cells : List Bool) :
    indices.foldl (fun cells index => cells.set index true) cells =
      places.foldl (fun cells index => cells.set index true) cells := by
  apply hperm.foldl_eq'
  intro i _ j _ cells
  by_cases hij : i = j
  · rw [hij]
  · exact List.set_comm _ _ hij

omit h in
theorem judgeTargets_perm {indices places : List Nat} (hperm : indices.Perm places)
    (approaches : Nat → List Nat) (clear potential : List Bool) :
    judgeTargets approaches clear potential .true indices =
      judgeTargets approaches clear potential .true places := by
  rw [judgeTargets_eq, judgeTargets_eq]
  apply Truth.all_congr
  intro t
  exact (hperm.map _).mem_iff

/-- The order of the targets does not matter. -/
theorem laboratoryRoomAccessTruth_perm (s : WorldSnapshot) (area : MapCuboid) (entry : MapCoord) :
    laboratoryRoomAccessTruth s area entry targets =
      laboratoryRoomAccessTruth s area entry others := by
  unfold laboratoryRoomAccessTruth
  rw [validateRequest_perm h]
  refine bind_congr fun _ => ?_
  cases laboratoryBuildingFootprints s with
  | error error => rfl
  | ok footprints =>
      refine bind_congr fun width => bind_congr fun height => ?_
      refine placeTargets_bind_perm h _ _ fun indices places hperm => ?_
      simp only [occupy_perm hperm, judgeTargets_perm hperm]

theorem laboratoryRoomAccessPairedStairsTruth_perm (s : WorldSnapshot) (area : MapCuboid)
    (entry : MapCoord) :
    laboratoryRoomAccessPairedStairsTruth s area entry targets =
      laboratoryRoomAccessPairedStairsTruth s area entry others := by
  unfold laboratoryRoomAccessPairedStairsTruth
  rw [validatePairedStairsRequest_perm h]
  refine bind_congr fun _ => ?_
  cases laboratoryBuildingFootprints s with
  | error error => rfl
  | ok footprints =>
      refine bind_congr fun grid => ?_
      refine placeTargets_bind_perm h _ _ fun indices places hperm => ?_
      simp only [occupy_perm hperm, judgeTargets_perm hperm]

end LaboratoryAccess

namespace LaboratoryCivilian

theorem key_injective : Function.Injective LaboratoryEntityIdentity.key := by
  intro a b hab
  have hpair := Prod.ext_iff.1 (toLex.injective hab)
  cases a
  cases b
  simp_all

variable {civilians others : List LaboratoryEntityIdentity} (h : civilians.Perm others)
include h

theorem validateRequest_perm (burrow : LaboratoryEntityIdentity) :
    validateRequest burrow civilians = validateRequest burrow others := by
  have hnil : civilians = [] ↔ others = [] := by
    rw [← List.length_eq_zero_iff, ← List.length_eq_zero_iff, h.length_eq]
  unfold validateRequest
  simp only [hnil, h.length_eq, h.any_eq, (h.map _).nodup_iff]

/-- The order of the civilians does not matter. -/
theorem laboratoryCivilianReleaseSafetyTruth_perm (s : WorldSnapshot)
    (burrow : LaboratoryEntityIdentity) :
    laboratoryCivilianReleaseSafetyTruth s burrow civilians =
      laboratoryCivilianReleaseSafetyTruth s burrow others := by
  have hsort : civilians.insertionSort (fun a b => a.key ≤ b.key) =
      others.insertionSort (fun a b => a.key ≤ b.key) := by
    have hantisymm : ∀ a b : LaboratoryEntityIdentity, a.key ≤ b.key → b.key ≤ a.key → a = b :=
      fun a b hab hba => key_injective (le_antisymm hab hba)
    apply List.Perm.eq_of_pairwise (fun a b _ _ => hantisymm a b)
    · exact List.pairwise_insertionSort _ _
    · exact List.pairwise_insertionSort _ _
    · exact (List.perm_insertionSort _ _).trans (h.trans (List.perm_insertionSort _ _).symm)
  unfold laboratoryCivilianReleaseSafetyTruth
  rw [validateRequest_perm h, hsort]

end LaboratoryCivilian

namespace Predicate

/-- The children of a connective as its normal form keeps them. -/
def arrange (children : List Predicate) : List Predicate :=
  dedup (children.insertionSort fun a b => a.encode ≤ b.encode)

theorem mem_arrange {child : Predicate} (children : List Predicate) :
    child ∈ arrange children ↔ child ∈ children :=
  (mem_dedup _).trans (List.mem_insertionSort _)

/-- What is kept is part of a rearrangement of what was there. -/
theorem arrange_subperm (children : List Predicate) : (arrange children).Subperm children :=
  (dedup_sublist _).subperm.trans (List.perm_insertionSort _ _).subperm

/-- A connective over the children given. -/
def connect (isAll : Bool) (children : List Predicate) : Predicate :=
  if isAll then .all children else .any children

/-- What a connective without children says. -/
def neutral (isAll : Bool) : Predicate := if isAll then .true else .false

/-- What decides a connective. -/
def absorbing (isAll : Bool) : Predicate := if isAll then .false else .true

/-- A child of the same connective adds its own children, the neutral one nothing, and any other
is added whole. -/
theorem childrenOf_cases {isAll : Bool} {p : Predicate} {children : List Predicate}
    (h : childrenOf isAll p = some children) :
    p = connect isAll children ∨ p = neutral isAll ∧ children = [] ∨
    children = [p] ∧ p ≠ neutral isAll ∧ p ≠ absorbing isAll ∧ ∀ ps, p ≠ connect isAll ps := by
  cases isAll <;> cases p <;>
    first
    | cases h
      first
      | exact .inl rfl
      | exact .inr (.inl ⟨rfl, rfl⟩)
      | exact .inr (.inr ⟨rfl, nofun, nofun, nofun⟩)
    | cases h

theorem childrenOf_eq_none {isAll : Bool} {p : Predicate} :
    childrenOf isAll p = none ↔ p = absorbing isAll := by
  cases isAll <;> cases p <;> first | exact ⟨fun _ => rfl, fun _ => rfl⟩ | exact ⟨nofun, nofun⟩

theorem ofChildren_cases (isAll : Bool) (children : List Predicate) :
    arrange children = [] ∧ ofChildren isAll children = neutral isAll ∨
    (∃ child, arrange children = [child] ∧ ofChildren isAll children = child) ∨
    2 ≤ (arrange children).length ∧
      ofChildren isAll children = connect isAll (arrange children) := by
  have harrange : (children.insertionSort fun a b => a.encode ≤ b.encode).eraseReps =
      arrange children := eraseReps_eq_dedup _
  unfold ofChildren
  rw [harrange]
  rcases arrange children with _ | ⟨a, _ | ⟨b, rest⟩⟩
  · exact .inl ⟨rfl, rfl⟩
  · exact .inr (.inl ⟨a, rfl, rfl⟩)
  · exact .inr (.inr ⟨Nat.le_add_left 2 rest.length, rfl⟩)

/-! ## Meaning -/

section Meaning

variable (s : WorldSnapshot) (candidate : Option EntityId)

/-- The truth of a connective over children with these truths. -/
def combine (isAll : Bool) (truths : List Truth) : Truth :=
  if isAll then Truth.all truths else Truth.any truths

theorem combine_congr (isAll : Bool) {truths others : List Truth}
    (h : ∀ t, t ∈ truths ↔ t ∈ others) : combine isAll truths = combine isAll others := by
  cases isAll with
  | true => exact Truth.all_congr h
  | false => exact Truth.any_congr h

theorem combine_append (isAll : Bool) (truths others : List Truth) :
    combine isAll (truths ++ others) =
      combine isAll [combine isAll truths, combine isAll others] := by
  cases isAll with
  | true => exact Truth.all_append truths others
  | false => exact Truth.any_append truths others

theorem combine_singleton (isAll : Bool) (t : Truth) : combine isAll [t] = t := by
  cases isAll <;> cases t <;> rfl

theorem evaluateTruth_connect (isAll : Bool) (children : List Predicate) :
    evaluateTruth s candidate (connect isAll children) =
      combine isAll (children.map (evaluateTruth s candidate)) := by
  cases isAll with
  | true =>
      show evaluateTruth s candidate (.all children) = _
      rw [evaluateTruth, evaluateEach_eq]
      rfl
  | false =>
      show evaluateTruth s candidate (.any children) = _
      rw [evaluateTruth, evaluateEach_eq]
      rfl

/-- Order, repeats and a lone child do not show. -/
theorem evaluateTruth_ofChildren (isAll : Bool) (children : List Predicate) :
    evaluateTruth s candidate (ofChildren isAll children) =
      combine isAll (children.map (evaluateTruth s candidate)) := by
  have hsame : combine isAll ((arrange children).map (evaluateTruth s candidate)) =
      combine isAll (children.map (evaluateTruth s candidate)) := by
    apply combine_congr
    intro t
    simp only [List.mem_map, mem_arrange]
  rw [← hsame]
  rcases ofChildren_cases isAll children with ⟨harrange, heq⟩ | ⟨child, harrange, heq⟩ | ⟨_, heq⟩
  · rw [heq, harrange]
    cases isAll <;> rfl
  · rw [heq, harrange]
    exact (combine_singleton isAll _).symm
  · rw [heq]
    exact evaluateTruth_connect s candidate isAll _

/-- What a normalized child adds stands for that child. -/
theorem evaluateTruth_childrenOf {isAll : Bool} {p : Predicate} {children : List Predicate}
    (h : childrenOf isAll p = some children) :
    combine isAll (children.map (evaluateTruth s candidate)) = evaluateTruth s candidate p := by
  rcases childrenOf_cases h with rfl | ⟨rfl, rfl⟩ | ⟨rfl, _⟩
  · exact (evaluateTruth_connect s candidate isAll children).symm
  · cases isAll <;> rfl
  · exact combine_singleton isAll _

/-- Children can be replaced by lists that stand for them. -/
theorem combine_flatMap (isAll : Bool) {f : Predicate → List Predicate} {ps : List Predicate}
    (h : ∀ p ∈ ps, combine isAll ((f p).map (evaluateTruth s candidate)) =
      evaluateTruth s candidate p) :
    combine isAll ((ps.flatMap f).map (evaluateTruth s candidate)) =
      combine isAll (ps.map (evaluateTruth s candidate)) := by
  induction ps with
  | nil => rfl
  | cons p ps ih =>
      obtain ⟨hp, hps⟩ := List.forall_mem_cons.1 h
      have hsplit := combine_append isAll [evaluateTruth s candidate p]
        (ps.map (evaluateTruth s candidate))
      rw [combine_singleton] at hsplit
      rw [List.flatMap_cons, List.map_append, combine_append, hp, ih hps]
      exact hsplit.symm

end Meaning

/-! ## The equations of the normal form -/

/-- What a child adds to its connective once normalized. -/
def members (isAll : Bool) (p : Predicate) : List Predicate :=
  (childrenOf isAll p.normalized).getD []

theorem normalizeEach_eq (isAll : Bool) (ps : List Predicate) :
    normalizeEach isAll ps =
      if ∃ p ∈ ps, p.normalized = absorbing isAll then none
      else some (ps.flatMap (members isAll)) := by
  induction ps with
  | nil => rfl
  | cons p ps ih =>
      rw [normalizeEach, ih]
      cases hp : childrenOf isAll p.normalized with
      | none =>
          have hdecides : ∃ q ∈ p :: ps, q.normalized = absorbing isAll :=
            ⟨p, List.mem_cons_self, childrenOf_eq_none.1 hp⟩
          rw [if_pos hdecides]
          rfl
      | some children =>
          have hp' : p.normalized ≠ absorbing isAll := fun habsorbing => by
            rw [childrenOf_eq_none.2 habsorbing] at hp
            cases hp
          have hmembers : members isAll p = children := by rw [members, hp]; rfl
          by_cases hrest : ∃ q ∈ ps, q.normalized = absorbing isAll
          · obtain ⟨q, hq, hdecides⟩ := hrest
            rw [if_pos ⟨q, hq, hdecides⟩, if_pos ⟨q, List.mem_cons_of_mem p hq, hdecides⟩]
            rfl
          · have hcons : ¬ ∃ q ∈ p :: ps, q.normalized = absorbing isAll := by
              simpa [hp'] using hrest
            rw [if_neg hrest, if_neg hcons, List.flatMap_cons, hmembers]
            rfl

/-- The normal form of a connective. -/
theorem normalized_connect (isAll : Bool) (ps : List Predicate) :
    (connect isAll ps).normalized =
      if ∃ p ∈ ps, p.normalized = absorbing isAll then absorbing isAll
      else ofChildren isAll (ps.flatMap (members isAll)) := by
  have hunfold : (connect isAll ps).normalized =
      ((normalizeEach isAll ps).map (ofChildren isAll)).getD (absorbing isAll) := by
    cases isAll <;> simp only [connect, absorbing] <;> rfl
  rw [hunfold, normalizeEach_eq]
  split <;> rfl

/-- The negation of a normal form. -/
def negate : Predicate → Predicate
  | .true => .false
  | .false => .true
  | .not inner => inner
  | p => .not p

theorem normalized_not (p : Predicate) : (Predicate.not p).normalized = negate p.normalized := by
  rw [normalized]
  cases p.normalized <;> rfl

theorem induct_connect {P : Predicate → Prop}
    (hconnect : ∀ isAll ps, (∀ p ∈ ps, P p) → P (connect isAll ps))
    (hnot : ∀ p, P p → P (.not p)) (hleaf : ∀ p, p.IsLeaf → P p) (p : Predicate) : P p :=
  induct (hconnect Bool.true) (hconnect Bool.false) hnot hleaf p

theorem isLeaf_normalized {p : Predicate} (h : p.IsLeaf) : p.normalized.IsLeaf := by
  cases p with
  | all ps => exact h.elim
  | any ps => exact h.elim
  | not p => exact h.elim
  | _ => simp only [normalized]; trivial

/-- Targets and civilians that are in order stay so. -/
theorem normalized_leaf {p : Predicate} (h : p.IsLeaf) :
    p.normalized.normalized = p.normalized := by
  have htargets : ∀ targets, sortTargets (sortTargets targets) = sortTargets targets :=
    fun targets => (List.pairwise_insertionSort _ _).insertionSort_eq
  have hcivilians : ∀ civilians, sortCivilians (sortCivilians civilians) =
      sortCivilians civilians :=
    fun civilians => (List.pairwise_insertionSort _ _).insertionSort_eq
  cases p with
  | all ps => exact h.elim
  | any ps => exact h.elim
  | not p => exact h.elim
  | _ => simp only [normalized, htargets, hcivilians]

theorem evaluateTruth_leaf (s : WorldSnapshot) (candidate : Option EntityId) {p : Predicate}
    (h : p.IsLeaf) : evaluateTruth s candidate p.normalized = evaluateTruth s candidate p := by
  have htargets : ∀ targets, (sortTargets targets).Perm targets := List.perm_insertionSort _
  have hcivilians : ∀ civilians, (sortCivilians civilians).Perm civilians :=
    List.perm_insertionSort _
  cases p with
  | all ps => exact h.elim
  | any ps => exact h.elim
  | not p => exact h.elim
  | laboratoryRoomAccess area entry targets =>
      simp only [normalized, evaluateTruth]
      rw [LaboratoryAccess.laboratoryRoomAccessTruth_perm (htargets targets)]
  | laboratoryRoomAccessPairedStairs area entry targets =>
      simp only [normalized, evaluateTruth]
      rw [LaboratoryAccess.laboratoryRoomAccessPairedStairsTruth_perm (htargets targets)]
  | laboratoryCivilianReleaseSafety burrow civilians =>
      simp only [normalized, evaluateTruth]
      rw [LaboratoryCivilian.laboratoryCivilianReleaseSafetyTruth_perm (hcivilians civilians)]
  | _ => simp only [normalized]

theorem evaluateTruth_negate (s : WorldSnapshot) (candidate : Option EntityId) (p : Predicate) :
    evaluateTruth s candidate (negate p) = (evaluateTruth s candidate p).not := by
  cases p with
  | not p =>
      rw [negate, evaluateTruth]
      cases evaluateTruth s candidate p <;> rfl
  | _ => simp only [negate, evaluateTruth, Truth.not]

theorem combine_absorbing (s : WorldSnapshot) (candidate : Option EntityId) {isAll : Bool}
    {truths : List Truth} (h : evaluateTruth s candidate (absorbing isAll) ∈ truths) :
    combine isAll truths = evaluateTruth s candidate (absorbing isAll) := by
  cases isAll with
  | true => exact (Truth.all_eq_false_iff _).2 h
  | false =>
      show Truth.any truths = .true
      have hfalse : Truth.all (truths.map Truth.not) = .false :=
        (Truth.all_eq_false_iff _).2 (List.mem_map.2 ⟨_, h, rfl⟩)
      rw [Truth.any_eq, hfalse]
      rfl

/-- **A predicate and its normal form have one truth value.** -/
theorem evaluateTruth_normalized (s : WorldSnapshot) (candidate : Option EntityId)
    (p : Predicate) : evaluateTruth s candidate p.normalized = evaluateTruth s candidate p := by
  induction p using induct_connect with
  | hconnect isAll ps ih =>
      rw [normalized_connect, evaluateTruth_connect]
      by_cases hdecides : ∃ p ∈ ps, p.normalized = absorbing isAll
      · obtain ⟨p, hp, hnormalized⟩ := hdecides
        rw [if_pos ⟨p, hp, hnormalized⟩]
        refine (combine_absorbing s candidate (List.mem_map.2 ⟨p, hp, ?_⟩)).symm
        rw [← ih p hp, hnormalized]
      · rw [if_neg hdecides, evaluateTruth_ofChildren]
        apply combine_flatMap s candidate isAll
        intro p hp
        cases hchildren : childrenOf isAll p.normalized with
        | none => exact absurd ⟨p, hp, childrenOf_eq_none.1 hchildren⟩ hdecides
        | some children =>
            rw [members, hchildren, Option.getD_some, evaluateTruth_childrenOf _ _ hchildren, ih p hp]
  | hnot p ih => rw [normalized_not, evaluateTruth_negate, ih, evaluateTruth]
  | hleaf p hp => exact evaluateTruth_leaf s candidate hp

/-! ## Idempotence -/

theorem pairwise_insertionSort_encode (children : List Predicate) :
    (children.insertionSort fun a b => a.encode ≤ b.encode).Pairwise
      fun a b => a.encode ≤ b.encode :=
  List.pairwise_insertionSort _ _

theorem arrange_arrange (children : List Predicate) :
    arrange (arrange children) = arrange children := by
  have hsorted : (arrange children).Pairwise fun a b => a.encode ≤ b.encode :=
    (pairwise_insertionSort_encode children).sublist (dedup_sublist _)
  rw [arrange, hsorted.insertionSort_eq]
  exact dedup_of_isChain (isChain_dedup _)

/-- A predicate in normal form: its children are, no child belongs to the connective above it,
and they are arranged. -/
inductive Normal : Predicate → Prop
  | leaf {p : Predicate} (hleaf : p.IsLeaf) (hself : p.normalized = p) : Normal p
  | not {p : Predicate} (hp : Normal p) (hself : negate p = .not p) : Normal (.not p)
  | connect {isAll : Bool} {ps : List Predicate} (hps : ∀ p ∈ ps, Normal p)
      (hwhole : ∀ p ∈ ps, childrenOf isAll p = some [p]) (harranged : arrange ps = ps)
      (hmany : 2 ≤ ps.length) : Normal (Predicate.connect isAll ps)

/-- **A normal form is left alone.** -/
theorem Normal.normalized_eq {p : Predicate} (h : Normal p) : p.normalized = p := by
  induction h with
  | leaf _ hself => exact hself
  | not _ hself ih => rw [normalized_not, ih, hself]
  | @connect isAll ps _ hwhole harranged hmany ih =>
      have hmembers : ps.flatMap (members isAll) = ps := by
        have heach : ∀ p ∈ ps, members isAll p = [p] := by
          intro p hp
          rw [members, ih p hp, hwhole p hp]
          rfl
        rw [List.flatMap_congr heach, List.flatMap_singleton']
      have hdecides : ¬ ∃ p ∈ ps, p.normalized = absorbing isAll := by
        intro ⟨p, hp, hnormalized⟩
        rw [ih p hp] at hnormalized
        have hnone := hwhole p hp
        rw [childrenOf_eq_none.2 hnormalized] at hnone
        cases hnone
      rw [normalized_connect, if_neg hdecides, hmembers]
      rcases ofChildren_cases isAll ps with ⟨hnil, _⟩ | ⟨child, hone, _⟩ | ⟨_, heq⟩
      · rw [← harranged, hnil] at hmany
        exact absurd hmany (by decide)
      · rw [← harranged, hone] at hmany
        exact absurd hmany (by simp)
      · rw [heq, harranged]

theorem normal_constant (isAll : Bool) : Normal (neutral isAll) ∧ Normal (absorbing isAll) := by
  cases isAll
  · exact ⟨.leaf trivial (by rw [neutral]; rfl), .leaf trivial rfl⟩
  · exact ⟨.leaf trivial rfl, .leaf trivial rfl⟩

theorem Normal.of_not {p : Predicate} (h : Normal (.not p)) : Normal p := by
  generalize hq : Predicate.not p = q at h
  cases h with
  | leaf hleaf _ =>
      subst hq
      exact hleaf.elim
  | not hp _ =>
      cases hq
      exact hp
  | @connect isAll _ _ _ _ _ => cases isAll <;> cases hq

theorem Normal.negate {p : Predicate} (h : Normal p) : Normal (negate p) := by
  cases p with
  | true => exact .leaf trivial rfl
  | false => exact .leaf trivial rfl
  | not p => exact h.of_not
  | _ => exact .not h rfl

/-- What a normal child adds is normal, and has nothing left to flatten. -/
theorem Normal.childrenOf {isAll : Bool} {p : Predicate} (h : Normal p) {children : List Predicate}
    (hchildren : childrenOf isAll p = some children) :
    ∀ child ∈ children, Normal child ∧ Predicate.childrenOf isAll child = some [child] := by
  rcases childrenOf_cases hchildren with hconnect | ⟨_, hnil⟩ | ⟨hone, _⟩
  · intro child hchild
    cases h with
    | leaf hleaf _ => cases isAll <;> subst hconnect <;> exact hleaf.elim
    | not => cases isAll <;> cases hconnect
    | @connect isAll' ps hps hwhole _ _ =>
        have hsame : isAll' = isAll ∧ ps = children := by
          cases isAll <;> cases isAll' <;> cases hconnect <;> exact ⟨rfl, rfl⟩
        obtain ⟨rfl, rfl⟩ := hsame
        exact ⟨hps child hchild, hwhole child hchild⟩
  · rw [hnil]
    exact List.forall_mem_nil _
  · rw [hone]
    intro child hchild
    rw [List.mem_singleton.1 hchild]
    exact ⟨h, hone ▸ hchildren⟩

/-- **What normalizing returns is in normal form.** -/
theorem normal_normalized (p : Predicate) : Normal p.normalized := by
  induction p using induct_connect with
  | hconnect isAll ps ih =>
      rw [normalized_connect]
      by_cases hdecides : ∃ p ∈ ps, p.normalized = absorbing isAll
      · rw [if_pos hdecides]
        exact (normal_constant isAll).2
      · rw [if_neg hdecides]
        have hall : ∀ child ∈ arrange (ps.flatMap (members isAll)),
            Normal child ∧ childrenOf isAll child = some [child] := by
          intro child hchild
          rw [mem_arrange] at hchild
          obtain ⟨p, hp, hmem⟩ := List.mem_flatMap.1 hchild
          cases hchildren : childrenOf isAll p.normalized with
          | none => exact absurd ⟨p, hp, childrenOf_eq_none.1 hchildren⟩ hdecides
          | some children =>
              rw [members, hchildren] at hmem
              exact (ih p hp).childrenOf hchildren child hmem
        rcases ofChildren_cases isAll (ps.flatMap (members isAll)) with
          ⟨_, heq⟩ | ⟨child, hone, heq⟩ | ⟨hmany, heq⟩
        · rw [heq]
          exact (normal_constant isAll).1
        · rw [heq]
          exact (hall child (by rw [hone]; exact List.mem_singleton_self child)).1
        · rw [heq]
          exact .connect (fun p hp => (hall p hp).1) (fun p hp => (hall p hp).2)
            (arrange_arrange _) hmany
  | hnot p ih =>
      rw [normalized_not]
      exact ih.negate
  | hleaf p hp => exact .leaf (isLeaf_normalized hp) (normalized_leaf hp)

/-! ## Sizes -/

mutual

/-- The weights of the leaves, and `c` for each connective. -/
def total (c : Nat) (weight : Predicate → Nat) : Predicate → Nat
  | .all ps | .any ps => c + totalEach c weight ps
  | .not p => c + p.total c weight
  | leaf => weight leaf

def totalEach (c : Nat) (weight : Predicate → Nat) : List Predicate → Nat
  | [] => 0
  | p :: rest => p.total c weight + totalEach c weight rest

end

mutual

/-- The connectives on the longest way down, and the leaf. -/
def height : Predicate → Nat
  | .all ps | .any ps => heightEach ps + 1
  | .not p => p.height + 1
  | _ => 1

def heightEach : List Predicate → Nat
  | [] => 0
  | p :: rest => max p.height (heightEach rest)

end

section Sizes

variable {c : Nat} {weight : Predicate → Nat}

theorem totalEach_eq (ps : List Predicate) :
    totalEach c weight ps = (ps.map (total c weight)).sum := by
  induction ps with
  | nil => rfl
  | cons p ps ih => rw [totalEach, ih, List.map_cons, List.sum_cons]

theorem total_connect (isAll : Bool) (ps : List Predicate) :
    (connect isAll ps).total c weight = c + (ps.map (total c weight)).sum := by
  rw [← totalEach_eq]
  cases isAll <;> simp only [connect] <;> rfl

theorem total_leaf {p : Predicate} (h : p.IsLeaf) : p.total c weight = weight p := by
  cases p with
  | all ps => exact h.elim
  | any ps => exact h.elim
  | not p => exact h.elim
  | _ => simp only [total]

theorem heightEach_le_iff {ps : List Predicate} {n : Nat} :
    heightEach ps ≤ n ↔ ∀ p ∈ ps, p.height ≤ n := by
  induction ps with
  | nil => simp [heightEach]
  | cons p ps ih => rw [heightEach, max_le_iff, ih, List.forall_mem_cons]

theorem height_connect_le_iff {isAll : Bool} {ps : List Predicate} {n : Nat} :
    (connect isAll ps).height ≤ n + 1 ↔ ∀ p ∈ ps, p.height ≤ n := by
  have hheight : (connect isAll ps).height = heightEach ps + 1 := by
    cases isAll with
    | true => exact height.eq_1 ps
    | false => exact height.eq_2 ps
  rw [← heightEach_le_iff, hheight, Nat.add_le_add_iff_right]

theorem height_leaf {p : Predicate} (h : p.IsLeaf) : p.height = 1 := by
  cases p with
  | all ps => exact h.elim
  | any ps => exact h.elim
  | not p => exact h.elim
  | _ => simp only [height]

theorem one_le_height (p : Predicate) : 1 ≤ p.height := by
  cases p <;> simp only [height] <;> omega

theorem height_constant (isAll : Bool) :
    (neutral isAll).height = 1 ∧ (absorbing isAll).height = 1 := by
  cases isAll <;> exact ⟨height_leaf trivial, height_leaf trivial⟩

theorem height_negate (p : Predicate) : (negate p).height ≤ p.height + 1 := by
  cases p <;> simp only [negate, height] <;> omega

/-- What the children of a connective are bounded by bounds its normal form. -/
theorem height_ofChildren {isAll : Bool} {children : List Predicate} {n : Nat}
    (h : ∀ child ∈ children, child.height ≤ n) : (ofChildren isAll children).height ≤ n + 1 := by
  rcases ofChildren_cases isAll children with ⟨_, heq⟩ | ⟨child, hone, heq⟩ | ⟨_, heq⟩
  · rw [heq, (height_constant isAll).1]
    omega
  · have hchild : child ∈ children := by
      rw [← mem_arrange, hone]
      exact List.mem_singleton_self child
    rw [heq]
    exact (h child hchild).trans (Nat.le_succ n)
  · rw [heq]
    exact height_connect_le_iff.2 fun p hp => h p ((mem_arrange _).1 hp)

theorem height_members {isAll : Bool} {p child : Predicate} (h : child ∈ members isAll p) :
    child.height ≤ p.normalized.height := by
  cases hchildren : childrenOf isAll p.normalized with
  | none =>
      rw [members, hchildren] at h
      cases h
  | some children =>
      rw [members, hchildren] at h
      rcases childrenOf_cases hchildren with hconnect | ⟨_, hnil⟩ | ⟨hone, _⟩
      · obtain ⟨n, hn⟩ := Nat.exists_eq_add_of_le' (one_le_height p.normalized)
        rw [hn]
        rw [hconnect] at hn
        exact (height_connect_le_iff.1 hn.le child h).trans (Nat.le_succ n)
      · rw [hnil] at h
        cases h
      · rw [hone] at h
        rw [List.mem_singleton.1 h]

theorem height_normalized_le (p : Predicate) : p.normalized.height ≤ p.height := by
  induction p using induct_connect with
  | hconnect isAll ps ih =>
      obtain ⟨n, hn⟩ := Nat.exists_eq_add_of_le' (one_le_height (connect isAll ps))
      rw [normalized_connect, hn]
      split
      · rw [(height_constant isAll).2]
        omega
      · apply height_ofChildren
        intro child hchild
        obtain ⟨p, hp, hmem⟩ := List.mem_flatMap.1 hchild
        exact (height_members hmem).trans ((ih p hp).trans (height_connect_le_iff.1 hn.le p hp))
  | hnot p ih =>
      rw [normalized_not, height]
      exact (height_negate _).trans (Nat.add_le_add_right ih 1)
  | hleaf p hp => rw [height_leaf hp, height_leaf (isLeaf_normalized hp)]

theorem sum_flatMap_le {f : Predicate → List Predicate} {size bound : Predicate → Nat}
    {ps : List Predicate} (h : ∀ p ∈ ps, ((f p).map size).sum ≤ bound p) :
    ((ps.flatMap f).map size).sum ≤ (ps.map bound).sum := by
  induction ps with
  | nil => exact le_rfl
  | cons p ps ih =>
      obtain ⟨hp, hps⟩ := List.forall_mem_cons.1 h
      rw [List.flatMap_cons, List.map_append, List.sum_append, List.map_cons, List.sum_cons]
      exact Nat.add_le_add hp (ih hps)

/-- Weights that a normal form does not change, and that constants have least of. -/
structure Weighs (c : Nat) (weight : Predicate → Nat) : Prop where
  constant : ∀ isAll, weight (neutral isAll) = c
  least : ∀ p : Predicate, p.IsLeaf → c ≤ weight p
  leaf : ∀ p : Predicate, p.IsLeaf → weight p.normalized = weight p

variable (h : Weighs c weight)
include h

theorem Weighs.neutral (isAll : Bool) : (neutral isAll).total c weight = c := by
  rw [total_leaf (by cases isAll <;> trivial), h.constant]

theorem Weighs.absorbing (isAll : Bool) : (absorbing isAll).total c weight = c := by
  have hother := h.neutral (!isAll)
  cases isAll <;> exact hother

theorem Weighs.le_total (p : Predicate) : c ≤ p.total c weight := by
  induction p using induct_connect with
  | hconnect isAll ps _ =>
      rw [total_connect]
      exact Nat.le_add_right c _
  | hnot p _ =>
      rw [total]
      exact Nat.le_add_right c _
  | hleaf p hp =>
      rw [total_leaf hp]
      exact h.least p hp

theorem Weighs.total_negate (p : Predicate) :
    (negate p).total c weight ≤ c + p.total c weight := by
  have htrue := h.neutral Bool.true
  have hfalse := h.neutral Bool.false
  simp only [Predicate.neutral] at htrue hfalse
  cases p with
  | true => exact hfalse.le.trans (Nat.le_add_right c _)
  | false => exact htrue.le.trans (Nat.le_add_right c _)
  | not p =>
      simp only [negate, total]
      omega
  | _ => simp only [negate, total]; exact le_rfl

theorem Weighs.total_ofChildren (isAll : Bool) (children : List Predicate) :
    (ofChildren isAll children).total c weight ≤ c + (children.map (total c weight)).sum := by
  rcases ofChildren_cases isAll children with ⟨_, heq⟩ | ⟨child, hone, heq⟩ | ⟨_, heq⟩
  · rw [heq, h.neutral]
    exact Nat.le_add_right c _
  · have hchild : child ∈ children := by
      rw [← mem_arrange, hone]
      exact List.mem_singleton_self child
    rw [heq]
    exact (List.le_sum_of_mem (List.mem_map_of_mem hchild)).trans (Nat.le_add_left _ c)
  · obtain ⟨kept, hperm, hsub⟩ := arrange_subperm children
    rw [heq, total_connect, ← (hperm.map _).sum_eq]
    exact Nat.add_le_add_left (List.Sublist.sum_le_sum (hsub.map _) fun _ _ => Nat.zero_le _) c

omit h in
theorem total_members (isAll : Bool) (p : Predicate) :
    ((members isAll p).map (total c weight)).sum ≤ p.normalized.total c weight := by
  cases hchildren : childrenOf isAll p.normalized with
  | none =>
      rw [members, hchildren]
      exact Nat.zero_le _
  | some children =>
      rw [members, hchildren, Option.getD_some]
      rcases childrenOf_cases hchildren with hconnect | ⟨_, hnil⟩ | ⟨hone, _⟩
      · rw [hconnect, total_connect]
        exact Nat.le_add_left _ c
      · rw [hnil]
        exact Nat.zero_le _
      · rw [hone, List.map_singleton, List.sum_singleton]

/-- **A normal form weighs no more.** -/
theorem Weighs.total_normalized_le (p : Predicate) :
    p.normalized.total c weight ≤ p.total c weight := by
  induction p using induct_connect with
  | hconnect isAll ps ih =>
      rw [normalized_connect]
      split
      · rw [h.absorbing]
        exact h.le_total _
      · apply (h.total_ofChildren isAll _).trans
        rw [total_connect]
        apply Nat.add_le_add_left
        exact sum_flatMap_le fun p hp => (total_members isAll p).trans (ih p hp)
  | hnot p ih =>
      rw [normalized_not, total]
      exact (h.total_negate _).trans (Nat.add_le_add_left ih c)
  | hleaf p hp => rw [total_leaf hp, total_leaf (isLeaf_normalized hp), h.leaf p hp]

end Sizes

end Predicate

/-! ## The shape walk -/

/-- What the combined bounds of a shape are about. -/
inductive Resource where
  | terrain
  | access
  | civilian
deriving DecidableEq

def ShapeWork.used (work : ShapeWork) : Resource → Nat
  | .terrain => work.regionTiles.val
  | .access => work.accessWork.val
  | .civilian => work.civilianWork.val

def Resource.bound : Resource → Nat
  | .terrain => maxPredicateRegionTiles.val
  | .access => LaboratoryAccess.maxPredicateWork.val
  | .civilian => LaboratoryCivilian.maxPredicateWork.val

def ShapeWork.Fits (work : ShapeWork) : Prop := ∀ r : Resource, work.used r ≤ r.bound

theorem ShapeWork.ext_used {a b : ShapeWork} (h : ∀ r : Resource, a.used r = b.used r) : a = b := by
  obtain ⟨a₁, a₂, a₃⟩ := a
  obtain ⟨b₁, b₂, b₃⟩ := b
  have h₁ : a₁ = b₁ := Fin.ext (h .terrain)
  have h₂ : a₂ = b₂ := Fin.ext (h .access)
  have h₃ : a₃ = b₃ := Fin.ext (h .civilian)
  rw [h₁, h₂, h₃]

def ShapeWork.add (work : ShapeWork) (n : U 64) : Resource → ShapeWork
  | .terrain => { work with regionTiles := work.regionTiles.saturatingAdd n }
  | .access => { work with accessWork := work.accessWork.saturatingAdd n }
  | .civilian => { work with civilianWork := work.civilianWork.saturatingAdd n }

theorem ShapeWork.used_add_self (work : ShapeWork) (n : U 64) (r : Resource) :
    (work.add n r).used r = min (work.used r + n.val) (2 ^ 64 - 1) := by
  cases r <;> exact U.saturatingAdd_val _ n

theorem ShapeWork.used_add_of_ne (work : ShapeWork) (n : U 64) {r other : Resource}
    (h : other ≠ r) : (work.add n r).used other = work.used other := by
  cases r <;> cases other <;> first | exact absurd rfl h | rfl

theorem ShapeWork.used_zero (r : Resource) : (ShapeWork.mk 0 0 0).used r = 0 := by
  cases r <;> rfl

theorem Resource.bound_lt (r : Resource) : r.bound < 2 ^ 64 - 1 := by
  cases r <;> decide

/-- `own` is the work of one more leaf after `work`. -/
def ShapeWork.Adds (work own after : ShapeWork) : Prop :=
  after.Fits ∧ ∀ r : Resource, after.used r = work.used r + own.used r

theorem chargeAccess_eq (work : ShapeWork) (area : MapCuboid) (targets : List MapCoord) :
    chargeAccess work area targets =
      let n := LaboratoryAccess.workBound area targets.length LaboratoryAccess.maxEntities
      if (work.add n .access).used .access > Resource.bound .access then
        .error (.new .budgetExceeded
          "laboratory access predicates exceed their combined work bound")
      else .ok (work.add n .access) := by
  simp only [chargeAccess, ShapeWork.add, ShapeWork.used, Resource.bound, gt_iff_lt, Fin.lt_def]

theorem validateLeaf_civilian (work : ShapeWork) (burrow : LaboratoryEntityIdentity)
    (civilians : List LaboratoryEntityIdentity) {n : U 64}
    (hn : LaboratoryCivilian.workBound LaboratoryCivilian.maxEntities = n) :
    validateLeaf work (.laboratoryCivilianReleaseSafety burrow civilians) =
      LaboratoryCivilian.validateRequest burrow civilians >>= fun _ =>
        if work.civilianWork.saturatingAdd n > LaboratoryCivilian.maxPredicateWork then
          .error (.new .budgetExceeded
            "laboratory civilian predicates exceed their combined census work bound")
        else .ok { work with civilianWork := work.civilianWork.saturatingAdd n } := by
  rw [validateLeaf, hn]
  refine bind_congr fun _ => ?_
  by_cases h : work.civilianWork.saturatingAdd n > LaboratoryCivilian.maxPredicateWork
  · rw [if_pos h]
    dsimp only
    rw [if_pos h]
    rfl
  · rw [if_neg h]
    dsimp only
    rw [if_neg h]
    rfl

section Leaf

variable {work after : ShapeWork} (hwork : work.Fits)
include hwork

/-- A leaf without combined work. -/
theorem unchanged_iff {check : Result Unit} :
    (check >>= fun _ => pure work) = .ok after ↔
      ∃ own, (check >>= fun _ => pure ⟨0, 0, 0⟩) = .ok own ∧ work.Adds own after := by
  cases check with
  | error e => exact ⟨nofun, fun ⟨_, h, _⟩ => nomatch h⟩
  | ok =>
      constructor
      · intro h
        cases h
        refine ⟨_, rfl, hwork, fun r => ?_⟩
        rw [ShapeWork.used_zero, Nat.add_zero]
      · intro ⟨own, hown, _, hadds⟩
        cases hown
        have hsame : work = after := by
          apply ShapeWork.ext_used
          intro r
          rw [hadds r, ShapeWork.used_zero, Nat.add_zero]
        rw [hsame]
        rfl

theorem charge_iff (r : Resource) {n : U 64} {e : DfmcpError} :
    (if (work.add n r).used r > r.bound then .error e else .ok (work.add n r)) =
        (.ok after : Result ShapeWork) ↔
      ∃ own, (if ((ShapeWork.mk 0 0 0).add n r).used r > r.bound then .error e
        else .ok ((ShapeWork.mk 0 0 0).add n r)) = (.ok own : Result ShapeWork) ∧
        work.Adds own after := by
  have hbound := r.bound_lt
  have hself := work.used_add_self n r
  have hown := (ShapeWork.mk 0 0 0).used_add_self n r
  rw [ShapeWork.used_zero, Nat.zero_add] at hown
  have hexact : (work.add n r).used r ≤ r.bound → ∀ other, (work.add n r).used other =
      work.used other + ((ShapeWork.mk 0 0 0).add n r).used other := by
    intro hfits other
    by_cases hother : other = r
    · subst hother
      omega
    · rw [work.used_add_of_ne n hother, ShapeWork.used_add_of_ne _ n hother,
        ShapeWork.used_zero, Nat.add_zero]
  constructor
  · intro h
    by_cases hfits : (work.add n r).used r > r.bound
    · rw [if_pos hfits] at h
      cases h
    · rw [if_neg hfits] at h
      cases h
      refine ⟨(ShapeWork.mk 0 0 0).add n r, if_neg (by omega), fun other => ?_,
        hexact (not_lt.1 hfits)⟩
      by_cases hother : other = r
      · rw [hother]
        exact not_lt.1 hfits
      · rw [work.used_add_of_ne n hother]
        exact hwork other
  · intro ⟨own, h, hafter, hadds⟩
    by_cases hsolo : ((ShapeWork.mk 0 0 0).add n r).used r > r.bound
    · rw [if_pos hsolo] at h
      cases h
    · rw [if_neg hsolo] at h
      cases h
      have hfits : (work.add n r).used r ≤ r.bound := by
        have hsum := hadds r
        have hlimit := hafter r
        omega
      have hsame : work.add n r = after := by
        apply ShapeWork.ext_used
        intro other
        rw [hexact hfits, hadds]
      rw [if_neg (not_lt.2 hfits), hsame]

/-- A leaf that is charged for one resource. -/
theorem charged_iff (r : Resource) {check : Result (U 64)} {e : DfmcpError} {leaf : Predicate}
    (hleaf : ∀ w, validateLeaf w leaf = check >>= fun n =>
      if (w.add n r).used r > r.bound then .error e else .ok (w.add n r)) :
    validateLeaf work leaf = .ok after ↔
      ∃ own, validateLeaf ⟨0, 0, 0⟩ leaf = .ok own ∧ work.Adds own after := by
  simp only [hleaf]
  cases check with
  | error e => exact ⟨nofun, fun ⟨_, h, _⟩ => nomatch h⟩
  | ok n => exact charge_iff hwork r

/-- The work of one leaf after other leaves is what it is alone, added to theirs. -/
theorem validateLeaf_iff (leaf : Predicate) :
    validateLeaf work leaf = .ok after ↔
      ∃ own, validateLeaf ⟨0, 0, 0⟩ leaf = .ok own ∧ work.Adds own after := by
  cases leaf with
  | fieldCompare id field op value =>
      have hcheck : ∀ w, validateLeaf w (.fieldCompare id field op value) =
          (if strLen field > maxQueryFieldBytes then .error (.new .budgetExceeded
            "query field name exceeds its explicit byte bound") else validateQueryValue value) >>=
          fun _ => pure w := by
        intro w
        rw [validateLeaf]
        split <;> rfl
      rw [hcheck, hcheck]
      exact unchanged_iff hwork
  | entityQuantity kind filterField filterValue quantityField op value =>
      exact unchanged_iff hwork
  | entityQuantityIncrease kind filterField filterValue quantityField baseline increase anchor
      digest generation counters =>
      have hcheck : ∃ check : Result Unit, ∀ w, validateLeaf w (.entityQuantityIncrease kind
          filterField filterValue quantityField baseline increase anchor digest generation
          counters) = check >>= fun _ => pure w := by
        refine ⟨(validateLeaf ⟨0, 0, 0⟩ (.entityQuantityIncrease kind filterField filterValue
          quantityField baseline increase anchor digest generation counters)).map fun _ => (),
          fun w => ?_⟩
        simp only [validateLeaf]
        cases validateEntityQuantityFields kind filterField filterValue quantityField with
        | error e => rfl
        | ok =>
            dsimp only [bind, Except.bind]
            split <;> rfl
      obtain ⟨check, hcheck⟩ := hcheck
      rw [hcheck, hcheck]
      exact unchanged_iff hwork
  | regionTerrain area code => exact charged_iff hwork .terrain fun _ => rfl
  | laboratoryRoomAccess area entry targets =>
      apply @charged_iff _ _ hwork .access (do
        let _ ← LaboratoryAccess.validateRequest area entry targets
        pure (LaboratoryAccess.workBound area targets.length LaboratoryAccess.maxEntities))
      intro w
      rw [validateLeaf, bind_assoc]
      exact bind_congr fun _ => chargeAccess_eq w area targets
  | laboratoryRoomAccessPairedStairs area entry targets =>
      apply @charged_iff _ _ hwork .access (do
        let _ ← LaboratoryAccess.validatePairedStairsRequest area entry targets
        pure (LaboratoryAccess.workBound area targets.length LaboratoryAccess.maxEntities))
      intro w
      rw [validateLeaf, bind_assoc]
      exact bind_congr fun _ => chargeAccess_eq w area targets
  | laboratoryCivilianReleaseSafety burrow civilians =>
      obtain ⟨n, hn⟩ : ∃ n, LaboratoryCivilian.workBound LaboratoryCivilian.maxEntities = n :=
        ⟨_, rfl⟩
      apply @charged_iff _ _ hwork .civilian (do
        LaboratoryCivilian.validateRequest burrow civilians
        pure n)
      intro w
      rw [validateLeaf_civilian w burrow civilians hn, bind_assoc]
      rfl
  | _ => exact @unchanged_iff _ _ hwork (.ok ())

end Leaf

namespace Predicate

/-- The work of a leaf, alone. -/
def own (leaf : Predicate) : ShapeWork := (validateLeaf ⟨0, 0, 0⟩ leaf).toOption.getD ⟨0, 0, 0⟩

def nodes (p : Predicate) : Nat := p.total 1 fun _ => 1

/-- The leaves that fail their own checks. -/
def failures (p : Predicate) : Nat :=
  p.total 0 fun leaf => if (validateLeaf ⟨0, 0, 0⟩ leaf).isOk then 0 else 1

def demand (r : Resource) (p : Predicate) : Nat := p.total 0 fun leaf => leaf.own.used r

end Predicate

section Walk

variable {left depth : Nat} {work : ShapeWork} {pending : List (Predicate × Nat)}

theorem validatePending_connect (isAll : Bool) (ps : List Predicate) :
    validatePending (left + 1) work ((Predicate.connect isAll ps, depth) :: pending) = .ok () ↔
      depth ≤ maxQueryPredicateDepth ∧ ps.length ≤ left ∧
        validatePending left work ((ps.map (·, depth + 1)).reverse ++ pending) = .ok () := by
  conv_lhs => unfold validatePending
  by_cases hdepth : depth > maxQueryPredicateDepth
  · rw [if_pos hdepth]
    exact ⟨fun h => (by cases h), fun h => absurd h.1 (not_le.2 hdepth)⟩
  · rw [if_neg hdepth]
    by_cases hlength : ps.length > left
    · cases isAll <;>
        exact ⟨fun h => by simp [Predicate.connect, hlength] at h,
          fun h => absurd h.2.1 (not_le.2 hlength)⟩
    · have hwithin : depth ≤ maxQueryPredicateDepth ∧ ps.length ≤ left :=
        ⟨not_lt.1 hdepth, not_lt.1 hlength⟩
      cases isAll <;> simp [Predicate.connect, hlength, hwithin]

theorem validatePending_not (p : Predicate) :
    validatePending (left + 1) work ((Predicate.not p, depth) :: pending) = .ok () ↔
      depth ≤ maxQueryPredicateDepth ∧
        validatePending left work ((p, depth + 1) :: pending) = .ok () := by
  conv_lhs => unfold validatePending
  by_cases hdepth : depth > maxQueryPredicateDepth
  · rw [if_pos hdepth]
    exact ⟨fun h => (by cases h), fun h => absurd h.1 (not_le.2 hdepth)⟩
  · rw [if_neg hdepth]
    exact ⟨fun h => ⟨not_lt.1 hdepth, h⟩, fun h => h.2⟩

theorem validatePending_leaf_iff {leaf : Predicate} (hleaf : leaf.IsLeaf) :
    validatePending (left + 1) work ((leaf, depth) :: pending) = .ok () ↔
      depth ≤ maxQueryPredicateDepth ∧
        ∃ after, validateLeaf work leaf = .ok after ∧
          validatePending left after pending = .ok () := by
  have hbind : (validateLeaf work leaf >>= fun after => validatePending left after pending) =
      .ok () ↔ ∃ after, validateLeaf work leaf = .ok after ∧
        validatePending left after pending = .ok () := bind_ok_iff
  conv_lhs => unfold validatePending
  by_cases hdepth : depth > maxQueryPredicateDepth
  · rw [if_pos hdepth]
    exact ⟨fun h => (by cases h), fun h => absurd h.1 (not_le.2 hdepth)⟩
  · rw [if_neg hdepth, ← hbind]
    cases leaf with
    | all ps => exact hleaf.elim
    | any ps => exact hleaf.elim
    | not p => exact hleaf.elim
    | _ => exact ⟨fun h => ⟨not_lt.1 hdepth, h⟩, fun h => h.2⟩

theorem sum_children (size : Predicate → Nat) (ps : List Predicate) :
    (((ps.map (·, depth + 1)).reverse ++ pending).map fun x => size x.1).sum =
      (ps.map size).sum + (pending.map fun x => size x.1).sum := by
  rw [List.map_append, List.sum_append, List.map_reverse, List.sum_reverse, List.map_map]
  rfl

theorem forall_children {P : Predicate × Nat → Prop} (ps : List Predicate) :
    (∀ x ∈ (ps.map (·, depth + 1)).reverse ++ pending, P x) ↔
      (∀ p ∈ ps, P (p, depth + 1)) ∧ ∀ x ∈ pending, P x := by
  simp [or_imp, forall_and]

/-- What the walk still has to fit. -/
structure Admissible (left : Nat) (work : ShapeWork) (pending : List (Predicate × Nat)) :
    Prop where
  nodes : (pending.map fun x => x.1.nodes).sum ≤ left
  depth : ∀ x ∈ pending, x.2 + x.1.height ≤ maxQueryPredicateDepth + 1
  failures : (pending.map fun x => x.1.failures).sum = 0
  demand : ∀ r : Resource, work.used r + (pending.map fun x => x.1.demand r).sum ≤ r.bound

theorem admissible_iff :
    Admissible left work pending ↔
      (pending.map fun x => x.1.nodes).sum ≤ left ∧
        (∀ x ∈ pending, x.2 + x.1.height ≤ maxQueryPredicateDepth + 1) ∧
        (pending.map fun x => x.1.failures).sum = 0 ∧
        ∀ r : Resource, work.used r + (pending.map fun x => x.1.demand r).sum ≤ r.bound :=
  ⟨fun h => ⟨h.nodes, h.depth, h.failures, h.demand⟩,
    fun h => ⟨h.1, h.2.1, h.2.2.1, h.2.2.2⟩⟩

theorem weighs_nodes : Predicate.Weighs 1 fun _ => 1 :=
  ⟨fun _ => rfl, fun _ _ => le_rfl, fun _ _ => rfl⟩

theorem length_le_sum_nodes (ps : List Predicate) :
    ps.length ≤ (ps.map Predicate.nodes).sum := by
  induction ps with
  | nil => exact le_rfl
  | cons p ps ih =>
      have hp : 1 ≤ p.nodes := weighs_nodes.le_total p
      rw [List.length_cons, List.map_cons, List.sum_cons]
      omega

theorem admissible_connect (isAll : Bool) (ps : List Predicate) :
    Admissible (left + 1) work ((Predicate.connect isAll ps, depth) :: pending) ↔
      depth ≤ maxQueryPredicateDepth ∧ ps.length ≤ left ∧
        Admissible left work ((ps.map (·, depth + 1)).reverse ++ pending) := by
  have hnodes : (Predicate.connect isAll ps).nodes = 1 + (ps.map Predicate.nodes).sum :=
    Predicate.total_connect isAll ps
  have hfailures : (Predicate.connect isAll ps).failures = 0 + (ps.map Predicate.failures).sum :=
    Predicate.total_connect isAll ps
  have hdemand : ∀ r, (Predicate.connect isAll ps).demand r =
      0 + (ps.map (Predicate.demand r)).sum := fun r => Predicate.total_connect isAll ps
  have hlength := length_le_sum_nodes ps
  have hheight : depth + (Predicate.connect isAll ps).height ≤ maxQueryPredicateDepth + 1 ↔
      depth ≤ maxQueryPredicateDepth ∧
        ∀ p ∈ ps, depth + 1 + p.height ≤ maxQueryPredicateDepth + 1 := by
    have hone := (Predicate.connect isAll ps).one_le_height
    constructor
    · intro h
      refine ⟨by omega, fun p hp => ?_⟩
      have hle : (Predicate.connect isAll ps).height ≤ (maxQueryPredicateDepth - depth) + 1 := by
        omega
      have hchild := Predicate.height_connect_le_iff.1 hle p hp
      omega
    · intro ⟨h, hall⟩
      have hle : (Predicate.connect isAll ps).height ≤ (maxQueryPredicateDepth - depth) + 1 := by
        apply Predicate.height_connect_le_iff.2
        intro p hp
        have hchild := hall p hp
        omega
      omega
  rw [admissible_iff, admissible_iff, forall_children, List.forall_mem_cons]
  simp only [sum_children, List.map_cons, List.sum_cons, hnodes, hfailures, hdemand, hheight,
    sum_children (Predicate.demand _)]
  constructor
  · intro ⟨h₁, ⟨⟨h₂, h₃⟩, h₄⟩, h₅, h₆⟩
    exact ⟨h₂, by omega, by omega, ⟨h₃, h₄⟩, by omega, fun r => by have := h₆ r; omega⟩
  · intro ⟨h₂, _, h₁, ⟨h₃, h₄⟩, h₅, h₆⟩
    exact ⟨by omega, ⟨⟨h₂, h₃⟩, h₄⟩, by omega, fun r => by have := h₆ r; omega⟩

theorem admissible_not (p : Predicate) :
    Admissible (left + 1) work ((Predicate.not p, depth) :: pending) ↔
      depth ≤ maxQueryPredicateDepth ∧ Admissible left work ((p, depth + 1) :: pending) := by
  have hnodes : (Predicate.not p).nodes = 1 + p.nodes := by simp only [Predicate.nodes, Predicate.total]
  have hfailures : (Predicate.not p).failures = 0 + p.failures := by
    simp only [Predicate.failures, Predicate.total]
  have hdemand : ∀ r, (Predicate.not p).demand r = 0 + p.demand r := by
    simp only [Predicate.demand, Predicate.total, implies_true]
  have hheight : (Predicate.not p).height = p.height + 1 := by simp only [Predicate.height]
  have hone := p.one_le_height
  rw [admissible_iff, admissible_iff, List.forall_mem_cons, List.forall_mem_cons]
  simp only [List.map_cons, List.sum_cons, hnodes, hfailures, hdemand, hheight]
  constructor
  · intro ⟨h₁, ⟨h₂, h₃⟩, h₄, h₅⟩
    exact ⟨by omega, by omega, ⟨by omega, h₃⟩, by omega, fun r => by have := h₅ r; omega⟩
  · intro ⟨h₀, h₁, ⟨h₂, h₃⟩, h₄, h₅⟩
    exact ⟨by omega, ⟨by omega, h₃⟩, by omega, fun r => by have := h₅ r; omega⟩

theorem exists_adds {own : ShapeWork} (h : ∀ r : Resource, work.used r + own.used r ≤ r.bound) :
    ∃ after, work.Adds own after := by
  have hval : ∀ r : Resource,
      (U.wrap (work.used r + own.used r) : U 64).val = work.used r + own.used r := by
    intro r
    have hlimit := r.bound_lt
    have hroom := h r
    exact U.wrap_val (by omega)
  let after : ShapeWork := ⟨U.wrap (work.used .terrain + own.used .terrain),
    U.wrap (work.used .access + own.used .access),
    U.wrap (work.used .civilian + own.used .civilian)⟩
  have hused : ∀ r : Resource, after.used r = work.used r + own.used r := by
    intro r
    cases r <;> exact hval _
  exact ⟨after, fun r => (hused r).trans_le (h r), hused⟩

theorem admissible_leaf {leaf : Predicate} (hleaf : leaf.IsLeaf) (hwork : work.Fits) :
    Admissible (left + 1) work ((leaf, depth) :: pending) ↔
      depth ≤ maxQueryPredicateDepth ∧
        ∃ after, validateLeaf work leaf = .ok after ∧ Admissible left after pending := by
  have hnodes : leaf.nodes = 1 := Predicate.total_leaf hleaf
  have hfailures : leaf.failures = if (validateLeaf ⟨0, 0, 0⟩ leaf).isOk then 0 else 1 :=
    Predicate.total_leaf hleaf
  have hdemand : ∀ r, leaf.demand r = leaf.own.used r := fun r => Predicate.total_leaf hleaf
  have hheight := Predicate.height_leaf hleaf
  simp only [admissible_iff, List.forall_mem_cons, List.map_cons, List.sum_cons, hnodes, hfailures,
    hdemand, hheight, validateLeaf_iff hwork]
  cases hown : validateLeaf ⟨0, 0, 0⟩ leaf with
  | error e => simp [Except.isOk, Except.toBool]
  | ok own =>
      have heq : leaf.own = own := by rw [Predicate.own, hown]; rfl
      have hok : (Except.ok own : Result ShapeWork).isOk = true := rfl
      rw [heq, if_pos hok]
      constructor
      · rintro ⟨h₁, ⟨h₂, h₃⟩, h₄, h₅⟩
        have hroom : ∀ r : Resource, work.used r + own.used r ≤ r.bound := fun r => by
          have := h₅ r
          omega
        obtain ⟨after, hadds⟩ := exists_adds hroom
        refine ⟨by omega, after, ⟨own, rfl, hadds⟩, by omega, h₃, by omega, fun r => ?_⟩
        rw [hadds.2 r, Nat.add_assoc]
        exact h₅ r
      · rintro ⟨h₀, after, ⟨own', hown', hadds⟩, h₁, h₃, h₄, h₅⟩
        cases hown'
        refine ⟨by omega, ⟨by omega, h₃⟩, by omega, fun r => ?_⟩
        rw [← Nat.add_assoc, ← hadds.2 r]
        exact h₅ r

/-- **The shape walk accepts exactly what is within its bounds**, whatever the order. -/
theorem validatePending_iff (hwork : work.Fits) :
    validatePending left work pending = .ok () ↔ Admissible left work pending := by
  induction left generalizing work pending with
  | zero =>
      cases pending with
      | nil => exact ⟨fun _ => ⟨le_rfl, List.forall_mem_nil _, rfl, hwork⟩, fun _ => rfl⟩
      | cons x pending =>
          refine ⟨nofun, fun h => ?_⟩
          have hnodes := h.nodes
          have hx : 1 ≤ x.1.nodes := weighs_nodes.le_total x.1
          rw [List.map_cons, List.sum_cons] at hnodes
          omega
  | succ left ih =>
      cases pending with
      | nil =>
          exact ⟨fun _ => ⟨Nat.zero_le _, List.forall_mem_nil _, rfl, hwork⟩, fun _ => rfl⟩
      | cons x pending =>
          obtain ⟨p, depth⟩ := x
          induction p using Predicate.induct_connect with
          | hconnect isAll ps _ =>
              rw [validatePending_connect, admissible_connect, ih hwork]
          | hnot p _ => rw [validatePending_not, admissible_not, ih hwork]
          | hleaf p hp =>
              rw [validatePending_leaf_iff hp, admissible_leaf hp hwork]
              apply and_congr_right
              intro _
              apply exists_congr
              intro after
              apply and_congr_right
              intro hafter
              obtain ⟨_, _, hfits, _⟩ := (validateLeaf_iff hwork p).1 hafter
              exact ih hfits

end Walk

/-! ## The shape of a normal form -/

theorem validateLeaf_normalized (work : ShapeWork) {leaf : Predicate} (h : leaf.IsLeaf) :
    validateLeaf work leaf.normalized = validateLeaf work leaf := by
  have htargets : ∀ targets, (sortTargets targets).Perm targets := List.perm_insertionSort _
  have hcivilians : ∀ civilians, (sortCivilians civilians).Perm civilians :=
    List.perm_insertionSort _
  cases leaf with
  | all ps => exact h.elim
  | any ps => exact h.elim
  | not p => exact h.elim
  | laboratoryRoomAccess area entry targets =>
      simp only [Predicate.normalized, validateLeaf, chargeAccess, (htargets targets).length_eq,
        LaboratoryAccess.validateRequest_perm (htargets targets)]
  | laboratoryRoomAccessPairedStairs area entry targets =>
      simp only [Predicate.normalized, validateLeaf, chargeAccess, (htargets targets).length_eq,
        LaboratoryAccess.validatePairedStairsRequest_perm (htargets targets)]
  | laboratoryCivilianReleaseSafety burrow civilians =>
      simp only [Predicate.normalized, validateLeaf,
        LaboratoryCivilian.validateRequest_perm (hcivilians civilians)]
  | _ => simp only [Predicate.normalized]

theorem weighs_failures :
    Predicate.Weighs 0 fun leaf => if (validateLeaf ⟨0, 0, 0⟩ leaf).isOk then 0 else 1 := by
  refine ⟨fun isAll => by cases isAll <;> rfl, fun _ _ => Nat.zero_le _, fun p hp => ?_⟩
  rw [validateLeaf_normalized _ hp]

theorem weighs_demand (r : Resource) : Predicate.Weighs 0 fun leaf => leaf.own.used r := by
  refine ⟨fun isAll => by cases isAll <;> cases r <;> rfl, fun _ _ => Nat.zero_le _,
    fun p hp => ?_⟩
  rw [Predicate.own, validateLeaf_normalized _ hp, Predicate.own]

/-- **Normalizing keeps a valid shape valid.** -/
theorem Predicate.validateShape_normalized {p : Predicate} (h : p.validateShape = .ok ()) :
    p.normalized.validateShape = .ok () := by
  have hzero : ShapeWork.Fits ⟨0, 0, 0⟩ := fun r => by cases r <;> exact Nat.zero_le _
  have hadmissible := (validatePending_iff hzero).1 h
  refine (validatePending_iff hzero).2 ⟨?_, ?_, ?_, fun r => ?_⟩
  · have hnodes := hadmissible.nodes
    have hle : p.normalized.nodes ≤ p.nodes := weighs_nodes.total_normalized_le p
    simp only [List.map_cons, List.map_nil, List.sum_cons, List.sum_nil] at hnodes ⊢
    omega
  · have hdepth := hadmissible.depth (p, 1) (List.mem_singleton_self _)
    have hle := p.height_normalized_le
    intro x hx
    rw [List.mem_singleton.1 hx]
    dsimp only at hdepth ⊢
    omega
  · have hfailures := hadmissible.failures
    have hle : p.normalized.failures ≤ p.failures := weighs_failures.total_normalized_le p
    simp only [List.map_cons, List.map_nil, List.sum_cons, List.sum_nil] at hfailures ⊢
    omega
  · have hdemand := hadmissible.demand r
    have hle : p.normalized.demand r ≤ p.demand r := (weighs_demand r).total_normalized_le p
    simp only [List.map_cons, List.map_nil, List.sum_cons, List.sum_nil] at hdemand ⊢
    omega

/-- **Normalizing preserves meaning**: the normal form of a predicate of valid shape has the same
truth in every snapshot and for every candidate, is its own normal form, and is of valid shape. -/
theorem normalized_faithful (p : Predicate) (h : p.validateShape = .ok ()) :
    (∀ s candidate, evaluateTruth s candidate p.normalized = evaluateTruth s candidate p) ∧
      p.normalized.normalized = p.normalized ∧ p.normalized.validateShape = .ok () :=
  ⟨fun s candidate => p.evaluateTruth_normalized s candidate,
    p.normal_normalized.normalized_eq, p.validateShape_normalized h⟩

namespace Sample

/-- A nest of connectives with a repeat, a constant and a double negation. -/
def nested : Predicate :=
  .all [.not (.not (.all [.paused true, .entityExists 1])), .true, .any [.paused true]]

end Sample

theorem normalized_faithful_nested :
    (∀ s candidate, evaluateTruth s candidate Sample.nested.normalized =
      evaluateTruth s candidate Sample.nested) ∧
      Sample.nested.normalized.normalized = Sample.nested.normalized ∧
      Sample.nested.normalized.validateShape = .ok () :=
  normalized_faithful Sample.nested (by decide +kernel)

end Dfmcp
