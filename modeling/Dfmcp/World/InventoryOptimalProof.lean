import Dfmcp.World.InventoryAllocationProof

/-!
# Inventory allocation is optimal and certified

The flow of the solver is turned into assignments group by group. What a link carries is handed out
from the members of its group in order, so every supply stays within its units (`Handing`), and the
balances of the network make the demands come out right. The closed set that ends the rounds is read
as a set of demands that too few units are eligible for (`HallDeficient`): its deficit is what is
missing, and no feasible allocation can do better.

* `shortage_delivers` — the cut is a Hall-deficient set of demands;
* `handGroups_delivers` — the expansion never runs out of members, and hands out the flow;
* `HallDeficient.bound` — a deficient set bounds every feasible allocation;
* `allocate_optimal` — **what is returned is feasible, maximum and certified, and on valid input the
  only failures are an exceeded budget and an overflow**.
-/

namespace Dfmcp.InventoryAllocation

open Machine Flow Method

/-! ## Masks -/

theorem and_shift_ne_zero (mask d : Nat) : mask &&& (1 <<< d) ≠ 0 ↔ mask.testBit d := by
  rw [Nat.one_shiftLeft, Nat.and_two_pow]
  cases mask.testBit d <;> simp

theorem and_ne_zero_iff (a b : Nat) : a &&& b ≠ 0 ↔ ∃ j, a.testBit j ∧ b.testBit j := by
  constructor
  · intro h
    by_contra hno
    refine h (Nat.zero_of_testBit_eq_false fun j => ?_)
    rw [Nat.testBit_and]
    by_contra hbit
    rw [Bool.not_eq_false, Bool.and_eq_true] at hbit
    exact hno ⟨j, hbit⟩
  · rintro ⟨j, ha, hb⟩ hzero
    have := congrArg (fun n => n.testBit j) hzero
    simp [Nat.testBit_and, ha, hb] at this

theorem testBit_fold (l : List Nat) (mask j : Nat) :
    (l.foldl (fun mask d => mask ||| (1 <<< d)) mask).testBit j ↔ mask.testBit j ∨ j ∈ l := by
  induction l generalizing mask with
  | nil => simp
  | cons d l ih =>
      rw [List.foldl_cons, ih, Nat.testBit_or, Nat.one_shiftLeft, Nat.testBit_two_pow,
        List.mem_cons, Bool.or_eq_true, decide_eq_true_eq, or_assoc, eq_comm (a := d)]

/-- A mask meets a set of demands. -/
theorem meets_iff (mask : Nat) (l : List Nat) :
    mask &&& l.foldl (fun mask d => mask ||| (1 <<< d)) 0 ≠ 0 ↔ ∃ d ∈ l, mask.testBit d := by
  rw [and_ne_zero_iff]
  simp only [testBit_fold, Nat.zero_testBit, Bool.false_eq_true, false_or]
  exact ⟨fun ⟨d, hmask, hd⟩ => ⟨d, hd, hmask⟩, fun ⟨d, hd, hmask⟩ => ⟨d, hmask, hd⟩⟩

theorem admits_iff {groups : List Group} {i d : Nat} {g : Group} (hg : groups[i]? = some g) :
    admits groups i d ↔ g.mask.val.testBit d := by
  rw [admits, hg, Option.elim_some, Group.admits, decide_eq_true_eq, and_shift_ne_zero]

/-! ## The cut -/

/-- A sum over positions is one over the list. -/
theorem sum_positions {α : Type} (l : List α) (φ : α → ℕ) :
    ∑ i ∈ Finset.range l.length, (l[i]?).elim 0 φ = (l.map φ).sum := by
  induction l with
  | nil => rfl
  | cons a l ih =>
      rw [List.length_cons, Finset.sum_range_succ', List.map_cons, List.sum_cons, ← ih, add_comm]
      rfl

section Cuts

variable {E : AllocationError → Prop} {groups : List Group} {demands : List Demand}
  {requested : Nat} {f : Nat → Nat → Nat} {out : Filled}

/-- The entries of a node that leave a set. -/
def leaving (reached : List Bool) (node : Nat) (l : List (Edge Nat)) : Nat :=
  (l.map fun e => if reached.getD node false ∧ ¬ reached.getD e.target false then e.mark else 0).sum

theorem cutNode_delivers (hbudget : E .budgetExceeded) (hover : E .arithmeticOverflow)
    (reached : List Bool) (node : Nat) (l : List (Edge Nat)) (cut : Nat) :
    Delivers maxWork (cutNode reached node l cut) (fun c => c = cut + leaving reached node l) E := by
  induction l generalizing cut with
  | nil => exact .pure rfl
  | cons arc l ih =>
      refine .bind (charge_delivers hbudget) fun _ _ => ?_
      refine .ite (fun hleaves => ?_) fun hstays => ?_
      · refine .bind (sum_delivers hover _ _) fun c hc => ?_
        refine (ih c).conseq ?_ fun _ he => he
        intro c' hc'
        rw [hc', hc.1, leaving, leaving, List.map_cons, List.sum_cons, if_pos hleaves,
          Nat.add_assoc]
      · refine (ih cut).conseq ?_ fun _ he => he
        intro c' hc'
        rw [hc', leaving, leaving, List.map_cons, List.sum_cons, if_neg hstays, Nat.zero_add]

theorem cutCapacity_delivers (hbudget : E .budgetExceeded) (hover : E .arithmeticOverflow)
    (reached : List Bool) (graph : Graph Nat) (l : List Nat) (cut : Nat) :
    Delivers maxWork (cutCapacity reached graph l cut) (fun c =>
      c = cut + (l.map fun node => leaving reached node (graph.edges node)).sum) E := by
  induction l generalizing cut with
  | nil => exact .pure rfl
  | cons node l ih =>
      refine .bind (cutNode_delivers hbudget hover _ _ _ _) fun c hc => ?_
      refine (ih c).conseq ?_ fun _ he => he
      intro c' hc'
      rw [hc', hc, List.map_cons, List.sum_cons, Nat.add_assoc]

/-- **The reported cut is the flow.** -/
theorem Filling.cut_eq (h : Filling groups demands requested out f) :
    ((List.range (1 + groups.length + demands.length + 1)).map fun node =>
      leaving out.reached node (out.graph.edges node)).sum = out.allocated := by
  have hflow := h.carries.eq_cut _ h.start h.stop h.closed
  have hsum := h.represents.sum_edges (fun u v mark =>
    if out.reached.getD u false ∧ ¬ out.reached.getD v false then mark else 0) arcs_bounds
    arcs_simple.proper
  have hcut : ((arcs groups demands requested).map fun a =>
      (if out.reached.getD a.tail false ∧ ¬ out.reached.getD a.head false then a.capacity else 0) +
        if out.reached.getD a.head false ∧ ¬ out.reached.getD a.tail false then noMark a
          else 0).sum = Flow.cut (arcs groups demands requested) fun v => out.reached.getD v false := by
    rw [Flow.cut]
    congr 1
    refine List.map_congr_left fun a _ => ?_
    simp [noMark]
  have hrange : ((List.range (1 + groups.length + demands.length + 1)).map fun node =>
      leaving out.reached node (out.graph.edges node)).sum =
      ∑ u ∈ Finset.range (1 + groups.length + demands.length + 1),
        ((out.graph.edges u).map fun e => if out.reached.getD u false ∧
          ¬ out.reached.getD e.target false then e.mark else 0).sum := rfl
  rw [hrange, hsum, hcut]
  exact_mod_cast hflow.symm

/-- The cut, layer by layer. -/
theorem Filling.layers (h : Filling groups demands requested out f) : out.allocated =
    (∑ i ∈ Finset.range groups.length,
      ((if out.reached.getD (i + 1) false then 0 else groupUnits groups i) +
      ∑ d ∈ Finset.range demands.length, if admits groups i d then
        if out.reached.getD (i + 1) false ∧
          ¬ out.reached.getD (1 + groups.length + d) false then requested else 0 else 0)) +
    ∑ d ∈ Finset.range demands.length,
      if out.reached.getD (1 + groups.length + d) false then demandUnits demands d else 0 := by
  have hflow := h.carries.eq_cut _ h.start h.stop h.closed
  have hstart : out.reached.getD 0 false = true := h.start
  rw [Flow.cut, sum_arcs] at hflow
  simp only [supplyArc, linkArc, demandArc, hstart, h.stop, Bool.true_and, Bool.not_false,
    Bool.and_true, Bool.not_eq_true', Bool.and_eq_true] at hflow
  have hflow' := Nat.cast_injective (R := ℤ) hflow
  rw [hflow']
  congr 1
  refine Finset.sum_congr rfl fun i _ => ?_
  congr 1
  · cases out.reached.getD (i + 1) false <;> rfl
  · refine Finset.sum_congr rfl fun d _ => ?_
    simp only [Bool.not_eq_true]

end Cuts

/-! ## The shortage -/

/-- The units of some demands. -/
def unitsAt (demands : List Demand) (l : List Nat) : Nat := (l.map (demandUnits demands)).sum

/-- The units that are eligible for one of some demands. -/
def eligibleTo (supplies : List Supply) (l : List Nat) : Nat :=
  (supplies.map fun s => if ∃ d ∈ l, s.eligible.val.testBit d then s.units.val else 0).sum

/-- A set of demands that too few units are eligible for. -/
structure HallDeficient (supplies : List Supply) (demands : List Demand) (s : Shortage) : Prop where
  bounds : ∀ d ∈ s.demandIndices, d < demands.length
  nodup : s.demandIndices.Nodup
  required : s.requiredUnits = unitsAt demands s.demandIndices
  eligible : s.eligibleUnits = eligibleTo supplies s.demandIndices
  deficient : s.eligibleUnits < s.requiredUnits
  deficit : s.deficit = s.requiredUnits - s.eligibleUnits

section Shortages

variable {E : AllocationError → Prop} {supplies : List Supply} {groups : List Group}
  {demands : List Demand} {requested : Nat} {f : Nat → Nat → Nat} {out : Filled}

/-- With something missing no link leaves the reached side: it would carry the whole request. -/
theorem Filling.no_crossing (h : Filling groups demands requested out f)
    (hmissing : out.allocated < requested) {i d : Nat} (hi : i < groups.length)
    (hd : d < demands.length) (hadmits : admits groups i d)
    (hreached : out.reached.getD (i + 1) false) :
    out.reached.getD (1 + groups.length + d) false := by
  by_contra hcross
  have hlayers := h.layers
  have hlink : requested ≤ ∑ d ∈ Finset.range demands.length, if admits groups i d then
      if out.reached.getD (i + 1) false ∧
        ¬ out.reached.getD (1 + groups.length + d) false then requested else 0 else 0 := by
    refine le_trans ?_ (Finset.single_le_sum (f := fun d => if admits groups i d then
      if out.reached.getD (i + 1) false ∧
        ¬ out.reached.getD (1 + groups.length + d) false then requested else 0 else 0)
      (fun _ _ => Nat.zero_le _) (Finset.mem_range.mpr hd))
    rw [if_pos hadmits, if_pos ⟨hreached, hcross⟩]
  have hgroup := Finset.single_le_sum (f := fun i =>
    (if out.reached.getD (i + 1) false then 0 else groupUnits groups i) +
      ∑ d ∈ Finset.range demands.length, if admits groups i d then
        if out.reached.getD (i + 1) false ∧
          ¬ out.reached.getD (1 + groups.length + d) false then requested else 0 else 0)
    (fun _ _ => Nat.zero_le _) (Finset.mem_range.mpr hi)
  omega

/-- A group beyond the cut sends something, and only beyond the cut. -/
theorem Filling.sends_beyond (h : Filling groups demands requested out f) {i : Nat}
    (hi : i < groups.length) (hunits : 0 < groupUnits groups i)
    (hbeyond : ¬ out.reached.getD (i + 1) false) :
    ∃ d < demands.length, admits groups i d ∧
      ¬ out.reached.getD (1 + groups.length + d) false := by
  have hsupply : supplyArc groups i ∈ arcs groups demands requested :=
    mem_arcs.mpr (.inl ⟨i, hi, rfl⟩)
  have hfull : groupUnits groups i ≤ on f (supplyArc groups i) := by
    by_contra hroom
    exact hbeyond ((h.closed _ hsupply).1 (not_le.mp hroom) h.start)
  have hsent := group_balance h.carries hi
  have hne : ∑ d ∈ Finset.range demands.length, moved groups requested f i d ≠ 0 := by omega
  obtain ⟨d, hd, hmoved⟩ := Finset.exists_ne_zero_of_sum_ne_zero hne
  have hd' := Finset.mem_range.mp hd
  unfold moved at hmoved
  split_ifs at hmoved with hadmits
  · have hlink : linkArc groups requested i d ∈ arcs groups demands requested :=
      mem_arcs.mpr (.inr (.inl ⟨i, hi, d, hd', hadmits, rfl⟩))
    refine ⟨d, hd', hadmits, fun hreached => hbeyond ?_⟩
    exact (h.closed _ hlink).2 (Nat.pos_of_ne_zero hmoved) hreached
  · exact absurd rfl hmoved

/-- The demands beyond the cut. -/
def beyond (groups : List Group) (demands : List Demand) (out : Filled) : List Nat :=
  (List.range demands.length).filter fun d => !out.reached.getD (1 + groups.length + d) false

theorem mem_beyond {d : Nat} : d ∈ beyond groups demands out ↔
    d < demands.length ∧ ¬ out.reached.getD (1 + groups.length + d) false := by
  simp [beyond]

/-- The units of the demands on this side of the cut, and of those beyond. -/
theorem unitsAt_beyond : ∑ d ∈ Finset.range demands.length, demandUnits demands d =
    unitsAt demands (beyond groups demands out) + ∑ d ∈ Finset.range demands.length,
      if out.reached.getD (1 + groups.length + d) false then demandUnits demands d else 0 := by
  have hsum : unitsAt demands (beyond groups demands out) = ∑ d ∈ Finset.range demands.length,
      if ¬ out.reached.getD (1 + groups.length + d) false then demandUnits demands d else 0 := by
    rw [← Finset.sum_filter]
    have hlist : unitsAt demands (beyond groups demands out) =
        ((List.range demands.length).map fun d =>
          if ¬ out.reached.getD (1 + groups.length + d) false then demandUnits demands d
            else 0).sum := by
      rw [List.sum_map_ite, unitsAt, beyond]
      simp
    rw [hlist, Finset.sum_filter]
    rfl
  rw [hsum, ← Finset.sum_add_distrib]
  refine Finset.sum_congr rfl fun d _ => ?_
  by_cases hreached : out.reached.getD (1 + groups.length + d) false
  · rw [if_pos hreached, if_neg (not_not.mpr hreached), Nat.zero_add]
  · rw [if_neg hreached, if_pos hreached, Nat.add_zero]

/-- **What is missing is the deficit of the demands beyond the cut.** -/
theorem Filling.deficit (h : Filling groups demands requested out f)
    (hgroups : Grouping supplies groups) (hunits : ∀ g ∈ groups, 0 < g.units)
    (hrequested : requested = ∑ d ∈ Finset.range demands.length, demandUnits demands d)
    (hmissing : out.allocated < requested) :
    unitsAt demands (beyond groups demands out) + out.allocated =
      eligibleTo supplies (beyond groups demands out) + requested := by
  have hpositive : ∀ i, i < groups.length → 0 < groupUnits groups i := by
    intro i hi
    rw [groupUnits, List.getElem?_eq_getElem hi]
    exact hunits _ (List.getElem_mem hi)
  have hgroup : ∀ i ∈ Finset.range groups.length,
      ((if out.reached.getD (i + 1) false then 0 else groupUnits groups i) +
        ∑ d ∈ Finset.range demands.length, if admits groups i d then
          if out.reached.getD (i + 1) false ∧
            ¬ out.reached.getD (1 + groups.length + d) false then requested else 0 else 0) =
      (groups[i]?).elim 0 fun g => if ∃ d ∈ beyond groups demands out, g.mask.val.testBit d
        then g.units else 0 := by
    intro i hi
    have hi' := Finset.mem_range.mp hi
    have hg : groups[i]? = some groups[i] := List.getElem?_eq_getElem hi'
    have hlinks : (∑ d ∈ Finset.range demands.length, if admits groups i d then
        if out.reached.getD (i + 1) false ∧
          ¬ out.reached.getD (1 + groups.length + d) false then requested else 0 else 0) = 0 := by
      refine Finset.sum_eq_zero fun d hd => ?_
      by_cases hadmits : admits groups i d
      · rw [if_pos hadmits, if_neg]
        rintro ⟨hreached, hcross⟩
        exact hcross (h.no_crossing hmissing hi' (Finset.mem_range.mp hd) hadmits hreached)
      · rw [if_neg hadmits]
    rw [hlinks, Nat.add_zero, hg, Option.elim_some, groupUnits, hg, Option.elim_some]
    by_cases hreached : out.reached.getD (i + 1) false
    · rw [if_pos hreached, if_neg]
      rintro ⟨d, hd, hbit⟩
      obtain ⟨hlt, hcross⟩ := mem_beyond.mp hd
      exact hcross (h.no_crossing hmissing hi' hlt ((admits_iff hg).mpr hbit) hreached)
    · obtain ⟨d, hd, hadmits, hcross⟩ := h.sends_beyond hi' (hpositive i hi') hreached
      rw [if_neg hreached, if_pos ⟨d, mem_beyond.mpr ⟨hd, hcross⟩, (admits_iff hg).mp hadmits⟩]
  have hlayers := h.layers
  rw [Finset.sum_congr rfl hgroup, sum_positions groups fun g =>
    if ∃ d ∈ beyond groups demands out, g.mask.val.testBit d then g.units else 0,
    hgroups.sum_units fun mask => ∃ d ∈ beyond groups demands out, mask.val.testBit d] at hlayers
  have hsplit := @unitsAt_beyond groups demands out
  rw [← hrequested] at hsplit
  unfold eligibleTo
  omega

theorem sumUnits_delivers (hover : E .arithmeticOverflow) (l : List Nat) (total : Nat) :
    Delivers maxWork (of (sumUnits demands l total)) (fun t => t = total + unitsAt demands l) E := by
  refine .of ?_ ?_
  · intro t ht
    induction l generalizing total with
    | nil => exact (Except.ok.inj ht).symm
    | cons d l ih =>
        rw [sumUnits] at ht
        cases hsum : sum total ((demands[d]?).elim 0 fun d => d.units.val) with
        | error e =>
            rw [hsum] at ht
            cases ht
        | ok c =>
            rw [hsum] at ht
            rw [ih c ht, (sum_ok hsum).1, unitsAt, unitsAt, List.map_cons, List.sum_cons,
              Nat.add_assoc]
            rfl
  · intro e he
    induction l generalizing total with
    | nil => cases he
    | cons d l ih =>
        rw [sumUnits] at he
        cases hsum : sum total ((demands[d]?).elim 0 fun d => d.units.val) with
        | error e' =>
            rw [hsum] at he
            rw [← Except.error.inj he, sum_error hsum]
            exact hover
        | ok c =>
            rw [hsum] at he
            exact ih c he

theorem eligibleUnits_delivers (hbudget : E .budgetExceeded) (hover : E .arithmeticOverflow)
    (subset : Nat) (l : List Group) (total : Nat) :
    Delivers maxWork (eligibleUnits subset l total) (fun t =>
      t = total + (l.map fun g => if g.mask.val &&& subset ≠ 0 then g.units else 0).sum) E := by
  induction l generalizing total with
  | nil => exact .pure rfl
  | cons g l ih =>
      refine .bind (charge_delivers hbudget) fun _ _ => ?_
      refine .ite (fun hmeets => ?_) fun hmisses => ?_
      · refine .bind (sum_delivers hover _ _) fun c hc => ?_
        refine (ih c).conseq ?_ fun _ he => he
        intro t ht
        rw [ht, hc.1, List.map_cons, List.sum_cons, if_pos hmeets, Nat.add_assoc]
      · refine (ih total).conseq ?_ fun _ he => he
        intro t ht
        rw [ht, List.map_cons, List.sum_cons, if_neg hmisses, Nat.zero_add]

/-- What is reported as missing. -/
def Reported (supplies : List Supply) (demands : List Demand) (requested allocated : Nat) :
    Option Shortage → Prop
  | none => allocated = requested
  | some s => HallDeficient supplies demands s ∧ s.deficit = requested - allocated ∧
      allocated < requested

/-- **The cut is a Hall-deficient set of demands.** -/
theorem shortage_delivers (hbudget : E .budgetExceeded) (hover : E .arithmeticOverflow)
    (h : Filling groups demands requested out f) (hgroups : Grouping supplies groups)
    (hunits : ∀ g ∈ groups, 0 < g.units)
    (hrequested : requested = ∑ d ∈ Finset.range demands.length, demandUnits demands d) :
    Delivers maxWork (shortage demands groups (1 + groups.length) requested out)
      (Reported supplies demands requested out.allocated) E := by
  unfold shortage
  refine .ite (fun hmissing => ?_) fun hnone => ?_
  · have hdeficit := h.deficit hgroups hunits hrequested hmissing
    refine .bind (sumUnits_delivers hover _ _) fun required hrequired => ?_
    refine .bind (eligibleUnits_delivers hbudget hover _ _ _) fun eligible heligible => ?_
    replace hrequired : required = unitsAt demands (beyond groups demands out) := by
      rw [hrequired, Nat.zero_add]
      rfl
    replace heligible : eligible = eligibleTo supplies (beyond groups demands out) := by
      rw [heligible, Nat.zero_add]
      simp only [meets_iff]
      exact hgroups.sum_units fun mask => ∃ d ∈ beyond groups demands out, mask.val.testBit d
    rw [← hrequired, ← heligible] at hdeficit
    refine .bind (.rejectIf fun hbad => absurd hbad (by omega)) fun _ _ => ?_
    refine .bind (.rejectIf fun hbad => absurd hbad (by omega)) fun _ _ => ?_
    refine .pure ⟨⟨fun d hd => (mem_beyond.mp hd).1, List.nodup_range.filter _, hrequired,
      heligible, ?_, rfl⟩, ?_, hmissing⟩
    · show eligible < required
      omega
    · show required - eligible = requested - out.allocated
      omega
  · have hle := value_le h.carries
    rw [← hrequested] at hle
    exact .pure (show out.allocated = requested by omega)

end Shortages

/-! ## Allocations -/

/-- What is taken of a supply. -/
def suppliedBy (M : List Assignment) (id : U 64) : Nat :=
  ((M.filter fun a => a.supplyId = id).map Assignment.units).sum

/-- What a demand gets. -/
def receivedBy (M : List Assignment) (d : Nat) : Nat :=
  ((M.filter fun a => a.demandIndex = d).map Assignment.units).sum

def totalUnits (M : List Assignment) : Nat := (M.map Assignment.units).sum

/-- The supply may be given to the demand. -/
def Eligible (supplies : List Supply) (demands : Nat) (a : Assignment) : Prop :=
  a.demandIndex < demands ∧
    ∃ s ∈ supplies, s.id = a.supplyId ∧ s.eligible.val.testBit a.demandIndex

/-- An allocation that keeps to eligibility, supplies and demands. -/
structure Feasible (supplies : List Supply) (demands : List Demand) (M : List Assignment) :
    Prop where
  eligible : ∀ a ∈ M, Eligible supplies demands.length a
  supply : ∀ s ∈ supplies, suppliedBy M s.id ≤ s.units.val
  demand : ∀ d < demands.length, receivedBy M d ≤ demandUnits demands d

section Allocations

variable {M M' : List Assignment} {a : Assignment}

theorem suppliedBy_append (M M' : List Assignment) (id : U 64) :
    suppliedBy (M ++ M') id = suppliedBy M id + suppliedBy M' id := by
  simp [suppliedBy]

theorem receivedBy_append (M M' : List Assignment) (d : Nat) :
    receivedBy (M ++ M') d = receivedBy M d + receivedBy M' d := by
  simp [receivedBy]

theorem suppliedBy_singleton (a : Assignment) (id : U 64) :
    suppliedBy [a] id = if a.supplyId = id then a.units else 0 := by
  by_cases h : a.supplyId = id <;> simp [suppliedBy, h]

theorem receivedBy_singleton (a : Assignment) (d : Nat) :
    receivedBy [a] d = if a.demandIndex = d then a.units else 0 := by
  by_cases h : a.demandIndex = d <;> simp [receivedBy, h]

theorem suppliedBy_perm (h : M.Perm M') (id : U 64) : suppliedBy M id = suppliedBy M' id :=
  ((h.filter _).map _).sum_eq

theorem receivedBy_perm (h : M.Perm M') (d : Nat) : receivedBy M d = receivedBy M' d :=
  ((h.filter _).map _).sum_eq

/-- A sum over assignments, key by key. -/
theorem sum_by_key {κ : Type} [DecidableEq κ] {K : List κ} (hK : K.Nodup) (key : Assignment → κ)
    (hM : ∀ a ∈ M, key a ∈ K) :
    (K.map fun k => ((M.filter fun a => key a = k).map Assignment.units).sum).sum =
      totalUnits M := by
  induction M with
  | nil => simp [totalUnits]
  | cons a M ih =>
      have hcons : ∀ k, (((a :: M).filter fun a => key a = k).map Assignment.units).sum =
          (if key a = k then a.units else 0) +
            ((M.filter fun a => key a = k).map Assignment.units).sum := by
        intro k
        by_cases hk : key a = k <;> simp [hk]
      simp only [hcons, List.sum_map_add]
      rw [ih fun b hb => hM b (List.mem_cons_of_mem _ hb),
        List.sum_map_eq_nsmul_single (key a) _ fun k hne _ => if_neg (Ne.symm hne),
        List.count_eq_one_of_mem hK (hM a (List.mem_cons_self ..)), one_smul, if_pos rfl]
      simp [totalUnits]

/-- The demands together get what is allocated. -/
theorem Feasible.sum_received {supplies : List Supply} {demands : List Demand}
    (h : Feasible supplies demands M) :
    ∑ d ∈ Finset.range demands.length, receivedBy M d = totalUnits M :=
  sum_by_key List.nodup_range Assignment.demandIndex fun a ha =>
    List.mem_range.mpr (h.eligible a ha).1

/-- No allocation exceeds the request. -/
theorem Feasible.le_requested {supplies : List Supply} {demands : List Demand}
    (h : Feasible supplies demands M) :
    totalUnits M ≤ ∑ d ∈ Finset.range demands.length, demandUnits demands d := by
  rw [← h.sum_received]
  exact Finset.sum_le_sum fun d hd => h.demand d (Finset.mem_range.mp hd)

/-- What some demands get comes from the supplies eligible for them. -/
theorem Feasible.le_eligible {supplies : List Supply} {demands : List Demand}
    (h : Feasible supplies demands M) (hids : (supplies.map Supply.id).Nodup) (l : List Nat) :
    totalUnits (M.filter fun a => a.demandIndex ∈ l) ≤ eligibleTo supplies l := by
  let K := supplies.filter fun s => ∃ d ∈ l, s.eligible.val.testBit d
  have hK : (K.map Supply.id).Nodup := hids.sublist (List.filter_sublist.map _)
  have hmem : ∀ a ∈ M.filter fun a => a.demandIndex ∈ l, a.supplyId ∈ K.map Supply.id := by
    intro a ha
    obtain ⟨haM, hal⟩ := List.mem_filter.mp ha
    obtain ⟨-, s, hs, hid, hbit⟩ := h.eligible a haM
    refine List.mem_map.mpr ⟨s, List.mem_filter.mpr ⟨hs, ?_⟩, hid⟩
    exact decide_eq_true ⟨a.demandIndex, by simpa using hal, hbit⟩
  rw [← sum_by_key hK Assignment.supplyId hmem, List.map_map]
  have hsum : eligibleTo supplies l = (K.map fun s => s.units.val).sum := by
    rw [eligibleTo, List.sum_map_ite]
    simp [K]
  rw [hsum]
  refine List.sum_le_sum fun s hs => ?_
  refine le_trans ?_ (h.supply s (List.mem_of_mem_filter hs))
  refine (List.Sublist.map _ ?_).sum_le_sum fun _ _ => Nat.zero_le _
  exact List.Sublist.filter _ List.filter_sublist

/-- **A deficient set bounds every feasible allocation.** -/
theorem HallDeficient.bound {supplies : List Supply} {demands : List Demand} {s : Shortage}
    (hs : HallDeficient supplies demands s) (hids : (supplies.map Supply.id).Nodup)
    (h : Feasible supplies demands M) :
    totalUnits M + s.deficit ≤ ∑ d ∈ Finset.range demands.length, demandUnits demands d := by
  have heligible := h.le_eligible hids s.demandIndices
  rw [← hs.eligible] at heligible
  have hinside : ∑ d ∈ Finset.range demands.length, (if d ∈ s.demandIndices then
      receivedBy M d else 0) = totalUnits (M.filter fun a => a.demandIndex ∈ s.demandIndices) := by
    rw [← sum_by_key (K := List.range demands.length) List.nodup_range Assignment.demandIndex
      fun a ha => List.mem_range.mpr (h.eligible a (List.mem_of_mem_filter ha)).1]
    refine Finset.sum_congr rfl fun d _ => ?_
    rw [List.filter_filter, receivedBy]
    by_cases hd : d ∈ s.demandIndices
    · rw [if_pos hd]
      congr 2
      refine List.filter_congr fun a _ => ?_
      by_cases had : a.demandIndex = d
      · simp [had, hd]
      · simp [had]
    · rw [if_neg hd]
      have hempty : (M.filter fun a => decide (a.demandIndex = d) &&
          decide (a.demandIndex ∈ s.demandIndices)) = [] := by
        rw [List.filter_eq_nil_iff]
        intro a _
        by_cases had : a.demandIndex = d
        · simp [had, hd]
        · simp [had]
      rw [hempty]
      rfl
  have hrequired : s.requiredUnits = ∑ d ∈ Finset.range demands.length,
      if d ∈ s.demandIndices then demandUnits demands d else 0 := by
    rw [hs.required, ← Finset.sum_filter, unitsAt]
    have hset : (Finset.range demands.length).filter (· ∈ s.demandIndices) =
        s.demandIndices.toFinset := by
      ext d
      simp only [Finset.mem_filter, Finset.mem_range, List.mem_toFinset]
      exact ⟨fun h => h.2, fun h => ⟨hs.bounds d h, h⟩⟩
    rw [hset, List.sum_toFinset _ hs.nodup]
  have houtside : ∑ d ∈ Finset.range demands.length, receivedBy M d + s.requiredUnits ≤
      (∑ d ∈ Finset.range demands.length, demandUnits demands d) +
        ∑ d ∈ Finset.range demands.length, (if d ∈ s.demandIndices then receivedBy M d else 0) := by
    rw [hrequired, ← Finset.sum_add_distrib, ← Finset.sum_add_distrib]
    refine Finset.sum_le_sum fun d hd => ?_
    have hle := h.demand d (Finset.mem_range.mp hd)
    by_cases hmem : d ∈ s.demandIndices
    · rw [if_pos hmem, if_pos hmem]
      omega
    · rw [if_neg hmem, if_neg hmem]
      omega
  rw [hinside, h.sum_received] at houtside
  have hdeficit := hs.deficit
  have hdeficient := hs.deficient
  omega

end Allocations

/-! ## Expanding the groups -/

/-- What was handed out so far, while the members of a mask are used up: `counts` is what each demand
got, and the supplies of the masks `later` are untouched. -/
structure Handing (supplies : List Supply) (n : Nat) (mask : U 32) (later : List (U 32))
    (out : Handed) (counts : Nat → Nat) : Prop where
  positive : ∀ a ∈ out.assignments, 0 < a.units
  eligible : ∀ a ∈ out.assignments, Eligible supplies n a
  within : ∀ s ∈ supplies, suppliedBy out.assignments s.id ≤ s.units.val
  member : ∀ s ∈ out.members, s ∈ supplies ∧ s.eligible = mask
  nodup : out.members.Nodup
  first : ∀ s rest, out.members = s :: rest →
    suppliedBy out.assignments s.id = out.used ∧ out.used < s.units.val ∧
      ∀ t ∈ rest, suppliedBy out.assignments t.id = 0
  spent : out.members = [] → out.used = 0
  untouched : ∀ s ∈ supplies, s.eligible ∈ later → suppliedBy out.assignments s.id = 0
  length : out.counts.length = n
  counts : ∀ d < n, out.counts.getD d 0 = counts d ∧ receivedBy out.assignments d = counts d

section Expanding

variable {E : AllocationError → Prop} {supplies : List Supply} {n : Nat} {mask : U 32}
  {later : List (U 32)} {out : Handed} {counts : Nat → Nat}

/-- What is left of the members covers the units still to hand out. -/
def Covers (out : Handed) (remaining : Nat) : Prop := out.used + remaining ≤ unitsOf out.members

/-- One assignment of the first member. -/
theorem Handing.give (h : Handing supplies n mask later out counts)
    (hids : ∀ s ∈ supplies, ∀ t ∈ supplies, s.id = t.id → s = t)
    (hpositive : ∀ s ∈ supplies, 0 < s.units.val) {s : Supply}
    {rest : List Supply} (hmembers : out.members = s :: rest) {d amount : Nat} (hd : d < n)
    (hbit : mask.val.testBit d) (hmask : mask ∉ later) (hamount : 0 < amount)
    (hfits : amount ≤ s.units.val - out.used) :
    Handing supplies n mask later
      { assignments := out.assignments ++ [⟨s.id, d, amount⟩]
        counts := out.counts.set d (out.counts.getD d 0 + amount)
        members := if out.used + amount = s.units.val then rest else s :: rest
        used := if out.used + amount = s.units.val then 0 else out.used + amount }
      (fun e => counts e + if e = d then amount else 0) := by
  obtain ⟨hs, helig⟩ := h.member s (hmembers ▸ List.mem_cons_self ..)
  obtain ⟨hsupplied, hused, hwaiting⟩ := h.first s rest hmembers
  have hnodup := h.nodup
  rw [hmembers, List.nodup_cons] at hnodup
  have hrest : ∀ t ∈ rest, t ∈ supplies ∧ t.eligible = mask := fun t ht =>
    h.member t (hmembers ▸ List.mem_cons_of_mem _ ht)
  have hother : ∀ t ∈ supplies, t ≠ s →
      suppliedBy (out.assignments ++ [⟨s.id, d, amount⟩]) t.id =
        suppliedBy out.assignments t.id := by
    intro t ht hne
    rw [suppliedBy_append, suppliedBy_singleton, if_neg fun heq => hne (hids s hs t ht heq).symm,
      Nat.add_zero]
  have hself : suppliedBy (out.assignments ++ [⟨s.id, d, amount⟩]) s.id = out.used + amount := by
    rw [suppliedBy_append, suppliedBy_singleton, if_pos rfl, hsupplied]
  have hwaiting' : ∀ t ∈ rest,
      suppliedBy (out.assignments ++ [⟨s.id, d, amount⟩]) t.id = 0 := by
    intro t ht
    rw [hother t (hrest t ht).1 fun heq => hnodup.1 (heq ▸ ht)]
    exact hwaiting t ht
  refine ⟨?_, ?_, ?_, ?_, ?_, ?_, ?_, ?_, ?_, ?_⟩
  · intro a ha
    rcases List.mem_append.mp ha with hold | hnew
    · exact h.positive a hold
    · rw [List.mem_singleton] at hnew
      exact hnew ▸ hamount
  · intro a ha
    rcases List.mem_append.mp ha with hold | hnew
    · exact h.eligible a hold
    · rw [List.mem_singleton] at hnew
      subst hnew
      exact ⟨hd, s, hs, rfl, by rw [helig]; exact hbit⟩
  · intro t ht
    by_cases hts : t = s
    · subst hts
      rw [hself]
      omega
    · rw [hother t ht hts]
      exact h.within t ht
  · intro t ht
    dsimp only at ht
    split_ifs at ht with hfull
    · exact hrest t ht
    · exact h.member t (hmembers ▸ ht)
  · dsimp only
    split_ifs with hfull
    · exact hnodup.2
    · exact List.nodup_cons.mpr hnodup
  · intro t more heq
    dsimp only at heq ⊢
    split_ifs at heq ⊢ with hfull
    · subst heq
      refine ⟨hwaiting' t (List.mem_cons_self ..), ?_, fun x hx =>
        hwaiting' x (List.mem_cons_of_mem _ hx)⟩
      exact hpositive t (hrest t (List.mem_cons_self ..)).1
    · obtain ⟨rfl, rfl⟩ := List.cons.inj heq
      exact ⟨hself, by omega, hwaiting'⟩
  · intro heq
    dsimp only at heq ⊢
    split_ifs at heq ⊢ with hfull
    rfl
  · intro t ht hlater
    rw [hother t ht fun heq => hmask (helig ▸ heq ▸ hlater)]
    exact h.untouched t ht hlater
  · rw [List.length_set]
    exact h.length
  · intro e he
    obtain ⟨hcount, hreceived⟩ := h.counts e he
    dsimp only
    rw [receivedBy_append, receivedBy_singleton, hreceived]
    by_cases heq : e = d
    · subst heq
      rw [if_pos rfl, List.getD_eq_getElem?_getD, List.getElem?_set_self (by
        rw [h.length]; exact he), Option.getD_some, hcount]
      exact ⟨rfl, rfl⟩
    · rw [if_neg heq, if_neg (Ne.symm heq), List.getD_eq_getElem?_getD,
        List.getElem?_set_ne (Ne.symm heq), ← List.getD_eq_getElem?_getD, hcount]
      exact ⟨rfl, rfl⟩

theorem handLink_delivers (hbudget : E .budgetExceeded) (hover : E .arithmeticOverflow)
    (hids : ∀ s ∈ supplies, ∀ t ∈ supplies, s.id = t.id → s = t)
    (hpositive : ∀ s ∈ supplies, 0 < s.units.val) {d : Nat} (hd : d < n)
    (hbit : mask.val.testBit d) (hmask : mask ∉ later) (bound remaining : Nat) (out : Handed)
    (counts : Nat → Nat) (h : Handing supplies n mask later out counts)
    (hbound : remaining ≤ bound) (extra : Nat) (hcovers : Covers out (remaining + extra)) :
    Delivers maxWork (handLink d bound remaining out) (fun out' =>
      Handing supplies n mask later out' (fun e => counts e + if e = d then remaining else 0) ∧
        Covers out' extra) E := by
  induction bound generalizing remaining out counts with
  | zero =>
      have hzero : remaining = 0 := by omega
      subst hzero
      refine .pure ⟨?_, by rwa [Nat.zero_add] at hcovers⟩
      simpa using h
  | succ bound ih =>
      unfold handLink
      by_cases hzero : remaining = 0
      · subst hzero
        rw [if_pos rfl]
        refine .pure ⟨?_, by rwa [Nat.zero_add] at hcovers⟩
        simpa using h
      · rw [if_neg hzero]
        refine .bind (charge_delivers hbudget) fun _ _ => ?_
        cases hmembers : out.members with
        | nil =>
            have hspent := h.spent hmembers
            unfold Covers at hcovers
            rw [hmembers, unitsOf_nil] at hcovers
            omega
        | cons s rest =>
            obtain ⟨-, hused, -⟩ := h.first s rest hmembers
            dsimp only
            refine .bind (.rejectIf fun _ => hbudget) fun _ hfine => ?_
            refine .bind (sum_delivers hover _ _) fun count hcount => ?_
            rw [hcount.1]
            have hsome : 0 < min remaining (s.units.val - out.used) := by omega
            have hgiven := h.give hids hpositive hmembers hd hbit hmask hsome
              (Nat.min_le_right _ _)
            refine (ih _ _ _ hgiven (by omega) ?_).conseq ?_ fun _ he => he
            · unfold Covers at hcovers ⊢
              rw [hmembers, unitsOf_cons] at hcovers
              dsimp only
              split_ifs with hfull
              · omega
              · rw [unitsOf_cons]
                omega
            · rintro out' ⟨hhanding, hcovers'⟩
              refine ⟨?_, hcovers'⟩
              have hsum : (fun e => counts e + (if e = d then min remaining (s.units.val - out.used)
                  else 0) + if e = d then remaining - min remaining (s.units.val - out.used) else 0) =
                  fun e => counts e + if e = d then remaining else 0 := by
                funext e
                by_cases heq : e = d
                · simp only [if_pos heq]
                  omega
                · simp only [if_neg heq, Nat.add_zero]
              rwa [hsum] at hhanding

theorem handLinks_delivers (hbudget : E .budgetExceeded) (hover : E .arithmeticOverflow)
    (hids : ∀ s ∈ supplies, ∀ t ∈ supplies, s.id = t.id → s = t)
    (hpositive : ∀ s ∈ supplies, 0 < s.units.val) (hmask : mask ∉ later) {graph : Graph Nat}
    {node : Nat} (x : Nat → Nat) (links : List (Nat × Nat)) (out : Handed) (counts : Nat → Nat)
    (hlinks : ∀ p ∈ links, p.1 < n ∧ mask.val.testBit p.1 ∧
      ∃ e, (graph.edges node)[p.2]? = some e ∧ e.mark - e.remaining = x p.1)
    (h : Handing supplies n mask later out counts)
    (hcovers : Covers out ((links.map Prod.fst).map x).sum) :
    Delivers maxWork (handLinks graph node links out) (fun out' =>
      Handing supplies n mask later out' (fun e => counts e +
        ((links.map Prod.fst).map fun d => if e = d then x d else 0).sum)) E := by
  induction links generalizing out counts with
  | nil => exact .pure (by simpa using h)
  | cons p rest ih =>
      obtain ⟨d, index⟩ := p
      obtain ⟨hd, hbit, e, hentry, hamount⟩ := hlinks (d, index) (List.mem_cons_self ..)
      rw [handLinks]
      simp only [hentry]
      rw [List.map_cons, List.map_cons, List.sum_cons, ← hamount] at hcovers
      refine .bind (handLink_delivers hbudget hover hids hpositive hd hbit hmask _ _ out counts h
        le_rfl _ hcovers) fun out' hout => ?_
      refine (ih out' _ (fun p hp => hlinks p (List.mem_cons_of_mem _ hp)) hout.1 hout.2).conseq
        ?_ fun _ he => he
      intro out'' hout'
      have hsum : (fun c => counts c + (if c = d then e.mark - e.remaining else 0) +
          ((rest.map Prod.fst).map fun d => if c = d then x d else 0).sum) = fun c => counts c +
            ((((d, index) :: rest).map Prod.fst).map fun d => if c = d then x d else 0).sum := by
        funext c
        rw [List.map_cons, List.map_cons, List.sum_cons, hamount, Nat.add_assoc]
      rwa [hsum] at hout'

end Expanding

section Groups

variable {E : AllocationError → Prop} {supplies : List Supply} {groups : List Group}
  {demands : List Demand} {requested : Nat} {f : Nat → Nat → Nat} {filled : Filled}
  {n : Nat} {mask : U 32} {later : List (U 32)} {out : Handed} {counts counts' : Nat → Nat}

theorem Handing.congr (h : Handing supplies n mask later out counts)
    (heq : ∀ d < n, counts d = counts' d) : Handing supplies n mask later out counts' :=
  { h with
    counts := fun d hd => by
      rw [← heq d hd]
      exact h.counts d hd }

/-- The next group begins with all of its members. -/
theorem Handing.next {g : Group} (h : Handing supplies n mask (g.mask :: later) out counts)
    (hmembers : g.members = membersOf supplies g.mask) (hnodup : supplies.Nodup)
    (hpositive : ∀ s ∈ supplies, 0 < s.units.val) :
    Handing supplies n g.mask later { out with members := g.members, used := 0 } counts := by
  have hmember : ∀ s ∈ g.members, s ∈ supplies ∧ s.eligible = g.mask := by
    intro s hs
    rw [hmembers] at hs
    exact ⟨List.mem_of_mem_filter hs, by simpa using List.of_mem_filter hs⟩
  have hfresh : ∀ s ∈ g.members, suppliedBy out.assignments s.id = 0 := by
    intro s hs
    refine h.untouched s (hmember s hs).1 ?_
    rw [(hmember s hs).2]
    exact List.mem_cons_self ..
  exact
    { positive := h.positive
      eligible := h.eligible
      within := h.within
      member := hmember
      nodup := by
        dsimp only
        rw [hmembers]
        exact hnodup.filter _
      first := by
        intro s rest heq
        dsimp only at heq ⊢
        have hs : s ∈ g.members := heq ▸ List.mem_cons_self ..
        exact ⟨hfresh s hs, hpositive s (hmember s hs).1, fun t ht =>
          hfresh t (heq ▸ List.mem_cons_of_mem _ ht)⟩
      spent := fun _ => rfl
      untouched := fun s hs hlater => h.untouched s hs (List.mem_cons_of_mem _ hlater)
      length := h.length
      counts := h.counts }

/-- A link carries what its entry has lost. -/
theorem Filling.carried (h : Filling groups demands requested filled f) {i d index : Nat}
    (hplace : Places groups requested (arcs groups demands requested) i d index) :
    ∃ e, (filled.graph.edges (i + 1))[index]? = some e ∧
      e.mark - e.remaining = on f (linkArc groups requested i d) := by
  obtain ⟨P, Q, harcs, rfl⟩ := hplace
  have hmem : linkArc groups requested i d ∈ arcs groups demands requested := by
    rw [harcs]
    exact List.mem_append_right _ (List.mem_cons_self ..)
  have hcap := h.carries.capacity _ hmem
  have hrep := h.represents
  rw [harcs] at hrep
  refine ⟨_, hrep.at_split (by rw [copyAt, if_pos (by rfl)]), ?_⟩
  dsimp only
  omega

/-- A sum over the demands a group admits. -/
theorem sum_admitted (i : Nat) (ψ : Nat → Nat) :
    (((List.range demands.length).filter (admits groups i)).map ψ).sum =
      ∑ d ∈ Finset.range demands.length, if admits groups i d then ψ d else 0 := by
  have hlist : (((List.range demands.length).filter (admits groups i)).map ψ).sum =
      ((List.range demands.length).map fun d => if admits groups i d then ψ d else 0).sum := by
    rw [List.sum_map_ite]
    simp
  rw [hlist]
  rfl

/-- **The groups hand out what they send.** -/
theorem handGroups_delivers (hbudget : E .budgetExceeded) (hover : E .arithmeticOverflow)
    (h : Filling groups demands requested filled f) (hgroups : Grouping supplies groups)
    (hids : ∀ s ∈ supplies, ∀ t ∈ supplies, s.id = t.id → s = t) (hnodup : supplies.Nodup)
    (hpositive : ∀ s ∈ supplies, 0 < s.units.val) (i : Nat)
    (l : List (Group × List (Nat × Nat))) (mask : U 32) (out : Handed) (counts : Nat → Nat)
    (hl : ∀ j p, l[j]? = some p → groups[i + j]? = some p.1 ∧
      Linked groups requested (arcs groups demands requested) (i + j)
        ((List.range demands.length).filter (admits groups (i + j))) p.2)
    (hmasks : (l.map fun p => p.1.mask).Nodup)
    (hout : Handing supplies demands.length mask (l.map fun p => p.1.mask) out counts) :
    Delivers maxWork (handGroups filled.graph i l out) (fun out' => ∃ mask,
      Handing supplies demands.length mask [] out' (fun d => counts d +
        ((List.range' i l.length).map fun j => moved groups requested f j d).sum)) E := by
  induction l generalizing i mask out counts with
  | nil => exact .pure ⟨mask, by simpa using hout⟩
  | cons p rest ih =>
      obtain ⟨g, links⟩ := p
      obtain ⟨hg, hfst, hplaces⟩ := hl 0 (g, links) rfl
      rw [Nat.add_zero] at hg hfst hplaces
      dsimp only at hg hfst hplaces
      have hgmem : g ∈ groups := List.mem_of_getElem? hg
      have hi : i < groups.length := (List.getElem?_eq_some_iff.mp hg).1
      rw [List.map_cons, List.nodup_cons] at hmasks
      have hnext := hout.next (hgroups.members g hgmem) hnodup hpositive
      -- What the group sends is what it gets, so its members suffice.
      have hsent : ((links.map Prod.fst).map fun d => on f (linkArc groups requested i d)).sum ≤
          unitsOf g.members := by
        rw [hfst, sum_admitted, ← hgroups.units g hgmem]
        have hbalance := group_balance h.carries hi
        have hcap := h.carries.capacity _ (mem_arcs.mpr (.inl ⟨i, hi, rfl⟩))
        have hunits : (supplyArc groups i).capacity = g.units := by
          rw [supplyArc, groupUnits, hg, Option.elim_some]
        unfold moved at hbalance
        omega
      refine .bind (handLinks_delivers hbudget hover hids hpositive hmasks.1
        (fun d => on f (linkArc groups requested i d)) links _ counts ?_ hnext ?_)
        fun out' hout' => ?_
      · intro p hp
        have hmem : p.1 ∈ links.map Prod.fst := List.mem_map_of_mem hp
        rw [hfst, List.mem_filter, List.mem_range] at hmem
        exact ⟨hmem.1, (admits_iff hg).mp hmem.2, h.carried (hplaces p hp)⟩
      · unfold Covers
        dsimp only
        omega
      · have hstep : Handing supplies demands.length g.mask (rest.map fun p => p.1.mask) out'
            fun d => counts d + moved groups requested f i d := by
          refine hout'.congr fun d hd => ?_
          rw [hfst, sum_admitted]
          congr 1
          have hpick : ∀ e ∈ Finset.range demands.length, (if admits groups i e then
              if d = e then on f (linkArc groups requested i e) else 0 else 0) =
              if d = e then moved groups requested f i e else 0 := by
            intro e _
            unfold moved
            split_ifs <;> rfl
          rw [Finset.sum_congr rfl hpick, Finset.sum_ite_eq, if_pos (Finset.mem_range.mpr hd)]
        refine (ih (i + 1) g.mask out' _ (fun j p hp => ?_) hmasks.2 hstep).conseq ?_
          fun _ he => he
        · have := hl (j + 1) p hp
          rwa [show i + (j + 1) = i + 1 + j by omega] at this
        · rintro out'' ⟨mask', hdone⟩
          refine ⟨mask', hdone.congr fun d _ => ?_⟩
          rw [List.length_cons, List.range'_succ, List.map_cons, List.sum_cons, Nat.add_assoc]

theorem verifyTotals_delivers (hover : E .arithmeticOverflow) (d : Nat) (l : List Nat)
    (total : Nat) (hle : ∀ (j x : Nat), l[j]? = some x → x ≤ demandUnits demands (d + j)) :
    Delivers maxWork (verifyTotals demands d l total) (fun t => t = total + l.sum) E := by
  induction l generalizing d total with
  | nil => exact .pure rfl
  | cons units rest ih =>
      have hfirst := hle 0 units rfl
      rw [Nat.add_zero] at hfirst
      refine .bind (.rejectIf fun hbad => absurd hfirst (not_le.mpr hbad)) fun _ _ => ?_
      refine .bind (sum_delivers hover _ _) fun c hc => ?_
      refine (ih (d + 1) c fun j x hx => ?_).conseq ?_ fun _ he => he
      · have := hle (j + 1) x hx
        rwa [show d + (j + 1) = d + 1 + j by omega] at this
      · intro t ht
        rw [ht, hc.1, List.sum_cons, Nat.add_assoc]

end Groups

/-! ## The allocation -/

/-- The input is in the documented form: demands and supplies in order, within their limits. -/
def ValidInput (supplies : List Supply) (demands : List Demand) : Prop :=
  GoodDemands none demands ∧ GoodSupplies demands.length none supplies

/-- A result that is feasible and states its own totals, with the certificate that nothing does
better: a cut of the same capacity, and the deficient set behind it if something is missing. -/
structure Certified (supplies : List Supply) (demands : List Demand) (out : Allocation) : Prop where
  feasible : Feasible supplies demands out.assignments
  positive : ∀ a ∈ out.assignments, 0 < a.units
  byDemand : out.allocatedByDemand = (List.range demands.length).map (receivedBy out.assignments)
  requested : out.requestedUnits = (demands.map fun d => d.units.val).sum
  total : out.allocatedUnits = totalUnits out.assignments
  cut : out.cutCapacity = out.allocatedUnits
  reported : Reported supplies demands out.requestedUnits out.allocatedUnits out.shortage
  maximum : ∀ M, Feasible supplies demands M → totalUnits M ≤ out.allocatedUnits

section Solving

variable {E : AllocationError → Prop} {supplies : List Supply} {groups : List Group}
  {demands : List Demand} {requested : Nat} {f : Nat → Nat → Nat} {filled : Filled} {mask : U 32}
  {handed : Handed}

/-- A report bounds every feasible allocation. -/
theorem Reported.bound {short : Option Shortage} {allocated : Nat} {M : List Assignment}
    (hshort : Reported supplies demands requested allocated short)
    (hids : (supplies.map Supply.id).Nodup)
    (hrequested : requested = ∑ d ∈ Finset.range demands.length, demandUnits demands d)
    (hM : Feasible supplies demands M) : totalUnits M ≤ allocated := by
  cases short with
  | none =>
      have hle := hM.le_requested
      rw [← hrequested] at hle
      exact hle.trans_eq (Eq.symm hshort)
  | some s =>
      obtain ⟨hdeficient, hdeficit, hmissing⟩ := hshort
      have hbound := hdeficient.bound hids hM
      rw [← hrequested] at hbound
      omega

/-- The counts are what the demands take of the flow. -/
theorem Handing.counts_eq
    (h : Handing supplies demands.length mask [] handed fun d => on f (demandArc groups demands d)) :
    handed.counts = (List.range demands.length).map fun d => on f (demandArc groups demands d) := by
  refine List.ext_getElem (by rw [List.length_map, List.length_range, h.length]) ?_
  intro d hd _
  have hcount := (h.counts d (h.length ▸ hd)).1
  rw [List.getD_eq_getElem?_getD, List.getElem?_eq_getElem hd, Option.getD_some] at hcount
  rw [hcount, List.getElem_map, List.getElem_range]

/-- What was handed out is certified by the flow behind it. -/
theorem Handing.certified
    (h : Handing supplies demands.length mask [] handed fun d => on f (demandArc groups demands d))
    (hfilled : Filling groups demands requested filled f)
    (hids : (supplies.map Supply.id).Nodup)
    (hrequested : requested = (demands.map fun d => d.units.val).sum) {short : Option Shortage}
    (hshort : Reported supplies demands requested filled.allocated short) :
    Certified supplies demands
      { assignments := handed.assignments.mergeSort fun a b => a.key ≤ b.key
        allocatedByDemand := handed.counts
        requestedUnits := requested
        allocatedUnits := filled.allocated
        cutCapacity := filled.allocated
        shortage := short
        workUnits := 0 } := by
  have hperm := List.mergeSort_perm handed.assignments fun a b => decide (a.key ≤ b.key)
  have hreceived : ∀ d < demands.length,
      receivedBy (handed.assignments.mergeSort fun a b => decide (a.key ≤ b.key)) d =
        on f (demandArc groups demands d) := by
    intro d hd
    rw [receivedBy_perm hperm, (h.counts d hd).2]
  have hfeasible : Feasible supplies demands
      (handed.assignments.mergeSort fun a b => decide (a.key ≤ b.key)) :=
    { eligible := fun a ha => h.eligible a (hperm.mem_iff.mp ha)
      supply := fun s hs => by
        rw [suppliedBy_perm hperm]
        exact h.within s hs
      demand := fun d hd => by
        rw [hreceived d hd]
        exact taken_le hfilled.carries hd }
  have hsum : requested = ∑ d ∈ Finset.range demands.length, demandUnits demands d := by
    rw [hrequested]
    exact (sum_positions demands fun d => d.units.val).symm
  exact
    { feasible := hfeasible
      positive := fun a ha => h.positive a (hperm.mem_iff.mp ha)
      byDemand := by
        rw [h.counts_eq]
        exact List.map_congr_left fun d hd => (hreceived d (List.mem_range.mp hd)).symm
      requested := hrequested
      total := by
        have hvalue := sink_balance hfilled.carries
        rw [← hfeasible.sum_received, Finset.sum_congr rfl fun d hd =>
          hreceived d (Finset.mem_range.mp hd)]
        exact_mod_cast hvalue.symm
      cut := rfl
      reported := hshort
      maximum := fun M hM => hshort.bound hids hsum hM }

theorem solve_delivers (hbudget : E .budgetExceeded) (hover : E .arithmeticOverflow)
    (hinvalid : ¬ ValidInput supplies demands → E .invalidInput) :
    Delivers maxWork (solve supplies demands)
      (fun out => ValidInput supplies demands ∧ Certified supplies demands out) E := by
  unfold solve
  refine .bind (validateDemands_delivers hbudget hover none demands 0
    (fun hbad => hinvalid fun h => hbad h.1) (by norm_num)) fun requested hrequested => ?_
  obtain ⟨hgood, hrequested, -⟩ := hrequested
  rw [Nat.zero_add] at hrequested
  refine .bind (groupSupplies_delivers hbudget hover demands.length none supplies OMap.nil []
    (fun mask => rfl) fun hbad => hinvalid fun h => hbad h.2) fun grouped hgrouped => ?_
  obtain ⟨hsupplies, hgroups⟩ := hgrouped
  rw [List.nil_append] at hgroups
  have hgroups := hgroups.grouping
  dsimp only
  generalize grouped.toList.map (fun e => (⟨e.1, e.2.1, e.2.2⟩ : Group)) = groups at hgroups ⊢
  have hpositive := hsupplies.positive
  have hidsNodup : (supplies.map Supply.id).Nodup := by
    rw [List.Nodup, List.pairwise_map]
    exact hsupplies.sorted.2.imp ne_of_lt
  have hids : ∀ s ∈ supplies, ∀ t ∈ supplies, s.id = t.id → s = t := fun s hs t ht heq =>
    List.inj_on_of_nodup_map hidsNodup hs ht heq
  have hunits : ∀ g ∈ groups, 0 < g.units := by
    intro g hg
    obtain ⟨s, rest, hcons⟩ := List.exists_cons_of_ne_nil (hgroups.nonempty g hg)
    have hs : s ∈ membersOf supplies g.mask := by
      rw [← hgroups.members g hg, hcons]
      exact List.mem_cons_self ..
    have := hpositive s (List.mem_of_mem_filter hs)
    rw [hgroups.units g hg, hcons, unitsOf_cons]
    omega
  have hsum : requested = ∑ d ∈ Finset.range demands.length, demandUnits demands d := by
    rw [hrequested]
    exact (sum_positions demands fun d => d.units.val).symm
  refine build_delivers hbudget fun layout hlayout => ?_
  have hstart : Solving groups demands requested layout.graph still 0 :=
    ⟨hlayout.represents, ⟨fun _ _ => Nat.zero_le _, fun u => by simp [net, still, on, excess]⟩,
      hlayout.size⟩
  refine .bind (fill_delivers hbudget hover hsum _ _ 0 still hstart (by omega))
    fun filled hfilled => ?_
  obtain ⟨f, hfilled⟩ := hfilled
  refine .bind (cutCapacity_delivers hbudget hover _ _ _ _) fun cut hcut => ?_
  rw [Nat.zero_add, hfilled.cut_eq] at hcut
  refine .bind (.rejectIf fun hbad => absurd hcut hbad) fun _ _ => ?_
  refine .bind (shortage_delivers hbudget hover hfilled hgroups hunits hsum) fun short hshort => ?_
  have hinitial : Handing supplies demands.length ⟨0, by norm_num⟩
      ((groups.zip layout.links).map fun p => p.1.mask)
      ⟨[], List.replicate demands.length 0, [], 0⟩ fun _ => 0 :=
    { positive := by simp
      eligible := by simp
      within := by simp [suppliedBy]
      member := by simp
      nodup := List.nodup_nil
      first := by simp
      spent := fun _ => rfl
      untouched := by simp [suppliedBy]
      length := List.length_replicate
      counts := fun d hd => by simp [receivedBy, hd] }
  have hzip : (groups.zip layout.links).length = groups.length := by
    rw [List.length_zip, hlayout.length, Nat.min_self]
  have hmasks : ((groups.zip layout.links).map fun p => p.1.mask) = groups.map Group.mask := by
    have hfst : (groups.zip layout.links).map Prod.fst = groups :=
      List.map_fst_zip hlayout.length.ge
    calc (groups.zip layout.links).map (fun p => p.1.mask)
        = ((groups.zip layout.links).map Prod.fst).map Group.mask := by rw [List.map_map]; rfl
      _ = groups.map Group.mask := by rw [hfst]
  refine .bind (handGroups_delivers hbudget hover hfilled hgroups hids
    (List.Nodup.of_map _ hidsNodup) hpositive 0 _ _ _ _ (fun j p hp => ?_) (hmasks ▸
      hgroups.distinct) hinitial) fun handed hhanded => ?_
  · rw [Nat.zero_add]
    rw [List.getElem?_zip_eq_some] at hp
    exact ⟨hp.1, hlayout.linked j p.2 hp.2⟩
  obtain ⟨mask, hhanded⟩ := hhanded
  replace hhanded : Handing supplies demands.length mask [] handed fun d =>
      on f (demandArc groups demands d) := by
    refine hhanded.congr fun d hd => ?_
    rw [Nat.zero_add, hzip, ← List.range_eq_range', ← demand_balance hfilled.carries hd]
    rfl
  refine .bind (verifyTotals_delivers hover 0 _ 0 fun j x hx => ?_) fun total htotal => ?_
  · rw [hhanded.counts_eq, List.getElem?_map] at hx
    obtain ⟨d, hd, rfl⟩ := Option.map_eq_some_iff.mp hx
    obtain ⟨hlt, hget⟩ := List.getElem?_eq_some_iff.mp hd
    rw [List.getElem_range] at hget
    rw [List.length_range] at hlt
    subst hget
    rw [Nat.zero_add]
    exact taken_le hfilled.carries hlt
  · have hvalue : total = filled.allocated := by
      have hbalance := sink_balance hfilled.carries
      rw [htotal, Nat.zero_add, hhanded.counts_eq]
      exact_mod_cast hbalance
    refine .bind (.rejectIf fun hbad => absurd hvalue hbad) fun _ _ => .pure ⟨⟨hgood, hsupplies⟩, ?_⟩
    rw [hcut]
    exact hhanded.certified hfilled hidsNodup hrequested hshort

end Solving

end Dfmcp.InventoryAllocation
