import Dfmcp.Library.Breadth
import Dfmcp.World.InventoryAllocation

/-!
# The inventory solver never finds its network inconsistent

The solver keeps a flow on the network of groups and demands, and augments it along paths found by
breadth-first search. Each function has one specification over an arbitrary condition `E` on errors:
exceeded budgets and overflows are admitted, invalid input has to be shown invalid, and the internal
error never has to be admitted at all.

* `build_delivers` — the adjacency lists are those of the network `arcs`;
* `breadth_delivers`, `augment_delivers` — a path is found, and the bottleneck moved along it;
* `fill_delivers` — the rounds end with a flow and the closed set that certifies it (`Filling`);
* `cutCapacity_delivers` — the capacity read off the lists is that of the cut.
-/

namespace Dfmcp.InventoryAllocation

open Machine Flow Method

/-! ## Validation -/

/-- Every demand can follow the one before it. -/
def GoodDemands : Option Demand → List Demand → Prop
  | _, [] => True
  | previous, d :: rest => ¬ badDemand previous d ∧ GoodDemands (some d) rest

/-- Every supply can follow the one before it. -/
def GoodSupplies (demands : Nat) : Option Supply → List Supply → Prop
  | _, [] => True
  | previous, s :: rest => ¬ badSupply demands previous s ∧ GoodSupplies demands (some s) rest

theorem GoodSupplies.sorted {n : Nat} {previous : Option Supply} {supplies : List Supply}
    (h : GoodSupplies n previous supplies) : (∀ p ∈ previous, ∀ s ∈ supplies, p.id < s.id) ∧
      supplies.Pairwise fun s t => s.id < t.id := by
  induction supplies generalizing previous with
  | nil => simp
  | cons s rest ih =>
      obtain ⟨hhead, hrest⟩ := ih h.2
      have hafter : ∀ t ∈ rest, s.id < t.id := hhead s rfl
      refine ⟨?_, List.pairwise_cons.mpr ⟨hafter, hrest⟩⟩
      intro p hp t ht
      have hlt : p.id < s.id := by
        by_contra hge
        exact h.1 (.inr (.inr (.inr (.inr ⟨p, hp, not_lt.mp hge⟩))))
      rcases List.mem_cons.mp ht with rfl | ht
      · exact hlt
      · exact hlt.trans (hafter t ht)

theorem GoodSupplies.positive {n : Nat} {previous : Option Supply} {supplies : List Supply}
    (h : GoodSupplies n previous supplies) : ∀ s ∈ supplies, 0 < s.units.val := by
  induction supplies generalizing previous with
  | nil => simp
  | cons s rest ih =>
      intro t ht
      rcases List.mem_cons.mp ht with rfl | hrest
      · have hbad := h.1
        simp only [badSupply, not_or] at hbad
        exact Nat.pos_of_ne_zero hbad.2.1
      · exact ih h.2 t hrest

theorem sum_ok {a b c : Nat} (h : sum a b = .ok c) : c = a + b ∧ a + b < 2 ^ 64 := by
  unfold sum at h
  split_ifs at h with hlt
  exact ⟨(Except.ok.inj h).symm, hlt⟩

theorem sum_error {a b : Nat} {e : AllocationError} (h : sum a b = .error e) :
    e = .arithmeticOverflow := by
  unfold sum at h
  split_ifs at h
  exact (Except.error.inj h).symm

section Specifications

variable {E : AllocationError → Prop}

theorem charge_delivers (hbudget : E .budgetExceeded) :
    Delivers maxWork (charge 1) (fun _ => True) E :=
  .charge (by decide) hbudget

theorem sum_delivers (hover : E .arithmeticOverflow) (a b : Nat) :
    Delivers maxWork (of (sum a b)) (fun c => c = a + b ∧ a + b < 2 ^ 64) E :=
  .of (fun _ h => sum_ok h) fun _ h => sum_error h ▸ hover

theorem validateDemands_delivers (hbudget : E .budgetExceeded) (hover : E .arithmeticOverflow)
    (previous : Option Demand) (l : List Demand) (requested : Nat)
    (hinvalid : ¬ GoodDemands previous l → E .invalidInput) (hsmall : requested < 2 ^ 64) :
    Delivers maxWork (validateDemands previous l requested) (fun r => GoodDemands previous l ∧
      r = requested + (l.map fun d => d.units.val).sum ∧ r < 2 ^ 64) E := by
  induction l generalizing previous requested with
  | nil => exact .pure ⟨trivial, rfl, hsmall⟩
  | cons d rest ih =>
      refine .bind (charge_delivers hbudget) fun _ _ => ?_
      refine .bind (.rejectIf fun hbad => hinvalid fun hgood => hgood.1 hbad) fun _ hgood => ?_
      refine .bind (sum_delivers hover _ _) fun total htotal => ?_
      obtain ⟨rfl, hfits⟩ := htotal
      refine (ih (some d) _ (fun hbad => hinvalid fun h => hbad h.2) hfits).conseq ?_
        fun _ he => he
      intro r hr
      exact ⟨⟨hgood, hr.1⟩, by rw [hr.2.1]; simp [Nat.add_assoc], hr.2.2⟩

/-! ## Grouping -/

/-- The supplies of a mask, and their units. -/
def membersOf (supplies : List Supply) (mask : U 32) : List Supply :=
  supplies.filter fun s => s.eligible = mask

def unitsOf (supplies : List Supply) : Nat := (supplies.map fun s => s.units.val).sum

@[simp] theorem unitsOf_nil : unitsOf [] = 0 := rfl

@[simp] theorem unitsOf_cons (s : Supply) (l : List Supply) :
    unitsOf (s :: l) = s.units.val + unitsOf l := by
  simp [unitsOf]

theorem unitsOf_append (l l' : List Supply) : unitsOf (l ++ l') = unitsOf l + unitsOf l' := by
  simp [unitsOf]

theorem unitsOf_members_cons (s : Supply) (rest : List Supply) (mask : U 32) :
    unitsOf (membersOf (s :: rest) mask) =
      (if s.eligible = mask then s.units.val else 0) + unitsOf (membersOf rest mask) := by
  unfold membersOf
  by_cases hmask : s.eligible = mask
  · rw [List.filter_cons_of_pos (by simpa using hmask), unitsOf_cons, if_pos hmask]
  · rw [List.filter_cons_of_neg (by simpa using hmask), if_neg hmask, Nat.zero_add]

/-- The supplies seen so far, by mask. -/
def Groups (seen : List Supply) (grouped : Grouped) : Prop :=
  ∀ mask, grouped.get? mask = if membersOf seen mask = [] then none
    else some (unitsOf (membersOf seen mask), membersOf seen mask)

theorem Groups.entry {seen : List Supply} {grouped : Grouped} (h : Groups seen grouped)
    (mask : U 32) : (grouped.get? mask).getD (0, []) =
      (unitsOf (membersOf seen mask), membersOf seen mask) := by
  rw [h mask]
  by_cases hnil : membersOf seen mask = []
  · rw [if_pos hnil, hnil]
    rfl
  · rw [if_neg hnil]
    rfl

theorem Groups.insert {seen : List Supply} {grouped : Grouped} (h : Groups seen grouped)
    (s : Supply) : Groups (seen ++ [s]) (grouped.insert s.eligible
      (unitsOf (membersOf seen s.eligible) + s.units.val, membersOf seen s.eligible ++ [s])) := by
  intro mask
  rw [OMap.get?_insert]
  have happend : membersOf (seen ++ [s]) mask =
      membersOf seen mask ++ if s.eligible = mask then [s] else [] := by
    simp only [membersOf, List.filter_append, List.filter_cons, List.filter_nil,
      decide_eq_true_eq]
  rw [happend]
  by_cases hmask : mask = s.eligible
  · subst hmask
    rw [if_pos rfl, if_pos rfl, if_neg (by simp), unitsOf_append, unitsOf_cons, unitsOf_nil,
      Nat.add_zero]
  · rw [if_neg hmask, if_neg (Ne.symm hmask), List.append_nil]
    exact h mask

theorem groupSupplies_delivers (hbudget : E .budgetExceeded) (hover : E .arithmeticOverflow)
    (n : Nat) (previous : Option Supply) (l : List Supply) (grouped : Grouped)
    (seen : List Supply) (h : Groups seen grouped)
    (hinvalid : ¬ GoodSupplies n previous l → E .invalidInput) :
    Delivers maxWork (groupSupplies n previous l grouped)
      (fun grouped => GoodSupplies n previous l ∧ Groups (seen ++ l) grouped) E := by
  induction l generalizing previous grouped seen with
  | nil => exact .pure ⟨trivial, by rwa [List.append_nil]⟩
  | cons s rest ih =>
      refine .bind (charge_delivers hbudget) fun _ _ => ?_
      refine .bind (.rejectIf fun hbad => hinvalid fun hgood => hgood.1 hbad) fun _ hgood => ?_
      refine .bind (.rejectIf fun _ => hbudget) fun _ _ => ?_
      rw [h.entry]
      refine .bind (sum_delivers hover _ _) fun total htotal => ?_
      rw [htotal.1]
      refine (ih (some s) _ _ (h.insert s) fun hbad => hinvalid fun h => hbad h.2).conseq ?_
        fun _ he => he
      rintro grouped' ⟨hrest, hgroups⟩
      refine ⟨⟨hgood, hrest⟩, ?_⟩
      rwa [List.append_assoc] at hgroups

end Specifications

/-- The groups of some supplies. -/
structure Grouping (supplies : List Supply) (groups : List Group) : Prop where
  members : ∀ g ∈ groups, g.members = membersOf supplies g.mask
  units : ∀ g ∈ groups, g.units = unitsOf g.members
  nonempty : ∀ g ∈ groups, g.members ≠ []
  distinct : (groups.map Group.mask).Nodup
  total : ∀ s ∈ supplies, s.eligible ∈ groups.map Group.mask

theorem Groups.grouping {supplies : List Supply} {grouped : Grouped}
    (h : Groups supplies grouped) :
    Grouping supplies (grouped.toList.map fun e => (⟨e.1, e.2.1, e.2.2⟩ : Group)) := by
  have hentry : ∀ e ∈ grouped.toList, membersOf supplies e.1 ≠ [] ∧
      e.2 = (unitsOf (membersOf supplies e.1), membersOf supplies e.1) := by
    intro e he
    have hget := (grouped.mem_toList_iff e.1 e.2).mp he
    rw [h e.1] at hget
    split_ifs at hget with hnil
    exact ⟨hnil, (Option.some.inj hget).symm⟩
  have hkeys : (grouped.toList.map fun e => (⟨e.1, e.2.1, e.2.2⟩ : Group)).map Group.mask =
      grouped.keys := by
    rw [List.map_map]
    rfl
  refine ⟨?_, ?_, ?_, ?_, ?_⟩
  · intro g hg
    obtain ⟨e, he, rfl⟩ := List.mem_map.mp hg
    show e.2.2 = _
    rw [(hentry e he).2]
  · intro g hg
    obtain ⟨e, he, rfl⟩ := List.mem_map.mp hg
    show e.2.1 = unitsOf e.2.2
    rw [(hentry e he).2]
  · intro g hg
    obtain ⟨e, he, rfl⟩ := List.mem_map.mp hg
    show e.2.2 ≠ []
    rw [(hentry e he).2]
    exact (hentry e he).1
  · rw [hkeys]
    exact grouped.keys_nodup
  · intro s hs
    rw [hkeys, OMap.mem_keys_iff, OMap.contains, h]
    have hmem : s ∈ membersOf supplies s.eligible := by simp [membersOf, hs]
    rw [if_neg (List.ne_nil_of_mem hmem)]
    rfl

/-- A sum over groups is one over supplies. -/
theorem Grouping.sum_units {supplies : List Supply} {groups : List Group}
    (h : Grouping supplies groups) (p : U 32 → Prop) [DecidablePred p] :
    (groups.map fun g => if p g.mask then g.units else 0).sum =
      (supplies.map fun s => if p s.eligible then s.units.val else 0).sum := by
  have hgroup : ∀ g ∈ groups, (if p g.mask then g.units else 0) =
      if p g.mask then unitsOf (membersOf supplies g.mask) else 0 := by
    intro g hg
    rw [h.units g hg, h.members g hg]
  rw [List.map_congr_left hgroup]
  have htotal := h.total
  clear hgroup
  generalize supplies = l at htotal ⊢
  induction l with
  | nil => simp [membersOf, unitsOf]
  | cons s rest ih =>
      have hsplit : ∀ g : Group, (if p g.mask then unitsOf (membersOf (s :: rest) g.mask) else 0) =
          (if s.eligible = g.mask then if p s.eligible then s.units.val else 0 else 0) +
            if p g.mask then unitsOf (membersOf rest g.mask) else 0 := by
        intro g
        rw [unitsOf_members_cons]
        by_cases hmask : s.eligible = g.mask
        · rw [if_pos hmask, if_pos hmask, hmask]
          by_cases hp : p g.mask
          · simp only [if_pos hp]
          · simp only [if_neg hp]
        · rw [if_neg hmask, if_neg hmask, Nat.zero_add, Nat.zero_add]
      simp only [hsplit, List.sum_map_add, List.map_cons, List.sum_cons]
      rw [ih fun t ht => htotal t (List.mem_cons_of_mem _ ht)]
      congr 1
      have hmap : (groups.map fun g =>
          if s.eligible = g.mask then if p s.eligible then s.units.val else 0 else 0) =
          (groups.map Group.mask).map fun m =>
            if s.eligible = m then if p s.eligible then s.units.val else 0 else 0 := by
        rw [List.map_map]
        rfl
      rw [hmap, List.sum_map_eq_nsmul_single s.eligible _ fun m hne _ => if_neg (Ne.symm hne),
        List.count_eq_one_of_mem h.distinct (htotal s (List.mem_cons_self ..)), one_smul,
        if_pos rfl]

/-! ## The network -/

section Network

variable (groups : List Group) (demands : List Demand) (requested : Nat)

def groupUnits (i : Nat) : Nat := (groups[i]?).elim 0 Group.units

def admits (i d : Nat) : Bool := (groups[i]?).elim false fun g => g.admits d

def demandUnits (d : Nat) : Nat := (demands[d]?).elim 0 fun d => d.units.val

def supplyArc (i : Nat) : Arc Unit := ⟨0, i + 1, groupUnits groups i, ⟨⟩⟩

def linkArc (i d : Nat) : Arc Unit := ⟨i + 1, 1 + groups.length + d, requested, ⟨⟩⟩

def demandArc (d : Nat) : Arc Unit :=
  ⟨1 + groups.length + d, 1 + groups.length + demands.length, demandUnits demands d, ⟨⟩⟩

/-- The arcs of one group, with its links to the demands it admits. -/
def groupArcs (i : Nat) : List (Arc Unit) :=
  supplyArc groups i ::
    ((List.range demands.length).filter (admits groups i)).map (linkArc groups requested i)

/-- The arcs of the network, in the order in which they are added. -/
def arcs : List (Arc Unit) :=
  (List.range groups.length).flatMap (groupArcs groups demands requested) ++
    (List.range demands.length).map (demandArc groups demands)

/-- The reverse copy of an arc has no capacity of its own. -/
def noMark (_ : Arc Unit) : Nat := 0

/-- Nothing flows. -/
def still (_ _ : Nat) : Nat := 0

/-- The entry `index` of the group's node is its link to the demand `d`. -/
def Places (A : List (Arc Unit)) (i d index : Nat) : Prop :=
  ∃ P Q, A = P ++ linkArc groups requested i d :: Q ∧ index = degree P (i + 1)

end Network

section Network

variable {groups : List Group} {demands : List Demand} {requested : Nat} {A : List (Arc Unit)}
  {f : Nat → Nat → Nat} {M : Type} [AddCommMonoid M]

theorem Places.append {i d index : Nat} (h : Places groups requested A i d index)
    (B : List (Arc Unit)) : Places groups requested (A ++ B) i d index := by
  obtain ⟨P, Q, rfl, hindex⟩ := h
  exact ⟨P, Q ++ B, by simp, hindex⟩

theorem mem_arcs {a : Arc Unit} : a ∈ arcs groups demands requested ↔
    (∃ i < groups.length, a = supplyArc groups i) ∨
    (∃ i < groups.length, ∃ d < demands.length, admits groups i d ∧
      a = linkArc groups requested i d) ∨
    ∃ d < demands.length, a = demandArc groups demands d := by
  simp only [arcs, groupArcs, List.mem_append, List.mem_flatMap, List.mem_range, List.mem_cons,
    List.mem_map, List.mem_filter]
  constructor
  · rintro (⟨i, hi, rfl | ⟨d, ⟨hd, hadmits⟩, rfl⟩⟩ | ⟨d, hd, rfl⟩)
    · exact .inl ⟨i, hi, rfl⟩
    · exact .inr (.inl ⟨i, hi, d, hd, hadmits, rfl⟩)
    · exact .inr (.inr ⟨d, hd, rfl⟩)
  · rintro (⟨i, hi, rfl⟩ | ⟨i, hi, d, hd, hadmits, rfl⟩ | ⟨d, hd, rfl⟩)
    · exact .inl ⟨i, hi, .inl rfl⟩
    · exact .inl ⟨i, hi, .inr ⟨d, ⟨hd, hadmits⟩, rfl⟩⟩
    · exact .inr ⟨d, hd, rfl⟩

theorem arcs_bounds : ∀ a ∈ arcs groups demands requested,
    a.tail < 1 + groups.length + demands.length + 1 ∧
      a.head < 1 + groups.length + demands.length + 1 := by
  intro a ha
  rcases mem_arcs.mp ha with ⟨i, hi, rfl⟩ | ⟨i, hi, d, hd, -, rfl⟩ | ⟨d, hd, rfl⟩
  · simp only [supplyArc]
    omega
  · simp only [linkArc]
    omega
  · simp only [demandArc]
    omega

/-- The ends of an arc tell which one it is. -/
theorem arcs_simple : Simple (arcs groups demands requested) where
  proper := by
    intro a ha
    rcases mem_arcs.mp ha with ⟨i, hi, rfl⟩ | ⟨i, hi, d, hd, -, rfl⟩ | ⟨d, hd, rfl⟩
    · simp only [supplyArc]
      omega
    · simp only [linkArc]
      omega
    · simp only [demandArc]
      omega
  distinct := by
    rw [arcs, List.map_append, List.map_flatMap, List.nodup_append]
    refine ⟨?_, ?_, ?_⟩
    · rw [List.nodup_flatMap]
      constructor
      · intro i hi
        have hlt := List.mem_range.mp hi
        rw [groupArcs, List.map_cons, List.nodup_cons]
        constructor
        · intro hmem
          simp only [List.map_map, List.mem_map, Function.comp_apply, linkArc, supplyArc,
            Prod.mk.injEq] at hmem
          obtain ⟨d, -, htail, -⟩ := hmem
          omega
        · rw [List.map_map]
          refine List.Nodup.map ?_ (List.nodup_range.filter _)
          intro d d' heq
          simp only [Function.comp_apply, linkArc, Prod.mk.injEq] at heq
          omega
      · refine List.Pairwise.imp_of_mem ?_ (List.nodup_range (n := groups.length))
        intro i j hi hj hne
        have hi' := List.mem_range.mp hi
        have hj' := List.mem_range.mp hj
        intro e hei hej
        simp only [groupArcs, List.map_cons, List.map_map, List.mem_cons, List.mem_map,
          Function.comp_apply, linkArc, supplyArc] at hei hej
        rcases hei with rfl | ⟨d, -, rfl⟩ <;> rcases hej with heq | ⟨d', -, heq⟩ <;>
          simp only [Prod.mk.injEq] at heq <;> omega
    · rw [List.map_map]
      refine List.Nodup.map ?_ List.nodup_range
      intro d d' heq
      simp only [Function.comp_apply, demandArc, Prod.mk.injEq] at heq
      omega
    · intro e he e' he' heq
      subst heq
      simp only [List.mem_flatMap, groupArcs, List.map_cons, List.map_map, List.mem_cons,
        List.mem_map, List.mem_range, Function.comp_apply, linkArc, supplyArc, demandArc] at he he'
      obtain ⟨d, hd, rfl⟩ := he'
      obtain ⟨i, hi, heq | ⟨d', -, heq⟩⟩ := he
      · simp only [Prod.mk.injEq] at heq
        omega
      · simp only [Prod.mk.injEq] at heq
        omega

/-- A sum over the network, layer by layer. -/
theorem sum_arcs (φ : Arc Unit → M) : ((arcs groups demands requested).map φ).sum =
    (∑ i ∈ Finset.range groups.length, (φ (supplyArc groups i) +
      ∑ d ∈ Finset.range demands.length,
        if admits groups i d then φ (linkArc groups requested i d) else 0)) +
    ∑ d ∈ Finset.range demands.length, φ (demandArc groups demands d) := by
  have hrange : ∀ (n : ℕ) (ψ : ℕ → M), ((List.range n).map ψ).sum = ∑ i ∈ Finset.range n, ψ i :=
    fun _ _ => rfl
  have hfilter : ∀ (i : ℕ) (l : List ℕ), ((l.filter (admits groups i)).map
      (φ ∘ linkArc groups requested i)).sum =
        (l.map fun d => if admits groups i d then φ (linkArc groups requested i d) else 0).sum := by
    intro i l
    rw [List.sum_map_ite]
    simp [Function.comp_def]
  rw [arcs, List.map_append, List.sum_append, List.map_flatMap, List.flatMap_def, List.sum_flatten,
    List.map_map, List.map_map, hrange, hrange]
  congr 1
  refine Finset.sum_congr rfl fun i _ => ?_
  rw [Function.comp_apply, groupArcs, List.map_cons, List.sum_cons, List.map_map, hfilter, hrange]

end Network

/-! ## Building -/

section Building

variable {E : AllocationError → Prop} {groups : List Group} {demands : List Demand}
  {requested : Nat} {A : List (Arc Unit)}

/-- The links of a group, with where they are. -/
def Linked (groups : List Group) (requested : Nat) (A : List (Arc Unit)) (i : Nat) (l : List Nat)
    (links : List (Nat × Nat)) : Prop :=
  links.map Prod.fst = l ∧ ∀ p ∈ links, Places groups requested A i p.1 p.2

theorem linkGroup_delivers (hbudget : E .budgetExceeded) {i : Nat} {g : Group}
    (hg : groups[i]? = some g) (rest l : List Nat) (links : List (Nat × Nat)) (out : Layout)
    (A : List (Arc Unit)) (hgraph : Represents Arc.capacity noMark out.graph A still)
    (hlinks : Linked groups requested A i l links) :
    Delivers maxWork (linkGroup g (i + 1) (1 + groups.length) requested rest links out)
      (fun p => Represents Arc.capacity noMark p.2.graph
          (A ++ (rest.filter (admits groups i)).map (linkArc groups requested i)) still ∧
        Linked groups requested
          (A ++ (rest.filter (admits groups i)).map (linkArc groups requested i)) i
          (l ++ rest.filter (admits groups i)) p.1 ∧
        p.2.graph.size = out.graph.size ∧ p.2.links = out.links) E := by
  induction rest generalizing l links out A with
  | nil => exact .pure ⟨by simpa using hgraph, by simpa using hlinks, rfl, rfl⟩
  | cons d rest ih =>
      have hadmits : admits groups i d = g.admits d := by rw [admits, hg, Option.elim_some]
      refine .bind (charge_delivers hbudget) fun _ _ => ?_
      refine .ite (fun hd => ?_) fun hd => ?_
      · refine .bind (.rejectIf fun _ => hbudget) fun _ _ => ?_
        have hnext := hgraph.link (a := linkArc groups requested i d)
          (by simp only [linkArc]; have := (List.getElem?_eq_some_iff.mp hg).1; omega) rfl
        rw [List.filter_cons_of_pos (by rw [hadmits]; exact hd), List.map_cons]
        have hplaced : Linked groups requested (A ++ [linkArc groups requested i d]) i (l ++ [d])
            (links ++ [(d, (out.graph.edges (i + 1)).length)]) := by
          refine ⟨by simp [hlinks.1], ?_⟩
          intro p hp
          rcases List.mem_append.mp hp with hold | hnew
          · exact (hlinks.2 p hold).append _
          · rw [List.mem_singleton] at hnew
            subst hnew
            exact ⟨A, [], rfl, hgraph.length _⟩
        refine (ih (l ++ [d]) _ _ _ hnext hplaced).conseq ?_ fun _ he => he
        rintro p ⟨hrep, hlinked, hsize, hsame⟩
        rw [List.append_assoc] at hrep hlinked
        rw [List.append_assoc] at hlinked
        exact ⟨hrep, hlinked, hsize, hsame⟩
      · rw [List.filter_cons_of_neg (by rw [hadmits]; exact hd)]
        exact ih l links out A hgraph hlinks

/-- The links of all groups so far. -/
def AllLinked (groups : List Group) (demands : List Demand) (requested : Nat) (A : List (Arc Unit))
    (links : List (List (Nat × Nat))) : Prop :=
  ∀ (i : Nat) (l : List (Nat × Nat)), links[i]? = some l →
    Linked groups requested A i ((List.range demands.length).filter (admits groups i)) l

theorem AllLinked.append {links : List (List (Nat × Nat))}
    (h : AllLinked groups demands requested A links) (B : List (Arc Unit)) :
    AllLinked groups demands requested (A ++ B) links :=
  fun i l hl => ⟨(h i l hl).1, fun p hp => ((h i l hl).2 p hp).append B⟩

theorem linkGroups_delivers (hbudget : E .budgetExceeded) (n : Nat) (l : List Group)
    (out : Layout) (A : List (Arc Unit)) (hl : ∀ i, groups[n + i]? = l[i]?)
    (hlinks : out.links.length = n)
    (hgraph : Represents Arc.capacity noMark out.graph A still)
    (hplaced : AllLinked groups demands requested A out.links) :
    Delivers maxWork (linkGroups demands.length (1 + groups.length) requested n l out)
      (fun out' => Represents Arc.capacity noMark out'.graph
          (A ++ (List.range' n l.length).flatMap (groupArcs groups demands requested)) still ∧
        out'.links.length = n + l.length ∧
        AllLinked groups demands requested
          (A ++ (List.range' n l.length).flatMap (groupArcs groups demands requested)) out'.links ∧
        out'.graph.size = out.graph.size) E := by
  induction l generalizing n out A with
  | nil => exact .pure ⟨by simpa using hgraph, hlinks, by simpa using hplaced, rfl⟩
  | cons g rest ih =>
      have hg : groups[n]? = some g := by simpa using hl 0
      have hunits : groupUnits groups n = g.units := by rw [groupUnits, hg, Option.elim_some]
      refine .bind (charge_delivers hbudget) fun _ _ => ?_
      have hsupply := hgraph.link (a := supplyArc groups n)
        (by simp only [supplyArc]; omega) rfl
      simp only [supplyArc, hunits] at hsupply
      refine .bind (linkGroup_delivers hbudget hg (List.range demands.length) [] [] _ _ hsupply
        ⟨rfl, by simp⟩) fun p hp => ?_
      obtain ⟨hrep, hlinked, hsize, hsame⟩ := hp
      replace hsame : p.2.links = out.links := hsame
      have harcs : A ++ [⟨0, n + 1, g.units, ⟨⟩⟩] ++ ((List.range demands.length).filter
          (admits groups n)).map (linkArc groups requested n) =
            A ++ groupArcs groups demands requested n := by
        rw [groupArcs, supplyArc, hunits, List.append_assoc]
        rfl
      rw [harcs] at hrep hlinked
      refine (ih (n + 1) { p.2 with links := p.2.links ++ [p.1] } _ (fun i => ?_) ?_ hrep
        ?_).conseq ?_ fun _ he => he
      · rw [Nat.add_assoc, Nat.add_comm 1 i, hl (i + 1)]
        rfl
      · simp [hsame, hlinks]
      · intro i links hi
        rw [hsame] at hi
        rcases Nat.lt_or_ge i n with hlt | hge
        · rw [List.getElem?_append_left (by omega)] at hi
          exact hplaced.append _ i links hi
        · rw [List.getElem?_append_right (by omega), List.getElem?_singleton] at hi
          split_ifs at hi with hzero
          have hin : i = n := by omega
          subst hin
          rw [← Option.some.inj hi]
          exact hlinked
      · intro out' hout
        rw [List.length_cons, List.range'_succ, List.flatMap_cons, ← List.append_assoc]
        refine ⟨hout.1, by omega, hout.2.2.1, hout.2.2.2.trans hsize⟩

theorem linkDemands_delivers (hbudget : E .budgetExceeded) (n : Nat) (l : List Demand)
    (out : Layout) (A : List (Arc Unit)) (hl : ∀ i, demands[n + i]? = l[i]?)
    (hlen : n + l.length = demands.length)
    (hgraph : Represents Arc.capacity noMark out.graph A still) :
    Delivers maxWork (linkDemands (1 + groups.length) (1 + groups.length + demands.length) n l out)
      (fun out' => Represents Arc.capacity noMark out'.graph
          (A ++ (List.range' n l.length).map (demandArc groups demands)) still ∧
        out'.links = out.links ∧ out'.graph.size = out.graph.size) E := by
  induction l generalizing n out A with
  | nil => exact .pure ⟨by simpa using hgraph, rfl, rfl⟩
  | cons d rest ih =>
      have hd : demands[n]? = some d := by simpa using hl 0
      have hunits : demandUnits demands n = d.units.val := by
        rw [demandUnits, hd, Option.elim_some]
      rw [List.length_cons] at hlen
      refine .bind (.rejectIf fun _ => hbudget) fun _ _ => ?_
      have hlink := hgraph.link (a := demandArc groups demands n)
        (by simp only [demandArc]; omega) rfl
      simp only [demandArc, hunits] at hlink
      refine (ih (n + 1) _ _ (fun i => ?_) (by omega) hlink).conseq ?_ fun _ he => he
      · rw [Nat.add_assoc, Nat.add_comm 1 i, hl (i + 1)]
        rfl
      · rintro out' ⟨hrep, hlinks, hsize⟩
        refine ⟨?_, hlinks, hsize⟩
        rw [List.append_assoc] at hrep
        rw [List.length_cons, List.range'_succ, List.map_cons, demandArc, hunits]
        exact hrep

/-- The network is laid out, and every link is where its group says. -/
structure Laid (groups : List Group) (demands : List Demand) (requested : Nat) (out : Layout) :
    Prop where
  represents : Represents Arc.capacity noMark out.graph (arcs groups demands requested) still
  linked : AllLinked groups demands requested (arcs groups demands requested) out.links
  length : out.links.length = groups.length
  size : out.graph.size = 1 + groups.length + demands.length + 1

/-- **The adjacency lists are those of the network.** -/
theorem build_delivers (hbudget : E .budgetExceeded) {α : Type} {Q : α → Prop}
    {next : Layout → Solve α}
    (hnext : ∀ layout, Laid groups demands requested layout → Delivers maxWork (next layout) Q E) :
    Delivers maxWork (do
      let layout ← linkGroups demands.length (1 + groups.length) requested 0 groups
        ⟨Graph.empty Nat (1 + groups.length + demands.length + 1), [], 0⟩
      let layout ← linkDemands (1 + groups.length) (1 + groups.length + demands.length) 0 demands
        layout
      next layout) Q E := by
  refine .bind (@linkGroups_delivers _ _ demands _ hbudget 0 groups _ [] (fun i => by
    rw [Nat.zero_add]) rfl (represents_empty _) (fun i l hl => by simp at hl)) fun layout hlayout => ?_
  obtain ⟨hrep, hlength, hlinked, hsize⟩ := hlayout
  refine .bind (linkDemands_delivers hbudget 0 demands layout _ (fun i => by rw [Nat.zero_add])
    (Nat.zero_add _) hrep) fun out hout => hnext out ?_
  obtain ⟨hrep', hlinks, hsize'⟩ := hout
  rw [List.nil_append, ← List.range_eq_range', ← List.range_eq_range'] at hrep'
  rw [List.nil_append, ← List.range_eq_range'] at hlinked
  refine ⟨hrep', ?_, by rw [hlinks, hlength, Nat.zero_add], hsize'.trans hsize⟩
  rw [hlinks]
  exact hlinked.append _

end Building

/-! ## Augmenting paths -/

section Searching

variable {E : AllocationError → Prop} {graph : Graph Nat} {A : List (Arc Unit)}
  {f : Nat → Nat → Nat} {parents : Nat → Option (Nat × Nat)} {rank : Nat → Nat} {sink : Nat}

theorem discover_delivers (hbudget : E .budgetExceeded) {node : Nat} {visited : List Nat}
    (hnode : node ∈ visited) (index : Nat) (rest : List (Edge Nat))
    (out : (Nat → Option (Nat × Nat)) × List Nat)
    (hrest : ∀ i, (graph.edges node)[index + i]? = rest[i]?)
    (h : Explored graph.step out.1 visited out.2
      fun x j => x ∈ visited ∧ (x = node → j < index)) :
    Delivers maxWork (discover node index rest out)
      (fun out => Explored graph.step out.1 visited out.2 fun x _ => x ∈ visited) E := by
  induction rest generalizing index out with
  | nil =>
      refine .pure (h.restate fun x j hx => ⟨hx, ?_⟩)
      by_cases hbefore : x = node → j < index
      · exact .inl ⟨hx, hbefore⟩
      · right
        simp only [Classical.not_imp, not_lt] at hbefore
        have hnone := hrest (j - index)
        rw [show index + (j - index) = j by omega, ← hbefore.1, List.getElem?_nil] at hnone
        rw [Graph.step, hnone]
  | cons arc rest ih =>
      have hentry : (graph.edges node)[index]? = some arc := by simpa using hrest 0
      have hnext : ∀ i, (graph.edges node)[index + 1 + i]? = rest[i]? := fun i => by
        rw [Nat.add_assoc, Nat.add_comm 1 i, hrest (i + 1)]
        rfl
      have hdone : ∀ x j, (x ∈ visited ∧ (x = node → j < index + 1)) →
          (x ∈ visited ∧ (x = node → j < index)) ∨ (x = node ∧ j = index) := by
        intro x j hx
        by_cases heq : x = node
        · have := hx.2 heq
          by_cases hj : j = index
          · exact .inr ⟨heq, hj⟩
          · exact .inl ⟨hx.1, fun _ => by omega⟩
        · exact .inl ⟨hx.1, fun h => absurd h heq⟩
      refine .bind (charge_delivers hbudget) fun _ _ => ?_
      refine .ite (fun hnew => ?_) fun hold => ?_
      · have hstep : graph.step node index = some arc.target := by
          rw [Graph.step_eq hentry, if_pos hnew.1]
        exact ih (index + 1) _ hnext (h.offer hnode hstep hnew.2 hdone)
      · refine ih (index + 1) out hnext (h.skip hnode (fun v hstep hv => ?_) hdone)
        rw [Graph.step_eq hentry] at hstep
        split_ifs at hstep with hroom
        exact hold ⟨hroom, Option.some.inj hstep ▸ hv⟩

theorem breadth_delivers (hbudget : E .budgetExceeded) (hpos : 0 < graph.size)
    (htarget : ∀ u i v, graph.step u i = some v → v < graph.size) (bound : Nat)
    (parents : Nat → Option (Nat × Nat)) (visited queue : List Nat)
    (h : Explored graph.step parents visited queue fun x _ => x ∈ visited)
    (hbound : visited.length + bound = graph.size + 1) :
    Delivers maxWork (breadth graph sink bound parents queue) (fun parents =>
      ∃ visited queue, Explored graph.step parents visited queue (fun x _ => x ∈ visited) ∧
        (parents sink = none → queue = [])) E := by
  induction bound generalizing parents visited queue with
  | zero =>
      have hlength := h.length_le hpos htarget
      rw [List.length_append] at hlength
      omega
  | succ bound ih =>
      cases queue with
      | nil => exact .pure ⟨visited, [], h, fun _ => rfl⟩
      | cons node queue =>
          refine .bind (charge_delivers hbudget) fun _ _ => ?_
          have hfresh : Explored graph.step parents (visited ++ [node]) queue
              fun x j => x ∈ visited ++ [node] ∧ (x = node → j < 0) := by
            refine h.pop.restate fun x j hx => ⟨hx.1, .inl ?_⟩
            rcases List.mem_append.mp hx.1 with hold | hnew
            · exact hold
            · exact absurd (hx.2 (List.mem_singleton.mp hnew)) (Nat.not_lt_zero j)
          refine .bind (discover_delivers hbudget (by simp) 0 _ _ (fun i => by
            rw [Nat.zero_add]) hfresh) fun out hout => ?_
          refine .ite (fun hsink => ?_) fun _ => ?_
          · exact .pure ⟨_, _, hout, fun hnone => absurd hnone hsink⟩
          · refine ih _ _ _ hout ?_
            rw [List.length_append, List.length_singleton]
            omega

theorem bottleneck_delivers (hbudget : E .budgetExceeded) (bound node amount : Nat)
    (hroute : Route graph parents rank (fun _ e => 0 < e.remaining) node)
    (hbound : rank node ≤ bound) (hpos : 0 < amount) :
    Delivers maxWork (bottleneck parents graph bound node amount) (fun a => 0 < a ∧ a ≤ amount ∧
      Route graph parents rank (fun _ e => a ≤ e.remaining) node) E := by
  induction bound generalizing node amount with
  | zero =>
      cases hroute with
      | source => exact .pure ⟨hpos, le_rfl, .source⟩
      | step _ _ _ _ _ hrank => omega
  | succ bound ih =>
      cases hroute with
      | source =>
          unfold bottleneck
          rw [if_pos rfl]
          exact .pure ⟨hpos, le_rfl, .source⟩
      | @step previous _ index edge hnode hparent hentry htarget hok hrank hrest =>
          unfold bottleneck
          rw [if_neg hnode]
          refine .bind (charge_delivers hbudget) fun _ _ => ?_
          simp only [hparent, hentry]
          refine (ih previous _ hrest (by omega) (by omega)).conseq ?_ fun _ he => he
          rintro a ⟨hapos, hle, hroute'⟩
          exact ⟨hapos, by omega, .step hnode hparent hentry htarget (by omega) hrank hroute'⟩

/-- The bottleneck is moved from the source to a node and on to the sink. -/
theorem augment_delivers (hbudget : E .budgetExceeded) (hover : E .arithmeticOverflow)
    (hsimple : Simple A) {k : ℤ} {amount : Nat} (bound node : Nat) (graph : Graph Nat)
    (f : Nat → Nat → Nat) (hgraph : Represents Arc.capacity noMark graph A f)
    (hflow : ∀ a ∈ A, on f a ≤ a.capacity)
    (hnet : ∀ u, net A f u = excess 0 sink k u + excess node sink amount u)
    (hroute : Route graph parents rank (fun _ e => amount ≤ e.remaining) node)
    (hbound : rank node ≤ bound) :
    Delivers maxWork (augment parents amount bound node graph) (fun graph' => ∃ f',
      Represents Arc.capacity noMark graph' A f' ∧ Carries A f' 0 sink (k + amount) ∧
        graph'.size = graph.size) E := by
  have hend : node = 0 → Carries A f 0 sink (k + amount) := by
    intro hzero
    subst hzero
    refine ⟨hflow, fun u => ?_⟩
    rw [hnet, excess, excess, excess]
    ring
  induction bound generalizing node graph f with
  | zero =>
      cases hroute with
      | source => exact .pure ⟨f, hgraph, hend rfl, rfl⟩
      | step _ _ _ _ _ hrank => omega
  | succ bound ih =>
      cases hroute with
      | source =>
          unfold augment
          rw [if_pos rfl]
          exact .pure ⟨f, hgraph, hend rfl, rfl⟩
      | @step previous _ index edge hnode hparent hentry htarget hroom hrank hrest =>
          unfold augment
          rw [if_neg hnode]
          refine .bind (charge_delivers hbudget) fun _ _ => ?_
          obtain ⟨back, hback, -⟩ := hgraph.other hsimple.proper hflow hentry
          rw [htarget] at hback
          simp only [hparent, hentry, hback]
          refine .bind (.rejectIf fun _ => hover) fun _ _ => ?_
          obtain ⟨a, f', hpush, -, hgraph'⟩ := hgraph.push hsimple hflow hentry hroom
          rw [htarget] at hpush hgraph'
          have hnet' : ∀ u, net A f' u = excess 0 sink k u + excess previous sink amount u := by
            intro u
            rw [hpush.net hsimple, hnet, excess, excess, excess, excess]
            ring
          have hflow' := hpush.capacity hsimple hflow
          refine (ih previous _ f' hgraph' hflow' hnet' (hrest.push hrank) (by omega)
            fun hzero => ⟨hflow', fun u => ?_⟩).conseq ?_ fun _ he => he
          · rw [hnet' u, hzero, excess, excess, excess]
            ring
          · rintro graph' ⟨f'', hrep, hcarries, hsize⟩
            exact ⟨f'', hrep, hcarries, hsize⟩

end Searching

/-! ## Balances -/

section Balances

variable {groups : List Group} {demands : List Demand} {requested : Nat} {f : Nat → Nat → Nat}
  {k : ℤ}

/-- What a group sends to a demand. -/
def moved (groups : List Group) (requested : Nat) (f : Nat → Nat → Nat) (i d : Nat) : Nat :=
  if admits groups i d then on f (linkArc groups requested i d) else 0

theorem point_self (u : Nat) : point u u = 1 := if_pos rfl

theorem point_ne {u v : Nat} (h : u ≠ v) : point u v = 0 := if_neg h

/-- The balance of a node, layer by layer. -/
theorem net_arcs (u : Nat) : net (arcs groups demands requested) f u =
    (∑ i ∈ Finset.range groups.length, ((on f (supplyArc groups i) : ℤ) *
        (point 0 u - point (i + 1) u) + ∑ d ∈ Finset.range demands.length,
          (moved groups requested f i d : ℤ) *
            (point (i + 1) u - point (1 + groups.length + d) u))) +
    ∑ d ∈ Finset.range demands.length, (on f (demandArc groups demands d) : ℤ) *
      (point (1 + groups.length + d) u - point (1 + groups.length + demands.length) u) := by
  rw [net, sum_arcs]
  congr 1
  refine Finset.sum_congr rfl fun i _ => ?_
  congr 1
  refine Finset.sum_congr rfl fun d _ => ?_
  unfold moved
  by_cases hadmits : admits groups i d
  · rw [if_pos hadmits, if_pos hadmits]
    rfl
  · rw [if_neg hadmits, if_neg hadmits, Nat.cast_zero, zero_mul]

/-- The value of a flow is what the demands take. -/
theorem sink_balance (h : Carries (arcs groups demands requested) f 0
    (1 + groups.length + demands.length) k) :
    ∑ d ∈ Finset.range demands.length, (on f (demandArc groups demands d) : ℤ) = k := by
  have hbalance := h.conserved (1 + groups.length + demands.length)
  have hgroups : ∀ i ∈ Finset.range groups.length, ((on f (supplyArc groups i) : ℤ) *
      (point 0 (1 + groups.length + demands.length) -
        point (i + 1) (1 + groups.length + demands.length)) +
      ∑ d ∈ Finset.range demands.length, (moved groups requested f i d : ℤ) *
        (point (i + 1) (1 + groups.length + demands.length) -
          point (1 + groups.length + d) (1 + groups.length + demands.length))) = 0 := by
    intro i hi
    have := Finset.mem_range.mp hi
    rw [point_ne (by omega), point_ne (u := i + 1) (by omega), sub_zero, mul_zero, zero_add]
    refine Finset.sum_eq_zero fun d hd => ?_
    have := Finset.mem_range.mp hd
    rw [point_ne (by omega), sub_zero, mul_zero]
  have hdemands : ∀ d ∈ Finset.range demands.length, (on f (demandArc groups demands d) : ℤ) *
      (point (1 + groups.length + d) (1 + groups.length + demands.length) -
        point (1 + groups.length + demands.length) (1 + groups.length + demands.length)) =
      -(on f (demandArc groups demands d) : ℤ) := by
    intro d hd
    have := Finset.mem_range.mp hd
    rw [point_ne (by omega), point_self, zero_sub, mul_neg_one]
  rw [net_arcs, Finset.sum_congr rfl hgroups, Finset.sum_congr rfl hdemands, Finset.sum_const_zero,
    zero_add, Finset.sum_neg_distrib, excess, point_ne (by omega), point_self, zero_sub,
    mul_neg_one, neg_inj] at hbalance
  exact hbalance

/-- A group sends on what it gets. -/
theorem group_balance (h : Carries (arcs groups demands requested) f 0
    (1 + groups.length + demands.length) k) {i : Nat} (hi : i < groups.length) :
    ∑ d ∈ Finset.range demands.length, moved groups requested f i d =
      on f (supplyArc groups i) := by
  have hbalance := h.conserved (i + 1)
  have hgroups : ∀ j ∈ Finset.range groups.length, ((on f (supplyArc groups j) : ℤ) *
      (point 0 (i + 1) - point (j + 1) (i + 1)) +
      ∑ d ∈ Finset.range demands.length, (moved groups requested f j d : ℤ) *
        (point (j + 1) (i + 1) - point (1 + groups.length + d) (i + 1))) =
      if i = j then -(on f (supplyArc groups j) : ℤ) +
        ∑ d ∈ Finset.range demands.length, (moved groups requested f j d : ℤ) else 0 := by
    intro j _
    by_cases heq : i = j
    · subst heq
      rw [if_pos rfl, point_ne (by omega), point_self, zero_sub, mul_neg_one]
      congr 1
      refine Finset.sum_congr rfl fun d _ => ?_
      rw [point_ne (by omega), sub_zero, mul_one]
    · rw [if_neg heq, point_ne (by omega), point_ne (u := j + 1) (by omega), sub_zero, mul_zero,
        zero_add]
      refine Finset.sum_eq_zero fun d _ => ?_
      rw [point_ne (by omega), sub_zero, mul_zero]
  have hdemands : ∀ d ∈ Finset.range demands.length, (on f (demandArc groups demands d) : ℤ) *
      (point (1 + groups.length + d) (i + 1) -
        point (1 + groups.length + demands.length) (i + 1)) = 0 := by
    intro d _
    rw [point_ne (by omega), point_ne (by omega), sub_zero, mul_zero]
  rw [net_arcs, Finset.sum_congr rfl hgroups, Finset.sum_congr rfl hdemands, Finset.sum_const_zero,
    add_zero, Finset.sum_ite_eq, if_pos (Finset.mem_range.mpr hi), excess, point_ne (by omega),
    point_ne (by omega), sub_zero, mul_zero, neg_add_eq_zero] at hbalance
  exact_mod_cast hbalance.symm

/-- A demand takes what the groups send it. -/
theorem demand_balance (h : Carries (arcs groups demands requested) f 0
    (1 + groups.length + demands.length) k) {d : Nat} (hd : d < demands.length) :
    ∑ i ∈ Finset.range groups.length, moved groups requested f i d =
      on f (demandArc groups demands d) := by
  have hbalance := h.conserved (1 + groups.length + d)
  have hgroups : ∀ i ∈ Finset.range groups.length, ((on f (supplyArc groups i) : ℤ) *
      (point 0 (1 + groups.length + d) - point (i + 1) (1 + groups.length + d)) +
      ∑ e ∈ Finset.range demands.length, (moved groups requested f i e : ℤ) *
        (point (i + 1) (1 + groups.length + d) -
          point (1 + groups.length + e) (1 + groups.length + d))) =
      -(moved groups requested f i d : ℤ) := by
    intro i hi
    have := Finset.mem_range.mp hi
    rw [point_ne (by omega), point_ne (u := i + 1) (by omega), sub_zero, mul_zero, zero_add]
    have hpick : ∀ e ∈ Finset.range demands.length, (moved groups requested f i e : ℤ) *
        (0 - point (1 + groups.length + e) (1 + groups.length + d)) =
        if d = e then -(moved groups requested f i e : ℤ) else 0 := by
      intro e _
      by_cases heq : d = e
      · subst heq
        rw [if_pos rfl, point_self, zero_sub, mul_neg_one]
      · rw [if_neg heq, point_ne (by omega), sub_zero, mul_zero]
    rw [Finset.sum_congr rfl hpick, Finset.sum_ite_eq, if_pos (Finset.mem_range.mpr hd)]
  have hdemands : ∀ e ∈ Finset.range demands.length, (on f (demandArc groups demands e) : ℤ) *
      (point (1 + groups.length + e) (1 + groups.length + d) -
        point (1 + groups.length + demands.length) (1 + groups.length + d)) =
      if d = e then (on f (demandArc groups demands e) : ℤ) else 0 := by
    intro e _
    rw [point_ne (u := 1 + groups.length + demands.length) (by omega), sub_zero]
    by_cases heq : d = e
    · subst heq
      rw [if_pos rfl, point_self, mul_one]
    · rw [if_neg heq, point_ne (by omega), mul_zero]
  rw [net_arcs, Finset.sum_congr rfl hgroups, Finset.sum_congr rfl hdemands, Finset.sum_ite_eq,
    if_pos (Finset.mem_range.mpr hd), Finset.sum_neg_distrib, excess, point_ne (by omega),
    point_ne (by omega), sub_zero, mul_zero, neg_add_eq_zero] at hbalance
  exact_mod_cast hbalance

/-- What a demand takes is within its units. -/
theorem taken_le (h : Carries (arcs groups demands requested) f 0
    (1 + groups.length + demands.length) k) {d : Nat} (hd : d < demands.length) :
    on f (demandArc groups demands d) ≤ demandUnits demands d :=
  h.capacity _ (mem_arcs.mpr (.inr (.inr ⟨d, hd, rfl⟩)))

/-- No flow exceeds the request. -/
theorem value_le (h : Carries (arcs groups demands requested) f 0
    (1 + groups.length + demands.length) k) :
    k ≤ (∑ d ∈ Finset.range demands.length, demandUnits demands d : ℕ) := by
  rw [← sink_balance h, Nat.cast_sum]
  refine Finset.sum_le_sum fun d hd => ?_
  exact_mod_cast taken_le h (Finset.mem_range.mp hd)

end Balances

/-! ## The rounds -/

section Rounds

variable {E : AllocationError → Prop} {groups : List Group} {demands : List Demand}
  {requested : Nat} {graph : Graph Nat} {f : Nat → Nat → Nat} {k : ℕ}

/-- The state of the solver: a flow of value `k`. -/
structure Solving (groups : List Group) (demands : List Demand) (requested : Nat)
    (graph : Graph Nat) (f : Nat → Nat → Nat) (k : ℕ) : Prop where
  represents : Represents Arc.capacity noMark graph (arcs groups demands requested) f
  carries : Carries (arcs groups demands requested) f 0 (1 + groups.length + demands.length) k
  size : graph.size = 1 + groups.length + demands.length + 1

/-- What the rounds end with: a flow, and the closed set of nodes that can be reached. -/
structure Filling (groups : List Group) (demands : List Demand) (requested : Nat) (out : Filled)
    (f : Nat → Nat → Nat) : Prop where
  represents : Represents Arc.capacity noMark out.graph (arcs groups demands requested) f
  carries : Carries (arcs groups demands requested) f 0 (1 + groups.length + demands.length)
    out.allocated
  closed : Closed (arcs groups demands requested) f fun v => out.reached.getD v false
  start : out.reached.getD 0 false
  stop : out.reached.getD (1 + groups.length + demands.length) false = false

theorem Solving.target (h : Solving groups demands requested graph f k) {u i v : Nat}
    (hstep : graph.step u i = some v) : v < graph.size := by
  rw [h.size]
  exact h.represents.step_lt arcs_bounds hstep

/-- An exhausted search that did not find the sink certifies the flow. -/
theorem Solving.filling (h : Solving groups demands requested graph f k)
    {parents : Nat → Option (Nat × Nat)} {visited : List Nat}
    (hexplored : Explored graph.step parents visited [] fun x _ => x ∈ visited)
    (hsink : parents (1 + groups.length + demands.length) = none) :
    Filling groups demands requested
      ⟨graph, k, (List.range graph.size).map fun node => (parents node).isSome⟩ f := by
  have hreached : ∀ v, ((List.range graph.size).map fun node => (parents node).isSome).getD v
      false = (parents v).isSome := by
    intro v
    rw [List.getD_eq_getElem?_getD, List.getElem?_map]
    by_cases hv : v < graph.size
    · rw [List.getElem?_range hv]
      rfl
    · rw [List.getElem?_eq_none (by simpa using hv)]
      cases hparent : parents v with
      | none => rfl
      | some p =>
          have hfound : parents v ≠ none := by rw [hparent]; exact Option.some_ne_none p
          by_cases hzero : v = 0
          · rw [h.size] at hv
            omega
          · obtain ⟨u, i, -, -, hstep, -⟩ := hexplored.tree v hfound hzero
            exact absurd (h.target hstep) hv
  exact
    { represents := h.represents
      carries := h.carries
      closed := by
        simp only [hreached]
        refine h.represents.closed arcs_simple.proper fun u i v hstep hu => ?_
        have hfound := (hexplored.found u).mp (Option.isSome_iff_ne_none.mp hu)
        rw [List.append_nil] at hfound
        exact Option.isSome_iff_ne_none.mpr (hexplored.closed u i v hfound hstep)
      start := by
        rw [hreached]
        exact Option.isSome_iff_ne_none.mpr hexplored.source
      stop := by rw [hreached, hsink]; rfl }

/-- **The rounds end with a certified flow.** -/
theorem fill_delivers (hbudget : E .budgetExceeded) (hover : E .arithmeticOverflow)
    (hrequested : requested = ∑ d ∈ Finset.range demands.length, demandUnits demands d)
    (bound : ℕ) (graph : Graph Nat) (k : ℕ) (f : Nat → Nat → Nat)
    (h : Solving groups demands requested graph f k) (hbound : requested + 1 ≤ bound + k) :
    Delivers maxWork (fill (1 + groups.length + demands.length) requested bound graph k)
      (fun out => ∃ f, Filling groups demands requested out f) E := by
  have hle : ∀ {graph f k}, Solving groups demands requested graph f k → k ≤ requested := by
    intro graph f k h
    rw [hrequested]
    exact_mod_cast value_le h.carries
  induction bound generalizing graph k f with
  | zero =>
      have := hle h
      omega
  | succ bound ih =>
      have hpos : 0 < graph.size := by
        rw [h.size]
        exact Nat.succ_pos _
      rw [fill]
      refine .bind (breadth_delivers hbudget hpos (fun u i v => h.target) _ _ [] [0]
        ((Explored.start _).restate fun x j hx => absurd hx (List.not_mem_nil)) ?_)
        fun parents hparents => ?_
      · simp [Nat.add_comm]
      obtain ⟨visited, queue, hexplored, hempty⟩ := hparents
      refine .ite (fun hsink => ?_) fun hsink => ?_
      · rw [hempty hsink] at hexplored
        exact .pure ⟨f, h.filling hexplored hsink⟩
      · have hroute : Route graph parents (visited ++ queue).idxOf (fun _ e => 0 < e.remaining)
            (1 + groups.length + demands.length) :=
          hexplored.route (fun u i v hstep => Graph.step_some hstep) hsink
        have hrank : (visited ++ queue).idxOf (1 + groups.length + demands.length) ≤
            graph.size := by
          have := hexplored.length_le hpos fun u i v => h.target
          exact (List.idxOf_le_length).trans this
        refine .bind (bottleneck_delivers hbudget _ _ _ hroute hrank (by decide))
          fun amount hamount => ?_
        obtain ⟨hamount, -, hroute'⟩ := hamount
        refine .bind (.rejectIf fun hzero => absurd hamount (by omega)) fun _ _ => ?_
        have hnet : ∀ u, net (arcs groups demands requested) f u =
            excess 0 (1 + groups.length + demands.length) k u +
              excess (1 + groups.length + demands.length) (1 + groups.length + demands.length)
                amount u := by
          intro u
          rw [h.carries.conserved u, excess, excess]
          ring
        refine .bind (augment_delivers hbudget hover arcs_simple _ _ graph f h.represents
          h.carries.capacity hnet hroute' hrank) fun graph' hgraph' => ?_
        obtain ⟨f', hrep, hcarries, hsize⟩ := hgraph'
        refine .bind (sum_delivers hover _ _) fun total htotal => ?_
        have hnext : Solving groups demands requested graph' f' total :=
          ⟨hrep, by rw [htotal.1]; exact_mod_cast hcarries, by rw [hsize, h.size]⟩
        have := hle hnext
        refine .bind (.rejectIf fun hbad => absurd hbad (not_lt.mpr this)) fun _ _ => ?_
        exact ih graph' total f' hnext (by omega)

end Rounds

end Dfmcp.InventoryAllocation
