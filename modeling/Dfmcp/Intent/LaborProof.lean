import Dfmcp.Intent.LaborMatchingProof

/-!
# Labor is allocated as well as it can be

Positions are filled in the order of their roles, and those left open are short, so no assignment
covers the roles better in their order. A request is read as its sorted roster and demands, and what
its checks cost does not depend on an order either. The changes turn the observed labels into those
of the assignment.

* `validateRoster_perm`, `validateDemands_perm` — order does not matter;
* `coverage_le_chosen` — no assignment covers more;
* `enabledAfter_iff` — what the actions leave enabled;
* `labor_allocation_exact` — all of it, of an accepted request.
-/

namespace Dfmcp.Labor

open Machine Method Matching

/-! ## Order does not matter -/

section Order

theorem costs_charge : Costs charge 1 True := Costs.charge

theorem costs_token (token : String) :
    Costs (Method.of (validateToken token)) 0 (tokenIsValid token = true) := by
  refine Costs.of.iff ?_
  rw [validateToken]
  cases tokenIsValid token <;> simp

theorem gives_token (token : String) :
    Gives (Method.of (validateToken token) : Paid PUnit) (fun _ => True) Refused := by
  refine .of (fun _ _ => trivial) fun e he => ?_
  rw [validateToken] at he
  split_ifs at he
  obtain rfl := Except.error.inj he
  exact refused_invalid _

theorem costs_checkSkills (skills : List (String × U 32)) :
    Costs (checkSkills skills) skills.length
      (∀ e ∈ skills, tokenIsValid e.1 = true ∧ e.2 ≤ 20) := by
  induction skills with
  | nil => exact Costs.pure.iff (by simp)
  | cons e rest ih =>
      have hcosts := costs_charge.bind ((costs_token e.1).bind
        ((Costs.rejectIf (e.2 > 20) (invalid "labor skill rating exceeds 20")).bind ih))
      have hcost : 1 + (0 + (0 + rest.length)) = (e :: rest).length := by
        rw [List.length_cons]
        omega
      rw [hcost] at hcosts
      refine hcosts.iff ?_
      rw [List.forall_mem_cons, not_lt, and_assoc]
      simp

theorem costs_checkLabors (labors : List String) :
    Costs (checkLabors labors) labors.length (∀ labor ∈ labors, tokenIsValid labor = true) := by
  induction labors with
  | nil => exact Costs.pure.iff (by simp)
  | cons labor rest ih =>
      have hcosts := costs_charge.bind ((costs_token labor).bind ih)
      have hcost : 1 + (0 + rest.length) = (labor :: rest).length := by
        rw [List.length_cons]
        omega
      rw [hcost] at hcosts
      exact hcosts.iff (by simp)

/-- A profile that passes its own checks. -/
structure DwarfLaborProfile.Valid (dwarf : DwarfLaborProfile) : Prop where
  id : dwarf.id ≠ 0
  stress : dwarf.stressLevel ≤ 1000
  sizes : dwarf.skills.size ≤ maxProfileTokens ∧ dwarf.assignedLabors.size ≤ maxProfileTokens
  skills : ∀ e ∈ dwarf.skills.toList, tokenIsValid e.1 = true ∧ e.2 ≤ 20
  labors : ∀ labor ∈ dwarf.assignedLabors.keys, tokenIsValid labor = true

/-- What reading a profile costs. -/
def DwarfLaborProfile.cost (dwarf : DwarfLaborProfile) : ℕ :=
  1 + (dwarf.skills.toList.length + dwarf.assignedLabors.keys.length)

theorem costs_checkRoster (seen : BTreeSet EntityId) (roster : List DwarfLaborProfile) :
    Costs (checkRoster seen roster) (roster.map DwarfLaborProfile.cost).sum
      ((∀ dwarf ∈ roster, dwarf.Valid ∧ seen.contains dwarf.id = false) ∧
        (roster.map (·.id)).Nodup) := by
  induction roster generalizing seen with
  | nil => exact Costs.pure.iff (by simp)
  | cons dwarf rest ih =>
      have hcosts := costs_charge.bind <|
        (Costs.rejectIf (dwarf.id = 0 ∨ seen.contains dwarf.id = true ∨ dwarf.stressLevel > 1000)
          (invalid "labor roster contains a nil/duplicate ID or out-of-range stress")).bind <|
        (Costs.rejectIf (dwarf.skills.size > maxProfileTokens ∨
          dwarf.assignedLabors.size > maxProfileTokens) exhausted).bind <|
        (costs_checkSkills dwarf.skills.toList).bind <|
        (costs_checkLabors dwarf.assignedLabors.keys).bind (ih (seen.insert dwarf.id ()))
      have hcost : 1 + (0 + (0 + (dwarf.skills.toList.length + (dwarf.assignedLabors.keys.length +
          (rest.map DwarfLaborProfile.cost).sum)))) =
          ((dwarf :: rest).map DwarfLaborProfile.cost).sum := by
        rw [List.map_cons, List.sum_cons, DwarfLaborProfile.cost]
        omega
      rw [hcost] at hcosts
      refine hcosts.iff ?_
      simp only [not_or, not_lt, true_and, Bool.not_eq_true]
      rw [List.map_cons, List.nodup_cons, List.forall_mem_cons]
      constructor
      · rintro ⟨⟨hid, hseen, hstress⟩, hsizes, hskills, hlabors, hrest, hnodup⟩
        refine ⟨⟨⟨⟨hid, hstress, hsizes, hskills, hlabors⟩, hseen⟩, fun d hd => ?_⟩, ?_, hnodup⟩
        · have hother := (hrest d hd).2
          rw [OMap.contains_insert, Bool.or_eq_false_iff] at hother
          exact ⟨(hrest d hd).1, hother.2⟩
        · intro hmem
          obtain ⟨d, hd, hsame⟩ := List.mem_map.1 hmem
          have hother := (hrest d hd).2
          rw [OMap.contains_insert, Bool.or_eq_false_iff, decide_eq_false_iff_not] at hother
          exact hother.1 hsame
      · rintro ⟨⟨⟨hvalid, hseen⟩, hrest⟩, hfresh, hnodup⟩
        refine ⟨⟨hvalid.id, hseen, hvalid.stress⟩, hvalid.sizes, hvalid.skills, hvalid.labors,
          fun d hd => ⟨(hrest d hd).1, ?_⟩, hnodup⟩
        rw [OMap.contains_insert, Bool.or_eq_false_iff, decide_eq_false_iff_not]
        exact ⟨fun hsame => hfresh (List.mem_map.2 ⟨d, hd, hsame⟩), (hrest d hd).2⟩

/-- A demand that passes its own checks. -/
structure LaborDemand.Valid (demand : LaborDemand) : Prop where
  labor : tokenIsValid demand.labor = true
  skill : tokenIsValid demand.skill = true
  minimum : demand.minimumSkill ≤ 20

theorem costs_checkDemands (maxPositions : ℕ) (seen : BTreeSet String) (positions : ℕ)
    (demands : List LaborDemand) (hfits : positions ≤ maxPositions) :
    Costs (checkDemands maxPositions seen positions demands) demands.length
      ((∀ demand ∈ demands, demand.Valid ∧ seen.contains demand.labor = false) ∧
        (demands.map (·.labor)).Nodup ∧
        positions + (demands.map (·.workers.val)).sum ≤ maxPositions) := by
  induction demands generalizing seen positions with
  | nil => exact Costs.pure.iff (by simp [hfits])
  | cons demand rest ih =>
      by_cases hnext : positions + demand.workers.val ≤ maxPositions
      · have hcosts := costs_charge.bind <| (costs_token demand.labor).bind <|
          (costs_token demand.skill).bind <|
          (Costs.rejectIf (seen.contains demand.labor = true ∨ demand.minimumSkill > 20)
            (invalid "labor demands contain a duplicate role or invalid minimum skill")).bind <|
          (Costs.rejectIf (positions + demand.workers.val > maxPositions) exhausted).bind
            (ih (seen.insert demand.labor ()) _ hnext)
        have hcost : 1 + (0 + (0 + (0 + (0 + rest.length)))) = (demand :: rest).length := by
          rw [List.length_cons]
          omega
        rw [hcost] at hcosts
        refine hcosts.iff ?_
        simp only [not_or, not_lt, true_and, Bool.not_eq_true]
        rw [List.map_cons, List.map_cons, List.nodup_cons, List.forall_mem_cons, List.sum_cons,
          ← Nat.add_assoc]
        constructor
        · rintro ⟨hlabor, hskill, ⟨hseen, hminimum⟩, _, hrest, hnodup, hsum⟩
          refine ⟨⟨⟨⟨hlabor, hskill, hminimum⟩, hseen⟩, fun d hd => ?_⟩, ⟨?_, hnodup⟩, hsum⟩
          · have hother := (hrest d hd).2
            rw [OMap.contains_insert, Bool.or_eq_false_iff] at hother
            exact ⟨(hrest d hd).1, hother.2⟩
          · intro hmem
            obtain ⟨d, hd, hsame⟩ := List.mem_map.1 hmem
            have hother := (hrest d hd).2
            rw [OMap.contains_insert, Bool.or_eq_false_iff, decide_eq_false_iff_not] at hother
            exact hother.1 hsame
        · rintro ⟨⟨⟨hvalid, hseen⟩, hrest⟩, ⟨hfresh, hnodup⟩, hsum⟩
          refine ⟨hvalid.labor, hvalid.skill, ⟨hseen, hvalid.minimum⟩, hnext,
            fun d hd => ⟨(hrest d hd).1, ?_⟩, hnodup, hsum⟩
          rw [OMap.contains_insert, Bool.or_eq_false_iff, decide_eq_false_iff_not]
          exact ⟨fun hsame => hfresh (List.mem_map.2 ⟨d, hd, hsame⟩), (hrest d hd).2⟩
      · have hstop := costs_charge.bind <| (costs_token demand.labor).bind <|
          (costs_token demand.skill).bind <|
          (Costs.rejectIf (seen.contains demand.labor = true ∨ demand.minimumSkill > 20)
            (invalid "labor demands contain a duplicate role or invalid minimum skill")).bind <|
          Costs.rejected (y := checkDemands maxPositions (seen.insert demand.labor ())
            (positions + demand.workers.val) rest) (not_le.1 hnext) exhausted
        refine hstop.never (fun h => h.2.2.2.2) fun h => hnext ?_
        have hsum := h.2.2
        rw [List.map_cons, List.sum_cons] at hsum
        omega

/-- Sorting lists of the same elements by distinct keys gives the same list. -/
theorem insertionSort_perm_eq {α κ : Type} [LinearOrder κ] (key : α → κ) {l l' : List α}
    (hnodup : (l.map key).Nodup) (h : l.Perm l') :
    l.insertionSort (fun a b => key a ≤ key b) = l'.insertionSort fun a b => key a ≤ key b := by
  have htotal : Std.Total fun a b : α => key a ≤ key b := ⟨fun a b => le_total (key a) (key b)⟩
  have htrans : IsTrans α fun a b => key a ≤ key b := ⟨fun _ _ _ => le_trans⟩
  have hperm := (List.perm_insertionSort (fun a b => key a ≤ key b) l).trans
    (h.trans (List.perm_insertionSort (fun a b => key a ≤ key b) l').symm)
  refine hperm.eq_of_pairwise ?_ (List.pairwise_insertionSort _ l)
    (List.pairwise_insertionSort _ l')
  intro a b ha hb hab hba
  exact List.inj_on_of_nodup_map hnodup ((List.mem_insertionSort _).1 ha)
    (h.mem_iff.2 ((List.mem_insertionSort _).1 hb)) (le_antisymm hab hba)

/-- What an accepted roster satisfies, in any order. -/
structure ValidRoster (roster : List DwarfLaborProfile) : Prop where
  valid : ∀ dwarf ∈ roster, dwarf.Valid
  nodup : (roster.map (·.id)).Nodup

/-- What an accepted list of demands satisfies, in any order. -/
structure ValidDemands (demands : List LaborDemand) : Prop where
  valid : ∀ demand ∈ demands, demand.Valid
  nodup : (demands.map (·.labor)).Nodup

/-- A roster that is accepted is accepted in any order, with the same result. -/
theorem validateRoster_ok {roster sorted : List DwarfLaborProfile} {maxRoster : ℕ} {w w' : Work}
    (hw : w.used ≤ w.maximum) (hmax : w.maximum < 2 ^ 64)
    (h : exec (validateRoster roster maxRoster) w = (.ok sorted, w')) :
    ValidRoster roster ∧ sorted = sortRoster roster ∧ w'.used ≤ w'.maximum ∧
      w'.maximum = w.maximum ∧ ∀ roster', roster.Perm roster' →
        exec (validateRoster roster' maxRoster) w = (.ok sorted, w') := by
  have hyields := fun roster => (costs_checkRoster .nil roster).yields (roster.length > maxRoster)
    exhausted (sortRoster roster) sorted w' hw hmax
  obtain ⟨hlength, ⟨hvalid, hnodup⟩, hcost, hsorted, hw'⟩ := (hyields roster).1 h
  refine ⟨⟨fun d hd => (hvalid d hd).1, hnodup⟩, hsorted, ?_, ?_, fun roster' hperm => ?_⟩
  · rw [hw']
    exact hcost
  · rw [hw']
  · have hsame : sortRoster roster' = sortRoster roster :=
      (insertionSort_perm_eq (fun d : DwarfLaborProfile => d.id) hnodup hperm).symm
    have hsum := (hperm.map DwarfLaborProfile.cost).sum_eq
    refine (hyields roster').2 ⟨by rwa [← hperm.length_eq], ⟨fun d hd => ?_, ?_⟩, ?_, ?_, ?_⟩
    · exact hvalid d (hperm.mem_iff.2 hd)
    · exact (hperm.map _).nodup_iff.1 hnodup
    · rwa [← hsum]
    · rw [hsame, hsorted]
    · rw [← hsum, hw']

/-- Demands that are accepted are accepted in any order, with the same result. -/
theorem validateDemands_ok {demands sorted : List LaborDemand} {limits : LaborAllocationLimits}
    {w w' : Work} (hw : w.used ≤ w.maximum) (hmax : w.maximum < 2 ^ 64)
    (h : exec (validateDemands demands limits) w = (.ok sorted, w')) :
    ValidDemands demands ∧ sorted = sortDemands demands ∧ ∀ demands', demands.Perm demands' →
      exec (validateDemands demands' limits) w = (.ok sorted, w') := by
  have hyields := fun demands =>
    (costs_checkDemands limits.maxPositions .nil 0 demands (Nat.zero_le _)).yields
      (demands.length > limits.maxDemands) exhausted (sortDemands demands) sorted w' hw hmax
  obtain ⟨hlength, ⟨hvalid, hnodup, htotal⟩, hcost, hsorted, hw'⟩ := (hyields demands).1 h
  refine ⟨⟨fun d hd => (hvalid d hd).1, hnodup⟩, hsorted, fun demands' hperm => ?_⟩
  have hkeys : (demands.map demandKey).Nodup := by
    refine List.Nodup.of_map (fun k : U 8 ×ₗ String => (ofLex k).2) ?_
    rw [List.map_map]
    exact hnodup
  have hsame : sortDemands demands' = sortDemands demands :=
    (insertionSort_perm_eq demandKey hkeys hperm).symm
  have hsum := (hperm.map fun d : LaborDemand => d.workers.val).sum_eq
  refine (hyields demands').2 ⟨by rwa [← hperm.length_eq], ⟨fun d hd => ?_, ?_, ?_⟩, ?_, ?_, ?_⟩
  · exact hvalid d (hperm.mem_iff.2 hd)
  · exact (hperm.map _).nodup_iff.1 hnodup
  · rwa [← hsum]
  · rwa [← hperm.length_eq]
  · rw [hsame, hsorted]
  · rw [← hperm.length_eq, hw']

end Order

/-! ## Coverage -/

section Coverage

/-- Counting indices is counting entries. -/
theorem card_filter_range {α : Type} (l : List α) (p : α → Bool) (q : ℕ → Prop) [DecidablePred q]
    (h : ∀ i a, l[i]? = some a → (q i ↔ p a = true)) :
    ((Finset.range l.length).filter q).card = l.countP p := by
  induction l using List.reverseRecOn with
  | nil => rfl
  | append_singleton l a ih =>
      have hlast := h l.length a (by simp)
      have hrest : ∀ i b, l[i]? = some b → (q i ↔ p b = true) := fun i b hb => h i b (by
        rw [List.getElem?_append_left (List.getElem?_eq_some_iff.1 hb).1, hb])
      rw [List.length_append, List.length_singleton, Finset.range_add_one, Finset.filter_insert,
        List.countP_append, List.countP_singleton]
      by_cases ha : p a = true
      · rw [if_pos (hlast.2 ha), if_pos ha, Finset.card_insert_of_notMem (by simp), ih hrest]
      · rw [if_neg fun hq => ha (hlast.1 hq), if_neg ha, ih hrest, Nat.add_zero]

theorem le_of_mem_positionsFrom {first role : ℕ} {demands : List LaborDemand}
    (h : role ∈ positionsFrom first demands) : first ≤ role := by
  induction demands generalizing first with
  | nil => cases h
  | cons demand rest ih =>
      rcases List.mem_append.1 h with h | h
      · exact (List.eq_of_mem_replicate h).ge
      · exact (Nat.le_succ first).trans (ih h)

/-- The positions come in the order of their roles. -/
theorem pairwise_positionsFrom (first : ℕ) (demands : List LaborDemand) :
    (positionsFrom first demands).Pairwise (· ≤ ·) := by
  induction demands generalizing first with
  | nil => exact List.Pairwise.nil
  | cons demand rest ih =>
      refine List.pairwise_append.2 ⟨?_, ih (first + 1), fun a ha b hb => ?_⟩
      · exact List.pairwise_replicate.2 (.inr le_rfl)
      · rw [List.eq_of_mem_replicate ha]
        exact (Nat.le_succ first).trans (le_of_mem_positionsFrom hb)

/-- A role has a position for each worker it wants. -/
theorem count_positionsFrom (first role : ℕ) {demands : List LaborDemand} {demand : LaborDemand}
    (h : demands[role]? = some demand) :
    (positionsFrom first demands).count (first + role) = demand.workers.val := by
  induction demands generalizing first role with
  | nil => cases h
  | cons head rest ih =>
      rw [positionsFrom, List.count_append, List.count_replicate]
      cases role with
      | zero =>
          obtain rfl := Option.some.inj h
          have hnone : (positionsFrom (first + 1) rest).count (first + 0) = 0 :=
            List.count_eq_zero.2 fun hmem => by
              have := le_of_mem_positionsFrom hmem
              omega
          rw [hnone, Nat.add_zero, if_pos (by simp)]
      | succ role =>
          have hnext := ih (first + 1) role h
          rw [show first + (role + 1) = first + 1 + role by omega, hnext, if_neg, Nat.zero_add]
          simp only [beq_iff_eq]
          omega

variable {roster : List DwarfLaborProfile} {demands : List LaborDemand} {roles : Roles}
  {seats : Seats}

theorem role_of_getElem? {p i : ℕ} (h : roles.positions[p]? = some i) : roles.role p = i := by
  rw [Roles.role, List.getD_eq_getElem?_getD, h]
  rfl

theorem role_mono (hlists : Lists roster demands roles) (q p : ℕ) (hle : q ≤ p)
    (hp : p ∈ Finset.range roles.positions.length) : roles.role q ≤ roles.role p := by
  have hp := Finset.mem_range.1 hp
  have hq := lt_of_le_of_lt hle hp
  rw [role_of_getElem? (List.getElem?_eq_getElem hq), role_of_getElem? (List.getElem?_eq_getElem hp)]
  rcases hle.eq_or_lt with rfl | hlt
  · exact le_rfl
  · have hpairs := pairwise_positionsFrom 0 demands
    rw [← hlists.positions] at hpairs
    exact List.pairwise_iff_getElem.1 hpairs q p hq hp hlt

theorem card_positions (hlists : Lists roster demands roles) {role : ℕ} {demand : LaborDemand}
    (h : demands[role]? = some demand) :
    ({p ∈ Finset.range roles.positions.length | roles.role p = role}).card =
      demand.workers.val := by
  have hcount := count_positionsFrom 0 role h
  rw [Nat.zero_add, ← hlists.positions] at hcount
  rw [← hcount, List.count]
  refine card_filter_range roles.positions (· == role) _ fun i a ha => ?_
  rw [role_of_getElem? ha, beq_iff_eq]

/-- The role of a worker is one of his. -/
theorem takes_selectedRole (h : seats.Holds (Offers roster demands roles)) {w role : ℕ}
    (hw : selectedRole roles seats w = some role) : Takes roster demands role w := by
  obtain ⟨p, hp, hrole⟩ := Option.bind_eq_some_iff.1 hw
  obtain ⟨role', hrole', htakes⟩ := h.matching.offered w p hp
  rwa [Option.some.inj (hrole.symm.trans hrole')]

/-- A role has as many workers as positions that are matched. -/
theorem card_selected (h : seats.Holds (Offers roster demands roles)) (role : ℕ) :
    ({w ∈ Finset.range roster.length | selectedRole roles seats w = some role}).card =
      ({p ∈ seats.matched roles.positions.length | roles.role p = role}).card := by
  have hselected : ∀ w, selectedRole roles seats w = some role ↔
      ∃ p, seats.workerPositions w = some p ∧ roles.positions[p]? = some role := fun w =>
    Option.bind_eq_some_iff
  refine Finset.card_bij (fun w _ => (seats.workerPositions w).getD 0) ?_ ?_ ?_
  · intro w hw
    obtain ⟨p, hp, hrole⟩ := (hselected w).1 (Finset.mem_filter.1 hw).2
    rw [hp, Option.getD_some, Finset.mem_filter, h.mem_matched]
    exact ⟨⟨(List.getElem?_eq_some_iff.1 hrole).1, w, hp⟩, role_of_getElem? hrole⟩
  · intro w hw x hx hsame
    obtain ⟨p, hp, _⟩ := (hselected w).1 (Finset.mem_filter.1 hw).2
    obtain ⟨q, hq, _⟩ := (hselected x).1 (Finset.mem_filter.1 hx).2
    rw [hp, hq, Option.getD_some, Option.getD_some] at hsame
    exact h.matching.alone w x p hp (hsame ▸ hq)
  · intro p hp
    obtain ⟨hmatched, hrole⟩ := Finset.mem_filter.1 hp
    obtain ⟨hlt, w, hw⟩ := h.mem_matched.1 hmatched
    have hget : roles.positions[p]? = some role := by
      rw [← hrole, role_of_getElem? (List.getElem?_eq_getElem hlt), List.getElem?_eq_getElem hlt]
    have hsel := (hselected w).2 ⟨p, hw, hget⟩
    obtain ⟨_, dwarf, _, hdwarf, _⟩ := takes_selectedRole h hsel
    refine ⟨w, Finset.mem_filter.2 ⟨Finset.mem_range.2 (List.getElem?_eq_some_iff.1 hdwarf).1,
      hsel⟩, ?_⟩
    rw [hw, Option.getD_some]

/-- **No assignment of roles covers more**, in the order of the roles. -/
theorem coverage_le_selected (hlists : Lists roster demands roles)
    (h : seats.Filled roster demands roles roles.positions.length) {assigned : ℕ → Option ℕ}
    (hassigned : ∀ w i, assigned w = some i → Takes roster demands i w) {role : ℕ}
    (hbefore : ∀ i < role, min ({w ∈ Finset.range roster.length | assigned w = some i}).card
        ({p ∈ Finset.range roles.positions.length | roles.role p = i}).card =
      ({w ∈ Finset.range roster.length | selectedRole roles seats w = some i}).card) :
    min ({w ∈ Finset.range roster.length | assigned w = some role}).card
        ({p ∈ Finset.range roles.positions.length | roles.role p = role}).card ≤
      ({w ∈ Finset.range roster.length | selectedRole roles seats w = some role}).card := by
  rw [card_selected h.holds]
  refine coverage_le (role_mono hlists) (fun p hp hout => ?_) (fun w _ => hassigned w) role
    fun i hi => ?_
  · refine h.short p (Finset.mem_range.1 hp) fun hs => hout ?_
    exact h.holds.mem_matched.2 ⟨Finset.mem_range.1 hp, hs⟩
  · rw [hbefore i hi, card_selected h.holds]

end Coverage

/-! ## Assignments -/

section Assignments

/-- An assignment gives each worker at most one role, and one he is eligible for. -/
def Assignment (roster : List DwarfLaborProfile) (demands : List LaborDemand)
    (assignment : EntityId → Option String) : Prop :=
  ∀ dwarf ∈ roster, ∀ labor, assignment dwarf.id = some labor →
    ∃ demand ∈ demands, demand.labor = labor ∧ eligible demand dwarf = true

/-- The workers an assignment gives a demand, as far as it wants them. -/
def covered (roster : List DwarfLaborProfile) (assignment : EntityId → Option String)
    (demand : LaborDemand) : ℕ :=
  min (roster.countP fun dwarf => assignment dwarf.id = some demand.labor) demand.workers.val

/-- The coverage of the demands, by priority and labor. -/
def coverage (roster : List DwarfLaborProfile) (demands : List LaborDemand)
    (assignment : EntityId → Option String) : List ℕ :=
  (sortDemands demands).map (covered roster assignment)

/-- The units an assignment gives a labor, by identifier. -/
def units (roster : List DwarfLaborProfile) (assignment : EntityId → Option String)
    (labor : String) : List EntityId :=
  ((sortRoster roster).filter fun dwarf => assignment dwarf.id = some labor).map (·.id)

variable {roster : List DwarfLaborProfile} {demands : List LaborDemand}

/-- The index of the first entry with a key, where keys are distinct. -/
theorem findIdx?_eq_some_of_nodup {α κ : Type} [DecidableEq κ] (key : α → κ) {l : List α}
    (hnodup : (l.map key).Nodup) {i : ℕ} {a : α} (h : l[i]? = some a) :
    l.findIdx? (fun b => key b = key a) = some i := by
  rw [List.findIdx?_eq_some_iff_getElem]
  obtain ⟨hi, hget⟩ := List.getElem?_eq_some_iff.1 h
  refine ⟨hi, by simp [hget], fun j hj hsame => ?_⟩
  have hsame := of_decide_eq_true hsame
  have hj' : j < (l.map key).length := by rw [List.length_map]; omega
  have hi' : i < (l.map key).length := by rw [List.length_map]; exact hi
  have hkeys : (l.map key)[j] = (l.map key)[i] := by
    rw [List.getElem_map, List.getElem_map, hget]
    exact hsame
  have hindex := (List.Nodup.getElem_inj_iff hnodup).1 hkeys
  omega

theorem key_of_findIdx? {α κ : Type} [DecidableEq κ] (key : α → κ) {l : List α} {i : ℕ} {k : κ}
    (h : l.findIdx? (fun b => key b = k) = some i) : ∃ a, l[i]? = some a ∧ key a = k := by
  rw [List.findIdx?_eq_some_iff_getElem] at h
  obtain ⟨hi, hkey, _⟩ := h
  exact ⟨l[i], List.getElem?_eq_getElem hi, of_decide_eq_true hkey⟩

/-- The role index an assignment gives a worker index. -/
def indexed (roster : List DwarfLaborProfile) (demands : List LaborDemand)
    (assignment : EntityId → Option String) (w : ℕ) : Option ℕ :=
  roster[w]?.bind fun dwarf => (assignment dwarf.id).bind fun labor =>
    demands.findIdx? fun demand => demand.labor = labor

theorem indexed_eq_some (hnodup : (demands.map (·.labor)).Nodup)
    {assignment : EntityId → Option String} {w i : ℕ} {dwarf : DwarfLaborProfile}
    {demand : LaborDemand} (hdwarf : roster[w]? = some dwarf) (hdemand : demands[i]? = some demand) :
    indexed roster demands assignment w = some i ↔
      assignment dwarf.id = some demand.labor := by
  rw [indexed, hdwarf, Option.bind_some]
  constructor
  · intro h
    obtain ⟨labor, hlabor, hindex⟩ := Option.bind_eq_some_iff.1 h
    obtain ⟨other, hother, hsame⟩ := key_of_findIdx? LaborDemand.labor hindex
    obtain rfl := Option.some.inj (hdemand.symm.trans hother)
    rw [hlabor, hsame]
  · intro h
    rw [h, Option.bind_some]
    exact findIdx?_eq_some_of_nodup LaborDemand.labor hnodup hdemand

/-- The labor a choice of role indices gives a unit. -/
def named (roster : List DwarfLaborProfile) (demands : List LaborDemand) (choice : ℕ → Option ℕ)
    (unit : EntityId) : Option String :=
  (roster.findIdx? fun dwarf => dwarf.id = unit).bind fun w =>
    (choice w).bind fun i => demands[i]?.map (·.labor)

theorem named_eq_some (hroster : (roster.map (·.id)).Nodup) {choice : ℕ → Option ℕ} {w : ℕ}
    {dwarf : DwarfLaborProfile} (hdwarf : roster[w]? = some dwarf) {labor : String} :
    named roster demands choice dwarf.id = some labor ↔
      ∃ i demand, choice w = some i ∧ demands[i]? = some demand ∧ demand.labor = labor := by
  rw [named, findIdx?_eq_some_of_nodup DwarfLaborProfile.id hroster hdwarf, Option.bind_some,
    Option.bind_eq_some_iff]
  constructor
  · rintro ⟨i, hi, hmap⟩
    obtain ⟨demand, hdemand, hlabor⟩ := Option.map_eq_some_iff.1 hmap
    exact ⟨i, demand, hi, hdemand, hlabor⟩
  · rintro ⟨i, demand, hi, hdemand, hlabor⟩
    exact ⟨i, hi, Option.map_eq_some_iff.2 ⟨demand, hdemand, hlabor⟩⟩

theorem named_eq_labor (hroster : (roster.map (·.id)).Nodup)
    (hdemands : (demands.map (·.labor)).Nodup) {choice : ℕ → Option ℕ} {w i : ℕ}
    {dwarf : DwarfLaborProfile} {demand : LaborDemand} (hdwarf : roster[w]? = some dwarf)
    (hdemand : demands[i]? = some demand) :
    named roster demands choice dwarf.id = some demand.labor ↔ choice w = some i := by
  rw [named_eq_some hroster hdwarf]
  constructor
  · rintro ⟨j, other, hj, hother, hsame⟩
    have hi := findIdx?_eq_some_of_nodup LaborDemand.labor hdemands hdemand
    have hj' := findIdx?_eq_some_of_nodup LaborDemand.labor hdemands hother
    simp only [hsame] at hj'
    rw [hj, ← hj', hi]
  · exact fun h => ⟨i, demand, h, hdemand, rfl⟩

/-- Lists compared entry by entry, where the entries before are the same. -/
theorem map_le_map {α : Type} {f g : α → ℕ} (l : List α)
    (h : ∀ (r : ℕ) a, l[r]? = some a → (∀ i < r, ∀ b, l[i]? = some b → f b = g b) →
      f a ≤ g a) :
    l.map f ≤ l.map g := by
  induction l with
  | nil => exact le_rfl
  | cons a rest ih =>
      have hhead := h 0 a rfl fun i hi => absurd hi (Nat.not_lt_zero i)
      rw [List.map_cons, List.map_cons]
      refine not_lt.1 fun hmore => ?_
      rcases List.cons_lt_cons_iff.1 hmore with hlt | ⟨heq, hlt⟩
      · exact absurd hhead (not_le.2 hlt)
      · refine absurd (ih fun r b hb hbefore => h (r + 1) b hb fun i hi c hc => ?_) (not_le.2 hlt)
        cases i with
        | zero =>
            obtain rfl := Option.some.inj hc
            exact heq.symm
        | succ i => exact hbefore i (Nat.lt_of_succ_lt_succ hi) c hc

variable {roles : Roles} {seats : Seats}

/-- The assignment the seats amount to. -/
def chosen (roster : List DwarfLaborProfile) (demands : List LaborDemand) (roles : Roles)
    (seats : Seats) : EntityId → Option String :=
  named roster demands (selectedRole roles seats)

theorem assignment_chosen (hroster : (roster.map (·.id)).Nodup)
    (h : seats.Holds (Offers roster demands roles)) :
    Assignment roster demands (chosen roster demands roles seats) := by
  intro dwarf hdwarf labor hlabor
  obtain ⟨w, hw⟩ := List.getElem?_of_mem hdwarf
  obtain ⟨i, demand, hselected, hdemand, rfl⟩ := (named_eq_some hroster hw).1 hlabor
  obtain ⟨demand', dwarf', hdemand', hw', heligible⟩ := takes_selectedRole h hselected
  obtain rfl := Option.some.inj (hdemand.symm.trans hdemand')
  obtain rfl := Option.some.inj (hw.symm.trans hw')
  exact ⟨demand, List.mem_of_getElem? hdemand, rfl, heligible⟩

theorem countP_chosen (hroster : (roster.map (·.id)).Nodup)
    (hdemands : (demands.map (·.labor)).Nodup) {i : ℕ} {demand : LaborDemand}
    (hdemand : demands[i]? = some demand) :
    roster.countP (fun dwarf => chosen roster demands roles seats dwarf.id = some demand.labor) =
      ({w ∈ Finset.range roster.length | selectedRole roles seats w = some i}).card :=
  (card_filter_range roster _ _ fun w dwarf hw => by
    rw [decide_eq_true_iff]
    exact (named_eq_labor hroster hdemands hw hdemand).symm).symm

theorem countP_chosen_le (hroster : (roster.map (·.id)).Nodup)
    (hdemands : (demands.map (·.labor)).Nodup) (hlists : Lists roster demands roles)
    (h : seats.Holds (Offers roster demands roles)) {demand : LaborDemand}
    (hdemand : demand ∈ demands) :
    roster.countP (fun dwarf => chosen roster demands roles seats dwarf.id = some demand.labor) ≤
      demand.workers.val := by
  obtain ⟨i, hi⟩ := List.getElem?_of_mem hdemand
  rw [countP_chosen hroster hdemands hi, card_selected h, ← card_positions hlists hi]
  refine Finset.card_le_card fun p hp => ?_
  obtain ⟨hmatched, hrole⟩ := Finset.mem_filter.1 hp
  exact Finset.mem_filter.2 ⟨Finset.mem_range.2 (h.mem_matched.1 hmatched).1, hrole⟩

/-- **No assignment covers more than the one chosen.** -/
theorem coverage_le_chosen (hroster : (roster.map (·.id)).Nodup)
    (hdemands : (demands.map (·.labor)).Nodup) (hlists : Lists roster demands roles)
    (h : seats.Filled roster demands roles roles.positions.length)
    {other : EntityId → Option String} (hother : Assignment roster demands other) :
    demands.map (covered roster other) ≤
      demands.map (covered roster (chosen roster demands roles seats)) := by
  have hcount : ∀ {i : ℕ} {demand}, demands[i]? = some demand → covered roster other demand =
      min ({w ∈ Finset.range roster.length | indexed roster demands other w = some i}).card
        ({p ∈ Finset.range roles.positions.length | roles.role p = i}).card := by
    intro i demand hdemand
    rw [card_positions hlists hdemand, covered]
    congr 1
    refine (card_filter_range roster _ _ fun w dwarf hw => ?_).symm
    rw [decide_eq_true_iff]
    exact indexed_eq_some hdemands hw hdemand
  have hchosen : ∀ {i : ℕ} {demand}, demands[i]? = some demand →
      covered roster (chosen roster demands roles seats) demand =
        ({w ∈ Finset.range roster.length | selectedRole roles seats w = some i}).card := by
    intro i demand hdemand
    rw [covered, min_eq_left
      (countP_chosen_le hroster hdemands hlists h.holds (List.mem_of_getElem? hdemand)),
      countP_chosen hroster hdemands hdemand]
  have htakes : ∀ w i, indexed roster demands other w = some i → Takes roster demands i w := by
    intro w i hwi
    obtain ⟨dwarf, hdwarf, hrest⟩ := Option.bind_eq_some_iff.1 hwi
    obtain ⟨labor, hlabor, hindex⟩ := Option.bind_eq_some_iff.1 hrest
    obtain ⟨demand, hdemand, hsame⟩ := key_of_findIdx? LaborDemand.labor hindex
    obtain ⟨demand', hmem, hsame', heligible⟩ :=
      hother dwarf (List.mem_of_getElem? hdwarf) labor hlabor
    have heq : demand = demand' := List.inj_on_of_nodup_map hdemands
      (List.mem_of_getElem? hdemand) hmem (hsame.trans hsame'.symm)
    exact ⟨demand, dwarf, hdemand, hdwarf, heq ▸ heligible⟩
  refine map_le_map demands fun role demand hdemand hbefore => ?_
  rw [hcount hdemand, hchosen hdemand]
  refine coverage_le_selected hlists h htakes fun i hi => ?_
  have hlt : i < demands.length := hi.trans (List.getElem?_eq_some_iff.1 hdemand).1
  have hget := List.getElem?_eq_getElem hlt
  rw [← hcount hget, ← hchosen hget]
  exact hbefore i hi _ hget

/-- The units the seats give a role are those of the assignment. -/
theorem gives_assignedUnits {role : ℕ} (first : ℕ) (rest : List DwarfLaborProfile)
    (p : DwarfLaborProfile → Bool) (hp : ∀ (j : ℕ) dwarf, rest[j]? = some dwarf →
      (selectedRole roles seats (first + j) = some role ↔ p dwarf = true)) :
    Gives (assignedUnits roles seats role first rest)
      (fun units => units = (rest.filter p).map (·.id)) Refused := by
  induction rest generalizing first with
  | nil => exact .pure rfl
  | cons dwarf rest ih =>
      have hhead := hp 0 dwarf rfl
      rw [Nat.add_zero] at hhead
      refine gives_charge.bind fun _ _ => (ih (first + 1) fun j d hd => ?_).bind fun more hmore =>
        .pure ?_
      · have hnext := hp (j + 1) d hd
        rwa [show first + (j + 1) = first + 1 + j by omega] at hnext
      · rw [hmore]
        by_cases hdwarf : p dwarf = true
        · rw [if_pos (hhead.2 hdwarf), List.filter_cons_of_pos hdwarf, List.map_cons]
        · rw [if_neg fun h => hdwarf (hhead.1 h), List.filter_cons_of_neg hdwarf]

theorem gives_staff (first : ℕ) (rest : List LaborDemand)
    (p : LaborDemand → DwarfLaborProfile → Bool)
    (hp : ∀ (i : ℕ) demand, rest[i]? = some demand → ∀ (w : ℕ) dwarf, roster[w]? = some dwarf →
      (selectedRole roles seats w = some (first + i) ↔ p demand dwarf = true)) :
    Gives (staff roster roles seats first rest)
      (fun staffing => staffing.map (fun s => (s.labor, s.assignedUnits)) =
        rest.map fun demand => (demand.labor, (roster.filter (p demand)).map (·.id))) Refused := by
  induction rest generalizing first with
  | nil => exact .pure rfl
  | cons demand rest ih =>
      refine (gives_assignedUnits 0 roster (p demand) fun j dwarf hd => ?_).bind fun units hunits => ?_
      · have hhead := hp 0 demand rfl j dwarf hd
        rwa [Nat.zero_add]
      refine (Gives.of (Q := fun _ => True) (fun _ _ => trivial) fun e he => ?_).bind fun _ _ =>
        (ih (first + 1) fun i d hd w dwarf hw => ?_).bind fun more hmore => .pure ?_
      · cases htry : (U.tryFrom units.length : Option (U 32)) with
        | none =>
            rw [htry] at he
            obtain rfl := Except.error.inj he
            exact refused_exhausted
        | some n =>
            rw [htry] at he
            cases he
      · have hnext := hp (i + 1) d hd w dwarf hw
        rwa [show first + (i + 1) = first + 1 + i by omega] at hnext
      · rw [List.map_cons, List.map_cons, hmore, hunits]

end Assignments

/-! ## Actions -/

section Actions

/-- A unit is listed for a change. -/
def Noted (changes : Changes) (enabled : Bool) (labor : String) (unit : EntityId) : Prop :=
  ∃ units, changes.get? (toLex (enabled, labor)) = some units ∧ unit ∈ units

theorem noted_pushChange {changes : Changes} {enabled e : Bool} {labor l : String}
    {unit u : EntityId} : Noted (pushChange changes enabled labor unit) e l u ↔
      Noted changes e l u ∨ (e = enabled ∧ l = labor ∧ u = unit) := by
  unfold Noted pushChange
  rw [OMap.get?_insert]
  by_cases hkey : (toLex (e, l) : Bool ×ₗ String) = toLex (enabled, labor)
  · rw [if_pos hkey, hkey]
    obtain ⟨rfl, rfl⟩ := Prod.mk.inj (toLex.injective hkey)
    cases hget : changes.get? (toLex (e, l)) with
    | none => simp
    | some units => simp
  · rw [if_neg hkey]
    refine (or_iff_left ?_).symm
    rintro ⟨rfl, rfl, _⟩
    exact hkey rfl

/-- The change a role asks of a worker. -/
def Asks (dwarf : DwarfLaborProfile) (selected : Option ℕ) (demand : LaborDemand) (role : ℕ)
    (enabled : Bool) : Prop :=
  enabled = decide (selected = some role) ∧ dwarf.assignedLabors.contains demand.labor ≠ enabled

theorem gives_noteRoles (dwarf : DwarfLaborProfile) (selected : Option ℕ) (first : ℕ)
    (rest : List LaborDemand) (changes : Changes) :
    Gives (noteRoles dwarf selected first rest changes) (fun after => ∀ e l u,
      Noted after e l u ↔ Noted changes e l u ∨ (u = dwarf.id ∧ ∃ (i : ℕ) (demand : _),
        rest[i]? = some demand ∧ l = demand.labor ∧ Asks dwarf selected demand (first + i) e))
      Refused := by
  induction rest generalizing first changes with
  | nil => exact .pure fun e l u => by simp
  | cons demand rest ih =>
      refine gives_charge.bind fun _ _ => (ih _ _).conseq (fun after hafter e l u => ?_)
        fun _ he => he
      have hpush : Noted (if dwarf.assignedLabors.contains demand.labor ≠
            decide (selected = some first) then
          pushChange changes (decide (selected = some first)) demand.labor dwarf.id else changes)
          e l u ↔ Noted changes e l u ∨
            (u = dwarf.id ∧ l = demand.labor ∧ Asks dwarf selected demand first e) := by
        by_cases hasks : dwarf.assignedLabors.contains demand.labor ≠
            decide (selected = some first)
        · rw [if_pos hasks, noted_pushChange]
          refine or_congr_right ?_
          constructor
          · rintro ⟨rfl, rfl, rfl⟩
            exact ⟨rfl, rfl, rfl, hasks⟩
          · rintro ⟨rfl, rfl, rfl, _⟩
            exact ⟨rfl, rfl, rfl⟩
        · rw [if_neg hasks]
          refine (or_iff_left ?_).symm
          rintro ⟨_, _, rfl, h⟩
          exact hasks h
      refine (hafter e l u).trans ((or_congr_left hpush).trans ?_)
      rw [or_assoc, ← and_or_left]
      refine or_congr_right (and_congr_right fun _ => ?_)
      constructor
      · rintro (⟨hl, hasks⟩ | ⟨i, d, hd, hl, hasks⟩)
        · exact ⟨0, demand, rfl, hl, hasks⟩
        · exact ⟨i + 1, d, hd, hl, by rwa [show first + (i + 1) = first + 1 + i by omega]⟩
      · rintro ⟨i, d, hd, hl, hasks⟩
        cases i with
        | zero =>
            obtain rfl := Option.some.inj hd
            exact .inl ⟨hl, hasks⟩
        | succ i =>
            exact .inr ⟨i, d, hd, hl, by rwa [show first + 1 + i = first + (i + 1) by omega]⟩

/-- Relief changes no labor that is demanded. -/
theorem gives_noteRelief (demands : List LaborDemand) (dwarf : DwarfLaborProfile)
    (labors : List String) (changes : Changes) :
    Gives (noteRelief demands dwarf labors changes) (fun after => ∀ demand ∈ demands, ∀ e u,
      Noted after e demand.labor u ↔ Noted changes e demand.labor u) Refused := by
  induction labors generalizing changes with
  | nil => exact .pure fun _ _ _ _ => Iff.rfl
  | cons labor rest ih =>
      refine gives_charge.bind fun _ _ => (ih _).conseq (fun after hafter demand hdemand e u => ?_)
        fun _ he => he
      refine (hafter demand hdemand e u).trans ?_
      split_ifs with hrelief
      · rw [noted_pushChange]
        refine or_iff_left ?_
        rintro ⟨_, hsame, _⟩
        exact hrelief.2 (List.any_eq_true.2 ⟨demand, hdemand, decide_eq_true hsame⟩)
      · exact Iff.rfl

theorem gives_noteChanges {demands : List LaborDemand} {roles : Roles} {seats : Seats}
    (hdemands : (demands.map (·.labor)).Nodup) (first : ℕ) (rest : List DwarfLaborProfile)
    (noted : Changes × List EntityId) :
    Gives (noteChanges demands roles seats first rest noted) (fun after =>
      ∀ (i : ℕ) demand, demands[i]? = some demand → ∀ e u,
        Noted after.1 e demand.labor u ↔ Noted noted.1 e demand.labor u ∨
          ∃ (j : ℕ) (dwarf : _), rest[j]? = some dwarf ∧ u = dwarf.id ∧
            Asks dwarf (selectedRole roles seats (first + j)) demand i e) Refused := by
  induction rest generalizing first noted with
  | nil => exact .pure fun _ _ _ _ _ => by simp
  | cons dwarf rest ih =>
      have hstep : ∀ {changes changes' : Changes},
          (∀ e l u, Noted changes e l u ↔ Noted noted.1 e l u ∨
            (u = dwarf.id ∧ ∃ (i : ℕ) (demand : _), demands[i]? = some demand ∧ l = demand.labor ∧
              Asks dwarf (selectedRole roles seats first) demand (0 + i) e)) →
          (∀ demand ∈ demands, ∀ e u,
            Noted changes' e demand.labor u ↔ Noted changes e demand.labor u) →
          ∀ {after : Changes × List EntityId}, (∀ (i : ℕ) demand, demands[i]? = some demand →
            ∀ e u, Noted after.1 e demand.labor u ↔ Noted changes' e demand.labor u ∨
              ∃ (j : ℕ) (dwarf : _), rest[j]? = some dwarf ∧ u = dwarf.id ∧
                Asks dwarf (selectedRole roles seats (first + 1 + j)) demand i e) →
          ∀ (i : ℕ) demand, demands[i]? = some demand → ∀ e u,
            Noted after.1 e demand.labor u ↔ Noted noted.1 e demand.labor u ∨
              ∃ (j : ℕ) (dwarf' : _), (dwarf :: rest)[j]? = some dwarf' ∧ u = dwarf'.id ∧
                Asks dwarf' (selectedRole roles seats (first + j)) demand i e := by
        intro changes changes' hroles hrelief after hafter i demand hdemand e u
        rw [hafter i demand hdemand, hrelief demand (List.mem_of_getElem? hdemand), hroles,
          or_assoc]
        refine or_congr_right ?_
        constructor
        · rintro (⟨hu, k, other, hother, hsame, hasks⟩ | ⟨j, d, hd, hu, hasks⟩)
          · have hk := findIdx?_eq_some_of_nodup LaborDemand.labor hdemands hother
            have hi := findIdx?_eq_some_of_nodup LaborDemand.labor hdemands hdemand
            rw [hsame, hk, Option.some_inj] at hi
            subst hi
            obtain rfl := Option.some.inj (hdemand.symm.trans hother)
            rw [Nat.zero_add] at hasks
            exact ⟨0, dwarf, rfl, hu, hasks⟩
          · exact ⟨j + 1, d, hd, hu, by rwa [show first + (j + 1) = first + 1 + j by omega]⟩
        · rintro ⟨j, d, hd, hu, hasks⟩
          cases j with
          | zero =>
              obtain rfl := Option.some.inj hd
              exact .inl ⟨hu, i, demand, hdemand, rfl, by rwa [Nat.zero_add]⟩
          | succ j =>
              exact .inr ⟨j, d, hd, hu, by rwa [show first + 1 + j = first + (j + 1) by omega]⟩
      refine (gives_noteRoles dwarf _ 0 demands noted.1).bind fun changes hroles => ?_
      refine .ite (fun _ => ?_) fun _ => ?_
      · refine (gives_noteRelief demands dwarf heavyLabors changes).bind fun relieved hrelief => ?_
        exact (ih (first + 1) (relieved, _)).conseq (fun after hafter => hstep hroles hrelief hafter)
          fun _ he => he
      · exact (ih (first + 1) (changes, _)).conseq
          (fun after hafter => hstep hroles (fun _ _ _ _ => Iff.rfl) hafter) fun _ he => he

/-- Actions that touch a label leave it as they say, and others leave it alone. -/
theorem foldl_applyAction (entries : List ((Bool ×ₗ String) × List EntityId)) (labor : String)
    (unit : EntityId) (value : Bool) (enabled : EntityId → String → Bool)
    (hsame : ∀ entry ∈ entries, (ofLex entry.1).2 = labor → unit ∈ entry.2 →
      (ofLex entry.1).1 = value) :
    let after := (entries.map fun entry =>
      Action.setLabor entry.2 (ofLex entry.1).2 (ofLex entry.1).1).foldl applyAction enabled
    (enabled unit labor = value ∨ (∃ entry ∈ entries, (ofLex entry.1).2 = labor ∧ unit ∈ entry.2) →
      after unit labor = value) ∧
    ((∀ entry ∈ entries, (ofLex entry.1).2 = labor → unit ∉ entry.2) →
      after unit labor = enabled unit labor) := by
  induction entries generalizing enabled with
  | nil =>
      refine ⟨fun h => h.elim id ?_, fun _ => rfl⟩
      rintro ⟨_, hmem, _⟩
      cases hmem
  | cons entry rest ih =>
      have hrest := ih (applyAction enabled (.setLabor entry.2 (ofLex entry.1).2 (ofLex entry.1).1))
        fun e he => hsame e (List.mem_cons_of_mem _ he)
      have hread : applyAction enabled (.setLabor entry.2 (ofLex entry.1).2 (ofLex entry.1).1)
          unit labor = if labor = (ofLex entry.1).2 ∧ unit ∈ entry.2 then (ofLex entry.1).1
            else enabled unit labor := rfl
      constructor
      · intro h
        refine hrest.1 ?_
        rw [hread]
        by_cases hhere : labor = (ofLex entry.1).2 ∧ unit ∈ entry.2
        · rw [if_pos hhere]
          exact .inl (hsame entry List.mem_cons_self hhere.1.symm hhere.2)
        · rw [if_neg hhere]
          rcases h with h | ⟨e, he, hlabor, hunit⟩
          · exact .inl h
          · rcases List.mem_cons.1 he with rfl | he
            · exact absurd ⟨hlabor.symm, hunit⟩ hhere
            · exact .inr ⟨e, he, hlabor, hunit⟩
      · intro h
        have hhere : ¬ (labor = (ofLex entry.1).2 ∧ unit ∈ entry.2) := fun hh =>
          h entry List.mem_cons_self hh.1.symm hh.2
        refine (hrest.2 fun e he => h e (List.mem_cons_of_mem _ he)).trans ?_
        rw [hread, if_neg hhere]

theorem touches_iff (changes : Changes) (labor : String) (unit : EntityId) (e : Bool) :
    (∃ entry ∈ changes.toList, (ofLex entry.1).2 = labor ∧ unit ∈ entry.2 ∧ (ofLex entry.1).1 = e) ↔
      Noted changes e labor unit := by
  constructor
  · rintro ⟨⟨key, units⟩, hmem, rfl, hunit, rfl⟩
    exact ⟨units, (OMap.mem_toList_iff _ _ _).1 hmem, hunit⟩
  · rintro ⟨units, hget, hunit⟩
    exact ⟨(toLex (e, labor), units), (OMap.mem_toList_iff _ _ _).2 hget, rfl, hunit, rfl⟩

/-- What the roster was observed with does not depend on its order. -/
theorem observed_perm {roster roster' : List DwarfLaborProfile} (h : roster.Perm roster') :
    observed roster = observed roster' := by
  funext unit labor
  refine Bool.eq_iff_iff.2 ?_
  unfold observed
  rw [List.any_eq_true, List.any_eq_true]
  exact exists_congr fun _ => and_congr_left fun _ => h.mem_iff

theorem observed_eq {roster : List DwarfLaborProfile} (hroster : (roster.map (·.id)).Nodup)
    {dwarf : DwarfLaborProfile} (hdwarf : dwarf ∈ roster) (labor : String) :
    observed roster dwarf.id labor = dwarf.assignedLabors.contains labor := by
  refine Bool.eq_iff_iff.2 ?_
  unfold observed
  rw [List.any_eq_true]
  constructor
  · rintro ⟨other, hother, h⟩
    rw [Bool.and_eq_true, decide_eq_true_iff] at h
    rw [← List.inj_on_of_nodup_map hroster hother hdwarf h.1]
    exact h.2
  · exact fun h => ⟨dwarf, hdwarf, by rw [Bool.and_eq_true]; exact ⟨decide_eq_true rfl, h⟩⟩

/-- **The actions enable a demanded labor for exactly the workers of its role.** -/
theorem enabledAfter_iff {roster : List DwarfLaborProfile} (selected : ℕ → Option ℕ) (i : ℕ)
    (hroster : (roster.map (·.id)).Nodup) {changes : Changes}
    {demand : LaborDemand} (hnoted : ∀ e u, Noted changes e demand.labor u ↔
      ∃ (j : ℕ) (dwarf : _), roster[j]? = some dwarf ∧ u = dwarf.id ∧
        Asks dwarf (selected j) demand i e) (unit : EntityId) :
    enabledAfter roster (actionsOf changes) unit demand.labor = true ↔
      ∃ (j : ℕ) (dwarf : _), roster[j]? = some dwarf ∧ unit = dwarf.id ∧ selected j = some i := by
  have hunique : ∀ {j k : ℕ} {d d' : DwarfLaborProfile}, roster[j]? = some d →
      roster[k]? = some d' → d.id = d'.id → j = k := by
    intro j k d d' hj hk hsame
    have hj' := findIdx?_eq_some_of_nodup DwarfLaborProfile.id hroster hj
    have hk' := findIdx?_eq_some_of_nodup DwarfLaborProfile.id hroster hk
    rw [hsame, hk', Option.some_inj] at hj'
    exact hj'.symm
  by_cases hunit : ∃ (j : ℕ) (dwarf : _), roster[j]? = some dwarf ∧ unit = dwarf.id
  · obtain ⟨j, dwarf, hj, rfl⟩ := hunit
    have hfold := foldl_applyAction changes.toList demand.labor dwarf.id
      (decide (selected j = some i)) (observed roster) (by
        intro entry hentry hlabor hmem
        obtain ⟨k, d, hk, hsame, hasks⟩ :=
          (hnoted _ _).1 ((touches_iff changes _ _ _).1 ⟨entry, hentry, hlabor, hmem, rfl⟩)
        rw [hasks.1, hunique hj hk hsame])
    have hvalue : enabledAfter roster (actionsOf changes) dwarf.id demand.labor =
        decide (selected j = some i) := by
      refine hfold.1 ?_
      by_cases hasks : dwarf.assignedLabors.contains demand.labor = decide (selected j = some i)
      · exact .inl ((observed_eq hroster (List.mem_of_getElem? hj) _).trans hasks)
      · obtain ⟨entry, hentry, hlabor, hmem, _⟩ := (touches_iff changes _ _ _).2
          ((hnoted (decide (selected j = some i)) dwarf.id).2 ⟨j, dwarf, hj, rfl, rfl, hasks⟩)
        exact .inr ⟨entry, hentry, hlabor, hmem⟩
    rw [hvalue, decide_eq_true_iff]
    constructor
    · exact fun h => ⟨j, dwarf, hj, rfl, h⟩
    · rintro ⟨k, d, hk, hsame, h⟩
      rwa [hunique hj hk hsame]
  · have hfold := foldl_applyAction changes.toList demand.labor unit false (observed roster) (by
      intro entry hentry hlabor hmem
      obtain ⟨k, d, hk, hsame, _⟩ :=
        (hnoted _ _).1 ((touches_iff changes _ _ _).1 ⟨entry, hentry, hlabor, hmem, rfl⟩)
      exact absurd ⟨k, d, hk, hsame⟩ hunit)
    have hobserved : observed roster unit demand.labor = false := by
      unfold observed
      rw [List.any_eq_false]
      intro dwarf hdwarf h
      rw [Bool.and_eq_true, decide_eq_true_iff] at h
      obtain ⟨j, hj⟩ := List.getElem?_of_mem hdwarf
      exact hunit ⟨j, dwarf, hj, h.1.symm⟩
    have hvalue : enabledAfter roster (actionsOf changes) unit demand.labor = false :=
      hfold.1 (.inl hobserved)
    rw [hvalue]
    refine iff_of_false Bool.false_ne_true ?_
    rintro ⟨j, dwarf, hj, hsame, _⟩
    exact hunit ⟨j, dwarf, hj, hsame⟩

end Actions

/-! ## A request -/

section Requests

/-- What a proposal for a sorted roster and sorted demands amounts to. -/
structure Proposes (roster : List DwarfLaborProfile) (demands : List LaborDemand)
    (allocation : LaborAllocation) (assignment : EntityId → Option String) : Prop where
  valid : Assignment roster demands assignment
  staffing : allocation.staffing.map (fun s => (s.labor, s.assignedUnits)) =
    demands.map fun demand => (demand.labor,
      (roster.filter fun dwarf => assignment dwarf.id = some demand.labor).map (·.id))
  within : ∀ demand ∈ demands,
    roster.countP (fun dwarf => assignment dwarf.id = some demand.labor) ≤ demand.workers.val
  best : ∀ other, Assignment roster demands other →
    demands.map (covered roster other) ≤ demands.map (covered roster assignment)
  enabled : ∀ demand ∈ demands, ∀ unit,
    enabledAfter roster allocation.actions unit demand.labor = true ↔
      unit ∈ (roster.filter fun dwarf => assignment dwarf.id = some demand.labor).map (·.id)

theorem gives_propose {roster : List DwarfLaborProfile} {demands : List LaborDemand}
    (hroster : (roster.map (·.id)).Nodup) (hdemands : (demands.map (·.labor)).Nodup)
    (maxActions : ℕ) :
    Gives (propose roster demands maxActions)
      (fun allocation => ∃ assignment, Proposes roster demands allocation assignment)
      Refused := by
  refine gives_listRoles.bind fun roles hlists => ?_
  rw [List.range_eq_range']
  refine (gives_fill hlists _ 0 (Nat.zero_add _) .start).bind fun seats hfilled => ?_
  have hnamed : ∀ (i : ℕ) demand, demands[i]? = some demand → ∀ (w : ℕ) dwarf,
      roster[w]? = some dwarf → (selectedRole roles seats w = some (0 + i) ↔
        decide (chosen roster demands roles seats dwarf.id = some demand.labor) = true) := by
    intro i demand hdemand w dwarf hw
    rw [Nat.zero_add, decide_eq_true_iff]
    exact (named_eq_labor hroster hdemands hw hdemand).symm
  refine (gives_staff 0 demands _ hnamed).bind fun staffing hstaffing => ?_
  refine (gives_noteChanges hdemands 0 roster (.nil, [])).bind fun noted hnoted => ?_
  refine (Gives.rejectIf fun _ => refused_exhausted).bind fun _ _ => ?_
  refine Gives.bind (Q := fun _ => True) (Meets.get fun _ _ => trivial) fun work _ => .pure ?_
  refine ⟨chosen roster demands roles seats, assignment_chosen hroster hfilled.holds, hstaffing,
    fun demand hdemand => countP_chosen_le hroster hdemands hlists hfilled.holds hdemand,
    fun other hother => coverage_le_chosen hroster hdemands hlists hfilled hother,
    fun demand hdemand unit => ?_⟩
  obtain ⟨i, hi⟩ := List.getElem?_of_mem hdemand
  refine (enabledAfter_iff (selectedRole roles seats) i hroster
    (fun e u => ?_) unit).trans ?_
  · rw [hnoted i demand hi e u]
    refine (or_iff_right ?_).trans ?_
    · rintro ⟨_, hget, _⟩
      cases hget
    · simp only [Nat.zero_add]
  · rw [List.mem_map]
    constructor
    · rintro ⟨j, dwarf, hj, rfl, hselected⟩
      refine ⟨dwarf, List.mem_filter.2 ⟨List.mem_of_getElem? hj, ?_⟩, rfl⟩
      exact (hnamed i demand hi j dwarf hj).1 (by rwa [Nat.zero_add])
    · rintro ⟨dwarf, hmem, rfl⟩
      obtain ⟨hdwarf, hchosen⟩ := List.mem_filter.1 hmem
      obtain ⟨j, hj⟩ := List.getElem?_of_mem hdwarf
      have hselected := (hnamed i demand hi j dwarf hj).2 hchosen
      exact ⟨j, dwarf, hj, rfl, by rwa [Nat.zero_add] at hselected⟩

theorem gives_checkSkills (skills : List (String × U 32)) :
    Gives (checkSkills skills) (fun _ => True) Refused := by
  induction skills with
  | nil => exact .pure trivial
  | cons e rest ih =>
      exact gives_charge.bind fun _ _ => (gives_token e.1).bind fun _ _ =>
        (Gives.rejectIf fun _ => refused_invalid _).bind fun _ _ => ih

theorem gives_checkLabors (labors : List String) :
    Gives (checkLabors labors) (fun _ => True) Refused := by
  induction labors with
  | nil => exact .pure trivial
  | cons labor rest ih =>
      exact gives_charge.bind fun _ _ => (gives_token labor).bind fun _ _ => ih

theorem gives_checkRoster (seen : BTreeSet EntityId) (roster : List DwarfLaborProfile) :
    Gives (checkRoster seen roster) (fun _ => True) Refused := by
  induction roster generalizing seen with
  | nil => exact .pure trivial
  | cons dwarf rest ih =>
      exact gives_charge.bind fun _ _ =>
        (Gives.rejectIf fun _ => refused_invalid _).bind fun _ _ =>
        (Gives.rejectIf fun _ => refused_exhausted).bind fun _ _ =>
        (gives_checkSkills _).bind fun _ _ => (gives_checkLabors _).bind fun _ _ => ih _

theorem gives_checkDemands (maxPositions : ℕ) (seen : BTreeSet String) (positions : ℕ)
    (demands : List LaborDemand) :
    Gives (checkDemands maxPositions seen positions demands) (fun _ => True) Refused := by
  induction demands generalizing seen positions with
  | nil => exact .pure trivial
  | cons demand rest ih =>
      exact gives_charge.bind fun _ _ => (gives_token _).bind fun _ _ => (gives_token _).bind
        fun _ _ => (Gives.rejectIf fun _ => refused_invalid _).bind fun _ _ =>
        (Gives.rejectIf fun _ => refused_exhausted).bind fun _ _ => ih _ _

theorem gives_validateRoster (roster : List DwarfLaborProfile) (maxRoster : ℕ) :
    Gives (validateRoster roster maxRoster) (fun _ => True) Refused :=
  (Gives.rejectIf fun _ => refused_exhausted).bind fun _ _ =>
    (gives_checkRoster _ _).bind fun _ _ => .pure trivial

theorem gives_validateDemands (demands : List LaborDemand) (limits : LaborAllocationLimits) :
    Gives (validateDemands demands limits) (fun _ => True) Refused :=
  (Gives.rejectIf fun _ => refused_exhausted).bind fun _ _ =>
    (gives_checkDemands _ _ _ _).bind fun _ _ => .pure trivial

/-- Sorting keeps the members. -/
theorem sortRoster_perm (roster : List DwarfLaborProfile) : (sortRoster roster).Perm roster :=
  List.perm_insertionSort _ _

theorem sortDemands_perm (demands : List LaborDemand) : (sortDemands demands).Perm demands :=
  List.perm_insertionSort _ _

/-- A request is refused, or read as its sorted lists, and then in any order with the same
result. -/
theorem allocateDemands_cases (roster : List DwarfLaborProfile) (demands : List LaborDemand)
    (limits : LaborAllocationLimits) :
    (∃ e, allocateDemands roster demands limits = .error e ∧ Refused e) ∨
    (ValidRoster roster ∧ ValidDemands demands ∧
      (∃ w, allocateDemands roster demands limits =
        (exec (propose (sortRoster roster) (sortDemands demands) limits.maxActions) w).1) ∧
      ∀ roster' demands', roster.Perm roster' → demands.Perm demands' →
        allocateDemands roster' demands' limits = allocateDemands roster demands limits) := by
  cases hlimits : validateLimits limits with
  | error e =>
      refine .inl ⟨e, by rw [allocateDemands, hlimits]; rfl, ?_⟩
      rw [validateLimits] at hlimits
      split_ifs at hlimits
      obtain rfl := Except.error.inj hlimits
      exact refused_invalid _
  | ok u =>
      have hexec : ∀ roster demands, allocateDemands roster demands limits = (exec (do
          let roster ← validateRoster roster limits.maxRoster
          let demands ← validateDemands demands limits
          propose roster demands limits.maxActions) ⟨0, limits.maxWork.val⟩).1 := by
        intro roster demands
        rw [allocateDemands, hlimits]
        rfl
      cases hread : exec (validateRoster roster limits.maxRoster) ⟨0, limits.maxWork.val⟩ with
      | mk result w₁ =>
          cases result with
          | error e =>
              refine .inl ⟨e, ?_, (gives_validateRoster roster limits.maxRoster).error hread⟩
              rw [hexec, exec_bind, hread]
          | ok sorted =>
              obtain ⟨hroster, rfl, hsolvent, hmaximum, hany⟩ :=
                validateRoster_ok (Nat.zero_le _) limits.maxWork.isLt hread
              cases hdemands : exec (validateDemands demands limits) w₁ with
              | mk result w₂ =>
                  cases result with
                  | error e =>
                      refine .inl ⟨e, ?_, (gives_validateDemands demands limits).error hdemands⟩
                      rw [hexec, exec_bind, hread]
                      dsimp only
                      rw [exec_bind, hdemands]
                  | ok sorted =>
                      obtain ⟨hvalid, rfl, hanyDemands⟩ := validateDemands_ok hsolvent
                        (hmaximum ▸ limits.maxWork.isLt) hdemands
                      have hsame : ∀ roster' demands', roster.Perm roster' →
                          demands.Perm demands' → allocateDemands roster' demands' limits =
                            (exec (propose (sortRoster roster) (sortDemands demands)
                              limits.maxActions) w₂).1 := by
                        intro roster' demands' hperm hpermDemands
                        rw [hexec, exec_bind, hany roster' hperm]
                        dsimp only
                        rw [exec_bind, hanyDemands demands' hpermDemands]
                      have hself := hsame roster demands (.refl _) (.refl _)
                      exact .inr ⟨hroster, hvalid, ⟨w₂, hself⟩, fun roster' demands' hperm hperm' =>
                        (hsame roster' demands' hperm hperm').trans hself.symm⟩

/-- An assignment of the sorted lists is one of the lists. -/
theorem assignment_sort (roster : List DwarfLaborProfile) (demands : List LaborDemand)
    (assignment : EntityId → Option String) :
    Assignment (sortRoster roster) (sortDemands demands) assignment ↔
      Assignment roster demands assignment := by
  unfold Assignment
  simp only [(sortRoster_perm roster).mem_iff, (sortDemands_perm demands).mem_iff]

theorem covered_sort (roster : List DwarfLaborProfile) (assignment : EntityId → Option String) :
    covered (sortRoster roster) assignment = covered roster assignment := by
  funext demand
  rw [covered, covered, (sortRoster_perm roster).countP_eq]

/-- **Labor allocation is lexicographically optimal.** A request fails for its own sake only. An
accepted one gets an assignment of roles to eligible workers that covers the demands, in the order
of priority and labor, at least as well as every other; the allocation is the same in any order of
the roster and of the demands; and its actions leave every demanded labor enabled for exactly the
units assigned to it. -/
theorem labor_allocation_exact (roster : List DwarfLaborProfile) (demands : List LaborDemand)
    (limits : LaborAllocationLimits) :
    (∀ e, allocateDemands roster demands limits = .error e → Refused e) ∧
    ∀ allocation, allocateDemands roster demands limits = .ok allocation →
      (∃ assignment, Assignment roster demands assignment ∧
        (allocation.staffing.map fun s => (s.labor, s.assignedUnits)) =
          (sortDemands demands).map (fun d => (d.labor, units roster assignment d.labor)) ∧
        (allocation.staffing.map fun s => s.assignedUnits.length) =
          coverage roster demands assignment ∧
        ∀ other, Assignment roster demands other →
          coverage roster demands other ≤ coverage roster demands assignment) ∧
      (∀ roster' demands', roster.Perm roster' → demands.Perm demands' →
        allocateDemands roster' demands' limits = .ok allocation) ∧
      ∀ s ∈ allocation.staffing, ∀ unit,
        enabledAfter roster allocation.actions unit s.labor = true ↔ unit ∈ s.assignedUnits := by
  rcases allocateDemands_cases roster demands limits with
    ⟨e, herror, hrefused⟩ | ⟨hroster, hdemands, ⟨w, hrun⟩, hany⟩
  · refine ⟨fun e' he' => ?_, fun allocation h => ?_⟩
    · obtain rfl := Except.error.inj (herror.symm.trans he')
      exact hrefused
    · cases herror.symm.trans h
  · have hids : ((sortRoster roster).map (·.id)).Nodup :=
      ((sortRoster_perm roster).map _).nodup_iff.2 hroster.nodup
    have hlabors : ((sortDemands demands).map (·.labor)).Nodup :=
      ((sortDemands_perm demands).map _).nodup_iff.2 hdemands.nodup
    have hgives := gives_propose hids hlabors limits.maxActions
    refine ⟨fun e he => hgives.error (s := w) (Prod.ext (hrun.symm.trans he) rfl),
      fun allocation h => ?_⟩
    obtain ⟨assignment, hproposes⟩ := hgives.ok (s := w) (Prod.ext (hrun.symm.trans h) rfl)
    refine ⟨⟨assignment, (assignment_sort _ _ _).1 hproposes.valid, hproposes.staffing, ?_, ?_⟩,
      fun roster' demands' hperm hperm' => (hany roster' demands' hperm hperm').trans h, ?_⟩
    · have hlengths := congrArg (List.map fun e : String × List EntityId => e.2.length)
        hproposes.staffing
      rw [List.map_map, List.map_map] at hlengths
      refine hlengths.trans (List.map_congr_left fun demand hdemand => ?_)
      have hwithin := hproposes.within demand hdemand
      rw [← covered_sort, covered, min_eq_left hwithin, List.countP_eq_length_filter]
      exact List.length_map _
    · intro other hother
      have hbest := hproposes.best other ((assignment_sort _ _ _).2 hother)
      rwa [covered_sort, covered_sort] at hbest
    · intro s hs unit
      have hmem : (s.labor, s.assignedUnits) ∈ (sortDemands demands).map fun d => (d.labor,
          ((sortRoster roster).filter fun dwarf => assignment dwarf.id = some d.labor).map
            (·.id)) := by
        rw [← hproposes.staffing]
        exact List.mem_map_of_mem hs
      obtain ⟨demand, hdemand, hsame⟩ := List.mem_map.1 hmem
      obtain ⟨hlabor, hunits⟩ := Prod.mk.inj hsame
      rw [← hlabor, ← hunits, enabledAfter, ← observed_perm (sortRoster_perm roster)]
      exact hproposes.enabled demand hdemand unit

end Requests

/-! ## A brewer who can also mine -/

namespace Brewery

def citizen (id : EntityId) (skills : List (String × U 32)) : DwarfLaborProfile :=
  ⟨id, .ofList skills, 0, .nil⟩

def roster : List DwarfLaborProfile :=
  [citizen 1 [("BREWING", 15), ("MINING", 15)], citizen 2 [("BREWING", 5)]]

def demands : List LaborDemand := [⟨"BREWING", "BREWING", 1, 1, 0⟩, ⟨"MINING", "MINING", 1, 1, 1⟩]

def limits : LaborAllocationLimits := ⟨512, 64, 512, 64, 1000000⟩

end Brewery

open Brewery in
/-- The better brewer mines, because nobody else can, and both demands are covered. -/
theorem labor_allocation_exact_brewery : ∃ allocation,
    allocateDemands roster demands limits = .ok allocation ∧
      enabledAfter roster allocation.actions 1 "MINING" = true ∧
      enabledAfter roster allocation.actions 2 "BREWING" = true ∧
      allocateDemands roster.reverse demands.reverse limits = .ok allocation := by
  have hok : (allocateDemands roster demands limits).isOk = true := by decide +kernel
  obtain ⟨allocation, hallocation⟩ := (isOk_iff _).1 hok
  obtain ⟨_, hany, henabled⟩ :=
    (labor_allocation_exact roster demands limits).2 allocation hallocation
  have hstaffing : (allocateDemands roster demands limits).toOption.map
      (fun a => a.staffing.map fun s => (s.labor, s.assignedUnits)) =
        some [("BREWING", [2]), ("MINING", [1])] := by decide +kernel
  rw [hallocation] at hstaffing
  have hmem : ∀ labor unit, (labor, [unit]) ∈ [("BREWING", [(2 : EntityId)]), ("MINING", [1])] →
      enabledAfter roster allocation.actions unit labor = true := by
    intro labor unit hpair
    rw [← Option.some.inj hstaffing] at hpair
    obtain ⟨s, hs, hsame⟩ := List.mem_map.1 hpair
    obtain ⟨hlabor, hunits⟩ := Prod.mk.inj hsame
    refine (hlabor ▸ henabled s hs unit).2 ?_
    rw [hunits]
    exact List.mem_singleton_self unit
  exact ⟨allocation, hallocation, hmem _ _ (by simp), hmem _ _ (by simp),
    hany _ _ (List.reverse_perm _).symm (List.reverse_perm _).symm⟩

end Dfmcp.Labor
