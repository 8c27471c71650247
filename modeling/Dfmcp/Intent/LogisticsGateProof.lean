import Dfmcp.Intent.LogisticsPlanProof

/-!
# The gates of production proposals

The proposals of a plan are accepted only when no two resources share a material and every
dependency is an earlier step. Then the conditions of an order hold before each of its batches: its
output is still below what is needed, its inputs are there, and its suppliers are complete.

* `owned_of_digestSteps`, `earlier_of_digestSteps` — what the digest of a plan checks;
* `PlanOf.gated` — the gates hold while the plan is run;
* `production_planning_exact` — everything that is promised of production planning.
-/

namespace Dfmcp.Logistics

open Machine Method Production

/-! ## What the digest checks -/

section Digest

variable {bindings owners owners' : BTreeMap String String} {batches : U 32} {index : Nat}

/-- A resource has a material that it alone stands for. -/
def Owned (bindings owners : BTreeMap String String) (resource : String) : Prop :=
  ∃ material, bindings.get? resource = some material ∧ owners.get? material = some resource

/-- Owners are never replaced by others. -/
def Keeps (owners owners' : BTreeMap String String) : Prop :=
  ∀ material resource, owners.get? material = some resource →
    owners'.get? material = some resource

theorem Owned.keeps {resource : String} (h : Owned bindings owners resource)
    (hkeeps : Keeps owners owners') : Owned bindings owners' resource := by
  obtain ⟨material, hbound, howner⟩ := h
  exact ⟨material, hbound, hkeeps material resource howner⟩

theorem demanded_ok_iff {α : Type} {value : Option α} {e : DfmcpError} {a : α} :
    demanded value e = .ok a ↔ value = some a := by
  cases value with
  | none => simp [demanded]
  | some b => simp [demanded]

/-- A check that was passed. -/
theorem reject_ok_iff {α : Type} {bad : Prop} [Decidable bad] {e : DfmcpError} {x : Result α}
    {a : α} : (if bad then .error e else x) = .ok a ↔ ¬ bad ∧ x = .ok a := by
  by_cases hbad : bad
  · simp [hbad]
  · simp [hbad]

theorem owned_of_digestInputs {inputs : List (String × U 32)} {bytes : Bytes}
    (h : digestInputs bindings batches inputs owners = .ok (bytes, owners')) :
    Keeps owners owners' ∧ ∀ input ∈ inputs, Owned bindings owners' input.1 := by
  induction inputs generalizing owners bytes with
  | nil =>
      cases h
      exact ⟨fun _ _ h => h, nofun⟩
  | cons input rest ih =>
      obtain ⟨resource, units⟩ := input
      unfold digestInputs at h
      obtain ⟨_, h⟩ := reject_ok_iff.1 h
      obtain ⟨material, hmaterial, h⟩ := bind_ok_iff.1 h
      have hbound := demanded_ok_iff.1 hmaterial
      obtain ⟨hprior, h⟩ := reject_ok_iff.1 h
      obtain ⟨more, hmore, h⟩ := bind_ok_iff.1 h
      cases h
      obtain ⟨hkeeps, howned⟩ := ih hmore
      have hinsert : Keeps owners (owners.insert material resource) := by
        intro m r hm
        rw [OMap.get?_insert]
        split_ifs with heq
        · subst heq
          by_contra hne
          exact hprior ⟨r, hm, fun hr => hne (hr ▸ rfl)⟩
        · exact hm
      refine ⟨fun m r hm => hkeeps m r (hinsert m r hm), fun input hinput => ?_⟩
      rcases List.mem_cons.1 hinput with rfl | hinput
      · exact ⟨material, hbound, hkeeps material resource (by rw [OMap.get?_insert, if_pos rfl])⟩
      · exact howned input hinput

/-- **What the digest of the steps checks.** -/
theorem owned_of_digestSteps {steps : List ProductionStep} {bytes : Bytes}
    (h : digestSteps bindings index steps owners = .ok bytes) :
    (∃ owners', Keeps owners owners' ∧ ∀ step ∈ steps, ∀ input ∈ step.inputUnits,
      Owned bindings owners' input.1) ∧
    ∀ before step after, steps = before ++ step :: after →
      ∀ dependency ∈ step.dependsOn, dependency < index + before.length := by
  induction steps generalizing index owners bytes with
  | nil => exact ⟨⟨owners, fun _ _ h => h, nofun⟩, fun before step after h => by simp at h⟩
  | cons step rest ih =>
      unfold digestSteps at h
      obtain ⟨_, h⟩ := reject_ok_iff.1 h
      obtain ⟨_, _, h⟩ := bind_ok_iff.1 h
      obtain ⟨_, h⟩ := reject_ok_iff.1 h
      obtain ⟨inputs, hinputs, h⟩ := bind_ok_iff.1 h
      obtain ⟨hlate, h⟩ := reject_ok_iff.1 h
      obtain ⟨more, hmore, _⟩ := bind_ok_iff.1 h
      obtain ⟨⟨final, hfinal, hrest⟩, hearlier⟩ := ih hmore
      obtain ⟨hkeeps, howned⟩ := owned_of_digestInputs (show _ = Except.ok (inputs.1, inputs.2) from hinputs)
      refine ⟨⟨final, fun m r hm => hfinal m r (hkeeps m r hm), fun s hs input hinput => ?_⟩, ?_⟩
      · rcases List.mem_cons.1 hs with rfl | hs
        · exact (howned input hinput).keeps hfinal
        · exact hrest s hs input hinput
      · intro before s after hsplit dependency hdependency
        cases before with
        | nil =>
            obtain ⟨rfl, _⟩ := List.cons.inj hsplit
            simp only [List.any_eq_true, decide_eq_true_eq, not_exists, not_and, not_le] at hlate
            exact hlate dependency hdependency
        | cons first before =>
            obtain ⟨_, htail⟩ := List.cons.inj hsplit
            have hlt := hearlier before s after htail dependency hdependency
            rw [List.length_cons]
            omega

end Digest

/-! ## What is requested -/

section Requests

variable {bindings : BTreeMap String String} {digest : Digest32} {batches : U 32}
  {count index : Nat}

theorem mem_inputConditions {inputs : List (String × U 32)} {conditions : List WorkOrderCondition}
    (h : inputConditions bindings batches inputs = .ok conditions) {condition : WorkOrderCondition}
    (hmem : condition ∈ conditions) : ∃ input ∈ inputs, ∃ material,
      bindings.get? input.1 = some material ∧
      condition = .materialAvailable material (U.wrap (input.2.val / batches.val)) := by
  induction inputs generalizing conditions with
  | nil =>
      cases h
      cases hmem
  | cons input rest ih =>
      unfold inputConditions at h
      obtain ⟨material, hmaterial, h⟩ := bind_ok_iff.1 h
      obtain ⟨more, hmore, h⟩ := bind_ok_iff.1 h
      cases h
      rcases List.mem_cons.1 hmem with rfl | hmem
      · exact ⟨input, List.mem_cons_self, material, demanded_ok_iff.1 hmaterial, rfl⟩
      · obtain ⟨other, hother, hcondition⟩ := ih hmore hmem
        exact ⟨other, List.mem_cons_of_mem _ hother, hcondition⟩

theorem mem_dependencyConditions {dependencies : List Nat}
    {found : List WorkOrderCondition × List (U 32)}
    (h : dependencyConditions digest count dependencies = .ok found)
    {condition : WorkOrderCondition} (hmem : condition ∈ found.1) :
    ∃ dependency ∈ dependencies, condition = .completedOrder (orderName digest dependency) := by
  induction dependencies generalizing found with
  | nil =>
      cases h
      cases hmem
  | cons dependency rest ih =>
      unfold dependencyConditions at h
      obtain ⟨_, h⟩ := reject_ok_iff.1 h
      obtain ⟨_, _, h⟩ := bind_ok_iff.1 h
      obtain ⟨more, hmore, h⟩ := bind_ok_iff.1 h
      cases h
      rcases List.mem_cons.1 hmem with rfl | hmem
      · exact ⟨dependency, List.mem_cons_self, rfl⟩
      · obtain ⟨other, hother, hcondition⟩ := ih hmore hmem
        exact ⟨other, List.mem_cons_of_mem _ hother, hcondition⟩

theorem mem_of_mem_normalizedConditions {conditions : List WorkOrderCondition}
    {condition : WorkOrderCondition} (h : condition ∈ normalizedConditions conditions) :
    condition ∈ conditions := by
  have hsorted := (List.destutter_sublist _ _).subset h
  exact (List.perm_insertionSort _ _).mem_iff.1 hsorted

/-- A condition of an order is about its output, one of its inputs or one of its dependencies. -/
inductive Gate (bindings : BTreeMap String String) (digest : Digest32) (step : ProductionStep) :
    WorkOrderCondition → Prop where
  | output : Gate bindings digest step (.itemCountBelow step.outputToken step.inventoryThreshold)
  | input (input : String × U 32) (material : String) : input ∈ step.inputUnits →
      bindings.get? input.1 = some material → Gate bindings digest step
        (.materialAvailable material (U.wrap (input.2.val / step.batches.val)))
  | dependency (dependency : Nat) : dependency ∈ step.dependsOn →
      Gate bindings digest step (.completedOrder (orderName digest dependency))

theorem gates_of_requestStep {step : ProductionStep} {action : RequestedAction}
    (h : requestStep bindings digest count index step = .ok action) :
    ∃ conditions, action.action =
        .createWorkOrder (orderName digest index) step.jobToken step.batches conditions ∧
      ∀ condition ∈ conditions, Gate bindings digest step condition := by
  unfold requestStep at h
  obtain ⟨inputs, hinputs, h⟩ := bind_ok_iff.1 h
  obtain ⟨dependencies, hdependencies, h⟩ := bind_ok_iff.1 h
  cases h
  refine ⟨_, rfl, fun condition hmem => ?_⟩
  rcases List.mem_cons.1 (mem_of_mem_normalizedConditions hmem) with rfl | hmem
  · exact .output
  · rcases List.mem_append.1 hmem with hmem | hmem
    · obtain ⟨input, hinput, material, hmaterial, rfl⟩ := mem_inputConditions hinputs hmem
      exact .input input material hinput hmaterial
    · obtain ⟨dependency, hdependency, rfl⟩ := mem_dependencyConditions hdependencies hmem
      exact .dependency dependency hdependency

theorem requestSteps_spec {steps : List ProductionStep} {actions : List RequestedAction}
    (h : requestSteps bindings digest count index steps = .ok actions) :
    actions.length = steps.length ∧
    (actions.filterMap fun action => workOrderName action.action) =
      (List.range' index steps.length).map (orderName digest) ∧
    ∀ before step after, steps = before ++ step :: after → ∃ action,
      actions[before.length]? = some action ∧
      requestStep bindings digest count (index + before.length) step = .ok action := by
  induction steps generalizing index actions with
  | nil =>
      cases h
      exact ⟨rfl, rfl, fun before step after h => by simp at h⟩
  | cons step rest ih =>
      unfold requestSteps at h
      obtain ⟨action, haction, h⟩ := bind_ok_iff.1 h
      obtain ⟨more, hmore, h⟩ := bind_ok_iff.1 h
      cases h
      obtain ⟨hlength, hnames, hsteps⟩ := ih hmore
      obtain ⟨conditions, hcreate, _⟩ := gates_of_requestStep haction
      refine ⟨by rw [List.length_cons, List.length_cons, hlength], ?_, ?_⟩
      · rw [List.filterMap_cons_some (by rw [hcreate]; rfl), hnames, List.length_cons,
          List.range'_succ, List.map_cons]
      · intro before s after hsplit
        cases before with
        | nil =>
            obtain ⟨rfl, _⟩ := List.cons.inj hsplit
            exact ⟨action, rfl, haction⟩
        | cons first before =>
            obtain ⟨_, htail⟩ := List.cons.inj hsplit
            obtain ⟨found, hfound, hrequest⟩ := hsteps before s after htail
            refine ⟨found, hfound, ?_⟩
            rw [List.length_cons, ← hrequest]
            congr 1
            omega

/-- Orders of one plan have names of their own. -/
theorem orderName_injective (digest : Digest32) : Function.Injective (orderName digest) := by
  intro m n h
  have hsuffix : toString m = toString n := by
    simpa [orderName, String.append_right_inj] using h
  have hdigits : ∀ k : Nat, (toString k).toList = Nat.toDigits 10 k := fun k => Nat.toList_repr
  have hsame := congrArg String.toList hsuffix
  rw [hdigits, hdigits] at hsame
  rw [← Nat.ofDigitChars_ten_toDigits (n := m), hsame, Nat.ofDigitChars_ten_toDigits]

end Requests

/-! ## The gates hold -/

section Gates

variable {compiler : ProductionLogisticsCompiler} {quotas : List ProductionQuota}
  {inventory : InventoryStockpile} {model : ExpandedModel} {made : List String}
  {plan : ProductionPlan} {nodes : BTreeSet String}

/-- A batch takes of an input what its gate asks for. -/
theorem StepOf.takes_eq (hgrown : Grown nodes model.active)
    (hdeclared : Declared (shopOf compiler quotas inventory) inventory model.goals model.active)
    {step : ProductionStep} (h : StepOf model step) (hpos : 0 < step.batches.val)
    {input : String × U 32} (hinput : input ∈ step.inputUnits) :
    (U.wrap (input.2.val / step.batches.val) : U 32).val =
      (shopOf compiler quotas inventory).takes step.outputToken input.1 := by
  obtain ⟨recipe, hrecipe, hinputs⟩ := h.inputs
  obtain ⟨amount, hmem, hunits⟩ := hinputs input hinput
  rw [hunits, Nat.mul_div_cancel _ hpos, U.wrap_val amount.isLt,
    hdeclared.takes _ recipe hrecipe,
    amountIn_of_mem (hgrown.proper _ recipe hrecipe).distinct hmem]

/-- **The gates of a plan's proposals hold** before every batch, when the plan is run. -/
theorem PlanOf.gated (hplan : PlanOf compiler quotas inventory model plan)
    (h : Makes compiler quotas inventory model made) (hgrown : Grown nodes model.active)
    (hordered : Ordered nodes model.active model.order)
    (hdeclared : Declared (shopOf compiler quotas inventory) inventory model.goals model.active)
    {namespaceDigest : Digest32} {bindings : BTreeMap String String}
    {actions : List RequestedAction}
    (hactions : plan.intoRequestedActions namespaceDigest bindings = .ok actions) :
    plan.Gated (shopOf compiler quotas inventory) bindings actions := by
  unfold ProductionPlan.intoRequestedActions at hactions
  obtain ⟨_, hfeasible, hactions⟩ := bind_ok_iff.1 hactions
  obtain ⟨_, hactions⟩ := reject_ok_iff.1 hactions
  obtain ⟨_, hactions⟩ := reject_ok_iff.1 hactions
  obtain ⟨_, _, hactions⟩ := bind_ok_iff.1 hactions
  obtain ⟨digest, hdigest, hactions⟩ := bind_ok_iff.1 hactions
  have hnone : plan.shortages = [] := by
    unfold ProductionPlan.requireFeasible at hfeasible
    cases hshortages : plan.shortages with
    | nil => rfl
    | cons shortage rest =>
        rw [hshortages] at hfeasible
        cases hfeasible
  obtain ⟨bytes, hbytes, _⟩ := bind_ok_iff.1 hdigest
  obtain ⟨⟨owners, _, howned⟩, hearlier⟩ := owned_of_digestSteps hbytes
  obtain ⟨hlength, hnames, hsteps⟩ := requestSteps_spec hactions
  have hplanned := h.planned hgrown hordered hdeclared
  have hexecutes := hplan.executes h hgrown hordered hdeclared hnone
  refine ⟨hlength, ?_, fun levels => ?_, fun before step after hsplit => ?_⟩
  · rw [hnames]
    exact (List.nodup_range' ..).map (orderName_injective digest)
  · refine ⟨fun material => levels ((owners.get? material).getD ""), ?_⟩
    intro step hstep input hinput material hbound
    obtain ⟨material', hbound', howner⟩ := howned step hstep input hinput
    obtain rfl := Option.some.inj (hbound.symm.trans hbound')
    show levels ((owners.get? material).getD "") = _
    rw [howner, Option.getD_some]
  · obtain ⟨action, haction, hrequest⟩ := hsteps before step after hsplit
    obtain ⟨conditions, hcreate, hgates⟩ := gates_of_requestStep hrequest
    refine ⟨_, conditions, by rw [haction, Option.map_some, hcreate], ?_⟩
    intro n hn materials hreads condition hcondition
    have hstep : step ∈ plan.steps := hsplit ▸ by simp
    cases hgates condition hcondition with
    | output =>
        obtain ⟨hbatches, earlier, later, hmade, hlevels⟩ := hplan.during h hordered hsplit
        show levelsDuring _ before step n step.outputToken < _
        rw [hlevels n]
        have hbelow := hplanned.below hmade (hbatches.symm ▸ hn)
        rw [← h.required] at hbelow
        unfold unitsOf at hbelow
        rw [show model.required.get? step.outputToken = some step.inventoryThreshold from
          (hplan.steps step hstep).threshold] at hbelow
        exact hbelow
    | input input material hinput hbound =>
        show ((U.wrap (input.2.val / step.batches.val) : U 32).val : ℤ) ≤ materials material
        rw [hreads step hstep input hinput material hbound,
          (hplan.steps step hstep).takes_eq hgrown hdeclared (by omega) hinput]
        exact hexecutes.batch before step after hsplit n hn input.1
    | dependency dependency hdependency =>
        have hlt := hearlier before step after hsplit dependency hdependency
        rw [Nat.zero_add] at hlt
        have hbefore : before = before.take dependency ++
            before[dependency] :: before.drop (dependency + 1) := by
          rw [← List.drop_eq_getElem_cons hlt, List.take_append_drop]
        obtain ⟨supplier, hsupplier, hrequested⟩ := hsteps (before.take dependency) before[dependency]
          (before.drop (dependency + 1) ++ step :: after) (by
            rw [hsplit, ← List.cons_append, ← List.append_assoc, ← hbefore])
        obtain ⟨others, hothers, _⟩ := gates_of_requestStep hrequested
        rw [List.length_take, Nat.min_eq_left hlt.le] at hsupplier hothers
        show orderName digest dependency ∈ _
        refine List.mem_filterMap.2 ⟨supplier, ?_, by rw [hothers, Nat.zero_add]; rfl⟩
        refine List.mem_of_getElem? (i := dependency) ?_
        rw [List.getElem?_take_of_lt hlt]
        exact hsupplier

end Gates

/-! ## Everything that is promised -/

section Planning

variable (compiler : ProductionLogisticsCompiler) (quotas : List ProductionQuota)
  (inventory : InventoryStockpile) (limits : ProductionPlanningLimits)

theorem minimumStock_cons (quota : ProductionQuota) (rest : List ProductionQuota)
    (token : String) : minimumStock (quota :: rest) token =
      if quota.itemToken = token then max quota.minimumStock.val (minimumStock rest token)
      else minimumStock rest token := by
  unfold minimumStock
  by_cases h : quota.itemToken = token
  · simp [h]
  · simp [h]

theorem gives_gatherGoals {C : Prop} (goals : BTreeMap String (U 32)) :
    Gives (gatherGoals quotas goals) (fun gathered => ∀ q,
      unitsOf gathered q = max (unitsOf goals q) (minimumStock quotas q)) (Honest C) := by
  induction quotas generalizing goals with
  | nil => exact .pure fun q => (Nat.max_zero _).symm
  | cons quota rest ih =>
      refine gives_charge.bind fun _ _ => (gives_validateToken _).bind fun _ _ => ?_
      refine (ih _).conseq (fun gathered h q => ?_) fun _ he => he
      rw [h q, unitsOf_insert, minimumStock_cons]
      by_cases hq : q = quota.itemToken
      · subst hq
        rw [Function.update_self, if_pos rfl, Fin.coe_max]
        exact Nat.max_assoc ..
      · rw [Function.update_of_ne hq, if_neg (Ne.symm hq)]

/-- The models that the rounds of a request reach. -/
def Expands (e : Expansion) : Prop :=
  ∃ goals w w', exec (gatherGoals quotas .nil) w = (.ok goals, w') ∧
    Reached compiler inventory limits goals e

theorem gives_plan :
    Gives (plan compiler quotas inventory limits)
      (fun plan => ∃ model, Settled compiler quotas inventory model ∧
        PlanOf compiler quotas inventory model plan)
      (Honest (∃ e, Expands compiler quotas inventory limits e ∧ Cyclic e.active)) := by
  refine (Gives.rejectIf fun _ => honest_invalid _).bind fun _ _ => ?_
  refine (gives_traced (gives_gatherGoals quotas .nil)).bind fun goals hgoals => ?_
  obtain ⟨hgoals, w, w', hexec⟩ := hgoals
  refine (Gives.rejectIf fun _ => honest_exceeded _).bind fun _ _ => ?_
  have hstart : Expansion.Grows compiler quotas inventory goals
      ⟨goals.mapValues fun _ _ => (), .nil, 0⟩ := by
    refine ⟨⟨nofun, nofun, nofun⟩, ⟨fun _ => rfl, fun token => ?_, nofun, nofun⟩, fun q hq => ?_⟩
    · show minimumStock quotas token = unitsOf goals token
      rw [hgoals token]
      exact (Nat.zero_max _).symm
    · rw [OMap.contains_mapValues]
      exact hq
  refine (gives_expand (fun model hmodel => gives_finish hmodel) (limits.maxOrders + 1) 0
    (Nat.lt_of_lt_of_le (Nat.lt_succ_self _) (Nat.le_add_right _ _)) (Nat.zero_le _) .start
    hstart).conseq (fun _ h => h) fun err herr => herr.mono ?_
  rintro ⟨e, hreached, hcyclic⟩
  exact ⟨e, ⟨goals, w, w', hexec, hreached⟩, hcyclic⟩

/-- **Production planning balances and executes.** Every plan's requirements balance. When nothing
is missing its steps can be run in their order, every batch finds what it takes and every minimum
is met, and all gates of its proposals hold before every batch. No batch can be left out. Planning
ends with a plan or a refusal, and a cycle is reported only where active recipes have one. -/
theorem production_planning_exact :
    (∀ plan, planQuotas compiler quotas inventory limits = .ok plan →
      plan.Balanced (shopOf compiler quotas inventory) ∧
      (plan.shortages = [] → plan.Executes (shopOf compiler quotas inventory)) ∧
      plan.Least (shopOf compiler quotas inventory) ∧
      ∀ namespaceDigest bindings actions,
        plan.intoRequestedActions namespaceDigest bindings = .ok actions →
        plan.Gated (shopOf compiler quotas inventory) bindings actions) ∧
    ∀ err, planQuotas compiler quotas inventory limits = .error err →
      err.code ≠ .internalInvariantViolation ∧
      (err.code = .conflict →
        ∃ e, Expands compiler quotas inventory limits e ∧ Cyclic e.active) := by
  have hplan := gives_plan compiler quotas inventory limits
  refine ⟨fun plan hok => ?_, fun err herror => ?_⟩
  · unfold planQuotas at hok
    cases hlimits : validateLimits limits with
    | error e =>
        rw [hlimits] at hok
        cases hok
    | ok _ =>
        rw [hlimits] at hok
        obtain ⟨model, ⟨⟨nodes, edges, hgrows, hordered⟩, made, hmakes⟩, hplanOf⟩ :=
          hplan.ok (Prod.ext_iff.2 ⟨hok, rfl⟩)
        refine ⟨hplanOf.balanced hmakes hordered,
          hplanOf.executes hmakes hgrows.grown hordered hgrows.declared,
          hplanOf.least hmakes hgrows.grown hordered hgrows.declared, ?_⟩
        intro namespaceDigest bindings actions hactions
        exact hplanOf.gated hmakes hgrows.grown hordered hgrows.declared hactions
  · unfold planQuotas at herror
    cases hlimits : validateLimits limits with
    | error e =>
        rw [hlimits] at herror
        cases herror
        unfold validateLimits at hlimits
        split_ifs at hlimits
        cases hlimits
        exact honest_invalid _
    | ok _ =>
        rw [hlimits] at herror
        exact hplan.error (Prod.ext_iff.2 ⟨herror, rfl⟩)

end Planning

/-! ## A cellar -/

namespace Cellar

/-- Five drinks from a plant and a barrel, a barrel from a log. -/
def catalog : ProductionLogisticsCompiler :=
  (ProductionLogisticsCompiler.withoutRecipes.registerRecipe
    ⟨"DRINK", 5, [("PLANT", 1), ("BARREL", 1)], .workshop "Still", "BrewDrink"⟩).registerRecipe
    ⟨"BARREL", 1, [("WOOD", 1)], .workshop "Carpenters", "MakeWoodenBarrel"⟩

def stores : InventoryStockpile := ⟨((OMap.nil.insert "PLANT" 2).insert "WOOD" 2).insert "BARREL" 1⟩

def limits : ProductionPlanningLimits := ⟨250, 1024, 8192, 1000000⟩

/-- One barrel is made, then two batches of drink. -/
def planned : Result ProductionPlan := planQuotas catalog [⟨"DRINK", 10⟩] stores limits

example : (planned.toOption.map fun plan => (plan.outputs, plan.steps.map (·.batches))) =
    some (["BARREL", "DRINK"], [1, 2]) := by
  decide +kernel

end Cellar

theorem production_planning_exact_cellar :
    ∃ plan, Cellar.planned = .ok plan ∧ plan.shortages = [] ∧
      plan.Executes (shopOf Cellar.catalog [⟨"DRINK", 10⟩] Cellar.stores) := by
  have hok : Cellar.planned.toOption.isSome = true ∧
      (Cellar.planned.toOption.map (·.shortages)) = some [] := by decide +kernel
  cases hplan : Cellar.planned with
  | error e =>
      rw [hplan] at hok
      cases hok.1
  | ok plan =>
      have hnone : plan.shortages = [] := by
        rw [hplan] at hok
        exact Option.some.inj hok.2
      exact ⟨plan, rfl, hnone, ((production_planning_exact Cellar.catalog [⟨"DRINK", 10⟩]
        Cellar.stores Cellar.limits).1 plan hplan).2.1 hnone⟩

end Dfmcp.Logistics
