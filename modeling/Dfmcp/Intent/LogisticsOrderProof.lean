import Dfmcp.Intent.Logistics
import Dfmcp.Library.Topological

/-!
# The dependency order of production

Incoming edges are counted and tokens without any are listed, so the order is Kahn's. Its loop
lists every token once, and what it cannot list lies on a cycle of the active recipes.

* `gives_normalizedRecipe` — a recipe takes and yields what the declared one does;
* `gives_topologicalOrder` — every token once, consumers first, or a cycle.
-/

namespace Dfmcp.Logistics

open Machine Method

/-- An error that is not the code's own fault, and reports a cycle only where `C` says so. -/
def Honest (C : Prop) (e : DfmcpError) : Prop :=
  e.code ≠ .internalInvariantViolation ∧ (e.code = .conflict → C)

theorem Honest.mono {C D : Prop} {e : DfmcpError} (h : Honest C e) (hCD : C → D) : Honest D e :=
  ⟨h.1, fun hcode => hCD (h.2 hcode)⟩

section Errors

variable {C : Prop}

theorem honest_workExhausted : Honest C workExhausted := ⟨nofun, nofun⟩

theorem honest_invalid (message : String) : Honest C (invalid message) := ⟨nofun, nofun⟩

theorem honest_overflow (token : String) : Honest C (overflow token) := ⟨nofun, nofun⟩

theorem honest_exceeded (what : String) : Honest C (exceeded what) := ⟨nofun, nofun⟩

theorem honest_cyclic (h : C) : Honest C cyclic := ⟨nofun, fun _ => h⟩

theorem gives_charge : Gives charge (fun _ => True) (Honest C) := by
  intro w _
  unfold charge Method.charge exec
  simp only [ExceptT.run, StateT.run]
  by_cases hover : 2 ^ 64 ≤ w.used + 1
  · rw [if_pos hover]
    exact honest_workExhausted
  · rw [if_neg hover]
    by_cases hmax : w.maximum < w.used + 1
    · rw [if_pos hmax]
      exact honest_workExhausted
    · rw [if_neg hmax]
      trivial

theorem gives_orElse {α : Type} {value : Option α} {e : DfmcpError}
    (he : value = none → Honest C e) : Gives (orElse value e) (fun a => value = some a) (Honest C) := by
  cases value with
  | none => exact .fails (he rfl)
  | some a => exact .pure rfl

theorem gives_validateToken (token : String) :
    Gives (Method.of (validateToken token) : Paid PUnit) (fun _ => True) (Honest C) := by
  refine .of (fun _ _ => trivial) fun e he => ?_
  unfold validateToken at he
  split_ifs at he
  cases he
  exact honest_invalid _

theorem gives_checkWorkshop (workshop : BuildingKind) :
    Gives (Method.of (checkWorkshop workshop) : Paid PUnit) (fun _ => True) (Honest C) := by
  cases workshop with
  | workshop name | furnace name | furniture name | construction name | trap name | custom name =>
      exact gives_validateToken name
  | farmPlot | bridge | well => exact .pure trivial

end Errors

/-! ## Recipes -/

/-- How much of a token a list of inputs has. -/
def amountIn (inputs : List (String × U 32)) (token : String) : ℕ :=
  ((inputs.filter fun input => input.1 = token).map fun input => input.2.val).sum

theorem amountIn_cons (input : String × U 32) (rest : List (String × U 32)) (token : String) :
    amountIn (input :: rest) token =
      (if input.1 = token then input.2.val else 0) + amountIn rest token := by
  unfold amountIn
  by_cases h : input.1 = token
  · simp [h]
  · simp [h]

theorem amountIn_eq_zero {inputs : List (String × U 32)} {token : String}
    (h : token ∉ inputs.map Prod.fst) : amountIn inputs token = 0 := by
  induction inputs with
  | nil => rfl
  | cons input rest ih =>
      obtain ⟨hne, hrest⟩ := not_or.1 (List.mem_cons.not.1 h)
      rw [amountIn_cons, if_neg (Ne.symm hne), ih hrest]

/-- A token that is listed once has the amount it is listed with. -/
theorem amountIn_of_mem {inputs : List (String × U 32)} {token : String} {amount : U 32}
    (hdistinct : (inputs.map Prod.fst).Nodup) (hmem : (token, amount) ∈ inputs) :
    amountIn inputs token = amount.val := by
  induction inputs with
  | nil => cases hmem
  | cons input rest ih =>
      obtain ⟨hout, hrest⟩ := List.nodup_cons.1 hdistinct
      rw [amountIn_cons]
      rcases List.mem_cons.1 hmem with rfl | hmem
      · rw [if_pos rfl, amountIn_eq_zero hout, Nat.add_zero]
      · have hne : input.1 ≠ token := fun heq => hout (heq ▸ List.mem_map.2 ⟨_, hmem, rfl⟩)
        rw [if_neg hne, Nat.zero_add, ih hrest hmem]

/-- In a map a token has the amount it is mapped to. -/
theorem amountIn_toList (inputs : BTreeMap String (U 32)) (token : String) :
    amountIn inputs.toList token = ((inputs.get? token).getD 0).val := by
  cases hget : inputs.get? token with
  | none =>
      refine amountIn_eq_zero fun hmem => ?_
      have hcontains := (OMap.mem_keys_iff inputs token).1 hmem
      rw [(OMap.contains_eq_false_iff inputs token).2 hget] at hcontains
      cases hcontains
  | some amount =>
      exact amountIn_of_mem inputs.keys_nodup ((OMap.mem_toList_iff inputs token amount).2 hget)

/-- A recipe that yields something, and takes something of each of its inputs, listed once. -/
structure ProductionRecipe.Proper (recipe : ProductionRecipe) : Prop where
  yields : 0 < recipe.outputBatchSize.val
  distinct : (recipe.inputTokens.map Prod.fst).Nodup
  positive : ∀ input ∈ recipe.inputTokens, 0 < input.2.val

/-- A recipe that takes and yields the same. -/
structure ProductionRecipe.Same (recipe declared : ProductionRecipe) : Prop where
  batch : recipe.outputBatchSize = declared.outputBatchSize
  takes : ∀ token, amountIn recipe.inputTokens token = amountIn declared.inputTokens token

/-- A token of a proper recipe's inputs is one it takes of. -/
theorem ProductionRecipe.Proper.mem_iff {recipe : ProductionRecipe} (h : recipe.Proper)
    (token : String) :
    token ∈ recipe.inputTokens.map Prod.fst ↔ amountIn recipe.inputTokens token ≠ 0 := by
  constructor
  · intro hmem
    obtain ⟨input, hinput, rfl⟩ := List.mem_map.1 hmem
    have hpos := h.positive input hinput
    have hle : input.2.val ≤ amountIn recipe.inputTokens input.1 := by
      refine List.le_sum_of_mem (List.mem_map.2 ⟨input, List.mem_filter.2 ⟨hinput, ?_⟩, rfl⟩)
      simp
    omega
  · intro hne
    by_contra hout
    exact hne (amountIn_eq_zero hout)

theorem gives_mergeInputs {C : Prop} (rest : List (String × U 32))
    {inputs : BTreeMap String (U 32)} (hpos : ∀ token amount, inputs.get? token = some amount →
      0 < amount.val) :
    Gives (mergeInputs rest inputs) (fun merged =>
      (∀ token amount, merged.get? token = some amount → 0 < amount.val) ∧
      ∀ token, ((merged.get? token).getD 0).val =
        ((inputs.get? token).getD 0).val + amountIn rest token) (Honest C) := by
  induction rest generalizing inputs with
  | nil => exact .pure ⟨hpos, fun _ => rfl⟩
  | cons input rest ih =>
      obtain ⟨token, amount⟩ := input
      refine gives_charge.bind fun _ _ => (gives_validateToken token).bind fun _ _ => ?_
      refine (Gives.rejectIf fun _ => honest_invalid _).bind fun _ hamount => ?_
      refine (gives_orElse fun _ => honest_overflow token).bind fun total htotal => ?_
      have hsum := U.checkedAdd_eq_some.1 htotal
      have hzero : amount.val ≠ 0 := fun h => hamount (Fin.ext h)
      refine (ih fun q w hq => ?_).conseq (fun merged h => ⟨h.1, fun q => ?_⟩) fun _ he => he
      · rw [OMap.get?_insert] at hq
        split_ifs at hq with heq
        · cases hq
          omega
        · exact hpos q w hq
      · rw [h.2 q, OMap.get?_insert, amountIn_cons]
        by_cases hq : q = token
        · subst hq
          rw [if_pos rfl, if_pos rfl, Option.getD_some, ← hsum]
          exact Nat.add_assoc ..
        · rw [if_neg hq, if_neg (Ne.symm hq)]
          omega

/-- **A normalized recipe** takes and yields what the declared one does. -/
theorem gives_normalizedRecipe {C : Prop} (recipe : ProductionRecipe) :
    Gives (normalizedRecipe recipe) (fun normal => normal.Proper ∧ normal.Same recipe)
      (Honest C) := by
  refine gives_charge.bind fun _ _ => (gives_validateToken _).bind fun _ _ =>
    (gives_validateToken _).bind fun _ _ => ?_
  refine (Gives.rejectIf fun _ => honest_invalid _).bind fun _ _ => ?_
  refine (gives_checkWorkshop _).bind fun _ _ => ?_
  refine (Gives.rejectIf fun _ => honest_invalid _).bind fun _ hbatch => ?_
  refine (gives_mergeInputs recipe.inputTokens fun _ _ h => by cases h).bind fun merged h => ?_
  refine .pure ⟨⟨?_, merged.keys_nodup, ?_⟩, rfl, fun token => ?_⟩
  · exact Nat.pos_of_ne_zero fun hzero => hbatch (.inl (Fin.ext hzero))
  · exact (OMap.forall_get?_iff merged).1 h.1
  · show amountIn merged.toList token = _
    rw [amountIn_toList, h.2 token]
    exact Nat.zero_add _

/-! ## Counting incoming edges -/

section Order

variable {C : Prop} {nodes : BTreeSet String} {active : BTreeMap String ProductionRecipe}

theorem gives_countNodes (tokens : List String) (incoming : BTreeMap String Nat) :
    Gives (countNodes tokens incoming) (fun counted => ∀ q, counted.get? q =
      if q ∈ tokens then some 0 else incoming.get? q) (Honest C) := by
  induction tokens generalizing incoming with
  | nil => exact .pure fun q => by simp
  | cons token rest ih =>
      refine gives_charge.bind fun _ _ => (ih _).conseq (fun counted h q => ?_) fun _ he => he
      rw [h q, OMap.get?_insert]
      by_cases hq : q ∈ rest
      · simp [hq]
      · by_cases hqt : q = token
        · simp [hqt]
        · simp [hq, hqt]

theorem gives_countInputs (inputs : List (String × U 32)) (incoming : BTreeMap String Nat)
    (hdistinct : (inputs.map Prod.fst).Nodup)
    (hknown : ∀ q ∈ inputs.map Prod.fst, incoming.contains q = true) :
    Gives (countInputs inputs incoming) (fun counted => ∀ q, counted.get? q =
      (incoming.get? q).map (· + if q ∈ inputs.map Prod.fst then 1 else 0)) (Honest C) := by
  induction inputs generalizing incoming with
  | nil => exact .pure fun q => by simp
  | cons input rest ih =>
      obtain ⟨token, amount⟩ := input
      obtain ⟨hout, hrest⟩ := List.nodup_cons.1 hdistinct
      obtain ⟨n, hn⟩ := (OMap.contains_iff _ _).1 (hknown token List.mem_cons_self)
      refine gives_charge.bind fun _ _ => ?_
      refine (gives_orElse fun hnone => by rw [hn] at hnone; cases hnone).bind fun count hcount => ?_
      obtain rfl := Option.some.inj (hn.symm.trans hcount)
      refine (ih _ hrest fun q hq => ?_).conseq (fun counted h q => ?_) fun _ he => he
      · rw [OMap.contains_insert, hknown q (List.mem_cons_of_mem _ hq), Bool.or_true]
      · rw [h q, OMap.get?_insert]
        by_cases hq : q = token
        · subst hq
          rw [if_pos rfl, if_neg hout, hn, if_pos (by simp)]
          rfl
        · rw [if_neg hq]
          simp [hq]

/-- How many recipes of a list take of a token. -/
def takers (recipes : List ProductionRecipe) (token : String) : ℕ :=
  recipes.countP fun recipe => token ∈ recipe.inputTokens.map Prod.fst

theorem gives_countRecipes (recipes : List ProductionRecipe) (incoming : BTreeMap String Nat)
    (hproper : ∀ recipe ∈ recipes, recipe.Proper)
    (hknown : ∀ recipe ∈ recipes, ∀ q ∈ recipe.inputTokens.map Prod.fst,
      incoming.contains q = true) :
    Gives (countRecipes recipes incoming) (fun counted => ∀ q, counted.get? q =
      (incoming.get? q).map (· + takers recipes q)) (Honest C) := by
  induction recipes generalizing incoming with
  | nil => exact .pure fun q => by simp [takers]
  | cons recipe rest ih =>
      refine (gives_countInputs recipe.inputTokens incoming
        (hproper recipe List.mem_cons_self).distinct
        (hknown recipe List.mem_cons_self)).bind fun counted hcounted => ?_
      refine (ih counted (fun r hr => hproper r (List.mem_cons_of_mem _ hr))
        fun r hr q hq => ?_).conseq (fun after h q => ?_) fun _ he => he
      · have hbefore := hknown r (List.mem_cons_of_mem _ hr) q hq
        rw [OMap.contains, hcounted q, Option.isSome_map]
        exact hbefore
      · rw [h q, hcounted q, Option.map_map]
        congr 1
        funext n
        simp only [Function.comp_apply, takers, List.countP_cons, decide_eq_true_eq]
        omega

/-! ## The order -/

/-- What a token's recipe takes of. -/
def supplies (active : BTreeMap String ProductionRecipe) (token : String) : Finset String :=
  (((active.get? token).map (·.inputTokens)).getD [] |>.map Prod.fst).toFinset

theorem mem_supplies {token input : String} :
    input ∈ supplies active token ↔
      ∃ recipe, active.get? token = some recipe ∧ input ∈ recipe.inputTokens.map Prod.fst := by
  unfold supplies
  cases active.get? token with
  | none => simp
  | some recipe => simp

/-- Some active recipe takes, through others, of what it makes. -/
def Cyclic (active : BTreeMap String ProductionRecipe) : Prop :=
  ∃ token, Relation.TransGen (fun u v => ∃ recipe, active.get? u = some recipe ∧
    v ∈ recipe.inputTokens.map Prod.fst) token token

/-- Active recipes are proper, and their tokens and inputs are nodes. -/
structure Grown (nodes : BTreeSet String) (active : BTreeMap String ProductionRecipe) : Prop where
  proper : ∀ token recipe, active.get? token = some recipe → recipe.Proper
  known : ∀ token recipe, active.get? token = some recipe → nodes.contains token = true
  inputs : ∀ token recipe, active.get? token = some recipe →
    ∀ q ∈ recipe.inputTokens.map Prod.fst, nodes.contains q = true

theorem mem_nodes {token : String} : token ∈ nodes.keys.toFinset ↔ nodes.contains token = true := by
  rw [List.mem_toFinset, OMap.mem_keys_iff]

/-- Counting recipes is counting the tokens they are under. -/
theorem takers_values (h : Grown nodes active) (token : String) :
    takers active.values token =
      ({u ∈ nodes.keys.toFinset | token ∈ supplies active u}).card := by
  let takes : String × ProductionRecipe → Bool := fun e => token ∈ e.2.inputTokens.map Prod.fst
  have hcount : takers active.values token = ((active.toList.filter takes).map Prod.fst).length := by
    rw [List.length_map, ← List.countP_eq_length_filter, takers, OMap.values, List.countP_map]
    rfl
  have hnodup : ((active.toList.filter takes).map Prod.fst).Nodup :=
    (List.filter_sublist.map Prod.fst).nodup active.keys_nodup
  rw [hcount, ← List.toFinset_card_of_nodup hnodup]
  congr 1
  ext u
  rw [List.mem_toFinset, List.mem_map, Finset.mem_filter, mem_nodes, mem_supplies]
  constructor
  · rintro ⟨⟨t, recipe⟩, hmem, rfl⟩
    obtain ⟨hmem, htakes⟩ := List.mem_filter.1 hmem
    have hget := (OMap.mem_toList_iff active t recipe).1 hmem
    exact ⟨h.known t recipe hget, recipe, hget, by simpa [takes] using htakes⟩
  · rintro ⟨_, recipe, hget, htakes⟩
    refine ⟨(u, recipe), List.mem_filter.2 ⟨(OMap.mem_toList_iff active u recipe).2 hget, ?_⟩, rfl⟩
    simpa [takes] using htakes

/-- Releasing the inputs of a token takes one from the count of each. -/
theorem gives_releaseInputs (inputs : List (String × U 32)) (o : Ordering)
    (hdistinct : (inputs.map Prod.fst).Nodup)
    (hknown : ∀ q ∈ inputs.map Prod.fst, ∃ n, o.incoming.get? q = some (n + 1)) :
    Gives (releaseInputs inputs o) (fun after => after.ordered = o.ordered ∧
      (∀ q, after.incoming.get? q =
        (o.incoming.get? q).map (· - if q ∈ inputs.map Prod.fst then 1 else 0)) ∧
      ∀ q, after.ready.contains q = true ↔ o.ready.contains q = true ∨
        (q ∈ inputs.map Prod.fst ∧ after.incoming.get? q = some 0)) (Honest C) := by
  induction inputs generalizing o with
  | nil => exact .pure ⟨rfl, fun q => by simp, fun q => by simp⟩
  | cons input rest ih =>
      obtain ⟨token, amount⟩ := input
      obtain ⟨hout, hrest⟩ := List.nodup_cons.1 hdistinct
      obtain ⟨n, hn⟩ := hknown token List.mem_cons_self
      refine gives_charge.bind fun _ _ => ?_
      refine (gives_orElse fun hnone => by rw [hn] at hnone; cases hnone).bind fun count hcount => ?_
      obtain rfl := Option.some.inj (hn.symm.trans hcount)
      refine (Gives.rejectIf fun hzero => absurd hzero n.succ_ne_zero).bind fun _ _ => ?_
      refine (ih _ hrest fun q hq => ?_).conseq (fun after h => ?_) fun _ he => he
      · have hne : q ≠ token := fun heq => hout (heq ▸ hq)
        rw [OMap.get?_insert, if_neg hne]
        exact hknown q (List.mem_cons_of_mem _ hq)
      · obtain ⟨hordered, hincoming, hready⟩ := h
        have hstep : ∀ q, after.incoming.get? q =
            (o.incoming.get? q).map (· - if q ∈ token :: rest.map Prod.fst then 1 else 0) := by
          intro q
          rw [hincoming q, OMap.get?_insert]
          by_cases hq : q = token
          · subst hq
            rw [if_pos rfl, if_neg hout, if_pos List.mem_cons_self, hn]
            rfl
          · rw [if_neg hq]
            simp [hq]
        refine ⟨hordered, hstep, fun q => ?_⟩
        rw [hready q]
        by_cases hq : q = token
        · subst hq
          have hafter : after.incoming.get? q = some n := by
            rw [hstep q, hn, if_pos List.mem_cons_self]
            rfl
          by_cases hzero : n = 0
          · simp [hzero, hafter]
          · have hpos : ¬ (n + 1 - 1 = 0) := by omega
            simp [hzero, hafter, hout]
        · have hcontains : (if n + 1 - 1 = 0 then o.ready.insert token () else o.ready).contains q =
              o.ready.contains q := by
            split_ifs
            · simp [hq]
            · rfl
          rw [hcontains]
          simp [hq]

/-- The counts of a map, zero where it has none. -/
def countOf (incoming : BTreeMap String Nat) (token : String) : ℕ := (incoming.get? token).getD 0

/-- Kahn's invariant, for the loop of the order. -/
structure Ordering.Holds (nodes : BTreeSet String) (active : BTreeMap String ProductionRecipe)
    (o : Ordering) : Prop where
  keys : ∀ q, o.incoming.contains q = nodes.contains q
  kahn : Topological.Holds nodes.keys.toFinset (supplies active) (countOf o.incoming)
    (fun q => o.ready.contains q = true) o.ordered

/-- An order of all nodes with consumers before suppliers. -/
structure Ordered (nodes : BTreeSet String) (active : BTreeMap String ProductionRecipe)
    (order : List String) : Prop where
  nodup : order.Nodup
  mem : ∀ q, q ∈ order ↔ nodes.contains q = true
  later : order.Pairwise fun u v => u ∉ supplies active v
  itself : ∀ v ∈ order, v ∉ supplies active v

/-- Listing a token and releasing its inputs is a step of Kahn's algorithm. -/
theorem Ordering.Holds.list (hgrown : Grown nodes active) {o after : Ordering}
    (h : o.Holds nodes active) {token : String} (htoken : o.ready.contains token = true)
    (hincoming : ∀ q, after.incoming.get? q =
      (o.incoming.get? q).map (· - if q ∈ supplies active token then 1 else 0))
    (hready : ∀ q, after.ready.contains q = true ↔ (o.ready.erase token).contains q = true ∨
      (q ∈ supplies active token ∧ after.incoming.get? q = some 0))
    (hordered : after.ordered = o.ordered) :
    ({ after with ordered := after.ordered ++ [token] } : Ordering).Holds nodes active := by
  have hsupplies : ∀ q ∈ supplies active token, nodes.contains q = true := by
    intro q hq
    obtain ⟨recipe, hrecipe, hmem⟩ := mem_supplies.1 hq
    exact hgrown.inputs token recipe hrecipe q hmem
  have hget : ∀ q, nodes.contains q = true → ∃ n, o.incoming.get? q = some n := fun q hq =>
    (OMap.contains_iff _ _).1 ((h.keys q).trans hq)
  refine ⟨fun q => ?_, ?_⟩
  · rw [OMap.contains, hincoming q, Option.isSome_map]
    exact h.keys q
  · rw [hordered]
    refine h.kahn.list htoken (fun q hq => ?_) fun q => ?_
    · obtain ⟨n, hn⟩ := hget q (mem_nodes.1 hq)
      simp [countOf, hincoming q, hn]
    · rw [hready q, OMap.contains_erase, Bool.and_eq_true, decide_eq_true_eq, and_comm]
      refine or_congr_right ?_
      constructor
      · rintro ⟨hq, hzero⟩
        exact ⟨mem_nodes.2 (hsupplies q hq), hq, by simp [countOf, hzero]⟩
      · rintro ⟨hq, hmem, hzero⟩
        obtain ⟨n, hn⟩ := hget q (mem_nodes.1 hq)
        refine ⟨hmem, ?_⟩
        rw [countOf, hincoming q, hn] at hzero
        rw [hincoming q, hn]
        exact congrArg some hzero

theorem gives_drain (hgrown : Grown nodes active) (bound : Nat) {o : Ordering}
    (h : o.Holds nodes active) (hbound : bound + o.ordered.length = nodes.size) :
    Gives (drain active bound o) (fun order => ∃ last : Ordering, last.Holds nodes active ∧
      last.ready.keys = [] ∧ last.ordered = order) (Honest C) := by
  induction bound generalizing o with
  | zero =>
      unfold drain
      cases hkeys : o.ready.keys with
      | nil => exact .pure ⟨o, h, hkeys, rfl⟩
      | cons token rest =>
          have htoken : o.ready.contains token = true :=
            (OMap.mem_keys_iff _ _).1 (hkeys ▸ List.mem_cons_self)
          obtain ⟨hmem, hout, _⟩ := (h.kahn.ready token).1 htoken
          have hsub : (o.ordered ++ [token]).Subperm nodes.keys := by
            refine List.subperm_of_subset ?_ fun q hq => ?_
            · exact List.nodup_append.2 ⟨h.kahn.nodup, List.nodup_singleton token, fun a ha b hb => by
                rw [List.mem_singleton.1 hb]
                exact fun heq => hout (heq ▸ ha)⟩
            · rcases List.mem_append.1 hq with hq | hq
              · exact List.mem_toFinset.1 (h.kahn.listed q hq)
              · exact List.mem_singleton.1 hq ▸ List.mem_toFinset.1 hmem
          have hle := hsub.length_le
          rw [List.length_append, List.length_singleton, OMap.length_keys] at hle
          omega
  | succ bound ih =>
      unfold drain
      cases hkeys : o.ready.keys with
      | nil => exact .pure ⟨o, h, hkeys, rfl⟩
      | cons token rest =>
          have htoken : o.ready.contains token = true :=
            (OMap.mem_keys_iff _ _).1 (hkeys ▸ List.mem_cons_self)
          obtain ⟨hmem, hout, _⟩ := (h.kahn.ready token).1 htoken
          have hmap : ∀ q, q ∈ (((active.get? token).map (·.inputTokens)).getD []).map Prod.fst ↔
              q ∈ supplies active token := fun q => List.mem_toFinset.symm
          refine gives_charge.bind fun _ _ => ?_
          refine (gives_releaseInputs _ { o with ready := o.ready.erase token } ?_ ?_).bind
            fun after hafter => ?_
          · cases hget : active.get? token with
            | none => exact List.nodup_nil
            | some recipe => exact (hgrown.proper token recipe hget).distinct
          · intro q hq
            have hsupply := (hmap q).1 hq
            obtain ⟨recipe, hrecipe, hinput⟩ := mem_supplies.1 hsupply
            have hnode := hgrown.inputs token recipe hrecipe q hinput
            obtain ⟨n, hn⟩ := (OMap.contains_iff _ _).1 ((h.keys q).trans hnode)
            have hpos := h.kahn.incoming_pos hmem hout (mem_nodes.2 hnode) hsupply
            rw [countOf, hn, Option.getD_some] at hpos
            exact ⟨n - 1, by rw [Nat.sub_add_cancel hpos]; exact hn⟩
          · obtain ⟨hordered, hincoming, hready⟩ := hafter
            simp only [hmap] at hincoming hready
            refine ih (h.list hgrown htoken hincoming hready hordered) ?_
            rw [List.length_append, List.length_singleton, hordered]
            dsimp only
            omega

/-- **The dependency order**: every node once and consumers first, or a cycle. -/
theorem gives_topologicalOrder (hgrown : Grown nodes active) :
    Gives (topologicalOrder nodes active) (Ordered nodes active) (Honest (Cyclic active)) := by
  refine (gives_countNodes nodes.keys .nil).bind fun zeros hzeros => ?_
  have hzero : ∀ q, zeros.get? q = if nodes.contains q = true then some 0 else none := by
    intro q
    rw [hzeros q]
    simp only [OMap.mem_keys_iff]
    rfl
  have hvalues : ∀ recipe ∈ active.values, ∃ token, active.get? token = some recipe :=
    fun recipe hr => (OMap.mem_values_iff active recipe).1 hr
  refine (gives_countRecipes active.values zeros (fun recipe hr => ?_) fun recipe hr q hq => ?_).bind
    fun incoming hincoming => ?_
  · obtain ⟨token, htoken⟩ := hvalues recipe hr
    exact hgrown.proper token recipe htoken
  · obtain ⟨token, htoken⟩ := hvalues recipe hr
    rw [OMap.contains, hzero q, if_pos (hgrown.inputs token recipe htoken q hq)]
    rfl
  have hcounts : ∀ q, incoming.get? q =
      if nodes.contains q = true then some (takers active.values q) else none := by
    intro q
    rw [hincoming q, hzero q]
    split_ifs
    · simp
    · rfl
  have hstart : Ordering.Holds nodes active ⟨incoming,
      (incoming.filter fun _ count => count = 0).mapValues fun _ _ => (), []⟩ := by
    refine ⟨fun q => ?_, Topological.Holds.start (fun q hq => ?_) fun q => ?_⟩
    · rw [OMap.contains, hcounts q]
      cases hq : nodes.contains q with
      | true => rfl
      | false => rfl
    · rw [countOf, hcounts q, if_pos (mem_nodes.1 hq), Option.getD_some, takers_values hgrown]
    · rw [OMap.contains_mapValues, OMap.contains, OMap.get?_filter, countOf, hcounts q, mem_nodes]
      by_cases hq : nodes.contains q = true
      · simp [hq, Option.filter]
      · simp [hq, Option.filter]
  refine (gives_drain hgrown nodes.size hstart (by simp)).bind fun order hdone => ?_
  obtain ⟨last, hlast, hempty, rfl⟩ := hdone
  have hnone : ∀ q, ¬ last.ready.contains q = true := by
    intro q hq
    have hmem := (OMap.mem_keys_iff _ _).2 hq
    rw [hempty] at hmem
    exact absurd hmem List.not_mem_nil
  have hcard : nodes.keys.toFinset.card = nodes.size := by
    rw [List.toFinset_card_of_nodup nodes.keys_nodup, OMap.length_keys]
  refine (Gives.rejectIf fun hleft => honest_cyclic ?_).bind fun _ hfull => .pure ?_
  · obtain ⟨v, _, hcycle⟩ := hlast.kahn.cyclic hnone (by rwa [hcard])
    exact ⟨v, Relation.TransGen.mono (fun a b hab => mem_supplies.1 hab.2) v v hcycle⟩
  · obtain ⟨hlater, hitself⟩ := hlast.kahn.pairwise
    refine ⟨hlast.kahn.nodup, fun q => ?_, hlater, hitself⟩
    rw [← OMap.mem_keys_iff]
    have hsub : last.ordered.Subperm nodes.keys :=
      List.subperm_of_subset hlast.kahn.nodup fun q hq => List.mem_toFinset.1 (hlast.kahn.listed q hq)
    refine (hsub.perm_of_length_le ?_).mem_iff
    rw [OMap.length_keys, not_not.1 hfull]

end Order

end Dfmcp.Logistics
