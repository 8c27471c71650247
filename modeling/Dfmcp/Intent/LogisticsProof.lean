import Dfmcp.Intent.LogisticsOrderProof
import Dfmcp.Intent.LogisticsActions
import Dfmcp.Library.Production

/-!
# Production plans balance and execute

Demand is propagated through the dependency order, and every token is rounded to whole batches once
all demand for it is known (`Propagated`). The tokens that are made are then a plan of the declared
shop, so its batches are the least that meet the quotas, and they can be run in the reverse order.

* `gives_propagate` — one round of demand;
* `gives_expand` — rounds end, and leave no token whose recipe is needed and not used.
-/

namespace Dfmcp.Logistics

open Machine Method Production

/-! ## The declared shop -/

/-- The largest minimum stock that quotas ask for. -/
def minimumStock (quotas : List ProductionQuota) (token : String) : ℕ :=
  (quotas.filter fun quota => quota.itemToken = token).foldr (fun quota n =>
    max quota.minimumStock.val n) 0

/-- What a request declares: stocks, goals, and the recipes of the compiler. -/
def shopOf (compiler : ProductionLogisticsCompiler) (quotas : List ProductionQuota)
    (inventory : InventoryStockpile) : Shop String where
  stock token := (inventory.getStock token).val
  goal token := minimumStock quotas token
  yields token := ((compiler.recipes.get? token).map (·.outputBatchSize.val)).getD 0
  takes token input := ((compiler.recipes.get? token).map (amountIn ·.inputTokens input)).getD 0

/-- Active recipes are the shop's own. -/
structure Declared (shop : Shop String) (inventory : InventoryStockpile)
    (goals : BTreeMap String (U 32)) (active : BTreeMap String ProductionRecipe) : Prop where
  stock : ∀ token, shop.stock token = (inventory.getStock token).val
  goal : ∀ token, shop.goal token = ((goals.get? token).getD 0).val
  yields : ∀ token recipe, active.get? token = some recipe →
    shop.yields token = recipe.outputBatchSize.val
  takes : ∀ token recipe, active.get? token = some recipe →
    ∀ q, shop.takes token q = amountIn recipe.inputTokens q

section Demand

variable {C : Prop} {compiler : ProductionLogisticsCompiler} {inventory : InventoryStockpile}
  {goals : BTreeMap String (U 32)} {shop : Shop String} {nodes : BTreeSet String}
  {active : BTreeMap String ProductionRecipe} {order earlier later made : List String}
  {demand : Demand} {token : String}

/-- The value of a token in a map of quantities. -/
def unitsOf (quantities : BTreeMap String (U 32)) (token : String) : ℕ :=
  ((quantities.get? token).getD 0).val

theorem unitsOf_insert (quantities : BTreeMap String (U 32)) (k : String) (n : U 32) :
    unitsOf (quantities.insert k n) = Function.update (unitsOf quantities) k n.val := by
  funext q
  unfold unitsOf
  rw [OMap.get?_insert]
  by_cases hq : q = k
  · rw [hq, if_pos rfl, Function.update_self]
    rfl
  · rw [if_neg hq, Function.update_of_ne hq]

theorem divCeil_spec {a b : U 32} (ha : a ≠ 0) (hb : 0 < b.val) :
    0 < (divCeil a b).val ∧ a.val ≤ (divCeil a b).val * b.val ∧
      ∀ n < (divCeil a b).val, n * b.val < a.val := by
  have hpos : 0 < a.val := Nat.pos_of_ne_zero fun h => ha (Fin.ext h)
  have hle : (a.val + b.val - 1) / b.val ≤ a.val := by
    refine Nat.div_le_of_le_mul ?_
    have hmul : a.val + b.val ≤ b.val * a.val + 1 := by
      obtain ⟨x, hx⟩ := Nat.exists_eq_succ_of_ne_zero hpos.ne'
      obtain ⟨y, hy⟩ := Nat.exists_eq_succ_of_ne_zero hb.ne'
      rw [hx, hy, Nat.succ_mul_succ]
      omega
    omega
  have hval : (divCeil a b).val = (a.val + b.val - 1) / b.val :=
    U.wrap_val (lt_of_le_of_lt hle a.isLt)
  rw [hval]
  refine ⟨Nat.div_pos (by omega) hb, ?_, fun n hn => ?_⟩
  · have hdiv := Nat.lt_div_mul_add hb (a := a.val + b.val - 1)
    omega
  · have hmul := (Nat.lt_div_iff_mul_lt hb).1 hn
    omega

/-- What demand has been found for after a part of the order. `made` are the tokens it makes. -/
structure Propagated (compiler : ProductionLogisticsCompiler) (goals : BTreeMap String (U 32))
    (shop : Shop String) (active : BTreeMap String ProductionRecipe) (earlier made : List String)
    (demand : Demand) : Prop where
  sublist : made.Sublist earlier
  mem : ∀ q, q ∈ made ↔ demand.batches.contains q = true
  has : ∀ q ∈ made, ∃ recipe, active.get? q = some recipe
  required : ∀ q, unitsOf demand.required q = shop.required made (unitsOf demand.batches) q
  keys : ∀ q, demand.required.contains q = true ↔
    goals.contains q = true ∨ ∃ u ∈ made, shop.takes u q ≠ 0
  rounded : ∀ q ∈ made, unitsOf demand.batches q ≠ 0 ∧
    shop.Meets made (unitsOf demand.batches) q ∧ ∀ n < unitsOf demand.batches q,
      shop.stock q + n * shop.yields q < shop.required made (unitsOf demand.batches) q
  pending : ∀ q ∈ demand.pending, q ∈ earlier ∧ active.get? q = none ∧
    compiler.recipes.contains q = true
  distinct : demand.pending.Nodup
  covered : ∀ q ∈ earlier, q ∉ made → demand.pending = [] →
    shop.required made (unitsOf demand.batches) q ≤ shop.stock q ∨ active.get? q = none ∧
      compiler.recipes.contains q = false

theorem Propagated.start (hdeclared : Declared shop inventory goals active) :
    Propagated compiler goals shop active [] [] ⟨goals, .nil, []⟩ where
  sublist := List.Sublist.refl []
  mem := fun q => by simp [OMap.contains]
  has := nofun
  required := fun q => by
    rw [Shop.required, hdeclared.goal q]
    exact (Nat.add_zero _).symm
  keys := fun q => by simp
  rounded := nofun
  pending := nofun
  distinct := List.nodup_nil
  covered := nofun

theorem gives_addDemand (count : U 32) (inputs : List (String × U 32))
    (required : BTreeMap String (U 32)) :
    Gives (addDemand count inputs required) (fun after =>
      (∀ q, unitsOf after q = unitsOf required q + count.val * amountIn inputs q) ∧
      ∀ q, after.contains q = true ↔ required.contains q = true ∨ q ∈ inputs.map Prod.fst)
      (Honest C) := by
  induction inputs generalizing required with
  | nil => exact .pure ⟨fun _ => rfl, fun q => by simp⟩
  | cons input rest ih =>
      obtain ⟨token, amount⟩ := input
      refine gives_charge.bind fun _ _ => ?_
      refine (gives_orElse fun _ => honest_overflow token).bind fun additional hmul => ?_
      refine (gives_orElse fun _ => honest_overflow token).bind fun total hsum => ?_
      have hmul := U.checkedMul_eq_some.1 hmul
      have hsum := U.checkedAdd_eq_some.1 hsum
      refine (ih _).conseq (fun after h => ⟨fun q => ?_, fun q => ?_⟩) fun _ he => he
      · rw [h.1 q, unitsOf_insert, amountIn_cons]
        by_cases hq : q = token
        · subst hq
          rw [Function.update_self, if_pos rfl, ← hsum, ← hmul, Nat.mul_add,
            Nat.mul_comm amount.val]
          exact Nat.add_assoc ..
        · rw [Function.update_of_ne hq, if_neg (Ne.symm hq), Nat.zero_add]
      · rw [h.2 q, OMap.contains_insert]
        by_cases hq : q = token
        · simp [hq]
        · simp [hq]

/-- The token that comes next is not taken by any that is not listed before it. -/
theorem takes_eq_zero (hgrown : Grown nodes active) (hordered : Ordered nodes active order)
    (hdeclared : Declared shop inventory goals active) (hsplit : order = earlier ++ token :: later)
    {recipe : ProductionRecipe} (hrecipe : active.get? token = some recipe) {q : String}
    (hq : q = token ∨ q ∈ earlier) : shop.takes token q = 0 := by
  have hout : q ∉ supplies active token := by
    rcases hq with rfl | hq
    · exact hordered.itself q (hsplit ▸ by simp)
    · exact (List.pairwise_append.1 (hsplit ▸ hordered.later)).2.2 q hq token List.mem_cons_self
  rw [hdeclared.takes token recipe hrecipe]
  by_contra hne
  exact hout (mem_supplies.2 ⟨recipe, hrecipe,
    ((hgrown.proper token recipe hrecipe).mem_iff q).2 hne⟩)

/-- A token whose demand is not met, and which has a recipe, is made. -/
theorem Propagated.make (hgrown : Grown nodes active) (hordered : Ordered nodes active order)
    (hdeclared : Declared shop inventory goals active)
    (hsplit : order = earlier ++ token :: later)
    (h : Propagated compiler goals shop active earlier made demand) {recipe : ProductionRecipe}
    (hrecipe : active.get? token = some recipe) {count shortage : U 32}
    (hshortage : shortage.val = unitsOf demand.required token - shop.stock token)
    (hne : shortage ≠ 0) (hcount : count = divCeil shortage recipe.outputBatchSize)
    {required : BTreeMap String (U 32)}
    (hunits : ∀ q, unitsOf required q =
      unitsOf demand.required q + count.val * amountIn recipe.inputTokens q)
    (hkeys : ∀ q, required.contains q = true ↔ demand.required.contains q = true ∨
      q ∈ recipe.inputTokens.map Prod.fst) :
    Propagated compiler goals shop active (earlier ++ [token]) (made ++ [token])
      { demand with required := required, batches := demand.batches.insert token count } := by
  have hproper := hgrown.proper token recipe hrecipe
  obtain ⟨hpos, hcover, hless⟩ := divCeil_spec hne hproper.yields
  rw [← hcount] at hpos hcover hless
  have hnodup := (List.nodup_append.1 (hsplit ▸ hordered.nodup))
  have hfresh : token ∉ earlier := fun hmem => hnodup.2.2 token hmem token List.mem_cons_self rfl
  have hout : token ∉ made := fun hmem => hfresh (h.sublist.subset hmem)
  have hnone : ∀ q, q = token ∨ q ∈ earlier → shop.takes token q = 0 := fun q =>
    takes_eq_zero hgrown hordered hdeclared hsplit hrecipe
  have hyields := hdeclared.yields token recipe hrecipe
  have hsame : ∀ u ∈ made, Function.update (unitsOf demand.batches) token count.val u =
      unitsOf demand.batches u := fun u hu =>
    Function.update_of_ne (fun heq : u = token => hout (heq ▸ hu)) _ _
  have hrequired : ∀ q, shop.required (made ++ [token])
      (Function.update (unitsOf demand.batches) token count.val) q =
      shop.required made (unitsOf demand.batches) q + count.val * shop.takes token q := by
    intro q
    unfold Shop.required
    rw [consumed_append, consumed_congr hsame, consumed_cons, Function.update_self, ← Nat.add_assoc]
    rfl
  have hbefore : ∀ q, q = token ∨ q ∈ earlier → shop.required (made ++ [token])
      (Function.update (unitsOf demand.batches) token count.val) q =
      shop.required made (unitsOf demand.batches) q := fun q hq => by
    rw [hrequired q, hnone q hq, Nat.mul_zero, Nat.add_zero]
  refine ⟨h.sublist.append (List.Sublist.refl [token]), fun q => ?_, fun q hq => ?_, fun q => ?_,
    fun q => ?_, fun q hq => ?_, fun q hq => ?_, h.distinct, fun q hq hqout hpending => ?_⟩
  · rw [List.mem_append, List.mem_singleton, h.mem q, OMap.contains_insert, Bool.or_eq_true,
      decide_eq_true_eq, or_comm]
  · rcases List.mem_append.1 hq with hq | hq
    · exact h.has q hq
    · exact ⟨recipe, List.mem_singleton.1 hq ▸ hrecipe⟩
  · rw [unitsOf_insert, hrequired q, hunits q, h.required q,
      hdeclared.takes token recipe hrecipe]
  · rw [hkeys q, h.keys q, or_assoc, hproper.mem_iff q, ← hdeclared.takes token recipe hrecipe]
    refine or_congr_right ⟨?_, ?_⟩
    · rintro (⟨u, hu, huq⟩ | htakes)
      · exact ⟨u, List.mem_append_left _ hu, huq⟩
      · exact ⟨token, List.mem_append_right _ (List.mem_singleton_self token), htakes⟩
    · rintro ⟨u, hu, huq⟩
      rcases List.mem_append.1 hu with hu | hu
      · exact .inl ⟨u, hu, huq⟩
      · exact .inr (List.mem_singleton.1 hu ▸ huq)
  · rw [unitsOf_insert]
    unfold Shop.Meets
    rcases List.mem_append.1 hq with hq | hq
    · have hne : q ≠ token := fun heq => hout (heq ▸ hq)
      rw [hbefore q (.inr (h.sublist.subset hq)), Function.update_of_ne hne]
      exact h.rounded q hq
    · obtain rfl := List.mem_singleton.1 hq
      rw [hbefore q (.inl rfl), Function.update_self, hyields, ← h.required q]
      refine ⟨hpos.ne', by omega, fun n hn => ?_⟩
      have := hless n hn
      omega
  · obtain ⟨hmem, hget, hcontains⟩ := h.pending q hq
    exact ⟨List.mem_append_left _ hmem, hget, hcontains⟩
  · rw [unitsOf_insert]
    have hqmade : q ∉ made := fun hmem => hqout (List.mem_append_left _ hmem)
    rcases List.mem_append.1 hq with hq | hq
    · rw [hbefore q (.inr hq)]
      exact h.covered q hq hqmade hpending
    · exact absurd (List.mem_append_right _ hq) hqout

/-- A token that is not made, because it is not needed or has no recipe in use. -/
theorem Propagated.pass (h : Propagated compiler goals shop active earlier made demand)
    (hfresh : token ∉ earlier) (hout : token ∉ made) {pending : List String}
    (hpending : pending = demand.pending ∨ pending = demand.pending ++ [token] ∧
      active.get? token = none ∧ compiler.recipes.contains token = true)
    (hcovered : pending = demand.pending →
      shop.required made (unitsOf demand.batches) token ≤ shop.stock token ∨
        active.get? token = none ∧ compiler.recipes.contains token = false) :
    Propagated compiler goals shop active (earlier ++ [token]) made
      { demand with pending := pending } := by
  refine ⟨h.sublist.trans (List.sublist_append_left _ _), h.mem, h.has, h.required, h.keys,
    h.rounded, fun q hq => ?_, ?_, fun q hq hqout hnone => ?_⟩
  · dsimp only at hq
    rcases hpending with rfl | ⟨rfl, hget, hcontains⟩
    · obtain ⟨hmem, hget, hcontains⟩ := h.pending q hq
      exact ⟨List.mem_append_left _ hmem, hget, hcontains⟩
    · rcases List.mem_append.1 hq with hq | hq
      · obtain ⟨hmem, hget, hcontains⟩ := h.pending q hq
        exact ⟨List.mem_append_left _ hmem, hget, hcontains⟩
      · obtain rfl := List.mem_singleton.1 hq
        exact ⟨List.mem_append_right _ (List.mem_singleton_self q), hget, hcontains⟩
  · rcases hpending with rfl | ⟨rfl, _, _⟩
    · exact h.distinct
    · refine List.nodup_append.2 ⟨h.distinct, List.nodup_singleton token, fun a ha b hb => ?_⟩
      rw [List.mem_singleton.1 hb]
      exact fun heq => hfresh (heq ▸ (h.pending a ha).1)
  · have hsame : pending = demand.pending := by
      rcases hpending with rfl | ⟨rfl, _, _⟩
      · rfl
      · simp at hnone
    rcases List.mem_append.1 hq with hq | hq
    · exact h.covered q hq hqout (hsame ▸ hnone)
    · obtain rfl := List.mem_singleton.1 hq
      exact hcovered hsame

/-- **A round of demand.** -/
theorem gives_propagate (hgrown : Grown nodes active) (hordered : Ordered nodes active order)
    (hdeclared : Declared shop inventory goals active) (later : List String)
    (hsplit : order = earlier ++ later)
    (h : Propagated compiler goals shop active earlier made demand) :
    Gives (propagate compiler inventory active later demand)
      (fun after => ∃ made, Propagated compiler goals shop active order made after)
      (Honest C) := by
  induction later generalizing earlier made demand with
  | nil =>
      rw [List.append_nil] at hsplit
      exact .pure ⟨made, hsplit ▸ h⟩
  | cons token rest ih =>
      have hnodup := (List.nodup_append.1 (hsplit ▸ hordered.nodup))
      have hfresh : token ∉ earlier := fun hmem =>
        hnodup.2.2 token hmem token List.mem_cons_self rfl
      have hout : token ∉ made := fun hmem => hfresh (h.sublist.subset hmem)
      have hsplit' : order = earlier ++ [token] ++ rest := by rw [hsplit]; simp
      have hshortage : (U.saturatingSub ((demand.required.get? token).getD 0)
          (inventory.getStock token)).val = unitsOf demand.required token - shop.stock token := by
        rw [hdeclared.stock]
        rfl
      refine gives_charge.bind fun _ _ => .ite (fun hzero => ?_) fun hne => ?_
      · refine ih hsplit' (h.pass hfresh hout (.inl rfl) fun _ => .inl ?_)
        rw [hzero] at hshortage
        rw [← h.required token]
        exact Nat.sub_eq_zero_iff_le.1 hshortage.symm
      · cases hget : active.get? token with
        | none =>
            dsimp only
            split_ifs with hcontains
            · exact ih hsplit' (h.pass hfresh hout (.inr ⟨rfl, hget, hcontains⟩) fun heq => by
                simp at heq)
            · refine ih hsplit' (h.pass hfresh hout (.inl rfl) fun _ => .inr ⟨hget, ?_⟩)
              exact Bool.eq_false_iff.2 hcontains
        | some recipe =>
            refine Gives.bind (Q := Propagated compiler goals shop active (earlier ++ [token])
              (made ++ [token])) ?_ fun after hafter => ih hsplit' hafter
            refine (gives_orElse fun _ => honest_overflow token).bind fun _ _ => ?_
            refine (gives_addDemand _ recipe.inputTokens demand.required).bind
              fun required hrequired => .pure ?_
            exact h.make hgrown hordered hdeclared hsplit hget hshortage hne rfl hrequired.1
              hrequired.2

end Demand

/-! ## Rounds -/

section Rounds

variable {C : Prop} {compiler : ProductionLogisticsCompiler} {quotas : List ProductionQuota}
  {inventory : InventoryStockpile} {limits : ProductionPlanningLimits}
  {goals : BTreeMap String (U 32)} {e : Expansion}

theorem gives_addInputs (inputs : List (String × U 32)) (nodes : BTreeSet String) :
    Gives (addInputs limits inputs nodes) (fun after => ∀ q, after.contains q = true ↔
      nodes.contains q = true ∨ q ∈ inputs.map Prod.fst) (Honest C) := by
  induction inputs generalizing nodes with
  | nil => exact .pure fun q => by simp
  | cons input rest ih =>
      obtain ⟨token, amount⟩ := input
      refine gives_charge.bind fun _ _ => ?_
      refine (Gives.rejectIf fun _ => honest_exceeded _).bind fun _ _ => ?_
      refine (ih _).conseq (fun after h q => ?_) fun _ he => he
      rw [h q, OMap.contains_insert]
      by_cases hq : q = token
      · simp [hq]
      · simp [hq]

/-- What holds of the model between two rounds. -/
structure Expansion.Grows (compiler : ProductionLogisticsCompiler) (quotas : List ProductionQuota)
    (inventory : InventoryStockpile) (goals : BTreeMap String (U 32)) (e : Expansion) : Prop where
  grown : Grown e.nodes e.active
  declared : Declared (shopOf compiler quotas inventory) inventory goals e.active
  goals : ∀ q, goals.contains q = true → e.nodes.contains q = true

/-- Activating the recipe of a token. -/
theorem Expansion.Grows.activate (h : e.Grows compiler quotas inventory goals) {token : String}
    {declared recipe : ProductionRecipe} (hget : compiler.recipes.get? token = some declared)
    (hproper : recipe.Proper) (hsame : recipe.Same declared)
    (hknown : e.nodes.contains token = true) {nodes : BTreeSet String}
    (hnodes : ∀ q, nodes.contains q = true ↔
      e.nodes.contains q = true ∨ q ∈ recipe.inputTokens.map Prod.fst) (edges : Nat) :
    Expansion.Grows compiler quotas inventory goals
      ⟨nodes, e.active.insert token recipe, edges⟩ := by
  have hcases : ∀ t r, (e.active.insert token recipe).get? t = some r →
      (t = token ∧ r = recipe) ∨ e.active.get? t = some r := by
    intro t r ht
    rw [OMap.get?_insert] at ht
    split_ifs at ht with heq
    · exact .inl ⟨heq, (Option.some.inj ht).symm⟩
    · exact .inr ht
  refine ⟨⟨fun t r ht => ?_, fun t r ht => ?_, fun t r ht q hq => ?_⟩,
    ⟨h.declared.stock, h.declared.goal, fun t r ht => ?_, fun t r ht q => ?_⟩,
    fun q hq => (hnodes q).2 (.inl (h.goals q hq))⟩
  · rcases hcases t r ht with ⟨_, rfl⟩ | ht
    · exact hproper
    · exact h.grown.proper t r ht
  · rcases hcases t r ht with ⟨rfl, _⟩ | ht
    · exact (hnodes t).2 (.inl hknown)
    · exact (hnodes t).2 (.inl (h.grown.known t r ht))
  · rcases hcases t r ht with ⟨_, rfl⟩ | ht
    · exact (hnodes q).2 (.inr hq)
    · exact (hnodes q).2 (.inl (h.grown.inputs t r ht q hq))
  · rcases hcases t r ht with ⟨rfl, rfl⟩ | ht
    · rw [hsame.batch]
      simp [shopOf, hget]
    · exact h.declared.yields t r ht
  · rcases hcases t r ht with ⟨rfl, rfl⟩ | ht
    · rw [hsame.takes q]
      simp [shopOf, hget]
    · exact h.declared.takes t r ht q

theorem size_insert {V : Type} (m : BTreeMap String V) {token : String}
    (h : m.get? token = none) (w : V) : (m.insert token w).size = m.size + 1 :=
  (OMap.toList_insert_perm m h w).length_eq

/-- **Activating the pending recipes**: there are as many more, and no more than the limit. -/
theorem gives_activate (tokens : List String) (hdistinct : tokens.Nodup)
    (hnew : ∀ q ∈ tokens, e.active.get? q = none) (hhas : ∀ q ∈ tokens,
      compiler.recipes.contains q = true) (hknown : ∀ q ∈ tokens, e.nodes.contains q = true)
    (h : e.Grows compiler quotas inventory goals) :
    Gives (activate compiler limits tokens e) (fun after =>
      after.Grows compiler quotas inventory goals ∧
      after.active.size = e.active.size + tokens.length ∧
      (tokens ≠ [] → after.active.size ≤ limits.maxOrders)) (Honest C) := by
  induction tokens generalizing e with
  | nil => exact .pure ⟨h, rfl, fun hne => absurd rfl hne⟩
  | cons token rest ih =>
      obtain ⟨hout, hrest⟩ := List.nodup_cons.1 hdistinct
      obtain ⟨declared, hget⟩ := (OMap.contains_iff _ _).1 (hhas token List.mem_cons_self)
      refine gives_charge.bind fun _ _ => ?_
      refine (Gives.rejectIf fun _ => honest_exceeded _).bind fun _ hroom => ?_
      refine (gives_orElse fun hnone => by rw [hget] at hnone; cases hnone).bind fun found hfound => ?_
      obtain rfl := Option.some.inj (hget.symm.trans hfound)
      refine (gives_normalizedRecipe declared).bind fun recipe hrecipe => ?_
      refine (Gives.rejectIf fun _ => honest_exceeded _).bind fun _ _ => ?_
      refine (gives_addInputs recipe.inputTokens e.nodes).bind fun nodes hnodes => ?_
      have hgrows := h.activate hget hrecipe.1 hrecipe.2 (hknown token List.mem_cons_self) hnodes
        (e.edgeCount + recipe.inputTokens.length)
      have hsize := size_insert e.active (hnew token List.mem_cons_self) recipe
      refine (ih hrest (fun q hq => ?_) (fun q hq => hhas q (List.mem_cons_of_mem _ hq))
        (fun q hq => (hnodes q).2 (.inl (hknown q (List.mem_cons_of_mem _ hq)))) hgrows).conseq
        (fun after hafter => ?_) fun _ he => he
      · rw [OMap.get?_insert, if_neg fun heq : q = token => hout (heq ▸ hq)]
        exact hnew q (List.mem_cons_of_mem _ hq)
      · obtain ⟨hafter, hlength, hmost⟩ := hafter
        rw [hsize] at hlength
        refine ⟨hafter, by rw [hlength, List.length_cons]; omega, fun _ => ?_⟩
        cases rest with
        | nil =>
            rw [hlength, List.length_nil]
            omega
        | cons next rest => exact hmost (List.cons_ne_nil _ _)

/-- The models that rounds reach. -/
inductive Reached (compiler : ProductionLogisticsCompiler) (inventory : InventoryStockpile)
    (limits : ProductionPlanningLimits) (goals : BTreeMap String (U 32)) : Expansion → Prop where
  | start : Reached compiler inventory limits goals ⟨goals.mapValues fun _ _ => (), .nil, 0⟩
  | round {e next : Expansion} {found : List String × Demand} {w w' v v' : Work} :
      Reached compiler inventory limits goals e →
      exec (roundDemand compiler inventory goals e) w = (.ok found, w') →
      exec (activate compiler limits found.2.pending e) v = (.ok next, v') →
      Reached compiler inventory limits goals next

/-- The result of a method is one it has from some state. -/
theorem gives_traced {ε σ α : Type} {x : Method ε σ α} {Q : α → Prop} {E : ε → Prop}
    (h : Gives x Q E) : Gives x (fun a => Q a ∧ ∃ s t, exec x s = (.ok a, t)) E := by
  intro s hs
  have hmeets := h s hs
  cases hout : exec x s with
  | mk result t =>
      rw [hout] at hmeets
      cases result with
      | ok a => exact ⟨hmeets, s, t, hout⟩
      | error e => exact hmeets

/-- One round, whose order and demand fit. -/
theorem gives_roundDemand (h : e.Grows compiler quotas inventory goals) :
    Gives (roundDemand compiler inventory goals e) (fun found =>
      Ordered e.nodes e.active found.1 ∧ ∃ made, Propagated compiler goals
        (shopOf compiler quotas inventory) e.active found.1 made found.2)
      (Honest (Cyclic e.active)) := by
  refine gives_charge.bind fun _ _ => ?_
  refine (gives_topologicalOrder h.grown).bind fun order hordered => ?_
  refine (gives_propagate h.grown hordered h.declared order rfl
    (.start h.declared)).bind fun demand hdemand => .pure ⟨hordered, hdemand⟩

/-- A model with nothing pending. -/
structure Settled (compiler : ProductionLogisticsCompiler) (quotas : List ProductionQuota)
    (inventory : InventoryStockpile) (model : ExpandedModel) : Prop where
  grows : ∃ nodes edges, Expansion.Grows compiler quotas inventory model.goals
    ⟨nodes, model.active, edges⟩ ∧ Ordered nodes model.active model.order
  propagated : ∃ made, Propagated compiler model.goals (shopOf compiler quotas inventory)
    model.active model.order made ⟨model.required, model.batches, []⟩

/-- **Rounds end**, with a model that has nothing pending. -/
theorem gives_expand {Q : ProductionPlan → Prop}
    (hfinish : ∀ model, Settled compiler quotas inventory model →
      Gives (model.finish inventory) Q
        (Honest (∃ e, Reached compiler inventory limits goals e ∧ Cyclic e.active)))
    (bound rounds : Nat) (hbound : limits.maxOrders < bound + e.active.size)
    (hmost : e.active.size ≤ limits.maxOrders)
    (hreached : Reached compiler inventory limits goals e)
    (h : e.Grows compiler quotas inventory goals) :
    Gives (expand compiler inventory limits goals bound rounds e) Q
      (Honest (∃ e, Reached compiler inventory limits goals e ∧ Cyclic e.active)) := by
  induction bound generalizing e rounds with
  | zero => omega
  | succ bound ih =>
      refine ((gives_traced (gives_roundDemand h)).conseq (fun _ hfound => hfound) fun err herr =>
        herr.mono fun hcyclic => ⟨e, hreached, hcyclic⟩).bind fun found hfound => ?_
      obtain ⟨⟨hordered, made, hdemand⟩, w, w', hexec⟩ := hfound
      refine .ite (fun hnone => hfinish _ ?_) fun hsome => ?_
      · refine ⟨⟨e.nodes, e.edgeCount, h, hordered⟩, made, ?_⟩
        rw [← hnone]
        exact hdemand
      · refine (gives_traced (gives_activate found.2.pending hdemand.distinct (fun q hq =>
          (hdemand.pending q hq).2.1) (fun q hq => (hdemand.pending q hq).2.2) (fun q hq =>
          (hordered.mem q).1 (hdemand.pending q hq).1) h)).bind fun next hnext => ?_
        obtain ⟨⟨hgrows, hsize, hmore⟩, v, v', hactivate⟩ := hnext
        have hpos := List.length_pos_iff.2 hsome
        exact ih (rounds + 1) (by omega) (hmore hsome) (.round hreached hexec hactivate) hgrows

end Rounds

end Dfmcp.Logistics
