import Dfmcp.World.WorkforceAllocation

/-!
# The workforce certificate checker is sound

The checker of `workforce_allocation.rs` looks only at an assignment and at numbers on nodes. This
file reads its checks as the optimality conditions of a flow: demands, candidates and workers are
the three layers of `arcs`, an assignment puts its counts on them (`plan`), and what `check` accepts
of an arc is capacity, complementary slackness and closedness of the cut (`Fine`). Any other
feasible assignment is a flow on the same arcs, so the two duality theorems of flows compare them.

Every function has one specification, over an arbitrary condition `E` on errors: it names what a
success implies and which defect of the certificate each error needs.

* `plan_carries`, `price_plan` — a feasible assignment is a flow of its size and its cost;
* `verifyInner_delivers` — what the checker establishes, and what it takes to pass it;
* `verify_sound` — **an accepted assignment is feasible, fills as many slots as any, and is
  lexicographically cheapest among those that fill as many**.
-/

namespace Dfmcp.WorkforceAllocation

open Machine Flow Method

/-! ## Costs -/

theorem Cost.checked_ok {a b : Cost} (h : Cost.checked a = .ok b) : b = a := by
  unfold Cost.checked at h
  split_ifs at h
  exact (Except.ok.inj h).symm

theorem Cost.checked_error {a : Cost} {e : Error} (h : Cost.checked a = .error e) :
    e = .arithmeticOverflow ∧ ¬ a.parts.all Cost.inRange := by
  unfold Cost.checked at h
  split_ifs at h with hrange
  exact ⟨(Except.error.inj h).symm, hrange⟩

/-! ## Validation -/

/-- Every demand can follow the one before it. -/
def GoodDemands : Option Demand → List Demand → Prop
  | _, [] => True
  | previous, d :: rest => ¬ badDemand previous d ∧ GoodDemands (some d) rest

/-- Every candidate can follow the one before it. -/
def GoodCandidates (demands : Nat) : Option Candidate → List Candidate → Prop
  | _, [] => True
  | previous, c :: rest => ¬ badCandidate demands previous c ∧ GoodCandidates demands (some c) rest

/-- The slots of a demand. -/
def slots (demands : List Demand) (d : Nat) : Nat := (demands[d]?).elim 0 fun d => d.workers.val

theorem GoodDemands.slots {previous : Option Demand} {demands : List Demand}
    (h : GoodDemands previous demands) :
    ∀ d ∈ demands, 0 < d.workers.val ∧ d.workers.val ≤ maxSlots := by
  induction demands generalizing previous with
  | nil => simp
  | cons d rest ih =>
      intro d' hd'
      rcases List.mem_cons.mp hd' with rfl | hrest
      · have hbad := h.1
        simp only [badDemand, not_or] at hbad
        exact ⟨Nat.pos_of_ne_zero hbad.2.2.1, not_lt.mp hbad.2.2.2.1⟩
      · exact ih h.2 d' hrest

theorem GoodCandidates.index {n : Nat} {previous : Option Candidate} {candidates : List Candidate}
    (h : GoodCandidates n previous candidates) : ∀ c ∈ candidates, c.demandIndex < n := by
  induction candidates generalizing previous with
  | nil => simp
  | cons c rest ih =>
      intro c' hc'
      rcases List.mem_cons.mp hc' with rfl | hrest
      · have hbad := h.1
        simp only [badCandidate, not_or, not_le] at hbad
        exact hbad.2.1
      · exact ih h.2 c' hrest

theorem GoodCandidates.sorted {n : Nat} {previous : Option Candidate} {candidates : List Candidate}
    (h : GoodCandidates n previous candidates) :
    (∀ p ∈ previous, ∀ c ∈ candidates, p.assignment.key < c.assignment.key) ∧
      candidates.Pairwise fun c d => c.assignment.key < d.assignment.key := by
  induction candidates generalizing previous with
  | nil => simp
  | cons c rest ih =>
      obtain ⟨hhead, hrest⟩ := ih h.2
      have hafter : ∀ d ∈ rest, c.assignment.key < d.assignment.key := hhead c rfl
      refine ⟨?_, List.pairwise_cons.mpr ⟨hafter, hrest⟩⟩
      intro p hp d hd
      have hlt : p.assignment.key < c.assignment.key := by
        by_contra hge
        exact h.1 (.inr (.inr (.inr ⟨p, hp, hge⟩)))
      rcases List.mem_cons.mp hd with rfl | hd
      · exact hlt
      · exact hlt.trans (hafter d hd)

theorem contains_insert (m : BTreeMap (U 64) Unit) (id id' : U 64) :
    (m.insert id ⟨⟩).contains id' ↔ m.contains id' ∨ id = id' := by
  unfold OMap.contains
  rw [OMap.get?_insert]
  by_cases heq : id' = id
  · simp [heq]
  · simp [heq, Ne.symm heq]

/-- What validation establishes. -/
structure Valid (demands : List Demand) (candidates : List Candidate) (model : Model) : Prop where
  wanted : GoodDemands none demands
  eligible : GoodCandidates demands.length none candidates
  nonempty : demands ≠ []
  few : demands.length ≤ maxDemands
  many : candidates.length ≤ maxDemands * maxWorkers
  requested : model.requested = (demands.map fun d => d.workers.val).sum
  bounded : model.requested ≤ maxSlots
  workers : ∀ id, id ∈ model.workers ↔ ∃ c ∈ candidates, c.workerId = id
  sorted : model.workers.Pairwise (· < ·)
  crew : model.workers.length ≤ maxWorkers
  sink : model.sink = 1 + demands.length + model.workers.length

theorem Valid.nodup {demands : List Demand} {candidates : List Candidate} {model : Model}
    (hv : Valid demands candidates model) : model.workers.Nodup :=
  hv.sorted.imp ne_of_lt

/-- The input determines the model. -/
theorem Valid.unique {demands : List Demand} {candidates : List Candidate} {model model' : Model}
    (hv : Valid demands candidates model) (hv' : Valid demands candidates model') :
    model = model' := by
  have hperm : model.workers.Perm model'.workers :=
    (List.perm_ext_iff_of_nodup hv.nodup hv'.nodup).mpr fun id => by
      rw [hv.workers, hv'.workers]
  have hworkers := hperm.eq_of_pairwise (fun a b _ _ hab hba => absurd hab hba.asymm)
    hv.sorted hv'.sorted
  have hrequested := hv.requested.trans hv'.requested.symm
  have hsink := hv.sink
  rw [hworkers, ← hv'.sink] at hsink
  cases model
  cases model'
  simp_all only

section Specifications

variable {E : Error → Prop} {demands : List Demand} {candidates : List Candidate} {model : Model}

theorem charge_delivers (hbudget : E .budgetExceeded) {n : Nat} (hn : n < 2 ^ 32) :
    Delivers maxWork (charge n) (fun _ => True) E :=
  .charge (by unfold maxWork; omega) hbudget

theorem checked_delivers {limit : Nat} {a : Cost}
    (hover : ¬ a.parts.all Cost.inRange → E .arithmeticOverflow) :
    Delivers limit (of (Cost.checked a)) (fun b => b = a) E :=
  .of (fun _ h => Cost.checked_ok h) fun _ h => by
    obtain ⟨rfl, hrange⟩ := Cost.checked_error h
    exact hover hrange

theorem validateDemands_delivers (hbudget : E .budgetExceeded) (previous : Option Demand)
    (l : List Demand) (requested : Nat) (hinvalid : ¬ GoodDemands previous l → E .invalidInput)
    (hover : requested + maxSlots * l.length < 2 ^ 32 ∨ E .arithmeticOverflow) :
    Delivers maxWork (validateDemands previous l requested)
      (fun r => GoodDemands previous l ∧ r = requested + (l.map fun d => d.workers.val).sum) E := by
  induction l generalizing previous requested with
  | nil => exact .pure ⟨trivial, rfl⟩
  | cons d rest ih =>
      refine .bind (charge_delivers hbudget (by norm_num)) fun _ _ => ?_
      refine .bind (.rejectIf fun hbad => hinvalid fun hgood => hgood.1 hbad) fun _ hgood => ?_
      have hslots : d.workers.val ≤ maxSlots := by
        simp only [badDemand, not_or] at hgood
        exact not_lt.mp hgood.2.2.2.1
      refine .bind (.rejectIf fun hlarge => ?_) fun _ _ => ?_
      · rcases hover with hsmall | hover
        · rw [List.length_cons, Nat.mul_succ] at hsmall
          omega
        · exact hover
      · refine (ih (some d) _ (fun hbad => hinvalid fun h => hbad h.2) ?_).conseq ?_ fun _ he => he
        · rcases hover with hsmall | hover
          · rw [List.length_cons, Nat.mul_succ] at hsmall
            exact .inl (by omega)
          · exact .inr hover
        · rintro r ⟨hrest, rfl⟩
          exact ⟨⟨hgood, hrest⟩, by simp [Nat.add_assoc]⟩

theorem validateCandidates_delivers (hbudget : E .budgetExceeded) (n : Nat)
    (previous : Option Candidate) (l : List Candidate) (workers : BTreeMap (U 64) Unit)
    (hinvalid : ¬ GoodCandidates n previous l → E .invalidInput)
    (hsize : workers.size ≤ maxWorkers) :
    Delivers maxWork (validateCandidates n previous l workers)
      (fun ws => GoodCandidates n previous l ∧ ws.size ≤ maxWorkers ∧
        ∀ id, ws.contains id ↔ workers.contains id ∨ ∃ c ∈ l, c.workerId = id) E := by
  induction l generalizing previous workers with
  | nil => exact .pure ⟨trivial, hsize, by simp⟩
  | cons c rest ih =>
      refine .bind (charge_delivers hbudget (by norm_num)) fun _ _ => ?_
      refine .bind (.rejectIf fun hbad => hinvalid fun hgood => hgood.1 hbad) fun _ hgood => ?_
      refine .bind (.rejectIf fun _ => hbudget) fun _ hfits => ?_
      refine (ih (some c) _ (fun hbad => hinvalid fun h => hbad h.2) (not_lt.mp hfits)).conseq ?_
        fun _ he => he
      rintro ws ⟨hrest, hle, hws⟩
      refine ⟨⟨hgood, hrest⟩, hle, fun id => ?_⟩
      rw [hws, contains_insert, or_assoc]
      simp

theorem validate_delivers (hbudget : E .budgetExceeded)
    (hinvalid : ¬ (GoodDemands none demands ∧ GoodCandidates demands.length none candidates) →
      E .invalidInput) :
    Delivers maxWork (validate demands candidates) (Valid demands candidates) E := by
  refine .bind (.rejectIf fun _ => hbudget) fun _ hsizes => ?_
  simp only [not_or, not_lt] at hsizes
  refine .bind (validateDemands_delivers hbudget none demands 0
    (fun hbad => hinvalid fun h => hbad h.1) (.inl ?_)) fun requested hrequested => ?_
  · have := Nat.mul_le_mul_left maxSlots hsizes.2.1
    have hmax : maxSlots * maxDemands < 2 ^ 32 := by decide
    omega
  refine .bind (.rejectIf fun _ => hbudget) fun _ hfits => ?_
  refine .bind (validateCandidates_delivers hbudget demands.length none candidates OMap.nil
    (fun hbad => hinvalid fun h => hbad h.2) (Nat.zero_le _)) fun workers hworkers => ?_
  refine .pure ?_
  obtain ⟨hgood, hcrew, hmem⟩ := hworkers
  exact
    { wanted := hrequested.1
      eligible := hgood
      nonempty := hsizes.1
      few := hsizes.2.1
      many := hsizes.2.2
      requested := by rw [hrequested.2, Nat.zero_add]
      bounded := not_lt.mp hfits
      workers := fun id => by
        rw [OMap.mem_keys_iff, hmem]
        simp [OMap.contains, OMap.get?]
      sorted := workers.keys_sorted
      crew := by rw [workers.length_keys]; exact hcrew
      sink := by rw [workers.length_keys] }

end Specifications

/-! ## Assignments as flows -/

section Plans

variable (demands : List Demand) (candidates : List Candidate) (model : Model)

/-- The cost of a pair is that of its candidate. -/
def value (a : Assignment) : Cost :=
  (candidates.find? fun c => c.assignment = a).elim 0 (cost demands)

/-- The node of a worker. -/
def node (id : U 64) : Nat := 1 + demands.length + model.workers.idxOf id

def demandArc (d : Nat) : Arc Cost := ⟨0, 1 + d, slots demands d, 0⟩

def linkArc (a : Assignment) : Arc Cost :=
  ⟨1 + a.demandIndex, node demands model a.workerId, model.requested, value demands candidates a⟩

def workerArc (id : U 64) : Arc Cost := ⟨node demands model id, model.sink, 1, 0⟩

/-- The three layers of the network. -/
def arcs : List (Arc Cost) :=
  (List.range demands.length).map (demandArc demands) ++
    ((candidates.map Candidate.assignment).map (linkArc demands candidates model) ++
      model.workers.map (workerArc demands model))

/-- What an assignment puts on the network: how often it uses a demand, a pair and a worker. -/
def plan (M : List Assignment) (u v : Nat) : Nat :=
  if u = 0 then M.countP fun a => a.demandIndex = v - 1
  else if u ≤ demands.length then
    M.countP fun a => a.demandIndex = u - 1 ∧ node demands model a.workerId = v
  else M.countP fun a => node demands model a.workerId = u

/-- An assignment that uses every worker once, every demand within its slots, and only candidates. -/
structure Feasible (M : List Assignment) : Prop where
  eligible : ∀ a ∈ M, ∃ c ∈ candidates, c.assignment = a
  once : (M.map Assignment.workerId).Nodup
  slots : ∀ d, M.countP (fun a => a.demandIndex = d) ≤ slots demands d

/-- The exact cost of an assignment. -/
def totalCost (M : List Assignment) : Cost := (M.map (value demands candidates)).sum

end Plans

/-- Counting by keys: a sum over the elements is one over the keys. -/
theorem sum_countP_smul {α κ G : Type} [DecidableEq κ] [AddCommMonoid G] (K : List κ)
    (hK : K.Nodup) (M : List α) (key : α → κ) (hM : ∀ a ∈ M, key a ∈ K) (h : κ → G) :
    (K.map fun k => (M.countP fun a => key a = k) • h k).sum =
      (M.map fun a => h (key a)).sum := by
  induction M with
  | nil => simp
  | cons a M ih =>
      have hcons : ∀ k, (a :: M).countP (fun a => key a = k) • h k =
          (M.countP fun a => key a = k) • h k + if k = key a then h k else 0 := by
        intro k
        by_cases hk : key a = k
        · simp [hk, add_smul]
        · simp [hk, Ne.symm hk]
      have hone : (K.map fun k => if k = key a then h k else 0).sum = h (key a) := by
        rw [List.sum_map_eq_nsmul_single (key a) _ fun k hne _ => if_neg hne,
          List.count_eq_one_of_mem hK (hM a (List.mem_cons_self ..)), one_smul, if_pos rfl]
      simp only [hcons, List.sum_map_add, hone, List.map_cons, List.sum_cons]
      rw [ih fun b hb => hM b (List.mem_cons_of_mem _ hb), add_comm]

section Plans

variable {demands : List Demand} {candidates : List Candidate} {model : Model}
  {M : List Assignment} {G : Type} [AddCommGroup G]

theorem Valid.assignments_nodup (hv : Valid demands candidates model) :
    (candidates.map Candidate.assignment).Nodup := by
  rw [List.Nodup, List.pairwise_map]
  exact hv.eligible.sorted.2.imp fun hlt heq => absurd hlt (by rw [heq]; exact lt_irrefl _)

/-- Two candidates for the same pair are the same. -/
theorem Valid.find (hv : Valid demands candidates model) {c : Candidate} (hc : c ∈ candidates) :
    (candidates.find? fun d => d.assignment = c.assignment) = some c := by
  cases hfind : candidates.find? fun d => d.assignment = c.assignment with
  | none =>
      rw [List.find?_eq_none] at hfind
      simpa using hfind c hc
  | some d =>
      have hd := List.mem_of_find?_eq_some hfind
      have heq : d.assignment = c.assignment := by simpa using List.find?_some hfind
      rw [List.inj_on_of_nodup_map hv.assignments_nodup hd hc heq]

theorem Valid.value_eq (hv : Valid demands candidates model) {c : Candidate}
    (hc : c ∈ candidates) : value demands candidates c.assignment = cost demands c := by
  rw [value, hv.find hc]
  rfl

theorem Valid.node_inj (hv : Valid demands candidates model) {c : Candidate}
    (hc : c ∈ candidates) {id : U 64} (h : node demands model id = node demands model c.workerId) :
    id = c.workerId := by
  have hmem := (hv.workers c.workerId).mpr ⟨c, hc, rfl⟩
  have hidx : model.workers.idxOf id = model.workers.idxOf c.workerId := by
    unfold node at h
    omega
  by_cases hid : id ∈ model.workers
  · exact (List.idxOf_inj hid).mp hidx
  · rw [List.idxOf_eq_length hid] at hidx
    exact absurd (List.idxOf_lt_length_iff.mpr hmem) (by omega)

theorem Feasible.mem_assignments (hM : Feasible demands candidates M) {a : Assignment}
    (ha : a ∈ M) : a ∈ candidates.map Candidate.assignment := by
  obtain ⟨c, hc, rfl⟩ := hM.eligible a ha
  exact List.mem_map_of_mem hc

theorem Feasible.index (hM : Feasible demands candidates M) (hv : Valid demands candidates model)
    {a : Assignment} (ha : a ∈ M) : a.demandIndex < demands.length := by
  obtain ⟨c, hc, rfl⟩ := hM.eligible a ha
  exact hv.eligible.index c hc

theorem Feasible.worker (hM : Feasible demands candidates M) (hv : Valid demands candidates model)
    {a : Assignment} (ha : a ∈ M) : a.workerId ∈ model.workers := by
  obtain ⟨c, hc, rfl⟩ := hM.eligible a ha
  exact (hv.workers _).mpr ⟨c, hc, rfl⟩

/-! What a plan puts on each layer. -/

theorem on_demandArc (M : List Assignment) (d : Nat) :
    on (plan demands model M) (demandArc demands d) = M.countP fun a => a.demandIndex = d := by
  simp [on, plan, demandArc]

theorem on_linkArc (hv : Valid demands candidates model) {a : Assignment}
    (ha : a ∈ candidates.map Candidate.assignment) :
    on (plan demands model M) (linkArc demands candidates model a) = M.countP (· = a) := by
  obtain ⟨c, hc, hca⟩ := List.mem_map.mp ha
  have hindex : 1 + a.demandIndex ≤ demands.length := by
    have := hv.eligible.index c hc
    rw [← hca]
    simp only [Candidate.assignment]
    omega
  have hne : ¬ 1 + a.demandIndex = 0 := by omega
  show plan demands model M (1 + a.demandIndex) (node demands model a.workerId) = _
  rw [plan, if_neg hne, if_pos hindex, Nat.add_sub_cancel_left]
  apply List.countP_congr
  intro b _
  rw [decide_eq_true_iff, decide_eq_true_iff]
  constructor
  · intro h
    have hworker : b.workerId = a.workerId := by
      have hnode := h.2
      rw [← hca] at hnode ⊢
      exact hv.node_inj hc hnode
    cases a
    cases b
    exact congrArg₂ Assignment.mk h.1 hworker
  · intro h
    rw [h]
    exact ⟨rfl, rfl⟩

theorem on_workerArc (hv : Valid demands candidates model) (hM : ∀ a ∈ M, ∃ c ∈ candidates,
    c.assignment = a) (id : U 64) :
    on (plan demands model M) (workerArc demands model id) =
      M.countP fun a => a.workerId = id := by
  have hne : ¬ node demands model id = 0 := by unfold node; omega
  have hlarge : ¬ node demands model id ≤ demands.length := by unfold node; omega
  show plan demands model M (node demands model id) model.sink = _
  rw [plan, if_neg hne, if_neg hlarge]
  apply List.countP_congr
  intro b hb
  obtain ⟨c, hc, rfl⟩ := hM b hb
  simp only [decide_eq_true_eq]
  exact ⟨fun h => (hv.node_inj hc h.symm).symm, fun h => by rw [h]⟩

/-- A plan is the sum of the paths of its pairs. -/
theorem sum_plan (hv : Valid demands candidates model) (hM : Feasible demands candidates M)
    (g : Arc Cost → G) :
    ((arcs demands candidates model).map fun a => on (plan demands model M) a • g a).sum =
      (M.map fun a => g (demandArc demands a.demandIndex) + (g (linkArc demands candidates model a) +
        g (workerArc demands model a.workerId))).sum := by
  have hlayers : ∀ {κ : Type} (K : List κ) (arcOf : κ → Arc Cost) (count : κ → Nat),
      (∀ k ∈ K, on (plan demands model M) (arcOf k) = count k) →
      ((K.map arcOf).map fun a => on (plan demands model M) a • g a) =
        K.map fun k => count k • g (arcOf k) := by
    intro κ K arcOf count hcount
    rw [List.map_map]
    exact List.map_congr_left fun k hk => by rw [Function.comp_apply, hcount k hk]
  rw [arcs, List.map_append, List.map_append, List.sum_append, List.sum_append,
    hlayers _ _ _ fun d _ => on_demandArc M d,
    hlayers _ _ _ fun a ha => on_linkArc hv ha,
    hlayers _ _ _ fun id _ => on_workerArc hv hM.eligible id,
    sum_countP_smul _ List.nodup_range M Assignment.demandIndex
      (fun a ha => List.mem_range.mpr (hM.index hv ha)) fun d => g (demandArc demands d),
    sum_countP_smul _ hv.assignments_nodup M (fun a => a) (fun a ha => hM.mem_assignments ha)
      fun a => g (linkArc demands candidates model a),
    sum_countP_smul _ hv.nodup M Assignment.workerId (fun a ha => hM.worker hv ha)
      fun w => g (workerArc demands model w),
    List.sum_map_add, List.sum_map_add]

theorem Feasible.count_le (hM : Feasible demands candidates M) (id : U 64) :
    M.countP (fun a => a.workerId = id) ≤ 1 := by
  have hcount := List.nodup_iff_count_le_one.mp hM.once id
  rw [List.count, List.countP_map] at hcount
  refine le_trans (le_of_eq (List.countP_congr fun a _ => ?_)) hcount
  simp

/-- No assignment has more pairs than there are slots. -/
theorem Feasible.length_le (hM : Feasible demands candidates M)
    (hv : Valid demands candidates model) : M.length ≤ model.requested := by
  have hsum := sum_countP_smul _ List.nodup_range M Assignment.demandIndex
    (fun a ha => List.mem_range.mpr (hM.index hv ha)) fun _ => 1
  rw [List.map_const', List.sum_replicate, smul_eq_mul, mul_one] at hsum
  rw [hv.requested, ← hsum]
  have hslots : (demands.map fun d => d.workers.val) =
      (List.range demands.length).map (WorkforceAllocation.slots demands) := by
    apply List.ext_getElem
    · simp
    · intro i hi hi'
      simp [WorkforceAllocation.slots, List.getElem?_eq_getElem (by simpa using hi)]
  rw [hslots]
  apply List.sum_le_sum
  intro d _
  simpa using hM.slots d

/-- **A feasible assignment is a flow of its size.** -/
theorem plan_carries (hv : Valid demands candidates model) (hM : Feasible demands candidates M) :
    Carries (arcs demands candidates model) (plan demands model M) 0 model.sink M.length where
  capacity := by
    intro a ha
    rcases List.mem_append.mp ha with hdemand | ha
    · obtain ⟨d, -, rfl⟩ := List.mem_map.mp hdemand
      rw [on_demandArc]
      exact hM.slots d
    rcases List.mem_append.mp ha with hlink | hworker
    · obtain ⟨p, hp, rfl⟩ := List.mem_map.mp hlink
      rw [on_linkArc hv hp]
      exact List.countP_le_length.trans (hM.length_le hv)
    · obtain ⟨id, -, rfl⟩ := List.mem_map.mp hworker
      rw [on_workerArc hv hM.eligible]
      exact hM.count_le id
  conserved := by
    intro u
    have hsum := sum_plan hv hM fun a => through a u
    simp only [nsmul_eq_mul] at hsum
    have hpath : ∀ a : Assignment, through (demandArc demands a.demandIndex) u +
        (through (linkArc demands candidates model a) u +
          through (workerArc demands model a.workerId) u) = excess 0 model.sink 1 u := by
      intro a
      simp only [through, demandArc, linkArc, workerArc, excess]
      ring
    simp only [hpath] at hsum
    rw [net, hsum, List.map_const', List.sum_replicate, excess, excess, nsmul_eq_mul, one_mul]

/-- The price of a plan is the cost of its assignment. -/
theorem price_plan (hv : Valid demands candidates model) (hM : Feasible demands candidates M) :
    price (arcs demands candidates model) (plan demands model M) =
      totalCost demands candidates M := by
  rw [price, sum_plan hv hM Arc.cost, totalCost]
  simp [demandArc, linkArc, workerArc]

end Plans

/-! ## What the checker asks -/

/-- What `check` accepts of an arc: capacity, slackness and closedness. -/
def Fine (w : Witness) (x : Nat → Nat → Nat) (a : Arc Cost) : Prop :=
  on x a ≤ a.capacity ∧
    (on x a < a.capacity →
      0 ≤ reduced w.potential a ∧ (w.onSource a.tail → w.onSource a.head)) ∧
    (0 < on x a → reduced w.potential a ≤ 0 ∧ (w.onSource a.head → w.onSource a.tail))

/-- The sums that `check` forms for an arc stay in range. -/
def Tame (w : Witness) (a : Arc Cost) : Prop :=
  ∀ c ∈ [a.cost + w.potential a.tail, a.cost + w.potential a.tail - w.potential a.head,
    0 - a.cost, 0 - a.cost + w.potential a.head,
    0 - a.cost + w.potential a.head - w.potential a.tail], c.parts.all Cost.inRange

/-- Each pair is a candidate's, follows the one before it, and brings a new worker. -/
def Accepted (demands : List Demand) (candidates : List Candidate) :
    Option Assignment → List (U 64) → List Assignment → Prop
  | _, _, [] => True
  | previous, used, a :: rest =>
      (a.demandIndex < demands.length ∧ (∀ p ∈ previous, p.key < a.key) ∧ a.workerId ∉ used ∧
        ∃ c ∈ candidates, c.assignment = a) ∧
      Accepted demands candidates (some a) (used ++ [a.workerId]) rest

/-- The workers eligible for some demand on the source side. -/
def eligibleWorkers (sourceSide : List Bool) (candidates : List Candidate)
    (out : BTreeMap (U 64) Unit) : BTreeMap (U 64) Unit :=
  candidates.foldl (fun out c =>
    if sourceSide.getD (1 + c.demandIndex) false then out.insert c.workerId ⟨⟩ else out) out

/-- The demands on the source side. -/
def demandsOnSource (demands : List Demand) (sourceSide : List Bool) : List Nat :=
  (List.range demands.length).filter fun d => sourceSide.getD (1 + d) false

/-- The shortage a source side stands for. -/
def shortageOf (demands : List Demand) (candidates : List Candidate) (sourceSide : List Bool) :
    Shortage :=
  let indices := demandsOnSource demands sourceSide
  let required := (indices.map (slots demands)).sum
  let eligible := (eligibleWorkers sourceSide candidates OMap.nil).size
  ⟨indices, required, eligible, required - eligible⟩

/-- A shortage is reported exactly when slots stay empty, and accounts for all of them. -/
def Reports (demands : List Demand) (candidates : List Candidate) (model : Model)
    (sourceSide : List Bool) (assigned : Nat) (s : Option Shortage) : Prop :=
  if assigned = model.requested then s = none
  else
    let short := shortageOf demands candidates sourceSide
    s = some short ∧ short.eligibleWorkers < short.requiredWorkers ∧
      short.requiredWorkers - short.eligibleWorkers = model.requested - assigned

theorem Reports.unique {demands : List Demand} {candidates : List Candidate} {model : Model}
    {sourceSide : List Bool} {assigned : Nat} {s s' : Option Shortage}
    (h : Reports demands candidates model sourceSide assigned s)
    (h' : Reports demands candidates model sourceSide assigned s') : s = s' := by
  unfold Reports at h h'
  split_ifs at h h'
  · rw [h, h']
  · rw [h.1, h'.1]

/-- All the checker asks of a certificate. -/
structure Checked (demands : List Demand) (candidates : List Candidate) (out : Allocation)
    (model : Model) : Prop where
  shape : ¬ misshapen demands model out
  accepted : Accepted demands candidates none [] out.assignments
  counts : (List.range demands.length).map
    (fun d => out.assignments.countP fun a => a.demandIndex = d) = out.allocatedByDemand
  total : totalCost demands candidates out.assignments = out.cost
  fine : ∀ a ∈ arcs demands candidates model,
    Fine out.witness (plan demands model out.assignments) a
  cut : Flow.cut (arcs demands candidates model) out.witness.onSource = out.cutCapacity
  reports : Reports demands candidates model out.witness.sourceSide out.assignedWorkers
    out.shortage

/-- All the sums the checker forms stay in range. -/
structure InRange (demands : List Demand) (candidates : List Candidate) (out : Allocation)
    (model : Model) : Prop where
  totals : ∀ n, (totalCost demands candidates (out.assignments.take n)).parts.all Cost.inRange
  tame : ∀ a ∈ arcs demands candidates model, Tame out.witness a
  cut : Flow.cut (arcs demands candidates model) out.witness.onSource < 2 ^ 32

section Specifications

variable {E : Error → Prop} {demands : List Demand} {candidates : List Candidate} {model : Model}
  {w : Witness} {x : Nat → Nat → Nat}

theorem checkRoom_delivers {a : Arc Cost} (hover : ¬ Tame w a → E .arithmeticOverflow)
    (hbad : ¬ (0 ≤ reduced w.potential a ∧ (w.onSource a.tail → w.onSource a.head)) →
      E .invalidCertificate) :
    Delivers maxWork (w.checkRoom a.tail a.head a.cost) (fun _ =>
      0 ≤ reduced w.potential a ∧ (w.onSource a.tail → w.onSource a.head)) E := by
  refine .bind (checked_delivers fun h => hover fun ht => h (ht _ (by simp))) fun sum hsum => ?_
  subst hsum
  refine .bind (checked_delivers fun h => hover fun ht => h (ht _ (by simp))) fun r hr => ?_
  subst hr
  have hiff : ¬ (a.cost + w.potential a.tail - w.potential a.head < 0 ∨
      (w.onSource a.tail ∧ ¬ w.onSource a.head)) ↔
      0 ≤ reduced w.potential a ∧ (w.onSource a.tail → w.onSource a.head) := by
    rw [not_or, not_lt, not_and, not_not, reduced]
  exact (Delivers.rejectIf fun h => hbad fun hgood => hiff.mpr hgood h).conseq
    (fun _ h => hiff.mp h) fun _ he => he

theorem checkUsed_delivers {a : Arc Cost} (hover : ¬ Tame w a → E .arithmeticOverflow)
    (hbad : ¬ (reduced w.potential a ≤ 0 ∧ (w.onSource a.head → w.onSource a.tail)) →
      E .invalidCertificate) :
    Delivers maxWork (w.checkUsed a.tail a.head a.cost) (fun _ =>
      reduced w.potential a ≤ 0 ∧ (w.onSource a.head → w.onSource a.tail)) E := by
  refine .bind (checked_delivers fun h => hover fun ht => h (ht _ (by simp))) fun neg hneg => ?_
  subst hneg
  refine .bind (checked_delivers fun h => hover fun ht => h (ht _ (by simp))) fun sum hsum => ?_
  subst hsum
  refine .bind (checked_delivers fun h => hover fun ht => h (ht _ (by simp))) fun r hr => ?_
  subst hr
  have hneg : 0 - a.cost + w.potential a.head - w.potential a.tail = - reduced w.potential a := by
    rw [reduced]
    abel
  have hiff : ¬ (0 - a.cost + w.potential a.head - w.potential a.tail < 0 ∨
      (w.onSource a.head ∧ ¬ w.onSource a.tail)) ↔
      reduced w.potential a ≤ 0 ∧ (w.onSource a.head → w.onSource a.tail) := by
    rw [not_or, not_lt, not_and, not_not, hneg, neg_nonneg]
  exact (Delivers.rejectIf fun h => hbad fun hgood => hiff.mpr hgood h).conseq
    (fun _ h => hiff.mp h) fun _ he => he

/-- What one arc adds to the cut. -/
theorem cut_cons (a : Arc Cost) (l : List (Arc Cost)) (S : Nat → Bool) :
    Flow.cut (a :: l) S = (if S a.tail ∧ ¬ S a.head then a.capacity else 0) + Flow.cut l S := by
  simp [Flow.cut]

theorem check_delivers (hbudget : E .budgetExceeded) {a : Arc Cost} {cut : Nat}
    (hbad : ¬ Fine w x a → E .invalidCertificate) (hover : ¬ Tame w a → E .arithmeticOverflow)
    (hcut : cut + Flow.cut [a] w.onSource < 2 ^ 32 ∨ E .arithmeticOverflow) :
    Delivers maxWork (w.check cut a (on x a))
      (fun c => Fine w x a ∧ c = cut + Flow.cut [a] w.onSource) E := by
  rw [cut_cons, show Flow.cut ([] : List (Arc Cost)) w.onSource = 0 from rfl, Nat.add_zero] at *
  refine .bind (charge_delivers hbudget (by norm_num)) fun _ _ => ?_
  refine .bind (.rejectIf fun h => hbad fun hfine => absurd hfine.1 (not_le.mpr h)) fun _ hcap => ?_
  refine .bind (.rejectIf fun h => ?_) fun _ _ => ?_
  · rcases hcut with hsmall | he
    · rw [if_pos h.1] at hsmall
      exact absurd h.2 (not_le.mpr hsmall)
    · exact he
  refine .bind (.whenever fun h => checkRoom_delivers hover fun hb =>
    hbad fun hfine => hb (hfine.2.1 h)) fun _ hroom => ?_
  refine .bind (.whenever fun h => checkUsed_delivers hover fun hb =>
    hbad fun hfine => hb (hfine.2.2 h)) fun _ hused => ?_
  refine .pure ⟨⟨not_lt.mp hcap, hroom, hused⟩, ?_⟩
  split_ifs <;> rfl

/-- The three loops of the checker are one loop over arcs. -/
def checkAll (w : Witness) (x : Nat → Nat → Nat) : List (Arc Cost) → Nat → Solve Nat
  | [], cut => pure cut
  | a :: rest, cut => do
      let cut ← w.check cut a (on x a)
      checkAll w x rest cut

theorem checkAll_delivers (hbudget : E .budgetExceeded) (l : List (Arc Cost)) (cut : Nat)
    (hbad : ¬ (∀ a ∈ l, Fine w x a) → E .invalidCertificate)
    (hover : ¬ (∀ a ∈ l, Tame w a) → E .arithmeticOverflow)
    (hcut : cut + Flow.cut l w.onSource < 2 ^ 32 ∨ E .arithmeticOverflow) :
    Delivers maxWork (checkAll w x l cut)
      (fun c => (∀ a ∈ l, Fine w x a) ∧ c = cut + Flow.cut l w.onSource) E := by
  induction l generalizing cut with
  | nil => exact .pure ⟨by simp, rfl⟩
  | cons a rest ih =>
      have hsplit : Flow.cut (a :: rest) w.onSource =
          Flow.cut [a] w.onSource + Flow.cut rest w.onSource := by simp [Flow.cut]
      rw [hsplit] at hcut ⊢
      refine .bind (check_delivers hbudget
        (fun h => hbad fun hall => h (hall a (List.mem_cons_self ..)))
        (fun h => hover fun hall => h (hall a (List.mem_cons_self ..)))
        (hcut.imp_left fun h => by omega)) fun cut' hcut' => ?_
      obtain ⟨hfine, rfl⟩ := hcut'
      refine (ih _ (fun h => hbad fun hall => h fun b hb => hall b (List.mem_cons_of_mem _ hb))
        (fun h => hover fun hall => h fun b hb => hall b (List.mem_cons_of_mem _ hb))
        (hcut.imp_left fun h => by omega)).conseq ?_ fun _ he => he
      rintro c ⟨hrest, rfl⟩
      exact ⟨List.forall_mem_cons.mpr ⟨hfine, hrest⟩, by omega⟩

theorem checkDemands_eq (counts : List Nat)
    (hx : ∀ d, counts.getD d 0 = on x (demandArc demands d)) (l : List Demand) (n cut : Nat)
    (hl : ∀ i, demands[n + i]? = l[i]?) :
    checkDemands w counts n l cut =
      checkAll w x ((List.range' n l.length).map (demandArc demands)) cut := by
  induction l generalizing n cut with
  | nil => rfl
  | cons d rest ih =>
      have hslots : slots demands n = d.workers.val := by
        have := hl 0
        rw [Nat.add_zero] at this
        rw [slots, this]
        rfl
      have hrest : ∀ cut, checkDemands w counts (n + 1) rest cut =
          checkAll w x ((List.range' (n + 1) rest.length).map (demandArc demands)) cut := by
        intro cut
        apply ih
        intro i
        rw [Nat.add_assoc, Nat.add_comm 1 i, hl (i + 1)]
        rfl
      rw [checkDemands, List.length_cons, List.range'_succ, List.map_cons, checkAll, hx n,
        ← hslots]
      simp only [hrest]
      rfl

theorem checkWorkers_eq (sink start : Nat) (assigned : List (U 64)) (l : List (U 64)) (n cut : Nat)
    (hl : ∀ i id, l[i]? = some id → workerArc demands model id = ⟨start + (n + i), sink, 1, 0⟩ ∧
      on x (workerArc demands model id) = if id ∈ assigned then 1 else 0) :
    checkWorkers w start sink assigned n l cut =
      checkAll w x (l.map (workerArc demands model)) cut := by
  induction l generalizing n cut with
  | nil => rfl
  | cons id rest ih =>
      obtain ⟨harc, hon⟩ := hl 0 id rfl
      have hrest : ∀ cut, checkWorkers w start sink assigned (n + 1) rest cut =
          checkAll w x (rest.map (workerArc demands model)) cut := by
        intro cut
        apply ih
        intro i id' hid'
        rw [Nat.add_assoc, Nat.add_comm 1 i]
        exact hl (i + 1) id' hid'
      rw [checkWorkers, List.map_cons, checkAll, ← hon, harc]
      simp only [hrest, Nat.add_zero]

theorem workerNode_eq {id : U 64} (h : id ∈ model.workers) :
    model.workerNode demands.length id = .ok (node demands model id) := by
  unfold Model.workerNode
  cases hidx : model.workers.idxOf? id with
  | none => exact absurd h (List.idxOf?_eq_none_iff.mp hidx)
  | some i =>
      have : model.workers.idxOf id = i := by rw [List.idxOf_eq_getD_idxOf?, hidx]; rfl
      rw [node, this]

theorem checkCandidates_eq (selected : List Assignment) (l : List Candidate) (cut : Nat)
    (hl : ∀ c ∈ l, c.workerId ∈ model.workers ∧ value demands candidates c.assignment = cost demands c ∧
      on x (linkArc demands candidates model c.assignment) =
        if c.assignment ∈ selected then 1 else 0) :
    checkCandidates w demands model selected l cut =
      checkAll w x ((l.map Candidate.assignment).map (linkArc demands candidates model)) cut := by
  induction l generalizing cut with
  | nil => rfl
  | cons c rest ih =>
      obtain ⟨hworker, hvalue, hon⟩ := hl c (List.mem_cons_self ..)
      have hrest : ∀ cut, checkCandidates w demands model selected rest cut =
          checkAll w x ((rest.map Candidate.assignment).map (linkArc demands candidates model))
            cut :=
        fun cut => ih cut fun d hd => hl d (List.mem_cons_of_mem _ hd)
      rw [checkCandidates, workerNode_eq hworker, List.map_cons, List.map_cons, checkAll, ← hon]
      simp only [hrest, linkArc, hvalue]
      rfl

/-! What the loops over the assignments find. -/

theorem tally_delivers (hbudget : E .budgetExceeded) (previous : Option Assignment)
    (M : List Assignment) (seen : Tally)
    (hbad : ¬ Accepted demands candidates previous seen.workers M → E .invalidCertificate)
    (hover : ¬ (∀ n, (seen.total + totalCost demands candidates (M.take n)).parts.all
      Cost.inRange) → E .arithmeticOverflow) :
    Delivers maxWork (tally demands candidates previous M seen) (fun out =>
      Accepted demands candidates previous seen.workers M ∧
        out.counts = M.foldl (fun counts a => counts.modify a.demandIndex (· + 1)) seen.counts ∧
        out.workers = seen.workers ++ M.map Assignment.workerId ∧
        out.selected = seen.selected ++ M ∧
        out.total = seen.total + totalCost demands candidates M) E := by
  induction M generalizing previous seen with
  | nil => exact .pure ⟨trivial, rfl, by simp, by simp, by simp [totalCost]⟩
  | cons a rest ih =>
      refine .bind (charge_delivers hbudget (by norm_num)) fun _ _ => ?_
      refine .bind (.rejectIf fun h => hbad fun hacc => ?_) fun _ hok => ?_
      · rcases h with hidx | ⟨p, hp, hle⟩ | hmem
        · exact absurd hacc.1.1 (not_lt.mpr hidx)
        · exact absurd (hacc.1.2.1 p hp) (not_lt.mpr hle)
        · exact hacc.1.2.2.1 hmem
      simp only [not_or, not_exists, not_and, not_le] at hok
      cases hfind : candidates.find? fun c => c.assignment = a with
      | none =>
          refine .fails (hbad fun hacc => ?_)
          obtain ⟨c, hc, heq⟩ := hacc.1.2.2.2
          rw [List.find?_eq_none] at hfind
          exact hfind c hc (by simpa using heq)
      | some c =>
          have hcost : value demands candidates a = cost demands c := by
            rw [value, hfind]
            rfl
          have hpre : ∀ n, totalCost demands candidates ((a :: rest).take (n + 1)) =
              cost demands c + totalCost demands candidates (rest.take n) := by
            intro n
            rw [← hcost]
            rfl
          refine .bind (checked_delivers fun h => hover fun hall => h ?_) fun total htotal => ?_
          · have := hall 1
            rwa [hpre, List.take_zero, show totalCost demands candidates [] = 0 from rfl,
              add_zero] at this
          subst htotal
          refine (ih (some a) _ (fun h => hbad fun hacc => h hacc.2) fun h => hover fun hall =>
            h fun n => ?_).conseq ?_ fun _ he => he
          · have := hall (n + 1)
            rwa [hpre, ← add_assoc] at this
          · rintro out ⟨hacc, hcounts, hworkers, hselected, htotal⟩
            have hmem : ∃ c ∈ candidates, c.assignment = a :=
              ⟨c, List.mem_of_find?_eq_some hfind, by simpa using List.find?_some hfind⟩
            refine ⟨⟨⟨hok.1, hok.2.1, hok.2.2, hmem⟩, hacc⟩, hcounts, ?_, ?_, ?_⟩
            · rw [hworkers]
              simp
            · rw [hselected]
              simp
            · rw [htotal, add_assoc, ← hcost]
              rfl

/-- Counting slot by slot. -/
theorem foldl_modify (M : List Assignment) (counts : List Nat) :
    M.foldl (fun counts a => counts.modify a.demandIndex (· + 1)) counts =
      counts.mapIdx fun d n => n + M.countP fun a => a.demandIndex = d := by
  induction M generalizing counts with
  | nil =>
      apply List.ext_getElem?
      intro d
      simp
  | cons a rest ih =>
      rw [List.foldl_cons, ih]
      apply List.ext_getElem?
      intro d
      rw [List.getElem?_mapIdx, List.getElem?_mapIdx, List.getElem?_modify]
      by_cases hd : a.demandIndex = d
      · cases counts[d]? <;> simp [hd, Nat.add_assoc, Nat.add_comm 1]
      · cases counts[d]? <;> simp [hd]

theorem foldl_counts (M : List Assignment) (n : Nat) :
    M.foldl (fun counts a => counts.modify a.demandIndex (· + 1)) (List.replicate n 0) =
      (List.range n).map fun d => M.countP fun a => a.demandIndex = d := by
  rw [foldl_modify]
  apply List.ext_getElem?
  intro d
  rw [List.getElem?_mapIdx, List.getElem?_map, List.getElem?_replicate]
  by_cases hd : d < n
  · rw [if_pos hd, List.getElem?_range hd]
    simp
  · rw [if_neg hd, List.getElem?_eq_none (by simpa using hd)]
    rfl

theorem reachedDemands_delivers (hbudget : E .budgetExceeded) (sourceSide : List Bool)
    (l : List Demand) (n : Nat) (hl : ∀ i, demands[n + i]? = l[i]?) (out : List Nat × Nat) :
    Delivers maxWork (reachedDemands sourceSide n l out) (fun r =>
      let found := (List.range' n l.length).filter fun d => sourceSide.getD (1 + d) false
      r = (out.1 ++ found, out.2 + (found.map (slots demands)).sum)) E := by
  induction l generalizing n out with
  | nil => exact .pure (by simp)
  | cons d rest ih =>
      have hslots : slots demands n = d.workers.val := by
        have := hl 0
        rw [Nat.add_zero] at this
        rw [slots, this]
        rfl
      refine .bind (charge_delivers hbudget (by norm_num)) fun _ _ => ?_
      refine (ih (n + 1) (fun i => ?_) _).conseq ?_ fun _ he => he
      · rw [Nat.add_assoc, Nat.add_comm 1 i, hl (i + 1)]
        rfl
      · rintro r rfl
        dsimp only
        rw [List.length_cons, List.range'_succ, List.filter_cons]
        by_cases hside : sourceSide.getD (1 + n) false
        · rw [if_pos hside, if_pos hside]
          simp [hslots, Nat.add_assoc]
        · rw [if_neg hside, if_neg hside]

theorem neighbors_delivers (hbudget : E .budgetExceeded) (sourceSide : List Bool)
    (l : List Candidate) (out : BTreeMap (U 64) Unit) :
    Delivers maxWork (neighbors sourceSide l out)
      (fun r => r = eligibleWorkers sourceSide l out) E := by
  induction l generalizing out with
  | nil => exact .pure rfl
  | cons c rest ih =>
      exact .bind (charge_delivers hbudget (by norm_num)) fun _ _ => ih _

theorem contains_eligibleWorkers (sourceSide : List Bool) (l : List Candidate)
    (out : BTreeMap (U 64) Unit) (id : U 64) :
    (eligibleWorkers sourceSide l out).contains id ↔ out.contains id ∨
      ∃ c ∈ l, c.workerId = id ∧ sourceSide.getD (1 + c.demandIndex) false := by
  induction l generalizing out with
  | nil => simp [eligibleWorkers]
  | cons c rest ih =>
      rw [show eligibleWorkers sourceSide (c :: rest) out = eligibleWorkers sourceSide rest
        (if sourceSide.getD (1 + c.demandIndex) false then out.insert c.workerId ⟨⟩ else out)
        from rfl, ih]
      have hcons : (∃ d ∈ c :: rest, d.workerId = id ∧ sourceSide.getD (1 + d.demandIndex) false) ↔
          (c.workerId = id ∧ sourceSide.getD (1 + c.demandIndex) false) ∨
            ∃ d ∈ rest, d.workerId = id ∧ sourceSide.getD (1 + d.demandIndex) false :=
        List.exists_mem_cons_iff ..
      rw [hcons]
      by_cases hside : sourceSide.getD (1 + c.demandIndex) false
      · rw [if_pos hside, contains_insert, or_assoc, and_iff_left hside]
      · rw [if_neg hside]
        tauto

/-- Eligible workers are workers of the model. -/
theorem size_eligibleWorkers (hv : Valid demands candidates model) (sourceSide : List Bool) :
    (eligibleWorkers sourceSide candidates OMap.nil).size ≤ maxWorkers := by
  have hsub : (eligibleWorkers sourceSide candidates OMap.nil).keys ⊆ model.workers := by
    intro id hid
    rw [OMap.mem_keys_iff, contains_eligibleWorkers] at hid
    rcases hid with hnil | ⟨c, hc, heq, -⟩
    · simp [OMap.contains, OMap.get?] at hnil
    · exact (hv.workers id).mpr ⟨c, hc, heq⟩
  rw [← OMap.length_keys]
  exact ((OMap.keys_nodup _).subperm hsub).length_le.trans hv.crew

theorem deficiency_delivers (hbudget : E .budgetExceeded) (hv : Valid demands candidates model)
    (sourceSide : List Bool) (assigned : Nat)
    (hbad : ¬ (∃ s, Reports demands candidates model sourceSide assigned s) →
      E .invalidCertificate) :
    Delivers maxWork (deficiency demands candidates model sourceSide assigned)
      (fun s => Reports demands candidates model sourceSide assigned s) E := by
  refine .ite (fun h => .pure (by rw [Reports, if_pos h])) fun hne => ?_
  have hreports : ∀ s, Reports demands candidates model sourceSide assigned s ↔
      s = some (shortageOf demands candidates sourceSide) ∧
        (shortageOf demands candidates sourceSide).eligibleWorkers <
          (shortageOf demands candidates sourceSide).requiredWorkers ∧
        (shortageOf demands candidates sourceSide).requiredWorkers -
          (shortageOf demands candidates sourceSide).eligibleWorkers =
            model.requested - assigned := fun s => by rw [Reports, if_neg hne]
  refine .bind (reachedDemands_delivers hbudget sourceSide demands 0 (fun i => by
    rw [Nat.zero_add]) ([], 0)) fun r hr => ?_
  simp only [List.nil_append, Nat.zero_add, ← List.range_eq_range'] at hr
  subst hr
  refine .bind (neighbors_delivers hbudget sourceSide candidates OMap.nil) fun eligible he => ?_
  subst he
  refine .bind (.rejectIf fun h => ?_) fun _ _ => ?_
  · have := size_eligibleWorkers hv sourceSide
    have hmax : maxWorkers < 2 ^ 32 := by decide
    omega
  refine .bind (.rejectIf fun h => hbad fun hs => ?_) fun _ hle => ?_
  · obtain ⟨s, hs⟩ := hs
    have := ((hreports s).mp hs).2.1
    simp only [shortageOf, demandsOnSource] at this
    omega
  refine .bind (.rejectIf fun h => hbad fun hs => ?_) fun _ heq => ?_
  · obtain ⟨s, hs⟩ := hs
    obtain ⟨-, hlt, hsum⟩ := (hreports s).mp hs
    simp only [shortageOf, demandsOnSource] at hlt hsum
    omega
  refine .pure ((hreports _).mpr ⟨rfl, ?_, ?_⟩)
  · simp only [shortageOf, demandsOnSource]
    omega
  · simp only [shortageOf, demandsOnSource]
    omega

end Specifications

/-! ## The checker as a whole -/

section Checker

variable {E : Error → Prop} {demands : List Demand} {candidates : List Candidate} {model : Model}
  {out : Allocation} {M : List Assignment}

theorem Accepted.mem {previous : Option Assignment} {used : List (U 64)}
    (h : Accepted demands candidates previous used M) :
    ∀ a ∈ M, a.demandIndex < demands.length ∧ a.workerId ∉ used ∧
      ∃ c ∈ candidates, c.assignment = a := by
  induction M generalizing previous used with
  | nil => simp
  | cons a rest ih =>
      intro b hb
      rcases List.mem_cons.mp hb with rfl | hb
      · exact ⟨h.1.1, h.1.2.2⟩
      · obtain ⟨hidx, hused, hc⟩ := ih h.2 b hb
        exact ⟨hidx, fun hmem => hused (List.mem_append_left _ hmem), hc⟩

theorem Accepted.once {previous : Option Assignment} {used : List (U 64)}
    (h : Accepted demands candidates previous used M) : (M.map Assignment.workerId).Nodup := by
  induction M generalizing previous used with
  | nil => simp
  | cons a rest ih =>
      refine List.nodup_cons.mpr ⟨?_, ih h.2⟩
      intro hmem
      obtain ⟨b, hb, heq⟩ := List.mem_map.mp hmem
      exact (h.2.mem b hb).2.1 (by rw [heq]; simp)

/-- The counts of an assignment, demand by demand. -/
theorem getD_counts (n : Nat) (M : List Assignment) (hM : ∀ a ∈ M, a.demandIndex < n) (d : Nat) :
    ((List.range n).map fun d => M.countP fun a => a.demandIndex = d).getD d 0 =
      M.countP fun a => a.demandIndex = d := by
  rw [List.getD_eq_getElem?_getD, List.getElem?_map]
  by_cases hd : d < n
  · rw [List.getElem?_range hd]
    rfl
  · rw [List.getElem?_eq_none (by simpa using hd)]
    symm
    show _ = 0
    rw [List.countP_eq_zero]
    intro a ha
    have := hM a ha
    simp only [decide_eq_true_eq]
    omega

/-- **What the checker establishes, and what it takes to pass it.** -/
theorem verifyInner_delivers (hbudget : E .budgetExceeded)
    (hinvalid : ¬ (GoodDemands none demands ∧ GoodCandidates demands.length none candidates) →
      E .invalidInput)
    (hbad : ∀ model, Valid demands candidates model → ¬ Checked demands candidates out model →
      E .invalidCertificate)
    (hover : ∀ model, Valid demands candidates model → ¬ InRange demands candidates out model →
      E .arithmeticOverflow) :
    Delivers maxWork (verifyInner demands candidates out)
      (fun _ => ∃ model, Valid demands candidates model ∧ Checked demands candidates out model)
      E := by
  refine .bind (validate_delivers hbudget hinvalid) fun model hv => ?_
  replace hbad := hbad model hv
  replace hover := hover model hv
  refine .bind (.rejectIf fun h => hbad fun hc => hc.shape h) fun _ hshape => ?_
  refine .bind (tally_delivers hbudget none out.assignments _ (fun h => hbad fun hc =>
    h hc.accepted) fun h => hover fun hr => h fun n => by rw [zero_add]; exact hr.totals n)
    fun seen hseen => ?_
  obtain ⟨haccepted, hcounts, hworkers, hselected, htotal⟩ := hseen
  have hindex : ∀ a ∈ out.assignments, a.demandIndex < demands.length := fun a ha =>
    (haccepted.mem a ha).1
  have heligible : ∀ a ∈ out.assignments, ∃ c ∈ candidates, c.assignment = a := fun a ha =>
    (haccepted.mem a ha).2.2
  have hseen : seen.counts = (List.range demands.length).map
      fun d => out.assignments.countP fun a => a.demandIndex = d := by
    rw [hcounts, foldl_counts]
  simp only [List.nil_append, zero_add] at hworkers hselected htotal
  rw [hseen, hworkers, hselected, htotal]
  refine .bind (.rejectIf fun h => hbad fun hc => h.elim (fun h => h hc.counts) fun h =>
    h hc.total) fun _ hagree => ?_
  simp only [not_or, not_not] at hagree
  -- The three loops are one pass over the arcs under the plan of the assignment.
  let x := plan demands model out.assignments
  have hdemands : ∀ d, ((List.range demands.length).map
      fun d => out.assignments.countP fun a => a.demandIndex = d).getD d 0 =
        on x (demandArc demands d) := fun d => by
    rw [getD_counts _ _ hindex, on_demandArc]
  have hlinks : ∀ c ∈ candidates, c.workerId ∈ model.workers ∧
      value demands candidates c.assignment = cost demands c ∧
      on x (linkArc demands candidates model c.assignment) =
        if c.assignment ∈ out.assignments then 1 else 0 := fun c hc => by
    refine ⟨(hv.workers _).mpr ⟨c, hc, rfl⟩, hv.value_eq hc, ?_⟩
    rw [on_linkArc hv (List.mem_map_of_mem hc), ← (List.Nodup.of_map _ haccepted.once).count]
    exact List.countP_congr fun a _ => by simp
  have hcrew : ∀ i id, model.workers[i]? = some id → workerArc demands model id =
      ⟨1 + demands.length + (0 + i), model.sink, 1, 0⟩ ∧
      on x (workerArc demands model id) =
        if id ∈ out.assignments.map Assignment.workerId then 1 else 0 := fun i id hid => by
    constructor
    · obtain ⟨hlt, rfl⟩ := List.getElem?_eq_some_iff.mp hid
      rw [workerArc, node, hv.nodup.idxOf_getElem, Nat.zero_add]
    · rw [on_workerArc hv heligible, ← haccepted.once.count, List.count, List.countP_map]
      exact List.countP_congr fun a _ => by simp
  rw [checkDemands_eq (x := x) _ hdemands demands 0 0 (fun i => by
    rw [Nat.zero_add]), ← List.range_eq_range']
  have hlayers : ∀ a, a ∈ arcs demands candidates model ↔
      a ∈ (List.range demands.length).map (demandArc demands) ∨
      a ∈ (candidates.map Candidate.assignment).map (linkArc demands candidates model) ∨
      a ∈ model.workers.map (workerArc demands model) := fun a => by
    rw [arcs, List.mem_append, List.mem_append]
  have hcut : Flow.cut (arcs demands candidates model) out.witness.onSource =
      Flow.cut ((List.range demands.length).map (demandArc demands)) out.witness.onSource +
      (Flow.cut ((candidates.map Candidate.assignment).map (linkArc demands candidates model))
        out.witness.onSource +
      Flow.cut (model.workers.map (workerArc demands model)) out.witness.onSource) := by
    simp [arcs, Flow.cut]
  have hsmall : Flow.cut (arcs demands candidates model) out.witness.onSource < 2 ^ 32 ∨
      E .arithmeticOverflow := by
    by_cases hr : InRange demands candidates out model
    · exact .inl hr.cut
    · exact .inr (hover hr)
  rw [hcut] at hsmall
  refine .bind (checkAll_delivers hbudget _ 0
    (fun h => hbad fun hc => h fun a ha => hc.fine a ((hlayers a).mpr (.inl ha)))
    (fun h => hover fun hr => h fun a ha => hr.tame a ((hlayers a).mpr (.inl ha)))
    (hsmall.imp_left fun h => by omega)) fun cut hfine => ?_
  obtain ⟨hfine, rfl⟩ := hfine
  rw [checkCandidates_eq (x := x) _ candidates _ hlinks]
  refine .bind (checkAll_delivers hbudget _ _
    (fun h => hbad fun hc => h fun a ha => hc.fine a ((hlayers a).mpr (.inr (.inl ha))))
    (fun h => hover fun hr => h fun a ha => hr.tame a ((hlayers a).mpr (.inr (.inl ha))))
    (hsmall.imp_left fun h => by omega)) fun cut hfine' => ?_
  obtain ⟨hfine', rfl⟩ := hfine'
  rw [checkWorkers_eq (x := x) _ _ _ model.workers 0 _ hcrew]
  refine .bind (checkAll_delivers hbudget _ _
    (fun h => hbad fun hc => h fun a ha => hc.fine a ((hlayers a).mpr (.inr (.inr ha))))
    (fun h => hover fun hr => h fun a ha => hr.tame a ((hlayers a).mpr (.inr (.inr ha))))
    (hsmall.imp_left fun h => by omega)) fun cut hfine'' => ?_
  obtain ⟨hfine'', rfl⟩ := hfine''
  have hsum : 0 + Flow.cut ((List.range demands.length).map (demandArc demands))
      out.witness.onSource + Flow.cut ((candidates.map Candidate.assignment).map
      (linkArc demands candidates model)) out.witness.onSource +
      Flow.cut (model.workers.map (workerArc demands model)) out.witness.onSource =
      Flow.cut (arcs demands candidates model) out.witness.onSource := by
    rw [hcut]
    omega
  rw [hsum]
  refine .bind (.rejectIf fun h => hbad fun hc => h hc.cut) fun _ hcutEq => ?_
  refine .bind (deficiency_delivers hbudget hv _ _ fun h => hbad fun hc => h ⟨_, hc.reports⟩)
    fun shortage hreports => ?_
  have hlast : Delivers maxWork (rejectIf (shortage ≠ out.shortage) Error.invalidCertificate)
      (fun _ => ¬ shortage ≠ out.shortage) E :=
    .rejectIf fun h => hbad fun hc => h (hreports.unique hc.reports)
  refine hlast.conseq ?_ fun _ he => he
  · intro _ hshort
    rw [not_not] at hshort hcutEq
    exact ⟨model, hv,
      { shape := hshape
        accepted := haccepted
        counts := hagree.1
        total := hagree.2
        fine := fun a ha => by
          rcases (hlayers a).mp ha with h | h | h
          · exact hfine a h
          · exact hfine' a h
          · exact hfine'' a h
        cut := hcutEq
        reports := hshort ▸ hreports }⟩

/-! ## Soundness -/

theorem Work.new_ok {budget : Nat} {work : Work} (h : Work.new budget = .ok work) :
    work = ⟨0, budget⟩ ∧ budget ≤ maxWork := by
  unfold Work.new at h
  split_ifs at h with hc
  cases h
  rw [not_or, not_lt] at hc
  exact ⟨rfl, hc.2⟩

/-- A certificate that passes is the plan of a flow that its potentials and cut certify. -/
theorem Checked.feasible (h : Checked demands candidates out model) :
    Feasible demands candidates out.assignments where
  eligible := fun a ha => (h.accepted.mem a ha).2.2
  once := h.accepted.once
  slots := by
    intro d
    by_cases hd : d < demands.length
    · have hfine := h.fine (demandArc demands d) (by
        rw [arcs, List.mem_append]
        exact .inl (List.mem_map_of_mem (List.mem_range.mpr hd)))
      have hcap := hfine.1
      rwa [on_demandArc] at hcap
    · rw [List.countP_eq_zero.mpr fun a ha => ?_]
      · exact Nat.zero_le _
      · have := (h.accepted.mem a ha).1
        simp only [decide_eq_true_eq]
        omega

theorem Checked.slack (h : Checked demands candidates out model) :
    Slack (arcs demands candidates model) (plan demands model out.assignments)
      out.witness.potential :=
  fun a ha => ⟨fun hroom => ((h.fine a ha).2.1 hroom).1, fun hused => ((h.fine a ha).2.2 hused).1⟩

theorem Checked.closed (h : Checked demands candidates out model) :
    Closed (arcs demands candidates model) (plan demands model out.assignments)
      out.witness.onSource :=
  fun a ha => ⟨fun hroom => ((h.fine a ha).2.1 hroom).2, fun hused => ((h.fine a ha).2.2 hused).2⟩

theorem Checked.maximum (hv : Valid demands candidates model)
    (h : Checked demands candidates out model) (hM : Feasible demands candidates M) :
    M.length ≤ out.assignments.length := by
  have hshape := h.shape
  simp only [misshapen, not_or, not_not] at hshape
  have hle := (plan_carries hv h.feasible).maximum out.witness.onSource
    hshape.2.2.2.2.2.2.2.1 (Bool.eq_false_of_not_eq_true hshape.2.2.2.2.2.2.2.2) h.closed
    (plan_carries hv hM)
  exact_mod_cast hle

theorem Checked.cheapest (hv : Valid demands candidates model)
    (h : Checked demands candidates out model) (hM : Feasible demands candidates M)
    (hlength : M.length = out.assignments.length) :
    totalCost demands candidates out.assignments ≤ totalCost demands candidates M := by
  rw [← price_plan hv h.feasible, ← price_plan hv hM]
  apply (plan_carries hv h.feasible).cost_le h.slack
  rw [← hlength]
  exact plan_carries hv hM

/-- An assignment that is feasible, fills as many slots as any other, and costs no more than any
other that fills as many. -/
structure Optimal (demands : List Demand) (candidates : List Candidate) (M : List Assignment) :
    Prop where
  feasible : Feasible demands candidates M
  maximum : ∀ N, Feasible demands candidates N → N.length ≤ M.length
  cheapest : ∀ N, Feasible demands candidates N → N.length = M.length →
    totalCost demands candidates M ≤ totalCost demands candidates N

theorem Checked.optimal (hv : Valid demands candidates model)
    (h : Checked demands candidates out model) :
    Optimal demands candidates out.assignments :=
  ⟨h.feasible, fun _ hN => h.maximum hv hN, fun _ hN => h.cheapest hv hN⟩

/-- **An accepted certificate is optimal**, and the size and cost it states are its own. -/
theorem verify_sound {budget used : Nat} (h : verify demands candidates out budget = .ok used) :
    Optimal demands candidates out.assignments ∧
      out.assignedWorkers = out.assignments.length ∧
      out.cost = totalCost demands candidates out.assignments := by
  unfold verify at h
  obtain ⟨work, hwork, h⟩ := bind_ok_iff.mp h
  obtain ⟨rfl, hbudget⟩ := Work.new_ok hwork
  have hdelivers := @verifyInner_delivers (fun _ => True) demands candidates out trivial (fun _ => trivial) (fun _ _ _ => trivial)
    fun _ _ _ => trivial
  cases hexec : exec (verifyInner demands candidates out) ⟨0, budget⟩ with
  | mk result t =>
      cases result with
      | error e =>
          rw [hexec] at h
          cases h
      | ok u =>
          obtain ⟨⟨model, hv, hchecked⟩, -⟩ := hdelivers.ok (Nat.zero_le _) hbudget hexec
          have hshape := hchecked.shape
          simp only [misshapen, not_or, not_not] at hshape
          exact ⟨hchecked.optimal hv, hshape.2.2.1, hchecked.total.symm⟩

end Checker

/-! Two demands compete for the better worker, and the weaker one is left for the other. -/

namespace Crew

def demands : List Demand := [⟨"a", 1, 0⟩, ⟨"b", 1, 0⟩]

def candidates : List Candidate :=
  [⟨1, 0, ⟨20, by decide⟩, ⟨20, by decide⟩, 1⟩, ⟨2, 0, ⟨19, by decide⟩, ⟨19, by decide⟩, 1⟩,
    ⟨1, 1, ⟨20, by decide⟩, ⟨20, by decide⟩, 1⟩]

def certificate : Allocation where
  assignments := [⟨0, 2⟩, ⟨1, 1⟩]
  allocatedByDemand := [1, 1]
  requestedWorkers := 2
  assignedWorkers := 2
  cutCapacity := 2
  cost := Cost.make 0 (-39) (-39) 2
  shortage := none
  witness :=
    { potentials := [Cost.make 0 0 0 0, Cost.make 0 0 0 0, Cost.make 0 0 0 0,
        Cost.make 0 (-20) (-20) 1, Cost.make 0 (-19) (-19) 1, Cost.make 0 (-19) (-19) 1]
      sourceSide := [true, false, false, false, false, false] }
  workUnits := 0

end Crew

theorem verify_sound_crew : Optimal Crew.demands Crew.candidates Crew.certificate.assignments ∧
    Crew.certificate.assignedWorkers = Crew.certificate.assignments.length ∧
    Crew.certificate.cost =
      totalCost Crew.demands Crew.candidates Crew.certificate.assignments :=
  have haccepts : verify Crew.demands Crew.candidates Crew.certificate 100 = .ok 14 := by
    decide +kernel
  verify_sound haccepts

end Dfmcp.WorkforceAllocation
