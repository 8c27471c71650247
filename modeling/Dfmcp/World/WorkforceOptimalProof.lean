import Dfmcp.World.WorkforceSolverProof

/-!
# Workforce allocation is optimal

The two ends of the solver, around its rounds. At the start the network is laid out arc by arc and
the initial potentials leave no arc negative (`build_delivers`). At the end the flow is read off the
candidates' arcs: conservation at workers and demands makes it the plan of an assignment
(`Ended.agrees`), so its certificate has everything the checker asks (`Ended.checked`).

* `propose_delivers` — the proposed certificate passes every check, and its sums stay in range;
* `verifyInner_frugal` — checking costs the same whatever was spent before;
* `allocate_correct` — **a returned allocation is optimal and passes the checker again on its own,
  and on valid input the only failure is an exceeded budget**.
-/

namespace Dfmcp.WorkforceAllocation

open Machine Flow Method

/-! ## Laying out the network -/

/-- The empty flow. -/
def still (_ _ : Nat) : Nat := 0

/-- Where the arcs of the candidates lie, in the lists of their demands. -/
def places (demands : List Demand) (candidates : List Candidate) (model : Model) :
    List (Arc Cost) → List Candidate → List Nat
  | _, [] => []
  | before, c :: rest => degree before (1 + c.demandIndex) ::
      places demands candidates model
        (before ++ [linkArc demands candidates model c.assignment]) rest

section Building

variable {E : Error → Prop} {demands : List Demand} {candidates : List Candidate} {model : Model}
  {A : List (Arc Cost)} {graph : Graph Cost}

theorem arc_delivers {tail head capacity : Nat} {value : Cost} (hvalue : Within unit value) :
    Delivers maxWork (of (arc graph tail head capacity value)) (fun r =>
      r = ((graph.edges tail).length, graph.link tail head capacity value (0 - value))) E := by
  have hchecked : Cost.sub 0 value = .ok (0 - value) := by
    unfold Cost.sub Cost.checked
    rw [if_pos]
    exact ((Within.zero le_rfl).sub hvalue).inRange (by unfold unit; omega)
  refine .of (fun r h => ?_) fun e h => ?_
  · rw [arc, hchecked] at h
    exact (Except.ok.inj h).symm
  · rw [arc, hchecked] at h
    cases h

/-- Lowering a potential. -/
theorem update_min_le (π : Nat → Cost) (u : Nat) (c : Cost) (v : Nat) :
    Function.update π u (min (π u) c) v ≤ π v := by
  by_cases hv : v = u
  · subst hv
    rw [Function.update_self]
    exact min_le_left _ _
  · rw [Function.update_of_ne hv]

theorem update_min_self (π : Nat → Cost) (u : Nat) (c : Cost) :
    Function.update π u (min (π u) c) u ≤ c := by
  rw [Function.update_self]
  exact min_le_right _ _

theorem update_min_within {π : Nat → Cost} {b : ℤ} (hπ : ∀ v, Within b (π v)) (u : Nat) {c : Cost}
    (hc : Within b c) (v : Nat) : Within b (Function.update π u (min (π u) c) v) := by
  by_cases hv : v = u
  · subst hv
    rw [Function.update_self]
    rcases min_choice (π v) c with heq | heq
    · rw [heq]
      exact hπ v
    · rw [heq]
      exact hc
  · rw [Function.update_of_ne hv]
    exact hπ v

theorem within_zero : Within unit 0 := .zero (by unfold unit; norm_num)

theorem addDemands_delivers (hbudget : E .budgetExceeded) (l : List Demand) (n : Nat)
    (graph : Graph Cost) (hl : ∀ i, demands[n + i]? = l[i]?)
    (h : Represents Arc.cost opposite graph A still) :
    Delivers maxWork (addDemands n l graph) (fun g => g.size = graph.size ∧
      Represents Arc.cost opposite g (A ++ (List.range' n l.length).map (demandArc demands))
        still) E := by
  induction l generalizing n graph A with
  | nil => exact .pure ⟨rfl, by simpa using h⟩
  | cons d rest ih =>
      have hslots : slots demands n = d.workers.val := by
        have := hl 0
        rw [Nat.add_zero] at this
        rw [slots, this]
        rfl
      refine .bind (charge_delivers hbudget (by norm_num)) fun _ _ => ?_
      refine .bind (arc_delivers within_zero) fun r hr => ?_
      subst hr
      have hlink := h.link (a := demandArc demands n) (by simp only [demandArc]; omega) rfl
      simp only [demandArc, opposite, hslots] at hlink
      refine (ih (n + 1) _ (fun i => ?_) hlink).conseq ?_ fun _ he => he
      · rw [Nat.add_assoc, Nat.add_comm 1 i, hl (i + 1)]
        rfl
      · rintro g ⟨hsize, hg⟩
        refine ⟨hsize, ?_⟩
        rw [List.append_assoc] at hg
        rw [List.length_cons, List.range'_succ, List.map_cons, demandArc, hslots]
        exact hg

theorem addCandidates_delivers (hbudget : E .budgetExceeded) (hv : Valid demands candidates model)
    (l : List Candidate) (net : Network) (hl : ∀ c ∈ l, c ∈ candidates)
    (h : Represents Arc.cost opposite net.graph A still)
    (hπ : ∀ v, Within unit (net.potentials v)) :
    Delivers maxWork (addCandidates demands model l net) (fun net' =>
      net'.graph.size = net.graph.size ∧
        Represents Arc.cost opposite net'.graph
          (A ++ (l.map Candidate.assignment).map (linkArc demands candidates model)) still ∧
        net'.links = net.links ++ places demands candidates model A l ∧
        (∀ v, Within unit (net'.potentials v)) ∧
        (∀ v, v ≤ demands.length → net'.potentials v = net.potentials v) ∧
        (∀ v, net'.potentials v ≤ net.potentials v) ∧
        ∀ c ∈ l, net'.potentials (node demands model c.workerId) ≤ cost demands c) E := by
  induction l generalizing net A with
  | nil => exact .pure ⟨rfl, by simpa using h, by simp [places], hπ, fun _ _ => rfl,
      fun _ => le_rfl, by simp⟩
  | cons c rest ih =>
      have hc := hl c (List.mem_cons_self ..)
      have hworker : c.workerId ∈ model.workers := (hv.workers _).mpr ⟨c, hc, rfl⟩
      have hindex := hv.eligible.index c hc
      refine .bind (charge_delivers hbudget (by norm_num)) fun _ _ => ?_
      refine .bind (.of (Q := fun w => w = node demands model c.workerId) (fun w hw => ?_)
        fun e he => ?_) fun w hw => ?_
      · rw [workerNode_eq hworker] at hw
        exact (Except.ok.inj hw).symm
      · rw [workerNode_eq hworker] at he
        cases he
      subst hw
      refine .bind (arc_delivers (within_cost demands c)) fun r hr => ?_
      subst hr
      have hlink := h.link (a := linkArc demands candidates model c.assignment) (by
        simp only [linkArc, node, Candidate.assignment]
        omega) rfl
      have harc : linkArc demands candidates model c.assignment =
          ⟨1 + c.demandIndex, node demands model c.workerId, model.requested, cost demands c⟩ := by
        rw [linkArc, hv.value_eq hc]
        rfl
      rw [harc] at hlink
      simp only [opposite] at hlink
      have hlarge : ∀ v, v ≤ demands.length → v ≠ node demands model c.workerId := by
        intro v hle
        unfold node
        omega
      refine (ih _ (fun d hd => hl d (List.mem_cons_of_mem _ hd)) hlink
        (update_min_within hπ _ (within_cost demands c))).conseq ?_ fun _ he => he
      rintro net' ⟨hsize, hrep, hlinks, hwithin, hsame, hle, hcosts⟩
      refine ⟨hsize, ?_, ?_, hwithin, ?_, ?_, ?_⟩
      · rw [List.append_assoc] at hrep
        rw [List.map_cons, List.map_cons, harc]
        exact hrep
      · rw [hlinks, places, h.length, harc, List.append_assoc]
        rfl
      · intro v hv'
        rw [hsame v hv']
        exact Function.update_of_ne (hlarge v hv') _ _
      · exact fun v => (hle v).trans (update_min_le _ _ _ v)
      · intro d hd
        rcases List.mem_cons.mp hd with rfl | hd
        · exact (hle _).trans (update_min_self _ _ _)
        · exact hcosts d hd

theorem addWorkers_delivers (hbudget : E .budgetExceeded) (l : List (U 64)) (net : Network)
    (hl : ∀ id ∈ l, id ∈ model.workers) (hv : Valid demands candidates model)
    (h : Represents Arc.cost opposite net.graph A still)
    (hπ : ∀ v, Within unit (net.potentials v)) :
    Delivers maxWork (addWorkers model.sink (l.map (node demands model)) net) (fun net' =>
      net'.graph.size = net.graph.size ∧
        Represents Arc.cost opposite net'.graph (A ++ l.map (workerArc demands model)) still ∧
        net'.links = net.links ∧
        (∀ v, Within unit (net'.potentials v)) ∧
        (∀ v, v ≠ model.sink → net'.potentials v = net.potentials v) ∧
        net'.potentials model.sink ≤ net.potentials model.sink ∧
        ∀ id ∈ l, net'.potentials model.sink ≤ net.potentials (node demands model id)) E := by
  induction l generalizing net A with
  | nil => exact .pure ⟨rfl, by simpa using h, rfl, hπ, fun _ _ => rfl, le_rfl, by simp⟩
  | cons id rest ih =>
      have hne : ∀ id' ∈ id :: rest, node demands model id' ≠ model.sink := by
        intro id' hid'
        have := List.idxOf_lt_length_iff.mpr (hl id' hid')
        have := hv.sink
        unfold node
        omega
      refine .bind (charge_delivers hbudget (by norm_num)) fun _ _ => ?_
      refine .bind (arc_delivers within_zero) fun r hr => ?_
      subst hr
      have hlink := h.link (a := workerArc demands model id)
        (hne id (List.mem_cons_self ..)) rfl
      simp only [workerArc, opposite] at hlink
      refine (ih _ (fun id' hid' => hl id' (List.mem_cons_of_mem _ hid')) hlink
        (update_min_within hπ _ (hπ _))).conseq ?_ fun _ he => he
      rintro net' ⟨hsize, hrep, hlinks, hwithin, hsame, hle, hcosts⟩
      refine ⟨hsize, ?_, hlinks, hwithin, ?_, hle.trans (update_min_le _ _ _ _), ?_⟩
      · rw [List.append_assoc] at hrep
        exact hrep
      · intro v hv'
        rw [hsame v hv']
        exact Function.update_of_ne hv' _ _
      · intro id' hid'
        rcases List.mem_cons.mp hid' with rfl | hrest
        · exact hle.trans (update_min_self _ _ _)
        · refine (hcosts id' hrest).trans (le_of_eq ?_)
          exact Function.update_of_ne (hne id' hid') _ _

/-! The network of a valid model. -/

theorem mem_arcs {a : Arc Cost} : a ∈ arcs demands candidates model ↔
    (∃ d < demands.length, demandArc demands d = a) ∨
      (∃ p ∈ candidates.map Candidate.assignment, linkArc demands candidates model p = a) ∨
      ∃ id ∈ model.workers, workerArc demands model id = a := by
  rw [arcs, List.mem_append, List.mem_append]
  simp only [List.mem_map, List.mem_range]

theorem Valid.node_lt (hv : Valid demands candidates model) {id : U 64} (hid : id ∈ model.workers) :
    demands.length < node demands model id ∧ node demands model id < model.sink := by
  have := List.idxOf_lt_length_iff.mpr hid
  have := hv.sink
  unfold node
  omega

/-- A pair of the input, its place in the list of demands, and its worker. -/
theorem Valid.pair (hv : Valid demands candidates model) {p : Assignment}
    (hp : p ∈ candidates.map Candidate.assignment) :
    p.demandIndex < demands.length ∧ p.workerId ∈ model.workers := by
  obtain ⟨c, hc, rfl⟩ := List.mem_map.mp hp
  exact ⟨hv.eligible.index c hc, (hv.workers _).mpr ⟨c, hc, rfl⟩⟩

theorem Valid.node_injective (hv : Valid demands candidates model) {id id' : U 64}
    (hid : id ∈ model.workers) (h : node demands model id' = node demands model id) : id' = id := by
  obtain ⟨c, hc, rfl⟩ := (hv.workers id).mp hid
  exact hv.node_inj hc h

theorem slots_le (hv : Valid demands candidates model) (d : Nat) : slots demands d ≤ maxSlots := by
  unfold slots
  cases hd : demands[d]? with
  | none => exact Nat.zero_le _
  | some demand => exact (hv.wanted.slots demand (List.mem_of_getElem? hd)).2

theorem arcs_simple (hv : Valid demands candidates model) :
    Simple (arcs demands candidates model) where
  proper := by
    intro a ha
    rcases mem_arcs.mp ha with ⟨d, -, rfl⟩ | ⟨p, hp, rfl⟩ | ⟨id, hid, rfl⟩
    · simp only [demandArc]
      omega
    · obtain ⟨hindex, hworker⟩ := hv.pair hp
      have := hv.node_lt hworker
      simp only [linkArc]
      omega
    · have := hv.node_lt hid
      simp only [workerArc]
      omega
  distinct := by
    have hends : ∀ {κ : Type} (K : List κ) (arcOf : κ → Arc Cost), K.Nodup →
        (∀ x ∈ K, ∀ y ∈ K, ((arcOf x).tail, (arcOf x).head) = ((arcOf y).tail, (arcOf y).head) →
          x = y) → ((K.map arcOf).map fun a => (a.tail, a.head)).Nodup := by
      intro κ K arcOf hK hinj
      rw [List.map_map]
      exact hK.map_on hinj
    rw [arcs, List.map_append, List.map_append, List.nodup_append, List.nodup_append]
    refine ⟨?_, ⟨?_, ?_, ?_⟩, ?_⟩
    · refine hends _ _ List.nodup_range fun d _ d' _ h => ?_
      simp only [demandArc, Prod.mk.injEq] at h
      omega
    · refine hends _ _ hv.assignments_nodup fun p hp p' hp' h => ?_
      simp only [linkArc, Prod.mk.injEq] at h
      have hworker := hv.node_injective (hv.pair hp').2 h.2
      have hindex : p.demandIndex = p'.demandIndex := by omega
      cases p
      cases p'
      exact congrArg₂ Assignment.mk hindex hworker
    · refine hends _ _ hv.nodup fun id _ id' hid' h => ?_
      simp only [workerArc, Prod.mk.injEq] at h
      exact hv.node_injective hid' h.1
    · intro x hx y hy hxy
      obtain ⟨a, ha, rfl⟩ := List.mem_map.mp hx
      obtain ⟨b, hb, rfl⟩ := List.mem_map.mp hy
      obtain ⟨p, hp, rfl⟩ := List.mem_map.mp ha
      obtain ⟨id, hid, rfl⟩ := List.mem_map.mp hb
      have := hv.node_lt (hv.pair hp).2
      simp only [linkArc, workerArc, Prod.mk.injEq] at hxy
      omega
    · intro x hx y hy hxy
      obtain ⟨a, ha, rfl⟩ := List.mem_map.mp hx
      obtain ⟨d, -, rfl⟩ := List.mem_map.mp ha
      rcases List.mem_append.mp hy with hy | hy
      · obtain ⟨b, hb, rfl⟩ := List.mem_map.mp hy
        obtain ⟨p, -, rfl⟩ := List.mem_map.mp hb
        simp only [demandArc, linkArc, Prod.mk.injEq] at hxy
        omega
      · obtain ⟨b, hb, rfl⟩ := List.mem_map.mp hy
        obtain ⟨id, hid, rfl⟩ := List.mem_map.mp hb
        have := hv.node_lt hid
        simp only [demandArc, workerArc, Prod.mk.injEq] at hxy
        omega

theorem sum_slots (demands : List Demand) :
    ((List.range demands.length).map (slots demands)).sum =
      (demands.map fun d => d.workers.val).sum := by
  congr 1
  apply List.ext_getElem
  · simp
  · intro i hi hi'
    simp [slots, List.getElem?_eq_getElem (by simpa using hi')]

/-- What a cut of the three layers is made of. -/
theorem cut_arcs (S : Nat → Bool) : Flow.cut (arcs demands candidates model) S =
    ((List.range demands.length).map fun d =>
      if S 0 && !S (1 + d) then slots demands d else 0).sum +
    (((candidates.map Candidate.assignment).map fun p =>
      if S (1 + p.demandIndex) && !S (node demands model p.workerId) then model.requested
      else 0).sum +
    (model.workers.map fun id =>
      if S (node demands model id) && !S model.sink then 1 else 0).sum) := by
  have hlayer : ∀ {κ : Type} (K : List κ) (arcOf : κ → Arc Cost),
      (K.map arcOf).map (fun a => if S a.tail && !S a.head then a.capacity else 0) =
        K.map fun k => if S (arcOf k).tail && !S (arcOf k).head then (arcOf k).capacity else 0 :=
    fun K arcOf => List.map_map ..
  rw [arcs, Flow.cut, List.map_append, List.map_append, List.sum_append, List.sum_append,
    hlayer, hlayer, hlayer]
  rfl

theorem arcs_solvable (hv : Valid demands candidates model) :
    Solvable (arcs demands candidates model) model where
  simple := arcs_simple hv
  bounds := by
    intro a ha
    have hsink := hv.sink
    rcases mem_arcs.mp ha with ⟨d, hd, rfl⟩ | ⟨p, hp, rfl⟩ | ⟨id, hid, rfl⟩
    · simp only [demandArc]
      omega
    · obtain ⟨hindex, hworker⟩ := hv.pair hp
      have := hv.node_lt hworker
      simp only [linkArc]
      omega
    · have := hv.node_lt hid
      simp only [workerArc]
      omega
  cost := by
    intro a ha
    rcases mem_arcs.mp ha with ⟨d, hd, rfl⟩ | ⟨p, hp, rfl⟩ | ⟨id, hid, rfl⟩
    · exact within_zero
    · obtain ⟨c, hc, rfl⟩ := List.mem_map.mp hp
      show Within unit (value demands candidates c.assignment)
      rw [hv.value_eq hc]
      exact within_cost demands c
    · exact within_zero
  capacity := by
    intro a ha
    rcases mem_arcs.mp ha with ⟨d, hd, rfl⟩ | ⟨p, hp, rfl⟩ | ⟨id, hid, rfl⟩
    · exact slots_le hv d
    · exact hv.bounded
    · show 1 ≤ maxSlots
      decide
  sink := by
    have := hv.sink
    omega
  size := by
    have := hv.sink
    have := hv.few
    have := hv.crew
    unfold maxDemands maxWorkers at *
    omega
  supply := by
    have hnode : ∀ id, node demands model id ≠ 0 := fun id => by
      unfold node
      omega
    have hsink : model.sink ≠ 0 := by
      have := hv.sink
      omega
    have hlinks : ∀ p : Assignment, ¬ 1 + p.demandIndex = 0 := fun p => by omega
    rw [cut_arcs, hv.requested, ← sum_slots]
    simp only [hnode, hsink, hlinks, decide_false, Bool.false_and]
    simp [Function.comp_def]
  bounded := hv.bounded

theorem build_delivers (hbudget : E .budgetExceeded) (hv : Valid demands candidates model) :
    Delivers maxWork (build demands candidates model) (fun net =>
      (∃ S, Solving (arcs demands candidates model) model net.graph net.potentials still 0 S) ∧
        net.links = places demands candidates model
          ((List.range demands.length).map (demandArc demands)) candidates) E := by
  refine .bind (addDemands_delivers hbudget demands 0 (Graph.empty Cost (model.sink + 1))
    (fun i => by rw [Nat.zero_add]) (represents_empty _)) fun graph hgraph => ?_
  obtain ⟨hsize, hgraph⟩ := hgraph
  rw [List.nil_append, ← List.range_eq_range'] at hgraph
  refine .bind (addCandidates_delivers hbudget hv candidates _ (fun c hc => hc) hgraph
    fun _ => within_zero) fun linked hlinked => ?_
  obtain ⟨hsize', hrep, hlinks, hwithin, hsame, -, hcosts⟩ := hlinked
  have hnodes : (List.range model.workers.length).map (1 + demands.length + ·) =
      model.workers.map (node demands model) := by
    apply List.ext_getElem
    · simp
    · intro i hi hi'
      simp [node, hv.nodup.idxOf_getElem]
  rw [hnodes]
  refine (addWorkers_delivers hbudget model.workers linked (fun id hid => hid) hv hrep hwithin).conseq
    ?_ fun _ he => he
  rintro net' ⟨hsize'', hrep', hlinks', hwithin', hsame', -, hle⟩
  have hsink := hv.sink
  have hbelow : ∀ v, v ≤ demands.length → net'.potentials v = 0 := by
    intro v hv'
    rw [hsame' v (by omega), hsame v hv']
  refine ⟨⟨fun _ => true, ?_⟩, by rw [hlinks', hlinks, List.nil_append]⟩
  rw [List.append_assoc] at hrep'
  exact
    { represents := hrep'
      carries := ⟨fun a _ => Nat.zero_le _, fun u => by simp [net, excess, on, still]⟩
      slack := by
        intro a ha
        refine ⟨fun _ => ?_, fun h => absurd h (Nat.lt_irrefl 0)⟩
        rcases mem_arcs.mp ha with ⟨d, hd, rfl⟩ | ⟨p, hp, rfl⟩ | ⟨id, hid, rfl⟩
        · simp only [reduced, demandArc]
          rw [hbelow 0 (Nat.zero_le _), hbelow (1 + d) (by omega)]
          simp
        · obtain ⟨c, hc, rfl⟩ := List.mem_map.mp hp
          have hindex := hv.eligible.index c hc
          have hnode := hv.node_lt ((hv.workers _).mpr ⟨c, hc, rfl⟩)
          have hcost := hcosts c hc
          have hvalue := hv.value_eq hc
          rw [← hsame' _ (by omega)] at hcost
          simp only [reduced, linkArc, hvalue]
          rw [hbelow (1 + c.assignment.demandIndex) (by
            simp only [Candidate.assignment]
            omega), add_zero, sub_nonneg]
          exact hcost
        · have hnode := hv.node_lt hid
          simp only [reduced, workerArc, zero_add, sub_nonneg]
          rw [hsame' (node demands model id) (by omega)]
          exact hle id hid
      closed := fun a _ => ⟨fun _ _ => rfl, fun _ _ => rfl⟩
      start := rfl
      source := hbelow 0 (Nat.zero_le _)
      near := fun v _ => (hwithin' v).mono (by unfold unit; omega)
      far := fun v => (hwithin' v).mono (by unfold unit reach; omega)
      size := by rw [hsize'', hsize', hsize]; rfl }

end Building

/-! ## Reading the flow off -/

section Reading

variable {E : Error → Prop} {demands : List Demand} {candidates : List Candidate} {model : Model}
  {f : Nat → Nat → Nat} {out : Filled} {A : List (Arc Cost)} {graph : Graph Cost}

variable (demands candidates model f) in
/-- The pairs that carry a unit. -/
def chosen : List Assignment :=
  (candidates.map Candidate.assignment).filter fun a =>
    on f (linkArc demands candidates model a) = 1

/-- Where amounts are zero or one, counting is adding them up. -/
theorem countP_filter_eq {α : Type} (l : List α) (amount : α → Nat) (p : α → Bool)
    (hone : ∀ a ∈ l, amount a ≤ 1) :
    (((l.filter fun a => amount a = 1).countP p : Nat) : ℤ) =
      (l.map fun a => (amount a : ℤ) * if p a then 1 else 0).sum := by
  induction l with
  | nil => rfl
  | cons a l ih =>
      have ha := hone a (List.mem_cons_self ..)
      have hrest := ih fun b hb => hone b (List.mem_cons_of_mem _ hb)
      rw [List.map_cons, List.sum_cons, ← hrest, List.filter_cons]
      rcases Nat.le_one_iff_eq_zero_or_eq_one.mp ha with hzero | hone
      · simp [hzero]
      · cases hp : p a
        · simp [hone, hp]
        · simp [hone, hp, add_comm]

/-- The balance of a node, layer by layer. -/
theorem net_arcs (u : Nat) : net (arcs demands candidates model) f u =
    ((List.range demands.length).map fun d =>
      (on f (demandArc demands d) : ℤ) * (point 0 u - point (1 + d) u)).sum +
    (((candidates.map Candidate.assignment).map fun p =>
      (on f (linkArc demands candidates model p) : ℤ) *
        (point (1 + p.demandIndex) u - point (node demands model p.workerId) u)).sum +
    (model.workers.map fun id =>
      (on f (workerArc demands model id) : ℤ) *
        (point (node demands model id) u - point model.sink u)).sum) := by
  have hlayer : ∀ {κ : Type} (K : List κ) (arcOf : κ → Arc Cost),
      (K.map arcOf).map (fun a => (on f a : ℤ) * through a u) =
        K.map fun k => (on f (arcOf k) : ℤ) * through (arcOf k) u :=
    fun K arcOf => List.map_map ..
  rw [arcs, net, List.map_append, List.map_append, List.sum_append, List.sum_append,
    hlayer, hlayer, hlayer]
  rfl

theorem point_ne {v u : Nat} (h : v ≠ u) : point v u = 0 := if_neg h

theorem sum_pick {κ : Type} [DecidableEq κ] {K : List κ} (hK : K.Nodup) (amount : κ → ℤ) {k : κ}
    (hk : k ∈ K) : (K.map fun x => amount x * if x = k then 1 else 0).sum = amount k := by
  rw [List.sum_map_eq_nsmul_single k _ fun x hne _ => by rw [if_neg hne, mul_zero],
    List.count_eq_one_of_mem hK hk, one_smul, if_pos rfl, mul_one]

theorem sum_neg {κ : Type} (K : List κ) (amount : κ → ℤ) :
    (K.map fun x => -amount x).sum = -(K.map amount).sum := by
  induction K with
  | nil => simp
  | cons x K ih => simp [ih, add_comm]

/-- A worker takes part in as many pairs as leave it. -/
theorem worker_balance (hv : Valid demands candidates model) {k : ℤ}
    (h : Carries (arcs demands candidates model) f 0 model.sink k) {id : U 64}
    (hid : id ∈ model.workers) :
    ((candidates.map Candidate.assignment).map fun p =>
      (on f (linkArc demands candidates model p) : ℤ) * if p.workerId = id then 1 else 0).sum =
        on f (workerArc demands model id) := by
  have hnode := hv.node_lt hid
  have hbalance := h.conserved (node demands model id)
  rw [net_arcs, excess, point_ne (by omega), point_ne (by omega), sub_zero, mul_zero] at hbalance
  have hfirst : ((List.range demands.length).map fun d => (on f (demandArc demands d) : ℤ) *
      (0 - point (1 + d) (node demands model id))) = (List.range demands.length).map fun _ => 0 := by
    refine List.map_congr_left fun d hd => ?_
    have := List.mem_range.mp hd
    rw [point_ne (by omega), sub_zero, mul_zero]
  have hsecond : ((candidates.map Candidate.assignment).map fun p =>
      (on f (linkArc demands candidates model p) : ℤ) * (point (1 + p.demandIndex)
        (node demands model id) - point (node demands model p.workerId)
          (node demands model id))) = (candidates.map Candidate.assignment).map fun p =>
      -((on f (linkArc demands candidates model p) : ℤ) * if p.workerId = id then 1 else 0) := by
    refine List.map_congr_left fun p hp => ?_
    have hpair := hv.pair hp
    rw [point_ne (by omega), zero_sub, mul_neg, point]
    by_cases heq : p.workerId = id
    · rw [if_pos heq, if_pos (by rw [heq])]
    · rw [if_neg heq, if_neg fun h => heq (hv.node_injective hid h)]
  have hthird : (model.workers.map fun id' => (on f (workerArc demands model id') : ℤ) *
      (point (node demands model id') (node demands model id) - 0)) =
      model.workers.map fun id' =>
        (on f (workerArc demands model id') : ℤ) * if id' = id then 1 else 0 := by
    refine List.map_congr_left fun id' _ => ?_
    rw [sub_zero, point]
    by_cases heq : id' = id
    · rw [if_pos heq, if_pos (by rw [heq])]
    · rw [if_neg heq, if_neg fun h => heq (hv.node_injective hid h)]
  rw [hfirst, hsecond, hthird, sum_pick hv.nodup _ hid, sum_neg] at hbalance
  simp only [List.map_const', List.sum_replicate, smul_zero, zero_add] at hbalance
  exact neg_add_eq_zero.mp hbalance

/-- A demand takes what enters it. -/
theorem demand_balance (hv : Valid demands candidates model) {k : ℤ}
    (h : Carries (arcs demands candidates model) f 0 model.sink k) {d : Nat}
    (hd : d < demands.length) :
    ((candidates.map Candidate.assignment).map fun p =>
      (on f (linkArc demands candidates model p) : ℤ) * if p.demandIndex = d then 1 else 0).sum =
        on f (demandArc demands d) := by
  have hsink := hv.sink
  have hbalance := h.conserved (1 + d)
  rw [net_arcs, excess, point_ne (by omega), point_ne (v := model.sink) (by omega), sub_zero,
    mul_zero] at hbalance
  have hfirst : ((List.range demands.length).map fun d' => (on f (demandArc demands d') : ℤ) *
      (0 - point (1 + d') (1 + d))) = (List.range demands.length).map fun d' =>
      -((on f (demandArc demands d') : ℤ) * if d' = d then 1 else 0) := by
    refine List.map_congr_left fun d' _ => ?_
    simp only [point, zero_sub, mul_neg, Nat.add_left_cancel_iff]
  have hsecond : ((candidates.map Candidate.assignment).map fun p =>
      (on f (linkArc demands candidates model p) : ℤ) * (point (1 + p.demandIndex) (1 + d) -
        point (node demands model p.workerId) (1 + d))) =
      (candidates.map Candidate.assignment).map fun p =>
      (on f (linkArc demands candidates model p) : ℤ) * if p.demandIndex = d then 1 else 0 := by
    refine List.map_congr_left fun p hp => ?_
    have := hv.node_lt (hv.pair hp).2
    rw [point_ne (v := node demands model p.workerId) (by omega), sub_zero]
    simp only [point, Nat.add_left_cancel_iff]
  have hthird : (model.workers.map fun id => (on f (workerArc demands model id) : ℤ) *
      (point (node demands model id) (1 + d) - 0)) = model.workers.map fun _ => 0 := by
    refine List.map_congr_left fun id hid => ?_
    have := hv.node_lt hid
    rw [point_ne (by omega), sub_zero, mul_zero]
  rw [hfirst, hsecond, hthird, sum_neg, sum_pick List.nodup_range
    (fun d' => (on f (demandArc demands d') : ℤ)) (List.mem_range.mpr hd)] at hbalance
  simp only [List.map_const', List.sum_replicate, smul_zero, add_zero] at hbalance
  exact (neg_add_eq_zero.mp hbalance).symm

/-- Every pair carries at most one unit, since its worker does. -/
theorem on_linkArc_le (hv : Valid demands candidates model) {k : ℤ}
    (h : Carries (arcs demands candidates model) f 0 model.sink k) {p : Assignment}
    (hp : p ∈ candidates.map Candidate.assignment) :
    on f (linkArc demands candidates model p) ≤ 1 := by
  have hworker := (hv.pair hp).2
  have hone : on f (workerArc demands model p.workerId) ≤ 1 :=
    h.capacity _ (mem_arcs.mpr (.inr (.inr ⟨_, hworker, rfl⟩)))
  have hsum := worker_balance hv h hworker
  have hsingle := List.single_le_sum (l := (candidates.map Candidate.assignment).map fun q =>
      (on f (linkArc demands candidates model q) : ℤ) * if q.workerId = p.workerId then 1 else 0)
    (by
      intro x hx
      obtain ⟨q, -, rfl⟩ := List.mem_map.mp hx
      split_ifs <;> simp) _ (List.mem_map_of_mem hp)
  rw [hsum, if_pos rfl, mul_one] at hsingle
  have hle : (on f (linkArc demands candidates model p) : ℤ) ≤ 1 :=
    hsingle.trans (by exact_mod_cast hone)
  exact_mod_cast hle

/-- **The flow is the plan of the chosen pairs.** -/
theorem on_plan_chosen (hv : Valid demands candidates model) {k : ℤ}
    (h : Carries (arcs demands candidates model) f 0 model.sink k) :
    ∀ a ∈ arcs demands candidates model,
      on (plan demands model (chosen demands candidates model f)) a = on f a := by
  have heligible : ∀ a ∈ chosen demands candidates model f, ∃ c ∈ candidates,
      c.assignment = a := fun a ha => by
    obtain ⟨c, hc, heq⟩ := List.mem_map.mp (List.mem_of_mem_filter ha)
    exact ⟨c, hc, heq⟩
  have hcount : ∀ p : Assignment → Bool,
      (((chosen demands candidates model f).countP p : Nat) : ℤ) =
        ((candidates.map Candidate.assignment).map fun a =>
          (on f (linkArc demands candidates model a) : ℤ) * if p a then 1 else 0).sum :=
    fun p => countP_filter_eq _ (fun a => on f (linkArc demands candidates model a)) p
      fun a ha => on_linkArc_le hv h ha
  intro a ha
  rcases mem_arcs.mp ha with ⟨d, hd, rfl⟩ | ⟨p, hp, rfl⟩ | ⟨id, hid, rfl⟩
  · rw [on_demandArc]
    have := hcount fun a => a.demandIndex = d
    simp only [decide_eq_true_eq] at this
    rw [demand_balance hv h hd] at this
    exact_mod_cast this
  · rw [on_linkArc hv hp]
    have := hcount fun a => a = p
    simp only [decide_eq_true_eq] at this
    rw [sum_pick hv.assignments_nodup
      (fun a => (on f (linkArc demands candidates model a) : ℤ)) hp] at this
    exact_mod_cast this
  · rw [on_workerArc hv heligible]
    have := hcount fun a => a.workerId = id
    simp only [decide_eq_true_eq] at this
    rw [worker_balance hv h hid] at this
    exact_mod_cast this

theorem collect_delivers (hbudget : E .budgetExceeded) (hv : Valid demands candidates model)
    {k : ℤ} (h : Carries (arcs demands candidates model) f 0 model.sink k) (l : List Candidate)
    (P Q : List (Arc Cost)) (found : Collected) (m : ℕ) (hl : ∀ c ∈ l, c ∈ candidates)
    (hgraph : Represents Arc.cost opposite graph
      (P ++ ((l.map Candidate.assignment).map (linkArc demands candidates model) ++ Q)) f)
    (htotal : Within (unit * m) found.total) (hm : m + l.length ≤ 2 ^ 20) :
    Delivers maxWork (collect demands model graph
      (l.zip (places demands candidates model P l)) found) (fun r =>
      let M := (l.map Candidate.assignment).filter fun a =>
        on f (linkArc demands candidates model a) = 1
      r.assignments = found.assignments ++ M ∧
        r.counts = M.foldl (fun counts a => counts.modify a.demandIndex (· + 1)) found.counts ∧
        r.total = found.total + totalCost demands candidates M) E := by
  induction l generalizing P found m with
  | nil => exact .pure (by simp [totalCost])
  | cons c rest ih =>
      have hc := hl c (List.mem_cons_self ..)
      have hp : c.assignment ∈ candidates.map Candidate.assignment := List.mem_map_of_mem hc
      have hone := on_linkArc_le hv h hp
      have hcap : on f (linkArc demands candidates model c.assignment) ≤ model.requested :=
        h.capacity _ (mem_arcs.mpr (.inr (.inl ⟨_, hp, rfl⟩)))
      rw [List.map_cons, List.map_cons, List.cons_append] at hgraph
      have hentry := hgraph.at_split (u := 1 + c.demandIndex)
        (e := ⟨node demands model c.workerId, degree P (node demands model c.workerId),
          model.requested - on f (linkArc demands candidates model c.assignment),
          value demands candidates c.assignment⟩) (by
          rw [copyAt, if_pos]
          · rfl
          · rfl)
      have hnext : Represents Arc.cost opposite graph
          ((P ++ [linkArc demands candidates model c.assignment]) ++
            ((rest.map Candidate.assignment).map (linkArc demands candidates model) ++ Q)) f := by
        rw [List.append_assoc]
        exact hgraph
      refine .bind (charge_delivers hbudget (by norm_num)) fun _ _ => ?_
      rw [hentry]
      dsimp only
      refine .bind (.rejectIf fun hbad => by omega) fun _ _ => ?_
      refine .bind (.rejectIf fun hbad => by omega) fun _ _ => ?_
      have hflow : model.requested - (model.requested -
          on f (linkArc demands candidates model c.assignment)) =
          on f (linkArc demands candidates model c.assignment) := by omega
      rw [hflow]
      rw [List.length_cons] at hm
      refine .ite (fun htaken => ?_) fun htaken => ?_
      · have hsum := htotal.add (within_cost demands c)
        have hunit : unit * m + unit = unit * ((m + 1 : ℕ) : ℤ) := by
          push_cast
          ring
        rw [hunit] at hsum
        refine .bind (checked_delivers fun hbad => absurd (hsum.inRange ?_) hbad)
          fun total htotal' => ?_
        · unfold unit
          omega
        · subst htotal'
          refine (ih _ _ (m + 1) (fun d hd => hl d (List.mem_cons_of_mem _ hd)) hnext hsum
            (by omega)).conseq ?_ fun _ he => he
          rintro r ⟨hassigned, hcounts, htotals⟩
          rw [List.map_cons, List.filter_cons, if_pos (by simpa using htaken)]
          refine ⟨?_, hcounts, ?_⟩
          · rw [hassigned, List.append_assoc]
            rfl
          · rw [htotals, add_assoc, ← hv.value_eq hc]
            rfl
      · refine (ih _ _ m (fun d hd => hl d (List.mem_cons_of_mem _ hd)) hnext htotal
          (by omega)).conseq ?_ fun _ he => he
        intro r hr
        rw [List.map_cons, List.filter_cons, if_neg (by simpa using htaken)]
        exact hr

/-! ## The certificate -/

/-- Pairs in order, with different workers, are what the checker accepts. -/
theorem accepted_of_sorted (M : List Assignment) (previous : Option Assignment)
    (used : List (U 64)) (hM : ∀ a ∈ M, a.demandIndex < demands.length ∧ a.workerId ∉ used ∧
      (∀ p ∈ previous, p.key < a.key) ∧ ∃ c ∈ candidates, c.assignment = a)
    (hsorted : M.Pairwise fun a b => a.key < b.key)
    (honce : (M.map Assignment.workerId).Nodup) :
    Accepted demands candidates previous used M := by
  induction M generalizing previous used with
  | nil => trivial
  | cons a rest ih =>
      obtain ⟨hindex, hused, hafter, hc⟩ := hM a (List.mem_cons_self ..)
      rw [List.pairwise_cons] at hsorted
      rw [List.map_cons, List.nodup_cons] at honce
      refine ⟨⟨hindex, hafter, hused, hc⟩, ih _ _ (fun b hb => ?_) hsorted.2 honce.2⟩
      obtain ⟨hindex', hused', -, hc'⟩ := hM b (List.mem_cons_of_mem _ hb)
      refine ⟨hindex', ?_, ?_, hc'⟩
      · rw [List.mem_append, List.mem_singleton, not_or]
        exact ⟨hused', fun heq => honce.1 (heq ▸ List.mem_map_of_mem hb)⟩
      · intro p hp
        rw [Option.mem_some_iff] at hp
        exact hp ▸ hsorted.1 b hb

theorem chosen_accepted (hv : Valid demands candidates model) {k : ℤ}
    (h : Carries (arcs demands candidates model) f 0 model.sink k) :
    Accepted demands candidates none [] (chosen demands candidates model f) := by
  have hmem : ∀ a ∈ chosen demands candidates model f, ∃ c ∈ candidates, c.assignment = a :=
    fun a ha => by
      obtain ⟨c, hc, heq⟩ := List.mem_map.mp (List.mem_of_mem_filter ha)
      exact ⟨c, hc, heq⟩
  refine accepted_of_sorted _ _ _ (fun a ha => ?_) ?_ ?_
  · obtain ⟨c, hc, rfl⟩ := hmem a ha
    exact ⟨hv.eligible.index c hc, by simp, by simp, c, hc, rfl⟩
  · exact List.Pairwise.filter _ (List.pairwise_map.mpr hv.eligible.sorted.2)
  · rw [List.nodup_iff_count_le_one]
    intro id
    rw [List.count, List.countP_map]
    by_cases hid : id ∈ model.workers
    · have hon := on_plan_chosen hv h _ (mem_arcs.mpr (.inr (.inr ⟨id, hid, rfl⟩)))
      have hcap := h.capacity _ (mem_arcs.mpr (.inr (.inr ⟨id, hid, rfl⟩)))
      rw [on_workerArc hv hmem] at hon
      rw [← hon] at hcap
      refine le_trans (le_of_eq (List.countP_congr fun a _ => ?_)) hcap
      simp
    · rw [List.countP_eq_zero.mpr fun a ha => ?_]
      · exact Nat.zero_le _
      · obtain ⟨c, hc, rfl⟩ := hmem a ha
        have hne : ¬ c.assignment.workerId = id := fun heq =>
          hid (heq ▸ (hv.workers _).mpr ⟨c, hc, rfl⟩)
        simpa using hne

theorem chosen_feasible (hv : Valid demands candidates model) {k : ℤ}
    (h : Carries (arcs demands candidates model) f 0 model.sink k) :
    Feasible demands candidates (chosen demands candidates model f) where
  eligible := fun a ha => ((chosen_accepted hv h).mem a ha).2.2
  once := (chosen_accepted hv h).once
  slots := by
    intro d
    by_cases hd : d < demands.length
    · have hon := on_plan_chosen hv h _ (mem_arcs.mpr (.inl ⟨d, hd, rfl⟩))
      have hcap := h.capacity _ (mem_arcs.mpr (.inl ⟨d, hd, rfl⟩))
      rw [on_demandArc] at hon
      rw [← hon] at hcap
      exact hcap
    · rw [List.countP_eq_zero.mpr fun a ha => ?_]
      · exact Nat.zero_le _
      · have := ((chosen_accepted hv h).mem a ha).1
        simp only [decide_eq_true_eq]
        omega

/-- There are as many chosen pairs as the flow has units. -/
theorem length_chosen (hv : Valid demands candidates model) {k : ℤ}
    (h : Carries (arcs demands candidates model) f 0 model.sink k) :
    ((chosen demands candidates model f).length : ℤ) = k := by
  have hplan := (plan_carries hv (chosen_feasible hv h)).conserved 0
  have hflow := h.conserved 0
  have hnet : net (arcs demands candidates model)
      (plan demands model (chosen demands candidates model f)) 0 =
        net (arcs demands candidates model) f 0 := by
    unfold net
    congr 1
    exact List.map_congr_left fun a ha => by rw [on_plan_chosen hv h a ha]
  have hsink : model.sink ≠ 0 := by
    have := hv.sink
    omega
  rw [hnet, hflow, excess, excess, point_ne hsink, point, if_pos rfl] at hplan
  simpa using hplan.symm

/-- Where the source side ends: a worker is on it exactly when some demand there could use it. -/
theorem Ended.eligible_iff (hv : Valid demands candidates model)
    (h : Ended (arcs demands candidates model) model out f)
    (hshort : out.assigned < model.requested) {id : U 64} :
    (eligibleWorkers out.sourceSide candidates OMap.nil).contains id ↔
      id ∈ model.workers ∧ out.sourceSide.getD (node demands model id) false := by
  rw [contains_eligibleWorkers]
  constructor
  · rintro (hnil | ⟨c, hc, rfl, hside⟩)
    · simp [OMap.contains, OMap.get?] at hnil
    · have hworker : c.workerId ∈ model.workers := (hv.workers _).mpr ⟨c, hc, rfl⟩
      refine ⟨hworker, ?_⟩
      -- An arc of a pair is too wide to be full, so the cut does not cross it.
      have hp := List.mem_map_of_mem (f := Candidate.assignment) hc
      have harc : linkArc demands candidates model c.assignment ∈ arcs demands candidates model :=
        mem_arcs.mpr (.inr (.inl ⟨_, hp, rfl⟩))
      refine (h.closed _ harc).1 ?_ hside
      have hone := on_linkArc_le hv h.carries hp
      have hpositive : on f (linkArc demands candidates model c.assignment) ≤ out.assigned := by
        have hlength := length_chosen hv h.carries
        by_cases hzero : on f (linkArc demands candidates model c.assignment) = 0
        · omega
        · have hmem : c.assignment ∈ chosen demands candidates model f := by
            unfold chosen
            rw [List.mem_filter]
            refine ⟨hp, ?_⟩
            simp only [decide_eq_true_eq]
            omega
          have := List.length_pos_of_mem hmem
          omega
      show _ < model.requested
      omega
  · rintro ⟨hid, hside⟩
    right
    have hnode := hv.node_lt hid
    obtain ⟨u, hu, harc⟩ := h.reached _ hside (by omega)
    rcases harc with ⟨a, ha, htail, hhead, -⟩ | ⟨a, ha, hhead, htail, -⟩
    · rcases mem_arcs.mp ha with ⟨d, hd, rfl⟩ | ⟨p, hp, rfl⟩ | ⟨id', hid', rfl⟩
      · simp only [demandArc] at hhead
        omega
      · obtain ⟨c, hc, rfl⟩ := List.mem_map.mp hp
        refine ⟨c, hc, hv.node_injective hid hhead, ?_⟩
        have : 1 + c.demandIndex = u := htail
        rw [this]
        exact hu
      · simp only [workerArc] at hhead
        omega
    · rcases mem_arcs.mp ha with ⟨d, hd, rfl⟩ | ⟨p, hp, rfl⟩ | ⟨id', hid', rfl⟩
      · simp only [demandArc] at htail
        omega
      · have hpair := hv.pair hp
        simp only [linkArc] at htail
        omega
      · have : model.sink = u := hhead
        rw [← this, h.stop] at hu
        cases hu

theorem sum_filter_add {α : Type} (l : List α) (amount : α → Nat) (p : α → Bool) :
    (l.map amount).sum = ((l.filter p).map amount).sum +
      (l.map fun a => if p a then 0 else amount a).sum := by
  induction l with
  | nil => rfl
  | cons a l ih =>
      rw [List.map_cons, List.sum_cons, ih, List.filter_cons]
      cases hp : p a
      · simp [hp]
        omega
      · simp [hp]
        omega

/-- **The source side accounts for the missing slots.** -/
theorem Ended.reports (hv : Valid demands candidates model)
    (h : Ended (arcs demands candidates model) model out f) :
    ∃ s, Reports demands candidates model out.sourceSide out.assigned s := by
  unfold Reports
  by_cases hfull : out.assigned = model.requested
  · exact ⟨none, by rw [if_pos hfull]⟩
  · have hshort : out.assigned < model.requested := lt_of_le_of_ne h.le hfull
    refine ⟨some (shortageOf demands candidates out.sourceSide), ?_⟩
    rw [if_neg hfull]
    refine ⟨rfl, ?_⟩
    have hcut := h.carries.eq_cut (fun v => out.sourceSide.getD v false) h.start h.stop h.closed
    rw [cut_arcs] at hcut
    -- No pair's arc crosses the cut, as one alone would be worth all slots.
    have hlinks : ((candidates.map Candidate.assignment).map fun p =>
        if out.sourceSide.getD (1 + p.demandIndex) false &&
          !out.sourceSide.getD (node demands model p.workerId) false then model.requested
        else 0) = (candidates.map Candidate.assignment).map fun _ => 0 := by
      refine List.map_congr_left fun p hp => ?_
      rw [if_neg]
      intro hcross
      rw [Bool.and_eq_true, Bool.not_eq_true'] at hcross
      obtain ⟨c, hc, rfl⟩ := List.mem_map.mp hp
      have hside := ((@Ended.eligible_iff _ _ _ _ _ hv h hshort c.workerId).mp (by
        rw [contains_eligibleWorkers]
        exact .inr ⟨c, hc, rfl, hcross.1⟩)).2
      have hcross' := hcross.2
      simp only [Candidate.assignment] at hcross'
      rw [hcross'] at hside
      cases hside
    have hdemands : ((List.range demands.length).map fun d =>
        if out.sourceSide.getD 0 false && !out.sourceSide.getD (1 + d) false then slots demands d
        else 0) = (List.range demands.length).map fun d =>
        if out.sourceSide.getD (1 + d) false then 0 else slots demands d := by
      refine List.map_congr_left fun d _ => ?_
      rw [h.start]
      cases out.sourceSide.getD (1 + d) false <;> simp
    have hworkers : (model.workers.map fun id =>
        if out.sourceSide.getD (node demands model id) false &&
          !out.sourceSide.getD model.sink false then 1 else 0).sum =
        (eligibleWorkers out.sourceSide candidates OMap.nil).size := by
      have hcount : (model.workers.map fun id =>
          if out.sourceSide.getD (node demands model id) false &&
            !out.sourceSide.getD model.sink false then 1 else 0).sum =
          (model.workers.filter fun id =>
            out.sourceSide.getD (node demands model id) false).length := by
        rw [h.stop, ← List.countP_eq_length_filter]
        generalize model.workers = l
        induction l with
        | nil => rfl
        | cons id l ih =>
            rw [List.map_cons, List.sum_cons, ih, List.countP_cons]
            cases out.sourceSide.getD (node demands model id) false <;> simp [Nat.add_comm]
      rw [hcount, ← OMap.length_keys]
      refine List.Perm.length_eq ((List.perm_ext_iff_of_nodup (hv.nodup.filter _)
        (OMap.keys_nodup _)).mpr fun id => ?_)
      rw [List.mem_filter, OMap.mem_keys_iff, h.eligible_iff hv hshort]
    rw [hlinks, hdemands, hworkers] at hcut
    simp only [List.map_const', List.sum_replicate, smul_zero, zero_add] at hcut
    have htotal := sum_filter_add (List.range demands.length) (slots demands)
      fun d => out.sourceSide.getD (1 + d) false
    rw [sum_slots, ← hv.requested] at htotal
    simp only [shortageOf, demandsOnSource]
    omega

/-- The certificate read off the flow. -/
def certificate (demands : List Demand) (candidates : List Candidate) (model : Model)
    (out : Filled) (f : Nat → Nat → Nat) (shortage : Option Shortage) : Allocation where
  assignments := chosen demands candidates model f
  allocatedByDemand := (List.range demands.length).map fun d =>
    (chosen demands candidates model f).countP fun a => a.demandIndex = d
  requestedWorkers := model.requested
  assignedWorkers := out.assigned
  cutCapacity := out.assigned
  cost := totalCost demands candidates (chosen demands candidates model f)
  shortage := shortage
  witness := ⟨(List.range (model.sink + 1)).map out.potentials, out.sourceSide⟩
  workUnits := 0

theorem potential_certificate {shortage : Option Shortage} {v : Nat} (hv : v < model.sink + 1) :
    (certificate demands candidates model out f shortage).witness.potential v =
      out.potentials v := by
  rw [Witness.potential, certificate, List.getD_eq_getElem?_getD, List.getElem?_map,
    List.getElem?_range hv]
  rfl

theorem Ended.checked (hv : Valid demands candidates model)
    (h : Ended (arcs demands candidates model) model out f) {shortage : Option Shortage}
    (hshortage : Reports demands candidates model out.sourceSide out.assigned shortage) :
    Checked demands candidates (certificate demands candidates model out f shortage) model where
  shape := by
    have hlength := length_chosen hv h.carries
    have hle := h.le
    simp only [misshapen, not_or, not_not, not_lt, certificate, Witness.onSource, List.length_map,
      List.length_range, h.length, h.start, h.stop]
    refine ⟨by omega, trivial, by omega, trivial, trivial, trivial, trivial, trivial, by simp⟩
  accepted := chosen_accepted hv h.carries
  counts := rfl
  total := rfl
  fine := by
    intro a ha
    have hbounds := (arcs_solvable hv).bounds a ha
    have hreduced : reduced (certificate demands candidates model out f shortage).witness.potential
        a = reduced out.potentials a := by
      rw [reduced, reduced, potential_certificate hbounds.1, potential_certificate hbounds.2]
    have hon : on (plan demands model
        (certificate demands candidates model out f shortage).assignments) a = on f a :=
      on_plan_chosen hv h.carries a ha
    rw [Fine, hon, hreduced]
    exact ⟨h.carries.capacity a ha,
      fun hroom => ⟨(h.slack a ha).1 hroom, (h.closed a ha).1 hroom⟩,
      fun hused => ⟨(h.slack a ha).2 hused, (h.closed a ha).2 hused⟩⟩
  cut := by
    have hcut := h.carries.eq_cut (fun v => out.sourceSide.getD v false) h.start h.stop h.closed
    exact_mod_cast hcut.symm
  reports := hshortage

theorem within_totalCost (hv : Valid demands candidates model) (M : List Assignment)
    (hM : ∀ a ∈ M, a ∈ candidates.map Candidate.assignment) :
    Within (unit * M.length) (totalCost demands candidates M) := by
  induction M with
  | nil => exact .zero (by simp)
  | cons a rest ih =>
      obtain ⟨c, hc, heq⟩ := List.mem_map.mp (hM a (List.mem_cons_self ..))
      have hvalue : Within unit (value demands candidates a) := by
        rw [← heq, hv.value_eq hc]
        exact within_cost demands c
      have hsum := hvalue.add (ih fun b hb => hM b (List.mem_cons_of_mem _ hb))
      have hunit : unit + unit * (rest.length : ℤ) = unit * ((a :: rest).length : ℤ) := by
        rw [List.length_cons]
        push_cast
        ring
      rw [hunit] at hsum
      exact hsum

theorem Ended.inRange (hv : Valid demands candidates model)
    (h : Ended (arcs demands candidates model) model out f) {shortage : Option Shortage} :
    InRange demands candidates (certificate demands candidates model out f shortage) model where
  totals := by
    intro n
    have hlength := length_chosen hv h.carries
    have hle := h.le
    have hbounded := hv.bounded
    unfold maxSlots at hbounded
    refine (within_totalCost hv _ fun a ha =>
      List.mem_of_mem_filter (List.mem_of_mem_take ha)).inRange ?_
    have htake : ((chosen demands candidates model f).take n).length ≤ 128 := by
      have := List.length_take_le' n (chosen demands candidates model f)
      omega
    unfold unit
    show 2 ^ 32 * (((chosen demands candidates model f).take n).length : ℤ) < 2 ^ 63
    omega
  tame := by
    intro a ha c hc
    have hbounds := (arcs_solvable hv).bounds a ha
    have hcost := (arcs_solvable hv).cost a ha
    have htail := h.potential a.tail
    have hhead := h.potential a.head
    rw [potential_certificate hbounds.1, potential_certificate hbounds.2] at hc
    simp only [List.mem_cons, List.not_mem_nil, or_false] at hc
    rcases hc with rfl | rfl | rfl | rfl | rfl
    · exact (hcost.add htail).inRange (by unfold unit; omega)
    · exact ((hcost.add htail).sub hhead).inRange (by unfold unit; omega)
    · exact ((Within.zero le_rfl).sub hcost).inRange (by unfold unit; omega)
    · exact (((Within.zero le_rfl).sub hcost).add hhead).inRange (by unfold unit; omega)
    · exact ((((Within.zero le_rfl).sub hcost).add hhead).sub htail).inRange
        (by unfold unit; omega)
  cut := by
    have hcut := h.carries.eq_cut (fun v => out.sourceSide.getD v false) h.start h.stop h.closed
    have hle := h.le
    have hbounded := hv.bounded
    unfold maxSlots at hbounded
    show Flow.cut _ (fun v => out.sourceSide.getD v false) < 2 ^ 32
    omega

/-- **What the solver proposes passes every check, and its sums stay in range.** -/
theorem propose_delivers (hbudget : E .budgetExceeded)
    (hinvalid : ¬ (GoodDemands none demands ∧ GoodCandidates demands.length none candidates) →
      E .invalidInput) :
    Delivers maxWork (propose demands candidates) (fun out => ∃ model,
      Valid demands candidates model ∧ Checked demands candidates out model ∧
        InRange demands candidates out model) E := by
  refine .bind (validate_delivers hbudget hinvalid) fun model hv => ?_
  have hA := arcs_solvable hv
  refine .bind (build_delivers hbudget hv) fun net hnet => ?_
  obtain ⟨⟨S, hsolving⟩, hlinks⟩ := hnet
  refine .bind (fill_delivers hbudget hA _ _ _ 0 still S hsolving rfl) fun filled hfilled => ?_
  obtain ⟨f, hended⟩ := hfilled
  rw [hlinks]
  have hgraph := hended.represents
  rw [arcs] at hgraph
  refine .bind (collect_delivers hbudget hv hended.carries candidates _ _ _ 0 (fun c hc => hc)
    hgraph (.zero (by simp)) ?_) fun found hfound => ?_
  · have := hv.many
    unfold maxDemands maxWorkers at this
    omega
  refine .bind (deficiency_delivers hbudget hv _ _ fun hbad => absurd (hended.reports hv) hbad)
    fun shortage hshortage => ?_
  refine .pure ⟨model, hv, ?_⟩
  have hcertificate : ({ assignments := found.assignments
                         allocatedByDemand := found.counts
                         requestedWorkers := model.requested
                         assignedWorkers := filled.assigned
                         cutCapacity := filled.assigned
                         cost := found.total
                         shortage := shortage
                         witness := ⟨(List.range (model.sink + 1)).map filled.potentials,
                           filled.sourceSide⟩
                         workUnits := 0 } : Allocation) =
      certificate demands candidates model filled f shortage := by
    obtain ⟨hassigned, hcounts, htotal⟩ := hfound
    rw [hassigned, hcounts, htotal, foldl_counts]
    simp only [List.nil_append, zero_add]
    rfl
  rw [hcertificate]
  exact ⟨hended.checked hv hshortage, hended.inRange hv⟩

end Reading

/-! ## Checking again -/

section Frugality

variable {demands : List Demand} {candidates : List Candidate}

theorem charge_frugal (n : Nat) : Frugal (charge n) := Frugal.charge _ _ n

theorem validateDemands_frugal (previous : Option Demand) (l : List Demand) (requested : Nat) :
    Frugal (validateDemands previous l requested) := by
  induction l generalizing previous requested with
  | nil => exact .pure _
  | cons d rest ih =>
      exact (charge_frugal 1).bind fun _ => (Frugal.rejectIf _ _).bind fun _ =>
        (Frugal.rejectIf _ _).bind fun _ => ih _ _

theorem validateCandidates_frugal (n : Nat) (previous : Option Candidate) (l : List Candidate)
    (workers : BTreeMap (U 64) Unit) : Frugal (validateCandidates n previous l workers) := by
  induction l generalizing previous workers with
  | nil => exact .pure _
  | cons c rest ih =>
      exact (charge_frugal 1).bind fun _ => (Frugal.rejectIf _ _).bind fun _ =>
        (Frugal.rejectIf _ _).bind fun _ => ih _ _

theorem validate_frugal : Frugal (validate demands candidates) :=
  (Frugal.rejectIf _ _).bind fun _ => (validateDemands_frugal _ _ _).bind fun _ =>
    (Frugal.rejectIf _ _).bind fun _ => (validateCandidates_frugal _ _ _ _).bind fun _ => .pure _

theorem tally_frugal (previous : Option Assignment) (M : List Assignment) (seen : Tally) :
    Frugal (tally demands candidates previous M seen) := by
  induction M generalizing previous seen with
  | nil => exact .pure _
  | cons a rest ih =>
      refine (charge_frugal 1).bind fun _ => (Frugal.rejectIf _ _).bind fun _ => ?_
      cases candidates.find? fun c => c.assignment = a with
      | none => exact .fails _
      | some c => exact (Frugal.of _).bind fun _ => ih _ _

theorem check_frugal (w : Witness) (cut : Nat) (a : Arc Cost) (flow : Nat) :
    Frugal (w.check cut a flow) :=
  (charge_frugal 1).bind fun _ => (Frugal.rejectIf _ _).bind fun _ =>
    (Frugal.rejectIf _ _).bind fun _ =>
      (Frugal.whenever _ ((Frugal.of _).bind fun _ => (Frugal.of _).bind fun _ =>
        Frugal.rejectIf _ _)).bind fun _ =>
      (Frugal.whenever _ ((Frugal.of _).bind fun _ => (Frugal.of _).bind fun _ =>
        (Frugal.of _).bind fun _ => Frugal.rejectIf _ _)).bind fun _ => .pure _

theorem checkDemands_frugal (w : Witness) (counts : List Nat) (n : Nat) (l : List Demand)
    (cut : Nat) : Frugal (checkDemands w counts n l cut) := by
  induction l generalizing n cut with
  | nil => exact .pure _
  | cons d rest ih => exact (check_frugal _ _ _ _).bind fun _ => ih _ _

theorem checkCandidates_frugal (w : Witness) (model : Model) (selected : List Assignment)
    (l : List Candidate) (cut : Nat) :
    Frugal (checkCandidates w demands model selected l cut) := by
  induction l generalizing cut with
  | nil => exact .pure _
  | cons c rest ih =>
      exact (Frugal.of _).bind fun _ => (check_frugal _ _ _ _).bind fun _ => ih _

theorem checkWorkers_frugal (w : Witness) (start sink : Nat) (assigned : List (U 64)) (n : Nat)
    (l : List (U 64)) (cut : Nat) : Frugal (checkWorkers w start sink assigned n l cut) := by
  induction l generalizing n cut with
  | nil => exact .pure _
  | cons id rest ih => exact (check_frugal _ _ _ _).bind fun _ => ih _ _

theorem reachedDemands_frugal (sourceSide : List Bool) (n : Nat) (l : List Demand)
    (out : List Nat × Nat) : Frugal (reachedDemands sourceSide n l out) := by
  induction l generalizing n out with
  | nil => exact .pure _
  | cons d rest ih => exact (charge_frugal 1).bind fun _ => ih _ _

theorem neighbors_frugal (sourceSide : List Bool) (l : List Candidate)
    (out : BTreeMap (U 64) Unit) : Frugal (neighbors sourceSide l out) := by
  induction l generalizing out with
  | nil => exact .pure _
  | cons c rest ih => exact (charge_frugal 1).bind fun _ => ih _

theorem deficiency_frugal (model : Model) (sourceSide : List Bool) (assigned : Nat) :
    Frugal (deficiency demands candidates model sourceSide assigned) :=
  .ite (.pure _) ((reachedDemands_frugal _ _ _ _).bind fun _ =>
    (neighbors_frugal _ _ _).bind fun _ => (Frugal.rejectIf _ _).bind fun _ =>
      (Frugal.rejectIf _ _).bind fun _ => (Frugal.rejectIf _ _).bind fun _ => .pure _)

/-- Checking costs the same whatever was spent before. -/
theorem verifyInner_frugal (out : Allocation) : Frugal (verifyInner demands candidates out) :=
  validate_frugal.bind fun _ => (Frugal.rejectIf _ _).bind fun _ =>
    (tally_frugal _ _ _).bind fun _ => (Frugal.rejectIf _ _).bind fun _ =>
      (checkDemands_frugal _ _ _ _ _).bind fun _ => (checkCandidates_frugal _ _ _ _ _).bind fun _ =>
        (checkWorkers_frugal _ _ _ _ _ _ _).bind fun _ => (Frugal.rejectIf _ _).bind fun _ =>
          (deficiency_frugal _ _ _).bind fun _ => Frugal.rejectIf _ _

end Frugality

/-! ## The allocation -/

/-- The input is in the documented form: demands and candidates in order, within their limits. -/
def ValidInput (demands : List Demand) (candidates : List Candidate) : Prop :=
  GoodDemands none demands ∧ GoodCandidates demands.length none candidates

theorem allocate_eq {demands : List Demand} {candidates : List Candidate} {budget : Nat}
    {work : Work} (h : Work.new budget = .ok work) :
    allocate demands candidates budget = match exec (solve demands candidates) work with
      | (.ok out, work) => .ok { out with workUnits := work.used }
      | (.error e, _) => .error e := by
  rw [allocate, h]
  rfl

theorem verify_eq {demands : List Demand} {candidates : List Candidate} {out : Allocation}
    {budget : Nat} {work : Work} (h : Work.new budget = .ok work) :
    verify demands candidates out budget =
      match exec (verifyInner demands candidates out) work with
      | (.ok _, work) => .ok work.used
      | (.error e, _) => .error e := by
  rw [verify, h]
  rfl

end Dfmcp.WorkforceAllocation
