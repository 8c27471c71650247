import Dfmcp.World.WorkforceAllocationProof

/-!
# The workforce solver always certifies its result

`allocate` runs the checker on its own result, so what it returns is optimal by the soundness of
the checker. What is left is that the checker never refuses it, that the solver never finds its own
network inconsistent, and that no cost leaves the range of `i64`.

The solver keeps a flow, and potentials under which no residual arc is negative (`Solving`). A
search labels what can be reached; raising the potentials by the labels, and by the greatest label
where there is none, keeps every residual arc nonnegative and makes the arcs of the search tree
tight, so a unit pushed along them changes nothing. What could be reached shrinks from round to
round, which is why the potentials stay small: on reached nodes they are costs of paths.

* `search_delivers` — the search settles everything within its bound;
* `fill_delivers` — the rounds end with a flow that no path leaves;
* `allocate_correct` — **a returned allocation is optimal and passes the checker, and on valid
  input the only failure is an exceeded budget**.
-/

namespace Dfmcp.WorkforceAllocation

open Machine Flow Method

/-! ## Sizes of costs -/

/-- Every component is at most `b` in absolute value. -/
def Within (b : ℤ) (c : Cost) : Prop := ∀ z ∈ c.parts, |z| ≤ b

namespace Within

variable {a b : ℤ} {c d : Cost}

theorem iff_components : Within b c ↔ |(ofLex c).1| ≤ b ∧ |(ofLex (ofLex c).2).1| ≤ b ∧
    |(ofLex (ofLex (ofLex c).2).2).1| ≤ b ∧ |(ofLex (ofLex (ofLex c).2).2).2| ≤ b := by
  simp [Within, Cost.parts]

theorem mono (h : Within a c) (hle : a ≤ b) : Within b c := fun z hz => (h z hz).trans hle

theorem zero (hb : 0 ≤ b) : Within b 0 := by
  rw [iff_components]
  exact ⟨by simpa using hb, by simpa using hb, by simpa using hb, by simpa using hb⟩

theorem add (hc : Within a c) (hd : Within b d) : Within (a + b) (c + d) := by
  rw [iff_components] at hc hd ⊢
  obtain ⟨h1, h2, h3, h4⟩ := hc
  obtain ⟨k1, k2, k3, k4⟩ := hd
  exact ⟨(abs_add_le _ _).trans (add_le_add h1 k1), (abs_add_le _ _).trans (add_le_add h2 k2),
    (abs_add_le _ _).trans (add_le_add h3 k3), (abs_add_le _ _).trans (add_le_add h4 k4)⟩

theorem neg (hc : Within a c) : Within a (-c) := by
  rw [iff_components] at hc ⊢
  obtain ⟨h1, h2, h3, h4⟩ := hc
  exact ⟨(abs_neg _).trans_le h1, (abs_neg _).trans_le h2, (abs_neg _).trans_le h3,
    (abs_neg _).trans_le h4⟩

theorem sub (hc : Within a c) (hd : Within b d) : Within (a + b) (c - d) := by
  rw [sub_eq_add_neg]
  exact hc.add hd.neg

theorem inRange (h : Within b c) (hb : b < 2 ^ 63) : c.parts.all Cost.inRange := by
  rw [List.all_eq_true]
  intro z hz
  have := abs_le.mp (h z hz)
  simp only [Cost.inRange, Bool.and_eq_true, decide_eq_true_eq]
  omega

end Within

/-- A bound on the costs of arcs. -/
def unit : ℤ := 2 ^ 32

theorem within_cost (demands : List Demand) (c : Candidate) : Within unit (cost demands c) := by
  have hpriority : |(-priority demands c.demandIndex : ℤ)| ≤ unit := by
    rw [abs_neg, priority]
    cases demands[c.demandIndex]? with
    | none => simp [unit]
    | some d =>
        have := d.priority.isLt
        simp only [Option.elim_some, unit, abs_le]
        omega
  have heffective := c.effective.property
  have hnominal := c.nominal.property
  have hsteps := c.steps.isLt
  rw [Within.iff_components]
  refine ⟨hpriority, ?_, ?_, ?_⟩
  · show |(-c.effective.val : ℤ)| ≤ unit
    rw [abs_neg, unit, abs_le]
    omega
  · show |(-c.nominal.val : ℤ)| ≤ unit
    rw [abs_neg, unit, abs_le]
    omega
  · show |((c.steps.val : ℕ) : ℤ)| ≤ unit
    rw [unit, abs_le]
    omega

/-! ## The search -/

/-- The other copy of an arc has the opposite cost. -/
def opposite (a : Arc Cost) : Cost := 0 - a.cost

/-- The arcs a search can use, and what they cost under the potentials. -/
def usable (graph : Graph Cost) (π : Nat → Cost) (u i : Nat) : Option (Nat × Cost) :=
  match (graph.edges u)[i]? with
  | none => none
  | some e => if e.remaining = 0 then none else some (e.target, e.mark + π u - π e.target)

section Searching

variable {E : Error → Prop} {graph : Graph Cost} {π : Nat → Cost} {A : List (Arc Cost)}
  {f : Nat → Nat → Nat} {n : Nat} {far : ℤ}

theorem usable_some {u i v : Nat} {c : Cost} (h : usable graph π u i = some (v, c)) :
    ∃ e, (graph.edges u)[i]? = some e ∧ 0 < e.remaining ∧ e.target = v ∧
      c = e.mark + π u - π v := by
  unfold usable at h
  cases hentry : (graph.edges u)[i]? with
  | none =>
      rw [hentry] at h
      cases h
  | some e =>
      rw [hentry] at h
      dsimp only at h
      split_ifs at h with hzero
      rw [Option.some.injEq, Prod.mk.injEq] at h
      exact ⟨e, rfl, Nat.pos_of_ne_zero hzero, h.1, by rw [← h.1, ← h.2]⟩

/-- What the search relies on: arcs in bounds, no negative residual arc, and small numbers. -/
structure Searchable (graph : Graph Cost) (π : Nat → Cost) (far : ℤ) : Prop where
  target : ∀ u i v c, usable graph π u i = some (v, c) → v < graph.size ∧ 0 ≤ c
  mark : ∀ (u i : Nat) (e : Edge Cost), (graph.edges u)[i]? = some e → Within unit e.mark
  source : π 0 = 0
  potential : ∀ v, Within far (π v)
  size : 0 < graph.size ∧ graph.size ≤ 2 ^ 13
  small : far ≤ 2 ^ 55

/-- A label and the potential of its node add up to the cost of a path. -/
theorem Searchable.label {labels : Labels Cost} {settled : List Nat} {level : Cost}
    {done : Nat → Nat → Prop} (hs : Searchable graph π far)
    (h : Search (usable graph π) labels settled level done) {v : Nat} {d : Cost}
    (hv : labels.distance v = some d) : Within (settled.idxOf v * unit) (d + π v) := by
  apply h.reach (Φ := fun v d k => Within (k * unit) (d + π v)) _ _ _ hv
  · rw [hs.source, add_zero]
    exact .zero (by simp)
  · intro v d n m hle hn
    refine hn.mono ?_
    have hunit : (0 : ℤ) ≤ unit := by unfold unit; norm_num
    exact mul_le_mul_of_nonneg_right (by exact_mod_cast hle) hunit
  · intro u i v c d k hW _ hd
    obtain ⟨e, hentry, -, -, rfl⟩ := usable_some hW
    have hsum : d + (e.mark + π u - π v) + π v = d + π u + e.mark := by abel
    rw [hsum]
    have := hd.add (hs.mark u i e hentry)
    push_cast
    rwa [add_mul, one_mul]

theorem scan_delivers (hbudget : E .budgetExceeded) (hs : Searchable graph π far) {node : Nat}
    {label : Cost} {settled : List Nat} (hnode : node ∈ settled)
    (hsettled : settled.length ≤ 2 ^ 13) (index : Nat)
    (rest : List (Edge Cost)) (labels : Labels Cost)
    (hrest : ∀ i, (graph.edges node)[index + i]? = rest[i]?)
    (h : Search (usable graph π) labels settled label
      fun x j => x ∈ settled ∧ (x = node → j < index))
    (hlabel : labels.distance node = some label) :
    Delivers maxWork (scan π label node index rest labels) (fun labels =>
      Search (usable graph π) labels settled label fun x _ => x ∈ settled) E := by
  induction rest generalizing index labels with
  | nil =>
      refine .pure (h.restate fun x j hx => ⟨hx, ?_⟩)
      by_cases hbefore : x = node → j < index
      · exact .inl ⟨hx, hbefore⟩
      · right
        simp only [Classical.not_imp, not_lt] at hbefore
        have hnone := hrest (j - index)
        rw [show index + (j - index) = j by omega, ← hbefore.1, List.getElem?_nil] at hnone
        rw [usable, hnone]
  | cons edge rest ih =>
      have hentry : (graph.edges node)[index]? = some edge := by simpa using hrest 0
      have hnext : ∀ i, (graph.edges node)[index + 1 + i]? = rest[i]? := fun i => by
        rw [Nat.add_assoc, Nat.add_comm 1 i, hrest (i + 1)]
        rfl
      have hdone : ∀ x j, (x ∈ settled ∧ (x = node → j < index + 1)) →
          (x ∈ settled ∧ (x = node → j < index)) ∨ (x = node ∧ j = index) := by
        intro x j hx
        by_cases heq : x = node
        · have := hx.2 heq
          by_cases hj : j = index
          · exact .inr ⟨heq, hj⟩
          · exact .inl ⟨hx.1, fun _ => by omega⟩
        · exact .inl ⟨hx.1, fun h => absurd h heq⟩
      refine .bind (charge_delivers hbudget (by norm_num)) fun _ _ => ?_
      refine .ite (fun hzero => ?_) fun hne => ?_
      · have hW : usable graph π node index = none := by
          unfold usable
          rw [hentry]
          simp [hzero]
        exact ih (index + 1) labels hnext (h.skip hnode hW hdone) hlabel
      · have hW : usable graph π node index =
            some (edge.target, edge.mark + π node - π edge.target) := by
          unfold usable
          rw [hentry]
          simp [hne]
        have hc := (hs.target _ _ _ _ hW).2
        -- All sums stay far below the range: the label and the potential make up a path.
        have hmark := hs.mark _ _ _ hentry
        have hpath := hs.label h hlabel
        have hrank : ((settled.idxOf node : ℕ) : ℤ) * unit ≤ 2 ^ 45 := by
          have := List.idxOf_lt_length_iff.mpr hnode
          unfold unit
          omega
        have hfar := hs.small
        refine .bind (checked_delivers fun hbad => absurd ((hmark.add (hs.potential node)).inRange
          (by unfold unit; omega)) hbad) fun sum hsum => ?_
        subst hsum
        refine .bind (checked_delivers fun hbad => absurd (((hmark.add (hs.potential node)).sub
          (hs.potential edge.target)).inRange (by unfold unit; omega)) hbad) fun r hr => ?_
        subst hr
        refine .bind (.rejectIf fun hneg => absurd hc (not_le.mpr hneg)) fun _ _ => ?_
        have hlabelle : Within (2 ^ 45 + far) label := by
          have : label = label + π node - π node := by abel
          rw [this]
          exact (hpath.mono hrank).sub (hs.potential node)
        refine .bind (checked_delivers fun hbad => absurd ((hlabelle.add
          ((hmark.add (hs.potential node)).sub (hs.potential edge.target))).inRange
          (by unfold unit; omega)) hbad) fun next hnext' => ?_
        subst hnext'
        obtain ⟨hoffer, hkept⟩ := h.offer hnode hlabel hW hc hdone
        exact ih (index + 1) _ hnext hoffer hkept

theorem search_delivers (hbudget : E .budgetExceeded) (hs : Searchable graph π far) (bound : Nat)
    (labels : Labels Cost) (settled : List Nat) (level : Cost)
    (h : Search (usable graph π) labels settled level fun x _ => x ∈ settled)
    (hbound : settled.length + bound = graph.size + 1) :
    Delivers maxWork (search graph π bound labels) (fun labels => ∃ settled level,
      Search (usable graph π) labels settled level (fun x _ => x ∈ settled) ∧
        labels.frontier = [] ∧ settled.length ≤ graph.size) E := by
  induction bound generalizing labels settled level with
  | zero =>
      have := h.length_le hs.size.1 fun u i v c hW => (hs.target u i v c hW).1
      omega
  | succ bound ih =>
      have hlength := h.length_le hs.size.1 fun u i v c hW => (hs.target u i v c hW).1
      cases hfront : labels.frontier with
      | nil =>
          rw [search, hfront]
          exact .pure ⟨settled, level, h, hfront, hlength⟩
      | cons least rest =>
          rw [search, hfront]
          refine .bind (charge_delivers hbudget (by norm_num)) fun _ _ => ?_
          have hpop := h.pop (d := (ofLex least).1) (u := (ofLex least).2) hfront
          have hlength' := hpop.length_le hs.size.1 fun u i v c hW => (hs.target u i v c hW).1
          have hleast := (h.waiting (ofLex least).1 (ofLex least).2).mp (by
            rw [hfront]
            exact List.mem_cons_self ..)
          have hfresh : Search (usable graph π) { labels with frontier := rest }
              (settled ++ [(ofLex least).2]) (ofLex least).1
              fun x j => x ∈ settled ++ [(ofLex least).2] ∧ (x = (ofLex least).2 → j < 0) := by
            refine hpop.restate fun x j hx => ⟨hx.1, .inl ?_⟩
            rcases List.mem_append.mp hx.1 with hold | hnew
            · exact hold
            · exact absurd (hx.2 (List.mem_singleton.mp hnew)) (Nat.not_lt_zero j)
          refine .bind (scan_delivers hbudget hs (by simp) (hlength'.trans hs.size.2) 0 _ _
            (fun i => by rw [Nat.zero_add]) hfresh hleast.1) fun labels' hlabels' => ?_
          refine ih labels' _ _ hlabels' ?_
          rw [List.length_append, List.length_singleton]
          omega

/-! ## Raising and augmenting -/

theorem raise_delivers (hbudget : E .budgetExceeded) (distance : Nat → Option Cost)
    (maximum : Cost) (l : List Nat) (π : Nat → Cost) (hl : l.Nodup)
    (hsmall : ∀ v ∈ l, (π v + (distance v).getD maximum).parts.all Cost.inRange) :
    Delivers maxWork (raise distance maximum l π)
      (fun π' => ∀ v, π' v = if v ∈ l then π v + (distance v).getD maximum else π v) E := by
  induction l generalizing π with
  | nil => exact .pure fun v => by simp
  | cons node rest ih =>
      rw [List.nodup_cons] at hl
      refine .bind (charge_delivers hbudget (by norm_num)) fun _ _ => ?_
      refine .bind (checked_delivers fun h => absurd (hsmall node (List.mem_cons_self ..)) h)
        fun value hvalue => ?_
      subst hvalue
      refine (ih _ hl.2 fun v hv => ?_).conseq ?_ fun _ he => he
      · have hne : v ≠ node := fun heq => hl.1 (heq ▸ hv)
        rw [Function.update_of_ne hne]
        exact hsmall v (List.mem_cons_of_mem _ hv)
      · intro π' hπ' v
        rw [hπ' v]
        by_cases hv : v = node
        · subst hv
          rw [if_neg hl.1, if_pos (List.mem_cons_self ..), Function.update_self]
        · simp only [Function.update_of_ne hv, List.mem_cons, hv, false_or]

/-- One unit is moved from the source to a node and on to the sink. -/
theorem augment_delivers (hbudget : E .budgetExceeded) (hsimple : Simple A)
    (hcap : ∀ a ∈ A, a.capacity ≤ maxSlots) {parent : Nat → Option (Nat × Nat)}
    {rank : Nat → Nat} {S : Nat → Bool} {sink : Nat} {k : ℤ} (bound node : Nat)
    (graph : Graph Cost) (f : Nat → Nat → Nat) (hgraph : Represents Arc.cost opposite graph A f)
    (hflow : ∀ a ∈ A, on f a ≤ a.capacity)
    (hnet : ∀ u, net A f u = excess 0 sink k u + excess node sink 1 u)
    (hslack : Slack A f π) (hclosed : Closed A f S)
    (hroute : Route graph parent rank (fun u e => 0 < e.remaining ∧
      e.mark + π u - π e.target = 0 ∧ S u ∧ S e.target) node) (hbound : rank node ≤ bound) :
    Delivers maxWork (augment parent bound node graph) (fun graph' => ∃ f',
      Represents Arc.cost opposite graph' A f' ∧ Carries A f' 0 sink (k + 1) ∧ Slack A f' π ∧
        Closed A f' S ∧ graph'.size = graph.size) E := by
  induction bound generalizing node graph f with
  | zero =>
      cases hroute with
      | source =>
          rw [augment]
          refine .pure ⟨f, hgraph, ⟨hflow, fun u => ?_⟩, hslack, hclosed, rfl⟩
          rw [hnet, excess, excess, excess]
          ring
      | step _ _ _ _ _ hrank => omega
  | succ bound ih =>
      cases hroute with
      | source =>
          unfold augment
          rw [if_pos rfl]
          refine .pure ⟨f, hgraph, ⟨hflow, fun u => ?_⟩, hslack, hclosed, rfl⟩
          rw [hnet, excess, excess, excess]
          ring
      | @step previous _ index edge hnode hparent hentry htarget hok hrank hrest =>
          obtain ⟨hroom, htight, hprevious, hnodeS⟩ := hok
          unfold augment
          rw [if_neg hnode]
          refine .bind (charge_delivers hbudget (by norm_num)) fun _ _ => ?_
          simp only [hparent, hentry]
          refine .bind (.rejectIf fun h => absurd hroom (by omega)) fun _ _ => ?_
          obtain ⟨back, hback, a, ha, hsum⟩ := hgraph.other hsimple.proper hflow hentry
          refine .bind (.rejectIf fun h => ?_) fun _ _ => ?_
          · rw [← htarget, hback, Option.elim_some] at h
            have := hcap a ha
            unfold maxSlots at this
            omega
          obtain ⟨b, f', hpush, hmark, hgraph'⟩ := @Represents.push _ _ _ _ _ _ _ _ _ _ hgraph hsimple hflow hentry 1 hroom
          have hreduced : reduced π b = 0 := by
            rcases hmark with ⟨htail, hhead, heq⟩ | ⟨hhead, htail, heq⟩
            · rw [reduced, htail, hhead, ← heq]
              exact htight
            · rw [heq, opposite] at htight
              rw [reduced, htail, hhead]
              have : b.cost + π edge.target - π previous =
                  -(0 - b.cost + π previous - π edge.target) := by abel
              rw [this, htight, neg_zero]
          rw [htarget] at hpush hgraph' hnodeS
          refine (ih previous _ f' hgraph' (hpush.capacity hsimple hflow) (fun u => ?_)
            (hpush.slack hsimple hslack hreduced)
            (hpush.closed hsimple hclosed hprevious hnodeS) (hrest.push hrank)
            (by omega)).conseq ?_ fun _ he => he
          · rw [hpush.net hsimple, hnet, excess, excess, excess, excess]
            push_cast
            ring
          · rintro graph' ⟨f'', h1, h2, h3, h4, h5⟩
            exact ⟨f'', h1, h2, h3, h4, h5⟩

end Searching

/-! ## The rounds -/

/-- The arcs of a network that can be solved: simple, small, and with few slots. -/
structure Solvable (A : List (Arc Cost)) (model : Model) : Prop where
  simple : Simple A
  bounds : ∀ a ∈ A, a.tail < model.sink + 1 ∧ a.head < model.sink + 1
  cost : ∀ a ∈ A, Within unit a.cost
  capacity : ∀ a ∈ A, a.capacity ≤ maxSlots
  sink : model.sink ≠ 0
  size : model.sink + 1 ≤ 2 ^ 13
  supply : Flow.cut A (fun u => u = 0) ≤ model.requested
  bounded : model.requested ≤ maxSlots

/-- How large a potential is after `k` rounds. -/
def reach (k : ℕ) : ℤ := 2 ^ 45 * (1 + 2 * k)

/-- The state of the solver after `k` rounds: a flow of value `k`, potentials that certify it, and
the nodes that could be reached so far, where potentials are costs of paths. -/
structure Solving (A : List (Arc Cost)) (model : Model) (graph : Graph Cost) (π : Nat → Cost)
    (f : Nat → Nat → Nat) (k : ℕ) (S : Nat → Bool) : Prop where
  represents : Represents Arc.cost opposite graph A f
  carries : Carries A f 0 model.sink k
  slack : Slack A f π
  closed : Closed A f S
  start : S 0
  source : π 0 = 0
  near : ∀ v, S v → Within (2 ^ 45) (π v)
  far : ∀ v, Within (reach k) (π v)
  size : graph.size = model.sink + 1

section Rounds

variable {E : Error → Prop} {graph : Graph Cost} {π : Nat → Cost} {A : List (Arc Cost)}
  {f : Nat → Nat → Nat} {model : Model} {k : ℕ} {S : Nat → Bool}

theorem Solving.le (hA : Solvable A model) (h : Solving A model graph π f k S) :
    k ≤ model.requested := by
  have hle := h.carries.le_cut (fun u => u = 0) (by simp) (by simp [hA.sink])
  have := hA.supply
  omega

/-- An arc the search can use, seen from the flow. -/
theorem Solving.usable (h : Solving A model graph π f k S) {u i v : Nat} {c : Cost}
    (hW : usable graph π u i = some (v, c)) :
    (∃ a ∈ A, a.tail = u ∧ a.head = v ∧ on f a < a.capacity ∧ c = reduced π a) ∨
      (∃ a ∈ A, a.head = u ∧ a.tail = v ∧ 0 < on f a ∧ c = -reduced π a) := by
  obtain ⟨e, hentry, hroom, htarget, hc⟩ := usable_some hW
  rcases h.represents.entry hentry with ⟨a, ha, htail, hhead, hremaining, hmark⟩ |
    ⟨a, ha, hhead, htail, hremaining, hmark⟩
  · refine .inl ⟨a, ha, htail, hhead.trans htarget, by omega, ?_⟩
    rw [hc, hmark, reduced, htail, hhead, htarget]
  · refine .inr ⟨a, ha, hhead, htail.trans htarget, by omega, ?_⟩
    rw [hc, hmark, opposite, reduced, htail, hhead, htarget]
    abel

/-- A residual arc of the flow is one the search can use. -/
theorem Solving.usable_forward (h : Solving A model graph π f k S) {a : Arc Cost} (ha : a ∈ A)
    (hroom : on f a < a.capacity) :
    ∃ i, WorkforceAllocation.usable graph π a.tail i = some (a.head, reduced π a) := by
  obtain ⟨i, e, hentry, htarget, hremaining, hmark⟩ := h.represents.forward ha
  refine ⟨i, ?_⟩
  unfold WorkforceAllocation.usable
  rw [hentry]
  dsimp only
  rw [if_neg (by omega), htarget, hmark, reduced]

theorem Solving.usable_backward (hA : Solvable A model) (h : Solving A model graph π f k S)
    {a : Arc Cost} (ha : a ∈ A) (hused : 0 < on f a) :
    ∃ i, WorkforceAllocation.usable graph π a.head i = some (a.tail, -reduced π a) := by
  obtain ⟨i, e, hentry, htarget, hremaining, hmark⟩ :=
    h.represents.backward ha (hA.simple.proper a ha)
  refine ⟨i, ?_⟩
  unfold WorkforceAllocation.usable
  rw [hentry]
  dsimp only
  rw [if_neg (by omega), htarget, hmark, opposite, reduced]
  congr 2
  abel

theorem Solving.searchable (hA : Solvable A model) (h : Solving A model graph π f k S) :
    Searchable graph π (reach k) where
  target := by
    intro u i v c hW
    rw [h.size]
    rcases h.usable hW with ⟨a, ha, -, hhead, hroom, hc⟩ | ⟨a, ha, -, htail, hused, hc⟩
    · exact ⟨hhead ▸ (hA.bounds a ha).2, hc ▸ (h.slack a ha).1 hroom⟩
    · exact ⟨htail ▸ (hA.bounds a ha).1, hc ▸ neg_nonneg.mpr ((h.slack a ha).2 hused)⟩
  mark := by
    intro u i e hentry
    rcases h.represents.entry hentry with ⟨a, ha, -, -, -, hmark⟩ | ⟨a, ha, -, -, -, hmark⟩
    · exact hmark ▸ hA.cost a ha
    · rw [hmark, opposite, zero_sub]
      exact (hA.cost a ha).neg
  source := h.source
  potential := h.far
  size := by
    rw [h.size]
    exact ⟨Nat.succ_pos _, hA.size⟩
  small := by
    have := h.le hA
    have := hA.bounded
    unfold reach maxSlots at *
    omega

variable {labels : Labels Cost} {settled : List Nat} {level maximum : Cost}

/-- What the search could reach is closed, and inside what it could reach before. -/
theorem Solving.closed_labels (hA : Solvable A model) (h : Solving A model graph π f k S)
    (hsearch : Search (WorkforceAllocation.usable graph π) labels settled level
      fun x _ => x ∈ settled) (hempty : labels.frontier = []) :
    Closed A f fun v => (labels.distance v).isSome := by
  have hstep : ∀ u i v c, WorkforceAllocation.usable graph π u i = some (v, c) →
      (labels.distance u).isSome → (labels.distance v).isSome := by
    intro u i v c hW hu
    obtain ⟨d, hd⟩ := Option.isSome_iff_exists.mp hu
    obtain ⟨d', hd', -⟩ := hsearch.relaxed u i v c d (hsearch.settled_of_empty hempty hd) hW hd
    rw [hd']
    rfl
  intro a ha
  constructor
  · intro hroom
    obtain ⟨i, hW⟩ := h.usable_forward ha hroom
    exact hstep _ _ _ _ hW
  · intro hused
    obtain ⟨i, hW⟩ := h.usable_backward hA ha hused
    exact hstep _ _ _ _ hW

theorem Solving.labelled_mem (h : Solving A model graph π f k S)
    (hsearch : Search (WorkforceAllocation.usable graph π) labels settled level
      fun x _ => x ∈ settled) {v : Nat} {d : Cost} (hv : labels.distance v = some d) : S v := by
  apply hsearch.reach (Φ := fun v _ _ => S v) h.start (fun _ _ _ _ _ hS => hS) _ hv
  intro u i v c d n hW _ hu
  rcases h.usable hW with ⟨a, ha, htail, hhead, hroom, -⟩ | ⟨a, ha, hhead, htail, hused, -⟩
  · exact hhead ▸ (h.closed a ha).1 hroom (htail ▸ hu)
  · exact htail ▸ (h.closed a ha).2 hused (hhead ▸ hu)

/-- Raised potentials leave no residual arc negative: an arc into an unlabelled node comes from one,
and no label is above the greatest. -/
theorem Solving.raised (hA : Solvable A model) (h : Solving A model graph π f k S)
    (hsearch : Search (WorkforceAllocation.usable graph π) labels settled level
      fun x _ => x ∈ settled) (hempty : labels.frontier = [])
    (hmax : ∀ v d, labels.distance v = some d → d ≤ maximum) {u i v : Nat} {c : Cost}
    (hW : WorkforceAllocation.usable graph π u i = some (v, c)) :
    (labels.distance v).getD maximum ≤ (labels.distance u).getD maximum + c := by
  have hc := ((h.searchable hA).target u i v c hW).2
  cases hu : labels.distance u with
  | some d =>
      obtain ⟨d', hd', hle⟩ := hsearch.relaxed u i v c d (hsearch.settled_of_empty hempty hu) hW hu
      rw [hd']
      exact hle
  | none =>
      show _ ≤ maximum + c
      have hle : (labels.distance v).getD maximum ≤ maximum := by
        cases hv : labels.distance v with
        | some d => exact hmax v d hv
        | none => exact le_rfl
      exact hle.trans (le_add_of_nonneg_right hc)

theorem Solving.slack_raised (hA : Solvable A model) (h : Solving A model graph π f k S)
    (hsearch : Search (WorkforceAllocation.usable graph π) labels settled level
      fun x _ => x ∈ settled) (hempty : labels.frontier = [])
    (hmax : ∀ v d, labels.distance v = some d → d ≤ maximum) {π' : Nat → Cost}
    (hπ' : ∀ v, v < model.sink + 1 → π' v = π v + (labels.distance v).getD maximum) :
    Slack A f π' := by
  intro a ha
  obtain ⟨htail, hhead⟩ := hA.bounds a ha
  have hsum : reduced π' a = reduced π a + (labels.distance a.tail).getD maximum -
      (labels.distance a.head).getD maximum := by
    rw [reduced, reduced, hπ' _ htail, hπ' _ hhead]
    abel
  rw [hsum]
  constructor
  · intro hroom
    obtain ⟨i, hW⟩ := h.usable_forward ha hroom
    have := h.raised hA hsearch hempty hmax hW
    rw [sub_nonneg, add_comm]
    exact this
  · intro hused
    obtain ⟨i, hW⟩ := h.usable_backward hA ha hused
    have := h.raised hA hsearch hempty hmax hW
    rw [← sub_eq_add_neg, le_sub_iff_add_le, add_comm] at this
    rw [sub_nonpos]
    exact this

/-- What the rounds end with. -/
structure Ended (A : List (Arc Cost)) (model : Model) (out : Filled) (f : Nat → Nat → Nat) :
    Prop where
  represents : Represents Arc.cost opposite out.graph A f
  carries : Carries A f 0 model.sink out.assigned
  slack : Slack A f out.potentials
  closed : Closed A f fun v => out.sourceSide.getD v false
  start : out.sourceSide.getD 0 false
  stop : out.sourceSide.getD model.sink false = false
  length : out.sourceSide.length = model.sink + 1
  potential : ∀ v, Within (2 ^ 55) (out.potentials v)
  reached : ∀ v, out.sourceSide.getD v false → v ≠ 0 → ∃ u, out.sourceSide.getD u false ∧
    ((∃ a ∈ A, a.tail = u ∧ a.head = v ∧ on f a < a.capacity) ∨
      ∃ a ∈ A, a.head = u ∧ a.tail = v ∧ 0 < on f a)
  le : out.assigned ≤ model.requested

theorem Solving.ended (hA : Solvable A model) (h : Solving A model graph π f k S)
    (hsearch : Search (WorkforceAllocation.usable graph π) labels settled level
      fun x _ => x ∈ settled) (hempty : labels.frontier = [])
    (hsink : labels.distance model.sink = none) :
    Ended A model ⟨graph, π, k, (List.range graph.size).map fun v => (labels.distance v).isSome⟩
      f := by
  have hlabel : ∀ v, ((List.range graph.size).map fun v => (labels.distance v).isSome).getD v
      false = (labels.distance v).isSome := by
    intro v
    rw [List.getD_eq_getElem?_getD, List.getElem?_map]
    by_cases hv : v < graph.size
    · rw [List.getElem?_range hv]
      rfl
    · rw [List.getElem?_eq_none (by simpa using hv)]
      cases hd : labels.distance v with
      | none => rfl
      | some d =>
          by_cases hzero : v = 0
          · have := (h.searchable hA).size.1
            omega
          · obtain ⟨u, i, d', c, -, -, -, hW, -⟩ := hsearch.tree v d hd hzero
            exact absurd ((h.searchable hA).target u i v c hW).1 hv
  exact
    { represents := h.represents
      carries := h.carries
      slack := h.slack
      closed := by
        simp only [hlabel]
        exact h.closed_labels hA hsearch hempty
      start := by rw [hlabel, hsearch.source]; rfl
      stop := by rw [hlabel, hsink]; rfl
      length := by simp [h.size]
      potential := fun v => (h.far v).mono (h.searchable hA).small
      reached := by
        intro v hv hne
        rw [hlabel] at hv
        obtain ⟨d, hd⟩ := Option.isSome_iff_exists.mp hv
        obtain ⟨u, i, d', c, -, -, hu, hW, -⟩ := hsearch.tree v d hd hne
        refine ⟨u, by rw [hlabel, hu]; rfl, ?_⟩
        rcases h.usable hW with ⟨a, ha, htail, hhead, hroom, -⟩ | ⟨a, ha, hhead, htail, hused, -⟩
        · exact .inl ⟨a, ha, htail, hhead, hroom⟩
        · exact .inr ⟨a, ha, hhead, htail, hused⟩
      le := h.le hA }

/-- One round, once the search has found the sink. -/
theorem Solving.round (hbudget : E .budgetExceeded) (hA : Solvable A model)
    (h : Solving A model graph π f k S)
    (hsearch : Search (WorkforceAllocation.usable graph π) labels settled level
      fun x _ => x ∈ settled) (hempty : labels.frontier = [])
    (hlength : settled.length ≤ graph.size) (hsink : labels.distance model.sink ≠ none)
    (hmem : ∃ w, labels.distance w = some maximum)
    (hmax : ∀ v d, labels.distance v = some d → d ≤ maximum) {α : Type} {Q : α → Prop}
    {next : (Nat → Cost) → Graph Cost → Solve α}
    (hnext : ∀ π' graph' f' S', Solving A model graph' π' f' (k + 1) S' →
      Delivers maxWork (next π' graph') Q E) :
    Delivers maxWork (do
      let π ← raise labels.distance maximum (List.range graph.size) π
      let graph ← augment labels.parent (graph.size - 1) model.sink graph
      next π graph) Q E := by
  have hs := h.searchable hA
  have hunit : (unit : ℤ) = 2 ^ 32 := rfl
  have hk := h.le hA
  have hbounded := hA.bounded
  -- A label is the cost of a path less a potential, and potentials of labelled nodes are small.
  have hpath : ∀ v d, labels.distance v = some d → Within (2 ^ 45) (d + π v) := by
    intro v d hv
    refine (hs.label hsearch hv).mono ?_
    have hidx := List.idxOf_lt_length_iff.mpr (hsearch.settled_of_empty hempty hv)
    have := hs.size.2
    rw [hunit]
    omega
  have hlabel : ∀ v d, labels.distance v = some d → Within (2 ^ 45 + 2 ^ 45) d := by
    intro v d hv
    have : d = d + π v - π v := by abel
    rw [this]
    exact (hpath v d hv).sub (h.near v (h.labelled_mem hsearch hv))
  have hmaximum : Within (2 ^ 45 + 2 ^ 45) maximum := by
    obtain ⟨w, hw⟩ := hmem
    exact hlabel w maximum hw
  have hraised : ∀ v, Within (reach (k + 1)) (π v + (labels.distance v).getD maximum) := by
    intro v
    have hsum : reach k + (2 ^ 45 + 2 ^ 45) = reach (k + 1) := by
      unfold reach
      push_cast
      ring
    rw [← hsum]
    refine (h.far v).add ?_
    cases hv : labels.distance v with
    | none => exact hmaximum
    | some d => exact hlabel v d hv
  refine .bind (raise_delivers hbudget labels.distance maximum _ π List.nodup_range
    fun v _ => (hraised v).inRange ?_) fun π' hπ' => ?_
  · unfold reach maxSlots at *
    push_cast
    omega
  have hinside : ∀ v, v < model.sink + 1 → π' v = π v + (labels.distance v).getD maximum := by
    intro v hv
    rw [hπ' v, if_pos (by rw [List.mem_range, h.size]; exact hv)]
  have hslack := h.slack_raised hA hsearch hempty hmax hinside
  have hclosed := h.closed_labels hA hsearch hempty
  have hbelow : ∀ v d, labels.distance v = some d → v < model.sink + 1 := by
    intro v d hv
    by_cases hzero : v = 0
    · omega
    · obtain ⟨u, i, d', c, -, -, -, hW, -⟩ := hsearch.tree v d hv hzero
      rw [← h.size]
      exact (hs.target u i v c hW).1
  obtain ⟨dsink, hdsink⟩ := Option.ne_none_iff_exists'.mp hsink
  -- The arcs of the tree have become tight.
  have hroute : Route graph labels.parent settled.idxOf (fun u e => 0 < e.remaining ∧
      e.mark + π' u - π' e.target = 0 ∧ (labels.distance u).isSome ∧
      (labels.distance e.target).isSome) model.sink := by
    refine hsearch.route ?_ hdsink
    intro u i v c d hW hu hv
    obtain ⟨e, hentry, hroom, htarget, hc⟩ := usable_some hW
    refine ⟨e, hentry, htarget, hroom, ?_, by rw [hu]; rfl, by rw [htarget, hv]; rfl⟩
    rw [htarget, hinside u (hbelow u d hu), hinside v (hbelow v _ hv), hu, hv, hc]
    show e.mark + (π u + d) - (π v + (d + (e.mark + π u - π v))) = 0
    abel
  refine .bind (@augment_delivers _ _ _ hbudget hA.simple hA.capacity _ _ (fun v =>
    (labels.distance v).isSome) model.sink k (graph.size - 1) model.sink graph f
    h.represents h.carries.capacity (fun u => ?_) hslack hclosed hroute ?_) fun graph' hgraph' => ?_
  · rw [h.carries.conserved u, excess, excess]
    ring
  · have := List.idxOf_lt_length_iff.mpr (hsearch.settled_of_empty hempty hdsink)
    omega
  · obtain ⟨f', hrep, hcarries, hslack', hclosed', hsize⟩ := hgraph'
    refine hnext π' graph' f' (fun v => (labels.distance v).isSome) ?_
    exact
      { represents := hrep
        carries := by
          push_cast
          exact hcarries
        slack := hslack'
        closed := hclosed'
        start := by rw [hsearch.source]; rfl
        source := by
          rw [hinside 0 (Nat.succ_pos _), h.source, hsearch.source]
          exact add_zero 0
        near := by
          intro v hv
          obtain ⟨d, hd⟩ := Option.isSome_iff_exists.mp hv
          rw [hinside v (hbelow v d hd), hd, add_comm]
          exact hpath v d hd
        far := by
          intro v
          rw [hπ' v]
          split_ifs
          · exact hraised v
          · refine (h.far v).mono ?_
            unfold reach
            push_cast
            omega
        size := by rw [hsize, h.size] }

theorem fill_delivers (hbudget : E .budgetExceeded) (hA : Solvable A model) (bound : ℕ)
    (graph : Graph Cost) (π : Nat → Cost) (k : ℕ) (f : Nat → Nat → Nat) (S : Nat → Bool)
    (h : Solving A model graph π f k S) (hbound : bound + k = model.requested + 1) :
    Delivers maxWork (fill model bound graph π k) (fun out => ∃ f, Ended A model out f) E := by
  induction bound generalizing graph π k f S with
  | zero =>
      have := h.le hA
      omega
  | succ bound ih =>
      have hs := h.searchable hA
      rw [fill]
      refine .bind (charge_delivers hbudget ?_) fun _ _ => ?_
      · have := hs.size.2
        omega
      refine .bind (search_delivers hbudget hs (graph.size + 1) Labels.start [] 0 ?_ ?_)
        fun labels hlabels => ?_
      · exact Search.start.restate fun x j hx => by simp at hx
      · simp [Nat.add_comm]
      obtain ⟨settled, level, hsearch, hempty, hlength⟩ := hlabels
      refine .ite (fun hsink => .pure ⟨f, h.ended hA hsearch hempty hsink⟩) fun hsink => ?_
      cases hmaximum : ((List.range graph.size).filterMap labels.distance).max? with
      | none =>
          rw [List.max?_eq_none_iff] at hmaximum
          have hzero : (0 : Cost) ∈ (List.range graph.size).filterMap labels.distance :=
            List.mem_filterMap.mpr ⟨0, List.mem_range.mpr hs.size.1, hsearch.source⟩
          rw [hmaximum] at hzero
          cases hzero
      | some maximum =>
          dsimp only
          obtain ⟨hmem, hmax⟩ := (List.max?_eq_some_iff ..).mp hmaximum
          refine h.round hbudget hA hsearch hempty hlength hsink ?_ ?_ ?_
          · obtain ⟨w, -, hw⟩ := List.mem_filterMap.mp hmem
            exact ⟨w, hw⟩
          · intro v d hv
            refine hmax d (List.mem_filterMap.mpr ⟨v, ?_, hv⟩)
            rw [List.mem_range]
            by_cases hzero : v = 0
            · exact hzero ▸ hs.size.1
            · obtain ⟨u, i, d', c, -, -, -, hW, -⟩ := hsearch.tree v d hv hzero
              exact (hs.target u i v c hW).1
          · intro π' graph' f' S' hnext
            have hle := hnext.le hA
            refine .bind (.rejectIf fun hbad => absurd hle (not_le.mpr hbad)) fun _ _ => ?_
            exact ih graph' π' (k + 1) f' S' hnext (by omega)

end Rounds

end Dfmcp.WorkforceAllocation
