import Mathlib

/-!
# Breadth-first search by layers

A search from a set of roots over labelled arcs, as the depth it records for each node it finds, the
arc it was found by, and the line of nodes it still has to look at. `Explored` is the invariant of
such a search with a depth limit; `owed u v` holds of the arcs it may not have looked at yet.

* `Explored.start`, `Explored.enter`, `Explored.skip`, `Explored.offer`, `Explored.leave` — the
  steps of a search keep the invariant;
* `Explored.distances` — when the line is empty, the nodes found are those at a distance within the
  limit, and their depth is their distance;
* `Explored.depth_lt` — every depth is below the number of nodes;
* `Flood.parent_run_iff` — a flood without labels, run for as many turns as there are nodes, finds
  exactly the nodes that can be reached.
-/

namespace Layers

variable {α β : Type}

/-- A walk of so many arcs leads from a root to the node. -/
inductive Reach (root : α → Prop) (arc : α → β → α → Prop) : ℕ → α → Prop
  | root {v : α} (h : root v) : Reach root arc 0 v
  | step {n : ℕ} {u v : α} {e : β} (h : Reach root arc n u) (harc : arc u e v) :
      Reach root arc (n + 1) v

/-- A walk with the nodes and the arcs on its way. -/
inductive Walk (arc : α → β → α → Prop) (source : α) : List α → List β → α → Prop
  | here : Walk arc source [source] [] source
  | step {nodes : List α} {arcs : List β} {u v : α} {e : β} (h : Walk arc source nodes arcs u)
      (harc : arc u e v) : Walk arc source (nodes ++ [v]) (arcs ++ [e]) v

/-- The length of a shortest walk from a root. -/
def Distance (root : α → Prop) (arc : α → β → α → Prop) (v : α) (d : ℕ) : Prop :=
  Reach root arc d v ∧ ∀ n, Reach root arc n v → d ≤ n

/-- What holds of a search: `line` are the nodes it still has to look at, the first of them perhaps
in part, and `owed` are the arcs it may not have looked at. -/
structure Explored (root : α → Prop) (arc : α → β → α → Prop) (limit : ℕ) (depth : α → Option ℕ)
    (origin : α → Option (α × β)) (line : List α) (owed : α → α → Prop) : Prop where
  base : ∀ v, depth v = some 0 ↔ root v
  tree : ∀ v d, depth v = some (d + 1) →
    ∃ u e, origin v = some (u, e) ∧ depth u = some d ∧ arc u e v
  bounded : ∀ v d, depth v = some d → d ≤ limit
  nodup : line.Nodup
  found : ∀ v ∈ line, depth v ≠ none
  ordered : line.Pairwise fun u v => ∀ a b, depth u = some a → depth v = some b → a ≤ b
  near : ∀ u ∈ line, ∀ v a b, depth u = some a → depth v = some b → b ≤ a + 1
  closed : ∀ u d e v, depth u = some d → d < limit → arc u e v → ¬ owed u v →
    ∃ b ≤ d + 1, depth v = some b

/-- Between two nodes, the arcs of every node in the line are owed. -/
def waiting (line : List α) : α → α → Prop := fun u _ => u ∈ line

/-- While the arcs of `u` are looked at, those to `rest` are owed, and those of the nodes behind. -/
def looking (u : α) (rest : List α) (queue : List α) : α → α → Prop :=
  fun x v => x ∈ queue ∨ x = u ∧ v ∈ rest

section Rules

variable {root : α → Prop} {arc : α → β → α → Prop} {limit d : ℕ} {depth : α → Option ℕ}
  {origin : α → Option (α × β)} {line queue rest : List α} {owed : α → α → Prop} {u v : α} {e : β}

theorem Reach.mono {arc' : α → β → α → Prop} (harc : ∀ u e v, arc u e v → arc' u e v) {n : ℕ}
    (h : Reach root arc n v) : Reach root arc' n v := by
  induction h with
  | root h => exact .root h
  | step _ harc' ih => exact ih.step (harc _ _ _ harc')

/-- A search begins with its roots in the line. -/
theorem Explored.start [DecidableEq α] (hline : ∀ v, v ∈ line ↔ root v) (hnodup : line.Nodup)
    (origin : α → Option (α × β)) :
    Explored root arc limit (fun v => if v ∈ line then some 0 else none) origin line
      (waiting line) where
  base := by
    intro v
    rw [← hline v]
    by_cases hv : v ∈ line <;> simp [hv]
  tree := by
    intro v d hv
    split_ifs at hv
    cases Option.some.inj hv
  bounded := by
    intro v d hv
    split_ifs at hv
    cases hv
    exact Nat.zero_le limit
  nodup := hnodup
  found := by
    intro v hv
    simp [hv]
  ordered := by
    refine List.pairwise_iff_forall_sublist.2 fun {u v} _ a b ha hb => ?_
    split_ifs at ha
    cases ha
    exact Nat.zero_le b
  near := by
    intro u _ v a b _ hb
    split_ifs at hb
    cases hb
    exact Nat.zero_le _
  closed := by
    intro u d e v hu _ _ hnot
    split_ifs at hu with hmem
    exact absurd hmem hnot

/-- The arcs of the first node in the line are about to be looked at. -/
theorem Explored.enter (h : Explored root arc limit depth origin (u :: queue)
      (waiting (u :: queue)))
    (hrest : ∀ e v, arc u e v → v ∈ rest) :
    Explored root arc limit depth origin (u :: queue) (looking u rest queue) :=
  { h with
    closed := by
      intro x a e v hx ha harc hnot
      refine h.closed x a e v hx ha harc fun hmem => hnot ?_
      rcases List.mem_cons.1 hmem with rfl | hmem
      · exact Or.inr ⟨rfl, hrest e v harc⟩
      · exact Or.inl hmem }

/-- An arc that leads to a node found before, or that does not exist. -/
theorem Explored.skip
    (h : Explored root arc limit depth origin (u :: queue) (looking u (v :: rest) queue))
    (hv : (∃ e, arc u e v) → depth v ≠ none) :
    Explored root arc limit depth origin (u :: queue) (looking u rest queue) :=
  { h with
    closed := by
      intro x a e y hx ha harc hnot
      by_cases heq : x = u ∧ y = v
      · obtain ⟨rfl, rfl⟩ := heq
        cases hy : depth y with
        | none => exact absurd hy (hv ⟨e, harc⟩)
        | some b => exact ⟨b, h.near x (List.mem_cons_self ..) y a b hx hy, rfl⟩
      · refine h.closed x a e y hx ha harc fun howed => hnot ?_
        rcases howed with hmem | ⟨rfl, hmem⟩
        · exact Or.inl hmem
        · rcases List.mem_cons.1 hmem with rfl | hmem
          · exact absurd ⟨rfl, rfl⟩ heq
          · exact Or.inr ⟨rfl, hmem⟩ }

/-- An arc that leads to a new node. -/
theorem Explored.offer [DecidableEq α]
    (h : Explored root arc limit depth origin (u :: queue) (looking u (v :: rest) queue))
    (hu : depth u = some d) (hd : d < limit) (harc : arc u e v) (hv : depth v = none) :
    Explored root arc limit (Function.update depth v (some (d + 1)))
      (Function.update origin v (some (u, e))) (u :: (queue ++ [v]))
      (looking u rest (queue ++ [v])) := by
  have hother : ∀ {x}, depth x ≠ none → x ≠ v := fun hx heq => hx (heq ▸ hv)
  have hkeep : ∀ {x}, depth x ≠ none → Function.update depth v (some (d + 1)) x = depth x :=
    fun hx => Function.update_of_ne (hother hx) _ _
  have hline : ∀ x ∈ u :: queue, x ≠ v := fun x hx => hother (h.found x hx)
  have hmem : ∀ {x}, x ∈ u :: (queue ++ [v]) → x ∈ u :: queue ∨ x = v := by
    intro x hx
    simpa [or_assoc] using hx
  refine ⟨?_, ?_, ?_, ?_, ?_, ?_, ?_, ?_⟩
  · intro x
    by_cases hx : x = v
    · subst hx
      rw [Function.update_self, ← h.base x, hv]
      simp
    · rw [Function.update_of_ne hx, h.base x]
  · intro x a hx
    by_cases hxv : x = v
    · subst hxv
      rw [Function.update_self] at hx
      cases hx
      exact ⟨u, e, Function.update_self .., (hkeep (by simp [hu])).trans hu, harc⟩
    · rw [Function.update_of_ne hxv] at hx ⊢
      obtain ⟨y, f, horigin, hy, harc'⟩ := h.tree x a hx
      exact ⟨y, f, horigin, (hkeep (by simp [hy])).trans hy, harc'⟩
  · intro x a hx
    by_cases hxv : x = v
    · subst hxv
      rw [Function.update_self] at hx
      cases hx
      exact hd
    · rw [Function.update_of_ne hxv] at hx
      exact h.bounded x a hx
  · have happ : u :: (queue ++ [v]) = (u :: queue) ++ [v] := rfl
    rw [happ, List.nodup_append]
    refine ⟨h.nodup, List.nodup_singleton v, ?_⟩
    intro a ha b hb
    rw [List.mem_singleton.1 hb]
    exact hline a ha
  · intro x hx
    rcases hmem hx with hx | rfl
    · rw [hkeep (h.found x hx)]
      exact h.found x hx
    · simp
  · have happ : u :: (queue ++ [v]) = (u :: queue) ++ [v] := rfl
    rw [happ, List.pairwise_append]
    refine ⟨?_, List.pairwise_singleton _ _, ?_⟩
    · refine h.ordered.imp_of_mem fun {x y} hx hy hxy a b ha hb => ?_
      rw [hkeep (h.found x hx)] at ha
      rw [hkeep (h.found y hy)] at hb
      exact hxy a b ha hb
    · intro x hx y hy a b ha hb
      rw [List.mem_singleton.1 hy, Function.update_self] at hb
      rw [hkeep (h.found x hx)] at ha
      cases hb
      exact h.near u (List.mem_cons_self ..) x d a hu ha
  · intro x hx y a b ha hb
    rcases hmem hx with hold | rfl
    · rw [hkeep (h.found x hold)] at ha
      by_cases hy : y = v
      · subst hy
        rw [Function.update_self] at hb
        cases hb
        rcases List.mem_cons.1 hold with rfl | hqueue
        · rw [hu] at ha
          exact Nat.add_le_add_right (Nat.le_of_eq (Option.some.inj ha)) 1
        · exact Nat.add_le_add_right ((List.pairwise_cons.1 h.ordered).1 x hqueue d a hu ha) 1
      · rw [Function.update_of_ne hy] at hb
        exact h.near x hold y a b ha hb
    · rw [Function.update_self] at ha
      cases ha
      by_cases hy : y = x
      · subst hy
        rw [Function.update_self] at hb
        cases hb
        exact Nat.le_succ _
      · rw [Function.update_of_ne hy] at hb
        exact Nat.le_succ_of_le (h.near u (List.mem_cons_self ..) y d b hu hb)
  · intro x a f y hx ha harc' hnot
    have hxv : x ≠ v := by
      rintro rfl
      exact hnot (Or.inl (by simp))
    rw [Function.update_of_ne hxv] at hx
    by_cases hy : y = v
    · subst hy
      rw [Function.update_self]
      by_cases hxu : x = u
      · subst hxu
        rw [hu] at hx
        cases hx
        exact ⟨_, Nat.le_refl _, rfl⟩
      · have howed : ¬ looking u (y :: rest) queue x y := by
          rintro (hq | ⟨heq, -⟩)
          · exact hnot (Or.inl (List.mem_append_left _ hq))
          · exact hxu heq
        obtain ⟨b, -, hb⟩ := h.closed x a f y hx ha harc' howed
        rw [hv] at hb
        cases hb
    · rw [Function.update_of_ne hy]
      refine h.closed x a f y hx ha harc' fun howed => hnot ?_
      rcases howed with hq | ⟨rfl, hq⟩
      · exact Or.inl (List.mem_append_left _ hq)
      · rcases List.mem_cons.1 hq with rfl | hq
        · exact absurd rfl hy
        · exact Or.inr ⟨rfl, hq⟩

/-- The first node in the line has been looked at. -/
theorem Explored.leave (h : Explored root arc limit depth origin (u :: queue) (looking u [] queue)) :
    Explored root arc limit depth origin queue (waiting queue) :=
  { h with
    nodup := (List.nodup_cons.1 h.nodup).2
    found := fun v hv => h.found v (List.mem_cons_of_mem u hv)
    ordered := (List.pairwise_cons.1 h.ordered).2
    near := fun v hv => h.near v (List.mem_cons_of_mem u hv)
    closed := by
      intro x a e v hx ha harc hnot
      refine h.closed x a e v hx ha harc fun howed => hnot ?_
      rcases howed with hmem | ⟨-, hmem⟩
      · exact hmem
      · cases hmem }

/-- The arcs of a node at the limit are not looked at. -/
theorem Explored.pass (h : Explored root arc limit depth origin (u :: queue)
      (waiting (u :: queue)))
    (hu : depth u = some limit) : Explored root arc limit depth origin queue (waiting queue) :=
  { h with
    nodup := (List.nodup_cons.1 h.nodup).2
    found := fun v hv => h.found v (List.mem_cons_of_mem u hv)
    ordered := (List.pairwise_cons.1 h.ordered).2
    near := fun v hv => h.near v (List.mem_cons_of_mem u hv)
    closed := by
      intro x a e v hx ha harc hnot
      refine h.closed x a e v hx ha harc fun hmem => ?_
      rcases List.mem_cons.1 hmem with rfl | hmem
      · rw [hu] at hx
        cases hx
        exact Nat.lt_irrefl _ ha
      · exact hnot hmem }

theorem Explored.reach (h : Explored root arc limit depth origin line owed)
    (hv : depth v = some d) : Reach root arc d v := by
  induction d generalizing v with
  | zero => exact .root ((h.base v).1 hv)
  | succ d ih =>
      obtain ⟨u, e, -, hu, harc⟩ := h.tree v d hv
      exact (ih hu).step harc

/-- **When nothing is left in the line, exactly the nodes within the limit were found, at their
distance.** -/
theorem Explored.distances (h : Explored root arc limit depth origin [] (waiting [])) :
    depth v = some d ↔ Distance root arc v d ∧ d ≤ limit := by
  have hfound : ∀ n w, Reach root arc n w → n ≤ limit → ∃ b ≤ n, depth w = some b := by
    intro n w hw
    induction hw with
    | root hroot => exact fun _ => ⟨0, Nat.le_refl 0, (h.base _).2 hroot⟩
    | step _ harc ih =>
        intro hn
        obtain ⟨a, ha, hu⟩ := ih (Nat.le_of_succ_le hn)
        obtain ⟨b, hb, hw⟩ := h.closed _ a _ _ hu (Nat.lt_of_le_of_lt ha hn) harc
          (by simp [waiting])
        exact ⟨b, Nat.le_trans hb (Nat.succ_le_succ ha), hw⟩
  have hleast : ∀ w a, depth w = some a → ∀ n, Reach root arc n w → a ≤ n := by
    intro w a hw n hn
    by_cases hlimit : n ≤ limit
    · obtain ⟨b, hb, hw'⟩ := hfound n w hn hlimit
      rw [hw] at hw'
      cases hw'
      exact hb
    · exact Nat.le_trans (h.bounded w a hw) (Nat.le_of_not_le hlimit)
  constructor
  · intro hv
    exact ⟨⟨h.reach hv, hleast v d hv⟩, h.bounded v d hv⟩
  · rintro ⟨⟨hreach, hshort⟩, hd⟩
    obtain ⟨b, hb, hv⟩ := hfound d v hreach hd
    rw [hv, Nat.le_antisymm hb (hshort b (h.reach hv))]

/-- Every depth up to that of a node is the depth of some node. -/
theorem Explored.below (h : Explored root arc limit depth origin line owed)
    (hv : depth v = some d) {k : ℕ} (hk : k ≤ d) : ∃ w, depth w = some k := by
  induction d generalizing v with
  | zero => exact ⟨v, by rw [hv, Nat.le_zero.1 hk]⟩
  | succ d ih =>
      rcases Nat.lt_or_ge d k with hlt | hle
      · exact ⟨v, by rw [hv, Nat.le_antisymm hk hlt]⟩
      · obtain ⟨u, -, -, hu, -⟩ := h.tree v d hv
        exact ih hu hle

/-- Every depth is below the number of nodes. -/
theorem Explored.depth_lt (h : Explored root arc limit depth origin line owed) {nodes : List α}
    (hnodes : ∀ w, depth w ≠ none → w ∈ nodes) (hv : depth v = some d) : d < nodes.length := by
  classical
  choose node hnode using fun k : {k // k ≤ d} => h.below hv k.2
  have hcard : (Finset.range (d + 1)).card ≤ nodes.toFinset.card := by
    refine Finset.card_le_card_of_injOn (fun k => if hk : k ≤ d then node ⟨k, hk⟩ else v) ?_ ?_
    · intro k hk
      have hle : k ≤ d := Nat.lt_succ_iff.1 (by simpa using hk)
      simp only [dif_pos hle, List.coe_toFinset, Set.mem_setOf_eq]
      exact hnodes _ (by simp [hnode])
    · intro a ha b hb hab
      have hale : a ≤ d := Nat.lt_succ_iff.1 (by simpa using ha)
      have hble : b ≤ d := Nat.lt_succ_iff.1 (by simpa using hb)
      simp only [dif_pos hale, dif_pos hble] at hab
      have hdepth := hnode ⟨a, hale⟩
      rw [hab, hnode ⟨b, hble⟩] at hdepth
      exact (Option.some.inj hdepth).symm
  rw [Finset.card_range] at hcard
  exact Nat.le_trans hcard nodes.toFinset_card_le

/-- Without a limit, when every depth is below it: what can be reached was found. -/
theorem Explored.complete (h : Explored root arc limit depth origin [] (waiting []))
    (hlimit : ∀ v d, depth v = some d → d < limit) {n : ℕ} (hv : Reach root arc n v) :
    ∃ b ≤ n, depth v = some b := by
  induction hv with
  | root hroot => exact ⟨0, Nat.le_refl 0, (h.base _).2 hroot⟩
  | step _ harc ih =>
      obtain ⟨a, ha, hu⟩ := ih
      obtain ⟨b, hb, hw⟩ := h.closed _ a _ _ hu (hlimit _ a hu) harc (by simp [waiting])
      exact ⟨b, Nat.le_trans hb (Nat.succ_le_succ ha), hw⟩

end Rules

/-! ## A flood

A search that records no labels, run on its own: it turns to the first node in the queue and offers
each of its neighbours. -/

/-- The state of a flood; a root is its own parent. -/
structure Flood (α : Type) where
  depth : α → Option ℕ
  parent : α → Option α
  queue : List α
  visited : List α

namespace Flood

/-! ### Trails -/

/-- The parents of a node, from a root. -/
inductive Trail (parent : α → Option α) : α → List α → Prop
  | root {v : α} (h : parent v = some v) : Trail parent v [v]
  | step {u v : α} {nodes : List α} (h : parent v = some u) (hne : u ≠ v)
      (htrail : Trail parent u nodes) : Trail parent v (nodes ++ [v])

section Trail

variable {parent : α → Option α} {v : α} {nodes : List α}

theorem Trail.unique {other : List α} (h : Trail parent v nodes) (h' : Trail parent v other) :
    nodes = other := by
  induction h generalizing other with
  | root hroot =>
      cases h' with
      | root => rfl
      | step hparent hne =>
          rw [hroot] at hparent
          exact absurd (Option.some.inj hparent).symm hne
  | step hparent hne _ ih =>
      cases h' with
      | root hroot =>
          rw [hroot] at hparent
          exact absurd (Option.some.inj hparent).symm hne
      | step hparent' hne' htrail' =>
          rw [hparent] at hparent'
          cases hparent'
          rw [ih htrail']

theorem Trail.mono {parent' : α → Option α} (h : Trail parent v nodes)
    (hmono : ∀ u x, parent u = some x → parent' u = some x) : Trail parent' v nodes := by
  induction h with
  | root hroot => exact .root (hmono _ _ hroot)
  | step hparent hne _ ih => exact .step (hmono _ _ hparent) hne ih

theorem Trail.getLast? (h : Trail parent v nodes) : nodes.getLast? = some v := by
  cases h with
  | root => rfl
  | step => simp

end Trail

/-! ### The rules -/

variable [DecidableEq α]

def start (roots : List α) : Flood α where
  depth := fun v => if v ∈ roots then some 0 else none
  parent := fun v => if v ∈ roots then some v else none
  queue := roots
  visited := []

/-- A neighbour of `u` is found, unless it was before. -/
def offer (u : α) (s : Flood α) (v : α) : Flood α :=
  if s.parent v = none then
    { s with
      depth := Function.update s.depth v ((s.depth u).map (· + 1))
      parent := Function.update s.parent v (some u)
      queue := s.queue ++ [v] }
  else s

/-- The first node in the queue is looked at. -/
def turn (next : α → List α) (s : Flood α) : Flood α :=
  match s.queue with
  | [] => s
  | u :: queue =>
      (next u).foldl (offer u) { s with queue := queue, visited := s.visited ++ [u] }

/-- What holds of a flood among the nodes `all`, with `line` still to be looked at. -/
structure Sound (roots all : List α) (next : α → List α) (s : Flood α) (line : List α)
    (owed : α → α → Prop) : Prop where
  explored : Explored (· ∈ roots) (fun u (_ : Unit) v => v ∈ next u) all.length s.depth
    (fun v => (s.parent v).map fun u => (u, ())) line owed
  parents : ∀ v, s.parent v = none ↔ s.depth v = none
  roots : ∀ v, s.parent v = some v ↔ v ∈ roots
  nodup : (s.visited ++ s.queue).Nodup
  found : ∀ v, s.depth v ≠ none ↔ v ∈ s.visited ++ s.queue
  known : ∀ v, s.depth v ≠ none → v ∈ all

section Rules

variable {roots all : List α} {next : α → List α} {s : Flood α} {line queue rest : List α}
  {owed : α → α → Prop} {u v : α} {d : ℕ}

theorem Sound.start (hroots : roots.Nodup) (hall : ∀ v ∈ roots, v ∈ all) :
    (start roots).Sound roots all next roots (waiting roots) where
  explored := .start (fun _ => Iff.rfl) hroots _
  parents := by
    intro v
    by_cases hv : v ∈ roots <;> simp [Flood.start, hv]
  roots := by
    intro v
    by_cases hv : v ∈ roots <;> simp [Flood.start, hv]
  nodup := hroots
  found := by
    intro v
    by_cases hv : v ∈ roots <;> simp [Flood.start, hv]
  known := by
    intro v hv
    by_cases hmem : v ∈ roots
    · exact hall v hmem
    · simp [Flood.start, hmem] at hv

theorem Sound.depth_lt (h : s.Sound roots all next line owed) (hv : s.depth v = some d) :
    d < all.length := h.explored.depth_lt h.known hv

/-- One neighbour is offered. -/
theorem Sound.offer (h : s.Sound roots all next (u :: s.queue) (looking u (v :: rest) s.queue))
    (hv : v ∈ next u) (hall : v ∈ all) (hu : u ∈ s.visited) :
    (s.offer u v).Sound roots all next (u :: (s.offer u v).queue)
      (looking u rest (s.offer u v).queue) := by
  unfold Flood.offer
  by_cases hnew : s.parent v = none
  · rw [if_pos hnew]
    have hnone := (h.parents v).1 hnew
    obtain ⟨d, hd⟩ := Option.ne_none_iff_exists'.1
      ((h.found u).2 (List.mem_append_left _ hu))
    have hmem : v ∉ s.visited ++ s.queue := fun hmem => (h.found v).2 hmem hnone
    have hsum : (s.depth u).map (· + 1) = some (d + 1) := by rw [hd, Option.map_some]
    have horigin : (fun w => (Function.update s.parent v (some u) w).map fun x => (x, ())) =
        Function.update (fun w => (s.parent w).map fun x => (x, ())) v (some (u, ())) := by
      funext w
      by_cases hw : w = v
      · subst hw
        simp
      · simp [hw]
    refine ⟨?_, ?_, ?_, ?_, ?_, ?_⟩
    · dsimp only
      rw [hsum, horigin]
      exact h.explored.offer hd (h.depth_lt hd) hv hnone
    · intro w
      dsimp only
      by_cases hw : w = v
      · subst hw
        simp [hsum]
      · rw [Function.update_of_ne hw, Function.update_of_ne hw]
        exact h.parents w
    · intro w
      dsimp only
      by_cases hw : w = v
      · subst hw
        have huv : u ≠ w := by
          rintro rfl
          exact hmem (List.mem_append_left _ hu)
        have hroot : w ∉ roots := fun hroot => by
          rw [(h.roots w).2 hroot] at hnew
          cases hnew
        simp [huv, hroot]
      · rw [Function.update_of_ne hw]
        exact h.roots w
    · dsimp only
      rw [← List.append_assoc, List.nodup_append]
      refine ⟨h.nodup, List.nodup_singleton v, fun a ha b hb hab => ?_⟩
      rw [List.mem_singleton] at hb
      exact hmem (hb ▸ hab ▸ ha)
    · intro w
      dsimp only
      rw [← List.append_assoc, List.mem_append, List.mem_singleton]
      by_cases hw : w = v
      · subst hw
        simp [hsum]
      · rw [Function.update_of_ne hw, h.found w]
        simp [hw]
    · intro w hw
      dsimp only at hw
      by_cases hwv : w = v
      · exact hwv ▸ hall
      · rw [Function.update_of_ne hwv] at hw
        exact h.known w hw
  · rw [if_neg hnew]
    exact { h with explored := h.explored.skip fun _ => mt (h.parents v).2 hnew }

theorem visited_foldl (u : α) (rest : List α) (s : Flood α) :
    (rest.foldl (Flood.offer u) s).visited = s.visited := by
  induction rest generalizing s with
  | nil => rfl
  | cons v rest ih =>
      rw [List.foldl_cons, ih, Flood.offer]
      split_ifs <;> rfl

theorem Sound.offers (hrest : ∀ v ∈ rest, v ∈ next u ∧ v ∈ all)
    (h : s.Sound roots all next (u :: s.queue) (looking u rest s.queue)) (hu : u ∈ s.visited) :
    (rest.foldl (Flood.offer u) s).Sound roots all next
      (u :: (rest.foldl (Flood.offer u) s).queue)
      (looking u [] (rest.foldl (Flood.offer u) s).queue) := by
  induction rest generalizing s with
  | nil => exact h
  | cons v rest ih =>
      obtain ⟨hv, hall⟩ := hrest v (List.mem_cons_self ..)
      refine ih (fun w hw => hrest w (List.mem_cons_of_mem v hw)) (h.offer hv hall hu) ?_
      have hkeep := visited_foldl u [v] s
      rw [List.foldl_cons, List.foldl_nil] at hkeep
      rwa [hkeep]

/-- A flood stays sound. -/
theorem Sound.turn (hall : ∀ u ∈ all, ∀ v ∈ next u, v ∈ all)
    (h : s.Sound roots all next s.queue (waiting s.queue)) :
    (s.turn next).Sound roots all next (s.turn next).queue (waiting (s.turn next).queue) := by
  unfold Flood.turn
  cases hqueue : s.queue with
  | nil =>
      dsimp only
      rw [hqueue] at h ⊢
      exact h
  | cons u queue =>
      dsimp only
      rw [hqueue] at h
      have hfound : s.depth u ≠ none := h.explored.found u (List.mem_cons_self ..)
      have hlist : s.visited ++ [u] ++ queue = s.visited ++ s.queue := by simp [hqueue]
      have hpopped : ({ s with queue := queue, visited := s.visited ++ [u] } : Flood α).Sound
          roots all next (u :: queue) (looking u (next u) queue) :=
        ⟨h.explored.enter fun _ v hv => hv, h.parents, h.roots, by rw [hlist]; exact h.nodup,
          fun v => by rw [hlist]; exact h.found v, h.known⟩
      have hdone := hpopped.offers (fun v hv => ⟨hv, hall u (h.known u hfound) v hv⟩) (by simp)
      exact { hdone with explored := hdone.explored.leave }

theorem Sound.run (hall : ∀ u ∈ all, ∀ v ∈ next u, v ∈ all)
    (h : s.Sound roots all next s.queue (waiting s.queue)) (k : ℕ) :
    ((Flood.turn next)^[k] s).Sound roots all next ((Flood.turn next)^[k] s).queue
      (waiting ((Flood.turn next)^[k] s).queue) := by
  induction k with
  | zero => exact h
  | succ k ih =>
      rw [Function.iterate_succ_apply']
      exact ih.turn hall

/-- A parent is never replaced. -/
theorem parent_turn {x : α} (hv : s.parent v = some x) : (s.turn next).parent v = some x := by
  have hoffer : ∀ (u w : α) (s : Flood α), s.parent v = some x →
      (s.offer u w).parent v = some x := by
    intro u w s hv
    unfold Flood.offer
    by_cases hw : s.parent w = none
    · have hne : v ≠ w := by
        rintro rfl
        rw [hw] at hv
        cases hv
      rw [if_pos hw]
      exact (Function.update_of_ne hne _ _).trans hv
    · rwa [if_neg hw]
  have hoffers : ∀ (u : α) (rest : List α) (s : Flood α), s.parent v = some x →
      (rest.foldl (Flood.offer u) s).parent v = some x := by
    intro u rest
    induction rest with
    | nil => exact fun s hv => hv
    | cons w rest ih => exact fun s hv => ih _ (hoffer u w s hv)
  unfold Flood.turn
  cases s.queue with
  | nil => exact hv
  | cons u queue => exact hoffers u _ _ hv

theorem parent_run {x : α} (hv : s.parent v = some x) (k : ℕ) :
    ((turn next)^[k] s).parent v = some x := by
  induction k with
  | zero => exact hv
  | succ k ih =>
      rw [Function.iterate_succ_apply']
      exact parent_turn ih

theorem turn_of_nil (h : s.queue = []) : s.turn next = s := by
  rw [Flood.turn, h]

theorem run_of_nil (h : s.queue = []) (k : ℕ) : (turn next)^[k] s = s :=
  Function.iterate_fixed (turn_of_nil h) k

theorem visited_turn (h : s.queue = u :: queue) :
    (s.turn next).visited = s.visited ++ [u] := by
  rw [Flood.turn, h]
  exact visited_foldl u (next u) _

/-- A node that was looked at was at the head of the queue once. -/
theorem head_of_visited (hs : s.visited = []) {k : ℕ} (hv : v ∈ ((turn next)^[k] s).visited) :
    ∃ j < k, ((turn next)^[j] s).queue.head? = some v := by
  induction k with
  | zero =>
      rw [Function.iterate_zero_apply, hs] at hv
      cases hv
  | succ k ih =>
      rw [Function.iterate_succ_apply'] at hv
      cases hqueue : ((turn next)^[k] s).queue with
      | nil =>
          rw [turn_of_nil hqueue] at hv
          obtain ⟨j, hj, hhead⟩ := ih hv
          exact ⟨j, Nat.lt_succ_of_lt hj, hhead⟩
      | cons u queue =>
          rw [visited_turn hqueue] at hv
          rcases List.mem_append.1 hv with hold | hnew
          · obtain ⟨j, hj, hhead⟩ := ih hold
            exact ⟨j, Nat.lt_succ_of_lt hj, hhead⟩
          · rw [List.mem_singleton.1 hnew]
            exact ⟨k, Nat.lt_succ_self k, by rw [hqueue]; rfl⟩

/-- While something is in the queue, every turn looks at one more node. -/
theorem length_visited (hs : s.visited = []) {k : ℕ}
    (hk : ∀ j < k, ((turn next)^[j] s).queue ≠ []) :
    ((turn next)^[k] s).visited.length = k := by
  induction k with
  | zero => simp [hs]
  | succ k ih =>
      obtain ⟨u, queue, hqueue⟩ := List.exists_cons_of_ne_nil (hk k (Nat.lt_succ_self k))
      rw [Function.iterate_succ_apply', visited_turn hqueue, List.length_append,
        ih fun j hj => hk j (Nat.lt_succ_of_lt hj)]
      rfl

/-- As many turns as there are nodes leave nothing in the queue. -/
theorem queue_run (hall : ∀ u ∈ all, ∀ v ∈ next u, v ∈ all) (hnodup : roots.Nodup)
    (hroots : ∀ v ∈ roots, v ∈ all) :
    ((turn next)^[all.length] (start roots)).queue = [] := by
  by_contra hlast
  have hsound := Sound.run hall (@Sound.start _ _ _ _ next hnodup hroots) all.length
  have hbusy : ∀ j < all.length, ((turn next)^[j] (start roots)).queue ≠ [] := by
    intro j hj hempty
    apply hlast
    rw [← Nat.sub_add_cancel hj.le, Function.iterate_add_apply, run_of_nil hempty]
    exact hempty
  have hlength := @length_visited _ _ next (start roots) rfl _ hbusy
  have hsub : ((turn next)^[all.length] (start roots)).visited ++
      ((turn next)^[all.length] (start roots)).queue ⊆ all :=
    fun v hv => hsound.known v ((hsound.found v).2 hv)
  have hle := (hsound.nodup.subperm hsub).length_le
  have hpos := List.length_pos_of_ne_nil hlast
  rw [List.length_append, hlength] at hle
  omega

/-- **A flood of enough turns finds exactly what can be reached.** -/
theorem parent_run_iff (hall : ∀ u ∈ all, ∀ v ∈ next u, v ∈ all) (hnodup : roots.Nodup)
    (hroots : ∀ v ∈ roots, v ∈ all) :
    ((turn next)^[all.length] (start roots)).parent v ≠ none ↔
      ∃ n, Reach (· ∈ roots) (fun u (_ : Unit) v => v ∈ next u) n v := by
  have hsound := Sound.run hall (@Sound.start _ _ _ _ next hnodup hroots) all.length
  have hexplored := hsound.explored
  rw [queue_run hall hnodup hroots] at hexplored
  rw [Ne, hsound.parents]
  constructor
  · intro hv
    obtain ⟨d, hd⟩ := Option.ne_none_iff_exists'.1 hv
    exact ⟨d, hexplored.reach hd⟩
  · intro ⟨n, hn⟩ hv
    obtain ⟨b, _, hb⟩ := hexplored.complete (fun u d hu => hsound.depth_lt hu) hn
    rw [hv] at hb
    cases hb

end Rules

section Trails

variable {roots all : List α} {next : α → List α} {s : Flood α} {line : List α}
  {owed : α → α → Prop} {v : α} {nodes : List α} {d : ℕ}

/-- The trail of a node that was found is a walk from a root, as long as the node is deep. -/
theorem Sound.trail (h : s.Sound roots all next line owed) (hv : s.depth v = some d) :
    ∃ nodes, Trail s.parent v nodes ∧ nodes.length = d + 1 ∧
      (∃ r ∈ roots, nodes.head? = some r) ∧ nodes.IsChain fun a b => b ∈ next a := by
  induction d generalizing v with
  | zero =>
      have hroot := (h.explored.base v).1 hv
      exact ⟨[v], .root ((h.roots v).2 hroot), rfl, ⟨v, hroot, rfl⟩, List.IsChain.singleton v⟩
  | succ d ih =>
      obtain ⟨u, _, horigin, hu, hnext⟩ := h.explored.tree v d hv
      have hparent : s.parent v = some u := by
        cases hp : s.parent v with
        | none =>
            rw [hp] at horigin
            cases horigin
        | some x =>
            rw [hp] at horigin
            exact congrArg some (Prod.mk.inj (Option.some.inj horigin)).1
      have hne : u ≠ v := by
        rintro rfl
        rw [hu] at hv
        exact absurd (Option.some.inj hv) (Nat.ne_of_lt (Nat.lt_succ_self d))
      obtain ⟨nodes, htrail, hlength, ⟨r, hr, hhead⟩, hchain⟩ := ih hu
      refine ⟨nodes ++ [v], .step hparent hne htrail, by simp [hlength], ⟨r, hr, ?_⟩, ?_⟩
      · rw [List.head?_append, hhead, Option.some_or]
      · refine List.isChain_append.2 ⟨hchain, List.IsChain.singleton v, fun a ha b hb => ?_⟩
        rw [htrail.getLast?, Option.mem_some_iff] at ha
        rw [List.head?_singleton, Option.mem_some_iff] at hb
        exact ha ▸ hb ▸ hnext

/-- A chain from a root is a walk. -/
theorem reach_of_chain {r : α} (hr : r ∈ roots) (hhead : nodes.head? = some r)
    (hlast : nodes.getLast? = some v) (hchain : nodes.IsChain fun a b => b ∈ next a) :
    Reach (· ∈ roots) (fun u (_ : Unit) v => v ∈ next u) (nodes.length - 1) v := by
  induction nodes using List.reverseRecOn generalizing v with
  | nil => cases hhead
  | append_singleton init w ih =>
      rw [List.getLast?_append, List.getLast?_singleton, Option.some_or, Option.some.injEq]
        at hlast
      subst hlast
      cases hinit : init.getLast? with
      | none =>
          rw [List.getLast?_eq_none_iff] at hinit
          subst hinit
          cases hhead
          exact .root hr
      | some u =>
          have hnonempty : init ≠ [] := by
            rintro rfl
            cases hinit
          have hpos := List.length_pos_of_ne_nil hnonempty
          rw [List.isChain_append] at hchain
          have hhead' : init.head? = some r := by
            rwa [List.head?_append_of_ne_nil _ hnonempty] at hhead
          have hstep : w ∈ next u := hchain.2.2 u hinit w rfl
          have hreach := (ih hhead' hinit hchain.1).step (e := ()) hstep
          rw [List.length_append, List.length_singleton, Nat.add_sub_cancel]
          rwa [Nat.sub_add_cancel hpos] at hreach

end Trails

end Flood

end Layers
