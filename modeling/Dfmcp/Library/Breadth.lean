import Dfmcp.Library.Labels

/-!
# Breadth-first search

The search from node `0`, as its parents and its queue. `Explored W parent visited queue done` is the
invariant: the nodes found so far are those that were visited and those that wait, each found once;
a visited node has looked at its arcs (those that are `done`); and the parent of a node was visited
before it.

* `Explored.pop`, `Explored.offer`, `Explored.skip` — visiting a node, and looking at its arcs;
* `Explored.route` — the parents of a node that was found lead to the source;
* `Graph.step` — the arcs of a residual graph a search can use, and when a set that no arc leaves is
  closed (`Represents.closed`).
-/

namespace Flow

section Explored

variable {W : ℕ → ℕ → Option ℕ} {parent : ℕ → Option (ℕ × ℕ)} {visited queue : List ℕ}
  {done done' : ℕ → ℕ → Prop} {u v i : ℕ}

/-- What holds of a search at every moment. -/
structure Explored (W : ℕ → ℕ → Option ℕ) (parent : ℕ → Option (ℕ × ℕ)) (visited queue : List ℕ)
    (done : ℕ → ℕ → Prop) : Prop where
  nodup : (visited ++ queue).Nodup
  source : parent 0 ≠ none
  found : ∀ v, parent v ≠ none ↔ v ∈ visited ++ queue
  started : ∀ u i, done u i → u ∈ visited
  closed : ∀ u i v, done u i → W u i = some v → parent v ≠ none
  tree : ∀ v, parent v ≠ none → v ≠ 0 → ∃ u i, parent v = some (u, i) ∧ u ∈ visited ∧
    W u i = some v ∧ (visited ++ queue).idxOf u < (visited ++ queue).idxOf v

/-- The search begins with the source waiting. -/
theorem Explored.start (mark : ℕ × ℕ) :
    Explored W (Function.update (fun _ => none) 0 (some mark)) [] [0] fun _ _ => False where
  nodup := List.nodup_singleton 0
  source := by simp
  found := by
    intro v
    by_cases hv : v = 0
    · subst hv
      simp
    · simp [hv]
  started := fun _ _ h => h.elim
  closed := fun _ _ _ h => h.elim
  tree := by
    intro v hv hne
    rw [Function.update_of_ne hne] at hv
    exact absurd rfl hv

/-- The first node that waits is visited. -/
theorem Explored.pop (h : Explored W parent visited (u :: queue) done) :
    Explored W parent (visited ++ [u]) queue done := by
  have hlist : visited ++ [u] ++ queue = visited ++ u :: queue := by simp
  refine ⟨hlist ▸ h.nodup, h.source, fun v => hlist ▸ h.found v, ?_, h.closed, ?_⟩
  · exact fun x j hx => List.mem_append_left _ (h.started x j hx)
  · intro v hv hne
    obtain ⟨x, j, hparent, hx, hW, hlt⟩ := h.tree v hv hne
    exact ⟨x, j, hparent, List.mem_append_left _ hx, hW, by rwa [hlist]⟩

/-- What counts as done can be restated, up to arcs that cannot be used. -/
theorem Explored.restate (h : Explored W parent visited queue done)
    (hdone : ∀ x j, done' x j → x ∈ visited ∧ (done x j ∨ W x j = none)) :
    Explored W parent visited queue done' :=
  { h with
    started := fun x j hx => (hdone x j hx).1
    closed := by
      intro x j v hx hW
      rcases (hdone x j hx).2 with hold | hnone
      · exact h.closed x j v hold hW
      · rw [hnone] at hW
        cases hW }

/-- An arc that cannot be used, or that leads to a node already found. -/
theorem Explored.skip (h : Explored W parent visited queue done) (hu : u ∈ visited)
    (hW : ∀ v, W u i = some v → parent v ≠ none)
    (hdone : ∀ x j, done' x j → done x j ∨ (x = u ∧ j = i)) :
    Explored W parent visited queue done' :=
  { h with
    started := fun x j hx => (hdone x j hx).elim (h.started x j) fun heq => heq.1 ▸ hu
    closed := by
      intro x j v hx
      rcases hdone x j hx with hold | ⟨rfl, rfl⟩
      · exact h.closed x j v hold
      · exact hW v }

/-- An arc to a node that was not found before. -/
theorem Explored.offer (h : Explored W parent visited queue done) (hu : u ∈ visited)
    (hW : W u i = some v) (hv : parent v = none)
    (hdone : ∀ x j, done' x j → done x j ∨ (x = u ∧ j = i)) :
    Explored W (Function.update parent v (some (u, i))) visited (queue ++ [v]) done' := by
  have hlist : visited ++ (queue ++ [v]) = visited ++ queue ++ [v] := by simp
  have hnew : v ∉ visited ++ queue := fun hmem => (h.found v).mpr hmem hv
  have hsome : ∀ x, parent x ≠ none → Function.update parent v (some (u, i)) x ≠ none := by
    intro x hx
    by_cases hxv : x = v
    · subst hxv
      simp
    · rwa [Function.update_of_ne hxv]
  refine ⟨?_, hsome 0 h.source, ?_, ?_, ?_, ?_⟩
  · rw [hlist, List.nodup_append]
    refine ⟨h.nodup, List.nodup_singleton v, ?_⟩
    intro a ha b hb hab
    rw [List.mem_singleton] at hb
    exact hnew (hb ▸ hab ▸ ha)
  · intro x
    rw [hlist, List.mem_append, List.mem_singleton]
    by_cases hxv : x = v
    · subst hxv
      simp
    · rw [Function.update_of_ne hxv, h.found x]
      simp [hxv]
  · intro x j hx
    rcases hdone x j hx with hold | ⟨rfl, -⟩
    · exact h.started x j hold
    · exact hu
  · intro x j y hx hWx
    rcases hdone x j hx with hold | ⟨rfl, rfl⟩
    · exact hsome y (h.closed x j y hold hWx)
    · rw [hW, Option.some.injEq] at hWx
      subst hWx
      simp
  · intro x hx hne
    rw [hlist]
    by_cases hxv : x = v
    · subst hxv
      have hmem : u ∈ visited ++ queue := List.mem_append_left _ hu
      refine ⟨u, i, by simp, hu, hW, ?_⟩
      rw [List.idxOf_append_of_mem hmem, List.idxOf_append_of_notMem hnew]
      exact lt_of_lt_of_le (List.idxOf_lt_length_iff.mpr hmem) (Nat.le_add_right _ _)
    · rw [Function.update_of_ne hxv] at hx ⊢
      obtain ⟨y, j, hparent, hy, hWy, hlt⟩ := h.tree x hx hne
      refine ⟨y, j, hparent, hy, hWy, ?_⟩
      rwa [List.idxOf_append_of_mem (List.mem_append_left _ hy),
        List.idxOf_append_of_mem ((h.found x).mp hx)]

theorem Explored.length_le (h : Explored W parent visited queue done) {n : ℕ} (hpos : 0 < n)
    (hbound : ∀ u i v, W u i = some v → v < n) : (visited ++ queue).length ≤ n := by
  have hsub : visited ++ queue ⊆ List.range n := by
    intro v hv
    rw [List.mem_range]
    by_cases hzero : v = 0
    · exact hzero ▸ hpos
    · obtain ⟨u, i, -, -, hW, -⟩ := h.tree v ((h.found v).mpr hv) hzero
      exact hbound u i v hW
  simpa using (h.nodup.subperm hsub).length_le

/-- The parents of a node that was found are a route, in the order of finding. -/
theorem Explored.route {ρ : Type} {g : Graph ρ} {ok : ℕ → Edge ρ → Prop}
    (h : Explored W parent visited queue done)
    (hentry : ∀ u i v, W u i = some v → ∃ e, (g.edges u)[i]? = some e ∧ e.target = v ∧ ok u e)
    (hv : parent v ≠ none) : Route g parent (visited ++ queue).idxOf ok v := by
  induction hn : (visited ++ queue).idxOf v using Nat.strong_induction_on generalizing v with
  | _ n ih =>
      subst hn
      by_cases hzero : v = 0
      · subst hzero
        exact .source
      · obtain ⟨u, i, hparent, hu, hW, hlt⟩ := h.tree v hv hzero
        obtain ⟨e, he, htarget, hok⟩ := hentry u i v hW
        have hfound := (h.found u).mpr (List.mem_append_left _ hu)
        exact .step hzero hparent he htarget hok hlt (ih _ hlt hfound rfl)

end Explored

/-! ## Searching a residual graph -/

section Step

variable {Γ ρ : Type} {fwd bwd : Arc Γ → ρ} {g : Graph ρ} {A : List (Arc Γ)} {f : ℕ → ℕ → ℕ}
  {u v i : ℕ}

/-- Where an entry leads that something can still be pushed through. -/
def Graph.step (g : Graph ρ) (u i : ℕ) : Option ℕ :=
  match (g.edges u)[i]? with
  | none => none
  | some e => if 0 < e.remaining then some e.target else none

theorem Graph.step_some (h : g.step u i = some v) :
    ∃ e, (g.edges u)[i]? = some e ∧ e.target = v ∧ 0 < e.remaining := by
  unfold step at h
  cases hentry : (g.edges u)[i]? with
  | none =>
      rw [hentry] at h
      cases h
  | some e =>
      rw [hentry] at h
      dsimp only at h
      split_ifs at h with hroom
      exact ⟨e, rfl, Option.some.inj h, hroom⟩

theorem Graph.step_eq {e : Edge ρ} (h : (g.edges u)[i]? = some e) :
    g.step u i = if 0 < e.remaining then some e.target else none := by
  rw [step, h]

theorem Represents.step_lt (h : Represents fwd bwd g A f) {n : ℕ}
    (hbound : ∀ a ∈ A, a.tail < n ∧ a.head < n) (hstep : g.step u i = some v) : v < n := by
  obtain ⟨e, hentry, rfl, -⟩ := Graph.step_some hstep
  rcases h.entry hentry with ⟨a, ha, -, hhead, -⟩ | ⟨a, ha, -, htail, -⟩
  · exact hhead ▸ (hbound a ha).2
  · exact htail ▸ (hbound a ha).1

/-- A set that no step leaves is closed. -/
theorem Represents.closed (h : Represents fwd bwd g A f) (hproper : ∀ a ∈ A, a.tail ≠ a.head)
    {S : ℕ → Bool} (hS : ∀ u i v, g.step u i = some v → S u → S v) : Closed A f S := by
  intro a ha
  constructor
  · intro hroom
    obtain ⟨i, e, hentry, htarget, hremaining, -⟩ := h.forward ha
    refine hS a.tail i a.head ?_
    rw [Graph.step_eq hentry, if_pos (by omega), htarget]
  · intro hused
    obtain ⟨i, e, hentry, htarget, hremaining, -⟩ := h.backward ha (hproper a ha)
    refine hS a.head i a.tail ?_
    rw [Graph.step_eq hentry, if_pos (by omega), htarget]

end Step

end Flow
