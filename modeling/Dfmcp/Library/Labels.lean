import Dfmcp.Library.Residual

/-!
# Label-setting search

Dijkstra's search from node `0`, as its labels: the distance and parent of every node reached so
far, and the frontier of nodes not yet settled, in ascending order of distance. The graph enters
only through `W u i`, the target and cost of the `i`-th arc of `u` where it can be used.

`Search W labels settled level done` is the invariant, with the nodes settled so far in the order
they were: every settled distance is at most `level` and every waiting one at least; a settled node
has relaxed its arcs (those that are `done`); and the parent of a labelled node was settled before
it.

* `Search.pop`, `Search.offer`, `Search.skip` — settling the least node, and looking at its arcs;
* `Search.reach` — induction along the tree of parents;
* `Search.settled_of_empty` — an exhausted search has settled every label;
* `Route` — the way back from a node to the source.
-/

namespace Flow

/-- The labels of a search. -/
structure Labels (Γ : Type) where
  distance : ℕ → Option Γ
  parent : ℕ → Option (ℕ × ℕ)
  frontier : List (Γ ×ₗ ℕ)

namespace Labels

variable {Γ : Type} [AddCommMonoid Γ] [LinearOrder Γ]

/-- Only the source is labelled. -/
def start : Labels Γ where
  distance := Function.update (fun _ => none) 0 (some 0)
  parent := fun _ => none
  frontier := [toLex (0, 0)]

/-- Insertion into an ascending list without repetitions. -/
def insertKey (x : Γ ×ₗ ℕ) (l : List (Γ ×ₗ ℕ)) : List (Γ ×ₗ ℕ) :=
  if x ∈ l then l else l.orderedInsert (· ≤ ·) x

/-- Label a node anew, replacing its place in the frontier. -/
def relabel (l : Labels Γ) (next : Γ) (u i v : ℕ) : Labels Γ where
  distance := Function.update l.distance v (some next)
  parent := Function.update l.parent v (some (u, i))
  frontier := insertKey (toLex (next, v)) <| match l.distance v with
    | some prior => l.frontier.erase (toLex (prior, v))
    | none => l.frontier

/-- Label a node if it has no label yet, or a greater one. -/
def offer (l : Labels Γ) (next : Γ) (u i v : ℕ) : Labels Γ :=
  match l.distance v with
  | none => l.relabel next u i v
  | some prior => if next < prior then l.relabel next u i v else l

end Labels

section Search

variable {Γ : Type} [AddCommMonoid Γ] [LinearOrder Γ] [IsOrderedAddMonoid Γ]
  {W : ℕ → ℕ → Option (ℕ × Γ)} {labels : Labels Γ} {settled : List ℕ} {level : Γ}
  {done : ℕ → ℕ → Prop} {u v i : ℕ} {c d : Γ}

/-- What holds of a search at every moment. -/
structure Search (W : ℕ → ℕ → Option (ℕ × Γ)) (labels : Labels Γ) (settled : List ℕ) (level : Γ)
    (done : ℕ → ℕ → Prop) : Prop where
  source : labels.distance 0 = some 0
  nonneg : 0 ≤ level
  nodup : settled.Nodup
  sorted : labels.frontier.Pairwise (· < ·)
  waiting : ∀ d v, toLex (d, v) ∈ labels.frontier ↔ labels.distance v = some d ∧ v ∉ settled
  below : ∀ v ∈ settled, ∃ d, labels.distance v = some d ∧ d ≤ level
  above : ∀ d v, toLex (d, v) ∈ labels.frontier → level ≤ d
  started : ∀ u i, done u i → u ∈ settled
  relaxed : ∀ u i v c d, done u i → W u i = some (v, c) → labels.distance u = some d →
    ∃ d', labels.distance v = some d' ∧ d' ≤ d + c
  tree : ∀ v d, labels.distance v = some d → v ≠ 0 → ∃ u i d' c, labels.parent v = some (u, i) ∧
    u ∈ settled ∧ labels.distance u = some d' ∧ W u i = some (v, c) ∧ d = d' + c ∧
    (v ∈ settled → settled.idxOf u < settled.idxOf v)

omit [IsOrderedAddMonoid Γ] in
/-- The search begins with the source alone. -/
theorem Search.start : Search W Labels.start [] 0 fun _ _ => False where
  source := by simp [Labels.start]
  nonneg := le_rfl
  nodup := List.nodup_nil
  sorted := by simp [Labels.start]
  waiting := by
    intro d v
    simp only [Labels.start, List.mem_singleton, EmbeddingLike.apply_eq_iff_eq, Prod.mk.injEq,
      List.not_mem_nil, not_false_eq_true, and_true]
    by_cases hv : v = 0
    · subst hv
      simp [eq_comm]
    · simp [hv]
  below := by simp
  above := by
    intro d v hmem
    simp only [Labels.start, List.mem_singleton, EmbeddingLike.apply_eq_iff_eq,
      Prod.mk.injEq] at hmem
    exact hmem.1.ge
  started := fun _ _ h => h.elim
  relaxed := fun _ _ _ _ _ h => h.elim
  tree := by
    intro v d hv hne
    simp [Labels.start, Function.update_of_ne hne] at hv

omit [IsOrderedAddMonoid Γ] in
/-- The least waiting node is settled. -/
theorem Search.pop {rest : List (Γ ×ₗ ℕ)} (h : Search W labels settled level done)
    (hfront : labels.frontier = toLex (d, u) :: rest) :
    Search W { labels with frontier := rest } (settled ++ [u]) d done := by
  have hu := (h.waiting d u).mp (by rw [hfront]; exact List.mem_cons_self ..)
  have hlevel : level ≤ d := h.above d u (by rw [hfront]; exact List.mem_cons_self ..)
  have hsorted := h.sorted
  rw [hfront, List.pairwise_cons] at hsorted
  refine ⟨h.source, h.nonneg.trans hlevel, ?_, hsorted.2, ?_, ?_, ?_, ?_, h.relaxed, ?_⟩
  · rw [List.nodup_append]
    refine ⟨h.nodup, List.nodup_singleton u, ?_⟩
    intro a ha b hb hab
    rw [List.mem_singleton] at hb
    exact hu.2 (hb ▸ hab ▸ ha)
  · intro d' v
    have hiff := h.waiting d' v
    rw [hfront, List.mem_cons] at hiff
    simp only [List.mem_append, List.mem_singleton, not_or]
    constructor
    · intro hmem
      have hv := hiff.mp (.inr hmem)
      refine ⟨hv.1, hv.2, ?_⟩
      intro hvu
      subst hvu
      have hd : d' = d := by
        have := hv.1
        rw [hu.1] at this
        exact (Option.some.inj this).symm
      exact absurd (hsorted.1 _ hmem) (by rw [hd]; exact lt_irrefl _)
    · intro hv
      rcases hiff.mpr ⟨hv.1, hv.2.1⟩ with heq | hmem
      · simp only [EmbeddingLike.apply_eq_iff_eq, Prod.mk.injEq] at heq
        exact absurd heq.2 hv.2.2
      · exact hmem
  · intro v hv
    rcases List.mem_append.mp hv with hold | hnew
    · obtain ⟨dv, hdv, hle⟩ := h.below v hold
      exact ⟨dv, hdv, hle.trans hlevel⟩
    · rw [List.mem_singleton] at hnew
      exact ⟨d, hnew ▸ hu.1, le_rfl⟩
  · intro d' v hmem
    have hlt := hsorted.1 _ hmem
    rcases Prod.Lex.lt_iff.mp hlt with hlt | heq
    · exact le_of_lt hlt
    · exact le_of_eq heq.1
  · exact fun x j hdone => List.mem_append_left _ (h.started x j hdone)
  · intro v dv hv hne
    obtain ⟨x, j, dx, c, hparent, hx, hdx, hW, hsum, hbefore⟩ := h.tree v dv hv hne
    refine ⟨x, j, dx, c, hparent, List.mem_append_left _ hx, hdx, hW, hsum, ?_⟩
    intro hmem
    rw [List.idxOf_append_of_mem hx]
    by_cases hold : v ∈ settled
    · rw [List.idxOf_append_of_mem hold]
      exact hbefore hold
    · rw [List.idxOf_append_of_notMem hold]
      exact lt_of_lt_of_le (List.idxOf_lt_length_iff.mpr hx) (Nat.le_add_right _ _)

omit [IsOrderedAddMonoid Γ] in
/-- More arcs count as done once they are relaxed. -/
theorem Search.extend {done' : ℕ → ℕ → Prop} (h : Search W labels settled level done)
    (hstarted : ∀ x j, done' x j → done x j ∨ (x = u ∧ j = i)) (hu : u ∈ settled)
    (hrelaxed : ∀ v c d, W u i = some (v, c) → labels.distance u = some d →
      ∃ d', labels.distance v = some d' ∧ d' ≤ d + c) :
    Search W labels settled level done' :=
  { h with
    started := fun x j hdone => (hstarted x j hdone).elim (h.started x j) fun heq => heq.1 ▸ hu
    relaxed := by
      intro x j v c d hdone
      rcases hstarted x j hdone with hold | ⟨rfl, rfl⟩
      · exact h.relaxed x j v c d hold
      · exact hrelaxed v c d }

omit [IsOrderedAddMonoid Γ] in
/-- What counts as done can be restated, up to arcs that cannot be used. -/
theorem Search.restate {done' : ℕ → ℕ → Prop} (h : Search W labels settled level done)
    (hdone : ∀ x j, done' x j → x ∈ settled ∧ (done x j ∨ W x j = none)) :
    Search W labels settled level done' :=
  { h with
    started := fun x j hx => (hdone x j hx).1
    relaxed := by
      intro x j v c d hx hW
      rcases (hdone x j hx).2 with hold | hnone
      · exact h.relaxed x j v c d hold hW
      · rw [hnone] at hW
        cases hW }

omit [AddCommMonoid Γ] [IsOrderedAddMonoid Γ] in
theorem mem_insertKey {x y : Γ ×ₗ ℕ} {l : List (Γ ×ₗ ℕ)} :
    y ∈ Labels.insertKey x l ↔ y = x ∨ y ∈ l := by
  unfold Labels.insertKey
  by_cases hx : x ∈ l
  · rw [if_pos hx]
    constructor
    · exact .inr
    · rintro (rfl | hy)
      · exact hx
      · exact hy
  · rw [if_neg hx, List.mem_orderedInsert]

omit [AddCommMonoid Γ] [IsOrderedAddMonoid Γ] in
theorem sorted_insertKey {x : Γ ×ₗ ℕ} {l : List (Γ ×ₗ ℕ)} (h : l.Pairwise (· < ·)) :
    (Labels.insertKey x l).Pairwise (· < ·) := by
  unfold Labels.insertKey
  by_cases hx : x ∈ l
  · rwa [if_pos hx]
  · rw [if_neg hx]
    induction l with
    | nil => simp
    | cons y l ih =>
        rw [List.pairwise_cons] at h
        rw [List.mem_cons, not_or] at hx
        by_cases hle : x ≤ y
        · rw [List.orderedInsert_cons_of_le _ _ hle]
          refine List.pairwise_cons.mpr ⟨?_, List.pairwise_cons.mpr h⟩
          intro z hz
          have hxy : x < y := lt_of_le_of_ne hle hx.1
          rcases List.mem_cons.mp hz with rfl | hz
          · exact hxy
          · exact hxy.trans (h.1 z hz)
        · rw [List.orderedInsert_cons, if_neg hle]
          refine List.pairwise_cons.mpr ⟨?_, ih h.2 hx.2⟩
          intro z hz
          rcases (List.mem_orderedInsert _).mp hz with rfl | hz
          · exact not_le.mp hle
          · exact h.1 z hz

omit [IsOrderedAddMonoid Γ] in
/-- The frontier after a node is labelled anew. -/
theorem Search.mem_relabel {next : Γ} (h : Search W labels settled level done) (d' : Γ)
    (x : ℕ) : toLex (d', x) ∈ (labels.relabel next u i v).frontier ↔
      (x = v ∧ d' = next) ∨ (x ≠ v ∧ toLex (d', x) ∈ labels.frontier) := by
  rw [Labels.relabel, mem_insertKey]
  simp only [EmbeddingLike.apply_eq_iff_eq, Prod.mk.injEq]
  cases hprior : labels.distance v with
  | none =>
      have hnone : toLex (d', x) ∈ labels.frontier → x ≠ v := by
        intro hmem hxv
        have := ((h.waiting d' x).mp hmem).1
        rw [hxv, hprior] at this
        cases this
      tauto
  | some prior =>
      have hnodup : labels.frontier.Nodup := h.sorted.imp ne_of_lt
      have hmem : toLex (d', x) ∈ labels.frontier.erase (toLex (prior, v)) ↔
          x ≠ v ∧ toLex (d', x) ∈ labels.frontier := by
        rw [hnodup.mem_erase_iff]
        simp only [ne_eq, EmbeddingLike.apply_eq_iff_eq, Prod.mk.injEq, not_and]
        constructor
        · rintro ⟨hne, hmem⟩
          refine ⟨?_, hmem⟩
          intro hxv
          have := ((h.waiting d' x).mp hmem).1
          rw [hxv, hprior] at this
          exact hne (Option.some.inj this).symm hxv
        · rintro ⟨hne, hmem⟩
          exact ⟨fun _ => hne, hmem⟩
      rw [hmem]
      tauto

/-- A better label keeps the invariant. -/
theorem Search.relabel (h : Search W labels settled d done) (hu : u ∈ settled)
    (hdu : labels.distance u = some d) (hW : W u i = some (v, c)) (hc : 0 ≤ c)
    (hbetter : ∀ prior, labels.distance v = some prior → d + c < prior) :
    Search W (labels.relabel (d + c) u i v) settled d done := by
  have hd : d ≤ d + c := le_add_of_nonneg_right hc
  have hv : v ∉ settled := by
    intro hmem
    obtain ⟨dv, hdv, hle⟩ := h.below v hmem
    exact absurd (hle.trans hd) (not_le.mpr (hbetter dv hdv))
  have hne : v ≠ 0 := by
    intro hzero
    have := hbetter 0 (hzero ▸ h.source)
    exact absurd (h.nonneg.trans hd) (not_le.mpr this)
  have hother : ∀ x ∈ settled, (labels.relabel (d + c) u i v).distance x = labels.distance x := by
    intro x hx
    have hxv : x ≠ v := fun heq => hv (heq ▸ hx)
    simp [Labels.relabel, Function.update_of_ne hxv]
  have hself : (labels.relabel (d + c) u i v).distance v = some (d + c) := by
    simp [Labels.relabel]
  refine ⟨?_, h.nonneg, h.nodup, ?_, ?_, ?_, ?_, h.started, ?_, ?_⟩
  · simp only [Labels.relabel, Function.update_of_ne hne.symm]
    exact h.source
  · apply sorted_insertKey
    cases labels.distance v with
    | none => exact h.sorted
    | some prior => exact h.sorted.sublist List.erase_sublist
  · intro d' x
    rw [h.mem_relabel]
    by_cases hxv : x = v
    · subst hxv
      simp only [true_and, ne_eq, not_true_eq_false, false_and, or_false, hself,
        Option.some.injEq]
      exact ⟨fun heq => ⟨heq.symm, hv⟩, fun heq => heq.1.symm⟩
    · simp only [hxv, false_and, ne_eq, not_false_eq_true, true_and, false_or, Labels.relabel,
        Function.update_of_ne hxv]
      exact h.waiting d' x
  · intro x hx
    rw [hother x hx]
    exact h.below x hx
  · intro d' x hmem
    rw [h.mem_relabel] at hmem
    rcases hmem with ⟨-, rfl⟩ | ⟨-, hmem⟩
    · exact hd
    · exact h.above d' x hmem
  · intro x j y c' dx hdone hWx hdx
    rw [hother x (h.started x j hdone)] at hdx
    obtain ⟨dy, hdy, hle⟩ := h.relaxed x j y c' dx hdone hWx hdx
    by_cases hyv : y = v
    · subst hyv
      exact ⟨d + c, hself, (hbetter dy hdy).le.trans hle⟩
    · refine ⟨dy, ?_, hle⟩
      simpa [Labels.relabel, Function.update_of_ne hyv] using hdy
  · intro y dy hdy hy
    by_cases hyv : y = v
    · subst hyv
      rw [hself, Option.some.injEq] at hdy
      refine ⟨u, i, d, c, by simp [Labels.relabel], hu, ?_, hW, hdy.symm, fun hmem =>
        absurd hmem hv⟩
      rw [hother u hu, hdu]
    · rw [show (labels.relabel (d + c) u i v).distance y = labels.distance y by
        simp [Labels.relabel, Function.update_of_ne hyv]] at hdy
      obtain ⟨x, j, dx, c', hparent, hx, hdx, hWx, hsum, hbefore⟩ := h.tree y dy hdy hy
      refine ⟨x, j, dx, c', ?_, hx, ?_, hWx, hsum, hbefore⟩
      · simpa [Labels.relabel, Function.update_of_ne hyv] using hparent
      · rw [hother x hx, hdx]

/-- Looking at an arc of the node just settled. -/
theorem Search.offer {done' : ℕ → ℕ → Prop} (h : Search W labels settled d done)
    (hu : u ∈ settled) (hdu : labels.distance u = some d) (hW : W u i = some (v, c)) (hc : 0 ≤ c)
    (hdone : ∀ x j, done' x j → done x j ∨ (x = u ∧ j = i)) :
    Search W (labels.offer (d + c) u i v) settled d done' ∧
      (labels.offer (d + c) u i v).distance u = some d := by
  have hnew : (∀ prior, labels.distance v = some prior → d + c < prior) →
      Search W (labels.relabel (d + c) u i v) settled d done' ∧
        (labels.relabel (d + c) u i v).distance u = some d := by
    intro hbetter
    have hkept := h.relabel hu hdu hW hc hbetter
    obtain ⟨du, hdu', hle⟩ := hkept.below u hu
    have huv : u ≠ v := by
      intro heq
      exact absurd (le_add_of_nonneg_right hc) (not_le.mpr (hbetter d (heq ▸ hdu)))
    have hsame : (labels.relabel (d + c) u i v).distance u = some d := by
      simp [Labels.relabel, Function.update_of_ne huv, hdu]
    refine ⟨hkept.extend hdone hu ?_, hsame⟩
    intro y c' d' hWy hd'
    rw [hW, Option.some.injEq, Prod.mk.injEq] at hWy
    rw [hsame, Option.some.injEq] at hd'
    refine ⟨d + c, ?_, by rw [hd', hWy.2]⟩
    rw [← hWy.1]
    simp [Labels.relabel]
  unfold Labels.offer
  cases hprior : labels.distance v with
  | none => exact hnew fun prior heq => by rw [hprior] at heq; cases heq
  | some prior =>
      dsimp only
      by_cases hlt : d + c < prior
      · rw [if_pos hlt]
        refine hnew fun p heq => ?_
        rw [hprior, Option.some.injEq] at heq
        exact heq ▸ hlt
      · rw [if_neg hlt]
        refine ⟨h.extend hdone hu ?_, hdu⟩
        intro y c' d' hWy hd'
        rw [hW, Option.some.injEq, Prod.mk.injEq] at hWy
        rw [hdu, Option.some.injEq] at hd'
        exact ⟨prior, hWy.1 ▸ hprior, by rw [← hd', ← hWy.2]; exact not_lt.mp hlt⟩

omit [IsOrderedAddMonoid Γ] in
/-- An arc that cannot be used. -/
theorem Search.skip {done' : ℕ → ℕ → Prop} (h : Search W labels settled level done)
    (hu : u ∈ settled) (hW : W u i = none)
    (hdone : ∀ x j, done' x j → done x j ∨ (x = u ∧ j = i)) :
    Search W labels settled level done' :=
  h.extend hdone hu fun v c d heq => by rw [hW] at heq; cases heq

omit [IsOrderedAddMonoid Γ] in
/-- An exhausted search has settled every label. -/
theorem Search.settled_of_empty (h : Search W labels settled level done)
    (hempty : labels.frontier = []) (hv : labels.distance v = some d) : v ∈ settled := by
  by_contra hmem
  have := (h.waiting d v).mpr ⟨hv, hmem⟩
  rw [hempty] at this
  cases this

omit [IsOrderedAddMonoid Γ] in
/-- **Induction along the tree of parents**, counting its arcs. -/
theorem Search.reach {Φ : ℕ → Γ → ℕ → Prop} (h : Search W labels settled level done)
    (hsource : Φ 0 0 0) (hmono : ∀ v d n m, n ≤ m → Φ v d n → Φ v d m)
    (hstep : ∀ u i v c d n, W u i = some (v, c) → labels.distance u = some d → Φ u d n →
      Φ v (d + c) (n + 1))
    (hv : labels.distance v = some d) : Φ v d (settled.idxOf v) := by
  induction hn : settled.idxOf v using Nat.strong_induction_on generalizing v d with
  | _ n ih =>
      subst hn
      by_cases hzero : v = 0
      · subst hzero
        rw [h.source, Option.some.injEq] at hv
        exact hv ▸ hmono 0 0 0 _ (Nat.zero_le _) hsource
      · obtain ⟨u, i, du, c, -, hu, hdu, hW, hsum, hbefore⟩ := h.tree v d hv hzero
        have hlt : settled.idxOf u < settled.idxOf v := by
          by_cases hmem : v ∈ settled
          · exact hbefore hmem
          · rw [List.idxOf_eq_length hmem]
            exact List.idxOf_lt_length_iff.mpr hu
        rw [hsum]
        exact hmono v _ _ _ hlt (hstep u i v c du _ hW hdu (ih _ hlt hdu rfl))

omit [IsOrderedAddMonoid Γ] in
theorem Search.length_le (h : Search W labels settled level done) {n : ℕ} (hpos : 0 < n)
    (hbound : ∀ u i v c, W u i = some (v, c) → v < n) : settled.length ≤ n := by
  have hsub : settled ⊆ List.range n := by
    intro v hv
    obtain ⟨d, hd, -⟩ := h.below v hv
    rw [List.mem_range]
    by_cases hzero : v = 0
    · exact hzero ▸ hpos
    · obtain ⟨u, i, -, c, -, -, -, hW, -⟩ := h.tree v d hd hzero
      exact hbound u i v c hW
  simpa using (h.nodup.subperm hsub).length_le

end Search

/-! ## The way back -/

section Route

variable {ρ : Type} {g g' : Graph ρ} {parent : ℕ → Option (ℕ × ℕ)} {rank : ℕ → ℕ}
  {ok ok' : ℕ → Edge ρ → Prop} {v : ℕ}

/-- The parents of a node lead to the source, nearer at each step, along arcs that are `ok`. -/
inductive Route (g : Graph ρ) (parent : ℕ → Option (ℕ × ℕ)) (rank : ℕ → ℕ)
    (ok : ℕ → Edge ρ → Prop) : ℕ → Prop
  | source : Route g parent rank ok 0
  | step {u v i : ℕ} {e : Edge ρ} (hv : v ≠ 0) (hparent : parent v = some (u, i))
      (hentry : (g.edges u)[i]? = some e) (htarget : e.target = v) (hok : ok u e)
      (hrank : rank u < rank v) (rest : Route g parent rank ok u) : Route g parent rank ok v

/-- A route reads only the lists of the nodes before its end. -/
theorem Route.transfer (h : Route g parent rank ok v)
    (heq : ∀ u, rank u < rank v → g'.edges u = g.edges u) : Route g' parent rank ok v := by
  induction h with
  | source => exact .source
  | @step u v i e hv hparent hentry htarget hok hrank _ ih =>
      have hrest := ih fun w hw => heq w (hw.trans hrank)
      exact .step hv hparent (by rw [heq u hrank]; exact hentry) htarget hok hrank hrest

/-- The parents of a labelled node are a route, in the order in which nodes were settled. -/
theorem Search.route {Γ : Type} [AddCommMonoid Γ] [LinearOrder Γ]
    {W : ℕ → ℕ → Option (ℕ × Γ)} {labels : Labels Γ} {settled : List ℕ} {level d : Γ}
    {done : ℕ → ℕ → Prop} (h : Search W labels settled level done)
    (hentry : ∀ u i v c d, W u i = some (v, c) → labels.distance u = some d →
      labels.distance v = some (d + c) →
      ∃ e, (g.edges u)[i]? = some e ∧ e.target = v ∧ ok u e)
    (hv : labels.distance v = some d) : Route g labels.parent settled.idxOf ok v := by
  induction hn : settled.idxOf v using Nat.strong_induction_on generalizing v d with
  | _ n ih =>
      subst hn
      by_cases hzero : v = 0
      · subst hzero
        exact .source
      · obtain ⟨u, i, du, c, hparent, hu, hdu, hW, hsum, hbefore⟩ := h.tree v d hv hzero
        have hlt : settled.idxOf u < settled.idxOf v := by
          by_cases hmem : v ∈ settled
          · exact hbefore hmem
          · rw [List.idxOf_eq_length hmem]
            exact List.idxOf_lt_length_iff.mpr hu
        obtain ⟨e, he, htarget, hok⟩ := hentry u i v c du hW hdu (by rw [hv, hsum])
        exact .step hzero hparent he htarget hok hlt (ih _ hlt hdu rfl)

/-- The rest of a route after an amount was moved along its last arc. -/
theorem Route.push {u i j n : ℕ} (h : Route g parent rank ok u) (hrank : rank u < rank v) :
    Route (g.push u i v j n) parent rank ok u := by
  apply h.transfer
  intro w hw
  apply Graph.edges_push_of_ne
  · intro heq
    exact absurd hw (by rw [heq]; exact lt_irrefl _)
  · intro heq
    exact absurd (hw.trans hrank) (by rw [heq]; exact lt_irrefl _)

end Route

end Flow
