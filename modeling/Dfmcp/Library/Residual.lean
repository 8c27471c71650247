import Dfmcp.Library.Flow

/-!
# Residual graphs

The working form of a flow: adjacency lists in which every arc appears twice, once at each end, each
copy naming the place of the other and holding what can still be pushed through it in its direction.
`Represents fwd bwd g A f` says that the lists `g` are those of the arcs `A` under the flow `f`,
where the copies of an arc carry the marks `fwd a` and `bwd a`.

* `Represents.link` — adding an arc;
* `Represents.lookup`, `Represents.forward`, `Represents.backward` — an entry of a list is a copy of
  an arc, and both copies of every arc are entries;
* `Represents.sum_edges` — a sum over all entries, arc by arc;
* `Represents.push` — moving an amount along an entry is moving it along its arc.
-/

namespace Flow

/-- One copy of an arc, in the list of the node it leaves. -/
structure Edge (ρ : Type) where
  target : ℕ
  reverse : ℕ
  remaining : ℕ
  mark : ρ
deriving DecidableEq

/-- Adjacency lists of the nodes below `size`. -/
structure Graph (ρ : Type) where
  size : ℕ
  edges : ℕ → List (Edge ρ)

namespace Graph

variable {ρ : Type}

/-- A graph without arcs. -/
def empty (ρ : Type) (size : ℕ) : Graph ρ := ⟨size, fun _ => []⟩

/-- Append an entry to the list of a node. -/
def append (g : Graph ρ) (u : ℕ) (e : Edge ρ) : Graph ρ :=
  { g with edges := Function.update g.edges u (g.edges u ++ [e]) }

/-- Append both copies of an arc. -/
def link (g : Graph ρ) (u v capacity : ℕ) (mark back : ρ) : Graph ρ :=
  (g.append u ⟨v, (g.edges v).length, capacity, mark⟩).append v ⟨u, (g.edges u).length, 0, back⟩

/-- Change an entry. -/
def modify (g : Graph ρ) (u i : ℕ) (change : Edge ρ → Edge ρ) : Graph ρ :=
  { g with edges := Function.update g.edges u ((g.edges u).modify i change) }

/-- Move an amount from the entry `i` of node `u` to the entry `j` of node `v`. -/
def push (g : Graph ρ) (u i v j amount : ℕ) : Graph ρ :=
  (g.modify u i fun e => { e with remaining := e.remaining - amount }).modify v j
    fun e => { e with remaining := e.remaining + amount }

theorem edges_push_of_ne (g : Graph ρ) {u i v j amount w : ℕ} (hu : w ≠ u) (hv : w ≠ v) :
    (g.push u i v j amount).edges w = g.edges w := by
  simp [push, modify, Function.update_of_ne hu, Function.update_of_ne hv]

end Graph

section Layout

variable {Γ ρ : Type} (fwd bwd : Arc Γ → ρ)

/-- The number of arcs that meet a node. -/
def degree (A : List (Arc Γ)) (u : ℕ) : ℕ := A.countP fun a => a.tail = u ∨ a.head = u

/-- The copy of an arc at a node, after the arcs `pre`. -/
def copyAt (f : ℕ → ℕ → ℕ) (pre : List (Arc Γ)) (a : Arc Γ) (u : ℕ) : Option (Edge ρ) :=
  if a.tail = u then some ⟨a.head, degree pre a.head, a.capacity - on f a, fwd a⟩
  else if a.head = u then some ⟨a.tail, degree pre a.tail, on f a, bwd a⟩
  else none

/-- The list of a node: the copies there of arcs added after `pre`. -/
def layout (f : ℕ → ℕ → ℕ) : List (Arc Γ) → List (Arc Γ) → ℕ → List (Edge ρ)
  | _, [], _ => []
  | pre, a :: rest, u => (copyAt fwd bwd f pre a u).toList ++ layout f (pre ++ [a]) rest u

/-- The adjacency lists of the arcs under a flow. -/
def Represents (g : Graph ρ) (A : List (Arc Γ)) (f : ℕ → ℕ → ℕ) : Prop :=
  ∀ u, g.edges u = layout fwd bwd f [] A u

variable {fwd bwd} {A P Q pre : List (Arc Γ)} {f f' : ℕ → ℕ → ℕ} {a : Arc Γ} {u v i : ℕ}
  {g : Graph ρ} {e : Edge ρ}

theorem degree_append (A B : List (Arc Γ)) (u : ℕ) : degree (A ++ B) u = degree A u + degree B u :=
  List.countP_append

theorem degree_singleton (a : Arc Γ) (u : ℕ) :
    degree [a] u = (copyAt fwd bwd f pre a u).toList.length := by
  unfold copyAt
  split_ifs with ht hh
  · simp [degree, ht]
  · simp [degree, hh]
  · simp [degree, ht, hh]

theorem layout_append (f : ℕ → ℕ → ℕ) (pre A B : List (Arc Γ)) (u : ℕ) :
    layout fwd bwd f pre (A ++ B) u =
      layout fwd bwd f pre A u ++ layout fwd bwd f (pre ++ A) B u := by
  induction A generalizing pre with
  | nil => simp [layout]
  | cons a A ih => simp [layout, ih]

theorem length_layout (f : ℕ → ℕ → ℕ) (pre A : List (Arc Γ)) (u : ℕ) :
    (layout fwd bwd f pre A u).length = degree A u := by
  induction A generalizing pre with
  | nil => rfl
  | cons a A ih =>
      rw [layout, List.length_append, ih, ← List.singleton_append, degree_append,
        @degree_singleton _ _ fwd bwd pre f a]

theorem layout_congr (pre : List (Arc Γ)) (h : ∀ a ∈ A, on f' a = on f a) (u : ℕ) :
    layout fwd bwd f' pre A u = layout fwd bwd f pre A u := by
  induction A generalizing pre with
  | nil => rfl
  | cons a A ih =>
      have ha := h a (List.mem_cons_self ..)
      rw [layout, layout, ih _ fun b hb => h b (List.mem_cons_of_mem _ hb), copyAt, copyAt, ha]

/-- One arc singled out of a list. -/
theorem layout_split (f : ℕ → ℕ → ℕ) (P Q : List (Arc Γ)) (a : Arc Γ) (u : ℕ) :
    layout fwd bwd f [] (P ++ a :: Q) u =
      layout fwd bwd f [] P u ++ ((copyAt fwd bwd f P a u).toList ++
        layout fwd bwd f (P ++ [a]) Q u) := by
  rw [layout_append, List.nil_append, layout]

/-! ## Building -/

theorem represents_empty (size : ℕ) : Represents fwd bwd (Graph.empty ρ size) [] f := fun _ => rfl

theorem Represents.length (h : Represents fwd bwd g A f) (u : ℕ) :
    (g.edges u).length = degree A u := by
  rw [h u, length_layout]

theorem Represents.link (h : Represents fwd bwd g A f) (hne : a.tail ≠ a.head) (ha : on f a = 0) :
    Represents fwd bwd (g.link a.tail a.head a.capacity (fwd a) (bwd a)) (A ++ [a]) f := by
  intro u
  have hedges : ∀ u, layout fwd bwd f [] (A ++ [a]) u =
      g.edges u ++ (copyAt fwd bwd f A a u).toList := fun u => by
    rw [layout_split, layout, List.append_nil, h u]
  rw [hedges, copyAt, ← h.length, ← h.length, ha, Nat.sub_zero]
  simp only [Graph.link, Graph.append]
  by_cases hh : a.head = u
  · subst hh
    rw [if_neg hne, if_pos rfl, Function.update_self, Function.update_of_ne hne.symm]
    rfl
  · rw [Function.update_of_ne (Ne.symm hh), if_neg hh]
    by_cases ht : a.tail = u
    · subst ht
      rw [if_pos rfl, Function.update_self]
      rfl
    · rw [if_neg ht, Function.update_of_ne (Ne.symm ht)]
      simp

/-! ## Reading -/

theorem Represents.lookup (h : Represents fwd bwd g A f) (hi : (g.edges u)[i]? = some e) :
    ∃ P a Q, A = P ++ a :: Q ∧ i = degree P u ∧ copyAt fwd bwd f P a u = some e := by
  rw [h u] at hi
  clear h
  induction A using List.reverseRecOn with
  | nil => simp [layout] at hi
  | append_singleton A a ih =>
      rw [layout_split, layout, List.append_nil, List.getElem?_append, length_layout] at hi
      by_cases hlt : i < degree A u
      · rw [if_pos hlt] at hi
        obtain ⟨P, b, Q, rfl, hdeg, hb⟩ := ih hi
        exact ⟨P, b, Q ++ [a], by simp, hdeg, hb⟩
      · rw [if_neg hlt] at hi
        cases hcopy : copyAt fwd bwd f A a u with
        | none => simp [hcopy] at hi
        | some e' =>
            rw [hcopy, Option.toList_some, List.getElem?_singleton] at hi
            have hzero : i - degree A u = 0 := by
              by_contra hne
              simp [hne] at hi
            rw [if_pos hzero, Option.some.injEq] at hi
            exact ⟨A, a, [], rfl, by omega, by rw [hcopy, hi]⟩

theorem Represents.at_split (h : Represents fwd bwd g (P ++ a :: Q) f)
    (ha : copyAt fwd bwd f P a u = some e) : (g.edges u)[degree P u]? = some e := by
  rw [h u, layout_split, List.getElem?_append_right (by rw [length_layout]), length_layout,
    Nat.sub_self, ha]
  rfl

/-- The copy of an arc at its tail is an entry. -/
theorem Represents.forward (h : Represents fwd bwd g A f) (ha : a ∈ A) :
    ∃ (i : ℕ) (e : Edge ρ), (g.edges a.tail)[i]? = some e ∧ e.target = a.head ∧ e.remaining = a.capacity - on f a ∧
      e.mark = fwd a := by
  obtain ⟨P, Q, rfl⟩ := List.append_of_mem ha
  exact ⟨_, _, h.at_split (by rw [copyAt, if_pos rfl]), rfl, rfl, rfl⟩

/-- The copy of an arc at its head is an entry. -/
theorem Represents.backward (h : Represents fwd bwd g A f) (ha : a ∈ A) (hne : a.tail ≠ a.head) :
    ∃ (i : ℕ) (e : Edge ρ), (g.edges a.head)[i]? = some e ∧ e.target = a.tail ∧ e.remaining = on f a ∧
      e.mark = bwd a := by
  obtain ⟨P, Q, rfl⟩ := List.append_of_mem ha
  exact ⟨_, _, h.at_split (by rw [copyAt, if_neg hne, if_pos rfl]), rfl, rfl, rfl⟩

/-- What an entry of a list is: one of the two copies of an arc. -/
theorem Represents.entry (h : Represents fwd bwd g A f) (hi : (g.edges u)[i]? = some e) :
    (∃ a ∈ A, a.tail = u ∧ a.head = e.target ∧ e.remaining = a.capacity - on f a ∧
      e.mark = fwd a) ∨
    (∃ a ∈ A, a.head = u ∧ a.tail = e.target ∧ e.remaining = on f a ∧ e.mark = bwd a) := by
  obtain ⟨P, a, Q, rfl, -, hcopy⟩ := h.lookup hi
  have ha : a ∈ P ++ a :: Q := by simp
  unfold copyAt at hcopy
  split_ifs at hcopy with ht hh
  · cases hcopy
    exact .inl ⟨a, ha, ht, rfl, rfl, rfl⟩
  · cases hcopy
    exact .inr ⟨a, ha, hh, rfl, rfl, rfl⟩

/-- The place an entry names holds the other copy of its arc. -/
theorem Represents.other (h : Represents fwd bwd g A f) (hproper : ∀ a ∈ A, a.tail ≠ a.head)
    (hcap : ∀ a ∈ A, on f a ≤ a.capacity) (hi : (g.edges u)[i]? = some e) :
    ∃ e', (g.edges e.target)[e.reverse]? = some e' ∧
      ∃ a ∈ A, e.remaining + e'.remaining = a.capacity := by
  obtain ⟨P, a, Q, rfl, -, hcopy⟩ := h.lookup hi
  have ha : a ∈ P ++ a :: Q := by simp
  have hle := hcap a ha
  unfold copyAt at hcopy
  split_ifs at hcopy with ht hh
  · cases hcopy
    refine ⟨_, h.at_split (by rw [copyAt, if_neg (hproper a ha), if_pos rfl]), a, ha, ?_⟩
    dsimp only
    omega
  · cases hcopy
    refine ⟨_, h.at_split (by rw [copyAt, if_pos rfl]), a, ha, ?_⟩
    dsimp only
    omega

/-! ## Summing over the entries -/

theorem sum_layout {M : Type} [AddCommMonoid M] (φ : ℕ → ℕ → ρ → M) (pre : List (Arc Γ)) {n : ℕ}
    (hbound : ∀ a ∈ A, a.tail < n ∧ a.head < n) (hproper : ∀ a ∈ A, a.tail ≠ a.head) :
    ∑ u ∈ Finset.range n, ((layout fwd bwd f pre A u).map fun e => φ u e.target e.mark).sum =
      (A.map fun a => φ a.tail a.head (fwd a) + φ a.head a.tail (bwd a)).sum := by
  induction A generalizing pre with
  | nil => simp [layout]
  | cons a A ih =>
      obtain ⟨htail, hhead⟩ := hbound a (List.mem_cons_self ..)
      have hne := hproper a (List.mem_cons_self ..)
      have hcopy : ∀ u, ((copyAt fwd bwd f pre a u).toList.map fun e =>
          φ u e.target e.mark).sum = (if a.tail = u then φ a.tail a.head (fwd a) else 0) +
            if a.head = u then φ a.head a.tail (bwd a) else 0 := by
        intro u
        unfold copyAt
        by_cases ht : a.tail = u
        · subst ht
          simp [hne.symm]
        · by_cases hh : a.head = u
          · subst hh
            simp [hne]
          · simp [ht, hh]
      simp only [layout, List.map_append, List.sum_append, Finset.sum_add_distrib, hcopy,
        List.map_cons, List.sum_cons]
      rw [ih _ (fun b hb => hbound b (List.mem_cons_of_mem _ hb)) fun b hb =>
        hproper b (List.mem_cons_of_mem _ hb), Finset.sum_ite_eq, Finset.sum_ite_eq,
        if_pos (Finset.mem_range.mpr htail), if_pos (Finset.mem_range.mpr hhead)]

/-- **Summing over all entries is summing over both sides of every arc.** -/
theorem Represents.sum_edges {M : Type} [AddCommMonoid M] (h : Represents fwd bwd g A f)
    (φ : ℕ → ℕ → ρ → M) {n : ℕ} (hbound : ∀ a ∈ A, a.tail < n ∧ a.head < n)
    (hproper : ∀ a ∈ A, a.tail ≠ a.head) :
    ∑ u ∈ Finset.range n, ((g.edges u).map fun e => φ u e.target e.mark).sum =
      (A.map fun a => φ a.tail a.head (fwd a) + φ a.head a.tail (bwd a)).sum := by
  rw [← sum_layout (f := f) φ [] hbound hproper]
  exact Finset.sum_congr rfl fun u _ => by rw [h u]

/-! ## Pushing -/

theorem modify_layout (hsimple : Simple (P ++ a :: Q)) (n : ℕ) (change : Edge ρ → Edge ρ)
    (hchange : (copyAt fwd bwd f P a u).map change = copyAt fwd bwd (setOn f a n) P a u)
    (hsome : (copyAt fwd bwd f P a u).isSome) :
    (layout fwd bwd f [] (P ++ a :: Q) u).modify (degree P u) change =
      layout fwd bwd (setOn f a n) [] (P ++ a :: Q) u := by
  have hP : ∀ b ∈ P, on (setOn f a n) b = on f b := fun b hb =>
    on_setOn_of_ne (hsimple.ne (.inl hb))
  have hQ : ∀ b ∈ Q, on (setOn f a n) b = on f b := fun b hb =>
    on_setOn_of_ne (hsimple.ne (.inr hb))
  obtain ⟨e, he⟩ := Option.isSome_iff_exists.mp hsome
  rw [layout_split, layout_split, layout_congr [] hP, layout_congr _ hQ, ← hchange, he,
    ← @length_layout _ _ fwd bwd f [] P u, List.modify_eq_take_drop]
  simp

/-- What an entry moves is what its arc moves. -/
theorem Represents.push (h : Represents fwd bwd g A f) (hsimple : Simple A)
    (hcap : ∀ a ∈ A, on f a ≤ a.capacity) (hi : (g.edges u)[i]? = some e) {amount : ℕ}
    (hroom : amount ≤ e.remaining) :
    ∃ a f', Pushed A f u e.target amount a f' ∧
      ((a.tail = u ∧ a.head = e.target ∧ e.mark = fwd a) ∨
        (a.head = u ∧ a.tail = e.target ∧ e.mark = bwd a)) ∧
      Represents fwd bwd (g.push u i e.target e.reverse amount) A f' := by
  obtain ⟨P, a, Q, rfl, rfl, hcopy⟩ := h.lookup hi
  have ha : a ∈ P ++ a :: Q := by simp
  have hne := hsimple.proper a ha
  have hle := hcap a ha
  unfold copyAt at hcopy
  split_ifs at hcopy with ht hh
  · cases hcopy
    subst ht
    refine ⟨a, _, .forward ha rfl rfl hroom hle, .inl ⟨rfl, rfl, rfl⟩, fun w => ?_⟩
    simp only [Graph.push, Graph.modify]
    by_cases hw : w = a.head
    · subst hw
      rw [Function.update_self, Function.update_of_ne hne.symm, h a.head]
      apply modify_layout hsimple
      · simp [copyAt, hne]
      · simp [copyAt, hne]
    · rw [Function.update_of_ne hw]
      by_cases hw' : w = a.tail
      · subst hw'
        rw [Function.update_self, h a.tail]
        apply modify_layout hsimple
        · simp only [copyAt, if_pos, Option.map_some, on_setOn, Nat.sub_sub]
        · simp [copyAt]
      · rw [Function.update_of_ne hw', h w, layout_split, layout_split]
        rw [@layout_congr _ _ _ _ _ _ (setOn f a _) [] fun b hb => on_setOn_of_ne
            (hsimple.ne (.inl hb)),
          @layout_congr _ _ _ _ _ _ (setOn f a _) _ fun b hb => on_setOn_of_ne
            (hsimple.ne (.inr hb)),
          copyAt, copyAt, if_neg (Ne.symm hw'), if_neg (Ne.symm hw), if_neg (Ne.symm hw'),
          if_neg (Ne.symm hw)]
  · cases hcopy
    subst hh
    refine ⟨a, _, .backward ha rfl rfl hroom, .inr ⟨rfl, rfl, rfl⟩, fun w => ?_⟩
    simp only [Graph.push, Graph.modify]
    by_cases hw : w = a.tail
    · subst hw
      rw [Function.update_self, Function.update_of_ne hne, h a.tail]
      apply modify_layout hsimple
      · have hback : a.capacity - (on f a - amount) = a.capacity - on f a + amount := by
          simp only at hroom
          omega
        simp [copyAt, hback]
      · simp [copyAt]
    · rw [Function.update_of_ne hw]
      by_cases hw' : w = a.head
      · subst hw'
        rw [Function.update_self, h a.head]
        apply modify_layout hsimple
        · simp [copyAt, hne]
        · simp [copyAt, hne]
      · rw [Function.update_of_ne hw', h w, layout_split, layout_split]
        rw [@layout_congr _ _ _ _ _ _ (setOn f a _) [] fun b hb => on_setOn_of_ne
            (hsimple.ne (.inl hb)),
          @layout_congr _ _ _ _ _ _ (setOn f a _) _ fun b hb => on_setOn_of_ne
            (hsimple.ne (.inr hb)),
          copyAt, copyAt, if_neg (Ne.symm hw), if_neg (Ne.symm hw'), if_neg (Ne.symm hw),
          if_neg (Ne.symm hw')]

end Layout

end Flow
