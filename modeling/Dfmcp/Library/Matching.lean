import Mathlib

/-!
# Matchings by alternating search

Positions, the workers each would take, and a matching as the position of every worker who has one.
A search from an open position looks at workers, and from a worker who has a position goes on to
that position. `Alternating` is its invariant. Either it meets a free worker, and the parents lead
back along a `Route` that can be reseated one move at a time, or it ends, and the positions it found
want more workers than there are for them.

* `Matches.move` — seating a free worker, and freeing the one who sat there;
* `Alternating.start`, `Alternating.mark` — the steps of a search;
* `Alternating.route` — a free worker has a way back to the root;
* `Alternating.deficient` — what an exhausted search proves;
* `coverage_le` — filling positions in order, and leaving one open only for such a reason, covers
  roles as well as any assignment does, in the order of the roles.
-/

namespace Matching

section Moves

variable {P W : Type} {offers : P → W → Prop} {post : W → Option P} {p : P} {w : W}

/-- Every worker has a position that would take him, and no position has two. -/
structure Matches (offers : P → W → Prop) (post : W → Option P) : Prop where
  offered : ∀ w p, post w = some p → offers p w
  alone : ∀ w x p, post w = some p → post x = some p → w = x

/-- A position that has its worker. -/
def Seated (post : W → Option P) (p : P) : Prop := ∃ w, post w = some p

theorem matches_empty : Matches offers fun _ => none where
  offered := nofun
  alone := nofun

variable [DecidableEq W]

/-- Seat a worker, and free the one who sat there. -/
def move (post : W → Option P) (p : P) (w : W) : Option W → W → Option P
  | none => Function.update post w (some p)
  | some x => Function.update (Function.update post w (some p)) x none

/-- Where everyone is after a move. -/
theorem move_eq_some {prev : Option W} (hprev : ∀ x, prev = some x ↔ post x = some p)
    (hfree : post w = none) (y : W) (q : P) :
    move post p w prev y = some q ↔ (y = w ∧ q = p) ∨ (post y = some q ∧ q ≠ p) := by
  cases prev with
  | none =>
      have hopen : ∀ x, post x ≠ some p := fun x hx => by cases (hprev x).2 hx
      rw [move]
      by_cases hy : y = w
      · subst hy
        simp [hfree, eq_comm]
      · rw [Function.update_of_ne hy]
        constructor
        · exact fun h => .inr ⟨h, fun hq => hopen y (hq ▸ h)⟩
        · exact fun h => h.elim (fun h => absurd h.1 hy) And.left
  | some x =>
      have hx : post x = some p := (hprev x).1 rfl
      rw [move]
      by_cases hyx : y = x
      · subst hyx
        have hyw : y ≠ w := fun h => by
          rw [h, hfree] at hx
          cases hx
        simp only [Function.update_self, reduceCtorEq, false_iff]
        rintro (h | ⟨h, hq⟩)
        · exact hyw h.1
        · exact hq (Option.some.inj (h.symm.trans hx))
      · rw [Function.update_of_ne hyx]
        by_cases hy : y = w
        · subst hy
          simp [hfree, eq_comm]
        · rw [Function.update_of_ne hy]
          constructor
          · exact fun h => .inr ⟨h, fun hq => hyx
              (Option.some.inj ((hprev y).2 (hq ▸ h))).symm⟩
          · exact fun h => h.elim (fun h => absurd h.1 hy) And.left

/-- **A move keeps a matching**, and seats one position more if the worker takes an open one. -/
theorem Matches.move (h : Matches offers post) {prev : Option W}
    (hprev : ∀ x, prev = some x ↔ post x = some p) (hfree : post w = none) (hoffer : offers p w) :
    Matches offers (move post p w prev) ∧
      ∀ q, Seated (Matching.move post p w prev) q ↔ q = p ∨ Seated post q := by
  have hmove := move_eq_some hprev hfree
  refine ⟨⟨?_, ?_⟩, ?_⟩
  · intro y q hy
    rcases (hmove y q).1 hy with ⟨rfl, rfl⟩ | ⟨hy, _⟩
    · exact hoffer
    · exact h.offered y q hy
  · intro y z q hy hz
    rcases (hmove y q).1 hy with ⟨rfl, rfl⟩ | ⟨hy, hq⟩
    · rcases (hmove z q).1 hz with ⟨hz, _⟩ | ⟨_, hq⟩
      · exact hz.symm
      · exact absurd rfl hq
    · rcases (hmove z q).1 hz with ⟨_, hq'⟩ | ⟨hz, _⟩
      · exact absurd hq' hq
      · exact h.alone y z q hy hz
  · intro q
    constructor
    · rintro ⟨y, hy⟩
      rcases (hmove y q).1 hy with ⟨_, hq⟩ | ⟨hy, _⟩
      · exact .inl hq
      · exact .inr ⟨y, hy⟩
    · rintro (rfl | ⟨y, hy⟩)
      · exact ⟨w, (hmove w q).2 (.inl ⟨rfl, rfl⟩)⟩
      · by_cases hq : q = p
        · exact ⟨w, (hmove w q).2 (.inl ⟨rfl, hq⟩)⟩
        · exact ⟨y, (hmove y q).2 (.inr ⟨hy, hq⟩)⟩

end Moves

/-! ## Routes -/

section Routes

variable {P W : Type} {offers : P → W → Prop} {post : W → Option P} {parents : W → Option P}
  {root p q : P} {w x : W} {rest : List P}

/-- The positions a free worker passes on the way back to the root: his parent, whose worker goes on
to his own parent, and so on. -/
def Route (offers : P → W → Prop) (post parents : W → Option P) (root : P) : W → List P → Prop
  | _, [] => False
  | w, [p] => parents w = some p ∧ offers p w ∧ p = root
  | w, p :: q :: rest => parents w = some p ∧ offers p w ∧
      ∃ x, post x = some p ∧ Route offers post parents root x (q :: rest)

theorem Route.parent (h : Route offers post parents root w (p :: rest)) :
    parents w = some p ∧ offers p w := by
  cases rest with
  | nil => exact ⟨h.1, h.2.1⟩
  | cons q rest => exact ⟨h.1, h.2.1⟩

/-- A route does not see what happens elsewhere. -/
theorem Route.congr {post' : W → Option P} {route : List P}
    (hsame : ∀ x q, q ∈ route → post x = some q → post' x = some q)
    (h : Route offers post parents root w route) : Route offers post' parents root w route := by
  induction route generalizing w with
  | nil => exact h
  | cons p route ih =>
      cases route with
      | nil => exact h
      | cons q rest =>
          obtain ⟨hparent, hoffer, x, hx, hroute⟩ := h
          exact ⟨hparent, hoffer, x, hsame x p List.mem_cons_self hx,
            ih (fun x q hq => hsame x q (List.mem_cons_of_mem _ hq)) hroute⟩

/-- After the first move the rest of the route is one for the worker who was freed. -/
theorem Route.step [DecidableEq W] (hmatch : Matches offers post)
    (h : Route offers post parents root w (p :: q :: rest)) (hnodup : (p :: q :: rest).Nodup)
    (hfree : post w = none) :
    ∃ x, post x = some p ∧
      Route offers (move post p w (some x)) parents root x (q :: rest) := by
  obtain ⟨_, _, x, hx, hroute⟩ := h
  have hprev : ∀ y, some x = some y ↔ post y = some p := fun y =>
    ⟨fun heq => Option.some.inj heq ▸ hx, fun hy => congrArg some (hmatch.alone x y p hx hy)⟩
  refine ⟨x, hx, hroute.congr fun y r hr hy => ?_⟩
  refine (move_eq_some hprev hfree y r).2 (.inr ⟨hy, fun heq => ?_⟩)
  exact (List.nodup_cons.1 hnodup).1 (heq ▸ hr)

end Routes

/-! ## The search -/

section Search

variable {P W : Type} [DecidableEq P] {offers : P → W → Prop} {post : W → Option P}
  {parents : W → Option P} {line : List P} {looked looked' : P → W → Prop} {root p q : P} {w : W}

/-- What holds of a search at every moment: `line` are the positions found, in order, and `looked`
says which workers of a position were looked at. -/
structure Alternating (offers : P → W → Prop) (post : W → Option P) (root : P)
    (parents : W → Option P) (line : List P) (looked : P → W → Prop) : Prop where
  nodup : line.Nodup
  root_mem : root ∈ line
  parent : ∀ w p, parents w = some p → p ∈ line ∧ offers p w
  origin : ∀ q ∈ line, q ≠ root → ∃ w p, post w = some q ∧ parents w = some p ∧
    line.idxOf p < line.idxOf q
  owned : ∀ w, parents w ≠ none → ∃ q ∈ line, post w = some q
  looked : ∀ p w, looked p w → parents w ≠ none

theorem Alternating.start (root : P) :
    Alternating offers post root (fun _ => none) [root] fun _ _ => False where
  nodup := List.nodup_singleton root
  root_mem := List.mem_singleton_self root
  parent := nofun
  origin := fun _ hq hne => absurd (List.mem_singleton.1 hq) hne
  owned := fun _ h => absurd rfl h
  looked := fun _ _ h => h.elim

/-- Looking at a worker who was found before. -/
theorem Alternating.skip (h : Alternating offers post root parents line looked)
    (hlooked : ∀ p w, looked' p w → looked p w ∨ parents w ≠ none) :
    Alternating offers post root parents line looked' where
  nodup := h.nodup
  root_mem := h.root_mem
  parent := h.parent
  origin := h.origin
  owned := h.owned
  looked := fun p w hw => (hlooked p w hw).elim (h.looked p w) id

/-- **An exhausted search has found more positions than there are workers for them.** -/
theorem Alternating.deficient (h : Alternating offers post root parents line looked)
    (hmatch : Matches offers post) (hopen : ¬ Seated post root)
    (hall : ∀ p ∈ line, ∀ w, offers p w → looked p w) {workers : Finset W}
    (hworkers : ∀ w ∈ workers, ∃ p ∈ line, offers p w) :
    workers.card < line.toFinset.card ∧ ∀ q ∈ line, q ≠ root → Seated post q := by
  refine ⟨?_, fun q hq hne => ?_⟩
  · have hseat : ∀ w ∈ workers, ∃ q ∈ line.toFinset.erase root, post w = some q := by
      intro w hw
      obtain ⟨p, hp, hoffer⟩ := hworkers w hw
      obtain ⟨q, hq, hpost⟩ := h.owned w (h.looked p w (hall p hp w hoffer))
      refine ⟨q, Finset.mem_erase.2 ⟨fun heq => ?_, List.mem_toFinset.2 hq⟩, hpost⟩
      exact hopen ⟨w, heq ▸ hpost⟩
    have hle : workers.card ≤ (line.toFinset.erase root).card := by
      refine Finset.card_le_card_of_injOn (fun w => (post w).getD root) ?_ ?_
      · intro w hw
        obtain ⟨q, hq, hpost⟩ := hseat w hw
        simp only [hpost, Option.getD_some]
        exact hq
      · intro w hw x hx hsame
        obtain ⟨q, _, hq⟩ := hseat w hw
        obtain ⟨r, _, hr⟩ := hseat x hx
        simp only [hq, hr, Option.getD_some] at hsame
        exact hmatch.alone w x q hq (hsame ▸ hr)
    exact lt_of_le_of_lt hle (Finset.card_erase_lt_of_mem (List.mem_toFinset.2 h.root_mem))
  · obtain ⟨w, _, hpost, _⟩ := h.origin q hq hne
    exact ⟨w, hpost⟩

variable [DecidableEq W]

/-- Finding a worker who has a position. -/
theorem Alternating.mark (h : Alternating offers post root parents line looked) (hp : p ∈ line)
    (hoffer : offers p w) (hnew : parents w = none) (hpost : post w = some q)
    (hlooked : ∀ r x, looked' r x → looked r x ∨ x = w) :
    Alternating offers post root (Function.update parents w (some p))
      (if q ∈ line then line else line ++ [q]) looked' := by
  have hsub : ∀ r ∈ line, r ∈ if q ∈ line then line else line ++ [q] := by
    intro r hr
    split_ifs
    · exact hr
    · exact List.mem_append_left _ hr
  have hidx : ∀ r ∈ line, (if q ∈ line then line else line ++ [q]).idxOf r = line.idxOf r := by
    intro r hr
    split_ifs
    · rfl
    · exact List.idxOf_append_of_mem hr
  refine ⟨?_, hsub _ h.root_mem, ?_, ?_, ?_, ?_⟩
  · split_ifs with hq
    · exact h.nodup
    · exact List.nodup_append.2 ⟨h.nodup, List.nodup_singleton q, fun a ha b hb => by
        rw [List.mem_singleton.1 hb]
        exact fun heq => hq (heq ▸ ha)⟩
  · intro x r hx
    by_cases hxw : x = w
    · subst hxw
      rw [Function.update_self, Option.some_inj] at hx
      exact ⟨hsub _ (hx ▸ hp), hx ▸ hoffer⟩
    · rw [Function.update_of_ne hxw] at hx
      exact ⟨hsub _ (h.parent x r hx).1, (h.parent x r hx).2⟩
  · intro r hr hne
    by_cases hold : r ∈ line
    · obtain ⟨x, r', hx, hparent, hlt⟩ := h.origin r hold hne
      have hxw : x ≠ w := fun heq => by
        rw [heq, hnew] at hparent
        cases hparent
      refine ⟨x, r', hx, by rw [Function.update_of_ne hxw, hparent], ?_⟩
      rw [hidx r hold, hidx r' (h.parent x r' hparent).1]
      exact hlt
    · by_cases hq : q ∈ line
      · rw [if_pos hq] at hr
        exact absurd hr hold
      · rw [if_neg hq] at hr ⊢
        have hrq : r = q := (List.mem_append.1 hr).elim (fun h => absurd h hold) List.mem_singleton.1
        subst hrq
        refine ⟨w, p, hpost, Function.update_self .., ?_⟩
        rw [List.idxOf_append_of_mem hp, List.idxOf_append_of_notMem hq]
        exact lt_of_lt_of_le (List.idxOf_lt_length_iff.2 hp) (Nat.le_add_right _ _)
  · intro x hx
    by_cases hxw : x = w
    · subst hxw
      refine ⟨q, ?_, hpost⟩
      split_ifs with hq
      · exact hq
      · exact List.mem_append_right _ (List.mem_singleton_self q)
    · rw [Function.update_of_ne hxw] at hx
      obtain ⟨r, hr, hxr⟩ := h.owned x hx
      exact ⟨r, hsub r hr, hxr⟩
  · intro r x hx
    by_cases hxw : x = w
    · subst hxw
      rw [Function.update_self]
      exact Option.some_ne_none p
    · rw [Function.update_of_ne hxw]
      exact h.looked r x ((hlooked r x hx).elim id fun heq => absurd heq hxw)

/-- **A free worker has a way back to the root**, through positions found no later than his
parent. -/
theorem Alternating.route (h : Alternating offers post root parents line looked) (hp : p ∈ line)
    (hoffer : offers p w) (hfree : post w = none) :
    ∃ route, Route offers post (Function.update parents w (some p)) root w route ∧ route.Nodup ∧
      ∀ q ∈ route, q ∈ line := by
  have hback : ∀ n, ∀ q ∈ line, line.idxOf q ≤ n → ∀ x,
      Function.update parents w (some p) x = some q → offers q x →
      ∃ rest, Route offers post (Function.update parents w (some p)) root x (q :: rest) ∧
        (q :: rest).Nodup ∧ ∀ r ∈ q :: rest, r ∈ line ∧ line.idxOf r ≤ line.idxOf q := by
    intro n
    induction n with
    | zero =>
        intro q hq hn x hx hqx
        by_cases hroot : q = root
        · exact ⟨[], ⟨hx, hqx, hroot⟩, List.nodup_singleton q, fun r hr => by
            rw [List.mem_singleton.1 hr]
            exact ⟨hq, le_rfl⟩⟩
        · obtain ⟨_, _, _, _, hlt⟩ := h.origin q hq hroot
          omega
    | succ n ih =>
        intro q hq hn x hx hqx
        by_cases hroot : q = root
        · exact ⟨[], ⟨hx, hqx, hroot⟩, List.nodup_singleton q, fun r hr => by
            rw [List.mem_singleton.1 hr]
            exact ⟨hq, le_rfl⟩⟩
        · obtain ⟨y, r, hy, hparent, hlt⟩ := h.origin q hq hroot
          have hyw : y ≠ w := fun heq => by
            rw [heq, hfree] at hy
            cases hy
          obtain ⟨hr, hry⟩ := h.parent y r hparent
          obtain ⟨rest, hroute, hnodup, hbelow⟩ := ih r hr (by omega) y
            (by rw [Function.update_of_ne hyw, hparent]) hry
          refine ⟨r :: rest, ⟨hx, hqx, y, hy, hroute⟩, List.nodup_cons.2 ⟨fun hmem => ?_, hnodup⟩, ?_⟩
          · have hle := (hbelow q hmem).2
            omega
          · intro s hs
            rcases List.mem_cons.1 hs with rfl | hs
            · exact ⟨hq, le_rfl⟩
            · exact ⟨(hbelow s hs).1, (hbelow s hs).2.trans hlt.le⟩
  obtain ⟨rest, hroute, hnodup, hbelow⟩ := hback _ p hp le_rfl w (Function.update_self ..) hoffer
  exact ⟨p :: rest, hroute, hnodup, fun q hq => (hbelow q hq).1⟩

end Search

/-! ## Roles in order -/

section Coverage

variable {W : Type} {positions matched : Finset ℕ} {role : ℕ → ℕ}
  {takes : ℕ → W → Prop} {workers : Finset W}

/-- Why a position was left open: with positions before it that have their workers, it wants more
workers than there are. -/
def Short (workers : Finset W) (takes : ℕ → W → Prop) (role : ℕ → ℕ) (matched : Finset ℕ) (p : ℕ) :
    Prop :=
  ∃ V : Finset ℕ, p ∈ V ∧ (∀ q ∈ V, q ≠ p → q ∈ matched ∧ q ≤ p) ∧
    ∀ N ⊆ workers, (∀ w ∈ N, ∃ q ∈ V, takes (role q) w) → N.card < V.card

/-- A position stays short when more positions are matched. -/
theorem Short.mono {matched' : Finset ℕ} {p : ℕ} (h : Short workers takes role matched p)
    (hsub : matched ⊆ matched') : Short workers takes role matched' p := by
  obtain ⟨V, hp, hV, hcard⟩ := h
  exact ⟨V, hp, fun q hq hne => ⟨hsub (hV q hq hne).1, (hV q hq hne).2⟩, hcard⟩

/-- **Positions filled in the order of their roles.** Where the first roles are covered alike, an
assignment covers the next no better: a position it covers and the matching does not would be
short. -/
theorem coverage_le [DecidableEq W]
    (hmono : ∀ q p, q ≤ p → p ∈ positions → role q ≤ role p)
    (hshort : ∀ p ∈ positions, p ∉ matched → Short workers takes role matched p)
    {assigned : W → Option ℕ} (hassigned : ∀ w ∈ workers, ∀ i, assigned w = some i → takes i w)
    (r : ℕ)
    (hbefore : ∀ i < r, min ({w ∈ workers | assigned w = some i}).card
      ({p ∈ positions | role p = i}).card = ({p ∈ matched | role p = i}).card) :
    min ({w ∈ workers | assigned w = some r}).card ({p ∈ positions | role p = r}).card ≤
      ({p ∈ matched | role p = r}).card := by
  by_contra hmore
  rw [not_le, lt_min_iff] at hmore
  obtain ⟨hworkers, hpositions⟩ := hmore
  -- Some position of the role is open.
  have hopen : ∃ p ∈ positions, role p = r ∧ p ∉ matched := by
    by_contra hnone
    refine absurd (Finset.card_le_card (fun p hp => ?_)) (not_le.2 hpositions)
    rw [Finset.mem_filter] at hp ⊢
    refine ⟨?_, hp.2⟩
    by_contra hp'
    exact hnone ⟨p, hp.1, hp.2, hp'⟩
  obtain ⟨p, hp, hrole, hout⟩ := hopen
  obtain ⟨V, hpV, hV, hcard⟩ := hshort p hp hout
  -- The workers assigned to the roles found are too few for the positions found.
  have hroles : ∀ q ∈ V, role q ≤ r := fun q hq => by
    by_cases hqp : q = p
    · rw [hqp, hrole]
    · exact (hmono q p (hV q hq hqp).2 hp).trans hrole.le
  have hfew := hcard ({w ∈ workers | ∃ i ∈ V.image role, assigned w = some i})
    (Finset.filter_subset _ _) fun w hw => by
      obtain ⟨hw, i, hi, hwi⟩ := Finset.mem_filter.1 hw
      obtain ⟨q, hq, rfl⟩ := Finset.mem_image.1 hi
      exact ⟨q, hq, hassigned w hw _ hwi⟩
  -- Role by role they are not.
  have hcount : ({w ∈ workers | ∃ i ∈ V.image role, assigned w = some i}).card =
      ∑ i ∈ V.image role, ({w ∈ workers | assigned w = some i}).card := by
    rw [← Finset.card_biUnion]
    · congr 1
      ext w
      simp only [Finset.mem_filter, Finset.mem_biUnion]
      constructor
      · rintro ⟨hw, i, hi, hwi⟩
        exact ⟨i, hi, hw, hwi⟩
      · rintro ⟨i, hi, hw, hwi⟩
        exact ⟨hw, i, hi, hwi⟩
    · intro i _ j _ hij
      rw [Function.onFun, Finset.disjoint_left]
      intro w hwi hwj
      rw [Finset.mem_filter] at hwi hwj
      exact hij (Option.some.inj (hwi.2.symm.trans hwj.2))
  have hsplit : V.card = ∑ i ∈ V.image role, ({q ∈ V | role q = i}).card :=
    Finset.card_eq_sum_card_image role V
  rw [hcount, hsplit] at hfew
  refine absurd (Finset.sum_le_sum fun i hi => ?_) (not_le.2 hfew)
  obtain ⟨q, hq, hqi⟩ := Finset.mem_image.1 hi
  have hir : i ≤ r := hqi ▸ hroles q hq
  by_cases hlast : i = r
  · subst hlast
    have hle : ({q ∈ V | role q = i}).card ≤ ({q ∈ matched | role q = i}).card + 1 := by
      rw [← Finset.card_insert_of_notMem (s := {q ∈ matched | role q = i}) (a := p)
        (fun h => hout (Finset.mem_filter.1 h).1)]
      refine Finset.card_le_card fun q hq => ?_
      rw [Finset.mem_filter] at hq
      rw [Finset.mem_insert, Finset.mem_filter]
      by_cases hqp : q = p
      · exact .inl hqp
      · exact .inr ⟨(hV q hq.1 hqp).1, hq.2⟩
    omega
  · have hle : ({q ∈ V | role q = i}).card ≤ ({q ∈ matched | role q = i}).card := by
      refine Finset.card_le_card fun q hq => ?_
      rw [Finset.mem_filter] at hq ⊢
      refine ⟨(hV q hq.1 fun hqp => hlast ?_).1, hq.2⟩
      rw [← hq.2, hqp, hrole]
    have hsame := hbefore i (lt_of_le_of_ne hir hlast)
    exact hle.trans (hsame ▸ min_le_left _ _)

end Coverage

end Matching
