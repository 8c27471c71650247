import Mathlib

/-!
# Topological orders by counting

A graph on finitely many nodes, `next v` being the nodes that `v` points to. Kahn's algorithm keeps
for every node how many of the nodes not yet listed point to it, and lists a node for which that
count is zero. `Holds` is its invariant.

* `Holds.start`, `Holds.list` — the steps of the algorithm;
* `Holds.pairwise` — whatever points to a listed node was listed before it;
* `Holds.cyclic` — nodes that cannot be listed lie on a cycle, or are reached from one.
-/

namespace Topological

variable {V : Type} [DecidableEq V] {nodes : Finset V} {next : V → Finset V}
  {incoming incoming' : V → ℕ} {ready ready' : V → Prop} {done : List V} {u v : V}

/-- The nodes that point to `v` and are not listed. -/
def waiting (nodes : Finset V) (next : V → Finset V) (done : List V) (v : V) : Finset V :=
  {u ∈ nodes | u ∉ done ∧ v ∈ next u}

theorem mem_waiting : u ∈ waiting nodes next done v ↔ u ∈ nodes ∧ u ∉ done ∧ v ∈ next u := by
  rw [waiting, Finset.mem_filter]

/-- What holds of the algorithm between two nodes. -/
structure Holds (nodes : Finset V) (next : V → Finset V) (incoming : V → ℕ) (ready : V → Prop)
    (done : List V) : Prop where
  nodup : done.Nodup
  listed : ∀ v ∈ done, v ∈ nodes
  counts : ∀ v ∈ nodes, incoming v = (waiting nodes next done v).card
  ready : ∀ v, ready v ↔ v ∈ nodes ∧ v ∉ done ∧ incoming v = 0
  before : ∀ earlier v later, done = earlier ++ v :: later → ∀ u ∈ nodes, v ∈ next u → u ∈ earlier

theorem Holds.start (hcounts : ∀ v ∈ nodes, incoming v = ({u ∈ nodes | v ∈ next u}).card)
    (hready : ∀ v, ready v ↔ v ∈ nodes ∧ incoming v = 0) :
    Holds nodes next incoming ready [] where
  nodup := List.nodup_nil
  listed := nofun
  counts := fun v hv => by simp [hcounts v hv, waiting]
  ready := fun v => by simp [hready v]
  before := fun earlier v later h => by simp at h

/-- Nothing that is not listed points to a node that is ready. -/
theorem Holds.listed_of_ready (h : Holds nodes next incoming ready done) (hv : ready v)
    (hu : u ∈ nodes) (huv : v ∈ next u) : u ∈ done := by
  obtain ⟨hmem, _, hzero⟩ := (h.ready v).1 hv
  by_contra hout
  have hwait : u ∈ waiting nodes next done v := mem_waiting.2 ⟨hu, hout, huv⟩
  rw [h.counts v hmem, Finset.card_eq_zero] at hzero
  rw [hzero] at hwait
  exact absurd hwait (Finset.notMem_empty u)

/-- Listing a node takes it from those that wait to be listed before others. -/
theorem waiting_append (hv : v ∈ nodes) (hout : v ∉ done) (x : V) :
    (waiting nodes next (done ++ [v]) x).card =
      (waiting nodes next done x).card - if x ∈ next v then 1 else 0 := by
  have herase : waiting nodes next (done ++ [v]) x = (waiting nodes next done x).erase v := by
    ext u
    rw [Finset.mem_erase, mem_waiting, mem_waiting, List.mem_append, List.mem_singleton]
    tauto
  rw [herase]
  by_cases hx : x ∈ next v
  · rw [if_pos hx, Finset.card_erase_of_mem (mem_waiting.2 ⟨hv, hout, hx⟩)]
  · rw [if_neg hx, Finset.erase_eq_of_notMem fun h => hx (mem_waiting.1 h).2.2, Nat.sub_zero]

/-- A node that `v` points to counts `v` for as long as `v` is not listed. -/
theorem Holds.incoming_pos (h : Holds nodes next incoming ready done) (hv : v ∈ nodes)
    (hout : v ∉ done) {x : V} (hx : x ∈ nodes) (hvx : x ∈ next v) : 0 < incoming x := by
  rw [h.counts x hx]
  exact Finset.card_pos.2 ⟨v, mem_waiting.2 ⟨hv, hout, hvx⟩⟩

/-- **Listing a node that is ready.** -/
theorem Holds.list (h : Holds nodes next incoming ready done) (hv : ready v)
    (hincoming : ∀ x ∈ nodes, incoming' x = incoming x - if x ∈ next v then 1 else 0)
    (hready : ∀ x, ready' x ↔ (ready x ∧ x ≠ v) ∨ (x ∈ nodes ∧ x ∈ next v ∧ incoming' x = 0)) :
    Holds nodes next incoming' ready' (done ++ [v]) := by
  obtain ⟨hmem, hout, hzero⟩ := (h.ready v).1 hv
  refine ⟨?_, ?_, ?_, ?_, ?_⟩
  · exact List.nodup_append.2 ⟨h.nodup, List.nodup_singleton v, fun a ha b hb => by
      rw [List.mem_singleton.1 hb]
      exact fun heq => hout (heq ▸ ha)⟩
  · intro x hx
    rcases List.mem_append.1 hx with hx | hx
    · exact h.listed x hx
    · rwa [List.mem_singleton.1 hx]
  · intro x hx
    rw [hincoming x hx, waiting_append hmem hout, h.counts x hx]
  · intro x
    rw [hready, h.ready, List.mem_append, List.mem_singleton]
    constructor
    · rintro (⟨⟨hx, hxout, hxzero⟩, hne⟩ | ⟨hx, hvx, hxzero⟩)
      · refine ⟨hx, fun hx => hx.elim hxout hne, ?_⟩
        rw [hincoming x hx, hxzero, Nat.zero_sub]
      · refine ⟨hx, fun hxdone => ?_, hxzero⟩
        rcases hxdone with hxdone | rfl
        · obtain ⟨earlier, later, heq⟩ := List.append_of_mem hxdone
          exact hout (heq ▸ List.mem_append_left _ (h.before earlier x later heq v hmem hvx))
        · exact hout (h.listed_of_ready hv hmem hvx)
    · rintro ⟨hx, hxout, hxzero⟩
      by_cases hvx : x ∈ next v
      · exact .inr ⟨hx, hvx, hxzero⟩
      · refine .inl ⟨⟨hx, fun h => hxout (.inl h), ?_⟩, fun h => hxout (.inr h)⟩
        rw [hincoming x hx, if_neg hvx] at hxzero
        exact hxzero
  · intro earlier x later heq u hu hux
    rcases List.append_eq_append_iff.1 heq with ⟨rest, hrest, htail⟩ | ⟨rest, hrest, htail⟩
    · cases rest with
      | nil =>
          have hxv : v = x := (List.cons.inj htail).1
          rw [List.append_nil] at hrest
          exact hrest ▸ h.listed_of_ready hv hu (hxv ▸ hux)
      | cons y rest => simp at htail
    · cases rest with
      | nil =>
          have hxv : x = v := (List.cons.inj htail).1
          rw [List.append_nil] at hrest
          exact hrest ▸ h.listed_of_ready hv hu (hxv ▸ hux)
      | cons y rest =>
          obtain ⟨rfl, _⟩ := List.cons.inj htail
          exact h.before earlier x rest hrest u hu hux

/-- **Whatever points to a listed node was listed before it.** -/
theorem Holds.pairwise (h : Holds nodes next incoming ready done) :
    done.Pairwise (fun u v => u ∉ next v) ∧ ∀ v ∈ done, v ∉ next v := by
  have hnot : ∀ earlier v later, done = earlier ++ v :: later → v ∉ next v ∧
      ∀ u ∈ later, v ∉ next u := by
    intro earlier v later heq
    have hnodup := List.nodup_append.1 (heq ▸ h.nodup)
    have hmem : ∀ u ∈ v :: later, u ∈ nodes := fun u hu =>
      h.listed u (heq ▸ List.mem_append_right _ hu)
    refine ⟨fun hv => ?_, fun u hu hv => ?_⟩
    · exact hnodup.2.2 v (h.before earlier v later heq v (hmem v List.mem_cons_self) hv) v
        List.mem_cons_self rfl
    · exact hnodup.2.2 u (h.before earlier v later heq u (hmem u (List.mem_cons_of_mem _ hu)) hv) u
        (List.mem_cons_of_mem _ hu) rfl
  constructor
  · rw [List.pairwise_iff_forall_sublist]
    intro u v hsub
    obtain ⟨earlier, rest, rfl, hu, hv⟩ := List.cons_sublist_iff.1 hsub
    obtain ⟨before, after, rfl⟩ := List.append_of_mem hu
    refine (hnot before u (after ++ rest) (by simp)).2 v (List.mem_append_right _ ?_)
    exact List.singleton_sublist.1 hv
  · intro v hv
    obtain ⟨earlier, later, heq⟩ := List.append_of_mem hv
    exact (hnot earlier v later heq).1

omit [DecidableEq V] in
/-- In a finite nonempty set where everything is pointed to from inside, something is on a
cycle. -/
theorem exists_cycle (points : V → V → Prop) {stuck : Finset V} (hstuck : stuck.Nonempty)
    (hback : ∀ v ∈ stuck, ∃ u ∈ stuck, points u v) : ∃ v ∈ stuck, Relation.TransGen points v v := by
  by_contra hnone
  let inside : stuck → stuck → Prop := fun u v => Relation.TransGen points u.1 v.1
  have htrans : IsTrans stuck inside := ⟨fun _ _ _ hab hbc => hab.trans hbc⟩
  have hirrefl : Std.Irrefl inside := ⟨fun v hv => hnone ⟨v.1, v.2, hv⟩⟩
  have hwf : WellFounded inside := Finite.wellFounded_of_trans_of_irrefl inside
  obtain ⟨v, hv⟩ := hstuck
  obtain ⟨m, _, hmin⟩ := hwf.has_min Set.univ ⟨⟨v, hv⟩, trivial⟩
  obtain ⟨u, hu, hum⟩ := hback m.1 m.2
  exact hmin ⟨u, hu⟩ trivial (.single hum)

/-- **Nodes that cannot be listed** have a cycle among them. -/
theorem Holds.cyclic (h : Holds nodes next incoming ready done) (hnone : ∀ v, ¬ ready v)
    (hleft : done.length ≠ nodes.card) :
    ∃ v ∈ nodes, Relation.TransGen (fun u v => u ∈ nodes ∧ v ∈ next u) v v := by
  have hsub : done.toFinset ⊆ nodes := fun v hv => h.listed v (List.mem_toFinset.1 hv)
  have hstuck : ({v ∈ nodes | v ∉ done}).Nonempty := by
    rw [Finset.nonempty_iff_ne_empty]
    intro hempty
    apply hleft
    rw [← List.toFinset_card_of_nodup h.nodup]
    refine congrArg Finset.card (hsub.antisymm fun v hv => ?_)
    by_contra hout
    have hmem : v ∈ ({v ∈ nodes | v ∉ done} : Finset V) :=
      Finset.mem_filter.2 ⟨hv, fun hv => hout (List.mem_toFinset.2 hv)⟩
    rw [hempty] at hmem
    exact absurd hmem (Finset.notMem_empty v)
  obtain ⟨v, hv, hcycle⟩ := exists_cycle (fun u v => u ∈ nodes ∧ v ∈ next u) hstuck
    fun v hv => by
      obtain ⟨hmem, hout⟩ := Finset.mem_filter.1 hv
      have hpos : 0 < (waiting nodes next done v).card := by
        rw [← h.counts v hmem, Nat.pos_iff_ne_zero]
        exact fun hzero => hnone v ((h.ready v).2 ⟨hmem, hout, hzero⟩)
      obtain ⟨u, hu⟩ := Finset.card_pos.1 hpos
      obtain ⟨hu, huout, huv⟩ := mem_waiting.1 hu
      exact ⟨u, Finset.mem_filter.2 ⟨hu, huout⟩, hu, huv⟩
  exact ⟨v, (Finset.mem_filter.1 hv).1, hcycle⟩

end Topological
