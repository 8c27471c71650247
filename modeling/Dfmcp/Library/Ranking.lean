import Mathlib

/-!
# The greatest entries of a list

Entries are compared by a rank. In a list that lists them by descending rank the first `n` are
those with fewer than `n` entries above them, so "the newest `n`" can be said without sorting.

* `Descending` — the list goes down strictly;
* `Descending.mem_take_iff` — the first `n`, by counting;
* `descending_insertionSort` — sorting distinct entries brings this about.
-/

namespace Ranking

universe u v

variable {α : Type u} {β : Type v} [LinearOrder β] {rank : α → β} {l : List α}

/-- The ranks go down strictly. -/
def Descending (rank : α → β) (l : List α) : Prop := l.Pairwise fun a b => rank b < rank a

theorem Descending.filter (h : Descending rank l) (p : α → Bool) : Descending rank (l.filter p) :=
  List.Pairwise.filter p h

/-- **The first `n` entries** are those with fewer than `n` above them. -/
theorem Descending.mem_take_iff (h : Descending rank l) (n : Nat) (x : α) :
    x ∈ l.take n ↔ x ∈ l ∧ l.countP (fun y => rank x < rank y) < n := by
  induction l generalizing n with
  | nil => simp
  | cons a l ih =>
      obtain ⟨hhead, htail⟩ := List.pairwise_cons.1 h
      cases n with
      | zero => simp
      | succ n =>
          rw [List.take_succ_cons, List.mem_cons, List.mem_cons, ih htail]
          by_cases hx : x ∈ l
          · have hlt : rank x < rank a := hhead x hx
            have hne : x ≠ a := fun heq => lt_irrefl _ (heq ▸ hlt)
            rw [List.countP_cons_of_pos (by simpa using hlt)]
            simp [hx, hne]
          · by_cases hxa : x = a
            · subst hxa
              have hzero : l.countP (fun y => rank x < rank y) = 0 := by
                rw [List.countP_eq_zero]
                intro y hy
                simpa using (hhead y hy).le
              simp [hzero]
            · simp [hx, hxa]

/-- Sorting entries of distinct rank by descending rank and any tie-break makes them descend. -/
theorem descending_insertionSort {r : α → α → Prop} [DecidableRel r] [Std.Total r] [IsTrans α r]
    (hr : ∀ a b, r a b → rank b ≤ rank a) (hl : l.Pairwise fun a b => rank a ≠ rank b) :
    Descending rank (l.insertionSort r) := by
  have hne : (l.insertionSort r).Pairwise fun a b => rank a ≠ rank b :=
    (List.perm_insertionSort r l).symm.pairwise hl fun h => h.symm
  refine (List.pairwise_insertionSort r l).imp₂ ?_ hne
  intro a b hab hrank
  exact lt_of_le_of_ne (hr a b hab) hrank.symm

end Ranking
