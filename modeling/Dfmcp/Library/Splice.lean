import Mathlib

/-!
# Overwriting a part of a sequence

`overwrite? xs at new` replaces as many entries as `new` has from an index on; a part that reaches over
the end is refused. `Touches` says which indexes a sequence of such steps may change, and `Frame`
composes it: it is reflexive, transitive, and kept by a fold whose steps have it.

* `overwrite?_append` — overwriting the middle of three parts;
* `Frame.overwrite` — only the indexes of the part change;
* `frame_foldlM` — a fold touches what its steps touch.
-/

namespace Dfmcp

namespace Splice

universe u v

variable {α : Type u} {β : Type v}

/-- Replace the entries from `start` on by `new`, within the sequence. -/
def overwrite? (xs : List α) (start : Nat) (new : List α) : Option (List α) :=
  if start + new.length ≤ xs.length then
    some (xs.take start ++ (new ++ xs.drop (start + new.length)))
  else none

/-- Change the entry at an index. -/
def modify? (f : α → α) (xs : List α) (index : Nat) : Option (List α) :=
  match xs[index]? with
  | none => none
  | some x => overwrite? xs index [f x]

/-- Overwriting the middle part. -/
theorem overwrite?_append {pre old new post : List α} {start : Nat} (hstart : pre.length = start)
    (hlen : new.length = old.length) :
    overwrite? (pre ++ (old ++ post)) start new = some (pre ++ (new ++ post)) := by
  unfold overwrite?
  rw [if_pos (by simp only [List.length_append]; omega), ← hstart, List.take_left' rfl, hlen,
    ← List.drop_drop, List.drop_left' rfl, List.drop_left' rfl]

/-- Changing the entry between two parts. -/
theorem modify?_append {f : α → α} {pre post : List α} {x : α} {index : Nat}
    (hindex : pre.length = index) :
    modify? f (pre ++ ([x] ++ post)) index = some (pre ++ ([f x] ++ post)) := by
  have hget : (pre ++ ([x] ++ post))[index]? = some x := by
    rw [List.getElem?_append_right (by omega), ← hindex, Nat.sub_self]
    rfl
  unfold modify?
  rw [hget]
  exact overwrite?_append hindex rfl

/-! ## What is not overwritten -/

/-- As long as before, and the same at every index outside `touched`. -/
structure Frame (touched : Nat → Prop) (xs ys : List α) : Prop where
  length : ys.length = xs.length
  get : ∀ j, ¬ touched j → ys[j]? = xs[j]?

variable {touched : Nat → Prop} {xs ys zs : List α}

theorem Frame.refl (xs : List α) : Frame touched xs xs := ⟨rfl, fun _ _ => rfl⟩

theorem Frame.trans (h : Frame touched xs ys) (h' : Frame touched ys zs) : Frame touched xs zs :=
  ⟨h'.length.trans h.length, fun j hj => (h'.get j hj).trans (h.get j hj)⟩

theorem Frame.overwrite {start n : Nat} {new : List α} (hlen : new.length = n)
    (htouched : ∀ j, start ≤ j → j < start + n → touched j)
    (h : overwrite? xs start new = some ys) : Frame touched xs ys := by
  subst hlen
  unfold overwrite? at h
  by_cases hfits : start + new.length ≤ xs.length
  · rw [if_pos hfits, Option.some.injEq] at h
    have htake : (xs.take start).length = start := List.length_take_of_le (by omega)
    refine ⟨?_, fun j hj => ?_⟩
    · rw [← h]
      simp only [List.length_append, List.length_drop, htake]
      omega
    · rw [← h]
      by_cases hbefore : j < start
      · rw [List.getElem?_append_left (by omega), List.getElem?_take_of_lt hbefore]
      · have hafter : start + new.length ≤ j := by
          by_contra hinside
          exact hj (htouched j (by omega) (by omega))
        rw [List.getElem?_append_right (by omega), List.getElem?_append_right (by omega),
          List.getElem?_drop, htake]
        congr 1
        omega
  · rw [if_neg hfits] at h
    cases h

theorem Frame.modify {f : α → α} {index : Nat} (htouched : touched index)
    (h : modify? f xs index = some ys) : Frame touched xs ys := by
  unfold modify? at h
  cases hget : xs[index]? with
  | none =>
      rw [hget] at h
      cases h
  | some x =>
      rw [hget] at h
      refine Frame.overwrite List.length_singleton (fun j hlow hhigh => ?_) h
      rwa [show j = index by omega]

/-- **A fold touches what its steps touch.** -/
theorem frame_foldlM {step : List α → β → Option (List α)} {l : List β}
    (hstep : ∀ b ∈ l, ∀ before after, step before b = some after → Frame touched before after)
    (h : l.foldlM step xs = some ys) : Frame touched xs ys := by
  induction l generalizing xs with
  | nil =>
      cases h
      exact Frame.refl _
  | cons b l ih =>
      rw [List.foldlM_cons, Option.bind_eq_bind, Option.bind_eq_some_iff] at h
      obtain ⟨mid, hmid, hrest⟩ := h
      refine (hstep b List.mem_cons_self xs mid hmid).trans (ih (fun b' hb' => ?_) hrest)
      exact hstep b' (List.mem_cons_of_mem b hb')

end Splice

end Dfmcp
