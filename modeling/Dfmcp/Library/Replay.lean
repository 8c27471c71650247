import Mathlib

/-!
# Replaying writes

A state is a function from keys to values, and a log is a list of writes, each setting one key.
Replaying a log leaves every key with its last write, or with what it had (`replay_eq_last`).

The one subtle operation on logs is pruning: dropping the writes that store what a given state
already has there. A single such write is a no-op, but a pruned *log* need not have the same
effect, because the dropped write may have been the one that put a key back. `replay_prune_iff`
says exactly when pruning is harmless: no key is written away from the state and finally
written back to it.
-/

namespace Replay

universe u v

variable {K : Type u} {V : Type v} [DecidableEq K]

/-- Perform the writes of a log, first to last. -/
def replay (σ : K → V) : List (K × V) → K → V
  | [] => σ
  | w :: ws => replay (Function.update σ w.1 w.2) ws

/-- The last value a log writes to a key. -/
def last : List (K × V) → K → Option V
  | [], _ => none
  | w :: ws, k => (last ws k).or (if w.1 = k then some w.2 else none)

/-- A log touches a key when it writes to it. -/
def Touches (ws : List (K × V)) (k : K) : Prop := ∃ w ∈ ws, w.1 = k

/-- Drop the writes that store what `τ` already has. -/
def prune [DecidableEq V] (τ : K → V) (ws : List (K × V)) : List (K × V) :=
  ws.filter fun w => w.2 ≠ τ w.1

@[simp] theorem last_nil (k : K) : last ([] : List (K × V)) k = none := rfl

theorem last_cons (w : K × V) (ws : List (K × V)) (k : K) :
    last (w :: ws) k = (last ws k).or (if w.1 = k then some w.2 else none) := rfl

theorem last_append (ws vs : List (K × V)) (k : K) :
    last (ws ++ vs) k = (last vs k).or (last ws k) := by
  induction ws with
  | nil => simp
  | cons w ws ih => rw [List.cons_append, last_cons, ih, last_cons, Option.or_assoc]

theorem last_eq_none_iff (ws : List (K × V)) (k : K) : last ws k = none ↔ ¬ Touches ws k := by
  induction ws with
  | nil => simp [Touches]
  | cons w ws ih =>
      rw [last_cons, Option.or_eq_none_iff, ih]
      by_cases hw : w.1 = k <;> simp [Touches, hw]

theorem mem_of_last {ws : List (K × V)} {k : K} {v : V} (h : last ws k = some v) :
    (k, v) ∈ ws := by
  induction ws with
  | nil => simp at h
  | cons w ws ih =>
      rw [last_cons, Option.or_eq_some_iff] at h
      rcases h with h | ⟨-, h⟩
      · exact List.mem_cons_of_mem w (ih h)
      · split at h
        · rename_i hk
          cases h
          rw [← hk]
          exact List.mem_cons_self
        · cases h

/-- **Replay leaves every key with its last write.** -/
theorem replay_eq_last (σ : K → V) (ws : List (K × V)) (k : K) :
    replay σ ws k = (last ws k).getD (σ k) := by
  induction ws generalizing σ with
  | nil => rfl
  | cons w ws ih =>
      rw [replay, ih, last_cons]
      cases h : last ws k with
      | some v => rfl
      | none =>
          by_cases hw : w.1 = k
          · subst hw
            simp
          · simp [hw, Function.update_of_ne (Ne.symm hw)]

/-- In a log that writes each key at most once, a write is the last write to its key. -/
theorem last_of_nodup {ws : List (K × V)} (hnd : (ws.map Prod.fst).Nodup) {k : K} {v : V}
    (hmem : (k, v) ∈ ws) : last ws k = some v := by
  induction ws with
  | nil => simp at hmem
  | cons w ws ih =>
      rw [List.map_cons, List.nodup_cons] at hnd
      rw [last_cons]
      rcases List.mem_cons.1 hmem with rfl | hmem
      · have hnone : last ws k = none := by
          rw [last_eq_none_iff]
          rintro ⟨w, hw, hk⟩
          exact hnd.1 (List.mem_map.2 ⟨w, hw, hk⟩)
        simp [hnone]
      · rw [ih hnd.2 hmem]
        rfl

section Prune

variable [DecidableEq V]

theorem last_prune_of_none {τ : K → V} {ws : List (K × V)} {k : K}
    (h : ∀ w ∈ ws, w.1 = k → w.2 = τ k) : last (prune τ ws) k = none := by
  rw [last_eq_none_iff]
  rintro ⟨w, hw, rfl⟩
  rw [prune, List.mem_filter] at hw
  simpa [h w hw.1 rfl] using hw.2

omit [DecidableEq K] in
theorem prune_cons_of_ne {τ : K → V} {w : K × V} (ws : List (K × V)) (h : w.2 ≠ τ w.1) :
    prune τ (w :: ws) = w :: prune τ ws := by
  simp [prune, h]

omit [DecidableEq K] in
theorem prune_cons_of_eq {τ : K → V} {w : K × V} (ws : List (K × V)) (h : w.2 = τ w.1) :
    prune τ (w :: ws) = prune τ ws := by
  simp [prune, h]

omit [DecidableEq K] in
theorem Touches.of_prune {τ : K → V} {ws : List (K × V)} {k : K} (h : Touches (prune τ ws) k) :
    Touches ws k := by
  obtain ⟨w, hw, hk⟩ := h
  exact ⟨w, (List.mem_filter.1 hw).1, hk⟩

/-- When the last write survives the pruning, it is still the last. -/
theorem last_prune_of_ne {τ : K → V} {ws : List (K × V)} {k : K} {v : V}
    (h : last ws k = some v) (hv : v ≠ τ k) : last (prune τ ws) k = some v := by
  induction ws with
  | nil => simp at h
  | cons w ws ih =>
      rw [last_cons, Option.or_eq_some_iff] at h
      rcases h with h | ⟨hnone, h⟩
      · by_cases hw : w.2 = τ w.1
        · rw [prune_cons_of_eq ws hw, ih h]
        · rw [prune_cons_of_ne ws hw, last_cons, ih h]
          rfl
      · split at h
        · rename_i hk
          cases h
          have hpruned : last (prune τ ws) k = none := by
            rw [last_eq_none_iff] at hnone ⊢
            exact fun htouch => hnone htouch.of_prune
          rw [prune_cons_of_ne ws (by rw [hk]; exact hv), last_cons, hpruned, if_pos hk]
          rfl
        · cases h

/-- A pruned log that still touches a key leaves it away from `τ`. -/
theorem replay_prune_ne {τ : K → V} {ws : List (K × V)} {k : K}
    (h : ∃ w ∈ ws, w.1 = k ∧ w.2 ≠ τ k) : replay τ (prune τ ws) k ≠ τ k := by
  obtain ⟨w, hw, rfl, hv⟩ := h
  have hmem : w ∈ prune τ ws := List.mem_filter.2 ⟨hw, by simpa using hv⟩
  rw [replay_eq_last]
  cases hlast : last (prune τ ws) w.1 with
  | none => exact absurd ⟨w, hmem, rfl⟩ ((last_eq_none_iff _ _).1 hlast)
  | some v =>
      have hkeep := (List.mem_filter.1 (mem_of_last hlast)).2
      simpa using hkeep

/-- **Pruning is harmless exactly when no key is written away and finally written back.** -/
theorem replay_prune_iff (τ : K → V) (ws : List (K × V)) :
    (∀ k, replay τ (prune τ ws) k = (last ws k).getD (τ k)) ↔
      ∀ k, last ws k = some (τ k) → ∀ w ∈ ws, w.1 = k → w.2 = τ k := by
  constructor
  · intro h k hlast w hw hk
    by_contra hne
    have hk' := h k
    rw [hlast, Option.getD_some] at hk'
    exact replay_prune_ne ⟨w, hw, hk, hne⟩ hk'
  · intro h k
    rw [replay_eq_last]
    cases hlast : last ws k with
    | none =>
        rw [last_prune_of_none]
        intro w hw hk
        exact absurd ⟨w, hw, hk⟩ ((last_eq_none_iff _ _).1 hlast)
    | some v =>
        by_cases hv : v = τ k
        · subst hv
          rw [last_prune_of_none (h k hlast)]
          rfl
        · rw [last_prune_of_ne hlast hv]

end Prune

end Replay
