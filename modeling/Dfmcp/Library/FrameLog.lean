import Dfmcp.Library.Machine

/-!
# Logs of frames

A log is a byte string that is read frame by frame. Reading at the front of the bytes (`read`)
refuses them, finds that they end inside a frame (`Reading.torn`), or takes a frame and moves the
state on (`Reading.frame`). `replay` reads frames until nothing, or only a torn tail, is left.

All that is asked of `read` is that it is `Local`: a frame has at least one byte, and whether it is
read depends on its own bytes only. Then

* `replay_append` — bytes after a log that reads to its end are read from the state it leaves;
* `replay_split` — what is read before a torn tail is a log that reads to its end;
* `replay_preserves` — what every frame preserves, every log preserves;
* `replay_preserves_read` — the same, of a state and the bytes that were read;
* `replay_measure` — a state that counts the bytes of each frame counts the bytes of a log.
-/

namespace FrameLog

open Machine

universe u v

variable {σ : Type u} {ε : Type v}

/-- What reading at the front of a byte string finds. -/
inductive Reading (σ : Type u)
  | torn
  | frame (next : σ) (taken : Nat)

/-- Read at most `fuel` frames. -/
def scan (read : σ → Bytes → Except ε (Reading σ)) : Nat → σ → Bytes → Except ε (σ × Bytes)
  | 0, s, bytes => .ok (s, bytes)
  | fuel + 1, s, bytes =>
    if bytes = [] then .ok (s, [])
    else match read s bytes with
      | .error e => .error e
      | .ok .torn => .ok (s, bytes)
      | .ok (.frame t taken) => scan read fuel t (bytes.drop taken)

/-- Read every frame: the state reached, and the torn tail. A frame takes at least one byte, so
there are no more frames than bytes. -/
def replay (read : σ → Bytes → Except ε (Reading σ)) (s : σ) (bytes : Bytes) :
    Except ε (σ × Bytes) :=
  scan read bytes.length s bytes

/-- Frames are not empty, and a frame is read whatever follows it. -/
structure Local (read : σ → Bytes → Except ε (Reading σ)) : Prop where
  pos {s bytes t taken} : read s bytes = .ok (.frame t taken) → 0 < taken
  le {s bytes t taken} : read s bytes = .ok (.frame t taken) → taken ≤ bytes.length
  stable {s bytes t taken} : read s bytes = .ok (.frame t taken) →
    ∀ rest, read s (bytes.take taken ++ rest) = .ok (.frame t taken)

variable {read : σ → Bytes → Except ε (Reading σ)} {s t : σ} {bytes tail : Bytes} {n : Nat}

@[simp] theorem replay_nil (s : σ) : replay read s [] = .ok (s, []) := rfl

/-- More fuel than there are bytes changes nothing. -/
theorem scan_eq_replay (hlocal : Local read) {fuel : Nat} (hfuel : bytes.length ≤ fuel) :
    scan read fuel s bytes = replay read s bytes := by
  -- on the fuel; a frame leaves fewer bytes, so both sides go on with enough of it
  induction fuel using Nat.strong_induction_on generalizing s bytes with
  | _ fuel ih =>
      cases bytes with
      | nil => cases fuel <;> rfl
      | cons b bytes =>
          obtain ⟨fuel, rfl⟩ : ∃ k, fuel = k + 1 := ⟨fuel - 1, by
            rw [List.length_cons] at hfuel
            omega⟩
          rw [replay, List.length_cons, scan, scan, if_neg (List.cons_ne_nil b bytes),
            if_neg (List.cons_ne_nil b bytes)]
          cases hread : read s (b :: bytes) with
          | error e => rfl
          | ok reading =>
              cases reading with
              | torn => rfl
              | frame t taken =>
                  have hpos := hlocal.pos hread
                  have hle := hlocal.le hread
                  have hlength : ((b :: bytes).drop taken).length ≤ bytes.length := by
                    rw [List.length_drop, List.length_cons]
                    omega
                  rw [List.length_cons] at hfuel
                  change scan read fuel t _ = scan read bytes.length t _
                  rw [ih fuel (Nat.lt_succ_self fuel) (by omega)]
                  by_cases heq : bytes.length = fuel
                  · rw [heq, ih fuel (Nat.lt_succ_self fuel) (by omega)]
                  · rw [ih bytes.length (by omega) hlength]

/-- A frame is read, and then the rest. -/
theorem replay_frame (hlocal : Local read) (h : read s bytes = .ok (.frame t n)) :
    replay read s bytes = replay read t (bytes.drop n) := by
  have hpos := hlocal.pos h
  have hle := hlocal.le h
  cases bytes with
  | nil =>
      rw [List.length_nil] at hle
      omega
  | cons b bytes =>
      have hlength : ((b :: bytes).drop n).length ≤ bytes.length := by
        rw [List.length_drop, List.length_cons]
        omega
      rw [replay, List.length_cons, scan, if_neg (List.cons_ne_nil b bytes), h]
      exact scan_eq_replay hlocal hlength

theorem replay_torn (h : read s bytes = .ok .torn) : replay read s bytes = .ok (s, bytes) := by
  cases bytes with
  | nil => rfl
  | cons b bytes => rw [replay, List.length_cons, scan, if_neg (List.cons_ne_nil b bytes), h]

theorem replay_error {e : ε} (hne : bytes ≠ []) (h : read s bytes = .error e) :
    replay read s bytes = .error e := by
  cases bytes with
  | nil => exact absurd rfl hne
  | cons b bytes => rw [replay, List.length_cons, scan, if_neg hne, h]

/-- How a log that is read begins. -/
theorem replay_cases (hlocal : Local read) (h : replay read s bytes = .ok (t, tail)) :
    (bytes = [] ∧ t = s ∧ tail = []) ∨
    (bytes ≠ [] ∧ read s bytes = .ok .torn ∧ t = s ∧ tail = bytes) ∨
    ∃ m n, 0 < n ∧ n ≤ bytes.length ∧ read s bytes = .ok (.frame m n) ∧
      replay read m (bytes.drop n) = .ok (t, tail) := by
  by_cases hempty : bytes = []
  · subst hempty
    obtain ⟨rfl, rfl⟩ := Prod.mk.inj (Except.ok.inj h)
    exact .inl ⟨rfl, rfl, rfl⟩
  cases hread : read s bytes with
  | error e =>
      rw [replay_error hempty hread] at h
      cases h
  | ok reading =>
      cases reading with
      | torn =>
          rw [replay_torn hread] at h
          obtain ⟨rfl, rfl⟩ := Prod.mk.inj (Except.ok.inj h)
          exact .inr (.inl ⟨hempty, rfl, rfl, rfl⟩)
      | frame m n =>
          rw [replay_frame hlocal hread] at h
          exact .inr (.inr ⟨m, n, hlocal.pos hread, hlocal.le hread, rfl, h⟩)

/-- **What every frame preserves, every log preserves.** -/
theorem replay_preserves (hlocal : Local read) {P : σ → Prop}
    (hstep : ∀ {s bytes t n}, P s → read s bytes = .ok (.frame t n) → P t) (hs : P s)
    (h : replay read s bytes = .ok (t, tail)) : P t := by
  induction hlength : bytes.length using Nat.strong_induction_on generalizing s bytes with
  | _ k ih =>
      rcases replay_cases hlocal h with ⟨-, rfl, -⟩ | ⟨-, -, rfl, -⟩ | ⟨m, n, hpos, hle, hread, hrest⟩
      · exact hs
      · exact hs
      · refine ih _ ?_ (hstep hs hread) hrest rfl
        rw [List.length_drop]
        omega

/-- **What every frame preserves of a state and the bytes read so far, every log preserves.** -/
theorem replay_preserves_read (hlocal : Local read) {P : Bytes → σ → Prop} {done : Bytes}
    (hstep : ∀ {done s bytes t n}, P done s → read s bytes = .ok (.frame t n) →
      P (done ++ bytes.take n) t)
    (hs : P done s) (h : replay read s bytes = .ok (t, [])) : P (done ++ bytes) t := by
  induction hlength : bytes.length using Nat.strong_induction_on generalizing done s bytes with
  | _ k ih =>
      rcases replay_cases hlocal h with ⟨rfl, rfl, -⟩ | ⟨hne, -, -, hnil⟩ |
        ⟨m, n, hpos, hle, hread, hrest⟩
      · rwa [List.append_nil]
      · exact absurd hnil.symm hne
      · have hnext := ih _ (by rw [List.length_drop]; omega) (hstep hs hread) hrest rfl
        rwa [List.append_assoc, List.take_append_drop] at hnext

/-- **A state that counts each frame's bytes counts those of the log.** -/
theorem replay_measure (hlocal : Local read) {f : σ → Nat}
    (hstep : ∀ {s bytes t n}, read s bytes = .ok (.frame t n) → f t = f s + n)
    (h : replay read s bytes = .ok (t, tail)) : f t + tail.length = f s + bytes.length := by
  induction hlength : bytes.length using Nat.strong_induction_on generalizing s bytes with
  | _ k ih =>
      rcases replay_cases hlocal h with ⟨rfl, rfl, rfl⟩ | ⟨-, -, rfl, rfl⟩ |
        ⟨m, n, hpos, hle, hread, hrest⟩
      · rw [hlength]
      · rw [hlength]
      · have hframe := hstep hread
        have htail := ih _ (by rw [List.length_drop]; omega) hrest rfl
        rw [List.length_drop] at htail
        omega

/-- **What follows a log is read from the state the log leaves.** -/
theorem replay_append (hlocal : Local read) (h : replay read s bytes = .ok (t, []))
    (rest : Bytes) : replay read s (bytes ++ rest) = replay read t rest := by
  induction hlength : bytes.length using Nat.strong_induction_on generalizing s bytes with
  | _ k ih =>
      rcases replay_cases hlocal h with ⟨rfl, rfl, -⟩ | ⟨hne, -, -, hnil⟩ |
        ⟨m, n, hpos, hle, hread, hrest⟩
      · rfl
      · exact absurd hnil.symm hne
      · have hfront : read s (bytes ++ rest) = .ok (.frame m n) := by
          have hstable := hlocal.stable hread (bytes.drop n ++ rest)
          rwa [← List.append_assoc, List.take_append_drop] at hstable
        rw [replay_frame hlocal hfront, List.drop_append_of_le_length hle]
        refine ih _ ?_ hrest rfl
        rw [List.length_drop]
        omega

/-- **What is read before a torn tail is a log of its own.** -/
theorem replay_split (hlocal : Local read) (h : replay read s bytes = .ok (t, tail)) :
    ∃ body, bytes = body ++ tail ∧ replay read s body = .ok (t, []) := by
  induction hlength : bytes.length using Nat.strong_induction_on generalizing s bytes with
  | _ k ih =>
      rcases replay_cases hlocal h with ⟨rfl, rfl, rfl⟩ | ⟨-, -, rfl, rfl⟩ |
        ⟨m, n, hpos, hle, hread, hrest⟩
      · exact ⟨[], rfl, rfl⟩
      · exact ⟨[], rfl, rfl⟩
      · obtain ⟨body, hbody, hreplay⟩ := ih _ (by rw [List.length_drop]; omega) hrest rfl
        refine ⟨bytes.take n ++ body, ?_, ?_⟩
        · rw [List.append_assoc, ← hbody, List.take_append_drop]
        · rw [replay_frame hlocal (hlocal.stable hread body),
            List.drop_left' (List.length_take_of_le hle)]
          exact hreplay

end FrameLog
