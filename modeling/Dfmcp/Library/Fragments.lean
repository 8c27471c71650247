import Mathlib

/-!
# Decoding a stream in fragments

A poll looks at the elements that have arrived. It waits for more, takes an item off their front, or
fails. When what arrives later does not change a poll that did not wait (`Stable`), taking items off
the stream after every fragment gives the same items as taking them off the whole stream, and stops
with the same failure or the same rest.

* `drain_frame`, `drain_fail`, `drain_wait` — the items of a buffer, one poll at a time;
* `Stable.drain_append` — what later elements add;
* `Stable.feed_eq_drain` — fragments or the whole.
-/

namespace Fragments

variable {α ε ι : Type}

/-- What a poll finds. -/
inductive Poll (α ε ι : Type) where
  | wait
  | frame (item : ι) (rest : List α)
  | fail (e : ε)

/-- Later elements do not change what was found, and every item takes elements off the buffer. -/
structure Stable (poll : List α → Poll α ε ι) : Prop where
  frame : ∀ buffer item rest more, poll buffer = .frame item rest →
    poll (buffer ++ more) = .frame item (rest ++ more)
  fail : ∀ buffer e more, poll buffer = .fail e → poll (buffer ++ more) = .fail e
  shorter : ∀ buffer item rest, poll buffer = .frame item rest → rest.length < buffer.length

/-- The items that were delivered, and what the stream stopped with: a failure, or elements that are
not an item yet. -/
structure Delivered (α ε ι : Type) where
  items : List ι
  outcome : Except ε (List α)
deriving DecidableEq

/-- Items delivered before others. -/
def Delivered.after (d : Delivered α ε ι) (items : List ι) : Delivered α ε ι :=
  ⟨items ++ d.items, d.outcome⟩

@[simp] theorem Delivered.after_nil (d : Delivered α ε ι) : d.after [] = d := rfl

@[simp] theorem Delivered.after_after (d : Delivered α ε ι) (items more : List ι) :
    (d.after more).after items = d.after (items ++ more) := by
  simp [Delivered.after, List.append_assoc]

variable {poll : List α → Poll α ε ι}

/-- Take items off a buffer until a poll waits or fails. -/
def drain (poll : List α → Poll α ε ι) (hpoll : Stable poll) (buffer : List α) :
    Delivered α ε ι :=
  match hfound : poll buffer with
  | .wait => ⟨[], .ok buffer⟩
  | .fail e => ⟨[], .error e⟩
  | .frame item rest =>
      have : rest.length < buffer.length := hpoll.shorter buffer item rest hfound
      (drain poll hpoll rest).after [item]
termination_by buffer.length

section Drain

variable {hpoll : Stable poll} {buffer rest : List α} {item : ι} {e : ε}

theorem drain_wait (h : poll buffer = .wait) : drain poll hpoll buffer = ⟨[], .ok buffer⟩ := by
  rw [drain]
  split
  · rfl
  · next hfound => cases h.symm.trans hfound
  · next hfound => cases h.symm.trans hfound

theorem drain_fail (h : poll buffer = .fail e) : drain poll hpoll buffer = ⟨[], .error e⟩ := by
  rw [drain]
  split
  · next hfound => cases h.symm.trans hfound
  · next hfound =>
      cases h.symm.trans hfound
      rfl
  · next hfound => cases h.symm.trans hfound

theorem drain_frame (h : poll buffer = .frame item rest) :
    drain poll hpoll buffer = (drain poll hpoll rest).after [item] := by
  rw [drain]
  split
  · next hfound => cases h.symm.trans hfound
  · next hfound => cases h.symm.trans hfound
  · next hfound =>
      cases h.symm.trans hfound
      rfl

/-- What is left of a buffer is waited for. -/
theorem poll_of_drain_ok {left : List α} (h : (drain poll hpoll buffer).outcome = .ok left) :
    poll left = .wait := by
  induction hn : buffer.length using Nat.strongRecOn generalizing buffer with
  | ind n ih =>
      cases hfound : poll buffer with
      | wait =>
          rw [drain_wait hfound] at h
          rw [← Except.ok.inj h]
          exact hfound
      | fail e =>
          rw [drain_fail hfound] at h
          cases h
      | frame item rest =>
          rw [drain_frame hfound] at h
          exact ih rest.length (hn ▸ hpoll.shorter _ _ _ hfound) h rfl

/-- **What later elements add.** Nothing after a failure; otherwise the items that start in what was
left. -/
theorem Stable.drain_append (more : List α) :
    drain poll hpoll (buffer ++ more) =
      match (drain poll hpoll buffer).outcome with
      | .error e => ⟨(drain poll hpoll buffer).items, .error e⟩
      | .ok left => (drain poll hpoll (left ++ more)).after (drain poll hpoll buffer).items := by
  induction hn : buffer.length using Nat.strongRecOn generalizing buffer with
  | ind n ih =>
      cases hfound : poll buffer with
      | wait =>
          rw [drain_wait hfound]
          rfl
      | fail e => rw [drain_fail hfound, drain_fail (hpoll.fail _ _ more hfound)]
      | frame item rest =>
          have hrest := ih rest.length (hn ▸ hpoll.shorter _ _ _ hfound) rfl
          rw [drain_frame hfound, drain_frame (hpoll.frame _ _ _ more hfound), hrest]
          cases hout : (drain poll hpoll rest).outcome with
          | error e => simp [Delivered.after, hout]
          | ok left => simp [Delivered.after, hout]

end Drain

/-! ## Fragments -/

section Feed

variable (hpoll : Stable poll)

/-- Take items off the stream after every fragment. -/
def feed : List (List α) → List α → Delivered α ε ι
  | [], buffer => ⟨[], .ok buffer⟩
  | chunk :: chunks, buffer =>
      match (drain poll hpoll (buffer ++ chunk)).outcome with
      | .error e => ⟨(drain poll hpoll (buffer ++ chunk)).items, .error e⟩
      | .ok left => (feed chunks left).after (drain poll hpoll (buffer ++ chunk)).items

/-- **Fragments deliver what the whole stream does.** -/
theorem Stable.feed_eq_drain (chunks : List (List α)) {buffer : List α} (h : poll buffer = .wait) :
    feed hpoll chunks buffer = drain poll hpoll (buffer ++ chunks.flatten) := by
  induction chunks generalizing buffer with
  | nil => rw [List.flatten_nil, List.append_nil, feed, drain_wait h]
  | cons chunk chunks ih =>
      rw [List.flatten_cons, ← List.append_assoc, drain_append, feed]
      cases hout : (drain poll hpoll (buffer ++ chunk)).outcome with
      | error e => rfl
      | ok left =>
          show (feed hpoll chunks left).after _ = _
          rw [ih (poll_of_drain_ok hout)]

end Feed

end Fragments
