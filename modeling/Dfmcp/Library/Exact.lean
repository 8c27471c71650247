import Dfmcp.Library.Wire

/-!
# Readers that read one encoding

`Parses` says that a reader reads what an encoder wrote. `Exact` is the converse: whatever the reader
accepts was written by the encoder of the value that it returns. A format of which both hold has one
byte string for each value, and no other is accepted.

* `Exact.bind_ok` — inversion of a reader that continues after an exact one;
* `Exact.take`, `Exact.map` — the exact readers of parts.
-/

open Machine

namespace Wire

universe u

variable {ε : Type u} {α β : Type}

/-- Every accepted input starts with the encoding of the value read, and leaves the rest. -/
def Exact (p : Reader ε α) (encode : α → Bytes) : Prop :=
  ∀ bs a rest, p bs = .ok (a, rest) → bs = encode a ++ rest

variable {p : Reader ε α} {encode : α → Bytes}

/-- After an exact reader. -/
theorem Exact.bind_ok {f : α → Reader ε β} {bs : Bytes} {x : β × Bytes} (hp : Exact p encode)
    (h : (p >>= f) bs = .ok x) : ∃ a rest, bs = encode a ++ rest ∧ f a rest = .ok x := by
  obtain ⟨a, rest, ha, hf⟩ := run_bind_ok_iff.1 h
  exact ⟨a, rest, hp bs a rest ha, hf⟩

theorem Exact.take (e : ε) (n : Nat) : Exact (Wire.take e n) id :=
  fun _ _ _ h => (run_take_ok_iff.1 h).1

/-- A value computed from an exact one that has it back. -/
theorem Exact.map {encode' : β → Bytes} {f : α → β} (hp : Exact p encode)
    (hf : ∀ bs a rest, p bs = .ok (a, rest) → encode' (f a) = encode a) :
    Exact (p >>= fun a => pure (f a)) encode' := by
  intro bs b rest h
  obtain ⟨a, rest', ha, hpure⟩ := run_bind_ok_iff.1 h
  obtain ⟨hb, hrest⟩ := run_pure_ok_iff.1 hpure
  rw [hp bs a rest' ha, ← hf bs a rest' ha, hb, hrest]

end Wire
