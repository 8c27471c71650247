import Dfmcp.Library.Machine
import Dfmcp.Library.OrderedMap

/-!
# Readers of byte strings

A `Reader` consumes a prefix of its input or fails. `Parses c p bs a` says that `p`, on the bytes
`bs` and whatever follows them, reads exactly `bs` as `a` or fails, and does not fail when `c`
holds: partial correctness, and total correctness under `c`, in one. It composes along the
reader's own structure: sequencing readers concatenates what they read (`Parses.bind`),
repeating a reader reads a list (`Parses.replicate`), and reading entries in ascending key order
reads an ordered map (`Parses.ascending`) or, out of order, nothing (`Parses.ascending_fails`). A
round-trip theorem for a format is then assembled from one `Parses` fact for each of its parts.

Input lengths stay below `2 ^ 64`, the largest count a 64-bit length prefix can state.
-/

namespace Wire

open Machine

universe u v

variable {ε : Type u} {α β : Type}

/-- A reader: consume a prefix of the input, or fail. -/
abbrev Reader (ε : Type u) := StateT Bytes (Except ε)

/-- Refuse the input. -/
def fail (e : ε) : Reader ε α := fun _ => .error e

/-- The number of bytes left. -/
def remaining : Reader ε Nat := fun bs => .ok (bs.length, bs)

/-- Read exactly `n` bytes, or fail with `e`. -/
def take (e : ε) (n : Nat) : Reader ε Bytes := fun bs =>
  if n ≤ bs.length then .ok (bs.take n, bs.drop n) else .error e

/-- Run a reader `n` times. -/
def replicate (p : Reader ε α) : Nat → Reader ε (List α)
  | 0 => pure []
  | n + 1 => do
      let a ← p
      let rest ← replicate p n
      pure (a :: rest)

/-- Read `n` entries whose keys must ascend strictly above `lo`. The order of an entry is
checked once the whole entry has been read. -/
def ascending {K : Type} {V : Type} [LinearOrder K] (e : ε) (p : Reader ε (K × V)) :
    Nat → (lo : Option K) → Reader ε (OMap K V lo)
  | 0, _ => pure .nil
  | n + 1, lo => do
      let (k, v) ← p
      if h : ∀ l ∈ lo, l < k then
        let rest ← ascending e p n (some k)
        pure (.cons k h v rest)
      else fail e

/-! ## Reading exactly -/

/-- On `bs` and whatever follows, `p` reads exactly `bs` as `a`, or fails; it does not fail
when `c` holds. -/
def Parses (c : Prop) (p : Reader ε α) (bs : Bytes) (a : α) : Prop :=
  ∀ rest, (bs ++ rest).length < 2 ^ 64 →
    p (bs ++ rest) = .ok (a, rest) ∨ ¬ c ∧ ∃ e, p (bs ++ rest) = .error e

variable {c : Prop}

theorem run_bind (p : Reader ε α) (f : α → Reader ε β) (bs : Bytes) :
    (p >>= f) bs = (p bs >>= fun r => f r.1 r.2) := rfl

/-- What a sequence of readers reads, its parts read one after the other. -/
theorem run_bind_ok_iff {p : Reader ε α} {f : α → Reader ε β} {bs : Bytes} {x : β × Bytes} :
    (p >>= f) bs = .ok x ↔ ∃ a rest, p bs = .ok (a, rest) ∧ f a rest = .ok x := by
  rw [run_bind]
  cases p bs with
  | error e => simp [bind, Except.bind]
  | ok out =>
      constructor
      · intro h
        exact ⟨out.1, out.2, rfl, h⟩
      · rintro ⟨a, rest, hout, h⟩
        cases hout
        exact h

theorem run_take_ok_iff {e : ε} {n : Nat} {bs a rest : Bytes} :
    Wire.take e n bs = .ok (a, rest) ↔ bs = a ++ rest ∧ a.length = n := by
  unfold Wire.take
  by_cases hle : n ≤ bs.length
  · rw [if_pos hle]
    constructor
    · intro h
      obtain ⟨rfl, rfl⟩ := Prod.mk.inj (Except.ok.inj h)
      exact ⟨(List.take_append_drop n bs).symm, List.length_take_of_le hle⟩
    · rintro ⟨rfl, rfl⟩
      simp
  · rw [if_neg hle]
    constructor
    · intro h
      cases h
    · rintro ⟨rfl, rfl⟩
      simp at hle

theorem run_pure_ok_iff {a b : α} {bs rest : Bytes} :
    (Pure.pure a : Reader ε α) bs = .ok (b, rest) ↔ b = a ∧ rest = bs := by
  constructor
  · intro h
    obtain ⟨rfl, rfl⟩ := Prod.mk.inj (Except.ok.inj h)
    exact ⟨rfl, rfl⟩
  · rintro ⟨rfl, rfl⟩
    rfl

theorem Parses.mono {c' : Prop} {p : Reader ε α} {bs : Bytes} {a : α} (h : Parses c p bs a)
    (hc : c' → c) : Parses c' p bs a := by
  intro rest hlen
  rcases h rest hlen with hok | ⟨hno, herr⟩
  · exact .inl hok
  · exact .inr ⟨fun h => hno (hc h), herr⟩

theorem Parses.pure (a : α) : Parses c (Pure.pure a : Reader ε α) [] a := fun _ _ => .inl rfl

theorem Parses.fail {a : α} {bs : Bytes} (e : ε) (hc : ¬ c) : Parses c (Wire.fail e) bs a :=
  fun _ _ => .inr ⟨hc, e, rfl⟩

theorem Parses.bind {p : Reader ε α} {f : α → Reader ε β} {bs cs : Bytes} {a : α} {b : β}
    (hp : Parses c p bs a) (hf : Parses c (f a) cs b) : Parses c (p >>= f) (bs ++ cs) b := by
  intro rest hlen
  have hrest : (cs ++ rest).length < 2 ^ 64 := by
    simp only [List.length_append] at hlen ⊢
    omega
  rw [List.append_assoc] at hlen ⊢
  rw [run_bind]
  rcases hp _ hlen with hok | ⟨hno, e, herr⟩
  · rw [hok]
    exact hf rest hrest
  · rw [herr]
    exact .inr ⟨hno, e, rfl⟩

/-- What follows a reader may read nothing more. -/
theorem Parses.bind_nil {p : Reader ε α} {f : α → Reader ε β} {bs : Bytes} {a : α} {b : β}
    (hp : Parses c p bs a) (hf : Parses c (f a) [] b) : Parses c (p >>= f) bs b := by
  have h := hp.bind hf
  rwa [List.append_nil] at h

/-- A reader followed by a total function of what it read. -/
theorem Parses.bind_pure {p : Reader ε α} {bs : Bytes} {a : α} {f : α → β}
    (hp : Parses c p bs a) : Parses c (p >>= fun x => Pure.pure (f x)) bs (f a) :=
  hp.bind_nil (Parses.pure (f a))

theorem Parses.map {p : Reader ε α} {bs : Bytes} {a : α} (f : α → β) (hp : Parses c p bs a) :
    Parses c (f <$> p) bs (f a) := by
  rw [map_eq_pure_bind]
  exact hp.bind_pure

/-- **What one reader reads exactly is told apart**: byte strings that start alike were written for
the same value. -/
theorem Parses.inj {p : Reader ε α} {bs cs x y : Bytes} {a b : α} (ha : Parses c p bs a)
    (hb : Parses c p cs b) (hc : c) (hlen : (bs ++ x).length < 2 ^ 64) (h : bs ++ x = cs ++ y) :
    a = b ∧ x = y := by
  have hfirst : p (bs ++ x) = .ok (a, x) := (ha x hlen).resolve_right fun hno => hno.1 hc
  have hsecond : p (cs ++ y) = .ok (b, y) :=
    (hb y (h ▸ hlen)).resolve_right fun hno => hno.1 hc
  rw [h, hsecond] at hfirst
  obtain ⟨rfl, rfl⟩ := Prod.mk.inj (Except.ok.inj hfirst)
  exact ⟨rfl, rfl⟩

/-- On `bs` and whatever follows, `p` fails. -/
def Fails (p : Reader ε α) (bs : Bytes) : Prop :=
  ∀ rest, (bs ++ rest).length < 2 ^ 64 → ∃ e, p (bs ++ rest) = .error e

theorem Parses.bind_fails {p : Reader ε α} {f : α → Reader ε β} {bs cs : Bytes} {a : α}
    (hp : Parses c p bs a) (hf : Fails (f a) cs) : Fails (p >>= f) (bs ++ cs) := by
  intro rest hlen
  have hrest : (cs ++ rest).length < 2 ^ 64 := by
    simp only [List.length_append] at hlen ⊢
    omega
  rw [List.append_assoc] at hlen ⊢
  rw [run_bind]
  rcases hp _ hlen with hok | ⟨-, e, herr⟩
  · rw [hok]
    exact hf rest hrest
  · rw [herr]
    exact ⟨e, rfl⟩

theorem Fails.bind {p : Reader ε α} {bs : Bytes} (h : Fails p bs) (f : α → Reader ε β)
    (cs : Bytes) : Fails (p >>= f) (bs ++ cs) := by
  intro rest hlen
  rw [List.append_assoc] at hlen ⊢
  obtain ⟨e, herr⟩ := h (cs ++ rest) hlen
  rw [run_bind, herr]
  exact ⟨e, rfl⟩

/-- `p` reads the whole of `bs` as `a`, or fails; it does not fail when `c` holds. -/
def ParsesAll (c : Prop) (p : Reader ε α) (bs : Bytes) (a : α) : Prop :=
  bs.length < 2 ^ 64 → p bs = .ok (a, []) ∨ ¬ c ∧ ∃ e, p bs = .error e

/-- The rest of a whole input, after what its first reader has read. -/
theorem Parses.bind_all {p : Reader ε α} {f : α → Reader ε β} {bs cs : Bytes} {a : α} {b : β}
    (hp : Parses c p bs a) (hf : ParsesAll c (f a) cs b) : ParsesAll c (p >>= f) (bs ++ cs) b := by
  intro hlen
  have hrest : cs.length < 2 ^ 64 := by
    rw [List.length_append] at hlen
    omega
  rw [run_bind]
  rcases hp cs hlen with hok | ⟨hno, e, herr⟩
  · rw [hok]
    exact hf hrest
  · rw [herr]
    exact .inr ⟨hno, e, rfl⟩

/-- The last reader of a whole input, and what is checked after it. -/
theorem Parses.bind_all_nil {p : Reader ε α} {f : α → Reader ε β} {bs : Bytes} {a : α} {b : β}
    (hp : Parses c p bs a) (hf : ParsesAll c (f a) [] b) : ParsesAll c (p >>= f) bs b := by
  have h := hp.bind_all hf
  rwa [List.append_nil] at h

theorem Parses.take (e : ε) (bs : Bytes) : Parses c (Wire.take e bs.length) bs bs := by
  intro rest _
  simp [Wire.take]

theorem Parses.replicate {γ : Type} {p : Reader ε α} {enc : γ → Bytes} {g : γ → α} {l : List γ}
    (h : ∀ x ∈ l, Parses c p (enc x) (g x)) :
    Parses c (Wire.replicate p l.length) (l.flatMap enc) (l.map g) := by
  induction l with
  | nil => exact Parses.pure []
  | cons x l ih =>
      have htail := ih fun y hy => h y (List.mem_cons_of_mem x hy)
      rw [List.length_cons, List.flatMap_cons]
      exact (h x List.mem_cons_self).bind htail.bind_pure

/-- Entries that are those of an ordered map are read as that map. -/
theorem Parses.ascending {K V γ : Type} [LinearOrder K] (e : ε) {p : Reader ε (K × V)}
    {enc : γ → Bytes} {g : γ → K × V} {l : List γ} {lo : Option K} {m : OMap K V lo}
    (hm : m.toList = l.map g) (h : ∀ x ∈ l, Parses c p (enc x) (g x)) :
    Parses c (Wire.ascending e p l.length lo) (l.flatMap enc) m := by
  induction l generalizing lo m with
  | nil =>
      cases m with
      | nil => exact Parses.pure _
      | cons k hk v rest => cases hm
  | cons x l ih =>
      cases m with
      | nil => cases hm
      | cons k hk v rest =>
          rw [OMap.toList_cons, List.map_cons, List.cons.injEq] at hm
          have htail := ih hm.2 fun y hy => h y (List.mem_cons_of_mem x hy)
          have hhead := h x List.mem_cons_self
          rw [← hm.1] at hhead
          rw [List.length_cons, List.flatMap_cons]
          refine hhead.bind ?_
          change Parses c (if h : ∀ l ∈ _, l < k then _ else _) _ _
          rw [dif_pos hk]
          exact htail.bind_pure

/-- Entries that no ordered map lists are refused. -/
theorem Parses.ascending_fails {K V γ : Type} [LinearOrder K] (e : ε) {p : Reader ε (K × V)}
    {enc : γ → Bytes} {g : γ → K × V} {l : List γ} {lo : Option K}
    (h : ∀ x ∈ l, Parses c p (enc x) (g x))
    (hm : ¬ ∃ m : OMap K V lo, m.toList = l.map g) :
    Fails (Wire.ascending e p l.length lo) (l.flatMap enc) := by
  induction l generalizing lo with
  | nil => exact absurd ⟨.nil, rfl⟩ hm
  | cons x l ih =>
      rw [List.length_cons, List.flatMap_cons]
      refine (h x List.mem_cons_self).bind_fails ?_
      change Fails (if h : ∀ l ∈ lo, l < (g x).1 then _ else _) _
      by_cases hlo : ∀ l ∈ lo, l < (g x).1
      · rw [dif_pos hlo]
        have htail := @ih (some (g x).1) (fun y hy => h y (List.mem_cons_of_mem x hy))
          fun ⟨m, hlist⟩ => hm ⟨.cons (g x).1 hlo (g x).2 m, by rw [OMap.toList_cons, hlist]; rfl⟩
        have hbind := htail.bind (fun rest => Pure.pure (OMap.cons (g x).1 hlo (g x).2 rest)) []
        rwa [List.append_nil] at hbind
      · rw [dif_neg hlo]
        exact fun _ _ => ⟨e, rfl⟩

end Wire
