import Mathlib

/-!
# Prefix-free codes

A code is prefix-free when no code word starts another, so that a sequence of code words, one
after the other, can be split in one way only. Codes of one length are prefix-free; so is a code
behind a tag, and a list of code words whose number is known. A format whose fields are written
one after the other is then taken apart field by field, from the left.

* `PrefixFree.of_length` — words of one length;
* `PrefixFree.option` — an optional word behind a tag;
* `PrefixFree.flatMap_eq` — lists of words of the same number;
* `PrefixFree.flatMap_stop` — lists of words before a symbol that starts no word;
* `PrefixFree.flatMap_le` — of two lists of words, the shorter starts the longer.
-/

namespace Codes

universe u v w

variable {α : Type u} {β : Type v} {γ : Type w} {enc : α → List γ}

/-- No code word starts another. -/
def PrefixFree (enc : α → List γ) : Prop :=
  ∀ ⦃a b : α⦄ ⦃x y : List γ⦄, enc a ++ x = enc b ++ y → a = b ∧ x = y

theorem PrefixFree.injective (h : PrefixFree enc) : Function.Injective enc := by
  intro a b hab
  exact (h (congrArg (· ++ []) hab)).1

/-- Words of one length. -/
theorem PrefixFree.of_length (hinj : Function.Injective enc)
    (hlength : ∀ a b, (enc a).length = (enc b).length) : PrefixFree enc := by
  intro a b x y h
  obtain ⟨hword, hrest⟩ := List.append_inj h (hlength a b)
  exact ⟨hinj hword, hrest⟩

/-- An optional word behind a tag. -/
theorem PrefixFree.option (h : PrefixFree enc) {present absent : γ} (htag : present ≠ absent) :
    PrefixFree fun o : Option α =>
      match o with
      | some a => present :: enc a
      | none => [absent] := by
  intro a b x y hab
  cases a with
  | none =>
      cases b with
      | none => exact ⟨rfl, List.cons_injective hab⟩
      | some b => exact absurd (List.cons.inj hab).1.symm htag
  | some a =>
      cases b with
      | none => exact absurd (List.cons.inj hab).1 htag
      | some b =>
          obtain ⟨rfl, hrest⟩ := h (List.cons.inj hab).2
          exact ⟨rfl, hrest⟩

/-- Of two lists of words, the shorter starts the longer. -/
theorem PrefixFree.flatMap_le (h : PrefixFree enc) {l l' : List α} {x y : List γ}
    (hle : l.length ≤ l'.length) (heq : l.flatMap enc ++ x = l'.flatMap enc ++ y) :
    ∃ rest, l' = l ++ rest ∧ x = rest.flatMap enc ++ y := by
  induction l generalizing l' with
  | nil => exact ⟨l', rfl, heq⟩
  | cons a l ih =>
      cases l' with
      | nil => simp at hle
      | cons b l' =>
          rw [List.flatMap_cons, List.flatMap_cons, List.append_assoc, List.append_assoc] at heq
          obtain ⟨rfl, hrest⟩ := h heq
          obtain ⟨rest, rfl, hx⟩ := ih (Nat.le_of_succ_le_succ hle) hrest
          exact ⟨rest, rfl, hx⟩

/-- Lists of words of the same number. -/
theorem PrefixFree.flatMap_eq (h : PrefixFree enc) {l l' : List α} {x y : List γ}
    (hlength : l.length = l'.length) (heq : l.flatMap enc ++ x = l'.flatMap enc ++ y) :
    l = l' ∧ x = y := by
  obtain ⟨rest, rfl, hx⟩ := h.flatMap_le (Nat.le_of_eq hlength) heq
  have hnil : rest = [] := by
    rw [List.length_append] at hlength
    exact List.length_eq_zero_iff.1 (by omega)
  subst hnil
  exact ⟨(List.append_nil _).symm, hx⟩

/-- Lists of words before a symbol that no word starts with. -/
theorem PrefixFree.flatMap_stop (h : PrefixFree enc) {stop : γ}
    (hstop : ∀ a, ∃ c word, enc a = c :: word ∧ c ≠ stop) {l l' : List α} {x y : List γ}
    (heq : l.flatMap enc ++ stop :: x = l'.flatMap enc ++ stop :: y) : l = l' ∧ x = y := by
  have hend : ∀ {rest : List α} {u v : List γ}, stop :: u = rest.flatMap enc ++ stop :: v →
      rest = [] ∧ u = v := by
    intro rest u v hrest
    cases rest with
    | nil => exact ⟨rfl, (List.cons.inj hrest).2⟩
    | cons a rest =>
        obtain ⟨c, word, hword, hne⟩ := hstop a
        rw [List.flatMap_cons, hword] at hrest
        exact absurd (List.cons.inj hrest).1.symm hne
  rcases Nat.le_total l.length l'.length with hle | hle
  · obtain ⟨rest, rfl, hrest⟩ := h.flatMap_le hle heq
    obtain ⟨rfl, rfl⟩ := hend hrest
    exact ⟨(List.append_nil l).symm, rfl⟩
  · obtain ⟨rest, rfl, hrest⟩ := h.flatMap_le hle heq.symm
    obtain ⟨rfl, rfl⟩ := hend hrest
    exact ⟨List.append_nil l', rfl⟩

/-- A list of words that are not empty is at least as long as their number. -/
theorem length_le_flatMap (hword : ∀ a, enc a ≠ []) (l : List α) :
    l.length ≤ (l.flatMap enc).length := by
  induction l with
  | nil => simp
  | cons a l ih =>
      have hpos : 0 < (enc a).length := List.length_pos_iff.2 (hword a)
      rw [List.flatMap_cons, List.length_append, List.length_cons]
      omega

end Codes
