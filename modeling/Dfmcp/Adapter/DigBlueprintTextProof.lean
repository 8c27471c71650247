import Dfmcp.Adapter.DigBlueprintProof
import Dfmcp.Library.Codes

/-!
# The identity of a blueprint names its cells

The text that is hashed for the identity of a blueprint is taken apart from the left: a decimal number
ends at the first character that is no digit (`prefixFree_number`), and a list of cells at its bracket
(`numbers_inj`). Within the box of the blueprint the number of a cell determines it, so that different
sets of cells have different texts (`mask_cells`).
-/

namespace Dfmcp

open Machine DigDesignation Codes Differences

namespace DigBlueprint

/-! ## Numbers in a text -/

theorem toList_toString (n : Nat) : (toString n).toList = Nat.toDigits 10 n := Nat.toList_repr

/-- A number before a character that is no digit. -/
theorem prefixFree_number {stop : Char} (hstop : stop.isDigit = false) :
    PrefixFree fun n : Nat => Nat.toDigits 10 n ++ [stop] := by
  have hcut : ∀ (n : Nat) (x : List Char),
      (Nat.toDigits 10 n ++ [stop] ++ x).takeWhile Char.isDigit = Nat.toDigits 10 n := by
    intro n x
    have hdigits : ∀ c ∈ Nat.toDigits 10 n, c.isDigit = true := fun c hc =>
      Nat.isDigit_of_mem_toDigits (by decide) (by decide) hc
    rw [List.append_assoc, List.takeWhile_append_of_pos hdigits, List.singleton_append,
      List.takeWhile_cons_of_neg (by rw [hstop]; exact Bool.false_ne_true), List.append_nil]
  intro a b x y h
  have hdigits : Nat.toDigits 10 a = Nat.toDigits 10 b := by rw [← hcut a x, ← hcut b y, h]
  have hab : a = b := by
    rw [← Nat.ofDigitChars_ten_toDigits (n := a), hdigits, Nat.ofDigitChars_ten_toDigits]
  subst hab
  exact ⟨rfl, List.append_cancel_left h⟩

/-- The text of one cell behind a comma. -/
def entry (n : Nat) : List Char := ',' :: '[' :: (Nat.toDigits 10 n ++ [','] ++ ['3', ']'])

theorem prefixFree_entry : PrefixFree entry := by
  intro a b x y h
  have hnumber : Nat.toDigits 10 a ++ [','] ++ (['3', ']'] ++ x) =
      Nat.toDigits 10 b ++ [','] ++ (['3', ']'] ++ y) := by
    rw [← List.append_assoc, ← List.append_assoc]
    exact (List.cons.inj (List.cons.inj h).2).2
  obtain ⟨hab, hrest⟩ := prefixFree_number (by decide) hnumber
  exact ⟨hab, List.append_cancel_left hrest⟩

theorem toList_commas (text : String) (texts : List String) :
    (commas (text :: texts)).toList = text.toList ++ texts.flatMap fun s => ',' :: s.toList := by
  induction texts generalizing text with
  | nil => exact (List.append_nil _).symm
  | cons next texts ih =>
      rw [commas, String.toList_append, String.toList_append, ih, List.flatMap_cons,
        List.append_assoc]
      · rfl
      · exact List.cons_ne_nil _ _

/-- The text of a list of cells. -/
def cellTexts (numbers : List Nat) : String :=
  commas (numbers.map fun n => "[" ++ toString n ++ ",3]")

theorem toList_cellTexts (n : Nat) (numbers : List Nat) :
    ',' :: (cellTexts (n :: numbers)).toList = (n :: numbers).flatMap entry := by
  have hentry : ∀ m : Nat, (',' :: ("[" ++ toString m ++ ",3]").toList) = entry m := by
    intro m
    have hopen : "[".toList = ['['] := by decide
    have hclose : ",3]".toList = [','] ++ ['3', ']'] := by decide
    rw [String.toList_append, String.toList_append, toList_toString, entry, hopen, hclose,
      List.append_assoc, List.append_assoc]
    rfl
  rw [cellTexts, List.map_cons, toList_commas, List.flatMap_map, List.flatMap_cons, ← List.cons_append,
    hentry]
  exact congrArg _ (congrArg (fun f => numbers.flatMap f) (funext hentry))

theorem numbers_inj {numbers numbers' : List Nat} {x y : List Char}
    (h : (cellTexts numbers).toList ++ ']' :: x = (cellTexts numbers').toList ++ ']' :: y) :
    numbers = numbers' := by
  have hstart : ∀ n (l : List Nat) (u v : List Char),
      ']' :: u ≠ (cellTexts (n :: l)).toList ++ ']' :: v := by
    intro n l u v hno
    have hlist := toList_cellTexts n l
    rw [List.flatMap_cons] at hlist
    rw [(List.cons.inj hlist).2] at hno
    exact absurd (List.cons.inj hno).1 (by decide)
  cases numbers with
  | nil =>
      cases numbers' with
      | nil => rfl
      | cons n l => exact absurd h (hstart n l x y)
  | cons n l =>
      cases numbers' with
      | nil => exact absurd h.symm (hstart n l y x)
      | cons n' l' =>
          have hcode := congrArg (List.cons ',') h
          rw [← List.cons_append, ← List.cons_append, toList_cellTexts, toList_cellTexts] at hcode
          refine (prefixFree_entry.flatMap_stop (fun m => ?_) hcode).1
          exact ⟨',', _, rfl, by decide⟩

/-! ## The text of a blueprint -/

theorem mask_eq (low size : Position) (targets : List Position) :
    (mask low size targets).toList = "\x7b\"region\":\x7b\"origin\":[".toList ++
      ((Nat.toDigits 10 low.1 ++ [',']) ++ ((Nat.toDigits 10 low.2.1 ++ [',']) ++
      ((Nat.toDigits 10 low.2.2 ++ [']']) ++ (",\"size\":[".toList ++
      ((Nat.toDigits 10 size.1 ++ [',']) ++ ((Nat.toDigits 10 size.2.1 ++ [',']) ++
      ((Nat.toDigits 10 size.2.2 ++ [']']) ++ ("\x7d,\"targets\":[".toList ++
      ((cellTexts (targets.map (cellNumber low size))).toList ++ ']' :: ['\x7d']))))))))) := by
  have hsize : "],\"size\":[".toList = ']' :: ",\"size\":[".toList := by decide
  have htargets : "]\x7d,\"targets\":[".toList = ']' :: "\x7d,\"targets\":[".toList := by decide
  have hcomma : ",".toList = [','] := by decide
  have hend : "]\x7d".toList = [']', '\x7d'] := by decide
  have hcells : commas (targets.map fun p => "[" ++ toString (cellNumber low size p) ++ ",3]") =
      cellTexts (targets.map (cellNumber low size)) := by
    rw [cellTexts, List.map_map]
    rfl
  unfold mask
  rw [hcells]
  simp only [String.toList_append, toList_toString, hsize, htargets, hcomma, hend,
    List.append_assoc, List.cons_append, List.nil_append]

theorem mask_inj {low size low' size' : Position} {targets targets' : List Position}
    (h : mask low size targets = mask low' size' targets') :
    low = low' ∧ size = size' ∧
      targets.map (cellNumber low size) = targets'.map (cellNumber low' size') := by
  have hlist := congrArg String.toList h
  rw [mask_eq, mask_eq] at hlist
  have hcomma : (',').isDigit = false := by decide
  have hbracket : (']').isDigit = false := by decide
  obtain ⟨hx, hlist⟩ := prefixFree_number hcomma (List.append_cancel_left hlist)
  obtain ⟨hy, hlist⟩ := prefixFree_number hcomma hlist
  obtain ⟨hz, hlist⟩ := prefixFree_number hbracket hlist
  obtain ⟨hw, hlist⟩ := prefixFree_number hcomma (List.append_cancel_left hlist)
  obtain ⟨hd, hlist⟩ := prefixFree_number hcomma hlist
  obtain ⟨hl, hlist⟩ := prefixFree_number hbracket hlist
  exact ⟨Prod.ext hx (Prod.ext hy hz), Prod.ext hw (Prod.ext hd hl),
    numbers_inj (List.append_cancel_left hlist)⟩

/-! ## The cells of a blueprint -/

theorem cellNumber_eq {low size p : Position} (hx : low.1 ≤ p.1 ∧ p.1 < low.1 + size.1)
    (hy : low.2.1 ≤ p.2.1 ∧ p.2.1 < low.2.1 + size.2.1) :
    cellNumber low size p = flat (size.1 - 1) (size.2.1 - 1) (p.1 - low.1) (p.2.1 - low.2.1)
      (p.2.2 - low.2.2) := by
  have hwidth : size.1 - 1 + 1 = size.1 := by omega
  have hheight : size.2.1 - 1 + 1 = size.2.1 := by omega
  rw [cellNumber, flat_eq, hwidth, hheight, Nat.add_sub_assoc hy.1, Nat.add_sub_assoc hx.1]
  ring

/-- Within the box, the number of a cell determines it. -/
theorem cellNumber_inj {low size p q : Position} (hp : (low.1 ≤ p.1 ∧ p.1 < low.1 + size.1) ∧
      (low.2.1 ≤ p.2.1 ∧ p.2.1 < low.2.1 + size.2.1) ∧ low.2.2 ≤ p.2.2)
    (hq : (low.1 ≤ q.1 ∧ q.1 < low.1 + size.1) ∧
      (low.2.1 ≤ q.2.1 ∧ q.2.1 < low.2.1 + size.2.1) ∧ low.2.2 ≤ q.2.2)
    (h : cellNumber low size p = cellNumber low size q) : p = q := by
  rw [cellNumber_eq hp.1 hp.2.1, cellNumber_eq hq.1 hq.2.1] at h
  have hpx : p.1 - low.1 ≤ size.1 - 1 := by omega
  have hpy : p.2.1 - low.2.1 ≤ size.2.1 - 1 := by omega
  have hqx : q.1 - low.1 ≤ size.1 - 1 := by omega
  have hqy : q.2.1 - low.2.1 ≤ size.2.1 - 1 := by omega
  have hx : p.1 - low.1 = q.1 - low.1 := by
    rw [← flat_mod hpx, h, flat_mod hqx]
  have hy : p.2.1 - low.2.1 = q.2.1 - low.2.1 := by
    rw [← flat_y hpx hpy, h, flat_y hqx hqy]
  have hz := congrArg (fun i => i / (size.1 - 1 + 1) / (size.2.1 - 1 + 1)) h
  simp only [flat_z hpx hpy, flat_z hqx hqy] at hz
  exact Prod.ext (by omega) (Prod.ext (by omega) (by omega))

theorem mem_targetsOf {selected : BTreeSet Cell} {p : Position} :
    p ∈ targetsOf selected ↔ p ∈ positions selected := by
  rw [targetsOf, List.mem_map]
  constructor
  · rintro ⟨c, hc, rfl⟩
    exact (OMap.mem_keys_iff selected c).1 hc
  · intro hp
    exact ⟨cellAt p, (OMap.mem_keys_iff selected (cellAt p)).2 hp, rfl⟩

/-- The text of a blueprint. -/
def blueprintMask (parts : List BlueprintPart) : String :=
  mask (bounds parts).low (bounds parts).size (targetsOf (selectedOf parts))

/-- **Different sets of cells have different texts.** -/
theorem mask_cells {parts parts' : List BlueprintPart} (h : Admissible parts)
    (h' : Admissible parts') (hmask : blueprintMask parts' = blueprintMask parts) :
    blueprintCells parts' = blueprintCells parts := by
  have hbox : ∀ {l : List BlueprintPart}, Admissible l → ∀ p ∈ blueprintCells l,
      ((bounds l).low.1 ≤ p.1 ∧ p.1 < (bounds l).low.1 + (bounds l).size.1) ∧
        ((bounds l).low.2.1 ≤ p.2.1 ∧ p.2.1 < (bounds l).low.2.1 + (bounds l).size.2.1) ∧
          (bounds l).low.2.2 ≤ p.2.2 := by
    intro l hl p hp
    obtain ⟨hx, hy, hz⟩ := spans_bounds hl.ne_nil hl.fits
    have hpx := hx.within p hp
    have hpy := hy.within p hp
    have hpz := hz.within p hp
    simp only [Extent.size]
    omega
  obtain ⟨hlow, hsize, hnumbers⟩ := mask_inj hmask
  have hsub : ∀ {l l' : List BlueprintPart}, Admissible l → Admissible l' →
      (bounds l).low = (bounds l').low → (bounds l).size = (bounds l').size →
      (targetsOf (selectedOf l)).map (cellNumber (bounds l).low (bounds l).size) =
        (targetsOf (selectedOf l')).map (cellNumber (bounds l').low (bounds l').size) →
      blueprintCells l ⊆ blueprintCells l' := by
    intro l l' hl hl' hlow hsize hnumbers p hp
    have hmem : p ∈ targetsOf (selectedOf l) := by
      rw [mem_targetsOf, positions_selectedOf]
      exact hp
    have hnumber := List.mem_map_of_mem (f := cellNumber (bounds l).low (bounds l).size) hmem
    rw [hnumbers, List.mem_map] at hnumber
    obtain ⟨q, hq, hsame⟩ := hnumber
    rw [mem_targetsOf, positions_selectedOf] at hq
    have hbp := hbox hl p hp
    rw [hlow, hsize] at hbp hsame
    rwa [← cellNumber_inj (hbox hl' q hq) hbp hsame]
  exact Set.Subset.antisymm (hsub h' h hlow hsize hnumbers)
    (hsub h h' hlow.symm hsize.symm hnumbers.symm)

end DigBlueprint

end Dfmcp
