import Dfmcp.Adapter.DigCoverProof
import Dfmcp.Library.Method

/-!
# A mining layout says which cells were selected

A list of parts is accepted when every part fits, the parts are apart and there are few enough cells and
rectangles (`new_ok_iff`); none of this depends on the order of the parts. Of an accepted list the
layout keeps the parts in order, and everything else is a function of the set of cells: the ordered
set itself, the box around it, the rectangles and the two digests (`Layout.of_cells`).
-/

namespace Dfmcp

open Machine DigDesignation

namespace DigBlueprint

theorem ensure_ok_iff {condition : Prop} [Decidable condition] {message : String} :
    ensure condition message = .ok () ↔ condition := by
  unfold ensure
  by_cases h : condition
  · simp [h]
  · simp [h]

/-- The cells of a blueprint. -/
def blueprintCells (parts : List BlueprintPart) : Set Position :=
  {p | ∃ part ∈ parts, p ∈ part.positions}

/-! ## Admission -/

/-- The box around the parts. -/
def bounds (parts : List BlueprintPart) : Extent := parts.foldl Extent.widen .empty

theorem foldl_widen_count (parts : List BlueprintPart) (extent : Extent) :
    (parts.foldl Extent.widen extent).count = extent.count + (parts.map BlueprintPart.volume).sum := by
  induction parts generalizing extent with
  | nil => rfl
  | cons part parts ih =>
      rw [List.foldl_cons, ih, List.map_cons, List.sum_cons, Extent.widen, Nat.add_assoc]

/-- Parts are admitted when they fit and have few enough cells together. -/
theorem admit_ok_iff (parts : List BlueprintPart) (extent extent' : Extent)
    (hextent : extent.count ≤ maxTargets) :
    parts.foldlM Extent.admitPart extent = .ok extent' ↔ (∀ part ∈ parts, part.fits) ∧
      (parts.foldl Extent.widen extent).count ≤ maxTargets ∧
        extent' = parts.foldl Extent.widen extent := by
  induction parts generalizing extent with
  | nil =>
      refine ⟨fun h => ⟨fun _ hmem => absurd hmem List.not_mem_nil, hextent, ?_⟩, fun h => ?_⟩
      · exact (Except.ok.inj h).symm
      · rw [h.2.2]
        rfl
  | cons part parts ih =>
      have hstep : ∀ next, Extent.admitPart extent part = .ok next ↔
          (part.fits ∧ (extent.widen part).count ≤ maxTargets) ∧ extent.widen part = next := by
        intro next
        rw [Extent.admitPart, check_ok_iff, check_ok_iff, ensure_ok_iff, ensure_ok_iff, and_assoc]
        exact and_congr_right fun _ => and_congr_right fun _ => ⟨Except.ok.inj, congrArg Except.ok⟩
      rw [List.foldlM_cons, List.foldl_cons, bind_ok_iff]
      constructor
      · rintro ⟨next, hnext, hrest⟩
        obtain ⟨⟨hfits, hcount⟩, rfl⟩ := (hstep next).1 hnext
        obtain ⟨hall, htotal, hresult⟩ := (ih _ hcount).1 hrest
        exact ⟨List.forall_mem_cons.2 ⟨hfits, hall⟩, htotal, hresult⟩
      · rintro ⟨hall, htotal, hresult⟩
        obtain ⟨hfits, hall⟩ := List.forall_mem_cons.1 hall
        have hcount : (extent.widen part).count ≤ maxTargets := by
          rw [foldl_widen_count] at htotal
          omega
        exact ⟨_, (hstep _).2 ⟨⟨hfits, hcount⟩, rfl⟩, (ih _ hcount).2 ⟨hall, htotal, hresult⟩⟩

/-! ## Selection -/

def insertAll (cells : List Cell) (selected : BTreeSet Cell) : BTreeSet Cell :=
  cells.foldl (fun selected c => selected.insert c ()) selected

theorem contains_insertAll (cells : List Cell) (selected : BTreeSet Cell) (c : Cell) :
    (insertAll cells selected).contains c = true ↔ c ∈ cells ∨ selected.contains c = true := by
  induction cells generalizing selected with
  | nil => simp [insertAll]
  | cons d cells ih =>
      have h := ih (selected.insert d ())
      rw [insertAll] at h ⊢
      rw [List.foldl_cons, h, OMap.contains_insert, Bool.or_eq_true, decide_eq_true_eq,
        List.mem_cons, or_left_comm, or_assoc]

/-- Cells are inserted when they are apart, and new. -/
theorem insertCell_ok_iff (cells : List Cell) (selected selected' : BTreeSet Cell) :
    cells.foldlM insertCell selected = .ok selected' ↔ (cells.Nodup ∧
      ∀ c ∈ cells, selected.contains c = false) ∧ selected' = insertAll cells selected := by
  induction cells generalizing selected with
  | nil =>
      refine ⟨fun h => ⟨⟨List.nodup_nil, fun _ hmem => absurd hmem List.not_mem_nil⟩, ?_⟩, fun h => ?_⟩
      · exact (Except.ok.inj h).symm
      · rw [h.2]
        rfl
  | cons c cells ih =>
      have hstep : ∀ next, insertCell selected c = .ok next ↔
          selected.contains c = false ∧ selected.insert c () = next := by
        intro next
        rw [insertCell, check_ok_iff, ensure_ok_iff, Bool.not_eq_true']
        exact and_congr_right fun _ => ⟨Except.ok.inj, congrArg Except.ok⟩
      have hfresh : ∀ d, (selected.insert c ()).contains d = false ↔
          d ≠ c ∧ selected.contains d = false := by
        intro d
        rw [OMap.contains_insert, Bool.or_eq_false_iff, decide_eq_false_iff_not]
      rw [List.foldlM_cons, bind_ok_iff]
      constructor
      · rintro ⟨next, hnext, hrest⟩
        obtain ⟨hc, rfl⟩ := (hstep next).1 hnext
        obtain ⟨⟨hnodup, hnew⟩, hresult⟩ := (ih _).1 hrest
        refine ⟨⟨List.nodup_cons.2 ⟨fun hmem => ?_, hnodup⟩, List.forall_mem_cons.2 ⟨hc, fun d hd => ?_⟩⟩,
          hresult⟩
        · exact ((hfresh c).1 (hnew c hmem)).1 rfl
        · exact ((hfresh d).1 (hnew d hd)).2
      · rintro ⟨⟨hnodup, hnew⟩, hresult⟩
        obtain ⟨hc, hnew⟩ := List.forall_mem_cons.1 hnew
        obtain ⟨hnot, hnodup⟩ := List.nodup_cons.1 hnodup
        refine ⟨_, (hstep _).2 ⟨hc, rfl⟩, (ih _).2 ⟨⟨hnodup, fun d hd => ?_⟩, hresult⟩⟩
        refine (hfresh d).2 ⟨?_, hnew d hd⟩
        rintro rfl
        exact hnot hd

/-- The cells of the parts, one after the other. -/
def allCells (parts : List BlueprintPart) : List Cell := parts.flatMap BlueprintPart.cells

def selectedOf (parts : List BlueprintPart) : BTreeSet Cell := insertAll (allCells parts) .nil

theorem select_eq (parts : List BlueprintPart) :
    select parts = (allCells parts).foldlM insertCell .nil := by
  have h : ∀ selected, parts.foldlM (fun selected part => part.cells.foldlM insertCell selected)
      selected = (allCells parts).foldlM insertCell selected := by
    induction parts with
    | nil => exact fun _ => rfl
    | cons part parts ih =>
        intro selected
        rw [allCells, List.flatMap_cons, List.foldlM_append, List.foldlM_cons]
        exact congrArg _ (funext ih)
  exact h .nil

theorem select_ok_iff {parts : List BlueprintPart} {selected : BTreeSet Cell} :
    select parts = .ok selected ↔ (allCells parts).Nodup ∧ selected = selectedOf parts := by
  rw [select_eq, insertCell_ok_iff]
  exact ⟨fun h => ⟨h.1.1, h.2⟩, fun h => ⟨⟨h.1, fun _ _ => rfl⟩, h.2⟩⟩

/-- **The selected cells are those of the parts.** -/
theorem positions_selectedOf (parts : List BlueprintPart) :
    positions (selectedOf parts) = blueprintCells parts := by
  ext p
  have h : cellAt p ∈ allCells parts ↔ p ∈ blueprintCells parts := by
    rw [allCells, List.mem_flatMap]
    exact exists_congr fun part => and_congr_right fun _ => BlueprintPart.mem_cells
  rw [← h]
  refine (contains_insertAll _ _ _).trans ⟨fun hmem => hmem.resolve_right ?_, .inl⟩
  exact Bool.false_ne_true

/-- Every cell of parts that fit has a complete halo. -/
theorem halo_selectedOf {parts : List BlueprintPart} (h : ∀ part ∈ parts, part.fits) :
    Halo (selectedOf parts) := by
  intro p hp
  rw [positions_selectedOf] at hp
  obtain ⟨part, hmem, ⟨hx, hy, hz⟩⟩ := hp
  obtain ⟨⟨⟨_, _⟩, _, _⟩, ⟨⟨_, _⟩, _, _⟩, ⟨_, _⟩, _, _⟩ := h part hmem
  omega

/-- An ordered set of cells is determined by their positions. -/
theorem positions_injective {a b : BTreeSet Cell} (h : positions a = positions b) : a = b := by
  refine OMap.ext_get? fun c => ?_
  have hmem : ((c.x, c.y, c.z) ∈ positions a) = ((c.x, c.y, c.z) ∈ positions b) := by rw [h]
  have hcontains : a.contains c = b.contains c := Bool.eq_iff_iff.2 (Iff.of_eq hmem)
  rw [OMap.contains, OMap.contains] at hcontains
  cases ha : a.get? c <;> cases hb : b.get? c <;> simp_all

/-! ## The box around the cells -/

/-- On a coordinate, a set lies between two numbers and reaches both. -/
structure Spans (f : Position → Nat) (s : Set Position) (low high : Nat) : Prop where
  within : ∀ p ∈ s, low ≤ f p ∧ f p < high
  least : ∃ p ∈ s, f p = low
  greatest : ∃ p ∈ s, f p + 1 = high

theorem Spans.unique {f : Position → Nat} {s : Set Position} {low high low' high' : Nat}
    (h : Spans f s low high) (h' : Spans f s low' high') : low = low' ∧ high = high' := by
  obtain ⟨p, hp, hlow⟩ := h.least
  obtain ⟨q, hq, hhigh⟩ := h.greatest
  obtain ⟨p', hp', hlow'⟩ := h'.least
  obtain ⟨q', hq', hhigh'⟩ := h'.greatest
  have h₁ := h'.within p hp
  have h₂ := h'.within q hq
  have h₃ := h.within p' hp'
  have h₄ := h.within q' hq'
  exact ⟨by omega, by omega⟩

theorem foldl_min_spec (l : List Nat) (a : Nat) :
    (∀ x ∈ l, l.foldl min a ≤ x) ∧ l.foldl min a ≤ a ∧ (l.foldl min a = a ∨ l.foldl min a ∈ l) := by
  induction l generalizing a with
  | nil => exact ⟨fun _ hmem => absurd hmem List.not_mem_nil, le_refl a, .inl rfl⟩
  | cons x l ih =>
      obtain ⟨hall, hle, hmem⟩ := ih (min a x)
      rw [List.foldl_cons]
      refine ⟨List.forall_mem_cons.2 ⟨hle.trans (min_le_right a x), hall⟩,
        hle.trans (min_le_left a x), ?_⟩
      rcases hmem with hmem | hmem
      · rcases min_choice a x with hmin | hmin
        · exact .inl (hmem.trans hmin)
        · exact .inr (List.mem_cons.2 (.inl (hmem.trans hmin)))
      · exact .inr (List.mem_cons_of_mem x hmem)

theorem foldl_max_spec (l : List Nat) (a : Nat) :
    (∀ x ∈ l, x ≤ l.foldl max a) ∧ a ≤ l.foldl max a ∧ (l.foldl max a = a ∨ l.foldl max a ∈ l) := by
  induction l generalizing a with
  | nil => exact ⟨fun _ hmem => absurd hmem List.not_mem_nil, le_refl a, .inl rfl⟩
  | cons x l ih =>
      obtain ⟨hall, hle, hmem⟩ := ih (max a x)
      rw [List.foldl_cons]
      refine ⟨List.forall_mem_cons.2 ⟨(le_max_right a x).trans hle, hall⟩,
        (le_max_left a x).trans hle, ?_⟩
      rcases hmem with hmem | hmem
      · rcases max_choice a x with hmax | hmax
        · exact .inl (hmem.trans hmax)
        · exact .inr (List.mem_cons.2 (.inl (hmem.trans hmax)))
      · exact .inr (List.mem_cons_of_mem x hmem)

theorem spans_parts {f : Position → Nat} {origin size : BlueprintPart → Nat} {cap : Nat}
    {parts : List BlueprintPart} (hne : parts ≠ [])
    (hpart : ∀ part ∈ parts, Spans f part.positions (origin part) (origin part + size part))
    (hcap : ∀ part ∈ parts, origin part ≤ cap) :
    Spans f (blueprintCells parts) ((parts.map origin).foldl min cap)
      ((parts.map fun part => origin part + size part).foldl max 0) := by
  obtain ⟨hlow, _, hlowCase⟩ := foldl_min_spec (parts.map origin) cap
  obtain ⟨hhigh, _, hhighCase⟩ := foldl_max_spec (parts.map fun part => origin part + size part) 0
  rw [List.forall_mem_map] at hlow hhigh
  obtain ⟨first, hfirst⟩ := List.exists_mem_of_ne_nil parts hne
  refine ⟨?_, ?_, ?_⟩
  · rintro p ⟨part, hmem, hp⟩
    have hwithin := (hpart part hmem).within p hp
    exact ⟨(hlow part hmem).trans hwithin.1, hwithin.2.trans_le (hhigh part hmem)⟩
  · have hreached : ∃ part ∈ parts, origin part = (parts.map origin).foldl min cap := by
      rcases hlowCase with hcapped | hmem
      · have hle := hcap first hfirst
        have hge := hlow first hfirst
        exact ⟨first, hfirst, by omega⟩
      · exact List.mem_map.1 hmem
    obtain ⟨part, hmem, horigin⟩ := hreached
    obtain ⟨p, hp, hleast⟩ := (hpart part hmem).least
    exact ⟨p, ⟨part, hmem, hp⟩, hleast.trans horigin⟩
  · have hreached : ∃ part ∈ parts, origin part + size part =
        (parts.map fun part => origin part + size part).foldl max 0 := by
      rcases hhighCase with hzero | hmem
      · obtain ⟨p, _, hgreatest⟩ := (hpart first hfirst).greatest
        have hle := hhigh first hfirst
        omega
      · exact List.mem_map.1 hmem
    obtain ⟨part, hmem, hend⟩ := hreached
    obtain ⟨p, hp, hgreatest⟩ := (hpart part hmem).greatest
    exact ⟨p, ⟨part, hmem, hp⟩, hgreatest.trans hend⟩

theorem bounds_eq (parts : List BlueprintPart) (extent : Extent) :
    (parts.foldl Extent.widen extent).low =
      ((parts.map fun part => part.origin.1).foldl min extent.low.1,
        (parts.map fun part => part.origin.2.1).foldl min extent.low.2.1,
        (parts.map fun part => part.origin.2.2).foldl min extent.low.2.2) ∧
    (parts.foldl Extent.widen extent).high =
      ((parts.map fun part => part.origin.1 + part.size.1).foldl max extent.high.1,
        (parts.map fun part => part.origin.2.1 + part.size.2.1).foldl max extent.high.2.1,
        (parts.map fun part => part.origin.2.2 + part.size.2.2).foldl max extent.high.2.2) := by
  induction parts generalizing extent with
  | nil => exact ⟨rfl, rfl⟩
  | cons part parts ih => exact ih (extent.widen part)

/-- A part that fits spans its box. -/
theorem spans_part {part : BlueprintPart} (h : part.fits) :
    Spans (fun p => p.1) part.positions part.origin.1 (part.origin.1 + part.size.1) ∧
      Spans (fun p => p.2.1) part.positions part.origin.2.1 (part.origin.2.1 + part.size.2.1) ∧
      Spans (fun p => p.2.2) part.positions part.origin.2.2 (part.origin.2.2 + part.size.2.2) := by
  obtain ⟨⟨_, ⟨hx, _⟩, _⟩, ⟨_, ⟨hy, _⟩, _⟩, _, ⟨hz, _⟩, _⟩ := h
  have hfirst : (part.origin.1, part.origin.2.1, part.origin.2.2) ∈ part.positions :=
    ⟨⟨le_refl _, by simp only; omega⟩, ⟨le_refl _, by simp only; omega⟩,
      ⟨le_refl _, by simp only; omega⟩⟩
  have hlast : (part.origin.1 + (part.size.1 - 1), part.origin.2.1 + (part.size.2.1 - 1),
      part.origin.2.2 + (part.size.2.2 - 1)) ∈ part.positions :=
    ⟨⟨by simp only; omega, by simp only; omega⟩, ⟨by simp only; omega, by simp only; omega⟩,
      ⟨by simp only; omega, by simp only; omega⟩⟩
  exact ⟨⟨fun p hp => hp.1, ⟨_, hfirst, rfl⟩, ⟨_, hlast, by simp only; omega⟩⟩,
    ⟨fun p hp => hp.2.1, ⟨_, hfirst, rfl⟩, ⟨_, hlast, by simp only; omega⟩⟩,
    ⟨fun p hp => hp.2.2, ⟨_, hfirst, rfl⟩, ⟨_, hlast, by simp only; omega⟩⟩⟩

/-- **The box is that of the cells.** -/
theorem spans_bounds {parts : List BlueprintPart} (hne : parts ≠ []) (h : ∀ part ∈ parts, part.fits) :
    Spans (fun p => p.1) (blueprintCells parts) (bounds parts).low.1 (bounds parts).high.1 ∧
      Spans (fun p => p.2.1) (blueprintCells parts) (bounds parts).low.2.1 (bounds parts).high.2.1 ∧
      Spans (fun p => p.2.2) (blueprintCells parts) (bounds parts).low.2.2
        (bounds parts).high.2.2 := by
  obtain ⟨hlow, hhigh⟩ := bounds_eq parts .empty
  rw [bounds, hlow, hhigh]
  have hcap : ∀ n, n ≤ 32766 → n ≤ 2 ^ 32 - 1 := fun n hn => by omega
  refine ⟨spans_parts hne (fun part hmem => (spans_part (h part hmem)).1) fun part hmem => ?_,
    spans_parts hne (fun part hmem => (spans_part (h part hmem)).2.1) fun part hmem => ?_,
    spans_parts hne (fun part hmem => (spans_part (h part hmem)).2.2) fun part hmem => ?_⟩
  · exact hcap _ (h part hmem).1.1.2
  · exact hcap _ (h part hmem).2.1.1.2
  · exact hcap _ (h part hmem).2.2.1.2

/-! ## What is accepted -/

/-- What is asked of a list of parts before its cells are covered, and of its text. -/
structure Admissible (parts : List BlueprintPart) : Prop where
  length : 1 ≤ parts.length ∧ parts.length ≤ maxParts
  fits : ∀ part ∈ parts, part.fits
  few : (bounds parts).count ≤ maxTargets
  coherent : (bounds parts).coherent
  apart : (allCells parts).Nodup
  short : strLen (canonical (sortParts parts)) ≤ maxBlueprintBytes

theorem Layout.new_ok_iff {parts : List BlueprintPart} {layout : Layout} :
    Layout.new parts = .ok layout ↔ Admissible parts ∧ ∃ regions,
      cover maxSteps (selectedOf parts) = .ok regions ∧
        layout = Layout.assemble parts (bounds parts) (targetsOf (selectedOf parts)) regions := by
  rw [Layout.new, check_ok_iff, ensure_ok_iff, bind_ok_iff]
  constructor
  · rintro ⟨hlength, extent, hextent, h⟩
    obtain ⟨hfits, hfew, rfl⟩ := (admit_ok_iff parts .empty extent (Nat.zero_le _)).1 hextent
    rw [check_ok_iff, ensure_ok_iff, bind_ok_iff] at h
    obtain ⟨hcoherent, selected, hselected, h⟩ := h
    obtain ⟨hapart, rfl⟩ := select_ok_iff.1 hselected
    rw [bind_ok_iff] at h
    obtain ⟨regions, hregions, h⟩ := h
    rw [check_ok_iff, ensure_ok_iff] at h
    exact ⟨⟨hlength, hfits, hfew, hcoherent, hapart, h.1⟩, regions, hregions,
      (Except.ok.inj h.2).symm⟩
  · rintro ⟨h, regions, hregions, rfl⟩
    refine ⟨h.length, bounds parts, (admit_ok_iff parts .empty _ (Nat.zero_le _)).2
      ⟨h.fits, h.few, rfl⟩, ?_⟩
    rw [check_ok_iff, ensure_ok_iff, bind_ok_iff]
    refine ⟨h.coherent, selectedOf parts, select_ok_iff.2 ⟨h.apart, rfl⟩, ?_⟩
    rw [bind_ok_iff]
    refine ⟨regions, hregions, ?_⟩
    rw [check_ok_iff, ensure_ok_iff]
    exact ⟨h.short, rfl⟩

namespace Admissible

variable {parts parts' : List BlueprintPart}

theorem ne_nil (h : Admissible parts) : parts ≠ [] := by
  rintro rfl
  exact absurd h.length.1 (by decide)

/-- **What is computed from the cells is the same for the same cells.** -/
theorem of_cells (h : Admissible parts) (h' : Admissible parts')
    (hcells : blueprintCells parts' = blueprintCells parts) :
    selectedOf parts' = selectedOf parts ∧ (bounds parts').low = (bounds parts).low ∧
      (bounds parts').size = (bounds parts).size := by
  obtain ⟨hx, hy, hz⟩ := spans_bounds h.ne_nil h.fits
  obtain ⟨hx', hy', hz'⟩ := spans_bounds h'.ne_nil h'.fits
  rw [hcells] at hx' hy' hz'
  obtain ⟨hxl, hxh⟩ := hx'.unique hx
  obtain ⟨hyl, hyh⟩ := hy'.unique hy
  obtain ⟨hzl, hzh⟩ := hz'.unique hz
  refine ⟨positions_injective ?_, ?_, ?_⟩
  · rw [positions_selectedOf, positions_selectedOf, hcells]
  · exact Prod.ext hxl (Prod.ext hyl hzl)
  · rw [Extent.size, Extent.size, hxl, hxh, hyl, hyh, hzl, hzh]

end Admissible

theorem key_injective : Function.Injective BlueprintPart.key := by
  rintro ⟨⟨x, y, z⟩, w, d, l⟩ ⟨⟨x', y', z'⟩, w', d', l'⟩ h
  simp only [BlueprintPart.key, EmbeddingLike.apply_eq_iff_eq, Prod.mk.injEq] at h
  obtain ⟨rfl, rfl, rfl, rfl, rfl, rfl⟩ := h
  rfl

section Sorting

/-- Parts in the order of their keys. -/
instance : Std.Total fun a b : BlueprintPart => a.key ≤ b.key := ⟨fun a b => le_total a.key b.key⟩

instance : IsTrans BlueprintPart fun a b => a.key ≤ b.key := ⟨fun _ _ _ => le_trans⟩

theorem sortParts_sorted (parts : List BlueprintPart) :
    (sortParts parts).Pairwise fun a b => a.key ≤ b.key := List.pairwise_insertionSort _ parts

theorem sortParts_perm (parts : List BlueprintPart) : (sortParts parts).Perm parts :=
  List.perm_insertionSort _ parts

/-- Lists of the same parts are put into the same order. -/
theorem sortParts_eq {parts parts' : List BlueprintPart} (h : parts'.Perm parts) :
    sortParts parts' = sortParts parts := by
  have hperm := (sortParts_perm parts').trans (h.trans (sortParts_perm parts).symm)
  refine hperm.eq_of_pairwise (fun a b _ _ hab hba => ?_) (sortParts_sorted parts')
    (sortParts_sorted parts)
  exact key_injective (le_antisymm hab hba)

end Sorting

/-! ## The order of the parts -/

section Order

variable {parts parts' : List BlueprintPart}

theorem blueprintCells_perm (h : parts'.Perm parts) : blueprintCells parts' = blueprintCells parts := by
  ext p
  exact ⟨fun ⟨part, hmem, hp⟩ => ⟨part, h.mem_iff.1 hmem, hp⟩,
    fun ⟨part, hmem, hp⟩ => ⟨part, h.mem_iff.2 hmem, hp⟩⟩

theorem bounds_perm (h : parts'.Perm parts) : bounds parts' = bounds parts := by
  refine h.foldl_eq' (fun a _ b _ extent => ?_) Extent.empty
  simp only [Extent.widen, Extent.mk.injEq, Prod.mk.injEq]
  refine ⟨by omega, ⟨by omega, by omega, by omega⟩, by omega, by omega, by omega⟩

/-- **Whether parts are accepted does not depend on their order.** -/
theorem Admissible.perm (h : Admissible parts) (hperm : parts'.Perm parts) : Admissible parts' where
  length := hperm.length_eq ▸ h.length
  fits part hmem := h.fits part (hperm.mem_iff.1 hmem)
  few := bounds_perm hperm ▸ h.few
  coherent := bounds_perm hperm ▸ h.coherent
  apart := ((hperm.flatMap_right BlueprintPart.cells).nodup_iff).2 h.apart
  short := sortParts_eq hperm ▸ h.short

/-- **The layout does not depend on the order of the parts.** -/
theorem Layout.new_perm {layout : Layout} (hperm : parts'.Perm parts)
    (h : Layout.new parts = .ok layout) : Layout.new parts' = .ok layout := by
  obtain ⟨hadmissible, regions, hregions, rfl⟩ := Layout.new_ok_iff.1 h
  have hadmissible' := hadmissible.perm hperm
  obtain ⟨hselected, _⟩ := hadmissible.of_cells hadmissible' (blueprintCells_perm hperm)
  refine Layout.new_ok_iff.2 ⟨hadmissible', regions, hselected ▸ hregions, ?_⟩
  rw [bounds_perm hperm, hselected, Layout.assemble, Layout.assemble, sortParts_eq hperm]

/-- **The parts of a layout lead to it again.** -/
theorem Layout.new_parts {layout : Layout} (h : Layout.new parts = .ok layout) :
    Layout.new layout.parts = .ok layout := by
  obtain ⟨_, regions, _, hlayout⟩ := Layout.new_ok_iff.1 h
  have hparts : layout.parts = sortParts parts := by rw [hlayout]; rfl
  rw [hparts]
  exact Layout.new_perm (sortParts_perm parts) h

/-- **A layout says which cells were selected**, however they were divided into parts. -/
theorem Layout.of_cells {layout layout' : Layout} (h : Layout.new parts = .ok layout)
    (h' : Layout.new parts' = .ok layout') (hcells : blueprintCells parts' = blueprintCells parts) :
    layout'.targets = layout.targets ∧ layout'.regions = layout.regions ∧
      layout'.blueprintDigest = layout.blueprintDigest ∧ layout'.digest = layout.digest := by
  obtain ⟨hadmissible, regions, hregions, rfl⟩ := Layout.new_ok_iff.1 h
  obtain ⟨hadmissible', regions', hregions', rfl⟩ := Layout.new_ok_iff.1 h'
  obtain ⟨hselected, hlow, hsize⟩ := hadmissible.of_cells hadmissible' hcells
  rw [hselected, hregions, Except.ok.injEq] at hregions'
  subst hregions'
  simp only [Layout.assemble, hselected, hlow, hsize, and_self]

end Order

end DigBlueprint

end Dfmcp
