import Dfmcp.Adapter.DigBlueprintTextProof
import Dfmcp.Adapter.RunJournalCodecProof

/-!
# Batches of a blueprint are read back

Each part of a batch is read back from its bytes: the parts of the blueprint, the source that it is bound
to and the capture of its first region, each with its length before it. The parts are written in their
order, and a layout made of the ordered parts is the same layout (`Layout.new_parts`).

* `DigBinding.fromCanonicalBytes_encode` — a valid binding comes back from its bytes;
* `BatchDefinition.decode_canonicalBytes` — a batch that was made comes back from its bytes;
* `Layout.exact` — mining layouts are exact covers.
-/

namespace Dfmcp

open Machine Wire BoundedRun Read DigDesignation

namespace DigBlueprint

variable {c : Prop}

/-! ## Bindings -/

namespace DigBinding

variable {endpoints : Endpoints} {binding : DigBinding}

theorem sound_ok_iff {condition : Prop} [Decidable condition] : sound condition = .ok () ↔ condition := by
  unfold sound
  by_cases h : condition
  · simp [h]
  · simp [h]

theorem textWithin_of_fits {value : String} {limit : Nat} (h : textFits value limit) :
    TextWithin limit value := ⟨⟨strLen_pos h.1, h.2.1⟩, h.2.2⟩

/-- A text without control characters has no NUL. -/
theorem textWithin_of_address {endpoint : String} (h : endpoints.loopback endpoint = true) :
    TextWithin 128 endpoint := by
  obtain ⟨hlen, hcontrol⟩ := endpoints.bounded _ h
  refine ⟨hlen, ?_⟩
  rw [← Bool.not_eq_true, List.contains_iff_mem]
  intro hnul
  have hany : endpoint.toList.any BoundedRun.isControl = true :=
    List.any_eq_true.2 ⟨_, hnul, by decide⟩
  rw [hcontrol] at hany
  cases hany

theorem parses_coord (coord : MapCoord) : Parses c readCoord (encodeCoord coord) coord := by
  have hread : ∀ z : S 32, Parses c Read.u32 (beBytes 4 z.toBits) (U.wrap z.toBits) := by
    intro z
    have h := Read.parses_u32 (c := c) (U.wrap z.toBits)
    rwa [U.wrap_val z.toBits_lt] at h
  have hback : ∀ z : S 32, S.ofBits (by decide) (U.wrap z.toBits : U 32).val = z := by
    intro z
    rw [U.wrap_val z.toBits_lt]
    exact S.ofBits_toBits _ z
  unfold readCoord encodeCoord
  refine (hread coord.x).bind ((hread coord.y).bind ((hread coord.z).bind_nil ?_))
  rw [hback, hback, hback]
  exact Parses.pure coord

theorem validate_parts (h : validate endpoints binding = .ok ()) :
    endpoints.loopback binding.endpoint = true ∧ textFits binding.folder 512 ∧
      textFits binding.manifest.dfVersion 128 ∧ textFits binding.manifest.dfhackVersion 128 ∧
      MapCuboid.new binding.scope.min binding.scope.max = .ok binding.scope := by
  unfold validate at h
  simp only [check_ok_iff, demand_ok_iff] at h
  obtain ⟨hloopback, _, hfolder, hdf, hdfhack, _, hscope⟩ := h
  refine ⟨hloopback, hfolder, hdf, hdfhack, ?_⟩
  unfold MapCuboid.new at hscope ⊢
  split at hscope
  · cases hscope
  · rename_i hok
    split at hok
    · cases hok
    · rename_i hordered
      rw [if_neg hordered]

theorem length_encode (h : validate endpoints binding = .ok ()) :
    binding.encode.length ≤ maxBindingBytes := by
  obtain ⟨hloopback, hfolder, hdf, hdfhack, _⟩ := validate_parts h
  have haddress := (textWithin_of_address hloopback).1.2
  have hfolder := hfolder.2.1
  have hdf := hdf.2.1
  have hdfhack := hdfhack.2.1
  simp only [encode, encodeCoord, appendText, List.length_append, length_beBytes, maxBindingBytes]
  change 2 + strLen _ + (8 + (2 + strLen _ + (2 + strLen _ + (2 + strLen _ + (4 + (_ + _)))))) ≤ 940
  omega

/-- **A valid binding comes back from its bytes.** -/
theorem fromCanonicalBytes_encode (h : validate endpoints binding = .ok ()) :
    fromCanonicalBytes endpoints binding.encode = .ok binding := by
  have hlen := length_encode h
  obtain ⟨hloopback, hfolder, hdf, hdfhack, hscope⟩ := validate_parts h
  obtain ⟨hparses, hcanonical⟩ := endpoints.address _ hloopback
  have hparse : ParsesAll True (reader endpoints) binding.encode binding := by
    unfold reader encode
    refine (parses_text' (by decide) (textWithin_of_address hloopback)).bind_all ?_
    refine parsesAll_checked (if_pos hparses) (parsesAll_checked (sound_ok_iff.2 hcanonical) ?_)
    refine (Read.parses_u64 _).bind_all ?_
    refine (parses_text' (by decide) (textWithin_of_fits hdf)).bind_all ?_
    refine (parses_text' (by decide) (textWithin_of_fits hdfhack)).bind_all ?_
    refine (parses_text' (by decide) (textWithin_of_fits hfolder)).bind_all ?_
    refine (Read.parses_u32 binding.site).bind_all ((parses_coord binding.scope.min).bind_all ?_)
    refine (parses_coord binding.scope.max).bind_all_nil ?_
    rw [hscope]
    exact parsesAll_finish (parsesAll_checked h (parsesAll_pure binding))
  have hdecode : decode endpoints binding.encode = .ok binding := by
    unfold decode
    rw [sound_ok_iff.2 hlen]
    exact run_of_parsesAll hparse (hlen.trans_lt (by decide))
  unfold fromCanonicalBytes
  rw [hdecode]
  show (demand _ _ >>= fun _ => _) = _
  rw [demand_of rfl]
  rfl

end DigBinding

/-! ## Batches -/

namespace BatchDefinition

variable {endpoints : Endpoints} {parts : List BlueprintPart} {layout : Layout} {binding : DigBinding}
  {journalId : Digest32} {raw : Bytes} {bootstrap : DigObservation} {batch : BatchDefinition}

theorem parses_u32 {n : Nat} (h : n < 2 ^ 32) : Parses c u32 (beBytes 4 n) n := by
  have hread : Parses c (take (beBytes 4 n).length) (beBytes 4 n) (beBytes 4 n) := Parses.take _ _
  have hvalue : ofBe (beBytes 4 n) = n := by
    rw [ofBe_beBytes, Nat.mod_eq_of_lt (h.trans_eq (by norm_num))]
  have hbind := hread.bind_pure (f := ofBe)
  rwa [hvalue] at hbind

theorem parses_field {maximum : Nat} {value : Bytes} (hmaximum : maximum < 2 ^ 32)
    (h : value.length ≤ maximum) :
    Parses c (field maximum) (beBytes 4 value.length ++ value) value := by
  unfold field
  refine (parses_u32 (h.trans_lt hmaximum)).bind ?_
  exact parses_checked (ensure_ok_iff.2 h) (Parses.take _ value)

theorem parses_part {part : BlueprintPart} (h : part.fits) : Parses c readPart part.encode part := by
  obtain ⟨⟨⟨_, _⟩, ⟨_, _⟩, _⟩, ⟨⟨_, _⟩, ⟨_, _⟩, _⟩, ⟨_, _⟩, ⟨_, _⟩, _⟩ := h
  unfold readPart BlueprintPart.encode
  refine (parses_u32 (by omega)).bind ((parses_u32 (by omega)).bind ?_)
  refine (parses_u32 (by omega)).bind ((parses_u32 (by omega)).bind ?_)
  exact (parses_u32 (by omega)).bind ((parses_u32 (by omega)).bind_nil (Parses.pure part))

theorem takes {n : Nat} (bs : Bytes) (h : bs.length = n) : Parses c (take n) bs bs :=
  h ▸ Parses.take _ bs

/-- A part that its decoder accepts, before the rest. -/
theorem parsesAll_lift {α β : Type} {result : Result α} {a : α} {f : α → Read.Decoder β} {bs : Bytes}
    {b : β} (h : result = .ok a) (hf : ParsesAll c (f a) bs b) :
    ParsesAll c (lift result >>= f) bs b := by
  rw [h]
  exact hf

/-- The parts of a layout fit. -/
theorem fits_parts (h : Layout.new parts = .ok layout) :
    (1 ≤ layout.parts.length ∧ layout.parts.length ≤ maxParts) ∧ ∀ part ∈ layout.parts, part.fits := by
  obtain ⟨hadmissible, _⟩ := Layout.new_ok_iff.1 (Layout.new_parts h)
  exact ⟨hadmissible.length, hadmissible.fits⟩

theorem new_parts (h : new layout binding journalId bootstrap = .ok batch) :
    batch.canonicalBytes = batchBytes layout binding journalId bootstrap ∧
      batch.canonicalBytes.length ≤ maxDefinitionBytes := by
  unfold new at h
  rw [check_ok_iff, check_ok_iff, check_ok_iff, check_ok_iff] at h
  obtain ⟨_, _, _, _, h⟩ := h
  simp only [check_ok_iff, ensure_ok_iff] at h
  obtain ⟨hlen, hbatch⟩ := h
  cases hbatch
  exact ⟨rfl, hlen⟩

/-- **A batch that was made comes back from its bytes.** -/
theorem decode_canonicalBytes (hlayout : Layout.new parts = .ok layout)
    (hbinding : binding.validate endpoints = .ok ())
    (hbootstrap : DigObservation.decode raw = .ok bootstrap)
    (h : new layout binding journalId bootstrap = .ok batch) :
    decode endpoints batch.canonicalBytes = .ok batch := by
  obtain ⟨hbytes, hlen⟩ := new_parts h
  obtain ⟨hcount, hfits⟩ := fits_parts hlayout
  obtain ⟨⟨hcapture, hraw, _⟩, _⟩ := DigObservation.encode_of_decode hbootstrap
  rw [← hraw] at hcapture hbootstrap
  have hmaximum : maxCaptureBytes < 2 ^ 32 := by decide
  have hparse : ParsesAll True (reader endpoints) batch.canonicalBytes batch := by
    rw [hbytes]
    unfold reader batchBytes
    refine (Parses.take _ (utf8 "DFMDBD01")).bind_all ?_
    refine parsesAll_checked (ensure_ok_iff.2 rfl) ?_
    refine (Parses.take _ (beBytes 2 layout.parts.length)).bind_all ?_
    have hcounted : ofBe (beBytes 2 layout.parts.length) = layout.parts.length := by
      rw [ofBe_beBytes, Nat.mod_eq_of_lt (hcount.2.trans_lt (by decide))]
    rw [hcounted]
    refine parsesAll_checked (ensure_ok_iff.2 hcount) ?_
    have hread := @Parses.replicate DfmcpError BlueprintPart True BlueprintPart readPart
      BlueprintPart.encode (fun part => part) layout.parts fun part hmem =>
        parses_part (hfits part hmem)
    rw [List.map_id'] at hread
    refine hread.bind_all ?_
    refine parsesAll_lift (Layout.new_parts hlayout) ?_
    rw [← List.append_assoc (beBytes 4 binding.encode.length)]
    refine (parses_field (by decide) ((DigBinding.length_encode hbinding).trans (by decide))).bind_all ?_
    refine parsesAll_lift (DigBinding.fromCanonicalBytes_encode hbinding) ?_
    rw [← List.append_assoc (beBytes 4 bootstrap.bytes.length)]
    refine (parses_field hmaximum hcapture).bind_all ?_
    refine parsesAll_lift hbootstrap ?_
    refine (takes journalId.bytes journalId.length_eq).bind_all_nil ?_
    rw [Digest32.fromBytes_bytes]
    refine fun _ => .inl ?_
    show (lift (new layout binding journalId bootstrap)) [] = _
    rw [h]
    rfl
  unfold decode
  rw [ensure_ok_iff.2 hlen]
  show (Read.run (reader endpoints) batch.canonicalBytes >>= fun _ => _) = _
  rw [run_of_parsesAll hparse (hlen.trans_lt (by decide))]
  show (ensure _ _ >>= fun _ => _) = _
  rw [ensure_ok_iff.2 rfl]
  rfl

/-- **No other bytes are accepted for a batch.** -/
theorem canonical_of_decode {bytes : Bytes} (h : decode endpoints bytes = .ok batch) :
    bytes = batch.canonicalBytes := by
  unfold decode at h
  obtain ⟨_, h⟩ := check_ok_iff.1 h
  obtain ⟨found, _, h⟩ := bind_ok_iff.1 h
  obtain ⟨hsame, h⟩ := check_ok_iff.1 h
  rw [Except.ok.inj h] at hsame
  exact (ensure_ok_iff.1 hsame).symm

end BatchDefinition

/-! ## Mining layouts -/

/-- The bytes that are hashed for the identity of a blueprint. -/
def blueprintPreimage (parts : List BlueprintPart) : Bytes :=
  utf8 "dfmcp-excavation-blueprint/1" ++ [0] ++ utf8 (blueprintMask parts)

theorem blueprintPreimage_inj {parts parts' : List BlueprintPart}
    (h : blueprintPreimage parts' = blueprintPreimage parts) :
    blueprintMask parts' = blueprintMask parts := by
  have htext := congrArg fromUtf8 (List.append_cancel_left h)
  rwa [fromUtf8_utf8, fromUtf8_utf8, Option.some.injEq] at htext

/-- **Mining layouts are exact covers.** The rectangles of an accepted list of parts cover its cells
exactly, each within one level and eight by eight cells; the targets, the rectangles and the digests are
those of any other list of parts with the same cells, and other cells have another text to be hashed;
the decomposition of parts that fit and are apart fails for too many rectangles only; and a batch made of
the layout is read back from its bytes, and from no others. -/
theorem Layout.exact {parts : List BlueprintPart} {layout : Layout}
    (h : Layout.new parts = .ok layout) :
    (Covers (layout.regions.map DigRegion.cells) (blueprintCells parts) ∧
      (∀ region ∈ layout.regions, (1 ≤ region.width ∧ region.width ≤ 8) ∧
        (1 ≤ region.height ∧ region.height ≤ 8) ∧ ∀ p ∈ region.cells, p.2.2 = region.z) ∧
      (∀ p, p ∈ layout.targets ↔ p ∈ blueprintCells parts)) ∧
    (layout.blueprintDigest = .ofBytes (blueprintPreimage parts) ∧
      ∀ parts' layout', Layout.new parts' = .ok layout' →
        (blueprintCells parts' = blueprintCells parts →
          layout'.targets = layout.targets ∧ layout'.regions = layout.regions ∧
            layout'.blueprintDigest = layout.blueprintDigest ∧ layout'.digest = layout.digest) ∧
        (blueprintCells parts' ≠ blueprintCells parts →
          blueprintPreimage parts' ≠ blueprintPreimage parts)) ∧
    (∀ parts' extent selected, parts'.foldlM Extent.admitPart .empty = .ok extent →
      select parts' = .ok selected →
        (∃ regions, cover maxSteps selected = .ok regions) ∨
          cover maxSteps selected = .error (invalid "blueprint exceeds 128 native regions")) ∧
    (∀ (endpoints : Endpoints) binding journalId raw bootstrap batch,
      DigBinding.validate endpoints binding = .ok () → DigObservation.decode raw = .ok bootstrap →
      BatchDefinition.new layout binding journalId bootstrap = .ok batch →
        BatchDefinition.decode endpoints batch.canonicalBytes = .ok batch ∧
          ∀ bytes, BatchDefinition.decode endpoints bytes = .ok batch →
            bytes = batch.canonicalBytes) := by
  obtain ⟨hadmissible, regions, hregions, hlayout⟩ := Layout.new_ok_iff.1 h
  refine ⟨⟨?_, ?_, ?_⟩, ⟨?_, ?_⟩, ?_, ?_⟩
  · have hcovers := cover_covers (halo_selectedOf hadmissible.fits) hregions
    rw [positions_selectedOf] at hcovers
    rwa [hlayout]
  · intro region _
    exact ⟨region.bounded.1.1, region.bounded.1.2, fun p hp => hp.1⟩
  · intro p
    rw [hlayout, ← positions_selectedOf]
    exact mem_targetsOf
  · rw [hlayout]
    rfl
  · intro parts' layout' h'
    refine ⟨fun hcells => Layout.of_cells h h' hcells, fun hne hpreimage => hne ?_⟩
    exact mask_cells hadmissible (Layout.new_ok_iff.1 h').1 (blueprintPreimage_inj hpreimage)
  · intro parts' extent selected hextent hselected
    obtain ⟨hfits, _⟩ := (admit_ok_iff parts' .empty extent (Nat.zero_le _)).1 hextent
    obtain ⟨_, rfl⟩ := select_ok_iff.1 hselected
    rcases cover_total maxSteps _ (halo_selectedOf hfits) with ⟨found, hfound, _⟩ | herror
    · exact .inl ⟨found, hfound⟩
    · exact .inr herror
  · intro endpoints binding journalId raw bootstrap batch hbinding hbootstrap hbatch
    exact ⟨BatchDefinition.decode_canonicalBytes h hbinding hbootstrap hbatch,
      fun bytes hbytes => BatchDefinition.canonical_of_decode hbytes⟩

namespace Trench

/-- An angle of five cells in two parts. -/
def parts : List BlueprintPart := [⟨(10, 11, 5), (1, 2, 1)⟩, ⟨(10, 10, 5), (3, 1, 1)⟩]

def regions : List DigRegion := [⟨10, 10, 5, 3, 1, by decide⟩, ⟨10, 11, 5, 1, 2, by decide⟩]

def layout : Layout :=
  .assemble parts (bounds parts) (targetsOf (selectedOf parts)) regions

end Trench

theorem Layout.exact_trench :
    Covers (Trench.layout.regions.map DigRegion.cells) (blueprintCells Trench.parts) ∧
      Trench.layout.blueprintDigest = .ofBytes (blueprintPreimage Trench.parts) := by
  have hadmissible : Admissible Trench.parts :=
    ⟨by decide, by decide, by decide, by decide, by decide, by decide +kernel⟩
  have h : Layout.new Trench.parts = .ok Trench.layout :=
    Layout.new_ok_iff.2 ⟨hadmissible, Trench.regions, by decide +kernel, rfl⟩
  exact ⟨(Layout.exact h).1.1, (Layout.exact h).2.1.1⟩

end DigBlueprint

end Dfmcp
