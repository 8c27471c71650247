import Dfmcp.Adapter.DigDesignationProof
import Dfmcp.Library.Differences

/-!
# The designation outcome is predicted byte by byte

What a designation should do is said here in terms of cells: the rectangle of the region is designated
with the default priority, and the map blocks that it touches on its level are scheduled at once. The
halo of a capture is numbered so that every cell of it has one tile (`position_bijOn`).

* `patch_tiles` — patching the tiles one after the other encodes the predicted tiles;
* `expectedWitness_exact` — the patched capture is accepted, says the predicted outcome, and differs
  from the observed one in the predicted bytes only.
-/

namespace Dfmcp

open Machine Wire BoundedRun Splice Differences

namespace DigDesignation

/-! ## The cells of a region -/

namespace DigRegion

variable (region : DigRegion)

/-- The cells to be dug. -/
def cells : Set Position :=
  {p | p.2.2 = region.z ∧ (region.x ≤ p.1 ∧ p.1 < region.x + region.width) ∧
    (region.y ≤ p.2.1 ∧ p.2.1 < region.y + region.height)}

/-- The cells that share a block of 16 by 16 with a cell to be dug. -/
def blocks : Set Position :=
  {p | ∃ q ∈ region.cells, q.2.2 = p.2.2 ∧ q.1 / 16 = p.1 / 16 ∧ q.2.1 / 16 = p.2.1 / 16}

/-- The cells to be dug and those around them. -/
def haloCells : Set Position :=
  {p | (region.x - 1 ≤ p.1 ∧ p.1 ≤ region.x + region.width) ∧
    (region.y - 1 ≤ p.2.1 ∧ p.2.1 ≤ region.y + region.height) ∧
    (region.z - 1 ≤ p.2.2 ∧ p.2.2 ≤ region.z + 1)}

variable {region}

theorem target_iff {p : Position} : region.target p = true ↔ p ∈ region.cells := by
  simp only [target, cells, Set.mem_ofPred_eq, Bool.and_eq_true, decide_eq_true_eq, ge_iff_le,
    and_assoc]

/-- A block between the first and the last one of an interval holds a point of it. -/
theorem block_of_between {low size n : Nat} (hsize : 1 ≤ size) (hlow : low / 16 ≤ n / 16)
    (hhigh : n / 16 ≤ (low + size - 1) / 16) :
    ∃ m, (low ≤ m ∧ m < low + size) ∧ m / 16 = n / 16 := by
  by_cases hfirst : low / 16 = n / 16
  · exact ⟨low, ⟨le_refl low, by omega⟩, hfirst⟩
  · exact ⟨n / 16 * 16, ⟨by omega, by omega⟩, by omega⟩

theorem targetBlock_iff {p : Position} : region.targetBlock p = true ↔ p ∈ region.blocks := by
  obtain ⟨⟨⟨hwidth, _⟩, hheight, _⟩, _⟩ := region.bounded
  simp only [targetBlock, Bool.and_eq_true, decide_eq_true_eq, Nat.shiftRight_eq_div_pow,
    show 2 ^ 4 = 16 from rfl]
  constructor
  · rintro ⟨⟨hz, hx⟩, hy⟩
    obtain ⟨x, hxs, hxBlock⟩ := block_of_between hwidth hx.1 hx.2
    obtain ⟨y, hys, hyBlock⟩ := block_of_between hheight hy.1 hy.2
    exact ⟨(x, y, region.z), ⟨rfl, hxs, hys⟩, hz.symm, hxBlock, hyBlock⟩
  · rintro ⟨q, ⟨hz, hx, hy⟩, hlevel, hxBlock, hyBlock⟩
    refine ⟨⟨by omega, ?_, ?_⟩, ?_, ?_⟩
    · rw [← hxBlock]
      exact Nat.div_le_div_right hx.1
    · rw [← hxBlock]
      exact Nat.div_le_div_right (by omega)
    · rw [← hyBlock]
      exact Nat.div_le_div_right hy.1
    · rw [← hyBlock]
      exact Nat.div_le_div_right (by omega)

/-- The index of a cell of the halo, from its distances from the first cell. -/
theorem position_flat {a b l : Nat} (ha : a ≤ region.width + 1) (hb : b ≤ region.height + 1) :
    region.position (flat (region.width + 1) (region.height + 1) a b l) =
      (region.x - 1 + a, region.y - 1 + b, region.z - 1 + l) := by
  unfold position
  simp only
  rw [Nat.mod_mul_right_div_self, ← Nat.div_div_eq_div_mul, flat_mod ha, flat_y ha hb, flat_z ha hb]

/-- **Every cell of the halo has one index.** -/
theorem position_bijOn (region : DigRegion) :
    Set.BijOn region.position (Set.Iio region.haloCount) region.haloCells := by
  obtain ⟨_, ⟨hz, _⟩, ⟨hx, hy⟩, _⟩ := region.bounded
  have hindex : ∀ i ∈ Set.Iio region.haloCount, ∃ a b l, a ≤ region.width + 1 ∧
      b ≤ region.height + 1 ∧ l ≤ 2 ∧ i = flat (region.width + 1) (region.height + 1) a b l :=
    fun i hi => exists_flat hi
  refine ⟨?_, ?_, ?_⟩
  · intro i hi
    obtain ⟨a, b, l, ha, hb, hl, rfl⟩ := hindex i hi
    rw [position_flat ha hb]
    exact ⟨⟨by omega, by simp only; omega⟩, ⟨by simp only; omega, by simp only; omega⟩,
      by simp only; omega, by simp only; omega⟩
  · intro i hi j hj hij
    obtain ⟨a, b, l, ha, hb, hl, rfl⟩ := hindex i hi
    obtain ⟨a', b', l', ha', hb', hl', rfl⟩ := hindex j hj
    rw [position_flat ha hb, position_flat ha' hb', Prod.mk.injEq, Prod.mk.injEq] at hij
    have haEq : a = a' := by omega
    have hbEq : b = b' := by omega
    have hlEq : l = l' := by omega
    rw [haEq, hbEq, hlEq]
  · rintro ⟨x, y, z⟩ ⟨hxs, hys, hzs⟩
    simp only at hxs hys hzs
    have ha : x - (region.x - 1) ≤ region.width + 1 := by omega
    have hb : y - (region.y - 1) ≤ region.height + 1 := by omega
    have hl : z - (region.z - 1) ≤ 2 := by omega
    refine ⟨_, flat_lt ha hb hl, (position_flat ha hb).trans ?_⟩
    rw [Prod.mk.injEq, Prod.mk.injEq]
    omega

end DigRegion

/-! ## The predicted tiles -/

namespace VisibleTile

variable (tile : VisibleTile)

/-- The tile, designated for digging with the default priority. -/
def designated : VisibleTile where
  tiletype := tile.tiletype
  designationOther := tile.designationOther
  occupancy := tile.occupancy
  priority := 4000
  cooldown := tile.cooldown
  blockOther := tile.blockOther
  temperatures := tile.temperatures
  dig := 1
  hazards := tile.hazards
  flags := tile.flags
  bounded := ⟨by decide, by decide, tile.bounded.2.2⟩

theorem schedulable {flags : UInt8} (h : flags ≤ 31) : flags ||| 16 ≤ 31 := by
  rw [UInt8.le_iff_toNat_le] at h ⊢
  rw [UInt8.toNat_or]
  have hlt : flags.toNat < 2 ^ 5 := Nat.lt_succ_of_le h
  exact Nat.le_of_lt_succ (Nat.or_lt_two_pow hlt (by decide))

/-- The tile with its block to be scheduled at once. -/
def scheduled : VisibleTile where
  tiletype := tile.tiletype
  designationOther := tile.designationOther
  occupancy := tile.occupancy
  priority := tile.priority
  cooldown := 0
  blockOther := tile.blockOther
  temperatures := tile.temperatures
  dig := tile.dig
  hazards := tile.hazards
  flags := tile.flags ||| 16
  bounded := ⟨tile.bounded.1, tile.bounded.2.1, tile.bounded.2.2.1, schedulable tile.bounded.2.2.2⟩

end VisibleTile

open Classical in
/-- What a designation of a region makes of the tile of a cell. -/
noncomputable def DigRegion.predicted (region : DigRegion) (p : Position) : DigTile → DigTile
  | .missing => .missing
  | .hidden => .hidden
  | .visible tile =>
      let dug := if p ∈ region.cells then tile.designated else tile
      .visible (if p ∈ region.blocks then dug.scheduled else dug)

/-! ## Patching one tile -/

namespace VisibleTile

variable (tile : VisibleTile)

/-- What stands before the priority of a tile. -/
def front : Bytes :=
  [2] ++ (beBytes 4 tile.tiletype.val ++ (beBytes 4 tile.designationOther.val ++
    beBytes 4 tile.occupancy.val))

/-- What stands between the cooldown and the dig mode of a tile. -/
def middle : Bytes :=
  beBytes 4 tile.blockOther.val ++ (beBytes 2 tile.temperatures.1.val ++
    beBytes 2 tile.temperatures.2.val)

theorem length_front : tile.front.length = 13 := rfl

theorem length_middle : tile.middle.length = 8 := rfl

theorem encode_eq : (DigTile.visible tile).encode = tile.front ++ (beBytes 4 tile.priority.val ++
    (beBytes 4 tile.cooldown.val ++ (tile.middle ++ ([tile.dig] ++ ([tile.hazards] ++
      [tile.flags]))))) := by
  simp only [DigTile.encode, encode, front, middle, List.append_assoc]

end VisibleTile

namespace DigObservation

variable {tile : VisibleTile} {pre post : Bytes}

theorem designate?_encode (tile : VisibleTile) (pre post : Bytes) :
    designate? (pre ++ ((DigTile.visible tile).encode ++ post)) pre.length =
      some (pre ++ ((DigTile.visible tile.designated).encode ++ post)) := by
  have hpriority := @overwrite?_append UInt8 (pre ++ tile.front) (beBytes 4 tile.priority.val)
    (beBytes 4 4000) (beBytes 4 tile.cooldown.val ++ (tile.middle ++ ([tile.dig] ++ ([tile.hazards] ++
      ([tile.flags] ++ post))))) (pre.length + 13)
    (by rw [List.length_append, tile.length_front]) rfl
  have hdig := @overwrite?_append UInt8
    (pre ++ (tile.front ++ (beBytes 4 4000 ++ (beBytes 4 tile.cooldown.val ++ tile.middle))))
    [tile.dig] [1] ([tile.hazards] ++ ([tile.flags] ++ post)) (pre.length + 29)
    (by simp only [List.length_append, tile.length_front, tile.length_middle, length_beBytes]) rfl
  simp only [List.append_assoc] at hpriority hdig
  simp only [designate?, VisibleTile.encode_eq, List.append_assoc, hpriority, Option.bind_eq_bind,
    Option.bind_some, hdig]
  rfl

theorem schedule?_encode (tile : VisibleTile) (pre post : Bytes) :
    schedule? (pre ++ ((DigTile.visible tile).encode ++ post)) pre.length =
      some (pre ++ ((DigTile.visible tile.scheduled).encode ++ post)) := by
  have hcooldown := @overwrite?_append UInt8 (pre ++ (tile.front ++ beBytes 4 tile.priority.val))
    (beBytes 4 tile.cooldown.val) (List.replicate 4 0) (tile.middle ++ ([tile.dig] ++
      ([tile.hazards] ++ ([tile.flags] ++ post)))) (pre.length + 17)
    (by simp only [List.length_append, tile.length_front, length_beBytes]) rfl
  have hflags := @modify?_append UInt8 (fun flags => flags ||| 16)
    (pre ++ (tile.front ++ (beBytes 4 tile.priority.val ++ (List.replicate 4 0 ++ (tile.middle ++
      ([tile.dig] ++ [tile.hazards])))))) post tile.flags (pre.length + 31)
    (by simp only [List.length_append, tile.length_front, tile.length_middle, length_beBytes,
      List.length_replicate, List.length_singleton])
  simp only [List.append_assoc] at hcooldown hflags
  have hzero : List.replicate 4 (0 : UInt8) = beBytes 4 (0 : U 32).val := by decide
  simp only [schedule?, VisibleTile.encode_eq, List.append_assoc, hcooldown, Option.bind_eq_bind,
    Option.bind_some, hflags]
  rw [hzero]
  rfl

/-- **The patch of a tile writes the predicted tile**, whatever stands around it. -/
theorem patchVisible?_encode (region : DigRegion) (p : Position) (tile : VisibleTile)
    (pre post : Bytes) :
    patchVisible? region p pre.length (pre ++ ((DigTile.visible tile).encode ++ post)) =
      some (pre ++ ((region.predicted p (.visible tile)).encode ++ post)) := by
  classical
  have htarget : (if region.target p then
        designate? (pre ++ ((DigTile.visible tile).encode ++ post)) pre.length
      else some (pre ++ ((DigTile.visible tile).encode ++ post))) =
      some (pre ++ ((DigTile.visible (if p ∈ region.cells then tile.designated else tile)).encode ++
        post)) := by
    by_cases h : p ∈ region.cells
    · rw [if_pos (DigRegion.target_iff.2 h), if_pos h, designate?_encode]
    · rw [if_neg (fun ht => h (DigRegion.target_iff.1 ht)), if_neg h]
  unfold patchVisible? DigRegion.predicted
  rw [htarget, Option.bind_eq_bind, Option.bind_some]
  by_cases h : p ∈ region.blocks
  · rw [if_pos (DigRegion.targetBlock_iff.2 h), schedule?_encode]
    simp only [if_pos h]
  · rw [if_neg (fun ht => h (DigRegion.targetBlock_iff.1 ht))]
    simp only [if_neg h]

/-! ## Patching a capture -/

theorem length_predicted (region : DigRegion) (p : Position) (tile : DigTile) :
    (region.predicted p tile).encode.length = tile.encode.length := by
  cases tile with
  | missing => rfl
  | hidden => rfl
  | visible tile => rfl

variable (o : DigObservation)

/-- The patch of any tile that starts where its offset says. -/
theorem patchTile?_encode {tile : DigTile} {i : Nat} {pre post : Bytes}
    (hoffset : o.offsets[i]? = some pre.length) :
    o.patchTile? (pre ++ (tile.encode ++ post)) (tile, i) =
      some (pre ++ ((o.region.predicted (o.region.position i) tile).encode ++ post)) := by
  cases tile with
  | missing => rfl
  | hidden => rfl
  | visible tile =>
      show (o.offsets[i]? >>= _) = _
      rw [hoffset]
      exact patchVisible?_encode o.region (o.region.position i) tile pre post

/-- **Patching the tiles one after the other encodes the predicted tiles.** The induction is on the
tiles that are left, with those already patched in front. -/
theorem patch_tiles (tiles : List DigTile) (k : Nat) (pre : Bytes)
    (hoffsets : ∀ j, (starts pre.length tiles)[j]? = o.offsets[k + j]?) :
    (tiles.zipIdx k).foldlM o.patchTile? (pre ++ tileBytes tiles) =
      some (pre ++ tileBytes ((tiles.zipIdx k).map fun entry =>
        o.region.predicted (o.region.position entry.2) entry.1)) := by
  induction tiles generalizing k pre with
  | nil => rfl
  | cons tile tiles ih =>
      have hfirst : o.offsets[k]? = some pre.length := (hoffsets 0).symm
      have hlength := length_predicted o.region (o.region.position k) tile
      have hrest := ih (k + 1)
        (pre ++ (o.region.predicted (o.region.position k) tile).encode) fun j => by
          have h := hoffsets (j + 1)
          rw [starts, List.getElem?_cons_succ, Nat.add_comm j 1, ← Nat.add_assoc] at h
          rwa [List.length_append, hlength]
      rw [List.zipIdx_cons, List.foldlM_cons, List.map_cons]
      simp only [tileBytes, List.flatMap_cons] at hrest ⊢
      rw [patchTile?_encode o hfirst, Option.bind_eq_bind, Option.bind_some, ← List.append_assoc, hrest,
        List.append_assoc]

/-- The contents that are predicted of a capture. -/
noncomputable def outcome : DigObservation where
  bytes := o.bytes
  generation := o.generation
  sequence := U.wrap (o.sequence.val + 1)
  tick := o.tick
  site := o.site
  dimensions := o.dimensions
  region := o.region
  paused := o.paused
  folder := o.folder
  tiles := o.tiles.mapIdx fun i tile => o.region.predicted (o.region.position i) tile
  offsets := o.offsets

variable {o}

theorem patched?_eq {bytes : Bytes} (h : decode bytes = .ok o)
    (hsequence : o.sequence.val < (U.max 64).val - 1) : o.patched? = some o.outcome.encode := by
  obtain ⟨⟨_, hbytes, hencode, hoffsets⟩, _⟩ := encode_of_decode h
  have hwrap : (U.wrap (o.sequence.val + 1) : U 64).val = o.sequence.val + 1 :=
    U.wrap_val (by rw [U.max] at hsequence; simp only at hsequence; omega)
  have hlength : o.outcome.tiles.length = o.tiles.length := List.length_mapIdx
  have hfront : overwrite? o.bytes 16 (beBytes 8 (o.sequence.val + 1)) =
      some (o.outcome.preamble ++ tileBytes o.tiles) := by
    have hmagic : (utf8 "DFMDG016").length = 8 := by decide
    rw [hbytes, ← hencode, encode, preamble, preamble, hlength]
    simp only [outcome, hwrap, List.append_assoc]
    rw [← List.append_assoc (utf8 "DFMDG016"), ← List.append_assoc (utf8 "DFMDG016")]
    exact overwrite?_append (by rw [List.length_append, length_beBytes, hmagic])
      (by rw [length_beBytes, length_beBytes])
  have hpreamble : o.outcome.preamble.length = o.preamble.length := by
    rw [preamble, preamble, hlength]
    simp only [outcome, List.length_append, length_beBytes]
  have htiles := patch_tiles o o.tiles 0 o.outcome.preamble fun j => by
    rw [hpreamble, ← hoffsets, Nat.zero_add]
  unfold patched?
  rw [hfront, Option.bind_eq_bind, Option.bind_some, htiles, encode]
  congr 3
  show _ = o.tiles.mapIdx fun i tile => o.region.predicted (o.region.position i) tile
  rw [List.mapIdx_eq_zipIdx_map]

/-! ## The bytes that differ -/

/-- The bytes that a designation changes in the tile that starts at an offset. -/
def alteredTile (region : DigRegion) (p : Position) (start j : Nat) : Prop :=
  (p ∈ region.cells ∧ ((start + 13 ≤ j ∧ j < start + 17) ∨ j = start + 29)) ∨
    (p ∈ region.blocks ∧ ((start + 17 ≤ j ∧ j < start + 21) ∨ j = start + 31))

/-- The bytes that a designation changes in a capture: the sequence, and those of visible tiles. -/
def altered (o : DigObservation) (j : Nat) : Prop :=
  (16 ≤ j ∧ j < 24) ∨ ∃ i tile start, o.tiles[i]? = some (.visible tile) ∧
    o.offsets[i]? = some start ∧ alteredTile o.region (o.region.position i) start j

theorem designate?_frame {touched : Nat → Prop} {start : Nat} {before after : Bytes}
    (htouched : ∀ j, (start + 13 ≤ j ∧ j < start + 17) ∨ j = start + 29 → touched j)
    (h : designate? before start = some after) : Frame touched before after := by
  obtain ⟨mid, hmid, hafter⟩ := Option.bind_eq_some_iff.1 h
  have hfirst : Frame touched before mid :=
    Frame.overwrite (length_beBytes 4 4000) (fun j hlow hhigh => htouched j (.inl ⟨hlow, hhigh⟩)) hmid
  refine hfirst.trans (Frame.overwrite List.length_singleton (fun j hlow hhigh => ?_) hafter)
  exact htouched j (.inr (by omega))

theorem schedule?_frame {touched : Nat → Prop} {start : Nat} {before after : Bytes}
    (htouched : ∀ j, (start + 17 ≤ j ∧ j < start + 21) ∨ j = start + 31 → touched j)
    (h : schedule? before start = some after) : Frame touched before after := by
  obtain ⟨mid, hmid, hafter⟩ := Option.bind_eq_some_iff.1 h
  have hfirst : Frame touched before mid :=
    Frame.overwrite List.length_replicate (fun j hlow hhigh => htouched j (.inl ⟨hlow, hhigh⟩)) hmid
  exact hfirst.trans (Frame.modify (htouched _ (.inr rfl)) hafter)

theorem patchVisible?_frame {touched : Nat → Prop} {region : DigRegion} {p : Position}
    {start : Nat} {before after : Bytes}
    (htouched : ∀ j, alteredTile region p start j → touched j)
    (h : patchVisible? region p start before = some after) : Frame touched before after := by
  obtain ⟨mid, hmid, hafter⟩ := Option.bind_eq_some_iff.1 h
  have hfirst : Frame touched before mid := by
    by_cases htarget : region.target p = true
    · rw [if_pos htarget] at hmid
      exact designate?_frame (fun j hj => htouched j (.inl ⟨DigRegion.target_iff.1 htarget, hj⟩)) hmid
    · rw [if_neg htarget, Option.some.injEq] at hmid
      exact hmid ▸ Frame.refl before
  refine hfirst.trans ?_
  by_cases hblock : region.targetBlock p = true
  · rw [if_pos hblock] at hafter
    exact schedule?_frame (fun j hj => htouched j (.inr ⟨DigRegion.targetBlock_iff.1 hblock, hj⟩))
      hafter
  · rw [if_neg hblock, Option.some.injEq] at hafter
    exact hafter ▸ Frame.refl mid

/-- **Only the predicted bytes are overwritten.** -/
theorem patched?_frame {out : Bytes} (h : o.patched? = some out) : Frame o.altered o.bytes out := by
  obtain ⟨front, hfront, htiles⟩ := Option.bind_eq_some_iff.1 h
  have hfirst : Frame o.altered o.bytes front :=
    Frame.overwrite (length_beBytes 8 _) (fun j hlow hhigh => .inl ⟨hlow, hhigh⟩) hfront
  refine hfirst.trans (frame_foldlM (fun entry hentry before after hstep => ?_) htiles)
  obtain ⟨tile, i⟩ := entry
  have htile := List.mem_zipIdx_iff_getElem?.1 hentry
  cases tile with
  | missing =>
      cases hstep
      exact Frame.refl _
  | hidden =>
      cases hstep
      exact Frame.refl _
  | visible tile =>
      obtain ⟨start, hstart, hpatch⟩ := Option.bind_eq_some_iff.1 hstep
      exact patchVisible?_frame (fun j hj => .inr ⟨i, tile, start, htile, hstart, hj⟩) hpatch

/-! ## The patched capture is accepted -/

theorem starts_mapIdx {f : Nat → DigTile → DigTile} (start : Nat) (tiles : List DigTile)
    (hf : ∀ i tile, (f i tile).encode.length = tile.encode.length) :
    starts start (tiles.mapIdx f) = starts start tiles := by
  induction tiles generalizing start f with
  | nil => rfl
  | cons tile tiles ih =>
      rw [List.mapIdx_cons, starts, starts, hf, ih _ fun i => hf (i + 1)]

theorem Sound.outcome (h : o.Sound) (hsequence : o.sequence.val < (U.max 64).val - 1) :
    o.outcome.Sound := by
  obtain ⟨⟨hgeneration, _, htick, hsite⟩, honMap, hfolder, hcomplete⟩ := h
  have hwrap : (U.wrap (o.sequence.val + 1) : U 64).val = o.sequence.val + 1 :=
    U.wrap_val (by rw [U.max] at hsequence; simp only at hsequence; omega)
  refine ⟨⟨hgeneration, ?_, htick, hsite⟩, honMap, hfolder, ?_⟩
  · show (U.wrap (o.sequence.val + 1) : U 64).val < (U.max 64).val
    omega
  · exact List.length_mapIdx.trans hcomplete

/-- **The designation outcome is predicted byte by byte.** The bytes that are hashed for the expected
witness are accepted by the decoder; they say what the observation says, with the next sequence, every
visible cell of the rectangle designated, and every visible cell of the map blocks it touches scheduled;
and they differ from the observed bytes in the bytes of these fields only. -/
theorem expectedWitness_exact {bytes : Bytes} {o : DigObservation} (h : decode bytes = .ok o)
    (hsequence : o.sequence.val < (U.max 64).val - 1) :
    ∃ out : Bytes, o.patched? = some out ∧ o.expectedWitness = some (.ok (.ofBytes out)) ∧
      decode out = .ok { o with
        bytes := out
        sequence := U.wrap (o.sequence.val + 1)
        tiles := o.tiles.mapIdx fun i tile => o.region.predicted (o.region.position i) tile } ∧
      (U.wrap (o.sequence.val + 1) : U 64).val = o.sequence.val + 1 ∧
      Frame o.altered bytes out ∧
      Set.BijOn o.region.position (Set.Iio o.tiles.length) o.region.haloCells := by
  obtain ⟨⟨hbound, hbytes, hencode, hoffsets⟩, hsound⟩ := encode_of_decode h
  have hpatched := patched?_eq h hsequence
  have hframe := patched?_frame hpatched
  rw [hbytes] at hframe
  have hpreamble : o.outcome.preamble.length = o.preamble.length := by
    have hlength : o.outcome.tiles.length = o.tiles.length := List.length_mapIdx
    rw [preamble, preamble, hlength]
    simp only [outcome, List.length_append, length_beBytes]
  have hdecode := o.outcome.decode_encode (hsound.outcome hsequence) (hframe.length.trans_le hbound)
  have hstarts : starts o.outcome.preamble.length o.outcome.tiles = o.offsets := by
    rw [hpreamble, hoffsets]
    exact starts_mapIdx _ _ fun i tile => length_predicted o.region (o.region.position i) tile
  refine ⟨o.outcome.encode, hpatched, ?_, ?_, ?_, hframe, ?_⟩
  · rw [expectedWitness, if_pos hsequence, hpatched]
    rfl
  · rw [hdecode, hstarts]
    rfl
  · exact U.wrap_val (by rw [U.max] at hsequence; simp only at hsequence; omega)
  · rw [hsound.complete]
    exact o.region.position_bijOn

namespace Hillside

/-- A wall at the edge of a map block, and the cell before it. -/
def wall : VisibleTile := ⟨219, 0, 0, 0, 30, 0, (10015, 10015), 0, 0, 1, by decide⟩

def capture : Bytes :=
  utf8 "DFMDG016" ++ (beBytes 8 3 ++ (beBytes 8 7 ++ (beBytes 8 1200 ++ (beBytes 4 41 ++
    (beBytes 4 96 ++ (beBytes 4 96 ++ (beBytes 4 50 ++ (beBytes 4 15 ++ (beBytes 4 5 ++
      (beBytes 4 30 ++ (beBytes 4 1 ++ (beBytes 4 1 ++ ([1] ++ (appendText "region1" ++
        (beBytes 2 27 ++ tileBytes (List.replicate 12 .missing ++
          (.visible wall :: .visible wall :: .hidden :: List.replicate 12 .missing)))))))))))))))))

def seen : DigObservation where
  bytes := capture
  generation := 3
  sequence := 7
  tick := 1200
  site := 41
  dimensions := (96, 96, 50)
  region := ⟨15, 5, 30, 1, 1, by decide⟩
  paused := true
  folder := "region1"
  tiles := List.replicate 12 .missing ++
    (.visible wall :: .visible wall :: .hidden :: List.replicate 12 .missing)
  offsets := (List.range 13).map (80 + ·) ++ [124, 156] ++ (List.range 12).map (157 + ·)

end Hillside

theorem expectedWitness_exact_hillside : ∃ out expected, Hillside.seen.patched? = some out ∧
    decode out = .ok expected ∧ expected.sequence.val = 8 ∧ expected.folder = "region1" := by
  obtain ⟨out, hpatched, _, hdecode, hsequence, _⟩ :=
    @expectedWitness_exact Hillside.capture Hillside.seen (by decide +kernel) (by decide)
  exact ⟨out, _, hpatched, hdecode, hsequence, rfl⟩

end DigObservation

end DigDesignation

end Dfmcp
