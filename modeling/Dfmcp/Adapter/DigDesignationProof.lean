import Dfmcp.Adapter.DigDesignation
import Dfmcp.Adapter.RunJournalCodecProof
import Dfmcp.Library.Exact

/-!
# The expected capture of a digging site

The capture that is expected after a designation is the observed one, patched in place. A capture that
the decoder accepts is the one encoding of what it says (`encode_of_decode`), and every encoding of
sound contents is accepted (`decode_encode`). The patch of one tile takes its encoding to the encoding
of the tile that is predicted (`patchVisible?_encode`), whatever stands before and after it; by induction
over the tiles, the patched capture is the encoding of the predicted contents.
-/

namespace Dfmcp

open Machine Wire BoundedRun Splice

namespace DigDesignation

variable {c : Prop}

/-! ## Reading back what was written -/

section Readers

open Read

/-- Past a check that was passed. -/
theorem checked_ok {α : Type} {condition : Prop} [Decidable condition] {message : String}
    {f : Unit → Decoder α} {bs : Bytes} {x : α × Bytes}
    (h : (check (demand condition message) >>= f) bs = .ok x) : condition ∧ f () bs = .ok x := by
  refine ⟨?_, check_bind_ok h⟩
  obtain ⟨u, rest, hcheck, _⟩ := run_bind_ok_iff.1 h
  by_contra hno
  unfold check demand at hcheck
  rw [if_neg hno] at hcheck
  cases hcheck

/-- At the end, nothing is left. -/
theorem finish_ok {α : Type} {f : Unit → Decoder α} {bs : Bytes} {x : α × Bytes}
    (h : (finish >>= f) bs = .ok x) : bs = [] ∧ f () [] = .ok x := by
  obtain ⟨u, rest, hfinish, hf⟩ := run_bind_ok_iff.1 h
  obtain ⟨left, same, hleft, hcheck⟩ := run_bind_ok_iff.1 hfinish
  cases hleft
  rw [← bind_pure (check _)] at hcheck
  obtain ⟨hempty, hpure⟩ := checked_ok hcheck
  obtain ⟨_, hrest⟩ := run_pure_ok_iff.1 hpure
  have hnil := List.length_eq_zero_iff.1 hempty
  rw [hrest, hnil] at hf
  exact ⟨hnil, hf⟩

theorem exact_be (n : Nat) {α : Type} (f : Nat → α) (g : α → Nat)
    (hf : ∀ m, m < 256 ^ n → g (f m) = m) :
    Exact (take n >>= fun bytes => pure (f (ofBe bytes))) fun a => beBytes n (g a) := by
  refine (Exact.take _ n).map fun bs a rest h => ?_
  have hlen : a.length = n := (run_take_ok_iff.1 h).2
  have hlt := ofBe_lt a
  rw [hlen] at hlt
  rw [hf _ hlt, ← hlen, beBytes_ofBe]
  rfl

theorem exact_u16 : Exact u16 fun n => beBytes 2 n := exact_be 2 id id fun _ _ => rfl

theorem exact_u32 : Exact u32 fun n => beBytes 4 n.val :=
  exact_be 4 U.wrap Fin.val fun _ h => U.wrap_val (h.trans_eq (by norm_num))

theorem exact_u64 : Exact u64 fun n => beBytes 8 n.val :=
  exact_be 8 U.wrap Fin.val fun _ h => U.wrap_val (h.trans_eq (by norm_num))

theorem exact_temperature : Exact DigTile.temperature fun n => beBytes 2 n.val :=
  exact_be 2 U.wrap Fin.val fun _ h => U.wrap_val (h.trans_eq (by norm_num))

theorem exact_byte : Exact byte fun b => [b] := by
  refine (Exact.take _ 1).map fun bs a rest h => ?_
  obtain ⟨b, rfl⟩ := List.length_eq_one_iff.1 (run_take_ok_iff.1 h).2
  rfl

/-- The byte of a flag. -/
def flagByte (flag : Bool) : UInt8 := if flag then 1 else 0

theorem exact_boolean : Exact boolean fun flag => [flagByte flag] := by
  intro bs flag rest h
  obtain ⟨b, rest', hbs, hb⟩ := exact_byte.bind_ok h
  by_cases hzero : b = 0
  · rw [if_pos hzero] at hb
    obtain ⟨hflag, hrest⟩ := run_pure_ok_iff.1 hb
    rw [hbs, hflag, hrest, hzero]
    rfl
  · rw [if_neg hzero] at hb
    by_cases hone : b = 1
    · rw [if_pos hone] at hb
      obtain ⟨hflag, hrest⟩ := run_pure_ok_iff.1 hb
      rw [hbs, hflag, hrest, hone]
      rfl
    · rw [if_neg hone] at hb
      cases hb

theorem parses_boolean (flag : Bool) : Parses c boolean [flagByte flag] flag := by
  unfold boolean
  refine (parses_byte (flagByte flag)).bind_nil ?_
  cases flag with
  | false => exact Parses.pure false
  | true => exact Parses.pure true

/-- The texts that a capture may hold. -/
def TextWithin (maximum : Nat) (value : String) : Prop :=
  (1 ≤ strLen value ∧ strLen value ≤ maximum) ∧ value.toList.contains (Char.ofNat 0) = false

theorem text_ok {maximum : Nat} {bs rest : Bytes} {value : String}
    (h : text maximum bs = .ok (value, rest)) :
    bs = appendText value ++ rest ∧ TextWithin maximum value := by
  obtain ⟨size, rest₁, hbs, h⟩ := exact_u16.bind_ok h
  obtain ⟨hsize, h⟩ := checked_ok h
  obtain ⟨raw, rest₂, hrest₁, hlen, h⟩ := take_bind_ok h
  cases hraw : fromUtf8 raw with
  | none =>
      rw [hraw] at h
      cases h
  | some s =>
      rw [hraw] at h
      obtain ⟨hnul, h⟩ := checked_ok h
      obtain ⟨hvalue, hrest⟩ := run_pure_ok_iff.1 h
      have hutf8 := utf8_of_fromUtf8 hraw
      subst hvalue
      have hstr : strLen value = size := by rw [strLen, hutf8, hlen]
      refine ⟨?_, hstr ▸ hsize, by simpa using hnul⟩
      rw [hbs, hrest₁, hrest, appendText, hstr, hutf8, List.append_assoc]

theorem parses_text' {maximum : Nat} {value : String} (hmaximum : maximum < 256 ^ 2)
    (h : TextWithin maximum value) : Parses c (text maximum) (appendText value) value := by
  unfold text appendText
  refine (parses_u16 (h.1.2.trans_lt hmaximum)).bind (parses_checked (demand_of h.1) ?_)
  refine (parses_take (utf8 value)).bind_nil ?_
  rw [fromUtf8_utf8]
  exact parses_checked (demand_of (by rw [h.2]; rfl)) (Parses.pure value)

end Readers

/-! ## Regions -/

namespace DigRegion

theorem new_ok {x y z width height : Nat} {region : DigRegion}
    (h : new x y z width height = .ok region) :
    region.x = x ∧ region.y = y ∧ region.z = z ∧ region.width = width ∧ region.height = height := by
  unfold new at h
  split at h
  · cases h
    exact ⟨rfl, rfl, rfl, rfl, rfl⟩
  · cases h

theorem new_self (region : DigRegion) :
    new region.x region.y region.z region.width region.height = .ok region := dif_pos region.bounded

theorem reader_ok {bs rest : Bytes} {region : DigRegion}
    (h : reader bs = .ok (region, rest)) : bs = region.append ++ rest := by
  obtain ⟨x, rest₁, hbs, h⟩ := exact_u32.bind_ok h
  obtain ⟨y, rest₂, h₁, h⟩ := exact_u32.bind_ok h
  obtain ⟨z, rest₃, h₂, h⟩ := exact_u32.bind_ok h
  obtain ⟨width, rest₄, h₃, h⟩ := exact_u32.bind_ok h
  obtain ⟨height, rest₅, h₄, h⟩ := exact_u32.bind_ok h
  cases hnew : new x.val y.val z.val width.val height.val with
  | error e =>
      rw [hnew] at h
      cases h
  | ok made =>
      rw [hnew] at h
      obtain ⟨hregion, hrest⟩ := run_pure_ok_iff.1 h
      obtain ⟨hx, hy, hz, hwidth, hheight⟩ := new_ok hnew
      rw [hbs, h₁, h₂, h₃, h₄, hregion, hrest, append, hx, hy, hz, hwidth, hheight]
      simp only [List.append_assoc]

theorem parses_reader (region : DigRegion) : Parses c reader region.append region := by
  obtain ⟨⟨⟨_, hwidth⟩, _, hheight⟩, ⟨_, hz⟩, _, hx, hy⟩ := region.bounded
  have hread : ∀ n : Nat, n < 2 ^ 32 → Parses c Read.u32 (beBytes 4 n) (U.wrap n) := by
    intro n hn
    have h := Read.parses_u32 (c := c) (U.wrap n)
    rwa [U.wrap_val hn] at h
  unfold reader append
  refine (hread region.x (by omega)).bind ((hread region.y (by omega)).bind ?_)
  refine (hread region.z (by omega)).bind ((hread region.width (by omega)).bind ?_)
  refine (hread region.height (by omega)).bind_nil ?_
  rw [U.wrap_val (by omega), U.wrap_val (by omega), U.wrap_val (by omega), U.wrap_val (by omega),
    U.wrap_val (by omega), new_self]
  exact Parses.pure region

theorem haloCount_le (region : DigRegion) : region.haloCount ≤ maxCells := by
  obtain ⟨⟨⟨_, hwidth⟩, _, hheight⟩, _⟩ := region.bounded
  calc (region.width + 2) * (region.height + 2) * 3
      ≤ (8 + 2) * (8 + 2) * 3 := by gcongr
    _ = maxCells := rfl

end DigRegion

/-! ## Tiles -/

def VisibleTile.encode (tile : VisibleTile) : Bytes :=
  beBytes 4 tile.tiletype.val ++ (beBytes 4 tile.designationOther.val ++
    (beBytes 4 tile.occupancy.val ++ (beBytes 4 tile.priority.val ++ (beBytes 4 tile.cooldown.val ++
      (beBytes 4 tile.blockOther.val ++ (beBytes 2 tile.temperatures.1.val ++
        (beBytes 2 tile.temperatures.2.val ++ ([tile.dig] ++ ([tile.hazards] ++ [tile.flags])))))))))

namespace DigTile

def encode : DigTile → Bytes
  | missing => [0]
  | hidden => [1]
  | visible tile => [2] ++ tile.encode

theorem visibleReader_ok {bs rest : Bytes} {tile : DigTile}
    (h : visibleReader bs = .ok (tile, rest)) : [2] ++ bs = tile.encode ++ rest := by
  obtain ⟨tiletype, rest₁, hbs, h⟩ := exact_u32.bind_ok h
  obtain ⟨designationOther, rest₂, h₁, h⟩ := exact_u32.bind_ok h
  obtain ⟨occupancy, rest₃, h₂, h⟩ := exact_u32.bind_ok h
  obtain ⟨priority, rest₄, h₃, h⟩ := exact_u32.bind_ok h
  obtain ⟨cooldown, rest₅, h₄, h⟩ := exact_u32.bind_ok h
  obtain ⟨blockOther, rest₆, h₅, h⟩ := exact_u32.bind_ok h
  obtain ⟨first, rest₇, h₆, h⟩ := exact_temperature.bind_ok h
  obtain ⟨second, rest₈, h₇, h⟩ := exact_temperature.bind_ok h
  obtain ⟨dig, rest₉, h₈, h⟩ := exact_byte.bind_ok h
  obtain ⟨hazards, rest₁₀, h₉, h⟩ := exact_byte.bind_ok h
  obtain ⟨flags, rest₁₁, h₁₀, h⟩ := exact_byte.bind_ok h
  by_cases hbounded : priority.val ≤ 7000 ∧ dig ≤ 7 ∧ hazards ≤ 15 ∧ flags ≤ 31
  · rw [dif_pos hbounded] at h
    obtain ⟨htile, hrest⟩ := run_pure_ok_iff.1 h
    rw [hbs, h₁, h₂, h₃, h₄, h₅, h₆, h₇, h₈, h₉, h₁₀, htile, hrest]
    simp only [encode, VisibleTile.encode, List.append_assoc]
  · rw [dif_neg hbounded] at h
    cases h

theorem exact_reader : Exact reader encode := by
  intro bs tile rest h
  obtain ⟨presence, rest₁, hbs, h⟩ := exact_byte.bind_ok h
  obtain ⟨n, hn⟩ : ∃ n, presence.toNat = n := ⟨_, rfl⟩
  have hbyte : presence = UInt8.ofNat n := by rw [← hn, UInt8.ofNat_toNat]
  rw [hn] at h
  rw [hbs, hbyte]
  rcases n with _ | _ | _ | n
  · obtain ⟨htile, hrest⟩ := run_pure_ok_iff.1 h
    rw [htile, hrest]
    rfl
  · obtain ⟨htile, hrest⟩ := run_pure_ok_iff.1 h
    rw [htile, hrest]
    rfl
  · exact visibleReader_ok h
  · cases h

theorem parses_temperature (t : U 16) : Parses c temperature (beBytes 2 t.val) t := by
  have h := Read.parses_be (c := c) 2 (x := t.val) t.isLt fun n => (U.wrap n : U 16)
  rwa [show (U.wrap t.val : U 16) = t from Fin.ext (U.wrap_val t.isLt)] at h

theorem parses_visible (tile : VisibleTile) :
    Parses c visibleReader tile.encode (visible tile) := by
  unfold visibleReader VisibleTile.encode
  refine (Read.parses_u32 tile.tiletype).bind ((Read.parses_u32 tile.designationOther).bind ?_)
  refine (Read.parses_u32 tile.occupancy).bind ((Read.parses_u32 tile.priority).bind ?_)
  refine (Read.parses_u32 tile.cooldown).bind ((Read.parses_u32 tile.blockOther).bind ?_)
  refine (parses_temperature tile.temperatures.1).bind ?_
  refine (parses_temperature tile.temperatures.2).bind ?_
  refine (Read.parses_byte tile.dig).bind ((Read.parses_byte tile.hazards).bind ?_)
  refine (Read.parses_byte tile.flags).bind_nil ?_
  rw [dif_pos tile.bounded]
  exact Parses.pure (visible tile)

theorem parses_reader (tile : DigTile) : Parses c reader tile.encode tile := by
  unfold reader
  cases tile with
  | missing => exact (Read.parses_byte 0).bind_nil (Parses.pure missing)
  | hidden => exact (Read.parses_byte 1).bind_nil (Parses.pure hidden)
  | visible tile => exact (Read.parses_byte 2).bind (parses_visible tile)

end DigTile

/-! ## Captures -/

def tileBytes (tiles : List DigTile) : Bytes := tiles.flatMap DigTile.encode

/-- Where each tile starts when the first one starts at an offset. -/
def starts : Nat → List DigTile → List Nat
  | _, [] => []
  | start, tile :: tiles => start :: starts (start + tile.encode.length) tiles

namespace DigObservation

theorem readTiles_ok {total count : Nat} {bs rest : Bytes} {tiles : List DigTile}
    {offsets : List Nat} (hfits : bs.length ≤ total)
    (h : readTiles total count bs = .ok ((tiles, offsets), rest)) :
    bs = tileBytes tiles ++ rest ∧ tiles.length = count ∧
      offsets = starts (total - bs.length) tiles := by
  induction count generalizing bs rest tiles offsets with
  | zero =>
      cases h
      exact ⟨rfl, rfl, rfl⟩
  | succ count ih =>
      obtain ⟨left, same, hleft, h⟩ := run_bind_ok_iff.1 h
      cases hleft
      obtain ⟨tile, rest₁, hbs, h⟩ := DigTile.exact_reader.bind_ok h
      obtain ⟨⟨others, starts'⟩, rest₂, hothers, h⟩ := run_bind_ok_iff.1 h
      obtain ⟨hpair, hrest⟩ := run_pure_ok_iff.1 h
      obtain ⟨htiles, hoffsets⟩ := Prod.mk.inj hpair
      have hlen : bs.length = tile.encode.length + rest₁.length := by
        rw [hbs, List.length_append]
      obtain ⟨hrest₁, hcount, hstarts⟩ := ih (by omega) hothers
      refine ⟨?_, ?_, ?_⟩
      · rw [hbs, hrest₁, htiles, hrest]
        simp only [tileBytes, List.flatMap_cons, List.append_assoc]
      · rw [htiles, List.length_cons, hcount]
      · rw [hoffsets, htiles, hstarts, starts]
        congr 2
        omega

theorem readTiles_tileBytes {total : Nat} {tiles : List DigTile} {rest : Bytes}
    (hfits : (tileBytes tiles ++ rest).length ≤ total) (hlen : total < 2 ^ 64) :
    readTiles total tiles.length (tileBytes tiles ++ rest) =
      .ok ((tiles, starts (total - (tileBytes tiles ++ rest).length) tiles), rest) := by
  induction tiles with
  | nil => rfl
  | cons tile tiles ih =>
      have hbytes : tileBytes (tile :: tiles) ++ rest = tile.encode ++ (tileBytes tiles ++ rest) := by
        simp only [tileBytes, List.flatMap_cons, List.append_assoc]
      rw [hbytes] at hfits ⊢
      have hsplit : (tile.encode ++ (tileBytes tiles ++ rest)).length =
          tile.encode.length + (tileBytes tiles ++ rest).length := List.length_append
      have hread : DigTile.reader (tile.encode ++ (tileBytes tiles ++ rest)) =
          .ok (tile, tileBytes tiles ++ rest) :=
        ((tile.parses_reader (c := True)) _ (by omega)).resolve_right fun hno => hno.1 trivial
      rw [List.length_cons, readTiles, run_bind]
      show (DigTile.reader (tile.encode ++ (tileBytes tiles ++ rest)) >>= _) = _
      rw [hread]
      show (readTiles total tiles.length (tileBytes tiles ++ rest) >>= _) = _
      rw [ih (by omega)]
      show Except.ok _ = Except.ok _
      rw [starts]
      congr 5
      omega

variable (o : DigObservation)

/-- The bytes of a capture before its tiles. -/
def preamble : Bytes :=
  utf8 "DFMDG016" ++ (beBytes 8 o.generation.val ++ (beBytes 8 o.sequence.val ++
    (beBytes 8 o.tick.val ++ (beBytes 4 o.site.val ++ (beBytes 4 o.dimensions.1.val ++
      (beBytes 4 o.dimensions.2.1.val ++ (beBytes 4 o.dimensions.2.2.val ++ (o.region.append ++
        ([flagByte o.paused] ++ (appendText o.folder ++ beBytes 2 o.tiles.length))))))))))

/-- The one capture that says what an observation says. -/
def encode : Bytes := o.preamble ++ tileBytes o.tiles

/-- What the decoder checks of the contents of a capture. -/
structure Sound : Prop where
  clocked : clocked o.generation o.sequence o.tick o.site
  onMap : onMap o.dimensions o.region
  folder : TextWithin 512 o.folder
  complete : o.tiles.length = o.region.haloCount

variable {o}

/-- **A capture that is accepted is the encoding of its contents.** -/
theorem encode_of_decode {bytes : Bytes} (h : decode bytes = .ok o) :
    (bytes.length ≤ maxCaptureBytes ∧ o.bytes = bytes ∧ o.encode = bytes ∧
      o.offsets = starts o.preamble.length o.tiles) ∧ o.Sound := by
  unfold decode at h
  obtain ⟨hbound, h⟩ := check_ok_iff.1 h
  have hbound := demand_ok_iff.1 hbound
  obtain ⟨rest, h⟩ : ∃ rest, reader bytes bytes = .ok (o, rest) := by
    unfold Read.run at h
    cases hread : reader bytes bytes with
    | error e =>
        rw [hread] at h
        cases h
    | ok out =>
        rw [hread] at h
        cases h
        exact ⟨out.2, rfl⟩
  obtain ⟨magic, r₁, h₁, hmagicLength, h⟩ := Read.take_bind_ok h
  obtain ⟨hmagic, h⟩ := checked_ok h
  obtain ⟨generation, r₂, h₂, h⟩ := exact_u64.bind_ok h
  obtain ⟨sequence, r₃, h₃, h⟩ := exact_u64.bind_ok h
  obtain ⟨tick, r₄, h₄, h⟩ := exact_u64.bind_ok h
  obtain ⟨site, r₅, h₅, h⟩ := exact_u32.bind_ok h
  obtain ⟨hclocked, h⟩ := checked_ok h
  obtain ⟨across, r₆, h₆, h⟩ := exact_u32.bind_ok h
  obtain ⟨down, r₇, h₇, h⟩ := exact_u32.bind_ok h
  obtain ⟨levels, r₈, h₈, h⟩ := exact_u32.bind_ok h
  obtain ⟨region, r₉, hregion, h⟩ := run_bind_ok_iff.1 h
  have h₉ := DigRegion.reader_ok hregion
  obtain ⟨honMap, h⟩ := checked_ok h
  obtain ⟨paused, r₁₀, h₁₀, h⟩ := exact_boolean.bind_ok h
  obtain ⟨folder, r₁₁, htext, h⟩ := run_bind_ok_iff.1 h
  obtain ⟨h₁₁, hfolder⟩ := text_ok htext
  obtain ⟨count, r₁₂, h₁₂, h⟩ := exact_u16.bind_ok h
  obtain ⟨hcount, h⟩ := checked_ok h
  obtain ⟨⟨tiles, offsets⟩, r₁₃, htiles, h⟩ := run_bind_ok_iff.1 h
  obtain ⟨hend, h⟩ := finish_ok h
  obtain ⟨ho, _⟩ := run_pure_ok_iff.1 h
  have hfits : r₁₂.length ≤ bytes.length := by
    rw [h₁, h₂, h₃, h₄, h₅, h₆, h₇, h₈, h₉, h₁₀, h₁₁, h₁₂]
    simp only [List.length_append]
    omega
  obtain ⟨htileBytes, hlength, hstarts⟩ := readTiles_ok hfits htiles
  rw [hend, List.append_nil] at htileBytes
  have hpreamble : bytes = o.preamble ++ r₁₂ := by
    rw [h₁, hmagic, h₂, h₃, h₄, h₅, h₆, h₇, h₈, h₉, h₁₀, h₁₁, h₁₂, ho, ← hlength]
    simp only [preamble, List.append_assoc]
  have hoffset : o.preamble.length = bytes.length - r₁₂.length := by
    rw [hpreamble, List.length_append, Nat.add_sub_cancel]
  refine ⟨⟨hbound, ?_, ?_, ?_⟩, ⟨?_, ?_, ?_, ?_⟩⟩
  · rw [ho]
  · rw [hpreamble, encode, htileBytes, ho]
  · rw [hoffset, ho]
    exact hstarts
  · rwa [ho]
  · rwa [ho]
  · rwa [ho]
  · rw [ho]
    exact hlength.trans hcount.1

variable (o) in
/-- **An encoding of sound contents is accepted.** -/
theorem decode_encode (h : o.Sound) (hbound : o.encode.length ≤ maxCaptureBytes) :
    decode o.encode =
      .ok { o with bytes := o.encode, offsets := starts o.preamble.length o.tiles } := by
  have hcount : o.tiles.length ≤ maxCells := h.complete.trans_le o.region.haloCount_le
  have hread : readTiles o.encode.length o.tiles.length (tileBytes o.tiles) =
      .ok ((o.tiles, starts o.preamble.length o.tiles), []) := by
    have hlen : o.encode.length = o.preamble.length + (tileBytes o.tiles).length :=
      List.length_append
    have h := @readTiles_tileBytes o.encode.length o.tiles [] (by rw [List.append_nil]; omega)
      (hbound.trans_lt (by decide))
    rwa [List.append_nil, hlen, Nat.add_sub_cancel, ← hlen] at h
  have hparse : ParsesAll True (reader o.encode) o.encode
      { o with bytes := o.encode, offsets := starts o.preamble.length o.tiles } := by
    conv => arg 3; rw [encode, preamble]
    simp only [List.append_assoc]
    unfold reader
    refine (Read.parses_take (utf8 "DFMDG016")).bind_all (Read.parsesAll_checked (demand_of rfl) ?_)
    refine (Read.parses_u64 o.generation).bind_all ((Read.parses_u64 o.sequence).bind_all ?_)
    refine (Read.parses_u64 o.tick).bind_all ((Read.parses_u32 o.site).bind_all ?_)
    refine Read.parsesAll_checked (demand_of h.clocked) ?_
    refine (Read.parses_u32 o.dimensions.1).bind_all ?_
    refine (Read.parses_u32 o.dimensions.2.1).bind_all ?_
    refine (Read.parses_u32 o.dimensions.2.2).bind_all (o.region.parses_reader.bind_all ?_)
    refine Read.parsesAll_checked (demand_of h.onMap) ?_
    refine (parses_boolean o.paused).bind_all ((parses_text' (by decide) h.folder).bind_all ?_)
    refine (Read.parses_u16 (hcount.trans_lt (by decide))).bind_all ?_
    refine Read.parsesAll_checked (demand_of ⟨h.complete, hcount⟩) ?_
    intro _
    left
    rw [run_bind, hread]
    rfl
  unfold decode
  rw [demand_of hbound]
  exact Read.run_of_parsesAll hparse (hbound.trans_lt (by decide))

end DigObservation

end DigDesignation

end Dfmcp
