import Dfmcp.World.TerrainWrite

/-!
# Tile writes are exact

The codes of a chunk are the runs written out, and both readers and the writer go through them:
a reader of runs finds the code at its offset, encoding the codes gives runs that write out to
them, and the array of the spatial index holds the properties of each. A coordinate determines its
slot and the slot the coordinate, so replacing one code changes what is read at one coordinate.

* `expandRuns_encodeRuns` — decoding undoes encoding;
* `codeInRuns_eq`, `fillTiles_eq` — what the two readers find;
* `tileSlot_injective` — no two coordinates share a slot;
* `meets_setTileCode` — a write replaces one code or does nothing;
* `terrain_writes_exact` — writes are exact and the spatial index agrees.
-/

namespace Dfmcp

open Machine Method

/-! ## Runs written out -/

theorem expandRuns_cons (run : TerrainRun) (runs : List TerrainRun) :
    expandRuns (run :: runs) = List.replicate run.length.val run.tileCode ++ expandRuns runs :=
  List.flatMap_cons

theorem expandRuns_append (runs more : List TerrainRun) :
    expandRuns (runs ++ more) = expandRuns runs ++ expandRuns more :=
  List.flatMap_append

theorem expandRuns_single (run : TerrainRun) :
    expandRuns [run] = List.replicate run.length.val run.tileCode := by
  rw [expandRuns_cons]
  exact List.append_nil _

/-- A code pushed is a code appended, while the runs are shorter than the largest length. -/
theorem expandRuns_pushCode {runs : List TerrainRun} (code : U 32)
    (hlength : (expandRuns runs).length + 1 < 2 ^ 32) :
    expandRuns (pushCode runs code) = expandRuns runs ++ [code] := by
  have hone : expandRuns [⟨code, 1⟩] = [code] := expandRuns_single _
  cases hlast : runs.getLast? with
  | none =>
      rw [pushCode, hlast]
      exact (expandRuns_append _ _).trans (by rw [hone])
  | some run =>
      rw [pushCode, hlast]
      dsimp only
      by_cases heq : run.tileCode = code
      · have hruns : runs.dropLast ++ [run] = runs :=
          List.dropLast_append_getLast? run (by rw [hlast]; rfl)
        have hsplit : expandRuns runs =
            expandRuns runs.dropLast ++ List.replicate run.length.val run.tileCode := by
          rw [← expandRuns_single, ← expandRuns_append, hruns]
        have hfits : run.length.val + 1 < 2 ^ 32 := by
          rw [hsplit, List.length_append, List.length_replicate] at hlength
          omega
        have hnext : (run.length + 1).val = run.length.val + 1 := by
          rw [Fin.val_add]
          exact Nat.mod_eq_of_lt hfits
        rw [if_pos heq, expandRuns_append, expandRuns_single, hsplit, hnext, List.replicate_succ',
          heq, List.append_assoc]
      · rw [if_neg heq, expandRuns_append, hone]

/-- **Decoding undoes encoding.** -/
theorem expandRuns_encodeRuns {codes : List (U 32)} (hlength : codes.length < 2 ^ 32) :
    expandRuns (encodeRuns codes) = codes := by
  induction codes using List.reverseRecOn with
  | nil => rfl
  | append_singleton codes code ih =>
      rw [List.length_append, List.length_singleton] at hlength
      have hcodes := ih (by omega)
      have hpush : encodeRuns (codes ++ [code]) = pushCode (encodeRuns codes) code := by
        rw [encodeRuns, List.foldl_append]
        rfl
      rw [hpush, expandRuns_pushCode code (by rwa [hcodes]), hcodes]

/-- The encoded tile count is the number of codes. -/
theorem foldlM_checkedAdd_iff (runs : List TerrainRun) (total count : U 32) :
    runs.foldlM (fun total run => U.checkedAdd total run.length) total = some count ↔
      total.val + (expandRuns runs).length = count.val := by
  induction runs generalizing total with
  | nil =>
      rw [List.foldlM_nil, expandRuns, List.flatMap_nil, List.length_nil, Nat.add_zero]
      exact (Option.some_inj.trans Fin.ext_iff)
  | cons run runs ih =>
      rw [List.foldlM_cons, expandRuns_cons, List.length_append, List.length_replicate]
      cases hnext : U.checkedAdd total run.length with
      | none =>
          rw [U.checkedAdd_eq_none] at hnext
          have hcount := count.isLt
          refine iff_of_false (by rintro ⟨⟩) ?_
          omega
      | some next =>
          rw [U.checkedAdd_eq_some] at hnext
          refine (ih next).trans ?_
          rw [← hnext]
          omega

theorem encodedTileCount_iff (chunk : MapChunk) (count : U 32) :
    chunk.encodedTileCount = some count ↔ (expandRuns chunk.terrainRuns).length = count.val := by
  have hzero : (0 : U 32).val = 0 := rfl
  rw [MapChunk.encodedTileCount, foldlM_checkedAdd_iff, hzero, Nat.zero_add]

/-- Canonical: sixteen by sixteen, with two hundred and fifty-six codes. -/
theorem chunkIsCanonical_iff (chunk : MapChunk) :
    chunkIsCanonical chunk = true ↔ chunk.width.val = 16 ∧ chunk.height.val = 16 ∧
      (expandRuns chunk.terrainRuns).length = 256 := by
  rw [chunkIsCanonical, Bool.and_eq_true, Bool.and_eq_true, decide_eq_true_iff, decide_eq_true_iff,
    decide_eq_true_iff, encodedTileCount_iff, and_assoc]
  rfl

theorem decodeRuns_eq_some {chunk : MapChunk} {codes : List (U 32)} :
    decodeRuns chunk = some codes ↔
      chunkIsCanonical chunk = true ∧ expandRuns chunk.terrainRuns = codes := by
  rw [decodeRuns]
  cases chunkIsCanonical chunk <;> simp

/-! ## What a reader of runs finds -/

theorem codeInRuns_eq (offset start : U 32) (runs : List TerrainRun)
    (hstart : start ≤ offset) (hend : start.val + (expandRuns runs).length < 2 ^ 32) :
    codeInRuns offset start runs = (expandRuns runs)[offset.val - start.val]? := by
  induction runs generalizing start with
  | nil => rfl
  | cons run runs ih =>
      rw [expandRuns_cons, List.length_append, List.length_replicate] at hend
      rw [expandRuns_cons, codeInRuns]
      cases hstop : start.checkedAdd run.length with
      | none =>
          rw [U.checkedAdd_eq_none] at hstop
          omega
      | some stop =>
          rw [U.checkedAdd_eq_some] at hstop
          have hle : start.val ≤ offset.val := hstart
          dsimp only
          by_cases hlt : offset < stop
          · have hlt' : offset.val < stop.val := hlt
            rw [if_pos hlt, List.getElem?_append_left (by rw [List.length_replicate]; omega),
              List.getElem?_replicate_of_lt (by omega)]
          · have hge : stop.val ≤ offset.val := not_lt.1 hlt
            have hshift : offset.val - start.val - run.length.val = offset.val - stop.val := by
              omega
            rw [if_neg hlt, ih stop hge (by omega),
              List.getElem?_append_right (by rw [List.length_replicate]; omega),
              List.length_replicate, hshift]

/-- In a canonical chunk a reader finds the code of its offset. -/
theorem codeInChunk_eq {chunk : MapChunk} (hchunk : chunkIsCanonical chunk = true)
    (offset : U 32) : codeInChunk chunk offset = (expandRuns chunk.terrainRuns)[offset.val]? := by
  have hlength := ((chunkIsCanonical_iff chunk).1 hchunk).2.2
  rw [codeInChunk, hchunk, Bool.not_true, if_neg Bool.false_ne_true,
    codeInRuns_eq offset 0 _ (Fin.zero_le offset) (by rw [hlength]; decide)]
  rfl

/-! ## Writes -/

/-- The second chunk has one code of the first replaced. -/
structure MapChunk.Replaces (chunk : MapChunk) (offset code : U 32) (next : MapChunk) : Prop where
  canonical : chunkIsCanonical chunk = true
  next_canonical : chunkIsCanonical next = true
  codes : expandRuns next.terrainRuns = (expandRuns chunk.terrainRuns).set offset.val code
  inside : offset.val < 256

/-- A replaced code is read at its offset and nowhere else. -/
theorem MapChunk.Replaces.read {chunk next : MapChunk} {offset code : U 32}
    (h : chunk.Replaces offset code next) (at' : U 32) :
    codeInChunk next at' = if at' = offset then some code else codeInChunk chunk at' := by
  have hlength := ((chunkIsCanonical_iff chunk).1 h.canonical).2.2
  rw [codeInChunk_eq h.next_canonical, codeInChunk_eq h.canonical, h.codes]
  by_cases heq : at' = offset
  · rw [if_pos heq, heq, List.getElem?_set_self (by rw [hlength]; exact h.inside)]
  · rw [if_neg heq, List.getElem?_set_ne fun hval => heq (Fin.ext hval.symm)]

/-- **A write replaces one code of its chunk**, or fails and leaves the chunk as it was. -/
theorem MapChunk.meets_setTileCode (chunk : MapChunk) (coord : MapCoord) (offset code : U 32) :
    Meets (· = chunk) (MapChunk.setTileCode coord offset code)
      (fun _ next => chunk.Replaces offset code next) (fun _ next => next = chunk) := by
  unfold MapChunk.setTileCode
  refine .bind (Q := fun found next => found = chunk ∧ next = chunk) (.get fun _ h => ⟨h, h⟩)
    fun found => .given ?_
  rintro rfl
  refine .bind (Q := fun codes next => decodeRuns found = some codes ∧ next = found)
    (.of ?_ fun _ _ h _ => h) fun codes => .given fun hcodes => ?_
  · intro next codes hnext hok
    cases hdecode : decodeRuns found with
    | none =>
        rw [hdecode] at hok
        cases hok
    | some codes =>
        rw [hdecode] at hok
        cases hok
        exact ⟨rfl, hnext⟩
  obtain ⟨hcanonical, hcodes⟩ := decodeRuns_eq_some.1 hcodes
  have hwhole := (chunkIsCanonical_iff found).1 hcanonical
  cases hcurrent : codes[offset.val]? with
  | none => exact .fails fun _ h => h
  | some current =>
      have hinside : offset.val < 256 := by
        have hlt := (List.getElem?_eq_some_iff.1 hcurrent).1
        rwa [← hcodes, hwhole.2.2] at hlt
      refine .bind (.rejectIf fun _ h _ => h) fun _ => .given fun _ => ?_
      refine .ite (fun hsame => .pure fun next hnext => ?_) fun _ => ?_
      · subst hnext
        refine ⟨hcanonical, hcanonical, ?_, hinside⟩
        rw [hcodes]
        refine (List.ext_getElem? fun i => ?_)
        by_cases hi : offset.val = i
        · rw [← hi, List.getElem?_set_self (by rw [← hcodes, hwhole.2.2]; exact hinside),
            hcurrent, hsame]
        · rw [List.getElem?_set_ne hi]
      · refine .bind (Q := fun _ next => next = found) (.of (fun _ _ h _ => h) fun _ _ h _ => h)
          fun revision => .bind (.set fun _ _ => ?_) fun _ => .pure fun _ h => h
        have hencoded : expandRuns (encodeRuns (codes.set offset.val code)) =
            codes.set offset.val code := by
          apply expandRuns_encodeRuns
          rw [List.length_set, ← hcodes, hwhole.2.2]
          decide
        refine ⟨hcanonical, (chunkIsCanonical_iff _).2 ⟨hwhole.1, hwhole.2.1, ?_⟩, ?_, hinside⟩
        · dsimp only
          rw [hencoded, List.length_set, ← hcodes, hwhole.2.2]
        · dsimp only
          rw [hencoded, hcodes]

namespace WorldSnapshot

/-- What is read after a chunk was put back. -/
theorem tileCodeAt_putChunk (s : WorldSnapshot) (key : ChunkCoord) (chunk : MapChunk)
    (coord : MapCoord) :
    (s.putChunk key chunk).tileCodeAt coord =
      if (tileSlot coord).chunk = key then
        (codeInChunk chunk (tileSlot coord).offset).filter (· ≠ TileCodes.unknown)
      else s.tileCodeAt coord := by
  rw [tileCodeAt, tileCodeAt, putChunk]
  dsimp only
  rw [OMap.get?_insert]
  by_cases hkey : (tileSlot coord).chunk = key
  · rw [if_pos hkey, if_pos hkey]
    rfl
  · rw [if_neg hkey, if_neg hkey]

theorem putChunk_self {s : WorldSnapshot} {key : ChunkCoord} {chunk : MapChunk}
    (hget : s.graph.chunks.get? key = some chunk) : s.putChunk key chunk = s := by
  have hinsert : s.graph.chunks.insert key chunk = s.graph.chunks := by
    refine OMap.ext_get? fun other => ?_
    rw [OMap.get?_insert]
    by_cases hother : other = key
    · rw [if_pos hother, hother, hget]
    · rw [if_neg hother]
  rw [putChunk, hinsert]

/-- The second snapshot has the code of one tile replaced, in a canonical chunk. A code that says
nothing was observed reads as nothing. -/
structure WritesTile (s : WorldSnapshot) (coord : MapCoord) (code : U 32) (t : WorldSnapshot) :
    Prop where
  written : t.tileCodeAt coord = if code = TileCodes.unknown then none else some code
  elsewhere : ∀ other, other ≠ coord → t.tileCodeAt other = s.tileCodeAt other
  canonical : ∃ chunk, t.graph.chunks.get? (tileSlot coord).chunk = some chunk ∧
    chunkIsCanonical chunk = true

theorem WritesTile.of_replaces {s : WorldSnapshot} {coord : MapCoord} {code : U 32}
    {chunk next : MapChunk} (hget : s.graph.chunks.get? (tileSlot coord).chunk = some chunk)
    (h : chunk.Replaces (tileSlot coord).offset code next) :
    s.WritesTile coord code (s.putChunk (tileSlot coord).chunk next) where
  written := by
    rw [tileCodeAt_putChunk, if_pos rfl, h.read, if_pos rfl]
    by_cases hunknown : code = TileCodes.unknown
    · rw [if_pos hunknown, hunknown]
      rfl
    · rw [if_neg hunknown]
      exact Option.filter_eq_some_iff.2 ⟨rfl, decide_eq_true hunknown⟩
  elsewhere := by
    intro other hother
    rw [tileCodeAt_putChunk]
    by_cases hchunk : (tileSlot other).chunk = (tileSlot coord).chunk
    · have hoffset : (tileSlot other).offset ≠ (tileSlot coord).offset := by
        intro hoffset
        apply hother
        apply tileSlot_injective
        exact congrArg₂ TileSlot.mk hchunk hoffset
      rw [if_pos hchunk, h.read, if_neg hoffset, tileCodeAt, hchunk, hget]
      rfl
    · rw [if_neg hchunk]
  canonical := ⟨next, by rw [putChunk]; simp, h.next_canonical⟩

/-- **A write of a tile is exact**, and one that fails leaves the snapshot as it was. -/
theorem meets_setTileCode (s : WorldSnapshot) (coord : MapCoord) (code : U 32) :
    Meets (· = s) (setTileCode coord code) (fun _ t => s.WritesTile coord code t)
      (fun _ t => t = s) := by
  unfold setTileCode
  refine .bind (Q := fun found t => found = s ∧ t = s) (.get fun _ h => ⟨h, h⟩)
    fun found => .given ?_
  rintro rfl
  cases hget : found.graph.chunks.get? (tileSlot coord).chunk with
  | none => exact .fails fun _ h => h
  | some chunk =>
      refine .zoom (chunk.meets_setTileCode coord (tileSlot coord).offset code)
        (fun _ _ => rfl) ?_ ?_
      · intro t _ next ht hreplaces
        subst ht
        exact .of_replaces hget hreplaces
      · intro t _ next ht hnext
        subst ht hnext
        exact putChunk_self hget

end WorldSnapshot

/-! ## The spatial index -/

/-- What the index says of a tile code. -/
def propertiesOf (code : U 32) : TileProperties := .fromTileType (.fromTileCode code)

namespace SpatialChunkNode

theorem fillRun_apply (props : TileProperties) (idx count : Nat) (tiles : Tiles) (cell : Fin 256) :
    fillRun props idx count tiles cell =
      if idx ≤ cell.val ∧ cell.val < idx + count then props else tiles cell := by
  induction count with
  | zero => exact (if_neg (by omega)).symm
  | succ count ih =>
      rw [fillRun, List.range_succ, List.foldl_append]
      show (if cell.val = idx + count then props else fillRun props idx count tiles cell) = _
      rw [ih]
      by_cases hlast : cell.val = idx + count
      · rw [if_pos hlast, if_pos (by omega)]
      · rw [if_neg hlast]
        exact if_congr (by omega) rfl rfl

/-- Tiles already filled stay as they are. -/
theorem fillTiles_below (runs : List TerrainRun) (idx : Nat) (tiles : Tiles) (cell : Fin 256)
    (hidx : cell.val < idx) : fillTiles runs idx tiles cell = tiles cell := by
  induction runs generalizing idx tiles with
  | nil => rfl
  | cons run runs ih =>
      have hfilled : ∀ props count, fillRun props idx count tiles cell = tiles cell :=
        fun props count => by rw [fillRun_apply, if_neg (by omega)]
      rw [fillTiles]
      by_cases hfull : idx + min run.length.val (256 - idx) ≥ 256
      · rw [if_pos hfull, hfilled]
      · rw [if_neg hfull, ih _ _ (by omega), hfilled]

/-- The loop over the runs gives every tile the properties of its code, as far as the codes go. -/
theorem fillTiles_eq (runs : List TerrainRun) (idx : Nat) (tiles : Tiles) (cell : Fin 256)
    (hidx : idx ≤ cell.val) :
    fillTiles runs idx tiles cell =
      (((expandRuns runs)[cell.val - idx]?).map propertiesOf).getD (tiles cell) := by
  induction runs generalizing idx tiles with
  | nil => rfl
  | cons run runs ih =>
      have hcell := cell.isLt
      rw [fillTiles, expandRuns_cons]
      by_cases hhere : cell.val < idx + run.length.val
      · have hfilled : fillRun (propertiesOf run.tileCode) idx (min run.length.val (256 - idx))
            tiles cell = propertiesOf run.tileCode := by
          rw [fillRun_apply, if_pos (by omega)]
        rw [List.getElem?_append_left (by rw [List.length_replicate]; omega),
          List.getElem?_replicate_of_lt (by omega)]
        by_cases hfull : idx + min run.length.val (256 - idx) ≥ 256
        · rw [if_pos hfull]
          exact hfilled
        · rw [if_neg hfull, fillTiles_below _ _ _ _ (by omega)]
          exact hfilled
      · have hcount : min run.length.val (256 - idx) = run.length.val := by omega
        have hshift : cell.val - idx - run.length.val = cell.val - (idx + run.length.val) := by
          omega
        rw [hcount, if_neg (by omega), ih _ _ (by omega), fillRun_apply, if_neg (by omega),
          List.getElem?_append_right (by rw [List.length_replicate]; omega), List.length_replicate,
          hshift]

/-- A node holds the properties of every code of its chunk, all observed. -/
theorem fromMapChunk_ok {chunk : MapChunk} {node : SpatialChunkNode}
    (h : fromMapChunk chunk = .ok node) :
    chunkIsCanonical chunk = true ∧ (∀ code ∈ expandRuns chunk.terrainRuns,
      code ≠ TileCodes.unknown) ∧
      ∀ cell, ((expandRuns chunk.terrainRuns)[cell.val]?).map propertiesOf =
        some (node.tiles cell) := by
  rw [fromMapChunk] at h
  by_cases hbad : chunk.width ≠ 16 ∨ chunk.height ≠ 16 ∨ chunk.encodedTileCount ≠ some 256 ∨
      (chunk.sparseOverlays.keys.any fun offset => offset ≥ 256) ∨
      (chunk.terrainRuns.any fun run => run.tileCode = TileCodes.unknown)
  · rw [if_pos hbad] at h
    cases h
  rw [if_neg hbad] at h
  simp only [not_or, not_not] at hbad
  obtain ⟨hwidth, hheight, hcount, _, hknown⟩ := hbad
  have hlength : (expandRuns chunk.terrainRuns).length = 256 :=
    (encodedTileCount_iff _ _).1 hcount
  have hnode := Except.ok.inj h
  refine ⟨(chunkIsCanonical_iff _).2 ⟨by rw [hwidth]; rfl, by rw [hheight]; rfl, hlength⟩, ?_, ?_⟩
  · intro code hcode hunknown
    obtain ⟨run, hrun, hin⟩ := List.mem_flatMap.1 hcode
    apply hknown
    exact List.any_eq_true.2
      ⟨run, hrun, decide_eq_true ((List.eq_of_mem_replicate hin).symm.trans hunknown)⟩
  · intro cell
    have hcell : cell.val < (expandRuns chunk.terrainRuns).length := by
      rw [hlength]
      exact cell.isLt
    rw [← hnode]
    dsimp only
    rw [fillTiles_eq _ _ _ _ (Nat.zero_le _), Nat.sub_zero, List.getElem?_eq_getElem hcell]
    rfl

/-- The index finds a tile at the offset of its slot. -/
theorem getTile_slot (node : SpatialChunkNode) (coord : MapCoord) :
    node.getTile (U.wrap (coord.x.val % 16).toNat) (U.wrap (coord.y.val % 16).toNat) =
      some (node.tiles ⟨(tileSlot coord).offset.val, tileSlot_offset_lt coord⟩) := by
  have hval := tileSlot_offset_val coord
  have hx : (U.wrap (coord.x.val % 16).toNat : U 8).val = (coord.x.val % 16).toNat :=
    U.wrap_val (by omega)
  have hy : (U.wrap (coord.y.val % 16).toNat : U 8).val = (coord.y.val % 16).toNat :=
    U.wrap_val (by omega)
  rw [getTile, dif_pos (by rw [hx, hy]; omega), Option.some_inj]
  congr 1
  rw [Fin.mk.injEq, hx, hy]
  omega

end SpatialChunkNode

namespace ChunkSpatialIndex

/-- Every node of the index was made from a chunk of the graph, under the same key. -/
def Of (index : ChunkSpatialIndex) (chunks : BTreeMap ChunkCoord MapChunk) : Prop :=
  ∀ key node, index.chunks.get? key = some node →
    ∃ chunk, chunks.get? key = some chunk ∧ SpatialChunkNode.fromMapChunk chunk = .ok node

theorem insertOrUpdateChunk_ok {index next : ChunkSpatialIndex} {chunk : MapChunk}
    (h : index.insertOrUpdateChunk chunk = .ok next) :
    ∃ node, SpatialChunkNode.fromMapChunk chunk = .ok node ∧
      next.chunks = index.chunks.insert chunk.coord node := by
  obtain ⟨node, hnode, hnext⟩ := bind_ok_iff.1 h
  exact ⟨node, hnode, congrArg ChunkSpatialIndex.chunks (Except.ok.inj hnext).symm⟩

/-- Indexing chunks of a graph filed under their own coordinates keeps an index of that graph one,
and gives each of them a node. -/
theorem foldlM_ok (chunks : BTreeMap ChunkCoord MapChunk) (listed : List MapChunk)
    (hfiled : ∀ chunk ∈ listed, chunks.get? chunk.coord = some chunk)
    {index next : ChunkSpatialIndex} (hindex : index.Of chunks)
    (h : listed.foldlM insertOrUpdateChunk index = .ok next) :
    next.Of chunks ∧ ∀ key, (index.chunks.get? key ≠ none ∨ ∃ chunk ∈ listed, chunk.coord = key) →
      next.chunks.get? key ≠ none := by
  induction listed generalizing index with
  | nil =>
      obtain rfl := Except.ok.inj h
      exact ⟨hindex, fun key hkey => hkey.elim id fun ⟨_, hnil, _⟩ => absurd hnil List.not_mem_nil⟩
  | cons chunk listed ih =>
      rw [List.foldlM_cons] at h
      obtain ⟨middle, hstep, hrest⟩ := bind_ok_iff.1 h
      obtain ⟨node, hnode, hmiddle⟩ := insertOrUpdateChunk_ok hstep
      have hof : middle.Of chunks := by
        intro key found hfound
        rw [hmiddle, OMap.get?_insert] at hfound
        by_cases hkey : key = chunk.coord
        · rw [if_pos hkey, Option.some_inj] at hfound
          rw [hkey, ← hfound]
          exact ⟨chunk, hfiled chunk List.mem_cons_self, hnode⟩
        · rw [if_neg hkey] at hfound
          exact hindex key found hfound
      obtain ⟨hnext, hkept⟩ := ih (fun c hc => hfiled c (List.mem_cons_of_mem _ hc)) hof hrest
      refine ⟨hnext, fun key hkey => hkept key ?_⟩
      rw [hmiddle, OMap.get?_insert]
      by_cases hhere : key = chunk.coord
      · rw [if_pos hhere]
        exact .inl (Option.some_ne_none node)
      · rw [if_neg hhere]
        rcases hkey with hkey | ⟨other, hother, hkey⟩
        · exact .inl hkey
        · rcases List.mem_cons.1 hother with rfl | hother
          · exact absurd hkey.symm hhere
          · exact .inr ⟨other, hother, hkey⟩

/-- The properties an index built from a snapshot gives are those of the codes read there. -/
theorem getTile_eq {s : WorldSnapshot} {index : ChunkSpatialIndex}
    (hfiled : ∀ key chunk, s.graph.chunks.get? key = some chunk → chunk.coord = key)
    (h : spatialIndex s = .ok index) (coord : MapCoord) :
    index.getTile coord = (s.tileCodeAt coord).map propertiesOf := by
  obtain ⟨hof, hall⟩ := foldlM_ok s.graph.chunks s.graph.chunks.values
    (fun chunk hchunk => by
      obtain ⟨key, hkey⟩ := (OMap.mem_values_iff _ _).1 hchunk
      rwa [hfiled key chunk hkey]) (fun key node hnone => by cases hnone) h
  rw [getTile, WorldSnapshot.tileCodeAt]
  show (index.chunks.get? (tileSlot coord).chunk).bind _ = _
  cases hchunk : s.graph.chunks.get? (tileSlot coord).chunk with
  | none =>
      cases hnode : index.chunks.get? (tileSlot coord).chunk with
      | none => rfl
      | some node =>
          obtain ⟨chunk, hsome, _⟩ := hof _ _ hnode
          rw [hchunk] at hsome
          cases hsome
  | some chunk =>
      cases hnode : index.chunks.get? (tileSlot coord).chunk with
      | none =>
          refine absurd hnode (hall _ (.inr ⟨chunk, ?_, hfiled _ _ hchunk⟩))
          exact (OMap.mem_values_iff _ _).2 ⟨_, hchunk⟩
      | some node =>
          obtain ⟨other, hsome, hother⟩ := hof _ _ hnode
          rw [hchunk, Option.some_inj] at hsome
          subst hsome
          obtain ⟨hcanonical, hknown, htiles⟩ := SpatialChunkNode.fromMapChunk_ok hother
          obtain ⟨code, hcode, htile⟩ :=
            Option.map_eq_some_iff.1 (htiles ⟨_, tileSlot_offset_lt coord⟩)
          have hread : (codeInChunk chunk (tileSlot coord).offset).filter
              (· ≠ TileCodes.unknown) = some code := by
            rw [codeInChunk_eq hcanonical, Option.filter_eq_some_iff]
            exact ⟨hcode, decide_eq_true (hknown code (List.mem_of_getElem? hcode))⟩
          rw [Option.bind_some, Option.bind_some, hread, SpatialChunkNode.getTile_slot, ← htile]
          rfl

end ChunkSpatialIndex

/-- **Writes of tiles are exact, and the spatial index reads what the terrain reads.** A write that
succeeds changes what is read at its coordinate alone and leaves a canonical chunk; one that fails
changes nothing. Where every chunk is filed under its own coordinate, an index built from the
snapshot has the properties of the code at every coordinate, and nothing where there is no code. -/
theorem terrain_writes_exact (s : WorldSnapshot) :
    (∀ coord code, Meets (· = s) (WorldSnapshot.setTileCode coord code)
      (fun _ t => s.WritesTile coord code t) (fun _ t => t = s)) ∧
    ((∀ key chunk, s.graph.chunks.get? key = some chunk → chunk.coord = key) →
      ∀ index, spatialIndex s = .ok index →
        ∀ coord, index.getTile coord = (s.tileCodeAt coord).map propertiesOf) :=
  ⟨s.meets_setTileCode, fun hfiled _ h coord => ChunkSpatialIndex.getTile_eq hfiled h coord⟩

namespace Quarry

/-- West of the origin, five levels up. -/
def west : MapCoord := ⟨⟨-1, by decide⟩, ⟨0, S.fits_zero⟩, ⟨5, S.fits_five⟩⟩

/-- The chunk of that tile, all floor. -/
def floor : MapChunk := uniformChunk (tileSlot west).chunk TileCodes.floor

/-- The chunk under its own coordinate. -/
def filed : WorldSnapshot := Sample.snapshot 1 (Sample.terrain floor)

/-- A chunk of another coordinate under the key of that one. -/
def misfiled : WorldSnapshot := Sample.snapshot 1 { WorldGraph.empty with
  chunks := .ofList [((tileSlot west).chunk, { floor with coord := ⟨west.y, west.y, west.y⟩ })] }

theorem isOk_spatialIndex : (spatialIndex filed).isOk = true := by decide

theorem tileCodeAt_west : filed.tileCodeAt west = some TileCodes.floor := by decide

end Quarry

open Quarry in
/-- A write at a negative coordinate, and the index of the snapshot before it. -/
theorem terrain_writes_exact_west :
    filed.WritesTile west TileCodes.stair
      (exec (WorldSnapshot.setTileCode west TileCodes.stair) filed).2 ∧
    ∃ index, spatialIndex filed = .ok index ∧
      index.getTile west = some (propertiesOf TileCodes.floor) := by
  have hwrite : (exec (WorldSnapshot.setTileCode west TileCodes.stair) filed).1 = .ok true := by
    decide
  obtain ⟨index, hindex⟩ := (isOk_iff _).1 isOk_spatialIndex
  obtain ⟨hwrites, hreads⟩ := terrain_writes_exact filed
  refine ⟨(hwrites west TileCodes.stair).ok rfl (Prod.ext hwrite rfl), index, hindex, ?_⟩
  rw [hreads ?_ index hindex west, tileCodeAt_west]
  · rfl
  · exact fun key chunk hget => (OMap.forall_get?_iff filed.graph.chunks
      (p := fun key chunk => chunk.coord = key)).2 (by decide) key chunk hget

open Quarry in
/-- Writing the code of tiles that were not observed succeeds and reads as nothing, and a chunk
filed under another coordinate is read at one coordinate and indexed at the other. -/
theorem terrain_writes_unknown :
    (∃ t, exec (WorldSnapshot.setTileCode west TileCodes.unknown) filed = (.ok true, t) ∧
      t.tileCodeAt west = none) ∧
    ∃ index, spatialIndex misfiled = .ok index ∧ index.getTile west = none ∧
      misfiled.tileCodeAt west = some TileCodes.floor := by
  have hwrite : (exec (WorldSnapshot.setTileCode west TileCodes.unknown) filed).1 = .ok true := by
    decide
  have hok : (spatialIndex misfiled).isOk = true := by decide
  obtain ⟨index, hindex⟩ := (isOk_iff _).1 hok
  have hmissing : (spatialIndex misfiled).toOption.bind (·.getTile west) = none := by
    decide
  rw [hindex] at hmissing
  refine ⟨⟨_, Prod.ext hwrite rfl, ?_⟩, index, hindex, hmissing, by decide⟩
  exact ((WorldSnapshot.meets_setTileCode filed west TileCodes.unknown).ok rfl
    (Prod.ext hwrite rfl)).written

end Dfmcp
