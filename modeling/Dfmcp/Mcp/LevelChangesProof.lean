import Dfmcp.Mcp.WorldChangesProof

/-!
# What changed on a level

The comparison of terrain is a fold over notes: a tile that differs, or a chunk that cannot be compared
by tiles. What is kept of a level is what its own notes make of it (`get?_notes`), so that on a level
whose chunks are all canonical the number of tiles, the box and the transitions are those of a list of
its differing tiles (`tiled_level`).

* `levelChanges_some_iff` — the comparison fails only where a coordinate overflows;
* `contains_level_iff` — a level is kept when one of its chunks shows a difference;
* `tiled_level` — the comparison of a canonical level is that of its tiles.
-/

namespace Dfmcp

open Machine

namespace WorldChanges

/-! ## Folds that may fail -/

section Folds

variable {σ β : Type}

theorem foldlM_of_steps {step : σ → β → Option σ} {next : σ → β → σ} {l : List β}
    (h : ∀ b ∈ l, ∀ s, step s b = some (next s b)) (s : σ) :
    l.foldlM step s = some (l.foldl next s) := by
  induction l generalizing s with
  | nil => rfl
  | cons b l ih =>
      rw [List.foldlM_cons, h b List.mem_cons_self, List.foldl_cons]
      exact ih (fun b' hb' => h b' (List.mem_cons_of_mem b hb')) (next s b)

theorem step_of_foldlM {step : σ → β → Option σ} {l : List β} {s s' : σ}
    (h : l.foldlM step s = some s') : ∀ b ∈ l, ∃ s₁ s₂, step s₁ b = some s₂ := by
  induction l generalizing s with
  | nil => exact fun b hb => absurd hb List.not_mem_nil
  | cons b l ih =>
      rw [List.foldlM_cons, Option.bind_eq_bind, Option.bind_eq_some_iff] at h
      obtain ⟨mid, hmid, hrest⟩ := h
      intro b' hb'
      rcases List.mem_cons.1 hb' with rfl | hb'
      · exact ⟨s, mid, hmid⟩
      · exact ih hrest b' hb'

end Folds

/-! ## Notes -/

/-- What the comparison of two chunks finds. -/
inductive Note where
  | tile (p : MapCoord) (a b : U 32)
  | lost (z : S 32)

namespace Note

def z : Note → S 32
  | tile p _ _ => p.z
  | lost z => z

/-- What a note makes of its level. -/
def apply (level : LevelChange) : Note → LevelChange
  | tile p a b => level.note p.x p.y (transition a b)
  | lost _ => level.lose

end Note

/-- What a note makes of the levels. -/
def record (levels : Levels) (note : Note) : Levels := atLevel levels note.z fun level => note.apply level

/-- The place of an offset of a chunk, where it is one. -/
def place (coord : ChunkCoord) (offset : Nat) : MapCoord where
  x := (coordinate? coord.x (offset % terrainChunkEdge)).getD coord.x
  y := (coordinate? coord.y (offset / terrainChunkEdge)).getD coord.y
  z := coord.z

def tileNotes (coord : ChunkCoord) (old new : List (U 32)) : List Note :=
  ((old.zip new).zipIdx.filter fun e => e.1.1 ≠ e.1.2).map fun e => .tile (place coord e.2) e.1.1 e.1.2

def chunkNotes (base target : WorldSnapshot) (coord : ChunkCoord) : List Note :=
  if base.graph.chunks.get? coord = target.graph.chunks.get? coord then []
  else match expand (base.graph.chunks.get? coord), expand (target.graph.chunks.get? coord) with
    | some old, some new => tileNotes coord old new
    | _, _ => [.lost coord.z]

def notes (base target : WorldSnapshot) : List Note :=
  (bothKeys base.graph.chunks target.graph.chunks).flatMap (chunkNotes base target)

/-- The codes at an offset of a differing chunk, where both sides can be compared and differ. -/
def TileDiffers (base target : WorldSnapshot) (coord : ChunkCoord) (offset : Nat) (a b : U 32) :
    Prop :=
  ∃ old new, expand (base.graph.chunks.get? coord) = some old ∧
    expand (target.graph.chunks.get? coord) = some new ∧
    (old[offset]? = some a ∧ new[offset]? = some b) ∧ a ≠ b

/-- No coordinate of a tile to be reported overflows. -/
def Fits (base target : WorldSnapshot) : Prop :=
  ∀ coord, chunkDiffers base target coord → ∀ offset a b, TileDiffers base target coord offset a b →
    (coordinate? coord.x (offset % terrainChunkEdge)).isSome = true ∧
      (coordinate? coord.y (offset / terrainChunkEdge)).isSome = true

/-- A chunk that differs is reported: it cannot be compared, or a tile of it differs. -/
def Shows (base target : WorldSnapshot) (coord : ChunkCoord) : Prop :=
  chunkDiffers base target coord ∧ (expand (base.graph.chunks.get? coord) = none ∨
    expand (target.graph.chunks.get? coord) = none ∨
      ∃ offset a b, TileDiffers base target coord offset a b)

theorem mem_zip_zipIdx {old new : List (U 32)} {a b : U 32} {offset : Nat} :
    ((a, b), offset) ∈ (old.zip new).zipIdx ↔ old[offset]? = some a ∧ new[offset]? = some b := by
  rw [List.mem_zipIdx_iff_getElem?, List.getElem?_zip_eq_some]

theorem mem_tileNotes {coord : ChunkCoord} {old new : List (U 32)} {note : Note} :
    note ∈ tileNotes coord old new ↔ ∃ offset a b,
      ((old[offset]? = some a ∧ new[offset]? = some b) ∧ a ≠ b) ∧
        note = .tile (place coord offset) a b := by
  rw [tileNotes, List.mem_map]
  constructor
  · rintro ⟨⟨⟨a, b⟩, offset⟩, hmem, rfl⟩
    obtain ⟨hcodes, hne⟩ := List.mem_filter.1 hmem
    exact ⟨offset, a, b, ⟨mem_zip_zipIdx.1 hcodes, by simpa using hne⟩, rfl⟩
  · rintro ⟨offset, a, b, ⟨hcodes, hne⟩, rfl⟩
    exact ⟨((a, b), offset), List.mem_filter.2 ⟨mem_zip_zipIdx.2 hcodes, by simpa using hne⟩, rfl⟩

/-- The notes of a chunk that differs. -/
theorem mem_chunkNotes {base target : WorldSnapshot} {coord : ChunkCoord} {note : Note} :
    note ∈ chunkNotes base target coord ↔ chunkDiffers base target coord ∧
      ((∃ offset a b, TileDiffers base target coord offset a b ∧
          note = .tile (place coord offset) a b) ∨
        ((expand (base.graph.chunks.get? coord) = none ∨
          expand (target.graph.chunks.get? coord) = none) ∧ note = .lost coord.z)) := by
  unfold chunkNotes chunkDiffers TileDiffers
  by_cases hsame : base.graph.chunks.get? coord = target.graph.chunks.get? coord
  · rw [if_pos hsame]
    exact iff_of_false List.not_mem_nil fun h => h.1 hsame
  · rw [if_neg hsame]
    cases hold : expand (base.graph.chunks.get? coord) with
    | none => simp [hsame]
    | some old =>
        cases hnew : expand (target.graph.chunks.get? coord) with
        | none => simp [hsame]
        | some new =>
            simp only [mem_tileNotes, Option.some.injEq, reduceCtorEq, or_self, false_and, or_false]
            constructor
            · rintro ⟨offset, a, b, h, hnote⟩
              exact ⟨hsame, offset, a, b, ⟨old, new, rfl, rfl, h⟩, hnote⟩
            · rintro ⟨_, offset, a, b, ⟨old', new', rfl, rfl, h⟩, hnote⟩
              exact ⟨offset, a, b, h, hnote⟩

theorem mem_notes {base target : WorldSnapshot} {note : Note} :
    note ∈ notes base target ↔ ∃ coord, note ∈ chunkNotes base target coord := by
  rw [notes, List.mem_flatMap]
  constructor
  · rintro ⟨coord, _, hmem⟩
    exact ⟨coord, hmem⟩
  · rintro ⟨coord, hmem⟩
    exact ⟨coord, mem_bothKeys_of_ne (mem_chunkNotes.1 hmem).1, hmem⟩

/-! ## The comparison is a fold over the notes -/

theorem compareTile_some_iff {coord : ChunkCoord} {levels : Levels} {entry : (U 32 × U 32) × Nat}
    (hne : entry.1.1 ≠ entry.1.2) :
    (∃ next, compareTile coord levels entry = some next) ↔
      (coordinate? coord.x (entry.2 % terrainChunkEdge)).isSome = true ∧
        (coordinate? coord.y (entry.2 / terrainChunkEdge)).isSome = true := by
  unfold compareTile
  rw [if_neg hne]
  cases coordinate? coord.x (entry.2 % terrainChunkEdge) with
  | none => simp
  | some x =>
      cases coordinate? coord.y (entry.2 / terrainChunkEdge) with
      | none => simp
      | some y => simp

/-- The comparison of two chunks records its notes. -/
theorem compareChunk_eq {base target : WorldSnapshot} (hfits : Fits base target)
    (levels : Levels) (coord : ChunkCoord) :
    compareChunk base target levels coord =
      some ((chunkNotes base target coord).foldl record levels) := by
  unfold compareChunk chunkNotes
  by_cases hsame : base.graph.chunks.get? coord = target.graph.chunks.get? coord
  · rw [if_pos hsame, if_pos hsame]
    rfl
  · rw [if_neg hsame, if_neg hsame]
    cases hold : expand (base.graph.chunks.get? coord) with
    | none => rfl
    | some old =>
        cases hnew : expand (target.graph.chunks.get? coord) with
        | none => rfl
        | some new =>
            have hsteps : ∀ e ∈ (old.zip new).zipIdx, ∀ s, compareTile coord s e =
                some (if e.1.1 ≠ e.1.2 then
                  record s (.tile (place coord e.2) e.1.1 e.1.2) else s) := by
              rintro ⟨⟨a, b⟩, offset⟩ hmem s
              by_cases hab : a = b
              · rw [compareTile, if_pos hab, if_neg (not_not.2 hab)]
              · obtain ⟨hx, hy⟩ := hfits coord hsame offset a b
                  ⟨old, new, hold, hnew, mem_zip_zipIdx.1 hmem, hab⟩
                obtain ⟨x, hx⟩ := Option.isSome_iff_exists.1 hx
                obtain ⟨y, hy⟩ := Option.isSome_iff_exists.1 hy
                rw [compareTile, if_neg hab, if_pos hab]
                simp only [hx, hy, Option.bind_eq_bind, Option.bind_some, record, Note.z, place,
                  Option.getD_some, Note.apply]
                rfl
            simp only
            rw [foldlM_of_steps hsteps, tileNotes, List.foldl_map, List.foldl_filter]
            simp only [decide_eq_true_eq]

theorem levelChanges_eq {base target : WorldSnapshot} (hfits : Fits base target) :
    levelChanges base target = some ((notes base target).foldl record .nil) := by
  rw [levelChanges, foldlM_of_steps fun coord _ s => compareChunk_eq hfits s coord, notes,
    List.foldl_flatMap]

/-- **The comparison fails only where a coordinate overflows.** -/
theorem levelChanges_some_iff {base target : WorldSnapshot} :
    (∃ levels, levelChanges base target = some levels) ↔ Fits base target := by
  constructor
  · rintro ⟨levels, h⟩ coord hdiffers offset a b ⟨old, new, hold, hnew, hcodes, hab⟩
    obtain ⟨s₁, s₂, hstep⟩ := step_of_foldlM h coord (mem_bothKeys_of_ne hdiffers)
    unfold compareChunk at hstep
    rw [if_neg hdiffers, hold, hnew] at hstep
    obtain ⟨t₁, t₂, htile⟩ := step_of_foldlM hstep ((a, b), offset) (mem_zip_zipIdx.2 hcodes)
    exact (compareTile_some_iff hab).1 ⟨t₂, htile⟩
  · exact fun hfits => ⟨_, levelChanges_eq hfits⟩

/-! ## What is kept of a level -/

/-- **What is kept of a level is what its own notes make of it.** -/
theorem get?_notes (ns : List Note) (levels : Levels) (z : S 32) :
    (ns.foldl record levels).get? z =
      if ∃ note ∈ ns, note.z = z then
        some ((ns.filter fun note => note.z = z).foldl Note.apply ((levels.get? z).getD .default))
      else levels.get? z := by
  induction ns generalizing levels with
  | nil => rfl
  | cons note ns ih =>
      have hnext : (record levels note).get? z = if note.z = z then
          some (note.apply ((levels.get? note.z).getD .default)) else levels.get? z := by
        rw [record, atLevel, OMap.get?_insert]
        exact if_congr eq_comm rfl rfl
      rw [List.foldl_cons, ih, hnext]
      by_cases hz : note.z = z
      · subst hz
        have hhead : ∃ other ∈ note :: ns, other.z = note.z := ⟨note, List.mem_cons_self, rfl⟩
        have hkept : ((note :: ns).filter fun other => other.z = note.z) =
            note :: ns.filter fun other => other.z = note.z :=
          List.filter_cons_of_pos (decide_eq_true rfl)
        rw [if_pos rfl, if_pos hhead, hkept, List.foldl_cons, Option.getD_some]
        by_cases hmore : ∃ other ∈ ns, other.z = note.z
        · rw [if_pos hmore]
        · have hnone : (ns.filter fun other => other.z = note.z) = [] :=
            List.filter_eq_nil_iff.2 fun other hmem h => hmore ⟨other, hmem, of_decide_eq_true h⟩
          rw [if_neg hmore, hnone, List.foldl_nil]
      · have hiff : (∃ other ∈ note :: ns, other.z = z) ↔ ∃ other ∈ ns, other.z = z := by
          simp [hz]
        rw [if_neg hz, List.filter_cons_of_neg (by simpa using hz)]
        exact if_congr hiff.symm rfl rfl

/-- **A level is kept when one of its chunks shows a difference.** -/
theorem contains_level_iff {base target : WorldSnapshot} {levels : Levels}
    (h : levelChanges base target = some levels) (z : S 32) :
    levels.contains z = true ↔ ∃ coord, coord.z = z ∧ Shows base target coord := by
  have hlevels := Option.some.inj (h.symm.trans (levelChanges_eq (levelChanges_some_iff.1 ⟨_, h⟩)))
  have hsome : levels.contains z = true ↔ ∃ note ∈ notes base target, note.z = z := by
    rw [OMap.contains, hlevels, get?_notes]
    by_cases hnote : ∃ note ∈ notes base target, note.z = z
    · rw [if_pos hnote]
      exact iff_of_true rfl hnote
    · rw [if_neg hnote]
      exact iff_of_false Bool.false_ne_true hnote
  rw [hsome]
  constructor
  · rintro ⟨note, hmem, hz⟩
    obtain ⟨coord, hmem⟩ := mem_notes.1 hmem
    obtain ⟨hdiffers, ⟨offset, a, b, htile, rfl⟩ | ⟨hlost, rfl⟩⟩ := mem_chunkNotes.1 hmem
    · exact ⟨coord, hz, hdiffers, .inr (.inr ⟨offset, a, b, htile⟩)⟩
    · exact ⟨coord, hz, hdiffers, hlost.imp_right .inl⟩
  · rintro ⟨coord, hz, hdiffers, hshows⟩
    rcases or_assoc.2 hshows with hlost | ⟨offset, a, b, htile⟩
    · exact ⟨.lost coord.z, mem_notes.2 ⟨coord, mem_chunkNotes.2 ⟨hdiffers, .inr ⟨hlost, rfl⟩⟩⟩, hz⟩
    · exact ⟨.tile (place coord offset) a b, mem_notes.2 ⟨coord, mem_chunkNotes.2
        ⟨hdiffers, .inl ⟨offset, a, b, htile, rfl⟩⟩⟩, hz⟩

/-! ## What a list of tiles makes of a level -/

/-- A tile, and its codes on both sides. -/
abbrev Difference := MapCoord × U 32 × U 32

def Difference.key (d : Difference) : String := transition d.2.1 d.2.2

/-- A level as a list of differing tiles gives it: their number, the smallest box around them, and how
often each transition occurs. -/
structure LevelChange.Of (level : LevelChange) (found : List Difference) : Prop where
  tiles : level.tiles = found.length
  low_le : ∀ d ∈ found, level.low.1 ≤ d.1.x ∧ level.low.2 ≤ d.1.y
  le_high : ∀ d ∈ found, d.1.x ≤ level.high.1 ∧ d.1.y ≤ level.high.2
  low_attained : found ≠ [] → (∃ d ∈ found, d.1.x = level.low.1) ∧ ∃ d ∈ found, d.1.y = level.low.2
  high_attained : found ≠ [] →
    (∃ d ∈ found, d.1.x = level.high.1) ∧ ∃ d ∈ found, d.1.y = level.high.2
  transitions : ∀ key, level.transitions.get? key =
    if found.countP (fun d => d.key = key) = 0 then none
    else some (found.countP fun d => d.key = key)

theorem LevelChange.of_nil : LevelChange.default.Of [] where
  tiles := rfl
  low_le := fun _ h => absurd h List.not_mem_nil
  le_high := fun _ h => absurd h List.not_mem_nil
  low_attained := fun h => absurd rfl h
  high_attained := fun h => absurd rfl h
  transitions := fun _ => rfl

/-- A running minimum or maximum is one of the two. -/
theorem attained_append {found : List Difference} {d : Difference} {f : Difference → S 32}
    {best : S 32} {pick : S 32 → S 32 → S 32} (hpick : ∀ a b, pick a b = a ∨ pick a b = b)
    (h : ∃ e ∈ found, f e = best) : ∃ e ∈ found ++ [d], f e = pick best (f d) := by
  rcases hpick best (f d) with hbest | hnew
  · obtain ⟨e, hmem, he⟩ := h
    exact ⟨e, List.mem_append_left _ hmem, he.trans hbest.symm⟩
  · exact ⟨d, List.mem_append_right _ List.mem_cons_self, hnew.symm⟩

/-- One more tile noted. -/
theorem LevelChange.Of.note {level : LevelChange} {found : List Difference} (h : level.Of found)
    (d : Difference) : (level.note d.1.x d.1.y d.key).Of (found ++ [d]) := by
  have hcount : ∀ key, (found ++ [d]).countP (fun e => e.key = key) =
      found.countP (fun e => e.key = key) + if d.key = key then 1 else 0 := by
    intro key
    rw [List.countP_append, List.countP_singleton]
    simp only [decide_eq_true_eq]
  have htransitions : ∀ key, (level.note d.1.x d.1.y d.key).transitions.get? key =
      if (found ++ [d]).countP (fun e => e.key = key) = 0 then none
      else some ((found ++ [d]).countP fun e => e.key = key) := by
    intro key
    rw [hcount]
    show (level.transitions.insert d.key ((level.transitions.get? d.key).getD 0 + 1)).get? key = _
    rw [OMap.get?_insert]
    by_cases hkey : d.key = key
    · subst hkey
      rw [if_pos rfl, if_pos rfl, if_neg (Nat.succ_ne_zero _), h.transitions]
      by_cases hzero : found.countP (fun e => e.key = d.key) = 0
      · rw [if_pos hzero, hzero]
        rfl
      · rw [if_neg hzero]
        rfl
    · rw [if_neg (Ne.symm hkey), if_neg hkey, Nat.add_zero]
      exact h.transitions key
  by_cases hempty : found = []
  · subst hempty
    have hfirst : level.tiles = 0 := h.tiles
    have hlow : (level.note d.1.x d.1.y d.key).low = (d.1.x, d.1.y) := if_pos hfirst
    have hhigh : (level.note d.1.x d.1.y d.key).high = (d.1.x, d.1.y) := if_pos hfirst
    refine ⟨?_, ?_, ?_, ?_, ?_, htransitions⟩
    · show level.tiles + 1 = _
      rw [hfirst]
      rfl
    · intro e he
      rw [List.mem_singleton.1 he, hlow]
      exact ⟨le_rfl, le_rfl⟩
    · intro e he
      rw [List.mem_singleton.1 he, hhigh]
      exact ⟨le_rfl, le_rfl⟩
    · intro _
      rw [hlow]
      exact ⟨⟨d, List.mem_singleton_self d, rfl⟩, d, List.mem_singleton_self d, rfl⟩
    · intro _
      rw [hhigh]
      exact ⟨⟨d, List.mem_singleton_self d, rfl⟩, d, List.mem_singleton_self d, rfl⟩
  · have hmore : level.tiles ≠ 0 := by
      rw [h.tiles]
      exact fun hzero => hempty (List.length_eq_zero_iff.1 hzero)
    have hlow : (level.note d.1.x d.1.y d.key).low =
        (min level.low.1 d.1.x, min level.low.2 d.1.y) := if_neg hmore
    have hhigh : (level.note d.1.x d.1.y d.key).high =
        (max level.high.1 d.1.x, max level.high.2 d.1.y) := if_neg hmore
    refine ⟨?_, ?_, ?_, ?_, ?_, htransitions⟩
    · show level.tiles + 1 = _
      rw [h.tiles, List.length_append, List.length_singleton]
    · intro e he
      rw [hlow]
      rcases List.mem_append.1 he with he | he
      · exact ⟨(min_le_left _ _).trans (h.low_le e he).1, (min_le_left _ _).trans (h.low_le e he).2⟩
      · rw [List.mem_singleton.1 he]
        exact ⟨min_le_right _ _, min_le_right _ _⟩
    · intro e he
      rw [hhigh]
      rcases List.mem_append.1 he with he | he
      · exact ⟨(h.le_high e he).1.trans (le_max_left _ _), (h.le_high e he).2.trans (le_max_left _ _)⟩
      · rw [List.mem_singleton.1 he]
        exact ⟨le_max_right _ _, le_max_right _ _⟩
    · intro _
      obtain ⟨hx, hy⟩ := h.low_attained hempty
      rw [hlow]
      exact ⟨attained_append min_choice hx, attained_append min_choice hy⟩
    · intro _
      obtain ⟨hx, hy⟩ := h.high_attained hempty
      rw [hhigh]
      exact ⟨attained_append max_choice hx, attained_append max_choice hy⟩

/-- The note of a tile. -/
def Difference.toNote (d : Difference) : Note := .tile d.1 d.2.1 d.2.2

theorem of_tiles (found : List Difference) :
    ((found.map Difference.toNote).foldl Note.apply .default).Of found := by
  induction found using List.reverseRecOn with
  | nil => exact LevelChange.of_nil
  | append_singleton found d ih =>
      rw [List.map_append, List.foldl_append]
      exact ih.note d

/-! ## The tiles of a canonical level -/

/-- The code of a tile of a canonical chunk, observed or not. -/
def codeAt (s : WorldSnapshot) (p : MapCoord) : Option (U 32) :=
  (s.graph.chunks.get? (tileSlot p).chunk).bind fun chunk => codeInChunk chunk (tileSlot p).offset

/-- The chunks at a coordinate are canonical on both sides. -/
def BothCanonical (base target : WorldSnapshot) (coord : ChunkCoord) : Prop :=
  (∃ chunk, base.graph.chunks.get? coord = some chunk ∧ chunkIsCanonical chunk = true) ∧
    ∃ chunk, target.graph.chunks.get? coord = some chunk ∧ chunkIsCanonical chunk = true

/-- Every chunk of a level that differs is canonical on both sides. -/
def CanonicalLevel (base target : WorldSnapshot) (z : S 32) : Prop :=
  ∀ coord, coord.z = z → chunkDiffers base target coord → BothCanonical base target coord

/-- A level is what the comparison of its tiles, one by one, makes of it. -/
def Tiled (base target : WorldSnapshot) (z : S 32) (level : LevelChange) : Prop :=
  ∃ found : List Difference, (found.map Prod.fst).Nodup ∧
    (∀ p a b, (p, a, b) ∈ found ↔
      p.z = z ∧ (codeAt base p = some a ∧ codeAt target p = some b) ∧ a ≠ b) ∧ level.Of found

theorem expand_of_canonical {chunk : MapChunk} (h : chunkIsCanonical chunk = true) :
    expand (some chunk) = some (expandRuns chunk.terrainRuns) := by
  obtain ⟨hwidth, hheight, hlength⟩ := (chunkIsCanonical_iff chunk).1 h
  rw [expand, if_pos ⟨by rw [hlength, hwidth, hheight], hwidth⟩]

/-- A tile of a canonical chunk reads as the chunk's codes say. -/
theorem codeAt_eq {s : WorldSnapshot} {p : MapCoord} {chunk : MapChunk}
    (hget : s.graph.chunks.get? (tileSlot p).chunk = some chunk)
    (h : chunkIsCanonical chunk = true) :
    codeAt s p = (expandRuns chunk.terrainRuns)[(tileSlot p).offset.val]? := by
  rw [codeAt, hget, Option.bind_some, codeInChunk_eq h]

/-- A tile that reads as a code is in a canonical chunk. -/
theorem canonical_of_codeAt {s : WorldSnapshot} {p : MapCoord} {a : U 32}
    (h : codeAt s p = some a) : ∃ chunk, s.graph.chunks.get? (tileSlot p).chunk = some chunk ∧
      chunkIsCanonical chunk = true := by
  obtain ⟨chunk, hget, hcode⟩ := Option.bind_eq_some_iff.1 h
  refine ⟨chunk, hget, ?_⟩
  by_contra hno
  rw [codeInChunk, Bool.not_eq_true] at *
  rw [hno, Bool.not_false, if_pos rfl] at hcode
  cases hcode

theorem coordinate?_val {c : S 32} {offset : Nat} {x : S 32} (h : coordinate? c offset = some x) :
    x.val = c.val * 16 + offset := by
  unfold coordinate? at h
  obtain ⟨first, hfirst, hx⟩ := Option.bind_eq_some_iff.1 h
  unfold S.ofInt? at hfirst hx
  split at hfirst
  · cases hfirst
    split at hx
    · cases hx
      rfl
    · cases hx
  · cases hfirst

/-- The coordinates of a place that do not overflow. -/
theorem place_val {coord : ChunkCoord} {offset : Nat}
    (hx : (coordinate? coord.x (offset % terrainChunkEdge)).isSome = true)
    (hy : (coordinate? coord.y (offset / terrainChunkEdge)).isSome = true) :
    (place coord offset).x.val = coord.x.val * 16 + (offset % 16 : Nat) ∧
      (place coord offset).y.val = coord.y.val * 16 + (offset / 16 : Nat) := by
  obtain ⟨x, hx⟩ := Option.isSome_iff_exists.1 hx
  obtain ⟨y, hy⟩ := Option.isSome_iff_exists.1 hy
  refine ⟨?_, ?_⟩
  · rw [place, hx]
    exact coordinate?_val hx
  · rw [place, hy]
    exact coordinate?_val hy

/-- A place in a canonical chunk has that chunk and that offset for its slot. -/
theorem tileSlot_place {coord : ChunkCoord} {offset : Nat}
    (hx : (coordinate? coord.x (offset % terrainChunkEdge)).isSome = true)
    (hy : (coordinate? coord.y (offset / terrainChunkEdge)).isSome = true) (hoffset : offset < 256) :
    (tileSlot (place coord offset)).chunk = coord ∧
      (tileSlot (place coord offset)).offset.val = offset := by
  obtain ⟨hxval, hyval⟩ := place_val hx hy
  have hchunkx : ((tileSlot (place coord offset)).chunk.x).val = (place coord offset).x.val / 16 := rfl
  have hchunky : ((tileSlot (place coord offset)).chunk.y).val = (place coord offset).y.val / 16 := rfl
  have hval := tileSlot_offset_val (place coord offset)
  refine ⟨?_, by omega⟩
  have hcx : (tileSlot (place coord offset)).chunk.x = coord.x := Subtype.ext (by omega)
  have hcy : (tileSlot (place coord offset)).chunk.y = coord.y := Subtype.ext (by omega)
  have hcz : (tileSlot (place coord offset)).chunk.z = coord.z := rfl
  cases hslot : (tileSlot (place coord offset)).chunk
  rw [hslot] at hcx hcy hcz
  cases coord
  subst hcx hcy hcz
  rfl

theorem coordinate?_slot (x : S 32) {offset : Nat} (hoffset : (offset : Int) = x.val % 16) :
    coordinate? (x.divEuclid terrainChunkEdge (by decide)) offset = some x := by
  have hx := x.property
  have hfirst : (S.ofInt? (x.val / 16 * 16) : Option (S 32)) =
      some ⟨x.val / 16 * 16, by omega, by omega⟩ := dif_pos ⟨by omega, by omega⟩
  show (S.ofInt? (x.val / 16 * 16) : Option (S 32)).bind (fun first => S.ofInt? (first.val + offset)) = _
  rw [hfirst, Option.bind_some]
  show (S.ofInt? (x.val / 16 * 16 + offset) : Option (S 32)) = _
  rw [show x.val / 16 * 16 + (offset : Int) = x.val by omega]
  exact S.ofInt?_val x

/-- Every tile is the place of its slot. -/
theorem place_slot (p : MapCoord) : place (tileSlot p).chunk (tileSlot p).offset.val = p := by
  have hval := tileSlot_offset_val p
  have hx := @coordinate?_slot p.x ((tileSlot p).offset.val % 16) (by omega)
  have hy := @coordinate?_slot p.y ((tileSlot p).offset.val / 16) (by omega)
  have hplace : place (tileSlot p).chunk (tileSlot p).offset.val =
      ⟨(coordinate? (p.x.divEuclid terrainChunkEdge (by decide))
          ((tileSlot p).offset.val % 16)).getD (p.x.divEuclid terrainChunkEdge (by decide)),
        (coordinate? (p.y.divEuclid terrainChunkEdge (by decide))
          ((tileSlot p).offset.val / 16)).getD (p.y.divEuclid terrainChunkEdge (by decide)), p.z⟩ := rfl
  rw [hplace, hx, hy]
  rfl

/-- A tile that differs in a chunk canonical on both sides is in its own place, with its codes. -/
theorem TileDiffers.spec {base target : WorldSnapshot} (hfits : Fits base target)
    {coord : ChunkCoord} (hdiffers : chunkDiffers base target coord)
    (hcanonical : BothCanonical base target coord) {offset : Nat} {a b : U 32}
    (h : TileDiffers base target coord offset a b) :
    (tileSlot (place coord offset)).chunk = coord ∧
      (tileSlot (place coord offset)).offset.val = offset ∧
        (codeAt base (place coord offset) = some a ∧
          codeAt target (place coord offset) = some b) ∧ a ≠ b := by
  obtain ⟨hx, hy⟩ := hfits coord hdiffers offset a b h
  obtain ⟨⟨before, hbefore, hcb⟩, after, hafter, hca⟩ := hcanonical
  obtain ⟨old, new, hold, hnew, ⟨ha, hb⟩, hne⟩ := h
  rw [hbefore, expand_of_canonical hcb, Option.some.injEq] at hold
  rw [hafter, expand_of_canonical hca, Option.some.injEq] at hnew
  have hlength := ((chunkIsCanonical_iff before).1 hcb).2.2
  have hlt : offset < 256 := by
    rw [hold] at hlength
    rw [← hlength]
    exact (List.getElem?_eq_some_iff.1 ha).1
  obtain ⟨hchunk, hoffset⟩ := tileSlot_place hx hy hlt
  refine ⟨hchunk, hoffset, ⟨?_, ?_⟩, hne⟩
  · rw [codeAt_eq (by rw [hchunk]; exact hbefore) hcb, hoffset, hold]
    exact ha
  · rw [codeAt_eq (by rw [hchunk]; exact hafter) hca, hoffset, hnew]
    exact hb

/-- The notes of a chunk that is canonical on both sides are of tiles. -/
theorem tile_of_mem {base target : WorldSnapshot} {coord : ChunkCoord} {note : Note}
    (hcanonical : BothCanonical base target coord) (h : note ∈ chunkNotes base target coord) :
    ∃ offset a b, TileDiffers base target coord offset a b ∧
      note = .tile (place coord offset) a b := by
  obtain ⟨⟨before, hbefore, hcb⟩, after, hafter, hca⟩ := hcanonical
  obtain ⟨_, htile | ⟨hlost, _⟩⟩ := mem_chunkNotes.1 h
  · exact htile
  · rw [hbefore, hafter, expand_of_canonical hcb, expand_of_canonical hca] at hlost
    rcases hlost with hlost | hlost <;> cases hlost

theorem z_of_mem {base target : WorldSnapshot} {coord : ChunkCoord} {note : Note}
    (h : note ∈ chunkNotes base target coord) : note.z = coord.z := by
  obtain ⟨_, ⟨offset, a, b, _, rfl⟩ | ⟨_, rfl⟩⟩ := mem_chunkNotes.1 h <;> rfl

/-- On a canonical level the notes are the tiles that read differently. -/
theorem mem_notes_iff_codes {base target : WorldSnapshot} (hfits : Fits base target) {z : S 32}
    (hlevel : CanonicalLevel base target z) (p : MapCoord) (a b : U 32) :
    Note.tile p a b ∈ notes base target ∧ p.z = z ↔
      p.z = z ∧ (codeAt base p = some a ∧ codeAt target p = some b) ∧ a ≠ b := by
  constructor
  · rintro ⟨hmem, hz⟩
    obtain ⟨coord, hmem⟩ := mem_notes.1 hmem
    have hdiffers := (mem_chunkNotes.1 hmem).1
    have hcanonical := hlevel coord ((z_of_mem hmem).symm.trans hz) hdiffers
    obtain ⟨offset, a', b', htile, hnote⟩ := tile_of_mem hcanonical hmem
    obtain ⟨rfl, rfl, rfl⟩ := Note.tile.inj hnote
    exact ⟨hz, (htile.spec hfits hdiffers hcanonical).2.2⟩
  · rintro ⟨hz, ⟨ha, hb⟩, hne⟩
    have hdiffers : chunkDiffers base target (tileSlot p).chunk := by
      intro hsame
      refine hne (Option.some.inj (ha.symm.trans (Eq.trans ?_ hb)))
      rw [codeAt, codeAt, hsame]
    obtain ⟨before, hbefore, hcb⟩ := canonical_of_codeAt ha
    obtain ⟨after, hafter, hca⟩ := canonical_of_codeAt hb
    have htile : TileDiffers base target (tileSlot p).chunk (tileSlot p).offset.val a b :=
      ⟨_, _, by rw [hbefore, expand_of_canonical hcb], by rw [hafter, expand_of_canonical hca],
        ⟨(codeAt_eq hbefore hcb).symm.trans ha, (codeAt_eq hafter hca).symm.trans hb⟩, hne⟩
    refine ⟨mem_notes.2 ⟨(tileSlot p).chunk, mem_chunkNotes.2 ⟨hdiffers, .inl ⟨_, a, b, htile, ?_⟩⟩⟩, hz⟩
    rw [place_slot]

/-- No chunk notes a tile twice. -/
theorem nodup_chunkNotes {base target : WorldSnapshot} (hfits : Fits base target)
    (coord : ChunkCoord) : (chunkNotes base target coord).Nodup := by
  unfold chunkNotes
  by_cases hsame : base.graph.chunks.get? coord = target.graph.chunks.get? coord
  · rw [if_pos hsame]
    exact List.nodup_nil
  · rw [if_neg hsame]
    cases hold : expand (base.graph.chunks.get? coord) with
    | none => exact List.nodup_singleton _
    | some old =>
        cases hnew : expand (target.graph.chunks.get? coord) with
        | none => exact List.nodup_singleton _
        | some new =>
            have hval : ∀ e ∈ (old.zip new).zipIdx.filter fun e => e.1.1 ≠ e.1.2,
                (place coord e.2).x.val = coord.x.val * 16 + (e.2 % 16 : Nat) ∧
                  (place coord e.2).y.val = coord.y.val * 16 + (e.2 / 16 : Nat) := by
              intro e he
              obtain ⟨hcodes, hne⟩ := List.mem_filter.1 he
              obtain ⟨hx, hy⟩ := hfits coord hsame e.2 e.1.1 e.1.2
                ⟨old, new, hold, hnew, mem_zip_zipIdx.1 hcodes, by simpa using hne⟩
              exact place_val hx hy
            refine List.Nodup.map_on (fun e he e' he' heq => ?_) (List.Nodup.filter _ ?_)
            · obtain ⟨hplace, ha, hb⟩ := Note.tile.inj heq
              obtain ⟨hx, hy⟩ := hval e he
              obtain ⟨hx', hy'⟩ := hval e' he'
              rw [hplace] at hx hy
              exact Prod.ext (Prod.ext ha hb) (by omega)
            · refine List.Nodup.of_map Prod.snd ?_
              rw [List.zipIdx_map_snd]
              exact List.nodup_range'

/-- A canonical level has no tile noted twice. -/
theorem nodup_level {base target : WorldSnapshot} (hfits : Fits base target) {z : S 32}
    (hlevel : CanonicalLevel base target z) :
    ((notes base target).filter fun note => note.z = z).Nodup := by
  rw [notes, List.filter_flatMap, List.nodup_flatMap]
  refine ⟨fun coord _ => (nodup_chunkNotes hfits coord).filter _,
    (bothKeys_nodup _ _).imp fun {coord other} hne note hmem hother => hne ?_⟩
  obtain ⟨hmem, hz⟩ := List.mem_filter.1 hmem
  have hother := (List.mem_filter.1 hother).1
  have hz := of_decide_eq_true hz
  have hdiffers := (mem_chunkNotes.1 hmem).1
  have hdiffers' := (mem_chunkNotes.1 hother).1
  have hcanonical := hlevel coord ((z_of_mem hmem).symm.trans hz) hdiffers
  have hcanonical' := hlevel other ((z_of_mem hother).symm.trans hz) hdiffers'
  obtain ⟨offset, a, b, htile, hnote⟩ := tile_of_mem hcanonical hmem
  obtain ⟨offset', a', b', htile', hnote'⟩ := tile_of_mem hcanonical' hother
  have hplace := (Note.tile.inj (hnote.symm.trans hnote')).1
  rw [← (htile.spec hfits hdiffers hcanonical).1, hplace,
    (htile'.spec hfits hdiffers' hcanonical').1]

/-- **What is kept of a canonical level is what the comparison of its tiles makes of it.** -/
theorem tiled_level {base target : WorldSnapshot} {levels : Levels}
    (h : levelChanges base target = some levels) {z : S 32} {level : LevelChange}
    (hget : levels.get? z = some level) (hlevel : CanonicalLevel base target z) :
    Tiled base target z level := by
  have hfits := levelChanges_some_iff.1 ⟨_, h⟩
  have hlevels := Option.some.inj (h.symm.trans (levelChanges_eq hfits))
  rw [hlevels, get?_notes] at hget
  have hlevelEq : ((notes base target).filter fun note => note.z = z).foldl Note.apply .default =
      level := by
    split at hget
    · exact Option.some.inj hget
    · cases hget
  have htiles : ∃ found : List Difference,
      found.map Difference.toNote = (notes base target).filter fun note => note.z = z := by
    have hrange : ((notes base target).filter fun note => note.z = z) ∈
        Set.range (List.map Difference.toNote) := by
      rw [Set.range_list_map]
      intro note hmem
      obtain ⟨hmem, hz⟩ := List.mem_filter.1 hmem
      obtain ⟨coord, hmem⟩ := mem_notes.1 hmem
      obtain ⟨offset, a, b, _, hnote⟩ := tile_of_mem (hlevel coord
        ((z_of_mem hmem).symm.trans (of_decide_eq_true hz)) (mem_chunkNotes.1 hmem).1) hmem
      exact ⟨(place coord offset, a, b), hnote.symm⟩
    exact hrange
  obtain ⟨found, hfound⟩ := htiles
  have hcodes : ∀ p a b, (p, a, b) ∈ found ↔
      p.z = z ∧ (codeAt base p = some a ∧ codeAt target p = some b) ∧ a ≠ b := by
    intro p a b
    rw [← mem_notes_iff_codes hfits hlevel]
    have hmem : (p, a, b) ∈ found ↔ Note.tile p a b ∈ found.map Difference.toNote := by
      rw [List.mem_map]
      constructor
      · exact fun hmem => ⟨_, hmem, rfl⟩
      · rintro ⟨⟨p', a', b'⟩, hmem, heq⟩
        obtain ⟨rfl, rfl, rfl⟩ := Note.tile.inj heq
        exact hmem
    rw [hmem, hfound, List.mem_filter]
    exact and_congr_right fun _ => decide_eq_true_iff
  refine ⟨found, ?_, hcodes, ?_⟩
  · have hnodup := nodup_level hfits hlevel
    rw [← hfound] at hnodup
    refine List.Nodup.map_on (fun d hd d' hd' hp => ?_) hnodup.of_map
    obtain ⟨p, a, b⟩ := d
    obtain ⟨p', a', b'⟩ := d'
    obtain rfl : p = p' := hp
    obtain ⟨_, ⟨ha, hb⟩, _⟩ := (hcodes p a b).1 hd
    obtain ⟨_, ⟨ha', hb'⟩, _⟩ := (hcodes p a' b').1 hd'
    rw [Option.some.inj (ha.symm.trans ha'), Option.some.inj (hb.symm.trans hb')]
  · rw [← hlevelEq, ← hfound]
    exact of_tiles found

end WorldChanges

end Dfmcp
