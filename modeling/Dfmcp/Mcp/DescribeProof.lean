import Dfmcp.Mcp.LevelChangesProof

/-!
# Nothing is missing from the description

A description of the changes between two snapshots of one fortress is complete when it is empty only
where the snapshots agree, accounts in every domain for as many changes as there are records that
differ, and gives every canonical level as a comparison of its tiles would.

The description is complete for entities, relations and events. For terrain it is not: a chunk that
differs, and that both sides can be expanded to tiles which agree, shows nothing. The revision of a
chunk, its overlays and the way its runs are cut are such differences, so that the description can be
empty although the graphs differ (`describe_misses_revision`).

* `complete_changes` — what the description accounts for;
* `describe_complete_iff` — when it is complete.
-/

namespace Dfmcp

open Machine

namespace WorldChanges

/-! ## A complete description -/

/-- The clock and the records of two snapshots agree, with kinds as they are spelled. -/
structure Agrees (base target : WorldSnapshot) : Prop where
  tick : base.tick = target.tick
  paused : base.paused = target.paused
  entities : ∀ id, ¬entityDiffers base target id
  relations : ∀ id, ¬relationDiffers base target id
  events : ∀ id, ¬eventDiffers base target id
  chunks : ∀ coord, ¬chunkDiffers base target coord

/-- A chunk of the level differs. -/
def levelDiffers (base target : WorldSnapshot) (z : S 32) : Prop :=
  ∃ coord : ChunkCoord, coord.z = z ∧ chunkDiffers base target coord

/-- The level of an entry of terrain. -/
def Change.level? : Change → Option (S 32 × LevelChange)
  | terrain z level => some (z, level)
  | _ => none

/-- The listed levels. -/
def levelsOf (listed : List Change) : List (S 32 × LevelChange) := listed.filterMap Change.level?

structure Complete (base target : WorldSnapshot) (listed : List Change) : Prop where
  empty : listed = [] → Agrees base target
  entities : Accounts .entity listed (entityDiffers base target)
  relations : Accounts .relation listed (relationDiffers base target)
  events : Accounts .event listed (eventDiffers base target)
  terrain : Accounts .terrain listed (levelDiffers base target)
  levels_nodup : ((levelsOf listed).map Prod.fst).Nodup
  levels : ∀ e ∈ levelsOf listed, levelDiffers base target e.1 ∧
    (CanonicalLevel base target e.1 → Tiled base target e.1 e.2)

/-- Where the hashes agree the snapshots do; elsewhere no coordinate overflows, and every level with a
chunk that differs has one that cannot be compared or has a tile that differs. -/
def Reported (base target : WorldSnapshot) : Prop :=
  (base.stateHash = target.stateHash → Agrees base target) ∧
    (base.stateHash ≠ target.stateHash → Fits base target ∧
      ∀ coord, chunkDiffers base target coord →
        ∃ other : ChunkCoord, other.z = coord.z ∧ Shows base target other)

/-- A domain that accounts for nothing has no key that differs. -/
theorem Accounts.none {K : Type} {domain : Domain} {listed : List Change} {differs : K → Prop}
    (h : Accounts domain listed differs) (hzero : accounted domain listed = 0) (k : K) :
    ¬differs k := by
  obtain ⟨keys, _, hkeys, hlength⟩ := h
  rw [hzero] at hlength
  rw [← hkeys, List.length_eq_zero_iff.1 hlength.symm]
  exact List.not_mem_nil

theorem accounts_nil {K : Type} (domain : Domain) {differs : K → Prop} (h : ∀ k, ¬differs k) :
    Accounts domain [] differs :=
  ⟨[], List.nodup_nil, fun k => iff_of_false List.not_mem_nil (h k), rfl⟩

/-- The empty description is complete for snapshots that agree. -/
theorem complete_nil {base target : WorldSnapshot} (h : Agrees base target) :
    Complete base target [] where
  empty := fun _ => h
  entities := accounts_nil _ h.entities
  relations := accounts_nil _ h.relations
  events := accounts_nil _ h.events
  terrain := accounts_nil _ fun _ ⟨coord, _, hdiffers⟩ => h.chunks coord hdiffers
  levels_nodup := List.nodup_nil
  levels := fun _ h => absurd h List.not_mem_nil

/-! ## The parts of the description -/

theorem domain_entityChange {base target : WorldSnapshot} {id : EntityId} {c : Change}
    (h : entityChange base target id = some c) : c.domain? = some .entity := by
  unfold entityChange at h
  split at h
  · cases h
    rfl
  · cases h
    rfl
  · split at h
    · split at h
      · cases h
        rfl
      · cases h
    · cases h
  · cases h

theorem domain_relationChange {base target : WorldSnapshot} {id : EdgeId} {c : Change}
    (h : relationChange base target id = some c) : c.domain? = some .relation := by
  unfold relationChange at h
  simp only at h
  split at h
  · cases h
  · cases h
    rfl

theorem domain_eventChange {base target : WorldSnapshot} {id : EventId} {c : Change}
    (h : eventChange base target id = some c) : c.domain? = some .event := by
  unfold eventChange at h
  simp only at h
  split at h
  · cases h
  · cases h
    rfl

theorem section_entityChanges (base target : WorldSnapshot) :
    Section .entity (entityChanges base target) (entityDiffers base target) :=
  section_listAll _ (fun _ _ => domain_entityChange) (isSome_entityChange base target)
    fun _ h => mem_bothKeys_of_ne fun hsame => h (congrArg _ hsame)

theorem section_relationChanges (base target : WorldSnapshot) :
    Section .relation (relationChanges base target) (relationDiffers base target) := by
  refine section_listAll _ (fun _ _ => domain_relationChange) (isSome_relationChange base target) ?_
  intro id h
  rw [mem_bothKeys, OMap.contains, OMap.contains]
  by_contra hno
  rw [not_or, Bool.not_eq_true, Bool.not_eq_true, Option.isSome_eq_false_iff,
    Option.isSome_eq_false_iff, Option.isNone_iff_eq_none, Option.isNone_iff_eq_none] at hno
  rw [relationDiffers, hno.1, hno.2] at h
  rcases h with h | h <;> exact h rfl

theorem section_eventChanges (base target : WorldSnapshot) :
    Section .event (eventChanges base target) (eventDiffers base target) :=
  section_listAll _ (fun _ _ => domain_eventChange) (isSome_eventChange base target)
    fun _ h => mem_bothKeys_of_ne fun hsame => h (congrArg _ hsame)

/-- The entries of terrain. -/
def terrainPart (levels : Levels) : List Change :=
  withOmitted .terrain ((levels.toList.take maxTerrainChanges).map fun e => .terrain e.1 e.2,
    levels.size - maxTerrainChanges)

theorem terrainChanges_eq (base target : WorldSnapshot) :
    terrainChanges base target = (levelChanges base target).map terrainPart := by
  rw [terrainChanges]
  cases levelChanges base target <;> rfl

theorem accounted_terrainPart (levels : Levels) (d : Domain) :
    accounted d (terrainPart levels) = if d = .terrain then levels.size else 0 := by
  have hlisted : ∀ change ∈ (levels.toList.take maxTerrainChanges).map
      fun e => Change.terrain e.1 e.2, change.domain? = some .terrain := by
    intro change hmem
    obtain ⟨e, _, rfl⟩ := List.mem_map.1 hmem
    rfl
  have hsize : levels.size = levels.toList.length := rfl
  rw [terrainPart, accounted_withOmitted hlisted, List.length_map, List.length_take, hsize]
  by_cases hd : d = .terrain
  · rw [if_pos hd, if_pos hd]
    omega
  · rw [if_neg hd, if_neg hd]

theorem accounted_terrainPart_of_ne (levels : Levels) {d : Domain} (hd : d ≠ .terrain) :
    accounted d (terrainPart levels) = 0 := by
  rw [accounted_terrainPart, if_neg hd]

theorem accounted_clockChanges (base target : WorldSnapshot) (d : Domain) :
    accounted d (clockChanges base target) = 0 := by
  rw [clockChanges, accounted_append]
  by_cases htick : base.tick ≠ target.tick <;> by_cases hpaused : base.paused ≠ target.paused <;>
    simp [htick, hpaused, accounted, Change.stands, Change.domain?]

/-! ## The levels of the description -/

theorem levelsOf_append (l l' : List Change) : levelsOf (l ++ l') = levelsOf l ++ levelsOf l' :=
  List.filterMap_append

/-- Only terrain has levels. -/
theorem levelsOf_eq_nil {domain : Domain} {part : List Change}
    (h : ∀ change ∈ part, change.domain? = some domain ∨ change.domain? = none)
    (hdomain : domain ≠ .terrain) : levelsOf part = [] := by
  rw [levelsOf, List.filterMap_eq_nil_iff]
  intro change hmem
  cases change with
  | terrain z level => rcases h _ hmem with h | h <;> cases h; exact absurd rfl hdomain
  | _ => rfl

theorem levelsOf_clockChanges (base target : WorldSnapshot) :
    levelsOf (clockChanges base target) = [] := by
  rw [clockChanges, levelsOf_append]
  by_cases htick : base.tick ≠ target.tick <;> by_cases hpaused : base.paused ≠ target.paused <;>
    simp [htick, hpaused, levelsOf, Change.level?]

theorem levelsOf_terrainPart (levels : Levels) :
    levelsOf (terrainPart levels) = levels.toList.take maxTerrainChanges := by
  have homitted : ∀ n, levelsOf (if n > 0 then [Change.omitted .terrain n] else []) = [] := by
    intro n
    by_cases hn : n > 0
    · rw [if_pos hn]
      rfl
    · rw [if_neg hn]
      rfl
  rw [terrainPart, withOmitted, levelsOf_append, homitted, List.append_nil, levelsOf,
    List.filterMap_map]
  exact List.filterMap_some

/-! ## The whole description -/

/-- The description of two snapshots of one fortress whose hashes differ, given the levels. -/
def listed (base target : WorldSnapshot) (levels : Levels) : List Change :=
  clockChanges base target ++ entityChanges base target ++ relationChanges base target ++
    terrainPart levels ++ eventChanges base target

theorem changes_eq {base target : WorldSnapshot} (hfortress : base.fortressId = target.fortressId)
    (hepoch : base.cursor.epoch = target.cursor.epoch)
    (hsequence : base.cursor.sequence ≤ target.cursor.sequence) (htick : base.tick ≤ target.tick) :
    changes base target = if base.stateHash = target.stateHash then some []
      else (levelChanges base target).map (listed base target) := by
  have hreset : ¬(base.fortressId ≠ target.fortressId ∨ base.cursor.epoch ≠ target.cursor.epoch) :=
    fun h => h.elim (· hfortress) (· hepoch)
  have hgap : ¬(target.cursor.sequence < base.cursor.sequence ∨ target.tick < base.tick) :=
    fun h => h.elim (not_lt.2 hsequence) (not_lt.2 htick)
  rw [changes, if_neg hreset, if_neg hgap, terrainChanges_eq]
  refine if_congr Iff.rfl rfl ?_
  cases levelChanges base target <;> rfl

theorem accounted_listed (base target : WorldSnapshot) (levels : Levels) (d : Domain) :
    accounted d (listed base target levels) = accounted d (entityChanges base target) +
      accounted d (relationChanges base target) + accounted d (terrainPart levels) +
        accounted d (eventChanges base target) := by
  rw [listed, accounted_append, accounted_append, accounted_append, accounted_append,
    accounted_clockChanges, Nat.zero_add]

/-- A section has nothing of another domain. -/
theorem Section.zero {K : Type} {domain : Domain} {part : List Change} {differs : K → Prop}
    (h : Section domain part differs) (d : Domain) (hd : d ≠ domain) : accounted d part = 0 := by
  obtain ⟨keys, _, _, haccounted⟩ := h.keys
  rw [haccounted, if_neg hd]

/-- A section of the description accounts for its domain when the others have nothing of it. -/
theorem Section.accounts {K : Type} {domain : Domain} {part whole : List Change}
    {differs : K → Prop} (h : Section domain part differs)
    (hwhole : accounted domain whole = accounted domain part) : Accounts domain whole differs := by
  obtain ⟨keys, hnodup, hkeys, haccounted⟩ := h.keys
  exact ⟨keys, hnodup, hkeys, by rw [hwhole, haccounted, if_pos rfl]⟩

theorem accounted_levels (base target : WorldSnapshot) (levels : Levels) :
    accounted .terrain (listed base target levels) = levels.size := by
  rw [accounted_listed, (section_entityChanges base target).zero .terrain (by decide),
    (section_relationChanges base target).zero .terrain (by decide),
    (section_eventChanges base target).zero .terrain (by decide), accounted_terrainPart, if_pos rfl]
  omega

theorem levelsOf_listed (base target : WorldSnapshot) (levels : Levels) :
    levelsOf (listed base target levels) = levels.toList.take maxTerrainChanges := by
  rw [listed, levelsOf_append, levelsOf_append, levelsOf_append, levelsOf_append,
    levelsOf_clockChanges, levelsOf_terrainPart,
    levelsOf_eq_nil (section_entityChanges base target).domains (by decide),
    levelsOf_eq_nil (section_relationChanges base target).domains (by decide),
    levelsOf_eq_nil (section_eventChanges base target).domains (by decide), List.append_nil]
  rfl

/-- **What the description accounts for.** It is complete when every level with a chunk that differs is
among the levels. -/
theorem complete_listed_iff {base target : WorldSnapshot} {levels : Levels}
    (h : levelChanges base target = some levels) :
    Complete base target (listed base target levels) ↔
      ∀ z, levelDiffers base target z → levels.contains z = true := by
  have hentities : Accounts .entity (listed base target levels) (entityDiffers base target) := by
    refine (section_entityChanges base target).accounts ?_
    rw [accounted_listed, (section_relationChanges base target).zero .entity (by decide),
      (section_eventChanges base target).zero .entity (by decide), accounted_terrainPart_of_ne levels (by decide)]
    omega
  have hrelations : Accounts .relation (listed base target levels) (relationDiffers base target) := by
    refine (section_relationChanges base target).accounts ?_
    rw [accounted_listed, (section_entityChanges base target).zero .relation (by decide),
      (section_eventChanges base target).zero .relation (by decide), accounted_terrainPart_of_ne levels (by decide)]
    omega
  have hevents : Accounts .event (listed base target levels) (eventDiffers base target) := by
    refine (section_eventChanges base target).accounts ?_
    rw [accounted_listed, (section_entityChanges base target).zero .event (by decide),
      (section_relationChanges base target).zero .event (by decide), accounted_terrainPart_of_ne levels (by decide)]
    omega
  have hkept : ∀ z, levels.contains z = true → levelDiffers base target z := by
    intro z hz
    obtain ⟨coord, hcoord, hshows⟩ := (contains_level_iff h z).1 hz
    exact ⟨coord, hcoord, hshows.1⟩
  constructor
  · intro hcomplete z hz
    obtain ⟨keys, hnodup, hkeys, hlength⟩ := hcomplete.terrain
    rw [accounted_levels, ← OMap.length_keys] at hlength
    have hsub : levels.keys.Subperm keys := List.subperm_of_subset levels.keys_nodup fun q hq =>
      (hkeys q).2 (hkept q ((OMap.mem_keys_iff levels q).1 hq))
    have hperm := hsub.perm_of_length_le hlength.symm.le
    exact (OMap.mem_keys_iff levels z).1 (hperm.mem_iff.2 ((hkeys z).2 hz))
  · intro hall
    have hterrain : Accounts .terrain (listed base target levels) (levelDiffers base target) := by
      refine ⟨levels.keys, levels.keys_nodup, fun z => ?_, ?_⟩
      · rw [OMap.mem_keys_iff]
        exact ⟨hkept z, hall z⟩
      · rw [accounted_levels, OMap.length_keys]
    refine ⟨?_, hentities, hrelations, hevents, hterrain, ?_, ?_⟩
    · intro hempty
      have hzero : ∀ d, accounted d (listed base target levels) = 0 := fun d => by
        rw [hempty]
        rfl
      have hclock : clockChanges base target = [] := by
        rw [listed, List.append_eq_nil_iff, List.append_eq_nil_iff, List.append_eq_nil_iff,
          List.append_eq_nil_iff] at hempty
        exact hempty.1.1.1.1
      rw [clockChanges, List.append_eq_nil_iff] at hclock
      refine ⟨?_, ?_, hentities.none (hzero _), hrelations.none (hzero _), hevents.none (hzero _),
        fun coord hdiffers => hterrain.none (hzero _) coord.z ⟨coord, rfl, hdiffers⟩⟩
      · by_contra hne
        rw [if_pos hne] at hclock
        cases hclock.1
      · by_contra hne
        rw [if_pos hne] at hclock
        cases hclock.2
    · rw [levelsOf_listed, List.map_take]
      exact levels.keys_nodup.take
    · intro e he
      rw [levelsOf_listed] at he
      have hget := (OMap.mem_toList_iff levels e.1 e.2).1 (List.mem_of_mem_take he)
      refine ⟨hkept e.1 ?_, tiled_level h hget⟩
      rw [OMap.contains, hget]
      rfl

/-- **When the description misses nothing.** Between snapshots of one fortress, in order, it is complete
exactly when equal hashes are those of equal snapshots and, for unequal ones, no coordinate overflows
and every level with a chunk that differs has one that cannot be compared or has a tile that differs. -/
theorem describe_complete_iff {base target : WorldSnapshot}
    (hfortress : base.fortressId = target.fortressId)
    (hepoch : base.cursor.epoch = target.cursor.epoch)
    (hsequence : base.cursor.sequence ≤ target.cursor.sequence) (htick : base.tick ≤ target.tick) :
    (∃ entries, describe base target = some entries ∧
      Complete base target (entries.map Entry.change)) ↔ Reported base target := by
  have hentries : (∃ entries, describe base target = some entries ∧
      Complete base target (entries.map Entry.change)) ↔
      ∃ found, changes base target = some found ∧ Complete base target found := by
    have hmap : ∀ found : List Change,
        (found.map fun change => (⟨(base.anchor, target.anchor), change⟩ : Entry)).map
          Entry.change = found := by
      intro found
      rw [List.map_map]
      exact List.map_id found
    rw [describe]
    constructor
    · rintro ⟨entries, heq, hcomplete⟩
      obtain ⟨found, hfound, rfl⟩ := Option.map_eq_some_iff.1 heq
      rw [hmap] at hcomplete
      exact ⟨found, hfound, hcomplete⟩
    · rintro ⟨found, hfound, hcomplete⟩
      exact ⟨_, Option.map_eq_some_iff.2 ⟨found, hfound, rfl⟩, by rw [hmap]; exact hcomplete⟩
  rw [hentries, changes_eq hfortress hepoch hsequence htick, Reported]
  by_cases hhash : base.stateHash = target.stateHash
  · rw [if_pos hhash]
    constructor
    · rintro ⟨found, hfound, hcomplete⟩
      cases hfound
      exact ⟨fun _ => hcomplete.empty rfl, fun hne => absurd hhash hne⟩
    · intro hreported
      exact ⟨[], rfl, complete_nil (hreported.1 hhash)⟩
  · rw [if_neg hhash]
    constructor
    · rintro ⟨found, hfound, hcomplete⟩
      obtain ⟨levels, hlevels, rfl⟩ := Option.map_eq_some_iff.1 hfound
      refine ⟨fun heq => absurd heq hhash, fun _ => ⟨levelChanges_some_iff.1 ⟨_, hlevels⟩, ?_⟩⟩
      intro coord hdiffers
      exact (contains_level_iff hlevels coord.z).1
        ((complete_listed_iff hlevels).1 hcomplete coord.z ⟨coord, rfl, hdiffers⟩)
    · intro hreported
      obtain ⟨hfits, hshown⟩ := hreported.2 hhash
      obtain ⟨levels, hlevels⟩ := levelChanges_some_iff.2 hfits
      refine ⟨_, Option.map_eq_some_iff.2 ⟨levels, hlevels, rfl⟩,
        (complete_listed_iff hlevels).2 fun z hz => ?_⟩
      obtain ⟨coord, rfl, hdiffers⟩ := hz
      exact (contains_level_iff hlevels coord.z).2 (hshown coord hdiffers)

/-! ## A level dug and filled again -/

namespace Backfill

/-- A chunk of floor in which a tile was dug and filled again: the revision has moved twice. -/
def earth (revision : U 64) : MapChunk :=
  { uniformChunk ⟨⟨0, S.fits_zero⟩, ⟨0, S.fits_zero⟩, ⟨5, S.fits_five⟩⟩ TileCodes.floor with revision }

def before : WorldSnapshot := Sample.snapshot 1 (Sample.terrain (earth 1))

def after : WorldSnapshot := Sample.snapshot 2 (Sample.terrain (earth 3))

theorem chunkDiffers_earth : chunkDiffers before after (earth 1).coord := by
  unfold chunkDiffers
  decide

theorem levelChanges_earth : levelChanges before after = some .nil := by decide +kernel

/-- The chunk shows no difference. -/
theorem not_shows (coord : ChunkCoord) : ¬Shows before after coord := by
  intro hshows
  have hcontains := (contains_level_iff levelChanges_earth coord.z).2 ⟨coord, rfl, hshows⟩
  cases hcontains

theorem fortress_eq : before.fortressId = after.fortressId := rfl

theorem epoch_eq : before.cursor.epoch = after.cursor.epoch := rfl

theorem sequence_le : before.cursor.sequence ≤ after.cursor.sequence := by decide

theorem tick_le : before.tick ≤ after.tick := by decide

theorem not_agrees : ¬Agrees before after := fun h => h.chunks _ chunkDiffers_earth

theorem not_reported : ¬Reported before after := by
  intro hreported
  by_cases hhash : before.stateHash = after.stateHash
  · exact not_agrees (hreported.1 hhash)
  · obtain ⟨other, _, hshows⟩ := (hreported.2 hhash).2 _ chunkDiffers_earth
    exact not_shows other hshows

theorem agrees_before : Agrees before before :=
  ⟨rfl, rfl, fun _ h => h rfl, fun _ h => h.elim (· rfl) (· rfl), fun _ h => h rfl, fun _ h => h rfl⟩

end Backfill

open Backfill in
/-- The description of a snapshot and itself is complete, that of the chunk dug and filled is not. -/
theorem describe_complete_earth :
    (∃ entries, describe before before = some entries ∧
      Complete before before (entries.map Entry.change)) ∧
    ¬∃ entries, describe before after = some entries ∧
      Complete before after (entries.map Entry.change) :=
  ⟨(describe_complete_iff rfl rfl le_rfl le_rfl).2 ⟨fun _ => agrees_before, fun h => absurd rfl h⟩,
    fun h => not_reported ((describe_complete_iff fortress_eq epoch_eq sequence_le tick_le).1 h)⟩

open Backfill in
/-- The description is empty although the graphs differ. -/
theorem describe_misses_revision :
    (before.fortressId = after.fortressId ∧ before.cursor.epoch = after.cursor.epoch ∧
      before.cursor.sequence ≤ after.cursor.sequence ∧ before.tick ≤ after.tick) ∧
    describe before after = some [] ∧ ¬Agrees before after ∧
    ∀ entries, describe before after = some entries →
      ¬Complete before after (entries.map Entry.change) := by
  have hlisted : listed before after .nil = [] := by decide
  have hempty : describe before after = some [] := by
    have hchanges : changes before after = some [] := by
      rw [changes_eq fortress_eq epoch_eq sequence_le tick_le, levelChanges_earth, Option.map_some,
        hlisted, ite_self]
    rw [describe, hchanges]
    rfl
  refine ⟨⟨fortress_eq, epoch_eq, sequence_le, tick_le⟩, hempty, not_agrees, fun entries hentries hcomplete => ?_⟩
  obtain rfl := Option.some.inj (hempty.symm.trans hentries)
  exact not_agrees (hcomplete.empty rfl)

end WorldChanges

end Dfmcp
