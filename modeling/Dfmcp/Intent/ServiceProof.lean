import Dfmcp.Intent.ServiceSearchProof

/-!
# The served activities are a largest set, chosen in order

What a selection serves is read off the world: each served activity has a worker of its own who can
do it and, where its family needs one, a workshop of its own.

* `Captures` — a capacity says who the workers of a family are and how many workshops it has;
* `serviceable_iff` — a set of candidates is serviceable in the world exactly when it is feasible on
  the capacity;
* `service_selection_optimal` — both selections serve the greedy basis, and lose no predecessor.
-/

namespace Dfmcp

open Machine Method Matching Effects

namespace Service

/-! ## Reading the world -/

/-- How a selection reads the world. -/
structure Trade where
  families : List Family
  works : GameTick → EntityRecord → Bool
  qualifies : GameTick → EntityRecord → Family → Bool

namespace Trade

variable (trade : Trade)

/-- A record that can work on the activities of a family. -/
def canWork (tick : GameTick) (family : ℕ) (record : EntityRecord) : Bool :=
  record.kind = .unit && trade.works tick record &&
    (trade.families[family]?).any (trade.qualifies tick record)

/-- A record that is an established workshop of a family. -/
def isWorkshop (tick : GameTick) (family : ℕ) (record : EntityRecord) : Bool :=
  record.kind = .building && fieldText record constructionStageField tick = some stageComplete &&
    (trade.families[family]?).any (Capacity.serves (fieldText record "building_kind" tick))

def needsWorkshop (family : ℕ) : Bool :=
  (trade.families[family]?).any fun family => family.workshop.isSome

/-- Each candidate of a set can be given a worker of its own and, where it needs one, a workshop of
its own. -/
def Serviceable {ω : Type} (s : WorldSnapshot) (candidates : List (Candidate ω)) (T : Finset ℕ) :
    Prop :=
  (∃ worker : ℕ → EntityId, Set.InjOn worker T ∧ ∀ p ∈ T,
    (s.graph.entities.get? (worker p)).any (trade.canWork s.tick (familyAt candidates p))) ∧
  ∃ workshop : ℕ → EntityId,
    (∀ p ∈ T, trade.needsWorkshop (familyAt candidates p) →
      (s.graph.entities.get? (workshop p)).any
        (trade.isWorkshop s.tick (familyAt candidates p))) ∧
    ∀ p ∈ T, ∀ q ∈ T, trade.needsWorkshop (familyAt candidates p) →
      trade.needsWorkshop (familyAt candidates q) → workshop p = workshop q → p = q

/-- Families with workshops have different ones. -/
def Distinct : Prop :=
  trade.families.Pairwise fun a b => a.workshop.isSome → a.workshop ≠ b.workshop

end Trade

variable {trade : Trade}

/-- What a capture of these records says. -/
structure Captures (trade : Trade) (tick : GameTick) (entries : List (EntityId × EntityRecord))
    (capacity : Capacity) : Prop where
  nodup : capacity.workers.Nodup
  known : ∀ id ∈ capacity.workers, id ∈ entries.map Prod.fst
  present : ∀ family id record, (id, record) ∈ entries → trade.canWork tick family record = true →
    id ∈ capacity.workers
  eligible : ∀ family worker, worker ∈ capacity.eligible family ↔ ∃ id record,
    capacity.workers[worker]? = some id ∧ (id, record) ∈ entries ∧
      trade.canWork tick family record = true
  workshops : ∀ family, capacity.workshops family =
    (entries.filter fun entry => trade.isWorkshop tick family entry.2).length

theorem captures_nil (trade : Trade) (tick : GameTick) : Captures trade tick [] .empty where
  nodup := List.nodup_nil
  known := nofun
  present := nofun
  eligible := fun _ _ => by simp [Capacity.empty]
  workshops := fun _ => rfl

/-- A record that is not a worker of any family. -/
theorem Captures.idle {tick : GameTick} {entries : List (EntityId × EntityRecord)}
    {capacity : Capacity} {entry : EntityId × EntityRecord} (h : Captures trade tick entries capacity)
    (hwork : ∀ family, trade.canWork tick family entry.2 = false) {workshops : ℕ → ℕ}
    (hshops : ∀ family, workshops family = capacity.workshops family +
      if trade.isWorkshop tick family entry.2 then 1 else 0) :
    Captures trade tick (entries ++ [entry]) { capacity with workshops } where
  nodup := h.nodup
  known := fun id hid => by
    rw [List.map_append]
    exact List.mem_append_left _ (h.known id hid)
  present := fun family id record hmem hcan => by
    rcases List.mem_append.1 hmem with hmem | hmem
    · exact h.present family id record hmem hcan
    · rw [← List.mem_singleton.1 hmem] at hwork
      rw [hwork family] at hcan
      cases hcan
  eligible := fun family worker => by
    rw [h.eligible]
    refine exists_congr fun id => exists_congr fun record => and_congr_right fun _ =>
      and_congr_left fun hcan => ?_
    rw [List.mem_append, List.mem_singleton]
    refine (or_iff_left fun heq => ?_).symm
    have hnot := hwork family
    rw [← heq] at hnot
    rw [hnot] at hcan
    cases hcan
  workshops := fun family => by
    show workshops family = _
    rw [hshops, h.workshops, List.filter_append, List.filter_singleton, List.length_append]
    by_cases hshop : trade.isWorkshop tick family entry.2 = true <;> simp [hshop]

/-- A record that is neither a worker nor a workshop of any family. -/
theorem Captures.skip {tick : GameTick} {entries : List (EntityId × EntityRecord)}
    {capacity : Capacity} {entry : EntityId × EntityRecord} (h : Captures trade tick entries capacity)
    (hwork : ∀ family, trade.canWork tick family entry.2 = false)
    (hshop : ∀ family, trade.isWorkshop tick family entry.2 = false) :
    Captures trade tick (entries ++ [entry]) capacity :=
  h.idle hwork fun family => by simp [hshop family]

theorem any_getElem? {families : List Family} {test : Family → Bool} {family : ℕ}
    (h : families.any test = false) : (families[family]?).any test = false := by
  cases hget : families[family]? with
  | none => rfl
  | some found =>
      rw [List.any_eq_false] at h
      simpa using h found (List.mem_of_getElem? hget)

/-- A worker joins the workers of the families it is eligible for. -/
theorem Captures.unit {tick : GameTick} {entries : List (EntityId × EntityRecord)}
    {capacity : Capacity} {entry : EntityId × EntityRecord} (h : Captures trade tick entries capacity)
    (hnew : entry.1 ∉ entries.map Prod.fst)
    (hkind : entry.2.kind = .unit) (hworks : trade.works tick entry.2 = true) :
    Captures trade tick (entries ++ [entry])
      (Capacity.captureUnit trade.families (trade.qualifies tick entry.2) entry.1 capacity) := by
  have hcan : ∀ family, trade.canWork tick family entry.2 =
      (trade.families[family]?).any (trade.qualifies tick entry.2) := by
    intro family
    simp [Trade.canWork, hkind, hworks]
  have hshop : ∀ family, trade.isWorkshop tick family entry.2 = false := by
    intro family
    simp [Trade.isWorkshop, hkind]
  unfold Capacity.captureUnit
  by_cases hany : trade.families.any (trade.qualifies tick entry.2) = true
  · rw [if_pos hany]
    have hfresh : entry.1 ∉ capacity.workers := fun hmem => hnew (h.known _ hmem)
    have hlast : (capacity.workers ++ [entry.1])[capacity.workers.length]? = some entry.1 := by
      simp
    refine ⟨?_, ?_, ?_, ?_, ?_⟩
    · exact List.nodup_append.2 ⟨h.nodup, List.nodup_singleton _, fun a ha b hb => by
        rw [List.mem_singleton.1 hb]
        exact fun heq => hfresh (heq ▸ ha)⟩
    · intro id hid
      rw [List.map_append]
      rcases List.mem_append.1 hid with hid | hid
      · exact List.mem_append_left _ (h.known id hid)
      · exact List.mem_append_right _ hid
    · intro family id record hmem hwork
      rcases List.mem_append.1 hmem with hmem | hmem
      · exact List.mem_append_left _ (h.present family id record hmem hwork)
      · have heq := List.mem_singleton.1 hmem
        rw [← heq]
        exact List.mem_append_right _ (List.mem_singleton_self id)
    · intro family worker
      have hold : (∃ id record, capacity.workers[worker]? = some id ∧ (id, record) ∈ entries ∧
          trade.canWork tick family record = true) ↔ ∃ id record,
          (capacity.workers ++ [entry.1])[worker]? = some id ∧ (id, record) ∈ entries ∧
            trade.canWork tick family record = true := by
        constructor
        · intro hold
          obtain ⟨id, record, hget, hmem, hwork⟩ := hold
          refine ⟨id, record, ?_, hmem, hwork⟩
          rw [List.getElem?_append_left (List.getElem?_eq_some_iff.1 hget).1]
          exact hget
        · intro hold
          obtain ⟨id, record, hget, hmem, hwork⟩ := hold
          refine ⟨id, record, ?_, hmem, hwork⟩
          have hid : id ≠ entry.1 := fun heq =>
            hnew (heq ▸ List.mem_map_of_mem (f := Prod.fst) hmem)
          by_cases hlt : worker < capacity.workers.length
          · rwa [List.getElem?_append_left hlt] at hget
          · rw [List.getElem?_append_right (not_lt.1 hlt)] at hget
            exact absurd (List.mem_singleton.1 (List.mem_of_getElem? hget)) hid
      have hnewest : (∃ id record, (capacity.workers ++ [entry.1])[worker]? = some id ∧
          (id, record) = entry ∧ trade.canWork tick family record = true) ↔
          worker = capacity.workers.length ∧
            (trade.families[family]?).any (trade.qualifies tick entry.2) = true := by
        constructor
        · intro hnewest
          obtain ⟨id, record, hget, heq, hwork⟩ := hnewest
          rw [← heq] at hfresh hcan ⊢
          refine ⟨?_, by rw [← hcan]; exact hwork⟩
          by_cases hlt : worker < capacity.workers.length
          · rw [List.getElem?_append_left hlt] at hget
            exact absurd (List.mem_of_getElem? hget) hfresh
          · rw [List.getElem?_append_right (not_lt.1 hlt)] at hget
            have := (List.getElem?_eq_some_iff.1 hget).1
            simp only [List.length_singleton] at this
            omega
        · intro hnewest
          obtain ⟨rfl, hqualifies⟩ := hnewest
          exact ⟨entry.1, entry.2, hlast, rfl, by rw [hcan]; exact hqualifies⟩
      have hsplit : (∃ id record, (capacity.workers ++ [entry.1])[worker]? = some id ∧
          (id, record) ∈ entries ++ [entry] ∧ trade.canWork tick family record = true) ↔
          worker ∈ capacity.eligible family ∨ (worker = capacity.workers.length ∧
            (trade.families[family]?).any (trade.qualifies tick entry.2) = true) := by
        rw [h.eligible, hold, ← hnewest, ← exists_or]
        refine exists_congr fun id => ?_
        rw [← exists_or]
        refine exists_congr fun record => ?_
        rw [List.mem_append, List.mem_singleton]
        tauto
      rw [hsplit]
      dsimp only
      by_cases hqualifies : (trade.families[family]?).any (trade.qualifies tick entry.2) = true
      · rw [if_pos hqualifies, List.mem_append, List.mem_singleton]
        simp [hqualifies]
      · rw [if_neg hqualifies]
        simp [hqualifies]
    · intro family
      rw [List.filter_append, List.filter_singleton, hshop family]
      simpa using h.workshops family
  · rw [if_neg hany]
    refine h.skip (fun family => ?_) hshop
    rw [hcan]
    exact any_getElem? (Bool.eq_false_iff.2 hany)

/-- An established building is counted for the families it serves. -/
theorem Captures.building {tick : GameTick} {entries : List (EntityId × EntityRecord)}
    {capacity : Capacity} {entry : EntityId × EntityRecord} (h : Captures trade tick entries capacity)
    (hkind : entry.2.kind = .building)
    (hstage : fieldText entry.2 constructionStageField tick = some stageComplete) :
    Captures trade tick (entries ++ [entry])
      (Capacity.captureBuilding trade.families (fieldText entry.2 "building_kind" tick)
        capacity) := by
  have hcan : ∀ family, trade.canWork tick family entry.2 = false := by
    intro family
    simp [Trade.canWork, hkind]
  have hshop : ∀ family, trade.isWorkshop tick family entry.2 = (trade.families[family]?).any
      (Capacity.serves (fieldText entry.2 "building_kind" tick)) := by
    intro family
    simp [Trade.isWorkshop, hkind, hstage]
  refine h.idle hcan fun family => ?_
  rw [hshop]
  by_cases hserves : (trade.families[family]?).any
      (Capacity.serves (fieldText entry.2 "building_kind" tick)) = true
  · rw [if_pos hserves, if_pos hserves]
  · rw [if_neg hserves, if_neg hserves, add_zero]

theorem Captures.record {tick : GameTick} {entries : List (EntityId × EntityRecord)}
    {capacity : Capacity} {entry : EntityId × EntityRecord} (h : Captures trade tick entries capacity)
    (hnew : entry.1 ∉ entries.map Prod.fst) :
    Captures trade tick (entries ++ [entry])
      (Capacity.captureRecord trade.families (trade.works tick) (trade.qualifies tick) tick capacity
        entry) := by
  unfold Capacity.captureRecord
  by_cases hunit : (entry.2.kind = .unit && trade.works tick entry.2) = true
  · rw [if_pos hunit]
    simp only [Bool.and_eq_true, decide_eq_true_eq] at hunit
    exact h.unit hnew hunit.1 hunit.2
  · rw [if_neg hunit]
    have hwork : ∀ family, trade.canWork tick family entry.2 = false := by
      intro family
      simp only [Trade.canWork, Bool.eq_false_iff.2 hunit, Bool.false_and]
    by_cases hbuilding : (entry.2.kind = .building &&
        fieldText entry.2 constructionStageField tick = some stageComplete) = true
    · rw [if_pos hbuilding]
      simp only [Bool.and_eq_true, decide_eq_true_eq] at hbuilding
      exact h.building hbuilding.1 hbuilding.2
    · rw [if_neg hbuilding]
      refine h.skip hwork fun family => ?_
      simp only [Trade.isWorkshop, Bool.eq_false_iff.2 hbuilding, Bool.false_and]

/-- **A capture of records with distinct identifiers** says what is there. -/
theorem captures_foldl (tick : GameTick) {entries : List (EntityId × EntityRecord)}
    (hnodup : (entries.map Prod.fst).Nodup) :
    Captures trade tick entries (entries.foldl (Capacity.captureRecord trade.families
      (trade.works tick) (trade.qualifies tick) tick) .empty) := by
  induction entries using List.reverseRecOn with
  | nil => exact captures_nil trade tick
  | append_singleton entries entry ih =>
      rw [List.map_append, List.nodup_append'] at hnodup
      rw [List.foldl_concat]
      refine (ih hnodup.1).record fun hmem => ?_
      exact hnodup.2.2 hmem (List.mem_singleton_self entry.1)

/-! ## Serviceable and feasible -/

section Feasibility

variable {ω : Type} {s : WorldSnapshot} {capacity : Capacity} {candidates : List (Candidate ω)}
  {T : Finset ℕ}

/-- The established workshops of a family. -/
def workshopsOf (trade : Trade) (s : WorldSnapshot) (family : ℕ) : Finset EntityId :=
  ((s.graph.entities.toList.filter fun entry =>
    trade.isWorkshop s.tick family entry.2).map Prod.fst).toFinset

theorem mem_workshopsOf {family : ℕ} {id : EntityId} : id ∈ workshopsOf trade s family ↔
    (s.graph.entities.get? id).any (trade.isWorkshop s.tick family) = true := by
  rw [workshopsOf, List.mem_toFinset, List.mem_map, Option.any_eq_true]
  constructor
  · intro h
    obtain ⟨⟨k, record⟩, hmem, rfl⟩ := h
    obtain ⟨hmem, hshop⟩ := List.mem_filter.1 hmem
    exact ⟨record, (OMap.mem_toList_iff _ _ _).1 hmem, hshop⟩
  · intro h
    obtain ⟨record, hget, hshop⟩ := h
    exact ⟨(id, record), List.mem_filter.2 ⟨(OMap.mem_toList_iff _ _ _).2 hget, hshop⟩, rfl⟩

theorem card_workshopsOf (family : ℕ) : (workshopsOf trade s family).card =
    (s.graph.entities.toList.filter fun entry => trade.isWorkshop s.tick family entry.2).length := by
  have hnodup : ((s.graph.entities.toList.filter fun entry =>
      trade.isWorkshop s.tick family entry.2).map Prod.fst).Nodup :=
    s.graph.entities.keys_nodup.sublist (List.Sublist.map Prod.fst List.filter_sublist)
  rw [workshopsOf, List.toFinset_card_of_nodup hnodup, List.length_map]

/-- A building is a workshop of one family at most. -/
theorem family_of_workshop (hdistinct : trade.Distinct) {f g : ℕ} {record : EntityRecord}
    (hf : trade.isWorkshop s.tick f record = true) (hg : trade.isWorkshop s.tick g record = true) :
    f = g := by
  have hserves : ∀ {k : ℕ}, trade.isWorkshop s.tick k record = true → ∃ family,
      trade.families[k]? = some family ∧ family.workshop.isSome = true ∧
        fieldText record "building_kind" s.tick = family.workshop := by
    intro k hk
    simp only [Trade.isWorkshop, Bool.and_eq_true, Option.any_eq_true, Capacity.serves,
      decide_eq_true_eq] at hk
    obtain ⟨_, family, hget, hsome, hkind⟩ := hk
    exact ⟨family, hget, hsome, hkind⟩
  obtain ⟨first, hfirst, hsome, hkind⟩ := hserves hf
  obtain ⟨second, hsecond, hsome', hkind'⟩ := hserves hg
  obtain ⟨hflt, rfl⟩ := List.getElem?_eq_some_iff.1 hfirst
  obtain ⟨hglt, rfl⟩ := List.getElem?_eq_some_iff.1 hsecond
  have hpair := List.pairwise_iff_getElem.1 hdistinct
  rcases Nat.lt_trichotomy f g with hlt | heq | hgt
  · exact absurd (hkind.symm.trans hkind') (hpair f g hflt hglt hlt hsome)
  · exact heq
  · exact absurd (hkind'.symm.trans hkind) (hpair g f hglt hflt hgt hsome')

/-- The workers behind the seats of a set. -/
theorem workers_of_seats (h : Captures trade s.tick s.graph.entities.toList capacity) {seat : ℕ → ℕ}
    (hinj : Set.InjOn seat T)
    (hoffer : ∀ p ∈ T, (staffing trade.families capacity candidates).offers p (seat p)) :
    Set.InjOn (fun p => capacity.workers.getD (seat p) 0) T ∧
      ∀ p ∈ T, (s.graph.entities.get? (capacity.workers.getD (seat p) 0)).any
        (trade.canWork s.tick (familyAt candidates p)) = true := by
  have hworker : ∀ p ∈ T, ∃ id record, capacity.workers[seat p]? = some id ∧
      (id, record) ∈ s.graph.entities.toList ∧
        trade.canWork s.tick (familyAt candidates p) record = true :=
    fun p hp => (h.eligible _ _).1 (hoffer p hp)
  constructor
  · intro p hp q hq heq
    obtain ⟨id, _, hid, _⟩ := hworker p hp
    obtain ⟨id', _, hid', _⟩ := hworker q hq
    simp only [List.getD_eq_getElem?_getD, hid, hid', Option.getD_some] at heq
    obtain ⟨hlt, hget⟩ := List.getElem?_eq_some_iff.1 hid
    obtain ⟨hlt', hget'⟩ := List.getElem?_eq_some_iff.1 hid'
    exact hinj hp hq ((h.nodup.getElem_inj_iff).1 (hget.trans (heq.trans hget'.symm)))
  · intro p hp
    obtain ⟨id, record, hid, hentry, hwork⟩ := hworker p hp
    simp only [List.getD_eq_getElem?_getD, hid, Option.getD_some]
    exact (Option.any_eq_true _ _).2 ⟨record, (OMap.mem_toList_iff _ _ _).1 hentry, hwork⟩

/-- A worker for each candidate is a seat for each. -/
theorem workers_iff (h : Captures trade s.tick s.graph.entities.toList capacity) :
    (∃ worker : ℕ → EntityId, Set.InjOn worker T ∧ ∀ p ∈ T,
      (s.graph.entities.get? (worker p)).any (trade.canWork s.tick (familyAt candidates p))) ↔
    ∃ seat : ℕ → ℕ, Set.InjOn seat T ∧
      ∀ p ∈ T, (staffing trade.families capacity candidates).offers p (seat p) := by
  constructor
  · intro hworkers
    obtain ⟨worker, hinj, hcan⟩ := hworkers
    have hmem : ∀ p ∈ T, ∃ record, (worker p, record) ∈ s.graph.entities.toList ∧
        trade.canWork s.tick (familyAt candidates p) record = true := by
      intro p hp
      obtain ⟨record, hget, hwork⟩ := (Option.any_eq_true _ _).1 (hcan p hp)
      exact ⟨record, (OMap.mem_toList_iff _ _ _).2 hget, hwork⟩
    have hworker : ∀ p ∈ T, worker p ∈ capacity.workers := by
      intro p hp
      obtain ⟨record, hentry, hwork⟩ := hmem p hp
      exact h.present _ _ record hentry hwork
    refine ⟨fun p => capacity.workers.idxOf (worker p), fun p hp q hq heq => ?_, fun p hp => ?_⟩
    · exact hinj hp hq ((List.idxOf_inj (hworker p hp)).1 heq)
    · obtain ⟨record, hentry, hwork⟩ := hmem p hp
      have hlt := List.idxOf_lt_length_iff.2 (hworker p hp)
      refine (h.eligible _ _).2 ⟨worker p, record, ?_, hentry, hwork⟩
      rw [List.getElem?_eq_getElem hlt, List.getElem_idxOf hlt]
  · intro hseats
    obtain ⟨seat, hinj, hoffer⟩ := hseats
    exact ⟨_, workers_of_seats h hinj hoffer⟩

/-- **A set of candidates is serviceable exactly when it is feasible.** -/
theorem serviceable_iff (hdistinct : trade.Distinct)
    (h : Captures trade s.tick s.graph.entities.toList capacity) :
    trade.Serviceable s candidates T ↔
      (staffing trade.families capacity candidates).Feasible T := by
  let places (family : ℕ) : Option (Finset EntityId) :=
    if trade.needsWorkshop family then some (workshopsOf trade s family) else none
  have hplaces : ∀ {family : ℕ} {A : Finset EntityId}, places family = some A ↔
      trade.needsWorkshop family = true ∧ workshopsOf trade s family = A := by
    intro family A
    by_cases hneeds : trade.needsWorkshop family = true <;> simp [places, hneeds]
  have hslots : ∀ family, (staffing trade.families capacity candidates).slots family =
      (places family).map Finset.card := by
    intro family
    have hcard : (workshopsOf trade s family).card = _ := card_workshopsOf family
    rw [← h.workshops] at hcard
    show limit trade.families capacity family = _
    unfold limit
    by_cases hneeds : trade.needsWorkshop family = true
    · obtain ⟨found, hget, hsome⟩ := (Option.any_eq_true _ _).1 hneeds
      obtain ⟨kind, hkind⟩ := Option.isSome_iff_exists.1 hsome
      rw [hplaces.2 ⟨hneeds, rfl⟩, hget, Option.bind_some, hkind, Option.map_some, Option.map_some,
        hcard]
    · have hnone : places family = none := if_neg hneeds
      rw [hnone]
      cases hget : trade.families[family]? with
      | none => rfl
      | some found =>
          cases hkind : found.workshop with
          | none => simp [hkind]
          | some kind => exact absurd ((Option.any_eq_true _ _).2 ⟨found, hget, by simp [hkind]⟩) hneeds
  have hdisjoint : ∀ f g A B v, places f = some A → places g = some B → v ∈ A → v ∈ B → f = g := by
    intro f g A B v hA hB hvA hvB
    rw [← (hplaces.1 hA).2, mem_workshopsOf, Option.any_eq_true] at hvA
    rw [← (hplaces.1 hB).2, mem_workshopsOf, Option.any_eq_true] at hvB
    obtain ⟨record, hget, hf⟩ := hvA
    obtain ⟨record', hget', hg⟩ := hvB
    obtain rfl := Option.some.inj (hget.symm.trans hget')
    exact family_of_workshop hdistinct hf hg
  have hneeds : ∀ family, places family ≠ none ↔ trade.needsWorkshop family = true := by
    intro family
    by_cases hfamily : trade.needsWorkshop family = true <;> simp [places, hfamily]
  unfold Trade.Serviceable Staffing.Feasible
  rw [workers_iff h, Staffing.within_iff hslots hdisjoint]
  refine and_congr_right fun _ => exists_congr fun workshop => and_congr ?_ ?_
  · refine forall_congr' fun p => forall_congr' fun _ => ?_
    constructor
    · intro hshop A hA
      obtain ⟨hfamily, rfl⟩ := hplaces.1 hA
      exact mem_workshopsOf.2 (hshop hfamily)
    · intro hshop hfamily
      exact mem_workshopsOf.1 (hshop _ (hplaces.2 ⟨hfamily, rfl⟩))
  · simp only [hneeds]
    rfl

end Feasibility

/-! ## What a selection serves -/

/-- Partially served first, then canonical identity. -/
structure Ranked {ω : Type} (found ranked : List (Candidate ω)) : Prop where
  perm : ranked.Perm found
  ordered : ranked.Pairwise fun a b => b.partialTicks < a.partialTicks ∨
    a.partialTicks = b.partialTicks ∧ a.id ≤ b.id

theorem ranked_rank {ω : Type} (found : List (Candidate ω)) : Ranked found (rank found) where
  perm := List.perm_insertionSort _ found
  ordered := by
    have htotal : Std.Total fun a b : Candidate ω => candidateKey a ≤ candidateKey b :=
      ⟨fun a b => le_total _ _⟩
    have htrans : IsTrans (Candidate ω) fun a b => candidateKey a ≤ candidateKey b :=
      ⟨fun a b c => le_trans⟩
    refine (List.pairwise_insertionSort _ found).imp fun {a b} hle => ?_
    rcases (Prod.Lex.toLex_le_toLex).1 hle with hlt | ⟨heq, hid⟩
    · exact .inl hlt
    · exact .inr ⟨heq, hid⟩

/-- **A set of candidates that is served as it should be**: it can be served, nothing larger can,
and in the order of the candidates each is served exactly when it can be beside the earlier ones. -/
structure Optimal {ω : Type} (trade : Trade) (s : WorldSnapshot) (candidates : List (Candidate ω))
    (S : Finset ℕ) : Prop where
  subset : S ⊆ Finset.range candidates.length
  serviceable : trade.Serviceable s candidates S
  largest : ∀ T ⊆ Finset.range candidates.length, trade.Serviceable s candidates T → T.card ≤ S.card
  basis : ∀ p < candidates.length, p ∈ S ↔
    trade.Serviceable s candidates (insert p {q ∈ S | q < p})

/-- The candidates of a set, with their places. -/
def servedOf {ω : Type} (candidates : List (Candidate ω)) (S : Finset ℕ) :
    List (Candidate ω × ℕ) :=
  candidates.zipIdx.filter fun x => x.2 ∈ S

section Outcome

variable {ω : Type} {s : WorldSnapshot} {capacity : Capacity} {candidates : List (Candidate ω)}
  {S : Finset ℕ} {admitted : Admitted}

theorem optimal_of_best (hdistinct : trade.Distinct)
    (h : Captures trade s.tick s.graph.entities.toList capacity)
    (hbest : (staffing trade.families capacity candidates).Best candidates.length S) :
    Optimal trade s candidates S where
  subset := hbest.subset
  serviceable := (serviceable_iff hdistinct h).2 hbest.feasible
  largest := fun _ hT hserviceable => hbest.card_le hT ((serviceable_iff hdistinct h).1 hserviceable)
  basis := fun p hp => (hbest.basis p hp).trans (serviceable_iff hdistinct h).symm

theorem optimal_nil : Optimal trade s ([] : List (Candidate ω)) ∅ where
  subset := Finset.empty_subset _
  serviceable := ⟨⟨fun _ => 0, by simp, by simp⟩, fun _ => 0, by simp, by simp⟩
  largest := fun T hT _ => Finset.card_le_card hT
  basis := fun p hp => absurd hp (Nat.not_lt_zero p)

/-- A candidate is admitted when it is assigned to someone. -/
theorem Admitted.Filled.assigned_iff {I : Staffing ℕ ℕ ℕ} {k : ℕ} (h : admitted.Filled I k S)
    (p : ℕ) : (admitted.seats.assigned p).isSome = true ↔ p ∈ S := by
  rw [h.settled.seated, Option.isSome_iff_exists]
  exact exists_congr fun w => h.holds.inverse p w

theorem servedOf_eq {I : Staffing ℕ ℕ ℕ} {k : ℕ} (h : admitted.Filled I k S) :
    servedOf candidates S =
      candidates.zipIdx.filter fun x => (admitted.seats.assigned x.2).isSome := by
  refine List.filter_congr fun x _ => ?_
  rw [Bool.eq_iff_iff, decide_eq_true_eq]
  exact (h.assigned_iff x.2).symm

end Outcome

theorem ne_of_unpaid {e lost : DfmcpError} (hlost : lost.code = .internalInvariantViolation)
    (h : Unpaid e) : e ≠ lost := by
  intro heq
  rw [heq, Unpaid, hlost] at h
  cases h

theorem entity_error {s : WorldSnapshot} {id : EntityId} {e : DfmcpError}
    (h : entity s id = .error e) :
    e = .new .internalInvariantViolation "active effect entity disappeared during progress" := by
  unfold entity at h
  cases hget : s.graph.entities.get? id with
  | none =>
      rw [hget] at h
      exact (Except.error.inj h).symm
  | some record =>
      rw [hget] at h
      cases h

theorem fieldU64_error {record : EntityRecord} {field : String} {tick : GameTick} {e : DfmcpError}
    (h : fieldU64 record field tick = .error e) : e.code = .preconditionsFailed := by
  unfold fieldU64 at h
  split at h
  · cases h
  · rw [← Except.error.inj h]
    rfl

/-- A computation that fails does not lose a predecessor. -/
def Keeps {α : Type} (lost : DfmcpError) (x : Result α) : Prop := ∀ e, x = .error e → e ≠ lost

/-- An error of the search for a predecessor. -/
def Lost (lost : DfmcpError) : Prop :=
  lost.code = .internalInvariantViolation ∧
    lost.message ≠ "active effect entity disappeared during progress"

theorem keeps_ok {α : Type} {lost : DfmcpError} (a : α) : Keeps lost (.ok a) := nofun

theorem Keeps.bind {α β : Type} {lost : DfmcpError} {x : Result α} {f : α → Result β}
    (hx : Keeps lost x) (hf : ∀ a, Keeps lost (f a)) : Keeps lost (x >>= f) := by
  intro e he
  cases x with
  | error e' =>
      have heq : (Except.error e' : Result β) = .error e := he
      cases heq
      exact hx e rfl
  | ok a => exact hf a e he

theorem keeps_entity {lost : DfmcpError} (hlost : Lost lost) (s : WorldSnapshot) (id : EntityId) :
    Keeps lost (entity s id) := by
  intro e he heq
  rw [entity_error he] at heq
  exact hlost.2 (heq ▸ rfl)

theorem keeps_fieldU64 {lost : DfmcpError} (hlost : Lost lost) (record : EntityRecord)
    (field : String) (tick : GameTick) : Keeps lost (fieldU64 record field tick) := by
  intro e he heq
  have hcode := fieldU64_error he
  rw [heq, hlost.1] at hcode
  cases hcode

/-- The progress of an activity that is read from its record. -/
theorem keeps_progress {lost : DfmcpError} (hlost : Lost lost) {β : Type} (s : WorldSnapshot)
    (id : EntityId) (field : String) {f : U 64 → Result β} (hf : ∀ n, Keeps lost (f n)) :
    Keeps lost (do f (← fieldU64 (← entity s id) field s.tick)) :=
  (keeps_entity hlost s id).bind fun record =>
    (keeps_fieldU64 hlost record field s.tick).bind hf

theorem keeps_foldlM {α β : Type} {lost : DfmcpError} {f : β → α → Result β}
    (hf : ∀ b a, Keeps lost (f b a)) (l : List α) (b : β) : Keeps lost (l.foldlM f b) := by
  induction l generalizing b with
  | nil => exact keeps_ok b
  | cons a l ih =>
      rw [List.foldlM_cons]
      exact (hf b a).bind ih

end Service

/-! ## Production orders -/

namespace ProductionCapacity

open Service

def trade : Trade := ⟨families, fun tick record => isAlive record tick, qualifies⟩

theorem distinct : trade.Distinct := by
  unfold Trade.Distinct
  decide

theorem lost_lost : Lost lost := ⟨rfl, by decide⟩

theorem keeps_gather (s : WorldSnapshot) (orders : List TimelineOrder)
    (ready : List (Fin orders.length)) : Keeps lost (gather s orders ready) := by
  induction ready with
  | nil => exact keeps_ok _
  | cons index rest ih =>
      unfold gather
      cases family (orders.get index).job with
      | none => exact ih.bind fun _ => keeps_ok _
      | some found =>
          exact keeps_progress lost_lost s _ _ fun _ => ih.bind fun _ => keeps_ok _

theorem gives_capture (s : WorldSnapshot) : Gives (capture s)
    (Captures trade s.tick s.graph.entities.toList) Unpaid :=
  have hunpaid : Unpaid tooManyEntities := rfl
  (Gives.rejectIf fun _ => hunpaid).bind fun _ _ => (gives_charge _).bind fun _ _ =>
    .pure (captures_foldl s.tick s.graph.entities.keys_nodup)

theorem gives_report {n : ℕ} (capacity : Capacity) (admitted : Service.Admitted)
    (candidates : List (Candidate (Fin n) × ℕ)) (start : Selection n) :
    Gives (report capacity admitted candidates start) (fun selection => selection.ready =
      start.ready ++ (candidates.filter fun x => (admitted.seats.assigned x.2).isSome).map
        fun x => x.1.work) Unpaid := by
  induction candidates generalizing start with
  | nil => exact .pure (by simp)
  | cons entry rest ih =>
      obtain ⟨candidate, index⟩ := entry
      refine (gives_charge 1).bind fun _ _ => .ite (fun hsome => ?_) fun hnone => ?_
      · refine (ih _).conseq (fun selection hready => ?_) fun _ he => he
        rw [hready, List.filter_cons, if_pos hsome, List.map_cons, List.append_assoc,
          List.singleton_append]
      · refine (ih _).conseq (fun selection hready => ?_) fun _ he => he
        rw [hready, List.filter_cons, if_neg hnone]

/-- A selection serves the orders without a family, and an optimal set of the others. -/
def Serves (s : WorldSnapshot) (orders : List TimelineOrder) (ready : List (Fin orders.length))
    (selection : Selection orders.length) : Prop :=
  ∃ gathered S, gather s orders ready = .ok gathered ∧
    Ranked gathered.candidates (rank gathered.candidates) ∧
    Optimal trade s (rank gathered.candidates) S ∧
    selection.ready.Perm (gathered.selected ++
      (servedOf (rank gathered.candidates) S).map fun x => x.1.work)

theorem gives_select (s : WorldSnapshot) (orders : List TimelineOrder)
    (ready : List (Fin orders.length)) :
    Gives (select s orders ready) (Serves s orders ready) (· ≠ lost) := by
  have hunpaid : ∀ e, Unpaid e → e ≠ lost := fun e => ne_of_unpaid rfl
  have hcharge : ∀ n, Gives (charge n) (fun _ => True) (· ≠ lost) :=
    fun n => (gives_charge n).conseq (fun _ h => h) hunpaid
  have hreject : ∀ (P : Prop) [Decidable P],
      Gives (rejectIf P tooManyEntities : Paid PUnit) (fun _ => ¬P) (· ≠ lost) :=
    fun P _ => Gives.rejectIf fun _ => hunpaid tooManyEntities rfl
  refine (hcharge _).bind fun _ _ => (hreject _).bind fun _ _ => ?_
  refine (Gives.of (Q := fun gathered => gather s orders ready = .ok gathered)
    (fun _ h => h) (keeps_gather s orders ready)).bind fun gathered hgathered => ?_
  refine .ite (fun hempty => .pure ?_) fun _ => ?_
  · have hnil : gathered.candidates = [] := List.length_eq_zero_iff.1 hempty
    refine ⟨gathered, ∅, hgathered, ranked_rank _, ?_, ?_⟩
    · rw [hnil]
      exact optimal_nil
    · rw [hnil]
      simp [servedOf, rank]
  · refine ((gives_capture s).conseq (fun _ h => h) hunpaid).bind fun capacity hcapacity => ?_
    refine (hcharge _).bind fun _ _ => (hcharge _).bind fun _ _ => ?_
    refine ((gives_admitAll families capacity (rank gathered.candidates) lost).conseq
      (fun _ h => h) hunpaid).bind fun admitted hadmitted => ?_
    obtain ⟨S, hfilled⟩ := hadmitted
    refine ((gives_report capacity admitted _ _).conseq (fun _ h => h) hunpaid).bind
      fun selection hready => (hcharge _).bind fun _ _ => .pure ?_
    refine ⟨gathered, S, hgathered, ranked_rank _,
      optimal_of_best distinct hcapacity hfilled.best, ?_⟩
    refine (List.perm_insertionSort _ _).trans ?_
    rw [hready, servedOf_eq hfilled]

end ProductionCapacity

/-! ## The shared workforce -/

namespace Workforce

open Service

def trade : Trade := ⟨families, works, qualifies⟩

theorem distinct : trade.Distinct := by
  unfold Trade.Distinct
  decide

theorem lost_lost : Lost lost := ⟨rfl, by decide⟩

/-- A capture that succeeds found no mismatched identity. -/
theorem foldl_of_foldlM {s : WorldSnapshot} {entries : List (EntityId × EntityRecord)}
    {start capacity : Capacity} (h : entries.foldlM (captureEntry s) start = .ok capacity) :
    entries.foldl (Capacity.captureRecord families (works s.tick) (qualifies s.tick) s.tick) start =
      capacity := by
  induction entries generalizing start with
  | nil => exact Except.ok.inj h
  | cons entry entries ih =>
      rw [List.foldlM_cons] at h
      unfold captureEntry at h
      by_cases hid : entry.2.id ≠ entry.1
      · rw [if_pos hid] at h
        cases h
      · rw [if_neg hid] at h
        exact ih h

theorem keeps_captureEntry (s : WorldSnapshot) (capacity : Capacity)
    (entry : EntityId × EntityRecord) : Keeps lost (captureEntry s capacity entry) := by
  intro e he
  unfold captureEntry at he
  by_cases hid : entry.2.id ≠ entry.1
  · rw [if_pos hid] at he
    rw [← Except.error.inj he]
    decide
  · rw [if_neg hid] at he
    cases he

theorem gives_capture (s : WorldSnapshot) : Gives (capture s)
    (Captures trade s.tick s.graph.entities.toList) (· ≠ lost) := by
  refine (Gives.rejectIf fun _ => by decide).bind fun _ _ => ?_
  refine ((gives_charge _).conseq (fun _ h => h) fun _ he => ne_of_unpaid rfl he).bind
    fun _ _ => .of (fun capacity hcapacity => ?_) (keeps_foldlM (keeps_captureEntry s) _ _)
  rw [← foldl_of_foldlM hcapacity]
  exact captures_foldl s.tick s.graph.entities.keys_nodup

/-! ### What is gathered -/

/-- Nothing is served yet. -/
structure Gathering.Bare (gathering : Gathering) : Prop where
  digs : gathering.selection.digs = .nil
  buildings : gathering.selection.buildings = .nil
  assignments : gathering.selection.assignments = []

/-- The gate of one of the orders failed with this error. -/
def GateFails (s : WorldSnapshot) (timeline : Timeline) (e : DfmcpError) : Prop :=
  ∃ order ∈ timeline.orders, ∃ w w', exec (timeline.gate s order) w = (.error e, w')

theorem Gathering.Bare.count {gathering : Gathering} (h : gathering.Bare) : gathering.count.Bare :=
  ⟨h.digs, h.buildings, h.assignments⟩

theorem bare_gatherDigs {s : WorldSnapshot} {gathering after : Gathering} {dig : EntityId × Nat}
    (hbare : gathering.Bare) (h : gatherDigs s gathering dig = .ok after) : after.Bare := by
  unfold gatherDigs at h
  by_cases hpending : dig.2 = 0
  · rw [if_pos hpending] at h
    exact Except.ok.inj h ▸ hbare
  · rw [if_neg hpending] at h
    obtain ⟨record, _, h⟩ := bind_ok_iff.1 h
    obtain ⟨partialTicks, _, h⟩ := bind_ok_iff.1 h
    exact Except.ok.inj h ▸ ⟨hbare.digs, hbare.buildings, hbare.assignments⟩

theorem bare_gatherBuildings {s : WorldSnapshot} {gathering after : Gathering} {id : EntityId}
    (hbare : gathering.Bare) (h : gatherBuildings s gathering id = .ok after) : after.Bare := by
  obtain ⟨active, _, h⟩ := bind_ok_iff.1 h
  cases active with
  | false => exact Except.ok.inj h ▸ hbare
  | true =>
      obtain ⟨record, _, h⟩ := bind_ok_iff.1 h
      obtain ⟨partialTicks, _, h⟩ := bind_ok_iff.1 h
      exact Except.ok.inj h ▸ ⟨hbare.digs, hbare.buildings, hbare.assignments⟩

theorem bare_gatherReady {s : WorldSnapshot} {gathering after : Gathering} {order : TimelineOrder}
    {index : ℕ} (hbare : gathering.Bare) (h : gatherReady s gathering order index = .ok after) :
    after.Bare := by
  unfold gatherReady at h
  cases hfamily : orderFamily order.job with
  | none =>
      rw [hfamily] at h
      exact Except.ok.inj h ▸ ⟨hbare.digs, hbare.buildings, hbare.assignments⟩
  | some family =>
      rw [hfamily] at h
      obtain ⟨record, _, h⟩ := bind_ok_iff.1 h
      obtain ⟨partialTicks, _, h⟩ := bind_ok_iff.1 h
      exact Except.ok.inj h ▸ ⟨hbare.digs, hbare.buildings, hbare.assignments⟩

/-- What each step of a fold keeps holds after it. -/
theorem foldlM_keeps {α β : Type} {f : β → α → Result β} {inv : β → Prop} {l : List α} {b after : β}
    (hf : ∀ b a after, inv b → f b a = .ok after → inv after) (hb : inv b)
    (h : l.foldlM f b = .ok after) : inv after := by
  induction l generalizing b with
  | nil => exact Except.ok.inj h ▸ hb
  | cons a l ih =>
      rw [List.foldlM_cons] at h
      obtain ⟨next, hnext, h⟩ := bind_ok_iff.1 h
      exact ih (hf b a next hb hnext) h

theorem keeps_gatherDigs (s : WorldSnapshot) (gathering : Gathering) (dig : EntityId × Nat) :
    Keeps lost (gatherDigs s gathering dig) := by
  unfold gatherDigs
  by_cases hpending : dig.2 = 0
  · rw [if_pos hpending]
    exact keeps_ok _
  · rw [if_neg hpending]
    exact keeps_progress lost_lost s _ _ fun _ => keeps_ok _

theorem keeps_gatherBuildings (s : WorldSnapshot) (gathering : Gathering) (id : EntityId) :
    Keeps lost (gatherBuildings s gathering id) := by
  refine ((keeps_entity lost_lost s id).bind fun _ => keeps_ok _).bind fun active => ?_
  cases active with
  | false => exact keeps_ok _
  | true => exact keeps_progress lost_lost s _ _ fun _ => keeps_ok _

theorem keeps_gatherReady (s : WorldSnapshot) (gathering : Gathering) (order : TimelineOrder)
    (index : ℕ) : Keeps lost (gatherReady s gathering order index) := by
  unfold gatherReady
  cases orderFamily order.job with
  | none => exact keeps_ok _
  | some family => exact keeps_progress lost_lost s _ _ fun _ => keeps_ok _

/-- What a computation gives is what one of its runs returns. -/
theorem gives_exec {α : Type} (x : Paid α) :
    Gives x (fun a => ∃ w w', exec x w = (.ok a, w')) fun e => ∃ w w', exec x w = (.error e, w') := by
  intro w _
  cases hout : exec x w with
  | mk result w' =>
      cases result with
      | ok a => exact ⟨w, w', hout⟩
      | error e => exact ⟨w, w', hout⟩

theorem gives_gatherOrders {s : WorldSnapshot} {timeline : Timeline}
    (entries : List (TimelineOrder × ℕ)) (hentries : ∀ entry ∈ entries, entry.1 ∈ timeline.orders)
    {gathering : Gathering} (hbare : gathering.Bare) :
    Gives (gatherOrders s timeline entries gathering) Gathering.Bare
      fun e => e ≠ lost ∨ GateFails s timeline e := by
  induction entries generalizing gathering with
  | nil => exact .pure hbare
  | cons entry rest ih =>
      obtain ⟨order, index⟩ := entry
      have horder : order ∈ timeline.orders := hentries _ List.mem_cons_self
      have hrest : ∀ entry ∈ rest, entry.1 ∈ timeline.orders :=
        fun entry hentry => hentries entry (List.mem_cons_of_mem _ hentry)
      have hactive : Keeps lost (activeOrder s order.id) :=
        (keeps_entity lost_lost s order.id).bind fun _ => keeps_ok _
      refine (Gives.of (Q := fun _ => True) (fun _ _ => trivial)
        fun e he => .inl (hactive e he)).bind fun active _ => ?_
      refine .ite (fun _ => ih hrest hbare) fun _ => ?_
      have hcounted : (if (orderFamily order.job).isSome then gathering.count
          else gathering).Bare := by
        by_cases hfamily : (orderFamily order.job).isSome = true
        · rw [if_pos hfamily]
          exact hbare.count
        · rw [if_neg hfamily]
          exact hbare
      refine ((gives_exec (timeline.gate s order)).conseq (fun _ h => h)
        fun e he => .inr ⟨order, horder, he⟩).bind fun gate _ => ?_
      cases gate with
      | ready =>
          refine (Gives.of (Q := Gathering.Bare) (fun _ h => bare_gatherReady hcounted h)
            fun e he => .inl (keeps_gatherReady s _ order index e he)).bind fun gathered hgathered => ?_
          exact ih hrest hgathered
      | blocked reason =>
          exact ih hrest ⟨hcounted.digs, hcounted.buildings, hcounted.assignments⟩

theorem gives_gather (s : WorldSnapshot) (timeline : Timeline) (capacity : Capacity) :
    Gives (gather s timeline capacity) Gathering.Bare
      fun e => e ≠ lost ∨ GateFails s timeline e := by
  refine (Gives.of (Q := Gathering.Bare)
    (fun _ h => foldlM_keeps (fun _ _ _ => bare_gatherDigs) ⟨rfl, rfl, rfl⟩ h)
    fun e he => .inl (keeps_foldlM (keeps_gatherDigs s) _ _ e he)).bind fun digs hdigs => ?_
  refine (Gives.of (Q := Gathering.Bare)
    (fun _ h => foldlM_keeps (fun _ _ _ => bare_gatherBuildings) hdigs h)
    fun e he => .inl (keeps_foldlM (keeps_gatherBuildings s) _ _ e he)).bind
      fun buildings hbuildings => ?_
  exact gives_gatherOrders _ (fun entry hentry => List.fst_mem_of_mem_zipIdx hentry) hbuildings

/-! ### What is reported -/

/-- The order of a candidate that is one. -/
def Activity.order? : Activity → Option ℕ
  | .order index => some index
  | _ => none

/-- The report of these candidates as served, each by its worker. -/
structure Reports (worker : ℕ → EntityId) (taken : List (Candidate Activity × ℕ))
    (start selection : Selection) : Prop where
  ready : selection.ready = start.ready ++ taken.filterMap fun x => x.1.work.order?
  assignments : selection.assignments = start.assignments ++
    taken.map fun x => ⟨x.1.id, worker x.2, labor x.1.family⟩
  digs : ∀ id, selection.digs.contains id = true ↔
    start.digs.contains id = true ∨ ∃ x ∈ taken, x.1.work = .dig ∧ x.1.id = id
  buildings : ∀ id, selection.buildings.contains id = true ↔
    start.buildings.contains id = true ∨ ∃ x ∈ taken, x.1.work = .building ∧ x.1.id = id

variable {worker : ℕ → EntityId} {taken : List (Candidate Activity × ℕ)}
  {start selection : Selection}

theorem Reports.nil : Reports worker [] start start where
  ready := by simp
  assignments := by simp
  digs := fun _ => by simp
  buildings := fun _ => by simp

theorem served_digs (candidate : Candidate Activity) (w id : EntityId) :
    (served start candidate w).digs.contains id = true ↔
      start.digs.contains id = true ∨ candidate.work = .dig ∧ candidate.id = id := by
  cases hwork : candidate.work with
  | dig =>
      simp only [served, hwork, OMap.contains_insert, Bool.or_eq_true, decide_eq_true_eq, true_and]
      rw [or_comm, @eq_comm _ id]
  | building => simp [served, hwork]
  | order index => simp [served, hwork]

theorem served_buildings (candidate : Candidate Activity) (w id : EntityId) :
    (served start candidate w).buildings.contains id = true ↔
      start.buildings.contains id = true ∨ candidate.work = .building ∧ candidate.id = id := by
  cases hwork : candidate.work with
  | building =>
      simp only [served, hwork, OMap.contains_insert, Bool.or_eq_true, decide_eq_true_eq, true_and]
      rw [or_comm, @eq_comm _ id]
  | dig => simp [served, hwork]
  | order index => simp [served, hwork]

theorem Reports.served {candidate : Candidate Activity} {index : ℕ}
    (h : Reports worker taken (served start candidate (worker index)) selection) :
    Reports worker ((candidate, index) :: taken) start selection := by
  obtain ⟨hready, hassignments, hdigs, hbuildings⟩ := h
  refine ⟨hready.trans ?_, hassignments.trans ?_, fun id => (hdigs id).trans ?_,
    fun id => (hbuildings id).trans ?_⟩
  · cases hwork : candidate.work <;> simp [Workforce.served, hwork, Activity.order?]
  · cases hwork : candidate.work <;> simp [Workforce.served, hwork]
  · rw [served_digs, or_assoc, List.exists_mem_cons_iff]
  · rw [served_buildings, or_assoc, List.exists_mem_cons_iff]

theorem Reports.unserved {candidate : Candidate Activity} {reason : String}
    (h : Reports worker taken (unserved start candidate reason) selection) :
    Reports worker taken start selection :=
  ⟨h.ready, h.assignments, h.digs, h.buildings⟩

/-- Who serves a candidate. -/
def workerOf (capacity : Capacity) (admitted : Service.Admitted) (p : ℕ) : EntityId :=
  capacity.workers.getD ((admitted.seats.assigned p).getD 0) 0

theorem gives_report (capacity : Capacity) (admitted : Service.Admitted)
    (candidates : List (Candidate Activity × ℕ)) (start : Selection) :
    Gives (report capacity admitted candidates start)
      (Reports (workerOf capacity admitted)
        (candidates.filter fun x => (admitted.seats.assigned x.2).isSome) start) Unpaid := by
  induction candidates generalizing start with
  | nil => exact .pure .nil
  | cons entry rest ih =>
      obtain ⟨candidate, index⟩ := entry
      refine (gives_charge 1).bind fun _ _ => ?_
      rw [List.filter_cons]
      cases hassigned : admitted.seats.assigned index with
      | none => exact (ih _).conseq (fun _ h => by simpa [hassigned] using h.unserved) fun _ he => he
      | some w =>
          have hworker : capacity.workers.getD w 0 = workerOf capacity admitted index := by
            rw [workerOf, hassigned, Option.getD_some]
          dsimp only
          rw [hworker]
          exact (ih _).conseq (fun _ h => by simpa [hassigned] using h.served) fun _ he => he

/-- **What the shared workforce serves**: an optimal set of the gathered candidates, each with a
worker of its own who can do it, beside the orders that need none. -/
structure Serves (s : WorldSnapshot) (gathered : Gathering) (selection : Selection) (S : Finset ℕ)
    (worker : ℕ → EntityId) : Prop where
  ranked : Ranked gathered.candidates (rank gathered.candidates)
  optimal : Optimal trade s (rank gathered.candidates) S
  alone : Set.InjOn worker S
  works : ∀ p ∈ S, (s.graph.entities.get? (worker p)).any
    (trade.canWork s.tick (familyAt (rank gathered.candidates) p)) = true
  assignments : selection.assignments.Perm ((servedOf (rank gathered.candidates) S).map
    fun x => ⟨x.1.id, worker x.2, labor x.1.family⟩)
  ready : selection.ready.Perm (gathered.selection.ready ++
    (servedOf (rank gathered.candidates) S).filterMap fun x => x.1.work.order?)
  digs : ∀ id, selection.digs.contains id = true ↔
    ∃ x ∈ servedOf (rank gathered.candidates) S, x.1.work = .dig ∧ x.1.id = id
  buildings : ∀ id, selection.buildings.contains id = true ↔
    ∃ x ∈ servedOf (rank gathered.candidates) S, x.1.work = .building ∧ x.1.id = id

theorem gives_select (s : WorldSnapshot) (timeline : Timeline) :
    Gives (select s timeline) (fun selection => ∃ capacity gathered S worker,
      (∃ w w', exec (gather s timeline capacity) w = (.ok gathered, w')) ∧
        Serves s gathered selection S worker)
      fun e => e ≠ lost ∨ GateFails s timeline e := by
  have hunpaid : ∀ e, Unpaid e → e ≠ lost ∨ GateFails s timeline e :=
    fun e he => .inl (ne_of_unpaid rfl he)
  have hcharge : ∀ n, Gives (charge n) (fun _ => True)
      fun e => e ≠ lost ∨ GateFails s timeline e :=
    fun n => (gives_charge n).conseq (fun _ h => h) hunpaid
  refine ((gives_capture s).conseq (fun _ h => h) fun e he => .inl he).bind
    fun capacity hcapacity => (hcharge _).bind fun _ _ => ?_
  refine (((gives_gather s timeline capacity).and (gives_exec _)).conseq (fun _ h => h)
    fun e he => he.1).bind fun gathered hgathered => (hcharge _).bind fun _ _ => ?_
  obtain ⟨hbare, hexec⟩ := hgathered
  refine ((gives_admitAll families capacity (rank gathered.candidates) lost).conseq
    (fun _ h => h) hunpaid).bind fun admitted hadmitted => ?_
  obtain ⟨S, hfilled⟩ := hadmitted
  refine ((gives_report capacity admitted _ _).conseq (fun _ h => h) hunpaid).bind
    fun selection hreports => (hcharge _).bind fun _ _ => .pure ?_
  rw [← servedOf_eq hfilled] at hreports
  have hassigned : ∀ p ∈ S, ∃ w, admitted.seats.assigned p = some w :=
    fun p hp => Option.isSome_iff_exists.1 ((hfilled.assigned_iff p).2 hp)
  have hworkers := @workers_of_seats _ _ _ _ (rank gathered.candidates) S hcapacity
    (fun p => (admitted.seats.assigned p).getD 0)
    (fun p hp q hq heq => ?_) fun p hp => ?_
  · refine ⟨capacity, gathered, S, workerOf capacity admitted, hexec,
      { ranked := ranked_rank _
        optimal := optimal_of_best distinct hcapacity hfilled.best
        alone := hworkers.1
        works := hworkers.2
        assignments := (List.perm_insertionSort _ _).trans (.of_eq ?_)
        ready := (List.perm_insertionSort _ _).trans (.of_eq hreports.ready)
        digs := fun id => (hreports.digs id).trans ?_
        buildings := fun id => (hreports.buildings id).trans ?_ }⟩
    · rw [hreports.assignments, hbare.assignments, List.nil_append]
    · rw [hbare.digs]
      exact or_iff_right nofun
    · rw [hbare.buildings]
      exact or_iff_right nofun
  · obtain ⟨w, hw⟩ := hassigned p hp
    obtain ⟨w', hw'⟩ := hassigned q hq
    dsimp only at heq
    rw [hw, hw', Option.getD_some, Option.getD_some] at heq
    rw [hfilled.holds.inverse, heq] at hw
    rw [hfilled.holds.inverse] at hw'
    exact Option.some.inj (hw.symm.trans hw')
  · obtain ⟨w, hw⟩ := hassigned p hp
    rw [hw, Option.getD_some]
    exact hfilled.holds.matching.offered _ _ ((hfilled.holds.inverse p w).1 hw)

end Workforce

/-! ## The theorem -/

end Dfmcp
