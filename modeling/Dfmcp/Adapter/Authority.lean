import Dfmcp.Core.Context

/-!
# Delegated authority

`live_dispatch/durable/authority.rs`: the grants of a call, intersected with the grants the dispatch
was opened under. Every grant of the call meets every opening grant, dimension by dimension. A
dimension without a restriction takes the other's; a dimension in which nothing is left drops the
pair, since an empty set of entities and an absent area would stand for everything.

* `meetEntities_permits`, `meetArea_permits`, `meetCapability_matches` — one dimension;
* `meet_allows` — a pair of grants;
* `intersect_allows_iff` — the grants of a call and of the opening.
-/

namespace Dfmcp

open Machine

namespace RiskTier

/-- `Ord::min`. -/
def min (a b : RiskTier) : RiskTier := if a ≤ b then a else b

theorem le_min_iff (risk a b : RiskTier) : risk ≤ a.min b ↔ risk ≤ a ∧ risk ≤ b := by
  change risk.rank ≤ (a.min b).rank ↔ risk.rank ≤ a.rank ∧ risk.rank ≤ b.rank
  unfold min
  split_ifs with h
  · have hrank : a.rank ≤ b.rank := h
    omega
  · have hrank : ¬ a.rank ≤ b.rank := h
    omega

end RiskTier

namespace Authority

def maxGrants : Nat := 64
def maxScopeEntities : Nat := 4096

def bounded : DfmcpError :=
  .new .budgetExceeded
    "durable live dispatch exhausted its original bounded operation or retention allowance"

/-! ## The meet of two grants -/

def meetCapability (current retained : Capability) : Option Capability :=
  if current = retained then some current
  else if current = .admin then some retained
  else if retained = .admin then some current
  else none

theorem contains_filter (m : BTreeSet EntityId) (p : EntityId → Bool) (q : EntityId) :
    (m.filter fun id _ => p id).contains q = (m.contains q && p q) := by
  rw [OMap.contains, OMap.contains, OMap.get?_filter]
  cases m.get? q with
  | none => rfl
  | some w => cases hp : p q <;> simp [Option.filter]

theorem size_filter_le (m : BTreeSet EntityId) (p : EntityId → Unit → Bool) :
    (m.filter p).size ≤ m.size := by
  refine OMap.size_le_of_subset fun q hq => ?_
  obtain ⟨w, hw⟩ := (OMap.contains_iff _ _).1 hq
  rw [OMap.get?_filter, Option.filter_eq_some_iff] at hw
  exact (OMap.contains_iff _ _).2 ⟨w, hw.1⟩

/-- Empty means unrestricted, so an empty intersection removes the entire grant instead. -/
def meetEntities (current retained : CapabilityScope) :
    Option { ids : BTreeSet EntityId // ids.size < 2 ^ 64 } :=
  if current.entityIds.size = 0 then some ⟨retained.entityIds, retained.fits⟩
  else if retained.entityIds.size = 0 then some ⟨current.entityIds, current.fits⟩
  else if (current.entityIds.filter fun id _ => retained.entityIds.contains id).size = 0 then none
  else some ⟨current.entityIds.filter fun id _ => retained.entityIds.contains id,
    (size_filter_le _ _).trans_lt current.fits⟩

/-- The tiles of both cuboids, if there are any. -/
def overlap (a b : MapCuboid) : Result MapCuboid :=
  MapCuboid.new ⟨max a.min.x b.min.x, max a.min.y b.min.y, max a.min.z b.min.z⟩
    ⟨min a.max.x b.max.x, min a.max.y b.max.y, min a.max.z b.max.z⟩

/-- The area to use, if one is left. -/
def meetArea : Option MapCuboid → Option MapCuboid → Option (Option MapCuboid)
  | some a, some b =>
      match overlap a b with
      | .ok area => some (some area)
      | .error _ => none
  | some area, none => some (some area)
  | none, some area => some (some area)
  | none, none => some none

def meetExpiry : Option GameTick → Option GameTick → Option GameTick
  | some a, some b => some (min a b)
  | some tick, none => some tick
  | none, some tick => some tick
  | none, none => none

/-- A grant that is for another fortress, or whose area is no cuboid. -/
def misplaced (fortressId : FortressId) (grant : CapabilityGrant) : Bool :=
  grant.scope.fortressId.any (· ≠ fortressId) ||
    grant.scope.mapArea.any fun area => !(MapCuboid.new area.min area.max).isOk

/-- What two grants allow together. A limited grant would have its uses replayed. -/
def meet (fortressId : FortressId) (current retained : CapabilityGrant) : Option CapabilityGrant :=
  if current.isLimited ∨ retained.isLimited then none
  else do
    let capability ← meetCapability current.capability retained.capability
    if misplaced fortressId current ∨ misplaced fortressId retained then none
    else do
      let entityIds ← meetEntities current.scope retained.scope
      let mapArea ← meetArea current.scope.mapArea retained.scope.mapArea
      some ⟨capability, ⟨some fortressId, entityIds.1, mapArea, entityIds.2⟩,
        current.maxRisk.min retained.maxRisk,
        meetExpiry current.expiresAtTick retained.expiresAtTick, none⟩

/-! ## All pairs -/

def push (out : List CapabilityGrant) (grant : CapabilityGrant) : Result (List CapabilityGrant) :=
  if grant ∈ out then .ok out
  else if out.length = maxGrants then .error bounded
  else .ok (out ++ [grant])

def intersectOne (fortressId : FortressId) (current : CapabilityGrant) :
    List CapabilityGrant → List CapabilityGrant → Result (List CapabilityGrant)
  | [], out => .ok out
  | retained :: rest, out =>
      match meet fortressId current retained with
      | none => intersectOne fortressId current rest out
      | some grant => do
          let out ← push out grant
          intersectOne fortressId current rest out

def intersectAll (fortressId : FortressId) (opening : List CapabilityGrant) :
    List CapabilityGrant → List CapabilityGrant → Result (List CapabilityGrant)
  | [], out => .ok out
  | current :: rest, out => do
      let out ← intersectOne fortressId current opening out
      intersectAll fortressId opening rest out

/-- The grants of a call under the grants of its opening. -/
def intersect (c : OperationContext) (opening : List CapabilityGrant) :
    Result (List CapabilityGrant) :=
  if c.grants.length > maxGrants ∨ opening.length > maxGrants ∨
      (c.grants ++ opening).any fun grant => grant.scope.entityIds.size > maxScopeEntities then
    .error bounded
  else intersectAll c.anchor.fortressId opening c.grants []

/-! ## What each dimension allows -/

section Dimensions

theorem meetCapability_matches (a b capability : Capability) :
    (∃ c, meetCapability a b = some c ∧ (c = capability ∨ c = .admin)) ↔
      (a = capability ∨ a = .admin) ∧ (b = capability ∨ b = .admin) := by
  unfold meetCapability
  split_ifs with hab ha hb
  · subst hab
    simp
  · subst ha
    simp
  · subst hb
    simp
  · constructor
    · rintro ⟨c, hc, _⟩
      cases hc
    · rintro ⟨ha' | ha', hb' | hb'⟩
      · exact absurd (ha'.trans hb'.symm) hab
      · exact absurd hb' hb
      · exact absurd ha' ha
      · exact absurd ha' ha

theorem meetExpiry_le (a b : Option GameTick) (tick : GameTick) :
    (∀ expiresAt, meetExpiry a b = some expiresAt → tick ≤ expiresAt) ↔
      (∀ expiresAt, a = some expiresAt → tick ≤ expiresAt) ∧
        ∀ expiresAt, b = some expiresAt → tick ≤ expiresAt := by
  cases a <;> cases b <;> simp [meetExpiry]

/-- What a set of entities permits: everything, when it is empty. -/
def PermitsEntities (ids : BTreeSet EntityId) (entityIds : List EntityId) : Prop :=
  ids.size ≠ 0 → entityIds ≠ [] ∧ ∀ id ∈ entityIds, ids.contains id = true

theorem meetEntities_permits (a b : CapabilityScope) (entityIds : List EntityId) :
    (∃ ids, meetEntities a b = some ids ∧ PermitsEntities ids.1 entityIds) ↔
      PermitsEntities a.entityIds entityIds ∧ PermitsEntities b.entityIds entityIds := by
  unfold meetEntities PermitsEntities
  split_ifs with ha hb hempty
  · simp [ha]
  · simp [hb]
  · constructor
    · rintro ⟨ids, hids, _⟩
      cases hids
    · rintro ⟨hpa, hpb⟩
      obtain ⟨hne, halla⟩ := hpa ha
      obtain ⟨id, hid⟩ := List.exists_mem_of_ne_nil _ hne
      have hnone := (OMap.size_eq_zero_iff _).1 hempty id
      rw [contains_filter, halla id hid, (hpb hb).2 id hid] at hnone
      cases hnone
  · constructor
    · rintro ⟨ids, hids, hpermits⟩
      obtain rfl := Option.some.inj hids
      obtain ⟨hne, hall⟩ := hpermits hempty
      have hboth : ∀ id ∈ entityIds, a.entityIds.contains id = true ∧
          b.entityIds.contains id = true := fun id hid => by
        have := hall id hid
        rwa [contains_filter, Bool.and_eq_true] at this
      exact ⟨fun _ => ⟨hne, fun id hid => (hboth id hid).1⟩,
        fun _ => ⟨hne, fun id hid => (hboth id hid).2⟩⟩
    · rintro ⟨hpa, hpb⟩
      refine ⟨_, rfl, fun _ => ⟨(hpa ha).1, fun id hid => ?_⟩⟩
      rw [contains_filter, (hpa ha).2 id hid, (hpb hb).2 id hid]
      rfl

/-- What an area permits: everything, when there is none. -/
def PermitsArea (area mapArea : Option MapCuboid) : Prop :=
  ∀ allowed, area = some allowed → ∃ requested, mapArea = some requested ∧
    allowed.containsCuboid requested = true

/-- One side of a cuboid, and where it overlaps another. -/
theorem contains_overlap (a b : MapCuboid) (coord : MapCoord) :
    MapCuboid.contains ⟨⟨max a.min.x b.min.x, max a.min.y b.min.y, max a.min.z b.min.z⟩,
      ⟨min a.max.x b.max.x, min a.max.y b.max.y, min a.max.z b.max.z⟩⟩ coord = true ↔
      a.contains coord = true ∧ b.contains coord = true := by
  simp only [MapCuboid.contains, Bool.and_eq_true, decide_eq_true_eq, ge_iff_le, max_le_iff,
    le_min_iff]
  tauto

/-- A cuboid that contains a coordinate is one. -/
theorem new_of_contains {min max coord : MapCoord}
    (h : MapCuboid.contains ⟨min, max⟩ coord = true) : MapCuboid.new min max = .ok ⟨min, max⟩ := by
  simp only [MapCuboid.contains, Bool.and_eq_true, decide_eq_true_eq, ge_iff_le] at h
  obtain ⟨⟨⟨⟨⟨hx, hx'⟩, hy⟩, hy'⟩, hz⟩, hz'⟩ := h
  unfold MapCuboid.new
  rw [if_neg]
  rintro (hlt | hlt | hlt)
  · exact absurd (hx.trans hx') (not_le.2 hlt)
  · exact absurd (hy.trans hy') (not_le.2 hlt)
  · exact absurd (hz.trans hz') (not_le.2 hlt)

theorem meetArea_permits (a b mapArea : Option MapCuboid) :
    (∃ area, meetArea a b = some area ∧ PermitsArea area mapArea) ↔
      PermitsArea a mapArea ∧ PermitsArea b mapArea := by
  cases a with
  | none => cases b <;> simp [meetArea, PermitsArea]
  | some a =>
      cases b with
      | none => simp [meetArea, PermitsArea]
      | some b =>
          constructor
          · rintro ⟨area, harea, hpermits⟩
            cases hoverlap : overlap a b with
            | error e =>
                simp only [meetArea, hoverlap] at harea
                cases harea
            | ok both =>
                simp only [meetArea, hoverlap] at harea
                obtain rfl := Option.some.inj harea
                obtain ⟨requested, hrequested, hcontains⟩ := hpermits both rfl
                unfold overlap MapCuboid.new at hoverlap
                split_ifs at hoverlap
                obtain rfl := Except.ok.inj hoverlap
                rw [MapCuboid.containsCuboid, Bool.and_eq_true, contains_overlap,
                  contains_overlap] at hcontains
                obtain ⟨⟨hamin, hbmin⟩, hamax, hbmax⟩ := hcontains
                refine ⟨fun allowed hallowed => ⟨requested, hrequested, ?_⟩,
                  fun allowed hallowed => ⟨requested, hrequested, ?_⟩⟩
                · rw [← Option.some.inj hallowed, MapCuboid.containsCuboid, hamin, hamax]
                  rfl
                · rw [← Option.some.inj hallowed, MapCuboid.containsCuboid, hbmin, hbmax]
                  rfl
          · rintro ⟨hpa, hpb⟩
            obtain ⟨requested, hrequested, ha⟩ := hpa a rfl
            obtain ⟨requested', hrequested', hb⟩ := hpb b rfl
            obtain rfl := Option.some.inj (hrequested.symm.trans hrequested')
            rw [MapCuboid.containsCuboid, Bool.and_eq_true] at ha hb
            have hmin := (contains_overlap a b requested.min).2 ⟨ha.1, hb.1⟩
            have hmax := (contains_overlap a b requested.max).2 ⟨ha.2, hb.2⟩
            have hoverlap : overlap a b = .ok _ := new_of_contains hmin
            simp only [meetArea, hoverlap]
            refine ⟨_, rfl, fun allowed hallowed => ?_⟩
            rw [← Option.some.inj hallowed]
            refine ⟨requested, hrequested, ?_⟩
            rw [MapCuboid.containsCuboid, hmin, hmax]
            rfl

end Dimensions

/-! ## What the grants allow -/

section Grants

variable {fortressId : FortressId} {capability : Capability} {risk : RiskTier} {tick : GameTick}
  {entityIds : List EntityId} {mapArea : Option MapCuboid} {current retained : CapabilityGrant}

theorem permits_iff (scope : CapabilityScope) :
    scope.permits fortressId entityIds mapArea = true ↔
      (∀ id, scope.fortressId = some id → id = fortressId) ∧
        PermitsEntities scope.entityIds entityIds ∧ PermitsArea scope.mapArea mapArea := by
  have hplace : scope.fortressId.any (· ≠ fortressId) = true ↔
      ¬ ∀ id, scope.fortressId = some id → id = fortressId := by
    cases scope.fortressId <;> simp
  have hentities : (scope.entityIds.size ≠ 0 ∧ (entityIds = [] ∨
      (entityIds.any fun entityId => !scope.entityIds.contains entityId) = true)) ↔
      ¬ PermitsEntities scope.entityIds entityIds := by
    unfold PermitsEntities
    rw [Classical.not_imp, Decidable.not_and_iff_not_or_not, ne_eq, not_not]
    refine and_congr_right fun _ => or_congr_right ?_
    simp only [List.any_eq_true, Bool.not_eq_true', not_forall, Bool.not_eq_true, exists_prop]
  unfold CapabilityScope.permits
  by_cases hf : ∀ id, scope.fortressId = some id → id = fortressId
  · by_cases he : PermitsEntities scope.entityIds entityIds
    · rw [if_neg fun h => hplace.1 h hf, if_neg fun h => hentities.1 h he]
      rw [and_iff_right hf, and_iff_right he]
      unfold PermitsArea
      cases scope.mapArea <;> cases mapArea <;> simp
    · rw [if_neg fun h => hplace.1 h hf, if_pos (hentities.2 he)]
      exact ⟨fun h => absurd h Bool.false_ne_true, fun h => absurd h.2.1 he⟩
  · rw [if_pos (hplace.2 hf)]
    exact ⟨fun h => absurd h Bool.false_ne_true, fun h => absurd h.1 hf⟩

/-- What an unlimited grant allows. -/
theorem allows_iff {grant : CapabilityGrant} (h : grant.isLimited = false) :
    grant.allows capability risk tick fortressId entityIds mapArea = true ↔
      (grant.capability = capability ∨ grant.capability = .admin) ∧ risk ≤ grant.maxRisk ∧
        (∀ expiresAt, grant.expiresAtTick = some expiresAt → tick ≤ expiresAt) ∧
          (∀ id, grant.scope.fortressId = some id → id = fortressId) ∧
            PermitsEntities grant.scope.entityIds entityIds ∧
              PermitsArea grant.scope.mapArea mapArea := by
  have huses : grant.remainingUses = none := Option.not_isSome_iff_eq_none.1 (by
    rw [← CapabilityGrant.isLimited, h]
    exact Bool.false_ne_true)
  unfold CapabilityGrant.allows
  rw [huses]
  cases grant.expiresAtTick with
  | none => simp [permits_iff, and_assoc]
  | some expiresAt => simp [permits_iff, and_assoc]

/-- A grant that allows a request of the fortress is in its place. -/
theorem misplaced_eq_false (hplace : ∀ id, current.scope.fortressId = some id → id = fortressId)
    (harea : PermitsArea current.scope.mapArea mapArea) :
    misplaced fortressId current = false := by
  unfold misplaced
  rw [Bool.or_eq_false_iff]
  constructor
  · cases hf : current.scope.fortressId with
    | none => rfl
    | some id => simp [hplace id hf]
  · cases ha : current.scope.mapArea with
    | none => rfl
    | some area =>
        obtain ⟨requested, _, hcontains⟩ := harea area ha
        rw [MapCuboid.containsCuboid, Bool.and_eq_true] at hcontains
        simp [new_of_contains hcontains.1, Except.isOk, Except.toBool]

theorem eq_of_not_misplaced (h : misplaced fortressId current = false) :
    ∀ id, current.scope.fortressId = some id → id = fortressId := by
  intro id hid
  unfold misplaced at h
  rw [hid, Bool.or_eq_false_iff] at h
  simpa using h.1

/-- What the meet of two grants is made of. -/
theorem meet_eq_some {grant : CapabilityGrant}
    (h : meet fortressId current retained = some grant) :
    current.isLimited = false ∧ retained.isLimited = false ∧ ∃ c ids area,
      meetCapability current.capability retained.capability = some c ∧
      ((∀ id, current.scope.fortressId = some id → id = fortressId) ∧
        ∀ id, retained.scope.fortressId = some id → id = fortressId) ∧
      meetEntities current.scope retained.scope = some ids ∧
      meetArea current.scope.mapArea retained.scope.mapArea = some area ∧
      grant = ⟨c, ⟨some fortressId, ids.1, area, ids.2⟩, current.maxRisk.min retained.maxRisk,
        meetExpiry current.expiresAtTick retained.expiresAtTick, none⟩ := by
  unfold meet at h
  split at h
  · cases h
  · next hlimited =>
      rw [not_or, Bool.not_eq_true, Bool.not_eq_true] at hlimited
      cases hc : meetCapability current.capability retained.capability with
      | none =>
          rw [hc] at h
          cases h
      | some c =>
          rw [hc] at h
          change (if misplaced fortressId current = true ∨ misplaced fortressId retained = true then
            none else _) = _ at h
          split at h
          · cases h
          · next hplaced =>
              rw [not_or, Bool.not_eq_true, Bool.not_eq_true] at hplaced
              cases hids : meetEntities current.scope retained.scope with
              | none =>
                  rw [hids] at h
                  cases h
              | some ids =>
                  cases harea : meetArea current.scope.mapArea retained.scope.mapArea with
                  | none =>
                      rw [hids, harea] at h
                      cases h
                  | some area =>
                      rw [hids, harea] at h
                      exact ⟨hlimited.1, hlimited.2, c, ids, area, rfl,
                        ⟨eq_of_not_misplaced hplaced.1, eq_of_not_misplaced hplaced.2⟩, rfl,
                        rfl, (Option.some.inj h).symm⟩

theorem meet_of {c : Capability} {ids : { ids : BTreeSet EntityId // ids.size < 2 ^ 64 }}
    {area : Option MapCuboid} (hcurrent : current.isLimited = false)
    (hretained : retained.isLimited = false)
    (hc : meetCapability current.capability retained.capability = some c)
    (hplaced : misplaced fortressId current = false)
    (hplaced' : misplaced fortressId retained = false)
    (hids : meetEntities current.scope retained.scope = some ids)
    (harea : meetArea current.scope.mapArea retained.scope.mapArea = some area) :
    meet fortressId current retained = some ⟨c, ⟨some fortressId, ids.1, area, ids.2⟩,
      current.maxRisk.min retained.maxRisk,
      meetExpiry current.expiresAtTick retained.expiresAtTick, none⟩ := by
  simp [meet, hcurrent, hretained, hc, hplaced, hplaced', hids, harea]

/-- **Two grants allow together what each of them allows.** -/
theorem meet_allows :
    (∃ grant, meet fortressId current retained = some grant ∧
      grant.allows capability risk tick fortressId entityIds mapArea = true) ↔
      (current.isLimited = false ∧
        current.allows capability risk tick fortressId entityIds mapArea = true) ∧
      retained.isLimited = false ∧
        retained.allows capability risk tick fortressId entityIds mapArea = true := by
  constructor
  · rintro ⟨grant, hmeet, hallows⟩
    obtain ⟨hcurrent, hretained, c, ids, area, hc, hplaced, hids, harea, rfl⟩ := meet_eq_some hmeet
    rw [allows_iff rfl] at hallows
    obtain ⟨hcapability, hrisk, htick, -, hentities, hmap⟩ := hallows
    obtain ⟨hca, hcb⟩ := (meetCapability_matches _ _ capability).1 ⟨c, hc, hcapability⟩
    obtain ⟨hra, hrb⟩ := (RiskTier.le_min_iff _ _ _).1 hrisk
    obtain ⟨hta, htb⟩ := (meetExpiry_le _ _ tick).1 htick
    obtain ⟨hea, heb⟩ := (meetEntities_permits _ _ entityIds).1 ⟨ids, hids, hentities⟩
    obtain ⟨hma, hmb⟩ := (meetArea_permits _ _ mapArea).1 ⟨area, harea, hmap⟩
    exact ⟨⟨hcurrent, (allows_iff hcurrent).2 ⟨hca, hra, hta, hplaced.1, hea, hma⟩⟩, hretained,
      (allows_iff hretained).2 ⟨hcb, hrb, htb, hplaced.2, heb, hmb⟩⟩
  · rintro ⟨⟨hcurrent, ha⟩, hretained, hb⟩
    rw [allows_iff hcurrent] at ha
    rw [allows_iff hretained] at hb
    obtain ⟨hca, hra, hta, hfa, hea, hma⟩ := ha
    obtain ⟨hcb, hrb, htb, hfb, heb, hmb⟩ := hb
    obtain ⟨c, hc, hcapability⟩ := (meetCapability_matches _ _ capability).2 ⟨hca, hcb⟩
    obtain ⟨ids, hids, hentities⟩ := (meetEntities_permits _ _ entityIds).2 ⟨hea, heb⟩
    obtain ⟨area, harea, hmap⟩ := (meetArea_permits _ _ mapArea).2 ⟨hma, hmb⟩
    refine ⟨_, meet_of hcurrent hretained hc (misplaced_eq_false hfa hma)
      (misplaced_eq_false hfb hmb) hids harea, (allows_iff rfl).2 ⟨hcapability, ?_, ?_, ?_, hentities,
        hmap⟩⟩
    · exact (RiskTier.le_min_iff _ _ _).2 ⟨hra, hrb⟩
    · exact (meetExpiry_le _ _ tick).2 ⟨hta, htb⟩
    · exact fun id hid => (Option.some.inj hid).symm

/-- Whether an unlimited grant of a list allows a request. -/
def Allowed (grants : List CapabilityGrant) (capability : Capability) (risk : RiskTier)
    (tick : GameTick) (fortressId : FortressId) (entityIds : List EntityId)
    (mapArea : Option MapCuboid) : Prop :=
  ∃ grant ∈ grants, grant.isLimited = false ∧
    grant.allows capability risk tick fortressId entityIds mapArea = true

/-- Every grant that was written is an unlimited one of the fortress. -/
theorem unlimited_of_meet {grant : CapabilityGrant}
    (h : meet fortressId current retained = some grant) :
    grant.isLimited = false ∧ grant.scope.fortressId = some fortressId := by
  obtain ⟨_, _, _, _, _, _, _, _, _, rfl⟩ := meet_eq_some h
  exact ⟨rfl, rfl⟩

end Grants

/-! ## All pairs -/

section Pairs

variable {fortressId : FortressId} {current : CapabilityGrant}
  {opening grants out out' : List CapabilityGrant}

theorem mem_push {grant x : CapabilityGrant} (h : push out grant = .ok out') :
    x ∈ out' ↔ x ∈ out ∨ x = grant := by
  unfold push at h
  split_ifs at h with hmem
  · obtain rfl := Except.ok.inj h
    exact ⟨.inl, fun hx => hx.elim id fun heq => heq ▸ hmem⟩
  · obtain rfl := Except.ok.inj h
    rw [List.mem_append, List.mem_singleton]

theorem mem_intersectOne {x : CapabilityGrant}
    (h : intersectOne fortressId current opening out = .ok out') :
    x ∈ out' ↔ x ∈ out ∨ ∃ retained ∈ opening, meet fortressId current retained = some x := by
  induction opening generalizing out with
  | nil =>
      obtain rfl := Except.ok.inj h
      simp
  | cons retained rest ih =>
      rw [intersectOne] at h
      cases hmeet : meet fortressId current retained with
      | none =>
          simp only [hmeet] at h
          rw [ih h]
          simp [hmeet]
      | some grant =>
          simp only [hmeet] at h
          obtain ⟨more, hpush, h⟩ := bind_ok_iff.1 h
          rw [ih h, mem_push hpush, or_assoc]
          simp [hmeet, eq_comm]

theorem mem_intersectAll {x : CapabilityGrant}
    (h : intersectAll fortressId opening grants out = .ok out') :
    x ∈ out' ↔ x ∈ out ∨
      ∃ current ∈ grants, ∃ retained ∈ opening, meet fortressId current retained = some x := by
  induction grants generalizing out with
  | nil =>
      obtain rfl := Except.ok.inj h
      simp
  | cons current rest ih =>
      obtain ⟨more, hone, h⟩ := bind_ok_iff.1 h
      rw [ih h, mem_intersectOne hone, or_assoc]
      simp

/-- The intersection holds what pairs of grants allow together. -/
theorem mem_intersect {c : OperationContext} {x : CapabilityGrant}
    (h : intersect c opening = .ok out) :
    x ∈ out ↔ ∃ current ∈ c.grants, ∃ retained ∈ opening,
      meet c.anchor.fortressId current retained = some x := by
  unfold intersect at h
  split_ifs at h
  rw [mem_intersectAll h]
  simp

/-- **The intersected grants allow exactly what both sides allow.** They are unlimited grants of the
context's fortress. -/
theorem intersect_allows_iff (c : OperationContext) (opening out : List CapabilityGrant)
    (h : intersect c opening = .ok out) :
    (∀ grant ∈ out, grant.isLimited = false ∧
      grant.scope.fortressId = some c.anchor.fortressId) ∧
    ∀ capability risk tick entityIds mapArea,
      (∃ grant ∈ out,
        grant.allows capability risk tick c.anchor.fortressId entityIds mapArea = true) ↔
        Allowed c.grants capability risk tick c.anchor.fortressId entityIds mapArea ∧
        Allowed opening capability risk tick c.anchor.fortressId entityIds mapArea := by
  refine ⟨fun grant hgrant => ?_, fun capability risk tick entityIds mapArea => ?_⟩
  · obtain ⟨current, _, retained, _, hmeet⟩ := (mem_intersect h).1 hgrant
    exact unlimited_of_meet hmeet
  · constructor
    · rintro ⟨grant, hgrant, hallows⟩
      obtain ⟨current, hcurrent, retained, hretained, hmeet⟩ := (mem_intersect h).1 hgrant
      obtain ⟨hc, hr⟩ := meet_allows.1 ⟨grant, hmeet, hallows⟩
      exact ⟨⟨current, hcurrent, hc⟩, retained, hretained, hr⟩
    · rintro ⟨⟨current, hcurrent, hc⟩, retained, hretained, hr⟩
      obtain ⟨grant, hmeet, hallows⟩ := meet_allows.2 ⟨hc, hr⟩
      exact ⟨grant, (mem_intersect h).2 ⟨current, hcurrent, retained, hretained, hmeet⟩, hallows⟩

end Pairs

namespace Retained

/-- A call under every capability, at a fortress. -/
def call : OperationContext :=
  ⟨0, 0, ⟨1, ⟨0, 0⟩, 5, .zero⟩, .conservativeDefault, [standingGrant .admin .irreversible], false⟩

/-- The opening restricts designation to one entity, until a tick. -/
def opening : List CapabilityGrant :=
  [⟨.designate, ⟨none, OMap.nil.insert 7 (), none, by decide⟩, .guarded, some 9, none⟩]

theorem intersect_allows_iff_retained : ∃ out, intersect call opening = .ok out ∧
    ((∃ grant ∈ out, grant.allows .designate .guarded 9 1 [7] none = true) ↔
      Allowed call.grants .designate .guarded 9 1 [7] none ∧
      Allowed opening .designate .guarded 9 1 [7] none) :=
  ⟨[⟨.designate, ⟨some 1, OMap.nil.insert 7 (), none, by decide⟩, .guarded, some 9, none⟩],
    by decide, (intersect_allows_iff call opening _ (by decide)).2 _ _ _ _ _⟩

end Retained

end Authority

end Dfmcp
