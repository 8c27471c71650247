import Dfmcp.Core.Roles
import Dfmcp.Library.Codes
import Dfmcp.Library.Runs

/-!
# Delegation never amplifies authority

A grant that covers another allows whatever the other allows, in every dimension: capability,
risk, expiry, uses, fortress, entities and area. A token enters the registry only by being issued,
and what is issued was checked, grant by grant, against the role the issuer had then.

* `allows_of_grantCovers` — a covering grant allows as much;
* `delegationPreimage_injective` — the digest's input determines every field it covers;
* `delegation_attenuates` — both, over whole histories of assignments and delegations.
-/

namespace Dfmcp

open Machine Runs Codes

/-! ## Attenuation -/

theorem MapCuboid.contains_iff (c : MapCuboid) (p : MapCoord) : c.contains p = true ↔
    (c.min.x ≤ p.x ∧ p.x ≤ c.max.x) ∧ (c.min.y ≤ p.y ∧ p.y ≤ c.max.y) ∧
      c.min.z ≤ p.z ∧ p.z ≤ c.max.z := by
  simp only [MapCuboid.contains, Bool.and_eq_true, decide_eq_true_eq, ge_iff_le]
  tauto

/-- A cuboid contains what a cuboid inside it contains. -/
theorem MapCuboid.containsCuboid_trans {a b c : MapCuboid} (hab : a.containsCuboid b = true)
    (hbc : b.containsCuboid c = true) : a.containsCuboid c = true := by
  have hpoint : ∀ p, b.contains p = true → a.contains p = true := by
    intro p hp
    simp only [MapCuboid.containsCuboid, Bool.and_eq_true, MapCuboid.contains_iff] at hab
    rw [MapCuboid.contains_iff] at hp ⊢
    obtain ⟨⟨hx, hy, hz⟩, hx', hy', hz'⟩ := hab
    exact ⟨⟨hx.1.trans hp.1.1, hp.1.2.trans hx'.2⟩, ⟨hy.1.trans hp.2.1.1, hp.2.1.2.trans hy'.2⟩,
      hz.1.trans hp.2.2.1, hp.2.2.2.trans hz'.2⟩
  rw [MapCuboid.containsCuboid, Bool.and_eq_true] at hbc ⊢
  exact ⟨hpoint _ hbc.1, hpoint _ hbc.2⟩

/-- What a scope permits, dimension by dimension. -/
theorem CapabilityScope.permits_iff (scope : CapabilityScope) (fortressId : FortressId)
    (entityIds : List EntityId) (mapArea : Option MapCuboid) :
    scope.permits fortressId entityIds mapArea = true ↔
      (∀ allowed ∈ scope.fortressId, allowed = fortressId) ∧
      (scope.entityIds.size ≠ 0 →
        entityIds ≠ [] ∧ ∀ id ∈ entityIds, scope.entityIds.contains id = true) ∧
      ∀ allowed ∈ scope.mapArea, ∃ requested ∈ mapArea,
        allowed.containsCuboid requested = true := by
  unfold CapabilityScope.permits
  have hfortress : (scope.fortressId.any (· ≠ fortressId)) = true ↔
      ¬ ∀ allowed ∈ scope.fortressId, allowed = fortressId := by
    cases scope.fortressId <;> simp
  have hentities : (scope.entityIds.size ≠ 0 ∧
      (entityIds = [] ∨ entityIds.any (fun id => !scope.entityIds.contains id) = true)) ↔
      ¬ (scope.entityIds.size ≠ 0 →
        entityIds ≠ [] ∧ ∀ id ∈ entityIds, scope.entityIds.contains id = true) := by
    simp only [List.any_eq_true, Bool.not_eq_true', ne_eq, Classical.not_imp, not_and, not_forall,
      Bool.not_eq_true]
    tauto
  by_cases hf : ∀ allowed ∈ scope.fortressId, allowed = fortressId
  · rw [if_neg (fun h => hfortress.1 h hf)]
    by_cases he : scope.entityIds.size ≠ 0 →
        entityIds ≠ [] ∧ ∀ id ∈ entityIds, scope.entityIds.contains id = true
    · rw [if_neg (fun h => hentities.1 h he)]
      refine Iff.trans ?_ ⟨fun h => ⟨hf, he, h⟩, fun h => h.2.2⟩
      cases scope.mapArea with
      | none => simp
      | some allowed => cases mapArea <;> simp
    · rw [if_pos (hentities.2 he)]
      exact iff_of_false (by simp) fun h => he h.2.1
  · rw [if_pos (hfortress.2 hf)]
    exact iff_of_false (by simp) fun h => hf h.1

theorem scopeCovers_iff (owned requested : CapabilityScope) :
    scopeCovers owned requested = true ↔
      (∀ ownedId ∈ owned.fortressId, requested.fortressId = some ownedId) ∧
      (owned.entityIds.size ≠ 0 → requested.entityIds.size ≠ 0 ∧
        ∀ id, requested.entityIds.contains id = true → owned.entityIds.contains id = true) ∧
      ∀ ownedArea ∈ owned.mapArea, ∃ requestedArea ∈ requested.mapArea,
        ownedArea.containsCuboid requestedArea = true := by
  unfold scopeCovers
  simp only [Bool.and_eq_true, and_assoc]
  refine and_congr ?_ (and_congr ?_ ?_)
  · cases owned.fortressId with
    | none => simp
    | some ownedId =>
        cases requested.fortressId with
        | none => simp
        | some requestedId => simp [eq_comm]
  · simp only [Bool.or_eq_true, Bool.and_eq_true, decide_eq_true_eq, List.all_eq_true,
      OMap.mem_keys_iff]
    tauto
  · cases owned.mapArea with
    | none => simp
    | some ownedArea => cases requested.mapArea <;> simp

/-- A covering scope permits as much. -/
theorem permits_of_scopeCovers {owned requested : CapabilityScope} {fortressId : FortressId}
    {entityIds : List EntityId} {mapArea : Option MapCuboid}
    (hcovers : scopeCovers owned requested = true)
    (h : requested.permits fortressId entityIds mapArea = true) :
    owned.permits fortressId entityIds mapArea = true := by
  obtain ⟨hfortress, hentities, harea⟩ := (scopeCovers_iff owned requested).1 hcovers
  rw [CapabilityScope.permits_iff] at h ⊢
  obtain ⟨hallowed, hids, hregion⟩ := h
  refine ⟨?_, ?_, ?_⟩
  · intro allowed hmem
    exact hallowed allowed (hfortress allowed hmem)
  · intro hsize
    obtain ⟨hrequested, hsubset⟩ := hentities hsize
    obtain ⟨hne, hall⟩ := hids hrequested
    exact ⟨hne, fun id hid => hsubset id (hall id hid)⟩
  · intro allowed hmem
    obtain ⟨requestedArea, hrequested, hcontains⟩ := harea allowed hmem
    obtain ⟨area, hmem', hinside⟩ := hregion requestedArea hrequested
    exact ⟨area, hmem', MapCuboid.containsCuboid_trans hcontains hinside⟩

/-- What a grant allows, dimension by dimension. -/
theorem CapabilityGrant.allows_iff (grant : CapabilityGrant) (capability : Capability)
    (risk : RiskTier) (tick : GameTick) (fortressId : FortressId) (entityIds : List EntityId)
    (mapArea : Option MapCuboid) :
    grant.allows capability risk tick fortressId entityIds mapArea = true ↔
      (grant.capability = capability ∨ grant.capability = .admin) ∧ risk ≤ grant.maxRisk ∧
      (∀ expiresAt ∈ grant.expiresAtTick, tick ≤ expiresAt) ∧
      (∀ remaining ∈ grant.remainingUses, 0 < remaining) ∧
      grant.scope.permits fortressId entityIds mapArea = true := by
  unfold CapabilityGrant.allows
  simp only [Bool.and_eq_true, Bool.or_eq_true, decide_eq_true_eq, and_assoc]
  refine and_congr_right fun _ => and_congr_right fun _ => and_congr ?_ (and_congr_left fun _ => ?_)
  · cases grant.expiresAtTick <;> simp
  · cases grant.remainingUses <;> simp

theorem grantCovers_iff (owned requested : CapabilityGrant) :
    grantCovers owned requested = true ↔
      (owned.capability = .admin ∨ owned.capability = requested.capability) ∧
      requested.maxRisk ≤ owned.maxRisk ∧
      (∀ ownedExpiry ∈ owned.expiresAtTick, ∃ requestedExpiry ∈ requested.expiresAtTick,
        requestedExpiry ≤ ownedExpiry) ∧
      (∀ ownedUses ∈ owned.remainingUses, ∃ requestedUses ∈ requested.remainingUses,
        requestedUses ≤ ownedUses) ∧
      scopeCovers owned.scope requested.scope = true := by
  unfold grantCovers
  simp only [Bool.and_eq_true, Bool.or_eq_true, decide_eq_true_eq, and_assoc]
  refine and_congr_right fun _ => and_congr_right fun _ => and_congr ?_ (and_congr_left fun _ => ?_)
  · cases owned.expiresAtTick with
    | none => simp
    | some ownedExpiry => cases requested.expiresAtTick <;> simp
  · cases owned.remainingUses with
    | none => simp
    | some ownedUses => cases requested.remainingUses <;> simp

/-- **A covering grant allows as much** as the grant it covers. -/
theorem allows_of_grantCovers {owned requested : CapabilityGrant} {capability : Capability}
    {risk : RiskTier} {tick : GameTick} {fortressId : FortressId} {entityIds : List EntityId}
    {mapArea : Option MapCuboid} (hcovers : grantCovers owned requested = true)
    (h : requested.allows capability risk tick fortressId entityIds mapArea = true) :
    owned.allows capability risk tick fortressId entityIds mapArea = true := by
  obtain ⟨hcapability, hrisk, hexpiry, huses, hscope⟩ := (grantCovers_iff owned requested).1 hcovers
  rw [CapabilityGrant.allows_iff] at h ⊢
  obtain ⟨hkind, hlevel, htick, hremaining, hpermits⟩ := h
  refine ⟨?_, ?_, ?_, ?_, permits_of_scopeCovers hscope hpermits⟩
  · rcases hcapability with hadmin | hsame
    · exact .inr hadmin
    · rwa [hsame]
  · exact Nat.le_trans hlevel hrisk
  · intro expiresAt hmem
    obtain ⟨requestedExpiry, hmem', hle⟩ := hexpiry expiresAt hmem
    exact (htick requestedExpiry hmem').trans hle
  · intro remaining hmem
    obtain ⟨requestedUses, hmem', hle⟩ := huses remaining hmem
    exact lt_of_lt_of_le (hremaining requestedUses hmem') hle

/-! ## The digest's input -/

theorem prefixFree_beBytes {w : Nat} (n : Nat) (hw : 2 ^ w ≤ 256 ^ n) :
    PrefixFree fun x : U w => beBytes n x.val := by
  refine PrefixFree.of_length ?_ (by simp)
  intro a b hab
  exact Fin.ext (beBytes_injOn (a.isLt.trans_le hw) (b.isLt.trans_le hw) hab)

theorem prefixFree_u64 : PrefixFree fun x : U 64 => beBytes 8 x.val :=
  prefixFree_beBytes 8 (by decide)

theorem prefixFree_u128 : PrefixFree fun x : U 128 => beBytes 16 x.val :=
  prefixFree_beBytes 16 (by decide)

theorem prefixFree_putOptionalU64 : PrefixFree putOptionalU64 := by
  have h := prefixFree_u64.option (show (1 : UInt8) ≠ 0 by decide)
  intro a b x y hab
  refine @h a b x y ?_
  cases a <;> cases b <;> exact hab

theorem prefixFree_putUses : PrefixFree putUses := by
  have h := (prefixFree_beBytes (w := 32) 4 (by decide)).option (show (1 : UInt8) ≠ 0 by decide)
  intro a b x y hab
  refine @h a b x y ?_
  cases a <;> cases b <;> exact hab

/-- Byte strings short enough for their length to be written. -/
theorem putLenPrefixed_inj {a b x y : Bytes} (ha : a.length < 2 ^ 64) (hb : b.length < 2 ^ 64)
    (h : putLenPrefixed a ++ x = putLenPrefixed b ++ y) : a = b ∧ x = y := by
  rw [putLenPrefixed, putLenPrefixed, List.append_assoc, List.append_assoc] at h
  obtain ⟨hlength, hrest⟩ := List.append_inj h (by simp)
  exact List.append_inj hrest (beBytes_injOn ha hb hlength)

/-- The texts of an enumeration, behind their lengths. -/
theorem prefixFree_text {α : Type} {text : α → Bytes} {all : List α} (hall : ∀ a, a ∈ all)
    (hnodup : (all.map text).Nodup) (hshort : ∀ a ∈ all, (text a).length < 2 ^ 64) :
    PrefixFree fun a => putLenPrefixed (text a) := by
  intro a b x y hab
  obtain ⟨htext, hrest⟩ := putLenPrefixed_inj (hshort a (hall a)) (hshort b (hall b)) hab
  exact ⟨List.inj_on_of_nodup_map hnodup (hall a) (hall b) htext, hrest⟩

def Capability.all : List Capability :=
  [.observe, .query, .plan, .designate, .construct, .configureLabor, .configureProduction,
    .configureLogistics, .configureMilitary, .controlClock, .checkpoint, .restore, .extension,
    .diagnosticRaw, .doctor, .repairPlan, .repairApply, .admin]

theorem prefixFree_capability :
    PrefixFree fun c : Capability => putLenPrefixed (utf8 c.asStr) := by
  refine @prefixFree_text _ _ Capability.all ?_ (by decide) (by decide)
  intro c
  cases c <;> decide

theorem prefixFree_riskTier : PrefixFree fun t : RiskTier => putLenPrefixed (utf8 t.asStr) := by
  refine @prefixFree_text _ _ [.readOnly, .reversible, .guarded, .irreversible] ?_
    (by decide) (by decide)
  intro t
  cases t <;> decide

theorem prefixFree_i32 : PrefixFree fun z : S 32 => beBytes 4 z.toBits := by
  refine PrefixFree.of_length ?_ (by simp)
  intro a b hab
  have hbits : a.toBits = b.toBits := beBytes_injOn a.toBits_lt b.toBits_lt hab
  rw [← S.ofBits_toBits (by decide) a, ← S.ofBits_toBits (by decide) b, hbits]

theorem prefixFree_putCoordinate : PrefixFree putCoordinate := by
  rintro ⟨ax, ay, az⟩ ⟨bx, b_y, bz⟩ x y hab
  simp only [putCoordinate, List.append_assoc] at hab
  obtain ⟨hx, hrest⟩ := prefixFree_i32 hab
  obtain ⟨hy, hrest'⟩ := prefixFree_i32 hrest
  obtain ⟨hz, htail⟩ := prefixFree_i32 hrest'
  rw [hx, hy, hz]
  exact ⟨rfl, htail⟩

theorem prefixFree_putArea : PrefixFree putArea := by
  have harea : PrefixFree fun area : MapCuboid =>
      putCoordinate area.min ++ putCoordinate area.max := by
    rintro ⟨amin, amax⟩ ⟨bmin, bmax⟩ x y hab
    simp only [List.append_assoc] at hab
    obtain ⟨hmin, hrest⟩ := prefixFree_putCoordinate hab
    obtain ⟨hmax, htail⟩ := prefixFree_putCoordinate hrest
    rw [hmin, hmax]
    exact ⟨rfl, htail⟩
  have h := harea.option (show (1 : UInt8) ≠ 0 by decide)
  intro a b x y hab
  refine @h a b x y ?_
  cases a <;> cases b <;> exact hab

/-- The entities of a scope, behind their number. -/
theorem putEntityIds_inj {a b : CapabilityScope} {x y : Bytes}
    (h : beBytes 8 a.entityIds.size ++
        (a.entityIds.keys.flatMap (fun id => beBytes 8 id.val) ++ x) =
      beBytes 8 b.entityIds.size ++
        (b.entityIds.keys.flatMap (fun id => beBytes 8 id.val) ++ y)) :
    a.entityIds = b.entityIds ∧ x = y := by
  obtain ⟨hbytes, hrest⟩ := List.append_inj h (by simp)
  have hsize : a.entityIds.size = b.entityIds.size := beBytes_injOn a.fits b.fits hbytes
  have hlength : a.entityIds.keys.length = b.entityIds.keys.length := by
    rw [OMap.length_keys, OMap.length_keys, hsize]
  obtain ⟨hkeys, htail⟩ := prefixFree_u64.flatMap_eq hlength hrest
  refine ⟨OMap.ext_get? fun q => ?_, htail⟩
  have hcontains : a.entityIds.contains q = b.entityIds.contains q := by
    rw [Bool.eq_iff_iff, ← OMap.mem_keys_iff, ← OMap.mem_keys_iff, hkeys]
  simp only [OMap.contains] at hcontains
  cases ha : a.entityIds.get? q <;> cases hb : b.entityIds.get? q <;> simp_all

theorem prefixFree_putGrant : PrefixFree putGrant := by
  rintro ⟨acapability, ascope, arisk, aexpires, auses⟩
    ⟨bcapability, bscope, brisk, bexpires, buses⟩ x y hab
  simp only [putGrant, List.append_assoc] at hab
  obtain ⟨hcapability, hrest⟩ := prefixFree_capability hab
  obtain ⟨hrisk, hrest⟩ := prefixFree_riskTier hrest
  obtain ⟨hfortress, hrest⟩ := prefixFree_putOptionalU64 hrest
  obtain ⟨hids, hrest⟩ := putEntityIds_inj hrest
  obtain ⟨harea, hrest⟩ := prefixFree_putArea hrest
  obtain ⟨hexpires, hrest⟩ := prefixFree_putOptionalU64 hrest
  obtain ⟨huses, htail⟩ := prefixFree_putUses hrest
  have hscope : ascope = bscope := by
    cases ascope
    cases bscope
    simp_all
  rw [hcapability, hscope, hrisk, hexpires, huses]
  exact ⟨rfl, htail⟩

/-- Grants behind their number, and what follows them when that is short: a list with so many more
grants that their number reads alike is too long. -/
theorem putGrants_inj {l l' : List CapabilityGrant} {e e' : Option GameTick}
    (hle : l.length ≤ l'.length) (hnumber : beBytes 8 l.length = beBytes 8 l'.length)
    (h : l.flatMap putGrant ++ putOptionalU64 e = l'.flatMap putGrant ++ putOptionalU64 e') :
    l = l' ∧ e = e' := by
  obtain ⟨rest, rfl, hrest⟩ := prefixFree_putGrant.flatMap_le hle h
  have hmod : l.length % 256 ^ 8 = (l.length + rest.length) % 256 ^ 8 := by
    have hread := congrArg ofBe hnumber
    rwa [ofBe_beBytes, ofBe_beBytes, List.length_append] at hread
  have hword : ∀ g, putGrant g ≠ [] := by
    intro g hg
    have hlength := congrArg List.length hg
    simp [putGrant, putLenPrefixed] at hlength
  have hmany : rest.length ≤ (putOptionalU64 e).length := by
    rw [hrest, List.length_append]
    exact (length_le_flatMap hword rest).trans (Nat.le_add_right _ _)
  have hfew : (putOptionalU64 e).length ≤ 9 := by
    cases e <;> simp [putOptionalU64]
  have hnil : rest = [] := by
    apply List.length_eq_zero_iff.1
    omega
  subst hnil
  refine ⟨(List.append_nil l).symm, ?_⟩
  exact prefixFree_putOptionalU64.injective hrest

/-- **The digest's input determines every field it covers.** -/
theorem delegationPreimage_injective {id id' : U 64} {issuer issuer' delegatee delegatee' : SessionId}
    {grants grants' : List CapabilityGrant} {expires expires' : Option GameTick}
    (h : delegationPreimage id issuer delegatee grants expires =
      delegationPreimage id' issuer' delegatee' grants' expires') :
    id = id' ∧ issuer = issuer' ∧ delegatee = delegatee' ∧ grants = grants' ∧
      expires = expires' := by
  unfold delegationPreimage at h
  obtain ⟨hid, hrest⟩ := prefixFree_u64 h
  obtain ⟨hissuer, hrest⟩ := prefixFree_u128 hrest
  obtain ⟨hdelegatee, hrest⟩ := prefixFree_u128 hrest
  obtain ⟨hnumber, hrest⟩ := List.append_inj hrest (by simp)
  refine ⟨hid, hissuer, hdelegatee, ?_⟩
  rcases Nat.le_total grants.length grants'.length with hle | hle
  · exact putGrants_inj hle hnumber hrest
  · obtain ⟨hgrants, hexpires⟩ := putGrants_inj hle hnumber.symm hrest.symm
    exact ⟨hgrants.symm, hexpires.symm⟩

/-! ## Histories -/

/-- An operation of the manager, and the token it issued or the error it returned. -/
inductive RoleEvent where
  | assign (sessionId : SessionId) (role : SwarmRole)
  | issue (issuer delegatee : SessionId) (grants : List CapabilityGrant)
      (expiresAtTick : Option GameTick) (result : Result DelegationToken)
deriving DecidableEq

def RoleStep (m : RoleManager) : RoleEvent → RoleManager → Prop
  | .assign sessionId role, m' => (m.assignRole sessionId role).2 = m'
  | .issue issuer delegatee grants expiresAtTick result, m' =>
      m.issueDelegation issuer delegatee grants expiresAtTick = (result, m')

namespace RoleManager

variable {m m' : RoleManager} {event : RoleEvent}

/-- Every grant requested is covered by one of the issuer's. -/
theorem covers_of_checkGrants {issuerGrants grants : List CapabilityGrant}
    {expiresAtTick : Option GameTick}
    (h : checkGrants issuerGrants expiresAtTick grants = .ok ()) :
    ∀ requested ∈ grants, ∃ owned ∈ issuerGrants, grantCovers owned requested = true := by
  induction grants with
  | nil => simp
  | cons first rest ih =>
      rw [checkGrants] at h
      split at h
      · cases h
      · rename_i hcovers
        split at h
        · cases h
        · intro requested hmem
          rcases List.mem_cons.1 hmem with rfl | hmem
          · exact List.any_eq_true.1 (not_not.1 hcovers)
          · exact ih h requested hmem

/-- What issuing does: nothing, or it files the next token, made of what was asked and covered by
the issuer's role. The collision branch is the one where the next identifier is taken. -/
theorem issueDelegation_cases {issuer delegatee : SessionId} {grants : List CapabilityGrant}
    {expiresAtTick : Option GameTick} {result : Result DelegationToken}
    (h : m.issueDelegation issuer delegatee grants expiresAtTick = (result, m')) :
    m' = m ∨ ∃ role token, m.sessionRoles.get? issuer = some role ∧
      (∀ requested ∈ grants, ∃ owned ∈ role.defaultGrants, grantCovers owned requested = true) ∧
      token.tokenId = m.nextTokenSeq ∧ token.issuerSession = issuer ∧
      token.delegateeSession = delegatee ∧ token.grants = grants ∧
      token.expiresAtTick = expiresAtTick ∧
      m'.delegations = m.delegations.insert m.nextTokenSeq token ∧
      (m.delegations.contains m.nextTokenSeq = false → result = .ok token ∧
        m'.nextTokenSeq.val = m.nextTokenSeq.val + 1) := by
  unfold issueDelegation at h
  split at h
  · exact .inl (Prod.mk.inj h).2.symm
  · cases hrole : m.sessionRoles.get? issuer with
    | none =>
        rw [hrole] at h
        exact .inl (Prod.mk.inj h).2.symm
    | some role =>
        rw [hrole] at h
        dsimp only at h
        cases hcheck : checkGrants role.defaultGrants expiresAtTick grants with
        | error error =>
            rw [hcheck] at h
            exact .inl (Prod.mk.inj h).2.symm
        | ok done =>
            rw [hcheck] at h
            dsimp only at h
            cases hnext : U.checkedAdd m.nextTokenSeq 1 with
            | none =>
                rw [hnext] at h
                exact .inl (Prod.mk.inj h).2.symm
            | some next =>
                rw [hnext] at h
                dsimp only at h
                refine .inr ⟨role, ⟨m.nextTokenSeq, issuer, delegatee, grants, expiresAtTick,
                  computeDelegationDigest m.nextTokenSeq issuer delegatee grants expiresAtTick⟩,
                  rfl, covers_of_checkGrants hcheck, rfl, rfl, rfl, rfl, rfl, ?_, ?_⟩
                · split at h
                  · rw [← (Prod.mk.inj h).2]
                  · rw [← (Prod.mk.inj h).2]
                · intro hfree
                  rw [if_neg (by simp [hfree])] at h
                  obtain ⟨hresult, rfl⟩ := Prod.mk.inj h
                  exact ⟨hresult.symm, (U.checkedAdd_eq_some.1 hnext).symm⟩

/-- Issued identifiers lie below the next one. -/
def Fresh (m : RoleManager) : Prop :=
  ∀ id token, m.delegations.get? id = some token → id < m.nextTokenSeq

theorem Fresh.free (h : m.Fresh) : m.delegations.contains m.nextTokenSeq = false := by
  rw [OMap.contains_eq_false_iff, Option.eq_none_iff_forall_ne_some]
  intro token htoken
  exact lt_irrefl _ (h _ token htoken)

theorem Fresh.step (h : m.Fresh) (hstep : RoleStep m event m') : m'.Fresh := by
  cases event with
  | assign sessionId role =>
      obtain rfl : (m.assignRole sessionId role).2 = m' := hstep
      exact h
  | issue issuer delegatee grants expiresAtTick result =>
      rcases issueDelegation_cases hstep with rfl |
          ⟨role, token, -, -, -, -, -, -, -, hdelegations, hissued⟩
      · exact h
      · obtain ⟨-, hnext⟩ := hissued h.free
        intro id stored hget
        rw [hdelegations, OMap.get?_insert] at hget
        show id.val < m'.nextTokenSeq.val
        by_cases hid : id = m.nextTokenSeq
        · rw [hid]
          omega
        · rw [if_neg hid] at hget
          have hlt : id.val < m.nextTokenSeq.val := h id stored hget
          omega

/-- A token enters the registry only by being issued. -/
theorem issued_of_step (h : m.Fresh) (hstep : RoleStep m event m') {token : DelegationToken}
    (hbefore : m.delegations.get? token.tokenId ≠ some token)
    (hafter : m'.delegations.get? token.tokenId = some token) :
    event = .issue token.issuerSession token.delegateeSession token.grants token.expiresAtTick
        (.ok token) ∧
      ∃ role, m.sessionRoles.get? token.issuerSession = some role ∧
        ∀ requested ∈ token.grants, ∃ owned ∈ role.defaultGrants,
          grantCovers owned requested = true := by
  cases event with
  | assign sessionId role =>
      obtain rfl : (m.assignRole sessionId role).2 = m' := hstep
      exact absurd hafter hbefore
  | issue issuer delegatee grants expiresAtTick result =>
      rcases issueDelegation_cases hstep with rfl |
          ⟨role, issued, hrole, hcovers, hid, rfl, rfl, rfl, rfl, hdelegations, hissued⟩
      · exact absurd hafter hbefore
      · have htoken : token = issued := by
          rw [hdelegations, OMap.get?_insert] at hafter
          split at hafter
          · exact (Option.some.inj hafter).symm
          · exact absurd hafter hbefore
        obtain ⟨rfl, -⟩ := hissued h.free
        subst htoken
        exact ⟨rfl, role, hrole, hcovers⟩

/-- A token that validates is the one in the registry. -/
theorem get?_of_validateToken {token : DelegationToken} {currentTick : GameTick}
    (h : m.validateToken token currentTick = .ok ()) :
    m.delegations.get? token.tokenId = some token := by
  unfold validateToken at h
  cases hget : m.delegations.get? token.tokenId with
  | none =>
      rw [hget] at h
      cases h
  | some stored =>
      rw [hget] at h
      dsimp only at h
      split at h
      · cases h
      · rename_i hsame
        rw [not_not.1 hsame]

end RoleManager

/-- **Delegation never amplifies authority.** Take any history of a manager that starts with no
delegations. A token it then accepts was issued in that history; and if one of the token's grants
allows a request, then the role the issuer held when it issued the token had a grant that allows
the same request. The digest's input determines a token's identifier, issuer, delegatee, grants
and expiry. -/
theorem delegation_attenuates :
    (∀ {start m : RoleManager} {events : List RoleEvent}, start.delegations = .nil →
      Run RoleStep start events m →
      ∀ {token : DelegationToken} {currentTick : GameTick},
        m.validateToken token currentTick = .ok () →
        ∃ before after atIssue role,
          events = before ++ .issue token.issuerSession token.delegateeSession token.grants
            token.expiresAtTick (.ok token) :: after ∧
          Run RoleStep start before atIssue ∧
          atIssue.sessionRoles.get? token.issuerSession = some role ∧
          ∀ grant ∈ token.grants, ∀ capability risk tick fortressId entityIds mapArea,
            grant.allows capability risk tick fortressId entityIds mapArea = true →
            ∃ owned ∈ role.defaultGrants,
              owned.allows capability risk tick fortressId entityIds mapArea = true) ∧
    ∀ a b : DelegationToken, a.preimage = b.preimage →
      a.tokenId = b.tokenId ∧ a.issuerSession = b.issuerSession ∧
        a.delegateeSession = b.delegateeSession ∧ a.grants = b.grants ∧
        a.expiresAtTick = b.expiresAtTick := by
  refine ⟨?_, fun a b h => delegationPreimage_injective h⟩
  intro start m events hstart hrun token currentTick hvalid
  have hempty : ∀ id, start.delegations.get? id = none := by
    intro id
    rw [hstart]
    rfl
  obtain ⟨before, event, after, a, b, rfl, hbefore, hnot, hstep, hhas, -⟩ :=
    hrun.exists_step (P := fun m => m.delegations.get? token.tokenId = some token)
      (by simp [hempty]) (RoleManager.get?_of_validateToken hvalid)
  have hfresh : a.Fresh := by
    refine hbefore.preserves (fun _ _ _ h hs => RoleManager.Fresh.step h hs) ?_
    intro id stored hget
    rw [hempty] at hget
    cases hget
  obtain ⟨rfl, role, hrole, hcovers⟩ := RoleManager.issued_of_step hfresh hstep hnot hhas
  refine ⟨before, after, a, role, rfl, hbefore, hrole, ?_⟩
  intro grant hgrant capability risk tick fortressId entityIds mapArea hallows
  obtain ⟨owned, howned, hcover⟩ := hcovers grant hgrant
  exact ⟨owned, howned, allows_of_grantCovers hcover hallows⟩

/-- A grant to designate in one fortress. -/
def localDesignation : CapabilityGrant :=
  ⟨.designate, ⟨some 7, .nil, none, CapabilityScope.nil_fits⟩, .reversible, some 100, some 3⟩

/-- A mining overseer, and the delegation of such a grant. -/
def overseen : RoleManager := (RoleManager.new.assignRole 1 .miningOverseer).2

def delegated : Result DelegationToken × RoleManager :=
  overseen.issueDelegation 1 2 [localDesignation] (some 100)

/-- The token of that delegation. -/
def designationToken : DelegationToken :=
  ⟨1, 1, 2, [localDesignation], some 100,
    computeDelegationDigest 1 1 2 [localDesignation] (some 100)⟩

/-- It validates, it allows a designation there, and so does the overseer's role. -/
theorem delegation_attenuates_overseer :
    delegated.2.validateToken designationToken 50 = .ok () ∧
      ∃ before after atIssue role,
        [RoleEvent.assign 1 .miningOverseer,
          .issue 1 2 [localDesignation] (some 100) (.ok designationToken)] =
          before ++ .issue 1 2 [localDesignation] (some 100) (.ok designationToken) :: after ∧
        Run RoleStep .new before atIssue ∧ atIssue.sessionRoles.get? 1 = some role ∧
        ∃ owned ∈ role.defaultGrants, owned.allows .designate .reversible 50 7 [] none = true := by
  have hvalid : delegated.2.validateToken designationToken 50 = .ok () := by decide +kernel
  have hissue : delegated = (.ok designationToken, delegated.2) := by decide +kernel
  obtain ⟨before, after, a, role, hevents, hbefore, hrole, hallows⟩ :=
    delegation_attenuates.1 (show RoleManager.new.delegations = .nil from rfl)
      (.cons (i := RoleEvent.assign 1 .miningOverseer) (t := overseen) rfl
        (.cons (i := RoleEvent.issue 1 2 [localDesignation] (some 100) (.ok designationToken))
          hissue (.nil _)))
      hvalid
  exact ⟨hvalid, before, after, a, role, hevents, hbefore, hrole,
    hallows localDesignation List.mem_cons_self .designate .reversible 50 7 [] none
      (by decide)⟩

end Dfmcp
