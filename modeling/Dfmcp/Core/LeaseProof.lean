import Dfmcp.Core.Lease
import Dfmcp.Library.Runs

/-!
# Lease mutual exclusion

A run is any sequence of manager operations, by any sessions, whose ticks do not decrease. What
one operation can do to the book of leases is said once, in `Effect`; every invariant is then a
short case analysis over it.

* `Exclusive` — the validity intervals of two conflicting leases of different sessions do not
  meet;
* `exclusive_of_run` — it holds in every reachable state, at every tick;
* `lease_exclusion` — mutual exclusion, fresh identifiers, verification and failed operations,
  over whole runs.
-/

namespace Dfmcp

open Machine Runs

/-! ## Conflicts -/

namespace LeaseKind

/-- The scopes of two leases meet. -/
def Overlaps : LeaseKind → LeaseKind → Prop
  | .spatialExclusive a, .spatialExclusive b => cuboidsIntersect a b = true
  | .spatialExclusive a, .spatialShared b => cuboidsIntersect a b = true
  | .spatialShared a, .spatialExclusive b => cuboidsIntersect a b = true
  | .spatialShared a, .spatialShared b => cuboidsIntersect a b = true
  | .entityExclusive a, .entityExclusive b => a = b
  | .entityExclusive a, .entityShared b => a = b
  | .entityShared a, .entityExclusive b => a = b
  | .entityShared a, .entityShared b => a = b
  | _, _ => False

def IsExclusive : LeaseKind → Prop
  | .spatialExclusive _ | .entityExclusive _ => True
  | .spatialShared _ | .entityShared _ => False

/-- The scopes meet and one of the two is exclusive. -/
def Conflicts (k k' : LeaseKind) : Prop := k.Overlaps k' ∧ (k.IsExclusive ∨ k'.IsExclusive)

end LeaseKind

theorem cuboidsIntersect_iff (a b : MapCuboid) : cuboidsIntersect a b = true ↔
    (min a.min.x a.max.x ≤ max b.min.x b.max.x ∧ min b.min.x b.max.x ≤ max a.min.x a.max.x) ∧
    (min a.min.y a.max.y ≤ max b.min.y b.max.y ∧ min b.min.y b.max.y ≤ max a.min.y a.max.y) ∧
    (min a.min.z a.max.z ≤ max b.min.z b.max.z ∧ min b.min.z b.max.z ≤ max a.min.z a.max.z) := by
  simp only [cuboidsIntersect, Bool.and_eq_true, decide_eq_true_eq, ge_iff_le, and_assoc]

theorem cuboidsIntersect_comm (a b : MapCuboid) : cuboidsIntersect a b = cuboidsIntersect b a := by
  rw [Bool.eq_iff_iff, cuboidsIntersect_iff, cuboidsIntersect_iff]
  tauto

theorem LeaseKind.Conflicts.symm {k k' : LeaseKind} (h : k.Conflicts k') : k'.Conflicts k := by
  refine ⟨?_, h.2.symm⟩
  have hover := h.1
  cases k <;> cases k' <;> simp only [LeaseKind.Overlaps] at hover ⊢ <;>
    first
    | exact hover.symm
    | rwa [cuboidsIntersect_comm]

/-! ## Operations and runs -/

inductive LeaseOp where
  | acquireSpatial (sessionId : SessionId) (cuboid : MapCuboid) (exclusive : Bool)
      (currentTick : GameTick) (ttlTicks : U 64)
  | acquireEntity (sessionId : SessionId) (entityId : EntityId) (exclusive : Bool)
      (currentTick : GameTick) (ttlTicks : U 64)
  | verify (leaseId : LeaseId) (holder : SessionId) (area : MapCuboid) (currentTick : GameTick)
  | renew (leaseId : LeaseId) (currentTick : GameTick) (extensionTicks : U 64)
  | release (leaseId : LeaseId) (sessionId : SessionId)
  | releaseSession (sessionId : SessionId)
  | cleanup (currentTick : GameTick)

namespace LeaseOp

/-- The tick an operation is made at. -/
def tick : LeaseOp → Option GameTick
  | .acquireSpatial _ _ _ currentTick _ => some currentTick
  | .acquireEntity _ _ _ currentTick _ => some currentTick
  | .verify _ _ _ currentTick => some currentTick
  | .renew _ currentTick _ => some currentTick
  | .release _ _ => none
  | .releaseSession _ => none
  | .cleanup currentTick => some currentTick

/-- Perform an operation: the lease it granted, if it did, and the manager it leaves. -/
def exec (m : LeaseManager) : LeaseOp → Result (Option LeaseId) × LeaseManager
  | .acquireSpatial sessionId cuboid exclusive currentTick ttlTicks =>
      let (result, m') := m.acquireSpatialLease sessionId cuboid exclusive currentTick ttlTicks
      (result.map some, m')
  | .acquireEntity sessionId entityId exclusive currentTick ttlTicks =>
      let (result, m') := m.acquireEntityLease sessionId entityId exclusive currentTick ttlTicks
      (result.map some, m')
  | .verify leaseId holder area currentTick =>
      ((m.verifyExclusiveSpatial leaseId holder area currentTick).map fun _ => none, m)
  | .renew leaseId currentTick extensionTicks =>
      let (result, m') := m.renewLease leaseId currentTick extensionTicks
      (result.map fun _ => none, m')
  | .release leaseId sessionId =>
      let (result, m') := m.releaseLease leaseId sessionId
      (result.map fun _ => none, m')
  | .releaseSession sessionId => (.ok none, m.releaseSessionLeases sessionId)
  | .cleanup currentTick => (.ok none, (m.cleanupExpiredLeases currentTick).2)

/-- The operation gives up this lease. -/
def Releases (op : LeaseOp) (id : LeaseId) (holder : SessionId) : Prop :=
  op = .release id holder ∨ op = .releaseSession holder

end LeaseOp

/-- The manager, and the tick of the last operation. -/
structure LeaseBook where
  now : GameTick
  manager : LeaseManager

/-- One operation, at a tick that is not in the past. -/
def LeaseBook.Step (b : LeaseBook) (op : LeaseOp) (b' : LeaseBook) : Prop :=
  (∀ tick, op.tick = some tick → b.now ≤ tick) ∧
    b' = ⟨op.tick.getD b.now, (op.exec b.manager).2⟩

/-! ## What an operation can do -/

/-- Everything an operation can do to the manager. -/
inductive Effect (m : LeaseManager) (op : LeaseOp) :
    Result (Option LeaseId) → LeaseManager → Prop
  | refused (error : DfmcpError) : Effect m op (.error error) m
  | verified : Effect m op (.ok none) m
  | granted (id : LeaseId) (next : U 64) (record : LeaseRecord)
      (tick : op.tick = some record.acquiredTick) (id_eq : id.val = m.nextLeaseSeq.val)
      (next_eq : next.val = m.nextLeaseSeq.val + 1)
      (free : ∀ i r, m.leases.get? i = some r → record.acquiredTick < r.expiresAtTick →
        r.holderSession ≠ record.holderSession → ¬ r.kind.Conflicts record.kind) :
      Effect m op (.ok (some id)) ⟨next, m.leases.insert id record⟩
  | renewed (id : LeaseId) (record : LeaseRecord) (currentTick expiresAtTick : GameTick)
      (tick : op.tick = some currentTick) (held : m.leases.get? id = some record)
      (live : currentTick < record.expiresAtTick)
      (later : record.expiresAtTick ≤ expiresAtTick) :
      Effect m op (.ok none)
        { m with leases := m.leases.insert id { record with expiresAtTick } }
  | kept (keep : LeaseId → LeaseRecord → Bool)
      (dropped : ∀ id r, m.leases.get? id = some r → keep id r = false →
        op.Releases id r.holderSession ∨ ∃ tick, op.tick = some tick ∧ r.expiresAtTick ≤ tick) :
      Effect m op (.ok none) { m with leases := m.leases.filter keep }

/-- Identifiers in the book are below the next one. -/
def IdsBelow (m : LeaseManager) : Prop :=
  ∀ id r, m.leases.get? id = some r → id.val < m.nextLeaseSeq.val

section Acquire

variable {m : LeaseManager} {sessionId : SessionId} {currentTick : GameTick} {exclusive : Bool}

/-- Granting is refused, or adds a lease under the next identifier. -/
theorem grant_cases (hids : IdsBelow m) (kind : LeaseKind) (expiresAtTick : GameTick) :
    (∃ e, m.grant sessionId kind currentTick expiresAtTick = (.error e, m)) ∨
      ∃ (id : LeaseId) (next : U 64), id.val = m.nextLeaseSeq.val ∧
        next.val = m.nextLeaseSeq.val + 1 ∧
        m.grant sessionId kind currentTick expiresAtTick = (.ok id, ⟨next, m.leases.insert id
          ⟨id, sessionId, kind, currentTick, expiresAtTick⟩⟩) := by
  unfold LeaseManager.grant LeaseManager.nextLeaseId
  cases hnext : U.checkedAdd m.nextLeaseSeq 1 with
  | none => exact .inl ⟨_, rfl⟩
  | some next =>
      right
      let id : LeaseId := m.nextLeaseSeq.castLE (by decide)
      have hid : id.val = m.nextLeaseSeq.val := rfl
      have hfresh : m.leases.get? id = none :=
        Option.eq_none_iff_forall_ne_some.2 fun r hr => absurd (hids id r hr) (by omega)
      refine ⟨id, next, hid, (U.checkedAdd_eq_some.1 hnext).symm, ?_⟩
      change (if (m.leases.get? id).isSome = true then _ else _) = _
      rw [hfresh]
      rfl

/-- The conflict loop lets a spatial lease through only when no live lease of another session
conflicts with it. -/
theorem checkSpatial_ok {cuboid : MapCuboid} {records : List LeaseRecord}
    (h : LeaseManager.checkSpatial sessionId cuboid exclusive currentTick records = .ok ()) :
    ∀ r ∈ records, currentTick < r.expiresAtTick → r.holderSession ≠ sessionId →
      ¬ r.kind.Conflicts (if exclusive then .spatialExclusive cuboid else .spatialShared cuboid) := by
  induction records with
  | nil => simp
  | cons e records ih =>
      rw [LeaseManager.checkSpatial] at h
      intro r hr hlive hholder hconf
      rcases List.mem_cons.1 hr with rfl | hr
      · rw [if_neg (not_le.2 hlive)] at h
        obtain ⟨hover, hexcl⟩ := hconf
        cases hk : r.kind with
        | spatialExclusive held =>
            have hmeet : cuboidsIntersect cuboid held = true := by
              rw [cuboidsIntersect_comm]
              cases exclusive <;> simpa [hk, LeaseKind.Overlaps] using hover
            simp [hk, hmeet, hholder] at h
        | spatialShared held =>
            have hmeet : cuboidsIntersect cuboid held = true := by
              rw [cuboidsIntersect_comm]
              cases exclusive <;> simpa [hk, LeaseKind.Overlaps] using hover
            have hex : exclusive = true := by
              cases exclusive
              · simp [hk, LeaseKind.IsExclusive] at hexcl
              · rfl
            simp [hk, hmeet, hex, hholder] at h
        | entityExclusive id => cases exclusive <;> simp [hk, LeaseKind.Overlaps] at hover
        | entityShared id => cases exclusive <;> simp [hk, LeaseKind.Overlaps] at hover
      · refine ih ?_ r hr hlive hholder hconf
        split at h
        · exact h
        · split at h
          · split at h
            · cases h
            · exact h
          · split at h
            · cases h
            · exact h
          · exact h

theorem checkEntity_ok {entityId : EntityId} {records : List LeaseRecord}
    (h : LeaseManager.checkEntity sessionId entityId exclusive currentTick records = .ok ()) :
    ∀ r ∈ records, currentTick < r.expiresAtTick → r.holderSession ≠ sessionId →
      ¬ r.kind.Conflicts
        (if exclusive then .entityExclusive entityId else .entityShared entityId) := by
  induction records with
  | nil => simp
  | cons e records ih =>
      rw [LeaseManager.checkEntity] at h
      intro r hr hlive hholder hconf
      rcases List.mem_cons.1 hr with rfl | hr
      · rw [if_neg (not_le.2 hlive)] at h
        obtain ⟨hover, hexcl⟩ := hconf
        cases hk : r.kind with
        | spatialExclusive held => cases exclusive <;> simp [hk, LeaseKind.Overlaps] at hover
        | spatialShared held => cases exclusive <;> simp [hk, LeaseKind.Overlaps] at hover
        | entityExclusive id =>
            have hmeet : id = entityId := by
              cases exclusive <;> simpa [hk, LeaseKind.Overlaps] using hover
            simp [hk, hmeet, hholder] at h
        | entityShared id =>
            have hmeet : id = entityId := by
              cases exclusive <;> simpa [hk, LeaseKind.Overlaps] using hover
            have hex : exclusive = true := by
              cases exclusive
              · simp [hk, LeaseKind.IsExclusive] at hexcl
              · rfl
            simp [hk, hmeet, hex, hholder] at h
      · refine ih ?_ r hr hlive hholder hconf
        split at h
        · exact h
        · split at h
          · split at h
            · cases h
            · exact h
          · split at h
            · cases h
            · exact h
          · exact h

end Acquire

/-- A granted lease is an effect of the operation that asked for it. -/
theorem effect_grant {m : LeaseManager} {op : LeaseOp} (hids : IdsBelow m)
    {sessionId : SessionId} {kind : LeaseKind} {currentTick : GameTick}
    (expiresAtTick : GameTick) (htick : op.tick = some currentTick)
    (hfree : ∀ r ∈ m.leases.values, currentTick < r.expiresAtTick →
      r.holderSession ≠ sessionId → ¬ r.kind.Conflicts kind) :
    Effect m op ((m.grant sessionId kind currentTick expiresAtTick).1.map some)
      (m.grant sessionId kind currentTick expiresAtTick).2 := by
  rcases grant_cases hids kind expiresAtTick with ⟨e, he⟩ | ⟨id, next, hid, hnext, heq⟩
  · rw [he]
    exact .refused e
  · rw [heq]
    refine .granted id next _ htick hid hnext fun i r hr => ?_
    exact hfree r ((OMap.mem_values_iff _ r).2 ⟨i, hr⟩)

/-- **Every operation has one of the listed effects.** -/
theorem exec_effect {m : LeaseManager} (hids : IdsBelow m) (op : LeaseOp) :
    Effect m op (op.exec m).1 (op.exec m).2 := by
  cases op with
  | acquireSpatial sessionId cuboid exclusive currentTick ttlTicks =>
      simp only [LeaseOp.exec, LeaseManager.acquireSpatialLease]
      cases checkedExpiry currentTick ttlTicks with
      | error e => exact .refused e
      | ok expiresAtTick =>
          cases hc : LeaseManager.checkSpatial sessionId cuboid exclusive currentTick
              m.leases.values with
          | error e => exact .refused e
          | ok _ => exact effect_grant hids expiresAtTick rfl (checkSpatial_ok hc)
  | acquireEntity sessionId entityId exclusive currentTick ttlTicks =>
      simp only [LeaseOp.exec, LeaseManager.acquireEntityLease]
      cases checkedExpiry currentTick ttlTicks with
      | error e => exact .refused e
      | ok expiresAtTick =>
          cases hc : LeaseManager.checkEntity sessionId entityId exclusive currentTick
              m.leases.values with
          | error e => exact .refused e
          | ok _ => exact effect_grant hids expiresAtTick rfl (checkEntity_ok hc)
  | verify leaseId holder area currentTick =>
      simp only [LeaseOp.exec]
      cases m.verifyExclusiveSpatial leaseId holder area currentTick with
      | error e => exact .refused e
      | ok _ => exact .verified
  | renew leaseId currentTick extensionTicks =>
      simp only [LeaseOp.exec, LeaseManager.renewLease]
      cases hget : m.leases.get? leaseId with
      | none => exact .refused _
      | some record =>
          dsimp only
          split
          · exact .refused _
          · rename_i hlive
            split
            · exact .refused _
            · cases hadd : U.checkedAdd record.expiresAtTick extensionTicks with
              | none => exact .refused _
              | some expiresAtTick =>
                  refine .renewed leaseId record currentTick expiresAtTick rfl hget
                    (not_le.1 hlive) ?_
                  have hsum := U.checkedAdd_eq_some.1 hadd
                  rw [Fin.le_def]
                  omega
  | release leaseId sessionId =>
      simp only [LeaseOp.exec, LeaseManager.releaseLease]
      cases hget : m.leases.get? leaseId with
      | none => exact .refused _
      | some record =>
          dsimp only
          split
          · exact .refused _
          · rename_i hholder
            refine .kept (fun k _ => k ≠ leaseId) fun id r hr hdrop => .inl (.inl ?_)
            have hid : id = leaseId := by simpa using hdrop
            subst hid
            rw [hget] at hr
            cases hr
            rw [not_not.1 hholder]
  | releaseSession sessionId =>
      refine .kept (fun _ record => record.holderSession ≠ sessionId) fun id r _ hdrop =>
        .inl (.inr ?_)
      have hholder : r.holderSession = sessionId := by simpa using hdrop
      rw [hholder]
  | cleanup currentTick =>
      refine .kept (fun _ record => ¬ record.expiresAtTick ≤ currentTick) fun id r _ hdrop =>
        .inr ⟨currentTick, rfl, by simpa using hdrop⟩

/-! ## The invariant -/

/-- The validity intervals of two leases do not meet. -/
def LeaseRecord.Apart (r q : LeaseRecord) : Prop :=
  r.expiresAtTick ≤ q.acquiredTick ∨ q.expiresAtTick ≤ r.acquiredTick

/-- Conflicting leases of different sessions are apart. -/
def Exclusive (m : LeaseManager) : Prop :=
  ∀ i j r q, m.leases.get? i = some r → m.leases.get? j = some q →
    r.holderSession ≠ q.holderSession → r.kind.Conflicts q.kind → r.Apart q

structure LeaseInv (b : LeaseBook) : Prop where
  ids : IdsBelow b.manager
  acquired : ∀ id r, b.manager.leases.get? id = some r → r.acquiredTick ≤ b.now
  exclusive : Exclusive b.manager

variable {b b' : LeaseBook} {op : LeaseOp} {ops : List LeaseOp}

/-- The clock does not go back. -/
theorem LeaseBook.Step.now_le (h : b.Step op b') : b.now ≤ b'.now := by
  obtain ⟨hnow, rfl⟩ := h
  cases htick : op.tick with
  | none => exact le_rfl
  | some tick => exact hnow tick htick

/-- At an operation with a tick, the clock is that tick. -/
theorem LeaseBook.Step.now_eq (h : b.Step op b') {tick : GameTick} (htick : op.tick = some tick) :
    b'.now = tick := by
  obtain ⟨-, rfl⟩ := h
  rw [htick, Option.getD_some]

theorem LeaseBook.Step.effect (h : b.Step op b') (hids : IdsBelow b.manager) :
    ∃ result, Effect b.manager op result b'.manager := by
  obtain ⟨-, rfl⟩ := h
  exact ⟨_, exec_effect hids op⟩

theorem ids_step (hids : IdsBelow b.manager) (h : b.Step op b') : IdsBelow b'.manager := by
  obtain ⟨result, heffect⟩ := h.effect hids
  generalize b'.manager = m' at heffect
  cases heffect with
  | refused e => exact hids
  | verified => exact hids
  | granted id next record tick id_eq next_eq free =>
      intro i r hr
      simp only [OMap.get?_insert] at hr
      split at hr
      · rename_i hi
        rw [hi]
        dsimp only
        omega
      · have hlt := hids i r hr
        dsimp only
        omega
  | renewed id record currentTick expiresAtTick tick held live later =>
      intro i r hr
      simp only [OMap.get?_insert] at hr
      split at hr
      · rename_i hi
        rw [hi]
        exact hids id record held
      · exact hids i r hr
  | kept keep dropped =>
      intro i r hr
      simp only [OMap.get?_filter, Option.filter_eq_some_iff] at hr
      exact hids i r hr.1

theorem LeaseInv.step (hinv : LeaseInv b) (h : b.Step op b') : LeaseInv b' := by
  have hnow := h.now_le
  have hids := ids_step hinv.ids h
  obtain ⟨result, heffect⟩ := h.effect hinv.ids
  suffices hrest : (∀ id r, b'.manager.leases.get? id = some r → r.acquiredTick ≤ b'.now) ∧
      Exclusive b'.manager from ⟨hids, hrest.1, hrest.2⟩
  have hold : ∀ id r, b.manager.leases.get? id = some r → r.acquiredTick ≤ b'.now :=
    fun id r hr => (hinv.acquired id r hr).trans hnow
  have hclock : ∀ tick, op.tick = some tick → b'.now = tick := fun tick => h.now_eq
  generalize b'.manager = m' at heffect
  cases heffect with
  | refused e => exact ⟨hold, hinv.exclusive⟩
  | verified => exact ⟨hold, hinv.exclusive⟩
  | granted id next record tick id_eq next_eq free =>
      -- a live lease that conflicts would have refused the grant, so the others are over
      have hover : ∀ i q, b.manager.leases.get? i = some q →
          q.holderSession ≠ record.holderSession → q.kind.Conflicts record.kind →
          q.expiresAtTick ≤ record.acquiredTick :=
        fun i q hq hholder hconf => not_lt.1 fun hlive => free i q hq hlive hholder hconf
      constructor
      · intro i r hr
        simp only [OMap.get?_insert] at hr
        split at hr
        · cases hr
          exact (hclock _ tick).ge
        · exact hold i r hr
      · intro i j r q hr hq hholder hconf
        simp only [OMap.get?_insert] at hr hq
        split at hr
        · cases hr
          split at hq
          · cases hq
            exact absurd rfl hholder
          · exact .inr (hover j q hq hholder.symm hconf.symm)
        · split at hq
          · cases hq
            exact .inl (hover i r hr hholder hconf)
          · exact hinv.exclusive i j r q hr hq hholder hconf
  | renewed id record currentTick expiresAtTick tick held live later =>
      -- the renewed lease is live, so it is the other one that came and went before it
      have hpast : ∀ j q, b.manager.leases.get? j = some q → record.Apart q →
          q.expiresAtTick ≤ record.acquiredTick := by
        intro j q hq hapart
        refine hapart.resolve_left fun hle => ?_
        exact absurd (live.trans_le (hle.trans (hold j q hq))) (by rw [hclock _ tick]; simp)
      constructor
      · intro i r hr
        simp only [OMap.get?_insert] at hr
        split at hr
        · cases hr
          exact hold id record held
        · exact hold i r hr
      · intro i j r q hr hq hholder hconf
        simp only [OMap.get?_insert] at hr hq
        split at hr
        · cases hr
          split at hq
          · cases hq
            exact absurd rfl hholder
          · exact .inr (hpast j q hq (hinv.exclusive id j record q held hq hholder hconf))
        · split at hq
          · cases hq
            exact .inl (hpast i r hr
              (hinv.exclusive id i record r held hr hholder.symm hconf.symm))
          · exact hinv.exclusive i j r q hr hq hholder hconf
  | kept keep dropped =>
      simp only [OMap.get?_filter, Option.filter_eq_some_iff]
      constructor
      · exact fun id r hr => hold id r hr.1
      · intro i j r q hr hq
        simp only [OMap.get?_filter, Option.filter_eq_some_iff] at hr hq
        exact hinv.exclusive i j r q hr.1 hq.1

theorem LeaseInv.start {m : LeaseManager} (h : m.leases = .nil) (now : GameTick) :
    LeaseInv ⟨now, m⟩ := by
  refine ⟨fun id r hr => ?_, fun id r hr => ?_, fun i j r q hr => ?_⟩ <;> simp [h] at hr

/-- **The invariant holds along every run.** -/
theorem LeaseInv.of_run (h : Run LeaseBook.Step b ops b') (hb : LeaseInv b) : LeaseInv b' :=
  h.preserves (P := LeaseInv) (fun _ _ _ => LeaseInv.step) hb

/-! ## Verification -/

/-- The corners of a cuboid are the right way round. -/
def MapCuboid.Ordered (c : MapCuboid) : Prop :=
  c.min.x ≤ c.max.x ∧ c.min.y ≤ c.max.y ∧ c.min.z ≤ c.max.z

theorem MapCuboid.new_ok_iff (lo hi : MapCoord) (c : MapCuboid) :
    MapCuboid.new lo hi = .ok c ↔ c = ⟨lo, hi⟩ ∧ c.Ordered := by
  unfold MapCuboid.new
  split
  · rename_i h
    refine iff_of_false (by simp) ?_
    rintro ⟨rfl, hx, hy, hz⟩
    rcases h with h | h | h
    · exact absurd hx (not_le.2 h)
    · exact absurd hy (not_le.2 h)
    · exact absurd hz (not_le.2 h)
  · rename_i h
    simp only [not_or, gt_iff_lt, not_lt] at h
    constructor
    · rintro ⟨⟩
      exact ⟨rfl, h⟩
    · rintro ⟨rfl, -⟩
      rfl

/-- What a verified area rests on: a live exclusive lease of the holder that covers it. -/
theorem verifyExclusiveSpatial_ok {m : LeaseManager} {leaseId : LeaseId} {holder : SessionId}
    {area : MapCuboid} {currentTick : GameTick}
    (h : m.verifyExclusiveSpatial leaseId holder area currentTick = .ok ()) :
    area.Ordered ∧ ∃ record held, m.leases.get? leaseId = some record ∧
      record.holderSession = holder ∧ record.acquiredTick ≤ currentTick ∧
      currentTick < record.expiresAtTick ∧ record.kind = .spatialExclusive held ∧ held.Ordered ∧
      held.containsCuboid area = true := by
  unfold LeaseManager.verifyExclusiveSpatial at h
  obtain ⟨c, hc, h⟩ := bind_ok_iff.1 h
  obtain ⟨rfl, harea⟩ := (MapCuboid.new_ok_iff _ _ _).1 hc
  refine ⟨harea, ?_⟩
  cases hget : m.leases.get? leaseId with
  | none => simp [hget, throw, throwThe, MonadExceptOf.throw] at h
  | some record =>
      simp only [hget, guard_ok_iff, not_or, not_not, not_lt, ge_iff_le, not_le] at h
      obtain ⟨⟨hholder, hacq, hexp⟩, h⟩ := h
      cases hk : record.kind with
      | spatialExclusive held =>
          simp only [hk] at h
          obtain ⟨c', hc', h⟩ := bind_ok_iff.1 h
          obtain ⟨rfl, hordered⟩ := (MapCuboid.new_ok_iff _ _ _).1 hc'
          by_cases hcover : held.containsCuboid area = true
          · exact ⟨record, held, rfl, hholder, hacq, hexp, hk, hordered, hcover⟩
          · simp [hcover, throw, throwThe, MonadExceptOf.throw] at h
      | _ => simp [hk, throw, throwThe, MonadExceptOf.throw] at h

/-- Cuboids that cover meeting cuboids meet. -/
theorem cuboidsIntersect_of_contains {held held' area area' : MapCuboid} (ho : held.Ordered)
    (ho' : held'.Ordered) (ha : area.Ordered) (ha' : area'.Ordered)
    (hc : held.containsCuboid area = true) (hc' : held'.containsCuboid area' = true)
    (h : cuboidsIntersect area area' = true) : cuboidsIntersect held held' = true := by
  rw [cuboidsIntersect_iff] at h ⊢
  obtain ⟨hx, hy, hz⟩ := ho
  obtain ⟨hx', hy', hz'⟩ := ho'
  obtain ⟨ax, ay, az⟩ := ha
  obtain ⟨ax', ay', az'⟩ := ha'
  simp only [MapCuboid.containsCuboid, MapCuboid.contains, Bool.and_eq_true, decide_eq_true_eq,
    ge_iff_le] at hc hc'
  simp only [min_eq_left, max_eq_right, hx, hy, hz, hx', hy', hz', ax, ay, az, ax', ay', az'] at h ⊢
  obtain ⟨⟨⟨⟨⟨⟨cx, -⟩, cy⟩, -⟩, cz⟩, -⟩, ⟨⟨⟨⟨-, dx⟩, -⟩, dy⟩, -⟩, dz⟩ := hc
  obtain ⟨⟨⟨⟨⟨⟨cx', -⟩, cy'⟩, -⟩, cz'⟩, -⟩, ⟨⟨⟨⟨-, dx'⟩, -⟩, dy'⟩, -⟩, dz'⟩ := hc'
  obtain ⟨⟨h₁, h₂⟩, ⟨h₃, h₄⟩, h₅, h₆⟩ := h
  exact ⟨⟨cx.trans (h₁.trans dx'), cx'.trans (h₂.trans dx)⟩,
    ⟨cy.trans (h₃.trans dy'), cy'.trans (h₄.trans dy)⟩,
    cz.trans (h₅.trans dz'), cz'.trans (h₆.trans dz)⟩

/-! ## A lease leaves its mark -/

/-- A lease that was held keeps conflicting ones out of its interval for as long as it is not
given up, even after it has been pruned. -/
structure Remembers (id : LeaseId) (r : LeaseRecord) (b : LeaseBook) : Prop where
  below : id.val < b.manager.nextLeaseSeq.val
  since : r.acquiredTick ≤ b.now
  apart : ∀ j q, b.manager.leases.get? j = some q → r.holderSession ≠ q.holderSession →
    r.kind.Conflicts q.kind → r.Apart q
  held : (∃ r', b.manager.leases.get? id = some r' ∧ r'.holderSession = r.holderSession ∧
    r'.kind = r.kind ∧ r.expiresAtTick ≤ r'.expiresAtTick) ∨ r.expiresAtTick ≤ b.now

theorem LeaseInv.remembers (hinv : LeaseInv b) {id : LeaseId} {r : LeaseRecord}
    (hr : b.manager.leases.get? id = some r) : Remembers id r b where
  below := hinv.ids id r hr
  since := hinv.acquired id r hr
  apart j q hq := hinv.exclusive id j r q hr hq
  held := .inl ⟨r, hr, rfl, rfl, le_rfl⟩

theorem Remembers.step {id : LeaseId} {r : LeaseRecord} (hrem : Remembers id r b)
    (hids : IdsBelow b.manager) (h : b.Step op b') (hno : ¬ op.Releases id r.holderSession) :
    Remembers id r b' := by
  have hnow := h.now_le
  have hsince := hrem.since.trans hnow
  have hclock : ∀ tick, op.tick = some tick → b'.now = tick := fun tick => h.now_eq
  obtain ⟨result, heffect⟩ := h.effect hids
  have hheld := hrem.held.imp_right fun hle => hle.trans hnow
  obtain ⟨now', m'⟩ := b'
  dsimp only at heffect hnow hsince hclock hheld
  cases heffect with
  | refused e => exact ⟨hrem.below, hsince, hrem.apart, hheld⟩
  | verified => exact ⟨hrem.below, hsince, hrem.apart, hheld⟩
  | granted new next record tick id_eq next_eq free =>
      have hne : id ≠ new := fun heq => by
        have hlt := hrem.below
        rw [heq] at hlt
        omega
      refine ⟨by have := hrem.below; dsimp only; omega, hsince, fun j q hq hholder hconf => ?_,
        hheld.imp_left ?_⟩
      · simp only [OMap.get?_insert] at hq
        split at hq
        · cases hq
          left
          rcases hrem.held with ⟨r', hr', hholder', hkind', hle⟩ | hle
          · refine hle.trans (not_lt.1 fun hlive => ?_)
            exact free id r' hr' hlive (hholder' ▸ hholder) (hkind' ▸ hconf)
          · exact (hle.trans hnow).trans (hclock _ tick).le
        · exact hrem.apart j q hq hholder hconf
      · rintro ⟨r', hr', hrest⟩
        exact ⟨r', by simp only [OMap.get?_insert, if_neg hne, hr'], hrest⟩
  | renewed other record currentTick expiresAtTick tick isHeld live later =>
      refine ⟨hrem.below, hsince, fun j q hq hholder hconf => ?_, hheld.imp_left ?_⟩
      · simp only [OMap.get?_insert] at hq
        split at hq
        · cases hq
          refine .inl ((hrem.apart other record isHeld hholder hconf).resolve_right fun hle => ?_)
          exact absurd (live.trans_le (hle.trans hsince)) (by rw [hclock _ tick]; simp)
        · exact hrem.apart j q hq hholder hconf
      · rintro ⟨r', hr', hholder', hkind', hle⟩
        by_cases hid : id = other
        · subst hid
          rw [isHeld] at hr'
          cases hr'
          exact ⟨{ record with expiresAtTick }, by simp only [OMap.get?_insert, if_true], hholder',
            hkind', hle.trans later⟩
        · exact ⟨r', by simp only [OMap.get?_insert, if_neg hid, hr'], hholder', hkind', hle⟩
  | kept keep dropped =>
      refine ⟨hrem.below, hsince, fun j q hq => ?_, ?_⟩
      · simp only [OMap.get?_filter, Option.filter_eq_some_iff] at hq
        exact hrem.apart j q hq.1
      · rcases hheld with ⟨r', hr', hholder', hkind', hle⟩ | hle
        · cases hkeep : keep id r' with
          | true =>
              exact .inl ⟨r', by simp [OMap.get?_filter, hr', hkeep], hholder', hkind', hle⟩
          | false =>
              rcases dropped id r' hr' hkeep with hrel | ⟨tick, htick, hexp⟩
              · exact absurd (hholder' ▸ hrel) hno
              · exact .inr (hle.trans (hexp.trans (hclock tick htick).ge))
        · exact .inr hle

/-- **A lease that was not given up** is remembered by the whole run. -/
theorem Remembers.of_run {id : LeaseId} {r : LeaseRecord} (h : Run LeaseBook.Step b ops b')
    (hinv : LeaseInv b) (hrem : Remembers id r b)
    (hno : ∀ op ∈ ops, ¬ op.Releases id r.holderSession) : Remembers id r b' := by
  have hboth := h.preserves_of_mem (P := fun b => LeaseInv b ∧ Remembers id r b)
    (fun _ op _ hmem hs hstep => ⟨hs.1.step hstep, hs.2.step hs.1.ids hstep (hno op hmem)⟩)
    ⟨hinv, hrem⟩
  exact hboth.2

/-! ## Whole runs -/

/-- No two leases of different sessions that are live at this tick conflict. -/
def MutuallyExclusive (m : LeaseManager) (tick : GameTick) : Prop :=
  ∀ i j r q, m.leases.get? i = some r → m.leases.get? j = some q → tick < r.expiresAtTick →
    tick < q.expiresAtTick → r.holderSession ≠ q.holderSession → ¬ r.kind.Conflicts q.kind

theorem LeaseInv.mutuallyExclusive (hinv : LeaseInv b) {tick : GameTick} (htick : b.now ≤ tick) :
    MutuallyExclusive b.manager tick := by
  intro i j r q hr hq hlive hlive' hholder hconf
  rcases hinv.exclusive i j r q hr hq hholder hconf with hle | hle
  · exact absurd (hlive.trans_le (hle.trans (hinv.acquired j q hq))) (not_lt.2 htick)
  · exact absurd (hlive'.trans_le (hle.trans (hinv.acquired i r hr))) (not_lt.2 htick)

theorem nextLeaseSeq_step (hids : IdsBelow b.manager) (h : b.Step op b') :
    b.manager.nextLeaseSeq ≤ b'.manager.nextLeaseSeq := by
  obtain ⟨result, heffect⟩ := h.effect hids
  generalize b'.manager = m' at heffect
  cases heffect with
  | granted id next record tick id_eq next_eq free =>
      rw [Fin.le_def]
      dsimp only
      omega
  | _ => exact le_rfl

/-- A granted identifier is the next one, and is then used up. -/
theorem granted_id (hids : IdsBelow b.manager) (h : b.Step op b') {id : LeaseId}
    (hid : (op.exec b.manager).1 = .ok (some id)) :
    id.val = b.manager.nextLeaseSeq.val ∧ id.val < b'.manager.nextLeaseSeq.val := by
  have heffect := exec_effect hids op
  obtain ⟨-, rfl⟩ := h
  rw [hid] at heffect
  generalize (op.exec b.manager).2 = m' at heffect
  cases heffect with
  | granted _ next record tick id_eq next_eq free => exact ⟨id_eq, by dsimp only; omega⟩

/-- A failed operation leaves the manager as it was. -/
theorem exec_error (hids : IdsBelow b.manager) {e : DfmcpError}
    (h : (op.exec b.manager).1 = .error e) : (op.exec b.manager).2 = b.manager := by
  have heffect := exec_effect hids op
  rw [h] at heffect
  generalize (op.exec b.manager).2 = m' at heffect
  cases heffect with
  | refused => rfl

/-- Two sessions verify meeting areas at one tick only when the first has given its lease up in
between. -/
theorem releases_of_verify (hinv : LeaseInv b) (h : Run LeaseBook.Step b ops b')
    {id id' : LeaseId} {holder holder' : SessionId} {area area' : MapCuboid} {tick : GameTick}
    (hv : b.manager.verifyExclusiveSpatial id holder area tick = .ok ())
    (hv' : b'.manager.verifyExclusiveSpatial id' holder' area' tick = .ok ())
    (hne : holder ≠ holder') (hmeet : cuboidsIntersect area area' = true) :
    ∃ op ∈ ops, op.Releases id holder := by
  by_contra hnone
  obtain ⟨ha, r, held, hr, rfl, hacq, hexp, hk, ho, hc⟩ := verifyExclusiveSpatial_ok hv
  obtain ⟨ha', q, held', hq, rfl, hacq', hexp', hk', ho', hc'⟩ := verifyExclusiveSpatial_ok hv'
  have hrem := (hinv.remembers hr).of_run h hinv fun op hop hrel => hnone ⟨op, hop, hrel⟩
  have hconf : r.kind.Conflicts q.kind := by
    rw [hk, hk']
    exact ⟨cuboidsIntersect_of_contains ho ho' ha ha' hc hc' hmeet, .inl trivial⟩
  rcases hrem.apart id' q hq hne hconf with hle | hle
  · exact absurd (hexp.trans_le (hle.trans hacq')) (lt_irrefl _)
  · exact absurd (hexp'.trans_le (hle.trans hacq)) (lt_irrefl _)

/-- **Lease mutual exclusion.** After every run from an empty book:

* at every tick from the last operation's on, no two live leases of different sessions conflict;
* no identifier is granted twice;
* two sessions are never both verified for meeting areas at one tick, and if they are at two
  points of a run, the first session gave its lease up in between;
* an operation that fails leaves every lease as it was. -/
theorem lease_exclusion {start : LeaseManager} (hstart : start.leases = .nil)
    (h : Run LeaseBook.Step ⟨0, start⟩ ops b) :
    (∀ tick, b.now ≤ tick → MutuallyExclusive b.manager tick) ∧
    (∀ (op op₂ : LeaseOp) b₁ ops₁ b₂ id id₂, b.Step op b₁ → (op.exec b.manager).1 = .ok (some id) →
      Run LeaseBook.Step b₁ ops₁ b₂ → (op₂.exec b₂.manager).1 = .ok (some id₂) → id ≠ id₂) ∧
    (∀ id id' holder holder' area area' tick,
      b.manager.verifyExclusiveSpatial id holder area tick = .ok () →
      b.manager.verifyExclusiveSpatial id' holder' area' tick = .ok () →
      holder ≠ holder' → cuboidsIntersect area area' = false) ∧
    (∀ ops₁ b₁ id id' holder holder' area area' tick, Run LeaseBook.Step b ops₁ b₁ →
      b.manager.verifyExclusiveSpatial id holder area tick = .ok () →
      b₁.manager.verifyExclusiveSpatial id' holder' area' tick = .ok () →
      holder ≠ holder' → cuboidsIntersect area area' = true →
      ∃ op ∈ ops₁, op.Releases id holder) ∧
    (∀ (op : LeaseOp) e, (op.exec b.manager).1 = .error e → (op.exec b.manager).2 = b.manager) := by
  have hinv : LeaseInv b := (LeaseInv.start hstart 0).of_run h
  refine ⟨fun tick => hinv.mutuallyExclusive, ?_, ?_, ?_, fun op e => exec_error hinv.ids⟩
  · intro op op₂ b₁ ops₁ b₂ id id₂ hstep hid hrun hid₂ heq
    have hinv₁ := hinv.step hstep
    have hseq : b₁.manager.nextLeaseSeq ≤ b₂.manager.nextLeaseSeq :=
      (hrun.preserves
        (P := fun s => LeaseInv s ∧ b₁.manager.nextLeaseSeq ≤ s.manager.nextLeaseSeq)
        (fun _ _ _ hs hst => ⟨hs.1.step hst, hs.2.trans (nextLeaseSeq_step hs.1.ids hst)⟩)
        ⟨hinv₁, le_rfl⟩).2
    have hlt := (granted_id hinv.ids hstep hid).2
    have hinv₂ := hinv₁.of_run hrun
    have hval : id₂.val = b₂.manager.nextLeaseSeq.val := by
      have heffect := exec_effect hinv₂.ids op₂
      rw [hid₂] at heffect
      generalize (op₂.exec b₂.manager).2 = m' at heffect
      cases heffect with
      | granted _ next record tick id_eq next_eq free => exact id_eq
    rw [heq] at hlt
    rw [Fin.le_def] at hseq
    omega
  · intro id id' holder holder' area area' tick hv hv' hne
    by_contra hmeet
    obtain ⟨op, hop, -⟩ := releases_of_verify hinv (.nil b) hv hv' hne (by simpa using hmeet)
    cases hop
  · intro ops₁ b₁ id id' holder holder' area area' tick hrun hv hv' hne hmeet
    exact releases_of_verify hinv hrun hv hv' hne hmeet

/-- Two sessions ask for the same entity; the second request falls due when the first lease has
run out. -/
theorem lease_exclusion_handover :
    let ops : List LeaseOp := [.acquireEntity 1 55 true 0 10, .acquireEntity 2 55 true 10 10]
    ∃ b, Run LeaseBook.Step ⟨0, .new⟩ ops b ∧ b.manager.activeLeaseCount = 2 ∧
      MutuallyExclusive b.manager 10 := by
  intro ops
  have h : Run LeaseBook.Step ⟨0, .new⟩ ops _ :=
    .cons ⟨fun _ _ => Fin.zero_le _, rfl⟩ (.cons ⟨fun _ _ => Fin.zero_le _, rfl⟩ (.nil _))
  exact ⟨_, h, by decide, (lease_exclusion rfl h).1 10 (by decide)⟩

end Dfmcp
