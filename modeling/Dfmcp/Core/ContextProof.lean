import Dfmcp.Core.Context

/-!
# What a run of requests takes from its grants

A request is charged to the first grant that allows it, or it is refused and nothing changes. The
holder of a context may change everything else in it from one request to the next, so a `Request`
says under which anchor, budget and cancellation flag it is made; the grants are threaded through.

* `chargeFirst_spec` — which grant is charged, and what is left of it;
* `exchange_spec` — one request;
* `consumption_exact` — every run: who is charged, how often, and what is left.
-/

namespace Dfmcp

open Machine

namespace CapabilityGrant

/-- A grant after one use. -/
def spent (grant : CapabilityGrant) : CapabilityGrant :=
  { grant with remainingUses := grant.remainingUses.map fun uses => U.saturatingSub uses 1 }

/-- A grant that has uses left gives one of them. -/
theorem consumeOneUse_eq {grant : CapabilityGrant} (h : grant.remainingUses ≠ some 0) :
    grant.consumeOneUse = (.ok (), grant.spent) := by
  obtain ⟨capability, scope, maxRisk, expiresAtTick, remainingUses⟩ := grant
  cases remainingUses with
  | none => rfl
  | some remaining =>
      have hpos : (1 : U 32) ≤ remaining := by
        have hne : remaining ≠ 0 := fun hzero => h (congrArg some hzero)
        exact Fin.one_le_of_ne_zero hne
      simp only [consumeOneUse, U.checkedSub, if_pos hpos]
      rfl

/-- What allows a request has a use left. -/
theorem remainingUses_of_allows {grant : CapabilityGrant} {capability : Capability}
    {risk : RiskTier} {tick : GameTick} {fortressId : FortressId} {entityIds : List EntityId}
    {mapArea : Option MapCuboid}
    (h : grant.allows capability risk tick fortressId entityIds mapArea = true) :
    grant.remainingUses ≠ some 0 := by
  intro hzero
  simp [allows, hzero] at h

end CapabilityGrant

namespace OperationContext

/-- **The first grant that allows a request is charged**, and without one nothing changes. -/
theorem chargeFirst_spec {allows : CapabilityGrant → Bool}
    (hallows : ∀ grant, allows grant = true → grant.remainingUses ≠ some 0) (refusal : DfmcpError)
    (grants : List CapabilityGrant) :
    match grants.findIdx? allows with
    | some i => ∃ grant, grants[i]? = some grant ∧ allows grant = true ∧
        chargeFirst allows refusal grants = (.ok (), grants.set i grant.spent)
    | none => chargeFirst allows refusal grants = (.error refusal, grants) := by
  induction grants with
  | nil => rfl
  | cons grant rest ih =>
      rw [List.findIdx?_cons, chargeFirst]
      by_cases h : allows grant = true
      · rw [if_pos h, if_pos h, CapabilityGrant.consumeOneUse_eq (hallows grant h)]
        exact ⟨grant, rfl, h, rfl⟩
      · rw [if_neg h, if_neg h]
        cases hrest : rest.findIdx? allows with
        | none =>
            rw [hrest] at ih
            simp only [Option.map_none]
            rw [ih]
        | some i =>
            rw [hrest] at ih
            obtain ⟨charged, hget, hcharged, hout⟩ := ih
            simp only [Option.map_some]
            rw [hout]
            exact ⟨charged, hget, hcharged, rfl⟩

end OperationContext

/-! ## Requests -/

/-- A request, and what the context holds besides its grants when it is made. -/
structure Request where
  requestId : RequestId
  anchor : StateAnchor
  budget : WorkBudget
  cancellationRequested : Bool
  capability : Capability
  risk : RiskTier
  entityIds : List EntityId
  mapArea : Option MapCuboid

namespace Request

/-- The context in which a request is made. -/
def context (r : Request) (sessionId : SessionId) (grants : List CapabilityGrant) :
    OperationContext :=
  ⟨sessionId, r.requestId, r.anchor, r.budget, grants, r.cancellationRequested⟩

/-- Whether a grant allows the request, when it is made. -/
def allowedBy (r : Request) (grant : CapabilityGrant) : Bool :=
  grant.allows r.capability r.risk r.anchor.tick r.anchor.fortressId r.entityIds r.mapArea

end Request

/-- A request that was answered: the context before and after, and the outcome. -/
structure Exchange where
  request : Request
  before : OperationContext
  outcome : Result Unit
  after : OperationContext

def Request.exchange (r : Request) (sessionId : SessionId) (grants : List CapabilityGrant) :
    Exchange :=
  let answer := (r.context sessionId grants).authorizeAndConsume r.capability r.risk r.entityIds
    r.mapArea
  ⟨r, r.context sessionId grants, answer.1, answer.2⟩

/-- The position of the grant that is charged, if the request is granted. -/
def Exchange.charged (x : Exchange) : Option Nat :=
  if x.outcome.isOk then x.before.grants.findIdx? x.request.allowedBy else none

/-- The exchanges of a run of requests, each with the grants the one before has left. -/
def exchanges (sessionId : SessionId) : List CapabilityGrant → List Request → List Exchange
  | _, [] => []
  | grants, r :: rest =>
      let x := r.exchange sessionId grants
      x :: exchanges sessionId x.after.grants rest

/-- The grants that a run of requests leaves. -/
def grantsAfter (sessionId : SessionId) (grants : List CapabilityGrant) :
    List Request → List CapabilityGrant
  | [] => grants
  | r :: rest => grantsAfter sessionId (r.exchange sessionId grants).after.grants rest

/-- What one exchange may do: charge the first grant that allows the request, or nothing. -/
def Exchange.Exact (x : Exchange) : Prop :=
  match x.outcome with
  | .ok () => ∃ i grant, x.charged = some i ∧ x.before.grants[i]? = some grant ∧
      x.request.allowedBy grant = true ∧
      x.after = { x.before with grants := x.before.grants.set i grant.spent }
  | .error _ => x.charged = none ∧ x.after = x.before

/-- **One request.** -/
theorem exchange_spec (r : Request) (sessionId : SessionId) (grants : List CapabilityGrant) :
    (r.exchange sessionId grants).Exact := by
  have hvalidate : (∃ e, (r.context sessionId grants).authorizeAndConsume r.capability r.risk
        r.entityIds r.mapArea = (.error e, r.context sessionId grants)) ∨
      ∃ refusal, (r.context sessionId grants).authorizeAndConsume r.capability r.risk
        r.entityIds r.mapArea = ((OperationContext.chargeFirst r.allowedBy refusal grants).1,
          { r.context sessionId grants with
            grants := (OperationContext.chargeFirst r.allowedBy refusal grants).2 }) := by
    unfold OperationContext.authorizeAndConsume
    cases (r.context sessionId grants).validateAuthorizationRequest with
    | error e => exact Or.inl ⟨e, rfl⟩
    | ok u => exact Or.inr ⟨_, rfl⟩
  have hrefused : ∀ e, (r.context sessionId grants).authorizeAndConsume r.capability r.risk
      r.entityIds r.mapArea = (.error e, r.context sessionId grants) →
      (r.exchange sessionId grants).Exact := by
    intro e he
    unfold Exchange.Exact Exchange.charged Request.exchange
    rw [he]
    exact ⟨rfl, rfl⟩
  rcases hvalidate with ⟨e, he⟩ | ⟨refusal, hanswer⟩
  · exact hrefused e he
  · have hcharge := @OperationContext.chargeFirst_spec r.allowedBy
      (fun grant h => CapabilityGrant.remainingUses_of_allows h) refusal grants
    cases hfind : grants.findIdx? r.allowedBy with
    | none =>
        rw [hfind] at hcharge
        simp only at hcharge
        rw [hcharge] at hanswer
        exact hrefused refusal hanswer
    | some i =>
        rw [hfind] at hcharge
        obtain ⟨grant, hget, hallows, hout⟩ := hcharge
        rw [hout] at hanswer
        unfold Exchange.Exact Exchange.charged Request.exchange
        rw [hanswer]
        exact ⟨i, grant, hfind, hget, hallows, rfl⟩

/-- What one exchange leaves of a grant: one use fewer if it was charged. -/
theorem grant_after (r : Request) (sessionId : SessionId) {grants : List CapabilityGrant} {i : Nat}
    {grant : CapabilityGrant} (hget : grants[i]? = some grant) :
    (r.exchange sessionId grants).after.grants[i]? =
      some (if (r.exchange sessionId grants).charged = some i then grant.spent else grant) := by
  have hexact := exchange_spec r sessionId grants
  set x := r.exchange sessionId grants
  have hbefore : x.before.grants = grants := rfl
  unfold Exchange.Exact at hexact
  cases hout : x.outcome with
  | error e =>
      rw [hout] at hexact
      obtain ⟨hcharged, hafter⟩ := hexact
      rw [hafter, hbefore, hget, hcharged, if_neg (by simp)]
  | ok u =>
      rw [hout] at hexact
      obtain ⟨j, charged, hcharged, hj, -, hafter⟩ := hexact
      rw [hafter, hcharged]
      show (x.before.grants.set j charged.spent)[i]? = _
      rw [hbefore, List.getElem?_set]
      by_cases hij : j = i
      · subst hij
        have hlt : j < grants.length := (List.getElem?_eq_some_iff.1 hget).1
        rw [hbefore, hget] at hj
        obtain rfl := Option.some.inj hj
        rw [if_pos rfl, if_pos hlt, if_pos rfl]
      · rw [if_neg hij, hget, if_neg fun h => hij (Option.some.inj h)]

/-! ## Runs -/

section Runs

variable (sessionId : SessionId) (requests : List Request)

/-- How often a grant is charged in a run. -/
def timesCharged (grants : List CapabilityGrant) (i : Nat) : Nat :=
  ((exchanges sessionId grants requests).map Exchange.charged).count (some i)

/-- What a run leaves of a grant: its uses, less one for every time it was charged. -/
theorem grant_grantsAfter (grants : List CapabilityGrant) {i : Nat} {grant : CapabilityGrant}
    (hget : grants[i]? = some grant) :
    (∀ uses, grant.remainingUses = some uses → timesCharged sessionId requests grants i ≤ uses.val) ∧
    ∃ last, (grantsAfter sessionId grants requests)[i]? = some last ∧
      last = { grant with remainingUses := last.remainingUses } ∧
      last.remainingUses.map Fin.val =
        grant.remainingUses.map fun uses => uses.val - timesCharged sessionId requests grants i := by
  -- on the run: the first request takes one use or none, and leaves the grant to the others
  induction requests generalizing grants grant with
  | nil =>
      refine ⟨fun uses _ => Nat.zero_le _, grant, hget, rfl, ?_⟩
      cases grant.remainingUses <;> rfl
  | cons r rest ih =>
      have hexact := exchange_spec r sessionId grants
      have hafter := grant_after r sessionId hget
      set x := r.exchange sessionId grants with hx
      have hcount : timesCharged sessionId (r :: rest) grants i =
          timesCharged sessionId rest x.after.grants i + if x.charged = some i then 1 else 0 := by
        unfold timesCharged
        rw [exchanges, ← hx, List.map_cons, List.count_cons]
        simp only [beq_iff_eq]
      by_cases hcharged : x.charged = some i
      · rw [if_pos hcharged] at hafter hcount
        obtain ⟨hbound, last, hlast, hsame, huses⟩ := ih x.after.grants hafter
        -- the charged grant allowed the request, so it had a use left
        have hpos : ∀ uses, grant.remainingUses = some uses → 0 < uses.val := by
          intro uses huse
          have hne : grant.remainingUses ≠ some 0 := by
            unfold Exchange.Exact at hexact
            cases hout : x.outcome with
            | error e =>
                rw [hout] at hexact
                rw [hexact.1] at hcharged
                cases hcharged
            | ok u =>
                rw [hout] at hexact
                obtain ⟨j, charged, hj, hgetj, hallows, -⟩ := hexact
                obtain rfl := Option.some.inj (hj.symm.trans hcharged)
                obtain rfl := Option.some.inj (hgetj.symm.trans hget)
                exact CapabilityGrant.remainingUses_of_allows hallows
          rw [huse] at hne
          exact Nat.pos_of_ne_zero fun h => hne (congrArg some (Fin.ext h))
        refine ⟨fun uses huse => ?_, last, hlast, ?_, ?_⟩
        · have hspent : grant.spent.remainingUses = some (U.saturatingSub uses 1) := by
            simp [CapabilityGrant.spent, huse]
          have hrest := hbound _ hspent
          have hval : (U.saturatingSub uses 1 : U 32).val = uses.val - 1 := rfl
          have := hpos uses huse
          omega
        · rw [hsame]
          rfl
        · rw [huses, hcount]
          cases huse : grant.remainingUses with
          | none => simp [CapabilityGrant.spent, huse]
          | some uses =>
              have hval : (U.saturatingSub uses 1 : U 32).val = uses.val - 1 := rfl
              simp only [CapabilityGrant.spent, huse, Option.map_some, hval, Option.some.injEq]
              omega
      · rw [if_neg hcharged] at hafter hcount
        obtain ⟨hbound, last, hlast, hsame, huses⟩ := ih x.after.grants hafter
        exact ⟨fun uses huse => hcount ▸ hbound uses huse, last, hlast, hsame, hcount ▸ huses⟩

theorem exact_of_mem_exchanges (grants : List CapabilityGrant) {x : Exchange}
    (hx : x ∈ exchanges sessionId grants requests) : x.Exact := by
  induction requests generalizing grants with
  | nil => cases hx
  | cons r rest ih =>
      rcases List.mem_cons.1 hx with rfl | hrest
      · exact exchange_spec r sessionId grants
      · exact ih _ hrest

/-- **Grant consumption is exact.** In every run of requests, whatever is changed in the context
between them, a request that succeeds is charged to one grant, the first of those then held that
allows it, and changes no other; a request that fails changes nothing. A limited grant is charged
at most as often as it had uses at the start, and is left with the rest of them. -/
theorem consumption_exact (grants : List CapabilityGrant) :
    (∀ x ∈ exchanges sessionId grants requests, x.Exact) ∧
    ∀ i grant uses, grants[i]? = some grant → grant.remainingUses = some uses →
      timesCharged sessionId requests grants i ≤ uses.val ∧
      ∃ last left, (grantsAfter sessionId grants requests)[i]? = some last ∧
        last = { grant with remainingUses := some left } ∧
        left.val = uses.val - timesCharged sessionId requests grants i := by
  refine ⟨fun x hx => exact_of_mem_exchanges sessionId requests grants hx, ?_⟩
  intro i grant uses hget huses
  obtain ⟨hbound, last, hlast, hsame, hleft⟩ :=
    grant_grantsAfter sessionId requests grants hget
  rw [huses, Option.map_some] at hleft
  obtain ⟨left, hremaining, hval⟩ := Option.map_eq_some_iff.1 hleft
  exact ⟨hbound uses huses, last, left, hlast, by rw [hsame, hremaining], hval⟩

end Runs

/-! ## One grant of one use -/

namespace Sample

/-- A grant that allows one observation. -/
def onceGrant : CapabilityGrant := ⟨.observe, .unrestricted, .readOnly, none, some 1⟩

def observation : Request where
  requestId := 1
  anchor := ⟨1, ⟨0, 0⟩, 0, Digest32.zero⟩
  budget := WorkBudget.conservativeDefault
  cancellationRequested := false
  capability := .observe
  risk := .readOnly
  entityIds := []
  mapArea := none

end Sample

/-- Of two observations under one grant of one use, the first takes it and the second is refused. -/
theorem consumption_exact_once :
    timesCharged 1 [Sample.observation, Sample.observation] [Sample.onceGrant] 0 = 1 ∧
    (∀ x ∈ exchanges 1 [Sample.onceGrant] [Sample.observation, Sample.observation], x.Exact) ∧
    ∃ last left, (grantsAfter 1 [Sample.onceGrant] [Sample.observation, Sample.observation])[0]? =
        some last ∧ last = { Sample.onceGrant with remainingUses := some left } ∧
      left.val = 1 - timesCharged 1 [Sample.observation, Sample.observation] [Sample.onceGrant] 0 := by
  obtain ⟨hexact, hgrants⟩ :=
    consumption_exact 1 [Sample.observation, Sample.observation] [Sample.onceGrant]
  obtain ⟨-, hlast⟩ := hgrants 0 Sample.onceGrant 1 rfl rfl
  exact ⟨by decide, hexact, hlast⟩

end Dfmcp
