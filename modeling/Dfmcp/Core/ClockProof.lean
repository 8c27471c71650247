import Dfmcp.Core.Clock
import Dfmcp.Library.Runs

/-!
# Safety of the clock governor

A history is any sequence of governor operations with the results they returned. The governor
keeps two accounts apart: the tick it has reached and, for each session, the budget it may still
draw on. Membership changes move the quorum and the votes together, so the votes stay among the
registered sessions and counting them is counting the registered sessions that agreed.

* `WellFormed` — votes, emergency pauses and budgets belong to registered sessions;
* `isUnpaused_iff` — the clock may run exactly when a quorum of the registered sessions wants it to
  and no emergency is active;
* `clock_safety` — all of it over whole histories, with both accounts balanced.
-/

namespace Dfmcp

open Machine Runs

/-! ## Histories -/

inductive ClockOp where
  | register (sessionId : SessionId) (initialBudget : U 64)
  | unregister (sessionId : SessionId)
  | requestEmergencyPause (sessionId : SessionId)
  | releaseEmergencyPause (sessionId : SessionId)
  | voteUnpause (sessionId : SessionId)
  | votePause (sessionId : SessionId)
  | consume (sessionId : SessionId) (ticks : U 64)
  | advance (ticks : U 64)
deriving DecidableEq

/-- Perform an operation: the tick it reached, if it advanced the clock, and the governor it
leaves. -/
def ClockOp.exec (g : ClockGovernor) : ClockOp → Result (Option GameTick) × ClockGovernor
  | .register sessionId initialBudget => (.ok none, g.registerSession sessionId initialBudget)
  | .unregister sessionId => (.ok none, g.unregisterSession sessionId)
  | .requestEmergencyPause sessionId =>
      let (result, g') := g.requestEmergencyPause sessionId
      (result.map fun _ => none, g')
  | .releaseEmergencyPause sessionId => (.ok none, g.releaseEmergencyPause sessionId)
  | .voteUnpause sessionId => (.ok none, g.voteUnpause sessionId)
  | .votePause sessionId => (.ok none, g.votePause sessionId)
  | .consume sessionId ticks =>
      let (result, g') := g.consumeTickBudget sessionId ticks
      (result.map fun _ => none, g')
  | .advance ticks =>
      let (result, g') := g.advanceTicks ticks
      (result.map some, g')

/-- An operation and the result it returned. -/
abbrev ClockEvent := ClockOp × Result (Option GameTick)

def ClockStep (g : ClockGovernor) (event : ClockEvent) (g' : ClockGovernor) : Prop :=
  event.1.exec g = (event.2, g')

/-- What the successful advances of a history come to. -/
def ticksAdvanced (events : List ClockEvent) : Nat :=
  events.foldl (fun total event =>
    match event with
    | (.advance ticks, .ok _) => total + ticks.val
    | _ => total) 0

/-- What a session was granted when it was last registered, and what it has drawn since. -/
structure TickAccount where
  granted : Nat
  consumed : Nat

/-- The account of a session after one more event. -/
def TickAccount.post (sessionId : SessionId) (account : Option TickAccount) :
    ClockEvent → Option TickAccount
  | (.register id initialBudget, _) =>
      if sessionId = id then some ⟨initialBudget.val, 0⟩ else account
  | (.unregister id, _) => if sessionId = id then none else account
  | (.consume id ticks, .ok _) =>
      if sessionId = id then
        account.map fun a => { a with consumed := a.consumed + ticks.val }
      else account
  | _ => account

/-- The account of a session after a history. -/
def tickAccount (sessionId : SessionId) (events : List ClockEvent) : Option TickAccount :=
  events.foldl (TickAccount.post sessionId) none

namespace ClockGovernor

variable {g g' : ClockGovernor}

/-! ## Membership -/

/-- Votes, emergency pauses and budgets belong to registered sessions. -/
structure WellFormed (g : ClockGovernor) : Prop where
  votes : ∀ s, g.unpauseVotes.contains s = true → g.registeredSessions.contains s = true
  pauses : ∀ s, g.emergencyPauses.contains s = true → g.registeredSessions.contains s = true

theorem wellFormed_new (policy : ClockPolicy) : (new policy).WellFormed := by
  refine ⟨?_, ?_⟩
  · intro s hs
    exact absurd hs (by simp [new, OMap.contains])
  · intro s hs
    exact absurd hs (by simp [new, OMap.contains])

theorem WellFormed.registerSession (h : g.WellFormed) (id : SessionId) (budget : U 64) :
    (g.registerSession id budget).WellFormed := by
  refine ⟨?_, ?_⟩
  · intro s hs
    simp [ClockGovernor.registerSession, h.votes s hs]
  · intro s hs
    simp [ClockGovernor.registerSession, h.pauses s hs]

theorem WellFormed.unregisterSession (h : g.WellFormed) (id : SessionId) :
    (g.unregisterSession id).WellFormed := by
  refine ⟨?_, ?_⟩
  · intro s hs
    simp only [ClockGovernor.unregisterSession, OMap.contains_erase, Bool.and_eq_true] at hs ⊢
    exact ⟨hs.1, h.votes s hs.2⟩
  · intro s hs
    simp only [ClockGovernor.unregisterSession, OMap.contains_erase, Bool.and_eq_true] at hs ⊢
    exact ⟨hs.1, h.pauses s hs.2⟩

theorem WellFormed.requestEmergencyPause (h : g.WellFormed) (id : SessionId) :
    (g.requestEmergencyPause id).2.WellFormed := by
  unfold ClockGovernor.requestEmergencyPause
  by_cases hid : g.registeredSessions.contains id
  · rw [if_neg (not_not.2 hid)]
    refine ⟨h.votes, ?_⟩
    intro s hs
    simp only [OMap.contains_insert, Bool.or_eq_true, decide_eq_true_eq] at hs
    rcases hs with rfl | hs
    · exact hid
    · exact h.pauses s hs
  · rwa [if_pos hid]

theorem WellFormed.releaseEmergencyPause (h : g.WellFormed) (id : SessionId) :
    (g.releaseEmergencyPause id).WellFormed := by
  refine ⟨h.votes, ?_⟩
  intro s hs
  simp only [ClockGovernor.releaseEmergencyPause, OMap.contains_erase, Bool.and_eq_true] at hs
  exact h.pauses s hs.2

theorem WellFormed.voteUnpause (h : g.WellFormed) (id : SessionId) :
    (g.voteUnpause id).WellFormed := by
  unfold ClockGovernor.voteUnpause
  by_cases hid : g.registeredSessions.contains id
  · rw [if_pos hid]
    refine ⟨?_, h.pauses⟩
    intro s hs
    simp only [OMap.contains_insert, Bool.or_eq_true, decide_eq_true_eq] at hs
    rcases hs with rfl | hs
    · exact hid
    · exact h.votes s hs
  · rwa [if_neg hid]

theorem WellFormed.votePause (h : g.WellFormed) (id : SessionId) : (g.votePause id).WellFormed := by
  refine ⟨?_, h.pauses⟩
  intro s hs
  simp only [ClockGovernor.votePause, OMap.contains_erase, Bool.and_eq_true] at hs
  exact h.votes s hs.2

/-! ## The two accounts -/

/-- Drawing on a budget that covers the request lowers it by as much; anything else is refused. -/
theorem consumeTickBudget_cases (g : ClockGovernor) (id : SessionId) (ticks : U 64) :
    (∃ error, g.consumeTickBudget id ticks = (.error error, g)) ∨
    ∃ budget rest, g.sessionTickBudgets.get? id = some budget ∧ rest.val + ticks.val = budget.val ∧
      g.consumeTickBudget id ticks =
        (.ok (), { g with sessionTickBudgets := g.sessionTickBudgets.insert id rest }) := by
  unfold consumeTickBudget
  cases hbudget : g.sessionTickBudgets.get? id with
  | none => exact .inl ⟨_, rfl⟩
  | some budget =>
      by_cases hlt : budget < ticks
      · exact .inl ⟨_, if_pos hlt⟩
      · refine .inr ⟨budget, U.saturatingSub budget ticks, rfl, ?_, if_neg hlt⟩
        exact Nat.sub_add_cancel (not_lt.1 hlt)

/-- The clock advances only when it is unpaused, by the ticks requested, and nothing else
changes. -/
theorem advanceTicks_cases (g : ClockGovernor) (ticks : U 64) :
    (∃ error, g.advanceTicks ticks = (.error error, g)) ∨
    ∃ tick, g.isUnpaused = true ∧ g.currentTick.val + ticks.val = tick.val ∧
      g.advanceTicks ticks = (.ok tick, { g with currentTick := tick }) := by
  unfold advanceTicks
  by_cases hpaused : g.isUnpaused
  · rw [if_neg (not_not.2 hpaused)]
    cases hadd : U.checkedAdd g.currentTick ticks with
    | none => exact .inl ⟨_, rfl⟩
    | some tick => exact .inr ⟨tick, hpaused, U.checkedAdd_eq_some.1 hadd, rfl⟩
  · exact .inl ⟨_, if_pos hpaused⟩

/-! ## Steps -/

theorem WellFormed.step {event : ClockEvent} (h : g.WellFormed) (hstep : ClockStep g event g') :
    g'.WellFormed := by
  obtain ⟨op, result⟩ := event
  have hg' : g' = (op.exec g).2 := by rw [show op.exec g = (result, g') from hstep]
  subst hg'
  cases op with
  | register id budget => exact h.registerSession id budget
  | unregister id => exact h.unregisterSession id
  | requestEmergencyPause id => exact h.requestEmergencyPause id
  | releaseEmergencyPause id => exact h.releaseEmergencyPause id
  | voteUnpause id => exact h.voteUnpause id
  | votePause id => exact h.votePause id
  | consume id ticks =>
      show (g.consumeTickBudget id ticks).2.WellFormed
      rcases g.consumeTickBudget_cases id ticks with ⟨error, he⟩ | ⟨budget, rest, -, -, he⟩
      · rwa [he]
      · rw [he]
        exact ⟨h.votes, h.pauses⟩
  | advance ticks =>
      show (g.advanceTicks ticks).2.WellFormed
      rcases g.advanceTicks_cases ticks with ⟨error, he⟩ | ⟨tick, -, -, he⟩
      · rwa [he]
      · rw [he]
        exact ⟨h.votes, h.pauses⟩

/-- Only a successful advance moves the clock, and it leaves everything else. -/
theorem step_currentTick {op : ClockOp} {result : Result (Option GameTick)}
    (hstep : ClockStep g (op, result) g') :
    (g'.currentTick = g.currentTick ∧ ∀ ticks tick, op = .advance ticks → result ≠ .ok tick) ∨
    ∃ ticks tick, op = .advance ticks ∧ result = .ok (some tick) ∧ g.isUnpaused = true ∧
      g.currentTick.val + ticks.val = tick.val ∧ g' = { g with currentTick := tick } := by
  have hexec : op.exec g = (result, g') := hstep
  cases op with
  | advance ticks =>
      have hadvance :
          ((g.advanceTicks ticks).1.map some, (g.advanceTicks ticks).2) = (result, g') := hexec
      rcases g.advanceTicks_cases ticks with ⟨error, he⟩ | ⟨tick, hrun, hsum, he⟩
      · rw [he] at hadvance
        obtain ⟨rfl, rfl⟩ := Prod.mk.inj hadvance
        exact .inl ⟨rfl, fun _ _ _ h => nomatch h⟩
      · rw [he] at hadvance
        obtain ⟨rfl, rfl⟩ := Prod.mk.inj hadvance
        exact .inr ⟨ticks, tick, rfl, rfl, hrun, hsum, rfl⟩
  | consume id ticks =>
      have hg' : g' = (g.consumeTickBudget id ticks).2 := (Prod.mk.inj hexec).2.symm
      refine .inl ⟨?_, fun _ _ h => nomatch h⟩
      rcases g.consumeTickBudget_cases id ticks with ⟨error, he⟩ | ⟨budget, rest, -, -, he⟩
      · rw [hg', he]
      · rw [hg', he]
  | requestEmergencyPause id =>
      have hg' : g' = (g.requestEmergencyPause id).2 := (Prod.mk.inj hexec).2.symm
      refine .inl ⟨?_, fun _ _ h => nomatch h⟩
      rw [hg', requestEmergencyPause]
      split <;> rfl
  | voteUnpause id =>
      have hg' : g' = g.voteUnpause id := (Prod.mk.inj hexec).2.symm
      refine .inl ⟨?_, fun _ _ h => nomatch h⟩
      rw [hg', voteUnpause]
      split <;> rfl
  | register id budget =>
      obtain ⟨-, rfl⟩ := Prod.mk.inj hexec
      exact .inl ⟨rfl, fun _ _ h => nomatch h⟩
  | unregister id =>
      obtain ⟨-, rfl⟩ := Prod.mk.inj hexec
      exact .inl ⟨rfl, fun _ _ h => nomatch h⟩
  | releaseEmergencyPause id =>
      obtain ⟨-, rfl⟩ := Prod.mk.inj hexec
      exact .inl ⟨rfl, fun _ _ h => nomatch h⟩
  | votePause id =>
      obtain ⟨-, rfl⟩ := Prod.mk.inj hexec
      exact .inl ⟨rfl, fun _ _ h => nomatch h⟩

/-- The budget that is left and what was drawn come to what was granted. -/
def Balanced (g : ClockGovernor) (s : SessionId) : Option TickAccount → Prop
  | none => g.sessionTickBudgets.get? s = none
  | some account => ∃ remaining, g.sessionTickBudgets.get? s = some remaining ∧
      remaining.val + account.consumed = account.granted

theorem Balanced.congr {s : SessionId} {account : Option TickAccount} (h : g.Balanced s account)
    (hget : g'.sessionTickBudgets.get? s = g.sessionTickBudgets.get? s) :
    g'.Balanced s account := by
  cases account with
  | none => exact hget.trans h
  | some account =>
      obtain ⟨remaining, hremaining, hsum⟩ := h
      exact ⟨remaining, hget.trans hremaining, hsum⟩

/-- Drawing on a budget keeps every account balanced. -/
theorem Balanced.draw {s id : SessionId} {account : Option TickAccount} {ticks budget rest : U 64}
    (h : g.Balanced s account) (hget : g.sessionTickBudgets.get? id = some budget)
    (hsum : rest.val + ticks.val = budget.val) :
    { g with sessionTickBudgets := g.sessionTickBudgets.insert id rest }.Balanced s
      (TickAccount.post s account (.consume id ticks, .ok none)) := by
  show Balanced _ s (if s = id then _ else account)
  by_cases hs : s = id
  · subst hs
    rw [if_pos rfl]
    cases account with
    | none => exact absurd (h.symm.trans hget) (by simp)
    | some account =>
        obtain ⟨remaining, hremaining, htotal⟩ := h
        obtain rfl : remaining = budget := Option.some.inj (hremaining.symm.trans hget)
        refine ⟨rest, by simp, ?_⟩
        show rest.val + (account.consumed + ticks.val) = account.granted
        omega
  · rw [if_neg hs]
    exact h.congr (by simp [hs])

/-- Every step keeps each session's account balanced. -/
theorem Balanced.step {s : SessionId} {account : Option TickAccount} {event : ClockEvent}
    (h : g.Balanced s account) (hstep : ClockStep g event g') :
    g'.Balanced s (TickAccount.post s account event) := by
  obtain ⟨op, result⟩ := event
  have hexec : op.exec g = (result, g') := hstep
  cases op with
  | register id budget =>
      obtain ⟨rfl, rfl⟩ := Prod.mk.inj hexec
      by_cases hs : s = id
      · rw [TickAccount.post, if_pos hs]
        exact ⟨budget, by simp [registerSession, hs], Nat.add_zero _⟩
      · rw [TickAccount.post, if_neg hs]
        exact h.congr (by simp [registerSession, hs])
  | unregister id =>
      obtain ⟨rfl, rfl⟩ := Prod.mk.inj hexec
      by_cases hs : s = id
      · rw [TickAccount.post, if_pos hs]
        exact (by simp [Balanced, unregisterSession, hs])
      · rw [TickAccount.post, if_neg hs]
        exact h.congr (by simp [unregisterSession, hs])
  | consume id ticks =>
      have hconsume : ((g.consumeTickBudget id ticks).1.map fun _ => none,
          (g.consumeTickBudget id ticks).2) = (result, g') := hexec
      rcases g.consumeTickBudget_cases id ticks with ⟨error, he⟩ | ⟨budget, rest, hget, hsum, he⟩
      · rw [he] at hconsume
        obtain ⟨rfl, rfl⟩ := Prod.mk.inj hconsume
        exact h
      · rw [he] at hconsume
        obtain ⟨rfl, rfl⟩ := Prod.mk.inj hconsume
        exact h.draw hget hsum
  | advance ticks =>
      refine h.congr ?_
      have hg' : g' = (g.advanceTicks ticks).2 := (Prod.mk.inj hexec).2.symm
      rcases g.advanceTicks_cases ticks with ⟨error, he⟩ | ⟨tick, -, -, he⟩
      · rw [hg', he]
      · rw [hg', he]
  | requestEmergencyPause id =>
      have hg' : g' = (g.requestEmergencyPause id).2 := (Prod.mk.inj hexec).2.symm
      refine h.congr ?_
      rw [hg', requestEmergencyPause]
      split <;> rfl
  | voteUnpause id =>
      have hg' : g' = g.voteUnpause id := (Prod.mk.inj hexec).2.symm
      refine h.congr ?_
      rw [hg', voteUnpause]
      split <;> rfl
  | releaseEmergencyPause id =>
      obtain ⟨-, rfl⟩ := Prod.mk.inj hexec
      exact h
  | votePause id =>
      obtain ⟨-, rfl⟩ := Prod.mk.inj hexec
      exact h

/-! ## The quorum -/

/-- Enough of the registered sessions want the clock to run. -/
def Quorum (g : ClockGovernor) : Prop :=
  match g.policy with
  | .unanimousUnpause =>
      ∀ s, g.registeredSessions.contains s = true → g.unpauseVotes.contains s = true
  | .majorityUnpause =>
      g.registeredSessions.size < 2 * g.registeredSessions.keys.countP g.unpauseVotes.contains

/-- **The clock may run** exactly when a session is registered, no emergency is active, and a
quorum of the registered sessions wants it to. -/
theorem isUnpaused_iff (h : g.WellFormed) : g.isUnpaused = true ↔
    (∃ s, g.registeredSessions.contains s = true) ∧
      (∀ s, g.emergencyPauses.contains s = false) ∧ g.Quorum := by
  have hpauses := g.emergencyPauses.size_eq_zero_iff
  have hregistered : g.registeredSessions.size ≠ 0 ↔
      ∃ s, g.registeredSessions.contains s = true := by
    rw [Ne, OMap.size_eq_zero_iff, not_forall]
    simp only [Bool.not_eq_false]
  rw [← hpauses, ← hregistered]
  unfold isUnpaused
  by_cases hpaused : g.emergencyPauses.size = 0
  · by_cases hempty : g.registeredSessions.size = 0
    · simp [hpaused, hempty]
    · rw [if_neg (not_not.2 hpaused), if_neg hempty]
      simp only [hpaused, hempty, ne_eq, not_false_eq_true, true_and]
      unfold Quorum
      cases g.policy with
      | unanimousUnpause =>
          rw [decide_eq_true_eq]
          refine ⟨fun hsize => OMap.contains_of_size_le h.votes hsize, ?_⟩
          exact fun hall => OMap.size_le_of_subset hall
      | majorityUnpause =>
          rw [decide_eq_true_eq, ← OMap.size_eq_countP h.votes]
          omega
  · simp [hpaused]

end ClockGovernor

/-! ## Whole histories -/

section Histories

variable {policy : ClockPolicy} {events : List ClockEvent} {g : ClockGovernor}

theorem ClockGovernor.wellFormed_of_run (h : Run ClockStep (.new policy) events g) : g.WellFormed :=
  h.preserves (fun _ _ _ hg hstep => hg.step hstep) (ClockGovernor.wellFormed_new policy)

theorem currentTick_of_run (h : Run ClockStep (.new policy) events g) :
    g.currentTick.val = ticksAdvanced events := by
  refine (h.preserves_fold (P := fun total g => g.currentTick.val = total) ?_ rfl)
  rintro total a ⟨op, result⟩ b rfl hstep
  rcases ClockGovernor.step_currentTick hstep with ⟨htick, hno⟩ |
      ⟨ticks, tick, rfl, rfl, -, hsum, rfl⟩
  · rw [htick]
    split
    · rename_i heq
      obtain ⟨rfl, rfl⟩ := Prod.mk.inj heq
      exact absurd rfl (hno _ _ rfl)
    · rfl
  · exact hsum.symm

theorem balanced_of_run (h : Run ClockStep (.new policy) events g) (s : SessionId) :
    g.Balanced s (tickAccount s events) :=
  h.preserves_fold (P := fun account g => g.Balanced s account)
    (fun _ _ _ _ hb hstep => hb.step hstep) rfl

/-- **Safety of the clock governor**, in the state that any history leads to. Votes and emergency
pauses belong to registered sessions; the clock may run exactly when a quorum of them wants it to
and no emergency is active; whatever operation comes next, it moves the clock only in such a state
and by the ticks it asked for; the tick reached is the sum of the successful advances. Each
session's budget is an account of its own: what is left and what was drawn since it was registered
come to what it was granted, and a session without an account has no budget. -/
theorem clock_safety (h : Run ClockStep (.new policy) events g) :
    (∀ s, g.unpauseVotes.contains s = true → g.registeredSessions.contains s = true) ∧
    (∀ s, g.emergencyPauses.contains s = true → g.registeredSessions.contains s = true) ∧
    (g.isUnpaused = true ↔ (∃ s, g.registeredSessions.contains s = true) ∧
      (∀ s, g.emergencyPauses.contains s = false) ∧ g.Quorum) ∧
    (∀ op result g', ClockStep g (op, result) g' → g'.currentTick ≠ g.currentTick →
      g.isUnpaused = true ∧ ∃ ticks, op = .advance ticks ∧ result = .ok (some g'.currentTick) ∧
        g.currentTick.val + ticks.val = g'.currentTick.val) ∧
    g.currentTick.val = ticksAdvanced events ∧
    ∀ s, g.Balanced s (tickAccount s events) := by
  have hg := ClockGovernor.wellFormed_of_run h
  refine ⟨hg.votes, hg.pauses, ClockGovernor.isUnpaused_iff hg, ?_, currentTick_of_run h,
    balanced_of_run h⟩
  intro op result g' hstep hne
  rcases ClockGovernor.step_currentTick hstep with ⟨htick, -⟩ |
      ⟨ticks, tick, rfl, rfl, hrun, hsum, rfl⟩
  · exact absurd htick hne
  · exact ⟨hrun, ticks, rfl, rfl, hsum⟩

end Histories

/-- A lone session is granted no ticks, votes to run, and advances the clock by ten. -/
def unbudgetedHistory : List ClockEvent :=
  [(.register 1 0, .ok none), (.voteUnpause 1, .ok none), (.advance 10, .ok (some 10))]

/-- Where it leads. -/
def unbudgetedGovernor : ClockGovernor :=
  { ClockGovernor.new .unanimousUnpause with
    registeredSessions := OMap.ofList [(1, ())]
    unpauseVotes := OMap.ofList [(1, ())]
    sessionTickBudgets := OMap.ofList [(1, 0)]
    currentTick := 10 }

theorem unbudgeted_run :
    Run ClockStep (.new .unanimousUnpause) unbudgetedHistory unbudgetedGovernor := by
  refine .cons (t := (ClockGovernor.new .unanimousUnpause).registerSession 1 0) rfl ?_
  refine .cons (t := ((ClockGovernor.new .unanimousUnpause).registerSession 1 0).voteUnpause 1)
    rfl ?_
  exact .cons (show _ = (_, unbudgetedGovernor) by decide) (.nil _)

/-- The votes and the tick of that history. -/
theorem clock_safety_unbudgeted :
    unbudgetedGovernor.currentTick.val = ticksAdvanced unbudgetedHistory ∧
      unbudgetedGovernor.isUnpaused = true :=
  ⟨(clock_safety unbudgeted_run).2.2.2.2.1, by decide⟩

/-- **Advancing does not draw on any budget**: the clock moves by ten although every session
registered was granted nothing, and what is left and what was advanced do not come to what was
granted. -/
theorem advance_exceeds_budget :
    Run ClockStep (.new .unanimousUnpause) unbudgetedHistory unbudgetedGovernor ∧
      (∀ id budget result, (ClockOp.register id budget, result) ∈ unbudgetedHistory → budget = 0) ∧
      unbudgetedGovernor.currentTick = 10 ∧
      unbudgetedGovernor.sessionTickBudgets.values = [0] := by
  refine ⟨unbudgeted_run, ?_, rfl, by decide⟩
  intro id budget result hmem
  simp only [unbudgetedHistory, List.mem_cons, Prod.mk.injEq, ClockOp.register.injEq,
    List.not_mem_nil, or_false] at hmem
  rcases hmem with ⟨⟨-, rfl⟩, -⟩ | ⟨h, -⟩ | ⟨h, -⟩
  · rfl
  · cases h
  · cases h

end Dfmcp
