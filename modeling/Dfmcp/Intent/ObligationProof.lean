import Dfmcp.Intent.Obligation
import Dfmcp.Library.Runs

/-!
# Obligations are fulfilled on observed evidence

Seen from one action, a call leaves its obligation alone or moves it in one of a few ways
(`Moves`). What the counters of an obligation stand for is a fact of the calls so far
(`Tracked`): an active one has a window of undisturbed observations that holds its samples, and
one under drain has the request that began it.

* `perform_moves`, `step_moves` — every call is such a move of every obligation;
* `Tracked.move` — a move keeps what the counters stand for;
* `obligation_discipline` — fulfilment needs enough spaced samples, outcomes are final, a failing
  step changes nothing, and a drain ends with a certificate for all the steps of its request.
-/

namespace Dfmcp

open Machine Runs

namespace ObligationMonitor

open ObligationRuntime

/-! ## What the calls say about one action -/

/-- The tick of a registration or a recovery of the action. -/
def Event.origin? (id : ActionId) : Event → Option GameTick
  | .call (.registerObligation actionId _ tick) true => if actionId = id then some tick else none
  | .call (.registerObligationAt actionId _ snapshot) true =>
      if actionId = id then some snapshot.tick else none
  | .recovered actionId frontier => if actionId = id then some frontier else none
  | _ => none

/-- The evidence of an accepted observation. -/
def Event.observation? : Event → Option PredicateEvidence
  | .call (.stepTickUnder (.ok evidence)) true => some evidence
  | _ => none

/-- The action's unfinished streak is given up. -/
def Event.Interrupts (id : ActionId) : Event → Prop
  | .call (.observationInterrupted actionId) true => actionId = id
  | _ => False

/-- The action's cancellation is requested. -/
def Event.Requests (id : ActionId) : Event → Prop
  | .call (.requestCancel actionId _) true => actionId = id
  | .call (.requestCancelWithSteps actionId _ _) true => actionId = id
  | _ => False

/-- The request, at a tick and for that many steps. A request without an inventory has none. -/
def Event.RequestsAt (id : ActionId) (tick : GameTick) (steps : U 64) (event : Event) : Prop :=
  event = .call (.requestCancelWithSteps id tick steps) true ∨
    event = .call (.requestCancel id tick) true ∧ steps = 0

/-- The observation establishes the terminal predicate and refutes the failure predicate. -/
def Satisfied (evidence : PredicateEvidence) (spec : ObligationSpec) : Prop :=
  evidence.establishes spec.terminal = .ok true ∧
    ∀ failure, spec.failure = some failure → evidence.evaluate failure = .ok .false

/-- The event does not disturb a streak: it is no registration, recovery or interruption of the
action and no observation that fails to satisfy it. -/
structure Undisturbed (id : ActionId) (spec : ObligationSpec) (event : Event) : Prop where
  origin : event.origin? id = none
  interrupts : ¬ event.Interrupts id
  satisfied : ∀ evidence, event.observation? = some evidence → Satisfied evidence spec

/-- The tick of the last registration or recovery of the action. -/
def origin (id : ActionId) (events : List Event) : Option GameTick :=
  (events.filterMap (Event.origin? id)).getLast?

/-- The accepted observations, in order. -/
def observations (events : List Event) : List PredicateEvidence :=
  events.filterMap Event.observation?

/-- The second sample is at a later tick, at least a poll interval on or at the deadline. -/
def Spaced (spec : ObligationSpec) (a b : PredicateEvidence) : Prop :=
  a.snapshot.tick < b.snapshot.tick ∧
    (a.snapshot.tick.val + spec.pollIntervalTicks.val ≤ b.snapshot.tick.val ∨
      b.snapshot.tick = spec.deadlineTick)

/-- The events end with a window of undisturbed observations after the action's registration or
last recovery, and the window holds the samples. -/
structure Sampled (events : List Event) (id : ActionId) (spec : ObligationSpec)
    (samples : List PredicateEvidence) : Prop where
  window : ∃ earlier window basis, events = earlier ++ window ∧ origin id earlier = some basis ∧
    (∀ event ∈ window, Undisturbed id spec event) ∧ samples.Sublist (observations window) ∧
    ∀ sample ∈ samples, basis < sample.snapshot.tick
  spaced : samples.IsChain (Spaced spec)
  timely : ∀ sample ∈ samples, sample.snapshot.tick ≤ spec.deadlineTick

/-- The drain that a request began: the certificate accounts for the steps of the request, and one
that is quiescent was reported after it. -/
structure Drained (events : List Event) (id : ActionId) (start : GameTick)
    (certificate : DrainProgressCertificate) : Prop where
  identity : certificate.actionId = id
  started : certificate.drainStartedTick = start
  requested : ∃ earlier request later steps, events = earlier ++ request :: later ∧
    request.RequestsAt id start steps ∧ (∀ event ∈ earlier, ¬ event.Requests id) ∧
    certificate.stepsCompensated.val + certificate.stepsRemaining.val = steps.val ∧
    (certificate.isQuiescent = true →
      .call (.recordDrainProgress certificate) true ∈ later ∧ certificate.stepsRemaining = 0)

section Windows

variable {events : List Event} {id : ActionId} {spec : ObligationSpec} {event : Event}
  {samples : List PredicateEvidence}

theorem origin_append (h : event.origin? id = none) :
    origin id (events ++ [event]) = origin id events := by
  simp [origin, List.filterMap_append, h]

theorem origin_append_some {tick : GameTick} (h : event.origin? id = some tick) :
    origin id (events ++ [event]) = some tick := by
  simp [origin, List.filterMap_append, h]

theorem origin_append_list {window : List Event} (h : ∀ event ∈ window, event.origin? id = none) :
    origin id (events ++ window) = origin id events := by
  rw [origin, List.filterMap_append, List.filterMap_eq_nil_iff.2 h, List.append_nil, origin]

/-- A window without samples can start over at any time. -/
theorem Sampled.nil {basis : GameTick} (h : origin id events = some basis) :
    Sampled events id spec [] where
  window := ⟨events, [], basis, by simp, h, by simp, by simp [observations], by simp⟩
  spaced := .nil
  timely := by simp

/-- An undisturbed event that is not counted leaves the samples as they are. -/
theorem Sampled.skip (h : Sampled events id spec samples) (hquiet : Undisturbed id spec event) :
    Sampled (events ++ [event]) id spec samples where
  window := by
    obtain ⟨earlier, window, basis, rfl, horigin, hwindow, hsub, hafter⟩ := h.window
    refine ⟨earlier, window ++ [event], basis, List.append_assoc _ _ _, horigin, ?_, ?_, hafter⟩
    · intro e he
      rcases List.mem_append.1 he with he | he
      · exact hwindow e he
      · exact List.mem_singleton.1 he ▸ hquiet
    · rw [observations, List.filterMap_append]
      exact hsub.trans (List.sublist_append_left _ _)
  spaced := h.spaced
  timely := h.timely

/-- A satisfied observation is counted. -/
theorem Sampled.count (h : Sampled events id spec samples) {evidence : PredicateEvidence}
    (hquiet : Undisturbed id spec event) (hobservation : event.observation? = some evidence)
    (hspaced : ∀ last, samples.getLast? = some last → Spaced spec last evidence)
    (hbasis : ∀ basis, origin id events = some basis → basis < evidence.snapshot.tick)
    (htimely : evidence.snapshot.tick ≤ spec.deadlineTick) :
    Sampled (events ++ [event]) id spec (samples ++ [evidence]) where
  window := by
    obtain ⟨earlier, window, basis, rfl, horigin, hwindow, hsub, hafter⟩ := h.window
    have hlog := (origin_append_list fun e he => (hwindow e he).origin).trans horigin
    refine ⟨earlier, window ++ [event], basis, List.append_assoc _ _ _, horigin, ?_, ?_, ?_⟩
    · intro e he
      rcases List.mem_append.1 he with he | he
      · exact hwindow e he
      · exact List.mem_singleton.1 he ▸ hquiet
    · rw [observations, List.filterMap_append]
      refine hsub.append ?_
      simp [hobservation]
    · intro sample hsample
      rcases List.mem_append.1 hsample with hsample | hsample
      · exact hafter sample hsample
      · exact List.mem_singleton.1 hsample ▸ hbasis basis hlog
  spaced := by
    refine List.isChain_append.2 ⟨h.spaced, .singleton _, ?_⟩
    intro a ha b hb
    obtain rfl : evidence = b := Option.some.inj hb
    exact hspaced a ha
  timely sample hsample := by
    rcases List.mem_append.1 hsample with hsample | hsample
    · exact h.timely sample hsample
    · exact List.mem_singleton.1 hsample ▸ htimely

theorem Drained.append {start : GameTick} {certificate : DrainProgressCertificate}
    (h : Drained events id start certificate) :
    Drained (events ++ [event]) id start certificate where
  identity := h.identity
  started := h.started
  requested := by
    obtain ⟨earlier, request, later, steps, rfl, hrequest, hfirst, htotal, hquiescent⟩ :=
      h.requested
    refine ⟨earlier, request, later ++ [event], steps, by simp, hrequest, hfirst, htotal, ?_⟩
    intro hq
    exact ⟨List.mem_append_left _ (hquiescent hq).1, (hquiescent hq).2⟩

end Windows

/-! ## Moves of one obligation -/

/-- The runtime as one action sees it. -/
abbrev View := Option BoundedObligation × Option DrainProgressCertificate

def view (runtime : ObligationRuntime) (id : ActionId) : View :=
  (runtime.obligations.get? id, runtime.drainProgress.get? id)

/-- What a call can do to the obligation of an action. -/
inductive Moves (id : ActionId) : Event → View → View → Prop
  /-- It is not about the action, or finds it settled or under drain. -/
  | kept {event : Event} {seen : View}
      (requests : (∀ o, seen.1 = some o → o.status.isActive = true) → ¬ event.Requests id)
      (silent : ∀ o, seen.1 = some o → o.status.isActive = true →
        event.origin? id = none ∧ ¬ event.Interrupts id ∧ event.observation? = none) :
      Moves id event seen seen
  | registered {event : Event} {drain : Option DrainProgressCertificate} {spec : ObligationSpec}
      {tick : GameTick} (origin : event.origin? id = some tick) (requests : ¬ event.Requests id)
      (poll : 0 < spec.pollIntervalTicks.val) (future : tick < spec.deadlineTick) :
      Moves id event (none, drain) (some ⟨id, spec, .active 0 0, tick, none⟩, drain)
  | interrupted {o : BoundedObligation} {drain : Option DrainProgressCertificate}
      {elapsed : U 64} {stable : U 32} (active : o.status = .active elapsed stable) :
      Moves id (.call (.observationInterrupted id) true) (some o, drain)
        (some { o with status := .active elapsed 0 }, drain)
  | observed {o : BoundedObligation} {drain : Option DrainProgressCertificate}
      {evidence : PredicateEvidence} {elapsed : U 64} {stable : U 32}
      {assessment : PredicateTruth × Bool} (active : o.status = .active elapsed stable)
      (registered : o.registeredTick ≤ evidence.snapshot.tick)
      (evaluated : ∀ tick, o.lastEvaluatedTick = some tick → tick ≤ evidence.snapshot.tick)
      (assessed : assess evidence o.spec = .ok assessment) :
      Moves id (.call (.stepTickUnder (.ok evidence)) true) (some o, drain)
        (some (settle evidence.snapshot o stable assessment), drain)
  | requested {event : Event} {o : BoundedObligation} {tick : GameTick} {steps : U 64}
      {drain : Option DrainProgressCertificate} (active : o.status.isActive = true)
      (requests : drain = none → event.RequestsAt id tick steps) :
      Moves id event (some o, drain)
        (some { o with status := .draining tick }, some ⟨id, tick, tick, 0, steps, false⟩)
  | reported {o : BoundedObligation} {start : GameTick}
      {previous certificate : DrainProgressCertificate} (draining : o.status = .draining start)
      (identity : certificate.actionId = id)
      (checked : checkProgress previous certificate start = .ok ()) :
      Moves id (.call (.recordDrainProgress certificate) true) (some o, some previous)
        (some o, some certificate)
  | finalized {o : BoundedObligation} {start tick : GameTick}
      {certificate : DrainProgressCertificate} (draining : o.status = .draining start)
      (quiescent : certificate.isQuiescent = true) :
      Moves id (.call (.finalizeCancel id tick certificate) true) (some o, some certificate)
        (some { o with status := .cancelled tick }, some certificate)
  /-- An obligation starts over at the frontier, which is no sample. -/
  | recovered {seen : View} {spec : ObligationSpec} {frontier : WorldSnapshot}
      {elapsed : U 64} {registeredTick : GameTick} {assessment : PredicateTruth × Bool}
      (active : ∀ o, seen.1 = some o → o.status.isActive = true)
      (poll : 0 < spec.pollIntervalTicks.val) (future : registeredTick < spec.deadlineTick) :
      Moves id (.recovered id frontier.tick) seen
        (some (settle frontier ⟨id, spec, .active elapsed 0, registeredTick, some frontier.tick⟩ 0
          assessment), none)

section Settle

variable {snapshot : WorldSnapshot} {o : BoundedObligation} {stable : U 32}
  {assessment : PredicateTruth × Bool}

theorem settle_actionId : (settle snapshot o stable assessment).actionId = o.actionId := by
  simp only [settle]
  split_ifs <;> rfl

theorem settle_spec : (settle snapshot o stable assessment).spec = o.spec := by
  simp only [settle]
  split_ifs <;> rfl

theorem settle_registeredTick :
    (settle snapshot o stable assessment).registeredTick = o.registeredTick := by
  simp only [settle]
  split_ifs <;> rfl

variable (snapshot o stable assessment) in
/-- **How an active obligation takes an observation in**: it fails, it is fulfilled by a due and
satisfied sample, or it stays active. -/
theorem settle_cases :
    (∃ reason, (settle snapshot o stable assessment).status = .failed snapshot.tick reason) ∨
      (sampleDue o snapshot.tick = true ∧ assessment.2 = true ∧
        snapshot.tick ≤ o.spec.deadlineTick ∧
        o.spec.stableForObservations ≤ U.saturatingAdd stable 1 ∧
        (settle snapshot o stable assessment).status =
          .fulfilled snapshot.tick [receipt o.actionId snapshot]) ∨
      ∃ elapsed, snapshot.tick < o.spec.deadlineTick ∧
        (settle snapshot o stable assessment).status =
          .active elapsed (nextStable o stable snapshot.tick assessment.2) ∧
        (settle snapshot o stable assessment).lastEvaluatedTick =
          if sampleDue o snapshot.tick then some snapshot.tick else o.lastEvaluatedTick := by
  unfold settle
  dsimp only
  by_cases hfailure : assessment.1 = .true
  · rw [if_pos hfailure]
    exact .inl ⟨_, rfl⟩
  rw [if_neg hfailure]
  by_cases hlate : snapshot.tick > o.spec.deadlineTick
  · rw [if_pos hlate]
    exact .inl ⟨_, rfl⟩
  rw [if_neg hlate]
  by_cases hfulfilled : sampleDue o snapshot.tick = true ∧ assessment.2 = true ∧
      nextStable o stable snapshot.tick assessment.2 ≥ o.spec.stableForObservations
  · rw [if_pos hfulfilled]
    obtain ⟨hdue, hsatisfied, hstable⟩ := hfulfilled
    refine .inr (.inl ⟨hdue, hsatisfied, not_lt.1 hlate, ?_, rfl⟩)
    rw [nextStable, hsatisfied, hdue] at hstable
    exact hstable
  rw [if_neg hfulfilled]
  by_cases hdeadline : snapshot.tick ≥ o.spec.deadlineTick
  · rw [if_pos hdeadline]
    exact .inl ⟨_, rfl⟩
  · rw [if_neg hdeadline]
    exact .inr (.inr ⟨_, not_le.1 hdeadline, rfl, rfl⟩)

theorem assess_satisfied {evidence : PredicateEvidence} {spec : ObligationSpec}
    (h : assess evidence spec = .ok assessment) (hsatisfied : assessment.2 = true) :
    Satisfied evidence spec := by
  simp only [assess] at h
  obtain ⟨failure, hfailure, h⟩ := bind_ok_iff.1 h
  obtain ⟨established, hestablished, h⟩ := bind_ok_iff.1 h
  obtain rfl := pure_ok_iff.1 h
  simp only [Bool.and_eq_true, decide_eq_true_eq] at hsatisfied
  obtain ⟨rfl, rfl⟩ := hsatisfied
  refine ⟨hestablished, fun predicate hpredicate => ?_⟩
  rw [failureTruth, hpredicate] at hfailure
  exact hfailure

/-- A due sample is later than the basis of the cadence, by a poll interval or at the deadline. -/
theorem sampleDue_spec {tick : GameTick} (h : sampleDue o tick = true)
    (hpoll : 0 < o.spec.pollIntervalTicks.val) (hfuture : o.registeredTick < o.spec.deadlineTick)
    (hevaluated : ∀ last, o.lastEvaluatedTick = some last → last ≤ tick) :
    cadenceBasis o < tick ∧
      ((cadenceBasis o).val + o.spec.pollIntervalTicks.val ≤ tick.val ∨
        tick = o.spec.deadlineTick) := by
  simp only [sampleDue, Bool.and_eq_true, Bool.or_eq_true, decide_eq_true_eq] at h
  obtain ⟨hdistinct, hpast | rfl⟩ := h
  · have hpast : o.spec.pollIntervalTicks.val ≤ tick.val - (cadenceBasis o).val := hpast
    refine ⟨show (cadenceBasis o).val < tick.val by omega, .inl ?_⟩
    omega
  · refine ⟨?_, .inr rfl⟩
    cases hlast : o.lastEvaluatedTick with
    | none => simpa [cadenceBasis, hlast] using hfuture
    | some last =>
        have hle := hevaluated last hlast
        have hne : last ≠ o.spec.deadlineTick := fun heq => hdistinct (by rw [hlast, heq])
        simpa [cadenceBasis, hlast] using lt_of_le_of_ne hle hne

end Settle

/-! ## What the counters stand for -/

/-- The stable observations of an active obligation are samples of a window that goes on. -/
structure Streak (events : List Event) (id : ActionId) (o : BoundedObligation) (stable : U 32) :
    Prop where
  samples : ∃ samples, Sampled events id o.spec samples ∧ stable.val ≤ samples.length ∧
    ∀ last, samples.getLast? = some last → o.lastEvaluatedTick = some last.snapshot.tick
  basis : ∃ basis, origin id events = some basis ∧ basis ≤ cadenceBasis o
  poll : 0 < o.spec.pollIntervalTicks.val
  future : o.registeredTick < o.spec.deadlineTick

/-- What the events say about the obligation of an action, by its status. -/
def Tracked (events : List Event) (id : ActionId) : View → Prop
  | (none, drain) => drain = none ∧ ∀ event ∈ events, ¬ event.Requests id
  | (some o, drain) => o.actionId = id ∧ match o.status with
      | .active _ stable => drain = none ∧ (∀ event ∈ events, ¬ event.Requests id) ∧
          Streak events id o stable
      | .draining start => ∃ certificate, drain = some certificate ∧
          Drained events id start certificate
      | _ => True

section Move

variable {events : List Event} {id : ActionId} {event : Event} {o : BoundedObligation}
  {stable : U 32} {seen seen' : View}

theorem unrequested_append (h : ∀ event ∈ events, ¬ event.Requests id)
    (hevent : ¬ event.Requests id) : ∀ e ∈ events ++ [event], ¬ e.Requests id := by
  intro e he
  rcases List.mem_append.1 he with he | he
  · exact h e he
  · exact List.mem_singleton.1 he ▸ hevent

/-- An event that is silent about the action keeps its streak. -/
theorem Streak.silent (h : Streak events id o stable) (horigin : event.origin? id = none)
    (hinterrupts : ¬ event.Interrupts id) (hobservation : event.observation? = none) :
    Streak (events ++ [event]) id o stable where
  samples := by
    obtain ⟨samples, hsampled, hcount, hlast⟩ := h.samples
    refine ⟨samples, hsampled.skip ⟨horigin, hinterrupts, ?_⟩, hcount, hlast⟩
    intro evidence hevidence
    rw [hobservation] at hevidence
    exact absurd hevidence (by simp)
  basis := by rw [origin_append horigin]; exact h.basis
  poll := h.poll
  future := h.future

/-- A streak without samples needs only a basis. -/
theorem Streak.of_zero {basis : GameTick} (horigin : origin id events = some basis)
    (hbasis : basis ≤ cadenceBasis o) (hpoll : 0 < o.spec.pollIntervalTicks.val)
    (hfuture : o.registeredTick < o.spec.deadlineTick) : Streak events id o 0 where
  samples := ⟨[], .nil horigin, Nat.le_refl 0, by simp⟩
  basis := ⟨basis, horigin, hbasis⟩
  poll := hpoll
  future := hfuture

theorem undisturbed_of_satisfied {evidence : PredicateEvidence} {spec : ObligationSpec}
    (h : Satisfied evidence spec) :
    Undisturbed id spec (.call (.stepTickUnder (.ok evidence)) true) := by
  refine ⟨rfl, fun h => h, fun e he => ?_⟩
  obtain rfl : evidence = e := Option.some.inj he
  exact h

/-- A due and satisfied observation is one more sample. -/
theorem Streak.counted (h : Streak events id o stable) {evidence : PredicateEvidence}
    (hdue : sampleDue o evidence.snapshot.tick = true) (hsatisfied : Satisfied evidence o.spec)
    (hevaluated : ∀ tick, o.lastEvaluatedTick = some tick → tick ≤ evidence.snapshot.tick)
    (htimely : evidence.snapshot.tick ≤ o.spec.deadlineTick) :
    ∃ samples, Sampled (events ++ [.call (.stepTickUnder (.ok evidence)) true]) id o.spec
        (samples ++ [evidence]) ∧
      (U.saturatingAdd stable 1).val ≤ (samples ++ [evidence]).length := by
  obtain ⟨basis, horigin, hbasis⟩ := h.basis
  obtain ⟨samples, hsampled, hcount, hlast⟩ := h.samples
  obtain ⟨hafter, hspaced⟩ := sampleDue_spec hdue h.poll h.future hevaluated
  refine ⟨samples, hsampled.count (undisturbed_of_satisfied hsatisfied) rfl ?_ ?_ htimely, ?_⟩
  · intro last hlast_mem
    have hcad : cadenceBasis o = last.snapshot.tick := by
      rw [cadenceBasis, hlast last hlast_mem]
      rfl
    rw [hcad] at hafter hspaced
    exact ⟨hafter, hspaced⟩
  · intro basis' hbasis_eq
    obtain rfl : basis = basis' := Option.some.inj (horigin.symm.trans hbasis_eq)
    exact lt_of_le_of_lt hbasis hafter
  · rw [List.length_append]
    exact le_trans (U.saturatingAdd_le stable 1) (Nat.add_le_add_right hcount 1)

/-- An observation moves a streak to the next one, as the obligation counts it. -/
theorem Streak.observe (h : Streak events id o stable) {evidence : PredicateEvidence}
    {assessment : PredicateTruth × Bool} (hassess : assess evidence o.spec = .ok assessment)
    (hregistered : o.registeredTick ≤ evidence.snapshot.tick)
    (hevaluated : ∀ tick, o.lastEvaluatedTick = some tick → tick ≤ evidence.snapshot.tick)
    (htimely : evidence.snapshot.tick ≤ o.spec.deadlineTick) {o' : BoundedObligation}
    (hspec : o'.spec = o.spec) (hsince : o'.registeredTick = o.registeredTick)
    (hlast' : o'.lastEvaluatedTick = if sampleDue o evidence.snapshot.tick then
      some evidence.snapshot.tick else o.lastEvaluatedTick) :
    Streak (events ++ [.call (.stepTickUnder (.ok evidence)) true]) id o'
      (nextStable o stable evidence.snapshot.tick assessment.2) := by
  obtain ⟨basis, horigin, hbasis⟩ := h.basis
  have horigin' : origin id (events ++ [.call (.stepTickUnder (.ok evidence)) true]) = some basis :=
    (origin_append rfl).trans horigin
  have hpoll : 0 < o'.spec.pollIntervalTicks.val := hspec ▸ h.poll
  have hfuture : o'.registeredTick < o'.spec.deadlineTick := by rw [hspec, hsince]; exact h.future
  -- the basis of the cadence only grows
  have hcadence : cadenceBasis o ≤ evidence.snapshot.tick := by
    cases hlast : o.lastEvaluatedTick with
    | none => simpa [cadenceBasis, hlast] using hregistered
    | some last => simpa [cadenceBasis, hlast] using hevaluated last hlast
  have hbasis' : basis ≤ cadenceBasis o' := by
    rw [cadenceBasis, hlast', hsince]
    split
    · exact le_trans hbasis hcadence
    · exact hbasis
  cases hsatisfied : assessment.2 with
  | false => exact .of_zero horigin' hbasis' hpoll hfuture
  | true =>
      have hsat := assess_satisfied hassess hsatisfied
      refine ⟨?_, ⟨basis, horigin', hbasis'⟩, hpoll, hfuture⟩
      rw [hspec]
      by_cases hdue : sampleDue o evidence.snapshot.tick = true
      · obtain ⟨samples, hsampled, hcount⟩ := h.counted hdue hsat hevaluated htimely
        refine ⟨samples ++ [evidence], hsampled, ?_, ?_⟩
        · rw [nextStable, hdue]
          exact hcount
        · intro last hlast_mem
          obtain rfl : evidence = last := by simpa using hlast_mem
          rw [hlast', if_pos hdue]
      · obtain ⟨samples, hsampled, hcount, hlast⟩ := h.samples
        refine ⟨samples, hsampled.skip (undisturbed_of_satisfied hsat), ?_, ?_⟩
        · rw [nextStable, if_neg (by simp), if_neg hdue]
          exact hcount
        · intro last hlast_mem
          rw [hlast', if_neg hdue]
          exact hlast last hlast_mem

theorem totalSteps_ok {certificate : DrainProgressCertificate} {total : U 64}
    (h : totalSteps certificate = .ok total) :
    certificate.stepsCompensated.val + certificate.stepsRemaining.val = total.val := by
  unfold totalSteps at h
  split at h
  case h_1 total' hsome =>
    obtain rfl : total' = total := Except.ok.inj h
    exact U.checkedAdd_eq_some.1 (Option.filter_eq_some_iff.1 hsome).1
  case h_2 => exact absurd h (by simp)

/-- A report that is admitted keeps the inventory, and is quiescent only without work left. -/
theorem checkProgress_ok {previous certificate : DrainProgressCertificate} {start : GameTick}
    (h : checkProgress previous certificate start = .ok ()) :
    certificate.drainStartedTick = start ∧
      certificate.stepsCompensated.val + certificate.stepsRemaining.val =
        previous.stepsCompensated.val + previous.stepsRemaining.val ∧
      (certificate.isQuiescent = true → certificate.stepsRemaining = 0) := by
  simp only [checkProgress] at h
  obtain ⟨hidentity, h⟩ := guard_ok_iff.1 h
  obtain ⟨total, htotal, h⟩ := bind_ok_iff.1 h
  obtain ⟨previousTotal, hprevious, h⟩ := bind_ok_iff.1 h
  by_cases hbounds : total ≠ previousTotal ∨
      certificate.stepsCompensated < previous.stepsCompensated ∨
      certificate.stepsRemaining > previous.stepsRemaining ∨
      (certificate.isQuiescent = true ∧ certificate.stepsRemaining ≠ 0) ∨
      (previous.isQuiescent = true ∧ ¬ certificate.isQuiescent = true)
  · rw [if_pos hbounds] at h
    exact absurd h (by simp [throw, throwThe, MonadExceptOf.throw])
  · simp only [not_or, not_not, not_and] at hidentity hbounds
    refine ⟨hidentity.1, ?_, hbounds.2.2.2.1⟩
    rw [totalSteps_ok htotal, totalSteps_ok hprevious, hbounds.1]

/-- **Every move keeps what the counters stand for.** -/
theorem Tracked.move (h : Tracked events id seen) (hmove : Moves id event seen seen') :
    Tracked (events ++ [event]) id seen' := by
  cases hmove with
  | @kept event seen requests silent =>
      obtain ⟨_ | o, drain⟩ := seen
      · exact ⟨h.1, unrequested_append h.2 (requests (by simp))⟩
      · refine ⟨h.1, ?_⟩
        have hstatus := h.2
        cases hcase : o.status with
        | active elapsed stable =>
            rw [hcase] at hstatus
            have hactive : o.status.isActive = true := by rw [hcase]; rfl
            obtain ⟨horigin, hinterrupts, hobservation⟩ := silent o rfl hactive
            refine ⟨hstatus.1, unrequested_append hstatus.2.1 (requests ?_),
              hstatus.2.2.silent horigin hinterrupts hobservation⟩
            intro o' ho'
            exact Option.some.inj ho' ▸ hactive
        | draining start =>
            rw [hcase] at hstatus
            obtain ⟨certificate, hdrain, hdrained⟩ := hstatus
            exact ⟨certificate, hdrain, hdrained.append⟩
        | pending => trivial
        | fulfilled tick evidence => trivial
        | failed tick reason => trivial
        | cancelled tick => trivial
  | @registered event drain spec tick origin requests poll future =>
      refine ⟨rfl, h.1, unrequested_append h.2 requests, ?_⟩
      exact .of_zero (origin_append_some origin) le_rfl poll future
  | @interrupted o drain elapsed stable active =>
      obtain ⟨hid, hstatus⟩ := h
      rw [active] at hstatus
      obtain ⟨hdrain, hrequests, hstreak⟩ := hstatus
      refine ⟨hid, hdrain, unrequested_append hrequests (fun h => h), ?_⟩
      obtain ⟨basis, horigin, hbasis⟩ := hstreak.basis
      exact .of_zero ((origin_append rfl).trans horigin) hbasis hstreak.poll hstreak.future
  | @observed o drain evidence elapsed stable assessment active registered evaluated assessed =>
      obtain ⟨hid, hstatus⟩ := h
      rw [active] at hstatus
      obtain ⟨hdrain, hrequests, hstreak⟩ := hstatus
      refine ⟨settle_actionId.trans hid, ?_⟩
      rcases settle_cases evidence.snapshot o stable assessment with
        ⟨reason, hfailed⟩ | ⟨-, -, -, -, hfulfilled⟩ | ⟨elapsed', htimely, hactive, hlast⟩
      · rw [hfailed]
        trivial
      · rw [hfulfilled]
        trivial
      · rw [hactive]
        exact ⟨hdrain, unrequested_append hrequests (fun h => h),
          hstreak.observe assessed registered evaluated htimely.le settle_spec
            settle_registeredTick hlast⟩
  | @requested event o tick steps drain active requests =>
      obtain ⟨hid, hstatus⟩ := h
      cases hcase : o.status with
      | active elapsed stable =>
          rw [hcase] at hstatus
          obtain ⟨hdrain, hrequests, -⟩ := hstatus
          refine ⟨hid, _, rfl, rfl, rfl, events, event, [], steps, rfl, requests hdrain, hrequests,
            Nat.zero_add _, ?_⟩
          intro hquiescent
          exact absurd hquiescent (by simp)
      | _ => rw [hcase] at active; exact absurd active (by simp [ObligationStatus.isActive])
  | @reported o start previous certificate draining identity checked =>
      obtain ⟨hid, hstatus⟩ := h
      rw [draining] at hstatus
      obtain ⟨_, hprevious, hdrained⟩ := hstatus
      obtain rfl := Option.some.inj hprevious
      obtain ⟨hstarted, htotal, hquiescent⟩ := checkProgress_ok checked
      obtain ⟨earlier, request, later, steps, rfl, hrequest, hfirst, hsteps, -⟩ :=
        hdrained.requested
      refine ⟨hid, ?_⟩
      rw [draining]
      refine ⟨certificate, rfl, identity, hstarted, earlier, request,
        later ++ [.call (.recordDrainProgress certificate) true], steps, by simp, hrequest, hfirst,
        htotal.trans hsteps, ?_⟩
      intro hq
      exact ⟨by simp, hquiescent hq⟩
  | @finalized o start tick certificate draining quiescent => exact ⟨h.1, trivial⟩
  | @recovered seen spec frontier elapsed registeredTick assessment active poll future =>
      refine ⟨settle_actionId, ?_⟩
      have hrequests : ∀ event ∈ events, ¬ event.Requests id := by
        obtain ⟨_ | o, drain⟩ := seen
        · exact h.2
        · have hstatus := h.2
          have hactive := active o rfl
          cases hcase : o.status with
          | active elapsed stable =>
              rw [hcase] at hstatus
              exact hstatus.2.1
          | _ => rw [hcase] at hactive; exact absurd hactive (by simp [ObligationStatus.isActive])
      have hnotdue : sampleDue ⟨id, spec, .active elapsed 0, registeredTick, some frontier.tick⟩
          frontier.tick = false := by
        simp [sampleDue]
      rcases settle_cases frontier
          ⟨id, spec, .active elapsed 0, registeredTick, some frontier.tick⟩ 0 assessment with
        ⟨reason, hfailed⟩ | ⟨hdue, -⟩ | ⟨elapsed', -, hactive, hlast⟩
      · rw [hfailed]
        trivial
      · exact absurd hdue (by simp [hnotdue])
      · rw [hactive]
        have hzero : nextStable ⟨id, spec, .active elapsed 0, registeredTick, some frontier.tick⟩ 0
            frontier.tick assessment.2 = 0 := by
          rw [nextStable, hnotdue]
          cases assessment.2 <;> rfl
        rw [hzero]
        refine ⟨rfl, unrequested_append hrequests (fun h => h), ?_⟩
        refine .of_zero (origin_append_some (if_pos rfl)) ?_ ?_ ?_
        · rw [cadenceBasis, hlast, hnotdue]
          exact le_rfl
        · rw [settle_spec]
          exact poll
        · rw [settle_spec, settle_registeredTick]
          exact future

end Move

/-! ## Calls are moves -/

section Calls

variable {r : ObligationRuntime} {id : ActionId}

/-- Every obligation is kept under its own action. -/
def Keyed (r : ObligationRuntime) : Prop :=
  ∀ id o, r.obligations.get? id = some o → o.actionId = id

theorem check_ok {evidence : PredicateEvidence} {predicates predicates' : Assessments}
    {o : BoundedObligation} (h : r.check evidence predicates o = .ok predicates') :
    (o.status.isActive = false ∧ predicates' = predicates) ∨
      (o.status.isActive = true ∧ o.registeredTick ≤ evidence.snapshot.tick ∧
        (∀ tick, o.lastEvaluatedTick = some tick → tick ≤ evidence.snapshot.tick) ∧
        ∃ assessment, assess evidence o.spec = .ok assessment ∧
          predicates' = predicates.insert o.actionId assessment) := by
  simp only [ObligationRuntime.check] at h
  cases hactive : o.status.isActive with
  | false =>
      rw [hactive] at h
      exact .inl ⟨rfl, (pure_ok_iff.1 h).symm⟩
  | true =>
      rw [hactive] at h
      obtain ⟨hticks, h⟩ := guard_ok_iff.1 h
      obtain ⟨-, h⟩ := guard_ok_iff.1 h
      obtain ⟨assessment, hassess, h⟩ := bind_ok_iff.1 h
      obtain ⟨hregistered, hevaluated⟩ := not_or.1 hticks
      refine .inr ⟨rfl, not_lt.1 hregistered, ?_, assessment, hassess, (pure_ok_iff.1 h).symm⟩
      intro tick htick
      rw [htick] at hevaluated
      simpa using hevaluated

/-- The batch of checks assesses every active obligation, and no other. -/
theorem checks_ok {evidence : PredicateEvidence} {l : List BoundedObligation}
    {before predicates : Assessments}
    (h : l.foldlM (r.check evidence) before = .ok predicates) :
    (∀ o ∈ l, o.status.isActive = true → o.registeredTick ≤ evidence.snapshot.tick ∧
        (∀ tick, o.lastEvaluatedTick = some tick → tick ≤ evidence.snapshot.tick) ∧
        predicates.contains o.actionId = true) ∧
      (∀ q, before.contains q = true → predicates.contains q = true) ∧
      ∀ q assessment, predicates.get? q = some assessment → before.get? q = some assessment ∨
        ∃ o ∈ l, o.actionId = q ∧ assess evidence o.spec = .ok assessment := by
  induction l generalizing before with
  | nil =>
      obtain rfl := pure_ok_iff.1 h
      exact ⟨by simp, fun q hq => hq, fun q assessment hq => .inl hq⟩
  | cons o l ih =>
      rw [List.foldlM_cons] at h
      obtain ⟨middle, hcheck, h⟩ := bind_ok_iff.1 h
      obtain ⟨hactive, hgrows, hfrom⟩ := ih h
      rcases check_ok hcheck with ⟨hidle, rfl⟩ | ⟨-, hregistered, hevaluated, a, hassess, rfl⟩
      · refine ⟨?_, hgrows, ?_⟩
        · intro o' ho' hactive'
          rcases List.mem_cons.1 ho' with rfl | ho'
          · rw [hidle] at hactive'
            exact absurd hactive' (by simp)
          · exact hactive o' ho' hactive'
        · intro q assessment hq
          rcases hfrom q assessment hq with hq | ⟨o', ho', hid, hassess⟩
          · exact .inl hq
          · exact .inr ⟨o', List.mem_cons_of_mem _ ho', hid, hassess⟩
      · refine ⟨?_, ?_, ?_⟩
        · intro o' ho' hactive'
          rcases List.mem_cons.1 ho' with rfl | ho'
          · exact ⟨hregistered, hevaluated, hgrows _ (by simp)⟩
          · exact hactive o' ho' hactive'
        · intro q hq
          exact hgrows q (by simp [hq])
        · intro q assessment hq
          rcases hfrom q assessment hq with hq | ⟨o', ho', hid, hassess'⟩
          · rw [OMap.get?_insert] at hq
            split at hq
            case isTrue hid =>
              obtain rfl := Option.some.inj hq
              exact .inr ⟨o, List.mem_cons_self, hid.symm, hassess⟩
            case isFalse => exact .inl hq
          · exact .inr ⟨o', List.mem_cons_of_mem _ ho', hid, hassess'⟩

/-- A refused call leaves every obligation as it is. -/
theorem Moves.refused {operation : Operation} {seen : View} :
    Moves id (.call operation false) seen seen := by
  refine .kept (fun _ => ?_) (fun _ _ _ => ?_)
  · cases operation <;> exact fun h => h
  · cases operation <;> refine ⟨rfl, fun h => h, ?_⟩ <;> first | rfl | (rename_i e; cases e <;> rfl)

theorem stepTickWithEvidence_moves (hkeyed : Keyed r) (evidence : PredicateEvidence) :
    Moves id (.call (.stepTickUnder (.ok evidence)) (r.stepTickWithEvidence evidence).1.isOk)
      (view r id) (view (r.stepTickWithEvidence evidence).2 id) := by
  unfold ObligationRuntime.stepTickWithEvidence
  split
  · exact .refused
  split
  case h_1 => exact .refused
  case h_2 predicates hchecks =>
    obtain ⟨hactive, -, hfrom⟩ := checks_ok hchecks
    have hview : ∀ o, r.obligations.get? id = some o →
        Moves id (.call (.stepTickUnder (.ok evidence)) true) (some o, r.drainProgress.get? id)
          (some (publish evidence.snapshot predicates o), r.drainProgress.get? id) := by
      intro o ho
      have hmem : o ∈ r.obligations.values := (OMap.mem_values_iff _ _).2 ⟨id, ho⟩
      have hid := hkeyed id o ho
      unfold publish
      split
      case h_1 elapsed stable hstatus =>
        obtain ⟨hregistered, hevaluated, hcontains⟩ := hactive o hmem (by rw [hstatus]; rfl)
        obtain ⟨assessment, hassessment⟩ := (OMap.contains_iff _ _).1 hcontains
        rw [hassessment]
        rcases hfrom _ _ hassessment with hnil | ⟨o', ho', hid', hassess⟩
        · exact absurd hnil (by simp)
        · obtain ⟨q, hq⟩ := (OMap.mem_values_iff _ _).1 ho'
          have hsame : q = id := by rw [← hkeyed q o' hq, hid', hid]
          obtain rfl : o' = o := Option.some.inj (by rw [← hq, hsame, ho])
          exact .observed hstatus hregistered hevaluated hassess
      case h_2 hidle =>
        have hidle : o.status.isActive = false := by
          cases hstatus : o.status with
          | active elapsed stable => exact absurd hstatus (hidle elapsed stable)
          | _ => rfl
        refine .kept (fun h => ?_) (fun o' ho' h => ?_)
        · exact fun hrequests => hrequests
        · obtain rfl := Option.some.inj ho'
          rw [hidle] at h
          exact absurd h (by simp)
    simp only [view, OMap.get?_mapValues, Except.isOk, Except.toBool]
    cases ho : r.obligations.get? id with
    | none => exact .kept (fun _ h => h) (by simp)
    | some o => exact hview o ho

theorem admit_ok {actionId : ActionId} {spec : ObligationSpec} {tick : GameTick}
    {o : BoundedObligation} (h : r.admitSpec actionId spec tick = .ok o) :
    r.obligations.get? actionId = none ∧ ∃ spec', o = ⟨actionId, spec', .active 0 0, tick, none⟩ ∧
      0 < spec'.pollIntervalTicks.val ∧ tick < spec'.deadlineTick := by
  simp only [ObligationRuntime.admitSpec] at h
  obtain ⟨-, h⟩ := guard_ok_iff.1 h
  obtain ⟨spec', -, h⟩ := bind_ok_iff.1 h
  obtain ⟨hbounds, h⟩ := guard_ok_iff.1 h
  obtain ⟨hfresh, h⟩ := guard_ok_iff.1 h
  obtain ⟨-, h⟩ := guard_ok_iff.1 h
  obtain rfl := pure_ok_iff.1 h
  simp only [not_or, not_le] at hbounds
  refine ⟨?_, spec', rfl, ?_, hbounds.1⟩
  · simpa [OMap.contains] using hfresh
  · exact Nat.pos_of_ne_zero fun hzero => hbounds.2.1 (Fin.ext hzero)

/-- A registration inserts one obligation, or changes nothing. -/
theorem registerObligation_cases (actionId : ActionId) (spec : ObligationSpec) (tick : GameTick) :
    (∃ e, r.registerObligation actionId spec tick = (.error e, r)) ∨
      ∃ o, r.admitSpec actionId spec tick = .ok o ∧ r.registerObligation actionId spec tick =
        (.ok (), { r with obligations := r.obligations.insert actionId o }) := by
  unfold ObligationRuntime.registerObligation
  cases hadm : r.admitSpec actionId spec tick with
  | error e => exact .inl ⟨e, rfl⟩
  | ok o => exact .inr ⟨o, rfl, rfl⟩

theorem registered_moves {actionId : ActionId} {spec : ObligationSpec} {tick : GameTick}
    {o : BoundedObligation} {event : Event} {anchors : BTreeMap ActionId StateAnchor}
    (hadm : r.admitSpec actionId spec tick = .ok o)
    (horigin : ∀ id, event.origin? id = if actionId = id then some tick else none)
    (hrequests : ¬ event.Requests id) (hinterrupts : ¬ event.Interrupts id)
    (hobservation : event.observation? = none) :
    Moves id event (view r id)
      (view { r with obligations := r.obligations.insert actionId o, observationAnchors := anchors }
        id) := by
  obtain ⟨hfresh, spec', rfl, hpoll, hfuture⟩ := admit_ok hadm
  simp only [view, OMap.get?_insert]
  by_cases hid : id = actionId
  · subst hid
    rw [if_pos rfl, hfresh]
    exact .registered ((horigin id).trans (if_pos rfl)) hrequests hpoll hfuture
  · rw [if_neg hid]
    refine .kept (fun _ => hrequests) (fun _ _ _ => ⟨?_, hinterrupts, hobservation⟩)
    exact (horigin id).trans (if_neg (Ne.symm hid))

theorem observationInterrupted_moves (actionId : ActionId) :
    Moves id (.call (.observationInterrupted actionId) (r.observationInterrupted actionId).1.isOk)
      (view r id) (view (r.observationInterrupted actionId).2 id) := by
  unfold ObligationRuntime.observationInterrupted
  split
  case h_1 => exact .refused
  case h_2 o ho =>
    split
    case h_1 elapsed stable hstatus =>
      simp only [view, OMap.get?_insert]
      by_cases hid : id = actionId
      · subst hid
        rw [if_pos rfl, ho]
        exact .interrupted hstatus
      · rw [if_neg hid]
        refine .kept (fun _ h => h) (fun _ _ _ => ⟨rfl, fun h => hid h.symm, rfl⟩)
    case h_2 hidle =>
      refine .kept (fun _ h => h) (fun o' ho' hactive => ⟨rfl, ?_, rfl⟩)
      rintro rfl
      obtain rfl : o' = o := Option.some.inj (ho'.symm.trans ho)
      cases hstatus : o'.status with
      | active elapsed stable => exact hidle elapsed stable hstatus
      | _ => rw [hstatus] at hactive; exact absurd hactive (by simp [ObligationStatus.isActive])

theorem checkCancel_ok {actionId : ActionId} {tick : GameTick} {steps : U 64}
    {o : BoundedObligation} (h : r.checkCancel actionId tick steps = .ok o) :
    r.obligations.get? actionId = some o := by
  simp only [ObligationRuntime.checkCancel] at h
  obtain ⟨-, h⟩ := guard_ok_iff.1 h
  split at h
  case h_1 => exact absurd h (by simp [throw, throwThe, MonadExceptOf.throw])
  case h_2 o' ho' =>
    obtain ⟨-, h⟩ := guard_ok_iff.1 h
    split at h
    · rw [ho', pure_ok_iff.1 h]
    · obtain ⟨_, -, h⟩ := bind_ok_iff.1 h
      obtain ⟨-, h⟩ := guard_ok_iff.1 h
      rw [ho', pure_ok_iff.1 (guard_ok_iff.1 h).2]

/-- A request starts the drain of an active obligation, and otherwise changes nothing. -/
theorem requested_moves {actionId : ActionId} {tick : GameTick} {steps : U 64} {event : Event}
    {operation : Operation} (hevent : event = .call operation
      (r.requestCancelWithSteps actionId tick steps).1.isOk)
    (hother : id ≠ actionId → ¬ (Event.call operation true).Requests id)
    (hsilent : ¬ (Event.call operation true).Interrupts id ∧
      (Event.call operation true).origin? id = none ∧
      (Event.call operation true).observation? = none)
    (hrequests : r.drainProgress.get? actionId = none →
      (Event.call operation true).RequestsAt actionId tick steps) :
    Moves id event (view r id) (view (r.requestCancelWithSteps actionId tick steps).2 id) := by
  subst hevent
  unfold ObligationRuntime.requestCancelWithSteps
  split
  case h_1 => exact .refused
  case h_2 o hcheck =>
    have ho := checkCancel_ok hcheck
    have hidle : ∀ operation', operation' = operation → o.status.isActive = false →
        Moves id (.call operation' true) (view r id) (view r id) := by
      rintro _ rfl hidle
      refine .kept (fun h => ?_) (fun _ _ _ => ⟨hsilent.2.1, hsilent.1, hsilent.2.2⟩)
      by_cases hid : id = actionId
      · subst hid
        have := h o ho
        rw [hidle] at this
        exact absurd this (by simp)
      · exact hother hid
    split
    case h_1 elapsed stable hstatus =>
      simp only [view, OMap.get?_insert]
      by_cases hid : id = actionId
      · subst hid
        rw [if_pos rfl, if_pos rfl, ho]
        exact .requested (by rw [hstatus]; rfl) hrequests
      · rw [if_neg hid, if_neg hid]
        exact .kept (fun _ => hother hid) (fun _ _ _ => ⟨hsilent.2.1, hsilent.1, hsilent.2.2⟩)
    case h_2 start hstatus => exact hidle _ rfl (by rw [hstatus]; rfl)
    case h_3 tick hstatus => exact hidle _ rfl (by rw [hstatus]; rfl)
    case h_4 => exact .refused
    case h_5 => exact .refused
    case h_6 => exact .refused

theorem requestCancel_moves (actionId : ActionId) (tick : GameTick) :
    Moves id (.call (.requestCancel actionId tick) (r.requestCancel actionId tick).1.isOk)
      (view r id) (view (r.requestCancel actionId tick).2 id) := by
  unfold ObligationRuntime.requestCancel
  split
  case h_1 => exact .refused
  case h_2 steps hsteps =>
    refine requested_moves rfl (fun hid h => hid h.symm) ⟨fun h => h, rfl, rfl⟩ fun hnone => ?_
    rw [ObligationRuntime.retainedSteps, hnone] at hsteps
    exact .inr ⟨rfl, (Except.ok.inj hsteps).symm⟩

theorem recordDrainProgress_moves (certificate : DrainProgressCertificate) :
    Moves id (.call (.recordDrainProgress certificate) (r.recordDrainProgress certificate).1.isOk)
      (view r id) (view (r.recordDrainProgress certificate).2 id) := by
  have hkept : Moves id (.call (.recordDrainProgress certificate) true) (view r id) (view r id) :=
    .kept (fun _ h => h) (fun _ _ _ => ⟨rfl, fun h => h, rfl⟩)
  unfold ObligationRuntime.recordDrainProgress
  split
  case h_1 => exact .refused
  case h_2 o ho =>
    split
    case h_1 => exact .refused
    case h_2 previous hprevious =>
      dsimp only
      split
      case h_1 start hstatus =>
        split
        case h_1 => exact .refused
        case h_2 hchecked =>
          simp only [view, OMap.get?_insert]
          by_cases hid : id = certificate.actionId
          · subst hid
            rw [if_pos rfl, ho, hprevious]
            exact .reported hstatus rfl hchecked
          · rw [if_neg hid]
            exact hkept
      case h_2 =>
        split
        · exact hkept
        · exact .refused
      case h_3 => exact .refused

theorem finalizeCancel_moves (actionId : ActionId) (tick : GameTick)
    (certificate : DrainProgressCertificate) :
    Moves id (.call (.finalizeCancel actionId tick certificate)
        (r.finalizeCancel actionId tick certificate).1.isOk)
      (view r id) (view (r.finalizeCancel actionId tick certificate).2 id) := by
  have hkept : Moves id (.call (.finalizeCancel actionId tick certificate) true) (view r id)
      (view r id) :=
    .kept (fun _ h => h) (fun _ _ _ => ⟨rfl, fun h => h, rfl⟩)
  unfold ObligationRuntime.finalizeCancel
  split
  case h_1 => exact .refused
  case h_2 o ho =>
    dsimp only
    split
    case h_1 start hstatus =>
      split
      case isTrue hmatches =>
        obtain ⟨⟨hidentity, htick, hcertificate⟩, -, -, hquiescent, -⟩ := hmatches
        simp only [view, OMap.get?_insert]
        by_cases hid : id = actionId
        · subst hid
          rw [if_pos rfl, ho, hcertificate]
          exact .finalized hstatus hquiescent
        · rw [if_neg hid]
          exact hkept
      case isFalse => exact .refused
    case h_2 =>
      split
      · exact hkept
      · exact .refused
    case h_3 => exact .refused

/-- **Every call of a runtime is a move of every obligation.** -/
theorem perform_moves (hkeyed : Keyed r) (operation : Operation) :
    Moves id (.call operation (r.perform operation).1.isOk) (view r id)
      (view (r.perform operation).2 id) := by
  cases operation with
  | registerObligation actionId spec tick =>
      simp only [ObligationRuntime.perform]
      rcases registerObligation_cases (r := r) actionId spec tick with ⟨e, he⟩ | ⟨o, hadm, ho⟩
      · rw [he]
        exact .refused
      · rw [ho]
        exact registered_moves hadm (fun _ => rfl) (fun h => h) (fun h => h) rfl
  | registerObligationAt actionId spec snapshot =>
      simp only [ObligationRuntime.perform, ObligationRuntime.registerObligationAt]
      split
      · exact .refused
      rcases registerObligation_cases (r := r) actionId spec snapshot.tick with
        ⟨e, he⟩ | ⟨o, hadm, ho⟩
      · rw [he]
        exact .refused
      · rw [ho]
        exact registered_moves hadm (fun _ => rfl) (fun h => h) (fun h => h) rfl
  | observationInterrupted actionId => exact observationInterrupted_moves actionId
  | stepTickUnder evidence =>
      cases evidence with
      | error e => exact .refused
      | ok evidence => exact stepTickWithEvidence_moves hkeyed evidence
  | requestCancel actionId tick => exact requestCancel_moves actionId tick
  | requestCancelWithSteps actionId tick steps =>
      exact requested_moves rfl (fun hid h => hid h.symm) ⟨fun h => h, rfl, rfl⟩
        fun _ => .inl rfl
  | recordDrainProgress certificate => exact recordDrainProgress_moves certificate
  | finalizeCancel actionId tick certificate =>
      exact finalizeCancel_moves actionId tick certificate

theorem stepTickUnder_refused {evidence : Result PredicateEvidence}
    (h : (r.stepTickUnder evidence).1.isOk = false) : (r.stepTickUnder evidence).2 = r := by
  cases evidence with
  | error e => rfl
  | ok evidence =>
      revert h
      simp only [ObligationRuntime.stepTickUnder, ObligationRuntime.stepTickWithEvidence]
      split
      · exact fun _ => rfl
      · split
        · exact fun _ => rfl
        · exact fun h => absurd h (by simp [Except.isOk, Except.toBool])

end Calls

/-! ## Recoveries are moves -/

section Recovery

variable {monitor monitor' : RecoveredObligation} {evidence : PredicateEvidence} {id : ActionId}

/-- A recovered monitor has the one obligation. -/
def Sole (monitor : RecoveredObligation) : Prop :=
  ∀ id, id ≠ monitor.actionId → view monitor.runtime id = (none, none)

theorem stepTickWithEvidence_view {r : ObligationRuntime}
    (h : (r.stepTickWithEvidence evidence).1 = .ok ()) :
    ∃ predicates, ∀ id, view (r.stepTickWithEvidence evidence).2 id =
      ((r.obligations.get? id).map (publish evidence.snapshot predicates),
        r.drainProgress.get? id) := by
  revert h
  unfold ObligationRuntime.stepTickWithEvidence
  split
  · exact fun h => absurd h (by simp)
  split
  case h_1 => exact fun h => absurd h (by simp)
  case h_2 predicates hchecks => exact fun _ => ⟨predicates, fun id => by simp [view]⟩

/-- A recovery registers the obligation anew, with the frontier as its last evaluated tick. -/
theorem newWithEvidence_ok {actionId : ActionId} {spec : ObligationSpec}
    {registeredTick : GameTick}
    (h : RecoveredObligation.newWithEvidence actionId spec registeredTick evidence = .ok monitor) :
    monitor.actionId = actionId ∧ Sole monitor ∧ ∃ spec' elapsed assessment,
      0 < spec'.pollIntervalTicks.val ∧ registeredTick < spec'.deadlineTick ∧
      view monitor.runtime actionId = (some (settle evidence.snapshot
        ⟨actionId, spec', .active elapsed 0, registeredTick, some evidence.snapshot.tick⟩ 0
        assessment), none) := by
  simp only [RecoveredObligation.newWithEvidence] at h
  obtain ⟨-, h⟩ := guard_ok_iff.1 h
  obtain ⟨-, h⟩ := guard_ok_iff.1 h
  rcases registerObligation_cases (r := .new) actionId spec registeredTick with
    ⟨e, he⟩ | ⟨o, hadm, ho⟩
  · rw [he] at h
    exact absurd h (by simp [bind, Except.bind])
  rw [ho] at h
  obtain ⟨-, spec', rfl, hpoll, hfuture⟩ := admit_ok hadm
  obtain ⟨-, h⟩ := check_ok_iff.1 h
  obtain ⟨hstepped, h⟩ := check_ok_iff.1 h
  obtain rfl := pure_ok_iff.1 h
  obtain ⟨predicates, hview⟩ := stepTickWithEvidence_view hstepped
  refine ⟨rfl, fun id hid => ?_, spec', U.saturatingSub evidence.snapshot.tick registeredTick,
    (predicates.get? actionId).getD (.unknown, false), hpoll, hfuture, ?_⟩
  · rw [hview]
    simp [RecoveredObligation.rebased, ObligationRuntime.new, hid]
  · rw [hview]
    simp [RecoveredObligation.rebased, ObligationRuntime.new, publish]

theorem newWithEvidence_moves {actionId : ActionId} {spec : ObligationSpec}
    {registeredTick : GameTick} {r : ObligationRuntime}
    (h : RecoveredObligation.newWithEvidence actionId spec registeredTick evidence = .ok monitor)
    (hactive : ∀ o, r.obligations.get? actionId = some o → o.status.isActive = true)
    (hsole : ∀ id, id ≠ actionId → view r id = (none, none)) :
    Moves id (.recovered actionId evidence.snapshot.tick) (view r id)
      (view monitor.runtime id) := by
  obtain ⟨rfl, hsole', spec', elapsed, assessment, hpoll, hfuture, hview⟩ := newWithEvidence_ok h
  by_cases hid : id = monitor.actionId
  · subst hid
    rw [hview]
    exact .recovered hactive hpoll hfuture
  · rw [hsole id hid, hsole' id hid]
    exact .kept (fun _ h => h) (by simp)

theorem afterRestart_moves (hsole : Sole monitor)
    (h : monitor.afterRestartWithEvidence evidence = .ok monitor') :
    Sole monitor' ∧ ∀ id, Moves id (restartEvent monitor evidence.snapshot.tick)
      (view monitor.runtime id) (view monitor'.runtime id) := by
  simp only [RecoveredObligation.afterRestartWithEvidence] at h
  obtain ⟨-, h⟩ := guard_ok_iff.1 h
  obtain ⟨-, h⟩ := guard_ok_iff.1 h
  split at h
  case h_1 => exact absurd h (by simp [throw, throwThe, MonadExceptOf.throw])
  case h_2 o ho =>
    cases hactive : o.status.isActive with
    | false =>
        rw [hactive] at h
        obtain rfl := pure_ok_iff.1 h
        rw [restartEvent, ho]
        simp only [Option.any_some, hactive]
        exact ⟨hsole, fun id => .kept (fun _ h => h) (fun _ _ _ => ⟨rfl, fun h => h, rfl⟩)⟩
    | true =>
        rw [hactive] at h
        obtain ⟨-, h⟩ := guard_ok_iff.1 h
        rw [restartEvent, ho]
        simp only [Option.any_some, hactive, if_true]
        refine ⟨?_, fun id => newWithEvidence_moves h ?_ hsole⟩
        · obtain ⟨hid, hsole', -⟩ := newWithEvidence_ok h
          exact hsole'
        · intro o' ho'
          obtain rfl := Option.some.inj (ho.symm.trans ho')
          exact hactive

end Recovery

/-! ## Runs -/

section Runs

variable {log events : List Event} {start m m' : ObligationMonitor} {event : Event}
  {id : ActionId} {seen seen' : View}

/-- What holds of a monitor after the events. -/
structure Holds (events : List Event) (m : ObligationMonitor) : Prop where
  tracks : ∀ id, Tracked events id (view m.tracked id)
  sole : ∀ monitor, m = .recovered monitor → Sole monitor

theorem Holds.keyed (h : Holds events m) : Keyed m.tracked := by
  intro id o ho
  have := h.tracks id
  rw [view, ho] at this
  exact this.1

theorem sole_of_moves {monitor : RecoveredObligation} (hsole : Sole monitor)
    {runtime : ObligationRuntime} {operation : Operation} {accepted : Bool}
    (hoperation : (∃ e, operation = .stepTickUnder e) ∨
      ∃ actionId, operation = .observationInterrupted actionId)
    (hmoves : ∀ id, Moves id (.call operation accepted) (view monitor.runtime id)
      (view runtime id)) :
    Sole { monitor with runtime := runtime } := by
  intro id hid
  have hmove := hmoves id
  rw [hsole id hid] at hmove
  generalize hview : view runtime id = seen at hmove
  cases hmove with
  | kept => rfl
  | registered origin =>
      rcases hoperation with ⟨e, rfl⟩ | ⟨actionId, rfl⟩ <;>
        exact absurd origin (by simp [Event.origin?])

/-- **Every step is a move of every obligation.** -/
theorem step_moves (h : Holds events m) (hstep : Step m event m') (id : ActionId) :
    Moves id event (view m.tracked id) (view m'.tracked id) := by
  cases hstep with
  | call runtime operation => exact perform_moves h.keyed operation
  | observe monitor evidence => exact perform_moves h.keyed (.stepTickUnder evidence)
  | interrupted monitor => exact observationInterrupted_moves monitor.actionId
  | restarted hrestart => exact (afterRestart_moves (h.sole _ rfl) hrestart).2 id
  | refused monitor => exact .kept (fun _ h => h) (fun _ _ _ => ⟨rfl, fun h => h, rfl⟩)

theorem step_holds (h : Holds events m) (hstep : Step m event m') :
    Holds (events ++ [event]) m' where
  tracks id := (h.tracks id).move (step_moves h hstep id)
  sole monitor hm := by
    have hmoves := step_moves h hstep
    cases hstep with
    | call runtime operation => exact absurd hm (by simp)
    | observe monitor₀ evidence =>
        obtain rfl := ObligationMonitor.recovered.inj hm
        exact sole_of_moves (h.sole monitor₀ rfl) (.inl ⟨evidence, rfl⟩) hmoves
    | interrupted monitor₀ =>
        obtain rfl := ObligationMonitor.recovered.inj hm
        exact sole_of_moves (h.sole monitor₀ rfl) (.inr ⟨monitor₀.actionId, rfl⟩) hmoves
    | restarted hrestart =>
        obtain rfl := ObligationMonitor.recovered.inj hm
        exact (afterRestart_moves (h.sole _ rfl) hrestart).1
    | refused monitor₀ => exact h.sole monitor hm

theorem started_holds (h : Started log start) : Holds log start := by
  cases h with
  | new => exact ⟨fun id => ⟨rfl, by simp⟩, fun monitor hm => absurd hm (by simp)⟩
  | recovered hnew =>
      refine ⟨fun id => ?_, fun monitor hm => ?_⟩
      · have hempty : Tracked [] id (view .new id) := ⟨rfl, by simp⟩
        exact hempty.move (newWithEvidence_moves hnew (by simp [ObligationRuntime.new])
          (fun _ _ => rfl))
      · obtain rfl := ObligationMonitor.recovered.inj hm
        obtain ⟨-, hsole, -⟩ := newWithEvidence_ok hnew
        exact hsole

theorem run_holds (hstart : Started log start) (hrun : Run Step start events m) :
    Holds (log ++ events) m :=
  hrun.preserves_history (fun _ _ _ _ h hstep => step_holds h hstep) (started_holds hstart)

/-- A move to fulfilment is a sample that completes the stability window. -/
theorem Moves.fulfils (h : Tracked events id seen) (hmove : Moves id event seen seen')
    {o' : BoundedObligation} {tick : GameTick} {evidence : List Evidence}
    (ho' : seen'.1 = some o') (hstatus : o'.status = .fulfilled tick evidence)
    (hbefore : ∀ o, seen.1 = some o → o.status ≠ o'.status) :
    ∃ samples last, Sampled (events ++ [event]) id o'.spec samples ∧
      o'.spec.stableForObservations.val ≤ samples.length ∧ samples.getLast? = some last ∧
      event.observation? = some last ∧ last.snapshot.tick = tick := by
  cases hmove with
  | kept => exact absurd rfl (hbefore o' ho')
  | registered =>
      obtain rfl := Option.some.inj ho'
      exact absurd hstatus (by simp)
  | interrupted =>
      obtain rfl := Option.some.inj ho'
      exact absurd hstatus (by simp)
  | requested =>
      obtain rfl := Option.some.inj ho'
      exact absurd hstatus (by simp)
  | reported => exact absurd rfl (hbefore o' ho')
  | finalized =>
      obtain rfl := Option.some.inj ho'
      exact absurd hstatus (by simp)
  | @observed o drain observation elapsed stable assessment active registered evaluated assessed =>
      obtain rfl := Option.some.inj ho'
      have hstreak := h.2
      rw [active] at hstreak
      rcases settle_cases observation.snapshot o stable assessment with
        ⟨reason, hfailed⟩ | ⟨hdue, hsatisfied, htimely, henough, hfulfilled⟩ | ⟨_, -, hactive, -⟩
      · exact absurd (hfailed.symm.trans hstatus) (by simp)
      · obtain ⟨samples, hsampled, hcount⟩ :=
          hstreak.2.2.counted hdue (assess_satisfied assessed hsatisfied) evaluated htimely
        have htick := hfulfilled.symm.trans hstatus
        rw [settle_spec]
        refine ⟨samples ++ [observation], observation, hsampled, le_trans henough hcount, by simp,
          rfl, ?_⟩
        exact (ObligationStatus.fulfilled.inj htick).1
      · exact absurd (hactive.symm.trans hstatus) (by simp)
  | @recovered seen spec frontier elapsed registeredTick assessment active poll future =>
      obtain rfl := Option.some.inj ho'
      rcases settle_cases frontier
          ⟨id, spec, .active elapsed 0, registeredTick, some frontier.tick⟩ 0 assessment with
        ⟨reason, hfailed⟩ | ⟨hdue, -⟩ | ⟨_, -, hactive, -⟩
      · exact absurd (hfailed.symm.trans hstatus) (by simp)
      · exact absurd hdue (by simp [sampleDue])
      · exact absurd (hactive.symm.trans hstatus) (by simp)

/-- A move to cancellation is a finalization under a quiescent certificate of the drain. -/
theorem Moves.cancels (h : Tracked events id seen) (hmove : Moves id event seen seen')
    {o' : BoundedObligation} {tick : GameTick} (ho' : seen'.1 = some o')
    (hstatus : o'.status = .cancelled tick)
    (hbefore : ∀ o, seen.1 = some o → o.status ≠ o'.status) :
    ∃ o start certificate, seen.1 = some o ∧ o.status = .draining start ∧
      event = .call (.finalizeCancel id tick certificate) true ∧
      Drained events id start certificate ∧ certificate.isQuiescent = true ∧
      certificate.stepsRemaining = 0 := by
  cases hmove with
  | kept => exact absurd rfl (hbefore o' ho')
  | reported => exact absurd rfl (hbefore o' ho')
  | @finalized o start tick certificate draining quiescent =>
      obtain rfl := Option.some.inj ho'
      obtain rfl := ObligationStatus.cancelled.inj hstatus
      have hdrain := h.2
      rw [draining] at hdrain
      obtain ⟨_, hsome, hdrained⟩ := hdrain
      obtain rfl := Option.some.inj hsome
      obtain ⟨_, _, _, _, _, _, _, _, hquiescent⟩ := hdrained.requested
      exact ⟨o, start, certificate, rfl, draining, rfl, hdrained, quiescent,
        (hquiescent quiescent).2⟩
  | registered =>
      obtain rfl := Option.some.inj ho'
      exact absurd hstatus (by simp)
  | interrupted =>
      obtain rfl := Option.some.inj ho'
      exact absurd hstatus (by simp)
  | requested =>
      obtain rfl := Option.some.inj ho'
      exact absurd hstatus (by simp)
  | @observed o drain observation elapsed stable assessment =>
      obtain rfl := Option.some.inj ho'
      rcases settle_cases observation.snapshot o stable assessment with
        ⟨_, h⟩ | ⟨-, -, -, -, h⟩ | ⟨_, -, h, -⟩ <;> exact absurd (h.symm.trans hstatus) (by simp)
  | @recovered seen spec frontier elapsed registeredTick assessment =>
      obtain rfl := Option.some.inj ho'
      rcases settle_cases frontier
          ⟨id, spec, .active elapsed 0, registeredTick, some frontier.tick⟩ 0 assessment with
        ⟨_, h⟩ | ⟨-, -, -, -, h⟩ | ⟨_, -, h, -⟩ <;> exact absurd (h.symm.trans hstatus) (by simp)

/-- An outcome is final. -/
theorem Moves.terminal (hmove : Moves id event seen seen') {o : BoundedObligation}
    (ho : seen.1 = some o) (hterminal : o.status.isTerminal = true) :
    ∃ o', seen'.1 = some o' ∧ o'.status = o.status := by
  have hidle : o.status.isActive = false := by
    cases hstatus : o.status <;> simp_all [ObligationStatus.isTerminal, ObligationStatus.isActive]
  have hdrained : ∀ start, o.status ≠ .draining start := by
    intro start hstatus
    rw [hstatus] at hterminal
    exact absurd hterminal (by simp [ObligationStatus.isTerminal])
  cases hmove with
  | kept => exact ⟨o, ho, rfl⟩
  | registered => exact absurd ho (by simp)
  | interrupted active =>
      obtain rfl := Option.some.inj ho
      rw [active] at hidle
      exact absurd hidle (by simp [ObligationStatus.isActive])
  | observed active =>
      obtain rfl := Option.some.inj ho
      rw [active] at hidle
      exact absurd hidle (by simp [ObligationStatus.isActive])
  | requested active =>
      obtain rfl := Option.some.inj ho
      rw [hidle] at active
      exact absurd active (by simp)
  | reported draining => exact ⟨o, ho, rfl⟩
  | finalized draining =>
      obtain rfl := Option.some.inj ho
      exact absurd draining (hdrained _)
  | recovered active =>
      have := active o ho
      rw [hidle] at this
      exact absurd this (by simp)

/-- **Obligations are fulfilled only on observed evidence.** After any run, one more step makes an
obligation fulfilled only by a sample that completes enough spaced samples of an undisturbed window
after its registration or last recovery, none of them past the deadline; it keeps every outcome; a
failing observation leaves every obligation alone; and a drain ends only with a quiescent
certificate that accounts for the steps of its request. -/
theorem obligation_discipline (hstart : Started log start) (hrun : Run Step start events m)
    (hstep : Step m event m') (id : ActionId) :
    (∀ o' tick evidence, m'.tracked.obligations.get? id = some o' →
      o'.status = .fulfilled tick evidence →
      (∀ o, m.tracked.obligations.get? id = some o → o.status ≠ o'.status) →
      ∃ samples last, Sampled (log ++ events ++ [event]) id o'.spec samples ∧
        o'.spec.stableForObservations.val ≤ samples.length ∧ samples.getLast? = some last ∧
        event.observation? = some last ∧ last.snapshot.tick = tick) ∧
    (∀ o, m.tracked.obligations.get? id = some o → o.status.isTerminal = true →
      ∃ o', m'.tracked.obligations.get? id = some o' ∧ o'.status = o.status) ∧
    (∀ evidence, event = .call (.stepTickUnder evidence) false →
      m'.tracked.obligations = m.tracked.obligations) ∧
    ∀ o' tick, m'.tracked.obligations.get? id = some o' → o'.status = .cancelled tick →
      (∀ o, m.tracked.obligations.get? id = some o → o.status ≠ o'.status) →
      ∃ o start certificate, m.tracked.obligations.get? id = some o ∧ o.status = .draining start ∧
        event = .call (.finalizeCancel id tick certificate) true ∧
        Drained (log ++ events) id start certificate ∧ certificate.isQuiescent = true ∧
        certificate.stepsRemaining = 0 := by
  have hholds := run_holds hstart hrun
  have hmove := step_moves hholds hstep id
  refine ⟨?_, ?_, ?_, ?_⟩
  · intro o' tick evidence ho' hstatus hbefore
    exact hmove.fulfils (hholds.tracks id) ho' hstatus hbefore
  · intro o ho hterminal
    exact hmove.terminal ho hterminal
  · rintro evidence rfl
    generalize hevent : Event.call (.stepTickUnder evidence) false = event at hstep
    cases hstep with
    | call runtime operation =>
        obtain ⟨rfl, hrefused⟩ := Event.call.inj hevent
        exact congrArg ObligationRuntime.obligations (stepTickUnder_refused hrefused.symm)
    | observe monitor evidence' =>
        obtain ⟨heq, hrefused⟩ := Event.call.inj hevent
        exact congrArg ObligationRuntime.obligations (stepTickUnder_refused hrefused.symm)
    | interrupted monitor => exact absurd hevent (by simp)
    | restarted =>
        unfold restartEvent at hevent
        split at hevent <;> exact absurd hevent (by simp)
    | refused monitor => rfl
  · intro o' tick ho' hstatus hbefore
    exact hmove.cancels (hholds.tracks id) ho' hstatus hbefore

end Runs

/-! ## An obligation that is met -/

namespace Met

/-- The game is to be running by tick 100, as one observation shows. -/
def spec : ObligationSpec := ⟨.paused false, none, 100, 1, 1⟩

def registered : BoundedObligation := ⟨1, spec, .active 0 0, 10, none⟩

def watching : ObligationRuntime := ⟨OMap.nil.insert 1 registered, .nil, .nil⟩

def running : WorldSnapshot := .new 1 11 ⟨0, 1⟩ false ⟨.nil, .nil, .nil, .nil⟩

def evidence : PredicateEvidence :=
  ⟨running, { EvidencePolicy.grantsAt running.anchor with paused := true }, true⟩

theorem registers :
    ObligationRuntime.new.perform (.registerObligation 1 spec 10) = (.ok (), watching) := rfl

theorem assesses : assess evidence spec = .ok (.false, true) := by
  have hshape : (Predicate.paused false).validateShape = .ok () := by decide
  have hwork :
      (Predicate.paused false).validateQuantityWork running.graph.entities.size = .ok () := by decide
  have htruth : evidence.evaluate (.paused false) = .ok .true := by
    exact check_ok_iff.2 ⟨hshape, check_ok_iff.2 ⟨hwork, rfl⟩⟩
  simp [assess, failureTruth, spec, PredicateEvidence.establishes, htruth, bind, Except.bind,
    pure, Except.pure]

theorem checks : watching.obligations.values.foldlM (watching.check evidence) .nil =
    .ok (OMap.nil.insert 1 (.false, true)) := by
  have hcheck :
      watching.check evidence .nil registered = .ok (OMap.nil.insert 1 (.false, true)) := by
    simp only [ObligationRuntime.check, registered, assesses]
    rfl
  show (do let next ← watching.check evidence .nil registered
           [].foldlM (watching.check evidence) next) = _
  rw [hcheck]
  rfl

def settled : ObligationRuntime := (watching.perform (.stepTickUnder (.ok evidence))).2

theorem steps : watching.perform (.stepTickUnder (.ok evidence)) = (.ok (), settled) := by
  have hvalid : running.hashIsValid = true := WorldSnapshot.hashIsValid_refreshHash _
  have hok : (watching.perform (.stepTickUnder (.ok evidence))).1 = .ok () := by
    simp only [ObligationRuntime.perform, ObligationRuntime.stepTickUnder,
      ObligationRuntime.stepTickWithEvidence, checks]
    rw [show evidence.snapshot.hashIsValid = true from hvalid]
    rfl
  rw [settled, ← hok]

end Met

open Met in
/-- The first observation of the running game fulfils the obligation, as its only sample. -/
theorem obligation_discipline_sample :
    settled.obligations.get? 1 = some { registered with
        lastEvaluatedTick := some 11, status := .fulfilled 11 [receipt 1 running] } ∧
      ∃ samples last, Sampled [.call (.registerObligation 1 spec 10) true,
          .call (.stepTickUnder (.ok evidence)) true] 1 spec samples ∧
        spec.stableForObservations.val ≤ samples.length ∧ samples.getLast? = some last ∧
        (Event.call (.stepTickUnder (.ok evidence)) true).observation? = some last ∧
        last.snapshot.tick = 11 := by
  have hsettled : settled.obligations.get? 1 = some { registered with
      lastEvaluatedTick := some 11, status := .fulfilled 11 [receipt 1 running] } := by
    have hvalid : evidence.snapshot.hashIsValid = true := WorldSnapshot.hashIsValid_refreshHash _
    simp only [settled, ObligationRuntime.perform, ObligationRuntime.stepTickUnder,
      ObligationRuntime.stepTickWithEvidence, checks, hvalid]
    rfl
  refine ⟨hsettled, ?_⟩
  have hregister : Step (.runtime .new) (.call (.registerObligation 1 spec 10) true)
      (.runtime watching) := .call .new (.registerObligation 1 spec 10)
  have hstep : Step (.runtime watching) (.call (.stepTickUnder (.ok evidence)) true)
      (.runtime settled) := by
    have := Step.call watching (.stepTickUnder (.ok evidence))
    rwa [steps] at this
  refine (obligation_discipline .new (.cons hregister (.nil _)) hstep 1).1 _ 11 _ hsettled rfl ?_
  intro o ho
  obtain rfl := Option.some.inj ho
  simp [registered]

end ObligationMonitor

end Dfmcp
