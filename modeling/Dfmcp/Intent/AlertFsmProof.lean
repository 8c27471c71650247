import Dfmcp.Intent.AlertFsm
import Dfmcp.Library.Runs

/-!
# A release follows an undisturbed clear window

The monitor keeps two numbers of its clear interval, its first tick and how many samples it has.
Over a run these stand for a suffix of the events (`Streak`): a list of consecutive samples, with
nothing in between that disturbs them. Every event extends the suffix, starts a new one or leaves
the numbers at zero.

* `acceptObservation_cases` — an accepted observation is a replay or advances the source;
* `step_streak`, `run_streak` — the invariant, over a step and a run;
* `release_after_clear_window` — a release is proposed only after such a window that is long
  enough in samples and in ticks;
* `release_across_lockdown` — a lockdown confirmed at a protected level does not end the window.
-/

namespace Dfmcp

open Machine Runs

namespace CivilianAlertFsm

/-! ## Windows of samples -/

/-- An accepted observation and its canonical roster. -/
abbrev Sample := AlertObservation × List EntityId

/-- The samples after an event. An observation that repeats the last sample adds none. -/
def sampled (samples : List Sample) : Event → List Sample
  | .accepted sample => if samples.getLast? = some sample then samples else samples ++ [sample]
  | .refused => samples
  | .confirmed _ _ => samples

/-- The accepted samples of the events, in order. -/
def samplesOf (events : List Event) : List Sample := events.foldl sampled []

/-- The second sample continues the first. -/
structure Follows (policy : AlertRecoveryPolicy) (a b : Sample) : Prop where
  cursor : a.1.anchor.cursor.checkedNext = some b.1.anchor.cursor
  advances : a.1.anchor.tick < b.1.anchor.tick
  gap : b.1.anchor.tick.val - a.1.anchor.tick.val ≤ policy.maximumSampleGapTicks.val
  scope : b.1.sourceScope = a.1.sourceScope
  roster : b.2 = a.2

/-- The event leaves a clear interval standing: a complete and clear observation, or a level
confirmed that is not peace and does not enter protection. -/
def Undisturbed : Event → Prop
  | .accepted sample => sample.1.threat = .clear ∧ sample.1.completeCivilianRoster = true
  | .refused => False
  | .confirmed before observed =>
      observed ≠ .peace ∧ (observed.isProtected = true → before.isProtected = true)

/-- The events are a clear window up to a last sample that is long enough for a release. -/
structure ClearWindow (policy : AlertRecoveryPolicy) (quiet : Event → Prop) (window : List Event)
    (last : Sample) : Prop where
  quiet : ∀ event ∈ window, quiet event
  consecutive : (samplesOf window).IsChain (Follows policy)
  enough : policy.minimumClearSamples.val ≤ (samplesOf window).length
  endsAt : (samplesOf window).getLast? = some last
  spans : ∃ first, (samplesOf window).head? = some first ∧
    first.1.anchor.tick.val + policy.minimumClearTicks.val ≤ last.1.anchor.tick.val

/-- The action lifts the confinement of the civilians. -/
def Releases : Action → Prop
  | .setBurrowMembership _ _ assigned => assigned = false
  | .setStandingOrder key value => key = "CIVILIAN_BURROW_RESTRICTION" ∧ value = "INACTIVE"
  | _ => False

theorem samplesOf_concat (events : List Event) (event : Event) :
    samplesOf (events ++ [event]) = sampled (samplesOf events) event := by
  simp [samplesOf]

/-! ## One call -/

section Call

variable {fsm fsm' : CivilianAlertFsm} {observation : AlertObservation}
  {civilianIds : List EntityId} {decision : AlertDecision}

theorem continuous_follows {previous : Sample} {civilians : List EntityId}
    (h : fsm.continuous previous.1 previous.2 observation civilians = true) :
    Follows fsm.recoveryPolicy previous (observation, civilians) := by
  simp only [continuous, Bool.and_eq_true, decide_eq_true_eq] at h
  obtain ⟨⟨⟨⟨⟨hcursor, htick⟩, hgap⟩, hscope⟩, hroster⟩, -⟩ := h
  exact ⟨hcursor, htick, hgap, hscope, hroster⟩

/-- **An accepted observation is a replay of the last sample or advances the source.** It counts
towards the window of the last sample only when it follows it. -/
theorem acceptObservation_cases
    (h : fsm.acceptObservation observation civilianIds = .ok (decision, fsm')) :
    ∃ civilians, canonicalUnits civilianIds = .ok civilians ∧
      decision = fsm'.decision observation civilians ∧
      fsm'.lastObservation = some (observation, civilians) ∧
      ((fsm.lastObservation = some (observation, civilians) ∧
          ∃ seen, fsm' = { fsm with emergencySeen := seen }) ∨
        ∃ isContinuous, fsm' = (fsm.advance observation civilians isContinuous).2 ∧
          (isContinuous = true → ∃ previous, fsm.lastObservation = some previous ∧
            previous ≠ (observation, civilians) ∧
            Follows fsm.recoveryPolicy previous (observation, civilians))) := by
  simp only [acceptObservation] at h
  obtain ⟨civilians, hcivilians, h⟩ := bind_ok_iff.1 h
  obtain ⟨-, h⟩ := guard_ok_iff.1 h
  refine ⟨civilians, hcivilians, ?_⟩
  split at h
  case h_1 hlast =>
    obtain ⟨rfl, rfl⟩ := Prod.mk.inj (pure_ok_iff.1 h)
    exact ⟨rfl, rfl, .inr ⟨false, rfl, by simp⟩⟩
  case h_2 previous previousCivilians hlast =>
    replace h := (guard_ok_iff.1 h).2
    by_cases hreplay : observation = previous ∧ civilians = previousCivilians
    · rw [if_pos hreplay] at h
      obtain ⟨rfl, rfl⟩ := hreplay
      obtain ⟨rfl, rfl⟩ := Prod.mk.inj (pure_ok_iff.1 h)
      by_cases hpresent : observation.threat = .present
      · simp only [if_pos hpresent]
        exact ⟨trivial, hlast, .inl ⟨hlast, true, rfl⟩⟩
      · simp only [if_neg hpresent]
        exact ⟨trivial, hlast, .inl ⟨hlast, fsm.emergencySeen, rfl⟩⟩
    · rw [if_neg hreplay] at h
      obtain ⟨-, h⟩ := guard_ok_iff.1 h
      obtain ⟨rfl, rfl⟩ := Prod.mk.inj (pure_ok_iff.1 h)
      refine ⟨rfl, rfl, .inr ⟨_, rfl, fun hcontinuous => ⟨_, hlast, ?_, ?_⟩⟩⟩
      · intro heq
        obtain ⟨rfl, rfl⟩ := Prod.mk.inj heq
        exact hreplay ⟨rfl, rfl⟩
      · exact continuous_follows hcontinuous

theorem recoveryPolicy_advance (civilians : List EntityId) (isContinuous : Bool) :
    (fsm.advance observation civilians isContinuous).2.recoveryPolicy = fsm.recoveryPolicy := by
  cases isContinuous <;> simp only [advance, assess] <;> cases observation.threat <;>
    dsimp only <;> (try split) <;> rfl

theorem recoveryPolicy_confirmObservedLevel (level : ThreatLevel) :
    (fsm.confirmObservedLevel level).recoveryPolicy = fsm.recoveryPolicy := by
  simp only [confirmObservedLevel]
  split_ifs <;> rfl

/-- A release is in the decision only when the clear interval is long enough. -/
theorem releaseReady_of_releases {civilians : List EntityId} {action : Action}
    (hmem : action ∈ (fsm.decision observation civilians).actions) (h : Releases action) :
    fsm.releaseReady observation = true := by
  have hassigned : action ∉ fsm.protectionActions civilians true := by
    intro hmem
    simp only [protectionActions, List.mem_append, List.mem_singleton] at hmem
    rcases hmem with hmem | rfl
    · split at hmem
      · exact absurd hmem List.not_mem_nil
      · obtain rfl := List.mem_singleton.1 hmem
        exact absurd h (by simp [Releases])
    · exact absurd h (by simp [Releases])
  simp only [decision] at hmem
  split at hmem
  · exact absurd hmem hassigned
  · exact absurd hmem hassigned
  · split at hmem
    case isTrue hready => exact (Bool.and_eq_true _ _ ▸ hready).2
    case isFalse => exact absurd hmem List.not_mem_nil
  · exact absurd hmem List.not_mem_nil

theorem releaseReady_spec (h : fsm.releaseReady observation = true) :
    ∃ since, fsm.clearSince = some since ∧
      fsm.recoveryPolicy.minimumClearSamples.val ≤ fsm.clearSamples.val ∧
      fsm.recoveryPolicy.minimumClearTicks.val ≤ observation.anchor.tick.val - since.val := by
  simp only [releaseReady, Bool.and_eq_true, decide_eq_true_eq] at h
  obtain ⟨⟨-, hsamples⟩, hspan⟩ := h
  split at hspan
  · exact absurd hspan (by simp)
  case h_2 since hsince => exact ⟨since, hsince, hsamples, of_decide_eq_true hspan⟩

end Call

/-! ## The invariant -/

/-- The clear interval of the monitor stands for a suffix of the events. -/
structure Streak (policy : AlertRecoveryPolicy) (events : List Event) (fsm : CivilianAlertFsm) :
    Prop where
  kept : fsm.recoveryPolicy = policy
  empty : fsm.clearSince = none → fsm.clearSamples = 0
  window : ∀ since, fsm.clearSince = some since → ∃ earlier window first last,
    events = earlier ++ window ∧ (∀ event ∈ window, Undisturbed event) ∧
      (samplesOf window).IsChain (Follows policy) ∧
      fsm.clearSamples.val ≤ (samplesOf window).length ∧
      (samplesOf window).head? = some first ∧ first.1.anchor.tick = since ∧
      (samplesOf window).getLast? = some last ∧ fsm.lastObservation = some last ∧
      Undisturbed (.accepted last)

section Streak

variable {policy : AlertRecoveryPolicy} {events : List Event} {fsm fsm' : CivilianAlertFsm}

theorem Streak.of_none (hpolicy : fsm.recoveryPolicy = policy) (hsince : fsm.clearSince = none)
    (hsamples : fsm.clearSamples = 0) : Streak policy events fsm where
  kept := hpolicy
  empty _ := hsamples
  window since h := by rw [hsince] at h; exact absurd h (by simp)

theorem Streak.reset (h : fsm.recoveryPolicy = policy) : Streak policy events fsm.resetClearance :=
  .of_none h rfl rfl

/-- An event without a new sample that does not disturb the window extends it. -/
theorem Streak.extend (h : Streak policy events fsm) {event : Event} (hquiet : Undisturbed event)
    (hsample : ∀ sample, event = .accepted sample → fsm.lastObservation = some sample)
    (hpolicy : fsm'.recoveryPolicy = fsm.recoveryPolicy) (hsince : fsm'.clearSince = fsm.clearSince)
    (hsamples : fsm'.clearSamples = fsm.clearSamples)
    (hlast : fsm'.lastObservation = fsm.lastObservation) :
    Streak policy (events ++ [event]) fsm' where
  kept := hpolicy.trans h.kept
  empty hnone := by
    rw [hsamples]
    exact h.empty (hsince ▸ hnone)
  window since hsome := by
    obtain ⟨earlier, window, first, last, rfl, hwindow, hchain, hcount, hfirst, htick, hend, hobs,
      hclear⟩ := h.window since (hsince ▸ hsome)
    have hsame : samplesOf (window ++ [event]) = samplesOf window := by
      rw [samplesOf_concat]
      cases event with
      | accepted sample =>
          have : last = sample := Option.some.inj (hobs.symm.trans (hsample sample rfl))
          exact if_pos (this ▸ hend)
      | refused => rfl
      | confirmed before observed => rfl
    refine ⟨earlier, window ++ [event], first, last, List.append_assoc _ _ _, ?_, ?_, ?_, ?_, htick,
      ?_, hlast.trans hobs, hclear⟩
    · intro e he
      rcases List.mem_append.1 he with he | he
      · exact hwindow e he
      · exact List.mem_singleton.1 he ▸ hquiet
    all_goals rw [hsame]
    · exact hchain
    · exact hsamples ▸ hcount
    · exact hfirst
    · exact hend

/-- A clear sample that follows the last one extends the window, and any other starts one. -/
theorem Streak.advance (h : Streak policy events fsm) {observation : AlertObservation}
    {civilians : List EntityId} {isContinuous : Bool}
    (hfollows : isContinuous = true → ∃ previous, fsm.lastObservation = some previous ∧
      previous ≠ (observation, civilians) ∧ Follows policy previous (observation, civilians)) :
    Streak policy (events ++ [.accepted (observation, civilians)])
      (fsm.advance observation civilians isContinuous).2 := by
  have hpolicy : (fsm.advance observation civilians isContinuous).2.recoveryPolicy = policy :=
    (recoveryPolicy_advance civilians isContinuous).trans h.kept
  by_cases hclear : observation.threat = .clear ∧ observation.completeCivilianRoster = true
  case neg =>
    refine .of_none hpolicy ?_ ?_ <;> cases isContinuous <;>
      cases hthreat : observation.threat <;>
      simp_all [CivilianAlertFsm.advance, assess, resetClearance]
  case pos =>
    obtain ⟨hthreat, hcomplete⟩ := hclear
    by_cases hwindow : isContinuous = true ∧ fsm.clearSince ≠ none
    · obtain ⟨rfl, hsome⟩ := hwindow
      obtain ⟨since, hsince⟩ := Option.ne_none_iff_exists'.1 hsome
      obtain ⟨previous, hprevious, hne, hnext⟩ := hfollows rfl
      obtain ⟨earlier, window, first, last, rfl, hquiet, hchain, hcount, hfirst, htick, hend,
        hobs, -⟩ := h.window since hsince
      obtain rfl : last = previous := Option.some.inj (hobs.symm.trans hprevious)
      have hsamples : samplesOf (window ++ [.accepted (observation, civilians)]) =
          samplesOf window ++ [(observation, civilians)] := by
        rw [samplesOf_concat]
        refine if_neg fun heq => hne ?_
        exact Option.some.inj (hend.symm.trans heq)
      have hsince' : (fsm.advance observation civilians true).2.clearSince = some since := by
        simp [CivilianAlertFsm.advance, assess, hthreat, hcomplete, hsince]
      have hcount' : (fsm.advance observation civilians true).2.clearSamples =
          U.saturatingAdd fsm.clearSamples 1 := by
        simp [CivilianAlertFsm.advance, assess, hthreat, hcomplete]
      refine ⟨hpolicy, fun hnone => ?_, fun since' h' => ?_⟩
      · rw [hsince'] at hnone
        exact absurd hnone (by simp)
      obtain rfl : since = since' := Option.some.inj (hsince'.symm.trans h')
      refine ⟨earlier, window ++ [.accepted (observation, civilians)], first,
        (observation, civilians), List.append_assoc _ _ _, ?_, ?_, ?_, ?_, htick, ?_, rfl,
        hthreat, hcomplete⟩
      · intro e he
        rcases List.mem_append.1 he with he | he
        · exact hquiet e he
        · exact List.mem_singleton.1 he ▸ ⟨hthreat, hcomplete⟩
      all_goals rw [hsamples]
      · refine List.isChain_append.2 ⟨hchain, .singleton _, ?_⟩
        intro a ha b hb
        obtain rfl : last = a := Option.some.inj (hend.symm.trans ha)
        obtain rfl : (observation, civilians) = b := Option.some.inj hb
        exact hnext
      · have hstep := U.saturatingAdd_le fsm.clearSamples 1
        rw [hcount', List.length_append]
        exact le_trans hstep (Nat.add_le_add_right hcount 1)
      · rw [List.head?_append, hfirst]
        rfl
      · exact List.getLast?_concat
    · -- the interval was reset, or there was none: this sample is the first of the window
      have hsince' : (fsm.advance observation civilians isContinuous).2.clearSince =
          some observation.anchor.tick := by
        cases isContinuous with
        | false => simp [CivilianAlertFsm.advance, assess, hthreat, hcomplete, resetClearance]
        | true =>
            have hnone : fsm.clearSince = none := by simpa using hwindow
            simp [CivilianAlertFsm.advance, assess, hthreat, hcomplete, hnone]
      have hcount' : (fsm.advance observation civilians isContinuous).2.clearSamples.val ≤ 1 := by
        have hone : (U.saturatingAdd (0 : U 32) 1).val ≤ 1 := U.saturatingAdd_le 0 1
        refine le_trans ?_ hone
        cases isContinuous with
        | false => simp [CivilianAlertFsm.advance, assess, hthreat, hcomplete, resetClearance]
        | true =>
            have hnone : fsm.clearSince = none := by simpa using hwindow
            simp [CivilianAlertFsm.advance, assess, hthreat, hcomplete, h.empty hnone]
      refine ⟨hpolicy, fun hnone => ?_, fun since h' => ?_⟩
      · rw [hsince'] at hnone
        exact absurd hnone (by simp)
      obtain rfl : observation.anchor.tick = since := Option.some.inj (hsince'.symm.trans h')
      refine ⟨events, [.accepted (observation, civilians)], (observation, civilians),
        (observation, civilians), rfl, ?_, .singleton _, hcount', rfl, rfl, rfl, rfl,
        hthreat, hcomplete⟩
      intro e he
      exact List.mem_singleton.1 he ▸ ⟨hthreat, hcomplete⟩

theorem Streak.confirmed (h : Streak policy events fsm) (level : ThreatLevel) :
    Streak policy (events ++ [.confirmed fsm.currentLevel level])
      (fsm.confirmObservedLevel level) := by
  by_cases hquiet : Undisturbed (.confirmed fsm.currentLevel level)
  · obtain ⟨hpeace, hentered⟩ := hquiet
    refine h.extend ⟨hpeace, hentered⟩ (by simp) (recoveryPolicy_confirmObservedLevel level)
      ?_ ?_ ?_ <;>
    · cases hprotected : level.isProtected <;>
        simp_all [confirmObservedLevel]
  · refine .of_none ((recoveryPolicy_confirmObservedLevel level).trans h.kept) ?_ ?_ <;>
    · simp only [Undisturbed, not_and_or, not_not, Classical.not_imp] at hquiet
      rcases hquiet with rfl | ⟨hprotected, hbefore⟩
      · simp [confirmObservedLevel, resetClearance]
      · have hpeace : level ≠ .peace := by
          rintro rfl
          exact absurd hprotected (by simp [ThreatLevel.isProtected])
        simp [confirmObservedLevel, resetClearance, hprotected, hbefore, hpeace]

end Streak

/-! ## Runs -/

section Runs

variable {policy : AlertRecoveryPolicy} {events : List Event} {start fsm fsm' : CivilianAlertFsm}

theorem accepted_streak (h : Streak policy events fsm) {observation : AlertObservation}
    {civilianIds civilians : List EntityId} {decision : AlertDecision}
    (hcivilians : canonicalUnits civilianIds = .ok civilians)
    (haccept : fsm.acceptObservation observation civilianIds = .ok (decision, fsm')) :
    Streak policy (events ++ [.accepted (observation, civilians)]) fsm' := by
  obtain ⟨roster, hroster, -, -, hcases⟩ := acceptObservation_cases haccept
  obtain rfl : roster = civilians := Except.ok.inj (hroster.symm.trans hcivilians)
  rcases hcases with ⟨hlast, seen, rfl⟩ | ⟨isContinuous, rfl, hfollows⟩
  · by_cases hquiet : Undisturbed (.accepted (observation, roster))
    · exact h.extend hquiet (fun sample heq => Event.accepted.inj heq ▸ hlast) rfl rfl rfl rfl
    · -- a replay of a disturbing sample: its window was reset when it was first seen
      have hnone : fsm.clearSince = none := by
        by_contra hsome
        obtain ⟨since, hsince⟩ := Option.ne_none_iff_exists'.1 hsome
        obtain ⟨_, _, _, last, _, _, _, _, _, _, _, hobs, hclear⟩ := h.window since hsince
        obtain rfl : last = (observation, roster) := Option.some.inj (hobs.symm.trans hlast)
        exact hquiet hclear
      exact .of_none h.kept hnone (h.empty hnone)
  · exact h.advance (h.kept ▸ hfollows)

theorem step_streak {event : Event} (h : Streak policy events fsm) (hstep : Step fsm event fsm') :
    Streak policy (events ++ [event]) fsm' := by
  obtain ⟨call⟩ := hstep
  cases call with
  | confirmObservedLevel level => exact h.confirmed level
  | planObservation observation civilianIds =>
      simp only [event, perform, planObservation]
      cases haccept : fsm.acceptObservation observation civilianIds with
      | error e => exact .reset h.kept
      | ok out =>
          obtain ⟨decision, fsm'⟩ := out
          obtain ⟨civilians, hcivilians, -⟩ := acceptObservation_cases haccept
          rw [hcivilians]
          exact accepted_streak h hcivilians haccept

theorem withRecoveryPolicy_ok {safeBurrowId : EntityId} {militarySquadIds : List EntityId}
    (hnew : withRecoveryPolicy safeBurrowId militarySquadIds policy = .ok start) :
    Streak policy [] start ∧ 1 ≤ policy.minimumClearTicks.val := by
  simp only [withRecoveryPolicy] at hnew
  replace hnew := (guard_ok_iff.1 hnew).2
  obtain ⟨squads, -, hnew⟩ := bind_ok_iff.1 hnew
  obtain ⟨hbounds, hnew⟩ := guard_ok_iff.1 hnew
  obtain rfl := pure_ok_iff.1 hnew
  simp only [not_or, not_not] at hbounds
  exact ⟨.of_none rfl rfl rfl, hbounds.2.1.1⟩

theorem run_streak (hstart : Streak policy [] start) (hrun : Run Step start events fsm) :
    Streak policy events fsm :=
  hrun.preserves_history (fun _ _ _ _ h hstep => step_streak h hstep) hstart

/-- **The civilians are never released early.** After any calls, a decision that lifts the
confinement comes at the end of a clear window: the events since some point are undisturbed, and
their samples are consecutive, at least as many as the policy asks for and span its ticks. -/
theorem release_after_clear_window {safeBurrowId : EntityId} {militarySquadIds : List EntityId}
    (hnew : withRecoveryPolicy safeBurrowId militarySquadIds policy = .ok start)
    (hrun : Run Step start events fsm) {observation : AlertObservation}
    {civilianIds : List EntityId} {decision : AlertDecision}
    (hplan : (fsm.planObservation observation civilianIds).1 = .ok decision) {action : Action}
    (hmem : action ∈ decision.actions) (hrelease : Releases action) :
    ∃ civilians earlier window, canonicalUnits civilianIds = .ok civilians ∧
      events ++ [.accepted (observation, civilians)] = earlier ++ window ∧
      ClearWindow policy Undisturbed window (observation, civilians) := by
  obtain ⟨hstart, hticks⟩ := withRecoveryPolicy_ok hnew
  simp only [planObservation] at hplan
  cases haccept : fsm.acceptObservation observation civilianIds with
  | error e =>
      rw [haccept] at hplan
      exact absurd hplan (by simp)
  | ok out =>
      obtain ⟨decision', fsm'⟩ := out
      rw [haccept] at hplan
      obtain rfl : decision' = decision := Except.ok.inj hplan
      obtain ⟨civilians, hcivilians, rfl, hlast, -⟩ := acceptObservation_cases haccept
      have hstreak := accepted_streak (run_streak hstart hrun) hcivilians haccept
      obtain ⟨since, hsince, henough, hspan⟩ :=
        releaseReady_spec (releaseReady_of_releases hmem hrelease)
      obtain ⟨earlier, window, first, last, hevents, hquiet, hchain, hcount, hfirst, htick, hend,
        hobs, -⟩ := hstreak.window since hsince
      obtain rfl : last = (observation, civilians) := Option.some.inj (hobs.symm.trans hlast)
      rw [hstreak.kept] at henough hspan
      refine ⟨civilians, earlier, window, hcivilians, hevents, hquiet, hchain,
        le_trans henough hcount, hend, first, hfirst, ?_⟩
      have hfirst : first.1.anchor.tick.val = since.val := congrArg Fin.val htick
      show first.1.anchor.tick.val + policy.minimumClearTicks.val ≤ observation.anchor.tick.val
      omega

end Runs

/-! ## A raid that ends -/

namespace Raid

/-- Two clear samples ten ticks apart are enough. -/
def policy : AlertRecoveryPolicy := ⟨10, 2, 10⟩

def start : CivilianAlertFsm := ⟨.peace, 10, [20], policy, none, none, 0, false⟩

def scope : Digest32 := ⟨List.replicate 32 7, rfl⟩

def observe (sequence : U 64) (tick : GameTick) : AlertObservation :=
  ⟨⟨1, ⟨1, sequence⟩, tick, scope⟩, scope, .clear, true⟩

def locked : CivilianAlertFsm := start.perform (.confirmObservedLevel .emergencyLockdown)

def recovering : CivilianAlertFsm := locked.perform (.planObservation (observe 1 0) [3])

def relocked : CivilianAlertFsm := recovering.perform (.confirmObservedLevel .emergencyLockdown)

/-- A lockdown is confirmed before a clear sample, and again after it. -/
def events : List Event :=
  [.confirmed .peace .emergencyLockdown, .accepted (observe 1 0, [3]),
    .confirmed .emergencyLockdown .emergencyLockdown]

theorem run_events : Run Step start events relocked := by
  have hsample : locked.event (.planObservation (observe 1 0) [3]) = .accepted (observe 1 0, [3]) :=
    by decide
  refine .cons (.call start (.confirmObservedLevel .emergencyLockdown)) ?_
  refine .cons (hsample ▸ Step.call locked (.planObservation (observe 1 0) [3])) ?_
  exact .cons (.call recovering (.confirmObservedLevel .emergencyLockdown)) (.nil _)

def released : AlertDecision where
  anchor := (observe 2 10).anchor
  sourceScope := scope
  targetLevel := .peace
  actions := [.setBurrowMembership [3] 10 false,
    .setStandingOrder "CIVILIAN_BURROW_RESTRICTION" "INACTIVE"]
  clearSince := some 0
  clearSamples := 2
  releaseReady := true

end Raid

open Raid in
/-- The second sample releases the civilians, and its window goes back to the first. -/
theorem release_after_clear_window_sample :
    (relocked.planObservation (observe 2 10) [3]).1 = .ok released ∧
      ∃ civilians earlier window, canonicalUnits [3] = .ok civilians ∧
        events ++ [.accepted (observe 2 10, civilians)] = earlier ++ window ∧
        ClearWindow policy Undisturbed window (observe 2 10, civilians) := by
  have hplan : (relocked.planObservation (observe 2 10) [3]).1 = .ok released := by decide
  have hnew : withRecoveryPolicy 10 [20] policy = .ok start := by decide
  exact ⟨hplan, release_after_clear_window hnew run_events hplan List.mem_cons_self rfl⟩

/-- The event is not a refusal, nor an observation that is not complete and clear, nor any
confirmed lockdown. -/
def WithoutLockdown : Event → Prop
  | .accepted sample => sample.1.threat = .clear ∧ sample.1.completeCivilianRoster = true
  | .refused => False
  | .confirmed _ observed => observed ≠ .emergencyLockdown

open Raid in
/-- A lockdown that is confirmed while the level is already protected does not restart the clear
interval: the civilians are released on one sample before it and one after it. -/
theorem release_across_lockdown :
    Run Step start events relocked ∧
      (relocked.planObservation (observe 2 10) [3]).1 = .ok released ∧
      (∃ action ∈ released.actions, Releases action) ∧
      ¬ ∃ civilians earlier window, canonicalUnits [3] = .ok civilians ∧
        events ++ [.accepted (observe 2 10, civilians)] = earlier ++ window ∧
        ClearWindow policy WithoutLockdown window (observe 2 10, civilians) := by
  refine ⟨run_events, by decide, ⟨_, List.mem_cons_self, rfl⟩, ?_⟩
  rintro ⟨civilians, earlier, window, -, hevents, hwindow⟩
  have hlockdown : .confirmed .emergencyLockdown .emergencyLockdown ∉ window := by
    intro hmem
    exact hwindow.quiet _ hmem rfl
  have henough := hwindow.enough
  -- the window starts before the second lockdown, or at the last sample, or is empty
  rcases earlier with _ | ⟨a, _ | ⟨b, _ | ⟨c, _ | ⟨d, rest⟩⟩⟩⟩ <;>
    simp only [events, List.cons_append, List.nil_append, List.cons.injEq] at hevents
  · exact hlockdown (hevents ▸ by simp)
  · exact hlockdown (hevents.2 ▸ by simp)
  · exact hlockdown (hevents.2.2 ▸ by simp)
  · obtain rfl : [.accepted (observe 2 10, civilians)] = window := by simp_all
    exact absurd henough (by simp [samplesOf, sampled, policy])
  · obtain ⟨rfl, rfl⟩ : rest = [] ∧ window = [] := by simp_all
    exact absurd henough (by simp [samplesOf, policy])

end CivilianAlertFsm

end Dfmcp
