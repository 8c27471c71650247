import Dfmcp.Core.Basic
import Dfmcp.Library.OrderedMap

/-!
# The clock governor

`clock.rs`: pausing and advancing the simulation among several sessions. Any session can halt the
clock, a quorum of votes lets it run, and each session has a tick budget that it draws on. Every
method that takes `&mut self` returns its result together with the governor it leaves.
-/

namespace Dfmcp

open Machine

inductive ClockPolicy where
  /-- All registered sessions must agree to unpause. -/
  | unanimousUnpause
  /-- A majority of them must. -/
  | majorityUnpause
deriving DecidableEq

structure ClockGovernor where
  policy : ClockPolicy
  registeredSessions : BTreeSet SessionId
  unpauseVotes : BTreeSet SessionId
  emergencyPauses : BTreeSet SessionId
  sessionTickBudgets : BTreeMap SessionId (U 64)
  currentTick : GameTick
deriving DecidableEq

namespace ClockGovernor

def new (policy : ClockPolicy) : ClockGovernor := ⟨policy, .nil, .nil, .nil, .nil, 0⟩

def registerSession (g : ClockGovernor) (sessionId : SessionId) (initialBudget : U 64) :
    ClockGovernor :=
  { g with
    registeredSessions := g.registeredSessions.insert sessionId ()
    sessionTickBudgets := g.sessionTickBudgets.insert sessionId initialBudget }

def unregisterSession (g : ClockGovernor) (sessionId : SessionId) : ClockGovernor :=
  { g with
    registeredSessions := g.registeredSessions.erase sessionId
    unpauseVotes := g.unpauseVotes.erase sessionId
    emergencyPauses := g.emergencyPauses.erase sessionId
    sessionTickBudgets := g.sessionTickBudgets.erase sessionId }

/-- The refusal of a session that the governor does not know. -/
def notRegistered : DfmcpError := .new .sessionNotFound "session not registered with governor"

def requestEmergencyPause (g : ClockGovernor) (sessionId : SessionId) :
    Result Unit × ClockGovernor :=
  if ¬ g.registeredSessions.contains sessionId then (.error notRegistered, g)
  else (.ok (), { g with emergencyPauses := g.emergencyPauses.insert sessionId () })

def releaseEmergencyPause (g : ClockGovernor) (sessionId : SessionId) : ClockGovernor :=
  { g with emergencyPauses := g.emergencyPauses.erase sessionId }

/-- A vote of an unknown session is ignored. -/
def voteUnpause (g : ClockGovernor) (sessionId : SessionId) : ClockGovernor :=
  if g.registeredSessions.contains sessionId then
    { g with unpauseVotes := g.unpauseVotes.insert sessionId () }
  else g

def votePause (g : ClockGovernor) (sessionId : SessionId) : ClockGovernor :=
  { g with unpauseVotes := g.unpauseVotes.erase sessionId }

/-- Whether the simulation may advance. -/
def isUnpaused (g : ClockGovernor) : Bool :=
  if g.emergencyPauses.size ≠ 0 then false
  else if g.registeredSessions.size = 0 then false
  else match g.policy with
    | .unanimousUnpause => g.unpauseVotes.size ≥ g.registeredSessions.size
    | .majorityUnpause => g.unpauseVotes.size > g.registeredSessions.size / 2

def consumeTickBudget (g : ClockGovernor) (sessionId : SessionId) (ticks : U 64) :
    Result Unit × ClockGovernor :=
  match g.sessionTickBudgets.get? sessionId with
  | none => (.error notRegistered, g)
  | some budget =>
      if budget < ticks then
        (.error (.new .budgetExceeded ("session " ++ toString sessionId.val ++
          " exceeded tick budget (available: " ++ toString budget.val ++ ", requested: " ++
          toString ticks.val ++ ")")), g)
      else
        (.ok (), { g with
          sessionTickBudgets :=
            g.sessionTickBudgets.insert sessionId (U.saturatingSub budget ticks) })

def advanceTicks (g : ClockGovernor) (ticks : U 64) : Result GameTick × ClockGovernor :=
  if ¬ g.isUnpaused then
    (.error (.new .conflict
      "cannot advance clock while simulation is paused by governor policy"), g)
  else match U.checkedAdd g.currentTick ticks with
    | none => (.error (.new .budgetExceeded "governor tick counter overflow"), g)
    | some currentTick => (.ok currentTick, { g with currentTick })

end ClockGovernor

end Dfmcp
