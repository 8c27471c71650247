import Dfmcp.Intent.Action
import Dfmcp.Library.Budget

/-!
# Labor allocation

`dfmcp-intent/src/labor.rs`: bounded labor proposals from a caller-declared workforce model.
`allocateDemands` fills priority-ordered exclusive roles by alternating paths, so a flexible worker
is moved when that staffs a scarce specialty, and turns the assignment into label changes.

A role is an index into the sorted demands, a worker an index into the sorted roster, and a position
one seat of a role. The searches carry a bound on the positions they can visit.
-/

namespace Dfmcp.Labor

open Machine Method

/-- At or above this modeled stress, citizens receive no new staffing role. -/
def highStressThreshold : U 32 := 800

def heavyLabors : List String :=
  ["MINING", "MASONRY", "WEAPONSMITHING", "ARMORING", "CARPENTRY"]

def maxProfileTokens : Nat := 256
def maxTokenBytes : Nat := 256

/-- Caller-declared citizen profile. -/
structure DwarfLaborProfile where
  id : EntityId
  skills : BTreeMap String (U 32)
  stressLevel : U 32
  assignedLabors : BTreeSet String
deriving DecidableEq

/-- One exclusive role. Smaller priorities are filled first, equal ones in the order of labors. -/
structure LaborDemand where
  labor : String
  skill : String
  workers : U 32
  minimumSkill : U 32
  priority : U 8
deriving DecidableEq

structure LaborAllocationLimits where
  maxRoster : Nat
  maxDemands : Nat
  maxPositions : Nat
  maxActions : Nat
  maxWork : U 64

/-- One role's modeled coverage. -/
structure LaborStaffing where
  labor : String
  skill : String
  priority : U 8
  requestedWorkers : U 32
  eligibleWorkers : Nat
  assignedUnits : List EntityId
  missingWorkers : U 32
deriving DecidableEq

structure LaborAllocation where
  staffing : List LaborStaffing
  actions : List Action
  relievedUnits : List EntityId
  workUsed : Nat
deriving DecidableEq

def exhausted : DfmcpError := .new .budgetExceeded "labor allocation budget exhausted"

def invalid (message : String) : DfmcpError := .new .invalidRequest message

def brokenPath : DfmcpError := .new .internalInvariantViolation "broken labor augmenting path"

/-- A computation that pays for its steps. -/
abbrev Paid := Method DfmcpError Work

/-- Pay for one unit of work. -/
def charge : Paid PUnit := Method.charge exhausted exhausted 1

def chargeTimes : Nat → Paid PUnit
  | 0 => pure ⟨⟩
  | n + 1 => do
      charge
      chargeTimes n

/-! ## Validation -/

/-- The Unicode `White_Space` characters. -/
def isWhitespace (c : Char) : Bool :=
  (9 ≤ c.toNat && c.toNat ≤ 13) || (0x2000 ≤ c.toNat && c.toNat ≤ 0x200a) ||
    [0x20, 0x85, 0xa0, 0x1680, 0x2028, 0x2029, 0x202f, 0x205f, 0x3000].contains c.toNat

/-- A token is not blank, not too long and without a NUL. -/
def tokenIsValid (token : String) : Bool :=
  !token.toList.all isWhitespace && strLen token ≤ maxTokenBytes &&
    token.toList.all (·.toNat ≠ 0)

def validateToken (token : String) : Result PUnit :=
  if !tokenIsValid token then
    .error (invalid "labor tokens require 1..256 nonblank UTF-8 bytes without NUL")
  else .ok ⟨⟩

def validateLimits (limits : LaborAllocationLimits) : Result PUnit :=
  if limits.maxRoster > 512 ∨ limits.maxDemands > 64 ∨ limits.maxPositions > 512 ∨
      limits.maxActions > 2048 ∨ limits.maxWork.val > 10000000 then
    .error (invalid "labor allocation limits exceed fixed model bounds")
  else .ok ⟨⟩

def checkSkills : List (String × U 32) → Paid PUnit
  | [] => pure ⟨⟩
  | (skill, rating) :: rest => do
      charge
      Method.of (validateToken skill)
      rejectIf (rating > 20) (invalid "labor skill rating exceeds 20")
      checkSkills rest

def checkLabors : List String → Paid PUnit
  | [] => pure ⟨⟩
  | labor :: rest => do
      charge
      Method.of (validateToken labor)
      checkLabors rest

def checkRoster (seen : BTreeSet EntityId) : List DwarfLaborProfile → Paid PUnit
  | [] => pure ⟨⟩
  | dwarf :: rest => do
      charge
      rejectIf (dwarf.id = 0 ∨ seen.contains dwarf.id = true ∨ dwarf.stressLevel > 1000)
        (invalid "labor roster contains a nil/duplicate ID or out-of-range stress")
      rejectIf (dwarf.skills.size > maxProfileTokens ∨ dwarf.assignedLabors.size > maxProfileTokens)
        exhausted
      checkSkills dwarf.skills.toList
      checkLabors dwarf.assignedLabors.keys
      checkRoster (seen.insert dwarf.id ()) rest

/-- The roster by identifier. -/
def sortRoster (roster : List DwarfLaborProfile) : List DwarfLaborProfile :=
  roster.insertionSort fun a b => a.id ≤ b.id

def validateRoster (roster : List DwarfLaborProfile) (maxRoster : Nat) :
    Paid (List DwarfLaborProfile) := do
  rejectIf (roster.length > maxRoster) exhausted
  checkRoster .nil roster
  pure (sortRoster roster)

/-- The positions so far stay within a limit of at most `512`, so their sum does not overflow. -/
def checkDemands (maxPositions : Nat) (seen : BTreeSet String) :
    Nat → List LaborDemand → Paid PUnit
  | _, [] => pure ⟨⟩
  | positions, demand :: rest => do
      charge
      Method.of (validateToken demand.labor)
      Method.of (validateToken demand.skill)
      rejectIf (seen.contains demand.labor = true ∨ demand.minimumSkill > 20)
        (invalid "labor demands contain a duplicate role or invalid minimum skill")
      rejectIf (positions + demand.workers.val > maxPositions) exhausted
      checkDemands maxPositions (seen.insert demand.labor ()) (positions + demand.workers.val) rest

/-- The order in which demands are filled. -/
def demandKey (demand : LaborDemand) : U 8 ×ₗ String := toLex (demand.priority, demand.labor)

def sortDemands (demands : List LaborDemand) : List LaborDemand :=
  demands.insertionSort fun a b => demandKey a ≤ demandKey b

def validateDemands (demands : List LaborDemand) (limits : LaborAllocationLimits) :
    Paid (List LaborDemand) := do
  rejectIf (demands.length > limits.maxDemands) exhausted
  checkDemands limits.maxPositions .nil 0 demands
  pure (sortDemands demands)

/-! ## Candidates and positions -/

/-- A skill that is not declared is rated zero. -/
def rating (dwarf : DwarfLaborProfile) (skill : String) : U 32 := (dwarf.skills.get? skill).getD 0

def eligible (demand : LaborDemand) (dwarf : DwarfLaborProfile) : Bool :=
  dwarf.stressLevel < highStressThreshold && demand.minimumSkill ≤ rating dwarf demand.skill

/-- Skill descending, existing assignment, stress ascending, then identifier. -/
def candidateKey (demand : LaborDemand) (dwarf : DwarfLaborProfile) :
    (U 32)ᵒᵈ ×ₗ Bool ×ₗ U 32 ×ₗ EntityId :=
  toLex (OrderDual.toDual (rating dwarf demand.skill),
    toLex (!dwarf.assignedLabors.contains demand.labor, toLex (dwarf.stressLevel, dwarf.id)))

/-- The eligible workers of a demand, in the order of the roster. -/
def eligibleWorkers (demand : LaborDemand) :
    Nat → List DwarfLaborProfile → Paid (List (Nat × DwarfLaborProfile))
  | _, [] => pure []
  | worker, dwarf :: rest => do
      charge
      let more ← eligibleWorkers demand (worker + 1) rest
      pure (if eligible demand dwarf then (worker, dwarf) :: more else more)

def sortCandidates (demand : LaborDemand) (workers : List (Nat × DwarfLaborProfile)) : List Nat :=
  (workers.insertionSort fun a b => candidateKey demand a.2 ≤ candidateKey demand b.2).map Prod.fst

/-- The candidates of each role, and the role of each position. -/
structure Roles where
  candidates : List (List Nat)
  positions : List Nat

def listRoles (roster : List DwarfLaborProfile) : Nat → List LaborDemand → Paid Roles
  | _, [] => pure ⟨[], []⟩
  | role, demand :: rest => do
      let workers ← eligibleWorkers demand 0 roster
      chargeTimes demand.workers.val
      let more ← listRoles roster (role + 1) rest
      pure ⟨sortCandidates demand workers :: more.candidates,
        List.replicate demand.workers.val role ++ more.positions⟩

/-- The candidates of a position. -/
def Roles.offered (roles : Roles) (position : Nat) : List Nat :=
  (roles.positions[position]?.bind fun role => roles.candidates[role]?).getD []

/-! ## Augmenting paths -/

/-- Who sits where. -/
structure Seats where
  positionWorkers : Nat → Option Nat
  workerPositions : Nat → Option Nat

structure Search where
  parents : Nat → Option Nat
  visited : Nat → Bool
  queue : List Nat

def Search.start (root : Nat) : Search :=
  ⟨fun _ => none, Function.update (fun _ => false) root true, [root]⟩

/-- Go on to a position a worker was found in. -/
def Search.enqueue (s : Search) (occupied : Nat) : Search :=
  if s.visited occupied then s
  else { s with visited := Function.update s.visited occupied true, queue := s.queue ++ [occupied] }

/-- Look at the candidates of a position, until one of them is free. -/
def scan (seats : Seats) (position : Nat) : List Nat → Search → Paid (Search × Option Nat)
  | [], s => pure (s, none)
  | worker :: rest, s => do
      charge
      if s.parents worker ≠ none then scan seats position rest s
      else
        match seats.workerPositions worker with
        | some occupied =>
            scan seats position rest
              ({ s with parents := Function.update s.parents worker (some position) }.enqueue
                occupied)
        | none =>
            pure ({ s with parents := Function.update s.parents worker (some position) },
              some worker)

/-- The search over positions, first found first. -/
def search (roles : Roles) (seats : Seats) : Nat → Search → Paid (Search × Option Nat)
  | 0, _ => throw brokenPath
  | bound + 1, s =>
      match s.queue with
      | [] => pure (s, none)
      | position :: rest => do
          let found ← scan seats position (roles.offered position) { s with queue := rest }
          if found.2 = none then search roles seats bound found.1 else pure found

/-- Seat a free worker with his parent, and whoever he displaces with his own. -/
def reseat (parents : Nat → Option Nat) : Nat → Nat → Seats → Paid Seats
  | 0, _, _ => throw brokenPath
  | bound + 1, freeWorker, seats => do
      charge
      match parents freeWorker with
      | none => throw brokenPath
      | some target =>
          let positionWorkers := Function.update seats.positionWorkers target (some freeWorker)
          let workerPositions := Function.update seats.workerPositions freeWorker (some target)
          match seats.positionWorkers target with
          | none => pure ⟨positionWorkers, workerPositions⟩
          | some displaced =>
              reseat parents bound displaced
                ⟨positionWorkers, Function.update workerPositions displaced none⟩

/-- Iterative alternating-path search. -/
def augment (roles : Roles) (root : Nat) (seats : Seats) : Paid Seats := do
  charge
  let found ← search roles seats (roles.positions.length + 1) (.start root)
  match found.2 with
  | none => pure seats
  | some freeWorker => reseat found.1.parents roles.positions.length freeWorker seats

def fill (roles : Roles) : List Nat → Seats → Paid Seats
  | [], seats => pure seats
  | position :: rest, seats => do
      let seats ← augment roles position seats
      fill roles rest seats

/-! ## The proposal -/

/-- The role a worker was given. -/
def selectedRole (roles : Roles) (seats : Seats) (worker : Nat) : Option Nat :=
  (seats.workerPositions worker).bind fun position => roles.positions[position]?

/-- The units of a role, by identifier. -/
def assignedUnits (roles : Roles) (seats : Seats) (role : Nat) :
    Nat → List DwarfLaborProfile → Paid (List EntityId)
  | _, [] => pure []
  | worker, dwarf :: rest => do
      charge
      let more ← assignedUnits roles seats role (worker + 1) rest
      pure (if selectedRole roles seats worker = some role then dwarf.id :: more else more)

def staff (roster : List DwarfLaborProfile) (roles : Roles) (seats : Seats) :
    Nat → List LaborDemand → Paid (List LaborStaffing)
  | _, [] => pure []
  | role, demand :: rest => do
      let units ← assignedUnits roles seats role 0 roster
      let assigned ← Method.of ((U.tryFrom units.length).elim (.error exhausted) .ok)
      let more ← staff roster roles seats (role + 1) rest
      pure ({
        labor := demand.labor
        skill := demand.skill
        priority := demand.priority
        requestedWorkers := demand.workers
        eligibleWorkers := (roles.candidates[role]?.getD []).length
        assignedUnits := units
        missingWorkers := demand.workers.saturatingSub assigned } :: more)

/-- Units to change, by whether the labor is enabled and by labor: disables come first. -/
abbrev Changes := BTreeMap (Bool ×ₗ String) (List EntityId)

def pushChange (changes : Changes) (enabled : Bool) (labor : String) (unit : EntityId) : Changes :=
  changes.insert (toLex (enabled, labor))
    ((changes.get? (toLex (enabled, labor))).getD [] ++ [unit])

def noteRoles (dwarf : DwarfLaborProfile) (selected : Option Nat) :
    Nat → List LaborDemand → Changes → Paid Changes
  | _, [], changes => pure changes
  | role, demand :: rest, changes => do
      charge
      let enabled : Bool := selected = some role
      noteRoles dwarf selected (role + 1) rest
        (if dwarf.assignedLabors.contains demand.labor ≠ enabled then
          pushChange changes enabled demand.labor dwarf.id
        else changes)

def noteRelief (demands : List LaborDemand) (dwarf : DwarfLaborProfile) :
    List String → Changes → Paid Changes
  | [], changes => pure changes
  | labor :: rest, changes => do
      charge
      noteRelief demands dwarf rest
        (if dwarf.assignedLabors.contains labor ∧ ¬ demands.any (·.labor = labor) then
          pushChange changes false labor dwarf.id
        else changes)

/-- The changes of every worker, and the workers under too much stress. -/
def noteChanges (demands : List LaborDemand) (roles : Roles) (seats : Seats) :
    Nat → List DwarfLaborProfile → Changes × List EntityId → Paid (Changes × List EntityId)
  | _, [], noted => pure noted
  | worker, dwarf :: rest, noted => do
      let changes ← noteRoles dwarf (selectedRole roles seats worker) 0 demands noted.1
      if dwarf.stressLevel ≥ highStressThreshold then do
        let changes ← noteRelief demands dwarf heavyLabors changes
        noteChanges demands roles seats (worker + 1) rest (changes, noted.2 ++ [dwarf.id])
      else noteChanges demands roles seats (worker + 1) rest (changes, noted.2)

/-- The actions of the changes, in order. -/
def actionsOf (changes : Changes) : List Action :=
  changes.toList.map fun (key, units) => .setLabor units (ofLex key).2 (ofLex key).1

/-- What follows the validation of a request. -/
def propose (roster : List DwarfLaborProfile) (demands : List LaborDemand) (maxActions : Nat) :
    Paid LaborAllocation := do
  let roles ← listRoles roster 0 demands
  let seats ← fill roles (List.range roles.positions.length) ⟨fun _ => none, fun _ => none⟩
  let staffing ← staff roster roles seats 0 demands
  let noted ← noteChanges demands roles seats 0 roster (.nil, [])
  rejectIf (noted.1.size > maxActions) exhausted
  let work ← get
  pure
    { staffing
      actions := actionsOf noted.1
      relievedUnits := noted.2
      workUsed := work.used }

/-- Maximize coverage lexicographically by priority and labor, with at most one demanded role per
citizen. -/
def allocateDemands (roster : List DwarfLaborProfile) (demands : List LaborDemand)
    (limits : LaborAllocationLimits) : Result LaborAllocation :=
  (exec (do
    Method.of (validateLimits limits)
    let roster ← validateRoster roster limits.maxRoster
    let demands ← validateDemands demands limits
    propose roster demands limits.maxActions) ⟨0, limits.maxWork.val⟩).1

/-! ## Applying actions -/

/-- The labors enabled after an action: only a labor change changes them. -/
def applyAction (enabled : EntityId → String → Bool) : Action → EntityId → String → Bool
  | .setLabor units labor value => fun unit other =>
      if other = labor ∧ unit ∈ units then value else enabled unit other
  | _ => enabled

/-- The labors a roster was observed with. -/
def observed (roster : List DwarfLaborProfile) (unit : EntityId) (labor : String) : Bool :=
  roster.any fun dwarf => dwarf.id = unit && dwarf.assignedLabors.contains labor

/-- The labors enabled after a list of actions. -/
def enabledAfter (roster : List DwarfLaborProfile) (actions : List Action) :
    EntityId → String → Bool :=
  actions.foldl applyAction (observed roster)

end Dfmcp.Labor
