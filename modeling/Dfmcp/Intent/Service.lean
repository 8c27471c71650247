import Dfmcp.Intent.Effects
import Dfmcp.Library.Budget

/-!
# Service capacity

`effects_capacity.rs` and `effects_workforce.rs`: which ready activities are served in an interval.
The first shares workshops and workers among production orders, the second among all registered
activities. Both rank their candidates, admit them one after another by augmenting paths, and
report who waits and why. What they share is stated once over a table of families; each keeps its
own table, its own capture and its own selection.

Arrays over workers, candidates and families are functions. The loops of a search carry a bound on
the candidates they can visit.
-/

namespace Dfmcp

open Machine Method

namespace Effects

def statusActive : String := "active"
def stagePlanned : String := "planned"
def stageUnderConstruction : String := "under_construction"
def maxEffectAdvanceProductionEntities : Nat := 65536

def fieldText (entity : EntityRecord) (field : String) (tick : GameTick) : Option String :=
  match fieldValue entity field tick with
  | some (.text value) => some value
  | _ => none

def fieldU64 (entity : EntityRecord) (field : String) (tick : GameTick) : Result (U 64) :=
  match fieldValue entity field tick with
  | some (.u64 value) => .ok value
  | _ => .error (precondition ("entity " ++ toString entity.id ++ " field " ++ field ++
      " requires an eligible known unsigned value before reference progress"))

def entity (s : WorldSnapshot) (id : EntityId) : Result EntityRecord :=
  match s.graph.entities.get? id with
  | some record => .ok record
  | none => .error (.new .internalInvariantViolation
      "active effect entity disappeared during progress")

/-- A unit without the optional field is alive. -/
def isAlive (entity : EntityRecord) (tick : GameTick) : Bool :=
  (entity.fields.get? "alive").all fun fact => laboratoryFactValue fact tick = some (.bool true)

/-- Whether a job is one of the closed reference carpentry recipes. -/
def carpentryRecipe (job : String) : Bool :=
  job ∈ ["CONSTRUCT_BED", "wooden_bed", "CONSTRUCT_DOOR", "wooden_door", "CONSTRUCT_TABLE",
    "wooden_table", "CONSTRUCT_THRONE", "CONSTRUCT_CHAIR", "wooden_chair"]

end Effects

namespace Service

open Effects

/-! ## Budget -/

def budgetError (message : String) : DfmcpError := .new .budgetExceeded message

/-- A computation on an advance budget. -/
abbrev Paid := Method DfmcpError Work

/-- Pay for work; a refused charge leaves the account alone. -/
def charge (amount : Nat) : Paid PUnit := fun w =>
  if 2 ^ 64 ≤ w.used + amount then
    (.error (budgetError "reference advancement work accounting overflowed"), w)
  else if w.maximum < w.used + amount then
    (.error (budgetError
      "reference advancement exhausted its source/entity/terrain work budget"), w)
  else (.ok ⟨⟩, { w with used := w.used + amount })

/-! ## Families and capacity -/

/-- What an activity of a family needs: a workshop of a kind, if any, and a labor. -/
structure Family where
  workshop : Option String
  labor : String
deriving DecidableEq

/-- Who can work, on what, and how many workshops there are. -/
structure Capacity where
  workers : List EntityId
  eligible : Nat → List Nat
  workshops : Nat → Nat

namespace Capacity

def empty : Capacity := ⟨[], fun _ => [], fun _ => 0⟩

variable (families : List Family)

/-- A unit joins the workers of the families it is eligible for. -/
def captureUnit (qualifies : Family → Bool) (id : EntityId) (capacity : Capacity) : Capacity :=
  if families.any qualifies then
    { capacity with
      workers := capacity.workers ++ [id]
      eligible := fun family =>
        if (families[family]?).any qualifies then
          capacity.eligible family ++ [capacity.workers.length]
        else capacity.eligible family }
  else capacity

/-- Whether a building of a kind is a workshop of a family. -/
def serves (kind : Option String) (family : Family) : Bool :=
  family.workshop.isSome && kind = family.workshop

def captureBuilding (kind : Option String) (capacity : Capacity) : Capacity :=
  { capacity with
    workshops := fun family =>
      if (families[family]?).any (serves kind) then capacity.workshops family + 1
      else capacity.workshops family }

def captureRecord (works : EntityRecord → Bool) (qualifies : EntityRecord → Family → Bool)
    (tick : GameTick) (capacity : Capacity) (entry : EntityId × EntityRecord) : Capacity :=
  if entry.2.kind = .unit && works entry.2 then
    captureUnit families (qualifies entry.2) entry.1 capacity
  else if entry.2.kind = .building &&
      fieldText entry.2 constructionStageField tick = some stageComplete then
    captureBuilding families (fieldText entry.2 "building_kind" tick) capacity
  else capacity

end Capacity

/-- How many activities of a family can be served at once; families without workshops have no
limit. -/
def limit (families : List Family) (capacity : Capacity) (family : Nat) : Option Nat :=
  ((families[family]?).bind Family.workshop).map fun _ => capacity.workshops family

/-! ## Candidates -/

/-- An activity that is ready; `partialTicks` were worked on it already. -/
structure Candidate (ω : Type) where
  work : ω
  id : EntityId
  family : Nat
  partialTicks : U 64

/-- Partially served first, then canonical identity. -/
def candidateKey {ω : Type} (candidate : Candidate ω) : (U 64)ᵒᵈ ×ₗ EntityId :=
  toLex (OrderDual.toDual candidate.partialTicks, candidate.id)

def rank {ω : Type} (candidates : List (Candidate ω)) : List (Candidate ω) :=
  candidates.insertionSort fun a b => candidateKey a ≤ candidateKey b

/-! ## Augmenting paths -/

/-- What a search reads: the numbers of workers and of candidates, the workers of each candidate,
and the error of a lost predecessor. -/
structure Bench where
  workers : Nat
  candidates : Nat
  offered : Nat → List Nat
  lost : DfmcpError

/-- Who serves what. -/
structure Seats where
  owner : Nat → Option Nat
  assigned : Nat → Option Nat

def Seats.empty : Seats := ⟨fun _ => none, fun _ => none⟩

structure Search where
  seen : Nat → Bool
  parent : Nat → Option Nat
  queue : List Nat

def Search.start (root : Nat) : Search := ⟨fun _ => false, fun _ => none, [root]⟩

/-- A worker is seen for the first time, from this candidate. -/
def Search.see (s : Search) (worker candidate : Nat) : Search :=
  { s with
    seen := Function.update s.seen worker true
    parent := Function.update s.parent worker (some candidate) }

variable (bench : Bench)

/-- Look at the eligible workers of a candidate, until one of them is free. -/
def scan (seats : Seats) (candidate : Nat) : List Nat → Search → Paid (Search × Option Nat)
  | [], s => pure (s, none)
  | worker :: rest, s => do
      charge 1
      if s.seen worker = true then scan seats candidate rest s
      else match seats.owner worker with
        | some previous =>
            scan seats candidate rest
              { s.see worker candidate with queue := s.queue ++ [previous] }
        | none => pure (s.see worker candidate, some worker)

/-- The search over candidates, first found first. -/
def search (seats : Seats) : Nat → Search → Paid (Search × Option Nat)
  | 0, _ => throw bench.lost
  | bound + 1, s =>
      match s.queue with
      | [] => pure (s, none)
      | candidate :: rest => do
          charge 1
          let found ← scan seats candidate (bench.offered candidate) { s with queue := rest }
          if found.2 = none then search seats bound found.1 else pure found

/-- Give an available worker to his predecessor, and whom that one had to his own. -/
def reseat (parent : Nat → Option Nat) : Nat → Nat → Seats → Paid Seats
  | 0, _, _ => throw bench.lost
  | bound + 1, available, seats => do
      charge 1
      match parent available with
      | none => throw bench.lost
      | some next =>
          let moved : Seats := ⟨Function.update seats.owner available (some next),
            Function.update seats.assigned next (some available)⟩
          match seats.assigned next with
          | some previous => reseat parent bound previous moved
          | none => pure moved

/-- Add one candidate while keeping every earlier one. -/
def augment (root : Nat) (seats : Seats) : Paid (Seats × Bool) := do
  charge (bench.workers * 2 + bench.candidates + 1)
  let found ← search bench seats (bench.candidates + 1) (.start root)
  match found.2 with
  | none => pure (seats, false)
  | some available => do
      let seats ← reseat bench found.1.parent bench.candidates available seats
      pure (seats, true)

/-- The candidates that were admitted, and how many of each family. -/
structure Admitted where
  seats : Seats
  used : Nat → Nat

/-- Admit the candidates in order, where their family has room. -/
def admitFrom (family : Nat → Nat) (limit : Nat → Option Nat) : List Nat → Admitted → Paid Admitted
  | [], admitted => pure admitted
  | index :: rest, admitted => do
      charge 1
      if (limit (family index)).all fun room => admitted.used (family index) < room then do
        let seated ← augment bench index admitted.seats
        admitFrom family limit rest ⟨seated.1, if seated.2 then
            Function.update admitted.used (family index) (admitted.used (family index) + 1)
          else admitted.used⟩
      else admitFrom family limit rest admitted

/-- The family of a candidate. -/
def familyAt {ω : Type} (candidates : List (Candidate ω)) (index : Nat) : Nat :=
  (candidates[index]?).elim 0 Candidate.family

/-- The bench of ranked candidates. -/
def benchOf {ω : Type} (capacity : Capacity) (candidates : List (Candidate ω))
    (lost : DfmcpError) : Bench :=
  ⟨capacity.workers.length, candidates.length,
    fun index => capacity.eligible (familyAt candidates index), lost⟩

/-- Admit ranked candidates from the start. -/
def admitAll {ω : Type} (families : List Family) (capacity : Capacity)
    (candidates : List (Candidate ω)) (lost : DfmcpError) : Paid Admitted :=
  admitFrom (benchOf capacity candidates lost) (familyAt candidates) (limit families capacity)
    (List.range candidates.length) ⟨.empty, fun _ => 0⟩

end Service

/-! ## Production orders -/

/-- An order on the timeline, as far as a selection reads it. -/
structure TimelineOrder where
  id : EntityId
  job : String

namespace ProductionCapacity

open Effects Service

def families : List Family :=
  [⟨some "workshop:Still", "BREW"⟩, ⟨some "workshop:Kitchen", "COOK"⟩,
    ⟨some "workshop:Carpenters", "CARPENTRY"⟩]

def family (job : String) : Option Nat :=
  if job = "BREW_DRINK" then some 0
  else if job = "PREPARE_MEAL" ∨ job = "COOK_MEAL" then some 1
  else if carpentryRecipe job then some 2
  else none

def lost : DfmcpError :=
  .new .internalInvariantViolation "production capacity lost an augmenting-path predecessor"

/-- A carpenter must be known to live. -/
def qualifies (tick : GameTick) (record : EntityRecord) (family : Family) : Bool :=
  (family.labor ≠ "CARPENTRY" || fieldValue record "alive" tick = some (.bool true)) &&
    fieldValue record (laborFieldPrefix ++ family.labor) tick = some (.bool true)

def tooManyEntities : DfmcpError :=
  budgetError "production capacity exceeds its explicit canonical entity bound"

def capture (s : WorldSnapshot) : Paid Capacity := do
  rejectIf (s.graph.entities.size > maxEffectAdvanceProductionEntities) tooManyEntities
  charge (s.graph.entities.size * (2 * families.length + 4) + 1)
  pure (s.graph.entities.toList.foldl
    (Capacity.captureRecord families (isAlive · s.tick) (qualifies s.tick) s.tick) .empty)

/-- Orders without a family are served as they are; the others are candidates. -/
structure Gathered (n : Nat) where
  selected : List (Fin n)
  candidates : List (Candidate (Fin n))

def gather (s : WorldSnapshot) (orders : List TimelineOrder) :
    List (Fin orders.length) → Result (Gathered orders.length)
  | [] => .ok ⟨[], []⟩
  | index :: rest =>
      match family (orders.get index).job with
      | none => do
          let gathered ← gather s orders rest
          pure { gathered with selected := index :: gathered.selected }
      | some family => do
          let partialTicks ← fieldU64 (← entity s (orders.get index).id) "work_ticks" s.tick
          let gathered ← gather s orders rest
          pure { gathered with
            candidates := ⟨index, (orders.get index).id, family, partialTicks⟩ ::
              gathered.candidates }

structure Selection (n : Nat) where
  ready : List (Fin n)
  waiting : BTreeMap (Fin n) String

/-- Why a candidate waits. -/
def waitingReason (capacity : Capacity) (used : Nat → Nat) (index : Nat) : String :=
  let family := families.getD index ⟨none, ""⟩
  if used index = capacity.workshops index then
    "production capacity busy: every established " ++ family.workshop.getD "" ++
      " is assigned to another work order"
  else
    "production capacity busy: living units with " ++ family.labor ++
      " enabled are assigned to other work orders"

def report {n : Nat} (capacity : Capacity) (admitted : Service.Admitted) :
    List (Candidate (Fin n) × Nat) → Selection n → Paid (Selection n)
  | [], selection => pure selection
  | (candidate, index) :: rest, selection => do
      charge 1
      if (admitted.seats.assigned index).isSome then
        report capacity admitted rest
          { selection with ready := selection.ready ++ [candidate.work] }
      else
        let reason := waitingReason capacity admitted.used candidate.family
        report capacity admitted rest
          { selection with waiting := selection.waiting.insert candidate.work reason }

/-- Select the orders that are served, preferring partial work and then canonical order. -/
def select (s : WorldSnapshot) (orders : List TimelineOrder) (ready : List (Fin orders.length)) :
    Paid (Selection orders.length) := do
  charge (ready.length * 4 + 1)
  rejectIf (s.graph.entities.size > maxEffectAdvanceProductionEntities ∧
    ready.any (fun index => (family (orders.get index).job).isSome)) tooManyEntities
  let gathered ← Method.of (gather s orders ready)
  if gathered.candidates.length = 0 then
    pure ⟨gathered.selected, .nil⟩
  else do
    let capacity ← capture s
    charge (gathered.candidates.length * (Nat.size gathered.candidates.length + 1))
    let candidates := rank gathered.candidates
    charge (capacity.workers.length + candidates.length + 1)
    let admitted ← admitAll families capacity candidates lost
    let selection ← report capacity admitted candidates.zipIdx ⟨gathered.selected, .nil⟩
    charge (selection.ready.length * (Nat.size selection.ready.length + 1))
    pure { selection with ready := selection.ready.insertionSort (· ≤ ·) }

end ProductionCapacity

/-! ## The shared workforce -/

namespace Workforce

open Effects Service

def families : List Family :=
  [⟨none, "MINING"⟩, ⟨none, "CONSTRUCTION"⟩, ⟨some "workshop:Still", "BREW"⟩,
    ⟨some "workshop:Kitchen", "COOK"⟩, ⟨some "workshop:Carpenters", "CARPENTRY"⟩]

def orderFamily (job : String) : Option Nat :=
  if job = "BREW_DRINK" then some 2
  else if job = "PREPARE_MEAL" ∨ job = "COOK_MEAL" then some 3
  else if carpentryRecipe job then some 4
  else none

def lost : DfmcpError :=
  .new .internalInvariantViolation "shared workforce lost an augmenting-path predecessor"

/-- A worker must be known to live. -/
def works (tick : GameTick) (record : EntityRecord) : Bool :=
  fieldValue record "alive" tick = some (.bool true)

def qualifies (tick : GameTick) (record : EntityRecord) (family : Family) : Bool :=
  fieldValue record (laborFieldPrefix ++ family.labor) tick = some (.bool true)

def captureEntry (s : WorldSnapshot) (capacity : Capacity) (entry : EntityId × EntityRecord) :
    Result Capacity :=
  if entry.2.id ≠ entry.1 then
    .error (precondition "shared workforce source has a mismatched entity identity")
  else .ok (Capacity.captureRecord families (works s.tick) (qualifies s.tick) s.tick capacity entry)

def capture (s : WorldSnapshot) : Paid Capacity := do
  rejectIf (s.graph.entities.size > maxEffectAdvanceProductionEntities)
    (budgetError "shared workforce exceeds its explicit canonical entity bound")
  charge (s.graph.entities.size * (2 * families.length + 4) + 1)
  Method.of (s.graph.entities.toList.foldlM (captureEntry s) .empty)

inductive Activity where
  | dig
  | building
  | order (index : Nat)
deriving DecidableEq

inductive ProductionGate where
  | ready
  | blocked (reason : String)

/-- The activities of a timeline; `digs` are with the number of their pending tiles, and `gate`
decides whether an active order can be worked on. -/
structure Timeline where
  digs : BTreeMap EntityId Nat
  buildings : List EntityId
  orders : List TimelineOrder
  gate : WorldSnapshot → TimelineOrder → Paid ProductionGate

structure Assignment where
  work : EntityId
  worker : EntityId
  labor : String
deriving DecidableEq

structure Blocker where
  work : EntityId
  labor : String
  reason : String
deriving DecidableEq

structure Selection where
  ready : List Nat
  buildings : BTreeSet EntityId
  digs : BTreeSet EntityId
  blockers : BTreeMap EntityId (Option String)
  assignments : List Assignment
  blocked : List Blocker
  activeActivities : Nat
  eligibleWorkers : Nat

/-- The candidates found so far, and what is known of the others. -/
structure Gathering where
  candidates : List (Candidate Activity)
  selection : Selection

def labor (family : Nat) : String := (families.getD family ⟨none, ""⟩).labor

/-- An active registered activity joins the candidates. -/
def Gathering.join (gathering : Gathering) (candidate : Candidate Activity) : Gathering :=
  { gathering with candidates := gathering.candidates ++ [candidate] }

def Gathering.count (gathering : Gathering) : Gathering :=
  { gathering with selection := { gathering.selection with
      activeActivities := gathering.selection.activeActivities + 1 } }

def gatherDigs (s : WorldSnapshot) (gathering : Gathering) (dig : EntityId × Nat) :
    Result Gathering :=
  if dig.2 = 0 then .ok gathering
  else do
    let partialTicks ← fieldU64 (← entity s dig.1) "work_ticks" s.tick
    pure (gathering.join ⟨.dig, dig.1, 0, partialTicks⟩).count

def activeBuilding (s : WorldSnapshot) (id : EntityId) : Result Bool := do
  let record ← entity s id
  let stage := fieldText record constructionStageField s.tick
  pure (decide (stage = some stagePlanned ∨ stage = some stageUnderConstruction))

def gatherBuildings (s : WorldSnapshot) (gathering : Gathering) (id : EntityId) :
    Result Gathering := do
  if ← activeBuilding s id then
    let partialTicks ← fieldU64 (← entity s id) "progress_ticks" s.tick
    pure (gathering.join ⟨.building, id, 1, partialTicks⟩).count
  else
    pure gathering

def activeOrder (s : WorldSnapshot) (id : EntityId) : Result Bool := do
  let record ← entity s id
  pure (decide (fieldText record statusField s.tick = some statusActive))

/-- An active order of a family, or of none, that the gate lets through. -/
def gatherReady (s : WorldSnapshot) (gathering : Gathering) (order : TimelineOrder)
    (index : Nat) : Result Gathering :=
  match orderFamily order.job with
  | some family => do
      let partialTicks ← fieldU64 (← entity s order.id) "work_ticks" s.tick
      pure (gathering.join ⟨.order index, order.id, family, partialTicks⟩)
  | none => .ok { gathering with selection := { gathering.selection with
      ready := gathering.selection.ready ++ [index]
      blockers := gathering.selection.blockers.insert order.id none } }

/-- An active order that the gate holds back. -/
def gatherBlocked (gathering : Gathering) (order : TimelineOrder) (reason : String) : Gathering :=
  { gathering with selection := { gathering.selection with
      blockers := gathering.selection.blockers.insert order.id (some reason)
      blocked := match orderFamily order.job with
        | some family => gathering.selection.blocked ++ [⟨order.id, labor family, reason⟩]
        | none => gathering.selection.blocked } }

def gatherOrders (s : WorldSnapshot) (timeline : Timeline) :
    List (TimelineOrder × Nat) → Gathering → Paid Gathering
  | [], gathering => pure gathering
  | (order, index) :: rest, gathering => do
      let active ← Method.of (activeOrder s order.id)
      if !active then gatherOrders s timeline rest gathering
      else do
        let counted := if (orderFamily order.job).isSome then gathering.count else gathering
        let gate ← timeline.gate s order
        match gate with
        | .ready => do
            let gathered ← Method.of (gatherReady s counted order index)
            gatherOrders s timeline rest gathered
        | .blocked reason =>
            gatherOrders s timeline rest (gatherBlocked counted order reason)

/-- Why a candidate is not served. -/
def blockedReason (capacity : Capacity) (used : Nat → Nat) (family : Nat) : String :=
  let busy := "workforce capacity busy: eligible " ++ labor family ++
    " workers are assigned to other activities"
  if capacity.eligible family = [] then
    "living unit with qualified " ++ labor family ++ " labor enabled is not established"
  else match (families[family]?).bind Family.workshop with
    | some workshop =>
        if capacity.workshops family = 0 then "completed " ++ workshop ++ " is not established"
        else if used family = capacity.workshops family then
          "workforce capacity busy: every established " ++ workshop ++
            " is assigned to another activity"
        else busy
    | none => busy

/-- A candidate that a worker serves. -/
def served (selection : Selection) (candidate : Candidate Activity) (worker : EntityId) :
    Selection :=
  let selection := match candidate.work with
    | .dig => { selection with digs := selection.digs.insert candidate.id () }
    | .building => { selection with buildings := selection.buildings.insert candidate.id () }
    | .order index => { selection with ready := selection.ready ++ [index] }
  { selection with
    blockers := selection.blockers.insert candidate.id none
    assignments := selection.assignments ++ [⟨candidate.id, worker, labor candidate.family⟩] }

def unserved (selection : Selection) (candidate : Candidate Activity) (reason : String) :
    Selection :=
  { selection with
    blockers := selection.blockers.insert candidate.id (some reason)
    blocked := selection.blocked ++ [⟨candidate.id, labor candidate.family, reason⟩] }

def report (capacity : Capacity) (admitted : Service.Admitted) :
    List (Candidate Activity × Nat) → Selection → Paid Selection
  | [], selection => pure selection
  | (candidate, index) :: rest, selection => do
      charge 1
      match admitted.seats.assigned index with
      | some worker =>
          report capacity admitted rest
            (served selection candidate (capacity.workers.getD worker 0))
      | none =>
          report capacity admitted rest (unserved selection candidate
            (blockedReason capacity admitted.used candidate.family))

/-- The active activities that can be worked on, and what is known of the others. -/
def gather (s : WorldSnapshot) (timeline : Timeline) (capacity : Capacity) : Paid Gathering := do
  let start : Gathering :=
    ⟨[], ⟨[], .nil, .nil, .nil, [], [], 0, capacity.workers.length⟩⟩
  let digs ← Method.of (timeline.digs.toList.foldlM (gatherDigs s) start)
  let buildings ← Method.of (timeline.buildings.foldlM (gatherBuildings s) digs)
  gatherOrders s timeline timeline.orders.zipIdx buildings

/-- Select the activities that are served. -/
def select (s : WorldSnapshot) (timeline : Timeline) : Paid Selection := do
  let capacity ← capture s
  charge ((timeline.orders.length + timeline.buildings.length + timeline.digs.size) * 5 + 1)
  let gathered ← gather s timeline capacity
  let n := gathered.candidates.length
  charge (n * (Nat.size n + 2) + capacity.workers.length)
  let candidates := rank gathered.candidates
  let admitted ← admitAll families capacity candidates lost
  let selection ← report capacity admitted candidates.zipIdx gathered.selection
  let width := selection.ready.length + selection.assignments.length + selection.blocked.length
  charge (width * (Nat.size width + 1))
  pure { selection with
    ready := selection.ready.insertionSort (· ≤ ·)
    assignments := selection.assignments.insertionSort fun a b => a.work ≤ b.work
    blocked := selection.blocked.insertionSort fun a b => a.work ≤ b.work }

end Workforce

end Dfmcp
