import Dfmcp.Core.Basic
import Dfmcp.Library.Budget
import Dfmcp.Library.Labels
import Dfmcp.Library.OrderedMap

/-!
# Workforce allocation

`dfmcp-world/src/workforce_allocation.rs`: exact, bounded assignment of single workers to demands.
As many slots as possible are filled, and among those fillings the cheapest is chosen, comparing
the four objectives lexicographically. The solver augments along shortest residual paths under
vector potentials, and runs the certificate checker `verifyInner` on its own result before it
returns it.

A cost is a vector of four `i64`; here the components are integers and `Cost.checked` is the range
check. Loops over nodes carry a bound: `search` settles a node at most once, and `fill` fills a slot
each time but the last.
-/

namespace Dfmcp.WorkforceAllocation

open Machine Flow Method

def maxWorkers : Nat := 4096
def maxDemands : Nat := 16
def maxSlots : Nat := 128
def maxPriority : Nat := 1000
def maxWork : Nat := 10000000

inductive Error where
  | invalidInput
  | budgetExceeded
  | arithmeticOverflow
  | invalidCertificate
deriving DecidableEq

/-! ## Costs -/

/-- Compared lexicographically: an earlier objective dominates every later one. -/
abbrev Cost := ℤ ×ₗ ℤ ×ₗ ℤ ×ₗ ℤ

namespace Cost

def make (priority effective nominal distance : ℤ) : Cost :=
  toLex (priority, toLex (effective, toLex (nominal, distance)))

def parts (c : Cost) : List ℤ :=
  [(ofLex c).1, (ofLex (ofLex c).2).1, (ofLex (ofLex (ofLex c).2).2).1,
    (ofLex (ofLex (ofLex c).2).2).2]

/-- The range of `i64`. -/
def inRange (z : ℤ) : Bool := -(2 ^ 63) ≤ z && z < 2 ^ 63

def checked (c : Cost) : Except Error Cost :=
  if c.parts.all inRange then .ok c else .error .arithmeticOverflow

def add (a b : Cost) : Except Error Cost := checked (a + b)

def sub (a b : Cost) : Except Error Cost := checked (a - b)

end Cost

/-! ## Inputs and results -/

structure Demand where
  key : String
  workers : U 32
  /-- Larger values prefer filling this demand when not all demands can be met. -/
  priority : U 16
deriving DecidableEq

structure Candidate where
  workerId : U 64
  demandIndex : Nat
  effective : S 32
  nominal : S 32
  steps : U 32
deriving DecidableEq

structure Assignment where
  demandIndex : Nat
  workerId : U 64
deriving DecidableEq

structure Shortage where
  demandIndices : List Nat
  requiredWorkers : Nat
  eligibleWorkers : Nat
  deficit : Nat
deriving DecidableEq

/-- Node order: source, demands by key, workers by identifier, sink. -/
structure Witness where
  potentials : List Cost
  sourceSide : List Bool

structure Allocation where
  assignments : List Assignment
  allocatedByDemand : List Nat
  requestedWorkers : Nat
  assignedWorkers : Nat
  cutCapacity : Nat
  cost : Cost
  shortage : Option Shortage
  witness : Witness
  workUnits : Nat

def Candidate.assignment (c : Candidate) : Assignment := ⟨c.demandIndex, c.workerId⟩

/-- The order of assignments: by demand, then by worker. -/
def Assignment.key (a : Assignment) : ℕ ×ₗ U 64 := toLex (a.demandIndex, a.workerId)

/-! ## Work -/

abbrev Solve := Method Error Work

def Work.new (maximum : Nat) : Except Error Work :=
  if maximum = 0 ∨ maxWork < maximum then .error .budgetExceeded else .ok ⟨0, maximum⟩

def charge (n : Nat) : Solve PUnit := Method.charge .arithmeticOverflow .budgetExceeded n

/-! ## Validation -/

structure Model where
  workers : List (U 64)
  requested : Nat
  sink : Nat
deriving DecidableEq

/-- The workers are in ascending order, so the binary search finds the place of a worker. -/
def Model.workerNode (m : Model) (demands : Nat) (id : U 64) : Except Error Nat :=
  match m.workers.idxOf? id with
  | some i => .ok (1 + demands + i)
  | none => .error .invalidCertificate

def keyByte (b : UInt8) : Bool :=
  (48 ≤ b && b ≤ 57) || (65 ≤ b && b ≤ 90) || (97 ≤ b && b ≤ 122) || b == 46 || b == 95 || b == 45

/-- The demand cannot follow the one before it. -/
def badDemand (previous : Option Demand) (d : Demand) : Prop :=
  d.key = "" ∨ 64 < strLen d.key ∨ d.workers.val = 0 ∨ maxSlots < d.workers.val ∨
    maxPriority < d.priority.val ∨ ¬ (utf8 d.key).all keyByte ∨
    ∃ p ∈ previous, ¬ utf8 p.key < utf8 d.key

/-- The candidate cannot follow the one before it. -/
def badCandidate (demands : Nat) (previous : Option Candidate) (c : Candidate) : Prop :=
  c.workerId.val = 0 ∨ demands ≤ c.demandIndex ∨ c.effective.val < 0 ∨
    ∃ p ∈ previous, ¬ p.assignment.key < c.assignment.key

instance (previous : Option Demand) (d : Demand) : Decidable (badDemand previous d) :=
  inferInstanceAs (Decidable (_ ∨ _))

instance (demands : Nat) (previous : Option Candidate) (c : Candidate) :
    Decidable (badCandidate demands previous c) :=
  inferInstanceAs (Decidable (_ ∨ _))

def validateDemands : Option Demand → List Demand → Nat → Solve Nat
  | _, [], requested => pure requested
  | previous, d :: rest, requested => do
      charge 1
      rejectIf (badDemand previous d) .invalidInput
      rejectIf (2 ^ 32 ≤ requested + d.workers.val) .arithmeticOverflow
      validateDemands (some d) rest (requested + d.workers.val)

def validateCandidates (demands : Nat) : Option Candidate → List Candidate →
    BTreeMap (U 64) Unit → Solve (BTreeMap (U 64) Unit)
  | _, [], workers => pure workers
  | previous, c :: rest, workers => do
      charge 1
      rejectIf (badCandidate demands previous c) .invalidInput
      let workers := workers.insert c.workerId ⟨⟩
      rejectIf (maxWorkers < workers.size) .budgetExceeded
      validateCandidates demands (some c) rest workers

def validate (demands : List Demand) (candidates : List Candidate) : Solve Model := do
  rejectIf (demands = [] ∨ maxDemands < demands.length ∨
    maxDemands * maxWorkers < candidates.length) .budgetExceeded
  let requested ← validateDemands none demands 0
  rejectIf (maxSlots < requested) .budgetExceeded
  let workers ← validateCandidates demands.length none candidates OMap.nil
  pure ⟨workers.keys, requested, 1 + demands.length + workers.size⟩

def priority (demands : List Demand) (index : Nat) : ℤ :=
  (demands[index]?).elim 0 fun d => d.priority.val

def cost (demands : List Demand) (c : Candidate) : Cost :=
  Cost.make (-priority demands c.demandIndex) (-c.effective.val) (-c.nominal.val) c.steps.val

/-! ## The residual network -/

/-- Both copies of an arc, and the place of the first one. -/
def arc (graph : Graph Cost) (tail head capacity : Nat) (cost : Cost) :
    Except Error (Nat × Graph Cost) := do
  let negative ← Cost.sub 0 cost
  .ok ((graph.edges tail).length, graph.link tail head capacity cost negative)

def addDemands : Nat → List Demand → Graph Cost → Solve (Graph Cost)
  | _, [], graph => pure graph
  | d, demand :: rest, graph => do
      charge 1
      let (_, graph) ← of (arc graph 0 (1 + d) demand.workers.val 0)
      addDemands (d + 1) rest graph

/-- What the solver keeps of the network: the places of the candidates' arcs, and the potentials. -/
structure Network where
  graph : Graph Cost
  links : List Nat
  potentials : Nat → Cost

def addCandidates (demands : List Demand) (model : Model) :
    List Candidate → Network → Solve Network
  | [], net => pure net
  | c :: rest, net => do
      charge 1
      let worker ← of (model.workerNode demands.length c.workerId)
      let value := cost demands c
      let (index, graph) ← of (arc net.graph (1 + c.demandIndex) worker model.requested value)
      addCandidates demands model rest
        { graph := graph
          links := net.links ++ [index]
          potentials := Function.update net.potentials worker (min (net.potentials worker) value) }

def addWorkers (sink : Nat) : List Nat → Network → Solve Network
  | [], net => pure net
  | node :: rest, net => do
      charge 1
      let (_, graph) ← of (arc net.graph node sink 1 0)
      addWorkers sink rest
        { net with
          graph := graph
          potentials := Function.update net.potentials sink
            (min (net.potentials sink) (net.potentials node)) }

def build (demands : List Demand) (candidates : List Candidate) (model : Model) :
    Solve Network := do
  let graph ← addDemands 0 demands (Graph.empty Cost (model.sink + 1))
  let net ← addCandidates demands model candidates ⟨graph, [], fun _ => 0⟩
  addWorkers model.sink ((List.range model.workers.length).map (1 + demands.length + ·)) net

/-! ## Shortest paths -/

/-- Offer every usable arc of a settled node to the labels. -/
def scan (potentials : Nat → Cost) (label : Cost) (node : Nat) :
    Nat → List (Edge Cost) → Labels Cost → Solve (Labels Cost)
  | _, [], labels => pure labels
  | index, edge :: rest, labels => do
      charge 1
      if edge.remaining = 0 then
        scan potentials label node (index + 1) rest labels
      else do
        let sum ← of (Cost.add edge.mark (potentials node))
        let reduced ← of (Cost.sub sum (potentials edge.target))
        rejectIf (reduced < 0) .invalidCertificate
        let next ← of (Cost.add label reduced)
        scan potentials label node (index + 1) rest (labels.offer next node index edge.target)

def search (graph : Graph Cost) (potentials : Nat → Cost) :
    Nat → Labels Cost → Solve (Labels Cost)
  | 0, _ => throw .invalidCertificate
  | bound + 1, labels =>
      match labels.frontier with
      | [] => pure labels
      | least :: rest => do
          charge 1
          let labels ← scan potentials (ofLex least).1 (ofLex least).2 0
            (graph.edges (ofLex least).2) { labels with frontier := rest }
          search graph potentials bound labels

/-- Raise every potential by the distance, and by the largest one where there is none. -/
def raise (distance : Nat → Option Cost) (maximum : Cost) :
    List Nat → (Nat → Cost) → Solve (Nat → Cost)
  | [], potentials => pure potentials
  | node :: rest, potentials => do
      charge 1
      let value ← of (Cost.add (potentials node) ((distance node).getD maximum))
      raise distance maximum rest (Function.update potentials node value)

/-- Move one unit back along the parents of a node; `bound` is one less than the nodes left. -/
def augment (parent : Nat → Option (Nat × Nat)) : Nat → Nat → Graph Cost → Solve (Graph Cost)
  | bound, node, graph =>
      if node = 0 then pure graph
      else do
        charge 1
        match bound, parent node with
        | 0, _ => throw .invalidCertificate
        | _, none => throw .invalidCertificate
        | bound + 1, some (previous, index) =>
            match (graph.edges previous)[index]? with
            | none => throw .invalidCertificate
            | some edge => do
                rejectIf (edge.remaining = 0) .invalidCertificate
                rejectIf (2 ^ 32 ≤ ((graph.edges node)[edge.reverse]?).elim (2 ^ 32)
                  fun back => back.remaining + 1) .arithmeticOverflow
                augment parent bound previous (graph.push previous index node edge.reverse 1)

/-- The network when no path is left. -/
structure Filled where
  graph : Graph Cost
  potentials : Nat → Cost
  assigned : Nat
  sourceSide : List Bool

def fill (model : Model) : Nat → Graph Cost → (Nat → Cost) → Nat → Solve Filled
  | 0, _, _, _ => throw .invalidCertificate
  | bound + 1, graph, potentials, assigned => do
      charge graph.size
      let labels ← search graph potentials (graph.size + 1) Labels.start
      if labels.distance model.sink = none then
        pure ⟨graph, potentials, assigned,
          (List.range graph.size).map fun node => (labels.distance node).isSome⟩
      else do
        match ((List.range graph.size).filterMap labels.distance).max? with
        | none => throw .invalidCertificate
        | some maximum => do
            let potentials ← raise labels.distance maximum (List.range graph.size) potentials
            let graph ← augment labels.parent (graph.size - 1) model.sink graph
            rejectIf (model.requested < assigned + 1) .invalidCertificate
            fill model bound graph potentials (assigned + 1)

/-! ## Reading the result -/

structure Collected where
  assignments : List Assignment
  counts : List Nat
  total : Cost

def collect (demands : List Demand) (model : Model) (graph : Graph Cost) :
    List (Candidate × Nat) → Collected → Solve Collected
  | [], out => pure out
  | (c, index) :: rest, out => do
      charge 1
      match (graph.edges (1 + c.demandIndex))[index]? with
      | none => throw .invalidCertificate
      | some edge => do
          rejectIf (model.requested < edge.remaining) .invalidCertificate
          rejectIf (1 < model.requested - edge.remaining) .invalidCertificate
          if model.requested - edge.remaining = 1 then do
            let total ← of (Cost.add out.total (cost demands c))
            collect demands model graph rest
              { assignments := out.assignments ++ [c.assignment]
                counts := out.counts.modify c.demandIndex (· + 1)
                total := total }
          else
            collect demands model graph rest out

def reachedDemands (sourceSide : List Bool) :
    Nat → List Demand → List Nat × Nat → Solve (List Nat × Nat)
  | _, [], out => pure out
  | d, demand :: rest, out => do
      charge 1
      reachedDemands sourceSide (d + 1) rest
        (if sourceSide.getD (1 + d) false then (out.1 ++ [d], out.2 + demand.workers.val) else out)

def neighbors (sourceSide : List Bool) :
    List Candidate → BTreeMap (U 64) Unit → Solve (BTreeMap (U 64) Unit)
  | [], out => pure out
  | c :: rest, out => do
      charge 1
      neighbors sourceSide rest
        (if sourceSide.getD (1 + c.demandIndex) false then out.insert c.workerId ⟨⟩ else out)

/-- The demands on the source side, which too few workers are eligible for. -/
def deficiency (demands : List Demand) (candidates : List Candidate) (model : Model)
    (sourceSide : List Bool) (assigned : Nat) : Solve (Option Shortage) := do
  if assigned = model.requested then
    pure none
  else do
    let (indices, required) ← reachedDemands sourceSide 0 demands ([], 0)
    let eligible ← neighbors sourceSide candidates OMap.nil
    rejectIf (2 ^ 32 ≤ eligible.size) .arithmeticOverflow
    rejectIf (required < eligible.size) .invalidCertificate
    rejectIf (required - eligible.size = 0 ∨
      required - eligible.size ≠ model.requested - assigned) .invalidCertificate
    pure (some ⟨indices, required, eligible.size, required - eligible.size⟩)

/-! ## The checker -/

/-- What the checker reads off the assignments. -/
structure Tally where
  counts : List Nat
  workers : List (U 64)
  selected : List Assignment
  total : Cost

def tally (demands : List Demand) (candidates : List Candidate) :
    Option Assignment → List Assignment → Tally → Solve Tally
  | _, [], out => pure out
  | previous, a :: rest, out => do
      charge 1
      rejectIf (demands.length ≤ a.demandIndex ∨ (∃ p ∈ previous, a.key ≤ p.key) ∨
        a.workerId ∈ out.workers) .invalidCertificate
      match candidates.find? fun c => c.assignment = a with
      | none => throw .invalidCertificate
      | some c => do
          let total ← of (Cost.add out.total (cost demands c))
          tally demands candidates (some a) rest
            { counts := out.counts.modify a.demandIndex (· + 1)
              workers := out.workers ++ [a.workerId]
              selected := out.selected ++ [a]
              total := total }

namespace Witness

def potential (w : Witness) (node : Nat) : Cost := w.potentials.getD node 0

def onSource (w : Witness) (node : Nat) : Bool := w.sourceSide.getD node false

/-- The conditions on an arc that could carry more. -/
def checkRoom (w : Witness) (tail head : Nat) (value : Cost) : Solve PUnit := do
  let sum ← of (Cost.add value (w.potential tail))
  let reduced ← of (Cost.sub sum (w.potential head))
  rejectIf (reduced < 0 ∨ (w.onSource tail ∧ ¬ w.onSource head)) .invalidCertificate

/-- The conditions on an arc that carries something. -/
def checkUsed (w : Witness) (tail head : Nat) (value : Cost) : Solve PUnit := do
  let negative ← of (Cost.sub 0 value)
  let sum ← of (Cost.add negative (w.potential head))
  let reduced ← of (Cost.sub sum (w.potential tail))
  rejectIf (reduced < 0 ∨ (w.onSource head ∧ ¬ w.onSource tail)) .invalidCertificate

/-- Check one arc, adding its capacity to the cut when it leaves the source side. -/
def check (w : Witness) (cut : Nat) (a : Arc Cost) (flow : Nat) : Solve Nat := do
  charge 1
  rejectIf (a.capacity < flow) .invalidCertificate
  let crossing := w.onSource a.tail ∧ ¬ w.onSource a.head
  rejectIf (crossing ∧ 2 ^ 32 ≤ cut + a.capacity) .arithmeticOverflow
  whenever (flow < a.capacity) (w.checkRoom a.tail a.head a.cost)
  whenever (0 < flow) (w.checkUsed a.tail a.head a.cost)
  pure (if crossing then cut + a.capacity else cut)

end Witness

def checkDemands (w : Witness) (counts : List Nat) : Nat → List Demand → Nat → Solve Nat
  | _, [], cut => pure cut
  | d, demand :: rest, cut => do
      let cut ← w.check cut ⟨0, 1 + d, demand.workers.val, 0⟩ (counts.getD d 0)
      checkDemands w counts (d + 1) rest cut

def checkCandidates (w : Witness) (demands : List Demand) (model : Model)
    (selected : List Assignment) : List Candidate → Nat → Solve Nat
  | [], cut => pure cut
  | c :: rest, cut => do
      let node ← of (model.workerNode demands.length c.workerId)
      let cut ← w.check cut ⟨1 + c.demandIndex, node, model.requested, cost demands c⟩
        (if c.assignment ∈ selected then 1 else 0)
      checkCandidates w demands model selected rest cut

def checkWorkers (w : Witness) (start sink : Nat) (assigned : List (U 64)) :
    Nat → List (U 64) → Nat → Solve Nat
  | _, [], cut => pure cut
  | i, id :: rest, cut => do
      let cut ← w.check cut ⟨start + i, sink, 1, 0⟩ (if id ∈ assigned then 1 else 0)
      checkWorkers w start sink assigned (i + 1) rest cut

/-- The certificate disagrees with the model in size or in its own totals. -/
def misshapen (demands : List Demand) (model : Model) (out : Allocation) : Prop :=
  model.requested < out.assignments.length ∨ out.requestedWorkers ≠ model.requested ∨
    out.assignedWorkers ≠ out.assignments.length ∨ out.cutCapacity ≠ out.assignedWorkers ∨
    out.allocatedByDemand.length ≠ demands.length ∨
    out.witness.potentials.length ≠ model.sink + 1 ∨
    out.witness.sourceSide.length ≠ model.sink + 1 ∨
    ¬ out.witness.onSource 0 ∨ out.witness.onSource model.sink

instance (demands : List Demand) (model : Model) (out : Allocation) :
    Decidable (misshapen demands model out) :=
  inferInstanceAs (Decidable (_ ∨ _))

/-- Reconstruct the residual capacities from the assignments and check the certificate on them. -/
def verifyInner (demands : List Demand) (candidates : List Candidate) (out : Allocation) :
    Solve PUnit := do
  let model ← validate demands candidates
  rejectIf (misshapen demands model out) .invalidCertificate
  let seen ← tally demands candidates none out.assignments
    ⟨List.replicate demands.length 0, [], [], 0⟩
  rejectIf (seen.counts ≠ out.allocatedByDemand ∨ seen.total ≠ out.cost) .invalidCertificate
  let cut ← checkDemands out.witness seen.counts 0 demands 0
  let cut ← checkCandidates out.witness demands model seen.selected candidates cut
  let cut ← checkWorkers out.witness (1 + demands.length) model.sink seen.workers 0
    model.workers cut
  rejectIf (cut ≠ out.cutCapacity) .invalidCertificate
  let shortage ← deficiency demands candidates model out.witness.sourceSide out.assignedWorkers
  rejectIf (shortage ≠ out.shortage) .invalidCertificate

/-- Check a certificate, returning the work it took. -/
def verify (demands : List Demand) (candidates : List Candidate) (out : Allocation)
    (budget : Nat) : Except Error Nat := do
  let work ← Work.new budget
  match exec (verifyInner demands candidates out) work with
  | (.ok _, work) => .ok work.used
  | (.error e, _) => .error e

/-! ## The solver -/

/-- The allocation with its certificate, not yet checked. -/
def propose (demands : List Demand) (candidates : List Candidate) : Solve Allocation := do
  let model ← validate demands candidates
  let net ← build demands candidates model
  let filled ← fill model (model.requested + 1) net.graph net.potentials 0
  let found ← collect demands model filled.graph (candidates.zip net.links)
    ⟨[], List.replicate demands.length 0, 0⟩
  let shortage ← deficiency demands candidates model filled.sourceSide filled.assigned
  pure
    { assignments := found.assignments
      allocatedByDemand := found.counts
      requestedWorkers := model.requested
      assignedWorkers := filled.assigned
      cutCapacity := filled.assigned
      cost := found.total
      shortage := shortage
      witness := ⟨(List.range (model.sink + 1)).map filled.potentials, filled.sourceSide⟩
      workUnits := 0 }

def solve (demands : List Demand) (candidates : List Candidate) : Solve Allocation := do
  let out ← propose demands candidates
  verifyInner demands candidates out
  pure out

/-- Assign workers to demands. -/
def allocate (demands : List Demand) (candidates : List Candidate) (budget : Nat) :
    Except Error Allocation := do
  let work ← Work.new budget
  match exec (solve demands candidates) work with
  | (.ok out, work) => .ok { out with workUnits := work.used }
  | (.error e, _) => .error e

end Dfmcp.WorkforceAllocation
