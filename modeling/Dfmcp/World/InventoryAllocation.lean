import Dfmcp.Core.Basic
import Dfmcp.Library.Budget
import Dfmcp.Library.Labels
import Dfmcp.Library.OrderedMap

/-!
# Inventory allocation

`dfmcp-world/src/inventory_allocation.rs`: capacitated matching of supplies to demands. Supplies
with equal eligibility are grouped before the flow and expanded after it. The flow is augmented
along shortest residual paths until the sink cannot be reached; the reached side is the cut that
certifies it, and the demands beyond it are the reported shortage.

An arc's mark is its `original` capacity, which is zero for the reverse copy. Subtractions that the
source leaves unchecked are truncated here, and never go below zero. Loops over nodes carry a bound:
`breadth` takes each node from the queue at most once, the two walks go back at most once through
each node, and `fill` moves at least one unit each time but the last.
-/

namespace Dfmcp.InventoryAllocation

open Machine Flow Method

def maxSupplies : Nat := 32768
def maxDemands : Nat := 32
def maxWork : Nat := 10000000
def maxGroups : Nat := 1024
def maxArcs : Nat := 65536
def maxAssignments : Nat := 65536

inductive AllocationError where
  | invalidInput
  | budgetExceeded
  | arithmeticOverflow
  | invariantViolation
deriving DecidableEq

/-! ## Inputs and results -/

structure Supply where
  id : U 64
  units : U 64
  /-- Bit `i` admits this supply to demand `i`. -/
  eligible : U 32
deriving DecidableEq

structure Demand where
  key : String
  units : U 64
deriving DecidableEq

structure Assignment where
  supplyId : U 64
  demandIndex : Nat
  units : Nat
deriving DecidableEq

structure Shortage where
  demandIndices : List Nat
  requiredUnits : Nat
  eligibleUnits : Nat
  deficit : Nat
deriving DecidableEq

structure Allocation where
  assignments : List Assignment
  allocatedByDemand : List Nat
  requestedUnits : Nat
  allocatedUnits : Nat
  cutCapacity : Nat
  shortage : Option Shortage
  workUnits : Nat
deriving DecidableEq

/-- The order of assignments: by demand, then by supply. -/
def Assignment.key (a : Assignment) : ℕ ×ₗ U 64 := toLex (a.demandIndex, a.supplyId)

/-! ## Work and sums -/

abbrev Solve := Method AllocationError Work

def charge (n : Nat) : Solve PUnit := Method.charge .arithmeticOverflow .budgetExceeded n

/-- The sum of two `u64`, when it is one. -/
def sum (left right : Nat) : Except AllocationError Nat :=
  if left + right < 2 ^ 64 then .ok (left + right) else .error .arithmeticOverflow

/-! ## Validation and grouping -/

def keyByte (b : UInt8) : Bool :=
  (48 ≤ b && b ≤ 57) || (65 ≤ b && b ≤ 90) || (97 ≤ b && b ≤ 122) || b == 46 || b == 95 || b == 45

/-- The demand cannot follow the one before it. -/
def badDemand (previous : Option Demand) (d : Demand) : Prop :=
  d.key = "" ∨ 64 < strLen d.key ∨ d.units.val = 0 ∨ ¬ (utf8 d.key).all keyByte ∨
    ∃ p ∈ previous, ¬ utf8 p.key < utf8 d.key

def maskLimit (demands : Nat) : Nat := if demands = 32 then 2 ^ 32 - 1 else 1 <<< demands - 1

/-- The supply cannot follow the one before it. -/
def badSupply (demands : Nat) (previous : Option Supply) (s : Supply) : Prop :=
  s.id.val = 0 ∨ s.units.val = 0 ∨ s.eligible.val = 0 ∨
    s.eligible.val &&& (2 ^ 32 - 1 - maskLimit demands) ≠ 0 ∨ ∃ p ∈ previous, s.id ≤ p.id

instance (previous : Option Demand) (d : Demand) : Decidable (badDemand previous d) :=
  inferInstanceAs (Decidable (_ ∨ _))

instance (demands : Nat) (previous : Option Supply) (s : Supply) :
    Decidable (badSupply demands previous s) :=
  inferInstanceAs (Decidable (_ ∨ _))

def validateDemands : Option Demand → List Demand → Nat → Solve Nat
  | _, [], requested => pure requested
  | previous, d :: rest, requested => do
      charge 1
      rejectIf (badDemand previous d) .invalidInput
      let requested ← of (sum requested d.units.val)
      validateDemands (some d) rest requested

/-- Supplies of equal eligibility: their units together, and the supplies in order. -/
abbrev Grouped := BTreeMap (U 32) (Nat × List Supply)

def groupSupplies (demands : Nat) : Option Supply → List Supply → Grouped → Solve Grouped
  | _, [], grouped => pure grouped
  | previous, s :: rest, grouped => do
      charge 1
      rejectIf (badSupply demands previous s) .invalidInput
      rejectIf (¬ grouped.contains s.eligible ∧ maxGroups ≤ grouped.size) .budgetExceeded
      let entry := (grouped.get? s.eligible).getD (0, [])
      let units ← of (sum entry.1 s.units.val)
      groupSupplies demands (some s) rest
        (grouped.insert s.eligible (units, entry.2 ++ [s]))

structure Group where
  mask : U 32
  units : Nat
  members : List Supply
deriving DecidableEq

def Group.admits (g : Group) (d : Nat) : Bool := g.mask.val &&& (1 <<< d) ≠ 0

/-! ## The residual network -/

/-- The graph under construction, with the number of arcs, and the links of the current group. -/
structure Layout where
  graph : Graph Nat
  links : List (List (Nat × Nat))
  arcs : Nat

/-- The links of one group, to the demands from `d` on. -/
def linkGroup (g : Group) (node start requested : Nat) :
    List Nat → List (Nat × Nat) → Layout → Solve (List (Nat × Nat) × Layout)
  | [], links, out => pure (links, out)
  | d :: rest, links, out => do
      charge 1
      if g.admits d then do
        rejectIf (maxArcs < out.arcs + 2) .budgetExceeded
        linkGroup g node start requested rest
          (links ++ [(d, (out.graph.edges node).length)])
          { out with
            graph := out.graph.link node (start + d) requested requested 0
            arcs := out.arcs + 2 }
      else linkGroup g node start requested rest links out

def linkGroups (demands start requested : Nat) : Nat → List Group → Layout → Solve Layout
  | _, [], out => pure out
  | i, g :: rest, out => do
      charge 1
      let (links, out) ← linkGroup g (i + 1) start requested (List.range demands) []
        { out with graph := out.graph.link 0 (i + 1) g.units g.units 0, arcs := out.arcs + 2 }
      linkGroups demands start requested (i + 1) rest { out with links := out.links ++ [links] }

def linkDemands (start sink : Nat) : Nat → List Demand → Layout → Solve Layout
  | _, [], out => pure out
  | d, demand :: rest, out => do
      rejectIf (maxArcs < out.arcs + 2) .budgetExceeded
      linkDemands start sink (d + 1) rest
        { out with
          graph := out.graph.link (start + d) sink demand.units.val demand.units.val 0
          arcs := out.arcs + 2 }

/-! ## Augmenting paths -/

/-- Discover the targets of a node. -/
def discover (node : Nat) : Nat → List (Edge Nat) → (Nat → Option (Nat × Nat)) × List Nat →
    Solve ((Nat → Option (Nat × Nat)) × List Nat)
  | _, [], out => pure out
  | index, arc :: rest, out => do
      charge 1
      if 0 < arc.remaining ∧ out.1 arc.target = none then
        discover node (index + 1) rest
          (Function.update out.1 arc.target (some (node, index)), out.2 ++ [arc.target])
      else discover node (index + 1) rest out

def breadth (graph : Graph Nat) (sink : Nat) :
    Nat → (Nat → Option (Nat × Nat)) → List Nat → Solve (Nat → Option (Nat × Nat))
  | 0, _, _ => throw .invariantViolation
  | _ + 1, parents, [] => pure parents
  | bound + 1, parents, node :: queue => do
      charge 1
      let out ← discover node 0 (graph.edges node) (parents, queue)
      if out.1 sink ≠ none then pure out.1
      else breadth graph sink bound out.1 out.2

/-- The least amount that can be moved along the parents of a node. -/
def bottleneck (parents : Nat → Option (Nat × Nat)) (graph : Graph Nat) :
    Nat → Nat → Nat → Solve Nat
  | bound, node, amount =>
      if node = 0 then pure amount
      else do
        charge 1
        match bound, parents node with
        | 0, _ => throw .invariantViolation
        | _, none => throw .invariantViolation
        | bound + 1, some (previous, index) =>
            match (graph.edges previous)[index]? with
            | none => throw .invariantViolation
            | some arc => bottleneck parents graph bound previous (min amount arc.remaining)

/-- Move the amount along the parents of a node. -/
def augment (parents : Nat → Option (Nat × Nat)) (amount : Nat) :
    Nat → Nat → Graph Nat → Solve (Graph Nat)
  | bound, node, graph =>
      if node = 0 then pure graph
      else do
        charge 1
        match bound, parents node with
        | 0, _ => throw .invariantViolation
        | _, none => throw .invariantViolation
        | bound + 1, some (previous, index) =>
            match (graph.edges previous)[index]? with
            | none => throw .invariantViolation
            | some arc =>
                match (graph.edges node)[arc.reverse]? with
                | none => throw .invariantViolation
                | some back => do
                    rejectIf (2 ^ 64 ≤ back.remaining + amount) .arithmeticOverflow
                    augment parents amount bound previous
                      (graph.push previous index node arc.reverse amount)

/-- The network when no path is left, with the nodes that can be reached. -/
structure Filled where
  graph : Graph Nat
  allocated : Nat
  reached : List Bool

def fill (sink requested : Nat) : Nat → Graph Nat → Nat → Solve Filled
  | 0, _, _ => throw .invariantViolation
  | bound + 1, graph, allocated => do
      let parents ← breadth graph sink (graph.size + 1)
        (Function.update (fun _ => none) 0 (some (0, 0))) [0]
      if parents sink = none then
        pure ⟨graph, allocated, (List.range graph.size).map fun node => (parents node).isSome⟩
      else do
        let amount ← bottleneck parents graph graph.size sink (2 ^ 64 - 1)
        rejectIf (amount = 0) .invariantViolation
        let graph ← augment parents amount graph.size sink graph
        let allocated ← of (sum allocated amount)
        rejectIf (requested < allocated) .invariantViolation
        fill sink requested bound graph allocated

/-! ## The cut and the shortage -/

def cutNode (reached : List Bool) (node : Nat) : List (Edge Nat) → Nat → Solve Nat
  | [], cut => pure cut
  | arc :: rest, cut => do
      charge 1
      if reached.getD node false ∧ ¬ reached.getD arc.target false then do
        let cut ← of (sum cut arc.mark)
        cutNode reached node rest cut
      else cutNode reached node rest cut

def cutCapacity (reached : List Bool) (graph : Graph Nat) : List Nat → Nat → Solve Nat
  | [], cut => pure cut
  | node :: rest, cut => do
      let cut ← cutNode reached node (graph.edges node) cut
      cutCapacity reached graph rest cut

def sumUnits (demands : List Demand) : List Nat → Nat → Except AllocationError Nat
  | [], total => .ok total
  | d :: rest, total => do
      let total ← sum total ((demands[d]?).elim 0 fun d => d.units.val)
      sumUnits demands rest total

def eligibleUnits (subset : Nat) : List Group → Nat → Solve Nat
  | [], total => pure total
  | g :: rest, total => do
      charge 1
      if g.mask.val &&& subset ≠ 0 then do
        let total ← of (sum total g.units)
        eligibleUnits subset rest total
      else eligibleUnits subset rest total

/-- The demands beyond the cut, which too few units are eligible for. -/
def shortage (demands : List Demand) (groups : List Group) (start requested : Nat)
    (filled : Filled) : Solve (Option Shortage) := do
  if filled.allocated < requested then do
    let indices := (List.range demands.length).filter fun d =>
      !filled.reached.getD (start + d) false
    let required ← of (sumUnits demands indices 0)
    let eligible ← eligibleUnits (indices.foldl (fun mask d => mask ||| (1 <<< d)) 0) groups 0
    rejectIf (required < eligible) .invariantViolation
    rejectIf (required - eligible ≠ requested - filled.allocated ∨ required - eligible = 0)
      .invariantViolation
    pure (some ⟨indices, required, eligible, required - eligible⟩)
  else pure none

/-! ## Expanding the groups -/

/-- What has been handed out: the assignments, the units of each demand, and what is left of the
group, as its remaining members and the units already used of the first. -/
structure Handed where
  assignments : List Assignment
  counts : List Nat
  members : List Supply
  used : Nat

/-- Hand the units of one link to its demand, at least one each time. -/
def handLink (demandIndex : Nat) : Nat → Nat → Handed → Solve Handed
  | bound, remaining, out =>
      if remaining = 0 then pure out
      else do
        charge 1
        match bound, out.members with
        | 0, _ => throw .invariantViolation
        | _, [] => throw .invariantViolation
        | bound + 1, supply :: rest => do
            let amount := min remaining (supply.units.val - out.used)
            rejectIf (amount = 0 ∨ maxAssignments ≤ out.assignments.length) .budgetExceeded
            let count ← of (sum (out.counts.getD demandIndex 0) amount)
            handLink demandIndex bound (remaining - amount)
              { assignments := out.assignments ++ [⟨supply.id, demandIndex, amount⟩]
                counts := out.counts.set demandIndex count
                members := if out.used + amount = supply.units.val then rest else supply :: rest
                used := if out.used + amount = supply.units.val then 0 else out.used + amount }

def handLinks (graph : Graph Nat) (node : Nat) : List (Nat × Nat) → Handed → Solve Handed
  | [], out => pure out
  | (d, index) :: rest, out => do
      match (graph.edges node)[index]? with
      | none => throw .invariantViolation
      | some arc => do
          let remaining := arc.mark - arc.remaining
          let out ← handLink d remaining remaining out
          handLinks graph node rest out

def handGroups (graph : Graph Nat) :
    Nat → List (Group × List (Nat × Nat)) → Handed → Solve Handed
  | _, [], out => pure out
  | i, (g, links) :: rest, out => do
      let out ← handLinks graph (i + 1) links { out with members := g.members, used := 0 }
      handGroups graph (i + 1) rest out

def verifyTotals (demands : List Demand) : Nat → List Nat → Nat → Solve Nat
  | _, [], total => pure total
  | d, units :: rest, total => do
      rejectIf ((demands[d]?).elim 0 (fun d => d.units.val) < units) .invariantViolation
      let total ← of (sum total units)
      verifyTotals demands (d + 1) rest total

/-! ## The allocation -/

def solve (supplies : List Supply) (demands : List Demand) : Solve Allocation := do
  let requested ← validateDemands none demands 0
  let grouped ← groupSupplies demands.length none supplies OMap.nil
  let groups := grouped.toList.map fun e => (⟨e.1, e.2.1, e.2.2⟩ : Group)
  let start := 1 + groups.length
  let sink := start + demands.length
  let layout ← linkGroups demands.length start requested 0 groups
    ⟨Graph.empty Nat (sink + 1), [], 0⟩
  let layout ← linkDemands start sink 0 demands layout
  let filled ← fill sink requested (requested + 1) layout.graph 0
  let cut ← cutCapacity filled.reached filled.graph (List.range (sink + 1)) 0
  rejectIf (cut ≠ filled.allocated) .invariantViolation
  let short ← shortage demands groups start requested filled
  let handed ← handGroups filled.graph 0 (groups.zip layout.links)
    ⟨[], List.replicate demands.length 0, [], 0⟩
  let total ← verifyTotals demands 0 handed.counts 0
  rejectIf (total ≠ filled.allocated) .invariantViolation
  pure
    { assignments := handed.assignments.mergeSort fun a b => a.key ≤ b.key
      allocatedByDemand := handed.counts
      requestedUnits := requested
      allocatedUnits := filled.allocated
      cutCapacity := cut
      shortage := short
      workUnits := 0 }

/-- Allocate supplies to demands. -/
def allocate (supplies : List Supply) (demands : List Demand) (budget : Nat) :
    Except AllocationError Allocation :=
  if maxSupplies < supplies.length ∨ demands = [] ∨ maxDemands < demands.length ∨ budget = 0 ∨
      maxWork < budget then .error .budgetExceeded
  else
    match exec (solve supplies demands) ⟨0, budget⟩ with
    | (.ok out, work) => .ok { out with workUnits := work.used }
    | (.error e, _) => .error e

end Dfmcp.InventoryAllocation
