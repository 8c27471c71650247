import Dfmcp.Intent.Labor
import Dfmcp.Library.Matching

/-!
# Labor positions are filled, or short

A search from an open position keeps the invariant of an alternating search. Where it meets a free
worker his route is reseated move by move, and the position is filled without emptying another.
Where it is exhausted, the positions it found want more workers than are eligible for them.

* `gives_listRoles` — the positions of the roles and their candidates;
* `gives_search`, `gives_reseat` — what a search reports, and what a route is turned into;
* `gives_augment`, `gives_fill` — every position is filled, or it is short.
-/

namespace Dfmcp.Labor

open Machine Method Matching

/-- An error a caller can bring about. -/
def Refused (e : DfmcpError) : Prop := e.code ≠ .internalInvariantViolation

theorem refused_exhausted : Refused exhausted := by
  simp [Refused, exhausted, DfmcpError.new]

theorem refused_invalid (message : String) : Refused (invalid message) := by
  simp [Refused, invalid, DfmcpError.new]

theorem gives_charge : Gives charge (fun _ => True) Refused := by
  intro w _
  unfold charge Method.charge exec
  simp only [ExceptT.run, StateT.run]
  split
  · next h => split at h <;> trivial
  · next h =>
      split at h
      · obtain rfl := Except.error.inj (Prod.mk.inj h).1
        exact refused_exhausted
      · split at h
        · obtain rfl := Except.error.inj (Prod.mk.inj h).1
          exact refused_exhausted
        · cases (Prod.mk.inj h).1

theorem gives_chargeTimes (n : Nat) : Gives (chargeTimes n) (fun _ => True) Refused := by
  induction n with
  | zero => exact .pure trivial
  | succ n ih => exact gives_charge.bind fun _ _ => ih

/-! ## Roles and positions -/

section Roles

variable (roster : List DwarfLaborProfile) (demands : List LaborDemand)

/-- A role can be given to a worker. -/
def Takes (role worker : ℕ) : Prop :=
  ∃ demand dwarf, demands[role]? = some demand ∧ roster[worker]? = some dwarf ∧
    eligible demand dwarf = true

/-- The roles of the positions: each role as often as it wants workers. -/
def positionsFrom : ℕ → List LaborDemand → List ℕ
  | _, [] => []
  | role, demand :: rest => List.replicate demand.workers.val role ++ positionsFrom (role + 1) rest

/-- What a listing of roles holds. -/
structure Lists (roles : Roles) : Prop where
  positions : roles.positions = positionsFrom 0 demands
  length : roles.candidates.length = demands.length
  candidates : ∀ role list, roles.candidates[role]? = some list →
    ∀ worker, worker ∈ list ↔ Takes roster demands role worker

variable {roster demands}

theorem gives_eligibleWorkers (demand : LaborDemand) (first : ℕ) (rest : List DwarfLaborProfile) :
    Gives (eligibleWorkers demand first rest) (fun found => ∀ worker dwarf,
      (worker, dwarf) ∈ found ↔ first ≤ worker ∧ rest[worker - first]? = some dwarf ∧
        eligible demand dwarf = true) Refused := by
  induction rest generalizing first with
  | nil => exact .pure fun _ _ => by simp
  | cons dwarf rest ih =>
      refine gives_charge.bind fun _ _ => (ih (first + 1)).bind fun more hmore => .pure ?_
      intro worker other
      have hlater : first + 1 ≤ worker → worker - first = worker - (first + 1) + 1 := by omega
      have hsplit : (first ≤ worker ∧ (dwarf :: rest)[worker - first]? = some other ∧
          eligible demand other = true) ↔
          (worker = first ∧ other = dwarf ∧ eligible demand dwarf = true) ∨
          (worker, other) ∈ more := by
        rw [hmore]
        rcases Nat.lt_trichotomy worker first with hlt | rfl | hgt
        · exact iff_of_false (by omega) (by omega)
        · simp only [le_refl, Nat.sub_self, List.getElem?_cons_zero, Option.some_inj, true_and]
          constructor
          · rintro ⟨rfl, h⟩
            exact .inl ⟨rfl, h⟩
          · rintro (⟨rfl, h⟩ | ⟨h, _⟩)
            · exact ⟨rfl, h⟩
            · omega
        · rw [hlater hgt, List.getElem?_cons_succ]
          constructor
          · exact fun h => .inr ⟨hgt, h.2⟩
          · rintro (⟨h, _⟩ | h)
            · omega
            · exact ⟨by omega, h.2⟩
      rw [hsplit]
      by_cases helig : eligible demand dwarf = true
      · simp [helig]
      · simp [helig]

theorem mem_sortCandidates {demand : LaborDemand} {found : List (ℕ × DwarfLaborProfile)}
    {worker : ℕ} : worker ∈ sortCandidates demand found ↔ ∃ dwarf, (worker, dwarf) ∈ found := by
  rw [sortCandidates, List.mem_map]
  constructor
  · rintro ⟨⟨w, dwarf⟩, hmem, rfl⟩
    exact ⟨dwarf, (List.mem_insertionSort _).1 hmem⟩
  · rintro ⟨dwarf, hmem⟩
    exact ⟨(worker, dwarf), (List.mem_insertionSort _).2 hmem, rfl⟩

theorem gives_listRoles_from (first : ℕ) (rest : List LaborDemand) :
    Gives (listRoles roster first rest) (fun roles =>
      roles.positions = positionsFrom first rest ∧ roles.candidates.length = rest.length ∧
      ∀ role list, roles.candidates[role]? = some list →
        ∀ worker, worker ∈ list ↔ Takes roster rest role worker) Refused := by
  induction rest generalizing first with
  | nil => exact .pure ⟨rfl, rfl, nofun⟩
  | cons demand rest ih =>
      refine (gives_eligibleWorkers demand 0 roster).bind fun found hfound => ?_
      refine (gives_chargeTimes _).bind fun _ _ => (ih (first + 1)).bind fun more hmore => .pure ?_
      obtain ⟨hpositions, hlength, hcandidates⟩ := hmore
      refine ⟨by rw [positionsFrom, ← hpositions], by simp [hlength], ?_⟩
      intro role list hlist worker
      cases role with
      | zero =>
          obtain rfl := Option.some.inj hlist
          rw [mem_sortCandidates]
          constructor
          · rintro ⟨dwarf, hmem⟩
            obtain ⟨_, hget, helig⟩ := (hfound worker dwarf).1 hmem
            exact ⟨demand, dwarf, rfl, hget, helig⟩
          · rintro ⟨other, dwarf, hother, hget, helig⟩
            obtain rfl := Option.some.inj hother
            exact ⟨dwarf, (hfound worker dwarf).2 ⟨Nat.zero_le _, hget, helig⟩⟩
      | succ role => exact hcandidates role list hlist worker

theorem gives_listRoles :
    Gives (listRoles roster 0 demands) (Lists roster demands) Refused :=
  (gives_listRoles_from 0 demands).conseq
    (fun _ h => ⟨h.1, h.2.1, h.2.2⟩) fun _ h => h

variable {roles : Roles}

/-- A position would take a worker. -/
def Offers (roster : List DwarfLaborProfile) (demands : List LaborDemand) (roles : Roles)
    (position worker : ℕ) : Prop :=
  ∃ role, roles.positions[position]? = some role ∧ Takes roster demands role worker

theorem Lists.mem_offered (h : Lists roster demands roles) {position worker : ℕ} :
    worker ∈ roles.offered position ↔ Offers roster demands roles position worker := by
  rw [Roles.offered]
  cases hrole : roles.positions[position]? with
  | none =>
      refine iff_of_false (by simp) ?_
      rintro ⟨role, hrole', _⟩
      rw [hrole] at hrole'
      cases hrole'
  | some role =>
      rw [Option.bind_some]
      cases hlist : roles.candidates[role]? with
      | none =>
          refine iff_of_false (by simp) ?_
          rintro ⟨role', hrole', demand, _, hdemand, _⟩
          obtain rfl := Option.some.inj (hrole.symm.trans hrole')
          rw [List.getElem?_eq_none_iff, h.length, ← List.getElem?_eq_none_iff] at hlist
          rw [hlist] at hdemand
          cases hdemand
      | some list =>
          rw [Option.getD_some, h.candidates role list hlist]
          constructor
          · exact fun htakes => ⟨role, hrole, htakes⟩
          · rintro ⟨role', hrole', htakes⟩
            rwa [Option.some.inj (hrole.symm.trans hrole')]

end Roles

/-! ## One position -/

section Augment

variable {roster : List DwarfLaborProfile} {demands : List LaborDemand} {roles : Roles}
  {seats : Seats} {root : ℕ}

/-- Both arrays say the same, and everyone sits where he is eligible. -/
structure Seats.Holds (offers : ℕ → ℕ → Prop) (seats : Seats) : Prop where
  matching : Matches offers seats.workerPositions
  inverse : ∀ p w, seats.positionWorkers p = some w ↔ seats.workerPositions w = some p

/-- Between two workers of a position: the workers of the positions visited were looked at, apart
from those of the last that are still to come. -/
def Owed (offers : ℕ → ℕ → Prop) (done : List ℕ) (position : ℕ) (pending : List ℕ) :
    ℕ → ℕ → Prop :=
  fun r x => offers r x ∧ r ∈ done ∧ (r = position → x ∉ pending)

/-- A search in progress: `done` are the positions visited, and the queue those found since. -/
structure Search.Runs (offers : ℕ → ℕ → Prop) (post : ℕ → Option ℕ) (root : ℕ) (s : Search)
    (done : List ℕ) (looked : ℕ → ℕ → Prop) : Prop where
  alternating : Alternating offers post root s.parents (done ++ s.queue) looked
  visited : ∀ q, s.visited q = true ↔ q ∈ done ++ s.queue

theorem Search.Runs.start (offers : ℕ → ℕ → Prop) (post : ℕ → Option ℕ) (root : ℕ) :
    (Search.start root).Runs offers post root [] fun r x => offers r x ∧ r ∈ ([] : List ℕ) where
  alternating := (Alternating.start root).skip fun _ _ h => absurd h.2 List.not_mem_nil
  visited := by
    intro q
    by_cases hq : q = root
    · simp [Search.start, hq]
    · simp [Search.start, hq]

/-- A worker who sits somewhere leads the search on to his position. -/
theorem Search.Runs.enqueue {offers : ℕ → ℕ → Prop} {post : ℕ → Option ℕ} {s : Search}
    {done : List ℕ} {looked looked' : ℕ → ℕ → Prop} {p q w : ℕ}
    (h : s.Runs offers post root done looked) (hp : p ∈ done) (hoffer : offers p w)
    (hnew : s.parents w = none) (hpost : post w = some q)
    (hlooked : ∀ r x, looked' r x → looked r x ∨ x = w) :
    (({ s with parents := Function.update s.parents w (some p) } : Search).enqueue q).Runs
      offers post root done looked' := by
  have hmark := h.alternating.mark (List.mem_append_left _ hp) hoffer hnew hpost hlooked
  unfold Search.enqueue
  by_cases hq : s.visited q = true
  · rw [if_pos hq]
    rw [if_pos ((h.visited q).1 hq)] at hmark
    exact ⟨hmark, h.visited⟩
  · rw [if_neg hq]
    rw [if_neg fun hmem => hq ((h.visited q).2 hmem), List.append_assoc] at hmark
    refine ⟨hmark, fun r => ?_⟩
    dsimp only
    rw [← List.append_assoc, List.mem_append, List.mem_singleton]
    by_cases hr : r = q
    · rw [hr, Function.update_self]
      exact iff_of_true rfl (.inr rfl)
    · rw [Function.update_of_ne hr, h.visited]
      exact (or_iff_left hr).symm

/-- What a search reports: it is exhausted, or a free worker has a way back to the root. -/
def Found (offers : ℕ → ℕ → Prop) (post : ℕ → Option ℕ) (root : ℕ) (done : List ℕ)
    (looked : ℕ → ℕ → Prop) : Search × Option ℕ → Prop
  | (s, none) => s.Runs offers post root done looked
  | (s, some w) => post w = none ∧ ∃ route, Route offers post s.parents root w route ∧
      route.Nodup ∧ ∀ q ∈ route, q = root ∨ Seated post q

/-- The positions a search finds are the root and positions that have workers. -/
theorem seated_of_alternating {offers : ℕ → ℕ → Prop} {post parents : ℕ → Option ℕ}
    {line : List ℕ} {looked : ℕ → ℕ → Prop}
    (h : Alternating offers post root parents line looked) {q : ℕ} (hq : q ∈ line) :
    q = root ∨ Seated post q := by
  by_cases hroot : q = root
  · exact .inl hroot
  · obtain ⟨w, _, hpost, _⟩ := h.origin q hq hroot
    exact .inr ⟨w, hpost⟩

theorem gives_scan {offers : ℕ → ℕ → Prop} {position : ℕ} {done : List ℕ}
    (hposition : position ∈ done) (pending : List ℕ)
    (hpending : ∀ w ∈ pending, offers position w) {s : Search}
    (h : s.Runs offers seats.workerPositions root done (Owed offers done position pending)) :
    Gives (scan seats position pending s)
      (Found offers seats.workerPositions root done fun r x => offers r x ∧ r ∈ done) Refused := by
  induction pending generalizing s with
  | nil =>
      refine .pure (⟨h.alternating.skip fun r x hx => .inl ?_, h.visited⟩ : Search.Runs ..)
      exact ⟨hx.1, hx.2, fun _ => List.not_mem_nil⟩
  | cons worker rest ih =>
      refine gives_charge.bind fun _ _ => ?_
      have hoffer := hpending worker List.mem_cons_self
      have hrest : ∀ w ∈ rest, offers position w := fun w hw =>
        hpending w (List.mem_cons_of_mem _ hw)
      have hless : ∀ r x, Owed offers done position rest r x →
          Owed offers done position (worker :: rest) r x ∨ x = worker := by
        rintro r x ⟨hx, hr, hpend⟩
        by_cases hworker : x = worker
        · exact .inr hworker
        · refine .inl ⟨hx, hr, fun hrp hmem => ?_⟩
          exact (List.mem_cons.1 hmem).elim hworker (hpend hrp)
      refine .ite (fun hseen => ih hrest ?_) fun hnew => ?_
      · refine ⟨h.alternating.skip fun r x hx => ?_, h.visited⟩
        refine (hless r x hx).imp id fun heq => ?_
        rw [heq]
        exact hseen
      · have hnew := not_not.1 hnew
        cases hpost : seats.workerPositions worker with
        | some occupied =>
            exact ih hrest (h.enqueue hposition hoffer hnew hpost hless)
        | none =>
            obtain ⟨route, hroute, hnodup, hline⟩ :=
              h.alternating.route (List.mem_append_left _ hposition) hoffer hpost
            refine .pure ⟨hpost, route, hroute, hnodup, fun q hq => ?_⟩
            exact seated_of_alternating h.alternating (hline q hq)

theorem gives_search (hlists : Lists roster demands roles)
    (hholds : seats.Holds (Offers roster demands roles)) (hroot : root < roles.positions.length)
    (bound : ℕ) {s : Search} {done : List ℕ} (hbound : roles.positions.length < bound + done.length)
    (h : s.Runs (Offers roster demands roles) seats.workerPositions root done
      fun r x => Offers roster demands roles r x ∧ r ∈ done) :
    Gives (search roles seats bound s) (fun found => ∃ line,
      Found (Offers roster demands roles) seats.workerPositions root line
        (fun r x => Offers roster demands roles r x ∧ r ∈ line) found ∧
      (found.2 = none → found.1.queue = [])) Refused := by
  have hrange : ∀ {line looked parents}, Alternating (Offers roster demands roles)
      seats.workerPositions root parents line looked →
      ∀ q ∈ line, q < roles.positions.length := by
    intro line looked parents halt q hq
    rcases seated_of_alternating halt hq with rfl | ⟨w, hw⟩
    · exact hroot
    · obtain ⟨role, hrole, _⟩ := hholds.matching.offered w q hw
      exact (List.getElem?_eq_some_iff.1 hrole).1
  induction bound generalizing s done with
  | zero =>
      have hle : (done ++ s.queue).length ≤ roles.positions.length := by
        have hsub := @List.subperm_of_subset _ _ (List.range roles.positions.length)
          h.alternating.nodup fun q hq => List.mem_range.2 (hrange h.alternating q hq)
        simpa using hsub.length_le
      rw [List.length_append] at hle
      omega
  | succ bound ih =>
      unfold search
      cases hqueue : s.queue with
      | nil => exact .pure ⟨done, h, fun _ => hqueue⟩
      | cons position rest =>
          have hnodup := h.alternating.nodup
          have hline : done ++ s.queue = done ++ [position] ++ rest := by simp [hqueue]
          have hruns : ({ s with queue := rest } : Search).Runs (Offers roster demands roles)
              seats.workerPositions root (done ++ [position])
              (Owed (Offers roster demands roles) (done ++ [position]) position
                (roles.offered position)) := by
            refine ⟨?_, fun q => by rw [← hline]; exact h.visited q⟩
            rw [← hline]
            refine h.alternating.skip fun r x hx => .inl ⟨hx.1, ?_⟩
            rcases List.mem_append.1 hx.2.1 with hr | hr
            · exact hr
            · have hr := List.mem_singleton.1 hr
              subst hr
              exact absurd (hlists.mem_offered.2 hx.1) (hx.2.2 rfl)
          refine (gives_scan (List.mem_append_right _ (List.mem_singleton_self position)) _
            (fun w hw => hlists.mem_offered.1 hw) hruns).bind fun found hfound => ?_
          obtain ⟨s', free⟩ := found
          refine .ite (fun hnone => ?_) fun hsome => .pure ⟨_, hfound, fun h => absurd h hsome⟩
          dsimp only at hnone
          subst hnone
          exact ih (by rw [List.length_append, List.length_singleton]; omega) hfound

/-- Seating a worker with his parent is a move. -/
theorem Seats.Holds.move {offers : ℕ → ℕ → Prop} (h : seats.Holds offers) {p w : ℕ}
    (hoffer : offers p w) (hfree : seats.workerPositions w = none) :
    Seats.Holds offers ⟨Function.update seats.positionWorkers p (some w),
      Matching.move seats.workerPositions p w (seats.positionWorkers p)⟩ := by
  have hprev : ∀ x, seats.positionWorkers p = some x ↔ seats.workerPositions x = some p :=
    fun x => h.inverse p x
  refine ⟨(h.matching.move hprev hfree hoffer).1, fun q x => ?_⟩
  dsimp only
  rw [move_eq_some hprev hfree]
  by_cases hq : q = p
  · subst hq
    rw [Function.update_self, Option.some_inj]
    constructor
    · exact fun heq => .inl ⟨heq.symm, rfl⟩
    · rintro (⟨heq, _⟩ | ⟨_, hne⟩)
      · exact heq.symm
      · exact absurd rfl hne
  · rw [Function.update_of_ne hq, h.inverse]
    constructor
    · exact fun hx => .inr ⟨hx, hq⟩
    · rintro (⟨_, heq⟩ | ⟨hx, _⟩)
      · exact absurd heq hq
      · exact hx

/-- **A route is reseated move by move**, and seats its root. -/
theorem gives_reseat {offers : ℕ → ℕ → Prop} {parents : ℕ → Option ℕ} (bound : ℕ)
    {route : List ℕ} {w : ℕ} (hholds : seats.Holds offers)
    (hroot : ¬ Seated seats.workerPositions root)
    (hroute : Route offers seats.workerPositions parents root w route) (hnodup : route.Nodup)
    (hfree : seats.workerPositions w = none) (hbound : route.length ≤ bound) :
    Gives (reseat parents bound w seats) (fun after => after.Holds offers ∧
      ∀ q, Seated after.workerPositions q ↔ q = root ∨ Seated seats.workerPositions q)
      Refused := by
  induction bound generalizing route w seats with
  | zero =>
      rw [List.length_eq_zero_iff.1 (Nat.le_zero.1 hbound)] at hroute
      exact hroute.elim
  | succ bound ih =>
      cases route with
      | nil => exact hroute.elim
      | cons p rest =>
          obtain ⟨hparent, hoffer⟩ := hroute.parent
          have hprev : ∀ x, seats.positionWorkers p = some x ↔
              seats.workerPositions x = some p := fun x => hholds.inverse p x
          have hmoved := hholds.move hoffer hfree
          have hseated := (hholds.matching.move hprev hfree hoffer).2
          refine gives_charge.bind fun _ _ => ?_
          rw [hparent]
          dsimp only
          cases rest with
          | nil =>
              have hpr : p = root := hroute.2.2
              cases hsits : seats.positionWorkers p with
              | some x => exact absurd ⟨x, hpr ▸ (hprev x).1 hsits⟩ hroot
              | none =>
                  rw [hsits] at hmoved hseated
                  exact .pure ⟨hmoved, fun q => hpr ▸ hseated q⟩
          | cons next rest =>
              obtain ⟨x, hx, hnext⟩ := hroute.step hholds.matching hnodup hfree
              have hsits := (hprev x).2 hx
              rw [hsits] at hmoved hseated ⊢
              dsimp only
              have hsame : ∀ q, Seated (Matching.move seats.workerPositions p w (some x)) q ↔
                  Seated seats.workerPositions q := by
                intro q
                rw [hseated q]
                refine or_iff_right_of_imp ?_
                rintro rfl
                exact ⟨x, hx⟩
              refine (ih hmoved (fun h => hroot ((hsame root).1 h)) hnext
                (List.nodup_cons.1 hnodup).2 (Function.update_self ..)
                (Nat.le_of_succ_le_succ hbound)).conseq ?_ fun _ he => he
              rintro after ⟨hafter, hgrown⟩
              exact ⟨hafter, fun q => (hgrown q).trans (or_congr_right (hsame q))⟩

/-- The positions that have their workers. -/
def Seats.matched (seats : Seats) (n : ℕ) : Finset ℕ :=
  (Finset.range n).filter fun q => (seats.positionWorkers q).isSome

theorem Seats.Holds.mem_matched {offers : ℕ → ℕ → Prop} (h : seats.Holds offers) {n q : ℕ} :
    q ∈ seats.matched n ↔ q < n ∧ Seated seats.workerPositions q := by
  rw [Seats.matched, Finset.mem_filter, Finset.mem_range, Option.isSome_iff_exists]
  exact and_congr_right fun _ => exists_congr fun w => h.inverse q w

/-- The role of a position. -/
def Roles.role (roles : Roles) (position : ℕ) : ℕ := roles.positions.getD position 0

theorem offers_iff {position worker : ℕ} (h : position < roles.positions.length) :
    Offers roster demands roles position worker ↔
      Takes roster demands (roles.role position) worker := by
  have hget : roles.positions[position]? = some (roles.role position) := by
    rw [Roles.role, List.getD_eq_getElem?_getD, List.getElem?_eq_getElem h]
    rfl
  constructor
  · rintro ⟨role, hrole, htakes⟩
    rwa [Option.some.inj (hget.symm.trans hrole)]
  · exact fun htakes => ⟨_, hget, htakes⟩

/-- The positions before the root that have their workers, and the root. -/
structure Seats.Filled (roster : List DwarfLaborProfile) (demands : List LaborDemand)
    (roles : Roles) (first : ℕ) (seats : Seats) : Prop where
  holds : seats.Holds (Offers roster demands roles)
  before : ∀ q, Seated seats.workerPositions q → q < first
  short : ∀ q < first, ¬ Seated seats.workerPositions q →
    Short (Finset.range roster.length) (Takes roster demands) roles.role
      (seats.matched roles.positions.length) q

/-- **A position is filled, or it is short.** -/
theorem gives_augment (hlists : Lists roster demands roles)
    (hroot : root < roles.positions.length) (h : seats.Filled roster demands roles root) :
    Gives (augment roles root seats) (Seats.Filled roster demands roles (root + 1)) Refused := by
  have hopen : ¬ Seated seats.workerPositions root := fun hs => lt_irrefl _ (h.before root hs)
  refine gives_charge.bind fun _ _ => ?_
  refine (gives_search hlists h.holds hroot _ (by simp)
    (Search.Runs.start _ seats.workerPositions root)).bind fun found hfound => ?_
  obtain ⟨s, free⟩ := found
  obtain ⟨line, hreport, hempty⟩ := hfound
  cases free with
  | none =>
      have halt := hreport.alternating
      rw [hempty rfl, List.append_nil] at halt
      have hseated : ∀ q ∈ line, q ≠ root → Seated seats.workerPositions q := fun q hq hne =>
        (seated_of_alternating halt hq).resolve_left hne
      refine .pure ⟨h.holds, fun q hq => Nat.lt_succ_of_lt (h.before q hq), fun q hq hnot => ?_⟩
      rcases Nat.lt_succ_iff_lt_or_eq.1 hq with hq | rfl
      · exact h.short q hq hnot
      · refine ⟨line.toFinset, List.mem_toFinset.2 halt.root_mem, fun r hr hne => ?_,
          fun N hN hwant => ?_⟩
        · have hr := hseated r (List.mem_toFinset.1 hr) hne
          have hlt := h.before r hr
          exact ⟨h.holds.mem_matched.2 ⟨hlt.trans hroot, hr⟩, hlt.le⟩
        · refine (halt.deficient h.holds.matching hopen (fun p hp w hw => ⟨hw, hp⟩)
            fun w hw => ?_).1
          obtain ⟨r, hr, htakes⟩ := hwant w hw
          have hr := List.mem_toFinset.1 hr
          refine ⟨r, hr, (offers_iff ?_).2 htakes⟩
          by_cases hne : r = q
          · rwa [hne]
          · exact (h.before r (hseated r hr hne)).trans hroot
  | some w =>
      obtain ⟨hfree, route, hroute, hnodup, hon⟩ := hreport
      have hlength : route.length ≤ roles.positions.length := by
        have hsub := @List.subperm_of_subset _ _ (List.range roles.positions.length) hnodup
          fun q hq => List.mem_range.2 ((hon q hq).elim (fun h => h ▸ hroot)
            fun hs => (h.before q hs).trans hroot)
        simpa using hsub.length_le
      refine (gives_reseat _ h.holds hopen hroute hnodup hfree hlength).conseq ?_ fun _ he => he
      rintro after ⟨hholds, hgrown⟩
      refine ⟨hholds, fun q hq => ?_, fun q hq hnot => ?_⟩
      · rcases (hgrown q).1 hq with rfl | hq
        · exact Nat.lt_succ_self _
        · exact Nat.lt_succ_of_lt (h.before q hq)
      · have hne : q ≠ root := fun heq => hnot ((hgrown q).2 (.inl heq))
        refine (h.short q (by omega) fun hs => hnot ((hgrown q).2 (.inr hs))).mono fun r hr => ?_
        obtain ⟨hlt, hs⟩ := h.holds.mem_matched.1 hr
        exact hholds.mem_matched.2 ⟨hlt, (hgrown r).2 (.inr hs)⟩

/-- **Every position is filled, or it is short.** -/
theorem gives_fill (hlists : Lists roster demands roles) (count first : ℕ)
    (hcount : first + count = roles.positions.length)
    (h : seats.Filled roster demands roles first) :
    Gives (fill roles (List.range' first count) seats)
      (Seats.Filled roster demands roles roles.positions.length) Refused := by
  induction count generalizing first seats with
  | zero => exact .pure (hcount ▸ h)
  | succ count ih =>
      rw [List.range'_succ]
      refine (gives_augment hlists (by omega) h).bind fun after hafter => ?_
      exact ih (first + 1) (by omega) hafter

theorem Seats.Filled.start : Seats.Filled roster demands roles 0 ⟨fun _ => none, fun _ => none⟩ where
  holds := ⟨matches_empty, fun _ _ => by simp⟩
  before := fun _ ⟨_, h⟩ => nomatch h
  short := fun _ h => absurd h (Nat.not_lt_zero _)

end Augment

end Dfmcp.Labor
