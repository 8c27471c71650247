import Dfmcp.Intent.Service
import Dfmcp.Library.Staffing

/-!
# Candidates are admitted, or refused for a reason

A search from a candidate keeps the invariant of an alternating search. Where it meets a free worker
the route back is reseated move by move, and the candidate is admitted without dropping another.
Where it is exhausted, the candidate is stuck. A candidate whose family is at its limit is full.

* `gives_scan`, `gives_search`, `gives_reseat` — the loops of a search;
* `gives_augment` — a candidate is seated, or stuck;
* `gives_admitAll` — the admitted candidates are the greedy basis of the ranked ones.
-/

namespace Dfmcp.Service

open Machine Method Matching

/-- The budget ran out. -/
def Unpaid (e : DfmcpError) : Prop := e.code = .budgetExceeded

theorem gives_charge (amount : ℕ) : Gives (charge amount) (fun _ => True) Unpaid := by
  intro w _
  unfold charge exec
  simp only [ExceptT.run, StateT.run]
  split
  · next h => split at h <;> trivial
  · next h =>
      split at h
      · obtain rfl := Except.error.inj (Prod.mk.inj h).1
        rfl
      · split at h
        · obtain rfl := Except.error.inj (Prod.mk.inj h).1
          rfl
        · cases (Prod.mk.inj h).1

section Searching

variable {offers : ℕ → ℕ → Prop} {bench : Bench} {seats : Seats} {post : ℕ → Option ℕ} {root : ℕ}

/-- The candidates a search finds are the root and candidates that have workers. -/
theorem seated_of_line {parent : ℕ → Option ℕ} {line : List ℕ} {looked : ℕ → ℕ → Prop}
    (h : Alternating offers post root parent line looked) {q : ℕ} (hq : q ∈ line) :
    q = root ∨ Seated post q := by
  by_cases hroot : q = root
  · exact .inl hroot
  · obtain ⟨w, _, hpost, _⟩ := h.origin q hq hroot
    exact .inr ⟨w, hpost⟩

/-- A search in progress: `done` are the candidates visited, and the queue those found since. -/
structure Search.Runs (offers : ℕ → ℕ → Prop) (post : ℕ → Option ℕ) (root : ℕ) (s : Search)
    (done : List ℕ) (looked : ℕ → ℕ → Prop) : Prop where
  alternating : Alternating offers post root s.parent (done ++ s.queue) looked
  seen : ∀ w, s.seen w = true ↔ s.parent w ≠ none

theorem Search.Runs.start (offers : ℕ → ℕ → Prop) (post : ℕ → Option ℕ) (root : ℕ) :
    (Search.start root).Runs offers post root [] fun r x => offers r x ∧ r ∈ ([] : List ℕ) where
  alternating := (Alternating.start root).skip fun _ _ h => absurd h.2 List.not_mem_nil
  seen := fun w => by simp [Search.start]

/-- Between two workers of a candidate: the workers of the candidates visited were looked at, apart
from those of the last that are still to come. -/
def Owed (offers : ℕ → ℕ → Prop) (done : List ℕ) (candidate : ℕ) (pending : List ℕ) :
    ℕ → ℕ → Prop :=
  fun r x => offers r x ∧ r ∈ done ∧ (r = candidate → x ∉ pending)

/-- What a search reports: it is exhausted, or an available worker has a way back to the root. -/
def Found (offers : ℕ → ℕ → Prop) (post : ℕ → Option ℕ) (root : ℕ) (done : List ℕ)
    (looked : ℕ → ℕ → Prop) : Search × Option ℕ → Prop
  | (s, none) => s.Runs offers post root done looked
  | (s, some w) => post w = none ∧ ∃ route, Route offers post s.parent root w route ∧
      route.Nodup ∧ ∀ q ∈ route, q = root ∨ Seated post q

/-- A worker who serves something leads the search on to it, and nobody else does. -/
theorem Search.Runs.enqueue {s : Search} {done : List ℕ} {looked looked' : ℕ → ℕ → Prop}
    {p q w : ℕ} (h : s.Runs offers post root done looked) (hmatch : Matches offers post)
    (hopen : ¬ Seated post root) (hp : p ∈ done) (hoffer : offers p w) (hnew : s.parent w = none)
    (hpost : post w = some q) (hlooked : ∀ r x, looked' r x → looked r x ∨ x = w) :
    ({ s.see w p with queue := s.queue ++ [q] } : Search).Runs offers post root done looked' := by
  have hfresh : q ∉ done ++ s.queue := by
    intro hmem
    by_cases hroot : q = root
    · exact hopen ⟨w, hroot ▸ hpost⟩
    · obtain ⟨x, r, hx, hparent, _⟩ := h.alternating.origin q hmem hroot
      rw [hmatch.alone x w q hx hpost, hnew] at hparent
      cases hparent
  have hmark := h.alternating.mark (List.mem_append_left _ hp) hoffer hnew hpost hlooked
  rw [if_neg hfresh, List.append_assoc] at hmark
  refine ⟨hmark, fun x => ?_⟩
  show Function.update s.seen w true x = true ↔ Function.update s.parent w (some p) x ≠ none
  by_cases hx : x = w
  · rw [hx, Function.update_self, Function.update_self]
    exact iff_of_true rfl (Option.some_ne_none p)
  · rw [Function.update_of_ne hx, Function.update_of_ne hx]
    exact h.seen x

theorem gives_scan {candidate : ℕ} {done : List ℕ} (hmatch : Matches offers seats.owner)
    (hopen : ¬ Seated seats.owner root) (hcandidate : candidate ∈ done) (pending : List ℕ)
    (hpending : ∀ w ∈ pending, offers candidate w) {s : Search}
    (h : s.Runs offers seats.owner root done (Owed offers done candidate pending)) :
    Gives (scan seats candidate pending s)
      (Found offers seats.owner root done fun r x => offers r x ∧ r ∈ done) Unpaid := by
  induction pending generalizing s with
  | nil =>
      refine .pure (⟨h.alternating.skip fun r x hx => .inl ?_, h.seen⟩ : Search.Runs ..)
      exact ⟨hx.1, hx.2, fun _ => List.not_mem_nil⟩
  | cons worker rest ih =>
      refine (gives_charge 1).bind fun _ _ => ?_
      have hoffer := hpending worker List.mem_cons_self
      have hrest : ∀ w ∈ rest, offers candidate w := fun w hw =>
        hpending w (List.mem_cons_of_mem _ hw)
      have hless : ∀ r x, Owed offers done candidate rest r x →
          Owed offers done candidate (worker :: rest) r x ∨ x = worker := by
        intro r x hx
        by_cases hworker : x = worker
        · exact .inr hworker
        · refine .inl ⟨hx.1, hx.2.1, fun hr hmem => ?_⟩
          exact (List.mem_cons.1 hmem).elim hworker (hx.2.2 hr)
      refine .ite (fun hseen => ih hrest ?_) fun hnew => ?_
      · refine ⟨h.alternating.skip fun r x hx => ?_, h.seen⟩
        refine (hless r x hx).imp id fun heq => ?_
        rw [heq]
        exact (h.seen worker).1 hseen
      · have hnew : s.parent worker = none := by
          by_contra hparent
          exact hnew ((h.seen worker).2 hparent)
        cases hpost : seats.owner worker with
        | some previous =>
            exact ih hrest (h.enqueue hmatch hopen hcandidate hoffer hnew hpost hless)
        | none =>
            obtain ⟨route, hroute, hnodup, hline⟩ :=
              h.alternating.route (List.mem_append_left _ hcandidate) hoffer hpost
            refine .pure ⟨hpost, route, hroute, hnodup, fun q hq => ?_⟩
            exact seated_of_line h.alternating (hline q hq)

/-- Distinct candidates are no more than there are. -/
theorem length_le_of_nodup {line : List ℕ} {n : ℕ} (hnodup : line.Nodup)
    (hline : ∀ q ∈ line, q < n) : line.length ≤ n := by
  have hcard : line.toFinset.card ≤ (Finset.range n).card :=
    Finset.card_le_card fun q hq => Finset.mem_range.2 (hline q (List.mem_toFinset.1 hq))
  rwa [List.toFinset_card_of_nodup hnodup, Finset.card_range] at hcard

theorem gives_search (hoffered : ∀ p w, w ∈ bench.offered p ↔ offers p w)
    (hmatch : Matches offers seats.owner) (hopen : ¬ Seated seats.owner root)
    (hroot : root < bench.candidates)
    (hrange : ∀ q, Seated seats.owner q → q < bench.candidates) (bound : ℕ) {s : Search}
    {done : List ℕ} (hbound : bench.candidates < bound + done.length)
    (h : s.Runs offers seats.owner root done fun r x => offers r x ∧ r ∈ done) :
    Gives (search bench seats bound s) (fun found => ∃ line,
      Found offers seats.owner root line (fun r x => offers r x ∧ r ∈ line) found ∧
      (found.2 = none → found.1.queue = [])) Unpaid := by
  have hline : ∀ {line looked parent}, Alternating offers seats.owner root parent line looked →
      line.length ≤ bench.candidates := fun halt =>
    length_le_of_nodup halt.nodup fun q hq =>
      (seated_of_line halt hq).elim (fun heq => heq ▸ hroot) (hrange q)
  induction bound generalizing s done with
  | zero =>
      have hle := hline h.alternating
      rw [List.length_append] at hle
      omega
  | succ bound ih =>
      unfold search
      cases hqueue : s.queue with
      | nil => exact .pure ⟨done, h, fun _ => hqueue⟩
      | cons candidate rest =>
          have hsame : done ++ s.queue = done ++ [candidate] ++ rest := by simp [hqueue]
          have hruns : ({ s with queue := rest } : Search).Runs offers seats.owner root
              (done ++ [candidate])
              (Owed offers (done ++ [candidate]) candidate (bench.offered candidate)) := by
            refine ⟨?_, h.seen⟩
            rw [← hsame]
            refine h.alternating.skip fun r x hx => .inl ⟨hx.1, ?_⟩
            rcases List.mem_append.1 hx.2.1 with hr | hr
            · exact hr
            · have hr := List.mem_singleton.1 hr
              subst hr
              exact absurd ((hoffered r x).2 hx.1) (hx.2.2 rfl)
          refine (gives_charge 1).bind fun _ _ => ?_
          refine (gives_scan hmatch hopen
            (List.mem_append_right _ (List.mem_singleton_self candidate)) _
            (fun w hw => (hoffered candidate w).1 hw) hruns).bind fun found hfound => ?_
          obtain ⟨s', free⟩ := found
          refine .ite (fun hnone => ?_) fun hsome => .pure ⟨_, hfound, fun h => absurd h hsome⟩
          dsimp only at hnone
          subst hnone
          exact ih (by rw [List.length_append, List.length_singleton]; omega) hfound

/-- Both arrays say the same. -/
structure Seats.Holds (offers : ℕ → ℕ → Prop) (seats : Seats) : Prop where
  matching : Matches offers seats.owner
  inverse : ∀ p w, seats.assigned p = some w ↔ seats.owner w = some p

/-- On the way back the worker who is being moved still has his former candidate in one array. -/
structure Seats.Moving (seats : Seats) (post : ℕ → Option ℕ) (available : ℕ) : Prop where
  owner : ∀ x, x ≠ available → seats.owner x = post x
  inverse : ∀ p w, seats.assigned p = some w ↔ post w = some p

/-- Giving an available worker to a candidate is a move, and leaves whoever served it to be moved
next. -/
theorem Seats.Moving.step {available p : ℕ} (h : seats.Moving post available)
    (hfree : post available = none) :
    let moved : Seats := ⟨Function.update seats.owner available (some p),
      Function.update seats.assigned p (some available)⟩
    (∀ q w, moved.assigned q = some w ↔
        Matching.move post p available (seats.assigned p) w = some q) ∧
      ∀ x, seats.assigned p ≠ some x →
        moved.owner x = Matching.move post p available (seats.assigned p) x := by
  have hprev : ∀ x, seats.assigned p = some x ↔ post x = some p := fun x => h.inverse p x
  constructor
  · intro q w
    rw [move_eq_some hprev hfree]
    dsimp only
    by_cases hq : q = p
    · subst hq
      rw [Function.update_self, Option.some_inj]
      constructor
      · exact fun heq => .inl ⟨heq.symm, rfl⟩
      · exact fun hw => hw.elim (fun hw => hw.1.symm) fun hw => absurd rfl hw.2
    · rw [Function.update_of_ne hq, h.inverse]
      constructor
      · exact fun hw => .inr ⟨hw, hq⟩
      · exact fun hw => hw.elim (fun hw => absurd hw.2 hq) And.left
  · intro x hx
    have hmoved : Function.update seats.owner available (some p) x =
        Function.update post available (some p) x := by
      by_cases hxa : x = available
      · rw [hxa, Function.update_self, Function.update_self]
      · rw [Function.update_of_ne hxa, Function.update_of_ne hxa]
        exact h.owner x hxa
    cases hsits : seats.assigned p with
    | none => exact hmoved
    | some y =>
        have hxy : x ≠ y := fun heq => hx (heq ▸ hsits)
        rw [Matching.move, Function.update_of_ne hxy]
        exact hmoved

/-- **A route is reseated move by move**, and seats its root. -/
theorem gives_reseat {parent : ℕ → Option ℕ} (bound : ℕ) {route : List ℕ} {w : ℕ}
    (hmatch : Matches offers post) (hmoving : seats.Moving post w) (hroot : ¬ Seated post root)
    (hroute : Route offers post parent root w route) (hnodup : route.Nodup)
    (hfree : post w = none) (hbound : route.length ≤ bound) :
    Gives (reseat bench parent bound w seats) (fun after => after.Holds offers ∧
      ∀ q, Seated after.owner q ↔ q = root ∨ Seated post q) Unpaid := by
  induction bound generalizing route w seats post with
  | zero =>
      rw [List.length_eq_zero_iff.1 (Nat.le_zero.1 hbound)] at hroute
      exact hroute.elim
  | succ bound ih =>
      cases route with
      | nil => exact hroute.elim
      | cons p rest =>
          obtain ⟨hparent, hoffer⟩ := hroute.parent
          have hprev : ∀ x, seats.assigned p = some x ↔ post x = some p :=
            fun x => hmoving.inverse p x
          have hmoved := hmatch.move hprev hfree hoffer
          have hstep := hmoving.step (p := p) hfree
          refine (gives_charge 1).bind fun _ _ => ?_
          rw [hparent]
          dsimp only at hstep ⊢
          cases rest with
          | nil =>
              have hpr : p = root := hroute.2.2
              cases hsits : seats.assigned p with
              | some x => exact absurd ⟨x, hpr ▸ (hprev x).1 hsits⟩ hroot
              | none =>
                  rw [hsits] at hmoved hstep
                  have howner : Function.update seats.owner w (some p) =
                      Matching.move post p w none :=
                    funext fun x => hstep.2 x (Option.some_ne_none x).symm
                  refine .pure ⟨⟨howner ▸ hmoved.1, fun q x => ?_⟩, fun q => ?_⟩
                  · show Function.update seats.assigned p (some w) q = some x ↔
                      Function.update seats.owner w (some p) x = some q
                    rw [howner]
                    exact hstep.1 q x
                  · show Seated (Function.update seats.owner w (some p)) q ↔ _
                    rw [howner]
                    exact hpr ▸ hmoved.2 q
          | cons next rest =>
              obtain ⟨x, hx, hnext⟩ := hroute.step hmatch hnodup hfree
              have hsits := (hprev x).2 hx
              rw [hsits] at hmoved hstep ⊢
              dsimp only
              have hsame : ∀ q, Seated (Matching.move post p w (some x)) q ↔ Seated post q := by
                intro q
                rw [hmoved.2 q]
                refine or_iff_right_of_imp fun heq => ?_
                exact ⟨x, heq ▸ hx⟩
              refine (ih hmoved.1 ⟨fun y hy => hstep.2 y fun heq => hy (Option.some.inj heq).symm,
                hstep.1⟩ (fun h => hroot ((hsame root).1 h)) hnext
                (List.nodup_cons.1 hnodup).2 (Function.update_self ..)
                (Nat.le_of_succ_le_succ hbound)).conseq (fun after hafter => ?_) fun _ he => he
              exact ⟨hafter.1, fun q => (hafter.2 q).trans (or_congr_right (hsame q))⟩

/-- **One candidate.** It is seated beside all that were, or it is stuck. -/
theorem gives_augment (hoffered : ∀ p w, w ∈ bench.offered p ↔ offers p w)
    (hholds : seats.Holds offers) (hopen : ¬ Seated seats.owner root)
    (hroot : root < bench.candidates)
    (hrange : ∀ q, Seated seats.owner q → q < bench.candidates) :
    Gives (augment bench root seats) (fun result => result.1.Holds offers ∧
      (∀ q, Seated result.1.owner q ↔ (result.2 = true ∧ q = root) ∨ Seated seats.owner q) ∧
      (result.2 = false → Stuck offers result.1.owner root)) Unpaid := by
  refine (gives_charge _).bind fun _ _ => ?_
  refine (gives_search hoffered hholds.matching hopen hroot hrange _ (by simp)
    (Search.Runs.start offers seats.owner root)).bind fun found hfound => ?_
  obtain ⟨s, free⟩ := found
  obtain ⟨line, hreport, hempty⟩ := hfound
  cases free with
  | none =>
      have halt := hreport.alternating
      rw [hempty rfl, List.append_nil] at halt
      refine .pure ⟨hholds, fun q => by simp, fun _ => ?_⟩
      exact halt.stuck hholds.matching hopen fun p hp w hw => ⟨hw, hp⟩
  | some w =>
      obtain ⟨hfree, route, hroute, hnodup, hon⟩ := hreport
      have hlength : route.length ≤ bench.candidates :=
        length_le_of_nodup hnodup fun q hq => (hon q hq).elim (fun heq => heq ▸ hroot) (hrange q)
      refine (gives_reseat _ hholds.matching ⟨fun _ _ => rfl, hholds.inverse⟩ hopen hroute hnodup
        hfree hlength).bind fun after hafter => .pure ⟨hafter.1, fun q => ?_, fun h => nomatch h⟩
      rw [hafter.2 q]
      simp

end Searching

/-! ## Admission -/

section Admission

variable {I : Staffing ℕ ℕ ℕ} {bench : Bench} {admitted : Admitted} {S : Finset ℕ} {k : ℕ}

/-- The first `k` candidates are settled, with `S` admitted. -/
structure Admitted.Filled (I : Staffing ℕ ℕ ℕ) (k : ℕ) (S : Finset ℕ) (admitted : Admitted) :
    Prop where
  holds : admitted.seats.Holds I.offers
  settled : I.Settled admitted.seats.owner (· < k) S
  best : I.Best k S
  used : ∀ family, admitted.used family = ({p ∈ S | I.family p = family}).card

theorem Admitted.Filled.empty : Admitted.Filled I 0 ∅ ⟨.empty, fun _ => 0⟩ where
  holds := ⟨matches_empty, fun _ _ => by simp [Seats.empty]⟩
  settled :=
    { matching := matches_empty
      seated := fun q => by simp [Seated, Seats.empty]
      within := fun f n _ => by simp
      refused := fun p hp => absurd hp (Nat.not_lt_zero p) }
  best := .empty
  used := fun _ => by simp

theorem Admitted.Filled.fresh (h : admitted.Filled I k S) : k ∉ S :=
  fun hmem => lt_irrefl k (Finset.mem_range.1 (h.best.subset hmem))

/-- The next candidate is refused: it is full or stuck, beside the same admitted ones. -/
theorem Admitted.Filled.refuse (h : admitted.Filled I k S) {seats : Seats}
    (hholds : seats.Holds I.offers)
    (hseated : ∀ q, Seated seats.owner q ↔ Seated admitted.seats.owner q)
    (hrefused : Stuck I.offers seats.owner k ∨ I.Full S k) :
    Admitted.Filled I (k + 1) S ⟨seats, admitted.used⟩ := by
  have hsettled : I.Settled seats.owner (· < k + 1) S := by
    refine ⟨hholds.matching, fun q => (h.settled.seated q).trans (hseated q).symm,
      h.settled.within, fun p hp hout => ?_⟩
    rcases Nat.lt_succ_iff_lt_or_eq.1 hp with hp | rfl
    · exact (h.settled.refused p hp hout).imp
        (fun hstuck => hstuck.mono fun q hq => (hseated q).2 hq) id
    · exact hrefused
  exact ⟨hholds, hsettled, h.best.next (.inl rfl) hsettled, h.used⟩

theorem card_family_insert {S : Finset ℕ} {k : ℕ} (hfresh : k ∉ S) (family : ℕ → ℕ) (f : ℕ) :
    ({p ∈ insert k S | family p = f}).card =
      ({p ∈ S | family p = f}).card + if family k = f then 1 else 0 := by
  rw [Finset.filter_insert]
  by_cases hf : family k = f
  · rw [if_pos hf, if_pos hf,
      Finset.card_insert_of_notMem fun hmem => hfresh (Finset.mem_filter.1 hmem).1]
  · rw [if_neg hf, if_neg hf, add_zero]

/-- The next candidate is seated, beside all that were. -/
theorem Admitted.Filled.seat (h : admitted.Filled I k S) {seats : Seats}
    (hholds : seats.Holds I.offers)
    (hseated : ∀ q, Seated seats.owner q ↔ q = k ∨ Seated admitted.seats.owner q)
    (hroom : ∀ n, I.slots (I.family k) = some n → admitted.used (I.family k) < n) :
    Admitted.Filled I (k + 1) (insert k S) ⟨seats,
      Function.update admitted.used (I.family k) (admitted.used (I.family k) + 1)⟩ := by
  have hcount := card_family_insert h.fresh I.family
  have hsettled : I.Settled seats.owner (· < k + 1) (insert k S) := by
    refine ⟨hholds.matching, fun q => ?_, fun f n hslots => ?_, fun p hp hout => ?_⟩
    · rw [Finset.mem_insert, hseated, h.settled.seated]
    · have hle := h.settled.within f n hslots
      rw [hcount]
      by_cases hf : I.family k = f
      · have hlt := hroom n (hf ▸ hslots)
        rw [h.used, hf] at hlt
        rw [if_pos hf]
        omega
      · rw [if_neg hf]
        omega
    · rw [Finset.mem_insert, not_or] at hout
      rcases h.settled.refused p (by omega) hout.2 with hstuck | ⟨n, hslots, hfull⟩
      · exact .inl (hstuck.mono fun q hq => (hseated q).2 (.inr hq))
      · exact .inr ⟨n, hslots, hfull.trans
          (Finset.card_le_card (Finset.filter_subset_filter _ (Finset.subset_insert k S)))⟩
  refine ⟨hholds, hsettled, h.best.next (.inr rfl) hsettled, fun f => ?_⟩
  show Function.update admitted.used (I.family k) _ f = _
  rw [hcount]
  by_cases hf : I.family k = f
  · rw [if_pos hf, ← hf, Function.update_self, h.used]
  · rw [if_neg hf, Function.update_of_ne (Ne.symm hf), h.used, add_zero]

/-- **Every candidate is settled in its turn.** -/
theorem gives_admit (hoffered : ∀ p w, w ∈ bench.offered p ↔ I.offers p w) (count first : ℕ)
    (hcount : first + count = bench.candidates) (h : admitted.Filled I first S) :
    Gives (admitFrom bench I.family I.slots (List.range' first count) admitted)
      (fun after => ∃ S, after.Filled I bench.candidates S) Unpaid := by
  induction count generalizing first admitted S with
  | zero => exact .pure ⟨S, hcount ▸ h⟩
  | succ count ih =>
      rw [List.range'_succ]
      have hopen : ¬ Seated admitted.seats.owner first :=
        fun hs => h.fresh ((h.settled.seated first).2 hs)
      have hrange : ∀ q, Seated admitted.seats.owner q → q < bench.candidates := fun q hq => by
        have := Finset.mem_range.1 (h.best.subset ((h.settled.seated q).2 hq))
        omega
      refine (gives_charge 1).bind fun _ _ => .ite (fun hroom => ?_) fun hfull => ?_
      · refine (gives_augment hoffered h.holds hopen (by omega) hrange).bind fun result hresult => ?_
        obtain ⟨seats, seated⟩ := result
        obtain ⟨hholds, hseated, hstuck⟩ := hresult
        cases seated with
        | false =>
            exact ih (first + 1) (by omega) (h.refuse hholds
              (fun q => (hseated q).trans (by simp)) (.inl (hstuck rfl)))
        | true =>
            refine ih (first + 1) (by omega) (h.seat hholds
              (fun q => (hseated q).trans (by simp)) fun n hslots => ?_)
            rw [hslots] at hroom
            simpa using hroom
      · refine ih (first + 1) (by omega) (h.refuse h.holds (fun _ => Iff.rfl) (.inr ?_))
        cases hslots : I.slots (I.family first) with
        | none =>
            rw [hslots] at hfull
            exact absurd rfl hfull
        | some n =>
            rw [hslots] at hfull
            refine ⟨n, hslots, ?_⟩
            rw [← h.used]
            simpa using hfull

end Admission

/-- The families, workers and workshops of a capture. -/
def staffing {ω : Type} (families : List Family) (capacity : Capacity)
    (candidates : List (Candidate ω)) : Staffing ℕ ℕ ℕ :=
  ⟨familyAt candidates, fun family worker => worker ∈ capacity.eligible family,
    limit families capacity⟩

/-- **The admitted candidates are the greedy basis.** -/
theorem gives_admitAll {ω : Type} (families : List Family) (capacity : Capacity)
    (candidates : List (Candidate ω)) (lost : DfmcpError) :
    Gives (admitAll families capacity candidates lost) (fun admitted => ∃ S,
      admitted.Filled (staffing families capacity candidates) candidates.length S) Unpaid := by
  have h : Gives (admitFrom (benchOf capacity candidates lost)
      (staffing families capacity candidates).family (staffing families capacity candidates).slots
      (List.range' 0 candidates.length) ⟨.empty, fun _ => 0⟩)
      (fun admitted => ∃ S,
        admitted.Filled (staffing families capacity candidates) candidates.length S) Unpaid :=
    gives_admit (fun _ _ => Iff.rfl) candidates.length 0 (Nat.zero_add _) .empty
  rw [← List.range_eq_range'] at h
  exact h

end Dfmcp.Service
