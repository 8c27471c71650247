import Dfmcp.World.MapRegionProof

/-!
# One flood and many routes

Both searches of a region are the flood of the library over `nextTiles`: `route` follows it until
the goal is at the head of the queue, `compute` until the queue is empty. A parent is never
replaced, so the path that `route` reads back is the one that `compute` still has at the end.

* `meets_search`, `Reachability.meets_search` — each search follows the flood;
* `Finished.agrees` — what the flood has at the end is what a route found;
* `reachability_agrees` — the two searches agree, and their paths are shortest.
-/

namespace Dfmcp

open Machine Method Layers

namespace MapRegion

/-! ## Paying -/

/-- The budget was too small for so much work. -/
def Short (maximum limit : Nat) (e : MapError) : Prop := e = .budgetExceeded ∧ maximum < limit

section Search

variable {map : MapRegion} {maximum limit n w k source target current : Nat}
  {neighbors : List Neighbor} {f : Flood ℕ}

theorem meets_charge {amount : Nat} (hmax : maximum ≤ maxRouteWork) (hlimit : w + amount ≤ limit) :
    Meets (fun t : Tally => t.workUnits = w) (charge amount maximum)
      (fun _ t => t.workUnits = w + amount) fun e _ => Short maximum limit e := by
  have hshort : ∀ {bad : Prop} [Decidable bad] {P : Tally → Prop}, (bad → maximum < limit) →
      Meets P (rejectIf bad .budgetExceeded) (fun _ t => P t ∧ ¬ bad)
        fun e _ => Short maximum limit e := by
    intro bad _ P hbad
    unfold rejectIf
    exact .ite (fun h => .fails fun _ _ => ⟨rfl, hbad h⟩) fun h => .pure fun t ht => ⟨ht, h⟩
  refine Meets.bind (Q := fun (t s : Tally) => t = s ∧ t.workUnits = w)
    (Meets.get fun t ht => ⟨rfl, ht⟩) fun t => ?_
  rintro _ ⟨rfl, ht⟩
  have hmaxWork : maxRouteWork < 2 ^ 64 := by decide
  refine ((hshort (P := fun _ => True) fun h => by omega).bind fun _ => ?_) t trivial
  refine (Meets.set (Q := fun _ (s : Tally) => s.workUnits = w + amount) fun _ _ => ?_).bind
    fun _ => ?_
  · show t.workUnits + amount = w + amount
    rw [ht]
  · exact (hshort fun h => by omega).conseq (fun _ h => h) (fun _ _ h => h.1) fun _ _ h => h

theorem meets_visit (p : Position) {Q : MapError → Tally → Prop} :
    Meets (fun t : Tally => t.workUnits = w) (visit map.region p) (fun _ t => t.workUnits = w) Q :=
  fun _ ht => ht

/-! ## One search -/

/-- The frontier of a search is that of a flood. -/
def Frontier.Follows (s : Frontier) (f : Flood ℕ) : Prop := s.parents = f.parent ∧ s.queue = f.queue

theorem foldl_passes_cons (neighbor : Neighbor) :
    (((neighbor :: neighbors).filter (map.passes current)).map Neighbor.index).foldl
        (Flood.offer current) f =
      ((neighbors.filter (map.passes current)).map Neighbor.index).foldl (Flood.offer current)
        (if map.passes current neighbor then f.offer current neighbor.index else f) := by
  rw [List.filter_cons]
  split_ifs
  · rfl
  · rfl

theorem meets_offer {s : Frontier} (hmax : maximum ≤ maxRouteWork) (hs : s.Follows f)
    (hlimit : w + neighbors.length ≤ limit) :
    Meets (fun t : Tally => t.workUnits = w) (offer map maximum current neighbors s)
      (fun out t => out.Follows (((neighbors.filter (map.passes current)).map
          Neighbor.index).foldl (Flood.offer current) f) ∧
        t.workUnits = w + neighbors.length) fun e _ => Short maximum limit e := by
  induction neighbors generalizing s f w with
  | nil => exact .pure fun t ht => ⟨hs, ht⟩
  | cons neighbor rest ih =>
      rw [List.length_cons] at hlimit ⊢
      rw [← Nat.add_assoc, Nat.add_right_comm] at hlimit ⊢
      rw [foldl_passes_cons]
      refine (meets_charge hmax (by omega)).bind fun _ => ?_
      refine .ite (fun hskip => ?_) fun hgo => .ite (fun hwall => ?_) fun hfree => ?_
      · refine ih ?_ hlimit
        split_ifs with hpass
        · rcases hskip with hseen | hclosed
          · rw [Flood.offer, ← hs.1, if_neg hseen]
            exact hs
          · rw [passes, hclosed, Bool.false_and] at hpass
            cases hpass
        · exact hs
      · refine ih ?_ hlimit
        have hpass : map.passes current neighbor = false := by
          rw [passes, hwall.1, hwall.2]
          simp
        rw [if_neg (by simp [hpass])]
        exact hs
      · refine ih ?_ hlimit
        rw [not_or, not_not, Bool.not_eq_false] at hgo
        have hpass : map.passes current neighbor = true := by
          rw [passes, hgo.2, Bool.true_and, Bool.or_eq_true_iff]
          by_cases haxis : neighbor.axis = 2
          · exact Or.inr (by simpa using not_and.1 hfree haxis)
          · exact Or.inl (by simpa using haxis)
        rw [if_pos hpass, Flood.offer, ← hs.1, if_pos hgo.1]
        exact ⟨by rw [hs.1], by rw [hs.2]⟩

/-- The flood of a region from some tiles. -/
def flood (map : MapRegion) (roots : List Nat) (k : Nat) : Flood ℕ :=
  (Flood.turn map.nextTiles)^[k] (Flood.start roots)

/-- The flood stays inside the region. -/
theorem flood_sound (h : map.region.volume = .ok n) {roots : List Nat} (hnodup : roots.Nodup)
    (hroots : ∀ v ∈ roots, v < n) (k : Nat) :
    (map.flood roots k).Sound roots (List.range n) map.nextTiles (map.flood roots k).queue
      (waiting (map.flood roots k).queue) :=
  Flood.Sound.run
    (fun u hu v hv => List.mem_range.2 (nextTiles_lt h (List.mem_range.1 hu) hv))
    (.start hnodup fun v hv => List.mem_range.2 (hroots v hv)) k

theorem flood_succ {roots : List Nat} {u : Nat} {queue : List Nat} {p : Position}
    (hqueue : (map.flood roots k).queue = u :: queue) (hp : map.region.position u = some p) :
    map.flood roots (k + 1) =
      (((MapRegion.neighbors map.region p).filter (map.passes u)).map Neighbor.index).foldl
        (Flood.offer u) { map.flood roots k with
          queue := queue, visited := (map.flood roots k).visited ++ [u] } := by
  rw [flood, Function.iterate_succ_apply', ← flood, Flood.turn, hqueue]
  dsimp only
  rw [nextTiles, hp]

/-- While a flood goes on, its turns are fewer than the tiles. -/
theorem flood_turns (h : map.region.volume = .ok n) {roots : List Nat} (hnodup : roots.Nodup)
    (hroots : ∀ v ∈ roots, v < n) (hk : ∀ j ≤ k, (map.flood roots j).queue ≠ []) : k + 1 ≤ n := by
  have hsound := flood_sound h hnodup hroots k
  have hlength : (map.flood roots k).visited.length = k :=
    Flood.length_visited rfl fun j hj => hk j (Nat.le_of_lt hj)
  have hpos := List.length_pos_of_ne_nil (hk k (Nat.le_refl k))
  have hsub : (map.flood roots k).visited ++ (map.flood roots k).queue ⊆ List.range n :=
    fun v hv => hsound.known v ((hsound.found v).2 hv)
  have hle := (hsound.nodup.subperm hsub).length_le
  rw [List.length_append, List.length_range, hlength] at hle
  omega

/-- The trail of the target, read back tile by tile. -/
theorem backtrack_eq {parents : Nat → Option Nat} {nodes : List Nat} {v bound : Nat}
    (h : map.region.volume = .ok n) (hroot : ∀ v, parents v = some v ↔ v = source)
    (hlt : ∀ v, parents v ≠ none → v < n) (htrail : Flood.Trail parents v nodes)
    (hbound : nodes.length ≤ bound) (path : List Position) :
    backtrack map parents source bound v path = .ok (nodes.map map.place ++ path) := by
  induction htrail generalizing bound path with
  | @root v hv =>
      obtain ⟨bound, rfl⟩ := Nat.exists_eq_add_of_le' hbound
      obtain ⟨p, hp, -⟩ := Region.position_index h (hlt v (by simp [hv]))
      rw [List.length_singleton, backtrack, hp]
      dsimp only
      rw [if_pos ((hroot v).1 hv), List.map_singleton, place, hp]
      rfl
  | @step u v nodes hparent hne htrail ih =>
      rw [List.length_append, List.length_singleton] at hbound
      obtain ⟨bound, rfl⟩ := Nat.exists_eq_add_of_le' (Nat.le_of_add_left_le hbound)
      obtain ⟨p, hp, -⟩ := Region.position_index h (hlt v (by simp [hparent]))
      have hother : v ≠ source := by
        intro heq
        rw [(hroot v).2 heq] at hparent
        exact hne (Option.some.inj hparent).symm
      rw [backtrack, hp]
      dsimp only
      rw [if_neg hother, hparent]
      dsimp only
      rw [ih (by omega), List.map_append, List.map_singleton, List.append_assoc, place, hp]
      rfl

/-- What a route search has found: nothing when the flood ended without the target at its head, and
otherwise the trail of the target at that moment. -/
def Found (map : MapRegion) (source target : Nat) (path : List Position) : Prop :=
  (path = [] ∧ ∃ m, (map.flood [source] m).queue = [] ∧
    ∀ j < m, (map.flood [source] j).queue.head? ≠ some target) ∨
  ∃ m nodes, (map.flood [source] m).queue.head? = some target ∧
    Flood.Trail (map.flood [source] m).parent target nodes ∧ path = nodes.map map.place

theorem trail_of_head (h : map.region.volume = .ok n) {roots : List Nat} (hnodup : roots.Nodup)
    (hroots : ∀ v ∈ roots, v < n) {v : Nat} {queue : List Nat}
    (hqueue : (map.flood roots k).queue = v :: queue) :
    ∃ nodes, Flood.Trail (map.flood roots k).parent v nodes ∧ nodes.length ≤ n := by
  have hsound := flood_sound h hnodup hroots k
  have hfound : (map.flood roots k).depth v ≠ none :=
    hsound.explored.found v (by rw [hqueue]; exact List.mem_cons_self ..)
  obtain ⟨d, hd⟩ := Option.ne_none_iff_exists'.1 hfound
  obtain ⟨nodes, htrail, hlength, -, -⟩ := hsound.trail hd
  have hlt := hsound.depth_lt hd
  rw [List.length_range] at hlt
  exact ⟨nodes, htrail, by omega⟩

theorem parent_lt (h : map.region.volume = .ok n) {roots : List Nat} (hnodup : roots.Nodup)
    (hroots : ∀ v ∈ roots, v < n) (k v : Nat) (hv : (map.flood roots k).parent v ≠ none) :
    v < n := by
  have hsound := flood_sound h hnodup hroots k
  exact List.mem_range.1 (hsound.known v (mt (hsound.parents v).2 hv))

/-- A route search follows the flood until the target is at its head. -/
theorem meets_search (h : map.region.volume = .ok n) (hn : map.cells.length = n)
    (hmax : maximum ≤ maxRouteWork) (hsource : source < n) {bound : Nat} {s : Frontier}
    (hs : s.Follows (map.flood [source] k)) (hw : w ≤ 7 * k) (hbound : bound + k = maximum + 1)
    (hgo : ∀ j < k, (map.flood [source] j).queue ≠ [] ∧
      (map.flood [source] j).queue.head? ≠ some target) :
    Meets (fun t : Tally => t.workUnits = w) (search map maximum source target bound s)
      (fun path _ => map.Found source target path) fun e _ => Short maximum (8 * n) e := by
  have hnodup : [source].Nodup := List.nodup_singleton source
  have hroots : ∀ v ∈ [source], v < n := fun v hv => List.mem_singleton.1 hv ▸ hsource
  induction bound generalizing s k w with
  | zero =>
      rw [search]
      cases hqueue : s.queue with
      | nil =>
          rw [hs.2] at hqueue
          exact .pure fun _ _ => Or.inl ⟨rfl, k, hqueue, fun j hj => (hgo j hj).2⟩
      | cons current queue =>
          rw [hs.2] at hqueue
          have hturns := flood_turns (k := k) h hnodup hroots fun j hj => by
            rcases Nat.lt_or_eq_of_le hj with hlt | rfl
            · exact (hgo j hlt).1
            · rw [hqueue]
              exact List.cons_ne_nil _ _
          exact .fails fun _ _ => ⟨rfl, by omega⟩
  | succ bound ih =>
      rw [search]
      cases hqueue : s.queue with
      | nil =>
          rw [hs.2] at hqueue
          exact .pure fun _ _ => Or.inl ⟨rfl, k, hqueue, fun j hj => (hgo j hj).2⟩
      | cons current queue =>
          rw [hs.2] at hqueue
          have hturns := flood_turns (k := k) h hnodup hroots fun j hj => by
            rcases Nat.lt_or_eq_of_le hj with hlt | rfl
            · exact (hgo j hlt).1
            · rw [hqueue]
              exact List.cons_ne_nil _ _
          have hsound := flood_sound h hnodup hroots k
          have hcurrent : current < n := List.mem_range.1
            (hsound.known current (hsound.explored.found current (by
              rw [hqueue]
              exact List.mem_cons_self ..)))
          obtain ⟨p, hp, -⟩ := Region.position_index h hcurrent
          dsimp only
          refine (@meets_charge _ (8 * n) _ _ hmax (by omega)).bind fun _ => ?_
          rw [hp]
          refine (meets_visit p).bind fun _ => ?_
          refine .ite (fun htarget => ?_) fun htarget => ?_
          · subst htarget
            obtain ⟨nodes, htrail, hlength⟩ := trail_of_head h hnodup hroots hqueue
            have hback := @backtrack_eq _ _ source _ _ _ _ h
              (fun v => (hsound.roots v).trans List.mem_singleton)
              (parent_lt h hnodup hroots k) htrail (hn ▸ hlength) []
            rw [List.append_nil] at hback
            rw [hs.1, hback]
            refine .of (fun _ path _ hok => Or.inr ⟨k, nodes, by rw [hqueue]; rfl, htrail, ?_⟩)
              fun _ _ _ herror => by cases herror
            exact (Except.ok.inj hok).symm
          · have hsix := length_neighbors map.region p
            have hstart : Frontier.Follows { s with queue := queue } { map.flood [source] k with
                queue := queue, visited := (map.flood [source] k).visited ++ [current] } :=
              ⟨hs.1, rfl⟩
            refine (@meets_offer _ _ (8 * n) _ _ _ _ _ hmax hstart (by omega)).bind fun out => ?_
            rw [← flood_succ hqueue hp]
            rintro t ⟨hout, hwork⟩
            refine ih hout (by omega) (by omega) (fun j hj => ?_) t hwork
            rcases Nat.lt_or_eq_of_le (Nat.le_of_lt_succ hj) with hlt | rfl
            · exact hgo j hlt
            · rw [hqueue]
              exact ⟨List.cons_ne_nil _ _, fun heq => htarget (Option.some.inj heq)⟩

end Search

end MapRegion

/-! ## The flood of `compute` -/

namespace Reachability

open MapRegion

section Search

variable {map : MapRegion} {maximum limit n w k current depth : Nat} {roots : List Nat}
  {neighbors : List Neighbor} {f : Flood ℕ}

/-- A wave is a flood: what has a distance has a parent. -/
structure Wave.Follows (s : Wave) (f : Flood ℕ) : Prop where
  distance : s.distance = f.depth
  parent : s.parent = f.parent
  queue : s.queue = f.queue
  parents : ∀ v, f.parent v = none ↔ f.depth v = none

theorem stairs_eq (neighbor : Neighbor) :
    map.stairs ascends descends current neighbor =
      map.stairs Shape.up Shape.down current neighbor := by
  have hup : ascends = Shape.up := by
    funext shape
    cases shape <;> rfl
  have hdown : descends = Shape.down := by
    funext shape
    cases shape <;> rfl
  rw [hup, hdown]

theorem Wave.Follows.offer {s : Wave} (hs : s.Follows f) (hdepth : f.depth current = some depth)
    {v : Nat} (hv : s.distance v = none) :
    Wave.Follows { distance := Function.update s.distance v (some (depth + 1))
                   parent := Function.update s.parent v (some current)
                   queue := s.queue ++ [v] } (f.offer current v) ∧
      (f.offer current v).depth current = some depth := by
  have hnew : f.parent v = none := (hs.parents v).2 (hs.distance ▸ hv)
  have hne : current ≠ v := by
    rintro rfl
    rw [hs.distance, hdepth] at hv
    cases hv
  rw [Flood.offer, if_pos hnew]
  refine ⟨⟨?_, ?_, ?_, ?_⟩, ?_⟩
  · rw [hs.distance, hdepth]
    rfl
  · rw [hs.parent]
  · rw [hs.queue]
  · intro x
    by_cases hx : x = v
    · subst hx
      simp [hdepth]
    · simp only [Function.update_of_ne hx]
      exact hs.parents x
  · exact (Function.update_of_ne hne _ _).trans hdepth

theorem meets_offer {s : Wave} (hmax : maximum ≤ maxRouteWork) (hs : s.Follows f)
    (hdepth : f.depth current = some depth) (hsmall : depth < maxMapTiles)
    (hlimit : w + neighbors.length ≤ limit) :
    Meets (fun t : Tally => t.workUnits = w) (offer map maximum current depth neighbors s)
      (fun out t => out.Follows (((neighbors.filter (map.passes current)).map
          Neighbor.index).foldl (Flood.offer current) f) ∧
        t.workUnits = w + neighbors.length) fun e _ => Short maximum limit e := by
  induction neighbors generalizing s f w with
  | nil => exact .pure fun t ht => ⟨hs, ht⟩
  | cons neighbor rest ih =>
      rw [List.length_cons] at hlimit ⊢
      rw [← Nat.add_assoc, Nat.add_right_comm] at hlimit ⊢
      rw [foldl_passes_cons]
      refine (meets_charge hmax (by omega)).bind fun _ => ?_
      refine .ite (fun hskip => ?_) fun hgo => .ite (fun hwall => ?_) fun hfree => ?_
      · split_ifs with hpass
        · rcases hskip with hseen | hclosed
          · have hsame : f.offer current neighbor.index = f := by
              rw [Flood.offer, if_neg]
              exact fun hnone => hseen (hs.distance ▸ (hs.parents _).1 hnone)
            rw [hsame]
            exact ih hs hdepth hlimit
          · rw [passes, hclosed, Bool.false_and] at hpass
            cases hpass
        · exact ih hs hdepth hlimit
      · have hpass : map.passes current neighbor = false := by
          rw [stairs_eq] at hwall
          rw [passes, hwall.1, hwall.2]
          simp
        rw [if_neg (by simp [hpass])]
        exact ih hs hdepth hlimit
      · rw [not_or, not_not, Bool.not_eq_false] at hgo
        rw [stairs_eq] at hfree
        have hpass : map.passes current neighbor = true := by
          rw [passes, hgo.2, Bool.true_and, Bool.or_eq_true_iff]
          by_cases haxis : neighbor.axis = 2
          · exact Or.inr (by simpa using not_and.1 hfree haxis)
          · exact Or.inl (by simpa using haxis)
        have hfits : ¬ 2 ^ 32 ≤ depth + 1 := by
          unfold maxMapTiles at hsmall
          omega
        rw [if_pos hpass]
        obtain ⟨hnext, hkept⟩ := hs.offer hdepth hgo.1
        unfold rejectIf
        rw [if_neg hfits]
        exact ih hnext hkept hlimit

/-- `compute` follows the flood until nothing is left. -/
theorem meets_search (h : map.region.volume = .ok n) (hmax : maximum ≤ maxRouteWork)
    (hnodup : roots.Nodup) (hroots : ∀ v ∈ roots, v < n) {bound : Nat} {s : Wave}
    (hs : s.Follows (map.flood roots k)) (hw : w ≤ n + 7 * k) (hbound : bound + k = maximum + 1)
    (hgo : ∀ j < k, (map.flood roots j).queue ≠ []) :
    Meets (fun t : Tally => t.workUnits = w) (search map maximum bound s)
      (fun out _ => ∃ m, out.Follows (map.flood roots m) ∧ (map.flood roots m).queue = [])
      fun e _ => Short maximum (8 * n) e := by
  induction bound generalizing s k w with
  | zero =>
      rw [search]
      cases hqueue : s.queue with
      | nil => exact .pure fun _ _ => ⟨k, hs, hs.queue ▸ hqueue⟩
      | cons current queue =>
          rw [hs.queue] at hqueue
          have hturns := flood_turns (k := k) h hnodup hroots fun j hj => by
            rcases Nat.lt_or_eq_of_le hj with hlt | rfl
            · exact hgo j hlt
            · rw [hqueue]
              exact List.cons_ne_nil _ _
          exact .fails fun _ _ => ⟨rfl, by omega⟩
  | succ bound ih =>
      rw [search]
      cases hqueue : s.queue with
      | nil => exact .pure fun _ _ => ⟨k, hs, hs.queue ▸ hqueue⟩
      | cons current queue =>
          rw [hs.queue] at hqueue
          have hturns := flood_turns (k := k) h hnodup hroots fun j hj => by
            rcases Nat.lt_or_eq_of_le hj with hlt | rfl
            · exact hgo j hlt
            · rw [hqueue]
              exact List.cons_ne_nil _ _
          have hsound := flood_sound h hnodup hroots k
          have hfound : (map.flood roots k).depth current ≠ none :=
            hsound.explored.found current (by rw [hqueue]; exact List.mem_cons_self ..)
          have hcurrent : current < n := List.mem_range.1 (hsound.known current hfound)
          obtain ⟨depth, hdepth⟩ := Option.ne_none_iff_exists'.1 hfound
          have hsmall : depth < maxMapTiles := by
            have hlt := hsound.depth_lt hdepth
            rw [List.length_range] at hlt
            exact Nat.lt_of_lt_of_le hlt (Region.volume_ok h).2.2
          obtain ⟨p, hp, -⟩ := Region.position_index h hcurrent
          dsimp only
          refine (@meets_charge _ (8 * n) _ _ hmax (by omega)).bind fun _ => ?_
          rw [hp, hs.distance, hdepth]
          refine (meets_visit p).bind fun _ => ?_
          have hsix := length_neighbors map.region p
          have hstart : Wave.Follows { s with queue := queue, distance := (map.flood roots k).depth }
              { map.flood roots k with
                queue := queue, visited := (map.flood roots k).visited ++ [current] } :=
            ⟨rfl, hs.parent, rfl, hs.parents⟩
          refine (@meets_offer _ _ (8 * n) _ _ _ _ _ _ hmax hstart hdepth hsmall (by omega)).bind
            fun out => ?_
          rw [← flood_succ hqueue hp]
          rintro t ⟨hout, hwork⟩
          refine ih hout (by omega) (by omega) (fun j hj => ?_) t hwork
          rcases Nat.lt_or_eq_of_le (Nat.le_of_lt_succ hj) with hlt | rfl
          · exact hgo j hlt
          · rw [hqueue]
            exact List.cons_ne_nil _ _

theorem backtrack_eq {r : Reachability} {nodes : List Nat} {v bound : Nat}
    (h : map.region.volume = .ok n) (hregion : r.region = map.region)
    (hlt : ∀ v, r.parent v ≠ none → v < n) (htrail : Flood.Trail r.parent v nodes)
    (hbound : nodes.length ≤ bound) (path : List Position) :
    r.backtrack bound v path = .ok (nodes.map map.place ++ path) := by
  induction htrail generalizing bound path with
  | @root v hv =>
      obtain ⟨bound, rfl⟩ := Nat.exists_eq_add_of_le' hbound
      obtain ⟨p, hp, -⟩ := Region.position_index h (hlt v (by simp [hv]))
      rw [List.length_singleton, backtrack, hregion, hp]
      dsimp only
      rw [hv]
      dsimp only
      rw [if_pos rfl, List.map_singleton, place, hp]
      rfl
  | @step u v nodes hparent hne htrail ih =>
      rw [List.length_append, List.length_singleton] at hbound
      obtain ⟨bound, rfl⟩ := Nat.exists_eq_add_of_le' (Nat.le_of_add_left_le hbound)
      obtain ⟨p, hp, -⟩ := Region.position_index h (hlt v (by simp [hparent]))
      rw [backtrack, hregion, hp]
      dsimp only
      rw [hparent]
      dsimp only
      rw [if_neg hne, ih (by omega), List.map_append, List.map_singleton, List.append_assoc, place,
        hp]
      rfl

end Search

end Reachability

/-! ## The searches agree -/

namespace MapRegion

section Agreement

variable {map : MapRegion} {n m k source target : Nat} {path : List Position}
  {start goal : Position}

theorem flood_eq_of_nil {roots : List Nat} (hm : (map.flood roots m).queue = []) (hk : m ≤ k) :
    map.flood roots k = map.flood roots m := by
  obtain ⟨j, rfl⟩ := Nat.exists_eq_add_of_le hk
  rw [flood, Nat.add_comm, Function.iterate_add_apply]
  exact Flood.run_of_nil hm j

/-- What a flood has recorded is there at its end. -/
theorem parent_flood_end {roots : List Nat} (hm : (map.flood roots m).queue = []) {v u : Nat}
    (hv : (map.flood roots k).parent v = some u) : (map.flood roots m).parent v = some u := by
  rcases Nat.le_total m k with hle | hle
  · rwa [flood_eq_of_nil hm hle] at hv
  · obtain ⟨j, rfl⟩ := Nat.exists_eq_add_of_le hle
    rw [flood, Nat.add_comm, Function.iterate_add_apply]
    exact Flood.parent_run hv j

/-- A flood of a region ends. -/
theorem flood_ends (h : map.region.volume = .ok n) {roots : List Nat} (hnodup : roots.Nodup)
    (hroots : ∀ v ∈ roots, v < n) : ∃ m, (map.flood roots m).queue = [] := by
  by_contra hnever
  have hturns := flood_turns (k := n) h hnodup hroots fun j _ hnil => hnever ⟨j, hnil⟩
  omega

/-- What was found is what the flood has at its end. -/
theorem Found.final (h : map.region.volume = .ok n) (hsource : source < n)
    (hfound : map.Found source target path) (hm : (map.flood [source] m).queue = []) :
    (path = [] ∧ (map.flood [source] m).depth target = none) ∨
      ∃ d nodes, (map.flood [source] m).depth target = some d ∧
        Flood.Trail (map.flood [source] m).parent target nodes ∧ path = nodes.map map.place ∧
        nodes.length = d + 1 ∧ nodes.head? = some source ∧
        nodes.IsChain fun a b => b ∈ map.nextTiles a := by
  have hnodup : [source].Nodup := List.nodup_singleton source
  have hroots : ∀ v ∈ [source], v < n := fun v hv => List.mem_singleton.1 hv ▸ hsource
  have hsound := flood_sound h hnodup hroots m
  rcases hfound with ⟨hpath, m', hm', hnever⟩ | ⟨k, nodes, hhead, htrail, hpath⟩
  · refine Or.inl ⟨hpath, ?_⟩
    have hsame : map.flood [source] m = map.flood [source] m' := by
      rcases Nat.le_total m m' with hle | hle
      · exact (flood_eq_of_nil hm hle).symm
      · exact flood_eq_of_nil hm' hle
    by_contra hfound
    have hmem := (hsound.found target).1 hfound
    rw [hm, List.append_nil, hsame] at hmem
    obtain ⟨j, hj, hhead⟩ := Flood.head_of_visited rfl hmem
    exact hnever j hj hhead
  · right
    have hend := htrail.mono fun v u => parent_flood_end (k := k) hm
    have hparent : (map.flood [source] m).parent target ≠ none := by
      cases hend with
      | root hroot => simp [hroot]
      | step hstep => simp [hstep]
    obtain ⟨d, hd⟩ := Option.ne_none_iff_exists'.1 (mt (hsound.parents target).2 hparent)
    obtain ⟨other, hother, hlength, ⟨r, hr, hfirst⟩, hchain⟩ := hsound.trail hd
    have hsame := hend.unique hother
    subst hsame
    exact ⟨d, nodes, hd, hend, hpath, hlength, List.mem_singleton.1 hr ▸ hfirst, hchain⟩

/-- The path is a shortest walk, and there is none when it is empty. -/
structure Shortest (map : MapRegion) (start goal : Position) (path : List Position) : Prop where
  valid : path ≠ [] → map.ValidPath start goal path
  least : path ≠ [] → ∀ other, map.ValidPath start goal other → path.length ≤ other.length
  none : path = [] → ∀ other, ¬ map.ValidPath start goal other

theorem Found.shortest (h : map.region.volume = .ok n) (hstart : map.region.index start = some source)
    (hgoal : map.region.index goal = some target) (hopen : map.Open start)
    (hfound : map.Found source target path) : map.Shortest start goal path := by
  have hsource := Region.index_lt h hstart
  have hnodup : [source].Nodup := List.nodup_singleton source
  have hroots : ∀ v ∈ [source], v < n := fun v hv => List.mem_singleton.1 hv ▸ hsource
  obtain ⟨m, hm⟩ := flood_ends h hnodup hroots
  have hsound := flood_sound h hnodup hroots m
  have hexplored := hsound.explored
  rw [hm] at hexplored
  -- every walk bounds the depth of the target from above
  have hwalk : ∀ other, map.ValidPath start goal other →
      ∃ b ≤ other.length - 1, (map.flood [source] m).depth target = some b := by
    intro other hother
    obtain ⟨hhead, hlast, hchain⟩ := nodes_of_validPath h hother
    rw [number_eq hstart] at hhead
    rw [number_eq hgoal] at hlast
    have hreach := Flood.reach_of_chain (List.mem_singleton_self source) hhead hlast hchain
    rw [List.length_map] at hreach
    exact hexplored.complete (fun v d hv => hsound.depth_lt hv) hreach
  rcases hfound.final h hsource hm with ⟨hpath, hnone⟩ | ⟨d, nodes, hd, htrail, hpath, hlength, hrest⟩
  · subst hpath
    refine ⟨fun hne => absurd rfl hne, fun hne => absurd rfl hne, fun _ other hother => ?_⟩
    obtain ⟨b, -, hb⟩ := hwalk other hother
    rw [hnone] at hb
    cases hb
  · obtain ⟨hhead, hchain⟩ := hrest
    have hvalid := validPath_of_nodes h hstart hgoal hopen hhead htrail.getLast? hchain
    rw [← hpath] at hvalid
    refine ⟨fun _ => hvalid, fun _ other hother => ?_, fun hnil => ?_⟩
    · obtain ⟨b, hb, hdepth⟩ := hwalk other hother
      rw [hd] at hdepth
      cases hdepth
      have hpos : 0 < other.length := by
        cases other with
        | nil => cases hother.head
        | cons => exact Nat.zero_lt_succ _
      rw [hpath, List.length_map, hlength]
      omega
    · rw [hpath, List.map_eq_nil_iff] at hnil
      rw [hnil] at hlength
      cases hlength

theorem validate_ok (h : map.validate = .ok ()) :
    map.region.volume = .ok map.cells.length := by
  unfold validate at h
  cases hvolume : map.region.volume with
  | error e =>
      rw [hvolume] at h
      cases h
  | ok volume =>
      rw [hvolume] at h
      dsimp only at h
      split_ifs at h with hlength
      rw [not_not.1 hlength]

/-- Why a search of a valid region is refused. -/
def Refused (map : MapRegion) (positions : List Position) (maximum : Nat) : Prop :=
  map.validate ≠ .ok () ∨ maximum < 8 * map.cells.length ∨ maximum = 0 ∨ maximum > maxRouteWork ∨
    ∃ p ∈ positions, map.region.index p = none

/-- What a route establishes. -/
theorem meets_routeFrom (map : MapRegion) (start goal : Position) (maximum : Nat) :
    Meets (fun t : Tally => t.workUnits = 0) (routeFrom map start goal maximum)
      (fun r _ => map.validate = .ok () ∧ ∃ source target, map.region.index start = some source ∧
        map.region.index goal = some target ∧
        (r.path = [] ∧ ¬ (map.Open start ∧ map.Open goal) ∨
          map.Open start ∧ map.Found source target r.path))
      fun _ _ => map.Refused [start, goal] maximum := by
  refine Meets.bind (Q := fun _ (t : Tally) => t.workUnits = 0 ∧ map.validate = .ok ())
    (.of (fun _ _ ht hok => ⟨ht, hok⟩) fun _ e _ herror => Or.inl (by simp [herror])) fun _ => ?_
  refine Meets.bind (Q := fun _ (t : Tally) => (t.workUnits = 0 ∧ map.validate = .ok ()) ∧
    ¬ (maximum = 0 ∨ maximum > maxRouteWork)) ?_ fun _ => ?_
  · unfold rejectIf
    exact .ite (fun hbad => .fails fun _ _ => Or.inr (Or.inr (hbad.imp_right Or.inl)))
      fun hgood => .pure fun _ ht => ⟨ht, hgood⟩
  rintro t ⟨⟨ht, hvalid⟩, hmax⟩
  have hmax' : maximum ≤ maxRouteWork := by omega
  have h := validate_ok hvalid
  revert t
  cases hstart : map.region.index start with
  | none =>
      exact fun t _ => Or.inr (Or.inr (Or.inr (Or.inr ⟨start, List.mem_cons_self .., hstart⟩)))
  | some source =>
      cases hgoal : map.region.index goal with
      | none =>
          exact fun t _ => Or.inr (Or.inr (Or.inr (Or.inr ⟨goal, by simp, hgoal⟩)))
      | some target =>
          have hsource := Region.index_lt h hstart
          suffices hmeets : Meets (fun t : Tally => t.workUnits = 0)
              (if map.candidate source = false ∨ map.candidate target = false then
                pure ⟨[], 0, 0, false, true⟩
              else do
                let path ← search map maximum source target (maximum + 1)
                  ⟨Function.update (fun _ => none) source (some source), [source]⟩
                let tally ← get
                pure ⟨path, tally.visitedTiles, tally.workUnits, tally.touchedRegionBoundary,
                  false⟩ : Flooding Route)
              (fun r _ => map.validate = .ok () ∧ ∃ source' target', some source = some source' ∧
                some target = some target' ∧
                (r.path = [] ∧ ¬ (map.Open start ∧ map.Open goal) ∨
                  map.Open start ∧ map.Found source' target' r.path))
              fun _ _ => map.Refused [start, goal] maximum from hmeets
          refine .ite (fun hclosed => ?_) fun hopen => ?_
          · refine .pure fun _ _ => ⟨hvalid, source, target, rfl, rfl, Or.inl ⟨rfl, ?_⟩⟩
            rw [← candidate_iff hstart, ← candidate_iff hgoal]
            rintro ⟨hsopen, htopen⟩
            rcases hclosed with hclosed | hclosed
            · rw [hclosed] at hsopen
              cases hsopen
            · rw [hclosed] at htopen
              cases htopen
          · rw [not_or, Bool.not_eq_false, Bool.not_eq_false] at hopen
            have hfollows : Frontier.Follows
                ⟨Function.update (fun _ => none) source (some source), [source]⟩
                (map.flood [source] 0) := by
              refine ⟨funext fun v => ?_, rfl⟩
              by_cases hv : v = source
              · subst hv
                simp [flood, Flood.start]
              · simp [flood, Flood.start, hv]
            refine Meets.bind ((meets_search h rfl hmax' hsource hfollows (Nat.zero_le _) rfl
              fun j hj => absurd hj (Nat.not_lt_zero j)).conseq (fun _ ht => ht)
                (fun _ _ hfound => hfound) fun e _ hshort => Or.inr (Or.inl hshort.2)) fun path => ?_
            refine Meets.bind (Q := fun _ _ => map.Found source target path)
              (.get fun _ hfound => hfound) fun _ => .pure fun _ hfound => ?_
            exact ⟨hvalid, source, target, rfl, rfl,
              Or.inr ⟨(candidate_iff hstart).1 hopen.1, hfound⟩⟩

theorem route_ok {maximum : Nat} {r : Route} (h : map.route start goal maximum = .ok r) :
    map.validate = .ok () ∧ ∃ source target, map.region.index start = some source ∧
      map.region.index goal = some target ∧
      (r.path = [] ∧ ¬ (map.Open start ∧ map.Open goal) ∨
        map.Open start ∧ map.Found source target r.path) :=
  (meets_routeFrom map start goal maximum).ok rfl (Prod.ext h rfl)

theorem route_error {maximum : Nat} {e : MapError} (h : map.route start goal maximum = .error e) :
    map.Refused [start, goal] maximum :=
  (meets_routeFrom map start goal maximum).error rfl (Prod.ext h rfl)

/-- A walk starts and ends at open tiles. -/
theorem ValidPath.ends (h : map.ValidPath start goal path) : map.Open start ∧ map.Open goal :=
  ⟨h.clear _ (List.mem_of_mem_head? h.head), h.clear _ (List.mem_of_getLast? h.last)⟩

theorem route_shortest {maximum : Nat} {r : Route} (h : map.route start goal maximum = .ok r) :
    map.Shortest start goal r.path := by
  obtain ⟨hvalid, source, target, hstart, hgoal, ⟨hpath, hclosed⟩ | ⟨hopen, hfound⟩⟩ := route_ok h
  · rw [hpath]
    exact ⟨fun hne => absurd rfl hne, fun hne => absurd rfl hne,
      fun _ other hother => hclosed hother.ends⟩
  · exact hfound.shortest (validate_ok hvalid) hstart hgoal hopen

end Agreement

end MapRegion

namespace Reachability

open MapRegion

section Agreement

variable {map : MapRegion} {root target : Position} {maximum source : Nat}

theorem locate_singleton (map : MapRegion) (root : Position) :
    locate map [root] = match map.region.index root with
      | none => .error .outsideRegion
      | some source =>
          if map.candidate source = false then .error .invalidTile else .ok [source] := by
  rw [locate]
  cases map.region.index root with
  | none => rfl
  | some source => rfl

/-- What `compute` establishes from a single root. -/
theorem meets_computeFrom (map : MapRegion) (root : Position) (maximum : Nat) :
    Meets (fun t : Tally => t.workUnits = 0) (computeFrom map [root] maximum)
      (fun r _ => map.validate = .ok () ∧ map.Open root ∧ ∃ source m,
        map.region.index root = some source ∧ (map.flood [source] m).queue = [] ∧
        r.region = map.region ∧ r.distance = (map.flood [source] m).depth ∧
        r.parent = (map.flood [source] m).parent ∧ r.tiles = map.cells.length)
      fun _ _ => map.Refused [root] maximum ∨ ¬ map.Open root := by
  refine Meets.bind (Q := fun _ (t : Tally) => t.workUnits = 0 ∧ map.validate = .ok ())
    (.of (fun _ _ ht hok => ⟨ht, hok⟩)
      fun _ e _ herror => Or.inl (Or.inl (by simp [herror]))) fun _ => ?_
  refine Meets.bind (Q := fun _ (t : Tally) => (t.workUnits = 0 ∧ map.validate = .ok ()) ∧
    ¬ (maximum = 0 ∨ maximum > maxRouteWork)) ?_ fun _ => ?_
  · unfold rejectIf
    refine .ite (fun hbad => .fails fun _ _ => Or.inl (Or.inr (Or.inr ?_))) fun hgood =>
      .pure fun _ ht => ⟨ht, fun hbad => hgood (Or.inr (Or.inr hbad))⟩
    rcases hbad with hnil | hlong | hbad
    · cases hnil
    · rw [List.length_singleton] at hlong
      omega
    · exact hbad.imp_right Or.inl
  rw [locate_singleton]
  rintro t ⟨⟨ht, hvalid⟩, hmax⟩
  have hmax' : maximum ≤ maxRouteWork := by omega
  have h := validate_ok hvalid
  revert t
  cases hroot : map.region.index root with
  | none =>
      exact fun t _ => Or.inl (Or.inr (Or.inr (Or.inr (Or.inr
        ⟨root, List.mem_singleton_self root, hroot⟩))))
  | some source =>
      have hsource := Region.index_lt h hroot
      dsimp only
      by_cases hcandidate : map.candidate source = false
      · rw [if_pos hcandidate]
        intro t _
        refine Or.inr fun hopen => ?_
        rw [(candidate_iff hroot).2 hopen] at hcandidate
        cases hcandidate
      · rw [if_neg hcandidate]
        have hopen : map.Open root := (candidate_iff hroot).1 (by simpa using hcandidate)
        have hsources : sources [source] = [source] := rfl
        have hshort : ∀ (e : MapError) (t : Tally), Short maximum (8 * map.cells.length) e →
            map.Refused [root] maximum ∨ ¬ map.Open root :=
          fun e _ hshort => Or.inl (Or.inr (Or.inl hshort.2))
        suffices hmeets : Meets (fun t : Tally => t.workUnits = 0)
            (do
              let indices ← of (.ok [source])
              charge map.cells.length maximum
              let s ← search map maximum (maximum + 1)
                { distance := fun v => if v ∈ sources indices then some 0 else none
                  parent := fun v => if v ∈ sources indices then some v else none
                  queue := sources indices }
              let tally ← get
              pure ⟨map.region, s.distance, s.parent, map.cells.length, tally.visitedTiles,
                tally.workUnits, tally.touchedRegionBoundary⟩ : Flooding Reachability)
            (fun r _ => map.validate = .ok () ∧ map.Open root ∧ ∃ source' m,
              some source = some source' ∧ (map.flood [source'] m).queue = [] ∧
              r.region = map.region ∧ r.distance = (map.flood [source'] m).depth ∧
              r.parent = (map.flood [source'] m).parent ∧ r.tiles = map.cells.length)
            fun _ _ => map.Refused [root] maximum ∨ ¬ map.Open root from hmeets
        refine Meets.bind (Q := fun indices (t : Tally) => indices = [source] ∧ t.workUnits = 0)
          (.of (fun _ _ ht hok => ⟨(Except.ok.inj hok).symm, ht⟩)
            fun _ _ _ herror => by cases herror) fun indices => ?_
        rintro t ⟨rfl, ht⟩
        rw [hsources]
        revert t
        refine Meets.bind ((@meets_charge _ (8 * map.cells.length) _ _ hmax' (by omega)).conseq
          (fun _ ht => ht) (fun _ _ h => h) hshort) fun _ => ?_
        have hfollows : Wave.Follows
            { distance := fun v => if v ∈ [source] then some 0 else none
              parent := fun v => if v ∈ [source] then some v else none
              queue := [source] } (map.flood [source] 0) :=
          ⟨rfl, rfl, rfl, (@Flood.Sound.start _ _ _ _ map.nextTiles (List.nodup_singleton source)
            fun v hv => List.mem_range.2 (List.mem_singleton.1 hv ▸ hsource)).parents⟩
        refine Meets.bind ((meets_search h hmax' (List.nodup_singleton source)
          (fun v hv => List.mem_singleton.1 hv ▸ hsource) hfollows (by omega) rfl
            fun j hj => absurd hj (Nat.not_lt_zero j)).conseq (fun _ ht => ht)
              (fun _ _ h => h) hshort) fun out => ?_
        refine Meets.bind (Q := fun _ _ => ∃ m, out.Follows (map.flood [source] m) ∧
          (map.flood [source] m).queue = []) (.get fun _ h => h) fun _ => .pure fun _ hout => ?_
        obtain ⟨m, hfollow, hm⟩ := hout
        exact ⟨hvalid, hopen, source, m, rfl, hm, rfl, hfollow.distance, hfollow.parent, rfl⟩

theorem compute_ok {r : Reachability} (h : compute map [root] maximum = .ok r) :
    map.validate = .ok () ∧ map.Open root ∧ ∃ source m,
      map.region.index root = some source ∧ (map.flood [source] m).queue = [] ∧
      r.region = map.region ∧ r.distance = (map.flood [source] m).depth ∧
      r.parent = (map.flood [source] m).parent ∧ r.tiles = map.cells.length :=
  (meets_computeFrom map root maximum).ok rfl (Prod.ext h rfl)

theorem compute_error {e : MapError} (h : compute map [root] maximum = .error e) :
    map.Refused [root] maximum ∨ ¬ map.Open root :=
  (meets_computeFrom map root maximum).error rfl (Prod.ext h rfl)

/-- What `compute` tells of a target is what `route` finds. -/
theorem agrees {r : Reachability} {other : Route} {limit : Nat}
    (hcompute : compute map [root] maximum = .ok r)
    (hroute : map.route root target limit = .ok other) :
    r.distanceTo target = (if other.path = [] then none else some (other.path.length - 1)) ∧
      r.pathTo target = .ok (if other.path = [] then none else some other.path) := by
  obtain ⟨hvalid, hopen, source, m, hsource, hm, hregion, hdistance, hparent, htiles⟩ :=
    compute_ok hcompute
  have h := validate_ok hvalid
  have hlt := Region.index_lt h hsource
  have hnodup : [source].Nodup := List.nodup_singleton source
  have hroots : ∀ v ∈ [source], v < map.cells.length :=
    fun v hv => List.mem_singleton.1 hv ▸ hlt
  have hsound := flood_sound h hnodup hroots m
  obtain ⟨-, source', node, hsource', hnode, hresult⟩ := route_ok hroute
  rw [hsource] at hsource'
  cases hsource'
  have hpath : r.pathTo target = if (map.flood [source] m).depth node = none then .ok none
      else (r.backtrack r.tiles node []).map some := by
    rw [pathTo, hregion, hnode]
    dsimp only
    rw [hdistance]
    cases r.backtrack r.tiles node [] <;> rfl
  have hdist : r.distanceTo target = (map.flood [source] m).depth node := by
    rw [distanceTo, hregion, hnode, hdistance]
    rfl
  have hfinal : (other.path = [] ∧ (map.flood [source] m).depth node = none) ∨
      ∃ d nodes, (map.flood [source] m).depth node = some d ∧
        Flood.Trail (map.flood [source] m).parent node nodes ∧
        other.path = nodes.map map.place ∧ nodes.length = d + 1 := by
    rcases hresult with ⟨hnil, hclosed⟩ | ⟨-, hfound⟩
    · refine Or.inl ⟨hnil, ?_⟩
      -- a tile that is found is open, unless it is the root
      by_contra hfound
      obtain ⟨d, hd⟩ := Option.ne_none_iff_exists'.1 hfound
      obtain ⟨nodes, htrail, -, ⟨r, hr, hhead⟩, hchain⟩ := hsound.trail hd
      rw [List.mem_singleton.1 hr] at hhead
      exact hclosed (validPath_of_nodes h hsource hnode hopen hhead htrail.getLast? hchain).ends
    · rcases hfound.final h hlt hm with hnone | ⟨d, nodes, hd, htrail, hpath, hlength, -⟩
      · exact Or.inl hnone
      · exact Or.inr ⟨d, nodes, hd, htrail, hpath, hlength⟩
  rw [hdist, hpath]
  rcases hfinal with ⟨hnil, hnone⟩ | ⟨d, nodes, hd, htrail, hother, hlength⟩
  · rw [hnone, if_pos hnil, if_pos rfl, if_pos hnil]
    exact ⟨rfl, rfl⟩
  · have hne : other.path ≠ [] := by
      intro hnil
      rw [hother, List.map_eq_nil_iff] at hnil
      rw [hnil] at hlength
      cases hlength
    have hshort : nodes.length ≤ r.tiles := by
      have hdepth := hsound.depth_lt hd
      rw [List.length_range] at hdepth
      omega
    have hback := backtrack_eq h hregion (fun v hv => parent_lt h hnodup hroots m v (hparent ▸ hv))
      (hparent ▸ htrail) hshort []
    rw [List.append_nil] at hback
    rw [hd, if_neg hne, if_neg (by simp), if_neg hne, hback, hother, List.length_map, hlength]
    exact ⟨rfl, rfl⟩

end Agreement

end Reachability

/-- **The two searches of a region agree, and their paths are shortest walks.** A root that is not a
candidate tile is refused by the one and reported by the other; otherwise both answer as soon as the
work allowed is eight units a tile. -/
theorem reachability_agrees (map : MapRegion) (root target : MapRegion.Position)
    (maximum limit : Nat) :
    (∀ r other, Reachability.compute map [root] maximum = .ok r →
      map.route root target limit = .ok other →
      r.distanceTo target = (if other.path = [] then none else some (other.path.length - 1)) ∧
        r.pathTo target = .ok (if other.path = [] then none else some other.path)) ∧
      (∀ other, map.route root target limit = .ok other → map.Shortest root target other.path) ∧
      (map.validate = .ok () → map.region.index target ≠ none → map.Open root →
        8 * map.cells.length ≤ maximum → maximum ≤ MapRegion.maxRouteWork →
        8 * map.cells.length ≤ limit → limit ≤ MapRegion.maxRouteWork →
        (∃ r, Reachability.compute map [root] maximum = .ok r) ∧
          ∃ other, map.route root target limit = .ok other) ∧
      ∀ r, Reachability.compute map [root] maximum = .ok r → map.Open root := by
  refine ⟨fun r other => Reachability.agrees, fun other => MapRegion.route_shortest, ?_,
    fun r hr => (Reachability.compute_ok hr).2.1⟩
  intro hvalid htarget hopen hmaximum hmaximum' hlimit hlimit'
  have hroot := hopen.numbered
  have hpos : 0 < map.cells.length :=
    Nat.zero_lt_of_lt (MapRegion.Region.index_lt (MapRegion.validate_ok hvalid) hroot)
  have hrefused : ∀ positions work, 8 * map.cells.length ≤ work → work ≤ MapRegion.maxRouteWork →
      (∀ p ∈ positions, map.region.index p ≠ none) → ¬ map.Refused positions work := by
    rintro positions work hwork hwork' hpositions (hbad | hbad | hbad | hbad | ⟨p, hp, hbad⟩)
    · exact hbad hvalid
    · omega
    · omega
    · omega
    · exact hpositions p hp hbad
  constructor
  · cases hcompute : Reachability.compute map [root] maximum with
    | ok r => exact ⟨r, rfl⟩
    | error e =>
        rcases Reachability.compute_error hcompute with hbad | hbad
        · refine absurd hbad (hrefused _ _ hmaximum hmaximum' fun p hp => ?_)
          rw [List.mem_singleton.1 hp, hroot]
          simp
        · exact absurd hopen hbad
  · cases hroute : map.route root target limit with
    | ok other => exact ⟨other, rfl⟩
    | error e =>
        refine absurd (MapRegion.route_error hroute) (hrefused _ _ hlimit hlimit' fun p hp => ?_)
        rcases List.mem_cons.1 hp with rfl | hp
        · rw [hroot]
          simp
        · rw [List.mem_singleton.1 hp]
          exact htarget

namespace MapRegion.Sample

def tile (shape : Shape) : Tile := ⟨1, shape, 0, 0, 0, 0, 0, 1⟩

/-- A corridor with stairs to the corridor above it, and a wall at either end. -/
def landing : MapRegion where
  region := ⟨![0, 0, 0], ![3, 1, 2]⟩
  cells := [.visible (tile .floor), .visible (tile .stairUp), .visible (tile .wall),
    .visible (tile .wall), .visible (tile .stairDown), .visible (tile .floor)]

end MapRegion.Sample

theorem reachability_agrees_landing : ∃ r other,
    Reachability.compute MapRegion.Sample.landing [![0, 0, 0]] 100 = .ok r ∧
      MapRegion.Sample.landing.route ![0, 0, 0] ![2, 0, 1] 100 = .ok other ∧
      r.distanceTo ![2, 0, 1] = if other.path = [] then none else some (other.path.length - 1) := by
  obtain ⟨hagree, -, htotal, -⟩ :=
    reachability_agrees MapRegion.Sample.landing ![0, 0, 0] ![2, 0, 1] 100 100
  obtain ⟨⟨r, hr⟩, other, hother⟩ := htotal rfl (by decide) ⟨MapRegion.Sample.tile .floor, rfl, rfl⟩
    (by decide) (by decide) (by decide) (by decide)
  exact ⟨r, other, hr, hother, (hagree r other hr hother).1⟩

end Dfmcp
