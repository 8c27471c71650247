import Dfmcp.World.GraphIndexProof

/-!
# Traversals are exact

`traverse_graph` is a breadth-first search by layers over the entities of the snapshot: an entity is
visited when its distance from the roots, over the selected edges in the chosen direction, is within
the depth limit, and its recorded depth is that distance.

* `Search.Sound` — what holds of a traversal at every moment; `Sound.discover` and its companions
  follow its steps;
* `traversal_exact` — visits, depths, frontier and recorded paths of a traversal.
-/

namespace Dfmcp

open Machine Method Layers

namespace GraphQuery

/-! ## Neighbours -/

/-- A selected edge leads from one entity to another in the given direction. -/
def Relates (snapshot : WorldSnapshot) (kinds : List EdgeKind) :
    GraphDirection → EntityId → EdgeId × U 64 → EntityId → Prop
  | .outgoing => fun u e v => Links snapshot kinds u e v
  | .incoming => fun u e v => Links snapshot kinds v e u
  | .undirected => fun u e v => Links snapshot kinds u e v ∨ Links snapshot kinds v e u

theorem mem_sortArcs {a : Arc} {arcs : List Arc} : a ∈ Index.sortArcs arcs ↔ a ∈ arcs :=
  List.mem_insertionSort _

theorem mem_of_mem_go {a kept : Arc} {arcs : List Arc} (h : a ∈ dedupArcs.go kept arcs) :
    a ∈ arcs := by
  induction arcs generalizing kept with
  | nil => exact h
  | cons b rest ih =>
      rw [dedupArcs.go] at h
      split_ifs at h
      · exact List.mem_cons_of_mem b (ih h)
      · rcases List.mem_cons.1 h with rfl | h
        · exact List.mem_cons_self ..
        · exact List.mem_cons_of_mem b (ih h)

theorem mem_of_mem_dedupArcs {a : Arc} {arcs : List Arc} (h : a ∈ dedupArcs arcs) : a ∈ arcs := by
  cases arcs with
  | nil => exact h
  | cons b rest =>
      rcases List.mem_cons.1 h with rfl | h
      · exact List.mem_cons_self ..
      · exact List.mem_cons_of_mem b (mem_of_mem_go h)

theorem key_mem_go {a kept : Arc} {arcs : List Arc} (h : a ∈ arcs) :
    a.key = kept.key ∨ ∃ b ∈ dedupArcs.go kept arcs, b.key = a.key := by
  induction arcs generalizing kept with
  | nil => cases h
  | cons b rest ih =>
      rw [dedupArcs.go]
      by_cases hb : b.key = kept.key
      · rw [if_pos hb]
        rcases List.mem_cons.1 h with rfl | h
        · exact Or.inl hb
        · exact ih h
      · rw [if_neg hb]
        rcases List.mem_cons.1 h with rfl | h
        · exact Or.inr ⟨a, List.mem_cons_self .., rfl⟩
        · rcases @ih b h with heq | ⟨c, hc, heq⟩
          · exact Or.inr ⟨b, List.mem_cons_self .., heq.symm⟩
          · exact Or.inr ⟨c, List.mem_cons_of_mem b hc, heq⟩

/-- Every arc is kept, or one with the same key. -/
theorem key_mem_dedupArcs {a : Arc} {arcs : List Arc} (h : a ∈ arcs) :
    ∃ b ∈ dedupArcs arcs, b.key = a.key := by
  cases arcs with
  | nil => cases h
  | cons b rest =>
      rcases List.mem_cons.1 h with rfl | h
      · exact ⟨a, List.mem_cons_self .., rfl⟩
      · rcases @key_mem_go _ b _ h with heq | ⟨c, hc, heq⟩
        · exact ⟨b, List.mem_cons_self .., heq.symm⟩
        · exact ⟨c, List.mem_cons_of_mem b hc, heq⟩

namespace Index.Projects

variable {index : Index} {snapshot : WorldSnapshot} {kinds : List EdgeKind} {budget : GraphBudget}
  {n : Nat} {u v : EntityId} {e : EdgeId × U 64} {a : Arc}

theorem id_eq (hn : index.ids[n]? = some u) : index.id n = u := by
  rw [Index.id, List.getD_eq_getElem?_getD, hn, Option.getD_some]

theorem mem_outgoing (h : index.Projects snapshot kinds budget) (hn : index.ids[n]? = some u) :
    a ∈ index.arcsFrom n ↔ ∃ v, index.ids[a.target]? = some v ∧
      Links snapshot kinds u (a.edge, a.revision) v := by
  rw [h.holds.outgoing n a, hn]
  constructor
  · rintro ⟨r, ⟨hget, hkind⟩, hfrom, hto, hrev⟩
    exact ⟨r.toId, hto, r, hget, hkind, (Option.some.inj hfrom).symm, rfl, hrev⟩
  · rintro ⟨v, hv, r, hget, hkind, rfl, rfl, hrev⟩
    exact ⟨r, ⟨hget, hkind⟩, rfl, hv, hrev⟩

theorem mem_incoming (h : index.Projects snapshot kinds budget) (hn : index.ids[n]? = some u) :
    a ∈ index.arcsInto n ↔ ∃ v, index.ids[a.target]? = some v ∧
      Links snapshot kinds v (a.edge, a.revision) u := by
  rw [h.holds.incoming n a, hn]
  constructor
  · rintro ⟨r, ⟨hget, hkind⟩, hto, hfrom, hrev⟩
    exact ⟨r.fromId, hfrom, r, hget, hkind, rfl, (Option.some.inj hto).symm, hrev⟩
  · rintro ⟨v, hv, r, hget, hkind, rfl, rfl, hrev⟩
    exact ⟨r, ⟨hget, hkind⟩, rfl, hv, hrev⟩

/-- Both ends of a selected edge are vertices. -/
theorem ends (h : index.Projects snapshot kinds budget) (hlink : Links snapshot kinds u e v) :
    (∃ n : Nat, index.ids[n]? = some u) ∧ ∃ n : Nat, index.ids[n]? = some v := by
  obtain ⟨r, hget, hkind, rfl, rfl, -⟩ := hlink
  obtain ⟨hfrom, hto⟩ := h.holds.endpoints e.1 r ⟨hget, hkind⟩
  exact ⟨List.mem_iff_getElem?.1 hfrom, List.mem_iff_getElem?.1 hto⟩

theorem neighbor_relates (h : index.Projects snapshot kinds budget)
    (hn : index.ids[n]? = some u) {direction : GraphDirection}
    (ha : a ∈ neighbors index n direction) : ∃ v, index.ids[a.target]? = some v ∧
      Relates snapshot kinds direction u (a.edge, a.revision) v := by
  cases direction with
  | outgoing => exact (h.mem_outgoing hn).1 ha
  | incoming => exact (h.mem_incoming hn).1 ha
  | undirected =>
      rcases List.mem_append.1 (mem_sortArcs.1 (mem_of_mem_dedupArcs ha)) with ha | ha
      · obtain ⟨v, hv, hlink⟩ := (h.mem_outgoing hn).1 ha
        exact ⟨v, hv, Or.inl hlink⟩
      · obtain ⟨v, hv, hlink⟩ := (h.mem_incoming hn).1 ha
        exact ⟨v, hv, Or.inr hlink⟩

theorem relates_neighbor (h : index.Projects snapshot kinds budget)
    (hn : index.ids[n]? = some u) {direction : GraphDirection}
    (hrel : Relates snapshot kinds direction u e v) :
    ∃ a ∈ neighbors index n direction, index.ids[a.target]? = some v := by
  cases direction with
  | outgoing =>
      obtain ⟨m, hm⟩ := (h.ends hrel).2
      exact ⟨⟨m, e.1, e.2⟩, (h.mem_outgoing hn).2 ⟨v, hm, hrel⟩, hm⟩
  | incoming =>
      obtain ⟨m, hm⟩ := (h.ends hrel).1
      exact ⟨⟨m, e.1, e.2⟩, (h.mem_incoming hn).2 ⟨v, hm, hrel⟩, hm⟩
  | undirected =>
      have hboth : ∃ a ∈ index.arcsFrom n ++ index.arcsInto n, index.ids[a.target]? = some v := by
        rcases hrel with hlink | hlink
        · obtain ⟨m, hm⟩ := (h.ends hlink).2
          exact ⟨⟨m, e.1, e.2⟩, List.mem_append_left _ ((h.mem_outgoing hn).2 ⟨v, hm, hlink⟩), hm⟩
        · obtain ⟨m, hm⟩ := (h.ends hlink).1
          exact ⟨⟨m, e.1, e.2⟩, List.mem_append_right _ ((h.mem_incoming hn).2 ⟨v, hm, hlink⟩), hm⟩
      obtain ⟨a, ha, htarget⟩ := hboth
      obtain ⟨b, hb, hkey⟩ := key_mem_dedupArcs (mem_sortArcs.2 ha)
      have hsame : b.target = a.target := congrArg Prod.fst (toLex.injective hkey)
      exact ⟨b, hb, hsame ▸ htarget⟩

end Index.Projects

/-! ## What the visits record -/

def depthOf (visits : List GraphVisit) (id : EntityId) : Option ℕ :=
  (visits.find? fun visit => visit.entityId = id).map fun visit => visit.depth.val

/-- The parent of a visit and the edge from it. -/
def GraphVisit.origin (visit : GraphVisit) : Option (EntityId × EdgeId × U 64) :=
  match visit.parent, visit.viaEdge, visit.viaEdgeRevision with
  | some parent, some edge, some revision => some (parent, edge, revision)
  | _, _, _ => none

def originOf (visits : List GraphVisit) (id : EntityId) : Option (EntityId × EdgeId × U 64) :=
  (visits.find? fun visit => visit.entityId = id).bind GraphVisit.origin

/-- A visit is that of a root, or it names a visit one step closer to its root. -/
def Recorded (roots : EntityId → Prop) (link : EntityId → EdgeId × U 64 → EntityId → Prop)
    (visits : List GraphVisit) (v : GraphVisit) : Prop :=
  (v.parent = none ∧ v.viaEdge = none ∧ v.viaEdgeRevision = none ∧ v.depth = 0 ∧
    v.root = v.entityId ∧ roots v.root) ∨
  ∃ p ∈ visits, ∃ e r, v.parent = some p.entityId ∧ v.viaEdge = some e ∧
    v.viaEdgeRevision = some r ∧ p.depth.val + 1 = v.depth.val ∧ p.root = v.root ∧
    link p.entityId (e, r) v.entityId

section Visits

variable {visits : List GraphVisit} {visit : GraphVisit} {u : EntityId} {d : ℕ}

theorem find?_of_mem (hnodup : (visits.map GraphVisit.entityId).Nodup) (h : visit ∈ visits) :
    visits.find? (fun v => v.entityId = visit.entityId) = some visit := by
  induction visits with
  | nil => cases h
  | cons v rest ih =>
      rw [List.map_cons, List.nodup_cons] at hnodup
      rcases List.mem_cons.1 h with rfl | h
      · simp
      · have hne : v.entityId ≠ visit.entityId := fun heq =>
          hnodup.1 (heq ▸ List.mem_map_of_mem h)
        rw [List.find?_cons_of_neg (by simpa using hne)]
        exact ih hnodup.2 h

theorem depthOf_of_mem (hnodup : (visits.map GraphVisit.entityId).Nodup) (h : visit ∈ visits) :
    depthOf visits visit.entityId = some visit.depth.val := by
  rw [depthOf, find?_of_mem hnodup h, Option.map_some]

theorem depthOf_ne_none : depthOf visits u ≠ none ↔ u ∈ visits.map GraphVisit.entityId := by
  rw [depthOf, Ne, Option.map_eq_none_iff, List.find?_eq_none]
  simp

theorem depthOf_eq_some (hnodup : (visits.map GraphVisit.entityId).Nodup) :
    depthOf visits u = some d ↔ ∃ v ∈ visits, v.entityId = u ∧ v.depth.val = d := by
  constructor
  · intro h
    obtain ⟨v, hfind, hd⟩ := Option.map_eq_some_iff.1 h
    exact ⟨v, List.mem_of_find?_eq_some hfind, by simpa using List.find?_some hfind, hd⟩
  · rintro ⟨v, hv, rfl, rfl⟩
    exact depthOf_of_mem hnodup hv

theorem find?_concat (hnew : visit.entityId ∉ visits.map GraphVisit.entityId) :
    (fun id => (visits ++ [visit]).find? fun v => decide (v.entityId = id)) =
      Function.update (fun id => visits.find? fun v => decide (v.entityId = id)) visit.entityId
        (some visit) := by
  funext id
  rw [List.find?_append]
  by_cases hid : id = visit.entityId
  · subst hid
    have hnone : visits.find? (fun v => decide (v.entityId = visit.entityId)) = none := by
      rw [List.find?_eq_none]
      intro v hv heq
      exact hnew (of_decide_eq_true heq ▸ List.mem_map_of_mem hv)
    rw [Function.update_self, hnone]
    simp
  · rw [Function.update_of_ne hid]
    have hlast : [visit].find? (fun v => decide (v.entityId = id)) = none := by
      simp [Ne.symm hid]
    rw [hlast, Option.or_none]

theorem depthOf_concat (hnew : visit.entityId ∉ visits.map GraphVisit.entityId) :
    depthOf (visits ++ [visit]) =
      Function.update (depthOf visits) visit.entityId (some visit.depth.val) := by
  funext id
  have hfind := congrFun (find?_concat hnew) id
  rw [depthOf, hfind]
  by_cases hid : id = visit.entityId
  · subst hid
    simp
  · simp [hid, depthOf]

theorem originOf_concat (hnew : visit.entityId ∉ visits.map GraphVisit.entityId) :
    originOf (visits ++ [visit]) =
      Function.update (originOf visits) visit.entityId visit.origin := by
  funext id
  have hfind := congrFun (find?_concat hnew) id
  rw [originOf, hfind]
  by_cases hid : id = visit.entityId
  · subst hid
    simp
  · simp [hid, originOf]

end Visits

/-! ## The steps of a traversal -/

/-- The identifiers in a queue. -/
def names (queue : List (Nat × GraphVisit)) : List EntityId :=
  queue.map fun entry => entry.2.entityId

/-- What holds of a traversal: `line` are the visits it still has to look at. -/
structure Search.Sound (index : Index) (roots : EntityId → Prop)
    (link : EntityId → EdgeId × U 64 → EntityId → Prop) (limit : ℕ) (s : Search)
    (line : List (Nat × GraphVisit)) (owed : EntityId → EntityId → Prop) : Prop where
  explored : Explored roots link limit (depthOf s.visits) (originOf s.visits) (names line) owed
  nodup : (s.visits.map GraphVisit.entityId).Nodup
  known : ∀ v ∈ s.visits, v.entityId ∈ index.ids
  seen : ∀ n u, index.ids[n]? = some u →
    (s.seen n = true ↔ u ∈ s.visits.map GraphVisit.entityId)
  queued : ∀ entry ∈ line, entry.2 ∈ s.visits ∧ index.ids[entry.1]? = some entry.2.entityId
  recorded : ∀ v ∈ s.visits, Recorded roots link s.visits v
  numbered : ∀ n ∈ s.boundary, ∃ u, index.ids[n]? = some u
  limited : ∀ u, (∃ n ∈ s.boundary, index.ids[n]? = some u) ↔
    depthOf s.visits u = some limit ∧ u ∉ names line

section Steps

variable {index : Index} {snapshot : WorldSnapshot} {kinds : List EdgeKind} {budget : GraphBudget}
  {roots : EntityId → Prop} {link : EntityId → EdgeId × U 64 → EntityId → Prop} {limit : ℕ}
  {s : Search} {line queue : List (Nat × GraphVisit)} {current : Nat} {visit : GraphVisit}
  {arc : Arc} {rest : List EntityId} {owed : EntityId → EntityId → Prop} {u v : EntityId}

theorem names_concat (queue : List (Nat × GraphVisit)) (entry : Nat × GraphVisit) :
    names (queue ++ [entry]) = names queue ++ [entry.2.entityId] := List.map_append ..

theorem Recorded.mono {visits more : List GraphVisit} {x : GraphVisit}
    (h : Recorded roots link visits x) (hmore : visits ⊆ more) : Recorded roots link more x := by
  rcases h with hroot | ⟨p, hp, hrest⟩
  · exact Or.inl hroot
  · exact Or.inr ⟨p, hmore hp, hrest⟩

/-- A new entity is discovered at the end of an arc. -/
theorem Search.Sound.discover (hids : index.ids.Nodup)
    (h : s.Sound index roots link limit ((current, visit) :: s.queue)
      (looking visit.entityId (v :: rest) (names s.queue)))
    (hlimit : limit < 2 ^ 32) (hdepth : visit.depth.val < limit)
    (htarget : index.ids[arc.target]? = some v)
    (hlink : link visit.entityId (arc.edge, arc.revision) v) (hseen : s.seen arc.target = false) :
    (s.discover arc.target (arcVisit index current visit arc)).Sound index roots link limit
      ((current, visit) :: (s.queue ++ [(arc.target, arcVisit index current visit arc)]))
      (looking visit.entityId rest
        (names (s.queue ++ [(arc.target, arcVisit index current visit arc)]))) := by
  obtain ⟨hvisit, hcurrent⟩ := h.queued (current, visit) (List.mem_cons_self ..)
  have hid : (arcVisit index current visit arc).entityId = v := Index.Projects.id_eq htarget
  have hsum : (arcVisit index current visit arc).depth.val = visit.depth.val + 1 :=
    U.wrap_val (by omega)
  have horigin : (arcVisit index current visit arc).origin =
      some (visit.entityId, arc.edge, arc.revision) := by
    show some (index.id current, arc.edge, arc.revision) = _
    rw [Index.Projects.id_eq hcurrent]
  have hnew : v ∉ s.visits.map GraphVisit.entityId := by
    intro hmem
    rw [(h.seen _ _ htarget).2 hmem] at hseen
    cases hseen
  have hnone : depthOf s.visits v = none := by
    by_contra hne
    exact hnew (depthOf_ne_none.1 hne)
  generalize hrecord : arcVisit index current visit arc = record at hid hsum horigin ⊢
  have hdepths : depthOf (s.visits ++ [record]) =
      Function.update (depthOf s.visits) v (some (visit.depth.val + 1)) := by
    rw [depthOf_concat (hid ▸ hnew), hid, hsum]
  have horigins : originOf (s.visits ++ [record]) = Function.update (originOf s.visits) v
      (some (visit.entityId, arc.edge, arc.revision)) := by
    rw [originOf_concat (hid ▸ hnew), hid, horigin]
  have hother : ∀ {n x}, index.ids[n]? = some x → n ≠ arc.target → x ≠ v := by
    intro n x hn hne heq
    subst heq
    exact hne ((List.getElem?_inj (List.getElem?_eq_some_iff.1 hn).1 hids).1 (hn.trans htarget.symm))
  refine ⟨?_, ?_, ?_, ?_, ?_, ?_, h.numbered, ?_⟩
  · show Explored roots link limit (depthOf (s.visits ++ [record]))
      (originOf (s.visits ++ [record])) _ _
    rw [hdepths, horigins, names_concat, hid]
    have hnames : names ((current, visit) :: (s.queue ++ [(arc.target, record)])) =
        visit.entityId :: (names s.queue ++ [v]) := by
      rw [← hid]
      exact congrArg _ (names_concat s.queue (arc.target, record))
    rw [hnames]
    exact h.explored.offer (depthOf_of_mem h.nodup hvisit) hdepth hlink hnone
  · show ((s.visits ++ [record]).map GraphVisit.entityId).Nodup
    rw [List.map_append, List.nodup_append]
    refine ⟨h.nodup, List.nodup_singleton _, ?_⟩
    intro a ha b hb hab
    rw [List.map_singleton, List.mem_singleton, hid] at hb
    exact hnew (hb ▸ hab ▸ ha)
  · intro x hx
    rcases List.mem_append.1 hx with hx | hx
    · exact h.known x hx
    · rw [List.mem_singleton.1 hx, hid]
      exact List.mem_of_getElem? htarget
  · intro n x hn
    show Function.update s.seen arc.target true n = true ↔ x ∈ (s.visits ++ [record]).map _
    rw [List.map_append, List.mem_append, List.map_singleton, List.mem_singleton, hid]
    by_cases hnt : n = arc.target
    · subst hnt
      rw [Function.update_self]
      exact ⟨fun _ => Or.inr (Option.some.inj (hn.symm.trans htarget)), fun _ => rfl⟩
    · rw [Function.update_of_ne hnt, h.seen n x hn]
      exact ⟨Or.inl, fun hor => hor.resolve_right (hother hn hnt)⟩
  · intro entry hentry
    show entry.2 ∈ s.visits ++ [record] ∧ _
    rcases List.mem_cons.1 hentry with rfl | hentry
    · exact ⟨List.mem_append_left _ hvisit, hcurrent⟩
    · rcases List.mem_append.1 hentry with hentry | hentry
      · have hold := h.queued entry (List.mem_cons_of_mem _ hentry)
        exact ⟨List.mem_append_left _ hold.1, hold.2⟩
      · rw [List.mem_singleton.1 hentry]
        exact ⟨List.mem_append_right _ (List.mem_singleton_self _), hid.symm ▸ htarget⟩
  · intro x hx
    rcases List.mem_append.1 hx with hx | hx
    · exact (h.recorded x hx).mono (List.subset_append_left ..)
    · rw [List.mem_singleton.1 hx, ← hrecord]
      refine Or.inr ⟨visit, List.mem_append_left _ hvisit, arc.edge, arc.revision, ?_, rfl, rfl,
        ?_, rfl, ?_⟩
      · exact congrArg some (Index.Projects.id_eq hcurrent)
      · rw [hrecord, hsum]
      · rw [hrecord, hid]
        exact hlink
  · intro x
    show _ ↔ depthOf (s.visits ++ [record]) x = some limit ∧ _
    have hnames : names ((current, visit) :: (s.queue ++ [(arc.target, record)])) =
        names ((current, visit) :: s.queue) ++ [v] := by
      rw [← hid]
      exact names_concat ((current, visit) :: s.queue) (arc.target, record)
    rw [hnames, hdepths, List.mem_append, List.mem_singleton, not_or]
    refine (h.limited x).trans ?_
    by_cases hxv : x = v
    · subst hxv
      simp [hnone]
    · rw [Function.update_of_ne hxv]
      exact ⟨fun hx => ⟨hx.1, hx.2, hxv⟩, fun hx => ⟨hx.1, hx.2.1⟩⟩

theorem Search.Sound.explore {owed' : EntityId → EntityId → Prop}
    (h : s.Sound index roots link limit line owed)
    (hexplored : Explored roots link limit (depthOf s.visits) (originOf s.visits) (names line)
      owed') : s.Sound index roots link limit line owed' :=
  { h with explored := hexplored }

/-- The arcs of a visited entity are looked at. -/
theorem gives_scan (hids : index.ids.Nodup) (hlimit : limit < 2 ^ 32)
    (hdepth : visit.depth.val < limit) {arcs : List Arc}
    (harcs : ∀ a ∈ arcs, ∃ w, index.ids[a.target]? = some w ∧
      link visit.entityId (a.edge, a.revision) w)
    (h : s.Sound index roots link limit ((current, visit) :: s.queue)
      (looking visit.entityId (arcs.map fun a => index.id a.target) (names s.queue))) :
    Gives (scan index current visit arcs s) (fun out => out.Sound index roots link limit
      ((current, visit) :: out.queue) (looking visit.entityId [] (names out.queue)))
      fun _ => True := by
  induction arcs generalizing s with
  | nil => exact .pure h
  | cons a rest ih =>
      obtain ⟨w, hw, hlink⟩ := harcs a (List.mem_cons_self ..)
      have hrest := fun b hb => harcs b (List.mem_cons_of_mem a hb)
      rw [List.map_cons, Index.Projects.id_eq hw] at h
      refine (gives_examine fun _ _ => trivial).bind fun _ _ => ?_
      refine Gives.ite (fun hseen => ?_) fun hseen => ?_
      · refine ih hrest (h.explore (h.explored.skip fun _ => ?_))
        exact depthOf_ne_none.2 ((h.seen _ _ hw).1 hseen)
      · refine (gives_frontier (fun _ _ => trivial) _).bind fun _ _ => ?_
        exact ih hrest (h.discover hids hlimit hdepth hw hlink (by simpa using hseen))

/-- An entity at the depth limit is put on the boundary. -/
theorem Search.Sound.pass (hids : index.ids.Nodup)
    (h : s.Sound index roots link limit ((current, visit) :: queue)
      (waiting (names ((current, visit) :: queue)))) (hdepth : visit.depth.val = limit) :
    ({ s with queue := queue, boundary := s.boundary ++ [current] } : Search).Sound index roots
      link limit queue (waiting (names queue)) := by
  obtain ⟨hvisit, hcurrent⟩ := h.queued (current, visit) (List.mem_cons_self ..)
  have hlast := depthOf_of_mem h.nodup hvisit
  rw [hdepth] at hlast
  refine ⟨h.explored.pass hlast, h.nodup, h.known, h.seen,
    fun entry hentry => h.queued entry (List.mem_cons_of_mem _ hentry), h.recorded, ?_, ?_⟩
  · intro n hn
    rcases List.mem_append.1 hn with hn | hn
    · exact h.numbered n hn
    · rw [List.mem_singleton.1 hn]
      exact ⟨_, hcurrent⟩
  · intro x
    have hnotin : visit.entityId ∉ names queue := (List.nodup_cons.1 h.explored.nodup).1
    have hold := h.limited x
    rw [show names ((current, visit) :: queue) = visit.entityId :: names queue from rfl,
      List.mem_cons, not_or] at hold
    constructor
    · rintro ⟨n, hn, hx⟩
      rcases List.mem_append.1 hn with hn | hn
      · obtain ⟨hlim, -, hnot⟩ := hold.1 ⟨n, hn, hx⟩
        exact ⟨hlim, hnot⟩
      · rw [List.mem_singleton.1 hn, hcurrent] at hx
        cases hx
        exact ⟨hlast, hnotin⟩
    · rintro ⟨hlim, hnot⟩
      by_cases hx : x = visit.entityId
      · exact ⟨current, List.mem_append_right _ (List.mem_singleton_self _), hx ▸ hcurrent⟩
      · obtain ⟨n, hn, hxn⟩ := hold.2 ⟨hlim, hx, hnot⟩
        exact ⟨n, List.mem_append_left _ hn, hxn⟩

theorem Search.Sound.requeue {s' : Search} (h : s.Sound index roots link limit line owed)
    (hvisits : s'.visits = s.visits) (hseen : s'.seen = s.seen)
    (hboundary : s'.boundary = s.boundary) : s'.Sound index roots link limit line owed := by
  obtain ⟨visits, seen, queue, boundary⟩ := s'
  dsimp only at hvisits hseen hboundary
  subst hvisits hseen hboundary
  exact ⟨h.explored, h.nodup, h.known, h.seen, h.queued, h.recorded, h.numbered, h.limited⟩

/-- The arcs of the first visit in the line have been looked at. -/
theorem Search.Sound.leave (h : s.Sound index roots link limit ((current, visit) :: queue)
      (looking visit.entityId [] (names queue)))
    (hdepth : visit.depth.val < limit) :
    s.Sound index roots link limit queue (waiting (names queue)) := by
  obtain ⟨hvisit, -⟩ := h.queued (current, visit) (List.mem_cons_self ..)
  refine ⟨h.explored.leave, h.nodup, h.known, h.seen,
    fun entry hentry => h.queued entry (List.mem_cons_of_mem _ hentry), h.recorded, h.numbered, ?_⟩
  intro x
  refine (h.limited x).trans ?_
  rw [show names ((current, visit) :: queue) = visit.entityId :: names queue from rfl,
    List.mem_cons, not_or]
  refine and_congr_right fun hlast => ⟨fun hx => hx.2, fun hx => ⟨?_, hx⟩⟩
  rintro rfl
  rw [depthOf_of_mem h.nodup hvisit, Option.some.injEq] at hlast
  exact Nat.ne_of_lt hdepth hlast

/-- A search ends with nothing left to look at. -/
theorem gives_search (hproj : index.Projects snapshot kinds budget) {query : GraphTraversalQuery}
    {bound : Nat}
    (h : s.Sound index roots (Relates snapshot kinds query.direction) query.maxDepth.val s.queue
      (waiting (names s.queue))) :
    Gives (search index query bound s) (fun out => out.Sound index roots
      (Relates snapshot kinds query.direction) query.maxDepth.val [] (waiting []))
      fun _ => True := by
  have hids : index.ids.Nodup := hproj.ids ▸ snapshot.graph.entities.keys_nodup
  induction bound generalizing s with
  | zero =>
      rw [search]
      cases hqueue : s.queue with
      | nil =>
          rw [hqueue] at h
          exact .pure h
      | cons entry queue => exact .fails trivial
  | succ bound ih =>
      rw [search]
      cases hqueue : s.queue with
      | nil =>
          rw [hqueue] at h
          exact .pure h
      | cons entry queue =>
          obtain ⟨current, visit⟩ := entry
          rw [hqueue] at h
          obtain ⟨hvisit, hcurrent⟩ := h.queued (current, visit) (List.mem_cons_self ..)
          refine (gives_charge (fun _ _ => trivial) 1).bind fun _ _ => ?_
          refine Gives.ite (fun hlast => ?_) fun hless => ?_
          · exact ih (h.pass hids (congrArg Fin.val hlast))
          · have hle : visit.depth.val ≤ query.maxDepth.val :=
              h.explored.bounded _ _ (depthOf_of_mem h.nodup hvisit)
            have hlt : visit.depth.val < query.maxDepth.val :=
              Nat.lt_of_le_of_ne hle fun heq => hless (Fin.ext heq)
            have hentered := h.explored.enter (by
                show ∀ e v, _ → v ∈ (neighbors index current query.direction).map
                  fun a => index.id a.target
                intro e v hlink
                obtain ⟨a, ha, htarget⟩ := hproj.relates_neighbor hcurrent hlink
                exact List.mem_map.2 ⟨a, ha, Index.Projects.id_eq htarget⟩)
            refine (gives_scan (s := { s with queue := queue }) hids query.maxDepth.isLt hlt
              (fun a ha => hproj.neighbor_relates hcurrent ha)
              ((h.explore hentered).requeue rfl rfl rfl)).bind fun out hout => ?_
            exact ih (hout.leave hlt)

end Steps

/-! ## Planting the roots -/

/-- Only roots have been visited. -/
structure Search.Planted (index : Index) (s : Search) : Prop where
  rooted : ∀ v ∈ s.visits, v.parent = none ∧ v.viaEdge = none ∧ v.viaEdgeRevision = none ∧
    v.depth = 0 ∧ v.root = v.entityId
  nodup : (s.visits.map GraphVisit.entityId).Nodup
  known : ∀ v ∈ s.visits, v.entityId ∈ index.ids
  seen : ∀ n u, index.ids[n]? = some u →
    (s.seen n = true ↔ u ∈ s.visits.map GraphVisit.entityId)
  queued : ∀ entry ∈ s.queue, entry.2 ∈ s.visits ∧ index.ids[entry.1]? = some entry.2.entityId
  line : names s.queue = s.visits.map GraphVisit.entityId
  boundary : s.boundary = []

section Roots

variable {index : Index} {s : Search}

theorem Search.Planted.start (index : Index) : Search.start.Planted index where
  rooted := fun _ h => absurd h List.not_mem_nil
  nodup := List.nodup_nil
  known := fun _ h => absurd h List.not_mem_nil
  seen := by simp [Search.start]
  queued := fun _ h => absurd h List.not_mem_nil
  line := rfl
  boundary := rfl

theorem Search.Planted.discover (hids : index.ids.Nodup) (h : s.Planted index) {root : EntityId}
    {node : Nat} (hnode : index.ids[node]? = some root)
    (hnew : root ∉ s.visits.map GraphVisit.entityId) :
    (s.discover node (rootVisit index root node)).Planted index where
  rooted := by
    intro v hv
    rcases List.mem_append.1 hv with hv | hv
    · exact h.rooted v hv
    · rw [List.mem_singleton.1 hv]
      exact ⟨rfl, rfl, rfl, rfl, rfl⟩
  nodup := by
    show ((s.visits ++ [rootVisit index root node]).map GraphVisit.entityId).Nodup
    rw [List.map_append, List.nodup_append]
    refine ⟨h.nodup, List.nodup_singleton _, fun a ha b hb hab => ?_⟩
    have hroot : b = root := List.mem_singleton.1 hb
    exact hnew (hroot ▸ hab ▸ ha)
  known := by
    intro v hv
    rcases List.mem_append.1 hv with hv | hv
    · exact h.known v hv
    · rw [List.mem_singleton.1 hv]
      exact List.mem_of_getElem? hnode
  seen := by
    intro n x hn
    show Function.update s.seen node true n = true ↔
      x ∈ (s.visits ++ [rootVisit index root node]).map _
    rw [List.map_append, List.mem_append, List.map_singleton, List.mem_singleton]
    by_cases hnt : n = node
    · subst hnt
      rw [Function.update_self]
      exact ⟨fun _ => Or.inr (Option.some.inj (hn.symm.trans hnode)), fun _ => rfl⟩
    · rw [Function.update_of_ne hnt, h.seen n x hn]
      refine ⟨Or.inl, fun hor => hor.resolve_right ?_⟩
      intro heq
      have hsame : index.ids[n]? = index.ids[node]? := by
        rw [hn, hnode]
        exact congrArg some heq
      exact hnt ((List.getElem?_inj (List.getElem?_eq_some_iff.1 hn).1 hids).1 hsame)
  queued := by
    intro entry hentry
    show entry.2 ∈ s.visits ++ [rootVisit index root node] ∧ _
    rcases List.mem_append.1 hentry with hentry | hentry
    · exact ⟨List.mem_append_left _ (h.queued entry hentry).1, (h.queued entry hentry).2⟩
    · rw [List.mem_singleton.1 hentry]
      exact ⟨List.mem_append_right _ (List.mem_singleton_self _), hnode⟩
  line := by
    show names (s.queue ++ [(node, rootVisit index root node)]) =
      (s.visits ++ [rootVisit index root node]).map _
    rw [names_concat, List.map_append, h.line]
    rfl
  boundary := h.boundary

theorem gives_plantRoots (hnum : index.Numbered) (hids : index.ids.Nodup) {roots : List EntityId}
    (h : s.Planted index) (hnodup : (s.visits.map GraphVisit.entityId ++ roots).Nodup) :
    Gives (plantRoots index roots s) (fun out => out.Planted index ∧
      out.visits.map GraphVisit.entityId = s.visits.map GraphVisit.entityId ++ roots)
      fun _ => True := by
  induction roots generalizing s with
  | nil => exact .pure ⟨h, (List.append_nil _).symm⟩
  | cons root rest ih =>
      rw [plantRoots]
      cases hnode : index.ordinals.get? root with
      | none => exact .fails trivial
      | some node =>
          have hnew : root ∉ s.visits.map GraphVisit.entityId := fun hmem =>
            (List.nodup_append.1 hnodup).2.2 root hmem root (List.mem_cons_self ..) rfl
          have hgrown : (s.discover node (rootVisit index root node)).visits.map
              GraphVisit.entityId = s.visits.map GraphVisit.entityId ++ [root] :=
            List.map_append ..
          refine (gives_charge (fun _ _ => trivial) 1).bind fun _ _ => ?_
          refine (gives_frontier (fun _ _ => trivial) _).bind fun _ _ => ?_
          refine (ih (h.discover hids ((hnum.ordinals _ _).1 hnode) hnew) ?_).conseq ?_
            fun _ he => he
          · rw [hgrown]
            simpa using hnodup
          · rintro out ⟨hplanted, hvisits⟩
            exact ⟨hplanted, by rw [hvisits, hgrown, List.append_assoc]; rfl⟩

/-- A search begins with its roots planted. -/
theorem Search.Planted.sound (h : s.Planted index) {roots : EntityId → Prop}
    (hroots : ∀ u, u ∈ s.visits.map GraphVisit.entityId ↔ roots u)
    (link : EntityId → EdgeId × U 64 → EntityId → Prop) (limit : ℕ) :
    s.Sound index roots link limit s.queue (waiting (names s.queue)) := by
  have hdepths : depthOf s.visits = fun u => if u ∈ names s.queue then some 0 else none := by
    funext u
    by_cases hu : u ∈ names s.queue
    · rw [if_pos hu]
      rw [h.line] at hu
      obtain ⟨v, hv, rfl⟩ := List.mem_map.1 hu
      rw [depthOf_of_mem h.nodup hv, (h.rooted v hv).2.2.2.1]
      rfl
    · rw [if_neg hu]
      rw [h.line] at hu
      by_contra hne
      exact hu (depthOf_ne_none.1 hne)
  refine ⟨?_, h.nodup, h.known, h.seen, h.queued, ?_, ?_, ?_⟩
  · rw [hdepths]
    exact .start (fun u => by rw [h.line, hroots u]) (h.line ▸ h.nodup) _
  · intro v hv
    obtain ⟨hparent, hedge, hrev, hdepth, hroot⟩ := h.rooted v hv
    exact Or.inl ⟨hparent, hedge, hrev, hdepth, hroot,
      hroot ▸ (hroots _).1 (List.mem_map_of_mem hv)⟩
  · rw [h.boundary]
    exact fun _ hn => absurd hn List.not_mem_nil
  · intro u
    rw [h.boundary]
    refine ⟨fun ⟨_, hn, _⟩ => absurd hn List.not_mem_nil, ?_⟩
    rintro ⟨hdepth, hnot⟩
    rw [h.line] at hnot
    exact absurd (depthOf_ne_none.1 (by rw [hdepth]; simp)) hnot

end Roots

/-! ## The frontier -/

theorem gives_leavesSeen (seen : Nat → Bool) (arcs : List Arc) :
    Gives (leavesSeen seen arcs)
      (fun leaves => leaves = true ↔ ∃ a ∈ arcs, seen a.target = false) fun _ => True := by
  induction arcs with
  | nil => exact .pure (by simp)
  | cons a rest ih =>
      refine (gives_examine fun _ _ => trivial).bind fun _ _ => ?_
      refine Gives.ite (fun hseen => ?_) fun hseen => ?_
      · refine ih.conseq (fun leaves hleaves => hleaves.trans ?_) fun _ he => he
        simp [hseen]
      · exact .pure (by simp [hseen])

theorem gives_openEnds (index : Index) (direction : GraphDirection) (seen : Nat → Bool)
    (nodes : List Nat) :
    Gives (openEnds index direction seen nodes) (fun ends => ∀ u, u ∈ ends ↔
      ∃ n ∈ nodes, index.id n = u ∧ ∃ a ∈ neighbors index n direction, seen a.target = false)
      fun _ => True := by
  induction nodes with
  | nil => exact .pure (by simp)
  | cons current rest ih =>
      refine (gives_leavesSeen seen _).bind fun leaves hleaves => ?_
      refine ih.bind fun ends hends => .pure fun u => ?_
      rw [List.exists_mem_cons_iff, ← hleaves, ← hends u]
      by_cases hopen : leaves = true
      · rw [if_pos hopen, List.mem_cons, and_iff_left hopen, eq_comm]
      · rw [if_neg hopen]
        exact (or_iff_right fun h => hopen h.2).symm

/-! ## Recorded paths -/

section Paths

variable {roots : EntityId → Prop} {link : EntityId → EdgeId × U 64 → EntityId → Prop}
  {visits : List GraphVisit} {records : BTreeMap EntityId GraphVisit}

/-- Walking back from a visit finds the path it was reached by. -/
theorem climb_recorded (hrecords : ∀ v ∈ visits, records.get? v.entityId = some v)
    (hrecorded : ∀ v ∈ visits, Recorded roots link visits v) {d : ℕ} {v : GraphVisit}
    (hv : v ∈ visits) (hd : v.depth.val = d) {bound : Nat} (hbound : d < bound)
    (vertices : List EntityId) (edges : List (EdgeId × U 64)) :
    ∃ front steps, climb records bound v vertices edges =
        .ok ⟨front ++ vertices, steps ++ edges⟩ ∧
      Walk link v.root front steps v.entityId ∧ steps.length = d ∧ roots v.root := by
  induction d generalizing v bound vertices edges with
  | zero =>
      obtain ⟨b, rfl⟩ := Nat.exists_eq_add_of_lt hbound
      rcases hrecorded v hv with ⟨hparent, hedge, hrev, hzero, hself, hroot⟩ | ⟨p, -, e, r, hstep⟩
      · refine ⟨[v.root], [], ?_, hself ▸ Walk.here, rfl, hroot⟩
        rw [Nat.zero_add, climb, hparent, hedge, hrev]
        dsimp only
        rw [if_pos ⟨hzero, hself⟩, hself]
        rfl
      · obtain ⟨-, -, -, hsum, -, -⟩ := hstep
        omega
  | succ d ih =>
      obtain ⟨b, rfl⟩ := Nat.exists_eq_add_of_lt hbound
      rcases hrecorded v hv with ⟨-, -, -, hzero, -, -⟩ | ⟨p, hp, e, r, hstep⟩
      · rw [hzero] at hd
        cases hd
      · obtain ⟨hparent, hedge, hrev, hsum, hroot, hlink⟩ := hstep
        obtain ⟨front, steps, hclimb, hwalk, hlength, hrooted⟩ := @ih _ hp
          (by omega) (d + 1 + b) (by omega) (v.entityId :: vertices) ((e, r) :: edges)
        refine ⟨front ++ [v.entityId], steps ++ [(e, r)], ?_, hroot ▸ hwalk.step hlink, ?_,
          hroot ▸ hrooted⟩
        · rw [climb, hparent, hedge, hrev]
          dsimp only
          rw [hrecords p hp]
          dsimp only
          have hnext : U.checkedAdd p.depth 1 = some v.depth := U.checkedAdd_eq_some.2 hsum
          rw [if_neg (by simp [hnext, hroot]), hclimb]
          simp
        · rw [List.length_append, hlength]
          rfl

end Paths

/-! ## The whole traversal -/

theorem pairwise_dedup {α : Type} [LinearOrder α] {l : List α} (h : l.Pairwise (· ≤ ·)) :
    (dedup l).Pairwise (· < ·) := by
  fun_induction dedup l with
  | case1 b rest ih => exact ih (List.pairwise_cons.1 h).2
  | case2 a b rest hne ih =>
      obtain ⟨hhead, htail⟩ := List.pairwise_cons.1 h
      refine List.pairwise_cons.2 ⟨fun c hc => ?_, ih htail⟩
      have hab : a < b := lt_of_le_of_ne (hhead b (List.mem_cons_self ..)) hne
      rcases List.mem_cons.1 ((mem_dedup _).1 hc) with rfl | hc
      · exact hab
      · exact lt_of_lt_of_le hab ((List.pairwise_cons.1 htail).1 c hc)
  | case3 l hshort =>
      rcases l with - | ⟨a, - | ⟨b, rest⟩⟩
      · exact List.Pairwise.nil
      · exact List.pairwise_singleton _ a
      · exact absurd rfl (hshort a b rest)

/-- An entity was visited. -/
def GraphTraversal.Visited (t : GraphTraversal) (id : EntityId) : Prop :=
  id ∈ t.visits.map GraphVisit.entityId

/-- What a traversal establishes. -/
structure GraphTraversal.Exact (t : GraphTraversal) (roots : List EntityId)
    (link : EntityId → EdgeId × U 64 → EntityId → Prop) (limit : ℕ) : Prop where
  nodup : (t.visits.map GraphVisit.entityId).Nodup
  distances : ∀ u d, (∃ visit ∈ t.visits, visit.entityId = u ∧ visit.depth.val = d) ↔
    Distance (· ∈ roots) link u d ∧ d ≤ limit
  frontier : ∀ u, u ∈ t.depthFrontier ↔ t.Visited u ∧ ∃ e v, link u e v ∧ ¬ t.Visited v
  path : ∀ visit ∈ t.visits, ∃ path, t.observedPathTo visit.entityId = .ok (some path) ∧
    Walk link visit.root path.vertices path.edges visit.entityId ∧ visit.root ∈ roots ∧
    path.edges.length = visit.depth.val
  unvisited : ∀ u, ¬ t.Visited u → t.observedPathTo u = .ok none

theorem observedPathTo_eq {t : GraphTraversal} (hlength : t.visits.length ≤ maxVertices)
    (hnodup : (t.visits.map GraphVisit.entityId).Nodup) (target : EntityId) :
    t.observedPathTo target =
      match (OMap.ofList (t.visits.map fun visit => (visit.entityId, visit))).get? target with
      | none => .ok none
      | some current =>
          (climb (.ofList (t.visits.map fun visit => (visit.entityId, visit)))
            t.visits.length current [] []).bind fun path => .ok (some path) := by
  have hkeys : ((t.visits.map fun visit => (visit.entityId, visit)).map Prod.fst).Nodup := by
    rw [List.map_map]
    exact hnodup
  unfold GraphTraversal.observedPathTo
  rw [if_neg (Nat.not_lt.2 hlength)]
  dsimp only
  rw [if_neg (by rw [OMap.size_ofList hkeys, List.length_map]; simp)]
  rfl

/-- What is left when the search ends is a traversal. -/
theorem Search.Sound.isExact {index : Index} {snapshot : WorldSnapshot} {query : GraphTraversalQuery}
    {budget : GraphBudget} {s : Search} {ends : List EntityId} {witness : GraphWitness}
    (hproj : index.Projects snapshot query.edgeKinds budget)
    (h : s.Sound index (· ∈ query.roots) (Relates snapshot query.edgeKinds query.direction)
      query.maxDepth.val [] (waiting []))
    (hends : ∀ u, u ∈ ends ↔ ∃ n ∈ s.boundary, index.id n = u ∧
      ∃ a ∈ neighbors index n query.direction, s.seen a.target = false) :
    (GraphTraversal.mk s.visits (sortIds ends) witness).Exact query.roots
      (Relates snapshot query.edgeKinds query.direction) query.maxDepth.val := by
  have hlength : s.visits.length ≤ index.ids.length := by
    have hsub : s.visits.map GraphVisit.entityId ⊆ index.ids := by
      intro u hu
      obtain ⟨v, hv, rfl⟩ := List.mem_map.1 hu
      exact h.known v hv
    simpa using (h.nodup.subperm hsub).length_le
  have hpath := observedPathTo_eq (t := ⟨s.visits, sortIds ends, witness⟩)
    (Nat.le_trans hlength hproj.bounded) h.nodup
  have hkeys : ((s.visits.map fun visit => (visit.entityId, visit)).map Prod.fst).Nodup := by
    rw [List.map_map]
    exact h.nodup
  have hrecords : ∀ v ∈ s.visits, (OMap.ofList
      (s.visits.map fun visit => (visit.entityId, visit))).get? v.entityId = some v :=
    fun v hv => OMap.get?_ofList_of_mem hkeys (List.mem_map_of_mem (f := fun v => (v.entityId, v)) hv)
  refine ⟨h.nodup, ?_, ?_, ?_, ?_⟩
  · intro u d
    rw [← h.explored.distances, depthOf_eq_some h.nodup]
  · intro u
    show u ∈ ends.insertionSort _ ↔ u ∈ s.visits.map _ ∧
      ∃ e v, Relates snapshot query.edgeKinds query.direction u e v ∧ ¬ v ∈ s.visits.map _
    rw [List.mem_insertionSort, hends u]
    constructor
    · rintro ⟨n, hn, rfl, a, ha, hseen⟩
      obtain ⟨u, hu⟩ := h.numbered n hn
      obtain ⟨v, hv, hlink⟩ := hproj.neighbor_relates hu ha
      rw [Index.Projects.id_eq hu]
      refine ⟨depthOf_ne_none.1 ?_, _, v, hlink, fun hmem => ?_⟩
      · rw [((h.limited u).1 ⟨n, hn, hu⟩).1]
        simp
      · rw [(h.seen _ _ hv).2 hmem] at hseen
        cases hseen
    · rintro ⟨hvisited, e, v, hlink, hout⟩
      have hdepth : depthOf s.visits u = some query.maxDepth.val := by
        cases hd : depthOf s.visits u with
        | none => exact absurd hd (depthOf_ne_none.2 hvisited)
        | some d =>
            refine congrArg some (Nat.le_antisymm (h.explored.bounded u d hd) ?_)
            by_contra hlt
            obtain ⟨b, -, hb⟩ := h.explored.closed u d e v hd (Nat.lt_of_not_le hlt) hlink
              (by simp [waiting])
            exact hout (depthOf_ne_none.1 (by rw [hb]; simp))
      obtain ⟨n, hn, hu⟩ := (h.limited u).2 ⟨hdepth, by simp [names]⟩
      obtain ⟨a, ha, htarget⟩ := hproj.relates_neighbor hu hlink
      refine ⟨n, hn, Index.Projects.id_eq hu, a, ha, ?_⟩
      rw [Bool.eq_false_iff]
      exact fun hseen => hout ((h.seen _ _ htarget).1 hseen)
  · intro visit hvisit
    have hshort : visit.depth.val < s.visits.length := by
      have hlt := h.explored.depth_lt
        (fun w hw => (depthOf_ne_none.1 hw : w ∈ s.visits.map GraphVisit.entityId)) (depthOf_of_mem h.nodup hvisit)
      rwa [List.length_map] at hlt
    obtain ⟨vertices, edges, hclimb, hwalk, hsteps, hroot⟩ :=
      climb_recorded hrecords h.recorded hvisit rfl hshort [] []
    refine ⟨⟨vertices ++ [], edges ++ []⟩, ?_, ?_, hroot, ?_⟩
    · rw [hpath, hrecords visit hvisit]
      dsimp only
      rw [hclimb]
      rfl
    · rw [List.append_nil, List.append_nil]
      exact hwalk
    · show (edges ++ []).length = _
      rw [List.append_nil, hsteps]
  · intro u hu
    have hnone : (OMap.ofList (s.visits.map fun visit => (visit.entityId, visit))).get? u =
        none := by
      rw [← OMap.contains_eq_false_iff, Bool.eq_false_iff, Ne, OMap.contains_ofList, List.map_map]
      exact hu
    rw [hpath, hnone]

/-- **A traversal visits exactly the entities within the depth limit, at their distance; its
frontier is where a neighbour remains; and a path of that length is recorded for each visit.** -/
theorem traversal_exact (snapshot : WorldSnapshot) (scope : Digest32) (query : GraphTraversalQuery)
    (budget : GraphBudget) (t : GraphTraversal)
    (h : traverseGraph snapshot scope query budget = .ok t) :
    t.Exact query.roots (Relates snapshot query.edgeKinds query.direction) query.maxDepth.val := by
  have hgives : Gives (traverse snapshot scope query budget) (fun t => t.Exact query.roots
      (Relates snapshot query.edgeKinds query.direction) query.maxDepth.val) fun _ => True := by
    refine (Gives.rejectIf fun _ => trivial).bind fun _ _ => ?_
    refine (Index.build_projects snapshot query.edgeKinds budget).bind fun index hproj => ?_
    have hids : index.ids.Nodup := hproj.ids ▸ snapshot.graph.entities.keys_nodup
    have hroots : (dedup (sortIds query.roots)).Nodup :=
      (pairwise_dedup (List.pairwise_insertionSort _ _)).imp ne_of_lt
    refine (gives_plantRoots hproj.numbered hids (.start index) hroots).bind fun s hs => ?_
    obtain ⟨hplanted, hvisits⟩ := hs
    have hmem : ∀ u, u ∈ s.visits.map GraphVisit.entityId ↔ u ∈ query.roots := by
      intro u
      rw [hvisits]
      show u ∈ dedup _ ↔ _
      rw [mem_dedup, sortIds, List.mem_insertionSort]
    refine (gives_search hproj (hplanted.sound hmem _ _)).bind fun out hout => ?_
    refine (gives_openEnds index query.direction out.seen out.boundary).bind fun ends hends => ?_
    exact (gives_witness _ _ _ _).bind fun _ _ => .pure (hout.isExact hproj hends)
  have hexec : exec (traverse snapshot scope query budget) ⟨budget, 0, 0⟩ =
      (.ok t, (exec (traverse snapshot scope query budget) ⟨budget, 0, 0⟩).2) :=
    Prod.ext h rfl
  exact hgives.ok hexec

namespace Sample

def comrades : GraphTraversalQuery := ⟨[1], [], .undirected, 2⟩

theorem comrades_traversed : ∃ t, traverseGraph squad .zero comrades budget = .ok t ∧
    t.visits.map (fun v => (v.entityId, v.depth)) = [(1, 0), (2, 1), (3, 2)] ∧
    t.depthFrontier = [3] := by
  have hrun : (traverseGraph squad .zero comrades budget).toOption.map
      (fun t => (t.visits.map (fun v => (v.entityId, v.depth)), t.depthFrontier)) =
        some ([(1, 0), (2, 1), (3, 2)], [3]) := by
    rw [traverseGraph, traverse, Index.build, rejectIf_of_not squad_hash]
    decide +kernel
  cases hout : traverseGraph squad .zero comrades budget with
  | error e =>
      rw [hout] at hrun
      cases hrun
  | ok t =>
      rw [hout] at hrun
      exact ⟨t, rfl, Prod.mk.inj (Option.some.inj hrun)⟩

end Sample

theorem traversal_exact_squad : ∃ t,
    traverseGraph Sample.squad .zero Sample.comrades Sample.budget = .ok t ∧
      t.Exact [1] (Relates Sample.squad [] .undirected) 2 := by
  obtain ⟨t, h, -⟩ := Sample.comrades_traversed
  exact ⟨t, h, traversal_exact _ _ _ _ t h⟩

end GraphQuery

end Dfmcp
