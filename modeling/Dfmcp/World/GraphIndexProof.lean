import Dfmcp.World.GraphQuery
import Dfmcp.Library.Layers

/-!
# The index of a graph query

The index that a query searches is the graph of the snapshot: its vertices are numbered as the
entities are ordered, and an arc between two numbers is a selected edge between their entities.

* `Links` — the selected edges of a snapshot, as a relation on identifiers;
* `Index.build_projects` — every index that is built `Projects` its snapshot;
* `gives_charge`, `gives_examine`, `gives_frontier`, `gives_witness` — work that is paid for.
-/

namespace Dfmcp

open Machine Method

namespace GraphQuery

/-! ## Paying for work -/

section Paying

variable {E : DfmcpError → Prop}

/-- Errors that come from a budget alone. -/
def OverBudget (e : DfmcpError) : Prop := e.code = .budgetExceeded

theorem gives_state {Q : Meter → Prop} (h : ∀ m, Q m) : Gives (get : Analysis Meter) Q E :=
  Meets.get fun m _ => h m

theorem gives_set (m : Meter) : Gives (set m : Analysis PUnit) (fun _ => True) E :=
  Meets.set fun _ _ => trivial

theorem gives_charge (hE : ∀ e, OverBudget e → E e) (units : Nat) :
    Gives (charge units) (fun _ => True) E := by
  refine (gives_state (Q := fun _ => True) fun _ => trivial).bind fun meter _ => ?_
  refine (Gives.rejectIf fun _ => hE (budgetError _) rfl).bind fun _ _ => ?_
  refine (gives_set _).bind fun _ _ => ?_
  exact (Gives.rejectIf fun _ => hE (budgetError _) rfl).conseq (fun _ _ => trivial) fun _ he => he

theorem gives_examine (hE : ∀ e, OverBudget e → E e) : Gives examine (fun _ => True) E :=
  (gives_charge hE 1).bind fun _ _ => fun _ _ => trivial

theorem gives_frontier (hE : ∀ e, OverBudget e → E e) (size : Nat) :
    Gives (frontier size) (fun _ => True) E := by
  refine (gives_state (Q := fun _ => True) fun _ => trivial).bind fun meter _ => ?_
  exact (Gives.rejectIf fun _ => hE (budgetError _) rfl).conseq (fun _ _ => trivial) fun _ he => he

theorem gives_witness (index : Index) (snapshot : WorldSnapshot) (scope : Digest32)
    (decisions : Bytes) :
    Gives (index.witness snapshot scope decisions) (fun _ => True) E :=
  (gives_state (Q := fun _ => True) fun _ => trivial).bind fun _ _ => .pure trivial

end Paying

theorem rejectIf_of_not {ε σ : Type} {bad : Prop} [Decidable bad] {e : ε} (h : ¬ bad) :
    (rejectIf bad e : Method ε σ PUnit) = pure ⟨⟩ := if_neg h

/-! ## The graph of a snapshot -/

/-- A selected edge leads from one entity to another. -/
def Links (snapshot : WorldSnapshot) (kinds : List EdgeKind) (u : EntityId) (e : EdgeId × U 64)
    (v : EntityId) : Prop :=
  ∃ record, snapshot.graph.edges.get? e.1 = some record ∧ Index.selects kinds record.kind ∧
    record.fromId = u ∧ record.toId = v ∧ record.revision = e.2

namespace Index

/-- Vertices are numbered in order, and every one has a list of arcs out and in. -/
structure Numbered (index : Index) : Prop where
  ordinals : ∀ id n, index.ordinals.get? id = some n ↔ index.ids[n]? = some id
  outgoing : index.outgoing.length = index.ids.length
  incoming : index.incoming.length = index.ids.length

/-- The arcs out of and into every vertex are those of the edges that were added. -/
structure Holds (index : Index) (added : EdgeId → EdgeRecord → Prop) : Prop where
  outgoing : ∀ n a, a ∈ index.arcsFrom n ↔ ∃ record, added a.edge record ∧
    index.ids[n]? = some record.fromId ∧ index.ids[a.target]? = some record.toId ∧
    record.revision = a.revision
  incoming : ∀ n a, a ∈ index.arcsInto n ↔ ∃ record, added a.edge record ∧
    index.ids[n]? = some record.toId ∧ index.ids[a.target]? = some record.fromId ∧
    record.revision = a.revision
  endpoints : ∀ e record, added e record → record.fromId ∈ index.ids ∧ record.toId ∈ index.ids

/-- The index is the graph of the snapshot. -/
structure Projects (index : Index) (snapshot : WorldSnapshot) (kinds : List EdgeKind)
    (budget : GraphBudget) : Prop where
  ids : index.ids = snapshot.graph.entities.keys
  numbered : index.Numbered
  holds : index.Holds fun e record =>
    snapshot.graph.edges.get? e = some record ∧ selects kinds record.kind
  bounded : index.ids.length ≤ maxVertices

theorem mem_selectKinds (kinds : List EdgeKind) (kind : EdgeKind) :
    kind ∈ selectKinds kinds ↔ kind ∈ kinds := by
  rw [selectKinds, mem_dedup, List.mem_insertionSort]

theorem selects_selectKinds (kinds : List EdgeKind) (kind : EdgeKind) :
    selects (selectKinds kinds) kind ↔ selects kinds kind := by
  have hnil : selectKinds kinds = [] ↔ kinds = [] := by
    simp only [List.eq_nil_iff_forall_not_mem, mem_selectKinds]
  rw [selects, selects, hnil, mem_selectKinds]

section Building

variable {index : Index} {added : EdgeId → EdgeRecord → Prop} {E : DfmcpError → Prop}

theorem Numbered.empty : Index.empty.Numbered where
  ordinals := by
    intro id n
    simp [Index.empty]
  outgoing := rfl
  incoming := rfl

theorem Holds.empty : Index.empty.Holds fun _ _ => False where
  outgoing := by
    intro n a
    simp [arcsFrom, Index.empty]
  incoming := by
    intro n a
    simp [arcsInto, Index.empty]
  endpoints := fun _ _ h => h.elim

theorem Numbered.addVertex (h : index.Numbered) {id : EntityId} (hid : id ∉ index.ids)
    (entity : EntityRecord) : (index.addVertex id entity).Numbered where
  ordinals := by
    intro q n
    show (index.ordinals.insert id index.ids.length).get? q = some n ↔
      (index.ids ++ [id])[n]? = some q
    rw [OMap.get?_insert]
    by_cases hq : q = id
    · subst hq
      rw [if_pos rfl, Option.some.injEq]
      constructor
      · rintro rfl
        exact List.getElem?_concat_length
      · intro hn
        rcases Nat.lt_trichotomy n index.ids.length with hlt | heq | hgt
        · rw [List.getElem?_append_left hlt] at hn
          exact absurd (List.mem_of_getElem? hn) hid
        · exact heq.symm
        · rw [List.getElem?_eq_none (by simp; omega)] at hn
          cases hn
    · rw [if_neg hq, h.ordinals q n]
      constructor
      · intro hn
        rw [List.getElem?_append_left (List.getElem?_eq_some_iff.1 hn).1]
        exact hn
      · intro hn
        by_cases hlt : n < index.ids.length
        · rwa [List.getElem?_append_left hlt] at hn
        · rw [List.getElem?_append_right (Nat.le_of_not_lt hlt)] at hn
          have hmem := List.mem_singleton.1 (List.mem_of_getElem? hn)
          exact absurd hmem hq
  outgoing := by simp [Index.addVertex, h.outgoing]
  incoming := by simp [Index.addVertex, h.incoming]

theorem getD_concat_nil {α : Type} (l : List (List α)) (n : Nat) :
    (l ++ [[]]).getD n [] = l.getD n [] := by
  rw [List.getD_eq_getElem?_getD, List.getD_eq_getElem?_getD]
  rcases Nat.lt_trichotomy n l.length with hlt | rfl | hgt
  · rw [List.getElem?_append_left hlt]
  · simp
  · rw [List.getElem?_eq_none (by simp; omega), List.getElem?_eq_none (by omega)]

theorem Holds.addVertex (h : index.Holds fun _ _ => False) (id : EntityId)
    (entity : EntityRecord) : (index.addVertex id entity).Holds fun _ _ => False where
  outgoing := by
    intro n a
    show a ∈ (index.outgoing ++ [[]]).getD n [] ↔ _
    rw [getD_concat_nil, ← arcsFrom, h.outgoing n a]
    simp
  incoming := by
    intro n a
    show a ∈ (index.incoming ++ [[]]).getD n [] ↔ _
    rw [getD_concat_nil, ← arcsInto, h.incoming n a]
    simp
  endpoints := fun _ _ h => h.elim

theorem gives_addVertices {entries : List (EntityId × EntityRecord)} (h : index.Numbered)
    (hholds : index.Holds fun _ _ => False)
    (hnodup : (index.ids ++ entries.map Prod.fst).Nodup) :
    Gives (addVertices entries index) (fun out => out.ids = index.ids ++ entries.map Prod.fst ∧
      out.Numbered ∧ out.Holds fun _ _ => False) fun _ => True := by
  induction entries generalizing index with
  | nil => exact .pure ⟨by simp, h, hholds⟩
  | cons entry rest ih =>
      obtain ⟨id, entity⟩ := entry
      have hid : id ∉ index.ids := by
        intro hmem
        exact (List.nodup_append.1 hnodup).2.2 id hmem id (by simp) rfl
      refine (gives_charge (fun _ _ => trivial) 1).bind fun _ _ => ?_
      refine (Gives.rejectIf fun _ => trivial).bind fun _ _ => ?_
      refine (ih (h.addVertex hid entity) (hholds.addVertex id entity) ?_).conseq ?_ fun _ he => he
      · simpa [Index.addVertex] using hnodup
      · rintro out ⟨hids, hout⟩
        exact ⟨by simp [hids, Index.addVertex], hout⟩

theorem Numbered.connect (h : index.Numbered) (source target : Nat) (edge : EdgeId)
    (revision : U 64) : (index.scanned.connect source target edge revision).Numbered :=
  ⟨h.ordinals, by simp [Index.connect, scanned, h.outgoing],
    by simp [Index.connect, scanned, h.incoming]⟩

theorem mem_getD_modify {α : Type} {l : List (List α)} {k n : Nat} {x a : α} (hk : k < l.length) :
    a ∈ (l.modify k (· ++ [x])).getD n [] ↔ a ∈ l.getD n [] ∨ n = k ∧ a = x := by
  rw [List.getD_eq_getElem?_getD, List.getD_eq_getElem?_getD, List.getElem?_modify]
  by_cases hn : k = n
  · subst hn
    simp [List.getElem?_eq_getElem hk]
  · cases hl : l[n]? with
    | none => simp [Ne.symm hn]
    | some row => simp [hn, Ne.symm hn]

theorem Holds.connect (h : index.Holds added) (hnum : index.Numbered) {source target : Nat}
    {edge : EdgeId} {record : EdgeRecord} (hsource : index.ids[source]? = some record.fromId)
    (htarget : index.ids[target]? = some record.toId) :
    (index.scanned.connect source target edge record.revision).Holds fun e r =>
      added e r ∨ e = edge ∧ r = record where
  outgoing := by
    intro n a
    have hlt : source < index.outgoing.length :=
      hnum.outgoing ▸ (List.getElem?_eq_some_iff.1 hsource).1
    have hinj : index.ids[n]? = some record.fromId ↔ n = source := by
      rw [← hnum.ordinals, (hnum.ordinals _ _).2 hsource]
      exact ⟨fun h => (Option.some.inj h).symm, fun h => h ▸ rfl⟩
    have hinj' : index.ids[a.target]? = some record.toId ↔ a.target = target := by
      rw [← hnum.ordinals, (hnum.ordinals _ _).2 htarget]
      exact ⟨fun h => (Option.some.inj h).symm, fun h => h ▸ rfl⟩
    show a ∈ (index.outgoing.modify source _).getD n [] ↔ _
    rw [mem_getD_modify hlt, ← arcsFrom, h.outgoing n a]
    constructor
    · rintro (⟨r, hr, hrest⟩ | ⟨rfl, rfl⟩)
      · exact ⟨r, Or.inl hr, hrest⟩
      · exact ⟨record, Or.inr ⟨rfl, rfl⟩, hsource, htarget, rfl⟩
    · rintro ⟨r, hr | ⟨hedge, rfl⟩, hn, ht, hrev⟩
      · exact Or.inl ⟨r, hr, hn, ht, hrev⟩
      · refine Or.inr ⟨hinj.1 hn, ?_⟩
        obtain ⟨t, e, v⟩ := a
        simp only [Arc.mk.injEq]
        exact ⟨hinj'.1 ht, hedge, hrev.symm⟩
  incoming := by
    intro n a
    have hlt : target < index.incoming.length :=
      hnum.incoming ▸ (List.getElem?_eq_some_iff.1 htarget).1
    have hinj : index.ids[n]? = some record.toId ↔ n = target := by
      rw [← hnum.ordinals, (hnum.ordinals _ _).2 htarget]
      exact ⟨fun h => (Option.some.inj h).symm, fun h => h ▸ rfl⟩
    have hinj' : index.ids[a.target]? = some record.fromId ↔ a.target = source := by
      rw [← hnum.ordinals, (hnum.ordinals _ _).2 hsource]
      exact ⟨fun h => (Option.some.inj h).symm, fun h => h ▸ rfl⟩
    show a ∈ (index.incoming.modify target _).getD n [] ↔ _
    rw [mem_getD_modify hlt, ← arcsInto, h.incoming n a]
    constructor
    · rintro (⟨r, hr, hrest⟩ | ⟨rfl, rfl⟩)
      · exact ⟨r, Or.inl hr, hrest⟩
      · exact ⟨record, Or.inr ⟨rfl, rfl⟩, htarget, hsource, rfl⟩
    · rintro ⟨r, hr | ⟨hedge, rfl⟩, hn, ht, hrev⟩
      · exact Or.inl ⟨r, hr, hn, ht, hrev⟩
      · refine Or.inr ⟨hinj.1 hn, ?_⟩
        obtain ⟨t, e, v⟩ := a
        simp only [Arc.mk.injEq]
        exact ⟨hinj'.1 ht, hedge, hrev.symm⟩
  endpoints := by
    rintro e r (hr | ⟨-, rfl⟩)
    · exact h.endpoints e r hr
    · exact ⟨List.mem_of_getElem? hsource, List.mem_of_getElem? htarget⟩

theorem Holds.congr {added' : EdgeId → EdgeRecord → Prop} (h : index.Holds added)
    (hadded : ∀ e r, added e r ↔ added' e r) : index.Holds added' := by
  have heq : added = added' := funext fun e => funext fun r => propext (hadded e r)
  rwa [← heq]

theorem gives_addEdges {selected : List EdgeKind} {entries : List (EdgeId × EdgeRecord)}
    (hnum : index.Numbered) (h : index.Holds added) :
    Gives (addEdges selected entries index) (fun out => out.ids = index.ids ∧ out.Numbered ∧
      out.Holds fun e r => added e r ∨ (e, r) ∈ entries ∧ selects selected r.kind)
      fun _ => True := by
  induction entries generalizing index added with
  | nil => exact .pure ⟨rfl, hnum, h.congr fun e r => by simp⟩
  | cons entry rest ih =>
      obtain ⟨id, edge⟩ := entry
      refine (gives_charge (fun _ _ => trivial) 1).bind fun _ _ => ?_
      refine Gives.ite (fun hskip => ?_) fun hselect => ?_
      · have hscanned : index.scanned.Holds added := ⟨h.outgoing, h.incoming, h.endpoints⟩
        have hnumbered : index.scanned.Numbered := ⟨hnum.ordinals, hnum.outgoing, hnum.incoming⟩
        refine (ih hnumbered hscanned).conseq ?_ fun _ he => he
        rintro out ⟨hids, hout, hholds⟩
        refine ⟨hids, hout, hholds.congr fun e r => ?_⟩
        refine or_congr_right ⟨fun hr => ⟨List.mem_cons_of_mem _ hr.1, hr.2⟩, ?_⟩
        rintro ⟨hmem, hkind⟩
        rcases List.mem_cons.1 hmem with heq | hmem
        · cases heq
          exact absurd hkind hskip
        · exact ⟨hmem, hkind⟩
      · refine (Gives.rejectIf fun _ => trivial).bind fun _ _ => ?_
        refine (Gives.rejectIf fun _ => trivial).bind fun _ _ => ?_
        cases hsource : index.ordinals.get? edge.fromId with
        | none => exact .fails trivial
        | some source =>
            cases htarget : index.ordinals.get? edge.toId with
            | none => exact .fails trivial
            | some target =>
                have hconnected := @Index.Holds.connect _ _ h hnum _ _ id _
                  ((hnum.ordinals _ _).1 hsource)
                  ((hnum.ordinals _ _).1 htarget)
                refine (ih (hnum.connect source target id edge.revision) hconnected).conseq ?_
                  fun _ he => he
                rintro out ⟨hids, hout, hholds⟩
                refine ⟨hids, hout, hholds.congr fun e r => ?_⟩
                rw [List.mem_cons, Prod.mk.injEq, or_assoc]
                refine or_congr_right ⟨?_, ?_⟩
                · rintro (⟨rfl, rfl⟩ | ⟨hmem, hkind⟩)
                  · exact ⟨Or.inl ⟨rfl, rfl⟩, not_not.1 hselect⟩
                  · exact ⟨Or.inr hmem, hkind⟩
                · rintro ⟨⟨rfl, rfl⟩ | hmem, hkind⟩
                  · exact Or.inl ⟨rfl, rfl⟩
                  · exact Or.inr ⟨hmem, hkind⟩

theorem mem_getD_map_sortArcs (l : List (List Arc)) (n : Nat) (a : Arc) :
    a ∈ (l.map sortArcs).getD n [] ↔ a ∈ l.getD n [] := by
  rw [List.getD_eq_getElem?_getD, List.getD_eq_getElem?_getD, List.getElem?_map]
  cases l[n]? with
  | none => rfl
  | some row => exact List.mem_insertionSort _

theorem Holds.finish (h : index.Holds added) (digest : Digest32) :
    (index.finish digest).Holds added where
  outgoing := fun n a => (mem_getD_map_sortArcs index.outgoing n a).trans (h.outgoing n a)
  incoming := fun n a => (mem_getD_map_sortArcs index.incoming n a).trans (h.incoming n a)
  endpoints := h.endpoints

/-- **An index that is built is the graph of the snapshot.** -/
theorem build_projects (snapshot : WorldSnapshot) (kinds : List EdgeKind) (budget : GraphBudget) :
    Gives (build snapshot kinds budget) (fun index => index.Projects snapshot kinds budget)
      fun _ => True := by
  have hbudget : Gives (of budget.validate : Analysis Unit)
      (fun _ => budget.maxVertices ≤ maxVertices) fun _ => True := by
    refine .of (fun _ hok => ?_) fun _ _ => trivial
    unfold GraphBudget.validate at hok
    split_ifs at hok with hbad
    omega
  refine hbudget.bind fun _ hmax => ?_
  refine (Gives.rejectIf fun _ => trivial).bind fun _ hsize => ?_
  refine (Gives.rejectIf fun _ => trivial).bind fun _ _ => ?_
  refine (gives_addVertices Numbered.empty Holds.empty ?_).bind fun vertices hvertices => ?_
  · exact snapshot.graph.entities.keys_nodup
  · obtain ⟨hids, hnum, hholds⟩ := hvertices
    refine (gives_addEdges hnum hholds).bind fun index hindex => ?_
    obtain ⟨hsame, hnumbered, hedges⟩ := hindex
    have hkeys : index.ids = snapshot.graph.entities.keys := hsame.trans hids
    refine .pure ⟨hkeys, ⟨hnumbered.ordinals, ?_, ?_⟩, ?_, ?_⟩
    · simp [Index.finish, hnumbered.outgoing]
    · simp [Index.finish, hnumbered.incoming]
    · refine (hedges.finish _).congr fun e r => ?_
      rw [false_or, OMap.mem_toList_iff, selects_selectKinds]
    · have hlength : index.ids.length = snapshot.graph.entities.size := by
        rw [hkeys, OMap.length_keys]
      show index.ids.length ≤ _
      omega

end Building

end Index

namespace Sample

open Dfmcp.Sample

/-- Four entities in a row, and an edge from the first and the third to the second. -/
def squad : WorldSnapshot := snapshot 0
  { entities [entity 1 0, entity 2 0, entity 3 0, entity 4 0] with
    edges := .ofList [(1, edge 1 1 2), (2, edge 2 3 2), (3, edge 3 3 4)] }

def budget : GraphBudget := ⟨10, 10, 10, 100⟩

theorem squad_hash : ¬ squad.hashIsValid = false := by
  rw [squad, snapshot_hashIsValid]
  exact Bool.noConfusion

end Sample

end GraphQuery

end Dfmcp
