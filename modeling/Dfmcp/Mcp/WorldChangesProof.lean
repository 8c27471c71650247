import Dfmcp.Mcp.WorldChanges
import Dfmcp.World.TerrainWriteProof

/-!
# What a description of changes accounts for

The loops of the description over the keys of both sides list the first changes and count the others
(`listAll_eq`), so that a domain accounts for as many changes as there are keys at which its records
differ: entities (`isSome_entityChange`), relations with the generations of their ends, and events. A
record counts as it is spelled, with the name of its kind.

Terrain is compared tile by tile. The loop over the chunks is a fold over notes, one for each tile that
differs and one for each chunk that cannot be compared (`levelChanges_eq`); what a level ends with is
what its own notes make of it (`get?_notes`).
-/

namespace Dfmcp

open Machine

namespace WorldChanges

/-! ## Loops over both sides -/

section Loops

variable {K V α : Type} [LinearOrder K]

theorem mem_bothKeys (before after : BTreeMap K V) (k : K) :
    k ∈ bothKeys before after ↔ before.contains k = true ∨ after.contains k = true := by
  rw [bothKeys, OMap.mem_keys_iff, OMap.contains_ofList, List.map_map, List.mem_map]
  constructor
  · rintro ⟨q, hq, rfl⟩
    rcases List.mem_append.1 hq with hq | hq
    · exact .inl ((OMap.mem_keys_iff before q).1 hq)
    · exact .inr ((OMap.mem_keys_iff after q).1 hq)
  · intro h
    refine ⟨k, List.mem_append.2 ?_, rfl⟩
    exact h.imp (OMap.mem_keys_iff before k).2 (OMap.mem_keys_iff after k).2

theorem bothKeys_nodup (before after : BTreeMap K V) : (bothKeys before after).Nodup :=
  OMap.keys_nodup _

/-- A key at which the maps differ is a key of either. -/
theorem mem_bothKeys_of_ne {before after : BTreeMap K V} {k : K}
    (h : before.get? k ≠ after.get? k) : k ∈ bothKeys before after := by
  rw [mem_bothKeys, OMap.contains, OMap.contains]
  by_contra hno
  rw [not_or, Bool.not_eq_true, Bool.not_eq_true, Option.isSome_eq_false_iff,
    Option.isSome_eq_false_iff, Option.isNone_iff_eq_none, Option.isNone_iff_eq_none] at hno
  exact h (hno.1.trans hno.2.symm)

omit [LinearOrder K] in
/-- The loop lists the first changes and counts the others. -/
theorem foldl_list (cap : Nat) (change : K → Option α) (keys : List K) (found : List α) :
    keys.foldl (list cap change) (found.take cap, found.length - cap) =
      ((found ++ keys.filterMap change).take cap,
        (found ++ keys.filterMap change).length - cap) := by
  induction keys generalizing found with
  | nil => rw [List.filterMap_nil, List.append_nil, List.foldl_nil]
  | cons k keys ih =>
      rw [List.foldl_cons]
      cases hk : change k with
      | none =>
          rw [List.filterMap_cons_none hk, list, hk]
          exact ih found
      | some c =>
          have hstep : list cap change (found.take cap, found.length - cap) k =
              ((found ++ [c]).take cap, (found ++ [c]).length - cap) := by
            rw [list, hk]
            simp only [List.length_take, List.length_append, List.length_singleton]
            by_cases hroom : found.length < cap
            · rw [if_pos (by omega), List.take_of_length_le (by omega),
                List.take_of_length_le (by rw [List.length_append, List.length_singleton]; omega)]
              exact congrArg _ (by omega)
            · rw [if_neg (by omega), List.take_append_of_le_length (by omega)]
              exact congrArg _ (by omega)
          rw [hstep, ih (found ++ [c]), List.filterMap_cons_some hk, List.append_assoc]
          rfl

omit [LinearOrder K] in
theorem listAll_eq (cap : Nat) (change : K → Option α) (keys : List K) :
    listAll cap change keys =
      ((keys.filterMap change).take cap, (keys.filterMap change).length - cap) := by
  have h := foldl_list cap change keys []
  rwa [List.take_nil, List.length_nil, Nat.zero_sub, List.nil_append] at h

end Loops

/-! ## Fields -/

section FieldLoop

variable {α : Type} [DecidableEq α]

theorem changed_foldl (before after : BTreeMap String α) (names : List String) (fields : Fields α) :
    (names.foldl (listField before after) fields).changed =
      fields.changed + names.countP fun name => before.get? name ≠ after.get? name := by
  induction names generalizing fields with
  | nil => rfl
  | cons name names ih =>
      rw [List.foldl_cons, ih, List.countP_cons]
      by_cases hsame : before.get? name = after.get? name
      · rw [listField, if_pos hsame, if_neg (by simpa using hsame), Nat.add_zero]
      · have hchanged : (listField before after fields name).changed = fields.changed + 1 := by
          rw [listField, if_neg hsame]
          split <;> rfl
        rw [hchanged, if_pos (by simpa using hsame)]
        omega

/-- No field is reported exactly when the fields are the same. -/
theorem changed_eq_zero_iff (before after : BTreeMap String α) :
    (fieldChanges before after).changed = 0 ↔ before = after := by
  rw [fieldChanges, changed_foldl, Nat.zero_add, List.countP_eq_zero]
  constructor
  · intro h
    refine OMap.ext_get? fun name => ?_
    by_contra hne
    exact h name (mem_bothKeys_of_ne hne) (by simpa using hne)
  · rintro rfl name _
    simp

end FieldLoop

/-! ## Records as they are spelled -/

/-- Everything an entity's record says, with the name of its kind. -/
def entityReading (e : EntityRecord) :
    EntityId × U 32 × U 64 × String × String × BTreeMap String Fact :=
  (e.id, e.generation, e.revision, e.kind.asStr, e.label, e.fields)

def edgeReading (e : EdgeRecord) :
    EdgeId × U 64 × String × EntityId × EntityId × BTreeMap String Fact :=
  (e.id, e.revision, e.kind.asStr, e.fromId, e.toId, e.fields)

def eventReading (e : WorldEvent) :
    EventId × GameTick × String × Option EntityId × String × BTreeMap String Value :=
  (e.id, e.tick, e.kind.asStr, e.subject, e.summary, e.fields)

/-- The generations of the ends of an edge. -/
def endGenerations (s : WorldSnapshot) (e : EdgeRecord) : Option (U 32) × Option (U 32) :=
  ((s.graph.entities.get? e.fromId).map (·.generation),
    (s.graph.entities.get? e.toId).map (·.generation))

def entityDiffers (base target : WorldSnapshot) (id : EntityId) : Prop :=
  (base.graph.entities.get? id).map entityReading ≠ (target.graph.entities.get? id).map entityReading

/-- The records of a relation differ, or the generations of its ends. -/
def relationDiffers (base target : WorldSnapshot) (id : EdgeId) : Prop :=
  (base.graph.edges.get? id).map edgeReading ≠ (target.graph.edges.get? id).map edgeReading ∨
    (base.graph.edges.get? id).map (endGenerations base) ≠
      (target.graph.edges.get? id).map (endGenerations target)

def eventDiffers (base target : WorldSnapshot) (id : EventId) : Prop :=
  (base.graph.events.get? id).map eventReading ≠ (target.graph.events.get? id).map eventReading

def chunkDiffers (base target : WorldSnapshot) (coord : ChunkCoord) : Prop :=
  base.graph.chunks.get? coord ≠ target.graph.chunks.get? coord

theorem entityReading_eq_iff (a b : EntityRecord) :
    entityReading a = entityReading b ↔ entitySubject a = entitySubject b ∧ a.fields = b.fields := by
  simp only [entityReading, entitySubject, Prod.mk.injEq, EntitySubject.mk.injEq]
  tauto

theorem edgeReading_eq_iff (s t : WorldSnapshot) (a b : EdgeRecord) :
    edgeReading a = edgeReading b ∧ endGenerations s a = endGenerations t b ↔
      relationSubject s a = relationSubject t b ∧ a.fields = b.fields := by
  simp only [edgeReading, endGenerations, relationSubject, Prod.mk.injEq, RelationSubject.mk.injEq]
  tauto

theorem eventReading_eq_iff (a b : WorldEvent) :
    eventReading a = eventReading b ↔ eventSubject a = eventSubject b ∧ a.fields = b.fields := by
  simp only [eventReading, eventSubject, Prod.mk.injEq, EventSubject.mk.injEq]
  tauto

theorem isSome_entityChange (base target : WorldSnapshot) (id : EntityId) :
    (entityChange base target id).isSome = true ↔ entityDiffers base target id := by
  unfold entityChange entityDiffers
  cases base.graph.entities.get? id with
  | none => cases target.graph.entities.get? id <;> simp
  | some before =>
      cases target.graph.entities.get? id with
      | none => simp
      | some after =>
          have hfields := changed_eq_zero_iff before.fields after.fields
          simp only [Option.map_some, ne_eq, Option.some.injEq, entityReading_eq_iff]
          by_cases hsame : before = after
          · simp [hsame]
          · rw [if_pos hsame]
            by_cases hshown : (fieldChanges before.fields after.fields).changed > 0 ∨
                entitySubject before ≠ entitySubject after
            · rw [if_pos hshown]
              refine iff_of_true rfl fun ⟨hsubject, heq⟩ => ?_
              rcases hshown with hpos | hne
              · exact absurd (hfields.2 heq) (Nat.pos_iff_ne_zero.1 hpos)
              · exact hne hsubject
            · rw [if_neg hshown]
              rw [not_or, not_not, Nat.not_lt, Nat.le_zero] at hshown
              exact iff_of_false Bool.false_ne_true fun hno => hno ⟨hshown.2, hfields.1 hshown.1⟩

/-- Two readings of an optional record agree when each does. -/
theorem map_eq_map_and_iff {α β γ : Type} {f f' : α → β} {g g' : α → γ} {a b : Option α} :
    (a.map f = b.map f' ∧ a.map g = b.map g') ↔
      a.map (fun x => (f x, g x)) = b.map fun x => (f' x, g' x) := by
  cases a <;> cases b <;> simp

theorem isSome_relationChange (base target : WorldSnapshot) (id : EdgeId) :
    (relationChange base target id).isSome = true ↔ relationDiffers base target id := by
  unfold relationChange relationDiffers
  rw [← not_and_or, map_eq_map_and_iff]
  simp only [map_eq_map_and_iff]
  have hreadings : ((base.graph.edges.get? id).map fun x => (relationSubject base x, x.fields)) =
        ((target.graph.edges.get? id).map fun x => (relationSubject target x, x.fields)) ↔
      ((base.graph.edges.get? id).map fun x => (edgeReading x, endGenerations base x)) =
        ((target.graph.edges.get? id).map fun x => (edgeReading x, endGenerations target x)) := by
    cases base.graph.edges.get? id with
    | none => cases target.graph.edges.get? id <;> simp
    | some a =>
        cases target.graph.edges.get? id with
        | none => simp
        | some b =>
            simp only [Option.map_some, Option.some.injEq, Prod.mk.injEq]
            exact (edgeReading_eq_iff base target a b).symm
  rw [← hreadings]
  split
  · rename_i h
    exact iff_of_false Bool.false_ne_true (not_not.2 h)
  · rename_i h
    exact iff_of_true rfl h

theorem isSome_eventChange (base target : WorldSnapshot) (id : EventId) :
    (eventChange base target id).isSome = true ↔ eventDiffers base target id := by
  unfold eventChange eventDiffers
  simp only [map_eq_map_and_iff]
  have hreadings : ((base.graph.events.get? id).map fun x => (eventSubject x, x.fields)) =
        ((target.graph.events.get? id).map fun x => (eventSubject x, x.fields)) ↔
      (base.graph.events.get? id).map eventReading =
        (target.graph.events.get? id).map eventReading := by
    cases base.graph.events.get? id with
    | none => cases target.graph.events.get? id <;> simp
    | some a =>
        cases target.graph.events.get? id with
        | none => simp
        | some b =>
            simp only [Option.map_some, Option.some.injEq, Prod.mk.injEq]
            exact (eventReading_eq_iff a b).symm
  rw [ne_eq, ← hreadings]
  split
  · rename_i h
    exact iff_of_false Bool.false_ne_true (not_not.2 h)
  · rename_i h
    exact iff_of_true rfl h

/-! ## What a domain accounts for -/

def Change.domain? : Change → Option Domain
  | entityCreated _ | entityRemoved _ | entityChanged _ _ _ => some .entity
  | relation _ _ _ => some .relation
  | terrain _ _ => some .terrain
  | event _ _ _ => some .event
  | reset _ | gap | timePassed _ _ | pauseChanged _ | omitted _ _ => none

/-- How many changes of a domain an entry stands for. -/
def Change.stands (domain : Domain) : Change → Nat
  | omitted d count => if d = domain then count else 0
  | change => if change.domain? = some domain then 1 else 0

/-- The listed changes of a domain and the count of those left out. -/
def accounted (domain : Domain) (listed : List Change) : Nat :=
  (listed.map (Change.stands domain)).sum

theorem accounted_append (domain : Domain) (l l' : List Change) :
    accounted domain (l ++ l') = accounted domain l + accounted domain l' := by
  rw [accounted, List.map_append, List.sum_append]
  rfl

/-- Changes that are all of one domain. -/
theorem accounted_of_domain {domain : Domain} {l : List Change}
    (h : ∀ change ∈ l, change.domain? = some domain) (d : Domain) :
    accounted d l = if d = domain then l.length else 0 := by
  have hstands : ∀ change ∈ l, change.stands d = if d = domain then 1 else 0 := by
    intro change hmem
    have hdomain := h change hmem
    cases change with
    | omitted d' count => cases hdomain
    | _ =>
        simp only [Change.stands, hdomain, Option.some.injEq]
        exact if_congr eq_comm rfl rfl
  rw [accounted, List.map_congr_left hstands, List.map_const', List.sum_replicate_nat]
  by_cases hd : d = domain
  · rw [if_pos hd, if_pos hd, mul_one]
  · rw [if_neg hd, if_neg hd, mul_zero]

/-- A section of the description: the listed changes of one domain, and the others counted. -/
theorem accounted_withOmitted {domain : Domain} {listed : List Change} {n : Nat}
    (h : ∀ change ∈ listed, change.domain? = some domain) (d : Domain) :
    accounted d (withOmitted domain (listed, n)) = if d = domain then listed.length + n else 0 := by
  have homitted : accounted d (if n > 0 then [Change.omitted domain n] else []) =
      if d = domain then n else 0 := by
    by_cases hn : n > 0
    · rw [if_pos hn, accounted, List.map_singleton, List.sum_singleton, Change.stands]
      exact if_congr eq_comm rfl rfl
    · rw [if_neg hn, show n = 0 by omega]
      simp [accounted]
  rw [withOmitted, accounted_append, accounted_of_domain h, homitted]
  by_cases hd : d = domain
  · rw [if_pos hd, if_pos hd, if_pos hd]
  · rw [if_neg hd, if_neg hd, if_neg hd]

/-- A domain accounts for every key at which the two sides differ, and for no other. -/
def Accounts {K : Type} (domain : Domain) (listed : List Change) (differs : K → Prop) : Prop :=
  ∃ keys : List K, keys.Nodup ∧ (∀ k, k ∈ keys ↔ differs k) ∧ accounted domain listed = keys.length

/-- A part of the description that accounts for one domain, and has entries of no other. -/
structure Section {K : Type} (domain : Domain) (part : List Change) (differs : K → Prop) : Prop where
  keys : ∃ keys : List K, keys.Nodup ∧ (∀ k, k ∈ keys ↔ differs k) ∧
    ∀ d, accounted d part = if d = domain then keys.length else 0
  domains : ∀ change ∈ part, change.domain? = some domain ∨ change.domain? = none

theorem domain_of_mem_withOmitted {domain : Domain} {listed : List Change} {n : Nat}
    (h : ∀ change ∈ listed, change.domain? = some domain) :
    ∀ change ∈ withOmitted domain (listed, n),
      change.domain? = some domain ∨ change.domain? = none := by
  intro change hmem
  rcases List.mem_append.1 hmem with hmem | hmem
  · exact .inl (h change hmem)
  · by_cases hn : n > 0
    · rw [if_pos hn] at hmem
      rw [List.mem_singleton.1 hmem]
      exact .inr rfl
    · rw [if_neg hn] at hmem
      exact absurd hmem List.not_mem_nil

/-- Every loop over the keys of both sides accounts for the keys at which it finds a change. -/
theorem section_listAll {K V : Type} [LinearOrder K] {domain : Domain} (cap : Nat)
    {change : K → Option Change} {before after : BTreeMap K V} {differs : K → Prop}
    (hdomain : ∀ k c, change k = some c → c.domain? = some domain)
    (hchange : ∀ k, (change k).isSome = true ↔ differs k)
    (hkeys : ∀ k, differs k → k ∈ bothKeys before after) :
    Section domain (withOmitted domain (listAll cap change (bothKeys before after))) differs := by
  have hlisted : ∀ c ∈ ((bothKeys before after).filterMap change).take cap,
      c.domain? = some domain := by
    intro c hc
    obtain ⟨k, _, hk⟩ := List.mem_filterMap.1 (List.mem_of_mem_take hc)
    exact hdomain k c hk
  have hfound : ((bothKeys before after).filterMap change).length =
      ((bothKeys before after).filter fun k => (change k).isSome).length := by
    rw [← List.countP_eq_length_filter, List.length_filterMap_eq_countP]
  rw [listAll_eq]
  refine ⟨⟨(bothKeys before after).filter fun k => (change k).isSome,
    (bothKeys_nodup before after).filter _, fun k => ?_, fun d => ?_⟩,
    domain_of_mem_withOmitted hlisted⟩
  · rw [List.mem_filter, hchange]
    exact ⟨fun h => h.2, fun h => ⟨hkeys k h, h⟩⟩
  · rw [accounted_withOmitted hlisted, List.length_take, ← hfound]
    by_cases hd : d = domain
    · rw [if_pos hd, if_pos hd]
      omega
    · rw [if_neg hd, if_neg hd]

end WorldChanges

end Dfmcp
