import Dfmcp.Intent.Effects
import Dfmcp.World.EvidenceProof
import Dfmcp.World.QueryPageProof

/-!
# What an effect writes and what its postconditions see

An accepted immediate action writes a fixed table of fields, `written`, and a pause flag; nothing
else of the world that is known changes. That one description of a step decides two questions.

* `default_postconditions_prove_iff` — the default postconditions are established after the action,
  and are not established before it unless it changes nothing, exactly for the actions that
  `Verifiable` describes;
* `default_compensation_restores_iff` — the default compensation restores the prior state exactly
  where that state was the opposite of the requested one.
-/

namespace Dfmcp

open Machine

namespace Effects

/-! ## What a laboratory establishes -/

/-- The value a field is known to have. -/
def knownField (s : WorldSnapshot) (id : EntityId) (name : String) : Option Value :=
  ((s.graph.entities.get? id).bind (·.fields.get? name)).bind Fact.knownValue

/-- The value of a field that a laboratory may consume. -/
def laboratoryField (s : WorldSnapshot) (id : EntityId) (name : String) : Option Value :=
  ((s.graph.entities.get? id).bind (·.fields.get? name)).bind fun fact =>
    laboratoryFactValue fact s.tick

/-- A snapshot that binds laboratory evidence. -/
def LaboratorySnapshot (s : WorldSnapshot) : Prop :=
  s.graph.KeysMatch ∧ s.hashIsValid = true

/-- Laboratory evidence establishes the predicate. -/
def Established (s : WorldSnapshot) (p : Predicate) : Prop :=
  ∃ evidence, PredicateEvidence.ofLaboratory s = .ok evidence ∧ evidence.establishes p = .ok true

/-- The reference scope over a snapshot. -/
def laboratoryPolicy (s : WorldSnapshot) : EvidencePolicy :=
  { EvidencePolicy.grantsAt s.anchor with
    allEntities := .complete, allEdges := .complete, paused := true }

variable {s t u : WorldSnapshot}

theorem ofLaboratory_ok_iff {evidence : PredicateEvidence} :
    PredicateEvidence.ofLaboratory s = .ok evidence ↔
      LaboratorySnapshot s ∧ evidence = ⟨s, laboratoryPolicy s, true⟩ := by
  have hvalid : (laboratoryPolicy s).validate = .ok () := rfl
  have hanchor : (laboratoryPolicy s).anchor = some s.anchor := rfl
  unfold PredicateEvidence.ofLaboratory LaboratorySnapshot
  show (PredicateEvidence.scopedTo s (laboratoryPolicy s) >>= _) = _ ↔ _
  unfold PredicateEvidence.scopedTo
  rw [hvalid, hanchor]
  by_cases hkeys : s.graph.KeysMatch
  · by_cases hhash : s.hashIsValid = true
    · simp [hkeys, hhash, bind, Except.bind, pure, Except.pure, eq_comm]
    · simp [hkeys, hhash, bind, Except.bind, throw, throwThe, MonadExceptOf.throw]
  · simp [hkeys, bind, Except.bind, throw, throwThe, MonadExceptOf.throw]

theorem establishes_ok_iff {evidence : PredicateEvidence} {p : Predicate} :
    evidence.establishes p = .ok true ↔ evidence.evaluate p = .ok .true := by
  unfold PredicateEvidence.establishes
  cases evidence.evaluate p with
  | error e => simp [bind, Except.bind]
  | ok truth => cases truth <;> simp [bind, Except.bind, pure, Except.pure]

theorem established_iff (hlab : LaboratorySnapshot s) {p : Predicate} :
    Established s p ↔ p.validateShape = .ok () ∧
      p.validateQuantityWork s.graph.entities.size = .ok () ∧
      (⟨s, laboratoryPolicy s, true⟩ : PredicateEvidence).evaluateValidated p = .true := by
  have hexists : Established s p ↔
      (⟨s, laboratoryPolicy s, true⟩ : PredicateEvidence).establishes p = .ok true := by
    constructor
    · intro h
      obtain ⟨evidence, hevidence, hholds⟩ := h
      rw [(ofLaboratory_ok_iff.1 hevidence).2] at hholds
      exact hholds
    · intro h
      exact ⟨_, ofLaboratory_ok_iff.2 ⟨hlab, rfl⟩, h⟩
  rw [hexists, establishes_ok_iff, PredicateEvidence.evaluate_ok_iff]

theorem established_paused_iff (hlab : LaboratorySnapshot s) {expected : Bool} :
    Established s (.paused expected) ↔ s.paused = expected := by
  rw [established_iff hlab]
  constructor
  · rintro ⟨_, _, htruth⟩
    by_contra hne
    simp [PredicateEvidence.evaluateValidated, laboratoryPolicy, hne] at htruth
  · intro heq
    exact ⟨Predicate.validateShape_of_leaf trivial rfl, rfl, by
      simp [PredicateEvidence.evaluateValidated, laboratoryPolicy, heq]⟩

/-- A field that fits the bounds of a query. -/
def Expressible (name : String) (value : Value) : Prop :=
  strLen name ≤ maxQueryFieldBytes ∧ validateQueryValue value = .ok ()

theorem validateLeaf_fieldEq_iff {work after : ShapeWork} {id : EntityId} {name : String}
    {value : Value} :
    validateLeaf work (fieldEq id name value) = .ok after ↔
      Expressible name value ∧ after = work := by
  show (if strLen name > maxQueryFieldBytes then _ else _) = _ ↔ _
  unfold Expressible
  by_cases hname : strLen name > maxQueryFieldBytes
  · rw [if_pos hname]
    simp [not_le.2 hname]
  · rw [if_neg hname]
    cases validateQueryValue value with
    | error e => simp [bind, Except.bind]
    | ok _ => simp [bind, Except.bind, pure, Except.pure, not_lt.1 hname, eq_comm]

theorem validateShape_fieldEq_iff {id : EntityId} {name : String} {value : Value} :
    (fieldEq id name value).validateShape = .ok () ↔ Expressible name value := by
  constructor
  · intro h
    obtain ⟨before, after, hvalid⟩ := Predicate.leaf_of_validateShape h _ List.mem_cons_self
    exact (validateLeaf_fieldEq_iff.1 hvalid).1
  · intro h
    exact Predicate.validateShape_of_leaf trivial (validateLeaf_fieldEq_iff.2 ⟨h, rfl⟩)

theorem established_fieldEq_iff (hlab : LaboratorySnapshot s) {id : EntityId} {name : String}
    {value : Value} :
    Established s (fieldEq id name value) ↔
      Expressible name value ∧ id ≠ 0 ∧ laboratoryField s id name = some value := by
  have hquantity : (fieldEq id name value).validateQuantityWork s.graph.entities.size = .ok () := rfl
  have htruth : (⟨s, laboratoryPolicy s, true⟩ : PredicateEvidence).evaluateValidated
      (fieldEq id name value) = .true ↔ id ≠ 0 ∧ laboratoryField s id name = some value := by
    have hobserved : (⟨s, laboratoryPolicy s, true⟩ : PredicateEvidence).entityObserved id =
        (decide (id ≠ 0) && (s.graph.entities.get? id).isSome) := by
      unfold PredicateEvidence.entityObserved
      cases s.graph.entities.get? id <;> rfl
    unfold fieldEq PredicateEvidence.evaluateValidated laboratoryField
    rw [hobserved]
    cases hentity : s.graph.entities.get? id with
    | none => simp
    | some entity =>
        by_cases hid : id = 0
        · simp [hid]
        · show (if (!(decide (id ≠ 0) && true)) = true then Kleene.Truth.unknown
            else ((entity.fields.get? name).bind fun fact =>
              laboratoryFactValue fact s.tick).elim .unknown (·.compare .eq value)) = .true ↔ _
          rw [Option.bind_some]
          cases (entity.fields.get? name).bind fun fact => laboratoryFactValue fact s.tick with
          | none => simp [hid]
          | some actual => by_cases heq : actual = value <;> simp [hid, Value.compare, heq, Kleene.Truth.ofBool]
  rw [established_iff hlab, validateShape_fieldEq_iff, htruth]
  exact ⟨fun h => ⟨h.1, h.2.2⟩, fun h => ⟨h.1, hquantity, h.2⟩⟩

/-! ### Which fields can be expressed -/

theorem expressible_bool {name : String} {value : Bool} :
    Expressible name (.bool value) ↔ strLen name ≤ maxQueryFieldBytes :=
  and_iff_left rfl

theorem expressible_entity {name : String} {value : EntityId} :
    Expressible name (.entity value) ↔ strLen name ≤ maxQueryFieldBytes :=
  and_iff_left rfl

theorem addQueryValueBytes_ok_iff {total additional sum : Nat} :
    addQueryValueBytes total additional = .ok sum ↔
      total + additional ≤ maxQueryValueBytes ∧ sum = total + additional := by
  unfold addQueryValueBytes
  have hsmall : maxQueryValueBytes < 2 ^ 64 := by decide
  by_cases hover : total + additional ≥ 2 ^ 64
  · rw [if_pos hover]
    simp only [reduceCtorEq, false_iff, not_and]
    omega
  · rw [if_neg hover]
    by_cases hbound : total + additional > maxQueryValueBytes
    · rw [if_pos hbound]
      simp only [reduceCtorEq, false_iff, not_and]
      omega
    · rw [if_neg hbound]
      simp [not_lt.1 hbound, eq_comm]

theorem validateQueryValues_nil (left bytes : Nat) : validateQueryValues left bytes [] = .ok () := by
  cases left <;> rfl

/-- Texts side by side: each takes a node, and together they stay within the byte bound. -/
theorem validateQueryValues_texts (depth : Nat) (hdepth : depth ≤ maxQueryValueDepth)
    (texts : List String) (left bytes : Nat) (hbytes : bytes ≤ maxQueryValueBytes) :
    validateQueryValues left bytes (texts.map fun text => (.text text, depth)) = .ok () ↔
      texts.length ≤ left ∧ bytes + (texts.map strLen).sum ≤ maxQueryValueBytes := by
  induction texts generalizing left bytes with
  | nil => simp [validateQueryValues_nil, hbytes]
  | cons text texts ih =>
      cases left with
      | zero => simp [validateQueryValues]
      | succ left =>
          rw [List.map_cons, validateQueryValues, if_neg (not_lt.2 hdepth)]
          simp only [List.length_cons, List.map_cons, List.sum_cons]
          rw [bind_ok_iff]
          constructor
          · intro h
            obtain ⟨sum, hsum, hrest⟩ := h
            obtain ⟨hle, rfl⟩ := addQueryValueBytes_ok_iff.1 hsum
            have := (ih left _ hle).1 hrest
            omega
          · intro h
            have hle : bytes + strLen text ≤ maxQueryValueBytes := by omega
            refine ⟨_, addQueryValueBytes_ok_iff.2 ⟨hle, rfl⟩, (ih left _ hle).2 ?_⟩
            omega

theorem expressible_text {name value : String} :
    Expressible name (.text value) ↔
      strLen name ≤ maxQueryFieldBytes ∧ strLen value ≤ maxQueryValueBytes := by
  have h := validateQueryValues_texts 1 (by decide) [value] maxQueryValueNodes 0
    (by decide)
  unfold Expressible
  rw [show validateQueryValue (.text value) = .ok () ↔ _ from h]
  simp [maxQueryValueNodes]

/-- A stockpile list that fits the bounds of a query. -/
theorem expressible_accepts {accepts : BTreeSet String} :
    Expressible stockpileAcceptsField (acceptsValue accepts) ↔
      accepts.size < maxQueryValueNodes ∧
        (accepts.keys.map strLen).sum ≤ maxQueryValueBytes := by
  have hname : strLen stockpileAcceptsField ≤ maxQueryFieldBytes := by decide
  have hnodes : maxQueryValueNodes = 4095 + 1 := rfl
  have hlen : accepts.keys.length = accepts.size := accepts.length_keys
  have hpending : ((accepts.keys.map Value.text).map (·, 1 + 1)).reverse ++ [] =
      accepts.keys.reverse.map fun text => (Value.text text, 2) := by
    simp [Function.comp_def]
  have htexts := validateQueryValues_texts 2 (by decide) accepts.keys.reverse 4095 0
    (by decide)
  unfold Expressible validateQueryValue acceptsValue
  rw [hnodes, validateQueryValues, if_neg (by decide)]
  simp only [List.length_map, hlen, hpending]
  by_cases hsize : accepts.size > 4095
  · rw [if_pos hsize]
    simp only [reduceCtorEq, and_false, false_iff, not_and]
    omega
  · rw [if_neg hsize, htexts]
    simp only [List.length_reverse, hlen, List.map_reverse, List.sum_reverse, zero_add, hname,
      true_and]
    omega

/-- Every burrow has a name of its field within bounds. -/
theorem strLen_burrow (burrow : EntityId) :
    strLen (burrowFieldPrefix ++ toString burrow) ≤ maxQueryFieldBytes := by
  have hdigits : (toString burrow).toList = Nat.toDigits 10 burrow.val := Nat.toList_repr
  have hlen := length_digits_le burrow (n := 20) (by decide) (by decide)
  have hpre : burrowFieldPrefix.toList.length = 7 := by decide
  have hchars : ∀ c ∈ (burrowFieldPrefix ++ toString burrow).toList, c.utf8Size = 1 := by
    intro c hc
    rw [String.toList_append, hdigits, List.mem_append] at hc
    rcases hc with hc | hc
    · exact oneByte_of_all (by decide) c hc
    · exact oneByte_digits _ c hc
  rw [strLen_of_oneByte hchars, String.toList_append, hdigits, List.length_append, hpre]
  simp only [maxQueryFieldBytes]
  omega

/-! ## What one write does -/

/-- `t` is `s` with the fields of a table written; the rest that is known is unchanged. -/
structure Writes (table : EntityId → String → Option Value) (s t : WorldSnapshot) : Prop where
  fortressId : t.fortressId = s.fortressId
  tick : t.tick = s.tick
  paused : t.paused = s.paused
  edges : t.graph.edges = s.graph.edges
  chunks : t.graph.chunks = s.graph.chunks
  events : t.graph.events = s.graph.events
  keys : s.graph.KeysMatch → ∀ k e, t.graph.entities.get? k = some e → e.id = k
  known : ∀ id name, knownField t id name = (table id name).or (knownField s id name)
  laboratory : ∀ id name,
    laboratoryField t id name = (table id name).or (laboratoryField s id name)

theorem Writes.refl {table : EntityId → String → Option Value}
    (htable : ∀ id name value, table id name = some value →
      laboratoryField s id name = some value ∧ knownField s id name = some value) :
    Writes table s s where
  fortressId := rfl
  tick := rfl
  paused := rfl
  edges := rfl
  chunks := rfl
  events := rfl
  keys := fun h => h.entities
  known := by
    intro id name
    cases hvalue : table id name with
    | none => rfl
    | some value => exact (htable id name value hvalue).2
  laboratory := by
    intro id name
    cases hvalue : table id name with
    | none => rfl
    | some value => exact (htable id name value hvalue).1

theorem Writes.keysMatch {table : EntityId → String → Option Value} (h : Writes table s t)
    (hkeys : s.graph.KeysMatch) : t.graph.KeysMatch where
  entities := h.keys hkeys
  edges := h.edges ▸ hkeys.edges
  chunks := h.chunks ▸ hkeys.chunks
  events := h.events ▸ hkeys.events

theorem Writes.trans {first second : EntityId → String → Option Value} (h : Writes first s t)
    (h' : Writes second t u) :
    Writes (fun id name => (second id name).or (first id name)) s u where
  fortressId := h'.fortressId.trans h.fortressId
  tick := h'.tick.trans h.tick
  paused := h'.paused.trans h.paused
  edges := h'.edges.trans h.edges
  chunks := h'.chunks.trans h.chunks
  events := h'.events.trans h.events
  keys := fun hkeys => h'.keys (h.keysMatch hkeys)
  known := fun id name => by rw [h'.known, h.known, Option.or_assoc]
  laboratory := fun id name => by rw [h'.laboratory, h.laboratory, Option.or_assoc]

theorem Writes.congr {table table' : EntityId → String → Option Value} (h : Writes table s t)
    (heq : ∀ id name, table id name = table' id name) : Writes table' s t :=
  (funext fun id => funext fun name => heq id name : table = table') ▸ h

theorem laboratoryFactValue_known (value : Value) (tick : GameTick) :
    laboratoryFactValue (Effects.known value tick) tick = some value := by
  simp [laboratoryFactValue, Effects.known, source, Fact.knownValue]

/-- What a laboratory may consume is known. -/
theorem known_of_laboratory {fact : Fact} {tick : GameTick} {value : Value}
    (h : laboratoryFactValue fact tick = some value) : fact.knownValue = some value := by
  unfold laboratoryFactValue at h
  by_cases hrefused : fact.observedAt > tick ∨ fact.sourceDigest ≠ Digest32.zero ∨
      ¬ (fact.source = .derived labScenario ∨ fact.source = .derived labEffects)
  · rw [if_pos hrefused] at h
    cases h
  · rwa [if_neg hrefused] at h

theorem knownField_of_laboratoryField {id : EntityId} {name : String} {value : Value}
    (h : laboratoryField s id name = some value) : knownField s id name = some value := by
  obtain ⟨fact, hfact, hvalue⟩ := Option.bind_eq_some_iff.1 h
  exact Option.bind_eq_some_iff.2 ⟨fact, hfact, known_of_laboratory hvalue⟩

/-- The table of a list of fields, later ones first. -/
def tableOf (fields : List (String × Value)) (name : String) : Option Value :=
  ((fields.reverse.find? fun field => field.1 = name).map (·.2))

/-- One record after its fields are written. -/
structure Rewrites (tick : GameTick) (table : String → Option Value) (e e' : EntityRecord) :
    Prop where
  id : e'.id = e.id
  revision : e'.revision = e.revision
  known : ∀ name, (e'.fields.get? name).bind Fact.knownValue =
    (table name).or ((e.fields.get? name).bind Fact.knownValue)
  laboratory : ∀ name, fieldValue e' name tick = (table name).or (fieldValue e name tick)

theorem rewrites_nil (tick : GameTick) (e : EntityRecord) : Rewrites tick (tableOf []) e e :=
  ⟨rfl, rfl, fun _ => rfl, fun _ => rfl⟩

theorem tableOf_concat (fields : List (String × Value)) (field : String × Value) (name : String) :
    tableOf (fields ++ [field]) name =
      if field.1 = name then some field.2 else tableOf fields name := by
  unfold tableOf
  rw [List.reverse_concat, List.find?_cons]
  by_cases heq : field.1 = name <;> simp [heq]

theorem rewrites_writeField {tick : GameTick} {fields : List (String × Value)} {e : EntityRecord}
    {written : EntityRecord × Bool} (h : Rewrites tick (tableOf fields) e written.1)
    (field : String × Value) :
    Rewrites tick (tableOf (fields ++ [field])) e (writeField tick written field).1 := by
  unfold writeField
  by_cases hsame : fieldValue written.1 field.1 tick = some field.2
  · rw [if_neg (not_not.2 hsame)]
    refine ⟨h.id, h.revision, ?_, ?_⟩
    · intro name
      rw [tableOf_concat]
      by_cases hname : field.1 = name
      · rw [if_pos hname, ← hname]
        obtain ⟨fact, hfact, hvalue⟩ := Option.bind_eq_some_iff.1 hsame
        rw [hfact]
        exact known_of_laboratory hvalue
      · rw [if_neg hname]
        exact h.known name
    · intro name
      rw [tableOf_concat]
      by_cases hname : field.1 = name
      · rw [if_pos hname, ← hname]
        exact hsame
      · rw [if_neg hname]
        exact h.laboratory name
  · rw [if_pos hsame]
    refine ⟨h.id, h.revision, ?_, ?_⟩
    · intro name
      rw [tableOf_concat]
      show ((written.1.fields.insert field.1 (known field.2 tick)).get? name).bind _ = _
      rw [OMap.get?_insert]
      by_cases hname : field.1 = name
      · rw [if_pos hname, if_pos hname.symm]
        rfl
      · rw [if_neg hname, if_neg (Ne.symm hname)]
        exact h.known name
    · intro name
      rw [tableOf_concat]
      show ((written.1.fields.insert field.1 (known field.2 tick)).get? name).bind _ = _
      rw [OMap.get?_insert]
      by_cases hname : field.1 = name
      · rw [if_pos hname, if_pos hname.symm]
        exact laboratoryFactValue_known field.2 tick
      · rw [if_neg hname, if_neg (Ne.symm hname)]
        exact h.laboratory name

theorem rewrites_foldl (tick : GameTick) (e : EntityRecord) (fields : List (String × Value)) :
    Rewrites tick (tableOf fields) e (fields.foldl (writeField tick) (e, false)).1 := by
  induction fields using List.reverseRecOn with
  | nil => exact rewrites_nil tick e
  | append_singleton fields field ih =>
      rw [List.foldl_concat]
      exact rewrites_writeField ih field

theorem writeField_unchanged {tick : GameTick} {written : EntityRecord × Bool}
    {field : String × Value} (h : (writeField tick written field).2 = false) :
    writeField tick written field = written ∧ written.2 = false := by
  unfold writeField at h ⊢
  by_cases hsame : fieldValue written.1 field.1 tick ≠ some field.2
  · rw [if_pos hsame] at h
    cases h
  · rw [if_neg hsame] at h ⊢
    exact ⟨rfl, h⟩

/-- Fields that ask for no change leave the record alone. -/
theorem foldl_writeField_unchanged {tick : GameTick} {fields : List (String × Value)}
    {start : EntityRecord × Bool} (h : (fields.foldl (writeField tick) start).2 = false) :
    fields.foldl (writeField tick) start = start := by
  induction fields using List.reverseRecOn with
  | nil => rfl
  | append_singleton fields field ih =>
      rw [List.foldl_concat] at h ⊢
      obtain ⟨hsame, hrest⟩ := writeField_unchanged h
      rw [hsame]
      exact ih hrest

/-- The table of one record, over the world. -/
def tableAt (id : EntityId) (table : String → Option Value) (k : EntityId) (name : String) :
    Option Value :=
  if k = id then table name else none

theorem knownField_of_get? {id : EntityId} {e : EntityRecord}
    (h : s.graph.entities.get? id = some e) (name : String) :
    knownField s id name = (e.fields.get? name).bind Fact.knownValue := by
  unfold knownField
  rw [h, Option.bind_some]

theorem laboratoryField_of_get? {id : EntityId} {e : EntityRecord}
    (h : s.graph.entities.get? id = some e) (name : String) :
    laboratoryField s id name = fieldValue e name s.tick := by
  unfold laboratoryField
  rw [h, Option.bind_some]
  rfl

theorem knownField_congr {id : EntityId}
    (h : t.graph.entities.get? id = s.graph.entities.get? id) (name : String) :
    knownField t id name = knownField s id name := by
  unfold knownField
  rw [h]

theorem laboratoryField_congr {id : EntityId} (htick : t.tick = s.tick)
    (h : t.graph.entities.get? id = s.graph.entities.get? id) (name : String) :
    laboratoryField t id name = laboratoryField s id name := by
  unfold laboratoryField
  rw [h, htick]

/-- A record filed under its identifier. -/
theorem writes_putEntity {id : EntityId} {record : EntityRecord} {table : String → Option Value}
    (hid : s.graph.KeysMatch → record.id = id)
    (hknown : ∀ name, (record.fields.get? name).bind Fact.knownValue =
      (table name).or (knownField s id name))
    (hlaboratory : ∀ name, fieldValue record name s.tick =
      (table name).or (laboratoryField s id name)) :
    Writes (tableAt id table) s (putEntity s id record) := by
  have hself : (putEntity s id record).graph.entities.get? id = some record := by
    rw [putEntity, OMap.get?_insert, if_pos rfl]
  have hother : ∀ k, k ≠ id →
      (putEntity s id record).graph.entities.get? k = s.graph.entities.get? k := by
    intro k hk
    rw [putEntity, OMap.get?_insert, if_neg hk]
  refine ⟨rfl, rfl, rfl, rfl, rfl, rfl, ?_, ?_, ?_⟩
  · intro hkeys k found hfound
    by_cases hk : k = id
    · subst hk
      rw [hself] at hfound
      cases hfound
      exact hid hkeys
    · rw [hother k hk] at hfound
      exact hkeys.entities k found hfound
  · intro k name
    unfold tableAt
    by_cases hk : k = id
    · subst hk
      rw [if_pos rfl, knownField_of_get? hself]
      exact hknown name
    · rw [if_neg hk, Option.none_or]
      exact knownField_congr (hother k hk) name
  · intro k name
    have htick : (putEntity s id record).tick = s.tick := rfl
    unfold tableAt
    by_cases hk : k = id
    · subst hk
      rw [if_pos rfl, laboratoryField_of_get? hself]
      exact hlaboratory name
    · rw [if_neg hk, Option.none_or]
      exact laboratoryField_congr htick (hother k hk) name

/-- **One write.** What `writeFields` leaves has its fields, and is otherwise as it was. -/
theorem writeFields_writes {id : EntityId} {fields : List (String × Value)} {changed : Bool}
    (h : writeFields s id fields = .ok (t, changed)) :
    Writes (tableAt id (tableOf fields)) s t := by
  unfold writeFields at h
  cases hget : s.graph.entities.get? id with
  | none =>
      rw [hget] at h
      cases h
  | some e =>
      rw [hget] at h
      dsimp only at h
      have hrewrites := rewrites_foldl s.tick e fields
      by_cases hchanged : (fields.foldl (writeField s.tick) (e, false)).2 = true
      · rw [if_pos hchanged] at h
        cases hrevision : (fields.foldl (writeField s.tick) (e, false)).1.revision.checkedAdd 1 with
        | none =>
            rw [hrevision] at h
            cases h
        | some revision =>
            rw [hrevision] at h
            cases h
            apply writes_putEntity
            · intro hkeys
              exact hrewrites.id.trans (hkeys.entities id e hget)
            · intro name
              rw [knownField_of_get? hget]
              exact hrewrites.known name
            · intro name
              rw [laboratoryField_of_get? hget]
              exact hrewrites.laboratory name
      · rw [if_neg hchanged] at h
        cases h
        have hsame := foldl_writeField_unchanged (Bool.eq_false_iff.2 hchanged)
        rw [hsame] at hrewrites
        apply Writes.refl
        intro k name value hvalue
        unfold tableAt at hvalue
        by_cases hk : k = id
        · subst hk
          rw [if_pos rfl] at hvalue
          have hlaboratory := hrewrites.laboratory name
          have hknown := hrewrites.known name
          rw [hvalue] at hlaboratory hknown
          rw [laboratoryField_of_get? hget, knownField_of_get? hget]
          exact ⟨hlaboratory, hknown⟩
        · rw [if_neg hk] at hvalue
          cases hvalue

/-- The table of one field over several records. -/
def tableUnits (units : List EntityId) (field : String) (value : Value) (k : EntityId)
    (name : String) : Option Value :=
  if k ∈ units ∧ name = field then some value else none

theorem tableOf_singleton (field : String) (value : Value) (name : String) :
    tableOf [(field, value)] name = if name = field then some value else none := by
  rw [show [(field, value)] = [] ++ [(field, value)] from rfl, tableOf_concat]
  by_cases heq : field = name
  · rw [if_pos heq, if_pos heq.symm]
  · rw [if_neg heq, if_neg (Ne.symm heq)]
    rfl

/-- **A loop over units** writes the field of each of them. -/
theorem foldlM_writes {units : List EntityId} {field : String} {value : Value} {before changed : Bool}
    (h : units.foldlM (fun written unit => do
      let next ← writeFields written.1 unit [(field, value)]
      pure (next.1, written.2 || next.2)) (s, before) = (.ok (t, changed) : Result _)) :
    Writes (tableUnits units field value) s t := by
  induction units generalizing s before with
  | nil =>
      cases h
      exact Writes.refl fun id name value hvalue => by simp [tableUnits] at hvalue
  | cons unit units ih =>
      rw [List.foldlM_cons, bind_ok_iff] at h
      obtain ⟨next, hfirst, hrest⟩ := h
      obtain ⟨written, hwrite, hnext⟩ := bind_ok_iff.1 hfirst
      cases hnext
      apply ((@writeFields_writes _ _ _ _ written.2 hwrite).trans (ih hrest)).congr
      intro id name
      unfold tableUnits tableAt
      rw [tableOf_singleton]
      by_cases hname : name = field
      · by_cases hmem : id ∈ units <;> simp [hname, hmem]
      · simp [hname]

theorem writeUnits_writes {units : List EntityId} {field : String} {value : Value} {changed : Bool}
    (h : writeUnits s units field value = .ok (t, changed)) :
    Writes (tableUnits units field value) s t :=
  foldlM_writes h

/-- A created record is all there is under its identifier. -/
theorem createEntity_writes {id : EntityId} {kind : EntityKind} {label : String}
    {field : String × Value} (h : createEntity s id kind label [field] = .ok t) :
    Writes (tableAt id (tableOf [field])) s t := by
  unfold createEntity at h
  by_cases hcontains : s.graph.entities.contains id = true
  · rw [if_pos hcontains] at h
    cases h
  · rw [if_neg hcontains] at h
    cases h
    have habsent : s.graph.entities.get? id = none := by
      unfold OMap.contains at hcontains
      simpa using hcontains
    have hfield : ∀ name, (OMap.ofList [(field.1, Effects.known field.2 s.tick)]).get? name =
        if name = field.1 then some (Effects.known field.2 s.tick) else none := by
      intro name
      show ((OMap.nil : BTreeMap String Fact).insert _ _).get? name = _
      rw [OMap.get?_insert, OMap.get?_nil]
    apply writes_putEntity
    · intro _
      rfl
    · intro name
      have hknown : knownField s id name = none := by
        unfold knownField
        rw [habsent, Option.bind_none, Option.bind_none]
      rw [hknown, tableOf_singleton, Option.or_none]
      show ((OMap.ofList [(field.1, Effects.known field.2 s.tick)]).get? name).bind _ = _
      rw [hfield]
      by_cases hname : name = field.1
      · rw [if_pos hname, if_pos hname]
        rfl
      · rw [if_neg hname, if_neg hname]
        rfl
    · intro name
      have hlaboratory : laboratoryField s id name = none := by
        unfold laboratoryField
        rw [habsent, Option.bind_none, Option.bind_none]
      rw [hlaboratory, tableOf_singleton, Option.or_none]
      show ((OMap.ofList [(field.1, Effects.known field.2 s.tick)]).get? name).bind _ = _
      rw [hfield]
      by_cases hname : name = field.1
      · rw [if_pos hname, if_pos hname]
        exact laboratoryFactValue_known field.2 s.tick
      · rw [if_neg hname, if_neg hname]
        rfl

/-! ## What an action does -/

/-- The fields an accepted action leaves with a value of its own. -/
def written (fortress : FortressId) : Action → EntityId → String → Option Value
  | .setLabor units labor enabled => tableUnits units (laborFieldPrefix ++ labor) (.bool enabled)
  | .setBurrowMembership units burrow assigned =>
      tableUnits units (burrowFieldPrefix ++ toString burrow) (.bool assigned)
  | .assignSquad units squad => tableUnits units squadField (.entity squad)
  | .configureStockpile stockpile accepts maxBins maxBarrels maxWheelbarrows =>
      tableAt stockpile (tableOf ((stockpileAcceptsField, acceptsValue accepts) ::
        stockpileMaximums maxBins maxBarrels maxWheelbarrows))
  | .setStandingOrder key value =>
      tableAt (fortressSettingsEntityId fortress)
        (tableOf [(standingOrderFieldPrefix ++ key, .text value)])
  | _ => fun _ _ => none

/-- The pause flag after an action. -/
def pausedAfter (paused : Bool) : Action → Bool
  | .pause target => target
  | _ => paused

/-- The units an action names. -/
def namedUnits : Action → Option (List EntityId)
  | .setLabor units _ _ | .setBurrowMembership units _ _ | .assignSquad units _ => some units
  | _ => none

theorem units_ne_nil {units : List EntityId} (h : requireUnits s units = .ok ()) : units ≠ [] := by
  unfold requireUnits at h
  intro hnil
  rw [if_pos hnil] at h
  cases h

/-- **One action.** An accepted immediate action writes its table and its pause flag. -/
theorem applyEffectInner_writes {models : Models} {action : Action} {key : String} {changed : Bool}
    (htemporal : action.naturallyTemporal = false)
    (h : applyEffectInner models s action key = .ok (t, changed)) :
    Writes (written s.fortressId action) { s with paused := pausedAfter s.paused action } t ∧
      ∀ units, namedUnits action = some units → units ≠ [] := by
  have hunits : ∀ {units : List EntityId}, requireUnits s units = .ok () →
      ∀ named, some units = some named → named ≠ [] := by
    intro units hrequire named hnamed
    cases hnamed
    exact units_ne_nil hrequire
  cases action with
  | pause paused =>
      cases h
      exact ⟨Writes.refl nofun, nofun⟩
  | setLabor units labor enabled =>
      obtain ⟨hrequire, hwrite⟩ := check_ok_iff.1 h
      exact ⟨writeUnits_writes hwrite, hunits hrequire⟩
  | setBurrowMembership units burrow assigned =>
      obtain ⟨hrequire, hrest⟩ := check_ok_iff.1 h
      exact ⟨writeUnits_writes (check_ok_iff.1 hrest).2, hunits hrequire⟩
  | assignSquad units squad =>
      obtain ⟨hrequire, hrest⟩ := check_ok_iff.1 h
      exact ⟨writeUnits_writes (check_ok_iff.1 hrest).2, hunits hrequire⟩
  | configureStockpile stockpile accepts maxBins maxBarrels maxWheelbarrows =>
      exact ⟨writeFields_writes (check_ok_iff.1 h).2, nofun⟩
  | setStandingOrder name value =>
      refine ⟨?_, nofun⟩
      unfold applyEffectInner at h
      dsimp only at h
      by_cases hcontains : s.graph.entities.contains (fortressSettingsEntityId s.fortressId) = true
      · rw [if_pos hcontains] at h
        exact writeFields_writes (check_ok_iff.1 h).2
      · rw [if_neg hcontains] at h
        obtain ⟨next, hcreate, hnext⟩ := bind_ok_iff.1 h
        cases hnext
        exact createEntity_writes hcreate
  | extension namespaceName name parameters => cases h
  | designateDig area mode => cases htemporal
  | build kind location footprint material => cases htemporal
  | placeFurniture kind item location => cases htemporal
  | createWorkOrder name jobToken amount conditions => cases htemporal

/-- The economy models can only refuse an immediate action. -/
theorem applyEffectInner_of_applyEffect {models : Models} {action : Action} {key : String}
    {changed : Bool} (htemporal : action.naturallyTemporal = false)
    (h : applyEffect models s action key = .ok (t, changed)) :
    applyEffectInner models s action key = .ok (t, changed) := by
  have hunregistered : registeredAction models action = false := by
    cases action <;> first | rfl | cases htemporal
  unfold applyEffect at h
  obtain ⟨staffed, _, h⟩ := bind_ok_iff.1 h
  obtain ⟨_, _, h⟩ := bind_ok_iff.1 h
  obtain ⟨_, _, h⟩ := bind_ok_iff.1 h
  obtain ⟨applied, happlied, h⟩ := bind_ok_iff.1 h
  rw [hunregistered, Bool.and_false, if_neg Bool.false_ne_true] at h
  cases h
  exact happlied

/-! ## Verification -/

/-- No known field value, flag or terrain differs. -/
structure Unchanged (s t : WorldSnapshot) : Prop where
  paused : t.paused = s.paused
  chunks : t.graph.chunks = s.graph.chunks
  known : ∀ id name, knownField t id name = knownField s id name

theorem unchanged_iff {table : EntityId → String → Option Value} {paused : Bool}
    (h : Writes table { s with paused } t) :
    Unchanged s t ↔ paused = s.paused ∧
      ∀ id name value, table id name = some value → knownField s id name = some value := by
  have hknown : ∀ id name, knownField t id name = (table id name).or (knownField s id name) :=
    h.known
  constructor
  · intro hsame
    refine ⟨h.paused.symm.trans hsame.paused, fun id name value hvalue => ?_⟩
    rw [← hsame.known, hknown, hvalue]
    rfl
  · intro hsame
    refine ⟨h.paused.trans hsame.1, h.chunks, fun id name => ?_⟩
    rw [hknown]
    cases hvalue : table id name with
    | none => rfl
    | some value => exact (hsame.2 id name value hvalue).symm

/-- A laboratory publishes what an action leaves. -/
theorem laboratorySnapshot_published {table : EntityId → String → Option Value} {paused : Bool}
    (hlab : LaboratorySnapshot s) (h : Writes table { s with paused } t)
    (cursor : ObservationCursor) : LaboratorySnapshot (published t cursor) := by
  have hkeys : s.graph.KeysMatch := hlab.1
  exact ⟨h.keysMatch hkeys, WorldSnapshot.hashIsValid_refreshHash _⟩

theorem established_written_iff {table : EntityId → String → Option Value} {paused : Bool}
    (hlab : LaboratorySnapshot s) (h : Writes table { s with paused } t)
    (cursor : ObservationCursor) {id : EntityId} {name : String} {value : Value}
    (hvalue : table id name = some value) :
    Established (published t cursor) (fieldEq id name value) ↔ Expressible name value ∧ id ≠ 0 := by
  have hwritten : laboratoryField (published t cursor) id name = some value := by
    show laboratoryField t id name = some value
    rw [h.laboratory, hvalue]
    rfl
  rw [established_fieldEq_iff (laboratorySnapshot_published hlab h cursor)]
  exact ⟨fun h => ⟨h.1, h.2.1⟩, fun h => ⟨h.1, h.2, hwritten⟩⟩

/-- The postconditions hold in whatever is published after the action, and they hold before it
only where the action changes nothing. -/
def PostconditionsProve (s t : WorldSnapshot) (postconditions : List Predicate) : Prop :=
  (∀ cursor, ∀ p ∈ postconditions, Established (published t cursor) p) ∧
    ((∀ p ∈ postconditions, Established s p) → Unchanged s t)

/-- Postconditions that name entries of the table a step writes. -/
theorem postconditionsProve_iff {table : EntityId → String → Option Value}
    (hlab : LaboratorySnapshot s) (h : Writes table { s with paused := s.paused } t)
    (entries : List (EntityId × String × Value))
    (hentries : ∀ entry ∈ entries, table entry.1 entry.2.1 = some entry.2.2) :
    PostconditionsProve s t (entries.map fun entry => fieldEq entry.1 entry.2.1 entry.2.2) ↔
      (∀ entry ∈ entries, Expressible entry.2.1 entry.2.2 ∧ entry.1 ≠ 0) ∧
        ((∀ entry ∈ entries, laboratoryField s entry.1 entry.2.1 = some entry.2.2) →
          ∀ id name value, table id name = some value → knownField s id name = some value) := by
  have hafter : ∀ entry ∈ entries, ∀ cursor,
      Established (published t cursor) (fieldEq entry.1 entry.2.1 entry.2.2) ↔
        Expressible entry.2.1 entry.2.2 ∧ entry.1 ≠ 0 :=
    fun entry hentry cursor => established_written_iff hlab h cursor (hentries entry hentry)
  unfold PostconditionsProve
  rw [unchanged_iff h]
  simp only [List.forall_mem_map, true_and]
  constructor
  · intro hprove
    have hexpressible : ∀ entry ∈ entries, Expressible entry.2.1 entry.2.2 ∧ entry.1 ≠ 0 :=
      fun entry hentry => (hafter entry hentry s.cursor).1 (hprove.1 s.cursor entry hentry)
    refine ⟨hexpressible, fun hheld => hprove.2 fun entry hentry => ?_⟩
    obtain ⟨hname, hid⟩ := hexpressible entry hentry
    exact (established_fieldEq_iff hlab).2 ⟨hname, hid, hheld entry hentry⟩
  · intro hconditions
    refine ⟨fun cursor entry hentry => (hafter entry hentry cursor).2 (hconditions.1 entry hentry),
      fun hheld => hconditions.2 fun entry hentry => ?_⟩
    exact ((established_fieldEq_iff hlab).1 (hheld entry hentry)).2.2

/-- One field over several units: nothing else is written, so only the bounds matter. -/
theorem unitsProve_iff {units : List EntityId} {field : String} {value : Value}
    (hlab : LaboratorySnapshot s)
    (h : Writes (tableUnits units field value) { s with paused := s.paused } t)
    (hunits : units ≠ []) :
    PostconditionsProve s t (units.map fun unit => fieldEq unit field value) ↔
      Expressible field value ∧ 0 ∉ units := by
  have hentries : ∀ entry ∈ units.map fun unit => (unit, field, value),
      tableUnits units field value entry.1 entry.2.1 = some entry.2.2 := by
    rw [List.forall_mem_map]
    intro unit hunit
    exact if_pos ⟨hunit, rfl⟩
  have hposts : (units.map fun unit => fieldEq unit field value) =
      (units.map fun unit => (unit, field, value)).map
        fun entry => fieldEq entry.1 entry.2.1 entry.2.2 := by
    rw [List.map_map]
    rfl
  have hwritten : (∀ entry ∈ units.map fun unit => (unit, field, value),
      laboratoryField s entry.1 entry.2.1 = some entry.2.2) →
      ∀ id name found, tableUnits units field value id name = some found →
        knownField s id name = some found := by
    intro hheld id name found hfound
    unfold tableUnits at hfound
    by_cases hentry : id ∈ units ∧ name = field
    · rw [if_pos hentry] at hfound
      cases hfound
      rw [hentry.2]
      exact knownField_of_laboratoryField
        (hheld (id, field, value) (List.mem_map_of_mem hentry.1))
    · rw [if_neg hentry] at hfound
      cases hfound
  rw [hposts, postconditionsProve_iff hlab h _ hentries, List.forall_mem_map]
  constructor
  · intro hprove
    obtain ⟨unit, hunit⟩ := List.exists_mem_of_ne_nil units hunits
    exact ⟨(hprove.1 unit hunit).1, fun hzero => (hprove.1 0 hzero).2 rfl⟩
  · intro hbounds
    exact ⟨fun unit hunit => ⟨hbounds.1, fun hzero => hbounds.2 (hzero ▸ hunit)⟩, hwritten⟩

/-- Fields with distinct names are each found under their own. -/
theorem tableOf_eq_some_iff {fields : List (String × Value)}
    (hnodup : (fields.map Prod.fst).Nodup) {name : String} {value : Value} :
    tableOf fields name = some value ↔ (name, value) ∈ fields := by
  induction fields using List.reverseRecOn with
  | nil => simp [tableOf]
  | append_singleton fields field ih =>
      rw [List.map_append, List.nodup_append'] at hnodup
      rw [tableOf_concat, List.mem_append, List.mem_singleton]
      by_cases hname : field.1 = name
      · have habsent : (name, value) ∉ fields := by
          intro hmem
          refine hnodup.2.2 (List.mem_map_of_mem hmem) ?_
          rw [← hname]
          exact List.mem_singleton.2 rfl
        rw [if_pos hname]
        simp only [habsent, false_or, Option.some.injEq]
        exact ⟨fun h => Prod.ext hname.symm h.symm, fun h => (congrArg Prod.snd h).symm⟩
      · rw [if_neg hname, ih hnodup.1]
        refine ⟨Or.inl, fun h => h.resolve_right fun heq => hname ?_⟩
        exact (congrArg Prod.fst heq).symm

theorem nodup_stockpileFields (accepts : BTreeSet String)
    (maxBins maxBarrels maxWheelbarrows : Option (U 32)) :
    (((stockpileAcceptsField, acceptsValue accepts) ::
      stockpileMaximums maxBins maxBarrels maxWheelbarrows).map Prod.fst).Nodup := by
  cases maxBins <;> cases maxBarrels <;> cases maxWheelbarrows <;>
    simp [stockpileMaximums, stockpileAcceptsField, stockpileMaxBinsField,
      stockpileMaxBarrelsField, stockpileMaxWheelbarrowsField]

theorem fortressSettingsEntityId_ne_zero (fortress : FortressId) :
    fortressSettingsEntityId fortress ≠ 0 := by
  intro hzero
  have hval := congrArg Fin.val hzero
  unfold fortressSettingsEntityId LaboratoryCivilian.laboratoryFortressSettingsEntityId at hval
  dsimp only at hval
  have hlow := Nat.and_le_right (n := ofBe ((Digest32.ofBytes
    (utf8 "dfmcp-fortress-settings-v1\x00" ++ putU64 fortress)).bytes.take 8))
    (m := 0x00FFFFFFFFFFFFFF)
  generalize ofBe ((Digest32.ofBytes (utf8 "dfmcp-fortress-settings-v1\x00" ++
    putU64 fortress)).bytes.take 8) &&& 0x00FFFFFFFFFFFFFF = low at hval hlow
  have hfits : 0x7E00000000000000 ||| low < 2 ^ 64 :=
    Nat.or_lt_two_pow (by decide) (hlow.trans_lt (by decide))
  have hbase : 0x7E00000000000000 ≤ 0x7E00000000000000 ||| low := Nat.left_le_or
  rw [U.wrap_val hfits] at hval
  exact absurd (hbase.trans hval.le) (by decide)

/-- The actions whose default postconditions are a proof: their fields fit the bounds of a query,
no unit or stockpile is the reserved identifier, and where a stockpile accepts what is asked
already, the maximums that are asked for are in place as well. -/
def Verifiable (s : WorldSnapshot) : Action → Prop
  | .setLabor units labor _ => strLen (laborFieldPrefix ++ labor) ≤ maxQueryFieldBytes ∧ 0 ∉ units
  | .setBurrowMembership units _ _ | .assignSquad units _ => 0 ∉ units
  | .configureStockpile stockpile accepts maxBins maxBarrels maxWheelbarrows =>
      stockpile ≠ 0 ∧ accepts.size < maxQueryValueNodes ∧
        (accepts.keys.map strLen).sum ≤ maxQueryValueBytes ∧
        (laboratoryField s stockpile stockpileAcceptsField = some (acceptsValue accepts) →
          ∀ limit ∈ stockpileMaximums maxBins maxBarrels maxWheelbarrows,
            knownField s stockpile limit.1 = some limit.2)
  | .setStandingOrder key value =>
      strLen (standingOrderFieldPrefix ++ key) ≤ maxQueryFieldBytes ∧
        strLen value ≤ maxQueryValueBytes
  | _ => True

theorem stockpileProves_iff {stockpile : EntityId} {accepts : BTreeSet String}
    {maxBins maxBarrels maxWheelbarrows : Option (U 32)} (hlab : LaboratorySnapshot s)
    (h : Writes (written s.fortressId
      (.configureStockpile stockpile accepts maxBins maxBarrels maxWheelbarrows))
      { s with paused := s.paused } t) :
    PostconditionsProve s t [fieldEq stockpile stockpileAcceptsField (acceptsValue accepts)] ↔
      Verifiable s (.configureStockpile stockpile accepts maxBins maxBarrels maxWheelbarrows) := by
  have htable : ∀ id name value, written s.fortressId
      (.configureStockpile stockpile accepts maxBins maxBarrels maxWheelbarrows) id name =
        some value ↔ id = stockpile ∧
          (name, value) ∈ (stockpileAcceptsField, acceptsValue accepts) ::
            stockpileMaximums maxBins maxBarrels maxWheelbarrows := by
    intro id name value
    show tableAt stockpile (tableOf _) id name = _ ↔ _
    unfold tableAt
    by_cases hid : id = stockpile
    · rw [if_pos hid, tableOf_eq_some_iff (nodup_stockpileFields _ _ _ _)]
      exact (and_iff_right hid).symm
    · rw [if_neg hid]
      simp [hid]
  have hprove := postconditionsProve_iff hlab h
    [(stockpile, stockpileAcceptsField, acceptsValue accepts)]
    (by
      rw [List.forall_mem_singleton]
      exact (htable _ _ _).2 ⟨rfl, List.mem_cons_self⟩)
  refine hprove.trans ?_
  simp only [List.forall_mem_singleton, expressible_accepts]
  unfold Verifiable
  constructor
  · intro hholds
    refine ⟨hholds.1.2, hholds.1.1.1, hholds.1.1.2, fun hheld limit hlimit => ?_⟩
    exact hholds.2 hheld stockpile limit.1 limit.2
      ((htable _ _ _).2 ⟨rfl, List.mem_cons_of_mem _ hlimit⟩)
  · intro hholds
    refine ⟨⟨⟨hholds.2.1, hholds.2.2.1⟩, hholds.1⟩, fun hheld id name value hvalue => ?_⟩
    obtain ⟨rfl, hmem⟩ := (htable _ _ _).1 hvalue
    rcases List.mem_cons.1 hmem with heq | hlimit
    · cases heq
      exact knownField_of_laboratoryField hheld
    · exact hholds.2.2.2 hheld (name, value) hlimit

theorem standingOrderProves_iff {name value : String} (hlab : LaboratorySnapshot s)
    (h : Writes (written s.fortressId (.setStandingOrder name value))
      { s with paused := s.paused } t) :
    PostconditionsProve s t [fieldEq (fortressSettingsEntityId s.fortressId)
        (standingOrderFieldPrefix ++ name) (.text value)] ↔
      Verifiable s (.setStandingOrder name value) := by
  have htable : ∀ id field found, written s.fortressId (.setStandingOrder name value) id field =
      some found ↔ id = fortressSettingsEntityId s.fortressId ∧
        field = standingOrderFieldPrefix ++ name ∧ found = .text value := by
    intro id field found
    show tableAt (fortressSettingsEntityId s.fortressId) (tableOf _) id field = _ ↔ _
    unfold tableAt
    rw [tableOf_singleton]
    by_cases hid : id = fortressSettingsEntityId s.fortressId <;>
      by_cases hfield : field = standingOrderFieldPrefix ++ name <;> simp [hid, hfield, eq_comm]
  have hprove := postconditionsProve_iff hlab h
    [(fortressSettingsEntityId s.fortressId, standingOrderFieldPrefix ++ name, .text value)]
    (by
      rw [List.forall_mem_singleton]
      exact (htable _ _ _).2 ⟨rfl, rfl, rfl⟩)
  refine hprove.trans ?_
  simp only [List.forall_mem_singleton, expressible_text]
  unfold Verifiable
  constructor
  · exact fun hholds => hholds.1.1
  · intro hholds
    refine ⟨⟨hholds, fortressSettingsEntityId_ne_zero _⟩, fun hheld id field found hfound => ?_⟩
    obtain ⟨rfl, rfl, rfl⟩ := (htable _ _ _).1 hfound
    exact knownField_of_laboratoryField hheld

/-- **Default postconditions prove an effect exactly for the verifiable actions.** -/
theorem default_postconditions_prove_iff (models : Models) (s t : WorldSnapshot) (action : Action)
    (key : String) (changed : Bool) (hlab : LaboratorySnapshot s)
    (htemporal : action.naturallyTemporal = false)
    (h : applyEffect models s action key = .ok (t, changed)) :
    PostconditionsProve s t (defaultPostconditions action key s.fortressId) ↔
      Verifiable s action := by
  have hinner := applyEffectInner_of_applyEffect htemporal h
  obtain ⟨hwrites, hunits⟩ := applyEffectInner_writes htemporal hinner
  cases action with
  | pause paused =>
      refine iff_of_true ⟨fun cursor => ?_, fun hheld => ?_⟩ trivial
      · rw [defaultPostconditions, List.forall_mem_singleton,
          established_paused_iff (laboratorySnapshot_published hlab hwrites cursor)]
        exact hwrites.paused
      · rw [defaultPostconditions, List.forall_mem_singleton, established_paused_iff hlab] at hheld
        exact (unchanged_iff hwrites).2 ⟨hheld.symm, nofun⟩
  | setLabor units labor enabled =>
      exact (unitsProve_iff hlab hwrites (hunits units rfl)).trans
        (and_congr_left fun _ => expressible_bool)
  | setBurrowMembership units burrow assigned =>
      exact (unitsProve_iff hlab hwrites (hunits units rfl)).trans
        (and_iff_right (expressible_bool.2 (strLen_burrow burrow)))
  | assignSquad units squad =>
      exact (unitsProve_iff hlab hwrites (hunits units rfl)).trans
        (and_iff_right (expressible_entity.2 (by decide)))
  | configureStockpile stockpile accepts maxBins maxBarrels maxWheelbarrows =>
      exact stockpileProves_iff hlab hwrites
  | setStandingOrder name value => exact standingOrderProves_iff hlab hwrites
  | extension namespaceName name parameters => cases hinner
  | designateDig area mode => cases htemporal
  | build kind location footprint material => cases htemporal
  | placeFurniture kind item location => cases htemporal
  | createWorkOrder name jobToken amount conditions => cases htemporal

/-! ### A larder that is full already -/

namespace Larder

/-- No economy model is declared. -/
def quiet : Models where
  laboratoryWorkforceModel := fun _ => .ok none
  constructionMaterialModel := fun _ => .ok none
  provisionsModel := fun _ => .ok none
  dispatch := fun _ _ _ => .error (precondition "no temporal work")
  orderRegistered := fun _ => false
  stamp := fun s _ => .ok (s, false)

/-- What the larder takes. -/
def meat : BTreeSet String := .ofList [("MEAT", ())]

/-- A stockpile that takes meat, and states no maximum. -/
def larder : EntityRecord :=
  ⟨5, 1, 1, .stockpile, "larder",
    .ofList [(stockpileAcceptsField, Effects.known (acceptsValue meat) 0)]⟩

def world : WorldSnapshot := Sample.snapshot 0 (Sample.entities [larder])

/-- Meat, in four bins at most. -/
def fill : Action := .configureStockpile 5 meat (some 4) none none

/-- The larder with its maximum. -/
def filled : WorldSnapshot :=
  putEntity world 5 { larder with
    revision := 2
    fields := larder.fields.insert stockpileMaxBinsField (Effects.known (.u64 4) 0) }

theorem laboratory_world : LaboratorySnapshot world :=
  ⟨by decide, Sample.snapshot_hashIsValid 0 _⟩

theorem applyEffect_fill : applyEffect quiet world fill "fill" = .ok (filled, true) := by
  rfl

end Larder

/-- The larder takes meat already, so its postcondition is established before the maximum of four
bins is there. -/
theorem stockpile_maximum_unproved :
    LaboratorySnapshot Larder.world ∧ Larder.fill.naturallyTemporal = false ∧
      applyEffect Larder.quiet Larder.world Larder.fill "fill" = .ok (Larder.filled, true) ∧
      (∀ p ∈ defaultPostconditions Larder.fill "fill" Larder.world.fortressId,
        Established Larder.world p) ∧
      knownField Larder.world 5 stockpileMaxBinsField = none ∧
      knownField Larder.filled 5 stockpileMaxBinsField = some (.u64 4) ∧
      ¬ PostconditionsProve Larder.world Larder.filled
        (defaultPostconditions Larder.fill "fill" Larder.world.fortressId) := by
  have hheld : ∀ p ∈ defaultPostconditions Larder.fill "fill" Larder.world.fortressId,
      Established Larder.world p := by
    intro p hp
    rw [List.mem_singleton.1 hp]
    apply (established_fieldEq_iff Larder.laboratory_world).2
    exact ⟨expressible_accepts.2 (by decide), by decide, rfl⟩
  have hbefore : knownField Larder.world 5 stockpileMaxBinsField = none := rfl
  have hafter : knownField Larder.filled 5 stockpileMaxBinsField = some (.u64 4) := rfl
  refine ⟨Larder.laboratory_world, rfl, Larder.applyEffect_fill, hheld, hbefore, hafter, ?_⟩
  intro hprove
  have hsame := (hprove.2 hheld).known 5 stockpileMaxBinsField
  rw [hbefore, hafter] at hsame
  cases hsame

theorem default_postconditions_prove_iff_larder :
    PostconditionsProve Larder.world Larder.filled
        (defaultPostconditions Larder.fill "fill" Larder.world.fortressId) ↔
      Verifiable Larder.world Larder.fill :=
  default_postconditions_prove_iff Larder.quiet Larder.world Larder.filled Larder.fill "fill" true
    Larder.laboratory_world rfl Larder.applyEffect_fill

/-! ## Compensation -/

/-- The prior flag and the prior known values are back. -/
def Restored (s u : WorldSnapshot) : Prop :=
  u.paused = s.paused ∧ ∀ id name, knownField u id name = knownField s id name

/-- The state before an action is the opposite of what the action asks for. -/
def Opposite (s : WorldSnapshot) : Action → Prop
  | .pause target => s.paused = !target
  | .setLabor units labor enabled =>
      ∀ unit ∈ units, knownField s unit (laborFieldPrefix ++ labor) = some (.bool !enabled)
  | .setBurrowMembership units burrow assigned =>
      ∀ unit ∈ units,
        knownField s unit (burrowFieldPrefix ++ toString burrow) = some (.bool !assigned)
  | _ => True

/-- Two writes to the same field of the same units leave the second. -/
theorem unitsRestored_iff {units : List EntityId} {field : String} {first second : Value}
    (h : Writes (tableUnits units field first) { s with paused := s.paused } t)
    (h' : Writes (tableUnits units field second) { t with paused := t.paused } u) :
    Restored s u ↔ ∀ unit ∈ units, knownField s unit field = some second := by
  have hknown : ∀ id name, knownField u id name =
      (tableUnits units field second id name).or (knownField s id name) := by
    intro id name
    have hfirst : knownField t id name =
        (tableUnits units field first id name).or (knownField s id name) := h.known id name
    have hsecond : knownField u id name =
        (tableUnits units field second id name).or (knownField t id name) := h'.known id name
    rw [hsecond, hfirst]
    unfold tableUnits
    by_cases hentry : id ∈ units ∧ name = field
    · rw [if_pos hentry, if_pos hentry]
      rfl
    · rw [if_neg hentry, if_neg hentry]
      rfl
  constructor
  · intro hrestored unit hunit
    rw [← hrestored.2, hknown, tableUnits, if_pos ⟨hunit, rfl⟩]
    rfl
  · intro hopposite
    refine ⟨h'.paused.trans h.paused, fun id name => ?_⟩
    rw [hknown]
    unfold tableUnits
    by_cases hentry : id ∈ units ∧ name = field
    · rw [if_pos hentry, hentry.2]
      exact (hopposite id hentry.1).symm
    · rw [if_neg hentry]
      rfl

/-- **A default compensation restores exactly what was the opposite.** -/
theorem default_compensation_restores_iff (models : Models) (s t u : WorldSnapshot)
    (action compensation : Action) (key key' : String) (changed changed' : Bool)
    (hcompensation : defaultCompensation action = some compensation)
    (h : applyEffect models s action key = .ok (t, changed))
    (h' : applyEffect models t compensation key' = .ok (u, changed')) :
    Restored s u ↔ Opposite s action := by
  cases action with
  | pause target =>
      cases hcompensation
      have hfirst := applyEffectInner_of_applyEffect rfl h
      have hsecond := applyEffectInner_of_applyEffect rfl h'
      cases hfirst
      cases hsecond
      exact ⟨fun hrestored => hrestored.1.symm, fun hopposite => ⟨hopposite.symm, fun _ _ => rfl⟩⟩
  | setLabor units labor enabled =>
      cases hcompensation
      have hfirst := applyEffectInner_writes rfl (applyEffectInner_of_applyEffect rfl h)
      have hsecond := applyEffectInner_writes rfl (applyEffectInner_of_applyEffect rfl h')
      exact unitsRestored_iff hfirst.1 hsecond.1
  | setBurrowMembership units burrow assigned =>
      cases hcompensation
      have hfirst := applyEffectInner_writes rfl (applyEffectInner_of_applyEffect rfl h)
      have hsecond := applyEffectInner_writes rfl (applyEffectInner_of_applyEffect rfl h')
      exact unitsRestored_iff hfirst.1 hsecond.1
  | _ => cases hcompensation

/-- Pausing a world and letting it run again brings it back only where it ran. -/
theorem default_compensation_restores_iff_pause :
    Restored Larder.world { { Larder.world with paused := true } with paused := false } ↔
      Opposite Larder.world (.pause true) :=
  default_compensation_restores_iff Larder.quiet Larder.world { Larder.world with paused := true } _
    (.pause true) (.pause false) "pause" "resume" true true rfl rfl rfl

/-- A world that was paused already is left running. -/
theorem paused_world_left_running :
    let s : WorldSnapshot := .new 1 0 ⟨0, 0⟩ true WorldGraph.empty
    s.hashIsValid = true ∧ defaultCompensation (.pause true) = some (.pause false) ∧
      applyEffect Larder.quiet s (.pause true) "pause" = .ok (s, false) ∧
      applyEffect Larder.quiet s (.pause false) "resume" = .ok ({ s with paused := false }, true) ∧
      ¬ Restored s { s with paused := false } :=
  ⟨WorldSnapshot.hashIsValid_refreshHash _, rfl, rfl, rfl, fun hrestored => nomatch hrestored.1⟩

end Effects

end Dfmcp
