import Dfmcp.World.Attention
import Dfmcp.World.Search

/-!
# What withheld facts show

Two snapshots that differ only in values no presence establishes. The documents of the search index
are made from established values, so they are the same, and a query is answered alike wherever both
snapshots are admitted to the index. The attention ledger reads the stored stress of a unit whatever
its presence says, so its signals are the same exactly when the stored values raise the same alarms.

* `Withheld` — the two snapshots differ in withheld values alone;
* `documents_eq` — the search index sees nothing of them;
* `signals_eq_iff` — what the attention ledger sees of them;
* `withheld_facts_show_iff` — when neither shows anything.
-/

namespace Dfmcp

open Machine

/-! ## Snapshots that differ in withheld values -/

/-- Two facts that are the same, or that both establish nothing and differ in the stored value. -/
def Fact.Withheld (a b : Fact) : Prop :=
  a = b ∨ (a.knownValue = none ∧ b.knownValue = none ∧ b = { a with value := b.value })

/-- Maps with the same keys and related values. -/
def OMap.Related {K V : Type} [LinearOrder K] (r : V → V → Prop) (m m' : BTreeMap K V) : Prop :=
  ∀ k, Option.Rel r (m.get? k) (m'.get? k)

def EntityRecord.Withheld (a b : EntityRecord) : Prop :=
  b = { a with fields := b.fields } ∧ OMap.Related Fact.Withheld a.fields b.fields

def EdgeRecord.Withheld (a b : EdgeRecord) : Prop :=
  b = { a with fields := b.fields } ∧ OMap.Related Fact.Withheld a.fields b.fields

/-- The second snapshot differs from the first only in withheld values, and in the state hash that
binds them. -/
structure WorldSnapshot.Withheld (s t : WorldSnapshot) : Prop where
  entities : OMap.Related EntityRecord.Withheld s.graph.entities t.graph.entities
  edges : OMap.Related EdgeRecord.Withheld s.graph.edges t.graph.edges
  rest : t = { s with
    graph := { s.graph with entities := t.graph.entities, edges := t.graph.edges }
    stateHash := t.stateHash }

/-- Whatever reads related values alike reads the maps alike. -/
theorem OMap.Related.mapValues_eq {K V W : Type} [LinearOrder K] {r : V → V → Prop}
    {m m' : BTreeMap K V} (h : OMap.Related r m m') {f : K → V → W}
    (hf : ∀ k a b, m.get? k = some a → m'.get? k = some b → r a b → f k a = f k b) :
    m.mapValues f = m'.mapValues f := by
  refine OMap.ext_get? fun k => ?_
  rw [OMap.get?_mapValues, OMap.get?_mapValues]
  have hk := h k
  cases hm : m.get? k with
  | none =>
      rw [hm] at hk
      cases hm' : m'.get? k with
      | none => rfl
      | some b =>
          rw [hm'] at hk
          cases hk
  | some a =>
      rw [hm] at hk
      cases hm' : m'.get? k with
      | none =>
          rw [hm'] at hk
          cases hk
      | some b =>
          rw [hm'] at hk
          cases hk with
          | some hab => rw [Option.map_some, Option.map_some, hf k a b hm hm' hab]

/-- A map read entry by entry. -/
theorem OMap.filterMap_toList {K V W : Type} [LinearOrder K] (m : BTreeMap K V)
    (f : K → V → Option W) :
    (m.toList.filterMap fun e => f e.1 e.2) = (m.mapValues f).toList.filterMap Prod.snd := by
  rw [OMap.toList_mapValues, List.filterMap_map]
  rfl

theorem OMap.map_toList {K V W : Type} [LinearOrder K] (m : BTreeMap K V) (f : K → V → W) :
    (m.toList.map fun e => f e.1 e.2) = (m.mapValues f).toList.map Prod.snd := by
  rw [OMap.toList_mapValues, List.map_map]
  rfl

theorem Fact.Withheld.knownValue_eq {a b : Fact} (h : a.Withheld b) :
    a.knownValue = b.knownValue := by
  rcases h with h | ⟨ha, hb, _⟩
  · rw [h]
  · rw [ha, hb]

theorem Fact.Withheld.sourceDigest_eq {a b : Fact} (h : a.Withheld b) :
    a.sourceDigest = b.sourceDigest := by
  rcases h with h | ⟨_, _, h⟩
  · rw [h]
  · rw [h]

/-! ## The search index -/

namespace FrankenSearchEngine

variable (rules : TextRules)

theorem entityDocument_eq (id : EntityId) {a b : EntityRecord} (h : a.Withheld b) :
    entityDocument rules id a = entityDocument rules id b := by
  have hlabel : b.label = a.label := by rw [h.1]
  have hkind : b.kind = a.kind := by rw [h.1]
  have hfacts := h.2.mapValues_eq (f := fun name fact =>
    fact.knownValue.map fun value => name ++ ": " ++ value.debug rules)
    fun name x y _ _ hxy => by rw [hxy.knownValue_eq]
  rw [entityDocument, entityDocument, hlabel, hkind]
  have htext := congrArg (fun m => m.toList.filterMap Prod.snd) hfacts
  simp only [← OMap.filterMap_toList] at htext
  simp only [htext]

/-- **The documents of a snapshot show nothing withheld.** -/
theorem documents_eq {s t : WorldSnapshot} (h : s.Withheld t) :
    documents rules s = documents rules t := by
  have hevents : t.graph.events = s.graph.events := by rw [h.rest]
  have hentities := h.entities.mapValues_eq (f := entityDocument rules)
    fun id _ _ _ _ hab => entityDocument_eq rules id hab
  have hlist := congrArg (fun m => m.toList.map Prod.snd) hentities
  simp only [← OMap.map_toList] at hlist
  rw [documents, documents, hevents]
  exact congrArg (· ++ _) hlist

/-- An error is that of the first step or of the second. -/
theorem bind_error_iff {α β : Type} {x : Result α} {f : α → Result β} {e : DfmcpError} :
    (x >>= f) = .error e ↔ x = .error e ∨ ∃ a, x = .ok a ∧ f a = .error e := by
  cases x with
  | error e' => simp [bind, Except.bind]
  | ok a => simp [bind, Except.bind]

/-- The errors of one document. -/
def documentErrors : List DfmcpError :=
  [exhausted "search document exceeds its count, title, or body bound",
    exhausted "search document byte count overflowed",
    exhausted "search index byte count overflowed",
    exhausted "search index reached its explicit byte bound",
    exhausted "search token count overflowed",
    exhausted "search index reached its explicit token bound",
    exhausted "search document count overflowed"]

theorem counted_error {sum : Option Nat} {message : String} {e : DfmcpError}
    (h : counted sum message = .error e) : e = exhausted message := by
  cases sum with
  | none => exact (Except.error.inj h).symm
  | some n => cases h

theorem indexDocument_error {engine : FrankenSearchEngine} {document : SearchDocument}
    {e : DfmcpError} (h : indexDocument rules engine document = .error e) :
    e ∈ documentErrors := by
  unfold indexDocument at h
  split_ifs at h
  · obtain rfl := Except.error.inj h
    simp [documentErrors]
  rcases bind_error_iff.1 h with h | ⟨_, _, h⟩
  · rw [counted_error h]
    simp [documentErrors]
  rcases bind_error_iff.1 h with h | ⟨_, _, h⟩
  · rw [counted_error h]
    simp [documentErrors]
  split_ifs at h
  · obtain rfl := Except.error.inj h
    simp [documentErrors]
  rcases bind_error_iff.1 h with h | ⟨_, _, h⟩
  · rw [counted_error h]
    simp [documentErrors]
  split_ifs at h
  · obtain rfl := Except.error.inj h
    simp [documentErrors]
  rcases bind_error_iff.1 h with h | ⟨_, _, h⟩
  · rw [counted_error h]
    simp [documentErrors]
  · cases h

theorem foldlM_indexDocument_error {engine : FrankenSearchEngine}
    {list : List SearchDocument} {e : DfmcpError}
    (h : list.foldlM (indexDocument rules) engine = .error e) : e ∈ documentErrors := by
  induction list generalizing engine with
  | nil => cases h
  | cons document list ih =>
      rw [List.foldlM_cons] at h
      rcases bind_error_iff.1 h with h | ⟨next, _, h⟩
      · exact indexDocument_error rules h
      · exact ih h

/-- Two snapshots are admitted to the index alike: the hash is valid in both or in neither, and
where it is valid the bounds are exceeded in both or in neither. -/
def AdmittedAlike (s t : WorldSnapshot) : Prop :=
  s.hashIsValid = t.hashIsValid ∧ (s.hashIsValid = true → exceedsBounds s = exceedsBounds t)

theorem indexSnapshot_invalid {s : WorldSnapshot} (h : s.hashIsValid = false) :
    indexSnapshot rules s = .error (.new .internalInvariantViolation
      "cannot index a snapshot with an invalid canonical state hash") := by
  rw [indexSnapshot, h]
  rfl

theorem indexSnapshot_exceeds {s : WorldSnapshot} (h : s.hashIsValid = true)
    (hbounds : exceedsBounds s = true) :
    indexSnapshot rules s = .error (.new .budgetExceeded
      "snapshot exceeds the in-memory search indexing bounds or has an invalid hash") := by
  rw [indexSnapshot, h, hbounds]
  rfl

theorem indexSnapshot_admitted {s : WorldSnapshot} (h : s.hashIsValid = true)
    (hbounds : exceedsBounds s = false) :
    indexSnapshot rules s = (documents rules s).foldlM (indexDocument rules) new := by
  rw [indexSnapshot, h, hbounds]
  rfl

/-- Snapshots admitted alike are indexed alike. -/
theorem indexSnapshot_eq {s t : WorldSnapshot} (h : s.Withheld t) (halike : AdmittedAlike s t) :
    indexSnapshot rules s = indexSnapshot rules t := by
  cases hs : s.hashIsValid with
  | false => rw [indexSnapshot_invalid rules hs, indexSnapshot_invalid rules (halike.1 ▸ hs)]
  | true =>
      have ht : t.hashIsValid = true := halike.1 ▸ hs
      have hexceeds := halike.2 hs
      cases hbounds : exceedsBounds s with
      | true =>
          rw [indexSnapshot_exceeds rules hs hbounds,
            indexSnapshot_exceeds rules ht (hexceeds ▸ hbounds)]
      | false =>
          rw [indexSnapshot_admitted rules hs hbounds,
            indexSnapshot_admitted rules ht (hexceeds ▸ hbounds), documents_eq rules h]

/-- An empty query of an index has an empty answer. -/
theorem search_nothing (engine : FrankenSearchEngine) :
    ∃ hits, search rules engine "" 0 = .ok hits := by
  rw [search, if_neg (by decide)]
  dsimp only
  split_ifs
  · exact ⟨[], rfl⟩
  · exact ⟨_, rfl⟩

/-- What an empty query reports of a snapshot with a valid hash. -/
theorem searchSnapshot_error {s : WorldSnapshot} {e : DfmcpError} (hs : s.hashIsValid = true)
    (h : searchSnapshot rules s "" 0 = .error e) :
    (exceedsBounds s = true ∧ e = .new .budgetExceeded
      "snapshot exceeds the in-memory search indexing bounds or has an invalid hash") ∨
    (exceedsBounds s = false ∧ e ∈ documentErrors) := by
  rcases bind_error_iff.1 h with h | ⟨engine, _, h⟩
  · cases hbounds : exceedsBounds s with
    | true =>
        rw [indexSnapshot_exceeds rules hs hbounds] at h
        exact .inl ⟨rfl, (Except.error.inj h).symm⟩
    | false =>
        rw [indexSnapshot_admitted rules hs hbounds] at h
        exact .inr ⟨rfl, foldlM_indexDocument_error rules h⟩
  · obtain ⟨hits, hhits⟩ := search_nothing rules engine
    rw [hhits] at h
    cases h

/-- A snapshot answered like one with a valid hash has a valid hash, and exceeds the bounds only if
the other does. -/
theorem admitted_of_same {s t : WorldSnapshot} (hs : s.hashIsValid = true)
    (hsame : searchSnapshot rules s "" 0 = searchSnapshot rules t "" 0) :
    t.hashIsValid = true ∧ (exceedsBounds t = true → exceedsBounds s = true) := by
  have hrefused : ∀ e, indexSnapshot rules t = .error e →
      searchSnapshot rules s "" 0 = .error e := by
    intro e he
    rw [hsame, searchSnapshot, he]
    rfl
  have hvalid : t.hashIsValid = true := by
    by_contra hnot
    have herror := hrefused _ (indexSnapshot_invalid rules (Bool.not_eq_true _ ▸ hnot))
    rcases searchSnapshot_error rules hs herror with ⟨_, he⟩ | ⟨_, he⟩
    · exact absurd he (by decide)
    · exact absurd he (by decide)
  refine ⟨hvalid, fun hbounds => ?_⟩
  rcases searchSnapshot_error rules hs
    (hrefused _ (indexSnapshot_exceeds rules hvalid hbounds)) with ⟨hexceeds, _⟩ | ⟨_, he⟩
  · exact hexceeds
  · exact absurd he (by decide)

/-- **A query shows nothing withheld** exactly where both snapshots are admitted alike. -/
theorem searchSnapshot_eq_iff {s t : WorldSnapshot} (h : s.Withheld t) :
    (∀ query limit, searchSnapshot rules s query limit = searchSnapshot rules t query limit) ↔
      AdmittedAlike s t := by
  constructor
  · intro hsame
    have hempty := hsame "" 0
    cases hs : s.hashIsValid with
    | false =>
        refine ⟨?_, fun hvalid => by cases hs.symm.trans hvalid⟩
        cases ht : t.hashIsValid with
        | false => exact hs
        | true => exact (admitted_of_same rules ht hempty.symm).1
    | true =>
        obtain ⟨ht, hback⟩ := admitted_of_same rules hs hempty
        obtain ⟨_, hforth⟩ := admitted_of_same rules ht hempty.symm
        exact ⟨hs.trans ht.symm, fun _ => Bool.eq_iff_iff.2 ⟨hforth, hback⟩⟩
  · intro halike query limit
    rw [searchSnapshot, searchSnapshot, indexSnapshot_eq rules h halike]

end FrankenSearchEngine

/-! ## The attention ledger -/

namespace AttentionEngine

/-- The stored stress that raises an alarm. -/
def alarmValue (entity : EntityRecord) : Option (S 64) := (stressAlarm entity).map Prod.snd

/-- Every unit's stored stress raises the same alarm in both snapshots, or none in either. -/
def AlarmsAlike (s t : WorldSnapshot) : Prop :=
  ∀ id a b, s.graph.entities.get? id = some a → t.graph.entities.get? id = some b →
    alarmValue a = alarmValue b

/-- An alarm is the stored stress of a unit. -/
theorem stressAlarm_eq_some {entity : EntityRecord} {fact : Fact} {stressVal : S 64} :
    stressAlarm entity = some (fact, stressVal) ↔
      entity.kind = .unit ∧ entity.fields.get? "stress" = some fact ∧
        fact.value = .i64 stressVal ∧ stressVal.val > 50 := by
  rw [stressAlarm]
  by_cases hkind : entity.kind = .unit
  · rw [if_pos hkind]
    cases hfact : entity.fields.get? "stress" with
    | none => simp
    | some found =>
        rw [Option.bind_some]
        cases hvalue : found.value with
        | i64 v =>
            dsimp only
            by_cases hhigh : v.val > 50
            · rw [if_pos hhigh]
              simp only [Option.some.injEq, Prod.mk.injEq, hkind, true_and]
              constructor
              · rintro ⟨rfl, rfl⟩
                exact ⟨rfl, hvalue, hhigh⟩
              · rintro ⟨rfl, hv, _⟩
                rw [hvalue, Value.i64.injEq] at hv
                exact ⟨rfl, hv⟩
            · rw [if_neg hhigh]
              refine iff_of_false (by rintro ⟨⟩) ?_
              rintro ⟨_, hsame, hv, hhigh'⟩
              obtain rfl := Option.some.inj hsame
              rw [hvalue, Value.i64.injEq] at hv
              exact hhigh (hv ▸ hhigh')
        | _ =>
            refine iff_of_false (by rintro ⟨⟩) ?_
            rintro ⟨_, hsame, hv, _⟩
            obtain rfl := Option.some.inj hsame
            rw [hvalue] at hv
            cases hv
  · rw [if_neg hkind]
    simp [hkind]

/-- Entities that raise the same alarm raise the same signal. -/
theorem stressSignal_eq (id : EntityId) {a b : EntityRecord} (h : a.Withheld b)
    (halarm : alarmValue a = alarmValue b) : stressSignal id a = stressSignal id b := by
  have hlabel : b.label = a.label := by rw [h.1]
  unfold alarmValue at halarm
  cases ha : stressAlarm a with
  | none =>
      rw [ha, Option.map_none] at halarm
      rw [stressSignal, stressSignal, ha, Option.map_eq_none_iff.1 halarm.symm]
      rfl
  | some found =>
      obtain ⟨fact, stressVal⟩ := found
      rw [ha, Option.map_some] at halarm
      obtain ⟨⟨fact', stressVal'⟩, hb, hsame⟩ := Option.map_eq_some_iff.1 halarm.symm
      dsimp only at hsame
      subst hsame
      have hdigest : fact.sourceDigest = fact'.sourceDigest := by
        have hrelated := h.2 "stress"
        rw [(stressAlarm_eq_some.1 ha).2.1, (stressAlarm_eq_some.1 hb).2.1] at hrelated
        cases hrelated with
        | some hfacts => exact hfacts.sourceDigest_eq
      rw [stressSignal, stressSignal, ha, hb, Option.map_some, Option.map_some, hlabel]
      dsimp only
      rw [hdigest]

/-- Numbers are displayed apart. -/
theorem toString_natCast_inj {m n : Nat} (h : toString (m : Int) = toString (n : Int)) : m = n := by
  have hdigits : ∀ k : Nat, (toString (k : Int)).toList = Nat.toDigits 10 k := fun k => by
    show (Nat.repr k).toList = _
    exact Nat.toList_repr
  have hsame := congrArg String.toList h
  rw [hdigits, hdigits] at hsame
  rw [← Nat.ofDigitChars_ten_toDigits (n := m), hsame, Nat.ofDigitChars_ten_toDigits]

/-- A signal names its entity and the stored stress. -/
theorem stressSignal_inj {id id' : EntityId} {a b : EntityRecord} {signal : AttentionSignal}
    (ha : stressSignal id a = some signal) (hb : stressSignal id' b = some signal) :
    id = id' ∧ alarmValue a = alarmValue b := by
  obtain ⟨⟨fact, v⟩, halarm, rfl⟩ := Option.map_eq_some_iff.1 ha
  obtain ⟨⟨fact', v'⟩, halarm', hsame⟩ := Option.map_eq_some_iff.1 hb
  simp only [AttentionSignal.mk.injEq, Option.some.injEq, List.cons.injEq, and_true, true_and,
    String.append_right_inj] at hsame
  obtain ⟨hid, _, _, hstress, _⟩ := hsame
  have hv : 50 < v.val := (stressAlarm_eq_some.1 halarm).2.2.2
  have hv' : 50 < v'.val := (stressAlarm_eq_some.1 halarm').2.2.2
  have hcast : ∀ z : S 64, 50 < z.val → ((z.val.toNat : Nat) : Int) = z.val := fun z hz => by omega
  have hnat : v'.val.toNat = v.val.toNat := by
    apply toString_natCast_inj
    rw [hcast v hv, hcast v' hv']
    exact hstress
  have hsame : v = v' := Subtype.ext (by omega)
  exact ⟨hid.symm, by rw [alarmValue, alarmValue, halarm, halarm', hsame]; rfl⟩

/-- What a ledger with room for every signal lists. -/
theorem mem_signals_iff {s : WorldSnapshot} {maxSignals : Nat}
    (hroom : (allSignals s).length ≤ maxSignals) (generation : U 64) (signal : AttentionSignal) :
    signal ∈ (rankAttention s generation maxSignals).signals ↔
      ∃ id entity, s.graph.entities.get? id = some entity ∧
        stressSignal id entity = some signal := by
  rw [rankAttention, if_neg (by rw [List.length_mergeSort]; omega), AttentionLedger.new]
  dsimp only
  rw [List.mem_mergeSort, List.mem_mergeSort, allSignals, List.mem_filterMap]
  constructor
  · rintro ⟨⟨id, entity⟩, hmem, hsignal⟩
    exact ⟨id, entity, (OMap.mem_toList_iff _ _ _).1 hmem, hsignal⟩
  · rintro ⟨id, entity, hget, hsignal⟩
    exact ⟨(id, entity), (OMap.mem_toList_iff _ _ _).2 hget, hsignal⟩

/-- An alarm of the first snapshot is one of the second, where the signals are the same. -/
theorem alarm_of_signals {s t : WorldSnapshot}
    (hsame : ∀ generation maxSignals, (rankAttention s generation maxSignals).signals =
      (rankAttention t generation maxSignals).signals)
    {id : EntityId} {a b : EntityRecord} (ha : s.graph.entities.get? id = some a)
    (hb : t.graph.entities.get? id = some b) (halarm : alarmValue a ≠ none) :
    alarmValue a = alarmValue b := by
  have hsome : ∃ signal, stressSignal id a = some signal := by
    cases hstress : stressAlarm a with
    | none => exact absurd (by rw [alarmValue, hstress]; rfl) halarm
    | some found => exact ⟨_, by rw [stressSignal, hstress]; rfl⟩
  obtain ⟨signal, hsignal⟩ := hsome
  have hmem : signal ∈
      (rankAttention s 0 ((allSignals s).length + (allSignals t).length)).signals :=
    (mem_signals_iff (Nat.le_add_right _ _) 0 signal).2 ⟨id, a, ha, hsignal⟩
  rw [hsame] at hmem
  obtain ⟨id', b', hb', hsignal'⟩ := (mem_signals_iff (Nat.le_add_left _ _) 0 signal).1 hmem
  obtain ⟨hid, hvalue⟩ := stressSignal_inj hsignal hsignal'
  rw [← hid, hb] at hb'
  rwa [Option.some.inj hb']

/-- **The signals show what the stored stress values raise.** -/
theorem signals_eq_iff {s t : WorldSnapshot} (h : s.Withheld t) :
    (∀ generation maxSignals, (rankAttention s generation maxSignals).signals =
      (rankAttention t generation maxSignals).signals) ↔ AlarmsAlike s t := by
  constructor
  · intro hsame id a b ha hb
    cases halarm : alarmValue a with
    | some v => rw [← halarm, alarm_of_signals hsame ha hb (by rw [halarm]; exact nofun)]
    | none =>
        by_contra hne
        have hother := alarm_of_signals (fun g n => (hsame g n).symm) hb ha (Ne.symm hne)
        exact hne (hother.trans halarm).symm
  · intro halike generation maxSignals
    have hall : allSignals s = allSignals t := by
      rw [allSignals, allSignals]
      have hmaps := h.entities.mapValues_eq (f := stressSignal)
        fun id a b ha hb hab => stressSignal_eq id hab (halike id a b ha hb)
      have hlists := congrArg (fun m => m.toList.filterMap Prod.snd) hmaps
      simp only [← OMap.filterMap_toList] at hlists
      exact hlists
    rw [rankAttention, rankAttention, hall]
    split_ifs <;> rfl

end AttentionEngine

/-! ## Both consumers -/

/-- Nothing withheld shows: the signals are the same, and so is the answer of every query. -/
structure NothingShows (rules : TextRules) (s t : WorldSnapshot) : Prop where
  signals : ∀ generation maxSignals,
    (AttentionEngine.rankAttention s generation maxSignals).signals =
      (AttentionEngine.rankAttention t generation maxSignals).signals
  hits : ∀ query limit, FrankenSearchEngine.searchSnapshot rules s query limit =
    FrankenSearchEngine.searchSnapshot rules t query limit

/-- **Withheld values stay hidden exactly where the stored stress of every unit raises the same
alarm, and both snapshots are admitted to the index alike.** -/
theorem withheld_facts_show_iff (rules : TextRules) {s t : WorldSnapshot} (h : s.Withheld t) :
    NothingShows rules s t ↔
      AttentionEngine.AlarmsAlike s t ∧ FrankenSearchEngine.AdmittedAlike s t := by
  rw [← AttentionEngine.signals_eq_iff h, ← FrankenSearchEngine.searchSnapshot_eq_iff rules h]
  exact ⟨fun hn => ⟨hn.signals, hn.hits⟩, fun ⟨hsignals, hhits⟩ => ⟨hsignals, hhits⟩⟩

theorem OMap.related_single {K V : Type} [LinearOrder K] {r : V → V → Prop} (k : K) {a b : V}
    (h : r a b) : OMap.Related r (.ofList [(k, a)]) (.ofList [(k, b)]) := by
  intro q
  show Option.Rel r ((OMap.nil.insert k a).get? q) ((OMap.nil.insert k b).get? q)
  rw [OMap.get?_insert, OMap.get?_insert]
  by_cases hq : q = k
  · rw [if_pos hq, if_pos hq]
    exact .some h
  · rw [if_neg hq, if_neg hq]
    exact .none

namespace Clinic

/-- A stress that was redacted, with a value still stored. -/
def redacted (stress : S 64) : Fact :=
  ⟨.i64 stress, 0, .replay, Digest32.zero, some (.redacted "private")⟩

def patient (stress : S 64) : EntityRecord :=
  { Sample.entity 1 0 with fields := .ofList [("stress", redacted stress)] }

def ward (stress : S 64) : WorldSnapshot := Sample.snapshot 1 (Sample.entities [patient stress])

def calm : S 64 := ⟨10, by decide⟩
def uneasy : S 64 := ⟨20, by decide⟩
def alarmed : S 64 := ⟨60, by decide⟩

/-- Text of the letters, digits and quotes these snapshots hold. -/
def plain : TextRules :=
  ⟨Char.isAlphanum, fun s => String.ofList (s.toList.map Char.toLower), fun s => "\"" ++ s ++ "\""⟩

theorem ward_withheld (a b : S 64) : (ward a).Withheld (ward b) where
  entities := OMap.related_single _
    ⟨rfl, OMap.related_single _ (.inr ⟨rfl, rfl, rfl⟩)⟩
  edges := fun _ => .none
  rest := rfl

end Clinic

open Clinic in
/-- A redacted stress of ten and one of twenty show nothing. -/
theorem withheld_facts_show_iff_ward : NothingShows plain (ward calm) (ward uneasy) := by
  have hquiet : ∀ stress ∈ [calm, uneasy], ∀ id entity,
      (ward stress).graph.entities.get? id = some entity →
        AttentionEngine.alarmValue entity = none := by
    intro stress hstress
    rw [OMap.forall_get?_iff (ward stress).graph.entities
      (p := fun _ entity => AttentionEngine.alarmValue entity = none)]
    revert stress
    decide
  refine (withheld_facts_show_iff plain (ward_withheld calm uneasy)).2 ⟨?_, ?_, fun _ => ?_⟩
  · intro id a b ha hb
    rw [hquiet calm (by decide) id a ha, hquiet uneasy (by decide) id b hb]
  · rw [ward, ward, Sample.snapshot_hashIsValid, Sample.snapshot_hashIsValid]
  · have hcalm : FrankenSearchEngine.exceedsBounds (ward calm) = false := by decide +kernel
    have huneasy : FrankenSearchEngine.exceedsBounds (ward uneasy) = false := by decide +kernel
    rw [hcalm, huneasy]

open Clinic in
/-- A redacted stress above fifty raises an alarm that names it. -/
theorem withheld_facts_show_alarmed :
    ¬ ∀ rules s t, WorldSnapshot.Withheld s t → NothingShows rules s t := by
  intro hall
  have hsame := (hall plain _ _ (ward_withheld calm alarmed)).signals 0 1
  revert hsame
  decide +kernel

end Dfmcp
