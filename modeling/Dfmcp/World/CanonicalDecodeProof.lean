import Dfmcp.World.CanonicalDecode

/-!
# Encoding and decoding are inverse

Each part of the format has a `Parses` fact: its reader, on its canonical bytes and whatever
follows, reads exactly those bytes. What it reads is the record in *canonical* form, with its
kind taken by name; a kind that borrows a reserved name is the one thing the bytes do not keep.

* `parses_value`, `parses_fact`, `parses_entityRecord`, … — the parts;
* `parses_graph` — a graph whose records sit under their own identifiers;
* `canonical_codec` — decoding inverts encoding, and the decoder accepts canonical bytes only.
-/

namespace Dfmcp

open Machine Wire

/-! ## Canonical records -/

/-- The names of the dedicated kinds. -/
def EntityKind.reserved : List String :=
  ["fortress", "unit", "item", "building", "job", "work_order", "stockpile", "zone", "burrow",
    "squad", "military_order", "tile_feature", "plant", "creature", "historical_figure",
    "civilization", "announcement", "syndrome"]

def EdgeKind.reserved : List String :=
  ["located_at", "contained_in", "assigned_to", "member_of", "performs", "requires", "produces",
    "uses", "supports", "threatens", "ordered_by", "parent_of"]

def WorldEventKind.reserved : List String :=
  ["announcement", "job_changed", "unit_changed", "construction_changed", "threat_detected",
    "season_changed", "adapter_notice"]

/-- The kind does not borrow the name of a dedicated one. -/
def EntityKind.Unaliased : EntityKind → Prop
  | .other name => name ∉ EntityKind.reserved
  | _ => True

def EdgeKind.Unaliased : EdgeKind → Prop
  | .custom name => name ∉ EdgeKind.reserved
  | _ => True

def WorldEventKind.Unaliased : WorldEventKind → Prop
  | .other name => name ∉ WorldEventKind.reserved
  | _ => True

/-- The kind its name denotes. -/
def EntityKind.canonical (kind : EntityKind) : EntityKind := .fromName kind.asStr
def EdgeKind.canonical (kind : EdgeKind) : EdgeKind := edgeKind kind.asStr
def WorldEventKind.canonical (kind : WorldEventKind) : WorldEventKind := eventKind kind.asStr

theorem EntityKind.canonical_eq_self_iff (kind : EntityKind) :
    kind.canonical = kind ↔ kind.Unaliased := by
  cases kind with
  | other name =>
      simp only [canonical, asStr, Unaliased, reserved, fromName, List.mem_cons, List.not_mem_nil]
      split <;> simp_all
  | _ => exact iff_of_true rfl trivial

theorem EdgeKind.canonical_eq_self_iff (kind : EdgeKind) :
    kind.canonical = kind ↔ kind.Unaliased := by
  cases kind with
  | custom name =>
      simp only [canonical, asStr, Unaliased, reserved, edgeKind, List.mem_cons, List.not_mem_nil]
      split <;> simp_all
  | _ => exact iff_of_true rfl trivial

theorem WorldEventKind.canonical_eq_self_iff (kind : WorldEventKind) :
    kind.canonical = kind ↔ kind.Unaliased := by
  cases kind with
  | other name =>
      simp only [canonical, asStr, Unaliased, reserved, eventKind, List.mem_cons, List.not_mem_nil]
      split <;> simp_all
  | _ => exact iff_of_true rfl trivial

/-! A name is the name of the kind it denotes, so canonical records have the same bytes. -/

theorem EntityKind.asStr_canonical (kind : EntityKind) : kind.canonical.asStr = kind.asStr := by
  unfold canonical fromName
  split <;> first | rfl | (rename_i h; exact h.symm)

theorem EdgeKind.asStr_canonical (kind : EdgeKind) : kind.canonical.asStr = kind.asStr := by
  unfold canonical edgeKind
  split <;> first | rfl | (rename_i h; exact h.symm)

theorem WorldEventKind.asStr_canonical (kind : WorldEventKind) :
    kind.canonical.asStr = kind.asStr := by
  unfold canonical eventKind
  split <;> first | rfl | (rename_i h; exact h.symm)

def EntityRecord.canonical (record : EntityRecord) : EntityRecord :=
  { record with kind := record.kind.canonical }

def EdgeRecord.canonical (record : EdgeRecord) : EdgeRecord :=
  { record with kind := record.kind.canonical }

def WorldEvent.canonical (event : WorldEvent) : WorldEvent :=
  { event with kind := event.kind.canonical }

def WorldChange.canonical : WorldChange → WorldChange
  | .upsertEntity record => .upsertEntity record.canonical
  | .upsertEdge record => .upsertEdge record.canonical
  | .appendEvent event => .appendEvent event.canonical
  | change => change

theorem EntityRecord.encode_canonical (record : EntityRecord) :
    record.canonical.encode = record.encode := by
  simp only [encode, canonical, EntityKind.encode, EntityKind.asStr_canonical]

theorem EdgeRecord.encode_canonical (record : EdgeRecord) :
    record.canonical.encode = record.encode := by
  simp only [encode, canonical, EdgeKind.encode, EdgeKind.asStr_canonical]

theorem WorldEvent.encode_canonical (event : WorldEvent) :
    event.canonical.encode = event.encode := by
  simp only [encode, canonical, WorldEventKind.asStr_canonical]

theorem WorldChange.encode_canonical (change : WorldChange) :
    change.canonical.encode = change.encode := by
  cases change <;> simp only [canonical, encode, EntityRecord.encode_canonical,
    EdgeRecord.encode_canonical, WorldEvent.encode_canonical]

/-! ## Nesting -/

namespace Value

mutual

/-- How many levels of lists and objects a value has inside. -/
def height : Value → Nat
  | .list values => heightList values
  | .object fields => heightFields fields
  | _ => 0

def heightList : List Value → Nat
  | [] => 0
  | v :: vs => max (v.height + 1) (heightList vs)

def heightFields : {lo : Option String} → OMap String Value lo → Nat
  | _, .nil => 0
  | _, .cons _ _ v rest => max (v.height + 1) (heightFields rest)

end

theorem height_list (values : List Value) : (Value.list values).height = heightList values := by
  rw [height]

theorem height_object (fields : OMap String Value none) :
    (Value.object fields).height = heightFields fields := by
  rw [height]

theorem height_lt_of_mem {v : Value} {vs : List Value} (h : v ∈ vs) : v.height < heightList vs := by
  induction vs with
  | nil => cases h
  | cons w vs ih =>
      rw [heightList]
      rcases List.mem_cons.1 h with rfl | hmem
      · exact lt_max_of_lt_left (Nat.lt_succ_self _)
      · exact lt_max_of_lt_right (ih hmem)

theorem height_lt_of_mem_fields {x : String × Value} {lo : Option String}
    {fields : OMap String Value lo} (h : x ∈ fields.toList) :
    x.2.height < heightFields fields := by
  induction fields with
  | nil => cases h
  | cons k hk v rest ih =>
      rw [heightFields]
      rcases List.mem_cons.1 h with rfl | hmem
      · exact lt_max_of_lt_left (Nat.lt_succ_self _)
      · exact lt_max_of_lt_right (ih hmem)

/-- One entry of an object. -/
def putField (entry : String × Value) : Bytes := putStr entry.1 ++ entry.2.encode

theorem encodeList_eq (vs : List Value) : encodeList vs = vs.flatMap encode := by
  induction vs with
  | nil => rfl
  | cons v vs ih => rw [encodeList, ih, List.flatMap_cons]

theorem encodeFields_eq {lo : Option String} (fields : OMap String Value lo) :
    encodeFields fields = fields.toList.flatMap putField := by
  induction fields with
  | nil => rfl
  | cons k hk v rest ih => rw [encodeFields, ih, OMap.toList_cons, List.flatMap_cons, putField]

theorem one_le_length_encode (v : Value) : 1 ≤ v.encode.length := by
  cases v <;> simp [encode]

end Value

def FactPresence.height : FactPresence → Nat
  | .known value => value.height
  | _ => 0

/-- The values of a fact nest no deeper than the decoder allows. -/
def Fact.Shallow (fact : Fact) : Prop :=
  fact.value.height ≤ maxValueDepth ∧ ∀ p ∈ fact.presence, p.height ≤ maxValueDepth

/-- The values of a record nest no deeper than the decoder allows. -/
def EntityRecord.Shallow (record : EntityRecord) : Prop :=
  ∀ x ∈ record.fields.toList, x.2.Shallow

def EdgeRecord.Shallow (record : EdgeRecord) : Prop := ∀ x ∈ record.fields.toList, x.2.Shallow

def MapChunk.Shallow (chunk : MapChunk) : Prop :=
  ∀ x ∈ chunk.sparseOverlays.toList, Value.heightFields x.2 ≤ maxValueDepth

def WorldEvent.Shallow (event : WorldEvent) : Prop :=
  Value.heightFields event.fields ≤ maxValueDepth

def WorldChange.Shallow : WorldChange → Prop
  | .upsertEntity record => record.Shallow
  | .upsertEdge record => record.Shallow
  | .upsertMapChunk chunk => chunk.Shallow
  | .appendEvent event => event.Shallow
  | _ => True

/-! ## Primitives -/

namespace Decode

variable {c : Prop}

theorem parses_array (bs : Bytes) : Parses c (array bs.length) bs bs := Parses.take _ bs

theorem parses_u8 (b : UInt8) : Parses c u8 [b] b := (parses_array [b]).bind_pure

/-- A tag, and then what it announces. -/
theorem parses_tagged {α : Type} {body : UInt8 → Decoder α} {bs : Bytes} {a : α} (tag : UInt8)
    (h : Parses c (body tag) bs a) : Parses c (u8 >>= body) (tag :: bs) a :=
  (parses_u8 tag).bind h

theorem parses_bool (b : Bool) : Parses c bool (putBool b) b := by
  cases b with
  | false => exact (parses_u8 0).bind (Parses.pure false)
  | true => exact (parses_u8 1).bind (Parses.pure true)

theorem pow_bytes (n : Nat) : 256 ^ n = 2 ^ (8 * n) := by
  rw [show 256 = 2 ^ 8 from rfl, pow_mul]

theorem parses_uint (n : Nat) (x : U (8 * n)) : Parses c (uint n) (beBytes n x.val) x := by
  have h := (parses_array (c := c) (beBytes n x.val)).bind_pure
    (f := fun bytes => (U.wrap (ofBe bytes) : U (8 * n)))
  rw [length_beBytes] at h
  have hx : (U.wrap (ofBe (beBytes n x.val)) : U (8 * n)) = x := by
    rw [ofBe_beBytes, pow_bytes, Nat.mod_eq_of_lt x.isLt]
    exact Fin.ext (U.wrap_val x.isLt)
  rwa [hx] at h

theorem parses_int (n : Nat) (hn : 0 < 8 * n) (x : S (8 * n)) :
    Parses c (int n hn) (beBytes n x.toBits) x := by
  have h := (parses_array (c := c) (beBytes n x.toBits)).bind_pure
    (f := fun bytes => S.ofBits hn (ofBe bytes))
  rw [length_beBytes] at h
  have hx : S.ofBits hn (ofBe (beBytes n x.toBits)) = x := by
    rw [ofBe_beBytes, pow_bytes, Nat.mod_eq_of_lt x.toBits_lt, S.ofBits_toBits]
  rwa [hx] at h

theorem parses_u16 (x : U 16) : Parses c u16 (putU16 x) x := parses_uint 2 x
theorem parses_u32 (x : U 32) : Parses c u32 (putU32 x) x := parses_uint 4 x
theorem parses_u64 (x : U 64) : Parses c u64 (putU64 x) x := parses_uint 8 x
theorem parses_u128 (x : U 128) : Parses c u128 (putU128 x) x := parses_uint 16 x
theorem parses_i32 (x : S 32) : Parses c i32 (putI32 x) x := parses_int 4 _ x
theorem parses_i64 (x : S 64) : Parses c i64 (putI64 x) x := parses_int 8 _ x

/-- A count is read when enough bytes for its elements follow. -/
theorem run_count {n minElementBytes : Nat} {bs : Bytes}
    (hroom : n * max minElementBytes 1 ≤ bs.length) (hlen : (putLen n ++ bs).length < 2 ^ 64) :
    count minElementBytes (putLen n ++ bs) = .ok (n, bs) := by
  have htotal : bs.length < 2 ^ 64 := by
    rw [List.length_append] at hlen
    omega
  have hn : (U.wrap n : U 64).val = n :=
    U.wrap_val (lt_of_le_of_lt (Nat.le_mul_of_pos_right n (by positivity)) (hroom.trans_lt htotal))
  have hraw : u64 (putU64 (U.wrap n) ++ bs) = .ok (U.wrap n, bs) :=
    (parses_u64 (c := True) (U.wrap n) bs hlen).resolve_right (by simp)
  rw [count, run_bind, putLen, hraw]
  change (ite ((U.wrap n : U 64).val * max minElementBytes 1 ≥ 2 ^ 64) _ _ : Decoder Nat) bs = _
  rw [hn, if_neg (not_le.2 (hroom.trans_lt htotal)), run_bind]
  change (ite (n * max minElementBytes 1 > bs.length) _ _ : Decoder Nat) bs = _
  rw [if_neg (not_lt.2 hroom)]
  rfl

/-- A count, and then that many bytes at least. -/
theorem parses_counted {α : Type} {p : Nat → Decoder α} {n minElementBytes : Nat} {body : Bytes}
    {a : α} (hbody : n * max minElementBytes 1 ≤ body.length) (hp : Parses c (p n) body a) :
    Parses c (count minElementBytes >>= p) (putLen n ++ body) a := by
  intro rest hlen
  rw [List.append_assoc] at hlen ⊢
  have hroom : n * max minElementBytes 1 ≤ (body ++ rest).length := by
    rw [List.length_append]
    omega
  rw [run_bind, run_count hroom hlen]
  refine hp rest ?_
  rw [List.length_append] at hlen
  omega

theorem fails_counted {α : Type} {p : Nat → Decoder α} {n minElementBytes : Nat} {body : Bytes}
    (hbody : n * max minElementBytes 1 ≤ body.length) (hp : Fails (p n) body) :
    Fails (count minElementBytes >>= p) (putLen n ++ body) := by
  intro rest hlen
  rw [List.append_assoc] at hlen ⊢
  have hroom : n * max minElementBytes 1 ≤ (body ++ rest).length := by
    rw [List.length_append]
    omega
  rw [run_bind, run_count hroom hlen]
  refine hp rest ?_
  rw [List.length_append] at hlen
  omega

/-- A list whose elements take their least size fits its own count. -/
theorem length_mul_le {α : Type} {enc : α → Bytes} {l : List α} {n : Nat}
    (h : ∀ a ∈ l, n ≤ (enc a).length) : l.length * n ≤ (l.flatMap enc).length := by
  induction l with
  | nil => simp
  | cons a l ih =>
      have hhead := h a List.mem_cons_self
      have htail := ih fun b hb => h b (List.mem_cons_of_mem a hb)
      rw [List.length_cons, List.flatMap_cons, List.length_append, Nat.succ_mul]
      omega

theorem parses_bytes (bs : Bytes) : Parses c bytes (putBytes bs) bs :=
  parses_counted (by simp) (parses_array bs)

theorem parses_string (s : String) : Parses c string (putStr s) s := by
  have h : Parses c string (putStr s ++ []) s := by
    refine (parses_bytes (utf8 s)).bind ?_
    rw [fromUtf8_utf8]
    exact Parses.pure s
  rwa [List.append_nil] at h

theorem parses_digest (d : Digest32) : Parses c digest (putBytes d.bytes) d := by
  have hfrom : Digest32.fromBytes d.bytes = d := dif_pos d.length_eq
  have hlen : (U.wrap d.bytes.length : U 64) = 32 := by rw [d.length_eq]; rfl
  refine (parses_u64 (U.wrap d.bytes.length)).bind ?_
  rw [hlen]
  change Parses c (array 32 >>= fun bytes => pure (Digest32.fromBytes bytes)) _ _
  have harray := (parses_array (c := c) d.bytes).bind_pure (f := Digest32.fromBytes)
  rwa [d.length_eq, hfrom] at harray

theorem parses_anchor (a : StateAnchor) : Parses c anchor (putAnchor a) a := by
  simp only [putAnchor, List.append_assoc]
  exact (parses_u64 _).bind ((parses_u64 _).bind ((parses_u64 _).bind ((parses_u64 _).bind
    (parses_digest _).bind_pure)))

theorem parses_option {α : Type} {item : Decoder α} {put : α → Bytes} {a : Option α}
    {g : α → α} (h : ∀ x ∈ a, Parses c item (put x) (g x)) :
    Parses c (option item) (putOption put a) (a.map g) := by
  cases a with
  | none => exact (parses_bool false).bind (Parses.pure none)
  | some x => exact (parses_bool true).bind (h x rfl).bind_pure

theorem parses_list {α γ : Type} {item : Decoder α} {enc : γ → Bytes} {g : γ → α} {l : List γ}
    {minElementBytes : Nat} (hsize : ∀ x ∈ l, max minElementBytes 1 ≤ (enc x).length)
    (h : ∀ x ∈ l, Parses c item (enc x) (g x)) :
    Parses c (list minElementBytes item) (putLen l.length ++ l.flatMap enc) (l.map g) :=
  parses_counted (length_mul_le hsize) (.replicate h)

theorem parses_map {K V γ : Type} [LinearOrder K] {entry : Decoder (K × V)} {enc : γ → Bytes}
    {g : γ → K × V} {l : List γ} {m : BTreeMap K V} {minElementBytes : Nat} {what : String}
    (hm : m.toList = l.map g) (hsize : ∀ x ∈ l, max minElementBytes 1 ≤ (enc x).length)
    (h : ∀ x ∈ l, Parses c entry (enc x) (g x)) :
    Parses c (map what minElementBytes entry) (putLen l.length ++ l.flatMap enc) m :=
  parses_counted (length_mul_le hsize) (.ascending _ hm h)

/-! ## Values and facts -/

theorem parses_field {α : Type} {item : Decoder α} {bs : Bytes} {a : α} (key : String)
    (h : Parses c item bs a) : Parses c (field item) (putStr key ++ bs) (key, a) :=
  (parses_string key).bind h.bind_pure

theorem parses_mapCoord (coord : MapCoord) :
    Parses c mapCoord (putI32 coord.x ++ putI32 coord.y ++ putI32 coord.z) coord := by
  rw [List.append_assoc]
  exact (parses_i32 _).bind ((parses_i32 _).bind (parses_i32 _).bind_pure)

theorem length_putStr (s : String) : 8 ≤ (putStr s).length := by
  simp [putStr, putBytes, putLen, putU64]

theorem length_putField (x : String × Value) : max 9 1 ≤ (Value.putField x).length := by
  have hkey := length_putStr x.1
  have hvalue := x.2.one_le_length_encode
  rw [Value.putField, List.length_append]
  omega

/-- The fields of an object are read back when its values are. -/
theorem parses_fields {item : Decoder Value} {fields : BTreeMap String Value}
    (h : ∀ x ∈ fields.toList, Parses c item x.2.encode x.2) :
    Parses c (map "object" 9 (field item)) (putValueMap fields) fields := by
  rw [putValueMap, Value.encodeFields_eq]
  exact parses_map (g := id) (by simp) (fun x _ => length_putField x)
    fun x hx => parses_field x.1 (h x hx)

/-- A value is read back when the bound leaves room for its nesting. -/
theorem parses_value (left : Nat) (v : Value) :
    Parses (v.height < left) (value left) v.encode v := by
  -- on the levels left: the elements of a list or an object have one level fewer to go
  induction left generalizing v with
  | zero => exact .fail _ (Nat.not_lt_zero _)
  | succ left ih =>
      cases v with
      | null => exact parses_tagged 0 (Parses.pure _)
      | bool b => exact parses_tagged 1 ((parses_bool b).map _)
      | i64 x => exact parses_tagged 2 ((parses_i64 x).map _)
      | u64 x => exact parses_tagged 3 ((parses_u64 x).map _)
      | fixed units scale =>
          exact parses_tagged 4 ((parses_i64 units).bind (parses_u32 scale).bind_pure)
      | text s => exact parses_tagged 5 ((parses_string s).map _)
      | entity x => exact parses_tagged 6 ((parses_u64 x).map _)
      | coord c => exact parses_tagged 7 ((parses_mapCoord c).map _)
      | bytes bs => exact parses_tagged 8 ((parses_bytes bs).map _)
      | list vs =>
          have hlist : Parses ((Value.list vs).height < left + 1) (list 1 (value left))
              (putLen vs.length ++ vs.flatMap Value.encode) (vs.map id) :=
            parses_list (fun v _ => v.one_le_length_encode)
              fun v hv => (ih v).mono fun h => by
                have hlt := Value.height_lt_of_mem hv
                rw [Value.height_list] at h
                omega
          rw [List.map_id] at hlist
          rw [Value.encode, Value.encodeList_eq]
          exact parses_tagged 9 (hlist.map _)
      | object fields =>
          have hfields : Parses ((Value.object fields).height < left + 1)
              (map "object" 9 (field (value left))) (putValueMap fields) fields :=
            parses_fields fun x hx => (ih x.2).mono fun h => by
              have hlt := Value.height_lt_of_mem_fields hx
              rw [Value.height_object] at h
              omega
          exact parses_tagged 10 (hfields.map _)

theorem parses_valueAt (depth : Nat) (v : Value) :
    Parses (depth + v.height ≤ maxValueDepth) (valueAt depth) v.encode v :=
  (parses_value _ v).mono fun h => by omega

theorem parses_valueMap (depth : Nat) (fields : BTreeMap String Value) :
    Parses (depth + Value.heightFields fields ≤ maxValueDepth) (valueMap (depth + 1))
      (putValueMap fields) fields :=
  parses_fields fun x hx => (parses_valueAt (depth + 1) x.2).mono fun h => by
    have hlt := Value.height_lt_of_mem_fields hx
    omega

theorem parses_presence (p : FactPresence) :
    Parses (p.height ≤ maxValueDepth) presence p.encode p := by
  cases p with
  | known value =>
      have hvalue : Parses ((FactPresence.known value).height ≤ maxValueDepth) (valueAt 0)
          value.encode value :=
        (parses_valueAt 0 value).mono fun h => by
          rw [FactPresence.height] at h
          omega
      exact parses_tagged 0 (hvalue.map _)
  | absent => exact parses_tagged 1 (Parses.pure _)
  | unknown reason => exact parses_tagged 2 ((parses_string reason).map _)
  | unsupported reason => exact parses_tagged 3 ((parses_string reason).map _)
  | omitted reason => exact parses_tagged 4 ((parses_string reason).map _)
  | redacted reason => exact parses_tagged 5 ((parses_string reason).map _)
  | stale anchor => exact parses_tagged 6 ((parses_anchor anchor).map _)

theorem parses_source (s : FactSource) : Parses c source s.encode s := by
  cases s with
  | dfhackField field => exact parses_tagged 0 ((parses_string field).map _)
  | derived derivation => exact parses_tagged 1 ((parses_string derivation).map _)
  | agentAssertion agent => exact parses_tagged 2 ((parses_string agent).map _)
  | replay => exact parses_tagged 3 (Parses.pure _)

theorem parses_fact (f : Fact) : Parses f.Shallow fact f.encode f := by
  have hvalue : Parses f.Shallow (valueAt 0) f.value.encode f.value :=
    (parses_valueAt 0 f.value).mono fun h => by
      have hdepth := h.1
      omega
  have hpresence : Parses f.Shallow (option presence)
      (putOption FactPresence.encode f.presence) (f.presence.map id) :=
    parses_option fun p hp => (parses_presence p).mono fun h => h.2 p hp
  rw [Option.map_id_fun, id] at hpresence
  simp only [Fact.encode, List.append_assoc]
  exact hvalue.bind ((parses_u64 _).bind ((parses_source _).bind ((parses_digest _).bind
    hpresence.bind_pure)))

theorem length_putFactEntry (x : String × Fact) : max 9 1 ≤ (putFactEntry x).length := by
  have hkey := length_putStr x.1
  have hvalue := x.2.value.one_le_length_encode
  simp only [putFactEntry, Fact.encode, List.length_append]
  omega

theorem parses_factMap (fields : BTreeMap String Fact) :
    Parses (∀ x ∈ fields.toList, x.2.Shallow) factMap (putFactMap fields) fields :=
  parses_map (g := id) (by simp) (fun x _ => length_putFactEntry x)
    fun x hx => parses_field x.1 ((parses_fact x.2).mono fun h => h x hx)

/-! ## Records -/

theorem parses_entityRecord (e : EntityRecord) :
    Parses e.Shallow entityRecord e.encode e.canonical := by
  simp only [EntityRecord.encode, List.append_assoc]
  exact (parses_u64 _).bind ((parses_u32 _).bind ((parses_u64 _).bind
    (((parses_string _).map EntityKind.fromName).bind ((parses_string _).bind
      (parses_factMap _).bind_pure))))

theorem parses_edgeRecord (e : EdgeRecord) :
    Parses e.Shallow edgeRecord e.encode e.canonical := by
  simp only [EdgeRecord.encode, List.append_assoc]
  exact (parses_u128 _).bind ((parses_u64 _).bind (((parses_string _).map edgeKind).bind
    ((parses_u64 _).bind ((parses_u64 _).bind (parses_factMap _).bind_pure))))

theorem parses_chunkCoord (coord : ChunkCoord) : Parses c chunkCoord coord.encode coord := by
  simp only [ChunkCoord.encode, List.append_assoc]
  exact (parses_i32 _).bind ((parses_i32 _).bind (parses_i32 _).bind_pure)

theorem parses_terrainRun (run : TerrainRun) : Parses c terrainRun run.encode run :=
  (parses_u32 _).bind (parses_u32 _).bind_pure

theorem parses_overlay (x : U 32 × BTreeMap String Value) :
    Parses (Value.heightFields x.2 ≤ maxValueDepth) overlay (MapChunk.putOverlay x) x :=
  (parses_u32 _).bind ((parses_valueMap 0 x.2).mono (fun h => by omega)).bind_pure

theorem parses_mapChunk (overlays : String) (chunk : MapChunk) :
    Parses chunk.Shallow (mapChunk overlays) chunk.encode chunk := by
  have hruns : Parses chunk.Shallow (list 8 terrainRun)
      (putLen chunk.terrainRuns.length ++ chunk.terrainRuns.flatMap TerrainRun.encode)
      (chunk.terrainRuns.map id) :=
    parses_list (fun run _ => by simp [TerrainRun.encode, putU32]) fun run _ => parses_terrainRun run
  have hoverlays : Parses chunk.Shallow (map overlays 12 overlay)
      (putLen chunk.sparseOverlays.size ++ chunk.sparseOverlays.toList.flatMap MapChunk.putOverlay)
      chunk.sparseOverlays :=
    parses_map (g := id) (by simp)
      (fun x _ => by simp [MapChunk.putOverlay, putU32, putValueMap, putLen, putU64]; omega)
      fun x hx => (parses_overlay x).mono fun h => h x hx
  rw [List.map_id] at hruns
  have hencode : chunk.encode = chunk.coord.encode ++ (putU64 chunk.revision ++
      (putU16 chunk.width ++ (putU16 chunk.height ++
        ((putLen chunk.terrainRuns.length ++ chunk.terrainRuns.flatMap TerrainRun.encode) ++
          (putLen chunk.sparseOverlays.size ++
            chunk.sparseOverlays.toList.flatMap MapChunk.putOverlay))))) := by
    simp only [MapChunk.encode, List.append_assoc]
  rw [hencode]
  exact (parses_chunkCoord _).bind ((parses_u64 _).bind ((parses_u16 _).bind ((parses_u16 _).bind
    (hruns.bind hoverlays.bind_pure))))

theorem parses_worldEvent (e : WorldEvent) : Parses e.Shallow worldEvent e.encode e.canonical := by
  have hsubject : Parses e.Shallow (option u64) (putOption putU64 e.subject)
      (e.subject.map id) :=
    parses_option fun x _ => parses_u64 x
  rw [Option.map_id_fun, id] at hsubject
  simp only [WorldEvent.encode, List.append_assoc]
  exact (parses_u128 _).bind ((parses_u64 _).bind (((parses_string _).map eventKind).bind
    (hsubject.bind ((parses_string _).bind
      ((parses_valueMap 0 e.fields).mono fun h => by
        rw [WorldEvent.Shallow] at h
        omega).bind_pure))))

theorem length_encode_entityRecord (e : EntityRecord) : max 8 1 ≤ e.encode.length := by
  simp [EntityRecord.encode, putU64]

theorem length_encode_edgeRecord (e : EdgeRecord) : max 16 1 ≤ e.encode.length := by
  simp [EdgeRecord.encode, putU128]

theorem length_encode_mapChunk (chunk : MapChunk) : max 12 1 ≤ chunk.encode.length := by
  simp [MapChunk.encode, ChunkCoord.encode, putI32]
  omega

theorem length_encode_worldEvent (e : WorldEvent) : max 16 1 ≤ e.encode.length := by
  simp [WorldEvent.encode, putU128]

end Decode

/-! ## Graphs and snapshots -/

namespace WorldGraph

/-- The records of the graph, each in canonical form. -/
def canonical (graph : WorldGraph) : WorldGraph where
  entities := graph.entities.mapValues fun _ e => e.canonical
  edges := graph.edges.mapValues fun _ e => e.canonical
  chunks := graph.chunks
  events := graph.events.mapValues fun _ e => e.canonical

/-- No value of the graph nests deeper than the decoder allows. -/
structure Shallow (graph : WorldGraph) : Prop where
  entities : ∀ e ∈ graph.entities.values, e.Shallow
  edges : ∀ e ∈ graph.edges.values, e.Shallow
  chunks : ∀ c ∈ graph.chunks.values, c.Shallow
  events : ∀ e ∈ graph.events.values, e.Shallow

/-- No kind of the graph borrows a reserved name. -/
structure Unaliased (graph : WorldGraph) : Prop where
  entities : ∀ e ∈ graph.entities.values, e.kind.Unaliased
  edges : ∀ e ∈ graph.edges.values, e.kind.Unaliased
  events : ∀ e ∈ graph.events.values, e.kind.Unaliased

/-- The records of `graph`, in the same order, each under its own identifier. -/
structure Rekeys (rekeyed graph : WorldGraph) : Prop where
  entities : rekeyed.entities.toList = graph.entities.values.map fun e => (e.id, e)
  edges : rekeyed.edges.toList = graph.edges.values.map fun e => (e.id, e)
  chunks : rekeyed.chunks.toList = graph.chunks.values.map fun c => (c.coord, c)
  events : rekeyed.events.toList = graph.events.values.map fun e => (e.id, e)

end WorldGraph

namespace Decode

/-- Records under their own keys are read back under them. -/
theorem parses_records {K V : Type} [LinearOrder K] {m : BTreeMap K V} {key : V → K}
    {canonical : V → V} {record : Decoder V} {enc : V → Bytes} {minElementBytes : Nat}
    {what : String} {shallow : V → Prop} (hkeys : ∀ k v, m.get? k = some v → key v = k)
    (hkey : ∀ v, key (canonical v) = key v)
    (hsize : ∀ v, max minElementBytes 1 ≤ (enc v).length)
    (h : ∀ v, Parses (shallow v) record (enc v) (canonical v)) :
    Parses (∀ v ∈ m.values, shallow v) (map what minElementBytes (keyed key record))
      (putLen m.size ++ m.values.flatMap enc) (m.mapValues fun _ => canonical) := by
  have hsizes : m.values.length = m.size := by simp [OMap.values, OMap.size]
  rw [← hsizes]
  refine parses_map (g := fun v => (key v, canonical v)) ?_ (fun v _ => hsize v) fun v hv => ?_
  · rw [OMap.toList_mapValues, OMap.values, List.map_map]
    refine List.map_congr_left fun x hx => ?_
    simp only [Function.comp_apply, hkeys x.1 x.2 ((OMap.mem_toList_iff m x.1 x.2).1 hx)]
  · have hrecord : Parses (∀ v ∈ m.values, shallow v) record (enc v) (canonical v) :=
      (h v).mono fun hall => hall v hv
    have hkeyed := hrecord.map fun r => (key r, r)
    rwa [hkey v] at hkeyed

theorem parses_graph {g : WorldGraph} (hkeys : g.KeysMatch) :
    Parses g.Shallow graph g.encode g.canonical := by
  have hentities : Parses g.Shallow (map "entity" 8 (keyed EntityRecord.id entityRecord))
      (putLen g.entities.size ++ g.entities.values.flatMap EntityRecord.encode)
      g.canonical.entities :=
    (parses_records hkeys.entities (fun e => show e.canonical.id = e.id from rfl)
      length_encode_entityRecord parses_entityRecord).mono WorldGraph.Shallow.entities
  have hedges : Parses g.Shallow (map "edge" 16 (keyed EdgeRecord.id edgeRecord))
      (putLen g.edges.size ++ g.edges.values.flatMap EdgeRecord.encode) g.canonical.edges :=
    (parses_records hkeys.edges (fun e => show e.canonical.id = e.id from rfl)
      length_encode_edgeRecord parses_edgeRecord).mono WorldGraph.Shallow.edges
  have hchunks : Parses g.Shallow (map "chunk" 12 (keyed MapChunk.coord (mapChunk "overlay")))
      (putLen g.chunks.size ++ g.chunks.values.flatMap MapChunk.encode)
      (g.chunks.mapValues fun _ c => c) :=
    (parses_records hkeys.chunks (fun _ => rfl) length_encode_mapChunk
      (parses_mapChunk "overlay")).mono WorldGraph.Shallow.chunks
  have hevents : Parses g.Shallow (map "event" 16 (keyed WorldEvent.id worldEvent))
      (putLen g.events.size ++ g.events.values.flatMap WorldEvent.encode) g.canonical.events :=
    (parses_records hkeys.events (fun e => show e.canonical.id = e.id from rfl)
      length_encode_worldEvent parses_worldEvent).mono WorldGraph.Shallow.events
  have hsame : g.chunks.mapValues (fun _ c => c) = g.chunks :=
    OMap.toList_injective _ _ (by simp)
  rw [hsame] at hchunks
  rw [WorldGraph.encode, List.append_assoc, List.append_assoc]
  exact hentities.bind (hedges.bind (hchunks.bind hevents.bind_pure))

section Rekeyed

variable {K V : Type} [LinearOrder K] {m rekeyed : BTreeMap K V} {key : V → K}

theorem values_of_rekeyed (h : rekeyed.toList = m.values.map fun v => (key v, v)) :
    rekeyed.values = m.values := by
  rw [OMap.values, h, List.map_map]
  exact List.map_id _

theorem size_of_rekeyed (h : rekeyed.toList = m.values.map fun v => (key v, v)) :
    rekeyed.size = m.size := by
  rw [OMap.size, h, List.length_map, OMap.values, List.length_map]
  rfl

theorem key_of_rekeyed (h : rekeyed.toList = m.values.map fun v => (key v, v)) {k : K} {v : V}
    (hget : rekeyed.get? k = some v) : key v = k := by
  rw [← OMap.mem_toList_iff, h, List.mem_map] at hget
  obtain ⟨w, -, heq⟩ := hget
  cases heq
  rfl

/-- Records whose identifiers ascend are read under them; other records are refused. -/
theorem records_or_fails {canonical : V → V} {record : Decoder V} {enc : V → Bytes}
    {minElementBytes : Nat} {what : String} {shallow : V → Prop}
    (hkey : ∀ v, key (canonical v) = key v)
    (hsize : ∀ v, max minElementBytes 1 ≤ (enc v).length)
    (h : ∀ v, Parses (shallow v) record (enc v) (canonical v)) :
    (∃ rekeyed : BTreeMap K V, rekeyed.toList = (m.values.map fun v => (key v, v)) ∧
      Parses False (map what minElementBytes (keyed key record))
        (putLen m.size ++ m.values.flatMap enc) (rekeyed.mapValues fun _ => canonical)) ∨
    Fails (map what minElementBytes (keyed key record))
      (putLen m.size ++ m.values.flatMap enc) := by
  by_cases hordered : ∃ rekeyed : BTreeMap K V, rekeyed.toList = m.values.map fun v => (key v, v)
  · obtain ⟨rekeyed, hlist⟩ := hordered
    have hparses := @parses_records _ _ _ _ _ _ _ _ _ what _
      (fun k v => key_of_rekeyed hlist) hkey hsize h
    rw [size_of_rekeyed hlist, values_of_rekeyed hlist] at hparses
    exact .inl ⟨rekeyed, hlist, hparses.mono False.elim⟩
  · right
    have hsizes : m.values.length = m.size := by simp [OMap.values, OMap.size]
    rw [← hsizes]
    refine fails_counted (length_mul_le fun v _ => hsize v) ?_
    refine Parses.ascending_fails (c := False) _ (g := fun v => (key v, canonical v)) ?_ ?_
    · intro v _
      have hrecord := ((h v).mono False.elim).map fun r => (key r, r)
      rwa [hkey v] at hrecord
    · intro hmap
      obtain ⟨read, hread⟩ := hmap
      -- The identifiers that were read ascend, so the records can be filed under them.
      have hsorted := read.toList_sorted
      rw [hread, List.pairwise_map] at hsorted
      exact hordered (OMap.exists_toList_eq (List.pairwise_map.2 hsorted) fun e _ b hb => by cases hb)

end Rekeyed

/-- A graph whose identifiers do not ascend is refused. -/
theorem rekeys_or_fails (g : WorldGraph) :
    (∃ rekeyed : WorldGraph, rekeyed.Rekeys g) ∨ Fails graph g.encode := by
  rw [← List.append_nil g.encode, WorldGraph.encode]
  simp only [List.append_assoc _ _ (_ ++ _), List.append_assoc _ _ []]
  rcases @records_or_fails _ _ _ g.entities _ _ _ _ _ "entity" _
      (fun e => show e.canonical.id = e.id from rfl) length_encode_entityRecord
      parses_entityRecord with ⟨entities, hentities, hentitiesRead⟩ | hfail
  · rcases @records_or_fails _ _ _ g.edges _ _ _ _ _ "edge" _
        (fun e => show e.canonical.id = e.id from rfl) length_encode_edgeRecord
        parses_edgeRecord with ⟨edges, hedges, hedgesRead⟩ | hfail
    · rcases @records_or_fails _ _ _ g.chunks _ id _ _ _ "chunk" _ (fun _ => rfl)
          length_encode_mapChunk (parses_mapChunk "overlay") with
          ⟨chunks, hchunks, hchunksRead⟩ | hfail
      · rcases @records_or_fails _ _ _ g.events _ _ _ _ _ "event" _
            (fun e => show e.canonical.id = e.id from rfl) length_encode_worldEvent
            parses_worldEvent with ⟨events, hevents, -⟩ | hfail
        · exact .inl ⟨⟨entities, edges, chunks, events⟩, hentities, hedges, hchunks, hevents⟩
        · exact .inr (hentitiesRead.bind_fails (hedgesRead.bind_fails
            (hchunksRead.bind_fails (hfail.bind _ _))))
      · exact .inr (hentitiesRead.bind_fails (hedgesRead.bind_fails (hfail.bind _ _)))
    · exact .inr (hentitiesRead.bind_fails (hfail.bind _ _))
  · exact .inr (hfail.bind _ _)

end Decode

namespace WorldGraph

theorem Rekeys.keysMatch {rekeyed graph : WorldGraph} (h : rekeyed.Rekeys graph) :
    rekeyed.KeysMatch where
  entities := fun _ _ => Decode.key_of_rekeyed h.entities
  edges := fun _ _ => Decode.key_of_rekeyed h.edges
  chunks := fun _ _ => Decode.key_of_rekeyed h.chunks
  events := fun _ _ => Decode.key_of_rekeyed h.events

/-- The bytes list the records only. -/
theorem Rekeys.encode_eq {rekeyed graph : WorldGraph} (h : rekeyed.Rekeys graph) :
    rekeyed.encode = graph.encode := by
  simp only [encode, Decode.size_of_rekeyed h.entities, Decode.values_of_rekeyed h.entities,
    Decode.size_of_rekeyed h.edges, Decode.values_of_rekeyed h.edges,
    Decode.size_of_rekeyed h.chunks, Decode.values_of_rekeyed h.chunks,
    Decode.size_of_rekeyed h.events, Decode.values_of_rekeyed h.events]

end WorldGraph

namespace Decode

theorem parses_domain (tag message : String) : Parses c (domain tag message) (putStr tag) () := by
  have h := (parses_string (c := c) tag).bind (b := ())
    (f := fun found => if found ≠ tag then fail (corrupt message) else pure ())
    (by rw [if_neg (not_not.2 rfl)]; exact Parses.pure ())
  rwa [List.append_nil] at h

/-- At the end of the input nothing is left over. -/
theorem parsesAll_done {α : Type} (message : String) (a : α) :
    ParsesAll c (done message >>= fun _ => pure a) [] a := fun _ => .inl rfl

/-- The bytes of a snapshot, field after field. -/
theorem canonicalBytes_snapshot (s : WorldSnapshot) :
    s.canonicalBytes = putStr snapshotDomain ++ (putU64 s.fortressId ++
      (putU64 s.tick ++ (putU64 s.cursor.epoch ++ (putU64 s.cursor.sequence ++
        (putBool s.paused ++ (s.graph.encode ++ [])))))) := by
  simp only [WorldSnapshot.canonicalBytes, snapshotDomain, List.append_assoc, List.append_nil]

/-- A snapshot is refused when its graph is. -/
theorem fails_snapshot {s : WorldSnapshot} (h : Fails graph s.graph.encode) (hash : Digest32) :
    Fails (snapshot hash) s.canonicalBytes := by
  rw [canonicalBytes_snapshot]
  exact (parses_domain (c := True) _ _).bind_fails ((parses_u64 (c := True) _).bind_fails
    ((parses_u64 (c := True) _).bind_fails ((parses_u64 (c := True) _).bind_fails
      ((parses_u64 (c := True) _).bind_fails ((parses_bool (c := True) _).bind_fails
        (h.bind _ _))))))

/-- What the decoder makes of the bytes of a snapshot. -/
theorem parsesAll_snapshot {s : WorldSnapshot} (hkeys : s.graph.KeysMatch) (hash : Digest32) :
    ParsesAll s.graph.Shallow (snapshot hash) s.canonicalBytes
      { s with graph := s.graph.canonical, stateHash := hash } := by
  rw [canonicalBytes_snapshot]
  exact (parses_domain _ _).bind_all ((parses_u64 _).bind_all ((parses_u64 _).bind_all
    ((parses_u64 _).bind_all ((parses_u64 _).bind_all ((parses_bool _).bind_all
      ((parses_graph hkeys).bind_all (parsesAll_done _ _)))))))

/-! ## Deltas -/

theorem parses_worldChange (change : WorldChange) :
    Parses change.Shallow worldChange change.encode change.canonical := by
  cases change with
  | upsertEntity record =>
      exact parses_tagged 0 ((parses_entityRecord record).map WorldChange.upsertEntity)
  | removeEntity id generation revision =>
      rw [WorldChange.encode, List.append_assoc]
      exact parses_tagged 1 ((parses_u64 id).bind ((parses_u32 generation).bind
        (parses_u64 revision).bind_pure))
  | upsertEdge record =>
      exact parses_tagged 2 ((parses_edgeRecord record).map WorldChange.upsertEdge)
  | removeEdge id revision =>
      exact parses_tagged 3 ((parses_u128 id).bind (parses_u64 revision).bind_pure)
  | upsertMapChunk chunk =>
      exact parses_tagged 4 ((parses_mapChunk _ chunk).map WorldChange.upsertMapChunk)
  | removeMapChunk coord revision =>
      exact parses_tagged 5 ((parses_chunkCoord coord).bind (parses_u64 revision).bind_pure)
  | appendEvent event =>
      exact parses_tagged 6 ((parses_worldEvent event).map WorldChange.appendEvent)

theorem length_encode_worldChange (change : WorldChange) : max 21 1 ≤ change.encode.length := by
  cases change with
  | upsertEntity record =>
      simp [WorldChange.encode, EntityRecord.encode, putU64, putU32, EntityKind.encode, putStr,
        putBytes, putLen]
      omega
  | removeEntity id generation revision => simp [WorldChange.encode, putU64, putU32]
  | upsertEdge record =>
      simp [WorldChange.encode, EdgeRecord.encode, putU128, putU64]
      omega
  | removeEdge id revision => simp [WorldChange.encode, putU128, putU64]
  | upsertMapChunk chunk =>
      simp [WorldChange.encode, MapChunk.encode, ChunkCoord.encode, putI32, putU64]
      omega
  | removeMapChunk coord revision =>
      simp [WorldChange.encode, ChunkCoord.encode, putI32, putU64]
  | appendEvent event =>
      simp [WorldChange.encode, WorldEvent.encode, putU128, putU64]
      omega

end Decode

namespace StateDelta

def canonical (d : StateDelta) : StateDelta :=
  { d with changes := d.changes.map WorldChange.canonical }

/-- The delta nests no deeper, and is no longer, than the decoder allows. -/
structure Decodable (d : StateDelta) : Prop where
  shallow : ∀ change ∈ d.changes, change.Shallow
  count : d.changes.length ≤ maxStateDeltaChanges

theorem canonicalBytes_canonical (d : StateDelta) : d.canonical.canonicalBytes = d.canonicalBytes := by
  simp only [canonicalBytes, canonical, List.length_map, List.flatMap_map,
    WorldChange.encode_canonical]

end StateDelta

namespace Decode

theorem parses_changes (changes : List WorldChange) :
    Parses ((∀ change ∈ changes, change.Shallow) ∧ changes.length ≤ maxStateDeltaChanges)
      Decode.changes (putLen changes.length ++ changes.flatMap WorldChange.encode)
      (changes.map WorldChange.canonical) := by
  refine parses_counted (length_mul_le fun change _ => length_encode_worldChange change) ?_
  split
  · rename_i hcount
    exact .fail _ fun h => absurd h.2 (not_le.2 hcount)
  · exact .replicate fun change hmem => (parses_worldChange change).mono fun h => h.1 change hmem

/-- Too many changes are refused. -/
theorem fails_changes {changes : List WorldChange} (h : maxStateDeltaChanges < changes.length) :
    Fails Decode.changes (putLen changes.length ++ changes.flatMap WorldChange.encode) := by
  refine fails_counted (length_mul_le fun change _ => length_encode_worldChange change) ?_
  rw [if_pos h]
  exact fun _ _ => ⟨_, rfl⟩

/-- The bytes of a delta, field after field. -/
theorem canonicalBytes_delta (d : StateDelta) :
    d.canonicalBytes = putStr deltaDomain ++ (putU64 d.fortressId ++
      (putU64 d.baseCursor.epoch ++ (putU64 d.baseCursor.sequence ++
        (putU64 d.targetCursor.epoch ++ (putU64 d.targetCursor.sequence ++
          (putBytes d.baseHash.bytes ++ (putBytes d.targetHash.bytes ++ (putU64 d.targetTick ++
            ((putLen d.changes.length ++ d.changes.flatMap WorldChange.encode) ++
              (putBool d.truncated ++ (putOption putStr d.continuation ++ []))))))))))) := by
  simp only [StateDelta.canonicalBytes, deltaDomain, List.append_assoc, List.append_nil]

theorem parsesAll_delta (d : StateDelta) :
    ParsesAll d.Decodable delta d.canonicalBytes d.canonical := by
  have hchanges : Parses d.Decodable changes
      (putLen d.changes.length ++ d.changes.flatMap WorldChange.encode) d.canonical.changes :=
    (parses_changes d.changes).mono fun h => ⟨h.shallow, h.count⟩
  have hcontinuation : Parses d.Decodable (option string) (putOption putStr d.continuation)
      (d.continuation.map id) :=
    parses_option fun x _ => parses_string x
  rw [Option.map_id_fun, id] at hcontinuation
  rw [canonicalBytes_delta]
  exact (parses_domain _ _).bind_all ((parses_u64 _).bind_all ((parses_u64 _).bind_all
    ((parses_u64 _).bind_all ((parses_u64 _).bind_all ((parses_u64 _).bind_all
      ((parses_digest _).bind_all ((parses_digest _).bind_all ((parses_u64 _).bind_all
        (hchanges.bind_all ((parses_bool _).bind_all
          (hcontinuation.bind_all (parsesAll_done _ _))))))))))))

theorem fails_delta {d : StateDelta} (h : maxStateDeltaChanges < d.changes.length) :
    Fails delta d.canonicalBytes := by
  rw [canonicalBytes_delta]
  exact (parses_domain (c := True) _ _).bind_fails ((parses_u64 (c := True) _).bind_fails
    ((parses_u64 (c := True) _).bind_fails ((parses_u64 (c := True) _).bind_fails
      ((parses_u64 (c := True) _).bind_fails ((parses_u64 (c := True) _).bind_fails
        ((parses_digest (c := True) _).bind_fails ((parses_digest (c := True) _).bind_fails
          ((parses_u64 (c := True) _).bind_fails ((fails_changes h).bind _ _)))))))))

end Decode

/-! ## The codecs -/

namespace WorldSnapshot

/-- The snapshot as it comes back from its bytes. -/
def canonical (s : WorldSnapshot) : WorldSnapshot :=
  refreshHash { s with graph := s.graph.canonical }

theorem encode_canonical (g : WorldGraph) : g.canonical.encode = g.encode := by
  simp only [WorldGraph.encode, WorldGraph.canonical, OMap.size, OMap.values,
    OMap.toList_mapValues, List.length_map, List.map_map, List.flatMap_map, Function.comp_apply,
    EntityRecord.encode_canonical, EdgeRecord.encode_canonical, WorldEvent.encode_canonical]

theorem canonicalBytes_canonical (s : WorldSnapshot) :
    s.canonical.canonicalBytes = s.canonicalBytes := by
  simp only [canonical, canonicalBytes_refreshHash]
  simp only [canonicalBytes, encode_canonical]

/-- **The decoder accepts canonical bytes only.** -/
theorem canonicalBytes_of_fromCanonicalBytes {bytes : Bytes} {s : WorldSnapshot}
    (h : fromCanonicalBytes bytes = .ok s) : s.canonicalBytes = bytes := by
  unfold fromCanonicalBytes at h
  split at h
  · cases h
  · split at h
    · cases h
    · split at h
      · cases h
      · rename_i hbytes
        cases h
        exact not_not.1 hbytes

theorem canonical_eq (s : WorldSnapshot) :
    s.canonical =
      { s with graph := s.graph.canonical, stateHash := Digest32.ofBytes s.canonicalBytes } := by
  have hbytes : canonicalBytes { s with graph := s.graph.canonical } = s.canonicalBytes :=
    s.canonicalBytes_canonical
  simp only [canonical, refreshHash, computeHash, hbytes]

/-- **What the decoder makes of the bytes of a snapshot**: the canonical snapshot, unless its
values nest too deep. -/
theorem fromCanonicalBytes_canonicalBytes {s : WorldSnapshot} (hkeys : s.graph.KeysMatch)
    (hsize : s.canonicalBytes.length ≤ maxCanonicalSnapshotBytes) :
    fromCanonicalBytes s.canonicalBytes = .ok s.canonical ∨
      ¬ s.graph.Shallow ∧ ∃ e, fromCanonicalBytes s.canonicalBytes = .error e := by
  have hlen : s.canonicalBytes.length < 2 ^ 64 := hsize.trans_lt (by decide)
  unfold fromCanonicalBytes
  rw [if_neg (not_lt.2 hsize)]
  rcases Decode.parsesAll_snapshot hkeys (Digest32.ofBytes s.canonicalBytes) hlen with
    hok | ⟨hdeep, e, herr⟩
  · rw [hok, ← canonical_eq]
    exact .inl (if_neg (not_not.2 s.canonicalBytes_canonical))
  · rw [herr]
    exact .inr ⟨hdeep, e, rfl⟩

/-- **What comes back from storage**: the records in their order, each under its own identifier
and in canonical form. A snapshot whose identifiers do not ascend is not read at all. -/
theorem rekeys_of_fromCanonicalBytes {s t : WorldSnapshot}
    (h : fromCanonicalBytes s.canonicalBytes = .ok t) :
    ∃ rekeyed : WorldGraph, rekeyed.Rekeys s.graph ∧ t = canonical { s with graph := rekeyed } := by
  have hsize : s.canonicalBytes.length ≤ maxCanonicalSnapshotBytes := by
    by_contra hsize
    rw [fromCanonicalBytes, if_pos (not_le.1 hsize)] at h
    cases h
  rcases Decode.rekeys_or_fails s.graph with ⟨rekeyed, hrekeys⟩ | hfail
  · refine ⟨rekeyed, hrekeys, ?_⟩
    have hbytes : canonicalBytes { s with graph := rekeyed } = s.canonicalBytes := by
      simp only [canonicalBytes, hrekeys.encode_eq]
    rw [← hbytes] at h hsize
    rcases fromCanonicalBytes_canonicalBytes hrekeys.keysMatch hsize with hok | ⟨-, e, herr⟩
    · rw [hok] at h
      exact (Except.ok.inj h).symm
    · rw [herr] at h
      cases h
  · have hlen : (s.canonicalBytes ++ []).length < 2 ^ 64 := by
      rw [List.append_nil]
      exact hsize.trans_lt (by decide)
    obtain ⟨e, herr⟩ := Decode.fails_snapshot hfail (Digest32.ofBytes s.canonicalBytes) [] hlen
    rw [List.append_nil] at herr
    rw [fromCanonicalBytes, if_neg (not_lt.2 hsize), herr] at h
    cases h

/-- The snapshots meant for storage. -/
structure Storable (s : WorldSnapshot) : Prop where
  keys : s.graph.KeysMatch
  kinds : s.graph.Unaliased
  shallow : s.graph.Shallow
  size : s.canonicalBytes.length ≤ maxCanonicalSnapshotBytes

end WorldSnapshot

theorem WorldGraph.canonical_eq_self {g : WorldGraph} (h : g.Unaliased) : g.canonical = g := by
  have hentities : ∀ e ∈ g.entities.values, e.canonical = e := fun e he => by
    rw [EntityRecord.canonical, (EntityKind.canonical_eq_self_iff _).2 (h.entities e he)]
  have hedges : ∀ e ∈ g.edges.values, e.canonical = e := fun e he => by
    rw [EdgeRecord.canonical, (EdgeKind.canonical_eq_self_iff _).2 (h.edges e he)]
  have hevents : ∀ e ∈ g.events.values, e.canonical = e := fun e he => by
    rw [WorldEvent.canonical, (WorldEventKind.canonical_eq_self_iff _).2 (h.events e he)]
  rw [canonical, OMap.mapValues_eq_self hentities, OMap.mapValues_eq_self hedges,
    OMap.mapValues_eq_self hevents]

/-- A snapshot with its own kinds and its own hash is canonical. -/
theorem WorldSnapshot.canonical_eq_self {s : WorldSnapshot} (h : s.graph.Unaliased)
    (hhash : s.hashIsValid = true) : s.canonical = s := by
  rw [canonical, WorldGraph.canonical_eq_self h]
  exact refreshHash_eq_self hhash

namespace StateDelta

theorem canonicalBytes_of_fromCanonicalBytes {bytes : Bytes} {d : StateDelta}
    (h : fromCanonicalBytes bytes = .ok d) : d.canonicalBytes = bytes := by
  unfold fromCanonicalBytes at h
  split at h
  · cases h
  · split at h
    · cases h
    · split at h
      · cases h
      · rename_i hbytes
        cases h
        exact not_not.1 hbytes

/-- **What the decoder makes of the bytes of a delta.** -/
theorem fromCanonicalBytes_canonicalBytes {d : StateDelta} (h : d.Decodable)
    (hsize : d.canonicalBytes.length ≤ maxCanonicalSnapshotBytes) :
    fromCanonicalBytes d.canonicalBytes = .ok d.canonical := by
  have hlen : d.canonicalBytes.length < 2 ^ 64 := hsize.trans_lt (by decide)
  unfold fromCanonicalBytes
  rw [if_neg (not_lt.2 hsize)]
  rcases Decode.parsesAll_delta d hlen with hok | ⟨hno, -⟩
  · rw [hok]
    exact if_neg (not_not.2 d.canonicalBytes_canonical)
  · exact absurd h hno

/-- A delta of too many changes is not accepted. -/
theorem fromCanonicalBytes_ne_ok {d : StateDelta} (h : maxStateDeltaChanges < d.changes.length)
    (t : StateDelta) : fromCanonicalBytes d.canonicalBytes ≠ .ok t := by
  unfold fromCanonicalBytes
  split
  · nofun
  · rename_i hsize
    have hlen : (d.canonicalBytes ++ []).length < 2 ^ 64 := by
      rw [List.append_nil]
      exact (not_lt.1 hsize).trans_lt (by decide)
    obtain ⟨e, herr⟩ := Decode.fails_delta h [] hlen
    rw [List.append_nil] at herr
    rw [herr]
    nofun

end StateDelta

/-- The kind a change carries does not borrow a reserved name. -/
def WorldChange.Unaliased : WorldChange → Prop
  | .upsertEntity record => record.kind.Unaliased
  | .upsertEdge record => record.kind.Unaliased
  | .appendEvent event => event.kind.Unaliased
  | _ => True

theorem WorldChange.canonical_eq_self {change : WorldChange} (h : change.Unaliased) :
    change.canonical = change := by
  cases change with
  | upsertEntity record =>
      rw [canonical, EntityRecord.canonical, (EntityKind.canonical_eq_self_iff _).2 h]
  | upsertEdge record =>
      rw [canonical, EdgeRecord.canonical, (EdgeKind.canonical_eq_self_iff _).2 h]
  | appendEvent event =>
      rw [canonical, WorldEvent.canonical, (WorldEventKind.canonical_eq_self_iff _).2 h]
  | _ => rfl

/-- The deltas meant for storage. -/
structure StateDelta.Storable (d : StateDelta) : Prop where
  kinds : ∀ change ∈ d.changes, change.Unaliased
  shallow : ∀ change ∈ d.changes, change.Shallow
  size : d.canonicalBytes.length ≤ maxCanonicalSnapshotBytes

/-- **Encoding and decoding are inverse.** A storable snapshot with a valid hash, and a storable
delta of at most a million changes, come back from their bytes; and what the decoder accepts is
the bytes of what it returns. -/
theorem canonical_codec :
    (∀ s : WorldSnapshot, s.Storable → s.hashIsValid = true →
      WorldSnapshot.fromCanonicalBytes s.canonicalBytes = .ok s) ∧
    (∀ bytes s, WorldSnapshot.fromCanonicalBytes bytes = .ok s → s.canonicalBytes = bytes) ∧
    (∀ d : StateDelta, d.Storable → d.changes.length ≤ maxStateDeltaChanges →
      StateDelta.fromCanonicalBytes d.canonicalBytes = .ok d) ∧
    (∀ bytes d, StateDelta.fromCanonicalBytes bytes = .ok d → d.canonicalBytes = bytes) := by
  refine ⟨fun s h hhash => ?_, fun bytes s => WorldSnapshot.canonicalBytes_of_fromCanonicalBytes,
    fun d h hcount => ?_, fun bytes d => StateDelta.canonicalBytes_of_fromCanonicalBytes⟩
  · rcases WorldSnapshot.fromCanonicalBytes_canonicalBytes h.keys h.size with hok | ⟨hdeep, -⟩
    · rw [hok, WorldSnapshot.canonical_eq_self h.kinds hhash]
    · exact absurd h.shallow hdeep
  · have hchanges : d.changes.map WorldChange.canonical = d.changes :=
      (List.map_congr_left fun change hmem =>
        WorldChange.canonical_eq_self (h.kinds change hmem)).trans (List.map_id _)
    have hself : d.canonical = d := by rw [StateDelta.canonical, hchanges]
    rw [StateDelta.fromCanonicalBytes_canonicalBytes ⟨h.shallow, hcount⟩ h.size, hself]

/-- A world of one entity, and the delta that removes it, are stored and read back. -/
theorem canonical_codec_sample :
    let s := Sample.snapshot 0 (Sample.entities [Sample.entity 1 1])
    let d : StateDelta := ⟨1, ⟨0, 0⟩, ⟨0, 1⟩, Digest32.zero, Digest32.zero, 0,
      [.removeEntity 1 0 1], false, none⟩
    WorldSnapshot.fromCanonicalBytes s.canonicalBytes = .ok s ∧
      StateDelta.fromCanonicalBytes d.canonicalBytes = .ok d := by
  intro s d
  obtain ⟨hsnapshot, -, hdelta, -⟩ := canonical_codec
  have hentities : s.graph.entities.values = [Sample.entity 1 1] := by decide
  have hstorable : s.Storable := by
    refine ⟨by decide, ⟨?_, List.forall_mem_nil _, List.forall_mem_nil _⟩,
      ⟨?_, List.forall_mem_nil _, List.forall_mem_nil _, List.forall_mem_nil _⟩, by decide +kernel⟩
    · rw [hentities]
      simp [Sample.entity, EntityKind.Unaliased]
    · rw [hentities]
      simp [Sample.entity, EntityRecord.Shallow]
  refine ⟨hsnapshot s hstorable (by simp [s]), hdelta d ⟨?_, ?_, by decide +kernel⟩ (by decide)⟩
  · simp [d, WorldChange.Unaliased]
  · simp [d, WorldChange.Shallow]

/-- A snapshot whose hash is stale does not come back as it was, and a delta of more than a
million changes does not come back at all. -/
theorem canonical_codec_refuses :
    (∃ s : WorldSnapshot, s.Storable ∧
      WorldSnapshot.fromCanonicalBytes s.canonicalBytes ≠ .ok s) ∧
    ∃ d : StateDelta, d.Storable ∧ StateDelta.fromCanonicalBytes d.canonicalBytes ≠ .ok d := by
  constructor
  · let stale : WorldSnapshot := { Sample.snapshot 0 .empty with stateHash := Digest32.zero }
    have hstorable : stale.Storable :=
      ⟨by decide, ⟨List.forall_mem_nil _, List.forall_mem_nil _, List.forall_mem_nil _⟩,
        ⟨List.forall_mem_nil _, List.forall_mem_nil _, List.forall_mem_nil _,
          List.forall_mem_nil _⟩, by decide +kernel⟩
    refine ⟨stale, hstorable, fun h => ?_⟩
    rcases WorldSnapshot.fromCanonicalBytes_canonicalBytes hstorable.keys hstorable.size with
      hok | ⟨-, e, herr⟩
    · rw [h, WorldSnapshot.canonical_eq] at hok
      have hhash : Digest32.zero = Digest32.ofBytes stale.canonicalBytes :=
        congrArg WorldSnapshot.stateHash (Except.ok.inj hok)
      revert hhash
      decide +kernel
    · rw [h] at herr
      cases herr
  · let long : StateDelta := ⟨1, ⟨0, 0⟩, ⟨0, 1⟩, Digest32.zero, Digest32.zero, 0,
      List.replicate (maxStateDeltaChanges + 1) (.removeEntity 1 0 0), false, none⟩
    have hmem : ∀ change ∈ long.changes, change = .removeEntity 1 0 0 :=
      fun change h => List.eq_of_mem_replicate h
    have hchanges : (long.changes.flatMap WorldChange.encode).length =
        (maxStateDeltaChanges + 1) * 21 := by
      have hone : (WorldChange.encode (.removeEntity 1 0 0)).length = 21 := rfl
      rw [List.length_flatMap, List.map_replicate, List.sum_replicate_nat, hone]
    have hdomain : (putStr deltaDomain).length = 28 := by decide
    refine ⟨long, ⟨fun change h => ?_, fun change h => ?_, ?_⟩,
      StateDelta.fromCanonicalBytes_ne_ok ?_ _⟩
    · rw [hmem change h]
      trivial
    · rw [hmem change h]
      trivial
    · rw [Decode.canonicalBytes_delta]
      simp only [List.length_append, hchanges, hdomain]
      decide
    · rw [List.length_replicate]
      exact Nat.lt_succ_self _

end Dfmcp
