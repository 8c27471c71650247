import Dfmcp.World.CanonicalDecodeProof
import Dfmcp.World.QueryProof
import Dfmcp.World.QueryPage

/-!
# The identity of a query

The bytes that a continuation commits to determine the anchor of the snapshot and the query's
filters and order, up to what the source normalizes on purpose: the order and repetition of the
selected kinds, a missing predicate (which is the true one), and the order of the targets and
civilians of the laboratory predicates.

That is shown by reading the bytes back. No reader of identities exists in the source; this one
is here only because what one reader reads exactly is told apart.

* `encodePredicate_ok` — the buffer grows by the bytes of the predicate, within the bound;
* `parses_predicate` — these are read back as the sorted predicate;
* `identity_determines` — equal identities are identities of the same anchor and query.
-/

namespace Dfmcp

open Machine Wire

/-! ## Normal forms -/

namespace Predicate

mutual

/-- A predicate with its targets and civilians in order. -/
def sorted : Predicate → Predicate
  | .all predicates => .all (sortedList predicates)
  | .any predicates => .any (sortedList predicates)
  | .not predicate => .not predicate.sorted
  | .laboratoryRoomAccess area entry targets =>
      .laboratoryRoomAccess area entry (QueryPage.sortTargets targets)
  | .laboratoryRoomAccessPairedStairs area entry targets =>
      .laboratoryRoomAccessPairedStairs area entry (QueryPage.sortTargets targets)
  | .laboratoryCivilianReleaseSafety burrow civilians =>
      .laboratoryCivilianReleaseSafety burrow (QueryPage.sortCivilians civilians)
  | leaf => leaf

def sortedList : List Predicate → List Predicate
  | [] => []
  | predicate :: rest => predicate.sorted :: sortedList rest

end

theorem sortedList_eq (predicates : List Predicate) :
    sortedList predicates = predicates.map sorted := by
  induction predicates with
  | nil => rfl
  | cons predicate rest ih => rw [sortedList, ih, List.map_cons]

mutual

/-- How deep a reader of the predicate has to go. -/
def reach : Predicate → Nat
  | .all predicates | .any predicates => reachList predicates + 1
  | .not predicate => predicate.reach + 1
  | .fieldCompare _ _ _ value => value.height + 1
  | .entityQuantity _ _ filterValue _ _ _ => filterValue.height + 1
  | .entityQuantityIncrease _ _ filterValue _ _ _ _ _ _ _ => filterValue.height + 1
  | _ => 0

def reachList : List Predicate → Nat
  | [] => 0
  | predicate :: rest => max predicate.reach (reachList rest)

end

theorem reach_le_of_mem {predicates : List Predicate} {p : Predicate} (h : p ∈ predicates) :
    p.reach ≤ reachList predicates := by
  induction predicates with
  | nil => cases h
  | cons first rest ih =>
      rw [reachList]
      rcases List.mem_cons.1 h with rfl | h
      · exact le_max_left _ _
      · exact (ih h).trans (le_max_right _ _)

end Predicate

namespace QueryPage

/-! ## What the buffer grows by -/

def entityKindBytes (kind : EntityKind) : Bytes := putBool kind.isOther ++ putStr kind.asStr
def edgeKindBytes (kind : EdgeKind) : Bytes := putBool kind.isCustom ++ putStr kind.asStr

/-- The bytes of a list behind its length. -/
def putCounted {α : Type} (put : α → Bytes) (l : List α) : Bytes :=
  putLen l.length ++ l.flatMap put

mutual

def predicateBytes : Predicate → Bytes
  | .true => [0]
  | .false => [1]
  | .entityExists entityId => 2 :: putU64 entityId
  | .entityKind entityId kind => 3 :: (putU64 entityId ++ entityKindBytes kind)
  | .fieldCompare entityId field op value =>
      4 :: (putU64 entityId ++ (putStr field ++ ([compareOpTag op] ++ value.encode)))
  | .edgeExists edgeId kind => 5 :: (putU128 edgeId ++ putOption edgeKindBytes kind)
  | .paused paused => 6 :: putBool paused
  | .all children => 7 :: (putLen children.length ++ predicatesBytes children)
  | .any children => 8 :: (putLen children.length ++ predicatesBytes children)
  | .not child => 9 :: predicateBytes child
  | .regionTerrain area tileCode => 10 :: (putCoord area.min ++ (putCoord area.max ++
      putU32 tileCode))
  | .laboratoryRoomAccess area entry targets => 11 :: putRoom area entry targets
  | .entityQuantity kind filterField filterValue quantityField op value =>
      12 :: (entityKindBytes kind ++ (putStr filterField ++ (filterValue.encode ++
        (putOption putStr quantityField ++ ([compareOpTag op] ++ putU64 value)))))
  | .laboratoryRoomAccessPairedStairs area entry targets => 13 :: putRoom area entry targets
  | .laboratoryCivilianReleaseSafety burrow civilians =>
      14 :: (putIdentity burrow ++ putCounted putIdentity (sortCivilians civilians))
  | .entityQuantityIncrease kind filterField filterValue quantityField baseline increase
      baselineAnchor baselineSourceDigest sourceGeneration counters =>
      15 :: (entityKindBytes kind ++ (putStr filterField ++ (filterValue.encode ++
        (putOption putStr quantityField ++ (putU64 baseline ++ (putU64 increase ++
        (putAnchor baselineAnchor ++ (baselineSourceDigest.bytes ++ (putU64 sourceGeneration ++
        (putU64 counters.1 ++ (putU64 counters.2.1 ++ putU64 counters.2.2)))))))))))

def predicatesBytes : List Predicate → Bytes
  | [] => []
  | child :: rest => predicateBytes child ++ predicatesBytes rest

end

theorem predicatesBytes_eq (children : List Predicate) :
    predicatesBytes children = children.flatMap predicateBytes := by
  induction children with
  | nil => rfl
  | cons child rest ih => rw [predicatesBytes, ih, List.flatMap_cons]

theorem checkIdentityLength_ok {bytes out : Bytes} (h : checkIdentityLength bytes = .ok out) :
    out = bytes ∧ out.length ≤ maxQueryIdentityBytes := by
  unfold checkIdentityLength at h
  split at h
  · cases h
  · rename_i hlength
    obtain rfl := Except.ok.inj h
    exact ⟨rfl, not_lt.1 hlength⟩

theorem encodeKindName_ok {bytes out : Bytes} {name : String}
    (h : encodeKindName bytes name = .ok out) : out = bytes ++ putStr name := by
  unfold encodeKindName at h
  split at h
  · cases h
  · exact (Except.ok.inj h).symm

theorem encodeEntityKind_ok {bytes out : Bytes} {kind : EntityKind}
    (h : encodeEntityKind bytes kind = .ok out) : out = bytes ++ entityKindBytes kind := by
  rw [encodeKindName_ok h, List.append_assoc]
  rfl

theorem encodeEdgeKind_ok {bytes out : Bytes} {kind : EdgeKind}
    (h : encodeEdgeKind bytes kind = .ok out) : out = bytes ++ edgeKindBytes kind := by
  rw [encodeKindName_ok h, List.append_assoc]
  rfl

/-- A predicate adds its bytes to the buffer, which stays within the bound. -/
def Adds (p : Predicate) : Prop :=
  ∀ bytes out, encodePredicate bytes p = .ok out →
    out = bytes ++ predicateBytes p ∧ out.length ≤ maxQueryIdentityBytes

theorem encodePredicates_ok {children : List Predicate} (hchildren : ∀ p ∈ children, Adds p)
    {bytes out : Bytes} (h : encodePredicates bytes children = .ok out) :
    out = bytes ++ predicatesBytes children := by
  induction children generalizing bytes with
  | nil =>
      rw [predicatesBytes, List.append_nil]
      exact (Except.ok.inj h).symm
  | cons child rest ih =>
      rw [encodePredicates, bind_ok_iff] at h
      obtain ⟨next, hchild, hrest⟩ := h
      rw [ih (fun p hp => hchildren p (List.mem_cons_of_mem _ hp)) hrest,
        (hchildren child List.mem_cons_self bytes next hchild).1, List.append_assoc]
      rfl

/-- **The buffer grows by the bytes of the predicate**, within the bound. -/
theorem encodePredicate_ok (p : Predicate) : Adds p := by
  induction p using Predicate.induct with
  | hall children ih =>
      intro bytes out h
      rw [encodePredicate, bind_ok_iff] at h
      obtain ⟨next, hchildren, hcheck⟩ := h
      obtain ⟨rfl, hlength⟩ := checkIdentityLength_ok hcheck
      refine ⟨?_, hlength⟩
      rw [encodePredicates_ok ih hchildren, List.append_assoc]
      rfl
  | hany children ih =>
      intro bytes out h
      rw [encodePredicate, bind_ok_iff] at h
      obtain ⟨next, hchildren, hcheck⟩ := h
      obtain ⟨rfl, hlength⟩ := checkIdentityLength_ok hcheck
      refine ⟨?_, hlength⟩
      rw [encodePredicates_ok ih hchildren, List.append_assoc]
      rfl
  | hnot child ih =>
      intro bytes out h
      rw [encodePredicate, bind_ok_iff] at h
      obtain ⟨next, hchild, hcheck⟩ := h
      obtain ⟨rfl, hlength⟩ := checkIdentityLength_ok hcheck
      refine ⟨?_, hlength⟩
      rw [(ih _ _ hchild).1, List.append_assoc]
      rfl
  | hleaf p hp =>
      intro bytes out h
      cases p with
      | all children => exact hp.elim
      | any children => exact hp.elim
      | not child => exact hp.elim
      | entityKind entityId kind =>
          rw [encodePredicate, bind_ok_iff] at h
          obtain ⟨next, hkind, hcheck⟩ := h
          obtain ⟨rfl, hlength⟩ := checkIdentityLength_ok hcheck
          refine ⟨?_, hlength⟩
          rw [encodeEntityKind_ok hkind, List.append_assoc]
          rfl
      | edgeExists edgeId kind =>
          cases kind with
          | none =>
              obtain ⟨rfl, hlength⟩ := @checkIdentityLength_ok
                (bytes ++ 5 :: putU128 edgeId ++ [0]) _ h
              refine ⟨?_, hlength⟩
              rw [List.append_assoc]
              rfl
          | some kind =>
              rw [encodePredicate] at h
              obtain ⟨next, hkind, hcheck⟩ := bind_ok_iff.1 h
              obtain ⟨rfl, hlength⟩ := checkIdentityLength_ok hcheck
              refine ⟨?_, hlength⟩
              rw [encodeEdgeKind_ok hkind, List.append_assoc, List.append_assoc]
              rfl
      | entityQuantity kind filterField filterValue quantityField op value =>
          rw [encodePredicate, bind_ok_iff] at h
          obtain ⟨next, hkind, hcheck⟩ := h
          obtain ⟨rfl, hlength⟩ := checkIdentityLength_ok hcheck
          refine ⟨?_, hlength⟩
          rw [encodeEntityKind_ok hkind]
          simp only [predicateBytes, List.append_assoc, List.cons_append, List.nil_append]
      | entityQuantityIncrease kind filterField filterValue quantityField baseline increase anchor
          digest generation counters =>
          rw [encodePredicate, bind_ok_iff] at h
          obtain ⟨next, hkind, hcheck⟩ := h
          obtain ⟨rfl, hlength⟩ := checkIdentityLength_ok hcheck
          refine ⟨?_, hlength⟩
          rw [encodeEntityKind_ok hkind]
          simp only [predicateBytes, List.append_assoc, List.cons_append, List.nil_append]
      | _ =>
          obtain ⟨rfl, hlength⟩ := checkIdentityLength_ok h
          refine ⟨?_, hlength⟩
          simp only [predicateBytes, putCounted, List.append_assoc, List.cons_append,
            List.nil_append]

/-! ## Reading it back -/

open Decode

def readEntityKind : Decoder EntityKind := do
  let other ← bool
  let name ← string
  pure (if other then .other name else .fromName name)

def readEdgeKind : Decoder EdgeKind := do
  let custom ← bool
  let name ← string
  pure (if custom then .custom name else edgeKind name)

def readCompareOp : Decoder CompareOp := do
  let tag ← u8
  match tag.toNat with
  | 0 => pure .eq
  | 1 => pure .ne
  | 2 => pure .lt
  | 3 => pure .le
  | 4 => pure .gt
  | _ => pure .ge

def readIdentity : Decoder LaboratoryEntityIdentity := do
  let id ← u64
  let generation ← u32
  pure ⟨id, generation⟩

/-- A room: its area, its entry and its targets. -/
def readRoom : Decoder (MapCuboid × MapCoord × List MapCoord) := do
  let min ← mapCoord
  let max ← mapCoord
  let entry ← mapCoord
  let targets ← list 1 mapCoord
  pure (⟨min, max⟩, entry, targets)

def readPredicate : Nat → Decoder Predicate
  | 0 => fail (corrupt "query identity nests too deep")
  | left + 1 => do
      let tag ← u8
      match tag.toNat with
      | 0 => pure .true
      | 1 => pure .false
      | 2 => Predicate.entityExists <$> u64
      | 3 => do
          let entityId ← u64
          let kind ← readEntityKind
          pure (.entityKind entityId kind)
      | 4 => do
          let entityId ← u64
          let field ← string
          let op ← readCompareOp
          let value ← value left
          pure (.fieldCompare entityId field op value)
      | 5 => do
          let edgeId ← u128
          let kind ← option readEdgeKind
          pure (.edgeExists edgeId kind)
      | 6 => Predicate.paused <$> bool
      | 7 => Predicate.all <$> list 1 (readPredicate left)
      | 8 => Predicate.any <$> list 1 (readPredicate left)
      | 9 => Predicate.not <$> readPredicate left
      | 10 => do
          let min ← mapCoord
          let max ← mapCoord
          let tileCode ← u32
          pure (.regionTerrain ⟨min, max⟩ tileCode)
      | 11 => (fun room => Predicate.laboratoryRoomAccess room.1 room.2.1 room.2.2) <$> readRoom
      | 12 => do
          let kind ← readEntityKind
          let filterField ← string
          let filterValue ← value left
          let quantityField ← option string
          let op ← readCompareOp
          let value ← u64
          pure (.entityQuantity kind filterField filterValue quantityField op value)
      | 13 =>
          (fun room => Predicate.laboratoryRoomAccessPairedStairs room.1 room.2.1 room.2.2) <$>
            readRoom
      | 14 => do
          let burrow ← readIdentity
          let civilians ← list 1 readIdentity
          pure (.laboratoryCivilianReleaseSafety burrow civilians)
      | _ => do
          let kind ← readEntityKind
          let filterField ← string
          let filterValue ← value left
          let quantityField ← option string
          let baseline ← u64
          let increase ← u64
          let baselineAnchor ← anchor
          let digest ← array 32
          let sourceGeneration ← u64
          let first ← u64
          let second ← u64
          let third ← u64
          pure (.entityQuantityIncrease kind filterField filterValue quantityField baseline increase
            baselineAnchor (.fromBytes digest) sourceGeneration (first, second, third))

variable {c : Prop}

theorem parses_readEntityKind (kind : EntityKind) :
    Parses c readEntityKind (entityKindBytes kind) kind := by
  have hkind : (if kind.isOther then EntityKind.other kind.asStr else .fromName kind.asStr) =
      kind := by
    cases kind with
    | other name => rfl
    | _ => exact (EntityKind.canonical_eq_self_iff _).2 trivial
  have hname := (parses_string (c := c) kind.asStr).bind_pure
    (f := fun name => if kind.isOther then EntityKind.other name else .fromName name)
  rw [hkind] at hname
  exact (parses_bool kind.isOther).bind hname

theorem parses_readEdgeKind (kind : EdgeKind) :
    Parses c readEdgeKind (edgeKindBytes kind) kind := by
  have hkind : (if kind.isCustom then EdgeKind.custom kind.asStr else edgeKind kind.asStr) =
      kind := by
    cases kind with
    | custom name => rfl
    | _ => exact (EdgeKind.canonical_eq_self_iff _).2 trivial
  have hname := (parses_string (c := c) kind.asStr).bind_pure
    (f := fun name => if kind.isCustom then EdgeKind.custom name else edgeKind name)
  rw [hkind] at hname
  exact (parses_bool kind.isCustom).bind hname

theorem parses_readCompareOp (op : CompareOp) : Parses c readCompareOp [compareOpTag op] op := by
  cases op <;> exact parses_tagged _ (Parses.pure _)

theorem parses_readIdentity (identity : LaboratoryEntityIdentity) :
    Parses c readIdentity (putIdentity identity) identity :=
  (parses_u64 _).bind (parses_u32 _).bind_pure

theorem parses_counted_list {α : Type} {item : Decoder α} {put : α → Bytes} {l : List α}
    (hsize : ∀ a, 1 ≤ (put a).length) (h : ∀ a, Parses c item (put a) a) :
    Parses c (list 1 item) (putCounted put l) l := by
  have hlist := @parses_list _ _ _ _ _ id l 1 (fun a _ => hsize a)
    fun a _ => h a
  rwa [List.map_id] at hlist

theorem parses_readRoom (area : MapCuboid) (entry : MapCoord) (targets : List MapCoord) :
    Parses c readRoom (putRoom area entry targets) (area, entry, sortTargets targets) := by
  have hsize : ∀ coord, 1 ≤ (putCoord coord).length := by
    intro coord
    simp [putCoord, putI32]
  simp only [putRoom, List.append_assoc]
  exact (parses_mapCoord area.min).bind ((parses_mapCoord area.max).bind
    ((parses_mapCoord entry).bind (parses_counted_list hsize parses_mapCoord).bind_pure))

theorem one_le_length_predicateBytes (p : Predicate) : 1 ≤ (predicateBytes p).length := by
  cases p <;> simp [predicateBytes]

/-- **A predicate is read back in its normal form.** -/
theorem parses_predicate (left : Nat) (p : Predicate) :
    Parses (p.reach < left) (readPredicate left) (predicateBytes p) p.sorted := by
  -- on the levels left, as for values
  induction left generalizing p with
  | zero => exact .fail _ (Nat.not_lt_zero _)
  | succ left ih =>
      have hvalue : ∀ v : Value, Parses (v.height + 1 < left + 1) (value left) v.encode v :=
        fun v => (parses_value left v).mono fun h => by omega
      have hchildren : ∀ children, Parses (Predicate.reachList children + 1 < left + 1)
          (list 1 (readPredicate left)) (putLen children.length ++ predicatesBytes children)
          (Predicate.sortedList children) := by
        intro children
        rw [predicatesBytes_eq, Predicate.sortedList_eq]
        refine parses_list (fun p _ => one_le_length_predicateBytes p) fun p hp => ?_
        refine (ih p).mono fun h => ?_
        have hle := Predicate.reach_le_of_mem hp
        omega
      cases p with
      | true => exact parses_tagged 0 (Parses.pure _)
      | false => exact parses_tagged 1 (Parses.pure _)
      | entityExists entityId => exact parses_tagged 2 ((parses_u64 _).map _)
      | entityKind entityId kind =>
          exact parses_tagged 3 ((parses_u64 _).bind (parses_readEntityKind kind).bind_pure)
      | fieldCompare entityId field op v =>
          exact parses_tagged 4 ((parses_u64 _).bind ((parses_string _).bind
            ((parses_readCompareOp op).bind (hvalue v).bind_pure)))
      | edgeExists edgeId kind =>
          have hkind := parses_option (c := (Predicate.edgeExists edgeId kind).reach < left + 1)
            (a := kind) (g := id) fun k _ => parses_readEdgeKind k
          rw [Option.map_id] at hkind
          exact parses_tagged 5 ((parses_u128 _).bind hkind.bind_pure)
      | paused paused => exact parses_tagged 6 ((parses_bool _).map _)
      | all children => exact parses_tagged 7 ((hchildren children).map _)
      | any children => exact parses_tagged 8 ((hchildren children).map _)
      | not child =>
          have hchild := (ih child).mono
            fun h : (Predicate.not child).reach < left + 1 => by
              rw [Predicate.reach] at h
              omega
          exact parses_tagged 9 (hchild.map _)
      | regionTerrain area tileCode =>
          exact parses_tagged 10 ((parses_mapCoord _).bind ((parses_mapCoord _).bind
            (parses_u32 _).bind_pure))
      | laboratoryRoomAccess area entry targets =>
          exact parses_tagged 11 ((parses_readRoom area entry targets).map _)
      | entityQuantity kind filterField filterValue quantityField op v =>
          have hfield := parses_option (c := filterValue.height + 1 < left + 1)
            (a := quantityField) (g := id) fun k _ => parses_string k
          rw [Option.map_id] at hfield
          exact parses_tagged 12 ((parses_readEntityKind kind).bind ((parses_string _).bind
            ((hvalue filterValue).bind (hfield.bind ((parses_readCompareOp op).bind
              (parses_u64 v).bind_pure)))))
      | laboratoryRoomAccessPairedStairs area entry targets =>
          exact parses_tagged 13 ((parses_readRoom area entry targets).map _)
      | laboratoryCivilianReleaseSafety burrow civilians =>
          have hsize : ∀ identity, 1 ≤ (putIdentity identity).length := by
            intro identity
            simp only [putIdentity, putU64, List.length_append, length_beBytes]
            omega
          exact parses_tagged 14 ((parses_readIdentity burrow).bind
            (parses_counted_list hsize parses_readIdentity).bind_pure)
      | entityQuantityIncrease kind filterField filterValue quantityField baseline increase anchor
          digest generation counters =>
          have hfield := parses_option (c := filterValue.height + 1 < left + 1)
            (a := quantityField) (g := id) fun k _ => parses_string k
          rw [Option.map_id] at hfield
          have hdigest : Digest32.fromBytes digest.bytes = digest := dif_pos digest.length_eq
          have harray := parses_array (c := filterValue.height + 1 < left + 1) digest.bytes
          rw [digest.length_eq] at harray
          have hread : Parses (filterValue.height + 1 < left + 1) (readPredicate (left + 1))
              (predicateBytes (.entityQuantityIncrease kind filterField filterValue quantityField
                baseline increase anchor digest generation counters))
              (.entityQuantityIncrease kind filterField filterValue quantityField baseline increase
                anchor (.fromBytes digest.bytes) generation counters) :=
            parses_tagged 15 ((parses_readEntityKind kind).bind ((parses_string _).bind
              ((hvalue filterValue).bind (hfield.bind ((parses_u64 _).bind ((parses_u64 _).bind
                ((parses_anchor anchor).bind (harray.bind ((parses_u64 _).bind
                  ((parses_u64 _).bind ((parses_u64 _).bind (parses_u64 _).bind_pure)))))))))))
          rw [hdigest] at hread
          exact hread

/-! ## The whole identity -/

theorem mem_sortKinds {kind : EntityKind} {kinds : List EntityKind} :
    kind ∈ sortKinds kinds ↔ kind ∈ kinds :=
  (mem_dedup _).trans (List.mem_insertionSort _)

/-- The same filters and order, up to what the source normalizes. -/
structure SameSelection (query other : WorldQuery) : Prop where
  kinds : ∀ kind, kind ∈ query.kinds ↔ kind ∈ other.kinds
  order : query.order = other.order
  predicate : (query.predicate.getD .true).sorted = (other.predicate.getD .true).sorted

def identityParts (s : WorldSnapshot) (query : WorldQuery) : Bytes :=
  putStr "dfmcp-query-identity-v1" ++ (putAnchor s.anchor ++
    (putCounted entityKindBytes (sortKinds query.kinds) ++ ([orderTag query.order] ++
      predicateBytes (query.predicate.getD .true))))

theorem encodeKinds_ok {kinds : List EntityKind} {bytes out : Bytes}
    (h : encodeKinds bytes kinds = .ok out) : out = bytes ++ kinds.flatMap entityKindBytes := by
  induction kinds generalizing bytes with
  | nil =>
      rw [List.flatMap_nil, List.append_nil]
      exact (Except.ok.inj h).symm
  | cons kind rest ih =>
      rw [encodeKinds, bind_ok_iff] at h
      obtain ⟨next, hkind, hrest⟩ := h
      rw [ih hrest, encodeEntityKind_ok hkind, List.append_assoc, List.flatMap_cons]

theorem identityBytes_ok {s : WorldSnapshot} {query : WorldQuery} {bytes : Bytes}
    (h : identityBytes s query = .ok bytes) :
    bytes = identityParts s query ∧ bytes.length ≤ maxQueryIdentityBytes := by
  obtain ⟨withKinds, hkinds, hpredicate⟩ := bind_ok_iff.1 h
  obtain ⟨hbytes, hlength⟩ := encodePredicate_ok _ _ _ hpredicate
  refine ⟨?_, hlength⟩
  rw [hbytes, encodeKinds_ok hkinds]
  simp only [identityParts, putAnchor, WorldSnapshot.anchor, putCounted, List.append_assoc]

def readOrder : Decoder QueryOrder := do
  let tag ← u8
  match tag.toNat with
  | 0 => pure .entityIdAscending
  | 1 => pure .entityIdDescending
  | 2 => pure .revisionDescending
  | _ => pure .labelAscending

theorem parses_readOrder (order : QueryOrder) : Parses c readOrder [orderTag order] order := by
  cases order <;> exact parses_tagged _ (Parses.pure _)

def readQueryIdentity (left : Nat) :
    Decoder (StateAnchor × List EntityKind × QueryOrder × Predicate) := do
  let _ ← string
  let stateAnchor ← anchor
  let kinds ← list 1 readEntityKind
  let order ← readOrder
  let predicate ← readPredicate left
  pure (stateAnchor, kinds, order, predicate)

theorem parses_identityParts (left : Nat) (s : WorldSnapshot) (query : WorldQuery) :
    Parses ((query.predicate.getD .true).reach < left) (readQueryIdentity left)
      (identityParts s query) (s.anchor, sortKinds query.kinds, query.order,
        (query.predicate.getD .true).sorted) := by
  have hsize : ∀ kind, 1 ≤ (entityKindBytes kind).length := by
    intro kind
    cases hother : kind.isOther <;> simp [entityKindBytes, putBool, hother]
  exact (parses_string _).bind ((parses_anchor _).bind
    ((parses_counted_list hsize parses_readEntityKind).bind ((parses_readOrder _).bind
      (parses_predicate left _).bind_pure)))

/-- **Equal identities are identities of one anchor and one selection.** -/
theorem identity_determines {s t : WorldSnapshot} {query other : WorldQuery} {bytes : Bytes}
    (hs : identityBytes s query = .ok bytes) (ht : identityBytes t other = .ok bytes) :
    s.anchor = t.anchor ∧ SameSelection query other := by
  obtain ⟨hbytes, hlength⟩ := identityBytes_ok hs
  have hparts := hbytes.symm.trans (identityBytes_ok ht).1
  -- one reader deep enough for both
  let left := max (query.predicate.getD .true).reach (other.predicate.getD .true).reach + 1
  have hquery := (parses_identityParts left s query).mono fun _ : True =>
    Nat.lt_succ_of_le (le_max_left _ _)
  have hother := (parses_identityParts left t other).mono fun _ : True =>
    Nat.lt_succ_of_le (le_max_right _ _)
  have hshort : (identityParts s query ++ []).length < 2 ^ 64 := by
    rw [List.append_nil, ← hbytes]
    exact hlength.trans_lt (by decide)
  have hread := (hquery.inj hother trivial hshort (by rw [hparts])).1
  obtain ⟨hanchor, hrest⟩ := Prod.mk.inj hread
  obtain ⟨hkinds, hrest⟩ := Prod.mk.inj hrest
  obtain ⟨horder, hpredicate⟩ := Prod.mk.inj hrest
  refine ⟨hanchor, fun kind => ?_, horder, hpredicate⟩
  rw [← mem_sortKinds, hkinds, mem_sortKinds]

end QueryPage

end Dfmcp
