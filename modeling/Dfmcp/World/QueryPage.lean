import Dfmcp.World.Query

/-!
# Query pages

`query_page.rs`: pages of a query over one snapshot. A continuation carries an offset and a
commitment to it, to the snapshot's anchor and to the query's filters and order; a page whose
commitment does not match is refused. The page itself is read by the reference evaluator of
`query.rs`, under that evaluator's own continuation.

The source writes the identity of a query into one buffer and checks the buffer's length after
every predicate; here the buffer is passed along.
-/

namespace Dfmcp

open Machine

namespace EntityKind

/-- The position of a kind in its declaration. -/
def ordinal : EntityKind → Nat
  | .fortress => 0
  | .unit => 1
  | .item => 2
  | .building => 3
  | .job => 4
  | .workOrder => 5
  | .stockpile => 6
  | .zone => 7
  | .burrow => 8
  | .squad => 9
  | .militaryOrder => 10
  | .tileFeature => 11
  | .plant => 12
  | .creature => 13
  | .historicalFigure => 14
  | .civilization => 15
  | .announcement => 16
  | .syndrome => 17
  | .other _ => 18

/-- Kinds are ordered as they are declared, and custom ones by name. -/
def key (kind : EntityKind) : Nat ×ₗ String := toLex (kind.ordinal, kind.asStr)

def isOther : EntityKind → Bool
  | .other _ => true
  | _ => false

end EntityKind

def EdgeKind.isCustom : EdgeKind → Bool
  | .custom _ => true
  | _ => false

/-- Rust's `dedup`: drop an element that equals the one before it. -/
def dedup {α : Type} [DecidableEq α] : List α → List α
  | a :: b :: rest => if a = b then dedup (b :: rest) else a :: dedup (b :: rest)
  | l => l

theorem mem_dedup {α : Type} [DecidableEq α] {a : α} (l : List α) : a ∈ dedup l ↔ a ∈ l := by
  fun_induction dedup l with
  | case1 b rest ih => rw [ih, List.mem_cons, List.mem_cons, List.mem_cons, or_self_left]
  | case2 first second rest hne ih => rw [List.mem_cons, ih, ← List.mem_cons]
  | case3 l _ => rfl

namespace QueryPage

def maxQueryWork : U 64 := 4000000
def maxQueryIdentityBytes : Nat := 256 * 1024
def maxKindBytes : Nat := 128

/-! ## The identity of a query -/

def encodeKindName (bytes : Bytes) (name : String) : Result Bytes :=
  if strLen name > maxKindBytes then
    .error (.new .budgetExceeded "query kind name exceeds its bound")
  else .ok (bytes ++ putStr name)

/-- A kind and whether it is a custom one: `Other("unit")` is not `Unit`. -/
def encodeEntityKind (bytes : Bytes) (kind : EntityKind) : Result Bytes :=
  encodeKindName (bytes ++ putBool kind.isOther) kind.asStr

def encodeEdgeKind (bytes : Bytes) (kind : EdgeKind) : Result Bytes :=
  encodeKindName (bytes ++ putBool kind.isCustom) kind.asStr

def compareOpTag : CompareOp → UInt8
  | .eq => 0
  | .ne => 1
  | .lt => 2
  | .le => 3
  | .gt => 4
  | .ge => 5

def putCoord (c : MapCoord) : Bytes := putI32 c.x ++ putI32 c.y ++ putI32 c.z

/-- Targets in the order of `(z, y, x)`. -/
def sortTargets (targets : List MapCoord) : List MapCoord :=
  targets.insertionSort fun a b => toLex (a.z, toLex (a.y, a.x)) ≤ toLex (b.z, toLex (b.y, b.x))

def sortCivilians (civilians : List LaboratoryEntityIdentity) : List LaboratoryEntityIdentity :=
  civilians.insertionSort fun a b => a.key ≤ b.key

def putIdentity (identity : LaboratoryEntityIdentity) : Bytes :=
  putU64 identity.id ++ putU32 identity.generation

def putRoom (area : MapCuboid) (entry : MapCoord) (targets : List MapCoord) : Bytes :=
  putCoord area.min ++ putCoord area.max ++ putCoord entry ++
    (putLen (sortTargets targets).length ++ (sortTargets targets).flatMap putCoord)

/-- The check that ends every predicate. -/
def checkIdentityLength (bytes : Bytes) : Result Bytes :=
  if bytes.length > maxQueryIdentityBytes then
    .error (.new .budgetExceeded "query identity exceeds its aggregate byte bound")
  else .ok bytes

mutual

def encodePredicate (bytes : Bytes) : Predicate → Result Bytes
  | .true => checkIdentityLength (bytes ++ [0])
  | .false => checkIdentityLength (bytes ++ [1])
  | .entityExists entityId => checkIdentityLength (bytes ++ 2 :: putU64 entityId)
  | .entityKind entityId kind => do
      let bytes ← encodeEntityKind (bytes ++ 3 :: putU64 entityId) kind
      checkIdentityLength bytes
  | .fieldCompare entityId field op value =>
      checkIdentityLength (bytes ++ 4 :: (putU64 entityId ++ putStr field ++ [compareOpTag op] ++
        value.encode))
  | .edgeExists edgeId kind => do
      let bytes := bytes ++ 5 :: putU128 edgeId
      let bytes ← match kind with
        | some kind => encodeEdgeKind (bytes ++ [1]) kind
        | none => pure (bytes ++ [0])
      checkIdentityLength bytes
  | .paused paused => checkIdentityLength (bytes ++ 6 :: putBool paused)
  | .all children => do
      let bytes ← encodePredicates (bytes ++ 7 :: putLen children.length) children
      checkIdentityLength bytes
  | .any children => do
      let bytes ← encodePredicates (bytes ++ 8 :: putLen children.length) children
      checkIdentityLength bytes
  | .not child => do
      let bytes ← encodePredicate (bytes ++ [9]) child
      checkIdentityLength bytes
  | .regionTerrain area tileCode =>
      checkIdentityLength (bytes ++ 10 :: (putCoord area.min ++ putCoord area.max ++
        putU32 tileCode))
  | .laboratoryRoomAccess area entry targets =>
      checkIdentityLength (bytes ++ 11 :: putRoom area entry targets)
  | .laboratoryRoomAccessPairedStairs area entry targets =>
      checkIdentityLength (bytes ++ 13 :: putRoom area entry targets)
  | .entityQuantity kind filterField filterValue quantityField op value => do
      let bytes ← encodeEntityKind (bytes ++ [12]) kind
      checkIdentityLength (bytes ++ (putStr filterField ++ filterValue.encode ++
        putOption putStr quantityField ++ [compareOpTag op] ++ putU64 value))
  | .laboratoryCivilianReleaseSafety burrow civilians =>
      checkIdentityLength (bytes ++ 14 :: (putIdentity burrow ++
        (putLen (sortCivilians civilians).length ++ (sortCivilians civilians).flatMap putIdentity)))
  | .entityQuantityIncrease kind filterField filterValue quantityField baseline increase
      baselineAnchor baselineSourceDigest sourceGeneration counters => do
      let bytes ← encodeEntityKind (bytes ++ [15]) kind
      checkIdentityLength (bytes ++ (putStr filterField ++ filterValue.encode ++
        putOption putStr quantityField ++ putU64 baseline ++ putU64 increase ++
        putAnchor baselineAnchor ++ baselineSourceDigest.bytes ++ putU64 sourceGeneration ++
        (putU64 counters.1 ++ putU64 counters.2.1 ++ putU64 counters.2.2)))

def encodePredicates (bytes : Bytes) : List Predicate → Result Bytes
  | [] => .ok bytes
  | child :: rest => do
      let bytes ← encodePredicate bytes child
      encodePredicates bytes rest

end

/-- The kinds, sorted and without repetition. -/
def sortKinds (kinds : List EntityKind) : List EntityKind :=
  dedup (kinds.insertionSort fun a b => a.key ≤ b.key)

def encodeKinds (bytes : Bytes) : List EntityKind → Result Bytes
  | [] => .ok bytes
  | kind :: rest => do
      let bytes ← encodeEntityKind bytes kind
      encodeKinds bytes rest

def orderTag : QueryOrder → UInt8
  | .entityIdAscending => 0
  | .entityIdDescending => 1
  | .revisionDescending => 2
  | .labelAscending => 3

/-- What a continuation commits to. -/
def identityBytes (s : WorldSnapshot) (query : WorldQuery) : Result Bytes := do
  let kinds := sortKinds query.kinds
  let bytes := putStr "dfmcp-query-identity-v1" ++ putU64 s.fortressId ++ putU64 s.cursor.epoch ++
    putU64 s.cursor.sequence ++ putU64 s.tick ++ putBytes s.stateHash.bytes ++ putLen kinds.length
  let bytes ← encodeKinds bytes kinds
  encodePredicate (bytes ++ [orderTag query.order]) (query.predicate.getD .true)

def queryIdentity (s : WorldSnapshot) (query : WorldQuery) : Result Digest32 := do
  let bytes ← identityBytes s query
  return .ofBytes bytes

/-! ## Cursors -/

/-- What the digest of a cursor covers. -/
def cursorInput (offset : U 32) (identity : Digest32) : Bytes :=
  putStr "dfmcp-query-cursor-v1" ++ putBytes identity.bytes ++ putU32 offset

def cursorDigest (offset : U 32) (identity : Digest32) : Digest32 :=
  .ofBytes (cursorInput offset identity)

def encodeCursor (offset : U 32) (identity : Digest32) : String :=
  "q1" ++ ":" ++ toString offset.val ++ ":" ++ (cursorDigest offset identity).toHex

/-- Rust's `u8::is_ascii_hexdigit`. -/
def isHexDigit (c : Char) : Bool :=
  c.isDigit || ('a' ≤ c && c ≤ 'f') || ('A' ≤ c && c ≤ 'F')

def decodeCursor (token : String) (identity : Digest32) : Result (U 32) :=
  if "cont:".toList.isPrefixOf token.toList || "offset:".toList.isPrefixOf token.toList then
    .error (.new .cursorGap
      "legacy query continuation has no query/state binding; restart the query")
  else match token.toList.splitOn ':' with
    | [tag, offset, digest] =>
        if tag ≠ "q1".toList ∨ offset = [] ∨ ¬ offset.all Char.isDigit ∨
            digest.length ≠ 64 ∨ ¬ digest.all isHexDigit then
          .error (.new .invalidRequest "invalid query continuation encoding")
        else match parseUnsigned 32 offset with
          | none => .error (.new .invalidRequest "query continuation offset exceeds u32")
          | some parsed =>
              if parsed = 0 ∨ offset.head? = some '0' then
                .error (.new .cursorGap
                  "query continuation offset is not canonical or makes no progress")
              else if digest ≠ (cursorDigest parsed identity).toHex.toList then
                .error (.new .staleAnchor
                  "query continuation belongs to a different query or snapshot, or was modified")
              else .ok parsed
    | _ => .error (.new .invalidRequest "invalid query continuation shape")

/-! ## Pages -/

/-- The conservative bound on the work of a scan. -/
def checkWork (s : WorldSnapshot) (query : WorldQuery) : Result Unit :=
  let perEntity : U 64 := (U.wrap (max query.kinds.length 1) : U 64).saturatingAdd
    ((query.predicate.map Predicate.complexity).getD 1)
  let accessWork : U 64 := (query.predicate.map fun predicate =>
    predicate.additionalScanWork s.graph.entities.size).getD 0
  if (U.wrap s.graph.entities.size : U 64).saturatingMul (perEntity.saturatingAdd accessWork) >
      maxQueryWork then
    .error (.new .budgetExceeded
      "query scan and predicate work exceed the conservative operation budget")
  else .ok ()

/-- Where a page begins. -/
def pageOffset (query : WorldQuery) (identity : Digest32) : Result (U 32) :=
  match query.continuation with
  | some token => decodeCursor token identity
  | none => .ok 0

/-- One page. The reference evaluator runs under its own continuation, and its answer's
continuation is exchanged for one that carries the commitment. -/
def executeBoundedQuery (s : WorldSnapshot) (query : WorldQuery) (hardLimit : U 32)
    (byteLimit : Option Nat) : Result QueryResult := do
  query.validate hardLimit
  checkWork s query
  if ¬ s.hashIsValid then
    throw (.new .internalInvariantViolation "query snapshot state hash is invalid")
  let identity ← queryIdentity s query
  let offset ← pageOffset query identity
  let inner := { query with
    continuation := query.continuation.map fun _ =>
      (⟨s.fortressId, s.cursor, offset⟩ : ContinuationToken).encode }
  let result ← Dfmcp.executeBoundedQuery s inner hardLimit byteLimit
  match result.continuation with
  | none => pure result
  | some token => do
      let decoded ← ContinuationToken.decode token
      pure { result with continuation := some (encodeCursor decoded.offset identity) }

end QueryPage

end Dfmcp
