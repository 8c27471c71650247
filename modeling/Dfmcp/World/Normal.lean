import Dfmcp.World.QueryPage

/-!
# Normal forms of predicates

`query.rs`: the canonical encoding of a predicate and its normal form. Connectives are flattened,
their children put in the order of their encodings and adjacent repeats dropped; constants and
double negations are folded away.
-/

namespace Dfmcp

open Machine QueryPage

namespace Predicate

/-! ## Equality -/

mutual

/-- The derived equality. -/
def decEq : (a b : Predicate) → Decidable (a = b)
  | .true, b => by cases b with | true => exact isTrue rfl | _ => exact isFalse nofun
  | .false, b => by cases b with | false => exact isTrue rfl | _ => exact isFalse nofun
  | .entityExists x, b => by
      cases b with
      | entityExists y => exact decidable_of_iff (x = y) (by simp)
      | _ => exact isFalse nofun
  | .entityKind x k, b => by
      cases b with
      | entityKind y l => exact decidable_of_iff (x = y ∧ k = l) (by simp)
      | _ => exact isFalse nofun
  | .fieldCompare x f o v, b => by
      cases b with
      | fieldCompare y g p w =>
          exact decidable_of_iff (x = y ∧ f = g ∧ o = p ∧ v = w) (by simp)
      | _ => exact isFalse nofun
  | .edgeExists x k, b => by
      cases b with
      | edgeExists y l => exact decidable_of_iff (x = y ∧ k = l) (by simp)
      | _ => exact isFalse nofun
  | .paused x, b => by
      cases b with
      | paused y => exact decidable_of_iff (x = y) (by simp)
      | _ => exact isFalse nofun
  | .regionTerrain x t, b => by
      cases b with
      | regionTerrain y u => exact decidable_of_iff (x = y ∧ t = u) (by simp)
      | _ => exact isFalse nofun
  | .all xs, b => by
      cases b with
      | all ys => exact @decidable_of_iff _ (xs = ys) (by simp) (decEqList xs ys)
      | _ => exact isFalse nofun
  | .any xs, b => by
      cases b with
      | any ys => exact @decidable_of_iff _ (xs = ys) (by simp) (decEqList xs ys)
      | _ => exact isFalse nofun
  | .not x, b => by
      cases b with
      | not y => exact @decidable_of_iff _ (x = y) (by simp) (decEq x y)
      | _ => exact isFalse nofun
  | .laboratoryRoomAccess a e ts, b => by
      cases b with
      | laboratoryRoomAccess a' e' ts' =>
          exact decidable_of_iff (a = a' ∧ e = e' ∧ ts = ts') (by simp)
      | _ => exact isFalse nofun
  | .entityQuantity k f v q o n, b => by
      cases b with
      | entityQuantity k' f' v' q' o' n' =>
          exact decidable_of_iff (k = k' ∧ f = f' ∧ v = v' ∧ q = q' ∧ o = o' ∧ n = n') (by simp)
      | _ => exact isFalse nofun
  | .laboratoryRoomAccessPairedStairs a e ts, b => by
      cases b with
      | laboratoryRoomAccessPairedStairs a' e' ts' =>
          exact decidable_of_iff (a = a' ∧ e = e' ∧ ts = ts') (by simp)
      | _ => exact isFalse nofun
  | .laboratoryCivilianReleaseSafety x cs, b => by
      cases b with
      | laboratoryCivilianReleaseSafety y ds => exact decidable_of_iff (x = y ∧ cs = ds) (by simp)
      | _ => exact isFalse nofun
  | .entityQuantityIncrease k f v q n i a d g c, b => by
      cases b with
      | entityQuantityIncrease k' f' v' q' n' i' a' d' g' c' =>
          exact decidable_of_iff (k = k' ∧ f = f' ∧ v = v' ∧ q = q' ∧ n = n' ∧ i = i' ∧ a = a' ∧
            d = d' ∧ g = g' ∧ c = c') (by simp)
      | _ => exact isFalse nofun

def decEqList : (a b : List Predicate) → Decidable (a = b)
  | [], [] => isTrue rfl
  | [], _ :: _ => isFalse nofun
  | _ :: _, [] => isFalse nofun
  | x :: xs, y :: ys =>
      match decEq x y, decEqList xs ys with
      | isTrue h, isTrue h' => isTrue (by rw [h, h'])
      | isFalse h, _ => isFalse (by simp [h])
      | _, isFalse h => isFalse (by simp [h])

end

instance : DecidableEq Predicate := decEq

/-! ## Encoding -/

/-- A room, its entry and its targets in the order given. -/
def encodeRoom (area : MapCuboid) (entry : MapCoord) (targets : List MapCoord) : Bytes :=
  putCoord area.min ++ putCoord area.max ++ putCoord entry ++
    (putLen targets.length ++ targets.flatMap putCoord)

mutual

def encode : Predicate → Bytes
  | .true => [0]
  | .false => [1]
  | .entityExists entityId => 2 :: putU64 entityId
  | .entityKind entityId kind => 3 :: (putU64 entityId ++ kind.encode)
  | .fieldCompare entityId field op value =>
      4 :: (putU64 entityId ++ putStr field ++ [compareOpTag op] ++ value.encode)
  | .edgeExists edgeId kind => 5 :: (putU128 edgeId ++ putOption EdgeKind.encode kind)
  | .paused value => 6 :: putBool value
  | .all predicates => 7 :: (putLen predicates.length ++ encodeEach predicates)
  | .any predicates => 8 :: (putLen predicates.length ++ encodeEach predicates)
  | .not predicate => 9 :: predicate.encode
  | .regionTerrain area tileCode =>
      10 :: (putCoord area.min ++ putCoord area.max ++ putU32 tileCode)
  | .laboratoryRoomAccess area entry targets => 11 :: encodeRoom area entry targets
  | .entityQuantity kind filterField filterValue quantityField op value =>
      12 :: (kind.encode ++ putStr filterField ++ filterValue.encode ++
        putOption putStr quantityField ++ [compareOpTag op] ++ putU64 value)
  | .laboratoryRoomAccessPairedStairs area entry targets => 13 :: encodeRoom area entry targets
  | .laboratoryCivilianReleaseSafety burrow civilians =>
      14 :: (putIdentity burrow ++ (putLen civilians.length ++ civilians.flatMap putIdentity))
  | .entityQuantityIncrease kind filterField filterValue quantityField baseline increase
      baselineAnchor baselineSourceDigest sourceGeneration counters =>
      15 :: (kind.encode ++ putStr filterField ++ filterValue.encode ++
        putOption putStr quantityField ++ putU64 baseline ++ putU64 increase ++
        putAnchor baselineAnchor ++ baselineSourceDigest.bytes ++ putU64 sourceGeneration ++
        (putU64 counters.1 ++ putU64 counters.2.1 ++ putU64 counters.2.2))

def encodeEach : List Predicate → Bytes
  | [] => []
  | predicate :: rest => predicate.encode ++ encodeEach rest

end

/-! ## Normal form -/

/-- The connective of the children, in the order of their encodings and without repeats. -/
def ofChildren (isAll : Bool) (children : List Predicate) : Predicate :=
  match (children.insertionSort fun a b => a.encode ≤ b.encode).eraseReps with
  | [] => if isAll then .true else .false
  | [child] => child
  | children => if isAll then .all children else .any children

/-- What a normalized child adds to the connective, unless it decides it. -/
def childrenOf (isAll : Bool) : Predicate → Option (List Predicate)
  | .false => if isAll then none else some []
  | .true => if isAll then some [] else none
  | .all children => if isAll then some children else some [.all children]
  | .any children => if isAll then some [.any children] else some children
  | predicate => some [predicate]

mutual

def normalized : Predicate → Predicate
  | .all predicates =>
      ((normalizeEach Bool.true predicates).map (ofChildren Bool.true)).getD .false
  | .any predicates =>
      ((normalizeEach Bool.false predicates).map (ofChildren Bool.false)).getD .true
  | .not predicate =>
      match predicate.normalized with
      | .true => .false
      | .false => .true
      | .not inner => inner
      | normalized => .not normalized
  | .laboratoryRoomAccess area entry targets =>
      .laboratoryRoomAccess area entry (sortTargets targets)
  | .laboratoryRoomAccessPairedStairs area entry targets =>
      .laboratoryRoomAccessPairedStairs area entry (sortTargets targets)
  | .laboratoryCivilianReleaseSafety burrow civilians =>
      .laboratoryCivilianReleaseSafety burrow (sortCivilians civilians)
  | other => other

/-- The children of a connective, flattened; none when one of them decides it. -/
def normalizeEach (isAll : Bool) : List Predicate → Option (List Predicate)
  | [] => some []
  | predicate :: rest => do
      let children ← childrenOf isAll predicate.normalized
      let others ← normalizeEach isAll rest
      pure (children ++ others)

end

def canonicalBytes (predicate : Predicate) : Bytes := predicate.normalized.encode

end Predicate

end Dfmcp
