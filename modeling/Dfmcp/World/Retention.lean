import Dfmcp.World.Model

/-!
# Retention of world versions

`retention.rs`: a bounded store of immutable snapshots. The newest few versions stay, and so do
some older ones that a live root names; a version that is collected leaves a tombstone, and the
oldest tombstones are forgotten in the order of a queue.

`record` stops where the recording sequence would leave its 64 bits, as checked arithmetic does.
-/

namespace Dfmcp

open Machine

/-- Tombstones kept before the oldest are forgotten. -/
@[irreducible] def maxTombstones : Nat := 4096

inductive VersionStatus where
  | retained (snapshot : WorldSnapshot)
  | collected (lastSeen : U 64) (collectedAt : U 64)
  | unknown
deriving DecidableEq

structure RetentionReport where
  retained : Nat
  collected : List Digest32
  pinnedOutsideWindow : Nat
  danglingRoots : Nat
deriving DecidableEq

structure VersionRetention where
  recentWindow : Nat
  maxPinned : Nat
  nextSeq : U 64
  versions : BTreeMap Digest32 (U 64 × WorldSnapshot)
  tombstones : BTreeMap Digest32 (U 64 × U 64)
  tombstoneOrder : List Digest32
deriving DecidableEq

namespace VersionRetention

def new (recentWindow maxPinned : Nat) : VersionRetention :=
  ⟨max recentWindow 1, maxPinned, 0, .nil, .nil, []⟩

/-- `max_by_key`: the last of the entries with the greatest sequence. -/
def maxBySeq (entries : List (U 64 × WorldSnapshot)) : Option (U 64 × WorldSnapshot) :=
  entries.foldl (fun best entry =>
    match best with
    | none => some entry
    | some greatest => if greatest.1 ≤ entry.1 then some entry else some greatest) none

/-- The most recently recorded version. -/
def newest (r : VersionRetention) : Option WorldSnapshot :=
  (maxBySeq r.versions.values).map Prod.snd

/-- Record a snapshot as the newest version; a version known already becomes newest again. -/
def record (r : VersionRetention) (snapshot : WorldSnapshot) : Option VersionRetention :=
  if r.newest.any fun newest => newest.stateHash = snapshot.stateHash then some r
  else (U.checkedAdd r.nextSeq 1).map fun seq =>
    { r with
      nextSeq := seq
      tombstones := r.tombstones.erase snapshot.stateHash
      versions := match r.versions.get? snapshot.stateHash with
        | some entry => r.versions.insert snapshot.stateHash (seq, entry.2)
        | none => r.versions.insert snapshot.stateHash (seq, snapshot) }

/-- Newest first. -/
def byAge (r : VersionRetention) : List (U 64 × Digest32) :=
  (r.versions.toList.map fun entry => (entry.2.1, entry.1)).insertionSort
    fun a b => toLex b ≤ toLex a

/-- The newest versions. -/
def window (r : VersionRetention) : BTreeSet Digest32 :=
  OMap.ofList ((r.byAge.take r.recentWindow).map fun entry => (entry.2, ()))

/-- The older versions that a root names, as far as there is room. -/
def pinned (r : VersionRetention) (roots : BTreeSet Digest32) : BTreeSet Digest32 :=
  OMap.ofList (((r.byAge.filter fun entry =>
    !r.window.contains entry.2 && roots.contains entry.2).take r.maxPinned).map
      fun entry => (entry.2, ()))

/-- The collection loop, over the versions from the oldest on. -/
def free (keep : Digest32 → Bool) :
    List (U 64 × Digest32) → VersionRetention × List Digest32 → VersionRetention × List Digest32
  | [], acc => acc
  | (seq, hash) :: rest, (r, collected) =>
      if keep hash then free keep rest (r, collected)
      else free keep rest
        ({ r with
          versions := r.versions.erase hash
          tombstones := r.tombstones.insert hash (seq, r.nextSeq)
          tombstoneOrder := r.tombstoneOrder ++ [hash] }, collected ++ [hash])

/-- The eviction loop: forget the oldest tombstones while the queue is too long. -/
def evict (versions : BTreeMap Digest32 (U 64 × WorldSnapshot)) :
    List Digest32 → BTreeMap Digest32 (U 64 × U 64) →
      List Digest32 × BTreeMap Digest32 (U 64 × U 64)
  | [], tombstones => ([], tombstones)
  | old :: rest, tombstones =>
      if (old :: rest).length > maxTombstones then
        evict versions rest (if versions.contains old then tombstones else tombstones.erase old)
      else (old :: rest, tombstones)

/-- Free every version that is neither in the recent window nor pinned by a root. -/
def collect (r : VersionRetention) (roots : BTreeSet Digest32) :
    RetentionReport × VersionRetention :=
  let window := r.window
  let pinned := r.pinned roots
  let (freed, collected) :=
    free (fun hash => window.contains hash || pinned.contains hash) r.byAge.reverse (r, [])
  let (tombstoneOrder, tombstones) := evict freed.versions freed.tombstoneOrder freed.tombstones
  ({ retained := freed.versions.size
     collected
     pinnedOutsideWindow := pinned.size
     danglingRoots := roots.keys.countP fun root =>
       !window.contains root && !pinned.contains root },
    { freed with tombstoneOrder, tombstones })

/-- Where a version stands. -/
def status (r : VersionRetention) (hash : Digest32) : VersionStatus :=
  match r.versions.get? hash with
  | some entry => .retained entry.2
  | none => match r.tombstones.get? hash with
      | some (lastSeen, collectedAt) => .collected lastSeen collectedAt
      | none => .unknown

end VersionRetention

end Dfmcp
