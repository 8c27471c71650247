import Dfmcp.World.Ledger

/-!
# Publication of observation capsules

`publication.rs`: a publisher over a ledger. A successor is reserved, its capsule materialized,
and only then is the root that readers see swapped; a reservation can be aborted at any stage,
and recovery re-derives the root by replaying every published capsule.

As in the ledger, an operation returns its result and the publisher it leaves. The lock around
the root is not modelled: a publisher has one writer, and a reader sees the root of some state.
-/

namespace Dfmcp

open Machine

/-- One complete published world root. -/
structure PublishedRoot where
  anchor : StateAnchor
  snapshot : WorldSnapshot
  capsuleHighWaterMark : U 64
deriving DecidableEq

/-- A reserved successor anchor. -/
structure Reservation where
  serial : U 64
  basis : StateAnchor
  successor : StateAnchor
deriving DecidableEq

/-- A staged capsule whose root has not been published. -/
structure Materialization where
  reservation : Reservation
  capsuleDigest : Digest32
deriving DecidableEq

/-- What recovery found and did. -/
structure RecoveryReport where
  discardedStagedCapsule : Bool
  tombstonedReservation : Bool
  rederivedHead : StateAnchor
  replayedCapsules : U 64
deriving DecidableEq

structure CapsulePublisher where
  ledger : DurableLedger
  root : PublishedRoot
  nextSerial : U 64
  outstanding : Option (U 64)
deriving DecidableEq

def publicationConflict (message : String) : DfmcpError := .new .conflict message

/-- The loop of `recover`: apply every capsule in turn, checking both of its anchors. -/
def replayCapsules (head : WorldSnapshot) : List ObservationCapsule → Result WorldSnapshot
  | [] => .ok head
  | capsule :: rest => do
      if capsule.basisAnchor ≠ head.anchor then
        throw (.new .corruptLedger "published capsule chain is broken")
      let next ← applyDelta head capsule.delta
      if next.anchor ≠ capsule.successorAnchor then
        throw (.new .corruptLedger "published capsule does not reconstruct its successor")
      replayCapsules next rest

namespace CapsulePublisher

/-- The root a ledger's head makes. -/
def rootOf (ledger : DurableLedger) : PublishedRoot where
  anchor := ledger.headAnchor
  snapshot := ledger.headSnapshot
  capsuleHighWaterMark := U.wrap ledger.capsuleCount

def new (ledger : DurableLedger) : CapsulePublisher where
  ledger := ledger
  root := rootOf ledger
  nextSerial := 1
  outstanding := none

def reserve (p : CapsulePublisher) (successor : StateAnchor) :
    Result Reservation × CapsulePublisher :=
  if p.outstanding.isSome ∨ p.ledger.hasStagedCapsule then
    (.error (publicationConflict "another observation publication is in flight"), p)
  else if successor.fortressId ≠ p.ledger.headAnchor.fortressId ∨
      successor.cursor ≤ p.ledger.headAnchor.cursor then
    (.error (.new .cursorGap ("a reserved successor must belong to the head's fortress and " ++
      "advance its cursor")), p)
  else
    (.ok ⟨p.nextSerial, p.ledger.headAnchor, successor⟩,
      { p with
        nextSerial := U.saturatingAdd p.nextSerial 1
        outstanding := some p.nextSerial })

def checkLive (p : CapsulePublisher) (reservation : Reservation) : Result Unit :=
  if p.outstanding = some reservation.serial ∧ p.ledger.headAnchor = reservation.basis then
    .ok ()
  else
    .error (publicationConflict "reservation was tombstoned or its basis is no longer the head")

def materialize (p : CapsulePublisher) (reservation : Reservation) (capsule : ObservationCapsule) :
    Result Materialization × CapsulePublisher :=
  match p.checkLive reservation with
  | .error error => (.error error, p)
  | .ok () =>
      if capsule.basisAnchor ≠ reservation.basis ∨
          capsule.successorAnchor ≠ reservation.successor then
        (.error (publicationConflict
          "capsule anchors do not match its reservation; reservation tombstoned"),
          { p with outstanding := none })
      else match p.ledger.stageCapsule capsule with
        | (.error error, ledger) => (.error error, { p with ledger, outstanding := none })
        | (.ok (), ledger) => (.ok ⟨reservation, capsule.capsuleDigest⟩, { p with ledger })

def publish (p : CapsulePublisher) (materialization : Materialization) :
    Result PublishedRoot × CapsulePublisher :=
  match p.checkLive materialization.reservation with
  | .error error => (.error error, p)
  | .ok () =>
      match p.ledger.publishStaged with
      | (.error error, ledger) => (.error error, { p with ledger })
      | (.ok anchor, ledger) =>
          let root := {
            anchor
            snapshot := ledger.headSnapshot
            capsuleHighWaterMark := U.wrap ledger.capsuleCount : PublishedRoot }
          (.ok root, { p with ledger, outstanding := none, root })

def abort (p : CapsulePublisher) (reservation : Reservation) : CapsulePublisher :=
  if p.outstanding = some reservation.serial then { p with outstanding := none } else p

def abortMaterialized (p : CapsulePublisher) (materialization : Materialization) :
    CapsulePublisher :=
  if p.outstanding = some materialization.reservation.serial then
    { p with ledger := p.ledger.abortStaged, outstanding := none }
  else p

/-- The reservation and the staged capsule are gone even when the replay is refused. -/
def recover (p : CapsulePublisher) : Result RecoveryReport × CapsulePublisher :=
  let ledger := p.ledger.recoverFromCrash
  let cleared := { p with ledger, outstanding := none }
  match replayCapsules ledger.rootSnapshot ledger.capsules with
  | .error error => (.error error, cleared)
  | .ok head =>
      if head ≠ ledger.headSnapshot then
        (.error (.new .corruptLedger "re-derived head disagrees with the ledger head"), cleared)
      else
        (.ok {
          discardedStagedCapsule := p.ledger.hasStagedCapsule
          tombstonedReservation := p.outstanding.isSome
          rederivedHead := head.anchor
          replayedCapsules := U.wrap ledger.capsuleCount },
        { cleared with
          root := {
            anchor := head.anchor
            snapshot := head
            capsuleHighWaterMark := U.wrap ledger.capsuleCount } })

end CapsulePublisher

/-! ## A publisher and its caller -/

/-- A publisher, the tokens its caller holds, and every reservation handed out so far. The tokens
are linear: an operation that takes one consumes it, and none can be copied. -/
structure Session where
  publisher : CapsulePublisher
  reservations : List Reservation
  materializations : List Materialization
  issued : List Reservation

inductive PublisherOp where
  | reserve (successor : StateAnchor)
  | materialize (reservation : Reservation) (capsule : ObservationCapsule)
  | publish (materialization : Materialization)
  | abort (reservation : Reservation)
  | abortMaterialized (materialization : Materialization)
  | recover

namespace Session

/-- A fresh publisher over a ledger. -/
def start (ledger : DurableLedger) : Session := ⟨.new ledger, [], [], []⟩

/-- The caller can only pass a token it holds. -/
def Holds (s : Session) : PublisherOp → Prop
  | .materialize r _ | .abort r => r ∈ s.reservations
  | .publish m | .abortMaterialized m => m ∈ s.materializations
  | .reserve _ | .recover => True

/-- Perform an operation. -/
def exec (s : Session) : PublisherOp → Result Unit × Session
  | .reserve successor =>
      match s.publisher.reserve successor with
      | (.error error, publisher) => (.error error, { s with publisher })
      | (.ok r, publisher) =>
          (.ok (), { s with
            publisher
            reservations := r :: s.reservations
            issued := r :: s.issued })
  | .materialize r capsule =>
      let s := { s with reservations := s.reservations.erase r }
      match s.publisher.materialize r capsule with
      | (.error error, publisher) => (.error error, { s with publisher })
      | (.ok m, publisher) =>
          (.ok (), { s with publisher, materializations := m :: s.materializations })
  | .publish m =>
      let s := { s with materializations := s.materializations.erase m }
      ((s.publisher.publish m).1.map fun _ => (),
        { s with publisher := (s.publisher.publish m).2 })
  | .abort r =>
      (.ok (), { s with
        publisher := s.publisher.abort r
        reservations := s.reservations.erase r })
  | .abortMaterialized m =>
      (.ok (), { s with
        publisher := s.publisher.abortMaterialized m
        materializations := s.materializations.erase m })
  | .recover =>
      (s.publisher.recover.1.map fun _ => (), { s with publisher := s.publisher.recover.2 })

/-- One operation on tokens the caller holds, whether it succeeds or fails. -/
def Step (s : Session) (op : PublisherOp) (s' : Session) : Prop :=
  s.Holds op ∧ s' = (s.exec op).2

end Session

end Dfmcp
