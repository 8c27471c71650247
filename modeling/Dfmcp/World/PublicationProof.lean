import Dfmcp.World.Publication
import Dfmcp.World.LedgerProof
import Dfmcp.World.DeltaProof

/-!
# Publication over whole runs

Two invariants carry the results. `DurableLedger.Chained` is about the ledger alone: its head is
what replaying its capsules from its root gives. `Session.Linear` is about the caller's tokens:
serials are handed out once, and a staged capsule belongs to the reservation outstanding.

* `Chained.of_run` — every ledger that operations reach is chained;
* `recover_of_chained` — recovery over a chained ledger succeeds, and republishes its head;
* `Linear.of_run` — the tokens stay linear while fewer than `2 ^ 64` reservations are made;
* `publication_run` — what holds of a publisher after any run of operations.
-/

namespace Dfmcp

open Machine Runs

/-! ## The chain of capsules -/

theorem replayCapsules_cons_ok_iff {head last : WorldSnapshot} {c : ObservationCapsule}
    {cs : List ObservationCapsule} :
    replayCapsules head (c :: cs) = .ok last ↔
      c.basisAnchor = head.anchor ∧ ∃ next, applyDelta head c.delta = .ok next ∧
        next.anchor = c.successorAnchor ∧ replayCapsules next cs = .ok last := by
  simp only [replayCapsules, guard_ok_iff, bind_ok_iff, not_not, ne_eq]

/-- One more capsule replays when it fits on what the others replay to. -/
theorem replayCapsules_concat {head mid next : WorldSnapshot} {cs : List ObservationCapsule}
    {c : ObservationCapsule} (h : replayCapsules head cs = .ok mid)
    (hbasis : c.basisAnchor = mid.anchor) (happly : applyDelta mid c.delta = .ok next)
    (hanchor : next.anchor = c.successorAnchor) :
    replayCapsules head (cs ++ [c]) = .ok next := by
  induction cs generalizing head with
  | nil =>
      cases h
      exact replayCapsules_cons_ok_iff.2 ⟨hbasis, next, happly, hanchor, rfl⟩
  | cons d cs ih =>
      obtain ⟨hd, mid', happly', hanchor', hrest⟩ := replayCapsules_cons_ok_iff.1 h
      exact replayCapsules_cons_ok_iff.2 ⟨hd, mid', happly', hanchor', ih hrest⟩

namespace DurableLedger

/-- The head is what the capsules replay to, and there are at most as many as the bound says. -/
structure Chained (l : DurableLedger) : Prop where
  replays : replayCapsules l.rootSnapshot l.capsules = .ok l.headSnapshot
  bounded : l.capsules.length ≤ maxLedgerCapsules

namespace Chained

variable {l : DurableLedger}

theorem new (root : WorldSnapshot) : (DurableLedger.new root).Chained := ⟨rfl, Nat.zero_le _⟩

theorem publish {capsule : ObservationCapsule} {snapshot : WorldSnapshot} (h : l.Chained)
    (hlength : l.capsules.length < maxLedgerCapsules) (hbasis : capsule.basisAnchor = l.headAnchor)
    (happly : applyDelta l.headSnapshot capsule.delta = .ok snapshot)
    (hanchor : snapshot.anchor = capsule.successorAnchor) :
    Chained { l with
      unpublishedCapsule := none
      capsules := l.capsules ++ [capsule]
      headSnapshot := snapshot } := by
  refine ⟨replayCapsules_concat h.replays hbasis happly hanchor, ?_⟩
  rw [List.length_append, List.length_singleton]
  exact hlength

theorem publishStaged (h : l.Chained) : l.publishStaged.2.Chained := by
  obtain ⟨error, heq⟩ | ⟨capsule, snapshot, -, hlength, hbasis, happly, hanchor, heq⟩ :=
    publishStaged_cases l
  · rw [heq]
    exact h
  · rw [heq]
    exact h.publish hlength hbasis happly hanchor

/-- An operation on effects does not touch the chain. -/
theorem exec (h : l.Chained) (op : LedgerOp) : (op.exec l).2.Chained := by
  cases op with
  | stageCapsule capsule =>
      obtain ⟨error, heq⟩ | heq := stageCapsule_cases l capsule
      · rw [LedgerOp.exec, heq]
        exact h
      · rw [LedgerOp.exec, heq]
        exact ⟨h.replays, h.bounded⟩
  | publishStaged => exact h.publishStaged
  | abortStaged => exact ⟨h.replays, h.bounded⟩
  | recoverFromCrash => exact ⟨h.replays, h.bounded⟩
  | recordDispatchAttempt effectId key planDigest tick =>
      simp only [LedgerOp.exec, DurableLedger.recordDispatchAttempt]
      repeat' split
      all_goals exact ⟨h.replays, h.bounded⟩
  | recordCommitReceipt key receipt =>
      simp only [LedgerOp.exec, DurableLedger.recordCommitReceipt]
      repeat' split
      all_goals exact ⟨h.replays, h.bounded⟩
  | recordVerified key hash =>
      simp only [LedgerOp.exec, DurableLedger.recordVerified]
      repeat' split
      all_goals exact ⟨h.replays, h.bounded⟩
  | recordIndeterminate key message =>
      simp only [LedgerOp.exec, DurableLedger.recordIndeterminate]
      repeat' split
      all_goals exact ⟨h.replays, h.bounded⟩

/-- **Every ledger that operations reach is chained.** -/
theorem of_run {root : WorldSnapshot} {ops : List LedgerOp}
    (h : Run DurableLedger.Step (.new root) ops l) : l.Chained := by
  refine h.preserves (P := Chained) (fun a op b ha hstep => ?_) (.new root)
  rw [hstep]
  exact ha.exec op

end Chained

end DurableLedger

/-! ## What each operation can do to the publisher -/

namespace CapsulePublisher

variable (p : CapsulePublisher)

theorem reserve_cases (successor : StateAnchor) :
    (∃ error, p.reserve successor = (.error error, p)) ∨
      (p.outstanding = none ∧ p.ledger.unpublishedCapsule = none ∧
        p.reserve successor = (.ok ⟨p.nextSerial, p.ledger.headAnchor, successor⟩,
          { p with
            nextSerial := U.saturatingAdd p.nextSerial 1
            outstanding := some p.nextSerial })) := by
  unfold reserve
  split
  · exact .inl ⟨_, rfl⟩
  · rename_i hfree
    split
    · exact .inl ⟨_, rfl⟩
    · rw [not_or, Bool.not_eq_true, Option.isSome_eq_false_iff, Option.isNone_iff_eq_none,
        DurableLedger.hasStagedCapsule, Bool.not_eq_true, Option.isSome_eq_false_iff,
        Option.isNone_iff_eq_none] at hfree
      exact .inr ⟨hfree.1, hfree.2, rfl⟩

theorem checkLive_ok_iff {r : Reservation} :
    p.checkLive r = .ok () ↔ p.outstanding = some r.serial ∧ p.ledger.headAnchor = r.basis := by
  unfold checkLive
  split <;> simp_all

/-- A token that is not live fails and changes nothing; a live one is staged, or tombstoned. -/
theorem materialize_cases (r : Reservation) (capsule : ObservationCapsule) :
    (∃ error, p.materialize r capsule = (.error error, p) ∧ p.checkLive r = .error error) ∨
      (∃ error, p.outstanding = some r.serial ∧
        p.materialize r capsule = (.error error, { p with outstanding := none })) ∨
      (p.outstanding = some r.serial ∧ capsule.basisAnchor = r.basis ∧
        capsule.successorAnchor = r.successor ∧
        p.materialize r capsule = (.ok ⟨r, capsule.capsuleDigest⟩,
          { p with ledger := { p.ledger with unpublishedCapsule := some capsule } })) := by
  unfold materialize
  split
  · rename_i error herror
    exact .inl ⟨error, rfl, herror⟩
  · rename_i hlive
    have hserial := (p.checkLive_ok_iff.1 hlive).1
    right
    split
    · exact .inl ⟨_, hserial, rfl⟩
    · rename_i hanchors
      rw [not_or, not_not, not_not] at hanchors
      obtain ⟨error, heq⟩ | heq := stageCapsule_cases p.ledger capsule
      · rw [heq]
        exact .inl ⟨error, hserial, rfl⟩
      · rw [heq]
        exact .inr ⟨hserial, hanchors.1, hanchors.2, rfl⟩

/-- Publication fails and changes nothing, or advances the ledger and then the root. -/
theorem publish_cases (m : Materialization) :
    (∃ error, p.publish m = (.error error, p)) ∨
      (p.outstanding = some m.reservation.serial ∧ p.ledger.publishStaged.2.unpublishedCapsule = none ∧
        p.publish m = (.ok (rootOf p.ledger.publishStaged.2),
          { p with
            ledger := p.ledger.publishStaged.2
            outstanding := none
            root := rootOf p.ledger.publishStaged.2 })) := by
  unfold publish
  split
  · exact .inl ⟨_, rfl⟩
  · rename_i hlive
    obtain ⟨error, heq⟩ | ⟨capsule, snapshot, -, -, -, -, hanchor, heq⟩ :=
      publishStaged_cases p.ledger
    · rw [heq]
      exact .inl ⟨error, rfl⟩
    · rw [heq]
      refine .inr ⟨(p.checkLive_ok_iff.1 hlive).1, rfl, ?_⟩
      simp only [rootOf, DurableLedger.headAnchor, hanchor]

/-- **Recovery over a chained ledger succeeds**, and republishes the ledger's head. -/
theorem recover_of_chained (h : p.ledger.Chained) :
    p.recover = (.ok {
        discardedStagedCapsule := p.ledger.hasStagedCapsule
        tombstonedReservation := p.outstanding.isSome
        rederivedHead := p.ledger.headAnchor
        replayedCapsules := U.wrap p.ledger.capsuleCount },
      { p with
        ledger := p.ledger.recoverFromCrash
        outstanding := none
        root := rootOf p.ledger }) := by
  have hreplay : replayCapsules p.ledger.recoverFromCrash.rootSnapshot
      p.ledger.recoverFromCrash.capsules = .ok p.ledger.headSnapshot := h.replays
  unfold recover
  dsimp only
  rw [hreplay]
  exact if_neg (not_not.2 rfl)

/-- Even a recovery that is refused leaves nothing staged and nothing reserved. -/
theorem recover_clears : p.recover.2.ledger = p.ledger.recoverFromCrash ∧
    p.recover.2.outstanding = none ∧ p.recover.2.nextSerial = p.nextSerial := by
  unfold recover
  dsimp only
  split
  · exact ⟨rfl, rfl, rfl⟩
  · split <;> exact ⟨rfl, rfl, rfl⟩

/-- The publisher shows the head of a chained ledger. -/
structure Consistent (p : CapsulePublisher) : Prop where
  chained : p.ledger.Chained
  root : p.root = rootOf p.ledger

variable {p}

namespace Consistent

theorem new {ledger : DurableLedger} (h : ledger.Chained) : (CapsulePublisher.new ledger).Consistent :=
  ⟨h, rfl⟩

theorem reserve (h : p.Consistent) (successor : StateAnchor) :
    (p.reserve successor).2.Consistent := by
  obtain ⟨error, heq⟩ | ⟨-, -, heq⟩ := p.reserve_cases successor <;> rw [heq]
  · exact h
  · exact ⟨h.chained, h.root⟩

theorem materialize (h : p.Consistent) (r : Reservation) (capsule : ObservationCapsule) :
    (p.materialize r capsule).2.Consistent := by
  obtain ⟨error, heq, -⟩ | ⟨error, -, heq⟩ | ⟨-, -, -, heq⟩ := p.materialize_cases r capsule <;>
    rw [heq]
  · exact h
  · exact ⟨h.chained, h.root⟩
  · exact ⟨⟨h.chained.replays, h.chained.bounded⟩, h.root⟩

theorem publish (h : p.Consistent) (m : Materialization) : (p.publish m).2.Consistent := by
  obtain ⟨error, heq⟩ | ⟨-, -, heq⟩ := p.publish_cases m <;> rw [heq]
  · exact h
  · exact ⟨h.chained.publishStaged, rfl⟩

theorem abort (h : p.Consistent) (r : Reservation) : (p.abort r).Consistent := by
  unfold CapsulePublisher.abort
  split
  · exact ⟨h.chained, h.root⟩
  · exact h

theorem abortMaterialized (h : p.Consistent) (m : Materialization) :
    (p.abortMaterialized m).Consistent := by
  unfold CapsulePublisher.abortMaterialized
  split
  · exact ⟨⟨h.chained.replays, h.chained.bounded⟩, h.root⟩
  · exact h

theorem recover (h : p.Consistent) : p.recover.2.Consistent := by
  rw [p.recover_of_chained h.chained]
  exact ⟨⟨h.chained.replays, h.chained.bounded⟩, rfl⟩

/-- The mark is the number of capsules, not only its low bits. -/
theorem highWaterMark (h : p.Consistent) :
    p.root.capsuleHighWaterMark.val = p.ledger.capsuleCount := by
  rw [h.root]
  refine U.wrap_val (lt_of_le_of_lt h.chained.bounded ?_)
  decide

end Consistent

end CapsulePublisher

/-! ## The caller's tokens -/

namespace Session

variable {s s' : Session} {op : PublisherOp} {successor : StateAnchor}

/-- The reservations whose tokens the caller holds, materialized or not. -/
def held (s : Session) : List Reservation :=
  s.reservations ++ s.materializations.map Materialization.reservation

/-- The capsule was staged under the outstanding reservation, whose unmaterialized token is
spent. -/
def Belongs (s : Session) (capsule : ObservationCapsule) : Prop :=
  ∃ r ∈ s.issued, s.publisher.outstanding = some r.serial ∧ capsule.basisAnchor = r.basis ∧
    capsule.successorAnchor = r.successor ∧ r.serial ∉ s.reservations.map Reservation.serial

/-- The capsule was staged before the publisher was made, and no reservation has been made. -/
def Inherited (ledger : DurableLedger) (s : Session) (capsule : ObservationCapsule) : Prop :=
  s.issued = [] ∧ ledger.unpublishedCapsule = some capsule

/-- Serials are handed out once, tokens are spent once, and what is staged is accounted for. -/
structure Linear (ledger : DurableLedger) (s : Session) : Prop where
  nextSerial : s.publisher.nextSerial.val = min (s.issued.length + 1) (2 ^ 64 - 1)
  serial_le : ∀ r ∈ s.issued, r.serial.val ≤ s.issued.length
  held_issued : ∀ r ∈ s.held, r ∈ s.issued
  held_nodup : (s.held.map Reservation.serial).Nodup
  outstanding : ∀ n, s.publisher.outstanding = some n → ∃ r ∈ s.issued, r.serial = n
  basis : ∀ r ∈ s.issued, s.publisher.outstanding = some r.serial →
    s.publisher.ledger.headAnchor = r.basis
  staged : ∀ capsule, s.publisher.ledger.unpublishedCapsule = some capsule →
    s.Belongs capsule ∨ s.Inherited ledger capsule

theorem Belongs.mono {capsule : ObservationCapsule} (h : s.Belongs capsule)
    (hissued : s'.issued = s.issued) (hpublisher : s'.publisher = s.publisher)
    (hsub : s'.reservations.Sublist s.reservations) : s'.Belongs capsule := by
  obtain ⟨r, hr, hout, hbasis, hsuccessor, hspent⟩ := h
  refine ⟨r, hissued ▸ hr, hpublisher ▸ hout, hbasis, hsuccessor, fun hmem => hspent ?_⟩
  exact (hsub.map _).subset hmem

namespace Linear

variable {ledger : DurableLedger}

theorem start (ledger : DurableLedger) : (Session.start ledger).Linear ledger where
  nextSerial := rfl
  serial_le := nofun
  held_issued := nofun
  held_nodup := .nil
  outstanding := nofun
  basis := nofun
  staged _ hstaged := .inr ⟨rfl, hstaged⟩

/-- A live reservation that is not materialized has nothing staged. -/
theorem unstaged (h : s.Linear ledger) {r : Reservation} (hr : r ∈ s.reservations)
    (hout : s.publisher.outstanding = some r.serial) :
    s.publisher.ledger.unpublishedCapsule = none := by
  rw [Option.eq_none_iff_forall_ne_some]
  intro capsule hstaged
  rcases h.staged capsule hstaged with ⟨r', -, hout', -, -, hspent⟩ | ⟨hissued, -⟩
  · rw [Option.some.inj (hout'.symm.trans hout)] at hspent
    exact hspent (List.mem_map_of_mem hr)
  · have hmem := h.held_issued r (List.mem_append_left _ hr)
    rw [hissued] at hmem
    cases hmem

/-- Tokens are spent, and the publisher goes on with the same reservation or with none. -/
theorem shrink (h : s.Linear ledger) (hissued : s'.issued = s.issued)
    (hserial : s'.publisher.nextSerial = s.publisher.nextSerial)
    (hres : s'.reservations.Sublist s.reservations)
    (hmat : s'.materializations.Sublist s.materializations)
    (hout : ∀ n, s'.publisher.outstanding = some n → s.publisher.outstanding = some n ∧
      s'.publisher.ledger.headAnchor = s.publisher.ledger.headAnchor)
    (hstaged : ∀ capsule, s'.publisher.ledger.unpublishedCapsule = some capsule →
      s'.Belongs capsule ∨ s'.Inherited ledger capsule) : s'.Linear ledger where
  nextSerial := by
    rw [hserial, hissued]
    exact h.nextSerial
  serial_le := hissued ▸ h.serial_le
  held_issued r hr := hissued ▸ h.held_issued r ((hres.append (hmat.map _)).subset hr)
  held_nodup := h.held_nodup.sublist ((hres.append (hmat.map _)).map _)
  outstanding n hn := hissued ▸ h.outstanding n (hout n hn).1
  basis r hr hn := by
    rw [hissued] at hr
    rw [(hout _ hn).2]
    exact h.basis r hr (hout _ hn).1
  staged := hstaged

/-- Tokens are spent and the publisher is left as it is. -/
theorem spend (h : s.Linear ledger) (hissued : s'.issued = s.issued)
    (hpublisher : s'.publisher = s.publisher)
    (hres : s'.reservations.Sublist s.reservations)
    (hmat : s'.materializations.Sublist s.materializations) : s'.Linear ledger := by
  refine h.shrink hissued (by rw [hpublisher]) hres hmat ?_ ?_ <;> rw [hpublisher]
  · exact fun n hn => ⟨hn, rfl⟩
  intro capsule hstaged
  rcases h.staged capsule hstaged with hbelongs | ⟨hnone, hledger⟩
  · exact .inl (hbelongs.mono hissued hpublisher hres)
  · exact .inr ⟨hissued.trans hnone, hledger⟩

/-- Tokens are spent and the publisher is left with nothing in flight. -/
theorem clear (h : s.Linear ledger) (hissued : s'.issued = s.issued)
    (hserial : s'.publisher.nextSerial = s.publisher.nextSerial)
    (hres : s'.reservations.Sublist s.reservations)
    (hmat : s'.materializations.Sublist s.materializations)
    (hout : s'.publisher.outstanding = none)
    (hstaged : s'.publisher.ledger.unpublishedCapsule = none) : s'.Linear ledger := by
  refine h.shrink hissued hserial hres hmat (by rw [hout]; nofun) ?_
  rw [hstaged]
  nofun

theorem reserve (h : s.Linear ledger) (hcount : (s.exec (.reserve successor)).2.issued.length < 2 ^ 64) :
    (s.exec (.reserve successor)).2.Linear ledger := by
  obtain ⟨error, heq⟩ | ⟨hout, hfree, heq⟩ := s.publisher.reserve_cases successor
  · simp only [exec, heq] at hcount ⊢
    exact h
  · simp only [exec, heq, List.length_cons] at hcount ⊢
    have hnext : s.publisher.nextSerial.val = s.issued.length + 1 := by
      rw [h.nextSerial]
      omega
    have hfresh : ∀ r ∈ s.issued, r.serial ≠ s.publisher.nextSerial := by
      intro r hr heq
      have hle := h.serial_le r hr
      rw [heq, hnext] at hle
      omega
    exact {
      nextSerial := by
        simp only [U.saturatingAdd_val, hnext, List.length_cons]
        rfl
      serial_le := by
        simp only [List.forall_mem_cons, List.length_cons]
        exact ⟨hnext.le, fun r hr => (h.serial_le r hr).trans (Nat.le_succ _)⟩
      held_issued := by
        simp only [held, List.cons_append, List.forall_mem_cons]
        exact ⟨List.mem_cons_self, fun r hr => List.mem_cons_of_mem _ (h.held_issued r hr)⟩
      held_nodup := by
        simp only [held, List.cons_append, List.map_cons, List.nodup_cons]
        refine ⟨?_, h.held_nodup⟩
        rw [List.mem_map]
        rintro ⟨r, hr, heq⟩
        exact hfresh r (h.held_issued r hr) heq
      outstanding := by
        rintro n ⟨⟩
        exact ⟨_, List.mem_cons_self, rfl⟩
      basis := by
        simp only [List.forall_mem_cons, forall_const, true_and]
        intro r hr hout
        exact absurd (Option.some.inj hout).symm (hfresh r hr)
      staged := by
        intro capsule hstaged
        rw [hfree] at hstaged
        cases hstaged }

theorem materialize (h : s.Linear ledger) {r : Reservation} (hr : r ∈ s.reservations)
    (capsule : ObservationCapsule) : (s.exec (.materialize r capsule)).2.Linear ledger := by
  obtain ⟨error, heq, -⟩ | ⟨error, hout, heq⟩ | ⟨hout, hbasis, hsuccessor, heq⟩ :=
    s.publisher.materialize_cases r capsule
  · simp only [exec, heq]
    exact h.spend rfl rfl List.erase_sublist (List.Sublist.refl _)
  · simp only [exec, heq]
    exact h.clear rfl rfl List.erase_sublist (List.Sublist.refl _) rfl (h.unstaged hr hout)
  · simp only [exec, heq]
    -- the token changes hands: the caller's reservations are permuted, not spent
    have hperm : (s.reservations.erase r ++ r :: s.materializations.map Materialization.reservation).Perm
        s.held := by
      refine List.perm_middle.trans ?_
      rw [← List.cons_append]
      exact (List.perm_cons_erase hr).symm.append_right _
    exact {
      nextSerial := h.nextSerial
      serial_le := h.serial_le
      held_issued := fun r' hr' => h.held_issued r' (hperm.subset hr')
      held_nodup := (hperm.map _).nodup_iff.2 h.held_nodup
      outstanding := h.outstanding
      basis := h.basis
      staged := by
        rintro _ ⟨⟩
        refine .inl ⟨r, h.held_issued r (List.mem_append_left _ hr), hout, hbasis, hsuccessor, ?_⟩
        have hnodup := (hperm.map Reservation.serial).nodup_iff.2 h.held_nodup
        rw [List.map_append, List.map_cons] at hnodup
        exact fun hmem => (List.disjoint_of_nodup_append hnodup) hmem List.mem_cons_self }

theorem publish (h : s.Linear ledger) (m : Materialization) :
    (s.exec (.publish m)).2.Linear ledger := by
  obtain ⟨error, heq⟩ | ⟨-, hstaged, heq⟩ := s.publisher.publish_cases m
  · simp only [exec, heq]
    exact h.spend rfl rfl (List.Sublist.refl _) List.erase_sublist
  · simp only [exec, heq]
    exact h.clear rfl rfl (List.Sublist.refl _) List.erase_sublist rfl hstaged

theorem abort (h : s.Linear ledger) {r : Reservation} (hr : r ∈ s.reservations) :
    (s.exec (.abort r)).2.Linear ledger := by
  simp only [exec, CapsulePublisher.abort]
  split
  · rename_i hout
    exact h.clear rfl rfl List.erase_sublist (List.Sublist.refl _) rfl (h.unstaged hr hout)
  · exact h.spend rfl rfl List.erase_sublist (List.Sublist.refl _)

theorem abortMaterialized (h : s.Linear ledger) (m : Materialization) :
    (s.exec (.abortMaterialized m)).2.Linear ledger := by
  simp only [exec, CapsulePublisher.abortMaterialized]
  split
  · exact h.clear rfl rfl (List.Sublist.refl _) List.erase_sublist rfl rfl
  · exact h.spend rfl rfl (List.Sublist.refl _) List.erase_sublist

theorem recover (h : s.Linear ledger) : (s.exec .recover).2.Linear ledger := by
  obtain ⟨hledger, hout, hserial⟩ := s.publisher.recover_clears
  refine h.clear rfl hserial (List.Sublist.refl _) (List.Sublist.refl _) hout ?_
  rw [exec, hledger]
  rfl

theorem exec (h : s.Linear ledger) (hholds : s.Holds op)
    (hcount : (s.exec op).2.issued.length < 2 ^ 64) : (s.exec op).2.Linear ledger := by
  cases op with
  | reserve successor => exact h.reserve hcount
  | materialize r capsule => exact h.materialize hholds capsule
  | publish m => exact h.publish m
  | abort r => exact h.abort hholds
  | abortMaterialized m => exact h.abortMaterialized m
  | recover => exact h.recover

end Linear

/-! ## Whole runs -/

/-- An operation makes a reservation, or leaves the publisher with the one it had, or with none. -/
theorem exec_reservation (s : Session) (op : PublisherOp) :
    (∃ r, (s.exec op).2.issued = r :: s.issued ∧
      (s.exec op).2.publisher.outstanding = some r.serial ∧
      r.serial = s.publisher.nextSerial) ∨
    ((s.exec op).2.issued = s.issued ∧
      ∀ n, (s.exec op).2.publisher.outstanding = some n → s.publisher.outstanding = some n) := by
  cases op with
  | reserve successor =>
      obtain ⟨error, heq⟩ | ⟨-, -, heq⟩ := s.publisher.reserve_cases successor <;>
        simp only [exec, heq]
      · exact .inr ⟨trivial, fun _ => id⟩
      · exact .inl ⟨_, rfl, rfl, rfl⟩
  | materialize r capsule =>
      obtain ⟨error, heq, -⟩ | ⟨error, -, heq⟩ | ⟨-, -, -, heq⟩ :=
        s.publisher.materialize_cases r capsule <;> simp only [exec, heq]
      · exact .inr ⟨trivial, fun _ => id⟩
      · exact .inr ⟨trivial, nofun⟩
      · exact .inr ⟨trivial, fun _ => id⟩
  | publish m =>
      obtain ⟨error, heq⟩ | ⟨-, -, heq⟩ := s.publisher.publish_cases m <;> simp only [exec, heq]
      · exact .inr ⟨trivial, fun _ => id⟩
      · exact .inr ⟨trivial, nofun⟩
  | abort r =>
      refine .inr ⟨rfl, ?_⟩
      simp only [exec, CapsulePublisher.abort]
      split
      · nofun
      · exact fun _ => id
  | abortMaterialized m =>
      refine .inr ⟨rfl, ?_⟩
      simp only [exec, CapsulePublisher.abortMaterialized]
      split
      · nofun
      · exact fun _ => id
  | recover =>
      refine .inr ⟨rfl, ?_⟩
      simp only [exec, s.publisher.recover_clears.2.1]
      nofun

theorem issued_length_le (s : Session) (op : PublisherOp) :
    s.issued.length ≤ (s.exec op).2.issued.length := by
  obtain ⟨r, hissued, -⟩ | ⟨hissued, -⟩ := s.exec_reservation op <;> rw [hissued]
  exact Nat.le_succ _

theorem issued_length_le_run {ops : List PublisherOp} (h : Run Session.Step s ops s') :
    s.issued.length ≤ s'.issued.length := by
  refine h.preserves (P := fun t => s.issued.length ≤ t.issued.length) ?_ le_rfl
  rintro a op b ha ⟨-, rfl⟩
  exact ha.trans (a.issued_length_le op)

/-- The reservation was made, and is not outstanding. -/
def Retired (serial : U 64) (s : Session) : Prop :=
  (∃ r ∈ s.issued, r.serial = serial) ∧ s.publisher.outstanding ≠ some serial

/-- A retired reservation stays retired: its serial is not handed out again. -/
theorem Retired.exec {ledger : DurableLedger} {serial : U 64} (h : s.Retired serial)
    (hlinear : s.Linear ledger) (hcount : (s.exec op).2.issued.length < 2 ^ 64) :
    (s.exec op).2.Retired serial := by
  obtain ⟨⟨r, hr, rfl⟩, hout⟩ := h
  obtain ⟨r', hissued, hout', hserial⟩ | ⟨hissued, hout'⟩ := s.exec_reservation op
  · rw [hissued, List.length_cons] at hcount
    refine ⟨⟨r, hissued ▸ List.mem_cons_of_mem _ hr, rfl⟩, fun heq => ?_⟩
    have hsame : s.publisher.nextSerial = r.serial := by
      rw [← hserial]
      exact Option.some.inj (hout'.symm.trans heq)
    have hnext := hlinear.nextSerial
    have hle := hlinear.serial_le r hr
    rw [hsame] at hnext
    omega
  · exact ⟨⟨r, hissued ▸ hr, rfl⟩, fun heq => hout (hout' _ heq)⟩

theorem Linear.run {ledger : DurableLedger} {ops : List PublisherOp} (h : Run Session.Step s ops s')
    (hs : s.issued.length < 2 ^ 64 → s.Linear ledger) (hcount : s'.issued.length < 2 ^ 64) :
    s'.Linear ledger := by
  refine h.preserves (P := fun t => t.issued.length < 2 ^ 64 → t.Linear ledger) ?_ hs hcount
  rintro a op b ha ⟨hholds, rfl⟩ hlt
  exact (ha ((a.issued_length_le op).trans_lt hlt)).exec hholds hlt

/-- **The tokens stay linear** while serials last. -/
theorem Linear.of_run {ledger : DurableLedger} {ops : List PublisherOp}
    (h : Run Session.Step (.start ledger) ops s) (hcount : s.issued.length < 2 ^ 64) :
    s.Linear ledger :=
  .run h (fun _ => .start ledger) hcount

theorem Retired.run {ledger : DurableLedger} {serial : U 64} {ops : List PublisherOp}
    (h : s.Retired serial) (hlinear : s.issued.length < 2 ^ 64 → s.Linear ledger)
    (hrun : Run Session.Step s ops s') (hcount : s'.issued.length < 2 ^ 64) :
    s'.Retired serial := by
  refine (hrun.preserves (P := fun t => t.issued.length < 2 ^ 64 →
    t.Linear ledger ∧ t.Retired serial) ?_ (fun hlt => ⟨hlinear hlt, h⟩) hcount).2
  rintro a op b ha ⟨hholds, rfl⟩ hlt
  obtain ⟨hlin, hret⟩ := ha ((a.issued_length_le op).trans_lt hlt)
  exact ⟨hlin.exec hholds hlt, hret.exec hlin hlt⟩

/-- The operation ends the reservation with this serial: it publishes it, aborts it, fails to
materialize it, or recovers from a crash while it is outstanding. -/
def Ends (s : Session) : PublisherOp → U 64 → Prop
  | .publish m, serial => m.reservation.serial = serial ∧ ∃ root, (s.publisher.publish m).1 = .ok root
  | .abort r, serial => r.serial = serial
  | .abortMaterialized m, serial => m.reservation.serial = serial
  | .materialize r capsule, serial =>
      r.serial = serial ∧ ∃ error, (s.publisher.materialize r capsule).1 = .error error
  | .recover, serial => s.publisher.outstanding = some serial
  | .reserve _, _ => False

/-- A reservation that an operation ends is retired. -/
theorem Ends.retired {ledger : DurableLedger} {serial : U 64} (h : s.Ends op serial)
    (hholds : s.Holds op) (hlinear : s.Linear ledger) : (s.exec op).2.Retired serial := by
  cases op with
  | reserve successor => cases h
  | materialize r capsule =>
      obtain ⟨rfl, error, herror⟩ := h
      have hissued := hlinear.held_issued r (List.mem_append_left _ hholds)
      obtain ⟨error', heq, hdead⟩ | ⟨error', -, heq⟩ | ⟨-, -, -, heq⟩ :=
        s.publisher.materialize_cases r capsule
      · simp only [exec, heq]
        refine ⟨⟨r, hissued, rfl⟩, fun hout => ?_⟩
        rw [s.publisher.checkLive_ok_iff.2 ⟨hout, hlinear.basis r hissued hout⟩] at hdead
        cases hdead
      · simp only [exec, heq]
        exact ⟨⟨r, hissued, rfl⟩, nofun⟩
      · rw [heq] at herror
        cases herror
  | publish m =>
      obtain ⟨rfl, root, hroot⟩ := h
      have hmem : m.reservation ∈ s.held :=
        List.mem_append_right _ (List.mem_map_of_mem hholds)
      obtain ⟨error, heq⟩ | ⟨-, -, heq⟩ := s.publisher.publish_cases m
      · rw [heq] at hroot
        cases hroot
      · simp only [exec, heq]
        exact ⟨⟨m.reservation, hlinear.held_issued _ hmem, rfl⟩, nofun⟩
  | abort r =>
      cases h
      refine ⟨⟨r, hlinear.held_issued r (List.mem_append_left _ hholds), rfl⟩, ?_⟩
      simp only [exec, CapsulePublisher.abort]
      split
      · nofun
      · assumption
  | abortMaterialized m =>
      cases h
      have hmem : m.reservation ∈ s.held :=
        List.mem_append_right _ (List.mem_map_of_mem hholds)
      refine ⟨⟨m.reservation, hlinear.held_issued _ hmem, rfl⟩, ?_⟩
      simp only [exec, CapsulePublisher.abortMaterialized]
      split
      · nofun
      · assumption
  | recover =>
      refine ⟨hlinear.outstanding serial h, ?_⟩
      simp only [exec, s.publisher.recover_clears.2.1]
      nofun

/-- No token of a retired reservation can be used. -/
theorem Retired.refused {serial : U 64} (h : s.Retired serial) {r : Reservation}
    (hr : r.serial = serial) (capsule : ObservationCapsule) (m : Materialization)
    (hm : m.reservation.serial = serial) :
    (∃ error, s.publisher.materialize r capsule = (.error error, s.publisher)) ∧
      ∃ error, s.publisher.publish m = (.error error, s.publisher) := by
  constructor
  · obtain ⟨error, heq, -⟩ | ⟨error, hout, -⟩ | ⟨hout, -⟩ :=
      s.publisher.materialize_cases r capsule
    · exact ⟨error, heq⟩
    · exact absurd (hr ▸ hout) h.2
    · exact absurd (hr ▸ hout) h.2
  · obtain ⟨error, heq⟩ | ⟨hout, -⟩ := s.publisher.publish_cases m
    · exact ⟨error, heq⟩
    · exact absurd (hm ▸ hout) h.2

/-- An operation that fails moves neither the head nor the root. -/
theorem exec_failed {error : DfmcpError} (h : (s.exec op).1 = .error error) :
    (s.exec op).2.publisher.ledger.headSnapshot = s.publisher.ledger.headSnapshot ∧
      (s.exec op).2.publisher.root = s.publisher.root := by
  cases op with
  | reserve successor =>
      obtain ⟨error, heq⟩ | ⟨-, -, heq⟩ := s.publisher.reserve_cases successor <;>
        simp only [exec, heq] at h ⊢ <;> simp
  | materialize r capsule =>
      obtain ⟨error, heq, -⟩ | ⟨error, -, heq⟩ | ⟨-, -, -, heq⟩ :=
        s.publisher.materialize_cases r capsule <;> simp only [exec, heq] at h ⊢ <;> simp
  | publish m =>
      obtain ⟨error, heq⟩ | ⟨-, -, heq⟩ := s.publisher.publish_cases m <;>
        simp only [exec, heq] at h ⊢
      · simp
      · cases h
  | abort r => cases h
  | abortMaterialized m => cases h
  | recover =>
      simp only [exec, CapsulePublisher.recover] at h ⊢
      split at h
      · simp_all [DurableLedger.recoverFromCrash]
      · split at h
        · simp_all [DurableLedger.recoverFromCrash]
        · cases h

theorem consistent_exec (h : s.publisher.Consistent) (op : PublisherOp) :
    (s.exec op).2.publisher.Consistent := by
  cases op with
  | reserve successor =>
      have hnext := h.reserve successor
      simp only [exec]
      split <;> simp_all
  | materialize r capsule =>
      have hnext := h.materialize r capsule
      simp only [exec]
      split <;> simp_all
  | publish m => exact h.publish m
  | abort r => exact h.abort r
  | abortMaterialized m => exact h.abortMaterialized m
  | recover => exact h.recover

/-- **Publication over whole runs.** For a fresh publisher over any ledger that operations reach,
after any run of operations:

* the root's anchor is its snapshot's and the ledger's head;
* the high-water mark counts the committed capsules;
* the capsules replay to the head, and recovery succeeds and republishes the same root;
* an operation that fails moves neither the head nor the root;
* while serials last, what is staged belongs to the outstanding reservation, or was staged
  before the publisher was made and no reservation has been made since;
* while serials last, a reservation that was published or aborted is never published again. -/
theorem publication_run {root : WorldSnapshot} {before : List LedgerOp} {ledger : DurableLedger}
    (hledger : Run DurableLedger.Step (.new root) before ledger) {ops : List PublisherOp}
    (h : Run Session.Step (.start ledger) ops s) :
    (s.publisher.root.anchor = s.publisher.root.snapshot.anchor ∧
      s.publisher.root.anchor = s.publisher.ledger.headAnchor) ∧
    s.publisher.root.capsuleHighWaterMark.val = s.publisher.ledger.capsuleCount ∧
    (replayCapsules s.publisher.ledger.rootSnapshot s.publisher.ledger.capsules =
        .ok s.publisher.ledger.headSnapshot ∧
      (∃ report, s.publisher.recover.1 = .ok report) ∧
      s.publisher.recover.2.root = s.publisher.root) ∧
    (∀ op error, (s.exec op).1 = .error error →
      (s.exec op).2.publisher.ledger.headSnapshot = s.publisher.ledger.headSnapshot ∧
      (s.exec op).2.publisher.root = s.publisher.root) ∧
    (s.issued.length < 2 ^ 64 → ∀ capsule,
      s.publisher.ledger.unpublishedCapsule = some capsule →
      (∃ r ∈ s.issued, s.publisher.outstanding = some r.serial ∧ capsule.basisAnchor = r.basis ∧
        capsule.successorAnchor = r.successor) ∨
      (s.issued = [] ∧ ledger.unpublishedCapsule = some capsule)) ∧
    (∀ op serial, s.Holds op → s.Ends op serial → ∀ later s',
      Run Session.Step (s.exec op).2 later s' → s'.issued.length < 2 ^ 64 →
      ∀ r capsule m, r.serial = serial → m.reservation.serial = serial →
        (∃ error, s'.publisher.materialize r capsule = (.error error, s'.publisher)) ∧
        ∃ error, s'.publisher.publish m = (.error error, s'.publisher)) := by
  have hconsistent : s.publisher.Consistent := by
    refine h.preserves (P := fun t => t.publisher.Consistent) ?_ (.new (.of_run hledger))
    rintro a op b ha ⟨-, rfl⟩
    exact consistent_exec ha op
  refine ⟨?_, hconsistent.highWaterMark, ⟨hconsistent.chained.replays, ?_, ?_⟩,
    fun op error => exec_failed, fun hcount capsule hstaged => ?_,
    fun op serial hholds hends later s' hrun hcount r capsule m hr hm => ?_⟩
  · rw [hconsistent.root]
    exact ⟨rfl, rfl⟩
  · rw [s.publisher.recover_of_chained hconsistent.chained]
    exact ⟨_, rfl⟩
  · rw [s.publisher.recover_of_chained hconsistent.chained, hconsistent.root]
  · rcases (Linear.of_run h hcount).staged capsule hstaged with
      ⟨r, hr, hout, hbasis, hsuccessor, -⟩ | hinherited
    · exact .inl ⟨r, hr, hout, hbasis, hsuccessor⟩
    · exact .inr hinherited
  · have hbefore : s.issued.length < 2 ^ 64 :=
      ((s.issued_length_le op).trans (issued_length_le_run hrun)).trans_lt hcount
    have hlinear := Linear.of_run h hbefore
    have hretired := hends.retired hholds hlinear
    exact (hretired.run (hlinear.exec hholds) hrun hcount).refused hr capsule m hm

/-! ## Steps that succeed -/

section Steps

variable {publisher : CapsulePublisher} {r : Reservation} {m : Materialization}

theorem Step.reserve (h : s.publisher.reserve successor = (.ok r, publisher)) :
    s.Step (.reserve successor) { s with
      publisher
      reservations := r :: s.reservations
      issued := r :: s.issued } :=
  ⟨trivial, by simp only [exec, h]⟩

theorem Step.materialize {capsule : ObservationCapsule} (hr : r ∈ s.reservations)
    (h : s.publisher.materialize r capsule = (.ok m, publisher)) :
    s.Step (.materialize r capsule) { s with
      publisher
      reservations := s.reservations.erase r
      materializations := m :: s.materializations } :=
  ⟨hr, by simp only [exec, h]⟩

theorem Step.publish {root : PublishedRoot} (hm : m ∈ s.materializations)
    (h : s.publisher.publish m = (.ok root, publisher)) :
    s.Step (.publish m) { s with
      publisher
      materializations := s.materializations.erase m } :=
  ⟨hm, by simp only [exec, h]⟩

theorem Step.abort (hr : r ∈ s.reservations) :
    s.Step (.abort r) { s with
      publisher := s.publisher.abort r
      reservations := s.reservations.erase r } :=
  ⟨hr, rfl⟩

theorem Step.recover (h : s.publisher.recover.2 = publisher) :
    s.Step .recover { s with publisher } :=
  ⟨trivial, by rw [← h]; rfl⟩

end Steps

end Session

/-! ## Publishing a successor -/

/-- The second snapshot is one that an observation of the first can lead to. -/
structure Succeeds (base target : WorldSnapshot) : Prop where
  base_valid : base.hashIsValid = true
  target_valid : target.hashIsValid = true
  keys : target.graph.KeysMatch
  diffable : Diffable base target

/-- The capsule of the delta between two snapshots. -/
def sealed (base target : WorldSnapshot) : ObservationCapsule where
  basisAnchor := base.anchor
  successorAnchor := target.anchor
  delta := deltaBetween base target
  capsuleDigest :=
    computeCapsuleDigest base.anchor target.anchor (deltaBetween base target) target.tick
  publishedAtTick := target.tick

section Sealed

variable {base target : WorldSnapshot} (h : Succeeds base target)

include h

theorem integrityIsValid_sealed : (sealed base target).integrityIsValid = true := by
  have hsequence := ObservationCursor.checkedNext_sequence h.diffable.cursor
  have hcount := (applicable_diffChanges_iff h.keys h.diffable.graph.events).2 h.diffable.graph
  refine decide_eq_true ⟨h.diffable.fortress.symm, rfl, rfl, rfl, rfl, rfl, rfl, h.diffable.tick,
    hcount.2, ObservationCursor.checkedNext_epoch h.diffable.cursor, ?_, by simp [sealed, deltaBetween],
    rfl, le_rfl, rfl⟩
  change base.cursor.sequence.val < target.cursor.sequence.val
  omega

theorem applyDelta_sealed : applyDelta base (sealed base target).delta = .ok target :=
  applyDelta_deltaBetween h.base_valid h.target_valid h.keys h.diffable

/-- The capsule of a successor of the head can be staged. -/
theorem stageCapsule_sealed {l : DurableLedger} (hhead : l.headSnapshot = base)
    (hfortress : l.fortressId = base.fortressId) (hfree : l.unpublishedCapsule = none) :
    l.stageCapsule (sealed base target) =
      (.ok (), { l with unpublishedCapsule := some (sealed base target) }) := by
  have hchecks : l.stageChecks (sealed base target) = .ok () := by
    simp only [DurableLedger.stageChecks, guard_ok_iff, bind_ok_iff, mapError_ok_iff, hhead, not_not,
      DurableLedger.headAnchor]
    refine ⟨integrityIsValid_sealed h, hfortress.symm, rfl, rfl, rfl, target, applyDelta_sealed h, ?_⟩
    exact if_neg (not_not.2 rfl)
  rw [DurableLedger.stageCapsule, hchecks, hfree]

theorem publishStaged_sealed {l : DurableLedger} (hhead : l.headSnapshot = base)
    (hstaged : l.unpublishedCapsule = some (sealed base target))
    (hlength : l.capsules.length < maxLedgerCapsules) :
    l.publishStaged = (.ok target.anchor,
      { l with
        unpublishedCapsule := none
        capsules := l.capsules ++ [sealed base target]
        headSnapshot := target }) := by
  have hbasis : (sealed base target).basisAnchor = base.anchor := rfl
  have hanchor : target.anchor = (sealed base target).successorAnchor := rfl
  simp only [DurableLedger.publishStaged, hstaged, integrityIsValid_sealed h, not_le.2 hlength, hbasis,
    DurableLedger.headAnchor, hhead, applyDelta_sealed h, ← hanchor, not_true_eq_false, if_false,
    if_true, ne_eq]

theorem materialize_sealed {p : CapsulePublisher} {serial : U 64}
    (hout : p.outstanding = some serial) (hhead : p.ledger.headSnapshot = base)
    (hfortress : p.ledger.fortressId = base.fortressId)
    (hfree : p.ledger.unpublishedCapsule = none) :
    p.materialize ⟨serial, base.anchor, target.anchor⟩ (sealed base target) =
      (.ok ⟨⟨serial, base.anchor, target.anchor⟩, (sealed base target).capsuleDigest⟩,
        { p with ledger := { p.ledger with unpublishedCapsule := some (sealed base target) } }) := by
  have hlive : p.checkLive ⟨serial, base.anchor, target.anchor⟩ = .ok () :=
    p.checkLive_ok_iff.2 ⟨hout, by rw [DurableLedger.headAnchor, hhead]⟩
  rw [CapsulePublisher.materialize, hlive, stageCapsule_sealed h hhead hfortress hfree]
  exact if_neg (not_or.2 ⟨not_not.2 rfl, not_not.2 rfl⟩)

theorem reserve_sealed {p : CapsulePublisher} (hout : p.outstanding = none)
    (hhead : p.ledger.headSnapshot = base) (hfree : p.ledger.unpublishedCapsule = none) :
    p.reserve target.anchor = (.ok ⟨p.nextSerial, base.anchor, target.anchor⟩,
      { p with
        nextSerial := U.saturatingAdd p.nextSerial 1
        outstanding := some p.nextSerial }) := by
  have hcursor : ¬ target.cursor ≤ base.cursor :=
    not_le.2 (ObservationCursor.lt_checkedNext h.diffable.cursor)
  simp [CapsulePublisher.reserve, hout, DurableLedger.hasStagedCapsule, hfree,
    DurableLedger.headAnchor, hhead, WorldSnapshot.anchor, h.diffable.fortress, hcursor]

theorem CapsulePublisher.publish_sealed {p : CapsulePublisher} {m : Materialization}
    (hout : p.outstanding = some m.reservation.serial) (hbasis : m.reservation.basis = base.anchor)
    (hhead : p.ledger.headSnapshot = base)
    (hstaged : p.ledger.unpublishedCapsule = some (sealed base target))
    (hlength : p.ledger.capsules.length < maxLedgerCapsules) :
    ∃ root next, p.publish m = (.ok root, next) ∧ next.ledger.headSnapshot = target := by
  have hlive : p.checkLive m.reservation = .ok () :=
    p.checkLive_ok_iff.2 ⟨hout, by rw [DurableLedger.headAnchor, hhead, hbasis]⟩
  rw [CapsulePublisher.publish, hlive, publishStaged_sealed h hhead hstaged hlength]
  exact ⟨_, _, rfl, rfl⟩

/-- **Every successor of the head can be published**, by reserving, materializing and publishing
its capsule. -/
theorem exists_publish_run {l : DurableLedger} (hhead : l.headSnapshot = base)
    (hfortress : l.fortressId = base.fortressId) (hfree : l.unpublishedCapsule = none)
    (hlength : l.capsules.length < maxLedgerCapsules) :
    ∃ ops s, Run Session.Step (.start l) ops s ∧ s.publisher.ledger.headSnapshot = target := by
  have hreserve := reserve_sealed h (p := .new l) rfl hhead hfree
  have hmaterialize := materialize_sealed h
    (p := { CapsulePublisher.new l with
      nextSerial := U.saturatingAdd 1 1
      outstanding := some 1 }) rfl hhead hfortress hfree
  obtain ⟨root, next, hpublish, hnext⟩ := CapsulePublisher.publish_sealed h
    (p := { CapsulePublisher.new l with
      ledger := { l with unpublishedCapsule := some (sealed base target) }
      nextSerial := U.saturatingAdd 1 1
      outstanding := some 1 })
    (m := ⟨⟨1, base.anchor, target.anchor⟩, (sealed base target).capsuleDigest⟩) rfl rfl hhead rfl
    hlength
  exact ⟨_, _, .cons (.reserve hreserve) (.cons (.materialize List.mem_cons_self hmaterialize)
    (.cons (.publish List.mem_cons_self hpublish) (.nil _))), hnext⟩

/-- The serial of the next reservation, after so many. -/
def serialAfter : Nat → U 64
  | 0 => 1
  | n + 1 => U.saturatingAdd (serialAfter n) 1

omit h in
theorem serialAfter_val (n : Nat) : (serialAfter n).val = min (n + 1) (2 ^ 64 - 1) := by
  induction n with
  | zero => rfl
  | succ n ih =>
      rw [serialAfter, U.saturatingAdd_val, ih]
      change min (min (n + 1) (2 ^ 64 - 1) + 1) (2 ^ 64 - 1) = _
      omega

/-- Reservations can be made and aborted any number of times. -/
theorem exists_abort_run {l : DurableLedger} (hhead : l.headSnapshot = base)
    (hfree : l.unpublishedCapsule = none) (n : Nat) :
    ∃ ops issued, Run Session.Step (.start l) ops
      ⟨{ CapsulePublisher.new l with nextSerial := serialAfter n }, [], [], issued⟩ := by
  induction n with
  | zero => exact ⟨[], [], .nil _⟩
  | succ n ih =>
      obtain ⟨ops, issued, hrun⟩ := ih
      have hreserve := reserve_sealed h
        (p := { CapsulePublisher.new l with nextSerial := serialAfter n }) rfl hhead hfree
      have habort := Session.Step.abort (r := ⟨serialAfter n, base.anchor, target.anchor⟩)
        (s := ⟨{ CapsulePublisher.new l with
            nextSerial := serialAfter (n + 1)
            outstanding := some (serialAfter n) },
          [⟨serialAfter n, base.anchor, target.anchor⟩], [],
          ⟨serialAfter n, base.anchor, target.anchor⟩ :: issued⟩) List.mem_cons_self
      simp only [CapsulePublisher.abort, if_true, List.erase_cons_head] at habort
      exact ⟨_, _, hrun.append (.cons (.reserve hreserve) (.cons habort (.nil _)))⟩

/-- Once the serials are used up, the last one is handed out again: the token of a reservation
that recovery discarded aborts a later reservation, and leaves its capsule staged. -/
theorem exists_unreserved_run {l : DurableLedger} (hhead : l.headSnapshot = base)
    (hfortress : l.fortressId = base.fortressId) (hfree : l.unpublishedCapsule = none)
    (hchained : l.Chained) (hrecover : l.recoverFromCrash = l) :
    ∃ ops s, Run Session.Step (.start l) ops s ∧
      s.publisher.ledger.hasStagedCapsule = true ∧ s.publisher.outstanding = none := by
  obtain ⟨ops, issued, hrun⟩ := exists_abort_run h hhead hfree (2 ^ 64 - 2)
  have hlast : serialAfter (2 ^ 64 - 2) = U.max 64 := Fin.ext (serialAfter_val _)
  rw [hlast] at hrun
  have hreserve := reserve_sealed h
    (p := { CapsulePublisher.new l with nextSerial := U.max 64 }) rfl hhead hfree
  have hrecovered : { CapsulePublisher.new l with
      nextSerial := U.max 64
      outstanding := some (U.max 64) }.recover.2 =
      { CapsulePublisher.new l with nextSerial := U.max 64 } := by
    rw [CapsulePublisher.recover_of_chained _ hchained]
    simp only [CapsulePublisher.new, hrecover]
  have hmaterialize := materialize_sealed h
    (p := { CapsulePublisher.new l with
      nextSerial := U.max 64
      outstanding := some (U.max 64) }) rfl hhead hfortress hfree
  refine ⟨_, _, hrun.append (.cons (.reserve hreserve) (.cons (.recover hrecovered)
    (.cons (.reserve hreserve) (.cons (.materialize List.mem_cons_self hmaterialize)
      (.cons (.abort (r := ⟨U.max 64, base.anchor, target.anchor⟩) ?_) (.nil _)))))), ?_, ?_⟩
  · simp
  · simp [CapsulePublisher.abort, DurableLedger.hasStagedCapsule]
  · simp [CapsulePublisher.abort]

end Sealed

/-! ## A small chain -/

namespace Sample

/-- An empty world, and the same with one entity. -/
def emptyWorld : WorldSnapshot := snapshot 0 .empty
def firstWorld : WorldSnapshot := snapshot 1 (entities [entity 1 1])

theorem succeeds : Succeeds emptyWorld firstWorld := by
  have hkeys : firstWorld.graph.KeysMatch := by decide
  exact ⟨snapshot_hashIsValid _ _, snapshot_hashIsValid _ _, hkeys, rfl, by decide, le_rfl, rfl,
    .of_decide hkeys (by decide) (by decide) (by decide) (by decide) (by decide) (by decide)
      (by decide)⟩

end Sample

/-- A run that publishes the first entity of a world. -/
theorem publication_run_first :
    ∃ ops s, Run Session.Step (.start (.new Sample.emptyWorld)) ops s ∧
      s.publisher.root.anchor = Sample.firstWorld.anchor ∧
      s.publisher.recover.2.root = s.publisher.root := by
  obtain ⟨ops, s, hrun, hhead⟩ := exists_publish_run Sample.succeeds
    (l := .new Sample.emptyWorld) rfl rfl rfl (by decide)
  obtain ⟨⟨-, hanchor⟩, -, ⟨-, -, hrecover⟩, -⟩ := Session.publication_run (.nil _) hrun
  refine ⟨ops, s, hrun, ?_, hrecover⟩
  rw [hanchor, DurableLedger.headAnchor, hhead]

/-- A capsule can be staged with no reservation outstanding: because the ledger held it when the
publisher was made, or because the serials have run out. -/
theorem publication_unreserved :
    (∃ ops ledger, Run DurableLedger.Step (.new Sample.emptyWorld) ops ledger ∧
      (CapsulePublisher.new ledger).ledger.hasStagedCapsule = true ∧
      (CapsulePublisher.new ledger).outstanding = none) ∧
    ∃ ops s, Run Session.Step (.start (.new Sample.emptyWorld)) ops s ∧
      s.publisher.ledger.hasStagedCapsule = true ∧ s.publisher.outstanding = none := by
  constructor
  · have hstage := stageCapsule_sealed Sample.succeeds (l := .new Sample.emptyWorld) rfl rfl rfl
    refine ⟨[.stageCapsule (sealed Sample.emptyWorld Sample.firstWorld)], _, .cons rfl (.nil _),
      ?_, rfl⟩
    rw [LedgerOp.exec, hstage]
    rfl
  · exact exists_unreserved_run Sample.succeeds rfl rfl rfl (.new _) rfl

end Dfmcp
