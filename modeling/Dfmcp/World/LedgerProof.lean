import Dfmcp.World.Ledger
import Dfmcp.Library.Runs

/-!
# The effect journal

A run is any sequence of ledger operations: the journal's own, those on capsules, and crash
recoveries at any point. What one operation can do to the record under a key is said once, in
`Transition`, and everything else follows from it:

* `effect_bound` — a key keeps the effect and plan it was first bound to;
* `effect_stable` — a record in a terminal or indeterminate state never changes again;
* `verified_after_receipt` — a verified effect has its receipt and then its verification in the
  history, and a nonzero observed hash;
* `record_again` — a recording that succeeded once changes nothing when it is repeated;
* `effect_journal` — the journal's guarantees over whole runs.
-/

namespace Dfmcp

open Machine Runs

/-! ## Operations -/

inductive LedgerOp where
  | stageCapsule (capsule : ObservationCapsule)
  | publishStaged
  | abortStaged
  | recordDispatchAttempt (effectId idempotencyKey : String) (planDigest : Digest32)
      (tick : GameTick)
  | recordCommitReceipt (idempotencyKey : String) (receiptDigest : Digest32)
  | recordVerified (idempotencyKey : String) (observedStateHash : Digest32)
  | recordIndeterminate (idempotencyKey message : String)
  | recoverFromCrash

namespace LedgerOp

/-- Perform an operation. -/
def exec (l : DurableLedger) : LedgerOp → Result Unit × DurableLedger
  | .stageCapsule capsule => l.stageCapsule capsule
  | .publishStaged => (l.publishStaged.1.map fun _ => (), l.publishStaged.2)
  | .abortStaged => (.ok (), l.abortStaged)
  | .recordDispatchAttempt effectId idempotencyKey planDigest tick =>
      l.recordDispatchAttempt effectId idempotencyKey planDigest tick
  | .recordCommitReceipt idempotencyKey receiptDigest =>
      l.recordCommitReceipt idempotencyKey receiptDigest
  | .recordVerified idempotencyKey observedStateHash =>
      l.recordVerified idempotencyKey observedStateHash
  | .recordIndeterminate idempotencyKey message => l.recordIndeterminate idempotencyKey message
  | .recoverFromCrash => (.ok (), l.recoverFromCrash)

/-- The operations that record something of one effect. -/
def IsRecord : LedgerOp → Prop
  | .recordDispatchAttempt .. | .recordCommitReceipt .. | .recordVerified ..
  | .recordIndeterminate .. => True
  | _ => False

end LedgerOp

/-- One operation, whether it succeeds or fails. -/
def DurableLedger.Step (l : DurableLedger) (op : LedgerOp) (l' : DurableLedger) : Prop :=
  l' = (op.exec l).2

/-! ## What an operation can do to one record -/

/-- Everything an operation can do to the record under `key`. -/
inductive Transition (op : LedgerOp) (key : String) (result : Result Unit) :
    Option EffectJournalRecord → Option EffectJournalRecord → Prop
  | same (slot : Option EffectJournalRecord) : Transition op key result slot slot
  | dispatched (effectId : String) (planDigest : Digest32) (tick : GameTick)
      (by_op : op = .recordDispatchAttempt effectId key planDigest tick) :
      Transition op key result none
        (some ⟨effectId, key, planDigest, .committing, some tick, none, none, none⟩)
  | receipted (e : EffectJournalRecord) (receipt : Digest32)
      (by_op : op = .recordCommitReceipt key receipt) (done : result = .ok ())
      (from_state : e.state = .committing) :
      Transition op key result (some e)
        (some { e with state := .appliedAwaitingVerification, receiptDigest := some receipt })
  | verified (e : EffectJournalRecord) (hash : Digest32) (by_op : op = .recordVerified key hash)
      (done : result = .ok ()) (nonzero : hash ≠ Digest32.zero)
      (from_state : e.state = .appliedAwaitingVerification) (receipt : e.receiptDigest ≠ none) :
      Transition op key result (some e)
        (some { e with observedStateHash := some hash, state := .verified })
  | indeterminate (e : EffectJournalRecord) (message : Option String)
      (from_state : e.state = .committing ∨ e.state = .appliedAwaitingVerification) :
      Transition op key result (some e)
        (some { e with state := .indeterminate, errorMessage := message })

theorem effect_putEffect (l : DurableLedger) (k key : String) (e : EffectJournalRecord) :
    (l.putEffect k e).effect key = if key = k then some e else l.effect key :=
  OMap.get?_insert l.effects k e key

theorem effect_recoverFromCrash (l : DurableLedger) (key : String) :
    l.recoverFromCrash.effect key = (l.effect key).map DurableLedger.recoverEffect :=
  OMap.get?_mapValues _ l.effects key

/-- Staging fails and changes nothing, or leaves the capsule staged. -/
theorem stageCapsule_cases (l : DurableLedger) (capsule : ObservationCapsule) :
    (∃ error, l.stageCapsule capsule = (.error error, l)) ∨
      l.stageCapsule capsule = (.ok (), { l with unpublishedCapsule := some capsule }) := by
  unfold DurableLedger.stageCapsule
  split
  · exact .inl ⟨_, rfl⟩
  · split
    · rename_i existing hstaged
      split
      · rename_i heq
        rw [← heq, ← hstaged]
        exact .inr rfl
      · exact .inl ⟨_, rfl⟩
    · exact .inr rfl

/-- Publishing fails and changes nothing, or commits the staged capsule to the head it was built
on. -/
theorem publishStaged_cases (l : DurableLedger) :
    (∃ error, l.publishStaged = (.error error, l)) ∨
      ∃ capsule snapshot, l.unpublishedCapsule = some capsule ∧
        l.capsules.length < maxLedgerCapsules ∧ capsule.basisAnchor = l.headAnchor ∧
        applyDelta l.headSnapshot capsule.delta = .ok snapshot ∧
        snapshot.anchor = capsule.successorAnchor ∧
        l.publishStaged = (.ok capsule.successorAnchor,
          { l with
            unpublishedCapsule := none
            capsules := l.capsules ++ [capsule]
            headSnapshot := snapshot }) := by
  unfold DurableLedger.publishStaged
  split
  · exact .inl ⟨_, rfl⟩
  · rename_i capsule hstaged
    have hrestored : { l with unpublishedCapsule := some capsule } = l := by rw [← hstaged]
    dsimp only
    rw [hrestored]
    split
    · exact .inl ⟨_, rfl⟩
    · split
      · exact .inl ⟨_, rfl⟩
      · rename_i hlength
        split
        · exact .inl ⟨_, rfl⟩
        · rename_i hbasis
          split
          · rename_i snapshot happly
            split
            · rename_i hanchor
              exact .inr ⟨capsule, snapshot, hstaged, not_le.1 hlength, not_not.1 hbasis, happly,
                hanchor, rfl⟩
            · exact .inl ⟨_, rfl⟩
          · exact .inl ⟨_, rfl⟩

theorem effects_stageCapsule (l : DurableLedger) (capsule : ObservationCapsule) :
    (l.stageCapsule capsule).2.effects = l.effects := by
  obtain ⟨error, heq⟩ | heq := stageCapsule_cases l capsule <;> rw [heq]

theorem effects_publishStaged (l : DurableLedger) : l.publishStaged.2.effects = l.effects := by
  obtain ⟨error, heq⟩ | ⟨capsule, snapshot, -, -, -, -, -, heq⟩ := publishStaged_cases l <;>
    rw [heq]

/-- **Every operation takes every record through one of the listed transitions.** -/
theorem exec_transition (l : DurableLedger) (op : LedgerOp) (key : String) :
    Transition op key (op.exec l).1 (l.effect key) ((op.exec l).2.effect key) := by
  cases op with
  | stageCapsule capsule =>
      have heq : ((LedgerOp.stageCapsule capsule).exec l).2.effect key = l.effect key := by
        rw [DurableLedger.effect, LedgerOp.exec, effects_stageCapsule]
        rfl
      rw [heq]
      exact .same _
  | publishStaged =>
      have heq : (LedgerOp.publishStaged.exec l).2.effect key = l.effect key := by
        rw [DurableLedger.effect, LedgerOp.exec, effects_publishStaged]
        rfl
      rw [heq]
      exact .same _
  | abortStaged => exact .same _
  | recordDispatchAttempt effectId k planDigest tick =>
      simp only [LedgerOp.exec, DurableLedger.recordDispatchAttempt]
      split
      · exact .same _
      · split
        · split <;> exact .same _
        · rename_i hnone
          split
          · exact .same _
          · rw [effect_putEffect]
            split
            · rename_i hk
              subst hk
              rw [DurableLedger.effect, hnone]
              exact .dispatched effectId planDigest tick rfl
            · exact .same _
  | recordCommitReceipt k receipt =>
      simp only [LedgerOp.exec, DurableLedger.recordCommitReceipt]
      split
      · exact .same _
      · rename_i e he
        split
        · exact .same _
        · split
          · exact .same _
          · rename_i hstate
            rw [effect_putEffect]
            split
            · rename_i hk
              subst hk
              rw [DurableLedger.effect, he]
              exact .receipted e receipt rfl rfl (not_not.1 hstate)
            · exact .same _
  | recordVerified k hash =>
      simp only [LedgerOp.exec, DurableLedger.recordVerified]
      split
      · exact .same _
      · rename_i hnonzero
        split
        · exact .same _
        · rename_i e he
          split
          · exact .same _
          · split
            · exact .same _
            · rename_i hstate
              rw [not_or, not_not, Option.isNone_iff_eq_none] at hstate
              rw [effect_putEffect]
              split
              · rename_i hk
                subst hk
                rw [DurableLedger.effect, he]
                exact .verified e hash rfl rfl hnonzero hstate.1 hstate.2
              · exact .same _
  | recordIndeterminate k message =>
      simp only [LedgerOp.exec, DurableLedger.recordIndeterminate]
      split
      · exact .same _
      · split
        · exact .same _
        · rename_i e he
          split
          · exact .same _
          · split
            · exact .same _
            · rename_i hstate
              rw [effect_putEffect]
              split
              · rename_i hk
                subst hk
                rw [DurableLedger.effect, he]
                exact .indeterminate e (some message) (not_not.1 hstate)
              · exact .same _
  | recoverFromCrash =>
      simp only [LedgerOp.exec, effect_recoverFromCrash]
      cases l.effect key with
      | none => exact .same _
      | some e =>
          rw [Option.map_some, DurableLedger.recoverEffect]
          split
          · rename_i hstate
            exact .indeterminate e _ (.inl hstate.1)
          · exact .same _

/-! ## What transitions keep -/

namespace EffectJournalRecord

/-- What the journal promises of each record. -/
structure Sound (e : EffectJournalRecord) : Prop where
  committing : e.state = .committing → e.dispatchAttemptedTick ≠ none ∧ e.receiptDigest = none
  verified : e.state = .verified → e.receiptDigest ≠ none ∧
    ∃ hash, e.observedStateHash = some hash ∧ hash ≠ Digest32.zero

/-- The record is in a terminal state, or waits for reconciliation. -/
def Settled (e : EffectJournalRecord) : Prop :=
  e.state.isTerminal = true ∨ e.state = .indeterminate

end EffectJournalRecord

namespace Transition

variable {op : LedgerOp} {key : String} {result : Result Unit}
  {slot slot' : Option EffectJournalRecord} {e e' : EffectJournalRecord}

theorem sound (h : Transition op key result slot slot') (hslot : ∀ e, slot = some e → e.Sound)
    (he : slot' = some e') : e'.Sound := by
  cases h with
  | same => exact hslot e' he
  | dispatched effectId planDigest tick by_op =>
      cases he
      exact ⟨fun _ => ⟨by simp, rfl⟩, nofun⟩
  | receipted e receipt by_op done from_state =>
      cases he
      exact ⟨nofun, nofun⟩
  | verified e hash by_op done nonzero from_state receipt =>
      cases he
      exact ⟨nofun, fun _ => ⟨receipt, hash, rfl, nonzero⟩⟩
  | indeterminate e message from_state =>
      cases he
      exact ⟨nofun, nofun⟩

/-- A bound key stays bound to the same effect and plan. -/
theorem bound (h : Transition op key result (some e) slot') :
    ∃ e', slot' = some e' ∧ e'.effectId = e.effectId ∧ e'.planDigest = e.planDigest := by
  cases h with
  | same => exact ⟨e, rfl, rfl, rfl⟩
  | receipted => exact ⟨_, rfl, rfl, rfl⟩
  | verified => exact ⟨_, rfl, rfl, rfl⟩
  | indeterminate => exact ⟨_, rfl, rfl, rfl⟩

/-- A settled record does not move. -/
theorem settled (h : Transition op key result (some e) slot') (he : e.Settled) :
    slot' = some e := by
  cases h with
  | same => rfl
  | receipted _ receipt by_op done from_state =>
      simp [EffectJournalRecord.Settled, from_state, CommitState.isTerminal] at he
  | verified _ hash by_op done nonzero from_state receipt =>
      simp [EffectJournalRecord.Settled, from_state, CommitState.isTerminal] at he
  | indeterminate _ message from_state =>
      rcases from_state with hs | hs <;>
        simp [EffectJournalRecord.Settled, hs, CommitState.isTerminal] at he

/-- A record that has left `Committing` does not come back to it. -/
theorem not_committing (h : Transition op key result (some e) slot')
    (he : e.state ≠ .committing) : ∃ e', slot' = some e' ∧ e'.state ≠ .committing := by
  cases h with
  | same => exact ⟨e, rfl, he⟩
  | receipted => exact ⟨_, rfl, nofun⟩
  | verified => exact ⟨_, rfl, nofun⟩
  | indeterminate => exact ⟨_, rfl, nofun⟩

end Transition

/-! ## Whole runs -/

section Runs

variable {l l' : DurableLedger} {ops : List LedgerOp} {key : String} {e : EffectJournalRecord}

theorem DurableLedger.Step.transition {op : LedgerOp} (h : l.Step op l') (key : String) :
    Transition op key (op.exec l).1 (l.effect key) (l'.effect key) := by
  rw [h]
  exact exec_transition l op key

/-- What every transition keeps of a record, every run keeps. -/
theorem effect_of_run {P : EffectJournalRecord → Prop} (h : Run DurableLedger.Step l ops l')
    (hP : ∀ {op result e slot'}, Transition op key result (some e) slot' → P e →
      ∃ e', slot' = some e' ∧ P e') (he : l.effect key = some e) (hPe : P e) :
    ∃ e', l'.effect key = some e' ∧ P e' := by
  refine h.preserves (P := fun l => ∃ e, l.effect key = some e ∧ P e) ?_ ⟨e, he, hPe⟩
  rintro a op b ⟨e, he, hPe⟩ hstep
  have htrans := hstep.transition key
  rw [he] at htrans
  exact hP htrans hPe

/-- **A key is never rebound.** -/
theorem effect_bound (h : Run DurableLedger.Step l ops l') (he : l.effect key = some e) :
    ∃ e', l'.effect key = some e' ∧ e'.effectId = e.effectId ∧ e'.planDigest = e.planDigest := by
  refine effect_of_run (P := fun e' => e'.effectId = e.effectId ∧ e'.planDigest = e.planDigest)
    h (fun htrans hP => ?_) he ⟨rfl, rfl⟩
  obtain ⟨e', he', hid, hplan⟩ := htrans.bound
  exact ⟨e', he', hid.trans hP.1, hplan.trans hP.2⟩

/-- **A settled record never changes again.** -/
theorem effect_stable (h : Run DurableLedger.Step l ops l') (he : l.effect key = some e)
    (hsettled : e.Settled) : l'.effect key = some e := by
  obtain ⟨e', he', rfl⟩ := effect_of_run (P := fun e' => e' = e) h
    (fun htrans hP => ⟨e, htrans.settled (hP ▸ hsettled) |>.trans (by rw [hP]), rfl⟩) he rfl
  exact he'

theorem effect_not_committing (h : Run DurableLedger.Step l ops l') (he : l.effect key = some e)
    (hstate : e.state ≠ .committing) :
    ∃ e', l'.effect key = some e' ∧ e'.state ≠ .committing :=
  effect_of_run (P := fun e => e.state ≠ .committing) h (fun htrans => htrans.not_committing) he
    hstate

theorem effect_sound {root : WorldSnapshot} (h : Run DurableLedger.Step (.new root) ops l)
    (he : l.effect key = some e) : e.Sound := by
  refine h.preserves (P := fun l => ∀ e, l.effect key = some e → e.Sound) ?_ ?_ e he
  · intro a op b hsound hstep e he
    exact (hstep.transition key).sound hsound he
  · intro e he
    cases he

/-- The receipt of a record was recorded by an operation of the run. -/
theorem receipt_recorded {root : WorldSnapshot} {receipt : Digest32}
    (h : Run DurableLedger.Step (.new root) ops l) (he : l.effect key = some e)
    (hreceipt : e.receiptDigest = some receipt) :
    ∃ before after a, ops = before ++ .recordCommitReceipt key receipt :: after ∧
      Run DurableLedger.Step (.new root) before a ∧
      (a.recordCommitReceipt key receipt).1 = .ok () := by
  obtain ⟨before, op, after, a, b, rfl, hbefore, hnot, hstep, ⟨e, he, hreceipt⟩, -⟩ :=
    h.exists_step (P := fun l => ∃ e, l.effect key = some e ∧ e.receiptDigest = some receipt)
      (by rintro ⟨e, he, -⟩; cases he) ⟨e, he, hreceipt⟩
  have htrans := hstep.transition key
  rw [he] at htrans
  generalize hslot : a.effect key = slot at htrans hnot
  cases htrans with
  | same => exact absurd ⟨e, rfl, hreceipt⟩ hnot
  | dispatched effectId planDigest tick by_op => cases hreceipt
  | receipted _ digest by_op done from_state =>
      cases hreceipt
      subst by_op
      exact ⟨before, after, a, rfl, hbefore, done⟩
  | verified old hash by_op done nonzero from_state _ => exact absurd ⟨old, rfl, hreceipt⟩ hnot
  | indeterminate old message from_state => exact absurd ⟨old, rfl, hreceipt⟩ hnot

/-- **A verified effect** was given a receipt and later verified against a nonzero hash. -/
theorem verified_after_receipt {root : WorldSnapshot}
    (h : Run DurableLedger.Step (.new root) ops l) (he : l.effect key = some e)
    (hstate : e.state = .verified) :
    ∃ receipt hash before between after a b,
      ops = before ++ .recordCommitReceipt key receipt ::
        (between ++ .recordVerified key hash :: after) ∧
      e.receiptDigest = some receipt ∧ e.observedStateHash = some hash ∧ hash ≠ Digest32.zero ∧
      Run DurableLedger.Step (.new root) before a ∧
      (a.recordCommitReceipt key receipt).1 = .ok () ∧
      Run DurableLedger.Step (.new root)
        (before ++ .recordCommitReceipt key receipt :: between) b ∧
      (b.recordVerified key hash).1 = .ok () := by
  obtain ⟨before, op, after, a, b, rfl, hbefore, hnot, hstep, ⟨e', he', hstate'⟩, hafter⟩ :=
    h.exists_step (P := fun l => ∃ e, l.effect key = some e ∧ e.state = .verified)
      (by rintro ⟨e, he, -⟩; cases he) ⟨e, he, hstate⟩
  -- a verified record is settled, so the record at the end is the one this step left
  have hsame : l.effect key = some e' :=
    effect_stable hafter he' (.inl (by rw [hstate']; rfl))
  cases he.symm.trans hsame
  have htrans := hstep.transition key
  rw [he'] at htrans
  generalize hslot : a.effect key = slot at htrans hnot
  cases htrans with
  | same => exact absurd ⟨e, rfl, hstate⟩ hnot
  | dispatched => cases hstate
  | receipted => cases hstate
  | indeterminate => cases hstate
  | verified old hash by_op done nonzero from_state receipt =>
      obtain ⟨digest, hdigest⟩ := Option.ne_none_iff_exists'.1 receipt
      obtain ⟨first, between, c, rfl, hfirst, hdone⟩ := receipt_recorded hbefore hslot hdigest
      subst by_op
      exact ⟨digest, hash, first, between, after, c, a, by simp, hdigest, rfl, nonzero, hfirst,
        hdone, hbefore, done⟩

/-! ## Repeated calls -/

/-- An attempt under a bound key records nothing. -/
theorem recordDispatchAttempt_of_bound (he : l.effect key = some e) (effectId : String)
    (planDigest : Digest32) (tick : GameTick) :
    (l.recordDispatchAttempt effectId key planDigest tick).2 = l := by
  unfold DurableLedger.recordDispatchAttempt
  rw [DurableLedger.effect] at he
  rw [he]
  split
  · rfl
  · dsimp only
    split <;> rfl

theorem recordCommitReceipt_of_not_committing (he : l.effect key = some e)
    (hstate : e.state ≠ .committing) (receipt : Digest32) :
    (l.recordCommitReceipt key receipt).2 = l := by
  unfold DurableLedger.recordCommitReceipt
  rw [DurableLedger.effect] at he
  rw [he]
  dsimp only
  split
  · rfl
  · rfl

theorem recordVerified_of_settled (he : l.effect key = some e) (hsettled : e.Settled)
    (hash : Digest32) : (l.recordVerified key hash).2 = l := by
  have hstate : e.state ≠ .appliedAwaitingVerification := by
    intro hstate
    simp [EffectJournalRecord.Settled, hstate, CommitState.isTerminal] at hsettled
  unfold DurableLedger.recordVerified
  rw [DurableLedger.effect] at he
  rw [he]
  dsimp only
  split
  · rfl
  · split
    · rfl
    · rw [if_pos (.inl hstate)]

theorem recordIndeterminate_of_settled (he : l.effect key = some e) (hsettled : e.Settled)
    (message : String) : (l.recordIndeterminate key message).2 = l := by
  have hstate : ¬ (e.state = .committing ∨ e.state = .appliedAwaitingVerification) := by
    rintro (hstate | hstate) <;>
      simp [EffectJournalRecord.Settled, hstate, CommitState.isTerminal] at hsettled
  unfold DurableLedger.recordIndeterminate
  rw [DurableLedger.effect] at he
  rw [he]
  dsimp only
  split
  · rfl
  · split
    · rfl
    · rfl

/-- A successful attempt leaves its key bound. -/
theorem bound_of_recordDispatchAttempt {effectId : String} {planDigest : Digest32}
    {tick : GameTick} (h : (l.recordDispatchAttempt effectId key planDigest tick).1 = .ok ()) :
    ∃ e, (l.recordDispatchAttempt effectId key planDigest tick).2.effect key = some e := by
  generalize hr : l.recordDispatchAttempt effectId key planDigest tick = r at h ⊢
  unfold DurableLedger.recordDispatchAttempt at hr
  split at hr
  · subst hr
    cases h
  · split at hr
    · rename_i e he
      split at hr <;> subst hr
      · exact ⟨e, he⟩
      · cases h
    · split at hr <;> subst hr
      · cases h
      · exact ⟨_, by rw [effect_putEffect, if_pos rfl]⟩

/-- A successful receipt leaves its record past `Committing`. -/
theorem not_committing_of_recordCommitReceipt {receipt : Digest32}
    (h : (l.recordCommitReceipt key receipt).1 = .ok ()) :
    ∃ e, (l.recordCommitReceipt key receipt).2.effect key = some e ∧ e.state ≠ .committing := by
  generalize hr : l.recordCommitReceipt key receipt = r at h ⊢
  unfold DurableLedger.recordCommitReceipt at hr
  split at hr
  · subst hr
    cases h
  · rename_i e he
    split at hr
    · rename_i hsame
      subst hr
      refine ⟨e, he, ?_⟩
      rcases hsame.1 with hstate | hstate <;> simp [hstate]
    · split at hr <;> subst hr
      · cases h
      · refine ⟨_, by rw [effect_putEffect, if_pos rfl], ?_⟩
        nofun

theorem settled_of_recordVerified {hash : Digest32}
    (h : (l.recordVerified key hash).1 = .ok ()) :
    ∃ e, (l.recordVerified key hash).2.effect key = some e ∧ e.Settled := by
  generalize hr : l.recordVerified key hash = r at h ⊢
  unfold DurableLedger.recordVerified at hr
  split at hr
  · subst hr
    cases h
  · split at hr
    · subst hr
      cases h
    · rename_i e he
      split at hr
      · rename_i hsame
        subst hr
        exact ⟨e, he, .inl (by rw [hsame.1]; rfl)⟩
      · split at hr <;> subst hr
        · cases h
        · exact ⟨_, by rw [effect_putEffect, if_pos rfl], .inl rfl⟩

theorem settled_of_recordIndeterminate {message : String}
    (h : (l.recordIndeterminate key message).1 = .ok ()) :
    ∃ e, (l.recordIndeterminate key message).2.effect key = some e ∧ e.Settled := by
  generalize hr : l.recordIndeterminate key message = r at h ⊢
  unfold DurableLedger.recordIndeterminate at hr
  split at hr
  · subst hr
    cases h
  · split at hr
    · subst hr
      cases h
    · rename_i e he
      split at hr
      · rename_i hsame
        subst hr
        exact ⟨e, he, .inr hsame.1⟩
      · split at hr <;> subst hr
        · cases h
        · exact ⟨_, by rw [effect_putEffect, if_pos rfl], .inr rfl⟩

/-- **A recording that succeeded once changes nothing when it is repeated**, however much later. -/
theorem record_again {op : LedgerOp} (hop : op.IsRecord) (hok : (op.exec l).1 = .ok ())
    (h : Run DurableLedger.Step (op.exec l).2 ops l') : (op.exec l').2 = l' := by
  cases op with
  | stageCapsule | publishStaged | abortStaged | recoverFromCrash => cases hop
  | recordDispatchAttempt effectId key planDigest tick =>
      obtain ⟨e, he⟩ := bound_of_recordDispatchAttempt hok
      obtain ⟨e', he', -⟩ := effect_bound h he
      exact recordDispatchAttempt_of_bound he' effectId planDigest tick
  | recordCommitReceipt key receipt =>
      obtain ⟨e, he, hstate⟩ := not_committing_of_recordCommitReceipt hok
      obtain ⟨e', he', hstate'⟩ := effect_not_committing h he hstate
      exact recordCommitReceipt_of_not_committing he' hstate' receipt
  | recordVerified key hash =>
      obtain ⟨e, he, hsettled⟩ := settled_of_recordVerified hok
      exact recordVerified_of_settled (effect_stable h he hsettled) hsettled hash
  | recordIndeterminate key message =>
      obtain ⟨e, he, hsettled⟩ := settled_of_recordIndeterminate hok
      exact recordIndeterminate_of_settled (effect_stable h he hsettled) hsettled message

/-! ## Recovery -/

theorem recoverEffect_recoverEffect (e : EffectJournalRecord) :
    DurableLedger.recoverEffect (DurableLedger.recoverEffect e) =
      DurableLedger.recoverEffect e := by
  unfold DurableLedger.recoverEffect
  split
  · simp
  · rfl

theorem recoverFromCrash_recoverFromCrash (l : DurableLedger) :
    l.recoverFromCrash.recoverFromCrash = l.recoverFromCrash := by
  have heffects : l.recoverFromCrash.recoverFromCrash.effects = l.recoverFromCrash.effects := by
    refine OMap.ext_get? fun key => ?_
    change l.recoverFromCrash.recoverFromCrash.effect key = l.recoverFromCrash.effect key
    rw [effect_recoverFromCrash, effect_recoverFromCrash, Option.map_map]
    congr 1
    exact funext recoverEffect_recoverEffect
  simpa [DurableLedger.recoverFromCrash] using heffects

/-- After recovery no dispatch is under way: what was in flight is indeterminate. -/
theorem Sound.not_committing_recoverEffect (he : e.Sound) :
    (DurableLedger.recoverEffect e).state ≠ .committing := by
  unfold DurableLedger.recoverEffect
  split
  · nofun
  · rename_i h
    intro hstate
    obtain ⟨htick, hreceipt⟩ := he.committing hstate
    exact h ⟨hstate, Option.isSome_iff_ne_none.2 htick, Option.isNone_iff_eq_none.2 hreceipt⟩

/-- **The effect journal**, from any ledger a run of operations reaches:

* the effect and plan of a bound key stay what they are;
* a verified effect has a receipt recorded before its verification, and a nonzero hash;
* a terminal or indeterminate record stays as it is;
* recovery is idempotent; an effect in flight becomes indeterminate, and no record known at the
  time of the recovery is dispatched after it;
* a recording that succeeded changes nothing when it is repeated. -/
theorem effect_journal {root : WorldSnapshot} (h : Run DurableLedger.Step (.new root) ops l) :
    (∀ key e, l.effect key = some e → ∀ later l', Run DurableLedger.Step l later l' →
      ∃ e', l'.effect key = some e' ∧ e'.effectId = e.effectId ∧ e'.planDigest = e.planDigest) ∧
    (∀ key e, l.effect key = some e → e.state = .verified →
      ∃ receipt hash before between after a b,
        ops = before ++ .recordCommitReceipt key receipt ::
          (between ++ .recordVerified key hash :: after) ∧
        e.receiptDigest = some receipt ∧ e.observedStateHash = some hash ∧
        hash ≠ Digest32.zero ∧
        Run DurableLedger.Step (.new root) before a ∧
        (a.recordCommitReceipt key receipt).1 = .ok () ∧
        Run DurableLedger.Step (.new root)
          (before ++ .recordCommitReceipt key receipt :: between) b ∧
        (b.recordVerified key hash).1 = .ok ()) ∧
    (∀ key e, l.effect key = some e → e.Settled → ∀ later l',
      Run DurableLedger.Step l later l' → l'.effect key = some e) ∧
    (l.recoverFromCrash.recoverFromCrash = l.recoverFromCrash ∧
      ∀ key e, l.effect key = some e →
        (∃ e', l.recoverFromCrash.effect key = some e' ∧
          (e.state = .committing → e'.state = .indeterminate)) ∧
        ∀ later l', Run DurableLedger.Step l.recoverFromCrash later l' →
          (∃ e', l'.effect key = some e' ∧ e'.state ≠ .committing) ∧
          ∀ effectId planDigest tick,
            (l'.recordDispatchAttempt effectId key planDigest tick).2 = l') ∧
    (∀ op : LedgerOp, op.IsRecord → (op.exec l).1 = .ok () → ∀ later l',
      Run DurableLedger.Step (op.exec l).2 later l' → (op.exec l').2 = l') := by
  refine ⟨fun key e he later l' hrun => effect_bound hrun he,
    fun key e he hstate => verified_after_receipt h he hstate,
    fun key e he hsettled later l' hrun => effect_stable hrun he hsettled,
    ⟨recoverFromCrash_recoverFromCrash l, fun key e he => ?_⟩,
    fun op hop hok later l' hrun => record_again hop hok hrun⟩
  have hsound := effect_sound h he
  have hrec : l.recoverFromCrash.effect key = some (DurableLedger.recoverEffect e) := by
    rw [effect_recoverFromCrash, he, Option.map_some]
  refine ⟨⟨_, hrec, fun hstate => ?_⟩, fun later l' hrun => ?_⟩
  · obtain ⟨htick, hreceipt⟩ := hsound.committing hstate
    rw [DurableLedger.recoverEffect, if_pos ⟨hstate, Option.isSome_iff_ne_none.2 htick,
      Option.isNone_iff_eq_none.2 hreceipt⟩]
  · obtain ⟨e', he', hstate'⟩ :=
      effect_not_committing hrun hrec (Sound.not_committing_recoverEffect hsound)
    exact ⟨⟨e', he', hstate'⟩,
      fun effectId planDigest tick => recordDispatchAttempt_of_bound he' effectId planDigest tick⟩

/-- The record of an effect that was dispatched, acknowledged and verified stays as it is. -/
theorem effect_journal_full_run :
    ∃ l : DurableLedger,
      Run DurableLedger.Step (.new (Sample.snapshot 0 .empty))
        [.recordDispatchAttempt "dig" "dig-1" Digest32.zero 3,
          .recordCommitReceipt "dig-1" Digest32.zero,
          .recordVerified "dig-1" (Digest32.ofBytes [])] l ∧
      ∀ later l', Run DurableLedger.Step l later l' →
        l'.effect "dig-1" = some ⟨"dig", "dig-1", Digest32.zero, .verified, some 3,
          some Digest32.zero, some (Digest32.ofBytes []), none⟩ := by
  refine ⟨_, .cons rfl (.cons rfl (.cons rfl (.nil _))), ?_⟩
  obtain ⟨-, -, hstable, -⟩ := effect_journal (.cons rfl (.cons rfl (.cons rfl (.nil _))))
  exact hstable "dig-1" _ (by decide +kernel) (.inl rfl)

end Runs

end Dfmcp
