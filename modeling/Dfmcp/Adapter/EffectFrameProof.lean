import Dfmcp.Adapter.EffectJournal
import Dfmcp.World.CanonicalDecodeProof

/-!
# Frames of the effect journal

What is written for a record is read back as that record, but for a receipt whose digest is all
zero bytes: it is written as an absent receipt is. A frame is read from its own bytes alone, and any
proper part of its front is torn.

* `decodeFrame_frame` — what a frame is read as;
* `local_readFrame` — reading a frame does not depend on what follows it;
* `readFrame_frame_iff` — when a frame that was written is accepted again;
* `readFrame_torn` — a frame cut anywhere is an incomplete one.
-/

namespace Dfmcp

open Machine Wire FrameLog

/-! ## Validity -/

namespace EffectJournal

variable {prior : Option DurablePauseRecord} {r : DurablePauseRecord}

theorem validateKey_ok {key : String} (h : validateKey key = .ok ()) :
    key ≠ "" ∧ strLen key ≤ maxKeyBytes ∧ key.toList.any isControl = false := by
  rw [validateKey] at h
  split at h
  · cases h
  · rename_i hkey
    simp only [not_or, not_lt, Bool.not_eq_true] at hkey
    exact hkey

/-- What a valid transition has checked. -/
theorem validateTransition_ok_iff : validateTransition prior r = .ok () ↔
    validateKey r.idempotencyKey = .ok () ∧
    ¬ (r.bridgeGeneration = 0 ∨ r.bridgeGeneration = U.max 64 ∨ r.prepareToken = .zero ∨
      r.transitionNumber = 0 ∨ r.previousDigest = .zero) ∧
    prior.elim (validateFirst r) (fun previous => validateSuccessor previous r) = .ok () ∧
    validateOutcome r = .ok () := by
  rw [validateTransition, check_ok_iff, guard_ok_iff]
  cases prior with
  | none => simp only [check_ok_iff, Option.elim]
  | some previous => simp only [check_ok_iff, Option.elim]

theorem validateFirst_ok (h : validateFirst r = .ok ()) :
    r.revision = 1 ∧ r.state = .prepared := by
  rw [validateFirst] at h
  split at h
  · cases h
  · rename_i hclean
    simp only [not_or, not_not] at hclean
    exact ⟨hclean.1, hclean.2.1⟩

/-- Two records of one effect. -/
structure SameIdentity (a b : DurablePauseRecord) : Prop where
  idempotencyKey : b.idempotencyKey = a.idempotencyKey
  planDigest : b.planDigest = a.planDigest
  desiredPaused : b.desiredPaused = a.desiredPaused
  expectedGameTick : b.expectedGameTick = a.expectedGameTick
  bridgeGeneration : b.bridgeGeneration = a.bridgeGeneration
  prepareToken : b.prepareToken = a.prepareToken

theorem SameIdentity.refl (a : DurablePauseRecord) : SameIdentity a a := ⟨rfl, rfl, rfl, rfl, rfl, rfl⟩

theorem SameIdentity.trans {a b c : DurablePauseRecord} (h : SameIdentity a b)
    (h' : SameIdentity b c) : SameIdentity a c :=
  ⟨h'.1.trans h.1, h'.2.trans h.2, h'.3.trans h.3, h'.4.trans h.4, h'.5.trans h.5, h'.6.trans h.6⟩

theorem validateSuccessor_ok {previous : DurablePauseRecord}
    (h : validateSuccessor previous r = .ok ()) :
    SameIdentity previous r ∧ previous.state.allows r.state = true := by
  rw [validateSuccessor] at h
  cases hrevision : U.checkedAdd previous.revision 1 with
  | none =>
      rw [hrevision] at h
      cases h
  | some revision =>
      simp only [hrevision] at h
      split at h
      · cases h
      · rename_i hidentity
        split at h
        · cases h
        · rename_i hallowed
          simp only [not_or, not_not] at hidentity
          obtain ⟨-, hkey, hplan, hpaused, htick, hgeneration, htoken⟩ := hidentity
          exact ⟨⟨hkey, hplan, hpaused, htick, hgeneration, htoken⟩, by simpa using hallowed⟩

/-- A terminal state allows nothing. -/
theorem terminal_allows {a b : DurablePauseState} (h : a.allows b = true) : a.terminal = false := by
  cases a with
  | prepared => rfl
  | commitStarted => rfl
  | indeterminate => rfl
  | verifiedApplied => cases h
  | verifiedNotApplied => cases h
  | cancelledBeforeDispatch => cases h

/-- Only a prepared effect is started. -/
theorem prepared_of_allows {a : DurablePauseState} (h : a.allows .commitStarted = true) :
    a = .prepared := by
  cases a with
  | prepared => rfl
  | commitStarted => cases h
  | indeterminate => cases h
  | verifiedApplied => cases h
  | verifiedNotApplied => cases h
  | cancelledBeforeDispatch => cases h

/-- No effect goes back to prepared. -/
theorem not_allows_prepared (a : DurablePauseState) : a.allows .prepared = false := by
  cases a <;> rfl

/-- Evidence is whole, or absent. -/
theorem validateOutcome_observed (h : validateOutcome r = .ok ()) :
    r.observedGameTick.isSome = r.observedPaused.isSome := by
  rw [validateOutcome] at h
  split at h
  · split at h
    · cases h
    · rename_i hwhole
      simp only [not_or, Option.isNone_iff_eq_none, ← ne_eq, Option.ne_none_iff_isSome] at hwhole
      rw [hwhole.2.1, hwhole.2.2.1]
  · split at h
    · cases h
    · rename_i habsent
      simp only [not_or, Bool.not_eq_true] at habsent
      rw [habsent.2.2.1, habsent.2.2.2.1]

/-- Only an effect that is verified as applied is one. -/
theorem validateOutcome_applied (h : validateOutcome r = .ok ()) :
    r.effectApplied = decide (r.state = .verifiedApplied) := by
  rw [validateOutcome] at h
  split at h
  · split at h
    · cases h
    · rename_i hwhole
      simp only [not_or, not_not] at hwhole
      exact hwhole.2.2.2
  · rename_i hstate
    split at h
    · cases h
    · rename_i habsent
      simp only [not_or, Bool.not_eq_true] at habsent
      rw [habsent.2.1]
      exact (decide_eq_false fun heq => hstate (.inl heq)).symm

end EffectJournal

/-! ## What is read back -/

/-- The record as its frame holds it: a zero receipt is no receipt. -/
def DurablePauseRecord.stored (r : DurablePauseRecord) (recordDigest : Digest32) :
    DurablePauseRecord :=
  { r with
    receiptDigest := if r.receiptDigest = some .zero then none else r.receiptDigest
    recordDigest }

namespace EffectJournal

variable {prior : Option DurablePauseRecord} {r : DurablePauseRecord}

/-- **When a stored record is still valid**: unless it verifies an applied effect by a zero
receipt. -/
theorem validateTransition_stored_iff (h : validateTransition prior r = .ok ()) (digest : Digest32) :
    validateTransition prior (r.stored digest) = .ok () ↔
      ¬ (r.effectApplied = true ∧ r.receiptDigest = some .zero) := by
  by_cases hzero : r.receiptDigest = some .zero
  · rw [validateTransition_ok_iff] at h ⊢
    obtain ⟨hkey, hidentity, hprior, houtcome⟩ := h
    have happlied := validateOutcome_applied houtcome
    have hfirst : prior.elim (validateFirst (r.stored digest))
        (fun previous => validateSuccessor previous (r.stored digest)) = .ok () := by
      cases prior with
      | some previous => exact hprior
      | none =>
          change validateFirst r = .ok () at hprior
          rw [validateFirst] at hprior
          split at hprior
          · cases hprior
          · rename_i hclean
            exact absurd (.inr (.inr (.inr (.inr (.inr (.inr (by rw [hzero]; rfl))))))) hclean
    have hstored : validateOutcome (r.stored digest) = .ok () ↔ r.effectApplied = false := by
      rw [validateOutcome] at houtcome ⊢
      simp only [DurablePauseRecord.stored, hzero, Option.isNone_none, Option.isSome_none,
        Option.isNone_some, Option.isSome_some, if_true] at houtcome ⊢
      split at houtcome
      · rename_i hverified
        rw [if_pos hverified]
        split at houtcome
        · cases houtcome
        · rename_i hwhole
          rw [if_neg hwhole]
          cases r.effectApplied <;> simp
      · split at houtcome
        · cases houtcome
        · rename_i habsent
          exact absurd (.inr (.inr (.inr (.inr trivial)))) habsent
    rw [hstored]
    constructor
    · intro hvalid happlied
      rw [hvalid.2.2.2] at happlied
      cases happlied.1
    · intro hunapplied
      refine ⟨hkey, hidentity, hfirst, ?_⟩
      cases hvalue : r.effectApplied with
      | false => rfl
      | true => exact absurd ⟨hvalue, hzero⟩ hunapplied
  · have hsame : r.stored digest = { r with recordDigest := digest } := by
      rw [DurablePauseRecord.stored, if_neg hzero]
    rw [hsame]
    exact iff_of_true h fun hboth => hzero hboth.2

/-! ## Reading a record -/

namespace Read

variable {c : Prop}

theorem parses_take {bs : Bytes} {n : Nat} (h : bs.length = n) : Parses c (take n) bs bs := by
  subst h
  exact Parses.take _ bs

theorem take_append {bs : Bytes} {n : Nat} (h : bs.length = n) (rest : Bytes) :
    take n (bs ++ rest) = .ok (bs, rest) := by
  subst h
  simp [take, Wire.take]

theorem digest_append (d : Digest32) (rest : Bytes) : digest (d.bytes ++ rest) = .ok (d, rest) := by
  rw [digest, run_bind, take_append d.length_eq]
  change Except.ok (Digest32.fromBytes d.bytes, rest) = _
  rw [show Digest32.fromBytes d.bytes = d from dif_pos d.length_eq]

theorem parses_byte (b : UInt8) : Parses c byte [b] b := (parses_take rfl).bind_pure

theorem parses_boolean (b : Bool) : Parses c boolean [putBool b] b := by
  refine (parses_byte (putBool b)).bind_nil ?_
  cases b <;> exact Parses.pure _

theorem parses_u64 (x : U 64) : Parses c u64 (beBytes 8 x.val) x := by
  have hread := (parses_take (c := c) (length_beBytes 8 x.val)).bind_pure
    (f := fun raw => (U.wrap (ofBe raw) : U 64))
  have hvalue : (U.wrap (ofBe (beBytes 8 x.val)) : U 64) = x := by
    rw [ofBe_beBytes]
    apply Fin.ext
    simp only [U.wrap]
    omega
  rwa [hvalue] at hread

theorem parses_digest (d : Digest32) : Parses c digest d.bytes d := by
  have hread := (parses_take (c := c) d.length_eq).bind_pure (f := Digest32.fromBytes)
  rwa [show Digest32.fromBytes d.bytes = d from dif_pos d.length_eq] at hread

theorem parses_prepareToken (t : PrepareToken) : Parses c prepareToken t.bytes t := by
  have hread := (parses_take (c := c) t.length_eq).bind_pure (f := PrepareToken.fromBytes)
  rwa [show PrepareToken.fromBytes t.bytes = t from dif_pos t.length_eq] at hread

theorem parses_state (s : DurablePauseState) : Parses c state [s.tag] s := by
  refine (parses_byte s.tag).bind_nil ?_
  cases s <;> exact Parses.pure _

theorem parses_observedPaused (o : Option Bool) :
    Parses c observedPaused [putObservedPaused o] o := by
  refine (parses_byte (putObservedPaused o)).bind_nil ?_
  rcases o with - | - | - <;> exact Parses.pure _

theorem parses_text {key : String} (h : validateKey key = .ok ()) :
    Parses c (text maxKeyBytes) (beBytes 2 (strLen key) ++ utf8 key) key := by
  obtain ⟨hne, hshort, hcontrol⟩ := validateKey_ok h
  have hcount : ofBe (beBytes 2 (strLen key)) = strLen key := by
    rw [ofBe_beBytes]
    apply Nat.mod_eq_of_lt
    unfold maxKeyBytes at hshort
    omega
  have hpos : strLen key ≠ 0 := by
    intro hzero
    have hempty := fromUtf8_utf8 key
    rw [List.length_eq_zero_iff.1 hzero] at hempty
    exact hne (Option.some.inj hempty).symm
  refine (parses_take (length_beBytes 2 _)).bind ?_
  rw [hcount, if_neg (by omega)]
  refine (parses_take rfl).bind_nil ?_
  rw [fromUtf8_utf8]
  change Parses c (if key.toList.any isControl then _ else pure key) [] key
  rw [hcontrol]
  exact Parses.pure key

/-- A body is read as the record it was written for, as the frame holds it. -/
theorem parses_record {r : DurablePauseRecord} (hkey : validateKey r.idempotencyKey = .ok ())
    (hobserved : r.observedGameTick.isSome = r.observedPaused.isSome) (digest : Digest32) :
    ParsesAll c (Read.record digest) (body r) (r.stored digest) := by
  have hraw : ¬ (r.observedPaused.isNone = true ∧ r.observedGameTick.getD 0 ≠ 0) := by
    intro habsent
    cases htick : r.observedGameTick with
    | none => exact habsent.2 (by rw [htick]; rfl)
    | some tick =>
        rw [htick] at hobserved
        rw [Option.isNone_iff_eq_none] at habsent
        rw [habsent.1] at hobserved
        cases hobserved
  have htick : (r.observedPaused.map fun _ => r.observedGameTick.getD 0) = r.observedGameTick := by
    cases hpaused : r.observedPaused <;> cases htick : r.observedGameTick <;>
      simp_all
  have hreceipt : (if r.receiptDigest.getD .zero ≠ .zero then some (r.receiptDigest.getD .zero)
      else none) = if r.receiptDigest = some .zero then none else r.receiptDigest := by
    cases r.receiptDigest with
    | none => simp
    | some receipt => by_cases hzero : receipt = .zero <;> simp [hzero]
  rw [body, ← List.append_assoc (beBytes 2 (strLen r.idempotencyKey))]
  refine (parses_u64 _).bind_all ((parses_digest _).bind_all ((parses_u64 _).bind_all
    ((parses_text hkey).bind_all ((parses_digest _).bind_all ((parses_boolean _).bind_all
    ((parses_u64 _).bind_all ((parses_u64 _).bind_all ((parses_state _).bind_all
    ((parses_prepareToken _).bind_all ((parses_boolean _).bind_all ((parses_boolean _).bind_all
    ((parses_observedPaused _).bind_all ((parses_u64 _).bind_all
    ((parses_digest _).bind_all_nil ?_))))))))))))))
  rw [if_neg hraw]
  intro _
  left
  rw [htick, hreceipt]
  rfl

end Read

/-! ## Frames -/

theorem length_body (r : DurablePauseRecord) : (body r).length = 159 + strLen r.idempotencyKey := by
  simp only [body, List.length_append, length_beBytes, Digest32.length_eq, PrepareToken.length_eq,
    List.length_singleton, strLen]
  omega

theorem body_bounds {r : DurablePauseRecord} (h : validateKey r.idempotencyKey = .ok ()) :
    minBodyBytes ≤ (body r).length ∧ (body r).length ≤ maxBodyBytes := by
  have hshort := (validateKey_ok h).2.1
  rw [length_body]
  unfold minBodyBytes maxBodyBytes
  unfold maxKeyBytes at hshort
  omega

theorem length_record : record.length = 8 := by decide
/-- The front of a frame up to its body. -/
def frameHeader (id : Digest32) (bodyLength : Nat) : Bytes :=
  record ++ beBytes 4 bodyLength ++ (frameHeaderHash id (record ++ beBytes 4 bodyLength)).bytes

/-- The bytes of a frame that its digest covers. -/
def covered (id : Digest32) (r : DurablePauseRecord) : Bytes :=
  frameHeader id (body r).length ++ body r

/-- The frame of a record. -/
def frame (id : Digest32) (r : DurablePauseRecord) : Bytes :=
  covered id r ++ (frameHash id (covered id r)).bytes ++ footer

theorem encodeFrame_eq {id : Digest32} {r : DurablePauseRecord}
    (h : validateKey r.idempotencyKey = .ok ()) : encodeFrame id r = .ok (frame id r) := by
  rw [encodeFrame, if_neg (not_lt.2 (body_bounds h).2)]
  rfl

theorem length_frameHeader (id : Digest32) (n : Nat) :
    (frameHeader id n).length = frameHeaderBytes := by
  simp only [frameHeader, List.length_append, length_record, length_beBytes, Digest32.length_eq]
  rfl

theorem length_frame (id : Digest32) (r : DurablePauseRecord) :
    (frame id r).length = frameLength (body r).length := by
  simp only [frame, covered, List.length_append, length_frameHeader, Digest32.length_eq, frameLength]

theorem decodeFrameHeader_frameHeader {id : Digest32} {n : Nat}
    (h : minBodyBytes ≤ n ∧ n ≤ maxBodyBytes) :
    decodeFrameHeader (frameHeader id n) id = .ok n := by
  have hmarker : (record ++ beBytes 4 n).length = 12 := by
    rw [List.length_append, length_record, length_beBytes]
  have hcount : ofBe (((frameHeader id n).drop 8).take 4) = n := by
    have htake : ((frameHeader id n).drop 8).take 4 = beBytes 4 n := by
      rw [frameHeader, List.append_assoc, List.drop_left' length_record,
        List.take_left' (length_beBytes 4 n)]
    have hsmall : n < 256 ^ 4 := by
      unfold maxBodyBytes at h
      omega
    rw [htake, ofBe_beBytes, Nat.mod_eq_of_lt hsmall]
  have hrecord : (frameHeader id n).take 8 = record := by
    rw [frameHeader, List.append_assoc, List.take_left' length_record]
  have htake : (frameHeader id n).take 12 = record ++ beBytes 4 n := by
    rw [frameHeader, List.take_left' hmarker]
  have hdigest : ((frameHeader id n).drop 12).take 32 =
      (frameHeaderHash id (record ++ beBytes 4 n)).bytes := by
    rw [frameHeader, List.drop_left' hmarker]
    exact List.take_of_length_le (Digest32.length_eq _).le
  rw [decodeFrameHeader]
  simp only [hcount, htake, hdigest]
  rw [if_neg (by rw [length_frameHeader, hrecord]; simp), if_neg (by simpa using h)]

/-- **What a frame is read as.** -/
theorem decodeFrame_frame {id : Digest32} {r : DurablePauseRecord}
    (hkey : validateKey r.idempotencyKey = .ok ())
    (hobserved : r.observedGameTick.isSome = r.observedPaused.isSome) :
    decodeFrame (frame id r) id = .ok (r.stored (frameHash id (covered id r))) := by
  have hsplit : frame id r = frameHeader id (body r).length ++
      (body r ++ ((frameHash id (covered id r)).bytes ++ footer)) := by
    rw [frame, covered, List.append_assoc, List.append_assoc]
  have hcovered : (frame id r).take (frameHeaderBytes + (body r).length) = covered id r := by
    rw [frame, List.append_assoc, List.take_left']
    rw [covered, List.length_append, length_frameHeader]
  have hrecord : Read.record (frameHash id (covered id r)) (body r) =
      .ok (r.stored (frameHash id (covered id r)), []) := by
    have hshort : (body r).length < 2 ^ 64 := by
      have hbound := (body_bounds hkey).2
      unfold maxBodyBytes at hbound
      omega
    exact (Read.parses_record (c := True) hkey hobserved _ hshort).resolve_right fun h => h.1 trivial
  refine bind_ok_iff.2 ⟨_, hsplit ▸ Read.take_append (length_frameHeader id _) _, ?_⟩
  refine bind_ok_iff.2 ⟨_, decodeFrameHeader_frameHeader (body_bounds hkey), ?_⟩
  refine guard_ok_iff.2 ⟨not_not.2 (length_frame id r), ?_⟩
  refine bind_ok_iff.2 ⟨_, Read.take_append rfl _, ?_⟩
  refine bind_ok_iff.2 ⟨_, Read.digest_append _ _, ?_⟩
  refine bind_ok_iff.2 ⟨(footer, []), Read.take_append rfl [], ?_⟩
  refine guard_ok_iff.2 ⟨?_, bind_ok_iff.2 ⟨_, hrecord, rfl⟩⟩
  rw [hcovered]
  simp

end EffectJournal

/-! ## Reading frames -/

namespace JournalState

open EffectJournal

variable {s t : JournalState} {r : DurablePauseRecord} {bytes : Bytes} {n : Nat}

/-- What a replayed record has been checked for. -/
theorem acceptReplay_ok_iff : s.acceptReplay r = .ok t ↔
    ¬ ((!s.records.contains r.idempotencyKey) = true ∧ s.records.size ≥ maxEffects) ∧
    ¬ (r.recordDigest = .zero ∨ r.transitionNumber ≠ U.wrap (s.transitions + 1) ∨
      r.previousDigest ≠ s.head) ∧
    r.revision = nextRevision (s.records.get? r.idempotencyKey) ∧
    validateTransition (s.records.get? r.idempotencyKey) r = .ok () ∧
    t = { s with
      head := r.recordDigest
      transitions := s.transitions + 1
      records := s.records.insert r.idempotencyKey r } := by
  rw [acceptReplay, guard_ok_iff, guard_ok_iff, guard_ok_iff, check_ok_iff, pure_ok_iff, not_not,
    eq_comm (b := t)]

/-- What a frame that is read has been checked for. -/
theorem readFrame_ok_iff : s.readFrame bytes = .ok (.frame t n) ↔
    s.transitions < maxTransitions ∧ frameHeaderBytes ≤ bytes.length ∧
    ∃ bodyLength record accepted,
      decodeFrameHeader (bytes.take frameHeaderBytes) s.id = .ok bodyLength ∧
      frameLength bodyLength ≤ bytes.length ∧
      decodeFrame (bytes.take (frameLength bodyLength)) s.id = .ok record ∧
      s.acceptReplay record = .ok accepted ∧
      t = { accepted with length := accepted.length + frameLength bodyLength } ∧
      n = frameLength bodyLength := by
  rw [readFrame, guard_ok_iff, not_le]
  refine and_congr_right fun _ => ?_
  by_cases hshort : bytes.length < frameHeaderBytes
  · rw [if_pos hshort]
    refine iff_of_false ?_ fun h => absurd h.1 (not_le.2 hshort)
    intro h
    rw [guard_ok_iff, pure_ok_iff] at h
    cases h.2
  · rw [if_neg hshort, bind_ok_iff]
    rw [and_iff_right (not_lt.1 hshort)]
    refine exists_congr fun bodyLength => ?_
    constructor
    · intro h
      obtain ⟨hheader, h⟩ := h
      split at h
      · rw [pure_ok_iff] at h
        cases h
      · rename_i hlength
        obtain ⟨record, hrecord, h⟩ := bind_ok_iff.1 h
        obtain ⟨accepted, haccepted, h⟩ := bind_ok_iff.1 h
        rw [pure_ok_iff, Reading.frame.injEq] at h
        exact ⟨record, accepted, hheader, not_lt.1 hlength, hrecord, haccepted, h.1.symm, h.2.symm⟩
    · intro h
      obtain ⟨record, accepted, hheader, hlength, hrecord, haccepted, rfl, rfl⟩ := h
      refine ⟨hheader, ?_⟩
      rw [if_neg (not_lt.2 hlength)]
      exact bind_ok_iff.2 ⟨record, hrecord, bind_ok_iff.2 ⟨accepted, haccepted, rfl⟩⟩

theorem frameHeaderBytes_lt (bodyLength : Nat) : frameHeaderBytes < frameLength bodyLength := by
  unfold frameLength
  omega

/-- **A frame is read from its own bytes.** -/
theorem local_readFrame : Local readFrame where
  pos h := by
    obtain ⟨-, -, bodyLength, -, -, -, -, -, -, -, rfl⟩ := readFrame_ok_iff.1 h
    exact lt_of_le_of_lt (Nat.zero_le _) (frameHeaderBytes_lt bodyLength)
  le h := by
    obtain ⟨-, -, bodyLength, -, -, -, hlength, -, -, -, rfl⟩ := readFrame_ok_iff.1 h
    exact hlength
  stable h rest := by
    obtain ⟨htransitions, -, bodyLength, record, accepted, hheader, hlength, hrecord, haccepted,
      rfl, rfl⟩ := readFrame_ok_iff.1 h
    have hlong := (frameHeaderBytes_lt bodyLength).le
    have htaken := List.length_take_of_le hlength
    rw [readFrame_ok_iff]
    refine ⟨htransitions, ?_, bodyLength, record, accepted, ?_, ?_, ?_, haccepted, rfl, rfl⟩
    · rw [List.length_append, htaken]
      omega
    · rw [List.take_append_of_le_length (by omega), List.take_take, Nat.min_eq_left hlong]
      exact hheader
    · rw [List.length_append, htaken]
      omega
    · rw [List.take_left' htaken]
      exact hrecord

/-- Reading a frame counts its bytes. -/
theorem readFrame_length (h : s.readFrame bytes = .ok (.frame t n)) : t.length = s.length + n := by
  obtain ⟨-, -, _, _, accepted, -, -, -, haccepted, rfl, rfl⟩ := readFrame_ok_iff.1 h
  obtain ⟨-, -, -, -, rfl⟩ := acceptReplay_ok_iff.1 haccepted
  rfl

/-- Every record is filed under its own key. -/
def Keyed (s : JournalState) : Prop :=
  ∀ key r, s.records.get? key = some r → r.idempotencyKey = key

theorem keyed_empty (id headerDigest : Digest32) : (empty id headerDigest).Keyed := by
  intro key r h
  cases h

theorem keyed_insert (h : s.Keyed) {head : Digest32} {length transitions : Nat} :
    Keyed { s with
      head, length, transitions
      records := s.records.insert r.idempotencyKey r } := by
  intro key found hfound
  simp only [OMap.get?_insert] at hfound
  split at hfound
  · rename_i hkey
    cases hfound
    exact hkey.symm
  · exact h key found hfound

theorem readFrame_keyed (hs : s.Keyed) (h : s.readFrame bytes = .ok (.frame t n)) : t.Keyed := by
  obtain ⟨-, -, _, _, accepted, -, -, -, haccepted, rfl, rfl⟩ := readFrame_ok_iff.1 h
  obtain ⟨-, -, -, -, rfl⟩ := acceptReplay_ok_iff.1 haccepted
  exact keyed_insert hs

theorem readFrame_id (h : s.readFrame bytes = .ok (.frame t n)) : t.id = s.id := by
  obtain ⟨-, -, _, _, accepted, -, -, -, haccepted, rfl, rfl⟩ := readFrame_ok_iff.1 h
  obtain ⟨-, -, -, -, rfl⟩ := acceptReplay_ok_iff.1 haccepted
  rfl

/-! ## Frames that were written -/

/-- What appending a record checks. -/
structure Admits (s : JournalState) (r : DurablePauseRecord) : Prop where
  transitions : s.transitions < maxTransitions
  effects : ¬ ((!s.records.contains r.idempotencyKey) = true ∧ s.records.size ≥ maxEffects)
  numbered : r.transitionNumber = U.wrap (s.transitions + 1)
  chained : r.previousDigest = s.head
  revised : r.revision = nextRevision (s.records.get? r.idempotencyKey)
  valid : validateTransition (s.records.get? r.idempotencyKey) r = .ok ()
  fits : s.length + (frame s.id r).length ≤ maxLedgerBytes

/-- The digest of a record's frame. -/
def digestOf (s : JournalState) (r : DurablePauseRecord) : Digest32 := frameHash s.id (covered s.id r)

/-- The state after a record's frame. -/
def pushed (s : JournalState) (r : DurablePauseRecord) : JournalState :=
  { s with
    head := s.digestOf r
    length := s.length + (frame s.id r).length
    transitions := s.transitions + 1
    records := s.records.insert r.idempotencyKey (r.stored (s.digestOf r)) }

namespace Admits

theorem key (h : s.Admits r) : validateKey r.idempotencyKey = .ok () :=
  (validateTransition_ok_iff.1 h.valid).1

theorem decodeFrame (h : s.Admits r) :
    decodeFrame (frame s.id r) s.id = .ok (r.stored (s.digestOf r)) :=
  decodeFrame_frame h.key (validateOutcome_observed (validateTransition_ok_iff.1 h.valid).2.2.2)

/-- The header of a frame, whatever follows it. -/
theorem decodeFrameHeader (h : s.Admits r) (rest : Bytes) :
    decodeFrameHeader ((frame s.id r ++ rest).take frameHeaderBytes) s.id =
      .ok (body r).length := by
  have hsplit : frame s.id r ++ rest = frameHeader s.id (body r).length ++
      (body r ++ ((s.digestOf r).bytes ++ footer) ++ rest) := by
    rw [frame, covered, digestOf, covered]
    simp only [List.append_assoc]
  rw [hsplit, List.take_left' (length_frameHeader _ _)]
  exact decodeFrameHeader_frameHeader (body_bounds h.key)

/-- Reading a written frame is replaying the record it holds. -/
theorem readFrame_frame (h : s.Admits r) (rest : Bytes) :
    s.readFrame (frame s.id r ++ rest) = (s.acceptReplay (r.stored (s.digestOf r)) >>= fun accepted =>
      pure (.frame { accepted with length := accepted.length + (frame s.id r).length }
        (frame s.id r).length)) := by
  have hlength : frameLength (body r).length ≤ (frame s.id r ++ rest).length := by
    rw [List.length_append, length_frame]
    omega
  have htake : (frame s.id r ++ rest).take (frameLength (body r).length) = frame s.id r :=
    List.take_left' (length_frame s.id r)
  rw [readFrame, if_neg (not_le.2 h.transitions),
    if_neg (not_lt.2 ((frameHeaderBytes_lt _).le.trans hlength)), h.decodeFrameHeader rest]
  change (if (frame s.id r ++ rest).length < frameLength (body r).length then _ else _) = _
  rw [if_neg (not_lt.2 hlength), htake, h.decodeFrame, length_frame]
  rfl

/-- When the record of a written frame is accepted again. -/
theorem acceptReplay_stored_iff (h : s.Admits r) :
    (∃ t, s.acceptReplay (r.stored (s.digestOf r)) = .ok t) ↔
      s.digestOf r ≠ .zero ∧ ¬ (r.effectApplied = true ∧ r.receiptDigest = some .zero) := by
  have hstored := validateTransition_stored_iff h.valid (s.digestOf r)
  constructor
  · intro haccepted
    obtain ⟨t, haccepted⟩ := haccepted
    obtain ⟨-, hchain, -, hvalid, -⟩ := acceptReplay_ok_iff.1 haccepted
    exact ⟨fun hzero => hchain (.inl hzero), hstored.1 hvalid⟩
  · intro hsound
    refine ⟨_, acceptReplay_ok_iff.2 ⟨h.effects, ?_, h.revised, hstored.2 hsound.2, rfl⟩⟩
    rw [not_or, not_or]
    exact ⟨hsound.1, not_not.2 h.numbered, not_not.2 h.chained⟩

/-- **When a written frame is accepted again**: its digest is not the reserved zero, and it does not
verify an applied effect by a zero receipt. -/
theorem readFrame_frame_iff (h : s.Admits r) (rest : Bytes) :
    s.readFrame (frame s.id r ++ rest) = .ok (.frame (s.pushed r) (frame s.id r).length) ↔
      s.digestOf r ≠ .zero ∧ ¬ (r.effectApplied = true ∧ r.receiptDigest = some .zero) := by
  rw [h.readFrame_frame, ← h.acceptReplay_stored_iff]
  constructor
  · intro hread
    obtain ⟨t, haccepted, -⟩ := bind_ok_iff.1 hread
    exact ⟨t, haccepted⟩
  · intro haccepted
    obtain ⟨t, haccepted⟩ := haccepted
    obtain ⟨-, -, -, -, rfl⟩ := acceptReplay_ok_iff.1 haccepted
    exact bind_ok_iff.2 ⟨_, haccepted, rfl⟩

/-- Any other written frame is refused. -/
theorem readFrame_refused (h : s.Admits r) (rest : Bytes)
    (hunsound : ¬ (s.digestOf r ≠ .zero ∧
      ¬ (r.effectApplied = true ∧ r.receiptDigest = some .zero))) :
    ∃ e, s.readFrame (frame s.id r ++ rest) = .error e := by
  rw [← h.acceptReplay_stored_iff] at hunsound
  rw [h.readFrame_frame]
  cases haccepted : s.acceptReplay (r.stored (s.digestOf r)) with
  | error e => exact ⟨e, rfl⟩
  | ok t => exact absurd ⟨t, haccepted⟩ hunsound

/-- **A frame that is cut anywhere is an incomplete one.** -/
theorem readFrame_torn (h : s.Admits r) (hn : n < (frame s.id r).length) :
    s.readFrame ((frame s.id r).take n) = .ok .torn := by
  have hlength : ((frame s.id r).take n).length = n := List.length_take_of_le hn.le
  rw [readFrame, guard_ok_iff, not_le]
  refine ⟨h.transitions, ?_⟩
  by_cases hshort : n < frameHeaderBytes
  · -- inside the header: what is there of the marker must be the marker's
    rw [hlength, if_pos hshort, guard_ok_iff, not_not]
    refine ⟨?_, rfl⟩
    have hmarker : (frame s.id r).take record.length = record := by
      rw [frame, covered, frameHeader]
      simp only [List.append_assoc]
      exact List.take_left' rfl
    rw [List.take_take, Nat.min_eq_left (Nat.min_le_left _ _),
      ← Nat.min_eq_left (Nat.min_le_right n record.length), ← List.take_take, hmarker,
      Nat.min_eq_left (Nat.min_le_right n record.length)]
  · have hheader := h.decodeFrameHeader []
    rw [List.append_nil] at hheader
    rw [hlength, if_neg hshort, bind_ok_iff]
    refine ⟨(body r).length, ?_, ?_⟩
    · rw [List.take_take, Nat.min_eq_left (not_lt.1 hshort)]
      exact hheader
    · rw [length_frame] at hn
      rw [if_pos hn]
      rfl

end Admits

end JournalState

end Dfmcp
