import Dfmcp.Adapter.EffectFrameProof

/-!
# Operations of the effect journal

Every operation of the journal either changes nothing, or appends one frame. `Conducts` says this
of a method, together with what it returns in the first case and what it appends in the second,
and it composes along the method's own steps. That the frame does not depend on how far its write
gets is part of it: the same operation, interrupted, leaves a part of the same frame behind and the
journal fenced.

* `appendWith_conducts` — what an append writes is valid, and read back as the record it returns;
* `Operation.conducts` — every operation changes nothing, or appends one valid record.
-/

namespace Dfmcp

open Machine

namespace ControlEffectJournal

open EffectJournal

variable {α β : Type} {j : ControlEffectJournal}

/-! ## Running methods -/

namespace Action

theorem exec_pure (a : α) : (pure a : Action α).exec j = (.ok a, j) := rfl
theorem exec_throw (e : DfmcpError) : (throw e : Action α).exec j = (.error e, j) := rfl
theorem exec_of (x : Result α) : (Action.of x).exec j = (x, j) := rfl
theorem exec_set (k : ControlEffectJournal) : (set k : Action PUnit).exec j = (.ok ⟨⟩, k) := rfl

theorem exec_get_bind (f : ControlEffectJournal → Action β) :
    (get >>= f : Action β).exec j = (f j).exec j := rfl

theorem exec_bind (x : Action α) (f : α → Action β) :
    (x >>= f).exec j = match (x.exec j).1 with
      | .ok a => (f a).exec (x.exec j).2
      | .error e => (.error e, (x.exec j).2) := by
  cases hout : (x.exec j).1 with
  | ok a =>
      simp only [Action.exec, ExceptT.run_bind, StateT.run_bind] at hout ⊢
      simp [hout, bind]
  | error e =>
      simp only [Action.exec, ExceptT.run_bind, StateT.run_bind] at hout ⊢
      simp only [bind, hout]
      rfl

theorem exec_bind_ok {x : Action α} {f : α → Action β} {a : α} {k : ControlEffectJournal}
    (h : x.exec j = (.ok a, k)) : (x >>= f).exec j = (f a).exec k := by
  rw [exec_bind, h]

theorem exec_bind_error {x : Action α} {f : α → Action β} {e : DfmcpError}
    {k : ControlEffectJournal} (h : x.exec j = (.error e, k)) :
    (x >>= f).exec j = (.error e, k) := by
  rw [exec_bind, h]

end Action

/-! ## What a method does -/

/-- A journal whose file is as long as it believes. -/
def Measured (j : ControlEffectJournal) : Prop := j.storage.bytes.length = j.length

/-- The journal after a record is appended. -/
def written (j : ControlEffectJournal) (r : DurablePauseRecord) : ControlEffectJournal :=
  { j with
    toJournalState := j.pushed r
    storage := ⟨j.storage.bytes ++ frame j.id r, none⟩ }

/-- The journal after an append that got no further than `room` bytes. -/
def torn (j : ControlEffectJournal) (r : DurablePauseRecord) (room : Nat) : ControlEffectJournal :=
  { j with
    storage := ⟨j.storage.bytes ++ (frame j.id r).take room, some 0⟩
    fenced := true }

/-- The method returns and changes nothing. -/
def Settles (action : Action α) (j : ControlEffectJournal) (out : Result α) : Prop :=
  ∀ fault, action.exec (j.withFault fault) = (out, j.withFault fault)

/-- The method appends a record; interrupted, it leaves a part of its frame. -/
structure Writes (action : Action α) (j : ControlEffectJournal) (r : DurablePauseRecord) (out : α) :
    Prop where
  unfenced : j.fenced = false
  measured : j.Measured
  admits : j.Admits r
  done : action.exec (j.withFault none) = (.ok out, j.written r)
  interrupted (room : Nat) : ∃ e, action.exec (j.withFault (some room)) = (.error e, j.torn r room)

/-- The method changes nothing, and what it returns satisfies `p`; or it appends a record that
satisfies `q`. -/
def Conducts (action : Action α) (j : ControlEffectJournal) (p : α → Prop)
    (q : DurablePauseRecord → α → Prop) : Prop :=
  (∃ out, Settles action j out ∧ ∀ a, out = .ok a → p a) ∨ ∃ r a, Writes action j r a ∧ q r a

/-- The method changes nothing. -/
def Checks (action : Action α) (j : ControlEffectJournal) (p : α → Prop) : Prop :=
  Conducts action j p fun _ _ => False

section Rules

variable {x : Action α} {f : α → Action β} {p : β → Prop} {q : DurablePauseRecord → β → Prop}
  {r : DurablePauseRecord} {a : α} {b : β}

theorem Settles.bind {out : Result β} (hx : Settles x j (.ok a)) (hf : Settles (f a) j out) :
    Settles (x >>= f) j out := by
  intro fault
  rw [Action.exec_bind_ok (hx fault)]
  exact hf fault

theorem Settles.bind_error {e : DfmcpError} (hx : Settles x j (.error e)) :
    Settles (x >>= f) j (.error e) := fun fault => Action.exec_bind_error (hx fault)

theorem Settles.bind_writes (hx : Settles x j (.ok a)) (hf : Writes (f a) j r b) :
    Writes (x >>= f) j r b where
  unfenced := hf.unfenced
  measured := hf.measured
  admits := hf.admits
  done := (Action.exec_bind_ok (hx none)).trans hf.done
  interrupted room := by
    obtain ⟨e, he⟩ := hf.interrupted room
    exact ⟨e, (Action.exec_bind_ok (hx (some room))).trans he⟩

theorem Writes.bind_pure {g : α → β} (hx : Writes x j r a) :
    Writes (x >>= fun y => pure (g y)) j r (g a) where
  unfenced := hx.unfenced
  measured := hx.measured
  admits := hx.admits
  done := Action.exec_bind_ok hx.done
  interrupted room := by
    obtain ⟨e, he⟩ := hx.interrupted room
    exact ⟨e, Action.exec_bind_error he⟩

theorem Settles.get_bind {f : ControlEffectJournal → Action β} {out : Result β}
    (hf : ∀ fault, f (j.withFault fault) = f j) (h : Settles (f j) j out) :
    Settles (get >>= f) j out := by
  intro fault
  rw [Action.exec_get_bind, hf]
  exact h fault

theorem Writes.get_bind {f : ControlEffectJournal → Action β}
    (h : Writes (f j) j r b) (hf : ∀ fault, f (j.withFault fault) = f j) :
    Writes (get >>= f) j r b where
  unfenced := h.unfenced
  measured := h.measured
  admits := h.admits
  done := by
    rw [Action.exec_get_bind, hf]
    exact h.done
  interrupted room := by
    rw [Action.exec_get_bind, hf]
    exact h.interrupted room

theorem Conducts.pure (hb : p b) : Conducts (Pure.pure b) j p q :=
  .inl ⟨.ok b, fun _ => rfl, fun _ h => Except.ok.inj h ▸ hb⟩

theorem Conducts.throw (e : DfmcpError) : Conducts (MonadExcept.throw e) j p q :=
  .inl ⟨.error e, fun _ => rfl, fun _ h => nomatch h⟩

theorem Conducts.of {out : Result β} (h : ∀ b, out = .ok b → p b) :
    Conducts (Action.of out) j p q := .inl ⟨out, fun _ => rfl, h⟩

theorem Conducts.bind {p' : α → Prop} (hx : Checks x j p')
    (hf : ∀ a, p' a → Conducts (f a) j p q) : Conducts (x >>= f) j p q := by
  obtain ⟨out, hout, hp⟩ : ∃ out, Settles x j out ∧ ∀ a, out = .ok a → p' a := by
    rcases hx with hsettles | ⟨r, a, -, hfalse⟩
    · exact hsettles
    · exact absurd hfalse not_false
  cases out with
  | error e => exact .inl ⟨.error e, hout.bind_error, fun _ h => nomatch h⟩
  | ok a =>
      rcases hf a (hp a rfl) with ⟨out', hout', hp'⟩ | ⟨r, b, hwrites, hq⟩
      · exact .inl ⟨out', hout.bind hout', hp'⟩
      · exact .inr ⟨r, b, hout.bind_writes hwrites, hq⟩

theorem Conducts.of_bind {out : Result α} (hf : ∀ a, out = .ok a → Conducts (f a) j p q) :
    Conducts (Action.of out >>= f) j p q := by
  have hchecks : Checks (Action.of out) j fun a => out = .ok a := .of fun _ h => h
  exact .bind hchecks hf

theorem Conducts.get_bind {f : ControlEffectJournal → Action β}
    (hf : ∀ fault, f (j.withFault fault) = f j) (h : Conducts (f j) j p q) :
    Conducts (get >>= f) j p q := by
  rcases h with ⟨out, hout, hp⟩ | ⟨r, b, hwrites, hq⟩
  · exact .inl ⟨out, hout.get_bind hf, hp⟩
  · exact .inr ⟨r, b, hwrites.get_bind hf, hq⟩

theorem Conducts.bind_pure {g : α → β} {p' : α → Prop} {q' : DurablePauseRecord → α → Prop}
    (h : Conducts x j p' q') (hp : ∀ a, p' a → p (g a)) (hq : ∀ r a, q' r a → q r (g a)) :
    Conducts (x >>= fun y => Pure.pure (g y)) j p q := by
  rcases h with ⟨out, hout, hp'⟩ | ⟨r, a, hwrites, hq'⟩
  · cases out with
    | error e => exact .inl ⟨.error e, hout.bind_error, fun _ h => nomatch h⟩
    | ok a =>
        exact .inl ⟨.ok (g a), hout.bind fun _ => rfl, fun b h => Except.ok.inj h ▸ hp a (hp' a rfl)⟩
  · exact .inr ⟨r, g a, hwrites.bind_pure, hq r a hq'⟩

theorem Conducts.mono {p' : β → Prop} {q' : DurablePauseRecord → β → Prop} {y : Action β}
    (h : Conducts y j p q) (hp : ∀ b, p b → p' b) (hq : ∀ r b, q r b → q' r b) :
    Conducts y j p' q' := by
  rcases h with ⟨out, hout, hp'⟩ | ⟨r, b, hwrites, hq'⟩
  · exact .inl ⟨out, hout, fun b h => hp b (hp' b h)⟩
  · exact .inr ⟨r, b, hwrites, hq r b hq'⟩

/-- An early refusal, or the rest of the method. -/
theorem Conducts.guard {c : Prop} [Decidable c] {e : DfmcpError} {y : Action β}
    {g : PUnit → Action β} (h : ¬ c → Conducts y j p q) :
    Conducts (if c then MonadExcept.throw e >>= g else y) j p q := by
  by_cases hc : c
  · rw [if_pos hc]
    have hrefused : Checks (MonadExcept.throw e : Action PUnit) j fun _ => False := .throw e
    exact .bind hrefused fun _ hfalse => absurd hfalse not_false
  · rw [if_neg hc]
    exact h hc

end Rules

/-! ## Authority and health -/

variable {context : OperationContext}

theorem authorizeWrite_settles (hcontext : authorize context = .ok ()) (hwritable : j.readOnly = false) :
    Settles (authorizeWrite context) j (.ok ()) := by
  refine Settles.bind (a := ()) (fun _ => congrArg (·, _) hcontext) ?_
  refine .get_bind (fun _ => rfl) ?_
  rw [hwritable]
  exact fun _ => rfl

theorem authorizeWrite_checks :
    Checks (authorizeWrite context) j fun _ => authorize context = .ok () ∧ j.readOnly = false := by
  refine .of_bind fun _ hcontext => ?_
  refine .get_bind (fun _ => rfl) ?_
  by_cases hreadOnly : j.readOnly = true
  · rw [if_pos hreadOnly]
    exact .throw _
  · rw [if_neg hreadOnly]
    exact .pure ⟨hcontext, Bool.eq_false_iff.2 hreadOnly⟩

/-- A journal that is fenced, or whose file is as long as it believes. -/
def Coherent (j : ControlEffectJournal) : Prop := j.fenced = true ∨ j.Measured

theorem ensureHealthy_exec (hcoherent : j.Coherent) (fault : Option Nat) :
    (ensureHealthy context).exec (j.withFault fault) =
      (j.authorizeHealth context >>= fun _ => if j.fenced then
        .error (corrupt "control effect journal is fenced; reopen for verified recovery")
        else .ok (), j.withFault fault) := by
  have hof : (Action.of ((j.withFault fault).authorizeHealth context)).exec (j.withFault fault) =
    (j.authorizeHealth context, j.withFault fault) := rfl
  rw [ensureHealthy, Action.exec_get_bind]
  cases hauthority : j.authorizeHealth context with
  | error e =>
      rw [hauthority] at hof
      exact Action.exec_bind_error hof
  | ok _ =>
      rw [hauthority] at hof
      rw [Action.exec_bind_ok hof, show (j.withFault fault).fenced = j.fenced from rfl]
      by_cases hfenced : j.fenced = true
      · rw [if_pos hfenced, if_pos hfenced]
        rfl
      · have hlength : ¬ (j.withFault fault).storage.bytes.length ≠ (j.withFault fault).length :=
          not_not.2 (hcoherent.resolve_left hfenced)
        rw [if_neg hfenced, if_neg hfenced, if_neg hlength]
        rfl

theorem ensureHealthy_settles (hcontext : j.authorizeHealth context = .ok ())
    (hunfenced : j.fenced = false) (hmeasured : j.Measured) :
    Settles (ensureHealthy context) j (.ok ()) := by
  intro fault
  rw [ensureHealthy_exec (.inr hmeasured), hcontext, hunfenced]
  rfl

theorem ensureHealthy_checks (hcoherent : j.Coherent) :
    Checks (ensureHealthy context) j fun _ => j.fenced = false ∧ j.Measured := by
  refine .inl ⟨_, ensureHealthy_exec hcoherent, ?_⟩
  intro _ h
  obtain ⟨-, -, h⟩ := bind_ok_iff.1 h
  split at h
  · cases h
  · rename_i hunfenced
    exact ⟨Bool.eq_false_iff.2 hunfenced, hcoherent.resolve_left hunfenced⟩

/-! ## Appending -/

/-- The record as an append numbers and chains it. -/
def dated (s : JournalState) (next : DurablePauseRecord) : DurablePauseRecord :=
  { next with
    revision := JournalState.nextRevision (s.records.get? next.idempotencyKey)
    transitionNumber := U.wrap (s.transitions + 1)
    previousDigest := s.head }

variable {T : Type} {next : DurablePauseRecord} {publish : DurablePauseRecord → Nat → Result T}

/-- What is proposed is what may be appended. -/
theorem proposeFrame_ok_iff {s : JournalState} {proposal : Bytes × DurablePauseRecord × T} :
    proposeFrame s next publish = .ok proposal ↔ s.Admits (dated s next) ∧
      proposal.1 = frame s.id (dated s next) ∧
      proposal.2.1 = (dated s next).stored (s.digestOf (dated s next)) ∧
      publish proposal.2.1 (s.length + proposal.1.length) = .ok proposal.2.2 := by
  rw [proposeFrame, guard_ok_iff, guard_ok_iff, check_ok_iff]
  constructor
  · intro h
    obtain ⟨htransitions, heffects, hvalid, h⟩ := h
    obtain ⟨bytes, hencoded, h⟩ := bind_ok_iff.1 h
    obtain ⟨-, h⟩ := guard_ok_iff.1 h
    obtain ⟨hfits, h⟩ := guard_ok_iff.1 h
    obtain ⟨decoded, hdecoded, h⟩ := bind_ok_iff.1 h
    obtain ⟨rendered, hrendered, h⟩ := bind_ok_iff.1 h
    obtain rfl := pure_ok_iff.1 h
    have hkey := (validateTransition_ok_iff.1 hvalid).1
    obtain rfl : frame s.id (dated s next) = bytes :=
      Except.ok.inj ((encodeFrame_eq hkey).symm.trans hencoded)
    have hadmits : s.Admits (dated s next) :=
      ⟨not_le.1 htransitions, heffects, rfl, rfl, rfl, hvalid, not_lt.1 hfits⟩
    exact ⟨hadmits, rfl, Except.ok.inj (hdecoded.symm.trans hadmits.decodeFrame), hrendered⟩
  · intro h
    obtain ⟨bytes, decoded, rendered⟩ := proposal
    obtain ⟨hadmits, rfl, rfl, hrendered⟩ := h
    have hfits := hadmits.fits
    refine ⟨not_le.2 hadmits.transitions, hadmits.effects, hadmits.valid, ?_⟩
    refine bind_ok_iff.2 ⟨_, encodeFrame_eq hadmits.key, ?_⟩
    refine guard_ok_iff.2 ⟨?_, guard_ok_iff.2 ⟨not_lt.2 hfits, ?_⟩⟩
    · unfold maxLedgerBytes at hfits
      change ¬ s.length + (frame s.id (dated s next)).length ≥ 2 ^ 64
      omega
    · exact bind_ok_iff.2 ⟨_, hadmits.decodeFrame, bind_ok_iff.2 ⟨_, hrendered, rfl⟩⟩

/-- The write itself. -/
theorem commitFrame_writes {r : DurablePauseRecord} (hunfenced : j.fenced = false)
    (hmeasured : j.Measured) (hadmits : j.Admits r) :
    Writes (commitFrame (frame j.id r) (r.stored (j.digestOf r))) j r () := by
  have hlength (fault : Option Nat) :
      ¬ (j.withFault fault).storage.bytes.length ≠ (j.withFault fault).length :=
    not_not.2 hmeasured
  refine ⟨hunfenced, hmeasured, hadmits, ?_, fun room => ⟨corrupt ("control journal append outcome is uncertain; " ++
    "reopen and reconcile before any effect retry"), ?_⟩⟩
  · rw [commitFrame, Action.exec_get_bind, writeFrame, if_neg (hlength none)]
    rfl
  · rw [commitFrame, Action.exec_get_bind, writeFrame, if_neg (hlength (some room))]
    rfl

/-- An append that passes every check. -/
theorem appendWith_writes {rendered : T} (hcontext : authorize context = .ok ())
    (hwritable : j.readOnly = false) (hunfenced : j.fenced = false) (hmeasured : j.Measured)
    (hadmits : j.Admits (dated j.toJournalState next))
    (hrendered : publish ((dated j.toJournalState next).stored
        (j.digestOf (dated j.toJournalState next)))
      (j.length + (frame j.id (dated j.toJournalState next)).length) = .ok rendered) :
    Writes (appendWith next context publish) j (dated j.toJournalState next)
      ((dated j.toJournalState next).stored (j.digestOf (dated j.toJournalState next)),
        rendered) := by
  have hhealth : j.authorizeHealth context = .ok () := by
    rw [authorizeHealth, hwritable]
    exact hcontext
  have hproposal : proposeFrame j.toJournalState next publish =
      .ok (frame j.id (dated j.toJournalState next), (dated j.toJournalState next).stored
        (j.digestOf (dated j.toJournalState next)), rendered) :=
    proposeFrame_ok_iff.2 ⟨hadmits, rfl, rfl, hrendered⟩
  have hproposed : Settles (Action.of (proposeFrame j.toJournalState next publish)) j _ :=
    fun _ => rfl
  rw [hproposal] at hproposed
  have hauthorized := authorizeWrite_settles hcontext hwritable
  have hhealthy := ensureHealthy_settles hhealth hunfenced hmeasured
  refine hauthorized.bind_writes (hhealthy.bind_writes (Writes.get_bind ?_ fun _ => rfl))
  rw [hproposal]
  exact hproposed.bind_writes (hauthorized.bind_writes (hhealthy.bind_writes
    (commitFrame_writes hunfenced hmeasured hadmits).bind_pure))

theorem append_writes (hcontext : authorize context = .ok ()) (hwritable : j.readOnly = false)
    (hunfenced : j.fenced = false) (hmeasured : j.Measured)
    (hadmits : j.Admits (dated j.toJournalState next)) :
    Writes (append next context) j (dated j.toJournalState next)
      ((dated j.toJournalState next).stored (j.digestOf (dated j.toJournalState next))) :=
  (appendWith_writes hcontext hwritable hunfenced hmeasured hadmits rfl).bind_pure

/-- **What an append does.** -/
theorem appendWith_conducts (hcoherent : j.Coherent) :
    Conducts (appendWith next context publish) j (fun _ => False) fun r out =>
      r = dated j.toJournalState next ∧ out.1 = r.stored (j.digestOf r) := by
  refine .bind authorizeWrite_checks fun _ _ => ?_
  refine .bind (ensureHealthy_checks hcoherent) fun _ _ => ?_
  refine .get_bind (fun _ => rfl) ?_
  refine .of_bind fun proposal hproposal => ?_
  obtain ⟨bytes, decoded, rendered⟩ := proposal
  obtain ⟨hadmits, rfl, rfl, -⟩ := proposeFrame_ok_iff.1 hproposal
  refine .bind authorizeWrite_checks fun _ _ => ?_
  refine .bind (ensureHealthy_checks hcoherent) fun _ hhealthy => ?_
  exact .inr ⟨_, _, (commitFrame_writes hhealthy.1 hhealthy.2 hadmits).bind_pure, rfl, rfl⟩

theorem append_conducts (hcoherent : j.Coherent) :
    Conducts (append next context) j (fun _ => False) fun r out =>
      r = dated j.toJournalState next ∧ out = r.stored (j.digestOf r) :=
  (appendWith_conducts hcoherent).bind_pure (fun _ h => h) fun _ _ h => h

/-! ## Operations -/

variable {key : String} {planDigest : Digest32} {bridgeGeneration expectedGameTick : U 64}
  {prepareToken : PrepareToken}

theorem require_checks :
    Checks (require key planDigest) j fun current => j.records.get? key = some current := by
  refine .of_bind fun _ _ => ?_
  refine .get_bind (fun _ => rfl) ?_
  cases hcurrent : j.records.get? key with
  | none => exact .throw _
  | some current =>
      change Conducts (if current.planDigest ≠ planDigest then _ else _) j _ _
      by_cases hplan : current.planDigest ≠ planDigest
      · rw [if_pos hplan]
        exact .throw _
      · rw [if_neg hplan]
        exact .pure rfl

theorem recordPrepared_conducts {desiredPaused : Bool} (hcoherent : j.Coherent) :
    Conducts (recordPrepared key planDigest desiredPaused expectedGameTick bridgeGeneration
      prepareToken context) j (fun _ => True) fun r _ => r.state = .prepared := by
  refine .bind authorizeWrite_checks fun _ _ => .bind (ensureHealthy_checks hcoherent) fun _ _ => ?_
  refine .of_bind fun _ _ => .guard fun _ => ?_
  refine .get_bind (fun _ => rfl) ?_
  cases j.records.get? key with
  | some existing =>
      by_cases hsame : existing.planDigest = planDigest ∧ existing.desiredPaused = desiredPaused ∧
          existing.expectedGameTick = expectedGameTick ∧
          existing.bridgeGeneration = bridgeGeneration ∧ existing.prepareToken = prepareToken
      · change Conducts (if _ then _ else _) j _ _
        rw [if_pos hsame]
        exact .pure trivial
      · change Conducts (if _ then _ else _) j _ _
        rw [if_neg hsame]
        exact .throw _
  | none =>
      refine (append_conducts hcoherent).mono (fun _ _ => trivial) fun r _ h => ?_
      rw [h.1]
      rfl

/-- A commit is reported as started exactly when that is appended. -/
theorem beginCommit_conducts (hcoherent : j.Coherent) (hkeyed : j.Keyed) :
    Conducts (beginCommit key planDigest bridgeGeneration context) j
      (fun out => out.state ≠ .commitStarted)
      fun r out => r.idempotencyKey = key ∧ r.state = .commitStarted ∧
        out = r.stored (j.digestOf r) := by
  refine .bind authorizeWrite_checks fun _ _ => .bind (ensureHealthy_checks hcoherent) fun _ _ => ?_
  refine .bind require_checks fun current hcurrent => .guard fun _ => .guard fun _ => ?_
  cases hstate : current.state with
  | prepared =>
      refine (append_conducts hcoherent).mono (fun _ h => absurd h not_false) fun r _ h => ?_
      refine ⟨?_, ?_, h.2⟩
      · rw [h.1]
        exact hkeyed key current hcurrent
      · rw [h.1]
        rfl
  | commitStarted => exact .throw _
  | indeterminate => exact .throw _
  | verifiedApplied =>
      refine .pure ?_
      rw [hstate]
      decide
  | verifiedNotApplied =>
      refine .pure ?_
      rw [hstate]
      decide
  | cancelledBeforeDispatch =>
      refine .pure ?_
      rw [hstate]
      decide

theorem markIndeterminate_conducts (hcoherent : j.Coherent) (hkeyed : j.Keyed) :
    Conducts (markIndeterminate key planDigest context) j
      (fun out => j.records.get? key = some out ∧ out.state = .indeterminate)
      fun r out => r.state = .indeterminate ∧ r.idempotencyKey = key ∧
        out = r.stored (j.digestOf r) := by
  refine .bind authorizeWrite_checks fun _ _ => .bind (ensureHealthy_checks hcoherent) fun _ _ => ?_
  refine .bind require_checks fun current hcurrent => ?_
  by_cases hdone : current.state = .indeterminate
  · rw [if_pos hdone]
    exact .pure ⟨hcurrent, hdone⟩
  rw [if_neg hdone]
  by_cases hstarted : current.state ≠ .commitStarted
  · rw [if_pos hstarted]
    exact .throw _
  rw [if_neg hstarted]
  refine (append_conducts hcoherent).mono (fun _ h => absurd h not_false) fun r _ h => ?_
  refine ⟨?_, ?_, h.2⟩
  · rw [h.1]
    rfl
  · rw [h.1]
    exact hkeyed key current hcurrent

/-- Whether a reconciliation verifies an effect as applied. -/
def Verifies (j : JournalState) (key : String) (bridgeGeneration : U 64)
    (effectKnown effectApplied : Bool) : Prop :=
  ∃ current, j.records.get? key = some current ∧ current.state.reconciliationRequired = true ∧
    bridgeGeneration = current.bridgeGeneration ∧ effectKnown = true ∧ effectApplied = true

theorem recordReconciliation_conducts {effectKnown effectApplied observedPaused : Bool}
    {observedGameTick : U 64} {receiptDigest : Option Digest32} (hcoherent : j.Coherent)
    (hkeyed : j.Keyed) :
    Conducts (recordReconciliation key planDigest bridgeGeneration effectKnown effectApplied
      observedPaused observedGameTick receiptDigest context) j
      (fun out => j.records.get? key = some out ∧ out.state ≠ .prepared ∧ out.state ≠ .commitStarted)
      fun r out => (r.state = .verifiedApplied →
        Verifies j.toJournalState key bridgeGeneration effectKnown effectApplied ∧
        r.receiptDigest = receiptDigest) ∧
        (r.state.terminal = true ∨ r.state = .indeterminate) ∧
        r.idempotencyKey = key ∧ out = r.stored (j.digestOf r) := by
  refine .bind authorizeWrite_checks fun _ _ => .bind (ensureHealthy_checks hcoherent) fun _ _ => ?_
  refine .bind require_checks fun current hcurrent => ?_
  by_cases hcancelled : current.state = .cancelledBeforeDispatch
  · rw [if_pos hcancelled]
    exact .throw _
  rw [if_neg hcancelled]
  by_cases hterminal : current.state.terminal = true
  · rw [if_pos hterminal]
    refine .pure ⟨hcurrent, ?_, ?_⟩
    · intro hstate
      rw [hstate] at hterminal
      cases hterminal
    · intro hstate
      rw [hstate] at hterminal
      cases hterminal
  rw [if_neg hterminal]
  by_cases hprepared : current.state = .prepared
  · rw [if_pos hprepared]
    exact .throw _
  rw [if_neg hprepared]
  by_cases hunknown : bridgeGeneration ≠ current.bridgeGeneration ∨ (!effectKnown) = true
  · rw [if_pos hunknown]
    refine (markIndeterminate_conducts hcoherent hkeyed).mono (fun out h => ?_) fun r _ h => ?_
    · rw [h.2]
      exact ⟨h.1, by decide, by decide⟩
    · refine ⟨fun hverified => ?_, .inr h.1, h.2.1, h.2.2⟩
      rw [h.1] at hverified
      cases hverified
  rw [if_neg hunknown]
  by_cases hopposite : effectApplied = true ∧ observedPaused ≠ current.desiredPaused
  · rw [if_pos hopposite]
    exact .throw _
  rw [if_neg hopposite]
  by_cases hreceipt : effectApplied = true ∧ receiptDigest.isNone = true
  · rw [if_pos hreceipt]
    exact .throw _
  rw [if_neg hreceipt]
  refine (append_conducts hcoherent).mono (fun _ h => absurd h not_false) fun r _ h => ?_
  have hstate : r.state = if effectApplied then .verifiedApplied else .verifiedNotApplied := by
    rw [h.1]
    rfl
  refine ⟨fun hverified => ?_, .inl ?_, ?_, h.2⟩
  · rw [not_or, not_not, Bool.not_eq_true', Bool.not_eq_false] at hunknown
    have hrequired : current.state.reconciliationRequired = true := by
      cases hstate : current.state <;> rw [hstate] at hcancelled hterminal hprepared
      · exact absurd rfl hprepared
      · rfl
      · exact absurd rfl hterminal
      · exact absurd rfl hterminal
      · rfl
      · exact absurd rfl hcancelled
    refine ⟨⟨current, hcurrent, hrequired, hunknown.1, hunknown.2, ?_⟩, by rw [h.1]; rfl⟩
    by_contra hnot
    rw [hstate, if_neg hnot] at hverified
    cases hverified
  · rw [hstate]
    split <;> rfl
  · rw [h.1]
    exact hkeyed key current hcurrent

theorem cancelPreparedWith_conducts {publish : DurablePauseRecord → Nat → Bool → Result T}
    (hcoherent : j.Coherent) :
    Conducts (cancelPreparedWith key planDigest context publish) j (fun _ => True)
      fun r _ => r.state = .cancelledBeforeDispatch := by
  refine .bind authorizeWrite_checks fun _ _ => .bind (ensureHealthy_checks hcoherent) fun _ _ => ?_
  refine .bind require_checks fun current _ => ?_
  cases current.state with
  | prepared =>
      refine (appendWith_conducts hcoherent).bind_pure (fun _ _ => trivial) fun r _ h => ?_
      rw [h.1]
      rfl
  | cancelledBeforeDispatch => exact .get_bind (fun _ => rfl) (.of fun _ _ => trivial)
  | commitStarted => exact .throw _
  | indeterminate => exact .throw _
  | verifiedApplied => exact .throw _
  | verifiedNotApplied => exact .throw _

/-! ## Operations that append -/

section Appends

variable {current : DurablePauseRecord} (hcontext : authorize context = .ok ())
  (hwritable : j.readOnly = false) (hunfenced : j.fenced = false) (hmeasured : j.Measured)
  (hkey : validateKey key = .ok ())

include hcontext hwritable hunfenced hmeasured in
theorem healthy_writes {α : Type} {action : Action α} {r : DurablePauseRecord} {out : α}
    (h : Writes action j r out) :
    Writes (do authorizeWrite context; ensureHealthy context; action) j r out := by
  have hhealth : j.authorizeHealth context = .ok () := by
    rw [authorizeHealth, hwritable]
    exact hcontext
  exact (authorizeWrite_settles hcontext hwritable).bind_writes
    ((ensureHealthy_settles hhealth hunfenced hmeasured).bind_writes h)

include hkey in
theorem require_settles (hcurrent : j.records.get? key = some current)
    (hplan : current.planDigest = planDigest) :
    Settles (require key planDigest) j (.ok current) := by
  refine Settles.bind (a := ()) (fun _ => by rw [hkey]; rfl) (.get_bind (fun _ => rfl) ?_)
  rw [hcurrent]
  change Settles (if current.planDigest ≠ planDigest then _ else _) j _
  rw [if_neg (not_not.2 hplan)]
  exact fun _ => rfl

include hcontext hwritable hunfenced hmeasured hkey

/-- A new effect is prepared. -/
theorem recordPrepared_writes {desiredPaused : Bool} {next : DurablePauseRecord}
    (hidentity : ¬ (bridgeGeneration = 0 ∨ bridgeGeneration = U.max 64 ∨ prepareToken = .zero))
    (hnew : j.records.get? key = none)
    (hnext : next = ⟨key, planDigest, desiredPaused, expectedGameTick, bridgeGeneration, prepareToken,
      .prepared, false, false, none, none, none, 0, 0, .zero, .zero⟩)
    (hadmits : j.Admits (dated j.toJournalState next)) :
    Writes (recordPrepared key planDigest desiredPaused expectedGameTick bridgeGeneration
      prepareToken context) j (dated j.toJournalState next)
      ((dated j.toJournalState next).stored (j.digestOf (dated j.toJournalState next))) := by
  subst hnext
  refine healthy_writes hcontext hwritable hunfenced hmeasured ?_
  refine Settles.bind_writes (a := ()) (fun _ => by rw [hkey]; rfl) ?_
  rw [if_neg hidentity]
  refine Writes.get_bind ?_ fun _ => rfl
  rw [hnew]
  exact append_writes hcontext hwritable hunfenced hmeasured hadmits

/-- A prepared effect is started. -/
theorem beginCommit_writes (hcurrent : j.records.get? key = some current)
    (hplan : current.planDigest = planDigest) (hgeneration : current.bridgeGeneration = bridgeGeneration)
    (hstate : current.state = .prepared) {next : DurablePauseRecord}
    (hnext : next = { current with state := .commitStarted })
    (hadmits : j.Admits (dated j.toJournalState next)) :
    Writes (beginCommit key planDigest bridgeGeneration context) j (dated j.toJournalState next)
      ((dated j.toJournalState next).stored (j.digestOf (dated j.toJournalState next))) := by
  subst hnext
  refine healthy_writes hcontext hwritable hunfenced hmeasured ?_
  refine (require_settles hkey hcurrent hplan).bind_writes ?_
  rw [if_neg (by rw [hstate]; decide), if_neg (not_not.2 hgeneration)]
  simp only [hstate]
  exact append_writes hcontext hwritable hunfenced hmeasured hadmits

/-- A started effect is marked as indeterminate. -/
theorem markIndeterminate_writes (hcurrent : j.records.get? key = some current)
    (hplan : current.planDigest = planDigest) (hstate : current.state = .commitStarted)
    {next : DurablePauseRecord} (hnext : next = { current with state := .indeterminate })
    (hadmits : j.Admits (dated j.toJournalState next)) :
    Writes (markIndeterminate key planDigest context) j (dated j.toJournalState next)
      ((dated j.toJournalState next).stored (j.digestOf (dated j.toJournalState next))) := by
  subst hnext
  refine healthy_writes hcontext hwritable hunfenced hmeasured ?_
  refine (require_settles hkey hcurrent hplan).bind_writes ?_
  rw [if_neg (by rw [hstate]; decide), if_neg (not_not.2 hstate)]
  exact append_writes hcontext hwritable hunfenced hmeasured hadmits

/-- A started effect is verified as applied. -/
theorem recordReconciliation_writes (hcurrent : j.records.get? key = some current)
    (hplan : current.planDigest = planDigest) (hgeneration : bridgeGeneration = current.bridgeGeneration)
    (hstate : current.state = .commitStarted) {receiptDigest : Digest32} {observedGameTick : U 64}
    {next : DurablePauseRecord}
    (hnext : next = { current with
      state := .verifiedApplied
      effectKnown := true
      effectApplied := true
      observedPaused := some current.desiredPaused
      observedGameTick := some observedGameTick
      receiptDigest := some receiptDigest })
    (hadmits : j.Admits (dated j.toJournalState next)) :
    Writes (recordReconciliation key planDigest bridgeGeneration true true current.desiredPaused
      observedGameTick (some receiptDigest) context) j (dated j.toJournalState next)
      ((dated j.toJournalState next).stored (j.digestOf (dated j.toJournalState next))) := by
  subst hnext
  refine healthy_writes hcontext hwritable hunfenced hmeasured ?_
  refine (require_settles hkey hcurrent hplan).bind_writes ?_
  rw [if_neg (by rw [hstate]; decide), if_neg (by rw [hstate]; decide),
    if_neg (by rw [hstate]; decide), if_neg (by simp [hgeneration]), if_neg (by simp),
    if_neg (by simp)]
  exact append_writes hcontext hwritable hunfenced hmeasured hadmits

end Appends

/-! ## Any operation -/

/-- A verified application is evidenced by a receipt that is not all zero bytes. -/
def Operation.Evidenced (j : JournalState) : Operation T → Prop
  | .reconcile key _ bridgeGeneration effectKnown effectApplied _ _ receiptDigest _ =>
    Verifies j key bridgeGeneration effectKnown effectApplied → receiptDigest ≠ some .zero
  | _ => True

/-- **What any operation does.** It changes nothing, and starts no commit; or it appends one record:
an evidenced one when the operation is, and the start of a commit when that is reported. -/
theorem Operation.conducts (operation : Operation T) (hcoherent : j.Coherent) (hkeyed : j.Keyed) :
    Conducts operation.run j (fun out => (Event.call operation (.ok out)).started = none)
      fun r out => (operation.Evidenced j.toJournalState → r.state = .verifiedApplied →
          r.receiptDigest ≠ some .zero) ∧
        ∀ key, (Event.call operation (.ok out)).started = some key →
          r.idempotencyKey = key ∧ r.state = .commitStarted := by
  cases operation with
  | prepare =>
      refine (recordPrepared_conducts hcoherent).bind_pure (fun _ _ => rfl) fun r _ h => ?_
      refine ⟨fun _ hverified => ?_, fun _ hstarted => nomatch hstarted⟩
      rw [h] at hverified
      cases hverified
  | beginCommit key =>
      refine (beginCommit_conducts hcoherent hkeyed).bind_pure (fun out h => if_neg h) ?_
      intro r out h
      refine ⟨fun _ hverified => ?_, fun key' hstarted => ?_⟩
      · rw [h.2.1] at hverified
        cases hverified
      · change (if out.state = .commitStarted then some key else none) = some key' at hstarted
        split at hstarted
        · obtain rfl := Option.some.inj hstarted
          exact ⟨h.1, h.2.1⟩
        · cases hstarted
  | markIndeterminate =>
      refine (markIndeterminate_conducts hcoherent hkeyed).bind_pure (fun _ _ => rfl) fun r _ h => ?_
      refine ⟨fun _ hverified => ?_, fun _ hstarted => nomatch hstarted⟩
      rw [h.1] at hverified
      cases hverified
  | reconcile =>
      refine (recordReconciliation_conducts hcoherent hkeyed).bind_pure (fun _ _ => rfl) fun r _ h => ?_
      refine ⟨fun hevidenced hverified => ?_, fun _ hstarted => nomatch hstarted⟩
      obtain ⟨hverifies, hreceipt⟩ := h.1 hverified
      rw [hreceipt]
      exact hevidenced hverifies
  | cancel =>
      refine (cancelPreparedWith_conducts hcoherent).bind_pure (fun _ _ => rfl) fun r _ h => ?_
      refine ⟨fun _ hverified => ?_, fun _ hstarted => nomatch hstarted⟩
      rw [h] at hverified
      cases hverified

end ControlEffectJournal

end Dfmcp
