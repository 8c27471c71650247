import Dfmcp.Adapter.EffectJournalProof
import Dfmcp.Adapter.PauseCommit

/-!
# A pause effect is dispatched at most once

A run is any sequence of journal operations, commits and reopenings, where every write may fail
anywhere in its frame. Between them the journal is `Lively`: its file replays to what it holds, or
ends in a part of one frame behind a fence, or never opens again, and every record it holds is on
file. A dispatch finds the effect prepared and leaves it started, on file and in memory, and no step
goes back to prepared.

* `Lively.reopen` — what a reopened journal holds, whatever was cut off;
* `commit_lively`, `commit_dispatch` — what a commit keeps, and when it dispatches;
* `run_dispatches` — at most one dispatch for a key, over any run;
* `pause_dispatched_once` — that, and what a dispatch and a success are preceded by;
* `indeterminate_success` — a commit succeeds with a record that is not terminal.
-/

namespace Dfmcp

open Machine FrameLog Runs

namespace ControlEffectJournal

open EffectJournal

variable {bytes rest : Bytes} {s t : JournalState} {r : DurablePauseRecord}
  {j k : ControlEffectJournal} {context : OperationContext} {initializeEmpty : Bool}
  {bridgeGeneration : U 64} {recovery : EffectTailRecovery}

/-! ## Records on file -/

/-- The file has a frame that is read as the record. -/
def OnFile (bytes : Bytes) (id : Digest32) (r : DurablePauseRecord) : Prop :=
  ∃ before frame after, bytes = before ++ frame ++ after ∧ decodeFrame frame id = .ok r

theorem OnFile.append {id : Digest32} (h : OnFile bytes id r) (rest : Bytes) :
    OnFile (bytes ++ rest) id r := by
  obtain ⟨before, frame, after, rfl, hframe⟩ := h
  exact ⟨before, frame, after ++ rest, by simp only [List.append_assoc], hframe⟩

theorem onFile_frame (h : s.Admits r) (bytes : Bytes) :
    OnFile (bytes ++ frame s.id r) s.id (r.stored (s.digestOf r)) :=
  ⟨bytes, frame s.id r, [], (List.append_nil _).symm, h.decodeFrame⟩

/-- Every record of the state is on file. -/
def Filed (bytes : Bytes) (s : JournalState) : Prop :=
  ∀ key r, s.records.get? key = some r → OnFile bytes s.id r

theorem Filed.append (h : Filed bytes s) (rest : Bytes) : Filed (bytes ++ rest) s :=
  fun key r hr => (h key r hr).append rest

theorem Filed.pushed (h : Filed bytes s) (hadmits : s.Admits r) :
    Filed (bytes ++ frame s.id r) (s.pushed r) := by
  intro key r' hr'
  rw [JournalState.pushed, OMap.get?_insert] at hr'
  by_cases hkey : key = r.idempotencyKey
  · rw [if_pos hkey] at hr'
    obtain rfl := Option.some.inj hr'
    exact onFile_frame hadmits bytes
  · rw [if_neg hkey] at hr'
    exact (h key r' hr').append _

/-- A frame that is read is on file. -/
theorem readFrame_filed {n : Nat} (h : Filed bytes s)
    (hread : s.readFrame rest = .ok (.frame t n)) : Filed (bytes ++ rest.take n) t := by
  obtain ⟨-, -, bodyLength, record, accepted, -, -, hdecoded, haccepted, rfl, rfl⟩ :=
    JournalState.readFrame_ok_iff.1 hread
  obtain ⟨-, -, -, -, rfl⟩ := JournalState.acceptReplay_ok_iff.1 haccepted
  intro key r' hr'
  replace hr' : (s.records.insert record.idempotencyKey record).get? key = some r' := hr'
  rw [OMap.get?_insert] at hr'
  by_cases hkey : key = record.idempotencyKey
  · rw [if_pos hkey] at hr'
    obtain rfl := Option.some.inj hr'
    exact ⟨bytes, _, [], (List.append_nil _).symm, hdecoded⟩
  · rw [if_neg hkey] at hr'
    exact (h key r' hr').append _

/-- **What a file replays to is on file.** -/
theorem Recorded.filed (h : Recorded bytes s) : Filed bytes s := by
  obtain ⟨headerDigest, -, hreplay⟩ := h.replays
  have hempty : Filed (bytes.take headerBytes) (.empty s.id headerDigest) := by
    intro key r hr
    exact absurd hr (by simp [JournalState.empty, OMap.get?_nil])
  have hfiled := replay_preserves_read JournalState.local_readFrame readFrame_filed hempty hreplay
  rwa [List.take_append_drop] at hfiled

/-! ## Files that never open again -/

/-- The file has a frame that the journal wrote and cannot read again. -/
def Doomed (bytes : Bytes) : Prop :=
  ∃ before s r after, bytes = before ++ (frame s.id r ++ after) ∧ Recorded before s ∧
    s.Admits r ∧ ¬ (s.digestOf r ≠ .zero ∧
      ¬ (r.effectApplied = true ∧ r.receiptDigest = some .zero))

theorem Doomed.append (h : Doomed bytes) (rest : Bytes) : Doomed (bytes ++ rest) := by
  obtain ⟨before, s, r, after, rfl, hrecorded, hadmits, hunsound⟩ := h
  exact ⟨before, s, r, after ++ rest, by simp only [List.append_assoc], hrecorded, hadmits, hunsound⟩

/-- What an opened file replays to. -/
theorem openJournal_replays (hheaded : headerBytes ≤ bytes.length)
    (h : openJournal ⟨bytes, none⟩ context initializeEmpty bridgeGeneration recovery = .ok k) :
    ∃ id headerDigest tail, decodeHeader (bytes.take headerBytes) = .ok (id, headerDigest) ∧
      replay JournalState.readFrame (.empty id headerDigest) (bytes.drop headerBytes) =
        .ok (k.toJournalState, tail) := by
  obtain ⟨file, id, headerDigest, s, tail, hfile, -, -, hheader, hreplay, rfl⟩ := openJournal_ok h
  obtain rfl : bytes = file := by
    rw [writeHeader, if_neg] at hfile
    · exact congrArg Storage.bytes (Except.ok.inj hfile)
    · intro hempty
      have hzero : bytes.length = 0 := hempty.1
      unfold headerBytes at hheaded
      omega
  exact ⟨id, headerDigest, tail, hheader, hreplay⟩

/-- What follows a recorded file is read from its state when the file is opened. -/
theorem Recorded.open_append (h : Recorded bytes s)
    (hopen : openJournal ⟨bytes ++ rest, none⟩ context initializeEmpty bridgeGeneration recovery =
      .ok k) : ∃ tail, replay JournalState.readFrame s rest = .ok (k.toJournalState, tail) := by
  have hheaded : headerBytes ≤ (bytes ++ rest).length := by
    rw [List.length_append]
    exact h.headed.trans (Nat.le_add_right _ _)
  obtain ⟨id, headerDigest, tail, hheader, hreplay⟩ := openJournal_replays hheaded hopen
  obtain ⟨headerDigest', hheader', hreplay'⟩ := h.replay_append rest
  obtain ⟨rfl, rfl⟩ := Prod.mk.inj (Except.ok.inj (hheader.symm.trans hheader'))
  exact ⟨tail, hreplay'.symm.trans hreplay⟩

/-- **A doomed file does not open.** -/
theorem Doomed.not_open (h : Doomed bytes) :
    openJournal ⟨bytes, none⟩ context initializeEmpty bridgeGeneration recovery ≠ .ok k := by
  intro hopen
  obtain ⟨before, s, r, after, rfl, hrecorded, hadmits, hunsound⟩ := h
  obtain ⟨tail, hreplay⟩ := hrecorded.open_append hopen
  obtain ⟨e, he⟩ := hadmits.readFrame_refused after hunsound
  have hnonempty : frame s.id r ++ after ≠ [] := by
    intro hempty
    have hlength := length_frame s.id r
    rw [(List.append_eq_nil_iff.1 hempty).1, List.length_nil, frameLength] at hlength
    omega
  rw [replay_error hnonempty he] at hreplay
  cases hreplay

/-! ## Lively journals -/

/-- **What a journal and its file are to each other**, through failed writes. -/
structure Lively (j : ControlEffectJournal) : Prop where
  keyed : j.Keyed
  filed : Filed j.storage.bytes j.toJournalState
  coherent : j.Coherent
  file : (j.fenced = false ∧ Recorded j.storage.bytes j.toJournalState) ∨
    (j.fenced = true ∧ ∃ before r room, Recorded before j.toJournalState ∧ j.Admits r ∧
      j.storage.bytes = before ++ (frame j.id r).take room) ∨
    Doomed j.storage.bytes

theorem Sound.lively (h : j.Sound) : j.Lively :=
  ⟨h.recorded.keyed, h.recorded.filed, .inr h.measured, .inl ⟨h.unfenced, h.recorded⟩⟩

/-- Where the next write fails is nothing the journal is about. -/
theorem Lively.withFault (h : j.Lively) (fault : Option Nat) : (j.withFault fault).Lively :=
  ⟨h.keyed, h.filed, h.coherent, h.file⟩

/-- An append keeps a journal lively; one that cannot be read again dooms its file. -/
theorem Lively.written (h : j.Lively) (hunfenced : j.fenced = false) (hmeasured : j.Measured)
    (hadmits : j.Admits r) : (j.written r).Lively := by
  have hkeyed : (j.pushed r).Keyed :=
    JournalState.keyed_insert (r := r.stored (j.digestOf r)) h.keyed
  refine ⟨hkeyed, h.filed.pushed hadmits, .inr ?_, ?_⟩
  · change (j.storage.bytes ++ frame j.id r).length = j.length + (frame j.id r).length
    rw [List.length_append, hmeasured]
  · rcases h.file with ⟨-, hrecorded⟩ | ⟨hfenced, -⟩ | hdoomed
    · by_cases hsound : j.digestOf r ≠ .zero ∧
          ¬ (r.effectApplied = true ∧ r.receiptDigest = some .zero)
      · exact .inl ⟨hunfenced, hrecorded.append hadmits hsound.1 hsound.2⟩
      · refine .inr (.inr ⟨j.storage.bytes, j.toJournalState, r, [], ?_, hrecorded, hadmits,
          hsound⟩)
        rw [List.append_nil]
        rfl
    · rw [hunfenced] at hfenced
      cases hfenced
    · exact .inr (.inr (hdoomed.append _))

/-- An append that fails leaves a part of its frame, behind a fence. -/
theorem Lively.torn (h : j.Lively) (hunfenced : j.fenced = false) (hadmits : j.Admits r)
    (room : Nat) : (j.torn r room).Lively := by
  refine ⟨h.keyed, h.filed.append _, .inl rfl, ?_⟩
  rcases h.file with ⟨-, hrecorded⟩ | ⟨hfenced, -⟩ | hdoomed
  · exact .inr (.inl ⟨rfl, j.storage.bytes, r, room, hrecorded, hadmits, rfl⟩)
  · rw [hunfenced] at hfenced
    cases hfenced
  · exact .inr (.inr (hdoomed.append _))

/-- The state has records appended. -/
def Grows : JournalState → JournalState → Prop :=
  Relation.ReflTransGen fun s t => ∃ r, s.Admits r ∧ t = s.pushed r

theorem Grows.pushed (h : s.Admits r) : Grows s (s.pushed r) := .single ⟨r, h, rfl⟩

/-- **What a reopened journal holds**: what the journal held, with a record appended if the whole
frame of a failed write is found. -/
theorem Lively.reopen (h : j.Lively)
    (hopen : openJournal j.storage.restarted context initializeEmpty bridgeGeneration recovery =
      .ok k) : k.Lively ∧ Grows j.toJournalState k.toJournalState := by
  refine ⟨(openJournal_sound hopen).lively, ?_⟩
  rcases h.file with ⟨-, hrecorded⟩ | ⟨-, before, r, room, hrecorded, hadmits, hbytes⟩ | hdoomed
  · rw [Storage.restarted, ← List.append_nil j.storage.bytes] at hopen
    obtain ⟨tail, hreplay⟩ := hrecorded.open_append hopen
    rw [replay_nil] at hreplay
    rw [(Prod.mk.inj (Except.ok.inj hreplay)).1]
    exact .refl
  · rw [Storage.restarted, hbytes] at hopen
    obtain ⟨tail, hreplay⟩ := hrecorded.open_append hopen
    by_cases hroom : room < (frame j.id r).length
    · rw [replay_torn (hadmits.readFrame_torn hroom)] at hreplay
      rw [(Prod.mk.inj (Except.ok.inj hreplay)).1]
      exact .refl
    · rw [List.take_of_length_le (not_lt.1 hroom)] at hreplay
      by_cases hsound : j.digestOf r ≠ .zero ∧
          ¬ (r.effectApplied = true ∧ r.receiptDigest = some .zero)
      · have hread := (hadmits.readFrame_frame_iff []).2 hsound
        rw [List.append_nil] at hread
        rw [replay_frame JournalState.local_readFrame hread, List.drop_length, replay_nil] at hreplay
        rw [← (Prod.mk.inj (Except.ok.inj hreplay)).1]
        exact .pushed hadmits
      · exact absurd hopen (Doomed.not_open ⟨before, j.toJournalState, r, [], by
          rw [List.take_of_length_le (not_lt.1 hroom), List.append_nil], hrecorded, hadmits, hsound⟩)
  · exact absurd hopen hdoomed.not_open

/-! ## Methods on a lively journal -/

section Methods

variable {α : Type} {action : Action α} {p : α → Prop} {q : DurablePauseRecord → α → Prop}
  {fault : Option Nat} {out : Result α}

/-- **What a method comes to**, wherever its write fails: nothing changed, one record was appended,
or a part of its frame is behind a fence. -/
theorem Conducts.exec_cases (h : j.Lively) (hconducts : Conducts action j p q)
    (hexec : action.exec (j.withFault fault) = (out, k)) :
    k.Lively ∧ ((k = j.withFault fault ∧ ∀ a, out = .ok a → p a) ∨
      ∃ r a, j.Admits r ∧ q r a ∧
        ((fault = none ∧ out = .ok a ∧ k = j.written r) ∨
          ∃ room e, fault = some room ∧ out = .error e ∧ k = j.torn r room)) := by
  rcases hconducts with ⟨out', hsettles, hp⟩ | ⟨r, a, hwrites, hq⟩
  · obtain ⟨rfl, rfl⟩ := Prod.mk.inj ((hsettles fault).symm.trans hexec)
    exact ⟨h.withFault fault, .inl ⟨rfl, hp⟩⟩
  · cases fault with
    | none =>
        obtain ⟨rfl, rfl⟩ := Prod.mk.inj (hwrites.done.symm.trans hexec)
        exact ⟨h.written hwrites.unfenced hwrites.measured hwrites.admits,
          .inr ⟨r, a, hwrites.admits, hq, .inl ⟨rfl, rfl, rfl⟩⟩⟩
    | some room =>
        obtain ⟨e, he⟩ := hwrites.interrupted room
        obtain ⟨rfl, rfl⟩ := Prod.mk.inj (he.symm.trans hexec)
        exact ⟨h.torn hwrites.unfenced hwrites.admits room,
          .inr ⟨r, a, hwrites.admits, hq, .inr ⟨room, e, rfl, rfl, rfl⟩⟩⟩

theorem Conducts.exec_grows (h : j.Lively) (hconducts : Conducts action j p q)
    (hexec : action.exec (j.withFault fault) = (out, k)) :
    k.Lively ∧ Grows j.toJournalState k.toJournalState := by
  obtain ⟨hlively, ⟨rfl, -⟩ | ⟨r, a, hadmits, -, ⟨-, -, rfl⟩ | ⟨room, e, -, -, rfl⟩⟩⟩ :=
    hconducts.exec_cases h hexec
  · exact ⟨hlively, .refl⟩
  · exact ⟨hlively, .pushed hadmits⟩
  · exact ⟨hlively, .refl⟩

end Methods

/-! ## Records as a journal grows -/

theorem Grows.succeeds (h : Grows s t) {key : String} {a : DurablePauseRecord}
    (ha : s.records.get? key = some a) : ∃ b, t.records.get? key = some b ∧ Succeeds a b := by
  induction h with
  | refl => exact ⟨a, ha, .refl a⟩
  | tail hfirst hlast ih =>
      obtain ⟨r, hadmits, rfl⟩ := hlast
      obtain ⟨b, hb, hsucceeds⟩ := ih
      have hmoves := pushed_moves hadmits key
      rw [hb] at hmoves
      obtain ⟨c, hc, hnext⟩ := hmoves.succeeds
      exact ⟨c, hc, hsucceeds.trans hnext⟩

/-- No allowed change leads back to prepared. -/
theorem Succeeds.not_prepared {a b : DurablePauseRecord} (h : Succeeds a b)
    (ha : a.state ≠ .prepared) : b.state ≠ .prepared := by
  intro hb
  rcases Relation.ReflTransGen.cases_tail h.reached with heq | ⟨c, -, hallowed⟩
  · rw [heq] at hb
    exact ha hb
  · rw [hb, not_allows_prepared] at hallowed
    cases hallowed

theorem Grows.pastPrepared (h : Grows j.toJournalState k.toJournalState) {key : String}
    (hpast : PastPrepared j key) : PastPrepared k key := by
  obtain ⟨a, ha, hstate⟩ := hpast
  obtain ⟨b, hb, hsucceeds⟩ := h.succeeds ha
  exact ⟨b, hb, hsucceeds.not_prepared hstate⟩

/-- The journal holds the record and has it on file; reopened, it holds the record or a later one of
the same effect. -/
structure Durable (j : ControlEffectJournal) (key : String) (r : DurablePauseRecord) : Prop where
  held : j.records.get? key = some r
  onFile : OnFile j.storage.bytes j.id r
  reopens : ∀ context initializeEmpty bridgeGeneration recovery k,
    openJournal j.storage.restarted context initializeEmpty bridgeGeneration recovery = .ok k →
    ∃ r', k.records.get? key = some r' ∧ Succeeds r r'

/-- **What a lively journal holds is durable.** -/
theorem Lively.durable (h : j.Lively) {key : String} (hr : j.records.get? key = some r) :
    Durable j key r :=
  ⟨hr, h.filed key r hr, fun _ _ _ _ _ hopen => (h.reopen hopen).2.succeeds hr⟩

/-! ## The methods of a commit -/

variable {key : String} {plan planDigest : Digest32} {current : DurablePauseRecord}

/-- A prepared effect is started, or nothing is returned. -/
theorem beginCommit_prepared (hcoherent : j.Coherent) (hkeyed : j.Keyed)
    (hcurrent : j.records.get? key = some current) (hprepared : current.state = .prepared) :
    Conducts (beginCommit key planDigest bridgeGeneration context) j (fun _ => False)
      fun r out => r.idempotencyKey = key ∧ r.state = .commitStarted ∧
        out = r.stored (j.digestOf r) := by
  refine .bind authorizeWrite_checks fun _ _ => .bind (ensureHealthy_checks hcoherent) fun _ _ => ?_
  refine .bind require_checks fun found hfound => .guard fun _ => .guard fun _ => ?_
  obtain rfl := Option.some.inj (hcurrent.symm.trans hfound)
  rw [hprepared]
  refine (append_conducts hcoherent).mono (fun _ h => h) fun r _ h => ?_
  refine ⟨?_, ?_, h.2⟩
  · rw [h.1]
    exact hkeyed key current hcurrent
  · rw [h.1]
    rfl

/-- A started effect is recorded as what its evidence says, or nothing is returned. -/
theorem recordReconciliation_started {effectApplied observedPaused : Bool}
    {observedGameTick : U 64} {receiptDigest : Option Digest32} (hcoherent : j.Coherent)
    (hkeyed : j.Keyed) (hcurrent : j.records.get? key = some current)
    (hstarted : current.state = .commitStarted)
    (hgeneration : bridgeGeneration = current.bridgeGeneration) :
    Conducts (recordReconciliation key planDigest bridgeGeneration true effectApplied
      observedPaused observedGameTick receiptDigest context) j (fun _ => False)
      fun r out => (r.state = .verifiedApplied ∨ r.state = .verifiedNotApplied) ∧
        r.idempotencyKey = key ∧ out = r.stored (j.digestOf r) := by
  refine .bind authorizeWrite_checks fun _ _ => .bind (ensureHealthy_checks hcoherent) fun _ _ => ?_
  refine .bind require_checks fun found hfound => ?_
  obtain rfl := Option.some.inj (hcurrent.symm.trans hfound)
  rw [if_neg (by rw [hstarted]; decide), if_neg (by rw [hstarted]; decide),
    if_neg (by rw [hstarted]; decide), if_neg (by simp [hgeneration])]
  by_cases hopposite : effectApplied = true ∧ observedPaused ≠ current.desiredPaused
  · rw [if_pos hopposite]
    exact .throw _
  rw [if_neg hopposite]
  by_cases hreceipt : effectApplied = true ∧ receiptDigest.isNone = true
  · rw [if_pos hreceipt]
    exact .throw _
  rw [if_neg hreceipt]
  refine (append_conducts hcoherent).mono (fun _ h => h) fun r _ h => ?_
  refine ⟨?_, ?_, h.2⟩
  · rw [h.1]
    change (if effectApplied = true then DurablePauseState.verifiedApplied else _) = _ ∨
      (if effectApplied = true then _ else DurablePauseState.verifiedNotApplied) = _
    cases effectApplied with
    | true => exact .inl rfl
    | false => exact .inr rfl
  · rw [h.1]
    exact hkeyed key current hcurrent

end ControlEffectJournal

namespace PauseCommit

open EffectJournal ControlEffectJournal

section Commit

variable {j k : ControlEffectJournal} {r current : DurablePauseRecord} {key : String}
  {plan : Digest32} {token : PrepareToken} {context : OperationContext}
  {source : PauseCommitSource} {clock : CommitClock} {faults : CommitFaults}
  {effect : PauseEffect}

theorem verifiedReceipt_generation {receipt : Digest32}
    (h : verifiedReceipt current effect = .ok (some receipt)) :
    effect.bridgeGeneration = current.bridgeGeneration := by
  unfold verifiedReceipt at h
  by_cases hunknown : effect.bridgeGeneration ≠ current.bridgeGeneration ∨ (!effect.known) = true
  · rw [if_pos hunknown] at h
    cases h
  · exact not_not.1 (not_or.1 hunknown).1

/-- **What a reply to a started effect is recorded as.** -/
theorem reconcileReply_conducts (hcoherent : j.Coherent) (hkeyed : j.Keyed)
    (hcurrent : j.records.get? key = some current) (hstarted : current.state = .commitStarted) :
    Conducts (reconcileReply key plan effect context) j (fun _ => False)
      fun r out => (r.state.terminal = true ∨
          (r.state = .indeterminate ∧ verifiedReceipt current effect = .ok none)) ∧
        r.idempotencyKey = key ∧ out = r.stored (j.digestOf r) := by
  refine .of_bind fun _ _ => .get_bind (fun _ => rfl) (.guard fun _ => ?_)
  refine .bind (ensureHealthy_checks hcoherent) fun _ _ => .get_bind (fun _ => rfl) ?_
  rw [hcurrent]
  refine .guard fun _ => .guard fun _ => ?_
  cases hreceipt : verifiedReceipt current effect with
  | error e => exact .throw e
  | ok receipt =>
      cases receipt with
      | none =>
          refine (markIndeterminate_conducts hcoherent hkeyed).mono (fun out h => ?_)
            fun r out h => ?_
          · obtain rfl := Option.some.inj (hcurrent.symm.trans h.1)
            rw [hstarted] at h
            exact absurd h.2 (by decide)
          · exact ⟨.inr ⟨h.1, rfl⟩, h.2⟩
      | some receipt =>
          refine (recordReconciliation_started hcoherent hkeyed hcurrent hstarted
            (verifiedReceipt_generation hreceipt)).mono (fun _ h => h) fun r out h => ?_
          refine ⟨.inl ?_, h.2⟩
          rcases h.1 with hstate | hstate <;> rw [hstate] <;> rfl

theorem admit_checks (hcoherent : j.Coherent) :
    Checks (admitKey key plan token context) j fun record =>
      j.records.get? key = some record ∧ record.planDigest = plan ∧
        record.state ≠ .cancelledBeforeDispatch := by
  refine .of_bind fun _ _ => .get_bind (fun _ => rfl) (.guard fun _ => .guard fun _ => ?_)
  refine .bind (ensureHealthy_checks hcoherent) fun _ _ => .get_bind (fun _ => rfl) ?_
  cases hrecord : j.records.get? key with
  | none => exact .throw _
  | some record =>
      refine .guard fun hsame => .guard fun hcancelled => .pure ⟨rfl, ?_, hcancelled⟩
      exact not_not.1 (not_or.1 hsame).1

/-- **What precedes a dispatch**: a retained outcome is returned, or the start of a prepared effect
is written. -/
theorem start_conducts (hcoherent : j.Coherent) (hkeyed : j.Keyed) :
    Conducts (start source key plan token context clock) j
      (fun out => ∃ record, out = .inl ⟨record, false, true⟩ ∧
        j.records.get? key = some record ∧ record.state.terminal = true ∧
        record.state ≠ .cancelledBeforeDispatch)
      fun r out => out = .inr (r.stored (j.digestOf r)) ∧ r.idempotencyKey = key ∧
        r.state = .commitStarted ∧
        ∃ prior, j.records.get? key = some prior ∧ prior.state = .prepared := by
  refine .bind (admit_checks hcoherent) fun record hrecord => ?_
  by_cases hterminal : record.state.terminal = true
  · rw [if_pos hterminal]
    exact .pure ⟨record, rfl, hrecord.1, hterminal, hrecord.2.2⟩
  rw [if_neg hterminal]
  by_cases hunresolved : record.state.reconciliationRequired = true
  · rw [if_pos hunresolved]
    exact .throw _
  rw [if_neg hunresolved]
  refine .of_bind fun allowance _ => .of_bind fun generation _ => .guard fun hsafe => ?_
  refine .of_bind fun _ _ => ?_
  have hprepared : record.state = .prepared := by
    rw [Bool.not_eq_true, Bool.not_eq_false'] at hsafe
    exact (of_decide_eq_true hsafe).1
  refine (beginCommit_prepared hcoherent hkeyed hrecord.1 hprepared).bind_pure
    (fun _ h => absurd h not_false) fun r out h => ?_
  exact ⟨congrArg Sum.inr h.2.2, h.1, h.2.1, record, hrecord.1, hprepared⟩

/-- The best-effort annotation keeps a journal lively. -/
theorem ambiguous_lively {α : Type} {message : String} {result : Result α}
    (h : j.Lively) {fault : Option Nat}
    (hambiguous : ambiguous r context message (j.withFault fault) = (result, k)) :
    k.Lively ∧ Grows j.toJournalState k.toJournalState ∧ ∃ e, result = .error e := by
  rcases hexec : (markIndeterminate r.idempotencyKey r.planDigest context).exec
    (j.withFault fault) with ⟨out, k'⟩
  rw [ambiguous, hexec] at hambiguous
  obtain ⟨rfl, rfl⟩ := Prod.mk.inj hambiguous
  obtain ⟨hlively, hgrows⟩ := (markIndeterminate_conducts h.coherent h.keyed).exec_grows h hexec
  exact ⟨hlively, hgrows, _, rfl⟩

/-- What a commit that dispatched found and left. -/
structure Dispatched (j : ControlEffectJournal) (key : String) (faults : CommitFaults)
    (started : DurablePauseRecord) (k : ControlEffectJournal) : Prop where
  written : faults.start = none
  prepared : ∃ prior, j.records.get? key = some prior ∧ prior.state = .prepared
  marked : started.state = .commitStarted
  held : k.records.get? key = some started
  lively : k.Lively

/-- **What a commit does.** -/
structure Commits (source : PauseCommitSource) (key : String) (context : OperationContext)
    (faults : CommitFaults) (j : ControlEffectJournal) (committed : Committed) : Prop where
  lively : committed.journal.Lively
  grows : Grows j.toJournalState committed.journal.toJournalState
  dispatched : ∀ started k, committed.dispatch = some (started, k) →
    Dispatched j key faults started k ∧ Grows k.toJournalState committed.journal.toJournalState
  succeeded : ∀ outcome, committed.result = .ok outcome →
    committed.journal.records.get? key = some outcome.record ∧
      (outcome.record.state.terminal = true ∨
        (outcome.record.state = .indeterminate ∧
          ∃ started k allowance effect, committed.dispatch = some (started, k) ∧
            source.commitPrepared started allowance context = .ok effect ∧
            verifiedReceipt started effect = .ok none))

/-- The journal after the start of a commit is durable. -/
theorem started_held (hkey : r.idempotencyKey = key) (fault : Option Nat) :
    ((j.written r).withFault fault).records.get? key = some (r.stored (j.digestOf r)) := by
  change (j.pushed r).records.get? key = _
  rw [JournalState.pushed, OMap.get?_insert, if_pos hkey.symm]

/-- **What comes of the reply.** -/
theorem conclude_lively {reply : Result PauseEffect} {result : Result PauseCommitOutcome}
    {started : DurablePauseRecord} {fault : Option Nat} (h : j.Lively)
    (hheld : j.records.get? key = some started) (hstarted : started.state = .commitStarted)
    (hconclude : conclude key plan context started reply (j.withFault fault) = (result, k)) :
    k.Lively ∧ Grows j.toJournalState k.toJournalState ∧
      ∀ outcome, result = .ok outcome → k.records.get? key = some outcome.record ∧
        (outcome.record.state.terminal = true ∨ (outcome.record.state = .indeterminate ∧
          ∃ effect, reply = .ok effect ∧ verifiedReceipt started effect = .ok none)) := by
  unfold conclude at hconclude
  cases reply with
  | error e =>
      obtain ⟨hlively, hgrows, e', rfl⟩ := ambiguous_lively h hconclude
      exact ⟨hlively, hgrows, fun _ hok => absurd hok (by simp)⟩
  | ok effect =>
      dsimp only at hconclude
      have hconducts : Conducts (reconcileReply key plan effect context) j _ _ :=
        reconcileReply_conducts h.coherent h.keyed hheld hstarted
      rcases hexec : (reconcileReply key plan effect context).exec (j.withFault fault) with ⟨out, m⟩
      rw [hexec] at hconclude
      obtain ⟨hlively, hcases⟩ := hconducts.exec_cases h hexec
      cases out with
      | error e =>
          dsimp only at hconclude
          have hgrows := (hconducts.exec_grows h hexec).2
          have hsame : m.withFault m.storage.fault = m := rfl
          rw [← hsame] at hconclude
          obtain ⟨hlast, hgrows', e', rfl⟩ := ambiguous_lively hlively hconclude
          exact ⟨hlast, hgrows.trans hgrows', fun _ hok => absurd hok (by simp)⟩
      | ok record =>
          obtain ⟨rfl, rfl⟩ := Prod.mk.inj hconclude
          rcases hcases with ⟨-, hfalse⟩ | ⟨r, a, hadmits, ⟨hstate, hkey, rfl⟩,
            ⟨-, hout, rfl⟩ | ⟨_, _, -, hout, -⟩⟩
          · exact absurd (hfalse record rfl) not_false
          · obtain rfl := Except.ok.inj hout
            refine ⟨hlively, .pushed hadmits, fun outcome hok => ?_⟩
            obtain rfl := Except.ok.inj hok
            refine ⟨?_, ?_⟩
            · exact started_held hkey none
            · rcases hstate with hterminal | ⟨hindeterminate, hnone⟩
              · exact .inl hterminal
              · exact .inr ⟨hindeterminate, effect, rfl, hnone⟩
          · cases hout

/-- **A commit keeps the journal lively**; it dispatches a prepared effect whose start is durable,
and succeeds with a durable record. -/
theorem commit_commits (h : j.Lively) :
    Commits source key context faults j
      (commitWithClock source key plan token context clock faults j) := by
  unfold commitWithClock
  have hconducts : Conducts (start source key plan token context clock) j _ _ :=
    start_conducts h.coherent h.keyed
  rcases hexec : (start source key plan token context clock).exec (j.withFault faults.start) with
    ⟨out, m⟩
  obtain ⟨hlively, hcases⟩ := hconducts.exec_cases h hexec
  have hgrows := (hconducts.exec_grows h hexec).2
  cases out with
  | error e =>
      exact ⟨hlively, hgrows, fun _ _ hdispatch => absurd hdispatch (by simp),
        fun _ hok => absurd hok (by simp)⟩
  | ok outcome =>
      cases outcome with
      | inl outcome =>
          refine ⟨hlively, hgrows, fun _ _ hdispatch => absurd hdispatch (by simp), ?_⟩
          intro outcome' hok
          obtain rfl := Except.ok.inj hok
          rcases hcases with ⟨rfl, hretained⟩ | ⟨r, a, -, ⟨rfl, -⟩, ⟨-, hout, -⟩ | ⟨_, _, -, hout, -⟩⟩
          · obtain ⟨record, hrecord, hheld, hterminal, -⟩ := hretained _ rfl
            obtain rfl := Sum.inl.inj hrecord
            exact ⟨hheld, .inl hterminal⟩
          · cases hout
          · cases hout
      | inr started =>
          rcases hcases with ⟨-, hretained⟩ |
            ⟨r, a, hadmits, ⟨rfl, hkey, hstate, hprior⟩, ⟨hfault, hout, rfl⟩ | ⟨_, _, -, hout, -⟩⟩
          · obtain ⟨record, hrecord, -⟩ := hretained _ rfl
            cases hrecord
          · obtain rfl := Sum.inr.inj (Except.ok.inj hout)
            have hheld := started_held (j := j) hkey faults.evidence
            have hstarted : (r.stored (j.digestOf r)).state = .commitStarted := hstate
            dsimp only
            cases hremaining : remaining context clock.afterStart with
            | error e =>
                dsimp only
                generalize hambiguous : ambiguous _ _ _ _ = ended
                obtain ⟨result, k⟩ := ended
                obtain ⟨hlast, hgrows', e', rfl⟩ := ambiguous_lively hlively hambiguous
                exact ⟨hlast, hgrows.trans hgrows', fun _ _ hdispatch => absurd hdispatch (by simp),
                  fun _ hok => absurd hok (by simp)⟩
            | ok allowance =>
                dsimp only
                generalize hconclude : conclude _ _ _ _ _ _ = concluded
                obtain ⟨result, k⟩ := concluded
                obtain ⟨hlast, hgrows', hok⟩ := conclude_lively hlively hheld hstarted hconclude
                refine ⟨hlast, hgrows.trans hgrows', ?_, ?_⟩
                · intro started k' hdispatch
                  obtain ⟨rfl, rfl⟩ := Prod.mk.inj (Option.some.inj hdispatch)
                  exact ⟨⟨hfault, hprior, hstarted, hheld, hlively.withFault _⟩, hgrows'⟩
                · intro outcome houtcome
                  obtain ⟨hlater, hterminal | ⟨hindeterminate, effect, hreply, hnone⟩⟩ :=
                    hok outcome houtcome
                  · exact ⟨hlater, .inl hterminal⟩
                  · exact ⟨hlater, .inr ⟨hindeterminate, _, _, allowance, effect, rfl, hreply,
                      hnone⟩⟩
          · cases hout

/-! ## Runs -/

/-- What happens to a journal: a method is called, a commit is made, or the file is reopened, as it
is after a crash. -/
inductive Event (T : Type) where
  | operate (operation : Operation T)
  | commit (key : String) (committed : Committed)
  | reopen

/-- A step, where any write may fail. -/
inductive Step {T : Type} (j : ControlEffectJournal) : Event T → ControlEffectJournal → Prop
  | operate {operation : Operation T} {fault : Option Nat} {out : Result (Outcome T)}
      {k : ControlEffectJournal} (h : operation.run.exec (j.withFault fault) = (out, k)) :
      Step j (.operate operation) k
  | commit (source : PauseCommitSource) (key : String) (plan : Digest32) (token : PrepareToken)
      (context : OperationContext) (clock : CommitClock) (faults : CommitFaults) :
      Step j (.commit key (commitWithClock source key plan token context clock faults j))
        (commitWithClock source key plan token context clock faults j).journal
  | reopen {context : OperationContext} {initializeEmpty : Bool} {bridgeGeneration : U 64}
      {recovery : EffectTailRecovery} {k : ControlEffectJournal}
      (h : openJournal j.storage.restarted context initializeEmpty bridgeGeneration recovery =
        .ok k) : Step j .reopen k

/-- The key whose effect a step dispatches. -/
def Event.dispatched {T : Type} : Event T → Option String
  | .commit key committed => committed.dispatch.map fun _ => key
  | _ => none

/-- The number of dispatches of a key. -/
def dispatches {T : Type} (key : String) (events : List (Event T)) : Nat :=
  events.countP fun event => event.dispatched = some key

section Runs

variable {T : Type} {event : Event T} {events : List (Event T)}

/-- **What a step keeps.** -/
theorem step_lively (h : j.Lively) (hstep : Step j event k) :
    k.Lively ∧ Grows j.toJournalState k.toJournalState := by
  cases hstep with
  | operate hexec => exact (Operation.conducts _ h.coherent h.keyed).exec_grows h hexec
  | commit source key plan token context clock faults =>
      have hcommits : Commits source key context faults j
        (commitWithClock source key plan token context clock faults j) := commit_commits h
      exact ⟨hcommits.lively, hcommits.grows⟩
  | reopen hopen => exact h.reopen hopen

/-- A dispatch finds the effect prepared, and leaves it past that. -/
theorem step_dispatched (h : j.Lively) (hstep : Step j event k)
    (hdispatched : event.dispatched = some key) : ¬ PastPrepared j key ∧ PastPrepared k key := by
  cases hstep with
  | operate hexec => cases hdispatched
  | reopen hopen => cases hdispatched
  | commit source key' plan token context clock faults =>
      have hcommits : Commits source key' context faults j
        (commitWithClock source key' plan token context clock faults j) := commit_commits h
      obtain ⟨⟨started, m⟩, hdispatch, rfl⟩ := Option.map_eq_some_iff.1 hdispatched
      obtain ⟨hbegan, hgrows⟩ := hcommits.dispatched started m hdispatch
      refine ⟨?_, hgrows.pastPrepared ⟨started, hbegan.held, ?_⟩⟩
      · intro hpast
        obtain ⟨prior, hprior, hprepared⟩ := hbegan.prepared
        obtain ⟨a, ha, hstate⟩ := hpast
        obtain rfl := Option.some.inj (hprior.symm.trans ha)
        exact hstate hprepared
      · rw [hbegan.marked]
        decide

theorem run_lively (h : j.Lively) (hrun : Run Step j events k) : k.Lively :=
  hrun.preserves (fun _ _ _ ha hstep => (step_lively ha hstep).1) h

/-- **A key is dispatched at most once**, and never again once its effect is past prepared. -/
theorem run_dispatches (h : j.Lively) (hrun : Run Step j events k) (key : String) :
    dispatches key events ≤ 1 ∧ (PastPrepared j key → dispatches key events = 0) := by
  induction hrun with
  | nil => exact ⟨Nat.zero_le 1, fun _ => rfl⟩
  | @cons j m k event events head tail ih =>
      obtain ⟨hlively, hgrows⟩ := step_lively h head
      obtain ⟨honce, hnever⟩ := ih hlively
      rw [dispatches, List.countP_cons]
      change dispatches key events + _ ≤ 1 ∧ (PastPrepared j key → dispatches key events + _ = 0)
      by_cases hdispatched : event.dispatched = some key
      · obtain ⟨hbefore, hafter⟩ := step_dispatched h head hdispatched
        rw [hnever hafter, if_pos (decide_eq_true hdispatched)]
        exact ⟨le_rfl, fun hpast => absurd hpast hbefore⟩
      · rw [if_neg (by simpa using hdispatched)]
        exact ⟨honce, fun hpast => hnever (hgrows.pastPrepared hpast)⟩

/-- **Pause effects are dispatched at most once.** In every state that a run of operations, commits
and reopenings reaches from an opened journal, with any write failing anywhere in its frame: each key
was dispatched at most once, and is not dispatched later once its effect is started, resolved or
cancelled; a commit dispatches only when its first write succeeded, for a prepared effect whose
started record is durable; and it succeeds only with a durable record of the key, a terminal one
unless the reply to its own dispatch proves no outcome. -/
theorem pause_dispatched_once {bytes : Bytes} {initializeEmpty : Bool} {bridgeGeneration : U 64}
    {recovery : EffectTailRecovery} {opened : ControlEffectJournal}
    (hopen : openJournal ⟨bytes, none⟩ context initializeEmpty bridgeGeneration recovery =
      .ok opened) (hrun : Run Step opened events j) :
    (∀ key, dispatches key events ≤ 1) ∧
    (∀ key r, j.records.get? key = some r → r.state ≠ .prepared →
      ∀ (later : List (Event T)) (k : ControlEffectJournal), Run Step j later k →
        dispatches key later = 0) ∧
    ∀ source key plan token context clock faults, ∀ committed : Committed,
      commitWithClock source key plan token context clock faults j = committed →
      (∀ started k, committed.dispatch = some (started, k) →
        faults.start = none ∧
        (∃ prior, j.records.get? key = some prior ∧ prior.state = .prepared) ∧
        started.state = .commitStarted ∧ Durable k key started) ∧
      ∀ outcome, committed.result = .ok outcome →
        Durable committed.journal key outcome.record ∧
        (outcome.record.state.terminal = true ∨
          (outcome.record.state = .indeterminate ∧
            ∃ started k allowance effect, committed.dispatch = some (started, k) ∧
              source.commitPrepared started allowance context = .ok effect ∧
              verifiedReceipt started effect = .ok none)) := by
  have hstart := (openJournal_sound hopen).lively
  have hlively := run_lively hstart hrun
  refine ⟨fun key => (run_dispatches hstart hrun key).1, ?_, ?_⟩
  · intro key r hr hstate later k hlater
    exact (run_dispatches hlively hlater key).2 ⟨r, hr, hstate⟩
  · intro source key plan token context clock faults committed hcommitted
    subst hcommitted
    have hcommits : Commits source key context faults j
      (commitWithClock source key plan token context clock faults j) := commit_commits hlively
    refine ⟨?_, ?_⟩
    · intro started k hdispatch
      have hbegan := (hcommits.dispatched started k hdispatch).1
      exact ⟨hbegan.written, hbegan.prepared, hbegan.marked, hbegan.lively.durable hbegan.held⟩
    · intro outcome hok
      obtain ⟨hheld, hstate⟩ := hcommits.succeeded outcome hok
      exact ⟨hcommits.lively.durable hheld, hstate⟩

end Runs

end Commit

/-! ## A reply that proves nothing -/

namespace Silence

open ControlEffectJournal.Sample

/-- The bridge does not know the effect it was sent. -/
def reply : PauseEffect := ⟨7, false, false, false, 0, [], []⟩

def source : PauseCommitSource := ⟨fun _ _ => .ok 7, fun _ _ _ => .ok reply⟩
def clock : CommitClock := ⟨0, 0, 0⟩
def faults : CommitFaults := ⟨none, none⟩

def committed : Committed := commitWithClock source "k" .zero token context clock faults held

theorem admit_settles :
    Settles (admitKey "k" .zero token context) held (.ok (prepared.stored firstDigest)) := by
  have hhealthy : Settles (ensureHealthy context) held (.ok ()) :=
    ensureHealthy_settles mayOpen.authorized rfl held_sound.measured
  have hkey : ¬ ("k" = "" ∨ strLen "k" > 512 ∨ "k".toList.any isControl = true) := by decide
  refine Settles.bind (a := ()) (fun _ => congrArg (·, _) mayOpen.authorized) ?_
  refine .get_bind (fun _ => rfl) ?_
  rw [if_neg (by decide), if_neg hkey]
  refine hhealthy.bind (.get_bind (fun _ => rfl) ?_)
  rw [held_get]
  exact fun _ => rfl

theorem remaining_eq : remaining context 0 = .ok (millis 2000) := by decide

theorem start_writes : Writes (start source "k" .zero token context clock) held started
    (.inr (started.stored secondDigest)) := by
  refine admit_settles.bind_writes ?_
  rw [if_neg (by decide), if_neg (by decide)]
  refine Settles.bind_writes (a := millis 2000) (fun _ => congrArg (·, _) remaining_eq) ?_
  refine Settles.bind_writes (a := 7) (fun _ => rfl) ?_
  rw [if_neg (by decide)]
  refine Settles.bind_writes (a := millis 2000) (fun _ => congrArg (·, _) remaining_eq) ?_
  exact started_writes.bind_pure

/-- The third record, which leaves the effect unresolved. -/
def unresolved : DurablePauseRecord :=
  { started.stored secondDigest with
    state := .indeterminate
    revision := 3
    transitionNumber := 3
    previousDigest := secondDigest }

theorem unresolved_valid :
    validateTransition (some (started.stored secondDigest)) unresolved = .ok () := by
  refine validateTransition_ok_iff.2 ⟨show validateKey "k" = .ok () by decide, ?_, rfl, rfl⟩
  intro hinvalid
  rcases hinvalid with h | h | h | h | h
  · exact absurd (show (7 : U 64) = 0 from h) (by decide)
  · exact absurd (show (7 : U 64) = U.max 64 from h) (by decide)
  · exact absurd (show token = .zero from h) (by decide)
  · exact absurd (show (3 : U 64) = 0 from h) (by decide)
  · exact started_digest h

theorem unresolved_admits : afterStarted.Admits unresolved where
  transitions := by decide
  effects := by
    intro hfull
    rw [OMap.contains, show unresolved.idempotencyKey = "k" from rfl, afterStarted_get] at hfull
    cases hfull.1
  numbered := rfl
  chained := rfl
  revised := by
    rw [show unresolved.idempotencyKey = "k" from rfl, afterStarted_get]
    rfl
  valid := by
    rw [show unresolved.idempotencyKey = "k" from rfl, afterStarted_get]
    exact unresolved_valid
  fits := by
    rw [length_frame_eq rfl, afterStarted, JournalState.pushed, length_frame_eq rfl, afterPrepared,
      JournalState.pushed, length_frame_eq rfl]
    decide

theorem begun_get : begun.records.get? "k" = some (started.stored secondDigest) := by
  rw [begun_state]
  exact afterStarted_get

theorem reconcile_writes : Writes (reconcileReply "k" .zero reply context) begun unresolved
    (unresolved.stored (afterStarted.digestOf unresolved)) := by
  have hhealthy : Settles (ensureHealthy context) begun (.ok ()) :=
    ensureHealthy_settles mayOpen.authorized rfl begun_sound.measured
  have hdated : dated begun.toJournalState
      { started.stored secondDigest with state := .indeterminate } = unresolved := by
    rw [dated, show (started.stored secondDigest).idempotencyKey = "k" from rfl, begun_get,
      begun_state]
    rfl
  have hadmits : begun.Admits (dated begun.toJournalState
      { started.stored secondDigest with state := .indeterminate }) := by
    rw [hdated, begun_state]
    exact unresolved_admits
  have h : Writes (markIndeterminate "k" .zero context) begun (dated begun.toJournalState
      { started.stored secondDigest with state := .indeterminate }) _ :=
    markIndeterminate_writes mayOpen.authorized rfl rfl begun_sound.measured
      (show validateKey "k" = .ok () by decide) begun_get rfl rfl rfl hadmits
  rw [hdated, begun_state] at h
  refine Settles.bind_writes (a := ()) (fun _ => congrArg (·, _) mayOpen.authorized) ?_
  refine Writes.get_bind ?_ fun _ => rfl
  rw [if_neg (by decide)]
  refine hhealthy.bind_writes (Writes.get_bind ?_ fun _ => rfl)
  rw [begun_get]
  exact h

theorem committed_eq : committed = ⟨.ok ⟨unresolved.stored (afterStarted.digestOf unresolved), true,
    false⟩, begun.written unresolved, some (started.stored secondDigest, begun)⟩ := by
  have hstart : (start source "k" .zero token context clock).exec (held.withFault faults.start) =
      (.ok (.inr (started.stored secondDigest)), begun) := start_writes.done
  have hreconcile : (reconcileReply "k" .zero reply context).exec begun =
      (.ok (unresolved.stored (afterStarted.digestOf unresolved)), begun.written unresolved) :=
    reconcile_writes.done
  have hremaining : remaining context clock.afterStart = .ok (millis 2000) := remaining_eq
  have hconclude : conclude "k" .zero context (started.stored secondDigest)
      (source.commitPrepared (started.stored secondDigest) (millis 2000) context)
      (begun.withFault faults.evidence) =
      (.ok ⟨unresolved.stored (afterStarted.digestOf unresolved), true, false⟩,
        begun.written unresolved) := by
    change conclude "k" .zero context (started.stored secondDigest) (.ok reply) begun = _
    rw [conclude, hreconcile]
  rw [committed, commitWithClock, hstart]
  dsimp only
  rw [hremaining]
  dsimp only
  rw [hconclude]
  rfl

end Silence

open ControlEffectJournal.Sample Silence in
/-- A prepared effect is dispatched, with its start durable. -/
theorem pause_dispatched_sample :
    faults.start = none ∧ Durable begun "k" (started.stored secondDigest) ∧
      dispatches "k" [Event.operate prepareOperation, .commit "k" committed] ≤ 1 := by
  have hprepare : Step (fresh context 7) (.operate prepareOperation) held :=
    .operate (prepare_writes.exec_eq fresh_sound)
  have hcommit : Step held (.commit (T := Unit) "k" committed) committed.journal :=
    .commit source "k" .zero token context clock faults
  have hrun : Run Step (fresh context 7) [.operate prepareOperation] held :=
    .cons hprepare (.nil held)
  have hdispatch : committed.dispatch = some (started.stored secondDigest, begun) := by
    rw [committed_eq]
  have h := (pause_dispatched_once open_fresh hrun).2.2 source "k" .zero token context clock faults
    committed rfl
  obtain ⟨hfault, -, -, hdurable⟩ := h.1 _ _ hdispatch
  exact ⟨hfault, hdurable,
    (pause_dispatched_once open_fresh (.cons hprepare (.cons hcommit (.nil _)))).1 "k"⟩

open ControlEffectJournal.Sample Silence in
/-- **A commit succeeds with a record that is not terminal.** The effect of a new journal is prepared
and committed, and the bridge answers that it does not know it: the call succeeds, and the journal it
leaves holds no terminal record of the key. -/
theorem indeterminate_success :
    openJournal ⟨[], none⟩ context true 7 .refuse = .ok (fresh context 7) ∧
    Run Step (fresh context 7) [Event.operate prepareOperation] held ∧
    ∃ outcome, (commitWithClock source "k" .zero token context clock faults held).result =
        .ok outcome ∧ outcome.record.state = .indeterminate ∧
      ∀ r, committed.journal.records.get? "k" = some r → r.state.terminal = false := by
  refine ⟨open_fresh, .cons (.operate (prepare_writes.exec_eq fresh_sound)) (.nil held), ?_⟩
  have hcommitted := committed_eq
  refine ⟨⟨unresolved.stored (afterStarted.digestOf unresolved), true, false⟩, ?_, rfl, ?_⟩
  · rw [← committed, hcommitted]
  · intro r hr
    rw [hcommitted] at hr
    change (begun.pushed unresolved).records.get? "k" = some r at hr
    rw [JournalState.pushed, OMap.get?_insert,
      if_pos (show "k" = unresolved.idempotencyKey from rfl)] at hr
    obtain rfl := Option.some.inj hr
    rfl

end PauseCommit

end Dfmcp
