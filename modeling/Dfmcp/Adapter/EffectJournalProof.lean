import Dfmcp.Adapter.EffectActionProof
import Dfmcp.Library.Runs

/-!
# The effect journal survives crashes

A journal is sound when its file replays to exactly what it holds in memory. A run is a sequence of
operations, each either completed or interrupted anywhere in its write and followed by reopening
the file; sound journals stay sound along it as long as no operation verifies an applied effect by
a receipt of all zero bytes. Such a receipt is written as an absent one, which the writer accepts and
the reader does not: the journal that holds it cannot be opened again.

* `Recorded.reopen`, `Recorded.reopen_torn` — what a file reopens as;
* `step_sound`, `step_moves` — what one step keeps, and how it may change a record;
* `effect_journal_survives_crashes` — the same of every run;
* `zero_receipt_fences_journal` — a run whose file does not reopen.
-/

namespace Dfmcp

open Machine FrameLog

namespace ControlEffectJournal

open EffectJournal

/-! ## Files -/

/-- The file replays to the state. -/
structure Recorded (bytes : Bytes) (s : JournalState) : Prop where
  headed : headerBytes ≤ bytes.length
  bounded : bytes.length ≤ maxLedgerBytes
  replays : ∃ headerDigest, decodeHeader (bytes.take headerBytes) = .ok (s.id, headerDigest) ∧
    replay JournalState.readFrame (.empty s.id headerDigest) (bytes.drop headerBytes) = .ok (s, [])

variable {bytes : Bytes} {s : JournalState} {r : DurablePauseRecord} {j : ControlEffectJournal}
  {context : OperationContext} {initializeEmpty : Bool} {bridgeGeneration : U 64}
  {recovery : EffectTailRecovery}

namespace Recorded

theorem length_eq (h : Recorded bytes s) : bytes.length = s.length := by
  obtain ⟨headerDigest, -, hreplay⟩ := h.replays
  have hmeasure := replay_measure JournalState.local_readFrame
    (f := JournalState.length) JournalState.readFrame_length hreplay
  have hheaded := h.headed
  rw [List.length_drop, List.length_nil, JournalState.empty] at hmeasure
  change s.length + 0 = headerBytes + (bytes.length - headerBytes) at hmeasure
  omega

theorem keyed (h : Recorded bytes s) : s.Keyed := by
  obtain ⟨headerDigest, -, hreplay⟩ := h.replays
  exact replay_preserves JournalState.local_readFrame JournalState.readFrame_keyed
    (JournalState.keyed_empty _ _) hreplay

/-- What follows a recorded file is read from its state. -/
theorem replay_append (h : Recorded bytes s) (rest : Bytes) : ∃ headerDigest,
    decodeHeader ((bytes ++ rest).take headerBytes) = .ok (s.id, headerDigest) ∧
    replay JournalState.readFrame (.empty s.id headerDigest) ((bytes ++ rest).drop headerBytes) =
      replay JournalState.readFrame s rest := by
  obtain ⟨headerDigest, hheader, hreplay⟩ := h.replays
  refine ⟨headerDigest, ?_, ?_⟩
  · rw [List.take_append_of_le_length h.headed]
    exact hheader
  · rw [List.drop_append_of_le_length h.headed]
    exact FrameLog.replay_append JournalState.local_readFrame hreplay rest

/-- A frame that is accepted extends the file. -/
theorem append (h : Recorded bytes s) (hadmits : s.Admits r) (hdigest : s.digestOf r ≠ .zero)
    (hreceipt : ¬ (r.effectApplied = true ∧ r.receiptDigest = some .zero)) :
    Recorded (bytes ++ frame s.id r) (s.pushed r) := by
  obtain ⟨headerDigest, hheader, hreplay⟩ := h.replay_append (frame s.id r)
  have hread := (hadmits.readFrame_frame_iff []).2 ⟨hdigest, hreceipt⟩
  rw [List.append_nil] at hread
  refine ⟨?_, ?_, headerDigest, hheader, ?_⟩
  · rw [List.length_append]
    exact h.headed.trans (Nat.le_add_right _ _)
  · rw [List.length_append, h.length_eq]
    exact hadmits.fits
  · refine hreplay.trans ?_
    rw [replay_frame JournalState.local_readFrame hread, List.drop_length]
    rfl

end Recorded

/-! ## Opening -/

/-- A caller that may reopen a journal for writing. -/
structure MayOpen (context : OperationContext) (bridgeGeneration : U 64) : Prop where
  authorized : authorize context = .ok ()
  generation : ¬ (bridgeGeneration = 0 ∨ bridgeGeneration = U.max 64)

/-- A file with a header is opened as it is: what it replays to, and its torn tail cut off. -/
theorem openJournal_eq {headerDigest id : Digest32} {tail : Bytes} (initializeEmpty : Bool)
    (hcaller : MayOpen context bridgeGeneration)
    (hheaded : headerBytes ≤ bytes.length) (hbounded : bytes.length ≤ maxLedgerBytes)
    (hheader : decodeHeader (bytes.take headerBytes) = .ok (id, headerDigest))
    (hreplay : replay JournalState.readFrame (.empty id headerDigest) (bytes.drop headerBytes) =
      .ok (s, tail)) (hlength : s.length + tail.length = bytes.length) :
    openJournal ⟨bytes, none⟩ context initializeEmpty bridgeGeneration .truncateIncomplete =
      .ok ⟨s, ⟨bytes.take s.length, none⟩, false, false, tail.length⟩ := by
  have hstarted : writeHeader ⟨bytes, none⟩ context initializeEmpty bridgeGeneration =
      .ok ⟨bytes, none⟩ := by
    refine if_neg fun h => ?_
    have hempty : bytes.length = 0 := h.1
    unfold headerBytes at hheaded
    omega
  refine check_ok_iff.2 ⟨hcaller.authorized, guard_ok_iff.2 ⟨hcaller.generation, ?_⟩⟩
  refine guard_ok_iff.2 ⟨not_lt.2 hbounded, bind_ok_iff.2 ⟨_, hstarted, ?_⟩⟩
  refine guard_ok_iff.2 ⟨not_lt.2 hheaded, bind_ok_iff.2 ⟨_, hheader, ?_⟩⟩
  refine bind_ok_iff.2 ⟨_, hreplay, ?_⟩
  by_cases hwhole : s.length = bytes.length
  · have htail : tail.length = 0 := by omega
    rw [htail, hwhole, List.take_length]
    exact if_pos hwhole
  · refine (if_neg hwhole).trans ((if_neg (not_not.2 rfl)).trans ?_)
    refine check_ok_iff.2 ⟨hcaller.authorized, bind_ok_iff.2 ⟨_, rfl, pure_ok_iff.2 ?_⟩⟩
    rw [← hlength, Nat.add_sub_cancel_left]

/-- **A recorded file reopens as its state.** -/
theorem Recorded.reopen (h : Recorded bytes s) (hcaller : MayOpen context bridgeGeneration) :
    openJournal ⟨bytes, none⟩ context initializeEmpty bridgeGeneration .truncateIncomplete =
      .ok ⟨s, ⟨bytes, none⟩, false, false, 0⟩ := by
  obtain ⟨headerDigest, hheader, hreplay⟩ := h.replays
  have hopen := openJournal_eq initializeEmpty hcaller h.headed h.bounded hheader hreplay
    h.length_eq.symm
  rwa [← h.length_eq, List.take_length] at hopen

/-- **A file with a part of a frame after it reopens as its state.** -/
theorem Recorded.reopen_torn (h : Recorded bytes s) (hadmits : s.Admits r) {room : Nat}
    (hroom : room < (frame s.id r).length) (hcaller : MayOpen context bridgeGeneration) :
    openJournal ⟨bytes ++ (frame s.id r).take room, none⟩ context initializeEmpty bridgeGeneration
      .truncateIncomplete = .ok ⟨s, ⟨bytes, none⟩, false, false, room⟩ := by
  obtain ⟨headerDigest, hheader, hreplay⟩ := h.replay_append ((frame s.id r).take room)
  rw [replay_torn (hadmits.readFrame_torn hroom)] at hreplay
  have hfits := hadmits.fits
  have hheaded := h.headed
  have htaken : ((frame s.id r).take room).length = room := List.length_take_of_le hroom.le
  have hopen := openJournal_eq initializeEmpty hcaller (by rw [List.length_append]; omega)
    (by rw [List.length_append, h.length_eq, htaken]; omega) hheader hreplay
    (by rw [List.length_append, h.length_eq])
  rwa [← h.length_eq, List.take_left' rfl, htaken] at hopen

/-- A journal whose file replays to what it holds. -/
structure Sound (j : ControlEffectJournal) : Prop where
  reliable : j.storage.fault = none
  unfenced : j.fenced = false
  recorded : Recorded j.storage.bytes j.toJournalState

theorem Sound.measured (h : j.Sound) : j.Measured := h.recorded.length_eq

/-- A storage that is given a header is a file with a bounded length. -/
theorem writeHeader_ok {storage : Storage} (hbounded : bytes.length ≤ maxLedgerBytes)
    (h : writeHeader ⟨bytes, none⟩ context initializeEmpty bridgeGeneration = .ok storage) :
    storage.fault = none ∧ storage.bytes.length ≤ maxLedgerBytes := by
  rw [writeHeader] at h
  split at h
  · rename_i hempty
    obtain rfl := Except.ok.inj h
    refine ⟨rfl, ?_⟩
    have hmagic : magic.length = 8 := by decide
    change (bytes ++ freshHeader context bridgeGeneration).length ≤ maxLedgerBytes
    rw [List.length_append, show bytes.length = 0 from hempty.1, freshHeader]
    simp only [List.length_append, hmagic, Digest32.length_eq]
    decide
  · obtain rfl := Except.ok.inj h
    exact ⟨rfl, hbounded⟩

/-- What an opened journal has been read from. -/
theorem openJournal_ok
    (h : openJournal ⟨bytes, none⟩ context initializeEmpty bridgeGeneration recovery = .ok j) :
    ∃ file id headerDigest s tail,
      writeHeader ⟨bytes, none⟩ context initializeEmpty bridgeGeneration = .ok ⟨file, none⟩ ∧
      headerBytes ≤ file.length ∧ file.length ≤ maxLedgerBytes ∧
      decodeHeader (file.take headerBytes) = .ok (id, headerDigest) ∧
      replay JournalState.readFrame (.empty id headerDigest) (file.drop headerBytes) =
        .ok (s, tail) ∧
      j = ⟨s, ⟨file.take s.length, none⟩, false, false, file.length - s.length⟩ := by
  obtain ⟨-, h⟩ := check_ok_iff.1 h
  obtain ⟨-, h⟩ := guard_ok_iff.1 h
  obtain ⟨hbounded, h⟩ := guard_ok_iff.1 h
  obtain ⟨⟨file, fault⟩, hfile, h⟩ := bind_ok_iff.1 h
  obtain ⟨rfl, hlimit⟩ := writeHeader_ok (not_lt.1 hbounded) hfile
  obtain ⟨hheaded, h⟩ := guard_ok_iff.1 h
  obtain ⟨⟨id, headerDigest⟩, hheader, h⟩ := bind_ok_iff.1 h
  obtain ⟨⟨s, tail⟩, hreplay, h⟩ := bind_ok_iff.1 h
  refine ⟨file, id, headerDigest, s, tail, hfile, not_lt.1 hheaded, hlimit, hheader, hreplay, ?_⟩
  change (if s.length = file.length then _ else _) = _ at h
  split at h
  · rename_i hwhole
    rw [hwhole, List.take_length, Nat.sub_self]
    exact (pure_ok_iff.1 h).symm
  · split at h
    · cases h
    · obtain ⟨-, h⟩ := check_ok_iff.1 h
      obtain ⟨truncated, htruncated, h⟩ := bind_ok_iff.1 h
      obtain rfl := Except.ok.inj htruncated
      exact (pure_ok_iff.1 h).symm

/-- **What is opened is sound.** -/
theorem openJournal_sound
    (h : openJournal ⟨bytes, none⟩ context initializeEmpty bridgeGeneration recovery = .ok j) :
    j.Sound := by
  obtain ⟨file, id, headerDigest, s, tail, -, hheaded, hlimit, hheader, hreplay, rfl⟩ :=
    openJournal_ok h
  have hid : s.id = id := replay_preserves JournalState.local_readFrame
    (fun hs hread => (JournalState.readFrame_id hread).trans hs) rfl hreplay
  have hmeasure := replay_measure JournalState.local_readFrame JournalState.readFrame_length hreplay
  obtain ⟨log, hlog, hreplayed⟩ := replay_split JournalState.local_readFrame hreplay
  rw [List.length_drop, show (JournalState.empty id headerDigest).length = headerBytes from rfl]
    at hmeasure
  have hlength : headerBytes + log.length = s.length := by
    have hsplit := congrArg List.length hlog
    rw [List.length_drop, List.length_append] at hsplit
    omega
  have htaken : (file.take headerBytes).length = headerBytes := List.length_take_of_le hheaded
  have hfile : file.take s.length = file.take headerBytes ++ log := by
    conv_lhs => rw [← List.take_append_drop headerBytes file, hlog]
    rw [← List.append_assoc]
    refine List.take_left' ?_
    rw [List.length_append, htaken]
    exact hlength
  refine ⟨rfl, rfl, ?_, (List.length_take_le' _ _).trans hlimit, headerDigest, ?_, ?_⟩
  · change headerBytes ≤ (file.take s.length).length
    rw [hfile, List.length_append, htaken]
    omega
  · change decodeHeader ((file.take s.length).take headerBytes) = _
    rw [hfile, List.take_left' htaken, hid]
    exact hheader
  · change replay _ _ ((file.take s.length).drop headerBytes) = _
    rw [hfile, List.drop_left' htaken, hid]
    exact hreplayed

/-- A file that ends in a frame that cannot be accepted again does not reopen. -/
theorem Recorded.not_reopen (h : Recorded bytes s) (hadmits : s.Admits r)
    (hunsound : ¬ (s.digestOf r ≠ .zero ∧
      ¬ (r.effectApplied = true ∧ r.receiptDigest = some .zero))) :
    openJournal ⟨bytes ++ frame s.id r, none⟩ context initializeEmpty bridgeGeneration recovery ≠
      .ok j := by
  intro hopen
  obtain ⟨file, id, headerDigest, t, tail, hfile, -, -, hheader, hreplay, -⟩ := openJournal_ok hopen
  obtain rfl : bytes ++ frame s.id r = file := by
    have hheaded := h.headed
    rw [writeHeader, if_neg] at hfile
    · exact congrArg Storage.bytes (Except.ok.inj hfile)
    · intro hempty
      have hzero : (bytes ++ frame s.id r).length = 0 := hempty.1
      rw [List.length_append] at hzero
      unfold headerBytes at hheaded
      omega
  obtain ⟨headerDigest', hheader', hreplay'⟩ := h.replay_append (frame s.id r)
  obtain ⟨rfl, rfl⟩ := Prod.mk.inj (Except.ok.inj (hheader.symm.trans hheader'))
  obtain ⟨e, he⟩ := hadmits.readFrame_refused [] hunsound
  rw [List.append_nil] at he
  have hnonempty : frame s.id r ≠ [] := by
    intro hempty
    have hlength := length_frame s.id r
    rw [hempty, List.length_nil, frameLength] at hlength
    omega
  rw [hreplay', replay_error hnonempty he] at hreplay
  cases hreplay

theorem mayOpen_of_openJournal
    (h : openJournal ⟨bytes, none⟩ context initializeEmpty bridgeGeneration recovery = .ok j) :
    MayOpen context bridgeGeneration := by
  obtain ⟨hcontext, h⟩ := check_ok_iff.1 h
  exact ⟨hcontext, (guard_ok_iff.1 h).1⟩

/-! ## Steps -/

variable {T : Type} {operation : Operation T} {event : Event T} {k : ControlEffectJournal}

/-- An operation is safe when what it verifies is evidenced, and the frame it appends does not have
the reserved zero digest. -/
structure Operation.Safe (j : ControlEffectJournal) (operation : Operation T) : Prop where
  evidenced : operation.Evidenced j.toJournalState
  hashed : (operation.run.exec j).2.head = .zero → j.head = .zero

/-- A step whose operation is safe. -/
def SafeStep (j : ControlEffectJournal) (event : Event T) (k : ControlEffectJournal) : Prop :=
  Step j event k ∧ event.operation.Safe j

/-- What is appended can be read again. -/
structure Readable (s : JournalState) (r : DurablePauseRecord) : Prop where
  admits : s.Admits r
  digest : s.digestOf r ≠ .zero
  receipt : ¬ (r.effectApplied = true ∧ r.receiptDigest = some .zero)

theorem Sound.withFault_none (h : j.Sound) : j.withFault none = j := by
  obtain ⟨state, ⟨file, fault⟩, fenced, readOnly, repaired⟩ := j
  obtain rfl : fault = none := h.reliable
  rfl

/-- A safe operation changes nothing, or appends a record that can be read again; interrupted, it
leaves the file as it was or with a part of that record's frame. -/
theorem Operation.safe_cases (operation : Operation T) (h : j.Sound) (hsafe : operation.Safe j) :
    (∃ out, (∀ fault, operation.run.exec (j.withFault fault) = (out, j.withFault fault)) ∧
      (Event.call operation out).started = none) ∨
    ∃ r out, Readable j.toJournalState r ∧ operation.run.exec j = (.ok out, j.written r) ∧
      (∀ room, (operation.run.exec (j.withFault (some room))).2 = j.torn r room) ∧
      ∀ key, (Event.call operation (.ok out)).started = some key →
        r.idempotencyKey = key ∧ r.state = .commitStarted := by
  rcases operation.conducts (.inr h.measured) h.recorded.keyed with ⟨out, hout, hstarted⟩ |
    ⟨r, out, hwrites, hevidenced, hstarted⟩
  · refine .inl ⟨out, hout, ?_⟩
    cases out with
    | error e => cases operation <;> rfl
    | ok out => exact hstarted out rfl
  · have hvalid := validateTransition_ok_iff.1 hwrites.admits.valid
    have hdone := hwrites.done
    rw [h.withFault_none] at hdone
    refine .inr ⟨r, out, ⟨hwrites.admits, ?_, ?_⟩, hdone, fun room => ?_, hstarted⟩
    · intro hzero
      have hhead := hsafe.hashed
      rw [hdone] at hhead
      have hchained := hwrites.admits.chained
      rw [hhead hzero] at hchained
      exact hvalid.2.1 (.inr (.inr (.inr (.inr hchained))))
    · intro hboth
      have happlied := validateOutcome_applied hvalid.2.2.2
      rw [hboth.1] at happlied
      exact hevidenced hsafe.evidenced (of_decide_eq_true happlied.symm) hboth.2
    · obtain ⟨e, he⟩ := hwrites.interrupted room
      rw [he]

theorem Readable.recorded {r : DurablePauseRecord} (h : Readable s r) (hfile : Recorded bytes s) :
    Recorded (bytes ++ frame s.id r) (s.pushed r) := hfile.append h.admits h.digest h.receipt

/-- The file reopens as the state, whoever may open it. -/
def Reopens (bytes : Bytes) (s : JournalState) : Prop :=
  ∀ context initializeEmpty bridgeGeneration, MayOpen context bridgeGeneration →
    ∃ k, openJournal ⟨bytes, none⟩ context initializeEmpty bridgeGeneration .truncateIncomplete =
      .ok k ∧ k.toJournalState = s

theorem Recorded.reopens (h : Recorded bytes s) : Reopens bytes s :=
  fun _ _ _ hcaller => ⟨_, h.reopen hcaller, rfl⟩

/-- **An interrupted append leaves the state before it or after it.** -/
theorem Readable.reopens {r : DurablePauseRecord} (h : Readable s r) (hfile : Recorded bytes s)
    (room : Nat) : Reopens (bytes ++ (frame s.id r).take room) s ∨
      Reopens (bytes ++ (frame s.id r).take room) (s.pushed r) := by
  by_cases hroom : room < (frame s.id r).length
  · exact .inl fun _ _ _ hcaller => ⟨_, hfile.reopen_torn h.admits hroom hcaller, rfl⟩
  · rw [List.take_of_length_le (not_lt.1 hroom)]
    exact .inr (h.recorded hfile).reopens

/-- **What a safe step does** to a sound journal: nothing, or one append. -/
theorem step_cases (h : j.Sound) (hstep : SafeStep j event k) : k.Sound ∧
    (k.toJournalState = j.toJournalState ∧ event.started = none ∨
    ∃ r, j.Admits r ∧ k.toJournalState = j.pushed r ∧
      ∀ key, event.started = some key → r.idempotencyKey = key ∧ r.state = .commitStarted) := by
  obtain ⟨hstep, hsafe⟩ := hstep
  cases hstep with
  | @call _ operation out hreturns =>
      rcases operation.safe_cases h hsafe with ⟨out', hsettles, hstarted⟩ |
        ⟨r, out', hreadable, hdone, -, hstarted⟩
      · have hexec := hsettles none
        rw [h.withFault_none, hreturns] at hexec
        obtain ⟨rfl, rfl⟩ := Prod.mk.inj hexec
        exact ⟨h, .inl ⟨rfl, hstarted⟩⟩
      · rw [hreturns] at hdone
        obtain ⟨rfl, rfl⟩ := Prod.mk.inj hdone
        exact ⟨⟨rfl, h.unfenced, hreadable.recorded h.recorded⟩,
          .inr ⟨r, hreadable.admits, rfl, hstarted⟩⟩
  | @crash _ operation room context initializeEmpty bridgeGeneration hreopens =>
      have hcaller := mayOpen_of_openJournal hreopens
      refine ⟨openJournal_sound hreopens, ?_⟩
      rcases operation.safe_cases h hsafe with ⟨out', hsettles, -⟩ |
        ⟨r, out', hreadable, -, htorn, -⟩
      · rw [hsettles (some room)] at hreopens
        obtain rfl := Except.ok.inj ((h.recorded.reopen hcaller).symm.trans hreopens)
        exact .inl ⟨rfl, rfl⟩
      · rw [htorn room] at hreopens
        rcases hreadable.reopens h.recorded room with hbefore | hafter
        · obtain ⟨k', hk', hstate⟩ := hbefore context initializeEmpty bridgeGeneration hcaller
          obtain rfl := Except.ok.inj (hk'.symm.trans hreopens)
          exact .inl ⟨hstate, rfl⟩
        · obtain ⟨k', hk', hstate⟩ := hafter context initializeEmpty bridgeGeneration hcaller
          obtain rfl := Except.ok.inj (hk'.symm.trans hreopens)
          exact .inr ⟨r, hreadable.admits, hstate, fun _ hstarted => nomatch hstarted⟩

/-! ## Records along a run -/

/-- How a step may change what is filed under a key. -/
inductive Moves : Option DurablePauseRecord → Option DurablePauseRecord → Prop
  | stays (filed : Option DurablePauseRecord) : Moves filed filed
  | enters {r : DurablePauseRecord} (prepared : r.state = .prepared) : Moves none (some r)
  | advances {a b : DurablePauseRecord} (identity : SameIdentity a b)
      (allowed : a.state.allows b.state = true) : Moves (some a) (some b)

theorem pushed_moves (h : s.Admits r) (key : String) :
    Moves (s.records.get? key) ((s.pushed r).records.get? key) := by
  have hvalid := (validateTransition_ok_iff.1 h.valid).2.2.1
  rw [JournalState.pushed, OMap.get?_insert]
  by_cases hkey : key = r.idempotencyKey
  · subst hkey
    rw [if_pos rfl]
    cases hprior : s.records.get? r.idempotencyKey with
    | none =>
        rw [hprior] at hvalid
        exact .enters (validateFirst_ok hvalid).2
    | some previous =>
        rw [hprior] at hvalid
        obtain ⟨hidentity, hallowed⟩ := validateSuccessor_ok hvalid
        exact .advances ⟨hidentity.1, hidentity.2, hidentity.3, hidentity.4, hidentity.5, hidentity.6⟩
          hallowed
  · rw [if_neg hkey]
    exact .stays _

/-- **Every step moves every record as it may.** -/
theorem step_moves (h : j.Sound) (hstep : SafeStep j event k) (key : String) :
    Moves (j.records.get? key) (k.records.get? key) := by
  rcases (step_cases h hstep).2 with ⟨hstate, -⟩ | ⟨r, hadmits, hstate, -⟩
  · rw [hstate]
    exact .stays _
  · rw [hstate]
    exact pushed_moves hadmits key

/-- A later record of an effect: the same effect, in a state the allowed changes lead to, and the same
record once that is terminal. -/
structure Succeeds (a b : DurablePauseRecord) : Prop where
  identity : SameIdentity a b
  reached : Relation.ReflTransGen (fun x y => DurablePauseState.allows x y = true) a.state b.state
  settled : a.state.terminal = true → b = a

theorem Succeeds.refl (a : DurablePauseRecord) : Succeeds a a := ⟨.refl a, .refl, fun _ => rfl⟩

theorem Succeeds.trans {a b c : DurablePauseRecord} (h : Succeeds a b) (h' : Succeeds b c) :
    Succeeds a c := by
  refine ⟨h.identity.trans h'.identity, h.reached.trans h'.reached, fun hterminal => ?_⟩
  obtain rfl := h.settled hterminal
  exact h'.settled hterminal

theorem Moves.succeeds {a : DurablePauseRecord} {filed : Option DurablePauseRecord}
    (h : Moves (some a) filed) : ∃ b, filed = some b ∧ Succeeds a b := by
  cases h with
  | stays => exact ⟨a, rfl, .refl a⟩
  | @advances _ b hidentity hallowed =>
      refine ⟨b, rfl, hidentity, .single hallowed, fun hterminal => ?_⟩
      rw [terminal_allows hallowed] at hterminal
      cases hterminal

section Runs

variable {events : List (Event T)}

theorem run_sound (h : j.Sound) (hrun : Runs.Run SafeStep j events k) : k.Sound :=
  hrun.preserves (fun _ _ _ ha hstep => (step_cases ha hstep).1) h

/-- **A run keeps every record**, but for the changes it may make. -/
theorem run_succeeds (h : j.Sound) (hrun : Runs.Run SafeStep j events k) {key : String}
    {a : DurablePauseRecord} (ha : j.records.get? key = some a) :
    ∃ b, k.records.get? key = some b ∧ Succeeds a b := by
  induction hrun generalizing a with
  | nil => exact ⟨a, ha, .refl a⟩
  | cons head tail ih =>
      have hmoves := step_moves h head key
      rw [ha] at hmoves
      obtain ⟨b, hb, hfirst⟩ := hmoves.succeeds
      obtain ⟨c, hc, hrest⟩ := ih (step_cases h head).1 hb
      exact ⟨c, hc, hfirst.trans hrest⟩

/-- The number of times a commit of the key is reported as newly started. -/
def starts (key : String) (events : List (Event T)) : Nat :=
  events.countP fun event => event.started = some key

/-- The effect has left its prepared state. -/
def PastPrepared (j : ControlEffectJournal) (key : String) : Prop :=
  ∃ r, j.records.get? key = some r ∧ r.state ≠ .prepared

/-- No step goes back to prepared. -/
theorem step_pastPrepared (h : j.Sound) (hstep : SafeStep j event k) {key : String}
    (hpast : PastPrepared j key) : PastPrepared k key := by
  obtain ⟨a, ha, hstate⟩ := hpast
  have hmoves := step_moves h hstep key
  rw [ha] at hmoves
  generalize hfiled : k.records.get? key = filed at hmoves
  cases hmoves with
  | stays => exact ⟨a, hfiled, hstate⟩
  | @advances _ b hidentity hallowed =>
      refine ⟨b, hfiled, fun hprepared => ?_⟩
      rw [hprepared, not_allows_prepared] at hallowed
      cases hallowed

/-- A step that reports a start finds the effect prepared, and leaves it started. -/
theorem step_started (h : j.Sound) (hstep : SafeStep j event k) {key : String}
    (hstarted : event.started = some key) : ¬ PastPrepared j key ∧ PastPrepared k key := by
  rcases (step_cases h hstep).2 with ⟨-, hnone⟩ | ⟨r, hadmits, hstate, hreports⟩
  · rw [hnone] at hstarted
    cases hstarted
  obtain ⟨rfl, hcommit⟩ := hreports key hstarted
  constructor
  · intro hpast
    obtain ⟨a, ha, hnotPrepared⟩ := hpast
    have hvalid := (validateTransition_ok_iff.1 hadmits.valid).2.2.1
    rw [ha] at hvalid
    have hallowed := (validateSuccessor_ok hvalid).2
    rw [hcommit] at hallowed
    exact hnotPrepared (prepared_of_allows hallowed)
  · refine ⟨r.stored (j.digestOf r), ?_, ?_⟩
    · rw [hstate, JournalState.pushed, OMap.get?_insert, if_pos rfl]
    · change r.state ≠ .prepared
      rw [hcommit]
      decide

/-- **A commit is reported as started at most once.** -/
theorem run_starts (h : j.Sound) (hrun : Runs.Run SafeStep j events k) (key : String) :
    starts key events ≤ 1 ∧ (PastPrepared j key → starts key events = 0) := by
  -- from the front: after the first report the effect is past its prepared state for good
  induction hrun with
  | nil => exact ⟨Nat.zero_le 1, fun _ => rfl⟩
  | @cons j m k event events head tail ih =>
      obtain ⟨honce, hnever⟩ := ih (step_cases h head).1
      rw [starts, List.countP_cons]
      change starts key events + _ ≤ 1 ∧ (PastPrepared j key → starts key events + _ = 0)
      by_cases hstarted : event.started = some key
      · obtain ⟨hbefore, hafter⟩ := step_started h head hstarted
        rw [hnever hafter, if_pos (decide_eq_true hstarted)]
        exact ⟨le_rfl, fun hpast => absurd hpast hbefore⟩
      · rw [if_neg (by simpa using hstarted)]
        exact ⟨honce, fun hpast => hnever (step_pastPrepared h head hpast)⟩

end Runs

/-- **The journal survives crashes.** In every state that a run of safe operations and crashes
reaches from an opened journal: the file reopens as the journal; a safe operation that is interrupted
anywhere in its write leaves a file that reopens as the journal before it or after it; every record
found later is the same effect in a state the allowed changes lead to, terminal ones unchanged; every
step moves every record as it may; and each commit has been reported as started at most once. -/
theorem effect_journal_survives_crashes {start : ControlEffectJournal} {events : List (Event T)}
    (hopen : openJournal ⟨bytes, none⟩ context initializeEmpty bridgeGeneration recovery = .ok start)
    (hrun : Runs.Run SafeStep start events j) :
    Reopens j.storage.bytes j.toJournalState ∧
    (∀ (operation : Operation T) (room : Nat), operation.Safe j →
      Reopens (operation.run.exec (j.withFault (some room))).2.storage.bytes j.toJournalState ∨
      Reopens (operation.run.exec (j.withFault (some room))).2.storage.bytes
        (operation.run.exec j).2.toJournalState) ∧
    (∀ (later : List (Event T)) (k : ControlEffectJournal), Runs.Run SafeStep j later k →
      ∀ key a, j.records.get? key = some a → ∃ b, k.records.get? key = some b ∧ Succeeds a b) ∧
    (∀ (event : Event T) (k : ControlEffectJournal), SafeStep j event k →
      ∀ key, Moves (j.records.get? key) (k.records.get? key)) ∧
    ∀ key, starts key events ≤ 1 := by
  have hstart := openJournal_sound hopen
  have hsound := run_sound hstart hrun
  refine ⟨hsound.recorded.reopens, fun operation room hsafe => ?_, fun later k hlater key a ha =>
    run_succeeds hsound hlater ha, fun event k hstep => step_moves hsound hstep, fun key =>
    (run_starts hstart hrun key).1⟩
  rcases operation.safe_cases hsound hsafe with ⟨out, hsettles, -⟩ |
    ⟨r, out, hreadable, hdone, htorn, -⟩
  · rw [hsettles (some room)]
    exact .inl hsound.recorded.reopens
  · rw [htorn room, hdone]
    exact hreadable.reopens hsound.recorded room

/-! ## Appends as steps -/

section Appended

variable {out : Outcome T}

theorem Writes.exec_eq (h : Writes operation.run j r out) (hsound : j.Sound) :
    operation.run.exec j = (.ok out, j.written r) := by
  have hdone := h.done
  rwa [hsound.withFault_none] at hdone

/-- An append that is evidenced and hashed is a safe step to a sound journal. -/
theorem Writes.safeStep (h : Writes operation.run j r out) (hsound : j.Sound)
    (hevidenced : operation.Evidenced j.toJournalState) (hdigest : j.digestOf r ≠ .zero) :
    SafeStep j (.call operation (.ok out)) (j.written r) := by
  refine ⟨.call (h.exec_eq hsound), hevidenced, fun hzero => ?_⟩
  change (operation.run.exec j).2.head = .zero at hzero
  rw [h.exec_eq hsound] at hzero
  exact absurd hzero hdigest

end Appended

/-! ## A new journal -/

/-- A journal that was just created. -/
def fresh (context : OperationContext) (bridgeGeneration : U 64) : ControlEffectJournal :=
  ⟨.empty (freshId context bridgeGeneration)
    (headerHash (magic ++ (freshId context bridgeGeneration).bytes)),
    ⟨freshHeader context bridgeGeneration, none⟩, false, false, 0⟩

theorem length_magic : magic.length = 8 := by decide

theorem length_freshHeader (context : OperationContext) (bridgeGeneration : U 64) :
    (freshHeader context bridgeGeneration).length = headerBytes := by
  simp only [freshHeader, List.length_append, length_magic, Digest32.length_eq]
  rfl

theorem decodeHeader_freshHeader (hid : freshId context bridgeGeneration ≠ .zero) :
    decodeHeader (freshHeader context bridgeGeneration) = .ok (freshId context bridgeGeneration,
      headerHash (magic ++ (freshId context bridgeGeneration).bytes)) := by
  have hfront : (magic ++ (freshId context bridgeGeneration).bytes).length = 40 := by
    rw [List.length_append, length_magic, Digest32.length_eq]
  have hmagic : (freshHeader context bridgeGeneration).take 8 = magic := by
    rw [freshHeader, List.append_assoc, List.take_left' length_magic]
  have hidentifier : .fromBytes (((freshHeader context bridgeGeneration).drop 8).take 32) =
      freshId context bridgeGeneration := by
    rw [freshHeader, List.append_assoc, List.drop_left' length_magic,
      List.take_left' (Digest32.length_eq _)]
    exact dif_pos (Digest32.length_eq _)
  have hdigest : .fromBytes (((freshHeader context bridgeGeneration).drop 40).take 32) =
      headerHash (magic ++ (freshId context bridgeGeneration).bytes) := by
    rw [freshHeader, List.drop_left' hfront, List.take_of_length_le (Digest32.length_eq _).le]
    exact dif_pos (Digest32.length_eq _)
  have hcovered : (freshHeader context bridgeGeneration).take 40 =
      magic ++ (freshId context bridgeGeneration).bytes := by
    rw [freshHeader, List.take_left' hfront]
  rw [decodeHeader]
  simp only [hmagic, hidentifier, hdigest, hcovered]
  rw [if_neg (not_not.2 rfl), if_neg (by simp [hid])]

theorem writeHeader_empty (context : OperationContext) (bridgeGeneration : U 64) :
    writeHeader ⟨[], none⟩ context true bridgeGeneration =
      .ok ⟨freshHeader context bridgeGeneration, none⟩ := by
  have hasked : (⟨[], none⟩ : Storage).bytes.length = 0 ∧ true = true := ⟨rfl, rfl⟩
  rw [writeHeader, if_pos hasked]
  dsimp only [Storage.append]
  rw [List.nil_append]

/-- A file that is only a header is opened as an empty journal. -/
theorem openJournal_header {id headerDigest : Digest32} {file : Bytes}
    (hcaller : MayOpen context bridgeGeneration) (hbounded : bytes.length ≤ maxLedgerBytes)
    (hstarted : writeHeader ⟨bytes, none⟩ context initializeEmpty bridgeGeneration =
      .ok ⟨file, none⟩)
    (hlength : file.length = headerBytes) (hheader : decodeHeader file = .ok (id, headerDigest)) :
    openJournal ⟨bytes, none⟩ context initializeEmpty bridgeGeneration recovery =
      .ok ⟨.empty id headerDigest, ⟨file, none⟩, false, false, 0⟩ := by
  rw [← List.take_of_length_le hlength.le] at hheader
  have hreplay : replay JournalState.readFrame (.empty id headerDigest) (file.drop headerBytes) =
      .ok (.empty id headerDigest, []) := by
    rw [List.drop_of_length_le hlength.le]
    exact replay_nil _
  refine check_ok_iff.2 ⟨hcaller.authorized, guard_ok_iff.2 ⟨hcaller.generation, ?_⟩⟩
  refine guard_ok_iff.2 ⟨not_lt.2 hbounded, bind_ok_iff.2 ⟨_, hstarted, ?_⟩⟩
  refine guard_ok_iff.2 ⟨not_lt.2 hlength.ge, bind_ok_iff.2 ⟨_, hheader, ?_⟩⟩
  exact bind_ok_iff.2 ⟨_, hreplay, if_pos hlength.symm⟩

/-- An empty file is opened as a new journal, unless its identifier is the reserved zero. -/
theorem openJournal_fresh (hcaller : MayOpen context bridgeGeneration)
    (hid : freshId context bridgeGeneration ≠ .zero) :
    openJournal ⟨[], none⟩ context true bridgeGeneration recovery =
      .ok (fresh context bridgeGeneration) :=
  openJournal_header hcaller (Nat.zero_le _) (writeHeader_empty context bridgeGeneration)
    (length_freshHeader context bridgeGeneration) (decodeHeader_freshHeader hid)

end ControlEffectJournal

/-! ## A receipt of all zero bytes -/

namespace ControlEffectJournal

open EffectJournal

namespace Sample

def context : OperationContext where
  sessionId := 1
  requestId := 2
  anchor := ⟨1, ⟨0, 0⟩, 10, .zero⟩
  budget := .conservativeDefault
  grants := [standingGrant .controlClock .reversible]
  cancellationRequested := false

def token : PrepareToken := ⟨List.replicate 16 3, rfl⟩

theorem mayOpen : MayOpen context 7 := ⟨by decide, by decide⟩

/-- The identifier of the new journal, the digest of its header and that of its frames' headers. -/
def journalId : Digest32 :=
  ⟨[159, 54, 123, 86, 168, 61, 91, 12, 89, 81, 247, 23, 24, 216, 237, 176, 211, 78, 42, 23, 174,
    132, 90, 72, 17, 116, 243, 186, 165, 77, 68, 244], rfl⟩

def headerDigest : Digest32 :=
  ⟨[204, 59, 201, 134, 190, 15, 157, 213, 99, 27, 21, 10, 22, 197, 108, 214, 201, 61, 27, 179, 24,
    170, 224, 79, 164, 211, 223, 230, 5, 240, 92, 203], rfl⟩

def markerDigest : Digest32 :=
  ⟨[215, 242, 36, 239, 0, 120, 231, 169, 0, 242, 178, 14, 182, 148, 43, 54, 151, 174, 133, 249, 17,
    239, 166, 16, 236, 37, 175, 89, 5, 141, 145, 160], rfl⟩

def firstDigest : Digest32 :=
  ⟨[192, 74, 160, 32, 37, 113, 204, 216, 144, 233, 23, 21, 41, 191, 115, 216, 130, 68, 142, 70, 186,
    34, 138, 27, 249, 220, 12, 54, 211, 235, 146, 216], rfl⟩

theorem freshId_eq : freshId context 7 = journalId := by decide +kernel

theorem headerHash_eq : headerHash (magic ++ journalId.bytes) = headerDigest := by decide +kernel

theorem markerHash_eq : frameHeaderHash journalId (record ++ beBytes 4 160) = markerDigest := by
  decide +kernel

/-- A frame of a record whose key has one byte. -/
theorem digestOf_eq {s : JournalState} (hid : s.id = journalId) {r : DurablePauseRecord}
    (hkey : r.idempotencyKey = "k") : s.digestOf r =
      frameHash journalId (record ++ beBytes 4 160 ++ markerDigest.bytes ++ body r) := by
  have hlength : (body r).length = 160 := by
    rw [length_body, hkey]
    rfl
  rw [JournalState.digestOf, covered, frameHeader, hlength, hid, markerHash_eq]

/-- A pause effect, prepared and then started. -/
def prepared : DurablePauseRecord :=
  ⟨"k", .zero, true, 10, 7, token, .prepared, false, false, none, none, none, 1, 1, headerDigest,
    .zero⟩

def started : DurablePauseRecord :=
  { prepared with
    state := .commitStarted
    revision := 2
    transitionNumber := 2
    previousDigest := firstDigest
    recordDigest := firstDigest }

theorem firstHash_eq : frameHash journalId (record ++ beBytes 4 160 ++ markerDigest.bytes ++
    body prepared) = firstDigest := by
  decide +kernel

theorem secondHash_ne : frameHash journalId (record ++ beBytes 4 160 ++ markerDigest.bytes ++
    body started) ≠ .zero := by
  decide +kernel

/-- The state of the new journal, and after each of the first two records. -/
def state : JournalState := .empty journalId headerDigest
def afterPrepared : JournalState := state.pushed prepared
def afterStarted : JournalState := afterPrepared.pushed started

theorem fresh_state : (fresh context 7).toJournalState = state := by
  rw [fresh, freshId_eq, headerHash_eq]
  rfl

theorem prepared_digest : state.digestOf prepared = firstDigest :=
  (digestOf_eq rfl rfl).trans firstHash_eq

theorem started_digest : afterPrepared.digestOf started ≠ .zero := by
  rw [digestOf_eq rfl rfl]
  exact secondHash_ne

theorem length_frame_eq {id : Digest32} {r : DurablePauseRecord} (hkey : r.idempotencyKey = "k") :
    (frame id r).length = 244 := by
  rw [length_frame, length_body, hkey]
  rfl

theorem prepared_admits : state.Admits prepared where
  transitions := by decide
  effects := by decide
  numbered := rfl
  chained := rfl
  revised := rfl
  valid := by decide
  fits := by
    rw [length_frame_eq rfl]
    decide

theorem afterPrepared_get : afterPrepared.records.get? "k" = some (prepared.stored firstDigest) := by
  rw [afterPrepared, JournalState.pushed, prepared_digest, OMap.get?_insert]
  rfl

theorem started_admits : afterPrepared.Admits started where
  transitions := by decide
  effects := by
    intro hfull
    rw [OMap.contains, show started.idempotencyKey = "k" from rfl, afterPrepared_get] at hfull
    cases hfull.1
  numbered := rfl
  chained := prepared_digest.symm
  revised := by
    rw [show started.idempotencyKey = "k" from rfl, afterPrepared_get]
    rfl
  valid := by
    rw [show started.idempotencyKey = "k" from rfl, afterPrepared_get]
    decide
  fits := by
    rw [length_frame_eq rfl, afterPrepared, JournalState.pushed, length_frame_eq rfl]
    decide

/-- The journals of the first two operations. -/
def held : ControlEffectJournal := (fresh context 7).written prepared
def begun : ControlEffectJournal := held.written started

def prepareOperation : Operation Unit := .prepare "k" .zero true 10 7 token context
def beginOperation : Operation Unit := .beginCommit "k" .zero 7 context

/-- The operation that verifies the effect by a receipt of all zero bytes. -/
def verifyOperation : Operation Unit :=
  .reconcile "k" .zero 7 true true true 11 (some .zero) context

theorem open_fresh : openJournal ⟨[], none⟩ context true 7 .refuse = .ok (fresh context 7) :=
  openJournal_fresh mayOpen (by rw [freshId_eq]; decide)

theorem fresh_sound : (fresh context 7).Sound := openJournal_sound open_fresh

theorem held_state : held.toJournalState = afterPrepared := by
  change (fresh context 7).toJournalState.pushed prepared = _
  rw [fresh_state]
  rfl

theorem begun_state : begun.toJournalState = afterStarted := by
  change held.toJournalState.pushed started = _
  rw [held_state]
  rfl

theorem prepare_writes : Writes prepareOperation.run (fresh context 7) prepared
    (.record (prepared.stored firstDigest)) := by
  have hdated : dated (fresh context 7).toJournalState ⟨"k", .zero, true, 10, 7, token, .prepared,
      false, false, none, none, none, 0, 0, .zero, .zero⟩ = prepared := by
    rw [fresh_state]
    rfl
  have h := recordPrepared_writes mayOpen.authorized rfl rfl fresh_sound.measured
    (show validateKey "k" = .ok () by decide)
    (show ¬ ((7 : U 64) = 0 ∨ (7 : U 64) = U.max 64 ∨ token = .zero) by decide)
    (by rw [fresh_state]; rfl) rfl (by rw [hdated, fresh_state]; exact prepared_admits)
  rw [hdated, fresh_state, prepared_digest] at h
  exact h.bind_pure

theorem prepare_step : SafeStep (fresh context 7) (.call prepareOperation
    (.ok (.record (prepared.stored firstDigest)))) held := by
  refine prepare_writes.safeStep fresh_sound trivial ?_
  rw [fresh_state, prepared_digest]
  decide

theorem held_sound : held.Sound := (step_cases fresh_sound prepare_step).1

theorem held_get : held.records.get? "k" = some (prepared.stored firstDigest) := by
  rw [held_state]
  exact afterPrepared_get

theorem started_writes : Writes (ControlEffectJournal.beginCommit "k" .zero 7 context) held started
    (started.stored (afterPrepared.digestOf started)) := by
  have hdated : dated held.toJournalState
      { prepared.stored firstDigest with state := .commitStarted } = started := by
    rw [dated, show (prepared.stored firstDigest).idempotencyKey = "k" from rfl, held_get,
      held_state, show afterPrepared.head = firstDigest from prepared_digest]
    rfl
  have hadmits : held.Admits (dated held.toJournalState
      { prepared.stored firstDigest with state := .commitStarted }) := by
    rw [hdated, held_state]
    exact started_admits
  have h : Writes (ControlEffectJournal.beginCommit "k" .zero 7 context) held (dated
      held.toJournalState { prepared.stored firstDigest with state := .commitStarted }) _ :=
    beginCommit_writes mayOpen.authorized rfl rfl held_sound.measured
      (show validateKey "k" = .ok () by decide) held_get rfl rfl rfl rfl hadmits
  rwa [hdated, held_state] at h

theorem begin_writes : Writes beginOperation.run held started
    (.record (started.stored (afterPrepared.digestOf started))) := started_writes.bind_pure

theorem begin_step : SafeStep held (.call beginOperation
    (.ok (.record (started.stored (afterPrepared.digestOf started))))) begun := by
  refine begin_writes.safeStep held_sound trivial ?_
  rw [held_state]
  exact started_digest

theorem begun_sound : begun.Sound := (step_cases held_sound begin_step).1

/-- A record that verifies the effect as applied, by a receipt of all zero bytes. -/
def verifying (current : DurablePauseRecord) : DurablePauseRecord :=
  { current with
    state := .verifiedApplied
    effectKnown := true
    effectApplied := true
    observedPaused := some current.desiredPaused
    observedGameTick := some 11
    receiptDigest := some .zero }

/-- The third record, on a second one with the given digest. -/
def verified (digest : Digest32) : DurablePauseRecord :=
  { verifying (started.stored digest) with
    revision := 3
    transitionNumber := 3
    previousDigest := digest }

theorem verified_valid {digest : Digest32} (hdigest : digest ≠ .zero) :
    validateTransition (some (started.stored digest)) (verified digest) = .ok () := by
  refine validateTransition_ok_iff.2 ⟨show validateKey "k" = .ok () by decide, ?_, rfl, rfl⟩
  intro hinvalid
  rcases hinvalid with h | h | h | h | h
  · exact absurd (show (7 : U 64) = 0 from h) (by decide)
  · exact absurd (show (7 : U 64) = U.max 64 from h) (by decide)
  · exact absurd (show token = .zero from h) (by decide)
  · exact absurd (show (3 : U 64) = 0 from h) (by decide)
  · exact hdigest h

/-- The digest of the second record, and the third record. -/
def secondDigest : Digest32 := afterPrepared.digestOf started
def third : DurablePauseRecord := verified secondDigest

theorem afterStarted_get : afterStarted.records.get? "k" = some (started.stored secondDigest) := by
  rw [afterStarted, JournalState.pushed, OMap.get?_insert]
  rfl

theorem third_admits : afterStarted.Admits third where
  transitions := by decide
  effects := by
    intro hfull
    rw [OMap.contains, show third.idempotencyKey = "k" from rfl, afterStarted_get] at hfull
    cases hfull.1
  numbered := rfl
  chained := rfl
  revised := by
    rw [show third.idempotencyKey = "k" from rfl, afterStarted_get]
    rfl
  valid := by
    rw [show third.idempotencyKey = "k" from rfl, afterStarted_get]
    exact verified_valid started_digest
  fits := by
    rw [length_frame_eq rfl, afterStarted, JournalState.pushed, length_frame_eq rfl, afterPrepared,
      JournalState.pushed, length_frame_eq rfl]
    decide

theorem verify_writes : Writes verifyOperation.run begun third
    (.record (third.stored (afterStarted.digestOf third))) := by
  have hdated : dated begun.toJournalState (verifying (started.stored secondDigest)) = third := by
    rw [dated, show (verifying (started.stored secondDigest)).idempotencyKey = "k" from rfl,
      begun_state, afterStarted_get]
    rfl
  have hcurrent : begun.records.get? "k" = some (started.stored secondDigest) := by
    rw [begun_state]
    exact afterStarted_get
  have hadmits : begun.Admits (dated begun.toJournalState (verifying (started.stored secondDigest))) := by
    rw [hdated, begun_state]
    exact third_admits
  have h : Writes (recordReconciliation "k" .zero 7 true true true 11 (some .zero) context) begun
      (dated begun.toJournalState (verifying (started.stored secondDigest))) _ :=
    recordReconciliation_writes mayOpen.authorized rfl rfl begun_sound.measured
      (show validateKey "k" = .ok () by decide) hcurrent rfl rfl rfl rfl hadmits
  rw [hdated, begun_state] at h
  exact h.bind_pure

end Sample

/-- The journal takes a run of two operations. -/
theorem effect_journal_survives_begun :
    Reopens Sample.begun.storage.bytes Sample.begun.toJournalState ∧
    starts "k" [.call Sample.prepareOperation (.ok (.record (Sample.prepared.stored
        Sample.firstDigest))),
      .call Sample.beginOperation (.ok (.record (Sample.started.stored Sample.secondDigest)))] ≤ 1 := by
  have h := effect_journal_survives_crashes Sample.open_fresh
    (.cons Sample.prepare_step (.cons Sample.begin_step (.nil Sample.begun)))
  exact ⟨h.1, h.2.2.2.2 "k"⟩

/-- **A zero receipt makes the journal unopenable.** Three operations succeed on a new journal, the
last of them verifying an effect by a receipt of all zero bytes, and the file they leave does not
reopen. -/
theorem zero_receipt_unopenable : ∃ j outs,
    openJournal ⟨[], none⟩ Sample.context true 7 .refuse = .ok (fresh Sample.context 7) ∧
    Runs.Run Step (fresh Sample.context 7) (List.zipWith (fun operation out =>
      Event.call operation (.ok out))
      [Sample.prepareOperation, Sample.beginOperation, Sample.verifyOperation] outs) j ∧
    outs.length = 3 ∧ MayOpen Sample.context 7 ∧
    ∀ k, openJournal ⟨j.storage.bytes, none⟩ Sample.context false 7 .truncateIncomplete ≠ .ok k := by
  refine ⟨Sample.begun.written Sample.third, [_, _, _],
    Sample.open_fresh, .cons Sample.prepare_step.1 (.cons Sample.begin_step.1
      (.cons (.call (Sample.verify_writes.exec_eq Sample.begun_sound)) (.nil _))), rfl,
    Sample.mayOpen, fun k hopen => ?_⟩
  have hrecorded := Sample.begun_sound.recorded
  refine hrecorded.not_reopen (r := Sample.third) ?_ (fun hsound => hsound.2 ⟨rfl, rfl⟩) hopen
  rw [Sample.begun_state]
  exact Sample.third_admits

end ControlEffectJournal

end Dfmcp
