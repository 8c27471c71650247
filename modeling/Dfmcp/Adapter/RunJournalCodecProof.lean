import Dfmcp.Adapter.RunJournal

/-!
# The run journal reads what it wrote

Each part of a journal is read back from its bytes: keys, plans, durable runs, bindings and frames, each
by one `Parses` fact. A frame of which only the first bytes reached the storage is not read at all.

* `DurableRun.decode_encode` — a valid run comes back from its body;
* `readFrames_log` — the frames of a journal lead to its root, and a torn frame after them is refused;
* `readHeader_header` — the header of a new journal comes back.
-/

namespace Dfmcp

open Machine Method Wire

namespace BoundedRun

variable {c : Prop}

/-! ## Primitives -/

namespace Read

theorem parses_take (bs : Bytes) : Parses c (take bs.length) bs bs := Parses.take _ bs

theorem parses_takeN {bs : Bytes} {n : Nat} (h : bs.length = n) : Parses c (take n) bs bs :=
  h ▸ parses_take bs

theorem parses_byte (b : UInt8) : Parses c byte [b] b := (parses_take [b]).bind_pure

/-- An unsigned number of some bytes. -/
theorem parses_be (n : Nat) {x : Nat} (h : x < 256 ^ n) {α : Type} (f : Nat → α) :
    Parses c (take n >>= fun bytes => pure (f (ofBe bytes))) (beBytes n x) (f x) := by
  have hread := (parses_takeN (c := c) (length_beBytes n x)).bind_pure (f := fun bytes => f (ofBe bytes))
  rwa [ofBe_beBytes, Nat.mod_eq_of_lt h] at hread

theorem parses_u16 {x : Nat} (h : x < 256 ^ 2) : Parses c u16 (beBytes 2 x) x := parses_be 2 h id

theorem parses_u32 (x : U 32) : Parses c u32 (beBytes 4 x.val) x := by
  have hread := parses_be (c := c) 4 (x := x.val) x.isLt fun n => (U.wrap n : U 32)
  rwa [show (U.wrap x.val : U 32) = x from Fin.ext (U.wrap_val x.isLt)] at hread

theorem parses_u64 (x : U 64) : Parses c u64 (beBytes 8 x.val) x := by
  have hread := parses_be (c := c) 8 (x := x.val) x.isLt fun n => (U.wrap n : U 64)
  rwa [show (U.wrap x.val : U 64) = x from Fin.ext (U.wrap_val x.isLt)] at hread

theorem parses_digest (d : Digest32) : Parses c digest d.bytes d := by
  have hread := (parses_takeN (c := c) d.length_eq).bind_pure (f := Digest32.fromBytes)
  rwa [Digest32.fromBytes_bytes] at hread

/-- A check that is passed reads nothing. -/
theorem parses_check {result : Result Unit} (h : result = .ok ()) : Parses c (check result) [] () := by
  intro rest _
  left
  rw [h]
  rfl

/-- A passed check before the rest. -/
theorem parses_checked {α : Type} {result : Result Unit} {f : Unit → Decoder α} {bs : Bytes} {a : α}
    (h : result = .ok ()) (hf : Parses c (f ()) bs a) : Parses c (check result >>= f) bs a :=
  (parses_check h).bind hf

theorem parsesAll_checked {α : Type} {result : Result Unit} {f : Unit → Decoder α} {bs : Bytes} {a : α}
    (h : result = .ok ()) (hf : ParsesAll c (f ()) bs a) : ParsesAll c (check result >>= f) bs a :=
  (parses_check h).bind_all hf

/-- At the end of the input. -/
theorem parsesAll_finish {α : Type} {f : Unit → Decoder α} {a : α} (hf : ParsesAll c (f ()) [] a) :
    ParsesAll c (finish >>= f) [] a := hf

theorem parsesAll_pure {α : Type} (a : α) : ParsesAll c (pure a : Decoder α) [] a := fun _ => .inl rfl

theorem check_bind_ok {α : Type} {result : Result Unit} {f : Unit → Decoder α} {bs : Bytes}
    {x : α × Bytes} (h : (check result >>= f) bs = .ok x) : f () bs = .ok x := by
  obtain ⟨u, rest, hcheck, hf⟩ := run_bind_ok_iff.1 h
  unfold check at hcheck
  cases result with
  | error e => cases hcheck
  | ok v =>
      cases hcheck
      exact hf

/-- A successful decoder had the bytes that it took. -/
theorem take_bind_ok {α : Type} {n : Nat} {f : Bytes → Decoder α} {bs : Bytes} {x : α × Bytes}
    (h : (take n >>= f) bs = .ok x) :
    ∃ a rest, bs = a ++ rest ∧ a.length = n ∧ f a rest = .ok x := by
  obtain ⟨a, rest, htake, hf⟩ := run_bind_ok_iff.1 h
  obtain ⟨hbs, hlen⟩ := run_take_ok_iff.1 htake
  exact ⟨a, rest, hbs, hlen, hf⟩

/-- After a decoder that reads exactly, the rest is read. -/
theorem run_parsed {α β : Type} {p : Decoder α} {f : α → Decoder β} {bs rest : Bytes} {a : α}
    (hp : Parses True p bs a) (hlen : (bs ++ rest).length < 2 ^ 64) :
    (p >>= f) (bs ++ rest) = f a rest := by
  rw [run_bind, (hp rest hlen).resolve_right fun hno => hno.1 trivial]
  rfl

theorem run_checked {β : Type} {result : Result Unit} {f : Unit → Decoder β} {bs : Bytes}
    (h : result = .ok ()) : (check result >>= f) bs = f () bs := by
  rw [h]
  rfl

/-- A decoder run on the whole of its input. -/
theorem run_of_parsesAll {α : Type} {decoder : Decoder α} {bs : Bytes} {a : α}
    (h : ParsesAll True decoder bs a) (hlen : bs.length < 2 ^ 64) : run decoder bs = .ok a := by
  rcases h hlen with hok | ⟨hno, _⟩
  · rw [run, hok]
  · exact absurd trivial hno

end Read

open Read

theorem demand_of {condition : Prop} [Decidable condition] {message : String} (h : condition) :
    demand condition message = .ok () := if_pos h

theorem demand_ok_iff {condition : Prop} [Decidable condition] {message : String} :
    demand condition message = .ok () ↔ condition := by
  unfold demand
  by_cases h : condition
  · simp [h]
  · simp [h]

/-! ## Plans -/

theorem validateKey_ok_iff {key : String} : validateKey key = .ok () ↔
    ¬ (key = "" ∨ strLen key > 128 ∨ (!(utf8 key).all isKeyByte) = true) := by
  unfold validateKey
  by_cases h : key = "" ∨ strLen key > 128 ∨ (!(utf8 key).all isKeyByte) = true
  · rw [if_pos h]
    exact ⟨nofun, fun hno => absurd h hno⟩
  · rw [if_neg h]
    exact ⟨fun _ => h, fun _ => rfl⟩

theorem utf8_eq_nil_iff {s : String} : utf8 s = [] ↔ s = "" := by
  constructor
  · intro h
    have hs := fromUtf8_utf8 s
    have hempty := fromUtf8_utf8 ""
    rw [show utf8 "" = [] from rfl, ← h, hs] at hempty
    exact Option.some.inj hempty
  · intro h
    rw [h]
    rfl

namespace RunPlan

variable (plan : RunPlan)

theorem strLen_key : 1 ≤ strLen plan.key ∧ strLen plan.key ≤ 128 := by
  have h := validateKey_ok_iff.1 plan.keyed
  rw [not_or, not_or, not_lt] at h
  refine ⟨Nat.one_le_iff_ne_zero.2 fun hzero => h.1 ?_, h.2.1⟩
  exact utf8_eq_nil_iff.1 (List.length_eq_zero_iff.1 hzero)

theorem length_observation (observation : RunObservation) : observation.bytes.length = 35 := by
  have h := observation.decoded
  unfold ObservationFields.decode at h
  exact demand_ok_iff.1 (check_ok_iff.1 h).1

theorem length_canonicalBytes : plan.canonicalBytes.length = 45 + strLen plan.key := by
  simp only [canonicalBytes, List.length_append, length_beBytes, length_observation, strLen]
  omega

theorem new_self (plan : RunPlan) : RunPlan.new plan.key plan.spec plan.before = .ok plan := by
  unfold RunPlan.new
  split
  · rename_i e he
    rw [plan.keyed] at he
    cases he
  · rw [dif_pos plan.eligible]

theorem spec_self (spec : RunSpec) : RunSpec.new spec.ticks spec.wallMs = .ok spec :=
  dif_pos spec.bounded

theorem observation_self (observation : RunObservation) :
    RunObservation.decode observation.bytes = .ok observation := by
  unfold RunObservation.decode
  split
  · rename_i fields h
    have hfields := observation.decoded
    rw [h, Except.ok.injEq] at hfields
    cases observation
    cases hfields
    rfl
  · rename_i e h
    rw [observation.decoded] at h
    cases h

theorem parses_identity (width : String) :
    Parses c (identity width) plan.canonicalBytes (.ok plan) := by
  have hkey := plan.strLen_key
  unfold identity canonicalBytes
  refine (parses_u16 (by omega)).bind (parses_checked (demand_of hkey) ?_)
  refine (parses_take (utf8 plan.key)).bind ?_
  rw [fromUtf8_utf8]
  refine (parses_u32 plan.spec.ticks).bind ((parses_u32 plan.spec.wallMs).bind ?_)
  rw [spec_self]
  refine (parses_takeN (length_observation plan.before)).bind_nil ?_
  rw [observation_self, ← new_self plan]
  exact Parses.pure _

/-- **A plan comes back from its bytes.** -/
theorem decode_canonicalBytes : RunPlan.decode plan.canonicalBytes = .ok plan := by
  have hlen := plan.length_canonicalBytes
  have hkey := plan.strLen_key
  unfold RunPlan.decode
  rw [demand_of (by omega)]
  refine run_of_parsesAll ?_ (by omega)
  exact (plan.parses_identity _).bind_all_nil (parsesAll_finish (parsesAll_pure plan))

end RunPlan

/-! ## Durable runs -/

theorem RunRecord.decode_bytes (record : RunRecord) : RunRecord.decode record.bytes = .ok record := by
  unfold RunRecord.decode
  split
  · rename_i fields h
    have hfields := record.decoded
    rw [h, Except.ok.injEq] at hfields
    cases record
    cases hfields
    rfl
  · rename_i e h
    rw [record.decoded] at h
    cases h

theorem RunRecord.length_bytes (record : RunRecord) :
    147 ≤ record.bytes.length ∧ record.bytes.length ≤ maxRecordBytes := by
  have h := record.decoded
  unfold RecordFields.decode at h
  exact demand_ok_iff.1 (check_ok_iff.1 h).1

theorem RunState.fromTag?_tag (state : RunState) : RunState.fromTag? state.tag = some state := by
  cases state <;> rfl

namespace DurableRun

variable (run : DurableRun)

theorem length_nativeBytes : run.nativeBytes.length ≤ maxRecordBytes := by
  unfold nativeBytes
  cases run.native with
  | none => exact Nat.zero_le _
  | some record => exact record.length_bytes.2

/-- **A body fits its bound.** -/
theorem length_encode : run.encode.length ≤ maxBody := by
  have hplan := run.plan.length_canonicalBytes
  have hkey := run.plan.strLen_key
  have hnative := run.length_nativeBytes
  simp only [encode, List.length_cons, List.length_append, length_beBytes, maxBody, maxRecordBytes] at *
  omega

theorem parses_readNative : Parses c (readNative run.nativeBytes.length) run.nativeBytes run.native := by
  unfold readNative
  cases hnative : run.native with
  | none =>
      have hbytes : run.nativeBytes = [] := by rw [nativeBytes, hnative]; rfl
      rw [hbytes]
      exact Parses.pure none
  | some record =>
      have hbytes : run.nativeBytes = record.bytes := by rw [nativeBytes, hnative]; rfl
      have hpos := record.length_bytes.1
      rw [hbytes, if_neg (by omega)]
      refine (parses_take record.bytes).bind_nil ?_
      rw [record.decode_bytes]
      exact Parses.pure _

/-- **A valid run comes back from its body.** -/
theorem decode_encode (h : run.validate = .ok ()) : DurableRun.decode run.encode = .ok run := by
  have hlen := run.length_encode
  have hplan := run.plan.length_canonicalBytes
  have hkey := run.plan.strLen_key
  have hnative := run.length_nativeBytes
  unfold DurableRun.decode
  rw [demand_of hlen]
  refine run_of_parsesAll ?_ (hlen.trans_lt (by decide))
  unfold reader encode
  refine (parses_byte run.state.tag).bind_all ?_
  rw [RunState.fromTag?_tag]
  refine (parses_u16 (by omega)).bind_all ((parses_take run.plan.canonicalBytes).bind_all ?_)
  rw [run.plan.decode_canonicalBytes]
  refine (parses_u16 (by rw [maxRecordBytes] at hnative; omega)).bind_all ?_
  refine run.parses_readNative.bind_all_nil (parsesAll_finish ?_)
  exact parsesAll_checked h (parsesAll_pure run)

end DurableRun

/-! ## The header -/

theorem parses_text {text : String} (hlen : 1 ≤ strLen text ∧ strLen text ≤ 128)
    (hcontrol : text.toList.any isControl = false) : Parses c readText (putText text) text := by
  unfold readText putText
  refine (parses_u16 (by omega)).bind (parses_checked (demand_of hlen) ?_)
  refine (parses_take (utf8 text)).bind_nil ?_
  rw [fromUtf8_utf8]
  exact parses_checked (demand_of (by rw [hcontrol]; rfl)) (Parses.pure text)

theorem strLen_pos {text : String} (h : text ≠ "") : 1 ≤ strLen text := by
  rw [Nat.one_le_iff_ne_zero]
  intro hzero
  exact h (utf8_eq_nil_iff.1 (List.length_eq_zero_iff.1 hzero))

namespace RunManifest

theorem text_of_software {value : String} (h : softwareIsValid value = true) :
    (1 ≤ strLen value ∧ strLen value ≤ 128) ∧ value.toList.any isControl = false := by
  simp only [softwareIsValid, Bool.and_eq_true, decide_eq_true_eq, Bool.not_eq_true'] at h
  exact ⟨⟨strLen_pos h.1.1, h.1.2⟩, h.2⟩

end RunManifest

namespace RunBinding

variable {endpoints : Endpoints} {binding : RunBinding}

/-- A binding that its constructor admits. -/
def Valid (endpoints : Endpoints) (binding : RunBinding) : Prop :=
  new endpoints binding.endpoint binding.manifest = .ok binding

theorem Valid.parts (h : binding.Valid endpoints) :
    endpoints.loopback binding.endpoint = true ∧
      RunManifest.softwareIsValid binding.manifest.dfVersion = true ∧
      RunManifest.softwareIsValid binding.manifest.dfhackVersion = true := by
  unfold Valid new RunManifest.validate at h
  simp only [bind_assoc, check_ok_iff, demand_ok_iff] at h
  exact ⟨h.2.2.2.1, h.2.1, h.2.2.1⟩

/-- **A binding comes back from its bytes.** -/
theorem Valid.decode_encode (h : binding.Valid endpoints) :
    decode endpoints binding.encode = .ok binding ∧ binding.encode.length ≤ 398 := by
  obtain ⟨hloopback, hdf, hdfhack⟩ := h.parts
  obtain ⟨hparses, hcanonical⟩ := endpoints.address _ hloopback
  obtain ⟨hlen, hcontrol⟩ := endpoints.bounded _ hloopback
  obtain ⟨hdflen, hdfcontrol⟩ := RunManifest.text_of_software hdf
  obtain ⟨hhacklen, hhackcontrol⟩ := RunManifest.text_of_software hdfhack
  have hsize : binding.encode.length ≤ 398 := by
    simp only [encode, putText, List.length_append, length_beBytes]
    change 2 + strLen _ + (8 + (2 + strLen _ + (2 + strLen _))) ≤ 398
    omega
  refine ⟨?_, hsize⟩
  unfold decode
  refine run_of_parsesAll ?_ (hsize.trans_lt (by decide))
  unfold reader encode
  refine (parses_text hlen hcontrol).bind_all ?_
  refine parsesAll_checked (if_pos hparses) (parsesAll_checked (demand_of hcanonical) ?_)
  refine (parses_u64 _).bind_all ((parses_text hdflen hdfcontrol).bind_all ?_)
  refine (parses_text hhacklen hhackcontrol).bind_all_nil (parsesAll_finish ?_)
  have hnew : new endpoints binding.endpoint ⟨binding.manifest.generation,
      binding.manifest.dfVersion, binding.manifest.dfhackVersion⟩ = .ok binding := h
  rw [hnew]
  exact parsesAll_pure binding

theorem length_initialHeader (binding : RunBinding) (session : SessionId) (request : U 128) :
    (binding.initialHeader session request).1.length = 74 + binding.encode.length := by
  simp only [initialHeader, List.length_append, length_beBytes, Digest32.length_eq,
    show (utf8 "DFMRJ001").length = 8 from by decide]
  omega

end RunBinding

theorem readHeader_parts {endpoints : Endpoints} {binding : RunBinding}
    (h : binding.Valid endpoints) {salt rest all : Bytes} {id : Digest32} (hsalt : salt.length = 32)
    (hid : id = hash "dfmcp-run-journal/1" (all.take (all.length - (id.bytes ++ rest).length)))
    (hrest : rest.length < 2 ^ 63) :
    RunJournal.readHeader endpoints all (utf8 "DFMRJ001" ++ (beBytes 2 binding.encode.length ++
      (binding.encode ++ (salt ++ (id.bytes ++ rest))))) = .ok ((binding, id), rest) := by
  obtain ⟨hdecode, hsize⟩ := h.decode_encode
  have hmagic : (utf8 "DFMRJ001").length = 8 := by decide
  have hdigest := id.length_eq
  unfold RunJournal.readHeader
  rw [run_parsed (parses_takeN hmagic) (by simp only [List.length_append, length_beBytes]; omega),
    run_checked (demand_of rfl)]
  rw [run_parsed (parses_u16 (by omega)) (by simp only [List.length_append, length_beBytes]; omega),
    run_checked (demand_of (by omega))]
  rw [run_parsed (parses_take binding.encode) (by simp only [List.length_append]; omega), hdecode]
  dsimp only
  rw [run_parsed (parses_takeN hsalt) (by simp only [List.length_append]; omega), run_bind]
  change (digest >>= fun stored => check (demand (stored = hash "dfmcp-run-journal/1"
    (all.take (all.length - (id.bytes ++ rest).length))) "run journal header checksum mismatch") >>=
      fun _ => pure (binding, stored) : Decoder _) (id.bytes ++ rest) = _
  rw [run_parsed (parses_digest id) (by simp only [List.length_append]; omega),
    run_checked (demand_of hid)]
  rfl

/-- **The header of a journal is read back**, whatever follows it. -/
theorem readHeader_header {endpoints : Endpoints} {binding : RunBinding}
    (h : binding.Valid endpoints) (session : SessionId) (request : U 128) (rest : Bytes)
    (hrest : rest.length < 2 ^ 63) :
    RunJournal.readHeader endpoints ((binding.initialHeader session request).1 ++ rest)
        ((binding.initialHeader session request).1 ++ rest) =
      .ok ((binding, (binding.initialHeader session request).2), rest) := by
  generalize hbytes : (binding.initialHeader session request).1 ++ rest = bytes
  generalize hdigest : (binding.initialHeader session request).2 = id
  have hparts : utf8 "DFMRJ001" ++ (beBytes 2 binding.encode.length ++ (binding.encode ++
      ((beBytes 16 session.val ++ beBytes 16 request.val) ++ (id.bytes ++ rest)))) = bytes := by
    rw [← hbytes, ← hdigest]
    simp only [RunBinding.initialHeader, List.append_assoc]
  have hread := @readHeader_parts endpoints binding h
    (beBytes 16 session.val ++ beBytes 16 request.val) rest bytes id
    (by rw [List.length_append, length_beBytes, length_beBytes]) ?_ hrest
  · rwa [hparts] at hread
  · have hsplit : bytes = (utf8 "DFMRJ001" ++ (beBytes 2 binding.encode.length ++
        (binding.encode ++ (beBytes 16 session.val ++ beBytes 16 request.val)))) ++
          (id.bytes ++ rest) := by
      rw [← hparts]
      simp only [List.append_assoc]
    rw [hsplit, List.length_append, Nat.add_sub_cancel, List.take_left, ← hdigest]
    rfl

/-- The outside checks pass. -/
def Outside.Willing (o : Outside) : Prop := ∀ n, o.check n = .ok ()

/-! ## Frames -/

namespace RunJournal

variable {journal : RunJournal} {next : DurableRun}

/-- What the frames of a journal have said. -/
def root (journal : RunJournal) : Root := ⟨journal.head, journal.frames, journal.records⟩

/-- What is asked of a record before it is appended. -/
structure Accepts (journal : RunJournal) (next : DurableRun) : Prop where
  moves : transition (journal.records.get? next.plan.key) next = .ok ()
  source : next.plan.before.generation = journal.binding.manifest.generation
  counted : journal.records.contains next.plan.key = true ∨ journal.records.size < maxRuns
  room : journal.HasRoom next

theorem transition_valid {old : Option DurableRun} (h : transition old next = .ok ()) :
    next.validate = .ok () := by
  unfold transition at h
  cases hvalid : next.validate with
  | ok u => rfl
  | error e =>
      rw [hvalid] at h
      cases h

theorem Root.accept_root (h : Accepts journal next) :
    journal.root.accept journal.binding.manifest.generation next (journal.frameDigest next) =
      .ok (journal.extended next).root := by
  have hmoves : transition (journal.root.records.get? next.plan.key) next = .ok () := h.moves
  have hcounted : journal.root.records.contains next.plan.key = true ∨
      journal.root.records.size < maxRuns := h.counted
  unfold Root.accept
  rw [demand_of h.source, hmoves, demand_of hcounted]
  rfl

theorem length_frameBody : (journal.frameBody next).length = 52 + next.encode.length := by
  simp only [frameBody, List.length_append, length_beBytes, journal.head.length_eq,
    show (utf8 "DFMRF001").length = 8 from by decide]
  omega

theorem length_frame : (journal.frame next).length = frameOverhead + next.encode.length := by
  simp only [frame, List.length_append, length_frameBody, (journal.frameDigest next).length_eq,
    show (utf8 "DFMREND1").length = 8 from by decide, frameOverhead]
  omega

/-- The bytes that a frame is read from, one part after the other. -/
theorem frame_eq : journal.frame next = utf8 "DFMRF001" ++ (beBytes 4 next.encode.length ++
    (beBytes 8 (journal.frames + 1) ++ (journal.head.bytes ++ (next.encode ++
      ((journal.frameDigest next).bytes ++ utf8 "DFMREND1"))))) := by
  simp only [frame, frameBody, List.append_assoc]

/-- **A frame is read as the record it was written for**, whatever follows it. -/
theorem parses_frame (h : Accepts journal next) {start : Bytes}
    (hstart : start.take (52 + next.encode.length) = journal.frameBody next) :
    Parses True (frameReader journal.binding.manifest.generation journal.root start)
      (journal.frame next) (journal.extended next).root := by
  have hlen := next.length_encode
  have hframes : journal.root.frames + 1 ≤ maxTransitions := by
    have := h.room.1
    change journal.frames + 1 ≤ maxTransitions
    omega
  have hn : (U.wrap next.encode.length : U 32).val = next.encode.length :=
    U.wrap_val (by simp only [maxBody] at hlen; omega)
  have hseq : (U.wrap (journal.frames + 1) : U 64).val = journal.root.frames + 1 :=
    U.wrap_val (by simp only [maxTransitions, root] at hframes; omega)
  have hsize := parses_u32 (c := True) (U.wrap next.encode.length)
  have hsequence := parses_u64 (c := True) (U.wrap (journal.frames + 1))
  rw [hn] at hsize
  rw [hseq] at hsequence
  unfold frameReader
  rw [frame_eq]
  refine (parses_takeN (by decide)).bind (parses_checked (demand_of rfl) ?_)
  refine hsize.bind (parses_checked (demand_of (by rwa [hn])) ?_)
  refine hsequence.bind (parses_checked (demand_of ⟨hframes, hseq⟩) ?_)
  refine (parses_takeN journal.head.length_eq).bind (parses_checked (demand_of rfl) ?_)
  refine (parses_takeN hn.symm).bind ?_
  rw [next.decode_encode (transition_valid h.moves)]
  refine (parses_digest _).bind ((parses_takeN (by decide)).bind_nil ?_)
  refine parses_checked (demand_of ⟨rfl, by rw [hn, hstart]; rfl⟩) ?_
  rw [Root.accept_root h]
  exact Parses.pure _

/-- A frame that is read has all its bytes: as many as its own length says. -/
theorem length_of_frameReader {generation : U 64} {root root' : Root} {start bytes rest : Bytes}
    (h : frameReader generation root start bytes = .ok (root', rest)) :
    ∃ magic size more : Bytes, bytes = magic ++ (size ++ more) ∧ magic.length = 8 ∧
      size.length = 4 ∧ 80 + (U.wrap (ofBe size) : U 32).val ≤ more.length := by
  unfold frameReader at h
  obtain ⟨magic, rest, rfl, hmagic, h⟩ := take_bind_ok h
  replace h := check_bind_ok h
  unfold u32 at h
  rw [bind_assoc] at h
  obtain ⟨size, more, rfl, hsize, h⟩ := take_bind_ok h
  refine ⟨magic, size, more, rfl, hmagic, hsize, ?_⟩
  rw [pure_bind] at h
  replace h := check_bind_ok h
  unfold u64 at h
  rw [bind_assoc] at h
  obtain ⟨sequence, more, rfl, hsequence, h⟩ := take_bind_ok h
  rw [pure_bind] at h
  obtain ⟨previous, more, rfl, hprevious, h⟩ := take_bind_ok (check_bind_ok h)
  obtain ⟨raw, more, rfl, hraw, h⟩ := take_bind_ok (check_bind_ok h)
  cases hrecord : DurableRun.decode raw with
  | error e =>
      rw [hrecord] at h
      cases h
  | ok record =>
      rw [hrecord] at h
      unfold digest at h
      simp only [bind_assoc, pure_bind] at h
      obtain ⟨digest, more, rfl, hdigest, h⟩ := take_bind_ok h
      obtain ⟨tail, more, rfl, htail, -⟩ := take_bind_ok h
      simp only [List.length_append]
      omega

/-- **A torn frame is not read.** -/
theorem frameReader_torn {generation : U 64} {root : Root} {start : Bytes} {kept : Nat}
    (hkept : kept < (journal.frame next).length) {x : Root × Bytes} :
    frameReader generation root start ((journal.frame next).take kept) ≠ .ok x := by
  intro h
  obtain ⟨magic, size, more, hbytes, hmagic, hsize, hmore⟩ := length_of_frameReader h
  have hlen := next.length_encode
  have hlength := congrArg List.length hbytes
  have hframe : magic ++ (size ++ (more ++ (journal.frame next).drop kept)) =
      utf8 "DFMRF001" ++ (beBytes 4 next.encode.length ++ (beBytes 8 (journal.frames + 1) ++
        (journal.head.bytes ++ (next.encode ++
          ((journal.frameDigest next).bytes ++ utf8 "DFMREND1"))))) := by
    rw [← frame_eq, ← List.append_assoc, ← List.append_assoc, List.append_assoc magic, ← hbytes,
      List.take_append_drop]
  have hrest := (List.append_inj hframe (by rw [hmagic]; decide)).2
  have hsame := (List.append_inj hrest (by rw [hsize, length_beBytes])).1
  have hn : (U.wrap (ofBe size) : U 32).val = next.encode.length := by
    rw [hsame, ofBe_beBytes, Nat.mod_eq_of_lt (by simp only [maxBody] at hlen; omega)]
    exact U.wrap_val (by simp only [maxBody] at hlen; omega)
  rw [length_frame] at hkept
  rw [List.length_take, List.length_append, List.length_append, length_frame] at hlength
  simp only [frameOverhead] at hkept hlength
  omega

/-! ## Frames after one another -/

variable {o : Outside}

/-- One frame at a time. -/
theorem readFrames_cons {generation : U 64} {fuel : Nat} {root : Root} {bytes : Bytes}
    (ho : Outside.Willing o) (hbytes : bytes ≠ []) :
    readFrames o generation (fuel + 1) root bytes =
      (frameReader generation root bytes bytes >>= fun read =>
        readFrames o generation fuel read.1 read.2) := by
  obtain ⟨b, bytes, rfl⟩ := List.exists_cons_of_ne_nil hbytes
  conv_lhs => unfold readFrames
  rw [ho]
  cases frameReader generation root (b :: bytes) (b :: bytes) with
  | error e => rfl
  | ok x => rfl

theorem readFrames_nil {generation : U 64} {fuel : Nat} {root : Root} :
    readFrames o generation fuel root [] = .ok root := by
  cases fuel with
  | zero => rfl
  | succ fuel => rfl

theorem frame_ne_nil : journal.frame next ≠ [] := by
  intro h
  have hlen := congrArg List.length h
  rw [length_frame] at hlen
  exact absurd hlen (by simp [frameOverhead])

/-- The reader passes one frame. -/
theorem readFrames_frame (ho : Outside.Willing o) (h : Accepts journal next) {fuel : Nat}
    {tail : Bytes} (hlen : (journal.frame next ++ tail).length < 2 ^ 64) :
    readFrames o journal.binding.manifest.generation (fuel + 1) journal.root
        (journal.frame next ++ tail) =
      readFrames o journal.binding.manifest.generation fuel (journal.extended next).root tail := by
  rw [readFrames_cons ho (by simp [frame_ne_nil])]
  have hstart : (journal.frame next ++ tail).take (52 + next.encode.length) =
      journal.frameBody next := by
    rw [frame, List.append_assoc, List.take_left' length_frameBody]
  rw [((parses_frame h hstart) tail hlen).resolve_right fun hno => hno.1 trivial]
  rfl

/-- The reader stops at a torn frame. -/
theorem readFrames_torn {fuel kept : Nat} {generation : U 64} {root root' : Root}
    (ho : Outside.Willing o) (hkept : kept < (journal.frame next).length) (hpos : 0 < kept) :
    readFrames o generation fuel root ((journal.frame next).take kept) ≠ .ok root' := by
  intro h
  have hne : (journal.frame next).take kept ≠ [] := by
    rw [ne_eq, List.take_eq_nil_iff, not_or]
    exact ⟨hpos.ne', frame_ne_nil⟩
  cases fuel with
  | zero =>
      obtain ⟨b, bytes, hbytes⟩ := List.exists_cons_of_ne_nil hne
      rw [hbytes] at h
      cases h
  | succ fuel =>
      rw [readFrames_cons ho hne] at h
      cases hread : frameReader generation root ((journal.frame next).take kept)
        ((journal.frame next).take kept) with
      | ok x => exact frameReader_torn hkept hread
      | error e =>
          rw [hread] at h
          cases h

/-- Checks that end a reading do not change it. -/
theorem readFrames_willing {generation : U 64} {fuel : Nat} {root root' : Root} {bytes : Bytes}
    (h : readFrames o generation fuel root bytes = .ok root') :
    readFrames { o with check := fun _ => .ok () } generation fuel root bytes = .ok root' := by
  induction fuel generalizing root bytes with
  | zero =>
      cases bytes with
      | nil => exact h
      | cons b bytes => cases h
  | succ fuel ih =>
      cases bytes with
      | nil => exact h
      | cons b bytes =>
          unfold readFrames at h ⊢
          cases hcheck : o.check (3 + root.frames) with
          | error e =>
              rw [hcheck] at h
              cases h
          | ok u =>
              rw [hcheck] at h
              cases hread : frameReader generation root (b :: bytes) (b :: bytes) with
              | error e =>
                  rw [hread] at h
                  cases h
              | ok x =>
                  rw [hread] at h
                  exact ih h

/-! ## What a journal has written -/

/-- After these bytes, the reader of frames is at the root of the journal. -/
def Leads (journal : RunJournal) (body : Bytes) : Prop :=
  ∀ (o : Outside) (tail : Bytes) (fuel : Nat), o.Willing → (body ++ tail).length < 2 ^ 63 →
    (body ++ tail).length ≤ fuel → ∃ fuel', tail.length ≤ fuel' ∧
      readFrames o journal.binding.manifest.generation fuel ⟨journal.id, 0, .nil⟩ (body ++ tail) =
        readFrames o journal.binding.manifest.generation fuel' journal.root tail

/-- The bytes of a journal are its header and the frames of its records. -/
structure Written (endpoints : Endpoints) (journal : RunJournal) : Prop where
  valid : journal.binding.Valid endpoints
  parts : ∃ session request body, journal.id = (journal.binding.initialHeader session request).2 ∧
    journal.bytes = (journal.binding.initialHeader session request).1 ++ body ∧
      journal.Leads body

variable {endpoints : Endpoints}

theorem written_create {binding : RunBinding} (o : Outside) (h : binding.Valid endpoints) :
    (create o binding).Written endpoints := by
  refine ⟨h, o.session, o.request, [], rfl, (List.append_nil _).symm, ?_⟩
  intro o' tail fuel _ _ hfuel
  exact ⟨fuel, hfuel, rfl⟩

/-- **An accepted record is written after the others.** -/
theorem Written.extended (h : journal.Written endpoints) (haccept : Accepts journal next) :
    (journal.extended next).Written endpoints := by
  obtain ⟨session, request, body, hid, hbytes, hleads⟩ := h.parts
  refine ⟨h.valid, session, request, body ++ journal.frame next, hid, ?_, ?_⟩
  · change journal.bytes ++ journal.frame next = _
    rw [hbytes, List.append_assoc]
    rfl
  · intro o tail fuel ho hlen hfuel
    rw [List.append_assoc] at hlen hfuel ⊢
    obtain ⟨fuel', htail, hread⟩ := hleads o (journal.frame next ++ tail) fuel ho hlen hfuel
    rw [List.length_append, length_frame, frameOverhead] at htail
    obtain ⟨k, rfl⟩ : ∃ k, fuel' = k + 1 := ⟨fuel' - 1, by omega⟩
    refine ⟨k, by omega, ?_⟩
    change readFrames o journal.binding.manifest.generation fuel ⟨journal.id, 0, .nil⟩ _ = _
    rw [hread]
    rw [List.length_append] at hlen
    exact readFrames_frame ho haccept (by omega)

/-- The journal as another session opens it. -/
def asOpened (o : Outside) (mode : RunMode) (journal : RunJournal) : RunJournal :=
  { journal with owner := o.session, mode := mode, fenced := false, initializedHere := false }

/-- The journal of a root, over these bytes. -/
def ofRoot (o : Outside) (mode : RunMode) (journal : RunJournal) (disk : Bytes) (root : Root) :
    RunJournal :=
  ⟨journal.binding, journal.id, root.head, root.frames, disk, root.records, o.session, mode, false,
    false⟩

/-- Opening what a journal has written, and what follows it. -/
theorem Written.openStored_eq (h : journal.Written endpoints) (ho : o.Willing) (mode : RunMode)
    {expected : Option RunBinding} {tail : Bytes}
    (hlen : (journal.bytes ++ tail).length ≤ maxJournalBytes)
    (hexpected : expected.all fun binding => journal.binding = binding) :
    ∃ fuel, openStored o endpoints mode expected (journal.bytes ++ tail) =
        (readFrames o journal.binding.manifest.generation fuel journal.root tail).map
          (journal.ofRoot o mode (journal.bytes ++ tail)) := by
  obtain ⟨session, request, body, hid, hbytes, hleads⟩ := h.parts
  have hheader := journal.binding.length_initialHeader session request
  have hsize : (journal.bytes ++ tail).length = 74 + journal.binding.encode.length +
      (body ++ tail).length := by
    rw [hbytes, List.append_assoc, List.length_append, hheader]
  have hmax : maxJournalBytes < 2 ^ 63 := by decide
  obtain ⟨fuel, hfuel, hread⟩ := hleads o tail (body ++ tail).length ho (by omega) le_rfl
  refine ⟨fuel, ?_⟩
  unfold openStored
  rw [ho 0, ho 1, demand_of (by omega), if_neg (by omega)]
  change (do
    let x ← readHeader endpoints (journal.bytes ++ tail) (journal.bytes ++ tail)
    demand (expected.all fun binding => x.1.1 = binding)
      "run journal belongs to another endpoint/source generation"
    let root ← readFrames o x.1.1.manifest.generation x.2.length ⟨x.1.2, 0, .nil⟩ x.2
    o.check 2
    pure (⟨x.1.1, x.1.2, root.head, root.frames, journal.bytes ++ tail, root.records, o.session,
      mode, false, false⟩ : RunJournal)) = _
  have hparse := readHeader_header h.valid session request (body ++ tail) (by omega)
  rw [← List.append_assoc, ← hbytes, ← hid] at hparse
  rw [hparse]
  change (do
    demand (expected.all fun binding => journal.binding = binding)
      "run journal belongs to another endpoint/source generation"
    let root ← readFrames o journal.binding.manifest.generation (body ++ tail).length
      ⟨journal.id, 0, .nil⟩ (body ++ tail)
    o.check 2
    pure (journal.ofRoot o mode (journal.bytes ++ tail) root)) = _
  rw [demand_of hexpected, hread, ho 2]
  cases readFrames o journal.binding.manifest.generation fuel journal.root tail with
  | error e => rfl
  | ok root => rfl

/-- What was opened would be opened if every outside check passed. -/
theorem openStored_willing {mode : RunMode} {expected : Option RunBinding} {disk : Bytes}
    (h : openStored o endpoints mode expected disk = .ok journal) :
    openStored { o with check := fun _ => .ok () } endpoints mode expected disk = .ok journal ∧
      disk.length ≤ maxJournalBytes := by
  unfold openStored at h ⊢
  rw [check_ok_iff, guard_ok_iff, check_ok_iff, check_ok_iff, bind_ok_iff] at h
  obtain ⟨-, hsize, hlen, -, x, hheader, h⟩ := h
  rw [check_ok_iff, bind_ok_iff] at h
  obtain ⟨hexpected, root, hread, h⟩ := h
  rw [check_ok_iff] at h
  refine ⟨?_, not_lt.1 hsize⟩
  rw [if_neg hsize, hlen, hheader]
  change (do
    demand (expected.all fun binding => x.1.1 = binding)
      "run journal belongs to another endpoint/source generation"
    let root ← readFrames { o with check := fun _ => .ok () } x.1.1.manifest.generation
      x.2.length ⟨x.1.2, 0, .nil⟩ x.2
    pure (⟨x.1.1, x.1.2, root.head, root.frames, disk, root.records, o.session, mode, false,
      false⟩ : RunJournal)) = _
  rw [hexpected, readFrames_willing hread]
  exact h.2

/-- An opened journal holds the bytes that it was opened from. -/
theorem openStored_bytes {mode : RunMode} {expected : Option RunBinding} {disk : Bytes}
    (h : openStored o endpoints mode expected disk = .ok journal) : journal.bytes = disk := by
  unfold openStored at h
  rw [check_ok_iff, guard_ok_iff, check_ok_iff, check_ok_iff, bind_ok_iff] at h
  obtain ⟨-, -, -, -, x, -, h⟩ := h
  rw [check_ok_iff, bind_ok_iff] at h
  obtain ⟨-, root, -, h⟩ := h
  rw [check_ok_iff] at h
  cases h.2
  rfl

/-- The binding that was expected is the one of the journal. -/
theorem Written.expected (h : journal.Written endpoints) {mode : RunMode}
    {expected : Option RunBinding} (tail : Bytes) {opened : RunJournal}
    (hopen : openStored o endpoints mode expected (journal.bytes ++ tail) = .ok opened) :
    expected.all fun binding => journal.binding = binding := by
  have hmax : maxJournalBytes < 2 ^ 63 := by decide
  have hsize := (openStored_willing hopen).2
  obtain ⟨session, request, body, hid, hbytes, -⟩ := h.parts
  have hlen := congrArg List.length hbytes
  rw [List.length_append] at hsize hlen
  have hparse := readHeader_header h.valid session request (body ++ tail)
    (by rw [List.length_append]; omega)
  rw [← List.append_assoc, ← hbytes, ← hid] at hparse
  unfold openStored at hopen
  rw [check_ok_iff, guard_ok_iff, check_ok_iff, check_ok_iff, hparse] at hopen
  exact demand_ok_iff.1 (check_ok_iff.1 hopen.2.2.2.2).1

/-- **Written bytes open as the journal that wrote them.** -/
theorem Written.openStored_self (h : journal.Written endpoints) (ho : o.Willing) {mode : RunMode}
    {expected : Option RunBinding} (hlen : journal.bytes.length ≤ maxJournalBytes)
    (hexpected : expected.all fun binding => journal.binding = binding) :
    openStored o endpoints mode expected journal.bytes = .ok (journal.asOpened o mode) := by
  rw [← List.append_nil journal.bytes] at hlen ⊢
  obtain ⟨fuel, hopen⟩ := h.openStored_eq ho mode hlen hexpected
  rw [hopen, readFrames_nil, List.append_nil]
  rfl

/-- What opens over written bytes is the journal that wrote them. -/
theorem Written.openStored_same (h : journal.Written endpoints) {mode : RunMode}
    {expected : Option RunBinding} {opened : RunJournal}
    (hopen : openStored o endpoints mode expected journal.bytes = .ok opened) :
    opened = journal.asOpened o mode := by
  obtain ⟨hwilling, hlen⟩ := openStored_willing hopen
  have hexpected := h.expected [] (by rwa [List.append_nil])
  rw [h.openStored_self (fun _ => rfl) hlen hexpected] at hwilling
  exact (Except.ok.inj hwilling).symm

/-- **What opens over written bytes and a frame of which not all may have been stored**: the journal
without it or with it. -/
theorem Written.openStored_cases (h : journal.Written endpoints) {mode : RunMode}
    {expected : Option RunBinding} {opened : RunJournal} {kept : Nat}
    (hnext : Accepts journal next)
    (hopen : openStored o endpoints mode expected
      (journal.bytes ++ (journal.frame next).take kept) = .ok opened) :
    opened = journal.asOpened o mode ∨ opened = (journal.extended next).asOpened o mode := by
  by_cases hall : (journal.frame next).length ≤ kept
  · right
    rw [List.take_of_length_le hall] at hopen
    exact (h.extended hnext).openStored_same hopen
  · by_cases hnone : kept = 0
    · left
      rw [hnone, List.take_zero, List.append_nil] at hopen
      exact h.openStored_same hopen
    · obtain ⟨hwilling, hlen⟩ := openStored_willing hopen
      have hexpected := h.expected _ hopen
      obtain ⟨fuel, heq⟩ := h.openStored_eq (o := { o with check := fun _ => .ok () })
        (fun _ => rfl) mode hlen hexpected
      rw [heq] at hwilling
      cases hread : readFrames { o with check := fun _ => .ok () }
        journal.binding.manifest.generation fuel journal.root ((journal.frame next).take kept) with
      | error e =>
          rw [hread] at hwilling
          cases hwilling
      | ok root =>
          exact absurd hread (readFrames_torn (fun _ => rfl) (not_le.1 hall)
            (Nat.pos_of_ne_zero hnone))

end RunJournal

end BoundedRun

end Dfmcp
