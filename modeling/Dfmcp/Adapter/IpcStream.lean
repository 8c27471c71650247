import Dfmcp.Adapter.TransceiverProof
import Dfmcp.Library.Fragments

/-!
# Frames from a stream

`IpcFrame::read_from` of `ipc.rs`, which takes one frame off a stream that ends, against the
incremental decoder, which is given the stream in chunks and polled after each until it has no frame
ready. The two are written separately. Whatever the bytes, they deliver the same frames before the
first error, however the stream is divided.

* `readFrom_of_poll` — one poll, against one read;
* `stable_poll` — a poll that did not wait does not depend on what arrives later;
* `deliver_eq_feed`, `items_readAll` — the decoder's run and the reader's, as drains of a stream;
* `decoding_independent_of_fragmentation` — the frames of any stream, and of a well-formed one.
-/

namespace Dfmcp

open Machine Fragments

namespace IpcFrame

/-- What a reader reports whose stream ends too early. -/
def endOfStream (part : String) : DfmcpError :=
  .new .adapterUnavailable ("failed to read IPC frame " ++ part ++ ": failed to fill whole buffer")

/-- `read_exact`: the next bytes of the stream. When there are fewer, all of them are gone. -/
def readExact (part : String) (n : Nat) (stream : Bytes) : Result Bytes × Bytes :=
  if stream.length < n then (.error (endOfStream part), []) else (.ok (stream.take n), stream.drop n)

/-- Read and decode exactly one complete frame from a synchronous reader. -/
def readFrom (stream : Bytes) : Result IpcFrame × Bytes :=
  match readExact "header" frameHeaderSize stream with
  | (.error e, stream) => (.error e, stream)
  | (.ok header, stream) =>
      let payloadLen := ofBe (header.take 4)
      let messageType : U 16 := U.wrap (ofBe ((header.drop 4).take 2))
      let expectedCrc := ofBe ((header.drop 6).take 4)
      if payloadLen > maxFramePayloadSize then
        (.error (.new .invalidRequest
          ("IPC frame payload length " ++ toString payloadLen ++ " exceeds 16MB limit")), stream)
      else
        match (if payloadLen > 0 then readExact "payload" payloadLen stream else (.ok [], stream)) with
        | (.error e, stream) => (.error e, stream)
        | (.ok payload, stream) =>
            if (computeCrc32 payload).toNat ≠ expectedCrc then
              (.error (.new .invalidRequest
                ("IPC frame CRC32 mismatch: expected " ++ hexCrc (UInt32.ofNat expectedCrc) ++
                  ", calculated " ++ hexCrc (computeCrc32 payload))), stream)
            else (.ok ⟨.fromU16 messageType, payload⟩, stream)

/-- Repeated reads, at most `bound` of them, until one fails. -/
def readAll : Nat → Bytes → List IpcFrame × Option DfmcpError
  | 0, _ => ([], none)
  | bound + 1, stream =>
      match readFrom stream with
      | (.error e, _) => ([], some e)
      | (.ok frame, rest) => (frame :: (readAll bound rest).1, (readAll bound rest).2)

end IpcFrame

namespace IncrementalFrameDecoder

/-- Poll until no frame is ready, at most `bound` times. -/
def pollAll : Nat → IncrementalFrameDecoder → List IpcFrame × Result IncrementalFrameDecoder
  | 0, decoder => ([], .ok decoder)
  | bound + 1, decoder =>
      match decoder.pollNextFrame with
      | (.error e, _) => ([], .error e)
      | (.ok none, rest) => ([], .ok rest)
      | (.ok (some frame), rest) => (frame :: (pollAll bound rest).1, (pollAll bound rest).2)

/-- Push the chunks, and poll after each until no frame is ready. A buffer holds fewer frames than
bytes. -/
def deliver : List Bytes → IncrementalFrameDecoder →
    List IpcFrame × Result IncrementalFrameDecoder
  | [], decoder => ([], .ok decoder)
  | chunk :: chunks, decoder =>
      match decoder.pushBytes chunk with
      | (.error e, _) => ([], .error e)
      | (.ok _, decoder) =>
          match pollAll (decoder.buffer.length + 1) decoder with
          | (frames, .error e) => (frames, .error e)
          | (frames, .ok decoder) => (frames ++ (deliver chunks decoder).1, (deliver chunks decoder).2)

/-- No chunk finds a buffer that is too full for it. -/
def Fits : List Bytes → IncrementalFrameDecoder → Prop
  | [], _ => True
  | chunk :: chunks, decoder =>
      decoder.buffer.length + chunk.length ≤ maxDecoderBufferSize ∧
        ∀ next, (pollAll (decoder.buffer.length + chunk.length + 1)
          ⟨decoder.buffer ++ chunk⟩).2 = .ok next → Fits chunks next

/-! ## One poll and one read -/

/-- The bytes of a field. -/
def field (buffer : Bytes) (first n : Nat) : Bytes := (buffer.drop first).take n

theorem field_append {buffer : Bytes} {first n : Nat} (h : first + n ≤ buffer.length)
    (more : Bytes) : field (buffer ++ more) first n = field buffer first n := by
  unfold field
  rw [List.drop_append_of_le_length (by omega),
    List.take_append_of_le_length (by rw [List.length_drop]; omega)]

def payloadLen (buffer : Bytes) : Nat := ofBe (field buffer 0 4)

/-- What a header says that is not followed by a frame of its kind. -/
def oversized (buffer : Bytes) : DfmcpError :=
  .new .invalidRequest
    ("IPC frame payload length " ++ toString (payloadLen buffer) ++ " exceeds 16MB limit")

def corrupt (buffer : Bytes) (payload : Bytes) : DfmcpError :=
  .new .invalidRequest
    ("IPC frame CRC32 mismatch: expected " ++ hexCrc (UInt32.ofNat (ofBe (field buffer 6 4))) ++
      ", calculated " ++ hexCrc (computeCrc32 payload))

def frameAt (buffer : Bytes) : IpcFrame :=
  ⟨.fromU16 (U.wrap (ofBe (field buffer 4 2))), field buffer frameHeaderSize (payloadLen buffer)⟩

/-- What a poll of the decoder finds in its buffer. -/
def poll (buffer : Bytes) : Poll UInt8 DfmcpError IpcFrame :=
  match pollNextFrame ⟨buffer⟩ with
  | (.error e, _) => .fail e
  | (.ok none, _) => .wait
  | (.ok (some frame), rest) => .frame frame rest.buffer

/-- The fields a poll looks at. -/
theorem pollNextFrame_eq (buffer : Bytes) :
    pollNextFrame ⟨buffer⟩ =
      if buffer.length < frameHeaderSize then (.ok none, ⟨buffer⟩)
      else if payloadLen buffer > maxFramePayloadSize then (.error (oversized buffer), ⟨[]⟩)
      else if buffer.length < frameHeaderSize + payloadLen buffer then (.ok none, ⟨buffer⟩)
      else if (computeCrc32 (frameAt buffer).payload).toNat ≠ ofBe (field buffer 6 4) then
        (.error (corrupt buffer (frameAt buffer).payload),
          ⟨buffer.drop (frameHeaderSize + payloadLen buffer)⟩)
      else (.ok (some (frameAt buffer)), ⟨buffer.drop (frameHeaderSize + payloadLen buffer)⟩) := by
  have hpayload : (buffer.take (frameHeaderSize + ofBe (buffer.take 4))).drop frameHeaderSize =
      (buffer.drop frameHeaderSize).take (ofBe (buffer.take 4)) := by
    rw [List.drop_take, Nat.add_sub_cancel_left]
  unfold pollNextFrame
  simp only [hpayload]
  rfl

/-- The fields of a header that was read on its own. -/
theorem header_fields (stream : Bytes) :
    ofBe ((stream.take frameHeaderSize).take 4) = payloadLen stream ∧
      ((stream.take frameHeaderSize).drop 4).take 2 = field stream 4 2 ∧
      ((stream.take frameHeaderSize).drop 6).take 4 = field stream 6 4 := by
  refine ⟨?_, ?_, ?_⟩
  · rw [List.take_take]
    rfl
  · rw [List.drop_take, List.take_take]
    rfl
  · rw [List.drop_take, List.take_take]
    rfl

theorem readFrom_eq (stream : Bytes) :
    IpcFrame.readFrom stream =
      if stream.length < frameHeaderSize then (.error (IpcFrame.endOfStream "header"), [])
      else if payloadLen stream > maxFramePayloadSize then
        (.error (oversized stream), stream.drop frameHeaderSize)
      else if stream.length < frameHeaderSize + payloadLen stream then
        (.error (IpcFrame.endOfStream "payload"), [])
      else if (computeCrc32 (frameAt stream).payload).toNat ≠ ofBe (field stream 6 4) then
        (.error (corrupt stream (frameAt stream).payload),
          stream.drop (frameHeaderSize + payloadLen stream))
      else (.ok (frameAt stream), stream.drop (frameHeaderSize + payloadLen stream)) := by
  unfold IpcFrame.readFrom IpcFrame.readExact
  by_cases hheader : stream.length < frameHeaderSize
  · simp only [if_pos hheader]
  · obtain ⟨hlength, htype, hcrc⟩ := header_fields stream
    simp only [if_neg hheader, hlength, htype, hcrc]
    by_cases hlarge : payloadLen stream > maxFramePayloadSize
    · simp only [if_pos hlarge]
      rfl
    · simp only [if_neg hlarge]
      have hrest : (stream.drop frameHeaderSize).length < payloadLen stream ↔
          stream.length < frameHeaderSize + payloadLen stream := by
        rw [List.length_drop]
        omega
      by_cases hempty : payloadLen stream > 0
      · simp only [if_pos hempty, hrest]
        by_cases hshort : stream.length < frameHeaderSize + payloadLen stream
        · simp only [if_pos hshort]
        · simp only [if_neg hshort, List.drop_drop]
          rfl
      · have hzero : payloadLen stream = 0 := Nat.eq_zero_of_not_pos hempty
        have hfield : (frameAt stream).payload = [] := by
          show field stream frameHeaderSize (payloadLen stream) = []
          rw [hzero]
          rfl
        have hframe : frameAt stream = ⟨.fromU16 (U.wrap (ofBe (field stream 4 2))), []⟩ := by
          rw [← hfield]
          rfl
        simp only [if_neg hempty]
        have hfull : ¬ stream.length < frameHeaderSize + payloadLen stream := by
          rw [hzero]
          exact hheader
        rw [if_neg hfull, hframe, hzero]
        rfl

/-- **A poll that did not wait does not depend on what arrives later.** -/
theorem stable_poll : Stable poll := by
  have hlater : ∀ buffer more : Bytes, ¬ buffer.length < frameHeaderSize →
      payloadLen (buffer ++ more) = payloadLen buffer ∧
        (¬ buffer.length < frameHeaderSize + payloadLen buffer →
          frameAt (buffer ++ more) = frameAt buffer) ∧
        field (buffer ++ more) 6 4 = field buffer 6 4 := by
    intro buffer more hheader
    rw [not_lt] at hheader
    have hlength : payloadLen (buffer ++ more) = payloadLen buffer := by
      unfold payloadLen
      rw [field_append (le_trans (by decide) hheader)]
    refine ⟨hlength, fun hshort => ?_, field_append (le_trans (by decide) hheader) more⟩
    unfold frameAt
    rw [hlength, field_append (not_lt.1 hshort), field_append (le_trans (by decide) hheader)]
  refine ⟨fun buffer frame rest more h => ?_, fun buffer e more h => ?_, fun buffer frame rest h => ?_⟩
  · unfold poll at h ⊢
    rw [pollNextFrame_eq] at h ⊢
    split_ifs at h with hheader hlarge hshort hcrc
    obtain ⟨rfl, rfl⟩ := Poll.frame.inj h
    obtain ⟨hlength, hframe, hfield⟩ := hlater buffer more hheader
    rw [hlength, hframe hshort, hfield, if_neg, if_neg hlarge, if_neg, if_neg hcrc,
      List.drop_append_of_le_length (not_lt.1 hshort)]
    · rw [List.length_append]
      omega
    · rw [List.length_append]
      omega
  · unfold poll at h ⊢
    rw [pollNextFrame_eq] at h ⊢
    split_ifs at h with hheader hlarge hshort hcrc
    · obtain rfl := Poll.fail.inj h
      obtain ⟨hlength, _, _⟩ := hlater buffer more hheader
      rw [hlength, if_neg, if_pos hlarge]
      · unfold oversized
        rw [hlength]
      · rw [List.length_append]
        omega
    · obtain rfl := Poll.fail.inj h
      obtain ⟨hlength, hframe, hfield⟩ := hlater buffer more hheader
      rw [hlength, hframe hshort, hfield, if_neg, if_neg hlarge, if_neg, if_pos hcrc]
      · unfold corrupt
        rw [hfield]
      · rw [List.length_append]
        omega
      · rw [List.length_append]
        omega
  · unfold poll at h
    cases hpoll : pollNextFrame ⟨buffer⟩ with
    | mk result decoder =>
        rw [hpoll] at h
        cases result with
        | error e => cases h
        | ok found =>
            cases found with
            | none => cases h
            | some frame' =>
                obtain ⟨rfl, rfl⟩ := Poll.frame.inj h
                exact pollNextFrame_length hpoll

/-- **One poll, against one read of the same bytes.** -/
theorem readFrom_of_poll (stream : Bytes) :
    match poll stream with
    | .frame frame rest => IpcFrame.readFrom stream = (.ok frame, rest)
    | .fail e => (IpcFrame.readFrom stream).1 = .error e
    | .wait => ∃ part, IpcFrame.readFrom stream = (.error (IpcFrame.endOfStream part), []) := by
  unfold poll
  rw [pollNextFrame_eq, readFrom_eq]
  split_ifs
  · exact ⟨_, rfl⟩
  · rfl
  · exact ⟨_, rfl⟩
  · rfl
  · rfl

/-! ## Whole streams -/

section Streams

variable {buffer : Bytes}

/-- What the decoder reports of a drained stream. -/
def report (d : Delivered UInt8 DfmcpError IpcFrame) :
    List IpcFrame × Result IncrementalFrameDecoder :=
  (d.items, d.outcome.map fun left => ⟨left⟩)

/-- A poll that waits leaves the buffer as it is. -/
theorem rest_of_wait {rest : IncrementalFrameDecoder}
    (h : pollNextFrame ⟨buffer⟩ = (.ok none, rest)) : rest = ⟨buffer⟩ := by
  rw [pollNextFrame_eq] at h
  by_cases hheader : buffer.length < frameHeaderSize
  · rw [if_pos hheader] at h
    exact (Prod.mk.inj h).2.symm
  · rw [if_neg hheader] at h
    by_cases hlarge : payloadLen buffer > maxFramePayloadSize
    · rw [if_pos hlarge] at h
      cases (Prod.mk.inj h).1
    · rw [if_neg hlarge] at h
      by_cases hshort : buffer.length < frameHeaderSize + payloadLen buffer
      · rw [if_pos hshort] at h
        exact (Prod.mk.inj h).2.symm
      · rw [if_neg hshort] at h
        split_ifs at h
        · cases (Prod.mk.inj h).1
        · cases (Prod.mk.inj h).1

theorem pollAll_eq (bound : ℕ) (hbound : buffer.length < bound) :
    pollAll bound ⟨buffer⟩ = report (drain poll stable_poll buffer) := by
  induction bound generalizing buffer with
  | zero => exact absurd hbound (Nat.not_lt_zero _)
  | succ bound ih =>
      rw [pollAll]
      cases hpoll : pollNextFrame ⟨buffer⟩ with
      | mk result rest =>
          cases result with
          | error e =>
              have hfail : poll buffer = .fail e := by rw [poll, hpoll]
              rw [drain_fail hfail]
              rfl
          | ok found =>
              cases found with
              | none =>
                  have hwait : poll buffer = .wait := by rw [poll, hpoll]
                  rw [drain_wait hwait, rest_of_wait hpoll]
                  rfl
              | some frame =>
                  have hframe : poll buffer = .frame frame rest.buffer := by rw [poll, hpoll]
                  have hshorter : rest.buffer.length < buffer.length := pollNextFrame_length hpoll
                  have hrest : pollAll bound rest =
                      report (drain poll stable_poll rest.buffer) := ih (by omega)
                  rw [drain_frame hframe]
                  show (frame :: (pollAll bound rest).1, (pollAll bound rest).2) = _
                  rw [hrest]
                  rfl

/-- A reader delivers what a drain does, and its first error is that of the drain, or the end of the
stream. -/
theorem readAll_eq (bound : ℕ) (hbound : buffer.length < bound) :
    (IpcFrame.readAll bound buffer).1 = (drain poll stable_poll buffer).items ∧
      match (drain poll stable_poll buffer).outcome with
      | .error e => (IpcFrame.readAll bound buffer).2 = some e
      | .ok _ => ∃ part, (IpcFrame.readAll bound buffer).2 = some (IpcFrame.endOfStream part) := by
  induction bound generalizing buffer with
  | zero => exact absurd hbound (Nat.not_lt_zero _)
  | succ bound ih =>
      have hread := readFrom_of_poll buffer
      rw [IpcFrame.readAll]
      cases hpoll : poll buffer with
      | wait =>
          rw [hpoll] at hread
          obtain ⟨part, hread⟩ := hread
          rw [drain_wait hpoll, hread]
          exact ⟨rfl, part, rfl⟩
      | fail e =>
          rw [hpoll] at hread
          rw [drain_fail hpoll]
          cases hout : IpcFrame.readFrom buffer with
          | mk result rest =>
              rw [hout] at hread
              rw [show result = .error e from hread]
              exact ⟨rfl, rfl⟩
      | frame frame rest =>
          rw [hpoll] at hread
          have hread' : IpcFrame.readFrom buffer = (.ok frame, rest) := hread
          have hshorter := stable_poll.shorter _ _ _ hpoll
          have hrest : rest.length < bound := by omega
          obtain ⟨hitems, hend⟩ := ih hrest
          rw [drain_frame hpoll, hread']
          refine ⟨?_, hend⟩
          show frame :: (IpcFrame.readAll bound rest).1 = [frame] ++ _
          rw [hitems]
          rfl

/-- The decoder's run over the chunks of a stream. -/
theorem deliver_eq_feed (chunks : List Bytes) (hfits : Fits chunks ⟨buffer⟩) :
    deliver chunks ⟨buffer⟩ = report (feed stable_poll chunks buffer) := by
  induction chunks generalizing buffer with
  | nil => rfl
  | cons chunk chunks ih =>
      obtain ⟨hroom, hnext⟩ := hfits
      have hpush : pushBytes ⟨buffer⟩ chunk = (.ok (), ⟨buffer ++ chunk⟩) := by
        unfold pushBytes
        rw [if_neg]
        show ¬ chunk.length > maxDecoderBufferSize - buffer.length
        have hroom' : buffer.length + chunk.length ≤ maxDecoderBufferSize := hroom
        omega
      have hpoll : pollAll (buffer.length + chunk.length + 1) ⟨buffer ++ chunk⟩ =
          report (drain poll stable_poll (buffer ++ chunk)) :=
        pollAll_eq _ (by rw [List.length_append]; omega)
      have hlength : (buffer ++ chunk).length + 1 = buffer.length + chunk.length + 1 := by
        rw [List.length_append]
      rw [deliver, hpush]
      simp only [hlength, hpoll]
      rw [feed]
      cases hout : (drain poll stable_poll (buffer ++ chunk)).outcome with
      | error e => simp only [report, hout, Except.map]
      | ok left =>
          have hfits' : Fits chunks ⟨left⟩ := by
            refine hnext ⟨left⟩ ?_
            rw [hpoll, report, hout]
            rfl
          simp only [report, hout, Except.map, ih hfits', Delivered.after]

/-- The frames of a well-formed stream. -/
theorem drain_wires (frames : List IpcFrame)
    (h : ∀ frame ∈ frames, frame.payload.length ≤ maxFramePayloadSize) :
    drain poll stable_poll (frames.map IpcFrame.wire).flatten =
      ⟨frames.map IpcFrame.decoded, .ok []⟩ := by
  induction frames with
  | nil => exact drain_wait rfl
  | cons frame frames ih =>
      have hframe : poll (frame.wire ++ (frames.map IpcFrame.wire).flatten) =
          .frame frame.decoded (frames.map IpcFrame.wire).flatten := by
        rw [poll, pollNextFrame_wire (h frame List.mem_cons_self)]
      rw [List.map_cons, List.flatten_cons, drain_frame hframe,
        ih fun x hx => h x (List.mem_cons_of_mem _ hx)]
      rfl

theorem wires_of_encode {frames : List IpcFrame} {encoded : List Bytes}
    (h : List.Forall₂ (fun frame bytes => IpcFrame.encode frame = .ok bytes) frames encoded) :
    encoded = frames.map IpcFrame.wire ∧
      ∀ frame ∈ frames, frame.payload.length ≤ maxFramePayloadSize := by
  induction h with
  | nil => exact ⟨rfl, nofun⟩
  | cons hframe _ ih =>
      unfold IpcFrame.encode at hframe
      split_ifs at hframe with hsize
      obtain rfl := Except.ok.inj hframe
      refine ⟨by rw [List.map_cons, ih.1], fun frame hmem => ?_⟩
      rcases List.mem_cons.1 hmem with rfl | hmem
      · exact not_lt.1 hsize
      · exact ih.2 frame hmem

/-- What is waited for is less than one frame, so small chunks always fit. -/
theorem length_lt_of_wait (h : poll buffer = .wait) :
    buffer.length < frameHeaderSize + maxFramePayloadSize := by
  unfold poll at h
  rw [pollNextFrame_eq] at h
  split_ifs at h with hheader hlarge hshort
  · exact hheader.trans_le (Nat.le_add_right _ _)
  · exact hshort.trans_le (Nat.add_le_add_left (not_lt.1 hlarge) _)

theorem fits_of_small (chunks : List Bytes) (hsmall : ∀ chunk ∈ chunks, chunk.length ≤ 8192)
    (h : poll buffer = .wait) : Fits chunks ⟨buffer⟩ := by
  induction chunks generalizing buffer with
  | nil => trivial
  | cons chunk chunks ih =>
      have hlength := length_lt_of_wait h
      have hchunk := hsmall chunk List.mem_cons_self
      refine ⟨?_, fun next hnext => ?_⟩
      · show buffer.length + chunk.length ≤ maxFramePayloadSize + frameHeaderSize + 8192
        omega
      · have hpoll : pollAll (buffer.length + chunk.length + 1) ⟨buffer ++ chunk⟩ =
            report (drain poll stable_poll (buffer ++ chunk)) :=
          pollAll_eq _ (by rw [List.length_append]; omega)
        have hnext' : (pollAll (buffer.length + chunk.length + 1) ⟨buffer ++ chunk⟩).2 =
          .ok next := hnext
        rw [hpoll, report] at hnext'
        cases hout : (drain poll stable_poll (buffer ++ chunk)).outcome with
        | error e =>
            rw [hout] at hnext'
            cases hnext'
        | ok left =>
            rw [hout] at hnext'
            rw [← Except.ok.inj hnext']
            exact ih (fun c hc => hsmall c (List.mem_cons_of_mem _ hc)) (poll_of_drain_ok hout)

end Streams

/-- **Decoding does not depend on how a stream is divided.** Whatever the bytes, the decoder
delivers the frames that repeated reads of the undivided stream deliver before their first error. It
fails only where they do, and where it does not they end with the stream. On the encodings of frames
it delivers just these, and its buffer is empty at the end. -/
theorem decoding_independent_of_fragmentation (chunks : List Bytes) (hfits : Fits chunks .new) :
    (deliver chunks .new).1 =
        (IpcFrame.readAll (chunks.flatten.length + 1) chunks.flatten).1 ∧
      (match (deliver chunks .new).2 with
        | .error e => (IpcFrame.readAll (chunks.flatten.length + 1) chunks.flatten).2 = some e
        | .ok _ => ∃ part, (IpcFrame.readAll (chunks.flatten.length + 1) chunks.flatten).2 =
            some (IpcFrame.endOfStream part)) ∧
      ∀ frames encoded,
        List.Forall₂ (fun frame bytes => IpcFrame.encode frame = .ok bytes) frames encoded →
        encoded.flatten = chunks.flatten →
          deliver chunks .new = (frames.map IpcFrame.decoded, .ok .new) := by
  have hdeliver : deliver chunks .new = report (drain poll stable_poll chunks.flatten) := by
    have hfeed : deliver chunks .new = report (feed stable_poll chunks []) :=
      deliver_eq_feed chunks hfits
    rwa [stable_poll.feed_eq_drain chunks rfl, List.nil_append] at hfeed
  obtain ⟨hitems, hend⟩ := readAll_eq _ (Nat.lt_succ_self chunks.flatten.length)
  rw [hdeliver]
  refine ⟨hitems.symm, ?_, fun frames encoded hencoded hflat => ?_⟩
  · cases hout : (drain poll stable_poll chunks.flatten).outcome with
    | error e =>
        rw [hout] at hend
        simp only [report, hout, Except.map]
        exact hend
    | ok left =>
        rw [hout] at hend
        simp only [report, hout, Except.map]
        exact hend
  · obtain ⟨rfl, hsizes⟩ := wires_of_encode hencoded
    rw [← hflat, drain_wires frames hsizes]
    rfl

/-- A heartbeat whose header arrives in two chunks. -/
theorem decoding_independent_of_fragmentation_heartbeat :
    deliver [[0, 0, 0], [0, 0, 23, 0, 0, 0, 0]] .new = ([⟨.heartbeat, []⟩], .ok .new) :=
  (decoding_independent_of_fragmentation [[0, 0, 0], [0, 0, 23, 0, 0, 0, 0]]
    (fits_of_small _ (by decide) rfl)).2.2 [⟨.heartbeat, []⟩] [[0, 0, 0, 0, 0, 23, 0, 0, 0, 0]]
    (.cons (by decide) .nil) rfl

end IncrementalFrameDecoder

end Dfmcp
