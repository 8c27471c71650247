import Dfmcp.Adapter.Transceiver
import Dfmcp.Library.Runs

/-!
# A single-flight request gets its own response

Frames carry no identifier, so a response is told from others by its type alone. That is enough
when the peer answers each request once and in order, and sends nothing else that a request would
take for its response (`Conforms`): while a request is in flight the queue holds at most its answer,
and on a connected stream without one all answers are consumed (`Settled`).

* `pollNextFrame_wire`, `pollNextFrame_short` — the decoder takes whole frames off the stream;
* `drain_fuel` — it never stops for lack of fuel;
* `step_settled`, `run_settled` — the invariant, over a step and a run;
* `single_flight` — the response, the single write, the order of requests and the byte count.
-/

namespace Dfmcp

open Machine Runs

/-! ## The decoder -/

namespace IpcFrame

/-- The frame as it is read back: codes of named types have their names. -/
def decoded (frame : IpcFrame) : IpcFrame := ⟨.fromU16 frame.messageType.asU16, frame.payload⟩

@[simp] theorem length_wire (frame : IpcFrame) : frame.wire.length = frame.wireSize := by
  simp [wire, wireSize, frameHeaderSize]
  omega

@[simp] theorem wireSize_decoded (frame : IpcFrame) : frame.decoded.wireSize = frame.wireSize := rfl

@[simp] theorem asU16_decoded (frame : IpcFrame) :
    frame.decoded.messageType.asU16 = frame.messageType.asU16 :=
  IpcMessageType.asU16_fromU16 _

theorem wireSize_pos (frame : IpcFrame) : 0 < frame.wireSize := by
  simp only [wireSize, frameHeaderSize]
  omega

theorem payload_bound {frame : IpcFrame} (h : frame.payload.length ≤ maxFramePayloadSize) :
    frame.payload.length % 256 ^ 4 = frame.payload.length := by
  refine Nat.mod_eq_of_lt (lt_of_le_of_lt h ?_)
  decide

end IpcFrame

namespace IncrementalFrameDecoder

section Fields

variable {frame : IpcFrame} {rest : Bytes}

theorem take_length : (frame.wire ++ rest).take 4 = beBytes 4 frame.payload.length := by
  simp [IpcFrame.wire, List.append_assoc]

theorem take_messageType :
    ((frame.wire ++ rest).drop 4).take 2 = beBytes 2 frame.messageType.asU16.val := by
  simp [IpcFrame.wire, List.append_assoc]

theorem take_crc :
    ((frame.wire ++ rest).drop 6).take 4 = beBytes 4 (computeCrc32 frame.payload).toNat := by
  rw [show 6 = 4 + 2 from rfl, ← List.drop_drop]
  simp [IpcFrame.wire, List.append_assoc]

theorem drop_header : frame.wire.drop frameHeaderSize = frame.payload := by
  rw [show frameHeaderSize = 4 + 2 + 4 from rfl, ← List.drop_drop, ← List.drop_drop]
  simp [IpcFrame.wire, List.append_assoc]

end Fields

/-- The length field is read back, from as much of the frame as has arrived. -/
theorem ofBe_take_length {frame : IpcFrame} (h : frame.payload.length ≤ maxFramePayloadSize)
    {buffer : Bytes} (hpre : buffer <+: frame.wire) (hheader : frameHeaderSize ≤ buffer.length) :
    ofBe (buffer.take 4) = frame.payload.length := by
  obtain ⟨rest, hrest⟩ := hpre
  have htake : buffer.take 4 = beBytes 4 frame.payload.length := by
    have hwire : frame.wire.take 4 = beBytes 4 frame.payload.length := by
      rw [← List.append_nil frame.wire]
      exact take_length
    have hfour : 4 ≤ buffer.length := le_trans (by decide) hheader
    rw [← hwire, ← hrest, List.take_append_of_le_length hfour]
  rw [htake, ofBe_beBytes, IpcFrame.payload_bound h]

/-- A complete frame is taken off the buffer. -/
theorem pollNextFrame_wire {frame : IpcFrame} (h : frame.payload.length ≤ maxFramePayloadSize)
    (rest : Bytes) :
    pollNextFrame ⟨frame.wire ++ rest⟩ = (.ok (some frame.decoded), ⟨rest⟩) := by
  have hsize : frame.wire.length = frameHeaderSize + frame.payload.length := frame.length_wire
  have hlength : ofBe ((frame.wire ++ rest).take 4) = frame.payload.length := by
    rw [take_length, ofBe_beBytes, IpcFrame.payload_bound h]
  have htype : (U.wrap (ofBe (((frame.wire ++ rest).drop 4).take 2)) : U 16) =
      frame.messageType.asU16 := by
    rw [take_messageType, ofBe_beBytes]
    refine Fin.ext ?_
    show frame.messageType.asU16.val % 256 ^ 2 % 2 ^ 16 = _
    have := frame.messageType.asU16.isLt
    omega
  have hcrc : ofBe (((frame.wire ++ rest).drop 6).take 4) = (computeCrc32 frame.payload).toNat := by
    rw [take_crc, ofBe_beBytes]
    exact Nat.mod_eq_of_lt (computeCrc32 frame.payload).toNat_lt
  have hpayload : ((frame.wire ++ rest).take (frameHeaderSize + frame.payload.length)).drop
      frameHeaderSize = frame.payload := by
    rw [← hsize, List.take_left, drop_header]
  have hrest : (frame.wire ++ rest).drop (frameHeaderSize + frame.payload.length) = rest := by
    rw [← hsize, List.drop_left]
  have hheader : ¬ (frame.wire ++ rest).length < frameHeaderSize := by
    rw [List.length_append, hsize]
    omega
  have htotal : ¬ (frame.wire ++ rest).length < frameHeaderSize + frame.payload.length := by
    rw [List.length_append, hsize]
    omega
  simp only [pollNextFrame, if_neg hheader, hlength, if_neg (not_lt.2 h), if_neg htotal, htype,
    hcrc, hpayload, hrest, ne_eq, not_true_eq_false, if_false]
  rfl

/-- A frame that has not arrived in full is waited for. -/
theorem pollNextFrame_short {frame : IpcFrame} (h : frame.payload.length ≤ maxFramePayloadSize)
    {buffer : Bytes} (hpre : buffer <+: frame.wire) (hshort : buffer.length < frame.wireSize) :
    pollNextFrame ⟨buffer⟩ = (.ok none, ⟨buffer⟩) := by
  by_cases hheader : buffer.length < frameHeaderSize
  · simp only [pollNextFrame, if_pos hheader]
  · have hlength := ofBe_take_length h hpre (not_lt.1 hheader)
    simp only [pollNextFrame, if_neg hheader, hlength, if_neg (not_lt.2 h)]
    exact if_pos hshort

/-- Every frame takes at least a header off the buffer. -/
theorem pollNextFrame_length {decoder decoder' : IncrementalFrameDecoder} {frame : IpcFrame}
    (h : decoder.pollNextFrame = (.ok (some frame), decoder')) :
    decoder'.buffer.length < decoder.buffer.length := by
  unfold pollNextFrame at h
  dsimp only at h
  split at h
  case isTrue => exact absurd h (by simp)
  case isFalse hheader =>
    split at h
    case isTrue => exact absurd h (by simp)
    case isFalse =>
      split at h
      case isTrue => exact absurd h (by simp)
      case isFalse hlength =>
        split at h
        case isTrue => exact absurd h (by simp)
        case isFalse =>
          obtain ⟨-, rfl⟩ := Prod.mk.inj h
          rw [List.length_drop]
          simp only [frameHeaderSize] at hheader hlength ⊢
          omega

end IncrementalFrameDecoder

namespace IpcTransceiver

/-! ## The peer -/

/-- A frame of the peer answers a request, or is sent of its own accord. -/
inductive PeerFrame where
  | answer (frame : IpcFrame)
  | other (frame : IpcFrame)
deriving DecidableEq

namespace PeerFrame

def frame : PeerFrame → IpcFrame
  | .answer frame => frame
  | .other frame => frame

def answer? : PeerFrame → Option IpcFrame
  | .answer frame => some frame
  | .other _ => none

/-- The bytes of a frame of the peer. -/
def wire (p : PeerFrame) : Bytes := p.frame.wire

end PeerFrame

/-- The answers of the peer, in order: the first is to the first request, and so on. -/
def answers (peer : List PeerFrame) : List IpcFrame := peer.filterMap PeerFrame.answer?

/-- The frames that `request` wrote, with the response types they expect. -/
def requests (trace : List IoEvent) : List (IpcFrame × IpcMessageType) :=
  trace.filterMap fun
    | .wrote frame (some expected) => some (frame, expected)
    | _ => none

/-- All bytes that were read. -/
def bytesRead (trace : List IoEvent) : Bytes :=
  trace.flatMap fun
    | .read bytes => bytes
    | _ => []

/-- The peer sends well-formed frames whose bytes arrive in order, and it answers a request only
once that was written. Its answers have the type that the request expects, or are error responses;
its other frames have types that no request expects. -/
structure Conforms (trace : List IoEvent) (peer : List PeerFrame) : Prop where
  bounded : ∀ p ∈ peer, p.frame.payload.length ≤ maxFramePayloadSize
  causal : ∀ before, before <+: trace →
    ∃ n, bytesRead before <+: (peer.take n).flatMap PeerFrame.wire ∧
      (answers (peer.take n)).length ≤ (requests before).length
  answered : ∀ (k : Nat) (answer : IpcFrame) (request : IpcFrame × IpcMessageType),
    (answers peer)[k]? = some answer → (requests trace)[k]? = some request →
    answer.messageType.asU16 = request.2.asU16 ∨
      answer.messageType.asU16 = IpcMessageType.errorResponse.asU16
  unsolicited : ∀ frame, .other frame ∈ peer →
    frame.messageType.asU16 ≠ IpcMessageType.errorResponse.asU16 ∧
      ∀ request ∈ requests trace, frame.messageType.asU16 ≠ request.2.asU16

section Peer

variable {trace later : List IoEvent} {peer : List PeerFrame} {n m : Nat}

theorem requests_append (a b : List IoEvent) : requests (a ++ b) = requests a ++ requests b :=
  List.filterMap_append

theorem bytesRead_append (a b : List IoEvent) : bytesRead (a ++ b) = bytesRead a ++ bytesRead b :=
  List.flatMap_append

/-- A peer that conforms has conformed all along. -/
theorem Conforms.of_prefix (h : Conforms later peer) (hpre : trace <+: later) :
    Conforms trace peer := by
  obtain ⟨rest, rfl⟩ := hpre
  refine ⟨h.bounded, ?_, ?_, ?_⟩
  · intro before hbefore
    exact h.causal before (hbefore.trans (List.prefix_append _ _))
  · intro k answer request hanswer hrequest
    refine h.answered k answer request hanswer ?_
    rw [requests_append, List.getElem?_append_left (List.getElem?_eq_some_iff.1 hrequest).1]
    exact hrequest
  · intro frame hframe
    refine ⟨(h.unsolicited frame hframe).1, fun request hrequest => ?_⟩
    refine (h.unsolicited frame hframe).2 request ?_
    rw [requests_append]
    exact List.mem_append_left _ hrequest

theorem length_wires (peer : List PeerFrame) :
    peer.length ≤ (peer.flatMap PeerFrame.wire).length := by
  induction peer with
  | nil => simp
  | cons p peer ih =>
      have hpos : 0 < p.wire.length := by
        rw [PeerFrame.wire, IpcFrame.length_wire]
        exact p.frame.wireSize_pos
      rw [List.flatMap_cons, List.length_append, List.length_cons]
      omega

/-- Whole frames within the bytes of the first `m` frames are among these. -/
theorem le_of_wires_prefix (hn : n ≤ peer.length)
    (h : (peer.take n).flatMap PeerFrame.wire <+: (peer.take m).flatMap PeerFrame.wire) :
    n ≤ m := by
  by_contra hlt
  have hsplit : peer.take n = peer.take m ++ (peer.take n).drop m := by
    conv_lhs => rw [← List.take_append_drop m (peer.take n)]
    rw [List.take_take, min_eq_left (by omega)]
  have hlength := h.length_le
  have hrest := length_wires ((peer.take n).drop m)
  rw [hsplit, List.flatMap_append, List.length_append] at hlength
  rw [List.length_drop, List.length_take] at hrest
  omega

theorem answers_take_le (h : n ≤ m) :
    (answers (peer.take n)).length ≤ (answers (peer.take m)).length := by
  have hsplit : peer.take m = peer.take n ++ (peer.take m).drop n := by
    conv_lhs => rw [← List.take_append_drop n (peer.take m)]
    rw [List.take_take, min_eq_left h]
  rw [hsplit, answers, answers, List.filterMap_append, List.length_append]
  omega

/-- **What the buffer holds is the start of the next frame of the peer**, and frames are answered
only after they were written. -/
theorem Conforms.next (h : Conforms trace peer) (hn : n ≤ peer.length) {buffer : Bytes}
    (hread : bytesRead trace = (peer.take n).flatMap PeerFrame.wire ++ buffer) :
    (answers (peer.take n)).length ≤ (requests trace).length ∧
      (buffer = [] ∨ ∃ p, peer[n]? = some p ∧
        ((buffer <+: p.wire ∧ buffer.length < p.frame.wireSize) ∨
          ∃ rest, buffer = p.wire ++ rest)) := by
  obtain ⟨m, hpre, hcausal⟩ := h.causal trace (List.prefix_refl _)
  rw [hread] at hpre
  have hle : n ≤ m := le_of_wires_prefix hn ((List.prefix_append _ _).trans hpre)
  refine ⟨le_trans (answers_take_le hle) hcausal, ?_⟩
  have hsplit : peer.take m = peer.take n ++ (peer.take m).drop n := by
    conv_lhs => rw [← List.take_append_drop n (peer.take m)]
    rw [List.take_take, min_eq_left hle]
  rw [hsplit, List.flatMap_append, List.prefix_append_right_inj] at hpre
  cases hnext : (peer.take m).drop n with
  | nil =>
      rw [hnext] at hpre
      exact .inl (List.prefix_nil.1 hpre)
  | cons p rest =>
      have hp : peer[n]? = some p := by
        have hget : ((peer.take m).drop n)[0]? = some p := by rw [hnext]; rfl
        rw [List.getElem?_drop, Nat.add_zero, List.getElem?_take] at hget
        split at hget
        · exact hget
        · exact absurd hget (by simp)
      rw [hnext, List.flatMap_cons] at hpre
      refine .inr ⟨p, hp, ?_⟩
      rcases List.prefix_or_prefix_of_prefix hpre (List.prefix_append p.wire _) with hle | hle
      · by_cases hlt : buffer.length < p.frame.wireSize
        · exact .inl ⟨hle, hlt⟩
        · have hfull : buffer = p.wire := by
            refine hle.eq_of_length_le ?_
            rw [PeerFrame.wire, IpcFrame.length_wire]
            exact not_lt.1 hlt
          exact .inr ⟨[], by rw [hfull, List.append_nil]⟩
      · obtain ⟨rest, hrest⟩ := hle
        exact .inr ⟨rest, hrest.symm⟩

end Peer

/-! ## The invariant -/

/-- The queued frames are ones that the peer sent of its own accord. -/
def Others (peer : List PeerFrame) (queue : List IpcFrame) : Prop :=
  ∀ frame ∈ queue, ∃ f, .other f ∈ peer ∧ frame = f.decoded

/-- Beside those, the queue holds the answer to the last request. -/
def Answered (peer : List PeerFrame) (written : Nat) (queue : List IpcFrame) : Prop :=
  ∃ answer others, (answers peer)[written - 1]? = some answer ∧ Others peer others ∧
    queue.Perm (answer.decoded :: others)

/-- The first `n` frames of the peer were decoded. Without a request in flight every request was
answered; otherwise all but the last, whose answer is outstanding or queued. -/
structure Reading (peer : List PeerFrame) (t : IpcTransceiver) (n : Nat) : Prop where
  le : n ≤ peer.length
  read : bytesRead t.stream = (peer.take n).flatMap PeerFrame.wire ++ t.decoder.buffer
  idle : t.inFlight = none →
    (answers (peer.take n)).length = (requests t.stream).length ∧ Others peer t.pendingResponses
  busy : t.inFlight ≠ none →
    ((answers (peer.take n)).length + 1 = (requests t.stream).length ∧
        Others peer t.pendingResponses) ∨
      ((answers (peer.take n)).length = (requests t.stream).length ∧
        Answered peer (requests t.stream).length t.pendingResponses)

/-- The frame in flight is the last that was written. -/
def LastWritten (trace : List IoEvent) (f : InFlightRequest) : Prop :=
  ∃ frame, (requests trace).getLast? = some (frame, f.expectedResponseType) ∧
    f.identity = requestIdentity frame.messageType f.expectedResponseType frame.payload

/-- **The invariant of the transceiver.** -/
structure Settled (peer : List PeerFrame) (t : IpcTransceiver) : Prop where
  counted : t.pendingResponseBytes = (t.pendingResponses.map IpcFrame.wireSize).sum
  connected : t.state.isConnected = true → ∃ n, Reading peer t n
  flight : ∀ f, t.inFlight = some f → LastWritten t.stream f ∧
    (Others peer t.pendingResponses ∨
      Answered peer (requests t.stream).length t.pendingResponses)

section Invariant

variable {peer : List PeerFrame} {t t' : IpcTransceiver} {n : Nat} {e : DfmcpError}
  {context : OperationContext} {f : InFlightRequest}

theorem Others.append {queue : List IpcFrame} {frame : IpcFrame} (h : Others peer queue)
    (hframe : .other frame ∈ peer) : Others peer (queue ++ [frame.decoded]) := by
  intro g hg
  rcases List.mem_append.1 hg with hg | hg
  · exact h g hg
  · exact ⟨frame, hframe, List.mem_singleton.1 hg⟩

theorem Answered.append {queue : List IpcFrame} {frame : IpcFrame} {written : Nat}
    (h : Answered peer written queue) (hframe : .other frame ∈ peer) :
    Answered peer written (queue ++ [frame.decoded]) := by
  obtain ⟨answer, others, hanswer, hothers, hperm⟩ := h
  exact ⟨answer, others ++ [frame.decoded], hanswer, hothers.append hframe,
    hperm.append_right [frame.decoded]⟩

theorem settled_new (config : TransceiverConfig) : Settled peer (new [] config) := by
  refine ⟨rfl, fun _ => ⟨0, Nat.zero_le _, rfl, fun _ => ⟨rfl, ?_⟩, fun h => absurd rfl h⟩, ?_⟩
  · intro frame hframe
    exact absurd hframe (by simp [new])
  · intro f hf
    exact absurd hf (by simp [new])

/-- A stream that broke leaves nothing to be kept about reading. -/
theorem Settled.broken (h : Settled peer t) (hstate : t'.state.isConnected = false)
    (hstream : t'.stream = t.stream) (hpending : t'.pendingResponses = t.pendingResponses)
    (hbytes : t'.pendingResponseBytes = t.pendingResponseBytes)
    (hflight : t'.inFlight = t.inFlight) : Settled peer t' := by
  refine ⟨?_, fun hconnected => ?_, ?_⟩
  · rw [hbytes, hpending]
    exact h.counted
  · exact absurd hconnected (by simp [hstate])
  · rw [hstream, hpending, hflight]
    exact h.flight

/-- Nor does a request that is given up on a broken stream. -/
theorem Settled.abandoned (h : Settled peer t) (hstate : t'.state.isConnected = false)
    (hpending : t'.pendingResponses = t.pendingResponses)
    (hbytes : t'.pendingResponseBytes = t.pendingResponseBytes) (hflight : t'.inFlight = none) :
    Settled peer t' := by
  refine ⟨?_, fun hconnected => ?_, fun f hf => ?_⟩
  · rw [hbytes, hpending]
    exact h.counted
  · exact absurd hconnected (by simp [hstate])
  · exact absurd hf (by simp [hflight])

theorem sum_wireSize_append (queue : List IpcFrame) (frame : IpcFrame) :
    ((queue ++ [frame]).map IpcFrame.wireSize).sum =
      (queue.map IpcFrame.wireSize).sum + frame.wireSize := by
  simp

/-- The answers up to and with the next frame. -/
theorem answers_take_succ {p : PeerFrame} (hp : peer[n]? = some p) :
    answers (peer.take (n + 1)) = answers (peer.take n) ++ p.answer?.toList := by
  rw [List.take_add_one, hp, answers, answers, List.filterMap_append]
  cases p <;> rfl

/-- An answer is the one whose number is how many came before it. -/
theorem answers_getElem {frame : IpcFrame} (hp : peer[n]? = some (.answer frame)) :
    (answers peer)[(answers (peer.take n)).length]? = some frame := by
  have hsplit : answers peer = answers (peer.take n) ++ frame :: answers (peer.drop (n + 1)) := by
    have hdrop : peer.drop n = .answer frame :: peer.drop (n + 1) := by
      obtain ⟨hlt, hget⟩ := List.getElem?_eq_some_iff.1 hp
      rw [List.drop_eq_getElem_cons hlt, hget]
    conv_lhs => rw [← List.take_append_drop n peer, hdrop]
    rw [answers, List.filterMap_append]
    rfl
  rw [hsplit, List.getElem?_append_right le_rfl, Nat.sub_self]
  rfl

theorem wires_take_succ {p : PeerFrame} (hp : peer[n]? = some p) :
    (peer.take (n + 1)).flatMap PeerFrame.wire =
      (peer.take n).flatMap PeerFrame.wire ++ p.wire := by
  rw [List.take_add_one, hp, List.flatMap_append]
  simp

/-- **The next frame is queued**: one that answers a request, only while that is in flight. -/
theorem Reading.enqueue (hpeer : Conforms t.stream peer) (h : Reading peer t n) {p : PeerFrame}
    (hp : peer[n]? = some p) {rest : Bytes} (hbuffer : t.decoder.buffer = p.wire ++ rest) :
    Reading peer ({ t with decoder := ⟨rest⟩ }.enqueue p.frame.decoded) (n + 1) := by
  have hlt : n < peer.length := (List.getElem?_eq_some_iff.1 hp).1
  have hread : bytesRead t.stream = (peer.take (n + 1)).flatMap PeerFrame.wire ++ rest := by
    rw [h.read, hbuffer, wires_take_succ hp, List.append_assoc]
  have hcausal := (hpeer.next hlt hread).1
  have hmem : p ∈ peer := List.mem_of_getElem? hp
  rw [answers_take_succ hp] at hcausal
  refine ⟨hlt, hread, ?_, ?_⟩
  · intro hidle
    obtain ⟨hcount, hothers⟩ := h.idle hidle
    cases p with
    | answer frame =>
        -- every request was answered, so this answers none
        rw [List.length_append] at hcausal
        simp only [PeerFrame.answer?, Option.toList_some, List.length_singleton] at hcausal
        omega
    | other frame =>
        refine ⟨?_, hothers.append hmem⟩
        rw [answers_take_succ hp, List.length_append]
        exact hcount
  · intro hbusy
    cases p with
    | answer frame =>
        rw [List.length_append] at hcausal
        simp only [PeerFrame.answer?, Option.toList_some, List.length_singleton] at hcausal
        rcases h.busy hbusy with ⟨hcount, hothers⟩ | ⟨hcount, _⟩
        · refine .inr ⟨?_, frame, t.pendingResponses, ?_, hothers, ?_⟩
          · rw [answers_take_succ hp, List.length_append]
            exact hcount
          · show (answers peer)[(requests t.stream).length - 1]? = some frame
            rw [← hcount, Nat.add_sub_cancel]
            exact answers_getElem hp
          · exact List.perm_append_singleton _ _
        · omega
    | other frame =>
        have hanswers : answers (peer.take (n + 1)) = answers (peer.take n) := by
          rw [answers_take_succ hp]
          simp [PeerFrame.answer?]
        rw [hanswers]
        rcases h.busy hbusy with ⟨hcount, hothers⟩ | ⟨hcount, hanswered⟩
        · exact .inl ⟨hcount, hothers.append hmem⟩
        · exact .inr ⟨hcount, hanswered.append hmem⟩

/-- Frames are decoded into the queue. -/
theorem Settled.enqueue (hpeer : Conforms t.stream peer) (h : Settled peer t)
    (hread : Reading peer t n) {p : PeerFrame} (hp : peer[n]? = some p) {rest : Bytes}
    (hbuffer : t.decoder.buffer = p.wire ++ rest) :
    Settled peer ({ t with decoder := ⟨rest⟩ }.enqueue p.frame.decoded) := by
  have hnext := hread.enqueue hpeer hp hbuffer
  refine ⟨?_, fun _ => ⟨n + 1, hnext⟩, ?_⟩
  · show t.pendingResponseBytes + p.frame.decoded.wireSize = _
    rw [h.counted, ← sum_wireSize_append]
    rfl
  · intro f hf
    refine ⟨(h.flight f hf).1, ?_⟩
    have hbusy : ({ t with decoder := ⟨rest⟩ }.enqueue p.frame.decoded).inFlight ≠ none := by
      rw [hf]
      simp
    rcases hnext.busy hbusy with ⟨_, hothers⟩ | ⟨_, hanswered⟩
    · exact .inl hothers
    · exact .inr hanswered

/-- What the decoder finds at the start of the buffer. -/
theorem Reading.poll (hpeer : Conforms t.stream peer) (h : Reading peer t n) :
    t.decoder.pollNextFrame = (.ok none, t.decoder) ∨
      ∃ p rest, peer[n]? = some p ∧ t.decoder.buffer = p.wire ++ rest ∧
        t.decoder.pollNextFrame = (.ok (some p.frame.decoded), ⟨rest⟩) := by
  have hnext := (hpeer.next h.le h.read).2
  cases hdecoder : t.decoder with
  | mk buffer =>
      rw [hdecoder] at hnext
      rcases hnext with hnil | ⟨p, hp, ⟨hpre, hshort⟩ | ⟨rest, hrest⟩⟩
      · refine .inl ?_
        rw [show buffer = [] from hnil]
        rfl
      · exact .inl (IncrementalFrameDecoder.pollNextFrame_short
          (hpeer.bounded p (List.mem_of_getElem? hp)) hpre hshort)
      · refine .inr ⟨p, rest, hp, hrest, ?_⟩
        rw [show buffer = p.wire ++ rest from hrest]
        exact IncrementalFrameDecoder.pollNextFrame_wire
          (hpeer.bounded p (List.mem_of_getElem? hp)) rest

/-- What reading keeps: what was written, the configuration and the request in flight. -/
structure Listens (t t' : IpcTransceiver) : Prop where
  config : t'.config = t.config
  inFlight : t'.inFlight = t.inFlight
  stream : ∃ bytes : List Bytes, t'.stream = t.stream ++ bytes.map .read

theorem Listens.refl (t : IpcTransceiver) : Listens t t := ⟨rfl, rfl, [], by simp⟩

theorem requests_reads (bytes : List Bytes) : requests (bytes.map .read) = [] := by
  induction bytes with
  | nil => rfl
  | cons b bytes ih => exact ih

theorem Listens.requests (h : Listens t t') : requests t'.stream = requests t.stream := by
  obtain ⟨bytes, hbytes⟩ := h.stream
  rw [hbytes, requests_append, requests_reads, List.append_nil]

/-- A buffer that shrinks below the fuel is drained in full. -/
theorem drain_fuel {fuel fuel' : Nat} (count : Nat) (t : IpcTransceiver)
    (h : t.decoder.buffer.length < fuel) (h' : t.decoder.buffer.length < fuel') :
    drain context fuel count t = drain context fuel' count t := by
  induction fuel generalizing fuel' count t with
  | zero => omega
  | succ fuel ih =>
      cases fuel' with
      | zero => omega
      | succ fuel' =>
          rw [drain, drain]
          rcases hpoll : t.decoder.pollNextFrame with ⟨result, decoder⟩
          cases result with
          | error e => rfl
          | ok frame =>
              cases frame with
              | none => rfl
              | some frame =>
                  have hlt := IncrementalFrameDecoder.pollNextFrame_length hpoll
                  dsimp only
                  cases hrefusal : ({ t with decoder := decoder }).queueRefusal context frame with
                  | some e => rfl
                  | none =>
                      refine ih (count + 1) _ ?_ ?_
                      · show decoder.buffer.length < fuel
                        omega
                      · show decoder.buffer.length < fuel'
                        omega

theorem drain_keeps {fuel count : Nat} {result : Result Nat}
    (h : drain context fuel count t = (result, t')) :
    t'.stream = t.stream ∧ t'.config = t.config ∧ t'.inFlight = t.inFlight := by
  induction fuel generalizing count t with
  | zero =>
      obtain ⟨-, rfl⟩ := Prod.mk.inj h
      exact ⟨rfl, rfl, rfl⟩
  | succ fuel ih =>
      rw [drain] at h
      split at h
      case _ e decoder hpoll =>
        obtain ⟨-, rfl⟩ := Prod.mk.inj h
        simp only [degrade, countCrcError]
        split <;> exact ⟨rfl, rfl, rfl⟩
      case _ decoder hpoll =>
        obtain ⟨-, rfl⟩ := Prod.mk.inj h
        exact ⟨rfl, rfl, rfl⟩
      case _ frame decoder hpoll =>
        dsimp only at h
        split at h
        · obtain ⟨-, rfl⟩ := Prod.mk.inj h
          exact ⟨rfl, rfl, rfl⟩
        · have hrest := ih h
          exact hrest

/-- Draining keeps the invariant, and breaks the stream when it fails. -/
theorem drain_settled {fuel count : Nat} {result : Result Nat} (hpeer : Conforms t.stream peer)
    (h : Settled peer t) (hconnected : t.state.isConnected = true)
    (hdrain : drain context fuel count t = (result, t')) :
    Settled peer t' ∧ ∀ e, result = .error e → t'.state.isConnected = false := by
  induction fuel generalizing count t with
  | zero =>
      obtain ⟨rfl, rfl⟩ := Prod.mk.inj hdrain
      exact ⟨h, fun e he => absurd he (by simp)⟩
  | succ fuel ih =>
      obtain ⟨n, hread⟩ := h.connected hconnected
      rw [drain] at hdrain
      rcases hread.poll hpeer with hpoll | ⟨p, rest, hp, hbuffer, hpoll⟩
      · rw [hpoll] at hdrain
        obtain ⟨rfl, rfl⟩ := Prod.mk.inj hdrain
        exact ⟨h, fun e he => absurd he (by simp)⟩
      · rw [hpoll] at hdrain
        dsimp only at hdrain
        cases hrefusal : ({ t with decoder := ⟨rest⟩ }).queueRefusal context p.frame.decoded with
        | some e =>
            rw [hrefusal] at hdrain
            obtain ⟨rfl, rfl⟩ := Prod.mk.inj hdrain
            exact ⟨h.broken rfl rfl rfl rfl rfl, fun _ _ => rfl⟩
        | none =>
            rw [hrefusal] at hdrain
            refine ih ?_ (h.enqueue hpeer hread hp hbuffer) ?_ hdrain
            · exact hpeer
            · exact hconnected

/-- Bytes that were read are at the end of the buffer. -/
theorem Settled.received (h : Settled peer t) (bytes : Bytes) :
    Settled peer { t.received bytes with decoder := ⟨t.decoder.buffer ++ bytes⟩ } := by
  have hrequests : requests (t.stream ++ [.read bytes]) = requests t.stream := by
    rw [requests_append]
    exact List.append_nil _
  refine ⟨h.counted, ?_, ?_⟩
  · intro hconnected
    obtain ⟨n, hread⟩ := h.connected hconnected
    refine ⟨n, hread.le, ?_, ?_, ?_⟩
    · show bytesRead (t.stream ++ [.read bytes]) = _
      rw [bytesRead_append, hread.read, List.append_assoc]
      simp [bytesRead]
    · show _ → _ = (requests (t.stream ++ [.read bytes])).length ∧ _
      rw [hrequests]
      exact hread.idle
    · show _ → _ = (requests (t.stream ++ [.read bytes])).length ∧ _ ∨
        _ = (requests (t.stream ++ [.read bytes])).length ∧
          Answered peer (requests (t.stream ++ [.read bytes])).length _
      rw [hrequests]
      exact hread.busy
  · intro f hf
    show LastWritten (t.stream ++ [.read bytes]) f ∧ (_ ∨
      Answered peer (requests (t.stream ++ [.read bytes])).length _)
    rw [LastWritten, hrequests]
    exact h.flight f hf

/-- What a poll comes to: nothing was read, the stream broke, or bytes were drained. -/
theorem pollIncoming_cases {read : ReadOutcome} {result : Result Nat}
    (h : t.pollIncoming context read = (result, t')) :
    (t' = t ∧ ∀ e, validateContextAndConfig context t.config = .ok () →
        t.state.isConnected = true → result ≠ .error e) ∨
      (t' = { t with state := .disconnected } ∧ t.state.isConnected = true) ∨
      ∃ bytes, t.state.isConnected = true ∧
        ((∃ e, t' = { t.received bytes with decoder := ⟨[]⟩ }.degrade e) ∨
          drain context ((t.decoder.buffer ++ bytes).length + 1) 0
            { t.received bytes with decoder := ⟨t.decoder.buffer ++ bytes⟩ } = (result, t')) := by
  unfold pollIncoming at h
  cases hvalidate : validateContextAndConfig context t.config with
  | error e =>
      rw [hvalidate] at h
      obtain ⟨rfl, rfl⟩ := Prod.mk.inj h
      exact .inl ⟨rfl, fun _ hok => absurd hok (by simp)⟩
  | ok u =>
      rw [hvalidate] at h
      cases hconnected : t.state.isConnected with
      | false =>
          rw [hconnected] at h
          obtain ⟨rfl, rfl⟩ := Prod.mk.inj h
          exact .inl ⟨rfl, fun _ _ htrue => absurd htrue (by simp)⟩
      | true =>
          rw [hconnected] at h
          cases read with
          | closed =>
              obtain ⟨-, rfl⟩ := Prod.mk.inj h
              exact .inr (.inl ⟨rfl, rfl⟩)
          | wouldBlock =>
              obtain ⟨rfl, rfl⟩ := Prod.mk.inj h
              exact .inl ⟨rfl, fun _ _ _ he => absurd he (by simp)⟩
          | failed error =>
              obtain ⟨-, rfl⟩ := Prod.mk.inj h
              exact .inr (.inl ⟨rfl, rfl⟩)
          | data bytes =>
              refine .inr (.inr ⟨bytes, rfl, ?_⟩)
              dsimp only [Bool.not_true] at h
              rw [if_neg (by simp), IncrementalFrameDecoder.pushBytes] at h
              by_cases hfull : bytes.length >
                  maxDecoderBufferSize - (t.received bytes).decoder.buffer.length
              · rw [if_pos hfull] at h
                obtain ⟨-, rfl⟩ := Prod.mk.inj h
                exact .inl ⟨_, rfl⟩
              · rw [if_neg hfull] at h
                exact .inr h

theorem pollIncoming_listens {read : ReadOutcome} {result : Result Nat}
    (h : t.pollIncoming context read = (result, t')) : Listens t t' := by
  rcases pollIncoming_cases h with ⟨rfl, -⟩ | ⟨rfl, -⟩ | ⟨bytes, -, ⟨e, rfl⟩ | hdrain⟩
  · exact .refl _
  · exact ⟨rfl, rfl, [], by simp⟩
  · exact ⟨rfl, rfl, [bytes], rfl⟩
  · obtain ⟨hstream, hconfig, hflight⟩ := drain_keeps hdrain
    exact ⟨hconfig, hflight, [bytes], hstream⟩

/-- **Polling keeps the invariant.** -/
theorem pollIncoming_settled {read : ReadOutcome} {result : Result Nat}
    (h : Settled peer t) (hpoll : t.pollIncoming context read = (result, t'))
    (hpeer : Conforms t'.stream peer) : Settled peer t' := by
  rcases pollIncoming_cases hpoll with ⟨rfl, -⟩ | ⟨rfl, -⟩ | ⟨bytes, hconnected, ⟨e, rfl⟩ | hdrain⟩
  · exact h
  · exact h.broken rfl rfl rfl rfl rfl
  · exact (h.received bytes).broken rfl rfl rfl rfl rfl
  · rw [(drain_keeps hdrain).1] at hpeer
    exact (drain_settled hpeer (h.received bytes) hconnected hdrain).1

/-- **A poll that fails breaks the stream**, when its context and configuration are valid. -/
theorem pollIncoming_error {read : ReadOutcome} {e : DfmcpError} (h : Settled peer t)
    (hpoll : t.pollIncoming context read = (.error e, t')) (hpeer : Conforms t'.stream peer)
    (hvalid : validateContextAndConfig context t.config = .ok ()) :
    t'.state.isConnected = false := by
  rcases pollIncoming_cases hpoll with ⟨rfl, hok⟩ | ⟨rfl, -⟩ | ⟨bytes, hconnected, ⟨e, rfl⟩ | hdrain⟩
  · cases hconnected : t'.state.isConnected with
    | false => rfl
    | true => exact absurd rfl (hok e hvalid hconnected)
  · rfl
  · rfl
  · rw [(drain_keeps hdrain).1] at hpeer
    exact (drain_settled hpeer (h.received bytes) hconnected hdrain).2 e rfl

/-! ## Taking a response -/

/-- The first frame of a type is taken off the queue, and its bytes off the count. -/
theorem takeResponse_cases (messageType : IpcMessageType)
    (hcounted : t.pendingResponseBytes = (t.pendingResponses.map IpcFrame.wireSize).sum) :
    (t.takeResponse messageType = (.ok none, t) ∧
        ∀ frame ∈ t.pendingResponses, frame.messageType ≠ messageType) ∨
      ∃ before frame after, t.pendingResponses = before ++ frame :: after ∧
        frame.messageType = messageType ∧
        t.takeResponse messageType = (.ok (some frame), { t with
          pendingResponses := before ++ after
          pendingResponseBytes := ((before ++ after).map IpcFrame.wireSize).sum }) := by
  unfold takeResponse
  cases hfind : t.pendingResponses.findIdx?
      (fun frame => decide (frame.messageType = messageType)) with
  | none =>
      refine .inl ⟨rfl, fun frame hframe => ?_⟩
      simpa using List.findIdx?_eq_none_iff.1 hfind frame hframe
  | some index =>
      obtain ⟨hlt, htype, -⟩ := List.findIdx?_eq_some_iff_getElem.1 hfind
      have hsplit : t.pendingResponses = t.pendingResponses.take index ++
          t.pendingResponses[index] :: t.pendingResponses.drop (index + 1) := by
        rw [← List.drop_eq_getElem_cons hlt, List.take_append_drop]
      have hsum : t.pendingResponseBytes =
          ((t.pendingResponses.take index ++ t.pendingResponses.drop (index + 1)).map
            IpcFrame.wireSize).sum + t.pendingResponses[index].wireSize := by
        rw [hcounted]
        conv_lhs => rw [hsplit]
        simp only [List.map_append, List.map_cons, List.sum_append, List.sum_cons]
        omega
      refine .inr ⟨_, _, _, hsplit, of_decide_eq_true htype, ?_⟩
      have hle : ¬ t.pendingResponseBytes < t.pendingResponses[index].wireSize := by omega
      have hsub : t.pendingResponseBytes - t.pendingResponses[index].wireSize =
          ((t.pendingResponses.take index ++ t.pendingResponses.drop (index + 1)).map
            IpcFrame.wireSize).sum := by omega
      simp only [removePendingResponse, List.getElem?_eq_getElem hlt, if_neg hle, hsub,
        List.eraseIdx_eq_take_drop_succ]

/-- A frame that the peer sent of its own accord is not of a type with the given code. -/
def Foreign (peer : List PeerFrame) (messageType : IpcMessageType) : Prop :=
  ∀ frame, .other frame ∈ peer → frame.messageType.asU16 ≠ messageType.asU16

theorem Others.ne {queue : List IpcFrame} {messageType : IpcMessageType} (h : Others peer queue)
    (hforeign : Foreign peer messageType) {frame : IpcFrame} (hframe : frame ∈ queue) :
    frame.messageType ≠ messageType := by
  intro heq
  obtain ⟨f, hf, rfl⟩ := h frame hframe
  refine hforeign f hf ?_
  rw [← heq, IpcFrame.asU16_decoded]

/-- **A frame of an expected type is the answer**, and only frames of the peer's own accord are
left. -/
theorem Answered.taken {written : Nat} {before after : List IpcFrame} {frame : IpcFrame}
    (h : Answered peer written (before ++ frame :: after)) {messageType : IpcMessageType}
    (hforeign : Foreign peer messageType) (htype : frame.messageType = messageType) :
    (∃ answer, (answers peer)[written - 1]? = some answer ∧ frame = answer.decoded) ∧
      Others peer (before ++ after) := by
  obtain ⟨answer, others, hanswer, hothers, hperm⟩ := h
  have hmiddle : (frame :: (before ++ after)).Perm (answer.decoded :: others) :=
    List.perm_middle.symm.trans hperm
  have hframe : frame = answer.decoded := by
    rcases List.mem_cons.1 (hmiddle.subset List.mem_cons_self) with heq | hmem
    · exact heq
    · exact absurd htype (hothers.ne hforeign hmem)
  refine ⟨⟨answer, hanswer, hframe⟩, fun g hg => ?_⟩
  subst hframe
  exact hothers g (((List.perm_cons _).1 hmiddle).subset hg)

/-- With the answer taken, the transceiver has no request in flight and owes none. -/
theorem Settled.taken (h : Settled peer t) {before after : List IpcFrame} {frame : IpcFrame}
    (hqueue : t.pendingResponses = before ++ frame :: after) (hflight : t.inFlight = some f)
    {messageType : IpcMessageType} (hforeign : Foreign peer messageType)
    (htype : frame.messageType = messageType) :
    (∃ answer, (answers peer)[(requests t.stream).length - 1]? = some answer ∧
        frame = answer.decoded) ∧
      Settled peer { t with
        pendingResponses := before ++ after
        pendingResponseBytes := ((before ++ after).map IpcFrame.wireSize).sum
        inFlight := none } := by
  have hmem : frame ∈ t.pendingResponses := by
    rw [hqueue]
    simp
  have hanswered : Answered peer (requests t.stream).length (before ++ frame :: after) := by
    rcases (h.flight f hflight).2 with hothers | hanswered
    · exact absurd htype (hothers.ne hforeign hmem)
    · rwa [hqueue] at hanswered
  obtain ⟨hanswer, hothers⟩ := hanswered.taken hforeign htype
  refine ⟨hanswer, rfl, fun hconnected => ?_, fun f hf => absurd hf (by simp)⟩
  obtain ⟨n, hread⟩ := h.connected hconnected
  refine ⟨n, hread.le, hread.read, fun _ => ?_, fun hbusy => absurd rfl hbusy⟩
  rcases hread.busy (by simp [hflight]) with ⟨-, hnone⟩ | ⟨hcount, -⟩
  · exact absurd htype (hnone.ne hforeign hmem)
  · exact ⟨hcount, hothers⟩

/-- The frames that no one asked for have neither the type that a request in flight expects nor
that of an error. -/
theorem Conforms.foreign (hpeer : Conforms t.stream peer) (hlast : LastWritten t.stream f) :
    Foreign peer f.expectedResponseType ∧ Foreign peer .errorResponse := by
  obtain ⟨frame, hframe, -⟩ := hlast
  refine ⟨fun other hother => ?_, fun other hother => (hpeer.unsolicited other hother).1⟩
  exact (hpeer.unsolicited other hother).2 _ (List.mem_of_getLast? hframe)

/-- **The queue decides a request only by the answer to it.** -/
theorem settle_settled {requestType : IpcMessageType} {deadline now : Instant}
    {result : Option (Result IpcFrame)} (hpeer : Conforms t.stream peer) (h : Settled peer t)
    (hflight : t.inFlight = some f)
    (hsettle : t.settle requestType f.expectedResponseType context deadline now = (result, t')) :
    Settled peer t' ∧ t'.stream = t.stream ∧ t'.config = t.config ∧
      (result = none → t' = t) ∧ (∀ r, result = some r → t'.inFlight = none) ∧
      ∀ frame, result = some (.ok frame) →
        ∃ answer, (answers peer)[(requests t.stream).length - 1]? = some answer ∧
          frame = answer.decoded := by
  obtain ⟨hexpected, herror⟩ := hpeer.foreign (h.flight f hflight).1
  unfold settle at hsettle
  by_cases hlate : now ≥ deadline
  · rw [if_pos hlate] at hsettle
    obtain ⟨rfl, rfl⟩ := Prod.mk.inj hsettle
    exact ⟨h.abandoned rfl rfl rfl rfl, rfl, rfl, fun hnone => absurd hnone (by simp),
      fun _ _ => rfl, fun frame hframe => absurd hframe (by simp)⟩
  rw [if_neg hlate] at hsettle
  rcases takeResponse_cases f.expectedResponseType h.counted with
    ⟨htake, -⟩ | ⟨before, frame, after, hqueue, htype, htake⟩
  · rw [htake] at hsettle
    dsimp only at hsettle
    rcases takeResponse_cases .errorResponse h.counted with
      ⟨htake, -⟩ | ⟨before, frame, after, hqueue, htype, htake⟩
    · rw [htake] at hsettle
      obtain ⟨rfl, rfl⟩ := Prod.mk.inj hsettle
      exact ⟨h, rfl, rfl, fun _ => rfl, fun r hr => absurd hr (by simp),
        fun frame hframe => absurd hframe (by simp)⟩
    · rw [htake] at hsettle
      obtain ⟨rfl, rfl⟩ := Prod.mk.inj hsettle
      exact ⟨(h.taken hqueue hflight herror htype).2, rfl, rfl,
        fun hnone => absurd hnone (by simp), fun _ _ => rfl,
        fun frame hframe => absurd hframe (by simp)⟩
  · rw [htake] at hsettle
    dsimp only at hsettle
    obtain ⟨hanswer, htaken⟩ := h.taken hqueue hflight hexpected htype
    split at hsettle
    · obtain ⟨rfl, rfl⟩ := Prod.mk.inj hsettle
      exact ⟨htaken, rfl, rfl, fun hnone => absurd hnone (by simp), fun _ _ => rfl,
        fun frame hframe => absurd hframe (by simp)⟩
    · obtain ⟨rfl, rfl⟩ := Prod.mk.inj hsettle
      refine ⟨htaken, rfl, rfl, fun hnone => absurd hnone (by simp), fun _ _ => rfl, ?_⟩
      intro frame' hframe'
      obtain rfl : frame = frame' := by simpa using hframe'
      exact hanswer

/-! ## Errors that are final -/

/-- The result is no invitation to call again: only `notReady` is. -/
def Final {α : Type} (result : Result α) : Prop := ∀ e, result = .error e → e.retryable = false

theorem Final.new {α : Type} (code : ErrorCode) (message : String) :
    Final (.error (.new code message) : Result α) := by
  intro e he
  obtain rfl := Except.error.inj he
  rfl

theorem Final.ok {α : Type} (a : α) : Final (.ok a : Result α) :=
  fun _ h => absurd h (by simp)

theorem Final.ne_notReady {α : Type} {result : Result α} (h : Final result) :
    result ≠ .error notReady := by
  intro heq
  exact absurd (h _ heq) (by simp [notReady, DfmcpError.setRetryable])

/-- An error is passed on. -/
theorem Final.error {α β : Type} (h : Final (.error e : Result α)) :
    Final (.error e : Result β) := by
  intro e' he'
  obtain rfl := Except.error.inj he'
  exact h e rfl

theorem Final.bind {α β : Type} {x : Result α} {g : α → Result β} (h : Final x)
    (hg : ∀ a, Final (g a)) : Final (x >>= g) := by
  cases x with
  | error e => exact h.error
  | ok a => exact hg a

theorem Final.ite {α : Type} {c : Prop} [Decidable c] {x y : Result α} (hx : Final x)
    (hy : Final y) : Final (if c then x else y) := by
  split
  · exact hx
  · exact hy

theorem validate_final (context : OperationContext) (config : TransceiverConfig) :
    Final (validateContextAndConfig context config) := by
  refine Final.bind ?_ fun _ => ?_
  · exact Final.ite (.new _ _) (.ok _)
  · refine Final.ite (.new _ _) (Final.ite (.new _ _) (.ok _))

theorem pollNextFrame_final (decoder : IncrementalFrameDecoder) :
    Final decoder.pollNextFrame.1 := by
  unfold IncrementalFrameDecoder.pollNextFrame
  dsimp only
  split
  · exact .ok _
  · split
    · exact .new _ _
    · split
      · exact .ok _
      · split
        · exact .new _ _
        · exact .ok _

theorem queueRefusal_final {frame : IpcFrame} (h : t.queueRefusal context frame = some e) :
    e.retryable = false := by
  unfold queueRefusal at h
  split at h
  · obtain rfl := Option.some.inj h
    rfl
  · split at h
    · obtain rfl := Option.some.inj h
      rfl
    · split at h
      · obtain rfl := Option.some.inj h
        rfl
      · exact absurd h (by simp)

theorem drain_final (fuel count : Nat) (t : IpcTransceiver) :
    Final (drain context fuel count t).1 := by
  induction fuel generalizing count t with
  | zero => exact .ok _
  | succ fuel ih =>
      rw [drain]
      have hfinal := pollNextFrame_final t.decoder
      split
      case _ e decoder hpoll =>
        rw [hpoll] at hfinal
        exact hfinal.error
      case _ decoder hpoll => exact .ok _
      case _ frame decoder hpoll =>
        dsimp only
        split
        case _ e hrefusal =>
          intro e' he'
          obtain rfl := Except.error.inj he'
          exact queueRefusal_final hrefusal
        case _ => exact ih _ _

theorem pollIncoming_final (t : IpcTransceiver) (context : OperationContext)
    (read : ReadOutcome) : Final (t.pollIncoming context read).1 := by
  unfold pollIncoming
  have hvalidate := validate_final context t.config
  split
  case _ e he =>
    rw [he] at hvalidate
    exact hvalidate.error
  case _ =>
    split
    · exact .new _ _
    · cases read with
      | closed => exact .new _ _
      | wouldBlock => exact .ok _
      | failed error => exact .new _ _
      | data bytes =>
          dsimp only
          unfold IncrementalFrameDecoder.pushBytes
          by_cases hfull : bytes.length >
              maxDecoderBufferSize - (t.received bytes).decoder.buffer.length
          · rw [if_pos hfull]
            exact .new _ _
          · rw [if_neg hfull]
            exact drain_final _ _ _

theorem sendFrame_final (t : IpcTransceiver) (frame : IpcFrame)
    (expected : Option IpcMessageType) (context : OperationContext) (write : WriteOutcome) :
    Final (t.sendFrame frame expected context write).1 := by
  unfold sendFrame
  have hvalidate := validate_final context t.config
  split
  case _ e he =>
    rw [he] at hvalidate
    exact hvalidate.error
  case _ =>
    split
    · exact .new _ _
    · split
      · exact .new _ _
      · unfold IpcFrame.encode
        split
        case _ e he =>
          split at he
          · obtain rfl := Except.error.inj he
            exact .new _ _
          · exact absurd he (by simp)
        case _ =>
          cases write with
          | written => exact .ok _
          | writeFailed error => exact .new _ _
          | flushFailed error => exact .new _ _

theorem launch_final (t : IpcTransceiver) (frame : IpcFrame) (expected : IpcMessageType)
    (context : OperationContext) (exchange : Exchange) :
    Final (t.launch frame expected context exchange).1 := by
  unfold launch
  dsimp only
  split
  · split
    · exact .new _ _
    · exact .ok _
  · split
    · exact .new _ _
    · split
      · exact .new _ _
      · have hsend := sendFrame_final t frame (some expected) context exchange.write
        split
        case _ e t' he =>
          rw [he] at hsend
          exact hsend.error
        case _ => exact .ok _

theorem settle_final {requestType expected : IpcMessageType} {deadline now : Instant}
    {result : Result IpcFrame}
    (hcounted : t.pendingResponseBytes = (t.pendingResponses.map IpcFrame.wireSize).sum)
    (h : t.settle requestType expected context deadline now = (some result, t')) :
    Final result := by
  unfold settle at h
  split at h
  · obtain ⟨h, -⟩ := Prod.mk.inj h
    obtain rfl := Option.some.inj h
    exact .new _ _
  · rcases takeResponse_cases expected hcounted with ⟨htake, -⟩ | ⟨_, frame, _, -, -, htake⟩
    · rw [htake] at h
      dsimp only at h
      rcases takeResponse_cases .errorResponse hcounted with ⟨htake, -⟩ | ⟨_, frame, _, -, -, htake⟩
      · rw [htake] at h
        exact absurd h (by simp)
      · rw [htake] at h
        obtain ⟨h, -⟩ := Prod.mk.inj h
        obtain rfl := Option.some.inj h
        exact .new _ _
    · rw [htake] at h
      dsimp only at h
      split at h
      · obtain ⟨h, -⟩ := Prod.mk.inj h
        obtain rfl := Option.some.inj h
        exact .new _ _
      · obtain ⟨h, -⟩ := Prod.mk.inj h
        obtain rfl := Option.some.inj h
        exact .ok _

/-! ## Requests -/

/-- What a wait comes to: the request is still in flight and the caller may call again, or it is
not and the result is final. -/
structure Awaited (peer : List PeerFrame) (t : IpcTransceiver) (f : InFlightRequest)
    (result : Result IpcFrame) (t' : IpcTransceiver) : Prop where
  settled : Settled peer t'
  requests : requests t'.stream = requests t.stream
  flight : (t'.inFlight = some f ∧ result = .error notReady) ∨
    (t'.inFlight = none ∧ Final result)
  answered : ∀ frame, result = .ok frame →
    ∃ answer, (answers peer)[(IpcTransceiver.requests t'.stream).length - 1]? = some answer ∧
      frame = answer.decoded

section Await

variable {requestType expected : IpcMessageType} {deadline last : Instant}
  {result : Result IpcFrame}

theorem takeResponse_stream (t : IpcTransceiver) (messageType : IpcMessageType) :
    (t.takeResponse messageType).2.stream = t.stream := by
  unfold takeResponse removePendingResponse
  split
  · rfl
  · split
    · rfl
    · dsimp only
      split <;> rfl

theorem settle_stream {now : Instant} {decision : Option (Result IpcFrame)}
    (h : t.settle requestType expected context deadline now = (decision, t')) :
    t'.stream = t.stream := by
  have hexpected := takeResponse_stream t expected
  unfold settle at h
  split at h
  · obtain ⟨-, rfl⟩ := Prod.mk.inj h
    rfl
  · split at h
    case _ e t₁ htake =>
      rw [htake] at hexpected
      obtain ⟨-, rfl⟩ := Prod.mk.inj h
      exact hexpected
    case _ frame t₁ htake =>
      rw [htake] at hexpected
      split at h
      · obtain ⟨-, rfl⟩ := Prod.mk.inj h
        exact hexpected
      · obtain ⟨-, rfl⟩ := Prod.mk.inj h
        exact hexpected
    case _ t₁ htake =>
      rw [htake] at hexpected
      have herror := takeResponse_stream t₁ .errorResponse
      split at h
      case _ e t₂ htake =>
        rw [htake] at herror
        obtain ⟨-, rfl⟩ := Prod.mk.inj h
        exact herror.trans hexpected
      case _ frame t₂ htake =>
        rw [htake] at herror
        obtain ⟨-, rfl⟩ := Prod.mk.inj h
        exact herror.trans hexpected
      case _ t₂ htake =>
        rw [htake] at herror
        obtain ⟨-, rfl⟩ := Prod.mk.inj h
        exact herror.trans hexpected

theorem Listens.grows (h : Listens t t') : t.stream <+: t'.stream := by
  obtain ⟨bytes, hbytes⟩ := h.stream
  exact ⟨bytes.map .read, hbytes.symm⟩

/-- The wait adds to what was read. -/
theorem await_stream {rounds : List Round}
    (h : await requestType expected context deadline last rounds t = (result, t')) :
    t.stream <+: t'.stream := by
  induction rounds generalizing t with
  | nil =>
      rw [await] at h
      split at h
      case _ decision t₁ hsettle =>
        obtain ⟨-, rfl⟩ := Prod.mk.inj h
        rw [settle_stream hsettle]
      case _ t₁ hsettle =>
        rw [← settle_stream hsettle]
        split at h
        case _ e t₂ hpoll =>
          obtain ⟨-, rfl⟩ := Prod.mk.inj h
          exact (pollIncoming_listens hpoll).grows
        case _ count t₂ hpoll =>
          obtain ⟨-, rfl⟩ := Prod.mk.inj h
          exact (pollIncoming_listens hpoll).grows
  | cons round rounds ih =>
      rw [await] at h
      split at h
      case _ decision t₁ hsettle =>
        obtain ⟨-, rfl⟩ := Prod.mk.inj h
        rw [settle_stream hsettle]
      case _ t₁ hsettle =>
        rw [← settle_stream hsettle]
        split at h
        case _ e t₂ hpoll =>
          obtain ⟨-, rfl⟩ := Prod.mk.inj h
          exact (pollIncoming_listens hpoll).grows
        case _ t₂ hpoll =>
          obtain ⟨-, rfl⟩ := Prod.mk.inj h
          exact (pollIncoming_listens hpoll).grows
        case _ count t₂ hpoll => exact (pollIncoming_listens hpoll).grows.trans (ih h)

theorem Awaited.of_settle {now : Instant} (hpeer : Conforms t.stream peer) (h : Settled peer t)
    (hflight : t.inFlight = some f)
    (hsettle : t.settle requestType f.expectedResponseType context deadline now =
      (some result, t')) : Awaited peer t f result t' := by
  obtain ⟨hsettled, hstream, -, -, hnone, hanswer⟩ := settle_settled hpeer h hflight hsettle
  refine ⟨hsettled, by rw [hstream], ?_, ?_⟩
  · exact .inr ⟨hnone _ rfl, settle_final h.counted hsettle⟩
  · intro frame hframe
    rw [hstream]
    exact hanswer frame (congrArg some hframe)

/-- A read that fails gives the request up, on a stream that is broken. -/
theorem Awaited.of_poll_error {read : ReadOutcome} (h : Settled peer t)
    (hvalid : validateContextAndConfig context t.config = .ok ())
    (hpoll : t.pollIncoming context read = (.error e, t')) (hpeer : Conforms t'.stream peer) :
    Awaited peer t f (.error e) { t' with inFlight := none } := by
  have hsettled := pollIncoming_settled h hpoll hpeer
  have hfinal := pollIncoming_final t context read
  rw [hpoll] at hfinal
  have hbroken : t'.state.isConnected = false := pollIncoming_error h hpoll hpeer hvalid
  refine ⟨hsettled.abandoned hbroken rfl rfl rfl, (pollIncoming_listens hpoll).requests,
    .inr ⟨rfl, hfinal.error⟩, ?_⟩
  intro frame hframe
  exact absurd hframe (by simp)

/-- A read without a complete frame leaves the request in flight. -/
theorem Awaited.of_poll_none {read : ReadOutcome} {count : Nat} (h : Settled peer t)
    (hflight : t.inFlight = some f)
    (hpoll : t.pollIncoming context read = (.ok count, t')) (hpeer : Conforms t'.stream peer) :
    Awaited peer t f (.error notReady) t' := by
  have hlistens := pollIncoming_listens hpoll
  refine ⟨pollIncoming_settled h hpoll hpeer, hlistens.requests,
    .inl ⟨hlistens.inFlight.trans hflight, rfl⟩, ?_⟩
  intro frame hframe
  exact absurd hframe (by simp)

theorem Awaited.trans {t₁ : IpcTransceiver} (h : Awaited peer t₁ f result t')
    (hlistens : Listens t t₁) : Awaited peer t f result t' :=
  ⟨h.settled, h.requests.trans hlistens.requests, h.flight, h.answered⟩

/-- **The wait ends with the answer to the request in flight**, an error, or the request still in
flight. -/
theorem await_settled {rounds : List Round} (h : Settled peer t) (hflight : t.inFlight = some f)
    (hvalid : validateContextAndConfig context t.config = .ok ())
    (hawait : await requestType f.expectedResponseType context deadline last rounds t =
      (result, t')) (hpeer : Conforms t'.stream peer) : Awaited peer t f result t' := by
  have hstart : Conforms t.stream peer := hpeer.of_prefix (await_stream hawait)
  induction rounds generalizing t with
  | nil =>
      rw [await] at hawait
      split at hawait
      case _ decision t₁ hsettle =>
        obtain ⟨rfl, rfl⟩ := Prod.mk.inj hawait
        exact .of_settle hstart h hflight hsettle
      case _ t₁ hsettle =>
        obtain rfl := (settle_settled hstart h hflight hsettle).2.2.2.1 rfl
        split at hawait
        case _ e t₂ hpoll =>
          obtain ⟨rfl, rfl⟩ := Prod.mk.inj hawait
          exact .of_poll_error h hvalid hpoll hpeer
        case _ count t₂ hpoll =>
          obtain ⟨rfl, rfl⟩ := Prod.mk.inj hawait
          exact .of_poll_none h hflight hpoll hpeer
  | cons round rounds ih =>
      rw [await] at hawait
      split at hawait
      case _ decision t₁ hsettle =>
        obtain ⟨rfl, rfl⟩ := Prod.mk.inj hawait
        exact .of_settle hstart h hflight hsettle
      case _ t₁ hsettle =>
        obtain rfl := (settle_settled hstart h hflight hsettle).2.2.2.1 rfl
        split at hawait
        case _ e t₂ hpoll =>
          obtain ⟨rfl, rfl⟩ := Prod.mk.inj hawait
          exact .of_poll_error h hvalid hpoll hpeer
        case _ t₂ hpoll =>
          obtain ⟨rfl, rfl⟩ := Prod.mk.inj hawait
          exact .of_poll_none h hflight hpoll hpeer
        case _ count t₂ hpoll =>
          have hlistens := pollIncoming_listens hpoll
          have hnext : Conforms t₂.stream peer := hpeer.of_prefix (await_stream hawait)
          refine Awaited.trans (ih (pollIncoming_settled h hpoll hnext) ?_ ?_ hawait hnext) hlistens
          · exact hlistens.inFlight.trans hflight
          · rw [hlistens.config]
            exact hvalid

end Await

/-! ## Writing -/

section Write

variable {frame : IpcFrame}

/-- What a send comes to: nothing, or the frame on the stream, which is broken unless the send
succeeds. -/
theorem sendFrame_cases {expected : Option IpcMessageType} {write : WriteOutcome}
    {result : Result Unit} (h : t.sendFrame frame expected context write = (result, t')) :
    (t' = t ∧ result ≠ .ok ()) ∨
      (t' = { t with state := .disconnected } ∧ result ≠ .ok ()) ∨
      (t.state.isConnected = true ∧ ((t' = { t with
          stream := t.stream ++ [.wrote frame expected], state := .disconnected } ∧
          result ≠ .ok ()) ∨ (t' = t.sent frame expected ∧ result = .ok ()))) := by
  unfold sendFrame at h
  split at h
  · obtain ⟨rfl, rfl⟩ := Prod.mk.inj h
    exact .inl ⟨rfl, by simp⟩
  · cases hconnected : t.state.isConnected with
    | false =>
        rw [hconnected] at h
        obtain ⟨rfl, rfl⟩ := Prod.mk.inj h
        exact .inl ⟨rfl, by simp⟩
    | true =>
        rw [hconnected, if_neg (by simp)] at h
        split at h
        · obtain ⟨rfl, rfl⟩ := Prod.mk.inj h
          exact .inl ⟨rfl, by simp⟩
        · split at h
          · obtain ⟨rfl, rfl⟩ := Prod.mk.inj h
            exact .inl ⟨rfl, by simp⟩
          · cases write with
            | writeFailed error =>
                obtain ⟨rfl, rfl⟩ := Prod.mk.inj h
                exact .inr (.inl ⟨rfl, by simp⟩)
            | flushFailed error =>
                obtain ⟨rfl, rfl⟩ := Prod.mk.inj h
                exact .inr (.inr ⟨rfl, .inl ⟨rfl, by simp⟩⟩)
            | written =>
                obtain ⟨rfl, rfl⟩ := Prod.mk.inj h
                exact .inr (.inr ⟨rfl, .inr ⟨rfl, rfl⟩⟩)

/-- A frame of the caller's own is no request. -/
theorem Settled.wrote (h : Settled peer t) (hstream : t'.stream = t.stream ++ [.wrote frame none])
    (hstate : t'.state = t.state) (hdecoder : t'.decoder = t.decoder)
    (hpending : t'.pendingResponses = t.pendingResponses)
    (hbytes : t'.pendingResponseBytes = t.pendingResponseBytes)
    (hflight : t'.inFlight = t.inFlight) : Settled peer t' := by
  have hrequests : requests t'.stream = requests t.stream := by
    rw [hstream, requests_append]
    exact List.append_nil _
  have hread : bytesRead t'.stream = bytesRead t.stream := by
    rw [hstream, bytesRead_append]
    exact List.append_nil _
  refine ⟨?_, ?_, ?_⟩
  · rw [hbytes, hpending]
    exact h.counted
  · intro hconnected
    rw [hstate] at hconnected
    obtain ⟨n, hreading⟩ := h.connected hconnected
    refine ⟨n, hreading.le, ?_, ?_, ?_⟩
    · rw [hread, hdecoder]
      exact hreading.read
    · rw [hrequests, hpending, hflight]
      exact hreading.idle
    · rw [hrequests, hpending, hflight]
      exact hreading.busy
  · intro f hf
    rw [hflight] at hf
    rw [LastWritten, hrequests, hpending]
    exact h.flight f hf

theorem sendFrame_settled {write : WriteOutcome} {result : Result Unit} (h : Settled peer t)
    (hsend : t.sendFrame frame none context write = (result, t')) :
    Settled peer t' ∧ requests t'.stream = requests t.stream ∧ t'.inFlight = t.inFlight ∧
      t.stream <+: t'.stream := by
  have hrequests : requests (t.stream ++ [.wrote frame none]) = requests t.stream := by
    rw [requests_append]
    exact List.append_nil _
  rcases sendFrame_cases hsend with ⟨rfl, -⟩ | ⟨rfl, -⟩ | ⟨-, ⟨rfl, -⟩ | ⟨rfl, -⟩⟩
  · exact ⟨h, rfl, rfl, List.prefix_refl _⟩
  · exact ⟨h.broken rfl rfl rfl rfl rfl, rfl, rfl, List.prefix_refl _⟩
  · refine ⟨?_, hrequests, rfl, List.prefix_append _ _⟩
    have hsent : Settled peer (t.sent frame none) := h.wrote rfl rfl rfl rfl rfl rfl
    exact hsent.broken rfl rfl rfl rfl rfl
  · exact ⟨h.wrote rfl rfl rfl rfl rfl rfl, hrequests, rfl, List.prefix_append _ _⟩

variable {expected : IpcMessageType} {exchange : Exchange} {outcome : Result Instant}

/-- The request in flight is of the given identity, and expects the given type. -/
def Carries (f : InFlightRequest) (frame : IpcFrame) (expected : IpcMessageType) : Prop :=
  f.identity = requestIdentity frame.messageType expected frame.payload ∧
    f.expectedResponseType = expected

/-- What a launch comes to: nothing is written, as the request is in flight or refused; the stream
breaks, with or without the frame on it; or the request is on its way. -/
theorem launch_cases (h : t.launch frame expected context exchange = (outcome, t')) :
    (t' = t ∧ ∀ d, outcome = .ok d → ∃ f, t.inFlight = some f ∧ Carries f frame expected) ∨
      (t.inFlight = none ∧ t' = { t with state := .disconnected } ∧ ∃ e, outcome = .error e) ∨
      (t.inFlight = none ∧ t.state.isConnected = true ∧ (∃ e, outcome = .error e) ∧
        t' = { t with
          stream := t.stream ++ [.wrote frame (some expected)], state := .disconnected }) ∨
      (t.inFlight = none ∧ t.state.isConnected = true ∧ ∃ deadline, outcome = .ok deadline ∧
        t' = { t.sent frame (some expected) with inFlight := some ⟨requestIdentity
          frame.messageType expected frame.payload, expected, deadline⟩ }) := by
  unfold launch at h
  dsimp only at h
  cases hflight : t.inFlight with
  | some f =>
      rw [hflight] at h
      dsimp only at h
      split at h
      · obtain ⟨rfl, rfl⟩ := Prod.mk.inj h
        exact .inl ⟨rfl, fun d hd => absurd hd (by simp)⟩
      · rename_i hsame
        obtain ⟨hidentity, hexpected⟩ := not_or.1 hsame
        obtain ⟨rfl, rfl⟩ := Prod.mk.inj h
        exact .inl ⟨rfl, fun d hd => ⟨f, rfl, not_not.1 hidentity, not_not.1 hexpected⟩⟩
  | none =>
      rw [hflight] at h
      dsimp only at h
      split at h
      · obtain ⟨rfl, rfl⟩ := Prod.mk.inj h
        exact .inl ⟨rfl, fun d hd => absurd hd (by simp)⟩
      · split at h
        · obtain ⟨rfl, rfl⟩ := Prod.mk.inj h
          exact .inl ⟨rfl, fun d hd => absurd hd (by simp)⟩
        · split at h
          case _ e t₁ hsend =>
            obtain ⟨rfl, rfl⟩ := Prod.mk.inj h
            rcases sendFrame_cases hsend with ⟨rfl, -⟩ | ⟨rfl, -⟩ |
              ⟨hconnected, ⟨rfl, -⟩ | ⟨-, hok⟩⟩
            · exact .inl ⟨rfl, fun d hd => absurd hd (by simp)⟩
            · exact .inr (.inl ⟨rfl, by rw [hflight], e, rfl⟩)
            · exact .inr (.inr (.inl ⟨rfl, hconnected, ⟨e, rfl⟩, by rw [hflight]⟩))
            · exact absurd hok (by simp)
          case _ u t₁ hsend =>
            obtain ⟨rfl, rfl⟩ := Prod.mk.inj h
            rcases sendFrame_cases hsend with ⟨-, hno⟩ | ⟨-, hno⟩ |
              ⟨hconnected, ⟨-, hno⟩ | ⟨rfl, -⟩⟩
            · exact absurd rfl hno
            · exact absurd rfl hno
            · exact absurd rfl hno
            · exact .inr (.inr (.inr ⟨rfl, hconnected, _, rfl, rfl⟩))

theorem requests_wrote (trace : List IoEvent) (frame : IpcFrame) (expected : IpcMessageType) :
    requests (trace ++ [.wrote frame (some expected)]) = requests trace ++ [(frame, expected)] := by
  rw [requests_append]
  rfl

/-- **A request on its way owes its answer**, and nothing else is owed. -/
theorem Settled.launched (h : Settled peer t) (hidle : t.inFlight = none)
    (hconnected : t.state.isConnected = true) (frame : IpcFrame) (expected : IpcMessageType)
    (deadline : Instant) :
    Settled peer { t.sent frame (some expected) with inFlight := some ⟨requestIdentity
      frame.messageType expected frame.payload, expected, deadline⟩ } := by
  obtain ⟨n, hreading⟩ := h.connected hconnected
  obtain ⟨hcount, hothers⟩ := hreading.idle hidle
  have hread : bytesRead (t.stream ++ [.wrote frame (some expected)]) = bytesRead t.stream := by
    rw [bytesRead_append]
    exact List.append_nil _
  refine ⟨h.counted, fun _ => ⟨n, hreading.le, ?_, fun hnone => absurd hnone (by simp), ?_⟩, ?_⟩
  · exact hread.trans hreading.read
  · intro _
    refine .inl ⟨?_, hothers⟩
    show _ = (requests (t.stream ++ [.wrote frame (some expected)])).length
    rw [requests_wrote, List.length_append, hcount]
    rfl
  · intro f hf
    obtain rfl := Option.some.inj hf
    refine ⟨⟨frame, ?_, rfl⟩, .inl hothers⟩
    show (requests (t.stream ++ [.wrote frame (some expected)])).getLast? = _
    rw [requests_wrote, List.getLast?_concat]

theorem launch_settled (h : Settled peer t)
    (hlaunch : t.launch frame expected context exchange = (outcome, t')) : Settled peer t' := by
  rcases launch_cases hlaunch with ⟨rfl, -⟩ | ⟨-, rfl, -⟩ | ⟨hidle, hconnected, -, rfl⟩ |
    ⟨hidle, hconnected, deadline, -, rfl⟩
  · exact h
  · exact h.broken rfl rfl rfl rfl rfl
  · exact (h.launched hidle hconnected frame expected 0).abandoned rfl rfl rfl hidle
  · exact h.launched hidle hconnected frame expected deadline

end Write

/-! ## Calls -/

/-- What a request call comes to. -/
structure Requested (peer : List PeerFrame) (t : IpcTransceiver) (frame : IpcFrame)
    (expected : IpcMessageType) (result : Result IpcFrame) (t' : IpcTransceiver) : Prop where
  settled : Settled peer t'
  wrote : requests t'.stream = requests t.stream ∨
    (t.inFlight = none ∧ t.state.isConnected = true ∧
      requests t'.stream = requests t.stream ++ [(frame, expected)])
  flight : ∀ f, t.inFlight = some f →
    t'.inFlight = some f ∨ (Carries f frame expected ∧ result ≠ .error notReady)
  retry : result = .error notReady → ∃ f, t'.inFlight = some f ∧ Carries f frame expected
  answered : ∀ response, result = .ok response →
    ∃ f answer, Carries f frame expected ∧ LastWritten t'.stream f ∧
      (answers peer)[(requests t'.stream).length - 1]? = some answer ∧ response = answer.decoded

/-- A call that is refused changes nothing. -/
theorem Requested.refused {frame : IpcFrame} {expected : IpcMessageType} (h : Settled peer t)
    (hfinal : Final (.error e : Result IpcFrame)) :
    Requested peer t frame expected (.error e) t :=
  ⟨h, .inl rfl, fun _ hf => .inl hf, fun he => absurd he hfinal.ne_notReady,
    fun _ hok => absurd hok (by simp)⟩

/-- The wait for a request that was in flight, or was just written. -/
theorem Requested.of_awaited {t₁ : IpcTransceiver} {frame : IpcFrame} {expected : IpcMessageType}
    {result : Result IpcFrame} (h : Settled peer t₁) (hawaited : Awaited peer t₁ f result t')
    (hflight : t₁.inFlight = some f) (hcarries : Carries f frame expected)
    (hbefore : ∀ f', t.inFlight = some f' → f' = f)
    (hwrote : requests t₁.stream = requests t.stream ∨
      (t.inFlight = none ∧ t.state.isConnected = true ∧
        requests t₁.stream = requests t.stream ++ [(frame, expected)])) :
    Requested peer t frame expected result t' := by
  refine ⟨hawaited.settled, ?_, ?_, ?_, ?_⟩
  · rw [hawaited.requests]
    exact hwrote
  · intro f' hf'
    obtain rfl := hbefore f' hf'
    rcases hawaited.flight with ⟨hsame, -⟩ | ⟨-, hfinal⟩
    · exact .inl hsame
    · exact .inr ⟨hcarries, hfinal.ne_notReady⟩
  · intro hretry
    rcases hawaited.flight with ⟨hsame, -⟩ | ⟨-, hfinal⟩
    · exact ⟨f, hsame, hcarries⟩
    · exact absurd hretry hfinal.ne_notReady
  · intro response hresponse
    obtain ⟨answer, hanswer, hdecoded⟩ := hawaited.answered response hresponse
    refine ⟨f, answer, hcarries, ?_, hanswer, hdecoded⟩
    rw [LastWritten, hawaited.requests]
    exact (h.flight f hflight).1

section Request

variable {requestType expected : IpcMessageType} {payload : Bytes} {exchange : Exchange}
  {result : Result IpcFrame}

theorem launch_stream {frame : IpcFrame} {outcome : Result Instant}
    (h : t.launch frame expected context exchange = (outcome, t')) : t.stream <+: t'.stream := by
  rcases launch_cases h with ⟨rfl, -⟩ | ⟨-, rfl, -⟩ | ⟨-, -, -, rfl⟩ | ⟨-, -, _, -, rfl⟩
  · exact List.prefix_refl _
  · exact List.prefix_refl _
  · exact List.prefix_append _ _
  · exact List.prefix_append _ _

/-- What a request call does: it is refused, or it launches its frame and waits. -/
theorem request_cases
    (h : t.request requestType payload expected context exchange = (result, t')) :
    (t' = t ∧ ∃ e, result = .error e ∧ Final result) ∨
      (validateContextAndConfig context t.config = .ok () ∧
        ((∃ e, t.launch ⟨requestType, payload⟩ expected context exchange = (.error e, t') ∧
            result = .error e) ∨
          ∃ deadline t₁, t.launch ⟨requestType, payload⟩ expected context exchange =
              (.ok deadline, t₁) ∧
            await requestType expected context deadline exchange.last exchange.rounds t₁ =
              (result, t'))) := by
  unfold request at h
  have hvalidate := validate_final context t.config
  split at h
  case _ e he =>
    rw [he] at hvalidate
    obtain ⟨rfl, rfl⟩ := Prod.mk.inj h
    exact .inl ⟨rfl, e, rfl, hvalidate.error⟩
  case _ u hu =>
    split at h
    · obtain ⟨rfl, rfl⟩ := Prod.mk.inj h
      exact .inl ⟨rfl, _, rfl, .new _ _⟩
    · unfold IpcFrame.new at h
      by_cases hsize : payload.length > maxFramePayloadSize
      · rw [if_pos hsize] at h
        obtain ⟨rfl, rfl⟩ := Prod.mk.inj h
        exact .inl ⟨rfl, _, rfl, .new _ _⟩
      · rw [if_neg hsize] at h
        refine .inr ⟨hu, ?_⟩
        dsimp only at h
        split at h
        case _ e t₁ hlaunch =>
          obtain ⟨rfl, rfl⟩ := Prod.mk.inj h
          exact .inl ⟨e, hlaunch, rfl⟩
        case _ deadline t₁ hlaunch => exact .inr ⟨deadline, t₁, hlaunch, h⟩

theorem request_stream
    (h : t.request requestType payload expected context exchange = (result, t')) :
    t.stream <+: t'.stream := by
  rcases request_cases h with ⟨rfl, -⟩ | ⟨-, ⟨e, hlaunch, -⟩ | ⟨deadline, t₁, hlaunch, hawait⟩⟩
  · exact List.prefix_refl _
  · exact launch_stream hlaunch
  · exact (launch_stream hlaunch).trans (await_stream hawait)

/-- **A request call keeps the invariant**; it writes when nothing is in flight, and returns the
answer to the frame that it wrote or found in flight. -/
theorem request_settled (h : Settled peer t)
    (hrequest : t.request requestType payload expected context exchange = (result, t'))
    (hpeer : Conforms t'.stream peer) :
    Requested peer t ⟨requestType, payload⟩ expected result t' := by
  rcases request_cases hrequest with
    ⟨rfl, e, rfl, hfinal⟩ | ⟨hvalid, ⟨e, hlaunch, rfl⟩ | ⟨deadline, t₁, hlaunch, hawait⟩⟩
  · exact .refused h hfinal
  · have hsettled := launch_settled h hlaunch
    have hfinal := launch_final t ⟨requestType, payload⟩ expected context exchange
    rw [hlaunch] at hfinal
    have hnotReady : (.error e : Result IpcFrame) ≠ .error notReady := hfinal.error.ne_notReady
    rcases launch_cases hlaunch with ⟨rfl, -⟩ | ⟨hidle, rfl, -⟩ | ⟨hidle, hconnected, -, rfl⟩ |
      ⟨-, -, _, hok, -⟩
    · exact .refused h hfinal.error
    · exact ⟨hsettled, .inl rfl, fun f hf => .inl hf, fun he => absurd he hnotReady,
        fun _ hok => absurd hok (by simp)⟩
    · exact ⟨hsettled, .inr ⟨hidle, hconnected, requests_wrote _ _ _⟩, fun f hf => .inl hf,
        fun he => absurd he hnotReady, fun _ hok => absurd hok (by simp)⟩
    · exact absurd hok (by simp)
  · have hsettled := launch_settled h hlaunch
    rcases launch_cases hlaunch with ⟨rfl, hcarries⟩ | ⟨-, -, _, he⟩ | ⟨-, -, ⟨_, he⟩, -⟩ |
      ⟨hidle, hconnected, _, hok, rfl⟩
    · obtain ⟨f, hflight, hidentity, rfl⟩ := hcarries deadline rfl
      have hawaited := await_settled h hflight hvalid hawait hpeer
      refine .of_awaited h hawaited hflight ⟨hidentity, rfl⟩ ?_ (.inl rfl)
      intro f' hf'
      exact Option.some.inj (hf'.symm.trans hflight)
    · exact absurd he (by simp)
    · exact absurd he (by simp)
    · have hawaited := await_settled hsettled rfl hvalid hawait hpeer
      refine .of_awaited hsettled hawaited rfl ⟨rfl, rfl⟩ ?_ (.inr ⟨hidle, hconnected, ?_⟩)
      · intro f' hf'
        exact absurd hf' (by simp [hidle])
      · exact requests_wrote _ _ _

end Request

end Invariant

/-! ## Runs -/

/-- The calls of a transceiver; of a request, with what it returned. -/
inductive Event where
  | request (requestType : IpcMessageType) (payload : Bytes) (expected : IpcMessageType)
      (result : Result IpcFrame)
  | sendFrame (frame : IpcFrame)
  | pollIncoming

/-- One call, in any context and whatever the stream and the clock do meanwhile. -/
inductive Step (t : IpcTransceiver) : Event → IpcTransceiver → Prop
  | request {requestType expected : IpcMessageType} {payload : Bytes} {context : OperationContext}
      {exchange : Exchange} {result : Result IpcFrame} {t' : IpcTransceiver}
      (h : t.request requestType payload expected context exchange = (result, t')) :
      Step t (.request requestType payload expected result) t'
  | sendFrame {frame : IpcFrame} {context : OperationContext} {write : WriteOutcome}
      {result : Result Unit} {t' : IpcTransceiver}
      (h : t.sendFrame frame none context write = (result, t')) : Step t (.sendFrame frame) t'
  | pollIncoming {context : OperationContext} {read : ReadOutcome} {result : Result Nat}
      {t' : IpcTransceiver} (h : t.pollIncoming context read = (result, t')) :
      Step t .pollIncoming t'

section Runs

variable {peer : List PeerFrame} {t t' t'' : IpcTransceiver} {event : Event}
  {events after : List Event} {config : TransceiverConfig}

theorem step_stream (h : Step t event t') : t.stream <+: t'.stream := by
  cases h with
  | request h => exact request_stream h
  | sendFrame h =>
      rcases sendFrame_cases h with ⟨rfl, -⟩ | ⟨rfl, -⟩ | ⟨-, ⟨rfl, -⟩ | ⟨rfl, -⟩⟩
      · exact List.prefix_refl _
      · exact List.prefix_refl _
      · exact List.prefix_append _ _
      · exact List.prefix_append _ _
  | pollIncoming h => exact (pollIncoming_listens h).grows

theorem run_stream (h : Run Step t events t') : t.stream <+: t'.stream := by
  have hstep (a : IpcTransceiver) (i : Event) (b : IpcTransceiver) (ha : t.stream <+: a.stream)
      (h : Step a i b) : t.stream <+: b.stream := ha.trans (step_stream h)
  exact h.preserves hstep (List.prefix_refl _)

/-- **Every call keeps the invariant.** -/
theorem step_settled (h : Settled peer t) (hstep : Step t event t')
    (hpeer : Conforms t'.stream peer) : Settled peer t' := by
  cases hstep with
  | request hrequest => exact (request_settled h hrequest hpeer).settled
  | sendFrame hsend => exact (sendFrame_settled h hsend).1
  | pollIncoming hpoll => exact pollIncoming_settled h hpoll hpeer

/-- **The invariant holds after every run.** -/
theorem run_settled (h : Settled peer t) (hrun : Run Step t events t')
    (hpeer : Conforms t'.stream peer) : Settled peer t' := by
  induction hrun with
  | nil t => exact h
  | cons head tail ih =>
      exact ih (step_settled h head (hpeer.of_prefix (run_stream tail))) hpeer

/-- The call repeats a request in flight. -/
def Repeats (event : Event) (f : InFlightRequest) : Prop :=
  ∃ requestType payload result,
    event = .request requestType payload f.expectedResponseType result ∧
      f.identity = requestIdentity requestType f.expectedResponseType payload

/-- The call asks to be made again. -/
def Retryable (event : Event) : Prop :=
  ∃ requestType payload expected, event = .request requestType payload expected (.error notReady)

/-- **While a request is in flight none is written**, and only a call that repeats it and does not
ask to be made again ends it. -/
theorem step_busy {f : InFlightRequest} (h : Settled peer t) (hstep : Step t event t')
    (hpeer : Conforms t'.stream peer) (hflight : t.inFlight = some f) :
    requests t'.stream = requests t.stream ∧
      (t'.inFlight = some f ∨ (Repeats event f ∧ ¬ Retryable event)) := by
  cases hstep with
  | request hrequest =>
      have hrequested := request_settled h hrequest hpeer
      refine ⟨?_, ?_⟩
      · rcases hrequested.wrote with hsame | ⟨hidle, -⟩
        · exact hsame
        · exact absurd hflight (by simp [hidle])
      · rcases hrequested.flight f hflight with hsame | ⟨⟨hidentity, rfl⟩, hresult⟩
        · exact .inl hsame
        · refine .inr ⟨⟨_, _, _, rfl, hidentity⟩, ?_⟩
          intro ⟨_, _, _, hevent⟩
          exact hresult (Event.request.inj hevent).2.2.2
  | sendFrame hsend =>
      obtain ⟨-, hrequests, hsame, -⟩ := sendFrame_settled h hsend
      exact ⟨hrequests, .inl (hsame.trans hflight)⟩
  | pollIncoming hpoll =>
      have hlistens := pollIncoming_listens hpoll
      exact ⟨hlistens.requests, .inl (hlistens.inFlight.trans hflight)⟩

/-- **However often the call is repeated, nothing is written**, until it is settled. -/
theorem run_busy {f : InFlightRequest} (h : Settled peer t) (hrun : Run Step t events t')
    (hpeer : Conforms t'.stream peer) (hflight : t.inFlight = some f)
    (hretry : ∀ call ∈ events, Repeats call f → Retryable call) :
    requests t'.stream = requests t.stream ∧ t'.inFlight = some f := by
  induction hrun with
  | nil t => exact ⟨rfl, hflight⟩
  | cons head tail ih =>
      have hpeer' := hpeer.of_prefix (run_stream tail)
      obtain ⟨hrequests, hnext⟩ := step_busy h head hpeer' hflight
      have hsame := hnext.resolve_right fun ⟨hrepeats, hsettled⟩ =>
        hsettled (hretry _ List.mem_cons_self hrepeats)
      obtain ⟨hrest, hlast⟩ := ih (step_settled h head hpeer') hpeer hsame
        fun call hcall => hretry call (List.mem_cons_of_mem _ hcall)
      exact ⟨hrest.trans hrequests, hlast⟩

/-- **What a call writes**: at most one request, when every earlier one was answered and the answers
were read. -/
theorem step_writes (h : Settled peer t) (hstep : Step t event t')
    (hpeer : Conforms t'.stream peer) :
    requests t'.stream = requests t.stream ∨
      ∃ requestType payload expected result, event = .request requestType payload expected result ∧
        requests t'.stream = requests t.stream ++ [(⟨requestType, payload⟩, expected)] ∧
        t.inFlight = none ∧ t.state.isConnected = true ∧
        ∃ n, bytesRead t.stream = (peer.take n).flatMap PeerFrame.wire ++ t.decoder.buffer ∧
          (answers (peer.take n)).length = (requests t.stream).length := by
  cases hstep with
  | request hrequest =>
      rcases (request_settled h hrequest hpeer).wrote with hsame | ⟨hidle, hconnected, hwrote⟩
      · exact .inl hsame
      · obtain ⟨n, hreading⟩ := h.connected hconnected
        exact .inr ⟨_, _, _, _, rfl, hwrote, hidle, hconnected, n, hreading.read,
          (hreading.idle hidle).1⟩
  | sendFrame hsend => exact .inl (sendFrame_settled h hsend).2.1
  | pollIncoming hpoll => exact .inl (pollIncoming_listens hpoll).requests

/-- Requests of one identity are one frame on the wire, unless the hash collides on the two. -/
theorem wire_of_identity {frame frame' : IpcFrame} {expected : IpcMessageType}
    (h : identityBytes frame.messageType expected frame.payload =
      identityBytes frame'.messageType expected frame'.payload) : frame.wire = frame'.wire := by
  rw [identityBytes, identityBytes, List.append_assoc, List.append_assoc, List.append_assoc,
    List.append_assoc, List.append_cancel_left_eq] at h
  obtain ⟨htype, hrest⟩ := List.append_inj h (by simp)
  obtain ⟨-, hpayload⟩ := List.append_inj hrest rfl
  rw [IpcFrame.wire, IpcFrame.wire, htype, hpayload]

/-- **A single-flight transceiver never mismatches a response.** Over a peer that conforms, the
frame that a request call returns is the peer's answer to the last request written, which is the
frame of that call; from a call that asks to be made again on, no request is written until a call
that repeats it is settled, nor by the call that settles it; a request is written only on a connected
stream where every earlier one was answered and the answers were read; and the queue's byte count is
exact. -/
theorem single_flight (hrun : Run Step (new [] config) events t) (hstep : Step t event t')
    (hafter : Run Step t' after t'') (hpeer : Conforms t''.stream peer) :
    (∀ requestType payload expected frame,
      event = .request requestType payload expected (.ok frame) →
      ∃ written answer, (requests t'.stream).getLast? = some (written, expected) ∧
        (answers peer)[(requests t'.stream).length - 1]? = some answer ∧ frame = answer.decoded ∧
        requestIdentity written.messageType expected written.payload =
          requestIdentity requestType expected payload ∧
        ((requestIdentity written.messageType expected written.payload =
            requestIdentity requestType expected payload →
          identityBytes written.messageType expected written.payload =
            identityBytes requestType expected payload) →
          written.wire = (IpcFrame.mk requestType payload).wire)) ∧
    (∀ requestType payload expected,
      event = .request requestType payload expected (.error notReady) →
      ∃ f, t'.inFlight = some f ∧ f.expectedResponseType = expected ∧
        f.identity = requestIdentity requestType expected payload ∧
        ((∀ call ∈ after, Repeats call f → Retryable call) →
          requests t''.stream = requests t'.stream ∧ t''.inFlight = some f)) ∧
    (t.inFlight ≠ none → requests t'.stream = requests t.stream) ∧
    (requests t'.stream = requests t.stream ∨
      ∃ requestType payload expected result, event = .request requestType payload expected result ∧
        requests t'.stream = requests t.stream ++ [(⟨requestType, payload⟩, expected)] ∧
        t.inFlight = none ∧ t.state.isConnected = true ∧
        ∃ n, bytesRead t.stream = (peer.take n).flatMap PeerFrame.wire ++ t.decoder.buffer ∧
          (answers (peer.take n)).length = (requests t.stream).length) ∧
    t'.pendingResponseBytes = (t'.pendingResponses.map IpcFrame.wireSize).sum := by
  have hpeer' : Conforms t'.stream peer := hpeer.of_prefix (run_stream hafter)
  have hsettled : Settled peer t :=
    run_settled (settled_new config) hrun (hpeer'.of_prefix (step_stream hstep))
  have hsettled' : Settled peer t' := step_settled hsettled hstep hpeer'
  refine ⟨?_, ?_, ?_, step_writes hsettled hstep hpeer', hsettled'.counted⟩
  · intro requestType payload expected frame hevent
    subst hevent
    cases hstep with
    | request hrequest =>
        obtain ⟨f, answer, ⟨hidentity, rfl⟩, ⟨written, hlast, hwritten⟩, hanswer, hdecoded⟩ :=
          (request_settled hsettled hrequest hpeer').answered frame rfl
        have hsame := hwritten.symm.trans hidentity
        refine ⟨written, answer, hlast, hanswer, hdecoded, hsame, ?_⟩
        intro hcollision
        exact wire_of_identity (hcollision hsame)
  · intro requestType payload expected hevent
    subst hevent
    cases hstep with
    | request hrequest =>
        obtain ⟨f, hflight, hidentity, hexpected⟩ :=
          (request_settled hsettled hrequest hpeer').retry rfl
        refine ⟨f, hflight, hexpected, hidentity, ?_⟩
        intro hretry
        exact run_busy hsettled' hafter hpeer hflight hretry
  · intro hbusy
    obtain ⟨f, hflight⟩ := Option.ne_none_iff_exists'.1 hbusy
    exact (step_busy hsettled hstep hpeer' hflight).1

end Runs

/-! ## A health check -/

namespace HealthCheck

def question : IpcFrame := ⟨.healthRequest, []⟩
def reply : IpcFrame := ⟨.healthResponse, [79, 75]⟩

def context : OperationContext := ⟨1, 1, ⟨1, ⟨0, 0⟩, 0, .zero⟩, .conservativeDefault, [], false⟩

/-- The answer arrives in the first read. -/
def exchange : Exchange := ⟨0, .written, [⟨0, .data reply.wire⟩], 0⟩

def asked : Result IpcFrame × IpcTransceiver :=
  (new [] .default).request .healthRequest [] .healthResponse context exchange

theorem asked_eq : asked.1 = .ok reply ∧
    asked.2.stream = [.wrote question (some .healthResponse), .read reply.wire] := by
  decide +kernel

theorem conforms : Conforms asked.2.stream [.answer reply] := by
  rw [asked_eq.2]
  refine ⟨?_, ?_, ?_, ?_⟩
  · intro p hp
    obtain rfl := List.mem_singleton.1 hp
    decide
  · intro before hbefore
    rcases List.prefix_cons_iff.1 hbefore with rfl | ⟨rest, rfl, hrest⟩
    · exact ⟨0, List.nil_prefix, Nat.le_refl _⟩
    · refine ⟨1, ?_, Nat.le_add_left _ _⟩
      rcases List.prefix_cons_iff.1 hrest with rfl | ⟨rest, rfl, hnil⟩
      · exact List.nil_prefix
      · obtain rfl := List.prefix_nil.1 hnil
        exact List.prefix_refl _
  · intro k answer request hanswer hrequest
    cases k with
    | zero =>
        obtain rfl := Option.some.inj hanswer
        obtain rfl := Option.some.inj hrequest
        exact .inl rfl
    | succ k => exact absurd hanswer (by simp [answers, PeerFrame.answer?])
  · intro frame hframe
    exact absurd hframe (by simp)

end HealthCheck

open HealthCheck in
/-- A health check gets the answer to its request. -/
theorem single_flight_health :
    asked.1 = .ok reply ∧
      ∃ written answer, (requests asked.2.stream).getLast? = some (written, .healthResponse) ∧
        (answers [.answer reply])[(requests asked.2.stream).length - 1]? = some answer ∧
        reply = answer.decoded := by
  have hcall : (new [] .default).request .healthRequest [] .healthResponse context exchange =
      (asked.1, asked.2) := Prod.mk.eta.symm
  have hstep : Step (new [] .default) (.request .healthRequest [] .healthResponse asked.1)
      asked.2 := .request hcall
  refine ⟨asked_eq.1, ?_⟩
  obtain ⟨written, answer, hlast, hanswer, hdecoded, -⟩ :=
    (single_flight (.nil _) hstep (.nil _) conforms).1 .healthRequest [] .healthResponse reply
      (congrArg _ asked_eq.1)
  exact ⟨written, answer, hlast, hanswer, hdecoded⟩

end IpcTransceiver

end Dfmcp
