import Dfmcp.Core.Basic

/-!
# Frames of the bridge

`ipc.rs`: the framed binary messages between the adapter and the bridge process. A frame is a
four-byte payload length, a two-byte message type, the CRC-32 of the payload and the payload, all
big-endian; the decoder takes them off a buffer that grows by whatever the stream delivers. Sums of
a header and a payload length do not overflow, since a vector holds fewer than `2 ^ 63` bytes.
-/

namespace Dfmcp

open Machine

def maxFramePayloadSize : Nat := 16 * 1024 * 1024
def frameHeaderSize : Nat := 10
def maxDecoderBufferSize : Nat := maxFramePayloadSize + frameHeaderSize + 8192

inductive IpcMessageType where
  | handshakeRequest
  | handshakeResponse
  | healthRequest
  | healthResponse
  | probeCompatibilityRequest
  | probeCompatibilityResponse
  | readSnapshotRequest
  | readSnapshotResponse
  | readDeltaRequest
  | readDeltaResponse
  | prepareMutationRequest
  | prepareMutationResponse
  | commitMutationRequest
  | commitMutationResponse
  | lookupOperationRequest
  | lookupOperationResponse
  | cancelOperationRequest
  | cancelOperationResponse
  | createCheckpointRequest
  | createCheckpointResponse
  | restoreCheckpointRequest
  | restoreCheckpointResponse
  | heartbeat
  | errorResponse
  | custom (code : U 16)
deriving DecidableEq

namespace IpcMessageType

def fromU16 (value : U 16) : IpcMessageType :=
  match value.val with
  | 1 => .handshakeRequest
  | 2 => .handshakeResponse
  | 3 => .healthRequest
  | 4 => .healthResponse
  | 5 => .probeCompatibilityRequest
  | 6 => .probeCompatibilityResponse
  | 7 => .readSnapshotRequest
  | 8 => .readSnapshotResponse
  | 9 => .readDeltaRequest
  | 10 => .readDeltaResponse
  | 11 => .prepareMutationRequest
  | 12 => .prepareMutationResponse
  | 13 => .commitMutationRequest
  | 14 => .commitMutationResponse
  | 15 => .lookupOperationRequest
  | 16 => .lookupOperationResponse
  | 17 => .cancelOperationRequest
  | 18 => .cancelOperationResponse
  | 19 => .createCheckpointRequest
  | 20 => .createCheckpointResponse
  | 21 => .restoreCheckpointRequest
  | 22 => .restoreCheckpointResponse
  | 23 => .heartbeat
  | 24 => .errorResponse
  | _ => .custom value

def asU16 : IpcMessageType → U 16
  | .handshakeRequest => 1
  | .handshakeResponse => 2
  | .healthRequest => 3
  | .healthResponse => 4
  | .probeCompatibilityRequest => 5
  | .probeCompatibilityResponse => 6
  | .readSnapshotRequest => 7
  | .readSnapshotResponse => 8
  | .readDeltaRequest => 9
  | .readDeltaResponse => 10
  | .prepareMutationRequest => 11
  | .prepareMutationResponse => 12
  | .commitMutationRequest => 13
  | .commitMutationResponse => 14
  | .lookupOperationRequest => 15
  | .lookupOperationResponse => 16
  | .cancelOperationRequest => 17
  | .cancelOperationResponse => 18
  | .createCheckpointRequest => 19
  | .createCheckpointResponse => 20
  | .restoreCheckpointRequest => 21
  | .restoreCheckpointResponse => 22
  | .heartbeat => 23
  | .errorResponse => 24
  | .custom code => code

/-- The derived `Debug` text. -/
def debug : IpcMessageType → String
  | .handshakeRequest => "HandshakeRequest"
  | .handshakeResponse => "HandshakeResponse"
  | .healthRequest => "HealthRequest"
  | .healthResponse => "HealthResponse"
  | .probeCompatibilityRequest => "ProbeCompatibilityRequest"
  | .probeCompatibilityResponse => "ProbeCompatibilityResponse"
  | .readSnapshotRequest => "ReadSnapshotRequest"
  | .readSnapshotResponse => "ReadSnapshotResponse"
  | .readDeltaRequest => "ReadDeltaRequest"
  | .readDeltaResponse => "ReadDeltaResponse"
  | .prepareMutationRequest => "PrepareMutationRequest"
  | .prepareMutationResponse => "PrepareMutationResponse"
  | .commitMutationRequest => "CommitMutationRequest"
  | .commitMutationResponse => "CommitMutationResponse"
  | .lookupOperationRequest => "LookupOperationRequest"
  | .lookupOperationResponse => "LookupOperationResponse"
  | .cancelOperationRequest => "CancelOperationRequest"
  | .cancelOperationResponse => "CancelOperationResponse"
  | .createCheckpointRequest => "CreateCheckpointRequest"
  | .createCheckpointResponse => "CreateCheckpointResponse"
  | .restoreCheckpointRequest => "RestoreCheckpointRequest"
  | .restoreCheckpointResponse => "RestoreCheckpointResponse"
  | .heartbeat => "Heartbeat"
  | .errorResponse => "ErrorResponse"
  | .custom code => "Custom(" ++ toString code.val ++ ")"

/-- A code that was read is written back. -/
theorem asU16_fromU16 (value : U 16) : (fromU16 value).asU16 = value := by
  unfold fromU16
  split <;> first
    | rfl
    | (rename_i h; exact Fin.ext h.symm)

end IpcMessageType

/-! ## Text -/

/-- The bytes that may follow a lead byte, and how many more continue the character. -/
def utf8Lead (lead : Nat) : Option ((Nat × Nat) × Nat) :=
  if 0xC2 ≤ lead ∧ lead ≤ 0xDF then some ((0x80, 0xBF), 0)
  else if lead = 0xE0 then some ((0xA0, 0xBF), 1)
  else if lead = 0xED then some ((0x80, 0x9F), 1)
  else if 0xE1 ≤ lead ∧ lead ≤ 0xEF then some ((0x80, 0xBF), 1)
  else if lead = 0xF0 then some ((0x90, 0xBF), 2)
  else if 0xF1 ≤ lead ∧ lead ≤ 0xF3 then some ((0x80, 0xBF), 2)
  else if lead = 0xF4 then some ((0x80, 0x8F), 2)
  else none

/-- Read the continuation bytes of a character whose code so far is given. The first is in a range
of its own. A sequence that breaks off is replaced as a whole. -/
def utf8Continue (code : Nat) (range : Nat × Nat) : Nat → Bytes → Char × Bytes
  | _, [] => ('\uFFFD', [])
  | more, b :: rest =>
      if b.toNat < range.1 ∨ range.2 < b.toNat then ('\uFFFD', b :: rest)
      else match more with
        | 0 => (Char.ofNat (code * 64 + b.toNat % 64), rest)
        | more + 1 => utf8Continue (code * 64 + b.toNat % 64) (0x80, 0xBF) more rest

/-- The next character of the text. -/
def utf8Next (lead : UInt8) (rest : Bytes) : Char × Bytes :=
  if lead.toNat < 0x80 then (Char.ofNat lead.toNat, rest)
  else match utf8Lead lead.toNat with
    | none => ('\uFFFD', rest)
    | some (range, more) => utf8Continue (lead.toNat % 2 ^ (5 - more)) range more rest

/-- The characters of a text of at most that many bytes. -/
def utf8LossyChars : Nat → Bytes → List Char
  | 0, _ => []
  | _, [] => []
  | fuel + 1, lead :: rest =>
      let (c, rest) := utf8Next lead rest
      c :: utf8LossyChars fuel rest

/-- `String::from_utf8_lossy`. -/
def fromUtf8Lossy (bytes : Bytes) : String := String.ofList (utf8LossyChars bytes.length bytes)

/-! ## Checksums -/

/-- One step of the bitwise CRC-32, in the reflected polynomial. -/
def crcBit (crc : UInt32) : UInt32 :=
  if crc &&& 1 ≠ 0 then (crc >>> 1) ^^^ 0xEDB88320 else crc >>> 1

def crcByte (crc : UInt32) (byte : UInt8) : UInt32 :=
  (List.range 8).foldl (fun crc _ => crcBit crc) (crc ^^^ byte.toUInt32)

/-- The IEEE 802.3 CRC-32 checksum. -/
def computeCrc32 (data : Bytes) : UInt32 := ~~~ (data.foldl crcByte 0xFFFFFFFF)

/-- `format!("{:#010x}", n)`. -/
def hexCrc (crc : UInt32) : String :=
  "0x" ++ String.ofList
    ((List.range 8).map fun i => Nat.digitChar (crc.toNat / 16 ^ (7 - i) % 16))

/-! ## Frames -/

structure IpcFrame where
  messageType : IpcMessageType
  payload : Bytes
deriving DecidableEq

namespace IpcFrame

def oversized : DfmcpError :=
  .new .invalidRequest "IPC frame payload exceeds maximum allowed size of 16MB"

def new (messageType : IpcMessageType) (payload : Bytes) : Result IpcFrame :=
  if payload.length > maxFramePayloadSize then .error oversized else .ok ⟨messageType, payload⟩

/-- The bytes of a frame on the wire. -/
def wire (frame : IpcFrame) : Bytes :=
  beBytes 4 frame.payload.length ++ beBytes 2 frame.messageType.asU16.val ++
    beBytes 4 (computeCrc32 frame.payload).toNat ++ frame.payload

def encode (frame : IpcFrame) : Result Bytes :=
  if frame.payload.length > maxFramePayloadSize then .error oversized else .ok frame.wire

/-- The length of a frame on the wire. -/
def wireSize (frame : IpcFrame) : Nat := frameHeaderSize + frame.payload.length

end IpcFrame

/-! ## The incremental decoder -/

structure IncrementalFrameDecoder where
  buffer : Bytes
deriving DecidableEq

namespace IncrementalFrameDecoder

def new : IncrementalFrameDecoder := ⟨[]⟩

def pushBytes (decoder : IncrementalFrameDecoder) (chunk : Bytes) :
    Result Unit × IncrementalFrameDecoder :=
  if chunk.length > maxDecoderBufferSize - decoder.buffer.length then
    (.error (.new .budgetExceeded "incremental IPC decoder buffer exceeded its explicit bound"),
      ⟨[]⟩)
  else (.ok (), ⟨decoder.buffer ++ chunk⟩)

/-- The next complete frame, `none` when more bytes are needed. -/
def pollNextFrame (decoder : IncrementalFrameDecoder) :
    Result (Option IpcFrame) × IncrementalFrameDecoder :=
  let buffer := decoder.buffer
  if buffer.length < frameHeaderSize then (.ok none, decoder)
  else
    let payloadLen := ofBe (buffer.take 4)
    if payloadLen > maxFramePayloadSize then
      (.error (.new .invalidRequest
        ("IPC frame payload length " ++ toString payloadLen ++ " exceeds 16MB limit")), ⟨[]⟩)
    else
      let totalFrameLen := frameHeaderSize + payloadLen
      if buffer.length < totalFrameLen then (.ok none, decoder)
      else
        let messageType : U 16 := U.wrap (ofBe ((buffer.drop 4).take 2))
        let expectedCrc := ofBe ((buffer.drop 6).take 4)
        let payload := (buffer.take totalFrameLen).drop frameHeaderSize
        let actualCrc := computeCrc32 payload
        let rest : IncrementalFrameDecoder := ⟨buffer.drop totalFrameLen⟩
        if actualCrc.toNat ≠ expectedCrc then
          (.error (.new .invalidRequest
            ("IPC frame CRC32 mismatch: expected " ++ hexCrc (UInt32.ofNat expectedCrc) ++
              ", calculated " ++ hexCrc actualCrc)), rest)
        else (.ok (some ⟨.fromU16 messageType, payload⟩), rest)

end IncrementalFrameDecoder

/-! ## Connections -/

structure IpcTelemetry where
  framesSent : U 64
  framesReceived : U 64
  bytesSent : U 64
  bytesReceived : U 64
  crcErrors : U 64
  reconnectAttempts : U 32
deriving DecidableEq

namespace IpcTelemetry

def default : IpcTelemetry := ⟨0, 0, 0, 0, 0, 0⟩

end IpcTelemetry

inductive IpcConnectionState where
  | disconnected
  | connecting (attempt : U 32) (backoffMillis : U 64)
  | connected (targetPath : String)
  | degraded (reason : String)
  | closed
deriving DecidableEq

/-- `matches!(state, Connected { .. })`. -/
def IpcConnectionState.isConnected : IpcConnectionState → Bool
  | .connected _ => true
  | _ => false

structure ReconnectionPolicy where
  initialBackoffMillis : U 64
  maxBackoffMillis : U 64
  maxAttempts : U 32
deriving DecidableEq

namespace ReconnectionPolicy

def default : ReconnectionPolicy := ⟨100, 5000, 10⟩

end ReconnectionPolicy

end Dfmcp
