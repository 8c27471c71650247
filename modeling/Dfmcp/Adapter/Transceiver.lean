import Dfmcp.Adapter.Ipc
import Dfmcp.Core.Context

/-!
# The single-flight transceiver

`transceiver.rs`: requests and responses over a byte stream whose frames carry no correlation
identifier. The stream is a parameter of the source; here it is the record of what was written to
it and read from it, and each call is given what its writes and reads come to and what the clock
shows. `last_activity` is written and never read, and is left out.
-/

namespace Dfmcp

open Machine

def maxConfiguredPendingResponses : Nat := 1024
def maxBridgeErrorBytes : Nat := 4096
def maxPendingResponseBytes : Nat := 16 * 1024 * 1024

/-- In nanoseconds, as durations are. -/
abbrev Instant := Nat

def maxRequestTimeout : Nat := seconds 60
def maxHeartbeatInterval : Nat := seconds 300
def maxReconnectBackoffMillis : U 64 := 300000
def maxReconnectAttempts : U 32 := 100

/-- The last instant that the platform clock can represent. -/
def lastInstant : Instant := seconds (2 ^ 63 - 1) + 999999999

def Instant.checkedAdd (start : Instant) (duration : Nat) : Option Instant :=
  if start + duration ≤ lastInstant then some (start + duration) else none

structure TransceiverConfig where
  requestTimeout : Nat
  heartbeatInterval : Nat
  reconnectionPolicy : ReconnectionPolicy
  maxPendingResponses : Nat
deriving DecidableEq

namespace TransceiverConfig

def default : TransceiverConfig := ⟨millis 5000, millis 1000, .default, 128⟩

end TransceiverConfig

/-- What was written to the stream and read from it. A frame that `request` writes is recorded with
the type of the response it expects. -/
inductive IoEvent where
  | wrote (frame : IpcFrame) (expected : Option IpcMessageType)
  | read (bytes : Bytes)
deriving DecidableEq

/-- What `write_all` and `flush` come to. -/
inductive WriteOutcome where
  | written
  | writeFailed (error : String)
  | flushFailed (error : String)

/-- What `read` comes to. -/
inductive ReadOutcome where
  | closed
  | data (bytes : Bytes)
  | wouldBlock
  | failed (error : String)

structure InFlightRequest where
  identity : Digest32
  expectedResponseType : IpcMessageType
  deadline : Instant
deriving DecidableEq

structure IpcTransceiver where
  stream : List IoEvent
  config : TransceiverConfig
  state : IpcConnectionState
  decoder : IncrementalFrameDecoder
  telemetry : IpcTelemetry
  pendingResponses : List IpcFrame
  pendingResponseBytes : Nat
  inFlight : Option InFlightRequest
deriving DecidableEq

namespace IpcTransceiver

def new (stream : List IoEvent) (config : TransceiverConfig) : IpcTransceiver :=
  ⟨stream, config, .connected "stream", .new, .default, [], 0, none⟩

def validateContextAndConfig (context : OperationContext) (config : TransceiverConfig) :
    Result Unit := do
  context.budget.validate
  if context.cancellationRequested then
    throw (.new .cancellationRequested "IPC operation was cancelled before transport I/O")
  if config.requestTimeout = 0 ∨ config.requestTimeout > maxRequestTimeout ∨
      config.heartbeatInterval = 0 ∨ config.heartbeatInterval > maxHeartbeatInterval ∨
      config.maxPendingResponses = 0 ∨
      config.maxPendingResponses > maxConfiguredPendingResponses ∨
      config.reconnectionPolicy.initialBackoffMillis = 0 ∨
      config.reconnectionPolicy.initialBackoffMillis >
        config.reconnectionPolicy.maxBackoffMillis ∨
      config.reconnectionPolicy.maxBackoffMillis > maxReconnectBackoffMillis ∨
      config.reconnectionPolicy.maxAttempts = 0 ∨
      config.reconnectionPolicy.maxAttempts > maxReconnectAttempts then
    throw (.new .invalidRequest
      "IPC transceiver configuration exceeds its explicit timeout or queue bounds")

/-! ## Writing -/

def sent (t : IpcTransceiver) (frame : IpcFrame) (expected : Option IpcMessageType) :
    IpcTransceiver :=
  { t with
    stream := t.stream ++ [.wrote frame expected]
    telemetry := { t.telemetry with
      framesSent := t.telemetry.framesSent.saturatingAdd 1
      bytesSent := t.telemetry.bytesSent.saturatingAdd (U.wrap frame.wireSize) } }

/-- Send a frame. Its bytes are on the stream even when the flush that follows fails. -/
def sendFrame (t : IpcTransceiver) (frame : IpcFrame) (expected : Option IpcMessageType)
    (context : OperationContext) (write : WriteOutcome) : Result Unit × IpcTransceiver :=
  match validateContextAndConfig context t.config with
  | .error e => (.error e, t)
  | .ok _ =>
      if !t.state.isConnected then
        (.error (.new .adapterUnavailable
          "cannot send frame unless the transport stream is connected"), t)
      else if frame.wireSize > context.budget.maxBytes.val then
        (.error (.new .budgetExceeded "encoded IPC frame exceeds the operation byte budget"), t)
      else match frame.encode with
        | .error e => (.error e, t)
        | .ok _ =>
            match write with
            | .writeFailed error =>
                (.error (.new .adapterUnavailable
                  ("failed to write frame to IPC stream: " ++ error)),
                  { t with state := .disconnected })
            | .flushFailed error =>
                (.error (.new .adapterUnavailable ("failed to flush IPC stream: " ++ error)),
                  { t with
                    stream := t.stream ++ [.wrote frame expected]
                    state := .disconnected })
            | .written => (.ok (), t.sent frame expected)

/-! ## Reading -/

/-- `message.contains(text)`. -/
def containsText (message text : String) : Bool := (message.splitOn text).length > 1

/-- A broken stream keeps the reason. -/
def degrade (t : IpcTransceiver) (e : DfmcpError) : IpcTransceiver :=
  { t with state := .degraded e.message }

def countCrcError (t : IpcTransceiver) (e : DfmcpError) : IpcTransceiver :=
  if containsText e.message "CRC32 mismatch" then
    { t with telemetry := { t.telemetry with
        crcErrors := t.telemetry.crcErrors.saturatingAdd 1 } }
  else t

/-- The refusal of a decoded frame that cannot be queued. -/
def queueRefusal (t : IpcTransceiver) (context : OperationContext) (frame : IpcFrame) :
    Option DfmcpError :=
  if t.pendingResponses.length ≥ t.config.maxPendingResponses then
    some (.new .budgetExceeded "pending IPC response queue exceeded its configured bound")
  else if frame.wireSize > context.budget.maxBytes.val then
    some (.new .budgetExceeded "IPC response exceeded the operation byte budget")
  else if t.pendingResponseBytes + frame.wireSize > maxPendingResponseBytes ∨
      t.pendingResponseBytes + frame.wireSize > context.budget.maxBytes.val then
    some (.new .budgetExceeded "pending IPC response queue exceeded its byte bound")
  else none

def enqueue (t : IpcTransceiver) (frame : IpcFrame) : IpcTransceiver :=
  { t with
    telemetry := { t.telemetry with
      framesReceived := t.telemetry.framesReceived.saturatingAdd 1 }
    pendingResponseBytes := t.pendingResponseBytes + frame.wireSize
    pendingResponses := t.pendingResponses ++ [frame] }

/-- Decode the complete frames of the buffer into the queue. Every frame takes at least a header
off the buffer, so a buffer of `fuel` bytes holds fewer than `fuel + 1` of them. -/
def drain (context : OperationContext) : Nat → Nat → IpcTransceiver → Result Nat × IpcTransceiver
  | 0, count, t => (.ok count, t)
  | fuel + 1, count, t =>
      match t.decoder.pollNextFrame with
      | (.error e, decoder) =>
          (.error e, ({ t with decoder := decoder }.countCrcError e).degrade e)
      | (.ok none, decoder) => (.ok count, { t with decoder := decoder })
      | (.ok (some frame), decoder) =>
          let t := { t with decoder := decoder }
          match t.queueRefusal context frame with
          | some e => (.error e, t.degrade e)
          | none => drain context fuel (count + 1) (t.enqueue frame)

def received (t : IpcTransceiver) (bytes : Bytes) : IpcTransceiver :=
  { t with
    stream := t.stream ++ [.read bytes]
    telemetry := { t.telemetry with
      bytesReceived := t.telemetry.bytesReceived.saturatingAdd (U.wrap bytes.length) } }

/-- How many bytes a read may return. -/
def readLimit (context : OperationContext) : Nat := min context.budget.maxBytes.val 8192

/-- Read from the stream and decode what has arrived. -/
def pollIncoming (t : IpcTransceiver) (context : OperationContext) (read : ReadOutcome) :
    Result Nat × IpcTransceiver :=
  match validateContextAndConfig context t.config with
  | .error e => (.error e, t)
  | .ok _ =>
      if !t.state.isConnected then
        (.error (.new .adapterUnavailable
          "cannot poll frames unless the transport stream is connected"), t)
      else match read with
        | .closed =>
            (.error (.new .adapterUnavailable "IPC stream closed by remote bridge peer"),
              { t with state := .disconnected })
        | .wouldBlock => (.ok 0, t)
        | .failed error =>
            (.error (.new .adapterUnavailable ("IPC stream read error: " ++ error)),
              { t with state := .disconnected })
        | .data bytes =>
            let t := t.received bytes
            match t.decoder.pushBytes bytes with
            | (.error e, decoder) => (.error e, { t with decoder := decoder }.degrade e)
            | (.ok _, decoder) =>
                drain context (decoder.buffer.length + 1) 0 { t with decoder := decoder }

/-! ## Requests -/

/-- The bytes that identify a request. -/
def identityBytes (requestType expectedResponseType : IpcMessageType) (payload : Bytes) : Bytes :=
  utf8 "dfmcp-ipc-in-flight-request-v1" ++ beBytes 2 requestType.asU16.val ++
    beBytes 2 expectedResponseType.asU16.val ++ payload

def requestIdentity (requestType expectedResponseType : IpcMessageType) (payload : Bytes) :
    Digest32 :=
  Digest32.ofBytes (identityBytes requestType expectedResponseType payload)

/-- Take a frame off the queue, with its bytes off the count. -/
def removePendingResponse (t : IpcTransceiver) (index : Nat) :
    Result (Option IpcFrame) × IpcTransceiver :=
  match t.pendingResponses[index]? with
  | none => (.ok none, t)
  | some frame =>
      let t := { t with pendingResponses := t.pendingResponses.eraseIdx index }
      if t.pendingResponseBytes < frame.wireSize then
        (.error (.new .internalInvariantViolation
          "pending IPC response byte accounting is inconsistent"), t)
      else (.ok (some frame), { t with
        pendingResponseBytes := t.pendingResponseBytes - frame.wireSize })

/-- The first queued frame of a type, taken off the queue. -/
def takeResponse (t : IpcTransceiver) (messageType : IpcMessageType) :
    Result (Option IpcFrame) × IpcTransceiver :=
  match t.pendingResponses.findIdx? (fun frame => frame.messageType = messageType) with
  | none => (.ok none, t)
  | some index => t.removePendingResponse index

def timedOut (requestType expectedResponseType : IpcMessageType) : DfmcpError :=
  .new .budgetExceeded ("IPC request " ++ requestType.debug ++
    " timed out waiting for response " ++ expectedResponseType.debug)

/-- A failure reported by the bridge, shortened. -/
def bridgeError (frame : IpcFrame) : DfmcpError :=
  .new .adapterUnavailable (fromUtf8Lossy (frame.payload.take maxBridgeErrorBytes))

def notReady : DfmcpError :=
  (DfmcpError.new .adapterUnavailable
    ("nonblocking IPC response is not ready; poll again with the identical request from the " ++
      "supervised runtime")).setRetryable true

/-- What the queue already decides about the request in flight, if anything: it timed out, its
response or an error is there. -/
def settle (t : IpcTransceiver) (requestType expectedResponseType : IpcMessageType)
    (context : OperationContext) (deadline now : Instant) :
    Option (Result IpcFrame) × IpcTransceiver :=
  if now ≥ deadline then
    (some (.error (timedOut requestType expectedResponseType)),
      { t with
        inFlight := none
        state := .degraded ("IPC response deadline expired; stream cannot be safely reused " ++
          "without correlation identifiers") })
  else match t.takeResponse expectedResponseType with
    | (.error e, t) => (some (.error e), t)
    | (.ok (some frame), t) =>
        if frame.wireSize > context.budget.maxBytes.val then
          (some (.error (.new .budgetExceeded "IPC response exceeded the operation byte budget")),
            { t with inFlight := none })
        else (some (.ok frame), { t with inFlight := none })
    | (.ok none, t) =>
        match t.takeResponse .errorResponse with
        | (.error e, t) => (some (.error e), t)
        | (.ok (some frame), t) =>
            (some (.error (bridgeError frame)), { t with inFlight := none })
        | (.ok none, t) => (none, t)

/-- One iteration of the wait: what the clock shows, and what the read comes to. -/
structure Round where
  now : Instant
  read : ReadOutcome

/-- Wait for the response of the request in flight. After the given rounds a read would block. -/
def await (requestType expectedResponseType : IpcMessageType) (context : OperationContext)
    (deadline last : Instant) :
    List Round → IpcTransceiver → Result IpcFrame × IpcTransceiver
  | [], t =>
      match t.settle requestType expectedResponseType context deadline last with
      | (some result, t) => (result, t)
      | (none, t) =>
          match t.pollIncoming context .wouldBlock with
          | (.error e, t) => (.error e, { t with inFlight := none })
          | (.ok _, t) => (.error notReady, t)
  | round :: rounds, t =>
      match t.settle requestType expectedResponseType context deadline round.now with
      | (some result, t) => (result, t)
      | (none, t) =>
          match t.pollIncoming context round.read with
          | (.error e, t) => (.error e, { t with inFlight := none })
          | (.ok 0, t) => (.error notReady, t)
          | (.ok (_ + 1), t) =>
              await requestType expectedResponseType context deadline last rounds t

/-- What the environment does during one request: the clock at its start and at the end of its
wait, the write of its frame and the rounds of the wait. -/
structure Exchange where
  start : Instant
  write : WriteOutcome
  rounds : List Round
  last : Instant

/-- Find the request in flight, or write it. -/
def launch (t : IpcTransceiver) (frame : IpcFrame) (expectedResponseType : IpcMessageType)
    (context : OperationContext) (exchange : Exchange) : Result Instant × IpcTransceiver :=
  let identity := requestIdentity frame.messageType expectedResponseType frame.payload
  match t.inFlight with
  | some inFlight =>
      if inFlight.identity ≠ identity ∨ inFlight.expectedResponseType ≠ expectedResponseType then
        (.error (.new .adapterFailure
          "a different IPC request is already in flight on this single-flight stream"), t)
      else (.ok inFlight.deadline, t)
  | none =>
      if t.pendingResponses.any fun frame => frame.messageType = expectedResponseType ∨
          frame.messageType = .errorResponse then
        (.error (.new .adapterFailure
          "ambiguous stale IPC response was queued before a new request"), t)
      else match Instant.checkedAdd exchange.start
          (min t.config.requestTimeout (millis context.budget.maxWallMillis.val)) with
        | none =>
            (.error (.new .invalidRequest
              "IPC request timeout is too large for the platform clock"), t)
        | some deadline =>
            match t.sendFrame frame (some expectedResponseType) context exchange.write with
            | (.error e, t) => (.error e, t)
            | (.ok _, t) =>
                (.ok deadline,
                  { t with inFlight := some ⟨identity, expectedResponseType, deadline⟩ })

/-- Execute a synchronous request-response round trip. -/
def request (t : IpcTransceiver) (requestType : IpcMessageType) (payload : Bytes)
    (expectedResponseType : IpcMessageType) (context : OperationContext) (exchange : Exchange) :
    Result IpcFrame × IpcTransceiver :=
  match validateContextAndConfig context t.config with
  | .error e => (.error e, t)
  | .ok _ =>
      if frameHeaderSize + payload.length > context.budget.maxBytes.val then
        (.error (.new .budgetExceeded "IPC request frame exceeds the operation byte budget"), t)
      else match IpcFrame.new requestType payload with
        | .error e => (.error e, t)
        | .ok frame =>
            match t.launch frame expectedResponseType context exchange with
            | (.error e, t) => (.error e, t)
            | (.ok deadline, t) =>
                await requestType expectedResponseType context deadline exchange.last
                  exchange.rounds t

end IpcTransceiver

end Dfmcp
