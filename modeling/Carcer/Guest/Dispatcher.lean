import Carcer.Guest.Protocol

/-!
# The state of the serial dispatcher

The dispatcher of `internal/guest/dispatcher.go` owns the serial line of a guest. One goroutine
reads and writes the line; callers exchange a request for a response; host services that the guest
asks for run on the reader. They share the state of this module under one mutex, and each
definition below is what the source does under that mutex without releasing it.

The deadlines, the receive progress and the recorded events of the source are left out: whether a
deadline has passed is a choice of the environment.

## Main definitions

* `Dispatcher`: the shared state
* `queueWrite`, `advanceWrite`: the queue of outgoing frames
* `startupRound`, `framesRound`: one round of `consumeStartup` and of `consumeFrames`
* `hostResponse`: the response of `dispatchHostService`, given the result of the handler
* `close`, `fail`, `abortExchange`, `beginHostService`, `finishHostServiceLocked`: the other
  sections
-/

namespace Carcer.Guest

open Carcer.Wire

def readyMarker : Bytes := ascii "CODEXOS-SEED-READY\n"

def dispatcherWriteChunkBytes : ℕ := 16 * 1024

def dispatcherMaxQueuedWrites : ℕ := 8

def dispatcherMaxQueuedBytes : ℤ := 32 * 1024 * 1024 + 8 * frameHeaderSize

def maxHostDiagnosticBytes : ℕ := 4 * 1024

def maxStartupDiagnosticBytes : ℕ := 4 * 1024

/-- What an exchange or the reader can fail with. -/
inductive DispatcherError
  /-- "serial protocol dispatcher is closed" -/
  | closed
  /-- "serial protocol write queue is full" -/
  | queueFull
  | framing (error : FramingError)
  /-- "invalid frame magic" -/
  | invalidMagic
  /-- "received a non-host-service frame before CODEXOS-SEED-READY" -/
  | beforeReady
  /-- "received an unexpected guest tool-protocol response" -/
  | unexpectedResponse
  /-- "host-service request ID is zero" -/
  | zeroRequestID
  /-- "response request ID %d does not match %d" -/
  | responseID (response pending : UInt32)
  /-- "response message type 0x%04x does not match 0x%04x" -/
  | responseType (response pending : UInt16)
  | hostService (error : HostServiceProtocolError)
  | hostResponse (error : HostResponseError)
  /-- "serial transport reported an invalid write count" -/
  | invalidWriteCount
  /-- "timed out writing serial protocol frame" -/
  | writeTimeout
  /-- "timed out waiting for tool response" -/
  | responseTimeout
  /-- "serial receive transfer deadline exceeded" -/
  | transferDeadline
  /-- The error of the context of an exchange. -/
  | cancelled
  /-- The error of `Pump`. -/
  | transport
  deriving DecidableEq

/-- The field `kind` of a queued write. -/
inductive WriteKind
  | toolRequest
  | hostResponse
  deriving DecidableEq

/-- `queuedSerialWrite`. The source compares the records by address, which is `id` here. -/
structure QueuedWrite where
  id : ℕ
  data : Bytes
  kind : WriteKind
  requestID : UInt32
  offset : ℕ
  deriving DecidableEq

/-- `SerialProtocolDispatcher`. -/
structure Dispatcher where
  started : Bool
  ready : Bool
  closing : Bool
  failure : Option DispatcherError
  pendingResponse : Bool
  pendingRequestID : UInt32
  pendingResponseType : UInt16
  response : Option Frame
  hostActive : ℤ
  hostWindow : UInt64
  startupBuffer : Bytes
  frameBuffer : Bytes
  diagnostic : Bytes
  writes : List QueuedWrite
  queuedBytes : ℤ
  /-- The address of the next queued write. -/
  nextWrite : ℕ
  /-- The queued writes whose field `complete` is set. -/
  completed : List ℕ
  deriving DecidableEq

def newSerialProtocolDispatcher : Dispatcher where
  started := false
  ready := false
  closing := false
  failure := none
  pendingResponse := false
  pendingRequestID := 0
  pendingResponseType := 0
  response := none
  hostActive := 0
  hostWindow := 0
  startupBuffer := []
  frameBuffer := []
  diagnostic := []
  writes := []
  queuedBytes := 0
  nextWrite := 0
  completed := []

/-- Which of the handlers of `DispatcherOptions` are set. -/
structure DispatcherOptions where
  startupHostServices : Bool
  backgroundHostServices : Bool
  exchangeHostServices : Bool
  deriving DecidableEq

/-- The `scope` of a host-service dispatch. -/
inductive Scope
  | startup
  | background
  | exchange
  deriving DecidableEq

/-- The handler of a scope is set. -/
def DispatcherOptions.handler (options : DispatcherOptions) : Scope → Bool
  | .startup => options.startupHostServices
  | .background => options.backgroundHostServices
  | .exchange => options.exchangeHostServices

namespace Dispatcher

/-! ### The queue of writes -/

/-- There is room in the queue of a dispatcher that is neither failed nor closed. -/
structure Room (data : Bytes) (d : Dispatcher) : Prop where
  not_failed : d.failure = none
  not_closing : d.closing = false
  count_lt : d.writes.length < dispatcherMaxQueuedWrites
  bytes_le : d.queuedBytes + data.length ≤ dispatcherMaxQueuedBytes

/-- The queue with one more write. -/
def enqueue (queued : QueuedWrite) (d : Dispatcher) : Dispatcher :=
  { d with
    writes := d.writes ++ [queued]
    queuedBytes := d.queuedBytes + queued.data.length
    nextWrite := d.nextWrite + 1 }

/-- `queueWrite`: the queued write, or the error. -/
def queueWrite (data : Bytes) (kind : WriteKind) (requestID : UInt32) (d : Dispatcher) :
    Except DispatcherError (QueuedWrite × Dispatcher) :=
  match d.failure with
  | some e => .error e
  | none =>
    if d.closing then .error .closed
    else if d.writes.length ≥ dispatcherMaxQueuedWrites ∨
        data.length > dispatcherMaxQueuedBytes - d.queuedBytes then .error .queueFull
    else
      let queued : QueuedWrite := ⟨d.nextWrite, data, kind, requestID, 0⟩
      .ok (queued, d.enqueue queued)

theorem queueWrite_eq_ok {data : Bytes} {kind : WriteKind} {requestID : UInt32}
    {d d' : Dispatcher} {queued : QueuedWrite} :
    d.queueWrite data kind requestID = .ok (queued, d') ↔
      d.Room data ∧ queued = ⟨d.nextWrite, data, kind, requestID, 0⟩ ∧ d' = d.enqueue queued := by
  unfold queueWrite
  cases hfailure : d.failure with
  | some e =>
    simp only [reduceCtorEq, false_iff]
    rintro ⟨hroom, -⟩
    exact absurd hroom.not_failed (by simp [hfailure])
  | none =>
    cases hclosing : d.closing with
    | true =>
      simp only [if_true, reduceCtorEq, false_iff]
      rintro ⟨hroom, -⟩
      exact absurd hroom.not_closing (by simp [hclosing])
    | false =>
      simp only [Bool.false_eq_true, if_false]
      split_ifs with hfull
      · simp only [false_iff]
        rintro ⟨⟨-, -, hcount, hbytes⟩, -⟩
        omega
      rw [not_or, not_le, not_lt] at hfull
      rw [Except.ok.injEq, Prod.mk.injEq]
      constructor
      · rintro ⟨rfl, rfl⟩
        exact ⟨⟨hfailure, hclosing, hfull.1, by omega⟩, rfl, rfl⟩
      · rintro ⟨-, rfl, rfl⟩
        exact ⟨rfl, rfl⟩

/-- The bytes that the reader hands to `Pump`: the next chunk of the first write. -/
def outgoing (d : Dispatcher) : Bytes :=
  match d.writes with
  | [] => []
  | queued :: _ =>
    subslice queued.data queued.offset
      (min queued.data.length (queued.offset + dispatcherWriteChunkBytes))

def finishHostServiceLocked (d : Dispatcher) : Dispatcher :=
  if d.hostActive > 0 then
    { d with hostActive := d.hostActive - 1, hostWindow := d.hostWindow + 1 }
  else d

/-- It touches the counters of the host services only. -/
theorem finishHostServiceLocked_eq (d : Dispatcher) : ∃ hostActive hostWindow,
    d.finishHostServiceLocked = { d with hostActive := hostActive, hostWindow := hostWindow } := by
  unfold finishHostServiceLocked
  split_ifs <;> exact ⟨_, _, rfl⟩

/-- The end of `advanceWrite`, when the first write is complete. -/
def completeWrite (first : QueuedWrite) (rest : List QueuedWrite) (d : Dispatcher) : Dispatcher :=
  let d := { d with
    writes := rest
    queuedBytes := d.queuedBytes - first.data.length
    completed := first.id :: d.completed }
  if first.kind = .hostResponse then d.finishHostServiceLocked else d

theorem completeWrite_eq (first : QueuedWrite) (rest : List QueuedWrite) (d : Dispatcher) :
    ∃ hostActive hostWindow, d.completeWrite first rest = { d with
      writes := rest
      queuedBytes := d.queuedBytes - first.data.length
      completed := first.id :: d.completed
      hostActive := hostActive
      hostWindow := hostWindow } := by
  unfold completeWrite
  simp only
  split_ifs
  · exact finishHostServiceLocked_eq _
  · exact ⟨_, _, rfl⟩

/-- `advanceWrite`, for the write that the reader took from the queue and a count of bytes that it
has checked. When nothing was sent, `stalled` says whether the deadline of the write has passed. -/
def advanceWrite (queued : ℕ) (sent : ℕ) (stalled : Bool) (d : Dispatcher) :
    Except DispatcherError Dispatcher :=
  match d.writes with
  | [] => .ok d
  | first :: rest =>
    if first.id ≠ queued then .ok d
    else if sent = 0 ∧ stalled then .error .writeTimeout
    else
      let first := { first with offset := first.offset + sent }
      if first.offset ≠ first.data.length then .ok { d with writes := first :: rest }
      else .ok (d.completeWrite first rest)

/-- **What `advanceWrite` does with the write at the front of the queue.** -/
theorem advanceWrite_front {d : Dispatcher} {first rest} (hwrites : d.writes = first :: rest)
    (sent : ℕ) (stalled : Bool) :
    d.advanceWrite first.id sent stalled = .error .writeTimeout ∨
    first.offset + sent ≠ first.data.length ∧ d.advanceWrite first.id sent stalled =
      .ok { d with writes := { first with offset := first.offset + sent } :: rest } ∨
    first.offset + sent = first.data.length ∧
      d.advanceWrite first.id sent stalled = .ok (d.completeWrite first rest) := by
  unfold advanceWrite
  rw [hwrites]
  simp only [ne_eq, not_true_eq_false, if_false]
  split_ifs with hstalled hcomplete
  · exact .inl rfl
  · exact .inr (.inr ⟨hcomplete, rfl⟩)
  · exact .inr (.inl ⟨hcomplete, rfl⟩)

/-! ### Incoming bytes -/

/-- The section of `consumeIncoming`. -/
def receive (incoming : Bytes) (d : Dispatcher) : Dispatcher :=
  if d.ready then { d with frameBuffer := d.frameBuffer ++ incoming }
  else { d with startupBuffer := d.startupBuffer ++ incoming }

/-- What a round of `consumeStartup` ends with. -/
inductive StartupRound
  /-- The function returns no error. -/
  | done
  /-- The function returns an error. -/
  | failed (error : DispatcherError)
  /-- The ready line has been read: `consumeFrames` takes over. -/
  | ready
  /-- The first byte was not the start of anything, and the loop continues. -/
  | diagnostic (byte : UInt8)
  /-- A host service is dispatched before the loop continues. -/
  | dispatch (frame : Frame)
  deriving DecidableEq

/-- What a round of `consumeFrames` ends with. -/
inductive FramesRound
  /-- The function returns no error. -/
  | done
  /-- The function returns an error. -/
  | failed (error : DispatcherError)
  /-- The frame is the awaited response, and the loop continues. -/
  | response (frame : Frame)
  /-- A host service is dispatched before the loop continues. -/
  | dispatch (frame : Frame) (scope : Scope)
  deriving DecidableEq

/-- The dispatcher with another startup buffer. -/
def withStartup (buffer : Bytes) (d : Dispatcher) : Dispatcher := { d with startupBuffer := buffer }

/-- The diagnostic with one more byte, of which the source keeps the first ones. -/
def addDiagnostic (byte : UInt8) (d : Dispatcher) : Dispatcher :=
  { d with diagnostic :=
      if d.diagnostic.length < maxStartupDiagnosticBytes then d.diagnostic ++ [byte]
      else d.diagnostic }

/-- The dispatcher behind the ready line, with what follows it. -/
def becomeReady (rest : Bytes) (d : Dispatcher) : Dispatcher :=
  { d with ready := true, frameBuffer := d.frameBuffer ++ rest, startupBuffer := [] }

/-- One round of the loop of `consumeStartup`. -/
def startupRound (options : DispatcherOptions) (d : Dispatcher) : StartupRound × Dispatcher :=
  match d.startupBuffer with
  | [] => (.done, d)
  | byte :: rest =>
    if readyMarker <+: d.startupBuffer then
      (.ready, d.becomeReady (d.startupBuffer.drop readyMarker.length))
    else if frameMagic <+: d.startupBuffer ∧ options.startupHostServices then
      match extractFrame d.startupBuffer with
      | .error e => (.failed (.framing e), d)
      | .ok (none, _) => (.done, d)
      | .ok (some frame, buffer) =>
        if frame.messageType ≠ hostServiceRequest then (.failed .beforeReady, d.withStartup buffer)
        else (.dispatch frame, d.withStartup buffer)
    else if d.startupBuffer <+: readyMarker ∨
        options.startupHostServices ∧ d.startupBuffer <+: frameMagic then (.done, d)
    else
      (.diagnostic byte, (d.addDiagnostic byte).withStartup rest)

def trackReceiveLocked (d : Dispatcher) : Except DispatcherError Unit := do
  if d.frameBuffer.length ≥ frameHeaderSize then
    let (messageType, requestID, _) ←
      (decodeHeader (d.frameBuffer.take frameHeaderSize)).mapError .framing
    if messageType = hostServiceRequest then
      failIf (requestID = 0) .zeroRequestID
    else
      failIf (d.pendingResponse = false ∨ d.response ≠ none) .unexpectedResponse
      failIf (requestID ≠ d.pendingRequestID) (.responseID requestID d.pendingRequestID)
      failIf (messageType ≠ d.pendingResponseType)
        (.responseType messageType d.pendingResponseType)
  else
    failIf (¬d.frameBuffer.take frameMagic.length <+: frameMagic) .invalidMagic

/-- One round of the loop of `consumeFrames`. -/
def framesRound (d : Dispatcher) : FramesRound × Dispatcher :=
  match d.failure with
  | some e => (.failed e, d)
  | none =>
    match d.trackReceiveLocked with
    | .error e => (.failed e, d)
    | .ok () =>
      match extractFrame d.frameBuffer with
      | .error e => (.failed (.framing e), d)
      | .ok (none, _) => (.done, d)
      | .ok (some frame, buffer) =>
        let d := { d with frameBuffer := buffer }
        if frame.messageType = hostServiceRequest then
          (.dispatch frame (if d.pendingResponse then .exchange else .background), d)
        else if d.pendingResponse = false ∨ d.response ≠ none then
          (.failed .unexpectedResponse, d)
        else (.response frame, { d with pendingResponse := false, response := some frame })

/-- The frame is the response that an exchange waits for. -/
structure Awaited (d : Dispatcher) (messageType : UInt16) (requestID : UInt32) : Prop where
  pending : d.pendingResponse = true
  unanswered : d.response = none
  requestID : requestID = d.pendingRequestID
  messageType : messageType = d.pendingResponseType

/-- What `trackReceiveLocked` lets pass when the header of a frame has arrived: a request for a host
service, and the awaited response. -/
theorem trackReceiveLocked_eq_ok {d : Dispatcher} {messageType : UInt16} {requestID : UInt32}
    {payloadLength : ℕ} (hlong : frameHeaderSize ≤ d.frameBuffer.length)
    (hdecode : decodeHeader (d.frameBuffer.take frameHeaderSize) =
      .ok (messageType, requestID, payloadLength)) {u : Unit} :
    d.trackReceiveLocked = .ok u ↔
      messageType = hostServiceRequest ∧ requestID ≠ 0 ∨
      messageType ≠ hostServiceRequest ∧ d.Awaited messageType requestID := by
  unfold trackReceiveLocked
  rw [if_pos hlong, hdecode]
  simp only [Except.mapError, bind, Except.bind]
  by_cases htype : messageType = hostServiceRequest
  · simp [htype]
  rw [if_neg htype]
  simp only [htype, false_and, ne_eq, not_false_eq_true, true_and, false_or]
  constructor
  · intro h
    obtain ⟨_, hpending, h⟩ := bind_eq_ok.mp h
    obtain ⟨_, hid, hmatch⟩ := bind_eq_ok.mp h
    rw [failIf_eq_ok] at hpending hid hmatch
    push Not at hpending hid hmatch
    exact ⟨by simpa using hpending.1, hpending.2, hid, hmatch⟩
  · rintro ⟨hpending, hresponse, hid, hmatch⟩
    simp [failIf, hpending, hresponse, hid, hmatch]

/-- **What a round of `consumeFrames` can do.** -/
theorem framesRound_cases (d : Dispatcher) :
    (∃ e, d.framesRound = (.failed e, d)) ∨
    (d.failure = none ∧ d.framesRound = (.done, d)) ∨
    (∃ frame rest, d.failure = none ∧ d.frameBuffer = frame.bytes ++ rest ∧
      frame.messageType = hostServiceRequest ∧ frame.requestID ≠ 0 ∧
      d.framesRound = (.dispatch frame (if d.pendingResponse then .exchange else .background),
        { d with frameBuffer := rest })) ∨
    ∃ frame rest, d.failure = none ∧ d.frameBuffer = frame.bytes ++ rest ∧
      frame.messageType ≠ hostServiceRequest ∧ d.Awaited frame.messageType frame.requestID ∧
      d.framesRound = (.response frame,
        { d with frameBuffer := rest, pendingResponse := false, response := some frame }) := by
  unfold framesRound
  cases hfailure : d.failure with
  | some e => exact .inl ⟨e, rfl⟩
  | none =>
    rcases htrack : d.trackReceiveLocked with e | _
    · exact .inl ⟨e, rfl⟩
    rcases hextract : extractFrame d.frameBuffer with e | result
    · exact .inl ⟨_, rfl⟩
    obtain ⟨_ | frame, rest⟩ := result
    · exact .inr (.inl ⟨rfl, rfl⟩)
    obtain ⟨hencodable, hbuffer⟩ := extractFrame_eq_some.mp hextract
    have hlong : frameHeaderSize ≤ d.frameBuffer.length := by
      rw [hbuffer, List.length_append, frame.length_bytes]
      omega
    have hpassed := (trackReceiveLocked_eq_ok hlong
      (frame.decodeHeader_take hencodable hbuffer)).mp htrack
    refine .inr (.inr ?_)
    by_cases htype : frame.messageType = hostServiceRequest
    · have hid : frame.requestID ≠ 0 := by
        rcases hpassed with ⟨-, hid⟩ | ⟨hother, -⟩
        · exact hid
        · exact absurd htype hother
      exact .inl ⟨frame, rest, rfl, hbuffer, htype, hid, by simp only [if_pos htype]⟩
    obtain ⟨-, hawaited⟩ := hpassed.resolve_left fun h => htype h.1
    refine .inr ⟨frame, rest, rfl, hbuffer, htype, hawaited, ?_⟩
    simp only [if_neg htype, hawaited.pending, hawaited.unanswered]
    simp

/-! ### Host services -/

/-- The first section of `dispatchHostService`. -/
def beginHostService (d : Dispatcher) : Dispatcher := { d with hostActive := d.hostActive + 1 }

end Dispatcher

/-- What a call of a handler ends with: a frame, an error, or a panic, the last two with their
text. -/
inductive HandlerResult
  | response (frame : Frame)
  | error (text : Bytes)
  | panic (text : Bytes)
  deriving DecidableEq

def boundedHostDiagnostic (message : Bytes) : Bytes := message.take maxHostDiagnosticBytes

/-- `callHostServiceHandler`, which turns a panic into an error, with the response that
`dispatchHostService` makes of an error. -/
def handlerResponse (request : HostRequest) : HandlerResult → Except HostResponseError Frame
  | .response frame => .ok frame
  | .error text => createHostServiceResponse request.requestID 2
      (boundedHostDiagnostic (ascii "trusted host-service failure: " ++ text))
  | .panic text => createHostServiceResponse request.requestID 2
      (boundedHostDiagnostic (ascii "trusted host-service failure: " ++ ascii "panic: " ++ text))

/-- The part of `dispatchHostService` between its first section and `queueWrite`: the request ID
and the bytes of the response. The handler is called on a request that it can decode when a handler
is set; its result is not looked at otherwise. -/
def hostResponse (available : Bool) (frame : Frame) (result : HostRequest → HandlerResult) :
    Except DispatcherError (UInt32 × Bytes) := do
  let response ← match decodeHostServiceRequest frame with
    | .error e =>
      if frame.requestID = 0 then .error (.hostService e)
      else (createHostServiceResponse frame.requestID 1
        (boundedHostDiagnostic e.reason)).mapError .hostResponse
    | .ok request =>
      if available = false then
        (createHostServiceResponse request.requestID 1
          (ascii "host services are not available")).mapError .hostResponse
      else (handlerResponse request (result request)).mapError .hostResponse
  let encoded ← (encodeFrame response).mapError .framing
  return (response.requestID, encoded)

namespace Dispatcher

/-! ### The end of a dispatcher -/

/-- The section of `close`. -/
def close (d : Dispatcher) : Dispatcher :=
  if d.closing then d
  else { d with closing := true, failure := d.failure.or (some .closed) }

theorem close_eq (d : Dispatcher) : ∃ closing failure,
    d.close = { d with closing := closing, failure := failure } := by
  unfold close
  split_ifs <;> exact ⟨_, _, rfl⟩

def fail (e : DispatcherError) (d : Dispatcher) : Dispatcher :=
  if d.closing then d
  else if d.hostActive ≠ 0 then { d with
    hostWindow := d.hostWindow + UInt64.ofInt d.hostActive
    hostActive := 0
    failure := d.failure.or (some e) }
  else { d with failure := d.failure.or (some e) }

theorem fail_eq (e : DispatcherError) (d : Dispatcher) : ∃ failure hostActive hostWindow,
    d.fail e = { d with
      failure := failure
      hostActive := hostActive
      hostWindow := hostWindow } := by
  unfold fail
  split_ifs <;> exact ⟨_, _, _, rfl⟩

/-- The section of `abortExchange`. -/
def abortExchange (e : DispatcherError) (d : Dispatcher) : Dispatcher :=
  { d with failure := d.failure.or (some e) }

/-! ### Exchanges -/

/-- The first section of `Exchange`, when it does not refuse the request. -/
def beginExchange (request : Frame) (d : Dispatcher) : Dispatcher :=
  { d with
    pendingResponse := true
    pendingRequestID := request.requestID
    pendingResponseType := request.messageType ||| 0x8000
    response := none }

/-- The deferred section of `Exchange`. -/
def endExchange (d : Dispatcher) : Dispatcher :=
  { d with pendingResponse := false, response := none }

end Dispatcher

end Carcer.Guest
